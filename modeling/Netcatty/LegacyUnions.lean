import Netcatty.LegacyPayloads
import Netcatty.SyncOneSided

/-!
A payload that retains more and more sources goes on from the first one.

Without a base and with deletions preserved, what the local side has stays as it is and in its place;
what only the remote side has comes after it.
-/

namespace Netcatty.SyncMerge

open List OrderedMap

theorem eraseDups_eq_self {α : Type} [BEq α] [LawfulBEq α] {l : List α} (nodup : l.Nodup) : l.eraseDups = l := by
  induction l with
  | nil => rfl
  | cons head tail ih =>
    obtain ⟨fresh, nodup'⟩ := nodup_cons.mp nodup
    have kept : tail.filter (fun item => !item == head) = tail :=
      filter_eq_self.mpr fun item mem => by
        rw [Bool.not_eq_true', beq_eq_false_iff_ne]
        rintro rfl
        exact fresh mem
    rw [eraseDups_cons, kept, ih nodup']

section Loop

variable {T : Type} {ops : EntityOps T}

theorem mergeEntity_without_base {options : EntityMergeOptions} (preserved : options.preserveDeletions)
    (tombstones : Tombstones) (id : JsString) (local_ remote : Option T) :
    (mergeEntity ops options tombstones id none local_ remote).kept = local_.or remote := by
  rcases local_ with _ | localItem <;> rcases remote with _ | remoteItem <;>
    simp [mergeEntity, addition_kept, preserved]

theorem nodup_keys_byId (entities : List T) : (byId ops entities).keys.Nodup := (byId ops entities).nodup

theorem byId_filterMap {ids : List JsString} {item : JsString → Option T} (nodup : ids.Nodup)
    (own : ∀ id, ∀ entity ∈ item id, ops.id entity = id) (all : ∀ id ∈ ids, (item id).isSome) :
    (byId ops (ids.filterMap item)).keys = ids ∧
      ∀ id ∈ ids, (byId ops (ids.filterMap item)).get? id = item id := by
  induction ids using List.reverseRecOn with
  | nil => exact ⟨rfl, fun id mem => absurd mem not_mem_nil⟩
  | append_singleton ids last ih =>
    obtain ⟨nodup', -, apart⟩ := nodup_append.mp nodup
    obtain ⟨keys, values⟩ := ih nodup' fun id mem => all id (mem_append_left _ mem)
    obtain ⟨entity, found⟩ := Option.isSome_iff_exists.mp
      (all last (mem_append_right _ (mem_singleton_self last)))
    have fresh : last ∉ ids := fun mem => apart last mem last (mem_singleton_self last) rfl
    have unknown : ¬(byId ops (ids.filterMap item)).has last := by
      rw [← OrderedMap.mem_keys, keys]
      exact fresh
    have snoc : (ids ++ [last]).filterMap item = ids.filterMap item ++ [entity] := by
      rw [filterMap_append, filterMap_cons_some found, filterMap_nil]
    rw [snoc, byId_snoc, own last entity found]
    refine ⟨by rw [keys_set, if_neg unknown, keys], fun id mem => ?_⟩
    rw [OrderedMap.get?_set]
    split
    · rename_i same
      rw [same, found]
    · rename_i other
      refine values id ((mem_append.mp mem).resolve_right fun same => ?_)
      exact other (mem_singleton.mp same)

theorem byId_merged {options : EntityMergeOptions} (preserved : options.preserveDeletions)
    (tombstones : Tombstones) (local_ remote : List T) :
    (byId ops local_).ExtendedBy
      (byId ops (mergeEntityArrays ops [] local_ remote tombstones options).merged) := by
  let item := fun id => ((byId ops local_).get? id).or ((byId ops remote).get? id)
  let ids := ((byId ops local_).keys ++ (byId ops remote).keys).eraseDups
  have merged : (mergeEntityArrays ops [] local_ remote tombstones options).merged = ids.filterMap item := by
    unfold mergeEntityArrays mergeById
    dsimp only
    rw [filterMap_map]
    refine filterMap_congr fun id _ => ?_
    exact mergeEntity_without_base preserved tombstones id _ _
  have own : ∀ id, ∀ entity ∈ item id, ops.id entity = id := by
    intro id entity found
    rcases Option.or_eq_some_iff.mp found with here | ⟨-, here⟩
    · exact id_of_get?_byId ops here
    · exact id_of_get?_byId ops here
  have all : ∀ id ∈ ids, (item id).isSome := by
    intro id mem
    rw [mem_eraseDups, mem_append, OrderedMap.mem_keys, OrderedMap.mem_keys] at mem
    change (((byId ops local_).get? id).or ((byId ops remote).get? id)).isSome
    rw [Option.isSome_or, Bool.or_eq_true]
    exact mem
  obtain ⟨keys, values⟩ := @byId_filterMap _ ops _ _ (eraseDups_nodup _) own all
  rw [merged]
  refine ⟨⟨((byId ops remote).keys.removeAll (byId ops local_).keys).eraseDups, ?_⟩, fun id mem => ?_⟩
  · rw [keys]
    rw [eraseDups_append, eraseDups_eq_self (nodup_keys_byId local_)]
  · rw [values id (mem_eraseDups.mpr (mem_append_left _ mem))]
    obtain ⟨entity, found⟩ := has_iff.mp (OrderedMap.mem_keys.mp mem)
    change ((byId ops local_).get? id).or _ = _
    rw [found]
    rfl

theorem byId_map {f : T → T} (same : ∀ entity, ops.id (f entity) = ops.id entity) (entities : List T) :
    (byId ops (entities.map f)).keys = (byId ops entities).keys ∧
      ∀ id, (byId ops (entities.map f)).get? id = ((byId ops entities).get? id).map f := by
  induction entities using List.reverseRecOn with
  | nil => exact ⟨rfl, fun _ => rfl⟩
  | append_singleton entities last ih =>
    obtain ⟨keys, values⟩ := ih
    have held : (byId ops (entities.map f)).has (ops.id last) = (byId ops entities).has (ops.id last) := by
      rw [OrderedMap.has, OrderedMap.has, values, Option.isSome_map]
    rw [map_append, map_singleton, byId_snoc, byId_snoc, same]
    refine ⟨by rw [keys_set, keys_set, held, keys], fun id => ?_⟩
    rw [OrderedMap.get?_set, OrderedMap.get?_set]
    split
    · rfl
    · exact values id

theorem byId_extendedBy_map {f : T → T} (same : ∀ entity, ops.id (f entity) = ops.id entity)
    {entities more : List T} (fixed : ∀ entity ∈ entities, f entity = entity)
    (extended : (byId ops entities).ExtendedBy (byId ops more)) :
    (byId ops entities).ExtendedBy (byId ops (more.map f)) := by
  obtain ⟨⟨extra, keys⟩, values⟩ := extended
  refine ⟨⟨extra, by rw [(byId_map same more).1, keys]⟩, fun id mem => ?_⟩
  rw [(byId_map same more).2, values id mem]
  obtain ⟨entity, found⟩ := has_iff.mp (OrderedMap.mem_keys.mp mem)
  rw [found, Option.map_some, fixed entity (mem_of_get?_byId found)]

end Loop

namespace Legacy

/-! ## The entities of a payload -/

/-- The entities of a collection as they are merged and compared. -/
def entities (payload : SyncPayload) : CloudSyncPayloadEntityKey → List SyncEntity
  | .hosts => sanitizeHostsForSync payload.hosts
  | .keys => payload.keys
  | .identities => payload.identities.getD []
  | .proxyProfiles => payload.proxyProfiles.getD []
  | .snippets => payload.snippets
  | .notes => payload.notes.getD []
  | .portForwardingRules => payload.portForwardingRules.getD []
  | .browserBookmarks => payload.browserBookmarks.getD []
  | .groupConfigs => (payload.groupConfigs.getD []).map wrapGC
  | .monitorPanels => payload.monitorPanels.getD []
  | _ => []

def recordOf (collection : CloudSyncPayloadEntityKey) (entity : SyncEntity) : JsonObject :=
  if collection = .groupConfigs then entity.fields else entity.record

variable {payload : SyncPayload} {collection : CloudSyncPayloadEntityKey}

section

variable (known : collection ∈ CONVERGENT_ENTITY_COLLECTIONS)
include known

theorem map_id_entities :
    (entities payload collection).map SyncEntity.id = payload.entityIds collection := by
  cases collection with
  | hosts => exact map_id_sanitize payload.hosts
  | groupConfigs => exact map_id_wrapGC _
  | customGroups | snippetPackages | noteGroups | aiSessions => exact absurd known (by decide)
  | _ => rfl

theorem records_eq : ((withHostsSanitizedForSync payload).records collection).getD [] =
      (entities payload collection).map (recordOf collection) := by
  have optional : ∀ items : Option (List SyncEntity),
      (items.map (·.map SyncEntity.record)).getD [] = (items.getD []).map SyncEntity.record := by
    intro items
    cases items with
    | none => rfl
    | some items => rfl
  cases collection with
  | hosts | keys | snippets => rfl
  | groupConfigs =>
    unfold withHostsSanitizedForSync SyncPayload.records entities
    dsimp only
    cases payload.groupConfigs with
    | none => rfl
    | some configs =>
      rw [Option.map_some, Option.getD_some, Option.getD_some, List.map_map]
      rfl
  | customGroups | snippetPackages | noteGroups | aiSessions => exact absurd known (by decide)
  | _ => exact optional _

omit known in
theorem lookup_head (key : JsString) (value : JsonValue) (rest : JsonObject) :
    getOwnRecordValue ((key, value) :: rest) key = some value := by
  simp [getOwnRecordValue, SortedMap.lookupEntry]

omit known in
theorem entityId_recordOf {entity : SyncEntity} (mem : entity ∈ entities payload collection) :
    entityId collection (recordOf collection entity) = if entity.id = [] then none else some entity.id := by
  have read : getOwnRecordValue (recordOf collection entity)
      (if collection = .groupConfigs then text "path" else text "id") = some (.str entity.id) := by
    unfold recordOf
    by_cases group : collection = .groupConfigs
    · subst group
      obtain ⟨config, -, rfl⟩ := List.mem_map.mp mem
      exact lookup_head _ _ _
    · rw [if_neg group, if_neg group]
      exact lookup_head _ _ _
  unfold entityId
  rw [read]
  cases entity.id with
  | nil => rfl
  | cons unit rest => rfl

theorem entityMap_spec : (entityMap (withHostsSanitizedForSync payload) collection).keys =
        (byId entityOps (entities payload collection)).keys.filter (· ≠ []) ∧
      ∀ id, (entityMap (withHostsSanitizedForSync payload) collection).get? id =
        if id = [] then none
        else ((byId entityOps (entities payload collection)).get? id).map (recordOf collection) := by
  unfold entityMap
  rw [records_eq known]
  have reads : ∀ entity ∈ entities payload collection, entityId collection (recordOf collection entity) =
      if entity.id = [] then none else some entity.id := fun entity mem => entityId_recordOf mem
  generalize entities payload collection = items at reads ⊢
  induction items using List.reverseRecOn with
  | nil => exact ⟨rfl, fun id => (ite_self none).symm⟩
  | append_singleton items last ih =>
    obtain ⟨keys, values⟩ := ih fun entity mem => reads entity (mem_append_left _ mem)
    rw [map_append, map_singleton, foldl_append, foldl_cons, foldl_nil, byId_snoc]
    have added : ∀ map : OrderedMap JsString JsonObject, addRecord collection map (recordOf collection last) =
        if last.id = [] then map else map.set last.id (recordOf collection last) := by
      intro map
      unfold addRecord
      rw [reads last (mem_append_right _ (mem_singleton_self last))]
      by_cases nameless : last.id = []
      · rw [if_pos nameless, if_pos nameless]
      · rw [if_neg nameless, if_neg nameless]
    rw [added]
    change _ = List.filter _ (OrderedMap.set _ last.id last).keys ∧ ∀ id, _ =
      if id = [] then none else ((OrderedMap.set _ last.id last).get? id).map (recordOf collection)
    by_cases nameless : last.id = []
    · rw [if_pos nameless, nameless]
      refine ⟨?_, fun id => ?_⟩
      · rw [keys_set]
        split
        · exact keys
        · rw [filter_append]
          exact keys.trans (append_nil _).symm
      · refine (values id).trans ?_
        by_cases empty : id = []
        · rw [if_pos empty, if_pos empty]
        · rw [if_neg empty, if_neg empty, OrderedMap.get?_set, if_neg empty]
    · rw [if_neg nameless]
      have held : ∀ map : OrderedMap JsString JsonObject, map.get? last.id =
          (((byId entityOps items).get? last.id).map (recordOf collection)) →
            map.has last.id = (byId entityOps items).has last.id := by
        intro map same
        rw [OrderedMap.has, OrderedMap.has, same, Option.isSome_map]
      have same := (values last.id).trans (if_neg nameless)
      refine ⟨?_, fun id => ?_⟩
      · rw [keys_set, keys_set, held _ same]
        split
        · exact keys
        · rw [filter_append, ← keys]
          congr 1
          simp [nameless]
      · rw [OrderedMap.get?_set, OrderedMap.get?_set]
        by_cases here : id = last.id
        · rw [if_pos here, if_pos here, here, if_neg nameless]
          rfl
        · rw [if_neg here, if_neg here, values id]

theorem has_entityMap {id : JsString} :
    (entityMap (withHostsSanitizedForSync payload) collection).has id ↔
      id ≠ [] ∧ id ∈ payload.entityIds collection := by
  rw [OrderedMap.has, (entityMap_spec known).2]
  by_cases nameless : id = []
  · rw [if_pos nameless]
    exact ⟨fun held => absurd held Bool.false_ne_true, fun held => absurd nameless held.1⟩
  · rw [if_neg nameless, Option.isSome_map, isSome_get?_byId, contains_iff_mem]
    change id ∈ (entities payload collection).map SyncEntity.id ↔ _
    rw [map_id_entities known]
    exact ⟨fun mem => ⟨nameless, mem⟩, And.right⟩

end

theorem entityMap_extendedBy {payload more : SyncPayload} {collection : CloudSyncPayloadEntityKey}
    (known : collection ∈ CONVERGENT_ENTITY_COLLECTIONS)
    (extended : (byId entityOps (entities payload collection)).ExtendedBy
      (byId entityOps (entities more collection))) :
    (entityMap (withHostsSanitizedForSync payload) collection).ExtendedBy
      (entityMap (withHostsSanitizedForSync more) collection) := by
  obtain ⟨⟨extra, keys⟩, values⟩ := extended
  refine ⟨⟨extra.filter (· ≠ []), ?_⟩, fun id mem => ?_⟩
  · rw [(entityMap_spec known).1, (entityMap_spec known).1, keys, filter_append]
  · rw [(entityMap_spec known).1, mem_filter] at mem
    rw [(entityMap_spec known).2, (entityMap_spec known).2, values id mem.1]

theorem mem_stringSet (known : collection ∈ CONVERGENT_STRING_COLLECTIONS) {value : JsString} :
    value ∈ stringSet payload collection ↔ value ∈ payload.entityIds collection := by
  unfold stringSet
  rw [mem_eraseDups]
  cases collection with
  | customGroups | snippetPackages | noteGroups => rfl
  | _ => exact absurd known (by decide)

/-! ## Retaining a source -/

def OnePaths (payload : SyncPayload) : Prop := ∀ config ∈ payload.groupConfigs.getD [], config.OnePath

theorem collections_carryForward (localeCompare : JsString → JsString → Ordering) (payload : SyncPayload)
    (sources : List SyncPayload) :
    entities (carryForwardSyncDeletions localeCompare payload sources) = entities payload ∧
      (carryForwardSyncDeletions localeCompare payload sources).records = payload.records ∧
      (carryForwardSyncDeletions localeCompare payload sources).strings = payload.strings ∧
      (carryForwardSyncDeletions localeCompare payload sources).groupConfigs = payload.groupConfigs := by
  unfold carryForwardSyncDeletions
  dsimp only
  split
  · exact ⟨rfl, rfl, rfl, rfl⟩
  · refine ⟨funext fun key => ?_, funext fun key => ?_, funext fun key => ?_, rfl⟩
    · cases key <;> rfl
    · cases key <;> rfl
    · cases key <;> rfl

theorem sanitize_sanitize (hosts : List SyncEntity) : ∀ host ∈ sanitizeHostsForSync hosts,
      (⟨host.id, host.fields.filter fun field => field.1 ≠ text "lastConnectedAt"⟩ : SyncEntity) = host := by
  intro host mem
  obtain ⟨original, -, rfl⟩ := List.mem_map.mp mem
  dsimp only
  rw [List.filter_filter]
  simp only [Bool.and_self]

variable (tools : MergeTools) (clock : ℚ) (retained source : SyncPayload)

theorem onePaths_retain : OnePaths (retain tools clock retained source) := by
  intro config mem
  unfold retain mergeSyncPayloads at mem
  dsimp only at mem
  rw [(collections_carryForward _ _ _).2.2.2] at mem
  obtain ⟨entity, -, rfl⟩ := List.mem_map.mp mem
  intro path
  obtain ⟨field, kept, named⟩ := List.mem_map.mp path
  exact of_decide_eq_true (mem_filter.mp kept).2 named

/-- The retained entities stay as they are and in their places. -/
theorem entities_retain {retained : SyncPayload} (onePaths : OnePaths retained)
    (source : SyncPayload) {collection : CloudSyncPayloadEntityKey}
    (known : collection ∈ CONVERGENT_ENTITY_COLLECTIONS) :
    (byId entityOps (entities retained collection)).ExtendedBy
      (byId entityOps (entities (retain tools clock retained source) collection)) := by
  unfold retain mergeSyncPayloads
  dsimp only
  rw [(collections_carryForward _ _ _).1]
  cases collection with
  | hosts =>
    change (byId entityOps (sanitizeHostsForSync retained.hosts)).ExtendedBy (byId entityOps (List.map _ _))
    refine byId_extendedBy_map ?_ (sanitize_sanitize retained.hosts) ?_
    · exact fun _ => rfl
    · exact byId_merged rfl _ _ _
  | groupConfigs =>
    change (byId entityOps (List.map wrapGC _)).ExtendedBy (byId entityOps (List.map wrapGC (List.map unwrapGC _)))
    rw [List.map_map]
    refine byId_extendedBy_map ?_ (fun entity mem => ?_) ?_
    · exact fun _ => rfl
    · obtain ⟨config, held, rfl⟩ := List.mem_map.mp mem
      exact congrArg wrapGC (unwrapGC_wrapGC (onePaths config held))
    · exact byId_merged rfl _ _ _
  | customGroups | snippetPackages | noteGroups | aiSessions => exact absurd known (by decide)
  | _ => exact byId_merged rfl _ _ _

theorem strings_merged {options : EntityMergeOptions} (preserved : options.preserveDeletions)
    (tombstones : Tombstones) (local_ remote : List JsString) :
    ∃ extra, (mergeStringArrays [] local_ remote tombstones options).eraseDups = local_.eraseDups ++ extra := by
  have all : (local_.eraseDups ++ remote.eraseDups).eraseDups.filter
      (keepsString [] local_ remote tombstones options) = (local_.eraseDups ++ remote.eraseDups).eraseDups := by
    refine filter_eq_self.mpr fun value mem => ?_
    rw [mem_eraseDups, mem_append, mem_eraseDups, mem_eraseDups] at mem
    unfold keepsString
    rw [preserved]
    simpa using mem
  refine ⟨(remote.eraseDups.removeAll local_.eraseDups).eraseDups, ?_⟩
  unfold mergeStringArrays
  change (List.filter _ (local_.eraseDups ++ remote.eraseDups).eraseDups).eraseDups = _
  rw [all, eraseDups_eq_self (eraseDups_nodup _), eraseDups_append, eraseDups_eq_self (eraseDups_nodup local_)]

theorem stringSet_retain
    {collection : CloudSyncPayloadEntityKey} (known : collection ∈ CONVERGENT_STRING_COLLECTIONS) :
    ∃ extra, stringSet (retain tools clock retained source) collection = stringSet retained collection ++ extra := by
  unfold stringSet retain mergeSyncPayloads
  dsimp only
  rw [(collections_carryForward _ _ _).2.2.1]
  cases collection with
  | customGroups => exact strings_merged rfl _ _ _
  | snippetPackages => exact strings_merged rfl _ _ _
  | noteGroups => exact strings_merged rfl _ _ _
  | _ => exact absurd known (by decide)

/-- The payload has every collection of a replica. -/
structure KnowsAll (payload : SyncPayload) : Prop where
  records : ∀ collection ∈ CONVERGENT_ENTITY_COLLECTIONS, (payload.records collection).isSome
  strings : ∀ collection ∈ CONVERGENT_STRING_COLLECTIONS, (payload.strings collection).isSome

theorem knowsAll_retain : KnowsAll (retain tools clock retained source) := by
  unfold retain mergeSyncPayloads
  constructor
  · intro collection known
    dsimp only
    rw [(collections_carryForward _ _ _).2.1]
    cases collection with
    | customGroups | snippetPackages | noteGroups | aiSessions => exact absurd known (by decide)
    | _ => rfl
  · intro collection known
    dsimp only
    rw [(collections_carryForward _ _ _).2.2.1]
    cases collection with
    | customGroups | snippetPackages | noteGroups => rfl
    | _ => exact absurd known (by decide)

/-! ## Retaining all sources -/

/-- What is retained goes on from the first payload, and has what that and the sources have. -/
structure Retained (payload : SyncPayload) (sources : List SyncPayload) (retained : SyncPayload) : Prop
    extends KnowsAll retained where
  entities : ∀ collection ∈ CONVERGENT_ENTITY_COLLECTIONS,
    (entityMap (withHostsSanitizedForSync payload) collection).ExtendedBy
      (entityMap (withHostsSanitizedForSync retained) collection)
  stringSets : ∀ collection ∈ CONVERGENT_STRING_COLLECTIONS,
    ∃ extra, stringSet retained collection = stringSet payload collection ++ extra
  ids : ∀ collection id, id ∈ retained.entityIds collection ↔
    id ∈ payload.entityIds collection ∨ ∃ source ∈ sources, id ∈ source.entityIds collection

theorem entityIds_withOmitted (payload : SyncPayload) (collection : CloudSyncPayloadEntityKey) :
    (payload.withOmitted emptyBase).entityIds collection = payload.entityIds collection := by
  have optional : ∀ {α β : Type} (items : Option (List α)) (other : Option (List α)) (f : List α → List β),
      other = none ∨ other = some [] → f ((items <|> other).getD []) = f (items.getD []) := by
    intro α β items other f none_
    rcases none_ with rfl | rfl <;> cases items <;> rfl
  cases collection with
  | hosts | keys | snippets | customGroups => rfl
  | groupConfigs => exact optional _ _ _ (.inl rfl)
  | monitorPanels => exact optional _ _ _ (.inl rfl)
  | snippetPackages => exact optional _ _ id (.inr rfl)
  | noteGroups => exact optional _ _ id (.inr rfl)
  | _ => exact optional _ _ _ (.inr rfl)

theorem entityIds_retain (collection : CloudSyncPayloadEntityKey) (id : JsString) :
    id ∈ (retain tools clock retained source).entityIds collection ↔
      id ∈ retained.entityIds collection ∨ id ∈ source.entityIds collection := by
  unfold retain
  rw [merge_preserving_union, Option.getD_none, entityIds_withOmitted, entityIds_withOmitted]

/-- **Retaining sources only adds.** -/
theorem retained_foldl {payload : SyncPayload} (onePaths : OnePaths payload)
    (knowsAll : KnowsAll payload) (sources : List SyncPayload) :
    Retained payload sources (sources.foldl (retain tools clock) payload) := by
  induction sources generalizing payload with
  | nil =>
    refine ⟨knowsAll, fun _ _ => .refl _, fun _ _ => ⟨[], (append_nil _).symm⟩, fun collection id => ?_⟩
    simp only [foldl_nil, not_mem_nil, false_and, exists_false, or_false]
  | cons source sources ih =>
    have rest := ih (onePaths_retain tools clock payload source) (knowsAll_retain tools clock payload source)
    rw [foldl_cons]
    refine ⟨rest.toKnowsAll, fun collection known => ?_, fun collection known => ?_, fun collection id => ?_⟩
    · exact (entityMap_extendedBy known (entities_retain tools clock onePaths source known)).trans
        (rest.entities collection known)
    · obtain ⟨extra, first⟩ := stringSet_retain tools clock payload source known
      obtain ⟨extra', second⟩ := rest.stringSets collection known
      exact ⟨extra ++ extra', by rw [second, first, append_assoc]⟩
    · rw [rest.ids, entityIds_retain, exists_mem_cons_iff, or_assoc]

end Legacy

end Netcatty.SyncMerge
