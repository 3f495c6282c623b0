import Netcatty.ConvergentAdditions
import Netcatty.LegacyUnions

/-!
What a payload shows of a replica, and what a payload that only adds changes.

The difference between a payload and one that goes on from it is a batch of additions.
-/

namespace Netcatty.SyncMerge.Legacy

open List Option OrderedMap SortedMap

/-! ## The payload of a replica -/

theorem requireKnownCollections_eq_ok {state : ConvergentSyncState} :
    requireKnownCollections state = .ok () ↔
      (∀ c ∈ state.collections.keys, c ∈ CONVERGENT_ENTITY_COLLECTIONS.map CloudSyncPayloadEntityKey.name) ∧
        ∀ c ∈ state.stringCollections.keys, c ∈ CONVERGENT_STRING_COLLECTIONS.map CloudSyncPayloadEntityKey.name := by
  simp only [requireKnownCollections, check_bind_eq_ok, forM_eq_ok, ensure_eq_ok, decide_eq_true_eq]

theorem materializeSyncPayload_eq_ok {state : ConvergentSyncState} {syncedAt : ℚ} {payload : SyncedPayload} :
    materializeSyncPayloadFromConvergentState state syncedAt = .ok payload ↔
      requireKnownCollections state = .ok () ∧
        ∃ result, materializeConvergentSyncState state = .ok result ∧ payload = payloadOf result syncedAt := by
  simp only [materializeSyncPayloadFromConvergentState, check_bind_eq_ok]
  simp only [bind_eq_ok (α := MaterializedConvergentSyncState), pure_eq_ok, Except.ok.injEq, eq_comm (a := payload)]

section Snapshot

variable {state : ConvergentSyncState} {result : MaterializedConvergentSyncState}

theorem isSnapshot_of_ok (valid : ValidState state) (made : materializeConvergentSyncState state = .ok result) :
    IsSnapshot state result := by
  obtain ⟨other, made', snapshot⟩ := materializeConvergentSyncState_eq_ok valid
  rw [made] at made'
  cases made'
  exact snapshot

theorem mem_collectionValues (snapshot : IsSnapshot state result) {collection : CloudSyncPayloadEntityKey}
    {value : JsonObject} : value ∈ collectionValues result collection ↔
      ∃ id entity, findEntity state collection.name id = some entity ∧
        registerIsPresent (some entity.presence) ∧ value = Netcatty.entityValue (id, entity) := by
  unfold collectionValues findEntity
  rw [snapshot.collections, get?_mapValues]
  cases state.collections.get? collection.name with
  | none => simp
  | some stored =>
    simp only [map_some, getD_some, List.mem_map, bind_some, mem_materializeCollection]
    constructor
    · rintro ⟨shown, ⟨id, entity, found, made⟩, rfl⟩
      unfold materializeEntity at made
      split at made
      · rename_i present
        cases made
        exact ⟨id, entity, found, present, rfl⟩
      · cases made
    · rintro ⟨id, entity, found, present, rfl⟩
      exact ⟨_, ⟨id, entity, found, if_pos present⟩, rfl⟩

theorem mem_stringValues (snapshot : IsSnapshot state result) {collection : CloudSyncPayloadEntityKey}
    {value : JsString} : value ∈ stringValues result collection ↔
      ∃ entry, findStringEntry state collection.name value = some entry ∧
        registerIsPresent (some entry.presence) := by
  unfold stringValues findStringEntry
  rw [snapshot.stringCollections, get?_mapValues]
  cases state.stringCollections.get? collection.name with
  | none => simp
  | some stored =>
    simp only [map_some, getD_some, List.mem_map, bind_some, mem_materializeStringCollection]
    constructor
    · rintro ⟨shown, ⟨other, entry, found, made⟩, rfl⟩
      unfold materializeStringEntry at made
      split at made
      · rename_i present
        cases made
        exact ⟨entry, found, present⟩
      · cases made
    · rintro ⟨entry, found, present⟩
      exact ⟨_, ⟨value, entry, found, if_pos present⟩, rfl⟩

def readId (collection : CloudSyncPayloadEntityKey) (value : JsonObject) : Option JsString :=
  if collection = .groupConfigs then (readGroupConfig value).map GroupConfig.path
  else (readEntity value).map SyncEntity.id

def readRecord (collection : CloudSyncPayloadEntityKey) (value : JsonObject) : Option JsonObject :=
  if collection = .groupConfigs then (readGroupConfig value).map GroupConfig.record
  else (readEntity value).map SyncEntity.record

section

variable {syncedAt : ℚ} {collection : CloudSyncPayloadEntityKey}

theorem entityIds_payloadOf (known : collection ∈ CONVERGENT_ENTITY_COLLECTIONS) :
    (payloadOf result syncedAt).entityIds collection =
      (collectionValues result collection).filterMap (readId collection) := by
  have typed : ∀ c, (typedCollection result c).map SyncEntity.id =
      (collectionValues result c).filterMap fun value => (readEntity value).map SyncEntity.id :=
    fun c => map_filterMap ..
  cases collection with
  | groupConfigs => exact map_filterMap ..
  | customGroups | snippetPackages | noteGroups | aiSessions => exact absurd known (by decide)
  | _ => exact typed _

theorem records_payloadOf (known : collection ∈ CONVERGENT_ENTITY_COLLECTIONS) :
    (payloadOf result syncedAt).records collection =
      some ((collectionValues result collection).filterMap (readRecord collection)) := by
  have typed : ∀ c, (typedCollection result c).map SyncEntity.record =
      (collectionValues result c).filterMap fun value => (readEntity value).map SyncEntity.record :=
    fun c => map_filterMap ..
  cases collection with
  | groupConfigs => exact congrArg some (map_filterMap ..)
  | customGroups | snippetPackages | noteGroups | aiSessions => exact absurd known (by decide)
  | _ => exact congrArg some (typed _)

theorem entityIds_strings (known : collection ∈ CONVERGENT_STRING_COLLECTIONS) :
    (payloadOf result syncedAt).entityIds collection = stringValues result collection := by
  cases collection with
  | customGroups | snippetPackages | noteGroups => rfl
  | _ => exact absurd known (by decide)

end

theorem onePaths_payloadOf (result : MaterializedConvergentSyncState) (syncedAt : ℚ) :
    OnePaths (payloadOf result syncedAt).toSyncPayload := by
  intro config mem
  obtain ⟨value, -, read⟩ := mem_filterMap.mp mem
  unfold readGroupConfig at read
  split at read
  · cases read
    intro path
    obtain ⟨field, kept, named⟩ := List.mem_map.mp path
    exact (of_decide_eq_true (mem_filter.mp kept).2).2 named
  · cases read

end Snapshot

/-! ## A payload that goes on from another -/

theorem idxOf?_append {values extra : List JsString} {value : JsString} (mem : value ∈ values) :
    (values ++ extra).idxOf? value = values.idxOf? value := by
  have found : (values.findIdx? (· == value)).isSome := by
    rw [findIdx?_isSome, List.any_eq_true]
    exact ⟨value, mem, beq_self_eq_true value⟩
  obtain ⟨place, at_⟩ := isSome_iff_exists.mp found
  unfold List.idxOf?
  rw [findIdx?_append, at_]
  rfl

theorem position_some {values : List JsString} {value : JsString} (mem : value ∈ values) :
    ∃ place : ℕ, position values value = some (.number place) := by
  have found : (values.idxOf? value).isSome := by
    by_contra none_
    rw [not_isSome_iff_eq_none, idxOf?_eq_none_iff] at none_
    exact none_ mem
  obtain ⟨place, at_⟩ := isSome_iff_exists.mp found
  refine ⟨place, ?_⟩
  rw [position, positionMap, at_]
  rfl

theorem jsonValuesEqual_self (value : JsonValue) : jsonValuesEqual value value :=
  jsonValuesEqual_iff.mpr rfl

section Entities

variable {collection : CloudSyncPayloadEntityKey} {before after : OrderedMap JsString JsonObject}
  (extended : before.ExtendedBy after)
include extended

theorem diffEntity_held {id : JsString} (held : before.has id) :
    diffEntity collection before after id = none := by
  have mem := OrderedMap.mem_keys.mpr held
  obtain ⟨⟨extra, keys⟩, values⟩ := extended
  obtain ⟨value, found⟩ := has_iff.mp held
  have same := (values id mem).trans found
  unfold diffEntity
  rw [found, same]
  dsimp only
  rw [keys, positionMap, positionMap, idxOf?_append mem, any_some, jsonValuesEqual_self]
  simp

omit extended in
theorem diffEntity_missing {id : JsString} (absent : before.get? id = none) {next : JsonObject}
    (found : after.get? id = some next) : diffEntity collection before after id =
      some (.entityUpsert collection.name id (normalizedEntityValue id next) (position after.keys id)) := by
  unfold diffEntity
  rw [absent, found]
  rfl

/-- What changes in a collection is added to it. -/
theorem mem_diffEntities {mutation : ConvergentMutation} :
    mutation ∈ diffEntities collection before after ↔
      ∃ id next, before.has id = false ∧ after.get? id = some next ∧ mutation =
        .entityUpsert collection.name id (normalizedEntityValue id next) (position after.keys id) := by
  unfold diffEntities
  rw [mem_filterMap]
  constructor
  · rintro ⟨id, mem, made⟩
    rw [mem_insertionSort, mem_dedup, mem_append, OrderedMap.mem_keys, OrderedMap.mem_keys] at mem
    cases held : before.has id with
    | true =>
      rw [diffEntity_held extended held] at made
      cases made
    | false =>
      obtain ⟨next, found⟩ := has_iff.mp (mem.resolve_left (by rw [held]; exact Bool.false_ne_true))
      rw [diffEntity_missing (isSome_eq_false_iff.mp held |> isNone_iff_eq_none.mp) found] at made
      exact ⟨id, next, held, found, (Option.some.inj made).symm⟩
  · rintro ⟨id, next, held, found, rfl⟩
    refine ⟨id, ?_, diffEntity_missing (isSome_eq_false_iff.mp held |> isNone_iff_eq_none.mp) found⟩
    rw [mem_insertionSort, mem_dedup, mem_append, OrderedMap.mem_keys, OrderedMap.mem_keys]
    exact .inr (has_iff.mpr ⟨next, found⟩)

end Entities

theorem mem_diffStrings {collection : CloudSyncPayloadEntityKey} {before extra : List JsString}
    {mutation : ConvergentMutation} :
    mutation ∈ diffStrings collection before (before ++ extra) ↔
      ∃ value ∈ extra, value ∉ before ∧
        mutation = .stringEntryAdd collection.name value (position (before ++ extra) value) := by
  unfold diffStrings
  rw [mem_append, List.mem_map, List.mem_map]
  constructor
  · rintro (⟨value, mem, -⟩ | ⟨value, mem, rfl⟩)
    · obtain ⟨held, gone⟩ := mem_filter.mp mem
      rw [mem_insertionSort] at held
      exact absurd (mem_append_left extra held) (of_decide_eq_true gone)
    · obtain ⟨held, moved⟩ := mem_filter.mp mem
      rw [mem_insertionSort, mem_append] at held
      have fresh : value ∉ before := by
        intro old
        rcases of_decide_eq_true moved with fresh | moved
        · exact fresh old
        · exact moved (idxOf?_append old).symm
      exact ⟨value, held.resolve_left fresh, fresh, rfl⟩
  · rintro ⟨value, mem, fresh, rfl⟩
    refine .inr ⟨value, mem_filter.mpr ⟨?_, decide_eq_true (.inl fresh)⟩, rfl⟩
    rw [mem_insertionSort]
    exact mem_append_right before mem

theorem diffSettings_self {settings : Option JsonValue} {mutations : List ConvergentMutation}
    (made : diffSettings settings settings = .ok mutations) : mutations = [] := by
  unfold diffSettings at made
  obtain ⟨leaves, flat, made⟩ := bind_eq_ok.mp made
  rw [flat, ok_bind] at made
  cases made
  refine filterMap_eq_nil_iff.mpr fun key _ => ?_
  unfold diffSetting
  cases leaves.get? key with
  | none => rfl
  | some leaf => exact if_pos (jsonValuesEqual_self leaf.2)

/-! ## The batch of a payload that retains sources -/

theorem name_injective {a b : CloudSyncPayloadEntityKey} (same : a.name = b.name) : a = b := by
  cases a <;> cases b <;> first
    | rfl
    | exact absurd same (by decide)

section Batch

variable {baseline retained : SyncPayload} {sources : List SyncPayload}
  (kept : Retained baseline sources retained)
include kept

theorem mem_diffCollections {mutation : ConvergentMutation} : mutation ∈ diffCollections baseline retained ↔
      (∃ collection ∈ CONVERGENT_ENTITY_COLLECTIONS, ∃ id next,
        (entityMap (withHostsSanitizedForSync baseline) collection).has id = false ∧
        (entityMap (withHostsSanitizedForSync retained) collection).get? id = some next ∧
        mutation = .entityUpsert collection.name id (normalizedEntityValue id next)
          (position (entityMap (withHostsSanitizedForSync retained) collection).keys id)) ∨
      ∃ collection ∈ CONVERGENT_STRING_COLLECTIONS, ∃ value,
        value ∉ stringSet baseline collection ∧ value ∈ stringSet retained collection ∧
        mutation = .stringEntryAdd collection.name value (position (stringSet retained collection) value) := by
  unfold diffCollections
  dsimp only
  rw [mem_append, mem_flatMap, mem_flatMap]
  refine or_congr ?_ ?_
  · refine exists_congr fun collection => and_congr_right fun known => ?_
    rw [if_pos (kept.records collection known), mem_diffEntities (kept.entities collection known)]
  · refine exists_congr fun collection => and_congr_right fun known => ?_
    obtain ⟨extra, same⟩ := kept.stringSets collection known
    rw [if_pos (kept.strings collection known), same, mem_diffStrings]
    constructor
    · rintro ⟨value, mem, fresh, rfl⟩
      exact ⟨value, fresh, mem_append_right _ mem, rfl⟩
    · rintro ⟨value, fresh, mem, rfl⟩
      exact ⟨value, (mem_append.mp mem).resolve_left fresh, fresh, rfl⟩

end Batch

end Netcatty.SyncMerge.Legacy
