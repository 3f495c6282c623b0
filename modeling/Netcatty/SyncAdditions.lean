import Netcatty.SyncMerge

/-!
What a merge with a base keeps of the additions of the two sides.

An addition is dropped where the other side has a record of its deletion, though there is a
base to tell that it is new.
-/

namespace Netcatty.SyncMerge

open List Bool

/-! ## The loop over the ids -/

section Loop

variable {T : Type} (ops : EntityOps T)

theorem byId_snoc (entities : List T) (entity : T) :
    byId ops (entities ++ [entity]) = (byId ops entities).set (ops.id entity) entity := by
  unfold byId
  rw [foldl_append]
  rfl

section

variable {entities : List T} {id : JsString}

theorem id_of_get?_byId {entity : T}
    (found : (byId ops entities).get? id = some entity) : ops.id entity = id := by
  induction entities using List.reverseRecOn with
  | nil =>
    rw [show byId ops [] = OrderedMap.empty from rfl, OrderedMap.get?_empty] at found
    cases found
  | append_singleton entities last ih =>
    rw [byId_snoc, OrderedMap.get?_set] at found
    split at found
    · rename_i same
      rw [← Option.some.inj found, same]
    · exact ih found

theorem isSome_get?_byId :
    ((byId ops entities).get? id).isSome = (entities.map ops.id).contains id := by
  induction entities using List.reverseRecOn with
  | nil => rfl
  | append_singleton entities last ih =>
    rw [byId_snoc, OrderedMap.get?_set, Bool.eq_iff_iff, contains_iff_mem, map_append,
      mem_append, map_singleton, mem_singleton]
    rw [Bool.eq_iff_iff, contains_iff_mem] at ih
    split
    · rename_i same
      simp [same]
    · rename_i other
      rw [ih]
      exact ⟨.inl, fun either => either.resolve_right fun same => other same⟩

theorem mem_keys_byId : id ∈ (byId ops entities).keys ↔ id ∈ entities.map ops.id := by
  rw [OrderedMap.mem_keys, OrderedMap.has, isSome_get?_byId, contains_iff_mem]

end

variable {ops}

def KeepsId (ops : EntityOps T)
    (merge : JsString → Option T → Option T → Option T → EntityOutcome T) : Prop :=
  ∀ id (base local_ remote : Option T), (∀ item ∈ base, ops.id item = id) →
    (∀ item ∈ local_, ops.id item = id) → (∀ item ∈ remote, ops.id item = id) →
      ∀ item ∈ (merge id base local_ remote).kept, ops.id item = id

theorem KeepsId.own {merge : JsString → Option T → Option T → Option T → EntityOutcome T}
    (keeps : KeepsId ops merge) {base local_ remote : List T} {id : JsString} {item : T}
    (kept : (merge id ((byId ops base).get? id) ((byId ops local_).get? id)
      ((byId ops remote).get? id)).kept = some item) : ops.id item = id :=
  keeps id _ _ _ (fun _ => id_of_get?_byId ops) (fun _ => id_of_get?_byId ops)
    (fun _ => id_of_get?_byId ops) item kept

theorem mem_mergeById {merge : JsString → Option T → Option T → Option T → EntityOutcome T}
    (keeps : KeepsId ops merge) {base local_ remote : List T} {id : JsString}
    (mem : id ∈ local_.map ops.id ∨ id ∈ remote.map ops.id) :
    id ∈ (mergeById ops merge base local_ remote).merged.map ops.id ↔
      (merge id ((byId ops base).get? id) ((byId ops local_).get? id)
        ((byId ops remote).get? id)).kept.isSome := by
  unfold mergeById
  simp only [List.mem_map, mem_filterMap, mem_eraseDups, mem_append, mem_keys_byId]
  constructor
  · rintro ⟨item, ⟨outcome, ⟨other, _, rfl⟩, kept⟩, same⟩
    rw [← same, keeps.own kept, kept]
    rfl
  · intro some_
    obtain ⟨item, kept⟩ := Option.isSome_iff_exists.mp some_
    refine ⟨item, ⟨_, ⟨id, ?_, rfl⟩, kept⟩, keeps.own kept⟩
    simp only [List.mem_map] at mem
    exact mem.elim (fun held => .inl (.inr held)) .inr

/-- Does an addition survive the records of the other side? -/
def survives (preserveDeletions : Bool) (tombstones : Tombstones) (local_ remote : List JsString)
    (id : JsString) : Bool :=
  preserveDeletions || local_.contains id && remote.contains id ||
    if local_.contains id then !tombstones.ofRemote.contains id
    else !tombstones.ofLocal.contains id

/-- A turn of the loop decides about additions by the records of the other side. -/
def DecidesAdditions (options : EntityMergeOptions) (tombstones : Tombstones)
    (merge : JsString → Option T → Option T → Option T → EntityOutcome T) : Prop :=
  ∀ id (item other : T),
    (merge id none (some item) (some other)).kept.isSome = true ∧
    (merge id none (some item) none).kept.isSome =
      (options.preserveDeletions || !tombstones.ofRemote.contains id) ∧
    (merge id none none (some item)).kept.isSome =
      (options.preserveDeletions || !tombstones.ofLocal.contains id)

theorem mem_merged_addition {options : EntityMergeOptions} {tombstones : Tombstones}
    {merge : JsString → Option T → Option T → Option T → EntityOutcome T} (keeps : KeepsId ops merge)
    (decides : DecidesAdditions options tombstones merge) {base local_ remote : List T} {id : JsString}
    (fresh : id ∉ base.map ops.id) (mem : id ∈ local_.map ops.id ∨ id ∈ remote.map ops.id) :
    id ∈ (mergeById ops merge base local_ remote).merged.map ops.id ↔
      survives options.preserveDeletions tombstones (local_.map ops.id) (remote.map ops.id) id := by
  rw [mem_mergeById keeps mem]
  have inBase : ((byId ops base).get? id).isSome = (base.map ops.id).contains id :=
    isSome_get?_byId ops
  have inLocal : ((byId ops local_).get? id).isSome = (local_.map ops.id).contains id :=
    isSome_get?_byId ops
  have inRemote : ((byId ops remote).get? id).isSome = (remote.map ops.id).contains id :=
    isSome_get?_byId ops
  have none_ : (byId ops base).get? id = none := by
    cases found : (byId ops base).get? id with
    | none => rfl
    | some item =>
      rw [found] at inBase
      exact absurd (contains_iff_mem.mp inBase.symm) fresh
  rw [none_]
  unfold survives
  cases atLocal : (byId ops local_).get? id with
  | some localItem =>
    rw [atLocal] at inLocal
    cases atRemote : (byId ops remote).get? id with
    | some remoteItem =>
      rw [atRemote] at inRemote
      rw [← inLocal, ← inRemote, (decides id localItem remoteItem).1]
      simp
    | none =>
      rw [atRemote] at inRemote
      rw [← inLocal, ← inRemote, (decides id localItem localItem).2.1]
      simp
  | none =>
    rw [atLocal] at inLocal
    cases atRemote : (byId ops remote).get? id with
    | some remoteItem =>
      rw [atRemote] at inRemote
      rw [← inLocal, ← inRemote, (decides id remoteItem remoteItem).2.2]
      simp
    | none =>
      rw [atRemote] at inRemote
      rw [← contains_iff_mem, ← contains_iff_mem, ← inLocal, ← inRemote] at mem
      simp at mem

end Loop

/-! ## Entities, sessions and strings -/

theorem addition_kept {T : Type} (tombstone : Bool) (item : T) (added deleted : SideCounts) :
    (addition tombstone item added deleted).kept = if tombstone then none else some item := by
  unfold addition
  cases tombstone with
  | true => rfl
  | false => rfl

theorem deletion_kept {T : Type} {ops : EntityOps T} {options : EntityMergeOptions}
    {baseItem item kept : T} {deleted : SideCounts}
    (held : kept ∈ (deletion ops options baseItem item deleted).kept) : kept = item := by
  unfold deletion at held
  split at held
  · exact (Option.some.inj held).symm
  · split at held
    · exact (Option.some.inj held).symm
    · cases held

section

variable {T : Type} (ops : EntityOps T) (options : EntityMergeOptions) (tombstones : Tombstones)

theorem mergeEntity_keepsId : KeepsId ops (mergeEntity ops options tombstones) := by
  intro id base local_ remote ofBase ofLocal ofRemote item kept
  rcases base with _ | baseItem <;> rcases local_ with _ | localItem <;>
    rcases remote with _ | remoteItem
  · cases kept
  · rw [mergeEntity, addition_kept] at kept
    split at kept
    · cases kept
    · exact ofRemote item kept
  · rw [mergeEntity, addition_kept] at kept
    split at kept
    · cases kept
    · exact ofLocal item kept
  · exact ofLocal item kept
  · cases kept
  · exact ofRemote item (congrArg some (deletion_kept kept).symm)
  · exact ofLocal item (congrArg some (deletion_kept kept).symm)
  · unfold mergeEntity at kept
    dsimp only at kept
    split at kept
    · exact ofBase item kept
    · exact ofLocal item kept
    · exact ofRemote item kept
    · split at kept
      · rw [← Option.some.inj kept, ops.combine_id]
        exact ofRemote remoteItem rfl
      · exact ofLocal item kept

theorem mergeEntity_decides :
    DecidesAdditions options tombstones (mergeEntity ops options tombstones) := by
  intro id item other
  refine ⟨rfl, ?_, ?_⟩
  · rw [mergeEntity, addition_kept]
    cases options.preserveDeletions <;> cases tombstones.ofRemote.contains id <;> rfl
  · rw [mergeEntity, addition_kept]
    cases options.preserveDeletions <;> cases tombstones.ofLocal.contains id <;> rfl

end

section

variable (tools : MergeTools) (options : EntityMergeOptions) (tombstones : Tombstones)

theorem mergeAiSession_keepsId : KeepsId entityOps (mergeAiSession tools options tombstones) := by
  intro id base local_ remote ofBase ofLocal ofRemote item kept
  have pair : ∀ localItem remoteItem : SyncEntity, local_ = some localItem →
      remote = some remoteItem → (tools.mergeAiSessionPair localItem remoteItem).id = id := by
    intro localItem remoteItem atLocal atRemote
    have own := ofLocal localItem atLocal
    exact (tools.pair_id _ _ (own.trans (ofRemote remoteItem atRemote).symm)).trans own
  rcases base with _ | baseItem <;> rcases local_ with _ | localItem <;>
    rcases remote with _ | remoteItem
  · cases kept
  · rw [mergeAiSession, addition_kept] at kept
    split at kept
    · cases kept
    · exact ofRemote item kept
  · rw [mergeAiSession, addition_kept] at kept
    split at kept
    · cases kept
    · exact ofLocal item kept
  · exact Option.some.inj kept ▸ pair localItem remoteItem rfl rfl
  · cases kept
  · unfold mergeAiSession sessionDeletion at kept
    dsimp only at kept
    split at kept
    · exact ofRemote item kept
    · cases kept
  · unfold mergeAiSession sessionDeletion at kept
    dsimp only at kept
    split at kept
    · exact ofLocal item kept
    · cases kept
  · exact Option.some.inj kept ▸ pair localItem remoteItem rfl rfl

theorem mergeAiSession_decides :
    DecidesAdditions options tombstones (mergeAiSession tools options tombstones) := by
  intro id item other
  refine ⟨rfl, ?_, ?_⟩
  · rw [mergeAiSession, addition_kept]
    cases options.preserveDeletions <;> cases tombstones.ofRemote.contains id <;> rfl
  · rw [mergeAiSession, addition_kept]
    cases options.preserveDeletions <;> cases tombstones.ofLocal.contains id <;> rfl

end

theorem mem_mergeStringArrays {base local_ remote : List JsString} {tombstones : Tombstones}
    {options : EntityMergeOptions} {value : JsString} (fresh : value ∉ base)
    (mem : value ∈ local_ ∨ value ∈ remote) :
    value ∈ mergeStringArrays base local_ remote tombstones options ↔
      survives options.preserveDeletions tombstones local_ remote value := by
  have inBase : base.contains value = false := by simpa using fresh
  have all : value ∈ (base.eraseDups ++ local_.eraseDups ++ remote.eraseDups).eraseDups := by
    simp only [mem_eraseDups, mem_append]
    exact mem.elim (fun held => .inl (.inr held)) .inr
  unfold mergeStringArrays
  rw [mem_filter, and_iff_right all]
  unfold keepsString survives
  rw [← contains_iff_mem, ← contains_iff_mem] at mem
  rw [inBase]
  -- five tests decide
  generalize local_.contains value = inLocal at mem ⊢
  generalize remote.contains value = inRemote at mem ⊢
  generalize options.preserveDeletions = preserve
  generalize tombstones.ofLocal.contains value = deletedHere
  generalize tombstones.ofRemote.contains value = deletedThere
  revert inLocal inRemote preserve deletedHere deletedThere
  decide

/-! ## Payloads -/

theorem survives_congr {preserveDeletions : Bool} {tombstones : Tombstones}
    {local_ local' remote remote' : List JsString} {id : JsString}
    (atLocal : id ∈ local_ ↔ id ∈ local') (atRemote : id ∈ remote ↔ id ∈ remote') :
    survives preserveDeletions tombstones local_ remote id =
      survives preserveDeletions tombstones local' remote' id := by
  have sameLocal : local_.contains id = local'.contains id := by
    rw [Bool.eq_iff_iff, contains_iff_mem, contains_iff_mem, atLocal]
  have sameRemote : remote.contains id = remote'.contains id := by
    rw [Bool.eq_iff_iff, contains_iff_mem, contains_iff_mem, atRemote]
  unfold survives
  rw [sameLocal, sameRemote]

/-- A collection that is left out brings no additions. -/
theorem mem_entityArray {T : Type} {f : T → JsString} {collection base : Option (List T)}
    {id : JsString} (fresh : id ∉ (base.getD []).map f) :
    id ∈ (entityArray collection (base.getD [])).map f ↔ id ∈ (collection.getD []).map f := by
  cases collection with
  | none => exact ⟨fun mem => absurd mem fresh, fun mem => absurd mem not_mem_nil⟩
  | some items => exact Iff.rfl

theorem mem_optional_addition {T : Type} {ops : EntityOps T} {options : EntityMergeOptions}
    {tombstones : Tombstones} {merge : JsString → Option T → Option T → Option T → EntityOutcome T}
    (keeps : KeepsId ops merge) (decides : DecidesAdditions options tombstones merge)
    {base local_ remote : Option (List T)} {id : JsString} (fresh : id ∉ (base.getD []).map ops.id)
    (mem : id ∈ (local_.getD []).map ops.id ∨ id ∈ (remote.getD []).map ops.id) :
    id ∈ (mergeById ops merge (base.getD []) (entityArray local_ (base.getD []))
        (entityArray remote (base.getD []))).merged.map ops.id ↔
      survives options.preserveDeletions tombstones ((local_.getD []).map ops.id)
        ((remote.getD []).map ops.id) id := by
  have atLocal : id ∈ (entityArray local_ (base.getD [])).map ops.id ↔ id ∈ (local_.getD []).map ops.id :=
    mem_entityArray fresh
  have atRemote : id ∈ (entityArray remote (base.getD [])).map ops.id ↔
      id ∈ (remote.getD []).map ops.id := mem_entityArray fresh
  rw [mem_merged_addition keeps decides fresh (mem.imp atLocal.mpr atRemote.mpr),
    survives_congr atLocal atRemote]

theorem mem_optional_strings {base local_ remote : Option (List JsString)} {tombstones : Tombstones}
    {options : EntityMergeOptions} {value : JsString} (fresh : value ∉ base.getD [])
    (mem : value ∈ local_.getD [] ∨ value ∈ remote.getD []) :
    value ∈ mergeStringArrays (base.getD []) (entityArray local_ (base.getD []))
        (entityArray remote (base.getD [])) tombstones options ↔
      survives options.preserveDeletions tombstones (local_.getD []) (remote.getD []) value := by
  have each : ∀ collection : Option (List JsString),
      value ∈ entityArray collection (base.getD []) ↔ value ∈ collection.getD [] := by
    intro collection
    have plain : ∀ strings : List JsString, strings.map id = strings := List.map_id
    have mapped := @mem_entityArray JsString id collection base value (by rwa [plain])
    rwa [plain, plain] at mapped
  rw [mem_mergeStringArrays fresh (mem.imp (each local_).mpr (each remote).mpr),
    survives_congr (each local_) (each remote)]

theorem map_id_sanitize (hosts : List SyncEntity) :
    (sanitizeHostsForSync hosts).map SyncEntity.id = hosts.map SyncEntity.id := by
  unfold sanitizeHostsForSync
  rw [List.map_map]
  rfl

theorem map_id_wrapGC (configs : List GroupConfig) :
    (configs.map wrapGC).map SyncEntity.id = configs.map GroupConfig.path := by
  rw [List.map_map]
  rfl

theorem map_path_unwrapGC (entities : List SyncEntity) :
    (entities.map unwrapGC).map GroupConfig.path = entities.map SyncEntity.id := by
  rw [List.map_map]
  rfl

theorem entityIds_carryForward (localeCompare : JsString → JsString → Ordering) (payload : SyncPayload)
    (sources : List SyncPayload) (key : CloudSyncPayloadEntityKey) :
    (carryForwardSyncDeletions localeCompare payload sources).entityIds key = payload.entityIds key := by
  unfold carryForwardSyncDeletions
  dsimp only
  split
  · rfl
  · cases key <;> rfl

/-- The records of deletions of the two sides. -/
def tombstonesOf (local_ remote : SyncPayload) (key : CloudSyncPayloadEntityKey) : Tombstones :=
  ⟨getDeletedEntityIds local_ key, getDeletedEntityIds remote key⟩

theorem mem_payload_addition (tools : MergeTools) (now : ℚ) {base local_ remote : SyncPayload}
    (options : MergeSyncPayloadsOptions) {key : CloudSyncPayloadEntityKey} {id : JsString}
    (fresh : id ∉ base.entityIds key) (mem : id ∈ local_.entityIds key ∨ id ∈ remote.entityIds key) :
    id ∈ (mergeSyncPayloads tools now (some base) local_ remote options).payload.entityIds key ↔
      survives options.preserveDeletions (tombstonesOf local_ remote key) (local_.entityIds key)
        (remote.entityIds key) id := by
  have entities : ∀ (options : EntityMergeOptions) (tombstones : Tombstones),
      KeepsId entityOps (mergeEntity entityOps options tombstones) ∧
        DecidesAdditions options tombstones (mergeEntity entityOps options tombstones) :=
    fun options tombstones => ⟨mergeEntity_keepsId _ _ _, mergeEntity_decides _ _ _⟩
  unfold mergeSyncPayloads
  dsimp only
  rw [entityIds_carryForward]
  cases key with
  | hosts =>
    have each : ∀ hosts : List SyncEntity,
        id ∈ (sanitizeHostsForSync hosts).map entityOps.id ↔ id ∈ hosts.map SyncEntity.id :=
      fun hosts => iff_of_eq (congrArg (id ∈ ·) (map_id_sanitize hosts))
    refine (mem_merged_addition (entities _ _).1 (entities _ _).2 ((each base.hosts).not.mpr fresh)
      (mem.imp (each local_.hosts).mpr (each remote.hosts).mpr)).trans ?_
    rw [survives_congr (each local_.hosts) (each remote.hosts)]
    rfl
  | keys => exact mem_merged_addition (entities _ _).1 (entities _ _).2 fresh mem
  | identities => exact mem_optional_addition (entities _ _).1 (entities _ _).2 fresh mem
  | proxyProfiles => exact mem_optional_addition (entities _ _).1 (entities _ _).2 fresh mem
  | snippets => exact mem_merged_addition (entities _ _).1 (entities _ _).2 fresh mem
  | customGroups => exact mem_mergeStringArrays fresh mem
  | snippetPackages => exact mem_optional_strings fresh mem
  | notes => exact mem_optional_addition (entities _ _).1 (entities _ _).2 fresh mem
  | noteGroups => exact mem_optional_strings fresh mem
  | portForwardingRules => exact mem_optional_addition (entities _ _).1 (entities _ _).2 fresh mem
  | browserBookmarks => exact mem_optional_addition (entities _ _).1 (entities _ _).2 fresh mem
  | groupConfigs =>
    have wrapped : ∀ configs : List GroupConfig,
        id ∈ (configs.map wrapGC).map entityOps.id ↔ id ∈ configs.map GroupConfig.path :=
      fun configs => iff_of_eq (congrArg (id ∈ ·) (map_id_wrapGC configs))
    have each : ∀ collection : Option (List GroupConfig),
        id ∈ ((entityArray collection (base.groupConfigs.getD [])).map wrapGC).map entityOps.id ↔
          id ∈ (collection.getD []).map GroupConfig.path :=
      fun collection => (wrapped _).trans (mem_entityArray fresh)
    change id ∈ (List.map unwrapGC _).map GroupConfig.path ↔ _
    rw [map_path_unwrapGC]
    refine (mem_merged_addition (entities _ _).1 (entities _ _).2 ((wrapped _).not.mpr fresh)
      (mem.imp (each local_.groupConfigs).mpr (each remote.groupConfigs).mpr)).trans ?_
    rw [survives_congr (each local_.groupConfigs) (each remote.groupConfigs)]
    rfl
  | monitorPanels => exact mem_optional_addition (entities _ _).1 (entities _ _).2 fresh mem
  | aiSessions =>
    have carried : ∀ sessions : Option (List SyncEntity), id ∈ (sessions.getD []).map SyncEntity.id →
        sessions.isSome = true := by
      intro sessions held
      cases sessions with
      | none => exact absurd held not_mem_nil
      | some items => rfl
    have emitted : (((some base).bind SyncPayload.aiSessions).isSome || local_.aiSessions.isSome ||
        remote.aiSessions.isSome) = true := by
      rcases mem with held | held
      · rw [carried local_.aiSessions held, Bool.or_true, Bool.true_or]
      · rw [carried remote.aiSessions held, Bool.or_true]
    unfold SyncPayload.entityIds
    dsimp only
    rw [if_pos emitted]
    exact mem_optional_addition (mergeAiSession_keepsId tools _ _) (mergeAiSession_decides tools _ _)
      fresh mem

def NoRecordOfAdditions (base local_ remote : SyncPayload) : Prop :=
  ∀ key id, id ∉ base.entityIds key →
    (id ∈ local_.entityIds key → id ∉ remote.entityIds key → id ∉ getDeletedEntityIds remote key) ∧
    (id ∉ local_.entityIds key → id ∈ remote.entityIds key → id ∉ getDeletedEntityIds local_ key)

/-- The merge with a base keeps all additions exactly where no record of a deletion names one. -/
theorem additions_kept_iff (tools : MergeTools) (now : ℚ) (base local_ remote : SyncPayload)
    (options : MergeSyncPayloadsOptions) :
    (∀ key id, id ∉ base.entityIds key → id ∈ local_.entityIds key ∨ id ∈ remote.entityIds key →
      id ∈ (mergeSyncPayloads tools now (some base) local_ remote options).payload.entityIds key) ↔
    options.preserveDeletions = true ∨ NoRecordOfAdditions base local_ remote := by
  have decided : ∀ key id, id ∈ local_.entityIds key ∨ id ∈ remote.entityIds key →
      (survives options.preserveDeletions (tombstonesOf local_ remote key) (local_.entityIds key)
          (remote.entityIds key) id = true ↔
        options.preserveDeletions = true ∨
          ((id ∈ local_.entityIds key → id ∉ remote.entityIds key →
              id ∉ getDeletedEntityIds remote key) ∧
            (id ∉ local_.entityIds key → id ∈ remote.entityIds key →
              id ∉ getDeletedEntityIds local_ key))) := by
    intro key id mem
    simp only [survives, tombstonesOf, or_eq_true, and_eq_true, contains_iff_mem]
    by_cases atLocal : id ∈ local_.entityIds key
    · by_cases atRemote : id ∈ remote.entityIds key
      · simp [atLocal, atRemote]
      · simp [atLocal, atRemote]
    · have atRemote := mem.resolve_left atLocal
      simp [atLocal, atRemote]
  constructor
  · intro kept
    by_cases preserved : options.preserveDeletions = true
    · exact .inl preserved
    refine .inr fun key id fresh => ?_
    have spared : id ∈ local_.entityIds key ∨ id ∈ remote.entityIds key →
        (id ∈ local_.entityIds key → id ∉ remote.entityIds key →
            id ∉ getDeletedEntityIds remote key) ∧
          (id ∉ local_.entityIds key → id ∈ remote.entityIds key →
            id ∉ getDeletedEntityIds local_ key) := by
      intro mem
      have inPayload := (mem_payload_addition tools now options fresh mem).mp (kept key id fresh mem)
      exact ((decided key id mem).mp inPayload).resolve_left preserved
    exact ⟨fun held => (spared (.inl held)).1 held, fun absent held => (spared (.inr held)).2 absent held⟩
  · intro condition key id fresh mem
    apply (mem_payload_addition tools now options fresh mem).mpr
    exact (decided key id mem).mpr (condition.imp_right fun none_ => none_ key id fresh)

/-- Nothing on either side. -/
def emptyPayload : SyncPayload := { emptyBase with syncedAt := 1 }

def sampleTools : MergeTools := ⟨compareStrings, fun a _ => a, fun _ _ _ => rfl⟩

/-- A group made again under a name that the other device once deleted is dropped. -/
theorem group_made_again_is_dropped :
    let local_ := { emptyPayload with customGroups := [text "work"] }
    let remote := { emptyPayload with deletions := [⟨.customGroups, text "work", 1, none⟩] }
    text "work" ∉ emptyPayload.entityIds .customGroups ∧ text "work" ∈ local_.entityIds .customGroups ∧
      text "work" ∉ (mergeSyncPayloads sampleTools 2 (some emptyPayload) local_ remote
        ⟨false⟩).payload.entityIds .customGroups := by
  intro local_ remote
  have fresh : text "work" ∉ emptyPayload.entityIds .customGroups := by decide
  have mem : text "work" ∈ local_.entityIds .customGroups := by decide
  refine ⟨fresh, mem, ?_⟩
  rw [mem_payload_addition sampleTools 2 ⟨false⟩ fresh (.inl mem)]
  decide

end Netcatty.SyncMerge
