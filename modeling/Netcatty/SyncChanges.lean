import Netcatty.SyncUnions

/-!
What a device reports as changed before it syncs.

The changes of both sides against the base are counted collection by collection, and what the
device no longer has becomes a record of a deletion.  The merge reads a collection that a side
leaves out as unchanged (`mergeSyncPayloads_withOmitted`).  The reports do so too, except for notes
and note groups (`omitted_unchanged_iff`).
-/

namespace Netcatty.SyncMerge

open List Option Bool

/-- The collections that the merge reads as unchanged where a side leaves them out. -/
def OPTIONAL_ENTITY_KEYS : List CloudSyncPayloadEntityKey :=
  [.identities, .proxyProfiles, .snippetPackages, .notes, .noteGroups, .portForwardingRules,
    .browserBookmarks, .groupConfigs, .monitorPanels, .aiSessions]

namespace SyncReliability

def OPTIONAL_ENTITY_KEYS : List CloudSyncPayloadEntityKey :=
  [.identities, .proxyProfiles, .snippetPackages, .portForwardingRules, .browserBookmarks,
    .groupConfigs, .monitorPanels, .aiSessions]

end SyncReliability

def CLOUD_SYNC_PAYLOAD_ENTITY_KEYS : List CloudSyncPayloadEntityKey :=
  [.hosts, .keys, .identities, .proxyProfiles, .snippets, .customGroups, .snippetPackages, .notes,
    .noteGroups, .portForwardingRules, .browserBookmarks, .groupConfigs, .monitorPanels, .aiSessions]

structure SyncedPayload extends SyncPayload where
  settings : Option JsonValue

def GroupConfig.json (config : GroupConfig) : JsonValue := .obj ((text "path", .str config.path) :: config.fields)

/-- The values of a collection, with their ids; none where it is left out. -/
def SyncPayload.values (payload : SyncPayload) : CloudSyncPayloadEntityKey → Option (List (JsString × JsonValue))
  | .hosts => some (payload.hosts.map entityValue)
  | .keys => some (payload.keys.map entityValue)
  | .identities => payload.identities.map (·.map entityValue)
  | .proxyProfiles => payload.proxyProfiles.map (·.map entityValue)
  | .snippets => some (payload.snippets.map entityValue)
  | .customGroups => some (payload.customGroups.map stringValue)
  | .snippetPackages => payload.snippetPackages.map (·.map stringValue)
  | .notes => payload.notes.map (·.map entityValue)
  | .noteGroups => payload.noteGroups.map (·.map stringValue)
  | .portForwardingRules => payload.portForwardingRules.map (·.map entityValue)
  | .browserBookmarks => payload.browserBookmarks.map (·.map entityValue)
  | .groupConfigs => payload.groupConfigs.map (·.map fun config => (config.path, config.json))
  | .monitorPanels => payload.monitorPanels.map (·.map entityValue)
  | .aiSessions => payload.aiSessions.map (·.map entityValue)
where
  entityValue (entity : SyncEntity) : JsString × JsonValue := (entity.id, entity.json)
  stringValue (value : JsString) : JsString × JsonValue := (value, .str value)

abbrev EntityMap := OrderedMap JsString JsonValue

def entityMap (values : Option (List (JsString × JsonValue))) : EntityMap :=
  (values.getD []).foldl (fun map value => map.set value.1 value.2) OrderedMap.empty

def payloadValues (payload : SyncPayload) (entityType : CloudSyncPayloadEntityKey) (base : SyncPayload) :
    Option (List (JsString × JsonValue)) :=
  if entityType ∈ SyncReliability.OPTIONAL_ENTITY_KEYS ∧ (payload.values entityType).isNone then
    base.values entityType
  else payload.values entityType

/-! ## The summary of changes -/

inductive SyncChangeEntityKey where
  | entity (key : CloudSyncPayloadEntityKey)
  | settings
  deriving DecidableEq

structure SyncEntityChangeCounts where
  added : SideCounts
  modified : SideCounts
  deleted : SideCounts

def EMPTY_COUNTS : SyncEntityChangeCounts := ⟨.zero, .zero, .zero⟩

inductive ConflictKind where
  | bothAdded
  | bothModified
  | localDeletedRemoteModified
  | remoteDeletedLocalModified

structure SyncConflictDetail where
  entityType : SyncChangeEntityKey
  id : Option JsString
  kind : ConflictKind

structure SyncChangeSummary where
  hasLocalChanges : Bool
  hasRemoteChanges : Bool
  hasConflicts : Bool
  byEntity : OrderedMap SyncChangeEntityKey SyncEntityChangeCounts
  conflicts : List SyncConflictDetail

def SyncChangeSummary.empty : SyncChangeSummary := ⟨false, false, false, OrderedMap.empty, []⟩

variable (summary : SyncChangeSummary)

def incrementEntity (entityType : SyncChangeEntityKey)
    (updater : SyncEntityChangeCounts → SyncEntityChangeCounts) : SyncChangeSummary :=
  { summary with
    byEntity := summary.byEntity.set entityType (updater ((summary.byEntity.get? entityType).getD EMPTY_COUNTS)) }

def recordLocal (changed : Bool) (entityType : SyncChangeEntityKey)
    (updater : SyncEntityChangeCounts → SyncEntityChangeCounts) (summary : SyncChangeSummary) : SyncChangeSummary :=
  if changed then incrementEntity { summary with hasLocalChanges := true } entityType updater else summary

def recordRemote (changed : Bool) (entityType : SyncChangeEntityKey)
    (updater : SyncEntityChangeCounts → SyncEntityChangeCounts) (summary : SyncChangeSummary) : SyncChangeSummary :=
  if changed then incrementEntity { summary with hasRemoteChanges := true } entityType updater else summary

def recordConflict (detail : SyncConflictDetail) (summary : SyncChangeSummary) : SyncChangeSummary :=
  { summary with hasConflicts := true, conflicts := summary.conflicts ++ [detail] }

/-- `Boolean(item)`: an empty string counts as none. -/
def isPresent : Option JsonValue → Bool
  | none => false
  | some (.str []) => false
  | some _ => true

def isAdded (baseItem item : Option JsonValue) : Bool := !isPresent baseItem && isPresent item

def isDeleted (baseItem item : Option JsonValue) : Bool := isPresent baseItem && !isPresent item

def isModified (baseItem item : Option JsonValue) : Bool :=
  isPresent baseItem && isPresent item && !sameField baseItem item

/-- One turn of the loop of `recordEntityChanges`. -/
def recordEntity (entityType : CloudSyncPayloadEntityKey) (base local_ : EntityMap) (remote : Option EntityMap)
    (summary : SyncChangeSummary) (id : JsString) : SyncChangeSummary :=
  let key := SyncChangeEntityKey.entity entityType
  let baseItem := base.get? id
  let localItem := local_.get? id
  let localAdded := isAdded baseItem localItem
  let localDeleted := isDeleted baseItem localItem
  let localModified := isModified baseItem localItem
  let summary := recordLocal localAdded key (fun counts => { counts with added := counts.added.plus ⟨1, 0⟩ }) summary
  let summary := recordLocal localDeleted key (fun counts => { counts with deleted := counts.deleted.plus ⟨1, 0⟩ }) summary
  let summary := recordLocal localModified key (fun counts => { counts with modified := counts.modified.plus ⟨1, 0⟩ }) summary
  match remote with
  | none => summary
  | some remote =>
    let remoteItem := remote.get? id
    let remoteAdded := isAdded baseItem remoteItem
    let remoteDeleted := isDeleted baseItem remoteItem
    let remoteModified := isModified baseItem remoteItem
    let summary := recordRemote remoteAdded key (fun counts => { counts with added := counts.added.plus ⟨0, 1⟩ }) summary
    let summary := recordRemote remoteDeleted key (fun counts => { counts with deleted := counts.deleted.plus ⟨0, 1⟩ }) summary
    let summary := recordRemote remoteModified key (fun counts => { counts with modified := counts.modified.plus ⟨0, 1⟩ }) summary
    let differ := !sameField localItem remoteItem
    if localAdded && remoteAdded && differ then recordConflict ⟨key, some id, .bothAdded⟩ summary
    else if localModified && remoteModified && differ then recordConflict ⟨key, some id, .bothModified⟩ summary
    else if localDeleted && remoteModified then recordConflict ⟨key, some id, .localDeletedRemoteModified⟩ summary
    else if remoteDeleted && localModified then recordConflict ⟨key, some id, .remoteDeletedLocalModified⟩ summary
    else summary

def recordEntityChanges (entityType : CloudSyncPayloadEntityKey)
    (baseValues localValues : Option (List (JsString × JsonValue)))
    (remoteValues : Option (List (JsString × JsonValue))) : SyncChangeSummary :=
  let base := entityMap baseValues
  let local_ := entityMap localValues
  let remote := if remoteValues.isNone then none else some (entityMap remoteValues)
  let ids := (base.keys ++ local_.keys ++ ((remote.map OrderedMap.keys).getD [])).eraseDups
  ids.foldl (recordEntity entityType base local_ remote) summary

def recordSettingsChanges (base local_ : SyncedPayload)
    (remote : Option SyncedPayload) : SyncChangeSummary :=
  let modified := fun (counts : SyncEntityChangeCounts) (side : SideCounts) =>
    { counts with modified := counts.modified.plus side }
  let localChanged := !sameField local_.settings base.settings
  let remoteChanged := remote.any fun remote => !sameField remote.settings base.settings
  let summary := recordLocal localChanged .settings (modified · ⟨1, 0⟩) summary
  let summary := recordRemote remoteChanged .settings (modified · ⟨0, 1⟩) summary
  if localChanged && remoteChanged && !sameField local_.settings (remote.bind SyncedPayload.settings) then
    recordConflict ⟨.settings, none, .bothModified⟩ summary
  else summary

def withHostsSanitizedForSync (payload : SyncedPayload) : SyncedPayload :=
  { payload with hosts := sanitizeHostsForSync payload.hosts }

namespace SyncReliability

def emptyBase : SyncedPayload :=
  { hosts := [], keys := [], identities := some [], proxyProfiles := some [], snippets := []
    customGroups := [], snippetPackages := some [], notes := none, noteGroups := none
    portForwardingRules := some [], browserBookmarks := none, groupConfigs := some []
    monitorPanels := none, aiSessions := none, syncedAt := 0, deletions := [], settings := none }

end SyncReliability

def summarizeSyncChanges (base : Option SyncedPayload) (local_ : SyncedPayload)
    (remote : Option SyncedPayload) : SyncChangeSummary :=
  let reference := withHostsSanitizedForSync (base.getD SyncReliability.emptyBase)
  let localPayload := withHostsSanitizedForSync local_
  let remotePayload := remote.map withHostsSanitizedForSync
  let summary := CLOUD_SYNC_PAYLOAD_ENTITY_KEYS.foldl (fun summary entityType =>
    recordEntityChanges summary entityType (reference.values entityType)
      (payloadValues localPayload.toSyncPayload entityType reference.toSyncPayload)
      (remotePayload.bind fun remotePayload =>
        payloadValues remotePayload.toSyncPayload entityType reference.toSyncPayload)) SyncChangeSummary.empty
  recordSettingsChanges summary reference localPayload remotePayload

def collectSyncDeletions (base : Option SyncPayload) (current : SyncPayload) (deletedAt : ℚ)
    (deviceId : Option JsString) : List SyncDeletionRecord :=
  match base with
  | none => []
  | some base =>
    CLOUD_SYNC_PAYLOAD_ENTITY_KEYS.flatMap fun entityType =>
      let baseItems := entityMap (base.values entityType)
      let currentItems := entityMap (payloadValues current entityType base)
      (baseItems.keys.filter fun id => !currentItems.has id).map fun id =>
        ⟨entityType, id, deletedAt, deviceId.filter (· ≠ [])⟩

/-! ## What the merge reads as unchanged -/

theorem entityArray_withOmitted {T : Type} (collection base : Option (List T)) :
    entityArray (collection <|> base) (base.getD []) = entityArray collection (base.getD []) := by
  cases collection <;> cases base <;> rfl

/-- A merge is the same with the collections that a side leaves out filled in from the base. -/
theorem mergeSyncPayloads_withOmitted (tools : MergeTools) (now : ℚ) (base local_ remote : SyncPayload)
    (options : MergeSyncPayloadsOptions) :
    mergeSyncPayloads tools now (some base) (local_.withOmitted base) (remote.withOmitted base) options =
      mergeSyncPayloads tools now (some base) local_ remote options := by
  have emitted : (base.aiSessions.isSome || (local_.aiSessions <|> base.aiSessions).isSome ||
      (remote.aiSessions <|> base.aiSessions).isSome) =
      (base.aiSessions.isSome || local_.aiSessions.isSome || remote.aiSessions.isSome) := by
    cases base.aiSessions <;> cases local_.aiSessions <;> cases remote.aiSessions <;> rfl
  unfold mergeSyncPayloads
  simp only [getDeletedEntityIds, getD_some, bind_some, SyncPayload.withOmitted, entityArray_withOmitted, emitted,
    carryForwardSyncDeletions, flatMap_cons]
  congr

/-! ## Sides that change nothing -/

theorem sameField_self (field : Option JsonValue) : sameField field field := by
  cases field with
  | none => rfl
  | some value => simp [sameField, jsonValuesEqual]

theorem isAdded_self (item : Option JsonValue) : isAdded item item = false := by
  unfold isAdded
  cases isPresent item <;> rfl

theorem isDeleted_self (item : Option JsonValue) : isDeleted item item = false := by
  unfold isDeleted
  cases isPresent item <;> rfl

theorem isModified_self (item : Option JsonValue) : isModified item item = false := by
  simp [isModified, sameField_self]

def SyncChangeSummary.countsOf (key : CloudSyncPayloadEntityKey) : SyncEntityChangeCounts :=
  (summary.byEntity.get? (.entity key)).getD EMPTY_COUNTS

/-- No deletion of one side is reported for a collection, and no conflict. -/
structure Unreported (side : SideCounts → ℕ) (key : CloudSyncPayloadEntityKey) (summary : SyncChangeSummary) : Prop where
  deleted : side (summary.countsOf key).deleted = 0
  conflicts : ∀ detail ∈ summary.conflicts, detail.entityType ≠ .entity key

section Unreported

variable {side : SideCounts → ℕ} {key : CloudSyncPayloadEntityKey} {summary : SyncChangeSummary}

theorem Unreported.increment (quiet : Unreported side key summary) {entityType : SyncChangeEntityKey}
    {updater : SyncEntityChangeCounts → SyncEntityChangeCounts}
    (harmless : entityType = .entity key → ∀ counts, side (updater counts).deleted = side counts.deleted) :
    Unreported side key (incrementEntity summary entityType updater) := by
  refine ⟨?_, quiet.conflicts⟩
  unfold incrementEntity SyncChangeSummary.countsOf
  rw [OrderedMap.get?_set]
  split
  · rename_i same
    rw [getD_some, harmless same.symm, ← same]
    exact quiet.deleted
  · exact quiet.deleted

theorem Unreported.congr {other : SyncChangeSummary} (quiet : Unreported side key summary)
    (counts : other.byEntity = summary.byEntity) (conflicts : other.conflicts = summary.conflicts) :
    Unreported side key other := by
  refine ⟨?_, conflicts ▸ quiet.conflicts⟩
  unfold SyncChangeSummary.countsOf
  rw [counts]
  exact quiet.deleted

section

variable (quiet : Unreported side key summary) (changed : Bool) (entityType : SyncChangeEntityKey)
    (updater : SyncEntityChangeCounts → SyncEntityChangeCounts)
    (harmless : changed → entityType = .entity key → ∀ counts, side (updater counts).deleted = side counts.deleted)

include quiet harmless

theorem Unreported.recordLocal :
    Unreported side key (recordLocal changed entityType updater summary) := by
  unfold SyncMerge.recordLocal
  split
  · rename_i changed
    have quiet' : Unreported side key { summary with hasLocalChanges := true } := quiet.congr rfl rfl
    exact quiet'.increment (harmless changed)
  · exact quiet

theorem Unreported.recordRemote :
    Unreported side key (recordRemote changed entityType updater summary) := by
  unfold SyncMerge.recordRemote
  split
  · rename_i changed
    have quiet' : Unreported side key { summary with hasRemoteChanges := true } := quiet.congr rfl rfl
    exact quiet'.increment (harmless changed)
  · exact quiet

end

theorem Unreported.recordConflict (quiet : Unreported side key summary) {detail : SyncConflictDetail}
    (other : detail.entityType ≠ .entity key) : Unreported side key (recordConflict detail summary) := by
  refine ⟨quiet.deleted, ?_⟩
  intro c mem
  rcases mem_append.mp mem with mem | mem
  · exact quiet.conflicts c mem
  · rw [mem_singleton.mp mem]
    exact other

/-- One turn of the loop: a deletion of a side is counted for that side, and a conflict takes a change
of both. -/
theorem Unreported.recordEntity {entityType : CloudSyncPayloadEntityKey} {base local_ : EntityMap}
    {remote : Option EntityMap} {id : JsString}
    (localDeleted : entityType = key → isDeleted (base.get? id) (local_.get? id) →
      ∀ counts : SideCounts, side (counts.plus ⟨1, 0⟩) = side counts)
    (remoteDeleted : entityType = key → ∀ map ∈ remote, isDeleted (base.get? id) (map.get? id) →
      ∀ counts : SideCounts, side (counts.plus ⟨0, 1⟩) = side counts)
    (agreed : entityType = key → ∀ map ∈ remote, local_.get? id = base.get? id ∨ map.get? id = base.get? id)
    (quiet : Unreported side key summary) :
    Unreported side key (recordEntity entityType base local_ remote summary id) := by
  unfold SyncMerge.recordEntity
  dsimp only
  have added := quiet.recordLocal (isAdded (base.get? id) (local_.get? id)) (.entity entityType)
    (fun counts => { counts with added := counts.added.plus ⟨1, 0⟩ }) fun _ _ _ => rfl
  have deleted := added.recordLocal (isDeleted (base.get? id) (local_.get? id)) (.entity entityType)
    (fun counts => { counts with deleted := counts.deleted.plus ⟨1, 0⟩ })
    fun changed same counts => localDeleted (SyncChangeEntityKey.entity.inj same) changed counts.deleted
  have counted := deleted.recordLocal (isModified (base.get? id) (local_.get? id)) (.entity entityType)
    (fun counts => { counts with modified := counts.modified.plus ⟨1, 0⟩ }) fun _ _ _ => rfl
  cases remote with
  | none => exact counted
  | some remote =>
    have added' := counted.recordRemote (isAdded (base.get? id) (remote.get? id)) (.entity entityType)
      (fun counts => { counts with added := counts.added.plus ⟨0, 1⟩ }) fun _ _ _ => rfl
    have deleted' := added'.recordRemote (isDeleted (base.get? id) (remote.get? id)) (.entity entityType)
      (fun counts => { counts with deleted := counts.deleted.plus ⟨0, 1⟩ })
      fun changed same counts => remoteDeleted (SyncChangeEntityKey.entity.inj same) remote rfl changed counts.deleted
    have counted' := deleted'.recordRemote (isModified (base.get? id) (remote.get? id)) (.entity entityType)
      (fun counts => { counts with modified := counts.modified.plus ⟨0, 1⟩ }) fun _ _ _ => rfl
    have unchanged : entityType = key → local_.get? id = base.get? id ∨ remote.get? id = base.get? id := fun same =>
      agreed same remote rfl
    dsimp only
    split
    · rename_i conflict
      exact counted'.recordConflict fun same => by
        rcases unchanged (SyncChangeEntityKey.entity.inj same) with here | here <;> simp [here, isAdded_self] at conflict
    · split
      · rename_i conflict
        exact counted'.recordConflict fun same => by
          rcases unchanged (SyncChangeEntityKey.entity.inj same) with here | here <;>
            simp [here, isModified_self] at conflict
      · split
        · rename_i conflict
          exact counted'.recordConflict fun same => by
            rcases unchanged (SyncChangeEntityKey.entity.inj same) with here | here <;>
              simp [here, isDeleted_self, isModified_self] at conflict
        · split
          · rename_i conflict
            exact counted'.recordConflict fun same => by
              rcases unchanged (SyncChangeEntityKey.entity.inj same) with here | here <;>
                simp [here, isDeleted_self, isModified_self] at conflict
          · exact counted'

section

variable {entityType : CloudSyncPayloadEntityKey}
  {baseValues localValues remoteValues : Option (List (JsString × JsonValue))}

theorem Unreported.entityChanges_local
    (unchanged : entityType = key → entityMap localValues = entityMap baseValues)
    (quiet : Unreported SideCounts.ofLocal key summary) :
    Unreported SideCounts.ofLocal key (recordEntityChanges summary entityType baseValues localValues remoteValues) := by
  unfold recordEntityChanges
  refine List.foldlRecOn _ _ quiet ?_
  intro summary quiet id _
  refine quiet.recordEntity (fun same deleted => ?_) (fun _ _ _ _ _ => rfl) (fun same _ _ => .inl ?_)
  · rw [unchanged same, isDeleted_self] at deleted
    cases deleted
  · rw [unchanged same]

theorem Unreported.entityChanges_remote
    (unchanged : entityType = key → remoteValues = none ∨ entityMap remoteValues = entityMap baseValues)
    (quiet : Unreported SideCounts.ofRemote key summary) :
    Unreported SideCounts.ofRemote key (recordEntityChanges summary entityType baseValues localValues remoteValues) := by
  have same_ : entityType = key → ∀ map ∈ (if remoteValues.isNone then none else some (entityMap remoteValues)),
      map = entityMap baseValues := by
    intro same map mem
    rcases unchanged same with absent | here
    · rw [absent] at mem
      cases mem
    · split at mem
      · cases mem
      · rw [← Option.some.inj mem, here]
  unfold recordEntityChanges
  refine List.foldlRecOn _ _ quiet ?_
  intro summary quiet id _
  refine quiet.recordEntity (fun _ _ _ => rfl) (fun same map mem deleted => ?_) (fun same map mem => .inr ?_)
  · rw [same_ same map mem, isDeleted_self] at deleted
    cases deleted
  · rw [same_ same map mem]

end

theorem Unreported.settingsChanges {base local_ : SyncedPayload} {remote : Option SyncedPayload}
    (quiet : Unreported side key summary) : Unreported side key (recordSettingsChanges summary base local_ remote) := by
  have other : SyncChangeEntityKey.settings ≠ .entity key := SyncChangeEntityKey.noConfusion
  unfold recordSettingsChanges
  dsimp only
  have counted := fun changed changed' updater updater' =>
    (quiet.recordLocal changed .settings updater fun _ same => absurd same other).recordRemote
      changed' .settings updater' fun _ same => absurd same other
  split
  · exact (counted _ _ _ _).recordConflict other
  · exact counted _ _ _ _

end Unreported

/-! ## Collections that are left out -/

/-- What is reported of a collection that a side leaves out: nothing is deleted on that side, no two
changes conflict, and nothing is recorded as deleted. -/
structure ReadAsUnchanged (base : Option SyncedPayload) (local_ : SyncedPayload) (remote : Option SyncedPayload)
    (deletedAt : ℚ) (deviceId : Option JsString) (key : CloudSyncPayloadEntityKey) : Prop where
  ofLocal : local_.values key = none →
    Unreported SideCounts.ofLocal key (summarizeSyncChanges base local_ remote) ∧
      ∀ record ∈ collectSyncDeletions (base.map SyncedPayload.toSyncPayload) local_.toSyncPayload deletedAt deviceId,
        record.entityType ≠ key
  ofRemote : (∀ payload ∈ remote, payload.values key = none) →
    Unreported SideCounts.ofRemote key (summarizeSyncChanges base local_ remote)

/-- The collections that only the merge knows as optional. -/
def Drifted (key : CloudSyncPayloadEntityKey) : Prop := key = .notes ∨ key = .noteGroups

theorem mem_OPTIONAL_ENTITY_KEYS {key : CloudSyncPayloadEntityKey} (optional : key ∈ OPTIONAL_ENTITY_KEYS) :
    key ≠ .hosts ∧ (key ∈ SyncReliability.OPTIONAL_ENTITY_KEYS ∨
      key ∉ SyncReliability.OPTIONAL_ENTITY_KEYS ∧ Drifted key) := by
  unfold Drifted
  revert optional
  cases key <;> decide

theorem values_sanitized (payload : SyncedPayload) {key : CloudSyncPayloadEntityKey} (other : key ≠ .hosts) :
    (withHostsSanitizedForSync payload).values key = payload.values key := by
  cases key <;> first | rfl | exact absurd rfl other

theorem entityMap_nil {values : Option (List (JsString × JsonValue))} (empty : values.getD [] = []) :
    entityMap values = OrderedMap.empty := by
  rw [entityMap, empty]
  rfl

theorem has_entityMap (values : Option (List (JsString × JsonValue))) (id : JsString) :
    (entityMap values).has id ↔ id ∈ (values.getD []).map Prod.fst := by
  unfold entityMap
  induction values.getD [] using List.reverseRecOn with
  | nil => simp [OrderedMap.has]
  | append_singleton values value ih =>
    rw [foldl_append, map_append, mem_append, ← ih]
    by_cases same : id = value.1 <;> simp [OrderedMap.has, OrderedMap.get?_set, same]

/-- What is compared with the base where a side leaves out a collection. -/
theorem payloadValues_none {payload base : SyncPayload} {key : CloudSyncPayloadEntityKey}
    (absent : payload.values key = none) :
    payloadValues payload key base =
      if key ∈ SyncReliability.OPTIONAL_ENTITY_KEYS then base.values key else none := by
  unfold payloadValues
  rw [absent]
  by_cases known : key ∈ SyncReliability.OPTIONAL_ENTITY_KEYS <;> simp [known]

section

variable {base current : SyncPayload} {deletedAt : ℚ} {deviceId : Option JsString}

theorem mem_collectSyncDeletions
    {record : SyncDeletionRecord} (mem : record ∈ collectSyncDeletions (some base) current deletedAt deviceId) :
    record.id ∈ (entityMap (base.values record.entityType)).keys ∧
      (entityMap (payloadValues current record.entityType base)).has record.id = false := by
  simp only [collectSyncDeletions, mem_flatMap, List.mem_map, mem_filter, not_eq_true'] at mem
  obtain ⟨entityType, -, id, ⟨held, gone⟩, rfl⟩ := mem
  exact ⟨held, gone⟩

theorem readAsUnchanged_of (base : Option SyncedPayload) (local_ : SyncedPayload) (remote : Option SyncedPayload)
    (deletedAt : ℚ) (deviceId : Option JsString) {key : CloudSyncPayloadEntityKey}
    (optional : key ∈ OPTIONAL_ENTITY_KEYS)
    (empty : Drifted key → local_.values key = none → ∀ payload ∈ base, (payload.values key).getD [] = []) :
    ReadAsUnchanged base local_ remote deletedAt deviceId key := by
  obtain ⟨other, known⟩ := mem_OPTIONAL_ENTITY_KEYS optional
  have start : ∀ side : SideCounts → ℕ, side .zero = 0 → Unreported side key SyncChangeSummary.empty := by
    intro side zero
    exact ⟨zero, fun detail mem => absurd mem not_mem_nil⟩
  refine ⟨fun absent => ⟨?_, ?_⟩, fun absent => ?_⟩
  · -- the local side has what the base has, or there is nothing to have
    have same : entityMap (payloadValues (withHostsSanitizedForSync local_).toSyncPayload key
        (withHostsSanitizedForSync (base.getD SyncReliability.emptyBase)).toSyncPayload) =
        entityMap ((withHostsSanitizedForSync (base.getD SyncReliability.emptyBase)).values key) := by
      rw [payloadValues_none ((values_sanitized local_ other).trans absent), values_sanitized _ other]
      rcases known with listed | ⟨unlisted, drifted⟩
      · rw [if_pos listed]
      · rw [if_neg unlisted, entityMap_nil rfl, entityMap_nil]
        cases base with
        | none =>
          unfold Drifted at drifted
          rcases drifted with rfl | rfl <;> rfl
        | some payload => exact empty drifted absent payload rfl
    unfold summarizeSyncChanges
    refine Unreported.settingsChanges (List.foldlRecOn _ _ (start _ rfl) ?_)
    intro summary quiet entityType _
    exact quiet.entityChanges_local fun here => here ▸ same
  · intro record mem here
    cases base with
    | none => exact absurd mem not_mem_nil
    | some payload =>
      obtain ⟨held, gone⟩ := mem_collectSyncDeletions mem
      rw [here] at held gone
      rw [payloadValues_none absent] at gone
      rcases known with listed | ⟨unlisted, drifted⟩
      · rw [if_pos listed] at gone
        rw [OrderedMap.mem_keys, gone] at held
        cases held
      · rw [entityMap_nil (empty drifted absent payload rfl)] at held
        exact absurd held not_mem_nil
  · unfold summarizeSyncChanges
    refine Unreported.settingsChanges (List.foldlRecOn _ _ (start _ rfl) ?_)
    intro summary quiet entityType _
    refine quiet.entityChanges_remote fun here => ?_
    subst here
    cases remote with
    | none => exact .inl rfl
    | some payload =>
      have absent' := (values_sanitized payload other).trans (absent payload rfl)
      dsimp only [map_some, bind_some]
      rw [payloadValues_none absent']
      split
      · exact .inr rfl
      · exact .inl rfl

theorem values_eq_nil_of_unrecorded
    {key : CloudSyncPayloadEntityKey} (unlisted : key ∉ SyncReliability.OPTIONAL_ENTITY_KEYS)
    (absent : current.values key = none)
    (unrecorded : ∀ record ∈ collectSyncDeletions (some base) current deletedAt deviceId, record.entityType ≠ key) :
    (base.values key).getD [] = [] := by
  cases values : (base.values key).getD [] with
  | nil => rfl
  | cons value rest =>
    have held : (entityMap (base.values key)).has value.1 = true := by
      rw [has_entityMap, values]
      exact mem_cons_self
    have gone : (entityMap (payloadValues current key base)).has value.1 = false := by
      rw [payloadValues_none absent, if_neg unlisted, entityMap_nil rfl]
      rfl
    have all : key ∈ CLOUD_SYNC_PAYLOAD_ENTITY_KEYS := by
      cases key <;> decide
    have record : (⟨key, value.1, deletedAt, deviceId.filter (· ≠ [])⟩ : SyncDeletionRecord) ∈
        collectSyncDeletions (some base) current deletedAt deviceId := by
      simp only [collectSyncDeletions, mem_flatMap, List.mem_map, mem_filter, not_eq_true']
      exact ⟨key, all, value.1, ⟨OrderedMap.mem_keys.mpr held, gone⟩, rfl⟩
    exact absurd rfl (unrecorded _ record)

end

/-- The reports read a collection that a side leaves out as unchanged, as the merge does, if and only
if a device that leaves out notes or note groups has none in its base. -/
theorem omitted_unchanged_iff (base : Option SyncedPayload) (local_ : SyncedPayload) (remote : Option SyncedPayload)
    (deletedAt : ℚ) (deviceId : Option JsString) :
    (∀ key ∈ OPTIONAL_ENTITY_KEYS, ReadAsUnchanged base local_ remote deletedAt deviceId key) ↔
      ∀ key, Drifted key → local_.values key = none → ∀ payload ∈ base, (payload.values key).getD [] = [] := by
  constructor
  · intro unchanged key drifted absent payload held
    have listed : key ∈ OPTIONAL_ENTITY_KEYS ∧ key ∉ SyncReliability.OPTIONAL_ENTITY_KEYS := by
      unfold Drifted at drifted
      rcases drifted with rfl | rfl <;> decide
    have unrecorded := ((unchanged key listed.1).ofLocal absent).2
    rw [mem_def] at held
    rw [held] at unrecorded
    exact values_eq_nil_of_unrecorded listed.2 absent unrecorded
  · intro empty key optional
    exact readAsUnchanged_of base local_ remote deletedAt deviceId optional (empty key)

/-- A payload with nothing in it and its settings left out. -/
def emptySynced : SyncedPayload := { emptyPayload with settings := none }

/-- A device of a version that knows no notes, after it has synced with one that does. -/
theorem not_unchanged_notes :
    ¬∀ (base : Option SyncedPayload) (local_ : SyncedPayload) (remote : Option SyncedPayload) (deletedAt : ℚ)
      (deviceId : Option JsString), ∀ key ∈ OPTIONAL_ENTITY_KEYS,
        ReadAsUnchanged base local_ remote deletedAt deviceId key := by
  intro unchanged
  have unrecorded := ((unchanged (some { emptySynced with notes := some [⟨text "n", []⟩] })
    { emptySynced with notes := none } none 1 none .notes (by decide)).ofLocal rfl).2
  have none_ := values_eq_nil_of_unrecorded (by decide) rfl unrecorded
  cases none_

/-- A device that leaves out its bookmarks. -/
theorem omitted_unchanged_bookmarks :
    ReadAsUnchanged (some { emptySynced with browserBookmarks := some [⟨text "b", []⟩] })
      { emptySynced with browserBookmarks := none } none 1 none .browserBookmarks := by
  refine (omitted_unchanged_iff _ _ _ _ _).mpr ?_ .browserBookmarks (by decide)
  rintro key (rfl | rfl) absent
  · cases absent
  · cases absent

end Netcatty.SyncMerge
