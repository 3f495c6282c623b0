import Netcatty.SyncPayloads

/-!
The three-way merge of payloads.

The merge of two transcripts of one session is a parameter that keeps the session's id.
-/

namespace Netcatty.SyncMerge

structure MergeSyncPayloadsOptions where
  preserveDeletions : Bool

structure EntityMergeOptions where
  preserveDeletions : Bool
  mergeFields : Bool
  deleteWins : Bool

/-- A number for each of the two sides. -/
structure SideCounts where
  ofLocal : ℕ
  ofRemote : ℕ
  deriving DecidableEq

def SideCounts.plus (a b : SideCounts) : SideCounts := ⟨a.ofLocal + b.ofLocal, a.ofRemote + b.ofRemote⟩

def SideCounts.zero : SideCounts := ⟨0, 0⟩

/-- The ids each side has deleted. -/
structure Tombstones where
  ofLocal : List JsString
  ofRemote : List JsString

structure MergeSummary where
  added : SideCounts
  deleted : SideCounts
  modified : SideCounts
  conflicts : ℕ
  deriving DecidableEq

def MergeSummary.zero : MergeSummary := ⟨.zero, .zero, .zero, 0⟩

def MergeSummary.plus (a b : MergeSummary) : MergeSummary :=
  ⟨a.added.plus b.added, a.deleted.plus b.deleted, a.modified.plus b.modified,
    a.conflicts + b.conflicts⟩

structure EntityMergeResult (T : Type) where
  merged : List T
  counts : MergeSummary

/-- What comes of one id: an entity or none, and what is counted. -/
structure EntityOutcome (T : Type) where
  kept : Option T
  counts : MergeSummary

/-! ## Entities -/

/-- Entities have an id, are compared by their fingerprints, and may be merged field by field,
which tells whether the two sides differ. -/
structure EntityOps (T : Type) where
  id : T → JsString
  sameFingerprint : T → T → Bool
  combine : T → T → T → T × Bool
  combine_id : ∀ base local_ remote, id (combine base local_ remote).1 = id remote

def SyncEntity.json (entity : SyncEntity) : JsonValue := .obj ((text "id", .str entity.id) :: entity.fields)

/-- Do two values that may be missing have one fingerprint? -/
def sameField : Option JsonValue → Option JsonValue → Bool
  | none, none => true
  | some a, some b => jsonValuesEqual a b
  | _, _ => false

def combineField (base local_ remote : SyncEntity) (combined : JsonObject × Bool) (field : JsString) :
    JsonObject × Bool :=
  let localValue := local_.fields.lookup field
  let remoteValue := remote.fields.lookup field
  let localChanged := !sameField localValue (base.fields.lookup field)
  let remoteChanged := !sameField remoteValue (base.fields.lookup field)
  (match localChanged, localValue with
    | true, some value => setOwnRecordValue combined.1 field value
    | _, _ => combined.1,
    combined.2 || (localChanged && remoteChanged && !sameField localValue remoteValue))

def combineFields (base local_ remote : SyncEntity) : SyncEntity × Bool :=
  let combined := (local_.fields.map Prod.fst).foldl (combineField base local_ remote)
    (remote.fields, false)
  (⟨remote.id, combined.1⟩, combined.2)

def entityOps : EntityOps SyncEntity where
  id := SyncEntity.id
  sameFingerprint a b := jsonValuesEqual a.json b.json
  combine := combineFields
  combine_id _ _ _ := rfl

def wrapGC (config : GroupConfig) : SyncEntity := ⟨config.path, (text "path", .str config.path) :: config.fields⟩

def unwrapGC (entity : SyncEntity) : GroupConfig :=
  ⟨entity.id, entity.fields.filter fun field => field.1 ≠ text "path"⟩

section Merge

variable {T : Type} (ops : EntityOps T)

/-- `new Map(entities.map((e) => [e.id, e]))`. -/
def byId (entities : List T) : OrderedMap JsString T :=
  entities.foldl (fun map entity => map.set (ops.id entity) entity) OrderedMap.empty

def addition (tombstone : Bool) (item : T) (added deleted : SideCounts) : EntityOutcome T :=
  if tombstone then ⟨none, { MergeSummary.zero with deleted := deleted }⟩
  else ⟨some item, { MergeSummary.zero with added := added }⟩

def deletion (options : EntityMergeOptions) (baseItem item : T) (deleted : SideCounts) :
    EntityOutcome T :=
  if !ops.sameFingerprint item baseItem && !options.deleteWins then
    ⟨some item, { MergeSummary.zero with conflicts := 1 }⟩
  else if options.preserveDeletions then ⟨some item, { MergeSummary.zero with deleted := deleted }⟩
  else ⟨none, { MergeSummary.zero with deleted := deleted }⟩

/-- One turn of the loop over all ids. -/
def mergeEntity (options : EntityMergeOptions) (tombstones : Tombstones) (id : JsString)
    (baseItem localItem remoteItem : Option T) : EntityOutcome T :=
  match baseItem, localItem, remoteItem with
  | _, none, none => ⟨none, MergeSummary.zero⟩
  | none, some localItem, none =>
    addition (!options.preserveDeletions && tombstones.ofRemote.contains id) localItem ⟨1, 0⟩ ⟨0, 1⟩
  | none, none, some remoteItem =>
    addition (!options.preserveDeletions && tombstones.ofLocal.contains id) remoteItem ⟨0, 1⟩ ⟨1, 0⟩
  | none, some localItem, some remoteItem =>
    ⟨some localItem, { MergeSummary.zero with
      conflicts := if ops.sameFingerprint localItem remoteItem then 0 else 1 }⟩
  | some baseItem, some localItem, some remoteItem =>
    match ops.sameFingerprint localItem baseItem, ops.sameFingerprint remoteItem baseItem with
    | true, true => ⟨some baseItem, MergeSummary.zero⟩
    | false, true => ⟨some localItem, { MergeSummary.zero with modified := ⟨1, 0⟩ }⟩
    | true, false => ⟨some remoteItem, { MergeSummary.zero with modified := ⟨0, 1⟩ }⟩
    | false, false =>
      if options.mergeFields then
        let combined := ops.combine baseItem localItem remoteItem
        ⟨some combined.1, { MergeSummary.zero with
          modified := ⟨1, 1⟩, conflicts := if combined.2 then 1 else 0 }⟩
      else
        ⟨some localItem, { MergeSummary.zero with
          modified := ⟨1, 1⟩
          conflicts := if ops.sameFingerprint localItem remoteItem then 0 else 1 }⟩
  | some baseItem, none, some remoteItem => deletion ops options baseItem remoteItem ⟨1, 0⟩
  | some baseItem, some localItem, none => deletion ops options baseItem localItem ⟨0, 1⟩

def mergeById (merge : JsString → Option T → Option T → Option T → EntityOutcome T)
    (base local_ remote : List T) : EntityMergeResult T :=
  let baseMap := byId ops base
  let localMap := byId ops local_
  let remoteMap := byId ops remote
  let allIds := (baseMap.keys ++ localMap.keys ++ remoteMap.keys).eraseDups
  let outcomes := allIds.map fun id =>
    merge id (baseMap.get? id) (localMap.get? id) (remoteMap.get? id)
  ⟨outcomes.filterMap EntityOutcome.kept,
    outcomes.foldl (fun counts outcome => counts.plus outcome.counts) MergeSummary.zero⟩

def mergeEntityArrays (base local_ remote : List T) (tombstones : Tombstones)
    (options : EntityMergeOptions) : EntityMergeResult T :=
  mergeById ops (mergeEntity ops options tombstones) base local_ remote

end Merge

/-! ## Sessions -/

/-- What the merge uses from outside: the order of texts, and the merge of two transcripts. -/
structure MergeTools where
  localeCompare : JsString → JsString → Ordering
  mergeAiSessionPair : SyncEntity → SyncEntity → SyncEntity
  pair_id : ∀ a b, a.id = b.id → (mergeAiSessionPair a b).id = a.id

def sessionDeletion (options : EntityMergeOptions) (baseItem item : SyncEntity) (deleted : SideCounts) :
    EntityOutcome SyncEntity :=
  let changed := !entityOps.sameFingerprint item baseItem
  ⟨if changed || options.preserveDeletions then some item else none,
    { MergeSummary.zero with deleted := deleted, conflicts := if changed then 1 else 0 }⟩

/-- One turn of the loop over all sessions. -/
def mergeAiSession (tools : MergeTools) (options : EntityMergeOptions) (tombstones : Tombstones)
    (id : JsString) (baseItem localItem remoteItem : Option SyncEntity) : EntityOutcome SyncEntity :=
  match baseItem, localItem, remoteItem with
  | _, none, none => ⟨none, MergeSummary.zero⟩
  | none, some localItem, none =>
    addition (!options.preserveDeletions && tombstones.ofRemote.contains id) localItem ⟨1, 0⟩ ⟨0, 1⟩
  | none, none, some remoteItem =>
    addition (!options.preserveDeletions && tombstones.ofLocal.contains id) remoteItem ⟨0, 1⟩ ⟨1, 0⟩
  | none, some localItem, some remoteItem =>
    ⟨some (tools.mergeAiSessionPair localItem remoteItem), { MergeSummary.zero with conflicts := 1 }⟩
  | some _, some localItem, some remoteItem =>
    ⟨some (tools.mergeAiSessionPair localItem remoteItem),
      if entityOps.sameFingerprint localItem remoteItem then MergeSummary.zero
      else { MergeSummary.zero with modified := ⟨1, 1⟩, conflicts := 1 }⟩
  | some baseItem, some localItem, none => sessionDeletion options baseItem localItem ⟨0, 1⟩
  | some baseItem, none, some remoteItem => sessionDeletion options baseItem remoteItem ⟨1, 0⟩

def mergeAiSessionArrays (tools : MergeTools) (base local_ remote : List SyncEntity)
    (tombstones : Tombstones) (options : EntityMergeOptions) : EntityMergeResult SyncEntity :=
  mergeById entityOps (mergeAiSession tools options tombstones) base local_ remote

/-! ## Strings -/

def keepsString (base local_ remote : List JsString) (tombstones : Tombstones)
    (options : EntityMergeOptions) (value : JsString) : Bool :=
  let inBase := base.contains value
  let inLocal := local_.contains value
  let inRemote := remote.contains value
  if !options.preserveDeletions && !inBase && inLocal && !inRemote &&
      tombstones.ofRemote.contains value then false
  else if !options.preserveDeletions && !inBase && !inLocal && inRemote &&
      tombstones.ofLocal.contains value then false
  else if !inBase then inLocal || inRemote
  else if !inLocal && !inRemote then false
  else if !inLocal || !inRemote then options.preserveDeletions
  else true

def mergeStringArrays (base local_ remote : List JsString) (tombstones : Tombstones)
    (options : EntityMergeOptions) : List JsString :=
  ((base.eraseDups ++ local_.eraseDups ++ remote.eraseDups).eraseDups).filter
    (keepsString base local_ remote tombstones options)

/-! ## Payloads -/

structure MergeResult where
  payload : SyncPayload
  hadConflicts : Bool
  summary : MergeSummary

def emptyBase : SyncPayload :=
  { hosts := [], keys := [], identities := some [], proxyProfiles := some [], snippets := []
    customGroups := [], snippetPackages := some [], notes := some [], noteGroups := some []
    portForwardingRules := some [], browserBookmarks := some [], groupConfigs := none
    monitorPanels := none, aiSessions := some [], syncedAt := 0, deletions := [] }

/-- A collection; what an older device leaves out is as in `fallback`. -/
def entityArray {T : Type} (collection : Option (List T)) (fallback : List T) : List T :=
  collection.getD fallback

/-- The last connection is the device's own affair. -/
def sanitizeHostsForSync (hosts : List SyncEntity) : List SyncEntity :=
  hosts.map fun host => ⟨host.id, host.fields.filter fun field => field.1 ≠ text "lastConnectedAt"⟩

def mergeSyncPayloads (tools : MergeTools) (now : ℚ) (base : Option SyncPayload)
    (local_ remote : SyncPayload) (options : MergeSyncPayloadsOptions) : MergeResult :=
  let mergeOptions : EntityMergeOptions := ⟨options.preserveDeletions, false, false⟩
  let b := base.getD emptyBase
  let tombstones := fun entityType =>
    (⟨getDeletedEntityIds local_ entityType, getDeletedEntityIds remote entityType⟩ : Tombstones)
  let hosts := mergeEntityArrays entityOps (sanitizeHostsForSync b.hosts)
    (sanitizeHostsForSync local_.hosts) (sanitizeHostsForSync remote.hosts) (tombstones .hosts)
    mergeOptions
  let keys := mergeEntityArrays entityOps b.keys local_.keys remote.keys (tombstones .keys) mergeOptions
  let mergeOptional := fun (field : SyncPayload → Option (List SyncEntity)) entityType options =>
    let baseItems := (field b).getD []
    mergeEntityArrays entityOps baseItems (entityArray (field local_) baseItems)
      (entityArray (field remote) baseItems) (tombstones entityType) options
  let identities := mergeOptional SyncPayload.identities .identities mergeOptions
  let proxyProfiles := mergeOptional SyncPayload.proxyProfiles .proxyProfiles mergeOptions
  let snippets := mergeEntityArrays entityOps b.snippets local_.snippets remote.snippets
    (tombstones .snippets) mergeOptions
  let monitorPanels := mergeOptional SyncPayload.monitorPanels .monitorPanels
    ⟨options.preserveDeletions, true, true⟩
  let notes := mergeOptional SyncPayload.notes .notes mergeOptions
  let portForwardingRules := mergeOptional SyncPayload.portForwardingRules .portForwardingRules mergeOptions
  let browserBookmarks := mergeOptional SyncPayload.browserBookmarks .browserBookmarks mergeOptions
  let baseGroupConfigs := b.groupConfigs.getD []
  let groupConfigs := mergeEntityArrays entityOps (baseGroupConfigs.map wrapGC)
    ((entityArray local_.groupConfigs baseGroupConfigs).map wrapGC)
    ((entityArray remote.groupConfigs baseGroupConfigs).map wrapGC) (tombstones .groupConfigs)
    mergeOptions
  let baseAiSessions := b.aiSessions.getD []
  let aiSessions := mergeAiSessionArrays tools baseAiSessions
    (entityArray local_.aiSessions baseAiSessions) (entityArray remote.aiSessions baseAiSessions)
    (tombstones .aiSessions) mergeOptions
  let summary := [hosts, keys, identities, proxyProfiles, snippets, monitorPanels, notes,
    portForwardingRules, browserBookmarks, groupConfigs, aiSessions].foldl
      (fun summary result => summary.plus result.counts) MergeSummary.zero
  let strings := fun (field : SyncPayload → Option (List JsString)) entityType =>
    let baseStrings := (field b).getD []
    mergeStringArrays baseStrings (entityArray (field local_) baseStrings)
      (entityArray (field remote) baseStrings) (tombstones entityType) mergeOptions
  let payload := carryForwardSyncDeletions tools.localeCompare
    { hosts := hosts.merged
      keys := keys.merged
      identities := some identities.merged
      proxyProfiles := some proxyProfiles.merged
      snippets := snippets.merged
      monitorPanels := some monitorPanels.merged
      customGroups := mergeStringArrays b.customGroups local_.customGroups remote.customGroups
        (tombstones .customGroups) mergeOptions
      snippetPackages := some (strings SyncPayload.snippetPackages .snippetPackages)
      notes := some notes.merged
      noteGroups := some (strings SyncPayload.noteGroups .noteGroups)
      portForwardingRules := some portForwardingRules.merged
      browserBookmarks := some browserBookmarks.merged
      groupConfigs := some (groupConfigs.merged.map unwrapGC)
      aiSessions :=
        if (base.bind SyncPayload.aiSessions).isSome || local_.aiSessions.isSome ||
            remote.aiSessions.isSome then some aiSessions.merged
        else none
      syncedAt := now
      deletions := [] } [local_, remote]
  ⟨payload, 0 < summary.conflicts, summary⟩

end Netcatty.SyncMerge
