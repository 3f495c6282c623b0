import Netcatty.SyncChanges

/-!
Replicas and the payloads of older devices.

A replica is materialized as a payload.  A payload of an older device is compared with the payload
it started from, and what changed becomes a batch of mutations.  The sidecars and sessions of a
payload are no part of a replica.
-/

namespace Netcatty.SyncMerge

def SyncEntity.record (entity : SyncEntity) : JsonObject := (text "id", .str entity.id) :: entity.fields

def GroupConfig.record (config : GroupConfig) : JsonObject := (text "path", .str config.path) :: config.fields

variable (payload : SyncPayload)

/-- The objects of a collection; none where it is left out. -/
def SyncPayload.records : CloudSyncPayloadEntityKey → Option (List JsonObject)
  | .hosts => some (payload.hosts.map SyncEntity.record)
  | .keys => some (payload.keys.map SyncEntity.record)
  | .identities => payload.identities.map (·.map SyncEntity.record)
  | .proxyProfiles => payload.proxyProfiles.map (·.map SyncEntity.record)
  | .snippets => some (payload.snippets.map SyncEntity.record)
  | .notes => payload.notes.map (·.map SyncEntity.record)
  | .portForwardingRules => payload.portForwardingRules.map (·.map SyncEntity.record)
  | .browserBookmarks => payload.browserBookmarks.map (·.map SyncEntity.record)
  | .groupConfigs => payload.groupConfigs.map (·.map GroupConfig.record)
  | .monitorPanels => payload.monitorPanels.map (·.map SyncEntity.record)
  | .aiSessions => payload.aiSessions.map (·.map SyncEntity.record)
  | .customGroups | .snippetPackages | .noteGroups => none

/-- The strings of a collection; none where it is left out. -/
def SyncPayload.strings : CloudSyncPayloadEntityKey → Option (List JsString)
  | .customGroups => some payload.customGroups
  | .snippetPackages => payload.snippetPackages
  | .noteGroups => payload.noteGroups
  | _ => none

namespace Legacy

def CONVERGENT_ENTITY_COLLECTIONS : List CloudSyncPayloadEntityKey :=
  [.hosts, .keys, .identities, .proxyProfiles, .snippets, .notes, .portForwardingRules, .browserBookmarks,
    .groupConfigs, .monitorPanels]

def CONVERGENT_STRING_COLLECTIONS : List CloudSyncPayloadEntityKey :=
  [.customGroups, .snippetPackages, .noteGroups]

/-! ## From a replica to a payload -/

variable (state : ConvergentSyncState)

def requireKnownCollections : Checked Unit := do
  state.collections.keys.forM fun collection =>
    ensure (collection ∈ CONVERGENT_ENTITY_COLLECTIONS.map CloudSyncPayloadEntityKey.name)
      (.error (text "Unsupported convergent entity collection: " ++ collection))
  state.stringCollections.keys.forM fun collection =>
    ensure (collection ∈ CONVERGENT_STRING_COLLECTIONS.map CloudSyncPayloadEntityKey.name)
      (.error (text "Unsupported convergent string collection: " ++ collection))

def readEntity (value : JsonObject) : Option SyncEntity :=
  match getOwnRecordValue value (text "id") with
  | some (.str id) => some ⟨id, value.filter fun field => field.1 ≠ text "id"⟩
  | _ => none

/-- A materialized group's configuration, without the id it is stored under.  One without a path
has no id in a payload: it is left out here, where the source carries it along unread. -/
def readGroupConfig (value : JsonObject) : Option GroupConfig :=
  match getOwnRecordValue value (text "path") with
  | some (.str path) => some ⟨path, value.filter fun field => field.1 ≠ text "id" ∧ field.1 ≠ text "path"⟩
  | _ => none

variable (materialized : MaterializedConvergentSyncState) (collection : CloudSyncPayloadEntityKey)

def collectionValues :
    List JsonObject :=
  (materialized.collections.get? collection.name).getD []

def typedCollection :
    List SyncEntity :=
  (collectionValues materialized collection).filterMap readEntity

def stringValues :
    List JsString :=
  (materialized.stringCollections.get? collection.name).getD []

def payloadOf (syncedAt : ℚ) : SyncedPayload where
  hosts := typedCollection materialized .hosts
  keys := typedCollection materialized .keys
  identities := some (typedCollection materialized .identities)
  proxyProfiles := some (typedCollection materialized .proxyProfiles)
  monitorPanels := some (typedCollection materialized .monitorPanels)
  snippets := typedCollection materialized .snippets
  customGroups := stringValues materialized .customGroups
  snippetPackages := some (stringValues materialized .snippetPackages)
  notes := some (typedCollection materialized .notes)
  noteGroups := some (stringValues materialized .noteGroups)
  portForwardingRules := some (typedCollection materialized .portForwardingRules)
  browserBookmarks := some (typedCollection materialized .browserBookmarks)
  groupConfigs := some ((collectionValues materialized .groupConfigs).filterMap readGroupConfig)
  settings := if materialized.settings.isEmpty then none else some (.obj materialized.settings)
  aiSessions := none
  syncedAt := syncedAt
  deletions := []

def materializeSyncPayloadFromConvergentState (syncedAt : ℚ) :
    Checked SyncedPayload := do
  requireKnownCollections state
  let materialized ← materializeConvergentSyncState state
  return payloadOf materialized syncedAt

/-! ## What changed in a payload -/

def withHostsSanitizedForSync : SyncPayload :=
  { payload with hosts := sanitizeHostsForSync payload.hosts }

def entityId (value : JsonObject) : Option JsString :=
  match getOwnRecordValue value (if collection = .groupConfigs then text "path" else text "id") with
  | some (.str (unit :: rest)) => some (unit :: rest)
  | _ => none

/-- One turn of the loop of `entityMap`. -/
def addRecord (map : OrderedMap JsString JsonObject)
    (value : JsonObject) : OrderedMap JsString JsonObject :=
  match entityId collection value with
  | some id => map.set id value
  | none => map

def entityMap :
    OrderedMap JsString JsonObject :=
  ((payload.records collection).getD []).foldl (addRecord collection) OrderedMap.empty

def stringSet : List JsString :=
  ((payload.strings collection).getD []).eraseDups

/-- The place of a key of a map, or of a string of a set. -/
def positionMap (values : List JsString) (value : JsString) : Option ℕ := values.idxOf? value

def position (values : List JsString) (value : JsString) : Option CollectionPosition :=
  (positionMap values value).map fun place => .number place

def normalizedEntityValue (id : JsString) (value : JsonObject) : JsonObject :=
  setOwnRecordValue value (text "id") (.str id)

/-- One turn of the loop over the ids of a collection. -/
def diffEntity (before after : OrderedMap JsString JsonObject)
    (id : JsString) : Option ConvergentMutation :=
  match before.get? id, after.get? id with
  | _, none => if before.has id then some (.entityDelete collection.name id) else none
  | previous, some next =>
    let unchanged := previous.any fun previous => jsonValuesEqual (.obj previous) (.obj next)
    if !unchanged || positionMap before.keys id ≠ positionMap after.keys id then
      some (.entityUpsert collection.name id (normalizedEntityValue id next) (position after.keys id))
    else none

def diffEntities (before after : OrderedMap JsString JsonObject) :
    List ConvergentMutation :=
  ((before.keys ++ after.keys).dedup.insertionSort (· ≤ ·)).filterMap (diffEntity collection before after)

def diffStrings (before after : List JsString) :
    List ConvergentMutation :=
  ((before.insertionSort (· ≤ ·)).filter fun value => value ∉ after).map (.stringEntryDelete collection.name) ++
  ((after.insertionSort (· ≤ ·)).filter fun value =>
    value ∉ before ∨ positionMap before value ≠ positionMap after value).map fun value =>
      .stringEntryAdd collection.name value (position after value)

mutual

def settingLeaves (path : List JsString) : JsonValue → List (List JsString × JsonValue)
  | .obj (field :: fields) =>
    ((fieldLeaves path (field :: fields)).insertionSort fun a b => a.1 ≤ b.1).flatMap Prod.snd
  | value => if path = [] then [] else [(path, value)]

def fieldLeaves (path : List JsString) : JsonObject → List (JsString × List (List JsString × JsonValue))
  | [] => []
  | field :: fields => (field.1, settingLeaves (path ++ [field.1]) field.2) :: fieldLeaves path fields

end

def flattenSettings (settings : Option JsonValue) :
    Checked (OrderedMap JsString (List JsString × JsonValue)) :=
  (settings.elim [] (settingLeaves [])).foldlM (fun output leaf => do
    let key ← encodeSettingPath leaf.1
    return output.set key leaf) OrderedMap.empty

/-- One turn of the loop over the paths. -/
def diffSetting (before after : OrderedMap JsString (List JsString × JsonValue)) (key : JsString) :
    Option ConvergentMutation :=
  match before.get? key, after.get? key with
  | none, none => none
  | some previous, none => some (.settingDelete previous.1)
  | none, some next => some (.settingSet next.1 next.2)
  | some previous, some next =>
    if jsonValuesEqual previous.2 next.2 then none else some (.settingSet next.1 next.2)

def diffSettings (before after : Option JsonValue) : Checked (List ConvergentMutation) := do
  let before ← flattenSettings before
  let after ← flattenSettings after
  return ((before.keys ++ after.keys).dedup.insertionSort (· ≤ ·)).filterMap (diffSetting before after)

def diffCollections (baseline legacy : SyncPayload) : List ConvergentMutation :=
  let sanitizedBaseline := withHostsSanitizedForSync baseline
  let sanitizedLegacy := withHostsSanitizedForSync legacy
  (CONVERGENT_ENTITY_COLLECTIONS.flatMap fun collection =>
    if (legacy.records collection).isSome then
      diffEntities collection (entityMap sanitizedBaseline collection) (entityMap sanitizedLegacy collection)
    else []) ++
  CONVERGENT_STRING_COLLECTIONS.flatMap fun collection =>
    if (legacy.strings collection).isSome then
      diffStrings collection (stringSet baseline collection) (stringSet legacy collection)
    else []

def diffKnownSettings (baseline legacy : SyncedPayload) : Checked (List ConvergentMutation) :=
  if legacy.settings.isSome then diffSettings baseline.settings legacy.settings else .ok []

def diffLegacySyncPayload (baseline legacy : SyncedPayload) : Checked (List ConvergentMutation) := do
  let settings ← diffKnownSettings baseline legacy
  return diffCollections baseline.toSyncPayload legacy.toSyncPayload ++ settings

def applyLegacySyncPayload (baseline legacy : SyncedPayload)
    (syntheticDeviceId : JsString) (now : ℚ) : Checked ConvergentSyncState := do
  let mutations ← diffLegacySyncPayload baseline legacy
  applyConvergentMutations state syntheticDeviceId mutations (.finite now)

/-! ## The strategy that keeps all -/

/-- The merge of one more source, with deletions preserved; `clock` is the time of the merge. -/
def retain (tools : MergeTools) (clock : ℚ) (retained source : SyncPayload) : SyncPayload :=
  (mergeSyncPayloads tools clock none retained source ⟨true⟩).payload

/-- The settings of the sources are merged too, and replaced by those of the replica. -/
def preserveSurvivingState (tools : MergeTools) (clock : ℚ) (state : ConvergentSyncState)
    (sources : List SyncPayload) (deviceId : JsString) (now : ℚ) : Checked ConvergentSyncState := do
  let baseline ← materializeSyncPayloadFromConvergentState state now
  let retained := sources.foldl (retain tools clock) baseline.toSyncPayload
  applyLegacySyncPayload state baseline { toSyncPayload := retained, settings := baseline.settings }
    deviceId now

end Legacy

end Netcatty.SyncMerge
