import Netcatty.ConvergentMaterialize
import Netcatty.OrderedMap

/-!
The payload two devices exchange, and its records of deletions.

An entity is its id and its other fields.  Settings and plugin records are not modelled.
-/

namespace Netcatty.SyncMerge

inductive CloudSyncPayloadEntityKey where
  | hosts
  | keys
  | identities
  | proxyProfiles
  | snippets
  | customGroups
  | snippetPackages
  | notes
  | noteGroups
  | portForwardingRules
  | browserBookmarks
  | groupConfigs
  | monitorPanels
  | aiSessions
  deriving DecidableEq

def CloudSyncPayloadEntityKey.name : CloudSyncPayloadEntityKey → JsString
  | hosts => text "hosts"
  | keys => text "keys"
  | identities => text "identities"
  | proxyProfiles => text "proxyProfiles"
  | snippets => text "snippets"
  | customGroups => text "customGroups"
  | snippetPackages => text "snippetPackages"
  | notes => text "notes"
  | noteGroups => text "noteGroups"
  | portForwardingRules => text "portForwardingRules"
  | browserBookmarks => text "browserBookmarks"
  | groupConfigs => text "groupConfigs"
  | monitorPanels => text "monitorPanels"
  | aiSessions => text "aiSessions"

structure SyncEntity where
  id : JsString
  fields : JsonObject

/-- A group's configuration is known by the path of the group. -/
structure GroupConfig where
  path : JsString
  fields : JsonObject

structure SyncDeletionRecord where
  entityType : CloudSyncPayloadEntityKey
  id : JsString
  deletedAt : ℚ
  deviceId : Option JsString
  deriving DecidableEq

/-- The collections, and the deletions of `syncMeta`.  What a device does not know about, it
leaves out. -/
structure SyncPayload where
  hosts : List SyncEntity
  keys : List SyncEntity
  identities : Option (List SyncEntity)
  proxyProfiles : Option (List SyncEntity)
  snippets : List SyncEntity
  customGroups : List JsString
  snippetPackages : Option (List JsString)
  notes : Option (List SyncEntity)
  noteGroups : Option (List JsString)
  portForwardingRules : Option (List SyncEntity)
  browserBookmarks : Option (List SyncEntity)
  groupConfigs : Option (List GroupConfig)
  monitorPanels : Option (List SyncEntity)
  aiSessions : Option (List SyncEntity)
  syncedAt : ℚ
  deletions : List SyncDeletionRecord

def SyncPayload.entityIds (payload : SyncPayload) : CloudSyncPayloadEntityKey → List JsString
  | .hosts => payload.hosts.map SyncEntity.id
  | .keys => payload.keys.map SyncEntity.id
  | .identities => (payload.identities.getD []).map SyncEntity.id
  | .proxyProfiles => (payload.proxyProfiles.getD []).map SyncEntity.id
  | .snippets => payload.snippets.map SyncEntity.id
  | .customGroups => payload.customGroups
  | .snippetPackages => payload.snippetPackages.getD []
  | .notes => (payload.notes.getD []).map SyncEntity.id
  | .noteGroups => payload.noteGroups.getD []
  | .portForwardingRules => (payload.portForwardingRules.getD []).map SyncEntity.id
  | .browserBookmarks => (payload.browserBookmarks.getD []).map SyncEntity.id
  | .groupConfigs => (payload.groupConfigs.getD []).map GroupConfig.path
  | .monitorPanels => (payload.monitorPanels.getD []).map SyncEntity.id
  | .aiSessions => (payload.aiSessions.getD []).map SyncEntity.id

/-! ## Records of deletions -/

def getDeletedEntityIds (payload : SyncPayload) (entityType : CloudSyncPayloadEntityKey) :
    List JsString :=
  (payload.deletions.filter fun record => record.entityType = entityType).map SyncDeletionRecord.id

def addDeletionRecord (payload : SyncPayload)
    (byKey : OrderedMap (CloudSyncPayloadEntityKey × JsString) SyncDeletionRecord)
    (record : SyncDeletionRecord) :
    OrderedMap (CloudSyncPayloadEntityKey × JsString) SyncDeletionRecord :=
  if (payload.entityIds record.entityType).contains record.id then byKey
  else
    match byKey.get? (record.entityType, record.id) with
    | none => byKey.set (record.entityType, record.id) record
    | some previous =>
      if previous.deletedAt ≤ record.deletedAt then byKey.set (record.entityType, record.id) record
      else byKey

def mergeDeletionRecords (localeCompare : JsString → JsString → Ordering) (payload : SyncPayload)
    (newDeletions : List SyncDeletionRecord) : List SyncDeletionRecord :=
  let byKey := (payload.deletions ++ newDeletions).foldl (addDeletionRecord payload) OrderedMap.empty
  byKey.values.mergeSort fun a b =>
    (localeCompare a.entityType.name b.entityType.name).then (localeCompare a.id b.id) ≠ .gt

def carryForwardSyncDeletions (localeCompare : JsString → JsString → Ordering) (payload : SyncPayload)
    (sources : List SyncPayload) : SyncPayload :=
  let sourceDeletions := sources.flatMap SyncPayload.deletions
  let deletions := mergeDeletionRecords localeCompare { payload with deletions := sourceDeletions } []
  if deletions.isEmpty then payload else { payload with deletions := deletions }

end Netcatty.SyncMerge
