import Netcatty.JsonText
import Netcatty.OrderedMap

/-!
The plugin records that devices exchange.

A record is known by its plugin, its kind and its key.  A merge goes over the records of the base and
both sides; settings are merged three-way, so that a device can take one back, while the baselines of
accounts and replicas are kept wherever they are.
-/

namespace Netcatty.PluginSync

def nul : Fin 65536 := JsonText.unit 0

/-- The ids of plugins have no `\0`. -/
structure PluginSyncSidecarEntry where
  pluginId : JsString
  kind : JsString
  key : JsString
  value : Option JsonValue
  updatedAt : ℚ
  validId : nul ∉ pluginId

def settingsKind : JsString := text "settings"

def SIDECAR_KINDS : List JsString := [settingsKind, text "account_baseline", text "crdt_baseline"]

inductive MergeStrategy where
  | smart
  | preferCloud
  | preferLocal
  deriving DecidableEq

def keyOf (entry : PluginSyncSidecarEntry) : JsString :=
  entry.pluginId ++ nul :: (entry.kind ++ nul :: entry.key)

def toMap (entries : List PluginSyncSidecarEntry) : OrderedMap JsString PluginSyncSidecarEntry :=
  (entries.filter fun entry => entry.kind ∈ SIDECAR_KINDS).foldl (fun map entry => map.set (keyOf entry) entry)
    OrderedMap.empty

/-- `a >= b` of two texts; a comparison with `undefined` fails. -/
def textAtLeast : Option JsString → Option JsString → Bool
  | some a, some b => b ≤ a
  | _, _ => false

section Merge

variable (numberText : ℚ → JsString)

/-- `JSON.stringify(entry.value)`. -/
def PluginSyncSidecarEntry.valueText (entry : PluginSyncSidecarEntry) : Option JsString :=
  entry.value.map (stringify numberText)

def mergeBaseline (strategy : MergeStrategy) (local_ remote : Option PluginSyncSidecarEntry) :
    Option PluginSyncSidecarEntry :=
  match local_, remote with
  | some l, some r =>
    match strategy with
    | .preferCloud => some r
    | .preferLocal => some l
    | .smart => if r.updatedAt ≤ l.updatedAt then some l else some r
  | some l, none => some l
  | none, remote => remote

def mergeSetting (strategy : MergeStrategy) (base local_ remote : Option PluginSyncSidecarEntry) :
    Option PluginSyncSidecarEntry :=
  match base, local_, remote with
  | some b, none, some r =>
    if strategy = .preferLocal then none
    else if strategy = .preferCloud ∨ b.updatedAt < r.updatedAt then some r else none
  | some b, some l, none =>
    if strategy = .preferCloud then none
    else if strategy = .preferLocal ∨ b.updatedAt < l.updatedAt then some l else none
  | none, some l, none => some l
  | none, none, some r => some r
  | _, some l, some r =>
    match strategy with
    | .preferCloud => some r
    | .preferLocal => some l
    | .smart =>
      if l.updatedAt ≠ r.updatedAt then if r.updatedAt < l.updatedAt then some l else some r
      else if textAtLeast (l.valueText numberText) (r.valueText numberText) then some l else some r
  | _, none, none => none

/-- One turn of the loop over all keys. -/
def mergeSidecar (strategy : MergeStrategy) (base local_ remote : Option PluginSyncSidecarEntry) :
    Option PluginSyncSidecarEntry :=
  match local_ <|> remote <|> base with
  | none => none
  | some known =>
    if known.kind = settingsKind then mergeSetting numberText strategy base local_ remote
    else mergeBaseline strategy local_ remote

def compareEntries (a b : PluginSyncSidecarEntry) : Ordering :=
  if a.pluginId ≠ b.pluginId then if a.pluginId < b.pluginId then .lt else .gt
  else if a.kind ≠ b.kind then if a.kind < b.kind then .lt else .gt
  else if a.key < b.key then .lt else if b.key < a.key then .gt else .eq

def mergePluginSyncSidecarsThreeWay (strategy : MergeStrategy) (base local_ remote : List PluginSyncSidecarEntry) :
    List PluginSyncSidecarEntry :=
  let baseMap := toMap base
  let localMap := toMap local_
  let remoteMap := toMap remote
  let allKeys := (baseMap.keys ++ localMap.keys ++ remoteMap.keys).eraseDups
  let out := allKeys.filterMap fun key =>
    mergeSidecar numberText strategy (baseMap.get? key) (localMap.get? key) (remoteMap.get? key)
  out.mergeSort fun a b => compareEntries a b ≠ .gt

end Merge

end Netcatty.PluginSync
