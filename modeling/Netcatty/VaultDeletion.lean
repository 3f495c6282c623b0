import Netcatty.VaultHosts

/-!
Hosts that are deleted from a vault, and the jump chains that name them.

A host without a chain of its own connects through that of its nearest group which has one.
Deleting hosts takes them out of every chain, of hosts and of groups, and keeps a chain that becomes
empty, so that no host falls back on the chain of a group above.  What every other host resolves to
is what it resolved to, less the deleted hops (`resolveEffectiveHost_pruned`).
-/

namespace Netcatty.VaultJumps

open List VaultImport

/-! ## Groups -/

structure GroupConfig where
  path : JsString
  protocol : Option JsString
  hostChain : Option (List JsString)

/-- The paths that `resolveGroupDefaults` walks, from the top down to the group. -/
def ancestorPaths (groupPath : JsString) : List JsString :=
  let parts := (groupPath.splitOn slash).filter (!·.isEmpty)
  (range parts.length).map fun i => [slash].intercalate (parts.take (i + 1))

/-- What a config leaves of the defaults of the groups above, as far as chains depend on it. -/
def mergeDefaults (merged : Option JsString × Option (List JsString)) (config : GroupConfig) :
    Option JsString × Option (List JsString) :=
  (config.protocol <|> merged.1, config.hostChain <|> merged.2)

def resolveGroupDefaults (groupPath : JsString) (groupConfigs : List GroupConfig) :
    Option JsString × Option (List JsString) :=
  let configMap := OrderedMap.ofList (groupConfigs.map fun config => (config.path, config))
  ((ancestorPaths groupPath).filterMap configMap.get?).foldl mergeDefaults (none, none)

/-- A local shell takes no chain from its groups. -/
def applyGroupDefaults (host : Host) (groupDefaults : Option JsString × Option (List JsString)) : Host :=
  { host with
    protocol := if truthy host.protocol then host.protocol else groupDefaults.1 <|> host.protocol
    hostChain := if host.protocol = some (text "local") then host.hostChain else host.hostChain <|> groupDefaults.2 }

def resolveEffectiveHost (configs : List GroupConfig) (host : Host) : Host :=
  match host.group with
  | none => host
  | some group => if group = [] then host else applyGroupDefaults host (resolveGroupDefaults group configs)

/-! ## The jump graph -/

inductive IssueKind where
  | self
  | missing
  | protocol
  deriving DecidableEq

structure VaultJumpGraphIssue where
  key : JsString
  targetId : JsString
  jumpHostId : JsString
  kind : IssueKind
  error : JsString

/-- What is wrong with one hop of a chain. -/
def hopIssue (effectiveHosts : OrderedMap JsString Host) (targetId jumpHostId : JsString) :
    Option VaultJumpGraphIssue :=
  let issue (kind : IssueKind) (name : String) (error : JsString) : VaultJumpGraphIssue :=
    ⟨targetId ++ text ":" ++ jumpHostId ++ text ":" ++ text name, targetId, jumpHostId, kind, error⟩
  if jumpHostId = targetId then
    some (issue .self "self" (text "Host \"" ++ targetId ++ text "\" cannot use itself as an inherited jump host."))
  else
    match effectiveHosts.get? jumpHostId with
    | none => some (issue .missing "missing" (text "Jump host \"" ++ jumpHostId ++ text "\" was not found."))
    | some jumpHost =>
      if jumpHost.protocol.any (· ≠ text "ssh") then
        some (issue .protocol "protocol"
          (text "Jump host \"" ++ jumpHostId ++ text "\" does not support SSH jump connections."))
      else none

def effectiveHosts (hosts : List Host) (resolve : Host → Host) : OrderedMap JsString Host :=
  OrderedMap.ofList (hosts.map fun host => (host.id, resolve host))

def collectVaultJumpGraphIssues (hosts : List Host) (resolve : Host → Host) :
    OrderedMap JsString VaultJumpGraphIssue :=
  let effective := effectiveHosts hosts resolve
  OrderedMap.ofList (effective.entries.flatMap fun entry =>
    (entry.2.hops.filterMap (hopIssue effective entry.1)).map fun issue => (issue.key, issue))

def findIntroducedVaultJumpGraphIssue (beforeHosts afterHosts : List Host) (resolveBefore resolveAfter : Host → Host) :
    Option VaultJumpGraphIssue :=
  let previousIssues := collectVaultJumpGraphIssues beforeHosts resolveBefore
  (collectVaultJumpGraphIssues afterHosts resolveAfter).values.find? fun issue => !previousIssues.has issue.key

/-! ## Deleting hosts -/

/-- `buildWithoutRemovedRefs` on the chain of one item. -/
def withoutRemovedRefs (removed : List JsString) (hostChain : Option (List JsString)) : Option (List JsString) :=
  hostChain.map fun hostIds => hostIds.filter (· ∉ removed)

def pruneHost (removed : List JsString) (host : Host) : Host :=
  { host with hostChain := withoutRemovedRefs removed host.hostChain }

def pruneConfig (removed : List JsString) (config : GroupConfig) : GroupConfig :=
  { config with hostChain := withoutRemovedRefs removed config.hostChain }

structure PrunedReferences where
  hosts : List Host
  groupConfigs : List GroupConfig
  changed : Bool

def pruneVaultJumpHostReferences (hosts : List Host) (groupConfigs : List GroupConfig) (removed : List JsString) :
    PrunedReferences where
  hosts := hosts.map (pruneHost removed)
  groupConfigs := groupConfigs.map (pruneConfig removed)
  changed := hosts.any (fun host => withoutRemovedRefs removed host.hostChain ≠ host.hostChain) ||
    groupConfigs.any fun config => withoutRemovedRefs removed config.hostChain ≠ config.hostChain

/-- What `useVaultHostDeletion` commits. -/
def deleteHosts (removedHostIds : List JsString) (hosts : List Host) (configs : List GroupConfig) : PrunedReferences :=
  pruneVaultJumpHostReferences (hosts.filter (·.id ∉ removedHostIds)) configs removedHostIds

section Deletion

variable (removed : List JsString) (hosts : List Host) (configs : List GroupConfig)

theorem withoutRemovedRefs_orElse (own inherited : Option (List JsString)) :
    withoutRemovedRefs removed (own <|> inherited) =
      (withoutRemovedRefs removed own <|> withoutRemovedRefs removed inherited) := by
  cases own <;> rfl

theorem resolveGroupDefaults_pruned (groupPath : JsString) :
    resolveGroupDefaults groupPath (configs.map (pruneConfig removed)) =
      ((resolveGroupDefaults groupPath configs).1,
        withoutRemovedRefs removed (resolveGroupDefaults groupPath configs).2) := by
  have found (path : JsString) :
      (OrderedMap.ofList ((configs.map (pruneConfig removed)).map fun config => (config.path, config))).get? path =
        ((OrderedMap.ofList (configs.map fun config => (config.path, config))).get? path).map
          (pruneConfig removed) := by
    rw [OrderedMap.get?_ofList_reverse, OrderedMap.get?_ofList_reverse, ← map_reverse, ← map_reverse, ← map_reverse]
    induction configs.reverse with
    | nil => rfl
    | cons config rest ih =>
      simp only [map_cons, OrderedMap.lookup_entry, ih, pruneConfig]
      split <;> rfl
  have merged (walked : List GroupConfig) (defaults : Option JsString × Option (List JsString)) :
      (walked.map (pruneConfig removed)).foldl mergeDefaults (defaults.1, withoutRemovedRefs removed defaults.2) =
        ((walked.foldl mergeDefaults defaults).1,
          withoutRemovedRefs removed (walked.foldl mergeDefaults defaults).2) := by
    induction walked generalizing defaults with
    | nil => rfl
    | cons config walked ih =>
      rw [map_cons, foldl_cons, foldl_cons, ← ih, mergeDefaults, mergeDefaults, withoutRemovedRefs_orElse]
      rfl
  unfold resolveGroupDefaults
  dsimp only
  rw [← merged, map_filterMap]
  exact congrArg (fun walked => foldl mergeDefaults (none, none) walked) (filterMap_congr fun path _ => found path)

/-- **A host resolves to what it resolved to, less the deleted hops.** -/
theorem resolveEffectiveHost_pruned (host : Host) :
    resolveEffectiveHost (configs.map (pruneConfig removed)) (pruneHost removed host) =
      pruneHost removed (resolveEffectiveHost configs host) := by
  unfold resolveEffectiveHost
  rw [show (pruneHost removed host).group = host.group from rfl]
  cases host.group with
  | none => rfl
  | some group =>
    dsimp only
    split
    · rfl
    · rw [resolveGroupDefaults_pruned]
      have chains := withoutRemovedRefs_orElse removed host.hostChain (resolveGroupDefaults group configs).2
      unfold applyGroupDefaults pruneHost
      dsimp only
      rw [← chains, ← apply_ite]

theorem get?_effectiveHosts_deleted (hostId : JsString) :
    (effectiveHosts (deleteHosts removed hosts configs).hosts
        (resolveEffectiveHost (deleteHosts removed hosts configs).groupConfigs)).get? hostId =
      if hostId ∈ removed then none
      else ((effectiveHosts hosts (resolveEffectiveHost configs)).get? hostId).map (pruneHost removed) := by
  unfold effectiveHosts deleteHosts pruneVaultJumpHostReferences
  rw [OrderedMap.get?_ofList_reverse, OrderedMap.get?_ofList_reverse, map_map, ← map_reverse, ← map_reverse,
    ← filter_reverse]
  induction hosts.reverse with
  | nil => simp
  | cons host rest ih =>
    rw [map_cons, OrderedMap.lookup_entry, filter_cons]
    by_cases gone : host.id ∈ removed
    · rw [if_neg (by simpa using gone), ih]
      by_cases same : hostId = host.id
      · rw [if_pos (same ▸ gone), if_pos (same ▸ gone)]
      · rw [if_neg same]
    · rw [if_pos (by simpa using gone), map_cons, Function.comp_apply, OrderedMap.lookup_entry, ih,
        resolveEffectiveHost_pruned]
      by_cases same : hostId = host.id
      · subst same
        rw [if_pos (show host.id = (pruneHost removed host).id from rfl), if_pos rfl, if_neg gone]
        rfl
      · rw [if_neg (show hostId ≠ (pruneHost removed host).id from same), if_neg same]

/-- A hop that is not deleted has the issue it had. -/
theorem hopIssue_deleted {targetId jumpHostId : JsString} (kept : jumpHostId ∉ removed) :
    hopIssue (effectiveHosts (deleteHosts removed hosts configs).hosts
        (resolveEffectiveHost (deleteHosts removed hosts configs).groupConfigs)) targetId jumpHostId =
      hopIssue (effectiveHosts hosts (resolveEffectiveHost configs)) targetId jumpHostId := by
  unfold hopIssue
  rw [get?_effectiveHosts_deleted, if_neg kept]
  cases (effectiveHosts hosts (resolveEffectiveHost configs)).get? jumpHostId <;> rfl

theorem mem_hops_pruneHost {hop : JsString} {host : Host} :
    hop ∈ (pruneHost removed host).hops ↔ hop ∈ host.hops ∧ hop ∉ removed := by
  unfold pruneHost Host.hops
  cases host.hostChain <;> simp [withoutRemovedRefs]

/-- **Deleting hosts breaks no jump chain**: no hop of any chain that a host is left with, of its own or of its
groups, names a deleted host, and nothing is wrong with the chains that was not wrong before. -/
theorem deletion_introduces_no_issue :
    (∀ host ∈ (deleteHosts removed hosts configs).hosts,
      ∀ hop ∈ (resolveEffectiveHost (deleteHosts removed hosts configs).groupConfigs host).hops, hop ∉ removed) ∧
    findIntroducedVaultJumpGraphIssue hosts (deleteHosts removed hosts configs).hosts (resolveEffectiveHost configs)
      (resolveEffectiveHost (deleteHosts removed hosts configs).groupConfigs) = none := by
  constructor
  · intro host mem hop inside
    obtain ⟨before, -, rfl⟩ := mem_map.mp mem
    rw [show (deleteHosts removed hosts configs).groupConfigs = configs.map (pruneConfig removed) from rfl,
      resolveEffectiveHost_pruned] at inside
    exact ((mem_hops_pruneHost removed).mp inside).2
  · refine find?_eq_none.mpr fun issue mem => ?_
    obtain ⟨⟨key, issue⟩, stored, rfl⟩ := mem_map.mp mem
    obtain ⟨⟨targetId, target⟩, held, listed⟩ :=
      mem_flatMap.mp (OrderedMap.mem_of_get?_ofList (OrderedMap.mem_entries.mp stored))
    obtain ⟨_, found, same⟩ := mem_map.mp listed
    cases same
    obtain ⟨hop, inside, broken⟩ := mem_filterMap.mp found
    rw [OrderedMap.mem_entries, get?_effectiveHosts_deleted] at held
    split at held
    · cases held
    obtain ⟨before, stood, rfl⟩ := Option.map_eq_some_iff.mp held
    obtain ⟨inside, kept⟩ := (mem_hops_pruneHost removed).mp inside
    rw [hopIssue_deleted removed hosts configs kept] at broken
    have has : (collectVaultJumpGraphIssues hosts (resolveEffectiveHost configs)).has issue.key :=
      OrderedMap.has_ofList (mem_flatMap.mpr ⟨(targetId, before), OrderedMap.mem_entries.mpr stood,
        mem_map.mpr ⟨issue, mem_filterMap.mpr ⟨hop, inside, broken⟩, rfl⟩⟩)
    rw [has]
    decide

end Deletion

end Netcatty.VaultJumps
