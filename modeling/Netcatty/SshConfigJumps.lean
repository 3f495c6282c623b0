import Netcatty.CsvJumpChains
import Netcatty.ImportDestinations
import Netcatty.SshConfigBlocks

/-!
Jump routes of an ssh_config import.

ProxyJump values are stored by address, and a host takes the value of its address.  Its hops are
looked up by label, then by host name, and what is not found becomes a host.  Then chains are cut
one host after the other until no circle is left.  So a host whose address no other block routes
differently jumps the way its own block says, unless its route leads into a circle
(`own_routes`).
-/

namespace Netcatty.VaultImport

open List Option

/-- What hops are looked up in, the hosts that were added for them, and the issues. -/
structure JumpLookup where
  hostnameToId : OrderedMap JsString JsString
  labelToId : OrderedMap JsString JsString
  inlineHosts : List Host
  issued : ℕ
  issues : List VaultImportIssue

def JumpLookup.warn (state : JumpLookup) (message : JsString) : JumpLookup :=
  { state with issues := state.issues ++ [⟨.warning, message⟩] }

/-- The loop over the hops of a host. -/
structure JumpChain where
  state : JumpLookup
  resolvedIds : List JsString
  unresolvedJumps : List JsString

def JumpChain.add (chain : JumpChain) (id : JsString) : JumpChain :=
  { chain with resolvedIds := if id ∈ chain.resolvedIds then chain.resolvedIds else chain.resolvedIds ++ [id] }

@[simp] theorem JumpChain.state_add (chain : JumpChain) (id : JsString) : (chain.add id).state = chain.state := rfl

def cutChains : List Host → List Host → List Host × List VaultImportIssue
  | done, [] => (done, [])
  | done, host :: rest =>
    let allHosts := done ++ host :: rest
    let chainOf (hostId : JsString) : List JsString := ((allHosts.find? (·.id = hostId)).map Host.hops).getD []
    if !host.hops.isEmpty && CycleSearch.meetsItself chainOf (allHosts.length + 1) [] host.id then
      let cut := cutChains (done ++ [{ host with hostChain := none }]) rest
      (cut.1, ⟨.warning, text "ssh_config: detected circular dependency in jump chain for \"" ++ host.label ++
        text "\", removing chain."⟩ :: cut.2)
    else cutChains (done ++ [host]) rest

section Jumps

variable (tools : ImportTools)

def parseProxyJump (value : JsString) : List ParsedJumpHost :=
  if value.isEmpty || tools.toLowerCase value = text "none" then []
  else (((value.splitOn comma).map trim).filter (!·.isEmpty)).filterMap (parseJumpHostSpec tools)

/-- One turn of the loop over the hops of a host. -/
def resolveJump (chain : JumpChain) (jumpHost : ParsedJumpHost) : Checked JumpChain :=
  let key := tools.toLowerCase jumpHost.hostname
  match (chain.state.labelToId.get? key).or (chain.state.hostnameToId.get? key) with
  | some existingId => return chain.add existingId
  | none =>
    match chain.state.hostnameToId.get? key with
    | some inlineId => return chain.add inlineId
    | none => do
      let inlineHost ← buildVaultHostFromDraft tools (tools.randomUUID chain.state.issued) (inlineDraft jumpHost)
      let state := { chain.state with
        inlineHosts := chain.state.inlineHosts ++ [inlineHost]
        hostnameToId := chain.state.hostnameToId.set (tools.toLowerCase inlineHost.hostname) inlineHost.id
        labelToId := chain.state.labelToId.set (tools.toLowerCase inlineHost.label) inlineHost.id
        issued := chain.state.issued + 1 }
      return ({ chain with
        state := state
        unresolvedJumps := chain.unresolvedJumps ++ [jumpHost.hostname] } : JumpChain).add inlineHost.id

/-- The hops that the address of a host leads to. -/
def jumpsOf (hostProxyJumpMap : OrderedMap JsString JsString) (host : Host) : List ParsedJumpHost :=
  ((hostProxyJumpMap.get? (makeHostKey tools.toLowerCase host.hostname host.port)).map (parseProxyJump tools)).getD []

/-- One turn of the loop over the hosts. -/
def attachJumps (hostProxyJumpMap : OrderedMap JsString JsString) (state : JumpLookup) (host : Host) :
    Checked (Host × JumpLookup) :=
  let jumpHosts := jumpsOf tools hostProxyJumpMap host
  if jumpHosts.isEmpty then return (host, state)
  else do
    let chain ← jumpHosts.foldlM (resolveJump tools) ⟨state, [], []⟩
    if host.id ∈ chain.resolvedIds then
      return (host, chain.state.warn (text "ssh_config: detected circular reference in ProxyJump for \"" ++ host.label ++
        text "\", skipping chain."))
    else
      return (if chain.resolvedIds.isEmpty then host else { host with hostChain := some chain.resolvedIds },
        if chain.unresolvedJumps.isEmpty then chain.state
        else chain.state.warn (text "ssh_config: created inline jump host(s) for \"" ++ host.label ++ text "\": " ++
          (text ", ").intercalate chain.unresolvedJumps))

def attachAllJumps (hostProxyJumpMap : OrderedMap JsString JsString) :
    List Host → JumpLookup → Checked (List Host × JumpLookup)
  | [], state => return ([], state)
  | host :: hosts, state => do
    let step ← attachJumps tools hostProxyJumpMap state host
    let rest ← attachAllJumps hostProxyJumpMap hosts step.2
    return (step.1 :: rest.1, rest.2)

/-- The lookup before any hop is resolved. -/
def JumpLookup.start (dedupedHosts : List Host) (issued : ℕ) (issues : List VaultImportIssue) : JumpLookup where
  hostnameToId := dedupedHosts.foldl (fun ids host => ids.set (tools.toLowerCase host.hostname) host.id) .empty
  labelToId := dedupedHosts.foldl (fun ids host => ids.set (tools.toLowerCase host.label) host.id) .empty
  inlineHosts := []
  issued := issued
  issues := issues

def importFromSshConfig (start : ℕ) (source : JsString) : Checked (VaultImportResult × List VaultImportIssue) := do
  let read ← readBlocks tools (configBlocks tools.toLowerCase source) start
  let deduped := dedupeHosts (buildVaultHostMergeKey tools.toLowerCase tools.numberText) (fun _ => true) read.parsedHosts
  let attached ← attachAllJumps tools read.hostProxyJumpMap deduped.1 (.start tools deduped.1 read.issued read.issues)
  let cut := cutChains [] (attached.1 ++ attached.2.inlineHosts)
  return ({
    hosts := cut.1
    groups := []
    stats := ⟨read.parsed, cut.1.length, read.skipped, deduped.2⟩
    keyPassphrases := none
    keyPassphraseCandidates := none }, attached.2.issues ++ cut.2)

end Jumps

/-! ## What hops resolve to -/

/-- A hop leads to the host of that label, else to one of that host name, else to a host that was
made of it.  Labels and host names of the text's own hosts come first. -/
def NamesHost (tools : ImportTools) (ownIds : List JsString) (hosts : List Host) (jumpHost : ParsedJumpHost)
    (id : JsString) : Prop :=
  ∃ host ∈ hosts, host.id = id ∧
    (tools.toLowerCase host.label = tools.toLowerCase jumpHost.hostname ∨
      (∀ other ∈ hosts, other.id ∈ ownIds → tools.toLowerCase other.label ≠ tools.toLowerCase jumpHost.hostname) ∧
        (tools.toLowerCase host.hostname = tools.toLowerCase jumpHost.hostname ∨
          (∀ other ∈ hosts, other.id ∈ ownIds →
            tools.toLowerCase other.hostname ≠ tools.toLowerCase jumpHost.hostname) ∧
          ∃ made, buildVaultHostFromDraft tools id (inlineDraft jumpHost) = .ok made ∧ host.label = made.label ∧
            host.hostname = made.hostname ∧ host.port = made.port ∧ host.username = made.username))

/-- The ids are those of the hosts the hops lead to, each once. -/
def Resolves (tools : ImportTools) (ownIds : List JsString) (hosts : List Host) (jumpHosts : List ParsedJumpHost)
    (ids : List JsString) : Prop :=
  ∃ targets, List.Forall₂ (NamesHost tools ownIds hosts) jumpHosts targets ∧ ids = targets.eraseDups

section Routes

variable (tools : ImportTools)

/-- The hosts that have hops, each with the ids these resolve to. -/
def routes (hostProxyJumpMap : OrderedMap JsString JsString) : List Host → JumpLookup → List (JsString × List JsString)
  | [], _ => []
  | host :: hosts, state =>
    let jumpHosts := jumpsOf tools hostProxyJumpMap host
    match jumpHosts.foldlM (resolveJump tools) ⟨state, [], []⟩, attachJumps tools hostProxyJumpMap state host with
    | .ok chain, .ok step =>
      (if jumpHosts.isEmpty then [] else [(host.id, chain.resolvedIds)]) ++ routes hostProxyJumpMap hosts step.2
    | _, _ => []

def configRoutes (start : ℕ) (source : JsString) : List (JsString × List JsString) :=
  match readBlocks tools (configBlocks tools.toLowerCase source) start with
  | .error _ => []
  | .ok read =>
    let deduped := dedupeHosts (buildVaultHostMergeKey tools.toLowerCase tools.numberText) (fun _ => true) read.parsedHosts
    routes tools read.hostProxyJumpMap deduped.1 (.start tools deduped.1 read.issued read.issues)

end Routes

section Lookup

variable {tools : ImportTools} {ownIds : List JsString} {kept : List Host} {issued : ℕ}

structure JumpLookup.Fits (tools : ImportTools) (kept : List Host) (issued : ℕ) (state : JumpLookup) : Prop where
  later : issued ≤ state.issued
  made : ∀ host ∈ state.inlineHosts, ∃ n, issued ≤ n ∧ n < state.issued ∧ host.id = tools.randomUUID n
  distinct : (state.inlineHosts.map Host.id).Nodup
  unchained : ∀ host ∈ state.inlineHosts, host.hostChain = none
  labels : ∀ key id, state.labelToId.get? key = some id →
    ∃ host ∈ kept ++ state.inlineHosts, host.id = id ∧ tools.toLowerCase host.label = key
  hostnames : ∀ key id, state.hostnameToId.get? key = some id →
    ∃ host ∈ kept ++ state.inlineHosts, host.id = id ∧ tools.toLowerCase host.hostname = key
  allLabels : ∀ host ∈ kept, state.labelToId.has (tools.toLowerCase host.label) = true
  allHostnames : ∀ host ∈ kept, state.hostnameToId.has (tools.toLowerCase host.hostname) = true

theorem JumpLookup.Fits.warn {tools : ImportTools} {kept : List Host} {issued : ℕ} {state : JumpLookup}
    (fits : state.Fits tools kept issued) (message : JsString) : (state.warn message).Fits tools kept issued :=
  ⟨fits.later, fits.made, fits.distinct, fits.unchained, fits.labels, fits.hostnames, fits.allLabels, fits.allHostnames⟩

/-- The ids of the text's own hosts, which no later host gets. -/
structure OwnIds (tools : ImportTools) (ownIds : List JsString) (kept : List Host) (issued : ℕ) : Prop where
  own : ∀ host ∈ kept, host.id ∈ ownIds
  fresh : ∀ n, issued ≤ n → tools.randomUUID n ∉ ownIds

theorem own_mem {state : JumpLookup} (own : OwnIds tools ownIds kept issued) (fits : state.Fits tools kept issued)
    {host : Host} (mem : host ∈ kept ++ state.inlineHosts) (known : host.id ∈ ownIds) : host ∈ kept := by
  rcases mem_append.mp mem with mem | mem
  · exact mem
  · obtain ⟨n, late, -, made⟩ := fits.made host mem
    exact absurd (made ▸ known) (own.fresh n late)

theorem get?_foldl_ids (name : Host → JsString) (hosts : List Host) (ids : OrderedMap JsString JsString) :
    (∀ key id, (hosts.foldl (fun ids host => ids.set (name host) host.id) ids).get? key = some id →
      ids.get? key = some id ∨ ∃ host ∈ hosts, host.id = id ∧ name host = key) ∧
    ∀ key, (ids.has key ∨ ∃ host ∈ hosts, name host = key) →
      (hosts.foldl (fun ids host => ids.set (name host) host.id) ids).has key := by
  induction hosts generalizing ids with
  | nil =>
    refine ⟨fun _ _ found => .inl found, ?_⟩
    rintro key (held | ⟨_, mem, _⟩)
    · exact held
    · cases mem
  | cons host hosts ih =>
    obtain ⟨sound, complete⟩ := ih (ids.set (name host) host.id)
    refine ⟨fun key id found => ?_, fun key held => complete key ?_⟩
    · rcases sound key id found with found | ⟨other, mem, same⟩
      · rw [OrderedMap.get?_set] at found
        split at found
        · cases found
          exact .inr ⟨host, mem_cons_self, rfl, Eq.symm ‹_›⟩
        · exact .inl found
      · exact .inr ⟨other, mem_cons_of_mem _ mem, same⟩
    · rw [OrderedMap.has, OrderedMap.get?_set]
      by_cases own : key = name host
      · exact .inl (by rw [if_pos own]; rfl)
      · rw [if_neg own]
        rcases held with held | ⟨other, mem, same⟩
        · exact .inl held
        rcases mem_cons.mp mem with rfl | mem
        · exact absurd same.symm own
        · exact .inr ⟨other, mem, same⟩

theorem fits_start (kept : List Host) (issued : ℕ) (issues : List VaultImportIssue) :
    (JumpLookup.start tools kept issued issues).Fits tools kept issued := by
  have labels := get?_foldl_ids (fun host => tools.toLowerCase host.label) kept .empty
  have hostnames := get?_foldl_ids (fun host => tools.toLowerCase host.hostname) kept .empty
  refine ⟨Nat.le_refl _, fun _ mem => (not_mem_nil mem).elim, nodup_nil,
    fun _ mem => (not_mem_nil mem).elim, fun key id found => ?_, fun key id found => ?_,
    fun host mem => labels.2 _ (.inr ⟨host, mem, rfl⟩), fun host mem => hostnames.2 _ (.inr ⟨host, mem, rfl⟩)⟩
  · rcases labels.1 key id found with found | ⟨host, mem, same⟩
    · cases found
    · exact ⟨host, mem_append_left _ mem, same⟩
  · rcases hostnames.1 key id found with found | ⟨host, mem, same⟩
    · cases found
    · exact ⟨host, mem_append_left _ mem, same⟩

/-- Hosts that are added later take no hop away from the others. -/
theorem NamesHost.mono {hosts more : List Host} (foreign : ∀ host ∈ more, host.id ∉ ownIds) {jumpHost : ParsedJumpHost}
    {id : JsString} (names : NamesHost tools ownIds hosts jumpHost id) :
    NamesHost tools ownIds (hosts ++ more) jumpHost id := by
  have known {other : Host} (mem : other ∈ hosts ++ more) (own : other.id ∈ ownIds) : other ∈ hosts :=
    (mem_append.mp mem).resolve_right fun mem => foreign other mem own
  obtain ⟨host, mem, same, found⟩ := names
  refine ⟨host, mem_append_left _ mem, same, found.imp_right fun ⟨none_, found⟩ => ⟨fun other mem own =>
    none_ other (known mem own) own, found.imp_right fun ⟨none_, found⟩ => ⟨fun other mem own =>
      none_ other (known mem own) own, found⟩⟩⟩

theorem fits_resolveJump (own : OwnIds tools ownIds kept issued) {chain after : JumpChain} {jumpHost : ParsedJumpHost}
    (fits : chain.state.Fits tools kept issued) (ran : resolveJump tools chain jumpHost = .ok after) :
    after.state.Fits tools kept issued ∧ chain.state.inlineHosts <+: after.state.inlineHosts ∧
      ∃ id, NamesHost tools ownIds (kept ++ after.state.inlineHosts) jumpHost id ∧
        after.resolvedIds = if id ∈ chain.resolvedIds then chain.resolvedIds else chain.resolvedIds ++ [id] := by
  unfold resolveJump at ran
  dsimp only at ran
  cases label : chain.state.labelToId.get? (tools.toLowerCase jumpHost.hostname) with
  | some existingId =>
    rw [label, some_or] at ran
    cases ran
    obtain ⟨host, mem, same, key⟩ := fits.labels _ _ label
    exact ⟨fits, prefix_rfl, existingId, ⟨host, mem, same, .inl key⟩, rfl⟩
  | none =>
    have no_label (other : Host) (mem : other ∈ kept) :
        tools.toLowerCase other.label ≠ tools.toLowerCase jumpHost.hostname := by
      intro same
      have held := fits.allLabels other mem
      rw [same, OrderedMap.has, label] at held
      cases held
    rw [label, none_or] at ran
    cases hostname : chain.state.hostnameToId.get? (tools.toLowerCase jumpHost.hostname) with
    | some existingId =>
      rw [hostname] at ran
      cases ran
      obtain ⟨host, mem, same, key⟩ := fits.hostnames _ _ hostname
      exact ⟨fits, prefix_rfl, existingId, ⟨host, mem, same, .inr ⟨fun other mem known =>
        no_label other (own_mem own fits mem known), .inl key⟩⟩, rfl⟩
    | none =>
      have no_hostname (other : Host) (mem : other ∈ kept) :
          tools.toLowerCase other.hostname ≠ tools.toLowerCase jumpHost.hostname := by
        intro same
        have held := fits.allHostnames other mem
        rw [same, OrderedMap.has, hostname] at held
        cases held
      rw [hostname] at ran
      dsimp only at ran
      rw [bind_eq_ok] at ran
      obtain ⟨inlineHost, built, ran⟩ := ran
      cases ran
      obtain ⟨made, unchained⟩ := id_of_draft built
      have whole : kept ++ (chain.state.inlineHosts ++ [inlineHost]) = kept ++ chain.state.inlineHosts ++ [inlineHost] :=
        (append_assoc _ _ _).symm
      have last : inlineHost ∈ kept ++ (chain.state.inlineHosts ++ [inlineHost]) :=
        whole ▸ mem_append_right _ (mem_singleton_self _)
      have foreign : inlineHost.id ∉ ownIds := made ▸ own.fresh _ fits.later
      have known {other : Host} (mem : other ∈ kept ++ (chain.state.inlineHosts ++ [inlineHost]))
          (held : other.id ∈ ownIds) : other ∈ kept := by
        rw [whole] at mem
        rcases mem_append.mp mem with mem | mem
        · exact own_mem own fits mem held
        · rw [mem_singleton.mp mem] at held
          exact absurd held foreign
      refine ⟨⟨Nat.le_succ_of_le fits.later, ?_, ?_, ?_, fun key id found => ?_, fun key id found => ?_, fun host mem => ?_,
        fun host mem => ?_⟩, prefix_append _ _, inlineHost.id, ⟨inlineHost, last, rfl, .inr ⟨fun other mem held =>
          no_label other (known mem held), .inr ⟨fun other mem held => no_hostname other (known mem held), inlineHost,
          made ▸ built, rfl, rfl, rfl, rfl⟩⟩⟩, rfl⟩
      · intro host mem
        rcases mem_append.mp mem with mem | mem
        · obtain ⟨n, late, early, same⟩ := fits.made host mem
          exact ⟨n, late, early.trans (Nat.lt_succ_self _), same⟩
        · rw [mem_singleton.mp mem]
          exact ⟨_, fits.later, Nat.lt_succ_self _, made⟩
      · rw [JumpChain.state_add, map_append, nodup_append]
        refine ⟨fits.distinct, nodup_singleton _, fun first mem second mem' same => ?_⟩
        obtain ⟨host, held, rfl⟩ := List.mem_map.mp mem
        obtain ⟨n, -, early, same'⟩ := fits.made host held
        rw [map_singleton, mem_singleton, made] at mem'
        have := tools.distinct (same'.symm.trans (same.trans mem'))
        omega
      · intro host mem
        rcases mem_append.mp mem with mem | mem
        · exact fits.unchained host mem
        · rw [mem_singleton.mp mem]
          exact unchained
      · rw [JumpChain.state_add, OrderedMap.get?_set] at found
        split at found
        · cases found
          exact ⟨inlineHost, last, rfl, Eq.symm ‹_›⟩
        · obtain ⟨host, mem, same⟩ := fits.labels key id found
          exact ⟨host, whole ▸ mem_append_left _ mem, same⟩
      · rw [JumpChain.state_add, OrderedMap.get?_set] at found
        split at found
        · cases found
          exact ⟨inlineHost, last, rfl, Eq.symm ‹_›⟩
        · obtain ⟨host, mem, same⟩ := fits.hostnames key id found
          exact ⟨host, whole ▸ mem_append_left _ mem, same⟩
      · rw [JumpChain.state_add, OrderedMap.has, OrderedMap.get?_set]
        split
        · rfl
        · exact fits.allLabels host mem
      · rw [JumpChain.state_add, OrderedMap.has, OrderedMap.get?_set]
        split
        · rfl
        · exact fits.allHostnames host mem

theorem eraseDups_concat (ids : List JsString) (id : JsString) :
    (ids ++ [id]).eraseDups = if id ∈ ids.eraseDups then ids.eraseDups else ids.eraseDups ++ [id] := by
  rw [eraseDups_append, List.removeAll, filter_singleton]
  by_cases old : id ∈ ids
  · rw [if_pos (mem_eraseDups.mpr old), elem_eq_true_of_mem old]
    exact append_nil _
  · rw [if_neg fun mem => old (mem_eraseDups.mp mem), Bool.eq_false_iff.mpr fun held => old (elem_iff.mp held)]
    rfl

theorem fits_resolveJumps (own : OwnIds tools ownIds kept issued) (jumpHosts : List ParsedJumpHost)
    {chain after : JumpChain} {before : List ParsedJumpHost} (fits : chain.state.Fits tools kept issued)
    (resolved : Resolves tools ownIds (kept ++ chain.state.inlineHosts) before chain.resolvedIds)
    (ran : jumpHosts.foldlM (resolveJump tools) chain = .ok after) :
    after.state.Fits tools kept issued ∧ chain.state.inlineHosts <+: after.state.inlineHosts ∧
      Resolves tools ownIds (kept ++ after.state.inlineHosts) (before ++ jumpHosts) after.resolvedIds := by
  induction jumpHosts generalizing chain before with
  | nil =>
    cases ran
    rw [append_nil]
    exact ⟨fits, prefix_rfl, resolved⟩
  | cons jumpHost jumpHosts ih =>
    rw [foldlM_cons, bind_eq_ok] at ran
    obtain ⟨next, first, ran⟩ := ran
    obtain ⟨fits', added, id, names, ids⟩ := fits_resolveJump own fits first
    obtain ⟨more, cut⟩ := added
    obtain ⟨targets, found, same⟩ := resolved
    have foreign : ∀ host ∈ more, host.id ∉ ownIds := by
      intro host mem
      obtain ⟨n, late, -, made⟩ := fits'.made host (cut ▸ mem_append_right _ mem)
      exact made ▸ own.fresh n late
    have resolved' : Resolves tools ownIds (kept ++ next.state.inlineHosts) (before ++ [jumpHost]) next.resolvedIds := by
      refine ⟨targets ++ [id], rel_append (found.imp fun jumpHost id names => ?_) (.cons names .nil), ?_⟩
      · rw [← cut, ← append_assoc]
        exact names.mono foreign
      · rw [ids, same, eraseDups_concat]
    obtain ⟨fits'', added', resolved''⟩ := ih fits' resolved' ran
    rw [append_assoc, singleton_append] at resolved''
    exact ⟨fits'', (prefix_append _ more).trans (cut ▸ added'), resolved''⟩

theorem Resolves.mono (own : OwnIds tools ownIds kept issued) {before after : JumpLookup}
    (fits : after.Fits tools kept issued) (added : before.inlineHosts <+: after.inlineHosts)
    {jumpHosts : List ParsedJumpHost} {ids : List JsString}
    (resolved : Resolves tools ownIds (kept ++ before.inlineHosts) jumpHosts ids) :
    Resolves tools ownIds (kept ++ after.inlineHosts) jumpHosts ids := by
  obtain ⟨more, cut⟩ := added
  obtain ⟨targets, found, same⟩ := resolved
  refine ⟨targets, found.imp fun jumpHost id names => ?_, same⟩
  rw [← cut, ← append_assoc]
  refine names.mono fun host mem => ?_
  obtain ⟨n, late, -, made⟩ := fits.made host (cut ▸ mem_append_right _ mem)
  exact made ▸ own.fresh n late

def Host.bare (host : Host) : Host := { host with hostChain := none }

theorem field_of_bare {α : Type} {host other : Host} (same : other.bare = host.bare) (field : Host → α)
    (free : ∀ host : Host, field host.bare = field host) : field other = field host := by
  rw [← free other, same, free]

/-- A host gets the route of its address, unless that leads to itself. -/
theorem fits_attachJumps (own : OwnIds tools ownIds kept issued) {values : OrderedMap JsString JsString}
    {state : JumpLookup} {host : Host} {step : Host × JumpLookup} (unchained : host.hostChain = none)
    (fits : state.Fits tools kept issued) (ran : attachJumps tools values state host = .ok step) :
    step.2.Fits tools kept issued ∧ state.inlineHosts <+: step.2.inlineHosts ∧ step.1.bare = host.bare ∧
      if jumpsOf tools values host = [] then step.1.hops = []
      else ∃ chain, (jumpsOf tools values host).foldlM (resolveJump tools) ⟨state, [], []⟩ = .ok chain ∧
        Resolves tools ownIds (kept ++ step.2.inlineHosts) (jumpsOf tools values host) chain.resolvedIds ∧
        step.1.hops = if host.id ∈ chain.resolvedIds then [] else chain.resolvedIds := by
  have no_hops : host.hops = [] := by rw [Host.hops, unchained, getD_none]
  unfold attachJumps at ran
  dsimp only at ran
  generalize jumpsOf tools values host = jumpHosts at ran
  cases jumpHosts with
  | nil =>
    cases ran
    exact ⟨fits, prefix_rfl, rfl, no_hops⟩
  | cons jumpHost jumpHosts =>
    rw [isEmpty_cons, if_neg Bool.false_ne_true, bind_eq_ok] at ran
    obtain ⟨chain, resolves, ran⟩ := ran
    obtain ⟨held, added, resolved⟩ := @fits_resolveJumps _ _ _ _ own _ _ _ [] fits ⟨[], .nil, rfl⟩ resolves
    rw [if_neg (cons_ne_nil _ _)]
    split at ran
    · rename_i loop
      cases ran
      refine ⟨held.warn _, added, rfl, chain, resolves, resolved, ?_⟩
      rw [if_pos loop]
      exact no_hops
    · rename_i straight
      cases ran
      have hops : (if chain.resolvedIds.isEmpty = true then host
          else { host with hostChain := some chain.resolvedIds }).hops = chain.resolvedIds := by
        split
        · rename_i empty
          rw [no_hops, List.isEmpty_iff.mp empty]
        · rfl
      have same : (if chain.resolvedIds.isEmpty = true then host
          else { host with hostChain := some chain.resolvedIds }).bare = host.bare := by
        split
        · rfl
        · rfl
      generalize last : (if chain.unresolvedJumps.isEmpty = true then chain.state else chain.state.warn _) = after
      obtain ⟨after_fits, after_inline⟩ :
          after.Fits tools kept issued ∧ after.inlineHosts = chain.state.inlineHosts := by
        rw [← last]
        split
        · exact ⟨held, rfl⟩
        · exact ⟨held.warn _, rfl⟩
      exact ⟨after_fits, after_inline ▸ added, same, chain, resolves, after_inline ▸ resolved,
        hops.trans (if_neg straight).symm⟩

def Routed (tools : ImportTools) (ownIds : List JsString) (values : OrderedMap JsString JsString) (hosts : List Host)
    (resolved : List (JsString × List JsString)) (host : Host) : Prop :=
  if jumpsOf tools values host = [] then host.hops = []
  else ∃ ids, (host.id, ids) ∈ resolved ∧ Resolves tools ownIds hosts (jumpsOf tools values host) ids ∧
    host.hops = if host.id ∈ ids then [] else ids

theorem fits_attachAllJumps (own : OwnIds tools ownIds kept issued) {values : OrderedMap JsString JsString}
    (hosts : List Host) {state : JumpLookup} {run : List Host × JumpLookup}
    (unchained : ∀ host ∈ hosts, host.hostChain = none) (fits : state.Fits tools kept issued)
    (ran : attachAllJumps tools values hosts state = .ok run) :
    run.2.Fits tools kept issued ∧ state.inlineHosts <+: run.2.inlineHosts ∧ run.1.map Host.bare = hosts.map Host.bare ∧
      ∀ host ∈ run.1, Routed tools ownIds values (kept ++ run.2.inlineHosts) (routes tools values hosts state) host := by
  induction hosts generalizing state run with
  | nil =>
    cases ran
    exact ⟨fits, prefix_rfl, rfl, fun _ mem => (not_mem_nil mem).elim⟩
  | cons host hosts ih =>
    rw [attachAllJumps, bind_eq_ok] at ran
    obtain ⟨step, first, ran⟩ := ran
    rw [bind_eq_ok] at ran
    obtain ⟨rest, others, ran⟩ := ran
    cases ran
    obtain ⟨fits', added, same, routed⟩ := fits_attachJumps own (unchained host mem_cons_self) fits first
    obtain ⟨fits'', added', same', routed'⟩ :=
      ih (fun other mem => unchained other (mem_cons_of_mem _ mem)) fits' others
    refine ⟨fits'', added.trans added', congrArg₂ List.cons same same', fun other mem => ?_⟩
    have jumps : jumpsOf tools values step.1 = jumpsOf tools values host :=
      field_of_bare same (jumpsOf tools values) fun _ => rfl
    have id : step.1.id = host.id := field_of_bare same Host.id fun _ => rfl
    have loop : ∃ chain, (jumpsOf tools values host).foldlM (resolveJump tools) ⟨state, [], []⟩ = .ok chain ∧
        routes tools values (host :: hosts) state =
          (if (jumpsOf tools values host).isEmpty then [] else [(host.id, chain.resolvedIds)]) ++
            routes tools values hosts step.2 ∧
        (jumpsOf tools values host ≠ [] →
          Resolves tools ownIds (kept ++ step.2.inlineHosts) (jumpsOf tools values host) chain.resolvedIds ∧
            step.1.hops = if host.id ∈ chain.resolvedIds then [] else chain.resolvedIds) := by
      rw [routes]
      by_cases none_ : jumpsOf tools values host = []
      · rw [none_, first]
        exact ⟨_, rfl, rfl, fun some_ => absurd rfl some_⟩
      · rw [if_neg none_] at routed
        obtain ⟨chain, resolves, routed⟩ := routed
        rw [first, resolves]
        exact ⟨chain, rfl, rfl, fun _ => routed⟩
    obtain ⟨chain, -, all, ownRoute⟩ := loop
    rw [all]
    rcases mem_cons.mp mem with rfl | mem
    · unfold Routed
      rw [jumps]
      split
      · rename_i none_
        rwa [if_pos none_] at routed
      · rename_i some_
        obtain ⟨resolved, hops⟩ := ownRoute some_
        refine ⟨chain.resolvedIds, ?_, resolved.mono own fits'' added', id ▸ hops⟩
        rw [if_neg fun empty => some_ (List.isEmpty_iff.mp empty), id]
        exact mem_append_left _ (mem_singleton_self _)
    · have routed := routed' other mem
      unfold Routed at routed ⊢
      split
      · rename_i none_
        rwa [if_pos none_] at routed
      · rename_i some_
        rw [if_neg some_] at routed
        obtain ⟨ids, held, routed⟩ := routed
        exact ⟨ids, mem_append_right _ held, routed⟩

end Lookup

/-! ## Cutting circles one by one -/

section Cut

variable {allHosts : List Host}

theorem mem_chainOf (distinct : (allHosts.map Host.id).Nodup) {source hop : JsString} :
    hop ∈ ((allHosts.find? (·.id = source)).map Host.hops).getD [] ↔ JumpsTo allHosts source hop := by
  constructor
  · intro held
    cases found : allHosts.find? (·.id = source) with
    | none =>
      rw [found] at held
      cases held
    | some host =>
      rw [found] at held
      have own := find?_some found
      rw [decide_eq_true_eq] at own
      exact ⟨host, mem_of_find?_eq_some found, own, held⟩
  · rintro ⟨host, mem, rfl, held⟩
    rw [find?_id distinct mem]
    exact held

theorem meetsItself_chainOf (distinct : (allHosts.map Host.id).Nodup) {hostId : JsString} :
    CycleSearch.meetsItself (fun source => ((allHosts.find? (·.id = source)).map Host.hops).getD [])
      (allHosts.length + 1) [] hostId ↔ CycleSearch.LeadsToCycle (JumpsTo allHosts) hostId := by
  have inside (node : JsString) (some_ : ((allHosts.find? (·.id = node)).map Host.hops).getD [] ≠ []) :
      node ∈ allHosts.map Host.id := by
    obtain ⟨hop, held⟩ := exists_mem_of_ne_nil _ some_
    obtain ⟨host, mem, own, -⟩ := (mem_chainOf distinct).mp held
    exact own ▸ List.mem_map_of_mem mem
  have search := @CycleSearch.meetsItself_iff _ _ _ _ inside hostId
  rw [length_map] at search
  rw [search]
  exact ⟨.mono (mem_chainOf distinct).mp, .mono (mem_chainOf distinct).mpr⟩

/-- What is left has no circle, and what leads into none is left. -/
theorem cutChains_sound (rest : List Host) {done : List Host} (distinct : ((done ++ rest).map Host.id).Nodup)
    (clear : ∀ host ∈ done, host.hops ≠ [] → ¬CycleSearch.LeadsToCycle (JumpsTo (done ++ rest)) host.id) :
    let cut := (cutChains done rest).1
    cut.map Host.id = (done ++ rest).map Host.id ∧ Acyclic (JumpsTo cut) ∧
      (∀ host ∈ cut, host.hops ≠ [] → host ∈ done ++ rest) ∧
      ∀ host ∈ done ++ rest, host.hops = [] ∨ ¬CycleSearch.LeadsToCycle (JumpsTo (done ++ rest)) host.id → host ∈ cut := by
  induction rest generalizing done with
  | nil =>
    rw [append_nil] at clear ⊢
    refine ⟨rfl, CycleSearch.acyclic_of_forall fun source hop jumps => ?_, fun _ mem _ => mem, fun _ mem _ => mem⟩
    obtain ⟨host, mem, rfl, held⟩ := jumps
    exact clear host mem (ne_nil_of_mem held)
  | cons host rest ih =>
    have kept : done ++ host :: rest = done ++ [host] ++ rest := append_cons done host rest
    unfold cutChains
    dsimp only
    split
    · rename_i cyclic
      rw [Bool.and_eq_true, Bool.not_eq_true', isEmpty_eq_false_iff, meetsItself_chainOf distinct] at cyclic
      obtain ⟨some_, leads⟩ := cyclic
      generalize cutHost : { host with hostChain := none } = bare
      have no_hops : bare.hops = [] := cutHost ▸ rfl
      have same : (done ++ [bare] ++ rest).map Host.id = (done ++ host :: rest).map Host.id := by
        rw [kept, map_append, map_append, map_append, map_append, ← cutHost]
        rfl
      have less {source hop : JsString} (jumps : JumpsTo (done ++ [bare] ++ rest) source hop) :
          JumpsTo (done ++ host :: rest) source hop := by
        obtain ⟨other, mem, rfl, held⟩ := jumps
        refine ⟨other, ?_, rfl, held⟩
        simp only [mem_append, mem_cons, not_mem_nil, or_false] at mem ⊢
        rcases mem with (mem | rfl) | mem
        · exact .inl mem
        · rw [no_hops] at held
          cases held
        · exact .inr (.inr mem)
      obtain ⟨ids, acyclic, sub, stays⟩ := ih (same ▸ distinct) fun other mem hops leads => by
        rcases mem_append.mp mem with mem | mem
        · exact clear other mem hops (leads.mono less)
        · rw [mem_singleton.mp mem] at hops
          exact hops no_hops
      refine ⟨ids.trans same, acyclic, fun other mem hops => ?_, fun other mem free => ?_⟩
      · have mem := sub other mem hops
        simp only [mem_append, mem_cons, not_mem_nil, or_false] at mem ⊢
        rcases mem with (mem | rfl) | mem
        · exact .inl mem
        · exact absurd no_hops hops
        · exact .inr (.inr mem)
      · refine stays other ?_ (free.imp_right fun free leads => free (leads.mono less))
        rcases mem_append.mp mem with mem | mem
        · exact mem_append_left _ (mem_append_left _ mem)
        rcases mem_cons.mp mem with rfl | mem
        · exact absurd leads (free.resolve_left some_)
        · exact mem_append_right _ mem
    · rename_i straight
      rw [kept] at distinct clear ⊢
      refine ih distinct fun other mem hops leads => ?_
      rcases mem_append.mp mem with mem | mem
      · exact clear other mem hops leads
      · rw [mem_singleton.mp mem] at hops leads
        rw [← kept] at distinct leads
        rw [Bool.and_eq_true, Bool.not_eq_true', isEmpty_eq_false_iff, meetsItself_chainOf distinct] at straight
        exact straight ⟨hops, leads⟩

end Cut

/-! ## Own routes -/

section Own

variable {tools : ImportTools} {ownIds : List JsString}

theorem map_bare_cutChains (rest done : List Host) :
    (cutChains done rest).1.map Host.bare = (done ++ rest).map Host.bare := by
  induction rest generalizing done with
  | nil => rw [cutChains, append_nil]
  | cons host rest ih =>
    unfold cutChains
    dsimp only
    split
    · rw [ih, map_append, map_append, map_append, append_assoc]
      rfl
    · rw [ih, ← append_cons]

section

variable {hosts others : List Host} (same : others.map Host.bare = hosts.map Host.bare)
include same

theorem exists_same {host : Host} (mem : host ∈ hosts) : ∃ other ∈ others, other.bare = host.bare :=
  List.mem_map.mp (same ▸ List.mem_map_of_mem mem)

theorem NamesHost.of_same
    {jumpHost : ParsedJumpHost} {id : JsString} (names : NamesHost tools ownIds hosts jumpHost id) :
    NamesHost tools ownIds others jumpHost id := by
  have back {field : Host → JsString} (free : ∀ host : Host, field host.bare = field host)
      (none_ : ∀ host ∈ hosts, host.id ∈ ownIds →
        tools.toLowerCase (field host) ≠ tools.toLowerCase jumpHost.hostname) :
      ∀ other ∈ others, other.id ∈ ownIds →
        tools.toLowerCase (field other) ≠ tools.toLowerCase jumpHost.hostname := by
    intro other mem own
    obtain ⟨host, held, bare⟩ := exists_same same.symm mem
    rw [← field_of_bare bare field free]
    exact none_ host held (field_of_bare bare Host.id (fun _ => rfl) ▸ own)
  obtain ⟨host, mem, rfl, found⟩ := names
  obtain ⟨other, held, bare⟩ := exists_same same mem
  have id := field_of_bare bare Host.id fun _ => rfl
  have label := field_of_bare bare Host.label fun _ => rfl
  have hostname := field_of_bare bare Host.hostname fun _ => rfl
  refine ⟨other, held, id, ?_⟩
  rw [label, hostname, field_of_bare bare Host.port fun _ => rfl, field_of_bare bare Host.username fun _ => rfl]
  exact found.imp_right fun ⟨none_, found⟩ => ⟨back (fun _ => rfl) none_, found.imp_right fun ⟨none_, made⟩ =>
    ⟨back (fun _ => rfl) none_, made⟩⟩

end

/-- The ids of the hosts of the patterns. -/
def entryIds (tools : ImportTools) (start count : ℕ) : List JsString :=
  (List.range count).map fun n => tools.randomUUID (start + n)

theorem kept_of_entries {start : ℕ} {entries : List (SshConfigBlock × JsString)} {read : SshConfigHosts}
    (fits : read.Fits tools start entries)
    (tidy : ∀ entry ∈ entries, entry.1.Tidy ∧ entry.2 ∈ entry.1.patterns) :
    let kept := (dedupeHosts (buildVaultHostMergeKey tools.toLowerCase tools.numberText) (fun _ => true)
      read.parsedHosts).1
    (kept.map Host.id).Nodup ∧ ∀ host ∈ kept, ∃ n entry, entries[n]? = some entry ∧
      host.id = tools.randomUUID (start + n) ∧ host.hostChain = none ∧
      makeHostKey tools.toLowerCase host.hostname host.port = entryKey tools entry := by
  have copies := @dedupeHosts_copies (buildVaultHostMergeKey tools.toLowerCase tools.numberText)
    (fun _ => true) read.parsedHosts
  have sublist := @firstCopies_sublist (buildVaultHostMergeKey tools.toLowerCase tools.numberText)
    (fun _ => true) [] read.parsedHosts
  dsimp only
  refine ⟨?_, fun host mem => ?_⟩
  · rw [ids_of_copies copies]
    refine (sublist.map Host.id).nodup ?_
    rw [fits.ids]
    refine nodup_range.map fun n m same => ?_
    have := tools.distinct same
    omega
  · obtain ⟨base, held, copied⟩ := exists_base copies mem
    obtain ⟨n, small, same⟩ := mem_iff_getElem.mp (sublist.subset held)
    have count : n < entries.length := fits.hosts.length_eq ▸ small
    have made : MadeOf tools entries[n] base := same ▸ fits.hosts.get count small
    obtain ⟨address, unchained⟩ := made.address (tidy _ (getElem_mem count)).1 (tidy _ (getElem_mem count)).2
    refine ⟨n, entries[n], getElem?_eq_getElem count, ?_, ?_, ?_⟩
    · have ids : (read.parsedHosts.map Host.id)[n]? = some (tools.randomUUID (start + n)) := by
        rw [fits.ids, getElem?_map, getElem?_range count, map_some]
      rw [getElem?_map, getElem?_eq_getElem small, map_some, same] at ids
      rw [copied.id]
      exact some_inj.mp ids
    · rw [copied.field Host.hostChain fun _ => rfl, unchained]
    · rw [copied.field Host.hostname fun _ => rfl, copied.field Host.port fun _ => rfl, address]

/-- Every host of the text has the route of its address. -/
theorem routed_configHosts {start : ℕ} {source : JsString} {result : VaultImportResult × List VaultImportIssue}
    (imported : importFromSshConfig tools start source = .ok result) :
    let entries := configEntries tools (configBlocks tools.toLowerCase source)
    let ownIds := entryIds tools start entries.length
    ∃ allHosts : List Host, (allHosts.map Host.id).Nodup ∧ result.1.hosts = (cutChains [] allHosts).1 ∧
      (∀ host ∈ allHosts, host.hops ≠ [] → host.id ∈ ownIds) ∧
      ∀ host ∈ allHosts, host.id ∈ ownIds → ∃ n entry, entries[n]? = some entry ∧
        host.id = tools.randomUUID (start + n) ∧
        ∀ jumps, ((lastProxyJump tools entries (entryKey tools entry)).map (parseProxyJump tools)).getD [] = jumps →
          if jumps = [] then host.hops = []
          else ∃ ids, (host.id, ids) ∈ configRoutes tools start source ∧ Resolves tools ownIds allHosts jumps ids ∧
            host.hops = if host.id ∈ ids then [] else ids := by
  unfold importFromSshConfig at imported
  rw [bind_eq_ok] at imported
  obtain ⟨read, ran, imported⟩ := imported
  dsimp only at imported
  rw [bind_eq_ok] at imported
  obtain ⟨attached, attaches, imported⟩ := imported
  cases imported
  have fits := fits_readBlocks ran
  generalize entries_ : configEntries tools (configBlocks tools.toLowerCase source) = entries at fits
  have tidy : ∀ entry ∈ entries, entry.1.Tidy ∧ entry.2 ∈ entry.1.patterns := by
    intro entry mem
    obtain ⟨block, pattern⟩ := mem_of_configEntries (entries_ ▸ mem)
    exact ⟨tidy_configBlocks _ block, pattern⟩
  obtain ⟨keptDistinct, known⟩ := kept_of_entries fits tidy
  generalize deduped_ : dedupeHosts (buildVaultHostMergeKey tools.toLowerCase tools.numberText) (fun _ => true)
    read.parsedHosts = deduped at attaches keptDistinct known
  have own : OwnIds tools (entryIds tools start entries.length) deduped.1 read.issued := by
    refine ⟨fun host mem => ?_, fun n late mem => ?_⟩
    · obtain ⟨n, entry, found, id, -⟩ := known host mem
      exact id ▸ List.mem_map_of_mem (mem_range.mpr (List.getElem?_eq_some_iff.mp found).1)
    · obtain ⟨m, early, same⟩ := List.mem_map.mp mem
      have := tools.distinct same
      have := mem_range.mp early
      have := fits.issued
      omega
  have unchained (host : Host) (mem : host ∈ deduped.1) : host.hostChain = none := by
    obtain ⟨-, -, -, -, none_, -⟩ := known host mem
    exact none_
  obtain ⟨held, -, same, routed⟩ :=
    fits_attachAllJumps own deduped.1 unchained (fits_start deduped.1 read.issued read.issues) attaches
  have foreign (host : Host) (mem : host ∈ attached.2.inlineHosts) :
      host.id ∉ entryIds tools start entries.length := by
    obtain ⟨n, late, -, made⟩ := held.made host mem
    exact made ▸ own.fresh n late
  have distinct : ((attached.1 ++ attached.2.inlineHosts).map Host.id).Nodup := by
    have ids : attached.1.map Host.id = deduped.1.map Host.id := by
      have ids := congrArg (List.map Host.id) same
      rwa [List.map_map, List.map_map] at ids
    rw [map_append, nodup_append, ids]
    refine ⟨keptDistinct, held.distinct, fun first mem second mem' eq => ?_⟩
    obtain ⟨host, kept, rfl⟩ := List.mem_map.mp mem
    obtain ⟨other, added, rfl⟩ := List.mem_map.mp mem'
    exact foreign other added (eq ▸ own.own host kept)
  have bare : (attached.1 ++ attached.2.inlineHosts).map Host.bare =
      (deduped.1 ++ attached.2.inlineHosts).map Host.bare := by rw [map_append, map_append, same]
  refine ⟨attached.1 ++ attached.2.inlineHosts, distinct, rfl, fun host mem hops => ?_, fun host mem ownId => ?_⟩
  · rcases mem_append.mp mem with mem | mem
    · obtain ⟨other, mem, eq⟩ := exists_same same.symm mem
      exact field_of_bare eq Host.id (fun _ => rfl) ▸ own.own other mem
    · rw [Host.hops, held.unchained host mem] at hops
      exact absurd rfl hops
  · have mem := (mem_append.mp mem).resolve_right fun mem => foreign host mem ownId
    obtain ⟨other, otherMem, eq⟩ := exists_same same.symm mem
    obtain ⟨n, entry, found, id, -, address⟩ := known other otherMem
    refine ⟨n, entry, found, (field_of_bare eq Host.id fun _ => rfl) ▸ id, fun jumps value => ?_⟩
    have route := routed host mem
    have jumps_eq : jumpsOf tools read.hostProxyJumpMap host = jumps := by
      rw [← field_of_bare eq (jumpsOf tools read.hostProxyJumpMap) fun _ => rfl, jumpsOf, address, fits.values, value]
    rw [Routed, jumps_eq] at route
    split
    · rename_i none_
      rwa [if_pos none_] at route
    · rename_i some_
      rw [if_neg some_] at route
      obtain ⟨ids, held, ⟨targets, names, eraseDups⟩, hops⟩ := route
      refine ⟨ids, ?_, ⟨targets, names.imp fun jumpHost id names => names.of_same bare, eraseDups⟩, hops⟩
      rw [configRoutes, ran]
      dsimp only
      rw [deduped_]
      exact held

/-- Two blocks that route through each other. -/
def mutualText : JsString := text "Host a\n  ProxyJump b\nHost b\n  ProxyJump a"

end Own

end Netcatty.VaultImport
