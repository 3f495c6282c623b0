import Netcatty.CycleSearch
import Netcatty.VaultDrafts

/-!
Jump chains of a CSV import.

The hops of a ProxyJump cell are looked up among the imported hosts, then among the hosts the
vault has, and a hop that is neither becomes a host of the import.  The chains that result
(`resolutions`) may close a circle.  A host keeps its chain unless a circle is reached from it,
and what is kept has none (`chains_sound`).
-/

namespace Netcatty.VaultImport

open List Option

def csvJumpPort (port : Option ℕ) : ℕ :=
  match port with
  | some port => if 1 ≤ port && port ≤ 65535 then port else 22
  | none => 22

/-- What a hop is compared with: a host of the import or one of the vault. -/
structure CsvJumpCandidate where
  id : JsString
  label : JsString
  hostname : JsString
  port : Option ℕ
  username : Option JsString
  protocol : Option JsString
  group : Option JsString
  deriving DecidableEq

def Host.candidate (host : Host) : CsvJumpCandidate :=
  ⟨host.id, host.label, host.hostname, host.port, some host.username, host.protocol, host.group⟩

structure ProxyJumpCell where
  value : JsString
  row : ℕ

/-- The inline hosts so far, what hops are looked up in, the issues, and how many identifiers are taken. -/
structure CsvJumpState where
  inlineHosts : List Host
  matchable : List CsvJumpCandidate
  issues : List VaultImportIssue
  issued : ℕ

def CsvJumpState.warn (state : CsvJumpState) (message : JsString) : CsvJumpState :=
  { state with issues := state.issues ++ [⟨.warning, message⟩] }

/-- The loop over the hops of a cell. -/
structure CsvChain where
  state : CsvJumpState
  resolvedIds : List JsString
  unresolved : List JsString
  chainRejected : Bool

section Resolve

variable (tools : ImportTools)

def csvJumpUserMatches (hop : ParsedJumpHost) (candidate : CsvJumpCandidate) : Bool :=
  !truthy hop.username ||
    tools.toLowerCase (trim (candidate.username.getD [])) = tools.toLowerCase (hop.username.getD [])

def csvJumpEndpointMatches (hop : ParsedJumpHost) (candidate : CsvJumpCandidate) : Bool :=
  canServeAsSshJumpHost candidate.protocol &&
    tools.toLowerCase (trim candidate.hostname) = tools.toLowerCase hop.hostname &&
    csvJumpPort candidate.port = csvJumpPort hop.port && csvJumpUserMatches tools hop candidate

def csvJumpLabelMatches (hop : ParsedJumpHost) (candidate : CsvJumpCandidate) : Bool :=
  let label := tools.toLowerCase (trim candidate.label)
  canServeAsSshJumpHost candidate.protocol && !label.isEmpty && label = tools.toLowerCase hop.hostname &&
    csvJumpPort candidate.port = csvJumpPort hop.port && csvJumpUserMatches tools hop candidate

/-- The first candidate of the group, or else the first. -/
def pickCsvJumpCandidate (found : List CsvJumpCandidate) (group : Option JsString) : Option CsvJumpCandidate :=
  (found.find? fun candidate => candidate.group.getD [] = group.getD []).or found.head?

/-- The key two inline hosts may not share. -/
def inlineKey (hostname : JsString) (port : Option ℕ) (username : JsString) : JsString :=
  tools.toLowerCase hostname ++ text "|" ++ decimal (csvJumpPort port) ++ text "|" ++ tools.toLowerCase username

def inlineDraft (hop : ParsedJumpHost) : HostDraft where
  label := some hop.hostname
  hostname := hop.hostname
  username := hop.username
  password := none
  keyPath := none
  port := hop.port
  protocol := some (text "ssh")
  group := none
  tags := []

variable (existingHosts : List CsvJumpCandidate)

def resolveHop (group : Option JsString) (state : CsvJumpState) (hop : ParsedJumpHost) :
    Option JsString × CsvJumpState :=
  let lookup (accepts : ParsedJumpHost → CsvJumpCandidate → Bool) : Option CsvJumpCandidate :=
    pickCsvJumpCandidate (state.matchable.filter (accepts hop) ++ existingHosts.filter (accepts hop)) group
  match (lookup (csvJumpEndpointMatches tools)).or (lookup (csvJumpLabelMatches tools)) with
  | some candidate => (some candidate.id, state)
  | none =>
    let key := inlineKey tools hop.hostname hop.port (hop.username.getD [])
    match state.inlineHosts.find? fun host => inlineKey tools host.hostname host.port host.username = key with
    | some inlineHost => (some inlineHost.id, state)
    | none =>
      if !looksLikeHostnameToken tools hop.hostname then (none, state)
      else
        match buildVaultHostFromDraft tools (tools.randomUUID state.issued) (inlineDraft hop) with
        | .error _ => (none, state)
        | .ok inlineHost =>
          (some inlineHost.id,
            { state with
              inlineHosts := state.inlineHosts ++ [inlineHost]
              matchable := state.matchable ++ [inlineHost.candidate]
              issued := state.issued + 1 })

/-- One turn of the loop over the hops of a cell. -/
def readSpec (row : ℕ) (group : Option JsString) (chain : CsvChain) (spec : JsString) : CsvChain :=
  let reject (state : CsvJumpState) : CsvChain :=
    { chain with
      state := state.warn (text "CSV row " ++ decimal row ++ text ": ProxyJump hop \"" ++ spec ++
        text "\" was ignored because it is not a valid jump host.")
      chainRejected := true }
  match parseJumpHostSpec tools spec with
  | none => reject chain.state
  | some jump =>
    let step := resolveHop tools existingHosts group chain.state jump
    match step.1.bind QuickConnect.nonempty with
    | none => reject step.2
    | some resolvedId =>
      { chain with
        state := step.2
        unresolved :=
          if chain.state.inlineHosts.length < step.2.inlineHosts.length then chain.unresolved ++ [jump.hostname]
          else chain.unresolved
        resolvedIds :=
          if resolvedId ∈ chain.resolvedIds then chain.resolvedIds else chain.resolvedIds ++ [resolvedId] }

/-- The hops a cell names. -/
def cellSpecs (cell : ProxyJumpCell) : List JsString :=
  ((cell.value.splitOn comma).map trim).filter fun part => !part.isEmpty && tools.toLowerCase part ≠ text "none"

variable (proxyJumpByHost : JsString → Option ProxyJumpCell)

def readCell (state : CsvJumpState) (host : Host) : Option CsvChain :=
  (proxyJumpByHost host.id).bind fun cell =>
    if (cellSpecs tools cell).isEmpty then none
    else some ((cellSpecs tools cell).foldl (readSpec tools existingHosts cell.row host.group) ⟨state, [], [], false⟩)

/-- Without the inline hosts that were added since. -/
def CsvJumpState.rollback (state before : CsvJumpState) : CsvJumpState :=
  let droppedIds := (state.inlineHosts.drop before.inlineHosts.length).map Host.id
  { state with
    inlineHosts := state.inlineHosts.take before.inlineHosts.length
    matchable := state.matchable.filter fun candidate => candidate.id ∉ droppedIds }

/-- One turn of the loop over the hosts. -/
def attachHost (state : CsvJumpState) (host : Host) : Host × CsvJumpState :=
  match readCell tools existingHosts proxyJumpByHost state host with
  | none => (host, state)
  | some chain =>
    if chain.chainRejected || host.id ∈ chain.resolvedIds then
      let state := chain.state.rollback state
      (host,
        if host.id ∈ chain.resolvedIds then
          state.warn (text "CSV: detected circular reference in ProxyJump for \"" ++ host.label ++
            text "\", skipping chain.")
        else state)
    else
      (if chain.resolvedIds.isEmpty then host else { host with hostChain := some chain.resolvedIds },
        if chain.unresolved.isEmpty then chain.state
        else chain.state.warn (text "CSV: created inline jump host(s) for \"" ++ host.label ++ text "\": " ++
          (text ", ").intercalate chain.unresolved))

def attachHosts : List Host → CsvJumpState → List Host × CsvJumpState
  | [], state => ([], state)
  | host :: hosts, state =>
    let step := attachHost tools existingHosts proxyJumpByHost state host
    let rest := attachHosts hosts step.2
    (step.1 :: rest.1, rest.2)

def knownHops (allHosts : List Host) (hostId : JsString) : List JsString :=
  (((allHosts.find? (·.id = hostId)).map Host.hops).getD []).filter fun chainId => allHosts.any (·.id = chainId)

def participatesInCycle (allHosts : List Host) (hostId : JsString) : Bool :=
  CycleSearch.meetsItself (knownHops allHosts) (allHosts.length + 1) [] hostId

def isCyclicHost (allHosts : List Host) (host : Host) : Bool :=
  !host.hops.isEmpty && participatesInCycle allHosts host.id

/-- The hosts of a CSV import before they have chains. -/
structure CsvHosts where
  hosts : List Host
  issued : ℕ
  made : ∀ host ∈ hosts, ∃ n < issued, host.id = tools.randomUUID n
  distinct : (hosts.map Host.id).Nodup
  unchained : ∀ host ∈ hosts, host.hostChain = none

/-- The state before any chain is read. -/
def CsvHosts.start {tools : ImportTools} (imported : CsvHosts tools) (issues : List VaultImportIssue) : CsvJumpState :=
  ⟨[], imported.hosts.map Host.candidate, issues, imported.issued⟩

def removeCyclicChains (allHosts : List Host) : List Host :=
  allHosts.map fun host => if isCyclicHost allHosts host then { host with hostChain := none } else host

/-- `attachCsvProxyJumpChains`, where hosts are told apart by their ids. -/
def attachCsvProxyJumpChains (imported : CsvHosts tools) (issues : List VaultImportIssue) :
    List Host × List VaultImportIssue :=
  let attached := attachHosts tools existingHosts proxyJumpByHost imported.hosts (imported.start issues)
  let allHosts := attached.1 ++ attached.2.inlineHosts
  (removeCyclicChains allHosts,
    attached.2.issues ++ (allHosts.filter (isCyclicHost allHosts)).map fun host =>
      ⟨.warning, text "CSV: detected circular dependency in jump chain for \"" ++ host.label ++
        text "\", removing chain."⟩)

/-! ## The resolved graph -/

def resolution (state : CsvJumpState) (host : Host) : Option (List JsString) :=
  (readCell tools existingHosts proxyJumpByHost state host).bind fun chain =>
    if chain.chainRejected then none else some chain.resolvedIds

/-- The hosts whose cells resolve, each with the ids its hops resolve to. -/
def resolutions : List Host → CsvJumpState → List (JsString × List JsString)
  | [], _ => []
  | host :: hosts, state =>
    ((resolution tools existingHosts proxyJumpByHost state host).map fun ids => (host.id, ids)).toList ++
      resolutions hosts (attachHost tools existingHosts proxyJumpByHost state host).2

end Resolve

/-! ## What the loops keep -/

section Fits

variable {tools : ImportTools} {existingHosts : List CsvJumpCandidate}

/-- The ids a hop can be resolved to. -/
def knownIds (imported : CsvHosts tools) (existingHosts : List CsvJumpCandidate) (state : CsvJumpState) : List JsString :=
  (imported.hosts ++ state.inlineHosts).map Host.id ++ existingHosts.map CsvJumpCandidate.id

structure CsvJumpState.Fits (imported : CsvHosts tools) (state : CsvJumpState) : Prop where
  matchable : state.matchable = (imported.hosts ++ state.inlineHosts).map Host.candidate
  issued : imported.issued ≤ state.issued
  made : ∀ host ∈ state.inlineHosts, ∃ n, imported.issued ≤ n ∧ n < state.issued ∧ host.id = tools.randomUUID n
  distinct : (state.inlineHosts.map Host.id).Nodup
  unchained : ∀ host ∈ state.inlineHosts, host.hostChain = none

variable {imported : CsvHosts tools} {state before : CsvJumpState}

theorem CsvJumpState.Fits.warn (fits : state.Fits imported) (message : JsString) : (state.warn message).Fits imported :=
  ⟨fits.matchable, fits.issued, fits.made, fits.distinct, fits.unchained⟩

theorem CsvJumpState.Fits.nodup (fits : state.Fits imported) :
    ((imported.hosts ++ state.inlineHosts).map Host.id).Nodup := by
  rw [map_append, nodup_append]
  refine ⟨imported.distinct, fits.distinct, fun first mem second mem' same => ?_⟩
  obtain ⟨host, held, rfl⟩ := List.mem_map.mp mem
  obtain ⟨inlineHost, held', rfl⟩ := List.mem_map.mp mem'
  obtain ⟨n, early, made⟩ := imported.made host held
  obtain ⟨m, late, -, made'⟩ := fits.made inlineHost held'
  have := tools.distinct (made.symm.trans (same.trans made'))
  omega

theorem knownIds_subset (sub : before.inlineHosts <+: state.inlineHosts) :
    knownIds imported existingHosts before ⊆ knownIds imported existingHosts state := by
  intro id mem
  simp only [knownIds, map_append, mem_append] at mem ⊢
  rcases mem with (mem | mem) | mem
  · exact .inl (.inl mem)
  · exact .inl (.inr ((sub.map Host.id).subset mem))
  · exact .inr mem

/-- Taking back what a chain added leads to the state before it. -/
theorem CsvJumpState.Fits.rollback (fits : state.Fits imported) (old : before.Fits imported)
    (sub : before.inlineHosts <+: state.inlineHosts) :
    (state.rollback before).Fits imported ∧ (state.rollback before).inlineHosts = before.inlineHosts := by
  obtain ⟨added, split⟩ := sub
  have kept : (state.rollback before).inlineHosts = before.inlineHosts := by
    rw [CsvJumpState.rollback, ← split, take_left]
  refine ⟨⟨?_, fits.issued, ?_, ?_, ?_⟩, kept⟩
  · have distinct := fits.nodup
    rw [← split, ← append_assoc, map_append, nodup_append] at distinct
    rw [kept, CsvJumpState.rollback]
    simp only [fits.matchable, ← split, drop_left]
    rw [← append_assoc, @List.map_append _ _ _ (imported.hosts ++ before.inlineHosts), filter_append,
      filter_eq_self.mpr, filter_eq_nil_iff.mpr, append_nil]
    · intro candidate mem
      obtain ⟨host, held, rfl⟩ := List.mem_map.mp mem
      rw [decide_eq_true_eq, not_not]
      exact List.mem_map_of_mem held
    · intro candidate mem
      obtain ⟨host, held, rfl⟩ := List.mem_map.mp mem
      rw [decide_eq_true_eq]
      exact fun mem' => distinct.2.2 _ (List.mem_map_of_mem held) _ mem' rfl
  · rw [kept]
    intro host mem
    exact fits.made host (split ▸ mem_append_left added mem)
  · rw [kept]
    exact old.distinct
  · rw [kept]
    exact old.unchained

theorem mem_of_pick {found : List CsvJumpCandidate} {group : Option JsString} {candidate : CsvJumpCandidate}
    (picked : pickCsvJumpCandidate found group = some candidate) : candidate ∈ found := by
  rw [pickCsvJumpCandidate, or_eq_some_iff] at picked
  rcases picked with picked | ⟨-, picked⟩
  · exact mem_of_find?_eq_some picked
  · exact mem_of_head? picked

theorem fits_resolveHop (fits : state.Fits imported) (existingHosts : List CsvJumpCandidate) (group : Option JsString) (hop : ParsedJumpHost) :
    (resolveHop tools existingHosts group state hop).2.Fits imported ∧
      state.inlineHosts <+: (resolveHop tools existingHosts group state hop).2.inlineHosts ∧
      ∀ id, (resolveHop tools existingHosts group state hop).1 = some id →
        id ∈ knownIds imported existingHosts (resolveHop tools existingHosts group state hop).2 := by
  have candidate_mem {candidate : CsvJumpCandidate} {accepts : CsvJumpCandidate → Bool}
      (picked : pickCsvJumpCandidate (state.matchable.filter accepts ++ existingHosts.filter accepts) group =
        some candidate) : candidate.id ∈ knownIds imported existingHosts state := by
    rw [knownIds, mem_append]
    rcases mem_append.mp (mem_of_pick picked) with mem | mem
    · have mem := mem_of_mem_filter mem
      rw [fits.matchable] at mem
      obtain ⟨host, held, rfl⟩ := List.mem_map.mp mem
      exact .inl (List.mem_map_of_mem held)
    · exact .inr (List.mem_map_of_mem (mem_of_mem_filter mem))
  unfold resolveHop
  dsimp only
  split
  · rename_i candidate picked
    refine ⟨fits, prefix_rfl, fun id same => ?_⟩
    cases same
    rcases or_eq_some_iff.mp picked with picked | ⟨-, picked⟩
    · exact candidate_mem picked
    · exact candidate_mem picked
  split
  · rename_i inlineHost found
    refine ⟨fits, prefix_rfl, fun id same => ?_⟩
    cases same
    exact mem_append_left _ (List.mem_map_of_mem (mem_append_right _ (mem_of_find?_eq_some found)))
  split
  · exact ⟨fits, prefix_rfl, fun id same => by cases same⟩
  split
  · exact ⟨fits, prefix_rfl, fun id same => by cases same⟩
  · rename_i inlineHost built
    obtain ⟨own, unchained⟩ := id_of_draft built
    refine ⟨⟨?_, fits.issued.trans (Nat.le_succ _), ?_, ?_, ?_⟩, prefix_append _ _, fun id same => ?_⟩
    · simp only [fits.matchable, ← append_assoc, map_append, map_cons, map_nil]
    · intro host mem
      rcases mem_append.mp mem with mem | mem
      · obtain ⟨n, late, early, made⟩ := fits.made host mem
        exact ⟨n, late, early.trans (Nat.lt_succ_self _), made⟩
      · obtain rfl := mem_singleton.mp mem
        exact ⟨state.issued, fits.issued, Nat.lt_succ_self _, own⟩
    · rw [map_append, nodup_append]
      refine ⟨fits.distinct, nodup_singleton _, fun first mem second mem' same => ?_⟩
      obtain ⟨host, held, rfl⟩ := List.mem_map.mp mem
      obtain ⟨n, -, early, made⟩ := fits.made host held
      rw [map_singleton, mem_singleton, own] at mem'
      have := tools.distinct (made.symm.trans (same.trans mem'))
      omega
    · intro host mem
      rcases mem_append.mp mem with mem | mem
      · exact fits.unchained host mem
      · obtain rfl := mem_singleton.mp mem
        exact unchained
    · cases same
      exact mem_append_left _ (List.mem_map_of_mem (mem_append_right _
        (mem_append_right _ (mem_singleton_self _))))

/-- What the hops of one cell have led to so far. -/
structure CsvChain.Fits (imported : CsvHosts tools) (existingHosts : List CsvJumpCandidate) (before : CsvJumpState)
    (chain : CsvChain) : Prop where
  state : chain.state.Fits imported
  added : before.inlineHosts <+: chain.state.inlineHosts
  known : chain.resolvedIds ⊆ knownIds imported existingHosts chain.state

theorem fits_readSpec {chain : CsvChain} (fits : chain.Fits imported existingHosts before) (row : ℕ)
    (group : Option JsString) (spec : JsString) :
    (readSpec tools existingHosts row group chain spec).Fits imported existingHosts before := by
  unfold readSpec
  dsimp only
  split
  · exact ⟨fits.state.warn _, fits.added, fits.known⟩
  · rename_i jump parsed
    have ⟨kept, added, known⟩ := fits_resolveHop fits.state existingHosts group jump
    split
    · exact ⟨kept.warn _, fits.added.trans added, List.Subset.trans fits.known (knownIds_subset added)⟩
    · rename_i resolvedId resolved
      refine ⟨kept, fits.added.trans added, fun id mem => ?_⟩
      have resolved_mem : resolvedId ∈ knownIds imported existingHosts
          (resolveHop tools existingHosts group chain.state jump).2 := by
        obtain ⟨found, same, whole⟩ := bind_eq_some_iff.mp resolved
        unfold QuickConnect.nonempty at whole
        split at whole
        · cases whole
        · cases whole
          exact known _ same
      dsimp only at mem
      split at mem
      · exact knownIds_subset added (fits.known mem)
      · rcases mem_append.mp mem with mem | mem
        · exact knownIds_subset added (fits.known mem)
        · exact mem_singleton.mp mem ▸ resolved_mem

theorem fits_readCell (fits : state.Fits imported) {proxyJumpByHost : JsString → Option ProxyJumpCell}
    {host : Host} {chain : CsvChain} (read : readCell tools existingHosts proxyJumpByHost state host = some chain) :
    chain.Fits imported existingHosts state := by
  unfold readCell at read
  obtain ⟨cell, -, read⟩ := bind_eq_some_iff.mp read
  split at read
  · cases read
  · cases read
    exact List.foldlRecOn _ _ ⟨fits, prefix_rfl, nil_subset _⟩ fun chain held spec _ => fits_readSpec held _ _ spec

/-- What a cell makes of its host: the chain it resolves to, unless that names the host itself. -/
theorem fits_attachHost (fits : state.Fits imported) (existingHosts : List CsvJumpCandidate) (proxyJumpByHost : JsString → Option ProxyJumpCell)
    (host : Host) (unchained : host.hostChain = none) :
    let step := attachHost tools existingHosts proxyJumpByHost state host
    let chain := (resolution tools existingHosts proxyJumpByHost state host).filter (host.id ∉ ·)
    step.2.Fits imported ∧ state.inlineHosts <+: step.2.inlineHosts ∧ step.1.id = host.id ∧
      step.1.hops = chain.getD [] ∧ step.1.hops ⊆ knownIds imported existingHosts step.2 := by
  have no_hops : host.hops = [] := by rw [Host.hops, unchained, getD_none]
  unfold attachHost resolution
  cases read : readCell tools existingHosts proxyJumpByHost state host with
  | none => exact ⟨fits, prefix_rfl, rfl, no_hops, no_hops ▸ nil_subset _⟩
  | some chain =>
    have held := fits_readCell fits read
    have ⟨back, same⟩ := held.state.rollback fits held.added
    have kept : state.inlineHosts <+: (chain.state.rollback state).inlineHosts := same ▸ prefix_rfl
    cases rejected : chain.chainRejected with
    | true =>
      simp only [rejected, Bool.true_or, ↓reduceIte, bind_some, filter_none, getD_none]
      refine ⟨?_, ?_, trivial, no_hops, no_hops ▸ nil_subset _⟩
      · split
        · exact back.warn _
        · exact back
      · split
        · exact kept
        · exact kept
    | false =>
      by_cases own : host.id ∈ chain.resolvedIds
      · simp only [rejected, own, Bool.false_or, decide_true, ↓reduceIte, bind_some, Bool.false_eq_true,
          filter_some, not_true, decide_false, getD_none]
        exact ⟨back.warn _, kept, trivial, no_hops, no_hops ▸ nil_subset _⟩
      · simp only [rejected, own, Bool.false_or, decide_false, ↓reduceIte, bind_some, Bool.false_eq_true,
          filter_some, not_false_eq_true, decide_true, getD_some]
        have hops : (if chain.resolvedIds.isEmpty = true then host
            else { host with hostChain := some chain.resolvedIds }).hops = chain.resolvedIds := by
          split
          · rename_i empty
            rw [no_hops, List.isEmpty_iff.mp empty]
          · rfl
        rw [hops]
        refine ⟨?_, ?_, ?_, rfl, ?_⟩
        · split
          · exact held.state
          · exact held.state.warn _
        · split
          · exact held.added
          · exact held.added
        · split
          · rfl
          · rfl
        · split
          · exact held.known
          · exact held.known

theorem fits_attachHosts (existingHosts : List CsvJumpCandidate) (proxyJumpByHost : JsString → Option ProxyJumpCell) (hosts : List Host)
    (unchained : ∀ host ∈ hosts, host.hostChain = none) (fits : state.Fits imported) :
    let attached := attachHosts tools existingHosts proxyJumpByHost hosts state
    let resolved := resolutions tools existingHosts proxyJumpByHost hosts state
    attached.2.Fits imported ∧ state.inlineHosts <+: attached.2.inlineHosts ∧
      attached.1.map Host.id = hosts.map Host.id ∧
      (∀ host ∈ attached.1, host.hops ⊆ knownIds imported existingHosts attached.2) ∧
      (∀ host ∈ attached.1, host.hops ≠ [] → (host.id, host.hops) ∈ resolved ∧ host.id ∉ host.hops) ∧
      ∀ source ids, (source, ids) ∈ resolved → source ∉ ids → ∃ host ∈ attached.1, host.id = source ∧ host.hops = ids := by
  induction hosts generalizing state with
  | nil =>
    exact ⟨fits, prefix_rfl, rfl, fun _ mem => (not_mem_nil mem).elim,
      fun _ mem => (not_mem_nil mem).elim, fun _ _ mem => (not_mem_nil mem).elim⟩
  | cons host hosts ih =>
    have ⟨kept, added, own, hops, known⟩ := fits_attachHost fits existingHosts proxyJumpByHost host
      (unchained host mem_cons_self)
    have ⟨kept', added', ids, known', resolved, attached⟩ :=
      ih (fun other mem => unchained other (mem_cons_of_mem _ mem)) kept
    have chain_eq (some_ : (attachHost tools existingHosts proxyJumpByHost state host).1.hops ≠ []) :
        resolution tools existingHosts proxyJumpByHost state host =
          some (attachHost tools existingHosts proxyJumpByHost state host).1.hops ∧
        host.id ∉ (attachHost tools existingHosts proxyJumpByHost state host).1.hops := by
      cases found : (resolution tools existingHosts proxyJumpByHost state host).filter (host.id ∉ ·) with
      | none => exact absurd (by rw [hops, found, getD_none]) some_
      | some ids =>
        rw [hops, found, getD_some]
        obtain ⟨same, other⟩ := filter_eq_some_iff.mp found
        exact ⟨same, of_decide_eq_true other⟩
    dsimp only [attachHosts, resolutions]
    refine ⟨kept', added.trans added', ?_, fun other mem => ?_, fun other mem some_ => ?_, fun source chain mem clear => ?_⟩
    · rw [map_cons, map_cons, own, ids]
    · rcases mem_cons.mp mem with rfl | mem
      · exact List.Subset.trans known (knownIds_subset added')
      · exact known' other mem
    · rcases mem_cons.mp mem with rfl | mem
      · obtain ⟨same, other⟩ := chain_eq some_
        rw [own, same]
        exact ⟨mem_append_left _ (mem_singleton_self _), other⟩
      · obtain ⟨mem, other⟩ := resolved other mem some_
        exact ⟨mem_append_right _ mem, other⟩
    · rcases mem_append.mp mem with mem | mem
      · rw [mem_toList, map_eq_some_iff] at mem
        obtain ⟨ids, same, pair⟩ := mem
        cases pair
        refine ⟨_, mem_cons_self, own, ?_⟩
        rw [hops, same, filter_some, if_pos (decide_eq_true clear), getD_some]
      · obtain ⟨host, mem, same⟩ := attached source chain mem clear
        exact ⟨host, mem_cons_of_mem _ mem, same⟩

end Fits

/-! ## Cutting circles -/

section Cut

variable {allHosts : List Host}

theorem find?_id (distinct : (allHosts.map Host.id).Nodup) {host : Host} (mem : host ∈ allHosts) :
    allHosts.find? (·.id = host.id) = some host := by
  cases found : allHosts.find? (·.id = host.id) with
  | none => exact absurd (decide_eq_true rfl) (find?_eq_none.mp found host mem)
  | some other =>
    have same := find?_some found
    rw [decide_eq_true_eq] at same
    rw [inj_on_of_nodup_map distinct (mem_of_find?_eq_some found) mem same]

theorem jumpsTo_of_knownHops {source hop : JsString} (held : hop ∈ knownHops allHosts source) :
    JumpsTo allHosts source hop := by
  cases found : allHosts.find? (·.id = source) with
  | none =>
    rw [knownHops, found] at held
    cases held
  | some host =>
    rw [knownHops, found] at held
    have own := find?_some found
    rw [decide_eq_true_eq] at own
    exact ⟨host, mem_of_find?_eq_some found, own, (mem_filter.mp held).1⟩

theorem participatesInCycle_iff (distinct : (allHosts.map Host.id).Nodup) {hostId : JsString} :
    participatesInCycle allHosts hostId ↔ CycleSearch.LeadsToCycle (JumpsTo allHosts) hostId := by
  have inside (node : JsString) (some_ : knownHops allHosts node ≠ []) : node ∈ allHosts.map Host.id := by
    obtain ⟨hop, held⟩ := exists_mem_of_ne_nil _ some_
    obtain ⟨host, mem, own, -⟩ := jumpsTo_of_knownHops held
    exact own ▸ List.mem_map_of_mem mem
  have search := @CycleSearch.meetsItself_iff _ _ _ _ inside hostId
  rw [length_map] at search
  rw [participatesInCycle, search]
  refine ⟨.mono jumpsTo_of_knownHops, .restrict fun first second => ?_⟩
  obtain ⟨host, mem, rfl, held⟩ := first
  obtain ⟨other, mem', rfl, -⟩ := second
  rw [knownHops, find?_id distinct mem]
  exact mem_filter.mpr ⟨held, List.any_eq_true.mpr ⟨other, mem', decide_eq_true rfl⟩⟩

theorem mem_of_removeCyclicChains {host : Host} (mem : host ∈ removeCyclicChains allHosts) (some_ : host.hops ≠ []) :
    host ∈ allHosts ∧ participatesInCycle allHosts host.id = false := by
  obtain ⟨before, held, rfl⟩ := List.mem_map.mp mem
  cases cyclic : isCyclicHost allHosts before with
  | true =>
    rw [cyclic, if_pos rfl] at some_
    exact absurd rfl some_
  | false =>
    rw [cyclic, if_neg Bool.false_ne_true] at some_
    rw [if_neg Bool.false_ne_true]
    rw [isCyclicHost, isEmpty_eq_false_iff.mpr some_, Bool.not_false, Bool.true_and] at cyclic
    exact ⟨held, cyclic⟩

theorem removeCyclicChains_sound (distinct : (allHosts.map Host.id).Nodup) :
    Acyclic (JumpsTo (removeCyclicChains allHosts)) ∧
      ∀ host ∈ allHosts, ¬CycleSearch.LeadsToCycle (JumpsTo allHosts) host.id → host ∈ removeCyclicChains allHosts := by
  have cut {source hop : JsString} (jumps : JumpsTo (removeCyclicChains allHosts) source hop) :
      JumpsTo allHosts source hop ∧ ¬CycleSearch.LeadsToCycle (JumpsTo allHosts) source := by
    obtain ⟨host, mem, rfl, held⟩ := jumps
    obtain ⟨mem, straight⟩ := mem_of_removeCyclicChains mem (ne_nil_of_mem held)
    refine ⟨⟨host, mem, rfl, held⟩, fun leads => ?_⟩
    rw [(participatesInCycle_iff distinct).mpr leads] at straight
    cases straight
  refine ⟨CycleSearch.acyclic_of_cut cut, fun host mem clear => ?_⟩
  refine List.mem_map.mpr ⟨host, mem, if_neg fun cyclic => clear ?_⟩
  exact (participatesInCycle_iff distinct).mp (Bool.and_eq_true_iff.mp cyclic).2

theorem map_id_removeCyclicChains : (removeCyclicChains allHosts).map Host.id = allHosts.map Host.id := by
  rw [removeCyclicChains, List.map_map]
  refine map_congr_left fun host _ => ?_
  rw [Function.comp_apply]
  split
  · rfl
  · rfl

end Cut

/-- The first host resolves to a chain with the second, which does not name itself. -/
def ResolvesTo (resolved : List (JsString × List JsString)) (source hop : JsString) : Prop :=
  ∃ ids, (source, ids) ∈ resolved ∧ source ∉ ids ∧ hop ∈ ids

/-- Every chain leads to hosts of the import or of the vault, as its own cell resolves.  No host is
its own hop, directly or through others, and a chain that does not name its own host is kept unless
a circle is reached from it. -/
theorem chains_sound (tools : ImportTools) (existingHosts : List CsvJumpCandidate)
    (proxyJumpByHost : JsString → Option ProxyJumpCell) (imported : CsvHosts tools) (issues : List VaultImportIssue) :
    let result := (attachCsvProxyJumpChains tools existingHosts proxyJumpByHost imported issues).1
    let resolved := resolutions tools existingHosts proxyJumpByHost imported.hosts (imported.start issues)
    (∀ host ∈ result, ∀ hop ∈ host.hops, (hop ∈ result.map Host.id ∨ hop ∈ existingHosts.map CsvJumpCandidate.id) ∧
      (host.id, host.hops) ∈ resolved) ∧
    Acyclic (JumpsTo result) ∧
    ∀ source ids, (source, ids) ∈ resolved → source ∉ ids → ¬CycleSearch.LeadsToCycle (ResolvesTo resolved) source →
      ∃ host ∈ result, host.id = source ∧ host.hops = ids := by
  have start : (imported.start issues).Fits imported :=
    ⟨by rw [CsvHosts.start, append_nil], Nat.le_refl _, fun _ mem => (not_mem_nil mem).elim, nodup_nil,
      fun _ mem => (not_mem_nil mem).elim⟩
  obtain ⟨fits, -, same, known, chained, attached⟩ :=
    fits_attachHosts existingHosts proxyJumpByHost imported.hosts imported.unchained start
  unfold attachCsvProxyJumpChains
  dsimp only
  generalize resolutions tools existingHosts proxyJumpByHost imported.hosts (imported.start issues) = resolved at *
  generalize attachHosts tools existingHosts proxyJumpByHost imported.hosts (imported.start issues) = run at *
  have ids : (run.1 ++ run.2.inlineHosts).map Host.id = (imported.hosts ++ run.2.inlineHosts).map Host.id := by
    rw [map_append, map_append, same]
  have distinct : ((run.1 ++ run.2.inlineHosts).map Host.id).Nodup := ids ▸ fits.nodup
  have chained_of {host : Host} (mem : host ∈ run.1 ++ run.2.inlineHosts) (some_ : host.hops ≠ []) : host ∈ run.1 := by
    rcases mem_append.mp mem with mem | mem
    · exact mem
    · rw [Host.hops, fits.unchained host mem] at some_
      exact absurd rfl some_
  have resolves {source hop : JsString} (jumps : JumpsTo (run.1 ++ run.2.inlineHosts) source hop) :
      ResolvesTo resolved source hop := by
    obtain ⟨host, mem, rfl, held⟩ := jumps
    obtain ⟨mem, other⟩ := chained host (chained_of mem (ne_nil_of_mem held)) (ne_nil_of_mem held)
    exact ⟨host.hops, mem, other, held⟩
  obtain ⟨acyclic, kept⟩ := removeCyclicChains_sound distinct
  refine ⟨fun host mem hop held => ?_, acyclic, fun source chain mem other clear => ?_⟩
  · obtain ⟨mem, -⟩ := mem_of_removeCyclicChains mem (ne_nil_of_mem held)
    have mem := chained_of mem (ne_nil_of_mem held)
    refine ⟨?_, (chained host mem (ne_nil_of_mem held)).1⟩
    rw [map_id_removeCyclicChains, ids]
    exact mem_append.mp (known host mem held)
  · obtain ⟨host, held, rfl, hops⟩ := attached source chain mem other
    exact ⟨host, kept host (mem_append_left _ held) fun leads => clear (leads.mono resolves), rfl, hops⟩

/-! ## A bastion of the vault -/

def plainTools : ImportTools where
  toLowerCase source := source.map asciiLower
  ascii _ _ := rfl
  numberText _ := []
  parseUrl _ := none
  randomUUID n := List.replicate (n + 1) comma
  distinct n m same := by
    have := congrArg List.length same
    rw [List.length_replicate, List.length_replicate] at this
    omega
  named n := by
    rw [List.replicate_succ]
    exact List.cons_ne_nil _ _

/-- One imported host, at this address. -/
def loneHost (hostname : JsString) : CsvHosts plainTools where
  hosts := [plainHost (plainTools.randomUUID 0) hostname [] none]
  issued := 1
  made _ mem := ⟨0, Nat.one_pos, List.mem_singleton.mp mem ▸ rfl⟩
  distinct := List.nodup_singleton _
  unchained _ mem := List.mem_singleton.mp mem ▸ rfl

/-- A hop that is a host of the vault is kept, though the import does not bring it. -/
theorem vault_bastion_stays_outside : ∃ host ∈ (attachCsvProxyJumpChains plainTools
        [⟨text "vault", text "bastion", text "10.0.0.1", some 22, none, some (text "ssh"), none⟩]
        (fun _ => some ⟨text "bastion", 2⟩) (loneHost (text "10.0.0.2")) []).1,
      ∃ hop ∈ host.hops, hop ∉ (attachCsvProxyJumpChains plainTools
        [⟨text "vault", text "bastion", text "10.0.0.1", some 22, none, some (text "ssh"), none⟩]
        (fun _ => some ⟨text "bastion", 2⟩) (loneHost (text "10.0.0.2")) []).1.map Host.id := by
  decide +kernel

end Netcatty.VaultImport
