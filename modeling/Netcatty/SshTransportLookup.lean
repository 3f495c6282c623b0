import Netcatty.SshTransportEndpoints

/-!
The lookup of a transport by endpoint, against the policy that says who may share one.

The lookup sees only the transports under the key of the request.  The key has the sudo mode
of SFTP in it; the policy for channels does not look at that.
-/

namespace Netcatty.TransportRegistry

open List Option

variable {randomUUID : ℕ → JsString} {r : TransportRegistry} {ref : TransportRef}
  {t : SshTransport} {endpoint existing : SshEndpoint} {kind : ReuseKind}

def AllHealthy (r : TransportRegistry) : Prop :=
  ∀ id ref t, r.transportsById.get? id = some ref → r.transport? ref = some t →
    r.isTransportSocketHealthy t

/-- A registered transport that the policy lets serve the request. -/
structure MayServe (r : TransportRegistry) (endpoint : SshEndpoint) (kind : ReuseKind)
    (t : SshTransport) (existing : SshEndpoint) : Prop where
  registered : ∃ id ref, r.transportsById.get? id = some ref ∧ r.transport? ref = some t
  connected : t.endpoint = some existing
  allowed : endpointAllowsReuse endpoint existing kind
  shells : kind = .shell → t.allowShellReuse

def LookupAgrees (r : TransportRegistry) (endpoint : SshEndpoint) (kind : ReuseKind) : Prop :=
  (r.findTransportByEndpoint (some endpoint) kind).2 = none →
    ∀ t existing, existing.hostId = endpoint.hostId → ¬r.MayServe endpoint kind t existing

/-- Where a transport of the profile in the other sudo mode may serve, one under the key of the
request may serve as well. -/
def OwnModeServes (r : TransportRegistry) (endpoint : SshEndpoint) (kind : ReuseKind) : Prop :=
  ∀ t existing, existing.hostId = endpoint.hostId → existing.sftpSudo ≠ endpoint.sftpSudo →
    r.MayServe endpoint kind t existing →
    ∃ t' existing', r.MayServe endpoint kind t' existing' ∧ existing'.key = endpoint.key

/-! ## Keys -/

/-- What the policy asks of two endpoints whatever the kind. -/
theorem sameTransportEndpoint_of_allowed (allowed : endpointAllowsReuse endpoint existing kind) :
    sameTransportEndpoint endpoint existing := by
  cases kind with
  | shell =>
    simp only [endpointAllowsReuse, sameEndpoint, decide_eq_true_eq, Bool.decide_and, Bool.and_eq_true] at allowed
    exact allowed.1.1
  | channel =>
    simp only [endpointAllowsReuse, decide_eq_true_eq, Bool.decide_and, Bool.and_eq_true] at allowed
    exact allowed.1

theorem key_eq_of_allowed (allowed : endpointAllowsReuse endpoint existing kind)
    (profile : existing.hostId = endpoint.hostId) (mode : existing.sftpSudo = endpoint.sftpSudo) :
    existing.key = endpoint.key := by
  have same := sameTransportEndpoint_of_allowed allowed
  simp only [sameTransportEndpoint, decide_eq_true_eq, Bool.decide_and, Bool.and_eq_true] at same
  obtain ⟨-, hostname, port, username, protocol, jump, proxy, auth, interval, count⟩ := same
  unfold SshEndpoint.key
  rw [profile, mode, hostname, port, username, protocol, jump, proxy, auth, interval, count]

/-! ## The lookup -/

theorem isCandidate_iff (healthy : r.isTransportSocketHealthy t) (connected : t.endpoint = some existing) :
    isCandidate endpoint kind t ↔
      endpointAllowsReuse endpoint existing kind ∧ (kind = .shell → t.allowShellReuse) := by
  have open_ : t.state = .live ∨ t.state = .idle := by
    unfold isTransportSocketHealthy at healthy
    cases state : t.state <;> cases conn : t.conn <;> simp [state, conn] at healthy ⊢
  simp only [isCandidate, connected, all_some, open_, true_and, decide_eq_true_eq]
  constructor
  · rintro ⟨shells, allowed⟩
    refine ⟨allowed, fun shell => ?_⟩
    by_contra forbidden
    exact shells ⟨shell, forbidden⟩
  · rintro ⟨allowed, shells⟩
    exact ⟨fun forbidden => forbidden.2 (shells forbidden.1), allowed⟩

theorem foldl_collectCandidate (healthy : AllHealthy r) (ids : List JsString) (found : List TransportRef) :
    (ids.foldl (collectCandidate endpoint kind) (r, found)).1 = r ∧
      ∀ ref, ref ∈ (ids.foldl (collectCandidate endpoint kind) (r, found)).2 ↔
        ref ∈ found ∨ ∃ id ∈ ids, ∃ t, r.transportsById.get? id = some ref ∧
          r.transport? ref = some t ∧ isCandidate endpoint kind t := by
  induction ids generalizing found with
  | nil => exact ⟨rfl, fun ref => by simp⟩
  | cons id rest ih =>
    rw [foldl_cons]
    have skips : collectCandidate endpoint kind (r, found) id = (r, found) →
        (∀ ref t, r.transportsById.get? id = some ref → r.transport? ref = some t →
          ¬isCandidate endpoint kind t) →
        (rest.foldl (collectCandidate endpoint kind) (collectCandidate endpoint kind (r, found) id)).1 = r ∧
          ∀ ref, ref ∈ (rest.foldl (collectCandidate endpoint kind)
              (collectCandidate endpoint kind (r, found) id)).2 ↔
            ref ∈ found ∨ ∃ other ∈ id :: rest, ∃ t, r.transportsById.get? other = some ref ∧
              r.transport? ref = some t ∧ isCandidate endpoint kind t := by
      intro same none_
      rw [same]
      refine ⟨(ih found).1, fun ref => ?_⟩
      rw [(ih found).2]
      constructor
      · rintro (old | ⟨other, mem, rest⟩)
        · exact .inl old
        · exact .inr ⟨other, mem_cons_of_mem _ mem, rest⟩
      · rintro (old | ⟨other, mem, t, byId, at_, candidate⟩)
        · exact .inl old
        · rcases mem_cons.mp mem with rfl | mem
          · exact absurd candidate (none_ ref t byId at_)
          · exact .inr ⟨other, mem, t, byId, at_, candidate⟩
    cases byId : r.transportsById.get? id with
    | none =>
      apply skips
      · unfold collectCandidate
        rw [byId]
      · intro ref t found
        rw [byId] at found
        cases found
    | some ref =>
      cases mem : r.transport? ref with
      | none =>
        apply skips
        · unfold collectCandidate
          simp only [byId, mem]
        · intro other t found at_
          rw [byId, some_inj] at found
          rw [← found, mem] at at_
          cases at_
      | some t =>
        have fine := healthy id ref t byId mem
        by_cases candidate : isCandidate endpoint kind t = true
        · have noted : collectCandidate endpoint kind (r, found) id = (r, found ++ [ref]) := by
            unfold collectCandidate
            simp only [byId, mem, fine, Bool.not_true, Bool.false_eq_true, if_false, candidate, if_true]
          rw [noted]
          refine ⟨(ih _).1, fun other => ?_⟩
          rw [(ih _).2, mem_append, mem_singleton]
          constructor
          · rintro ((old | rfl) | ⟨other', mem', rest⟩)
            · exact .inl old
            · exact .inr ⟨id, mem_cons_self, t, byId, mem, candidate⟩
            · exact .inr ⟨other', mem_cons_of_mem _ mem', rest⟩
          · rintro (old | ⟨other', mem', t', byId', at_, candidate'⟩)
            · exact .inl (.inl old)
            · rcases mem_cons.mp mem' with rfl | mem'
              · rw [byId, some_inj] at byId'
                exact .inl (.inr byId'.symm)
              · exact .inr ⟨other', mem', t', byId', at_, candidate'⟩
        · apply skips
          · unfold collectCandidate
            simp only [byId, mem, fine, Bool.not_true, Bool.false_eq_true, if_false, candidate]
          · intro other t' found at_
            rw [byId, some_inj] at found
            rw [← found, mem, some_inj] at at_
            exact at_ ▸ candidate

theorem findTransportByEndpoint_isSome_iff (well : WellFormed randomUUID r) (keyed : Keyed r)
    (healthy : AllHealthy r) (endpoint : SshEndpoint) (kind : ReuseKind) :
    (r.findTransportByEndpoint (some endpoint) kind).2 ≠ none ↔
      ∃ t existing, r.MayServe endpoint kind t existing ∧ existing.key = endpoint.key := by
  have listed : (∃ id ∈ r.idsAt endpoint.key, ∃ ref t, r.transportsById.get? id = some ref ∧
      r.transport? ref = some t ∧ isCandidate endpoint kind t) ↔
      ∃ t existing, r.MayServe endpoint kind t existing ∧ existing.key = endpoint.key := by
    constructor
    · rintro ⟨id, mem, ref, t, byId, at_, candidate⟩
      obtain ⟨other, t', at', named, -, filed⟩ := (well.byEndpoint endpoint.key id).mp mem
      obtain ⟨t'', at'', named', -⟩ := (well.byId id ref).mp byId
      have same : other = ref := well.identified other ref t' t'' at' at'' (named.trans named'.symm)
      rw [same, at_, some_inj] at at'
      rw [← at', keyed.transport at_] at filed
      cases connected : t.endpoint with
      | none =>
        rw [connected] at filed
        cases filed
      | some existing =>
        rw [connected] at filed
        obtain ⟨allowed, shells⟩ := (isCandidate_iff (healthy id ref t byId at_) connected).mp candidate
        exact ⟨t, existing, ⟨⟨id, ref, byId, at_⟩, connected, allowed, shells⟩, Option.some.inj filed⟩
    · rintro ⟨t, existing, ⟨⟨id, ref, byId, at_⟩, connected, allowed, shells⟩, filed⟩
      have candidate := (isCandidate_iff (healthy id ref t byId at_) connected).mpr ⟨allowed, shells⟩
      obtain ⟨t', at', named, alive⟩ := (well.byId id ref).mp byId
      rw [at_, some_inj] at at'
      refine ⟨id, (well.byEndpoint endpoint.key id).mpr ⟨ref, t, at_, at' ▸ named, at' ▸ alive, ?_⟩,
        ref, t, byId, at_, candidate⟩
      rw [keyed.transport at_, connected, ← filed]
      rfl
  rw [← listed]
  unfold findTransportByEndpoint idsAt
  cases filed : r.transportIdsByEndpoint.get? endpoint.key with
  | none =>
    simp only [filed, getD_none, not_mem_nil, false_and, exists_false, ne_eq, not_true_eq_false]
  | some ids =>
    obtain ⟨same, noted⟩ := @foldl_collectCandidate r endpoint kind healthy ids []
    have members : ∀ ref, ref ∈ ((ids.foldl (collectCandidate endpoint kind) (r, [])).2.mergeSort
        (ids.foldl (collectCandidate endpoint kind) (r, [])).1.candidateLe) ↔
        ∃ id ∈ ids, ∃ t, r.transportsById.get? id = some ref ∧ r.transport? ref = some t ∧
          isCandidate endpoint kind t := by
      intro ref
      rw [mem_mergeSort, noted]
      simp
    simp only [filed, getD_some]
    split
    · next empty =>
      refine ⟨fun found => absurd rfl found, ?_⟩
      rintro ⟨id, mem, ref, t, byId, at_, candidate⟩
      have here := (members ref).mpr ⟨id, mem, t, byId, at_, candidate⟩
      rw [empty] at here
      cases here
    · next selected _ sorted =>
      have here := (members selected).mp (sorted ▸ mem_cons_self)
      obtain ⟨id, mem, t, byId, at_, candidate⟩ := here
      refine ⟨fun _ => ⟨id, mem, selected, t, byId, at_, candidate⟩, fun _ => ?_⟩
      split
      · exact some_ne_none _
      · exact some_ne_none _

/-- In every state a run reaches, with all transports healthy, the lookup by key agrees with the
policy exactly if no transport in the other sudo mode would be needed. -/
theorem lookup_agrees_iff (distinct : Function.Injective randomUUID) (holders : HolderRef → LeaseHolder)
    (connections : ConnectionRef → SshConnection) (defaultIdleTtlMs : ℚ) (maxIdleTransports : ℕ)
    (events : List RegistryEvent)
    (reached : r = (initial holders connections defaultIdleTtlMs maxIdleTransports).run randomUUID events)
    (healthy : AllHealthy r) (endpoint : SshEndpoint) (kind : ReuseKind) :
    LookupAgrees r endpoint kind ↔ OwnModeServes r endpoint kind := by
  have well : WellFormed randomUUID r := by
    rw [reached]
    exact (wellFormed_initial holders connections defaultIdleTtlMs maxIdleTransports).run distinct events
  have keyed : Keyed r := by
    have none_ : Keyed (initial holders connections defaultIdleTtlMs maxIdleTransports) := by
      intro route mem
      cases mem
    rw [reached]
    exact none_.run events
  have finds := findTransportByEndpoint_isSome_iff well keyed healthy endpoint kind
  constructor
  · intro agrees t existing profile _ serves
    exact finds.mp fun missed => agrees missed t existing profile serves
  · intro own missed t existing profile serves
    by_cases mode : existing.sftpSudo = endpoint.sftpSudo
    · exact finds.mpr ⟨t, existing, serves, key_eq_of_allowed serves.allowed profile mode⟩ missed
    · exact finds.mpr (own t existing profile mode serves) missed

def sudoHost (sftpSudo : Bool) : SshEndpoint where
  hostId := text "host-1"
  hostname := text "sudo.example"
  port := 22
  username := text "root"
  protocol := text "ssh"
  sftpSudo := sftpSudo
  singleChannelSsh := false
  jumpFingerprint := text "-"
  proxyFingerprint := text "-"
  authFingerprint := text "4d967a30111bf29f"
  agentForwarding := false
  forwardingAgentFingerprint := text "-"
  keepaliveIntervalMs := 10000
  keepaliveCountMax := 3

def terminalConnects : List RegistryEvent := [.createTransport ⟨some 0, [], some (sudoHost false), none⟩]

theorem terminal_healthy : AllHealthy (smallRegistry.run sampleUUID terminalConnects) := by
  intro id ref t byId mem
  cases ref with
  | zero =>
    cases mem
    decide
  | succ ref => cases mem

/-- The terminal is found for a file transfer without sudo. -/
theorem lookup_agrees_without_sudo : AllHealthy (smallRegistry.run sampleUUID terminalConnects) ∧
      LookupAgrees (smallRegistry.run sampleUUID terminalConnects) (sudoHost false) .channel := by
  refine ⟨terminal_healthy, ?_⟩
  refine (lookup_agrees_iff sampleUUID_injective _ _ _ _ terminalConnects rfl terminal_healthy _ _).mpr ?_
  rintro t existing - mode serves
  obtain ⟨id, ref, -, mem⟩ := serves.registered
  have connected := serves.connected
  cases ref with
  | zero =>
    cases mem
    exact absurd (Option.some.inj connected ▸ rfl) mode
  | succ ref => cases mem

/-- A file transfer with sudo may use the terminal, and does not find it. -/
theorem lookup_hides_terminal : AllHealthy (smallRegistry.run sampleUUID terminalConnects) ∧
      ¬LookupAgrees (smallRegistry.run sampleUUID terminalConnects) (sudoHost true) .channel := by
  refine ⟨terminal_healthy, fun agrees => ?_⟩
  have missed : ((smallRegistry.run sampleUUID terminalConnects).findTransportByEndpoint
      (some (sudoHost true)) .channel).2 = none := by decide +kernel
  refine agrees missed _ (sudoHost false) rfl ⟨⟨sampleUUID 0, 0, ?_, rfl⟩, rfl, ?_, ?_⟩
  · decide +kernel
  · decide +kernel
  · intro shell
    cases shell

end Netcatty.TransportRegistry
