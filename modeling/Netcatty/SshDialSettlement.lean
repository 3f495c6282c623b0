import Netcatty.SshDialRuns

/-!
What settles a dial.

The promise of a leader is settled by the first completion or failure that carries its
handle, or by the shutdown of the pool, and by nothing else; what comes later leaves the
record as it is.
-/

namespace Netcatty

open List Option Bool
namespace DialPool

variable {M : Type}

/-- What a completion tells the waiters. -/
def completion (pool : DialPool) (transport : Option TransportRef) : DialSettlement :=
  match transport with
  | some t =>
    if pool.isHealthy (some t) then .resolve t
    else .reject (text "SSH dial completed without a healthy transport")
  | none => .reject (text "SSH dial completed without a healthy transport")

def settlementBy (pool : DialPool) (ref : DialRef) : DialEvent M → Option DialSettlement
  | .complete handle transport =>
    if pool.leaderRecord handle = some ref then some (pool.completion transport) else none
  | .fail handle reason =>
    if pool.leaderRecord handle = some ref then some (.reject reason.message) else none
  | .failAll reason => some (.reject reason)
  | _ => none

/-- A record after an event: only the first settlement counts. -/
def nextRecord (record : DialRecord) : Option DialSettlement → DialRecord
  | none => record
  | some settlement => if record.settled then record else settledRecord record settlement

variable {record : DialRecord}

theorem nextRecord_of_settled (settled : record.settled)
    (settlement : Option DialSettlement) : nextRecord record settlement = record := by
  cases settlement with
  | none => rfl
  | some settlement => exact if_pos settled

theorem nextRecord_settled (record : DialRecord) (settlement : DialSettlement) :
    (nextRecord record (some settlement)).settled := by
  unfold nextRecord
  dsimp only
  split
  · next settled => exact settled
  · rfl

variable {pool : DialPool}

variable {ref : DialRef}

section

variable (found : pool.records[ref]? = some record)
include found

theorem records_settleDial (other : DialRef) (settlement : DialSettlement) :
    (pool.settleDial other settlement).records[ref]? =
      some (if other = ref then nextRecord record (some settlement) else record) := by
  unfold settleDial
  split
  · next missing =>
    rw [if_neg]
    · exact found
    · rintro rfl
      exact some_ne_none _ (found.symm.trans missing)
  · next there known =>
    by_cases same : other = ref
    · subst same
      obtain rfl := Option.some.inj (found.symm.trans known)
      rw [if_pos rfl]
      by_cases settled : record.settled
      · rw [if_pos settled, nextRecord_of_settled settled]
        exact found
      · rw [if_neg settled, (removePendingDial_rest _ _ _).1]
        dsimp only
        rw [getElem?_set_self (List.getElem?_eq_some_iff.mp found).1]
        exact congrArg some (if_neg settled).symm
    · rw [if_neg same]
      split
      · exact found
      · rw [(removePendingDial_rest _ _ _).1]
        exact (getElem?_set_ne same).trans found

omit found in
theorem records_settleAll (refs : List DialRef)
    (settlement : DialSettlement) (found : pool.records[ref]? = some record) :
    (refs.foldl (fun pool ref => pool.settleDial ref settlement) pool).records[ref]? =
      some (if ref ∈ refs then nextRecord record (some settlement) else record) := by
  induction refs generalizing pool record with
  | nil => exact found
  | cons other rest ih =>
    rw [foldl_cons, ih (records_settleDial found other settlement)]
    by_cases same : other = ref
    · have settled := nextRecord_settled record settlement
      rw [if_pos same, nextRecord_of_settled settled, ite_self, same,
        if_pos mem_cons_self]
    · have mem : ref ∈ other :: rest ↔ ref ∈ rest := by
        rw [mem_cons, or_iff_right (Ne.symm same)]
      simp only [if_neg same, mem]

omit found in
theorem mem_pendingRefs {key : JsString} {ref : DialRef} (mem : ref ∈ pool.pendingAt key) :
    ref ∈ pool.pendingDialsByEndpoint.values.flatten := by
  unfold pendingAt at mem
  cases found : pool.pendingDialsByEndpoint.get? key with
  | none =>
    rw [found] at mem
    exact absurd mem not_mem_nil
  | some refs =>
    rw [found] at mem
    apply mem_flatten_of_mem ?_ mem
    exact List.mem_map_of_mem (OrderedMap.mem_entries.mpr found)

omit found in
theorem records_failAllPendingDials (h : DialInv pool)
    (found : pool.records[ref]? = some record) (reason : JsString) :
    (pool.failAllPendingDials reason).records[ref]? =
      some (nextRecord record (some (.reject reason))) := by
  have moved := records_settleAll pool.pendingDialsByEndpoint.values.flatten (.reject reason) found
  by_cases settled : record.settled
  · rw [nextRecord_of_settled settled, ite_self] at moved
    rw [nextRecord_of_settled settled]
    exact moved
  · have pending := h.unsettledPending ref record found (not_eq_true _ ▸ settled)
    rw [if_pos (mem_pendingRefs pending)] at moved
    exact moved

theorem records_failTransportDial (handle : ℕ) (reason : DialFailure) :
    (pool.failTransportDial handle reason).records[ref]? =
      some (nextRecord record (if pool.leaderRecord handle = some ref then
        some (.reject reason.message) else none)) := by
  unfold failTransportDial
  cases leads : pool.leaderRecord handle with
  | none =>
    rw [if_neg (some_ne_none ref).symm]
    exact found
  | some other =>
    dsimp only
    rw [records_settleDial found]
    by_cases same : other = ref
    · rw [if_pos same, if_pos (congrArg some same)]
    · rw [if_neg same, if_neg (mt Option.some.inj same)]
      rfl

theorem records_completeTransportDial (handle : ℕ) (transport : Option TransportRef) :
    (pool.completeTransportDial handle transport).records[ref]? =
      some (nextRecord record (if pool.leaderRecord handle = some ref then
        some (pool.completion transport) else none)) := by
  unfold completeTransportDial
  cases leads : pool.leaderRecord handle with
  | none =>
    rw [if_neg (some_ne_none ref).symm]
    exact found
  | some other =>
    dsimp only
    have unhealthy := records_failTransportDial found handle
      (.error (text "SSH dial completed without a healthy transport"))
    rw [leads] at unhealthy
    cases transport with
    | none => exact unhealthy
    | some t =>
      dsimp only [completion]
      by_cases healthy : pool.isHealthy (some t)
      · rw [if_pos healthy, if_pos healthy, records_settleDial found]
        by_cases same : other = ref
        · rw [if_pos same, if_pos (congrArg some same)]
        · rw [if_neg same, if_neg (mt Option.some.inj same)]
          rfl
      · rw [if_neg healthy, if_neg healthy]
        exact unhealthy

theorem records_beginTransportDial (digests : EndpointDigests M)
    (endpoint : Option (ConnectionEndpoint M)) (kind : ReuseKind) :
    (pool.beginTransportDial digests endpoint kind).records[ref]? = some record := by
  unfold beginTransportDial
  dsimp only
  split
  · exact found
  · split
    · exact found
    · split
      · exact found
      · split
        · exact found
        · exact (getElem?_append_left (List.getElem?_eq_some_iff.mp found).1).trans found

end

variable {randomUUID : ℕ → JsString}

/-- A step settles at most the dial of a leader that is told to, and that only once. -/
theorem step_records (h : DialInv pool)
    (found : pool.records[ref]? = some record) (event : DialEvent M) :
    (pool.step randomUUID event).records[ref]? =
      some (nextRecord record (pool.settlementBy ref event)) := by
  cases event with
  | registry event => exact found
  | begin digests endpoint kind => exact records_beginTransportDial found digests endpoint kind
  | complete handle transport => exact records_completeTransportDial found handle transport
  | fail handle reason => exact records_failTransportDial found handle reason
  | failAll reason => exact records_failAllPendingDials h found reason
  | wait handle signal =>
    unfold step waitForTransportDial
    dsimp only
    split <;> exact found
  | abortSignal waiter =>
    unfold step abortSignal
    dsimp only
    split
    · split <;> exact found
    · exact found
  | deliver digests waiter =>
    unfold step deliver
    dsimp only
    split
    · exact found
    · split
      · exact found
      · split
        · exact found
        · split <;> exact found

/-! ## Dials over a run -/

/-- Two dials that wait under one key do so because the first does not serve the other. -/
def SingleFlight (pool : DialPool) : Prop :=
  ∀ (i j : DialRef) (first later : DialRecord), i < j →
    pool.records[i]? = some first → pool.records[j]? = some later →
    first.settled = false → later.settled = false → first.endpointKey = later.endpointKey →
    endpointAllowsReuse later.endpoint first.endpoint later.kind = false

/-- A leader's dial is pending until it is settled once, and gone afterwards. -/
def SettlesOnce (pool : DialPool) : Prop :=
  (∀ (handle : ℕ) (ref : DialRef), pool.leaderRecord handle = some ref →
    ∃ record, pool.records[ref]? = some record) ∧
  ∀ (ref : DialRef) (record : DialRecord), pool.records[ref]? = some record →
    (record.settled = false ∧ record.settlements = [] ∧
      ref ∈ pool.pendingAt record.endpointKey) ∨
    (record.settled = true ∧ record.settlements.length = 1 ∧ ∀ key, ref ∉ pool.pendingAt key)

/-- Those who joined a dial receive the transport that was dialled for its leader, unless
they gave up before. -/
def JoinersReceive (M : Type) (pool : DialPool) : Prop :=
  ∀ (index : ℕ) (waiter : DialWaiter) (handle : Coordination) (ref : DialRef)
    (record : DialRecord) (transport : TransportRef),
    pool.waiters[index]? = some waiter → pool.handles[waiter.handle]? = some handle →
    handle.role = .join ref → pool.records[ref]? = some record →
    record.settlements = [.resolve transport] →
    pool.registry.endpoints[transport]? = some (some record.endpoint) →
    waiter.outcome ≠ some .incompatible ∧
      ∀ digests : EndpointDigests M, ∃ told,
        (pool.deliver digests index).waiters[index]? = some told ∧
        (told.outcome = some (.received transport) ∨
          waiter.outcome = some .cancelled ∧ told = waiter)

theorem DialInv.settlesOnce (h : DialInv pool) : pool.SettlesOnce := by
  constructor
  · intro handle ref leads
    unfold leaderRecord at leads
    split at leads
    · next endpoint kind found =>
      obtain rfl := Option.some.inj leads
      have bound := h.leaders handle _ _ found rfl
      exact ⟨_, getElem?_eq_getElem bound⟩
    · exact absurd leads.symm (some_ne_none ref)
  · intro ref record found
    have once := h.settledOnce ref record found
    by_cases settled : record.settled
    · rw [if_pos settled] at once
      refine Or.inr ⟨settled, once, ?_⟩
      intro key mem
      obtain ⟨there, known, unsettled, _⟩ := h.pendingRecord key ref mem
      obtain rfl := Option.some.inj (found.symm.trans known)
      exact Bool.noConfusion (settled.symm.trans unsettled)
    · rw [if_neg settled] at once
      have unsettled := not_eq_true _ ▸ settled
      exact Or.inl ⟨unsettled, once, h.unsettledPending ref record found unsettled⟩

theorem DialInv.joinersReceive (h : DialInv pool) : pool.JoinersReceive M := by
  intro index waiter handle ref record transport found named role known settled same
  have told := (h.told index waiter handle ref record found named role known).2
    transport [] settled same
  constructor
  · rintro wrong
    rw [wrong] at told
    rcases told with no | no | no <;> cases no
  · intro digests
    obtain ⟨there, endpoint, joined⟩ := h.joins waiter.handle handle ref named role
    obtain rfl := Option.some.inj (joined.found.symm.trans known)
    have delivered : pool.deliver digests index = pool.tellWaiter index (.received transport) := by
      have valid : pool.validateTransport digests handle transport = .received transport :=
        validateTransport_joined joined (h.normal ref there known) same
      have given : (CoordinationRole.record? handle.role).bind (fun ref => pool.records[ref]?) =
          some there := by
        rw [role]
        exact known
      unfold deliver
      rw [found]
      dsimp only
      rw [named]
      dsimp only
      rw [given]
      dsimp only
      rw [settled]
      dsimp only
      rw [valid]
    rw [delivered]
    let tell : DialWaiter → DialWaiter := fun waiter =>
      if waiter.outcome.isSome then waiter else { waiter with outcome := some (.received transport) }
    have after : (pool.tellWaiter index (.received transport)).waiters[index]? =
        some (tell waiter) := by
      change (pool.waiters.modify index tell)[index]? = _
      rw [getElem?_modify_eq, found]
      rfl
    refine ⟨tell waiter, after, ?_⟩
    rcases told with open_ | gone | received
    · left
      change (if waiter.outcome.isSome then waiter else _).outcome = _
      rw [open_]
      rfl
    · right
      refine ⟨gone, if_pos ?_⟩
      rw [gone]
      rfl
    · left
      change (if waiter.outcome.isSome then waiter else _).outcome = _
      rw [if_pos (received ▸ rfl)]
      exact received

/-- Whatever callers, transports and clocks do: no two dials where one would do, one
settlement for each leader, and no incompatibility for those who joined. -/
theorem dials_single_flight (registry : TransportRegistry) (events : List (DialEvent M)) :
    let pool := (initial registry).run randomUUID events
    pool.SingleFlight ∧ pool.SettlesOnce ∧
      (∀ (ref : DialRef) (record : DialRecord), pool.records[ref]? = some record →
        ∀ event : DialEvent M, (pool.step randomUUID event).records[ref]? =
          some (nextRecord record (pool.settlementBy ref event))) ∧
      pool.JoinersReceive M := by
  have h : DialInv ((initial registry).run randomUUID events) := run_inv (initial_inv registry) events
  exact ⟨h.singleFlight, h.settlesOnce, fun _ _ found event => step_records h found event,
    h.joinersReceive⟩

end DialPool
end Netcatty
