import Netcatty.ApprovalGateRuns

/-!
When the promises of the approval gate settle, and to what.
-/

namespace Netcatty.Approvals

namespace ApprovalGate

/-- Every promise settles once: when its entry is gone, and at the latest when the
hard deadline of its entry has passed and the entry's timer is not still to fire. -/
structure Settles (gate : ApprovalGate) : Prop where
  once : ∀ promise, (gate.outcomes promise).length ≤ 1
  onRemoval : ∀ (promise : ℕ) toolCallId, gate.promises[promise]? = some toolCallId →
    (∀ entry, gate.pendingApprovals.get? toolCallId = some entry →
      promise ∉ entry.resolve.promises) → gate.outcomes promise ≠ []
  inTime : ∀ (promise : ℕ) toolCallId entry owner scope,
    gate.promises[promise]? = some toolCallId →
    gate.pendingApprovals.get? toolCallId = some entry → promise ∈ entry.resolve.promises →
    entry.cancelTimeout = some owner → gate.scopes.get? owner = some scope →
    scope.hardDeadlineAt ≤ gate.now → (∀ due, gate.timers.get? owner = some due → gate.now < due) →
    gate.outcomes promise ≠ []

/-- What lets a promise settle to `true`: a rule granted its request, or the user
approved its tool call while it was pending. -/
def Approves (gate : ApprovalGate) (promise : ℕ) : ApprovalAction → Prop
  | .requestApproval _ _ granted => granted = true ∧ promise = gate.promises.length
  | .resolveApproval toolCallId approved =>
    approved = true ∧ gate.promises[promise]? = some toolCallId ∧ gate.outcomes promise = [] ∧
      ∃ entry, gate.pendingApprovals.get? toolCallId = some entry ∧
        promise ∈ entry.resolve.promises
  | _ => False

/-- Every step of a run keeps clear of the defects. -/
def MeetsAll (gate : ApprovalGate) : List ApprovalAction → Prop
  | [] => True
  | action :: rest => gate.Meets action ∧ (gate.step action).MeetsAll rest

variable {gate : ApprovalGate}

theorem Held.settles (held : gate.Held) : gate.Settles where
  once := held.once
  onRemoval promise toolCallId returned gone unsettled := by
    obtain ⟨entry, found, mem⟩ := held.waiting _ _ returned unsettled
    exact gone entry found mem
  inTime promise toolCallId entry owner scope returned found mem cancels recorded late fired := by
    have kept := held.kept _ _ found
    obtain ⟨scope', due, recorded', -, -, armed, bounded⟩ :=
      kept.timed owner (kept.owner.symm.trans cancels)
    obtain rfl : scope = scope' := Option.some.inj (recorded.symm.trans recorded')
    exact absurd (bounded.trans late) (not_le.mpr (fired due armed))

/-! ## Where an approval comes from -/

theorem mem_outcomes_settle {promise other : PromiseRef} {approved answer : Bool}
    (mem : answer ∈ (gate.settle other approved).outcomes promise) :
    answer ∈ gate.outcomes promise ∨ answer = approved ∧ promise = other := by
  rw [outcomes_settle, List.mem_append] at mem
  by_cases same : other = promise
  · simpa [same] using mem
  · exact Or.inl (by simpa [same] using mem)

theorem mem_outcomes_callResolve {promise : PromiseRef} {approved answer : Bool}
    {resolve : Resolver} (mem : answer ∈ (gate.callResolve approved resolve).outcomes promise) :
    answer ∈ gate.outcomes promise ∨ answer = approved ∧ promise ∈ resolve.promises := by
  induction resolve with
  | wrapped other =>
    rcases mem_outcomes_settle mem with old | ⟨same, rfl⟩
    · exact Or.inl old
    · exact Or.inr ⟨same, by simp [Resolver.promises]⟩
  | external => exact Or.inl mem
  | joined previousResolve other ih =>
    rcases mem_outcomes_settle mem with mem | ⟨same, rfl⟩
    · rcases ih mem with old | ⟨same, mem⟩
      · exact Or.inl old
      · exact Or.inr ⟨same, by simp [Resolver.promises, mem]⟩
    · exact Or.inr ⟨same, by simp [Resolver.promises]⟩

theorem denyTimedOut_true (gate : ApprovalGate) {promise owner : PromiseRef} {scope : ApprovalScope}
    (mem : true ∈ (gate.denyTimedOut owner scope).outcomes promise) :
    true ∈ gate.outcomes promise := by
  rw [denyTimedOut] at mem
  split at mem
  · exact mem
  · exact (mem_outcomes_settle mem).resolve_right (by simp)

theorem armTimer_true (gate : ApprovalGate) {promise owner : PromiseRef} {scope : ApprovalScope} {ms : ℚ}
    (mem : true ∈ (gate.armTimer owner scope ms).outcomes promise) :
    true ∈ gate.outcomes promise := by
  rw [armTimer] at mem
  split at mem
  · exact denyTimedOut_true (gate.clearTimer owner) mem
  · exact mem

theorem closeAll_true {promise : PromiseRef} {l : List (JsString × PendingApproval)}
    (mem : true ∈ (l.foldl (close · false) gate).outcomes promise) :
    true ∈ gate.outcomes promise := by
  induction l generalizing gate with
  | nil => exact mem
  | cons closed rest ih =>
    exact (mem_outcomes_callResolve (ih mem)).resolve_right (by simp)

theorem openRequest_true (gate : ApprovalGate) {promise owner : PromiseRef} {request : ApprovalRequest}
    {timeoutMs : Option ℚ}
    (mem : true ∈ (gate.openRequest owner request timeoutMs).outcomes promise) :
    true ∈ gate.outcomes promise :=
  armTimer_true { gate with scopes := gate.scopes.set owner _ } mem

theorem request_true {promise : PromiseRef} {request : ApprovalRequest} {timeoutMs : Option ℚ}
    {granted : Bool} (mem : true ∈ (gate.requestApproval request timeoutMs granted).outcomes promise) :
    true ∈ gate.outcomes promise ∨ granted ∧ promise = gate.promises.length := by
  rw [requestApproval] at mem
  cases granted with
  | true =>
    rcases mem_outcomes_settle mem with old | ⟨-, last⟩
    · exact Or.inl old
    · exact Or.inr ⟨rfl, last⟩
  | false =>
    refine Or.inl ?_
    cases found : gate.pendingApprovals.get? request.toolCallId with
    | some existing =>
      simp only [found, Bool.false_eq_true, if_false] at mem
      exact mem
    | none =>
      simp only [found, Bool.false_eq_true, if_false] at mem
      exact openRequest_true { gate with promises := gate.promises ++ [request.toolCallId] } mem

theorem step_true (held : gate.Held) {promise : ℕ} {action : ApprovalAction}
    (mem : true ∈ (gate.step action).outcomes promise) :
    true ∈ gate.outcomes promise ∨ gate.Approves promise action := by
  cases action with
  | requestApproval request timeoutMs granted => exact request_true mem
  | cancelApprovalTimeout toolCallId =>
    refine Or.inl ?_
    rw [ApprovalGate.step, cancelApprovalTimeout] at mem
    split at mem
    · exact mem
    · simp only [rearm] at mem
      split at mem <;> exact armTimer_true gate mem
  | resolveApproval toolCallId approved =>
    rw [ApprovalGate.step, resolveApproval] at mem
    cases found : gate.pendingApprovals.get? toolCallId with
    | none => exact Or.inl (by simpa [found] using mem)
    | some entry =>
      simp only [found] at mem
      rcases mem_outcomes_callResolve mem with old | ⟨same, waits⟩
      · exact Or.inl old
      · obtain ⟨returned, unsettled⟩ := (held.kept _ _ found).open_ promise waits
        exact Or.inr ⟨same.symm, returned, unsettled, entry, found, waits⟩
  | registerExternalApproval request =>
    rw [ApprovalGate.step, registerExternalApproval] at mem
    split at mem <;> exact Or.inl mem
  | clearPendingApprovalIds toolCallIds => exact Or.inl mem
  | clearAllPendingApprovals chatSessionId =>
    refine Or.inl ?_
    rw [ApprovalGate.step, clearAllPendingApprovals] at mem
    split at mem
    · have closed : true ∈ (gate.pendingApprovals.entries.foldl (close · false) gate).outcomes
          promise := by
        rw [foldl_close]
        exact mem
      exact closeAll_true closed
    · exact closeAll_true mem
  | timerFires owner =>
    refine Or.inl ?_
    rw [ApprovalGate.step, timerFires] at mem
    split at mem
    · split at mem
      · exact denyTimedOut_true (gate.clearTimer owner) mem
      · exact mem
    · exact mem
  | tick elapsed => exact Or.inl mem

/-! ## Runs -/

theorem Held.run (held : gate.Held) {actions : List ApprovalAction}
    (meets : gate.MeetsAll actions) : (gate.run actions).Held := by
  induction actions generalizing gate with
  | nil => exact held
  | cons action rest ih => exact ih (held.step meets.1) meets.2

theorem run_true (held : gate.Held) {actions : List ApprovalAction}
    (meets : gate.MeetsAll actions) {promise : ℕ}
    (approved : true ∈ (gate.run actions).outcomes promise) :
    true ∈ gate.outcomes promise ∨ ∃ before action after, actions = before ++ action :: after ∧
      (gate.run before).Approves promise action := by
  induction actions generalizing gate with
  | nil => exact Or.inl approved
  | cons action rest ih =>
    rcases ih (held.step meets.1) meets.2 approved with earlier | ⟨before, action', after, rfl, how⟩
    · rcases step_true held earlier with old | how
      · exact Or.inl old
      · exact Or.inr ⟨[], action, rest, rfl, how⟩
    · exact Or.inr ⟨action :: before, action', after, rfl, how⟩

/-- In a run that keeps clear of the defects, every promise settles once and in
time, and to `true` only if a rule granted it or the user approved it while it was
pending. -/
theorem approvals_settle_once (now : ℚ) (actions : List ApprovalAction)
    (meets : (initial now).MeetsAll actions) :
    ((initial now).run actions).Settles ∧
      ∀ promise, true ∈ ((initial now).run actions).outcomes promise →
        ∃ before action after, actions = before ++ action :: after ∧
          ((initial now).run before).Approves promise action := by
  refine ⟨((Held.initial now).run meets).settles, ?_⟩
  intro promise approved
  exact (run_true (Held.initial now) meets approved).resolve_left (by simp)

def sampleRequest : ApprovalRequest := ⟨text "call", none⟩

theorem approvals_settle_once_sample :
    ((initial 0).run [.requestApproval sampleRequest none false,
      .resolveApproval sampleRequest.toolCallId true]).Settles := by
  refine (approvals_settle_once 0 [.requestApproval sampleRequest none false,
    .resolveApproval sampleRequest.toolCallId true] ?_).1
  refine ⟨Or.inr (Or.inr ?_), trivial, trivial⟩
  intro ms same
  cases same

/-- Two requests for one tool call, which times out: the second promise settles
neither then nor later, for no entry has it. -/
theorem joined_request_is_lost :
    ¬ ∀ actions, ((initial 0).run actions).Settles := by
  intro settles
  have gone := (settles [.requestApproval sampleRequest none false,
    .requestApproval sampleRequest none false, .tick 300000, .timerFires 0]).onRemoval 1
    sampleRequest.toolCallId (by decide +kernel)
  refine gone ?_ (by decide +kernel)
  intro entry found
  have empty : (((initial 0).run [.requestApproval sampleRequest none false,
      .requestApproval sampleRequest none false, .tick 300000,
      .timerFires 0]).pendingApprovals.get? sampleRequest.toolCallId).isNone = true := by
    decide +kernel
  rw [found] at empty
  cases empty

end ApprovalGate

end Netcatty.Approvals
