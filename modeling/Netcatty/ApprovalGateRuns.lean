import Mathlib.Tactic.Linarith
import Netcatty.ApprovalGate

/-!
What every run of the approval gate keeps.

A promise that no call settled is among those its entry's `resolve` settles, and
an entry with a time-out has its timer armed, no later than the hard deadline of
the request that made it.  Both fail once a time-out denies an entry another
request joined, for `denyTimedOut` calls the `wrappedResolve` of its own scope and
not the entry's `resolve`; once `clearPendingApprovalIds` drops an entry that has
promises; and for an entry made with no time to wait.
-/

namespace Netcatty.Approvals

open List Option OrderedMap Bool

namespace ApprovalGate

/-- An entry, with the promises its `resolve` settles and the timer that denies it. -/
structure Kept (gate : ApprovalGate) (toolCallId : JsString) (entry : PendingApproval) : Prop where
  nodup : entry.resolve.promises.Nodup
  open_ : ∀ promise ∈ entry.resolve.promises,
    gate.promises[promise]? = some toolCallId ∧ gate.outcomes promise = []
  owner : entry.cancelTimeout = entry.resolve.base
  timed : ∀ promise, entry.resolve.base = some promise →
    ∃ scope due, gate.scopes.get? promise = some scope ∧ scope.toolCallId = toolCallId ∧
      0 < scope.idleMs ∧ gate.timers.get? promise = some due ∧ due ≤ scope.hardDeadlineAt

/-- Every unsettled promise belongs to an entry, and every timer to its own. -/
structure Held (gate : ApprovalGate) : Prop where
  kept : ∀ toolCallId entry, gate.pendingApprovals.get? toolCallId = some entry →
    gate.Kept toolCallId entry
  waiting : ∀ (promise : ℕ) toolCallId, gate.promises[promise]? = some toolCallId →
    gate.outcomes promise = [] → ∃ entry,
      gate.pendingApprovals.get? toolCallId = some entry ∧ promise ∈ entry.resolve.promises
  once : ∀ promise, (gate.outcomes promise).length ≤ 1
  known : ∀ promise : ℕ, gate.outcomes promise ≠ [] → promise < gate.promises.length
  timers : ∀ promise due, gate.timers.get? promise = some due →
    ∃ scope entry, gate.scopes.get? promise = some scope ∧
      gate.pendingApprovals.get? scope.toolCallId = some entry ∧
      entry.resolve.base = some promise

/-! ## What the callbacks change -/

@[simp] theorem outcomes_initial (now : ℚ) (promise : PromiseRef) :
    (initial now).outcomes promise = [] := rfl

@[simp] theorem outcomes_settle (gate : ApprovalGate) (promise other : PromiseRef)
    (approved : Bool) : (gate.settle promise approved).outcomes other =
      gate.outcomes other ++ if promise = other then [approved] else [] := by
  by_cases same : promise = other <;> simp [outcomes, settle, same]

variable {gate : ApprovalGate}

/-- A callback settles its promises with the answer it is given. -/
theorem outcomes_callResolve {approved : Bool} {resolve : Resolver}
    (nodup : resolve.promises.Nodup) (promise : PromiseRef) :
    (gate.callResolve approved resolve).outcomes promise =
      gate.outcomes promise ++ if promise ∈ resolve.promises then [approved] else [] := by
  induction resolve with
  | wrapped other =>
    rw [callResolve, wrappedResolve, outcomes_settle]
    simp only [Resolver.promises, mem_singleton, eq_comm]
    rfl
  | external => simp [callResolve, Resolver.promises]
  | joined previousResolve other ih =>
    simp only [Resolver.promises, nodup_append, mem_singleton, mem_append] at nodup ⊢
    rw [callResolve, outcomes_settle, ih nodup.1]
    by_cases same : other = promise
    · have fresh : promise ∉ previousResolve.promises := fun mem => nodup.2.2 _ mem _ same.symm rfl
      simp [same, fresh]
    · simp [same, Ne.symm same]

theorem callResolve_rest (gate : ApprovalGate) (approved : Bool) (resolve : Resolver) :
    (gate.callResolve approved resolve).now = gate.now ∧
      (gate.callResolve approved resolve).pendingApprovals = gate.pendingApprovals ∧
      (gate.callResolve approved resolve).promises = gate.promises ∧
      (gate.callResolve approved resolve).scopes = gate.scopes ∧
      (gate.callResolve approved resolve).timers =
        resolve.base.elim gate.timers gate.timers.delete := by
  induction resolve with
  | wrapped other => exact ⟨rfl, rfl, rfl, rfl, rfl⟩
  | external => exact ⟨rfl, rfl, rfl, rfl, rfl⟩
  | joined previousResolve other ih => exact ih

theorem get?_timers_callResolve (approved : Bool) (resolve : Resolver) (promise : PromiseRef) :
    (gate.callResolve approved resolve).timers.get? promise =
      if resolve.base = some promise then none else gate.timers.get? promise := by
  rw [(callResolve_rest gate approved resolve).2.2.2.2]
  cases resolve.base with
  | none => simp
  | some owner => simp [eq_comm]

/-! ## Each change keeps the invariant -/

theorem Held.initial (now : ℚ) : (initial now).Held where
  kept _ _ found := by simp [ApprovalGate.initial] at found
  waiting promise _ found := by simp [ApprovalGate.initial] at found
  once _ := by simp
  known _ settled := absurd (outcomes_initial _ _) settled
  timers _ _ armed := by simp [ApprovalGate.initial] at armed

section

variable (held : gate.Held)
include held

theorem Held.fresh : gate.outcomes gate.promises.length = [] := by
  by_contra settled
  exact Nat.lt_irrefl _ (held.known _ settled)

theorem Held.close {toolCallId : JsString} {entry : PendingApproval}
    (found : gate.pendingApprovals.get? toolCallId = some entry) (approved : Bool) :
    (gate.close approved (toolCallId, entry)).Held := by
  have mine := held.kept _ _ found
  obtain ⟨-, pending, promises, scopes, -⟩ := callResolve_rest
    { gate with pendingApprovals := gate.pendingApprovals.delete toolCallId } approved entry.resolve
  have outcomes : ∀ promise, (gate.close approved (toolCallId, entry)).outcomes promise =
      gate.outcomes promise ++ if promise ∈ entry.resolve.promises then [approved] else [] :=
    outcomes_callResolve mine.nodup
  have timers : ∀ promise, (gate.close approved (toolCallId, entry)).timers.get? promise =
      if entry.resolve.base = some promise then none else gate.timers.get? promise :=
    get?_timers_callResolve approved entry.resolve
  have get : ∀ x, (gate.close approved (toolCallId, entry)).pendingApprovals.get? x =
      if x = toolCallId then none else gate.pendingApprovals.get? x := by
    intro x
    rw [ApprovalGate.close, pending]
    exact get?_delete _ _ _
  constructor
  · intro x e foundX
    rw [get] at foundX
    have other : x ≠ toolCallId := by
      rintro rfl
      simp at foundX
    rw [if_neg other] at foundX
    have theirs := held.kept _ _ foundX
    have apart : ∀ promise ∈ e.resolve.promises, promise ∉ entry.resolve.promises := by
      intro promise mem mem'
      have same := (theirs.open_ _ mem).1.symm.trans (mine.open_ _ mem').1
      exact other (Option.some.inj same)
    refine ⟨theirs.nodup, ?_, theirs.owner, ?_⟩
    · intro promise mem
      obtain ⟨returned, unsettled⟩ := theirs.open_ promise mem
      refine ⟨?_, ?_⟩
      · rw [ApprovalGate.close, promises]
        exact returned
      · rw [outcomes, if_neg (apart _ mem), append_nil]
        exact unsettled
    · intro promise owner
      obtain ⟨scope, due, recorded, same, positive, armed, bounded⟩ := theirs.timed promise owner
      refine ⟨scope, due, ?_, same, positive, ?_, bounded⟩
      · rw [ApprovalGate.close, scopes]
        exact recorded
      · have away : entry.resolve.base ≠ some promise := fun mine' =>
          apart _ (Resolver.base_mem owner) (Resolver.base_mem mine')
        rw [timers, if_neg away]
        exact armed
  · intro promise x returned unsettled
    rw [ApprovalGate.close, promises] at returned
    rw [outcomes] at unsettled
    obtain ⟨unsettled', absent⟩ := append_eq_nil_iff.mp unsettled
    obtain ⟨e, foundX, mem⟩ := held.waiting promise x returned unsettled'
    refine ⟨e, ?_, mem⟩
    rw [get, if_neg, foundX]
    rintro rfl
    obtain rfl : e = entry := Option.some.inj (foundX.symm.trans found)
    simp [mem] at absent
  · intro promise
    rw [outcomes]
    by_cases mem : promise ∈ entry.resolve.promises
    · simp [(mine.open_ _ mem).2, mem]
    · simpa [mem] using held.once promise
  · intro promise settled
    rw [ApprovalGate.close, promises]
    by_cases mem : promise ∈ entry.resolve.promises
    · exact (List.getElem?_eq_some_iff.mp (mine.open_ _ mem).1).1
    · apply held.known promise
      intro unsettled
      rw [outcomes, if_neg mem, append_nil] at settled
      exact settled unsettled
  · intro promise due armed
    rw [timers] at armed
    split at armed
    · cases armed
    · rename_i away
      obtain ⟨scope, e, recorded, foundX, owner⟩ := held.timers promise due armed
      refine ⟨scope, e, ?_, ?_, owner⟩
      · rw [ApprovalGate.close, scopes]
        exact recorded
      · rw [get, if_neg, foundX]
        intro same
        rw [same] at foundX
        obtain rfl : e = entry := Option.some.inj (foundX.symm.trans found)
        exact away owner

omit held in
theorem close_pending (gate : ApprovalGate) (approved : Bool) (closed : JsString × PendingApproval)
    (x : JsString) : (gate.close approved closed).pendingApprovals.get? x =
      if x = closed.1 then none else gate.pendingApprovals.get? x := by
  rw [ApprovalGate.close, (callResolve_rest _ _ _).2.1]
  exact get?_delete _ _ _

theorem Held.closeAll (approved : Bool) {l : List (JsString × PendingApproval)}
    (keys : (l.map Prod.fst).Nodup)
    (found : ∀ closed ∈ l, gate.pendingApprovals.get? closed.1 = some closed.2) :
    (l.foldl (ApprovalGate.close · approved) gate).Held := by
  induction l generalizing gate with
  | nil => exact held
  | cons closed rest ih =>
    obtain ⟨first, later⟩ := nodup_cons.mp keys
    refine ih (held.close (found closed (by simp)) approved) later ?_
    intro other mem
    have apart : other.1 ≠ closed.1 := by
      intro same
      exact first (same ▸ List.mem_map_of_mem mem)
    rw [close_pending, if_neg apart]
    exact found other (by simp [mem])

theorem Held.rearmed {owner : PromiseRef} {scope : ApprovalScope}
    {entry : PendingApproval} {due : ℚ} (recorded : gate.scopes.get? owner = some scope)
    (found : gate.pendingApprovals.get? scope.toolCallId = some entry)
    (mine : entry.resolve.base = some owner) (bounded : due ≤ scope.hardDeadlineAt) :
    ({ gate with timers := (gate.timers.delete owner).set owner due } : ApprovalGate).Held where
  __ := held
  kept toolCallId e foundX := by
    have theirs := held.kept _ _ foundX
    refine ⟨theirs.nodup, theirs.open_, theirs.owner, ?_⟩
    intro promise theirs'
    obtain ⟨scope', due', recorded', same, positive, armed, bounded'⟩ := theirs.timed promise theirs'
    by_cases again : promise = owner
    · subst again
      obtain rfl : scope = scope' := Option.some.inj (recorded.symm.trans recorded')
      exact ⟨scope, due, recorded, same, positive, by simp, bounded⟩
    · exact ⟨scope', due', recorded', same, positive, by simp [again, armed], bounded'⟩
  timers promise due' armed := by
    by_cases again : promise = owner
    · subst again
      exact ⟨scope, entry, recorded, found, mine⟩
    · exact held.timers promise due' (by simpa [again] using armed)

theorem Held.frame {pending : OrderedMap JsString PendingApproval}
    (come : ∀ toolCallId entry, pending.get? toolCallId = some entry →
      gate.pendingApprovals.get? toolCallId = some entry ∨
        entry.resolve = .external ∧ entry.cancelTimeout = none)
    (go : ∀ toolCallId entry, gate.pendingApprovals.get? toolCallId = some entry →
      pending.get? toolCallId = some entry ∨ entry.resolve.promises = []) :
    ({ gate with pendingApprovals := pending } : ApprovalGate).Held where
  __ := held
  kept toolCallId entry found := by
    rcases come toolCallId entry found with found | ⟨bare, untimed⟩
    · obtain ⟨nodup, unsettled, owner, timed⟩ := held.kept _ _ found
      exact ⟨nodup, unsettled, owner, timed⟩
    · refine ⟨?_, ?_, ?_, ?_⟩ <;> simp [bare, untimed, Resolver.promises, Resolver.base]
  waiting promise toolCallId returned unsettled := by
    obtain ⟨entry, found, mem⟩ := held.waiting promise toolCallId returned unsettled
    rcases go _ _ found with found | empty
    · exact ⟨entry, found, mem⟩
    · simp [empty] at mem
  timers promise due armed := by
    obtain ⟨scope, entry, recorded, found, owner⟩ := held.timers promise due armed
    rcases go _ _ found with found | empty
    · exact ⟨scope, entry, recorded, found, owner⟩
    · have mem := Resolver.base_mem owner
      simp [empty] at mem

/-! ## Steps -/

omit held in
theorem idle_pos {timeoutMs : Option ℚ} (positive : ∀ ms, timeoutMs = some ms → 0 < ms) :
    0 < (resolveCattyApprovalDeadlines timeoutMs).idleMs := by
  apply lt_max_of_lt_right
  cases timeoutMs with
  | none => norm_num [CATTY_APPROVAL_TIMEOUT_MS]
  | some ms => exact positive ms rfl

theorem Held.openRequest {request : ApprovalRequest} {timeoutMs : Option ℚ}
    (positive : ∀ ms, timeoutMs = some ms → 0 < ms)
    (absent : gate.pendingApprovals.get? request.toolCallId = none) :
    (({ gate with promises := gate.promises ++ [request.toolCallId] } : ApprovalGate).openRequest
      gate.promises.length request timeoutMs).Held := by
  have waits := idle_pos positive
  have capped : (resolveCattyApprovalDeadlines timeoutMs).idleMs ≤
      (resolveCattyApprovalDeadlines timeoutMs).hardDeadlineMs := le_max_left ..
  have arms := not_le.mpr waits
  simp only [ApprovalGate.openRequest, armTimer, arms, if_false, clearTimer]
  generalize fresh : (resolveCattyApprovalDeadlines timeoutMs).idleMs = idleMs at *
  generalize (resolveCattyApprovalDeadlines timeoutMs).hardDeadlineMs = hardDeadlineMs at *
  have delay := timerDelay_le waits
  have old : ∀ promise toolCallId, gate.promises[promise]? = some toolCallId →
      promise ≠ gate.promises.length := by
    intro promise toolCallId returned same
    simp [same] at returned
  constructor
  · intro toolCallId entry found
    by_cases mine : toolCallId = request.toolCallId
    · subst mine
      simp only [OrderedMap.get?_set, if_true, Option.some.injEq] at found
      subst found
      refine ⟨by simp [Resolver.promises], ?_, rfl, ?_⟩
      · intro promise mem
        obtain rfl : promise = gate.promises.length := by simpa [Resolver.promises] using mem
        exact ⟨by simp, held.fresh⟩
      · intro promise owner
        obtain rfl : gate.promises.length = promise := Option.some.inj owner
        refine ⟨⟨request.toolCallId, idleMs, gate.now + hardDeadlineMs⟩,
          gate.now + timerDelay idleMs, by simp, rfl, waits, by simp, ?_⟩
        simp only
        linarith
    · simp only [OrderedMap.get?_set, mine, if_false] at found
      obtain ⟨nodup, unsettled, owner, timed⟩ := held.kept _ _ found
      refine ⟨nodup, ?_, owner, ?_⟩
      · intro promise mem
        obtain ⟨returned, free⟩ := unsettled promise mem
        exact ⟨getElem?_append_left (List.getElem?_eq_some_iff.mp returned).1 ▸ returned, free⟩
      · intro promise theirs
        obtain ⟨scope, due, recorded, same, positive, armed, bounded⟩ := timed promise theirs
        have apart := old _ _ (unsettled promise (Resolver.base_mem theirs)).1
        exact ⟨scope, due, by simp [apart, recorded], same, positive, by simp [apart, armed], bounded⟩
  · intro promise toolCallId returned unsettled
    by_cases last : promise = gate.promises.length
    · subst last
      obtain rfl : request.toolCallId = toolCallId := by simpa using returned
      exact ⟨⟨.wrapped gate.promises.length, request, some gate.promises.length⟩, by simp,
        by simp [Resolver.promises]⟩
    · have returned' : gate.promises[promise]? = some toolCallId := by
        have bound := (List.getElem?_eq_some_iff.mp returned).1
        simp only [length_append, length_singleton] at bound
        rwa [getElem?_append_left (by omega)] at returned
      obtain ⟨entry, found, mem⟩ := held.waiting _ _ returned' unsettled
      refine ⟨entry, ?_, mem⟩
      have apart : toolCallId ≠ request.toolCallId := by
        rintro rfl
        simp [absent] at found
      simpa [apart] using found
  · exact held.once
  · intro promise settled
    have := held.known promise settled
    simp only [length_append]
    omega
  · intro promise due armed
    by_cases last : promise = gate.promises.length
    · subst last
      exact ⟨⟨request.toolCallId, idleMs, gate.now + hardDeadlineMs⟩,
        ⟨.wrapped gate.promises.length, request, some gate.promises.length⟩, by simp, by simp, rfl⟩
    · simp only [OrderedMap.get?_set, get?_delete, last, if_false] at armed
      obtain ⟨scope, entry, recorded, found, owner⟩ := held.timers promise due armed
      refine ⟨scope, entry, by simp [last, recorded], ?_, owner⟩
      have apart : scope.toolCallId ≠ request.toolCallId := by
        intro same
        simp [same, absent] at found
      simpa [apart] using found

theorem Held.join {toolCallId : JsString} {existing : PendingApproval}
    (found : gate.pendingApprovals.get? toolCallId = some existing) :
    ({ gate with
      promises := gate.promises ++ [toolCallId],
      pendingApprovals := gate.pendingApprovals.set toolCallId
        { existing with
          resolve := .joined existing.resolve gate.promises.length } } : ApprovalGate).Held where
  kept x entry foundX := by
    by_cases mine : x = toolCallId
    · subst mine
      simp only [OrderedMap.get?_set, if_true, Option.some.injEq] at foundX
      subst foundX
      obtain ⟨nodup, unsettled, owner, timed⟩ := held.kept _ _ found
      refine ⟨?_, ?_, owner, timed⟩
      · simp only [Resolver.promises, nodup_append, mem_singleton]
        refine ⟨nodup, by simp, ?_⟩
        rintro promise mem _ rfl same
        simpa [same] using (unsettled promise mem).1
      · intro promise mem
        rcases mem_append.mp mem with mem | mem
        · obtain ⟨returned, free⟩ := unsettled promise mem
          exact ⟨getElem?_append_left (List.getElem?_eq_some_iff.mp returned).1 ▸ returned,
            free⟩
        · obtain rfl := mem_singleton.mp mem
          exact ⟨by simp, held.fresh⟩
    · simp only [OrderedMap.get?_set, mine, if_false] at foundX
      obtain ⟨nodup, unsettled, owner, timed⟩ := held.kept _ _ foundX
      refine ⟨nodup, ?_, owner, timed⟩
      intro promise mem
      obtain ⟨returned, free⟩ := unsettled promise mem
      exact ⟨getElem?_append_left (List.getElem?_eq_some_iff.mp returned).1 ▸ returned, free⟩
  waiting promise x returned unsettled := by
    by_cases last : promise = gate.promises.length
    · subst last
      obtain rfl : toolCallId = x := by simpa using returned
      exact ⟨{ existing with resolve := .joined existing.resolve gate.promises.length }, by simp,
        by simp [Resolver.promises]⟩
    · have bound := (List.getElem?_eq_some_iff.mp returned).1
      simp only [length_append, length_singleton] at bound
      rw [getElem?_append_left (by omega)] at returned
      obtain ⟨entry, foundX, mem⟩ := held.waiting _ _ returned unsettled
      by_cases mine : x = toolCallId
      · subst mine
        obtain rfl : existing = entry := Option.some.inj (found.symm.trans foundX)
        exact ⟨{ existing with resolve := .joined existing.resolve gate.promises.length }, by simp,
          by simp [Resolver.promises, mem]⟩
      · exact ⟨entry, by simpa [mine] using foundX, mem⟩
  once := held.once
  known promise settled := by
    have := held.known promise settled
    simp only [length_append]
    omega
  timers promise due armed := by
    obtain ⟨scope, entry, recorded, foundX, owner⟩ := held.timers promise due armed
    by_cases mine : scope.toolCallId = toolCallId
    · have same : existing = entry := by
        rw [mine, found] at foundX
        exact Option.some.inj foundX
      subst same
      exact ⟨scope, { existing with resolve := .joined existing.resolve gate.promises.length },
        recorded, by simp [mine], owner⟩
    · exact ⟨scope, entry, recorded, by simpa [mine] using foundX, owner⟩

theorem Held.grant (toolCallId : JsString) :
    (({ gate with promises := gate.promises ++ [toolCallId] } : ApprovalGate).settle
      gate.promises.length true).Held := by
  have outcomes : ∀ promise : ℕ,
      (({ gate with promises := gate.promises ++ [toolCallId] } : ApprovalGate).settle
        gate.promises.length true).outcomes promise =
      gate.outcomes promise ++ if gate.promises.length = promise then [true] else [] :=
    fun promise => outcomes_settle _ _ _ _
  constructor
  · intro x entry found
    obtain ⟨nodup, unsettled, owner, timed⟩ := held.kept _ _ found
    refine ⟨nodup, ?_, owner, timed⟩
    intro promise mem
    obtain ⟨returned, free⟩ := unsettled promise mem
    have bound := (List.getElem?_eq_some_iff.mp returned).1
    refine ⟨(getElem?_append_left bound).trans returned, ?_⟩
    rw [outcomes, free, if_neg (by omega)]
    rfl
  · intro promise x returned unsettled
    rw [outcomes] at unsettled
    obtain ⟨unsettled, absent⟩ := append_eq_nil_iff.mp unsettled
    have apart : gate.promises.length ≠ promise := by
      intro same
      simp [same] at absent
    have bound := (List.getElem?_eq_some_iff.mp returned).1
    simp only [settle, length_append, length_singleton] at bound
    refine held.waiting promise x ?_ unsettled
    exact (getElem?_append_left (by omega)).symm.trans returned
  · intro promise
    rw [outcomes]
    by_cases last : gate.promises.length = promise
    · have free : gate.outcomes promise = [] := last ▸ held.fresh
      simp [free, last]
    · simpa [last] using held.once promise
  · intro promise settled
    rw [outcomes] at settled
    simp only [settle, length_append, length_singleton]
    by_cases last : gate.promises.length = promise
    · omega
    · rw [if_neg last, append_nil] at settled
      have := held.known promise settled
      omega
  · exact held.timers

end

def Unjoined (gate : ApprovalGate) (toolCallId : JsString) : Prop :=
  ∀ entry, gate.pendingApprovals.get? toolCallId = some entry →
    ∀ promise, entry.resolve.base = some promise → entry.resolve = .wrapped promise

/-- A time-out that denies an entry only its own request waits for. -/
theorem Held.denied (held : gate.Held) {owner : PromiseRef} {scope : ApprovalScope}
    {entry : PendingApproval} (found : gate.pendingApprovals.get? scope.toolCallId = some entry)
    (mine : entry.resolve.base = some owner) (alone : gate.Unjoined scope.toolCallId) :
    ((gate.clearTimer owner).denyTimedOut owner scope).Held := by
  have closed := held.close found false
  simp only [ApprovalGate.close, alone entry found owner mine, callResolve] at closed
  simp only [denyTimedOut, clearTimer, found]
  simpa only [wrappedResolve, clearTimer, delete_delete] using closed

theorem callResolve_pending (gate : ApprovalGate) (pending : OrderedMap JsString PendingApproval)
    (approved : Bool) (resolve : Resolver) :
    ({ gate with pendingApprovals := pending } : ApprovalGate).callResolve approved resolve =
      { gate.callResolve approved resolve with pendingApprovals := pending } := by
  induction resolve with
  | wrapped promise => rfl
  | external => rfl
  | joined previousResolve promise ih => rw [callResolve, ih]; rfl

theorem foldl_close (gate : ApprovalGate) (approved : Bool)
    (l : List (JsString × PendingApproval)) :
    l.foldl (ApprovalGate.close · approved) gate =
      { l.foldl (fun gate closed => gate.callResolve approved closed.2.resolve) gate with
        pendingApprovals := (l.map Prod.fst).foldl OrderedMap.delete gate.pendingApprovals } := by
  have moved : ∀ (l : List (JsString × PendingApproval)) (gate : ApprovalGate)
      (pending : OrderedMap JsString PendingApproval),
      l.foldl (fun gate closed => gate.callResolve approved closed.2.resolve)
        { gate with pendingApprovals := pending } =
      { l.foldl (fun gate closed => gate.callResolve approved closed.2.resolve) gate with
        pendingApprovals := pending } := by
    intro l
    induction l with
    | nil => intros; rfl
    | cons closed rest ih =>
      intro gate pending
      rw [foldl_cons, callResolve_pending, ih, foldl_cons]
  induction l generalizing gate with
  | nil => rfl
  | cons closed rest ih =>
    rw [foldl_cons, ih, ApprovalGate.close, callResolve_pending, moved]
    rfl

theorem Held.clearAll (held : gate.Held) (chatSessionId : Option JsString) :
    (gate.clearAllPendingApprovals chatSessionId).Held := by
  rw [clearAllPendingApprovals]
  cases chatSessionId.filter (· ≠ []) with
  | none =>
    have closed := held.closeAll false gate.pendingApprovals.nodup
      fun closed mem => OrderedMap.mem_entries.mp mem
    rw [foldl_close] at closed
    have empties : (gate.pendingApprovals.entries.map Prod.fst).foldl OrderedMap.delete
        gate.pendingApprovals = .empty := by
      apply eq_empty_of_get?
      intro key
      rw [get?_foldl_delete]
      split
      · rfl
      · exact get?_eq_none.mpr (by assumption)
    rwa [empties] at closed
  | some chat =>
    apply held.closeAll false
    · exact gate.pendingApprovals.nodup.sublist (filter_sublist.map _)
    · exact fun closed mem => OrderedMap.mem_entries.mp (mem_of_mem_filter mem)

/-- The steps that keep clear of the three defects: no time-out denies an entry
another request joined, `clearPendingApprovalIds` is given no entry with promises,
and a request that makes an entry has time to wait. -/
def Meets (gate : ApprovalGate) : ApprovalAction → Prop
  | .requestApproval request timeoutMs granted =>
    granted = true ∨ gate.pendingApprovals.has request.toolCallId = true ∨
      ∀ ms, timeoutMs = some ms → 0 < ms
  | .cancelApprovalTimeout toolCallId => ∀ owner scope,
    gate.timerOf toolCallId = some (owner, scope) → scope.hardDeadlineAt ≤ gate.now →
      gate.Unjoined toolCallId
  | .clearPendingApprovalIds toolCallIds => ∀ toolCallId ∈ toolCallIds, ∀ entry,
    gate.pendingApprovals.get? toolCallId = some entry → entry.resolve.promises = []
  | .timerFires owner => ∀ due scope, gate.timers.get? owner = some due →
    gate.scopes.get? owner = some scope → due ≤ gate.now → gate.Unjoined scope.toolCallId
  | _ => True

theorem Held.request (held : gate.Held) {request : ApprovalRequest} {timeoutMs : Option ℚ}
    {granted : Bool} (meets : gate.Meets (.requestApproval request timeoutMs granted)) :
    (gate.requestApproval request timeoutMs granted).Held := by
  rw [requestApproval]
  cases granted with
  | true => exact held.grant _
  | false =>
    cases found : gate.pendingApprovals.get? request.toolCallId with
    | some existing =>
      simp only [false_eq_true, if_false]
      exact held.join found
    | none =>
      simp only [false_eq_true, if_false]
      refine held.openRequest ?_ found
      simpa [Meets, OrderedMap.has, found] using meets

theorem Held.cancel (held : gate.Held) {toolCallId : JsString}
    (meets : gate.Meets (.cancelApprovalTimeout toolCallId)) :
    (gate.cancelApprovalTimeout toolCallId).Held := by
  rw [cancelApprovalTimeout]
  cases timer : gate.timerOf toolCallId with
  | none => exact held
  | some owned =>
    obtain ⟨owner, scope⟩ := owned
    obtain ⟨entry, found, owned⟩ := bind_eq_some_iff.mp timer
    obtain ⟨owner', cancels, owned⟩ := bind_eq_some_iff.mp owned
    obtain ⟨scope', recorded, same⟩ := map_eq_some_iff.mp owned
    obtain ⟨rfl, rfl⟩ := Prod.mk.inj same
    have kept := held.kept _ _ found
    have mine := kept.owner.symm.trans cancels
    obtain ⟨scope, -, recorded', rfl, positive, -⟩ := kept.timed _ mine
    obtain rfl : scope' = scope := Option.some.inj (recorded.symm.trans recorded')
    simp only [rearm]
    split
    · rename_i late
      rw [armTimer, if_pos le_rfl]
      exact held.denied found mine (meets _ _ timer (by linarith))
    · rename_i early
      have positive' : 0 < min scope'.idleMs (scope'.hardDeadlineAt - gate.now) :=
        lt_min positive (not_le.mp early)
      rw [armTimer, if_neg (not_le.mpr positive')]
      refine held.rearmed recorded found mine ?_
      have delay := timerDelay_le positive'
      have capped := min_le_right scope'.idleMs (scope'.hardDeadlineAt - gate.now)
      simp only [clearTimer]
      linarith

theorem Held.fires (held : gate.Held) {owner : PromiseRef}
    (meets : gate.Meets (.timerFires owner)) : (gate.timerFires owner).Held := by
  rw [timerFires]
  cases armed : gate.timers.get? owner with
  | none => exact held
  | some due =>
    obtain ⟨scope, entry, recorded, found, mine⟩ := held.timers _ _ armed
    simp only [recorded]
    split
    · rename_i late
      exact held.denied found mine (meets due scope armed recorded late)
    · exact held

/-- Each step that keeps clear of the defects keeps the invariant. -/
theorem Held.step (held : gate.Held) {action : ApprovalAction} (meets : gate.Meets action) :
    (gate.step action).Held := by
  cases action with
  | requestApproval request timeoutMs granted => exact held.request meets
  | cancelApprovalTimeout toolCallId => exact held.cancel meets
  | resolveApproval toolCallId approved =>
    rw [ApprovalGate.step, resolveApproval]
    cases found : gate.pendingApprovals.get? toolCallId with
    | none => exact held
    | some entry => exact held.close found approved
  | registerExternalApproval request =>
    rw [ApprovalGate.step, registerExternalApproval]
    split
    · exact held
    · rename_i absent
      apply held.frame
      · intro toolCallId entry found
        rw [OrderedMap.get?_set] at found
        split at found
        · exact Or.inr (Option.some.inj found ▸ ⟨rfl, rfl⟩)
        · exact Or.inl found
      · intro toolCallId entry found
        rw [OrderedMap.get?_set, if_neg]
        · exact Or.inl found
        · rintro rfl
          simp [OrderedMap.has, found] at absent
  | clearPendingApprovalIds toolCallIds =>
    apply held.frame
    · intro toolCallId entry found
      rw [get?_foldl_delete] at found
      split at found
      · cases found
      · exact Or.inl found
    · intro toolCallId entry found
      rw [get?_foldl_delete]
      split
      · rename_i mem
        exact Or.inr (meets _ mem entry found)
      · exact Or.inl found
  | clearAllPendingApprovals chatSessionId => exact held.clearAll chatSessionId
  | timerFires owner => exact held.fires meets
  | tick elapsed =>
    obtain ⟨kept, waiting, once, known, timers⟩ := held
    refine ⟨?_, waiting, once, known, timers⟩
    intro toolCallId entry found
    obtain ⟨nodup, unsettled, owner, timed⟩ := kept toolCallId entry found
    exact ⟨nodup, unsettled, owner, timed⟩

end ApprovalGate

end Netcatty.Approvals
