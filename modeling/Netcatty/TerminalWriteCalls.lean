import Netcatty.TerminalWriteItems

/-!
A completion callback, the return of a write and the flush loop keep the invariant of
the write queue.
-/

namespace Netcatty.TerminalWrites

open List Option Function

variable {H : Type} {s s' : Terminal H} {queue : QueueRef} {run : RunRef} {call : CallRef}

/-! ### Calls that complete or return -/

/-- The states differ in the calls, the stack and the actions only. -/
structure SameQueues (s s' : Terminal H) : Prop where
  current : s'.current = s.current
  queues : s'.queues = s.queues
  runs : s'.runs = s.runs
  stepTimers : s'.stepTimers = s.stepTimers
  nextCall : s'.nextCall = s.nextCall

theorem SameQueues.control (same : SameQueues s s') :
    SameControl (s'.queues queue) (s.queues queue) := by
  rw [same.queues]
  exact ⟨rfl, rfl, rfl, rfl⟩

theorem SameQueues.timers (same : SameQueues s s') :
    ∀ armed ∈ s.stepTimers, armed.queue = queue → armed ∈ s'.stepTimers :=
  fun _ mem _ => same.stepTimers ▸ mem

theorem Gone.sameQueues (h : Gone s run) (same : SameQueues s s') : Gone s' run := by
  constructor
  · rw [same.runs]
    exact h.cancelled
  · rw [same.current, same.runs]
    exact h.elsewhere

/-- A call that stays open changes nothing for its queue. -/
theorem Inv.keepCall {value : WriteCall} (h : Inv s) (sound : Sound s')
    (same : SameQueues s s') (calls : s'.calls = Function.update s.calls call value)
    (sameRun : value.run = (s.calls call).run)
    (opens : value.Open ↔ (s.calls call).Open) : Inv s' where
  toSound := sound
  rest := by
    intro queue current
    apply (h.rest queue (same.current ▸ current)).congr same.control same.nextCall _ same.timers
    intro run _ other
    rw [calls]
    by_cases this : other = call
    · subst this
      rw [update_self, sameRun, opens]
    · rw [update_of_ne this]

theorem Inv.closeCall {value : WriteCall} (h : Inv s) (bound : call < s.nextCall)
    (isOpen : (s.calls call).Open) (sound : Sound s') (same : SameQueues s s')
    (calls : s'.calls = Function.update s.calls call value)
    (sameRun : value.run = (s.calls call).run) (closed : ¬ value.Open) :
    (Inv s' ∧ Gone s' value.run) ∨ ∃ queue, Advancing s' queue value.run := by
  rcases h.openCalls call bound isOpen with gone | leads
  · left
    refine ⟨⟨sound, ?_⟩, sameRun ▸ gone.sameQueues same⟩
    intro queue current
    rw [same.current] at current
    apply (h.rest queue current).congr same.control same.nextCall _ same.timers
    intro run active other
    have queueOfRun := (h.active queue run current active).2.1
    have elsewhere : (s.calls call).run ≠ run := by
      rintro rfl
      exact gone.elsewhere (queueOfRun ▸ current)
    rw [calls]
    by_cases this : other = call
    · subst this
      rw [update_self, sameRun]
      exact ⟨fun both => absurd both.1 elsewhere, fun both => absurd both.1 elsewhere⟩
    · rw [update_of_ne this]
  · right
    refine ⟨(s.runs (s.calls call).run).queue, ?_⟩
    cases h.rest _ leads.current with
    | drain active => exact absurd (active.symm.trans leads.active).symm (some_ne_none _)
    | write run running active writing drainTimer stepTimer inProgress =>
      obtain rfl := Option.some.inj (leads.active.symm.trans active)
      have this := inProgress.only call bound rfl isOpen
      subst this
      exact
      { toSound := sound
        current := same.current.trans leads.current
        isActive := by
          rw [same.queues, sameRun]
          exact leads.active
        writing := same.queues ▸ writing
        drainTimer := same.queues ▸ drainTimer
        stepTimer := same.queues ▸ stepTimer
        quiet := by
          intro other bound here stillOpen
          rw [calls] at here stillOpen
          by_cases this : other = call
          · subst this
            rw [update_self] at stillOpen
            exact closed stillOpen
          · rw [update_of_ne this] at here stillOpen
            exact this (inProgress.only other (same.nextCall ▸ bound)
              (here.trans sameRun) stillOpen) }
    | step armed active writing drainTimer stepTimer mem here quiet =>
      have this := Option.some.inj (leads.active.symm.trans active)
      exact absurd isOpen (quiet call bound this)

theorem Sound.withCall {value : WriteCall} {stack : List Frame} {actions : List (Action H)}
    (h : Sound s) (sameRun : value.run = (s.calls call).run)
    (opens : value.Open → (s.calls call).Open)
    (frames : ∀ other ∈ stack.filterMap Frame.call?, other < s.nextCall ∧
      (Function.update s.calls call value other).insideWrite)
    (framesOnce : (stack.filterMap Frame.call?).Nodup)
    (waiting : unstarted actions = unstarted s.actions)
    (started : startedWrites actions = startedWrites s.actions)
    (unfinished : ∀ write ∈ TerminalWrites.unfinished actions, ∃ other < s.nextCall,
      (Function.update s.calls call value other).called = false ∧
        (Function.update s.calls call value other).step.write = write ∧
        Leads s (Function.update s.calls call value other).run)
    (allowed : ∀ later action earlier, actions = later ++ action :: earlier →
      Allowed action earlier) :
    Sound { s with calls := Function.update s.calls call value, stack, actions } where
  __ := h
  callBound := by
    intro other bound
    change (Function.update s.calls call value other).run < s.nextRun
    by_cases this : other = call
    · subst this
      rw [update_self, sameRun]
      exact h.callBound other bound
    · rw [update_of_ne this]
      exact h.callBound other bound
  openCalls := by
    intro other bound isOpen
    have before : (s.calls other).Open ∧
        (Function.update s.calls call value other).run = (s.calls other).run := by
      change (Function.update s.calls call value other).Open at isOpen
      by_cases this : other = call
      · subst this
        rw [update_self] at isOpen ⊢
        exact ⟨opens isOpen, sameRun⟩
      · rw [update_of_ne this] at isOpen ⊢
        exact ⟨isOpen, rfl⟩
    simp only [before.2]
    rcases h.openCalls other bound before.1 with gone | leads
    · exact Or.inl ⟨gone.cancelled, gone.elsewhere⟩
    · exact Or.inr ⟨leads.current, leads.active⟩
  frames := frames
  framesOnce := framesOnce
  waiting := fun queue current => waiting.trans (h.waiting queue current)
  nothingWaits := fun none => waiting.trans (h.nothingWaits none)
  ordered := by
    simp only [waiting, started]
    exact h.ordered
  numbered := by
    simp only [waiting, started]
    exact h.numbered
  unfinished := by
    intro write mem
    obtain ⟨other, bound, notCalled, number, leads⟩ := unfinished write mem
    exact ⟨other, bound, notCalled, number, leads.current, leads.active⟩
  allowed := allowed

theorem continue_inv (same : (s.calls call).run = run)
    (h : (Inv s ∧ Gone s run) ∨ ∃ queue, Advancing s queue run)
    (bound : call < s.nextCall) : Inv (s.continueAfterStep call) := by
  subst same
  rcases h with ⟨inv, gone⟩ | ⟨queue, advancing⟩
  · exact continueAfterStep_gone inv gone (inv.callBound call bound)
  · exact continueAfterStep_inv advancing rfl

theorem completed_sound (h : Sound s) (bound : call < s.nextCall)
    (fresh : (s.calls call).called = false) :
    Sound ((s.setCall call { s.calls call with called := true }).record
      (.completed (s.calls call).step.write)) := by
  have sameRun : ({ s.calls call with called := true } : WriteCall).run = (s.calls call).run :=
    rfl
  apply h.withCall sameRun
  · exact fun _ => Or.inr fresh
  · intro other mem
    refine ⟨(h.frames other mem).1, ?_⟩
    by_cases this : other = call
    · subst this
      rw [update_self]
      exact (h.frames other mem).2
    · rw [update_of_ne this]
      exact (h.frames other mem).2
  · exact h.framesOnce
  · rfl
  · rfl
  · intro write mem
    obtain ⟨before, different⟩ := mem_filter.mp mem
    obtain ⟨other, otherBound, notCalled, number, leads⟩ := h.unfinished write before
    have this : other ≠ call := by
      rintro rfl
      exact of_decide_eq_true different number.symm
    refine ⟨other, otherBound, ?_⟩
    rw [update_of_ne this]
    exact ⟨notCalled, number, leads⟩
  · exact allowed_cons h.allowed trivial

theorem callDone_inv (h : Inv s) (bound : call < s.nextCall)
    (fresh : (s.calls call).called = false) : Inv (s.callDone call) := by
  have sound := completed_sound h.toSound bound fresh
  have isOpen : (s.calls call).Open := Or.inr fresh
  unfold Terminal.callDone
  simp only []
  by_cases inside : (s.calls call).insideWrite = true
  · rw [if_pos inside]
    apply h.keepCall sound ⟨rfl, rfl, rfl, rfl, rfl⟩ rfl rfl
    exact ⟨fun _ => isOpen, fun _ => Or.inl inside⟩
  · rw [if_neg inside]
    have closed : ¬ ({ s.calls call with called := true } : WriteCall).Open := by
      rintro (returned | called)
      · exact inside returned
      · exact Bool.noConfusion called
    have next := h.closeCall bound isOpen sound ⟨rfl, rfl, rfl, rfl, rfl⟩ rfl rfl closed
    exact continue_inv (congrArg WriteCall.run (update_self _ _ _)) next bound

/-! ### The flush loop -/

theorem Sound.clearStepTimer {timer : StepTimer} {value : TerminalWriteQueue H} (h : Sound s)
    (current : s.current = some queue) (own : (s.queues queue).stepTimer = some timer)
    (same : SameItems value (s.queues queue)) :
    Sound ((s.clearStepTimer timer.id).setQueue queue value) := by
  have fewer : ∀ armed ∈ (s.clearStepTimer timer.id).stepTimers, armed ∈ s.stepTimers :=
    fun armed mem => (mem_filter.mp mem).1
  have cleared : Sound (s.clearStepTimer timer.id) :=
    h.outside fewer (List.Sublist.refl _)
  apply cleared.setQueue same
  · intro armed mem _ here
    have timers := h.timers armed (fewer armed mem) (here ▸ current)
    rw [here, own] at timers
    have different := of_decide_eq_true (mem_filter.mp mem).2
    exact absurd (congrArg StepTimer.id (Option.some.inj timers)).symm different
  · exact fun elsewhere => absurd current elsewhere

theorem resume_inv {armed : ArmedTimer} (h : Inv s) (mem : armed ∈ s.stepTimers)
    (current : s.current = some armed.queue) :
    Inv (((s.clearStepTimer armed.timer.id).setQueue armed.queue
      { s.queues armed.queue with stepTimer := none }).resumeRun armed.timer.continuation) := by
  have own := h.timers armed mem current
  have items : SameItems { s.queues armed.queue with stepTimer := none }
      (s.queues armed.queue) := ⟨rfl, rfl, rfl⟩
  have sound := h.toSound.clearStepTimer current own items
  have set : ((s.clearStepTimer armed.timer.id).setQueue armed.queue
      { s.queues armed.queue with stepTimer := none }).queues armed.queue =
      { s.queues armed.queue with stepTimer := none } := update_self _ _ _
  cases h.rest armed.queue current with
  | drain _ _ stepTimer => exact absurd (own.symm.trans stepTimer) (some_ne_none _)
  | write _ _ _ _ _ stepTimer => exact absurd (own.symm.trans stepTimer) (some_ne_none _)
  | step other active writing drainTimer stepTimer _ _ quiet =>
    have same : other.timer = armed.timer := Option.some.inj (stepTimer.symm.trans own)
    rw [same] at active quiet
    have advancing : Advancing ((s.clearStepTimer armed.timer.id).setQueue armed.queue
        { s.queues armed.queue with stepTimer := none }) armed.queue armed.timer.continuation :=
    { toSound := sound
      current
      isActive := (congrArg TerminalWriteQueue.active set).trans active
      writing := (congrArg TerminalWriteQueue.writing set).trans writing
      drainTimer := (congrArg TerminalWriteQueue.drainTimer set).trans drainTimer
      stepTimer := congrArg TerminalWriteQueue.stepTimer set
      quiet }
    exact resumeRun_inv advancing

theorem drain_inv (h : Inv s) (current : s.current = some queue)
    (armed : (s.queues queue).drainTimer) :
    Inv ((s.setQueue queue
      { s.queues queue with drainTimer := false }).scheduleNextTerminalWrite queue) := by
  have set : (s.setQueue queue { s.queues queue with drainTimer := false }).queues queue =
      { s.queues queue with drainTimer := false } := update_self _ _ _
  cases h.rest queue current with
  | drain active _ stepTimer =>
    apply scheduleNextTerminalWrite_inv
    exact
    { toSound := by
        apply h.toSound.setQueue
        · exact ⟨rfl, rfl, rfl⟩
        · exact fun armed mem current here => here ▸ h.timers armed mem (here ▸ current)
        · exact fun elsewhere => absurd current elsewhere
      current
      inactive := (congrArg TerminalWriteQueue.active set).trans active
      drainTimer := congrArg TerminalWriteQueue.drainTimer set
      stepTimer := (congrArg TerminalWriteQueue.stepTimer set).trans stepTimer }
  | write _ _ _ _ drainTimer => exact absurd (armed.symm.trans drainTimer) Bool.noConfusion
  | step _ _ _ drainTimer => exact absurd (armed.symm.trans drainTimer) Bool.noConfusion

theorem flushTurn_inv (h : Inv s) (current : s.current = some queue)
    (turn : s.flushTurn queue = some s') : Inv s' := by
  unfold Terminal.flushTurn at turn
  cases h.rest queue current with
  | drain active drainTimer stepTimer =>
    have next := drain_inv h current drainTimer
    simp only [stepTimer, drainTimer, if_true] at turn next
    exact Option.some.inj turn ▸ next
  | write run call active writing drainTimer stepTimer running =>
    simp [stepTimer, drainTimer, writing] at turn
  | step armed active writing drainTimer stepTimer mem same quiet =>
    subst same
    have next := resume_inv h mem current
    simp only [stepTimer] at turn
    exact Option.some.inj turn ▸ next

theorem Inv.record {action : Action H} (h : Inv s)
    (waiting : unstarted (action :: s.actions) = unstarted s.actions)
    (started : startedWrites (action :: s.actions) = startedWrites s.actions)
    (unfinished : ∀ write ∈ unfinished (action :: s.actions),
      write ∈ TerminalWrites.unfinished s.actions)
    (allowed : Allowed action s.actions) : Inv (s.record action) where
  toSound := by
    have recorded : Sound { s with
        calls := Function.update s.calls 0 (s.calls 0), stack := s.stack
        actions := action :: s.actions } := by
      apply h.toSound.withCall rfl (fun isOpen => isOpen)
      · rw [update_eq_self]
        exact h.frames
      · exact h.framesOnce
      · exact waiting
      · exact started
      · rw [update_eq_self]
        exact fun write mem => h.unfinished write (unfinished write mem)
      · exact allowed_cons h.allowed allowed
    rw [update_eq_self] at recorded
    exact recorded
  rest := by
    intro queue current
    exact (h.rest queue current).congr ⟨rfl, rfl, rfl, rfl⟩ rfl (fun _ _ _ => Iff.rfl)
      (fun _ mem _ => mem)

theorem Inv.flushed {any : Bool} (h : Inv s) : Inv (s.record (.flushed any)) :=
  h.record rfl rfl (fun _ mem => mem) trivial

theorem frames_flush (guard : ℕ) (stack : List Frame) :
    (Frame.flush guard :: stack).filterMap Frame.call? = stack.filterMap Frame.call? :=
  filterMap_cons_none rfl

theorem flushLoop_inv (guard : ℕ) : ∀ {any : Bool} {s : Terminal H}, Inv s →
    Inv (s.flushLoop any guard) := by
  induction guard with
  | zero => exact fun h => h.flushed
  | succ guard ih =>
    intro any s h
    have waiting : Inv { s with stack := .flush guard :: s.stack } :=
      h.outside (List.Sublist.refl _)
    unfold Terminal.flushLoop
    split
    · exact h.flushed
    · next queue current =>
      split
      · exact h.flushed
      · next after turn =>
        have turned := flushTurn_inv waiting current turn
        split
        · next _ rest stack =>
          apply ih
          apply turned.outside
          rw [Terminal.callsInside, stack, frames_flush]
        · exact turned

theorem returned_sound {rest : List Frame} (h : Sound s)
    (stack : s.stack = .write call :: rest) :
    Sound { s.setCall call { s.calls call with insideWrite := false } with stack := rest } := by
  have inside : s.callsInside = call :: rest.filterMap Frame.call? := by
    rw [Terminal.callsInside, stack]
    rfl
  have once := h.framesOnce
  rw [inside] at once
  have sameRun : ({ s.calls call with insideWrite := false } : WriteCall).run =
      (s.calls call).run := rfl
  apply h.withCall sameRun
  · exact fun isOpen => isOpen.imp (fun wrong => Bool.noConfusion wrong) (fun fresh => fresh)
  · intro other mem
    have frame := h.frames other (inside ▸ mem_cons_of_mem call mem)
    have different : other ≠ call := by
      rintro rfl
      exact (nodup_cons.mp once).1 mem
    rw [update_of_ne different]
    exact frame
  · exact (nodup_cons.mp once).2
  · rfl
  · rfl
  · intro write mem
    obtain ⟨other, bound, notCalled, number, leads⟩ := h.unfinished write mem
    refine ⟨other, bound, ?_⟩
    by_cases this : other = call
    · subst this
      rw [update_self]
      exact ⟨notCalled, number, leads⟩
    · rw [update_of_ne this]
      exact ⟨notCalled, number, leads⟩
  · exact h.allowed

theorem writeReturns_inv (h : Inv s) : Inv s.writeReturns := by
  unfold Terminal.writeReturns
  split
  · next call rest stack =>
    have frame := h.frames call (by rw [Terminal.callsInside, stack]; exact mem_cons_self)
    have sound := returned_sound h.toSound stack
    have isOpen : (s.calls call).Open := Or.inl frame.2
    have after : Inv (if (s.calls call).called = true then
        Terminal.continueAfterStep
          { s.setCall call { s.calls call with insideWrite := false } with stack := rest } call
        else { s.setCall call { s.calls call with insideWrite := false } with stack := rest }) := by
      by_cases called : (s.calls call).called = true
      · rw [if_pos called]
        have closed : ¬ ({ s.calls call with insideWrite := false } : WriteCall).Open := by
          rintro (inside | fresh)
          · exact Bool.noConfusion inside
          · exact Bool.noConfusion (called.symm.trans fresh)
        have next := h.closeCall frame.1 isOpen sound ⟨rfl, rfl, rfl, rfl, rfl⟩ rfl rfl closed
        exact continue_inv (congrArg WriteCall.run (update_self _ _ _)) next frame.1
      · rw [if_neg called]
        apply h.keepCall sound ⟨rfl, rfl, rfl, rfl, rfl⟩ rfl rfl
        exact ⟨fun _ => isOpen, fun _ => Or.inr (Bool.not_eq_true _ ▸ called)⟩
    simp only []
    split
    · next _ below stack' =>
      apply flushLoop_inv
      apply after.outside
      rw [Terminal.callsInside, stack', frames_flush]
    · exact after
  · exact h

end Netcatty.TerminalWrites
