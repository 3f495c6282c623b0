import Netcatty.TerminalWriteOrder

/-!
What leaves the invariant of the write queue alone.

A change of the queue's budgets, of an activation's counters or of the clock keeps it,
and activations of a queue that was given up change nothing that counts.
-/

namespace Netcatty.TerminalWrites

open List Function

variable {H : Type} {s : Terminal H} {queue : QueueRef} {run : RunRef}

/-! ### Changes that keep the invariant -/

/-- The value differs from the queue in its budgets, flags and timers only. -/
structure SameItems (value old : TerminalWriteQueue H) : Prop where
  active : value.active = old.active
  pending : value.pending = old.pending
  pendingBytes : value.pendingBytes = old.pendingBytes

/-- The value differs from the queue in its items and budgets only. -/
structure SameControl (value old : TerminalWriteQueue H) : Prop where
  active : value.active = old.active
  writing : value.writing = old.writing
  drainTimer : value.drainTimer = old.drainTimer
  stepTimer : value.stepTimer = old.stepTimer

/-- The value differs from the activation in its counters only. -/
structure SameRun (value old : QueuedRun) : Prop where
  item : value.item = old.item
  nextIndex : value.nextIndex = old.nextIndex
  queue : value.queue = old.queue
  cancelled : value.cancelled = old.cancelled

variable {value : TerminalWriteQueue H}

theorem setQueue_at : (s.setQueue queue value).queues queue = value := update_self _ _ _

theorem setQueue_other {other : QueueRef} (different : other ≠ queue) :
    (s.setQueue queue value).queues other = s.queues other :=
  update_of_ne different _ _

theorem setRun_at {value : QueuedRun} : (s.setRun run value).runs run = value :=
  update_self _ _ _

theorem setRun_other {value : QueuedRun} {other : RunRef} (different : other ≠ run) :
    (s.setRun run value).runs other = s.runs other :=
  update_of_ne different _ _

theorem setQueue_items (same : SameItems value (s.queues queue)) (other : QueueRef) :
    SameItems ((s.setQueue queue value).queues other) (s.queues other) := by
  by_cases here : other = queue
  · subst here
    rw [setQueue_at]
    exact same
  · rw [setQueue_other here]
    exact ⟨rfl, rfl, rfl⟩

theorem setRun_same {value : QueuedRun} (same : SameRun value (s.runs run)) (other : RunRef) :
    SameRun ((s.setRun run value).runs other) (s.runs other) := by
  by_cases here : other = run
  · subst here
    rw [setRun_at]
    exact same
  · rw [setRun_other here]
    exact ⟨rfl, rfl, rfl, rfl⟩

theorem waitingSteps_setQueue (same : SameItems value (s.queues queue)) (other : QueueRef) :
    (s.setQueue queue value).waitingSteps other = s.waitingSteps other := by
  have items := setQueue_items same other
  rw [Terminal.waitingSteps, Terminal.waitingSteps, Terminal.activeSteps,
    Terminal.activeSteps, items.active, items.pending]
  rfl

theorem waitingSteps_setRun {value : QueuedRun} (same : SameRun value (s.runs run))
    (other : QueueRef) : (s.setRun run value).waitingSteps other = s.waitingSteps other := by
  have queues : (s.setRun run value).queues = s.queues := rfl
  have active : (s.setRun run value).activeSteps other = s.activeSteps other := by
    unfold Terminal.activeSteps
    rw [queues]
    cases (s.queues other).active with
    | none => rfl
    | some active =>
      dsimp only
      rw [(setRun_same same active).item, (setRun_same same active).nextIndex]
  rw [Terminal.waitingSteps, active, queues]
  rfl

theorem Leads.setQueue {other : RunRef} (h : Leads s other)
    (same : SameItems value (s.queues queue)) : Leads (s.setQueue queue value) other :=
  ⟨h.current, (setQueue_items same _).active.trans h.active⟩

theorem Leads.setRun {value : QueuedRun} {other : RunRef} (h : Leads s other)
    (same : SameRun value (s.runs run)) : Leads (s.setRun run value) other := by
  have kept := (setRun_same same other).queue
  constructor
  · exact h.current.trans (congrArg some kept.symm)
  · rw [kept]
    exact h.active

theorem Gone.setRun {value : QueuedRun} {other : RunRef} (h : Gone s other)
    (same : SameRun value (s.runs run)) : Gone (s.setRun run value) other := by
  have kept := setRun_same same other
  constructor
  · exact kept.cancelled.trans h.cancelled
  · rw [kept.queue]
    exact h.elsewhere

theorem Sound.setQueue (h : Sound s) (same : SameItems value (s.queues queue))
    (timer : ∀ armed ∈ s.stepTimers, s.current = some queue → armed.queue = queue →
      value.stepTimer = some armed.timer)
    (idle : s.current ≠ some queue → value.drainTimer = false) :
    Sound (s.setQueue queue value) where
  __ := h
  timers := by
    intro armed mem current
    by_cases here : armed.queue = queue
    · rw [here, setQueue_at]
      exact timer armed mem (here ▸ current) here
    · rw [setQueue_other here]
      exact h.timers armed mem current
  givenUp := by
    intro other current
    have old := h.givenUp other current
    refine ⟨(setQueue_items same other).active.trans old.1, ?_⟩
    by_cases here : other = queue
    · subst here
      rw [setQueue_at]
      exact idle current
    · rw [setQueue_other here]
      exact old.2
  active := by
    intro other run current active
    exact h.active other run current ((setQueue_items same other).active.symm.trans active)
  openCalls := by
    intro call bound isOpen
    rcases h.openCalls call bound isOpen with gone | leads
    · exact Or.inl ⟨gone.cancelled, gone.elsewhere⟩
    · exact Or.inr (leads.setQueue same)
  pendingBytes := by
    intro other current
    rw [(setQueue_items same other).pendingBytes, (setQueue_items same other).pending]
    exact h.pendingBytes other current
  waiting := by
    intro other current
    rw [waitingSteps_setQueue same]
    exact h.waiting other current
  unfinished := by
    intro write mem
    obtain ⟨call, bound, notCalled, number, leads⟩ := h.unfinished write mem
    exact ⟨call, bound, notCalled, number, leads.setQueue same⟩

theorem Sound.setRun {value : QueuedRun} (h : Sound s) (same : SameRun value (s.runs run))
    (unfinished : Leads s run → value.completed = false) :
    Sound (s.setRun run value) where
  __ := h
  runBound := by
    intro other bound
    rw [(setRun_same same other).queue]
    exact h.runBound other bound
  active := by
    intro other active current isActive
    obtain ⟨bound, here, kept, going⟩ := h.active other active current isActive
    rw [(setRun_same same active).queue, (setRun_same same active).cancelled]
    refine ⟨bound, here, kept, ?_⟩
    by_cases this : active = run
    · subst this
      rw [setRun_at]
      exact unfinished ⟨here ▸ current, here ▸ isActive⟩
    · rw [setRun_other this]
      exact going
  openCalls := by
    intro call bound isOpen
    rcases h.openCalls call bound isOpen with gone | leads
    · exact Or.inl (gone.setRun same)
    · exact Or.inr (leads.setRun same)
  waiting := by
    intro other current
    rw [waitingSteps_setRun same]
    exact h.waiting other current
  unfinished := by
    intro write mem
    obtain ⟨call, bound, notCalled, number, leads⟩ := h.unfinished write mem
    exact ⟨call, bound, notCalled, number, leads.setRun same⟩

theorem Ready.setQueue (h : Ready s queue) (same : SameItems value (s.queues queue))
    (drainTimer : value.drainTimer = (s.queues queue).drainTimer)
    (stepTimer : value.stepTimer = (s.queues queue).stepTimer) :
    Ready (s.setQueue queue value) queue where
  toSound := by
    apply h.toSound.setQueue same
    · intro armed mem current here
      rw [stepTimer, ← here]
      exact h.timers armed mem (here ▸ current)
    · exact fun elsewhere => absurd h.current elsewhere
  current := h.current
  inactive := by
    rw [setQueue_at, same.active]
    exact h.inactive
  drainTimer := by
    rw [setQueue_at, drainTimer]
    exact h.drainTimer
  stepTimer := by
    rw [setQueue_at, stepTimer]
    exact h.stepTimer

theorem Advancing.setRun {value : QueuedRun} (h : Advancing s queue run)
    (same : SameRun value (s.runs run)) (unfinished : value.completed = false) :
    Advancing (s.setRun run value) queue run where
  __ := h
  toSound := h.toSound.setRun same (fun _ => unfinished)

/-- What the invariant does not look at: the readings of the clock, the frames of the
flush loops, step timers that were cleared and the terminal's drop handler. -/
theorem Sound.outside {readings : ℕ} {stack : List Frame} {stepTimers : List ArmedTimer}
    {dropHandler : Option H} (h : Sound s) (fewer : ∀ armed ∈ stepTimers, armed ∈ s.stepTimers)
    (inside : (stack.filterMap Frame.call?).Sublist s.callsInside) :
    Sound { s with readings, stack, stepTimers, dropHandler } where
  __ := h
  timerBound := fun armed mem => h.timerBound armed (fewer armed mem)
  timerIds := fun armed mem other mem' =>
    h.timerIds armed (fewer armed mem) other (fewer other mem')
  timers := fun armed mem => h.timers armed (fewer armed mem)
  openCalls := by
    intro call bound isOpen
    rcases h.openCalls call bound isOpen with gone | leads
    · exact Or.inl ⟨gone.cancelled, gone.elsewhere⟩
    · exact Or.inr ⟨leads.current, leads.active⟩
  frames := fun call mem => h.frames call (inside.subset mem)
  framesOnce := h.framesOnce.sublist inside
  unfinished := by
    intro write mem
    obtain ⟨call, bound, notCalled, number, leads⟩ := h.unfinished write mem
    exact ⟨call, bound, notCalled, number, leads.current, leads.active⟩

theorem AtRest.congr {s' : Terminal H} (h : AtRest s queue)
    (control : SameControl (s'.queues queue) (s.queues queue))
    (nextCall : s'.nextCall = s.nextCall)
    (kept : ∀ run, (s.queues queue).active = some run → ∀ call,
      (s'.calls call).run = run ∧ (s'.calls call).Open ↔
        (s.calls call).run = run ∧ (s.calls call).Open)
    (stepTimers : ∀ armed ∈ s.stepTimers, armed.queue = queue → armed ∈ s'.stepTimers) :
    AtRest s' queue := by
  cases h with
  | drain active drainTimer stepTimer =>
    apply AtRest.drain
    · exact control.active.trans active
    · exact control.drainTimer.trans drainTimer
    · exact control.stepTimer.trans stepTimer
  | write run running active writing drainTimer stepTimer inProgress =>
    have only := kept run active
    have isOpen := (only running).mpr ⟨inProgress.same, inProgress.isOpen⟩
    refine .write run running (control.active.trans active) (control.writing.trans writing)
      (control.drainTimer.trans drainTimer) (control.stepTimer.trans stepTimer)
      ⟨nextCall ▸ inProgress.bound, isOpen.1, isOpen.2, ?_⟩
    intro other bound here isOpen
    have before := (only other).mp ⟨here, isOpen⟩
    exact inProgress.only other (nextCall ▸ bound) before.1 before.2
  | step armed active writing drainTimer stepTimer mem same quiet =>
    refine .step armed (control.active.trans active) (control.writing.trans writing)
      (control.drainTimer.trans drainTimer) (control.stepTimer.trans stepTimer)
      (stepTimers armed mem same) same ?_
    intro other bound run isOpen
    have before := (kept _ active other).mp ⟨run, isOpen⟩
    exact quiet other (nextCall ▸ bound) before.1 before.2

theorem Inv.outside {readings : ℕ} {stack : List Frame} {dropHandler : Option H} (h : Inv s)
    (inside : (stack.filterMap Frame.call?).Sublist s.callsInside) :
    Inv { s with readings, stack, dropHandler } where
  toSound := h.toSound.outside (fun _ mem => mem) inside
  rest := fun queue current => (h.rest queue current).congr ⟨rfl, rfl, rfl, rfl⟩ rfl
    (fun _ _ _ => Iff.rfl) (fun _ mem _ => mem)

theorem Inv.readClock (h : Inv s) : Inv s.readClock :=
  h.outside (List.Sublist.refl s.callsInside)

theorem Ready.readClock (h : Ready s queue) : Ready s.readClock queue where
  __ := h
  toSound := h.toSound.outside (fun _ mem => mem) (List.Sublist.refl _)

theorem Advancing.readClock (h : Advancing s queue run) :
    Advancing s.readClock queue run where
  __ := h
  toSound := h.toSound.outside (fun _ mem => mem) (List.Sublist.refl _)

/-! ### Activations of a queue that was given up -/

theorem Inv.setQueue_elsewhere (h : Inv s)
    (elsewhere : s.current ≠ some queue) (same : SameItems value (s.queues queue))
    (drainTimer : value.drainTimer = false) : Inv (s.setQueue queue value) where
  toSound := by
    apply h.toSound.setQueue same
    · exact fun _ _ current => absurd current elsewhere
    · exact fun _ => drainTimer
  rest := by
    intro other current
    have different : other ≠ queue := by
      rintro rfl
      exact elsewhere current
    have control : SameControl ((s.setQueue queue value).queues other) (s.queues other) := by
      rw [setQueue_other different]
      exact ⟨rfl, rfl, rfl, rfl⟩
    exact (h.rest other current).congr control rfl (fun _ _ _ => Iff.rfl) (fun _ mem _ => mem)

theorem Gone.not_leads (gone : Gone s run) : ¬ Leads s run :=
  fun leads => gone.elsewhere leads.current

theorem Inv.setRun_gone {value : QueuedRun} (h : Inv s) (gone : Gone s run)
    (same : SameRun value (s.runs run)) : Inv (s.setRun run value) where
  toSound := h.toSound.setRun same (fun leads => absurd leads gone.not_leads)
  rest := fun queue current => (h.rest queue current).congr ⟨rfl, rfl, rfl, rfl⟩ rfl
    (fun _ _ _ => Iff.rfl) (fun _ mem _ => mem)

theorem Sound.arm {armed : ArmedTimer} (h : Sound s) (bound : armed.queue < s.nextQueue)
    (fresh : armed.timer.id = s.nextTimer)
    (own : s.current = some armed.queue →
      (s.queues armed.queue).stepTimer = some armed.timer) :
    Sound { s with stepTimers := s.stepTimers ++ [armed], nextTimer := s.nextTimer + 1 } where
  __ := h
  timerBound := by
    intro other mem
    rcases mem_append.mp mem with old | new
    · exact ⟨(h.timerBound other old).1, Nat.lt_succ_of_lt (h.timerBound other old).2⟩
    · obtain rfl := mem_singleton.mp new
      exact ⟨bound, fresh ▸ Nat.lt_succ_self _⟩
  timerIds := by
    have older : ∀ other ∈ s.stepTimers, other.timer.id ≠ armed.timer.id :=
      fun other old => fresh ▸ Nat.ne_of_lt (h.timerBound other old).2
    intro one mem other mem' same
    rcases mem_append.mp mem with old | new
    · rcases mem_append.mp mem' with old' | new'
      · exact h.timerIds one old other old' same
      · exact absurd (mem_singleton.mp new' ▸ same) (older one old)
    · rcases mem_append.mp mem' with old' | new'
      · exact absurd (mem_singleton.mp new ▸ same.symm) (older other old')
      · exact (mem_singleton.mp new).trans (mem_singleton.mp new').symm
  timers := by
    intro other mem current
    rcases mem_append.mp mem with old | new
    · exact h.timers other old current
    · obtain rfl := mem_singleton.mp new
      exact own current
  openCalls := by
    intro call bound isOpen
    rcases h.openCalls call bound isOpen with gone | leads
    · exact Or.inl ⟨gone.cancelled, gone.elsewhere⟩
    · exact Or.inr ⟨leads.current, leads.active⟩
  unfinished := by
    intro write mem
    obtain ⟨call, bound, notCalled, number, leads⟩ := h.unfinished write mem
    exact ⟨call, bound, notCalled, number, leads.current, leads.active⟩

theorem Inv.arm_elsewhere {armed : ArmedTimer} (h : Inv s)
    (bound : armed.queue < s.nextQueue) (fresh : armed.timer.id = s.nextTimer)
    (elsewhere : s.current ≠ some armed.queue) :
    Inv { s with stepTimers := s.stepTimers ++ [armed], nextTimer := s.nextTimer + 1 } where
  toSound := h.toSound.arm bound fresh (fun current => absurd current elsewhere)
  rest := fun queue current => (h.rest queue current).congr ⟨rfl, rfl, rfl, rfl⟩ rfl
    (fun _ _ _ => Iff.rfl) (fun _ mem _ => mem_append_left _ mem)

theorem Advancing.going (h : Advancing s queue run) : (s.runs run).completed = false :=
  (h.active queue run h.current h.isActive).2.2.2

theorem Advancing.noTimer (h : Advancing s queue run) :
    ∀ armed ∈ s.stepTimers, armed.queue ≠ queue := by
  intro armed mem here
  have timer := h.timers armed mem (here ▸ h.current)
  rw [here, h.stepTimer] at timer
  exact Option.some_ne_none _ timer.symm

theorem Advancing.arm {timer : StepTimer} {value : TerminalWriteQueue H}
    (h : Advancing s queue run) (fresh : timer.id = s.nextTimer)
    (continuation : timer.continuation = run)
    (same : SameItems value (s.queues queue)) (writing : value.writing)
    (drainTimer : value.drainTimer = false) (stepTimer : value.stepTimer = some timer) :
    Inv { s.setQueue queue value with
      stepTimers := s.stepTimers ++ [{ timer, queue }], nextTimer := s.nextTimer + 1 } where
  toSound := by
    have set : Sound (s.setQueue queue value) := by
      apply h.toSound.setQueue same
      · exact fun armed mem _ here => absurd here (h.noTimer armed mem)
      · exact fun elsewhere => absurd h.current elsewhere
    apply set.arm (h.queueBound _ h.current) fresh
    exact fun _ => (congrArg TerminalWriteQueue.stepTimer setQueue_at).trans stepTimer
  rest := by
    intro other current
    obtain rfl := Option.some.inj (h.current.symm.trans current)
    refine .step { timer, queue } ?_ ?_ ?_ ?_
      (mem_append_right _ (mem_singleton_self _)) rfl ?_
    · exact (congrArg TerminalWriteQueue.active setQueue_at).trans
        (same.active.trans (continuation ▸ h.isActive))
    · exact (congrArg TerminalWriteQueue.writing setQueue_at).trans writing
    · exact (congrArg TerminalWriteQueue.drainTimer setQueue_at).trans drainTimer
    · exact (congrArg TerminalWriteQueue.stepTimer setQueue_at).trans stepTimer
    · exact continuation ▸ h.quiet

theorem deferAndResume_eq :
    s.deferAndResume run =
      let value := s.runs run
      let timer : StepTimer := { id := s.nextTimer, continuation := run }
      { (s.setRun run { value with syncStepsSinceYield := 0, currentDrainBytes := 0 }).setQueue
          value.queue { s.queues value.queue with turnStartedAt := 0, stepTimer := some timer } with
        stepTimers := s.stepTimers ++ [{ timer, queue := value.queue }]
        nextTimer := s.nextTimer + 1 } := by
  simp only [Terminal.deferAndResume, Terminal.endQueueTurn, Terminal.setQueue,
    Terminal.setRun, update_self, update_idem]

theorem deferAndResume_inv (h : Advancing s queue run) : Inv (s.deferAndResume run) := by
  have same : SameRun { s.runs run with syncStepsSinceYield := 0, currentDrainBytes := 0 }
      (s.runs run) := ⟨rfl, rfl, rfl, rfl⟩
  have counters := h.setRun same h.going
  obtain rfl := h.here
  rw [deferAndResume_eq]
  apply counters.arm rfl rfl
  · exact ⟨rfl, rfl, rfl⟩
  · exact h.writing
  · exact h.drainTimer
  · rfl

theorem deferAndResume_gone (h : Inv s) (gone : Gone s run) (bound : run < s.nextRun) :
    Inv (s.deferAndResume run) := by
  have same : SameRun { s.runs run with syncStepsSinceYield := 0, currentDrainBytes := 0 }
      (s.runs run) := ⟨rfl, rfl, rfl, rfl⟩
  have counters := h.setRun_gone gone same
  rw [deferAndResume_eq]
  have items : SameItems { s.queues (s.runs run).queue with
      turnStartedAt := 0, stepTimer := some { id := s.nextTimer, continuation := run } }
      (s.queues (s.runs run).queue) := ⟨rfl, rfl, rfl⟩
  have armed := counters.setQueue_elsewhere gone.elsewhere items
    (h.givenUp _ gone.elsewhere).2
  exact armed.arm_elsewhere (h.runBound run bound) rfl gone.elsewhere

end Netcatty.TerminalWrites
