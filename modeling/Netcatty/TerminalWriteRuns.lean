import Netcatty.TerminalWriteCalls

/-!
Every event keeps the invariant of the write queue, so it holds in every run.
-/

namespace Netcatty.TerminalWrites

open List Option Function

variable {H : Type} {s : Terminal H} {queue : QueueRef}

/-! ### Writes are enqueued -/

variable (value : TerminalWriteQueue H)

theorem merge_steps : (mergePendingWrites value).pending.flatMap (·.steps) =
      value.pending.flatMap (·.steps) := by
  unfold mergePendingWrites
  split
  · next first second rest shape =>
    rw [shape]
    exact append_nil _
  · rfl

theorem merge_bytes {value : TerminalWriteQueue H}
    (total : value.pendingBytes = (value.pending.map (·.bytes)).sum) :
    (mergePendingWrites value).pendingBytes =
      ((mergePendingWrites value).pending.map (·.bytes)).sum := by
  unfold mergePendingWrites
  split
  · exact (Nat.add_zero _).symm
  · exact total

theorem merge_control : SameControl (mergePendingWrites value) value := by
  unfold mergePendingWrites
  split
  · exact ⟨rfl, rfl, rfl, rfl⟩
  · exact ⟨rfl, rfl, rfl, rfl⟩

theorem flood_control (bytes : ℕ) : SameControl (updateFloodMode value bytes) value ∧
      SameItems (updateFloodMode value bytes) value := by
  unfold updateFloodMode
  split
  · exact ⟨⟨rfl, rfl, rfl, rfl⟩, ⟨rfl, rfl, rfl⟩⟩
  · exact ⟨⟨rfl, rfl, rfl, rfl⟩, ⟨rfl, rfl, rfl⟩⟩

theorem pushWrite_steps (item : QueuedWrite) :
    (pushWrite value item).pending.flatMap (·.steps) =
      value.pending.flatMap (·.steps) ++ item.steps := by
  unfold pushWrite
  simp only []
  split
  · rw [merge_steps, flatMap_append, flatMap_singleton]
  · rw [flatMap_append, flatMap_singleton]

theorem pushWrite_bytes {value : TerminalWriteQueue H} (item : QueuedWrite)
    (total : value.pendingBytes = (value.pending.map (·.bytes)).sum) :
    (pushWrite value item).pendingBytes =
      ((pushWrite value item).pending.map (·.bytes)).sum := by
  have pushed : value.pendingBytes + item.bytes =
      ((value.pending ++ [item]).map (·.bytes)).sum := by
    rw [total, map_append, sum_append]
    rfl
  unfold pushWrite
  simp only []
  split
  · exact merge_bytes pushed
  · exact pushed

theorem pushWrite_control (item : QueuedWrite) :
    SameControl (pushWrite value item) value := by
  unfold pushWrite
  simp only []
  split
  · have merged := merge_control { value with
      pending := value.pending ++ [item], pendingBytes := value.pendingBytes + item.bytes }
    exact ⟨merged.active, merged.writing, merged.drainTimer, merged.stepTimer⟩
  · exact ⟨rfl, rfl, rfl, rfl⟩

variable {bytes : ℕ} {options : TerminalWriteQueueOptions H}

theorem pushedQueue_control :
    SameControl (s.pushedQueue queue bytes options) (s.queues queue) := by
  unfold Terminal.pushedQueue
  have flood := (flood_control { s.queues queue with
    onDropped := options.onDropped <|> (s.queues queue).onDropped <|> s.dropHandler } bytes).1
  have pushed := pushWrite_control (updateFloodMode { s.queues queue with
    onDropped := options.onDropped <|> (s.queues queue).onDropped <|> s.dropHandler } bytes)
    (QueuedWrite.single (s.enqueuedStep bytes options)
      (resolveMaxDrainBytes options.maxDrainBytes))
  exact ⟨pushed.active.trans flood.active, pushed.writing.trans flood.writing,
    pushed.drainTimer.trans flood.drainTimer, pushed.stepTimer.trans flood.stepTimer⟩

theorem pushedQueue_steps : (s.pushedQueue queue bytes options).pending.flatMap (·.steps) =
      (s.queues queue).pending.flatMap (·.steps) ++ [s.enqueuedStep bytes options] := by
  unfold Terminal.pushedQueue
  have flood := (flood_control { s.queues queue with
    onDropped := options.onDropped <|> (s.queues queue).onDropped <|> s.dropHandler } bytes).2
  rw [pushWrite_steps, flood.pending]
  rfl

theorem pushedQueue_bytes
    (total : (s.queues queue).pendingBytes = ((s.queues queue).pending.map (·.bytes)).sum) :
    (s.pushedQueue queue bytes options).pendingBytes =
      ((s.pushedQueue queue bytes options).pending.map (·.bytes)).sum := by
  unfold Terminal.pushedQueue
  have flood := (flood_control { s.queues queue with
    onDropped := options.onDropped <|> (s.queues queue).onDropped <|> s.dropHandler } bytes).2
  apply pushWrite_bytes
  rw [flood.pending, flood.pendingBytes]
  exact total

theorem pushTerminalWrite_waiting :
    (s.pushTerminalWrite queue bytes options).waitingSteps queue =
      s.waitingSteps queue ++ [s.enqueuedStep bytes options] := by
  have set : (s.pushTerminalWrite queue bytes options).queues queue =
      s.pushedQueue queue bytes options := update_self _ _ _
  rw [Terminal.waitingSteps, Terminal.waitingSteps, Terminal.activeSteps, Terminal.activeSteps,
    set, pushedQueue_steps, pushedQueue_control.active, append_assoc]
  rfl

theorem pushTerminalWrite_sound (h : Sound s) (current : s.current = some queue) :
    Sound (s.pushTerminalWrite queue bytes options) := by
  have control : SameControl (s.pushedQueue queue bytes options) (s.queues queue) :=
    pushedQueue_control
  have set : (s.pushTerminalWrite queue bytes options).queues queue =
      s.pushedQueue queue bytes options := update_self _ _ _
  have other : ∀ at_, at_ ≠ queue →
      (s.pushTerminalWrite queue bytes options).queues at_ = s.queues at_ :=
    fun at_ different => update_of_ne different _ _
  have active : ∀ at_, ((s.pushTerminalWrite queue bytes options).queues at_).active =
      (s.queues at_).active := by
    intro at_
    by_cases this : at_ = queue
    · subst this
      rw [set, control.active]
    · rw [other at_ this]
  have numbers : startedWrites (s.pushTerminalWrite queue bytes options).actions ++
      (unstarted (s.pushTerminalWrite queue bytes options).actions).map Prod.fst =
      (startedWrites s.actions ++ (unstarted s.actions).map Prod.fst) ++ [s.nextWrite] := by
    rw [append_assoc]
    congr 1
    exact map_append
  exact
  { h with
    timers := by
      intro armed mem here
      obtain same : armed.queue = queue := Option.some.inj (here.symm.trans current)
      rw [same, set, control.stepTimer, ← same]
      exact h.timers armed mem here
    givenUp := by
      intro at_ elsewhere
      rw [other at_ (by rintro rfl; exact elsewhere current)]
      exact h.givenUp at_ elsewhere
    active := fun at_ run here isActive => h.active at_ run here (active at_ ▸ isActive)
    openCalls := by
      intro call bound isOpen
      rcases h.openCalls call bound isOpen with gone | leads
      · exact Or.inl ⟨gone.cancelled, gone.elsewhere⟩
      · exact Or.inr ⟨leads.current, (active _).trans leads.active⟩
    pendingBytes := by
      intro at_ here
      obtain rfl := Option.some.inj (current.symm.trans here)
      rw [set]
      exact pushedQueue_bytes (h.pendingBytes queue current)
    waiting := by
      intro at_ here
      obtain rfl := Option.some.inj (current.symm.trans here)
      rw [pushTerminalWrite_waiting, map_append, ← h.waiting queue current]
      rfl
    nothingWaits := fun none => absurd (current.symm.trans none) (some_ne_none _)
    ordered := by
      rw [numbers]
      apply pairwise_append.mpr
      refine ⟨h.ordered, pairwise_singleton _ _, ?_⟩
      intro write mem new isNew
      exact mem_singleton.mp isNew ▸ h.numbered write mem
    numbered := by
      rw [numbers]
      intro write mem
      rcases mem_append.mp mem with old | new
      · exact Nat.lt_succ_of_lt (h.numbered write old)
      · exact mem_singleton.mp new ▸ Nat.lt_succ_self _
    unfinished := by
      intro write mem
      obtain ⟨call, bound, notCalled, number, leads⟩ := h.unfinished write mem
      exact ⟨call, bound, notCalled, number, leads.current, (active _).trans leads.active⟩
    allowed := allowed_cons h.allowed trivial }

/-- A queue that was just made: nothing waits in it, and no timer is armed. -/
structure Fresh (s : Terminal H) (queue : QueueRef) : Prop where
  active : (s.queues queue).active = none
  writing : (s.queues queue).writing = false
  drainTimer : (s.queues queue).drainTimer = false
  stepTimer : (s.queues queue).stepTimer = none

theorem newQueue_sound (h : Sound s) (none : s.current = none) :
    Sound { s.setQueue s.nextQueue (emptyQueue s.dropHandler) with
      current := some s.nextQueue, nextQueue := s.nextQueue + 1 } := by
  have set : (s.setQueue s.nextQueue (emptyQueue s.dropHandler)).queues s.nextQueue =
      emptyQueue s.dropHandler := update_self _ _ _
  have nobody : ∀ run, ¬ Leads s run :=
    fun run leads => some_ne_none _ (leads.current.symm.trans none)
  exact
  { h with
    queueBound := fun queue here => Option.some.inj here ▸ Nat.lt_succ_self _
    runBound := fun run bound => Nat.lt_succ_of_lt (h.runBound run bound)
    timerBound := fun armed mem =>
      ⟨Nat.lt_succ_of_lt (h.timerBound armed mem).1, (h.timerBound armed mem).2⟩
    timers := fun armed mem here => absurd (Option.some.inj here).symm
      (Nat.ne_of_lt (h.timerBound armed mem).1)
    givenUp := by
      intro other elsewhere
      have different : other ≠ s.nextQueue := by
        rintro rfl
        exact elsewhere rfl
      have kept : (s.setQueue s.nextQueue (emptyQueue s.dropHandler)).queues other =
          s.queues other := update_of_ne different _ _
      rw [kept]
      exact h.givenUp other (by rw [none]; exact (some_ne_none other).symm)
    active := by
      intro other run here isActive
      obtain rfl := Option.some.inj here
      rw [set] at isActive
      exact absurd isActive.symm (some_ne_none run)
    openCalls := by
      intro call bound isOpen
      have gone := (h.openCalls call bound isOpen).resolve_right (nobody _)
      refine Or.inl ⟨gone.cancelled, ?_⟩
      intro here
      have known := h.runBound _ (h.callBound call bound)
      exact Nat.ne_of_lt known (Option.some.inj here).symm
    pendingBytes := by
      intro other here
      obtain rfl := Option.some.inj here
      rw [set]
      rfl
    waiting := by
      intro other here
      obtain rfl := Option.some.inj here
      rw [Terminal.waitingSteps, Terminal.activeSteps, set]
      exact h.nothingWaits none
    nothingWaits := fun wrong => absurd wrong (some_ne_none _)
    unfinished := by
      intro write mem
      obtain ⟨_, _, _, _, leads⟩ := h.unfinished write mem
      exact absurd leads (nobody _) }

/-- A write pushed on a queue at rest leaves it at rest, or starts its drain. -/
theorem pushOn_inv (h : Inv s) (current : s.current = some queue) :
    Inv (if !((s.pushTerminalWrite queue bytes options).queues queue).writing then
      (s.pushTerminalWrite queue bytes options).scheduleQueueDrain queue options.deferStart
      else s.pushTerminalWrite queue bytes options) := by
  have pushed : Inv (s.pushTerminalWrite queue bytes options) :=
    { toSound := pushTerminalWrite_sound h.toSound current
      rest := by
        intro other here
        obtain rfl := Option.some.inj (current.symm.trans here)
        have control : SameControl ((s.pushTerminalWrite queue bytes options).queues queue)
            (s.queues queue) := by
          have set : (s.pushTerminalWrite queue bytes options).queues queue =
              s.pushedQueue queue bytes options := update_self _ _ _
          rw [set]
          exact pushedQueue_control
        exact (h.rest queue current).congr control rfl (fun _ _ _ => Iff.rfl)
          (fun _ mem _ => mem) }
  cases pushed.rest queue current with
  | drain _ drainTimer _ =>
    split
    · rw [Terminal.scheduleQueueDrain, if_pos drainTimer]
      exact pushed
    · exact pushed
  | write _ _ _ writing =>
    rw [if_neg (by rw [writing]; exact Bool.false_ne_true)]
    exact pushed
  | step _ _ writing =>
    rw [if_neg (by rw [writing]; exact Bool.false_ne_true)]
    exact pushed

theorem pushOn_fresh (h : Sound s) (current : s.current = some queue)
    (fresh : Fresh s queue) :
    Inv (if !((s.pushTerminalWrite queue bytes options).queues queue).writing then
      (s.pushTerminalWrite queue bytes options).scheduleQueueDrain queue options.deferStart
      else s.pushTerminalWrite queue bytes options) := by
  have control : SameControl (s.pushedQueue queue bytes options) (s.queues queue) :=
    pushedQueue_control
  have set : (s.pushTerminalWrite queue bytes options).queues queue =
      s.pushedQueue queue bytes options := update_self _ _ _
  rw [if_pos (by rw [set, control.writing, fresh.writing]; rfl)]
  apply scheduleQueueDrain_inv
  exact
  { toSound := pushTerminalWrite_sound h current
    current
    inactive := by rw [set, control.active, fresh.active]
    drainTimer := by rw [set, control.drainTimer, fresh.drainTimer]
    stepTimer := by rw [set, control.stepTimer, fresh.stepTimer] }

theorem enqueueTerminalWrite_inv (h : Inv s) : Inv (s.enqueueTerminalWrite bytes options) := by
  unfold Terminal.enqueueTerminalWrite Terminal.getOrCreateQueue
  cases current : s.current with
  | some queue => exact pushOn_inv h current
  | none =>
    have set : (s.setQueue s.nextQueue (emptyQueue s.dropHandler)).queues s.nextQueue =
        emptyQueue s.dropHandler := update_self _ _ _
    apply pushOn_fresh (newQueue_sound h.toSound current) rfl
    constructor
    · exact congrArg TerminalWriteQueue.active set
    · exact congrArg TerminalWriteQueue.writing set
    · exact congrArg TerminalWriteQueue.drainTimer set
    · exact congrArg TerminalWriteQueue.stepTimer set

/-! ### Aborts, handlers and timers -/

/-- What an abort leaves of the queue it gives up. -/
private def abortedQueue (value : TerminalWriteQueue H) : TerminalWriteQueue H :=
  { value with
    pending := [], pendingBytes := 0, writing := false, floodMode := false,
    turnStartedAt := 0, active := none, drainTimer := false, stepTimer := none }

theorem cancelActive_eq (s : Terminal H) (queue : QueueRef) :
    ∃ runs, s.cancelActive queue = { s with runs } ∧ ∀ run,
      (runs run).queue = (s.runs run).queue ∧
      ((s.runs run).cancelled → (runs run).cancelled) ∧
      ((s.queues queue).active = some run → (runs run).cancelled) := by
  unfold Terminal.cancelActive
  split
  · next active isActive =>
    refine ⟨_, rfl, ?_⟩
    intro run
    by_cases this : run = active
    · subst this
      rw [update_self]
      exact ⟨rfl, fun _ => rfl, fun _ => rfl⟩
    · rw [update_of_ne this]
      exact ⟨rfl, fun cancelled => cancelled,
        fun same => absurd (Option.some.inj (same.symm.trans isActive)) this⟩
  · next none =>
    refine ⟨s.runs, rfl, fun run => ⟨rfl, fun cancelled => cancelled, ?_⟩⟩
    exact fun some => absurd (some.symm.trans none) (some_ne_none run)

theorem clearArmedStep_eq (s : Terminal H) (queue : QueueRef) :
    ∃ stepTimers, s.clearArmedStep queue = { s with stepTimers } ∧
      ∀ armed ∈ stepTimers, armed ∈ s.stepTimers := by
  unfold Terminal.clearArmedStep
  split
  · exact ⟨_, rfl, fun _ mem => (mem_filter.mp mem).1⟩
  · exact ⟨s.stepTimers, rfl, fun _ mem => mem⟩

section

variable {onDropped : Option H}

/-- What an abort does: the active item is cancelled, the queue cleared and forgotten. -/
theorem abort_eq (current : s.current = some queue) : ∃ runs stepTimers,
      s.abortTerminalWriteQueue onDropped =
        { s.setQueue queue (abortedQueue (s.queues queue)) with
          current := none, runs, stepTimers
          actions := .aborted (s.droppedBytes queue)
            (if 0 < s.droppedBytes queue then onDropped <|> (s.queues queue).onDropped
              else none) :: s.actions } ∧
      (∀ run, (runs run).queue = (s.runs run).queue ∧
        ((s.runs run).cancelled → (runs run).cancelled) ∧
        ((s.queues queue).active = some run → (runs run).cancelled)) ∧
      ∀ armed ∈ stepTimers, armed ∈ s.stepTimers := by
  obtain ⟨runs, cancelled, kept⟩ := cancelActive_eq s queue
  obtain ⟨stepTimers, cleared, fewer⟩ :=
    clearArmedStep_eq { s with runs } queue
  refine ⟨runs, stepTimers, ?_, kept, fewer⟩
  unfold Terminal.abortTerminalWriteQueue
  rw [current]
  simp only [cancelled, cleared]
  rfl

theorem abort_none (h : Inv s) (absent : s.current = none) :
    Inv (s.abortTerminalWriteQueue onDropped) := by
  have nothing := h.nothingWaits absent
  unfold Terminal.abortTerminalWriteQueue
  rw [absent]
  apply h.record
  · exact nothing.symm
  · rfl
  · exact fun _ mem => absurd mem not_mem_nil
  · rw [Allowed, nothing]
    rfl

theorem aborted_sound (h : Sound s) (current : s.current = some queue)
    {runs : RunRef → QueuedRun} {stepTimers : List ArmedTimer} {told : Option H}
    (kept : ∀ run, (runs run).queue = (s.runs run).queue ∧
      ((s.runs run).cancelled → (runs run).cancelled) ∧
      ((s.queues queue).active = some run → (runs run).cancelled))
    (fewer : ∀ armed ∈ stepTimers, armed ∈ s.stepTimers) :
    Inv { s.setQueue queue (abortedQueue (s.queues queue)) with
      current := none, runs, stepTimers
      actions := .aborted (s.droppedBytes queue) told :: s.actions } where
  __ := h
  queueBound := fun _ none => absurd none.symm (some_ne_none _)
  runBound := by
    intro run bound
    have same := (kept run).1
    simp only [same]
    exact h.runBound run bound
  timerBound := fun armed mem => h.timerBound armed (fewer armed mem)
  timerIds := fun armed mem other mem' =>
    h.timerIds armed (fewer armed mem) other (fewer other mem')
  timers := fun _ _ none => absurd none.symm (some_ne_none _)
  givenUp := by
    intro other _
    change ((Function.update s.queues queue _) other).active = none ∧
      ((Function.update s.queues queue _) other).drainTimer = false
    by_cases this : other = queue
    · subst this
      rw [update_self]
      exact ⟨rfl, rfl⟩
    · rw [update_of_ne this]
      apply h.givenUp
      exact fun here => this (Option.some.inj (here.symm.trans current))
  active := fun _ _ none => absurd none.symm (some_ne_none _)
  openCalls := by
    intro call bound isOpen
    refine Or.inl ⟨?_, (some_ne_none _).symm⟩
    rcases h.openCalls call bound isOpen with gone | leads
    · exact (kept _).2.1 gone.cancelled
    · have here := Option.some.inj (leads.current.symm.trans current)
      exact (kept _).2.2 (here ▸ leads.active)
  pendingBytes := fun _ none => absurd none.symm (some_ne_none _)
  waiting := fun _ none => absurd none.symm (some_ne_none _)
  nothingWaits := fun _ => rfl
  ordered := by
    have started := (pairwise_append.mp h.ordered).1
    rw [← append_nil (startedWrites s.actions)] at started
    exact started
  numbered := by
    intro write mem
    rcases mem_append.mp mem with started | nothing
    · exact h.numbered write (mem_append_left _ started)
    · exact absurd nothing not_mem_nil
  unfinished := fun _ mem => absurd mem not_mem_nil
  allowed := allowed_cons h.allowed (h.droppedBytes current)
  rest := fun _ none => absurd none.symm (some_ne_none _)

theorem abortTerminalWriteQueue_inv (h : Inv s) : Inv (s.abortTerminalWriteQueue onDropped) := by
  cases current : s.current with
  | none => exact abort_none h current
  | some queue =>
    obtain ⟨runs, stepTimers, shape, kept, fewer⟩ := abort_eq (s := s) current
    rw [shape]
    exact aborted_sound h.toSound current kept fewer

theorem setTerminalWriteQueueDropHandler_inv (h : Inv s) :
    Inv (s.setTerminalWriteQueueDropHandler onDropped) := by
  have told : Inv { s with dropHandler := onDropped } :=
    h.outside (List.Sublist.refl s.callsInside)
  unfold Terminal.setTerminalWriteQueueDropHandler
  simp only []
  split
  · next queue handler current =>
    have set : (({ s with dropHandler := some handler } : Terminal H).setQueue queue
        { s.queues queue with onDropped := some handler }).queues queue =
        { s.queues queue with onDropped := some handler } := update_self _ _ _
    constructor
    · apply told.toSound.setQueue
      · exact ⟨rfl, rfl, rfl⟩
      · exact fun armed mem _ here => here ▸ h.timers armed mem (here ▸ current)
      · exact fun elsewhere => absurd current elsewhere
    · intro other here
      obtain rfl := Option.some.inj (current.symm.trans here)
      have control : SameControl ((({ s with dropHandler := some handler } : Terminal H).setQueue
          queue { s.queues queue with onDropped := some handler }).queues queue)
          (s.queues queue) := by
        rw [set]
        exact ⟨rfl, rfl, rfl, rfl⟩
      exact (h.rest queue current).congr control rfl (fun _ _ _ => Iff.rfl)
        (fun _ mem _ => mem)
  · exact told

end

theorem clearStepTimer_elsewhere {armed : ArmedTimer} (h : Inv s)
    (mem : armed ∈ s.stepTimers) (elsewhere : s.current ≠ some armed.queue) :
    Inv (s.clearStepTimer armed.timer.id) where
  toSound := h.toSound.outside (fun _ left => (mem_filter.mp left).1)
    (List.Sublist.refl _)
  rest := by
    intro queue current
    have left : ∀ other ∈ s.stepTimers, other.queue = queue →
        other ∈ (s.clearStepTimer armed.timer.id).stepTimers := by
      intro other old same
      apply mem_filter.mpr
      refine ⟨old, decide_eq_true ?_⟩
      intro id
      have this := h.timerIds other old armed mem id
      exact elsewhere (this ▸ same ▸ current)
    have control : SameControl ((s.clearStepTimer armed.timer.id).queues queue)
        (s.queues queue) := ⟨rfl, rfl, rfl, rfl⟩
    exact (h.rest queue current).congr control rfl (fun _ _ _ => Iff.rfl) left

theorem stepTimerFires_inv {armed : ArmedTimer} (h : Inv s) (mem : armed ∈ s.stepTimers) :
    Inv (s.stepTimerFires armed) := by
  unfold Terminal.stepTimerFires
  simp only []
  by_cases current : s.current = some armed.queue
  · have own := h.timers armed mem current
    have here : ¬ ((s.clearStepTimer armed.timer.id).current ≠ some armed.queue ∨
        ((s.clearStepTimer armed.timer.id).queues armed.queue).stepTimer.map (·.id) ≠
          some armed.timer.id) := by
      rintro (wrong | wrong)
      · exact wrong current
      · exact wrong (congrArg (Option.map (·.id)) own)
    rw [if_neg here]
    exact resume_inv h mem current
  · have elsewhere : (s.clearStepTimer armed.timer.id).current ≠ some armed.queue := current
    rw [if_pos (Or.inl elsewhere)]
    exact clearStepTimer_elsewhere h mem current

theorem drainTimerFires_inv (h : Inv s) (armed : (s.queues queue).drainTimer) :
    Inv (s.drainTimerFires queue) := by
  have current : s.current = some queue := by
    by_contra elsewhere
    exact Bool.noConfusion (armed.symm.trans (h.givenUp queue elsewhere).2)
  exact drain_inv h current armed

/-! ### Runs -/

theorem initialTerminal_inv (clock : ℕ → ℚ) : Inv (initialTerminal (H := H) clock) where
  queueBound := fun _ none => absurd none.symm (some_ne_none _)
  runBound := fun _ bound => absurd bound (Nat.not_lt_zero _)
  callBound := fun _ bound => absurd bound (Nat.not_lt_zero _)
  timerBound := fun _ mem => absurd mem not_mem_nil
  timerIds := fun _ mem => absurd mem not_mem_nil
  timers := fun _ mem => absurd mem not_mem_nil
  givenUp := fun _ _ => ⟨rfl, rfl⟩
  active := fun _ _ none => absurd none.symm (some_ne_none _)
  openCalls := fun _ bound => absurd bound (Nat.not_lt_zero _)
  frames := fun _ mem => absurd mem not_mem_nil
  framesOnce := nodup_nil
  pendingBytes := fun _ none => absurd none.symm (some_ne_none _)
  waiting := fun _ none => absurd none.symm (some_ne_none _)
  nothingWaits := fun _ => rfl
  ordered := List.Pairwise.nil
  numbered := fun _ mem => absurd mem not_mem_nil
  unfinished := fun _ mem => absurd mem not_mem_nil
  allowed := fun later _ _ shape => absurd shape.symm (append_ne_nil_of_right_ne_nil
    later (cons_ne_nil _ _))
  rest := fun _ none => absurd none.symm (some_ne_none _)

theorem step_inv (h : Inv s) (event : Event H) : Inv (step s event) := by
  cases event with
  | setDropHandler onDropped => exact setTerminalWriteQueueDropHandler_inv h
  | enqueue bytes options => exact enqueueTerminalWrite_inv h
  | flush => exact flushLoop_inv flushGuard h
  | abort onDropped => exact abortTerminalWriteQueue_inv h
  | done call =>
    simp only [step]
    split
    · next possible => exact callDone_inv h possible.1 possible.2
    · exact h
  | writeReturns => exact writeReturns_inv h
  | drainTimer queue =>
    simp only [step]
    split
    · next possible => exact drainTimerFires_inv h possible.2.2
    · exact h
  | stepTimer index =>
    simp only [step]
    split
    · next armed _ found => exact stepTimerFires_inv h (mem_of_getElem? found)
    · exact h

theorem runEvents_inv (h : Inv s) (events : List (Event H)) : Inv (runEvents s events) := by
  induction events generalizing s with
  | nil => exact h
  | cons event rest ih => exact ih (step_inv h event)

def Terminal.writeInProgress (s : Terminal H) (queue : QueueRef) : Prop :=
  ∃ call < s.nextCall, (s.runs (s.calls call).run).queue = queue ∧ (s.calls call).Open

def Terminal.timerArmed (s : Terminal H) (queue : QueueRef) : Prop :=
  (s.queues queue).drainTimer = true ∨
    ∃ armed ∈ s.stepTimers, armed.queue = queue ∧
      (s.queues queue).stepTimer = some armed.timer

def Terminal.queueHandler (s : Terminal H) : Option H :=
  s.current.bind fun queue => (s.queues queue).onDropped

theorem Inv.timerArmed (h : Inv s) (current : s.current = some queue)
    (idle : ¬ s.writeInProgress queue) : s.timerArmed queue := by
  cases h.rest queue current with
  | drain _ drainTimer _ => exact Or.inl drainTimer
  | write run call active _ _ _ running =>
    have here := (h.active queue run current active).2.1
    exact absurd ⟨call, running.bound, running.same ▸ here, running.isOpen⟩ idle
  | step armed _ _ _ stepTimer mem same _ => exact Or.inr ⟨armed, mem, same, stepTimer⟩

/-- In every run, whatever its callers do and whenever its timers fire, the queue runs
each write at most once and in order.

A write starts as the first of those enqueued since the last abort that have not
started, when each write started since then has completed.  An abort drops exactly the
writes that have not started: it adds up their `dropBytes`, and tells the total to the
handler when it is not zero.  The writes that have not started are the steps that wait
in the queue; while there are any and no write of the queue is in progress, one of its
timers is armed. -/
theorem writes_run_in_order (clock : ℕ → ℚ) (events : List (Event H)) :
    let s := runEvents (initialTerminal clock) events
    (startedWrites s.actions).Pairwise (· < ·) ∧
    (∀ later write earlier, s.actions = later ++ .started write :: earlier →
      (unstarted earlier).head?.map Prod.fst = some write ∧ unfinished earlier = []) ∧
    (∀ later dropped told earlier, s.actions = later ++ .aborted dropped told :: earlier →
      dropped = ((unstarted earlier).map Prod.snd).sum) ∧
    (∀ onDropped, (step s (.abort onDropped)).actions =
      .aborted ((unstarted s.actions).map Prod.snd).sum
        (if 0 < ((unstarted s.actions).map Prod.snd).sum then onDropped <|> s.queueHandler
          else none) :: s.actions) ∧
    (∀ queue, s.current = some queue →
      (s.queues queue).pendingBytes = ((s.queues queue).pending.map (·.bytes)).sum ∧
      unstarted s.actions = (s.waitingSteps queue).map (·.entry) ∧
      (¬ s.writeInProgress queue → s.timerArmed queue)) ∧
    (s.current = none → unstarted s.actions = []) := by
  intro s
  have h : Inv s := runEvents_inv (initialTerminal_inv clock) events
  refine ⟨(pairwise_append.mp h.ordered).1, ?_, ?_, ?_, ?_, h.nothingWaits⟩
  · exact fun later write earlier shape => h.allowed later _ earlier shape
  · exact fun later dropped told earlier shape => h.allowed later _ earlier shape
  · intro onDropped
    cases current : s.current with
    | none =>
      change (s.abortTerminalWriteQueue onDropped).actions = _
      unfold Terminal.abortTerminalWriteQueue
      rw [current, h.nothingWaits current]
      rfl
    | some queue =>
      obtain ⟨_, _, shape, _, _⟩ := abort_eq (s := s) current
      change (s.abortTerminalWriteQueue onDropped).actions = _
      rw [shape, ← h.toSound.droppedBytes current, Terminal.queueHandler, current]
      rfl
  · exact fun queue current => ⟨h.pendingBytes queue current, h.waiting queue current,
      h.timerArmed current⟩

end Netcatty.TerminalWrites
