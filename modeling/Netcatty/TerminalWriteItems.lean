import Netcatty.TerminalWriteFrames

/-!
How the queue goes from one write to the next.

A started write, a finished item, the choice of the next one and an armed timer lead
from one point of the code to another, each with the invariant of that point.
-/

namespace Netcatty.TerminalWrites

open List Option Function

variable {H : Type} {s : Terminal H} {queue : QueueRef} {run : RunRef}

/-! ### A write starts -/

theorem startStep_run (s : Terminal H) (run : RunRef) (step : QueuedWriteStep)
    (other : RunRef) :
    ((s.startStep run step).runs other).queue = (s.runs other).queue ∧
      ((s.startStep run step).runs other).cancelled = (s.runs other).cancelled ∧
      ((s.startStep run step).runs other).completed = (s.runs other).completed := by
  have runs : (s.startStep run step).runs = Function.update s.runs run
      { s.runs run with nextIndex := (s.runs run).nextIndex + 1 } := rfl
  rw [runs]
  by_cases same : other = run
  · subst same
    rw [update_self]
    exact ⟨rfl, rfl, rfl⟩
  · rw [update_of_ne same]
    exact ⟨rfl, rfl, rfl⟩

variable {step : QueuedWriteStep}

theorem startStep_call_new : (s.startStep run step).calls s.nextCall =
      { run, step, insideWrite := true, called := false } := update_self _ _ _

theorem startStep_call_old {call : CallRef}
    (bound : call < s.nextCall) : (s.startStep run step).calls call = s.calls call :=
  update_of_ne (Nat.ne_of_lt bound) _ _

theorem startStep_leads {other : RunRef} (h : Leads s other) :
    Leads (s.startStep run step) other := by
  have kept := (startStep_run s run step other).1
  constructor
  · rw [kept]
    exact h.current
  · rw [kept]
    exact h.active

theorem startStep_gone {other : RunRef} (h : Gone s other) :
    Gone (s.startStep run step) other := by
  have kept := startStep_run s run step other
  constructor
  · exact kept.2.1.trans h.cancelled
  · rw [kept.1]
    exact h.elsewhere

section

variable (h : Advancing s queue run)
  (next : (s.runs run).item.steps[(s.runs run).nextIndex]? = some step)
include h next

theorem Advancing.waitingSteps_cons :
    s.waitingSteps queue = step :: (s.startStep run step).waitingSteps queue := by
  obtain ⟨bound, found⟩ := List.getElem?_eq_some_iff.mp next
  have active : (s.startStep run step).activeSteps queue =
      (s.runs run).item.steps.drop ((s.runs run).nextIndex + 1) := by
    have here : ((s.startStep run step).queues queue).active = some run := h.isActive
    have index : (s.startStep run step).runs run =
        { s.runs run with nextIndex := (s.runs run).nextIndex + 1 } := setRun_at
    rw [Terminal.activeSteps, here]
    simp only [index]
  have before : s.activeSteps queue = step :: (s.startStep run step).activeSteps queue := by
    rw [active, Terminal.activeSteps, h.isActive]
    simp only [drop_eq_getElem_cons bound, found]
  rw [Terminal.waitingSteps, before, Terminal.waitingSteps]
  rfl

omit h next in
theorem Sound.unstarted_ordered (h : Sound s) :
    ((unstarted s.actions).map Prod.fst).Pairwise (· < ·) :=
  (pairwise_append.mp h.ordered).2.1

theorem startStep_sound : Sound (s.startStep run step) := by
  have leads : Leads s run := ⟨by rw [h.here]; exact h.current, by rw [h.here]; exact h.isActive⟩
  have runKnown : run < s.nextRun := (h.active queue run h.current h.isActive).1
  have shape : unstarted s.actions =
      step.entry :: ((s.startStep run step).waitingSteps queue).map (·.entry) := by
    rw [h.waiting queue h.current, h.waitingSteps_cons next, map_cons]
  have taken : unstarted (s.startStep run step).actions =
      ((s.startStep run step).waitingSteps queue).map (·.entry) :=
    unstarted_started shape h.toSound.unstarted_ordered
  have inOrder : startedWrites (s.startStep run step).actions ++
      (unstarted (s.startStep run step).actions).map Prod.fst =
      startedWrites s.actions ++ (unstarted s.actions).map Prod.fst := by
    rw [taken, shape, map_cons]
    exact append_assoc _ _ _
  exact
  { h.toSound with
    runBound := by
      intro other bound
      rw [(startStep_run s run step other).1]
      exact h.runBound other bound
    callBound := by
      intro call bound
      by_cases new : call = s.nextCall
      · rw [new, startStep_call_new]
        exact runKnown
      · have old : call < s.nextCall := Nat.lt_of_le_of_ne (Nat.le_of_lt_succ bound) new
        rw [startStep_call_old old]
        exact h.callBound call old
    active := by
      intro other active current isActive
      have kept := startStep_run s run step active
      rw [kept.1, kept.2.1, kept.2.2]
      exact h.active other active current isActive
    openCalls := by
      intro call bound isOpen
      by_cases new : call = s.nextCall
      · rw [new, startStep_call_new]
        exact Or.inr (startStep_leads leads)
      · have old : call < s.nextCall := Nat.lt_of_le_of_ne (Nat.le_of_lt_succ bound) new
        rw [startStep_call_old old] at isOpen ⊢
        exact (h.openCalls call old isOpen).imp startStep_gone startStep_leads
    frames := by
      intro call mem
      rcases mem_cons.mp mem with new | mem
      · rw [new, startStep_call_new]
        exact ⟨Nat.lt_succ_self _, rfl⟩
      · have old := h.frames call mem
        rw [startStep_call_old old.1]
        exact ⟨Nat.lt_succ_of_lt old.1, old.2⟩
    framesOnce := by
      apply nodup_cons.mpr
      exact ⟨fun mem => Nat.lt_irrefl _ (h.frames _ mem).1, h.framesOnce⟩
    waiting := by
      intro other current
      obtain rfl := Option.some.inj (h.current.symm.trans current)
      exact taken
    nothingWaits := fun none => absurd (h.current.symm.trans none) (some_ne_none _)
    ordered := inOrder ▸ h.ordered
    numbered := inOrder ▸ h.numbered
    unfinished := by
      intro write mem
      have started : write = step.write := by
        have alone : write ∈ step.write :: TerminalWrites.unfinished s.actions := mem
        rw [h.unfinished_nil] at alone
        exact mem_singleton.mp alone
      refine ⟨s.nextCall, Nat.lt_succ_self _, ?_⟩
      rw [startStep_call_new, started]
      exact ⟨rfl, rfl, startStep_leads leads⟩
    allowed := by
      apply allowed_cons h.allowed
      exact ⟨by rw [shape]; rfl, h.unfinished_nil⟩ }

theorem startStep_inv : Inv (s.startStep run step) where
  toSound := startStep_sound h next
  rest := by
    intro other current
    obtain rfl := Option.some.inj (h.current.symm.trans current)
    refine AtRest.write (s := s.startStep run step) run s.nextCall h.isActive h.writing
      h.drainTimer h.stepTimer ?_
    have new : (s.startStep run step).calls s.nextCall =
        { run, step, insideWrite := true, called := false } := startStep_call_new
    refine ⟨Nat.lt_succ_self _, congrArg WriteCall.run new, ?_, ?_⟩
    · rw [new]
      exact Or.inl rfl
    · intro call bound same isOpen
      by_cases old : call < s.nextCall
      · rw [startStep_call_old old] at same isOpen
        exact absurd isOpen (h.quiet call old same)
      · exact Nat.le_antisymm (Nat.le_of_lt_succ bound) (Nat.le_of_not_lt old)

end

/-! ### The next item -/

theorem deferQueueDrain_inv (h : Ready s queue) : Inv (s.deferQueueDrain queue) := by
  have same : SameItems { s.queues queue with turnStartedAt := 0 } (s.queues queue) :=
    ⟨rfl, rfl, rfl⟩
  have ended := h.setQueue same rfl rfl
  rw [Terminal.deferQueueDrain, if_neg (by rw [h.drainTimer]; exact Bool.false_ne_true)]
  constructor
  · apply ended.toSound.setQueue
    · exact ⟨rfl, rfl, rfl⟩
    · exact fun armed mem current here => here ▸ ended.timers armed mem (here ▸ current)
    · exact fun elsewhere => absurd h.current elsewhere
  · intro other current
    obtain rfl := Option.some.inj (h.current.symm.trans current)
    apply AtRest.drain
    · exact (congrArg TerminalWriteQueue.active setQueue_at).trans ended.inactive
    · exact congrArg TerminalWriteQueue.drainTimer setQueue_at
    · exact (congrArg TerminalWriteQueue.stepTimer setQueue_at).trans ended.stepTimer

theorem Ready.gone (h : Ready s queue) {call : CallRef} (bound : call < s.nextCall)
    (isOpen : (s.calls call).Open) : Gone s (s.calls call).run := by
  apply (h.openCalls call bound isOpen).resolve_right
  intro leads
  have same := Option.some.inj (leads.current.symm.trans h.current)
  have active := leads.active
  rw [same, h.inactive] at active
  exact some_ne_none _ active.symm

/-- The state `runNextItem` reaches before the first step of `next` starts. -/
private def itemBegun (s : Terminal H) (queue : QueueRef) (next : QueuedWrite)
    (rest : List QueuedWrite) : Terminal H :=
  let value := s.queues queue
  { (s.setQueue queue { value with
      pending := rest, pendingBytes := value.pendingBytes - next.bytes, writing := true,
      active := some s.nextRun }).readClock.setRun s.nextRun
        (QueuedRun.begin next queue (s.clock s.readings)) with
    nextRun := s.nextRun + 1 }

variable {next : QueuedWrite} {rest : List QueuedWrite}

theorem itemBegun_queue : (itemBegun s queue next rest).queues queue = { s.queues queue with
      pending := rest, pendingBytes := (s.queues queue).pendingBytes - next.bytes,
      writing := true, active := some s.nextRun } := update_self _ _ _

theorem itemBegun_other {other : QueueRef} (different : other ≠ queue) :
    (itemBegun s queue next rest).queues other = s.queues other :=
  update_of_ne different _ _

theorem itemBegun_run : (itemBegun s queue next rest).runs s.nextRun =
      QueuedRun.begin next queue (s.clock s.readings) := update_self _ _ _

theorem itemBegun_old {other : RunRef}
    (old : other < s.nextRun) : (itemBegun s queue next rest).runs other = s.runs other :=
  update_of_ne (Nat.ne_of_lt old) _ _

section

variable (h : Ready s queue) (pending : (s.queues queue).pending = next :: rest)

include h pending

theorem itemBegun_waiting :
    (itemBegun s queue next rest).waitingSteps queue = s.waitingSteps queue := by
  have begun : (itemBegun s queue next rest).activeSteps queue = next.steps := by
    rw [Terminal.activeSteps, itemBegun_queue]
    simp only [itemBegun_run]
    rfl
  have before : s.activeSteps queue = [] := by
    rw [Terminal.activeSteps, h.inactive]
  rw [Terminal.waitingSteps, Terminal.waitingSteps, begun, before, itemBegun_queue, pending,
    nil_append, flatMap_cons]

theorem itemBegun_sound : Sound (itemBegun s queue next rest) where
  __ := h
  runBound := by
    intro run bound
    by_cases old : run < s.nextRun
    · rw [itemBegun_old old]
      exact h.runBound run old
    · obtain rfl := Nat.le_antisymm (Nat.le_of_lt_succ bound) (Nat.le_of_not_lt old)
      rw [itemBegun_run]
      exact h.queueBound queue h.current
  callBound := fun call bound => Nat.lt_succ_of_lt (h.callBound call bound)
  timers := by
    intro armed mem current
    have here : armed.queue = queue := Option.some.inj (current.symm.trans h.current)
    have timer := h.timers armed mem current
    rw [here] at timer ⊢
    rw [itemBegun_queue]
    exact timer
  givenUp := by
    intro other elsewhere
    have different : other ≠ queue := by
      rintro rfl
      exact elsewhere h.current
    rw [itemBegun_other different]
    exact h.givenUp other elsewhere
  active := by
    intro other run current isActive
    obtain rfl := Option.some.inj (h.current.symm.trans current)
    rw [itemBegun_queue] at isActive
    obtain rfl := Option.some.inj isActive
    rw [itemBegun_run]
    exact ⟨Nat.lt_succ_self _, rfl, rfl, rfl⟩
  openCalls := by
    intro call bound isOpen
    have gone := h.gone bound isOpen
    have same : (itemBegun s queue next rest).runs (s.calls call).run =
        s.runs (s.calls call).run := itemBegun_old (h.callBound call bound)
    left
    constructor
    · exact (congrArg QueuedRun.cancelled same).trans gone.cancelled
    · exact (congrArg QueuedRun.queue same).symm ▸ gone.elsewhere
  pendingBytes := by
    intro other current
    obtain rfl := Option.some.inj (h.current.symm.trans current)
    have total := h.pendingBytes queue h.current
    rw [pending, map_cons, sum_cons] at total
    rw [itemBegun_queue]
    exact Nat.sub_eq_of_eq_add' total
  waiting := by
    intro other current
    obtain rfl := Option.some.inj (h.current.symm.trans current)
    rw [itemBegun_waiting h pending]
    exact h.waiting queue h.current
  unfinished := fun write mem =>
    absurd mem (eq_nil_iff_forall_not_mem.mp h.unfinished_nil write)

theorem runNextItem_inv : Inv (s.runNextItem queue next rest) := by
  have advancing : Advancing (itemBegun s queue next rest) queue s.nextRun :=
    { toSound := itemBegun_sound h pending
      current := h.current
      isActive := congrArg TerminalWriteQueue.active itemBegun_queue
      writing := congrArg TerminalWriteQueue.writing itemBegun_queue
      drainTimer := (congrArg TerminalWriteQueue.drainTimer itemBegun_queue).trans h.drainTimer
      stepTimer := (congrArg TerminalWriteQueue.stepTimer itemBegun_queue).trans h.stepTimer
      quiet := fun call bound same _ => Nat.ne_of_lt (h.callBound call bound) same }
  apply startStep_inv advancing
  rw [itemBegun_run]
  exact head?_eq_getElem?.symm.trans
    (head?_eq_some_head next.hasStep)

end

theorem forget_inv (h : Ready s queue) (empty : (s.queues queue).pending = [])
    {value : TerminalWriteQueue H} (same : SameItems value (s.queues queue))
    (drainTimer : value.drainTimer = false) :
    Inv { s.setQueue queue value with current := none } := by
  have idle : ∀ other, ((s.setQueue queue value).queues other).active = none ∧
      ((s.setQueue queue value).queues other).drainTimer = false := by
    intro other
    by_cases here : other = queue
    · subst here
      rw [setQueue_at]
      exact ⟨same.active.trans h.inactive, drainTimer⟩
    · rw [setQueue_other here]
      apply h.givenUp
      exact fun current => here (Option.some.inj (current.symm.trans h.current))
  have nothing : unstarted s.actions = [] := by
    rw [h.waiting queue h.current, Terminal.waitingSteps, Terminal.activeSteps, h.inactive, empty]
    rfl
  exact
  { h.toSound with
    queueBound := fun _ none => absurd none.symm (some_ne_none _)
    timers := fun _ _ none => absurd none.symm (some_ne_none _)
    givenUp := fun other _ => idle other
    active := fun _ _ none => absurd none.symm (some_ne_none _)
    openCalls := fun call bound isOpen =>
      Or.inl ⟨(h.gone bound isOpen).cancelled, (some_ne_none _).symm⟩
    pendingBytes := fun _ none => absurd none.symm (some_ne_none _)
    waiting := fun _ none => absurd none.symm (some_ne_none _)
    nothingWaits := fun _ => nothing
    unfinished := fun write mem =>
      absurd mem (eq_nil_iff_forall_not_mem.mp h.unfinished_nil write)
    rest := fun _ none => absurd none.symm (some_ne_none _) }

theorem beginQueueTurn_ready (h : Ready s queue) : Ready (s.beginQueueTurn queue) queue := by
  unfold Terminal.beginQueueTurn
  by_cases started : (s.queues queue).turnStartedAt ≤ 0
  · rw [if_pos started]
    exact h.readClock.setQueue ⟨rfl, rfl, rfl⟩ rfl rfl
  · rw [if_neg started]
    exact h

theorem beginQueueTurn_pending :
    ((s.beginQueueTurn queue).queues queue).pending = (s.queues queue).pending := by
  unfold Terminal.beginQueueTurn
  by_cases started : (s.queues queue).turnStartedAt ≤ 0
  · rw [if_pos started, setQueue_at]
  · rw [if_neg started]

theorem isQueueTurnBudgetExceeded_ready (h : Ready s queue) :
    Ready (s.isQueueTurnBudgetExceeded queue).2 queue := by
  unfold Terminal.isQueueTurnBudgetExceeded
  by_cases ended : (s.queues queue).turnStartedAt ≤ 0
  · rw [if_pos ended]
    exact h
  · rw [if_neg ended]
    exact h.readClock

theorem isQueueTurnBudgetExceeded_queues :
    (s.isQueueTurnBudgetExceeded queue).2.queues = s.queues := by
  unfold Terminal.isQueueTurnBudgetExceeded
  by_cases ended : (s.queues queue).turnStartedAt ≤ 0
  · rw [if_pos ended]
  · rw [if_neg ended]
    rfl

theorem scheduleNextTerminalWrite_inv (h : Ready s queue) :
    Inv (s.scheduleNextTerminalWrite queue) := by
  unfold Terminal.scheduleNextTerminalWrite
  cases pending : (s.queues queue).pending with
  | nil =>
    change Inv (if s.current = some queue then _ else _)
    rw [if_pos h.current]
    exact forget_inv h pending ⟨rfl, rfl, rfl⟩ h.drainTimer
  | cons next rest =>
    simp only []
    have begun := beginQueueTurn_ready h
    have head := beginQueueTurn_pending.trans pending
    split
    · exact deferQueueDrain_inv (begun.setQueue ⟨rfl, rfl, rfl⟩ rfl rfl)
    · split
      · have read := isQueueTurnBudgetExceeded_ready begun
        split
        · exact deferQueueDrain_inv read
        · apply runNextItem_inv read
          rw [isQueueTurnBudgetExceeded_queues]
          exact head
      · exact runNextItem_inv begun head

theorem scheduleQueueDrain_inv {deferred : Bool} (h : Ready s queue) :
    Inv (s.scheduleQueueDrain queue deferred) := by
  rw [Terminal.scheduleQueueDrain, if_neg (by rw [h.drainTimer]; exact Bool.false_ne_true)]
  cases deferred with
  | true => exact deferQueueDrain_inv h
  | false => exact scheduleNextTerminalWrite_inv h

/-! ### The active item -/

theorem Advancing.release {value : TerminalWriteQueue H} (h : Advancing s queue run)
    (finished : (s.runs run).item.steps.length ≤ (s.runs run).nextIndex)
    (active : value.active = none) (pending : value.pending = (s.queues queue).pending)
    (pendingBytes : value.pendingBytes = (s.queues queue).pendingBytes)
    (drainTimer : value.drainTimer = false) (stepTimer : value.stepTimer = none) :
    Ready (s.setQueue queue value) queue where
  __ := h
  timers := fun armed mem current =>
    absurd (Option.some.inj (current.symm.trans h.current)) (h.noTimer armed mem)
  givenUp := by
    intro other elsewhere
    have different : other ≠ queue := by
      rintro rfl
      exact elsewhere h.current
    rw [setQueue_other different]
    exact h.givenUp other elsewhere
  active := by
    intro other run current isActive
    obtain rfl := Option.some.inj (h.current.symm.trans current)
    rw [setQueue_at, active] at isActive
    exact absurd isActive.symm (some_ne_none run)
  openCalls := by
    intro call bound isOpen
    rcases h.openCalls call bound isOpen with gone | leads
    · exact Or.inl ⟨gone.cancelled, gone.elsewhere⟩
    · have here := Option.some.inj (leads.current.symm.trans h.current)
      have same := leads.active
      rw [here, h.isActive] at same
      exact absurd isOpen (h.quiet call bound (Option.some.inj same).symm)
  pendingBytes := by
    intro other current
    obtain rfl := Option.some.inj (h.current.symm.trans current)
    rw [setQueue_at, pending, pendingBytes]
    exact h.pendingBytes queue h.current
  waiting := by
    intro other current
    obtain rfl := Option.some.inj (h.current.symm.trans current)
    have before : s.activeSteps queue = [] := by
      rw [Terminal.activeSteps, h.isActive]
      exact drop_eq_nil_of_le finished
    have after : (s.setQueue queue value).activeSteps queue = [] := by
      rw [Terminal.activeSteps, setQueue_at, active]
    have waiting := h.waiting queue h.current
    rw [Terminal.waitingSteps, before] at waiting
    rw [Terminal.waitingSteps, after, setQueue_at, pending]
    exact waiting
  unfinished := fun write mem =>
    absurd mem (eq_nil_iff_forall_not_mem.mp h.unfinished_nil write)
  inactive := (congrArg TerminalWriteQueue.active setQueue_at).trans active
  drainTimer := (congrArg TerminalWriteQueue.drainTimer setQueue_at).trans drainTimer
  stepTimer := (congrArg TerminalWriteQueue.stepTimer setQueue_at).trans stepTimer

theorem Ready.setRun {value : QueuedRun} (h : Ready s queue)
    (same : SameRun value (s.runs run)) : Ready (s.setRun run value) queue where
  __ := h
  toSound := by
    apply h.toSound.setRun same
    intro leads
    have here := Option.some.inj (leads.current.symm.trans h.current)
    have active := leads.active
    rw [here, h.inactive] at active
    exact absurd active.symm (some_ne_none run)

theorem itemDone_inv {value : QueuedRun} (h : Advancing s queue run)
    (same : SameRun value (s.runs run))
    (finished : (s.runs run).item.steps.length ≤ (s.runs run).nextIndex) :
    Inv ((s.setRun run value).itemDone run) := by
  unfold Terminal.itemDone
  simp only [setRun_at, same.queue, same.item, h.here]
  have active : ((s.setRun run value).queues queue).active = some run := h.isActive
  rw [if_neg (not_not.mpr active)]
  by_cases yields : (s.runs run).item.yieldAfter = true
  · rw [if_pos yields]
    have ready : Ready (s.setQueue queue
        { s.queues queue with active := none, drainBytes := 0 }) queue :=
      h.release finished rfl rfl rfl h.drainTimer h.stepTimer
    exact scheduleQueueDrain_inv (ready.setRun same)
  · rw [if_neg yields]
    have released : Ready (s.setQueue queue { s.queues queue with
        active := none,
        drainBytes := (s.queues queue).drainBytes + (s.runs run).item.bytes }) queue :=
      h.release finished rfl rfl rfl h.drainTimer h.stepTimer
    have ready := isQueueTurnBudgetExceeded_ready (released.setRun same)
    split
    · exact scheduleQueueDrain_inv (ready.setQueue ⟨rfl, rfl, rfl⟩ rfl rfl)
    · exact scheduleQueueDrain_inv ready

theorem itemDone_gone (h : Inv s) (gone : Gone s run) : s.itemDone run = s := by
  have idle := (h.givenUp _ gone.elsewhere).1
  unfold Terminal.itemDone
  simp only [idle]
  rw [if_pos (some_ne_none run).symm]

theorem runNext_inv (h : Advancing s queue run) : Inv (s.runNext run) := by
  obtain ⟨_, _, kept, going⟩ := h.active queue run h.current h.isActive
  unfold Terminal.runNext nextMove
  rw [if_neg (by rw [going]; exact Bool.false_ne_true),
    if_neg (by rw [kept]; exact Bool.false_ne_true)]
  cases next : (s.runs run).item.steps[(s.runs run).nextIndex]? with
  | none => exact itemDone_inv h ⟨rfl, rfl, rfl, rfl⟩ (List.getElem?_eq_none_iff.mp next)
  | some step =>
    simp only []
    by_cases full : 0 < (s.runs run).currentDrainBytes ∧
        (s.runs run).item.maxDrainBytes < (s.runs run).currentDrainBytes + step.bytes
    · rw [if_pos full]
      exact deferAndResume_inv h
    · rw [if_neg full]
      exact startStep_inv h next

theorem runNext_gone (h : Inv s) (gone : Gone s run) : Inv (s.runNext run) := by
  unfold Terminal.runNext nextMove
  by_cases completed : (s.runs run).completed = true
  · rw [if_pos completed]
    exact h
  · rw [if_neg completed, if_pos gone.cancelled]
    have same : SameRun { s.runs run with completed := true } (s.runs run) :=
      ⟨rfl, rfl, rfl, rfl⟩
    have after := h.setRun_gone gone same
    rw [← itemDone_gone after (gone.setRun same)] at after
    exact after

theorem resumeRun_inv (h : Advancing s queue run) : Inv (s.resumeRun run) :=
  runNext_inv (h.readClock.setRun ⟨rfl, rfl, rfl, rfl⟩ h.going)

/-- The activation after a step of `bytes` was counted. -/
private def counted (run : QueuedRun) (bytes : ℕ) : QueuedRun :=
  { run with currentDrainBytes := run.currentDrainBytes + bytes }

theorem counted_same (run : QueuedRun) (bytes : ℕ) : SameRun (counted run bytes) run :=
  ⟨rfl, rfl, rfl, rfl⟩

private def stepped (run : QueuedRun) (bytes : ℕ) : QueuedRun :=
  { counted run bytes with syncStepsSinceYield := run.syncStepsSinceYield + 1 }

theorem stepped_same (run : QueuedRun) (bytes : ℕ) : SameRun (stepped run bytes) run :=
  ⟨rfl, rfl, rfl, rfl⟩

/-- `continueAfterStep` yields, or takes the next step, over the counted activation. -/
theorem continueAfterStep_cases (s : Terminal H) (call : CallRef) :
    let run := (s.calls call).run
    let bytes := (s.calls call).step.bytes
    let once := s.setRun run (counted (s.runs run) bytes)
    let twice := s.setRun run (stepped (s.runs run) bytes)
    s.continueAfterStep call = once.deferAndResume run ∨
      s.continueAfterStep call = once.runNext run ∨
      s.continueAfterStep call = twice.deferAndResume run ∨
      s.continueAfterStep call = twice.readClock.deferAndResume run ∨
      s.continueAfterStep call = twice.readClock.runNext run := by
  intro run bytes once twice
  have again : once.setRun run
      { once.runs run with syncStepsSinceYield := (s.runs run).syncStepsSinceYield + 1 } =
      twice := by
    have value : once.runs run = counted (s.runs run) bytes := update_self _ _ _
    rw [value]
    simp only [once, twice, Terminal.setRun, update_idem]
    rfl
  unfold Terminal.continueAfterStep
  simp only []
  split
  · exact Or.inl rfl
  · split
    · split
      · exact Or.inr (Or.inr (Or.inl (congrArg (·.deferAndResume run) again)))
      · split
        · exact Or.inr (Or.inr (Or.inr (Or.inl
            (congrArg (fun t => t.readClock.deferAndResume run) again))))
        · exact Or.inr (Or.inr (Or.inr (Or.inr
            (congrArg (fun t => t.readClock.runNext run) again))))
    · exact Or.inr (Or.inl rfl)

theorem continueAfterStep_inv {call : CallRef} (h : Advancing s queue run)
    (same : (s.calls call).run = run) : Inv (s.continueAfterStep call) := by
  subst same
  have once := h.setRun (counted_same _ (s.calls call).step.bytes) h.going
  have twice := h.setRun (stepped_same _ (s.calls call).step.bytes) h.going
  rcases continueAfterStep_cases s call with result | result | result | result | result
  · exact result ▸ deferAndResume_inv once
  · exact result ▸ runNext_inv once
  · exact result ▸ deferAndResume_inv twice
  · exact result ▸ deferAndResume_inv twice.readClock
  · exact result ▸ runNext_inv twice.readClock

theorem continueAfterStep_gone {call : CallRef} (h : Inv s) (gone : Gone s (s.calls call).run)
    (bound : (s.calls call).run < s.nextRun) : Inv (s.continueAfterStep call) := by
  have once := counted_same (s.runs (s.calls call).run) (s.calls call).step.bytes
  have twice := stepped_same (s.runs (s.calls call).run) (s.calls call).step.bytes
  have gone' := gone.setRun twice
  have read := (h.setRun_gone gone twice).readClock
  rcases continueAfterStep_cases s call with result | result | result | result | result
  · exact result ▸ deferAndResume_gone (h.setRun_gone gone once) (gone.setRun once) bound
  · exact result ▸ runNext_gone (h.setRun_gone gone once) (gone.setRun once)
  · exact result ▸ deferAndResume_gone (h.setRun_gone gone twice) gone' bound
  · exact result ▸ deferAndResume_gone read ⟨gone'.cancelled, gone'.elsewhere⟩ bound
  · exact result ▸ runNext_gone read ⟨gone'.cancelled, gone'.elsewhere⟩

end Netcatty.TerminalWrites
