import Netcatty.TerminalWriteQueue

/-!
What the actions of a terminal promise, and how they hang together with its queue.

The writes that have not started and the writes that have not completed are read off
the actions alone.  `Sound` ties both to the state at every point of the code; what the
active item may be doing is told apart by `AtRest`, `Ready` and `Advancing`.
-/

namespace Netcatty.TerminalWrites

open List

variable {H : Type}

/-- The writes enqueued since the last abort that have not started, oldest first, each
with its `dropBytes`.  Here and below the actions are newest first. -/
def unstarted : List (Action H) → List (ℕ × ℕ)
  | [] => []
  | .enqueued write dropBytes :: earlier => unstarted earlier ++ [(write, dropBytes)]
  | .started write :: earlier => (unstarted earlier).filter (fun entry => entry.1 ≠ write)
  | .aborted _ _ :: _ => []
  | .completed _ :: earlier => unstarted earlier
  | .flushed _ :: earlier => unstarted earlier

/-- The writes started since the last abort that have not completed. -/
def unfinished : List (Action H) → List ℕ
  | [] => []
  | .started write :: earlier => write :: unfinished earlier
  | .completed write :: earlier => (unfinished earlier).filter (fun other => other ≠ write)
  | .aborted _ _ :: _ => []
  | .enqueued _ _ :: earlier => unfinished earlier
  | .flushed _ :: earlier => unfinished earlier

def startedWrites : List (Action H) → List ℕ
  | [] => []
  | .started write :: earlier => startedWrites earlier ++ [write]
  | .enqueued _ _ :: earlier => startedWrites earlier
  | .completed _ :: earlier => startedWrites earlier
  | .aborted _ _ :: earlier => startedWrites earlier
  | .flushed _ :: earlier => startedWrites earlier

/-- What an action owes to the actions before it: a write starts as the first of those
that have not started, when every other has completed, and an abort drops exactly the
writes that have not started. -/
def Allowed : Action H → List (Action H) → Prop
  | .started write, earlier =>
    (unstarted earlier).head?.map Prod.fst = some write ∧ unfinished earlier = []
  | .aborted dropped _, earlier => dropped = ((unstarted earlier).map Prod.snd).sum
  | _, _ => True

def QueuedWriteStep.entry (step : QueuedWriteStep) : ℕ × ℕ := (step.write, step.dropBytes)

def Terminal.activeSteps (s : Terminal H) (queue : QueueRef) : List QueuedWriteStep :=
  match (s.queues queue).active with
  | some run => (s.runs run).item.steps.drop (s.runs run).nextIndex
  | none => []

def Terminal.waitingSteps (s : Terminal H) (queue : QueueRef) : List QueuedWriteStep :=
  s.activeSteps queue ++ (s.queues queue).pending.flatMap (·.steps)

def Frame.call? : Frame → Option CallRef
  | .write call => some call
  | .flush _ => none

/-- The calls that have not returned, innermost first. -/
def Terminal.callsInside (s : Terminal H) : List CallRef := s.stack.filterMap Frame.call?

def WriteCall.Open (call : WriteCall) : Prop := call.insideWrite = true ∨ call.called = false

/-- The activation was cancelled and belongs to a queue that was given up. -/
structure Gone (s : Terminal H) (run : RunRef) : Prop where
  cancelled : (s.runs run).cancelled = true
  elsewhere : s.current ≠ some (s.runs run).queue

structure Leads (s : Terminal H) (run : RunRef) : Prop where
  current : s.current = some (s.runs run).queue
  active : (s.queues (s.runs run).queue).active = some run

structure Sound (s : Terminal H) : Prop where
  queueBound : ∀ queue, s.current = some queue → queue < s.nextQueue
  runBound : ∀ run < s.nextRun, (s.runs run).queue < s.nextQueue
  callBound : ∀ call < s.nextCall, (s.calls call).run < s.nextRun
  timerBound : ∀ armed ∈ s.stepTimers,
    armed.queue < s.nextQueue ∧ armed.timer.id < s.nextTimer
  timerIds : ∀ armed ∈ s.stepTimers, ∀ other ∈ s.stepTimers,
    armed.timer.id = other.timer.id → armed = other
  timers : ∀ armed ∈ s.stepTimers, s.current = some armed.queue →
    (s.queues armed.queue).stepTimer = some armed.timer
  givenUp : ∀ queue, s.current ≠ some queue →
    (s.queues queue).active = none ∧ (s.queues queue).drainTimer = false
  active : ∀ queue run, s.current = some queue → (s.queues queue).active = some run →
    run < s.nextRun ∧ (s.runs run).queue = queue ∧ (s.runs run).cancelled = false ∧
      (s.runs run).completed = false
  openCalls : ∀ call < s.nextCall, (s.calls call).Open →
    Gone s (s.calls call).run ∨ Leads s (s.calls call).run
  frames : ∀ call ∈ s.callsInside, call < s.nextCall ∧ (s.calls call).insideWrite = true
  framesOnce : s.callsInside.Nodup
  pendingBytes : ∀ queue, s.current = some queue →
    (s.queues queue).pendingBytes = ((s.queues queue).pending.map (·.bytes)).sum
  waiting : ∀ queue, s.current = some queue →
    unstarted s.actions = (s.waitingSteps queue).map (·.entry)
  nothingWaits : s.current = none → unstarted s.actions = []
  ordered : (startedWrites s.actions ++ (unstarted s.actions).map Prod.fst).Pairwise (· < ·)
  numbered : ∀ write ∈ startedWrites s.actions ++ (unstarted s.actions).map Prod.fst,
    write < s.nextWrite
  unfinished : ∀ write ∈ unfinished s.actions, ∃ call < s.nextCall,
    (s.calls call).called = false ∧ (s.calls call).step.write = write ∧
      Leads s (s.calls call).run
  allowed : ∀ later action earlier, s.actions = later ++ action :: earlier →
    Allowed action earlier

/-- A write of the activation is in progress, and no other. -/
structure Writing (s : Terminal H) (run : RunRef) (call : CallRef) : Prop where
  bound : call < s.nextCall
  same : (s.calls call).run = run
  isOpen : (s.calls call).Open
  only : ∀ other < s.nextCall, (s.calls other).run = run → (s.calls other).Open →
    other = call

/-- No write of the activation is in progress. -/
def Quiet (s : Terminal H) (run : RunRef) : Prop :=
  ∀ call < s.nextCall, (s.calls call).run = run → ¬ (s.calls call).Open

inductive AtRest (s : Terminal H) (queue : QueueRef) : Prop
  | drain (active : (s.queues queue).active = none)
      (drainTimer : (s.queues queue).drainTimer = true)
      (stepTimer : (s.queues queue).stepTimer = none)
  | write (run : RunRef) (call : CallRef) (active : (s.queues queue).active = some run)
      (writing : (s.queues queue).writing = true)
      (drainTimer : (s.queues queue).drainTimer = false)
      (stepTimer : (s.queues queue).stepTimer = none)
      (running : Writing s run call)
  | step (armed : ArmedTimer) (active : (s.queues queue).active = some armed.timer.continuation)
      (writing : (s.queues queue).writing = true)
      (drainTimer : (s.queues queue).drainTimer = false)
      (stepTimer : (s.queues queue).stepTimer = some armed.timer)
      (mem : armed ∈ s.stepTimers) (same : armed.queue = queue)
      (quiet : Quiet s armed.timer.continuation)

/-- The invariant between events, and whenever a caller's code runs. -/
structure Inv (s : Terminal H) : Prop extends Sound s where
  rest : ∀ queue, s.current = some queue → AtRest s queue

/-- The queue has no active item and no timer, as before
`scheduleNextTerminalWrite` runs. -/
structure Ready (s : Terminal H) (queue : QueueRef) : Prop extends Sound s where
  current : s.current = some queue
  inactive : (s.queues queue).active = none
  drainTimer : (s.queues queue).drainTimer = false
  stepTimer : (s.queues queue).stepTimer = none

/-- The activation is the active one and is to take its next step. -/
structure Advancing (s : Terminal H) (queue : QueueRef) (run : RunRef) : Prop
    extends Sound s where
  current : s.current = some queue
  isActive : (s.queues queue).active = some run
  writing : (s.queues queue).writing = true
  drainTimer : (s.queues queue).drainTimer = false
  stepTimer : (s.queues queue).stepTimer = none
  quiet : Quiet s run

/-! ### Actions -/

theorem allowed_cons {actions : List (Action H)} {action : Action H}
    (before : ∀ later a earlier, actions = later ++ a :: earlier → Allowed a earlier)
    (now : Allowed action actions) :
    ∀ later a earlier, action :: actions = later ++ a :: earlier → Allowed a earlier := by
  intro later a earlier shape
  cases later with
  | nil =>
    obtain ⟨rfl, rfl⟩ := List.cons.inj shape
    exact now
  | cons first later => exact before later a earlier (List.cons.inj shape).2

/-- A start takes the first of the waiting writes. -/
theorem unstarted_started {actions : List (Action H)} {entry : ℕ × ℕ} {rest : List (ℕ × ℕ)}
    (shape : unstarted actions = entry :: rest)
    (ordered : ((unstarted actions).map Prod.fst).Pairwise (· < ·)) :
    unstarted (.started entry.1 :: actions) = rest := by
  rw [shape, map_cons, pairwise_cons] at ordered
  rw [unstarted, shape, filter_cons_of_neg (by simp), filter_eq_self]
  intro other mem
  have later := ordered.1 other.1 (List.mem_map_of_mem mem)
  exact decide_eq_true (Nat.ne_of_gt later)

theorem sum_dropBytes_flatMap (items : List QueuedWrite) :
    (items.map (·.dropBytes)).sum = ((items.flatMap (·.steps)).map (·.dropBytes)).sum := by
  induction items with
  | nil => rfl
  | cons item _ ih => simp [item.dropsOfSteps, ih]

section

variable {s : Terminal H} {queue : QueueRef}

theorem Sound.droppedBytes (h : Sound s) (current : s.current = some queue) :
    s.droppedBytes queue = ((unstarted s.actions).map Prod.snd).sum := by
  have drops : ∀ steps : List QueuedWriteStep,
      ((steps.map (·.entry)).map Prod.snd).sum = (steps.map (·.dropBytes)).sum := by
    intro steps
    rw [List.map_map]
    rfl
  rw [h.waiting queue current, drops, Terminal.waitingSteps, Terminal.droppedBytes,
    sum_dropBytes_flatMap, map_append, sum_append, Nat.add_comm]
  congr 1
  unfold Terminal.activeSteps
  cases (s.queues queue).active with
  | none => rfl
  | some run => rfl

theorem Sound.unfinished_nil {s : Terminal H} (h : Sound s)
    (quiet : ∀ run, Leads s run → Quiet s run) : TerminalWrites.unfinished s.actions = [] := by
  apply eq_nil_iff_forall_not_mem.mpr
  intro write mem
  obtain ⟨call, bound, notCalled, _, leads⟩ := h.unfinished write mem
  exact quiet _ leads call bound rfl (Or.inr notCalled)

theorem Ready.unfinished_nil (h : Ready s queue) : TerminalWrites.unfinished s.actions = [] := by
  apply h.toSound.unfinished_nil
  intro run leads
  have same : (s.runs run).queue = queue :=
    Option.some.inj (leads.current.symm.trans h.current)
  have active := leads.active
  rw [same, h.inactive] at active
  exact absurd active.symm (Option.some_ne_none run)

theorem Advancing.here {run : RunRef} (h : Advancing s queue run) : (s.runs run).queue = queue :=
  (h.active queue run h.current h.isActive).2.1

theorem Advancing.unfinished_nil {run : RunRef}
    (h : Advancing s queue run) : TerminalWrites.unfinished s.actions = [] := by
  apply h.toSound.unfinished_nil
  intro other leads
  have same : (s.runs other).queue = queue :=
    Option.some.inj (leads.current.symm.trans h.current)
  have active := leads.active
  rw [same, h.isActive] at active
  exact Option.some.inj active ▸ h.quiet

end

end Netcatty.TerminalWrites
