import Mathlib.Algebra.BigOperators.Group.List.Basic
import Mathlib.Algebra.GroupWithZero.Nat
import Mathlib.Algebra.Order.Ring.Rat
import Mathlib.Logic.Function.Basic

/-!
The queue of writes to one xterm.

A write is a function of the caller; the queue calls it with a completion callback,
which the function may call before it returns or later, and until it returns it may
call any of the queue's own functions.  The calls it is inside of form a stack: what
the code does after a write returns is kept as the frame of that call.
-/

namespace Netcatty.TerminalWrites

abbrev QueueRef := ℕ
/-- One activation of `runQueuedWrite`, and the item it runs. -/
abbrev RunRef := ℕ
/-- One call of a step's write. -/
abbrev CallRef := ℕ

def MAX_WRITE_QUEUE_ITEMS : ℕ := 32
def MAX_WRITE_QUEUE_BYTES : ℕ := 512 * 1024
def WRITE_QUEUE_TURN_BUDGET_MS : ℚ := 10
def MAX_TERMINAL_WRITE_QUEUE_DRAIN_BYTES : ℕ := 524288
def MAX_SYNC_MERGED_STEPS_BEFORE_YIELD : ℕ := 32

/-- The limit of the loop in `flushTerminalWriteQueueBypassingTimers`. -/
def flushGuard : ℕ := 4096

/-- `H` stands for the drop handlers. -/
structure TerminalWriteQueueOptions (H : Type) where
  onDropped : Option H
  /-- `none` when absent or not finite, here and below. -/
  dropBytes : Option ℤ
  deferStart : Bool
  yieldAfter : Bool
  maxDrainBytes : Option ℤ

structure QueuedWriteStep where
  bytes : ℕ
  dropBytes : ℕ
  /-- The caller's function, by the order of the calls to `enqueueTerminalWrite`. -/
  write : ℕ
  yieldAfter : Bool

/-- An item of the queue.  Its `nextIndex` and `cancelled` change only once it runs,
so they are kept with its activation. -/
structure QueuedWrite where
  bytes : ℕ
  dropBytes : ℕ
  steps : List QueuedWriteStep
  yieldAfter : Bool
  maxDrainBytes : ℕ
  hasStep : steps ≠ []
  dropsOfSteps : dropBytes = (steps.map (·.dropBytes)).sum

/-- The variables of an activation of `runQueuedWrite`.  `index` and the item's
`nextIndex` are always assigned together. -/
structure QueuedRun where
  item : QueuedWrite
  queue : QueueRef
  nextIndex : ℕ
  cancelled : Bool
  completed : Bool
  currentDrainBytes : ℕ
  syncStepsSinceYield : ℕ
  turnStartedAt : ℚ

/-- A call of a step's write: `insideWrite` until it returns, `called` once it has
called its completion callback. -/
structure WriteCall where
  run : RunRef
  step : QueuedWriteStep
  insideWrite : Bool
  called : Bool

/-- `stepTimer` and `stepContinuation`, which are set and cleared together.  The
continuation resumes the activation `continuation`. -/
structure StepTimer where
  id : ℕ
  continuation : RunRef
  deriving DecidableEq

structure TerminalWriteQueue (H : Type) where
  writing : Bool
  active : Option RunRef
  pending : List QueuedWrite
  pendingBytes : ℕ
  drainBytes : ℕ
  floodMode : Bool
  turnStartedAt : ℚ
  onDropped : Option H
  /-- Whether the drain timer is armed. -/
  drainTimer : Bool
  stepTimer : Option StepTimer

/-- A step timer of the event loop that has neither fired nor been cleared. -/
structure ArmedTimer where
  timer : StepTimer
  queue : QueueRef

/-- What is left to do once a call returns. -/
inductive Frame where
  | write (call : CallRef)
  /-- The loop of `flushTerminalWriteQueueBypassingTimers`, with its turns left. -/
  | flush (guard : ℕ)
  deriving DecidableEq

/-- What the queue's callers and the terminal can see. -/
inductive Action (H : Type) where
  | enqueued (write dropBytes : ℕ)
  | started (write : ℕ)
  /-- The completion callback of the write was called. -/
  | completed (write : ℕ)
  /-- An abort that dropped `droppedBytes`, and the handler it told. -/
  | aborted (droppedBytes : ℕ) (told : Option H)
  /-- `flushTerminalWriteQueueBypassingTimers` returned. -/
  | flushed (any : Bool)
  deriving DecidableEq

/-- One terminal: its entry in `terminalWriteQueues`, every queue, activation and call
ever made for it, and the actions so far, newest first. -/
structure Terminal (H : Type) where
  current : Option QueueRef
  queues : QueueRef → TerminalWriteQueue H
  nextQueue : QueueRef
  runs : RunRef → QueuedRun
  nextRun : RunRef
  calls : CallRef → WriteCall
  nextCall : CallRef
  stepTimers : List ArmedTimer
  nextTimer : ℕ
  /-- The terminal's entry in `terminalWriteQueueDropHandlers`. -/
  dropHandler : Option H
  nextWrite : ℕ
  /-- What `performance.now()` returns at each reading, and the readings so far. -/
  clock : ℕ → ℚ
  readings : ℕ
  stack : List Frame
  actions : List (Action H)

variable {H : Type}

def emptyQueue (onDropped : Option H) : TerminalWriteQueue H :=
  { writing := false, active := none, pending := [], pendingBytes := 0, drainBytes := 0,
    floodMode := false, turnStartedAt := 0, onDropped, drainTimer := false,
    stepTimer := none }

def QueuedWrite.single (step : QueuedWriteStep) (maxDrainBytes : ℕ) : QueuedWrite where
  bytes := step.bytes
  dropBytes := step.dropBytes
  steps := [step]
  yieldAfter := step.yieldAfter
  maxDrainBytes
  hasStep := List.cons_ne_nil step []
  dropsOfSteps := by simp

/-- The item `mergePendingWrites` makes of the pending items. -/
def QueuedWrite.merge (first : QueuedWrite) (rest : List QueuedWrite) : QueuedWrite where
  bytes := ((first :: rest).map (·.bytes)).sum
  dropBytes := ((first :: rest).map (·.dropBytes)).sum
  steps := (first :: rest).flatMap (·.steps)
  yieldAfter := (first :: rest).any (·.yieldAfter)
  maxDrainBytes := rest.foldl (fun least item => min least item.maxDrainBytes)
    first.maxDrainBytes
  hasStep := by simp [first.hasStep]
  dropsOfSteps := by
    induction first :: rest with
    | nil => rfl
    | cons item _ ih => simp [item.dropsOfSteps, ih]

def QueuedRun.begin (item : QueuedWrite) (queue : QueueRef) (turnStartedAt : ℚ) :
    QueuedRun :=
  { item, queue, nextIndex := 0, cancelled := false, completed := false,
    currentDrainBytes := 0, syncStepsSinceYield := 0, turnStartedAt }

def initialTerminal (clock : ℕ → ℚ) : Terminal H :=
  let step : QueuedWriteStep := { bytes := 0, dropBytes := 0, write := 0, yieldAfter := false }
  { current := none
    queues := fun _ => emptyQueue none
    nextQueue := 0
    runs := fun _ => QueuedRun.begin (QueuedWrite.single step 1) 0 0
    nextRun := 0
    calls := fun _ => { run := 0, step, insideWrite := false, called := false }
    nextCall := 0
    stepTimers := []
    nextTimer := 0
    dropHandler := none
    nextWrite := 0
    clock
    readings := 0
    stack := []
    actions := [] }

namespace Terminal

variable {H : Type}

variable (s : Terminal H) (queue : QueueRef)

def setQueue (value : TerminalWriteQueue H) :
    Terminal H :=
  { s with queues := Function.update s.queues queue value }

def setRun (run : RunRef) (value : QueuedRun) : Terminal H :=
  { s with runs := Function.update s.runs run value }

def setCall (call : CallRef) (value : WriteCall) : Terminal H :=
  { s with calls := Function.update s.calls call value }

def record (action : Action H) : Terminal H :=
  { s with actions := action :: s.actions }

/-- The state after a reading of the clock; the reading is `s.clock s.readings`. -/
def readClock : Terminal H :=
  { s with readings := s.readings + 1 }

def beginQueueTurn : Terminal H :=
  if (s.queues queue).turnStartedAt ≤ 0 then
    s.readClock.setQueue queue
      { s.queues queue with turnStartedAt := s.clock s.readings }
  else s

def endQueueTurn : Terminal H :=
  s.setQueue queue { s.queues queue with turnStartedAt := 0 }

/-- The answer, and the state after the reading it may take. -/
def isQueueTurnBudgetExceeded : Bool × Terminal H :=
  if (s.queues queue).turnStartedAt ≤ 0 then (false, s)
  else
    (decide (WRITE_QUEUE_TURN_BUDGET_MS ≤
      s.clock s.readings - (s.queues queue).turnStartedAt), s.readClock)

/-- The call of `step.write` in `runNext`, up to the point where it has control. -/
def startStep (run : RunRef) (step : QueuedWriteStep) : Terminal H :=
  let value := s.runs run
  let call : WriteCall := { run, step, insideWrite := true, called := false }
  { (s.setRun run { value with nextIndex := value.nextIndex + 1 }).setCall s.nextCall call with
    nextCall := s.nextCall + 1
    stack := .write s.nextCall :: s.stack
    actions := .started step.write :: s.actions }

/-- `runQueuedWrite`: a fresh item passes every guard of `runNext`
(`nextMove_begin` below), so its first step is written at once. -/
def runQueuedWrite (item : QueuedWrite) : Terminal H :=
  let run := QueuedRun.begin item queue (s.clock s.readings)
  let s := { s.readClock.setRun s.nextRun run with nextRun := s.nextRun + 1 }
  s.startStep (s.nextRun - 1) (item.steps.head item.hasStep)

/-- `scheduleQueueDrain` when it is deferred. -/
def deferQueueDrain : Terminal H :=
  if (s.queues queue).drainTimer then s
  else
    let s := s.endQueueTurn queue
    s.setQueue queue { s.queues queue with drainTimer := true }

/-- The last part of `scheduleNextTerminalWrite`, which runs the item it shifted. -/
def runNextItem (next : QueuedWrite)
    (rest : List QueuedWrite) : Terminal H :=
  let value := s.queues queue
  (s.setQueue queue { value with
    pending := rest, pendingBytes := value.pendingBytes - next.bytes, writing := true,
    active := some s.nextRun }).runQueuedWrite queue next

def scheduleNextTerminalWrite : Terminal H :=
  match (s.queues queue).pending with
  | [] =>
    let s := s.setQueue queue { s.queues queue with
      writing := false, drainBytes := 0, floodMode := false, turnStartedAt := 0 }
    if s.current = some queue then { s with current := none } else s
  | next :: rest =>
    let s := s.beginQueueTurn queue
    let drainBytes := (s.queues queue).drainBytes
    if 0 < drainBytes ∧ next.maxDrainBytes < drainBytes + next.bytes then
      (s.setQueue queue { s.queues queue with drainBytes := 0 }).deferQueueDrain queue
    else if 0 < drainBytes then
      let (exceeded, s) := s.isQueueTurnBudgetExceeded queue
      if exceeded then s.deferQueueDrain queue else s.runNextItem queue next rest
    else s.runNextItem queue next rest

def scheduleQueueDrain (deferred : Bool) : Terminal H :=
  if (s.queues queue).drainTimer then s
  else if deferred then s.deferQueueDrain queue
  else s.scheduleNextTerminalWrite queue

/-- The `done` that `scheduleNextTerminalWrite` gives to an activation. -/
def itemDone (run : RunRef) : Terminal H :=
  let queue := (s.runs run).queue
  let item := (s.runs run).item
  let value := s.queues queue
  if value.active ≠ some run then s
  else if item.yieldAfter then
    (s.setQueue queue { value with active := none, drainBytes := 0 }).scheduleQueueDrain
      queue true
  else
    let s := s.setQueue queue { value with
      active := none, drainBytes := value.drainBytes + item.bytes }
    let (shouldDefer, s) := s.isQueueTurnBudgetExceeded queue
    if shouldDefer then
      (s.setQueue queue { s.queues queue with drainBytes := 0 }).scheduleQueueDrain queue true
    else s.scheduleQueueDrain queue false

/-- `deferAndResume`, with the `deferStep` that `scheduleNextTerminalWrite` gives. -/
def deferAndResume (run : RunRef) : Terminal H :=
  let value := s.runs run
  let s := s.setRun run { value with syncStepsSinceYield := 0, currentDrainBytes := 0 }
  let s := s.endQueueTurn value.queue
  let timer : StepTimer := { id := s.nextTimer, continuation := run }
  let s := s.setQueue value.queue { s.queues value.queue with stepTimer := some timer }
  { s with
    stepTimers := s.stepTimers ++ [{ timer, queue := value.queue }]
    nextTimer := s.nextTimer + 1 }

end Terminal

/-- What `runNext` decides to do. -/
inductive Move where
  | nothing
  | finish
  | pause
  | write (step : QueuedWriteStep)

def nextMove (run : QueuedRun) : Move :=
  if run.completed then .nothing
  else if run.cancelled then .finish
  else
    match run.item.steps[run.nextIndex]? with
    | none => .finish
    | some step =>
      if 0 < run.currentDrainBytes ∧
          run.item.maxDrainBytes < run.currentDrainBytes + step.bytes then .pause
      else .write step

namespace Terminal

variable {H : Type}

variable (s : Terminal H)

def runNext (run : RunRef) : Terminal H :=
  match nextMove (s.runs run) with
  | .nothing => s
  | .finish => (s.setRun run { s.runs run with completed := true }).itemDone run
  | .pause => s.deferAndResume run
  | .write step => s.startStep run step

def continueAfterStep (call : CallRef) : Terminal H :=
  let step := (s.calls call).step
  let run := (s.calls call).run
  let value := s.runs run
  let s := s.setRun run
    { value with currentDrainBytes := value.currentDrainBytes + step.bytes }
  if step.yieldAfter ∧ value.nextIndex < value.item.steps.length then s.deferAndResume run
  else if value.nextIndex < value.item.steps.length then
    let steps := value.syncStepsSinceYield + 1
    let s := s.setRun run { s.runs run with syncStepsSinceYield := steps }
    if MAX_SYNC_MERGED_STEPS_BEFORE_YIELD ≤ steps then s.deferAndResume run
    else if WRITE_QUEUE_TURN_BUDGET_MS ≤ s.clock s.readings - value.turnStartedAt then
      s.readClock.deferAndResume run
    else s.readClock.runNext run
  else s.runNext run

/-- The continuation that `deferAndResume` passes on. -/
def resumeRun (run : RunRef) : Terminal H :=
  (s.readClock.setRun run
    { s.runs run with turnStartedAt := s.clock s.readings }).runNext run

def clearStepTimer (id : ℕ) : Terminal H :=
  { s with stepTimers := s.stepTimers.filter (fun armed => armed.timer.id ≠ id) }

variable (queue : QueueRef)

def flushTurn : Option (Terminal H) :=
  let value := s.queues queue
  match value.stepTimer with
  | some timer =>
    some (((s.clearStepTimer timer.id).setQueue queue { value with stepTimer := none }).resumeRun
      timer.continuation)
  | none =>
    if value.drainTimer then
      some ((s.setQueue queue { value with drainTimer := false }).scheduleNextTerminalWrite
        queue)
    else if !value.writing && !value.pending.isEmpty then
      some (s.scheduleNextTerminalWrite queue)
    else none

/-- The flush loop with `guard` turns left.  When a turn starts a write, the rest of
the loop waits in a frame below it. -/
def flushLoop (s : Terminal H) (any : Bool) : ℕ → Terminal H
  | 0 => s.record (.flushed any)
  | guard + 1 =>
    match s.current with
    | none => s.record (.flushed any)
    | some queue =>
      match ({ s with stack := .flush guard :: s.stack } : Terminal H).flushTurn queue with
      | none => s.record (.flushed any)
      | some s' =>
        match s'.stack with
        | .flush _ :: rest => flushLoop { s' with stack := rest } true guard
        | _ => s'

def flushTerminalWriteQueueBypassingTimers : Terminal H :=
  s.flushLoop false flushGuard

end Terminal

def resolveMaxDrainBytes (value : Option ℤ) : ℕ :=
  match value with
  | some bytes => if 0 < bytes then bytes.toNat else MAX_TERMINAL_WRITE_QUEUE_DRAIN_BYTES
  | none => MAX_TERMINAL_WRITE_QUEUE_DRAIN_BYTES

def mergePendingWrites (queue : TerminalWriteQueue H) : TerminalWriteQueue H :=
  match queue.pending with
  | first :: second :: rest =>
    let merged := QueuedWrite.merge first (second :: rest)
    { queue with pending := [merged], pendingBytes := merged.bytes, floodMode := true }
  | _ => queue

def updateFloodMode (queue : TerminalWriteQueue H) (nextBytes : ℕ) :
    TerminalWriteQueue H :=
  if queue.floodMode ∨ MAX_WRITE_QUEUE_ITEMS ≤ queue.pending.length ∨
      MAX_WRITE_QUEUE_BYTES < queue.pendingBytes + nextBytes then
    { queue with floodMode := true }
  else queue

/-- The queue after `item` is pushed, merged when it is in flood mode or too full. -/
def pushWrite (queue : TerminalWriteQueue H) (item : QueuedWrite) :
    TerminalWriteQueue H :=
  let queue := { queue with
    pending := queue.pending ++ [item], pendingBytes := queue.pendingBytes + item.bytes }
  if queue.floodMode ∨ MAX_WRITE_QUEUE_ITEMS ≤ queue.pending.length ∨
      MAX_WRITE_QUEUE_BYTES < queue.pendingBytes then
    mergePendingWrites queue
  else queue

namespace Terminal

variable {H : Type}

variable (s : Terminal H)

/-- The queue, and the state after it may have been made. -/
def getOrCreateQueue : QueueRef × Terminal H :=
  match s.current with
  | some queue => (queue, s)
  | none =>
    (s.nextQueue, { s.setQueue s.nextQueue (emptyQueue s.dropHandler) with
      current := some s.nextQueue, nextQueue := s.nextQueue + 1 })

def setTerminalWriteQueueDropHandler (onDropped : Option H) : Terminal H :=
  let s := { s with dropHandler := onDropped }
  match s.current, onDropped with
  | some queue, some handler =>
    s.setQueue queue { s.queues queue with onDropped := some handler }
  | _, _ => s

/-- The step `enqueueTerminalWrite` makes of the write. -/
def enqueuedStep (bytes : ℕ) (options : TerminalWriteQueueOptions H) :
    QueuedWriteStep :=
  let dropBytes := match options.dropBytes with
    | some count => (max 0 count).toNat
    | none => bytes
  { bytes, dropBytes, write := s.nextWrite, yieldAfter := options.yieldAfter }

variable (queue : QueueRef)

def pushedQueue (bytes : ℕ)
    (options : TerminalWriteQueueOptions H) : TerminalWriteQueue H :=
  let value := s.queues queue
  let value := { value with
    onDropped := options.onDropped <|> value.onDropped <|> s.dropHandler }
  pushWrite (updateFloodMode value bytes)
    (QueuedWrite.single (s.enqueuedStep bytes options)
      (resolveMaxDrainBytes options.maxDrainBytes))

/-- `enqueueTerminalWrite` up to the start of the drain. -/
def pushTerminalWrite (bytes : ℕ)
    (options : TerminalWriteQueueOptions H) : Terminal H :=
  { (s.setQueue queue (s.pushedQueue queue bytes options)).record
      (.enqueued s.nextWrite (s.enqueuedStep bytes options).dropBytes) with
    nextWrite := s.nextWrite + 1 }

def enqueueTerminalWrite (bytes : ℕ)
    (options : TerminalWriteQueueOptions H) : Terminal H :=
  let (queue, s) := s.getOrCreateQueue
  let s := s.pushTerminalWrite queue bytes options
  if !(s.queues queue).writing then s.scheduleQueueDrain queue options.deferStart else s

/-- The bytes of the writes an abort of `queue` drops. -/
def droppedBytes : ℕ :=
  (((s.queues queue).pending.map (·.dropBytes)).sum) +
    match (s.queues queue).active with
    | some run =>
      (((s.runs run).item.steps.drop (s.runs run).nextIndex).map (·.dropBytes)).sum
    | none => 0

/-- `queue.active.cancelled = true`, when there is an active item. -/
def cancelActive : Terminal H :=
  match (s.queues queue).active with
  | some run => s.setRun run { s.runs run with cancelled := true }
  | none => s

/-- `clearTimeout(queue.stepTimer)`, when it is armed. -/
def clearArmedStep : Terminal H :=
  match (s.queues queue).stepTimer with
  | some timer => s.clearStepTimer timer.id
  | none => s

def abortTerminalWriteQueue (onDropped : Option H) : Terminal H :=
  match s.current with
  | none => s.record (.aborted 0 none)
  | some queue =>
    let dropped := s.droppedBytes queue
    let s := (s.cancelActive queue).clearArmedStep queue
    let value := s.queues queue
    let s := s.setQueue queue { value with
      pending := [], pendingBytes := 0, writing := false, floodMode := false,
      turnStartedAt := 0, active := none, drainTimer := false, stepTimer := none }
    let told := if 0 < dropped then onDropped <|> value.onDropped else none
    { s.record (.aborted dropped told) with current := none }

def callDone (call : CallRef) : Terminal H :=
  let value := s.calls call
  let s := (s.setCall call { value with called := true }).record (.completed value.step.write)
  if value.insideWrite then s else s.continueAfterStep call

/-- The innermost write returns; what its callers have left to do follows. -/
def writeReturns : Terminal H :=
  match s.stack with
  | .write call :: rest =>
    let value := s.calls call
    let s := { s.setCall call { value with insideWrite := false } with stack := rest }
    let s := if value.called then s.continueAfterStep call else s
    match s.stack with
    | .flush guard :: rest => flushLoop { s with stack := rest } true guard
    | _ => s
  | _ => s

def stepTimerFires (armed : ArmedTimer) : Terminal H :=
  let s := s.clearStepTimer armed.timer.id
  if s.current ≠ some armed.queue ∨
      (s.queues armed.queue).stepTimer.map (·.id) ≠ some armed.timer.id then s
  else
    (s.setQueue armed.queue { s.queues armed.queue with stepTimer := none }).resumeRun
      armed.timer.continuation

def drainTimerFires : Terminal H :=
  (s.setQueue queue { s.queues queue with drainTimer := false }).scheduleNextTerminalWrite
    queue

end Terminal

/-- What can happen to a terminal: its callers act, from outside or from inside a
write, a write completes or returns, a timer fires. -/
inductive Event (H : Type) where
  | setDropHandler (onDropped : Option H)
  | enqueue (bytes : ℕ) (options : TerminalWriteQueueOptions H)
  | flush
  | abort (onDropped : Option H)
  | done (call : CallRef)
  | writeReturns
  | drainTimer (queue : QueueRef)
  /-- The timer at a position in the list of armed step timers. -/
  | stepTimer (index : ℕ)

variable (s : Terminal H)

/-- One event.  A write calls its completion callback at most once, and timers fire
only when no code runs; an event that cannot happen changes nothing. -/
def step : Event H → Terminal H
  | .setDropHandler onDropped => s.setTerminalWriteQueueDropHandler onDropped
  | .enqueue bytes options => s.enqueueTerminalWrite bytes options
  | .flush => s.flushTerminalWriteQueueBypassingTimers
  | .abort onDropped => s.abortTerminalWriteQueue onDropped
  | .done call =>
    if call < s.nextCall ∧ (s.calls call).called = false then s.callDone call else s
  | .writeReturns => s.writeReturns
  | .drainTimer queue =>
    if s.stack = [] ∧ queue < s.nextQueue ∧ (s.queues queue).drainTimer then
      s.drainTimerFires queue
    else s
  | .stepTimer index =>
    match s.stack, s.stepTimers[index]? with
    | [], some armed => s.stepTimerFires armed
    | _, _ => s

def runEvents (events : List (Event H)) : Terminal H :=
  events.foldl step s

end Netcatty.TerminalWrites
