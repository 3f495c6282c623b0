import Netcatty.OutputTriggerFilter

/-!
The buffer that coalesces PTY output on its way to the renderer.

Output waits in a queue of full chunks and a tail until a timer, a call or too much
of it sends it on.  Whoever uses the buffer supplies `send`, `report` and
`accepts`; a `Host` is their meaning over a state of their own, which every call may
change.  The log at the end of the state records what has become of each piece of
output, in order.
-/

namespace Netcatty.PtyOutput

open OutputTrigger (TerminalAlternateScreenAction readCsiSequence)

/-! ## What dropped output did to the screen -/

/-- The same test as `getTerminalAlternateScreenAction`. -/
def getAlternateScreenAction (sequence : JsString) : Option TerminalAlternateScreenAction :=
  OutputTrigger.getTerminalAlternateScreenAction sequence

structure WindowInspection where
  mayAffectTerminalState : Bool
  finalAction : Option TerminalAlternateScreenAction
  hasIncompleteSequence : Bool
  deriving DecidableEq

def WindowInspection.note (found : WindowInspection) (sequence : JsString) : WindowInspection :=
  match getAlternateScreenAction sequence with
  | some action => { found with mayAffectTerminalState := true, finalAction := some action }
  | none => found

/-- `input.startsWith("\x1b[?")`. -/
def startsPrivateMode (input : JsString) : Bool := text "\x1b[?" <+: input

theorem readCsiSequence_shrinks {input : JsString} {read : JsString × JsString}
    (found : readCsiSequence input = some read) :
    input = read.1 ++ read.2 ∧ read.2.length < input.length := by
  obtain _ | ⟨first, _ | ⟨second, rest⟩⟩ := input
  · cases found
  · cases found
  · rw [readCsiSequence] at found
    by_cases csi : first = escapeUnit ∧ second = openBracket
    · rw [if_pos csi, Option.map_eq_some_iff] at found
      obtain ⟨split, found, same⟩ := found
      cases same
      obtain ⟨units, -⟩ := OutputTrigger.splitCsi_eq found
      subst units
      refine ⟨rfl, ?_⟩
      simp only [List.length_cons, List.length_append]
      omega
    · rw [if_neg csi] at found
      cases found

/-- The loop of `inspectAlternateScreenWindow`. -/
def inspectWindow (found : WindowInspection) (input : JsString) : WindowInspection :=
  match input with
  | [] => found
  | code :: rest =>
    if code ≠ escapeUnit then inspectWindow found rest
    else
      match _read : readCsiSequence (code :: rest) with
      | some read => inspectWindow (found.note read.1) read.2
      | none =>
        if startsPrivateMode (code :: rest) then inspectWindow ⟨true, none, true⟩ rest
        else inspectWindow found rest
  termination_by input.length
  decreasing_by
    all_goals first
      | exact Nat.lt_succ_self _
      | exact (readCsiSequence_shrinks _read).2

def inspectAlternateScreenWindow (input : JsString) : WindowInspection :=
  inspectWindow ⟨false, none, false⟩ input

/-- The loop of `inspectAlternateScreenSequenceStartedBeforeBoundary`; the boundary
is `before` units ahead. -/
def inspectStarted (found : WindowInspection) (before : ℕ) (input : JsString) : WindowInspection :=
  match before, input with
  | 0, _ => found
  | _, [] => found
  | before + 1, code :: rest =>
    if code ≠ escapeUnit then inspectStarted found before rest
    else
      match _read : readCsiSequence (code :: rest) with
      | none =>
        if startsPrivateMode (code :: rest) then
          inspectStarted { found with mayAffectTerminalState := true } before rest
        else inspectStarted found before rest
      | some read =>
        inspectStarted (if before + 1 < read.1.length then found.note read.1 else found)
          (before + 1 - read.1.length) read.2
  termination_by input.length
  decreasing_by
    all_goals first
      | exact Nat.lt_succ_self _
      | exact (readCsiSequence_shrinks _read).2

def inspectAlternateScreenSequenceStartedBeforeBoundary (input : JsString) (boundary : ℕ) :
    WindowInspection :=
  inspectStarted ⟨false, none, false⟩ boundary input

/-- What `sendFn` is told beside the data; other fields pass through unread. -/
structure OutputMeta where
  droppedOutputMayAffectTerminalState : Bool
  droppedOutputAlternateScreenAction : Option TerminalAlternateScreenAction
  deriving DecidableEq

def inspectDroppedTerminalState (droppedHead droppedTail retainedHead : JsString)
    (droppedBytes : ℕ) : OutputMeta :=
  if droppedBytes = 0 then ⟨false, none⟩
  else
    let head := inspectAlternateScreenWindow droppedHead
    let tail := inspectAlternateScreenWindow droppedTail
    let tailWithRetained := inspectAlternateScreenWindow (droppedTail ++ retainedHead)
    let splitTail := inspectAlternateScreenSequenceStartedBeforeBoundary
      (droppedTail ++ retainedHead) droppedTail.length
    let sampledBytes := droppedHead.length +
      if droppedTail = droppedHead then 0 else droppedTail.length
    let hasUninspectedMiddle : Bool := sampledBytes < droppedBytes
    ⟨head.hasIncompleteSequence || tailWithRetained.hasIncompleteSequence || hasUninspectedMiddle ||
        head.finalAction.isSome || tail.finalAction.isSome || splitTail.mayAffectTerminalState ||
        tailWithRetained.finalAction.isSome,
      splitTail.finalAction.or
        (tail.finalAction.or (if hasUninspectedMiddle then none else head.finalAction))⟩

/-! ## State -/

/-- The resolved options; delays are left to the timers that fire. -/
structure BufferOptions where
  maxBufferSize : ℕ
  maxFloodBufferSize : ℕ
  maxPendingBytes : ℕ
  burstCoalesceDelayMs : ℕ
  burstDetectionWindowMs : ℕ
  maxDroppedStateScanBytes : ℕ
  /-- An empty flood buffer would never take any output. -/
  positive : 0 < maxFloodBufferSize
  /-- `maxPendingBytes` is at least `maxFloodBufferSize`. -/
  room : maxFloodBufferSize ≤ maxPendingBytes

/-- The options of the sessions, which set none of them. -/
def BufferOptions.defaults : BufferOptions :=
  ⟨131072, 786432, 8388608, 3, 8, 2048, by decide, by decide⟩

/-- What the user of a buffer does with it, over a state of its own. -/
structure Host (E : Type*) where
  send : JsString → Option OutputMeta → E → E
  /-- `onPendingBytesChange`. -/
  report : ℕ → E → E
  /-- `shouldAcceptOutput`. -/
  accepts : E → Bool

inductive TimerKind where
  | immediate
  | burst
  | flood
  | paced
  deriving DecidableEq

abbrev DrainCallback := ℕ

/-- What became of a piece of output. -/
inductive Fate where
  | sent
  | taken
  /-- Removed by the overflow limit. -/
  | overflowed
  | discarded
  /-- Removed because a drain was requested while output is refused. -/
  | refused
  deriving DecidableEq

structure PtyOutputBuffer (E : Type*) where
  dataBuffer : JsString
  queuedBuffers : List JsString
  pendingBytes : ℕ
  scheduled : Option TimerKind
  lastOutputArrivalAt : Option ℤ
  nextSendMeta : Option OutputMeta
  drainCallbacks : List DrainCallback
  env : E
  /-- Every piece that left the buffer, oldest first. -/
  log : List (Fate × JsString)
  /-- The callbacks that were called, and those `discard` dropped. -/
  notified : List DrainCallback
  forgotten : List DrainCallback

def PtyOutputBuffer.buffered {E : Type*} (s : PtyOutputBuffer E) : JsString :=
  s.queuedBuffers.flatten ++ s.dataBuffer

def createPtyOutputBuffer {E : Type*} (env : E) : PtyOutputBuffer E :=
  ⟨[], [], 0, none, none, none, [], env, [], [], []⟩

namespace PtyOutputBuffer

variable {E : Type*} (host : Host E) (options : BufferOptions) (s : PtyOutputBuffer E)

/-! ## Sending -/

def mergeNextSendMeta (meta? : Option OutputMeta) : PtyOutputBuffer E :=
  match meta? with
  | none => s
  | some added =>
    let before := s.nextSendMeta.getD ⟨false, none⟩
    let nextAction :=
      if added.droppedOutputMayAffectTerminalState then added.droppedOutputAlternateScreenAction
      else added.droppedOutputAlternateScreenAction.or before.droppedOutputAlternateScreenAction
    let mayAffect :=
      before.droppedOutputMayAffectTerminalState || added.droppedOutputMayAffectTerminalState
    { s with nextSendMeta := some ⟨mayAffect, nextAction⟩ }

/-- `sendBufferedChunk`. -/
def sendBufferedChunk (chunk : JsString) : PtyOutputBuffer E :=
  { s with
    env := host.send chunk s.nextSendMeta s.env, nextSendMeta := none,
    log := s.log ++ [(.sent, chunk)] }

def reportPendingBytes : PtyOutputBuffer E := { s with env := host.report s.pendingBytes s.env }

/-- Send a chunk that was taken out of the buffer, and count it off. -/
def deliver (chunk : JsString) : PtyOutputBuffer E :=
  let s := s.sendBufferedChunk host chunk
  { s with pendingBytes := s.pendingBytes - chunk.length }.reportPendingBytes host

def hasPendingData : Bool := s.queuedBuffers ≠ [] ∨ s.dataBuffer ≠ []

def notifyDrained : PtyOutputBuffer E :=
  if s.hasPendingData then s
  else { s with drainCallbacks := [], notified := s.notified ++ s.drainCallbacks }

def cancelScheduled : PtyOutputBuffer E := { s with scheduled := none }

/-! ## Dropping -/

/-- The units a loop over the pending pieces reads until it has `limit` of them. -/
def readHead (limit : ℕ) (pieces : List JsString) : JsString :=
  pieces.foldl (fun head piece => head ++ piece.take (limit - head.length)) []

def readPendingHead (limit : ℕ) : JsString :=
  readHead limit (s.queuedBuffers ++ [s.dataBuffer])

/-- The first loop of `dropOldestPendingBytes`: what was dropped, the queue that is
left, and how much is still to drop. -/
def dropChunks : ℕ → List JsString → List JsString × List JsString × ℕ
  | remaining, [] => ([], [], remaining)
  | 0, queue => ([], queue, 0)
  | remaining + 1, chunk :: queue =>
    if chunk.length ≤ remaining + 1 then
      let later := dropChunks (remaining + 1 - chunk.length) queue
      (chunk :: later.1, later.2)
    else ([chunk.take (remaining + 1)], chunk.drop (remaining + 1) :: queue, 0)

/-- `recordDropped`. -/
def recordDropped (limit : ℕ) (sample : JsString × JsString) (dropped : JsString) :
    JsString × JsString :=
  (sample.1 ++ dropped.take (limit - sample.1.length),
    (sample.2 ++ dropped).drop ((sample.2 ++ dropped).length - limit))

/-- What `dropOldestPendingBytes` takes out of the buffer. -/
structure Dropped where
  texts : List JsString
  queuedBuffers : List JsString
  dataBuffer : JsString

def dropOldest (bytesToDrop : ℕ) : Dropped :=
  let first := dropChunks bytesToDrop s.queuedBuffers
  let remaining := first.2.2
  if remaining = 0 then ⟨first.1, first.2.1, s.dataBuffer⟩
  else ⟨first.1 ++ [s.dataBuffer.take remaining], first.2.1, s.dataBuffer.drop remaining⟩

def dropOldestPendingBytes (bytesToDrop : ℕ) : OutputMeta × ℕ × PtyOutputBuffer E :=
  let left := s.dropOldest bytesToDrop
  let dropped := left.texts.flatten.length
  let sample := left.texts.foldl (recordDropped options.maxDroppedStateScanBytes) ([], [])
  let s := { s with
    queuedBuffers := left.queuedBuffers, dataBuffer := left.dataBuffer,
    pendingBytes := s.pendingBytes - dropped,
    log := s.log ++ left.texts.map fun dropped => (.overflowed, dropped) }
  (inspectDroppedTerminalState sample.1 sample.2
    (s.readPendingHead options.maxDroppedStateScanBytes) dropped, dropped, s)

def enforcePendingByteLimit : PtyOutputBuffer E :=
  if s.pendingBytes ≤ options.maxPendingBytes then s
  else
    let dropped := s.dropOldestPendingBytes options (s.pendingBytes - options.maxPendingBytes)
    if dropped.2.1 = 0 then dropped.2.2
    else
      let s := if dropped.1.droppedOutputMayAffectTerminalState then
          dropped.2.2.mergeNextSendMeta (some ⟨true, dropped.1.droppedOutputAlternateScreenAction⟩)
        else dropped.2.2
      s.reportPendingBytes host

/-- `clearPendingBuffers`, with what the caller clears them for. -/
def clearPendingBuffers (fate : Fate) : PtyOutputBuffer E :=
  { s with
    queuedBuffers := [], dataBuffer := [], pendingBytes := 0,
    log := s.log ++ [(fate, s.buffered)] }.reportPendingBytes host

/-! ## Flushing -/

/-- The loop of `flushNow` over the queue. -/
def sendQueued : PtyOutputBuffer E :=
  s.queuedBuffers.foldl
    (fun s chunk => { s with queuedBuffers := s.queuedBuffers.tail }.deliver host chunk) s

/-- The loop of `flushNow` over a tail that is longer than one chunk. -/
def sendFlood (s : PtyOutputBuffer E) : PtyOutputBuffer E :=
  if options.maxFloodBufferSize < s.dataBuffer.length then
    sendFlood ({ s with dataBuffer := s.dataBuffer.drop options.maxFloodBufferSize }.deliver host
      (s.dataBuffer.take options.maxFloodBufferSize))
  else s
  termination_by s.dataBuffer.length
  decreasing_by
    have positive := options.positive
    change (s.dataBuffer.drop options.maxFloodBufferSize).length < s.dataBuffer.length
    rw [List.length_drop]
    omega

def sendTail : PtyOutputBuffer E :=
  if s.dataBuffer = [] then s else { s with dataBuffer := [] }.deliver host s.dataBuffer

def flushNow : PtyOutputBuffer E :=
  let s := { s with scheduled := none }
  if !host.accepts s.env then s
  else ((s.sendQueued host).sendFlood host options).sendTail host

/-- The piece `sendNextPendingChunk` sends when output is accepted. -/
def sendNext : PtyOutputBuffer E :=
  match s.queuedBuffers with
  | chunk :: rest => { s with queuedBuffers := rest }.deliver host chunk
  | [] =>
    if options.maxFloodBufferSize < s.dataBuffer.length then
      { s with dataBuffer := s.dataBuffer.drop options.maxFloodBufferSize }.deliver host
        (s.dataBuffer.take options.maxFloodBufferSize)
    else s.sendTail host

def sendNextPendingChunk : PtyOutputBuffer E :=
  if !host.accepts s.env then
    if s.drainCallbacks = [] then { s with scheduled := none }
    else ({ s with scheduled := none }.clearPendingBuffers host .refused).notifyDrained
  else if !(s.sendNext host options).hasPendingData then
    { s.sendNext host options with scheduled := none }.notifyDrained
  else { s.sendNext host options with scheduled := some .paced }

/-! ## Calls -/

/-- The loop of `appendBoundedData`: the queue and the tail. -/
def appendChunks (queue : List JsString) (tail remaining : JsString) : List JsString × JsString :=
  if remaining = [] then (queue, tail)
  else
    let available := options.maxFloodBufferSize - tail.length
    if available = 0 then appendChunks (queue ++ [tail]) [] remaining
    else
      let full := tail ++ remaining.take available
      if options.maxFloodBufferSize ≤ full.length ∧ remaining.drop available ≠ [] then
        appendChunks (queue ++ [full]) [] (remaining.drop available)
      else appendChunks queue full (remaining.drop available)
  termination_by 2 * remaining.length + if options.maxFloodBufferSize ≤ tail.length then 1 else 0
  decreasing_by
    all_goals
      have positive := options.positive
      have some := List.length_pos_iff.mpr ‹remaining ≠ []›
      simp only [List.length_nil, List.length_drop]
      split <;> split <;> omega

def appendBoundedData (data : JsString) : PtyOutputBuffer E :=
  let appended := appendChunks options s.queuedBuffers s.dataBuffer data
  ({ s with
    queuedBuffers := appended.1, dataBuffer := appended.2,
    pendingBytes := s.pendingBytes + data.length }.reportPendingBytes host).enforcePendingByteLimit
      host options

def followsRecentOutput (arrivedAt : ℤ) (data : JsString) : Bool :=
  data ≠ [] ∧ s.lastOutputArrivalAt.any fun last =>
    0 ≤ arrivedAt - last ∧ arrivedAt - last ≤ options.burstDetectionWindowMs

def bufferData (arrivedAt : ℤ) (data : JsString) (meta? : Option OutputMeta) : PtyOutputBuffer E :=
  let follows := s.followsRecentOutput options arrivedAt data
  let s := if data = [] then s else { s with lastOutputArrivalAt := some arrivedAt }
  let s := (s.mergeNextSendMeta meta?).appendBoundedData host options data
  if !host.accepts s.env then s
  else if s.scheduled = some .paced ∧ s.hasPendingData then s
  else if s.queuedBuffers ≠ [] ∨ options.maxFloodBufferSize ≤ s.dataBuffer.length then
    s.cancelScheduled.sendNextPendingChunk host options
  else if options.maxBufferSize ≤ s.dataBuffer.length then { s with scheduled := some .flood }
  else if s.scheduled = none then
    let kind : TimerKind :=
      if follows ∧ 0 < options.burstCoalesceDelayMs then .burst else .immediate
    { s with scheduled := some kind }
  else s

def flush : PtyOutputBuffer E :=
  { s with lastOutputArrivalAt := none }.cancelScheduled.flushNow host options

def flushPaced (onDrained : Option DrainCallback) : PtyOutputBuffer E :=
  let s := { s with drainCallbacks := s.drainCallbacks ++ onDrained.toList }.cancelScheduled
  if onDrained.isSome ∧ !host.accepts s.env then
    (s.clearPendingBuffers host .refused).notifyDrained
  else (s.sendNextPendingChunk host options).notifyDrained

def takePendingEntry : (JsString × Option OutputMeta) × PtyOutputBuffer E :=
  let s := { s with lastOutputArrivalAt := none }.cancelScheduled
  ((s.buffered, s.nextSendMeta),
    ({ s with nextSendMeta := none }.clearPendingBuffers host .taken).notifyDrained)

def discard : ℕ × PtyOutputBuffer E :=
  let s := { s with lastOutputArrivalAt := none }.cancelScheduled
  let cleared := s.clearPendingBuffers host .discarded
  (s.pendingBytes, { cleared with
    nextSendMeta := none, drainCallbacks := [], forgotten := s.forgotten ++ s.drainCallbacks })

/-- The scheduled callback runs. -/
def timerFires : PtyOutputBuffer E :=
  match s.scheduled with
  | none => s
  | some .immediate => s.flushNow host options
  | some .burst => s.flushNow host options
  | some .flood => s.sendNextPendingChunk host options
  | some .paced => s.sendNextPendingChunk host options

end PtyOutputBuffer

/-! ## Runs -/

inductive BufferEvent (E : Type*) where
  | bufferData (arrivedAt : ℤ) (data : JsString) (meta? : Option OutputMeta)
  | flush
  | flushPaced (onDrained : Option DrainCallback)
  | takePendingEntry
  | discard
  | timerFires
  /-- The host's own state changes, and with it whether output is accepted. -/
  | hostChanges (env : E)

def step {E : Type*} (host : Host E) (options : BufferOptions) (s : PtyOutputBuffer E) :
    BufferEvent E → PtyOutputBuffer E
  | .bufferData arrivedAt data meta? => s.bufferData host options arrivedAt data meta?
  | .flush => s.flush host options
  | .flushPaced onDrained => s.flushPaced host options onDrained
  | .takePendingEntry => (s.takePendingEntry host).2
  | .discard => (s.discard host).2
  | .timerFires => s.timerFires host options
  | .hostChanges env => { s with env := env }

end Netcatty.PtyOutput
