import Netcatty.AltScreenProbe

/-!
The coalescer between the output of a session and the queue of writes to its xterm.

Each chunk brings the number of bytes the backend counted for it.  The coalescer joins
chunks, cuts what it has joined into slices, and hands each slice its share of the
bytes, which are acknowledged once the slice is written.  Two levels of the source are
kept apart: `WriteCoalescer` holds the text, `CoalescedTerminal` the rest.
-/

namespace Netcatty.WriteCoalescing

/-- A caller's function `writeNow`. -/
abbrev Writer := ℕ

def MAX_TERMINAL_PLAIN_WRITE_CHUNK_BYTES : ℕ := 131072
def MAX_TERMINAL_UNBROKEN_WRITE_CHUNK_BYTES : ℕ := 131072
def MAX_TERMINAL_WRITE_QUEUE_DRAIN_BYTES : ℕ := 524288
def SOURCE_BOUNDARY_SLICE_SLACK_BYTES : ℕ := 1024
def WRITE_COALESCE_BURST_MS : ℚ := 16

/-- What the code reads of its surroundings during one call. -/
structure Moment where
  now : ℚ
  /-- The flush gate; without one it is open. -/
  flushGate : Bool
  /-- `shouldDegradeTerminalSideWork`. -/
  degraded : Bool
  /-- Do `requestAnimationFrame`, `queueMicrotask` and `setTimeout` exist? -/
  animationFrames : Bool
  microtasks : Bool
  timers : Bool
  /-- Does xterm show the alternate buffer? -/
  alternateBuffer : Bool

/-! ## Slices -/

/-- The options of a write.  An absent list of boundaries is empty. -/
structure CoalescedTerminalWriteOptions where
  yieldAfter : Bool
  preservePerfTrace : Option Bool
  sourceChunkBoundaries : List ℕ

def noOptions : CoalescedTerminalWriteOptions :=
  { yieldAfter := false, preservePerfTrace := none, sourceChunkBoundaries := [] }

/-- A call of a `writeNow`. -/
structure WrittenSlice where
  writer : Writer
  data : JsString
  ingressBytes : ℤ
  options : CoalescedTerminalWriteOptions

def splitIngressBytes (totalDisplayBytes : ℕ) (totalIngressBytes : ℤ) (sliceDisplayBytes : ℕ)
    (remainingIngressBytes : ℤ) : ℤ :=
  if totalDisplayBytes = 0 then totalIngressBytes
  else max 0 (min remainingIngressBytes
    (totalIngressBytes * sliceDisplayBytes / totalDisplayBytes))

variable (data : JsString)

def isPlainTerminalOutput : Bool :=
  !(data.contains escapeUnit) && !(data.contains C1_CSI)

/-- Does a line go beyond the limit?  `run` is the length of its part that was read. -/
def exceedsRun (maxRunBytes run : ℕ) : JsString → Bool
  | [] => maxRunBytes < run
  | ch :: rest =>
    if ch = lineFeed ∨ ch = carriageReturn then maxRunBytes < run || exceedsRun maxRunBytes 0 rest
    else exceedsRun maxRunBytes (run + 1) rest

def hasLongUnbrokenRun (maxRunBytes : ℕ) : Bool :=
  if data.length ≤ maxRunBytes then false else exceedsRun maxRunBytes 0 data

def resolveTerminalWriteBatchBytes (maxPendingBytes : ℕ) : ℕ :=
  if !isPlainTerminalOutput data then maxPendingBytes
  else if hasLongUnbrokenRun data MAX_TERMINAL_UNBROKEN_WRITE_CHUNK_BYTES then
    min maxPendingBytes MAX_TERMINAL_UNBROKEN_WRITE_CHUNK_BYTES
  else min maxPendingBytes MAX_TERMINAL_PLAIN_WRITE_CHUNK_BYTES

def resolveSliceYieldBudgetBytes (batchSize : ℕ) : ℕ :=
  if isPlainTerminalOutput data then max 1 batchSize
  else max MAX_TERMINAL_UNBROKEN_WRITE_CHUNK_BYTES MAX_TERMINAL_WRITE_QUEUE_DRAIN_BYTES

/-- The last boundary up to `idealEnd`. -/
def lastBoundary (idealEnd : ℕ) (boundaries : List ℕ) : ℕ :=
  ((boundaries.takeWhile (· ≤ idealEnd)).getLast?).getD idealEnd

/-- The next boundary, when it comes soon after `idealEnd`. -/
def nextBoundary (batchSize idealEnd : ℕ) (boundaries : List ℕ) : ℕ :=
  match (boundaries.dropWhile (· ≤ idealEnd)).head? with
  | none => idealEnd
  | some next =>
    if idealEnd < next ∧ next - idealEnd ≤ min batchSize SOURCE_BOUNDARY_SLICE_SLACK_BYTES then next
    else idealEnd

/-- Leave the final slice a minimum of text. -/
def beforeFinalSlice (length batchSize offset idealEnd : ℕ) : ℕ :=
  let finalSliceStart := length - min batchSize 1024
  if offset < finalSliceStart ∧ finalSliceStart < idealEnd then finalSliceStart else idealEnd

def sliceEnd (length batchSize offset : ℕ) (preserveSourceChunkBoundaries : Bool)
    (boundaries : List ℕ) : ℕ :=
  let idealEnd := min length (offset + batchSize)
  if preserveSourceChunkBoundaries ∧ idealEnd < length then
    let stop := lastBoundary idealEnd boundaries
    let stop := if stop = idealEnd then nextBoundary batchSize idealEnd boundaries else stop
    if stop = idealEnd then beforeFinalSlice length batchSize offset idealEnd else stop
  else idealEnd

/-- What the loop of `writeLargeTerminalBatch` does not change. -/
structure Batch where
  data : JsString
  ingressBytes : ℤ
  batchSize : ℕ
  yieldBudget : ℕ
  writer : Writer
  options : CoalescedTerminalWriteOptions
  preserveSourceChunkBoundaries : Bool

/-- The loop of `writeLargeTerminalBatch`, for at most `fuel` slices.  `boundaries` are
those from `sourceBoundaryIndex` on. -/
def Batch.slices (batch : Batch) : ℕ → ℕ → ℤ → ℕ → List ℕ → List WrittenSlice
  | 0, _, _, _, _ => []
  | fuel + 1, offset, remainingIngressBytes, bytesSinceYield, boundaries =>
    if offset < batch.data.length then
      let boundaries := boundaries.dropWhile (· ≤ offset)
      let stop := sliceEnd batch.data.length batch.batchSize offset
        batch.preserveSourceChunkBoundaries boundaries
      let slice := (batch.data.drop offset).take (stop - offset)
      let isLast := batch.data.length ≤ stop
      let sliceIngress :=
        if isLast then remainingIngressBytes
        else splitIngressBytes batch.data.length batch.ingressBytes slice.length
          remainingIngressBytes
      let bytesSinceYield := bytesSinceYield + slice.length
      let shouldYield := batch.batchSize < batch.data.length ∧ ¬ isLast ∧
        batch.yieldBudget ≤ bytesSinceYield
      let sliceChunkBoundaries := (boundaries.takeWhile (· < stop)).map (· - offset)
      { writer := batch.writer
        data := slice
        ingressBytes := sliceIngress
        options :=
          { yieldAfter := batch.options.yieldAfter || decide shouldYield
            preservePerfTrace := batch.options.preservePerfTrace
            sourceChunkBoundaries := sliceChunkBoundaries } } ::
      batch.slices fuel stop (remainingIngressBytes - sliceIngress)
        (if shouldYield then 0 else bytesSinceYield) (boundaries.dropWhile (· < stop))
    else []

/-- Every turn writes at least one code unit, so the length is fuel enough. -/
def writeLargeTerminalBatch (ingressBytes : ℤ) (maxBatchBytes : ℕ)
    (writer : Writer) (options : CoalescedTerminalWriteOptions)
    (preserveSourceChunkBoundaries : Bool) : List WrittenSlice :=
  let batchSize := max 1 maxBatchBytes
  let batch : Batch :=
    { data, ingressBytes, batchSize
      yieldBudget := resolveSliceYieldBudgetBytes data batchSize
      writer, options, preserveSourceChunkBoundaries }
  batch.slices data.length 0 (max 0 ingressBytes) 0 options.sourceChunkBoundaries

/-! ## State -/

inductive WriteCoalesceScheduleMode where
  | raf
  | microtask
  | burst
  deriving DecidableEq

/-- The variables of `createWriteCoalescer`, and of the function that creates it. -/
structure WriteCoalescer where
  /-- The `writeNow` of the call that created it. -/
  firstWriter : Writer
  pending : List JsString
  pendingBytes : ℕ
  counted : pendingBytes = pending.flatten.length
  /-- `scheduledMode`, which is null just when `cancelPendingSchedule` is. -/
  scheduledMode : Option WriteCoalesceScheduleMode
  lastFlushTime : ℚ

def WriteCoalescer.created (firstWriter : Writer) : WriteCoalescer :=
  { firstWriter, pending := [], pendingBytes := 0, counted := rfl, scheduledMode := none,
    lastFlushTime := 0 }

/-- A terminal's entries in the maps of the module, with a log of what it called. -/
structure CoalescedTerminal where
  coalescer : Option WriteCoalescer
  ingress : Option ℤ
  chunkCount : Option ℕ
  chunkBoundaries : List ℕ
  preserveSourceChunks : Bool
  writer : Option Writer
  latches : AltScreenLatches
  /-- How often the byte cap was asked for. -/
  byteCapReads : ℕ
  written : List WrittenSlice
  /-- The arguments of `onDropped`. -/
  dropped : List ℤ

namespace CoalescedTerminal

def initial : CoalescedTerminal :=
  { coalescer := none, ingress := none, chunkCount := none, chunkBoundaries := [],
    preserveSourceChunks := false, writer := none, latches := .cleared, byteCapReads := 0,
    written := [], dropped := [] }

variable (s : CoalescedTerminal)

def getPendingCoalescedBytes : ℕ :=
  match s.coalescer with
  | none => 0
  | some coalescer => coalescer.pendingBytes

variable (byteCap : ℕ → ℕ)

/-- The resolver of the byte cap is asked again each time, and may answer anything. -/
def resolveCoalescerByteCap : ℕ × CoalescedTerminal :=
  (byteCap s.byteCapReads, { s with byteCapReads := s.byteCapReads + 1 })

def write (slices : List WrittenSlice) : CoalescedTerminal :=
  { s with written := s.written ++ slices }

/-- The function that is called with a batch: what the terminal's maps hold is taken. -/
def writeBatch (writer : Writer) (batch : JsString) :
    CoalescedTerminal :=
  let batchIngress := s.ingress.getD batch.length
  let chunkCount := s.chunkCount.getD 1
  let sourceChunkBoundaries := s.chunkBoundaries
  let preserveSourceChunkBoundaries := s.preserveSourceChunks
  let s := { s with
    ingress := none, chunkCount := none, chunkBoundaries := [], preserveSourceChunks := false }
  let (cap, s) := s.resolveCoalescerByteCap byteCap
  s.write (writeLargeTerminalBatch batch batchIngress (resolveTerminalWriteBatchBytes batch cap)
    writer
    (if chunkCount = 1 then noOptions
      else { noOptions with preservePerfTrace := some false, sourceChunkBoundaries })
    preserveSourceChunkBoundaries)

def cancelScheduledDrain : CoalescedTerminal :=
  { s with coalescer := s.coalescer.map fun c => { c with scheduledMode := none } }

variable (moment : Moment)

/-- `flushSync`, with the writer that replaces the registered one. -/
def flushSync (writeOverride : Option Writer) :
    CoalescedTerminal :=
  match s.coalescer with
  | none => s
  | some c =>
    if c.pendingBytes = 0 then s.cancelScheduledDrain
    else
      let flushed := { c with
        pending := [], pendingBytes := 0, counted := rfl, scheduledMode := none,
        lastFlushTime := moment.now }
      ({ s with coalescer := some flushed } : CoalescedTerminal).writeBatch byteCap
        (writeOverride.getD (s.writer.getD c.firstWriter)) c.pending.flatten

def flushTerminalWriteCoalescer
    (writeNow : Option Writer) : CoalescedTerminal :=
  s.flushSync byteCap moment writeNow

/-! ## Schedules -/

/-- The `resolveScheduleMode` of a terminal. -/
def resolveScheduleMode (nextChunk : JsString) :
    WriteCoalesceScheduleMode × CoalescedTerminal :=
  let (needsRaf, latches) := s.latches.takePreapplied moment.alternateBuffer nextChunk
  let s := { s with latches }
  if needsRaf then (.raf, s)
  else if moment.degraded then (.raf, s)
  else if moment.microtasks ∧ moment.animationFrames then (.burst, s)
  else (.raf, s)

variable (mode : WriteCoalesceScheduleMode)

def setSchedule : CoalescedTerminal :=
  { s with coalescer := s.coalescer.map fun c => { c with scheduledMode := some mode } }

/-- What is done when nothing can be scheduled. -/
def flushUnlessGated : CoalescedTerminal :=
  if !moment.flushGate then s else s.flushSync byteCap moment none

/-- Does `scheduleByMode` find a scheduler? -/
def canSchedule : WriteCoalesceScheduleMode → Bool
  | .microtask => moment.microtasks || moment.timers || moment.animationFrames
  | _ => moment.animationFrames

/-- The part of `armSchedule` that all modes but a waiting burst share. -/
def armFrame :
    CoalescedTerminal :=
  if canSchedule moment mode then s.setSchedule mode else s.flushUnlessGated byteCap moment

def armSchedule :
    CoalescedTerminal :=
  match s.coalescer with
  | none => s
  | some c =>
    if mode = .burst then
      if 0 < c.lastFlushTime ∧ moment.now - c.lastFlushTime < WRITE_COALESCE_BURST_MS then
        if moment.timers then s.setSchedule .burst else s.flushUnlessGated byteCap moment
      else s.armFrame byteCap moment .microtask
    else s.armFrame byteCap moment mode

def armDeferredDrain :
    CoalescedTerminal :=
  match s.coalescer with
  | none => s
  | some c =>
    if c.pendingBytes = 0 ∨ c.scheduledMode.isSome then s
    else if moment.timers then s.setSchedule mode
    else s

/-- `onScheduled`: a frame, a microtask or a timer of `armSchedule` comes. -/
def onScheduled :
    CoalescedTerminal :=
  let s := s.cancelScheduledDrain
  if !moment.flushGate then
    if 0 < s.getPendingCoalescedBytes then s.armDeferredDrain moment mode else s
  else s.flushSync byteCap moment none

/-- The timer of `armDeferredDrain` comes. -/
def onDeferredDrain :
    CoalescedTerminal :=
  let s := s.cancelScheduledDrain
  if s.getPendingCoalescedBytes = 0 then s
  else if !moment.flushGate then s.armDeferredDrain moment mode
  else s.flushSync byteCap moment none

/-! ## Writes -/

/-- A chunk joins what is pending. -/
def append (chunk : JsString) : CoalescedTerminal :=
  { s with
    coalescer := s.coalescer.map fun c => { c with
      pending := c.pending ++ [chunk], pendingBytes := c.pendingBytes + chunk.length,
      counted := by
        rw [c.counted, List.flatten_append, List.length_append, List.flatten_singleton] } }

def push (chunk : JsString) : CoalescedTerminal :=
  if chunk = [] then s
  else
    let (mode, s) := (s.append chunk).resolveScheduleMode moment chunk
    let (cap, s) := s.resolveCoalescerByteCap byteCap
    if cap < s.getPendingCoalescedBytes then s.flushSync byteCap moment none
    else
      match s.coalescer.bind (·.scheduledMode) with
      | none => s.armSchedule byteCap moment mode
      | some scheduled =>
        if (scheduled = .microtask ∨ scheduled = .burst) ∧ mode = .raf then
          s.cancelScheduledDrain.armSchedule byteCap moment .raf
        else s

def noteChunk (ingressBytes : ℤ) (writeNow : Writer)
    (preserveSourceChunkBoundaries : Bool) (needsRaf : Bool) : CoalescedTerminal :=
  let preserve := s.preserveSourceChunks || preserveSourceChunkBoundaries
  let pendingBytesBeforePush := s.getPendingCoalescedBytes
  { s with
    ingress := some (s.ingress.getD 0 + ingressBytes)
    chunkCount := some (s.chunkCount.getD 0 + 1)
    preserveSourceChunks := preserve
    chunkBoundaries :=
      if preserve ∧ 0 < pendingBytesBeforePush then s.chunkBoundaries ++ [pendingBytesBeforePush]
      else s.chunkBoundaries
    latches := { s.latches with preappliedNeedsRaf := some needsRaf }
    coalescer := some (s.coalescer.getD (.created writeNow)) }

/-- The one-shot that a push did not consume is dropped. -/
def dropPreapplied : CoalescedTerminal :=
  { s with latches := { s.latches with preappliedNeedsRaf := none } }

/-- `enqueueCoalescedTerminalWrite` from the application of its probe on. -/
def enqueueProbed (frameProbe : AltScreenProbeResult)
    (data : JsString) (writeNow : Writer) (ingressBytes : ℤ)
    (preserveSourceChunkBoundaries : Bool) : CoalescedTerminal :=
  let (needsRafFromProbe, latches) :=
    s.latches.applyAltScreenScheduleProbeResult moment.alternateBuffer frameProbe
  let s := { s with latches }
  let (maxPendingBytes, s) := s.resolveCoalescerByteCap byteCap
  let s :=
    if maxPendingBytes < s.getPendingCoalescedBytes + data.length then
      s.flushTerminalWriteCoalescer byteCap moment none
    else s
  let s := { s with writer := some writeNow }
  if maxPendingBytes < data.length then
    s.write (writeLargeTerminalBatch data ingressBytes
      (resolveTerminalWriteBatchBytes data maxPendingBytes) writeNow noOptions
      preserveSourceChunkBoundaries)
  else
    let s := (s.noteChunk ingressBytes writeNow preserveSourceChunkBoundaries needsRafFromProbe).push
      byteCap moment data
    let s := s.dropPreapplied
    if frameProbe.normalScreenStart.isSome then s.flushTerminalWriteCoalescer byteCap moment none
    else s

/-- What comes before a frame of the alternate screen is written at once. -/
def writeBeforeFrame (before : JsString)
    (writeNow : Writer) (ingressBytes : ℤ) (preserveSourceChunkBoundaries : Bool) :
    CoalescedTerminal :=
  let latches := (s.latches.noteAltScreenScheduleProbe moment.alternateBuffer before).2
  let (cap, s) := ({ s with latches } : CoalescedTerminal).resolveCoalescerByteCap byteCap
  s.write (writeLargeTerminalBatch before ingressBytes (resolveTerminalWriteBatchBytes before cap)
    writeNow noOptions preserveSourceChunkBoundaries)

/-- `frameProbe.frameStart`, when a frame starts that did not start before. -/
def newFrameStart (probe : AltScreenProbeResult) (resumedAltScreenCsi : Bool) : Option ℕ :=
  probe.frameStart.filter fun start => !(resumedAltScreenCsi && start == 0)

theorem ne_nil_of_newFrameStart {data : JsString} {resume : Option IncompletePrivateCsi}
    {offset : ℕ} (found : newFrameStart (probeAltScreenScheduling data resume) resume.isSome =
      some offset) (later : 0 < offset) : data ≠ [] := by
  unfold newFrameStart at found
  exact ne_nil_of_frameStart (Option.filter_eq_some_iff.mp found).1 later

def enqueueCoalescedTerminalWrite (s : CoalescedTerminal) (moment : Moment) (data : JsString)
    (writeNow : Writer) (ingressBytes : ℤ) (preserveSourceChunkBoundaries : Bool) :
    CoalescedTerminal :=
  let resume := s.latches.incompleteAltScreenCsi
  let frameProbe := probeAltScreenScheduling data resume
  match _found : newFrameStart frameProbe resume.isSome with
  | none =>
    s.enqueueProbed byteCap moment frameProbe data writeNow ingressBytes
      preserveSourceChunkBoundaries
  | some frameStart =>
    let flushed := s.flushTerminalWriteCoalescer byteCap moment none
    if _later : 0 < frameStart then
      let before := data.take frameStart
      let beforeIngress := splitIngressBytes data.length ingressBytes before.length ingressBytes
      (flushed.writeBeforeFrame byteCap moment before writeNow beforeIngress
        preserveSourceChunkBoundaries).enqueueCoalescedTerminalWrite moment
        (data.drop frameStart) writeNow (max 0 (ingressBytes - beforeIngress))
        preserveSourceChunkBoundaries
    else
      flushed.enqueueProbed byteCap moment frameProbe data writeNow ingressBytes
        preserveSourceChunkBoundaries
termination_by data.length
decreasing_by
  have some := ne_nil_of_newFrameStart _found _later
  rw [List.length_drop]
  exact Nat.sub_lt (List.length_pos_iff.mpr some) _later

/-- `abortTerminalWriteCoalescer`, with a callback. -/
def abortTerminalWriteCoalescer : CoalescedTerminal :=
  let s := { s with latches := .cleared }
  match s.coalescer with
  | none => s
  | some c =>
    let ingressDropped := s.ingress.getD c.pendingBytes
    let aborted :=
      if c.pendingBytes = 0 then { c with scheduledMode := none }
      else { c with
        pending := [], pendingBytes := 0, counted := rfl, scheduledMode := none,
        lastFlushTime := 0 }
    { s with
      ingress := none
      chunkCount := none
      chunkBoundaries := []
      preserveSourceChunks := false
      coalescer := some aborted
      dropped := if 0 < ingressDropped then s.dropped ++ [ingressDropped] else s.dropped }

end CoalescedTerminal

/-! ## Runs -/

/-- A call by the terminal's output, or a callback of a schedule. -/
inductive CoalescerEvent where
  | enqueue (moment : Moment) (data : JsString) (writeNow : Writer) (ingressBytes : ℕ)
      (preserveSourceChunkBoundaries : Bool)
  /-- A schedule may also come late, when it was cancelled. -/
  | scheduled (moment : Moment) (mode : WriteCoalesceScheduleMode)
  | deferredDrain (moment : Moment) (mode : WriteCoalesceScheduleMode)
  | flush (moment : Moment) (writeNow : Option Writer)
  | abort

namespace CoalescedTerminal

variable (byteCap : ℕ → ℕ)

variable (s : CoalescedTerminal)

def step : CoalescerEvent → CoalescedTerminal
  | .enqueue moment data writeNow ingressBytes preserve =>
    s.enqueueCoalescedTerminalWrite byteCap moment data writeNow ingressBytes preserve
  | .scheduled moment mode => s.onScheduled byteCap moment mode
  | .deferredDrain moment mode => s.onDeferredDrain byteCap moment mode
  | .flush moment writeNow => s.flushTerminalWriteCoalescer byteCap moment writeNow
  | .abort => s.abortTerminalWriteCoalescer

def run (events : List CoalescerEvent) : CoalescedTerminal :=
  events.foldl (step byteCap) s

end CoalescedTerminal

end Netcatty.WriteCoalescing
