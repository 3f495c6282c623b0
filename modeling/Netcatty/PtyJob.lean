import Netcatty.PtyExecText
import Netcatty.UnicodeText

/-!
A foreground command that runs in a terminal.

The command is wrapped so that the shell prints a start marker on a line of its own, the
command's output, and an end marker with the exit status.  `startPtyJob` looks for them in
the terminal's data events.  The model has the events and no timer and no cancellation.
-/

namespace Netcatty.PtyExec

def DEFAULT_FOREGROUND_PTY_CAPTURE_CHARS : ℕ := 1024 * 1024

/-- A digit or a lower-case letter. -/
def isBase36 (u : Fin 65536) : Bool := isBetween 48 57 u || isBetween 97 122 u

/-- The time and the random number in a job's marker. -/
structure JobMarker where
  stamp : JsString
  nonce : JsString
  word : ∀ u ∈ stamp ++ nonce, isBase36 u = true
  short : (stamp ++ nonce).length ≤ 64

def JobMarker.marker (job : JobMarker) : JsString :=
  text "__NCMCP_" ++ job.stamp ++ text "_" ++ job.nonce ++ text "__"

/-- What a job is started with. -/
structure JobOptions where
  marker : JobMarker
  stripMarkers : Bool
  expectedPrompt : JsString
  normalizeFinalOutput : Bool
  waitForReturnedPrompt : Bool
  usesLiveShellProbe : Bool

/-- The parts of the exec bridge that read prompts and probe replies. -/
structure ShellText where
  /-- `extractTrailingIdlePrompt`; empty where there is none. -/
  extractTrailingIdlePrompt : JsString → JsString
  /-- Is there a reply for this marker, `parseLiveShellProbe`? -/
  parseLiveShellProbe : JsString → JsString → Bool

structure JobResult where
  ok : Bool
  stdout : JsString
  exitCode : ℕ
  deriving DecidableEq

/-- The variables of a job. -/
structure PtyJob where
  probingShell : Bool
  probeOutput : JsString
  foundStart : Bool
  preStartOutput : JsString
  pendingStart : JsString
  output : JsString
  /-- The output and the exit code, once the end marker is found. -/
  pendingEnd : Option (JsString × ℕ)
  /-- What the job resolves with, once it is finished. -/
  result : Option JobResult

/-! ## Decoding -/

/-- `outputDecoder.write`. -/
def write (state : UnicodeText.DecoderState) : List UInt8 → UnicodeText.DecoderState × JsString
  | [] => (state, [])
  | byte :: bytes =>
    let next := UnicodeText.decodeByte state byte
    let later := write next.1 bytes
    (later.1, next.2.flatMap UnicodeText.unitsOf ++ later.2)

def decodeEvents (state : UnicodeText.DecoderState) : List (List UInt8) → List JsString
  | [] => []
  | bytes :: events =>
    let next := write state bytes
    next.2 :: decodeEvents next.1 events

/-! ## A job -/

section Job

variable (shell : ShellText) (options : JobOptions)

def captureLimitChars : ℕ := DEFAULT_FOREGROUND_PTY_CAPTURE_CHARS

def startPtyJob : PtyJob where
  probingShell := options.usesLiveShellProbe
  probeOutput := []
  foundStart := false
  preStartOutput := []
  pendingStart := []
  output := []
  pendingEnd := none
  result := none

/-- What `finish` makes of the output. -/
def finalStdout (stdout : JsString) : JsString :=
  normalizePtyOutput stdout
    ⟨options.stripMarkers, options.expectedPrompt, options.normalizeFinalOutput,
      options.marker.marker⟩

def finish (job : PtyJob) (stdout : JsString) (exitCode : ℕ) : PtyJob :=
  if job.result.isSome then job
  else { job with result := some ⟨exitCode == 0, finalStdout options stdout, exitCode⟩ }

def appendToOutput (job : PtyJob) (data : JsString) : PtyJob :=
  if data = [] then job
  else { job with output := appendBoundedOutput job.output data captureLimitChars }

def checkEnd (job : PtyJob) : PtyJob :=
  let returned := shell.extractTrailingIdlePrompt job.output ≠ []
  match job.pendingEnd with
  | some (stdout, exitCode) =>
    if returned then finish options job stdout exitCode else job
  | none =>
    match findEndMarker job.output options.marker.marker true with
    | none => job
    | some found =>
      let stdout := job.output.take found.endIdx
      let job := { job with pendingEnd := some (stdout, found.exitCode) }
      if !options.waitForReturnedPrompt || returned then finish options job stdout found.exitCode
      else job

/-- `marker + "_S"`. -/
def startMarker : JsString := options.marker.marker ++ text "_S"

def wholeLines (combined : JsString) : List JsString × JsString :=
  let lines := splitLines combined
  if combined.getLast?.any isLineBreak then (lines, [])
  else (lines.dropLast, lines.getLast?.getD [])

def isStartLine (line : JsString) : Bool := trim (stripAnsi line) = startMarker options

def outputBehindStart (preStartOutput : JsString) : Option JsString :=
  (lastStartLine (startMarker options) 0 0 preStartOutput).map fun boundary =>
    afterFirstLineBreak (preStartOutput.drop boundary)

/-- The place of the last occurrence of a text. -/
def lastIndexOf (part : JsString) : JsString → Option ℕ
  | [] => none
  | u :: rest =>
    ((lastIndexOf part rest).map (· + 1)).or (if part.isPrefixOf (u :: rest) then some 0 else none)

def outputBeforeEnd (preStartOutput : JsString) (endIdx : ℕ) : JsString :=
  let stdout := preStartOutput.take endIdx
  match lastIndexOf (startMarker options) stdout with
  | none => stdout
  | some index =>
    if (stdout.drop index).contains lineFeed then afterFirstLineBreak (stdout.drop index)
    else stdout

def readBeforeStart (job : PtyJob) (data : JsString) : PtyJob :=
  let job := { job with preStartOutput := job.preStartOutput ++ data }
  let (lines, trailingPartial) := wholeLines (job.pendingStart ++ data)
  if lines.any (isStartLine options) then
    let job := { job with foundStart := true, pendingStart := trailingPartial }
    let job := match outputBehindStart options job.preStartOutput with
      | none => job
      | some initialOutput => appendToOutput { job with output := [] } initialOutput
    checkEnd shell options { job with preStartOutput := [] }
  else
    match findEndMarker job.preStartOutput options.marker.marker false with
    | some found =>
      finish options { job with pendingStart := trailingPartial }
        (outputBeforeEnd options job.preStartOutput found.endIdx) found.exitCode
    | none =>
      let markerCarryLimit := options.marker.marker.length + 256
      { job with
        preStartOutput := keepLast captureLimitChars job.preStartOutput,
        pendingStart := keepLast markerCarryLimit trailingPartial }

/-- A data event, decoded. -/
def onText (job : PtyJob) (data : JsString) : PtyJob :=
  if job.result.isSome ∨ data = [] then job
  else if job.probingShell then
    let probeOutput := keepLast 16384 (job.probeOutput ++ data)
    if shell.parseLiveShellProbe (stripAnsi probeOutput) options.marker.marker then
      { job with probingShell := false, probeOutput := [] }
    else { job with probeOutput }
  else if !job.foundStart then readBeforeStart shell options job data
  else checkEnd shell options (appendToOutput job data)

/-- A job that is fed these data events. -/
def runJob (events : List (List UInt8)) : PtyJob :=
  (decodeEvents .start events).foldl (onText shell options) (startPtyJob options)

end Job

end Netcatty.PtyExec
