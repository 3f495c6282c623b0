import Netcatty.Numerals
import Netcatty.UnicodeText

/-!
The SCP wire protocol of single-file transfers.

A sender writes one control line an item, and after a file's line its bytes and a
NUL.  The parser of a source stream is fed pieces of it.  A control line ends at
the first newline; its name starts after the second blank; and the line is taken
apart by the expression `^([CD])([0-7]{3,5})\s+(\d+)\s+(.*)$`.  Names are encoded
as UTF-8.  A size is the length of a buffer, below 2^53, where the double that the
code computes is the integer.
-/

namespace Netcatty.Scp

open List

open UnicodeText (encode decode)

/-- A call that returns, or throws a `ScpProtocolError` with this message. -/
abbrev ScpChecked := Except JsString

abbrev Bytes := List UInt8

/-! ## Characters -/

def nulUnit : Fin 65536 := ⟨0, by decide⟩

/-- What `.` does not match. -/
def isLineTerminator (u : Fin 65536) : Bool := u.val ∈ [10, 13, 0x2028, 0x2029]

def isOctalDigit (u : Fin 65536) : Bool := 48 ≤ u.val && u.val ≤ 55

/-! ## Control lines -/

def normalizeModeOctal (mode : ℤ) : JsString :=
  let n := if mode < 0 then 0o644 else mode
  let masked := (n % 4096).toNat
  let digits := (Nat.toDigits 8 masked).flatMap codeUnits
  List.replicate (4 - digits.length) digitZero ++ digits

def sanitizeScpBasename (name : JsString) : ScpChecked JsString :=
  if name = [] then .error (text "SCP entry name is required")
  else if name.contains nulUnit then .error (text "SCP entry name must not contain NUL")
  else if name.contains slash ∨ name = text ".." ∨ name = text "." then
    .error (text "SCP entry name must be a simple basename: " ++ name)
  else if name.contains carriageReturn ∨ name.contains lineFeed then
    .error (text "SCP entry name must not contain newlines")
  else .ok name

/-- The control line of a file up to its name. -/
def fileHeader (mode : ℤ) (size : ℕ) : JsString :=
  text "C" ++ (normalizeModeOctal mode ++ (text " " ++ (decimal size ++ text " ")))

def buildFileControlLine (mode : ℤ) (size : ℤ) (name : JsString) : ScpChecked Bytes :=
  if size < 0 then
    .error (text "Invalid SCP file size: " ++ (text "-" ++ decimal size.natAbs))
  else do
    let baseName ← sanitizeScpBasename name
    return encode (fileHeader mode size.toNat) ++ encode baseName ++ encode (text "\n")

/-- The control line of a directory up to its name. -/
def directoryHeader (mode : ℤ) : JsString :=
  text "D" ++ (normalizeModeOctal mode ++ (text " " ++ (text "0" ++ text " ")))

def buildDirectoryControlLine (mode : ℤ) (name : JsString) : ScpChecked Bytes := do
  let baseName ← sanitizeScpBasename name
  return encode (directoryHeader mode ++ baseName ++ text "\n")

def buildEndDirectoryLine : Bytes := encode (text "E\n")

inductive ControlLine where
  | endOfDirectory
  | time (raw : JsString)
  | directory (mode size : ℕ) (name : JsString)
  | file (mode size : ℕ) (name : JsString)

/-- `text.replace(/\r?\n$/, "")`. -/
def stripLineEnd (line : JsString) : JsString :=
  if line.getLast? = some lineFeed then
    let line := line.dropLast
    if line.getLast? = some carriageReturn then line.dropLast else line
  else line

/-- What the expression of a control line captures. -/
structure ControlMatch where
  isFile : Bool
  mode : JsString
  size : JsString
  name : JsString

/-- The match of `^([CD])([0-7]{3,5})\s+(\d+)\s+(.*)$`.  Each group but the last is
followed by something it cannot hold, so it takes all it can; the last blanks take
all they can because `.*` ends at `$` or not at all. -/
def matchControlLine : JsString → Option ControlMatch
  | [] => none
  | kind :: line =>
    let mode := line.takeWhile isOctalDigit
    let afterMode := line.dropWhile isOctalDigit
    let fromSize := afterMode.dropWhile isWhiteSpace
    let size := fromSize.takeWhile isDigit
    let afterSize := fromSize.dropWhile isDigit
    let name := afterSize.dropWhile isWhiteSpace
    if (kind.val = 67 ∨ kind.val = 68) ∧ 3 ≤ mode.length ∧ mode.length ≤ 5 ∧
        (afterMode.head?.any isWhiteSpace) ∧ size ≠ [] ∧ (afterSize.head?.any isWhiteSpace) ∧
        ¬ name.any isLineTerminator then
      some ⟨kind.val = 67, mode, size, name⟩
    else none

def parseControlText (trimmed : JsString) : ScpChecked ControlLine :=
  if trimmed = [] then .error (text "Empty SCP control line")
  else if trimmed = text "E" then .ok .endOfDirectory
  else if trimmed.head? ≠ (text "C").head? ∧ trimmed.head? ≠ (text "D").head? ∧
      trimmed.head? ≠ (text "T").head? then
    .error (text "Unknown SCP control line: " ++ trimmed.take 80)
  else if trimmed.head? = (text "T").head? then .ok (.time trimmed)
  else
    match matchControlLine trimmed with
    | none => .error (text "Malformed SCP control line: " ++ trimmed.take 80)
    | some found =>
      if found.name = [] ∨ found.name.contains slash ∨ found.name = text ".." ∨
          found.name = text "." then
        .error (text "Invalid SCP entry name: " ++ found.name)
      else if found.isFile then
        .ok (.file (parseDigits 8 found.mode) (parseDigits 10 found.size) found.name)
      else .ok (.directory (parseDigits 8 found.mode) (parseDigits 10 found.size) found.name)

def parseControlLine (line : Bytes) : ScpChecked ControlLine :=
  parseControlText (stripLineEnd (decode line))

/-! ## The parser of a source stream -/

structure PendingFile where
  mode : ℕ
  size : ℕ
  name : JsString
  deriving DecidableEq

inductive ScpEvent where
  | time (raw : JsString)
  | endDirectory
  | directory (mode : ℕ) (name : JsString)
  | fileStart (file : PendingFile)
  | fileData (data : Bytes)
  | fileEnd (file : PendingFile)

/-- `phase`, with `pendingFile` and `remaining`; `needTrailingNul` holds outside
`await-control`. -/
inductive Phase where
  | awaitControl
  | awaitData (pendingFile : PendingFile) (remaining : ℕ)
  | awaitNul (pendingFile : PendingFile)
  deriving DecidableEq

/-- The line up to the first newline, and what follows it. -/
def splitLine : Bytes → Option (Bytes × Bytes)
  | [] => none
  | byte :: buf =>
    if byte = 0x0a then some ([], buf) else (splitLine buf).map (Prod.map (byte :: ·) id)

/-- The line up to its `count`-th blank, and what follows it. -/
def splitBlanks : ℕ → Bytes → Option (Bytes × Bytes)
  | 0, line => some ([], line)
  | _ + 1, [] => none
  | count + 1, byte :: line =>
    (splitBlanks (if byte = 0x20 then count else count + 1) line).map (Prod.map (byte :: ·) id)

/-- A `C` or `D` line is put together again from its decoded name. -/
def lineForParse (line : Bytes) : Bytes :=
  if line.head? = some 0x43 ∨ line.head? = some 0x44 then
    match splitBlanks 2 line with
    | none => line
    | some split => if split.2 = [] then line else encode (decode split.1 ++ decode split.2)
  else line

/-- What the parser has emitted, and where it stands. -/
structure Reading where
  events : List ScpEvent
  phase : Phase
  buf : Bytes

def readControl (control : ControlLine) (buf : Bytes) : Reading :=
  match control with
  | .time raw => ⟨[.time raw], .awaitControl, buf⟩
  | .endOfDirectory => ⟨[.endDirectory], .awaitControl, buf⟩
  | .directory mode _ name => ⟨[.directory mode name], .awaitControl, buf⟩
  | .file mode size name =>
    ⟨[.fileStart ⟨mode, size, name⟩],
      if size = 0 then .awaitNul ⟨mode, size, name⟩ else .awaitData ⟨mode, size, name⟩ size, buf⟩

/-- One phase of the loop of `feed`; `none` where it breaks.  Falling through to the
next phase and going on at the head of the loop come to the same. -/
def readPhase (phase : Phase) (buf : Bytes) : ScpChecked (Option Reading) :=
  match phase with
  | .awaitControl =>
    match splitLine buf with
    | none => .ok none
    | some split => do
      let control ← parseControlLine (lineForParse split.1)
      return some (readControl control split.2)
  | .awaitData file remaining =>
    let take := min remaining buf.length
    .ok (some ⟨[.fileData (buf.take take)],
      if remaining - take = 0 then .awaitNul file else .awaitData file (remaining - take),
      buf.drop take⟩)
  | .awaitNul file =>
    match buf with
    | [] => .ok none
    | byte :: buf =>
      if byte ≠ 0 then .error (text "Expected trailing NUL after SCP file data")
      else .ok (some ⟨[.fileEnd file], .awaitControl, buf⟩)

/-- Each round of the loop takes a byte or leaves the data phase. -/
def fuel (phase : Phase) (buf : Bytes) : ℕ :=
  2 * buf.length +
    match phase with
    | .awaitData .. => 1
    | _ => 0

theorem splitLine_length {buf line rest : Bytes} (found : splitLine buf = some (line, rest)) :
    rest.length < buf.length := by
  induction buf generalizing line with
  | nil => cases found
  | cons byte buf ih =>
    rw [splitLine] at found
    split at found
    · simp only [Option.some.injEq, Prod.mk.injEq] at found
      simp [found.2]
    · obtain ⟨later, split, same⟩ := Option.map_eq_some_iff.mp found
      have ends : later.2 = rest := congrArg Prod.snd same
      have shorter := @ih later.1 (by rw [split, ← ends])
      simp only [length_cons]
      omega

theorem fuel_readPhase {phase : Phase} {buf : Bytes} {reading : Reading} (nonempty : buf ≠ [])
    (found : readPhase phase buf = .ok (some reading)) :
    fuel reading.phase reading.buf < fuel phase buf := by
  cases phase with
  | awaitControl =>
    simp only [readPhase] at found
    split at found
    · cases found
    · rename_i split cut
      have cut : splitLine buf = some (split.1, split.2) := cut
      have shorter := splitLine_length cut
      cases parsed : parseControlLine (lineForParse split.1) with
      | error message => simp [parsed, Bind.bind, Except.bind] at found
      | ok control =>
        simp only [parsed, ok_bind, pure_eq_ok, Except.ok.injEq, Option.some.injEq] at found
        subst found
        cases control <;> simp only [readControl, fuel] <;> (try split) <;> omega
  | awaitData file remaining =>
    simp only [readPhase, Except.ok.injEq, Option.some.injEq] at found
    subst found
    have positive := length_pos_iff.mpr nonempty
    by_cases done : remaining - min remaining buf.length = 0
    · simp only [fuel, length_drop, if_pos done]
      omega
    · simp only [fuel, length_drop, if_neg done]
      omega
  | awaitNul file =>
    cases buf with
    | nil => exact absurd rfl nonempty
    | cons byte buf =>
      simp only [readPhase] at found
      split at found
      · cases found
      · simp only [Except.ok.injEq, Option.some.injEq] at found
        subst found
        simp [fuel]

/-- `while (buf.length > 0)`. -/
def loop (phase : Phase) (buf : Bytes) : ScpChecked Reading :=
  if _nonempty : buf = [] then .ok ⟨[], phase, buf⟩
  else
    match _read : readPhase phase buf with
    | .error message => .error message
    | .ok none => .ok ⟨[], phase, buf⟩
    | .ok (some reading) => do
      let later ← loop reading.phase reading.buf
      return { later with events := reading.events ++ later.events }
  termination_by fuel phase buf
  decreasing_by exact fuel_readPhase _nonempty _read

structure SourceStreamParser where
  phase : Phase
  buf : Bytes

def createSourceStreamParser : SourceStreamParser := ⟨.awaitControl, []⟩

namespace SourceStreamParser

def feed (parser : SourceStreamParser) (chunk : Bytes) :
    ScpChecked (List ScpEvent × SourceStreamParser) :=
  if chunk = [] then .ok ([], parser)
  else do
    let reading ← loop parser.phase (parser.buf ++ chunk)
    return (reading.events, ⟨reading.phase, reading.buf⟩)

def finish (parser : SourceStreamParser) : ScpChecked Unit :=
  if parser.phase ≠ .awaitControl then .error (text "Incomplete SCP source stream")
  else if parser.buf = [] then .ok ()
  else
    let leftover := trim (decode parser.buf)
    if leftover = [] then .ok ()
    else .error (text "Trailing garbage in SCP stream: " ++ leftover.take 80)

def feedAll (parser : SourceStreamParser) : List Bytes →
    ScpChecked (List ScpEvent × SourceStreamParser)
  | [] => .ok ([], parser)
  | chunk :: chunks => do
    let first ← parser.feed chunk
    let later ← first.2.feedAll chunks
    return (first.1 ++ later.1, later.2)

end SourceStreamParser

end Netcatty.Scp
