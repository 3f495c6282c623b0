import Netcatty.JsValue
import Netcatty.ResumableScan

/-!
The filter that decides which terminal output automation rules may match.

Server output arrives in chunks.  `processServerChunk` removes escape sequences,
what is printed on the alternate screen, and the echo of what the user typed.  A
sequence a chunk cuts short waits in `pendingEscape` for the next chunk.
-/

namespace Netcatty.OutputTrigger

open ResumableScan List

def MAX_PENDING_ECHO : ℕ := 4096

def ALTERNATE_SCREEN_MODES : List ℤ := [47, 1047, 1049]

inductive TerminalAlternateScreenAction where
  | enter
  | leave
  deriving DecidableEq

/-! ## Reading one sequence -/

/-- A final byte of a sequence. -/
def isFinal (code : Fin 65536) : Bool := 0x40 ≤ code.val ∧ code.val ≤ 0x7e

/-- The loop of `readCsiSequence`: what stands up to the first final byte. -/
def splitCsi : JsString → Option (JsString × JsString)
  | [] => none
  | code :: rest =>
    if isFinal code then some ([code], rest)
    else (splitCsi rest).map fun split => (code :: split.1, split.2)

/-- `readCsiSequence`: the sequence at the front of the input and what follows it. -/
def readCsiSequence (input : JsString) : Option (JsString × JsString) :=
  match input with
  | first :: second :: rest =>
    if first = escapeUnit ∧ second = openBracket then
      (splitCsi rest).map fun split => (first :: second :: split.1, split.2)
    else none
  | _ => none

/-- The loop of `readOscSequence`: what stands up to BEL or `ESC \`. -/
def splitOsc : JsString → Option (JsString × JsString)
  | [] => none
  | code :: rest =>
    if code = bellUnit then some ([code], rest)
    else if code = escapeUnit ∧ rest.head? = some backslash then
      some ([code, backslash], rest.tail)
    else (splitOsc rest).map fun split => (code :: split.1, split.2)

/-- `readOscSequence`: `ESC ] payload` up to BEL or ST. -/
def readOscSequence (input : JsString) : Option (JsString × JsString) :=
  match input with
  | first :: second :: rest =>
    if first = escapeUnit ∧ second = closeBracket then
      (splitOsc rest).map fun split => (first :: second :: split.1, split.2)
    else none
  | _ => none

/-- `readEscapeSequence`: beyond CSI and OSC, only two units whose second is a
final byte make a sequence. -/
def readEscapeSequence (input : JsString) : Option (JsString × JsString) :=
  match input with
  | first :: next :: rest =>
    if first ≠ escapeUnit then none
    else if next = openBracket then readCsiSequence input
    else if next = closeBracket then readOscSequence input
    else if isFinal next then some ([first, next], rest)
    else none
  | _ => none

theorem splitCsi_eq {buf body rest : JsString} (found : splitCsi buf = some (body, rest)) :
    buf = body ++ rest ∧ ∀ more, splitCsi (body ++ more) = some (body, more) := by
  induction buf generalizing body with
  | nil => cases found
  | cons code buf ih =>
    rw [splitCsi] at found
    by_cases final : isFinal code
    · rw [if_pos final] at found
      cases found
      refine ⟨rfl, ?_⟩
      intro more
      rw [cons_append, splitCsi, if_pos final, nil_append]
    · rw [if_neg final, Option.map_eq_some_iff] at found
      obtain ⟨split, found, same⟩ := found
      cases same
      obtain ⟨units, again⟩ := ih found
      refine ⟨by rw [units]; rfl, ?_⟩
      intro more
      rw [cons_append, splitCsi, if_neg final, again]
      rfl

theorem splitOsc_eq {buf payload rest : JsString} (found : splitOsc buf = some (payload, rest)) :
    buf = payload ++ rest ∧ ∀ more, splitOsc (payload ++ more) = some (payload, more) := by
  induction buf generalizing payload with
  | nil => cases found
  | cons code buf ih =>
    rw [splitOsc] at found
    by_cases bell : code = bellUnit
    · rw [if_pos bell] at found
      cases found
      refine ⟨rfl, ?_⟩
      intro more
      rw [cons_append, splitOsc, if_pos bell, nil_append]
    · rw [if_neg bell] at found
      by_cases terminator : code = escapeUnit ∧ buf.head? = some backslash
      · rw [if_pos terminator] at found
        cases found
        obtain ⟨esc, head⟩ := terminator
        refine ⟨?_, ?_⟩
        · cases buf with
          | nil => cases head
          | cons next buf =>
            cases head
            rfl
        · intro more
          rw [cons_append, splitOsc, if_neg bell, if_pos ⟨esc, rfl⟩]
          rfl
      · rw [if_neg terminator, Option.map_eq_some_iff] at found
        obtain ⟨split, found, same⟩ := found
        cases same
        obtain ⟨units, again⟩ := ih found
        refine ⟨by rw [units]; rfl, ?_⟩
        intro more
        -- the payload goes on, so its next unit is the one that was looked at
        have head : (split.1 ++ more).head? = buf.head? := by
          cases part : split.1 with
          | nil =>
            have none := again []
            rw [part] at none
            cases none
          | cons next payload => rw [units, part]; rfl
        rw [cons_append, splitOsc, if_neg bell, head, if_neg terminator, again]
        rfl

/-- A sequence that was read is the front of the input, and is read again
whatever follows it. -/
theorem readEscapeSequence_eq {input sequence rest : JsString}
    (found : readEscapeSequence input = some (sequence, rest)) :
    input = sequence ++ rest ∧ 2 ≤ sequence.length ∧ sequence.head? = some escapeUnit ∧
      ∀ more, readEscapeSequence (sequence ++ more) = some (sequence, more) := by
  obtain _ | ⟨first, _ | ⟨next, after⟩⟩ := input
  · cases found
  · cases found
  · rw [readEscapeSequence] at found
    by_cases esc : first = escapeUnit
    · rw [if_neg (not_not_intro esc)] at found
      by_cases csi : next = openBracket
      · rw [if_pos csi, readCsiSequence, if_pos ⟨esc, csi⟩, Option.map_eq_some_iff] at found
        obtain ⟨split, found, same⟩ := found
        cases same
        obtain ⟨units, again⟩ := splitCsi_eq found
        refine ⟨by rw [units]; rfl, by simp, by rw [esc]; rfl, ?_⟩
        intro more
        rw [cons_append, cons_append, readEscapeSequence, if_neg (not_not_intro esc),
          if_pos csi, readCsiSequence, if_pos ⟨esc, csi⟩, again]
        rfl
      · rw [if_neg csi] at found
        by_cases osc : next = closeBracket
        · rw [if_pos osc, readOscSequence, if_pos ⟨esc, osc⟩, Option.map_eq_some_iff] at found
          obtain ⟨split, found, same⟩ := found
          cases same
          obtain ⟨units, again⟩ := splitOsc_eq found
          refine ⟨by rw [units]; rfl, by simp, by rw [esc]; rfl, ?_⟩
          intro more
          rw [cons_append, cons_append, readEscapeSequence, if_neg (not_not_intro esc),
            if_neg csi, if_pos osc, readOscSequence, if_pos ⟨esc, osc⟩, again]
          rfl
        · rw [if_neg osc] at found
          by_cases final : isFinal next
          · rw [if_pos final] at found
            cases found
            refine ⟨rfl, le_refl _, by rw [esc]; rfl, ?_⟩
            intro more
            rw [cons_append, cons_append, readEscapeSequence,
              if_neg (not_not_intro esc), if_neg csi, if_neg osc, if_pos final, nil_append]
          · rw [if_neg final] at found
            cases found
    · rw [if_pos esc] at found
      cases found

theorem readEscapeSequence_shrinks {input : JsString} {read : JsString × JsString}
    (found : readEscapeSequence input = some read) : read.2.length < input.length := by
  obtain ⟨sequence, rest⟩ := read
  obtain ⟨units, long, -⟩ := readEscapeSequence_eq found
  rw [units, length_append]
  exact Nat.lt_add_of_pos_left (Nat.lt_of_lt_of_le Nat.two_pos long)

/-- What the loops over a chunk read at once: a unit of text, or a sequence. -/
inductive Piece where
  | unit (code : Fin 65536)
  | sequence (sequence : JsString)
  deriving DecidableEq

def Piece.units : Piece → JsString
  | .unit code => [code]
  | .sequence read => read

def nextPiece : JsString → Option (Piece × JsString)
  | [] => none
  | code :: rest =>
    if code ≠ escapeUnit then some (.unit code, rest)
    else (readEscapeSequence (code :: rest)).map fun read => (.sequence read.1, read.2)

theorem nextPiece_eq {input rest : JsString} {piece : Piece}
    (found : nextPiece input = some (piece, rest)) :
    input = piece.units ++ rest ∧ 0 < piece.units.length ∧
      ∀ more, nextPiece (piece.units ++ more) = some (piece, more) := by
  cases input with
  | nil => cases found
  | cons code after =>
    rw [nextPiece] at found
    by_cases esc : code = escapeUnit
    · rw [if_neg (not_not_intro esc), Option.map_eq_some_iff] at found
      obtain ⟨read, found, same⟩ := found
      cases same
      obtain ⟨units, long, head, again⟩ := readEscapeSequence_eq found
      refine ⟨units, Nat.lt_of_lt_of_le Nat.two_pos long, ?_⟩
      intro more
      obtain ⟨sequence, after⟩ := read
      change nextPiece (sequence ++ more) = _
      cases sequence with
      | nil => cases head
      | cons first body =>
        cases head
        rw [cons_append, nextPiece, if_neg (not_not_intro rfl), ← cons_append, again]
        rfl
    · rw [if_pos esc] at found
      cases found
      refine ⟨rfl, Nat.one_pos, ?_⟩
      intro more
      simp only [Piece.units, cons_append, nil_append, nextPiece, if_pos esc]

def pieces : Tokenizer (Fin 65536) Piece where
  next := nextPiece
  shrinks found := by
    obtain ⟨units, pos, -⟩ := nextPiece_eq found
    rw [units, List.length_append]
    omega
  stable more found := by
    obtain ⟨units, -, again⟩ := nextPiece_eq found
    rw [units, List.append_assoc, again]

/-! ## Alternate screen -/

/-- White space that `parseInt` skips. -/
def isJsWhiteSpace (code : Fin 65536) : Bool :=
  (0x09 ≤ code.val ∧ code.val ≤ 0x0d) ∨ code.val ∈ [0x20, 0xa0, 0x1680, 0x2028, 0x2029, 0x202f,
    0x205f, 0x3000, 0xfeff] ∨ (0x2000 ≤ code.val ∧ code.val ≤ 0x200a)

def isDigit (code : Fin 65536) : Bool := 0x30 ≤ code.val ∧ code.val ≤ 0x39

/-- `Number.parseInt(part, 10)`, where `none` is `NaN`. -/
def parseInt (part : JsString) : Option ℤ :=
  let trimmed := part.dropWhile isJsWhiteSpace
  let negative : Bool := trimmed.head?.any fun code => code.val = 0x2d
  let signed : Bool := trimmed.head?.any fun code => code.val = 0x2b ∨ code.val = 0x2d
  let digits := (if signed then trimmed.tail else trimmed).takeWhile isDigit
  let value : ℕ := digits.foldl (fun value code => value * 10 + (code.val - 0x30)) 0
  if digits = [] then none else some (if negative then -(value : ℤ) else value)

def getTerminalAlternateScreenAction (sequence : JsString) : Option TerminalAlternateScreenAction :=
  if sequence.take 2 ≠ [escapeUnit, openBracket] ∨ sequence.length < 3 then none
  else
    match sequence.getLast? with
    | none => none
    | some final =>
      if final.val ≠ 0x68 ∧ final.val ≠ 0x6c then none
      else
        let params := (sequence.drop 2).dropLast
        if ¬ params.head?.any fun code => code.val = 0x3f then none
        else
          let modes := ((params.drop 1).splitOnP fun code => code.val = 0x3b).filterMap parseInt
          if ¬ modes.any (· ∈ ALTERNATE_SCREEN_MODES) then none
          else some (if final.val = 0x68 then .enter else .leave)

/-! ## State -/

/-- The variables `createTerminalOutputTriggerFilter` closes over. -/
structure TerminalOutputTriggerFilter where
  pendingEcho : JsString
  currentInputLine : JsString
  currentInputLineOverflowed : Bool
  submittedEchoLine : Option JsString
  submittedEchoCandidate : JsString
  alternateScreenActive : Bool
  pendingEscape : JsString
  inputEchoSuppressLines : ℕ
  inputEchoSuppressPendingLf : Bool
  deriving DecidableEq

def createTerminalOutputTriggerFilter : TerminalOutputTriggerFilter :=
  ⟨[], [], false, none, [], false, [], 0, false⟩

namespace TerminalOutputTriggerFilter

variable (f : TerminalOutputTriggerFilter)

def resetInputState : TerminalOutputTriggerFilter :=
  { f with
    pendingEcho := [], currentInputLine := [], currentInputLineOverflowed := false,
    submittedEchoLine := none, submittedEchoCandidate := [] }

/-- `lineCount` is 1 where the caller passes none. -/
def markInputEchoUncertain (lineCount : ℕ) :
    TerminalOutputTriggerFilter :=
  { f.resetInputState with
    inputEchoSuppressPendingLf := false,
    inputEchoSuppressLines := max f.inputEchoSuppressLines (max 1 lineCount) }

def reset : TerminalOutputTriggerFilter :=
  { f.resetInputState with
    alternateScreenActive := false, pendingEscape := [], inputEchoSuppressLines := 0,
    inputEchoSuppressPendingLf := false }

def resetPendingEscape : TerminalOutputTriggerFilter :=
  { f with pendingEscape := [] }

end TerminalOutputTriggerFilter

/-! ## User input -/

/-- `data.split(wrapper).join('')`; `skip` units of a wrapper are still to drop. -/
def removeAll (wrapper : JsString) : ℕ → JsString → JsString
  | _, [] => []
  | skip + 1, _ :: rest => removeAll wrapper skip rest
  | 0, code :: rest =>
    if wrapper.isPrefixOf (code :: rest) then removeAll wrapper (wrapper.length - 1) rest
    else code :: removeAll wrapper 0 rest

def BRACKETED_PASTE_START : JsString := text "\x1b[200~"
def BRACKETED_PASTE_END : JsString := text "\x1b[201~"

def stripInputControlWrappers (data : JsString) : JsString :=
  removeAll BRACKETED_PASTE_END 0 (removeAll BRACKETED_PASTE_START 0 data)

/-- The source tests code points; the surrogates of one are printable with it. -/
def isPrintableInput (char : Fin 65536) : Bool := 0x20 ≤ char.val ∧ char.val ≠ 0x7f

/-- One round of the loop of `applyInputToLine`. -/
def applyInputUnit (input : JsString × Option JsString) (char : Fin 65536) :
    JsString × Option JsString :=
  if char = carriageReturn ∨ char = lineFeed then ([], some input.1)
  else if char.val = 0x7f ∨ char.val = 0x08 then (input.1.dropLast, input.2)
  else if isPrintableInput char then (input.1 ++ [char], input.2)
  else input

def applyInputToLine (line data : JsString) : JsString × Option JsString :=
  (stripInputControlWrappers data).foldl applyInputUnit (line, none)

/-- `text.slice(-MAX_PENDING_ECHO)`. -/
def lastUnits (line : JsString) : JsString := line.drop (line.length - MAX_PENDING_ECHO)

/-- The loop of `appendPendingEcho`. -/
def appendEcho (next sanitized : JsString) : JsString :=
  match sanitized with
  | [] => next
  | char :: rest =>
    if char = carriageReturn ∨ char = lineFeed then appendEcho next rest
    else if char = escapeUnit then
      match _found : readEscapeSequence (char :: rest) with
      | some read => appendEcho next read.2
      | none => appendEcho next rest
    else if char.val = 0x7f then appendEcho next.dropLast rest
    else if char.val = 0x08 then appendEcho (next ++ [char]) rest
    else if isPrintableInput char then appendEcho (next ++ [char]) rest
    else appendEcho next rest
  termination_by sanitized.length
  decreasing_by
    all_goals first
      | exact Nat.lt_succ_self _
      | exact readEscapeSequence_shrinks _found

def appendPendingEcho (pendingEcho data : JsString) : JsString :=
  lastUnits (appendEcho pendingEcho (stripInputControlWrappers data))

namespace TerminalOutputTriggerFilter

variable (f : TerminalOutputTriggerFilter)

def noteUserInput (data : JsString) :
    TerminalOutputTriggerFilter :=
  if data = [] then f
  else
    let inputState := applyInputToLine f.currentInputLine data
    let inputLineOverflowed :=
      f.currentInputLineOverflowed || decide (MAX_PENDING_ECHO < inputState.1.length)
    let f := { f with currentInputLine := lastUnits inputState.1 }
    match inputState.2 with
    | some submittedLine =>
      if inputLineOverflowed ∨ MAX_PENDING_ECHO < submittedLine.length then
        f.markInputEchoUncertain 1
      else
        { f with
          submittedEchoLine := some submittedLine, submittedEchoCandidate := [],
          pendingEcho := [] }
    | none =>
      { f with
        currentInputLineOverflowed := inputLineOverflowed,
        pendingEcho := appendPendingEcho f.pendingEcho data }

end TerminalOutputTriggerFilter

/-! ## Server output -/

inductive DropReason where
  | emptyChunk
  | awaitingSubmittedEcho
  | alternateScreenActive
  | pendingEscape
  | userEchoOnly
  | controlOnly
  | editingInputLine
  deriving DecidableEq

structure TerminalOutputChunkMeta where
  rawLen : ℕ
  dropReason : Option DropReason
  submittedEchoLine : Option JsString
  submittedEchoCandidateLen : ℕ
  afterSubmittedLen : ℕ
  afterUserEchoLen : ℕ
  scannableLen : ℕ
  alternateScreenAction : Option TerminalAlternateScreenAction
  deriving DecidableEq

/-- What `processServerChunk` returns. -/
structure ChunkResult where
  scannableText : JsString
  alternateScreenActive : Bool
  chunkMeta : TerminalOutputChunkMeta
  deriving DecidableEq

/-- The loop of `stripUserEcho`: how many units matched, what is left of the echo
and what is left of the chunk. -/
def matchUserEcho (pendingEcho chunk : JsString) : ℕ × JsString × JsString :=
  match pendingEcho, chunk with
  | [], chunk => (0, [], chunk)
  | echo, [] => (0, echo, [])
  | typed :: echo, char :: rest =>
    if char = escapeUnit then
      match _found : readEscapeSequence (char :: rest) with
      | some read => matchUserEcho (typed :: echo) read.2
      | none => (0, typed :: echo, char :: rest)
    else if typed = char then
      let later := matchUserEcho echo rest
      (later.1 + 1, later.2)
    else (0, typed :: echo, char :: rest)
  termination_by chunk.length
  decreasing_by
    all_goals first
      | exact Nat.lt_succ_self _
      | exact readEscapeSequence_shrinks _found

def stripUserEcho (pendingEcho chunk : JsString) : JsString × JsString :=
  if pendingEcho = [] ∨ chunk = [] then (pendingEcho, chunk)
  else
    let matched := matchUserEcho pendingEcho chunk
    if 0 < matched.1 then matched.2 else ([], chunk)

@[simp] theorem stripUserEcho_nil (chunk : JsString) : stripUserEcho [] chunk = ([], chunk) :=
  if_pos (.inl rfl)

structure SubmittedEcho where
  submittedLine : Option JsString
  candidate : JsString
  filtered : JsString

def stripSubmittedLineEcho (submittedLine : Option JsString) (candidate chunk : JsString) :
    SubmittedEcho :=
  match submittedLine with
  | none => ⟨none, [], chunk⟩
  | some line =>
    if line = [] then ⟨none, [], chunk⟩
    else
      let nextCandidate := candidate ++ chunk
      let echoVariants :=
        [line ++ [carriageReturn, lineFeed], line ++ [lineFeed], line ++ [carriageReturn]]
      match echoVariants.find? (·.isPrefixOf nextCandidate) with
      | some fullEcho => ⟨none, [], nextCandidate.drop fullEcho.length⟩
      | none =>
        if echoVariants.any nextCandidate.isPrefixOf then ⟨some line, nextCandidate, []⟩
        else ⟨none, [], nextCandidate⟩

/-- The filter while it reads a chunk, with the last change of screen it saw. -/
structure Noted where
  filter : TerminalOutputTriggerFilter
  alternateScreenAction : Option TerminalAlternateScreenAction

def Noted.noteAlternateScreenSequence (n : Noted) (sequence : JsString) : Noted :=
  if sequence.take 2 ≠ [escapeUnit, openBracket] then n
  else
    match getTerminalAlternateScreenAction sequence with
    | some .enter => ⟨{ n.filter with alternateScreenActive := true, pendingEcho := [] }, some .enter⟩
    | some .leave =>
      ⟨{ n.filter with alternateScreenActive := false, pendingEcho := [] }, some .leave⟩
    | none => n

/-- What `consumeSuppressedEchoLines` returns, with what its callback noted. -/
structure Suppressed where
  noted : Noted
  input : JsString
  lineCount : ℕ
  pendingLf : Bool
  pendingEscape : Option JsString

/-- The loop of `consumeSuppressedEchoLines`. -/
def consumeLoop (n : Noted) (remainingLines : ℕ) (input : JsString) : Suppressed :=
  match remainingLines, input with
  | 0, input => ⟨n, input, 0, false, none⟩
  | lines + 1, [] => ⟨n, [], lines + 1, false, none⟩
  | lines + 1, char :: rest =>
    if char = escapeUnit then
      match _found : readEscapeSequence (char :: rest) with
      | some read => consumeLoop (n.noteAlternateScreenSequence read.1) (lines + 1) read.2
      | none => ⟨n, [], lines + 1, false, some (char :: rest)⟩
    else if char = carriageReturn then
      if rest = [] then ⟨n, [], lines, true, none⟩
      else if rest.head? = some lineFeed then consumeLoop n lines rest.tail
      else consumeLoop n lines rest
    else if char = lineFeed then consumeLoop n lines rest
    else consumeLoop n (lines + 1) rest
  termination_by input.length
  decreasing_by
    all_goals first
      | exact Nat.lt_succ_self _
      | exact readEscapeSequence_shrinks _found
      | simp only [List.length_tail, List.length_cons]; omega

def consumeSuppressedEchoLines (n : Noted) (input : JsString) (lineCount : ℕ) (pendingLf : Bool) :
    Suppressed :=
  consumeLoop n lineCount (if pendingLf ∧ input.head? = some lineFeed then input.tail else input)

/-- The loop of `processServerChunk`, one piece at a time, with the text found so far. -/
def scanPiece (found : Noted × JsString) : Piece → Noted × JsString
  | .unit code =>
    if found.1.filter.alternateScreenActive then found else (found.1, found.2 ++ [code])
  | .sequence sequence => (found.1.noteAlternateScreenSequence sequence, found.2)

/-- `processServerChunk` from the submitted line on, with the input that suppression
left over. -/
def scanChunk (n : Noted) (chunk input : JsString) : ChunkResult × TerminalOutputTriggerFilter :=
  let submitted :=
    stripSubmittedLineEcho n.filter.submittedEchoLine n.filter.submittedEchoCandidate input
  let f := { n.filter with
    submittedEchoLine := submitted.submittedLine, submittedEchoCandidate := submitted.candidate }
  if submitted.filtered = [] then
    (⟨[], f.alternateScreenActive,
      ⟨chunk.length, some (if chunk = [] then .emptyChunk else .awaitingSubmittedEcho),
        f.submittedEchoLine, f.submittedEchoCandidate.length, 0, 0, 0, none⟩⟩, f)
  else
    let echo := stripUserEcho f.pendingEcho submitted.filtered
    let filtered := echo.2
    let read := pieces.run filtered
    let found := read.1.foldl scanPiece (⟨{ f with pendingEcho := echo.1 }, n.alternateScreenAction⟩, [])
    let hitPendingEscape := read.2 ≠ []
    let f := if hitPendingEscape then { found.1.filter with pendingEscape := read.2 }
      else found.1.filter
    let scannableText := if f.currentInputLine ≠ [] then [] else found.2
    let dropReason : Option DropReason :=
      if f.currentInputLine ≠ [] then some .editingInputLine
      else if scannableText ≠ [] then none
      else if hitPendingEscape then some .pendingEscape
      else if f.alternateScreenActive then some .alternateScreenActive
      else if filtered = [] then some .userEchoOnly
      else some .controlOnly
    (⟨scannableText, f.alternateScreenActive,
      ⟨chunk.length, dropReason, f.submittedEchoLine, f.submittedEchoCandidate.length,
        submitted.filtered.length, filtered.length, scannableText.length,
        found.1.alternateScreenAction⟩⟩, f)

namespace TerminalOutputTriggerFilter

variable (f : TerminalOutputTriggerFilter)

def processServerChunk (chunk : JsString) :
    ChunkResult × TerminalOutputTriggerFilter :=
  let input := f.pendingEscape ++ chunk
  let f := { f with pendingEscape := [] }
  if 0 < f.inputEchoSuppressLines ∨ f.inputEchoSuppressPendingLf then
    let suppressed := consumeSuppressedEchoLines ⟨f, none⟩ input f.inputEchoSuppressLines
      f.inputEchoSuppressPendingLf
    let f := { suppressed.noted.filter with
      inputEchoSuppressLines := suppressed.lineCount,
      inputEchoSuppressPendingLf := suppressed.pendingLf,
      pendingEscape := suppressed.pendingEscape.getD [] }
    if suppressed.input = [] ∨ 0 < suppressed.lineCount then
      (⟨[], f.alternateScreenActive, ⟨chunk.length, some .awaitingSubmittedEcho, none, 0, 0, 0, 0,
        suppressed.noted.alternateScreenAction⟩⟩, f)
    else scanChunk ⟨f, suppressed.noted.alternateScreenAction⟩ chunk suppressed.input
  else scanChunk ⟨f, none⟩ chunk input

end TerminalOutputTriggerFilter

end Netcatty.OutputTrigger
