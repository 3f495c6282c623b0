import Netcatty.OutputTriggerStreams

/-!
What the user typed is not what automation rules match.

The filter is told of every piece of input.  When the line is submitted, the server's
echo of it is awaited: chunks are collected while they are a start of the line, and
dropped with the line's end.  From there the filter goes on as one that was told of
nothing (`echo_is_not_scanned`), with one line feed more where a chunk ends behind
the carriage return.
-/

namespace Netcatty.OutputTrigger

open TerminalOutputTriggerFilter List

variable {f : TerminalOutputTriggerFilter} {line candidate chunk output : JsString}

/-! ## Typing -/

theorem removeAll_of_not_mem {wrapper data : JsString} (first : Fin 65536)
    (head : wrapper.head? = some first) (absent : first ∉ data) : removeAll wrapper 0 data = data := by
  induction data with
  | nil => rfl
  | cons code rest ih =>
    obtain ⟨other, absent⟩ := not_or.mp (mt mem_cons.mpr absent)
    cases wrapper with
    | nil => cases head
    | cons begin wrapper =>
      cases head
      simp [removeAll, other, ih absent]

theorem applyInputToLine_printable {data : JsString} (printable : ∀ char ∈ data, isPrintableInput char) :
    applyInputToLine line data = (line ++ data, none) := by
  have bare : escapeUnit ∉ data := fun mem => absurd (printable _ mem) (by decide)
  unfold applyInputToLine stripInputControlWrappers
  rw [removeAll_of_not_mem escapeUnit rfl bare, removeAll_of_not_mem escapeUnit rfl bare]
  clear bare
  induction data generalizing line with
  | nil => rw [foldl_nil, append_nil]
  | cons char data ih =>
    have shown := printable char mem_cons_self
    have ends : ¬ (char = carriageReturn ∨ char = lineFeed) := by
      rintro (rfl | rfl)
      · exact absurd shown (by decide)
      · exact absurd shown (by decide)
    have edits : ¬ (char.val = 0x7f ∨ char.val = 0x08) := by
      simp only [isPrintableInput, decide_eq_true_eq] at shown
      omega
    rw [foldl_cons, applyInputUnit, if_neg ends, if_neg edits, if_pos shown,
      ih fun char mem => printable char (mem_cons_of_mem _ mem), append_assoc]
    rfl

theorem lastUnits_of_short (short : line.length ≤ MAX_PENDING_ECHO) : lastUnits line = line := by
  rw [lastUnits, Nat.sub_eq_zero_of_le short, drop_zero]

/-- What is typed lengthens the line, and changes what is expected back. -/
theorem noteUserInput_printable (fresh : f.currentInputLineOverflowed = false) {data : JsString}
    (printable : ∀ char ∈ data, isPrintableInput char)
    (short : (line ++ data).length ≤ MAX_PENDING_ECHO) (echo : JsString) :
    ∃ echo', { f with currentInputLine := line, pendingEcho := echo }.noteUserInput data =
      { f with currentInputLine := line ++ data, pendingEcho := echo' } := by
  unfold noteUserInput
  by_cases empty : data = []
  · exact ⟨echo, by simp [empty]⟩
  · have fits := short
    rw [length_append] at fits
    exact ⟨appendPendingEcho echo data, by
      simp [empty, applyInputToLine_printable printable, lastUnits_of_short short, fits, fresh]⟩

theorem foldl_noteUserInput (fresh : f.currentInputLineOverflowed = false) (line : JsString) {typed : List JsString}
    (printable : ∀ data ∈ typed, ∀ char ∈ data, isPrintableInput char)
    (short : (line ++ typed.flatten).length ≤ MAX_PENDING_ECHO) (echo : JsString) :
    ∃ echo', typed.foldl noteUserInput { f with currentInputLine := line, pendingEcho := echo } =
      { f with currentInputLine := line ++ typed.flatten, pendingEcho := echo' } := by
  induction typed generalizing line echo with
  | nil => exact ⟨echo, by rw [flatten_nil, append_nil]; rfl⟩
  | cons data typed ih =>
    rw [flatten_cons, ← append_assoc] at short ⊢
    have first : (line ++ data).length ≤ MAX_PENDING_ECHO := by
      rw [length_append] at short
      exact Nat.le_trans (Nat.le_add_right _ _) short
    obtain ⟨echo', noted⟩ := noteUserInput_printable fresh (printable data mem_cons_self) first echo
    rw [foldl_cons, noted]
    exact ih _ (fun data mem => printable data (mem_cons_of_mem _ mem)) short echo'

theorem noteUserInput_submit (fresh : f.currentInputLineOverflowed = false)
    (short : line.length ≤ MAX_PENDING_ECHO) (echo : JsString) :
    { f with currentInputLine := line, pendingEcho := echo }.noteUserInput [carriageReturn] =
      { f with
        currentInputLine := [], pendingEcho := [],
        submittedEchoLine := some line, submittedEchoCandidate := [] } := by
  have ends : applyInputToLine line [carriageReturn] = ([], some line) := rfl
  simp [noteUserInput, ends, fresh, short, lastUnits]

/-! ## The echo -/

/-- The submitted line has been echoed as far as the candidate. -/
def awaitingEcho (f : TerminalOutputTriggerFilter) (line candidate : JsString) : TerminalOutputTriggerFilter :=
  { f with submittedEchoLine := some line, submittedEchoCandidate := candidate }

section Strip

variable (named : line ≠ [])
include named

/-- A start of the line waits for the rest of the echo. -/
theorem stripSubmittedLineEcho_start (start : candidate ++ chunk <+: line) :
    stripSubmittedLineEcho (some line) candidate chunk = ⟨some line, candidate ++ chunk, []⟩ := by
  have longer (ending : JsString) (some : ending ≠ []) : ¬ line ++ ending <+: candidate ++ chunk := by
    intro inside
    have short := (inside.trans start).length_le
    rw [length_append] at short
    exact some (length_eq_zero_iff.mp (by omega))
  have starts := start.trans (prefix_append line [carriageReturn, lineFeed])
  simp [stripSubmittedLineEcho, named, longer, starts]

/-- The line and a carriage return are dropped as soon as they are there. -/
theorem stripSubmittedLineEcho_return (cut : candidate ++ chunk = line ++ [carriageReturn]) :
    stripSubmittedLineEcho (some line) candidate chunk = ⟨none, [], []⟩ := by
  have other : ¬ lineFeed = carriageReturn := by decide
  simp [stripSubmittedLineEcho, named, cut, prefix_append_right_inj, other]

/-- Of a longer chunk only what is behind the echo is left. -/
theorem stripSubmittedLineEcho_lineFeed {more : JsString}
    (cut : candidate ++ chunk = line ++ carriageReturn :: lineFeed :: more) :
    stripSubmittedLineEcho (some line) candidate chunk = ⟨none, [], more⟩ := by
  simp [stripSubmittedLineEcho, named, cut, prefix_append_right_inj]

end Strip

/-- The chunk that completes the echo is read from behind the echo. -/
theorem processServerChunk_echoed (quiet : NoInputNoted f) (outside : f.pendingEscape = []) {more : JsString}
    (stripped : stripSubmittedLineEcho (some line) candidate chunk = ⟨none, [], more⟩) :
    ((awaitingEcho f line candidate).processServerChunk chunk).1.scannableText =
        (f.processServerChunk more).1.scannableText ∧
      ((awaitingEcho f line candidate).processServerChunk chunk).2 = (f.processServerChunk more).2 := by
  have behind : (awaitingEcho f line candidate).processServerChunk chunk =
      scanChunk ⟨{ f with submittedEchoLine := none, submittedEchoCandidate := [] }, none⟩ chunk more := by
    have known : stripSubmittedLineEcho none [] more = ⟨none, [], more⟩ := rfl
    simp [processServerChunk, awaitingEcho, quiet.inputEchoSuppressLines, quiet.inputEchoSuppressPendingLf,
      outside, scanChunk, stripped, known]
  obtain ⟨text, filter⟩ := scanChunk_quiet (n := ⟨{ f with submittedEchoLine := none, submittedEchoCandidate := [] },
    none⟩) ⟨quiet.1, quiet.2, rfl, quiet.4, quiet.5⟩ outside chunk more
  obtain ⟨text', filter'⟩ := processServerChunk_quiet quiet more
  rw [behind, text, filter, text', filter', outside, nil_append, quiet.submittedEchoLine]
  exact ⟨rfl, rfl⟩

theorem processServerChunk_awaiting (quiet : NoInputNoted f) (outside : f.pendingEscape = []) (named : line ≠ [])
    (start : candidate ++ chunk <+: line) :
    ((awaitingEcho f line candidate).processServerChunk chunk).1.scannableText = [] ∧
      ((awaitingEcho f line candidate).processServerChunk chunk).2 = awaitingEcho f line (candidate ++ chunk) := by
  simp [processServerChunk, awaitingEcho, quiet.inputEchoSuppressLines, quiet.inputEchoSuppressPendingLf,
    outside, scanChunk, stripSubmittedLineEcho_start named start]

/-- While the echo comes in nothing is shown; what follows it is read as by the filter that was told
of nothing. -/
theorem processAll_awaitingEcho (quiet : NoInputNoted f) (outside : f.pendingEscape = []) (named : line ≠ [])
    {chunks : List JsString} (start : candidate <+: line)
    (echoed : candidate ++ chunks.flatten = line ++ carriageReturn :: lineFeed :: output) :
    ∃ rest : List JsString, (rest.flatten = output ∨ rest.flatten = lineFeed :: output) ∧
      processAll (awaitingEcho f line candidate) chunks = processAll f rest := by
  induction chunks generalizing candidate with
  | nil =>
    have short := start.length_le
    have long := congrArg length echoed
    simp only [flatten_nil, append_nil, length_append, length_cons] at long
    omega
  | cons chunk chunks ih =>
    rw [flatten_cons, ← append_assoc] at echoed
    have completed : ∀ more, stripSubmittedLineEcho (some line) candidate chunk = ⟨none, [], more⟩ →
        processAll (awaitingEcho f line candidate) (chunk :: chunks) = processAll f (more :: chunks) := by
      intro more stripped
      obtain ⟨text, filter⟩ := processServerChunk_echoed quiet outside stripped
      rw [processAll, processAll, text, filter]
    rcases append_eq_append_iff.mp echoed with ⟨left, whole, tail⟩ | ⟨more, cut, tail⟩
    · obtain ⟨text, filter⟩ := processServerChunk_awaiting quiet outside named ⟨left, whole.symm⟩
      obtain ⟨rest, ends, same⟩ := ih ⟨left, whole.symm⟩ echoed
      refine ⟨rest, ends, ?_⟩
      rw [processAll, text, filter, same, nil_append]
    · cases more with
      | nil =>
        rw [append_nil] at cut
        obtain ⟨text, filter⟩ := processServerChunk_awaiting quiet outside named ⟨[], by rw [cut, append_nil]⟩
        obtain ⟨rest, ends, same⟩ := ih ⟨[], by rw [cut, append_nil]⟩ echoed
        refine ⟨rest, ends, ?_⟩
        rw [processAll, text, filter, same, nil_append]
      | cons first more =>
        obtain ⟨rfl, later⟩ := cons.inj tail
        cases more with
        | nil =>
          exact ⟨[] :: chunks, .inr later.symm,
            completed [] (stripSubmittedLineEcho_return named cut)⟩
        | cons second more =>
          obtain ⟨rfl, last⟩ := cons.inj later
          exact ⟨more :: chunks, .inl last.symm,
            completed more (stripSubmittedLineEcho_lineFeed named cut)⟩

/-- **The echo of a submitted line is not scanned**: after a line was typed in any pieces and
submitted, and however the server's echo and the output behind it are cut into chunks, the filter does what
one that was told of no input does with the output alone, or with the line feed of the echo before it. -/
theorem echo_is_not_scanned (quiet : NoInputNoted f) (fresh : f.currentInputLineOverflowed = false)
    (outside : f.pendingEscape = []) {typed chunks : List JsString}
    (printable : ∀ data ∈ typed, ∀ char ∈ data, isPrintableInput char) (named : typed.flatten ≠ [])
    (short : typed.flatten.length ≤ MAX_PENDING_ECHO)
    (echoed : chunks.flatten = typed.flatten ++ carriageReturn :: lineFeed :: output) :
    ∃ rest : List JsString, (rest.flatten = output ∨ rest.flatten = lineFeed :: output) ∧
      processAll ((typed ++ [[carriageReturn]]).foldl noteUserInput f) chunks = processAll f rest := by
  have submitted : (typed ++ [[carriageReturn]]).foldl noteUserInput f = awaitingEcho f typed.flatten [] := by
    obtain ⟨pendingEcho, input, overflowed, submitted, before, active, escape, lines, lf⟩ := f
    obtain ⟨rfl, rfl, rfl, rfl, rfl⟩ := quiet
    obtain ⟨echo, noted⟩ := foldl_noteUserInput fresh [] printable short []
    rw [foldl_append]
    exact (congrArg (noteUserInput · [carriageReturn]) noted).trans (noteUserInput_submit fresh short echo)
  rw [submitted]
  exact processAll_awaitingEcho quiet outside named nil_prefix echoed

/-- `l`, with the echo cut behind the carriage return. -/
theorem echo_is_not_scanned_l :
    ∃ rest : List JsString, (rest.flatten = text "a" ∨ rest.flatten = lineFeed :: text "a") ∧
      processAll (([text "l"] ++ [[carriageReturn]]).foldl noteUserInput createTerminalOutputTriggerFilter)
        [text "l\r", text "\na"] = processAll createTerminalOutputTriggerFilter rest :=
  echo_is_not_scanned noInputNoted_create rfl rfl
    (forall_mem_singleton.mpr (forall_mem_singleton.mpr (by decide))) (cons_ne_nil _ _) (by decide) (by decide)

end Netcatty.OutputTrigger
