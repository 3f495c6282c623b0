import Netcatty.PtyStream

/-!
A job reads its stream.

Until the start marker's line is complete the job waits; it then collects the output until
the end marker's status has come, and resolves.
-/

namespace Netcatty.PtyExec

open List

/-! ## Lines of a cut text -/

theorem split_at {a b d x y : JsString} (whole : a ++ (b ++ d) = x ++ y)
    (short : a.length ≤ x.length) : ∃ q, x = a ++ q ∧ b ++ d = q ++ y := by
  rcases append_eq_append_iff.mp whole with ⟨q, left, right⟩ | ⟨q, left, right⟩
  · exact ⟨q, left, right⟩
  · have length := congrArg List.length left
    rw [length_append] at length
    have nothing : q = [] := eq_nil_of_length_eq_zero (by omega)
    subst nothing
    exact ⟨[], by simpa using left.symm, by simpa using right.symm⟩

/-- A text that is over or stands at the start of a line. -/
def AtLineStart (q : JsString) : Prop := q = [] ∨ q.getLast? = some lineFeed

theorem AtLineStart.cut {q : JsString} (start : AtLineStart q) :
    q = [] ∨ ∃ earlier, q = earlier ++ [lineFeed] := by
  rcases start with nothing | last
  · exact .inl nothing
  · exact .inr (getLast?_eq_some_iff.mp last)

theorem splitLines_from {q : JsString} (start : AtLineStart q) (s : JsString) :
    ∃ lines, (∀ line ∈ lines, line <:+: q) ∧ splitLines (q ++ s) = lines ++ splitLines s := by
  rcases start.cut with nothing | ⟨earlier, cut⟩
  · subst nothing
    exact ⟨[], by simp, rfl⟩
  · obtain ⟨lines, alone, _, both⟩ := splitLines_append earlier s
    refine ⟨lines, fun line mem => ?_, ?_⟩
    · apply infix_of_mem_splitLines
      rw [cut, alone]
      exact mem_append_left _ mem
    · rw [cut, append_assoc]
      exact both

theorem wholeLines_within {s line : JsString} (mem : line ∈ (wholeLines s).1) : line <:+: s := by
  unfold wholeLines at mem
  split at mem
  · exact infix_of_mem_splitLines mem
  · exact infix_of_mem_splitLines (dropLast_subset _ mem)

theorem splitLines_last (s : JsString) : (splitLines s).getLast?.getD [] <:+ s := by
  induction s with
  | nil => exact suffix_rfl
  | cons u rest ih =>
    obtain ⟨line, lines, cut, _, _, single⟩ := splitLines_spec rest
    have wider := suffix_cons u rest
    rcases splitLines_cases u rest with ⟨_, same⟩ | ⟨_, _, same⟩ | ⟨feed, both⟩
    · rw [same, cut, getLast?_cons_cons, ← cut]
      exact ih.trans wider
    · rw [same]
      exact ih.trans wider
    · rw [splitLines_unit feed both cut]
      rw [cut] at ih
      cases lines with
      | nil =>
        rw [single rfl]
        exact suffix_rfl
      | cons other lines =>
        rw [getLast?_cons_cons] at ih ⊢
        exact ih.trans wider

theorem wholeLines_rest (s : JsString) : (wholeLines s).2 <:+ s := by
  unfold wholeLines
  split
  · exact nil_suffix
  · exact splitLines_last s

section Lines

variable {options : JobOptions} {q : JsString}

/-- A part of the start marker at the end of the text is held back. -/
theorem wholeLines_partial (start : AtLineStart q) {part : JsString} (filled : part ≠ [])
    (within : part <+: startMarker options) :
    (∀ line ∈ (wholeLines (q ++ part)).1, line <:+: q) ∧ (wholeLines (q ++ part)).2 = part := by
  have feed : lineFeed ∉ part := fun mem => lineFeed_not_mem_startMarker (within.subset mem)
  have ret : carriageReturn ∉ part := fun mem => return_not_mem_startMarker (within.subset mem)
  obtain ⟨lines, infixes, cut⟩ := splitLines_from start part
  rw [splitLines_line feed] at cut
  obtain ⟨before, last, parts⟩ := (eq_nil_or_concat part).resolve_left filled
  rw [concat_eq_append] at parts
  have final : ¬ (q ++ part).getLast?.any isLineBreak := by
    rw [parts, ← append_assoc, getLast?_concat, Option.any_some]
    have mem : last ∈ part := by simp [parts]
    intro breaks
    simp only [isLineBreak, Bool.or_eq_true, decide_eq_true_eq] at breaks
    rcases breaks with same | same
    · exact ret (same ▸ mem)
    · exact feed (same ▸ mem)
  unfold wholeLines
  dsimp only
  rw [if_neg final, cut, dropLast_concat, getLast?_concat]
  exact ⟨infixes, rfl⟩

theorem startLine_mem (start : AtLineStart q) {lineBreak rest : JsString} (ends : IsBreak lineBreak) :
    startMarker options ∈ (wholeLines (q ++ (startMarker options ++ (lineBreak ++ rest)))).1 := by
  obtain ⟨lines, _, cut⟩ := splitLines_from start (startMarker options ++ (lineBreak ++ rest))
  rw [splitLines_broken rest lineFeed_not_mem_startMarker return_not_mem_startMarker ends] at cut
  unfold wholeLines
  dsimp only
  rw [cut]
  split
  · simp
  · rw [dropLast_append_of_ne_nil (cons_ne_nil _ _),
      dropLast_cons_of_ne_nil (splitLines_ne_nil rest)]
    simp

theorem halfLine_mem (start : AtLineStart q) : startMarker options ++ [carriageReturn] ∈
      (wholeLines (q ++ (startMarker options ++ [carriageReturn]))).1 := by
  have feed : lineFeed ∉ startMarker options ++ [carriageReturn] := by
    intro mem
    rcases mem_append.mp mem with mem | mem
    · exact lineFeed_not_mem_startMarker mem
    · exact absurd mem (by decide)
  obtain ⟨lines, _, cut⟩ := splitLines_from start (startMarker options ++ [carriageReturn])
  rw [splitLines_line feed] at cut
  unfold wholeLines
  dsimp only
  rw [if_pos, cut]
  · simp
  · rw [← append_assoc, getLast?_concat]
    rfl

end Lines

/-! ## The phases of a job -/

section Phases

variable (shell : ShellText) (options : JobOptions) (stream : CommandStream)

/-- The start marker's line has not come yet. -/
structure Waiting (job : PtyJob) (read : JsString) : Prop where
  result : job.result = none
  probing : job.probingShell = false
  foundStart : job.foundStart = false
  pendingEnd : job.pendingEnd = none
  output : job.output = []
  preStart : job.preStartOutput = keepLast captureLimitChars read
  within : read <+: stream.noise ++ startMarker options
  pending : (read <+: stream.noise ∧ job.pendingStart <:+ read) ∨
    ∃ part, part ≠ [] ∧ read = stream.noise ++ part ∧ job.pendingStart = part

/-- The output is collected from behind `head`; `lead` is what it has in front of the
command's output. -/
structure Collecting (job : PtyJob) (head lead : JsString) : Prop where
  result : job.result = none
  probing : job.probingShell = false
  foundStart : job.foundStart = true
  pendingEnd : job.pendingEnd = none
  front : stream.noise ++ startMarker options <+: head
  whole : head ++ lead = stream.noise ++ (startMarker options ++ stream.startBreak)
  quiet : ¬ endPattern options <:+: lead ++ stream.output
  same : finalStdout options (lead ++ stream.output) = finalStdout options stream.output

def Resolved (job : PtyJob) : Prop :=
  job.result = some ⟨stream.exitCode == 0, finalStdout options stream.output, stream.exitCode⟩

def Reads (job : PtyJob) (read : JsString) : Prop :=
  Waiting options stream job read ∨
    (∃ head lead, Collecting options stream job head lead ∧ read = head ++ job.output ∧
      job.output <+: lead ++ (stream.output ++ endPattern options)) ∨
    Resolved options stream job

end Phases

section Steps

variable {shell : ShellText} {options : JobOptions} {stream : CommandStream}

theorem all_eq (head lead : JsString)
    (whole : head ++ lead = stream.noise ++ (startMarker options ++ stream.startBreak)) :
    stream.all options = head ++ ((lead ++ (stream.output ++ endPattern options)) ++
      (decimal stream.exitCode ++ (stream.endBreak ++ stream.further))) := by
  simp only [CommandStream.all, CommandStream.beforeStatus, ← append_assoc] at whole ⊢
  rw [whole]

theorem length_beforeStatus (options : JobOptions) (head lead : JsString)
    (whole : head ++ lead = stream.noise ++ (startMarker options ++ stream.startBreak)) :
    (stream.beforeStatus options).length =
      head.length + (lead ++ (stream.output ++ endPattern options)).length := by
  have length := congrArg List.length whole
  simp only [CommandStream.beforeStatus, length_append] at length ⊢
  omega

variable {job : PtyJob}

theorem checkEnd_none (pendingEnd : job.pendingEnd = none)
    (absent : findEndMarker job.output options.marker.marker true = none) :
    checkEnd shell options job = job := by
  unfold checkEnd
  simp only [pendingEnd, absent]

theorem checkEnd_some (noWait : options.waitForReturnedPrompt = false)
    (result : job.result = none) (pendingEnd : job.pendingEnd = none) {found : EndMarker}
    (marker : findEndMarker job.output options.marker.marker true = some found) :
    (checkEnd shell options job).result =
      some ⟨found.exitCode == 0, finalStdout options (job.output.take found.endIdx),
        found.exitCode⟩ := by
  unfold checkEnd
  simp only [pendingEnd, marker, noWait, Bool.not_false, Bool.true_or, if_true, finish, result,
    Option.isSome_none, Bool.false_eq_true, if_false]

section

variable (formed : stream.WellFormed options)
include formed

theorem digits_stop {rest : JsString} (within : rest <+: stream.endBreak ++ stream.further) :
    ∀ u, rest.head? = some u → isDigit u = false := by
  intro u first
  obtain ⟨more, cut⟩ := head?_eq_some_iff.mp first
  obtain ⟨unit, later, same, kind⟩ := isBreak_cons formed.endBreak
  rw [cut, same, cons_append, cons_prefix_cons] at within
  rcases kind with feed | ret
  · rw [within.1, feed]
    decide
  · rw [within.1, ret]
    decide

/-- Once more of the output is collected, the end marker is there as a whole or not at all. -/
theorem Collecting.checkEnd (plain : stream.Plain options)
    {job : PtyJob} {head lead : JsString} (collecting : Collecting options stream job head lead)
    (within : head ++ job.output <+: stream.all options)
    (status : (head ++ job.output).length ≤ (stream.beforeStatus options).length ∨
      (stream.beforeStatus options ++ decimal stream.exitCode).length ≤
        (head ++ job.output).length) :
    Reads options stream (checkEnd shell options job) (head ++ job.output) := by
  have length := length_beforeStatus options head lead collecting.whole
  rw [all_eq head lead collecting.whole] at within
  obtain ⟨after, cut⟩ := within
  rw [append_assoc, append_cancel_left_eq] at cut
  rcases status with few | many
  · have part : job.output <+: lead ++ (stream.output ++ endPattern options) := by
      apply prefix_of_prefix_length_le ⟨after, cut⟩ (prefix_append _ _)
      rw [length_append] at few
      omega
    have absent : findEndMarker job.output options.marker.marker true = none := by
      apply findEndMarker_before collecting.quiet
      rwa [append_assoc]
    rw [checkEnd_none collecting.pendingEnd absent]
    exact .inr (.inl ⟨head, lead, collecting, rfl, part⟩)
  · have longer : ((lead ++ (stream.output ++ endPattern options)) ++
        decimal stream.exitCode).length ≤ job.output.length := by
      simp only [length_append] at length many ⊢
      omega
    rw [← append_assoc] at cut
    obtain ⟨rest, whole, tail⟩ := split_at cut.symm longer
    have stops := digits_stop formed ⟨after, tail.symm⟩
    have found := findEndMarker_status (n := stream.exitCode) collecting.quiet stops
    rw [append_assoc, ← append_assoc lead, append_assoc _ (endPattern options)] at whole
    rw [← whole] at found
    refine .inr (.inr ?_)
    rw [Resolved, checkEnd_some plain.noWait collecting.result collecting.pendingEnd found,
      whole, ← collecting.same]
    rw [take_left]

/-! ## Before the start marker's line -/

omit formed in
theorem AtLineStart.suffix {q noise : JsString} (start : AtLineStart noise) (suffix : q <:+ noise) :
    AtLineStart q := by
  obtain ⟨before, cut⟩ := suffix
  rcases q.eq_nil_or_concat with nothing | ⟨earlier, last, some_⟩
  · exact .inl nothing
  · right
    rw [concat_eq_append] at some_
    rcases start with empty | feed
    · rw [empty, some_] at cut
      simp at cut
    · rw [← cut, some_, ← append_assoc, getLast?_concat] at feed
      rw [some_, getLast?_concat, feed]

omit formed in
theorem length_part {part : JsString} (within : part <+: startMarker options) :
    part.length ≤ options.marker.marker.length + 2 := by
  rw [← length_startMarker]
  exact within.length_le

theorem Waiting.behindNoise {job : PtyJob}
    {read data tail : JsString} (waiting : Waiting options stream job read)
    (goesOn : read ++ data = stream.noise ++ tail) :
    (∃ q, AtLineStart q ∧ q <:+ stream.noise ∧ job.pendingStart ++ data = q ++ tail) ∧
      ∃ x, x <:+ stream.noise ∧ job.preStartOutput ++ data = x ++ tail := by
  rcases waiting.pending with ⟨within, kept⟩ | ⟨part, _, whole, kept⟩
  · obtain ⟨more, cut⟩ := within
    rw [← cut, append_assoc, append_cancel_left_eq] at goesOn
    have suffix : ∀ s, s <:+ read → s ++ more <:+ stream.noise := by
      rintro s ⟨before, same⟩
      exact ⟨before, by rw [← cut, ← same, append_assoc]⟩
    refine ⟨⟨job.pendingStart ++ more, ?_, suffix _ kept, ?_⟩, keepLast captureLimitChars read ++ more,
      suffix _ (keepLast_suffix _ _), ?_⟩
    · exact AtLineStart.suffix formed.noiseEnds (suffix _ kept)
    · rw [goesOn, append_assoc]
    · rw [waiting.preStart, goesOn, append_assoc]
  · have within := waiting.within
    rw [whole, prefix_append_right_inj] at within
    rw [whole, append_assoc, append_cancel_left_eq] at goesOn
    have short : part.length ≤ captureLimitChars := by
      have length := length_part within
      have bound := length_marker options
      have limit : 77 ≤ captureLimitChars := by decide
      omega
    obtain ⟨x, suffix, both⟩ := keepLast_append captureLimitChars stream.noise part short
    refine ⟨⟨[], .inl rfl, nil_suffix, ?_⟩, x, suffix, ?_⟩
    · rw [kept, goesOn, nil_append]
    · rw [waiting.preStart, whole, both, append_assoc, goesOn]

theorem noise_quiet {x : JsString} (suffix : x <:+ stream.noise) : ¬ options.marker.marker <:+: x :=
  fun occurs => formed.noise (occurs.trans suffix.isInfix)

theorem endPattern_absent : ¬ endPattern options <:+: stream.noise ++ startMarker options := by
  rintro ⟨before, after, whole⟩
  rw [append_assoc] at whole
  have occurs : endPattern options <+: endPattern options ++ after := prefix_append _ _
  rcases append_eq_append_iff.mp whole with ⟨more, noise, tail⟩ | ⟨more, _, tail⟩
  · have length := congrArg List.length tail
    simp only [length_append] at length
    rw [tail, ← append_nil (startMarker options), endPattern_eq] at occurs
    have absent : colon ∉ startMarker options := not_mem_startMarker (by decide) (by decide)
    have inside := prefix_before occurs absent (by
      rw [endPattern_eq, length_append, length_singleton] at length
      omega)
    rw [← endPattern_eq] at inside
    apply formed.noise
    apply marker_infix_endPattern.trans
    rw [noise]
    exact inside.isInfix.trans (suffix_append before more).isInfix
  · have mem : colon ∈ startMarker options := by
      rw [tail, endPattern_eq]
      simp
    exact not_mem_startMarker (by decide) (by decide) mem

theorem findEndMarker_noise {s : JsString}
    (within : s <:+: stream.noise ++ startMarker options) (allowInline : Bool) :
    findEndMarker s options.marker.marker allowInline = none := by
  apply findEndMarkerFrom_none
  intro t suffix starts
  exact absurd ((starts.isInfix.trans suffix.isInfix).trans within) (endPattern_absent formed)

omit formed in
theorem readBeforeStart_wait {data : JsString}
    (quiet : ∀ line ∈ (wholeLines (job.pendingStart ++ data)).1, isStartLine options line = false)
    (absent : findEndMarker (job.preStartOutput ++ data) options.marker.marker false = none) :
    readBeforeStart shell options job data =
      { job with
        preStartOutput := keepLast captureLimitChars (job.preStartOutput ++ data),
        pendingStart := keepLast (options.marker.marker.length + 256)
          (wholeLines (job.pendingStart ++ data)).2 } := by
  have none_ : ¬ (wholeLines (job.pendingStart ++ data)).1.any (isStartLine options) := by
    rw [List.any_eq_true]
    rintro ⟨line, mem, start⟩
    rw [quiet line mem] at start
    exact Bool.noConfusion start
  unfold readBeforeStart
  simp only [none_, absent, Bool.false_eq_true, if_false]

theorem Waiting.wait (plain : stream.Plain options)
    {job : PtyJob} {read data : JsString} (waiting : Waiting options stream job read)
    (within : read ++ data <+: stream.noise ++ startMarker options) :
    Waiting options stream (readBeforeStart shell options job data) (read ++ data) := by
  have kept : job.preStartOutput ++ data <:+ read ++ data := by
    obtain ⟨before, cut⟩ := keepLast_suffix captureLimitChars read
    exact ⟨before, by rw [waiting.preStart, ← append_assoc, cut]⟩
  have absent := findEndMarker_noise formed (kept.isInfix.trans within.isInfix) false
  have lines : (∀ line ∈ (wholeLines (job.pendingStart ++ data)).1, line <:+: stream.noise) ∧
      ((read ++ data <+: stream.noise ∧
          (wholeLines (job.pendingStart ++ data)).2 <:+ read ++ data) ∨
        ∃ part, part ≠ [] ∧ read ++ data = stream.noise ++ part ∧
          (wholeLines (job.pendingStart ++ data)).2 = part) := by
    by_cases inside : (read ++ data).length ≤ stream.noise.length
    · have noise := prefix_of_prefix_length_le within (prefix_append _ _) inside
      have pending : job.pendingStart ++ data <:+ read ++ data := by
        rcases waiting.pending with ⟨_, suffix⟩ | ⟨part, filled, whole, _⟩
        · obtain ⟨before, cut⟩ := suffix
          exact ⟨before, by rw [← append_assoc, cut]⟩
        · have positive := length_pos_of_ne_nil filled
          rw [whole] at inside
          simp only [length_append] at inside
          omega
      refine ⟨fun line mem => ?_, .inl ⟨noise, (wholeLines_rest _).trans pending⟩⟩
      exact ((wholeLines_within mem).trans pending.isInfix).trans noise.isInfix
    · obtain ⟨after, cut⟩ := within
      have goesOn : stream.noise ++ (startMarker options ++ []) = read ++ data ++ after := by
        rw [append_nil, cut]
      obtain ⟨part, whole, tail⟩ := split_at goesOn (by omega)
      have filled : part ≠ [] := by
        intro nothing
        rw [whole, nothing, append_nil] at inside
        exact inside le_rfl
      rw [append_nil] at tail
      obtain ⟨⟨q, start, suffix, pending⟩, _⟩ := waiting.behindNoise formed whole
      have held := wholeLines_partial start filled ⟨after, tail.symm⟩
      rw [pending]
      exact ⟨fun line mem => (held.1 line mem).trans suffix.isInfix,
        .inr ⟨part, filled, whole, held.2⟩⟩
  rw [readBeforeStart_wait (fun line mem => plain.noise line (lines.1 line mem)) absent]
  refine ⟨waiting.result, waiting.probing, waiting.foundStart, waiting.pendingEnd, waiting.output,
    ?_, within, ?_⟩
  · dsimp only
    rw [waiting.preStart, keepLast_keepLast]
  · dsimp only
    rcases lines.2 with ⟨noise, suffix⟩ | ⟨part, filled, whole, same⟩
    · exact .inl ⟨noise, (keepLast_suffix _ _).trans suffix⟩
    · refine .inr ⟨part, filled, whole, ?_⟩
      rw [whole, prefix_append_right_inj] at within
      have length := length_part within
      rw [same, keepLast_of_le]
      omega

end

/-! ## The start marker's line has come -/

/-- The job once it has found the start marker's line. -/
def started (job : PtyJob) (data : JsString) (initialOutput : Option JsString) : PtyJob :=
  let job := { job with
    preStartOutput := job.preStartOutput ++ data,
    foundStart := true,
    pendingStart := (wholeLines (job.pendingStart ++ data)).2 }
  let job := match initialOutput with
    | none => job
    | some initialOutput => appendToOutput { job with output := [] } initialOutput
  { job with preStartOutput := [] }

theorem readBeforeStart_start {data line : JsString}
    (mem : line ∈ (wholeLines (job.pendingStart ++ data)).1) (start : isStartLine options line) :
    readBeforeStart shell options job data =
      checkEnd shell options
        (started job data (outputBehindStart options (job.preStartOutput ++ data))) := by
  have found : (wholeLines (job.pendingStart ++ data)).1.any (isStartLine options) = true :=
    List.any_eq_true.mpr ⟨line, mem, start⟩
  unfold readBeforeStart started
  cases behind : outputBehindStart options (job.preStartOutput ++ data) with
  | none => simp only [found, if_true, behind]
  | some initialOutput => simp only [found, if_true, behind]

theorem started_some (data initialOutput : JsString)
    (fits : initialOutput.length ≤ captureLimitChars) :
    started job data (some initialOutput) =
      { job with
        foundStart := true, preStartOutput := [], output := initialOutput,
        pendingStart := (wholeLines (job.pendingStart ++ data)).2 } := by
  unfold started
  dsimp only
  unfold appendToOutput
  split
  · rename_i nothing
    rw [nothing]
  · rename_i filled
    rw [appendBoundedOutput_eq fits filled]
    rfl

section

variable (formed : stream.WellFormed options)
include formed

theorem endPattern_absent_output : ¬ endPattern options <:+: stream.output :=
  fun occurs => formed.output (marker_infix_endPattern.trans occurs)

theorem endPattern_absent_cons : ¬ endPattern options <:+: lineFeed :: stream.output := by
  intro occurs
  rcases infix_cons_iff.mp occurs with starts | later
  · have mem : lineFeed ∈ endPattern options := by
      have filled : endPattern options ≠ [] := endPattern_ne_nil
      obtain ⟨u, rest, cut⟩ := exists_cons_of_ne_nil filled
      rw [cut, cons_prefix_cons] at starts
      rw [cut, starts.1]
      exact mem_cons_self
    rw [endPattern, mem_append] at mem
    rcases mem with mem | mem
    · exact not_mem_marker (by decide) mem
    · exact absurd mem (by decide)
  · exact endPattern_absent_output formed later

theorem Waiting.start (plain : stream.Plain options)
    {job : PtyJob} {read data rest : JsString} (waiting : Waiting options stream job read)
    (goesOn : read ++ data = stream.noise ++ (startMarker options ++ (stream.startBreak ++ rest)))
    (within : rest <+: stream.output ++ (endPattern options ++
      (decimal stream.exitCode ++ (stream.endBreak ++ stream.further))))
    (fits : rest.length ≤ captureLimitChars) :
    ∃ next, readBeforeStart shell options job data = PtyExec.checkEnd shell options next ∧
      next.output = rest ∧
      Collecting options stream next
        (stream.noise ++ (startMarker options ++ stream.startBreak)) [] := by
  obtain ⟨⟨q, start, _, pending⟩, x, suffix, kept⟩ := waiting.behindNoise formed goesOn
  have mem : startMarker options ∈ (wholeLines (job.pendingStart ++ data)).1 := by
    rw [pending]
    exact startLine_mem start formed.startBreak
  have behind : outputBehindStart options (job.preStartOutput ++ data) = some rest := by
    rw [kept]
    exact outputBehindStart_line (noise_quiet formed suffix) formed.startBreak
      (not_startMarker_behind formed plain within)
  refine ⟨_, readBeforeStart_start mem isStartLine_startMarker, ?_, ?_⟩
  · rw [behind, started_some data rest fits]
  · rw [behind, started_some data rest fits]
    refine ⟨waiting.result, waiting.probing, rfl, waiting.pendingEnd, ?_, ?_, ?_, rfl⟩
    · rw [prefix_append_right_inj]
      exact prefix_append _ _
    · rw [append_nil]
    · rw [nil_append]
      exact endPattern_absent_output formed

theorem Waiting.half {job : PtyJob} {read data : JsString}
    (waiting : Waiting options stream job read)
    (goesOn : read ++ data = stream.noise ++ (startMarker options ++ [carriageReturn]))
    (both : stream.startBreak = [carriageReturn, lineFeed])
    (same : finalStdout options (lineFeed :: stream.output) = finalStdout options stream.output) :
    ∃ next, readBeforeStart shell options job data = PtyExec.checkEnd shell options next ∧
      next.output = [] ∧ Collecting options stream next (read ++ data) [lineFeed] := by
  obtain ⟨⟨q, start, _, pending⟩, x, suffix, kept⟩ := waiting.behindNoise formed goesOn
  have mem : startMarker options ++ [carriageReturn] ∈
      (wholeLines (job.pendingStart ++ data)).1 := by
    rw [pending]
    exact halfLine_mem start
  have behind : outputBehindStart options (job.preStartOutput ++ data) = none := by
    rw [kept]
    exact outputBehindStart_half (noise_quiet formed suffix)
  refine ⟨_, readBeforeStart_start mem isStartLine_return, ?_, ?_⟩
  · rw [behind]
    exact waiting.output
  · rw [behind]
    refine ⟨waiting.result, waiting.probing, rfl, waiting.pendingEnd, ?_, ?_, ?_, same⟩
    · rw [goesOn, ← append_assoc]
      exact prefix_append _ _
    · rw [goesOn, both]
      simp
    · exact endPattern_absent_cons formed

end

/-! ## One event -/

theorem onText_waiting {read data : JsString}
    (waiting : Waiting options stream job read) (filled : data ≠ []) :
    onText shell options job data = readBeforeStart shell options job data := by
  unfold onText
  simp only [waiting.result, waiting.probing, waiting.foundStart, filled, Option.isSome_none,
    Bool.false_eq_true, or_self, if_false, Bool.not_false, if_true]

theorem onText_collecting {data head lead : JsString}
    (collecting : Collecting options stream job head lead) (filled : data ≠ []) :
    onText shell options job data = checkEnd shell options (appendToOutput job data) := by
  unfold onText
  simp only [collecting.result, collecting.probing, collecting.foundStart, filled,
    Option.isSome_none, Bool.false_eq_true, or_self, if_false, Bool.not_true]

theorem onText_resolved (resolved : Resolved options stream job) (data : JsString) :
    onText shell options job data = job := by
  unfold onText
  rw [if_pos (.inl (by rw [resolved]; rfl))]

/-- What the cuts of the stream promise for one event. -/
structure CutHere (stream : CommandStream) (options : JobOptions) (read data : JsString) : Prop where
  status : (read ++ data).length ≤ (stream.beforeStatus options).length ∨
    (stream.beforeStatus options ++ decimal stream.exitCode).length ≤ (read ++ data).length
  kept : read.length ≤ (stream.beforeStatus options).length →
    (read ++ data).length ≤ (stream.noise ++ startMarker options).length + captureLimitChars
  lineBreak : read ++ data = stream.noise ++ (startMarker options ++ [carriageReturn]) →
    finalStdout options (lineFeed :: stream.output) = finalStdout options stream.output

theorem behind_startMarker (formed : stream.WellFormed options) {r : JsString}
    (within : r <+: stream.all options) (long : (stream.noise ++ startMarker options).length < r.length) :
    (∃ rest, r = stream.noise ++ (startMarker options ++ (stream.startBreak ++ rest)) ∧
      rest <+: stream.output ++ (endPattern options ++
        (decimal stream.exitCode ++ (stream.endBreak ++ stream.further)))) ∨
    (r = stream.noise ++ (startMarker options ++ [carriageReturn]) ∧
      stream.startBreak = [carriageReturn, lineFeed]) := by
  obtain ⟨after, cut⟩ := within
  have whole : stream.all options = (stream.noise ++ startMarker options) ++ (stream.startBreak ++
      (stream.output ++ (endPattern options ++
        (decimal stream.exitCode ++ (stream.endBreak ++ stream.further))))) := by
    simp only [CommandStream.all, CommandStream.beforeStatus, append_assoc]
  rw [whole] at cut
  obtain ⟨tail, parts, goesOn⟩ := split_at cut.symm long.le
  simp only [parts, length_append] at long
  by_cases broken : stream.startBreak.length ≤ tail.length
  · obtain ⟨rest, same, more⟩ := split_at goesOn broken
    refine .inl ⟨rest, by rw [parts, same, append_assoc], after, more.symm⟩
  · rcases formed.startBreak with one | two
    · rw [one, length_singleton] at broken
      omega
    · refine .inr ⟨?_, two⟩
      rw [two, length_cons, length_singleton] at broken
      have single : tail.length = 1 := by omega
      obtain ⟨unit, only⟩ := length_eq_one_iff.mp single
      simp only [two, only, cons_append, nil_append, List.cons.injEq] at goesOn
      rw [parts, only, ← goesOn.1, append_assoc]

/-- One event leaves the job where it has to be. -/
theorem Reads.onText (formed : stream.WellFormed options) (plain : stream.Plain options)
    {job : PtyJob} {read data : JsString} (reads : Reads options stream job read)
    (within : read ++ data <+: stream.all options) (here : CutHere stream options read data) :
    Reads options stream (onText shell options job data) (read ++ data) := by
  by_cases filled : data = []
  · have same : PtyExec.onText shell options job data = job := by
      unfold PtyExec.onText
      rw [if_pos (.inr filled)]
    rw [same, filled, append_nil]
    exact reads
  rcases reads with waiting | ⟨head, lead, collecting, whole, part⟩ | resolved
  · rw [onText_waiting waiting filled]
    by_cases long : (stream.noise ++ startMarker options).length < (read ++ data).length
    · have few := waiting.within.length_le
      have before : (stream.noise ++ startMarker options).length ≤
          (stream.beforeStatus options).length := by
        simp only [CommandStream.beforeStatus, length_append]
        omega
      have kept := here.kept (by omega)
      rcases behind_startMarker formed within long with ⟨rest, goesOn, tail⟩ | ⟨goesOn, both⟩
      · have fits : rest.length ≤ captureLimitChars := by
          rw [goesOn] at kept
          simp only [length_append] at kept
          omega
        obtain ⟨next, same, output, collecting⟩ := waiting.start formed plain goesOn tail fits
        have assembled : read ++ data =
            (stream.noise ++ (startMarker options ++ stream.startBreak)) ++ next.output := by
          rw [output, goesOn]
          simp only [append_assoc]
        have status := here.status
        rw [same, assembled]
        rw [assembled] at within status
        exact collecting.checkEnd formed plain within status
      · obtain ⟨next, same, output, collecting⟩ :=
          waiting.half formed goesOn both (here.lineBreak goesOn)
        have assembled : read ++ data = (read ++ data) ++ next.output := by
          rw [output, append_nil]
        have status := here.status
        rw [same, assembled]
        rw [assembled] at within status
        exact collecting.checkEnd formed plain within status
    · left
      apply waiting.wait formed plain
      apply prefix_of_prefix_length_le within _ (by omega)
      simp only [CommandStream.all, CommandStream.beforeStatus, ← append_assoc]
      exact ((((prefix_append _ _).trans (prefix_append _ _)).trans
        (prefix_append _ _)).trans (prefix_append _ _)).trans
          ((prefix_append _ _).trans (prefix_append _ _))
  · rw [onText_collecting collecting filled]
    have length := length_beforeStatus options head lead collecting.whole
    have front := collecting.front.length_le
    have bound := part.length_le
    have kept := here.kept (by rw [whole, length_append]; omega)
    have appended : appendToOutput job data = { job with output := job.output ++ data } := by
      unfold appendToOutput
      rw [if_neg filled, appendBoundedOutput_eq _ filled]
      simp only [whole, length_append] at kept front ⊢
      omega
    have next : Collecting options stream { job with output := job.output ++ data } head lead :=
      ⟨collecting.result, collecting.probing, collecting.foundStart, collecting.pendingEnd,
        collecting.front, collecting.whole, collecting.quiet, collecting.same⟩
    have assembled : read ++ data = head ++ (job.output ++ data) := by
      rw [whole, append_assoc]
    have status := here.status
    rw [appended, assembled]
    rw [assembled] at within status
    exact next.checkEnd formed plain within status
  · rw [onText_resolved resolved]
    exact .inr (.inr resolved)

/-! ## All events -/

theorem reads_start (plain : stream.Plain options) :
    Reads options stream (startPtyJob options) [] :=
  .inl ⟨rfl, plain.noProbe, rfl, rfl, rfl, rfl, List.nil_prefix,
    .inl ⟨List.nil_prefix, suffix_rfl⟩⟩

theorem CommandStream.CutsWell.here {events : List JsString} (cuts : stream.CutsWell options events)
    {reached : List JsString} {data : JsString} (within : reached ++ [data] <+: events) :
    CutHere stream options reached.flatten data := by
  have joined : (reached ++ [data]).flatten = reached.flatten ++ data := by
    rw [flatten_append, flatten_singleton]
  refine ⟨?_, ?_, ?_⟩
  · rw [← joined]
    exact cuts.status _ within
  · rw [← joined]
    exact cuts.kept _ _ within
  · rw [← joined]
    exact cuts.lineBreak _ within

theorem reads_foldl (formed : stream.WellFormed options) (plain : stream.Plain options)
    {events : List JsString} (whole : events.flatten <+: stream.all options)
    (cuts : stream.CutsWell options events) :
    ∀ reached, reached <+: events →
      Reads options stream (reached.foldl (onText shell options) (startPtyJob options))
        reached.flatten := by
  intro reached
  induction reached using List.reverseRecOn with
  | nil => exact fun _ => reads_start plain
  | append_singleton reached data ih =>
    intro within
    have joined : (reached ++ [data]).flatten = reached.flatten ++ data := by
      rw [flatten_append, flatten_singleton]
    obtain ⟨later, cut⟩ := within
    have part : reached.flatten ++ data <+: stream.all options := by
      refine List.IsPrefix.trans ⟨later.flatten, ?_⟩ whole
      rw [← joined, ← flatten_append, cut]
    rw [foldl_concat, joined]
    exact (ih ((prefix_append _ _).trans ⟨later, cut⟩)).onText formed plain part
      (cuts.here ⟨later, cut⟩)

theorem Reads.resolved (reads : Reads options stream job (stream.all options)) :
    Resolved options stream job := by
  have digits := length_pos_of_ne_nil (decimal_ne_nil stream.exitCode)
  have length : (stream.all options).length = (stream.beforeStatus options).length +
      (decimal stream.exitCode ++ (stream.endBreak ++ stream.further)).length :=
    length_append
  rw [length_append] at length
  rcases reads with waiting | ⟨head, lead, collecting, whole, part⟩ | resolved
  · have few := waiting.within.length_le
    simp only [CommandStream.beforeStatus, length_append] at length few
    omega
  · have before := length_beforeStatus options head lead collecting.whole
    have few := part.length_le
    rw [whole, length_append] at length
    omega
  · exact resolved

/-- The job resolves with the command's status and output. -/
theorem job_resolves_with_status_and_output (events : List (List UInt8))
    (formed : stream.WellFormed options) (plain : stream.Plain options)
    (whole : (decodeEvents .start events).flatten = stream.all options)
    (cuts : stream.CutsWell options (decodeEvents .start events)) :
    (runJob shell options events).result =
      some ⟨stream.exitCode == 0, finalStdout options stream.output, stream.exitCode⟩ := by
  have reads : Reads options stream (runJob shell options events) _ :=
    reads_foldl formed plain ⟨[], by rw [append_nil, whole]⟩ cuts _ prefix_rfl
  rw [whole] at reads
  exact reads.resolved

end Steps

/-! ## A run -/

def sampleShell : ShellText := ⟨fun _ => [], fun _ _ => false⟩

def sampleOptions : JobOptions where
  marker := ⟨text "m3", text "x7", List.all_eq_true.mp (by decide), by decide⟩
  stripMarkers := true
  expectedPrompt := []
  normalizeFinalOutput := true
  waitForReturnedPrompt := false
  usesLiveShellProbe := false

def sampleStream : CommandStream where
  noise := text "$ \n"
  startBreak := text "\r\n"
  output := text "ok\r\n"
  exitCode := 130
  endBreak := text "\n"
  further := text "$ "

def bytesOf (s : String) : List UInt8 := s.toList.map fun c => c.toNat.toUInt8

/-- The start marker and its line break are cut. -/
def sampleEvents : List (List UInt8) :=
  [bytesOf "$ \n__NCMCP_m3_", bytesOf "x7___S\r", bytesOf "\nok\r\n__NCMCP_m3_x7___E:",
    bytesOf "130\n$ "]

/-- The status is cut behind its first digit. -/
def cutEvents : List (List UInt8) :=
  [bytesOf "$ \n__NCMCP_m3_x7___S\r\nok\r\n__NCMCP_m3_x7___E:1", bytesOf "30\n$ "]

theorem sampleStream_wellFormed : sampleStream.WellFormed sampleOptions :=
  ⟨by decide +kernel, .inr (by decide), .inr (by decide), by decide +kernel, by decide +kernel,
    .inl (by decide)⟩

theorem sampleStream_plain : sampleStream.Plain sampleOptions := by
  have lines : sampleStream.noise.tails.all (fun t => t.inits.all fun line =>
      !isStartLine sampleOptions line) = true := by decide +kernel
  refine ⟨fun line occurs => ?_, by decide +kernel, rfl, rfl⟩
  obtain ⟨t, starts, suffix⟩ := infix_iff_prefix_suffix.mp occurs
  have tail := List.all_eq_true.mp lines t ((mem_tails _ _).mpr suffix)
  exact (Bool.not_eq_true' _).mp (List.all_eq_true.mp tail line ((mem_inits _ _).mpr starts))

theorem sampleStream_cutsWell :
    sampleStream.CutsWell sampleOptions (decodeEvents .start sampleEvents) := by
  have status : (decodeEvents .start sampleEvents).inits.all (fun reached =>
      reached.flatten.length ≤ (sampleStream.beforeStatus sampleOptions).length ||
        (sampleStream.beforeStatus sampleOptions ++ decimal sampleStream.exitCode).length ≤
          reached.flatten.length) = true := by decide +kernel
  have kept : (decodeEvents .start sampleEvents).inits.all (fun reached =>
      reached.flatten.length ≤
        (sampleStream.noise ++ startMarker sampleOptions).length + captureLimitChars) = true := by
    decide +kernel
  refine ⟨fun reached within => ?_, fun reached event within _ => ?_, fun _ _ _ => by decide +kernel⟩
  · have held := List.all_eq_true.mp status reached ((mem_inits _ _).mpr within)
    simpa only [Bool.or_eq_true, decide_eq_true_eq] using held
  · exact of_decide_eq_true (List.all_eq_true.mp kept _ ((mem_inits _ _).mpr within))

theorem job_resolves_with_status_and_output_sample :
    (runJob sampleShell sampleOptions sampleEvents).result =
      some ⟨false, finalStdout sampleOptions (text "ok\r\n"), 130⟩ :=
  job_resolves_with_status_and_output sampleEvents sampleStream_wellFormed sampleStream_plain
    (by decide +kernel) sampleStream_cutsWell

/-- A status that is cut is taken for its first digits. -/
theorem cut_status_is_truncated :
    sampleStream.WellFormed sampleOptions ∧ sampleStream.Plain sampleOptions ∧
      (decodeEvents .start cutEvents).flatten = sampleStream.all sampleOptions ∧
      sampleStream.exitCode = 130 ∧
      (runJob sampleShell sampleOptions cutEvents).result = some ⟨false, text "ok", 1⟩ :=
  ⟨sampleStream_wellFormed, sampleStream_plain, by decide +kernel, rfl, by decide +kernel⟩

end Netcatty.PtyExec
