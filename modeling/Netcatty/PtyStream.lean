import Netcatty.PtyJob
import Netcatty.PtyMarkers

/-!
What the terminal sends while a command runs, and how a job reads it.

The stream has noise, the start marker's line, the command's output, the end marker with
the exit status, and further text.  Wherever the data events cut it, the job resolves with
the status and the output, as long as no event ends inside the status's digits.
-/

namespace Netcatty.PtyExec

open List

def upperS : Fin 65536 := ⟨83, by decide⟩
def colon : Fin 65536 := ⟨58, by decide⟩

/-- `marker + "_E:"`. -/
def endPattern (options : JobOptions) : JsString := options.marker.marker ++ text "_E:"

/-- The characters of a job's marker. -/
def isMarkerUnit (u : Fin 65536) : Bool :=
  isBase36 u || [0x43, 0x4d, 0x4e, 0x50, 0x5f].contains u.val

theorem mem_marker {options : JobOptions} {u : Fin 65536} (mem : u ∈ options.marker.marker) :
    isMarkerUnit u := by
  have word := options.marker.word
  simp only [JobMarker.marker, mem_append] at mem word
  have fixed : ∀ u, u ∈ text "__NCMCP_" ∨ u ∈ text "_" ∨ u ∈ text "__" → isMarkerUnit u = true := by
    have one : (text "__NCMCP_").all isMarkerUnit = true := by decide
    have two : (text "_").all isMarkerUnit = true := by decide
    have three : (text "__").all isMarkerUnit = true := by decide
    rintro u (mem | mem | mem)
    · exact List.all_eq_true.mp one u mem
    · exact List.all_eq_true.mp two u mem
    · exact List.all_eq_true.mp three u mem
  rcases mem with (((mem | mem) | mem) | mem) | mem
  · exact fixed u (.inl mem)
  · simp [isMarkerUnit, word u (.inl mem)]
  · exact fixed u (.inr (.inl mem))
  · simp [isMarkerUnit, word u (.inr mem)]
  · exact fixed u (.inr (.inr mem))

theorem length_marker (options : JobOptions) : options.marker.marker.length ≤ 75 := by
  have short := options.marker.short
  simp only [JobMarker.marker, length_append] at short ⊢
  have one : (text "__NCMCP_").length = 8 := by decide
  have two : (text "_").length = 1 := by decide
  have three : (text "__").length = 2 := by decide
  omega

/-- What a terminal sends. -/
structure CommandStream where
  noise : JsString
  startBreak : JsString
  output : JsString
  exitCode : ℕ
  endBreak : JsString
  further : JsString

namespace CommandStream

variable (stream : CommandStream) (options : JobOptions)

def beforeStatus : JsString :=
  stream.noise ++ (startMarker options ++ (stream.startBreak ++ (stream.output ++ endPattern options)))

def all : JsString :=
  stream.beforeStatus options ++ (decimal stream.exitCode ++ (stream.endBreak ++ stream.further))

/-- The noise and the output do not hold the marker, and the markers' lines are lines. -/
structure WellFormed : Prop where
  noise : ¬ options.marker.marker <:+: stream.noise
  noiseEnds : stream.noise = [] ∨ stream.noise.getLast? = some lineFeed
  startBreak : IsBreak stream.startBreak
  output : ¬ options.marker.marker <:+: stream.output
  fits : stream.output.length < captureLimitChars
  endBreak : IsBreak stream.endBreak

/-- Nothing else reads as the start marker, and the job waits for nothing but the end marker. -/
structure Plain : Prop where
  noise : ∀ line, line <:+: stream.noise → isStartLine options line = false
  further : ¬ startMarker options <:+: stream.further
  noProbe : options.usesLiveShellProbe = false
  noWait : options.waitForReturnedPrompt = false

/-- Where the events cut the stream. -/
structure CutsWell (events : List JsString) : Prop where
  /-- No event ends inside the digits of the status. -/
  status : ∀ reached, reached <+: events →
    reached.flatten.length ≤ (stream.beforeStatus options).length ∨
      (stream.beforeStatus options ++ decimal stream.exitCode).length ≤ reached.flatten.length
  /-- The event that brings the status leaves the output within what is kept. -/
  kept : ∀ reached event, reached ++ [event] <+: events →
    reached.flatten.length ≤ (stream.beforeStatus options).length →
    (reached ++ [event]).flatten.length ≤
      (stream.noise ++ startMarker options).length + captureLimitChars
  /-- An event that ends inside the line break of the start marker does not show. -/
  lineBreak : ∀ reached, reached <+: events →
    reached.flatten = stream.noise ++ (startMarker options ++ [carriageReturn]) →
    finalStdout options (lineFeed :: stream.output) = finalStdout options stream.output

end CommandStream

/-! ## The markers -/

section Markers

variable {options : JobOptions}

theorem not_mem_marker {u : Fin 65536} (other : isMarkerUnit u = false) :
    u ∉ options.marker.marker := fun mem => by
  rw [mem_marker mem] at other
  exact Bool.noConfusion other

theorem startMarker_eq : startMarker options = (options.marker.marker ++ text "_") ++ [upperS] := by
  rw [startMarker, append_assoc]
  rfl

theorem endPattern_eq : endPattern options = (options.marker.marker ++ text "_E") ++ [colon] := by
  rw [endPattern, append_assoc]
  rfl

theorem not_mem_startMarker {u : Fin 65536} (other : isMarkerUnit u = false) (last : u ≠ upperS) :
    u ∉ startMarker options := by
  intro mem
  rw [startMarker_eq, mem_append, mem_append] at mem
  rcases mem with (mem | mem) | mem
  · exact not_mem_marker other mem
  · have underscore : (text "_").all isMarkerUnit = true := by decide
    rw [List.all_eq_true.mp underscore u mem] at other
    exact Bool.noConfusion other
  · exact last (mem_singleton.mp mem)

theorem upperS_not_mem_endPattern : upperS ∉ endPattern options := by
  intro mem
  rw [endPattern, mem_append] at mem
  rcases mem with mem | mem
  · exact not_mem_marker (by decide) mem
  · exact absurd mem (by decide)

theorem upperS_not_mem_start : upperS ∉ options.marker.marker ++ text "_" := by
  intro mem
  rcases mem_append.mp mem with mem | mem
  · exact not_mem_marker (by decide) mem
  · exact absurd mem (by decide)

theorem colon_not_mem_end : colon ∉ options.marker.marker ++ text "_E" := by
  intro mem
  rcases mem_append.mp mem with mem | mem
  · exact not_mem_marker (by decide) mem
  · exact absurd mem (by decide)

theorem marker_infix_startMarker : options.marker.marker <:+: startMarker options :=
  (prefix_append _ _).isInfix

theorem marker_infix_endPattern : options.marker.marker <:+: endPattern options :=
  (prefix_append _ _).isInfix

theorem length_endPattern : (endPattern options).length = (startMarker options).length + 1 := by
  rw [endPattern, startMarker, length_append, length_append]
  rfl

theorem length_startMarker : (startMarker options).length = options.marker.marker.length + 2 := by
  rw [startMarker, length_append]
  rfl

theorem endPattern_ne_nil : endPattern options ≠ [] := by
  rw [endPattern_eq]
  exact append_ne_nil_of_right_ne_nil _ (cons_ne_nil _ _)

/-- An end marker does not begin before its place. -/
theorem not_endPattern_before {x rest t : JsString} (absent : ¬ endPattern options <:+: x)
    (suffix : t <:+ x) (some_ : t ≠ []) : ¬ endPattern options <+: t ++ (endPattern options ++ rest) := by
  intro starts
  have length := length_pos_of_ne_nil some_
  apply not_prefix_of_suffix absent suffix
  rw [endPattern_eq] at starts ⊢
  rw [append_assoc _ [colon] rest] at starts
  exact prefix_before starts colon_not_mem_end (by omega)

theorem findEndMarker_before {x g : JsString} (absent : ¬ endPattern options <:+: x)
    (within : g <+: x ++ endPattern options) (allowInline : Bool) :
    findEndMarker g options.marker.marker allowInline = none := by
  apply findEndMarkerFrom_none
  intro t suffix starts
  obtain ⟨before, cut⟩ := suffix
  obtain ⟨after, whole⟩ := within
  rw [← cut, append_assoc] at whole
  have rest_nil : t.length ≤ (endPattern options).length →
      leadingNumber (t.drop (endPattern options).length) = none := by
    intro short
    rw [drop_eq_nil_of_le short]
    rfl
  rcases append_eq_append_iff.mp whole with ⟨more, parts, tail⟩ | ⟨more, _, tail⟩
  · rcases more.eq_nil_or_concat with nothing | ⟨_, _, some_⟩
    · apply rest_nil
      have length := congrArg List.length tail
      simp only [nothing, nil_append, length_append] at length
      omega
    · apply absurd (starts.trans (prefix_append t after))
      rw [tail, ← append_nil (endPattern options)]
      apply not_endPattern_before absent
      · exact ⟨before, parts.symm⟩
      · rw [some_]
        simp
  · apply rest_nil
    have length := congrArg List.length tail
    simp only [length_append] at length
    omega

theorem leadingNumber_decimal (n : ℕ) {rest : JsString}
    (stops : ∀ u, rest.head? = some u → isDigit u = false) : leadingNumber (decimal n ++ rest) = some n := by
  have digits := (takeWhile_stop (p := isDigit) (a := decimal n) (b := rest)
    (fun _ mem => mem_decimal_isDigit mem) stops).1
  rw [leadingNumber, digits, if_neg (decimal_ne_nil n), parseDigits_decimal]

theorem findEndMarker_status {x rest : JsString} {n : ℕ} (absent : ¬ endPattern options <:+: x)
    (stops : ∀ u, rest.head? = some u → isDigit u = false) :
    findEndMarker (x ++ (endPattern options ++ (decimal n ++ rest))) options.marker.marker true =
      some ⟨x.length, n⟩ :=
  findEndMarkerFrom_some endPattern_ne_nil
    (fun _ suffix some_ => not_endPattern_before absent suffix some_)
    (leadingNumber_decimal n stops) none

end Markers

/-! ## The start marker's line -/

section Start

variable {options : JobOptions}

theorem removeMatches_of_none {matchLength : JsString → ℕ} {s : JsString}
    (quiet : ∀ t, t <:+ s → matchLength t = 0) : removeMatches matchLength 0 s = s := by
  induction s with
  | nil => rfl
  | cons u s ih =>
    rw [removeMatches, quiet _ suffix_rfl]
    dsimp only
    rw [ih fun t suffix => quiet t (suffix.trans (suffix_cons u s))]

theorem stripAnsi_of_not_mem {s : JsString} (absent : escapeUnit ∉ s) : stripAnsi s = s := by
  have head : ∀ t, t <:+ s → t.head? ≠ some escapeUnit := by
    intro t suffix first
    obtain ⟨rest, cut⟩ := head?_eq_some_iff.mp first
    exact absent (suffix.subset (cut ▸ mem_cons_self))
  have osc : removeMatches oscLength 0 s = s := by
    apply removeMatches_of_none
    intro t suffix
    have first := head t suffix
    unfold oscLength
    split
    · rw [if_neg]
      exact fun both => first (congrArg some both.1)
    · rfl
  rw [stripAnsi, osc]
  apply removeMatches_of_none
  intro t suffix
  have first := head t suffix
  unfold csiLength
  split
  · rw [if_neg]
    exact fun both => first (congrArg some both.1)
  · rfl

theorem trim_eq_self {s : JsString} (blank : ∀ u ∈ s, isWhiteSpace u = false) : trim s = s := by
  have forward : s.dropWhile isWhiteSpace = s := by
    cases s with
    | nil => rfl
    | cons u s =>
      rw [dropWhile_cons_of_neg]
      simpa using blank u mem_cons_self
  have backward : s.reverse.dropWhile isWhiteSpace = s.reverse := by
    cases cut : s.reverse with
    | nil => rfl
    | cons u rest =>
      have mem : u ∈ s := mem_reverse.mp (cut ▸ mem_cons_self)
      rw [dropWhile_cons_of_neg]
      simpa using blank u mem
  rw [trim, forward, backward, reverse_reverse]

theorem isWhiteSpace_markerUnit {u : Fin 65536} (word : isMarkerUnit u) :
    isWhiteSpace u = false := by
  simp only [isMarkerUnit, isBase36, isBetween, Bool.or_eq_true, Bool.and_eq_true,
    decide_eq_true_eq, contains_iff_mem, mem_cons, not_mem_nil, or_false] at word
  simp only [isWhiteSpace, decide_eq_false_iff_not, mem_cons, not_mem_nil, or_false]
  omega

theorem isWhiteSpace_startMarker {u : Fin 65536} (mem : u ∈ startMarker options) :
    isWhiteSpace u = false := by
  by_cases last : u = upperS
  · rw [last]
    decide
  · cases word : isMarkerUnit u with
    | true => exact isWhiteSpace_markerUnit word
    | false => exact absurd mem (not_mem_startMarker word last)

theorem escape_not_mem_startMarker : escapeUnit ∉ startMarker options :=
  not_mem_startMarker (by decide) (by decide)

theorem lineFeed_not_mem_startMarker : lineFeed ∉ startMarker options :=
  not_mem_startMarker (by decide) (by decide)

theorem return_not_mem_startMarker : carriageReturn ∉ startMarker options :=
  not_mem_startMarker (by decide) (by decide)

theorem isStartLine_startMarker : isStartLine options (startMarker options) := by
  rw [isStartLine, stripAnsi_of_not_mem escape_not_mem_startMarker,
    trim_eq_self fun _ mem => isWhiteSpace_startMarker mem, decide_eq_true rfl]

theorem isStartLine_return :
    isStartLine options (startMarker options ++ [carriageReturn]) := by
  have plain : escapeUnit ∉ startMarker options ++ [carriageReturn] := by
    intro mem
    rcases mem_append.mp mem with mem | mem
    · exact escape_not_mem_startMarker mem
    · exact absurd mem (by decide)
  have filled : startMarker options ≠ [] := by
    rw [startMarker_eq]
    exact append_ne_nil_of_right_ne_nil _ (cons_ne_nil _ _)
  have blank : isWhiteSpace carriageReturn = true := by decide
  have whole := trim_eq_self (s := startMarker options) fun _ mem => isWhiteSpace_startMarker mem
  obtain ⟨first, rest, cut⟩ := exists_cons_of_ne_nil filled
  have front : isWhiteSpace first = false :=
    isWhiteSpace_startMarker (show first ∈ startMarker options from cut ▸ mem_cons_self)
  have trimmed : trim (startMarker options ++ [carriageReturn]) = trim (startMarker options) := by
    unfold trim
    rw [cut, cons_append, dropWhile_cons_of_neg (by simp [front]),
      dropWhile_cons_of_neg (by simp [front]), ← cons_append, reverse_append,
      reverse_singleton, singleton_append, dropWhile_cons_of_pos blank]
  rw [isStartLine, stripAnsi_of_not_mem plain, trimmed, whole, decide_eq_true rfl]

theorem startMarker_ne_nil : startMarker options ≠ [] := by
  rw [startMarker_eq]
  exact append_ne_nil_of_right_ne_nil _ (cons_ne_nil _ _)

theorem upperS_mem_startMarker : upperS ∈ startMarker options := by
  rw [startMarker_eq]
  exact mem_append_right _ mem_cons_self

theorem not_startMarker_within {x : JsString} (absent : ¬ options.marker.marker <:+: x) :
    ¬ startMarker options <:+: x :=
  fun infix_ => absent (marker_infix_startMarker.trans infix_)

theorem not_startMarker_before {x rest t : JsString} (absent : ¬ options.marker.marker <:+: x)
    (suffix : t <:+ x) (some_ : t ≠ []) :
    ¬ startMarker options <+: t ++ (startMarker options ++ rest) := by
  intro starts
  have length := length_pos_of_ne_nil some_
  apply not_prefix_of_suffix (not_startMarker_within absent) suffix
  rw [startMarker_eq] at starts ⊢
  rw [append_assoc _ [upperS] rest] at starts
  exact prefix_before starts upperS_not_mem_start (by omega)

theorem lastStartLine_noise {x rest : JsString} (absent : ¬ options.marker.marker <:+: x) :
    lastStartLine (startMarker options) 0 0 (x ++ (startMarker options ++ rest)) =
      lastStartLine (startMarker options) 0 x.length (startMarker options ++ rest) := by
  have pass := lastStartLine_pass (p := startMarker options) x (startMarker options ++ rest) 0
    (fun _ suffix some_ =>
      startLineLength_of_not_prefix (not_startMarker_before absent suffix some_))
  rwa [Nat.zero_add] at pass

theorem outputBehindStart_line {x lineBreak rest : JsString}
    (absent : ¬ options.marker.marker <:+: x) (ends : IsBreak lineBreak)
    (quiet : ∀ t, t <:+ rest → ¬ startMarker options <+: t) :
    outputBehindStart options (x ++ (startMarker options ++ (lineBreak ++ rest))) = some rest := by
  have found : lastStartLine (startMarker options) 0 x.length
      (startMarker options ++ (lineBreak ++ rest)) = some x.length := by
    have line : startLineLength (startMarker options) (startMarker options ++ (lineBreak ++ rest)) =
        (startMarker options).length + lineBreak.length := startLineLength_line ends
    have filled : startMarker options ≠ [] := startMarker_ne_nil
    obtain ⟨u, body, cut⟩ := exists_cons_of_ne_nil filled
    have length : (startMarker options).length + lineBreak.length =
        (body ++ lineBreak).length + 1 := by
      rw [cut, length_append, length_cons]
      omega
    have later : lastStartLine (startMarker options) (body ++ lineBreak).length (x.length + 1)
        ((body ++ lineBreak) ++ rest) = none := by
      rw [lastStartLine_skip]
      exact lastStartLine_none
        (fun t suffix _ => startLineLength_of_not_prefix (quiet t suffix)) _
    rw [length] at line
    generalize startMarker options = p at line later cut ⊢
    subst cut
    rw [cons_append] at line ⊢
    rw [lastStartLine, line]
    dsimp only
    rw [← append_assoc, later]
    rfl
  rw [outputBehindStart, lastStartLine_noise absent, found, Option.map_some, drop_left,
    afterFirstLineBreak_append lineFeed_not_mem_startMarker, afterFirstLineBreak_break ends]

theorem outputBehindStart_half {x : JsString} (absent : ¬ options.marker.marker <:+: x) :
    outputBehindStart options (x ++ (startMarker options ++ [carriageReturn])) = none := by
  rw [outputBehindStart, lastStartLine_noise absent, lastStartLine_none]
  · rfl
  · intro t suffix _
    rcases eq_or_ne t (startMarker options ++ [carriageReturn]) with same | other
    · subst same
      exact startLineLength_half
    · apply startLineLength_of_not_prefix
      intro starts
      obtain ⟨before, cut⟩ := suffix
      have shorter : t.length ≤ (startMarker options).length := by
        have filled : before ≠ [] := fun nothing => other (by rw [← cut, nothing, nil_append])
        have positive := length_pos_of_ne_nil filled
        have length := congrArg List.length cut
        simp only [length_append, length_singleton] at length
        omega
      rw [← starts.eq_of_length_le shorter] at cut
      have last := congrArg List.getLast? cut
      rw [getLast?_concat] at last
      have mem : carriageReturn ∈ startMarker options := by
        rw [getLast?_append_of_ne_nil _ startMarker_ne_nil] at last
        exact mem_of_getLast? last
      exact return_not_mem_startMarker mem

end Start

theorem isBreak_cons {lineBreak : JsString} (ends : IsBreak lineBreak) :
    ∃ unit rest, lineBreak = unit :: rest ∧ (unit = lineFeed ∨ unit = carriageReturn) := by
  rcases ends with same | same
  · exact ⟨lineFeed, [], same, .inl rfl⟩
  · exact ⟨carriageReturn, [lineFeed], same, .inr rfl⟩

theorem kind_of_mem_break {lineBreak : JsString} (ends : IsBreak lineBreak) {unit : Fin 65536}
    (mem : unit ∈ lineBreak) : unit = lineFeed ∨ unit = carriageReturn := by
  rcases ends with same | same
  · exact .inl (mem_singleton.mp (same ▸ mem))
  · rw [same, mem_cons, mem_singleton] at mem
    exact mem.symm

theorem isBreak_not_mem {options : JobOptions} {unit : Fin 65536}
    (kind : unit = lineFeed ∨ unit = carriageReturn) : unit ∉ startMarker options := by
  rcases kind with same | same
  · exact same ▸ lineFeed_not_mem_startMarker
  · exact same ▸ return_not_mem_startMarker

section Stream

variable {options : JobOptions} {stream : CommandStream}

theorem not_startMarker_behind (formed : stream.WellFormed options) (plain : stream.Plain options)
    {rest : JsString} (within : rest <+: stream.output ++ (endPattern options ++
      (decimal stream.exitCode ++ (stream.endBreak ++ stream.further)))) :
    ∀ t, t <:+ rest → ¬ startMarker options <+: t := by
  intro t suffix starts
  obtain ⟨before, cut⟩ := suffix
  obtain ⟨after, whole⟩ := within
  rw [← cut, append_assoc, ← append_assoc (endPattern options)] at whole
  replace starts := starts.trans (prefix_append t after)
  -- `t` begins in the output, in the end marker and the status, or behind them
  rcases append_eq_append_iff.mp whole with ⟨output, parts, rest⟩ | ⟨later, _, rest⟩
  · rw [rest, append_assoc (endPattern options)] at starts
    have inside : startMarker options <+: output := by
      rw [startMarker_eq] at starts ⊢
      apply prefix_before starts upperS_not_mem_endPattern
      have length : (endPattern options).length = (startMarker options).length + 1 :=
        length_endPattern
      rw [startMarker_eq, length_append, length_singleton] at length
      omega
    apply not_startMarker_within formed.output
    rw [parts]
    exact inside.isInfix.trans (suffix_append before output).isInfix
  · rcases append_eq_append_iff.mp rest.symm with ⟨more, parts, tail⟩ | ⟨more, _, tail⟩
    · obtain ⟨unit, ret, same, kind⟩ := isBreak_cons formed.endBreak
      rw [tail, same, cons_append] at starts
      have inside := prefix_before_unit starts (isBreak_not_mem kind)
      have mem : upperS ∈ endPattern options ++ decimal stream.exitCode := by
        rw [parts]
        exact mem_append_right _ (inside.subset upperS_mem_startMarker)
      rcases mem_append.mp mem with mem | mem
      · exact upperS_not_mem_endPattern mem
      · exact absurd (mem_decimal_isDigit mem) (by decide)
    · rcases append_eq_append_iff.mp tail with ⟨further, _, last⟩ | ⟨kept, parts, last⟩
      · apply plain.further
        rw [last]
        exact starts.isInfix.trans (suffix_append further (t ++ after)).isInfix
      · rw [last] at starts
        rcases kept with _ | ⟨unit, kept⟩
        · exact plain.further starts.isInfix
        · have mem : unit ∈ stream.endBreak := by simp [parts]
          have inside : startMarker options <+: [] :=
            prefix_before_unit starts (isBreak_not_mem (kind_of_mem_break formed.endBreak mem))
          exact startMarker_ne_nil (prefix_nil.mp inside)

end Stream

end Netcatty.PtyExec
