import Mathlib.Data.List.Infix
import Netcatty.PtyExecText

/-!
Where the text functions find a marker.

A marker ends in a character it has nowhere else, so it cannot begin in the text before
its place and end in it.
-/

namespace Netcatty.PtyExec

open List Bool

/-! ## Occurrences -/

theorem prefix_before {p x y z : JsString} {c : Fin 65536} (starts : p ++ [c] <+: x ++ (y ++ z))
    (absent : c ∉ y) (room : p.length + 1 ≤ x.length + y.length) : p ++ [c] <+: x := by
  by_cases inside : p.length < x.length
  · apply prefix_of_prefix_length_le starts (prefix_append x _)
    rw [length_append, length_singleton]
    omega
  · apply absurd _ absent
    obtain ⟨rest, whole⟩ := starts
    have last : (p ++ [c] ++ rest)[p.length]? = some c := by
      rw [append_assoc, getElem?_append_right le_rfl]
      simp
    rw [whole, getElem?_append_right (by omega), getElem?_append_left (by omega)] at last
    exact mem_of_getElem? last

theorem prefix_before_unit {p x z : JsString} {c : Fin 65536} (starts : p <+: x ++ c :: z)
    (absent : c ∉ p) : p <+: x := by
  by_cases inside : p.length ≤ x.length
  · exact prefix_of_prefix_length_le starts (prefix_append x _) inside
  · apply absurd _ absent
    obtain ⟨rest, whole⟩ := starts
    have here : (x ++ c :: z)[x.length]? = some c := by
      rw [getElem?_append_right le_rfl]
      simp
    rw [← whole, getElem?_append_left (by omega)] at here
    exact mem_of_getElem? here

theorem not_prefix_of_suffix {p s t : JsString} (absent : ¬ p <:+: s) (suffix : t <:+ s) :
    ¬ p <+: t :=
  fun starts => absent (starts.isInfix.trans suffix.isInfix)

theorem keepLast_suffix (limit : ℕ) (s : JsString) : keepLast limit s <:+ s :=
  drop_suffix _ _

theorem keepLast_of_le {limit : ℕ} {s : JsString} (short : s.length ≤ limit) :
    keepLast limit s = s := by
  rw [keepLast, Nat.sub_eq_zero_of_le short, drop_zero]

theorem keepLast_append (limit : ℕ) (s t : JsString) (short : t.length ≤ limit) :
    ∃ kept, kept <:+ s ∧ keepLast limit (s ++ t) = kept ++ t := by
  refine ⟨s.drop ((s ++ t).length - limit), drop_suffix _ _, ?_⟩
  rw [keepLast, drop_append_of_le_length]
  rw [length_append]
  omega

theorem keepLast_keepLast (limit : ℕ) (s t : JsString) :
    keepLast limit (keepLast limit s ++ t) = keepLast limit (s ++ t) := by
  unfold keepLast
  rcases le_total s.length limit with short | long
  · rw [Nat.sub_eq_zero_of_le short, drop_zero]
  · have cut : s.drop (s.length - limit) ++ t = (s ++ t).drop (s.length - limit) :=
      (drop_append_of_le_length (Nat.sub_le _ _)).symm
    rw [cut, drop_drop]
    congr 1
    simp only [length_drop, length_append]
    omega

theorem appendBoundedOutput_eq {limit : ℕ} {current chunk : JsString}
    (fits : (current ++ chunk).length ≤ limit) (filled : chunk ≠ []) :
    appendBoundedOutput current chunk limit = current ++ chunk := by
  have some_ := length_pos_of_ne_nil filled
  rw [length_append] at fits
  unfold appendBoundedOutput
  split
  · rename_i long
    have nothing : current = [] := eq_nil_of_length_eq_zero (by omega)
    subst nothing
    exact keepLast_of_le (by omega)
  · rw [if_pos (.inr (by rw [length_append]; exact fits))]

/-! ## End markers -/

section EndMarker

variable {p : JsString}

theorem findEndMarkerFrom_none {allowInline : Bool} {s : JsString}
    (quiet : ∀ t, t <:+ s → p <+: t → leadingNumber (t.drop p.length) = none)
    (previous : Option (Fin 65536)) : findEndMarkerFrom p allowInline previous s = none := by
  induction s generalizing previous with
  | nil => rfl
  | cons u rest ih =>
    have later := ih (fun t suffix => quiet t (suffix.trans (suffix_cons u rest)))
    have here : (if p.isPrefixOf (u :: rest) && (allowInline || previous.all isLineBreak) then
        leadingNumber ((u :: rest).drop p.length) else none) = none := by
      split
      · rename_i starts
        rw [and_eq_true, List.isPrefixOf_iff_prefix] at starts
        exact quiet _ suffix_rfl starts.1
      · rfl
    rw [findEndMarkerFrom]
    rw [here, later]
    rfl

theorem findEndMarkerFrom_some {x rest : JsString} {exitCode : ℕ} (nonempty : p ≠ [])
    (quiet : ∀ t, t <:+ x → t ≠ [] → ¬ p <+: t ++ (p ++ rest))
    (number : leadingNumber rest = some exitCode) (previous : Option (Fin 65536)) :
    findEndMarkerFrom p true previous (x ++ (p ++ rest)) = some ⟨x.length, exitCode⟩ := by
  induction x generalizing previous with
  | nil =>
    obtain ⟨u, body, cut⟩ := exists_cons_of_ne_nil nonempty
    have starts : p.isPrefixOf (p ++ rest) = true :=
      List.isPrefixOf_iff_prefix.mpr (prefix_append p rest)
    have drop : (p ++ rest).drop p.length = rest := drop_left
    rw [nil_append]
    rw [cut, cons_append] at starts drop ⊢
    rw [findEndMarkerFrom]
    rw [starts, drop, number]
    rfl
  | cons u x ih =>
    have later := ih (fun t suffix => quiet t (suffix.trans (suffix_cons u x))) (some u)
    have here : p.isPrefixOf (u :: (x ++ (p ++ rest))) = false := by
      rw [← not_eq_true, List.isPrefixOf_iff_prefix]
      exact quiet (u :: x) suffix_rfl (cons_ne_nil _ _)
    rw [cons_append, findEndMarkerFrom]
    rw [here, later]
    rfl

end EndMarker

/-! ## The start marker's line -/

section StartLine

variable {p : JsString}

theorem startLineLength_of_not_prefix {s : JsString} (absent : ¬ p <+: s) :
    startLineLength p s = 0 := by
  rw [startLineLength, if_neg]
  rwa [List.isPrefixOf_iff_prefix]

theorem lastStartLine_skip (s rest : JsString) (index : ℕ) :
    lastStartLine p s.length index (s ++ rest) = lastStartLine p 0 (index + s.length) rest := by
  induction s generalizing index with
  | nil => rfl
  | cons u s ih =>
    rw [length_cons, cons_append, lastStartLine, ih]
    congr 1
    omega

theorem lastStartLine_pass (x rest : JsString) (index : ℕ)
    (quiet : ∀ t, t <:+ x → t ≠ [] → startLineLength p (t ++ rest) = 0) :
    lastStartLine p 0 index (x ++ rest) = lastStartLine p 0 (index + x.length) rest := by
  induction x generalizing index with
  | nil => rfl
  | cons u x ih =>
    have here : startLineLength p (u :: (x ++ rest)) = 0 :=
      quiet (u :: x) suffix_rfl (cons_ne_nil _ _)
    rw [cons_append, lastStartLine, here]
    dsimp only
    rw [ih (index + 1) fun t suffix => quiet t (suffix.trans (suffix_cons u x)),
      length_cons]
    congr 1
    omega

theorem lastStartLine_none {s : JsString}
    (quiet : ∀ t, t <:+ s → t ≠ [] → startLineLength p t = 0) (index : ℕ) :
    lastStartLine p 0 index s = none := by
  have pass := lastStartLine_pass s [] index (fun t suffix some_ => by
    rw [append_nil]
    exact quiet t suffix some_)
  rwa [append_nil] at pass

def IsBreak (s : JsString) : Prop := s = [lineFeed] ∨ s = [carriageReturn, lineFeed]

theorem startLineLength_line {lineBreak rest : JsString} (ends : IsBreak lineBreak) :
    startLineLength p (p ++ (lineBreak ++ rest)) = p.length + lineBreak.length := by
  have starts : p.isPrefixOf (p ++ (lineBreak ++ rest)) = true :=
    List.isPrefixOf_iff_prefix.mpr (prefix_append _ _)
  rw [startLineLength, if_pos starts, drop_left]
  rcases ends with same | same
  · subst same
    have none_ : ([lineFeed] ++ rest).takeWhile (fun u => !isLineBreak u) = [] :=
      takeWhile_cons_of_neg (by decide)
    rw [none_]
    dsimp only [length_nil, Nat.add_zero]
    rw [drop_left]
    rcases rest with _ | ⟨u, rest⟩ <;> rfl
  · subst same
    have none_ : ([carriageReturn, lineFeed] ++ rest).takeWhile (fun u => !isLineBreak u) = [] :=
      takeWhile_cons_of_neg (by decide)
    rw [none_]
    dsimp only [length_nil, Nat.add_zero]
    rw [drop_left]
    rfl

theorem startLineLength_half : startLineLength p (p ++ [carriageReturn]) = 0 := by
  have starts : p.isPrefixOf (p ++ [carriageReturn]) = true :=
    List.isPrefixOf_iff_prefix.mpr (prefix_append _ _)
  have none_ : [carriageReturn].takeWhile (fun u => !isLineBreak u) = [] := by decide
  rw [startLineLength, if_pos starts, drop_left, none_]
  dsimp only [length_nil, Nat.add_zero]
  rw [drop_left]
  rfl

theorem afterFirstLineBreak_append {x rest : JsString} (absent : lineFeed ∉ x) :
    afterFirstLineBreak (x ++ rest) = afterFirstLineBreak rest := by
  induction x with
  | nil => rfl
  | cons u x ih =>
    have other : u ≠ lineFeed := fun same => absent (same ▸ mem_cons_self)
    rw [cons_append, afterFirstLineBreak, if_neg other]
    exact ih fun mem => absent (mem_cons_of_mem _ mem)

theorem afterFirstLineBreak_break {lineBreak rest : JsString} (ends : IsBreak lineBreak) :
    afterFirstLineBreak (lineBreak ++ rest) = rest := by
  rcases ends with same | same
  · subst same
    rfl
  · subst same
    rfl

end StartLine

/-! ## Lines -/

/-- The three ways a text is split at its first character. -/
theorem splitLines_cases (u : Fin 65536) (rest : JsString) :
    (u = lineFeed ∧ splitLines (u :: rest) = [] :: splitLines rest) ∨
    (u = carriageReturn ∧ rest.head? = some lineFeed ∧
      splitLines (u :: rest) = splitLines rest) ∨
    (u ≠ lineFeed ∧ ¬ (u = carriageReturn ∧ rest.head? = some lineFeed)) := by
  by_cases feed : u = lineFeed
  · exact .inl ⟨feed, by rw [splitLines, if_pos feed]⟩
  · by_cases both : u = carriageReturn ∧ rest.head? = some lineFeed
    · exact .inr (.inl ⟨both.1, both.2, by rw [splitLines, if_neg feed, if_pos both]⟩)
    · exact .inr (.inr ⟨feed, both⟩)

theorem splitLines_unit {u : Fin 65536} {rest line : JsString} {lines : List JsString}
    (feed : u ≠ lineFeed) (both : ¬ (u = carriageReturn ∧ rest.head? = some lineFeed))
    (cut : splitLines rest = line :: lines) : splitLines (u :: rest) = (u :: line) :: lines := by
  rw [splitLines, if_neg feed, if_neg both, cut]

theorem splitLines_spec (s : JsString) :
    ∃ line lines, splitLines s = line :: lines ∧ line <+: s ∧ (∀ other ∈ lines, other <:+: s) ∧
      (lines = [] → line = s) := by
  induction s with
  | nil => exact ⟨[], [], rfl, prefix_rfl, by simp, fun _ => rfl⟩
  | cons u rest ih =>
    obtain ⟨line, lines, cut, starts, others, single⟩ := ih
    have wider := (suffix_cons u rest).isInfix
    rcases splitLines_cases u rest with ⟨_, same⟩ | ⟨_, next, same⟩ | ⟨feed, both⟩
    · refine ⟨[], line :: lines, by rw [same, cut], List.nil_prefix, fun other mem => ?_,
        fun empty => absurd empty (cons_ne_nil _ _)⟩
      rcases mem_cons.mp mem with first | mem
      · exact first ▸ starts.isInfix.trans wider
      · exact (others other mem).trans wider
    · obtain ⟨more, feed⟩ := head?_eq_some_iff.mp next
      refine ⟨line, lines, by rw [same, cut], ?_, fun other mem => (others other mem).trans wider,
        fun empty => ?_⟩
      · rw [feed, splitLines, if_pos rfl, List.cons.injEq] at cut
        rw [← cut.1]
        exact List.nil_prefix
      · rw [feed, splitLines, if_pos rfl, List.cons.injEq, empty] at cut
        rw [single empty, feed] at cut
        exact absurd cut.1 (cons_ne_nil _ _).symm
    · exact ⟨u :: line, lines, splitLines_unit feed both cut,
        (cons_prefix_cons.mpr ⟨rfl, starts⟩), fun other mem => (others other mem).trans wider,
        fun empty => congrArg (u :: ·) (single empty)⟩

theorem splitLines_ne_nil (s : JsString) : splitLines s ≠ [] := by
  obtain ⟨line, lines, cut, _⟩ := splitLines_spec s
  rw [cut]
  exact cons_ne_nil _ _

theorem infix_of_mem_splitLines {s line : JsString} (mem : line ∈ splitLines s) : line <:+: s := by
  obtain ⟨first, lines, cut, starts, others, _⟩ := splitLines_spec s
  rw [cut] at mem
  rcases mem_cons.mp mem with same | mem
  · exact same ▸ starts.isInfix
  · exact others line mem

theorem splitLines_append (s t : JsString) :
    ∃ lines, splitLines (s ++ [lineFeed]) = lines ++ [[]] ∧ lines ≠ [] ∧
      splitLines (s ++ lineFeed :: t) = lines ++ splitLines t := by
  induction s with
  | nil => exact ⟨[[]], rfl, by simp, rfl⟩
  | cons u s ih =>
    obtain ⟨lines, alone, some_, both⟩ := ih
    have head : ∀ more, (s ++ lineFeed :: more).head? = (s ++ [lineFeed]).head? := by
      intro more
      cases s <;> rfl
    rcases splitLines_cases u (s ++ [lineFeed]) with ⟨feed, same⟩ | ⟨ret, next, same⟩ |
      ⟨feed, other⟩
    · refine ⟨[] :: lines, by rw [cons_append, same, alone]; rfl, cons_ne_nil _ _, ?_⟩
      rw [cons_append, splitLines, if_pos feed, both]
      rfl
    · refine ⟨lines, by rw [cons_append, same, alone], some_, ?_⟩
      rw [cons_append, splitLines, if_neg (by rw [ret]; decide),
        if_pos ⟨ret, (head t).trans next⟩, both]
    · obtain ⟨line, later, cut⟩ := exists_cons_of_ne_nil some_
      subst cut
      refine ⟨(u :: line) :: later, ?_, cons_ne_nil _ _, ?_⟩
      · exact splitLines_unit feed other alone
      · exact splitLines_unit feed (fun held => other ⟨held.1, (head t).symm.trans held.2⟩) both

theorem splitLines_line {s : JsString} (feed : lineFeed ∉ s) : splitLines s = [s] := by
  induction s with
  | nil => rfl
  | cons u s ih =>
    have rest := ih fun mem => feed (mem_cons_of_mem _ mem)
    apply splitLines_unit (fun same => feed (same ▸ mem_cons_self)) _ rest
    rintro ⟨_, next⟩
    obtain ⟨more, cut⟩ := head?_eq_some_iff.mp next
    exact feed (by simp [cut])

theorem splitLines_broken {s lineBreak : JsString} (rest : JsString) (feed : lineFeed ∉ s)
    (ret : carriageReturn ∉ s) (ends : IsBreak lineBreak) :
    splitLines (s ++ (lineBreak ++ rest)) = s :: splitLines rest := by
  induction s with
  | nil =>
    rcases ends with same | same
    · subst same
      rfl
    · subst same
      rfl
  | cons u s ih =>
    apply splitLines_unit (fun same => feed (same ▸ mem_cons_self))
      (fun held => ret (held.1 ▸ mem_cons_self))
    exact ih (fun mem => feed (mem_cons_of_mem _ mem))
      (fun mem => ret (mem_cons_of_mem _ mem))

end Netcatty.PtyExec
