import Netcatty.VaultPatterns

/-!
Lines put together again from their fields.
-/

namespace Netcatty.KnownHosts

open List

theorem mem_intercalate {u sep : Fin 65536} {parts : List JsString}
    (mem : u ∈ [sep].intercalate parts) : u = sep ∨ ∃ part ∈ parts, u ∈ part := by
  induction parts with
  | nil => cases mem
  | cons part parts ih =>
    by_cases last : parts = []
    · rw [last, intercalate_singleton] at mem
      exact .inr ⟨part, mem_cons_self, mem⟩
    · rw [intercalate_cons_of_ne_nil last, mem_append, mem_append,
        mem_singleton] at mem
      rcases mem with (mem | same) | mem
      · exact .inr ⟨part, mem_cons_self, mem⟩
      · exact .inl same
      · exact (ih mem).imp_right fun ⟨other, held, mem⟩ => ⟨other, mem_cons_of_mem _ held, mem⟩

/-! ## Patterns of a field -/

theorem splitCommas_ne_nil (s : JsString) : splitCommas s ≠ [] := by
  cases s with
  | nil => exact cons_ne_nil _ _
  | cons u rest =>
    unfold splitCommas
    split
    · exact cons_ne_nil _ _
    · split
      · exact cons_ne_nil _ _
      · exact cons_ne_nil _ _

theorem splitCommas_eq (s : JsString) : splitCommas s = s.splitOn comma := by
  induction s with
  | nil => rfl
  | cons u rest ih =>
    rw [splitOn_cons_eq_if_modifyHead, ← ih, splitCommas]
    by_cases separator : u = comma
    · rw [if_pos separator, if_pos (beq_iff_eq.mpr separator)]
    · rw [if_neg separator, if_neg (by simpa using separator)]
      obtain ⟨first, others, cut⟩ := exists_cons_of_ne_nil (splitCommas_ne_nil rest)
      rw [cut]
      rfl

theorem splitCommas_join {patterns : List JsString} (single : ∀ pattern ∈ patterns, comma ∉ pattern)
    (some_ : patterns ≠ []) : splitCommas ([comma].intercalate patterns) = patterns := by
  rw [splitCommas_eq, splitOn_intercalate comma single some_]

theorem of_mem_splitCommas {s pattern : JsString} (mem : pattern ∈ splitCommas s) :
    comma ∉ pattern ∧ ∀ u ∈ pattern, u ∈ s := by
  rw [splitCommas_eq, splitOn_eq_splitOnP] at mem
  refine ⟨fun inside => ?_, fun u inside => (of_mem_splitOnP mem u inside).1⟩
  exact absurd (of_mem_splitOnP mem comma inside).2 (by simp)

/-! ## Fields of a line -/

theorem IsWord.trimmed {word : JsString} (isWord : IsWord word) : Trimmed word :=
  ⟨fun u first => isWord.solid u (mem_of_mem_head? first),
    fun u last => isWord.solid u (mem_of_mem_getLast? last)⟩

theorem space_blank : isWhiteSpace space := by decide

theorem trimmed_join {words : List JsString} (all : ∀ word ∈ words, IsWord word) :
    Trimmed ([space].intercalate words) := by
  induction words with
  | nil =>
    refine ⟨fun u first => ?_, fun u last => ?_⟩
    · cases first
    · cases last
  | cons word words ih =>
    have own := all word mem_cons_self
    by_cases last : words = []
    · rw [last, intercalate_singleton]
      exact own.trimmed
    · have later := ih fun other mem => all other (mem_cons_of_mem _ mem)
      rw [intercalate_cons_of_ne_nil last]
      refine ⟨fun u first => own.trimmed.front u ?_, fun u last' => later.back u ?_⟩
      · obtain ⟨v, rest, same⟩ := exists_cons_of_ne_nil own.filled
        rw [same] at first ⊢
        exact first
      · have filled : [space].intercalate words ≠ [] := by
          obtain ⟨next, rest, same⟩ := exists_cons_of_ne_nil last
          have nextFilled := (all next (same ▸ by simp)).filled
          obtain ⟨v, more, cut⟩ := exists_cons_of_ne_nil nextFilled
          rw [same, cut, intercalate_cons_cons_left]
          exact cons_ne_nil _ _
        rwa [getLast?_append_of_ne_nil _ filled] at last'

theorem splitBlanks_join {words : List JsString} (all : ∀ word ∈ words, IsWord word)
    (some_ : words ≠ []) : splitBlanks ([space].intercalate words) = words := by
  induction words with
  | nil => exact absurd rfl some_
  | cons word words ih =>
    have own := all word mem_cons_self
    have others : ∀ other ∈ words, IsWord other := fun other mem => all other (mem_cons_of_mem _ mem)
    by_cases last : words = []
    · rw [last, intercalate_singleton, splitBlanks_solid own.solid]
    · have front : ([space].intercalate words).dropWhile isWhiteSpace = [space].intercalate words := by
        rw [dropWhile_eq_self_iff]
        intro filled
        have first := (trimmed_join others).front ([space].intercalate words)[0]
          (head?_eq_getElem? ▸ getElem?_eq_getElem filled)
        simpa using first
      rw [intercalate_cons_of_ne_nil last, append_assoc, singleton_append,
        splitBlanks_append own.solid space_blank, front, ih others last]

theorem join_markers (markers : List JsString) {words : List JsString} (some_ : words ≠ []) :
    markers.flatMap (fun marker => marker ++ [space]) ++ [space].intercalate words =
      [space].intercalate (markers ++ words) := by
  induction markers with
  | nil => rfl
  | cons marker markers ih =>
    have filled : markers ++ words ≠ [] := fun nothing => some_ (append_eq_nil_iff.mp nothing).2
    rw [flatMap_cons, append_assoc, ih, cons_append,
      intercalate_cons_of_ne_nil filled]

theorem readLine_join {markers words : List JsString} {first : JsString}
    (all : ∀ word ∈ markers ++ first :: words, IsWord word)
    (marked : ∀ marker ∈ markers, isMarker marker) (other : isMarker first = false)
    (shown : markers = [] → first.head? ≠ some numberSign) :
    readLine ([space].intercalate (markers ++ first :: words)) =
      words[0]?.bind fun keyType => words[1]?.map fun key => ⟨markers, first, keyType, key⟩ := by
  have some_ : markers ++ first :: words ≠ [] := by simp
  have trimmed := trimmed_join all
  have comment : ([space].intercalate (markers ++ first :: words)).head? ≠ some numberSign := by
    have head : ∀ (word : JsString) (others : List JsString), word ≠ [] →
        ([space].intercalate (word :: others)).head? = word.head? := by
      intro word others filled
      obtain ⟨v, rest, same⟩ := exists_cons_of_ne_nil filled
      rw [same, intercalate_cons_cons_left]
      rfl
    cases markers with
    | nil =>
      rw [nil_append, head first words (all first (by simp)).filled]
      exact shown rfl
    | cons marker markers =>
      rw [cons_append, head marker _ (all marker (by simp)).filled]
      have atFront := marked marker mem_cons_self
      unfold isMarker at atFront
      rw [decide_eq_true_eq.mp atFront]
      decide
  unfold readLine
  rw [trimmed.trim_eq, if_neg comment, splitBlanks_join all some_, lineOfFields,
    takeWhile_append_of_pos marked, dropWhile_append_of_pos marked,
    takeWhile_cons_of_neg (by simp [other]), dropWhile_cons_of_neg (by simp [other]),
    append_nil]
  rcases words with _ | ⟨keyType, _ | ⟨key, more⟩⟩
  all_goals rfl

/-! ## Lines of a file -/

theorem not_mem_splitLines {s line : JsString} (mem : line ∈ PtyExec.splitLines s) :
    lineFeed ∉ line := by
  induction s generalizing line with
  | nil =>
    rw [PtyExec.splitLines, mem_singleton] at mem
    rw [mem]
    exact not_mem_nil
  | cons u rest ih =>
    rcases PtyExec.splitLines_cases u rest with ⟨feed, same⟩ | ⟨ret, next, same⟩ | ⟨feed, both⟩
    · rw [same, mem_cons] at mem
      rcases mem with same | mem
      · rw [same]
        exact not_mem_nil
      · exact ih mem
    · exact ih (same ▸ mem)
    · obtain ⟨first, lines, cut⟩ := exists_cons_of_ne_nil (PtyExec.splitLines_ne_nil rest)
      rw [PtyExec.splitLines_unit feed both cut] at mem
      rw [cut] at ih
      rcases mem_cons.mp mem with same | mem
      · rw [same]
        intro inside
        exact (mem_cons.mp inside).elim (fun same => feed same.symm) (ih mem_cons_self)
      · exact ih (mem_cons_of_mem _ mem)

theorem readLines_line {line : JsString} (single : lineFeed ∉ line) :
    readLines line = [line].filterMap readLine := by
  rw [readLines_feeds, splitFeeds_line single]

theorem readLines_join {lines : List JsString} (single : ∀ line ∈ lines, lineFeed ∉ line) :
    readLines ([lineFeed].intercalate lines) = lines.filterMap readLine := by
  induction lines with
  | nil => rfl
  | cons line lines ih =>
    have own := readLines_line (single line mem_cons_self)
    by_cases last : lines = []
    · rw [last, intercalate_singleton, own]
    · rw [intercalate_cons_of_ne_nil last, append_assoc, singleton_append,
        readLines_append, ih fun other mem => single other (mem_cons_of_mem _ mem), own,
        ← filterMap_append, singleton_append]

theorem trimEnd_spec (s : JsString) : ∃ b, IsBlank b ∧ s = trimEnd s ++ b := by
  refine ⟨(s.reverse.takeWhile isWhiteSpace).reverse, fun u mem =>
    mem_takeWhile_imp (mem_reverse.mp mem), ?_⟩
  rw [trimEnd, ← reverse_append, takeWhile_append_dropWhile, reverse_reverse]

theorem readLine_trimEnd (line : JsString) : readLine (trimEnd line) = readLine line := by
  obtain ⟨b, blank, cut⟩ := trimEnd_spec line
  have same := readLine_append_blank (trimEnd line) blank
  rw [← cut] at same
  exact same.symm

end Netcatty.KnownHosts
