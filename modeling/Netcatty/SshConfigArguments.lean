import Netcatty.SshConfigSerializer

/-!
Arguments of directives, written and read back.

An argument with white space, a quote, a backslash or `#` is quoted, and only the directives of
keys and agents take the quotes off again.  So an argument without such a mark is read back
(`readArgument_plain`), and a key path also when it has single blanks (`stripQuotes_readArgument`).
-/

namespace Netcatty.VaultImport

open List

open KnownHosts (numberSign space IsBlank IsWord)
open JsonText (quoteMark)
open QuickConnect (words)

/-! ## Words -/

theorem words_append_cons {blank : Fin 65536} (white : isWhiteSpace blank) (s t : JsString) :
    words (s ++ blank :: t) = words s ++ words t := by
  rw [words, splitOnP_append_cons s t white, filter_append]
  rfl

theorem words_solid {word : JsString} (isWord : IsWord word) : words word = [word] := by
  rw [words, splitOnP_eq_singleton isWord.solid, filter_singleton, isEmpty_eq_false_iff.mpr isWord.filled]
  rfl

theorem words_nil : words [] = [] := rfl

theorem words_blank {s : JsString} (blank : IsBlank s) : words s = [] := by
  induction s with
  | nil => rfl
  | cons unit s ih =>
    have first := words_append_cons (blank unit mem_cons_self) [] s
    rw [nil_append] at first
    rw [first, words_nil, ih fun unit mem => blank unit (mem_cons_of_mem _ mem)]
    rfl

theorem words_blank_append {b : JsString} (blank : IsBlank b) (s : JsString) : words (b ++ s) = words s := by
  induction b with
  | nil => rfl
  | cons unit b ih =>
    have first := words_append_cons (blank unit mem_cons_self) [] (b ++ s)
    rw [nil_append] at first
    rw [cons_append, first, words_nil, nil_append, ih fun unit mem => blank unit (mem_cons_of_mem _ mem)]

theorem words_append_blank (s : JsString) {b : JsString} (blank : IsBlank b) : words (s ++ b) = words s := by
  cases b with
  | nil => rw [append_nil]
  | cons unit b =>
    rw [words_append_cons (blank unit mem_cons_self),
      words_blank fun unit mem => blank unit (mem_cons_of_mem _ mem), append_nil]

theorem words_trim (s : JsString) : words (trim s) = words s := by
  obtain ⟨a, b, before, after, whole, -⟩ := KnownHosts.trim_spec s
  conv_rhs => rw [whole]
  rw [words_blank_append before, words_append_blank _ after]

/-! ## Comments -/

theorem stripComment_of_not_mem {s : JsString} (plain : numberSign ∉ s) : stripComment s = s := by
  have all : ∀ unit ∈ s, decide (unit ≠ numberSign) = true := fun unit mem =>
    decide_eq_true fun same => plain (same ▸ mem)
  rw [stripComment, takeWhile_eq_self_iff.mpr all, dropWhile_eq_nil_iff.mpr all, dropWhile_nil,
    append_nil]

theorem stripComment_append {s : JsString} (plain : numberSign ∉ s) (t : JsString) :
    stripComment (s ++ t) = s ++ stripComment t := by
  have all : ∀ unit ∈ s, decide (unit ≠ numberSign) = true := fun unit mem =>
    decide_eq_true fun same => plain (same ▸ mem)
  rw [stripComment, takeWhile_append_of_pos all, dropWhile_append_of_pos all, append_assoc]
  rfl

/-! ## Arguments -/

/-- What a directive takes from the text behind its keyword. -/
def readArgument (argument : JsString) : JsString := [space].intercalate (words (stripComment argument))

/-- White space only as single blanks between words. -/
def IsSpaced (s : JsString) : Prop := [space].intercalate (words s) = s

theorem readArgument_of_spaced {argument : JsString} (spaced : IsSpaced argument) (comment : numberSign ∉ argument) :
    readArgument argument = argument := by
  rw [readArgument, stripComment_of_not_mem comment]
  exact spaced

theorem isSpaced_solid {s : JsString} (solid : ∀ unit ∈ s, isWhiteSpace unit = false) : IsSpaced s := by
  by_cases filled : s = []
  · rw [filled]
    rfl
  · rw [IsSpaced, words_solid ⟨filled, solid⟩, intercalate_singleton]

def IsPlain (argument : JsString) : Prop := ∀ unit ∈ argument, isArgumentMark unit = false

theorem isArgumentMark_eq_false {unit : Fin 65536} : isArgumentMark unit = false ↔
    isWhiteSpace unit = false ∧ unit ≠ quoteMark ∧ unit ≠ backslash ∧ unit ≠ numberSign := by
  simp only [isArgumentMark, Bool.or_eq_false_iff, decide_eq_false_iff_not, and_assoc]

section

variable {argument : JsString} (plain : IsPlain argument)
include plain

theorem IsPlain.solid : ∀ unit ∈ argument, isWhiteSpace unit = false :=
  fun unit mem => (isArgumentMark_eq_false.mp (plain unit mem)).1

theorem formatSshConfigArgument_plain : formatSshConfigArgument argument = argument := by
  have none_ : argument.any isArgumentMark = false := List.any_eq_false.mpr fun unit mem => Bool.eq_false_iff.mp (plain unit mem)
  rw [formatSshConfigArgument, none_]
  rfl

theorem readArgument_plain : readArgument (formatSshConfigArgument argument) = argument := by
  rw [formatSshConfigArgument_plain plain]
  exact readArgument_of_spaced (isSpaced_solid plain.solid) fun mem =>
    (isArgumentMark_eq_false.mp (plain _ mem)).2.2.2 rfl

end

/-- A path of a key or an agent in which nothing has to be escaped, and white space is single blanks. -/
structure IsPath (path : JsString) : Prop where
  filled : path ≠ []
  quote : quoteMark ∉ path
  escape : backslash ∉ path
  comment : numberSign ∉ path
  spaced : IsSpaced (quoteMark :: (path ++ [quoteMark]))
  bare : (∀ unit ∈ path, isWhiteSpace unit = false) →
    path.head?.any isQuote = false ∧ path.getLast?.any isQuote = false

theorem stripQuotes_bare {value : JsString} (front : value.head?.any isQuote = false)
    (back : value.getLast?.any isQuote = false) : stripQuotes value = value := by
  unfold stripQuotes
  dsimp only
  rw [front, if_neg Bool.false_ne_true, back, if_neg Bool.false_ne_true]

theorem stripQuotes_quoted (value : JsString) : stripQuotes (quoteMark :: (value ++ [quoteMark])) = value := by
  have front : (quoteMark :: (value ++ [quoteMark])).head?.any isQuote = true := rfl
  have back : Option.any isQuote (some quoteMark) = true := rfl
  unfold stripQuotes
  dsimp only
  rw [if_pos front, tail_cons, getLast?_concat, if_pos back, dropLast_concat]

theorem formatSshConfigArgument_path {path : JsString} (isPath : IsPath path) :
    IsPlain path ∨ formatSshConfigArgument path = quoteMark :: (path ++ [quoteMark]) := by
  by_cases solid : ∀ unit ∈ path, isWhiteSpace unit = false
  · exact .inl fun unit mem => isArgumentMark_eq_false.mpr
      ⟨solid unit mem, fun same => isPath.quote (same ▸ mem), fun same => isPath.escape (same ▸ mem),
        fun same => isPath.comment (same ▸ mem)⟩
  · have marked : path.any isArgumentMark = true := by
      rw [List.any_eq_true]
      by_contra plain
      refine solid fun unit mem => Bool.eq_false_iff.mpr fun blank => plain ⟨unit, mem, ?_⟩
      rw [isArgumentMark, blank]
      rfl
    have each : ∀ unit ∈ path, (if unit = backslash then [backslash, backslash]
        else if unit = quoteMark then [backslash, quoteMark] else [unit]) = [unit] := by
      intro unit mem
      have escape : unit ≠ backslash := fun same => isPath.escape (same ▸ mem)
      have quote : unit ≠ quoteMark := fun same => isPath.quote (same ▸ mem)
      rw [if_neg escape, if_neg quote]
    refine .inr ?_
    rw [formatSshConfigArgument, marked, Bool.not_true, if_neg Bool.false_ne_true, flatMap_congr each,
      flatMap_singleton']

theorem stripQuotes_readArgument {path : JsString} (isPath : IsPath path) :
    readArgument (formatSshConfigArgument path) ≠ [] ∧ stripQuotes (readArgument (formatSshConfigArgument path)) = path := by
  rcases formatSshConfigArgument_path isPath with plain | quoted
  · have bare := isPath.bare plain.solid
    rw [readArgument_plain plain]
    exact ⟨isPath.filled, stripQuotes_bare bare.1 bare.2⟩
  · have comment : numberSign ∉ quoteMark :: (path ++ [quoteMark]) := by
      intro mem
      rcases mem_cons.mp mem with same | mem
      · exact absurd same (by decide)
      rcases mem_append.mp mem with mem | mem
      · exact isPath.comment mem
      · exact absurd (mem_singleton.mp mem) (by decide)
    rw [quoted, readArgument_of_spaced isPath.spaced comment]
    exact ⟨cons_ne_nil _ _, stripQuotes_quoted path⟩

end Netcatty.VaultImport
