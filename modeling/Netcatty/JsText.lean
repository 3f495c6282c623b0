import Netcatty.JsValue

/-!
Characters and white space of JavaScript texts.
-/

namespace Netcatty

open List

/-- The lower-case form of an ASCII letter. -/
def asciiLower (unit : Fin 65536) : Fin 65536 :=
  if upper : 65 ≤ unit.val ∧ unit.val ≤ 90 then ⟨unit.val + 32, by omega⟩ else unit

/-- The code units `String.prototype.trim` removes. -/
def isWhiteSpace (unit : Fin 65536) : Bool :=
  (9 ≤ unit.val ∧ unit.val ≤ 13) ∨ (0x2000 ≤ unit.val ∧ unit.val ≤ 0x200A) ∨
    unit.val ∈ [32, 0xA0, 0x1680, 0x2028, 0x2029, 0x202F, 0x205F, 0x3000, 0xFEFF]

/-- `trim()`. -/
def trim (s : JsString) : JsString :=
  ((s.dropWhile isWhiteSpace).reverse.dropWhile isWhiteSpace).reverse

theorem mem_of_mem_trim {unit : Fin 65536} {s : JsString} (mem : unit ∈ trim s) : unit ∈ s := by
  have inside := (dropWhile_sublist isWhiteSpace).subset (mem_reverse.mp mem)
  exact (dropWhile_sublist isWhiteSpace).subset (mem_reverse.mp inside)

/-- What stands between separators is part of the text, and no separator. -/
theorem of_mem_splitOnP {p : Fin 65536 → Bool} {s part : JsString} (mem : part ∈ s.splitOnP p) :
    ∀ unit ∈ part, unit ∈ s ∧ p unit = false := by
  induction s generalizing part with
  | nil =>
    rw [splitOnP_nil, mem_singleton] at mem
    exact fun _ held => absurd (mem ▸ held) not_mem_nil
  | cons first s ih =>
    have later {part : JsString} (mem : part ∈ s.splitOnP p) : ∀ unit ∈ part, unit ∈ first :: s ∧ p unit = false :=
      fun unit held => ⟨mem_cons_of_mem _ (ih mem unit held).1, (ih mem unit held).2⟩
    rw [splitOnP_cons_eq_if_modifyHead] at mem
    cases separates : p first with
    | true =>
      rw [separates, if_pos rfl] at mem
      rcases mem_cons.mp mem with rfl | mem
      · exact fun _ held => (not_mem_nil held).elim
      · exact later mem
    | false =>
      rw [separates, if_neg Bool.false_ne_true] at mem
      obtain ⟨front, others, cut⟩ := exists_cons_of_ne_nil (splitOnP_ne_nil p s)
      rw [cut, modifyHead_cons] at mem
      rcases mem_cons.mp mem with rfl | mem
      · exact forall_mem_cons.mpr ⟨⟨mem_cons_self, separates⟩, later (cut ▸ mem_cons_self)⟩
      · exact later (cut ▸ mem_cons_of_mem _ mem)

/-- What `\d` matches. -/
def isDigit (u : Fin 65536) : Bool := 48 ≤ u.val && u.val ≤ 57

theorem isWhiteSpace_digit {u : Fin 65536} (digit : isDigit u) : isWhiteSpace u = false := by
  simp only [isDigit, Bool.and_eq_true, decide_eq_true_eq] at digit
  simp only [isWhiteSpace, decide_eq_false_iff_not, mem_cons, not_mem_nil, or_false]
  omega

end Netcatty
