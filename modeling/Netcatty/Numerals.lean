import Netcatty.JsText

/-!
Numerals, and their value.
-/

namespace Netcatty

open List

def parseDigits (base : ℕ) (digits : JsString) : ℕ :=
  digits.foldl (fun value u => base * value + (u.val - 48)) 0

theorem takeWhile_stop {p : Fin 65536 → Bool} {a b : JsString} (all : ∀ u ∈ a, p u)
    (stop : ∀ u, b.head? = some u → p u = false) :
    (a ++ b).takeWhile p = a ∧ (a ++ b).dropWhile p = b := by
  rw [takeWhile_append_of_pos all, dropWhile_append_of_pos all]
  cases b with
  | nil => simp
  | cons u b => simp [stop u rfl]

section

variable {base n : ℕ} (large : 1 < base) (small : base ≤ 10)

include large small

theorem mem_toDigits {c : Char}
    (mem : c ∈ Nat.toDigits base n) : 48 ≤ c.toNat ∧ c.toNat < 48 + base := by
  induction n using Nat.base_induction base large with
  | single m below =>
    rw [Nat.toDigits_of_lt_base below, mem_singleton] at mem
    rw [mem, Nat.toNat_digitChar_of_lt_ten (by omega)]
    omega
  | digit m k below positive ih =>
    rw [← Nat.toDigits_append_toDigits large positive below, mem_append] at mem
    rcases mem with mem | mem
    · exact ih mem
    · rw [Nat.toDigits_of_lt_base below, mem_singleton] at mem
      rw [mem, Nat.toNat_digitChar_of_lt_ten (by omega)]
      omega

theorem toDigits_units : ((Nat.toDigits base n).flatMap codeUnits).map Fin.val =
      (Nat.toDigits base n).map Char.toNat := by
  apply map_val_codeUnits
  intro c mem
  have := mem_toDigits large small mem
  omega

theorem mem_digits {u : Fin 65536}
    (mem : u ∈ (Nat.toDigits base n).flatMap codeUnits) : 48 ≤ u.val ∧ u.val < 48 + base := by
  have value := List.mem_map_of_mem (f := Fin.val) mem
  rw [toDigits_units large small] at value
  obtain ⟨c, digit, same⟩ := List.mem_map.mp value
  rw [← same]
  exact mem_toDigits large small digit

theorem length_digits :
    ((Nat.toDigits base n).flatMap codeUnits).length = (Nat.toDigits base n).length := by
  have lengths := congrArg List.length (toDigits_units (n := n) large small)
  simpa only [length_map] using lengths

/-- A numeral is read back. -/
theorem parseDigits_zeros (zeros : ℕ) :
    parseDigits base (List.replicate zeros digitZero ++ (Nat.toDigits base n).flatMap codeUnits) =
      n := by
  have values : ∀ (s : JsString) (start : ℕ),
      s.foldl (fun value u => base * value + (u.val - 48)) start =
        (s.map Fin.val).foldl (fun value d => base * value + (d - 48)) start := by
    intro s start
    rw [foldl_map]
  have chars := Nat.ofDigitChars_toDigits (n := n) large small
  rw [Nat.ofDigitChars_eq_foldl] at chars
  rw [parseDigits, foldl_append]
  have none : (List.replicate zeros digitZero).foldl
      (fun value u => base * value + (u.val - 48)) 0 = 0 := by
    induction zeros with
    | zero => rfl
    | succ zeros ih => exact ih
  rw [none, values, toDigits_units large small, foldl_map]
  exact chars

end

theorem parseDigits_decimal (n : ℕ) : parseDigits 10 (decimal n) = n :=
  parseDigits_zeros (by decide) (by decide) 0

theorem mem_decimal_isDigit {n : ℕ} {u : Fin 65536} (mem : u ∈ decimal n) : isDigit u := by
  have := mem_digits (by decide) (by decide) mem
  simp only [isDigit, Bool.and_eq_true, decide_eq_true_eq]
  omega

theorem decimal_ne_nil (n : ℕ) : decimal n ≠ [] := by
  intro empty
  have lengths : (decimal n).length = (Nat.toDigits 10 n).length :=
    length_digits (by decide) (by decide)
  have positive := Nat.length_toDigits_pos (n := n) (b := 10)
  rw [empty, length_nil] at lengths
  omega

end Netcatty
