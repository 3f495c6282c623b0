import Netcatty.LogScreen

/-!
Glyphs of two cells in a line.

A glyph of two cells is a cell of width 2 and a continuation cell behind it.  Everything the
renderer writes keeps the two together, but a zero-width character in the first column.
-/

namespace Netcatty.TerminalLog

open List Option Bool

def isDouble (cell : Option Cell) : Bool := (cell.bind Cell.width) = some 2

def isContinuation (cell : Option Cell) : Bool := cell.any Cell.continuation

/-- A cell of width 2 is followed by one continuation cell, and no other is. -/
structure Paired (cells : List Cell) : Prop where
  first : isContinuation cells[0]? = false
  next : ∀ i : ℕ, isDouble cells[i]? = isContinuation cells[i + 1]?
  apart : ∀ i : ℕ, isDouble cells[i]? = true → isContinuation cells[i]? = false

/-- No part of a glyph of two cells. -/
structure IsSingle (cell : Option Cell) : Prop where
  double : isDouble cell = false
  continuation : isContinuation cell = false

theorem isSingle_none : IsSingle none := ⟨rfl, rfl⟩

theorem isSingle_blank : IsSingle (some blankCell) := ⟨rfl, rfl⟩

/-! ## Cells of a line -/

variable {cells : List Cell}

theorem getElem?_putCell {column : ℕ} (within : column ≤ cells.length) (cell : Cell)
    (i : ℕ) : (putCell cells column cell)[i]? = if i = column then some cell else cells[i]? := by
  unfold putCell
  split
  · rename_i inside
    rw [getElem?_set]
    by_cases same : column = i
    · rw [if_pos same, if_pos same.symm, if_pos (same ▸ inside)]
    · rw [if_neg same, if_neg fun other => same other.symm]
  · have last : column = cells.length := by omega
    rw [getElem?_append, last]
    by_cases same : i = cells.length
    · rw [if_pos same, if_neg (by omega), same, Nat.sub_self]
      rfl
    · rw [if_neg same]
      split
      · rfl
      · rename_i outside
        rw [getElem?_eq_none (by rw [length_singleton]; omega),
          getElem?_eq_none (by omega)]

theorem length_putCell {column : ℕ} (within : column ≤ cells.length) (cell : Cell) :
    (putCell cells column cell).length = max cells.length (column + 1) := by
  unfold putCell
  split
  · rw [length_set]
    omega
  · rw [length_append, length_singleton]
    omega

theorem lt_length_of_isContinuation {i : ℕ}
    (continued : isContinuation cells[i]?) : i < cells.length := by
  by_contra outside
  rw [getElem?_eq_none (by omega)] at continued
  cases continued

namespace Paired

theorem nil : Paired [] := ⟨rfl, fun _ => rfl, fun _ _ => rfl⟩

section

variable (paired : Paired cells)
include paired

/-- A cell that is no part of a glyph of two cells in the place of another. -/
theorem put_single {column : ℕ}
    (within : column ≤ cells.length) (before : IsSingle cells[column]?) {cell : Cell}
    (single : IsSingle (some cell)) : Paired (putCell cells column cell) := by
  have get := getElem?_putCell within cell
  refine ⟨?_, fun i => ?_, fun i double => ?_⟩
  · rw [get]
    split
    · exact single.continuation
    · exact paired.first
  · rw [get, get]
    by_cases here : i = column
    · rw [if_pos here, if_neg (by omega), single.double, ← paired.next, here, before.double]
    · rw [if_neg here]
      by_cases there : i + 1 = column
      · rw [if_pos there, single.continuation, paired.next, there, before.continuation]
      · rw [if_neg there, paired.next]
  · rw [get] at double ⊢
    split
    · exact single.continuation
    · rename_i other
      rw [if_neg other] at double
      exact paired.apart i double

theorem put_same {column : ℕ} {before cell : Cell}
    (held : cells[column]? = some before) (width : cell.width = before.width)
    (continuation : cell.continuation = before.continuation) : Paired (putCell cells column cell) := by
  have inside : column < cells.length := (List.getElem?_eq_some_iff.mp held).1
  have get := getElem?_putCell inside.le cell
  have double : ∀ i : ℕ, isDouble (putCell cells column cell)[i]? = isDouble cells[i]? := by
    intro i
    rw [get]
    split
    · rename_i same
      simp only [isDouble, same, held, bind_some, width]
    · rfl
  have continued : ∀ i : ℕ, isContinuation (putCell cells column cell)[i]? =
      isContinuation cells[i]? := by
    intro i
    rw [get]
    split
    · rename_i same
      simp only [isContinuation, same, held, any_some, continuation]
    · rfl
  refine ⟨(continued 0).trans paired.first, fun i => ?_, fun i held => ?_⟩
  · rw [double, continued, paired.next]
  · rw [double] at held
    rw [continued, paired.apart i held]

theorem put_double {column : ℕ} (within : column ≤ cells.length) (here : IsSingle cells[column]?)
    (there : IsSingle cells[column + 1]?) {glyph rest : Cell} (double : isDouble (some glyph))
    (begins : isContinuation (some glyph) = false) (ends : isDouble (some rest) = false)
    (continued : isContinuation (some rest)) :
    Paired (putCell (putCell cells column glyph) (column + 1) rest) := by
  have within' : column + 1 ≤ (putCell cells column glyph).length := by
    rw [length_putCell within]
    omega
  have get : ∀ i : ℕ, (putCell (putCell cells column glyph) (column + 1) rest)[i]? =
      if i = column + 1 then some rest else if i = column then some glyph else cells[i]? := by
    intro i
    rw [getElem?_putCell within', getElem?_putCell within]
  refine ⟨?_, fun i => ?_, fun i held => ?_⟩
  · rw [get, if_neg (by omega)]
    split
    · exact begins
    · exact paired.first
  · rw [get, get]
    by_cases first : i = column
    · rw [if_neg (by omega), if_pos first, if_pos (by omega), double, continued]
    by_cases second : i = column + 1
    · rw [if_pos second, if_neg (by omega), if_neg (by omega), ends, ← paired.next, second, there.double]
    rw [if_neg second, if_neg first, if_neg (by omega)]
    by_cases before : i + 1 = column
    · rw [if_pos before, begins, paired.next, before, here.continuation]
    · rw [if_neg before, paired.next]
  · rw [get] at held ⊢
    by_cases second : i = column + 1
    · rw [if_pos second, ends] at held
      cases held
    rw [if_neg second] at held ⊢
    by_cases first : i = column
    · rw [if_pos first, begins]
    · rw [if_neg first] at held ⊢
      exact paired.apart i held

theorem blank_glyph {start : ℕ} (double : isDouble cells[start]?) :
    Paired (putCell (putCell cells start blankCell) (start + 1) blankCell) ∧
      (putCell (putCell cells start blankCell) (start + 1) blankCell).length = cells.length ∧
      ∀ i : ℕ, (putCell (putCell cells start blankCell) (start + 1) blankCell)[i]? =
        if i = start ∨ i = start + 1 then some blankCell else cells[i]? := by
  have continued : isContinuation cells[start + 1]? = true := paired.next start ▸ double
  have inside := lt_length_of_isContinuation continued
  have within : start ≤ cells.length := by omega
  have length : (putCell cells start blankCell).length = cells.length := by
    rw [length_putCell within]
    omega
  have get : ∀ i : ℕ, (putCell (putCell cells start blankCell) (start + 1) blankCell)[i]? =
      if i = start ∨ i = start + 1 then some blankCell else cells[i]? := by
    intro i
    rw [getElem?_putCell (by omega), getElem?_putCell within]
    by_cases second : i = start + 1
    · rw [if_pos second, if_pos (.inr second)]
    · by_cases first : i = start
      · rw [if_neg second, if_pos first, if_pos (.inl first)]
      · rw [if_neg second, if_neg first, if_neg (by omega)]
  refine ⟨⟨?_, fun i => ?_, fun i held => ?_⟩, ?_, get⟩
  · rw [get]
    split
    · rfl
    · exact paired.first
  · rw [get, get]
    by_cases first : i = start
    · rw [if_pos (.inl first), if_pos (.inr (by omega))]
      rfl
    by_cases second : i = start + 1
    · have none_ : isDouble cells[start + 1]? = false := by
        rw [← not_eq_true]
        exact fun held => Bool.noConfusion ((paired.apart _ held).symm.trans continued)
      rw [if_pos (.inr second), if_neg (by omega), ← paired.next, second, none_]
      rfl
    rw [if_neg (by omega)]
    by_cases before : i + 1 = start
    · rw [if_pos (.inl before), paired.next, before, paired.apart start double]
      rfl
    · rw [if_neg (by omega), paired.next]
  · rw [get] at held ⊢
    split
    · rfl
    · rename_i other
      rw [if_neg other] at held
      exact paired.apart i held
  · rw [length_putCell (by omega), length]
    omega

theorem take {n : ℕ} (whole : isContinuation cells[n]? = false) : Paired (cells.take n) := by
  refine ⟨?_, fun i => ?_, fun i double => ?_⟩
  · rw [getElem?_take]
    split
    · exact paired.first
    · rfl
  · rw [getElem?_take, getElem?_take]
    by_cases inside : i + 1 < n
    · rw [if_pos inside, if_pos (by omega), paired.next]
    · rw [if_neg inside]
      by_cases last : i < n
      · have same : i + 1 = n := by omega
        rw [if_pos last, paired.next, same, whole]
        rfl
      · rw [if_neg last]
        rfl
  · rw [getElem?_take] at double ⊢
    split
    · rename_i inside
      rw [if_pos inside] at double
      exact paired.apart i double
    · rfl

theorem pad (n : ℕ) : Paired (cells ++ List.replicate n blankCell) := by
  induction n generalizing cells with
  | zero => rwa [replicate_zero, append_nil]
  | succ n ih =>
    have one : putCell cells cells.length blankCell = cells ++ [blankCell] := if_neg (lt_irrefl _)
    have single : IsSingle cells[cells.length]? := by
      rw [getElem?_eq_none le_rfl]
      exact isSingle_none
    have longer := ih (one ▸ paired.put_single le_rfl single isSingle_blank)
    rwa [append_assoc, singleton_append, ← replicate_succ] at longer

end

end Paired

/-! ## Clearing and writing -/

/-- The line with the glyph at a column cleared. -/
structure Cleared (cells cleared : List Cell) (column : ℕ) : Prop where
  paired : Paired cleared
  length : cleared.length = cells.length
  single : IsSingle cleared[column]?
  others : ∀ i : ℕ, IsSingle cells[i]? → IsSingle cleared[i]?

theorem clearWideCellAt_cleared (paired : Paired cells) (column : ℕ) :
    Cleared cells (clearWideCellAt cells column) column := by
  unfold clearWideCellAt
  dsimp only
  -- the glyph, where the column is part of one
  have glyph : ∀ start : ℕ, isDouble cells[start]? = true → column = start ∨ column = start + 1 →
      Cleared cells (putCell (putCell cells start blankCell) (start + 1) blankCell) column := by
    intro start double here
    obtain ⟨kept, length, get⟩ := paired.blank_glyph double
    refine ⟨kept, length, ?_, fun i single => ?_⟩
    · rw [get, if_pos here]
      exact isSingle_blank
    · rw [get]
      split
      · exact isSingle_blank
      · exact single
  cases continued : isContinuation cells[column]? with
  | true =>
    have positive : column ≠ 0 := by
      intro none_
      rw [none_, paired.first] at continued
      cases continued
    have behind : column - 1 + 1 = column := by omega
    have double : isDouble cells[column - 1]? = true := by rw [paired.next, behind, continued]
    have continued' : cells[column]?.any Cell.continuation = true := continued
    have double' : cells[column - 1]?.bind Cell.width = some 2 := of_decide_eq_true double
    simp only [continued', if_true, double']
    exact glyph (column - 1) double (.inr behind.symm)
  | false =>
    have continued' : cells[column]?.any Cell.continuation = false := continued
    simp only [continued', false_eq_true, if_false]
    cases double : isDouble cells[column]? with
    | true =>
      have double' : cells[column]?.bind Cell.width = some 2 := of_decide_eq_true double
      simp only [double', if_true]
      exact glyph column double (.inl rfl)
    | false =>
      have double' : ¬cells[column]?.bind Cell.width = some 2 := of_decide_eq_false double
      simp only [double', if_false]
      exact ⟨paired, rfl, ⟨double, continued⟩, fun i single => single⟩

theorem writeGlyph_paired (paired : Paired cells) {column width : ℕ}
    (within : column ≤ cells.length) (kind : width = 1 ∨ width = 2) (style : Style) (ch : JsString) :
    Paired (writeGlyph style width cells column ch) ∧
      column + width ≤ (writeGlyph style width cells column ch).length := by
  have first := clearWideCellAt_cleared paired column
  unfold writeGlyph
  dsimp only
  rcases kind with rfl | rfl
  · have one : (List.range 1).foldl (fun cells offset => clearWideCellAt cells (column + offset)) cells =
        clearWideCellAt cells column := rfl
    rw [one, if_neg (by decide)]
    refine ⟨first.paired.put_single (first.length ▸ within) first.single ⟨rfl, rfl⟩, ?_⟩
    rw [length_putCell (first.length ▸ within)]
    exact le_max_right _ _
  · have two : (List.range 2).foldl (fun cells offset => clearWideCellAt cells (column + offset)) cells =
        clearWideCellAt (clearWideCellAt cells column) (column + 1) := rfl
    have second := clearWideCellAt_cleared first.paired (column + 1)
    have within' : column ≤ (clearWideCellAt (clearWideCellAt cells column) (column + 1)).length := by
      rw [second.length, first.length]
      exact within
    rw [two, if_pos rfl]
    refine ⟨second.paired.put_double within' (second.others column first.single) second.single rfl rfl
      rfl rfl, ?_⟩
    rw [length_putCell (by rw [length_putCell within']; omega)]
    exact le_max_right _ _

/-- A zero-width character keeps glyphs whole, if the first column is not one of two cells. -/
theorem writeZeroWidth_paired (paired : Paired cells) {column : ℕ}
    (within : column ≤ cells.length) (start : column = 0 → isDouble cells[0]? = false) (style : Style)
    (ch : JsString) :
    Paired (writeZeroWidth style cells column ch) ∧
      column ≤ (writeZeroWidth style cells column ch).length := by
  unfold writeZeroWidth
  have found : column ≠ 0 → ∃ previous cell, previousCell cells column = some previous ∧
      cells[previous]? = some cell := by
    intro positive
    have held : ∀ i : ℕ, i < cells.length → ∃ cell, cells[i]? = some cell := fun i inside =>
      ⟨cells[i], getElem?_eq_getElem inside⟩
    unfold previousCell
    rw [if_neg positive]
    cases continued : isContinuation cells[column - 1]? with
    | true =>
      have far : column ≠ 1 := by
        intro one
        rw [one, Nat.sub_self, paired.first] at continued
        cases continued
      obtain ⟨cell, at_⟩ := held (column - 2) (by omega)
      have continued' : cells[column - 1]?.any Cell.continuation = true := continued
      refine ⟨column - 2, cell, ?_, at_⟩
      simp only [continued', if_true, far, if_false]
    | false =>
      obtain ⟨cell, at_⟩ := held (column - 1) (by omega)
      have continued' : cells[column - 1]?.any Cell.continuation = false := continued
      refine ⟨column - 1, cell, ?_, at_⟩
      simp only [continued', false_eq_true, if_false]
  by_cases first : column = 0
  · have none_ : previousCell cells column = none := if_pos first
    rw [none_, bind_none]
    dsimp only
    have single : IsSingle cells[column]? := by
      rw [first]
      exact ⟨start first, paired.first⟩
    refine ⟨paired.put_single within single ⟨rfl, rfl⟩, ?_⟩
    rw [length_putCell within]
    omega
  · obtain ⟨previous, cell, at_, held⟩ := found first
    rw [at_, bind_some, held, map_some]
    dsimp only
    refine ⟨paired.put_same held rfl rfl, ?_⟩
    rw [length_putCell (List.getElem?_eq_some_iff.mp held).1.le]
    omega

theorem widthOf_cases (classes : UnicodeClasses) (codePoint : ℕ) :
    widthOf classes codePoint = 0 ∨ widthOf classes codePoint = 1 ∨ widthOf classes codePoint = 2 := by
  unfold widthOf
  dsimp only
  split
  · exact .inl rfl
  · split
    · exact .inr (.inr rfl)
    · exact .inr (.inl rfl)

theorem writeCharacter_paired {classes : UnicodeClasses} {style : Style} {cells : List Cell}
    {column : ℕ} {ch : JsString} (paired : Paired cells) (within : column ≤ cells.length)
    (start : widthOf classes (codePointAt ch) = 0 → column = 0 → isDouble cells[0]? = false) :
    Paired (writeCharacter classes style (cells, column) ch).1 ∧
      (writeCharacter classes style (cells, column) ch).2 ≤
        (writeCharacter classes style (cells, column) ch).1.length := by
  unfold writeCharacter
  dsimp only
  rcases widthOf_cases classes (codePointAt ch) with zero | some_
  · rw [if_pos zero]
    exact writeZeroWidth_paired paired within (start zero) style ch
  · rw [if_neg (by omega)]
    exact writeGlyph_paired paired within some_ style ch

theorem writeCharacters_paired {classes : UnicodeClasses} {style : Style} {chars : List JsString}
    (visible : ∀ ch ∈ chars, widthOf classes (codePointAt ch) ≠ 0) {state : List Cell × ℕ}
    (paired : Paired state.1) (within : state.2 ≤ state.1.length) :
    Paired (chars.foldl (writeCharacter classes style) state).1 := by
  induction chars generalizing state with
  | nil => exact paired
  | cons ch chars ih =>
    have own := visible ch mem_cons_self
    obtain ⟨cells, column⟩ := state
    obtain ⟨paired', within'⟩ :=
      @writeCharacter_paired classes style cells column ch paired within fun zero => absurd zero own
    exact ih (fun other mem => visible other (mem_cons_of_mem _ mem)) paired' within'

theorem blankAt_paired (paired : Paired cells) {column : ℕ} (inside : column < cells.length) :
    Paired (LogScreen.blankAt cells column) ∧ (LogScreen.blankAt cells column).length = cells.length := by
  have cleared := clearWideCellAt_cleared paired column
  have within : column ≤ (clearWideCellAt cells column).length := by
    rw [cleared.length]
    exact inside.le
  refine ⟨cleared.paired.put_single within cleared.single isSingle_blank, ?_⟩
  unfold LogScreen.blankAt
  rw [length_putCell within, cleared.length]
  omega

theorem blanked_paired (paired : Paired cells) {n : ℕ} (within : n ≤ cells.length) :
    Paired ((List.range n).foldl LogScreen.blankAt cells) ∧
      ((List.range n).foldl LogScreen.blankAt cells).length = cells.length := by
  induction n with
  | zero => exact ⟨paired, rfl⟩
  | succ n ih =>
    obtain ⟨before, length⟩ := ih (by omega)
    obtain ⟨after, same⟩ := @blankAt_paired _ before n (by omega)
    rw [range_succ, foldl_append]
    exact ⟨after, same.trans length⟩

end Netcatty.TerminalLog
