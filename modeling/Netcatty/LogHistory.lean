import Netcatty.LogCells
import Mathlib.Data.List.DropRight

/-!
The history of a session log.

The lines above `screenBaseRow` are what the log preserves.  Every drawing that stays inside
the buffer keeps them; a new screen and a committed one add lines below them, and a reset
takes trailing blank lines from the whole log.
-/

namespace Netcatty.TerminalLog

open List Option Bool

/-! ## Trailing blank lines -/

variable (lines : List LogLine)

theorem trimTrailingBlankLines_eq :
    trimTrailingBlankLines lines = lines.rdropWhile fun line => getTrimmedLineLength line = 0 := rfl

theorem trimTrailingBlankLines_isPrefix : trimTrailingBlankLines lines <+: lines :=
  List.rdropWhile_prefix _ _

theorem trimTrailingBlankLines_idem :
    trimTrailingBlankLines (trimTrailingBlankLines lines) = trimTrailingBlankLines lines :=
  rdropWhile_idempotent _ _

theorem trimTrailingBlankLines_mono {lines more : List LogLine} (extends_ : lines <+: more) :
    trimTrailingBlankLines lines <+: trimTrailingBlankLines more := by
  obtain ⟨rest, rfl⟩ := extends_
  induction rest using List.reverseRecOn with
  | nil => exact (append_nil lines).symm ▸ prefix_refl _
  | append_singleton rest line ih =>
    rw [← append_assoc, trimTrailingBlankLines_eq (lines ++ rest ++ [line]), rdropWhile_concat]
    split
    · exact ih
    · exact (trimTrailingBlankLines_isPrefix _).trans (by rw [append_assoc]; exact prefix_append _ _)

theorem exists_mem_trimTrailingBlankLines {lines : List LogLine}
    (content : ∃ line ∈ lines, 0 < getTrimmedLineLength line) :
    ∃ line ∈ trimTrailingBlankLines lines, 0 < getTrimmedLineLength line := by
  obtain ⟨line, mem, shown⟩ := content
  have kept : trimTrailingBlankLines lines ≠ [] := by
    intro none_
    have blank := (rdropWhile_eq_nil_iff ..).mp (trimTrailingBlankLines_eq lines ▸ none_) line mem
    have zero := of_decide_eq_true blank
    omega
  refine ⟨_, getLast_mem kept, ?_⟩
  have last := rdropWhile_last_not (fun line => getTrimmedLineLength line = 0) lines kept
  exact Nat.pos_of_ne_zero fun zero => last (decide_eq_true zero)

/-! ## Well-formed screens -/

def LogScreen.history (screen : LogScreen) : List LogLine := screen.lines.take screen.screenBaseRow

/-- The cursor is on a line of the screen, and every glyph of two cells is whole. -/
structure InBuffer (screen : LogScreen) : Prop where
  above : screen.screenBaseRow ≤ screen.row
  below : screen.row < screen.lines.length
  left : 0 ≤ screen.col
  paired : ∀ line ∈ screen.lines, Paired line.cells

/-- A screen that waits to be committed: it has text, and belongs below the history. -/
structure IsPending (screenBaseRow : ℕ) (pending : PendingScreen) : Prop where
  base : pending.baseRow = screenBaseRow
  paired : ∀ line ∈ pending.lines, Paired line.cells
  content : ∃ line ∈ pending.lines, 0 < getTrimmedLineLength line

structure Wellformed (screen : LogScreen) : Prop extends InBuffer screen where
  pending : ∀ pending, screen.pendingClearedScreen = some pending → IsPending screen.screenBaseRow pending
  content : screen.screenBaseRow ≠ 0 → ∃ line ∈ screen.history, 0 < getTrimmedLineLength line

/-- What one drawing may do to the lines. -/
inductive LogChange (before after : LogScreen) : Prop
  /-- Nothing above the screen. -/
  | onScreen (base : after.screenBaseRow = before.screenBaseRow) (same : after.history = before.history)
  /-- All lines become history. -/
  | newScreen (base : after.screenBaseRow = before.lines.length) (lines : after.lines = before.lines ++ [emptyLine])
  /-- The trimmed lines of the pending screen and a blank one, between history and screen. -/
  | committed (pending : PendingScreen) (held : before.pendingClearedScreen = some pending)
      (base : after.screenBaseRow = before.screenBaseRow + (trimTrailingBlankLines pending.lines).length + 1)
      (lines : after.lines = before.history ++ trimTrailingBlankLines pending.lines ++ [emptyLine] ++
        before.lines.drop before.screenBaseRow)

/-- What a full reset does: trailing blank lines go, what is left is history. -/
structure LogReset (before after : LogScreen) : Prop where
  lines : after.lines = trimTrailingBlankLines before.lines ++ [emptyLine]
  base : after.screenBaseRow = (trimTrailingBlankLines before.lines).length

/-- The drawing leaves the cursor in the buffer, and no glyph of two cells in part. -/
def StaysInside (classes : UnicodeClasses) (screen : LogScreen) : Drawing → Prop
  | .control final values =>
    (final.val = 'B'.toNat ∨ final.val = 'E'.toNat →
      screen.screenBaseRow ≤ screen.row + LogScreen.orOne (values.getD 0 none)) ∧
    (final.val = 'C'.toNat → 0 ≤ screen.col + LogScreen.orOne (values.getD 0 none))
  | .character ch =>
    isPrintable ch → widthOf classes (codePointAt ch) = 0 → screen.col = 0 →
      isDouble screen.currentLine.cells[0]? = false
  | _ => True

/-! ## Lines -/

theorem widthOf_space (classes : UnicodeClasses) : widthOf classes (codePointAt (text " ")) = 1 := by
  have space : codePointAt (text " ") = 32 := rfl
  have narrow : (inWidthRanges 32 fullwidthRanges || inWidthRanges 32 wideRanges) = false := by decide
  unfold widthOf
  simp [space, classes.space_visible.1, classes.space_visible.2, narrow]

theorem paired_emptyLine : Paired emptyLine.cells := Paired.nil

namespace LogScreen

theorem ensureLine_eq {screen : LogScreen} (below : screen.row < screen.lines.length) :
    screen.ensureLine = screen := by
  have none_ : (screen.row + 1 - screen.lines.length).toNat = 0 := by omega
  unfold ensureLine
  rw [none_, replicate_zero, append_nil]

theorem currentLine_mem {screen : LogScreen} (inside : InBuffer screen) :
    screen.currentLine ∈ screen.lines := by
  have above := inside.above
  have below := inside.below
  have bound : screen.row.toNat < screen.lines.length := by omega
  unfold currentLine
  rw [getD_eq_getElem?_getD, getElem?_eq_getElem bound]
  exact getElem_mem bound

theorem mem_blankLines {lines : List LogLine} {first last : ℕ} {line : LogLine}
    (mem : line ∈ blankLines lines first last) : line = emptyLine ∨ line ∈ lines := by
  obtain ⟨i, inside, same⟩ := mem_mapIdx.mp mem
  split at same
  · exact .inl same.symm
  · exact .inr (same ▸ getElem_mem inside)

theorem take_blankLines (first last : ℕ) :
    (blankLines lines first last).take first = lines.take first := by
  apply ext_getElem?
  intro i
  rw [getElem?_take, getElem?_take]
  split
  · rename_i inside
    unfold blankLines
    rw [getElem?_mapIdx]
    have other : ¬(first ≤ i ∧ i < last) := by omega
    simp only [other, if_false, Option.map_id']
  · rfl

theorem length_blankLines (first last : ℕ) :
    (blankLines lines first last).length = lines.length := length_mapIdx

end LogScreen

/-- What every drawing but a reset does to a well-formed screen. -/
structure KeepsHistory (before after : LogScreen) : Prop where
  formed : Wellformed after
  change : LogChange before after

theorem KeepsHistory.ite {before : LogScreen} {c : Prop} [Decidable c] {first second : LogScreen}
    (then_ : c → KeepsHistory before first) (else_ : ¬c → KeepsHistory before second) :
    KeepsHistory before (if c then first else second) := by
  split
  · exact then_ ‹c›
  · exact else_ ‹¬c›

/-- A step on the screen: the history and the pending screen are as before. -/
structure Touches (before after : LogScreen) : Prop where
  base : after.screenBaseRow = before.screenBaseRow
  same : after.history = before.history
  pending : after.pendingClearedScreen = before.pendingClearedScreen
  inside : InBuffer after

theorem Touches.trans {first second third : LogScreen} (former : Touches first second)
    (latter : Touches second third) : Touches first third :=
  ⟨latter.base.trans former.base, latter.same.trans former.same, latter.pending.trans former.pending,
    latter.inside⟩

theorem Wellformed.touch {before after : LogScreen} (formed : Wellformed before)
    (touches : Touches before after) : KeepsHistory before after := by
  obtain ⟨base, same, pending, inside⟩ := touches
  refine ⟨⟨inside, fun held waits => ?_, fun some_ => ?_⟩, .onScreen base same⟩
  · rw [pending] at waits
    rw [base]
    exact formed.pending held waits
  · rw [same]
    exact formed.content (base ▸ some_)

/-! ## Steps on the screen -/

namespace InBuffer

variable {screen : LogScreen}

section

variable (inside : InBuffer screen)
include inside

theorem move {row col : ℤ} (home : Bool) (above : screen.screenBaseRow ≤ row) (left : 0 ≤ col) :
    Touches screen
      ({ screen with row := row, col := col, cursorMovedHomeByCsi := home } : LogScreen).ensureLine := by
  have lower := inside.above
  have below := inside.below
  refine ⟨rfl, ?_, rfl, above, ?_, left, fun line mem => ?_⟩
  · have within : screen.screenBaseRow ≤ screen.lines.length := by omega
    exact take_append_of_le_length within
  · unfold LogScreen.ensureLine
    dsimp only
    rw [length_append, length_replicate]
    omega
  · rcases mem_append.mp mem with old | new
    · exact inside.paired line old
    · rw [eq_of_mem_replicate new]
      exact paired_emptyLine

theorem moveColumn {col : ℤ} (home : Bool) (left : 0 ≤ col) :
    Touches screen { screen with col := col, cursorMovedHomeByCsi := home } :=
  ⟨rfl, rfl, rfl, inside.above, inside.below, left, inside.paired⟩

/-- The line of the cursor replaced. -/
theorem setLine (line : LogLine) (paired : Paired line.cells) :
    Touches screen (screen.setCurrentLine line) := by
  have above := inside.above
  have below := inside.below
  refine ⟨rfl, ?_, rfl, above, ?_, inside.left, fun other mem => ?_⟩
  · have outside : screen.screenBaseRow ≤ screen.row.toNat := by omega
    exact take_set_of_le outside
  · unfold LogScreen.setCurrentLine
    rw [length_set]
    exact below
  · rcases mem_or_eq_of_mem_set mem with old | new
    · exact inside.paired other old
    · exact new ▸ paired

omit inside in
theorem writeText {classes : UnicodeClasses} (inside : InBuffer screen) {chars : List JsString}
    (whole : ∀ cells : List Cell, Paired cells → screen.col.toNat ≤ cells.length →
      (screen.col = 0 → cells[0]? = screen.currentLine.cells[0]?) →
      Paired (chars.foldl (writeCharacter classes screen.style) (cells, screen.col.toNat)).1) :
    Touches screen (screen.writeText classes chars) := by
  have padded := (inside.paired _ (LogScreen.currentLine_mem inside)).pad
    (screen.col.toNat - screen.currentLine.cells.length)
  have written := whole _ padded
    (by rw [length_append, length_replicate]; omega)
    (fun first => by rw [first, Int.toNat_zero, Nat.zero_sub, replicate_zero, append_nil])
  have set := inside.setLine ⟨_, screen.stamp screen.currentLine⟩ written
  unfold LogScreen.writeText
  rw [LogScreen.ensureLine_eq inside.below]
  exact ⟨rfl, set.same, rfl, inside.above, set.inside.below, Int.natCast_nonneg _, set.inside.paired⟩

theorem eraseLine (mode : ℤ) : Touches screen (screen.eraseLine mode) := by
  have paired := inside.paired _ (LogScreen.currentLine_mem inside)
  unfold LogScreen.eraseLine
  rw [LogScreen.ensureLine_eq inside.below]
  dsimp only
  split
  · exact inside.setLine _ (blanked_paired paired (min_le_right _ _)).1
  split
  · exact inside.setLine emptyLine paired_emptyLine
  · -- the cell at the cursor continues nothing once its glyph is cleared
    cases continued : isContinuation screen.currentLine.cells[screen.col.toNat]? with
    | true =>
      have cleared := clearWideCellAt_cleared paired screen.col.toNat
      have held : screen.currentLine.cells[screen.col.toNat]?.any Cell.continuation = true := continued
      simp only [held, if_true]
      exact inside.setLine _ (cleared.paired.take cleared.single.continuation)
    | false =>
      have held : screen.currentLine.cells[screen.col.toNat]?.any Cell.continuation = false := continued
      simp only [held, false_eq_true, if_false]
      exact inside.setLine _ (paired.take continued)

theorem blankLines (last : ℕ) : Touches screen
      { screen with lines := LogScreen.blankLines screen.lines screen.screenBaseRow last } := by
  refine ⟨rfl, LogScreen.take_blankLines _ _ _, rfl, inside.above, ?_, inside.left, fun line mem => ?_⟩
  · rw [LogScreen.length_blankLines]
    exact inside.below
  · rcases LogScreen.mem_blankLines mem with rfl | old
    · exact paired_emptyLine
    · exact inside.paired line old

theorem takeLines :
    Touches screen { screen with lines := screen.lines.take (screen.row.toNat + 1) } := by
  have above := inside.above
  have below := inside.below
  refine ⟨rfl, ?_, rfl, above, ?_, inside.left, fun line mem => inside.paired line (mem_of_mem_take mem)⟩
  · have least : min screen.screenBaseRow (screen.row.toNat + 1) = screen.screenBaseRow := by omega
    unfold LogScreen.history
    rw [take_take, least]
  · have kept : screen.row < (screen.lines.take (screen.row.toNat + 1)).length := by
      rw [length_take]
      omega
    exact kept

end

end InBuffer

/-! ## New screens -/

namespace Wellformed

variable {screen : LogScreen}

section

variable (formed : Wellformed screen)
include formed

theorem commit : KeepsHistory screen screen.commitPendingClearedScreen := by
  unfold LogScreen.commitPendingClearedScreen
  cases held : screen.pendingClearedScreen with
  | none => exact ⟨formed, .onScreen rfl rfl⟩
  | some pending =>
    have above := formed.above
    have below := formed.below
    obtain ⟨base, paired, content⟩ := formed.pending pending held
    have front : (screen.lines.take screen.screenBaseRow).length = screen.screenBaseRow := by
      rw [length_take]
      omega
    have active : (screen.lines.drop screen.screenBaseRow).isEmpty = false := by
      rw [isEmpty_eq_false_iff, ← length_pos_iff, length_drop]
      omega
    have grown := exists_mem_trimTrailingBlankLines content
    obtain ⟨pendingLines, same⟩ : ∃ lines, trimTrailingBlankLines pending.lines = lines := ⟨_, rfl⟩
    have trimmed : ∀ line ∈ pendingLines, Paired line.cells := fun line mem =>
      paired line ((trimTrailingBlankLines_isPrefix _).subset (same ▸ mem))
    rw [same] at grown
    have lines : (screen.buildLinesWithPendingClearedScreen pending) =
        (screen.history ++ pendingLines ++ [emptyLine] ++ screen.lines.drop screen.screenBaseRow,
          screen.screenBaseRow + pendingLines.length + 1) := by
      unfold LogScreen.buildLinesWithPendingClearedScreen LogScreen.history
      rw [base, same]
      dsimp only
      rw [active, front]
      rfl
    have long : (screen.history ++ pendingLines ++ [emptyLine]).length =
        screen.screenBaseRow + pendingLines.length + 1 := by
      rw [length_append, length_append, length_singleton, LogScreen.history, front]
    have total : (screen.history ++ pendingLines ++ [emptyLine] ++
        screen.lines.drop screen.screenBaseRow).length = screen.lines.length + pendingLines.length + 1 := by
      rw [length_append, long, length_drop]
      omega
    have history : (screen.history ++ pendingLines ++ [emptyLine] ++
        screen.lines.drop screen.screenBaseRow).take (screen.screenBaseRow + pendingLines.length + 1) =
          screen.history ++ pendingLines ++ [emptyLine] := by
      rw [← long, take_left]
    dsimp only
    rw [lines, base, LogScreen.ensureLine_eq (by dsimp only; omega)]
    refine ⟨⟨⟨?_, ?_, formed.left, fun line mem => ?_⟩, fun _ none_ => absurd none_.symm (some_ne_none _),
      fun _ => ?_⟩, .committed pending held (by rw [same]) (by rw [same])⟩
    · dsimp only
      omega
    · dsimp only
      omega
    · rcases mem_append.mp mem with front | active
      · rcases mem_append.mp front with front | single
        · rcases mem_append.mp front with old | new
          · exact formed.paired line (mem_of_mem_take old)
          · exact trimmed line new
        · rw [mem_singleton.mp single]
          exact paired_emptyLine
      · exact formed.paired line (mem_of_mem_drop active)
    · obtain ⟨line, mem, shown⟩ := grown
      have preserved : line ∈ screen.history ++ pendingLines ++ [emptyLine] :=
        mem_append_left _ (mem_append_right _ mem)
      rw [← history] at preserved
      exact ⟨line, preserved, shown⟩

theorem clear : KeepsHistory screen (screen.clearCurrentLogScreen true) := by
  have blanked := formed.toInBuffer.blankLines screen.lines.length
  have above := formed.above
  have same : max (screen.screenBaseRow : ℤ) screen.row = screen.row := max_eq_right above
  have inside := blanked.inside
  have whole := formed.pending
  unfold LogScreen.clearCurrentLogScreen
  dsimp only
  rw [LogScreen.ensureLine_eq (by rw [same]; exact inside.below)]
  refine ⟨⟨⟨le_max_left _ _, ?_, formed.left, inside.paired⟩, fun pending held => ?_, fun some_ => ?_⟩,
    .onScreen rfl blanked.same⟩
  · have below : screen.row < _ := inside.below
    rw [← same] at below
    exact below
  · dsimp only at held ⊢
    split at held
    · rename_i content
      rw [some_inj] at held
      subst held
      refine ⟨rfl, fun line mem => formed.paired line (mem_of_mem_drop mem), ?_⟩
      obtain ⟨line, mem, shown⟩ := List.any_eq_true.mp (and_eq_true_iff.mp content).2
      exact ⟨line, mem, of_decide_eq_true shown⟩
    · exact whole pending held
  · obtain ⟨line, mem, shown⟩ := formed.content some_
    exact ⟨line, blanked.same ▸ mem, shown⟩

omit formed in
theorem singleton_inBuffer {screen : LogScreen} {lines : List LogLine} (lines_ : screen.lines = lines ++ [emptyLine])
    (paired : ∀ line ∈ lines, Paired line.cells) (base : screen.screenBaseRow = lines.length)
    (row : screen.row = lines.length) (col : screen.col = 0) : InBuffer screen := by
  refine ⟨by omega, ?_, by omega, fun line mem => ?_⟩
  · rw [lines_, row, length_append, length_singleton]
    omega
  · rw [lines_] at mem
    rcases mem_append.mp mem with old | new
    · exact paired line old
    · rw [mem_singleton.mp new]
      exact paired_emptyLine

theorem startNew : KeepsHistory screen screen.startNewLogScreen := by
  unfold LogScreen.startNewLogScreen
  split
  · exact ⟨formed, .onScreen rfl rfl⟩
  cases content : screen.lines.any fun line => 0 < getTrimmedLineLength line with
  | true =>
    obtain ⟨line, mem, shown⟩ := List.any_eq_true.mp content
    simp only [if_true, length_append, length_singleton, Nat.add_sub_cancel]
    refine ⟨⟨singleton_inBuffer rfl formed.paired rfl ?_ rfl, fun _ none_ => absurd none_.symm (some_ne_none _), fun _ => ?_⟩,
      .newScreen rfl rfl⟩
    · dsimp only
      omega
    · refine ⟨line, ?_, of_decide_eq_true shown⟩
      unfold LogScreen.history
      rw [take_left]
      exact mem
  | false =>
    have base : screen.screenBaseRow = 0 := by
      by_contra some_
      obtain ⟨line, mem, shown⟩ := formed.content some_
      have blank := List.any_eq_false.mp content line (mem_of_mem_take mem)
      exact blank (decide_eq_true shown)
    simp only [false_eq_true, if_false, length_singleton, Nat.sub_self]
    refine ⟨⟨singleton_inBuffer (nil_append _).symm (fun _ mem => absurd mem not_mem_nil) rfl rfl rfl,
      fun _ none_ => absurd none_.symm (some_ne_none _), fun some_ => absurd rfl some_⟩,
      .onScreen base.symm ?_⟩
    unfold LogScreen.history
    rw [base, take_zero]
    rfl

theorem reset : Wellformed screen.applyRisReset ∧ LogReset screen screen.applyRisReset := by
  have kept := trimTrailingBlankLines_isPrefix screen.lines
  refine ⟨⟨singleton_inBuffer rfl (fun line mem => formed.paired line (kept.subset mem)) rfl rfl rfl,
    fun _ none_ => absurd none_.symm (some_ne_none _), fun some_ => ?_⟩, rfl, rfl⟩
  have filled : trimTrailingBlankLines screen.lines ≠ [] := fun none_ =>
    some_ (congrArg List.length none_)
  have last := rdropWhile_last_not (fun line => getTrimmedLineLength line = 0) screen.lines filled
  have history : screen.applyRisReset.history = trimTrailingBlankLines screen.lines :=
    take_left
  rw [history]
  exact ⟨_, getLast_mem filled, Nat.pos_of_ne_zero fun zero => last (decide_eq_true zero)⟩

/-! ## Every drawing -/

theorem erase (mode : ℤ) : KeepsHistory screen (screen.eraseDisplay mode) := by
  unfold LogScreen.eraseDisplay
  rw [LogScreen.ensureLine_eq formed.below]
  dsimp only
  split
  · exact formed.commit
  split
  · split
    · exact formed.clear
    · exact formed.startNew
  split
  · have blanked := formed.toInBuffer.blankLines screen.row.toNat
    exact formed.touch (blanked.trans (blanked.inside.eraseLine 1))
  split
  · exact formed.startNew
  · have erased := formed.toInBuffer.eraseLine 0
    exact formed.touch (erased.trans erased.inside.takeLines)

theorem applyCsi {classes : UnicodeClasses} {final : Fin 65536} {values : List (Option ℤ)}
    (inside : StaysInside classes screen (.control final values)) :
    KeepsHistory screen (screen.applyCsi final values) := by
  have buffer := formed.toInBuffer
  have left := buffer.left
  obtain ⟨down, right⟩ := inside
  unfold LogScreen.applyCsi
  dsimp only
  refine .ite (fun _ => formed.touch (buffer.move false (le_max_left _ _) left)) fun _ => ?_
  refine .ite (fun kind => formed.touch (buffer.move false (down (.inl kind)) left)) fun _ => ?_
  refine .ite (fun kind => formed.touch (buffer.move false (down (.inr kind)) le_rfl)) fun _ => ?_
  refine .ite (fun kind => formed.touch (buffer.moveColumn false (right kind))) fun _ => ?_
  refine .ite (fun _ => formed.touch (buffer.moveColumn false (le_max_left _ _))) fun _ => ?_
  refine .ite (fun _ => formed.touch (buffer.move false (le_max_left _ _) le_rfl)) fun _ => ?_
  refine .ite (fun _ => formed.touch (buffer.moveColumn false (le_max_left _ _))) fun _ => ?_
  refine .ite (fun _ => formed.touch (buffer.move _ (by omega) (le_max_left _ _))) fun _ => ?_
  refine .ite (fun _ => formed.erase _) fun _ => ?_
  refine .ite (fun _ => formed.touch (buffer.eraseLine _)) fun _ => ?_
  refine .ite (fun _ => formed.touch ?_) fun _ => ⟨formed, .onScreen rfl rfl⟩
  exact ⟨rfl, rfl, rfl, buffer.above, buffer.below, left, buffer.paired⟩

theorem apply {classes : UnicodeClasses} {drawing : Drawing}
    (inside : StaysInside classes screen drawing) (other : drawing ≠ .reset) :
    KeepsHistory screen (screen.apply classes drawing) := by
  have buffer := formed.toInBuffer
  have left := buffer.left
  have further : (screen.screenBaseRow : ℤ) ≤ screen.row + 1 := by
    have above := buffer.above
    omega
  cases drawing with
  | backspace => exact formed.touch (buffer.moveColumn screen.cursorMovedHomeByCsi (le_max_left _ _))
  | carriageReturn => exact formed.touch (buffer.moveColumn false le_rfl)
  | lineFeed => exact formed.touch (buffer.move false further le_rfl)
  | tab =>
    refine formed.touch (buffer.writeText fun cells paired within _ => ?_)
    refine writeCharacters_paired (fun ch mem => ?_) paired within
    rw [eq_of_mem_replicate mem, widthOf_space]
    exact Nat.one_ne_zero
  | character ch =>
    refine .ite (fun printable => formed.touch (buffer.writeText fun cells paired within same => ?_))
      fun _ => ⟨formed, .onScreen rfl rfl⟩
    refine (writeCharacter_paired paired within fun zero first => ?_).1
    have start : screen.col = 0 := by omega
    rw [same start]
    exact inside printable zero start
  | reset => exact absurd rfl other
  | control final values => exact formed.applyCsi inside

end

end Wellformed

end Netcatty.TerminalLog
