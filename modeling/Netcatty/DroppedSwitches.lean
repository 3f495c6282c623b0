import Netcatty.AltScreenWindows

/-!
What an overflow reports of the alternate-screen switches it cuts.

A drop looks at the first and the last units of what it removes, and at the first of
what stays.  It misses a switch that lies across the seam where the two windows just
meet, and reports an earlier one where the last is cut out of its sight; apart from
such drops it reports every loss (`inspectDrop_flags`), and the last switch it cut
(`inspectDrop_action`).
-/

namespace Netcatty.PtyOutput

open List Option

open OutputTrigger (TerminalAlternateScreenAction isFinal)

/-- Buffered output in front of and behind the cut. -/
structure Drop where
  dropped : JsString
  retained : JsString
  deriving DecidableEq

/-- What `inspectDroppedTerminalState` is given, and what it says. -/
def Drop.inspect (limit : ℕ) (drop : Drop) : OutputMeta :=
  inspectDroppedTerminalState (drop.dropped.take limit)
    (drop.dropped.drop (drop.dropped.length - limit)) (drop.retained.take limit) drop.dropped.length

/-- A whole switch stood in the buffer, and the drop takes at least its first unit. -/
structure Drop.Loses (drop : Drop) (front sequence : JsString) (action : TerminalAlternateScreenAction) :
    Prop where
  starts : front.length < drop.dropped.length
  switch : IsSwitch sequence action
  stands : ∃ rest, drop.dropped ++ drop.retained = front ++ (sequence ++ rest)

/-- The windows show the switches that the drop cuts. -/
structure Drop.Inspectable (limit : ℕ) (drop : Drop) : Prop where
  /-- No switch interrupts another control sequence. -/
  apart : ∀ {front sequence action}, drop.Loses front sequence action → ¬ EndsInCsi front
  /-- Where the two windows just meet, no switch starts at the last two units of the first one and in
  front of the second one. -/
  seam : ∀ {front sequence action}, drop.Loses front sequence action →
    drop.dropped.length ≤ 2 * limit → front.length + limit < drop.dropped.length →
    front.length + 3 ≤ limit
  /-- A switch across the cut ends in what is looked at behind it. -/
  reach : ∀ {front sequence action}, drop.Loses front sequence action →
    front.length + sequence.length ≤ drop.dropped.length + limit
  /-- Where the two windows differ and leave nothing out, the dropped text ends in no `ESC [ ?` sequence. -/
  closed : limit < drop.dropped.length → drop.dropped.length ≤ 2 * limit →
    ¬ EndsInPrivateMode drop.dropped

/-- The last switch that is cut. -/
structure Drop.LastLoss (drop : Drop) (front sequence : JsString) (action : TerminalAlternateScreenAction) :
    Prop extends drop.Loses front sequence action where
  latest : ∀ {front' sequence' action'}, drop.Loses front' sequence' action' →
    front'.length ≤ front.length

/-! ## Windows -/

variable {front sequence rest before window behind : JsString} {action : TerminalAlternateScreenAction}

theorem IsSwitch.length (switch : IsSwitch sequence action) : 4 ≤ sequence.length := by
  obtain ⟨params, final, rfl, -, -⟩ := switch.form
  simp only [length_append, length_singleton]
  have three : (text "\x1b[?").length = 3 := by decide
  omega

section

variable (same : before ++ (window ++ behind) = front ++ (sequence ++ rest))
  (starts : before.length ≤ front.length)
include same starts

theorem front_of_window :
    ∃ inner, front = before ++ inner ∧ window ++ behind = inner ++ (sequence ++ rest) := by
  have inside : before <+: front :=
    prefix_of_prefix_length_le (same ▸ prefix_append _ _) (prefix_append _ _) starts
  obtain ⟨inner, rfl⟩ := inside
  refine ⟨inner, rfl, ?_⟩
  rw [append_assoc] at same
  exact append_cancel_left same

/-- A switch that stands in a window. -/
theorem whole_in_window (stops : front.length + sequence.length ≤ before.length + window.length) :
    ∃ inner later, front = before ++ inner ∧ window = inner ++ (sequence ++ later) := by
  obtain ⟨inner, rfl, tail⟩ := front_of_window same starts
  rw [← append_assoc] at tail
  have inside : inner ++ sequence <+: window := by
    refine prefix_of_prefix_length_le (tail ▸ prefix_append _ _) (prefix_append _ behind) ?_
    simp only [length_append] at stops ⊢
    omega
  obtain ⟨later, rfl⟩ := inside
  exact ⟨inner, later, rfl, append_assoc _ _ _⟩

end

theorem part_in_window (switch : IsSwitch sequence action)
    (same : before ++ (window ++ behind) = front ++ (sequence ++ rest))
    (starts : before.length ≤ front.length) (three : front.length + 3 ≤ before.length + window.length)
    (cut : before.length + window.length < front.length + sequence.length) :
    ∃ inner params, front = before ++ inner ∧ window = inner ++ (text "\x1b[?" ++ params) ∧
      params.any isFinal = false := by
  obtain ⟨inner, rfl, tail⟩ := front_of_window same starts
  obtain ⟨params, final, rfl, none_, -⟩ := switch.form
  have width : (text "\x1b[?").length = 3 := by decide
  generalize text "\x1b[?" = mark at *
  have regrouped : window ++ behind = (inner ++ mark) ++ (params ++ (final :: rest)) := by
    rw [tail]
    simp only [append_assoc, cons_append, nil_append]
  have inside : inner ++ mark <+: window := by
    refine prefix_of_prefix_length_le (regrouped ▸ prefix_append _ _) (prefix_append _ behind) ?_
    simp only [length_append] at three ⊢
    omega
  obtain ⟨shown, rfl⟩ := inside
  rw [append_assoc] at regrouped
  have front' : shown <+: params := by
    have later := append_cancel_left regrouped
    refine prefix_of_prefix_length_le (later ▸ prefix_append _ _) (prefix_append _ _) ?_
    simp only [length_append, length_singleton] at cut
    omega
  refine ⟨inner, shown, rfl, append_assoc _ _ _, ?_⟩
  rw [List.any_eq_false] at none_ ⊢
  exact fun u mem => none_ u (front'.subset mem)

/-- **A window shows three units of a switch**: its scan finds something. -/
theorem window_alarmed (switch : IsSwitch sequence action) (apart : ¬ EndsInCsi front)
    (same : before ++ (window ++ behind) = front ++ (sequence ++ rest))
    (starts : before.length ≤ front.length) (three : front.length + 3 ≤ before.length + window.length) :
    (inspectAlternateScreenWindow window).finalAction.isSome ∨
      (inspectAlternateScreenWindow window).hasIncompleteSequence := by
  have apart' : ∀ inner, front = before ++ inner → ¬ EndsInCsi inner := by
    rintro inner rfl ends
    exact apart (ends.of_suffix (suffix_append _ _))
  by_cases whole : front.length + sequence.length ≤ before.length + window.length
  · obtain ⟨inner, later, split, rfl⟩ := whole_in_window same starts whole
    obtain ⟨hasIncomplete, noted⟩ := inspectWindow_switch ⟨false, none, false⟩ later
      (apart' inner split) switch
    rw [inspectAlternateScreenWindow, noted]
    exact inspectWindow_alarmed _ (.inl rfl)
  · obtain ⟨inner, params, split, rfl, none_⟩ :=
      part_in_window switch same starts three (Nat.lt_of_not_le whole)
    exact .inr (inspectWindow_cut (apart' inner split) none_).1

/-! ## What a drop reports -/

variable {limit : ℕ} {drop : Drop}

/-- The window behind the head starts here. -/
def Drop.seamAt (limit : ℕ) (drop : Drop) : JsString :=
  drop.dropped.take (drop.dropped.length - limit)

section

variable (limit : ℕ) (drop : Drop)

theorem Drop.length_seamAt : (drop.seamAt limit).length = drop.dropped.length - limit := by
  rw [seamAt, length_take]
  omega

/-- The three windows in the buffered text. -/
theorem Drop.head_eq :
    [] ++ (drop.dropped.take limit ++ (drop.dropped.drop limit ++ drop.retained)) =
      drop.dropped ++ drop.retained := by
  rw [nil_append, ← append_assoc, take_append_drop]

theorem Drop.tail_eq :
    drop.seamAt limit ++ (drop.dropped.drop (drop.dropped.length - limit) ++ drop.retained) =
      drop.dropped ++ drop.retained := by
  rw [seamAt, ← append_assoc, take_append_drop]

theorem Drop.across_eq :
    drop.seamAt limit ++ ((drop.dropped.drop (drop.dropped.length - limit) ++ drop.retained.take limit) ++
      drop.retained.drop limit) = drop.dropped ++ drop.retained := by
  rw [append_assoc, take_append_drop, tail_eq]

end

/-- Too much was dropped for the two windows. -/
def Drop.hasUninspectedMiddle (limit : ℕ) (drop : Drop) : Bool :=
  (drop.dropped.take limit).length +
    (if drop.dropped.drop (drop.dropped.length - limit) = drop.dropped.take limit then 0
      else (drop.dropped.drop (drop.dropped.length - limit)).length) < drop.dropped.length

theorem Drop.length_le_of_inspected (inspected : drop.hasUninspectedMiddle limit = false) :
    drop.dropped.length ≤ 2 * limit := by
  simp only [hasUninspectedMiddle, decide_eq_false_iff_not, length_take, length_drop] at inspected
  split at inspected
  · omega
  · omega

/-- **Every drop that cuts a switch in sight is flagged.** -/
theorem Drop.inspect_flags (wide : 3 ≤ limit) (inspectable : drop.Inspectable limit)
    (loses : drop.Loses front sequence action) :
    (drop.inspect limit).droppedOutputMayAffectTerminalState := by
  obtain ⟨rest, stands⟩ := loses.stands
  have starts := loses.starts
  have some_ : drop.dropped.length ≠ 0 := by omega
  have apart := inspectable.apart loses
  have flag : (drop.inspect limit).droppedOutputMayAffectTerminalState =
      ((inspectAlternateScreenWindow (drop.dropped.take limit)).hasIncompleteSequence ||
        (inspectAlternateScreenWindow (drop.dropped.drop (drop.dropped.length - limit) ++
          drop.retained.take limit)).hasIncompleteSequence ||
        drop.hasUninspectedMiddle limit ||
        (inspectAlternateScreenWindow (drop.dropped.take limit)).finalAction.isSome ||
        (inspectAlternateScreenWindow (drop.dropped.drop (drop.dropped.length - limit))).finalAction.isSome ||
        (inspectAlternateScreenSequenceStartedBeforeBoundary (drop.dropped.drop (drop.dropped.length - limit) ++
          drop.retained.take limit) (drop.dropped.drop (drop.dropped.length - limit)).length).mayAffectTerminalState ||
        (inspectAlternateScreenWindow (drop.dropped.drop (drop.dropped.length - limit) ++
          drop.retained.take limit)).finalAction.isSome) := by
    rw [inspect, inspectDroppedTerminalState, if_neg some_]
    rfl
  rw [flag]
  cases middle : drop.hasUninspectedMiddle limit with
  | true => simp
  | false =>
    have short := drop.length_le_of_inspected middle
    have seam := drop.length_seamAt limit
    have four := loses.switch.length
    have total := congrArg List.length stands
    simp only [length_append] at total
    by_cases late : drop.dropped.length - limit ≤ front.length
    · have alarmed := window_alarmed loses.switch apart (drop.across_eq limit ▸ stands) (by omega) (by
        simp only [length_append, length_drop, length_take]
        omega)
      rcases alarmed with final | cut
      · simp [final]
      · simp [cut]
    · have sight := inspectable.seam loses short (by omega)
      have alarmed := window_alarmed loses.switch apart (drop.head_eq limit ▸ stands) (by simp) (by
        simp only [length_nil, length_take]
        omega)
      rcases alarmed with final | cut
      · simp [final]
      · simp [cut]

/-! ## Which action a drop reports -/

theorem Drop.loses_of_holds (same : before ++ (window ++ behind) = drop.dropped ++ drop.retained)
    (inside : before.length + window.length ≤ drop.dropped.length) (holds : Holds window action) :
    ∃ front sequence, drop.Loses front sequence action ∧ before.length ≤ front.length := by
  obtain ⟨front, sequence, rest, rfl, switch⟩ := holds
  have four := switch.length
  refine ⟨before ++ front, sequence, ⟨?_, switch, rest ++ behind, ?_⟩, ?_⟩
  · simp only [length_append] at inside ⊢
    omega
  · rw [← same]
    simp only [append_assoc]
  · simp only [length_append]
    omega

theorem Drop.loses_of_holdsAcross {cut : ℕ} (same : before ++ (window ++ behind) = drop.dropped ++ drop.retained)
    (here : before.length + cut = drop.dropped.length) (holds : HoldsAcross cut window action) :
    ∃ front sequence, drop.Loses front sequence action ∧ before.length ≤ front.length ∧
      drop.dropped.length < front.length + sequence.length := by
  obtain ⟨front, sequence, rest, rfl, switch, starts, stops⟩ := holds
  refine ⟨before ++ front, sequence, ⟨?_, switch, rest ++ behind, ?_⟩, ?_, ?_⟩
  · simp only [length_append]
    omega
  · rw [← same]
    simp only [append_assoc]
  · simp only [length_append]
    omega
  · simp only [length_append]
    omega

theorem IsSwitch.escape_inside {front later : JsString} (switch : IsSwitch (front ++ escapeUnit :: later) action)
    (inside : front ≠ []) : ∃ next rest, later = next :: rest ∧ next ≠ openBracket := by
  obtain ⟨params, final, same, none_, letter⟩ := switch.form
  have lettered : final ≠ escapeUnit ∧ final ≠ openBracket := by
    constructor
    · rintro rfl
      exact absurd letter (by decide)
    · rintro rfl
      exact absurd letter (by decide)
  obtain _ | ⟨first, _ | ⟨second, _ | ⟨third, front⟩⟩⟩ := front
  · exact absurd rfl inside
  · exact absurd (List.cons.inj (List.cons.inj same).2).1 (by decide)
  · exact absurd (List.cons.inj (List.cons.inj (List.cons.inj same).2).2).1 (by decide)
  have body : front ++ escapeUnit :: later = params ++ [final] :=
    (List.cons.inj (List.cons.inj (List.cons.inj same).2).2).2
  cases later with
  | nil =>
    have last : escapeUnit = final := (append_inj' body rfl).2 |> singleton_inj.mp
    exact absurd last.symm lettered.1
  | cons next rest =>
    refine ⟨next, rest, rfl, ?_⟩
    rintro rfl
    have mem : openBracket ∈ params ++ [final] := by simp [← body]
    rcases mem_append.mp mem with mem | mem
    · exact List.any_eq_false.mp none_ _ mem (by decide)
    · exact lettered.2 (mem_singleton.mp mem).symm

section

variable {front' sequence' : JsString} {action' : TerminalAlternateScreenAction}
    (loses : drop.Loses front sequence action) (loses' : drop.Loses front' sequence' action')

include loses loses'

theorem Drop.Loses.disjoint
    (earlier : front'.length < front.length) : front'.length + sequence'.length ≤ front.length := by
  obtain ⟨rest, stands⟩ := loses.stands
  obtain ⟨rest', stands'⟩ := loses'.stands
  rw [stands'] at stands
  obtain ⟨inner, rfl, tail⟩ := front_of_window stands earlier.le
  by_contra inside
  rw [length_append] at inside earlier
  have cut : inner <+: sequence' :=
    prefix_of_prefix_length_le (tail ▸ prefix_append _ _) (prefix_append _ rest') (by omega)
  obtain ⟨shown, rfl⟩ := cut
  rw [append_assoc] at tail
  have same := append_cancel_left tail
  obtain ⟨more, rfl⟩ := loses.switch.cons
  cases shown with
  | nil =>
    rw [length_append, length_nil] at inside
    omega
  | cons code later =>
    obtain ⟨rfl, next⟩ := List.cons.inj same
    have some_ : inner ≠ [] := length_pos_iff.mp (by omega)
    obtain ⟨unit, rest, rfl, other⟩ := loses'.switch.escape_inside some_
    exact other (List.cons.inj next).1

theorem Drop.Loses.unique
    (same : front'.length = front.length) : sequence' = sequence ∧ action' = action := by
  obtain ⟨rest, stands⟩ := loses.stands
  obtain ⟨rest', stands'⟩ := loses'.stands
  rw [stands'] at stands
  obtain ⟨-, tail⟩ := append_inj stands same
  have read := loses'.switch.read rest'
  rw [tail, loses.switch.read rest] at read
  obtain rfl : sequence = sequence' := (Prod.mk.inj (Option.some.inj read)).1
  exact ⟨rfl, Option.some.inj (loses'.switch.2.symm.trans loses.switch.2)⟩

end

/-- What the three scans report. -/
def Drop.headAction (limit : ℕ) (drop : Drop) : Option TerminalAlternateScreenAction :=
  (inspectAlternateScreenWindow (drop.dropped.take limit)).finalAction

def Drop.tailAction (limit : ℕ) (drop : Drop) : Option TerminalAlternateScreenAction :=
  (inspectAlternateScreenWindow (drop.dropped.drop (drop.dropped.length - limit))).finalAction

def Drop.acrossAction (limit : ℕ) (drop : Drop) : Option TerminalAlternateScreenAction :=
  (inspectAlternateScreenSequenceStartedBeforeBoundary
    (drop.dropped.drop (drop.dropped.length - limit) ++ drop.retained.take limit)
    (drop.dropped.drop (drop.dropped.length - limit)).length).finalAction

theorem Drop.inspect_eq (limit : ℕ) (drop : Drop) (some_ : drop.dropped.length ≠ 0) :
    (drop.inspect limit).droppedOutputAlternateScreenAction =
      (drop.acrossAction limit).or ((drop.tailAction limit).or
        (if drop.hasUninspectedMiddle limit then none else drop.headAction limit)) := by
  rw [inspect, inspectDroppedTerminalState, if_neg some_]
  rfl

/-- What a scan of a fresh window reports is a switch in it. -/
theorem holds_of_final (final : (inspectAlternateScreenWindow window).finalAction = some action) :
    Holds window action := by
  rcases inspectWindow_final ⟨false, none, false⟩ window with same | ⟨none_, -⟩ | ⟨found, same, holds⟩
  · cases final.symm.trans same
  · cases final.symm.trans none_
  · cases final.symm.trans same
    exact holds

theorem Drop.loses_of_head (final : drop.headAction limit = some action) :
    ∃ front sequence, drop.Loses front sequence action := by
  obtain ⟨front, sequence, loses, -⟩ :=
    loses_of_holds (drop.head_eq limit) (by simp) (holds_of_final final)
  exact ⟨front, sequence, loses⟩

theorem Drop.loses_of_tail (final : drop.tailAction limit = some action) :
    ∃ front sequence, drop.Loses front sequence action ∧ drop.dropped.length - limit ≤ front.length := by
  have seam := drop.length_seamAt limit
  have found := loses_of_holds (drop.tail_eq limit)
    (by rw [seam, length_drop]; omega) (holds_of_final final)
  rwa [seam] at found

theorem Drop.loses_of_across (final : drop.acrossAction limit = some action) :
    ∃ front sequence, drop.Loses front sequence action ∧ drop.dropped.length - limit ≤ front.length ∧
      drop.dropped.length < front.length + sequence.length := by
  have seam := drop.length_seamAt limit
  rcases inspectStarted_final ⟨false, none, false⟩ _ _ with same | ⟨found, same, holds⟩
  · cases final.symm.trans same
  · cases final.symm.trans same
    have lost := loses_of_holdsAcross (drop.across_eq limit)
      (by rw [seam, length_drop]; omega) holds
    rwa [seam] at lost

theorem Drop.LastLoss.final (last : drop.LastLoss front sequence action) (apart : ¬ EndsInCsi front)
    {rest : JsString} (same : before ++ (window ++ behind) = drop.dropped ++ drop.retained)
    (stands : drop.dropped ++ drop.retained = front ++ (sequence ++ rest))
    (inside : before.length + window.length ≤ drop.dropped.length)
    (starts : before.length ≤ front.length)
    (stops : front.length + sequence.length ≤ before.length + window.length) :
    (inspectAlternateScreenWindow window).finalAction = some action ∨
      ((inspectAlternateScreenWindow window).finalAction = none ∧ EndsInPrivateMode window) := by
  obtain ⟨inner, later, rfl, rfl⟩ := whole_in_window (same.trans stands) starts stops
  have apart' : ¬ EndsInCsi inner := fun ends => apart (ends.of_suffix (suffix_append _ _))
  obtain ⟨hasIncomplete, noted⟩ := inspectWindow_switch ⟨false, none, false⟩ later
    apart' last.switch
  rw [inspectAlternateScreenWindow, noted]
  rcases inspectWindow_final ⟨true, some action, hasIncomplete⟩ later with kept | ⟨none_, ends⟩ | ⟨other, -, holds⟩
  · exact .inl kept
  · refine .inr ⟨none_, ends.of_suffix ?_⟩
    exact (suffix_append _ _).trans (suffix_append _ _)
  · -- another switch behind the last one
    have regrouped : (before ++ inner ++ sequence) ++ (later ++ behind) = drop.dropped ++ drop.retained := by
      rw [← same]
      simp only [append_assoc]
    have four := last.switch.length
    obtain ⟨front', sequence', loses, behind_⟩ := loses_of_holds regrouped (by
      simp only [length_append] at inside ⊢
      omega) holds
    have early := last.latest loses
    simp only [length_append] at early behind_
    omega

theorem Drop.Loses.exists_last (loses : drop.Loses front sequence action) :
    ∃ front sequence action, drop.LastLoss front sequence action := by
  induction left : drop.dropped.length - front.length using Nat.strongRecOn
    generalizing front sequence action with
  | ind n ih =>
    by_cases later : ∃ front' sequence' action', drop.Loses front' sequence' action' ∧
        front.length < front'.length
    · obtain ⟨front', sequence', action', loses', behind_⟩ := later
      have starts := loses'.starts
      exact ih _ (by omega) loses' rfl
    · refine ⟨front, sequence, action, loses, ?_⟩
      intro front' sequence' action' loses'
      by_contra behind_
      exact later ⟨front', sequence', action', loses', Nat.lt_of_not_le behind_⟩

theorem Drop.loses_of_inspect
    (reported : (drop.inspect limit).droppedOutputAlternateScreenAction = some action) :
    ∃ front sequence, drop.Loses front sequence action := by
  have some_ : drop.dropped.length ≠ 0 := by
    intro empty
    rw [inspect, inspectDroppedTerminalState, if_pos empty] at reported
    cases reported
  rw [inspect_eq limit drop some_, or_eq_some_iff, or_eq_some_iff] at reported
  rcases reported with across | ⟨-, tail | ⟨-, head⟩⟩
  · obtain ⟨front, sequence, loses, -⟩ := loses_of_across across
    exact ⟨front, sequence, loses⟩
  · obtain ⟨front, sequence, loses, -⟩ := loses_of_tail tail
    exact ⟨front, sequence, loses⟩
  · split at head
    · cases head
    · exact loses_of_head head

section Last

variable (inspectable : drop.Inspectable limit) (last : drop.LastLoss front sequence action)

include inspectable last

theorem Drop.LastLoss.across (late : drop.dropped.length - limit ≤ front.length)
    (cut : drop.dropped.length < front.length + sequence.length) :
    drop.acrossAction limit = some action := by
  obtain ⟨rest, stands⟩ := last.stands
  have starts := last.starts
  have reach := inspectable.reach last.toLoses
  have seam := drop.length_seamAt limit
  have total := congrArg List.length stands
  simp only [length_append] at total
  have within : (drop.dropped.drop (drop.dropped.length - limit)).length =
      drop.dropped.length - (drop.dropped.length - limit) := length_drop
  obtain ⟨inner, later, split, shown⟩ := whole_in_window (drop.across_eq limit |>.trans stands)
    (by omega) (by
      simp only [length_append, length_take]
      omega)
  have apart : ¬ EndsInCsi inner := by
    intro ends
    exact inspectable.apart last.toLoses (split ▸ ends.of_suffix (suffix_append _ _))
  have length := congrArg List.length split
  rw [length_append] at length
  rw [acrossAction, inspectAlternateScreenSequenceStartedBeforeBoundary, shown]
  exact inspectStarted_switch apart last.switch (by omega) (by omega)

omit inspectable in
theorem Drop.LastLoss.not_across (within : front.length + sequence.length ≤ drop.dropped.length) :
    drop.acrossAction limit = none := by
  by_contra some_
  obtain ⟨other, final⟩ := ne_none_iff_exists'.mp some_
  obtain ⟨front', sequence', loses, -, cut⟩ := loses_of_across final
  rcases (last.latest loses).lt_or_eq with earlier | same
  · have apart := last.toLoses.disjoint loses earlier
    omega
  · obtain ⟨rfl, -⟩ := last.toLoses.unique loses same
    omega

theorem Drop.LastLoss.tail (late : drop.dropped.length - limit ≤ front.length)
    (within : front.length + sequence.length ≤ drop.dropped.length) :
    drop.tailAction limit = some action ∨ (drop.tailAction limit = none ∧
      (drop.hasUninspectedMiddle limit ∨ drop.headAction limit = none)) := by
  obtain ⟨rest, stands⟩ := last.stands
  have seam := drop.length_seamAt limit
  have width : (drop.dropped.drop (drop.dropped.length - limit)).length =
      drop.dropped.length - (drop.dropped.length - limit) := length_drop
  rcases last.final (inspectable.apart last.toLoses) (drop.tail_eq limit) stands (by omega) (by omega)
    (by omega) with same | ⟨none_, ends⟩
  · exact .inl same
  refine .inr ⟨none_, ?_⟩
  cases middle : drop.hasUninspectedMiddle limit with
  | true => exact .inl rfl
  | false =>
    have short := drop.length_le_of_inspected middle
    rcases Nat.lt_or_ge limit drop.dropped.length with long | one
    · exact absurd (ends.of_suffix (drop_suffix _ _)) (inspectable.closed long short)
    · -- the two windows are one
      rw [Nat.sub_eq_zero_of_le one, drop_zero] at none_
      rw [headAction, take_of_length_le one]
      exact .inr none_

theorem Drop.LastLoss.head (early : front.length < drop.dropped.length - limit)
    (middle : drop.hasUninspectedMiddle limit = false) :
    drop.headAction limit = some action ∨ drop.headAction limit = none := by
  obtain ⟨rest, stands⟩ := last.stands
  have sight := inspectable.seam last.toLoses (drop.length_le_of_inspected middle) (by omega)
  have width : (drop.dropped.take limit).length = limit := by
    rw [length_take]
    omega
  by_cases whole : front.length + sequence.length ≤ limit
  · rcases last.final (inspectable.apart last.toLoses) (drop.head_eq limit) stands
      (by rw [length_nil]; omega) (Nat.zero_le _) (by rw [length_nil]; omega) with same | lost
    · exact .inl same
    · exact .inr lost.1
  · obtain ⟨inner, params, split, shown, none_⟩ := part_in_window last.switch
      ((drop.head_eq limit).trans stands) (Nat.zero_le _) (by rw [length_nil]; omega)
      (by rw [length_nil]; omega)
    rw [nil_append] at split
    rw [headAction, shown]
    exact .inr (inspectWindow_cut (split ▸ inspectable.apart last.toLoses) none_).2

end Last

/-- **The action that a drop reports is the one of the last switch it cuts.** -/
theorem Drop.inspect_action (inspectable : drop.Inspectable limit)
    (reported : (drop.inspect limit).droppedOutputAlternateScreenAction = some action) :
    ∃ front sequence, drop.LastLoss front sequence action := by
  obtain ⟨_, _, some_⟩ := loses_of_inspect reported
  obtain ⟨front, sequence, other, last⟩ := some_.exists_last
  have starts := last.starts
  rw [inspect_eq limit drop (by omega)] at reported
  suffices same : other = action from same ▸ ⟨front, sequence, last⟩
  by_cases late : drop.dropped.length - limit ≤ front.length
  · by_cases cut : drop.dropped.length < front.length + sequence.length
    · rw [last.across inspectable late cut, some_or] at reported
      exact Option.some.inj reported
    · rw [Nat.not_lt] at cut
      rw [last.not_across cut, none_or] at reported
      rcases last.tail inspectable late cut with tail | ⟨none_, middle | head⟩
      · rw [tail, some_or] at reported
        exact Option.some.inj reported
      · rw [none_, middle] at reported
        cases reported
      · rw [none_, head, ite_self] at reported
        cases reported
  · rw [Nat.not_le] at late
    have across : drop.acrossAction limit = none := by
      by_contra some_
      obtain ⟨_, final⟩ := ne_none_iff_exists'.mp some_
      obtain ⟨front', sequence', loses, behind_, -⟩ := loses_of_across final
      have early := last.latest loses
      omega
    have tail : drop.tailAction limit = none := by
      by_contra some_
      obtain ⟨_, final⟩ := ne_none_iff_exists'.mp some_
      obtain ⟨front', sequence', loses, behind_⟩ := loses_of_tail final
      have early := last.latest loses
      omega
    rw [across, tail, none_or, none_or] at reported
    split at reported
    · cases reported
    · rename_i middle
      rcases last.head inspectable late (Bool.eq_false_iff.mpr middle) with head | head
      · exact Option.some.inj (head.symm.trans reported)
      · cases head.symm.trans reported

end Netcatty.PtyOutput
