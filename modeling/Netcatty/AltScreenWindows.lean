import Netcatty.PtyOutputBuffer

/-!
What the windows on dropped output show of its alternate-screen switches.

A scan may be interrupted wherever no sequence is open (`inspectWindow_append`),
so it notes every switch that interrupts no other sequence, and what it notes is a
switch of the text (`inspectWindow_final`).
-/

namespace Netcatty.PtyOutput

open List Option

open OutputTrigger (TerminalAlternateScreenAction isFinal readCsiSequence splitCsi)

/-! ## Switches -/

def IsSwitch (sequence : JsString) (action : TerminalAlternateScreenAction) : Prop :=
  readCsiSequence sequence = some (sequence, []) ∧ getAlternateScreenAction sequence = some action

/-- The text ends inside a control sequence. -/
def EndsInCsi (input : JsString) : Prop :=
  ∃ params, escapeUnit :: openBracket :: params <:+ input ∧ params.any isFinal = false

/-- The text ends inside an `ESC [ ?` sequence. -/
def EndsInPrivateMode (input : JsString) : Prop :=
  ∃ params, text "\x1b[?" ++ params <:+ input ∧ params.any isFinal = false

theorem EndsInCsi.of_suffix {input later : JsString} (inside : later <:+ input) (ends : EndsInCsi later) :
    EndsInCsi input := by
  obtain ⟨params, front, none_⟩ := ends
  exact ⟨params, front.trans inside, none_⟩

variable {input : JsString}

theorem splitCsi_eq_none : splitCsi input = none ↔ input.any isFinal = false := by
  induction input with
  | nil => exact iff_of_true rfl rfl
  | cons code rest ih =>
    rw [splitCsi, any_cons]
    by_cases final : isFinal code = true
    · rw [if_pos final, final]
      exact iff_of_false (some_ne_none _) (by simp)
    · rw [if_neg final, map_eq_none_iff, ih, Bool.eq_false_iff.mpr final, Bool.false_or]

theorem splitCsi_eq_some {split : JsString × JsString} (found : splitCsi input = some split) :
    ∃ params final, split.1 = params ++ [final] ∧ params.any isFinal = false ∧ isFinal final := by
  induction input generalizing split with
  | nil => cases found
  | cons code rest ih =>
    rw [splitCsi] at found
    by_cases final : isFinal code = true
    · rw [if_pos final] at found
      cases found
      exact ⟨[], code, rfl, rfl, final⟩
    · rw [if_neg final] at found
      obtain ⟨later, read, rfl⟩ := map_eq_some_iff.mp found
      obtain ⟨params, last, same, none_, isLast⟩ := ih read
      refine ⟨code :: params, last, congrArg (code :: ·) same, ?_, isLast⟩
      rw [any_cons, none_, Bool.eq_false_iff.mpr final]
      rfl

theorem readCsiSequence_eq {read : JsString × JsString}
    (found : readCsiSequence input = some read) :
    input = read.1 ++ read.2 ∧ ∀ more, readCsiSequence (read.1 ++ more) = some (read.1, more) := by
  refine ⟨(readCsiSequence_shrinks found).1, fun more => ?_⟩
  obtain _ | ⟨first, _ | ⟨second, rest⟩⟩ := input
  · cases found
  · cases found
  · rw [readCsiSequence] at found
    split at found
    · rename_i csi
      obtain ⟨split, read, rfl⟩ := map_eq_some_iff.mp found
      obtain ⟨-, again⟩ := OutputTrigger.splitCsi_eq read
      rw [cons_append, cons_append, readCsiSequence, if_pos csi, again]
      rfl
    · cases found

variable {sequence : JsString} {action : TerminalAlternateScreenAction}

theorem IsSwitch.read (switch : IsSwitch sequence action) (more : JsString) :
    readCsiSequence (sequence ++ more) = some (sequence, more) :=
  (readCsiSequence_eq switch.1).2 more

variable {rest : JsString}

theorem readCsiSequence_intro : readCsiSequence (escapeUnit :: openBracket :: rest) =
      (splitCsi rest).map fun split => (escapeUnit :: openBracket :: split.1, split.2) := by
  rw [readCsiSequence, if_pos ⟨rfl, rfl⟩]

theorem readCsiSequence_other (other : rest.head? ≠ some openBracket) :
    readCsiSequence (escapeUnit :: rest) = none := by
  cases rest with
  | nil => rfl
  | cons second rest =>
    rw [readCsiSequence, if_neg]
    rintro ⟨-, same⟩
    exact other (congrArg some same)

theorem startsPrivateMode_other (other : rest.head? ≠ some openBracket) :
    startsPrivateMode (escapeUnit :: rest) = false := by
  simp only [startsPrivateMode, decide_eq_false_iff_not]
  rintro ⟨tail, same⟩
  obtain rfl : rest = openBracket :: text "?" ++ tail := (List.cons.inj same).2.symm
  exact other rfl

/-- A switch ends in `h` or `l`, and its parameters start with `?`. -/
theorem getAlternateScreenAction_spec {params : JsString} {final : Fin 65536}
    {action : TerminalAlternateScreenAction}
    (acts : getAlternateScreenAction (escapeUnit :: openBracket :: (params ++ [final])) = some action) :
    (final.val = 0x68 ∨ final.val = 0x6c) ∧ params.head?.any (fun code => code.val = 0x3f) := by
  unfold getAlternateScreenAction OutputTrigger.getTerminalAlternateScreenAction at acts
  have last : (escapeUnit :: openBracket :: (params ++ [final])).getLast? = some final := by
    rw [← cons_append, ← cons_append, getLast?_concat]
  rw [last] at acts
  split at acts
  · cases acts
  dsimp only at acts
  split at acts
  · cases acts
  rename_i known
  split at acts
  · cases acts
  rename_i mark
  refine ⟨by omega, ?_⟩
  simpa only [drop_succ_cons, drop_zero, dropLast_concat, Decidable.not_not] using mark

theorem IsSwitch.form (switch : IsSwitch sequence action) :
    ∃ params final, sequence = text "\x1b[?" ++ (params ++ [final]) ∧ params.any isFinal = false ∧
      (final.val = 0x68 ∨ final.val = 0x6c) := by
  obtain ⟨read, acts⟩ := switch
  obtain _ | ⟨first, _ | ⟨second, rest⟩⟩ := sequence
  · cases read
  · cases read
  rw [readCsiSequence] at read
  split at read
  · rename_i csi
    obtain ⟨rfl, rfl⟩ := csi
    obtain ⟨split, found, same⟩ := map_eq_some_iff.mp read
    obtain ⟨params, final, body, none_, -⟩ := splitCsi_eq_some found
    obtain ⟨sequence, -⟩ := Prod.mk.inj same
    obtain rfl : split.1 = rest := (List.cons.inj (List.cons.inj sequence).2).2
    rw [body] at acts ⊢
    obtain ⟨letter, marked⟩ := getAlternateScreenAction_spec acts
    cases params with
    | nil => cases marked
    | cons mark params =>
      have question : mark = ⟨0x3f, by decide⟩ := Fin.ext (of_decide_eq_true marked)
      rw [any_cons, Bool.or_eq_false_iff] at none_
      exact ⟨params, final, by rw [question]; rfl, none_.2, letter⟩
  · cases read

/-! ## Scanning a window -/

variable {found : WindowInspection}

theorem inspectWindow_plain {code : Fin 65536} {rest : JsString} (plain : code ≠ escapeUnit) :
    inspectWindow found (code :: rest) = inspectWindow found rest := by
  rw [inspectWindow, if_pos plain]

theorem inspectWindow_read {read : JsString × JsString}
    (is : readCsiSequence (escapeUnit :: rest) = some read) :
    inspectWindow found (escapeUnit :: rest) = inspectWindow (found.note read.1) read.2 := by
  rw [inspectWindow, if_neg (not_not.mpr rfl)]
  split
  · rename_i same
    cases is.symm.trans same
    rfl
  · rename_i none_
    cases is.symm.trans none_

theorem inspectWindow_open (none_ : readCsiSequence (escapeUnit :: rest) = none)
    (mark : startsPrivateMode (escapeUnit :: rest)) :
    inspectWindow found (escapeUnit :: rest) = inspectWindow ⟨true, none, true⟩ rest := by
  rw [inspectWindow, if_neg (not_not.mpr rfl)]
  split
  · rename_i same
    cases none_.symm.trans same
  · rw [if_pos mark]

theorem inspectWindow_skip (none_ : readCsiSequence (escapeUnit :: rest) = none)
    (mark : startsPrivateMode (escapeUnit :: rest) = false) :
    inspectWindow found (escapeUnit :: rest) = inspectWindow found rest := by
  rw [inspectWindow, if_neg (not_not.mpr rfl)]
  split
  · rename_i same
    cases none_.symm.trans same
  · rw [if_neg (Bool.eq_false_iff.mp mark)]

theorem readCsiSequence_of_apart
    (apart : ¬ EndsInCsi (escapeUnit :: openBracket :: rest)) (more : JsString) :
    ∃ read, readCsiSequence (escapeUnit :: openBracket :: rest) = some read ∧
      readCsiSequence (escapeUnit :: openBracket :: rest ++ more) = some (read.1, read.2 ++ more) := by
  cases split : splitCsi rest with
  | none => exact absurd ⟨rest, suffix_rfl, splitCsi_eq_none.mp split⟩ apart
  | some found =>
    have read : readCsiSequence (escapeUnit :: openBracket :: rest) =
        some (escapeUnit :: openBracket :: found.1, found.2) := by
      rw [readCsiSequence_intro, split]
      rfl
    obtain ⟨whole, again⟩ := readCsiSequence_eq read
    refine ⟨_, read, ?_⟩
    rw [whole, append_assoc]
    exact again _

theorem apart_induction {P : JsString → Prop} (nil : P [])
    (plain : ∀ code rest, code ≠ escapeUnit → P rest → P (code :: rest))
    (skip : ∀ rest, rest.head? ≠ some openBracket → P rest → P (escapeUnit :: rest))
    (read : ∀ rest sequence later, escapeUnit :: rest = sequence ++ later →
      (∀ more, readCsiSequence (escapeUnit :: (rest ++ more)) = some (sequence, later ++ more)) →
        P later → P (escapeUnit :: rest))
    {front : JsString} (apart : ¬ EndsInCsi front) : P front := by
  induction len : front.length using Nat.strongRecOn generalizing front with
  | ind n ih =>
    cases front with
    | nil => exact nil
    | cons code front =>
      have inner {later : JsString} (less : later.length < (code :: front).length)
          (inside : later <:+ code :: front) : P later :=
        ih _ (len ▸ less) (fun ends => apart (ends.of_suffix inside)) rfl
      have one := inner (Nat.lt_succ_self _) (suffix_cons _ _)
      by_cases escape : code = escapeUnit
      · subst escape
        by_cases intro_ : front.head? = some openBracket
        · obtain ⟨tail, rfl⟩ := head?_eq_some_iff.mp intro_
          obtain ⟨found, is, -⟩ := readCsiSequence_of_apart apart []
          obtain ⟨whole, shorter⟩ := readCsiSequence_shrinks is
          refine read _ _ _ whole (fun more => ?_) (inner shorter (whole ▸ suffix_append _ _))
          rw [← cons_append, whole, append_assoc]
          exact (readCsiSequence_eq is).2 _
        · exact skip front intro_ one
      · exact plain code front escape one

theorem head?_append_ne {front more : JsString} (none_ : front.head? ≠ some openBracket)
    (escape : more.head? = some escapeUnit) : (front ++ more).head? ≠ some openBracket := by
  cases front with
  | nil =>
    rw [nil_append, escape]
    exact some_injective _ |>.ne (by decide)
  | cons next front => exact none_

/-- **A scan may be interrupted** where no sequence is open. -/
theorem inspectWindow_append {front rest : JsString} (apart : ¬ EndsInCsi front) :
    inspectWindow found (front ++ escapeUnit :: rest) =
      inspectWindow (inspectWindow found front) (escapeUnit :: rest) := by
  refine apart_induction (P := fun front => ∀ found, inspectWindow found (front ++ escapeUnit :: rest) =
    inspectWindow (inspectWindow found front) (escapeUnit :: rest)) (fun found => ?_)
    (fun code front plain ih found => ?_) (fun front other ih found => ?_)
    (fun front own later whole longer ih found => ?_) apart found
  · rw [nil_append, inspectWindow]
  · rw [cons_append, inspectWindow_plain plain, inspectWindow_plain plain, ih]
  · have other' := head?_append_ne other (rfl : (escapeUnit :: rest).head? = some escapeUnit)
    rw [cons_append, inspectWindow_skip (readCsiSequence_other other') (startsPrivateMode_other other'),
      inspectWindow_skip (readCsiSequence_other other) (startsPrivateMode_other other), ih]
  · have is := longer []
    rw [append_nil, append_nil] at is
    rw [inspectWindow_read is, cons_append, inspectWindow_read (longer _), ih]

theorem IsSwitch.of_read {read : JsString × JsString}
    {action : TerminalAlternateScreenAction} (is : readCsiSequence input = some read)
    (acts : getAlternateScreenAction read.1 = some action) : IsSwitch read.1 action := by
  have again := (readCsiSequence_eq is).2 []
  rw [append_nil] at again
  exact ⟨again, acts⟩

theorem IsSwitch.cons
    (switch : IsSwitch sequence action) : ∃ rest, sequence = escapeUnit :: openBracket :: rest := by
  obtain ⟨params, final, rfl, -, -⟩ := switch.form
  exact ⟨_, rfl⟩

theorem WindowInspection.note_switch (acts : getAlternateScreenAction sequence = some action) :
    found.note sequence = ⟨true, some action, found.hasIncompleteSequence⟩ := by
  rw [note, acts]

theorem WindowInspection.note_other (acts : getAlternateScreenAction sequence = none) :
    found.note sequence = found := by
  rw [note, acts]

theorem inspectWindow_switch (found : WindowInspection) {front sequence : JsString} (rest : JsString)
    {action : TerminalAlternateScreenAction} (apart : ¬ EndsInCsi front) (switch : IsSwitch sequence action) :
    ∃ hasIncomplete, inspectWindow found (front ++ (sequence ++ rest)) =
      inspectWindow ⟨true, some action, hasIncomplete⟩ rest := by
  obtain ⟨tail, rfl⟩ := switch.cons
  have read := switch.read rest
  rw [cons_append] at read ⊢
  rw [inspectWindow_append apart, inspectWindow_read read, WindowInspection.note_switch switch.2]
  exact ⟨_, rfl⟩

theorem inspectWindow_alarmed (input : JsString)
    (alarmed : found.finalAction.isSome ∨ found.hasIncompleteSequence) :
    (inspectWindow found input).finalAction.isSome ∨
      (inspectWindow found input).hasIncompleteSequence := by
  induction found, input using inspectWindow.induct with
  | case1 found =>
    rw [inspectWindow]
    exact alarmed
  | case2 found code rest plain ih =>
    rw [inspectWindow_plain plain]
    exact ih alarmed
  | case3 found code rest escape read is ih =>
    obtain rfl := not_not.mp escape
    rw [inspectWindow_read is]
    refine ih ?_
    cases acts : getAlternateScreenAction read.1 with
    | none =>
      rw [WindowInspection.note_other acts]
      exact alarmed
    | some action =>
      rw [WindowInspection.note_switch acts]
      exact .inl rfl
  | case4 found code rest escape none_ mark ih =>
    obtain rfl := not_not.mp escape
    rw [inspectWindow_open none_ mark]
    exact ih (.inr rfl)
  | case5 found code rest escape none_ mark ih =>
    obtain rfl := not_not.mp escape
    rw [inspectWindow_skip none_ (Bool.eq_false_iff.mpr mark)]
    exact ih alarmed

theorem endsInPrivateMode_of_open (none_ : readCsiSequence (escapeUnit :: rest) = none)
    (mark : startsPrivateMode (escapeUnit :: rest)) : EndsInPrivateMode (escapeUnit :: rest) := by
  obtain ⟨params, same⟩ := of_decide_eq_true mark
  obtain rfl : openBracket :: text "?" ++ params = rest := (List.cons.inj same).2
  rw [cons_append, readCsiSequence_intro, map_eq_none_iff, splitCsi_eq_none] at none_
  have later : params.any isFinal = false := by
    rw [show text "?" ++ params = ⟨0x3f, by decide⟩ :: params from rfl, any_cons,
      Bool.or_eq_false_iff] at none_
    exact none_.2
  exact ⟨params, ⟨[], same⟩, later⟩

theorem EndsInPrivateMode.of_suffix {input later : JsString} (inside : later <:+ input)
    (ends : EndsInPrivateMode later) : EndsInPrivateMode input := by
  obtain ⟨params, front, none_⟩ := ends
  exact ⟨params, front.trans inside, none_⟩

/-- A switch stands in the text. -/
def Holds (input : JsString) (action : TerminalAlternateScreenAction) : Prop :=
  ∃ front sequence rest, input = front ++ (sequence ++ rest) ∧ IsSwitch sequence action

theorem Holds.append
    (holds : Holds input action) (front : JsString) : Holds (front ++ input) action := by
  obtain ⟨before, sequence, rest, rfl, switch⟩ := holds
  exact ⟨front ++ before, sequence, rest, (append_assoc _ _ _).symm, switch⟩

/-- **What a scan reports** was reported before, or is a switch of the text, or is lost where the text
ends inside a sequence. -/
theorem inspectWindow_final (found : WindowInspection) (input : JsString) :
    (inspectWindow found input).finalAction = found.finalAction ∨
      ((inspectWindow found input).finalAction = none ∧ EndsInPrivateMode input) ∨
      ∃ action, (inspectWindow found input).finalAction = some action ∧ Holds input action := by
  induction found, input using inspectWindow.induct with
  | case1 found =>
    rw [inspectWindow]
    exact .inl rfl
  | case2 found code rest plain ih =>
    rw [inspectWindow_plain plain]
    refine ih.imp_right (Or.imp ?_ ?_)
    · exact fun lost => ⟨lost.1, lost.2.of_suffix (suffix_cons _ _)⟩
    · rintro ⟨action, final, holds⟩
      exact ⟨action, final, holds.append [code]⟩
  | case3 found code rest escape read is ih =>
    obtain rfl := not_not.mp escape
    obtain ⟨whole, -⟩ := readCsiSequence_eq is
    rw [inspectWindow_read is]
    rcases ih with same | lost | ⟨action, final, holds⟩
    · cases acts : getAlternateScreenAction read.1 with
      | none =>
        rw [WindowInspection.note_other acts] at same ⊢
        exact .inl same
      | some action =>
        rw [WindowInspection.note_switch acts] at same ⊢
        exact .inr (.inr ⟨action, same, [], read.1, read.2, whole, .of_read is acts⟩)
    · exact .inr (.inl ⟨lost.1, whole ▸ lost.2.of_suffix (suffix_append _ _)⟩)
    · exact .inr (.inr ⟨action, final, whole ▸ holds.append _⟩)
  | case4 found code rest escape none_ mark ih =>
    obtain rfl := not_not.mp escape
    rw [inspectWindow_open none_ mark]
    have ends := endsInPrivateMode_of_open none_ mark
    rcases ih with same | lost | ⟨action, final, holds⟩
    · exact .inr (.inl ⟨same, ends⟩)
    · exact .inr (.inl ⟨lost.1, ends⟩)
    · exact .inr (.inr ⟨action, final, holds.append [escapeUnit]⟩)
  | case5 found code rest escape none_ mark ih =>
    obtain rfl := not_not.mp escape
    rw [inspectWindow_skip none_ (Bool.eq_false_iff.mpr mark)]
    refine ih.imp_right (Or.imp ?_ ?_)
    · exact fun lost => ⟨lost.1, lost.2.of_suffix (suffix_cons _ _)⟩
    · rintro ⟨action, final, holds⟩
      exact ⟨action, final, holds.append [escapeUnit]⟩

theorem not_holds {params : JsString} {action : TerminalAlternateScreenAction}
    (none_ : params.any isFinal = false) : ¬ Holds params action := by
  rintro ⟨front, sequence, rest, rfl, switch⟩
  obtain ⟨tail, rfl⟩ := switch.cons
  rw [List.any_eq_false] at none_
  exact none_ openBracket (by simp) (by decide)

theorem inspectWindow_cut {front params : JsString} (apart : ¬ EndsInCsi front)
    (none_ : params.any isFinal = false) :
    (inspectWindow found (front ++ (text "\x1b[?" ++ params))).hasIncompleteSequence ∧
      (inspectWindow found (front ++ (text "\x1b[?" ++ params))).finalAction = none := by
  have cut : front ++ (text "\x1b[?" ++ params) =
      front ++ escapeUnit :: openBracket :: (text "?" ++ params) := rfl
  have open_ : readCsiSequence (escapeUnit :: openBracket :: (text "?" ++ params)) = none := by
    rw [readCsiSequence_intro, map_eq_none_iff, splitCsi_eq_none, any_append, none_]
    decide
  have mark : startsPrivateMode (escapeUnit :: openBracket :: (text "?" ++ params)) = true :=
    decide_eq_true ⟨params, rfl⟩
  rw [cut, inspectWindow_append apart, inspectWindow_open open_ mark]
  have bracket : openBracket ≠ escapeUnit := by decide
  rw [inspectWindow_plain bracket]
  have silent : (text "?" ++ params).any isFinal = false := by
    rw [any_append, none_]
    decide
  generalize text "?" ++ params = rest at silent
  have unset : (inspectWindow ⟨true, none, true⟩ rest).finalAction = none := by
    rcases inspectWindow_final ⟨true, none, true⟩ rest with same | ⟨none_, -⟩ | ⟨action, -, holds⟩
    · exact same
    · exact none_
    · exact absurd holds (not_holds silent)
  refine ⟨(inspectWindow_alarmed rest (.inr rfl)).resolve_left ?_, unset⟩
  rw [unset]
  exact Bool.false_ne_true

/-! ## Scanning across the cut -/

theorem inspectStarted_zero (found : WindowInspection) (input : JsString) :
    inspectStarted found 0 input = found := by
  cases input <;> rw [inspectStarted]

theorem inspectStarted_nil (found : WindowInspection) (before : ℕ) :
    inspectStarted found before [] = found := by
  cases before with
  | zero => exact inspectStarted_zero found []
  | succ before =>
    rw [inspectStarted]
    exact Nat.succ_ne_zero before

theorem inspectStarted_plain {before : ℕ} {code : Fin 65536} {rest : JsString} (plain : code ≠ escapeUnit) :
    inspectStarted found (before + 1) (code :: rest) = inspectStarted found before rest := by
  rw [inspectStarted, if_pos plain]

theorem inspectStarted_read {before : ℕ} {rest : JsString} {read : JsString × JsString}
    (is : readCsiSequence (escapeUnit :: rest) = some read) :
    inspectStarted found (before + 1) (escapeUnit :: rest) =
      inspectStarted (if before + 1 < read.1.length then found.note read.1 else found)
        (before + 1 - read.1.length) read.2 := by
  rw [inspectStarted, if_neg (not_not.mpr rfl)]
  split
  · rename_i none_
    cases is.symm.trans none_
  · rename_i same
    cases is.symm.trans same
    rfl

theorem inspectStarted_none (found : WindowInspection) (before : ℕ) {rest : JsString}
    (none_ : readCsiSequence (escapeUnit :: rest) = none) :
    ∃ found' : WindowInspection, found'.finalAction = found.finalAction ∧
      inspectStarted found (before + 1) (escapeUnit :: rest) = inspectStarted found' before rest := by
  rw [inspectStarted, if_neg (not_not.mpr rfl)]
  split
  · split
    · exact ⟨{ found with mayAffectTerminalState := true }, rfl, rfl⟩
    · exact ⟨found, rfl, rfl⟩
  · rename_i same
    cases none_.symm.trans same

/-- A switch that starts before the cut and ends behind it. -/
def HoldsAcross (before : ℕ) (input : JsString) (action : TerminalAlternateScreenAction) : Prop :=
  ∃ front sequence rest, input = front ++ (sequence ++ rest) ∧ IsSwitch sequence action ∧
    front.length < before ∧ before < front.length + sequence.length

theorem HoldsAcross.append {before : ℕ} {input : JsString} {action : TerminalAlternateScreenAction}
    (holds : HoldsAcross before input action) (front : JsString) : HoldsAcross (front.length + before) (front ++ input) action := by
  obtain ⟨first, sequence, rest, rfl, switch, starts, stops⟩ := holds
  refine ⟨front ++ first, sequence, rest, (append_assoc _ _ _).symm, switch, ?_, ?_⟩
  · rw [length_append]
    omega
  · rw [length_append]
    omega

/-- What the scan across the cut reports is a switch across it. -/
theorem inspectStarted_final (found : WindowInspection) (before : ℕ) (input : JsString) :
    (inspectStarted found before input).finalAction = found.finalAction ∨
      ∃ action, (inspectStarted found before input).finalAction = some action ∧
        HoldsAcross before input action := by
  induction len : input.length using Nat.strongRecOn generalizing found before input with
  | ind n ih =>
    cases before with
    | zero => exact .inl (by rw [inspectStarted_zero])
    | succ before =>
    cases input with
    | nil => exact .inl (by rw [inspectStarted_nil])
    | cons code rest =>
      have less : rest.length < n := by
        rw [← len]
        exact Nat.lt_succ_self _
      have one : ∀ found', found'.finalAction = found.finalAction →
          (inspectStarted found' before rest).finalAction = found.finalAction ∨
            ∃ action, (inspectStarted found' before rest).finalAction = some action ∧
              HoldsAcross (before + 1) (code :: rest) action := by
        intro found' same
        rcases ih _ less found' before rest rfl with final | ⟨action, final, holds⟩
        · exact .inl (final.trans same)
        · have later := holds.append [code]
          rw [length_singleton, Nat.add_comm 1] at later
          exact .inr ⟨action, final, later⟩
      by_cases plain : code ≠ escapeUnit
      · rw [inspectStarted_plain plain]
        exact one found rfl
      rw [not_not] at plain
      subst plain
      cases is : readCsiSequence (escapeUnit :: rest) with
      | none =>
        obtain ⟨found', same, step⟩ := inspectStarted_none found before is
        rw [step]
        exact one found' same
      | some read =>
        obtain ⟨whole, shorter⟩ := readCsiSequence_shrinks is
        rw [inspectStarted_read is]
        by_cases across : before + 1 < read.1.length
        · rw [if_pos across, Nat.sub_eq_zero_of_le across.le, inspectStarted_zero]
          cases acts : getAlternateScreenAction read.1 with
          | none =>
            rw [WindowInspection.note_other acts]
            exact .inl rfl
          | some action =>
            rw [WindowInspection.note_switch acts]
            refine .inr ⟨action, rfl, [], read.1, read.2, whole, .of_read is acts, Nat.succ_pos _, ?_⟩
            rw [length_nil, Nat.zero_add]
            exact across
        · rw [if_neg across]
          rcases ih _ (len ▸ shorter) found (before + 1 - read.1.length) read.2 rfl with final | ⟨action, final, holds⟩
          · exact .inl final
          · have later := holds.append read.1
            rw [Nat.add_sub_cancel' (Nat.not_lt.mp across), ← whole] at later
            exact .inr ⟨action, final, later⟩

theorem inspectStarted_switch {front sequence rest : JsString} {action : TerminalAlternateScreenAction}
    {before : ℕ} (apart : ¬ EndsInCsi front) (switch : IsSwitch sequence action)
    (starts : front.length < before) (stops : before < front.length + sequence.length) :
    (inspectStarted found before (front ++ (sequence ++ rest))).finalAction = some action := by
  obtain ⟨tail, same⟩ := switch.cons
  refine apart_induction (P := fun front => ∀ found before, front.length < before →
    before < front.length + sequence.length →
      (inspectStarted found before (front ++ (sequence ++ rest))).finalAction = some action)
    (fun found before starts stops => ?_) (fun code front plain ih found before starts stops => ?_)
    (fun front other ih found before starts stops => ?_)
    (fun front own later whole longer ih found before starts stops => ?_) apart found before starts stops
  all_goals
    obtain ⟨back, rfl⟩ : ∃ back, before = back + 1 := ⟨before - 1, by omega⟩
    simp only [length_nil, length_cons] at starts stops
  · have read := switch.read rest
    rw [Nat.zero_add] at stops
    rw [same, cons_append] at read
    rw [nil_append, same, cons_append]
    rw [same] at stops switch
    rw [inspectStarted_read read, if_pos stops, Nat.sub_eq_zero_of_le stops.le, inspectStarted_zero,
      WindowInspection.note_switch switch.2]
  · rw [cons_append, inspectStarted_plain plain]
    exact ih found back (by omega) (by omega)
  · have escape : (sequence ++ rest).head? = some escapeUnit := by rw [same]; rfl
    have other' := head?_append_ne other escape
    obtain ⟨found', -, step⟩ := inspectStarted_none found back (readCsiSequence_other other')
    rw [cons_append, step]
    exact ih found' back (by omega) (by omega)
  · have lengths := congrArg List.length whole
    rw [length_append, length_cons] at lengths
    rw [cons_append, inspectStarted_read (longer _), if_neg (by dsimp only; omega)]
    exact ih found _ (by dsimp only; omega) (by dsimp only; omega)

end Netcatty.PtyOutput
