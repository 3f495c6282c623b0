import Mathlib.Data.List.Basic

/-!
Openings and the closings that answer them.

A run is a list of rounds; each closes keys that earlier rounds opened, then opens
keys of its own.  A run is resolved when every closing finds an opening of its key
still open and nothing is open at the end; it is tidy when, besides, nothing is open
before a round that closes nothing.  A tidy run can be cut before any such round.
-/

namespace Netcatty.Pairing

open List

structure Round (κ : Type) where
  closes : List κ
  opens : List κ

variable {κ : Type} [BEq κ]

def Round.behind (round : Round κ) (opened : κ → ℕ) (key : κ) : ℕ :=
  opened key - round.closes.count key + round.opens.count key

/-- Does every closing of the round find an opening? -/
def Round.Answers (round : Round κ) (opened : κ → ℕ) : Prop :=
  ∀ key, round.closes.count key ≤ opened key

def ResolvedFrom (opened : κ → ℕ) : List (Round κ) → Prop
  | [] => ∀ key, opened key = 0
  | round :: rounds => round.Answers opened ∧ ResolvedFrom (round.behind opened) rounds

def Resolved (rounds : List (Round κ)) : Prop := ResolvedFrom (fun _ => 0) rounds

def TidyFrom (opened : κ → ℕ) : List (Round κ) → Prop
  | [] => ∀ key, opened key = 0
  | round :: rounds =>
    (round.closes = [] → ∀ key, opened key = 0) ∧ round.Answers opened ∧
      TidyFrom (round.behind opened) rounds

def Tidy (rounds : List (Round κ)) : Prop := TidyFrom (fun _ => 0) rounds

/-- The run is over, or its next round closes nothing. -/
def StartsAfresh : List (Round κ) → Prop
  | [] => True
  | round :: _ => round.closes = []

variable {opened : κ → ℕ}

theorem resolvedFrom_of_tidyFrom {rounds : List (Round κ)}
    (tidy : TidyFrom opened rounds) : ResolvedFrom opened rounds := by
  induction rounds generalizing opened with
  | nil => exact tidy
  | cons round rounds ih => exact ⟨tidy.2.1, ih tidy.2.2⟩

theorem Tidy.resolved {rounds : List (Round κ)} (tidy : Tidy rounds) : Resolved rounds :=
  resolvedFrom_of_tidyFrom tidy

theorem closes_nil_of_answers [LawfulBEq κ] {round : Round κ} {opened : κ → ℕ} (answers : round.Answers opened)
    (none_open : ∀ key, opened key = 0) : round.closes = [] := by
  apply eq_nil_iff_forall_not_mem.mpr
  intro key mem
  have found := count_pos_iff.mpr mem
  have bound := answers key
  have zero := none_open key
  omega

/-- A tidy run may be cut before a round that closes nothing. -/
theorem tidy_of_append {before rounds : List (Round κ)}
    (tidy : TidyFrom opened (before ++ rounds)) (afresh : StartsAfresh rounds) : Tidy rounds := by
  induction before generalizing opened with
  | nil =>
    cases rounds with
    | nil => exact fun _ => rfl
    | cons round rounds =>
      have zero : opened = fun _ => 0 := funext (tidy.1 afresh)
      subst zero
      exact tidy
  | cons round before ih => exact ih tidy.2.2

def Round.Idle (round : Round κ) : Prop := round.closes = [] ∧ round.opens = []

theorem Round.Idle.behind {round : Round κ} (idle : round.Idle) (opened : κ → ℕ) :
    round.behind opened = opened := by
  funext key
  simp [Round.behind, idle.1, idle.2]

theorem tidy_cons_idle {round : Round κ} {rounds : List (Round κ)} (idle : round.Idle) :
    Tidy (round :: rounds) ↔ Tidy rounds := by
  simp [Tidy, TidyFrom, idle.behind, idle.1, Round.Answers]

theorem Tidy.tail [LawfulBEq κ] {round : Round κ} {rounds : List (Round κ)} (tidy : Tidy (round :: rounds))
    (opens : round.opens = []) : Tidy rounds :=
  (tidy_cons_idle ⟨closes_nil_of_answers tidy.2.1 fun _ => rfl, opens⟩).mp tidy

theorem resolvedFrom_append_idle {rounds last : List (Round κ)}
    (resolved : ResolvedFrom opened rounds) (idle : ∀ round ∈ last, round.Idle) :
    ResolvedFrom opened (rounds ++ last) := by
  induction rounds generalizing opened with
  | nil =>
    induction last with
    | nil => exact resolved
    | cons round last ih =>
      have quiet := idle round mem_cons_self
      refine ⟨by simp [Round.Answers, quiet.1], ?_⟩
      rw [quiet.behind]
      exact ih fun other mem => idle other (mem_cons_of_mem _ mem)
  | cons round rounds ih => exact ⟨resolved.1, ih resolved.2⟩

theorem ResolvedFrom.totals {rounds : List (Round κ)}
    (resolved : ResolvedFrom opened rounds) (key : κ) :
    opened key + (rounds.flatMap Round.opens).count key =
      (rounds.flatMap Round.closes).count key := by
  induction rounds generalizing opened with
  | nil => simpa using resolved key
  | cons round rounds ih =>
    have rest := ih resolved.2
    have enough := resolved.1 key
    simp only [Round.behind] at rest
    simp only [flatMap_cons, count_append]
    omega

theorem last_opens_nil [LawfulBEq κ] {opened : κ → ℕ} {before : List (Round κ)} {round : Round κ}
    (resolved : ResolvedFrom opened (before ++ [round])) : round.opens = [] := by
  induction before generalizing opened with
  | nil =>
    apply eq_nil_iff_forall_not_mem.mpr
    intro key mem
    have found := count_pos_iff.mpr mem
    have zero : round.behind opened key = 0 := resolved.2 key
    simp only [Round.behind] at zero
    omega
  | cons _ before ih => exact ih resolved.2

theorem past_closers {closers rounds : List (Round κ)}
    (closing : ∀ round ∈ closers, round.closes ≠ [])
    (resolved : ResolvedFrom opened (closers ++ rounds)) :
    ∃ later : κ → ℕ, ResolvedFrom later rounds ∧
      (TidyFrom later rounds → TidyFrom opened (closers ++ rounds)) ∧
      ((∀ key, later key = 0) → ResolvedFrom opened closers) ∧
      (closers = [] → later = opened) := by
  induction closers generalizing opened with
  | nil => exact ⟨opened, resolved, id, id, fun _ => rfl⟩
  | cons round closers ih =>
    obtain ⟨later, rest, tidy, settled, _⟩ :=
      ih (fun other mem => closing other (mem_cons_of_mem _ mem)) resolved.2
    refine ⟨later, rest, fun held => ⟨fun empty => ?_, resolved.1, tidy held⟩,
      fun zero => ⟨resolved.1, settled zero⟩, fun empty => absurd empty (cons_ne_nil _ _)⟩
    exact absurd empty (closing round mem_cons_self)

theorem resolvedFrom_append {before rounds : List (Round κ)}
    (resolved : ResolvedFrom opened before) (rest : Resolved rounds) :
    ResolvedFrom opened (before ++ rounds) := by
  induction before generalizing opened with
  | nil =>
    have zero : opened = fun _ => 0 := funext resolved
    subst zero
    exact rest
  | cons round before ih => exact ⟨resolved.1, ih resolved.2⟩

omit [BEq κ] in
theorem span_closers (rounds : List (Round κ)) :
    ∃ closers rest, rounds = closers ++ rest ∧ (∀ round ∈ closers, round.closes ≠ []) ∧
      StartsAfresh rest := by
  induction rounds with
  | nil => exact ⟨[], [], rfl, by simp, trivial⟩
  | cons round rounds ih =>
    by_cases closes : round.closes = []
    · exact ⟨[], round :: rounds, rfl, by simp, closes⟩
    · obtain ⟨closers, rest, parts, closing, afresh⟩ := ih
      refine ⟨round :: closers, rest, by simp [parts], ?_, afresh⟩
      intro other mem
      rcases mem_cons.mp mem with same | mem
      · exact same ▸ closes
      · exact closing other mem

theorem eq_nil_of_closing [LawfulBEq κ] {closers rounds : List (Round κ)}
    (closing : ∀ round ∈ closers, round.closes ≠ [])
    (resolved : Resolved (closers ++ rounds)) : closers = [] := by
  cases closers with
  | nil => rfl
  | cons closer closers =>
    exact absurd (closes_nil_of_answers resolved.1 fun _ => rfl) (closing closer mem_cons_self)

theorem untidy [LawfulBEq κ] {rounds : List (Round κ)} (resolved : Resolved rounds) (not_tidy : ¬ Tidy rounds) :
    ∃ before round closers rest, rounds = before ++ round :: (closers ++ rest) ∧
      Resolved before ∧ round.closes = [] ∧ round.opens ≠ [] ∧
      (∀ closer ∈ closers, closer.closes ≠ []) ∧
      StartsAfresh rest ∧ 2 ≤ rest.length ∧ ¬ Resolved rest := by
  induction size : rounds.length using Nat.strongRecOn generalizing rounds with
  | ind n ih =>
    cases rounds with
    | nil => exact absurd (fun _ => rfl) not_tidy
    | cons round tail =>
      have first : round.closes = [] := closes_nil_of_answers resolved.1 fun _ => rfl
      obtain ⟨closers, rest, parts, closing, afresh⟩ := span_closers tail
      subst parts
      obtain ⟨later, finish, tidy, settled, unchanged⟩ := past_closers closing resolved.2
      by_cases zero : ∀ key, later key = 0
      · have same : later = fun _ => 0 := funext zero
        subst same
        have shorter : rest.length < n := by
          simp only [length_cons, length_append] at size
          omega
        have still : ¬ Tidy rest := fun held => not_tidy ⟨fun _ _ => rfl, resolved.1, tidy held⟩
        obtain ⟨before, found, others, last, cut, whole, facts⟩ := ih _ shorter finish still rfl
        refine ⟨round :: closers ++ before, found, others, last, by simp [cut], ?_, facts⟩
        have head : ResolvedFrom (fun _ => 0) (round :: closers) := ⟨resolved.1, settled zero⟩
        exact resolvedFrom_append head whole
      · obtain ⟨key, opened⟩ := not_forall.mp zero
        refine ⟨[], round, closers, rest, rfl, fun _ => rfl, first, ?_, closing, afresh, ?_, ?_⟩
        · -- an idle round leaves nothing to close, so no closer follows and nothing is open
          intro opens
          have idle : round.Idle := ⟨first, opens⟩
          have quiet : Resolved (closers ++ rest) := by
            have behind := resolved.2
            rwa [idle.behind] at behind
          have same := unchanged (eq_nil_of_closing closing quiet)
          rw [idle.behind] at same
          exact opened (congrFun same key)
        · rcases rest with _ | ⟨last, _ | ⟨second, rest⟩⟩
          · exact absurd (finish key) opened
          · have left : last.behind later key = 0 := finish.2 key
            rw [StartsAfresh] at afresh
            simp only [Round.behind, afresh, count_nil] at left
            omega
          · simp
        · intro closed
          have all := finish.totals key
          have own := ResolvedFrom.totals closed key
          omega

end Netcatty.Pairing
