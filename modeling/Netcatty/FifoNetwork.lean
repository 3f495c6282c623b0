import Mathlib.Data.List.Basic
import Mathlib.Data.Nat.Find

/-!
Two processes joined by two FIFO lines.

A process reads one item at a time, and answers it with a new state and items for the other
line.  Which process goes first does not matter: from a configuration with a run that comes to an
end, every run comes to that end, in the same number of steps.
-/

namespace Netcatty.FifoNetwork

open List Option

variable {σ ρ α β : Type}

/-- What a process does with the next item; `none` where it does not read. -/
structure Process (σ α β : Type) where
  read : σ → Option (α → σ × List β)

structure Config (σ ρ α β : Type) where
  left : σ
  right : ρ
  /-- From left to right. -/
  forward : List α
  /-- From right to left. -/
  backward : List β

inductive Step (left : Process σ β α) (right : Process ρ α β) : Config σ ρ α β → Config σ ρ α β → Prop
  | left {s : σ} {r : ρ} {forward : List α} {b : β} {backward : List β} {answer : β → σ × List α}
    (reads : left.read s = some answer) :
    Step left right ⟨s, r, forward, b :: backward⟩ ⟨(answer b).1, r, forward ++ (answer b).2, backward⟩
  | right {s : σ} {r : ρ} {a : α} {forward : List α} {backward : List β} {answer : α → ρ × List β}
    (reads : right.read r = some answer) :
    Step left right ⟨s, r, a :: forward, backward⟩ ⟨s, (answer a).1, forward, backward ++ (answer a).2⟩

inductive Run (left : Process σ β α) (right : Process ρ α β) : ℕ → Config σ ρ α β → Config σ ρ α β → Prop
  | refl (config : Config σ ρ α β) : Run left right 0 config config
  | step {n : ℕ} {first second last : Config σ ρ α β} (one : Step left right first second)
    (rest : Run left right n second last) : Run left right (n + 1) first last

/-- No process can read. -/
def Stuck (left : Process σ β α) (right : Process ρ α β) (config : Config σ ρ α β) : Prop :=
  ∀ next, ¬Step left right config next

variable {left : Process σ β α} {right : Process ρ α β}

/-- Two steps from one configuration are the same, or meet again after one more each. -/
theorem Step.diamond {first second third : Config σ ρ α β} (one : Step left right first second)
    (other : Step left right first third) :
    second = third ∨ ∃ last, Step left right second last ∧ Step left right third last := by
  cases one with
  | @left s r forward b backward answer reads =>
    cases other with
    | left reads' =>
      rw [reads, some_inj] at reads'
      exact .inl (by rw [reads'])
    | @right _ _ a rest _ answer' reads' =>
      refine .inr ⟨⟨(answer b).1, (answer' a).1, rest ++ (answer b).2, backward ++ (answer' a).2⟩, ?_, ?_⟩
      · exact .right reads'
      · exact .left reads
  | @right s r a forward backward answer reads =>
    cases other with
    | right reads' =>
      rw [reads, some_inj] at reads'
      exact .inl (by rw [reads'])
    | @left _ _ _ b rest answer' reads' =>
      refine .inr ⟨⟨(answer' b).1, (answer a).1, forward ++ (answer' b).2, rest ++ (answer a).2⟩, ?_, ?_⟩
      · exact .left reads'
      · exact .right reads

theorem Run.trans {m n : ℕ} {first second third : Config σ ρ α β} (run : Run left right m first second)
    (rest : Run left right n second third) : Run left right (m + n) first third := by
  induction run with
  | refl => rwa [Nat.zero_add]
  | @step k _ _ _ one _ ih =>
    rw [Nat.add_right_comm]
    exact .step one (ih rest)

theorem Run.after_step {n : ℕ} {first second last : Config σ ρ α β} (run : Run left right n first last)
    (stuck : Stuck left right last) (one : Step left right first second) :
    ∃ m, n = m + 1 ∧ Run left right m second last := by
  induction run generalizing second with
  | refl => exact absurd one (stuck _)
  | @step k _ middle _ two rest ih =>
    rcases two.diamond one with rfl | ⟨meeting, here, there⟩
    · exact ⟨k, rfl, rest⟩
    · obtain ⟨m, count, after⟩ := ih stuck here
      exact ⟨m + 1, by rw [count], .step there after⟩

theorem Run.confluent {n k : ℕ} {first middle last : Config σ ρ α β} (run : Run left right n first last)
    (stuck : Stuck left right last) (other : Run left right k first middle) :
    ∃ m, n = k + m ∧ Run left right m middle last := by
  induction other generalizing n with
  | refl => exact ⟨n, (Nat.zero_add n).symm, run⟩
  | step one _ ih =>
    obtain ⟨m, count, after⟩ := run.after_step stuck one
    obtain ⟨m', count', after'⟩ := ih after
    exact ⟨m', by omega, after'⟩

/-! ## Reaching -/

def Reaches (left : Process σ β α) (right : Process ρ α β) (first last : Config σ ρ α β) : Prop :=
  ∃ n, Run left right n first last

theorem Reaches.refl (config : Config σ ρ α β) : Reaches left right config config := ⟨0, .refl config⟩

theorem Reaches.trans {first second third : Config σ ρ α β} (run : Reaches left right first second)
    (rest : Reaches left right second third) : Reaches left right first third := by
  obtain ⟨m, run⟩ := run
  obtain ⟨n, rest⟩ := rest
  exact ⟨m + n, run.trans rest⟩

theorem Reaches.retry {attempt success : ℕ → Config σ ρ α β} {fails : ℕ → Prop} {limit : ℕ}
    (sometimes : ∃ k < limit, ¬ fails k)
    (again : ∀ k, k + 1 < limit → fails k → Reaches left right (attempt k) (attempt (k + 1)))
    (done : ∀ k < limit, ¬ fails k → Reaches left right (attempt k) (success k)) :
    ∃ k < limit, Reaches left right (attempt 0) (success k) := by
  classical
  have first := Nat.find_spec sometimes
  refine ⟨Nat.find sometimes, first.1, Reaches.trans ?_ (done _ first.1 first.2)⟩
  have through : ∀ k ≤ Nat.find sometimes, Reaches left right (attempt 0) (attempt k) := by
    intro k le
    induction k with
    | zero => exact .refl _
    | succ k ih =>
      have failed : fails k := by
        by_contra fine
        exact Nat.find_min sometimes le ⟨by omega, fine⟩
      exact (ih (by omega)).trans (again k (by omega) failed)
  exact through _ (le_refl _)

/-! ## One process at a time -/

/-- A process that reads items, one after the other. -/
def Process.feed {σ α β : Type} (process : Process σ α β) : σ → List α → Option (σ × List β)
  | s, [] => some (s, [])
  | s, a :: rest =>
    (process.read s).bind fun answer =>
      (Process.feed process (answer a).1 rest).map fun after => (after.1, (answer a).2 ++ after.2)

theorem Process.feed_nil {σ α β : Type} (process : Process σ α β) (s : σ) : process.feed s [] = some (s, []) := rfl

theorem Process.feed_cons {σ α β : Type} {process : Process σ α β} {s next last : σ} {a : α} {rest : List α}
    {out out' : List β} {answer : α → σ × List β} (reads : process.read s = some answer)
    (one : answer a = (next, out)) (more : process.feed next rest = some (last, out')) :
    process.feed s (a :: rest) = some (last, out ++ out') := by
  unfold Process.feed
  rw [reads, bind_some, one, more]
  rfl

theorem Process.of_feed {σ α β : Type} {process : Process σ α β} {s last : σ} {a : α} {rest : List α} {out : List β}
    (fed : process.feed s (a :: rest) = some (last, out)) : ∃ answer out', process.read s = some answer ∧
      process.feed (answer a).1 rest = some (last, out') ∧ (answer a).2 ++ out' = out := by
  obtain ⟨answer, reads, fed⟩ := bind_eq_some_iff.mp fed
  obtain ⟨⟨_, out'⟩, more, same⟩ := map_eq_some_iff.mp fed
  cases same
  exact ⟨answer, out', reads, more, rfl⟩

theorem Process.feed_append {σ α β : Type} {process : Process σ α β} {s middle last : σ} {items more : List α}
    {out out' : List β} (first : process.feed s items = some (middle, out))
    (second : process.feed middle more = some (last, out')) :
    process.feed s (items ++ more) = some (last, out ++ out') := by
  induction items generalizing s out with
  | nil =>
    cases first
    exact second
  | cons a rest ih =>
    obtain ⟨_, _, reads, fed, rfl⟩ := Process.of_feed first
    rw [append_assoc]
    exact Process.feed_cons reads rfl (ih fed)

/-- The left process reads what is first on its line. -/
theorem run_left {s last : σ} {items : List β} {out : List α} (fed : left.feed s items = some (last, out))
    (r : ρ) (forward : List α) (backward : List β) :
    Run left right items.length ⟨s, r, forward, items ++ backward⟩ ⟨last, r, forward ++ out, backward⟩ := by
  induction items generalizing s out forward with
  | nil =>
    cases fed
    rw [append_nil]
    exact .refl _
  | cons b rest ih =>
    obtain ⟨answer, _, reads, fed', rfl⟩ := Process.of_feed fed
    have rest' := ih fed' (forward ++ (answer b).2)
    rw [append_assoc] at rest'
    exact .step (.left reads) rest'

theorem run_right {r last : ρ} {items : List α} {out : List β} (fed : right.feed r items = some (last, out))
    (s : σ) (forward : List α) (backward : List β) :
    Run left right items.length ⟨s, r, items ++ forward, backward⟩ ⟨s, last, forward, backward ++ out⟩ := by
  induction items generalizing r out backward with
  | nil =>
    cases fed
    rw [append_nil]
    exact .refl _
  | cons a rest ih =>
    obtain ⟨answer, _, reads, fed', rfl⟩ := Process.of_feed fed
    have rest' := ih fed' (backward ++ (answer a).2)
    rw [append_assoc] at rest'
    exact .step (.right reads) rest'

theorem reaches_exchange {s last : σ} {r r' : ρ} {items out : List α} {answers : List β}
    (fed : right.feed r items = some (r', answers)) (answered : left.feed s answers = some (last, out)) :
    Reaches left right ⟨s, r, items, []⟩ ⟨last, r', out, []⟩ := by
  have there := @run_right _ _ _ _ left right _ _ _ _ fed s [] []
  have back := @run_left _ _ _ _ left right _ _ _ _ answered r' [] []
  rw [append_nil] at there back
  exact ⟨_, there.trans back⟩

theorem stuck_of_stopped {s : σ} {r : ρ} {forward : List α} {backward : List β} (stops : left.read s = none)
    (stops' : right.read r = none) : Stuck left right ⟨s, r, forward, backward⟩ := by
  intro next step
  cases step with
  | left reads =>
    rw [stops] at reads
    cases reads
  | right reads =>
    rw [stops'] at reads
    cases reads

theorem stuck_of_empty (s : σ) (r : ρ) : Stuck left right ⟨s, r, [], []⟩ := by
  intro next step
  cases step

end Netcatty.FifoNetwork
