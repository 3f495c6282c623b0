import Mathlib.Data.List.Induction

/-!
Scanners that are fed a stream piece by piece.

A scanner reads a buffer from a state, emits what it recognised and holds back
the rest of the buffer.  The next piece is appended to what was held back.  When
scanning `a ++ b` in one go does what scanning `a` and then the held rest with
`b` does, the cuts of the stream do not matter.
-/

namespace ResumableScan

open List

variable {S A E : Type*}

/-- What a scanner leaves behind: its state, what it emitted, what it holds back. -/
structure Outcome (S A E : Type*) where
  state : S
  emitted : List E
  held : List A

def feed (scan : S → List A → Outcome S A E) (before : Outcome S A E) (piece : List A) :
    Outcome S A E :=
  let next := scan before.state (before.held ++ piece)
  ⟨next.state, before.emitted ++ next.emitted, next.held⟩

def feedAll (scan : S → List A → Outcome S A E) (state : S) (pieces : List (List A)) :
    Outcome S A E :=
  pieces.foldl (feed scan) ⟨state, [], []⟩

/-- A scan may be interrupted anywhere. -/
structure Resumable (scan : S → List A → Outcome S A E) : Prop where
  nil : ∀ state, scan state [] = ⟨state, [], []⟩
  append : ∀ state a b, scan state (a ++ b) = feed scan (scan state a) b

namespace Resumable

variable {scan : S → List A → Outcome S A E}

/-- Feeding pieces is scanning their concatenation. -/
theorem feedAll_eq (resumable : Resumable scan) (state : S) (pieces : List (List A)) :
    feedAll scan state pieces = scan state pieces.flatten := by
  induction pieces using List.reverseRecOn with
  | nil => exact (resumable.nil state).symm
  | append_singleton pieces piece ih =>
    rw [flatten_append, flatten_singleton, resumable.append, ← ih]
    simp [feedAll]

end Resumable

/-! ## Token by token -/

/-- A reader of one token from the front of a buffer, or of nothing when the
buffer does not hold a complete one. -/
structure Tokenizer (A T : Type*) where
  next : List A → Option (T × List A)
  /-- A token takes something from the buffer. -/
  shrinks : ∀ {buf token rest}, next buf = some (token, rest) → rest.length < buf.length
  /-- More input does not change a token that was complete. -/
  stable : ∀ {buf token rest} (more : List A), next buf = some (token, rest) →
    next (buf ++ more) = some (token, rest ++ more)

namespace Tokenizer

variable {T : Type*} (k : Tokenizer A T)

/-- Read tokens until none is complete. -/
def run (buf : List A) : List T × List A :=
  match _found : k.next buf with
  | none => ([], buf)
  | some read =>
    let later := run read.2
    (read.1 :: later.1, later.2)
  termination_by buf.length
  decreasing_by exact k.shrinks _found

variable {k} {buf rest : List A} {token : T}

theorem run_of_none (found : k.next buf = none) : k.run buf = ([], buf) := by
  rw [run]
  split
  · rfl
  · rename_i read
    rw [found] at read
    cases read

theorem run_of_some (found : k.next buf = some (token, rest)) :
    k.run buf = (token :: (k.run rest).1, (k.run rest).2) := by
  rw [run]
  split
  · rename_i none
    rw [found] at none
    cases none
  · rename_i read same
    rw [found, Option.some.injEq] at same
    rw [← same]

/-- Reading may stop and go on anywhere. -/
theorem run_append (a b : List A) : k.run (a ++ b) =
    ((k.run a).1 ++ (k.run ((k.run a).2 ++ b)).1, (k.run ((k.run a).2 ++ b)).2) := by
  induction len : a.length using Nat.strongRecOn generalizing a with
  | ind n ih =>
    cases found : k.next a with
    | none => rw [run_of_none found, nil_append]
    | some read =>
      obtain ⟨token, rest⟩ := read
      have shorter : rest.length < n := len ▸ k.shrinks found
      rw [run_of_some (k.stable b found), run_of_some found, ih _ shorter rest rfl]
      rfl

/-! ## Acting on tokens -/

/-- What a list of tokens does from a state, where one token does `act`. -/
def interpret (act : S → T → S × List E) (state : S) : List T → S × List E
  | [] => (state, [])
  | token :: tokens =>
    let now := act state token
    let later := interpret act now.1 tokens
    (later.1, now.2 ++ later.2)

theorem interpret_append (act : S → T → S × List E) (state : S) (a b : List T) :
    interpret act state (a ++ b) =
      ((interpret act (interpret act state a).1 b).1,
        (interpret act state a).2 ++ (interpret act (interpret act state a).1 b).2) := by
  induction a generalizing state with
  | nil => rfl
  | cons token a ih => simp only [cons_append, interpret, ih, append_assoc]

/-- Read what is complete and act on it. -/
def scan (k : Tokenizer A T) (act : S → T → S × List E) (state : S) (buf : List A) :
    Outcome S A E :=
  let done := interpret act state (k.run buf).1
  ⟨done.1, done.2, (k.run buf).2⟩

theorem resumable (k : Tokenizer A T) (act : S → T → S × List E) : Resumable (k.scan act) where
  nil state := by
    have none : k.next [] = Option.none := by
      cases found : k.next [] with
      | none => rfl
      | some read => exact absurd (k.shrinks found) (Nat.not_lt_zero _)
    rw [scan, run_of_none none]
    rfl
  append state a b := by
    unfold scan feed
    rw [run_append, interpret_append]

end Tokenizer

end ResumableScan
