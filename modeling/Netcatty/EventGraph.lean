import Mathlib.Data.Set.Card

/-!
Causal histories of registers, and what a replica retains of them.

Every event writes one register and lists the earlier events of that register
its writer had observed.  A replica has observed a cut: a finite set of events
closed under contexts.  The frontier of a cut is what a multi-value register
keeps: the events no observed event has in its context.  The lemmas say how the
frontier changes when an event is added to a cut and when two cuts are joined.
-/

/-- Events, the register each one writes, and the events each one has observed. -/
structure EventGraph (E R : Type*) where
  register : E → R
  context : E → Set E

namespace EventGraph

variable {E R : Type*} {G G' : EventGraph E R} {C D : Set E} {e : E} {r : R}

/-- A finite set of events that holds the context of each of its members, where
contexts stay within a register and are transitive and irreflexive. -/
structure IsCut (G : EventGraph E R) (C : Set E) : Prop where
  finite : C.Finite
  closed : ∀ e ∈ C, G.context e ⊆ C
  sameRegister : ∀ e ∈ C, ∀ e' ∈ G.context e, G.register e' = G.register e
  transitive : ∀ e ∈ C, ∀ e' ∈ G.context e, G.context e' ⊆ G.context e
  irreflexive : ∀ e ∈ C, e ∉ G.context e

def events (G : EventGraph E R) (C : Set E) (r : R) : Set E := {e | e ∈ C ∧ G.register e = r}

def frontier (G : EventGraph E R) (C : Set E) (r : R) : Set E :=
  {e | e ∈ C ∧ G.register e = r ∧ ∀ e' ∈ C, e ∉ G.context e'}

def Agree (G G' : EventGraph E R) (C : Set E) : Prop :=
  ∀ e ∈ C, G.register e = G'.register e ∧ G.context e = G'.context e

theorem IsCut.congr (agree : G.Agree G' C) (cut : G.IsCut C) : G'.IsCut C where
  finite := cut.finite
  closed e mem := (agree e mem).2 ▸ cut.closed e mem
  sameRegister e mem e' mem' := by
    rw [← (agree e mem).2] at mem'
    rw [← (agree e mem).1, ← (agree e' (cut.closed e mem mem')).1]
    exact cut.sameRegister e mem e' mem'
  transitive e mem e' mem' := by
    rw [← (agree e mem).2] at mem' ⊢
    rw [← (agree e' (cut.closed e mem mem')).2]
    exact cut.transitive e mem e' mem'
  irreflexive e mem := (agree e mem).2 ▸ cut.irreflexive e mem

theorem frontier_congr (agree : G.Agree G' C) (r : R) : G.frontier C r = G'.frontier C r := by
  ext e
  constructor
  · rintro ⟨mem, reg, top⟩
    exact ⟨mem, (agree e mem).1 ▸ reg, fun e' mem' => (agree e' mem').2 ▸ top e' mem'⟩
  · rintro ⟨mem, reg, top⟩
    exact ⟨mem, (agree e mem).1 ▸ reg, fun e' mem' => (agree e' mem').2 ▸ top e' mem'⟩

theorem IsCut.empty : G.IsCut ∅ where
  finite := Set.finite_empty
  closed _ mem := mem.elim
  sameRegister _ mem := mem.elim
  transitive _ mem := mem.elim
  irreflexive _ mem := mem.elim

/-! ## Covering -/

/-- Every event of a cut is in the frontier or observed by an event of it. -/
theorem IsCut.covered (cut : G.IsCut C) (mem : e ∈ C) :
    ∃ f ∈ G.frontier C (G.register e), e = f ∨ e ∈ G.context f := by
  -- Climbing to an observer strictly shrinks the set of observers.
  induction size : {e' | e' ∈ C ∧ e ∈ G.context e'}.ncard using Nat.strong_induction_on
    generalizing e with
  | _ n ih =>
    by_cases top : ∀ e' ∈ C, e ∉ G.context e'
    · exact ⟨e, ⟨mem, rfl, top⟩, Or.inl rfl⟩
    · push Not at top
      obtain ⟨above, aboveMem, seen⟩ := top
      have same := cut.sameRegister above aboveMem e seen
      have fewer : {e' | e' ∈ C ∧ above ∈ G.context e'} ⊂ {e' | e' ∈ C ∧ e ∈ G.context e'} := by
        refine ⟨fun e' ⟨m, o⟩ => ⟨m, cut.transitive e' m above o seen⟩, fun sub => ?_⟩
        exact cut.irreflexive above aboveMem (sub ⟨aboveMem, seen⟩).2
      have smaller := Set.ncard_lt_ncard fewer (cut.finite.subset fun _ h => h.1)
      obtain ⟨f, front, reach⟩ := ih _ (size ▸ smaller) aboveMem rfl
      refine ⟨f, same ▸ front, Or.inr ?_⟩
      rcases reach with rfl | reach
      · exact seen
      · exact cut.transitive f front.1 above reach seen

theorem IsCut.mem_events (cut : G.IsCut C) :
    e ∈ G.events C r ↔ ∃ f ∈ G.frontier C r, e = f ∨ e ∈ G.context f := by
  constructor
  · rintro ⟨mem, rfl⟩
    exact cut.covered mem
  · rintro ⟨f, ⟨mem, reg, _⟩, rfl | seen⟩
    · exact ⟨mem, reg⟩
    · exact ⟨cut.closed f mem seen, (cut.sameRegister f mem e seen).trans reg⟩

theorem IsCut.frontier_nonempty (cut : G.IsCut C) (mem : e ∈ G.events C r) :
    (G.frontier C r).Nonempty := by
  obtain ⟨f, front, _⟩ := cut.mem_events.mp mem
  exact ⟨f, front⟩

/-! ## Adding an event -/

def Extends (G : EventGraph E R) (C : Set E) (e : E) : Prop :=
  e ∉ C ∧ G.context e = G.events C (G.register e)

theorem IsCut.insert (cut : G.IsCut C) (added : G.Extends C e) : G.IsCut (insert e C) where
  finite := cut.finite.insert e
  closed e' mem x seen := by
    rcases Set.mem_insert_iff.mp mem with rfl | mem
    · rw [added.2] at seen
      exact Set.mem_insert_of_mem _ seen.1
    · exact Set.mem_insert_of_mem _ (cut.closed e' mem seen)
  sameRegister e' mem x seen := by
    rcases Set.mem_insert_iff.mp mem with rfl | mem
    · rw [added.2] at seen
      exact seen.2
    · exact cut.sameRegister e' mem x seen
  transitive e' mem x seen y seen' := by
    rcases Set.mem_insert_iff.mp mem with rfl | mem
    · rw [added.2] at seen ⊢
      exact ⟨cut.closed x seen.1 seen', (cut.sameRegister x seen.1 y seen').trans seen.2⟩
    · exact cut.transitive e' mem x seen seen'
  irreflexive e' mem seen := by
    rcases Set.mem_insert_iff.mp mem with rfl | mem
    · rw [added.2] at seen
      exact added.1 seen.1
    · exact cut.irreflexive e' mem seen

theorem IsCut.frontier_insert_self (cut : G.IsCut C) (added : G.Extends C e) :
    G.frontier (Insert.insert e C) (G.register e) = {e} := by
  ext x
  constructor
  · rintro ⟨mem, reg, top⟩
    rcases Set.mem_insert_iff.mp mem with rfl | mem
    · rfl
    · exact absurd (added.2 ▸ ⟨mem, reg⟩ : x ∈ G.context e) (top e (Set.mem_insert _ _))
  · rintro rfl
    refine ⟨Set.mem_insert _ _, rfl, fun e' mem => ?_⟩
    rcases Set.mem_insert_iff.mp mem with rfl | mem
    · exact (cut.insert added).irreflexive _ (Set.mem_insert _ _)
    · exact fun seen => added.1 (cut.closed e' mem seen)

/-- Adding an event leaves the frontier of the other registers alone. -/
theorem frontier_insert_other (added : G.Extends C e) (other : r ≠ G.register e) :
    G.frontier (Insert.insert e C) r = G.frontier C r := by
  ext x
  constructor
  · rintro ⟨mem, reg, top⟩
    rcases Set.mem_insert_iff.mp mem with rfl | mem
    · exact absurd reg.symm other
    · exact ⟨mem, reg, fun e' mem' => top e' (Set.mem_insert_of_mem _ mem')⟩
  · rintro ⟨mem, reg, top⟩
    refine ⟨Set.mem_insert_of_mem _ mem, reg, fun e' mem' => ?_⟩
    rcases Set.mem_insert_iff.mp mem' with rfl | mem'
    · rw [added.2]
      exact fun seen => other (reg.symm.trans seen.2)
    · exact top e' mem'

/-! ## Joining cuts -/

theorem IsCut.union (left : G.IsCut C) (right : G.IsCut D) : G.IsCut (C ∪ D) where
  finite := left.finite.union right.finite
  closed e mem := mem.elim (fun h => (left.closed e h).trans Set.subset_union_left)
    fun h => (right.closed e h).trans Set.subset_union_right
  sameRegister e mem := mem.elim (left.sameRegister e) (right.sameRegister e)
  transitive e mem := mem.elim (left.transitive e) (right.transitive e)
  irreflexive e mem := mem.elim (left.irreflexive e) (right.irreflexive e)

theorem IsCut.mem_frontier_union (left : G.IsCut C) (right : G.IsCut D) :
    e ∈ G.frontier (C ∪ D) r ↔ (e ∈ G.frontier C r ∧ e ∈ G.frontier D r) ∨
      (e ∈ G.frontier C r ∧ e ∉ D) ∨ (e ∈ G.frontier D r ∧ e ∉ C) := by
  constructor
  · rintro ⟨mem, reg, top⟩
    have inLeft : e ∈ C → e ∈ G.frontier C r := fun h => ⟨h, reg, fun e' m => top e' (Or.inl m)⟩
    have inRight : e ∈ D → e ∈ G.frontier D r := fun h => ⟨h, reg, fun e' m => top e' (Or.inr m)⟩
    by_cases l : e ∈ C
    · by_cases r : e ∈ D
      · exact Or.inl ⟨inLeft l, inRight r⟩
      · exact Or.inr (Or.inl ⟨inLeft l, r⟩)
    · exact Or.inr (Or.inr ⟨inRight (mem.resolve_left l), l⟩)
  · rintro (⟨⟨mem, reg, top⟩, _, _, top'⟩ | ⟨⟨mem, reg, top⟩, unseen⟩ | ⟨⟨mem, reg, top⟩, unseen⟩)
    · exact ⟨Or.inl mem, reg, fun e' m => m.elim (top e') (top' e')⟩
    · exact ⟨Or.inl mem, reg, fun e' m =>
        m.elim (top e') fun h seen => unseen (right.closed e' h seen)⟩
    · exact ⟨Or.inr mem, reg, fun e' m =>
        m.elim (fun h seen => unseen (left.closed e' h seen)) (top e')⟩

end EventGraph
