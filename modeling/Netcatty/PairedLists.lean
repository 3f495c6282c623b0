import Mathlib.Data.List.Forall2

/-!
Two lists whose items belong together, place by place.
-/

namespace Netcatty.PairedLists

open List

variable {α β : Type} {P : α → β → Prop} {l : List α} {m : List β}

theorem exists_left (all : Forall₂ P l m) {b : β} (mem : b ∈ m) : ∃ a ∈ l, P a b := by
  induction all with
  | nil => cases mem
  | cons held _ ih =>
    rcases mem_cons.mp mem with rfl | later
    · exact ⟨_, mem_cons_self, held⟩
    · obtain ⟨a, here, both⟩ := ih later
      exact ⟨a, mem_cons_of_mem _ here, both⟩

theorem exists_right (all : Forall₂ P l m) {a : α} (mem : a ∈ l) : ∃ b ∈ m, P a b := by
  obtain ⟨b, here, both⟩ := exists_left all.flip mem
  exact ⟨b, here, both⟩

theorem map_eq {γ : Type} {f : α → γ} {g : β → γ} (all : Forall₂ P l m) (same : ∀ a b, P a b → g b = f a) :
    m.map g = l.map f := by
  induction all with
  | nil => rfl
  | cons held _ ih => rw [map_cons, map_cons, same _ _ held, ih]

theorem comp {γ : Type} {Q : β → γ → Prop} {n : List γ} (first : Forall₂ P l m) (second : Forall₂ Q m n) :
    Forall₂ (fun a c => ∃ b, P a b ∧ Q b c) l n := by
  induction first generalizing n with
  | nil =>
    cases second
    exact .nil
  | cons held _ ih =>
    cases second with
    | cons held' others => exact .cons ⟨_, held, held'⟩ (ih others)

theorem of_map_eq {γ : Type} {f : α → γ} {g : β → γ} (same : l.map f = m.map g) : Forall₂ (fun a b => f a = g b) l m := by
  rw [← forall₂_eq_eq_eq, forall₂_map_left_iff, forall₂_map_right_iff] at same
  exact same

theorem forall₂_of_mapM {ε : Type} {f : α → Except ε β} (ran : l.mapM f = .ok m) :
    Forall₂ (fun a b => f a = .ok b) l m := by
  induction l generalizing m with
  | nil =>
    cases ran
    exact .nil
  | cons a l ih =>
    rw [mapM_cons] at ran
    cases first : f a with
    | error error =>
      rw [first] at ran
      cases ran
    | ok b =>
      cases others : l.mapM f with
      | error error =>
        rw [first, others] at ran
        cases ran
      | ok rest =>
        rw [first, others] at ran
        cases ran
        exact .cons first (ih others)

theorem exists_foldlM {ε σ : Type} {f : σ → α → Except ε σ} (each : ∀ a ∈ l, ∀ state, ∃ after, f state a = .ok after)
    (state : σ) : ∃ after, l.foldlM f state = .ok after := by
  induction l generalizing state with
  | nil => exact ⟨state, rfl⟩
  | cons a l ih =>
    obtain ⟨next, first⟩ := each a mem_cons_self state
    obtain ⟨after, others⟩ := ih (fun other mem => each other (mem_cons_of_mem _ mem)) next
    refine ⟨after, ?_⟩
    rw [foldlM_cons, first]
    exact others

end Netcatty.PairedLists
