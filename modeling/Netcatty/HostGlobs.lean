import Netcatty.KnownHostsRules

/-!
What a pattern with wildcards matches.
-/

namespace Netcatty.KnownHosts

open List Bool

theorem globMatches_exact {wild : Fin 65536 → Bool} {pattern : JsString}
    (plain : hasWildcard pattern = false) (name : JsString) :
    globMatches wild pattern name ↔ pattern = name := by
  simp only [hasWildcard, or_eq_false_iff] at plain
  induction pattern generalizing name with
  | nil =>
    unfold globMatches
    rw [List.isEmpty_iff, eq_comm]
  | cons p pattern ih =>
    simp only [contains_cons, or_eq_false_iff, beq_eq_false_iff_ne] at plain
    obtain ⟨⟨star_, stars⟩, question, questions⟩ := plain
    unfold globMatches
    rw [if_neg (Ne.symm star_)]
    cases name with
    | nil => simp
    | cons u rest =>
      dsimp only
      rw [if_neg (Ne.symm question), and_eq_true, decide_eq_true_eq, ih _ ⟨stars, questions⟩,
        List.cons.injEq]

theorem CaseMap.hasWildcard_lower (case : CaseMap) (pattern : JsString) :
    hasWildcard (case.lower pattern) = hasWildcard pattern := by
  have contains : ∀ mark, isMark mark = true →
      (case.lower pattern).contains mark = pattern.contains mark := by
    intro mark marked
    rw [Bool.eq_iff_iff, contains_iff_mem, contains_iff_mem]
    unfold CaseMap.lower
    rw [List.mem_map]
    constructor
    · rintro ⟨u, mem, same⟩
      have fixed := case.reflects u (same ▸ marked)
      exact (fixed.symm.trans same) ▸ mem
    · exact fun mem => ⟨mark, mem, case.fixes mark marked⟩
  unfold hasWildcard
  rw [contains star (by decide), contains questionUnit (by decide)]

theorem globMatches_wild {wild : Fin 65536 → Bool} (pattern : JsString) {name : JsString}
    (all : ∀ u ∈ name, wild u) :
    globMatches wild pattern name = globMatches (fun _ => true) pattern name := by
  induction pattern generalizing name with
  | nil => rfl
  | cons p pattern ih =>
    unfold globMatches
    by_cases starred : p = star
    · rw [if_pos starred, if_pos starred, Bool.eq_iff_iff, List.any_eq_true, List.any_eq_true]
      refine exists_congr fun rest => and_congr_right fun mem => ?_
      have suffix := (mem_tails _ _).mp mem
      rw [ih fun u later => all u (suffix.mem later), and_eq_true, and_eq_true,
        List.all_eq_true, List.all_eq_true]
      exact and_congr_left fun _ =>
        ⟨fun _ _ _ => rfl, fun _ u taken => all u (mem_of_mem_take taken)⟩
    · rw [if_neg starred, if_neg starred]
      cases name with
      | nil => rfl
      | cons u rest =>
        dsimp only
        rw [ih fun v later => all v (mem_cons_of_mem _ later), all u mem_cons_self]

theorem globMatches_append {a b name : JsString}
    (whole : globMatches (fun _ => true) (a ++ b) name) :
    ∃ first second, name = first ++ second ∧ globMatches (fun _ => true) a first ∧
      globMatches (fun _ => true) b second := by
  induction a generalizing name with
  | nil => exact ⟨[], name, rfl, rfl, whole⟩
  | cons p a ih =>
    rw [cons_append] at whole
    unfold globMatches at whole
    by_cases starred : p = star
    · rw [if_pos starred, List.any_eq_true] at whole
      obtain ⟨rest, mem, later⟩ := whole
      rw [and_eq_true] at later
      obtain ⟨before, cut⟩ := (mem_tails _ _).mp mem
      obtain ⟨first, second, parts, front, back⟩ := ih later.2
      refine ⟨before ++ first, second, by rw [append_assoc, ← parts, cut], ?_, back⟩
      unfold globMatches
      rw [if_pos starred, List.any_eq_true]
      refine ⟨first, (mem_tails _ _).mpr (suffix_append _ _), ?_⟩
      rw [front, Bool.and_true, List.all_eq_true]
      exact fun _ _ => rfl
    · rw [if_neg starred] at whole
      cases name with
      | nil => cases whole
      | cons u rest =>
        dsimp only at whole
        rw [and_eq_true] at whole
        obtain ⟨first, second, parts, front, back⟩ := ih whole.2
        refine ⟨u :: first, second, by rw [parts, cons_append], ?_, back⟩
        unfold globMatches
        rw [if_neg starred]
        dsimp only
        rw [whole.1, front]
        rfl

theorem globMatches_join {a b first second : JsString}
    (front : globMatches (fun _ => true) a first)
    (back : globMatches (fun _ => true) b second) :
    globMatches (fun _ => true) (a ++ b) (first ++ second) := by
  induction a generalizing first with
  | nil =>
    unfold globMatches at front
    rw [List.isEmpty_iff.mp front]
    exact back
  | cons p a ih =>
    rw [cons_append]
    unfold globMatches at front ⊢
    by_cases starred : p = star
    · rw [if_pos starred, List.any_eq_true] at front ⊢
      obtain ⟨rest, mem, later⟩ := front
      rw [and_eq_true] at later
      obtain ⟨before, cut⟩ := (mem_tails _ _).mp mem
      refine ⟨rest ++ second, (mem_tails _ _).mpr ⟨before, ?_⟩, ?_⟩
      · rw [← append_assoc, cut]
      · rw [ih later.2, Bool.and_true, List.all_eq_true]
        exact fun _ _ => rfl
    · rw [if_neg starred] at front ⊢
      cases first with
      | nil => cases front
      | cons u rest =>
        dsimp only at front
        rw [and_eq_true] at front
        rw [cons_append]
        dsimp only
        rw [front.1, ih front.2]
        rfl

end Netcatty.KnownHosts
