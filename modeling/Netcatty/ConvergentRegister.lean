import Netcatty.ConvergentPaths

/-!
Multi-value registers: `register.ts`.

A register keeps every candidate no other candidate has observed.  The lemmas
below say what each function computes in terms of membership, so later modules
never unfold the loops: `mem_registerCausalContext`, `selectRegisterWinner_spec`,
`registerHasConflict_iff` and `mem_mergeMultiValueRegisters`.
-/

namespace Netcatty

open List

/-- `isTombstoneCandidate`. -/
def isTombstoneCandidate (candidate : RegisterCandidate) : Bool := candidate.value.isNone

variable (register : Option MultiValueRegister)

/-- `register?.candidates ?? []`. -/
def registerCandidates : List RegisterCandidate :=
  (register.map MultiValueRegister.candidates).getD []

@[simp] theorem registerCandidates_none : registerCandidates none = [] := rfl

@[simp] theorem registerCandidates_some (register : MultiValueRegister) :
    registerCandidates (some register) = register.candidates := rfl

/-- `candidateFingerprint`: the candidate with its context sorted and its value
canonical, which is what the fingerprint text prints. -/
def candidateFingerprint (candidate : RegisterCandidate) : RegisterCandidate where
  dot := candidate.dot
  context := candidate.context.insertionSort (· ≤ ·)
  hlc := candidate.hlc
  value := candidate.value.map canonicalizeJson

/-- `assertEquivalentCandidates`. -/
def assertEquivalentCandidates (left right : RegisterCandidate) : Checked Unit :=
  ensure (candidateFingerprint left = candidateFingerprint right)
    (.invariant (text "Dot " ++ dotKey left.dot ++ text " has conflicting candidate payloads"))

/-- `candidateDominates`. -/
def candidateDominates (winner candidate : RegisterCandidate) : Bool :=
  winner.context.any fun dot => dotKey dot = dotKey candidate.dot

/-- `registerCausalContext`: every dot the register has observed, once, in dot
order. -/
def registerCausalContext : List Dot :=
  ((registerCandidates register).flatMap fun candidate =>
    candidate.context ++ [candidate.dot]).dedup.insertionSort (· ≤ ·)

/-- `compareRegisterCandidates`: a value after a tombstone, then the clock, the
device and the counter. -/
def compareRegisterCandidates (left right : RegisterCandidate) : Ordering :=
  if isTombstoneCandidate left ≠ isTombstoneCandidate right then
    if isTombstoneCandidate left then .lt else .gt
  else (compareHybridLogicalClocks left.hlc right.hlc).then
    (compareDots left.dot right.dot)

/-- `selectRegisterWinner`. -/
def selectRegisterWinner : Option RegisterCandidate :=
  match registerCandidates register with
  | [] => none
  | first :: rest => some (rest.foldl (fun winner candidate =>
      if compareRegisterCandidates candidate winner = .gt then candidate else winner) first)

variable (candidates : List RegisterCandidate)

/-- The entry of `new Map(candidates.map(c => [dotKey(c.dot), c]))` under a key. -/
def candidateByDot (key : JsString) :
    Option RegisterCandidate :=
  candidates.reverse.find? fun candidate => dotKey candidate.dot = key

variable (left right : Option MultiValueRegister)

/-- What `mergeMultiValueRegisters` keeps under one dot key. -/
def keptCandidate (key : JsString) :
    Option RegisterCandidate :=
  match candidateByDot (registerCandidates left) key,
      candidateByDot (registerCandidates right) key with
  | some leftCandidate, some _ => some leftCandidate
  | some leftCandidate, none =>
    if (registerCausalContext right).any fun dot => dotKey dot = dotKey leftCandidate.dot then none
    else some leftCandidate
  | none, some rightCandidate =>
    if (registerCausalContext left).any fun dot => dotKey dot = dotKey rightCandidate.dot then none
    else some rightCandidate
  | none, none => none

/-- The check `mergeMultiValueRegisters` makes under one dot key. -/
def assertSharedCandidate (key : JsString) :
    Checked Unit :=
  match candidateByDot (registerCandidates left) key,
      candidateByDot (registerCandidates right) key with
  | some leftCandidate, some rightCandidate =>
    assertEquivalentCandidates leftCandidate rightCandidate
  | _, _ => .ok ()

def registerOfCandidates : Option MultiValueRegister :=
  match candidates.insertionSort (fun a b => a.dot ≤ b.dot) with
  | [] => none
  | sorted => some { candidates := sorted }

/-- `mergeMultiValueRegisters`.  The loop over keys checks shared dots first and
then collects, which throws the same error: collecting throws none. -/
def mergeMultiValueRegisters :
    Checked (Option MultiValueRegister) := do
  let keys := ((registerCandidates left ++ registerCandidates right).map fun candidate =>
    dotKey candidate.dot).eraseDups
  keys.forM (assertSharedCandidate left right)
  let candidates := keys.filterMap (keptCandidate left right)
  -- One candidate per key, so another index in the list is another dot.
  let maximal := candidates.filter fun candidate =>
    !candidates.any fun other => other.dot ≠ candidate.dot && candidateDominates other candidate
  return registerOfCandidates maximal

/-- `registerHasConflict`: two candidates with different canonical values, a
tombstone counting as a value of its own. -/
def registerHasConflict (register : MultiValueRegister) : Bool :=
  if register.candidates.length < 2 then false
  else decide (1 < ((register.candidates.map fun candidate =>
    candidate.value.map canonicalizeJson).dedup).length)

/-! ## Contexts -/

variable {register : Option MultiValueRegister}

theorem mem_registerCausalContext {dot : Dot} : dot ∈ registerCausalContext register ↔
      ∃ candidate ∈ registerCandidates register, dot ∈ candidate.context ∨ dot = candidate.dot := by
  simp [registerCausalContext, mem_insertionSort]

theorem registerCausalContext_nodup (register : Option MultiValueRegister) :
    (registerCausalContext register).Nodup :=
  (perm_insertionSort _ _).nodup_iff.mpr (nodup_dedup _)

/-! ## The winner -/

/-- The rank `compareRegisterCandidates` orders by. -/
def candidateRank (candidate : RegisterCandidate) : Bool ×ₗ HybridLogicalClock ×ₗ Dot :=
  toLex (!isTombstoneCandidate candidate, toLex (candidate.hlc, candidate.dot))

theorem compareRegisterCandidates_gt_iff {left right : RegisterCandidate} :
    compareRegisterCandidates left right = .gt ↔ candidateRank right < candidateRank left := by
  simp only [compareRegisterCandidates, candidateRank, Prod.Lex.toLex_lt_toLex,
    compareHybridLogicalClocks, compareDots]
  cases isTombstoneCandidate left <;> cases isTombstoneCandidate right <;>
    simp [Ordering.then_eq_gt, compare_gt_iff_gt, compare_eq_iff_eq, @eq_comm _ right.hlc]

theorem foldl_winner_spec (rest : List RegisterCandidate) (first : RegisterCandidate) :
    let winner := rest.foldl (fun winner candidate =>
      if compareRegisterCandidates candidate winner = .gt then candidate else winner) first
    winner ∈ first :: rest ∧ ∀ c ∈ first :: rest, candidateRank c ≤ candidateRank winner := by
  induction rest generalizing first with
  | nil => simp
  | cons next rest ih =>
    simp only [foldl_cons]
    by_cases later : compareRegisterCandidates next first = .gt
    · rw [if_pos later]
      obtain ⟨mem, top⟩ := ih next
      refine ⟨mem_cons_of_mem _ mem, fun c hc => ?_⟩
      rcases mem_cons.mp hc with rfl | hc
      · exact (compareRegisterCandidates_gt_iff.mp later).le.trans (top next (by simp))
      · exact top c hc
    · rw [if_neg later]
      obtain ⟨mem, top⟩ := ih first
      have ordered : candidateRank next ≤ candidateRank first :=
        not_lt.mp fun h => later (compareRegisterCandidates_gt_iff.mpr h)
      constructor
      · rcases mem_cons.mp mem with eq | mem
        · rw [eq]; simp
        · exact mem_cons_of_mem _ (mem_cons_of_mem _ mem)
      · intro c hc
        rcases mem_cons.mp hc with rfl | hc
        · exact top c (by simp)
        · rcases mem_cons.mp hc with rfl | hc
          · exact ordered.trans (top first (by simp))
          · exact top c (by simp [hc])

theorem selectRegisterWinner_spec
    {winner : RegisterCandidate} (selected : selectRegisterWinner register = some winner) :
    winner ∈ registerCandidates register ∧
      ∀ c ∈ registerCandidates register, candidateRank c ≤ candidateRank winner := by
  unfold selectRegisterWinner at selected
  split at selected
  · cases selected
  · rename_i first rest eq
    cases selected
    rw [eq]
    exact foldl_winner_spec rest first

theorem selectRegisterWinner_eq_none :
    selectRegisterWinner register = none ↔ registerCandidates register = [] := by
  unfold selectRegisterWinner
  split <;> simp_all

/-- A value outranks every tombstone, so the winner is a value as soon as one
candidate is. -/
theorem winner_isValue {winner c : RegisterCandidate}
    (selected : selectRegisterWinner register = some winner) (mem : c ∈ registerCandidates register)
    (value : isTombstoneCandidate c = false) : isTombstoneCandidate winner = false := by
  have rank := (selectRegisterWinner_spec selected).2 c mem
  by_contra tombstone
  rw [Bool.not_eq_false] at tombstone
  simp only [candidateRank, Prod.Lex.toLex_le_toLex, value, tombstone] at rank
  exact absurd rank (by simp)

/-! ## Conflicts -/

theorem registerHasConflict_iff {register : MultiValueRegister} :
    registerHasConflict register ↔ ∃ c ∈ register.candidates, ∃ c' ∈ register.candidates,
      c.value.map canonicalizeJson ≠ c'.value.map canonicalizeJson := by
  have two : ∀ l : List (Option JsonValue),
      1 < l.dedup.length ↔ ∃ x ∈ l, ∃ y ∈ l, x ≠ y := by
    intro l
    constructor
    · intro long
      obtain ⟨x, y, rest, eq⟩ : ∃ x y rest, l.dedup = x :: y :: rest := by
        match l.dedup, long with
        | x :: y :: rest, _ => exact ⟨x, y, rest, rfl⟩
      have nodup := nodup_dedup l
      rw [eq] at nodup
      refine ⟨x, ?_, y, ?_, ?_⟩
      · rw [← mem_dedup, eq]; simp
      · rw [← mem_dedup, eq]; simp
      · rintro rfl; simp at nodup
    · rintro ⟨x, hx, y, hy, ne⟩
      by_contra short
      have mx := mem_dedup.mpr hx
      have my := mem_dedup.mpr hy
      match eq : l.dedup with
      | [] => rw [eq] at mx; cases mx
      | [z] =>
        rw [eq, mem_singleton] at mx my
        exact ne (mx.trans my.symm)
      | _ :: _ :: _ => rw [eq] at short; simp at short
  unfold registerHasConflict
  split
  · rename_i short
    simp only [Bool.false_eq_true, false_iff, not_exists, not_and, not_not]
    intro c hc c' hc'
    match eq : register.candidates with
    | [] => rw [eq] at hc; cases hc
    | [z] =>
      rw [eq, mem_singleton] at hc hc'
      rw [hc, hc']
    | _ :: _ :: _ =>
      rw [eq] at short
      simp only [length_cons] at short
      omega
  · rw [decide_eq_true_eq, two]
    simp

theorem registerHasConflict_eq_false {register : MultiValueRegister} :
    registerHasConflict register = false ↔ ∀ c ∈ register.candidates, ∀ c' ∈ register.candidates,
      c.value.map canonicalizeJson = c'.value.map canonicalizeJson := by
  rw [← Bool.not_eq_true, registerHasConflict_iff]
  push Not
  rfl

/-! ## The join -/

/-- Candidates are told apart by their dots. -/
def DotsDistinct : Prop :=
  ∀ c ∈ candidates, ∀ c' ∈ candidates, c.dot = c'.dot → c = c'

variable {candidates : List RegisterCandidate}

theorem dotsDistinct_of_pairwise
    (pairwise : candidates.Pairwise fun c c' => c.dot ≠ c'.dot) : DotsDistinct candidates := by
  induction candidates with
  | nil => simp [DotsDistinct]
  | cons first rest ih =>
    obtain ⟨others, tail⟩ := pairwise_cons.mp pairwise
    intro c mem c' mem' same
    rcases mem_cons.mp mem with rfl | inRest
    · rcases mem_cons.mp mem' with rfl | inRest'
      · rfl
      · exact absurd same (others c' inRest')
    · rcases mem_cons.mp mem' with rfl | inRest'
      · exact absurd same.symm (others c inRest)
      · exact ih tail c inRest c' inRest' same

/-- What the loop of `mergeMultiValueRegisters` keeps: a candidate of both sides,
or of one side when the other has not observed its dot. -/
def Kept (c : RegisterCandidate) : Prop :=
  (c ∈ registerCandidates left ∧ c ∈ registerCandidates right) ∨
  (c ∈ registerCandidates left ∧ c.dot ∉ registerCausalContext right) ∨
  (c ∈ registerCandidates right ∧ c.dot ∉ registerCausalContext left)

theorem candidateByDot_eq_some
    (distinct : DotsDistinct candidates) {key : JsString} {c : RegisterCandidate} :
    candidateByDot candidates key = some c ↔ c ∈ candidates ∧ dotKey c.dot = key := by
  constructor
  · intro found
    have holds := find?_some found
    exact ⟨mem_reverse.mp (mem_of_find?_eq_some found), by simpa using holds⟩
  · rintro ⟨mem, rfl⟩
    cases found : candidateByDot candidates (dotKey c.dot) with
    | none =>
      have absent := find?_eq_none.mp found c (mem_reverse.mpr mem)
      simp at absent
    | some c' =>
      have holds := find?_some found
      have mem' := mem_reverse.mp (mem_of_find?_eq_some found)
      rw [distinct c' mem' c mem (by simpa using holds)]

theorem candidateByDot_eq_none {key : JsString} :
    candidateByDot candidates key = none ↔ ∀ c ∈ candidates, dotKey c.dot ≠ key := by
  simp [candidateByDot]

theorem registerCandidates_registerOfCandidates (candidates : List RegisterCandidate) :
    registerCandidates (registerOfCandidates candidates) =
      candidates.insertionSort (fun a b => a.dot ≤ b.dot) := by
  unfold registerOfCandidates
  split
  · rename_i eq; rw [eq]; rfl
  · rfl

theorem registerOfCandidates_eq_none : registerOfCandidates candidates = none ↔
      candidates.insertionSort (fun a b => a.dot ≤ b.dot) = [] := by
  unfold registerOfCandidates
  split <;> simp_all

section Join

variable {left right : Option MultiValueRegister}
  (distinctLeft : DotsDistinct (registerCandidates left))
  (distinctRight : DotsDistinct (registerCandidates right))
  (agree : ∀ c ∈ registerCandidates left, ∀ c' ∈ registerCandidates right,
    c.dot = c'.dot → c = c')
include distinctLeft distinctRight agree

theorem keptCandidate_eq_some {key : JsString} {c : RegisterCandidate} :
    keptCandidate left right key = some c ↔ Kept left right c ∧ dotKey c.dot = key := by
  unfold keptCandidate
  split
  · -- Both sides retain the dot: `agree` makes them one candidate.
    rename_i l r hl hr
    obtain ⟨lMem, lKey⟩ := (candidateByDot_eq_some distinctLeft).mp hl
    obtain ⟨rMem, rKey⟩ := (candidateByDot_eq_some distinctRight).mp hr
    have same : l = r := agree l lMem r rMem (dotKey_inj.mp (lKey.trans rKey.symm))
    subst same
    constructor
    · intro eq
      cases eq
      exact ⟨Or.inl ⟨lMem, rMem⟩, lKey⟩
    · rintro ⟨kept, key'⟩
      have dots : c.dot = l.dot := dotKey_inj.mp (key'.trans lKey.symm)
      rcases kept with ⟨mem, _⟩ | ⟨mem, _⟩ | ⟨mem, _⟩
      · rw [distinctLeft c mem l lMem dots]
      · rw [distinctLeft c mem l lMem dots]
      · rw [distinctRight c mem l rMem dots]
  · rename_i l hl hr
    obtain ⟨lMem, lKey⟩ := (candidateByDot_eq_some distinctLeft).mp hl
    have onlyLeft := candidateByDot_eq_none.mp hr
    have choose : Kept left right c ∧ dotKey c.dot = key ↔
        l = c ∧ l.dot ∉ registerCausalContext right := by
      constructor
      · rintro ⟨kept, key'⟩
        rcases kept with ⟨_, mem⟩ | ⟨mem, unseen⟩ | ⟨mem, _⟩
        · exact absurd key' (onlyLeft c mem)
        · have same := distinctLeft c mem l lMem (dotKey_inj.mp (key'.trans lKey.symm))
          exact ⟨same.symm, same ▸ unseen⟩
        · exact absurd key' (onlyLeft c mem)
      · rintro ⟨rfl, unseen⟩
        exact ⟨Or.inr (Or.inl ⟨lMem, unseen⟩), lKey⟩
    rw [choose]
    by_cases seen : l.dot ∈ registerCausalContext right
    · simp [seen]
    · simp [seen]
  · rename_i r hl hr
    obtain ⟨rMem, rKey⟩ := (candidateByDot_eq_some distinctRight).mp hr
    have onlyRight := candidateByDot_eq_none.mp hl
    have choose : Kept left right c ∧ dotKey c.dot = key ↔
        r = c ∧ r.dot ∉ registerCausalContext left := by
      constructor
      · rintro ⟨kept, key'⟩
        rcases kept with ⟨mem, _⟩ | ⟨mem, _⟩ | ⟨mem, unseen⟩
        · exact absurd key' (onlyRight c mem)
        · exact absurd key' (onlyRight c mem)
        · have same := distinctRight c mem r rMem (dotKey_inj.mp (key'.trans rKey.symm))
          exact ⟨same.symm, same ▸ unseen⟩
      · rintro ⟨rfl, unseen⟩
        exact ⟨Or.inr (Or.inr ⟨rMem, unseen⟩), rKey⟩
    rw [choose]
    by_cases seen : r.dot ∈ registerCausalContext left
    · simp [seen]
    · simp [seen]
  · rename_i hl hr
    have noLeft := candidateByDot_eq_none.mp hl
    have noRight := candidateByDot_eq_none.mp hr
    simp only [reduceCtorEq, false_iff, not_and]
    rintro (⟨mem, _⟩ | ⟨mem, _⟩ | ⟨mem, _⟩)
    · exact noLeft c mem
    · exact noLeft c mem
    · exact noRight c mem

/-- **The register join.**  When shared dots carry the same candidate the join
succeeds; it keeps the kept candidates no other kept candidate has observed, in
dot order, and is absent when there is none. -/
theorem mem_mergeMultiValueRegisters : ∃ merged, mergeMultiValueRegisters left right = .ok merged ∧
      (∀ c, c ∈ registerCandidates merged ↔ Kept left right c ∧
        ∀ other, Kept left right other → other.dot ≠ c.dot → c.dot ∉ other.context) ∧
      (registerCandidates merged).Pairwise (fun a b => a.dot < b.dot) ∧
      (merged = none ↔ registerCandidates merged = []) := by
  set keys := ((registerCandidates left ++ registerCandidates right).map fun candidate =>
    dotKey candidate.dot).eraseDups with keysDef
  set candidates := keys.filterMap (keptCandidate left right) with candidatesDef
  have memCandidates : ∀ c, c ∈ candidates ↔ Kept left right c := by
    intro c
    rw [candidatesDef, mem_filterMap]
    constructor
    · rintro ⟨key, _, kept⟩
      exact ((keptCandidate_eq_some distinctLeft distinctRight agree).mp kept).1
    · intro kept
      refine ⟨dotKey c.dot, ?_, (keptCandidate_eq_some distinctLeft distinctRight agree).mpr
        ⟨kept, rfl⟩⟩
      rw [keysDef, mem_eraseDups, List.mem_map]
      refine ⟨c, mem_append.mpr ?_, rfl⟩
      rcases kept with ⟨mem, _⟩ | ⟨mem, _⟩ | ⟨mem, _⟩
      · exact Or.inl mem
      · exact Or.inl mem
      · exact Or.inr mem
  set maximal := candidates.filter fun candidate =>
    !candidates.any fun other => other.dot ≠ candidate.dot && candidateDominates other candidate
    with maximalDef
  have memMaximal : ∀ c, c ∈ maximal ↔ Kept left right c ∧
      ∀ other, Kept left right other → other.dot ≠ c.dot → c.dot ∉ other.context := by
    intro c
    simp [maximalDef, mem_filter, memCandidates, candidateDominates]
  have checked : keys.forM (assertSharedCandidate left right) = .ok () := by
    refine forM_eq_ok.mpr fun key _ => ?_
    unfold assertSharedCandidate
    split
    · rename_i l r hl hr
      obtain ⟨lMem, lKey⟩ := (candidateByDot_eq_some distinctLeft).mp hl
      obtain ⟨rMem, rKey⟩ := (candidateByDot_eq_some distinctRight).mp hr
      rw [agree l lMem r rMem (dotKey_inj.mp (lKey.trans rKey.symm))]
      simp [assertEquivalentCandidates]
    · rfl
  have run : mergeMultiValueRegisters left right = .ok (registerOfCandidates maximal) := by
    change ((keys.forM (assertSharedCandidate left right)) >>= fun _ =>
      pure (registerOfCandidates maximal)) = _
    rw [checked]
    rfl
  have same := registerCandidates_registerOfCandidates maximal
  refine ⟨_, run, ?_, ?_, ?_⟩
  · intro c
    rw [same, mem_insertionSort, memMaximal]
  · rw [same]
    -- Kept candidates have pairwise different keys, so the sort is strict.
    have nodupKeys : keys.Nodup := keysDef ▸ eraseDups_nodup _
    have nodup : candidates.Pairwise fun a b => a.dot ≠ b.dot := by
      rw [candidatesDef, pairwise_filterMap]
      refine nodupKeys.imp fun {key key'} ne c hc c' hc' dots => ne ?_
      rw [← ((keptCandidate_eq_some distinctLeft distinctRight agree).mp hc).2,
        ← ((keptCandidate_eq_some distinctLeft distinctRight agree).mp hc').2, dots]
    have nodupSorted := (perm_insertionSort (fun a b : RegisterCandidate => a.dot ≤ b.dot)
      maximal).pairwise_iff (R := fun a b => a.dot ≠ b.dot) (fun h => h.symm) |>.mpr
      (nodup.filter _)
    exact (pairwise_insertionSort _ maximal).imp₂ (fun _ _ le ne => lt_of_le_of_ne le ne)
      nodupSorted
  · rw [same]
    exact registerOfCandidates_eq_none

end Join

end Netcatty
