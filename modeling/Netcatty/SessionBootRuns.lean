import Mathlib.Data.List.Infix
import Mathlib.Data.List.Nodup
import Mathlib.Order.MinMax
import Netcatty.SessionBoots

/-!
Which of several overlapping starts wins.

A registration aborts whatever start is pending, so the starts must register in the order
of their epochs; the registry's slot and the newest known epoch need no such order.
-/

namespace Netcatty.SessionBoots

open BootRegistry List Option Bool

variable {E : Type}

theorem dispose_cases (registry : BootRegistry E) (session : ℕ) :
    ((registry.sessions session).displacedDisposed ∧
      registry.disposeDisplacedSessionResources session = registry) ∨
    ((registry.sessions session).displacedDisposed = false ∧
      registry.disposeDisplacedSessionResources session =
        { registry.setSession session { registry.sessions session with displacedDisposed := true }
          with disposed := registry.disposed ++ [session] }) := by
  unfold disposeDisplacedSessionResources
  cases done : (registry.sessions session).displacedDisposed with
  | true => exact .inl ⟨rfl, rfl⟩
  | false => exact .inr ⟨rfl, rfl⟩

/-! ## What holds of a registry -/

/-- What holds of the registry after these actions. -/
structure Consistent (epochOf : ℕ → E) (registry : BootRegistry E) : Prop where
  /-- Every pending start carries an epoch. -/
  pending : ∀ pending ∈ registry.pendingBootAborts, pending.bootEpoch.isSome = true
  /-- The holder carries its own epoch. -/
  holder : ∀ session ∈ registry.holder,
    (registry.sessions session).bootEpoch = some (epochOf session)
  /-- What was torn down is marked. -/
  marked : ∀ session, session ∈ registry.disposed ↔
    (registry.sessions session).displacedDisposed = true
  once : registry.disposed.Nodup

section Objects

variable {epochOf : ℕ → E} {registry : BootRegistry E}

theorem consistent_empty : Consistent epochOf (emptyRegistry : BootRegistry E) :=
  ⟨fun _ mem => absurd mem (not_mem_none _), fun _ mem => absurd mem (not_mem_none _),
    fun _ => by simp [emptyRegistry], nodup_nil⟩

theorem Consistent.supersede (consistent : Consistent epochOf registry) (session : ℕ)
    (bootEpoch : Option E) :
    Consistent epochOf (registry.setSession session { registry.sessions session with
      supersededByBootEpoch := bootEpoch, closed := true }) := by
  refine ⟨consistent.pending, fun other mem => ?_, fun other => ?_, consistent.once⟩
  · have held := consistent.holder other mem
    by_cases own : other = session
    · subst own
      simpa [setSession] using held
    · simpa [setSession, own] using held
  · by_cases own : other = session
    · subst own
      simpa [setSession] using consistent.marked other
    · simpa [setSession, own] using consistent.marked other

theorem Consistent.dispose (consistent : Consistent epochOf registry) (session : ℕ) :
    Consistent epochOf (registry.disposeDisplacedSessionResources session) := by
  rcases dispose_cases registry session with ⟨_, same⟩ | ⟨fresh, same⟩
  · rwa [same]
  · rw [same]
    refine ⟨consistent.pending, fun other mem => ?_, fun other => ?_, ?_⟩
    · have held := consistent.holder other mem
      by_cases own : other = session
      · subst own
        simpa [setSession] using held
      · simpa [setSession, own] using held
    · by_cases own : other = session
      · subst own
        simp [setSession]
      · simpa [setSession, own] using consistent.marked other
    · rw [nodup_append]
      refine ⟨consistent.once, nodup_singleton _, fun other old new mem same => ?_⟩
      have marked := (consistent.marked other).mp old
      rw [same, mem_singleton.mp mem, fresh] at marked
      exact Bool.noConfusion marked

end Objects

/-! ## One step -/

variable [LinearOrder E]

theorem isAbove_eq_true {left right : Option E} :
    isAbove left right ↔ ∃ l r, left = some l ∧ right = some r ∧ r < l := by
  cases left with
  | none => simp [isAbove]
  | some l =>
    cases right with
    | none => simp [isAbove]
    | some r => simp [isAbove]

theorem isAbove_some {l r : E} : isAbove (some l) (some r) ↔ r < l := by
  simp [isAbove]

section Step

variable {registry : BootRegistry E} {start holder : ℕ} {bootEpoch : Option E}

/-- A claim takes a free slot, is refused, or takes the slot from its holder, whose resources
are torn down where its epoch is lower. -/
theorem claim_cases (registry : BootRegistry E) (start : ℕ) (bootEpoch : Option E) :
    ((registry.holder = none ∨ registry.holder = some start) ∧
      registry.claimSessionSlot start bootEpoch =
        (.ok none, registry.takeSlot start bootEpoch)) ∨
    ∃ holder, registry.holder = some holder ∧ holder ≠ start ∧
      ((isAbove (registry.sessions holder).bootEpoch bootEpoch ∧
          registry.claimSessionSlot start bootEpoch = (.superseded, registry)) ∨
        (isAbove (registry.sessions holder).bootEpoch bootEpoch = false ∧
          isAbove bootEpoch (registry.sessions holder).bootEpoch ∧
          registry.claimSessionSlot start bootEpoch = (.ok (some holder),
            ((registry.setSession holder { registry.sessions holder with
              supersededByBootEpoch := bootEpoch, closed := true }).takeSlot start
                bootEpoch).disposeDisplacedSessionResources holder)) ∨
        (isAbove (registry.sessions holder).bootEpoch bootEpoch = false ∧
          isAbove bootEpoch (registry.sessions holder).bootEpoch = false ∧
          registry.claimSessionSlot start bootEpoch =
            (.ok none, registry.takeSlot start bootEpoch))) := by
  unfold claimSessionSlot
  cases held : registry.holder with
  | none => exact .inl ⟨.inl rfl, rfl⟩
  | some holder =>
    by_cases own : holder = start
    · exact .inl ⟨.inr (own ▸ rfl), if_pos own⟩
    · refine .inr ⟨holder, rfl, own, ?_⟩
      dsimp only
      rw [if_neg own]
      cases lower : isAbove (registry.sessions holder).bootEpoch bootEpoch with
      | true => exact .inl ⟨rfl, rfl⟩
      | false =>
        cases higher : isAbove bootEpoch (registry.sessions holder).bootEpoch with
        | true => exact .inr (.inl ⟨rfl, rfl, rfl⟩)
        | false => exact .inr (.inr ⟨rfl, rfl, rfl⟩)

theorem claim_changes (registry : BootRegistry E) (start : ℕ) (bootEpoch : Option E) :
    let claimed := registry.claimSessionSlot start bootEpoch
    claimed.1 = .superseded ∧ claimed.2 = registry ∨
      claimed.1 ≠ .superseded ∧ claimed.2.aborted = registry.aborted ∧
        claimed.2.latestBootEpoch = noteEpoch registry.latestBootEpoch bootEpoch ∧
        claimed.2.holder = some start ∧ (claimed.2.disposed = registry.disposed ∨
          ∃ holder, registry.holder = some holder ∧ holder ≠ start ∧
            claimed.2.disposed = registry.disposed ++ [holder]) := by
  dsimp only
  rcases claim_cases registry start bootEpoch with ⟨_, same⟩ |
    ⟨holder, held, other, ⟨_, same⟩ | ⟨_, _, same⟩ | ⟨_, _, same⟩⟩
  · rw [same]
    exact .inr ⟨ClaimResult.noConfusion, rfl, rfl, rfl, .inl rfl⟩
  · rw [same]
    exact .inl ⟨rfl, rfl⟩
  · rw [same]
    rcases dispose_cases ((registry.setSession holder { registry.sessions holder with
      supersededByBootEpoch := bootEpoch, closed := true }).takeSlot start bootEpoch) holder with
      ⟨_, torn⟩ | ⟨_, torn⟩
    · rw [torn]
      exact .inr ⟨ClaimResult.noConfusion, rfl, rfl, rfl, .inl rfl⟩
    · rw [torn]
      exact .inr ⟨ClaimResult.noConfusion, rfl, rfl, rfl, .inr ⟨holder, held, other, rfl⟩⟩
  · rw [same]
    exact .inr ⟨ClaimResult.noConfusion, rfl, rfl, rfl, .inl rfl⟩

theorem step_of_not_claim {epochOf : ℕ → E} {action : BootAction E} (other : ∀ start, action ≠ .claim start) :
    (registry.step epochOf action).disposed = registry.disposed ∧
      ∀ session ∈ (registry.step epochOf action).holder, session ∈ registry.holder := by
  have same : registry.disposed = registry.disposed ∧ ∀ session ∈ registry.holder, session ∈ registry.holder :=
    ⟨rfl, fun _ mem => mem⟩
  cases action with
  | register start => exact same
  | clear controller =>
    unfold BootRegistry.step clearPendingBootAbort
    dsimp only
    split <;> exact same
  | abort bootEpoch =>
    unfold BootRegistry.step abortPendingBoot
    dsimp only
    cases registry.pendingBootAborts with
    | none => exact same
    | some pending =>
      dsimp only
      split <;> exact same
  | claim start => exact absurd rfl (other start)
  | forget bootEpoch =>
    unfold BootRegistry.step forgetBootEpoch
    dsimp only
    split <;> exact same
  | remove => exact ⟨rfl, fun _ mem => absurd mem (not_mem_none _)⟩

end Step

/-! ## Every run -/

section Consistent

variable {epochOf : ℕ → E} {registry : BootRegistry E}

section

variable (consistent : Consistent epochOf registry)
include consistent

theorem Consistent.takeSlot (start : ℕ) :
    Consistent epochOf (registry.takeSlot start (some (epochOf start))) := by
  refine ⟨consistent.pending, fun session mem => ?_, fun session => ?_, consistent.once⟩
  · obtain rfl : start = session := Option.some.inj mem
    simp [BootRegistry.takeSlot]
  · by_cases own : session = start
    · subst own
      simpa [BootRegistry.takeSlot] using consistent.marked session
    · simpa [BootRegistry.takeSlot, own] using consistent.marked session

theorem Consistent.claim (start : ℕ) :
    Consistent epochOf (registry.claimSessionSlot start (some (epochOf start))).2 := by
  rcases claim_cases registry start (some (epochOf start)) with ⟨_, same⟩ |
    ⟨holder, _, _, ⟨_, same⟩ | ⟨_, _, same⟩ | ⟨_, _, same⟩⟩
  · rw [same]
    exact consistent.takeSlot start
  · rw [same]
    exact consistent
  · rw [same]
    exact ((consistent.supersede holder _).takeSlot start).dispose holder
  · rw [same]
    exact consistent.takeSlot start

theorem Consistent.step (action : BootAction E) :
    Consistent epochOf (registry.step epochOf action) := by
  cases action with
  | register start =>
    refine ⟨fun pending mem => ?_, consistent.holder, consistent.marked, consistent.once⟩
    obtain rfl := Option.some.inj mem
    rfl
  | clear controller =>
    unfold BootRegistry.step clearPendingBootAbort
    dsimp only
    split
    · exact ⟨fun _ mem => absurd mem (not_mem_none _), consistent.holder, consistent.marked,
        consistent.once⟩
    · exact consistent
  | abort bootEpoch =>
    unfold BootRegistry.step abortPendingBoot
    dsimp only
    cases pending : registry.pendingBootAborts with
    | none => exact consistent
    | some boot =>
      dsimp only
      split
      · exact consistent
      · exact ⟨fun _ mem => absurd mem (not_mem_none _), consistent.holder,
          consistent.marked, consistent.once⟩
  | claim start => exact consistent.claim start
  | forget bootEpoch =>
    unfold BootRegistry.step forgetBootEpoch
    dsimp only
    split
    · exact consistent
    · exact ⟨consistent.pending, consistent.holder, consistent.marked, consistent.once⟩
  | remove =>
    exact ⟨consistent.pending, fun _ mem => absurd mem (not_mem_none _), consistent.marked,
      consistent.once⟩

end

theorem run_append (epochOf : ℕ → E) (actions later : List (BootAction E)) :
    run epochOf (actions ++ later) = later.foldl (BootRegistry.step epochOf) (run epochOf actions) :=
  foldl_append

theorem run_concat (epochOf : ℕ → E) (actions : List (BootAction E)) (action : BootAction E) :
    run epochOf (actions ++ [action]) = (run epochOf actions).step epochOf action := by
  rw [run_append]
  rfl

theorem consistent_run (actions : List (BootAction E)) : Consistent epochOf (run epochOf actions) := by
  induction actions using List.reverseRecOn with
  | nil => exact consistent_empty
  | append_singleton actions action ih =>
    rw [run_concat]
    exact ih.step action

end Consistent

/-! ## Aborts -/

section Aborts

variable (epochOf : ℕ → E) (registry : BootRegistry E)

def MayAbort (pending : PendingBoot E) : BootAction E → Prop
  | .register start => ∃ epoch, pending.bootEpoch = some epoch ∧ epoch < epochOf start
  | .abort none => True
  | .abort (some requested) => ∃ epoch, pending.bootEpoch = some epoch ∧ epoch ≤ requested
  | _ => False

def AbortsEntitled (action : BootAction E) : Prop :=
  (registry.step epochOf action).aborted = registry.aborted ∨
    ∃ pending, registry.pendingBootAborts = some pending ∧
      (registry.step epochOf action).aborted = registry.aborted ++ [pending.controller] ∧
      MayAbort epochOf pending action

variable {epochOf registry}

theorem register_aborts_iff {start : ℕ} : AbortsEntitled epochOf registry (.register start) ↔
      ∀ pending ∈ registry.pendingBootAborts,
        ∃ epoch, pending.bootEpoch = some epoch ∧ epoch < epochOf start := by
  unfold AbortsEntitled BootRegistry.step registerPendingBootAbort MayAbort
  dsimp only
  cases held : registry.pendingBootAborts with
  | none => simp
  | some pending => simp

theorem aborts_of_not_register (consistent : Consistent epochOf registry) {action : BootAction E}
    (other : ∀ start, action ≠ .register start) : AbortsEntitled epochOf registry action := by
  cases action with
  | register start => exact absurd rfl (other start)
  | clear controller =>
    left
    unfold BootRegistry.step clearPendingBootAbort
    dsimp only
    split
    · rfl
    · rfl
  | abort bootEpoch =>
    unfold AbortsEntitled BootRegistry.step abortPendingBoot
    dsimp only
    cases held : registry.pendingBootAborts with
    | none => exact .inl rfl
    | some pending =>
      dsimp only
      cases above : isAbove pending.bootEpoch bootEpoch with
      | true => exact .inl rfl
      | false =>
        refine .inr ⟨pending, rfl, rfl, ?_⟩
        cases bootEpoch with
        | none => trivial
        | some requested =>
          obtain ⟨epoch, same⟩ := isSome_iff_exists.mp (consistent.pending pending held)
          refine ⟨epoch, same, ?_⟩
          rw [same, ← not_eq_true, isAbove_some, not_lt] at above
          exact above
  | claim start =>
    rcases claim_changes registry start (some (epochOf start)) with ⟨-, same⟩ | ⟨-, same, -⟩
    · exact .inl (congrArg (·.aborted) same)
    · exact .inl same
  | forget bootEpoch =>
    left
    unfold BootRegistry.step forgetBootEpoch
    dsimp only
    split
    · rfl
    · rfl
  | remove => exact .inl rfl

end Aborts

/-! ## The slot -/

section Slot

variable {epochOf : ℕ → E} {registry : BootRegistry E}

/-- A claim does not replace a holder with a higher epoch. -/
theorem claim_keeps_newer (consistent : Consistent epochOf registry) {start holder : ℕ}
    (held : registry.holder = some holder) (newer : epochOf start < epochOf holder) :
    (registry.step epochOf (.claim start)).holder = some holder := by
  have own := consistent.holder holder held
  have above : isAbove (registry.sessions holder).bootEpoch (some (epochOf start)) = true := by
    rw [own]
    exact isAbove_some.mpr newer
  unfold BootRegistry.step
  dsimp only
  rcases claim_cases registry start (some (epochOf start)) with ⟨free | same, _⟩ |
    ⟨other, held', _, ⟨_, same⟩ | ⟨lower, _, _⟩ | ⟨lower, _, _⟩⟩
  · rw [free] at held
    cases held
  · obtain rfl := Option.some.inj (same.symm.trans held)
    exact absurd newer (lt_irrefl _)
  · rw [same]
    exact held
  all_goals
    obtain rfl := Option.some.inj (held'.symm.trans held)
    rw [above] at lower
    exact Bool.noConfusion lower

theorem disposed_step (epochOf : ℕ → E) (registry : BootRegistry E) (action : BootAction E) :
    (registry.step epochOf action).disposed = registry.disposed ∨
      ∃ start holder, action = .claim start ∧ registry.holder = some holder ∧ holder ≠ start ∧
        (registry.step epochOf action).holder = some start ∧
        (registry.step epochOf action).disposed = registry.disposed ++ [holder] := by
  by_cases claims : ∃ start, action = .claim start
  · obtain ⟨start, rfl⟩ := claims
    rcases claim_changes registry start (some (epochOf start)) with ⟨-, same⟩ |
      ⟨-, -, -, taken, same | ⟨holder, held, other, torn⟩⟩
    · exact .inl (congrArg (·.disposed) same)
    · exact .inl same
    · exact .inr ⟨start, holder, rfl, held, other, taken, torn⟩
  · exact .inl (step_of_not_claim (not_exists.mp claims)).1

theorem disposed_subset_step (registry : BootRegistry E) (action : BootAction E) :
    registry.disposed ⊆ (registry.step epochOf action).disposed := by
  rcases disposed_step epochOf registry action with same | ⟨_, holder, _, _, _, _, same⟩
  · rw [same]
    exact List.Subset.refl _
  · rw [same]
    exact subset_append_left _ _

theorem disposed_subset_run {done actions : List (BootAction E)} (earlier : done <+: actions) :
    (run epochOf done).disposed ⊆ (run epochOf actions).disposed := by
  obtain ⟨later, cut⟩ := earlier
  subst cut
  induction later using List.reverseRecOn with
  | nil => rw [append_nil]; exact List.Subset.refl _
  | append_singleton later action ih =>
    rw [← append_assoc, run_concat]
    exact List.Subset.trans ih (disposed_subset_step _ _)

theorem claim_disposes (consistent : Consistent epochOf registry) {start holder : ℕ}
    (held : registry.holder = some holder) (older : epochOf holder < epochOf start) :
    holder ∈ (registry.step epochOf (.claim start)).disposed := by
  have own := consistent.holder holder held
  have above : isAbove (some (epochOf start)) (registry.sessions holder).bootEpoch = true := by
    rw [own]
    exact isAbove_some.mpr older
  have claimed := consistent.claim start
  unfold BootRegistry.step
  dsimp only
  rcases claim_cases registry start (some (epochOf start)) with ⟨free | same, _⟩ |
    ⟨other, held', _, ⟨higher, _⟩ | ⟨_, _, same⟩ | ⟨_, lower, _⟩⟩
  · rw [free] at held
    cases held
  · obtain rfl := Option.some.inj (same.symm.trans held)
    exact absurd older (lt_irrefl _)
  · obtain rfl := Option.some.inj (held'.symm.trans held)
    rw [own, isAbove_some] at higher
    exact absurd higher (not_lt.mpr older.le)
  · obtain rfl := Option.some.inj (held'.symm.trans held)
    rw [claimed.marked, same]
    rcases dispose_cases ((registry.setSession other { registry.sessions other with
      supersededByBootEpoch := some (epochOf start), closed := true }).takeSlot start
        (some (epochOf start))) other with ⟨done, torn⟩ | ⟨_, torn⟩
    · rw [torn]
      exact done
    · rw [torn]
      simp [setSession]
  · obtain rfl := Option.some.inj (held'.symm.trans held)
    rw [above] at lower
    exact Bool.noConfusion lower

end Slot

/-! ## Claims of the holder -/

section Claims

variable (epochOf : ℕ → E)

theorem holder_step (registry : BootRegistry E) (action : BootAction E) :
    (∀ session ∈ (registry.step epochOf action).holder, session ∈ registry.holder) ∨
      ∃ start, action = .claim start ∧ (registry.step epochOf action).holder = some start := by
  by_cases claims : ∃ start, action = .claim start
  · obtain ⟨start, rfl⟩ := claims
    rcases claim_changes registry start (some (epochOf start)) with ⟨-, same⟩ | ⟨-, -, -, taken, -⟩
    · exact .inl fun session mem => (congrArg (·.holder) same) ▸ mem
    · exact .inr ⟨start, rfl, taken⟩
  · exact .inl (step_of_not_claim (not_exists.mp claims)).2

/-- A session that holds the slot has claimed it, again if it was torn down. -/
structure Claimed (actions : List (BootAction E)) (session : ℕ) : Prop where
  holder : (run epochOf actions).holder = some session → 1 ≤ actions.count (.claim session)
  disposed : session ∈ (run epochOf actions).disposed → 1 ≤ actions.count (.claim session)
  both : (run epochOf actions).holder = some session → session ∈ (run epochOf actions).disposed →
    2 ≤ actions.count (.claim session)

theorem claimed_run (actions : List (BootAction E)) (session : ℕ) :
    Claimed epochOf actions session := by
  induction actions using List.reverseRecOn with
  | nil =>
    exact ⟨fun held => absurd held (some_ne_none _).symm, fun mem => absurd mem not_mem_nil,
      fun held => absurd held (some_ne_none _).symm⟩
  | append_singleton actions action ih =>
    have disposed := disposed_step epochOf (run epochOf actions) action
    have held := holder_step epochOf (run epochOf actions) action
    have more : actions.count (.claim session) ≤ (actions ++ [action]).count (.claim session) := by
      rw [count_append]
      exact Nat.le_add_right _ _
    have claims : action = .claim session →
        (actions ++ [action]).count (.claim session) = actions.count (.claim session) + 1 := by
      intro same
      rw [count_append, same, count_singleton_self]
    -- the session was torn down before, or is now, and then another one holds the slot
    have torn : session ∈ ((run epochOf actions).step epochOf action).disposed →
        session ∈ (run epochOf actions).disposed ∨
          ((run epochOf actions).holder = some session ∧
            ((run epochOf actions).step epochOf action).holder ≠ some session) := by
      intro mem
      rcases disposed with same | ⟨start, holder, _, before, other, now, same⟩
      · exact .inl (same ▸ mem)
      · rw [same, mem_append, mem_singleton] at mem
        rcases mem with old | new
        · exact .inl old
        · subst new
          refine .inr ⟨before, fun after => other ?_⟩
          exact (Option.some.inj (now.symm.trans after)).symm
    have holds : ((run epochOf actions).step epochOf action).holder = some session →
        (run epochOf actions).holder = some session ∨ action = .claim session := by
      intro after
      rcases held with kept | ⟨start, same, now⟩
      · exact .inl (kept session after)
      · right
        rw [same, Option.some.inj (now.symm.trans after)]
    refine ⟨fun after => ?_, fun mem => ?_, fun after mem => ?_⟩
    · rw [run_concat] at after
      rcases holds after with before | now
      · exact (ih.holder before).trans more
      · have count := claims now
        omega
    · rw [run_concat] at mem
      rcases torn mem with before | ⟨before, _⟩
      · exact (ih.disposed before).trans more
      · exact (ih.holder before).trans more
    · rw [run_concat] at after mem
      rcases torn mem with torn | ⟨_, other⟩
      · rcases holds after with before | now
        · exact (ih.both before torn).trans more
        · have count := claims now
          have once := ih.disposed torn
          omega
      · exact absurd after other

end Claims

/-! ## The newest epoch -/

section Newest

variable {epochOf : ℕ → E} {registry : BootRegistry E} {known : Set E}

structure Newest (latest : Option E) (known : Set E) : Prop where
  bounds : ∀ epoch ∈ known, ∃ top, latest = some top ∧ epoch ≤ top
  mem : ∀ top, latest = some top → top ∈ known

theorem Newest.note {latest : Option E} (newest : Newest latest known) (epoch : E) :
    Newest (noteEpoch latest (some epoch)) (insert epoch known) := by
  unfold noteEpoch
  refine ⟨fun other mem => ⟨_, rfl, ?_⟩, fun top same => ?_⟩
  · rcases mem with own | old
    · exact own ▸ le_max_right _ _
    · obtain ⟨top, held, below⟩ := newest.bounds other old
      rw [held]
      exact below.trans (le_max_left _ _)
  · rw [← Option.some.inj same]
    cases held : latest with
    | none =>
      rw [getD_none, max_self]
      exact Set.mem_insert _ _
    | some top' =>
      rw [getD_some]
      rcases max_choice top' epoch with left | right
      · rw [left]
        exact Set.mem_insert_of_mem _ (newest.mem top' held)
      · rw [right]
        exact Set.mem_insert _ _

theorem Newest.step (newest : Newest registry.latestBootEpoch known) (action : BootAction E) :
    Newest (registry.step epochOf action).latestBootEpoch (knownStep epochOf registry known action) := by
  cases action with
  | register start => exact newest.note (epochOf start)
  | clear controller =>
    unfold BootRegistry.step clearPendingBootAbort
    dsimp only
    split
    · exact newest
    · exact newest
  | abort bootEpoch =>
    unfold BootRegistry.step abortPendingBoot
    dsimp only
    cases registry.pendingBootAborts with
    | none => exact newest
    | some pending =>
      dsimp only
      split
      · exact newest
      · exact newest
  | claim start =>
    unfold BootRegistry.step knownStep
    dsimp only
    rcases claim_changes registry start (some (epochOf start)) with ⟨refused, same⟩ | ⟨taken, -, latest, -⟩
    · rw [if_pos refused, same]
      exact newest
    · rw [if_neg taken, latest]
      exact newest.note (epochOf start)
  | forget bootEpoch =>
    unfold BootRegistry.step forgetBootEpoch
    dsimp only
    cases bootEpoch with
    | none =>
      have below : isAbove registry.latestBootEpoch none = false := by
        cases registry.latestBootEpoch with
        | none => rfl
        | some top => rfl
      rw [below]
      exact ⟨fun _ mem => absurd mem (Set.notMem_empty _),
        fun _ same => absurd same (some_ne_none _).symm⟩
    | some requested =>
      unfold knownStep
      dsimp only
      cases above : isAbove registry.latestBootEpoch (some requested) with
      | true =>
        refine ⟨fun epoch mem => newest.bounds epoch mem.1, fun top same => ?_⟩
        have held : registry.latestBootEpoch = some top := same
        rw [held, isAbove_some] at above
        exact ⟨newest.mem top held, above⟩
      | false =>
        refine ⟨fun epoch mem => ?_, fun _ same => absurd same (some_ne_none _).symm⟩
        obtain ⟨top, held, below⟩ := newest.bounds epoch mem.1
        rw [held, ← not_eq_true, isAbove_some] at above
        exact absurd (mem.2.trans_le below) above
  | remove => exact newest

theorem newest_knownFrom (newest : Newest registry.latestBootEpoch known)
    (actions : List (BootAction E)) :
    Newest (actions.foldl (BootRegistry.step epochOf) registry).latestBootEpoch
      (knownFrom epochOf registry known actions) := by
  induction actions generalizing registry known with
  | nil => exact newest
  | cons action actions ih => exact ih (newest.step action)

theorem newest_run (epochOf : ℕ → E) (actions : List (BootAction E)) :
    Newest (run epochOf actions).latestBootEpoch (knownEpochs epochOf actions) :=
  newest_knownFrom ⟨fun _ mem => absurd mem (Set.notMem_empty _),
    fun _ same => absurd same (some_ne_none _).symm⟩ actions

theorem hasNewer_iff (epochOf : ℕ → E) (actions : List (BootAction E)) (epoch : E) :
    (run epochOf actions).hasNewerBootEpoch (some epoch) ↔
      ∃ other ∈ knownEpochs epochOf actions, epoch < other := by
  have newest := newest_run epochOf actions
  unfold hasNewerBootEpoch
  rw [isAbove_eq_true]
  constructor
  · rintro ⟨top, requested, held, own, above⟩
    exact ⟨top, newest.mem top held, Option.some.inj own ▸ above⟩
  · rintro ⟨other, mem, above⟩
    obtain ⟨top, held, below⟩ := newest.bounds other mem
    exact ⟨top, epoch, held, rfl, above.trans_le below⟩

end Newest

/-! ## The newest start wins -/

section Result

variable (epochOf : ℕ → E)

def StartsInOrder (actions : List (BootAction E)) : Prop :=
  ∀ done start, done ++ [.register start] <+: actions →
    ∀ pending ∈ (run epochOf done).pendingBootAborts,
      ∃ epoch, pending.bootEpoch = some epoch ∧ epoch < epochOf start

/-- The newest start wins at every step of the run. -/
structure ResolvesToNewest (actions : List (BootAction E)) : Prop where
  aborts : ∀ done action, done ++ [action] <+: actions →
    AbortsEntitled epochOf (run epochOf done) action
  claims : ∀ done start holder, done ++ [.claim start] <+: actions →
    (run epochOf done).holder = some holder → epochOf start < epochOf holder →
    (run epochOf (done ++ [.claim start])).holder = some holder
  disposes : ∀ done start holder, done ++ [.claim start] <+: actions →
    (run epochOf done).holder = some holder → epochOf holder < epochOf start →
    (run epochOf actions).disposed.count holder = 1
  /-- What an action tears down does not hold the slot. -/
  spares : ∀ done action, done ++ [action] <+: actions → ∀ session,
    session ∉ (run epochOf done).disposed → session ∈ (run epochOf (done ++ [action])).disposed →
    (run epochOf (done ++ [action])).holder ≠ some session
  /-- A holder that was torn down claimed the slot once more. -/
  holder : ∀ session, (run epochOf actions).holder = some session →
    session ∈ (run epochOf actions).disposed → 2 ≤ actions.count (.claim session)
  newer : ∀ done, done <+: actions → ∀ epoch,
    (run epochOf done).hasNewerBootEpoch (some epoch) = true ↔
      ∃ other ∈ knownEpochs epochOf done, epoch < other

/-- Overlapping starts resolve to the newest one exactly where they register in order. -/
theorem resolvesToNewest_iff (actions : List (BootAction E)) :
    ResolvesToNewest epochOf actions ↔ StartsInOrder epochOf actions := by
  constructor
  · intro resolves done start within
    exact register_aborts_iff.mp (resolves.aborts done _ within)
  · intro inOrder
    refine ⟨fun done action within => ?_, fun done start holder _ held newer => ?_,
      fun done start holder within held older => ?_, fun done action _ session fresh torn => ?_,
      fun session => (claimed_run epochOf actions session).both,
      fun done _ => hasNewer_iff epochOf done⟩
    · by_cases registers : ∃ start, action = .register start
      · obtain ⟨start, same⟩ := registers
        subst same
        exact register_aborts_iff.mpr (inOrder done start within)
      · exact aborts_of_not_register (consistent_run done) fun start same => registers ⟨start, same⟩
    · rw [run_concat]
      exact claim_keeps_newer (consistent_run done) held newer
    · apply count_eq_one_of_mem (consistent_run actions).once
      apply disposed_subset_run within
      rw [run_concat]
      exact claim_disposes (consistent_run done) held older
    · rw [run_concat] at torn ⊢
      rcases disposed_step epochOf (run epochOf done) action with same |
        ⟨start, holder, _, _, other, now, same⟩
      · exact absurd (same ▸ torn) fresh
      · rw [same, mem_append, mem_singleton] at torn
        rw [now, torn.resolve_left fresh]
        exact fun own => other (Option.some.inj own).symm

end Result

/-- A start that registers late aborts a newer one that is pending. -/
theorem late_registration_aborts_newer :
    (run (fun start : ℕ => start) [.register 2, .register 1]).aborted = [0] ∧
      ¬ ResolvesToNewest (fun start : ℕ => start) [.register 2, .register 1] := by
  refine ⟨rfl, fun resolves => ?_⟩
  have aborts := resolves.aborts [.register 2] (.register 1) prefix_rfl
  obtain ⟨epoch, same, below⟩ := register_aborts_iff.mp aborts ⟨0, some 2⟩ rfl
  rw [← Option.some.inj same] at below
  exact absurd below (by decide)

end Netcatty.SessionBoots
