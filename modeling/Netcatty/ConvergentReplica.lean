import Netcatty.ConvergentMerge

/-!
Canonical replicas of a history.

`IsReplica` is what batches and joins keep: the replica is the cut of the
history its vector covers, in canonical form, and its clock is the clock of a
covered event.  Such a replica is determined by the dots it covers
(`IsReplica.ext`), so the join, which covers the dots of both sides
(`IsReplica.merge`), is the union of sets.
-/

namespace Netcatty

open Option

/-- A replica as batches and joins leave it. -/
structure IsReplica (history : History) (state : ConvergentSyncState) : Prop where
  represents : Represents history state
  shaped : Shaped state
  compact : state.Compact
  canonical : canonicalState state = state
  /-- Events are recorded in canonical form. -/
  settled : ∀ dot ∈ state.vector.dots, history.canonical dot = history dot
  attained : ClockAttained history state

/-! ## Canonical histories -/

theorem History.canonical_congr {history history' : History} {dot : Dot}
    (same : history dot = history' dot) : history.canonical dot = history'.canonical dot := by
  simp only [History.canonical, History.candidate, same]

theorem History.canonical_idem (history : History) (dot : Dot) :
    history.canonical.canonical dot = history.canonical dot := by
  have idem := canonicalCandidate_idem (history.candidate dot)
  simp only [History.canonical, RegisterEvent.mk.injEq, true_and]
  exact ⟨congrArg RegisterCandidate.context idem, congrArg RegisterCandidate.value idem⟩

section IsReplica

variable {history history' : History} {state left right : ConvergentSyncState}

theorem IsReplica.valid (replica : IsReplica history state) : ValidState state :=
  .of_represents replica.represents replica.shaped

/-- Only the covered events matter. -/
theorem IsReplica.congr (replica : IsReplica history state)
    (agree : ∀ dot ∈ state.vector.dots, history dot = history' dot) : IsReplica history' state where
  __ := replica
  represents := replica.represents.congr agree
  settled dot mem := by
    rw [← History.canonical_congr (agree dot mem), ← agree dot mem]
    exact replica.settled dot mem
  attained := by
    rcases replica.attained with zero | ⟨dot, mem, same⟩
    · exact Or.inl zero
    · exact Or.inr ⟨dot, mem, agree dot mem ▸ same⟩

theorem IsReplica.of_canonical (represents : Represents history state) (valid : ValidState state)
    (compact : state.Compact) (attained : ClockAttained history state) :
    IsReplica history.canonical (canonicalState state) where
  represents := represents_canonicalState represents
  shaped := valid.canonical.shaped
  compact := compact_canonicalState compact
  canonical := canonicalState_idem valid
  settled dot _ := history.canonical_idem dot
  attained := attained

theorem isReplica_create (history : History) : IsReplica history createConvergentSyncState := by
  have none : ∀ address, registerAt createConvergentSyncState address = none := by
    intro address
    cases address <;> rfl
  have dots : createConvergentSyncState.vector.dots = ∅ := by
    ext dot
    simp [VersionVector.mem_dots, createConvergentSyncState]
    omega
  have represents : Represents history createConvergentSyncState := by
    refine ⟨dots ▸ EventGraph.IsCut.empty, fun dot mem => ?_, fun address c => ?_, fun address => ?_,
      fun dot mem => ?_, fun dot _ => rfl, fun deviceId mem => ?_, fun deviceId counter stored => ?_, ?_⟩
    · rw [dots] at mem; exact mem.elim
    · simp only [candidatesAt, none, registerCandidates_none, List.not_mem_nil, false_iff, dots]
      rintro ⟨dot, front, _⟩
      exact front.1
    · simp [candidatesAt, none]
    · rw [dots] at mem; exact mem.elim
    · exact absurd mem (by simp [createConvergentSyncState])
    · simp [createConvergentSyncState] at stored
    · exact ⟨Nat.zero_le _, Nat.zero_le _⟩
  have settings : ∀ key, key ∉ createConvergentSyncState.settings.keys := by
    simp [createConvergentSyncState]
  refine ⟨represents, ⟨⟨fun address register found => ?_, fun key mem => absurd mem (settings key),
    fun name mem => ?_, fun name mem => ?_⟩, fun address register found => ?_, fun address c mem => ?_⟩,
    ⟨fun name c found => ?_, fun name c found => ?_⟩, ?_, fun dot mem => ?_, Or.inl rfl⟩
  · rw [none] at found; cases found
  · exact absurd mem (by simp [createConvergentSyncState])
  · exact absurd mem (by simp [createConvergentSyncState])
  · rw [none] at found; cases found
  · simp [candidatesAt, none] at mem
  · simp [createConvergentSyncState] at found
  · simp [createConvergentSyncState] at found
  · refine canonicalState_eq_self (fun address register found => ?_) fun key mem => absurd mem (settings key)
    rw [none] at found; cases found
  · rw [dots] at mem; exact mem.elim

/-! ## Replicas are determined by their dots -/

theorem candidates_sorted (replica : IsReplica history state) (address : RegisterAddress) :
    (candidatesAt state address).Pairwise fun a b => a.dot < b.dot := by
  have sorted : (candidatesAt state address).Pairwise fun a b => a.dot ≤ b.dot := by
    rw [← replica.canonical, candidatesAt, registerAt_canonicalState]
    cases registerAt state address with
    | none => exact .nil
    | some register => exact (canonicalRegister_canonical register).2
  exact (sorted.and (replica.represents.distinct address)).imp fun both => lt_of_le_of_ne both.1 both.2

section

variable (leftReplica : IsReplica history left) (rightReplica : IsReplica history right)
    (dots : left.vector.dots = right.vector.dots) (address : RegisterAddress)

include leftReplica rightReplica dots

theorem candidates_ext : candidatesAt left address = candidatesAt right address := by
  have members : ∀ c, c ∈ candidatesAt left address ↔ c ∈ candidatesAt right address := fun c => by
    rw [leftReplica.represents.candidates, rightReplica.represents.candidates, dots]
  have sorted := candidates_sorted leftReplica address
  have sorted' := candidates_sorted rightReplica address
  have nodup : (candidatesAt left address).Nodup := sorted.imp fun lt => ne_of_apply_ne _ lt.ne
  have nodup' : (candidatesAt right address).Nodup := sorted'.imp fun lt => ne_of_apply_ne _ lt.ne
  exact ((List.perm_ext_iff_of_nodup nodup nodup').mpr members).eq_of_pairwise
    (fun a b _ _ lt lt' => (lt_asymm lt lt').elim) sorted sorted'

theorem registerAt_ext : registerAt left address = registerAt right address := by
  have same := candidates_ext leftReplica rightReplica dots address
  rw [candidatesAt, candidatesAt] at same
  cases mine : registerAt left address with
  | none =>
    cases theirs : registerAt right address with
    | none => rfl
    | some register =>
      rw [mine, theirs] at same
      exact absurd same.symm (rightReplica.shaped.nonEmpty address register theirs)
  | some register =>
    cases theirs : registerAt right address with
    | none =>
      rw [mine, theirs] at same
      exact absurd same (leftReplica.shaped.nonEmpty address register mine)
    | some register' =>
      rw [mine, theirs] at same
      exact congrArg some (by cases register; cases register'; cases same; rfl)

end

theorem Represents.get?_vector (represents : Represents history state) (deviceId : JsString) :
    state.vector.get? deviceId =
      if 0 < state.vector.counter deviceId then some (state.vector.counter deviceId) else none := by
  cases stored : state.vector.get? deviceId with
  | none => simp [VersionVector.counter, stored]
  | some counter =>
    have positive := (represents.vector deviceId counter stored).2.1
    rw [VersionVector.counter_eq stored, if_pos positive]

theorem hlc_le (leftReplica : IsReplica history left) (rightReplica : IsReplica history right)
    (dots : left.vector.dots ⊆ right.vector.dots) : left.hlc ≤ right.hlc := by
  rcases leftReplica.attained with zero | ⟨dot, mem, same⟩
  · exact zero ▸ HybridLogicalClock.zero_le _
  · exact same ▸ (rightReplica.represents.events dot (dots mem)).past

theorem origin_ext (leftRep : Represents history left) (rightRep : Represents history right)
    (dots : left.vector.dots = right.vector.dots) (dot : Dot) : left.origin dot = right.origin dot := by
  by_cases covered : dot ∈ left.vector.dots
  · rw [leftRep.origins dot covered, rightRep.origins dot (dots ▸ covered)]
  · rw [leftRep.uncovered dot covered, rightRep.uncovered dot (dots ▸ covered)]

theorem isSome_dotOrigins (represents : Represents history state) (deviceId : JsString) :
    (state.dotOrigins.get? deviceId).isSome ↔ 0 < state.vector.counter deviceId := by
  rw [← SortedMap.mem_keys]
  constructor
  · exact fun mem => represents.mem_vector_keys.mp (represents.originDevices deviceId mem)
  · intro positive
    have origin := represents.origins { deviceId, counter := 1 } ⟨one_pos, positive⟩
    rw [SortedMap.mem_keys, isSome_iff_ne_none]
    intro none
    simp [ConvergentSyncState.origin, none] at origin

theorem dotOrigins_ext (leftRep : Represents history left) (rightRep : Represents history right)
    (dots : left.vector.dots = right.vector.dots)
    (counters : ∀ deviceId, left.vector.counter deviceId = right.vector.counter deviceId) :
    left.dotOrigins = right.dotOrigins := by
  apply SortedMap.ext
  intro deviceId
  have some := isSome_dotOrigins leftRep deviceId
  rw [counters, ← isSome_dotOrigins rightRep deviceId] at some
  have inner := fun counter => origin_ext leftRep rightRep dots { deviceId, counter }
  simp only [ConvergentSyncState.origin] at inner
  cases mine : left.dotOrigins.get? deviceId with
  | none => cases theirs : right.dotOrigins.get? deviceId <;> simp_all
  | some origins =>
    cases theirs : right.dotOrigins.get? deviceId with
    | none => simp [mine, theirs] at some
    | some origins' =>
      simp only [mine, theirs, bind_some] at inner
      rw [SortedMap.ext inner]

/-- **Replicas of one history that cover the same dots are equal.** -/
theorem IsReplica.ext (leftReplica : IsReplica history left) (rightReplica : IsReplica history right)
    (dots : left.vector.dots = right.vector.dots) : left = right := by
  have counters : ∀ deviceId, left.vector.counter deviceId = right.vector.counter deviceId :=
    fun deviceId => le_antisymm (dots_subset_iff.mp dots.le deviceId)
      (dots_subset_iff.mp dots.ge deviceId)
  refine replica_ext leftReplica.compact rightReplica.compact leftReplica.shaped.well.settingKeys
    rightReplica.shaped.well.settingKeys ?_ ?_ ?_ (registerAt_ext leftReplica rightReplica dots)
  · apply SortedMap.ext
    intro deviceId
    rw [leftReplica.represents.get?_vector, rightReplica.represents.get?_vector, counters]
  · exact dotOrigins_ext leftReplica.represents rightReplica.represents dots counters
  · exact le_antisymm (hlc_le leftReplica rightReplica dots.le)
      (hlc_le rightReplica leftReplica dots.ge)

/-! ## Steps -/

/-- **The join of two replicas is the replica that covers the dots of both.** -/
theorem IsReplica.merge (leftReplica : IsReplica history left)
    (rightReplica : IsReplica history right) :
    ∃ merged, mergeConvergentSyncStates left right = .ok merged ∧ IsReplica history merged ∧
      merged.vector.dots = left.vector.dots ∪ right.vector.dots := by
  obtain ⟨joined, ran, represents, shaped, compact, vector, hlc⟩ := mergedState_represents
    leftReplica.represents rightReplica.represents leftReplica.shaped rightReplica.shaped
  have valid := ValidState.of_represents represents shaped
  have dots : joined.vector.dots = left.vector.dots ∪ right.vector.dots := by
    rw [vector, dots_mergeVersionVectors]
  have attained : ClockAttained history joined := by
    rcases max_choice left.hlc right.hlc with same | same
    · rcases leftReplica.attained with zero | ⟨dot, mem, clock⟩
      · exact Or.inl (by rw [hlc, same, zero])
      · exact Or.inr ⟨dot, dots ▸ Or.inl mem, by rw [hlc, same, clock]⟩
    · rcases rightReplica.attained with zero | ⟨dot, mem, clock⟩
      · exact Or.inl (by rw [hlc, same, zero])
      · exact Or.inr ⟨dot, dots ▸ Or.inr mem, by rw [hlc, same, clock]⟩
  refine ⟨canonicalState joined, ?_, ?_, dots⟩
  · have validLeft := assertValid_eq_ok.mpr leftReplica.valid
    have validRight := assertValid_eq_ok.mpr rightReplica.valid
    have validJoined := assertValid_eq_ok.mpr valid
    have finished := canonicalizeConvergentSyncState_eq_ok.mpr ⟨valid, rfl⟩
    simp only [mergeConvergentSyncStates, validLeft, validRight, ran, validJoined, finished, ok_bind]
  · refine (IsReplica.of_canonical represents valid compact attained).congr fun dot mem => ?_
    rcases (dots ▸ mem : dot ∈ left.vector.dots ∪ right.vector.dots) with mem | mem
    · exact leftReplica.settled dot mem
    · exact rightReplica.settled dot mem

/-- **A batch makes a replica of a longer history**, of which every replica that
has not seen later dots of the device is still a replica. -/
theorem IsReplica.apply {deviceId : JsString} {mutations : List ConvergentMutation} {now : JsNumber}
    {state' : ConvergentSyncState} (replica : IsReplica history state)
    (ran : applyConvergentMutations state deviceId mutations now = .ok state') :
    ∃ history', IsReplica history' state' ∧ ∀ other, IsReplica history other →
      other.vector.counter deviceId ≤ state.vector.counter deviceId → IsReplica history' other := by
  obtain ⟨_, _, next, batch, valid, rfl⟩ := applyConvergentMutations_eq_ok.mp ran
  rw [replica.canonical] at batch
  obtain ⟨_, grown, evolves⟩ := applyMutations_evolves replica.shaped.well replica.represents batch
  have compact := applyMutations_compact replica.shaped.well replica.represents replica.compact batch
  refine ⟨grown.canonical, IsReplica.of_canonical evolves.represents valid compact
    (evolves.attained replica.attained), fun other otherReplica unseen => ?_⟩
  refine otherReplica.congr fun dot mem => ?_
  have same : grown dot = history dot :=
    evolves.same dot fun device => (device ▸ mem.2).trans unseen
  rw [History.canonical_congr same]
  exact (otherReplica.settled dot mem).symm

end IsReplica

end Netcatty
