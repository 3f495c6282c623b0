import Mathlib.Order.Interval.Finset.Nat
import Netcatty.ConvergentAddresses

/-!
What a valid replica is.

`ValidState` states the conditions of `assertValidConvergentSyncState` on the
registers of a replica, address by address, without labels, accumulators or
visiting order.  The lemmas below treat the assertions on the vector, the
origins, the clock and one candidate.
-/

namespace Netcatty

open List SortedMap

def VersionVector.dots (vector : VersionVector) : Set Dot :=
  {dot | 0 < dot.counter ∧ dot.counter ≤ vector.counter dot.deviceId}

theorem VersionVector.mem_dots {vector : VersionVector} {dot : Dot} :
    dot ∈ vector.dots ↔ 0 < dot.counter ∧ dot.counter ≤ vector.counter dot.deviceId := Iff.rfl

/-- Both components can be stored as safe integers. -/
def HybridLogicalClock.Safe (clock : HybridLogicalClock) : Prop :=
  clock.wallTime ≤ maxSafeInteger ∧ clock.logical ≤ maxSafeInteger

def valueValidator : RegisterAddress → ValueValidator
  | .entityPresence _ _ => presenceValidator
  | .entityPosition _ _ => positionValidator
  | .entityField _ _ _ => anyValidator
  | .setting _ => anyValidator
  | .stringEntryPresence _ _ => presenceValidator
  | .stringEntryPosition _ _ => positionValidator

/-- A dot the state may name in a register: covered, and allocated there. -/
structure ConvergentSyncState.Names (state : ConvergentSyncState) (registerIdentity : RegisterId)
    (dot : Dot) : Prop where
  device : dot.deviceId ≠ []
  covered : dot ∈ state.vector.dots
  origin : state.origin dot = some registerIdentity

/-- A candidate that passes the checks on it alone. -/
structure CandidateOk (state : ConvergentSyncState) (registerIdentity : RegisterId)
    (candidate : RegisterCandidate) : Prop where
  dot : state.Names registerIdentity candidate.dot
  context : ∀ dot ∈ candidate.context, state.Names registerIdentity dot
  distinct : candidate.context.Nodup
  /-- A context dot of the writer's own device is an earlier one. -/
  earlier : ∀ dot ∈ candidate.context, dot.deviceId = candidate.dot.deviceId →
    dot.counter < candidate.dot.counter
  clock : candidate.hlc.Safe
  past : candidate.hlc ≤ state.hlc

/-- A register that passes the checks on it alone. -/
structure RegisterOk (state : ConvergentSyncState) (address : RegisterAddress)
    (register : MultiValueRegister) : Prop where
  nonEmpty : register.candidates ≠ []
  candidates : ∀ c ∈ register.candidates, CandidateOk state (registerId address) c
  values : ∀ c ∈ register.candidates, (valueValidator address).accepts c = true

/-- What an accepted state satisfies. -/
structure ValidState (state : ConvergentSyncState) : Prop where
  vector : ∀ deviceId counter, state.vector.get? deviceId = some counter →
    deviceId ≠ [] ∧ 0 < counter ∧ counter ≤ maxSafeInteger
  /-- Origins are recorded for exactly the covered dots. -/
  origins : ∀ dot, (state.origin dot).isSome ↔ dot ∈ state.vector.dots
  originDevices : ∀ deviceId ∈ state.dotOrigins.keys, deviceId ∈ state.vector.keys
  clock : state.hlc.Safe
  stored : ∀ address register, registerAt state address = some register →
    address.Valid ∧ RegisterOk state address register
  /-- A register keeps one candidate for a dot. -/
  distinct : ∀ address, (candidatesAt state address).Pairwise fun c c' => c.dot ≠ c'.dot
  /-- No retained dot has been observed by a candidate. -/
  unretained : ∀ address, ∀ c ∈ candidatesAt state address, ∀ c' ∈ candidatesAt state address,
    c'.dot ∉ c.context
  /-- Every covered dot is retained or observed in some register. -/
  witnessed : ∀ dot ∈ state.vector.dots, ∃ address,
    dot ∈ registerCausalContext (registerAt state address)
  settingKeys : ∀ key ∈ state.settings.keys, ∃ path, ValidSettingPath path ∧ key = settingKey path
  collectionNames : ∀ name ∈ state.collections.keys, name ≠ []
  stringCollectionNames : ∀ name ∈ state.stringCollections.keys, name ≠ []

/-! ## Vectors, origins and clocks -/

theorem assertPositiveInteger_eq_ok {value : ℕ} {label : JsString} :
    assertPositiveInteger value label = .ok () ↔ value ≤ maxSafeInteger ∧ 0 < value := by
  simp [assertPositiveInteger]

theorem assertNonEmptyKey_eq_ok {value label : JsString} :
    assertNonEmptyKey value label = .ok () ↔ value ≠ [] := by
  simp [assertNonEmptyKey]

theorem assertVersionVector_eq_ok {vector : VersionVector} {label : JsString} :
    assertVersionVector vector label = .ok () ↔ ∀ deviceId counter,
      vector.get? deviceId = some counter →
        deviceId ≠ [] ∧ 0 < counter ∧ counter ≤ maxSafeInteger := by
  rw [assertVersionVector, forM_eq_ok]
  constructor
  · intro checked deviceId counter stored
    have ran := checked (deviceId, counter) (SortedMap.mem_entries.mpr stored)
    obtain ⟨named, range⟩ := check_bind_eq_ok.mp ran
    obtain ⟨low, high⟩ := assertPositiveInteger_eq_ok.mp range
    exact ⟨assertNonEmptyKey_eq_ok.mp named, high, low⟩
  · rintro holds ⟨deviceId, counter⟩ mem
    obtain ⟨named, positive, bounded⟩ := holds deviceId counter (SortedMap.mem_entries.mp mem)
    exact check_bind_eq_ok.mpr ⟨assertNonEmptyKey_eq_ok.mpr named,
      assertPositiveInteger_eq_ok.mpr ⟨bounded, positive⟩⟩

theorem assertClock_eq_ok {clock : HybridLogicalClock} {label : JsString} :
    assertClock clock label = .ok () ↔ clock.Safe := by
  simp only [assertClock, assertNonNegativeInteger, check_bind_eq_ok, ensure_eq_ok,
    decide_eq_true_eq, HybridLogicalClock.Safe]

/-- A list without repetition holds exactly `1, …, n` when it has length `n` and
holds each of them. -/
theorem counters_iff {l : List ℕ} {n : ℕ} (distinct : l.Nodup) :
    (∀ m, m ∈ l ↔ 0 < m ∧ m ≤ n) ↔ l.length = n ∧ ∀ i < n, i + 1 ∈ l := by
  have card : (Finset.Icc 1 n).card = n := by rw [Nat.card_Icc]; omega
  have members : (∀ m, m ∈ l ↔ 0 < m ∧ m ≤ n) ↔ l.toFinset = Finset.Icc 1 n := by
    simp only [Finset.ext_iff, List.mem_toFinset, Finset.mem_Icc, Nat.succ_le_iff]
  rw [members]
  constructor
  · intro same
    refine ⟨by rw [← toFinset_card_of_nodup distinct, same, card], fun i small => ?_⟩
    rw [← List.mem_toFinset, same, Finset.mem_Icc]
    omega
  · rintro ⟨length, holds⟩
    have sub : Finset.Icc 1 n ⊆ l.toFinset := by
      intro m mem
      obtain ⟨low, high⟩ := Finset.mem_Icc.mp mem
      have held := holds (m - 1) (by omega)
      rw [Nat.sub_add_cancel low] at held
      exact List.mem_toFinset.mpr held
    refine (Finset.eq_of_subset_of_card_le sub ?_).symm
    rw [toFinset_card_of_nodup distinct, length, card]

theorem ConvergentSyncState.origin_eq {state : ConvergentSyncState} {deviceId : JsString}
    {origins : SortedMap ℕ RegisterId} (stored : state.dotOrigins.get? deviceId = some origins)
    (counter : ℕ) : state.origin { deviceId, counter } = origins.get? counter := by
  simp [ConvergentSyncState.origin, stored]

theorem VersionVector.counter_eq {vector : VersionVector} {deviceId : JsString} {counter : ℕ}
    (stored : vector.get? deviceId = some counter) : vector.counter deviceId = counter := by
  simp [VersionVector.counter, stored]

theorem assertDotOrigins_eq_ok {state : ConvergentSyncState}
    (vectorOk : ∀ deviceId counter, state.vector.get? deviceId = some counter →
      deviceId ≠ [] ∧ 0 < counter ∧ counter ≤ maxSafeInteger) :
    assertDotOrigins state.dotOrigins state.vector = .ok () ↔
      (∀ dot, (state.origin dot).isSome ↔ dot ∈ state.vector.dots) ∧
      ∀ deviceId ∈ state.dotOrigins.keys, deviceId ∈ state.vector.keys := by
  have positive : ∀ deviceId, deviceId ∈ state.vector.keys ↔ state.vector.counter deviceId ≠ 0 := by
    intro deviceId
    constructor
    · intro mem
      obtain ⟨counter, stored⟩ := mem_keys_iff_exists.mp mem
      rw [VersionVector.counter_eq stored]
      have := (vectorOk deviceId counter stored).2.1
      omega
    · intro nonZero
      by_contra absent
      exact nonZero (VersionVector.counter_eq_zero_of_not_mem absent)
  have device : ∀ deviceId origins, state.dotOrigins.get? deviceId = some origins →
      ((assertNonEmptyKey deviceId (text "dotOrigins device ID") >>= fun _ =>
        ensure (state.vector.counter deviceId ≠ 0 &&
          origins.keys.length = state.vector.counter deviceId) (originsMustCover deviceId) >>= fun _ =>
        (List.range (state.vector.counter deviceId)).forM fun index =>
          ensure (origins.get? (index + 1)).isSome
            (.invariant (text "dotOrigins." ++ deviceId ++ text "." ++ decimal (index + 1)
              ++ text " must contain a register identity"))) = .ok () ↔
      deviceId ∈ state.vector.keys ∧
        ∀ counter, (state.origin { deviceId, counter }).isSome ↔
          0 < counter ∧ counter ≤ state.vector.counter deviceId) := by
    intro deviceId origins stored
    have entries : (∀ counter, (state.origin { deviceId, counter }).isSome ↔
        0 < counter ∧ counter ≤ state.vector.counter deviceId) ↔
        origins.keys.length = state.vector.counter deviceId ∧
          ∀ i < state.vector.counter deviceId, (origins.get? (i + 1)).isSome := by
      simp only [ConvergentSyncState.origin_eq stored, ← SortedMap.mem_keys]
      exact counters_iff origins.keys_nodup
    simp only [check_bind_eq_ok, assertNonEmptyKey_eq_ok, ensure_eq_ok, Bool.and_eq_true,
      decide_eq_true_eq, forM_eq_ok, mem_range, entries, positive]
    constructor
    · rintro ⟨_, ⟨nonZero, length⟩, holds⟩
      exact ⟨nonZero, length, holds⟩
    · rintro ⟨nonZero, length, holds⟩
      obtain ⟨counter, inVector⟩ := mem_keys_iff_exists.mp ((positive deviceId).mpr nonZero)
      exact ⟨(vectorOk deviceId counter inVector).1, ⟨nonZero, length⟩, holds⟩
  have split : assertDotOrigins state.dotOrigins state.vector = .ok () ↔
      (∀ deviceId origins, state.dotOrigins.get? deviceId = some origins →
        deviceId ∈ state.vector.keys ∧
        ∀ counter, (state.origin { deviceId, counter }).isSome ↔
          0 < counter ∧ counter ≤ state.vector.counter deviceId) ∧
      ∀ deviceId ∈ state.vector.keys, (state.dotOrigins.get? deviceId).isSome := by
    simp only [assertDotOrigins, check_bind_eq_ok, forM_eq_ok (l := state.vector.keys), ensure_eq_ok]
    rw [forM_eq_ok]
    constructor
    · rintro ⟨devices, covered⟩
      exact ⟨fun deviceId origins stored => (device deviceId origins stored).mp
        (devices _ (SortedMap.mem_entries.mpr stored)), covered⟩
    · rintro ⟨devices, covered⟩
      exact ⟨fun entry mem => (device entry.1 entry.2 (SortedMap.mem_entries.mp mem)).mpr
        (devices entry.1 entry.2 (SortedMap.mem_entries.mp mem)), covered⟩
  rw [split]
  constructor
  · rintro ⟨devices, covered⟩
    refine ⟨fun dot => ?_, fun deviceId mem => ?_⟩
    · obtain ⟨deviceId, counter⟩ := dot
      cases stored : state.dotOrigins.get? deviceId with
      | some origins => exact (devices deviceId origins stored).2 counter
      | none =>
        have absent : deviceId ∉ state.vector.keys := fun mem => by
          simpa [stored] using covered deviceId mem
        simp [ConvergentSyncState.origin, stored, VersionVector.mem_dots,
          VersionVector.counter_eq_zero_of_not_mem absent]
        omega
    · obtain ⟨origins, stored⟩ := mem_keys_iff_exists.mp mem
      exact (devices deviceId origins stored).1
  · rintro ⟨origins, devices⟩
    refine ⟨fun deviceId _ stored => ⟨devices deviceId (mem_keys_iff_exists.mpr ⟨_, stored⟩),
      fun counter => origins { deviceId, counter }⟩, fun deviceId mem => ?_⟩
    have nonZero := (positive deviceId).mp mem
    have recorded := (origins { deviceId, counter := state.vector.counter deviceId }).mpr
      ⟨Nat.pos_of_ne_zero nonZero, le_refl _⟩
    cases stored : state.dotOrigins.get? deviceId with
    | some _ => rfl
    | none => simp [ConvergentSyncState.origin, stored] at recorded

/-! ## Candidates -/

section Candidates

variable {state : ConvergentSyncState}
  (vectorOk : ∀ deviceId counter, state.vector.get? deviceId = some counter →
    deviceId ≠ [] ∧ 0 < counter ∧ counter ≤ maxSafeInteger)
include vectorOk

theorem counter_le_max (deviceId : JsString) : state.vector.counter deviceId ≤ maxSafeInteger := by
  cases stored : state.vector.get? deviceId with
  | none => simp [VersionVector.counter, stored]
  | some counter =>
    rw [VersionVector.counter_eq stored]
    exact (vectorOk deviceId counter stored).2.2

theorem names_iff {dot : Dot} {registerIdentity : RegisterId} {label label' : JsString} :
    (assertCoveredDot dot state label = .ok () ∧
      assertDotOrigin state dot registerIdentity label' = .ok ()) ↔
      state.Names registerIdentity dot := by
  have bound := counter_le_max vectorOk dot.deviceId
  simp only [assertCoveredDot, assertDotOrigin, check_bind_eq_ok, ensure_eq_ok, decide_eq_true_eq,
    assertPositiveInteger_eq_ok]
  constructor
  · rintro ⟨⟨device, ⟨_, positive⟩, covered⟩, origin⟩
    exact ⟨device, ⟨positive, covered⟩, origin⟩
  · rintro ⟨device, ⟨positive, covered⟩, origin⟩
    exact ⟨⟨device, ⟨by omega, positive⟩, covered⟩, origin⟩

theorem assertContextDot_eq_ok {label : JsString} {registerIdentity : RegisterId}
    {candidateDot contextDot : Dot} {earlier : List Dot} :
    assertContextDot state label registerIdentity candidateDot earlier contextDot = .ok () ↔
      state.Names registerIdentity contextDot ∧ contextDot ∉ earlier ∧
        (contextDot.deviceId = candidateDot.deviceId →
          contextDot.counter < candidateDot.counter) := by
  have fresh : dotKey contextDot ∉ earlier.map dotKey ↔ contextDot ∉ earlier := by
    simp
  simp only [assertContextDot, check_bind_eq_ok, ensure_eq_ok, decide_eq_true_eq, fresh,
    ne_eq, dotKey_inj, Bool.not_eq_true', Bool.and_eq_false_iff,
    decide_eq_false_iff_not, not_le]
  constructor
  · rintro ⟨covered, origin, absent, _, earlier⟩
    exact ⟨(names_iff vectorOk).mp ⟨covered, origin⟩, absent,
      fun same => earlier.resolve_left fun h => h same⟩
  · rintro ⟨names, absent, earlier⟩
    obtain ⟨covered, origin⟩ := (names_iff vectorOk).mpr names
    refine ⟨covered, origin, absent, ?_, ?_⟩
    · rintro rfl
      exact absurd (earlier rfl) (lt_irrefl _)
    · by_cases same : contextDot.deviceId = candidateDot.deviceId
      · exact Or.inr (earlier same)
      · exact Or.inl same

theorem assertContext_eq_ok {label : JsString} {registerIdentity : RegisterId}
    {candidateDot : Dot} (context earlier : List Dot) :
    assertContext state label registerIdentity candidateDot earlier context = .ok () ↔
      (∀ dot ∈ context, state.Names registerIdentity dot ∧
        (dot.deviceId = candidateDot.deviceId → dot.counter < candidateDot.counter)) ∧
      context.Nodup ∧ ∀ dot ∈ context, dot ∉ earlier := by
  induction context generalizing earlier with
  | nil => simp [assertContext]
  | cons dot context ih =>
    simp only [assertContext, check_bind_eq_ok, assertContextDot_eq_ok vectorOk, ih,
      forall_mem_cons, nodup_cons, mem_append, mem_singleton, not_or]
    constructor
    · rintro ⟨⟨names, absent, before⟩, rest, distinct, fresh⟩
      exact ⟨⟨⟨names, before⟩, rest⟩, ⟨fun mem => (fresh dot mem).2 rfl, distinct⟩, absent,
        fun d mem => (fresh d mem).1⟩
    · rintro ⟨⟨⟨names, before⟩, rest⟩, ⟨notMem, distinct⟩, absent, fresh⟩
      exact ⟨⟨names, absent, before⟩, rest, distinct, fun d mem =>
        ⟨fresh d mem, fun same => notMem (same ▸ mem)⟩⟩

theorem assertCandidate_eq_ok {candidate : RegisterCandidate} {label : JsString}
    {registerIdentity : RegisterId} {trace trace' : ValidationTrace} :
    assertCandidate candidate state label registerIdentity trace = .ok trace' ↔
      CandidateOk state registerIdentity candidate ∧
      (∀ entry ∈ trace.globalDots, entry.1 ≠ dotKey candidate.dot) ∧
      trace' = trace.record label registerIdentity candidate := by
  have record : recordCandidate candidate label registerIdentity trace = .ok trace' ↔
      (∀ entry ∈ trace.globalDots, entry.1 ≠ dotKey candidate.dot) ∧
      trace' = trace.record label registerIdentity candidate := by
    unfold recordCandidate
    split
    · rename_i key previous found
      have mem := mem_of_find?_eq_some found
      have same := find?_some found
      simp only [reduceCtorEq, false_iff, not_and, throw, throwThe, MonadExceptOf.throw]
      intro fresh
      exact absurd (by simpa using same) (fresh _ mem)
    · rename_i none
      have fresh := find?_eq_none.mp none
      simp only [pure_eq_ok, Except.ok.injEq, eq_comm (a := trace')]
      exact ⟨fun same => ⟨fun entry mem => by simpa using fresh entry mem, same⟩, fun h => h.2⟩
  simp only [assertCandidate, check_bind_eq_ok, assertContext_eq_ok vectorOk, assertClock_eq_ok,
    ensure_eq_ok, decide_eq_true_eq, record]
  have past : compareHybridLogicalClocks candidate.hlc state.hlc ≠ .gt ↔
      candidate.hlc ≤ state.hlc := by
    simp [compareHybridLogicalClocks, compare_gt_iff_gt]
  constructor
  · rintro ⟨covered, origin, ⟨context, distinct, _⟩, clock, before, fresh, same⟩
    exact ⟨⟨(names_iff vectorOk).mp ⟨covered, origin⟩, fun d mem => (context d mem).1, distinct,
      fun d mem => (context d mem).2, clock, past.mp before⟩, fresh, same⟩
  · rintro ⟨ok, fresh, same⟩
    obtain ⟨covered, origin⟩ := (names_iff vectorOk).mpr ok.dot
    exact ⟨covered, origin, ⟨fun d mem => ⟨ok.context d mem, ok.earlier d mem⟩, ok.distinct,
      fun _ _ => not_mem_nil⟩, ok.clock, past.mpr ok.past, fresh, same⟩

end Candidates

end Netcatty
