import Mathlib.Data.Prod.Lex
import Netcatty.JsValue

/-!
The data of the convergent replica: `types.ts`, `clock.ts` and `registerId.ts`.

A record of the source (`Record<string, T>`) is a `SortedMap`: every function
that enumerates a record sorts its keys first or does not depend on their
order, so the insertion order of records is not modelled.  The order of arrays
(candidates, contexts) is.
-/

namespace Netcatty

open List SortedMap

/-! ## Dots and clocks -/

/-- One register write of one device. -/
structure Dot where
  deviceId : JsString
  counter : ℕ
  deriving DecidableEq

namespace Dot

/-- The pair `compareDots` orders by. -/
def key (dot : Dot) : JsString ×ₗ ℕ := toLex (dot.deviceId, dot.counter)

theorem key_injective : Function.Injective key := by
  intro a b h
  cases a; cases b
  simpa [key] using h

/-- `compareDots`: device first, then counter. -/
instance : LinearOrder Dot := LinearOrder.lift' key key_injective

end Dot

/-- `HybridLogicalClock`. -/
structure HybridLogicalClock where
  wallTime : ℕ
  logical : ℕ
  deriving DecidableEq

namespace HybridLogicalClock

/-- The pair `compareHybridLogicalClocks` orders by. -/
def key (clock : HybridLogicalClock) : ℕ ×ₗ ℕ := toLex (clock.wallTime, clock.logical)

theorem key_injective : Function.Injective key := by
  intro a b h
  cases a; cases b
  simpa [key] using h

/-- `compareHybridLogicalClocks`: wall time first, then the logical part. -/
instance : LinearOrder HybridLogicalClock := LinearOrder.lift' key key_injective

theorem lt_iff {a b : HybridLogicalClock} :
    a < b ↔ a.wallTime < b.wallTime ∨ (a.wallTime = b.wallTime ∧ a.logical < b.logical) :=
  Prod.Lex.lt_iff

/-- The clock of an empty replica. -/
def zero : HybridLogicalClock := ⟨0, 0⟩

theorem zero_le (clock : HybridLogicalClock) : zero ≤ clock := by
  rw [← not_lt, lt_iff]
  simp [zero]

end HybridLogicalClock

/-- `compareDots`. -/
def compareDots (left right : Dot) : Ordering := compare left right

/-- `dotKey`: the text under which maps and sets of the source keep a dot. -/
def dotKey (dot : Dot) : JsString := dot.deviceId ++ text ":" ++ decimal dot.counter

/-- `compareHybridLogicalClocks`. -/
def compareHybridLogicalClocks (left right : HybridLogicalClock) : Ordering := compare left right

/-- `maxHybridLogicalClock`. -/
def maxHybridLogicalClock (left right : HybridLogicalClock) : HybridLogicalClock :=
  if compareHybridLogicalClocks left right ≠ .lt then left else right

/-- A number argument such as `now`: finite, or `NaN` or an infinity. -/
inductive JsNumber where
  | finite (value : ℚ)
  | nonFinite
  deriving DecidableEq

/-- `VersionVector`. -/
abbrev VersionVector := SortedMap JsString ℕ

/-- `getOwnRecordValue(vector, deviceId) ?? 0`. -/
def VersionVector.counter (vector : VersionVector) (deviceId : JsString) : ℕ :=
  (vector.get? deviceId).getD 0

/-- `observesDot`. -/
def observesDot (vector : VersionVector) (dot : Dot) : Bool :=
  decide (dot.counter ≤ vector.counter dot.deviceId)

variable (left right : VersionVector)

/-- `mergeVersionVectors`: the pointwise maximum, zero counters left out. -/
def mergeVersionVectors : VersionVector :=
  (SortedMap.unionKeys left right).foldl (fun merged deviceId =>
    let counter := max (left.counter deviceId) (right.counter deviceId)
    if counter > 0 then merged.set deviceId counter else merged) .empty

/-- `versionVectorDominates`. -/
def versionVectorDominates (candidate expected : VersionVector) : Bool :=
  expected.keys.all fun deviceId => expected.counter deviceId ≤ candidate.counter deviceId

/-- `versionVectorsEqual`. -/
def versionVectorsEqual : Bool :=
  versionVectorDominates left right && versionVectorDominates right left

/-- The wall-clock sample `tickHybridLogicalClock` uses:
`Math.max(0, Math.floor(now))`, or zero when `now` is not finite. -/
def safeNow : JsNumber → ℕ
  | .finite value => (max 0 value.floor).toNat
  | .nonFinite => 0

def clockOutOfRange : JsError := .invariant (text "Hybrid logical clock wall time is out of range")

def clockExhausted : JsError := .invariant (text "Hybrid logical clock counter exhausted")

/-- `tickHybridLogicalClock`. -/
def tickHybridLogicalClock (current : HybridLogicalClock) (now : JsNumber) :
    Checked HybridLogicalClock := do
  ensure (safeNow now ≤ maxSafeInteger) clockOutOfRange
  if safeNow now > current.wallTime then
    return { wallTime := safeNow now, logical := 0 }
  ensure (current.logical < maxSafeInteger) clockExhausted
  return { wallTime := current.wallTime, logical := current.logical + 1 }

/-! ## Registers and replicas -/

/-- `RegisterCandidate`; a candidate without a value is a tombstone. -/
structure RegisterCandidate where
  dot : Dot
  /-- Dots observed in this register before this candidate was written. -/
  context : List Dot
  hlc : HybridLogicalClock
  value : Option JsonValue
  deriving DecidableEq

/-- `MultiValueRegister`. -/
structure MultiValueRegister where
  candidates : List RegisterCandidate
  deriving DecidableEq

/-- `CollectionPosition`. -/
inductive CollectionPosition where
  | string (value : JsString)
  | number (value : ℚ)
  deriving DecidableEq

def CollectionPosition.toJson : CollectionPosition → JsonValue
  | .string value => .str value
  | .number value => .num value

/-- `ConvergentEntityState`. -/
structure ConvergentEntityState where
  presence : MultiValueRegister
  position : Option MultiValueRegister
  fields : SortedMap JsString MultiValueRegister
  deriving DecidableEq

/-- `ConvergentCollectionState`. -/
structure ConvergentCollectionState where
  entities : SortedMap JsString ConvergentEntityState
  deriving DecidableEq

/-- `ConvergentStringEntryState`. -/
structure ConvergentStringEntryState where
  presence : MultiValueRegister
  position : Option MultiValueRegister
  deriving DecidableEq

/-- `ConvergentStringCollectionState`. -/
structure ConvergentStringCollectionState where
  entries : SortedMap JsString ConvergentStringEntryState
  deriving DecidableEq

/-- `RegisterAddress`. -/
inductive RegisterAddress where
  | entityPresence (collection entityId : JsString)
  | entityPosition (collection entityId : JsString)
  | entityField (collection entityId field : JsString)
  | setting (path : List JsString)
  | stringEntryPresence (collection value : JsString)
  | stringEntryPosition (collection value : JsString)
  deriving DecidableEq

/-- The array of strings `registerId` prints.  Different arrays of strings print
differently, so the array stands for its text. -/
abbrev RegisterId := List JsString

/-- `registerId`. -/
def registerId : RegisterAddress → RegisterId
  | .entityPresence collection entityId => [text "entity-presence", collection, entityId]
  | .entityPosition collection entityId => [text "entity-position", collection, entityId]
  | .entityField collection entityId field => [text "entity-field", collection, entityId, field]
  | .setting path => text "setting" :: path
  | .stringEntryPresence collection value => [text "string-entry-presence", collection, value]
  | .stringEntryPosition collection value => [text "string-entry-position", collection, value]

/-- `DotOriginIndex`: the register of every allocated counter of a device. -/
abbrev DotOriginIndex := SortedMap JsString (SortedMap ℕ RegisterId)

/-- `ConvergentSyncStateV2`. -/
structure ConvergentSyncState where
  vector : VersionVector
  dotOrigins : DotOriginIndex
  hlc : HybridLogicalClock
  collections : SortedMap JsString ConvergentCollectionState
  settings : SortedMap JsString MultiValueRegister
  stringCollections : SortedMap JsString ConvergentStringCollectionState
  deriving DecidableEq

/-! ## Facts about the data -/

/-- Collision-free: different addresses have different identities. -/
theorem registerId_injective : Function.Injective registerId := by
  intro a b same
  cases a <;> cases b <;> simp_all only [registerId, List.cons.injEq, text_inj, String.reduceEq, true_and, and_true,
    false_and]

@[simp] theorem registerId_inj {a b : RegisterAddress} : registerId a = registerId b ↔ a = b :=
  registerId_injective.eq_iff

theorem dotKey_injective : Function.Injective dotKey := by
  intro a b same
  have colon : text ":" = [58] := by decide
  have noColon : ∀ n, (58 : Fin 65536) ∉ (decimal n).reverse := by
    intro n mem
    have range := mem_decimal (mem_reverse.mp mem)
    omega
  simp only [dotKey, colon, append_assoc, singleton_append] at same
  -- Reversed, both keys are digits up to their first colon.
  have reversed := congrArg List.reverse same
  simp only [reverse_append, reverse_cons, append_assoc, singleton_append]
    at reversed
  obtain ⟨digits, devices⟩ := cut_unique (noColon _) (noColon _) reversed
  have counters := decimal_injective (reverse_injective digits)
  have deviceIds := reverse_injective devices
  cases a
  cases b
  rw [Dot.mk.injEq]
  exact ⟨deviceIds, counters⟩

@[simp] theorem dotKey_inj {a b : Dot} : dotKey a = dotKey b ↔ a = b := dotKey_injective.eq_iff

/-! ### Version vectors -/

@[simp] theorem VersionVector.counter_empty (deviceId : JsString) :
    VersionVector.counter .empty deviceId = 0 := rfl

theorem VersionVector.counter_set (vector : VersionVector) (deviceId x : JsString) (n : ℕ) :
    VersionVector.counter (vector.set deviceId n) x =
      if x = deviceId then n else vector.counter x := by
  simp only [VersionVector.counter, SortedMap.get?_set]
  split <;> rfl

@[simp] theorem observesDot_iff {vector : VersionVector} {dot : Dot} :
    observesDot vector dot ↔ dot.counter ≤ vector.counter dot.deviceId := by
  simp [observesDot]

theorem get?_mergeVersionVectors_fold (ks : List JsString)
    (merged : VersionVector) (deviceId : JsString) :
    (ks.foldl (fun merged deviceId =>
      let counter := max (left.counter deviceId) (right.counter deviceId)
      if counter > 0 then merged.set deviceId counter else merged) merged).get? deviceId =
    if deviceId ∈ ks ∧ 0 < max (left.counter deviceId) (right.counter deviceId)
    then some (max (left.counter deviceId) (right.counter deviceId)) else merged.get? deviceId := by
  induction ks generalizing merged with
  | nil => simp
  | cons key ks ih =>
    rw [foldl_cons, ih]
    by_cases same : deviceId = key
    · subst same
      by_cases positive : 0 < max (left.counter deviceId) (right.counter deviceId)
      · simp only [positive, and_true, if_true, mem_cons, true_or, get?_set_self]
        split <;> rfl
      · simp only [positive, and_false, if_false]
    · have lookup : (if max (left.counter key) (right.counter key) > 0
            then merged.set key (max (left.counter key) (right.counter key)) else merged).get? deviceId
          = merged.get? deviceId := by
        split
        · exact get?_set_of_ne _ _ same
        · rfl
      simp only [lookup, mem_cons, same, false_or]

theorem VersionVector.counter_eq_zero_of_not_mem {vector : VersionVector} {deviceId : JsString}
    (absent : deviceId ∉ vector.keys) : vector.counter deviceId = 0 := by
  have none : vector.get? deviceId = none := by
    simpa [SortedMap.mem_keys] using absent
  simp [VersionVector.counter, none]

theorem get?_mergeVersionVectors (deviceId : JsString) :
    (mergeVersionVectors left right).get? deviceId =
      if 0 < max (left.counter deviceId) (right.counter deviceId)
      then some (max (left.counter deviceId) (right.counter deviceId)) else none := by
  rw [mergeVersionVectors, get?_mergeVersionVectors_fold]
  by_cases mem : deviceId ∈ SortedMap.unionKeys left right
  · simp [mem]
  · have absent : deviceId ∉ left.keys ∧ deviceId ∉ right.keys := by
      simpa [mem_unionKeys] using mem
    simp [VersionVector.counter_eq_zero_of_not_mem absent.1,
      VersionVector.counter_eq_zero_of_not_mem absent.2]

@[simp] theorem counter_mergeVersionVectors (deviceId : JsString) :
    (mergeVersionVectors left right).counter deviceId =
      max (left.counter deviceId) (right.counter deviceId) := by
  rw [VersionVector.counter, get?_mergeVersionVectors]
  split
  · rfl
  · simp only [Option.getD_none]
    omega

theorem versionVectorDominates_iff {candidate expected : VersionVector} :
    versionVectorDominates candidate expected ↔
      ∀ deviceId, expected.counter deviceId ≤ candidate.counter deviceId := by
  simp only [versionVectorDominates, List.all_eq_true, decide_eq_true_eq]
  constructor
  · intro h deviceId
    by_cases mem : deviceId ∈ expected.keys
    · exact h deviceId mem
    · rw [VersionVector.counter_eq_zero_of_not_mem mem]; exact Nat.zero_le _
  · exact fun h deviceId _ => h deviceId

/-! ### Clocks -/

theorem maxHybridLogicalClock_eq (left right : HybridLogicalClock) :
    maxHybridLogicalClock left right = max left right := by
  simp only [maxHybridLogicalClock, compareHybridLogicalClocks, ne_eq, compare_lt_iff_lt, not_lt]
  split
  · rename_i le; exact (max_eq_left le).symm
  · rename_i lt; exact (max_eq_right (not_le.mp lt).le).symm

/-- Ticking moves the clock strictly forward. -/
theorem lt_of_tick {current next : HybridLogicalClock} {now : JsNumber}
    (ran : tickHybridLogicalClock current now = .ok next) : current < next := by
  simp only [tickHybridLogicalClock, bind_eq_ok, ensure_eq_ok] at ran
  obtain ⟨_, _, ran⟩ := ran
  rw [HybridLogicalClock.lt_iff]
  split at ran
  · rename_i later
    cases ran
    exact Or.inl later
  · obtain ⟨_, _, ran⟩ := bind_eq_ok.mp ran
    cases ran
    exact Or.inr ⟨rfl, Nat.lt_succ_self _⟩

end Netcatty
