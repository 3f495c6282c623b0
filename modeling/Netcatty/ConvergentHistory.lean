import Mathlib.Data.Set.Finite.Lattice
import Netcatty.ConvergentPlans
import Netcatty.EventGraph

/-!
Replicas as cuts of a causal history.

A history says for every dot which register it writes, what its writer had
observed there, and the value.  A replica represents a history when its vector
covers a cut of it and every register retains exactly the frontier of that cut.
This is the abstract view of a replica: `represents_writtenState` shows that a
write adds one event, `exists_represents` that every valid canonical replica has
such a history, and `ValidState.of_represents` that a replica with a history is
valid as soon as its values and names are.
-/

namespace Netcatty

open List Function

/-- What one dot stands for. -/
structure RegisterEvent where
  address : RegisterAddress
  context : List Dot
  hlc : HybridLogicalClock
  value : Option JsonValue

instance : Inhabited RegisterEvent := ⟨⟨.setting [], [], .zero, none⟩⟩

abbrev History := Dot → RegisterEvent

namespace History

variable (history : History)

def candidate (dot : Dot) : RegisterCandidate where
  dot
  context := (history dot).context
  hlc := (history dot).hlc
  value := (history dot).value

def graph : EventGraph Dot RegisterAddress where
  register dot := (history dot).address
  context dot := {d | d ∈ (history dot).context}

@[simp] theorem candidate_dot (dot : Dot) : (history.candidate dot).dot = dot := rfl

theorem candidate_injective : Function.Injective history.candidate :=
  fun _ _ same => congrArg RegisterCandidate.dot same

theorem graph_agree {history history' : History} {dots : Set Dot}
    (agree : ∀ dot ∈ dots, history dot = history' dot) : history.graph.Agree history'.graph dots := by
  intro dot mem
  simp only [graph, agree dot mem, true_and]

end History

/-- An event a replica may represent. -/
structure EventOk (history : History) (state : ConvergentSyncState) (dot : Dot) : Prop where
  device : dot.deviceId ≠ []
  address : (history dot).address.Valid
  distinct : (history dot).context.Nodup
  earlier : ∀ d ∈ (history dot).context, d.deviceId = dot.deviceId → d.counter < dot.counter
  safe : (history dot).hlc.Safe
  past : (history dot).hlc ≤ state.hlc

/-- The replica is the cut of the history that its vector covers. -/
structure Represents (history : History) (state : ConvergentSyncState) : Prop where
  cut : history.graph.IsCut state.vector.dots
  events : ∀ dot ∈ state.vector.dots, EventOk history state dot
  /-- A register retains the frontier. -/
  candidates : ∀ address c, c ∈ candidatesAt state address ↔
    ∃ dot ∈ history.graph.frontier state.vector.dots address, c = history.candidate dot
  distinct : ∀ address, (candidatesAt state address).Pairwise fun c c' => c.dot ≠ c'.dot
  origins : ∀ dot ∈ state.vector.dots, state.origin dot = some (registerId (history dot).address)
  uncovered : ∀ dot, dot ∉ state.vector.dots → state.origin dot = none
  originDevices : ∀ deviceId ∈ state.dotOrigins.keys, deviceId ∈ state.vector.keys
  vector : ∀ deviceId counter, state.vector.get? deviceId = some counter →
    deviceId ≠ [] ∧ 0 < counter ∧ counter ≤ maxSafeInteger
  clock : state.hlc.Safe

/-- What validity asks of a replica beyond its history: names and values. -/
structure Shaped (state : ConvergentSyncState) : Prop where
  well : StoredWell state
  nonEmpty : ∀ address register, registerAt state address = some register →
    register.candidates ≠ []
  values : ∀ address, ∀ c ∈ candidatesAt state address, (valueValidator address).accepts c = true

/-! ## Vectors -/

theorem VersionVector.dots_finite (vector : VersionVector) : vector.dots.Finite := by
  have cover : vector.dots ⊆ ⋃ deviceId ∈ {d | d ∈ vector.keys},
      (fun counter => ({ deviceId, counter } : Dot)) '' Set.Iic (vector.counter deviceId) := by
    rintro ⟨deviceId, counter⟩ ⟨positive, bounded⟩
    refine Set.mem_biUnion (x := deviceId) ?_ ⟨counter, bounded, rfl⟩
    by_contra absent
    rw [VersionVector.counter_eq_zero_of_not_mem absent] at bounded
    exact absurd positive (by simpa using bounded)
  exact (Set.Finite.biUnion (finite_toSet _) fun _ _ => (Set.finite_Iic _).image _).subset cover

/-- Allocating the next counter of a device covers one more dot. -/
theorem VersionVector.dots_set (vector : VersionVector) (deviceId : JsString) :
    VersionVector.dots (vector.set deviceId (vector.counter deviceId + 1)) =
      insert { deviceId, counter := vector.counter deviceId + 1 } vector.dots := by
  ext ⟨device, counter⟩
  simp only [Set.mem_insert_iff, VersionVector.mem_dots, VersionVector.counter_set, Dot.mk.injEq]
  by_cases same : device = deviceId
  · subst same
    simp only [if_true, true_and]
    omega
  · simp [same]

theorem nextDot_not_mem_dots (state : ConvergentSyncState) (deviceId : JsString) :
    nextDot state deviceId ∉ state.vector.dots := by
  simp [VersionVector.mem_dots, nextDot]

theorem dots_mergeVersionVectors (left right : VersionVector) :
    (mergeVersionVectors left right).dots = left.dots ∪ right.dots := by
  ext dot
  simp only [VersionVector.mem_dots, Set.mem_union, counter_mergeVersionVectors, le_max_iff]
  tauto

theorem dots_subset_iff {left right : VersionVector} :
    left.dots ⊆ right.dots ↔ ∀ deviceId, left.counter deviceId ≤ right.counter deviceId := by
  constructor
  · intro sub deviceId
    by_cases zero : left.counter deviceId = 0
    · omega
    · exact (sub (⟨Nat.pos_of_ne_zero zero, le_refl _⟩ :
        (⟨deviceId, left.counter deviceId⟩ : Dot) ∈ left.dots)).2
  · exact fun le dot mem => ⟨mem.1, mem.2.trans (le _)⟩

/-! ## Reading a represented replica -/

section Represents

variable {history history' : History} {state : ConvergentSyncState}

theorem Represents.mem_causalContext (represents : Represents history state)
    {address : RegisterAddress} {dot : Dot} :
    dot ∈ registerCausalContext (registerAt state address) ↔
      dot ∈ state.vector.dots ∧ (history dot).address = address := by
  rw [mem_registerCausalContext]
  refine Iff.trans ?_ represents.cut.mem_events.symm
  constructor
  · rintro ⟨c, mem, seen⟩
    obtain ⟨f, front, rfl⟩ := (represents.candidates address c).mp mem
    exact ⟨f, front, seen.symm⟩
  · rintro ⟨f, front, seen⟩
    exact ⟨history.candidate f, (represents.candidates address _).mpr ⟨f, front, rfl⟩, seen.symm⟩

theorem Represents.mem_vector_keys (represents : Represents history state) {deviceId : JsString} :
    deviceId ∈ state.vector.keys ↔ 0 < state.vector.counter deviceId := by
  constructor
  · intro mem
    obtain ⟨counter, stored⟩ := SortedMap.mem_keys_iff_exists.mp mem
    rw [VersionVector.counter_eq stored]
    exact (represents.vector deviceId counter stored).2.1
  · intro positive
    by_contra absent
    rw [VersionVector.counter_eq_zero_of_not_mem absent] at positive
    cases positive

theorem Represents.congr (represents : Represents history state)
    (agree : ∀ dot ∈ state.vector.dots, history dot = history' dot) :
    Represents history' state where
  __ := represents
  cut := represents.cut.congr (History.graph_agree agree)
  events dot mem := by
    have ok := represents.events dot mem
    have same := agree dot mem
    exact ⟨ok.device, same ▸ ok.address, same ▸ ok.distinct, same ▸ ok.earlier, same ▸ ok.safe,
      same ▸ ok.past⟩
  candidates address c := by
    rw [represents.candidates, EventGraph.frontier_congr (History.graph_agree agree)]
    refine exists_congr fun dot => and_congr_right fun front => ?_
    simp only [History.candidate, agree dot front.1]
  origins dot mem := agree dot mem ▸ represents.origins dot mem

theorem ValidState.of_represents (represents : Represents history state) (shaped : Shaped state) :
    ValidState state := by
  have names : ∀ dot ∈ state.vector.dots,
      state.Names (registerId (history dot).address) dot := fun dot mem =>
    ⟨(represents.events dot mem).device, mem, represents.origins dot mem⟩
  refine ⟨represents.vector, fun dot => ⟨fun recorded => ?_, fun mem => ?_⟩,
    represents.originDevices, represents.clock, fun address register found => ?_,
    represents.distinct, fun address c mem c' mem' seen => ?_, fun dot mem => ?_,
    shaped.well.settingKeys, shaped.well.collectionNames, shaped.well.stringCollectionNames⟩
  · by_contra absent
    simp [represents.uncovered dot absent] at recorded
  · rw [represents.origins dot mem]; rfl
  · refine ⟨shaped.well.addresses address register found, shaped.nonEmpty address register found,
      fun c mem => ?_, fun c mem => shaped.values address c (by rw [candidatesAt, found]; exact mem)⟩
    obtain ⟨dot, front, rfl⟩ := (represents.candidates address c).mp (by
      rw [candidatesAt, found]; exact mem)
    have ok := represents.events dot front.1
    have atAddress : (history dot).address = address := front.2.1
    refine ⟨atAddress ▸ names dot front.1, fun d seen => ?_, ok.distinct, ok.earlier, ok.safe, ok.past⟩
    have register : (history d).address = (history dot).address :=
      represents.cut.sameRegister dot front.1 d seen
    exact register.trans atAddress ▸ names d (represents.cut.closed dot front.1 seen)
  · obtain ⟨dot, front, rfl⟩ := (represents.candidates address c).mp mem
    obtain ⟨dot', front', rfl⟩ := (represents.candidates address c').mp mem'
    exact front'.2.2 dot front.1 seen
  · exact ⟨(history dot).address, represents.mem_causalContext.mpr ⟨mem, rfl⟩⟩

theorem ValidState.shaped (valid : ValidState state) : Shaped state where
  well := ⟨fun address register found => (valid.stored address register found).1, valid.settingKeys,
    valid.collectionNames, valid.stringCollectionNames⟩
  nonEmpty address register found := (valid.stored address register found).2.nonEmpty
  values address c mem := by
    cases found : registerAt state address with
    | none => simp [candidatesAt, found] at mem
    | some register =>
      rw [candidatesAt, found] at mem
      exact (valid.stored address register found).2.values c mem

end Represents

/-! ## Writing -/

theorem safe_of_tick {current next : HybridLogicalClock} {now : JsNumber} (safe : current.Safe)
    (ran : tickHybridLogicalClock current now = .ok next) : next.Safe := by
  simp only [tickHybridLogicalClock, check_bind_eq_ok, ensure_eq_ok, decide_eq_true_eq] at ran
  obtain ⟨inRange, ran⟩ := ran
  split at ran
  · cases ran
    exact ⟨inRange, Nat.zero_le _⟩
  · obtain ⟨room, ran⟩ := check_bind_eq_ok.mp ran
    cases ran
    have small : current.logical < maxSafeInteger := by simpa using room
    exact ⟨safe.1, small⟩

section Write

variable {history : History} {state : ConvergentSyncState} {deviceId : JsString} {now : JsNumber}
  {hlc : HybridLogicalClock} {address : RegisterAddress} {value : Option JsonValue}

def History.write (history : History) (state : ConvergentSyncState) (deviceId : JsString)
    (hlc : HybridLogicalClock) (address : RegisterAddress) (value : Option JsonValue) : History :=
  Function.update history (nextDot state deviceId)
    { address, context := registerCausalContext (registerAt state address), hlc, value }

theorem History.write_agree {dot : Dot} (mem : dot ∈ state.vector.dots) :
    history dot = history.write state deviceId hlc address value dot := by
  have other : dot ≠ nextDot state deviceId := fun same =>
    nextDot_not_mem_dots state deviceId (same ▸ mem)
  rw [History.write, update_of_ne other]

theorem History.write_next : history.write state deviceId hlc address value
    (nextDot state deviceId) =
      { address, context := registerCausalContext (registerAt state address), hlc, value } :=
  update_self ..

theorem dots_writtenState : (writtenState state deviceId hlc address value).vector.dots =
    insert (nextDot state deviceId) state.vector.dots := by
  rw [writtenState_vector, VersionVector.dots_set, nextDot]

/-- The event of a write has observed exactly its register. -/
theorem History.write_extends (represents : Represents history state) :
    (history.write state deviceId hlc address value).graph.Extends state.vector.dots
      (nextDot state deviceId) := by
  refine ⟨nextDot_not_mem_dots state deviceId, ?_⟩
  ext dot
  simp only [History.graph, History.write_next, Set.mem_ofPred_eq, EventGraph.events,
    represents.mem_causalContext]
  exact and_congr_right fun mem => by rw [← History.write_agree mem]

theorem represents_writtenState (represents : Represents history state) (valid : address.Valid)
    (parent : state.HasParent address) (can : CanWrite state deviceId now hlc) :
    Represents (history.write state deviceId hlc address value)
      (writtenState state deviceId hlc address value) := by
  obtain ⟨device, room, ticked⟩ := can
  have later := lt_of_tick ticked
  have before : Represents (history.write state deviceId hlc address value) state :=
    represents.congr fun dot mem => History.write_agree mem
  have added : (history.write state deviceId hlc address value).graph.Extends state.vector.dots
      (nextDot state deviceId) := History.write_extends represents
  have register : (history.write state deviceId hlc address value).graph.register
      (nextDot state deviceId) = address := by
    simp only [History.graph, History.write_next]
  refine ⟨?_, ?_, ?_, ?_, ?_, ?_, ?_, ?_, ?_⟩
  · rw [dots_writtenState]
    exact before.cut.insert added
  · intro dot mem
    rw [dots_writtenState] at mem
    rcases Set.mem_insert_iff.mp mem with rfl | mem
    · refine ⟨device, ?_, ?_, ?_, ?_, ?_⟩
      · rw [History.write_next]; exact valid
      · rw [History.write_next]; exact registerCausalContext_nodup _
      · rw [History.write_next]
        intro d seen same
        have covered := (represents.mem_causalContext.mp seen).1
        rw [VersionVector.mem_dots, same] at covered
        exact Nat.lt_succ_of_le covered.2
      · rw [History.write_next]; exact safe_of_tick represents.clock ticked
      · rw [History.write_next, writtenState_hlc]
    · have ok := before.events dot mem
      exact ⟨ok.device, ok.address, ok.distinct, ok.earlier, ok.safe, by
        rw [writtenState_hlc]; exact ok.past.trans later.le⟩
  · intro other c
    rw [dots_writtenState, candidatesAt, registerAt_writtenState valid.1 parent]
    by_cases same : other = address
    · subst same
      have front := before.cut.frontier_insert_self added
      rw [register] at front
      rw [if_pos rfl, front]
      simp only [registerCandidates_some, mem_singleton, Set.mem_singleton_iff, exists_eq_left]
      have made : newCandidate state deviceId hlc other value =
          (history.write state deviceId hlc other value).candidate (nextDot state deviceId) := by
        rw [History.candidate, History.write_next]
        rfl
      rw [made]
    · rw [if_neg same, EventGraph.frontier_insert_other added (by rw [register]; exact same)]
      exact before.candidates other c
  · intro other
    rw [candidatesAt, registerAt_writtenState valid.1 parent]
    split
    · exact pairwise_singleton _ _
    · exact represents.distinct other
  · intro dot mem
    rw [dots_writtenState] at mem
    rw [origin_writtenState]
    rcases Set.mem_insert_iff.mp mem with rfl | mem
    · rw [History.write_next]
      exact if_pos rfl
    · have other : dot ≠ nextDot state deviceId := fun same =>
        nextDot_not_mem_dots state deviceId (same ▸ mem)
      rw [if_neg other]
      exact before.origins dot mem
  · intro dot absent
    rw [dots_writtenState, Set.mem_insert_iff, not_or] at absent
    rw [origin_writtenState, if_neg absent.1]
    exact represents.uncovered dot absent.2
  · intro d mem
    rw [writtenState_vector]
    have keys : d = deviceId ∨ d ∈ state.dotOrigins.keys := by
      simp only [SortedMap.mem_keys, writtenState, storeRegister_dotOrigins, allocateDot,
        SortedMap.get?_set] at mem ⊢
      by_cases same : d = deviceId
      · exact Or.inl same
      · exact Or.inr (by simpa [same] using mem)
    rw [SortedMap.mem_keys, SortedMap.get?_set]
    rcases keys with rfl | old
    · simp
    · split
      · rfl
      · exact SortedMap.mem_keys.mp (represents.originDevices d old)
  · intro d counter stored
    rw [writtenState_vector, SortedMap.get?_set] at stored
    split at stored
    · rename_i same
      cases stored
      exact ⟨same ▸ device, Nat.succ_pos _, room⟩
    · exact represents.vector d counter stored
  · rw [writtenState_hlc]
    exact safe_of_tick represents.clock ticked

end Write

/-! ## Opening and canonicalizing -/

section Forms

variable {history : History} {state : ConvergentSyncState}

theorem Represents.of_candidates {state' : ConvergentSyncState} (represents : Represents history state)
    (vector : state'.vector = state.vector) (dotOrigins : state'.dotOrigins = state.dotOrigins)
    (hlc : state'.hlc = state.hlc)
    (candidates : ∀ address, candidatesAt state' address = candidatesAt state address) :
    Represents history state' := by
  have origin : ∀ dot, state'.origin dot = state.origin dot := fun dot => by
    simp only [ConvergentSyncState.origin, dotOrigins]
  refine ⟨vector ▸ represents.cut, fun dot mem => ?_, fun address c => ?_, fun address => ?_,
    fun dot mem => ?_, fun dot absent => ?_, ?_, vector ▸ represents.vector, hlc ▸ represents.clock⟩
  · have ok := represents.events dot (vector ▸ mem)
    exact ⟨ok.device, ok.address, ok.distinct, ok.earlier, ok.safe, hlc ▸ ok.past⟩
  · rw [candidates, vector]
    exact represents.candidates address c
  · rw [candidates]
    exact represents.distinct address
  · rw [origin]
    exact represents.origins dot (vector ▸ mem)
  · rw [origin]
    exact represents.uncovered dot (vector ▸ absent)
  · rw [dotOrigins, vector]
    exact represents.originDevices

theorem represents_openParent (represents : Represents history state) (address : RegisterAddress) :
    Represents history (openParent state address) :=
  represents.of_candidates (openParent_vector state address) (openParent_dotOrigins state address)
    (openParent_hlc state address) (candidatesAt_openParent state address)

def History.canonical (history : History) : History := fun dot =>
  { address := (history dot).address
    context := (canonicalCandidate (history.candidate dot)).context
    hlc := (history dot).hlc
    value := (canonicalCandidate (history.candidate dot)).value }

theorem History.canonical_candidate (dot : Dot) :
    history.canonical.candidate dot = canonicalCandidate (history.candidate dot) := rfl

theorem represents_canonicalState (represents : Represents history state) :
    Represents history.canonical (canonicalState state) := by
  have agree : history.graph.Agree history.canonical.graph state.vector.dots := by
    intro dot _
    refine ⟨rfl, Set.ext fun d => ?_⟩
    exact (@mem_canonicalCandidate_context (history.candidate dot) d).symm
  refine ⟨represents.cut.congr agree, fun dot mem => ?_, fun address c => ?_, fun address => ?_,
    represents.origins, represents.uncovered, represents.originDevices, represents.vector,
    represents.clock⟩
  · have ok := represents.events dot mem
    refine ⟨ok.device, ok.address, (perm_insertionSort _ _).nodup_iff.mpr ok.distinct, ?_,
      ok.safe, ok.past⟩
    intro d seen
    exact ok.earlier d ((@mem_canonicalCandidate_context (history.candidate dot) d).mp seen)
  · rw [mem_candidatesAt_canonicalState]
    change _ ↔ ∃ dot ∈ history.canonical.graph.frontier state.vector.dots address, _
    rw [← EventGraph.frontier_congr agree]
    constructor
    · rintro ⟨c', mem, rfl⟩
      obtain ⟨dot, front, rfl⟩ := (represents.candidates address c').mp mem
      exact ⟨dot, front, (History.canonical_candidate dot).symm⟩
    · rintro ⟨dot, front, rfl⟩
      exact ⟨_, (represents.candidates address _).mpr ⟨dot, front, rfl⟩,
        History.canonical_candidate dot⟩
  · have pairs := represents.distinct address
    simp only [candidatesAt, registerAt_canonicalState] at pairs ⊢
    cases found : registerAt state address with
    | none => simp
    | some register =>
      rw [found] at pairs
      refine ((perm_insertionSort _ _).pairwise_iff fun h => h.symm).mpr ?_
      exact pairwise_map.mpr pairs

theorem ValidState.names (valid : ValidState state) {address : RegisterAddress} {dot : Dot}
    (mem : dot ∈ registerCausalContext (registerAt state address)) :
    address.Valid ∧ state.Names (registerId address) dot := by
  obtain ⟨c, inRegister, seen⟩ := mem_registerCausalContext.mp mem
  cases found : registerAt state address with
  | none => simp [found] at inRegister
  | some register =>
    rw [found] at inRegister
    obtain ⟨named, ok⟩ := valid.stored address register found
    rcases seen with inContext | rfl
    · exact ⟨named, (ok.candidates c inRegister).context dot inContext⟩
    · exact ⟨named, (ok.candidates c inRegister).dot⟩

theorem ValidState.candidateOk (valid : ValidState state) {address : RegisterAddress}
    {c : RegisterCandidate} (mem : c ∈ candidatesAt state address) :
    CandidateOk state (registerId address) c := by
  cases found : registerAt state address with
  | none => simp [candidatesAt, found] at mem
  | some register =>
    rw [candidatesAt, found] at mem
    exact (valid.stored address register found).2.candidates c mem

theorem address_unique {address address' : RegisterAddress} {dot : Dot}
    (left : state.Names (registerId address) dot) (right : state.Names (registerId address') dot) :
    address = address' := by
  have same := left.origin.symm.trans right.origin
  rwa [Option.some.injEq, registerId_inj] at same

/-- What is known of a covered dot: its candidate when it is retained, and
otherwise only its register. -/
private def Known (state : ConvergentSyncState) (dot : Dot) (event : RegisterEvent) : Prop :=
  event.address.Valid ∧ state.Names (registerId event.address) dot ∧
  ((∃ c ∈ candidatesAt state event.address,
      c = ⟨dot, event.context, event.hlc, event.value⟩) ∨
    ((∀ c ∈ candidatesAt state event.address, c.dot ≠ dot) ∧ event.context = [] ∧
      event.hlc = .zero))

theorem exists_known (valid : ValidState state) (dot : Dot) (mem : dot ∈ state.vector.dots) :
    ∃ event, Known state dot event := by
  obtain ⟨address, seen⟩ := valid.witnessed dot mem
  obtain ⟨named, names⟩ := valid.names seen
  by_cases retained : ∃ c ∈ candidatesAt state address, c.dot = dot
  · obtain ⟨c, inRegister, rfl⟩ := retained
    exact ⟨⟨address, c.context, c.hlc, c.value⟩, named, names, Or.inl ⟨c, inRegister, rfl⟩⟩
  · push Not at retained
    exact ⟨⟨address, [], .zero, none⟩, named, names, Or.inr ⟨retained, rfl, rfl⟩⟩

/-- A valid replica has a history: what it has only observed is an event of which
nothing but the register is known. -/
theorem exists_represents (valid : ValidState state) : ∃ history, Represents history state := by
  obtain ⟨history, known⟩ : ∃ history : History, ∀ dot ∈ state.vector.dots,
      Known state dot (history dot) := by
    choose! history known using exists_known valid
    exact ⟨history, known⟩
  have retainedEvent : ∀ address, ∀ c ∈ candidatesAt state address, c.dot ∈ state.vector.dots ∧
      (history c.dot).address = address ∧ history.candidate c.dot = c := by
    intro address c mem
    have names := (valid.candidateOk mem).dot
    obtain ⟨_, names', retained⟩ := known c.dot names.covered
    have same := address_unique names' names
    refine ⟨names.covered, same, ?_⟩
    rw [same] at retained
    rcases retained with ⟨c', mem', eq⟩ | ⟨absent, _⟩
    · have dots : c'.dot = c.dot := by rw [eq]
      rw [← dotsDistinct_of_pairwise (valid.distinct address) c' mem' c mem dots, dots]
      exact eq.symm
    · exact absurd rfl (absent c mem)
  have contextKnown : ∀ dot ∈ state.vector.dots, ∀ d ∈ (history dot).context,
      history.candidate dot ∈ candidatesAt state (history dot).address ∧
        state.Names (registerId (history dot).address) d := by
    intro dot mem d seen
    obtain ⟨_, _, ⟨c, retained, eq⟩ | ⟨_, empty, _⟩⟩ := known dot mem
    · have ok := valid.candidateOk retained
      have same : c = history.candidate dot := eq
      exact ⟨same ▸ retained, ok.context d (by rw [eq]; exact seen)⟩
    · rw [empty] at seen
      cases seen
  have observedEmpty : ∀ dot ∈ state.vector.dots, ∀ d ∈ (history dot).context,
      (history d).address = (history dot).address ∧ (history d).context = [] := by
    intro dot mem d seen
    obtain ⟨retained, names⟩ := contextKnown dot mem d seen
    obtain ⟨_, names', retained' | ⟨_, empty, _⟩⟩ := known d names.covered
    · obtain ⟨c', mem', eq⟩ := retained'
      have same := address_unique names' names
      have dots : c'.dot = d := by rw [eq]
      rw [same] at mem'
      exact absurd (dots ▸ seen) (valid.unretained _ _ retained c' mem')
    · exact ⟨address_unique names' names, empty⟩
  refine ⟨history, ⟨state.vector.dots_finite, ?_, ?_, ?_, ?_⟩, ?_, ?_, valid.distinct, ?_, ?_,
    valid.originDevices, valid.vector, valid.clock⟩
  · exact fun dot mem d seen => (contextKnown dot mem d seen).2.covered
  · exact fun dot mem d seen => (observedEmpty dot mem d seen).1
  · intro dot mem d seen x seen'
    rw [History.graph, Set.mem_ofPred_eq, (observedEmpty dot mem d seen).2] at seen'
    cases seen'
  · intro dot mem seen
    have earlier := (valid.candidateOk (contextKnown dot mem dot seen).1).earlier dot seen rfl
    exact lt_irrefl _ earlier
  · intro dot mem
    obtain ⟨named, names, ⟨c, retained, eq⟩ | ⟨_, empty, zero⟩⟩ := known dot mem
    · have ok := valid.candidateOk retained
      rw [eq] at ok
      exact ⟨names.device, named, ok.distinct, ok.earlier, ok.clock, ok.past⟩
    · refine ⟨names.device, named, by simp [empty], by simp [empty], ?_, ?_⟩
      · rw [zero]
        exact ⟨Nat.zero_le _, Nat.zero_le _⟩
      · rw [zero]
        exact HybridLogicalClock.zero_le _
  · intro address c
    constructor
    · intro mem
      obtain ⟨covered, same, eq⟩ := retainedEvent address c mem
      refine ⟨c.dot, ⟨covered, same, fun dot mem' seen => ?_⟩, eq.symm⟩
      obtain ⟨retained, names⟩ := contextKnown dot mem' c.dot seen
      have addresses := address_unique names (valid.candidateOk mem).dot
      rw [addresses] at retained
      exact valid.unretained address _ retained c mem seen
    · rintro ⟨dot, ⟨covered, same, top⟩, rfl⟩
      obtain ⟨address', seen⟩ := valid.witnessed dot covered
      obtain ⟨c, inRegister, inContext | rfl⟩ := mem_registerCausalContext.mp seen
      · obtain ⟨covered', same', eq⟩ := retainedEvent address' c inRegister
        have context : (history c.dot).context = c.context := congrArg RegisterCandidate.context eq
        exact absurd (show dot ∈ (history c.dot).context by rw [context]; exact inContext)
          (top c.dot covered')
      · obtain ⟨_, same', eq⟩ := retainedEvent address' c inRegister
        have addresses : address' = address := same'.symm.trans same
        rw [eq, ← addresses]
        exact inRegister
  · exact fun dot mem => (known dot mem).2.1.origin
  · intro dot absent
    have unrecorded := (valid.origins dot).not.mpr absent
    simpa using unrecorded

end Forms

end Netcatty
