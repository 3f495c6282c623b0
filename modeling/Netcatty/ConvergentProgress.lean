import Netcatty.ConvergentExecution

/-!
Batches on arbitrary valid replicas.

Nothing but its own checks, the value validator of a resolved register, and an
exhausted counter or clock stops a batch: on a valid replica a batch that passes
the former and never meets the latter returns a valid replica that has forgotten
nothing (`applyConvergentMutations_valid`).
-/

namespace Netcatty

open List

/-! ## What stops a batch -/

/-- The device can write once more: its counter and the clock are not exhausted. -/
def HasRoom (deviceId : JsString) (now : JsNumber) (state : ConvergentSyncState) : Prop :=
  state.vector.counter deviceId < maxSafeInteger ∧ safeNow now ≤ maxSafeInteger ∧
    (safeNow now ≤ state.hlc.wallTime → state.hlc.logical < maxSafeInteger)

def ResolutionAccepted : ConvergentMutation → Prop
  | .resolveRegister address value _ =>
    ∀ c : RegisterCandidate, c.value = value → (valueValidator address).accepts c = true
  | _ => True

/-- Every mutation of a batch is well formed on the replica it is applied to. -/
def BatchOk (deviceId : JsString) (now : JsNumber) :
    ConvergentSyncState → List ConvergentMutation → Prop
  | _, [] => True
  | state, mutation :: mutations => MutationOk state mutation ∧ ResolutionAccepted mutation ∧
    ∀ next, applyMutation state deviceId mutation now = .ok next →
      BatchOk deviceId now next mutations

/-- The replicas that the register writes of a batch find. -/
inductive Meets (deviceId : JsString) (now : JsNumber) :
    ConvergentSyncState → List ConvergentMutation → ConvergentSyncState → Prop where
  | write {state reached mutation mutations before write after} :
      mutationWrites state mutation = before ++ write :: after →
      runWrites deviceId now (openMutation state mutation) before = .ok reached →
      Meets deviceId now state (mutation :: mutations) reached
  | later {state next reached mutation mutations} :
      applyMutation state deviceId mutation now = .ok next →
      Meets deviceId now next mutations reached →
      Meets deviceId now state (mutation :: mutations) reached

section Writes

variable {deviceId : JsString} {now : JsNumber} {state : ConvergentSyncState}

theorem HasRoom.exists_canWrite (room : HasRoom deviceId now state) (device : deviceId ≠ []) :
    ∃ hlc, CanWrite state deviceId now hlc := by
  obtain ⟨counter, inRange, logical⟩ := room
  simp only [CanWrite, tickHybridLogicalClock, check_bind_eq_ok, ensure_eq_ok, decide_eq_true_eq]
  by_cases later : safeNow now > state.hlc.wallTime
  · exact ⟨{ wallTime := safeNow now, logical := 0 }, device, counter, inRange, if_pos later⟩
  · refine ⟨{ wallTime := state.hlc.wallTime, logical := state.hlc.logical + 1 }, device, counter,
      inRange, ?_⟩
    rw [if_neg later]
    exact check_bind_eq_ok.mpr ⟨by simpa using logical (not_lt.mp later), rfl⟩

theorem runWrites_total {writes : List RegisterWrite} (device : deviceId ≠ [])
    (writable : Writable state writes)
    (room : ∀ before write after reached, writes = before ++ write :: after →
      runWrites deviceId now state before = .ok reached → HasRoom deviceId now reached) :
    ∃ state', runWrites deviceId now state writes = .ok state' := by
  induction writes generalizing state with
  | nil => exact ⟨state, rfl⟩
  | cons write writes ih =>
    obtain ⟨hlc, can⟩ := (room [] write writes state rfl rfl).exists_canWrite device
    obtain ⟨valid, parent⟩ := writable write mem_cons_self
    have first : writeRegisterAt state deviceId now write.address write.value = _ :=
      (writeRegisterAt_eq_ok valid.1 parent).mpr ⟨hlc, can, rfl⟩
    obtain ⟨state', ran⟩ := ih (writable.tail deviceId hlc) fun before other after reached split ran =>
      room (write :: before) other after reached (by rw [split]; rfl) (by
        rw [runWrites_cons, first]; exact ran)
    exact ⟨state', (runWrites_cons_eq_ok writable).mpr ⟨hlc, can, ran⟩⟩

end Writes

/-! ## Values and presence -/

section Mutation

variable {state : ConvergentSyncState} {mutation : ConvergentMutation}

theorem accepts_position (address : RegisterAddress) (position : CollectionPosition)
    (isPosition : valueValidator address = positionValidator) (c : RegisterCandidate)
    (value : c.value = some position.toJson) : (valueValidator address).accepts c := by
  rw [isPosition, positionValidator]
  simp only [value]
  cases position <;> rfl

theorem accepts_true (address : RegisterAddress)
    (isPresence : valueValidator address = presenceValidator) (c : RegisterCandidate)
    (value : c.value = some (.bool true)) : (valueValidator address).accepts c := by
  simp [isPresence, presenceValidator, value]

theorem accepts_tombstone (address : RegisterAddress) (c : RegisterCandidate)
    (value : c.value = none) : (valueValidator address).accepts c := by
  cases address <;>
    simp [valueValidator, presenceValidator, positionValidator, anyValidator, isTombstoneCandidate, value]

theorem positionWrite_accepted {address : RegisterAddress}
    {position : Option CollectionPosition} {write : RegisterWrite}
    (isPosition : valueValidator address = positionValidator)
    (planned : positionWrite state address position = some write) (c : RegisterCandidate)
    (value : c.value = write.value) : (valueValidator write.address).accepts c := by
  cases position with
  | none => cases planned
  | some position =>
    simp only [positionWrite] at planned
    split at planned
    · cases planned
      exact accepts_position address position isPosition c value
    · cases planned

theorem presenceWrites_accepted {address : RegisterAddress} {contents : List RegisterWrite}
    {write : RegisterWrite} (isPresence : valueValidator address = presenceValidator)
    (mem : write ∈ presenceWrites state address contents) (c : RegisterCandidate)
    (value : c.value = write.value) : (valueValidator write.address).accepts c := by
  simp only [presenceWrites] at mem
  split at mem
  · rw [mem_singleton.mp mem] at value ⊢
    exact accepts_true address isPresence c value
  · cases mem

theorem settingWrites_accepted {path : List JsString} {value : Option JsonValue}
    {write : RegisterWrite} (mem : write ∈ settingWrites state path value) (c : RegisterCandidate) :
    (valueValidator write.address).accepts c := by
  rcases mem_append.mp mem with related | own
  · obtain ⟨key, _, planned⟩ := mem_filterMap.mp related
    rw [(relatedWrite_eq_some planned).1]
    rfl
  · split at own
    · cases own
    · rw [mem_singleton.mp own]
      rfl

theorem mutationWrites_accepted (accepted : ResolutionAccepted mutation) {write : RegisterWrite}
    (mem : write ∈ mutationWrites state mutation) (c : RegisterCandidate)
    (value : c.value = write.value) : (valueValidator write.address).accepts c := by
  cases mutation with
  | entityUpsert collection entityId object position =>
    rcases mem_append.mp mem with contents | presence
    · rcases mem_append.mp contents with inFields | inPosition
      · obtain ⟨field, _, planned⟩ := mem_filterMap.mp inFields
        rw [fieldWrite_address planned]
        rfl
      · exact positionWrite_accepted rfl (by simpa using inPosition) c value
    · exact presenceWrites_accepted rfl presence c value
  | entityFieldSet collection entityId field object =>
    simp only [mutationWrites] at mem
    split at mem
    · simp only [mem_cons, not_mem_nil, or_false] at mem
      rcases mem with rfl | rfl
      · rfl
      · exact accepts_true _ rfl c value
    · cases mem
  | entityFieldDelete collection entityId field =>
    simp only [mutationWrites] at mem
    split at mem
    · rcases mem_cons.mp mem with rfl | presence
      · rfl
      · split at presence
        · rw [mem_singleton.mp presence] at value ⊢
          exact accepts_true _ rfl c value
        · cases presence
    · cases mem
  | entityDelete collection entityId =>
    rw [mem_singleton.mp mem] at value ⊢
    exact accepts_tombstone _ c value
  | settingSet path object => exact settingWrites_accepted mem c
  | settingDelete path => exact settingWrites_accepted mem c
  | stringEntryAdd collection entry position =>
    rcases mem_append.mp mem with contents | presence
    · exact positionWrite_accepted rfl (by simpa using contents) c value
    · exact presenceWrites_accepted rfl presence c value
  | stringEntryDelete collection entry =>
    simp only [mutationWrites] at mem
    split at mem
    · rw [mem_singleton.mp mem] at value ⊢
      exact accepts_tombstone _ c value
    · cases mem
  | resolveRegister address resolution tombstone =>
    cases address with
    | setting path => exact settingWrites_accepted mem c
    | _ =>
      rw [mem_singleton.mp mem] at value ⊢
      exact accepted c value

theorem presence_mem_mutationWrites {address : RegisterAddress}
    (absent : registerAt state address = none)
    (opened : registerAt (openMutation state mutation) address ≠ none) :
    ∃ write ∈ mutationWrites state mutation, write.address = address := by
  have presence : ∀ parent, openMutation state mutation = openParent state parent →
      address = parent.presence := by
    intro parent same
    rw [same, registerAt_openParent] at opened
    split at opened
    · rename_i created
      exact created.2.1
    · exact absurd absent opened
  have stale : ∀ contents, ⟨address, some (.bool true)⟩ ∈ presenceWrites state address contents := by
    intro contents
    simp [presenceWrites, absent, presenceIsStale]
  cases mutation with
  | entityUpsert collection entityId object position =>
    obtain rfl := presence (.entityPresence collection entityId) rfl
    exact ⟨_, mem_append_right _ (stale _), rfl⟩
  | entityFieldSet collection entityId field object =>
    obtain rfl := presence (.entityPresence collection entityId) rfl
    have noField : registerAt state (.entityField collection entityId field) = none := by
      have noEntity : findEntity state collection entityId = none := by
        simpa [registerAt, RegisterAddress.presence] using absent
      simp [registerAt, noEntity]
    refine ⟨⟨.entityPresence collection entityId, some (.bool true)⟩, ?_, rfl⟩
    simp [mutationWrites, noField, needsWrite]
  | entityDelete collection entityId =>
    obtain rfl := presence (.entityPresence collection entityId) rfl
    exact ⟨_, mem_singleton.mpr rfl, rfl⟩
  | stringEntryAdd collection entry position =>
    obtain rfl := presence (.stringEntryPresence collection entry) rfl
    exact ⟨_, mem_append_right _ (stale _), rfl⟩
  | entityFieldDelete _ _ _ | settingSet _ _ | settingDelete _ | stringEntryDelete _ _
  | resolveRegister _ _ _ => exact absurd absent opened

/-- A mutation leaves no empty register and no value its validator refuses. -/
theorem applyMutation_shaped {deviceId : JsString} {now : JsNumber} {state' : ConvergentSyncState}
    (shaped : Shaped state) (accepted : ResolutionAccepted mutation)
    (well' : StoredWell state') (ran : applyMutation state deviceId mutation now = .ok state') :
    Shaped state' := by
  have ok := mutationOk_of_applyMutation ran
  have writable := mutationWrites_writable shaped.well ok
  rw [applyMutation_eq_runWrites shaped.well ok] at ran
  have written := fun write (mem : write ∈ mutationWrites state mutation) =>
    registerAt_runWrites_of_mem writable (mutationWrites_distinct shaped.well mutation) ran mem
  have opened : ∀ address, candidatesAt (openMutation state mutation) address =
      candidatesAt state address := by
    intro address
    rcases openMutation_eq ok with same | ⟨parent, _, same⟩ <;> rw [same]
    exact candidatesAt_openParent state parent address
  refine ⟨well', fun address register found => ?_, fun address c mem => ?_⟩
  · by_cases writes : ∃ write ∈ mutationWrites state mutation, write.address = address
    · obtain ⟨write, mem, rfl⟩ := writes
      obtain ⟨candidate, stored, _⟩ := written write mem
      cases found.symm.trans stored
      exact cons_ne_nil _ _
    · push Not at writes
      have kept := registerAt_runWrites writable ran writes
      cases before : registerAt state address with
      | none =>
        have opened : registerAt (openMutation state mutation) address ≠ none := by
          rw [← kept, found]
          exact Option.some_ne_none _
        obtain ⟨write, mem, same⟩ := presence_mem_mutationWrites before opened
        exact absurd same (writes write mem)
      | some original =>
        have same := opened address
        rw [candidatesAt, candidatesAt, ← kept, found, before, registerCandidates_some,
          registerCandidates_some] at same
        rw [same]
        exact shaped.nonEmpty address original before
  · by_cases writes : ∃ write ∈ mutationWrites state mutation, write.address = address
    · obtain ⟨write, inWrites, rfl⟩ := writes
      obtain ⟨candidate, stored, value, _⟩ := written write inWrites
      rw [candidatesAt, stored, registerCandidates_some, mem_singleton] at mem
      exact mutationWrites_accepted accepted inWrites c (mem ▸ value)
    · push Not at writes
      rw [candidatesAt, registerAt_runWrites writable ran writes, ← candidatesAt, opened] at mem
      exact shaped.values address c mem

end Mutation

/-! ## Batches -/

section Batch

variable {deviceId : JsString} {now : JsNumber} {history : History} {state : ConvergentSyncState}

theorem applyMutations_progress {mutations : List ConvergentMutation} (device : deviceId ≠ [])
    (represents : Represents history state) (shaped : Shaped state)
    (batch : BatchOk deviceId now state mutations)
    (room : ∀ reached, Meets deviceId now state mutations reached → HasRoom deviceId now reached) :
    ∃ state' history', applyMutations deviceId now state mutations = .ok state' ∧
      Shaped state' ∧ Evolves deviceId history state history' state' := by
  induction mutations generalizing history state with
  | nil => exact ⟨state, history, rfl, shaped, Evolves.refl represents⟩
  | cons mutation mutations ih =>
    obtain ⟨ok, accepted, later⟩ := batch
    obtain ⟨next, ran⟩ : ∃ next, applyMutation state deviceId mutation now = .ok next := by
      rw [applyMutation_eq_runWrites shaped.well ok]
      exact runWrites_total device (mutationWrites_writable shaped.well ok)
        fun before write after reached split ran => room reached (.write split ran)
    obtain ⟨well, history', first⟩ := applyMutation_evolves shaped.well represents ran
    obtain ⟨state', history'', rest, shaped', second⟩ := ih first.represents
      (applyMutation_shaped shaped accepted well ran) (later next ran)
      fun reached meets => room reached (.later ran meets)
    exact ⟨state', history'', applyMutations_cons_eq_ok.mpr ⟨next, ran, rest⟩, shaped',
      first.trans second⟩

/-- The replica has forgotten no counter, no origin and no candidate's dot. -/
structure Remembers (state state' : ConvergentSyncState) : Prop where
  vector : versionVectorDominates state'.vector state.vector = true
  origins : ∀ dot id, state.origin dot = some id → state'.origin dot = some id
  dots : ∀ address, ∀ c ∈ candidatesAt state address,
    c.dot ∈ registerCausalContext (registerAt state' address)

theorem Evolves.remembers {history' : History} {state' : ConvergentSyncState}
    (evolves : Evolves deviceId history state history' state')
    (represents : Represents history state) : Remembers state state' where
  vector := versionVectorDominates_iff.mpr evolves.counter_le
  origins dot id recorded := by
    have covered : dot ∈ state.vector.dots := by
      by_contra absent
      rw [represents.uncovered dot absent] at recorded
      cases recorded
    rw [represents.origins dot covered] at recorded
    rw [evolves.represents.origins dot (evolves.dots_subset covered),
      evolves.same dot fun device => device ▸ covered.2]
    exact recorded
  dots address c mem := evolves.causalContext_subset represents
    (mem_registerCausalContext.mpr ⟨c, mem, Or.inr rfl⟩)

/-- **A batch keeps every valid replica valid.**  Given a device name, well-formed
mutations, resolutions the validators accept, and counters and clock readings
left at every write, the result is accepted and has forgotten nothing. -/
theorem applyConvergentMutations_valid {mutations : List ConvergentMutation}
    (accepted : assertValidConvergentSyncState state = .ok ()) (device : deviceId ≠ [])
    (batch : BatchOk deviceId now (canonicalState state) mutations)
    (room : ∀ reached, Meets deviceId now (canonicalState state) mutations reached →
      HasRoom deviceId now reached) :
    ∃ state', applyConvergentMutations state deviceId mutations now = .ok state' ∧
      assertValidConvergentSyncState state' = .ok () ∧ Remembers state state' := by
  have valid := assertValid_eq_ok.mp accepted
  obtain ⟨history, represents⟩ := exists_represents valid.canonical
  obtain ⟨next, history', ran, shaped, evolves⟩ :=
    applyMutations_progress device represents valid.canonical.shaped batch room
  have validNext := ValidState.of_represents evolves.represents shaped
  have remembers := evolves.remembers represents
  refine ⟨canonicalState next, applyConvergentMutations_eq_ok.mpr
    ⟨valid, device, next, ran, validNext, rfl⟩, assertValid_eq_ok.mpr validNext.canonical,
    remembers.vector, remembers.origins, fun address c mem => ?_⟩
  exact mem_registerCausalContext_canonicalState.mpr (remembers.dots address (canonicalCandidate c)
    (mem_candidatesAt_canonicalState.mpr ⟨c, mem, rfl⟩))

end Batch

/-! ## Guards -/

def groupAdded : ConvergentSyncState where
  vector := SortedMap.empty.set (text "a") 1
  dotOrigins := SortedMap.empty.set (text "a")
    (SortedMap.empty.set 1 (registerId (.stringEntryPresence (text "customGroups") (text "work"))))
  hlc := ⟨1, 0⟩
  collections := .empty
  settings := .empty
  stringCollections := SortedMap.empty.set (text "customGroups") ⟨SortedMap.empty.set (text "work")
    ⟨⟨[⟨⟨text "a", 1⟩, [], ⟨1, 0⟩, some (.bool true)⟩]⟩, none⟩⟩

/-- A presence resolved to a JSON value other than `true`, a timestamp beyond the
safe integers, an empty device name, the structural ID as a field, and a batch
that uses up the clock are refused, although the replicas are accepted and no
counter or clock component is at its limit. -/
theorem applyConvergentMutations_guards : assertValidConvergentSyncState groupAdded = .ok () ∧
    (registerAt groupAdded (.stringEntryPresence (text "customGroups") (text "work"))).isSome ∧
    applyConvergentMutations groupAdded (text "a") [.resolveRegister
        (.stringEntryPresence (text "customGroups") (text "work")) (some (.bool false)) false]
        (.finite 1) =
      .error (.invariant (text "stringCollections.customGroups.work.presence.candidates[0]" ++
        text " presence values must be true")) ∧
    applyConvergentMutations groupAdded (text "a") [.settingSet [text "theme"] (.bool true)]
      (.finite (2 ^ 53)) = .error clockOutOfRange ∧
    applyConvergentMutations groupAdded [] [.settingSet [text "theme"] (.bool true)] (.finite 1) =
      .error (mustNotBeEmpty (text "Device ID")) ∧
    applyConvergentMutations groupAdded (text "a")
      [.entityFieldSet (text "hosts") (text "h") (text "id") (.str (text "h"))] (.finite 1) =
        .error idIsStructural ∧
    assertValidConvergentSyncState
      { createConvergentSyncState with hlc := ⟨1, maxSafeInteger - 1⟩ } = .ok () ∧
    applyConvergentMutations { createConvergentSyncState with hlc := ⟨1, maxSafeInteger - 1⟩ }
      (text "a") [.settingSet [text "theme"] (.bool true), .settingSet [text "font"] (.bool true)]
      (.finite 1) = .error clockExhausted := by
  refine ⟨?_, ?_, ?_, ?_, ?_, ?_, ?_, ?_⟩ <;> decide +kernel

/-- The presence of the group is resolved to a tombstone. -/
theorem applyConvergentMutations_valid_groupAdded :
    ∃ state', applyConvergentMutations groupAdded (text "a")
        [.resolveRegister (.stringEntryPresence (text "customGroups") (text "work")) none true]
        (.finite 2) = .ok state' ∧
      assertValidConvergentSyncState state' = .ok () ∧ Remembers groupAdded state' := by
  refine applyConvergentMutations_valid (by decide +kernel) (by decide) ⟨⟨by decide +kernel, rfl⟩,
    fun c value => ?_, fun _ _ => trivial⟩ fun reached meets => ?_
  · exact accepts_tombstone _ c value
  · cases meets with
    | @write _ _ _ _ before _ _ split ran =>
      cases before with
      | nil =>
        cases ran
        exact ⟨by decide +kernel, by decide +kernel, fun _ => by decide +kernel⟩
      | cons first before => simp [mutationWrites] at split
    | later _ rest => cases rest

end Netcatty
