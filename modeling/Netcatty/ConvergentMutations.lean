import Netcatty.ConvergentHistory

/-!
Batches of mutations.

A batch of one device adds events of that device to the history and changes no
other event (`applyMutations_evolves`).  Whatever valid replica it starts from,
it ends in a valid replica or runs out of counters or clock readings
(`applyMutations_progress`).
-/

namespace Netcatty

open Option SortedMap

/-! ## What a run of writes does to a history -/

def ClockAttained (history : History) (state : ConvergentSyncState) : Prop :=
  state.hlc = .zero ∨ ∃ dot ∈ state.vector.dots, (history dot).hlc = state.hlc

/-- A device has gone on from a replica: the history only gained later dots of
this device. -/
structure Evolves (deviceId : JsString) (history : History) (state : ConvergentSyncState)
    (history' : History) (state' : ConvergentSyncState) : Prop where
  /-- Events of other devices, and of the device's earlier dots, stay. -/
  same : ∀ dot, (dot.deviceId = deviceId → dot.counter ≤ state.vector.counter deviceId) →
    history' dot = history dot
  others : ∀ device, device ≠ deviceId → state'.vector.counter device = state.vector.counter device
  grows : state.vector.counter deviceId ≤ state'.vector.counter deviceId
  represents : Represents history' state'
  attained : ClockAttained history state → ClockAttained history' state'

namespace Evolves

variable {deviceId : JsString} {history history' history'' : History}
  {state state' state'' : ConvergentSyncState}

theorem refl (represents : Represents history state) :
    Evolves deviceId history state history state :=
  ⟨fun _ _ => rfl, fun _ _ => rfl, le_rfl, represents, id⟩

theorem trans (first : Evolves deviceId history state history' state')
    (second : Evolves deviceId history' state' history'' state'') :
    Evolves deviceId history state history'' state'' where
  same dot early := (second.same dot fun device => (early device).trans first.grows).trans
    (first.same dot early)
  others device other := (second.others device other).trans (first.others device other)
  grows := first.grows.trans second.grows
  represents := second.represents
  attained := second.attained ∘ first.attained

section

variable (evolves : Evolves deviceId history state history' state')
include evolves

theorem counter_le (device : JsString) :
    state.vector.counter device ≤ state'.vector.counter device := by
  by_cases same : device = deviceId
  · exact same ▸ evolves.grows
  · exact (evolves.others device same).ge

theorem dots_subset : state.vector.dots ⊆ state'.vector.dots :=
  dots_subset_iff.mpr evolves.counter_le

/-- No register forgets what it had observed. -/
theorem causalContext_subset
    (represents : Represents history state) {address : RegisterAddress} {dot : Dot}
    (seen : dot ∈ registerCausalContext (registerAt state address)) :
    dot ∈ registerCausalContext (registerAt state' address) := by
  obtain ⟨mem, atAddress⟩ := represents.mem_causalContext.mp seen
  refine evolves.represents.mem_causalContext.mpr ⟨evolves.dots_subset mem, ?_⟩
  rw [evolves.same dot fun device => device ▸ mem.2]
  exact atAddress

end

end Evolves

section Runs

variable {deviceId : JsString} {now : JsNumber} {history : History}
  {state state' : ConvergentSyncState}

theorem runWrites_evolves {writes : List RegisterWrite} (well : StoredWell state)
    (represents : Represents history state) (writable : Writable state writes)
    (ran : runWrites deviceId now state writes = .ok state') :
    StoredWell state' ∧ ∃ history', Evolves deviceId history state history' state' := by
  refine runWrites_induction (P := fun s => StoredWell s ∧ ∃ history',
    Evolves deviceId history state history' s) writable ran
    ⟨well, history, Evolves.refl represents⟩ ?_
  rintro s hlc write _ ⟨well, history', evolves⟩ valid parent can
  refine ⟨well.writtenState valid parent deviceId hlc write.value, _,
    evolves.trans ⟨fun dot early => ?_, fun device other => ?_, ?_,
      represents_writtenState evolves.represents valid parent can, fun _ => Or.inr ?_⟩⟩
  · rw [History.write, Function.update_of_ne]
    rintro rfl
    exact absurd (early rfl) (Nat.not_succ_le_self _)
  · rw [writtenState_vector, VersionVector.counter_set, if_neg other]
  · rw [writtenState_vector, VersionVector.counter_set, if_pos rfl]
    exact Nat.le_succ _
  · refine ⟨nextDot s deviceId, ?_, ?_⟩
    · rw [dots_writtenState]
      exact Set.mem_insert _ _
    · rw [History.write_next, writtenState_hlc]

variable {mutation : ConvergentMutation}

theorem openMutation_eq (ok : MutationOk state mutation) : openMutation state mutation = state ∨
      ∃ address, address.Valid ∧ openMutation state mutation = openParent state address := by
  cases mutation with
  | entityUpsert c e value position => exact Or.inr ⟨.entityPresence c e, ⟨⟨ok.1, ok.2.1⟩, rfl⟩, rfl⟩
  | entityFieldSet c e field value => exact Or.inr ⟨.entityPresence c e, ⟨⟨ok.1, ok.2.1⟩, rfl⟩, rfl⟩
  | entityDelete c e => exact Or.inr ⟨.entityPresence c e, ⟨⟨ok.1, ok.2⟩, rfl⟩, rfl⟩
  | stringEntryAdd c value position =>
    exact Or.inr ⟨.stringEntryPresence c value, ⟨⟨ok.1, ok.2⟩, rfl⟩, rfl⟩
  | _ => exact Or.inl rfl

theorem openMutation_evolves (well : StoredWell state)
    (represents : Represents history state) (ok : MutationOk state mutation) :
    StoredWell (openMutation state mutation) ∧
      Evolves deviceId history state history (openMutation state mutation) := by
  rcases openMutation_eq ok with same | ⟨address, valid, same⟩
  · rw [same]
    exact ⟨well, Evolves.refl represents⟩
  · rw [same]
    refine ⟨well.openParent valid, ⟨fun _ _ => rfl, ?_, ?_, represents_openParent represents address,
      fun attained => ?_⟩⟩
    · simp
    · simp
    · simpa [ClockAttained] using attained

theorem applyMutation_evolves (well : StoredWell state) (represents : Represents history state)
    (ran : applyMutation state deviceId mutation now = .ok state') :
    StoredWell state' ∧ ∃ history', Evolves deviceId history state history' state' := by
  have ok := mutationOk_of_applyMutation ran
  obtain ⟨openWell, opened⟩ : _ ∧ Evolves deviceId _ _ _ _ := openMutation_evolves well represents ok
  rw [applyMutation_eq_runWrites well ok] at ran
  obtain ⟨well', history', evolves⟩ := runWrites_evolves openWell opened.represents
    (mutationWrites_writable well ok) ran
  exact ⟨well', history', opened.trans evolves⟩

theorem applyMutations_cons_eq_ok {mutations : List ConvergentMutation} :
    applyMutations deviceId now state (mutation :: mutations) = .ok state' ↔
      ∃ next, applyMutation state deviceId mutation now = .ok next ∧
        applyMutations deviceId now next mutations = .ok state' := by
  rw [applyMutations, List.foldlM_cons, bind_eq_ok]
  rfl

section

variable {mutations : List ConvergentMutation} (well : StoredWell state)
  (represents : Represents history state)
include well represents

/-- **A batch continues the history.** -/
theorem applyMutations_evolves (ran : applyMutations deviceId now state mutations = .ok state') :
    StoredWell state' ∧ ∃ history', Evolves deviceId history state history' state' := by
  induction mutations generalizing history state with
  | nil =>
    cases ran
    exact ⟨well, history, Evolves.refl represents⟩
  | cons mutation mutations ih =>
    obtain ⟨next, head, rest⟩ := applyMutations_cons_eq_ok.mp ran
    obtain ⟨well', history', first⟩ := applyMutation_evolves well represents head
    obtain ⟨well'', history'', second⟩ := ih well' first.represents rest
    exact ⟨well'', history'', first.trans second⟩

theorem applyMutations_compact (compact : state.Compact)
    (ran : applyMutations deviceId now state mutations = .ok state') : state'.Compact := by
  induction mutations generalizing history state with
  | nil => cases ran; exact compact
  | cons mutation mutations ih =>
    obtain ⟨next, head, rest⟩ := applyMutations_cons_eq_ok.mp ran
    obtain ⟨well', history', first⟩ := applyMutation_evolves well represents head
    refine ih well' first.represents ?_ rest
    have ok := mutationOk_of_applyMutation head
    rw [applyMutation_eq_runWrites well ok] at head
    refine runWrites_induction (P := ConvergentSyncState.Compact) (mutationWrites_writable well ok)
      head ?_ fun s hlc write _ compact _ _ _ => compact_writtenState compact _ _ _ _
    rcases openMutation_eq ok with same | ⟨address, _, same⟩
    · rw [same]; exact compact
    · rw [same]; exact compact_openParent compact address

end

end Runs

theorem compact_canonicalState {state : ConvergentSyncState} (compact : state.Compact) :
    (canonicalState state).Compact where
  collections name collection found := by
    rw [canonicalState, get?_mapValues] at found
    obtain ⟨collection, stored, rfl⟩ := map_eq_some_iff.mp found
    rw [canonicalCollection, keys_mapValues]
    exact compact.collections name collection stored
  stringCollections name collection found := by
    rw [canonicalState, get?_mapValues] at found
    obtain ⟨collection, stored, rfl⟩ := map_eq_some_iff.mp found
    rw [canonicalStringCollection, keys_mapValues]
    exact compact.stringCollections name collection stored

/-! ## A call of `applyConvergentMutations` -/

section Calls

variable {deviceId : JsString} {now : JsNumber} {state state' : ConvergentSyncState}
  {mutations : List ConvergentMutation}

theorem applyConvergentMutations_eq_ok :
    applyConvergentMutations state deviceId mutations now = .ok state' ↔
      ValidState state ∧ deviceId ≠ [] ∧ ∃ next,
        applyMutations deviceId now (canonicalState state) mutations = .ok next ∧
        ValidState next ∧ state' = canonicalState next := by
  simp only [applyConvergentMutations, check_bind_eq_ok, assertValid_eq_ok, requireNonEmpty,
    assertNonEmptyKey, ensure_eq_ok, decide_eq_true_eq]
  simp only [bind_eq_ok (α := ConvergentSyncState), canonicalizeConvergentSyncState_eq_ok,
    check_bind_eq_ok, assertValid_eq_ok]
  constructor
  · rintro ⟨valid, device, _, ⟨_, rfl⟩, next, ran, validNext, _, rfl⟩
    exact ⟨valid, device, next, ran, validNext, rfl⟩
  · rintro ⟨valid, device, next, ran, validNext, rfl⟩
    exact ⟨valid, device, _, ⟨valid, rfl⟩, next, ran, validNext, validNext, rfl⟩

end Calls

end Netcatty
