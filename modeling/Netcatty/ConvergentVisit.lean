import Netcatty.ConvergentValidity

/-!
The validator accepts exactly the valid states (`assertValid_eq_ok`).

The visit of `assertValidConvergentSyncState` runs its checks in order over
three accumulators.  It succeeds exactly when each check passes on its own and
no dot occurs twice (`of_foldlM_runCheck`, `foldlM_runCheck_succeeds`), and the
accumulators then hold what the candidates say (`ValidationTrace.Records`).
-/

namespace Netcatty

open List Option SortedMap Function

/-! ## The visit -/

def Check.candidates : Check → List (RegisterId × RegisterCandidate)
  | .candidate _ registerIdentity c => [(registerIdentity, c)]
  | _ => []

/-- A check that passes on its own. -/
def Check.Holds (state : ConvergentSyncState) : Check → Prop
  | .require holds _ => holds = true
  | .decode encodedPath => ∃ path, decodeSettingPath encodedPath = .ok path
  | .candidate _ registerIdentity c => CandidateOk state registerIdentity c

/-- What a visit that succeeded has recorded. -/
structure ValidationTrace.Records (trace : ValidationTrace)
    (candidates : List (RegisterId × RegisterCandidate)) : Prop where
  globalDots : trace.globalDots.map Prod.fst = candidates.map fun entry => dotKey entry.2.dot
  witnessedDots : trace.witnessedDots =
    candidates.flatMap fun entry => entry.2.context ++ [entry.2.dot]
  contextReferences : trace.contextReferences.map ContextReference.key =
    candidates.flatMap fun entry => entry.2.context.map dotKey

section

variable {trace : ValidationTrace} {candidates : List (RegisterId × RegisterCandidate)}
  (records : trace.Records candidates)
include records

theorem ValidationTrace.Records.record
    (label : JsString) (registerIdentity : RegisterId) (candidate : RegisterCandidate) :
    (trace.record label registerIdentity candidate).Records
      (candidates ++ [(registerIdentity, candidate)]) where
  globalDots := by simp [ValidationTrace.record, records.globalDots]
  witnessedDots := by simp [ValidationTrace.record, records.witnessedDots]
  contextReferences := by
    have keys : (contextReferencesOf label registerIdentity candidate.context).map
        ContextReference.key = candidate.context.map dotKey := by
      rw [contextReferencesOf, List.map_map]
      conv_rhs => rw [← zipIdx_map_fst 0 candidate.context]
      rw [List.map_map]
      rfl
    simp [ValidationTrace.record, records.contextReferences, keys]

theorem fresh_iff (dot : Dot) :
    (∀ entry ∈ trace.globalDots, entry.1 ≠ dotKey dot) ↔ ∀ entry ∈ candidates, entry.2.dot ≠ dot := by
  have keys : (∀ key ∈ trace.globalDots.map Prod.fst, key ≠ dotKey dot) ↔
      ∀ key ∈ candidates.map fun entry => dotKey entry.2.dot, key ≠ dotKey dot := by
    rw [records.globalDots]
  simpa only [List.forall_mem_map, ne_eq, dotKey_inj] using keys

end

section Visit

variable {state : ConvergentSyncState}
  (vectorOk : ∀ deviceId counter, state.vector.get? deviceId = some counter →
    deviceId ≠ [] ∧ 0 < counter ∧ counter ≤ maxSafeInteger)
include vectorOk

/-- In a visit that succeeds every check passes on its own, no dot occurs twice
and every candidate is recorded. -/
theorem of_foldlM_runCheck {checks : List Check} {trace trace' : ValidationTrace}
    {candidates : List (RegisterId × RegisterCandidate)} (records : trace.Records candidates)
    (distinct : (candidates.map fun entry => entry.2.dot).Nodup)
    (ran : checks.foldlM (runCheck state) trace = .ok trace') :
    (∀ check ∈ checks, check.Holds state) ∧
      ((candidates ++ checks.flatMap Check.candidates).map fun entry => entry.2.dot).Nodup ∧
      trace'.Records (candidates ++ checks.flatMap Check.candidates) := by
  induction checks generalizing trace candidates with
  | nil =>
    cases ran
    simpa using ⟨distinct, records⟩
  | cons check checks ih =>
    rw [foldlM_cons] at ran
    obtain ⟨next, head, rest⟩ := bind_eq_ok.mp ran
    rw [forall_mem_cons, flatMap_cons]
    cases check with
    | require condition error =>
      obtain ⟨passed, same⟩ := check_bind_eq_ok.mp head
      cases same
      obtain ⟨tail, nodup, recorded⟩ := ih records distinct rest
      exact ⟨⟨ensure_eq_ok.mp passed, tail⟩, nodup, recorded⟩
    | decode encodedPath =>
      obtain ⟨path, decoded, same⟩ := bind_eq_ok.mp head
      cases same
      obtain ⟨tail, nodup, recorded⟩ := ih records distinct rest
      exact ⟨⟨⟨path, decoded⟩, tail⟩, nodup, recorded⟩
    | candidate label registerIdentity candidate =>
      obtain ⟨ok, fresh, rfl⟩ := (assertCandidate_eq_ok vectorOk).mp head
      have unseen := (fresh_iff records candidate.dot).mp fresh
      have distinct' : ((candidates ++ [(registerIdentity, candidate)]).map
          fun entry => entry.2.dot).Nodup := by
        rw [map_append, nodup_append]
        refine ⟨distinct, nodup_singleton _, fun x mem y mem' => ?_⟩
        obtain ⟨entry, entryMem, rfl⟩ := List.mem_map.mp mem
        rw [map_singleton, mem_singleton] at mem'
        exact mem' ▸ unseen entry entryMem
      obtain ⟨tail, nodup, recorded⟩ :=
        ih (records.record label registerIdentity candidate) distinct' rest
      rw [append_assoc] at nodup recorded
      exact ⟨⟨ok, tail⟩, nodup, recorded⟩

theorem foldlM_runCheck_succeeds {checks : List Check} {trace : ValidationTrace}
    {candidates : List (RegisterId × RegisterCandidate)} (records : trace.Records candidates)
    (holds : ∀ check ∈ checks, check.Holds state)
    (distinct : ((candidates ++ checks.flatMap Check.candidates).map
      fun entry => entry.2.dot).Nodup) :
    ∃ trace', checks.foldlM (runCheck state) trace = .ok trace' := by
  induction checks generalizing trace candidates with
  | nil => exact ⟨trace, rfl⟩
  | cons check checks ih =>
    rw [foldlM_cons]
    obtain ⟨headHolds, tailHolds⟩ := forall_mem_cons.mp holds
    rw [flatMap_cons] at distinct
    cases check with
    | require condition error =>
      obtain ⟨trace', ran⟩ := ih records tailHolds distinct
      have passed : condition = true := headHolds
      exact ⟨trace', by simpa [runCheck, ensure, passed] using ran⟩
    | decode encodedPath =>
      obtain ⟨path, decoded⟩ := headHolds
      obtain ⟨trace', ran⟩ := ih records tailHolds distinct
      exact ⟨trace', by simpa [runCheck, decoded] using ran⟩
    | candidate label registerIdentity candidate =>
      have regrouped : candidates ++ ((Check.candidate label registerIdentity candidate).candidates
          ++ checks.flatMap Check.candidates) =
          candidates ++ [(registerIdentity, candidate)] ++ checks.flatMap Check.candidates := by
        simp [Check.candidates]
      rw [regrouped] at distinct
      have unseen : ∀ entry ∈ candidates, entry.2.dot ≠ candidate.dot := by
        intro entry mem same
        rw [map_append, map_append] at distinct
        have front := (nodup_append.mp distinct).1
        exact (nodup_append.mp front).2.2 _ (List.mem_map_of_mem mem) _
          (List.mem_map_of_mem (mem_singleton_self _)) same
      obtain ⟨trace', ran⟩ := ih (records.record label registerIdentity candidate) tailHolds distinct
      have head : assertCandidate candidate state label registerIdentity trace = .ok _ :=
        (assertCandidate_eq_ok vectorOk).mpr ⟨headHolds, (fresh_iff records candidate.dot).mpr unseen, rfl⟩
      exact ⟨trace', by rw [runCheck, head]; exact ran⟩

end Visit

/-! ## The registers a visit passes -/

variable (collectionName : JsString)

def entityRegisters (entry : JsString × ConvergentEntityState) :
    List (RegisterAddress × MultiValueRegister) :=
  (.entityPresence collectionName entry.1, entry.2.presence) ::
    (entry.2.position.toList.map fun register => (.entityPosition collectionName entry.1, register)) ++
    entry.2.fields.entries.map fun field => (.entityField collectionName entry.1 field.1, field.2)

def stringEntryRegisters
    (entry : JsString × ConvergentStringEntryState) : List (RegisterAddress × MultiValueRegister) :=
  (.stringEntryPresence collectionName entry.1, entry.2.presence) ::
    entry.2.position.toList.map fun register => (.stringEntryPosition collectionName entry.1, register)

def stateRegisters (state : ConvergentSyncState) : List (RegisterAddress × MultiValueRegister) :=
  (state.collections.entries.flatMap fun collection =>
    collection.2.entities.entries.flatMap (entityRegisters collection.1)) ++
  (state.settings.entries.map fun setting => (.setting (settingPathOf setting.1), setting.2)) ++
  state.stringCollections.entries.flatMap fun collection =>
    collection.2.entries.entries.flatMap (stringEntryRegisters collection.1)

theorem candidates_registerChecks (register : MultiValueRegister) (label : JsString)
    (registerIdentity : RegisterId) (validator : ValueValidator) :
    (registerChecks register label registerIdentity validator).flatMap Check.candidates =
      register.candidates.map fun c => (registerIdentity, c) := by
  conv_rhs => rw [← zipIdx_map_fst 0 register.candidates, List.map_map]
  simp only [registerChecks, flatMap_cons, Check.candidates, nil_append,
    flatMap_assoc, flatMap_nil, append_nil, map_eq_flatMap, comp_apply]

theorem candidates_positionChecks (position : Option MultiValueRegister) (label : JsString)
    (registerIdentity : RegisterId) :
    (positionChecks position label registerIdentity).flatMap Check.candidates =
      position.toList.flatMap fun register =>
        register.candidates.map fun c => (registerIdentity, c) := by
  cases position with
  | none => rfl
  | some register => simp [positionChecks, candidates_registerChecks]

/-- The candidates of a visit are those of the registers, in order. -/
theorem candidates_stateChecks (state : ConvergentSyncState) :
    (stateChecks state).flatMap Check.candidates =
      (stateRegisters state).flatMap fun entry =>
        entry.2.candidates.map fun c => (registerId entry.1, c) := by
  simp only [stateChecks, stateRegisters, entityRegisters, stringEntryRegisters, collectionChecks, entityChecks, fieldChecks,
    settingChecks, stringCollectionChecks, stringEntryChecks, flatMap_append,
    flatMap_assoc, flatMap_cons, flatMap_map, cons_append, Check.candidates,
    nil_append, candidates_registerChecks, candidates_positionChecks, append_assoc]

theorem settingPathOf_settingKey {path : List JsString} (valid : ValidSettingPath path) :
    settingPathOf (settingKey path) = path := by
  rw [settingPathOf, decodeSettingPath_settingKey valid]

def DistinctAddresses (registers : List (RegisterAddress × MultiValueRegister)) : Prop :=
  registers.Pairwise fun a b => a.1 ≠ b.1

/-- Lists of registers that carry the keys of a map do not overlap. -/
theorem distinctAddresses_flatMap {V : Type} {m : SortedMap JsString V}
    {f : JsString × V → List (RegisterAddress × MultiValueRegister)} (name : RegisterAddress → JsString)
    (each : ∀ entry ∈ m.entries, DistinctAddresses (f entry))
    (named : ∀ entry ∈ m.entries, ∀ a ∈ f entry, name a.1 = entry.1) :
    DistinctAddresses (m.entries.flatMap f) := by
  refine pairwise_flatMap.mpr ⟨each, ?_⟩
  refine (pairwise_map.mp m.ascending).imp_of_mem fun {x y} memX memY before a inX b inY same => ?_
  exact before.ne ((named x memX a inX).symm.trans ((congrArg name same).trans (named y memY b inY)))

theorem distinctAddresses_map {V : Type} {m : SortedMap JsString V}
    {f : JsString × V → RegisterAddress × MultiValueRegister} (name : RegisterAddress → JsString)
    (named : ∀ entry ∈ m.entries, name (f entry).1 = entry.1) :
    DistinctAddresses (m.entries.map f) := by
  rw [map_eq_flatMap]
  exact distinctAddresses_flatMap name (fun _ _ => pairwise_singleton _ _) fun entry mem a inF => by
    rw [mem_singleton.mp inF, named entry mem]

theorem distinctAddresses_append {l l' : List (RegisterAddress × MultiValueRegister)}
    (kind : RegisterAddress → ℕ) {n m : ℕ} (left : DistinctAddresses l) (right : DistinctAddresses l')
    (kindLeft : ∀ a ∈ l, kind a.1 = n) (kindRight : ∀ a ∈ l', kind a.1 = m) (other : n ≠ m) :
    DistinctAddresses (l ++ l') :=
  pairwise_append.mpr ⟨left, right, fun a inL b inL' same =>
    other ((kindLeft a inL).symm.trans ((congrArg kind same).trans (kindRight b inL')))⟩

theorem distinctAddresses_toList (position : Option MultiValueRegister)
    (address : RegisterAddress) :
    DistinctAddresses (position.toList.map fun register => (address, register)) := by
  cases position <;> simp [DistinctAddresses]

private def addressCollection : RegisterAddress → JsString
  | .entityPresence c _ | .entityPosition c _ | .entityField c _ _ => c
  | .setting path => settingKey path
  | .stringEntryPresence c _ | .stringEntryPosition c _ => c

private def addressMember : RegisterAddress → JsString
  | .entityPresence _ e | .entityPosition _ e | .entityField _ e _ => e
  | .setting _ => []
  | .stringEntryPresence _ v | .stringEntryPosition _ v => v

private def addressField : RegisterAddress → JsString
  | .entityField _ _ f => f
  | _ => []

private def addressFamily : RegisterAddress → ℕ
  | .entityPresence _ _ | .entityPosition _ _ | .entityField _ _ _ => 0
  | .setting _ => 1
  | .stringEntryPresence _ _ | .stringEntryPosition _ _ => 2

theorem mem_entityRegisters {collectionName : JsString}
    {entry : JsString × ConvergentEntityState} {a : RegisterAddress × MultiValueRegister}
    (mem : a ∈ entityRegisters collectionName entry) : addressCollection a.1 = collectionName ∧
      addressMember a.1 = entry.1 ∧ addressFamily a.1 = 0 := by
  simp only [entityRegisters, cons_append, mem_cons, mem_append, List.mem_map] at mem
  rcases mem with rfl | ⟨_, _, rfl⟩ | ⟨_, _, rfl⟩ <;> exact ⟨rfl, rfl, rfl⟩

theorem mem_stringEntryRegisters {collectionName : JsString}
    {entry : JsString × ConvergentStringEntryState} {a : RegisterAddress × MultiValueRegister}
    (mem : a ∈ stringEntryRegisters collectionName entry) : addressCollection a.1 = collectionName ∧
      addressMember a.1 = entry.1 ∧ addressFamily a.1 = 2 := by
  simp only [stringEntryRegisters, mem_cons, List.mem_map] at mem
  rcases mem with rfl | ⟨_, _, rfl⟩ <;> exact ⟨rfl, rfl, rfl⟩

theorem distinctAddresses_entity (entry : JsString × ConvergentEntityState) :
    DistinctAddresses (entityRegisters collectionName entry) := by
  have fields : DistinctAddresses (entry.2.fields.entries.map fun field =>
      (.entityField collectionName entry.1 field.1, field.2)) :=
    distinctAddresses_map addressField fun _ _ => rfl
  refine pairwise_append.mpr ⟨pairwise_cons.mpr ⟨?_, distinctAddresses_toList _ _⟩, fields, ?_⟩
  · simp
  · intro a inFront b inFields
    obtain ⟨_, _, rfl⟩ := List.mem_map.mp inFields
    simp only [mem_cons, List.mem_map] at inFront
    rcases inFront with rfl | ⟨_, _, rfl⟩ <;> simp

theorem distinctAddresses_stringEntry (entry : JsString × ConvergentStringEntryState) :
    DistinctAddresses (stringEntryRegisters collectionName entry) := by
  refine pairwise_cons.mpr ⟨?_, distinctAddresses_toList _ _⟩
  simp

section Registers

variable {state : ConvergentSyncState}
  (settingKeys : ∀ key ∈ state.settings.keys, ∃ path, ValidSettingPath path ∧ key = settingKey path)
include settingKeys

/-- The registers of a visit are the stored ones. -/
theorem mem_stateRegisters {address : RegisterAddress} {register : MultiValueRegister} :
    (address, register) ∈ stateRegisters state ↔ registerAt state address = some register := by
  have setting : ∀ path, (∃ key, state.settings.get? key = some register ∧
      settingPathOf key = path) ↔ state.settings.get? (settingKey path) = some register := by
    intro path
    constructor
    · rintro ⟨key, stored, rfl⟩
      obtain ⟨path, valid, rfl⟩ := settingKeys key (mem_keys_iff_exists.mpr ⟨_, stored⟩)
      rwa [settingPathOf_settingKey valid]
    · intro stored
      obtain ⟨path', valid, same⟩ :=
        settingKeys _ (mem_keys_iff_exists.mpr ⟨_, stored⟩)
      have eq := (settingKey_inj valid).mp same
      exact ⟨_, stored, eq ▸ settingPathOf_settingKey valid⟩
  cases address <;>
    simp [stateRegisters, entityRegisters, stringEntryRegisters, SortedMap.mem_entries, registerAt, findEntity, findStringEntry,
      bind_eq_some_iff, map_eq_some_iff, setting, and_assoc]
  all_goals grind

theorem stateRegisters_distinct : DistinctAddresses (stateRegisters state) := by
  have entities : DistinctAddresses (state.collections.entries.flatMap fun collection =>
      collection.2.entities.entries.flatMap (entityRegisters collection.1)) := by
    refine distinctAddresses_flatMap addressCollection (fun collection _ => ?_) fun collection _ a mem => ?_
    · exact distinctAddresses_flatMap addressMember (fun _ _ => distinctAddresses_entity _ _)
        fun _ _ a mem => (mem_entityRegisters mem).2.1
    · obtain ⟨_, _, inEntity⟩ := mem_flatMap.mp mem
      exact (mem_entityRegisters inEntity).1
  have entries : DistinctAddresses (state.stringCollections.entries.flatMap fun collection =>
      collection.2.entries.entries.flatMap (stringEntryRegisters collection.1)) := by
    refine distinctAddresses_flatMap addressCollection (fun collection _ => ?_) fun collection _ a mem => ?_
    · exact distinctAddresses_flatMap addressMember (fun _ _ => distinctAddresses_stringEntry _ _)
        fun _ _ a mem => (mem_stringEntryRegisters mem).2.1
    · obtain ⟨_, _, inEntry⟩ := mem_flatMap.mp mem
      exact (mem_stringEntryRegisters inEntry).1
  have settings : DistinctAddresses (state.settings.entries.map fun setting =>
      (.setting (settingPathOf setting.1), setting.2)) := by
    refine distinctAddresses_map addressCollection fun setting mem => ?_
    obtain ⟨path, valid, same⟩ := settingKeys setting.1 (List.mem_map_of_mem mem)
    simp [addressCollection, same, settingPathOf_settingKey valid]
  have familyEntities : ∀ a ∈ state.collections.entries.flatMap fun collection =>
      collection.2.entities.entries.flatMap (entityRegisters collection.1), addressFamily a.1 = 0 := by
    intro a mem
    obtain ⟨_, _, inCollection⟩ := mem_flatMap.mp mem
    obtain ⟨_, _, inEntity⟩ := mem_flatMap.mp inCollection
    exact (mem_entityRegisters inEntity).2.2
  refine pairwise_append.mpr ⟨?_, entries, fun a mem b mem' same => ?_⟩
  · refine distinctAddresses_append addressFamily entities settings familyEntities (m := 1) ?_ (by decide)
    intro a mem
    obtain ⟨_, _, rfl⟩ := List.mem_map.mp mem
    rfl
  · obtain ⟨_, _, inCollection⟩ := mem_flatMap.mp mem'
    obtain ⟨_, _, inEntry⟩ := mem_flatMap.mp inCollection
    have right := (mem_stringEntryRegisters inEntry).2.2
    rcases mem_append.mp mem with inEntities | inSettings
    · have left := familyEntities a inEntities
      rw [same, right] at left
      exact absurd left (by decide)
    · obtain ⟨_, _, rfl⟩ := List.mem_map.mp inSettings
      rw [← same] at right
      simp [addressFamily] at right

end Registers

/-! ## The checks of a state -/

section Checks

variable {state : ConvergentSyncState}

theorem holds_require {condition : Bool} {error : JsError} :
    (Check.require condition error).Holds state ↔ condition := Iff.rfl

theorem holds_decode {encodedPath : JsString} : (Check.decode encodedPath).Holds state ↔
      ∃ path, ValidSettingPath path ∧ encodedPath = settingKey path := by
  simp only [Check.Holds, decodeSettingPath_eq_ok]

theorem holds_candidate {label : JsString} {registerIdentity : RegisterId}
    {candidate : RegisterCandidate} :
    (Check.candidate label registerIdentity candidate).Holds state ↔
      CandidateOk state registerIdentity candidate := Iff.rfl

theorem registerChecks_hold {register : MultiValueRegister} {label : JsString}
    {validator : ValueValidator} {address : RegisterAddress}
    (validates : valueValidator address = validator) :
    (∀ check ∈ registerChecks register label (registerId address) validator, check.Holds state) ↔
      RegisterOk state address register := by
  subst validates
  have indexed : ∀ P : RegisterCandidate → Prop,
      (∀ entry ∈ register.candidates.zipIdx, P entry.1) ↔ ∀ c ∈ register.candidates, P c := by
    intro P
    conv_rhs => rw [← zipIdx_map_fst 0 register.candidates]
    rw [List.forall_mem_map]
  simp only [registerChecks, forall_mem_cons, forall_mem_flatMap, holds_require,
    holds_candidate, decide_eq_true_eq, not_mem_nil, false_implies, implies_true, and_true]
  rw [indexed fun c => CandidateOk state (registerId address) c ∧
    (valueValidator address).accepts c = true]
  constructor
  · rintro ⟨nonEmpty, candidates⟩
    exact ⟨nonEmpty, fun c mem => (candidates c mem).1, fun c mem => (candidates c mem).2⟩
  · intro ok
    exact ⟨ok.nonEmpty, fun c mem => ⟨ok.candidates c mem, ok.values c mem⟩⟩

theorem positionChecks_hold {position : Option MultiValueRegister} {label : JsString}
    {address : RegisterAddress} (isPosition : valueValidator address = positionValidator) :
    (∀ check ∈ positionChecks position label (registerId address), check.Holds state) ↔
      ∀ register, position = some register → RegisterOk state address register := by
  cases position with
  | none => simp [positionChecks]
  | some register =>
    rw [positionChecks, registerChecks_hold isPosition]
    simp

theorem entityChecks_hold {c : JsString} {entry : JsString × ConvergentEntityState} :
    (∀ check ∈ entityChecks c entry, check.Holds state) ↔
      entry.1 ≠ [] ∧ RegisterOk state (.entityPresence c entry.1) entry.2.presence ∧
      (∀ register, entry.2.position = some register →
        RegisterOk state (.entityPosition c entry.1) register) ∧
      ∀ f register, entry.2.fields.get? f = some register → (f ≠ [] ∧ f ≠ text "id") ∧
        RegisterOk state (.entityField c entry.1 f) register := by
  have presence : valueValidator (.entityPresence c entry.1) = presenceValidator := rfl
  have position : valueValidator (.entityPosition c entry.1) = positionValidator := rfl
  have field : ∀ f, valueValidator (.entityField c entry.1 f) = anyValidator := fun _ => rfl
  simp only [entityChecks, fieldChecks, cons_append, forall_mem_cons,
    forall_mem_append, forall_mem_flatMap, holds_require, decide_eq_true_eq,
    registerChecks_hold presence, positionChecks_hold position, registerChecks_hold (field _),
    Prod.forall, SortedMap.mem_entries, and_assoc]

theorem stringEntryChecks_hold {c : JsString}
    {entry : JsString × ConvergentStringEntryState} :
    (∀ check ∈ stringEntryChecks c entry, check.Holds state) ↔
      entry.1 ≠ [] ∧ RegisterOk state (.stringEntryPresence c entry.1) entry.2.presence ∧
      ∀ register, entry.2.position = some register →
        RegisterOk state (.stringEntryPosition c entry.1) register := by
  have presence : valueValidator (.stringEntryPresence c entry.1) = presenceValidator := rfl
  have position : valueValidator (.stringEntryPosition c entry.1) = positionValidator := rfl
  simp only [stringEntryChecks, cons_append, forall_mem_cons, forall_mem_append,
    holds_require, decide_eq_true_eq, registerChecks_hold presence, positionChecks_hold position]

theorem stateChecks_hold : (∀ check ∈ stateChecks state, check.Holds state) ↔
      ((∀ key ∈ state.settings.keys, ∃ path, ValidSettingPath path ∧ key = settingKey path) ∧
      (∀ name ∈ state.collections.keys, name ≠ []) ∧
      (∀ name ∈ state.stringCollections.keys, name ≠ [])) ∧
      ∀ address register, registerAt state address = some register →
        address.Valid ∧ RegisterOk state address register := by
  have setting : ∀ path, valueValidator (.setting path) = anyValidator := fun _ => rfl
  simp only [stateChecks, collectionChecks, settingChecks, stringCollectionChecks,
    forall_mem_append, forall_mem_flatMap, forall_mem_cons, holds_require,
    holds_decode, decide_eq_true_eq, entityChecks_hold, stringEntryChecks_hold,
    registerChecks_hold (setting _), Prod.forall, SortedMap.mem_entries,
    mem_keys_iff_exists]
  constructor
  · rintro ⟨⟨collections, settings⟩, stringCollections⟩
    refine ⟨⟨fun key ⟨register, stored⟩ => (settings key register stored).1,
      fun name ⟨collection, stored⟩ => (collections name collection stored).1,
      fun name ⟨collection, stored⟩ => (stringCollections name collection stored).1⟩, ?_⟩
    intro address register stored
    cases address with
    | setting path =>
      obtain ⟨⟨path', valid, same⟩, ok⟩ := settings _ register stored
      have eq := (settingKey_inj valid).mp same
      rw [same, settingPathOf_settingKey valid, ← eq] at ok
      exact ⟨⟨show ValidSettingPath path from eq ▸ valid, rfl⟩, ok⟩
    | entityPresence c e =>
      obtain ⟨entity, found, rfl⟩ := map_eq_some_iff.mp stored
      obtain ⟨collection, inState, inCollection⟩ := bind_eq_some_iff.mp found
      obtain ⟨collectionNamed, entities⟩ := collections c collection inState
      obtain ⟨entityNamed, ok, _⟩ := entities e entity inCollection
      exact ⟨⟨⟨collectionNamed, entityNamed⟩, rfl⟩, ok⟩
    | entityPosition c e =>
      obtain ⟨entity, found, position⟩ := bind_eq_some_iff.mp stored
      obtain ⟨collection, inState, inCollection⟩ := bind_eq_some_iff.mp found
      obtain ⟨collectionNamed, entities⟩ := collections c collection inState
      obtain ⟨entityNamed, _, ok, _⟩ := entities e entity inCollection
      exact ⟨⟨⟨collectionNamed, entityNamed⟩, rfl⟩, ok register position⟩
    | entityField c e f =>
      obtain ⟨entity, found, field⟩ := bind_eq_some_iff.mp stored
      obtain ⟨collection, inState, inCollection⟩ := bind_eq_some_iff.mp found
      obtain ⟨collectionNamed, entities⟩ := collections c collection inState
      obtain ⟨entityNamed, _, _, fields⟩ := entities e entity inCollection
      obtain ⟨⟨fieldNamed, notId⟩, ok⟩ := fields f register field
      exact ⟨⟨⟨collectionNamed, entityNamed, fieldNamed⟩, decide_eq_false notId⟩, ok⟩
    | stringEntryPresence c v =>
      obtain ⟨entry, found, rfl⟩ := map_eq_some_iff.mp stored
      obtain ⟨collection, inState, inCollection⟩ := bind_eq_some_iff.mp found
      obtain ⟨collectionNamed, entries⟩ := stringCollections c collection inState
      obtain ⟨valueNamed, ok, _⟩ := entries v entry inCollection
      exact ⟨⟨⟨collectionNamed, valueNamed⟩, rfl⟩, ok⟩
    | stringEntryPosition c v =>
      obtain ⟨entry, found, position⟩ := bind_eq_some_iff.mp stored
      obtain ⟨collection, inState, inCollection⟩ := bind_eq_some_iff.mp found
      obtain ⟨collectionNamed, entries⟩ := stringCollections c collection inState
      obtain ⟨valueNamed, _, ok⟩ := entries v entry inCollection
      exact ⟨⟨⟨collectionNamed, valueNamed⟩, rfl⟩, ok register position⟩
  · rintro ⟨⟨settingKeys, collectionNames, stringCollectionNames⟩, stored⟩
    refine ⟨⟨fun c collection inState => ⟨collectionNames c ⟨_, inState⟩, fun e entity inCollection => ?_⟩,
      fun key register inState => ⟨settingKeys key ⟨_, inState⟩, ?_⟩⟩,
      fun c collection inState => ⟨stringCollectionNames c ⟨_, inState⟩, fun v entry inCollection => ?_⟩⟩
    · have found : findEntity state c e = some entity := by
        rw [findEntity, inState]; exact inCollection
      obtain ⟨valid, ok⟩ := stored (.entityPresence c e) entity.presence (by
        rw [registerAt, found]; rfl)
      refine ⟨valid.1.2, ok, fun register position => ?_, fun f register field => ?_⟩
      · exact (stored (.entityPosition c e) register (by rw [registerAt, found]; exact position)).2
      · obtain ⟨fieldValid, fieldOk⟩ := stored (.entityField c e f) register (by
          rw [registerAt, found]; exact field)
        exact ⟨⟨fieldValid.1.2.2, of_decide_eq_false fieldValid.2⟩, fieldOk⟩
    · obtain ⟨path, valid, rfl⟩ := settingKeys key ⟨_, inState⟩
      rw [settingPathOf_settingKey valid]
      exact (stored (.setting path) register inState).2
    · have found : findStringEntry state c v = some entry := by
        rw [findStringEntry, inState]; exact inCollection
      obtain ⟨valid, ok⟩ := stored (.stringEntryPresence c v) entry.presence (by
        rw [registerAt, found]; rfl)
      exact ⟨valid.1.2, ok, fun register position =>
        (stored (.stringEntryPosition c v) register (by rw [registerAt, found]; exact position)).2⟩

end Checks

/-! ## The accumulators -/

theorem forM_assertReference_eq_ok {trace : ValidationTrace}
    {candidates : List (RegisterId × RegisterCandidate)} (records : trace.Records candidates) :
    trace.contextReferences.forM (assertReference trace) = .ok () ↔
      ∀ entry ∈ candidates, ∀ dot ∈ entry.2.context, ∀ other ∈ candidates, other.2.dot ≠ dot := by
  have each : ∀ reference, assertReference trace reference = .ok () ↔
      ∀ key ∈ trace.globalDots.map Prod.fst, key ≠ reference.key := by
    intro reference
    unfold assertReference
    split
    · rename_i key location found
      have mem := mem_of_find?_eq_some found
      have same := find?_some found
      simp only [throw, throwThe, MonadExceptOf.throw, reduceCtorEq, false_iff]
      intro fresh
      exact fresh key (List.mem_map_of_mem mem) (by simpa using same)
    · rename_i none
      have fresh := find?_eq_none.mp none
      simp only [true_iff, List.forall_mem_map]
      intro entry mem
      simpa using fresh entry mem
  rw [forM_eq_ok]
  simp only [each, records.globalDots]
  have keys : (∀ reference ∈ trace.contextReferences,
      ∀ key ∈ candidates.map (fun entry => dotKey entry.2.dot), key ≠ reference.key) ↔
      ∀ k ∈ trace.contextReferences.map ContextReference.key,
        ∀ key ∈ candidates.map (fun entry => dotKey entry.2.dot), key ≠ k := by
    rw [List.forall_mem_map]
  rw [keys, records.contextReferences]
  simp only [forall_mem_flatMap, List.forall_mem_map, ne_eq, dotKey_inj]

theorem length_eq_iff_covers {l : List ℕ} {n : ℕ} (distinct : l.Nodup)
    (range : ∀ m ∈ l, 0 < m ∧ m ≤ n) : l.length = n ↔ ∀ m, 0 < m → m ≤ n → m ∈ l := by
  have sub : l.toFinset ⊆ Finset.Icc 1 n := by
    intro m mem
    rw [Finset.mem_Icc]
    exact range m (List.mem_toFinset.mp mem)
  have card : (Finset.Icc 1 n).card = n := by rw [Nat.card_Icc]; omega
  have same : l.length = n ↔ l.toFinset = Finset.Icc 1 n := by
    rw [← toFinset_card_of_nodup distinct]
    exact ⟨fun length => Finset.eq_of_subset_of_card_le sub (by rw [card, length]),
      fun eq => by rw [eq, card]⟩
  rw [same]
  constructor
  · intro eq m low high
    rw [← List.mem_toFinset, eq, Finset.mem_Icc]
    exact ⟨low, high⟩
  · intro covers
    refine Finset.Subset.antisymm sub fun m mem => ?_
    obtain ⟨low, high⟩ := Finset.mem_Icc.mp mem
    exact List.mem_toFinset.mpr (covers m low high)

theorem assertVectorIsExactlyWitnessed_eq_ok {vector : VersionVector} {witnessed : List Dot}
    (positive : ∀ deviceId counter, vector.get? deviceId = some counter → 0 < counter)
    (covered : ∀ dot ∈ witnessed, dot ∈ vector.dots) :
    assertVectorIsExactlyWitnessed vector witnessed = .ok () ↔
      ∀ dot ∈ vector.dots, dot ∈ witnessed := by
  have mem_counters : ∀ deviceId m,
      m ∈ ((witnessed.filter (·.deviceId = deviceId)).map Dot.counter).dedup ↔
        (⟨deviceId, m⟩ : Dot) ∈ witnessed := by
    intro deviceId m
    simp only [mem_dedup, List.mem_map, mem_filter, decide_eq_true_eq]
    constructor
    · rintro ⟨dot, ⟨mem, rfl⟩, rfl⟩
      exact mem
    · exact fun mem => ⟨_, ⟨mem, rfl⟩, rfl⟩
  have each : ∀ deviceId counter, vector.get? deviceId = some counter →
      ((((witnessed.filter (·.deviceId = deviceId)).map Dot.counter).dedup.length = counter ∧
        counter ∈ ((witnessed.filter (·.deviceId = deviceId)).map Dot.counter).dedup) ↔
      ∀ m, 0 < m → m ≤ counter → (⟨deviceId, m⟩ : Dot) ∈ witnessed) := by
    intro deviceId counter stored
    rw [length_eq_iff_covers (nodup_dedup _)]
    · simp only [mem_counters]
      exact ⟨fun h => h.1, fun h => ⟨h, h counter (positive deviceId counter stored) (le_refl _)⟩⟩
    · intro m mem
      have dots := covered _ ((mem_counters deviceId m).mp mem)
      rwa [VersionVector.mem_dots, VersionVector.counter_eq stored] at dots
  rw [assertVectorIsExactlyWitnessed, forM_eq_ok]
  simp only [ensure_eq_ok, Bool.and_eq_true, decide_eq_true_eq, Prod.forall, SortedMap.mem_entries]
  constructor
  · rintro holds ⟨deviceId, m⟩ ⟨low, high⟩
    cases stored : vector.get? deviceId with
    | none =>
      rw [VersionVector.counter, stored] at high
      exact absurd low (by simpa using high)
    | some counter =>
      rw [VersionVector.counter_eq stored] at high
      exact (each deviceId counter stored).mp (holds deviceId counter stored) m low high
  · intro holds deviceId counter stored
    refine (each deviceId counter stored).mpr fun m low high => holds _ ⟨low, ?_⟩
    rwa [VersionVector.counter_eq stored]

/-! ## The validator -/

section Accepted

variable {state : ConvergentSyncState}

section

variable (settingKeys : ∀ key ∈ state.settings.keys, ∃ path, ValidSettingPath path ∧ key = settingKey path)
include settingKeys

theorem mem_candidates_stateChecks {registerIdentity : RegisterId} {c : RegisterCandidate} :
    (registerIdentity, c) ∈ (stateChecks state).flatMap Check.candidates ↔
      ∃ address, registerIdentity = registerId address ∧ c ∈ candidatesAt state address := by
  rw [candidates_stateChecks, mem_flatMap]
  constructor
  · rintro ⟨⟨address, register⟩, mem, inRegister⟩
    obtain ⟨c', mem', same⟩ := List.mem_map.mp inRegister
    cases same
    refine ⟨address, rfl, ?_⟩
    rw [candidatesAt, (mem_stateRegisters settingKeys).mp mem]
    exact mem'
  · rintro ⟨address, rfl, mem⟩
    cases stored : registerAt state address with
    | none => simp [candidatesAt, stored] at mem
    | some register =>
      rw [candidatesAt, stored] at mem
      exact ⟨(address, register), (mem_stateRegisters settingKeys).mpr stored,
        List.mem_map_of_mem mem⟩

theorem nodup_stateChecks_iff (origins : ∀ address, ∀ c ∈ candidatesAt state address,
      state.origin c.dot = some (registerId address)) :
    (((stateChecks state).flatMap Check.candidates).map fun entry => entry.2.dot).Nodup ↔
      ∀ address, (candidatesAt state address).Pairwise fun c c' => c.dot ≠ c'.dot := by
  rw [candidates_stateChecks, map_flatMap, nodup_flatMap]
  simp only [List.map_map, comp_def]
  constructor
  · rintro ⟨each, _⟩ address
    cases stored : registerAt state address with
    | none => simp [candidatesAt, stored]
    | some register =>
      rw [candidatesAt, stored]
      exact pairwise_map.mp (each _ ((mem_stateRegisters settingKeys).mpr stored))
  · intro distinct
    constructor
    · rintro ⟨address, register⟩ mem
      have pairs := distinct address
      rw [candidatesAt, (mem_stateRegisters settingKeys).mp mem] at pairs
      exact pairwise_map.mpr pairs
    · refine (stateRegisters_distinct settingKeys).imp_of_mem fun {a b} memA memB other dot inA inB => ?_
      obtain ⟨c, hc, rfl⟩ := List.mem_map.mp inA
      obtain ⟨c', hc', same⟩ := List.mem_map.mp inB
      have left := origins a.1 c (by
        rw [candidatesAt, (mem_stateRegisters settingKeys).mp memA]; exact hc)
      have right := origins b.1 c' (by
        rw [candidatesAt, (mem_stateRegisters settingKeys).mp memB]; exact hc')
      rw [same, left, Option.some.injEq, registerId_inj] at right
      exact other right

omit settingKeys in
theorem records_empty : ({} : ValidationTrace).Records [] := ⟨rfl, rfl, rfl⟩

theorem mem_witnessed {trace : ValidationTrace}
    (records : trace.Records ((stateChecks state).flatMap Check.candidates)) {dot : Dot} :
    dot ∈ trace.witnessedDots ↔
      ∃ address, dot ∈ registerCausalContext (registerAt state address) := by
  simp only [records.witnessedDots, mem_flatMap, mem_append, mem_singleton,
    mem_registerCausalContext, Prod.exists, mem_candidates_stateChecks settingKeys]
  constructor
  · rintro ⟨_, c, ⟨address, rfl, mem⟩, seen⟩
    exact ⟨address, c, mem, seen⟩
  · rintro ⟨address, c, mem, seen⟩
    exact ⟨_, c, ⟨address, rfl, mem⟩, seen⟩

end

section

variable
    (stored : ∀ address register, registerAt state address = some register → address.Valid ∧ RegisterOk state address register)
    {address : RegisterAddress}

include stored

theorem candidateOk_of_stored {c : RegisterCandidate} (mem : c ∈ candidatesAt state address) :
    CandidateOk state (registerId address) c := by
  cases found : registerAt state address with
  | none => simp [candidatesAt, found] at mem
  | some register =>
    rw [candidatesAt, found] at mem
    exact (stored address register found).2.candidates c mem

theorem covered_of_context {dot : Dot}
    (mem : dot ∈ registerCausalContext (registerAt state address)) :
    state.Names (registerId address) dot := by
  obtain ⟨c, inRegister, seen⟩ := mem_registerCausalContext.mp mem
  have ok := candidateOk_of_stored stored inRegister
  rcases seen with inContext | rfl
  · exact ok.context dot inContext
  · exact ok.dot

end

/-- **The validator accepts exactly the valid states.** -/
theorem assertValid_eq_ok : assertValidConvergentSyncState state = .ok () ↔ ValidState state := by
  simp only [assertValidConvergentSyncState, check_bind_eq_ok]
  simp only [bind_eq_ok (α := ValidationTrace), check_bind_eq_ok, assertVersionVector_eq_ok,
    assertClock_eq_ok]
  constructor
  · rintro ⟨vectorOk, originsOk, clock, trace, ran, references, witnessed⟩
    obtain ⟨holds, nodup, records⟩ := of_foldlM_runCheck vectorOk records_empty nodup_nil ran
    rw [nil_append] at nodup records
    obtain ⟨⟨settingKeys, collectionNames, stringCollectionNames⟩, stored⟩ := stateChecks_hold.mp holds
    obtain ⟨origins, originDevices⟩ := (assertDotOrigins_eq_ok vectorOk).mp originsOk
    have distinct := (nodup_stateChecks_iff settingKeys fun address c mem =>
      (candidateOk_of_stored stored mem).dot.origin).mp nodup
    have covered : ∀ dot ∈ trace.witnessedDots, dot ∈ state.vector.dots := fun dot mem =>
      have ⟨_, inRegister⟩ := (mem_witnessed settingKeys records).mp mem
      (covered_of_context stored inRegister).covered
    refine ⟨vectorOk, origins, originDevices, clock, stored, distinct, ?_, fun dot mem => ?_,
      settingKeys, collectionNames, stringCollectionNames⟩
    · intro address c mem c' mem' seen
      have entry : ∀ {c}, c ∈ candidatesAt state address →
          (registerId address, c) ∈ (stateChecks state).flatMap Check.candidates := fun h =>
        (mem_candidates_stateChecks settingKeys).mpr ⟨address, rfl, h⟩
      exact (forM_assertReference_eq_ok records).mp references _ (entry mem) c'.dot seen _
        (entry mem') rfl
    · exact (mem_witnessed settingKeys records).mp
        ((assertVectorIsExactlyWitnessed_eq_ok (fun d n h => (vectorOk d n h).2.1) covered).mp
          witnessed dot mem)
  · intro valid
    have nodup := (nodup_stateChecks_iff valid.settingKeys fun address c mem =>
      (candidateOk_of_stored valid.stored mem).dot.origin).mpr valid.distinct
    have holds := stateChecks_hold.mpr
      ⟨⟨valid.settingKeys, valid.collectionNames, valid.stringCollectionNames⟩, valid.stored⟩
    obtain ⟨trace, ran⟩ := foldlM_runCheck_succeeds valid.vector records_empty holds
      (by rwa [nil_append])
    obtain ⟨_, _, records⟩ := of_foldlM_runCheck valid.vector records_empty nodup_nil ran
    rw [nil_append] at records
    have covered : ∀ dot ∈ trace.witnessedDots, dot ∈ state.vector.dots := fun dot mem =>
      have ⟨_, inRegister⟩ := (mem_witnessed valid.settingKeys records).mp mem
      (covered_of_context valid.stored inRegister).covered
    refine ⟨valid.vector, (assertDotOrigins_eq_ok valid.vector).mpr ⟨valid.origins,
      valid.originDevices⟩, valid.clock, trace, ran, ?_, ?_⟩
    · refine (forM_assertReference_eq_ok records).mpr fun entry mem dot seen other mem' same => ?_
      obtain ⟨address, id, inRegister⟩ := (mem_candidates_stateChecks valid.settingKeys).mp mem
      obtain ⟨address', id', inRegister'⟩ := (mem_candidates_stateChecks valid.settingKeys).mp mem'
      -- Origins put both candidates in one register.
      have left := ((candidateOk_of_stored valid.stored inRegister).context dot seen).origin
      have right := (candidateOk_of_stored valid.stored inRegister').dot.origin
      rw [same, left, Option.some.injEq, registerId_inj] at right
      subst right
      exact valid.unretained address _ inRegister _ inRegister' (same ▸ seen)
    · exact (assertVectorIsExactlyWitnessed_eq_ok (fun d n h => (valid.vector d n h).2.1)
        covered).mpr fun dot mem =>
          (mem_witnessed valid.settingKeys records).mpr (valid.witnessed dot mem)

end Accepted

end Netcatty
