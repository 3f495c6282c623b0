import Netcatty.ConvergentVisit

/-!
The canonical form of a replica.

Canonicalizing sorts candidates by dot, contexts by dot and object properties by
key.  Register by register it changes nothing else, so it preserves validity
(`ValidState.canonical`) and leaves canonical replicas alone
(`canonicalState_eq_self`).
-/

namespace Netcatty

open List Option SortedMap

def CanonicalRegister (register : MultiValueRegister) : Prop :=
  (∀ c ∈ register.candidates, canonicalCandidate c = c) ∧
    register.candidates.Pairwise fun a b => a.dot ≤ b.dot

theorem canonicalRegister_eq_self {register : MultiValueRegister}
    (canonical : CanonicalRegister register) : canonicalRegister register = register := by
  obtain ⟨candidates⟩ := register
  obtain ⟨each, sorted⟩ := canonical
  have same : candidates.map canonicalCandidate = candidates := by
    conv_rhs => rw [← List.map_id candidates]
    exact map_congr_left each
  rw [canonicalRegister, same, List.Pairwise.insertionSort_eq sorted]

theorem mem_canonicalRegister {register : MultiValueRegister} {c : RegisterCandidate} :
    c ∈ (canonicalRegister register).candidates ↔
      ∃ c' ∈ register.candidates, canonicalCandidate c' = c := by
  simp [canonicalRegister, mem_insertionSort]

@[simp] theorem canonicalCandidate_dot (candidate : RegisterCandidate) :
    (canonicalCandidate candidate).dot = candidate.dot := rfl

theorem canonicalCandidate_idem (candidate : RegisterCandidate) :
    canonicalCandidate (canonicalCandidate candidate) = canonicalCandidate candidate := by
  obtain ⟨dot, context, hlc, value⟩ := candidate
  simp only [canonicalCandidate, candidateFingerprint, RegisterCandidate.mk.injEq, true_and]
  refine ⟨List.Pairwise.insertionSort_eq (pairwise_insertionSort _ _), ?_⟩
  cases value with
  | none => rfl
  | some value => simp [canonicalizeJson_idem]

theorem canonicalRegister_canonical (register : MultiValueRegister) :
    CanonicalRegister (canonicalRegister register) := by
  refine ⟨fun c mem => ?_, pairwise_insertionSort _ _⟩
  obtain ⟨c', _, rfl⟩ := mem_canonicalRegister.mp mem
  exact canonicalCandidate_idem c'

/-! ## Registers of a canonical state -/

theorem findEntity_canonicalState (state : ConvergentSyncState) (collection entityId : JsString) :
    findEntity (canonicalState state) collection entityId =
      (findEntity state collection entityId).map canonicalEntity := by
  simp only [findEntity, canonicalState, get?_mapValues]
  cases state.collections.get? collection <;> simp [canonicalCollection]

theorem findStringEntry_canonicalState (state : ConvergentSyncState) (collection value : JsString) :
    findStringEntry (canonicalState state) collection value =
      (findStringEntry state collection value).map canonicalStringEntry := by
  simp only [findStringEntry, canonicalState, get?_mapValues]
  cases state.stringCollections.get? collection <;> simp [canonicalStringCollection]

theorem registerAt_canonicalState (state : ConvergentSyncState) (address : RegisterAddress) :
    registerAt (canonicalState state) address = (registerAt state address).map canonicalRegister := by
  cases address with
  | entityPresence c e | entityPosition c e | entityField c e f =>
    simp only [registerAt, findEntity_canonicalState]
    cases findEntity state c e <;> simp [canonicalEntity]
  | setting path => simp [registerAt, canonicalState]
  | stringEntryPresence c v | stringEntryPosition c v =>
    simp only [registerAt, findStringEntry_canonicalState]
    cases findStringEntry state c v <;> simp [canonicalStringEntry]

variable {state : ConvergentSyncState}

theorem mem_candidatesAt_canonicalState {address : RegisterAddress}
    {c : RegisterCandidate} : c ∈ candidatesAt (canonicalState state) address ↔
      ∃ c' ∈ candidatesAt state address, canonicalCandidate c' = c := by
  simp only [candidatesAt, registerAt_canonicalState]
  cases registerAt state address with
  | none => simp
  | some register => exact mem_canonicalRegister

theorem mem_canonicalCandidate_context {candidate : RegisterCandidate} {dot : Dot} :
    dot ∈ (canonicalCandidate candidate).context ↔ dot ∈ candidate.context := by
  simp [canonicalCandidate, candidateFingerprint, mem_insertionSort]

theorem mem_registerCausalContext_canonicalState {address : RegisterAddress} {dot : Dot} :
    dot ∈ registerCausalContext (registerAt (canonicalState state) address) ↔
      dot ∈ registerCausalContext (registerAt state address) := by
  simp only [mem_registerCausalContext]
  have candidates := fun c => @mem_candidatesAt_canonicalState state address c
  simp only [candidatesAt] at candidates
  simp only [candidates]
  constructor
  · rintro ⟨_, ⟨c, mem, rfl⟩, seen⟩
    exact ⟨c, mem, by simpa [mem_canonicalCandidate_context] using seen⟩
  · rintro ⟨c, mem, seen⟩
    exact ⟨_, ⟨c, mem, rfl⟩, by simpa [mem_canonicalCandidate_context] using seen⟩

/-! ## Validity -/

section Valid

variable {state : ConvergentSyncState}

theorem candidateOk_canonical {registerIdentity : RegisterId} {candidate : RegisterCandidate}
    (ok : CandidateOk state registerIdentity candidate) :
    CandidateOk (canonicalState state) registerIdentity (canonicalCandidate candidate) where
  __ := ok
  dot := ⟨ok.dot.device, ok.dot.covered, ok.dot.origin⟩
  context dot mem :=
    have names := ok.context dot (mem_canonicalCandidate_context.mp mem)
    ⟨names.device, names.covered, names.origin⟩
  distinct := (perm_insertionSort _ _).nodup_iff.mpr ok.distinct
  earlier dot mem := ok.earlier dot (mem_canonicalCandidate_context.mp mem)

theorem accepts_canonical {address : RegisterAddress} {candidate : RegisterCandidate}
    (accepted : (valueValidator address).accepts candidate) :
    (valueValidator address).accepts (canonicalCandidate candidate) := by
  obtain ⟨dot, context, hlc, value⟩ := candidate
  cases address <;> simp only [valueValidator, presenceValidator, positionValidator, anyValidator,
    canonicalCandidate, candidateFingerprint, isTombstoneCandidate] at accepted ⊢
  all_goals
    cases value with
    | none => simp
    | some value => cases value <;> simp_all [canonicalizeJson]

theorem ValidState.canonical (valid : ValidState state) : ValidState (canonicalState state) where
  __ := valid
  stored address register found := by
    rw [registerAt_canonicalState] at found
    obtain ⟨register, stored, rfl⟩ := map_eq_some_iff.mp found
    obtain ⟨named, ok⟩ := valid.stored address register stored
    refine ⟨named, ?_, fun c mem => ?_, fun c mem => ?_⟩
    · obtain ⟨c, mem⟩ := exists_mem_of_ne_nil _ ok.nonEmpty
      exact ne_nil_of_mem (mem_canonicalRegister.mpr ⟨c, mem, rfl⟩)
    · obtain ⟨c', mem', rfl⟩ := mem_canonicalRegister.mp mem
      exact candidateOk_canonical (ok.candidates c' mem')
    · obtain ⟨c', mem', rfl⟩ := mem_canonicalRegister.mp mem
      exact accepts_canonical (ok.values c' mem')
  distinct address := by
    have pairs := valid.distinct address
    simp only [candidatesAt, registerAt_canonicalState] at pairs ⊢
    cases found : registerAt state address with
    | none => simp
    | some register =>
      rw [found] at pairs
      refine ((perm_insertionSort _ _).pairwise_iff fun h => h.symm).mpr ?_
      exact pairwise_map.mpr pairs
  unretained address c mem c' mem' seen := by
    obtain ⟨d, inRegister, rfl⟩ := mem_candidatesAt_canonicalState.mp mem
    obtain ⟨d', inRegister', rfl⟩ := mem_candidatesAt_canonicalState.mp mem'
    exact valid.unretained address d inRegister d' inRegister' (mem_canonicalCandidate_context.mp seen)
  witnessed dot mem := by
    obtain ⟨address, seen⟩ := valid.witnessed dot mem
    exact ⟨address, mem_registerCausalContext_canonicalState.mpr seen⟩
  settingKeys key mem := valid.settingKeys key (by simpa [canonicalState] using mem)
  collectionNames name mem := valid.collectionNames name (by simpa [canonicalState] using mem)
  stringCollectionNames name mem :=
    valid.stringCollectionNames name (by simpa [canonicalState] using mem)

theorem canonicalizeConvergentSyncState_eq_ok {result : ConvergentSyncState} :
    canonicalizeConvergentSyncState state = .ok result ↔
      ValidState state ∧ result = canonicalState state := by
  simp only [canonicalizeConvergentSyncState, check_bind_eq_ok, assertValid_eq_ok, pure_eq_ok,
    Except.ok.injEq, eq_comm (a := result)]

end Valid

/-! ## Canonical states -/

theorem canonicalState_eq_self
    (canonical : ∀ address register, registerAt state address = some register →
      CanonicalRegister register)
    (settingKeys : ∀ key ∈ state.settings.keys, ∃ path, ValidSettingPath path ∧ key = settingKey path) :
    canonicalState state = state := by
  have fixed : ∀ address register, registerAt state address = some register →
      canonicalRegister register = register := fun address register found =>
    canonicalRegister_eq_self (canonical address register found)
  have collections : state.collections.mapValues canonicalCollection = state.collections := by
    refine mapValues_eq_self fun c collection inState => ?_
    have entities : collection.entities.mapValues canonicalEntity = collection.entities := by
      refine mapValues_eq_self fun e entity inCollection => ?_
      have found : findEntity state c e = some entity := by rw [findEntity, inState]; exact inCollection
      have presence := fixed (.entityPresence c e) entity.presence (by simp [registerAt, found])
      have position : entity.position.map canonicalRegister = entity.position := by
        cases at' : entity.position with
        | none => rfl
        | some register => rw [map_some, fixed (.entityPosition c e) register (by
            simp [registerAt, found, at'])]
      have fields : entity.fields.mapValues canonicalRegister = entity.fields :=
        mapValues_eq_self fun f register inFields =>
          fixed (.entityField c e f) register (by simp [registerAt, found, inFields])
      rw [canonicalEntity, presence, position, fields]
    rw [canonicalCollection, entities]
  have settings : state.settings.mapValues canonicalRegister = state.settings := by
    refine mapValues_eq_self fun key register inState => ?_
    obtain ⟨path, _, rfl⟩ := settingKeys key (mem_keys_iff_exists.mpr ⟨_, inState⟩)
    exact fixed (.setting path) register inState
  have stringCollections :
      state.stringCollections.mapValues canonicalStringCollection = state.stringCollections := by
    refine mapValues_eq_self fun c collection inState => ?_
    have entries : collection.entries.mapValues canonicalStringEntry = collection.entries := by
      refine mapValues_eq_self fun v entry inCollection => ?_
      have found : findStringEntry state c v = some entry := by
        rw [findStringEntry, inState]; exact inCollection
      have presence := fixed (.stringEntryPresence c v) entry.presence (by simp [registerAt, found])
      have position : entry.position.map canonicalRegister = entry.position := by
        cases at' : entry.position with
        | none => rfl
        | some register => rw [map_some, fixed (.stringEntryPosition c v) register (by
            simp [registerAt, found, at'])]
      rw [canonicalStringEntry, presence, position]
    rw [canonicalStringCollection, entries]
  rw [canonicalState, collections, settings, stringCollections]

theorem canonicalState_idem (valid : ValidState state) :
    canonicalState (canonicalState state) = canonicalState state := by
  refine canonicalState_eq_self (fun address register found => ?_) valid.canonical.settingKeys
  rw [registerAt_canonicalState] at found
  obtain ⟨register, _, rfl⟩ := map_eq_some_iff.mp found
  exact canonicalRegister_canonical register

end Netcatty
