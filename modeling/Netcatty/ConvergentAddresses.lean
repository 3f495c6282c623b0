import Netcatty.ConvergentState

/-!
A replica as a family of registers indexed by addresses.

The nested records of a replica are only ever read and written through
addresses.  This module says what every access does to the register at every
address, so later modules reason about `registerAt` and never about records:
`registerAt_openParent` for `ensureEntity` and `ensureStringEntry`,
`registerAt_storeRegister` for `setRegisterAtAddress`, and `replica_ext` that a
well-formed replica is its family of registers.
-/

namespace Netcatty

open Option

/-! ## Addresses -/

/-- The addresses `setRegisterAtAddress` accepts: every name is non-empty. -/
def RegisterAddress.Named : RegisterAddress → Prop
  | .entityPresence collection entityId => collection ≠ [] ∧ entityId ≠ []
  | .entityPosition collection entityId => collection ≠ [] ∧ entityId ≠ []
  | .entityField collection entityId field => collection ≠ [] ∧ entityId ≠ [] ∧ field ≠ []
  | .setting path => ValidSettingPath path
  | .stringEntryPresence collection value => collection ≠ [] ∧ value ≠ []
  | .stringEntryPosition collection value => collection ≠ [] ∧ value ≠ []

/-- Whether an address is a field register of the structural ID, which no replica
stores. -/
def RegisterAddress.isStructuralId : RegisterAddress → Bool
  | .entityField _ _ field => field = text "id"
  | _ => false

def RegisterAddress.Valid (address : RegisterAddress) : Prop :=
  address.Named ∧ address.isStructuralId = false

/-- The presence register of the entity or entry a register belongs to; a setting
belongs to itself. -/
def RegisterAddress.presence : RegisterAddress → RegisterAddress
  | .entityPresence collection entityId => .entityPresence collection entityId
  | .entityPosition collection entityId => .entityPresence collection entityId
  | .entityField collection entityId _ => .entityPresence collection entityId
  | .setting path => .setting path
  | .stringEntryPresence collection value => .stringEntryPresence collection value
  | .stringEntryPosition collection value => .stringEntryPresence collection value

/-- Whether a register is a setting, which has no entity or entry around it. -/
def RegisterAddress.isSetting : RegisterAddress → Bool
  | .setting _ => true
  | _ => false

/-- The entity or entry of a register is stored. -/
def ConvergentSyncState.HasParent (state : ConvergentSyncState) (address : RegisterAddress) : Prop :=
  address.isSetting = true ∨ (registerAt state address.presence).isSome

def candidatesAt (state : ConvergentSyncState) (address : RegisterAddress) :
    List RegisterCandidate :=
  registerCandidates (registerAt state address)

/-! ## Storing entities and entries -/

variable (state : ConvergentSyncState)

theorem findEntity_setEntity (collection entityId c e : JsString) (entity : ConvergentEntityState) :
    findEntity (setEntity state collection entityId entity) c e =
      if c = collection ∧ e = entityId then some entity else findEntity state c e := by
  simp only [findEntity, setEntity, SortedMap.get?_set]
  by_cases sameCollection : c = collection
  · subst sameCollection
    simp only [if_true, bind_some, SortedMap.get?_set, true_and]
    split
    · rfl
    · cases state.collections.get? c <;> rfl
  · simp [sameCollection]

theorem findStringEntry_setStringEntry (collection value c v : JsString)
    (entry : ConvergentStringEntryState) :
    findStringEntry (setStringEntry state collection value entry) c v =
      if c = collection ∧ v = value then some entry else findStringEntry state c v := by
  simp only [findStringEntry, setStringEntry, SortedMap.get?_set]
  by_cases sameCollection : c = collection
  · subst sameCollection
    simp only [if_true, bind_some, SortedMap.get?_set, true_and]
    split
    · rfl
    · cases state.stringCollections.get? c <;> rfl
  · simp [sameCollection]

section

variable (state : ConvergentSyncState)

@[simp] theorem findStringEntry_setEntity
    (collection entityId c v : JsString) (entity : ConvergentEntityState) :
    findStringEntry (setEntity state collection entityId entity) c v = findStringEntry state c v := rfl

@[simp] theorem findEntity_setStringEntry
    (collection value c e : JsString) (entry : ConvergentStringEntryState) :
    findEntity (setStringEntry state collection value entry) c e = findEntity state c e := rfl

/-! ## Opening entities and entries -/

/-- The state `ensureEntity` leaves. -/
def openEntity (collection entityId : JsString) : ConvergentSyncState :=
  match findEntity state collection entityId with
  | some _ => state
  | none => setEntity state collection entityId createdEntity

/-- The state `ensureStringEntry` leaves. -/
def openStringEntry (collection value : JsString) :
    ConvergentSyncState :=
  match findStringEntry state collection value with
  | some _ => state
  | none => setStringEntry state collection value createdStringEntry

/-- The state `ensureEntity` or `ensureStringEntry` leaves for the entity or entry
of an address. -/
def openParent : RegisterAddress → ConvergentSyncState
  | .entityPresence collection entityId | .entityPosition collection entityId
  | .entityField collection entityId _ => openEntity state collection entityId
  | .stringEntryPresence collection value | .stringEntryPosition collection value =>
    openStringEntry state collection value
  | .setting _ => state

end

theorem ensureEntity_eq {state : ConvergentSyncState} {collection entityId : JsString}
    (collectionNamed : collection ≠ []) (entityNamed : entityId ≠ []) :
    ensureEntity state collection entityId =
      .ok (openParent state (.entityPresence collection entityId),
        (findEntity state collection entityId).getD createdEntity,
        (findEntity state collection entityId).isNone) := by
  simp only [ensureEntity, requireNonEmpty, assertNonEmptyKey, ensure, ne_eq, entityNamed,
    collectionNamed, not_false_eq_true, decide_true, if_true, ok_bind, openParent, openEntity]
  cases findEntity state collection entityId <;> rfl

theorem ensureStringEntry_eq {state : ConvergentSyncState} {collection value : JsString}
    (collectionNamed : collection ≠ []) (valueNamed : value ≠ []) :
    ensureStringEntry state collection value =
      .ok (openParent state (.stringEntryPresence collection value),
        (findStringEntry state collection value).getD createdStringEntry,
        (findStringEntry state collection value).isNone) := by
  simp only [ensureStringEntry, requireNonEmpty, assertNonEmptyKey, ensure, ne_eq, valueNamed,
    collectionNamed, not_false_eq_true, decide_true, if_true, ok_bind, openParent, openStringEntry]
  cases findStringEntry state collection value <;> rfl

theorem named_of_ensureEntity {state : ConvergentSyncState} {collection entityId : JsString}
    {result : ConvergentSyncState × ConvergentEntityState × Bool}
    (ran : ensureEntity state collection entityId = .ok result) :
    collection ≠ [] ∧ entityId ≠ [] := by
  simp only [ensureEntity, requireNonEmpty, assertNonEmptyKey, bind_eq_ok, ensure_eq_ok,
    decide_eq_true_eq] at ran
  obtain ⟨_, entityNamed, _, collectionNamed, _⟩ := ran
  exact ⟨collectionNamed, entityNamed⟩

theorem named_of_ensureStringEntry {state : ConvergentSyncState} {collection value : JsString}
    {result : ConvergentSyncState × ConvergentStringEntryState × Bool}
    (ran : ensureStringEntry state collection value = .ok result) :
    collection ≠ [] ∧ value ≠ [] := by
  simp only [ensureStringEntry, requireNonEmpty, assertNonEmptyKey, bind_eq_ok, ensure_eq_ok,
    decide_eq_true_eq] at ran
  obtain ⟨_, valueNamed, _, collectionNamed, _⟩ := ran
  exact ⟨collectionNamed, valueNamed⟩

/-- Opening an entity or entry adds an empty presence register and nothing else. -/
theorem registerAt_openParent (address other : RegisterAddress) :
    registerAt (openParent state address) other =
      if address.isSetting = false ∧ other = address.presence ∧ registerAt state other = none
      then some { candidates := [] } else registerAt state other := by
  have entity : ∀ c e, registerAt (openEntity state c e) other =
      if other = .entityPresence c e ∧ registerAt state other = none
      then some { candidates := [] } else registerAt state other := by
    intro c e
    rw [openEntity]
    cases found : findEntity state c e with
    | some entity =>
      rw [if_neg]
      rintro ⟨rfl, absent⟩
      simp [registerAt, found] at absent
    | none =>
      cases other <;>
        simp only [registerAt, findEntity_setEntity, findStringEntry_setEntity, reduceCtorEq,
          RegisterAddress.entityPresence.injEq, false_and, if_false] <;> try rfl
      all_goals
        split
        · rename_i same
          obtain ⟨rfl, rfl⟩ := same
          simp [found, createdEntity]
        · rename_i different
          simp [different]
  have entry : ∀ c v, registerAt (openStringEntry state c v) other =
      if other = .stringEntryPresence c v ∧ registerAt state other = none
      then some { candidates := [] } else registerAt state other := by
    intro c v
    rw [openStringEntry]
    cases found : findStringEntry state c v with
    | some entry =>
      rw [if_neg]
      rintro ⟨rfl, absent⟩
      simp [registerAt, found] at absent
    | none =>
      cases other <;>
        simp only [registerAt, findStringEntry_setStringEntry, findEntity_setStringEntry,
          reduceCtorEq, RegisterAddress.stringEntryPresence.injEq, false_and, if_false] <;> try rfl
      all_goals
        split
        · rename_i same
          obtain ⟨rfl, rfl⟩ := same
          simp [found, createdStringEntry]
        · rename_i different
          simp [different]
  cases address <;>
    simp only [openParent, RegisterAddress.isSetting, RegisterAddress.presence, entity, entry,
      true_and, reduceCtorEq, false_and, if_false]

@[simp] theorem candidatesAt_openParent (address other : RegisterAddress) :
    candidatesAt (openParent state address) other = candidatesAt state other := by
  simp only [candidatesAt, registerAt_openParent]
  split
  · rename_i opened
    rw [opened.2.2]
    rfl
  · rfl

theorem openParent_eq_self {state : ConvergentSyncState} {address : RegisterAddress}
    (parent : state.HasParent address) : openParent state address = state := by
  have entity : ∀ c e, (registerAt state (.entityPresence c e)).isSome →
      openEntity state c e = state := by
    intro c e stored
    rw [openEntity]
    cases found : findEntity state c e with
    | some entity => rfl
    | none => simp [registerAt, found] at stored
  have entry : ∀ c v, (registerAt state (.stringEntryPresence c v)).isSome →
      openStringEntry state c v = state := by
    intro c v stored
    rw [openStringEntry]
    cases found : findStringEntry state c v with
    | some entry => rfl
    | none => simp [registerAt, found] at stored
  rcases parent with setting | stored
  · cases address <;> simp_all [RegisterAddress.isSetting, openParent]
  · cases address <;> first
      | exact entity _ _ stored
      | exact entry _ _ stored
      | rfl

variable (address : RegisterAddress)

theorem hasParent_openParent : (openParent state address).HasParent address := by
  by_cases setting : address.isSetting = true
  · exact Or.inl setting
  · refine Or.inr ?_
    rw [registerAt_openParent]
    split
    · rfl
    · rename_i kept
      by_contra absent
      exact kept ⟨by simpa using setting, rfl, by simpa using absent⟩

/-! ## Storing registers -/

/-- The state `setRegisterAtAddress` leaves when the entity or entry is stored. -/
def storeRegister (state : ConvergentSyncState) (address : RegisterAddress)
    (register : MultiValueRegister) : ConvergentSyncState :=
  match address with
  | .entityPresence collection entityId =>
    setEntity state collection entityId
      { (findEntity state collection entityId).getD createdEntity with presence := register }
  | .entityPosition collection entityId =>
    setEntity state collection entityId
      { (findEntity state collection entityId).getD createdEntity with position := some register }
  | .entityField collection entityId field =>
    let entity := (findEntity state collection entityId).getD createdEntity
    setEntity state collection entityId { entity with fields := entity.fields.set field register }
  | .setting path => { state with settings := state.settings.set (settingKey path) register }
  | .stringEntryPresence collection value =>
    setStringEntry state collection value
      { (findStringEntry state collection value).getD createdStringEntry with presence := register }
  | .stringEntryPosition collection value =>
    setStringEntry state collection value
      { (findStringEntry state collection value).getD createdStringEntry with
        position := some register }

variable (register : MultiValueRegister)

@[simp] theorem storeRegister_vector :
    (storeRegister state address register).vector = state.vector := by
  cases address <;> rfl

@[simp] theorem storeRegister_dotOrigins :
    (storeRegister state address register).dotOrigins = state.dotOrigins := by
  cases address <;> rfl

@[simp] theorem storeRegister_hlc : (storeRegister state address register).hlc = state.hlc := by
  cases address <;> rfl

@[simp] theorem openParent_vector : (openParent state address).vector = state.vector := by
  cases address <;> simp only [openParent, openEntity, openStringEntry] <;>
    first | rfl | (split <;> rfl)

@[simp] theorem openParent_dotOrigins :
    (openParent state address).dotOrigins = state.dotOrigins := by
  cases address <;> simp only [openParent, openEntity, openStringEntry] <;>
    first | rfl | (split <;> rfl)

@[simp] theorem openParent_hlc : (openParent state address).hlc = state.hlc := by
  cases address <;> simp only [openParent, openEntity, openStringEntry] <;>
    first | rfl | (split <;> rfl)

theorem registerAt_storeRegister {state : ConvergentSyncState} {address : RegisterAddress}
    (named : address.Named) (parent : state.HasParent address) (register : MultiValueRegister)
    (other : RegisterAddress) :
    registerAt (storeRegister state address register) other =
      if other = address then some register else registerAt state other := by
  have entity : ∀ c e, (registerAt state (.entityPresence c e)).isSome →
      ∃ entity, findEntity state c e = some entity := by
    intro c e stored
    simpa [registerAt, isSome_iff_exists] using stored
  have entry : ∀ c v, (registerAt state (.stringEntryPresence c v)).isSome →
      ∃ entry, findStringEntry state c v = some entry := by
    intro c v stored
    simpa [registerAt, isSome_iff_exists] using stored
  cases address with
  | setting path =>
    cases other with
    | setting path' =>
      have keys : settingKey path' = settingKey path ↔ path' = path := settingKey_inj named
      simp only [registerAt, storeRegister, SortedMap.get?_set, keys, RegisterAddress.setting.injEq]
    | _ => simp only [reduceCtorEq, if_false]; rfl
  | entityPresence c e =>
    obtain ⟨stored, found⟩ := entity c e (parent.resolve_left (by simp [RegisterAddress.isSetting]))
    cases other <;>
      simp only [registerAt, storeRegister, findEntity_setEntity, findStringEntry_setEntity,
        reduceCtorEq, RegisterAddress.entityPresence.injEq, if_false, found, getD_some] <;>
      first | rfl | split
    all_goals simp_all
  | entityPosition c e =>
    obtain ⟨stored, found⟩ := entity c e (parent.resolve_left (by simp [RegisterAddress.isSetting]))
    cases other <;>
      simp only [registerAt, storeRegister, findEntity_setEntity, findStringEntry_setEntity,
        reduceCtorEq, RegisterAddress.entityPosition.injEq, if_false, found, getD_some] <;>
      first | rfl | split
    all_goals simp_all
  | entityField c e f =>
    obtain ⟨stored, found⟩ := entity c e (parent.resolve_left (by simp [RegisterAddress.isSetting]))
    cases other with
    | entityField c' e' f' =>
      simp only [registerAt, storeRegister, findEntity_setEntity, RegisterAddress.entityField.injEq,
        found, getD_some]
      by_cases same : c' = c ∧ e' = e
      · obtain ⟨rfl, rfl⟩ := same
        simp [SortedMap.get?_set, found]
      · have different : ¬(c' = c ∧ e' = e ∧ f' = f) := fun h => same ⟨h.1, h.2.1⟩
        rw [if_neg same, if_neg different]
    | entityPresence c' e' =>
      simp only [registerAt, storeRegister, findEntity_setEntity, found, getD_some,
        reduceCtorEq, if_false]
      split <;> simp_all
    | entityPosition c' e' =>
      simp only [registerAt, storeRegister, findEntity_setEntity, found, getD_some,
        reduceCtorEq, if_false]
      split <;> simp_all
    | _ => simp only [reduceCtorEq, if_false]; rfl
  | stringEntryPresence c v =>
    obtain ⟨stored, found⟩ := entry c v (parent.resolve_left (by simp [RegisterAddress.isSetting]))
    cases other <;>
      simp only [registerAt, storeRegister, findStringEntry_setStringEntry,
        findEntity_setStringEntry, reduceCtorEq, RegisterAddress.stringEntryPresence.injEq,
        if_false, found, getD_some] <;>
      first | rfl | split
    all_goals simp_all
  | stringEntryPosition c v =>
    obtain ⟨stored, found⟩ := entry c v (parent.resolve_left (by simp [RegisterAddress.isSetting]))
    cases other <;>
      simp only [registerAt, storeRegister, findStringEntry_setStringEntry,
        findEntity_setStringEntry, reduceCtorEq, RegisterAddress.stringEntryPosition.injEq,
        if_false, found, getD_some] <;>
      first | rfl | split
    all_goals simp_all

theorem setRegisterAtAddress_eq {state : ConvergentSyncState} {address : RegisterAddress}
    (named : address.Named) (register : MultiValueRegister) :
    setRegisterAtAddress state address register =
      .ok (storeRegister (openParent state address) address register) := by
  have entity : ∀ c e, findEntity (openParent state (.entityPresence c e)) c e =
      some ((findEntity state c e).getD createdEntity) := by
    intro c e
    cases found : findEntity state c e <;> simp [openParent, openEntity, found, findEntity_setEntity]
  have entry : ∀ c v, findStringEntry (openParent state (.stringEntryPresence c v)) c v =
      some ((findStringEntry state c v).getD createdStringEntry) := by
    intro c v
    cases found : findStringEntry state c v <;>
      simp [openParent, openStringEntry, found, findStringEntry_setStringEntry]
  cases address with
  | entityPresence c e =>
    simp [setRegisterAtAddress, ensureEntity_eq named.1 named.2, storeRegister, entity]
  | entityPosition c e =>
    have opened : openParent state (.entityPosition c e) = openParent state (.entityPresence c e) := rfl
    simp [setRegisterAtAddress, ensureEntity_eq named.1 named.2, storeRegister, opened, entity]
  | entityField c e f =>
    have opened : openParent state (.entityField c e f) = openParent state (.entityPresence c e) := rfl
    simp [setRegisterAtAddress, ensureEntity_eq named.1 named.2.1, storeRegister, opened, entity,
      requireNonEmpty, assertNonEmptyKey, ensure, named.2.2]
  | setting path =>
    have valid : ValidSettingPath path := named
    simp [setRegisterAtAddress, encodeSettingPath_eq_ok.mpr ⟨valid, rfl⟩, storeRegister, openParent]
  | stringEntryPresence c v =>
    simp [setRegisterAtAddress, ensureStringEntry_eq named.1 named.2, storeRegister, entry]
  | stringEntryPosition c v =>
    have opened :
      openParent state (.stringEntryPosition c v) = openParent state (.stringEntryPresence c v) := rfl
    simp [setRegisterAtAddress, ensureStringEntry_eq named.1 named.2, storeRegister, opened, entry]

/-! ## Replicas as families of registers -/

/-- No collection is stored without an entity or entry, so the records of a
replica hold nothing but its registers. -/
structure ConvergentSyncState.Compact (state : ConvergentSyncState) : Prop where
  collections : ∀ name collection, state.collections.get? name = some collection →
    collection.entities.keys ≠ []
  stringCollections : ∀ name collection, state.stringCollections.get? name = some collection →
    collection.entries.keys ≠ []

/-- Equal registers make equal entities. -/
theorem findEntity_congr {state state' : ConvergentSyncState}
    (registers : ∀ address, registerAt state address = registerAt state' address)
    (c e : JsString) : findEntity state c e = findEntity state' c e := by
  have presence := registers (.entityPresence c e)
  have position := registers (.entityPosition c e)
  have fields := fun f => registers (.entityField c e f)
  simp only [registerAt] at presence position fields
  cases left : findEntity state c e with
  | none =>
    cases right : findEntity state' c e with
    | none => rfl
    | some entity => simp [left, right] at presence
  | some entity =>
    cases right : findEntity state' c e with
    | none => simp [left, right] at presence
    | some entity' =>
      simp only [left, right, map_some, Option.some.injEq, bind_some]
        at presence position fields
      obtain ⟨p, q, r⟩ := entity
      obtain ⟨p', q', r'⟩ := entity'
      cases presence
      cases position
      cases SortedMap.ext fields
      rfl

/-- Equal registers make equal string entries. -/
theorem findStringEntry_congr {state state' : ConvergentSyncState}
    (registers : ∀ address, registerAt state address = registerAt state' address)
    (c v : JsString) : findStringEntry state c v = findStringEntry state' c v := by
  have presence := registers (.stringEntryPresence c v)
  have position := registers (.stringEntryPosition c v)
  simp only [registerAt] at presence position
  cases left : findStringEntry state c v with
  | none =>
    cases right : findStringEntry state' c v with
    | none => rfl
    | some entry => simp [left, right] at presence
  | some entry =>
    cases right : findStringEntry state' c v with
    | none => simp [left, right] at presence
    | some entry' =>
      simp only [left, right, map_some, Option.some.injEq, bind_some]
        at presence position
      obtain ⟨p, q⟩ := entry
      obtain ⟨p', q'⟩ := entry'
      cases presence
      cases position
      rfl

/-- Two-level records without empty inner records are told apart by their
inner lookups. -/
theorem nested_ext {C V : Type} (inner : C → SortedMap JsString V)
    (inner_injective : Function.Injective inner) {outer outer' : SortedMap JsString C}
    (full : ∀ name c, outer.get? name = some c → (inner c).keys ≠ [])
    (full' : ∀ name c, outer'.get? name = some c → (inner c).keys ≠ [])
    (same : ∀ name key, ((outer.get? name).bind fun c => (inner c).get? key) =
      (outer'.get? name).bind fun c => (inner c).get? key) : outer = outer' := by
  have stored : ∀ c : C, (inner c).keys ≠ [] → ∃ key v, (inner c).get? key = some v := by
    intro c nonEmpty
    obtain ⟨key, mem⟩ := List.exists_mem_of_ne_nil _ nonEmpty
    exact ⟨key, SortedMap.mem_keys_iff_exists.mp mem⟩
  apply SortedMap.ext
  intro name
  have lookups := same name
  cases left : outer.get? name with
  | none =>
    cases right : outer'.get? name with
    | none => rfl
    | some c =>
      obtain ⟨key, v, found⟩ := stored c (full' name c right)
      simpa [left, right, found] using lookups key
  | some c =>
    cases right : outer'.get? name with
    | none =>
      obtain ⟨key, v, found⟩ := stored c (full name c left)
      simpa [left, right, found] using lookups key
    | some c' =>
      simp only [left, right, bind_some] at lookups
      rw [inner_injective (SortedMap.ext lookups)]

theorem replica_ext {state state' : ConvergentSyncState} (compact : state.Compact)
    (compact' : state'.Compact)
    (keys : ∀ key ∈ state.settings.keys, ∃ path, ValidSettingPath path ∧ key = settingKey path)
    (keys' : ∀ key ∈ state'.settings.keys, ∃ path, ValidSettingPath path ∧ key = settingKey path)
    (vector : state.vector = state'.vector)
    (dotOrigins : state.dotOrigins = state'.dotOrigins) (hlc : state.hlc = state'.hlc)
    (registers : ∀ address, registerAt state address = registerAt state' address) :
    state = state' := by
  have collections : state.collections = state'.collections :=
    nested_ext ConvergentCollectionState.entities (fun a b h => by cases a; cases b; cases h; rfl)
      compact.collections compact'.collections (findEntity_congr registers)
  have stringCollections : state.stringCollections = state'.stringCollections :=
    nested_ext ConvergentStringCollectionState.entries
      (fun a b h => by cases a; cases b; cases h; rfl)
      compact.stringCollections compact'.stringCollections (findStringEntry_congr registers)
  have settings : state.settings = state'.settings := by
    apply SortedMap.ext
    intro key
    by_cases mem : key ∈ state.settings.keys
    · obtain ⟨path, _, rfl⟩ := keys key mem
      exact registers (.setting path)
    · by_cases mem' : key ∈ state'.settings.keys
      · obtain ⟨path, _, rfl⟩ := keys' key mem'
        exact registers (.setting path)
      · rw [SortedMap.mem_keys, Bool.not_eq_true, isSome_eq_false_iff,
          isNone_iff_eq_none] at mem mem'
        rw [mem, mem']
  cases state
  cases state'
  simp_all

end Netcatty
