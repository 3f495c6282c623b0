import Netcatty.ConvergentSettings

/-!
What the snapshot of a valid replica shows.

Materializing a valid replica never throws
(`materializeConvergentSyncState_eq_ok`), and every part of the result is
described by the registers: entities and entries by presence, fields by their
winners, settings by the selected leaves, conflicts by registers and by groups
of related leaves.
-/

namespace Netcatty

open List Option SortedMap

/-! ## Registers -/

section Registers

variable {register : MultiValueRegister} {c : RegisterCandidate}

theorem exists_maybeRecordConflict (address : RegisterAddress) (mem : c ∈ register.candidates)
    (inConflict : registerHasConflict register) :
    ∃ conflict ∈ maybeRecordConflict address (some register), conflict.address = .register address ∧
      ∃ listed ∈ conflict.candidates, listed.dot = c.dot ∧ listed.value = c.value := by
  cases selected : selectRegisterWinner (some register) with
  | none =>
    rw [selectRegisterWinner_eq_none, registerCandidates_some] at selected
    rw [selected] at mem
    cases mem
  | some winner =>
    have made : maybeRecordConflict address (some register) =
        [{ address := .register address
           candidates := (candidatesByDot register).map fun candidate =>
            conflictCandidate candidate (dotKey winner.dot) none }] := by
      simp only [maybeRecordConflict, selected, if_pos inConflict]
    rw [made]
    exact ⟨_, mem_singleton.mpr rfl, rfl, _,
      List.mem_map_of_mem ((mem_insertionSort _).mpr mem), rfl, rfl⟩

theorem maybeRecordConflict_eq_nil (address : RegisterAddress)
    (agreed : registerHasConflict register = false) :
    maybeRecordConflict address (some register) = [] := by
  unfold maybeRecordConflict
  split
  · rename_i stored _
    cases stored
    rw [if_neg (by simp [agreed])]
  · rfl

theorem materializedValue_of_agreed (canonical : CanonicalRegister register)
    (agreed : registerHasConflict register = false) (mem : c ∈ register.candidates) :
    materializedValue (some register) = c.value := by
  cases selected : selectRegisterWinner (some register) with
  | none =>
    rw [selectRegisterWinner_eq_none, registerCandidates_some] at selected
    rw [selected] at mem
    cases mem
  | some winner =>
    have winnerMem : winner ∈ register.candidates := (selectRegisterWinner_spec selected).1
    have value : ∀ d ∈ register.candidates, d.value.map canonicalizeJson = d.value := fun d inRegister =>
      congrArg RegisterCandidate.value (canonical.1 d inRegister)
    rw [materializedValue, selected, bind_some, ← value winner winnerMem, ← value c mem]
    exact registerHasConflict_eq_false.mp agreed winner winnerMem c mem

theorem materialized_or_conflict (address : RegisterAddress) (canonical : CanonicalRegister register)
    (mem : c ∈ register.candidates) : materializedValue (some register) = c.value ∨
      ∃ conflict ∈ maybeRecordConflict address (some register),
        conflict.address = .register address ∧
        ∃ listed ∈ conflict.candidates, listed.dot = c.dot ∧ listed.value = c.value := by
  cases inConflict : registerHasConflict register with
  | true => exact Or.inr (exists_maybeRecordConflict address mem inConflict)
  | false => exact Or.inl (materializedValue_of_agreed canonical inConflict mem)

theorem registerIsPresent_of_value {register : Option MultiValueRegister} {c : RegisterCandidate}
    (mem : c ∈ registerCandidates register) (value : c.value ≠ none) :
    registerIsPresent register := by
  cases selected : selectRegisterWinner register with
  | none =>
    rw [selectRegisterWinner_eq_none] at selected
    rw [selected] at mem
    cases mem
  | some winner =>
    have isValue : isTombstoneCandidate c = false := by
      simpa [isTombstoneCandidate, ← isSome_iff_ne_none] using value
    simp [registerIsPresent, selected, winner_isValue selected mem isValue]

end Registers

/-! ## Entities -/

theorem getOwnRecordValue_entityFold {l : List (JsString × MultiValueRegister)}
    (distinct : (l.map Prod.fst).Nodup) (value : JsonObject) (field : JsString) :
    getOwnRecordValue (l.foldl (fun value entry =>
      match materializedValue (some entry.2) with
      | none => value
      | some fieldValue => setOwnRecordValue value entry.1 fieldValue) value) field =
      ((SortedMap.lookupEntry field l).bind fun register => materializedValue (some register)).or
        (getOwnRecordValue value field) := by
  induction l generalizing value with
  | nil => rfl
  | cons entry l ih =>
    obtain ⟨key, register⟩ := entry
    obtain ⟨fresh, rest⟩ := nodup_cons.mp distinct
    rw [foldl_cons, ih rest, SortedMap.lookupEntry]
    by_cases same : field = key
    · subst same
      have absent : SortedMap.lookupEntry field l = none := lookupEntry_eq_none.mpr fresh
      rw [absent, if_pos rfl]
      cases found : materializedValue (some register) with
      | none => simp [found]
      | some v => simp [found, getOwnRecordValue_setOwnRecordValue]
    · rw [if_neg same]
      congr 1
      cases materializedValue (some register) with
      | none => rfl
      | some v => simp only [getOwnRecordValue_setOwnRecordValue, if_neg same]

theorem getOwnRecordValue_entityValue (entry : JsString × ConvergentEntityState) (field : JsString) :
    getOwnRecordValue (entityValue entry) field =
      ((entry.2.fields.get? field).bind fun register => materializedValue (some register)).or
        (if field = text "id" then some (.str entry.1) else none) := by
  refine (getOwnRecordValue_entityFold entry.2.fields.keys_nodup [(text "id", .str entry.1)] field).trans
    (congrArg _ ?_)
  by_cases isId : field = text "id" <;> simp [getOwnRecordValue, SortedMap.lookupEntry, isId]

theorem mem_materializeCollection {collection : ConvergentCollectionState}
    {entity : MaterializedEntity} : entity ∈ materializeCollection collection ↔
      ∃ id stored, collection.entities.get? id = some stored ∧
        materializeEntity (id, stored) = some entity := by
  simp only [materializeCollection, mem_insertionSort, mem_filterMap]
  constructor
  · rintro ⟨⟨id, stored⟩, mem, made⟩
    exact ⟨id, stored, SortedMap.mem_entries.mp mem, made⟩
  · rintro ⟨id, stored, found, made⟩
    exact ⟨(id, stored), SortedMap.mem_entries.mpr found, made⟩

theorem mem_materializeStringCollection {collection : ConvergentStringCollectionState}
    {entry : MaterializedEntry} : entry ∈ materializeStringCollection collection ↔
      ∃ value stored, collection.entries.get? value = some stored ∧
        materializeStringEntry (value, stored) = some entry := by
  simp only [materializeStringCollection, mem_insertionSort, mem_filterMap]
  constructor
  · rintro ⟨⟨value, stored⟩, mem, made⟩
    exact ⟨value, stored, SortedMap.mem_entries.mp mem, made⟩
  · rintro ⟨value, stored, found, made⟩
    exact ⟨(value, stored), SortedMap.mem_entries.mpr found, made⟩

/-! ## Settings -/

def activeSetting (entry : JsString × MultiValueRegister) : Option ActiveSettingEntry :=
  (selectRegisterWinner (some entry.2)).bind fun winner => winner.value.map fun value =>
    { encodedPath := entry.1, path := settingPathOf entry.1, register := entry.2, winner, value }

variable (state : ConvergentSyncState)

/-- The active leaves of a replica, in key order. -/
def activeSettings : List ActiveSettingEntry :=
  state.settings.entries.filterMap activeSetting

/-- The keys of the leaves that are materialized. -/
def selectedSettings : List JsString :=
  selectMaterializedSettingEntries (activeSettings state)

def settingConflicts : List ConvergentFieldConflict :=
  (state.settings.entries.flatMap fun entry =>
    maybeRecordConflict (.setting (settingPathOf entry.1)) (some entry.2)) ++
  recordSettingStructureConflicts (activeSettings state) (selectedSettings state)

theorem activeSetting_encodedPath {entry : JsString × MultiValueRegister} {e : ActiveSettingEntry}
    (isActive : activeSetting entry = some e) :
    e.encodedPath = entry.1 ∧ e.path = settingPathOf entry.1 ∧ e.register = entry.2 ∧
      selectRegisterWinner (some entry.2) = some e.winner ∧ e.winner.value = some e.value := by
  simp only [activeSetting, bind_eq_some_iff, map_eq_some_iff] at isActive
  obtain ⟨winner, selected, value, found, rfl⟩ := isActive
  exact ⟨rfl, rfl, rfl, selected, found⟩

section Settings

variable {state : ConvergentSyncState} (well : StoredWell state)
include well

theorem mem_activeSettings {e : ActiveSettingEntry} : e ∈ activeSettings state ↔
    ∃ register, registerAt state (.setting e.path) = some register ∧ ValidSettingPath e.path ∧
      activeSetting (settingKey e.path, register) = some e := by
  simp only [activeSettings, mem_filterMap]
  constructor
  · rintro ⟨⟨key, register⟩, mem, made⟩
    have stored := SortedMap.mem_entries.mp mem
    obtain ⟨valid, keyOf⟩ := settingKey_settingPathOf well
      (mem_keys_iff_exists.mpr ⟨register, stored⟩)
    obtain ⟨_, path, _⟩ := activeSetting_encodedPath made
    rw [path, keyOf]
    exact ⟨register, by rw [registerAt, keyOf]; exact stored, valid, made⟩
  · rintro ⟨register, stored, _, made⟩
    exact ⟨_, SortedMap.mem_entries.mpr stored, made⟩

theorem activeSettings_active : ActiveEntries (activeSettings state) := by
  refine ⟨fun e mem => ?_, ?_⟩
  · obtain ⟨register, _, valid, made⟩ := (mem_activeSettings well).mp mem
    exact ⟨valid, (activeSetting_encodedPath made).1⟩
  · have keys : (activeSettings state).map ActiveSettingEntry.encodedPath =
        (state.settings.entries.filter fun entry => (activeSetting entry).isSome).map Prod.fst := by
      rw [activeSettings, map_filterMap]
      induction state.settings.entries with
      | nil => rfl
      | cons entry rest ih =>
        rw [filterMap_cons, filter_cons]
        cases made : activeSetting entry with
        | none => simpa using ih
        | some e => simp [ih, (activeSetting_encodedPath made).1]
    rw [keys]
    exact (filter_sublist.map _).nodup state.settings.keys_nodup

theorem mapM_readSetting : state.settings.entries.mapM readSetting =
    .ok (state.settings.entries.map fun entry =>
      (maybeRecordConflict (.setting (settingPathOf entry.1)) (some entry.2),
        (activeSetting entry).toList)) := by
  have turn : ∀ entry ∈ state.settings.entries, readSetting entry =
      .ok (maybeRecordConflict (.setting (settingPathOf entry.1)) (some entry.2),
        (activeSetting entry).toList) := by
    intro entry mem
    obtain ⟨path, valid, key⟩ := well.settingKeys entry.1 (List.mem_map_of_mem mem)
    have decoded : decodeSettingPath entry.1 = .ok (settingPathOf entry.1) := by
      rw [key, settingPathOf_settingKey valid]
      exact decodeSettingPath_settingKey valid
    simp only [readSetting, decoded, ok_bind, activeSetting]
    cases selectRegisterWinner (some entry.2) with
    | none => rfl
    | some winner =>
      simp only [bind_some]
      cases winner.value <;> rfl
  generalize state.settings.entries = entries at turn
  induction entries with
  | nil => rfl
  | cons entry entries ih =>
    rw [mapM_cons, turn entry mem_cons_self, ok_bind,
      ih fun e mem => turn e (mem_cons_of_mem _ mem)]
    rfl

/-- Materializing settings sets the selected leaves, and nothing overlaps. -/
theorem materializeSettings_eq_ok : ∃ settings,
    materializeSettings state = .ok (settings, settingConflicts state) ∧
    (∀ e ∈ activeSettings state, e.encodedPath ∈ selectedSettings state →
      nestedValue settings e.path = some e.value) ∧
    ∀ other, (∀ e ∈ activeSettings state, e.encodedPath ∈ selectedSettings state →
      Unrelated e.path other) → nestedValue settings other = none := by
  have active := activeSettings_active well
  set chosen := (activeSettings state).filter fun entry => entry.encodedPath ∈ selectedSettings state
    with chosenDef
  have inChosen : ∀ e, e ∈ chosen ↔ e ∈ activeSettings state ∧ e.encodedPath ∈ selectedSettings state :=
    fun e => by rw [chosenDef, mem_filter, decide_eq_true_eq]
  have unrelated : chosen.Pairwise fun e e' => Unrelated e.path e'.path := by
    have nodup : chosen.Nodup := (List.Nodup.of_map _ active.distinct).filter _
    refine List.Nodup.pairwise_of_forall_ne nodup fun e mem e' mem' different => ?_
    obtain ⟨inActive, selected⟩ := (inChosen e).mp mem
    obtain ⟨inActive', selected'⟩ := (inChosen e').mp mem'
    exact (selectMaterializedSettingEntries_spec active).1 e inActive e' inActive' selected selected'
      different
  obtain ⟨settings, ran, values, others⟩ := setNestedSettings_ok []
    (fun e mem => (active.valid e ((inChosen e).mp mem).1).1.1) unrelated fun e _ => walkable_nil _
  refine ⟨settings, ?_, fun e mem selected => values e ((inChosen e).mpr ⟨mem, selected⟩),
    fun other apart => ?_⟩
  · have entries : (state.settings.entries.map fun entry =>
        (maybeRecordConflict (.setting (settingPathOf entry.1)) (some entry.2),
          (activeSetting entry).toList)).flatMap Prod.snd = activeSettings state := by
      rw [flatMap_map, activeSettings, filterMap_eq_flatMap_toList]
    simp only [materializeSettings, mapM_readSetting well, ok_bind, entries]
    rw [← selectedSettings, ← chosenDef, ran]
    simp only [ok_bind, pure_eq_ok, flatMap_map, settingConflicts]
  · rw [others other fun e mem => apart e ((inChosen e).mp mem).1 ((inChosen e).mp mem).2,
      nestedValue_nil]

theorem setting_materialized_or_conflict {path : List JsString} {register : MultiValueRegister}
    {c : RegisterCandidate} {v : JsonValue} (stored : registerAt state (.setting path) = some register)
    (canonical : CanonicalRegister register) (mem : c ∈ register.candidates) (value : c.value = some v)
    {settings : JsonObject} (set : ∀ e ∈ activeSettings state, e.encodedPath ∈ selectedSettings state →
      nestedValue settings e.path = some e.value) :
    nestedValue settings path = some v ∨ ∃ conflict ∈ settingConflicts state,
      (conflict.address = .register (.setting path) ∨
        ∃ paths, conflict.address = .settingStructure paths ∧ path ∈ paths) ∧
      ∃ listed ∈ conflict.candidates, listed.dot = c.dot ∧ listed.value = some v := by
  have valid : ValidSettingPath path := (well.addresses _ _ stored).1
  have inEntries : (settingKey path, register) ∈ state.settings.entries := SortedMap.mem_entries.mpr stored
  rcases materialized_or_conflict (.setting path) canonical mem with shown | listed
  · -- The register agrees on the value, so the leaf is active.
    obtain ⟨winner, selected, winnerValue⟩ := bind_eq_some_iff.mp (shown.trans value)
    set e : ActiveSettingEntry := ⟨settingKey path, path, register, winner, v⟩ with eDef
    have made : activeSetting (settingKey path, register) = some e := by
      simp only [activeSetting, selected, bind_some, winnerValue, map_some,
        settingPathOf_settingKey valid, eDef]
    have inActive : e ∈ activeSettings state :=
      (mem_activeSettings well).mpr ⟨register, stored, valid, made⟩
    by_cases isSelected : e.encodedPath ∈ selectedSettings state
    · exact Or.inl (set e inActive isSelected)
    · obtain ⟨conflict, recorded, paths, address, inPaths, listed⟩ :=
        exists_structureConflict (activeSettings_active well) inActive isSelected
      obtain ⟨candidate, inConflict, dot, value', _⟩ := listed c mem
      exact Or.inr ⟨conflict, mem_append_right _ recorded, Or.inr ⟨paths, address, inPaths⟩,
        candidate, inConflict, dot, value'.trans value⟩
  · obtain ⟨conflict, recorded, address, candidate, inConflict, dot, value'⟩ := listed
    refine Or.inr ⟨conflict, mem_append_left _ (mem_flatMap.mpr ⟨_, inEntries, ?_⟩),
      Or.inl address, candidate, inConflict, dot, value'.trans value⟩
    rw [settingPathOf_settingKey valid]
    exact recorded

end Settings

/-! ## The snapshot -/

/-- The conflicts of a replica in the order they are found. -/
def snapshotConflicts : List ConvergentFieldConflict :=
  (state.collections.entries.flatMap fun entry =>
    entry.2.entities.entries.flatMap (entityConflicts entry.1)) ++
  settingConflicts state ++
  state.stringCollections.entries.flatMap fun entry =>
    entry.2.entries.entries.flatMap (stringEntryConflicts entry.1)

/-- What the snapshot of a valid replica is. -/
structure IsSnapshot (state : ConvergentSyncState) (result : MaterializedConvergentSyncState) :
    Prop where
  collections : result.collections = state.collections.mapValues fun collection =>
    (materializeCollection collection).map MaterializedEntity.value
  stringCollections : result.stringCollections = state.stringCollections.mapValues fun collection =>
    (materializeStringCollection collection).map MaterializedEntry.value
  settings : ∀ e ∈ activeSettings state, e.encodedPath ∈ selectedSettings state →
    nestedValue result.settings e.path = some e.value
  unset : ∀ other, (∀ e ∈ activeSettings state, e.encodedPath ∈ selectedSettings state →
    Unrelated e.path other) → nestedValue result.settings other = none
  conflicts : ∀ conflict, conflict ∈ result.conflicts ↔ conflict ∈ snapshotConflicts state

/-- **Materializing a valid replica never throws.** -/
theorem materializeConvergentSyncState_eq_ok {state : ConvergentSyncState} (valid : ValidState state) :
    ∃ result, materializeConvergentSyncState state = .ok result ∧ IsSnapshot state result := by
  obtain ⟨settings, ran, set, unset⟩ := materializeSettings_eq_ok valid.shaped.well
  obtain ⟨result, made, collections, stringCollections, settings', conflicts⟩ :
      ∃ result, materializeConvergentSyncState state = .ok result ∧
      (result.collections = state.collections.mapValues fun collection =>
        (materializeCollection collection).map MaterializedEntity.value) ∧
      (result.stringCollections = state.stringCollections.mapValues fun collection =>
        (materializeStringCollection collection).map MaterializedEntry.value) ∧
      result.settings = settings ∧
      result.conflicts = (snapshotConflicts state).insertionSort fun left right =>
        addressSortKey left.address ≤ addressSortKey right.address := by
    simp only [materializeConvergentSyncState, assertValid_eq_ok.mpr valid, ran, ok_bind, pure_eq_ok]
    exact ⟨_, rfl, rfl, rfl, rfl, rfl⟩
  refine ⟨result, made, collections, stringCollections, settings' ▸ set, settings' ▸ unset,
    fun conflict => ?_⟩
  rw [conflicts, mem_insertionSort]

end Netcatty
