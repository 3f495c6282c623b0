import Netcatty.ConvergentLeaves

/-!
Registers that agree on one value.

`Settled` is what a write leaves behind and what the code looks for before it
writes: all candidates carry the same value, or all are tombstones.  A settled
register has no conflict and materializes that value, and every conflict a
snapshot reports for a register comes from a register that is not settled.
-/

namespace Netcatty

open List Option Bool

/-- All candidates of a register carry this value; no value stands for a tombstone. -/
structure Settled (register : Option MultiValueRegister) (value : Option JsonValue) : Prop where
  agreed : ∀ c ∈ registerCandidates register,
    c.value.map canonicalizeJson = value.map canonicalizeJson
  stored : value.isSome → registerCandidates register ≠ []

namespace Settled

variable {register : Option MultiValueRegister} {value : Option JsonValue}

theorem single (c : RegisterCandidate) : Settled (some { candidates := [c] }) c.value where
  agreed other mem := by
    rw [registerCandidates_some, mem_singleton] at mem
    rw [mem]
  stored _ := cons_ne_nil _ _

theorem hasConflict {stored : MultiValueRegister} (settled : Settled (some stored) value) :
    registerHasConflict stored = false :=
  registerHasConflict_eq_false.mpr fun c mem c' mem' =>
    (settled.agreed c mem).trans (settled.agreed c' mem').symm

theorem noConflict (settled : Settled register value) (address : RegisterAddress) :
    maybeRecordConflict address register = [] := by
  cases register with
  | none => rfl
  | some stored => exact maybeRecordConflict_eq_nil address settled.hasConflict

theorem winner {c : RegisterCandidate} (settled : Settled register value)
    (selected : selectRegisterWinner register = some c) :
    c.value.map canonicalizeJson = value.map canonicalizeJson :=
  settled.agreed c (selectRegisterWinner_spec selected).1

theorem materialized (settled : Settled register value) :
    materializedValue (register.map canonicalRegister) = value.map canonicalizeJson := by
  cases selected : selectRegisterWinner (register.map canonicalRegister) with
  | none =>
    have empty : registerCandidates register = [] := by
      cases register with
      | none => rfl
      | some stored =>
        rw [map_some, selectRegisterWinner_eq_none, registerCandidates_some] at selected
        refine eq_nil_iff_forall_not_mem.mpr fun c mem => ?_
        have canonical := mem_canonicalRegister.mpr ⟨c, mem, rfl⟩
        rw [selected] at canonical
        cases canonical
    cases value with
    | none => simp [materializedValue, selected]
    | some v => exact absurd empty (settled.stored rfl)
  | some winner =>
    cases register with
    | none => cases selected
    | some stored =>
      obtain ⟨c, mem, rfl⟩ := mem_canonicalRegister.mp (selectRegisterWinner_spec selected).1
      rw [materializedValue, selected, bind_some]
      exact settled.agreed c mem

theorem canonical (settled : Settled register value) :
    Settled (register.map canonicalRegister) value := by
  cases register with
  | none => exact settled
  | some stored =>
    constructor
    · intro c mem
      obtain ⟨c', mem', rfl⟩ := mem_canonicalRegister.mp mem
      rw [← settled.agreed c' mem', canonicalCandidate, candidateFingerprint, Option.map_map]
      exact Option.map_congr fun v _ => canonicalizeJson_idem v
    · intro isValue empty
      obtain ⟨c, mem⟩ := exists_mem_of_ne_nil _ (settled.stored isValue)
      have canonical : canonicalCandidate c ∈ (canonicalRegister stored).candidates :=
        mem_canonicalRegister.mpr ⟨c, mem, rfl⟩
      rw [map_some, registerCandidates_some] at empty
      rw [empty] at canonical
      cases canonical

end Settled

/-! ## What the code looks for before it writes -/

section Guards

variable {register : Option MultiValueRegister}

/-- An upserted register is left alone exactly if it is settled on the value. -/
theorem needsWrite_eq_false {value : JsonValue} :
    needsWrite register value = false ↔ Settled register (some value) := by
  cases register with
  | none =>
    refine ⟨fun same => by simp [needsWrite] at same, fun settled => ?_⟩
    exact absurd rfl (settled.stored rfl)
  | some stored =>
    simp only [needsWrite, or_eq_false_iff, not_eq_false', candidateValueEquals]
    constructor
    · rintro ⟨agreed, same⟩
      cases selected : selectRegisterWinner (some stored) with
      | none => simp [selected] at same
      | some winner =>
        have mem := (selectRegisterWinner_spec selected).1
        cases found : winner.value with
        | none => simp [selected, found] at same
        | some v =>
          simp only [selected, bind_some, found, jsonValuesEqual_iff] at same
          refine ⟨fun c here => ?_, fun _ => ne_nil_of_mem mem⟩
          rw [registerHasConflict_eq_false.mp agreed c here winner mem, found, map_some, same,
            map_some]
    · intro settled
      refine ⟨settled.hasConflict, ?_⟩
      cases selected : selectRegisterWinner (some stored) with
      | none => exact absurd (selectRegisterWinner_eq_none.mp selected) (settled.stored rfl)
      | some winner =>
        obtain ⟨v, found, same⟩ := map_eq_some_iff.mp (settled.winner selected)
        simp [found, same]

theorem registerIsPresent_eq_false :
    registerIsPresent register = false ↔ Settled register none := by
  rw [← not_eq_true, registerIsPresent_iff]
  constructor
  · intro absent
    refine ⟨fun c mem => ?_, fun isValue => by cases isValue⟩
    have none_ : c.value = none := by
      by_contra value
      exact absent ⟨c, mem, value⟩
    rw [none_]
  · rintro settled ⟨c, mem, value⟩
    exact value (map_eq_none_iff.mp (settled.agreed c mem))

theorem Settled.present {value : JsonValue} (settled : Settled register (some value)) :
    registerIsPresent register := by
  obtain ⟨c, mem⟩ := exists_mem_of_ne_nil _ (settled.stored rfl)
  refine registerIsPresent_iff.mpr ⟨c, mem, fun none_ => ?_⟩
  have same := settled.agreed c mem
  rw [none_] at same
  cases same

theorem presenceIsStale_eq_false :
    presenceIsStale register = false ↔ ∃ value, Settled register (some value) := by
  cases register with
  | none =>
    refine ⟨fun fresh => absurd fresh (by simp [presenceIsStale]), ?_⟩
    rintro ⟨value, settled⟩
    exact absurd rfl (settled.stored rfl)
  | some stored =>
    simp only [presenceIsStale, or_eq_false_iff, not_eq_false']
    constructor
    · rintro ⟨present, agreed⟩
      obtain ⟨c, mem, value⟩ := registerIsPresent_iff.mp present
      obtain ⟨v, found⟩ := ne_none_iff_exists'.mp value
      refine ⟨v, fun c' mem' => ?_, fun _ => ne_nil_of_mem mem⟩
      rw [← found]
      exact registerHasConflict_eq_false.mp agreed c' mem' c mem
    · rintro ⟨value, settled⟩
      exact ⟨settled.present, settled.hasConflict⟩

theorem settled_of_settingUnchanged {value : Option JsonValue}
    (unchanged : settingUnchanged register value) : Settled register value := by
  cases register with
  | none => cases unchanged
  | some stored =>
    simp only [settingUnchanged, and_eq_true, not_eq_true'] at unchanged
    obtain ⟨agreed, same⟩ := unchanged
    cases value with
    | none =>
      obtain ⟨winner, selected, tombstone⟩ := (Option.any_eq_true _ _).mp same
      refine ⟨fun c mem => ?_, fun isValue => by cases isValue⟩
      have mem' := (selectRegisterWinner_spec selected).1
      rw [registerHasConflict_eq_false.mp agreed c mem winner mem',
        isNone_iff_eq_none.mp tombstone]
    | some v =>
      refine needsWrite_eq_false.mp ?_
      simp [needsWrite, agreed, same]

end Guards

/-! ## After a run of writes -/

section Writes

variable {state state' : ConvergentSyncState} {deviceId : JsString} {now : JsNumber}
  {writes : List RegisterWrite}

theorem settled_of_mem (writable : Writable state writes)
    (distinct : (writes.map RegisterWrite.address).Nodup)
    (ran : runWrites deviceId now state writes = .ok state') {write : RegisterWrite}
    (mem : write ∈ writes) : Settled (registerAt state' write.address) write.value := by
  obtain ⟨c, stored, same, -⟩ := registerAt_runWrites_of_mem writable distinct ran mem
  rw [stored, ← same]
  exact .single c

section

variable {address : RegisterAddress} {value : Option JsonValue}
  (settled : Settled (registerAt state address) value)
include settled

theorem Settled.canonicalAt : Settled (registerAt (canonicalState state) address) value := by
  rw [registerAt_canonicalState]
  exact settled.canonical

theorem Settled.materializedAt : materializedValue (registerAt (canonicalState state) address) =
      value.map canonicalizeJson := by
  rw [registerAt_canonicalState]
  exact settled.materialized

end

end Writes

/-! ## The conflicts of a snapshot -/

section Conflicts

variable {state : ConvergentSyncState} {conflict : ConvergentFieldConflict}

theorem mem_maybeRecordConflict {address : RegisterAddress} {register : Option MultiValueRegister}
    (reported : conflict ∈ maybeRecordConflict address register) :
    conflict.address = .register address ∧ ∀ listed ∈ conflict.candidates,
      ∃ c ∈ registerCandidates register, listed.dot = c.dot ∧ listed.value = c.value ∧
        listed.tombstone = c.value.isNone ∧ listed.settingPath = none := by
  unfold maybeRecordConflict at reported
  split at reported
  · next stored winner selected =>
    split at reported
    · rw [mem_singleton] at reported
      subst reported
      refine ⟨rfl, fun listed mem => ?_⟩
      obtain ⟨c, here, rfl⟩ := List.mem_map.mp mem
      exact ⟨c, (mem_insertionSort _).mp here, rfl, rfl, rfl, rfl⟩
    · cases reported
  · cases reported

theorem activeSetting_of_mem (well : StoredWell state) {e : ActiveSettingEntry}
    (mem : e ∈ activeSettings state) : ActiveSetting state e.path := by
  obtain ⟨register, stored, -, made⟩ := (mem_activeSettings well).mp mem
  obtain ⟨-, -, -, selected, value⟩ := activeSetting_encodedPath made
  rw [activeSetting_iff, candidatesAt, stored]
  exact ⟨e.winner, (selectRegisterWinner_spec selected).1, by simp [value]⟩

theorem mem_recordSettingStructureConflicts (well : StoredWell state)
    (reported : conflict ∈ recordSettingStructureConflicts (activeSettings state) (selectedSettings state)) :
    ∃ paths, conflict.address = .settingStructure paths ∧
      (∀ path ∈ paths, ActiveSetting state path ∧
        ∃ other, ActiveSetting state other ∧ other ≠ path ∧ settingPathsOverlap path other) ∧
      ∀ listed ∈ conflict.candidates, ∃ path ∈ paths, listed.settingPath = some path ∧
        ∃ c ∈ candidatesAt state (.setting path), listed.dot = c.dot ∧ listed.value = c.value ∧
          listed.tombstone = c.value.isNone := by
  have active := activeSettings_active well
  obtain ⟨⟨root, group⟩, inGroups, reported⟩ := mem_flatMap.mp reported
  have stored := SortedMap.mem_entries.mp inGroups
  rw [get?_settingGroups] at stored
  have whole : group = (activeSettings state).filter fun e =>
      settingRootPath (activeSettings state) e = root := by
    split at stored
    · cases stored
    · exact (Option.some.inj stored).symm
  have members : ∀ e, e ∈ group ↔ e ∈ activeSettings state ∧
      settingRootPath (activeSettings state) e = root := fun e => by
    rw [whole, mem_filter, decide_eq_true_eq]
  unfold settingStructureConflict at reported
  split at reported
  · cases reported
  · next long =>
    rw [mem_singleton] at reported
    subst reported
    refine ⟨_, rfl, fun path mem => ?_, fun listed mem => ?_⟩
    · obtain ⟨e, inSorted, rfl⟩ := List.mem_map.mp mem
      rw [mem_insertionSort] at inSorted
      obtain ⟨inActive, rooted⟩ := (members e).mp inSorted
      have nodup : group.Nodup := whole ▸ (List.Nodup.of_map _ active.distinct).filter _
      obtain ⟨e', inGroup, different⟩ : ∃ e' ∈ group, e' ≠ e := by
        by_contra none_
        push Not at none_
        have short := eq_replicate_of_mem none_ ▸ nodup
        rw [nodup_replicate] at short
        exact long (Nat.lt_succ_of_le short)
      obtain ⟨inActive', rooted'⟩ := (members e').mp inGroup
      obtain ⟨other, inActive'', apart, related⟩ :=
        exists_related_of_sameRoot active inActive inActive' different (rooted'.trans rooted.symm)
      exact ⟨activeSetting_of_mem well inActive, other.path, activeSetting_of_mem well inActive'', apart,
        settingPathsOverlap_eq_true.mpr related⟩
    · obtain ⟨e, inSorted, mem⟩ := mem_flatMap.mp mem
      obtain ⟨c, here, rfl⟩ := List.mem_map.mp mem
      have inGroup := (mem_insertionSort _).mp inSorted
      obtain ⟨register, at_, -, made⟩ := (mem_activeSettings well).mp ((members e).mp inGroup).1
      refine ⟨e.path, List.mem_map_of_mem inSorted, rfl, c, ?_, rfl, rfl, rfl⟩
      have same : e.register = register := (activeSetting_encodedPath made).2.2.1
      rw [candidatesAt, at_, registerCandidates_some, ← same]
      exact (mem_insertionSort _).mp here

theorem mem_snapshotConflicts (well : StoredWell state) (reported : conflict ∈ snapshotConflicts state) :
    (∃ address register, registerAt state address = some register ∧
      conflict ∈ maybeRecordConflict address (some register)) ∨
    conflict ∈ recordSettingStructureConflicts (activeSettings state) (selectedSettings state) := by
  rcases mem_append.mp reported with front | inEntries
  · rcases mem_append.mp front with inCollections | inSettings
    · obtain ⟨⟨collection, stored⟩, mem, inCollection⟩ := mem_flatMap.mp inCollections
      obtain ⟨⟨entityId, entity⟩, mem', inEntity⟩ := mem_flatMap.mp inCollection
      have found : findEntity state collection entityId = some entity := by
        rw [findEntity, SortedMap.mem_entries.mp mem, bind_some]
        exact SortedMap.mem_entries.mp mem'
      rcases mem_append.mp inEntity with presence | contents
      · exact .inl ⟨.entityPresence collection entityId, entity.presence, by simp [registerAt, found], presence⟩
      · split at contents
        · rcases mem_append.mp contents with position | inFields
          · cases at_ : entity.position with
            | none =>
              rw [at_] at position
              cases position
            | some register =>
              exact .inl ⟨.entityPosition collection entityId, register, by simp [registerAt, found, at_],
                at_ ▸ position⟩
          · obtain ⟨⟨field, register⟩, inField, recorded⟩ := mem_flatMap.mp inFields
            refine .inl ⟨.entityField collection entityId field, register, ?_, recorded⟩
            simpa [registerAt, found] using SortedMap.mem_entries.mp inField
        · cases contents
    · rcases mem_append.mp inSettings with register | structure_
      · obtain ⟨⟨key, stored⟩, mem, recorded⟩ := mem_flatMap.mp register
        have inSettings := SortedMap.mem_entries.mp mem
        obtain ⟨-, keyOf⟩ := settingKey_settingPathOf well (SortedMap.mem_keys_iff_exists.mpr ⟨stored, inSettings⟩)
        refine .inl ⟨.setting (settingPathOf key), stored, ?_, recorded⟩
        rw [registerAt, keyOf]
        exact inSettings
      · exact .inr structure_
  · obtain ⟨⟨collection, stored⟩, mem, inCollection⟩ := mem_flatMap.mp inEntries
    obtain ⟨⟨value, entry⟩, mem', inEntry⟩ := mem_flatMap.mp inCollection
    have found : findStringEntry state collection value = some entry := by
      rw [findStringEntry, SortedMap.mem_entries.mp mem, bind_some]
      exact SortedMap.mem_entries.mp mem'
    rcases mem_append.mp inEntry with presence | contents
    · exact .inl ⟨.stringEntryPresence collection value, entry.presence, by simp [registerAt, found], presence⟩
    · split at contents
      · cases at_ : entry.position with
        | none =>
          rw [at_] at contents
          cases contents
        | some register =>
          exact .inl ⟨.stringEntryPosition collection value, register, by simp [registerAt, found, at_],
            at_ ▸ contents⟩
      · cases contents

theorem Settled.unreported (well : StoredWell state) {address : RegisterAddress} {value : Option JsonValue}
    (settled : Settled (registerAt state address) value) (reported : conflict ∈ snapshotConflicts state) :
    conflict.address ≠ .register address := by
  intro here
  rcases mem_snapshotConflicts well reported with ⟨other, register, stored, recorded⟩ | structure_
  · rw [(mem_maybeRecordConflict recorded).1, ConvergentConflictAddress.register.injEq] at here
    rw [← here, stored] at settled
    rw [settled.noConflict] at recorded
    cases recorded
  · obtain ⟨paths, same, -⟩ := mem_recordSettingStructureConflicts well structure_
    rw [same] at here
    cases here

end Conflicts

end Netcatty
