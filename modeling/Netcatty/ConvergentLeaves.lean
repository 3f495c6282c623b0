import Netcatty.ConvergentSnapshot

/-!
The active leaves of the settings.

A snapshot selects among overlapping leaves by their winners, reports every overlapping pair,
and holds what it selected and nothing else (`settings_materialize_selected`).  Local writes keep
leaves that do not overlap apart (`local_writes_keep_leaves_apart`): a set clears ancestors and
descendants of its path, and a deletion makes no path active.
-/

namespace Netcatty

open List Option

/-! ## Selected leaves -/

/-- `materializeSettings` returns, and this is what it returns. -/
structure MaterializesSelected (state : ConvergentSyncState) (settings : JsonObject)
    (conflicts : List ConvergentFieldConflict) : Prop where
  returned : materializeSettings state = .ok (settings, conflicts)
  /-- Selected leaves do not overlap. -/
  apart : ∀ e ∈ activeSettings state, ∀ e' ∈ activeSettings state,
    e.encodedPath ∈ selectedSettings state → e'.encodedPath ∈ selectedSettings state → e ≠ e' →
    settingPathsOverlap e.path e'.path = false
  /-- Any other leaf overlaps a selected one that goes before it. -/
  maximal : ∀ e ∈ activeSettings state, e.encodedPath ∉ selectedSettings state →
    ∃ e' ∈ activeSettings state, e'.encodedPath ∈ selectedSettings state ∧
      settingPathsOverlap e.path e'.path = true ∧
      (compareRegisterCandidates e'.winner e.winner = .gt ∨
        compareRegisterCandidates e'.winner e.winner = .eq ∧ e'.encodedPath < e.encodedPath)
  /-- The selected values stand at their paths. -/
  held : ∀ e ∈ activeSettings state, e.encodedPath ∈ selectedSettings state →
    nestedValue settings e.path = some e.value
  /-- Nothing else is there. -/
  only : ∀ other, nestedValue settings other ≠ none →
    ∃ e ∈ activeSettings state, e.encodedPath ∈ selectedSettings state ∧
      settingPathsOverlap e.path other = true
  /-- Leaves that overlap are reported together. -/
  reported : ∀ e ∈ activeSettings state, ∀ e' ∈ activeSettings state, e ≠ e' →
    settingPathsOverlap e.path e'.path = true → ∃ conflict ∈ conflicts, ∃ paths,
      conflict.address = .settingStructure paths ∧ e.path ∈ paths ∧ e'.path ∈ paths

theorem settingPathsOverlap_eq_true {path other : List JsString} :
    settingPathsOverlap path other ↔ ¬Unrelated path other := by
  rw [← settingPathsOverlap_eq_false, Bool.not_eq_false]

/-- **The settings of a valid replica materialize to a maximal choice of leaves that do not
overlap.** -/
theorem settings_materialize_selected {state : ConvergentSyncState} (valid : ValidState state) :
    ∃ settings conflicts, MaterializesSelected state settings conflicts := by
  have well := valid.shaped.well
  have active := activeSettings_active well
  obtain ⟨settings, returned, held, unset⟩ := materializeSettings_eq_ok well
  obtain ⟨apart, maximal⟩ := selectMaterializedSettingEntries_spec active
  refine ⟨settings, settingConflicts state, returned, ?_, ?_, held, ?_, ?_⟩
  · intro e mem e' mem' selected selected' different
    exact settingPathsOverlap_eq_false.mpr (apart e mem e' mem' selected selected' different)
  · intro e mem out
    obtain ⟨e', mem', selected, different, related, before⟩ := maximal e mem out
    refine ⟨e', mem', selected, settingPathsOverlap_eq_true.mpr related, ?_⟩
    rcases settingPriority_le_iff.mp before with greater | ⟨same, smaller⟩
    · exact .inl greater
    · refine .inr ⟨same, lt_of_le_of_ne smaller fun samePath => different ?_⟩
      exact active.eq_of_key mem' mem samePath
  · intro other present
    by_contra none_
    refine present (unset other fun e mem selected => ?_)
    rw [← settingPathsOverlap_eq_false, ← Bool.not_eq_true]
    exact fun related => none_ ⟨e, mem, selected, related⟩
  · intro e mem e' mem' different related
    obtain ⟨conflict, recorded, paths, address, inPaths, inPaths', -⟩ :=
      exists_structureConflict_of_related active mem mem' different.symm
        (settingPathsOverlap_eq_true.mp related)
    exact ⟨conflict, mem_append_right _ recorded, paths, address, inPaths, inPaths'⟩

/-- A theme that is not nested, and one below it from another device. -/
def overlappingThemes : ConvergentSyncState where
  vector := (SortedMap.empty.set (text "a") 1).set (text "b") 1
  dotOrigins := (SortedMap.empty.set (text "a") (SortedMap.empty.set 1 (registerId (.setting [text "theme"])))).set
    (text "b") (SortedMap.empty.set 1 (registerId (.setting [text "theme", text "mode"])))
  hlc := ⟨2, 0⟩
  collections := .empty
  settings := (SortedMap.empty.set (settingKey [text "theme"])
    { candidates := [⟨{ deviceId := text "a", counter := 1 }, [], ⟨1, 0⟩, some (.str (text "dark"))⟩] }).set
    (settingKey [text "theme", text "mode"])
    { candidates := [⟨{ deviceId := text "b", counter := 1 }, [], ⟨2, 0⟩, some (.str (text "light"))⟩] }
  stringCollections := .empty

/-- The later of two overlapping themes is materialized. -/
theorem settings_materialize_selected_themes :
    (∃ settings conflicts, MaterializesSelected overlappingThemes settings conflicts) ∧
      materializeSettings overlappingThemes =
        .ok ([(text "theme", .obj [(text "mode", .str (text "light"))])],
          settingConflicts overlappingThemes) :=
  ⟨settings_materialize_selected (assertValid_eq_ok.mp (by decide +kernel)), by decide +kernel⟩

/-! ## Local writes -/

/-- The winner of the setting's register has a value. -/
def ActiveSetting (state : ConvergentSyncState) (path : List JsString) : Prop :=
  registerIsPresent (registerAt state (.setting path)) = true

def LeavesApart (state : ConvergentSyncState) : Prop :=
  ∀ path other, ActiveSetting state path → ActiveSetting state other → path ≠ other →
    settingPathsOverlap path other = false

def StandsAlone (state : ConvergentSyncState) (path : List JsString) : Prop :=
  ∀ other, ActiveSetting state other → other ≠ path → settingPathsOverlap path other = false

theorem registerIsPresent_iff {register : Option MultiValueRegister} :
    registerIsPresent register ↔ ∃ c ∈ registerCandidates register, c.value ≠ none := by
  constructor
  · intro present
    cases selected : selectRegisterWinner register with
    | none => simp [registerIsPresent, selected] at present
    | some winner =>
      refine ⟨winner, (selectRegisterWinner_spec selected).1, ?_⟩
      simpa [registerIsPresent, selected, isTombstoneCandidate, isSome_iff_ne_none] using present
  · rintro ⟨c, mem, value⟩
    exact registerIsPresent_of_value mem value

theorem activeSetting_iff {state : ConvergentSyncState} {path : List JsString} :
    ActiveSetting state path ↔ ∃ c ∈ candidatesAt state (.setting path), c.value ≠ none :=
  registerIsPresent_iff

theorem activeSetting_canonicalState {state : ConvergentSyncState} {path : List JsString} :
    ActiveSetting (canonicalState state) path ↔ ActiveSetting state path := by
  simp only [activeSetting_iff, mem_candidatesAt_canonicalState]
  constructor
  · rintro ⟨_, ⟨c, mem, rfl⟩, value⟩
    refine ⟨c, mem, fun none_ => value ?_⟩
    simp [canonicalCandidate, candidateFingerprint, none_]
  · rintro ⟨c, mem, value⟩
    refine ⟨canonicalCandidate c, ⟨c, mem, rfl⟩, ?_⟩
    simpa [canonicalCandidate, candidateFingerprint] using value

section Writes

variable {state state' : ConvergentSyncState} {deviceId : JsString} {now : JsNumber}
  {path : List JsString} {value : Option JsonValue}

theorem activeSetting_settingWrites (well : StoredWell state) (validPath : ValidSettingPath path)
    (ran : runWrites deviceId now state (settingWrites state path value) = .ok state')
    {other : List JsString} (active : ActiveSetting state' other) :
    (other = path ∧ value.isSome) ∨
      other ≠ path ∧ ActiveSetting state other ∧ settingPathIsRelated path other value.isSome = false := by
  have writable := settingWrites_writable well validPath value
  have distinct : ((settingWrites state path value).map RegisterWrite.address).Nodup :=
    settingWrites_distinct well value
  by_cases written : ∃ write ∈ settingWrites state path value, write.address = .setting other
  · obtain ⟨write, mem, at_⟩ := written
    obtain ⟨candidate, stored, same, -⟩ := registerAt_runWrites_of_mem writable distinct ran mem
    have some_ : write.value.isSome := by
      unfold ActiveSetting at active
      rw [← at_, stored, registerIsPresent_iff] at active
      obtain ⟨c, here, value⟩ := active
      rw [registerCandidates_some, mem_singleton] at here
      rw [← same, ← here]
      exact isSome_iff_ne_none.mpr value
    rcases mem_append.mp mem with related | own
    · obtain ⟨key, -, planned⟩ := mem_filterMap.mp related
      rw [(relatedWrite_eq_some planned).1] at some_
      cases some_
    · split at own
      · cases own
      · rw [mem_singleton.mp own] at at_ some_
        exact .inl ⟨(RegisterAddress.setting.inj at_).symm, some_⟩
  · have unwritten : ∀ write ∈ settingWrites state path value, write.address ≠ .setting other :=
      fun write mem same => written ⟨write, mem, same⟩
    have same := registerAt_runWrites writable ran unwritten
    have before : ActiveSetting state other := by
      unfold ActiveSetting at active ⊢
      rwa [same] at active
    by_cases own : other = path
    · -- An active path that is not written is set to the value it has.
      refine .inl ⟨own, ?_⟩
      subst own
      by_contra deleted
      have none_ : value = none := by simpa using deleted
      subst none_
      have unchanged : settingUnchanged (registerAt state (.setting other)) none = true := by
        by_contra changed
        refine unwritten ⟨.setting other, none⟩ (mem_append_right _ ?_) rfl
        rw [if_neg changed]
        exact mem_singleton.mpr rfl
      unfold ActiveSetting registerIsPresent at before
      cases selected : selectRegisterWinner (registerAt state (.setting other)) with
      | none => simp [selected] at before
      | some winner =>
        cases stored : registerAt state (.setting other) with
        | none =>
          rw [stored] at selected
          cases selected
        | some register =>
          rw [stored] at unchanged selected before
          simp only [settingUnchanged, selected, any_some, Bool.and_eq_true] at unchanged
          simp [selected, unchanged.2] at before
    · refine .inr ⟨own, before, ?_⟩
      by_contra related
      obtain ⟨register, stored⟩ := isSome_iff_exists.mp (isSome_of_registerIsPresent before)
      have validOther : ValidSettingPath other := (well.addresses _ _ stored).1
      refine unwritten ⟨.setting other, none⟩ (mem_append_left _ (mem_filterMap.mpr
        ⟨settingKey other, SortedMap.mem_keys_iff_exists.mpr ⟨register, stored⟩, ?_⟩)) rfl
      have differs : settingKey other ≠ settingKey path := fun same =>
        own ((settingKey_inj validOther).mp same.symm).symm
      unfold relatedWrite
      rw [settingPathOf_settingKey validOther, if_pos]
      rw [Bool.and_eq_true, Bool.and_eq_true]
      exact ⟨⟨decide_eq_true differs, by simpa using related⟩, before⟩

/-- A write at a path makes no two active paths overlap. -/
theorem LeavesApart.settingWrites (apart : LeavesApart state) (well : StoredWell state)
    (validPath : ValidSettingPath path)
    (ran : runWrites deviceId now state (settingWrites state path value) = .ok state') :
    LeavesApart state' := by
  have clear : ∀ other, value.isSome → settingPathIsRelated path other value.isSome = false →
      settingPathsOverlap path other = false := by
    intro other set unrelated
    rwa [set, settingPathIsRelated, if_pos rfl] at unrelated
  intro first second active active' different
  rcases activeSetting_settingWrites well validPath ran active with ⟨rfl, set⟩ | ⟨-, before, unrelated⟩
  · rcases activeSetting_settingWrites well validPath ran active' with ⟨rfl, -⟩ | ⟨-, -, unrelated⟩
    · exact absurd rfl different
    · exact clear second set unrelated
  · rcases activeSetting_settingWrites well validPath ran active' with ⟨rfl, set⟩ | ⟨-, before', -⟩
    · rw [settingPathsOverlap_eq_false]
      exact (settingPathsOverlap_eq_false.mp (clear first set unrelated)).symm
    · exact apart first second before before' different

theorem activeSetting_of_unwritten {mutation : ConvergentMutation} (well : StoredWell state)
    (ok : MutationOk state mutation)
    (ran : applyMutation state deviceId mutation now = .ok state')
    (others : ∀ write ∈ mutationWrites state mutation, write.address.isSetting = false) :
    ActiveSetting state' = ActiveSetting state := by
  rw [applyMutation_eq_runWrites well ok] at ran
  funext path
  have unwritten : ∀ write ∈ mutationWrites state mutation, write.address ≠ .setting path := by
    intro write mem at_
    have other := others write mem
    rw [at_] at other
    cases other
  have same := registerAt_runWrites (mutationWrites_writable well ok) ran unwritten
  have opened : candidatesAt (openMutation state mutation) (.setting path) =
      candidatesAt state (.setting path) := by
    rcases openMutation_eq ok with same | ⟨address, -, same⟩
    · rw [same]
    · rw [same, candidatesAt_openParent]
  refine propext ?_
  rw [activeSetting_iff, activeSetting_iff, ← opened, candidatesAt, same]
  exact Iff.rfl

theorem isSetting_mutationWrites {mutation : ConvergentMutation}
    (set : ∀ path value, mutation ≠ .settingSet path value) (delete : ∀ path, mutation ≠ .settingDelete path)
    (resolve : ∀ path value tombstone, mutation ≠ .resolveRegister (.setting path) value tombstone) :
    ∀ write ∈ mutationWrites state mutation, write.address.isSetting = false := by
  intro write mem
  cases mutation with
  | entityUpsert collection entityId value position =>
    rcases mem_append.mp mem with contents | presence
    · rcases mem_append.mp contents with fields | positions
      · obtain ⟨field, -, planned⟩ := mem_filterMap.mp fields
        rw [fieldWrite_address planned]
        rfl
      · rw [positionWrite_address (by simpa using positions)]
        rfl
    · rw [presenceWrites_address presence]
      rfl
  | entityFieldSet collection entityId field value =>
    simp only [mutationWrites] at mem
    split at mem
    · simp only [mem_cons, not_mem_nil, or_false] at mem
      rcases mem with rfl | rfl
      · rfl
      · rfl
    · cases mem
  | entityFieldDelete collection entityId field =>
    simp only [mutationWrites] at mem
    split at mem
    · rcases mem_cons.mp mem with rfl | presence
      · rfl
      · split at presence
        · rw [mem_singleton.mp presence]
          rfl
        · cases presence
    · cases mem
  | entityDelete collection entityId =>
    rw [mem_singleton.mp mem]
    rfl
  | settingSet path value => exact absurd rfl (set path value)
  | settingDelete path => exact absurd rfl (delete path)
  | stringEntryAdd collection value position =>
    rcases mem_append.mp mem with contents | presence
    · rw [positionWrite_address (by simpa using contents)]
      rfl
    · rw [presenceWrites_address presence]
      rfl
  | stringEntryDelete collection value =>
    simp only [mutationWrites] at mem
    split at mem
    · rw [mem_singleton.mp mem]
      rfl
    · cases mem
  | resolveRegister address value tombstone =>
    cases address with
    | setting path => exact absurd rfl (resolve path value tombstone)
    | _ =>
      rw [mem_singleton.mp mem]
      rfl

theorem LeavesApart.applyMutation {mutation : ConvergentMutation} (apart : LeavesApart state)
    (well : StoredWell state) (ran : applyMutation state deviceId mutation now = .ok state') :
    LeavesApart state' := by
  have ok := mutationOk_of_applyMutation ran
  have others : (∀ write ∈ mutationWrites state mutation, write.address.isSetting = false) →
      LeavesApart state' := by
    intro others
    have same := activeSetting_of_unwritten well ok ran others
    intro first second active active' different
    rw [same] at active active'
    exact apart first second active active' different
  have written := ran
  rw [applyMutation_eq_runWrites well ok] at written
  cases mutation with
  | settingSet path value => exact apart.settingWrites well ok written
  | settingDelete path => exact apart.settingWrites well ok written
  | resolveRegister address value tombstone =>
    cases address with
    | setting path =>
      obtain ⟨register, stored⟩ := isSome_iff_exists.mp ok.1
      exact apart.settingWrites well (well.addresses _ _ stored).1 written
    | _ => exact others (isSetting_mutationWrites (by simp) (by simp) (by simp))
  | _ => exact others (isSetting_mutationWrites (by simp) (by simp) (by simp))

theorem LeavesApart.applyMutations {history : History} {mutations : List ConvergentMutation}
    (apart : LeavesApart state) (well : StoredWell state) (represents : Represents history state)
    (ran : applyMutations deviceId now state mutations = .ok state') : LeavesApart state' := by
  induction mutations generalizing history state with
  | nil =>
    cases ran
    exact apart
  | cons mutation mutations ih =>
    obtain ⟨next, head, rest⟩ := applyMutations_cons_eq_ok.mp ran
    obtain ⟨well', history', evolves⟩ := applyMutation_evolves well represents head
    exact ih (apart.applyMutation well head) well' evolves.represents rest

theorem applyMutations_append_eq_ok {first second : List ConvergentMutation} :
    applyMutations deviceId now state (first ++ second) = .ok state' ↔
      ∃ next, applyMutations deviceId now state first = .ok next ∧
        applyMutations deviceId now next second = .ok state' := by
  unfold Netcatty.applyMutations
  rw [List.foldlM_append, bind_eq_ok]

/-- **Batches of local writes keep active leaves apart, and a set leaves its path alone, whatever
overlapped before.** -/
theorem local_writes_keep_leaves_apart {mutations : List ConvergentMutation}
    (ran : applyConvergentMutations state deviceId mutations now = .ok state') :
    (LeavesApart state → LeavesApart state') ∧
      ∀ before path value, mutations = before ++ [.settingSet path value] → StandsAlone state' path := by
  obtain ⟨valid, -, next, applied, -, rfl⟩ := applyConvergentMutations_eq_ok.mp ran
  obtain ⟨history, represents⟩ := exists_represents valid.canonical
  have well := valid.canonical.shaped.well
  constructor
  · intro apart
    have start : LeavesApart (canonicalState state) := by
      intro first second active active' different
      exact apart first second (activeSetting_canonicalState.mp active)
        (activeSetting_canonicalState.mp active') different
    have done := start.applyMutations well represents applied
    intro first second active active' different
    exact done first second (activeSetting_canonicalState.mp active)
      (activeSetting_canonicalState.mp active') different
  · rintro before path value rfl other active different
    rw [applyMutations_append_eq_ok] at applied
    obtain ⟨middle, first, last⟩ := applied
    obtain ⟨well', -⟩ := applyMutations_evolves well represents first
    obtain ⟨after, set, done⟩ := applyMutations_cons_eq_ok.mp last
    cases done
    have ok := mutationOk_of_applyMutation set
    rw [applyMutation_eq_runWrites well' ok] at set
    rcases activeSetting_settingWrites well' ok set (activeSetting_canonicalState.mp active) with
      ⟨same, -⟩ | ⟨-, -, unrelated⟩
    · exact absurd same different
    · exact unrelated

end Writes

/-- A nested theme is set, and then a theme that replaces it. -/
theorem local_writes_keep_leaves_apart_themes :
    ∃ state', applyConvergentMutations createConvergentSyncState (text "a")
        [.settingSet [text "theme", text "mode"] (.str (text "light")),
          .settingSet [text "theme"] (.str (text "dark"))] (.finite 1) = .ok state' ∧
      LeavesApart state' ∧ StandsAlone state' [text "theme"] := by
  have nothing : LeavesApart createConvergentSyncState := by
    intro path other active
    cases active
  cases ran : applyConvergentMutations createConvergentSyncState (text "a")
      [.settingSet [text "theme", text "mode"] (.str (text "light")),
        .settingSet [text "theme"] (.str (text "dark"))] (.finite 1) with
  | error error =>
    have returned : (applyConvergentMutations createConvergentSyncState (text "a")
        [.settingSet [text "theme", text "mode"] (.str (text "light")),
          .settingSet [text "theme"] (.str (text "dark"))] (.finite 1)).toOption.isSome = true := by
      decide +kernel
    rw [ran] at returned
    cases returned
  | ok state' =>
    have kept := local_writes_keep_leaves_apart ran
    exact ⟨state', rfl, kept.1 nothing, kept.2 [.settingSet [text "theme", text "mode"] (.str (text "light"))]
      [text "theme"] (.str (text "dark")) rfl⟩

end Netcatty
