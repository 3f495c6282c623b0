import Netcatty.ConvergentProgress
import Netcatty.ConvergentSettled

/-!
Resolving a conflict, the first half of `conflicts.ts`.

A resolution writes the chosen candidate's value through one of the two write
paths of `resolve-register`.  Either leaves the register settled on that value,
and a setting alone among the active leaves when the value is not a tombstone
(`resolution_is_decisive_and_stable`).  The new state covers every dot of the old
one, so a replica that the old state covered brings nothing back.
-/

namespace Netcatty

open List Option

/-! ## The source -/

/-- `selectedAddress`. -/
def selectedAddress (conflict : ConvergentFieldConflict) (candidate : ConvergentConflictCandidate) :
    Checked RegisterAddress :=
  match conflict.address with
  | .register address => .ok address
  | .settingStructure _ =>
    match candidate.settingPath with
    | some (segment :: rest) => .ok (.setting (segment :: rest))
    | _ => .error (.error (text "A setting-structure candidate must identify its setting path"))

def resolution (address : RegisterAddress) (candidate : ConvergentConflictCandidate) : ConvergentMutation :=
  if candidate.tombstone then .resolveRegister address none true
  else .resolveRegister address candidate.value false

/-- `resolveConvergentFieldConflict`. -/
def resolveConvergentFieldConflict (state : ConvergentSyncState) (conflict : ConvergentFieldConflict)
    (candidateDot deviceId : JsString) (now : JsNumber) : Checked ConvergentSyncState :=
  match conflict.candidates.find? fun entry => dotKey entry.dot = candidateDot with
  | none => .error (.error (text "The selected convergent conflict candidate no longer exists"))
  | some candidate => do
    ensure (candidate.tombstone || candidate.value.isSome)
      (.error (text "The selected convergent conflict candidate has no value"))
    let address ← selectedAddress conflict candidate
    applyConvergentMutations state deviceId [resolution address candidate] now

/-! ## What a resolution achieves -/

/-- The register materializes this value and no conflict involves it any more. -/
structure Decided (state : ConvergentSyncState) (result : MaterializedConvergentSyncState)
    (address : RegisterAddress) (value : Option JsonValue) : Prop where
  materialized : materializedValue (registerAt state address) = value
  unreported : ∀ conflict ∈ result.conflicts, conflict.address ≠ .register address
  apart : ∀ path, address = .setting path → ∀ conflict ∈ result.conflicts, ∀ paths,
    conflict.address = .settingStructure paths → path ∉ paths

section Candidates

variable {state : ConvergentSyncState} {conflict : ConvergentFieldConflict}
  {k : ConvergentConflictCandidate}

theorem exists_listed (valid : ValidState state) (reported : conflict ∈ snapshotConflicts state)
    (listed : k ∈ conflict.candidates) :
    ∃ address, selectedAddress conflict k = .ok address ∧
      ∃ c ∈ candidatesAt state address, k.dot = c.dot ∧ k.value = c.value ∧ k.tombstone = c.value.isNone := by
  have well := valid.shaped.well
  rcases mem_snapshotConflicts well reported with ⟨address, register, stored, recorded⟩ | structure_
  · obtain ⟨here, candidates⟩ := mem_maybeRecordConflict recorded
    obtain ⟨c, mem, dot, value, tombstone, -⟩ := candidates k listed
    refine ⟨address, by rw [selectedAddress, here], c, ?_, dot, value, tombstone⟩
    rw [candidatesAt, stored]
    exact mem
  · obtain ⟨paths, here, related, candidates⟩ := mem_recordSettingStructureConflicts well structure_
    obtain ⟨path, -, named, c, mem, dot, value, tombstone⟩ := candidates k listed
    refine ⟨.setting path, ?_, c, mem, dot, value, tombstone⟩
    have nonEmpty : path ≠ [] := by
      obtain ⟨register, stored⟩ : ∃ register, registerAt state (.setting path) = some register := by
        rw [candidatesAt] at mem
        cases stored : registerAt state (.setting path) with
        | none =>
          rw [stored] at mem
          cases mem
        | some register => exact ⟨register, rfl⟩
      exact (well.addresses _ _ stored).1.1
    rw [selectedAddress, here]
    obtain ⟨segment, rest, rfl⟩ := exists_cons_of_ne_nil nonEmpty
    simp only [named]

theorem eq_of_dot_eq (valid : ValidState state) {a a' : RegisterAddress} {c c' : RegisterCandidate}
    (mem : c ∈ candidatesAt state a) (mem' : c' ∈ candidatesAt state a') (same : c.dot = c'.dot) :
    a = a' ∧ c = c' := by
  have origin : ∀ address, ∀ d ∈ candidatesAt state address,
      state.origin d.dot = some (registerId address) := by
    intro address d here
    cases stored : registerAt state address with
    | none =>
      rw [candidatesAt, stored] at here
      cases here
    | some register =>
      rw [candidatesAt, stored, registerCandidates_some] at here
      exact ((valid.stored address register stored).2.candidates d here).dot.origin
  have ids := (origin a c mem).symm.trans ((congrArg _ same).trans (origin a' c' mem'))
  rw [Option.some.injEq, registerId_inj] at ids
  subst ids
  exact ⟨rfl, dotsDistinct_of_pairwise (valid.distinct a) c mem c' mem' same⟩

theorem accepts_congr (address : RegisterAddress) {c d : RegisterCandidate} (same : c.value = d.value) :
    (valueValidator address).accepts c = (valueValidator address).accepts d := by
  cases address <;>
    simp only [valueValidator, presenceValidator, positionValidator, anyValidator, isTombstoneCandidate, same]

/-- The call finds the candidate it is given the dot of. -/
theorem resolveConvergentFieldConflict_eq (valid : ValidState state)
    (reported : conflict ∈ snapshotConflicts state) (listed : k ∈ conflict.candidates)
    {address : RegisterAddress} (named : selectedAddress conflict k = .ok address)
    (deviceId : JsString) (now : JsNumber) :
    resolveConvergentFieldConflict state conflict (dotKey k.dot) deviceId now =
      applyConvergentMutations state deviceId [.resolveRegister address k.value k.value.isNone] now := by
  obtain ⟨own, named', c, mem, dot, value, -⟩ := exists_listed valid reported listed
  obtain rfl : address = own := Except.ok.inj (named.symm.trans named')
  unfold resolveConvergentFieldConflict
  cases found : conflict.candidates.find? fun entry => dotKey entry.dot = dotKey k.dot with
  | none =>
    have missed := find?_eq_none.mp found k listed
    simp at missed
  | some k' =>
    have listed' := mem_of_find?_eq_some found
    have same := (find?_eq_some_iff_append.mp found).1
    rw [decide_eq_true_eq, dotKey_inj] at same
    obtain ⟨address', named'', c', mem', dot', value', tombstone'⟩ := exists_listed valid reported listed'
    obtain ⟨sameAddress, rfl⟩ := eq_of_dot_eq valid mem' mem (dot'.symm.trans (same.trans dot))
    subst sameAddress
    have checked : (k'.tombstone || k'.value.isSome) = true := by
      rw [tombstone', value']
      cases c'.value <;> rfl
    have written : resolution address' k' = .resolveRegister address' k.value k.value.isNone := by
      rw [resolution, tombstone', value', value]
      cases c'.value <;> rfl
    simp only [ensure, checked, if_true, ok_bind, named'', written]

end Candidates

section Writes

variable {state state' : ConvergentSyncState} {deviceId : JsString} {now : JsNumber}
  {path : List JsString} {value : Option JsonValue} {address : RegisterAddress}

theorem settled_settingWrites (well : StoredWell state) (validPath : ValidSettingPath path)
    (ran : runWrites deviceId now state (settingWrites state path value) = .ok state') :
    Settled (registerAt state' (.setting path)) value := by
  have writable := settingWrites_writable well validPath value
  have distinct : ((settingWrites state path value).map RegisterWrite.address).Nodup :=
    settingWrites_distinct well value
  cases unchanged : settingUnchanged (registerAt state (.setting path)) value with
  | false =>
    have own : ⟨.setting path, value⟩ ∈ settingWrites state path value := by
      refine mem_append_right _ ?_
      rw [if_neg (by simp [unchanged])]
      exact mem_singleton.mpr rfl
    exact settled_of_mem writable distinct ran own
  | true =>
    have unwritten : ∀ write ∈ settingWrites state path value, write.address ≠ .setting path := by
      intro write mem here
      rcases mem_append.mp mem with related | own
      · obtain ⟨key, inState, planned⟩ := mem_filterMap.mp related
        obtain ⟨rfl, other, -⟩ := relatedWrite_eq_some planned
        obtain ⟨-, keyOf⟩ := settingKey_settingPathOf well inState
        rw [RegisterAddress.setting.injEq] at here
        exact other (keyOf.symm.trans (congrArg settingKey here))
      · rw [if_pos unchanged] at own
        cases own
    rw [registerAt_runWrites writable ran unwritten]
    exact settled_of_settingUnchanged unchanged

/-- **A resolution settles its register**, and leaves a setting that has a value alone. -/
theorem settled_resolveRegister (well : StoredWell state) {tombstone : Bool}
    (ran : applyMutation state deviceId (.resolveRegister address value tombstone) now = .ok state') :
    Settled (registerAt state' address) value ∧
      ∀ path, address = .setting path → value.isSome → StandsAlone state' path := by
  have ok := mutationOk_of_applyMutation ran
  have writable := mutationWrites_writable well ok
  have distinct := mutationWrites_distinct well (.resolveRegister address value tombstone)
  rw [applyMutation_eq_runWrites well ok] at ran
  obtain ⟨register, stored⟩ := isSome_iff_exists.mp ok.1
  have validAddress := well.addresses address register stored
  cases address with
  | setting path =>
    refine ⟨settled_settingWrites well validAddress.1 ran, ?_⟩
    intro other' here isValue other active different
    cases here
    rcases activeSetting_settingWrites well validAddress.1 ran active with ⟨same, -⟩ | ⟨-, -, unrelated⟩
    · exact absurd same different
    · rwa [isValue, settingPathIsRelated, if_pos rfl] at unrelated
  | _ =>
    refine ⟨settled_of_mem writable distinct ran (mem_singleton.mpr rfl), fun path here => ?_⟩
    cases here

theorem Settled.decided (valid : ValidState state) (settled : Settled (registerAt state address) value)
    (alone : ∀ path, address = .setting path → value.isSome → StandsAlone state path)
    {result : MaterializedConvergentSyncState} (snapshot : IsSnapshot (canonicalState state) result) :
    Decided (canonicalState state) result address (value.map canonicalizeJson) := by
  have well := valid.canonical.shaped.well
  refine ⟨settled.materializedAt, fun conflict reported => settled.canonicalAt.unreported well
    ((snapshot.conflicts conflict).mp reported), ?_⟩
  rintro path rfl conflict reported paths here inPaths
  rcases mem_snapshotConflicts well ((snapshot.conflicts conflict).mp reported) with
    ⟨_, _, _, recorded⟩ | structure_
  · rw [(mem_maybeRecordConflict recorded).1] at here
    cases here
  · obtain ⟨paths', here', related, -⟩ := mem_recordSettingStructureConflicts well structure_
    rw [here', ConvergentConflictAddress.settingStructure.injEq] at here
    subst here
    obtain ⟨active, other, active', different, overlap⟩ := related path inPaths
    cases value with
    | none =>
      -- A tombstone is no active leaf.
      have absent := registerIsPresent_eq_false.mpr settled.canonicalAt
      rw [ActiveSetting, absent] at active
      cases active
    | some v =>
      rw [alone path rfl rfl other (activeSetting_canonicalState.mp active') different] at overlap
      cases overlap

theorem dots_subset_applyMutations {mutations : List ConvergentMutation} {history : History}
    (well : StoredWell state) (represents : Represents history state)
    (ran : applyMutations deviceId now state mutations = .ok state') :
    state.vector.dots ⊆ state'.vector.dots := by
  obtain ⟨-, history', evolves⟩ := applyMutations_evolves well represents ran
  exact evolves.dots_subset

end Writes

section Stability

variable {states : List ConvergentSyncState} {S R : ConvergentSyncState} {deviceId : JsString}
  {now : JsNumber}

/-- **A batch is stable**: replicas that the state before it covered bring nothing back. -/
theorem merge_of_covered {mutations : List ConvergentMutation} (execution : Execution states)
    (mem : S ∈ states) (ran : applyConvergentMutations S deviceId mutations now = .ok R)
    {D : ConvergentSyncState} (mem' : D ∈ states)
    (covered : versionVectorDominates S.vector D.vector) :
    ∃ text, serializeConvergentSyncState R = .ok text ∧
      (mergeConvergentSyncStates R D >>= serializeConvergentSyncState) = .ok text ∧
      (mergeConvergentSyncStates D R >>= serializeConvergentSyncState) = .ok text := by
  obtain ⟨history, replicas⟩ := execution.exists_history
  have before := replicas S mem
  have counters := versionVectorDominates_iff.mp covered
  obtain ⟨history', after, others⟩ := before.apply ran
  have stale := others D (replicas D mem') (counters deviceId)
  obtain ⟨-, -, next, batch, -, rfl⟩ := applyConvergentMutations_eq_ok.mp ran
  rw [before.canonical] at batch
  have grown := dots_subset_applyMutations before.shaped.well before.represents batch
  have inside : D.vector.dots ⊆ (canonicalState next).vector.dots :=
    (dots_subset_iff.mpr counters).trans grown
  refine ⟨canonicalState next, after.serialize, ?_, ?_⟩
  · rw [after.merge_eq stale after (Set.union_eq_self_of_subset_right inside).symm, ok_bind,
      after.serialize]
  · rw [stale.merge_eq after after (Set.union_eq_self_of_subset_left inside).symm, ok_bind,
      after.serialize]

/-- **Resolving a reported conflict decides it, for good.**  With a device name and room for the
writes the call returns; the register of the chosen candidate materializes its value and is in no
conflict, and a join with a replica the state had covered changes nothing. -/
theorem resolution_is_decisive_and_stable (execution : Execution states) (mem : S ∈ states)
    {snapshot : MaterializedConvergentSyncState} (made : materializeConvergentSyncState S = .ok snapshot)
    {conflict : ConvergentFieldConflict} (reported : conflict ∈ snapshot.conflicts)
    {k : ConvergentConflictCandidate} (listed : k ∈ conflict.candidates) (deviceId : JsString)
    (now : JsNumber) :
    ∃ address, selectedAddress conflict k = .ok address ∧
      (deviceId ≠ [] → (∀ reached, Meets deviceId now S [resolution address k] reached →
        HasRoom deviceId now reached) →
        ∃ R, resolveConvergentFieldConflict S conflict (dotKey k.dot) deviceId now = .ok R) ∧
      ∀ R, resolveConvergentFieldConflict S conflict (dotKey k.dot) deviceId now = .ok R →
        (∃ result, materializeConvergentSyncState R = .ok result ∧ Decided R result address k.value) ∧
        ∀ D ∈ states, versionVectorDominates S.vector D.vector = true →
          ∃ text, serializeConvergentSyncState R = .ok text ∧
            (mergeConvergentSyncStates R D >>= serializeConvergentSyncState) = .ok text ∧
            (mergeConvergentSyncStates D R >>= serializeConvergentSyncState) = .ok text := by
  obtain ⟨history, replicas⟩ := execution.exists_history
  have replica := replicas S mem
  have valid := replica.valid
  obtain ⟨snapshot', made', isSnapshot⟩ := materializeConvergentSyncState_eq_ok valid
  obtain rfl : snapshot = snapshot' := Except.ok.inj (made.symm.trans made')
  have reported := (isSnapshot.conflicts conflict).mp reported
  obtain ⟨address, named, c, inRegister, -, value, tombstone⟩ := exists_listed valid reported listed
  have call := resolveConvergentFieldConflict_eq valid reported listed named deviceId now
  obtain ⟨register, stored⟩ : ∃ register, registerAt S address = some register := by
    cases stored : registerAt S address with
    | none =>
      rw [candidatesAt, stored] at inRegister
      cases inRegister
    | some register => exact ⟨register, rfl⟩
  have canonicalValue : k.value.map canonicalizeJson = k.value := by
    have stored' := stored
    rw [← replica.canonical, registerAt_canonicalState] at stored'
    obtain ⟨original, -, same⟩ := map_eq_some_iff.mp stored'
    rw [candidatesAt, stored, registerCandidates_some, ← same] at inRegister
    rw [value]
    exact congrArg RegisterCandidate.value ((canonicalRegister_canonical original).1 c inRegister)
  refine ⟨address, named, fun device room => ?_, fun R ran => ⟨?_, ?_⟩⟩
  · have ok : MutationOk S (.resolveRegister address k.value k.value.isNone) :=
      ⟨by rw [stored]; rfl, rfl⟩
    have accepted : ResolutionAccepted (.resolveRegister address k.value k.value.isNone) := by
      intro d same
      rw [accepts_congr address (same.trans value)]
      exact replica.shaped.values address c inRegister
    have batch : BatchOk deviceId now S [.resolveRegister address k.value k.value.isNone] :=
      ⟨ok, accepted, fun _ _ => trivial⟩
    have written : resolution address k = .resolveRegister address k.value k.value.isNone := by
      rw [resolution, tombstone, value]
      cases c.value <;> rfl
    rw [written] at room
    obtain ⟨next, history', ran, shaped, evolves⟩ := applyMutations_progress device replica.represents
      replica.shaped batch room
    refine ⟨canonicalState next, ?_⟩
    rw [call]
    refine applyConvergentMutations_eq_ok.mpr ⟨valid, device, next, ?_,
      ValidState.of_represents evolves.represents shaped, rfl⟩
    rw [replica.canonical]
    exact ran
  · rw [call] at ran
    obtain ⟨-, -, next, batch, validNext, rfl⟩ := applyConvergentMutations_eq_ok.mp ran
    rw [replica.canonical] at batch
    obtain ⟨_, resolved, done⟩ := applyMutations_cons_eq_ok.mp batch
    cases done
    obtain ⟨settled, alone⟩ := settled_resolveRegister replica.shaped.well resolved
    obtain ⟨result, made, snapshot⟩ := materializeConvergentSyncState_eq_ok validNext.canonical
    refine ⟨result, made, ?_⟩
    rw [← canonicalValue]
    exact settled.decided validNext alone snapshot
  · rw [call] at ran
    exact fun D mem' covered => merge_of_covered execution mem ran mem' covered

end Stability

/-! ## Two themes chosen offline -/

/-- The join of two devices' edits of the theme. -/
def themesJoined : ConvergentSyncState where
  vector := (SortedMap.empty.set (text "a") 1).set (text "b") 1
  dotOrigins := (SortedMap.empty.set (text "a")
    (SortedMap.empty.set 1 (registerId (.setting [text "theme"])))).set (text "b")
    (SortedMap.empty.set 1 (registerId (.setting [text "theme"])))
  hlc := ⟨1, 0⟩
  collections := .empty
  settings := SortedMap.empty.set (settingKey [text "theme"])
    { candidates := [⟨{ deviceId := text "a", counter := 1 }, [], ⟨1, 0⟩, some (.str (text "dark"))⟩,
      ⟨{ deviceId := text "b", counter := 1 }, [], ⟨1, 0⟩, some (.str (text "light"))⟩] }
  stringCollections := .empty

def darkTheme : ConvergentConflictCandidate where
  dot := { deviceId := text "a", counter := 1 }
  hlc := ⟨1, 0⟩
  tombstone := false
  value := some (.str (text "dark"))
  settingPath := none
  selected := false

def themesConflict : ConvergentFieldConflict where
  address := .register (.setting [text "theme"])
  candidates := [darkTheme, { darkTheme with
    dot := { deviceId := text "b", counter := 1 }, value := some (.str (text "light")), selected := true }]

/-- The first device chooses its own theme, and the edits come back. -/
theorem resolution_is_decisive_and_stable_themes :
    ∃ R, resolveConvergentFieldConflict themesJoined themesConflict (dotKey darkTheme.dot) (text "a")
        (.finite 2) = .ok R ∧
      (∃ result, materializeConvergentSyncState R = .ok result ∧
        Decided R result (.setting [text "theme"]) (some (.str (text "dark")))) ∧
      ∃ text', serializeConvergentSyncState R = .ok text' ∧
        (mergeConvergentSyncStates R (themeEdit (text "b") (text "light")) >>=
          serializeConvergentSyncState) = .ok text' ∧
        (mergeConvergentSyncStates (themeEdit (text "b") (text "light")) R >>=
          serializeConvergentSyncState) = .ok text' := by
  have joined : mergeConvergentSyncStates (themeEdit (text "a") (text "dark"))
      (themeEdit (text "b") (text "light")) = .ok themesJoined := by decide +kernel
  have execution : Execution [themesJoined, themeEdit (text "b") (text "light"),
      themeEdit (text "a") (text "dark"), createConvergentSyncState] :=
    .merge execution_themeEdits (by simp) (by simp) joined
  cases made : materializeConvergentSyncState themesJoined with
  | error error =>
    have returned : (materializeConvergentSyncState themesJoined).toOption.isSome = true := by
      decide +kernel
    rw [made] at returned
    cases returned
  | ok snapshot =>
    have conflicts : (materializeConvergentSyncState themesJoined).toOption.map
        MaterializedConvergentSyncState.conflicts = some [themesConflict] := by decide +kernel
    rw [made] at conflicts
    have reported : themesConflict ∈ snapshot.conflicts := by
      rw [Option.some.inj conflicts]
      exact mem_singleton.mpr rfl
    cases ran : resolveConvergentFieldConflict themesJoined themesConflict (dotKey darkTheme.dot)
        (text "a") (.finite 2) with
    | error error =>
      have returned : (resolveConvergentFieldConflict themesJoined themesConflict
          (dotKey darkTheme.dot) (text "a") (.finite 2)).toOption.isSome = true := by decide +kernel
      rw [ran] at returned
      cases returned
    | ok R =>
      obtain ⟨address, named, -, decided⟩ := resolution_is_decisive_and_stable execution
        mem_cons_self made reported mem_cons_self (text "a") (.finite 2)
      cases named
      obtain ⟨shown, stable⟩ := decided R ran
      exact ⟨R, rfl, shown, stable (themeEdit (text "b") (text "light")) (by simp) (by decide +kernel)⟩

end Netcatty
