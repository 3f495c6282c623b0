import Netcatty.ConvergentSnapshot

/-!
No effective local write is silently lost by a join.

A write's candidate carries a dot that a replica which has not seen later dots of
the device cannot have observed, so the join keeps it.  What a snapshot does with
a retained value is then a matter of the merged replica alone: it is materialized
or listed in a conflict (`value_materialized_or_listed`).
-/

namespace Netcatty

open List Option SortedMap

/-! ## What a snapshot shows -/

variable (result : MaterializedConvergentSyncState)

/-- The snapshot lists the entity. -/
def ShowsEntity (collection entityId : JsString) : Prop :=
  ∃ entities, result.collections.get? collection = some entities ∧
    ∃ entity ∈ entities, getOwnRecordValue entity (text "id") = some (.str entityId)

def ShowsEntry (collection value : JsString) : Prop :=
  ∃ entries, result.stringCollections.get? collection = some entries ∧ value ∈ entries

/-- The value is what the snapshot makes of a register.  A presence materializes
as its entity or entry, a position as the value the snapshot orders by. -/
def MaterializesAt (state : ConvergentSyncState) (result : MaterializedConvergentSyncState) :
    RegisterAddress → JsonValue → Prop
  | .entityPresence collection entityId, _ => ShowsEntity result collection entityId
  | .entityField collection entityId field, value =>
    ∃ entities, result.collections.get? collection = some entities ∧
      ∃ entity ∈ entities, getOwnRecordValue entity (text "id") = some (.str entityId) ∧
        getOwnRecordValue entity field = some value
  | .setting path, value => nestedValue result.settings path = some value
  | .stringEntryPresence collection entry, _ => ShowsEntry result collection entry
  | .entityPosition collection entityId, value =>
    materializedValue (registerAt state (.entityPosition collection entityId)) = some value
  | .stringEntryPosition collection entry, value =>
    materializedValue (registerAt state (.stringEntryPosition collection entry)) = some value

/-- A conflict of the register, or a structure conflict of its setting, lists the
candidate with its value. -/
def ConflictLists (address : RegisterAddress) (dot : Dot)
    (value : JsonValue) : Prop :=
  ∃ conflict ∈ result.conflicts,
    (conflict.address = .register address ∨ ∃ path paths, address = .setting path ∧
      conflict.address = .settingStructure paths ∧ path ∈ paths) ∧
    ∃ listed ∈ conflict.candidates, listed.dot = dot ∧ listed.value = some value

/-- The mutations that write a value: `entity-upsert`, `entity-field-set`,
`setting-set` and `string-entry-add`. -/
def ConvergentMutation.WritesValue : ConvergentMutation → Prop
  | .entityUpsert _ _ _ _ | .entityFieldSet _ _ _ _ | .settingSet _ _ | .stringEntryAdd _ _ _ => True
  | _ => False

def MutationShown : ConvergentMutation → Prop
  | .entityUpsert collection entityId _ _ => ShowsEntity result collection entityId
  | .entityFieldSet collection entityId _ _ => ShowsEntity result collection entityId
  | .stringEntryAdd collection value _ => ShowsEntry result collection value
  | _ => True

section Snapshot

variable {state : ConvergentSyncState} {result : MaterializedConvergentSyncState}

theorem entity_of_presence (snapshot : IsSnapshot state result) {c e : JsString}
    (present : registerIsPresent (registerAt state (.entityPresence c e))) :
    ∃ entity, findEntity state c e = some entity ∧
      (∃ entities, result.collections.get? c = some entities ∧ entityValue (e, entity) ∈ entities) ∧
      registerIsPresent (some entity.presence) ∧ ∀ conflict ∈ entityConflicts c (e, entity), conflict ∈ result.conflicts := by
  obtain ⟨register, stored⟩ := isSome_iff_exists.mp (isSome_of_registerIsPresent present)
  obtain ⟨entity, found, rfl⟩ := map_eq_some_iff.mp stored
  rw [stored] at present
  obtain ⟨collection, inState, inCollection⟩ := bind_eq_some_iff.mp found
  refine ⟨entity, found, ⟨(materializeCollection collection).map MaterializedEntity.value, ?_,
    List.mem_map.mpr ⟨⟨e, positionOf (materializedValue entity.position),
    entityValue (e, entity)⟩, mem_materializeCollection.mpr ⟨e, entity, inCollection, ?_⟩, rfl⟩⟩,
    present, fun conflict mem => (snapshot.conflicts conflict).mpr ?_⟩
  · rw [snapshot.collections, get?_mapValues, inState]
    rfl
  · rw [materializeEntity, if_pos present]
  · exact mem_append_left _ (mem_append_left _ (mem_flatMap.mpr ⟨(c, collection),
      SortedMap.mem_entries.mpr inState, mem_flatMap.mpr ⟨(e, entity),
        SortedMap.mem_entries.mpr inCollection, mem⟩⟩))

theorem entry_of_presence (snapshot : IsSnapshot state result) {c x : JsString}
    (present : registerIsPresent (registerAt state (.stringEntryPresence c x))) :
    ∃ entry, findStringEntry state c x = some entry ∧ ShowsEntry result c x ∧
      registerIsPresent (some entry.presence) ∧ ∀ conflict ∈ stringEntryConflicts c (x, entry), conflict ∈ result.conflicts := by
  obtain ⟨register, stored⟩ := isSome_iff_exists.mp (isSome_of_registerIsPresent present)
  obtain ⟨entry, found, rfl⟩ := map_eq_some_iff.mp stored
  rw [stored] at present
  obtain ⟨collection, inState, inCollection⟩ := bind_eq_some_iff.mp found
  refine ⟨entry, found, ⟨(materializeStringCollection collection).map MaterializedEntry.value, ?_,
    List.mem_map.mpr ⟨⟨x, positionOf (materializedValue entry.position)⟩, mem_materializeStringCollection.mpr ⟨x, entry, inCollection, ?_⟩, rfl⟩⟩,
    present, fun conflict mem => (snapshot.conflicts conflict).mpr ?_⟩
  · rw [snapshot.stringCollections, get?_mapValues, inState]
    rfl
  · rw [materializeStringEntry, if_pos present]
  · exact mem_append_right _ (mem_flatMap.mpr ⟨(c, collection),
      SortedMap.mem_entries.mpr inState, mem_flatMap.mpr ⟨(x, entry),
        SortedMap.mem_entries.mpr inCollection, mem⟩⟩)

theorem noStructuralId (valid : ValidState state) {c e : JsString} {entity : ConvergentEntityState}
    (found : findEntity state c e = some entity) : entity.fields.get? (text "id") = none := by
  by_contra stored
  obtain ⟨register, inFields⟩ := ne_none_iff_exists'.mp stored
  have structural := (valid.stored (.entityField c e (text "id")) register (by
    simp [registerAt, found, inFields])).1.2
  simp [RegisterAddress.isStructuralId] at structural

theorem showsEntity_of_present (valid : ValidState state) (snapshot : IsSnapshot state result)
    {c e : JsString} (present : registerIsPresent (registerAt state (.entityPresence c e))) :
    ShowsEntity result c e := by
  obtain ⟨entity, found, ⟨entities, inResult, mem⟩, _⟩ := entity_of_presence snapshot present
  refine ⟨entities, inResult, _, mem, ?_⟩
  rw [getOwnRecordValue_entityValue, noStructuralId valid found]
  rfl

/-- A retained value below a present entity or entry, or of a setting, is
materialized or listed in a conflict. -/
theorem value_materialized_or_listed (valid : ValidState state)
    (canonical : canonicalState state = state) (snapshot : IsSnapshot state result)
    {address : RegisterAddress} {c : RegisterCandidate} {v : JsonValue}
    (mem : c ∈ candidatesAt state address) (value : c.value = some v)
    (present : address.isSetting ∨
      registerIsPresent (registerAt state address.presence)) :
    MaterializesAt state result address v ∨ ConflictLists result address c.dot v := by
  obtain ⟨register, stored⟩ : ∃ register, registerAt state address = some register := by
    cases stored : registerAt state address with
    | none => simp [candidatesAt, stored] at mem
    | some register => exact ⟨register, rfl⟩
  rw [candidatesAt, stored, registerCandidates_some] at mem
  have isCanonical : CanonicalRegister register := by
    have stored' := stored
    rw [← canonical, registerAt_canonicalState] at stored'
    obtain ⟨original, _, rfl⟩ := map_eq_some_iff.mp stored'
    exact canonicalRegister_canonical original
  have dichotomy := materialized_or_conflict address isCanonical mem
  have listed : (∀ conflict ∈ maybeRecordConflict address (some register),
      conflict ∈ result.conflicts) →
      materializedValue (some register) = some v ∨ ConflictLists result address c.dot v := by
    intro reported
    refine dichotomy.imp (fun shown => shown.trans value) ?_
    rintro ⟨conflict, recorded, sameAddress, candidate, inConflict, dot, sameValue⟩
    exact ⟨conflict, reported conflict recorded, Or.inl sameAddress, candidate, inConflict, dot,
      sameValue.trans value⟩
  cases address with
  | entityPresence collection entityId =>
    exact Or.inl (showsEntity_of_present valid snapshot
      (present.resolve_left Bool.false_ne_true))
  | entityPosition collection entityId =>
    have present := present.resolve_left Bool.false_ne_true
    obtain ⟨entity, found, _, isPresent, reported⟩ := entity_of_presence snapshot present
    have position : entity.position = some register := by simpa [registerAt, found] using stored
    refine (listed fun conflict recorded => reported conflict (mem_append_right _ ?_)).imp_left
      fun shown => ?_
    · rw [if_pos isPresent]
      exact mem_append_left _ (position ▸ recorded)
    · rw [MaterializesAt, stored, shown]
  | entityField collection entityId field =>
    have present := present.resolve_left Bool.false_ne_true
    obtain ⟨entity, found, ⟨entities, inResult, inEntities⟩, isPresent, reported⟩ :=
      entity_of_presence snapshot present
    have inFields : entity.fields.get? field = some register := by
      simpa [registerAt, found] using stored
    refine (listed fun conflict recorded => reported conflict (mem_append_right _ ?_)).imp_left
      fun shown => ?_
    · rw [if_pos isPresent]
      exact mem_append_right _ (mem_flatMap.mpr ⟨(field, register),
        SortedMap.mem_entries.mpr inFields, recorded⟩)
    · refine ⟨entities, inResult, _, inEntities, ?_, ?_⟩
      · rw [getOwnRecordValue_entityValue, noStructuralId valid found]
        rfl
      · rw [getOwnRecordValue_entityValue, inFields, bind_some, shown]
        rfl
  | setting path =>
    rcases setting_materialized_or_conflict valid.shaped.well stored isCanonical mem value
      snapshot.settings with shown | ⟨conflict, recorded, sameAddress, candidate⟩
    · exact Or.inl shown
    · refine Or.inr ⟨conflict, (snapshot.conflicts conflict).mpr
        (mem_append_left _ (mem_append_right _ recorded)), ?_, candidate⟩
      rcases sameAddress with same | ⟨paths, same, inPaths⟩
      · exact Or.inl same
      · exact Or.inr ⟨path, paths, rfl, same, inPaths⟩
  | stringEntryPresence collection entry =>
    obtain ⟨_, _, shown, _⟩ := entry_of_presence snapshot
      (present.resolve_left Bool.false_ne_true)
    exact Or.inl shown
  | stringEntryPosition collection entry =>
    have present := present.resolve_left Bool.false_ne_true
    obtain ⟨stringEntry, found, _, isPresent, reported⟩ := entry_of_presence snapshot present
    have position : stringEntry.position = some register := by simpa [registerAt, found] using stored
    refine (listed fun conflict recorded => reported conflict (mem_append_right _ ?_)).imp_left
      fun shown => ?_
    · rw [if_pos isPresent]
      exact position ▸ recorded
    · rw [MaterializesAt, stored, shown]

end Snapshot

/-! ## What a mutation writes -/

section Writes

variable {state : ConvergentSyncState} {mutation : ConvergentMutation}

theorem presence_mem_presenceWrites {address : RegisterAddress} {contents : List RegisterWrite}
    {write : RegisterWrite}
    (mem : write ∈ contents ++ presenceWrites state address contents) :
    ⟨address, some (.bool true)⟩ ∈ presenceWrites state address contents := by
  have nonEmpty : contents ≠ [] ∨ presenceWrites state address contents ≠ [] := by
    rcases mem_append.mp mem with mem | mem
    · exact Or.inl (ne_nil_of_mem mem)
    · exact Or.inr (ne_nil_of_mem mem)
  simp only [presenceWrites] at nonEmpty ⊢
  split
  · exact mem_singleton.mpr rfl
  · rename_i fresh
    rw [if_neg fresh] at nonEmpty
    simp only [Bool.or_eq_true, decide_eq_true_eq, not_or, not_not] at fresh
    exact absurd fresh.2 (nonEmpty.resolve_right (by simp))

theorem presence_written (kind : mutation.WritesValue) {write : RegisterWrite}
    (mem : write ∈ mutationWrites state mutation) : write.address.isSetting ∨
      ⟨write.address.presence, some (.bool true)⟩ ∈ mutationWrites state mutation := by
  cases mutation with
  | entityUpsert c e value position =>
    have presence := presence_mem_presenceWrites mem
    refine Or.inr ?_
    rcases mem_append.mp mem with contents | inPresence
    · rcases mem_append.mp contents with inFields | inPosition
      · obtain ⟨field, _, planned⟩ := mem_filterMap.mp inFields
        rw [fieldWrite_address planned]
        exact mem_append_right _ presence
      · rw [positionWrite_address (by simpa using inPosition)]
        exact mem_append_right _ presence
    · rw [presenceWrites_address inPresence]
      exact mem_append_right _ presence
  | entityFieldSet c e field value =>
    simp only [mutationWrites] at mem ⊢
    split at mem
    · rename_i needed
      rw [if_pos needed]
      simp only [mem_cons, not_mem_nil, or_false] at mem
      rcases mem with rfl | rfl
      · exact Or.inr (by simp [RegisterAddress.presence])
      · exact Or.inr (by simp [RegisterAddress.presence])
    · cases mem
  | stringEntryAdd c value position =>
    have presence := presence_mem_presenceWrites mem
    refine Or.inr ?_
    rcases mem_append.mp mem with contents | inPresence
    · rw [positionWrite_address (by simpa using contents)]
      exact mem_append_right _ presence
    · rw [presenceWrites_address inPresence]
      exact mem_append_right _ presence
  | settingSet path value =>
    refine Or.inl ?_
    rcases mem_append.mp mem with related | own
    · obtain ⟨key, _, planned⟩ := mem_filterMap.mp related
      rw [(relatedWrite_eq_some planned).1]
      rfl
    · split at own
      · cases own
      · rw [mem_singleton.mp own]
        rfl
  | _ => exact kind.elim

theorem mutationShown_of_present {result : MaterializedConvergentSyncState}
    (kind : mutation.WritesValue) {write : RegisterWrite} (mem : write ∈ mutationWrites state mutation)
    (entity : ∀ c e, write.address.presence = .entityPresence c e → ShowsEntity result c e)
    (entry : ∀ c x, write.address.presence = .stringEntryPresence c x → ShowsEntry result c x) :
    MutationShown result mutation := by
  cases mutation with
  | entityUpsert c e value position =>
    refine entity c e ?_
    rcases mem_append.mp mem with contents | inPresence
    · rcases mem_append.mp contents with inFields | inPosition
      · obtain ⟨field, _, planned⟩ := mem_filterMap.mp inFields
        rw [fieldWrite_address planned]
        rfl
      · rw [positionWrite_address (by simpa using inPosition)]
        rfl
    · rw [presenceWrites_address inPresence]
      rfl
  | entityFieldSet c e field value =>
    simp only [mutationWrites] at mem
    split at mem
    · simp only [mem_cons, not_mem_nil, or_false] at mem
      rcases mem with rfl | rfl <;> exact entity c e rfl
    · cases mem
  | stringEntryAdd c value position =>
    refine entry c value ?_
    rcases mem_append.mp mem with contents | inPresence
    · rw [positionWrite_address (by simpa using contents)]
      rfl
    · rw [presenceWrites_address inPresence]
      rfl
  | settingSet path value => trivial
  | _ => exact kind.elim

end Writes

/-! ## Joins -/

section Join

variable {history : History} {A B M : ConvergentSyncState}

theorem candidate_survives (left : IsReplica history A) (right : IsReplica history B)
    (merged : IsReplica history M) (dots : M.vector.dots = A.vector.dots ∪ B.vector.dots)
    {address : RegisterAddress} {c : RegisterCandidate} (mem : c ∈ candidatesAt A address)
    (unseen : c.dot ∉ B.vector.dots) : c ∈ candidatesAt M address := by
  obtain ⟨dot, front, rfl⟩ := (left.represents.candidates address c).mp mem
  refine (merged.represents.candidates address _).mpr ⟨dot, ?_, rfl⟩
  rw [dots]
  exact (left.represents.cut.mem_frontier_union right.represents.cut).mpr
    (Or.inr (Or.inl ⟨front, unseen⟩))

end Join

section Mutation

variable {states : List ConvergentSyncState} {S T S' : ConvergentSyncState} {deviceId : JsString}
  {mutation : ConvergentMutation} {now : JsNumber}

theorem exists_write {history : History} (replica : IsReplica history S)
    {next : ConvergentSyncState} (ran : applyMutation S deviceId mutation now = .ok next)
    {address : RegisterAddress} {c : RegisterCandidate}
    (mem : c ∈ candidatesAt (canonicalState next) address) (device : c.dot.deviceId = deviceId)
    (later : S.vector.counter deviceId < c.dot.counter) :
    ∃ write ∈ mutationWrites S mutation, write.address = address := by
  by_contra unwritten
  push Not at unwritten
  have ok := mutationOk_of_applyMutation ran
  rw [applyMutation_eq_runWrites replica.shaped.well ok] at ran
  have kept := registerAt_runWrites (mutationWrites_writable replica.shaped.well ok) ran unwritten
  obtain ⟨original, inNext, rfl⟩ := mem_candidatesAt_canonicalState.mp mem
  have inOld : original ∈ candidatesAt S address := by
    rw [candidatesAt, kept] at inNext
    rcases openMutation_eq ok with same | ⟨parent, _, same⟩
    · rwa [same] at inNext
    · rw [same] at inNext
      rwa [← candidatesAt_openParent S parent address]
  have covered := (replica.valid.candidateOk inOld).dot.covered
  rw [canonicalCandidate_dot] at device later
  rw [VersionVector.mem_dots, device] at covered
  omega

/-- **No effective local write is silently lost by a join.**  When `T` has observed
none of the device's later dots, joining the result of one value-writing mutation
with `T` shows its entity or entry, and every value it wrote is materialized or
listed in a conflict. -/
theorem effective_write_visible (execution : Execution states) (s : S ∈ states) (t : T ∈ states)
    (unseen : T.vector.counter deviceId ≤ S.vector.counter deviceId) (kind : mutation.WritesValue)
    (ran : applyConvergentMutations S deviceId [mutation] now = .ok S')
    (effective : S.vector.counter deviceId < S'.vector.counter deviceId) :
    ∃ M result, mergeConvergentSyncStates S' T = .ok M ∧
      materializeConvergentSyncState M = .ok result ∧ MutationShown result mutation ∧
      ∀ address c v, c ∈ candidatesAt S' address → c.dot.deviceId = deviceId →
        S.vector.counter deviceId < c.dot.counter → c.value = some v →
        MaterializesAt M result address v ∨ ConflictLists result address c.dot v := by
  obtain ⟨history, replicas⟩ := execution.exists_history
  have replicaS := replicas S s
  obtain ⟨history', replicaS', others⟩ := replicaS.apply ran
  have replicaT := others T (replicas T t) unseen
  obtain ⟨M, merged, replicaM, dots⟩ := replicaS'.merge replicaT
  obtain ⟨result, materialized, snapshot⟩ := materializeConvergentSyncState_eq_ok replicaM.valid
  -- The mutation alone, on the canonical replica `S`.
  obtain ⟨_, _, next, batch, _, rfl⟩ := applyConvergentMutations_eq_ok.mp ran
  rw [replicaS.canonical] at batch
  obtain ⟨_, single, rest⟩ := applyMutations_cons_eq_ok.mp batch
  cases rest
  have survives : ∀ address c, c ∈ candidatesAt (canonicalState next) address →
      c.dot.deviceId = deviceId → S.vector.counter deviceId < c.dot.counter →
      c ∈ candidatesAt M address := by
    intro address c mem device later
    refine candidate_survives replicaS' replicaT replicaM dots mem fun covered => ?_
    rw [VersionVector.mem_dots, device] at covered
    omega
  have present : ∀ write ∈ mutationWrites S mutation, write.address.isSetting = true ∨
      registerIsPresent (registerAt M write.address.presence) = true := by
    intro write mem
    refine (presence_written kind mem).imp_right fun presence => ?_
    have ok := mutationOk_of_applyMutation single
    have run := single
    rw [applyMutation_eq_runWrites replicaS.shaped.well ok] at run
    obtain ⟨candidate, stored, value, device, later, _⟩ := registerAt_runWrites_of_mem
      (mutationWrites_writable replicaS.shaped.well ok)
      (mutationWrites_distinct replicaS.shaped.well mutation) run presence
    have inS' : canonicalCandidate candidate ∈
        candidatesAt (canonicalState next) write.address.presence :=
      mem_candidatesAt_canonicalState.mpr ⟨candidate, by
        rw [candidatesAt, stored]; exact mem_singleton.mpr rfl, rfl⟩
    have counters : (openMutation S mutation).vector.counter deviceId = S.vector.counter deviceId := by
      rcases openMutation_eq ok with same | ⟨parent, _, same⟩ <;> rw [same]
      rw [openParent_vector]
    refine registerIsPresent_of_value (c := canonicalCandidate candidate)
      (survives _ _ inS' device (counters ▸ later)) ?_
    simp [canonicalCandidate, candidateFingerprint, value]
  refine ⟨M, result, merged, materialized, ?_, fun address c v mem device later value => ?_⟩
  · obtain ⟨write, mem⟩ : ∃ write, write ∈ mutationWrites S mutation := by
      refine exists_mem_of_ne_nil _ fun none => ?_
      have ok := mutationOk_of_applyMutation single
      rw [applyMutation_eq_runWrites replicaS.shaped.well ok, none, runWrites_nil,
        Except.ok.injEq] at single
      rcases openMutation_eq ok with same | ⟨parent, _, same⟩
      · rw [same] at single
        subst single
        exact lt_irrefl _ effective
      · rw [same] at single
        subst single
        rw [show (canonicalState (openParent S parent)).vector = (openParent S parent).vector from rfl,
          openParent_vector] at effective
        exact lt_irrefl _ effective
    refine mutationShown_of_present kind mem (fun c e presence => ?_) fun c x presence => ?_
    · refine showsEntity_of_present replicaM.valid snapshot ?_
      rw [← presence]
      refine (present write mem).resolve_left fun setting => ?_
      cases at_ : write.address <;> simp_all [RegisterAddress.presence, RegisterAddress.isSetting]
    · have isPresent : registerIsPresent (registerAt M (.stringEntryPresence c x)) = true := by
        rw [← presence]
        refine (present write mem).resolve_left fun setting => ?_
        cases at_ : write.address <;> simp_all [RegisterAddress.presence, RegisterAddress.isSetting]
      obtain ⟨_, _, shown, _⟩ := entry_of_presence snapshot isPresent
      exact shown
  · obtain ⟨write, inWrites, rfl⟩ := exists_write replicaS single mem device later
    exact value_materialized_or_listed replicaM.valid replicaM.canonical snapshot
      (survives _ c mem device later) value (present write inWrites)

/-- A fresh device sets the theme, another one has set it differently. -/
theorem effective_write_visible_themeEdit :
    ∃ M result, mergeConvergentSyncStates (themeEdit (text "a") (text "dark"))
        (themeEdit (text "b") (text "light")) = .ok M ∧
      materializeConvergentSyncState M = .ok result ∧
      MutationShown result (.settingSet [text "theme"] (.str (text "dark"))) ∧
      ∀ address c v, c ∈ candidatesAt (themeEdit (text "a") (text "dark")) address →
        c.dot.deviceId = text "a" →
        createConvergentSyncState.vector.counter (text "a") < c.dot.counter → c.value = some v →
        MaterializesAt M result address v ∨ ConflictLists result address c.dot v :=
  effective_write_visible execution_themeEdits (by simp) (by simp) (by decide +kernel) trivial
    (show applyConvergentMutations createConvergentSyncState (text "a")
      [.settingSet [text "theme"] (.str (text "dark"))] (.finite 1) =
        .ok (themeEdit (text "a") (text "dark")) by decide +kernel) (by decide +kernel)

end Mutation

end Netcatty
