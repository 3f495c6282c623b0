import Netcatty.ConvergentSettled
import Netcatty.ConvergentVisibility

/-!
A full upsert of an entity is exact and idempotent.

Whatever registers it finds, an upsert with a position leaves every register of
the entity settled: each field on its incoming value, or on a tombstone, the
position on the given one and presence on a value (`entityUpsert_settled`).  So
the snapshot shows exactly what was upserted, and the next upsert of the same
value finds nothing to write.
-/

namespace Netcatty

open List SortedMap

/-- Every register of an entity holds what the upsert asked for. -/
structure UpsertSettled (state : ConvergentSyncState) (collection entityId : JsString) (value : JsonObject)
    (position : CollectionPosition) : Prop where
  fields : ∀ field, Settled (registerAt state (.entityField collection entityId field))
    (getOwnRecordValue (incomingFields value) field)
  position : Settled (registerAt state (.entityPosition collection entityId)) (some position.toJson)
  presence : ∃ shown, Settled (registerAt state (.entityPresence collection entityId)) (some shown)

/-- The snapshot shows the entity with this value and position, and reports no conflict inside it. -/
structure ShowsUpserted (state : ConvergentSyncState) (result : MaterializedConvergentSyncState)
    (collection entityId : JsString) (value : JsonObject) (position : CollectionPosition) : Prop where
  /-- One materialized entity has the ID. -/
  shown : ∃ stored, state.collections.get? collection = some stored ∧
    result.collections.get? collection = some ((materializeCollection stored).map MaterializedEntity.value) ∧
    ∃ entity ∈ materializeCollection stored, entity.id = entityId ∧
      (∀ other ∈ materializeCollection stored, other.id = entityId → other = entity) ∧
      entity.position = some position ∧
      getOwnRecordValue entity.value (text "id") = some (.str entityId) ∧
      ∀ field, field ≠ text "id" →
        getOwnRecordValue entity.value field = (getOwnRecordValue value field).map canonicalizeJson
  unreported : ∀ conflict ∈ result.conflicts,
    conflict.address ≠ .register (.entityPresence collection entityId) ∧
    conflict.address ≠ .register (.entityPosition collection entityId) ∧
    ∀ field, conflict.address ≠ .register (.entityField collection entityId field)

theorem getOwnRecordValue_incomingFields (value : JsonObject) (field : JsString) :
    getOwnRecordValue (incomingFields value) field =
      if field = text "id" then none else getOwnRecordValue value field := by
  induction value with
  | nil => simp [incomingFields, getOwnRecordValue, SortedMap.lookupEntry]
  | cons entry rest ih =>
    simp only [incomingFields, getOwnRecordValue] at ih
    by_cases isId : entry.1 = text "id"
    · simp only [incomingFields, getOwnRecordValue, filter_cons, isId, ne_eq, not_true_eq_false,
        decide_false, Bool.false_eq_true, if_false, ih, SortedMap.lookupEntry]
      split
      · rfl
      · rfl
    · simp only [incomingFields, getOwnRecordValue, filter_cons, isId, ne_eq, not_false_eq_true,
        decide_true, if_true, ih, SortedMap.lookupEntry]
      split
      · next same =>
        rw [if_neg]
        rw [same]
        exact isId
      · rfl

section Upsert

variable {state state' : ConvergentSyncState} {deviceId collection entityId : JsString} {now : JsNumber}
  {value : JsonObject} {position : CollectionPosition}

theorem fieldWrite_cases (incoming : JsonObject) (field : JsString) :
    fieldWrite state collection entityId incoming field =
        some ⟨.entityField collection entityId field, getOwnRecordValue incoming field⟩ ∨
      fieldWrite state collection entityId incoming field = none ∧
        Settled (registerAt state (.entityField collection entityId field))
          (getOwnRecordValue incoming field) := by
  unfold fieldWrite
  cases getOwnRecordValue incoming field with
  | none =>
    cases present : registerIsPresent (registerAt state (.entityField collection entityId field)) with
    | true => exact .inl (if_pos present)
    | false => exact .inr ⟨by simp [present], registerIsPresent_eq_false.mp present⟩
  | some v =>
    cases needed : needsWrite (registerAt state (.entityField collection entityId field)) v with
    | true => exact .inl (if_pos needed)
    | false => exact .inr ⟨by simp [needed], needsWrite_eq_false.mp needed⟩

theorem positionWrite_cases (address : RegisterAddress) :
    positionWrite state address (some position) = some ⟨address, some position.toJson⟩ ∨
      positionWrite state address (some position) = none ∧
        Settled (registerAt state address) (some position.toJson) := by
  unfold positionWrite
  cases needed : needsWrite (registerAt state address) position.toJson with
  | true => exact .inl (by simp [needed])
  | false => exact .inr ⟨by simp [needed], needsWrite_eq_false.mp needed⟩

/-- A field the upsert does not write is settled: it is as it should be, or neither stored nor
incoming. -/
theorem upsertField_cases (field : JsString) :
    (field ∈ upsertFieldNames ((findEntity state collection entityId).getD createdEntity)
        (incomingFields value) ∧
      fieldWrite state collection entityId (incomingFields value) field =
        some ⟨.entityField collection entityId field, getOwnRecordValue (incomingFields value) field⟩) ∨
    fieldWrite state collection entityId (incomingFields value) field = none ∧
      Settled (registerAt state (.entityField collection entityId field))
        (getOwnRecordValue (incomingFields value) field) := by
  by_cases named : field ∈ upsertFieldNames ((findEntity state collection entityId).getD createdEntity)
      (incomingFields value)
  · exact (fieldWrite_cases (incomingFields value) field).imp_left fun planned => ⟨named, planned⟩
  · rw [mem_upsertFieldNames, not_or] at named
    have absent : getOwnRecordValue (incomingFields value) field = none :=
      lookupEntry_eq_none.mpr named.2
    have unstored : registerAt state (.entityField collection entityId field) = none := by
      cases found : findEntity state collection entityId with
      | none => simp [registerAt, found]
      | some entity =>
        have missing := named.1
        rw [found, Option.getD_some] at missing
        simp only [registerAt, found, Option.bind_some]
        by_contra stored
        exact missing (mem_keys_iff_exists.mpr (Option.ne_none_iff_exists'.mp stored))
    refine .inr ⟨?_, ?_⟩
    · unfold fieldWrite
      simp [absent, unstored, registerIsPresent, selectRegisterWinner]
    · rw [absent, unstored]
      exact ⟨fun c mem => absurd mem not_mem_nil, fun isValue => by cases isValue⟩

theorem mem_upsertWrites {write : RegisterWrite} :
    write ∈ mutationWrites state (.entityUpsert collection entityId value (some position)) ↔
      (∃ field ∈ upsertFieldNames ((findEntity state collection entityId).getD createdEntity)
          (incomingFields value), fieldWrite state collection entityId (incomingFields value) field = some write) ∨
      positionWrite state (.entityPosition collection entityId) (some position) = some write ∨
      write ∈ presenceWrites state (.entityPresence collection entityId)
        (upsertContents state collection entityId value (some position)) := by
  simp only [mutationWrites, upsertContents, mem_append, mem_filterMap, Option.mem_toList,
    or_assoc]

/-- **An upsert settles every register of its entity.** -/
theorem entityUpsert_settled (well : StoredWell state)
    (ok : MutationOk state (.entityUpsert collection entityId value (some position)))
    (ran : applyMutation state deviceId (.entityUpsert collection entityId value (some position)) now =
      .ok state') : UpsertSettled state' collection entityId value position := by
  have writable := mutationWrites_writable well ok
  have distinct := mutationWrites_distinct well (.entityUpsert collection entityId value (some position))
  rw [applyMutation_eq_runWrites well ok] at ran
  have written := fun write => @settled_of_mem _ _ _ _ _ writable distinct ran write
  have members := fun write => @mem_upsertWrites state collection entityId value position write
  -- Opening the entity shows at its presence only.
  have kept : ∀ address, address ≠ .entityPresence collection entityId →
      (∀ write ∈ mutationWrites state (.entityUpsert collection entityId value (some position)),
        write.address ≠ address) → registerAt state' address = registerAt state address := by
    intro address other unwritten
    rw [registerAt_runWrites writable ran unwritten, openMutation, registerAt_openParent,
      if_neg fun opened => other opened.2.1]
  refine ⟨fun field => ?_, ?_, ?_⟩
  · rcases @upsertField_cases state collection entityId value field with
      ⟨named, planned⟩ | ⟨unplanned, settled⟩
    · exact written _ ((members _).mpr (.inl ⟨field, named, planned⟩))
    · rw [kept _ (by simp) fun write mem same => ?_]
      · exact settled
      · rcases (members write).mp mem with ⟨other, -, planned⟩ | planned | presence
        · rw [fieldWrite_address planned] at same
          cases same
          rw [unplanned] at planned
          cases planned
        · rw [positionWrite_address planned] at same
          cases same
        · rw [presenceWrites_address presence] at same
          cases same
  · rcases @positionWrite_cases state position (.entityPosition collection entityId) with
      planned | ⟨unplanned, settled⟩
    · exact written _ ((members _).mpr (.inr (.inl planned)))
    · rw [kept _ (by simp) fun write mem same => ?_]
      · exact settled
      · rcases (members write).mp mem with ⟨other, -, planned⟩ | planned | presence
        · rw [fieldWrite_address planned] at same
          cases same
        · rw [unplanned] at planned
          cases planned
        · rw [presenceWrites_address presence] at same
          cases same
  · by_cases refreshed : presenceIsStale (registerAt state (.entityPresence collection entityId)) ||
        upsertContents state collection entityId value (some position) ≠ []
    · refine ⟨.bool true, written ⟨.entityPresence collection entityId, some (.bool true)⟩
        ((members _).mpr (.inr (.inr ?_)))⟩
      rw [presenceWrites, if_pos refreshed]
      exact mem_singleton.mpr rfl
    · -- Nothing is written, and presence was settled before.
      have none_ : mutationWrites state (.entityUpsert collection entityId value (some position)) = [] := by
        rw [Bool.not_eq_true, Bool.or_eq_false_iff, decide_eq_false_iff_not, not_not] at refreshed
        simp [mutationWrites, presenceWrites, refreshed]
      rw [none_, runWrites_nil, Except.ok.injEq] at ran
      rw [Bool.not_eq_true, Bool.or_eq_false_iff] at refreshed
      obtain ⟨shown, settled⟩ := presenceIsStale_eq_false.mp refreshed.1
      refine ⟨shown, ?_⟩
      rw [← ran, openMutation, openParent_eq_self (.inr (isSome_of_registerIsPresent settled.present))]
      exact settled

section

variable (settled : UpsertSettled state collection entityId value position)
include settled

theorem UpsertSettled.canonical :
    UpsertSettled (canonicalState state) collection entityId value position where
  fields field := (settled.fields field).canonicalAt
  position := settled.position.canonicalAt
  presence := settled.presence.imp fun _ shown => shown.canonicalAt

theorem UpsertSettled.writes :
    mutationWrites state (.entityUpsert collection entityId value (some position)) = [] := by
  have fields : ∀ field, fieldWrite state collection entityId (incomingFields value) field = none := by
    intro field
    have here := settled.fields field
    unfold fieldWrite
    cases incoming : getOwnRecordValue (incomingFields value) field with
    | none =>
      rw [incoming] at here
      simp [registerIsPresent_eq_false.mpr here]
    | some v =>
      rw [incoming] at here
      simp [needsWrite_eq_false.mpr here]
  have unmoved : positionWrite state (.entityPosition collection entityId) (some position) = none := by
    simp [positionWrite, needsWrite_eq_false.mpr settled.position]
  have contents : upsertContents state collection entityId value (some position) = [] := by
    simp [upsertContents, fields, unmoved]
  simp [mutationWrites, contents, presenceWrites, presenceIsStale_eq_false.mpr settled.presence]

theorem UpsertSettled.shows (valid : ValidState state) {result : MaterializedConvergentSyncState}
    (snapshot : IsSnapshot (canonicalState state) result) :
    ShowsUpserted (canonicalState state) result collection entityId value position := by
  have well := valid.canonical.shaped.well
  have materialized : ∀ address expected, Settled (registerAt state address) expected →
      materializedValue (registerAt (canonicalState state) address) =
        expected.map canonicalizeJson := fun address expected here => here.materializedAt
  obtain ⟨shown, presence⟩ := settled.canonical.presence
  constructor
  · obtain ⟨register, at_⟩ := Option.isSome_iff_exists.mp (isSome_of_registerIsPresent presence.present)
    obtain ⟨entity, found, same⟩ := Option.map_eq_some_iff.mp at_
    obtain ⟨stored, inState, inCollection⟩ := Option.bind_eq_some_iff.mp found
    have present : registerIsPresent (some entity.presence) = true := by
      rw [same, ← at_]
      exact presence.present
    refine ⟨stored, inState, ?_, ⟨entityId, positionOf (materializedValue entity.position),
      entityValue (entityId, entity)⟩, mem_materializeCollection.mpr ⟨entityId, entity, inCollection, ?_⟩,
      rfl, ?_, ?_, ?_, ?_⟩
    · rw [snapshot.collections, get?_mapValues, inState]
      rfl
    · rw [materializeEntity, if_pos present]
    · intro other mem named
      obtain ⟨id, stored', inCollection', made⟩ := mem_materializeCollection.mp mem
      unfold materializeEntity at made
      split at made
      · cases made
        cases named
        rw [inCollection] at inCollection'
        cases inCollection'
        rfl
      · cases made
    · have here := materialized _ _ settled.position
      simp only [registerAt, found, Option.bind_some] at here
      rw [here]
      cases position <;> rfl
    · rw [getOwnRecordValue_entityValue, noStructuralId valid.canonical found]
      rfl
    · intro field notId
      have here := materialized _ _ (settled.fields field)
      simp only [registerAt, found, Option.bind_some] at here
      rw [getOwnRecordValue_incomingFields, if_neg notId] at here
      rw [getOwnRecordValue_entityValue, if_neg notId, Option.or_none, ← here]
      cases entity.fields.get? field <;> rfl
  · intro conflict reported
    have reported := (snapshot.conflicts conflict).mp reported
    exact ⟨presence.unreported well reported, settled.canonical.position.unreported well reported,
      fun field => (settled.canonical.fields field).unreported well reported⟩

end

/-- **A full upsert is exact and idempotent**: the entity materializes to its value and position
without conflict, and the same upsert again changes nothing. -/
theorem entity_upsert_exact_and_idempotent (ran : applyConvergentMutations state deviceId
      [.entityUpsert collection entityId value (some position)] now = .ok state') :
    (∃ result, materializeConvergentSyncState state' = .ok result ∧
      ShowsUpserted state' result collection entityId value position) ∧
    ∀ deviceId' now', deviceId' ≠ [] → applyConvergentMutations state' deviceId'
      [.entityUpsert collection entityId value (some position)] now' = .ok state' := by
  obtain ⟨valid, -, next, applied, validNext, rfl⟩ := applyConvergentMutations_eq_ok.mp ran
  obtain ⟨_, upserted, done⟩ := applyMutations_cons_eq_ok.mp applied
  cases done
  have ok := mutationOk_of_applyMutation upserted
  have settled := entityUpsert_settled valid.canonical.shaped.well ok upserted
  constructor
  · obtain ⟨result, made, snapshot⟩ := materializeConvergentSyncState_eq_ok validNext.canonical
    exact ⟨result, made, settled.shows validNext snapshot⟩
  · intro deviceId' now' named
    obtain ⟨shown, presence⟩ := settled.canonical.presence
    have ok' : MutationOk (canonicalState next)
      (.entityUpsert collection entityId value (some position)) := ok
    have again : applyMutation (canonicalState next) deviceId'
        (.entityUpsert collection entityId value (some position)) now' = .ok (canonicalState next) := by
      rw [applyMutation_eq_runWrites validNext.canonical.shaped.well ok', settled.canonical.writes,
        runWrites_nil, openMutation,
        openParent_eq_self (.inr (isSome_of_registerIsPresent presence.present))]
    refine applyConvergentMutations_eq_ok.mpr ⟨validNext.canonical, named, canonicalState next, ?_,
      validNext.canonical, (canonicalState_idem validNext).symm⟩
    rw [canonicalState_idem validNext]
    exact applyMutations_cons_eq_ok.mpr ⟨_, again, rfl⟩

end Upsert

/-- A host is added, and added again by another device. -/
theorem entity_upsert_exact_and_idempotent_host :
    ∃ state', applyConvergentMutations createConvergentSyncState (text "a")
        [.entityUpsert (text "hosts") (text "h1") [(text "label", .str (text "web"))]
          (some (.number 0))] (.finite 1) = .ok state' ∧
      (∃ result, materializeConvergentSyncState state' = .ok result ∧
        ShowsUpserted state' result (text "hosts") (text "h1") [(text "label", .str (text "web"))]
          (.number 0)) ∧
      applyConvergentMutations state' (text "b") [.entityUpsert (text "hosts") (text "h1")
        [(text "label", .str (text "web"))] (some (.number 0))] (.finite 2) = .ok state' := by
  cases ran : applyConvergentMutations createConvergentSyncState (text "a")
      [.entityUpsert (text "hosts") (text "h1") [(text "label", .str (text "web"))]
        (some (.number 0))] (.finite 1) with
  | error error =>
    have returned : (applyConvergentMutations createConvergentSyncState (text "a")
        [.entityUpsert (text "hosts") (text "h1") [(text "label", .str (text "web"))]
          (some (.number 0))] (.finite 1)).toOption.isSome = true := by
      decide +kernel
    rw [ran] at returned
    cases returned
  | ok state' =>
    have exact_ := entity_upsert_exact_and_idempotent ran
    exact ⟨state', rfl, exact_.1, exact_.2 (text "b") (.finite 2) (by decide)⟩

end Netcatty
