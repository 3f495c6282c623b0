import Netcatty.ConvergentWrites

/-!
Every mutation is a list of register writes.

`mutationWrites` computes, from the replica before a mutation, the registers the
mutation writes and the values it writes there, in order; `openMutation` is the
entity or entry it creates first.  `applyMutation_eq_runWrites` shows that the
code, which decides as it goes, does exactly that: no write of a mutation
changes a register the mutation reads later.  Later modules reason about
`runWrites` and about the plan, never about the code of the nine mutations.
-/

namespace Netcatty

open List

/-! ## The writes of a mutation -/

variable (state : ConvergentSyncState)

/-- The write `upsertField` makes, if any. -/
def fieldWrite (collection entityId : JsString)
    (incoming : JsonObject) (field : JsString) : Option RegisterWrite :=
  let address := RegisterAddress.entityField collection entityId field
  match getOwnRecordValue incoming field with
  | none => if registerIsPresent (registerAt state address) then some ⟨address, none⟩ else none
  | some value => if needsWrite (registerAt state address) value then some ⟨address, some value⟩ else none

/-- The write `upsertPosition` makes, if any. -/
def positionWrite (address : RegisterAddress)
    (position : Option CollectionPosition) : Option RegisterWrite :=
  match position with
  | none => none
  | some position =>
    if needsWrite (registerAt state address) position.toJson
    then some ⟨address, some position.toJson⟩ else none

/-- Whether a presence register is missing, a tombstone or in conflict. -/
def presenceIsStale (register : Option MultiValueRegister) : Bool :=
  match register with
  | none => true
  | some presence => !registerIsPresent (some presence) || registerHasConflict presence

/-- The write `refreshPresence` makes after these writes, if any. -/
def presenceWrites (address : RegisterAddress)
    (contents : List RegisterWrite) : List RegisterWrite :=
  if presenceIsStale (registerAt state address) || contents ≠ []
  then [⟨address, some (.bool true)⟩] else []

/-- The field and position writes of `applyEntityUpsert`. -/
def upsertContents (collection entityId : JsString)
    (value : JsonObject) (position : Option CollectionPosition) : List RegisterWrite :=
  (upsertFieldNames ((findEntity state collection entityId).getD createdEntity)
    (incomingFields value)).filterMap (fieldWrite state collection entityId (incomingFields value)) ++
  (positionWrite state (.entityPosition collection entityId) position).toList

/-- The write `tombstoneRelatedPath` makes, if any. -/
def relatedWrite (path : List JsString) (includeAncestors : Bool)
    (otherEncodedPath : JsString) : Option RegisterWrite :=
  let otherPath := settingPathOf otherEncodedPath
  if otherEncodedPath ≠ settingKey path && settingPathIsRelated path otherPath includeAncestors
    && registerIsPresent (state.settings.get? otherEncodedPath)
  then some ⟨.setting otherPath, none⟩ else none

/-- The writes of `writeSettingRegister`. -/
def settingWrites (path : List JsString) (value : Option JsonValue) :
    List RegisterWrite :=
  state.settings.keys.filterMap (relatedWrite state path value.isSome) ++
  if settingUnchanged (registerAt state (.setting path)) value then [] else [⟨.setting path, value⟩]

def mutationWrites : ConvergentMutation → List RegisterWrite
  | .entityUpsert collection entityId value position =>
    let contents := upsertContents state collection entityId value position
    contents ++ presenceWrites state (.entityPresence collection entityId) contents
  | .entityFieldSet collection entityId field value =>
    let address := RegisterAddress.entityField collection entityId field
    if needsWrite (registerAt state address) value
    then [⟨address, some value⟩, ⟨.entityPresence collection entityId, some (.bool true)⟩] else []
  | .entityFieldDelete collection entityId field =>
    let address := RegisterAddress.entityField collection entityId field
    let presence := RegisterAddress.entityPresence collection entityId
    if registerIsPresent (registerAt state address)
    then ⟨address, none⟩ ::
      if registerIsPresent (registerAt state presence) then [⟨presence, some (.bool true)⟩] else []
    else []
  | .entityDelete collection entityId => [⟨.entityPresence collection entityId, none⟩]
  | .settingSet path value => settingWrites state path (some value)
  | .settingDelete path => settingWrites state path none
  | .stringEntryAdd collection value position =>
    let contents := (positionWrite state (.stringEntryPosition collection value) position).toList
    contents ++ presenceWrites state (.stringEntryPresence collection value) contents
  | .stringEntryDelete collection value =>
    let address := RegisterAddress.stringEntryPresence collection value
    if registerIsPresent (registerAt state address) then [⟨address, none⟩] else []
  | .resolveRegister address value _ =>
    match address with
    | .setting path => settingWrites state path value
    | _ => [⟨address, value⟩]

/-- The entity or entry a mutation creates first. -/
def openMutation : ConvergentMutation → ConvergentSyncState
  | .entityUpsert collection entityId _ _ => openParent state (.entityPresence collection entityId)
  | .entityFieldSet collection entityId _ _ => openParent state (.entityPresence collection entityId)
  | .entityDelete collection entityId => openParent state (.entityPresence collection entityId)
  | .stringEntryAdd collection value _ => openParent state (.stringEntryPresence collection value)
  | _ => state

/-- What a mutation must satisfy so that none of its own checks throws. -/
def MutationOk : ConvergentMutation → Prop
  | .entityUpsert collection entityId value _ => collection ≠ [] ∧ entityId ≠ [] ∧
    (∀ entry ∈ value, entry.1 ≠ []) ∧
    ∀ structuralId, getOwnRecordValue value (text "id") = some structuralId →
      structuralId = .str entityId
  | .entityFieldSet collection entityId field _ =>
    collection ≠ [] ∧ entityId ≠ [] ∧ field ≠ [] ∧ field ≠ text "id"
  | .entityFieldDelete _ _ field => field ≠ [] ∧ field ≠ text "id"
  | .entityDelete collection entityId => collection ≠ [] ∧ entityId ≠ []
  | .settingSet path _ => ValidSettingPath path
  | .settingDelete path => ValidSettingPath path
  | .stringEntryAdd collection value _ => collection ≠ [] ∧ value ≠ []
  | .stringEntryDelete collection value => collection ≠ [] ∧ value ≠ []
  | .resolveRegister address value tombstone =>
    (registerAt state address).isSome ∧ tombstone = value.isNone

/-! ## The nine mutations -/

theorem isSome_of_registerIsPresent {register : Option MultiValueRegister}
    (present : registerIsPresent register) : register.isSome := by
  cases register with
  | none => simp [registerIsPresent, selectRegisterWinner] at present
  | some register => rfl

variable {state : ConvergentSyncState}

theorem presenceParent {collection entityId : JsString}
    {address : RegisterAddress} (inside : address.presence = .entityPresence collection entityId) :
    (openParent state (.entityPresence collection entityId)).HasParent address := by
  rcases hasParent_openParent state (.entityPresence collection entityId) with setting | stored
  · exact absurd setting (by simp [RegisterAddress.isSetting])
  · exact Or.inr (by rw [inside]; exact stored)

theorem entryParent {collection value : JsString}
    {address : RegisterAddress} (inside : address.presence = .stringEntryPresence collection value) :
    (openParent state (.stringEntryPresence collection value)).HasParent address := by
  rcases hasParent_openParent state (.stringEntryPresence collection value) with setting | stored
  · exact absurd setting (by simp [RegisterAddress.isSetting])
  · exact Or.inr (by rw [inside]; exact stored)

/-- Opening an entity or entry does not show at its other registers. -/
theorem registerAt_openParent_of_ne
    {address other : RegisterAddress} (ne : other ≠ address.presence) :
    registerAt (openParent state address) other = registerAt state other := by
  rw [registerAt_openParent, if_neg fun h => ne h.2.1]

theorem upsertFieldNames_nodup (entity : ConvergentEntityState) (incoming : JsonObject) :
    (upsertFieldNames entity incoming).Nodup :=
  (perm_insertionSort _ _).nodup_iff.mpr (nodup_dedup _)

theorem mem_upsertFieldNames {entity : ConvergentEntityState} {incoming : JsonObject}
    {field : JsString} : field ∈ upsertFieldNames entity incoming ↔
      field ∈ entity.fields.keys ∨ field ∈ incoming.map Prod.fst := by
  simp [upsertFieldNames, mem_insertionSort]

theorem upsertField_eq {deviceId collection entityId field : JsString} {now : JsNumber}
    {incoming : JsonObject} {current : ConvergentSyncState × Bool} (named : field ≠ []) :
    upsertField deviceId now collection entityId incoming current field =
      match fieldWrite current.1 collection entityId incoming field with
      | none => .ok current
      | some write => writeRegisterAt current.1 deviceId now write.address write.value >>=
          fun s => .ok (s, true) := by
  obtain ⟨state, changed⟩ := current
  simp only [upsertField, fieldWrite, requireNonEmpty, assertNonEmptyKey, ensure, ne_eq, named,
    not_false_eq_true, decide_true, if_true, ok_bind]
  cases getOwnRecordValue incoming field with
  | none => simp only; split <;> rfl
  | some value => simp only; split <;> rfl

section

variable {deviceId : JsString} {now : JsNumber} {address : RegisterAddress}

theorem upsertPosition_eq
    {position : Option CollectionPosition} {current : ConvergentSyncState × Bool} :
    upsertPosition deviceId now address position current =
      runWrites deviceId now current.1 (positionWrite current.1 address position).toList >>=
        fun s => .ok (s, current.2 || (positionWrite current.1 address position).isSome) := by
  obtain ⟨state, changed⟩ := current
  simp only [upsertPosition, positionWrite]
  cases position with
  | none => simp
  | some position =>
    simp only
    split
    · simp [runWrites_cons]
    · simp

theorem refreshPresence_eq {current : ConvergentSyncState × Bool} :
    refreshPresence deviceId now address current =
      runWrites deviceId now current.1 (if current.2 then [⟨address, some (.bool true)⟩] else []) := by
  obtain ⟨state, changed⟩ := current
  cases changed <;> simp [refreshPresence, runWrites_cons]

end

theorem entityIsStale {collection entityId : JsString} :
    ((findEntity state collection entityId).isNone ||
      !registerIsPresent (some ((findEntity state collection entityId).getD createdEntity).presence) ||
      registerHasConflict ((findEntity state collection entityId).getD createdEntity).presence) =
    presenceIsStale (registerAt state (.entityPresence collection entityId)) := by
  cases found : findEntity state collection entityId <;> simp [registerAt, found, presenceIsStale]

theorem entryIsStale {collection value : JsString} :
    ((findStringEntry state collection value).isNone ||
      !registerIsPresent
        (some ((findStringEntry state collection value).getD createdStringEntry).presence) ||
      registerHasConflict ((findStringEntry state collection value).getD createdStringEntry).presence) =
    presenceIsStale (registerAt state (.stringEntryPresence collection value)) := by
  cases found : findStringEntry state collection value <;>
    simp [registerAt, found, presenceIsStale]

theorem fieldWrite_address {collection entityId field : JsString}
    {incoming : JsonObject} {write : RegisterWrite}
    (planned : fieldWrite state collection entityId incoming field = some write) :
    write.address = .entityField collection entityId field := by
  simp only [fieldWrite] at planned
  split at planned <;> split at planned <;> cases planned <;> rfl

theorem positionWrite_address {address : RegisterAddress}
    {position : Option CollectionPosition} {write : RegisterWrite}
    (planned : positionWrite state address position = some write) : write.address = address := by
  simp only [positionWrite] at planned
  split at planned
  · cases planned
  · split at planned <;> cases planned
    rfl

theorem presenceWrites_address {address : RegisterAddress}
    {contents : List RegisterWrite} {write : RegisterWrite}
    (mem : write ∈ presenceWrites state address contents) : write = ⟨address, some (.bool true)⟩ := by
  simp only [presenceWrites] at mem
  split at mem
  · exact mem_singleton.mp mem
  · cases mem

section Upsert

variable {state : ConvergentSyncState} {collection entityId : JsString} {value : JsonObject}
  {position : Option CollectionPosition} (well : StoredWell state)
  (ok : MutationOk state (.entityUpsert collection entityId value position))
include well ok

theorem upsertField_valid {field : JsString} (mem : field ∈
    upsertFieldNames ((findEntity state collection entityId).getD createdEntity)
      (incomingFields value)) : (RegisterAddress.entityField collection entityId field).Valid := by
  obtain ⟨collectionNamed, entityNamed, fieldsNamed, _⟩ := ok
  rcases mem_upsertFieldNames.mp mem with stored | incoming
  · cases found : findEntity state collection entityId with
    | none => simp [found, createdEntity] at stored
    | some entity =>
      obtain ⟨register, inFields⟩ := SortedMap.mem_keys_iff_exists.mp (by simpa [found] using stored)
      exact well.addresses _ register (by simp [registerAt, found, inFields])
  · obtain ⟨entry, inValue, rfl⟩ := List.mem_map.mp incoming
    obtain ⟨inValue, notId⟩ := mem_filter.mp inValue
    exact ⟨⟨collectionNamed, entityNamed, fieldsNamed entry inValue⟩, by
      simpa [RegisterAddress.isStructuralId] using notId⟩

theorem upsertContents_writable : Writable (openParent state (.entityPresence collection entityId))
      (upsertContents state collection entityId value position) := by
  intro write mem
  rcases mem_append.mp mem with inFields | inPosition
  · obtain ⟨field, inNames, planned⟩ := mem_filterMap.mp inFields
    rw [fieldWrite_address planned]
    exact ⟨upsertField_valid well ok inNames, presenceParent rfl⟩
  · rw [positionWrite_address (by simpa using inPosition)]
    exact ⟨⟨⟨ok.1, ok.2.1⟩, rfl⟩, presenceParent rfl⟩

end Upsert

theorem nodup_filterMap_address {κ : Type} {keys : List κ}
    {plan : κ → Option RegisterWrite} (address : κ → RegisterAddress)
    (target : ∀ key write, plan key = some write → write.address = address key)
    (distinct : (keys.map address).Nodup) :
    ((keys.filterMap plan).map RegisterWrite.address).Nodup := by
  induction keys with
  | nil => simp
  | cons key keys ih =>
    obtain ⟨fresh, rest⟩ := nodup_cons.mp distinct
    rw [filterMap_cons]
    cases planned : plan key with
    | none => exact ih rest
    | some write =>
      refine nodup_cons.mpr ⟨fun mem => fresh ?_, ih rest⟩
      obtain ⟨other, inWrites, same⟩ := List.mem_map.mp mem
      obtain ⟨k, inKeys, planned'⟩ := mem_filterMap.mp inWrites
      rw [← target key write planned, ← same, target k other planned']
      exact List.mem_map_of_mem inKeys

theorem nodup_presenceWrites {address : RegisterAddress}
    {contents : List RegisterWrite} (distinct : (contents.map RegisterWrite.address).Nodup)
    (others : ∀ write ∈ contents, write.address ≠ address) :
    ((contents ++ presenceWrites state address contents).map RegisterWrite.address).Nodup := by
  rw [map_append, nodup_append]
  refine ⟨distinct, ?_, fun a inContents b inPresence => ?_⟩
  · simp only [presenceWrites]
    split <;> simp
  · obtain ⟨write, mem, rfl⟩ := List.mem_map.mp inContents
    obtain ⟨presence, mem', rfl⟩ := List.mem_map.mp inPresence
    rw [presenceWrites_address mem']
    exact others write mem

theorem upsertContents_distinct (state : ConvergentSyncState) (collection entityId : JsString)
    (value : JsonObject) (position : Option CollectionPosition) :
    ((upsertContents state collection entityId value position).map RegisterWrite.address).Nodup := by
  rw [upsertContents, map_append, nodup_append]
  refine ⟨nodup_filterMap_address (fun f => .entityField collection entityId f)
    (fun _ _ planned => fieldWrite_address planned)
    ((nodup_map_iff fun a b h => by cases h; rfl).mpr (upsertFieldNames_nodup _ _)), ?_, ?_⟩
  · cases positionWrite state (.entityPosition collection entityId) position <;> simp
  · intro a inFields b inPosition
    obtain ⟨write, mem, rfl⟩ := List.mem_map.mp inFields
    obtain ⟨f, _, planned⟩ := mem_filterMap.mp mem
    obtain ⟨write', mem', rfl⟩ := List.mem_map.mp inPosition
    rw [fieldWrite_address planned, positionWrite_address (by simpa using mem')]
    simp

theorem upsertContents_ne_presence {collection entityId : JsString}
    {value : JsonObject} {position : Option CollectionPosition} {write : RegisterWrite}
    (mem : write ∈ upsertContents state collection entityId value position) :
    write.address ≠ .entityPresence collection entityId := by
  rcases mem_append.mp mem with inFields | inPosition
  · obtain ⟨f, _, planned⟩ := mem_filterMap.mp inFields
    simp [fieldWrite_address planned]
  · simp [positionWrite_address (by simpa using inPosition)]

theorem applyEntityUpsert_eq {deviceId collection entityId : JsString}
    {value : JsonObject} {position : Option CollectionPosition} {now : JsNumber}
    (well : StoredWell state)
    (ok : MutationOk state (.entityUpsert collection entityId value position)) :
    applyEntityUpsert state deviceId collection entityId value position now =
      runWrites deviceId now (openParent state (.entityPresence collection entityId))
        (mutationWrites state (.entityUpsert collection entityId value position)) := by
  have valid := @upsertField_valid _ _ _ _ _ well ok
  have writable := upsertContents_writable well ok
  obtain ⟨collectionNamed, entityNamed, _, structural⟩ := ok
  have idMatches : ((getOwnRecordValue value (text "id")).all
      fun structuralId => structuralId = .str entityId) = true := by
    cases found : getOwnRecordValue value (text "id") with
    | none => rfl
    | some structuralId => simpa using structural structuralId found
  set opened := openParent state (.entityPresence collection entityId) with openedDef
  have unopened : ∀ other, other ≠ .entityPresence collection entityId →
      registerAt opened other = registerAt state other := fun other ne =>
    registerAt_openParent_of_ne ne
  simp only [upsertContents, mutationWrites] at writable ⊢
  set names := upsertFieldNames ((findEntity state collection entityId).getD createdEntity)
    (incomingFields value) with namesDef
  set fieldWrites := names.filterMap (fieldWrite state collection entityId (incomingFields value))
    with fieldWritesDef
  set stale := presenceIsStale (registerAt state (.entityPresence collection entityId)) with staleDef
  have loop : names.foldlM (upsertField deviceId now collection entityId (incomingFields value))
      (opened, stale) = runWrites deviceId now opened fieldWrites >>=
        fun s => .ok (if fieldWrites = [] then (opened, stale) else (s, true)) :=
    foldlM_eq_runWrites Prod.fst (fun _ s => (s, true))
      (fun s f => fieldWrite s collection entityId (incomingFields value) f)
      (fun f => .entityField collection entityId f) names state (fun _ _ => rfl)
      (fun _ _ _ => rfl) (fun _ f mem => upsertField_eq (valid mem).1.2.2)
      (fun s s' f _ same => by simp only [fieldWrite, same]) (fun s f write => fieldWrite_address)
      (fun f mem => (valid mem).1)
      ((nodup_map_iff fun a b h => by cases h; rfl).mpr (upsertFieldNames_nodup _ _))
      (opened, stale) (fun f _ => presenceParent rfl) (fun f _ => unopened _ (by simp))
  simp only [applyEntityUpsert, idMatches, ensure, if_true, ok_bind,
    ensureEntity_eq collectionNamed entityNamed, entityIsStale, ← openedDef, ← namesDef, ← staleDef,
    loop, bind_assoc, runWrites_append]
  cases ran : runWrites deviceId now opened fieldWrites with
  | error e => rfl
  | ok s =>
    -- The field writes leave the position register alone.
    have positionSame : positionWrite s (.entityPosition collection entityId) position =
        positionWrite state (.entityPosition collection entityId) position := by
      have frame : registerAt s (.entityPosition collection entityId) =
          registerAt opened (.entityPosition collection entityId) :=
        registerAt_runWrites (fun write mem => writable write (mem_append_left _ mem)) ran
          fun write mem => by
            obtain ⟨f, _, planned⟩ := mem_filterMap.mp mem
            simp [fieldWrite_address planned]
      simp only [positionWrite, frame, unopened _ (by simp : RegisterAddress.entityPosition
        collection entityId ≠ .entityPresence collection entityId)]
    have current : (if fieldWrites = [] then (opened, stale) else (s, true)) =
        (s, stale || decide (fieldWrites ≠ [])) := by
      split
      · rename_i none
        rw [none, runWrites_nil, Except.ok.injEq] at ran
        simp [none, ran]
      · rename_i some
        simp [some]
    simp only [ok_bind, current, upsertPosition_eq, refreshPresence_eq, positionSame, bind_assoc,
      presenceWrites, ← staleDef]
    refine bind_congr fun s' => ?_
    have flag : (stale || decide (fieldWrites ≠ []) ||
        (positionWrite state (.entityPosition collection entityId) position).isSome) =
        (stale || decide (fieldWrites ++
          (positionWrite state (.entityPosition collection entityId) position).toList ≠ [])) := by
      cases positionWrite state (.entityPosition collection entityId) position <;> simp
    rw [flag]

theorem applyStringEntryAdd_eq {deviceId collection value : JsString}
    {position : Option CollectionPosition} {now : JsNumber}
    (ok : MutationOk state (.stringEntryAdd collection value position)) :
    applyStringEntryAdd state deviceId collection value position now =
      runWrites deviceId now (openParent state (.stringEntryPresence collection value))
        (mutationWrites state (.stringEntryAdd collection value position)) := by
  have positionSame : positionWrite (openParent state (.stringEntryPresence collection value))
      (.stringEntryPosition collection value) position =
      positionWrite state (.stringEntryPosition collection value) position := by
    simp only [positionWrite, registerAt_openParent_of_ne (by simp [RegisterAddress.presence] :
      RegisterAddress.stringEntryPosition collection value ≠
        (RegisterAddress.stringEntryPresence collection value).presence)]
  simp only [applyStringEntryAdd, ensureStringEntry_eq ok.1 ok.2, ok_bind, entryIsStale,
    upsertPosition_eq, refreshPresence_eq, positionSame, bind_assoc, mutationWrites,
    runWrites_append, presenceWrites]
  refine bind_congr fun s => ?_
  cases positionWrite state (.stringEntryPosition collection value) position <;> simp

theorem applyEntityFieldSet_eq
    {deviceId collection entityId field : JsString} {value : JsonValue} {now : JsNumber}
    (ok : MutationOk state (.entityFieldSet collection entityId field value)) :
    applyEntityFieldSet state deviceId collection entityId field value now =
      runWrites deviceId now (openParent state (.entityPresence collection entityId))
        (mutationWrites state (.entityFieldSet collection entityId field value)) := by
  obtain ⟨collectionNamed, entityNamed, fieldNamed, notId⟩ := ok
  have same : registerAt (openParent state (.entityPresence collection entityId))
      (.entityField collection entityId field) =
      registerAt state (.entityField collection entityId field) :=
    registerAt_openParent_of_ne (by simp [RegisterAddress.presence])
  simp only [applyEntityFieldSet, requireNonEmpty, assertNonEmptyKey, ensure, ne_eq, fieldNamed,
    notId, not_false_eq_true, decide_true, if_true, ok_bind,
    ensureEntity_eq collectionNamed entityNamed, same, mutationWrites]
  split <;> simp [runWrites_cons]

theorem applyEntityFieldDelete_eq
    {deviceId collection entityId field : JsString} {now : JsNumber} (well : StoredWell state)
    (ok : MutationOk state (.entityFieldDelete collection entityId field)) :
    applyEntityFieldDelete state deviceId collection entityId field now =
      runWrites deviceId now state
        (mutationWrites state (.entityFieldDelete collection entityId field)) := by
  obtain ⟨fieldNamed, notId⟩ := ok
  simp only [applyEntityFieldDelete, requireNonEmpty, assertNonEmptyKey, ensure, ne_eq, fieldNamed,
    notId, not_false_eq_true, decide_true, if_true, ok_bind, mutationWrites]
  cases found : findEntity state collection entityId with
  | none => simp [registerAt, found, registerIsPresent, selectRegisterWinner]
  | some entity =>
    have stored : registerAt state (.entityPresence collection entityId) = some entity.presence := by
      simp [registerAt, found]
    have valid := well.addresses _ _ stored
    have parent : state.HasParent (.entityPresence collection entityId) := Or.inr (by
      simp [RegisterAddress.presence, stored])
    simp only [Option.isNone_some, Bool.false_eq_true, if_false, ensureEntity_eq valid.1.1 valid.1.2,
      ok_bind, openParent_eq_self parent]
    split
    · rename_i present
      rw [runWrites_cons]
      cases ran : writeRegisterAt state deviceId now (.entityField collection entityId field) none with
      | error e => rfl
      | ok s =>
        -- Deleting the field leaves the presence register alone.
        have named : (RegisterAddress.entityField collection entityId field).Named :=
          ⟨valid.1.1, valid.1.2, fieldNamed⟩
        obtain ⟨hlc, _, rfl⟩ := (writeRegisterAt_eq_ok named parent).mp ran
        have frame := registerAt_writtenState named parent deviceId hlc none
          (.entityPresence collection entityId)
        rw [if_neg (by simp)] at frame
        simp only [ok_bind, frame]
        split <;> simp [runWrites_cons]
    · rfl

theorem relatedWrite_eq_some {path : List JsString}
    {includeAncestors : Bool} {key : JsString} {write : RegisterWrite}
    (planned : relatedWrite state path includeAncestors key = some write) :
    write = ⟨.setting (settingPathOf key), none⟩ ∧ key ≠ settingKey path ∧
      settingPathIsRelated path (settingPathOf key) includeAncestors ∧
      registerIsPresent (state.settings.get? key) := by
  simp only [relatedWrite] at planned
  split at planned
  · rename_i related
    cases planned
    simp only [Bool.and_eq_true, decide_eq_true_eq] at related
    exact ⟨rfl, related.1.1, related.1.2, related.2⟩
  · cases planned

section Settings

variable {state : ConvergentSyncState} {path : List JsString} (well : StoredWell state)
include well

theorem settingKey_settingPathOf {key : JsString} (mem : key ∈ state.settings.keys) :
    ValidSettingPath (settingPathOf key) ∧ settingKey (settingPathOf key) = key := by
  obtain ⟨path, valid, rfl⟩ := well.settingKeys key mem
  rw [settingPathOf_settingKey valid]
  exact ⟨valid, rfl⟩

theorem settingPaths_nodup :
    (state.settings.keys.map fun key => RegisterAddress.setting (settingPathOf key)).Nodup := by
  refine (nodup_map_iff_inj_on state.settings.keys_nodup).mpr fun key mem key' mem' same => ?_
  rw [← (settingKey_settingPathOf well mem).2, ← (settingKey_settingPathOf well mem').2,
    RegisterAddress.setting.inj same]

theorem settingWrites_writable (valid : ValidSettingPath path) (value : Option JsonValue) :
    Writable state (settingWrites state path value) := by
  intro write mem
  rcases mem_append.mp mem with related | own
  · obtain ⟨key, inState, planned⟩ := mem_filterMap.mp related
    rw [(relatedWrite_eq_some planned).1]
    exact ⟨⟨(settingKey_settingPathOf well inState).1, rfl⟩, Or.inl rfl⟩
  · split at own
    · cases own
    · rw [mem_singleton.mp own]
      exact ⟨⟨valid, rfl⟩, Or.inl rfl⟩

theorem relatedWrite_ne {key : JsString} {includeAncestors : Bool} {write : RegisterWrite}
    (mem : key ∈ state.settings.keys)
    (planned : relatedWrite state path includeAncestors key = some write) :
    write.address ≠ .setting path := by
  obtain ⟨rfl, other, _⟩ := relatedWrite_eq_some planned
  intro same
  rw [← (settingKey_settingPathOf well mem).2, RegisterAddress.setting.inj same] at other
  exact other rfl

theorem settingWrites_distinct (value : Option JsonValue) :
    ((settingWrites state path value).map RegisterWrite.address).Nodup := by
  rw [settingWrites, map_append, nodup_append]
  refine ⟨nodup_filterMap_address (fun key => .setting (settingPathOf key))
    (fun _ _ planned => by rw [(relatedWrite_eq_some planned).1]) (settingPaths_nodup well), ?_, ?_⟩
  · split <;> simp
  · intro a inRelated b inOwn
    obtain ⟨write, mem, rfl⟩ := List.mem_map.mp inRelated
    obtain ⟨key, inState, planned⟩ := mem_filterMap.mp mem
    obtain ⟨write', mem', rfl⟩ := List.mem_map.mp inOwn
    split at mem'
    · cases mem'
    · rw [mem_singleton.mp mem']
      exact relatedWrite_ne well inState planned

theorem writeSettingRegister_eq {deviceId : JsString} {now : JsNumber} {value : Option JsonValue}
    (valid : ValidSettingPath path) :
    writeSettingRegister state deviceId path now value =
      runWrites deviceId now state (settingWrites state path value) := by
  have lookup : ∀ s : ConvergentSyncState, ∀ key ∈ state.settings.keys,
      registerAt s (.setting (settingPathOf key)) = s.settings.get? key := fun s key mem => by
    rw [registerAt, (settingKey_settingPathOf well mem).2]
  have loop : state.settings.keys.foldlM
      (tombstoneRelatedPath deviceId path now value.isSome) state =
      runWrites deviceId now state
        (state.settings.keys.filterMap (relatedWrite state path value.isSome)) >>=
        fun s => .ok (if state.settings.keys.filterMap (relatedWrite state path value.isSome) = []
          then state else s) :=
    foldlM_eq_runWrites id (fun _ s => s) (fun s key => relatedWrite s path value.isSome key)
      (fun key => .setting (settingPathOf key)) _ state (fun _ _ => rfl)
      (fun _ _ _ => rfl)
      (fun s key mem => by
        obtain ⟨otherValid, same⟩ := settingKey_settingPathOf well mem
        have decoded : decodeSettingPath key = .ok (settingPathOf key) :=
          decodeSettingPath_eq_ok.mpr ⟨otherValid, same.symm⟩
        simp only [tombstoneRelatedPath, relatedWrite, decoded, id]
        by_cases own : key = settingKey path
        · simp [own]
        · simp only [own, if_false, ok_bind, ne_eq, not_false_eq_true, decide_true, Bool.true_and]
          split
          · simp only [bind_ok]
          · rfl)
      (fun s s' key mem same => by
        rw [lookup s key mem, lookup s' key mem] at same
        simp only [relatedWrite, same])
      (fun s key write planned => by rw [(relatedWrite_eq_some planned).1])
      (fun key mem => (settingKey_settingPathOf well mem).1) (settingPaths_nodup well) state
      (fun _ _ => Or.inl rfl) (fun _ _ => rfl)
  simp only [writeSettingRegister, tombstoneRelatedSettingPaths,
    encodeSettingPath_eq_ok.mpr ⟨valid, rfl⟩, ok_bind, loop, bind_assoc, settingWrites,
    runWrites_append]
  cases ran : runWrites deviceId now state
      (state.settings.keys.filterMap (relatedWrite state path value.isSome)) with
  | error e => rfl
  | ok s =>
    have current : (if state.settings.keys.filterMap (relatedWrite state path value.isSome) = []
        then state else s) = s := by
      split
      · rename_i none
        rw [none, runWrites_nil, Except.ok.injEq] at ran
        exact ran
      · rfl
    have frame : registerAt s (.setting path) = registerAt state (.setting path) :=
      registerAt_runWrites (fun write mem => settingWrites_writable well valid value write
      (mem_append_left _ mem)) ran fun write mem => by
        obtain ⟨key, inState, planned⟩ := mem_filterMap.mp mem
        exact relatedWrite_ne well inState planned
    simp only [ok_bind, current, frame]
    split <;> simp [runWrites_cons]

end Settings

/-! ## All mutations -/

section Mutation

variable {state : ConvergentSyncState} {mutation : ConvergentMutation} (well : StoredWell state)
  (ok : MutationOk state mutation)
include well ok

theorem mutationWrites_writable :
    Writable (openMutation state mutation) (mutationWrites state mutation) := by
  cases mutation with
  | entityUpsert collection entityId value position =>
    intro write mem
    rcases mem_append.mp mem with contents | presence
    · exact upsertContents_writable well ok write contents
    · rw [presenceWrites_address presence]
      exact ⟨⟨⟨ok.1, ok.2.1⟩, rfl⟩, presenceParent rfl⟩
  | entityFieldSet collection entityId field value =>
    obtain ⟨collectionNamed, entityNamed, fieldNamed, notId⟩ := ok
    intro write mem
    simp only [mutationWrites] at mem
    split at mem
    · simp only [mem_cons, not_mem_nil, or_false] at mem
      rcases mem with rfl | rfl
      · exact ⟨⟨⟨collectionNamed, entityNamed, fieldNamed⟩, decide_eq_false notId⟩, presenceParent rfl⟩
      · exact ⟨⟨⟨collectionNamed, entityNamed⟩, rfl⟩, presenceParent rfl⟩
    · cases mem
  | entityFieldDelete collection entityId field =>
    intro write mem
    simp only [mutationWrites] at mem
    split at mem
    · rename_i present
      -- A present field is stored, so its entity is.
      cases found : findEntity state collection entityId with
      | none => simp [registerAt, found, registerIsPresent, selectRegisterWinner] at present
      | some entity =>
        have stored : registerAt state (.entityPresence collection entityId) = some entity.presence := by
          simp [registerAt, found]
        have valid := well.addresses _ _ stored
        have parent : (registerAt state (.entityPresence collection entityId)).isSome := by
          simp [stored]
        rcases mem_cons.mp mem with rfl | presence
        · exact ⟨⟨⟨valid.1.1, valid.1.2, ok.1⟩, decide_eq_false ok.2⟩, Or.inr parent⟩
        · split at presence
          · rw [mem_singleton.mp presence]
            exact ⟨valid, Or.inr parent⟩
          · cases presence
    · cases mem
  | entityDelete collection entityId =>
    intro write mem
    rw [mem_singleton.mp mem]
    exact ⟨⟨⟨ok.1, ok.2⟩, rfl⟩, presenceParent rfl⟩
  | settingSet path value => exact settingWrites_writable well ok (some value)
  | settingDelete path => exact settingWrites_writable well ok none
  | stringEntryAdd collection value position =>
    intro write mem
    rcases mem_append.mp mem with contents | presence
    · rw [positionWrite_address (by simpa using contents)]
      exact ⟨⟨⟨ok.1, ok.2⟩, rfl⟩, entryParent rfl⟩
    · rw [presenceWrites_address presence]
      exact ⟨⟨⟨ok.1, ok.2⟩, rfl⟩, entryParent rfl⟩
  | stringEntryDelete collection value =>
    intro write mem
    simp only [mutationWrites] at mem
    split at mem
    · rename_i present
      rw [mem_singleton.mp mem]
      exact ⟨⟨⟨ok.1, ok.2⟩, rfl⟩, Or.inr (isSome_of_registerIsPresent present)⟩
    · cases mem
  | resolveRegister address value tombstone =>
    obtain ⟨stored, _⟩ := ok
    obtain ⟨register, found⟩ := Option.isSome_iff_exists.mp stored
    have valid := well.addresses address register found
    cases address with
    | setting path => exact settingWrites_writable well valid.1 value
    | _ =>
      intro write mem
      rw [mem_singleton.mp mem]
      refine ⟨valid, Or.inr ?_⟩
      simp only [registerAt, Option.map_eq_some_iff, Option.bind_eq_some_iff] at found
      obtain ⟨parent, inState, _⟩ := found
      simp [openMutation, RegisterAddress.presence, registerAt, inState]

/-- **A mutation is its writes.** -/
theorem applyMutation_eq_runWrites (deviceId : JsString) (now : JsNumber) :
    applyMutation state deviceId mutation now =
      runWrites deviceId now (openMutation state mutation) (mutationWrites state mutation) := by
  cases mutation with
  | entityUpsert collection entityId value position => exact applyEntityUpsert_eq well ok
  | entityFieldSet collection entityId field value => exact applyEntityFieldSet_eq ok
  | entityFieldDelete collection entityId field => exact applyEntityFieldDelete_eq well ok
  | entityDelete collection entityId =>
    simp [applyMutation, ensureEntity_eq ok.1 ok.2, mutationWrites, openMutation, runWrites_cons]
  | settingSet path value => exact writeSettingRegister_eq well ok
  | settingDelete path => exact writeSettingRegister_eq well ok
  | stringEntryAdd collection value position => exact applyStringEntryAdd_eq ok
  | stringEntryDelete collection value =>
    simp only [applyMutation, requireNonEmpty, assertNonEmptyKey, ensure, ne_eq, ok.1, ok.2,
      not_false_eq_true, decide_true, if_true, ok_bind, mutationWrites, openMutation]
    split <;> simp [runWrites_cons]
  | resolveRegister address value tombstone =>
    obtain ⟨stored, resolution⟩ := ok
    obtain ⟨register, found⟩ := Option.isSome_iff_exists.mp stored
    have valid := well.addresses address register found
    have get : getRegisterAtAddress state address = .ok (some register) := by
      cases address with
      | setting path =>
        simp [getRegisterAtAddress, encodeSettingPath_eq_ok.mpr ⟨valid.1, rfl⟩, found]
      | _ => simp [getRegisterAtAddress, found]
    have checks : (tombstone && value.isSome) = false ∧ (!tombstone && value.isNone) = false := by
      cases value <;> simp [resolution]
    simp only [applyMutation, applyResolveRegister, get, ok_bind, Option.isSome_some, ensure, if_true,
      checks, Bool.not_false]
    cases address with
    | setting path => exact writeSettingRegister_eq well valid.1
    | _ => simp [mutationWrites, openMutation, runWrites_cons]

end Mutation

theorem mutationWrites_distinct (well : StoredWell state) (mutation : ConvergentMutation) :
    ((mutationWrites state mutation).map RegisterWrite.address).Nodup := by
  cases mutation with
  | entityUpsert collection entityId value position =>
    exact nodup_presenceWrites (upsertContents_distinct _ _ _ _ _) fun _ => upsertContents_ne_presence
  | entityFieldSet collection entityId field value =>
    simp only [mutationWrites]
    split <;> simp
  | entityFieldDelete collection entityId field =>
    simp only [mutationWrites]
    split
    · split <;> simp
    · simp
  | entityDelete collection entityId => simp [mutationWrites]
  | settingSet path value => exact settingWrites_distinct well _
  | settingDelete path => exact settingWrites_distinct well _
  | stringEntryAdd collection value position =>
    refine nodup_presenceWrites ?_ fun write mem => ?_
    · cases positionWrite state (.stringEntryPosition collection value) position <;> simp
    · simp [positionWrite_address (by simpa using mem)]
  | stringEntryDelete collection value =>
    simp only [mutationWrites]
    split <;> simp
  | resolveRegister address value tombstone =>
    cases address with
    | setting path => exact settingWrites_distinct well _
    | _ => simp [mutationWrites]

theorem foldlM_turns {α κ : Type} {step : α → κ → Checked α} {keys : List κ} {a b : α}
    (ran : keys.foldlM step a = .ok b) : ∀ key ∈ keys, ∃ a' b', step a' key = .ok b' := by
  induction keys generalizing a with
  | nil => simp
  | cons key keys ih =>
    rw [foldlM_cons] at ran
    obtain ⟨next, head, rest⟩ := bind_eq_ok.mp ran
    intro k mem
    rcases mem_cons.mp mem with rfl | mem
    · exact ⟨a, next, head⟩
    · exact ih rest k mem

theorem requireNonEmpty_eq_ok {value label : JsString} :
    requireNonEmpty value label = .ok () ↔ value ≠ [] := by
  simp [requireNonEmpty, assertNonEmptyKey]

theorem mutationOk_of_applyMutation {state state' : ConvergentSyncState} {deviceId : JsString}
    {mutation : ConvergentMutation} {now : JsNumber}
    (ran : applyMutation state deviceId mutation now = .ok state') : MutationOk state mutation := by
  cases mutation with
  | entityUpsert collection entityId value position =>
    obtain ⟨structural, rest⟩ := check_bind_eq_ok.mp ran
    obtain ⟨⟨opened, entity, created⟩, opening, rest⟩ := bind_eq_ok.mp rest
    obtain ⟨collectionNamed, entityNamed⟩ := named_of_ensureEntity opening
    obtain ⟨current, loop, _⟩ := bind_eq_ok.mp rest
    refine ⟨collectionNamed, entityNamed, fun entry mem => ?_, fun structuralId found => ?_⟩
    · by_cases isId : entry.1 = text "id"
      · rw [isId]
        decide
      · have inNames : entry.1 ∈ upsertFieldNames entity (incomingFields value) :=
          mem_upsertFieldNames.mpr (Or.inr (List.mem_map_of_mem
            (mem_filter.mpr ⟨mem, by simpa using isId⟩)))
        obtain ⟨before, after, turn⟩ := foldlM_turns loop entry.1 inNames
        exact requireNonEmpty_eq_ok.mp (check_bind_eq_ok.mp turn).1
    · rw [ensure_eq_ok, found] at structural
      simpa using structural
  | entityFieldSet collection entityId field value =>
    obtain ⟨fieldNamed, rest⟩ := check_bind_eq_ok.mp ran
    obtain ⟨notId, rest⟩ := check_bind_eq_ok.mp rest
    obtain ⟨_, opening, _⟩ := bind_eq_ok.mp rest
    obtain ⟨collectionNamed, entityNamed⟩ := named_of_ensureEntity opening
    exact ⟨collectionNamed, entityNamed, requireNonEmpty_eq_ok.mp fieldNamed, by simpa using notId⟩
  | entityFieldDelete collection entityId field =>
    obtain ⟨fieldNamed, rest⟩ := check_bind_eq_ok.mp ran
    obtain ⟨notId, _⟩ := check_bind_eq_ok.mp rest
    exact ⟨requireNonEmpty_eq_ok.mp fieldNamed, by simpa using notId⟩
  | entityDelete collection entityId =>
    obtain ⟨_, opening, _⟩ := bind_eq_ok.mp ran
    exact named_of_ensureEntity opening
  | settingSet path value =>
    obtain ⟨_, related, _⟩ := bind_eq_ok.mp ran
    obtain ⟨_, encoded, _⟩ := bind_eq_ok.mp related
    exact (encodeSettingPath_eq_ok.mp encoded).1
  | settingDelete path =>
    obtain ⟨_, related, _⟩ := bind_eq_ok.mp ran
    obtain ⟨_, encoded, _⟩ := bind_eq_ok.mp related
    exact (encodeSettingPath_eq_ok.mp encoded).1
  | stringEntryAdd collection value position =>
    obtain ⟨_, opening, _⟩ := bind_eq_ok.mp ran
    exact named_of_ensureStringEntry opening
  | stringEntryDelete collection value =>
    obtain ⟨collectionNamed, rest⟩ := check_bind_eq_ok.mp ran
    obtain ⟨valueNamed, _⟩ := check_bind_eq_ok.mp rest
    exact ⟨requireNonEmpty_eq_ok.mp collectionNamed, requireNonEmpty_eq_ok.mp valueNamed⟩
  | resolveRegister address value tombstone =>
    obtain ⟨register, got, rest⟩ := bind_eq_ok.mp ran
    obtain ⟨stored, rest⟩ := check_bind_eq_ok.mp rest
    obtain ⟨noValue, rest⟩ := check_bind_eq_ok.mp rest
    obtain ⟨hasValue, _⟩ := check_bind_eq_ok.mp rest
    have same : registerAt state address = register := by
      cases address with
      | setting path =>
        obtain ⟨_, _, eq⟩ := bind_eq_ok.mp got
        exact Except.ok.inj eq
      | _ => exact Except.ok.inj got
    rw [ensure_eq_ok] at stored noValue hasValue
    refine ⟨same ▸ stored, ?_⟩
    cases value <;> cases tombstone <;> simp_all

end Netcatty
