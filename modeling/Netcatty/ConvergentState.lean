import Netcatty.ConvergentValidation

/-!
Mutations and the join of replicas: the first half of `state.ts`.

The source mutates a private clone of the replica in place; here each function
returns the replica it leaves behind.  An alias such as `entity` in
`applyEntityUpsert` is the entity stored at its address, so a write through the
alias is a write at the address (`writeRegisterAt`), and a later read through
the alias reads that address again.
-/

namespace Netcatty

/-- `ConvergentMutation`. -/
inductive ConvergentMutation where
  | entityUpsert (collection entityId : JsString) (value : JsonObject)
      (position : Option CollectionPosition)
  | entityFieldSet (collection entityId field : JsString) (value : JsonValue)
  | entityFieldDelete (collection entityId field : JsString)
  | entityDelete (collection entityId : JsString)
  | settingSet (path : List JsString) (value : JsonValue)
  | settingDelete (path : List JsString)
  | stringEntryAdd (collection value : JsString) (position : Option CollectionPosition)
  | stringEntryDelete (collection value : JsString)
  | resolveRegister (address : RegisterAddress) (value : Option JsonValue) (tombstone : Bool)
  deriving DecidableEq

/-- `createConvergentSyncState`. -/
def createConvergentSyncState : ConvergentSyncState where
  vector := .empty
  dotOrigins := .empty
  hlc := .zero
  collections := .empty
  settings := .empty
  stringCollections := .empty

/-- `requireNonEmpty`. -/
def requireNonEmpty (value label : JsString) : Checked Unit := assertNonEmptyKey value label

variable (deviceId : JsString)

/-- `writeRegister` throws this when a device has used its last counter. -/
def deviceCounterExhausted : JsError :=
  .invariant (text "Device counter exhausted for " ++ deviceId)

variable (state : ConvergentSyncState)

/-- `writeRegister`: allocate the device's next dot and return the register the
new candidate forms alone.  No `value` is a tombstone. -/
def writeRegister (deviceId : JsString) (now : JsNumber)
    (registerIdentity : RegisterId) (currentRegister : Option MultiValueRegister)
    (value : Option JsonValue) : Checked (ConvergentSyncState × MultiValueRegister) := do
  requireNonEmpty deviceId (text "Device ID")
  let context := registerCausalContext currentRegister
  let currentCounter := state.vector.counter deviceId
  ensure (currentCounter < maxSafeInteger) (deviceCounterExhausted deviceId)
  let counter := currentCounter + 1
  let deviceOrigins := (state.dotOrigins.get? deviceId).getD .empty
  let hlc ← tickHybridLogicalClock state.hlc now
  return ({ state with
      vector := state.vector.set deviceId counter
      dotOrigins := state.dotOrigins.set deviceId (deviceOrigins.set counter registerIdentity)
      hlc },
    { candidates := [{ dot := { deviceId, counter }, context, hlc, value }] })

/-- `candidateValueEquals`. -/
def candidateValueEquals (register : Option MultiValueRegister) (value : JsonValue) : Bool :=
  match (selectRegisterWinner register).bind RegisterCandidate.value with
  | some winnerValue => jsonValuesEqual winnerValue value
  | none => false

/-- `registerIsPresent`. -/
def registerIsPresent (register : Option MultiValueRegister) : Bool :=
  match selectRegisterWinner register with
  | some winner => !isTombstoneCandidate winner
  | none => false

/-! ## Addresses -/

/-- `findEntity`. -/
def findEntity (collectionName entityId : JsString) :
    Option ConvergentEntityState :=
  (state.collections.get? collectionName).bind fun collection => collection.entities.get? entityId

/-- `findStringEntry`. -/
def findStringEntry (collectionName value : JsString) :
    Option ConvergentStringEntryState :=
  (state.stringCollections.get? collectionName).bind fun collection => collection.entries.get? value

def setEntity (collectionName entityId : JsString)
    (entity : ConvergentEntityState) : ConvergentSyncState :=
  let collection := (state.collections.get? collectionName).getD { entities := .empty }
  { state with
    collections := state.collections.set collectionName
      { entities := collection.entities.set entityId entity } }

def setStringEntry (collectionName value : JsString)
    (entry : ConvergentStringEntryState) : ConvergentSyncState :=
  let collection := (state.stringCollections.get? collectionName).getD { entries := .empty }
  { state with
    stringCollections := state.stringCollections.set collectionName
      { entries := collection.entries.set value entry } }

/-- An entity as `ensureEntity` creates it, before its presence is written. -/
def createdEntity : ConvergentEntityState where
  presence := { candidates := [] }
  position := none
  fields := .empty

/-- A string entry as `ensureStringEntry` creates it. -/
def createdStringEntry : ConvergentStringEntryState where
  presence := { candidates := [] }
  position := none

/-- `ensureEntity`, with `ensureCollection`: the state holding the entity, the
entity, and whether it was created. -/
def ensureEntity (collectionName entityId : JsString) :
    Checked (ConvergentSyncState × ConvergentEntityState × Bool) := do
  requireNonEmpty entityId (text "Entity ID")
  requireNonEmpty collectionName (text "Collection name")
  match findEntity state collectionName entityId with
  | some entity => return (state, entity, false)
  | none => return (setEntity state collectionName entityId createdEntity, createdEntity, true)

/-- `ensureStringEntry`, with `ensureStringCollection`. -/
def ensureStringEntry (collectionName value : JsString) :
    Checked (ConvergentSyncState × ConvergentStringEntryState × Bool) := do
  requireNonEmpty value (text "String collection value")
  requireNonEmpty collectionName (text "String collection name")
  match findStringEntry state collectionName value with
  | some entry => return (state, entry, false)
  | none =>
    return (setStringEntry state collectionName value createdStringEntry, createdStringEntry, true)

/-- The register stored at an address, a setting looked up by its key. -/
def registerAt : RegisterAddress → Option MultiValueRegister
  | .entityPresence collection entityId =>
    (findEntity state collection entityId).map ConvergentEntityState.presence
  | .entityPosition collection entityId =>
    (findEntity state collection entityId).bind ConvergentEntityState.position
  | .entityField collection entityId field =>
    (findEntity state collection entityId).bind fun entity => entity.fields.get? field
  | .setting path => state.settings.get? (settingKey path)
  | .stringEntryPresence collection value =>
    (findStringEntry state collection value).map ConvergentStringEntryState.presence
  | .stringEntryPosition collection value =>
    (findStringEntry state collection value).bind ConvergentStringEntryState.position

/-- `getRegisterAtAddress`. -/
def getRegisterAtAddress (address : RegisterAddress) :
    Checked (Option MultiValueRegister) := do
  if let .setting path := address then
    let _ ← encodeSettingPath path
  return registerAt state address

/-- `setRegisterAtAddress`. -/
def setRegisterAtAddress (address : RegisterAddress)
    (register : MultiValueRegister) : Checked ConvergentSyncState :=
  match address with
  | .entityPresence collection entityId => do
    let (state, entity, _) ← ensureEntity state collection entityId
    return setEntity state collection entityId { entity with presence := register }
  | .entityPosition collection entityId => do
    let (state, entity, _) ← ensureEntity state collection entityId
    return setEntity state collection entityId { entity with position := some register }
  | .entityField collection entityId field => do
    requireNonEmpty field (text "Entity field")
    let (state, entity, _) ← ensureEntity state collection entityId
    return setEntity state collection entityId
      { entity with fields := entity.fields.set field register }
  | .setting path => do
    let key ← encodeSettingPath path
    return { state with settings := state.settings.set key register }
  | .stringEntryPresence collection value => do
    let (state, entry, _) ← ensureStringEntry state collection value
    return setStringEntry state collection value { entry with presence := register }
  | .stringEntryPosition collection value => do
    let (state, entry, _) ← ensureStringEntry state collection value
    return setStringEntry state collection value { entry with position := some register }

/-- `x = writeRegister(state, …, registerId(address), x, value)` for the register
`x` stored at `address`. -/
def writeRegisterAt (deviceId : JsString) (now : JsNumber)
    (address : RegisterAddress) (value : Option JsonValue) : Checked ConvergentSyncState := do
  let (state, register) ←
    writeRegister state deviceId now (registerId address) (registerAt state address) value
  setRegisterAtAddress state address register

/-! ## Entities -/

/-- `mutation.value` without its structural ID, as `applyEntityUpsert` reads it. -/
def incomingFields (value : JsonObject) : JsonObject := value.filter fun entry => entry.1 ≠ text "id"

/-- `getOwnRecordValue` of a JSON object. -/
def getOwnRecordValue (record : JsonObject) (key : JsString) : Option JsonValue :=
  SortedMap.lookupEntry key record

/-- The write condition of an upserted register: absent, in conflict, or another
value. -/
def needsWrite (register : Option MultiValueRegister) (value : JsonValue) : Bool :=
  match register with
  | none => true
  | some current => registerHasConflict current || !candidateValueEquals register value

/-- One turn of the field loop of `applyEntityUpsert`; the flag is `changed`. -/
def upsertField (now : JsNumber) (collection entityId : JsString)
    (incoming : JsonObject) (current : ConvergentSyncState × Bool) (field : JsString) :
    Checked (ConvergentSyncState × Bool) := do
  let (state, changed) := current
  requireNonEmpty field (text "Entity field")
  let address := RegisterAddress.entityField collection entityId field
  let currentRegister := registerAt state address
  match getOwnRecordValue incoming field with
  | none =>
    if registerIsPresent currentRegister then
      let state ← writeRegisterAt state deviceId now address none
      return (state, true)
    else return (state, changed)
  | some value =>
    if needsWrite currentRegister value then
      let state ← writeRegisterAt state deviceId now address (some value)
      return (state, true)
    else return (state, changed)

/-- The position step of `applyEntityUpsert` and `string-entry-add`. -/
def upsertPosition (now : JsNumber) (address : RegisterAddress)
    (position : Option CollectionPosition) (current : ConvergentSyncState × Bool) :
    Checked (ConvergentSyncState × Bool) := do
  let (state, changed) := current
  match position with
  | none => return (state, changed)
  | some position =>
    if needsWrite (registerAt state address) position.toJson then
      let state ← writeRegisterAt state deviceId now address (some position.toJson)
      return (state, true)
    else return (state, changed)

/-- The presence step: a change refreshes presence, so that a concurrent delete
conflicts with it instead of hiding it. -/
def refreshPresence (now : JsNumber) (address : RegisterAddress)
    (current : ConvergentSyncState × Bool) : Checked ConvergentSyncState :=
  if current.2 then writeRegisterAt current.1 deviceId now address (some (.bool true))
  else return current.1

/-- `[...fieldNames].sort()`: stored and incoming fields. -/
def upsertFieldNames (entity : ConvergentEntityState) (incoming : JsonObject) : List JsString :=
  (entity.fields.keys ++ incoming.map Prod.fst).dedup.insertionSort (· ≤ ·)

/-- `applyEntityUpsert`. -/
def applyEntityUpsert (deviceId collection entityId : JsString)
    (value : JsonObject) (position : Option CollectionPosition) (now : JsNumber) :
    Checked ConvergentSyncState := do
  ensure ((getOwnRecordValue value (text "id")).all fun structuralId => structuralId = .str entityId)
    (.invariant (text "Entity value ID must match its structural ID"))
  let (state, entity, created) ← ensureEntity state collection entityId
  let changed := created || !registerIsPresent (some entity.presence)
    || registerHasConflict entity.presence
  let incoming := incomingFields value
  let current ← (upsertFieldNames entity incoming).foldlM
    (upsertField deviceId now collection entityId incoming) (state, changed)
  let current ← upsertPosition deviceId now (.entityPosition collection entityId) position current
  refreshPresence deviceId now (.entityPresence collection entityId) current

def idIsStructural : JsError :=
  .invariant (text "Entity IDs are structural and cannot be field registers")

/-- `applyEntityFieldMutation` for `entity-field-delete`. -/
def applyEntityFieldDelete (deviceId collection entityId field : JsString)
    (now : JsNumber) : Checked ConvergentSyncState := do
  requireNonEmpty field (text "Entity field")
  ensure (field ≠ text "id") idIsStructural
  if (findEntity state collection entityId).isNone then return state
  let (state, _, _) ← ensureEntity state collection entityId
  if registerIsPresent (registerAt state (.entityField collection entityId field)) then
    let state ← writeRegisterAt state deviceId now (.entityField collection entityId field) none
    if registerIsPresent (registerAt state (.entityPresence collection entityId)) then
      writeRegisterAt state deviceId now (.entityPresence collection entityId) (some (.bool true))
    else return state
  else return state

/-- `applyEntityFieldMutation` for `entity-field-set`. -/
def applyEntityFieldSet (deviceId collection entityId field : JsString)
    (value : JsonValue) (now : JsNumber) : Checked ConvergentSyncState := do
  requireNonEmpty field (text "Entity field")
  ensure (field ≠ text "id") idIsStructural
  let (state, _, _) ← ensureEntity state collection entityId
  if needsWrite (registerAt state (.entityField collection entityId field)) value then
    let state ←
      writeRegisterAt state deviceId now (.entityField collection entityId field) (some value)
    writeRegisterAt state deviceId now (.entityPresence collection entityId) (some (.bool true))
  else return state

/-! ## Settings -/

/-- `settingPathIsPrefix`. -/
def settingPathIsPrefix (pre path : List JsString) : Bool := pre.isPrefixOf path

/-- `settingPathsOverlap`. -/
def settingPathsOverlap (left right : List JsString) : Bool :=
  settingPathIsPrefix left right || settingPathIsPrefix right left

/-- `isRelated` of `tombstoneRelatedSettingPaths`. -/
def settingPathIsRelated (path otherPath : List JsString) (includeAncestors : Bool) : Bool :=
  if includeAncestors then settingPathsOverlap path otherPath else settingPathIsPrefix path otherPath

/-- One turn of the loop of `tombstoneRelatedSettingPaths`. -/
def tombstoneRelatedPath (path : List JsString) (now : JsNumber)
    (includeAncestors : Bool) (state : ConvergentSyncState) (otherEncodedPath : JsString) :
    Checked ConvergentSyncState := do
  if otherEncodedPath = settingKey path then return state
  let otherPath ← decodeSettingPath otherEncodedPath
  if settingPathIsRelated path otherPath includeAncestors && registerIsPresent (state.settings.get? otherEncodedPath) then
    writeRegisterAt state deviceId now (.setting otherPath) none
  else return state

/-- `tombstoneRelatedSettingPaths`. -/
def tombstoneRelatedSettingPaths (deviceId : JsString)
    (path : List JsString) (now : JsNumber) (includeAncestors : Bool) :
    Checked ConvergentSyncState := do
  let _ ← encodeSettingPath path
  state.settings.keys.foldlM (tombstoneRelatedPath deviceId path now includeAncestors) state

/-- Whether `writeSettingRegister` leaves the register at its own path alone. -/
def settingUnchanged (currentRegister : Option MultiValueRegister) (value : Option JsonValue) : Bool :=
  match currentRegister with
  | none => false
  | some current => !registerHasConflict current &&
    match value with
    | none => (selectRegisterWinner currentRegister).any isTombstoneCandidate
    | some value => candidateValueEquals currentRegister value

/-- `writeSettingRegister`; no value is a deletion. -/
def writeSettingRegister (deviceId : JsString) (path : List JsString)
    (now : JsNumber) (value : Option JsonValue) : Checked ConvergentSyncState := do
  let state ← tombstoneRelatedSettingPaths state deviceId path now value.isSome
  if settingUnchanged (registerAt state (.setting path)) value then return state
  writeRegisterAt state deviceId now (.setting path) value

/-! ## Mutations -/

/-- `applyMutation` for `string-entry-add`. -/
def applyStringEntryAdd (deviceId collection value : JsString)
    (position : Option CollectionPosition) (now : JsNumber) : Checked ConvergentSyncState := do
  let (state, entry, created) ← ensureStringEntry state collection value
  let changed := created || !registerIsPresent (some entry.presence)
    || registerHasConflict entry.presence
  let current ←
    upsertPosition deviceId now (.stringEntryPosition collection value) position (state, changed)
  refreshPresence deviceId now (.stringEntryPresence collection value) current

/-- `applyMutation` for `resolve-register`. -/
def applyResolveRegister (deviceId : JsString)
    (address : RegisterAddress) (value : Option JsonValue) (tombstone : Bool) (now : JsNumber) :
    Checked ConvergentSyncState := do
  let currentRegister ← getRegisterAtAddress state address
  ensure currentRegister.isSome
    (.invariant (text "Cannot resolve a register that does not exist"))
  ensure (!(tombstone && value.isSome))
    (.invariant (text "A tombstone resolution cannot contain a value"))
  ensure (!(!tombstone && value.isNone))
    (.invariant (text "A value resolution requires a value"))
  match address with
  | .setting path => writeSettingRegister state deviceId path now value
  | _ => writeRegisterAt state deviceId now address value

/-- `applyMutation`. -/
def applyMutation (deviceId : JsString)
    (mutation : ConvergentMutation) (now : JsNumber) : Checked ConvergentSyncState :=
  match mutation with
  | .entityUpsert collection entityId value position =>
    applyEntityUpsert state deviceId collection entityId value position now
  | .entityFieldSet collection entityId field value =>
    applyEntityFieldSet state deviceId collection entityId field value now
  | .entityFieldDelete collection entityId field =>
    applyEntityFieldDelete state deviceId collection entityId field now
  | .entityDelete collection entityId => do
    let (state, _, _) ← ensureEntity state collection entityId
    writeRegisterAt state deviceId now (.entityPresence collection entityId) none
  | .settingSet path value => writeSettingRegister state deviceId path now (some value)
  | .settingDelete path => writeSettingRegister state deviceId path now none
  | .stringEntryAdd collection value position =>
    applyStringEntryAdd state deviceId collection value position now
  | .stringEntryDelete collection value => do
    requireNonEmpty collection (text "String collection name")
    requireNonEmpty value (text "String collection value")
    if registerIsPresent (registerAt state (.stringEntryPresence collection value)) then
      writeRegisterAt state deviceId now (.stringEntryPresence collection value) none
    else return state
  | .resolveRegister address value tombstone =>
    applyResolveRegister state deviceId address value tombstone now

/-- The loop of `applyConvergentMutations`. -/
def applyMutations (now : JsNumber) (state : ConvergentSyncState)
    (mutations : List ConvergentMutation) : Checked ConvergentSyncState :=
  mutations.foldlM (fun state mutation => applyMutation state deviceId mutation now) state

/-- `applyConvergentMutations`. -/
def applyConvergentMutations (deviceId : JsString)
    (mutations : List ConvergentMutation) (now : JsNumber) : Checked ConvergentSyncState := do
  assertValidConvergentSyncState state
  requireNonEmpty deviceId (text "Device ID")
  let next ← canonicalizeConvergentSyncState state
  let next ← applyMutations deviceId now next mutations
  assertValidConvergentSyncState next
  canonicalizeConvergentSyncState next

/-! ## The join -/

/-- `mergeRecord`. -/
def mergeRecord {K V : Type} [LinearOrder K] (left right : SortedMap K V)
    (merge : Option V → Option V → Checked (Option V)) : Checked (SortedMap K V) :=
  SortedMap.buildM (fun key => merge (left.get? key) (right.get? key))
    (SortedMap.unionKeys left right) .empty

/-- The merge of one counter's origins in `mergeDotOrigins`.  A register identity
is never the empty text, so `leftOrigin && rightOrigin` asks that both exist. -/
def mergeOrigin (leftOrigin rightOrigin : Option RegisterId) : Checked (Option RegisterId) :=
  match leftOrigin, rightOrigin with
  | some left, some right =>
    if left = right then .ok (some left)
    else .error (.invariant (text "Dot origin mismatch: " ++ left.flatten ++ text " !== "
      ++ right.flatten))
  | some left, none => .ok (some left)
  | none, right => .ok right

/-- `mergeDotOrigins`. -/
def mergeDotOrigins (left right : DotOriginIndex) : Checked DotOriginIndex :=
  mergeRecord left right fun leftDevice rightDevice => do
    return some (← mergeRecord (leftDevice.getD .empty) (rightDevice.getD .empty) mergeOrigin)

def mergeEntity (left right : Option ConvergentEntityState) :
    Checked (Option ConvergentEntityState) := do
  let presence ← mergeMultiValueRegisters (left.map ConvergentEntityState.presence)
    (right.map ConvergentEntityState.presence)
  match presence with
  | none => return none
  | some presence =>
    let position ← mergeMultiValueRegisters (left.bind ConvergentEntityState.position)
      (right.bind ConvergentEntityState.position)
    let fields ← mergeRecord ((left.map ConvergentEntityState.fields).getD .empty)
      ((right.map ConvergentEntityState.fields).getD .empty) mergeMultiValueRegisters
    return some { presence, position, fields }

def mergeCollection (left right : Option ConvergentCollectionState) :
    Checked (Option ConvergentCollectionState) := do
  let entities ← mergeRecord ((left.map ConvergentCollectionState.entities).getD .empty)
    ((right.map ConvergentCollectionState.entities).getD .empty) mergeEntity
  return if entities.keys = [] then none else some { entities }

def mergeStringEntry (left right : Option ConvergentStringEntryState) :
    Checked (Option ConvergentStringEntryState) := do
  let presence ← mergeMultiValueRegisters (left.map ConvergentStringEntryState.presence)
    (right.map ConvergentStringEntryState.presence)
  match presence with
  | none => return none
  | some presence =>
    let position ← mergeMultiValueRegisters (left.bind ConvergentStringEntryState.position)
      (right.bind ConvergentStringEntryState.position)
    return some { presence, position }

def mergeStringCollection (left right : Option ConvergentStringCollectionState) :
    Checked (Option ConvergentStringCollectionState) := do
  let entries ← mergeRecord ((left.map ConvergentStringCollectionState.entries).getD .empty)
    ((right.map ConvergentStringCollectionState.entries).getD .empty) mergeStringEntry
  return if entries.keys = [] then none else some { entries }

/-- The state `mergeConvergentSyncStates` builds before validating it. -/
def mergedState (left right : ConvergentSyncState) : Checked ConvergentSyncState := do
  let collections ← mergeRecord left.collections right.collections mergeCollection
  let settings ← mergeRecord left.settings right.settings mergeMultiValueRegisters
  let stringCollections ←
    mergeRecord left.stringCollections right.stringCollections mergeStringCollection
  let dotOrigins ← mergeDotOrigins left.dotOrigins right.dotOrigins
  return {
    vector := mergeVersionVectors left.vector right.vector
    dotOrigins
    hlc := maxHybridLogicalClock left.hlc right.hlc
    collections
    settings
    stringCollections }

/-- `mergeConvergentSyncStates`. -/
def mergeConvergentSyncStates (left right : ConvergentSyncState) : Checked ConvergentSyncState := do
  assertValidConvergentSyncState left
  assertValidConvergentSyncState right
  let merged ← mergedState left right
  assertValidConvergentSyncState merged
  canonicalizeConvergentSyncState merged

end Netcatty
