import Netcatty.ConvergentRegister

/-!
Validation and canonical form: `serialization.ts`.

`assertValidConvergentSyncState` visits every register of a state and threads
three accumulators through the visit.  The visit is written as the list of
checks it makes, in the source's order (`stateChecks`), run one after the other
by `runCheck`; a check that fails ends the run with its error.
-/

namespace Netcatty

/-! ## Scalar assertions -/

/-- `assertNonNegativeInteger`; the other number forms are excluded by type. -/
def assertNonNegativeInteger (value : ℕ) (label : JsString) : Checked Unit :=
  ensure (value ≤ maxSafeInteger) (.invariant (label ++ text " must be a non-negative integer"))

/-- `assertPositiveInteger`. -/
def assertPositiveInteger (value : ℕ) (label : JsString) : Checked Unit :=
  ensure (value ≤ maxSafeInteger && 0 < value)
    (.invariant (label ++ text " must be a positive integer"))

/-- The error of `assertNonEmptyKey` and `requireNonEmpty`. -/
def mustNotBeEmpty (label : JsString) : JsError := .invariant (label ++ text " must not be empty")

/-- `assertNonEmptyKey` and `requireNonEmpty`. -/
def assertNonEmptyKey (value label : JsString) : Checked Unit :=
  ensure (value ≠ []) (mustNotBeEmpty label)

/-- `assertVersionVector`. -/
def assertVersionVector (vector : VersionVector) (label : JsString) : Checked Unit :=
  vector.entries.forM fun (deviceId, counter) => do
    assertNonEmptyKey deviceId (label ++ text " device ID")
    assertPositiveInteger counter (label ++ text "." ++ deviceId)

def originsMustCover (deviceId : JsString) : JsError :=
  .invariant (text "dotOrigins." ++ deviceId ++ text " must cover every counter in the state vector")

/-- `assertDotOrigins`. -/
def assertDotOrigins (dotOrigins : DotOriginIndex) (vector : VersionVector) : Checked Unit := do
  dotOrigins.entries.forM fun (deviceId, origins) => do
    assertNonEmptyKey deviceId (text "dotOrigins device ID")
    let vectorCounter := vector.counter deviceId
    ensure (vectorCounter ≠ 0 && origins.keys.length = vectorCounter) (originsMustCover deviceId)
    (List.range vectorCounter).forM fun index =>
      ensure (origins.get? (index + 1)).isSome
        (.invariant (text "dotOrigins." ++ deviceId ++ text "." ++ decimal (index + 1)
          ++ text " must contain a register identity"))
  vector.keys.forM fun deviceId =>
    ensure (dotOrigins.get? deviceId).isSome (originsMustCover deviceId)

/-- `assertClock`. -/
def assertClock (clock : HybridLogicalClock) (label : JsString) : Checked Unit := do
  assertNonNegativeInteger clock.wallTime (label ++ text ".wallTime")
  assertNonNegativeInteger clock.logical (label ++ text ".logical")

/-! ## Candidates -/

/-- `DotLocation`. -/
structure DotLocation where
  candidateLabel : JsString
  registerIdentity : RegisterId

/-- `ContextReference`. -/
structure ContextReference where
  key : JsString
  label : JsString
  registerIdentity : RegisterId

/-- The accumulators of the validator: `globalDots`, `witnessedDots` and
`contextReferences`. -/
structure ValidationTrace where
  globalDots : List (JsString × DotLocation) := []
  witnessedDots : List Dot := []
  contextReferences : List ContextReference := []

/-- `assertCoveredDot`. -/
def assertCoveredDot (dot : Dot) (state : ConvergentSyncState) (label : JsString) :
    Checked Unit := do
  ensure (dot.deviceId ≠ []) (mustNotBeEmpty (label ++ text ".deviceId"))
  assertPositiveInteger dot.counter (label ++ text ".counter")
  ensure (dot.counter ≤ state.vector.counter dot.deviceId)
    (.invariant (label ++ text " is not covered by the state vector"))

variable (state : ConvergentSyncState)

def ConvergentSyncState.origin (dot : Dot) : Option RegisterId :=
  (state.dotOrigins.get? dot.deviceId).bind fun origins => origins.get? dot.counter

/-- `assertDotOrigin`. -/
def assertDotOrigin (dot : Dot) (expectedRegisterId : RegisterId)
    (label : JsString) : Checked Unit :=
  ensure (state.origin dot = some expectedRegisterId)
    (.invariant (label ++ text " is assigned to a different register origin"))

/-- One turn of the context loop of `assertCandidate`; `earlier` is the part of
the context before this dot, which `contextKeys` holds. -/
def assertContextDot (label : JsString) (registerIdentity : RegisterId)
    (candidateDot : Dot) (earlier : List Dot) (contextDot : Dot) : Checked Unit := do
  let contextLabel := label ++ text ".context[" ++ decimal earlier.length ++ text "]"
  assertCoveredDot contextDot state contextLabel
  assertDotOrigin state contextDot registerIdentity contextLabel
  ensure (dotKey contextDot ∉ earlier.map dotKey)
    (.invariant (label ++ text ".context contains duplicate dot " ++ dotKey contextDot))
  ensure (dotKey contextDot ≠ dotKey candidateDot)
    (.invariant (label ++ text ".context must not contain its own dot"))
  ensure (!(contextDot.deviceId = candidateDot.deviceId
      && candidateDot.counter ≤ contextDot.counter))
    (.invariant (contextLabel ++ text " must precede its own device dot"))

/-- The context loop of `assertCandidate`. -/
def assertContext (state : ConvergentSyncState) (label : JsString) (registerIdentity : RegisterId)
    (candidateDot : Dot) : List Dot → List Dot → Checked Unit
  | _, [] => .ok ()
  | earlier, contextDot :: rest => do
    assertContextDot state label registerIdentity candidateDot earlier contextDot
    assertContext state label registerIdentity candidateDot (earlier ++ [contextDot]) rest

/-- The context references `assertCandidate` records. -/
def contextReferencesOf (label : JsString) (registerIdentity : RegisterId) (context : List Dot) :
    List ContextReference :=
  context.zipIdx.map fun (dot, index) =>
    { key := dotKey dot, label := label ++ text ".context[" ++ decimal index ++ text "]",
      registerIdentity }

/-- What an accepted candidate adds to the accumulators. -/
def ValidationTrace.record (trace : ValidationTrace) (label : JsString)
    (registerIdentity : RegisterId) (candidate : RegisterCandidate) : ValidationTrace where
  globalDots := trace.globalDots ++
    [(dotKey candidate.dot, { candidateLabel := label, registerIdentity })]
  witnessedDots := trace.witnessedDots ++ candidate.context ++ [candidate.dot]
  contextReferences := trace.contextReferences ++
    contextReferencesOf label registerIdentity candidate.context

variable (candidate : RegisterCandidate)

/-- The end of `assertCandidate`: refuse a dot seen before, else record it. -/
def recordCandidate (label : JsString)
    (registerIdentity : RegisterId) (trace : ValidationTrace) : Checked ValidationTrace :=
  match trace.globalDots.find? (fun entry => entry.1 = dotKey candidate.dot) with
  | some (key, previousLocation) =>
    throw (.invariant (text "Dot " ++ key ++ text " is reused by " ++
      previousLocation.candidateLabel ++ text " and " ++ label))
  | none => return trace.record label registerIdentity candidate

/-- `assertCandidate`.  That the value is JSON, and absent from a tombstone, holds
by type. -/
def assertCandidate (state : ConvergentSyncState)
    (label : JsString) (registerIdentity : RegisterId) (trace : ValidationTrace) :
    Checked ValidationTrace := do
  assertCoveredDot candidate.dot state (label ++ text ".dot")
  assertDotOrigin state candidate.dot registerIdentity (label ++ text ".dot")
  assertContext state label registerIdentity candidate.dot [] candidate.context
  assertClock candidate.hlc (label ++ text ".hlc")
  ensure (compareHybridLogicalClocks candidate.hlc state.hlc ≠ .gt)
    (.invariant (label ++ text ".hlc exceeds the state clock"))
  recordCandidate candidate label registerIdentity trace

/-! ## The visit -/

inductive Check where
  /-- A condition on a name or a value. -/
  | require (holds : Bool) (error : JsError)
  /-- `decodeSettingPath` of a settings key. -/
  | decode (encodedPath : JsString)
  /-- `assertCandidate`. -/
  | candidate (label : JsString) (registerIdentity : RegisterId) (candidate : RegisterCandidate)

def runCheck (trace : ValidationTrace) :
    Check → Checked ValidationTrace
  | .require holds error => do ensure holds error; return trace
  | .decode encodedPath => do let _ ← decodeSettingPath encodedPath; return trace
  | .candidate label registerIdentity candidate =>
    assertCandidate candidate state label registerIdentity trace

/-- A validator a register's candidates must also pass, with its message. -/
structure ValueValidator where
  accepts : RegisterCandidate → Bool
  message : JsString

/-- `assertPresenceCandidate`. -/
def presenceValidator : ValueValidator where
  accepts candidate := isTombstoneCandidate candidate || candidate.value = some (.bool true)
  message := text " presence values must be true"

/-- `assertPositionCandidate`. -/
def positionValidator : ValueValidator where
  accepts candidate := match candidate.value with
    | none | some (.str _) | some (.num _) => true
    | some _ => false
  message := text " position must be a string or number"

def anyValidator : ValueValidator := ⟨fun _ => true, []⟩

/-- `assertRegister`. -/
def registerChecks (register : MultiValueRegister) (label : JsString)
    (registerIdentity : RegisterId) (valueValidator : ValueValidator) : List Check :=
  .require (register.candidates ≠ [])
    (.invariant (label ++ text " must contain at least one candidate")) ::
  register.candidates.zipIdx.flatMap fun (candidate, index) =>
    let candidateLabel := label ++ text ".candidates[" ++ decimal index ++ text "]"
    [.candidate candidateLabel registerIdentity candidate,
     .require (valueValidator.accepts candidate)
      (.invariant (candidateLabel ++ valueValidator.message))]

def positionChecks (position : Option MultiValueRegister) (label : JsString)
    (registerIdentity : RegisterId) : List Check :=
  match position with
  | none => []
  | some register => registerChecks register label registerIdentity positionValidator

def fieldChecks (collectionName entityId entityLabel : JsString)
    (entry : JsString × MultiValueRegister) : List Check :=
  .require (entry.1 ≠ []) (mustNotBeEmpty (entityLabel ++ text " field")) ::
  .require (entry.1 ≠ text "id")
    (.invariant (entityLabel ++ text " must not store structural ID as a field")) ::
  registerChecks entry.2 (entityLabel ++ text ".fields." ++ entry.1)
    (registerId (.entityField collectionName entityId entry.1)) anyValidator

def entityChecks (collectionName : JsString) (entry : JsString × ConvergentEntityState) :
    List Check :=
  let entityLabel := text "collections." ++ collectionName ++ text "." ++ entry.1
  .require (entry.1 ≠ []) (mustNotBeEmpty (text "Entity ID in " ++ collectionName)) ::
  registerChecks entry.2.presence (entityLabel ++ text ".presence")
    (registerId (.entityPresence collectionName entry.1)) presenceValidator ++
  positionChecks entry.2.position (entityLabel ++ text ".position")
    (registerId (.entityPosition collectionName entry.1)) ++
  entry.2.fields.entries.flatMap (fieldChecks collectionName entry.1 entityLabel)

def collectionChecks (entry : JsString × ConvergentCollectionState) : List Check :=
  .require (entry.1 ≠ []) (mustNotBeEmpty (text "Collection name")) ::
  entry.2.entities.entries.flatMap (entityChecks entry.1)

def settingPathOf (encodedPath : JsString) : List JsString :=
  match decodeSettingPath encodedPath with
  | .ok path => path
  | .error _ => []

def settingChecks (entry : JsString × MultiValueRegister) : List Check :=
  .decode entry.1 ::
  registerChecks entry.2 (text "settings." ++ entry.1)
    (registerId (.setting (settingPathOf entry.1))) anyValidator

def stringEntryChecks (collectionName : JsString)
    (entry : JsString × ConvergentStringEntryState) : List Check :=
  let entryLabel := text "stringCollections." ++ collectionName ++ text "." ++ entry.1
  .require (entry.1 ≠ []) (mustNotBeEmpty (text "Entry value in " ++ collectionName)) ::
  registerChecks entry.2.presence (entryLabel ++ text ".presence")
    (registerId (.stringEntryPresence collectionName entry.1)) presenceValidator ++
  positionChecks entry.2.position (entryLabel ++ text ".position")
    (registerId (.stringEntryPosition collectionName entry.1))

def stringCollectionChecks (entry : JsString × ConvergentStringCollectionState) : List Check :=
  .require (entry.1 ≠ []) (mustNotBeEmpty (text "String collection name")) ::
  entry.2.entries.entries.flatMap (stringEntryChecks entry.1)

/-- Every check of the visit, in order. -/
def stateChecks : List Check :=
  state.collections.entries.flatMap collectionChecks ++
  state.settings.entries.flatMap settingChecks ++
  state.stringCollections.entries.flatMap stringCollectionChecks

def assertReference (trace : ValidationTrace) (reference : ContextReference) : Checked Unit :=
  match trace.globalDots.find? (fun entry => entry.1 = reference.key) with
  | some (_, retainedLocation) =>
    throw (.invariant (reference.label ++ text " references candidate dot " ++ reference.key ++
      text " retained in " ++
      if retainedLocation.registerIdentity = reference.registerIdentity then text "the same register"
      else text "another register"))
  | none => .ok ()

/-- `assertVectorIsExactlyWitnessed`. -/
def assertVectorIsExactlyWitnessed (vector : VersionVector) (witnessedDots : List Dot) :
    Checked Unit :=
  vector.entries.forM fun (deviceId, counter) =>
    let counters := ((witnessedDots.filter (·.deviceId = deviceId)).map Dot.counter).dedup
    ensure (counters.length = counter && counter ∈ counters)
      (.invariant (text "vector." ++ deviceId ++
        text " is not witnessed by retained candidate dots and contexts"))

/-- `assertValidConvergentSyncState`. -/
def assertValidConvergentSyncState : Checked Unit := do
  assertVersionVector state.vector (text "vector")
  assertDotOrigins state.dotOrigins state.vector
  assertClock state.hlc (text "hlc")
  let trace ← (stateChecks state).foldlM (runCheck state) {}
  trace.contextReferences.forM (assertReference trace)
  assertVectorIsExactlyWitnessed state.vector trace.witnessedDots

/-! ## Canonical form -/

/-- `canonicalCandidate`. -/
def canonicalCandidate : RegisterCandidate :=
  candidateFingerprint candidate

/-- `canonicalRegister`. -/
def canonicalRegister (register : MultiValueRegister) : MultiValueRegister where
  candidates := (register.candidates.map canonicalCandidate).insertionSort fun a b => a.dot ≤ b.dot

/-- `canonicalEntity`. -/
def canonicalEntity (entity : ConvergentEntityState) : ConvergentEntityState where
  presence := canonicalRegister entity.presence
  position := entity.position.map canonicalRegister
  fields := entity.fields.mapValues canonicalRegister

/-- `canonicalCollection`. -/
def canonicalCollection (collection : ConvergentCollectionState) : ConvergentCollectionState where
  entities := collection.entities.mapValues canonicalEntity

/-- `canonicalStringEntry`. -/
def canonicalStringEntry (entry : ConvergentStringEntryState) : ConvergentStringEntryState where
  presence := canonicalRegister entry.presence
  position := entry.position.map canonicalRegister

/-- `canonicalStringCollection`. -/
def canonicalStringCollection (collection : ConvergentStringCollectionState) :
    ConvergentStringCollectionState where
  entries := collection.entries.mapValues canonicalStringEntry

/-- The state `canonicalizeConvergentSyncState` builds from a valid state. -/
def canonicalState : ConvergentSyncState where
  vector := state.vector
  dotOrigins := state.dotOrigins
  hlc := state.hlc
  collections := state.collections.mapValues canonicalCollection
  settings := state.settings.mapValues canonicalRegister
  stringCollections := state.stringCollections.mapValues canonicalStringCollection

/-- `canonicalizeConvergentSyncState`. -/
def canonicalizeConvergentSyncState : Checked ConvergentSyncState := do
  assertValidConvergentSyncState state
  return canonicalState state

/-- `serializeConvergentSyncState`: the canonical state, whose JSON text is a
one-to-one image of it. -/
def serializeConvergentSyncState : Checked ConvergentSyncState :=
  canonicalizeConvergentSyncState state

end Netcatty
