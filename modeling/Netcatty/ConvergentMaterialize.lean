import Netcatty.ConvergentProgress

/-!
Materializing a replica: the second half of `state.ts`.

The source pushes conflicts onto one array while it builds the snapshot; here
each part returns the conflicts it pushes, and they are appended in the order of
the source before the final sort.
-/

namespace Netcatty

/-! ## Records -/

/-- `setOwnRecordValue`: a new property comes last, an existing one stays in its place. -/
def setOwnRecordValue (record : JsonObject) (key : JsString) (value : JsonValue) : JsonObject :=
  match record with
  | [] => [(key, value)]
  | entry :: rest =>
    if entry.1 = key then (key, value) :: rest else entry :: setOwnRecordValue rest key value

/-! ## Positions and values -/

/-- `comparePositions`: numbers, then strings, then missing positions.  A
difference of two finite numbers has the sign of their comparison. -/
def comparePositions (left right : Option CollectionPosition) : Ordering :=
  match left, right with
  | none, none => .eq
  | none, some _ => .gt
  | some _, none => .lt
  | some (.number left), some (.number right) => compare left right
  | some (.number _), some (.string _) => .lt
  | some (.string _), some (.number _) => .gt
  | some (.string left), some (.string right) => compareStrings left right

/-- `materializedValue`. -/
def materializedValue (register : Option MultiValueRegister) : Option JsonValue :=
  (selectRegisterWinner register).bind RegisterCandidate.value

def positionOf : Option JsonValue → Option CollectionPosition
  | some (.str value) => some (.string value)
  | some (.num value) => some (.number value)
  | _ => none

/-! ## Conflicts -/

/-- `ConvergentConflictCandidate`. -/
structure ConvergentConflictCandidate where
  dot : Dot
  hlc : HybridLogicalClock
  tombstone : Bool
  value : Option JsonValue
  /-- Present when candidates from several setting paths conflict. -/
  settingPath : Option (List JsString)
  selected : Bool
  deriving DecidableEq

/-- `ConvergentConflictAddress`. -/
inductive ConvergentConflictAddress where
  | register (address : RegisterAddress)
  | settingStructure (paths : List (List JsString))
  deriving DecidableEq

/-- `ConvergentFieldConflict`. -/
structure ConvergentFieldConflict where
  address : ConvergentConflictAddress
  candidates : List ConvergentConflictCandidate
  deriving DecidableEq

/-- `conflictCandidate`. -/
def conflictCandidate (candidate : RegisterCandidate) (selectedDot : JsString)
    (settingPath : Option (List JsString)) : ConvergentConflictCandidate where
  dot := candidate.dot
  hlc := candidate.hlc
  tombstone := isTombstoneCandidate candidate
  value := candidate.value
  settingPath
  selected := dotKey candidate.dot = selectedDot

/-- `[...candidates].sort(compareCandidatesByDot)`. -/
def candidatesByDot (register : MultiValueRegister) : List RegisterCandidate :=
  register.candidates.insertionSort fun a b => a.dot ≤ b.dot

/-- What `maybeRecordConflict` pushes. -/
def maybeRecordConflict (address : RegisterAddress) (register : Option MultiValueRegister) :
    List ConvergentFieldConflict :=
  match register, selectRegisterWinner register with
  | some register, some winner =>
    if registerHasConflict register then
      [{ address := .register address
         candidates := (candidatesByDot register).map fun candidate =>
          conflictCandidate candidate (dotKey winner.dot) none }]
    else []
  | _, _ => []

/-- `addressSortKey`. -/
def addressSortKey : ConvergentConflictAddress → JsString
  | .register (.entityPresence collection entityId) =>
    text "0:" ++ collection ++ text ":" ++ entityId ++ text ":0"
  | .register (.entityPosition collection entityId) =>
    text "0:" ++ collection ++ text ":" ++ entityId ++ text ":1"
  | .register (.entityField collection entityId field) =>
    text "0:" ++ collection ++ text ":" ++ entityId ++ text ":2:" ++ field
  | .register (.setting path) => text "1:0:" ++ settingKey path
  | .settingStructure paths => text "1:1:" ++ (text "|").intercalate (paths.map settingKey)
  | .register (.stringEntryPresence collection value) =>
    text "2:" ++ collection ++ text ":" ++ value ++ text ":0"
  | .register (.stringEntryPosition collection value) =>
    text "2:" ++ collection ++ text ":" ++ value ++ text ":1"

/-! ## Settings -/

/-- The error of `setNestedSetting`. -/
def overlapsAtomicParent (path : List JsString) : JsError :=
  .invariant (text "Setting path " ++ settingKey path ++ text " overlaps an atomic parent value")

/-- The loop of `setNestedSetting` below the segments it has walked; the nested
object it reaches is part of the root it changes. -/
def setNestedFrom (path : List JsString) (value : JsonValue) :
    List JsString → JsonObject → Checked JsonObject
  | [], root => return root
  | [last], root => return setOwnRecordValue root last value
  | segment :: next :: rest, root =>
    match getOwnRecordValue root segment with
    | none => do
      let nested ← setNestedFrom path value (next :: rest) []
      return setOwnRecordValue root segment (.obj nested)
    | some (.obj existing) => do
      let nested ← setNestedFrom path value (next :: rest) existing
      return setOwnRecordValue root segment (.obj nested)
    | some _ => .error (overlapsAtomicParent path)

/-- `setNestedSetting`. -/
def setNestedSetting (root : JsonObject) (path : List JsString) (value : JsonValue) :
    Checked JsonObject :=
  setNestedFrom path value path root

/-- `ActiveSettingEntry`. -/
structure ActiveSettingEntry where
  encodedPath : JsString
  path : List JsString
  register : MultiValueRegister
  winner : RegisterCandidate
  value : JsonValue
  deriving DecidableEq

/-- `encodeSettingPath(path.slice(0, length))` for `1 ≤ length < path.length`. -/
def properAncestors (path : List JsString) : List JsString :=
  (List.range' 1 (path.length - 1)).map fun length => settingKey (path.take length)

/-- The comparator of `prioritized`. -/
def compareSettingPriority (left right : ActiveSettingEntry) : Ordering :=
  (compareRegisterCandidates right.winner left.winner).then
    (compareStrings left.encodedPath right.encodedPath)

/-- One turn of the loop of `selectMaterializedSettingEntries`, on `selectedPaths`
and `selectedPrefixes`. -/
def selectSettingEntry (selected : List JsString × List JsString) (entry : ActiveSettingEntry) :
    List JsString × List JsString :=
  let hasSelectedAncestor := (properAncestors entry.path).any fun ancestor => ancestor ∈ selected.1
  let hasSelectedDescendant := entry.encodedPath ∈ selected.2
  if hasSelectedAncestor || hasSelectedDescendant then selected
  else (entry.encodedPath :: selected.1, properAncestors entry.path ++ selected.2)

variable (entries : List ActiveSettingEntry)

/-- `selectMaterializedSettingEntries`. -/
def selectMaterializedSettingEntries : List JsString :=
  ((entries.insertionSort fun left right => compareSettingPriority left right ≠ .gt).foldl
    selectSettingEntry ([], [])).1

/-- `rootPath` of an entry: its shortest active ancestor, or the entry itself. -/
def settingRootPath (entry : ActiveSettingEntry) : JsString :=
  ((properAncestors entry.path).find? fun ancestor =>
    entries.any fun other => other.encodedPath = ancestor).getD entry.encodedPath

/-- `groups`: the entries under each root. -/
def settingGroups : SortedMap JsString (List ActiveSettingEntry) :=
  entries.foldl (fun groups entry =>
    let rootPath := settingRootPath entries entry
    groups.set rootPath ((groups.get? rootPath).getD [] ++ [entry])) .empty

/-- The conflict `recordSettingStructureConflicts` pushes for a group, if any. -/
def settingStructureConflict (selectedPaths : List JsString) (group : List ActiveSettingEntry) :
    List ConvergentFieldConflict :=
  if group.length < 2 then []
  else
    let sorted := group.insertionSort fun left right => left.encodedPath ≤ right.encodedPath
    [{ address := .settingStructure (sorted.map ActiveSettingEntry.path)
       candidates := sorted.flatMap fun entry =>
        (candidatesByDot entry.register).map fun candidate =>
          conflictCandidate candidate
            (if entry.encodedPath ∈ selectedPaths then dotKey entry.winner.dot else [])
            (some entry.path) }]

/-- `recordSettingStructureConflicts`. -/
def recordSettingStructureConflicts
    (selectedPaths : List JsString) : List ConvergentFieldConflict :=
  (settingGroups entries).entries.flatMap fun group => settingStructureConflict selectedPaths group.2

/-- The conflict and the active entry that the first loop of `materializeSettings`
finds at a key. -/
def readSetting (entry : JsString × MultiValueRegister) :
    Checked (List ConvergentFieldConflict × List ActiveSettingEntry) := do
  let path ← decodeSettingPath entry.1
  let conflicts := maybeRecordConflict (.setting path) (some entry.2)
  match selectRegisterWinner (some entry.2) with
  | none => return (conflicts, [])
  | some winner =>
    match winner.value with
    | none => return (conflicts, [])
    | some value =>
      return (conflicts, [{ encodedPath := entry.1, path, register := entry.2, winner, value }])

/-- `materializeSettings`. -/
def materializeSettings (state : ConvergentSyncState) :
    Checked (JsonObject × List ConvergentFieldConflict) := do
  let read ← state.settings.entries.mapM readSetting
  let activeEntries := read.flatMap Prod.snd
  let selectedPaths := selectMaterializedSettingEntries activeEntries
  let settings ← (activeEntries.filter fun entry => entry.encodedPath ∈ selectedPaths).foldlM
    (fun settings entry => setNestedSetting settings entry.path entry.value) []
  return (settings, read.flatMap Prod.fst ++
    recordSettingStructureConflicts activeEntries selectedPaths)

/-! ## Entities and entries -/

/-- An entity with its position, before the sort. -/
structure MaterializedEntity where
  id : JsString
  position : Option CollectionPosition
  value : JsonObject
  deriving DecidableEq

/-- The conflicts of one entity; those of an absent entity's contents are left out. -/
def entityConflicts (collection : JsString) (entry : JsString × ConvergentEntityState) :
    List ConvergentFieldConflict :=
  maybeRecordConflict (.entityPresence collection entry.1) (some entry.2.presence) ++
  if registerIsPresent (some entry.2.presence) then
    maybeRecordConflict (.entityPosition collection entry.1) entry.2.position ++
    entry.2.fields.entries.flatMap fun field =>
      maybeRecordConflict (.entityField collection entry.1 field.1) (some field.2)
  else []

def entityValue (entry : JsString × ConvergentEntityState) : JsonObject :=
  entry.2.fields.entries.foldl (fun value field =>
    match materializedValue (some field.2) with
    | none => value
    | some fieldValue => setOwnRecordValue value field.1 fieldValue) [(text "id", .str entry.1)]

/-- What the loop over entities pushes for one entity. -/
def materializeEntity (entry : JsString × ConvergentEntityState) : Option MaterializedEntity :=
  if registerIsPresent (some entry.2.presence) then
    some { id := entry.1
           position := positionOf (materializedValue entry.2.position)
           value := entityValue entry }
  else none

/-- `comparePositions(left.position, right.position) || compareStrings(left.id, right.id)`. -/
def compareEntities (left right : MaterializedEntity) : Ordering :=
  (comparePositions left.position right.position).then (compareStrings left.id right.id)

def materializeCollection (collection : ConvergentCollectionState) : List MaterializedEntity :=
  (collection.entities.entries.filterMap materializeEntity).insertionSort
    fun left right => compareEntities left right ≠ .gt

def stringEntryConflicts (collection : JsString) (entry : JsString × ConvergentStringEntryState) :
    List ConvergentFieldConflict :=
  maybeRecordConflict (.stringEntryPresence collection entry.1) (some entry.2.presence) ++
  if registerIsPresent (some entry.2.presence) then
    maybeRecordConflict (.stringEntryPosition collection entry.1) entry.2.position
  else []

structure MaterializedEntry where
  value : JsString
  position : Option CollectionPosition
  deriving DecidableEq

/-- What the loop over string entries pushes for one entry. -/
def materializeStringEntry (entry : JsString × ConvergentStringEntryState) :
    Option MaterializedEntry :=
  if registerIsPresent (some entry.2.presence) then
    some { value := entry.1, position := positionOf (materializedValue entry.2.position) }
  else none

/-- `comparePositions(left.position, right.position) || compareStrings(left.value, right.value)`. -/
def compareEntries (left right : MaterializedEntry) : Ordering :=
  (comparePositions left.position right.position).then (compareStrings left.value right.value)

def materializeStringCollection (collection : ConvergentStringCollectionState) :
    List MaterializedEntry :=
  (collection.entries.entries.filterMap materializeStringEntry).insertionSort
    fun left right => compareEntries left right ≠ .gt

/-! ## The snapshot -/

/-- `MaterializedConvergentSyncState`. -/
structure MaterializedConvergentSyncState where
  collections : SortedMap JsString (List JsonObject)
  settings : JsonObject
  stringCollections : SortedMap JsString (List JsString)
  conflicts : List ConvergentFieldConflict
  deriving DecidableEq

/-- `materializeConvergentSyncState`. -/
def materializeConvergentSyncState (state : ConvergentSyncState) :
    Checked MaterializedConvergentSyncState := do
  assertValidConvergentSyncState state
  let collections := state.collections.mapValues fun collection =>
    (materializeCollection collection).map MaterializedEntity.value
  let collectionConflicts := state.collections.entries.flatMap fun entry =>
    entry.2.entities.entries.flatMap (entityConflicts entry.1)
  let (settings, settingConflicts) ← materializeSettings state
  let stringCollections := state.stringCollections.mapValues fun collection =>
    (materializeStringCollection collection).map MaterializedEntry.value
  let stringConflicts := state.stringCollections.entries.flatMap fun entry =>
    entry.2.entries.entries.flatMap (stringEntryConflicts entry.1)
  let conflicts := (collectionConflicts ++ settingConflicts ++ stringConflicts).insertionSort
    fun left right => addressSortKey left.address ≤ addressSortKey right.address
  return { collections, settings, stringCollections, conflicts }

end Netcatty
