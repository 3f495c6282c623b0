import Mathlib.Algebra.Order.Ring.Rat
import Mathlib.Data.List.Sort
import Netcatty.DirectoryManifest
import Netcatty.OrderedMap

/-!
The history of transfers, and how it is kept small.

The rows of completed files of an unfinished directory are folded into a checkpoint at
the directory's row; of what is finished altogether only the latest rows are kept.
-/

namespace Netcatty.TransferHistory

open List

def SFTP_TRANSFER_HISTORY_MAX : ℕ := 200
def SFTP_TRANSFER_HISTORY_MAX_AGE_MS : ℚ := 30 * 24 * 60 * 60 * 1000

inductive TransferStatus where
  | pending
  | queued
  | transferring
  | pausing
  | paused
  | attention
  | interrupted
  | completed
  | failed
  | cancelled
  deriving DecidableEq

/-- `TERMINAL_STATUSES.has`. -/
def TransferStatus.isTerminal : TransferStatus → Bool
  | .completed | .failed | .cancelled => true
  | _ => false

/-- A row of the history, with the fields a prune looks at or writes. -/
structure TransferTask where
  id : JsString
  parentTaskId : Option JsString
  isDirectory : Bool
  status : TransferStatus
  warning : Option JsString
  sourcePath : JsString
  targetPath : JsString
  totalBytes : ℚ
  sourceLastModified : Option ℚ
  transferredBytes : ℚ
  startTime : ℚ
  endTime : Option ℚ
  updatedAt : Option ℚ
  directoryEntryIndex : Option ℤ
  directoryEntryIdentity : Option JsString
  directoryResumeCheckpoint : Option DirectoryResumeCheckpoint
  deriving DecidableEq

namespace TransferTask

variable (task : TransferTask)

/-- `!!task.parentTaskId`. -/
def hasParent : Bool := task.parentTaskId.getD [] ≠ []

/-- `!!task.warning`. -/
def hasWarning : Bool := task.warning.getD [] ≠ []

def isUnfinished : Bool := !task.status.isTerminal

/-- The rows whose children are compacted. -/
def isUnfinishedDirectory : Bool :=
  task.isDirectory && !task.hasParent && task.isUnfinished

def hasIdentity : Bool := isHex64 (task.directoryEntryIdentity.getD [])

def hasSafeIndex : Bool :=
  match task.directoryEntryIndex with
  | none => false
  | some index => isSafeInteger index

/-- Does the row count as an entry of its directory? -/
def isEntryAt (index : ℕ) : Bool :=
  task.hasSafeIndex && task.hasIdentity && task.directoryEntryIndex == some (index : ℤ)

/-- `task.endTime ?? task.updatedAt ?? task.startTime`. -/
def lastTime : ℚ :=
  (task.endTime.or task.updatedAt).getD task.startTime

end TransferTask

/-- `new Map(tasks.map((task) => [task.id, task]))`. -/
def byId (tasks : List TransferTask) : OrderedMap JsString TransferTask :=
  tasks.foldl (fun map task => map.set task.id task) .empty

/-- What a prune takes from elsewhere. -/
structure EntryIdentities where
  /-- A digest of the paths, the size and the time of a file. -/
  createDirectoryEntryIdentity : JsString → JsString → ℚ → Option ℚ → JsString
  /-- `localeCompare` of the user's locale. -/
  localeCompare : JsString → JsString → Ordering

/-- The parts of a path: `path.replace(/\\/g, "/").split("/").filter(Boolean)`. -/
def pathParts (path : JsString) : List JsString :=
  ((path.map fun unit => if unit = backslash then slash else unit).splitOn slash).filter (· ≠ [])

/-- `compareDirectoryTraversalPaths`: child directories first, then files, names sorted. -/
def compareParts (localeCompare : JsString → JsString → Ordering) :
    List JsString → List JsString → Ordering
  | [], [] => .eq
  | [], _ :: _ => .lt
  | _ :: _, [] => .gt
  | left :: leftRest, right :: rightRest =>
    if leftRest.isEmpty ≠ rightRest.isEmpty then if leftRest.isEmpty then .gt else .lt
    else
      match localeCompare left right with
      | .eq => compareParts localeCompare leftRest rightRest
      | order => order

def compareDirectoryTraversalPaths (localeCompare : JsString → JsString → Ordering)
    (left right : JsString) : Ordering :=
  compareParts localeCompare (pathParts left) (pathParts right)

/-! ## Pruning -/

variable (task : TransferTask)

/-- A failed directory loses its checkpoint, for its children may be evicted. -/
def dropFailedCheckpoint : TransferTask :=
  if task.isDirectory ∧ !task.hasParent ∧ task.status = .failed ∧
      task.directoryResumeCheckpoint.isSome then
    { task with directoryResumeCheckpoint := none }
  else task

/-- `childrenByParent.get(parent.id) ?? []`. -/
def childrenOf (tasks : List TransferTask) (parent : TransferTask) : List TransferTask :=
  tasks.filter fun task => task.hasParent && task.parentTaskId == some parent.id

/-- Children of a directory without a valid checkpoint, one of which was stored before
entries had an index. -/
def needsUpgrade (parent : TransferTask) (children : List TransferTask) : Bool :=
  !isValidDirectoryResumeCheckpoint parent.directoryResumeCheckpoint &&
    children.any fun child => !child.hasSafeIndex || !child.hasIdentity

variable (names : EntryIdentities)

def numberChild (place : TransferTask × ℕ) : TransferTask :=
  { place.1 with
    directoryEntryIndex := some (place.2 : ℤ)
    directoryEntryIdentity := some (names.createDirectoryEntryIdentity place.1.sourcePath
      place.1.targetPath place.1.totalBytes place.1.sourceLastModified) }

variable (children : List TransferTask)

/-- Number the children in the order of a walk. -/
def upgradeChildren :
    List TransferTask :=
  (children.mergeSort fun left right =>
    compareDirectoryTraversalPaths names.localeCompare left.sourcePath right.sourcePath ≠
      .gt).zipIdx.map (numberChild names)

/-- `parentChildren`, once they are numbered. -/
def parentChildren (tasks : List TransferTask) (parent : TransferTask) :
    List TransferTask :=
  let children := childrenOf tasks parent
  if needsUpgrade parent children then upgradeChildren names children else children

/-- `childrenByIndex.get(index)`: the first row of an entry. -/
def childAt (index : ℕ) : Option TransferTask :=
  children.find? fun child => child.isEntryAt index

def rowsFrom (index : ℕ) : List TransferTask :=
  children.filter fun child => (index : ℤ) ≤ child.directoryEntryIndex.getD (-1)

theorem isEntryAt_iff {task : TransferTask} {index : ℕ} : task.isEntryAt index ↔
    task.hasSafeIndex ∧ task.hasIdentity ∧
      task.directoryEntryIndex = some (index : ℤ) := by
  unfold TransferTask.isEntryAt
  rw [Bool.and_eq_true, Bool.and_eq_true, beq_iff_eq, and_assoc]

theorem rowsFrom_lt {children : List TransferTask} {index : ℕ} {child : TransferTask}
    (found : childAt children index = some child) :
    (rowsFrom children (index + 1)).length < (rowsFrom children index).length := by
  have mem := mem_of_find?_eq_some found
  have entry : child.isEntryAt index = true :=
    find?_some (p := fun other : TransferTask => other.isEntryAt index) found
  obtain ⟨_, _, here⟩ := isEntryAt_iff.mp entry
  have nested : rowsFrom children (index + 1) = (rowsFrom children index).filter fun child =>
      ((index + 1 : ℕ) : ℤ) ≤ child.directoryEntryIndex.getD (-1) := by
    unfold rowsFrom
    rw [List.filter_filter]
    apply filter_congr
    intro other _
    rw [Bool.eq_iff_iff, Bool.and_eq_true, decide_eq_true_eq, decide_eq_true_eq]
    omega
  rw [nested]
  apply length_filter_lt_length_iff_exists.mpr
  refine ⟨child, mem_filter.mpr ⟨mem, ?_⟩, ?_⟩
  · rw [here, decide_eq_true_eq]
    exact Int.le_refl _
  · rw [here, decide_eq_true_eq, Option.getD_some]
    omega

/-- The rows of the entries from `index` on, up to the first one without a row. -/
def coveringRows (children : List TransferTask) (index : ℕ) : List TransferTask :=
  match _found : childAt children index with
  | none => []
  | some child => child :: coveringRows children (index + 1)
termination_by (rowsFrom children index).length
decreasing_by exact rowsFrom_lt _found

/-- Does a row become part of the checkpoint? -/
def isCompacted (child : TransferTask) (coveredEntries : ℤ) : Bool :=
  child.status == .completed && !child.hasWarning && child.hasSafeIndex &&
    decide (child.directoryEntryIndex.getD coveredEntries < coveredEntries) && child.hasIdentity

/-- What a prune does with one directory. -/
structure Compaction where
  compactedChildren : List TransferTask
  /-- The new row of the directory. -/
  parentUpdate : Option TransferTask
  normalizedChildren : List TransferTask

/-- The checkpoint a prune goes on from. -/
def startCheckpoint (parent : TransferTask) : DirectoryResumeCheckpoint :=
  if isValidDirectoryResumeCheckpoint parent.directoryResumeCheckpoint then
    parent.directoryResumeCheckpoint.getD createEmptyDirectoryResumeCheckpoint
  else createEmptyDirectoryResumeCheckpoint

/-- The body of the loop over the unfinished directories. -/
def compactParent (tasks : List TransferTask) (parent : TransferTask) :
    Checked Compaction := do
  let children := parentChildren names tasks parent
  let checkpoint := startCheckpoint parent
  let manifest ← DirectoryManifestAccumulator.create checkpoint.version checkpoint.manifestHash
  let covering := coveringRows children checkpoint.coveredEntries.toNat
  let manifest ← (covering.map fun child => child.directoryEntryIdentity.getD []).foldlM
    DirectoryManifestAccumulator.append manifest
  let coveredEntries := checkpoint.coveredEntries + covering.length
  let compactedChildren := children.filter fun child => isCompacted child coveredEntries
  let completedEntries :=
    min coveredEntries (checkpoint.completedEntries + compactedChildren.length)
  return {
    compactedChildren
    parentUpdate :=
      if coveredEntries ≠ checkpoint.coveredEntries ∨ compactedChildren ≠ [] then
        some { parent with
          directoryResumeCheckpoint := some
            { version := checkpoint.version, coveredEntries, completedEntries,
              manifestHash := manifest.digest }
          transferredBytes := max parent.transferredBytes completedEntries }
      else none
    normalizedChildren := if needsUpgrade parent (childrenOf tasks parent) then children else [] }

def updatedRow (compactions : List Compaction) (task : TransferTask) : TransferTask :=
  let parentUpdates := byId (compactions.filterMap (·.parentUpdate))
  let normalizedChildUpdates := byId (compactions.flatMap (·.normalizedChildren))
  ((parentUpdates.get? task.id).or (normalizedChildUpdates.get? task.id)).getD task

/-- The rows after the directories were compacted, and those that were folded. -/
def compactRows (tasks : List TransferTask) :
    Checked (List TransferTask × List TransferTask) := do
  let compacted := tasks.map dropFailedCheckpoint
  let compactions ← (compacted.filter (·.isUnfinishedDirectory)).mapM
    (compactParent names compacted)
  let compactedChildIds := (compactions.flatMap (·.compactedChildren)).map (·.id)
  let (folded, kept) := compacted.partition fun task => decide (task.id ∈ compactedChildIds)
  return (kept.map (updatedRow compactions), folded.map (updatedRow compactions))

/-- The rows of unfinished work, and those its parents still need. -/
def checkpointChildren (compacted : List TransferTask) : List TransferTask :=
  let unfinishedIds := (compacted.filter (·.isUnfinished)).map (·.id)
  compacted.filter fun task =>
    task.status.isTerminal && task.hasParent && decide (task.parentTaskId.getD [] ∈ unfinishedIds)

/-- The finished rows that are kept for their own sake. -/
def terminalRows (compacted : List TransferTask) (now : ℚ) : List TransferTask :=
  let checkpointIds := (checkpointChildren compacted).map (·.id)
  (((compacted.filter fun task => task.status.isTerminal && decide (task.id ∉ checkpointIds)).filter
    fun task => now - task.lastTime ≤ SFTP_TRANSFER_HISTORY_MAX_AGE_MS).mergeSort
    fun a b => b.lastTime ≤ a.lastTime).take SFTP_TRANSFER_HISTORY_MAX

/-- The rows that survive, in the order in which they started. -/
def retainRows (compacted : List TransferTask) (now : ℚ) : List TransferTask :=
  (compacted.filter (·.isUnfinished) ++ checkpointChildren compacted ++
    terminalRows compacted now).mergeSort fun a b => a.startTime ≤ b.startTime

def pruneSftpTransferHistory (tasks : List TransferTask) (now : ℚ) :
    Checked (List TransferTask) := do
  let compacted ← compactRows names tasks
  return retainRows compacted.1 now

/-! ## Runs -/

/-- What may change of a row while its transfer goes on. -/
structure TaskProgress where
  status : TransferStatus
  warning : Option JsString
  totalBytes : ℚ
  transferredBytes : ℚ
  endTime : Option ℚ
  updatedAt : Option ℚ

/-- The rows of the history, with the rows that prunes have taken out, as they were. -/
structure HistoryState where
  tasks : List TransferTask
  removed : List TransferTask

inductive HistoryEvent where
  | prune (now : ℚ)
  /-- The transfer of a child goes on. -/
  | changeChild (id : JsString) (progress : TaskProgress)
  /-- A row at the top changes its status. -/
  | changeStatus (id : JsString) (status : TransferStatus)
  /-- A new row; the store has one row for each id. -/
  | add (task : TransferTask)

namespace HistoryState

variable (names : EntryIdentities)

/-- The rows that a prune takes out: those it folds, and those that are too old or too
many. -/
def prune (s : HistoryState) (now : ℚ) : Checked HistoryState := do
  let compacted ← compactRows names s.tasks
  let retained := retainRows compacted.1 now
  let evicted := compacted.1.filter fun task => decide (task.id ∉ retained.map (·.id))
  return { tasks := retained, removed := s.removed ++ (compacted.2 ++ evicted) }

def step (s : HistoryState) : HistoryEvent → HistoryState
  | .prune now =>
    match s.prune names now with
    | .ok after => after
    | .error _ => s
  | .changeChild id progress =>
    { s with
      tasks := s.tasks.map fun task =>
        if task.id = id ∧ task.hasParent then { task with
          status := progress.status, warning := progress.warning,
          totalBytes := progress.totalBytes, transferredBytes := progress.transferredBytes,
          endTime := progress.endTime, updatedAt := progress.updatedAt }
        else task }
  | .changeStatus id status =>
    { s with
      tasks := s.tasks.map fun task =>
        if task.id = id ∧ !task.hasParent then { task with status } else task }
  | .add task =>
    if task.id ∈ s.tasks.map (·.id) then s else { s with tasks := s.tasks ++ [task] }

def run (s : HistoryState) (events : List HistoryEvent) : HistoryState :=
  events.foldl (step names) s

end HistoryState

end Netcatty.TransferHistory
