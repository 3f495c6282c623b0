import Netcatty.PairedLists
import Netcatty.SftpTransferHistory

/-!
What one prune does to the rows of a directory.

A row that is updated stays the row it was, up to its number, its checkpoint and its
bytes; a row that is folded was completed; and the checkpoint of a directory is the chain
of its entries up to where the rows end.
-/

namespace Netcatty.TransferHistory

open List Option

/-! ## Maps by id -/

theorem get?_foldl_set (tasks : List TransferTask) (map : OrderedMap JsString TransferTask)
    {key : JsString} {task : TransferTask}
    (found : (tasks.foldl (fun map task => map.set task.id task) map).get? key = some task) :
    (task ∈ tasks ∧ task.id = key) ∨ map.get? key = some task := by
  induction tasks generalizing map with
  | nil => exact Or.inr found
  | cons head rest ih =>
    rcases ih (map.set head.id head) found with ⟨mem, same⟩ | held
    · exact Or.inl ⟨mem_cons_of_mem _ mem, same⟩
    · rw [OrderedMap.get?_set] at held
      split at held
      · next same =>
        obtain rfl := Option.some.inj held
        exact Or.inl ⟨mem_cons_self, same.symm⟩
      · exact Or.inr held

variable {tasks : List TransferTask}

theorem mem_of_byId {key : JsString} {task : TransferTask}
    (found : (byId tasks).get? key = some task) : task ∈ tasks ∧ task.id = key := by
  rcases get?_foldl_set tasks .empty found with held | none
  · exact held
  · exact absurd none.symm (some_ne_none task)

theorem isSome_foldl_set (tasks : List TransferTask)
    (map : OrderedMap JsString TransferTask) {key : JsString}
    (held : (map.get? key).isSome ∨ ∃ task ∈ tasks, task.id = key) :
    ((tasks.foldl (fun map task => map.set task.id task) map).get? key).isSome := by
  induction tasks generalizing map with
  | nil =>
    rcases held with held | ⟨_, none, _⟩
    · exact held
    · exact absurd none not_mem_nil
  | cons head rest ih =>
    apply ih
    rw [OrderedMap.get?_set]
    by_cases same : key = head.id
    · rw [if_pos same]
      exact Or.inl rfl
    · rw [if_neg same]
      rcases held with held | ⟨task, mem, here⟩
      · exact Or.inl held
      · rcases mem_cons.mp mem with rfl | later
        · exact absurd here.symm same
        · exact Or.inr ⟨task, later, here⟩

theorem byId_of_mem {task : TransferTask} (mem : task ∈ tasks) :
    ∃ held, (byId tasks).get? task.id = some held ∧ held ∈ tasks ∧ held.id = task.id := by
  have some : ((byId tasks).get? task.id).isSome :=
    isSome_foldl_set tasks .empty (Or.inr ⟨task, mem, rfl⟩)
  obtain ⟨held, found⟩ := isSome_iff_exists.mp some
  exact ⟨held, found, mem_of_byId found⟩

theorem byId_eq_none {key : JsString}
    (absent : ∀ task ∈ tasks, task.id ≠ key) : (byId tasks).get? key = none := by
  cases found : (byId tasks).get? key with
  | none => rfl
  | some task =>
    obtain ⟨mem, same⟩ := mem_of_byId found
    exact absurd same (absent task mem)

theorem eq_of_id (unique : (tasks.map (·.id)).Nodup)
    {task other : TransferTask} (mem : task ∈ tasks) (mem' : other ∈ tasks)
    (same : task.id = other.id) : task = other :=
  inj_on_of_nodup_map unique mem mem' same

/-! ## Children -/

/-- What no prune changes of a row. -/
structure SameRow (task row : TransferTask) : Prop where
  id : row.id = task.id
  parentTaskId : row.parentTaskId = task.parentTaskId
  isDirectory : row.isDirectory = task.isDirectory
  status : row.status = task.status
  warning : row.warning = task.warning

theorem SameRow.refl (task : TransferTask) : SameRow task task := ⟨rfl, rfl, rfl, rfl, rfl⟩

section

variable {task row : TransferTask} (same : SameRow task row)
include same

theorem SameRow.hasParent : row.hasParent = task.hasParent := by
  unfold TransferTask.hasParent
  rw [same.parentTaskId]

theorem SameRow.isUnfinished : row.isUnfinished = task.isUnfinished := by
  unfold TransferTask.isUnfinished
  rw [same.status]

theorem SameRow.isUnfinishedDirectory : row.isUnfinishedDirectory = task.isUnfinishedDirectory := by
  unfold TransferTask.isUnfinishedDirectory
  rw [same.isDirectory, same.hasParent, same.isUnfinished]

end

theorem SameRow.trans {task row last : TransferTask} (first : SameRow task row)
    (second : SameRow row last) : SameRow task last :=
  ⟨second.id.trans first.id, second.parentTaskId.trans first.parentTaskId,
    second.isDirectory.trans first.isDirectory, second.status.trans first.status,
    second.warning.trans first.warning⟩

theorem mem_childrenOf {parent child : TransferTask} : child ∈ childrenOf tasks parent ↔
      child ∈ tasks ∧ child.hasParent ∧ child.parentTaskId = some parent.id := by
  unfold childrenOf
  rw [mem_filter, Bool.and_eq_true, beq_iff_eq]

theorem dropFailedCheckpoint_same (task : TransferTask) :
    SameRow task (dropFailedCheckpoint task) := by
  unfold dropFailedCheckpoint
  split
  · exact ⟨rfl, rfl, rfl, rfl, rfl⟩
  · exact .refl task

/-- Only a failed row loses its checkpoint. -/
theorem dropFailedCheckpoint_eq {task : TransferTask} (open_ : task.status ≠ .failed) :
    dropFailedCheckpoint task = task := if_neg fun failed => open_ failed.2.2.1

section Upgrade

variable (names : EntryIdentities)

theorem mem_upgradeChildren {children : List TransferTask} {row : TransferTask}
    (mem : row ∈ upgradeChildren names children) :
    ∃ child ∈ children, SameRow child row := by
  obtain ⟨⟨child, index⟩, place, rfl⟩ := List.mem_map.mp mem
  have sorted := fst_mem_of_mem_zipIdx place
  exact ⟨child, mem_mergeSort.mp sorted, rfl, rfl, rfl, rfl, rfl⟩

theorem ids_upgradeChildren (children : List TransferTask) :
    ((upgradeChildren names children).map (·.id)).Perm (children.map (·.id)) := by
  have same : (upgradeChildren names children).map (·.id) =
      (children.mergeSort fun left right => compareDirectoryTraversalPaths names.localeCompare
        left.sourcePath right.sourcePath ≠ .gt).map (·.id) := by
    unfold upgradeChildren
    rw [List.map_map]
    generalize children.mergeSort _ = sorted
    have first : (fun task : TransferTask => task.id) ∘ numberChild names =
        (fun task : TransferTask => task.id) ∘ Prod.fst := rfl
    rw [first, ← List.map_map, zipIdx_map_fst]
  rw [same]
  exact (mergeSort_perm children _).map _

theorem mem_parentChildren {parent row : TransferTask}
    (mem : row ∈ parentChildren names tasks parent) :
    ∃ child ∈ childrenOf tasks parent, SameRow child row := by
  unfold parentChildren at mem
  dsimp only at mem
  split at mem
  · exact mem_upgradeChildren names mem
  · exact ⟨row, mem, .refl row⟩

theorem ids_parentChildren (tasks : List TransferTask) (parent : TransferTask) :
    ((parentChildren names tasks parent).map (·.id)).Perm
      ((childrenOf tasks parent).map (·.id)) := by
  unfold parentChildren
  dsimp only
  split
  · exact ids_upgradeChildren names _
  · exact List.Perm.refl _

end Upgrade

/-! ## Entries -/

theorem coveringRows_get {children : List TransferTask} (index : ℕ) {k : ℕ} {row : TransferTask}
    (found : (coveringRows children index)[k]? = some row) :
    row ∈ children ∧ row.isEntryAt (index + k) := by
  induction k generalizing index with
  | zero =>
    rw [coveringRows] at found
    split at found
    · exact absurd found.symm (some_ne_none row)
    · next child here =>
      obtain rfl := Option.some.inj found
      exact ⟨mem_of_find?_eq_some here,
        find?_some (p := fun other : TransferTask => other.isEntryAt index) here⟩
  | succ k ih =>
    rw [coveringRows] at found
    split at found
    · exact absurd found.symm (some_ne_none row)
    · have later := ih (index + 1) found
      rw [Nat.add_right_comm] at later
      exact later

theorem coveringRows_identities {children : List TransferTask} (index : ℕ)
    {identity : ℕ → JsString} (fixed : ∀ child ∈ children, ∀ place, child.isEntryAt place →
      child.directoryEntryIdentity = some (identity place)) :
    ((coveringRows children index).map fun child => child.directoryEntryIdentity.getD []) =
      (List.range (coveringRows children index).length).map fun k => identity (index + k) := by
  apply ext_getElem?
  intro k
  rw [getElem?_map, getElem?_map]
  cases found : (coveringRows children index)[k]? with
  | none =>
    have past := List.getElem?_eq_none_iff.mp found
    rw [getElem?_eq_none (length_range.trans_le past)]
    rfl
  | some row =>
    obtain ⟨mem, entry⟩ := coveringRows_get index found
    have inside := (List.getElem?_eq_some_iff.mp found).1
    rw [getElem?_range inside, map_some, map_some, fixed row mem _ entry]
    rfl

theorem coveringRows_hex (children : List TransferTask) (index : ℕ) :
    ∀ identity ∈ (coveringRows children index).map fun child =>
      child.directoryEntryIdentity.getD [], isHex64 identity := by
  intro identity mem
  obtain ⟨row, here, rfl⟩ := List.mem_map.mp mem
  obtain ⟨k, found⟩ := mem_iff_getElem?.mp here
  exact (isEntryAt_iff.mp (coveringRows_get index found).2).2.1

/-! ## One directory -/

theorem isCompacted_completed {child : TransferTask} {covered : ℤ}
    (compacted : isCompacted child covered) :
    child.status = .completed ∧ child.hasWarning = false := by
  simp only [isCompacted, Bool.and_eq_true, beq_iff_eq, Bool.not_eq_true'] at compacted
  exact ⟨compacted.1.1.1.1, compacted.1.1.1.2⟩

theorem startCheckpoint_hex (parent : TransferTask) :
    isHex64 (startCheckpoint parent).manifestHash := by
  unfold startCheckpoint
  split
  · next valid =>
    cases held : parent.directoryResumeCheckpoint with
    | none => exact isHex64_hex SHA256_INITIAL_STATE
    | some checkpoint =>
      rw [held] at valid
      exact (Bool.and_eq_true_iff.mp valid).2
  · exact isHex64_hex SHA256_INITIAL_STATE

/-- How far the checkpoint of a directory reaches after a prune. -/
def coveredAfter (names : EntryIdentities) (tasks : List TransferTask) (parent : TransferTask) :
    ℤ :=
  (startCheckpoint parent).coveredEntries + (coveringRows (parentChildren names tasks parent)
    (startCheckpoint parent).coveredEntries.toNat).length

/-- What a prune makes of a directory. -/
structure Compacts (names : EntryIdentities) (tasks : List TransferTask) (parent : TransferTask)
    (compaction : Compaction) : Prop where
  compacted : compaction.compactedChildren = (parentChildren names tasks parent).filter
    fun child => isCompacted child (coveredAfter names tasks parent)
  normalized : compaction.normalizedChildren =
    if needsUpgrade parent (childrenOf tasks parent) then parentChildren names tasks parent else []
  same : ∀ row, compaction.parentUpdate = some row → SameRow parent row
  kept : compaction.parentUpdate = none →
    coveredAfter names tasks parent = (startCheckpoint parent).coveredEntries
  updated : ∀ row, compaction.parentUpdate = some row → ∃ manifest after checkpoint,
    row.directoryResumeCheckpoint = some checkpoint ∧
    checkpoint.version = (startCheckpoint parent).version ∧
    checkpoint.coveredEntries = coveredAfter names tasks parent ∧
    checkpoint.completedEntries = min (coveredAfter names tasks parent)
      ((startCheckpoint parent).completedEntries + compaction.compactedChildren.length) ∧
    checkpoint.manifestHash = DirectoryManifestAccumulator.digest after ∧
    DirectoryManifestAccumulator.create (startCheckpoint parent).version
      (startCheckpoint parent).manifestHash = .ok manifest ∧
    ((coveringRows (parentChildren names tasks parent)
      (startCheckpoint parent).coveredEntries.toNat).map fun child =>
        child.directoryEntryIdentity.getD []).foldlM DirectoryManifestAccumulator.append manifest =
          .ok after ∧
    parent.transferredBytes ≤ row.transferredBytes

theorem compactParent_compacts (names : EntryIdentities) (tasks : List TransferTask)
    (parent : TransferTask) : ∃ compaction, compactParent names tasks parent = .ok compaction ∧
      Compacts names tasks parent compaction := by
  have hex := startCheckpoint_hex parent
  have made : ∃ manifest, DirectoryManifestAccumulator.create (startCheckpoint parent).version
      (startCheckpoint parent).manifestHash = .ok manifest := by
    unfold DirectoryManifestAccumulator.create
    rw [hex]
    cases (startCheckpoint parent).version with
    | v1 => exact ⟨_, rfl⟩
    | v2 => exact ⟨_, rfl⟩
  obtain ⟨manifest, made⟩ := made
  obtain ⟨_, formed⟩ := DirectoryManifestAccumulator.create_wellFormed made
  obtain ⟨after, appended, _, _⟩ :=
    DirectoryManifestAccumulator.foldlM_append formed (coveringRows_hex
      (parentChildren names tasks parent) (startCheckpoint parent).coveredEntries.toNat)
  refine ⟨_, bind_eq_ok.mpr ⟨manifest, made, bind_eq_ok.mpr ⟨after, appended, rfl⟩⟩, ?_⟩
  constructor
  · rfl
  · rfl
  · intro row found
    dsimp only at found
    split at found
    · obtain rfl := Option.some.inj found
      exact ⟨rfl, rfl, rfl, rfl, rfl⟩
    · exact absurd found.symm (some_ne_none row)
  · intro none
    dsimp only at none
    split at none
    · exact absurd none (some_ne_none _)
    · next quiet =>
      by_contra moved
      exact quiet (Or.inl moved)
  · intro row found
    dsimp only at found
    split at found
    · obtain rfl := Option.some.inj found
      exact ⟨manifest, after, _, rfl, rfl, rfl, rfl, rfl, made, appended, le_max_left _ _⟩
    · exact absurd found.symm (some_ne_none row)

/-! ## All directories -/

theorem mapM_ok {α β : Type} {f : α → Checked β} {P : α → β → Prop} (l : List α)
    (each : ∀ a ∈ l, ∃ b, f a = .ok b ∧ P a b) :
    ∃ results, l.mapM f = .ok results ∧ Forall₂ P l results := by
  induction l with
  | nil => exact ⟨[], rfl, .nil⟩
  | cons a rest ih =>
    obtain ⟨b, done, held⟩ := each a mem_cons_self
    obtain ⟨results, others, all⟩ := ih fun other mem => each other (mem_cons_of_mem _ mem)
    refine ⟨b :: results, ?_, .cons held all⟩
    rw [mapM_cons, done]
    apply bind_eq_ok.mpr
    refine ⟨b, rfl, ?_⟩
    exact bind_eq_ok.mpr ⟨results, others, rfl⟩

section Rows

variable {names : EntryIdentities} {tasks : List TransferTask} {compactions : List Compaction}

/-- The compactions of the unfinished directories. -/
abbrev CompactAll (names : EntryIdentities) (tasks : List TransferTask)
    (compactions : List Compaction) : Prop :=
  List.Forall₂ (fun parent compaction => compactParent names tasks parent = .ok compaction ∧
      Compacts names tasks parent compaction)
    (tasks.filter (·.isUnfinishedDirectory)) compactions

theorem no_parent {parent : TransferTask} (directory : parent.isUnfinishedDirectory) :
    parent.hasParent = false := by
  simp only [TransferTask.isUnfinishedDirectory, Bool.and_eq_true, Bool.not_eq_true'] at directory
  exact directory.1.2

theorem parent_of_update (all : CompactAll names tasks compactions) {row : TransferTask}
    (mem : row ∈ compactions.filterMap (·.parentUpdate)) :
    ∃ parent ∈ tasks, parent.isUnfinishedDirectory ∧ SameRow parent row ∧
      ∃ compaction, compactParent names tasks parent = .ok compaction ∧
        compaction.parentUpdate = some row := by
  obtain ⟨compaction, here, update⟩ := mem_filterMap.mp mem
  obtain ⟨parent, listed, made, compacts⟩ := PairedLists.exists_left all here
  obtain ⟨inside, directory⟩ := mem_filter.mp listed
  exact ⟨parent, inside, directory, compacts.same row update, compaction, made, update⟩

theorem child_of_normalized (all : CompactAll names tasks compactions) {row : TransferTask}
    (mem : row ∈ compactions.flatMap (·.normalizedChildren)) :
    ∃ parent ∈ tasks, parent.isUnfinishedDirectory ∧
      row ∈ parentChildren names tasks parent ∧
      ∃ child ∈ childrenOf tasks parent, SameRow child row := by
  obtain ⟨compaction, here, inside⟩ := mem_flatMap.mp mem
  obtain ⟨parent, listed, _, compacts⟩ := PairedLists.exists_left all here
  obtain ⟨known, directory⟩ := mem_filter.mp listed
  rw [compacts.normalized] at inside
  split at inside
  · exact ⟨parent, known, directory, inside, mem_parentChildren names inside⟩
  · exact absurd inside not_mem_nil

section

variable (unique : (tasks.map (·.id)).Nodup) (all : CompactAll names tasks compactions)

include unique all

theorem updatedRow_same {task : TransferTask} (mem : task ∈ tasks) :
    SameRow task (updatedRow compactions task) := by
  unfold updatedRow
  dsimp only
  cases parents : (byId (compactions.filterMap (·.parentUpdate))).get? task.id with
  | some row =>
    obtain ⟨listed, here⟩ := mem_of_byId parents
    obtain ⟨parent, inside, _, same, _⟩ := parent_of_update all listed
    obtain rfl := eq_of_id unique inside mem (same.id.symm.trans here)
    exact same
  | none =>
    cases normalized : (byId (compactions.flatMap (·.normalizedChildren))).get? task.id with
    | none => exact .refl task
    | some row =>
      obtain ⟨listed, here⟩ := mem_of_byId normalized
      obtain ⟨_, _, _, _, child, known, same⟩ := child_of_normalized all listed
      obtain rfl := eq_of_id unique (mem_childrenOf.mp known).1 mem (same.id.symm.trans here)
      exact same

theorem updatedRow_parent {parent : TransferTask} (mem : parent ∈ tasks)
    (directory : parent.isUnfinishedDirectory) :
    ∃ compaction, Compacts names tasks parent compaction ∧
      updatedRow compactions parent = compaction.parentUpdate.getD parent := by
  obtain ⟨compaction, here, made, compacts⟩ :=
    PairedLists.exists_right all (mem_filter.mpr ⟨mem, directory⟩)
  refine ⟨compaction, compacts, ?_⟩
  have only : ∀ row ∈ compactions.filterMap (·.parentUpdate), row.id = parent.id →
      compaction.parentUpdate = some row := by
    intro row listed named
    obtain ⟨other, inside, _, same, its, itsMade, update⟩ := parent_of_update all listed
    obtain rfl := eq_of_id unique inside mem (same.id.symm.trans named)
    obtain rfl := Except.ok.inj (made.symm.trans itsMade)
    exact update
  have none : (byId (compactions.flatMap (·.normalizedChildren))).get? parent.id = none := by
    apply byId_eq_none
    intro row listed named
    obtain ⟨_, _, _, _, child, known, same⟩ := child_of_normalized all listed
    obtain ⟨inside, hasParent, _⟩ := mem_childrenOf.mp known
    obtain rfl := eq_of_id unique inside mem (same.id.symm.trans named)
    exact Bool.noConfusion (hasParent.symm.trans (no_parent directory))
  unfold updatedRow
  dsimp only
  rw [none, or_none]
  cases update : compaction.parentUpdate with
  | some row =>
    have listed : row ∈ compactions.filterMap (·.parentUpdate) :=
      mem_filterMap.mpr ⟨compaction, here, update⟩
    obtain ⟨held, found, inside, named⟩ := byId_of_mem listed
    have named' := named.trans (compacts.same row update).id
    obtain rfl := Option.some.inj ((only held inside named').symm.trans update)
    rw [← (compacts.same held update).id, found, getD_some]
  | none =>
    have missing : (byId (compactions.filterMap (·.parentUpdate))).get? parent.id = Option.none := by
      apply byId_eq_none
      intro row listed named
      exact some_ne_none _ ((only row listed named).symm.trans update)
    rw [missing, getD_none]

theorem updatedRow_child {parent child : TransferTask} (mem : parent ∈ tasks)
    (directory : parent.isUnfinishedDirectory) (known : child ∈ childrenOf tasks parent) :
    updatedRow compactions child ∈ parentChildren names tasks parent := by
  obtain ⟨inside, hasParent, named⟩ := mem_childrenOf.mp known
  have none : (byId (compactions.filterMap (·.parentUpdate))).get? child.id = none := by
    apply byId_eq_none
    intro row listed here
    obtain ⟨other, held, its, same, _⟩ := parent_of_update all listed
    obtain rfl := eq_of_id unique held inside (same.id.symm.trans here)
    exact Bool.noConfusion (hasParent.symm.trans (no_parent its))
  unfold updatedRow
  dsimp only
  rw [none, none_or]
  cases normalized : (byId (compactions.flatMap (·.normalizedChildren))).get? child.id with
  | some row =>
    obtain ⟨listed, here⟩ := mem_of_byId normalized
    obtain ⟨other, held, _, row', its, itsKnown, same⟩ := child_of_normalized all listed
    obtain ⟨itsInside, _, itsNamed⟩ := mem_childrenOf.mp itsKnown
    obtain rfl := eq_of_id unique itsInside inside (same.id.symm.trans here)
    obtain rfl := eq_of_id unique held mem (Option.some.inj (itsNamed.symm.trans named))
    exact row'
  | none =>
    by_cases upgrade : needsUpgrade parent (childrenOf tasks parent)
    · exfalso
      have listed : child.id ∈ (parentChildren names tasks parent).map (·.id) :=
        (ids_parentChildren names tasks parent).mem_iff.mpr (List.mem_map_of_mem known)
      obtain ⟨row, row', here⟩ := List.mem_map.mp listed
      obtain ⟨compaction, isHere, _, compacts⟩ :=
        PairedLists.exists_right all (mem_filter.mpr ⟨mem, directory⟩)
      have normal : row ∈ compactions.flatMap (·.normalizedChildren) := by
        refine mem_flatMap.mpr ⟨compaction, isHere, ?_⟩
        rw [compacts.normalized, if_pos upgrade]
        exact row'
      obtain ⟨held, found, _⟩ := byId_of_mem normal
      rw [here, normalized] at found
      exact some_ne_none _ found.symm
    · unfold parentChildren
      dsimp only
      rw [if_neg upgrade]
      exact known

theorem exists_child {parent row : TransferTask} (mem : parent ∈ tasks)
    (directory : parent.isUnfinishedDirectory)
    (counted : row ∈ parentChildren names tasks parent) :
    ∃ child ∈ childrenOf tasks parent, updatedRow compactions child = row := by
  obtain ⟨child, known, same⟩ := mem_parentChildren names counted
  have inside := (mem_childrenOf.mp known).1
  have distinct : ((parentChildren names tasks parent).map (·.id)).Nodup := by
    apply (ids_parentChildren names tasks parent).nodup_iff.mpr
    exact unique.sublist (filter_sublist.map _)
  refine ⟨child, known, ?_⟩
  apply eq_of_id distinct (updatedRow_child unique all mem directory known) counted
  exact (updatedRow_same unique all inside).id.trans same.id.symm

end

end Rows

/-- The rows after the directories were compacted, and the rows that were folded. -/
structure Pruned (names : EntryIdentities) (tasks rows folded : List TransferTask) : Prop where
  unique : (rows.map (·.id)).Nodup
  kept : ∀ task ∈ tasks, ∃ row, SameRow task row ∧
    (row ∈ rows ∨ row ∈ folded ∧ row.status = .completed ∧ row.hasWarning = false)
  directory : ∀ parent ∈ tasks, parent.isUnfinishedDirectory = true → ∃ compaction,
    Compacts names (tasks.map dropFailedCheckpoint) parent compaction ∧
      compaction.parentUpdate.getD parent ∈ rows
  child : ∀ parent ∈ tasks, parent.isUnfinishedDirectory = true →
    ∀ row ∈ parentChildren names (tasks.map dropFailedCheckpoint) parent,
      row ∈ rows ∨ row ∈ folded ∧ row.status = .completed ∧ row.hasWarning = false

theorem compactRows_pruned (names : EntryIdentities) {tasks : List TransferTask}
    (unique : (tasks.map (·.id)).Nodup) :
    ∃ rows folded, compactRows names tasks = .ok (rows, folded) ∧
      Pruned names tasks rows folded := by
  let compacted := tasks.map dropFailedCheckpoint
  have ids : compacted.map (·.id) = tasks.map (·.id) := by
    rw [List.map_map]
    exact map_congr_left fun task _ => (dropFailedCheckpoint_same task).id
  have unique' : (compacted.map (·.id)).Nodup := ids ▸ unique
  have each : ∀ parent ∈ compacted.filter (·.isUnfinishedDirectory), ∃ compaction,
      compactParent names compacted parent = .ok compaction ∧
      compactParent names compacted parent = .ok compaction ∧
        Compacts names compacted parent compaction := by
    intro parent _
    obtain ⟨compaction, done, compacts⟩ := compactParent_compacts names compacted parent
    exact ⟨compaction, done, done, compacts⟩
  obtain ⟨compactions, made, all⟩ :=
    mapM_ok (P := fun parent compaction => compactParent names compacted parent = .ok compaction ∧
      Compacts names compacted parent compaction) (compacted.filter (·.isUnfinishedDirectory)) each
  let foldedIds := (compactions.flatMap (·.compactedChildren)).map (·.id)
  let isFolded : TransferTask → Bool := fun task => decide (task.id ∈ foldedIds)
  refine ⟨((compacted.partition isFolded).2).map (updatedRow compactions),
    ((compacted.partition isFolded).1).map (updatedRow compactions), ?_, ?_⟩
  · exact bind_eq_ok.mpr ⟨compactions, made, rfl⟩
  rw [partition_eq_filter_filter]
  -- a row that is folded is one that its directory has compacted
  have folded : ∀ task ∈ compacted, isFolded task = true →
      (updatedRow compactions task).status = .completed ∧
        (updatedRow compactions task).hasWarning = false := by
    intro task mem folded
    obtain ⟨row, listed, named⟩ := List.mem_map.mp (of_decide_eq_true folded)
    obtain ⟨compaction, here, inside⟩ := mem_flatMap.mp listed
    obtain ⟨parent, known, _, compacts⟩ := PairedLists.exists_left all here
    obtain ⟨held, directory⟩ := mem_filter.mp known
    rw [compacts.compacted] at inside
    obtain ⟨counted, done⟩ := mem_filter.mp inside
    obtain ⟨child, isChild, updated⟩ := exists_child unique' all held directory counted
    have inside' := (mem_childrenOf.mp isChild).1
    have same := (updatedRow_same unique' all inside').id
    rw [updated, named] at same
    obtain rfl := eq_of_id unique' inside' mem same.symm
    rw [updated]
    exact isCompacted_completed done
  have placed : ∀ task ∈ compacted,
      updatedRow compactions task ∈
        (compacted.filter (not ∘ isFolded)).map (updatedRow compactions) ∨
      updatedRow compactions task ∈ (compacted.filter isFolded).map (updatedRow compactions) ∧
        (updatedRow compactions task).status = .completed ∧
        (updatedRow compactions task).hasWarning = false := by
    intro task mem
    by_cases gone : isFolded task
    · exact Or.inr ⟨List.mem_map_of_mem (mem_filter.mpr ⟨mem, gone⟩), folded task mem gone⟩
    · refine Or.inl (List.mem_map_of_mem (mem_filter.mpr ⟨mem, ?_⟩))
      rw [Function.comp_apply, Bool.not_eq_true _ |>.mp gone]
      rfl
  have listed : ∀ parent ∈ tasks, parent.isUnfinishedDirectory = true → parent ∈ compacted := by
    intro parent mem directory
    refine List.mem_map.mpr ⟨parent, mem, dropFailedCheckpoint_eq ?_⟩
    intro failed
    simp only [TransferTask.isUnfinishedDirectory, TransferTask.isUnfinished, failed,
      TransferStatus.isTerminal, Bool.and_eq_true, Bool.not_true, Bool.false_eq_true,
      and_false] at directory
  constructor
  · have same : ((compacted.filter (not ∘ isFolded)).map (updatedRow compactions)).map (·.id) =
        (compacted.filter (not ∘ isFolded)).map (·.id) := by
      rw [List.map_map]
      apply map_congr_left
      intro task mem
      exact (updatedRow_same unique' all (mem_of_mem_filter mem)).id
    rw [same]
    exact unique'.sublist (filter_sublist.map _)
  · intro task mem
    have mem' : dropFailedCheckpoint task ∈ compacted := List.mem_map_of_mem mem
    exact ⟨updatedRow compactions (dropFailedCheckpoint task),
      (dropFailedCheckpoint_same task).trans (updatedRow_same unique' all mem'), placed _ mem'⟩
  · intro parent mem directory
    have mem' := listed parent mem directory
    obtain ⟨compaction, compacts, updated⟩ := updatedRow_parent unique' all mem' directory
    refine ⟨compaction, compacts, ?_⟩
    rw [← updated]
    rcases placed parent mem' with kept | ⟨_, completed, _⟩
    · exact kept
    · exfalso
      rw [(updatedRow_same unique' all mem').status] at completed
      simp only [TransferTask.isUnfinishedDirectory, TransferTask.isUnfinished, completed,
        TransferStatus.isTerminal, Bool.and_eq_true, Bool.not_true, Bool.false_eq_true,
        and_false] at directory
  · intro parent mem directory row counted
    have mem' := listed parent mem directory
    obtain ⟨child, known, rfl⟩ := exists_child unique' all mem' directory counted
    exact placed child (mem_childrenOf.mp known).1

end Netcatty.TransferHistory
