import Netcatty.SftpCompaction

/-!
Compaction over whole runs: an unfinished directory forgets no file that still has to be
transferred.
-/

namespace Netcatty.TransferHistory

open List Option Bool

/-! ## What is kept -/

variable {rows : List TransferTask} {now : ℚ}

theorem mem_retainRows_of_unfinished {row : TransferTask} (mem : row ∈ rows)
    (unfinished : row.isUnfinished) : row ∈ retainRows rows now := by
  unfold retainRows
  rw [mem_mergeSort, mem_append, mem_append]
  exact Or.inl (Or.inl (mem_filter.mpr ⟨mem, unfinished⟩))

theorem mem_retainRows_of_child {row parent : TransferTask} (mem : row ∈ rows)
    (hasParent : row.hasParent) (known : parent ∈ rows)
    (named : row.parentTaskId = some parent.id) (unfinished : parent.isUnfinished) :
    row ∈ retainRows rows now := by
  by_cases terminal : row.status.isTerminal
  · unfold retainRows
    rw [mem_mergeSort, mem_append, mem_append]
    refine Or.inl (Or.inr (mem_filter.mpr ⟨mem, ?_⟩))
    rw [and_eq_true, and_eq_true, decide_eq_true_eq, named, getD_some]
    refine ⟨⟨terminal, hasParent⟩, ?_⟩
    exact List.mem_map_of_mem (mem_filter.mpr ⟨known, unfinished⟩)
  · apply mem_retainRows_of_unfinished mem
    unfold TransferTask.isUnfinished
    rw [not_eq_true _ |>.mp terminal]
    rfl

theorem checkpointChildren_sublist : (checkpointChildren rows).Sublist rows :=
  filter_sublist

theorem retainRows_unique (unique : (rows.map (·.id)).Nodup) :
    ((retainRows rows now).map (·.id)).Nodup := by
  have parts : ((rows.filter (·.isUnfinished) ++ checkpointChildren rows ++
      terminalRows rows now).map (·.id)).Nodup := by
    rw [map_append, map_append]
    have terminal : ∀ row ∈ terminalRows rows now, row ∈ rows ∧ row.status.isTerminal = true ∧
        row.id ∉ (checkpointChildren rows).map (·.id) := by
      intro row mem
      have sorted := mem_of_mem_take mem
      rw [mem_mergeSort] at sorted
      obtain ⟨inside, kind⟩ := mem_filter.mp (mem_of_mem_filter sorted)
      rw [and_eq_true, decide_eq_true_eq] at kind
      exact ⟨inside, kind.1, kind.2⟩
    have unfinished : ∀ row ∈ rows.filter (·.isUnfinished), row ∈ rows ∧
        row.status.isTerminal = false := by
      intro row mem
      obtain ⟨inside, kind⟩ := mem_filter.mp mem
      exact ⟨inside, (not_eq_true' _).mp kind⟩
    have child : ∀ row ∈ checkpointChildren rows, row ∈ rows ∧ row.status.isTerminal = true := by
      intro row mem
      obtain ⟨inside, kind⟩ := mem_filter.mp mem
      rw [and_eq_true, and_eq_true] at kind
      exact ⟨inside, kind.1.1⟩
    apply List.Nodup.append
    · apply List.Nodup.append
      · exact unique.sublist (filter_sublist.map _)
      · exact unique.sublist (checkpointChildren_sublist.map _)
      · intro id first second
        obtain ⟨row, mem, named⟩ := List.mem_map.mp first
        obtain ⟨other, mem', named'⟩ := List.mem_map.mp second
        obtain ⟨inside, open_⟩ := unfinished row mem
        obtain ⟨inside', done⟩ := child other mem'
        obtain rfl := eq_of_id unique inside inside' (named.trans named'.symm)
        exact Bool.noConfusion (open_.symm.trans done)
    · unfold terminalRows
      apply List.Nodup.sublist ((take_sublist _ _).map _)
      apply ((mergeSort_perm _ _).map _).nodup_iff.mpr
      exact unique.sublist ((filter_sublist.trans filter_sublist).map _)
    · intro id first second
      obtain ⟨row, mem, named⟩ := List.mem_map.mp second
      obtain ⟨inside, done, other⟩ := terminal row mem
      rcases mem_append.mp first with early | early
      · obtain ⟨row', mem', named'⟩ := List.mem_map.mp early
        obtain ⟨inside', open_⟩ := unfinished row' mem'
        obtain rfl := eq_of_id unique inside inside' (named.trans named'.symm)
        exact Bool.noConfusion (open_.symm.trans done)
      · exact other (named ▸ early)
  exact ((mergeSort_perm _ _).map _).nodup_iff.mpr parts

/-! ## What a checkpoint stands for -/

def ChildOf (parentId : JsString) (row : TransferTask) : Prop :=
  row.hasParent = true ∧ row.parentTaskId = some parentId

/-- In the rows there are and were, an entry of the directory keeps its identity.  A walk
has far fewer entries than there are safe integers. -/
def FixedEntries (identity : ℕ → JsString) (parentId : JsString) (s : HistoryState) : Prop :=
  ∀ row ∈ s.tasks ++ s.removed, ChildOf parentId row → ∀ index : ℕ, row.isEntryAt index = true →
    index < maxSafeInteger ∧ row.directoryEntryIdentity = some (identity index)

/-- An entry has its row, or it had one that was completed without a warning when it was
taken out. -/
def EntryKnown (parentId : JsString) (s : HistoryState) (index : ℕ) : Prop :=
  (∃ row ∈ s.tasks, ChildOf parentId row ∧ row.isEntryAt index = true) ∨
    ∃ row ∈ s.removed, ChildOf parentId row ∧ row.isEntryAt index = true ∧
      row.status = .completed ∧ row.hasWarning = false

structure CheckpointSound (identity : ℕ → JsString) (parentId : JsString) (s : HistoryState)
    (checkpoint : DirectoryResumeCheckpoint) : Prop where
  valid : isValidDirectoryResumeCheckpoint (some checkpoint) = true
  completed : checkpoint.completedEntries ≤ checkpoint.coveredEntries
  manifest : rebuildManifest checkpoint.version
    ((List.range checkpoint.coveredEntries.toNat).map identity) = .ok checkpoint.manifestHash
  known : ∀ index : ℕ, (index : ℤ) < checkpoint.coveredEntries → EntryKnown parentId s index

/-- The row of an unfinished directory, with a sound checkpoint or none. -/
structure Accounted (identity : ℕ → JsString) (s : HistoryState) (parent : TransferTask) :
    Prop where
  unique : (s.tasks.map (·.id)).Nodup
  mem : parent ∈ s.tasks
  directory : parent.isUnfinishedDirectory = true
  checkpoint : ∀ checkpoint, parent.directoryResumeCheckpoint = some checkpoint →
    CheckpointSound identity parent.id s checkpoint

/-- The `coveredEntries` of a row's checkpoint. -/
def coveredEntriesOf (row : TransferTask) : ℤ :=
  match row.directoryResumeCheckpoint with
  | none => 0
  | some checkpoint => checkpoint.coveredEntries

variable {names : EntryIdentities} {identity : ℕ → JsString} {s : HistoryState}
  {parent : TransferTask}

theorem checkpoint_bounds {checkpoint : DirectoryResumeCheckpoint}
    (valid : isValidDirectoryResumeCheckpoint (some checkpoint)) :
    0 ≤ checkpoint.coveredEntries ∧ checkpoint.coveredEntries ≤ maxSafeInteger ∧
      0 ≤ checkpoint.completedEntries ∧
      checkpoint.completedEntries ≤ checkpoint.coveredEntries ∧
      isHex64 checkpoint.manifestHash := by
  simp only [isValidDirectoryResumeCheckpoint, isSafeInteger, and_eq_true,
    decide_eq_true_eq] at valid
  obtain ⟨⟨⟨⟨⟨safe, covered⟩, _⟩, completed⟩, less⟩, hex⟩ := valid
  exact ⟨covered, safe.2, completed, less, hex⟩

theorem checkpoint_valid {checkpoint : DirectoryResumeCheckpoint}
    (covered : 0 ≤ checkpoint.coveredEntries) (safe : checkpoint.coveredEntries ≤ maxSafeInteger)
    (completed : 0 ≤ checkpoint.completedEntries)
    (less : checkpoint.completedEntries ≤ checkpoint.coveredEntries)
    (hex : isHex64 checkpoint.manifestHash) :
    isValidDirectoryResumeCheckpoint (some checkpoint) := by
  simp only [isValidDirectoryResumeCheckpoint, isSafeInteger, and_eq_true,
    decide_eq_true_eq]
  refine ⟨⟨⟨⟨⟨⟨?_, safe⟩, covered⟩, ?_, ?_⟩, completed⟩, less⟩, hex⟩ <;> omega

theorem emptyCheckpoint_sound (identity : ℕ → JsString) (parentId : JsString)
    (s : HistoryState) :
    CheckpointSound identity parentId s createEmptyDirectoryResumeCheckpoint where
  valid := checkpoint_valid (Int.le_refl 0) (by decide) (Int.le_refl 0) (Int.le_refl 0)
    (isHex64_hex SHA256_INITIAL_STATE)
  completed := Int.le_refl 0
  manifest := by
    have formed : DirectoryManifestAccumulator.WellFormed (.v2 SHA256_INITIAL_STATE) := trivial
    exact bind_eq_ok.mpr ⟨_, DirectoryManifestAccumulator.create_digest formed, rfl⟩
  known := by
    intro index below
    exact absurd (Int.natCast_nonneg index) (Int.not_le.mpr below)

/-- The checkpoint a prune goes on from is sound. -/
theorem Accounted.start (h : Accounted identity s parent) :
    CheckpointSound identity parent.id s (startCheckpoint parent) ∧
      (startCheckpoint parent).coveredEntries = coveredEntriesOf parent := by
  unfold startCheckpoint coveredEntriesOf
  cases held : parent.directoryResumeCheckpoint with
  | none => exact ⟨emptyCheckpoint_sound identity parent.id s, rfl⟩
  | some checkpoint =>
    have sound := h.checkpoint checkpoint held
    rw [if_pos sound.valid]
    exact ⟨sound, rfl⟩

/-! ## One prune -/

/-- What a prune made of a state. -/
structure PrunedTo (names : EntryIdentities) (s s' : HistoryState) : Prop where
  unique : (s'.tasks.map (·.id)).Nodup
  kept : ∀ task ∈ s.tasks, task.isUnfinished = true ∨
    (task.status ≠ .completed ∧ ∃ parent ∈ s.tasks, ChildOf parent.id task ∧
      parent.isUnfinished = true) → ∃ row ∈ s'.tasks, SameRow task row
  directory : ∀ parent ∈ s.tasks, parent.isUnfinishedDirectory = true → ∃ compaction,
    Compacts names (s.tasks.map dropFailedCheckpoint) parent compaction ∧
      compaction.parentUpdate.getD parent ∈ s'.tasks
  child : ∀ parent ∈ s.tasks, parent.isUnfinishedDirectory = true →
    ∀ row ∈ parentChildren names (s.tasks.map dropFailedCheckpoint) parent,
      row ∈ s'.tasks ∨ row ∈ s'.removed ∧ row.status = .completed ∧ row.hasWarning = false
  removed : ∀ row ∈ s.removed, row ∈ s'.removed

theorem isUnfinished_of_directory {row : TransferTask}
    (directory : row.isUnfinishedDirectory) : row.isUnfinished :=
  (and_eq_true_iff.mp directory).2

theorem prune_prunedTo (names : EntryIdentities) (s : HistoryState)
    (unique : (s.tasks.map (·.id)).Nodup) (now : ℚ) :
    PrunedTo names s (s.step names (.prune now)) := by
  obtain ⟨rows, folded, compacted, pruned⟩ := compactRows_pruned names unique
  let evicted := rows.filter fun task => decide (task.id ∉ (retainRows rows now).map (·.id))
  have shape : s.step names (.prune now) =
      { tasks := retainRows rows now, removed := s.removed ++ (folded ++ evicted) } := by
    have done : s.prune names now = .ok
        { tasks := retainRows rows now, removed := s.removed ++ (folded ++ evicted) } :=
      bind_eq_ok.mpr ⟨_, compacted, rfl⟩
    unfold HistoryState.step
    dsimp only
    rw [done]
  rw [shape]
  have directory : ∀ parent ∈ s.tasks, parent.isUnfinishedDirectory = true → ∃ compaction,
      Compacts names (s.tasks.map dropFailedCheckpoint) parent compaction ∧
        compaction.parentUpdate.getD parent ∈ rows ∧
        SameRow parent (compaction.parentUpdate.getD parent) := by
    intro parent mem kind
    obtain ⟨compaction, compacts, inside⟩ := pruned.directory parent mem kind
    refine ⟨compaction, compacts, inside, ?_⟩
    cases update : compaction.parentUpdate with
    | none => exact .refl parent
    | some row => exact compacts.same row update
  constructor
  · exact retainRows_unique pruned.unique
  · intro task mem needed
    obtain ⟨row, same, place⟩ := pruned.kept task mem
    rcases needed with unfinished | ⟨open_, parent, known, ⟨hasParent, named⟩, unfinished⟩
    · have still := same.isUnfinished.trans unfinished
      rcases place with inside | ⟨_, completed, _⟩
      · exact ⟨row, mem_retainRows_of_unfinished inside still, same⟩
      · rw [TransferTask.isUnfinished, completed] at still
        exact Bool.noConfusion still
    · rcases place with inside | ⟨_, completed, _⟩
      · obtain ⟨other, its, here⟩ := pruned.kept parent known
        have still := its.isUnfinished.trans unfinished
        rcases here with here | ⟨_, completed, _⟩
        · refine ⟨row, mem_retainRows_of_child inside (same.hasParent.trans hasParent) here ?_ still,
            same⟩
          rw [same.parentTaskId, named, its.id]
        · rw [TransferTask.isUnfinished, completed] at still
          exact Bool.noConfusion still
      · exact absurd (same.status.symm.trans completed) open_
  · intro parent mem kind
    obtain ⟨compaction, compacts, inside, same⟩ := directory parent mem kind
    refine ⟨compaction, compacts, mem_retainRows_of_unfinished inside ?_⟩
    exact same.isUnfinished.trans (isUnfinished_of_directory kind)
  · intro parent mem kind row counted
    rcases pruned.child parent mem kind row counted with inside | ⟨gone, done⟩
    · left
      obtain ⟨child, known, itself⟩ := mem_parentChildren names counted
      obtain ⟨_, hasParent, named⟩ := mem_childrenOf.mp known
      obtain ⟨compaction, _, here, same⟩ := directory parent mem kind
      apply mem_retainRows_of_child inside (itself.hasParent.trans hasParent) here
      · rw [itself.parentTaskId, named, same.id]
      · exact same.isUnfinished.trans (isUnfinished_of_directory kind)
    · exact Or.inr ⟨mem_append_right _ (mem_append_left _ gone), done⟩
  · exact fun row mem => mem_append_left _ mem

/-- Rows of a directory with a valid checkpoint keep their numbers. -/
theorem mem_parentChildren_of_valid {tasks : List TransferTask} {child : TransferTask}
    (valid : isValidDirectoryResumeCheckpoint parent.directoryResumeCheckpoint)
    (mem : child ∈ tasks) (below : ChildOf parent.id child) :
    child ∈ parentChildren names (tasks.map dropFailedCheckpoint) parent := by
  have same : dropFailedCheckpoint child = child := by
    apply if_neg
    intro failed
    rw [below.1] at failed
    exact absurd failed.2.1 Bool.false_ne_true
  have known : child ∈ childrenOf (tasks.map dropFailedCheckpoint) parent :=
    mem_childrenOf.mpr ⟨List.mem_map.mpr ⟨child, mem, same⟩, below⟩
  have kept : ¬ needsUpgrade parent (childrenOf (tasks.map dropFailedCheckpoint) parent) = true := by
    unfold needsUpgrade
    rw [valid]
    exact Bool.false_ne_true
  unfold parentChildren
  dsimp only
  rw [if_neg kept]
  exact known

section Prune

variable {s' : HistoryState}

theorem known_of_pruned (h : Accounted identity s parent) (pruned : PrunedTo names s s')
    {index : ℕ} (below : (index : ℤ) < coveredEntriesOf parent) :
    EntryKnown parent.id s' index := by
  have valid : isValidDirectoryResumeCheckpoint parent.directoryResumeCheckpoint = true := by
    unfold coveredEntriesOf at below
    cases held : parent.directoryResumeCheckpoint with
    | none =>
      rw [held] at below
      exact absurd (Int.natCast_nonneg index) (Int.not_le.mpr below)
    | some checkpoint => exact (h.checkpoint checkpoint held).valid
  rw [← h.start.2] at below
  rcases h.start.1.known index below with ⟨row, mem, child, entry⟩ | ⟨row, mem, rest⟩
  · have counted : row ∈ parentChildren names (s.tasks.map dropFailedCheckpoint) parent :=
      mem_parentChildren_of_valid valid mem child
    rcases pruned.child parent h.mem h.directory row counted with kept | ⟨gone, done⟩
    · exact Or.inl ⟨row, kept, child, entry⟩
    · exact Or.inr ⟨row, gone, child, entry, done⟩
  · exact Or.inr ⟨row, pruned.removed row mem, rest⟩

theorem childOf_counted {row : TransferTask}
    (counted : row ∈ parentChildren names (s.tasks.map dropFailedCheckpoint) parent) :
    ChildOf parent.id row := by
  obtain ⟨child, known, same⟩ := mem_parentChildren names counted
  obtain ⟨_, hasParent, named⟩ := mem_childrenOf.mp known
  exact ⟨same.hasParent.trans hasParent, same.parentTaskId.trans named⟩

section

variable (h : Accounted identity s parent) (pruned : PrunedTo names s s')

include h pruned

section

variable (fixed : FixedEntries identity parent.id s')
include fixed

theorem counted_fixed {row : TransferTask}
    (counted : row ∈ parentChildren names (s.tasks.map dropFailedCheckpoint) parent) {index : ℕ}
    (entry : row.isEntryAt index) :
    index < maxSafeInteger ∧ row.directoryEntryIdentity = some (identity index) := by
  apply fixed row ?_ (childOf_counted counted) index entry
  rcases pruned.child parent h.mem h.directory row counted with kept | ⟨gone, _⟩
  · exact mem_append_left _ kept
  · exact mem_append_right _ gone

omit fixed in
theorem known_after {index : ℕ} (below : (index : ℤ) <
      coveredAfter names (s.tasks.map dropFailedCheckpoint) parent) :
    EntryKnown parent.id s' index := by
  by_cases older : (index : ℤ) < coveredEntriesOf parent
  · exact known_of_pruned h pruned older
  · obtain ⟨sound, same⟩ := h.start
    have inside : index - (startCheckpoint parent).coveredEntries.toNat <
        (coveringRows (parentChildren names (s.tasks.map dropFailedCheckpoint) parent)
          (startCheckpoint parent).coveredEntries.toNat).length := by
      unfold coveredAfter at below
      omega
    obtain ⟨counted, entry⟩ := coveringRows_get _ (getElem?_eq_getElem inside)
    have place : (startCheckpoint parent).coveredEntries.toNat +
        (index - (startCheckpoint parent).coveredEntries.toNat) = index := by
      omega
    rw [place] at entry
    rcases pruned.child parent h.mem h.directory _ counted with kept | ⟨gone, done⟩
    · exact Or.inl ⟨_, kept, childOf_counted counted, entry⟩
    · exact Or.inr ⟨_, gone, childOf_counted counted, entry, done⟩

theorem coveredAfter_le :
    coveredAfter names (s.tasks.map dropFailedCheckpoint) parent ≤ maxSafeInteger := by
  obtain ⟨sound, _⟩ := h.start
  have bounds := checkpoint_bounds sound.valid
  unfold coveredAfter
  generalize rows : coveringRows (parentChildren names (s.tasks.map dropFailedCheckpoint) parent)
    (startCheckpoint parent).coveredEntries.toNat = covering
  by_cases none : covering.length = 0
  · omega
  · have last : covering.length - 1 < covering.length := by omega
    obtain ⟨counted, entry⟩ := coveringRows_get _
      ((congrArg (·[covering.length - 1]?) rows).trans (getElem?_eq_getElem last))
    have safe := (counted_fixed h pruned fixed counted entry).1
    omega

theorem manifest_after {manifest after : DirectoryManifestAccumulator}
    (made : DirectoryManifestAccumulator.create (startCheckpoint parent).version
      (startCheckpoint parent).manifestHash = .ok manifest)
    (appended : ((coveringRows (parentChildren names (s.tasks.map dropFailedCheckpoint) parent)
      (startCheckpoint parent).coveredEntries.toNat).map fun child =>
        child.directoryEntryIdentity.getD []).foldlM DirectoryManifestAccumulator.append manifest =
          .ok after) :
    isHex64 after.digest ∧ rebuildManifest (startCheckpoint parent).version
      ((List.range (coveredAfter names (s.tasks.map dropFailedCheckpoint) parent).toNat).map
        identity) = .ok after.digest := by
  obtain ⟨sound, _⟩ := h.start
  have bounds := checkpoint_bounds sound.valid
  obtain ⟨manifest', after', made', appended', hex, rebuilt⟩ :=
    rebuildManifest_append sound.manifest (coveringRows_hex
      (parentChildren names (s.tasks.map dropFailedCheckpoint) parent)
      (startCheckpoint parent).coveredEntries.toNat)
  obtain rfl := Except.ok.inj (made.symm.trans made')
  obtain rfl := Except.ok.inj (appended.symm.trans appended')
  refine ⟨hex, ?_⟩
  have entries : ∀ child ∈ parentChildren names (s.tasks.map dropFailedCheckpoint) parent,
      ∀ place, child.isEntryAt place = true →
        child.directoryEntryIdentity = some (identity place) :=
    fun child counted place entry => (counted_fixed h pruned fixed counted entry).2
  have identities := coveringRows_identities (startCheckpoint parent).coveredEntries.toNat entries
  rw [identities] at rebuilt
  have total : (coveredAfter names (s.tasks.map dropFailedCheckpoint) parent).toNat =
      (startCheckpoint parent).coveredEntries.toNat +
        (coveringRows (parentChildren names (s.tasks.map dropFailedCheckpoint) parent)
          (startCheckpoint parent).coveredEntries.toNat).length := by
    unfold coveredAfter
    omega
  rw [total, range_add, map_append, List.map_map]
  exact rebuilt

theorem Accounted.prune : ∃ parent', Accounted identity s' parent' ∧ parent'.id = parent.id ∧
      coveredEntriesOf parent ≤ coveredEntriesOf parent' ∧
      parent.transferredBytes ≤ parent'.transferredBytes := by
  obtain ⟨sound, start⟩ := h.start
  have bounds := checkpoint_bounds sound.valid
  obtain ⟨compaction, compacts, inside⟩ := pruned.directory parent h.mem h.directory
  cases update : compaction.parentUpdate with
  | none =>
    rw [update, getD_none] at inside
    refine ⟨parent, ⟨pruned.unique, inside, h.directory, ?_⟩, rfl, Int.le_refl _, le_refl _⟩
    intro checkpoint held
    have older := h.checkpoint checkpoint held
    refine ⟨older.valid, older.completed, older.manifest, ?_⟩
    intro index below
    apply known_of_pruned h pruned
    unfold coveredEntriesOf
    rw [held]
    exact below
  | some row =>
    rw [update, getD_some] at inside
    have same := compacts.same row update
    obtain ⟨manifest, after, checkpoint, held, version, covered, completed, digest, made, appended,
      bytes⟩ := compacts.updated row update
    obtain ⟨hex, rebuilt⟩ := manifest_after h pruned fixed made appended
    have most := coveredAfter_le h pruned fixed
    have grown : (startCheckpoint parent).coveredEntries ≤
        coveredAfter names (s.tasks.map dropFailedCheckpoint) parent := by
      unfold coveredAfter
      omega
    have here : coveredEntriesOf row =
        coveredAfter names (s.tasks.map dropFailedCheckpoint) parent := by
      unfold coveredEntriesOf
      rw [held]
      exact covered
    refine ⟨row, ⟨pruned.unique, inside, same.isUnfinishedDirectory.trans h.directory, ?_⟩, same.id,
      ?_, bytes⟩
    · intro checkpoint' held'
      obtain rfl := Option.some.inj (held.symm.trans held')
      rw [same.id]
      constructor
      · apply checkpoint_valid
        · omega
        · omega
        · rw [completed]
          exact le_min (by omega) (by omega)
        · rw [completed, covered]
          exact min_le_left _ _
        · rw [digest]
          exact hex
      · rw [completed, covered]
        exact min_le_left _ _
      · rw [version, covered, digest]
        exact rebuilt
      · intro index below
        exact known_after h pruned (covered ▸ below)
    · rw [here, ← start]
      exact grown

end

end

end Prune

/-! ## Runs -/

/-- Does an event end the work of this id? -/
def HistoryEvent.Finishes (parentId : JsString) : HistoryEvent → Prop
  | .changeStatus id status => id = parentId ∧ status.isTerminal = true
  | _ => False

/-- Changes that leave every row its place, its entry and its identity. -/
theorem Accounted.changed {change : TransferTask → TransferTask}
    (h : Accounted identity s parent)
    (same : ∀ task, (change task).id = task.id ∧ (change task).parentTaskId = task.parentTaskId ∧
      (change task).directoryEntryIndex = task.directoryEntryIndex ∧
      (change task).directoryEntryIdentity = task.directoryEntryIdentity)
    (directory : (change parent).isUnfinishedDirectory)
    (checkpoint : (change parent).directoryResumeCheckpoint = parent.directoryResumeCheckpoint) :
    Accounted identity { s with tasks := s.tasks.map change } (change parent) where
  unique := by
    have ids : (s.tasks.map change).map (·.id) = s.tasks.map (·.id) := by
      rw [List.map_map]
      exact map_congr_left fun task _ => (same task).1
    rw [ids]
    exact h.unique
  mem := List.mem_map_of_mem h.mem
  directory := directory
  checkpoint := by
    intro its held
    rw [checkpoint] at held
    have sound := h.checkpoint its held
    rw [(same parent).1]
    refine ⟨sound.valid, sound.completed, sound.manifest, ?_⟩
    intro index below
    rcases sound.known index below with ⟨row, mem, child, entry⟩ | gone
    · left
      obtain ⟨_, named, number, identified⟩ := same row
      refine ⟨change row, List.mem_map_of_mem mem, ⟨?_, named.trans child.2⟩, ?_⟩
      · unfold TransferTask.hasParent
        rw [named]
        exact child.1
      · unfold TransferTask.isEntryAt TransferTask.hasSafeIndex TransferTask.hasIdentity
        rw [number, identified]
        exact entry
    · exact Or.inr gone

theorem Accounted.step (names : EntryIdentities) (h : Accounted identity s parent)
    (event : HistoryEvent) (unfinished : ¬ event.Finishes parent.id)
    (fixed : FixedEntries identity parent.id (s.step names event)) :
    ∃ parent', Accounted identity (s.step names event) parent' ∧ parent'.id = parent.id ∧
      coveredEntriesOf parent ≤ coveredEntriesOf parent' ∧
      parent.transferredBytes ≤ parent'.transferredBytes := by
  have top : parent.hasParent = false := by
    have directory := h.directory
    simp only [TransferTask.isUnfinishedDirectory, and_eq_true, not_eq_true'] at directory
    exact directory.1.2
  cases event with
  | prune now => exact h.prune (prune_prunedTo names s h.unique now) fixed
  | changeChild id progress =>
    let change : TransferTask → TransferTask := fun task =>
      if task.id = id ∧ task.hasParent then { task with
        status := progress.status, warning := progress.warning,
        totalBytes := progress.totalBytes, transferredBytes := progress.transferredBytes,
        endTime := progress.endTime, updatedAt := progress.updatedAt }
      else task
    have same : change parent = parent := by
      apply if_neg
      intro child
      exact Bool.false_ne_true (top.symm.trans child.2)
    have after : Accounted identity { s with tasks := s.tasks.map change } (change parent) := by
      apply h.changed
      · intro task
        unfold change
        split <;> exact ⟨rfl, rfl, rfl, rfl⟩
      · rw [same]
        exact h.directory
      · rw [same]
    rw [same] at after
    exact ⟨parent, after, rfl, Int.le_refl _, le_refl _⟩
  | changeStatus id status =>
    let change : TransferTask → TransferTask := fun task =>
      if task.id = id ∧ !task.hasParent then { task with status } else task
    have kept : (change parent).isUnfinishedDirectory = true ∧
        (change parent).directoryResumeCheckpoint = parent.directoryResumeCheckpoint ∧
        (change parent).id = parent.id ∧
        (change parent).transferredBytes = parent.transferredBytes := by
      unfold change
      split
      · next here =>
        refine ⟨?_, rfl, rfl, rfl⟩
        have open_ : status.isTerminal = false := by
          by_contra terminal
          exact unfinished ⟨here.1.symm, not_eq_false _ |>.mp terminal⟩
        have directory := h.directory
        simp only [TransferTask.isUnfinishedDirectory, TransferTask.hasParent,
          TransferTask.isUnfinished, and_eq_true] at directory ⊢
        exact ⟨directory.1, (not_eq_true' _).mpr open_⟩
      · exact ⟨h.directory, rfl, rfl, rfl⟩
    obtain ⟨directory, checkpoint, named, bytes⟩ := kept
    refine ⟨change parent, h.changed ?_ directory checkpoint, named, ?_, le_of_eq bytes.symm⟩
    · intro task
      split <;> exact ⟨rfl, rfl, rfl, rfl⟩
    · unfold coveredEntriesOf
      rw [checkpoint]
  | add task =>
    refine ⟨parent, ?_, rfl, Int.le_refl _, le_refl _⟩
    unfold HistoryState.step
    dsimp only
    split
    · exact h
    · next fresh =>
      constructor
      · rw [map_append]
        apply List.Nodup.append h.unique (nodup_singleton _)
        intro id old new
        rw [mem_singleton.mp new] at old
        exact fresh old
      · exact mem_append_left _ h.mem
      · exact h.directory
      · intro checkpoint held
        have sound := h.checkpoint checkpoint held
        refine ⟨sound.valid, sound.completed, sound.manifest, ?_⟩
        intro index below
        rcases sound.known index below with ⟨row, mem, rest⟩ | gone
        · exact Or.inl ⟨row, mem_append_left _ mem, rest⟩
        · exact Or.inr gone

theorem Accounted.run (names : EntryIdentities) (h : Accounted identity s parent)
    (events : List HistoryEvent) (unfinished : ∀ event ∈ events, ¬ event.Finishes parent.id)
    (fixed : ∀ before, before <+: events → FixedEntries identity parent.id (s.run names before)) :
    ∃ parent', Accounted identity (s.run names events) parent' ∧ parent'.id = parent.id ∧
      coveredEntriesOf parent ≤ coveredEntriesOf parent' ∧
      parent.transferredBytes ≤ parent'.transferredBytes := by
  induction events generalizing s parent with
  | nil => exact ⟨parent, h, rfl, Int.le_refl _, le_refl _⟩
  | cons event rest ih =>
    have first : FixedEntries identity parent.id (s.step names event) :=
      fixed [event] ⟨rest, rfl⟩
    obtain ⟨next, accounted, named, covered, bytes⟩ :=
      h.step names event (unfinished event mem_cons_self) first
    have later : ∀ before, before <+: rest →
        FixedEntries identity next.id ((s.step names event).run names before) := by
      intro before early
      rw [named]
      exact fixed (event :: before) (cons_prefix_cons.mpr ⟨rfl, early⟩)
    obtain ⟨last, accounted', named', covered', bytes'⟩ := ih accounted
      (fun other mem => named ▸ unfinished other (mem_cons_of_mem _ mem)) later
    exact ⟨last, accounted', named'.trans named, covered.trans covered', bytes.trans bytes'⟩

/-- While a directory is unfinished, its checkpoint is the chain of its first entries, each
of which has its row or was completed; it never falls back; and no prune drops work that
is unfinished, or a child of unfinished work that was not completed. -/
theorem pruning_forgets_nothing (names : EntryIdentities) (identity : ℕ → JsString)
    (s : HistoryState) (parent : TransferTask) (events : List HistoryEvent)
    (start : Accounted identity s parent)
    (unfinished : ∀ event ∈ events, ¬ event.Finishes parent.id)
    (fixed : ∀ before, before <+: events → FixedEntries identity parent.id (s.run names before)) :
    (∃ parent', Accounted identity (s.run names events) parent' ∧ parent'.id = parent.id ∧
      coveredEntriesOf parent ≤ coveredEntriesOf parent' ∧
      parent.transferredBytes ≤ parent'.transferredBytes) ∧
    ∀ (now : ℚ), ∀ task ∈ (s.run names events).tasks, task.isUnfinished = true ∨
      (task.status ≠ .completed ∧ ∃ parent ∈ (s.run names events).tasks, ChildOf parent.id task ∧
        parent.isUnfinished = true) →
      ∃ row ∈ ((s.run names events).step names (.prune now)).tasks, SameRow task row := by
  obtain ⟨parent', accounted, rest⟩ := start.run names events unfinished fixed
  refine ⟨⟨parent', accounted, rest⟩, ?_⟩
  intro now
  exact (prune_prunedTo names _ accounted.unique now).kept

theorem Accounted.of_no_checkpoint (identity : ℕ → JsString)
    (unique : (s.tasks.map (·.id)).Nodup) (mem : parent ∈ s.tasks)
    (directory : parent.isUnfinishedDirectory)
    (none : parent.directoryResumeCheckpoint = Option.none) : Accounted identity s parent :=
  ⟨unique, mem, directory, fun _ held =>
    absurd (held.symm.trans none) (some_ne_none _)⟩

section Witness

def sampleDirectory : TransferTask :=
  { id := text "directory", parentTaskId := none, isDirectory := true, status := .transferring,
    warning := none, sourcePath := text "/srv", targetPath := text "/tmp/srv", totalBytes := 2,
    sourceLastModified := none, transferredBytes := 0, startTime := 1, endTime := none,
    updatedAt := none, directoryEntryIndex := none, directoryEntryIdentity := none,
    directoryResumeCheckpoint := none }

def sampleFile : TransferTask :=
  { id := text "file", parentTaskId := some (text "directory"), isDirectory := false,
    status := .completed, warning := none, sourcePath := text "/srv/a",
    targetPath := text "/tmp/srv/a", totalBytes := 10, sourceLastModified := some 5,
    transferredBytes := 10, startTime := 2, endTime := some 3, updatedAt := none,
    directoryEntryIndex := some 0, directoryEntryIdentity := some EMPTY_DIRECTORY_MANIFEST_HASH,
    directoryResumeCheckpoint := none }

def sampleHistory : HistoryState := { tasks := [sampleDirectory, sampleFile], removed := [] }

def sampleNames : EntryIdentities :=
  { createDirectoryEntryIdentity := fun _ _ _ _ => EMPTY_DIRECTORY_MANIFEST_HASH,
    localeCompare := compareStrings }

theorem fixed_of_first {identity : ℕ → JsString} {parentId : JsString} {s : HistoryState}
    (only : ∀ row ∈ s.tasks ++ s.removed, row.hasParent →
      row.directoryEntryIndex = some 0 ∧ row.directoryEntryIdentity = some (identity 0)) :
    FixedEntries identity parentId s := by
  intro row mem child index entry
  obtain ⟨zero, named⟩ := only row mem child.1
  obtain ⟨_, _, here⟩ := isEntryAt_iff.mp entry
  have same : index = 0 := Int.natCast_eq_zero.mp (Option.some.inj (here.symm.trans zero))
  rw [same]
  exact ⟨by decide, named⟩

theorem pruning_forgets_nothing_sample :
    ∃ parent', Accounted (fun _ => EMPTY_DIRECTORY_MANIFEST_HASH)
        (sampleHistory.run sampleNames [.prune 4]) parent' ∧ parent'.id = sampleDirectory.id ∧
      coveredEntriesOf sampleDirectory ≤ coveredEntriesOf parent' := by
  obtain ⟨⟨parent', accounted, named, covered, _⟩, _⟩ := pruning_forgets_nothing sampleNames
    (fun _ => EMPTY_DIRECTORY_MANIFEST_HASH) sampleHistory sampleDirectory [.prune 4]
    (Accounted.of_no_checkpoint _ (by decide) mem_cons_self (by decide) rfl)
    (fun event mem => mem_singleton.mp mem ▸ id)
    (fun before early => by
      rcases prefix_cons_iff.mp early with rfl | ⟨rest, rfl, nil⟩
      · exact fixed_of_first (by decide)
      · rw [prefix_nil.mp nil]
        exact fixed_of_first (by decide +kernel))
  exact ⟨parent', accounted, named, covered⟩

end Witness

end Netcatty.TransferHistory
