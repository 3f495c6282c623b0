import Netcatty.SftpTransferHistory

/-!
# The transfer centre

`createSftpTransferCenter` of `domain/sftpTransferCenter.ts`: tasks of several owners share a few
slots, by priority and one owner after the other.
-/

namespace Netcatty.TransferCenter

open List
open TransferHistory (TransferStatus)

structure TransferTask where
  id : JsString
  ownerId : Option JsString
  parentTaskId : Option JsString
  status : TransferStatus
  priority : Option ℚ
  startTime : ℚ
  endTime : Option ℚ
  speed : ℚ
  error : Option JsString
  updatedAt : Option ℚ
deriving DecidableEq

/-- `Partial<TransferTask>`: the fields that are there. -/
structure TransferUpdates where
  id : Option JsString
  ownerId : Option (Option JsString)
  parentTaskId : Option (Option JsString)
  status : Option TransferStatus
  priority : Option (Option ℚ)
  startTime : Option ℚ
  endTime : Option (Option ℚ)
  speed : Option ℚ
  error : Option (Option JsString)
  updatedAt : Option ℚ

def TransferUpdates.empty : TransferUpdates := ⟨none, none, none, none, none, none, none, none, none, none⟩

/-- `RUNNING_STATUSES.has`. -/
def isRunning : TransferStatus → Bool
  | .transferring | .pausing => true
  | _ => false

section Task

variable (task : TransferTask)

def TransferTask.owner : JsString := task.ownerId.getD (text "global")

/-- `item.status === "queued" && !item.parentTaskId`. -/
def TransferTask.isQueuedRoot : Bool := task.status = .queued && (task.parentTaskId.getD []).isEmpty

/-- `{ ...task, ...updates, updatedAt: updates.updatedAt ?? Date.now() }`. -/
def TransferTask.updated (updates : TransferUpdates) (now : ℚ) : TransferTask where
  id := updates.id.getD task.id
  ownerId := updates.ownerId.getD task.ownerId
  parentTaskId := updates.parentTaskId.getD task.parentTaskId
  status := updates.status.getD task.status
  priority := updates.priority.getD task.priority
  startTime := updates.startTime.getD task.startTime
  endTime := updates.endTime.getD task.endTime
  speed := updates.speed.getD task.speed
  error := updates.error.getD task.error
  updatedAt := some (updates.updatedAt.getD now)

/-- A task as `takeRunnable` starts it. -/
def TransferTask.started (now : ℚ) : TransferTask :=
  task.updated { TransferUpdates.empty with status := some .transferring } now

end Task

structure SftpTransferCenter where
  concurrency : ℚ
  tasks : List TransferTask
  prioritySequence : ℕ

def createSftpTransferCenter (concurrency : ℚ) : SftpTransferCenter := ⟨concurrency, [], 0⟩

def compareQueued (a b : TransferTask) : ℚ :=
  let byPriority := b.priority.getD 0 - a.priority.getD 0
  if byPriority ≠ 0 then byPriority else a.startTime - b.startTime

/-- The pass of `takeRunnable`: a task of an owner that has one is skipped while another owner waits. -/
def selectTasks (queued : List TransferTask) (openSlots : ℕ) :
    List TransferTask → List JsString → List TransferTask → List TransferTask
  | selected, _, [] => selected
  | selected, owners, task :: rest =>
    if owners.contains task.owner && queued.any (fun candidate =>
        candidate.id ≠ task.id && !selected.contains candidate && !owners.contains candidate.owner) then
      selectTasks queued openSlots selected owners rest
    else if openSlots ≤ (selected ++ [task]).length then selected ++ [task]
    else selectTasks queued openSlots (selected ++ [task]) (task.owner :: owners) rest

namespace SftpTransferCenter

variable (center : SftpTransferCenter)

def replace (taskId : JsString) (updates : TransferUpdates) (now : ℚ) : SftpTransferCenter :=
  { center with tasks := center.tasks.map fun task => if task.id = taskId then task.updated updates now else task }

def getTask (taskId : JsString) : Option TransferTask := center.tasks.find? (·.id = taskId)

def add (ownerId : JsString) (incoming : List TransferTask) : SftpTransferCenter :=
  { center with
    tasks := center.tasks ++ (incoming.filter fun item => !(center.tasks.map (·.id)).contains item.id).map
      fun item => { item with ownerId := some ownerId } }

def pause (taskId : JsString) (now : ℚ) : SftpTransferCenter :=
  match center.getTask taskId with
  | none => center
  | some current =>
    if current.status.isTerminal then center
    else center.replace taskId { TransferUpdates.empty with status := some .paused, speed := some 0 } now

def resume (taskId : JsString) (now : ℚ) : SftpTransferCenter :=
  match center.getTask taskId with
  | none => center
  | some current =>
    if [.paused, .interrupted, .failed, .attention].contains current.status then
      center.replace taskId
        { TransferUpdates.empty with status := some .queued, error := some none, endTime := some none } now
    else center

def prioritize (taskId : JsString) (now : ℚ) : SftpTransferCenter :=
  { center with prioritySequence := center.prioritySequence + 1 }.replace taskId
    { TransferUpdates.empty with priority := some (some (center.prioritySequence + 1 : ℕ)) } now

def complete (taskId : JsString) (now : ℚ) : SftpTransferCenter :=
  center.replace taskId
    { TransferUpdates.empty with status := some .completed, endTime := some (some now), speed := some 0 } now

def running : ℕ := center.tasks.countP fun task => isRunning task.status

def openSlots : ℕ := (center.concurrency.floor - center.running).toNat

def queued : List TransferTask :=
  (center.tasks.filter (·.isQueuedRoot)).insertionSort fun a b => compareQueued a b ≤ 0

def selected : List TransferTask :=
  if center.openSlots = 0 then [] else selectTasks center.queued center.openSlots [] [] center.queued

def start (center : SftpTransferCenter) (task : TransferTask) (now : ℚ) : SftpTransferCenter :=
  center.replace task.id { TransferUpdates.empty with status := some .transferring } now

/-- The centre after `takeRunnable`. -/
def taken (now : ℚ) : SftpTransferCenter := center.selected.foldl (fun center task => center.start task now) center

/-- What `takeRunnable` returns. -/
def takeRunnable (now : ℚ) : List TransferTask :=
  center.selected.map fun task => ((center.taken now).getTask task.id).getD task

end SftpTransferCenter

/-- A call on the centre; `takeRunnable` is `take`. -/
inductive Request where
  | add (ownerId : JsString) (incoming : List TransferTask)
  | update (taskId : JsString) (updates : TransferUpdates) (now : ℚ)
  | pause (taskId : JsString) (now : ℚ)
  | resume (taskId : JsString) (now : ℚ)
  | prioritize (taskId : JsString) (now : ℚ)
  | complete (taskId : JsString) (now : ℚ)
  | take (now : ℚ)

def SftpTransferCenter.step (center : SftpTransferCenter) : Request → SftpTransferCenter
  | .add ownerId incoming => center.add ownerId incoming
  | .update taskId updates now => center.replace taskId updates now
  | .pause taskId now => center.pause taskId now
  | .resume taskId now => center.resume taskId now
  | .prioritize taskId now => center.prioritize taskId now
  | .complete taskId now => center.complete taskId now
  | .take now => center.taken now

def SftpTransferCenter.Admits (center : SftpTransferCenter) : Request → Prop
  | .add _ incoming => (incoming.map (·.id)).Nodup ∧ ∀ item ∈ incoming, isRunning item.status = false
  | .update taskId updates _ => (∀ status ∈ updates.status, isRunning status = false) ∧
      ∀ id ∈ updates.id, id = taskId ∨ id ∉ center.tasks.map (·.id)
  | _ => True

def SftpTransferCenter.AdmitsAll : SftpTransferCenter → List Request → Prop
  | _, [] => True
  | center, request :: rest => center.Admits request ∧ (center.step request).AdmitsAll rest

/-- The tasks whose owner stands before them, where a later task has an owner that does not. -/
def passedOver (behind : List TransferTask) : List TransferTask → ℕ
  | [] => 0
  | task :: rest =>
    (if task.owner ∈ behind.map (·.owner) ∧ ¬∀ later ∈ rest, later.owner ∈ behind.map (·.owner) then 1 else 0) +
      passedOver (behind ++ [task]) rest

/-! ## The pass -/

section Pass

variable {queued : List TransferTask} {openSlots : ℕ}

theorem passedOver_le (behind rest : List TransferTask) : passedOver behind rest ≤ rest.length := by
  induction rest generalizing behind with
  | nil => exact le_rfl
  | cons task rest ih =>
    have held := ih (behind ++ [task])
    unfold passedOver
    split_ifs <;> simp only [length_cons] <;> omega

/-- Where a pass stands: the tasks behind it have owners that are met, and each of these has one selected. -/
structure Passing (queued selected : List TransferTask) (owners : List JsString) (behind rest : List TransferTask) :
    Prop where
  whole : queued = behind ++ rest
  met : ∀ task ∈ behind, task.owner ∈ owners
  chosen : ∀ owner, owner ∈ owners ↔ owner ∈ selected.map (·.owner)
  sublist : selected.Sublist behind
  fair : (selected.map (·.owner)).Nodup ∨ ∀ task ∈ queued, task.owner ∈ owners

/-- What a pass selects. -/
structure Fills (queued : List TransferTask) (openSlots startable : ℕ) (result : List TransferTask) : Prop where
  length : result.length = min openSlots startable
  sublist : result.Sublist queued
  fair : (result.map (·.owner)).Nodup ∨ ∀ task ∈ queued, task.owner ∈ result.map (·.owner)

variable {selected behind rest : List TransferTask} {owners : List JsString} {task : TransferTask}

theorem Passing.met_iff (passing : Passing queued selected owners behind rest) (owner : JsString) :
    owner ∈ behind.map (·.owner) ↔ owner ∈ owners := by
  constructor
  · intro mem
    obtain ⟨other, inside, rfl⟩ := mem_map.mp mem
    exact passing.met other inside
  · exact fun mem => (passing.sublist.map _).subset ((passing.chosen owner).mp mem)

theorem skips_iff (apart : (queued.map (·.id)).Nodup)
    (passing : Passing queued selected owners behind (task :: rest)) :
    (owners.contains task.owner && queued.any fun candidate =>
      candidate.id ≠ task.id && !selected.contains candidate && !owners.contains candidate.owner) ↔
      task.owner ∈ owners ∧ ¬∀ later ∈ rest, later.owner ∈ owners := by
  simp only [Bool.and_eq_true, any_eq_true, decide_eq_true_eq, Bool.not_eq_true', contains_eq_mem,
    decide_eq_false_iff_not, not_forall]
  refine and_congr_right fun held => ⟨?_, ?_⟩
  · rintro ⟨candidate, mem, ⟨other, -⟩, new⟩
    rw [passing.whole, mem_append, mem_cons] at mem
    rcases mem with mem | rfl | mem
    · exact absurd (passing.met _ mem) new
    · exact absurd rfl other
    · exact ⟨candidate, mem, new⟩
  · rintro ⟨later, mem, new⟩
    refine ⟨later, by simp [passing.whole, mem], ⟨fun same => ?_, fun chosen => ?_⟩, new⟩
    · rw [passing.whole, map_append, map_cons] at apart
      exact ((nodup_append.mp apart).2.1.notMem) (same ▸ mem_map_of_mem mem)
    · exact new ((passing.chosen _).mpr (mem_map_of_mem chosen))

theorem Passing.skip (passing : Passing queued selected owners behind (task :: rest)) (held : task.owner ∈ owners) :
    Passing queued selected owners (behind ++ [task]) rest where
  __ := passing
  whole := by simp [passing.whole]
  met other mem := by
    rcases mem_append.mp mem with mem | mem
    · exact passing.met other mem
    · exact mem_singleton.mp mem ▸ held
  sublist := passing.sublist.trans (sublist_append_left ..)

theorem Passing.choose (passing : Passing queued selected owners behind (task :: rest))
    (free : task.owner ∈ owners → ∀ later ∈ rest, later.owner ∈ owners) :
    Passing queued (selected ++ [task]) (task.owner :: owners) (behind ++ [task]) rest where
  whole := by simp [passing.whole]
  met other mem := by
    rcases mem_append.mp mem with mem | mem
    · exact mem_cons_of_mem _ (passing.met other mem)
    · exact mem_singleton.mp mem ▸ mem_cons_self
  chosen owner := by simp [passing.chosen, or_comm]
  sublist := passing.sublist.append_right _
  fair := by
    by_cases held : task.owner ∈ owners
    · refine .inr fun other mem => mem_cons_of_mem _ ?_
      rw [passing.whole, mem_append, mem_cons] at mem
      rcases mem with mem | rfl | mem
      · exact passing.met other mem
      · exact held
      · exact free held other mem
    · rcases passing.fair with apart | covered
      · left
        rw [map_append, nodup_append]
        refine ⟨apart, nodup_singleton _, fun owner mem last same equal => ?_⟩
        rw [equal, mem_singleton.mp same] at mem
        exact held ((passing.chosen _).mpr mem)
      · exact .inr fun other mem => mem_cons_of_mem _ (covered other mem)

theorem Passing.ends (passing : Passing queued selected owners behind rest) {startable : ℕ}
    (length : selected.length = min openSlots startable) : Fills queued openSlots startable selected where
  length := length
  sublist := passing.whole ▸ passing.sublist.trans (sublist_append_left ..)
  fair := passing.fair.imp_right fun covered task mem => (passing.chosen _).mp (covered task mem)

theorem selectTasks_fills (apart : (queued.map (·.id)).Nodup)
    (passing : Passing queued selected owners behind rest) (room : selected.length < openSlots) :
    Fills queued openSlots (selected.length + (rest.length - passedOver behind rest))
      (selectTasks queued openSlots selected owners rest) := by
  induction rest generalizing selected owners behind with
  | nil => exact passing.ends (by simp; omega)
  | cons task rest ih =>
    have bound := passedOver_le (behind ++ [task]) rest
    have skips := skips_iff apart passing
    unfold selectTasks passedOver
    simp only [passing.met_iff, length_cons]
    by_cases held : task.owner ∈ owners ∧ ¬∀ later ∈ rest, later.owner ∈ owners
    · rw [if_pos (skips.mpr held), if_pos held]
      have filled := ih (passing.skip held.1) room
      rwa [← Nat.add_sub_add_right _ 1, Nat.add_comm (passedOver ..)] at filled
    · have free : task.owner ∈ owners → ∀ later ∈ rest, later.owner ∈ owners := fun met =>
        not_not.mp fun new => held ⟨met, new⟩
      rw [if_neg (mt skips.mp held), if_neg held]
      have chosen := passing.choose free
      have longer : (selected ++ [task]).length = selected.length + 1 := length_append
      split
      · exact chosen.ends (by omega)
      · have filled := ih chosen (by omega)
        have same : selected.length + (rest.length + 1 - (0 + passedOver (behind ++ [task]) rest)) =
            (selected ++ [task]).length + (rest.length - passedOver (behind ++ [task]) rest) := by omega
        rwa [same]

end Pass

/-! ## Calls -/

namespace SftpTransferCenter

variable {center : SftpTransferCenter}

def Apart (center : SftpTransferCenter) : Prop := (center.tasks.map (·.id)).Nodup

theorem apart_queued (apart : center.Apart) : (center.queued.map (·.id)).Nodup :=
  ((perm_insertionSort ..).map _).nodup_iff.mpr (apart.sublist (filter_sublist.map _))

theorem selected_fills (apart : center.Apart) :
    Fills center.queued center.openSlots (center.queued.length - passedOver [] center.queued) center.selected := by
  have start : Passing center.queued [] [] [] center.queued := ⟨rfl, by simp, by simp, .slnil, .inl nodup_nil⟩
  unfold selected
  split
  · rename_i full
    exact ⟨by simp [full], nil_sublist _, .inl nodup_nil⟩
  · rename_i open_
    have filled := selectTasks_fills (apart_queued apart) start (Nat.pos_of_ne_zero open_)
    rwa [length_nil, Nat.zero_add] at filled

theorem mem_queued {task : TransferTask} : task ∈ center.queued ↔ task ∈ center.tasks ∧ task.isQueuedRoot := by
  rw [queued, mem_insertionSort, mem_filter]

theorem running_replace {taskId : JsString} {updates : TransferUpdates} {now : ℚ}
    (still : ∀ status ∈ updates.status, isRunning status = false) :
    (center.replace taskId updates now).running ≤ center.running := by
  unfold running replace
  rw [countP_map]
  refine countP_mono_left fun task _ runs => ?_
  dsimp only [Function.comp] at runs
  split at runs
  · cases given : updates.status with
    | none => simpa [TransferTask.updated, given] using runs
    | some status =>
      have idle := still status given
      simp [TransferTask.updated, given, idle] at runs
  · exact runs

theorem apart_replace {taskId : JsString} {updates : TransferUpdates} {now : ℚ} (apart : center.Apart)
    (fresh : ∀ id ∈ updates.id, id = taskId ∨ id ∉ center.tasks.map (·.id)) :
    (center.replace taskId updates now).Apart := by
  have ids : ((center.replace taskId updates now).tasks.map (·.id)) =
      (center.tasks.map (·.id)).map fun id => if id = taskId then updates.id.getD id else id := by
    rw [replace, map_map, map_map]
    exact map_congr_left fun task _ => by dsimp only [Function.comp]; split <;> rfl
  unfold Apart
  rw [ids]
  refine apart.map_on fun a inA b inB same => ?_
  cases given : updates.id with
  | none => simpa [given] using same
  | some id =>
    have known := fresh id given
    rw [given] at same
    have clash {other : JsString} (mem : other ∈ center.tasks.map (·.id)) (equal : id = other) : other = taskId :=
      equal ▸ known.resolve_right fun new => new (equal ▸ mem)
    split_ifs at same with atA atB atB
    · rw [atA, atB]
    · exact atA.trans (clash inB same).symm
    · exact (clash inA same.symm).trans atB.symm
    · exact same

/-- What every run keeps. -/
structure Fair (concurrency : ℚ) (center : SftpTransferCenter) : Prop where
  apart : center.Apart
  slots : center.concurrency = concurrency
  within : (center.running : ℤ) ≤ concurrency.floor

variable {concurrency : ℚ}

theorem Fair.replace {taskId : JsString} {updates : TransferUpdates} {now : ℚ} (fair : Fair concurrency center)
    (still : ∀ status ∈ updates.status, isRunning status = false)
    (fresh : ∀ id ∈ updates.id, id = taskId ∨ id ∉ center.tasks.map (·.id)) :
    Fair concurrency (center.replace taskId updates now) :=
  ⟨apart_replace fair.apart fresh, fair.slots, (Int.ofNat_le.mpr (running_replace still)).trans fair.within⟩

theorem Fair.add {ownerId : JsString} {incoming : List TransferTask} (fair : Fair concurrency center)
    (ids : (incoming.map (·.id)).Nodup) (still : ∀ item ∈ incoming, isRunning item.status = false) :
    Fair concurrency (center.add ownerId incoming) := by
  refine ⟨?_, fair.slots, ?_⟩
  · unfold Apart SftpTransferCenter.add
    rw [map_append, map_map, nodup_append]
    refine ⟨fair.apart, ids.sublist (filter_sublist.map _), fun a known b new same => ?_⟩
    obtain ⟨item, mem, rfl⟩ := mem_map.mp new
    have unknown := (mem_filter.mp mem).2
    rw [Bool.not_eq_true', contains_eq_mem, decide_eq_false_iff_not] at unknown
    rw [same] at known
    exact unknown known
  · have none_ : ((incoming.filter fun item => !(center.tasks.map (·.id)).contains item.id).map fun item =>
        { item with ownerId := some ownerId }).countP (fun task => isRunning task.status) = 0 := by
      rw [countP_map, countP_eq_zero]
      intro item mem
      simpa using still item (mem_filter.mp mem).1
    unfold running SftpTransferCenter.add
    rw [countP_append, none_]
    exact fair.within

theorem tasks_started (chosen : List TransferTask) (now : ℚ) :
    (chosen.foldl (fun center task => center.start task now) center).tasks =
      center.tasks.map fun task => if task.id ∈ chosen.map (·.id) then task.started now else task := by
  induction chosen generalizing center with
  | nil => simp
  | cons first chosen ih =>
    rw [foldl_cons, ih, start, replace, map_map]
    refine map_congr_left fun task _ => ?_
    dsimp only [Function.comp]
    by_cases isFirst : task.id = first.id
    · simp [isFirst, TransferTask.started, TransferTask.updated, TransferUpdates.empty]
    · simp [isFirst]

theorem concurrency_started (chosen : List TransferTask) (now : ℚ) :
    (chosen.foldl (fun center task => center.start task now) center).concurrency = center.concurrency := by
  induction chosen generalizing center with
  | nil => rfl
  | cons first chosen ih => exact ih

theorem apart_taken (apart : center.Apart) (now : ℚ) : (center.taken now).Apart := by
  have same : (center.taken now).tasks.map (·.id) = center.tasks.map (·.id) := by
    rw [SftpTransferCenter.taken, tasks_started, map_map]
    exact map_congr_left fun task _ => by dsimp only [Function.comp]; split <;> rfl
  rwa [Apart, same]

theorem getTask_eq (apart : center.Apart) {task : TransferTask} (mem : task ∈ center.tasks) :
    center.getTask task.id = some task := by
  unfold getTask
  cases found : center.tasks.find? (·.id = task.id) with
  | none => simpa using find?_eq_none.mp found task mem
  | some other =>
    have same : other.id = task.id := by simpa using find?_some found
    rw [inj_on_of_nodup_map apart (mem_of_find?_eq_some found) mem same]

theorem countP_le_add {p q r : TransferTask → Bool} (either : ∀ task, p task → q task ∨ r task)
    (tasks : List TransferTask) : tasks.countP p ≤ tasks.countP q + tasks.countP r := by
  induction tasks with
  | nil => simp
  | cons task tasks ih =>
    have here := either task
    simp only [countP_cons]
    split_ifs <;> simp_all <;> omega

theorem Fair.taken (fair : Fair concurrency center) (now : ℚ) : Fair concurrency (center.taken now) := by
  have fills := selected_fills fair.apart
  refine ⟨apart_taken fair.apart now, (concurrency_started _ now).trans fair.slots, ?_⟩
  -- each task that runs now ran before, or is one of those that were started
  have few : center.tasks.countP (fun task => decide (task.id ∈ center.selected.map (·.id))) ≤
      (center.selected.map (·.id)).length := by
    rw [countP_eq_length_filter, ← length_map (·.id)]
    refine (fair.apart.sublist (filter_sublist.map _)).length_le_of_subset fun id mem => ?_
    obtain ⟨task, inside, rfl⟩ := mem_map.mp mem
    simpa using (mem_filter.mp inside).2
  rw [length_map] at few
  have more : (center.taken now).running ≤ center.running + center.selected.length := by
    unfold running SftpTransferCenter.taken
    rw [tasks_started, countP_map]
    refine le_trans (countP_le_add (fun task runs => ?_) _) (Nat.add_le_add_left few _)
    dsimp only [Function.comp] at runs
    split at runs
    · exact .inr (decide_eq_true ‹_›)
    · exact .inl runs
  have room : center.selected.length ≤ center.openSlots := fills.length ▸ Nat.min_le_left ..
  have within := fair.within
  unfold openSlots at room
  rw [fair.slots] at room
  omega

theorem Fair.step (fair : Fair concurrency center) {request : Request} (admitted : center.Admits request) :
    Fair concurrency (center.step request) := by
  cases request with
  | add ownerId incoming => exact fair.add admitted.1 admitted.2
  | update taskId updates now => exact fair.replace admitted.1 admitted.2
  | pause taskId now =>
    change Fair concurrency (center.pause taskId now)
    unfold SftpTransferCenter.pause
    split
    · exact fair
    · split
      · exact fair
      · exact fair.replace (by simp [isRunning]) (by simp [TransferUpdates.empty])
  | resume taskId now =>
    change Fair concurrency (center.resume taskId now)
    unfold SftpTransferCenter.resume
    split
    · exact fair
    · split
      · exact fair.replace (by simp [isRunning]) (by simp [TransferUpdates.empty])
      · exact fair
  | prioritize taskId now =>
    have counted : Fair concurrency { center with prioritySequence := center.prioritySequence + 1 } :=
      ⟨fair.apart, fair.slots, fair.within⟩
    exact counted.replace (by simp [TransferUpdates.empty]) (by simp [TransferUpdates.empty])
  | complete taskId now => exact fair.replace (by simp [isRunning]) (by simp [TransferUpdates.empty])
  | take now => exact fair.taken now

theorem Fair.run (fair : Fair concurrency center) {requests : List Request} (admitted : center.AdmitsAll requests) :
    Fair concurrency (requests.foldl SftpTransferCenter.step center) := by
  induction requests generalizing center with
  | nil => exact fair
  | cons request rest ih => exact ih (fair.step admitted.1) admitted.2

/-- `takeRunnable` returns the tasks that it has selected, as they stand now. -/
theorem takeRunnable_eq (apart : center.Apart) (now : ℚ) :
    center.takeRunnable now = center.selected.map (·.started now) := by
  refine map_congr_left fun task chosen => ?_
  have mem := (mem_queued.mp ((selected_fills apart).sublist.subset chosen)).1
  have there : task.started now ∈ (center.taken now).tasks := by
    rw [SftpTransferCenter.taken, tasks_started]
    exact mem_map.mpr ⟨task, mem, if_pos (mem_map_of_mem chosen)⟩
  exact congrArg (·.getD task) (getTask_eq (apart_taken apart now) there)

end SftpTransferCenter

open SftpTransferCenter

/-- **The slots fill fairly, and as far as they can unless a task was passed over.** -/
theorem slots_fill_fairly_iff (concurrency : ℚ) (large : 1 ≤ concurrency) (requests : List Request)
    (admitted : (createSftpTransferCenter concurrency).AdmitsAll requests) (now : ℚ) :
    let center := requests.foldl SftpTransferCenter.step (createSftpTransferCenter concurrency)
    let started := center.takeRunnable now
    (center.running : ℤ) ≤ concurrency.floor ∧ (started.map (·.id)).Nodup ∧
      (∀ task ∈ started, task.status = .transferring ∧ ∃ queued ∈ center.tasks, queued.isQueuedRoot = true ∧
        queued.id = task.id ∧ queued.owner = task.owner) ∧
      ((started.map (·.owner)).Nodup ∨
        ∀ task ∈ center.tasks, task.isQueuedRoot = true → task.owner ∈ started.map (·.owner)) ∧
      (started.length = min center.openSlots center.queued.length ↔
        passedOver [] center.queued = 0 ∨ center.openSlots + passedOver [] center.queued ≤ center.queued.length) := by
  intro center started
  have floor : 0 ≤ concurrency.floor := Rat.le_floor_iff.mpr (zero_le_one.trans large)
  have fresh : Fair concurrency (createSftpTransferCenter concurrency) := ⟨nodup_nil, rfl, floor⟩
  have fair : Fair concurrency center := fresh.run admitted
  have fills := selected_fills fair.apart
  have same : started = center.selected.map (·.started now) := takeRunnable_eq fair.apart now
  have ids : started.map (·.id) = center.selected.map (·.id) := by rw [same, map_map]; rfl
  have owners : started.map (·.owner) = center.selected.map (·.owner) := by rw [same, map_map]; rfl
  refine ⟨fair.within, ?_, fun task mem => ?_, ?_, ?_⟩
  · rw [ids]
    exact (apart_queued fair.apart).sublist (fills.sublist.map _)
  · rw [same] at mem
    obtain ⟨chosen, inside, rfl⟩ := mem_map.mp mem
    obtain ⟨known, root⟩ := mem_queued.mp (fills.sublist.subset inside)
    exact ⟨rfl, chosen, known, root, rfl, rfl⟩
  · rw [owners]
    exact fills.fair.imp_right fun covered task mem root => covered task (mem_queued.mpr ⟨mem, root⟩)
  · have bound := passedOver_le [] center.queued
    rw [same, length_map, fills.length]
    omega

def twoPanels : List Request :=
  let task (id : String) (startTime : ℚ) : TransferTask :=
    ⟨text id, none, none, .queued, none, startTime, none, 0, none, none⟩
  [.add (text "a") [task "a1" 1, task "a2" 2], .add (text "b") [task "b1" 3]]

theorem slots_fill_fairly_twoPanels :
    let started := (twoPanels.foldl SftpTransferCenter.step (createSftpTransferCenter 2)).takeRunnable 0
    (started.map (·.id)).Nodup :=
  (slots_fill_fairly_iff 2 (by decide) twoPanels
    ⟨⟨by decide, by decide⟩, ⟨by decide, by decide⟩, trivial⟩ 0).2.1

/-- Three slots are open and three tasks are queued, and one stays behind. -/
theorem slot_stays_empty :
    let center := twoPanels.foldl SftpTransferCenter.step (createSftpTransferCenter 3)
    (center.openSlots, center.queued.length, (center.takeRunnable 0).map (·.id)) = (3, 3, [text "a1", text "b1"]) := by
  decide +kernel

end Netcatty.TransferCenter
