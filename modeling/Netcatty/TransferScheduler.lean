import Mathlib.Algebra.Order.Ring.Rat
import Netcatty.JsValue
import Netcatty.OrderedMap

/-!
The global scheduler of SFTP transfers.

Jobs wait in a queue until each resource they name has a free slot.  A pump starts
as many as it can; it calls a job's work from inside its loop, so that work may
call the scheduler again before the loop goes on.  Paused jobs leave the queue and
wait in a map under their task id.
-/

namespace Netcatty.Transfers

/-- A job, by the order of the calls to `run`. -/
abbrev JobRef := ℕ

/-- What a limit reader returns. -/
inductive LimitReading where
  /-- `null` or `undefined`. -/
  | missing
  | finite (value : ℚ)
  /-- `Infinity` or `NaN`. -/
  | notFinite
  deriving DecidableEq

def DEFAULT_SFTP_FILE_TRANSFER_CONCURRENCY : ℤ := 6
def MIN_SFTP_FILE_TRANSFER_CONCURRENCY : ℤ := 1
def MAX_SFTP_FILE_TRANSFER_CONCURRENCY : ℤ := 16

def resolveSftpTransferConcurrency (stored : LimitReading) : ℤ :=
  match stored with
  | .finite value =>
    if value.isInt ∧ MIN_SFTP_FILE_TRANSFER_CONCURRENCY ≤ value.num ∧
        value.num ≤ MAX_SFTP_FILE_TRANSFER_CONCURRENCY then value.num
    else DEFAULT_SFTP_FILE_TRANSFER_CONCURRENCY
  | _ => DEFAULT_SFTP_FILE_TRANSFER_CONCURRENCY

def normalizeLimit (value : LimitReading) : ℤ := resolveSftpTransferConcurrency value

structure ScheduledJob where
  ownerId : JsString
  taskId : JsString
  /-- `normalizeResourceKeys` keeps each key once. -/
  resourceKeys : List JsString
  distinct : resourceKeys.Nodup
  priority : ℕ
  /-- What `readLimit` returns. -/
  readLimit : LimitReading

/-- The variables `createGlobalSftpTransferScheduler` closes over, and what has
become of the jobs. -/
structure TransferScheduler where
  jobs : List ScheduledJob
  queue : List JobRef
  activeByResource : OrderedMap JsString ℤ
  lastOwnerId : Option JsString
  prioritySequence : ℕ
  pausedJobs : OrderedMap JsString JobRef
  pumpScheduled : Bool
  startsSinceYield : ℕ
  /-- Started jobs that still hold their slots. -/
  running : List JobRef
  /-- The jobs whose work was called. -/
  started : List JobRef
  /-- The jobs whose promise was resolved or rejected. -/
  settled : List JobRef
  /-- Pumps on the call stack, each inside the work it has just started. -/
  pumps : ℕ

def createGlobalSftpTransferScheduler : TransferScheduler :=
  ⟨[], [], .empty, none, 0, .empty, false, 0, [], [], [], 0⟩

def normalizeResourceKeys (keys : List JsString) : List JsString :=
  (if keys = [] then [text "local"] else keys).eraseDups

namespace TransferScheduler

variable (s : TransferScheduler)

/-- `activeByResource.get(key) ?? 0`. -/
def activeCount (key : JsString) : ℤ := (s.activeByResource.get? key).getD 0

def canRun (job : ScheduledJob) : Bool :=
  job.resourceKeys.all fun key => s.activeCount key < normalizeLimit job.readLimit

/-- One round of the loop of `adjustActive`. -/
def adjustKey (delta : ℤ) (active : OrderedMap JsString ℤ) (key : JsString) :
    OrderedMap JsString ℤ :=
  let next := (active.get? key).getD 0 + delta
  if 0 < next then active.set key next else active.delete key

def adjustActive (job : ScheduledJob) (delta : ℤ) : TransferScheduler :=
  { s with activeByResource := job.resourceKeys.foldl (adjustKey delta) s.activeByResource }

def schedulePump : TransferScheduler :=
  if s.pumpScheduled ∨ s.queue = [] then s
  else
    { s with
      pumpScheduled := true,
      startsSinceYield := if 64 ≤ s.startsSinceYield then 0 else s.startsSinceYield }

/-- `queue[index]`. -/
def queued? (index : ℕ) : Option ScheduledJob := s.queue[index]?.bind fun ref => s.jobs[ref]?

def beats (candidate : ScheduledJob) : Option ScheduledJob → Bool
  | none => true
  | some selected =>
    candidate.priority > selected.priority ∨
      candidate.priority = selected.priority ∧ some selected.ownerId = s.lastOwnerId ∧
        some candidate.ownerId ≠ s.lastOwnerId

/-- One round of the loop of `pump` over the queue. -/
def selectRound (index : Option ℕ) (candidateIndex : ℕ) : Option ℕ :=
  match s.queued? candidateIndex with
  | none => index
  | some candidate =>
    if !s.canRun candidate then index
    else if s.beats candidate (index.bind s.queued?) then some candidateIndex
    else index

def selectIndex : Option ℕ := (List.range s.queue.length).foldl s.selectRound none

/-- The job at `index` leaves the queue and its work is called. -/
def start (index : ℕ) (ref : JobRef) (job : ScheduledJob) : TransferScheduler :=
  let s := { s with queue := s.queue.eraseIdx index }.adjustActive job 1
  { s with
    lastOwnerId := some job.ownerId, startsSinceYield := s.startsSinceYield + 1,
    running := ref :: s.running, started := ref :: s.started, pumps := s.pumps + 1 }

/-- The loop of `pump` from its head: it starts a job, whose work now runs inside
the loop, or returns. -/
def pump : TransferScheduler :=
  match s.selectIndex with
  | none => s
  | some index =>
    match s.queue[index]? with
    | none => s
    | some ref =>
      match s.jobs[ref]? with
      | none => s
      | some job => s.start index ref job

def workReturns : TransferScheduler :=
  if s.pumps = 0 then s
  else
    let s := { s with pumps := s.pumps - 1 }
    if 64 ≤ s.startsSinceYield then s.schedulePump else s.pump

/-- The callback that `schedulePump` queued; callbacks wait for an empty call stack. -/
def pumpRuns : TransferScheduler :=
  if s.pumpScheduled ∧ s.pumps = 0 then { s with pumpScheduled := false }.pump else s

/-- `.then(job.resolve, job.reject)`. -/
def workSettles (ref : JobRef) : TransferScheduler :=
  if s.pumps = 0 ∧ ref ∈ s.running ∧ ref ∉ s.settled then { s with settled := ref :: s.settled }
  else s

/-- `.finally(…)`, after the promise settled. -/
def slotReleased (ref : JobRef) : TransferScheduler :=
  if s.pumps = 0 ∧ ref ∈ s.running ∧ ref ∈ s.settled then
    match s.jobs[ref]? with
    | none => s
    | some job =>
      ({ s with running := s.running.erase ref }.adjustActive job (-1)).schedulePump
  else s

/-! ## Calls -/

def run (ownerId taskId : JsString) (resourceKeys : List JsString) (readLimit : LimitReading) :
    TransferScheduler :=
  let job : ScheduledJob :=
    ⟨ownerId, taskId, normalizeResourceKeys resourceKeys, eraseDups_nodup _, 0, readLimit⟩
  let s := { s with jobs := s.jobs ++ [job], queue := s.queue ++ [s.jobs.length] }
  if s.queue.length = 1 ∧ s.pumpScheduled = false ∧ s.startsSinceYield < 64 then s.pump
  else s.schedulePump

variable (taskId : JsString)

/-- `queue.findIndex((job) => job.taskId === taskId)`. -/
def findIndex : Option ℕ :=
  s.queue.findIdx? fun ref => s.jobs[ref]?.any fun job => job.taskId = taskId

def findJob : Option JobRef :=
  ((s.findIndex taskId).bind fun index => s.queue[index]?).or (s.pausedJobs.get? taskId)

def raise (ref : JobRef) : TransferScheduler :=
  { s with
    prioritySequence := s.prioritySequence + 1,
    jobs := s.jobs.modify ref fun job => { job with priority := s.prioritySequence + 1 } }

def prioritize : TransferScheduler :=
  match s.findJob taskId with
  | none => s
  | some ref => (s.raise ref).schedulePump

def pause : Bool × TransferScheduler :=
  match s.findIndex taskId with
  | none => (false, s)
  | some index =>
    match s.queue[index]? with
    | none => (false, s)
    | some ref =>
      (true, { s with
        queue := s.queue.eraseIdx index, pausedJobs := s.pausedJobs.set taskId ref })

def resume : Bool × TransferScheduler :=
  match s.pausedJobs.get? taskId with
  | none => (false, s)
  | some ref =>
    (true, { s with
      pausedJobs := s.pausedJobs.delete taskId, queue := s.queue ++ [ref] }.schedulePump)

/-- A job was found: its promise is rejected, and no job stays paused under the
task's id. -/
def reject (ref : JobRef) : TransferScheduler :=
  { s with
    pausedJobs := s.pausedJobs.delete taskId, settled := ref :: s.settled }.schedulePump

def cancel : Bool × TransferScheduler :=
  match s.findIndex taskId with
  | some index =>
    match s.queue[index]? with
    | none => (false, s)
    | some ref => (true, { s with queue := s.queue.eraseIdx index }.reject taskId ref)
  | none =>
    match s.pausedJobs.get? taskId with
    | none => (false, s)
    | some ref => (true, s.reject taskId ref)

end TransferScheduler

/-! ## Runs -/

inductive SchedulerEvent where
  | run (ownerId taskId : JsString) (resourceKeys : List JsString) (readLimit : LimitReading)
  | prioritize (taskId : JsString)
  | pause (taskId : JsString)
  | resume (taskId : JsString)
  | cancel (taskId : JsString)
  | workReturns
  | workSettles (ref : JobRef)
  | slotReleased (ref : JobRef)
  | pumpRuns

def step (s : TransferScheduler) : SchedulerEvent → TransferScheduler
  | .run ownerId taskId resourceKeys readLimit => s.run ownerId taskId resourceKeys readLimit
  | .prioritize taskId => s.prioritize taskId
  | .pause taskId => (s.pause taskId).2
  | .resume taskId => (s.resume taskId).2
  | .cancel taskId => (s.cancel taskId).2
  | .workReturns => s.workReturns
  | .workSettles ref => s.workSettles ref
  | .slotReleased ref => s.slotReleased ref
  | .pumpRuns => s.pumpRuns

end Netcatty.Transfers
