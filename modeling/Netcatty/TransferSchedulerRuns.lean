import Mathlib.Data.List.Perm.Basic
import Netcatty.TransferScheduler

/-!
Runs of the transfer scheduler.

Every job whose promise is open has exactly one place: the queue, the paused jobs,
or the running jobs, and the active counts are the running jobs that name a key
(`Ledger`).  When no pump is due, no queued job could run (`Awake`).  Both hold in
every run in which no call takes a queued job of a task while another job is paused
under the same task id (`scheduler_invariant`); a call that does loses the paused job
(`pause_loses_job`).
-/

namespace Netcatty.Transfers

open TransferScheduler List Option OrderedMap

/-! ## Invariants -/

variable (s : TransferScheduler)

def places : List JobRef := s.queue ++ s.pausedJobs.values ++ s.running

def names (key : JsString) (ref : JobRef) : Bool :=
  s.jobs[ref]?.any fun job => key ∈ job.resourceKeys

/-- Each of the job's keys is below its limit. -/
def runnable (ref : JobRef) : Bool := s.jobs[ref]?.any s.canRun

/-- Where jobs are, and what they hold. -/
structure Ledger (s : TransferScheduler) : Prop where
  once : (places s).Nodup
  known : ∀ ref, ref ∈ places s ∨ ref ∈ s.started ∨ ref ∈ s.settled → ref < s.jobs.length
  /-- A job that waits was neither started nor settled. -/
  waiting : ∀ ref ∈ s.queue ++ s.pausedJobs.values, ref ∉ s.started ∧ ref ∉ s.settled
  /-- A job whose promise is open has a place. -/
  placed : ∀ ref < s.jobs.length, ref ∉ s.settled → ref ∈ places s
  startedOnce : s.started.Nodup
  counts : ∀ key, s.activeCount key = (s.running.countP (names s key) : ℤ)

/-- A pump is due, or no queued job could run. -/
def Awake : Prop :=
  s.pumpScheduled = true ∨ 0 < s.pumps ∨ ∀ ref ∈ s.queue, runnable s ref = false

/-- The call does not take a queued job of a task that has a paused job as well. -/
def Undisturbed : SchedulerEvent → Prop
  | .pause taskId => s.findIndex taskId ≠ none → s.pausedJobs.get? taskId = none
  | .cancel taskId => s.findIndex taskId ≠ none → s.pausedJobs.get? taskId = none
  | _ => True

instance (s : TransferScheduler) (event : SchedulerEvent) : Decidable (Undisturbed s event) :=
  match event with
  | .pause taskId =>
    inferInstanceAs (Decidable (s.findIndex taskId ≠ none → s.pausedJobs.get? taskId = none))
  | .cancel taskId =>
    inferInstanceAs (Decidable (s.findIndex taskId ≠ none → s.pausedJobs.get? taskId = none))
  | .run .. | .prioritize _ | .resume _ | .workReturns | .workSettles _ | .slotReleased _
  | .pumpRuns => isTrue trivial

def UndisturbedRun (s : TransferScheduler) : List SchedulerEvent → Prop
  | [] => True
  | event :: events => Undisturbed s event ∧ UndisturbedRun (step s event) events

instance decidableUndisturbedRun (s : TransferScheduler) (events : List SchedulerEvent) :
    Decidable (UndisturbedRun s events) :=
  match events with
  | [] => isTrue trivial
  | event :: events =>
    have := decidableUndisturbedRun (step s event) events
    inferInstanceAs (Decidable (Undisturbed s event ∧ UndisturbedRun (step s event) events))

def StartsBelowLimit (s s' : TransferScheduler) : Prop :=
  ∀ ref ∈ s'.started, ref ∉ s.started → ∀ job, s'.jobs[ref]? = some job →
    ∀ key ∈ job.resourceKeys, s.activeCount key < normalizeLimit job.readLimit

/-! ## Active counts -/

theorem getD_adjustKey {delta : ℤ} {active : OrderedMap JsString ℤ} {key : JsString}
    (room : 0 ≤ (active.get? key).getD 0 + delta) (x : JsString) :
    ((adjustKey delta active key).get? x).getD 0 =
      if x = key then (active.get? key).getD 0 + delta else (active.get? x).getD 0 := by
  unfold adjustKey
  dsimp only
  by_cases positive : 0 < (active.get? key).getD 0 + delta
  · rw [if_pos positive, OrderedMap.get?_set]
    by_cases same : x = key <;> simp [same]
  · rw [if_neg positive, get?_delete]
    by_cases same : x = key
    · rw [if_pos same, if_pos same, getD_none]
      omega
    · rw [if_neg same, if_neg same]

/-- Adjusting distinct keys that have room moves exactly their counts. -/
theorem getD_foldl_adjustKey {delta : ℤ} {keys : List JsString} (distinct : keys.Nodup)
    {active : OrderedMap JsString ℤ} (room : ∀ key ∈ keys, 0 ≤ (active.get? key).getD 0 + delta)
    (x : JsString) : ((keys.foldl (adjustKey delta) active).get? x).getD 0 =
      if x ∈ keys then (active.get? x).getD 0 + delta else (active.get? x).getD 0 := by
  induction keys generalizing active with
  | nil => rfl
  | cons key keys ih =>
    obtain ⟨fresh, distinct⟩ := nodup_cons.mp distinct
    obtain ⟨here, later⟩ := forall_mem_cons.mp room
    have moved := getD_adjustKey here
    rw [foldl_cons, ih distinct]
    · rw [moved]
      by_cases same : x = key
      · subst same
        rw [if_neg fresh, if_pos rfl, if_pos mem_cons_self]
      · rw [if_neg same]
        by_cases mem : x ∈ keys
        · rw [if_pos mem, if_pos (mem_cons_of_mem _ mem)]
        · rw [if_neg mem, if_neg (by simp [same, mem])]
    · intro other mem
      have apart : other ≠ key := fun same => fresh (same ▸ mem)
      rw [moved, if_neg apart]
      exact later other mem

/-! ## Selecting -/

def startable (index : ℕ) : Bool := (s.queued? index).any s.canRun

theorem selectRound_spec (index : Option ℕ) (candidateIndex : ℕ) :
    (s.selectRound index candidateIndex = index ∧ (index = none → startable s candidateIndex = false)) ∨
      s.selectRound index candidateIndex = some candidateIndex ∧
        startable s candidateIndex := by
  unfold selectRound startable
  cases queued : s.queued? candidateIndex with
  | none => exact .inl ⟨rfl, fun _ => rfl⟩
  | some candidate =>
    dsimp only [any_some]
    by_cases can : s.canRun candidate = true
    · rw [can]
      by_cases better : s.beats candidate (index.bind s.queued?) = true
      · rw [if_neg (by decide), if_pos better]
        exact .inr ⟨rfl, rfl⟩
      · rw [if_neg (by decide), if_neg better]
        refine .inl ⟨rfl, ?_⟩
        rintro rfl
        exact absurd rfl better
    · rw [Bool.eq_false_iff.mpr can, if_pos (by decide)]
      exact .inl ⟨rfl, fun _ => rfl⟩

theorem foldl_selectRound (candidates : List ℕ) (index : Option ℕ)
    (valid : ∀ i, index = some i → startable s i) :
    (∀ i, candidates.foldl s.selectRound index = some i → startable s i) ∧
      (candidates.foldl s.selectRound index = none →
        index = none ∧ ∀ i ∈ candidates, startable s i = false) := by
  induction candidates generalizing index with
  | nil => exact ⟨valid, fun none => ⟨none, fun _ mem => absurd mem not_mem_nil⟩⟩
  | cons candidate candidates ih =>
    rw [foldl_cons]
    rcases selectRound_spec s index candidate with ⟨kept, blocked⟩ | ⟨moved, can⟩
    · rw [kept]
      obtain ⟨chosen, none⟩ := ih index valid
      refine ⟨chosen, ?_⟩
      intro nothing
      obtain ⟨empty, rest⟩ := none nothing
      exact ⟨empty, forall_mem_cons.mpr ⟨blocked empty, rest⟩⟩
    · rw [moved]
      obtain ⟨chosen, none⟩ := ih (some candidate) (by rintro i ⟨⟩; exact can)
      refine ⟨chosen, ?_⟩
      intro nothing
      cases (none nothing).1

/-- A selected job could run; when none is selected, no queued job could. -/
theorem selectIndex_spec : (∀ index, s.selectIndex = some index → startable s index) ∧
      (s.selectIndex = none → ∀ ref ∈ s.queue, runnable s ref = false) := by
  obtain ⟨chosen, none⟩ := foldl_selectRound s (List.range s.queue.length) none (by rintro i ⟨⟩)
  refine ⟨chosen, ?_⟩
  intro nothing ref mem
  obtain ⟨index, inside, found⟩ := getElem_of_mem mem
  have blocked := (none nothing).2 index (mem_range.mpr inside)
  rw [startable, queued?, getElem?_eq_getElem inside, found] at blocked
  exact blocked

theorem pump_cases : (s.pump = s ∧ ∀ ref ∈ s.queue, runnable s ref = false) ∨
      ∃ index ref job, s.queue[index]? = some ref ∧ s.jobs[ref]? = some job ∧
        s.canRun job ∧ s.pump = s.start index ref job := by
  obtain ⟨chosen, none⟩ := selectIndex_spec s
  unfold pump
  cases selected : s.selectIndex with
  | none => exact .inl ⟨rfl, none selected⟩
  | some index =>
    have can := chosen index selected
    rw [startable, queued?] at can
    cases found : s.queue[index]? with
    | none =>
      rw [found] at can
      cases can
    | some ref =>
      rw [found, bind_some] at can
      cases held : s.jobs[ref]? with
      | none =>
        rw [held] at can
        cases can
      | some job =>
        rw [held] at can
        refine .inr ⟨index, ref, job, found, held, can, ?_⟩
        dsimp only
        rw [found]
        dsimp only
        rw [held]

/-! ## Moving jobs -/

variable {s : TransferScheduler}

theorem queue_perm {index : ℕ} {ref : JobRef}
    (found : s.queue[index]? = some ref) : s.queue.Perm (ref :: s.queue.eraseIdx index) := by
  obtain ⟨inside, same⟩ := List.getElem?_eq_some_iff.mp found
  rw [← same]
  exact (getElem_cons_eraseIdx_perm inside).symm

theorem Ledger.move {s s' : TransferScheduler} (ledger : Ledger s)
    (same : (places s').Perm (places s))
    (waiting : ∀ ref ∈ s'.queue ++ s'.pausedJobs.values, ref ∈ s.queue ++ s.pausedJobs.values)
    (jobs : s'.jobs = s.jobs) (active : s'.activeByResource = s.activeByResource)
    (running : s'.running = s.running) (started : s'.started = s.started)
    (settled : s'.settled = s.settled) : Ledger s' := by
  refine ⟨same.nodup_iff.mpr ledger.once, ?_, ?_, ?_, started ▸ ledger.startedOnce, ?_⟩
  · intro ref some
    rw [jobs]
    rw [same.mem_iff, started, settled] at some
    exact ledger.known ref some
  · intro ref mem
    rw [started, settled]
    exact ledger.waiting ref (waiting ref mem)
  · intro ref inside opened
    rw [same.mem_iff]
    exact ledger.placed ref (jobs ▸ inside) (settled ▸ opened)
  · intro key
    have names : names s' key = names s key := by
      funext ref
      rw [Transfers.names, Transfers.names, jobs]
    rw [names, running, activeCount, active]
    exact ledger.counts key

theorem Ledger.schedulePump (ledger : Ledger s) : Ledger s.schedulePump := by
  unfold TransferScheduler.schedulePump
  split
  · exact ledger
  · exact ledger.move (List.Perm.refl _) (fun _ mem => mem) rfl rfl rfl rfl rfl

theorem awake_schedulePump (s : TransferScheduler) : Awake s.schedulePump := by
  unfold TransferScheduler.schedulePump
  split
  · rename_i idle
    rcases idle with scheduled | empty
    · exact .inl scheduled
    · refine .inr (.inr ?_)
      intro ref mem
      rw [empty] at mem
      cases mem
  · exact .inl rfl

theorem started_schedulePump (s : TransferScheduler) : s.schedulePump.started = s.started := by
  unfold TransferScheduler.schedulePump
  split <;> rfl

theorem Ledger.start (ledger : Ledger s) {index : ℕ} {ref : JobRef}
    {job : ScheduledJob} (found : s.queue[index]? = some ref) (held : s.jobs[ref]? = some job) :
    Ledger (s.start index ref job) := by
  have taken := queue_perm found
  have queued : ref ∈ s.queue := mem_of_getElem? found
  have fresh := (ledger.waiting ref (mem_append_left _ queued)).1
  have same : (places (s.start index ref job)).Perm (places s) := by
    change (s.queue.eraseIdx index ++ s.pausedJobs.values ++ ref :: s.running).Perm _
    refine perm_middle.trans ?_
    rw [places, ← cons_append, ← cons_append]
    exact (taken.symm.append_right _).append_right _
  refine ⟨same.nodup_iff.mpr ledger.once, ?_, ?_, ?_, ?_, ?_⟩
  · intro other some
    rw [same.mem_iff] at some
    rcases some with mem | started | settled
    · exact ledger.known other (.inl mem)
    · rcases mem_cons.mp started with rfl | started
      · exact ledger.known other (.inl (mem_append_left _ (mem_append_left _ queued)))
      · exact ledger.known other (.inr (.inl started))
    · exact ledger.known other (.inr (.inr settled))
  · intro other mem
    have before : other ∈ s.queue ++ s.pausedJobs.values := by
      rcases mem_append.mp mem with queued | paused
      · exact mem_append_left _ (mem_of_mem_eraseIdx queued)
      · exact mem_append_right _ paused
    obtain ⟨notStarted, open_⟩ := ledger.waiting other before
    refine ⟨?_, open_⟩
    intro started
    rcases mem_cons.mp started with rfl | started
    · have twice := (same.nodup_iff.mpr ledger.once)
      exact (nodup_append.mp twice).2.2 other mem other mem_cons_self rfl
    · exact notStarted started
  · intro other inside opened
    rw [same.mem_iff]
    exact ledger.placed other inside opened
  · exact nodup_cons.mpr ⟨fresh, ledger.startedOnce⟩
  · intro key
    have room : ∀ key ∈ job.resourceKeys, 0 ≤ (s.activeByResource.get? key).getD 0 + 1 := by
      intro key _
      have counted := ledger.counts key
      rw [activeCount] at counted
      omega
    have moved := getD_foldl_adjustKey job.distinct room key
    have counted := ledger.counts key
    change ((job.resourceKeys.foldl (adjustKey 1) s.activeByResource).get? key).getD 0 =
      ((ref :: s.running).countP (names s key) : ℤ)
    rw [activeCount] at counted
    rw [moved, counted, countP_cons]
    have named : names s key ref = decide (key ∈ job.resourceKeys) := by
      rw [names, held, any_some]
    rw [named]
    by_cases mem : key ∈ job.resourceKeys <;> simp [mem]

theorem Ledger.pump (ledger : Ledger s) : Ledger s.pump := by
  rcases pump_cases s with ⟨same, -⟩ | ⟨index, ref, job, found, held, -, started⟩
  · rw [same]
    exact ledger
  · rw [started]
    exact ledger.start found held

theorem awake_pump (s : TransferScheduler) : Awake s.pump := by
  rcases pump_cases s with ⟨same, blocked⟩ | ⟨index, ref, job, -, -, -, started⟩
  · rw [same]
    exact .inr (.inr blocked)
  · rw [started]
    exact .inr (.inl (Nat.succ_pos _))

/-- A new job waits at the end of the queue. -/
def enqueue (s : TransferScheduler) (job : ScheduledJob) : TransferScheduler :=
  { s with jobs := s.jobs ++ [job], queue := s.queue ++ [s.jobs.length] }

section

variable (ledger : Ledger s)
include ledger

theorem Ledger.enqueue (job : ScheduledJob) : Ledger (enqueue s job) := by
  have same : (places (Transfers.enqueue s job)).Perm (s.jobs.length :: places s) := by
    change (s.queue ++ [s.jobs.length] ++ s.pausedJobs.values ++ s.running).Perm _
    rw [append_assoc, append_assoc, singleton_append, places, append_assoc]
    exact perm_middle
  have unknown : ∀ ref, ref ∈ places s ∨ ref ∈ s.started ∨ ref ∈ s.settled → ref ≠ s.jobs.length :=
    fun ref some => (ledger.known ref some).ne
  have length : (Transfers.enqueue s job).jobs.length = s.jobs.length + 1 := by
    simp [Transfers.enqueue]
  refine ⟨?_, ?_, ?_, ?_, ledger.startedOnce, ?_⟩
  · rw [same.nodup_iff, nodup_cons]
    exact ⟨fun mem => unknown _ (.inl mem) rfl, ledger.once⟩
  · intro ref some
    rw [length]
    rw [same.mem_iff, mem_cons] at some
    rcases some with (rfl | mem) | later
    · exact Nat.lt_succ_self _
    · exact Nat.lt_succ_of_lt (ledger.known ref (.inl mem))
    · exact Nat.lt_succ_of_lt (ledger.known ref (.inr later))
  · intro ref mem
    by_cases new : ref = s.jobs.length
    · exact ⟨fun started => unknown ref (.inr (.inl started)) new,
        fun settled => unknown ref (.inr (.inr settled)) new⟩
    · apply ledger.waiting
      rcases mem_append.mp mem with queued | paused
      · rcases mem_append.mp queued with queued | last
        · exact mem_append_left _ queued
        · exact absurd (mem_singleton.mp last) new
      · exact mem_append_right _ paused
  · intro ref inside opened
    rw [same.mem_iff, mem_cons]
    by_cases new : ref = s.jobs.length
    · exact .inl new
    · refine .inr (ledger.placed ref ?_ opened)
      rw [length] at inside
      omega
  · intro key
    change s.activeCount key = _
    rw [ledger.counts key]
    congr 1
    apply countP_congr
    intro ref mem
    have inside := ledger.known ref (.inl (mem_append_right _ mem))
    rw [names, names, Transfers.enqueue, getElem?_append_left inside]

omit ledger in
/-- A job whose promise settles loses its place. -/
theorem Ledger.settle {s s' : TransferScheduler} (ledger : Ledger s) {ref : JobRef}
    (gone : (places s).Perm (ref :: places s'))
    (waiting : ∀ other ∈ s'.queue ++ s'.pausedJobs.values, other ∈ s.queue ++ s.pausedJobs.values)
    (jobs : s'.jobs = s.jobs) (active : s'.activeByResource = s.activeByResource)
    (running : s'.running = s.running) (started : s'.started = s.started)
    (settled : s'.settled = ref :: s.settled) : Ledger s' := by
  obtain ⟨absent, once⟩ := nodup_cons.mp (gone.nodup_iff.mp ledger.once)
  have was {other : JobRef} : other ∈ places s ↔ other = ref ∨ other ∈ places s' := by
    rw [gone.mem_iff, mem_cons]
  refine ⟨once, ?_, ?_, ?_, started ▸ ledger.startedOnce, ?_⟩
  · intro other some
    rw [jobs]
    rw [started, settled, mem_cons] at some
    rcases some with mem | started | rfl | settled
    · exact ledger.known other (.inl (was.mpr (.inr mem)))
    · exact ledger.known other (.inr (.inl started))
    · exact ledger.known other (.inl (was.mpr (.inl rfl)))
    · exact ledger.known other (.inr (.inr settled))
  · intro other mem
    obtain ⟨notStarted, opened⟩ := ledger.waiting other (waiting other mem)
    rw [started, settled, mem_cons, not_or]
    refine ⟨notStarted, ?_, opened⟩
    rintro rfl
    exact absent (mem_append_left _ mem)
  · intro other inside opened
    rw [settled, mem_cons, not_or] at opened
    exact (was.mp (ledger.placed other (jobs ▸ inside) opened.2)).resolve_left opened.1
  · intro key
    have same : names s' key = names s key := by
      funext other
      rw [names, names, jobs]
    rw [same, running, activeCount, active]
    exact ledger.counts key

theorem Ledger.release {ref : JobRef} {job : ScheduledJob}
    (held : s.jobs[ref]? = some job) (running : ref ∈ s.running) (settled : ref ∈ s.settled) :
    Ledger ({ s with running := s.running.erase ref }.adjustActive job (-1)) := by
  have taken : s.running.Perm (ref :: s.running.erase ref) := perm_cons_erase running
  have named (key : JsString) : names s key ref = decide (key ∈ job.resourceKeys) := by
    rw [names, held, any_some]
  have counted (key : JsString) : s.activeCount key =
      ((s.running.erase ref).countP (names s key) : ℤ) + if key ∈ job.resourceKeys then 1 else 0 := by
    rw [ledger.counts key, taken.countP_eq, countP_cons, named]
    by_cases mem : key ∈ job.resourceKeys <;> simp [mem]
  have gone : (places s).Perm
      (ref :: (s.queue ++ s.pausedJobs.values ++ s.running.erase ref)) := by
    refine (List.Perm.append_left _ taken).trans ?_
    exact perm_middle
  obtain ⟨-, once⟩ := nodup_cons.mp (gone.nodup_iff.mp ledger.once)
  refine ⟨once, ?_, ledger.waiting, ?_, ledger.startedOnce, ?_⟩
  · intro other some
    apply ledger.known other
    rcases some with mem | later
    · exact .inl (gone.mem_iff.mpr (mem_cons_of_mem _ mem))
    · exact .inr later
  · intro other inside opened
    have mem := gone.mem_iff.mp (ledger.placed other inside opened)
    refine (mem_cons.mp mem).resolve_left ?_
    rintro rfl
    exact opened settled
  · intro key
    have room : ∀ key ∈ job.resourceKeys, 0 ≤ (s.activeByResource.get? key).getD 0 + -1 := by
      intro key mem
      have count := counted key
      rw [activeCount, if_pos mem] at count
      omega
    have moved := getD_foldl_adjustKey job.distinct room key
    have count := counted key
    rw [activeCount] at count
    change ((job.resourceKeys.foldl (adjustKey (-1)) s.activeByResource).get? key).getD 0 =
      ((s.running.erase ref).countP (names s key) : ℤ)
    rw [moved, count]
    by_cases mem : key ∈ job.resourceKeys <;> simp [mem]

omit ledger in
theorem getElem?_reprioritize (jobs : List ScheduledJob) (ref other : JobRef)
    (priority : ℕ) (holds : ScheduledJob → Bool)
    (blind : ∀ job, holds { job with priority := priority } = holds job) :
    (jobs.modify ref fun job => { job with priority := priority })[other]?.any holds =
      jobs[other]?.any holds := by
  rw [getElem?_modify]
  cases jobs[other]? with
  | none => rfl
  | some job =>
    by_cases same : ref = other
    · simp [same, blind]
    · simp [same]

theorem Ledger.raise (ref : JobRef) : Ledger (s.raise ref) := by
  have length : (s.raise ref).jobs.length = s.jobs.length := length_modify ..
  refine ⟨ledger.once, ?_, ledger.waiting, ?_, ledger.startedOnce, ?_⟩
  · intro other some
    rw [length]
    exact ledger.known other some
  · intro other inside opened
    rw [length] at inside
    exact ledger.placed other inside opened
  · intro key
    change s.activeCount key = _
    rw [ledger.counts key]
    congr 1
    apply countP_congr
    intro other _
    rw [names, names, TransferScheduler.raise]
    dsimp only
    rw [getElem?_reprioritize s.jobs ref other _ _ fun _ => rfl]

omit ledger in
theorem findIndex_found {taskId : JsString} {index : ℕ}
    (found : s.findIndex taskId = some index) : ∃ ref, s.queue[index]? = some ref := by
  obtain ⟨inside, -⟩ := findIdx?_eq_some_iff_getElem.mp found
  exact ⟨s.queue[index], getElem?_eq_getElem inside⟩

theorem Ledger.pause {taskId : JsString}
    (undisturbed : s.findIndex taskId ≠ none → s.pausedJobs.get? taskId = none) :
    Ledger (s.pause taskId).2 := by
  unfold TransferScheduler.pause
  cases queued : s.findIndex taskId with
  | none => exact ledger
  | some index =>
    obtain ⟨ref, found⟩ := findIndex_found queued
    have fresh := undisturbed (by rw [queued]; exact some_ne_none _)
    have values : (s.pausedJobs.set taskId ref).values = s.pausedJobs.values ++ [ref] :=
      values_set_of_get? fresh
    dsimp only
    rw [found]
    have moved : (s.queue.eraseIdx index ++ (s.pausedJobs.set taskId ref).values).Perm
        (s.queue ++ s.pausedJobs.values) := by
      rw [values, ← append_assoc]
      apply (perm_append_singleton _ _).trans
      exact (queue_perm found).symm.append_right _
    exact ledger.move (moved.append_right _) (fun other mem => moved.mem_iff.mp mem) rfl rfl rfl rfl rfl

theorem Ledger.resume (taskId : JsString) : Ledger (s.resume taskId).2 := by
  unfold TransferScheduler.resume
  cases found : s.pausedJobs.get? taskId with
  | none => exact ledger
  | some ref =>
    apply Ledger.schedulePump
    have moved : (s.queue ++ [ref] ++ (s.pausedJobs.delete taskId).values).Perm
        (s.queue ++ s.pausedJobs.values) := by
      rw [append_assoc, singleton_append]
      exact (values_delete_perm found).symm.append_left _
    exact ledger.move (moved.append_right _) (fun other mem => moved.mem_iff.mp mem) rfl rfl rfl rfl rfl

theorem Ledger.cancel {taskId : JsString}
    (undisturbed : s.findIndex taskId ≠ none → s.pausedJobs.get? taskId = none) :
    Ledger (s.cancel taskId).2 := by
  unfold TransferScheduler.cancel
  cases queued : s.findIndex taskId with
  | some index =>
    obtain ⟨ref, found⟩ := findIndex_found queued
    have fresh := undisturbed (by rw [queued]; exact some_ne_none _)
    have absent : s.pausedJobs.has taskId = false := by rw [OrderedMap.has, fresh]; rfl
    have kept := delete_of_not_has absent
    dsimp only
    rw [found]
    apply Ledger.schedulePump
    rw [kept]
    have gone : (s.queue ++ s.pausedJobs.values).Perm
        (ref :: (s.queue.eraseIdx index ++ s.pausedJobs.values)) := (queue_perm found).append_right _
    exact ledger.settle (gone.append_right _)
      (fun other mem => gone.mem_iff.mpr (mem_cons_of_mem _ mem)) rfl rfl rfl rfl rfl
  | none =>
    dsimp only
    cases found : s.pausedJobs.get? taskId with
    | none => exact ledger
    | some ref =>
      apply Ledger.schedulePump
      have gone : (s.queue ++ s.pausedJobs.values).Perm
          (ref :: (s.queue ++ (s.pausedJobs.delete taskId).values)) :=
        ((values_delete_perm found).append_left _).trans perm_middle
      exact ledger.settle (gone.append_right _)
        (fun other mem => gone.mem_iff.mpr (mem_cons_of_mem _ mem)) rfl rfl rfl rfl rfl

theorem Ledger.workSettles (ref : JobRef) : Ledger (s.workSettles ref) := by
  unfold TransferScheduler.workSettles
  by_cases enabled : s.pumps = 0 ∧ ref ∈ s.running ∧ ref ∉ s.settled
  · rw [if_pos enabled]
    obtain ⟨-, running, -⟩ := enabled
    refine ⟨ledger.once, ?_, ?_, ?_, ledger.startedOnce, ledger.counts⟩
    · intro other some
      rcases some with mem | started | settled
      · exact ledger.known other (.inl mem)
      · exact ledger.known other (.inr (.inl started))
      · rcases mem_cons.mp settled with rfl | settled
        · exact ledger.known other (.inl (mem_append_right _ running))
        · exact ledger.known other (.inr (.inr settled))
    · intro other mem
      obtain ⟨notStarted, opened⟩ := ledger.waiting other mem
      refine ⟨notStarted, ?_⟩
      intro settled
      rcases mem_cons.mp settled with rfl | settled
      · exact (nodup_append.mp ledger.once).2.2 other mem other running rfl
      · exact opened settled
    · intro other inside opened
      exact ledger.placed other inside fun settled => opened (mem_cons_of_mem _ settled)
  · rw [if_neg enabled]
    exact ledger

theorem Ledger.slotReleased (ref : JobRef) : Ledger (s.slotReleased ref) := by
  unfold TransferScheduler.slotReleased
  by_cases enabled : s.pumps = 0 ∧ ref ∈ s.running ∧ ref ∈ s.settled
  · rw [if_pos enabled]
    obtain ⟨-, running, settled⟩ := enabled
    cases held : s.jobs[ref]? with
    | none => exact ledger
    | some job => exact (ledger.release held running settled).schedulePump
  · rw [if_neg enabled]
    exact ledger

theorem Ledger.withPumps (pumps : ℕ)
    (pumpScheduled : Bool) : Ledger { s with pumps := pumps, pumpScheduled := pumpScheduled } :=
  ledger.move (List.Perm.refl _) (fun _ mem => mem) rfl rfl rfl rfl rfl

theorem Ledger.step {event : SchedulerEvent}
    (undisturbed : Undisturbed s event) : Ledger (step s event) := by
  cases event with
  | run ownerId taskId resourceKeys readLimit =>
    have waits := ledger.enqueue ⟨ownerId, taskId, normalizeResourceKeys resourceKeys,
      eraseDups_nodup _, 0, readLimit⟩
    change Ledger (s.run ownerId taskId resourceKeys readLimit)
    unfold TransferScheduler.run
    dsimp only
    split
    · exact waits.pump
    · exact waits.schedulePump
  | prioritize taskId =>
    change Ledger (s.prioritize taskId)
    unfold TransferScheduler.prioritize
    cases s.findJob taskId with
    | none => exact ledger
    | some ref => exact (ledger.raise ref).schedulePump
  | pause taskId => exact ledger.pause undisturbed
  | resume taskId => exact ledger.resume taskId
  | cancel taskId => exact ledger.cancel undisturbed
  | workReturns =>
    change Ledger s.workReturns
    unfold TransferScheduler.workReturns
    have waits := ledger.withPumps (s.pumps - 1) s.pumpScheduled
    split
    · exact ledger
    · dsimp only
      split
      · exact waits.schedulePump
      · exact waits.pump
  | workSettles ref => exact ledger.workSettles ref
  | slotReleased ref => exact ledger.slotReleased ref
  | pumpRuns =>
    change Ledger s.pumpRuns
    unfold TransferScheduler.pumpRuns
    split
    · exact (ledger.withPumps s.pumps false).pump
    · exact ledger

end

/-- The queue may be shorter, and pumps and starts are as they were. -/
structure Rests (s s' : TransferScheduler) : Prop where
  queue : ∀ ref ∈ s'.queue, ref ∈ s.queue
  jobs : s'.jobs = s.jobs
  active : s'.activeByResource = s.activeByResource
  scheduled : s'.pumpScheduled = s.pumpScheduled
  pumps : s'.pumps = s.pumps
  started : s'.started = s.started

inductive Ends (s : TransferScheduler) : TransferScheduler → Prop
  | rests {s' : TransferScheduler} (rests : Rests s s') : Ends s s'
  | asks (t : TransferScheduler) (started : t.started = s.started) : Ends s t.schedulePump
  | pumps (t : TransferScheduler) (started : t.started = s.started)
      (active : t.activeByResource = s.activeByResource) : Ends s t.pump

theorem ends_step (s : TransferScheduler) (event : SchedulerEvent) : Ends s (step s event) := by
  have rests : Ends s s := .rests ⟨fun _ mem => mem, rfl, rfl, rfl, rfl, rfl⟩
  cases event with
  | run ownerId taskId resourceKeys readLimit =>
    change Ends s (s.run ownerId taskId resourceKeys readLimit)
    unfold TransferScheduler.run
    dsimp only
    split
    · exact .pumps _ rfl rfl
    · exact .asks _ rfl
  | prioritize taskId =>
    change Ends s (s.prioritize taskId)
    unfold TransferScheduler.prioritize
    cases s.findJob taskId with
    | none => exact rests
    | some ref => exact .asks _ rfl
  | pause taskId =>
    change Ends s (s.pause taskId).2
    unfold TransferScheduler.pause
    cases s.findIndex taskId with
    | none => exact rests
    | some index =>
      dsimp only
      cases s.queue[index]? with
      | none => exact rests
      | some ref => exact .rests ⟨fun _ mem => mem_of_mem_eraseIdx mem, rfl, rfl, rfl, rfl, rfl⟩
  | resume taskId =>
    change Ends s (s.resume taskId).2
    unfold TransferScheduler.resume
    cases s.pausedJobs.get? taskId with
    | none => exact rests
    | some ref => exact .asks _ rfl
  | cancel taskId =>
    change Ends s (s.cancel taskId).2
    unfold TransferScheduler.cancel
    cases s.findIndex taskId with
    | some index =>
      dsimp only
      cases s.queue[index]? with
      | none => exact rests
      | some ref => exact .asks _ rfl
    | none =>
      dsimp only
      cases s.pausedJobs.get? taskId with
      | none => exact rests
      | some ref => exact .asks _ rfl
  | workReturns =>
    change Ends s s.workReturns
    unfold TransferScheduler.workReturns
    split
    · exact rests
    · dsimp only
      split
      · exact .asks _ rfl
      · exact .pumps _ rfl rfl
  | workSettles ref =>
    change Ends s (s.workSettles ref)
    unfold TransferScheduler.workSettles
    split
    · exact .rests ⟨fun _ mem => mem, rfl, rfl, rfl, rfl, rfl⟩
    · exact rests
  | slotReleased ref =>
    change Ends s (s.slotReleased ref)
    unfold TransferScheduler.slotReleased
    split
    · cases s.jobs[ref]? with
      | none => exact rests
      | some job => exact .asks _ rfl
    · exact rests
  | pumpRuns =>
    change Ends s s.pumpRuns
    unfold TransferScheduler.pumpRuns
    split
    · exact .pumps _ rfl rfl
    · exact rests

/-- A shorter queue is no less awake. -/
theorem Awake.shrink {s s' : TransferScheduler} (awake : Awake s) (rests : Rests s s') : Awake s' := by
  rcases awake with due | executing | blocked
  · exact .inl (rests.scheduled.trans due)
  · exact .inr (.inl (rests.pumps ▸ executing))
  · refine .inr (.inr ?_)
    intro ref mem
    have before := blocked ref (rests.queue ref mem)
    rw [runnable] at before ⊢
    have same : s'.canRun = s.canRun := by
      funext job
      unfold canRun activeCount
      rw [rests.active]
    rw [same, rests.jobs]
    exact before

theorem Awake.step (awake : Awake s) (event : SchedulerEvent) : Awake (step s event) := by
  have ends := ends_step s event
  generalize Transfers.step s event = next at ends ⊢
  cases ends with
  | rests rests => exact awake.shrink rests
  | asks t => exact awake_schedulePump t
  | pumps t => exact awake_pump t

/-! ## Starts -/

theorem startsBelowLimit_of_started {s s' : TransferScheduler} (same : s'.started = s.started) :
    StartsBelowLimit s s' :=
  fun _ mem fresh => absurd (same ▸ mem) fresh

theorem startsBelowLimit_pump {s s₀ : TransferScheduler} (started : s.started = s₀.started)
    (active : s.activeByResource = s₀.activeByResource) : StartsBelowLimit s₀ s.pump := by
  rcases pump_cases s with ⟨same, -⟩ | ⟨index, ref, job, -, held, can, pumped⟩
  · rw [same]
    exact startsBelowLimit_of_started started
  · rw [pumped]
    intro other mem fresh job' held'
    have new : other = ref := (mem_cons.mp mem).resolve_right fun old => fresh (started ▸ old)
    subst new
    have same : job' = job := Option.some.inj (held'.symm.trans held)
    subst same
    intro key named
    have below := List.all_eq_true.mp can key named
    rw [decide_eq_true_eq, activeCount, active] at below
    exact below

theorem startsBelowLimit_step (s : TransferScheduler) (event : SchedulerEvent) :
    StartsBelowLimit s (step s event) := by
  have ends := ends_step s event
  generalize Transfers.step s event = next at ends ⊢
  cases ends with
  | rests rests => exact startsBelowLimit_of_started rests.started
  | asks t started => exact startsBelowLimit_of_started ((started_schedulePump t).trans started)
  | pumps t started active => exact startsBelowLimit_pump started active

/-! ## Runs -/

theorem ledger_create : Ledger createGlobalSftpTransferScheduler := by
  refine ⟨nodup_nil, ?_, ?_, ?_, nodup_nil, fun _ => rfl⟩
  · rintro ref (mem | mem | mem) <;> cases mem
  · intro ref mem
    cases mem
  · intro ref inside
    exact absurd inside (Nat.not_lt_zero _)

theorem ledger_foldl (ledger : Ledger s) (awake : Awake s)
    {events : List SchedulerEvent} (undisturbed : UndisturbedRun s events) :
    Ledger (events.foldl step s) ∧ Awake (events.foldl step s) := by
  induction events generalizing s with
  | nil => exact ⟨ledger, awake⟩
  | cons event events ih => exact ih (ledger.step undisturbed.1) (awake.step event) undisturbed.2

/-- In a run that never takes a queued job of a task with a paused job, every open
job has exactly one place, no work is started twice, the counts are those of the
running jobs, jobs start below their limits, and no wake-up is lost. -/
theorem scheduler_invariant (events : List SchedulerEvent)
    (undisturbed : UndisturbedRun createGlobalSftpTransferScheduler events) :
    let s := events.foldl step createGlobalSftpTransferScheduler
    Ledger s ∧ Awake s ∧ ∀ event, StartsBelowLimit s (step s event) := by
  intro s
  have idle : Awake createGlobalSftpTransferScheduler := .inr (.inr fun ref mem => by cases mem)
  obtain ⟨ledger, awake⟩ := ledger_foldl ledger_create idle undisturbed
  exact ⟨ledger, awake, startsBelowLimit_step s⟩

def pausedTransfer : List SchedulerEvent :=
  [.run (text "tab") (text "a") [] (.finite 1), .workReturns,
    .run (text "tab") (text "b") [] (.finite 1), .pause (text "b")]

theorem scheduler_invariant_pausedTransfer :
    let s := pausedTransfer.foldl step createGlobalSftpTransferScheduler
    Ledger s ∧ Awake s ∧ ∀ event, StartsBelowLimit s (step s event) :=
  scheduler_invariant pausedTransfer (by decide +kernel)

def pausedTwice : List SchedulerEvent :=
  pausedTransfer ++ [.run (text "tab") (text "b") [] (.finite 1), .pause (text "b")]

/-- The job that was paused first is in no place, and its promise stays open. -/
theorem pause_loses_job : let s := pausedTwice.foldl step createGlobalSftpTransferScheduler
    1 < s.jobs.length ∧ 1 ∉ s.settled ∧ 1 ∉ places s := by
  decide +kernel

end Netcatty.Transfers
