import Mathlib.Algebra.Order.BigOperators.Group.Finset
import Netcatty.JsText
import Netcatty.OrderedMap

/-!
Tool calls that wait for one terminal session.

A slot follows the tail that was the last of its key when it was reserved, and the jobs of its
promises run in any order once they can.  A slot is ready only after every earlier slot of its key
was released, and nothing else keeps it back (`one_at_a_time`).
-/

namespace Netcatty.SessionExecution

open List Function

/-- What `chainBySessionKey` runs in a slot; `none` where the slot was reserved alone. -/
inductive Task where
  | none
  | waiting
  | running
  | ended (failed : Bool)
  deriving DecidableEq

structure SessionExecutionSlot where
  key : JsString
  /-- The slot whose tail it follows. -/
  prev : Option ℕ
  task : Task
  released : Bool := false
  /-- The tail is settled. -/
  settled : Bool := false
  ready : Bool := false

structure Queues where
  slots : ℕ → SessionExecutionSlot
  /-- How many slots were reserved. -/
  reserved : ℕ
  queues : OrderedMap JsString ℕ

/-- What runs as soon as promises are settled.  A second clean-up would change nothing. -/
inductive Job where
  | settle (index : ℕ)
  | ready (index : ℕ)
  | cleanUp (index : ℕ)
  | start (index : ℕ)

inductive Event where
  | reserveSessionSlot (key : JsString)
  | chainBySessionKey (key : JsString)
  | release (index : ℕ)
  | taskSettles (index : ℕ) (failed : Bool)
  | job (job : Job)

namespace Queues

def empty : Queues := ⟨fun _ => ⟨[], none, .none, false, false, false⟩, 0, .empty⟩

variable (q : Queues)

def reserve (key : JsString) (task : Task) : Queues where
  slots := update q.slots q.reserved { key, task, prev := q.queues.get? key }
  reserved := q.reserved + 1
  queues := q.queues.set key q.reserved

def change (index : ℕ) (slot : SessionExecutionSlot) : Queues :=
  if index < q.reserved then { q with slots := update q.slots index slot } else q

/-- Without a tail there is a resolved promise. -/
def tailSettled (prev : Option ℕ) : Bool := prev.all fun before => (q.slots before).settled

def perform : Job → Queues
  | .settle index =>
    let slot := q.slots index
    q.change index { slot with settled := slot.settled || (q.tailSettled slot.prev && slot.released) }
  | .ready index =>
    let slot := q.slots index
    q.change index { slot with ready := slot.ready || q.tailSettled slot.prev }
  | .cleanUp index =>
    let slot := q.slots index
    if slot.settled ∧ q.queues.get? slot.key = some index then { q with queues := q.queues.delete slot.key } else q
  | .start index =>
    let slot := q.slots index
    if slot.ready ∧ slot.task = .waiting then q.change index { slot with task := .running } else q

def step : Event → Queues
  | .reserveSessionSlot key => q.reserve key .none
  | .chainBySessionKey key => q.reserve key .waiting
  | .release index =>
    let slot := q.slots index
    if slot.task = .none then q.change index { slot with released := true } else q
  | .taskSettles index failed =>
    let slot := q.slots index
    if slot.task = .running then q.change index { slot with task := .ended failed, released := true } else q
  | .job job => q.perform job

def Served (key : JsString) (index : ℕ) : Prop :=
  ∀ other < index, (q.slots other).key = key → (q.slots other).settled

def Started (index : ℕ) : Prop := (q.slots index).task = .running ∨ ∃ failed, (q.slots index).task = .ended failed

end Queues

open Queues

/-- What is so of a slot, of those before it, and of the tail it follows. -/
structure Fair (q : Queues) (index : ℕ) (slot : SessionExecutionSlot) : Prop where
  settled : slot.settled → slot.released ∧ q.Served slot.key index
  ready : slot.ready → q.Served slot.key index
  waiting : slot.task = .waiting → slot.released = false
  running : slot.task = .running → slot.ready ∧ slot.released = false
  ended : ∀ failed, slot.task = .ended failed → slot.ready ∧ slot.released
  first : slot.prev = none → q.Served slot.key index
  follows : ∀ before, slot.prev = some before → before < index ∧ (q.slots before).key = slot.key ∧
    ∀ other < index, (q.slots other).key = slot.key → other ≤ before

structure Invariant (q : Queues) : Prop where
  fair : ∀ index < q.reserved, Fair q index (q.slots index)
  last : ∀ key index, q.queues.get? key = some index → index < q.reserved ∧ (q.slots index).key = key ∧
    ∀ other < q.reserved, (q.slots other).key = key → other ≤ index
  unlisted : ∀ key, q.queues.get? key = none → q.Served key q.reserved

variable {q : Queues} {index : ℕ}

theorem Invariant.served (h : Invariant q) (bound : index < q.reserved)
    (tail : q.tailSettled (q.slots index).prev) : q.Served (q.slots index).key index := by
  have fair := h.fair index bound
  cases prev : (q.slots index).prev with
  | none => exact fair.first prev
  | some before =>
    obtain ⟨below, sameKey, latest⟩ := fair.follows before prev
    have settled : (q.slots before).settled := by
      rw [prev] at tail
      exact tail
    intro other earlier ofKey
    rcases (latest other earlier ofKey).lt_or_eq with further | rfl
    · exact ((h.fair before (below.trans bound)).settled settled).2 other further (ofKey.trans sameKey.symm)
    · exact settled

theorem slots_change (bound : index < q.reserved) (slot : SessionExecutionSlot) (other : ℕ) :
    (q.change index slot).slots other = if other = index then slot else q.slots other := by
  rw [change, if_pos bound]
  exact update_apply ..

section

variable {q' : Queues} {slot : SessionExecutionSlot}
  (keys : ∀ other < index, (q'.slots other).key = (q.slots other).key)
  (settled : ∀ other < index, (q.slots other).settled → (q'.slots other).settled)

include keys settled

theorem served_mono {key : JsString} (h : q.Served key index) : q'.Served key index := by
  intro other below ofKey
  exact settled other below (h other below (keys other below ▸ ofKey))

theorem Fair.mono (h : Fair q index slot) : Fair q' index slot where
  __ := h
  settled := fun is => ⟨(h.settled is).1, served_mono keys settled (h.settled is).2⟩
  ready := fun is => served_mono keys settled (h.ready is)
  first := fun prev => served_mono keys settled (h.first prev)
  follows := by
    intro before prev
    obtain ⟨below, sameKey, latest⟩ := h.follows before prev
    refine ⟨below, (keys before below).trans sameKey, fun other earlier ofKey => ?_⟩
    exact latest other earlier (keys other earlier ▸ ofKey)

end

theorem Invariant.change (h : Invariant q) {slot : SessionExecutionSlot} (key : slot.key = (q.slots index).key)
    (settled : (q.slots index).settled → slot.settled)
    (fair : Fair q index (q.slots index) → index < q.reserved → Fair q index slot) :
    Invariant (q.change index slot) := by
  by_cases bound : index < q.reserved
  · have at_ := slots_change bound slot
    have size : (q.change index slot).reserved = q.reserved := by rw [Queues.change, if_pos bound]
    have same : (q.change index slot).queues = q.queues := by rw [Queues.change, if_pos bound]
    have fair := fair (h.fair index bound) bound
    have keys (other : ℕ) : ((q.change index slot).slots other).key = (q.slots other).key := by grind
    have more (other : ℕ) (is : (q.slots other).settled) : ((q.change index slot).slots other).settled := by grind
    constructor
    · intro other below
      have old := h.fair other (size ▸ below)
      refine Fair.mono (q := q) (fun other _ => keys other) (fun other _ => more other) ?_
      grind
    · have := h.last
      grind
    · intro key unset
      have old := h.unlisted key (same ▸ unset)
      exact size ▸ served_mono (fun other _ => keys other) (fun other _ => more other) old
  · rw [Queues.change, if_neg bound]
    exact h

theorem Invariant.reserve (h : Invariant q) (key : JsString) {task : Task} (fresh : task = .none ∨ task = .waiting) :
    Invariant (q.reserve key task) := by
  have at_ (other : ℕ) (below : other < q.reserved) : (q.reserve key task).slots other = q.slots other :=
    update_of_ne below.ne _ _
  have new : (q.reserve key task).slots q.reserved = { key, task, prev := q.queues.get? key } := update_self ..
  have size : (q.reserve key task).reserved = q.reserved + 1 := rfl
  have listed (other : JsString) : (q.reserve key task).queues.get? other =
      if other = key then some q.reserved else q.queues.get? other := OrderedMap.get?_set ..
  have last := h.last
  have unlisted := h.unlisted
  constructor
  · intro index below
    refine Fair.mono (q := q) (fun other earlier => by grind) (fun other earlier => by grind) ?_
    rcases Nat.lt_succ_iff_lt_or_eq.mp below with old | rfl
    · exact at_ index old ▸ h.fair index old
    · rw [new]
      constructor <;> grind
  · intro other index found
    rw [listed] at found
    split at found
    · next same =>
      obtain rfl := Option.some.inj found
      rw [new]
      exact ⟨Nat.lt_succ_self _, same.symm, fun _ below _ => Nat.lt_succ_iff.mp below⟩
    · next different =>
      obtain ⟨below, ofKey, latest⟩ := last other index found
      rw [at_ index below]
      refine ⟨Nat.lt_succ_of_lt below, ofKey, fun third bound sameKey => ?_⟩
      grind
  · intro other unset index below ofKey
    have before := unlisted other (by grind)
    grind [Served]

theorem Invariant.perform (h : Invariant q) (job : Job) : Invariant (q.perform job) := by
  cases job with
  | settle index =>
    refine h.change rfl (fun settled => by simp [settled]) fun fair bound => { fair with settled := ?_ }
    have := h.served bound
    have := fair.settled
    grind
  | ready index =>
    refine h.change rfl id fun fair bound => { fair with ready := ?_, running := ?_, ended := ?_ }
    · have := h.served bound
      have := fair.ready
      grind
    · have := fair.running
      grind
    · have := fair.ended
      grind
  | cleanUp index =>
    rw [Queues.perform]
    split
    · next may =>
      obtain ⟨bound, -, latest⟩ := h.last _ _ may.2
      refine { fair := fun other below => ?_, last := ?_, unlisted := ?_ }
      · exact Fair.mono (q := q) (fun _ _ => rfl) (fun _ _ => id) (h.fair other below)
      · intro key other found
        rw [OrderedMap.get?_delete] at found
        split at found
        · cases found
        · exact h.last key other found
      · intro key unset
        rw [OrderedMap.get?_delete] at unset
        split at unset
        · next same =>
          intro other below ofKey
          rcases (latest other below (ofKey.trans same)).lt_or_eq with earlier | rfl
          · exact ((h.fair index bound).settled may.1).2 other earlier (ofKey.trans same)
          · exact may.1
        · exact h.unlisted key unset
    · exact h
  | start index =>
    rw [Queues.perform]
    split
    · next may =>
      refine h.change rfl id fun fair bound => { fair with waiting := ?_, running := ?_, ended := ?_ }
      all_goals grind [fair.waiting]
    · exact h

theorem Invariant.step (h : Invariant q) (event : Event) : Invariant (q.step event) := by
  cases event with
  | reserveSessionSlot key => exact h.reserve key (.inl rfl)
  | chainBySessionKey key => exact h.reserve key (.inr rfl)
  | release index =>
    rw [Queues.step]
    split
    · refine h.change rfl id fun fair _ => { fair with
        settled := fun settled => ⟨rfl, (fair.settled settled).2⟩, waiting := ?_, running := ?_, ended := ?_ }
      all_goals grind
    · exact h
  | taskSettles index failed =>
    rw [Queues.step]
    split
    · next running =>
      refine h.change rfl id fun fair _ => { fair with
        settled := fun settled => ⟨rfl, (fair.settled settled).2⟩, waiting := ?_, running := ?_
        ended := fun _ _ => ⟨(fair.running running).1, rfl⟩ }
      all_goals grind
    · exact h
  | job job => exact h.perform job

theorem invariant_foldl (events : List Event) : Invariant (events.foldl Queues.step .empty) := by
  have start : Invariant .empty := by
    constructor <;> grind [Queues.empty, Served, OrderedMap.get?_empty]
  exact foldlRecOn events _ start fun q h event _ => h.step event

/-! ## Jobs that are left -/

def SessionExecutionSlot.left (slot : SessionExecutionSlot) : ℕ :=
  (!slot.settled).toNat + (!slot.ready).toNat + if slot.task = .waiting then 1 else 0

/-- How many jobs are still to come. -/
def Queues.left (q : Queues) : ℕ := q.queues.size + ∑ index ∈ Finset.range q.reserved, (q.slots index).left

theorem change_left {slot : SessionExecutionSlot}
    (changes : slot = q.slots index ∨ slot.left < (q.slots index).left) :
    q.change index slot = q ∨ (q.change index slot).left < q.left := by
  by_cases bound : index < q.reserved
  · rcases changes with same | less
    · left
      rw [change, if_pos bound, same, update_eq_self]
    · right
      have at_ := slots_change bound slot
      rw [change, if_pos bound] at at_ ⊢
      apply Nat.add_lt_add_left
      apply Finset.sum_lt_sum
      · grind
      · exact ⟨index, Finset.mem_range.mpr bound, by grind⟩
  · exact .inl (if_neg bound)

/-- A job that changes something leaves less to do. -/
theorem perform_left (q : Queues) (job : Job) : q.perform job = q ∨ (q.perform job).left < q.left := by
  cases job with
  | settle index | ready index =>
    apply change_left
    generalize q.slots index = slot
    generalize q.tailSettled slot.prev = may
    cases slot with | mk key prev task released settled ready =>
    cases settled <;> cases ready <;> cases released <;> cases may <;> simp [SessionExecutionSlot.left]
  | cleanUp index =>
    rw [perform]
    split
    · next may =>
      right
      have size := OrderedMap.size_delete_of_has (OrderedMap.has_iff.mpr ⟨_, may.2⟩)
      exact Nat.add_lt_add_right (size ▸ Nat.lt_succ_self _) _
    · exact .inl rfl
  | start index =>
    rw [perform]
    split
    · next may =>
      apply change_left
      right
      rw [SessionExecutionSlot.left, SessionExecutionSlot.left, if_neg (by simp), if_pos may.2]
      exact Nat.lt_succ_self _
    · exact .inl rfl

section

variable (quiet : ∀ job, q.perform job = q) (bound : index < q.reserved)

include quiet bound

theorem done_of_quiet : (q.tailSettled (q.slots index).prev → (q.slots index).ready ∧
      ((q.slots index).released → (q.slots index).settled)) ∧
    ((q.slots index).ready → (q.slots index).task ≠ .waiting) := by
  have slot (job : Job) : (q.perform job).slots index = q.slots index := by rw [quiet]
  have at_ (slot : SessionExecutionSlot) : (q.change index slot).slots index = slot :=
    (slots_change bound slot index).trans (if_pos rfl)
  refine ⟨fun tail => ⟨?_, fun released => ?_⟩, fun ready waiting => ?_⟩
  · have done := congrArg (·.ready) (slot (.ready index))
    rw [perform, at_] at done
    exact done ▸ by simp [tail]
  · have done := congrArg (·.settled) (slot (.settle index))
    rw [perform, at_] at done
    exact done ▸ by simp [tail, released]
  · have done := congrArg (·.task) (slot (.start index))
    rw [perform, if_pos ⟨ready, waiting⟩, at_] at done
    exact Task.noConfusion (done.trans waiting)

theorem tail_settled_of_quiet (h : Invariant q) (released : ∀ other < index,
    (q.slots other).key = (q.slots index).key → (q.slots other).released) : q.tailSettled (q.slots index).prev := by
  induction index using Nat.strong_induction_on with
  | h index ih =>
    cases prev : (q.slots index).prev with
    | none => rfl
    | some before =>
      obtain ⟨below, sameKey, -⟩ := (h.fair index bound).follows before prev
      have tail := ih before below (below.trans bound) fun other earlier ofKey =>
        released other (earlier.trans below) (ofKey.trans sameKey)
      exact ((done_of_quiet quiet (below.trans bound)).1 tail).2 (released before below sameKey)

end

/-- **The slots of a key are served one after the other, and wait for nothing else.** -/
theorem one_at_a_time (events : List Event) :
    let q := events.foldl Queues.step .empty
    (∀ index < q.reserved, ∀ other < index, (q.slots other).key = (q.slots index).key →
      ((q.slots index).ready → (q.slots other).released) ∧
        (q.Started index → (q.slots other).task ≠ .waiting ∧ (q.slots other).task ≠ .running)) ∧
    (∀ job, q.perform job = q ∨ (q.perform job).left < q.left) ∧
    ((∀ job, q.perform job = q) →
      (∀ index < q.reserved, ((q.slots index).ready → (q.slots index).task ≠ .waiting) ∧
        ((q.slots index).ready ↔ ∀ other < index, (q.slots other).key = (q.slots index).key →
          (q.slots other).released)) ∧
      ∀ key, (∀ index < q.reserved, (q.slots index).key = key → (q.slots index).released) →
        q.queues.get? key = none) := by
  have h := invariant_foldl events
  generalize events.foldl Queues.step .empty = q at h
  refine ⟨fun index bound other below ofKey => ?_, perform_left q, fun quiet => ⟨fun index bound => ?_, ?_⟩⟩
  · have fair := h.fair index bound
    have before := h.fair other (below.trans bound)
    have served (ready : (q.slots index).ready) : (q.slots other).released :=
      (before.settled (fair.ready ready other below ofKey)).1
    refine ⟨served, fun started => ?_⟩
    have ready : (q.slots index).ready := by
      rcases started with running | ⟨failed, ended⟩
      · exact (fair.running running).1
      · exact (fair.ended failed ended).1
    have released := served ready
    have waiting := before.waiting
    have running := before.running
    grind
  · refine ⟨(done_of_quiet quiet bound).2, fun ready other below ofKey => ?_, fun released => ?_⟩
    · have settled := (h.fair index bound).ready ready other below ofKey
      exact ((h.fair other (below.trans bound)).settled settled).1
    · exact ((done_of_quiet quiet bound).1 (tail_settled_of_quiet quiet bound h released)).1
  · intro key released
    by_contra listed
    obtain ⟨index, listed⟩ := Option.ne_none_iff_exists'.mp listed
    obtain ⟨bound, rfl, -⟩ := h.last key index listed
    have tail := tail_settled_of_quiet quiet bound h fun other below => released other (below.trans bound)
    have settled := ((done_of_quiet quiet bound).1 tail).2 (released index bound rfl)
    have kept := congrArg (·.queues.get? (q.slots index).key) (quiet (.cleanUp index))
    rw [perform, if_pos ⟨settled, listed⟩] at kept
    simp [listed] at kept

end Netcatty.SessionExecution
