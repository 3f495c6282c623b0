import Mathlib.Data.Finset.Card
import Netcatty.JsText
import Netcatty.OrderedMap

/-!
Who may pause the source of a terminal.

Several windows show one terminal, and each can pause it, or hold a lease on a pause.  The main
process keeps who does, and tells the worker, which has the source, in messages that are read later.
Whatever the windows do in between, and whichever of them are destroyed, the messages leave the
terminal paused if and only if somebody still wants that (`pause_follows_holds`).
-/

namespace Netcatty.FlowPause

open List Function

variable {S : Type}

/-! ## The arbiter -/

/-- What is stored under one session id; no entry is no pause. -/
structure PauseState (S : Type) where
  directPauseSenders : Finset S := ∅
  /-- The owner of each lease. -/
  leases : OrderedMap JsString S := .empty

abbrev Arbiter (S : Type) := OrderedMap JsString (PauseState S)

structure Released (S : Type) where
  success : Bool
  paused : Bool
  arbiter : Arbiter S

structure Message where
  sessionId : JsString
  paused : Bool

section

variable [DecidableEq S]

namespace PauseState

variable (state : PauseState S) (senderId : S)

def isPaused : Bool := state.directPauseSenders.card ≠ 0 || state.leases.size ≠ 0

def setDirect (paused : Bool) : PauseState S :=
  { state with directPauseSenders := if paused then insert senderId state.directPauseSenders
      else state.directPauseSenders.erase senderId }

def release (leaseId : JsString) (keepPaused : Bool) : PauseState S where
  directPauseSenders := if keepPaused then insert senderId state.directPauseSenders else state.directPauseSenders
  leases := state.leases.delete leaseId

def clearSender : PauseState S where
  directPauseSenders := state.directPauseSenders.erase senderId
  leases := ⟨state.leases.entries.filter (·.2 ≠ senderId), state.leases.nodup.sublist (filter_sublist.map Prod.fst)⟩

end PauseState

namespace Arbiter

variable (arbiter : Arbiter S) (sessionId : JsString) (senderId : S) (leaseId : JsString)

def getState : PauseState S := (arbiter.get? sessionId).getD {}

/-- Store the state, or forget a session that is not paused. -/
def cleanup (state : PauseState S) : Arbiter S :=
  if state.isPaused then arbiter.set sessionId state else arbiter.delete sessionId

def setDirectPaused (paused : Bool) : Bool × Arbiter S :=
  let state := (arbiter.getState sessionId).setDirect senderId paused
  (state.isPaused, arbiter.cleanup sessionId state)

def acquire : Arbiter S :=
  let state := arbiter.getState sessionId
  arbiter.set sessionId { state with leases := state.leases.set leaseId senderId }

def owns : Bool := (arbiter.getState sessionId).leases.get? leaseId = some senderId

def release (keepPaused : Bool) : Released S :=
  let state := arbiter.getState sessionId
  if state.leases.get? leaseId ≠ some senderId then ⟨false, state.isPaused, arbiter⟩
  else
    let left := state.release senderId leaseId keepPaused
    ⟨true, left.isPaused, arbiter.cleanup sessionId left⟩

/-- A round of the loop of `clearSender`. -/
def clearRound (senderId : S) (done : List Message × Arbiter S) (sessionId : JsString) : List Message × Arbiter S :=
  let before := done.2.getState sessionId
  let state := before.clearSender senderId
  (if before.isPaused ≠ state.isPaused then done.1 ++ [⟨sessionId, state.isPaused⟩] else done.1,
    done.2.cleanup sessionId state)

/-- The sessions whose pause changed, and the arbiter without the sender. -/
def clearSender : List Message × Arbiter S := arbiter.keys.foldl (clearRound senderId) ([], arbiter)

end Arbiter

end

/-! ## The two processes -/

inductive Event (S : Type) where
  /-- A window, or the restore of an attached terminal, pauses or resumes. -/
  | setFlowPaused (sessionId : JsString) (senderId : S) (paused : Bool)
  | acquire (sessionId : JsString) (senderId : S) (leaseId : JsString)
  /-- The worker does not confirm the pause of a new lease. -/
  | acquireFails (sessionId : JsString) (senderId : S) (leaseId : JsString)
  | wait (sessionId : JsString) (senderId : S) (leaseId : JsString)
  | release (sessionId : JsString) (senderId : S) (leaseId : JsString) (keepPaused : Bool)
  | destroyed (senderId : S)
  | clearSession (sessionId : JsString)
  | workerReads

structure Flow (S : Type) where
  arbiter : Arbiter S := .empty
  /-- The messages the worker has not read. -/
  onTheWay : List Message := []
  /-- `rendererPaused` of the worker's sessions. -/
  rendererPaused : JsString → Bool := fun _ => false

def setRendererFlowPaused (rendererPaused : JsString → Bool) (message : Message) : JsString → Bool :=
  update rendererPaused message.sessionId message.paused

namespace Flow

variable [DecidableEq S] (f : Flow S)

def applyEffectiveSessionFlowPause (sessionId : JsString) (paused : Bool) : Flow S :=
  { f with onTheWay := f.onTheWay ++ [⟨sessionId, paused⟩] }

/-- What is paused once the worker has read what is on the way. -/
def settled : JsString → Bool := f.onTheWay.foldl setRendererFlowPaused f.rendererPaused

def step : Event S → Flow S
  | .setFlowPaused sessionId senderId paused =>
    if sessionId = [] then f
    else
      let set := f.arbiter.setDirectPaused sessionId senderId paused
      { f with arbiter := set.2 }.applyEffectiveSessionFlowPause sessionId set.1
  | .acquire sessionId senderId leaseId =>
    if sessionId = [] then f
    else
      { f with arbiter := f.arbiter.acquire sessionId senderId leaseId }.applyEffectiveSessionFlowPause sessionId true
  | .acquireFails sessionId senderId leaseId =>
    let rolledBack := f.arbiter.release sessionId senderId leaseId false
    { f with arbiter := rolledBack.arbiter }.applyEffectiveSessionFlowPause sessionId rolledBack.paused
  | .wait sessionId senderId leaseId =>
    if f.arbiter.owns sessionId senderId leaseId then f.applyEffectiveSessionFlowPause sessionId true else f
  | .release sessionId senderId leaseId keepPaused =>
    let released := f.arbiter.release sessionId senderId leaseId keepPaused
    if released.success then
      { f with arbiter := released.arbiter }.applyEffectiveSessionFlowPause sessionId released.paused
    else f
  | .destroyed senderId =>
    let cleared := f.arbiter.clearSender senderId
    { f with arbiter := cleared.2, onTheWay := f.onTheWay ++ cleared.1 }
  | .clearSession sessionId => { f with arbiter := f.arbiter.delete sessionId }
  | .workerReads =>
    match f.onTheWay with
    | [] => f
    | message :: rest => { f with rendererPaused := setRendererFlowPaused f.rendererPaused message, onTheWay := rest }

end Flow

/-! ## Who wants the pause -/

inductive Hold (S : Type) where
  | direct (senderId : S)
  | lease (leaseId : JsString) (senderId : S)

def Hold.owner : Hold S → S
  | .direct senderId | .lease _ senderId => senderId

/-- The holds on the pause of a session, after an event. -/
def holdsAfter (sessionId : JsString) (holds : Set (Hold S)) : Event S → Set (Hold S)
  | .setFlowPaused other senderId paused =>
    {hold | hold ∈ holds ∧ ¬(other = sessionId ∧ hold = .direct senderId) ∨
      other = sessionId ∧ paused ∧ hold = .direct senderId}
  | .acquire other senderId leaseId =>
    {hold | hold ∈ holds ∧ ¬(other = sessionId ∧ ∃ owner, hold = .lease leaseId owner) ∨
      other = sessionId ∧ hold = .lease leaseId senderId}
  | .acquireFails other senderId leaseId =>
    {hold | hold ∈ holds ∧ ¬(other = sessionId ∧ hold = .lease leaseId senderId)}
  | .release other senderId leaseId keepPaused =>
    {hold | hold ∈ holds ∧ ¬(other = sessionId ∧ hold = .lease leaseId senderId) ∨
      other = sessionId ∧ keepPaused ∧ .lease leaseId senderId ∈ holds ∧ hold = .direct senderId}
  | .destroyed senderId => {hold | hold ∈ holds ∧ hold.owner ≠ senderId}
  | _ => holds

def PauseState.Has (state : PauseState S) : Hold S → Prop
  | .direct senderId => senderId ∈ state.directPauseSenders
  | .lease leaseId senderId => state.leases.get? leaseId = some senderId

/-! ## What the arbiter keeps -/

variable {state : PauseState S} {arbiter : Arbiter S} {sessionId other : JsString} {senderId : S} {f : Flow S}
  {holds : Set (Hold S)}

theorem isPaused_iff : state.isPaused ↔ ∃ hold, state.Has hold := by
  rw [PauseState.isPaused, Bool.or_eq_true, decide_eq_true_eq, decide_eq_true_eq, Ne, Ne, Finset.card_eq_zero,
    OrderedMap.size_eq_zero]
  constructor
  · rintro (sender | lease)
    · obtain ⟨senderId, mem⟩ := Finset.nonempty_iff_ne_empty.mpr sender
      exact ⟨.direct senderId, mem⟩
    · obtain ⟨leaseId, held⟩ := not_forall.mp lease
      obtain ⟨senderId, owned⟩ := Option.ne_none_iff_exists'.mp held
      exact ⟨.lease leaseId senderId, owned⟩
  · rintro ⟨senderId | ⟨leaseId, senderId⟩, has⟩
    · exact .inl (Finset.ne_empty_of_mem has)
    · exact .inr fun none => by cases (none leaseId).symm.trans has

theorem not_has_default (hold : Hold S) : ¬({} : PauseState S).Has hold := by
  cases hold with
  | direct senderId => exact Finset.notMem_empty senderId
  | lease leaseId senderId => exact fun has => by cases has

theorem has_cleanup (hold : Hold S) : ((arbiter.cleanup sessionId state).getState other).Has hold ↔
    (if other = sessionId then state else arbiter.getState other).Has hold := by
  unfold Arbiter.cleanup Arbiter.getState
  split
  · rw [OrderedMap.get?_set]
    split <;> rfl
  · rename_i free
    rw [OrderedMap.get?_delete]
    split
    · exact iff_of_false (not_has_default hold) fun has => free (isPaused_iff.mpr ⟨hold, has⟩)
    · rfl

theorem has_acquire (leaseId : JsString) (hold : Hold S) :
    ((arbiter.acquire sessionId senderId leaseId).getState other).Has hold ↔
      (arbiter.getState other).Has hold ∧ ¬(sessionId = other ∧ ∃ owner, hold = .lease leaseId owner) ∨
        sessionId = other ∧ hold = .lease leaseId senderId := by
  unfold Arbiter.acquire
  dsimp only
  rw [Arbiter.getState, OrderedMap.get?_set]
  by_cases same : other = sessionId
  · subst same
    rw [if_pos rfl]
    cases hold <;> grind [PauseState.Has, OrderedMap.get?_set]
  · rw [if_neg same]
    simp [Arbiter.getState, Ne.symm same]

/-- The arbiter has the holds, and the worker is on the way to what they mean. -/
structure Follows (f : Flow S) (sessionId : JsString) (holds : Set (Hold S)) : Prop where
  has : ∀ hold, (f.arbiter.getState sessionId).Has hold ↔ hold ∈ holds
  settled : f.settled sessionId ↔ holds.Nonempty

theorem settled_append (f : Flow S) (arbiter : Arbiter S) (messages : List Message) (message : Message)
    (sessionId : JsString) :
    ({ f with arbiter := arbiter, onTheWay := f.onTheWay ++ (messages ++ [message]) } : Flow S).settled sessionId =
      if sessionId = message.sessionId then message.paused
      else { f with arbiter := arbiter, onTheWay := f.onTheWay ++ messages }.settled sessionId := by
  unfold Flow.settled
  rw [← append_assoc, foldl_append]
  exact update_apply _ _ _ _

/-- A message that tells what the arbiter has now. -/
theorem Follows.tell {after : Set (Hold S)} {paused : Bool} (follows : Follows f sessionId holds)
    (has : ∀ hold, (arbiter.getState sessionId).Has hold ↔ hold ∈ after)
    (concerned : other = sessionId → (paused ↔ ∃ hold, (arbiter.getState sessionId).Has hold))
    (unconcerned : other ≠ sessionId → after = holds) :
    Follows ({ f with arbiter := arbiter }.applyEffectiveSessionFlowPause other paused) sessionId after := by
  refine ⟨has, ?_⟩
  have told := settled_append f arbiter [] ⟨other, paused⟩ sessionId
  rw [nil_append, append_nil] at told
  unfold Flow.applyEffectiveSessionFlowPause
  rw [told]
  split
  · rename_i same
    exact (concerned same.symm).trans (exists_congr has)
  · rename_i different
    rw [unconcerned (Ne.symm different)]
    exact follows.settled

/-! ## Steps -/

variable [DecidableEq S]

theorem has_clearSender (hold : Hold S) :
    (state.clearSender senderId).Has hold ↔ state.Has hold ∧ hold.owner ≠ senderId := by
  cases hold with
  | direct owner => simp [PauseState.Has, PauseState.clearSender, Hold.owner, and_comm]
  | lease leaseId owner =>
    simp only [PauseState.Has, PauseState.clearSender, Hold.owner, ← OrderedMap.mem_entries]
    simp

/-- A round of the loop clears the sender from one session, and tells of it where its pause changes. -/
theorem Follows.clearRound (senderId : S) (key : JsString) {done : List Message × Arbiter S}
    (follows : Follows { f with arbiter := done.2, onTheWay := f.onTheWay ++ done.1 } sessionId holds) :
    let next := Arbiter.clearRound senderId done key
    Follows { f with arbiter := next.2, onTheWay := f.onTheWay ++ next.1 } sessionId
      {hold | hold ∈ holds ∧ (key = sessionId → hold.owner ≠ senderId)} := by
  unfold Arbiter.clearRound
  refine ⟨fun hold => ?_, ?_⟩
  · rw [has_cleanup, Set.mem_ofPred_eq, ← follows.has]
    by_cases same : sessionId = key
    · rw [if_pos same, has_clearSender, same]
      simp
    · simp [same, Ne.symm same]
  · have settled := follows.settled
    by_cases same : key = sessionId
    · subst same
      have cleared : ((done.2.getState key).clearSender senderId).isPaused ↔
          {hold | hold ∈ holds ∧ (key = key → hold.owner ≠ senderId)}.Nonempty :=
        isPaused_iff.trans (exists_congr fun hold => by rw [has_clearSender, follows.has]; simp)
      dsimp only
      split
      · rw [settled_append, if_pos rfl]
        exact cleared
      · rename_i unchanged
        rw [← cleared, ← not_not.mp unchanged, isPaused_iff]
        exact settled.trans (exists_congr fun hold => (follows.has hold).symm)
    · simp only [same, false_implies, and_true, Set.ofPred_mem_eq]
      rw [← settled]
      split
      · rw [settled_append, if_neg (Ne.symm same)]
        rfl
      · rfl

/-- Clearing a sender lets go of what it holds, and tells of the sessions whose pause changes. -/
theorem Follows.clearSender (follows : Follows f sessionId holds) :
    let cleared := f.arbiter.clearSender senderId
    Follows { f with arbiter := cleared.2, onTheWay := f.onTheWay ++ cleared.1 } sessionId
      {hold | hold ∈ holds ∧ hold.owner ≠ senderId} := by
  have loop (keys : List JsString) (done : List Message × Arbiter S) (holds : Set (Hold S))
      (follows : Follows { f with arbiter := done.2, onTheWay := f.onTheWay ++ done.1 } sessionId holds) :
      let cleared := keys.foldl (Arbiter.clearRound senderId) done
      Follows { f with arbiter := cleared.2, onTheWay := f.onTheWay ++ cleared.1 } sessionId
        {hold | hold ∈ holds ∧ (sessionId ∈ keys → hold.owner ≠ senderId)} := by
    induction keys generalizing done holds with
    | nil => simpa using follows
    | cons key keys ih =>
      have rest := ih _ _ (follows.clearRound senderId key)
      simpa only [foldl_cons, Set.mem_ofPred_eq, and_assoc, mem_cons, or_imp, eq_comm] using rest
  have cleared := loop f.arbiter.keys ([], f.arbiter) holds (by rwa [append_nil])
  refine (congrArg (Follows _ sessionId) (Set.ext fun hold => and_congr_right fun held => ?_)).mp cleared
  refine ⟨fun gone => gone ?_, fun gone _ => gone⟩
  rw [OrderedMap.mem_keys, OrderedMap.has]
  by_contra absent
  refine not_has_default hold ?_
  have has := (follows.has hold).mpr held
  rwa [Arbiter.getState, Option.not_isSome_iff_eq_none.mp absent] at has

/-- A release that does not own the lease changes nothing. -/
theorem release_spec (arbiter : Arbiter S) (sessionId : JsString) (senderId : S) (leaseId : JsString)
    (keepPaused : Bool) :
    let released := arbiter.release sessionId senderId leaseId keepPaused
    (released.success = false → released.arbiter = arbiter) ∧
      (released.paused ↔ ∃ hold, (released.arbiter.getState sessionId).Has hold) ∧
      ∀ other hold, (released.arbiter.getState other).Has hold ↔
        (arbiter.getState other).Has hold ∧ ¬(sessionId = other ∧ hold = .lease leaseId senderId) ∨
        sessionId = other ∧ keepPaused ∧ (arbiter.getState other).Has (.lease leaseId senderId) ∧
          hold = .direct senderId := by
  unfold Arbiter.release
  dsimp only
  split
  · rename_i foreign
    refine ⟨fun _ => rfl, isPaused_iff, fun other hold => ?_⟩
    by_cases same : sessionId = other
    · subst same
      cases hold <;> grind [PauseState.Has]
    · simp [same]
  · rename_i owned
    refine ⟨Bool.noConfusion, isPaused_iff.trans (exists_congr fun hold => ?_), fun other hold => ?_⟩
    · rw [has_cleanup, if_pos rfl]
    · rw [has_cleanup]
      by_cases same : sessionId = other
      · subst same
        rw [if_pos rfl]
        cases hold <;> grind [PauseState.Has, PauseState.release, OrderedMap.get?_delete]
      · simp [same, Ne.symm same]

theorem Follows.step (follows : Follows f sessionId holds) (named : sessionId ≠ []) {event : Event S}
    (kept : event ≠ .clearSession sessionId) : Follows (f.step event) sessionId (holdsAfter sessionId holds event) := by
  unfold Flow.step
  cases event with
  | setFlowPaused other senderId paused =>
    dsimp only
    split
    · rename_i bare
      simpa [holdsAfter, bare, named.symm] using follows
    · unfold Arbiter.setDirectPaused
      refine follows.tell (fun hold => ?_) (fun same => ?_) fun different => by simp [holdsAfter, different]
      · rw [has_cleanup, holdsAfter, Set.mem_ofPred_eq, ← follows.has]
        by_cases same : sessionId = other
        · rw [if_pos same, same]
          cases hold <;> grind [PauseState.Has, PauseState.setDirect]
        · simp [same, Ne.symm same]
      · exact isPaused_iff.trans (exists_congr fun hold => by rw [has_cleanup, if_pos same.symm])
  | acquire other senderId leaseId =>
    dsimp only
    split
    · rename_i bare
      simpa [holdsAfter, bare, named.symm] using follows
    · refine follows.tell (fun hold => ?_) (fun same => ?_) fun different => by simp [holdsAfter, different]
      · rw [has_acquire, follows.has]
        rfl
      · exact iff_of_true rfl ⟨.lease leaseId senderId, (has_acquire leaseId _).mpr (.inr ⟨same, rfl⟩)⟩
  | acquireFails other senderId leaseId =>
    obtain ⟨-, paused, has⟩ := release_spec f.arbiter other senderId leaseId false
    refine follows.tell (fun hold => ?_) (fun same => same ▸ paused) fun different => by simp [holdsAfter, different]
    simp [has, holdsAfter, follows.has]
  | wait other senderId leaseId =>
    dsimp only
    split
    · rename_i owns
      have owned : (f.arbiter.getState other).leases.get? leaseId = some senderId := of_decide_eq_true owns
      refine follows.tell follows.has (fun same => ?_) fun _ => rfl
      exact iff_of_true rfl ⟨.lease leaseId senderId, same ▸ owned⟩
    · exact follows
  | release other senderId leaseId keepPaused =>
    obtain ⟨refused, paused, has⟩ := release_spec f.arbiter other senderId leaseId keepPaused
    have after (hold : Hold S) : ((f.arbiter.release other senderId leaseId keepPaused).arbiter.getState sessionId).Has
        hold ↔ hold ∈ holdsAfter sessionId holds (.release other senderId leaseId keepPaused) := by
      rw [has, follows.has, follows.has]
      rfl
    dsimp only
    split
    · exact follows.tell after (fun same => same ▸ paused) fun different => by simp [holdsAfter, different]
    · rename_i foreign
      rw [refused (Bool.eq_false_iff.mpr foreign)] at after
      have same : holdsAfter sessionId holds (.release other senderId leaseId keepPaused) = holds :=
        Set.ext fun hold => (after hold).symm.trans (follows.has hold)
      rwa [same]
  | destroyed senderId => exact follows.clearSender
  | clearSession other =>
    refine ⟨fun hold => ?_, follows.settled⟩
    rw [Arbiter.getState, OrderedMap.get?_delete, if_neg fun same : sessionId = other => kept (same ▸ rfl)]
    exact follows.has hold
  | workerReads =>
    dsimp only
    split
    · exact follows
    · rename_i message rest waiting
      refine ⟨follows.has, ?_⟩
      have settled := follows.settled
      unfold Flow.settled at settled ⊢
      rwa [waiting] at settled

/-- **A terminal is paused while somebody holds the pause, and no longer**: so it is in every order of the calls and of
what the worker reads, once it has read what is on the way, as long as the session is not closed. -/
theorem pause_follows_holds (named : sessionId ≠ []) (events : List (Event S))
    (stays : .clearSession sessionId ∉ events) :
    (events.foldl Flow.step ({} : Flow S)).settled sessionId ↔
      (events.foldl (holdsAfter sessionId) ∅).Nonempty := by
  suffices follows : Follows (events.foldl Flow.step ({} : Flow S)) sessionId
      (events.foldl (holdsAfter sessionId) ∅) from follows.settled
  induction events using reverseRecOn with
  | nil =>
    exact ⟨fun hold => iff_of_false (not_has_default hold) id, iff_of_false Bool.noConfusion Set.not_nonempty_empty⟩
  | append_singleton events event ih =>
    rw [mem_append, mem_singleton, not_or] at stays
    rw [foldl_append, foldl_append]
    exact (ih stays.1).step named (Ne.symm stays.2)

/-- A window pauses, another one takes a lease, and the first is destroyed. -/
theorem pause_follows_holds_leased :
    let events : List (Event ℕ) := [.setFlowPaused (text "s") 1 true, .acquire (text "s") 2 (text "l"), .workerReads,
      .destroyed 1]
    (events.foldl Flow.step ({} : Flow ℕ)).settled (text "s") ↔ (events.foldl (holdsAfter (text "s")) ∅).Nonempty :=
  pause_follows_holds (cons_ne_nil _ _) _ (by simp)

end Netcatty.FlowPause
