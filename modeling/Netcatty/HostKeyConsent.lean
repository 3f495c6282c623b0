import Mathlib.Data.List.Infix
import Mathlib.Data.List.Nodup
import Netcatty.HostKeyVerifier

/-!
A host key is accepted once, and only with consent.

Every invocation is either asked about, settled and not taken up, or called back; the
invariant says that these three never share one and together miss none.
-/

namespace Netcatty.HostKeys

open KnownHosts HostKeyVerification List Option OrderedMap

variable {crypto : KeyCrypto} {optionsOf : ℕ → VerifierOptions} {state : HostKeyVerification}

namespace HostKeyVerification

/-- The invocations that a renderer is asked about. -/
def open_ (state : HostKeyVerification) : List ℕ :=
  state.hostKeyRequests.values.map (·.invocation)

def outcomes (state : HostKeyVerification) : List (ℕ × Bool) := state.settled ++ state.callbacks

/-- Where each invocation is. -/
def account (state : HostKeyVerification) : List ℕ := state.open_ ++ state.outcomes.map (·.1)

end HostKeyVerification

/-! ## Settling -/

theorem settleRequest_none {requestId : ℕ} (absent : state.hostKeyRequests.get? requestId = none)
    (accept : Bool) : state.settleRequest requestId accept = state := by
  unfold settleRequest
  rw [absent]

theorem settleRequest_some {requestId : ℕ} {pending : PendingRequest}
    (asked : state.hostKeyRequests.get? requestId = some pending) (accept : Bool) :
    state.settleRequest requestId accept =
      { state with
        hostKeyRequests := state.hostKeyRequests.delete requestId
        settled := state.settled ++ [(pending.invocation, accept)] } := by
  unfold settleRequest
  rw [asked]

section

variable (state : HostKeyVerification) (requestId : ℕ) (accept : Bool)

theorem account_settle : (state.settleRequest requestId accept).account.Perm state.account := by
  cases asked : state.hostKeyRequests.get? requestId with
  | none => rw [settleRequest_none asked]
  | some pending =>
    have values := (values_delete_perm asked).map (·.invocation)
    rw [settleRequest_some asked]
    unfold account outcomes open_
    dsimp only
    refine List.Perm.trans ?_ (values.symm.append_right _)
    simp only [map_append, map_cons, append_assoc, cons_append,
      nil_append]
    rw [← append_assoc, ← append_assoc]
    exact perm_middle

theorem invocations_settle :
    (state.settleRequest requestId accept).invocations = state.invocations := by
  cases asked : state.hostKeyRequests.get? requestId with
  | none => rw [settleRequest_none asked]
  | some pending => rw [settleRequest_some asked]

theorem callbacks_settle : (state.settleRequest requestId accept).callbacks = state.callbacks := by
  cases asked : state.hostKeyRequests.get? requestId with
  | none => rw [settleRequest_none asked]
  | some pending => rw [settleRequest_some asked]

theorem acceptedKey_settle :
    (state.settleRequest requestId accept).acceptedKey = state.acceptedKey := by
  cases asked : state.hostKeyRequests.get? requestId with
  | none => rw [settleRequest_none asked]
  | some pending => rw [settleRequest_some asked]

theorem prompts_settle : (state.settleRequest requestId accept).prompts = state.prompts := by
  cases asked : state.hostKeyRequests.get? requestId with
  | none => rw [settleRequest_none asked]
  | some pending => rw [settleRequest_some asked]

theorem requestIds_settle :
    (state.settleRequest requestId accept).requestIds = state.requestIds := by
  cases asked : state.hostKeyRequests.get? requestId with
  | none => rw [settleRequest_none asked]
  | some pending => rw [settleRequest_some asked]

end

theorem mem_outcomes_settle {requestId i : ℕ} {accept answer : Bool} :
    (i, answer) ∈ (state.settleRequest requestId accept).outcomes ↔
      (i, answer) ∈ state.outcomes ∨ answer = accept ∧
        ∃ pending, state.hostKeyRequests.get? requestId = some pending ∧ pending.invocation = i := by
  cases asked : state.hostKeyRequests.get? requestId with
  | none => simp [settleRequest_none asked]
  | some pending =>
    rw [settleRequest_some asked]
    unfold outcomes
    simp only [mem_append, mem_singleton, Prod.mk.injEq, Option.some.injEq]
    constructor
    · rintro ((old | ⟨own, same⟩) | called)
      · exact .inl (.inl old)
      · exact .inr ⟨same, pending, rfl, own.symm⟩
      · exact .inl (.inr called)
    · rintro ((old | called) | ⟨same, _, rfl, own⟩)
      · exact .inl (.inl old)
      · exact .inr called
      · exact .inl (.inr ⟨own.symm, same⟩)

theorem get?_settle (state : HostKeyVerification) (requestId : ℕ) (accept : Bool) (other : ℕ) :
    (state.settleRequest requestId accept).hostKeyRequests.get? other =
      if other = requestId then none else state.hostKeyRequests.get? other := by
  cases asked : state.hostKeyRequests.get? requestId with
  | none =>
    rw [settleRequest_none asked]
    split
    · rename_i same
      rw [same, asked]
    · rfl
  | some pending =>
    rw [settleRequest_some asked]
    exact get?_delete _ _ _

/-! ## The invariant -/

/-- What holds of every reachable state. -/
structure Accounted (crypto : KeyCrypto) (optionsOf : ℕ → VerifierOptions)
    (state : HostKeyVerification) : Prop where
  everyone : state.account.Perm (List.range state.invocations.length)
  ids : ∀ requestId pending, state.hostKeyRequests.get? requestId = some pending →
    requestId < state.requestIds
  /-- A request was put to the verifier's renderer, with the key of its invocation. -/
  asked : ∀ requestId pending, state.hostKeyRequests.get? requestId = some pending →
    ∃ call, state.invocations[pending.invocation]? = some call ∧
      (optionsOf call.verifier).sender = some pending.webContentsId ∧
      ∃ prompt ∈ state.prompts, prompt.requestId = requestId ∧
        prompt.invocation = pending.invocation ∧ prompt.keyInfo = describeHostKey crypto call.key

theorem accounted_start : Accounted crypto optionsOf HostKeyVerification.start :=
  ⟨List.Perm.refl _, fun _ _ asked => absurd asked (some_ne_none _).symm,
    fun _ _ asked => absurd asked (some_ne_none _).symm⟩

theorem Accounted.settle (accounted : Accounted crypto optionsOf state) (requestId : ℕ)
    (accept : Bool) : Accounted crypto optionsOf (state.settleRequest requestId accept) := by
  have before : ∀ other pending,
      (state.settleRequest requestId accept).hostKeyRequests.get? other = some pending →
      state.hostKeyRequests.get? other = some pending := by
    intro other pending asked
    rw [get?_settle] at asked
    split at asked
    · cases asked
    · exact asked
  refine ⟨?_, fun other pending asked => ?_, fun other pending asked => ?_⟩
  · rw [invocations_settle]
    exact (account_settle state requestId accept).trans accounted.everyone
  · rw [requestIds_settle]
    exact accounted.ids other pending (before other pending asked)
  · rw [invocations_settle, prompts_settle]
    exact accounted.asked other pending (before other pending asked)

theorem cancel_induction {P : HostKeyVerification → Prop} (sessionId : Option JsString)
    (start : P state) (settle : ∀ state requestId, P state → P (state.settleRequest requestId false)) :
    P (state.cancelRequestsForSession sessionId) := by
  unfold cancelRequestsForSession
  generalize (state.hostKeyRequests.entries.filter fun entry =>
    entry.2.sessionId = sessionId).map (·.1) = ids
  induction ids generalizing state with
  | nil => exact start
  | cons requestId ids ih => exact ih (settle state requestId start)

theorem getElem?_of_mem_account (accounted : Accounted crypto optionsOf state) {i : ℕ}
    (mem : i ∈ state.account) : ∃ call, state.invocations[i]? = some call := by
  have below := mem_range.mp (accounted.everyone.mem_iff.mp mem)
  exact ⟨state.invocations[i], getElem?_eq_getElem below⟩

theorem mem_account_of_outcome {i : ℕ} {accept : Bool} (mem : (i, accept) ∈ state.outcomes) :
    i ∈ state.account :=
  mem_append_right _ (List.mem_map.mpr ⟨_, mem, rfl⟩)

/-! ## A call of a verifier -/

section Verify

variable (crypto optionsOf state) (verifier : ℕ) (rawKey : List UInt8) (sending : SendResult)

/-- The state in which a call has been counted. -/
def called : HostKeyVerification :=
  { state with invocations := state.invocations ++ [⟨verifier, rawKey⟩] }

/-- What a verifier decides without asking. -/
def decisionFor : Decision :=
  classifyHostKey crypto (optionsOf verifier).knownHosts (optionsOf verifier).hostname
    (optionsOf verifier).port (describeHostKey crypto rawKey).keyType
    (describeHostKey crypto rawKey).fingerprint

/-- A call compares with the key it has accepted, accepts, refuses, or asks. -/
theorem verify_cases : (∃ acceptedKey, (optionsOf verifier).verifyHostKeys ∧
      state.acceptedKey verifier = some acceptedKey ∧
      state.verify crypto optionsOf verifier rawKey sending =
        (called state verifier rawKey).callback state.invocations.length
          (acceptedKey = rawKey)) ∨
    (((optionsOf verifier).verifyHostKeys = false ∨ state.acceptedKey verifier = none ∧
        (decisionFor crypto optionsOf verifier rawKey).status = .trusted) ∧
      state.verify crypto optionsOf verifier rawKey sending =
        ((called state verifier rawKey).noteAccepted verifier rawKey).callback
          state.invocations.length true) ∨
    ((optionsOf verifier).verifyHostKeys ∧ state.acceptedKey verifier = none ∧
      (state.verify crypto optionsOf verifier rawKey sending =
          (called state verifier rawKey).callback state.invocations.length false ∨
        state.verify crypto optionsOf verifier rawKey sending =
          (called state verifier rawKey).requestHostKeyVerification state.invocations.length
            (optionsOf verifier) (describeHostKey crypto rawKey)
            (decisionFor crypto optionsOf verifier rawKey) sending)) := by
  unfold verify
  dsimp only
  cases checks : (optionsOf verifier).verifyHostKeys with
  | false =>
    right; left
    exact ⟨.inl rfl, rfl⟩
  | true =>
    cases remembered : state.acceptedKey verifier with
    | some acceptedKey =>
      left
      exact ⟨acceptedKey, rfl, rfl, rfl⟩
    | none =>
      by_cases trusted : (decisionFor crypto optionsOf verifier rawKey).status = .trusted
      · right; left
        exact ⟨.inr ⟨rfl, trusted⟩, if_pos trusted⟩
      · right; right
        refine ⟨rfl, rfl, ?_⟩
        cases alone : (optionsOf verifier).unattended with
        | true =>
          left
          exact if_neg trusted
        | false =>
          right
          exact if_neg trusted

end Verify

/-- The state in which a request has been put to a renderer. -/
def ask (state : HostKeyVerification) (pending : PendingRequest) (prompt : HostKeyPrompt) :
    HostKeyVerification :=
  { state with
    requestIds := state.requestIds + 1
    hostKeyRequests := state.hostKeyRequests.set state.requestIds pending
    prompts := state.prompts ++ [prompt] }

theorem account_callback (state : HostKeyVerification) (i : ℕ) (accept : Bool) :
    (state.callback i accept).account = state.account ++ [i] := by
  unfold account outcomes callback open_
  simp only [map_append, map_cons, map_nil, append_assoc]

theorem account_settled (state : HostKeyVerification) (i : ℕ) (accept : Bool) :
    ({ state with settled := state.settled ++ [(i, accept)] } : HostKeyVerification).account.Perm
      (state.account ++ [i]) := by
  unfold account outcomes open_
  simp only [map_append, map_cons, map_nil, append_assoc]
  apply List.Perm.append_left
  apply List.Perm.append_left
  exact perm_append_comm

section

variable (accounted : Accounted crypto optionsOf state)

include accounted

section

variable {next : HostKeyVerification} {call : Invocation}
  (invocations : next.invocations = state.invocations ++ [call])
include invocations

theorem Accounted.everyone_called
    (account : next.account.Perm (state.account ++ [state.invocations.length])) :
    next.account.Perm (List.range next.invocations.length) := by
  rw [invocations, length_append, length_singleton, range_succ]
  exact account.trans (accounted.everyone.append_right _)

omit invocations in
theorem Accounted.asked_called
    {invocations : List Invocation} {prompts : List HostKeyPrompt} {call : Invocation}
    (more : invocations = state.invocations ++ [call]) (kept : state.prompts ⊆ prompts)
    {requestId : ℕ} {pending : PendingRequest}
    (found : state.hostKeyRequests.get? requestId = some pending) :
    ∃ call, invocations[pending.invocation]? = some call ∧
      (optionsOf call.verifier).sender = some pending.webContentsId ∧
      ∃ prompt ∈ prompts, prompt.requestId = requestId ∧
        prompt.invocation = pending.invocation ∧
        prompt.keyInfo = describeHostKey crypto call.key := by
  obtain ⟨call, made, sender, prompt, mem, facts⟩ := accounted.asked requestId pending found
  have below := (List.getElem?_eq_some_iff.mp made).1
  refine ⟨call, ?_, sender, prompt, kept mem, facts⟩
  rw [more, getElem?_append_left below, made]

/-- A call that is settled or answered at once. -/
theorem Accounted.answered
    (requests : ∀ requestId pending, next.hostKeyRequests.get? requestId = some pending →
      state.hostKeyRequests.get? requestId = some pending)
    (requestIds : state.requestIds ≤ next.requestIds) (prompts : next.prompts = state.prompts)
    (account : next.account.Perm (state.account ++ [state.invocations.length])) :
    Accounted crypto optionsOf next := by
  refine ⟨accounted.everyone_called invocations account, fun requestId pending asked => ?_,
    fun requestId pending asked => ?_⟩
  · exact (accounted.ids requestId pending (requests _ _ asked)).trans_le requestIds
  · exact accounted.asked_called invocations (prompts ▸ List.Subset.refl _) (requests _ _ asked)

end

theorem Accounted.fresh : state.hostKeyRequests.get? state.requestIds = none := by
  cases asked : state.hostKeyRequests.get? state.requestIds with
  | none => rfl
  | some pending => exact absurd (accounted.ids _ pending asked) (lt_irrefl _)

theorem Accounted.putTo (verifier : ℕ)
    (rawKey : List UInt8) {pending : PendingRequest} {prompt : HostKeyPrompt}
    (own : pending.invocation = state.invocations.length)
    (sender : (optionsOf verifier).sender = some pending.webContentsId)
    (id : prompt.requestId = state.requestIds) (about : prompt.invocation = pending.invocation)
    (key : prompt.keyInfo = describeHostKey crypto rawKey) :
    Accounted crypto optionsOf (ask (called state verifier rawKey) pending prompt) := by
  have fresh := accounted.fresh
  have values : (ask (called state verifier rawKey) pending prompt).open_ =
      state.open_ ++ [pending.invocation] := by
    unfold open_ ask called
    dsimp only
    rw [values_set_of_get? fresh, map_append, map_singleton]
  refine ⟨accounted.everyone_called rfl ?_, fun requestId other asked => ?_,
    fun requestId other asked => ?_⟩
  · unfold account
    rw [values, own, append_assoc, append_assoc]
    exact perm_append_comm.append_left _
  · have held : (state.hostKeyRequests.set state.requestIds pending).get? requestId = some other :=
      asked
    rw [OrderedMap.get?_set] at held
    change requestId < state.requestIds + 1
    split at held
    · omega
    · have below := accounted.ids requestId other held
      omega
  · have held : (state.hostKeyRequests.set state.requestIds pending).get? requestId = some other :=
      asked
    rw [OrderedMap.get?_set] at held
    split at held
    · rename_i same
      obtain rfl := Option.some.inj held
      refine ⟨⟨verifier, rawKey⟩, ?_, sender, prompt, mem_append_right _
        (mem_singleton_self _), id.trans same.symm, about, key⟩
      rw [own]
      exact getElem?_concat_length
    · exact accounted.asked_called rfl (subset_append_left _ _) held

theorem request_cases (verifier : ℕ)
    (rawKey : List UInt8) (decision : Decision) (sending : SendResult) :
    (∃ next, (called state verifier rawKey).requestHostKeyVerification state.invocations.length
        (optionsOf verifier) (describeHostKey crypto rawKey) decision sending = next ∧
      next.invocations = state.invocations ++ [⟨verifier, rawKey⟩] ∧
      (∀ requestId pending, next.hostKeyRequests.get? requestId = some pending →
        state.hostKeyRequests.get? requestId = some pending) ∧
      state.requestIds ≤ next.requestIds ∧ next.prompts = state.prompts ∧
      next.open_.Perm state.open_ ∧
      next.settled = state.settled ++ [(state.invocations.length, false)] ∧
      next.callbacks = state.callbacks ∧ next.acceptedKey = state.acceptedKey) ∨
    ∃ pending prompt, (called state verifier rawKey).requestHostKeyVerification
        state.invocations.length (optionsOf verifier) (describeHostKey crypto rawKey) decision
        sending = ask (called state verifier rawKey) pending prompt ∧
      pending.invocation = state.invocations.length ∧
      (optionsOf verifier).sender = some pending.webContentsId ∧
      prompt.requestId = state.requestIds ∧ prompt.invocation = pending.invocation ∧
      prompt.keyInfo = describeHostKey crypto rawKey := by
  unfold requestHostKeyVerification
  cases sender : (optionsOf verifier).sender with
  | none =>
    left
    exact ⟨_, rfl, rfl, fun _ _ asked => asked, le_rfl, rfl, List.Perm.refl _, rfl, rfl, rfl⟩
  | some webContentsId =>
    dsimp only
    by_cases gone : sending = .destroyed
    · left
      rw [if_pos gone]
      exact ⟨_, rfl, rfl, fun _ _ asked => asked, le_rfl, rfl, List.Perm.refl _, rfl, rfl, rfl⟩
    · rw [if_neg gone]
      by_cases throws : sending = .throws
      · left
        rw [if_pos throws]
        have fresh := accounted.fresh
        have found : (state.hostKeyRequests.set state.requestIds ⟨state.invocations.length,
            webContentsId, (optionsOf verifier).sessionId⟩).get? state.requestIds =
              some ⟨state.invocations.length, webContentsId, (optionsOf verifier).sessionId⟩ := by
          rw [OrderedMap.get?_set, if_pos rfl]
        refine ⟨_, settleRequest_some found false, rfl, fun requestId other asked => ?_,
          Nat.le_succ _, rfl, ?_, rfl, rfl, rfl⟩
        · have held : ((state.hostKeyRequests.set state.requestIds ⟨state.invocations.length,
              webContentsId, (optionsOf verifier).sessionId⟩).delete state.requestIds).get?
                requestId = some other := asked
          rw [get?_delete] at held
          split at held
          · cases held
          · rename_i different
            rwa [OrderedMap.get?_set, if_neg different] at held
        · have values := values_delete_perm found
          rw [values_set_of_get? fresh] at values
          have same := (perm_append_comm.trans values).cons_inv
          exact (same.map (·.invocation)).symm
      · right
        rw [if_neg throws]
        exact ⟨_, _, rfl, rfl, rfl, rfl, rfl, rfl⟩

end

theorem account_of_parts {next : HostKeyVerification} {i : ℕ} {accept : Bool}
    (opened : next.open_.Perm state.open_) (settled : next.settled = state.settled ++ [(i, accept)])
    (callbacks : next.callbacks = state.callbacks) :
    next.account.Perm (state.account ++ [i]) := by
  refine List.Perm.trans ?_ (account_settled state i accept)
  unfold account outcomes
  rw [settled, callbacks]
  exact opened.append_right _

section

variable (accounted : Accounted crypto optionsOf state)

include accounted

theorem Accounted.verify (verifier : ℕ) (rawKey : List UInt8) (sending : SendResult) :
    Accounted crypto optionsOf (state.verify crypto optionsOf verifier rawKey sending) := by
  have answered (next : HostKeyVerification) (accept : Bool)
      (invocations : next.invocations = state.invocations ++ [⟨verifier, rawKey⟩])
      (requests : next.hostKeyRequests = state.hostKeyRequests)
      (requestIds : next.requestIds = state.requestIds) (prompts : next.prompts = state.prompts)
      (settled : next.settled = state.settled) (callbacks : next.callbacks = state.callbacks) :
      Accounted crypto optionsOf (next.callback state.invocations.length accept) := by
    refine accounted.answered invocations (fun _ _ asked => requests ▸ asked) requestIds.ge prompts ?_
    rw [account_callback]
    unfold account outcomes open_
    rw [requests, settled, callbacks]
  rcases verify_cases crypto optionsOf state verifier rawKey sending with ⟨_, _, _, same⟩ |
    ⟨_, same⟩ | ⟨_, _, same | same⟩
  · rw [same]
    exact answered _ _ rfl rfl rfl rfl rfl rfl
  · rw [same]
    exact answered _ _ rfl rfl rfl rfl rfl rfl
  · rw [same]
    exact answered _ _ rfl rfl rfl rfl rfl rfl
  · rw [same]
    rcases request_cases accounted verifier rawKey (decisionFor crypto optionsOf verifier rawKey)
      sending with ⟨next, put, invocations, requests, requestIds, prompts, opened, settled,
        callbacks, _⟩ | ⟨pending, prompt, put, own, sender, id, about, key⟩
    · rw [put]
      exact accounted.answered invocations requests requestIds prompts
        (account_of_parts opened settled callbacks)
    · rw [put]
      exact accounted.putTo verifier rawKey own sender id about key

/-! ## Taking up -/

theorem takeUp_cases : (state.settled = [] ∧ state.takeUp = state) ∨
    ∃ i accept settled call, state.settled = (i, accept) :: settled ∧
      state.invocations[i]? = some call ∧
      state.takeUp = { state with
        settled, callbacks := state.callbacks ++ [(i, accept)],
        acceptedKey := if accept then Function.update state.acceptedKey call.verifier (some call.key)
          else state.acceptedKey } := by
  unfold takeUp
  cases waiting : state.settled with
  | nil => exact .inl ⟨rfl, rfl⟩
  | cons first settled =>
    right
    obtain ⟨i, accept⟩ := first
    have mem : (i, accept) ∈ state.outcomes := by
      unfold outcomes
      rw [waiting]
      exact mem_cons_self
    obtain ⟨call, made⟩ := getElem?_of_mem_account accounted (mem_account_of_outcome mem)
    refine ⟨i, accept, settled, call, rfl, made, ?_⟩
    dsimp only
    rw [made]
    cases accept with
    | true => rfl
    | false => rfl

theorem outcomes_takeUp_perm : state.takeUp.outcomes.Perm state.outcomes := by
  rcases takeUp_cases accounted with ⟨_, same⟩ | ⟨i, accept, settled, call, waiting, _, same⟩
  · rw [same]
  · rw [same]
    unfold outcomes
    rw [waiting]
    dsimp only
    rw [← append_assoc]
    exact perm_append_comm

theorem Accounted.takeUp : Accounted crypto optionsOf state.takeUp := by
  have outcomes := (outcomes_takeUp_perm accounted).map (·.1)
  rcases takeUp_cases accounted with ⟨_, same⟩ | ⟨i, accept, settled, call, _, _, same⟩
  · rwa [same]
  · refine ⟨?_, ?_, ?_⟩
    · have account : state.takeUp.account.Perm state.account := by
        unfold account
        refine List.Perm.append ?_ outcomes
        rw [same]
        exact List.Perm.refl _
      refine account.trans (accounted.everyone.trans ?_)
      rw [same]
    · rw [same]
      exact accounted.ids
    · rw [same]
      exact accounted.asked

end

theorem handleResponse_cases (state : HostKeyVerification) (senderId : Option ℕ) (requestId : ℕ)
    (accept : Bool) :
    state.handleResponse senderId requestId accept = state ∨
    ∃ pending, state.hostKeyRequests.get? requestId = some pending ∧
      senderId = some pending.webContentsId ∧
      state.handleResponse senderId requestId accept = state.settleRequest requestId accept := by
  unfold handleResponse
  cases asked : state.hostKeyRequests.get? requestId with
  | none => exact .inl rfl
  | some pending =>
    by_cases own : senderId = some pending.webContentsId
    · exact .inr ⟨pending, rfl, own, if_pos own⟩
    · exact .inl (if_neg own)

theorem step_induction {P : HostKeyVerification → Prop} (action : VerifierAction) (start : P state)
    (invoke : ∀ verifier key sending, action = .invoke verifier key sending →
      P (state.verify crypto optionsOf verifier key sending))
    (respond : ∀ requestId pending accept,
      action = .respond (some pending.webContentsId) requestId accept →
      state.hostKeyRequests.get? requestId = some pending → P (state.settleRequest requestId accept))
    (reject : ∀ next requestId, P next → P (next.settleRequest requestId false))
    (takeUp : P state.takeUp) : P (state.step crypto optionsOf action) := by
  cases action with
  | invoke verifier key sending => exact invoke verifier key sending rfl
  | respond senderId requestId accept =>
    unfold HostKeyVerification.step
    dsimp only
    rcases handleResponse_cases state senderId requestId accept with same |
      ⟨pending, asked, sender, same⟩
    · rwa [same]
    · rw [same]
      exact respond requestId pending accept (sender ▸ rfl) asked
  | cancel sessionId => exact cancel_induction sessionId start reject
  | timeout requestId => exact reject state requestId start
  | takeUp => exact takeUp

section

variable (accounted : Accounted crypto optionsOf state)
include accounted

theorem Accounted.step (action : VerifierAction) :
    Accounted crypto optionsOf (state.step crypto optionsOf action) :=
  step_induction action accounted (fun verifier key sending _ => accounted.verify verifier key sending)
    (fun requestId _ accept _ _ => accounted.settle requestId accept)
    (fun _ requestId kept => kept.settle requestId false) accounted.takeUp

omit accounted in
theorem run_concat (actions : List VerifierAction) (action : VerifierAction) :
    run crypto optionsOf (actions ++ [action]) =
      (run crypto optionsOf actions).step crypto optionsOf action := by
  unfold run
  rw [foldl_append]
  rfl

omit accounted in
theorem accounted_run (actions : List VerifierAction) :
    Accounted crypto optionsOf (run crypto optionsOf actions) := by
  induction actions using List.reverseRecOn with
  | nil => exact accounted_start
  | append_singleton actions action ih =>
    rw [run_concat]
    exact ih.step action

/-! ## What a step keeps -/

theorem invocations_verify (verifier : ℕ) (rawKey : List UInt8) (sending : SendResult) :
    (state.verify crypto optionsOf verifier rawKey sending).invocations =
      state.invocations ++ [⟨verifier, rawKey⟩] := by
  rcases verify_cases crypto optionsOf state verifier rawKey sending with ⟨_, _, _, same⟩ |
    ⟨_, same⟩ | ⟨_, _, same | same⟩
  · rw [same]
    rfl
  · rw [same]
    rfl
  · rw [same]
    rfl
  · rw [same]
    rcases request_cases accounted verifier rawKey (decisionFor crypto optionsOf verifier rawKey)
      sending with ⟨next, put, invocations, _⟩ | ⟨pending, prompt, put, _⟩
    · rw [put, invocations]
    · rw [put]
      rfl

theorem invocations_step (action : VerifierAction) :
    state.invocations <+: (state.step crypto optionsOf action).invocations := by
  refine step_induction (P := fun next => state.invocations <+: next.invocations) action prefix_rfl
    (fun verifier key sending _ => ?_) (fun requestId _ accept _ _ => ?_)
    (fun next requestId kept => ?_) ?_
  · rw [invocations_verify accounted]
    exact prefix_append _ _
  · rw [invocations_settle]
  · rwa [invocations_settle]
  · rcases takeUp_cases accounted with ⟨_, same⟩ | ⟨_, _, _, _, _, _, same⟩
    · rw [same]
    · rw [same]

omit accounted in
theorem outcomes_settle_subset (state : HostKeyVerification) (requestId : ℕ) (accept : Bool) :
    state.outcomes ⊆ (state.settleRequest requestId accept).outcomes := fun outcome mem => by
  obtain ⟨i, answer⟩ := outcome
  exact mem_outcomes_settle.mpr (.inl mem)

theorem outcomes_verify (verifier : ℕ) (key : List UInt8) (sending : SendResult) :
    ∃ answers : List Bool, ∀ i answer,
      (i, answer) ∈ (state.verify crypto optionsOf verifier key sending).outcomes ↔
        (i, answer) ∈ state.outcomes ∨ i = state.invocations.length ∧ answer ∈ answers := by
  have called (next : HostKeyVerification) (accept : Bool) (same : next.outcomes = state.outcomes)
      (i : ℕ) (answer : Bool) :
      (i, answer) ∈ (next.callback state.invocations.length accept).outcomes ↔
        (i, answer) ∈ state.outcomes ∨ i = state.invocations.length ∧ answer ∈ [accept] := by
    rw [← same]
    unfold HostKeyVerification.outcomes callback
    rw [← append_assoc, mem_append, mem_singleton, mem_singleton, Prod.mk.injEq]
  rcases verify_cases crypto optionsOf state verifier key sending with ⟨_, _, _, same⟩ |
    ⟨_, same⟩ | ⟨_, _, same | same⟩
  · rw [same]
    exact ⟨_, called _ _ rfl⟩
  · rw [same]
    exact ⟨_, called _ _ rfl⟩
  · rw [same]
    exact ⟨_, called _ _ rfl⟩
  · rw [same]
    rcases request_cases accounted verifier key (decisionFor crypto optionsOf verifier key)
      sending with ⟨next, put, _, _, _, _, _, settled, callbacks, _⟩ | ⟨pending, prompt, put, _⟩
    · rw [put]
      refine ⟨[false], fun i answer => ?_⟩
      unfold outcomes
      rw [settled, callbacks]
      simp only [mem_append, mem_singleton, Prod.mk.injEq]
      exact or_right_comm
    · rw [put]
      exact ⟨[], fun i answer => (or_iff_left (not_mem_nil <| And.right ·)).symm⟩

/-- The outcomes after an action; a new one comes from a call, an answer or the end of a
request. -/
structure Answering (state : HostKeyVerification) (action : VerifierAction)
    (next : HostKeyVerification) : Prop where
  kept : state.outcomes ⊆ next.outcomes
  new : ∀ i answer, (i, answer) ∈ next.outcomes → (i, answer) ∈ state.outcomes ∨ answer = false ∨
    (∃ verifier key sending, action = .invoke verifier key sending ∧
      i = state.invocations.length) ∨
    ∃ requestId pending, action = .respond (some pending.webContentsId) requestId true ∧
      state.hostKeyRequests.get? requestId = some pending ∧ pending.invocation = i

theorem outcomes_step (action : VerifierAction) :
    Answering state action (state.step crypto optionsOf action) := by
  refine step_induction action ⟨List.Subset.refl _, fun _ _ => .inl⟩
    (fun verifier key sending called => ?_) (fun requestId pending accept responds asked => ?_)
    (fun next requestId held => ?_) ?_
  · obtain ⟨answers, outcomes⟩ := outcomes_verify accounted verifier key sending
    refine ⟨fun _ mem => (outcomes _ _).mpr (.inl mem), fun i answer mem => ?_⟩
    exact ((outcomes i answer).mp mem).imp_right fun own =>
      .inr (.inl ⟨verifier, key, sending, called, own.1⟩)
  · refine ⟨outcomes_settle_subset state requestId accept, fun i answer mem => ?_⟩
    rcases mem_outcomes_settle.mp mem with old | ⟨rfl, pending', asked', own⟩
    · exact .inl old
    · cases answer with
      | false => exact .inr (.inl rfl)
      | true =>
        obtain rfl := Option.some.inj (asked.symm.trans asked')
        exact .inr (.inr (.inr ⟨requestId, pending, responds, asked, own⟩))
  · refine ⟨List.Subset.trans held.kept (outcomes_settle_subset next requestId false),
      fun i answer mem => ?_⟩
    rcases mem_outcomes_settle.mp mem with old | ⟨same, _⟩
    · exact held.new i answer old
    · exact .inr (.inl same)
  · have perm := outcomes_takeUp_perm accounted
    exact ⟨fun _ mem => perm.mem_iff.mpr mem, fun _ _ mem => .inl (perm.mem_iff.mp mem)⟩

end

end Netcatty.HostKeys
