import Netcatty.HostKeyConsent

/-!
What an invocation of a host verifier is answered with.

The accepted key of a verifier is the key of the last call of its callback with `true`.
-/

namespace Netcatty.HostKeys

open KnownHosts HostKeyVerification List

variable {crypto : KeyCrypto} {optionsOf : ℕ → VerifierOptions} {state : HostKeyVerification}

/-! ## The accepted key -/

/-- The key that a call of a callback accepts for this verifier. -/
def acceptedBy (invocations : List Invocation) (verifier : ℕ) (outcome : ℕ × Bool) :
    Option (List UInt8) :=
  if outcome.2 then
    (invocations[outcome.1]?).bind fun call =>
      if call.verifier = verifier then some call.key else none
  else none

def acceptedKeys (state : HostKeyVerification) (verifier : ℕ) : List (List UInt8) :=
  state.callbacks.filterMap (acceptedBy state.invocations verifier)

def Remembers (state : HostKeyVerification) : Prop :=
  ∀ verifier, state.acceptedKey verifier = (acceptedKeys state verifier).getLast?

theorem Accounted.callback_lt (accounted : Accounted crypto optionsOf state) {outcome : ℕ × Bool}
    (mem : outcome ∈ state.callbacks) : outcome.1 < state.invocations.length := by
  have counted : outcome.1 ∈ state.account :=
    mem_append_right _ (List.mem_map_of_mem (mem_append_right _ mem))
  exact mem_range.mp (accounted.everyone.mem_iff.mp counted)

theorem acceptedKeys_extend (accounted : Accounted crypto optionsOf state) (verifier : ℕ)
    {invocations : List Invocation} (more : state.invocations <+: invocations) :
    state.callbacks.filterMap (acceptedBy invocations verifier) = acceptedKeys state verifier := by
  apply filterMap_congr
  intro outcome mem
  obtain ⟨later, cut⟩ := more
  unfold acceptedBy
  rw [← cut, getElem?_append_left (accounted.callback_lt mem)]

section

variable (accounted : Accounted crypto optionsOf state) (remembers : Remembers state)

include accounted remembers

theorem Remembers.callback {next : HostKeyVerification} {i : ℕ} {accept : Bool} {call : Invocation}
    (more : state.invocations <+: next.invocations) (made : next.invocations[i]? = some call)
    (callbacks : next.callbacks = state.callbacks ++ [(i, accept)])
    (accepted : ∀ verifier, next.acceptedKey verifier =
      if accept ∧ call.verifier = verifier then some call.key
      else state.acceptedKey verifier) : Remembers next := by
  intro verifier
  have keys : acceptedKeys next verifier = acceptedKeys state verifier ++
      (acceptedBy next.invocations verifier (i, accept)).toList := by
    unfold acceptedKeys
    rw [callbacks, filterMap_append, acceptedKeys_extend accounted verifier more]
    cases taken : acceptedBy next.invocations verifier (i, accept) with
    | none =>
      rw [filterMap_cons_none taken]
      rfl
    | some key =>
      rw [filterMap_cons_some taken]
      rfl
  rw [keys, accepted]
  unfold acceptedBy
  dsimp only
  rw [made, Option.bind_some]
  cases accept with
  | false => simpa using remembers verifier
  | true =>
    by_cases own : call.verifier = verifier
    · simp [own]
    · simpa [own] using remembers verifier

theorem Remembers.quiet {next : HostKeyVerification} (more : state.invocations <+: next.invocations)
    (callbacks : next.callbacks = state.callbacks)
    (accepted : next.acceptedKey = state.acceptedKey) : Remembers next := by
  intro verifier
  unfold acceptedKeys
  rw [callbacks, acceptedKeys_extend accounted verifier more, accepted]
  exact remembers verifier

theorem Remembers.verify (verifier : ℕ) (rawKey : List UInt8) (sending : SendResult) :
    Remembers (state.verify crypto optionsOf verifier rawKey sending) := by
  have made : (state.invocations ++ [⟨verifier, rawKey⟩])[state.invocations.length]? =
      some ⟨verifier, rawKey⟩ := getElem?_concat_length
  have more : state.invocations <+: state.invocations ++ [⟨verifier, rawKey⟩] :=
    prefix_append _ _
  rcases verify_cases crypto optionsOf state verifier rawKey sending with ⟨key, _, known, same⟩ |
    ⟨_, same⟩ | ⟨_, _, same | same⟩
  · rw [same]
    refine remembers.callback accounted more made rfl fun other => ?_
    change state.acceptedKey other = _
    split
    · rename_i own
      rw [← own.2, known, of_decide_eq_true own.1]
    · rfl
  · rw [same]
    refine remembers.callback accounted more made rfl fun other => ?_
    change Function.update state.acceptedKey verifier (some rawKey) other = _
    by_cases own : other = verifier
    · subst own
      simp
    · have different : ¬ verifier = other := fun same => own same.symm
      simp [own, different]
  · rw [same]
    exact remembers.callback accounted more made rfl fun _ => rfl
  · rw [same]
    rcases request_cases accounted verifier rawKey (decisionFor crypto optionsOf verifier rawKey)
      sending with ⟨next, put, invocations, _, _, _, _, _, callbacks, accepted⟩ |
        ⟨pending, prompt, put, _⟩
    · rw [put]
      exact remembers.quiet accounted (invocations ▸ more) callbacks accepted
    · rw [put]
      exact remembers.quiet accounted more rfl rfl

theorem Remembers.settle
    (requestId : ℕ) (accept : Bool) : Remembers (state.settleRequest requestId accept) :=
  remembers.quiet accounted (invocations_settle state requestId accept ▸ prefix_rfl)
    (callbacks_settle state requestId accept) (acceptedKey_settle state requestId accept)

theorem Remembers.takeUp : Remembers state.takeUp := by
  rcases takeUp_cases accounted with ⟨_, same⟩ | ⟨i, accept, settled, call, _, made, same⟩
  · rwa [same]
  · rw [same]
    refine remembers.callback accounted prefix_rfl made rfl fun verifier => ?_
    dsimp only
    cases accept with
    | false => rfl
    | true =>
      by_cases own : verifier = call.verifier
      · subst own
        simp
      · have different : ¬ call.verifier = verifier := fun same => own same.symm
        simp [own, different]

theorem Remembers.step
    (action : VerifierAction) : Remembers (state.step crypto optionsOf action) := by
  refine (step_induction (P := fun next => Accounted crypto optionsOf next ∧ Remembers next) action
    ⟨accounted, remembers⟩ (fun verifier key sending _ => ?_) (fun requestId _ accept _ _ => ?_)
    (fun _ requestId held => ?_) ?_).2
  · exact ⟨accounted.verify verifier key sending, remembers.verify accounted verifier key sending⟩
  · exact ⟨accounted.settle requestId accept, remembers.settle accounted requestId accept⟩
  · exact ⟨held.1.settle requestId false, held.2.settle held.1 requestId false⟩
  · exact ⟨accounted.takeUp, remembers.takeUp accounted⟩

end

theorem remembers_run (actions : List VerifierAction) : Remembers (run crypto optionsOf actions) := by
  induction actions using List.reverseRecOn with
  | nil => exact fun _ => rfl
  | append_singleton actions action ih =>
    rw [run_concat]
    exact ih.step (accounted_run actions) action

/-! ## Runs -/

theorem outcomes_subset_run {done actions : List VerifierAction} (earlier : done <+: actions) :
    (run crypto optionsOf done).outcomes ⊆ (run crypto optionsOf actions).outcomes := by
  obtain ⟨later, cut⟩ := earlier
  subst cut
  induction later using List.reverseRecOn with
  | nil =>
    rw [append_nil]
    exact List.Subset.refl _
  | append_singleton later action ih =>
    rw [← append_assoc, run_concat]
    exact List.Subset.trans ih (outcomes_step (accounted_run _) action).kept

theorem Accounted.outcome_unique (accounted : Accounted crypto optionsOf state) {i : ℕ}
    {one two : Bool} (first : (i, one) ∈ state.outcomes) (second : (i, two) ∈ state.outcomes) :
    one = two := by
  have distinct : (state.outcomes.map (·.1)).Nodup :=
    (nodup_append.mp (accounted.everyone.nodup_iff.mpr nodup_range)).2.1
  have same := inj_on_of_nodup_map distinct first second rfl
  exact congrArg Prod.snd same

/-! ## The end of a request -/

def Ends (requestId : ℕ) (pending : PendingRequest) : VerifierAction → Prop
  | .respond senderId id _ => id = requestId ∧ senderId = some pending.webContentsId
  | .cancel sessionId => sessionId = pending.sessionId
  | .timeout id => id = requestId
  | _ => False

def Closes (requestId : ℕ) (pending : PendingRequest) : VerifierAction → Prop
  | .cancel sessionId => sessionId = pending.sessionId
  | .timeout id => id = requestId
  | _ => False

theorem foldl_settle_outcome {ids : List ℕ} {requestId : ℕ} {pending : PendingRequest}
    (mem : requestId ∈ ids) (asked : state.hostKeyRequests.get? requestId = some pending) :
    (pending.invocation, false) ∈
      (ids.foldl (fun state id => state.settleRequest id false) state).outcomes := by
  induction ids generalizing state with
  | nil => exact absurd mem not_mem_nil
  | cons id ids ih =>
    rw [foldl_cons]
    by_cases own : requestId = id
    · subst own
      have settled : (pending.invocation, false) ∈ (state.settleRequest requestId false).outcomes :=
        mem_outcomes_settle.mpr (.inr ⟨rfl, pending, asked, rfl⟩)
      clear ih mem asked
      generalize state.settleRequest requestId false = next at settled
      induction ids generalizing next with
      | nil => exact settled
      | cons id ids ih => exact ih _ (outcomes_settle_subset next id false settled)
    · refine ih ((mem_cons.mp mem).resolve_left own) ?_
      rw [get?_settle, if_neg own]
      exact asked

theorem cancel_outcome {requestId : ℕ} {pending : PendingRequest}
    (asked : state.hostKeyRequests.get? requestId = some pending) :
    (pending.invocation, false) ∈ (state.cancelRequestsForSession pending.sessionId).outcomes := by
  refine foldl_settle_outcome ?_ asked
  rw [List.mem_map]
  exact ⟨(requestId, pending), mem_filter.mpr ⟨OrderedMap.mem_entries.mpr asked, by simp⟩, rfl⟩

section

variable {requestId : ℕ} {pending : PendingRequest} {action : VerifierAction}
  (asked : state.hostKeyRequests.get? requestId = some pending)
include asked

theorem ends_outcome (ends : Ends requestId pending action) :
    ∃ accept, (pending.invocation, accept) ∈ (state.step crypto optionsOf action).outcomes := by
  cases action with
  | invoke verifier key sending => exact ends.elim
  | respond senderId id accept =>
    obtain ⟨rfl, own⟩ := ends
    refine ⟨accept, ?_⟩
    unfold HostKeyVerification.step handleResponse
    dsimp only
    rw [asked]
    dsimp only
    rw [if_pos own]
    exact mem_outcomes_settle.mpr (.inr ⟨rfl, pending, asked, rfl⟩)
  | cancel sessionId =>
    obtain rfl : sessionId = pending.sessionId := ends
    exact ⟨false, cancel_outcome asked⟩
  | timeout id =>
    obtain rfl : id = requestId := ends
    exact ⟨false, mem_outcomes_settle.mpr (.inr ⟨rfl, pending, asked, rfl⟩)⟩
  | takeUp => exact ends.elim

theorem closes_outcome (closes : Closes requestId pending action) :
    (pending.invocation, false) ∈ (state.step crypto optionsOf action).outcomes := by
  cases action with
  | invoke verifier key sending => exact closes.elim
  | respond senderId id accept => exact closes.elim
  | cancel sessionId =>
    obtain rfl : sessionId = pending.sessionId := closes
    exact cancel_outcome asked
  | timeout id =>
    obtain rfl : id = requestId := closes
    exact mem_outcomes_settle.mpr (.inr ⟨rfl, pending, asked, rfl⟩)
  | takeUp => exact closes.elim

end

/-! ## Consent -/

section Consent

variable (crypto : KeyCrypto) (optionsOf : ℕ → VerifierOptions) (actions : List VerifierAction)

/-- What lets an invocation be answered with `true`. -/
inductive Consents (i : ℕ) (call : Invocation) : Prop where
  /-- A record for the host and port has the key's fingerprint. -/
  | recorded (knownHost : KnownHost) (mem : knownHost ∈ (optionsOf call.verifier).knownHosts)
      (host : matchesHostAndPort crypto.toLowerCase knownHost (optionsOf call.verifier).hostname
        (optionsOf call.verifier).port = true)
      (fingerprint : getKnownHostFingerprint crypto knownHost =
        normalizeFingerprint (describeHostKey crypto call.key).fingerprint)
  /-- The renderer that was asked accepted the request made for this invocation and key. -/
  | accepted (done : List VerifierAction) (requestId : ℕ) (pending : PendingRequest)
      (prompt : HostKeyPrompt)
      (answer : done ++ [.respond (some pending.webContentsId) requestId true] <+: actions)
      (asked : (run crypto optionsOf done).hostKeyRequests.get? requestId = some pending)
      (own : pending.invocation = i)
      (renderer : (optionsOf call.verifier).sender = some pending.webContentsId)
      (put : prompt ∈ (run crypto optionsOf done).prompts) (id : prompt.requestId = requestId)
      (about : prompt.invocation = i) (key : prompt.keyInfo = describeHostKey crypto call.key)
  /-- The verifier accepted this key before. -/
  | remembered (done : List VerifierAction) (sending : SendResult)
      (calls : done ++ [.invoke call.verifier call.key sending] <+: actions)
      (own : (run crypto optionsOf done).invocations.length = i)
      (before : call.key ∈ acceptedKeys (run crypto optionsOf done) call.verifier)

structure VerifiesWithConsent : Prop where
  once : ∀ i, ((run crypto optionsOf actions).callbacks.map (·.1)).count i ≤ 1
  /-- Who is not asked about is answered, once the settled promises are taken up. -/
  answered : (run crypto optionsOf actions).settled = [] →
    ∀ i < (run crypto optionsOf actions).invocations.length,
      i ∉ (run crypto optionsOf actions).open_ →
      ((run crypto optionsOf actions).callbacks.map (·.1)).count i = 1
  /-- So is who was answered, cancelled or timed out. -/
  ended : (run crypto optionsOf actions).settled = [] →
    ∀ done action, done ++ [action] <+: actions → ∀ requestId pending,
      (run crypto optionsOf done).hostKeyRequests.get? requestId = some pending →
      Ends requestId pending action →
      ((run crypto optionsOf actions).callbacks.map (·.1)).count pending.invocation = 1
  consent : ∀ i call, (run crypto optionsOf actions).invocations[i]? = some call →
    (optionsOf call.verifier).verifyHostKeys = true →
    (i, true) ∈ (run crypto optionsOf actions).callbacks →
    Consents crypto optionsOf actions i call
  /-- A verifier that has accepted a key asks no more. -/
  memory : ∀ done verifier key sending, done ++ [.invoke verifier key sending] <+: actions →
    (optionsOf verifier).verifyHostKeys = true →
    ∀ last, (acceptedKeys (run crypto optionsOf done) verifier).getLast? = some last →
      let before := run crypto optionsOf done
      let after := run crypto optionsOf (done ++ [.invoke verifier key sending])
      after.prompts = before.prompts ∧ after.hostKeyRequests = before.hostKeyRequests ∧
        after.callbacks = before.callbacks ++ [(before.invocations.length, decide (last = key))]
  /-- A request that was cancelled or timed out is not accepted any more. -/
  closed : ∀ done action, done ++ [action] <+: actions → ∀ requestId pending,
    (run crypto optionsOf done).hostKeyRequests.get? requestId = some pending →
    Closes requestId pending action →
    (pending.invocation, true) ∉ (run crypto optionsOf actions).outcomes

end Consent

section Results

variable {actions : List VerifierAction}

theorem trusted_record {knownHosts : List KnownHost} {hostname : JsString} {port : ℕ}
    {keyType fingerprint : JsString}
    (trusted : (classifyHostKey crypto knownHosts hostname port keyType fingerprint).status =
      .trusted) :
    ∃ knownHost ∈ knownHosts, matchesHostAndPort crypto.toLowerCase knownHost hostname port ∧
      getKnownHostFingerprint crypto knownHost = normalizeFingerprint fingerprint := by
  unfold classifyHostKey at trusted
  dsimp only at trusted
  split at trusted
  · rename_i found same
    have mem := mem_of_find?_eq_some same
    rw [mem_filter, mem_filter] at mem
    exact ⟨found, mem.1.1, mem.1.2, by simpa using find?_some same⟩
  · split at trusted
    · cases trusted
    · split at trusted
      · cases trusted
      · cases trusted

theorem Consents.mono {i : ℕ} {call : Invocation} {later : List VerifierAction}
    (consents : Consents crypto optionsOf actions i call) (more : actions <+: later) :
    Consents crypto optionsOf later i call := by
  cases consents with
  | recorded knownHost mem host fingerprint => exact .recorded knownHost mem host fingerprint
  | accepted done requestId pending prompt answer asked own renderer put id about key =>
    exact .accepted done requestId pending prompt (answer.trans more) asked own renderer put id
      about key
  | remembered done sending calls own before =>
    exact .remembered done sending (calls.trans more) own before

/-- A call answers with `true` at once only with consent. -/
theorem consents_invoke (verifier : ℕ) (key : List UInt8) (sending : SendResult)
    (checks : (optionsOf verifier).verifyHostKeys)
    (mem : ((run crypto optionsOf actions).invocations.length, true) ∈
      ((run crypto optionsOf actions).verify crypto optionsOf verifier key sending).outcomes) :
    Consents crypto optionsOf (actions ++ [.invoke verifier key sending])
      (run crypto optionsOf actions).invocations.length ⟨verifier, key⟩ := by
  have accounted : Accounted crypto optionsOf (run crypto optionsOf actions) := accounted_run actions
  have new : ∀ accept, ((run crypto optionsOf actions).invocations.length, accept) ∉
      (run crypto optionsOf actions).outcomes := by
    intro accept old
    have below := mem_range.mp (accounted.everyone.mem_iff.mp (mem_account_of_outcome old))
    exact absurd below (lt_irrefl _)
  have called (next : HostKeyVerification) (accept : Bool)
      (same : next.outcomes = (run crypto optionsOf actions).outcomes)
      (mem : ((run crypto optionsOf actions).invocations.length, true) ∈
        (next.callback (run crypto optionsOf actions).invocations.length accept).outcomes) :
      accept = true := by
    unfold outcomes HostKeyVerification.callback at mem
    dsimp only at mem
    rw [← append_assoc, mem_append, mem_singleton, Prod.mk.injEq] at mem
    rcases mem with old | ⟨_, own⟩
    · exact absurd (same ▸ old) (new true)
    · exact own.symm
  rcases verify_cases crypto optionsOf (run crypto optionsOf actions) verifier key sending with
    ⟨known, _, accepted, same⟩ | ⟨trusts, same⟩ | ⟨_, _, same | same⟩
  · rw [same] at mem
    have equal := of_decide_eq_true (called (HostKeys.called _ verifier key) _ rfl mem)
    rw [remembers_run actions verifier, equal] at accepted
    exact .remembered actions sending prefix_rfl rfl (mem_of_getLast? accepted)
  · rcases trusts with off | ⟨_, trusted⟩
    · rw [checks] at off
      exact Bool.noConfusion off
    · obtain ⟨knownHost, held, host, fingerprint⟩ := trusted_record trusted
      exact .recorded knownHost held host fingerprint
  · rw [same] at mem
    exact Bool.noConfusion (called (HostKeys.called _ verifier key) _ rfl mem)
  · rw [same] at mem
    rcases request_cases accounted verifier key (decisionFor crypto optionsOf verifier key) sending
      with ⟨next, put, _, _, _, _, _, settled, callbacks, _⟩ | ⟨pending, prompt, put, _⟩
    · rw [put] at mem
      unfold outcomes at mem
      rw [settled, callbacks, mem_append, mem_append, mem_singleton] at mem
      rcases mem with (old | own) | old
      · exact absurd (mem_append_left _ old) (new true)
      · cases own
      · exact absurd (mem_append_right _ old) (new true)
    · rw [put] at mem
      exact absurd mem (new true)

theorem consents_outcomes (actions : List VerifierAction) :
    ∀ i call, (run crypto optionsOf actions).invocations[i]? = some call →
      (optionsOf call.verifier).verifyHostKeys →
      (i, true) ∈ (run crypto optionsOf actions).outcomes →
      Consents crypto optionsOf actions i call := by
  induction actions using List.reverseRecOn with
  | nil => exact fun _ _ _ _ mem => absurd mem not_mem_nil
  | append_singleton actions action ih =>
    intro i call made checks mem
    have accounted : Accounted crypto optionsOf (run crypto optionsOf actions) := accounted_run actions
    have more := invocations_step accounted action
    rw [run_concat] at made mem
    -- an invocation that was counted before is the same one now
    have earlier (counted : i < (run crypto optionsOf actions).invocations.length) :
        (run crypto optionsOf actions).invocations[i]? = some call := by
      obtain ⟨later, cut⟩ := more
      rwa [← cut, getElem?_append_left counted] at made
    rcases (outcomes_step accounted action).new i true mem with old | same |
      ⟨verifier, key, sending, same, own⟩ | ⟨requestId, pending, same, asked, own⟩
    · have counted := mem_range.mp (accounted.everyone.mem_iff.mp (mem_account_of_outcome old))
      exact (ih i call (earlier counted) checks old).mono (prefix_append _ _)
    · cases same
    · subst same own
      have called : call = ⟨verifier, key⟩ := by
        unfold HostKeyVerification.step at made
        dsimp only at made
        rw [invocations_verify accounted, getElem?_concat_length] at made
        exact (Option.some.inj made).symm
      subst called
      exact consents_invoke verifier key sending checks mem
    · subst same own
      obtain ⟨call', made', renderer, prompt, put, id, about, key⟩ :=
        accounted.asked requestId pending asked
      have counted := (List.getElem?_eq_some_iff.mp made').1
      obtain rfl := Option.some.inj (made'.symm.trans (earlier counted))
      exact .accepted actions requestId pending prompt prefix_rfl asked rfl renderer put id
        about key

/-- Every run of the host verifiers. -/
theorem verifies_with_consent (crypto : KeyCrypto) (optionsOf : ℕ → VerifierOptions)
    (actions : List VerifierAction) : VerifiesWithConsent crypto optionsOf actions := by
  have accounted : Accounted crypto optionsOf (run crypto optionsOf actions) := accounted_run actions
  have distinct := accounted.everyone.nodup_iff.mpr nodup_range
  have outcomesDistinct := (nodup_append.mp distinct).2.1
  have callbacksDistinct : ((run crypto optionsOf actions).callbacks.map (·.1)).Nodup := by
    unfold outcomes at outcomesDistinct
    rw [map_append, nodup_append] at outcomesDistinct
    exact outcomesDistinct.2.1
  have counts {i : ℕ} (mem : i ∈ (run crypto optionsOf actions).outcomes.map (·.1))
      (takenUp : (run crypto optionsOf actions).settled = []) :
      ((run crypto optionsOf actions).callbacks.map (·.1)).count i = 1 := by
    unfold outcomes at mem
    rw [takenUp, nil_append] at mem
    exact count_eq_one_of_mem callbacksDistinct mem
  refine ⟨fun i => nodup_iff_count_le_one.mp callbacksDistinct i,
    fun takenUp i below unasked => ?_, fun takenUp done action within requestId pending asked ends => ?_,
    fun i call made checks mem => ?_, fun done verifier key sending _ checks last known => ?_,
    fun done action within requestId pending asked closes => ?_⟩
  · have counted := accounted.everyone.mem_iff.mpr (mem_range.mpr below)
    exact counts ((mem_append.mp counted).resolve_left unasked) takenUp
  · obtain ⟨accept, mem⟩ : ∃ accept, (pending.invocation, accept) ∈
        ((run crypto optionsOf done).step crypto optionsOf action).outcomes := ends_outcome asked ends
    rw [← run_concat] at mem
    exact counts (List.mem_map_of_mem (outcomes_subset_run within mem)) takenUp
  · exact consents_outcomes actions i call made checks (mem_append_right _ mem)
  · have accepted : (run crypto optionsOf done).acceptedKey verifier = some last :=
      (remembers_run done verifier).trans known
    dsimp only
    rw [run_concat]
    unfold HostKeyVerification.step verify
    dsimp only
    rw [checks, accepted]
    exact ⟨rfl, rfl, rfl⟩
  · have mem : (pending.invocation, false) ∈
        ((run crypto optionsOf done).step crypto optionsOf action).outcomes :=
      closes_outcome asked closes
    rw [← run_concat] at mem
    intro accepted
    exact Bool.noConfusion (accounted.outcome_unique accepted (outcomes_subset_run within mem))

end Results

end Netcatty.HostKeys
