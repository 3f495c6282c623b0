import Netcatty.ToolPairing

/-!
The repaired messages answer every call once, and are tidy exactly when the messages
answer their calls in place.
-/

namespace Netcatty.AgentContext

open Pairing List

namespace Repair

/-! ## The calls of a message -/

theorem called_preserves (P : Repair → Prop) (step : ∀ repair id, P repair → P (Repair.called repair id))
    (list : List AssistantPart) (repair : Repair) (held : P repair) :
    P (list.foldl noteCall repair) := by
  induction list generalizing repair with
  | nil => exact held
  | cons part list ih =>
    apply ih
    cases call : part.call? with
    | none => rwa [noteCall_of_none repair call]
    | some id =>
      rw [noteCall_of_call repair call]
      exact step repair id held

theorem Ordered.noteCalls {repair : Repair} (ordered : repair.Ordered)
    (list : List AssistantPart) : (list.foldl noteCall repair).Ordered :=
  called_preserves Ordered (fun _ id held => held.called id) list repair ordered

variable (list : List AssistantPart) (repair : Repair)

theorem matched_noteCalls : (list.foldl noteCall repair).matchedCalls = repair.matchedCalls :=
  called_preserves (fun now => now.matchedCalls = repair.matchedCalls) (fun _ _ held => held) list
    repair rfl

theorem calls_noteCalls : (list.foldl noteCall repair).calls =
      repair.calls + (list.filterMap AssistantPart.call?).length := by
  induction list generalizing repair with
  | nil => rfl
  | cons part list ih =>
    rw [foldl_cons, ih]
    cases call : part.call? with
    | none => rw [noteCall_of_none repair call, filterMap_cons, call]
    | some id =>
      rw [noteCall_of_call repair call, filterMap_cons, call]
      simp only [called, length_cons]
      omega

theorem older_noteCalls {id : JsString} {call : ℕ} (old : call < repair.calls) :
    call ∈ (list.foldl noteCall repair).pending id ↔ call ∈ repair.pending id := by
  have both := called_preserves
    (fun now => repair.calls ≤ now.calls ∧ (call ∈ now.pending id ↔ call ∈ repair.pending id))
    (fun now other held => by
      refine ⟨Nat.le_succ_of_le held.1, ?_⟩
      rw [mem_pending_called, ← held.2]
      refine ⟨fun either => either.resolve_right ?_, .inl⟩
      intro same
      omega) list repair ⟨le_rfl, Iff.rfl⟩
  exact both.2

theorem Tracks.noteCalls {repair : Repair} {bound : ℕ} {unanswered : Unanswered}
    (tracks : repair.Tracks bound unanswered) (enough : bound ≤ repair.calls)
    (list : List AssistantPart) : (list.foldl noteCall repair).Tracks bound
      ⟨unanswered.older, unanswered.latest ++ list.filterMap AssistantPart.call?⟩ := by
  induction list generalizing repair unanswered with
  | nil => simpa using tracks
  | cons part list ih =>
    rw [foldl_cons, filterMap_cons]
    cases call : part.call? with
    | none =>
      rw [noteCall_of_none repair call]
      exact ih tracks enough
    | some id =>
      rw [noteCall_of_call repair call]
      have later := ih (tracks.called enough id) (Nat.le_succ_of_le enough)
      simpa using later

theorem calls_called (id : JsString) : (repair.called id).calls = repair.calls + 1 := rfl

variable (final : List ℕ)

theorem promised_noteCalls (id : JsString) : (list.foldl noteCall repair).promised final id +
        ((missingResults final repair.calls list).map ToolResultPart.toolCallId).count id =
      repair.promised final id + (list.filterMap AssistantPart.call?).count id := by
  induction list generalizing repair with
  | nil => simp [missingResults]
  | cons part list ih =>
    rw [foldl_cons, filterMap_cons]
    cases part with
    | toolCall toolCallId toolName input =>
      rw [noteCall_of_call repair (show AssistantPart.call? _ = some toolCallId from rfl)]
      have rest := ih (repair.called toolCallId)
      have step : (repair.called toolCallId).promised final id = repair.promised final id +
          if id = toolCallId ∧ repair.calls ∈ final then 1 else 0 := by
        unfold promised
        rw [pending_called]
        by_cases same : id = toolCallId
        · subst same
          simp
        · simp [same]
      simp only [AssistantPart.call?, missingResults]
      rw [step] at rest
      rw [calls_called] at rest
      simp only [count_cons, beq_iff_eq, eq_comm (a := toolCallId)]
      by_cases mem : repair.calls ∈ final
      · simp only [mem, and_true, if_true] at rest ⊢
        omega
      · simp only [mem, and_false, if_false, map_cons, count_cons, beq_iff_eq,
          eq_comm (a := toolCallId)] at rest ⊢
        omega
    | text _ => exact ih repair
    | attachment _ => exact ih repair
    | toolResult _ => exact ih repair
    | other _ => exact ih repair

/-! ## The second pass -/

/-- The round of the results that go behind a message. -/
def answersOf (missing : List ToolResultPart) : List (Round JsString) :=
  if missing.isEmpty then [] else [⟨missing.map ToolResultPart.toolCallId, []⟩]

theorem result_toolResults (missing : List ToolResultPart) :
    (missing.map ToolPart.toolResult).filterMap ToolPart.result? =
      missing.map ToolResultPart.toolCallId := by
  induction missing with
  | nil => rfl
  | cons result results ih => exact congrArg (result.toolCallId :: ·) ih

theorem map_insertMissing (call : ℕ) (message : ModelMessage) (messages : List ModelMessage) :
    (insertMissing final call (message :: messages)).map ModelMessage.toolRound =
      message.toolRound :: (answersOf (insertedResults final call message) ++
        (insertMissing final (call + message.calls.length) messages).map
          ModelMessage.toolRound) := by
  cases missing : insertedResults final call message with
  | nil => simp [insertMissing, missing, answersOf]
  | cons result results =>
    have own := result_toolResults (result :: results)
    simp only [map_cons] at own
    simp [insertMissing, missing, answersOf, ModelMessage.toolRound, ModelMessage.toolResults,
      ModelMessage.calls, own]

section Solid

variable (repair : Repair) (final : List ℕ) (list : List AssistantPart)
  (rest : List (Round JsString))

theorem behind_answersOf : (answersOf (missingResults final repair.calls list) = [] ∧
      Round.behind ⟨[], list.filterMap AssistantPart.call?⟩ (repair.promised final) =
        (list.foldl noteCall repair).promised final) ∨
    ∃ answers : Round JsString, answersOf (missingResults final repair.calls list) = [answers] ∧
      answers.closes ≠ [] ∧
      answers.Answers (Round.behind ⟨[], list.filterMap AssistantPart.call?⟩
        (repair.promised final)) ∧
      answers.behind (Round.behind ⟨[], list.filterMap AssistantPart.call?⟩
        (repair.promised final)) = (list.foldl noteCall repair).promised final := by
  have total := promised_noteCalls list repair final
  cases missing : missingResults final repair.calls list with
  | nil =>
    rw [missing] at total
    refine .inl ⟨rfl, funext fun id => ?_⟩
    have own := total id
    simp only [map_nil, count_nil] at own
    simp only [Round.behind, count_nil]
    omega
  | cons result results =>
    rw [missing] at total
    refine .inr ⟨_, rfl, cons_ne_nil _ _, fun id => ?_, funext fun id => ?_⟩
    · have own := total id
      simp only [Round.behind, count_nil]
      omega
    · have own := total id
      simp only [Round.behind, count_nil]
      omega

theorem tidyFrom_solid :
    TidyFrom (repair.promised final) (⟨[], list.filterMap AssistantPart.call?⟩ ::
      (answersOf (missingResults final repair.calls list) ++ rest)) ↔
    (∀ id, repair.promised final id = 0) ∧
      TidyFrom ((list.foldl noteCall repair).promised final) rest := by
  have opens : Round.Answers (⟨[], list.filterMap AssistantPart.call?⟩ : Round JsString)
      (repair.promised final) := fun _ => Nat.zero_le _
  rcases behind_answersOf repair final list with ⟨empty, behind⟩ |
    ⟨answers, one, closing, enough, behind⟩
  · rw [empty, nil_append, TidyFrom, behind]
    simp [opens]
  · rw [one, singleton_append, TidyFrom, TidyFrom, behind]
    simp [opens, closing, enough]

theorem resolvedFrom_solid :
    ResolvedFrom (repair.promised final) (⟨[], list.filterMap AssistantPart.call?⟩ ::
      (answersOf (missingResults final repair.calls list) ++ rest)) ↔
    ResolvedFrom ((list.foldl noteCall repair).promised final) rest := by
  have opens : Round.Answers (⟨[], list.filterMap AssistantPart.call?⟩ : Round JsString)
      (repair.promised final) := fun _ => Nat.zero_le _
  rcases behind_answersOf repair final list with ⟨empty, behind⟩ |
    ⟨answers, one, closing, enough, behind⟩
  · rw [empty, nil_append, ResolvedFrom, behind]
    simp [opens]
  · rw [one, singleton_append, ResolvedFrom, ResolvedFrom, behind]
    simp [opens, enough]

end Solid

/-! ## Both passes -/

variable (messages : List ModelMessage)

theorem matched_sanitize (repair : Repair) :
    repair.matchedCalls ⊆ (repair.sanitize messages).1.matchedCalls := by
  induction messages generalizing repair with
  | nil => exact List.Subset.refl _
  | cons message messages ih =>
    cases message with
    | system content => exact ih repair
    | user content => exact ih repair
    | assistant content =>
      have later := ih (content.list.foldl noteCall repair)
      rwa [matched_noteCalls] at later
    | tool content =>
      have kept := matched_filterParts content repair
      rw [sanitize]
      cases parts : (repair.filterParts content).2 with
      | nil => exact List.Subset.trans kept (ih { (repair.filterParts content).1 with didAdjust := true })
      | cons part parts => exact List.Subset.trans kept (ih (repair.filterParts content).1)

theorem matched_tool (content : List ToolPart) (messages : List ModelMessage) (repair : Repair) :
    (repair.filterParts content).1.matchedCalls ⊆
      (repair.sanitize (.tool content :: messages)).1.matchedCalls := by
  rw [sanitize]
  cases kept : (repair.filterParts content).2 with
  | nil => exact matched_sanitize messages { (repair.filterParts content).1 with didAdjust := true }
  | cons part parts => exact matched_sanitize messages (repair.filterParts content).1

/-- The rounds of the repaired messages, from some point of the first pass on. -/
def rounds (repair : Repair) (final : List ℕ) (messages : List ModelMessage) :
    List (Round JsString) :=
  (insertMissing final repair.calls (repair.sanitize messages).2).map ModelMessage.toolRound

theorem rounds_solid (message : ModelMessage) (solid : ∀ content, message ≠ .tool content) :
    ∃ list : List AssistantPart, message.calls = list.filterMap AssistantPart.call? ∧
      (repair.sanitize (message :: messages)).1 =
        ((list.foldl noteCall repair).sanitize messages).1 ∧
      repair.rounds final (message :: messages) =
        ⟨[], list.filterMap AssistantPart.call?⟩ ::
          (answersOf (missingResults final repair.calls list) ++
            (list.foldl noteCall repair).rounds final messages) := by
  cases message with
  | system content =>
    exact ⟨[], rfl, rfl, map_insertMissing final repair.calls (.system content) _⟩
  | user content =>
    exact ⟨[], rfl, rfl, map_insertMissing final repair.calls (.user content) _⟩
  | assistant content =>
    refine ⟨content.list, rfl, rfl, ?_⟩
    have cut := map_insertMissing final repair.calls (.assistant content)
      ((content.list.foldl noteCall repair).sanitize messages).2
    have calls := calls_noteCalls content.list repair
    unfold rounds
    rw [calls]
    exact cut
  | tool content => exact absurd rfl (solid content)

/-- Behind a tool message of which nothing stays. -/
def dropped (repair : Repair) : Repair := { repair with didAdjust := true }

theorem Ordered.dropped {repair : Repair} (ordered : repair.Ordered) : repair.dropped.Ordered :=
  ⟨ordered.sorted, ordered.below, ordered.apart, ordered.unmatched, ordered.known⟩

theorem rounds_dropped {content : List ToolPart} (nothing : (repair.filterParts content).2 = []) :
    (repair.sanitize (.tool content :: messages)).1 =
        ((repair.filterParts content).1.dropped.sanitize messages).1 ∧
      repair.rounds final (.tool content :: messages) =
        (repair.filterParts content).1.dropped.rounds final messages := by
  have calls := calls_filterParts content repair
  unfold rounds
  rw [sanitize, nothing]
  refine ⟨rfl, ?_⟩
  change _ = (insertMissing final (repair.filterParts content).1.calls _).map _
  rw [calls]
  rfl

theorem rounds_kept {content : List ToolPart} (some_ : (repair.filterParts content).2 ≠ []) :
    (repair.sanitize (.tool content :: messages)).1 =
        ((repair.filterParts content).1.sanitize messages).1 ∧
      repair.rounds final (.tool content :: messages) =
        ⟨(repair.filterParts content).2.filterMap ToolPart.result?, []⟩ ::
          (repair.filterParts content).1.rounds final messages := by
  have calls := calls_filterParts content repair
  unfold rounds
  rw [sanitize]
  cases kept : (repair.filterParts content).2 with
  | nil => exact absurd kept some_
  | cons part parts =>
    refine ⟨rfl, ?_⟩
    rw [calls]
    exact map_insertMissing final repair.calls (.tool (part :: parts)) _

theorem tool_or_solid (message : ModelMessage) :
    (∃ content, message = .tool content) ∨ ∀ content, message ≠ .tool content := by
  cases message with
  | tool content => exact .inl ⟨content, rfl⟩
  | _ => exact .inr fun _ same => by cases same

theorem promised_eq_zero {repair : Repair} {final : List ℕ} :
    (∀ id, repair.promised final id = 0) ↔ ∀ id, ∀ call ∈ repair.pending id, call ∉ final := by
  simp [promised, countP_eq_zero]

theorem answeredInPlace_solid {message : ModelMessage} (unanswered : Unanswered)
    (messages : List ModelMessage) (solid : ∀ content, message ≠ .tool content) :
    unanswered.answeredInPlace (message :: messages) =
      (unanswered.retire message.calls).answeredInPlace messages := by
  cases message with
  | tool content => exact absurd rfl (solid content)
  | _ => rfl

/-- Nothing is open at the end of the first pass that a result is to answer. -/
theorem promised_matched {repair : Repair} (ordered : repair.Ordered) (id : JsString) :
    repair.promised repair.matchedCalls id = 0 :=
  promised_eq_zero.mpr (fun id call mem => ordered.unmatched id call mem) id

theorem behind_kept (content : List ToolPart) (repair : Repair) (final : List ℕ)
    (within : (repair.filterParts content).1.matchedCalls ⊆ final) :
    Round.Answers ⟨(repair.filterParts content).2.filterMap ToolPart.result?, []⟩
        (repair.promised final) ∧
      Round.behind ⟨(repair.filterParts content).2.filterMap ToolPart.result?, []⟩
        (repair.promised final) = (repair.filterParts content).1.promised final := by
  refine ⟨fun id => ?_, funext fun id => ?_⟩
  · have one := promised_filterParts content repair final within id
    dsimp only
    omega
  · have one := promised_filterParts content repair final within id
    simp only [Round.behind, count_nil]
    omega

theorem resolvedFrom_rounds {repair : Repair} {final : List ℕ}
    (ordered : repair.Ordered) (whole : (repair.sanitize messages).1.matchedCalls = final) :
    ResolvedFrom (repair.promised final) (repair.rounds final messages) := by
  induction messages generalizing repair with
  | nil =>
    subst whole
    exact promised_matched ordered
  | cons message messages ih =>
    rcases tool_or_solid message with ⟨content, tool⟩ | solid
    · subst tool
      have after := ordered.filterParts content
      by_cases nothing : (repair.filterParts content).2 = []
      · obtain ⟨first, rounds⟩ := rounds_dropped repair final messages nothing
        rw [first] at whole
        have within : (repair.filterParts content).1.matchedCalls ⊆ final :=
          whole ▸ matched_sanitize messages (repair.filterParts content).1.dropped
        have same := (behind_kept content repair final within).2
        rw [nothing] at same
        rw [rounds]
        have rest := ih after.dropped whole
        have idle : Round.behind (⟨[], []⟩ : Round JsString) (repair.promised final) =
            repair.promised final := Round.Idle.behind ⟨rfl, rfl⟩ _
        rw [filterMap_nil, idle] at same
        rw [same]
        exact rest
      · obtain ⟨first, rounds⟩ := rounds_kept repair final messages nothing
        rw [first] at whole
        have within : (repair.filterParts content).1.matchedCalls ⊆ final :=
          whole ▸ matched_sanitize messages (repair.filterParts content).1
        obtain ⟨enough, behind⟩ := behind_kept content repair final within
        rw [rounds]
        refine ⟨enough, ?_⟩
        rw [behind]
        exact ih after whole
    · obtain ⟨list, _, first, rounds⟩ := rounds_solid repair final messages message solid
      rw [rounds, resolvedFrom_solid]
      exact ih (ordered.noteCalls list) (first ▸ whole)

/-- The older calls of a repair, as far as `unanswered` knows them, stay unanswered. -/
def Forsaken (repair : Repair) (bound : ℕ) (final : List ℕ) : Prop :=
  ∀ id call, call ∈ repair.pending id → call < bound → call ∉ final

theorem forsaken_calls {repair : Repair} (ordered : repair.Ordered) {final : List ℕ} :
    repair.Forsaken repair.calls final ↔ ∀ id, repair.promised final id = 0 := by
  rw [promised_eq_zero]
  exact ⟨fun held id call mem => held id call mem (ordered.below id call mem),
    fun held id call mem _ => held id call mem⟩

theorem Passed.forsaken {repair left : Repair} {bound : ℕ} {before after : Unanswered}
    {kept : List ToolPart} (passed : Passed repair left bound before after kept)
    (final : List ℕ) : left.Forsaken bound final ↔ repair.Forsaken bound final :=
  ⟨fun held id call mem old => held id call ((passed.older id call old).mpr mem) old,
    fun held id call mem old => held id call ((passed.older id call old).mp mem) old⟩

section

variable {repair : Repair} {bound : ℕ} {content : List ToolPart} {before after : Unanswered}
    (passed : Passed repair (repair.filterParts content).1 bound before after (repair.filterParts content).2)
    (found : before.answerAll (content.filterMap ToolPart.result?) = some after)

include passed found

theorem Passed.pass_dropped (nothing : (repair.filterParts content).2 = []) :
    after = before ∧ before.passTool content = some before := by
  obtain ⟨results, others⟩ := filterParts_eq_nil.mp nothing
  have same : after = before := by
    rcases passed.effect with ⟨_, same, _⟩ | ⟨some_, _⟩
    · exact same
    · exact absurd results some_
  refine ⟨same, ?_⟩
  rw [Unanswered.passTool, found, same, others]
  simp

/-- Of a kept message either only other parts stay, or an answer does. -/
theorem Passed.pass_kept (some_ : (repair.filterParts content).2 ≠ []) :
    ((repair.filterParts content).2.filterMap ToolPart.result? = [] ∧
      before.passTool content = some (before.retire []) ∧ after = before) ∨
    ((repair.filterParts content).2.filterMap ToolPart.result? ≠ [] ∧
      before.passTool content = some after) := by
  rcases passed.effect with ⟨results, same, _⟩ | ⟨results, _, less⟩
  · have others : content.any (·.result?.isNone) = true := by
      by_contra bad
      exact some_ (filterParts_eq_nil.mpr ⟨results, Bool.not_eq_true _ ▸ bad⟩)
    exact .inl ⟨results, by simp [Unanswered.passTool, found, same, others], same⟩
  · have changed : after.latest ≠ before.latest := fun same => by rw [same] at less; omega
    exact .inr ⟨results, by simp [Unanswered.passTool, found, changed]⟩

end

theorem calls_dropped (content : List ToolPart) (repair : Repair) :
    (repair.filterParts content).1.dropped.calls = repair.calls :=
  calls_filterParts content repair

theorem promised_dropped (content : List ToolPart) (repair : Repair) (final : List ℕ)
    (within : (repair.filterParts content).1.matchedCalls ⊆ final)
    (nothing : (repair.filterParts content).2 = []) :
    (repair.filterParts content).1.dropped.promised final = repair.promised final := by
  have same := (behind_kept content repair final within).2
  have idle : Round.behind (⟨[], []⟩ : Round JsString) (repair.promised final) =
      repair.promised final := Round.Idle.behind ⟨rfl, rfl⟩ _
  rw [nothing, filterMap_nil, idle] at same
  exact same.symm

theorem answeredInPlace_iff {repair : Repair} {bound : ℕ}
    {unanswered : Unanswered} {final : List ℕ} (ordered : repair.Ordered)
    (tracks : repair.Tracks bound unanswered) (enough : bound ≤ repair.calls)
    (whole : (repair.sanitize messages).1.matchedCalls = final) :
    unanswered.answeredInPlace messages ↔
      repair.Forsaken bound final ∧
        TidyFrom (repair.promised final) (repair.rounds final messages) := by
  induction messages generalizing repair bound unanswered with
  | nil =>
    subst whole
    simp only [Unanswered.answeredInPlace, true_iff]
    exact ⟨fun id call mem _ => ordered.unmatched id call mem, promised_matched ordered⟩
  | cons message messages ih =>
    rcases tool_or_solid message with ⟨content, tool⟩ | solid
    · subst tool
      have within := whole ▸ matched_tool content messages repair
      rcases passed_filterParts content ordered tracks with
        ⟨bad, id, call, pending, old, matched⟩ | ⟨left, found, passed⟩
      · simp only [Unanswered.answeredInPlace, Unanswered.passTool, bad, Option.map_none,
          Bool.false_eq_true, false_iff]
        exact fun held => held.1 id call pending old (within matched)
      · have after := ordered.filterParts content
        by_cases nothing : (repair.filterParts content).2 = []
        · obtain ⟨first, rounds⟩ := rounds_dropped repair final messages nothing
          obtain ⟨same, pass⟩ := passed.pass_dropped found nothing
          rw [first] at whole
          rw [Unanswered.answeredInPlace, pass, rounds,
            ← promised_dropped content repair final within nothing]
          dsimp only
          rw [← passed.forsaken final]
          subst same
          exact ih after.dropped (passed.tracks.of_pending fun _ => rfl)
            (by rw [calls_dropped]; exact enough) whole
        · obtain ⟨first, rounds⟩ := rounds_kept repair final messages nothing
          obtain ⟨answers, behind⟩ := behind_kept content repair final within
          rw [first] at whole
          rw [Unanswered.answeredInPlace, rounds, TidyFrom, behind]
          have calls := calls_filterParts content repair
          rcases passed.pass_kept found nothing with ⟨results, pass, same⟩ | ⟨results, pass⟩
          · subst same
            rw [pass]
            dsimp only
            refine (ih after (passed.tracks.retire after) le_rfl whole).trans ?_
            have even : repair.promised final = (repair.filterParts content).1.promised final := by
              rw [results] at behind
              exact (Round.Idle.behind ⟨rfl, rfl⟩ _).symm.trans behind
            rw [forsaken_calls after, ← even]
            refine ⟨fun held => ⟨?_, fun _ => held.1, answers, held.2⟩,
              fun held => ⟨held.2.1 results, held.2.2.2⟩⟩
            exact fun id call mem _ => promised_eq_zero.mp held.1 id call mem
          · rw [pass]
            dsimp only
            refine (ih after passed.tracks (by omega) whole).trans ?_
            rw [passed.forsaken final]
            simp [results, answers]
    · obtain ⟨list, calls, first, rounds⟩ := rounds_solid repair final messages message solid
      have noted := calls_noteCalls list repair
      rw [answeredInPlace_solid unanswered messages solid, rounds, tidyFrom_solid, calls]
      refine (ih (ordered.noteCalls list) ((tracks.retire ordered).noteCalls le_rfl list)
        (by omega) (first ▸ whole)).trans ?_
      have older : (list.foldl noteCall repair).Forsaken repair.calls final ↔
          repair.Forsaken repair.calls final :=
        ⟨fun held id call mem old => held id call ((older_noteCalls list repair old).mpr mem) old,
          fun held id call mem old => held id call ((older_noteCalls list repair old).mp mem) old⟩
      rw [older, forsaken_calls ordered]
      refine ⟨fun held => ⟨?_, held⟩, fun held => held.2⟩
      exact fun id call mem _ => promised_eq_zero.mp held.1 id call mem

/-! ## The whole repair -/

theorem didAdjust_keepPart (part : ToolPart) (quiet : (repair.keepPart part).1.didAdjust = false) :
    repair.didAdjust = false ∧ (repair.keepPart part).2 := by
  rcases repair.keepPart_cases part with ⟨_, kept⟩ | ⟨_, _, _, kept⟩ | ⟨_, _, _, _, _, kept⟩
  · rw [kept] at quiet ⊢
    exact ⟨quiet, rfl⟩
  · rw [kept] at quiet
    exact absurd quiet Bool.noConfusion
  · rw [kept] at quiet ⊢
    exact ⟨quiet, rfl⟩

theorem didAdjust_filterParts (parts : List ToolPart) (repair : Repair)
    (quiet : (repair.filterParts parts).1.didAdjust = false) :
    repair.didAdjust = false ∧ (repair.filterParts parts).2 = parts := by
  induction parts generalizing repair with
  | nil => exact ⟨quiet, rfl⟩
  | cons part parts ih =>
    rw [filterParts_cons] at quiet ⊢
    obtain ⟨now, rest⟩ := ih _ quiet
    obtain ⟨before, kept⟩ := didAdjust_keepPart repair part now
    exact ⟨before, by rw [rest, if_pos kept]⟩

theorem didAdjust_noteCalls : (list.foldl noteCall repair).didAdjust = repair.didAdjust :=
  called_preserves (fun now => now.didAdjust = repair.didAdjust) (fun _ _ held => held) list
    repair rfl

theorem didAdjust_sanitize (repair : Repair)
    (quiet : (repair.sanitize messages).1.didAdjust = false) :
    repair.didAdjust = false ∧ (repair.sanitize messages).2 = messages := by
  induction messages generalizing repair with
  | nil => exact ⟨quiet, rfl⟩
  | cons message messages ih =>
    cases message with
    | system content =>
      obtain ⟨now, rest⟩ := ih repair quiet
      exact ⟨now, congrArg _ rest⟩
    | user content =>
      obtain ⟨now, rest⟩ := ih repair quiet
      exact ⟨now, congrArg _ rest⟩
    | assistant content =>
      obtain ⟨now, rest⟩ := ih _ quiet
      rw [didAdjust_noteCalls] at now
      exact ⟨now, congrArg _ rest⟩
    | tool content =>
      rw [sanitize] at quiet ⊢
      cases kept : (repair.filterParts content).2 with
      | nil =>
        rw [kept] at quiet
        exact absurd (ih _ quiet).1 Bool.noConfusion
      | cons part parts =>
        rw [kept] at quiet
        obtain ⟨now, rest⟩ := ih _ quiet
        obtain ⟨before, same⟩ := didAdjust_filterParts content repair now
        rw [kept] at same
        dsimp only
        rw [rest, same]
        exact ⟨before, rfl⟩

theorem insertMissing_of_none (call : ℕ) (nothing : insertsAny final call messages = false) :
    insertMissing final call messages = messages := by
  induction messages generalizing call with
  | nil => rfl
  | cons message messages ih =>
    simp only [insertsAny, Bool.or_eq_false_iff, Bool.not_eq_false', List.isEmpty_iff] at nothing
    simp only [insertMissing, nothing.1]
    rw [ih _ nothing.2]

theorem embedded_insertMissing (call : ℕ) :
    (insertMissing final call messages).flatMap ModelMessage.embeddedResults =
      messages.flatMap ModelMessage.embeddedResults := by
  induction messages generalizing call with
  | nil => rfl
  | cons message messages ih =>
    have rest := ih (call + message.calls.length)
    rw [insertMissing]
    cases insertedResults final call message with
    | nil => simp [rest]
    | cons result results => simp [rest, ModelMessage.embeddedResults]

theorem embedded_sanitize (repair : Repair) :
    (repair.sanitize messages).2.flatMap ModelMessage.embeddedResults =
      messages.flatMap ModelMessage.embeddedResults := by
  induction messages generalizing repair with
  | nil => rfl
  | cons message messages ih =>
    cases message with
    | tool content =>
      rw [sanitize, flatMap_cons]
      cases (repair.filterParts content).2 with
      | nil => exact ih _
      | cons part parts => exact ih _
    | system content => exact ih repair
    | user content => exact ih repair
    | assistant content =>
      exact congrArg (ModelMessage.embeddedResults (.assistant content) ++ ·) (ih _)

end Repair

/-- The calls that get an answer from a result of the messages. -/
def matchedIn (messages : List ModelMessage) : List ℕ :=
  (Repair.initial.sanitize messages).1.matchedCalls

variable (messages : List ModelMessage)

theorem repair_messages : (repairToolMessageIntegrity messages).messages =
      insertMissing (matchedIn messages) 0 (Repair.initial.sanitize messages).2 := by
  simp only [repairToolMessageIntegrity]
  split
  · rfl
  · rename_i quiet
    rw [Bool.not_eq_true, Bool.or_eq_false_iff] at quiet
    obtain ⟨_, same⟩ := Repair.didAdjust_sanitize messages _ quiet.1
    have rest := Repair.insertMissing_of_none _ _ _ quiet.2
    rw [matchedIn, rest, same]

theorem embedded_repair :
    (repairToolMessageIntegrity messages).messages.flatMap ModelMessage.embeddedResults =
      messages.flatMap ModelMessage.embeddedResults := by
  rw [repair_messages, Repair.embedded_insertMissing, Repair.embedded_sanitize]

theorem rounds_repair : (repairToolMessageIntegrity messages).messages.map ModelMessage.toolRound =
      Repair.initial.rounds (matchedIn messages) messages := by
  rw [repair_messages]
  rfl

variable (final : List ℕ)

theorem promised_initial : Repair.initial.promised final = fun _ => 0 := rfl

/-- The repaired messages answer every call once, with the results of tool messages. -/
theorem repair_resolved :
    Resolved ((repairToolMessageIntegrity messages).messages.map ModelMessage.toolRound) := by
  rw [rounds_repair, Resolved, ← promised_initial (matchedIn messages)]
  exact Repair.resolvedFrom_rounds messages Repair.ordered_initial rfl

theorem repair_tidy_iff :
    Tidy ((repairToolMessageIntegrity messages).messages.map ModelMessage.toolRound) ↔
      Unanswered.initial.answeredInPlace messages := by
  have tracks : Repair.initial.Tracks 0 Unanswered.initial := ⟨fun _ => rfl, fun _ => rfl⟩
  have whole := Repair.answeredInPlace_iff messages Repair.ordered_initial tracks le_rfl
    (show _ = matchedIn messages from rfl)
  rw [rounds_repair, Tidy, ← promised_initial (matchedIn messages), whole]
  exact ⟨fun tidy => ⟨fun _ _ _ low => absurd low (Nat.not_lt_zero _), tidy⟩, fun held => held.2⟩

end Netcatty.AgentContext
