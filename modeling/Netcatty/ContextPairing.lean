import Netcatty.ContextTrimming
import Netcatty.ToolRepair

/-!
Tool calls and their results under context trimming.

Cutting the head of a list is safe where no call is open at the cut.  The source looks
for such a place by the neighbouring messages alone, which is right when every result
stands in the tool messages right behind its call.
-/

namespace Netcatty.AgentContext

open Pairing List Option Bool

/-! ## What the passes over single messages keep -/

/-- The ids in a message that matter for pairing. -/
def ModelMessage.marks (message : ModelMessage) : List JsString × List JsString × List JsString :=
  (message.calls, message.toolResults, message.embeddedResults)

theorem filterMap_mapChanged {α β : Type} {change : α → Option α} (read : α → Option β)
    (same : ∀ a b, change a = some b → read b = read a) {l l' : List α}
    (changed : mapChanged change l = some l') : l'.filterMap read = l.filterMap read := by
  unfold mapChanged at changed
  split at changed
  · cases changed
    rw [filterMap_map]
    apply filterMap_congr
    intro a _
    cases found : change a with
    | none => simp [found]
    | some b => simpa [found] using same a b found
  · exact absurd changed (some_ne_none _).symm

theorem map_adjustMessages {β : Type} {change : ℕ → ModelMessage → Option ModelMessage}
    (read : ModelMessage → β) (same : ∀ i m m', change i m = some m' → read m' = read m)
    (messages : List ModelMessage) :
    (adjustMessages change messages).messages.map read = messages.map read := by
  apply ext_getElem?
  intro i
  simp only [adjustMessages, getElem?_map, getElem?_mapIdx, Option.map_map]
  cases messages[i]? with
  | none => rfl
  | some message =>
    cases found : change i message with
    | none => simp [found]
    | some changed => simpa [found] using same i message changed found

section Texts

variable (texts : TextFunctions)

theorem redactToolCall_ids {part changed : AssistantPart}
    (found : redactToolCall texts part = some changed) :
    changed.call? = part.call? ∧ changed.result? = part.result? := by
  cases part with
  | toolCall toolCallId toolName input =>
    obtain ⟨_, _, same⟩ := map_eq_some_iff.mp found
    exact same ▸ ⟨rfl, rfl⟩
  | _ => exact absurd found (some_ne_none _).symm

theorem staleResult_id {pressure : Bool} {messages : List ModelMessage} {index : ℕ}
    {part changed : ToolPart} (found : staleResult texts pressure messages index part = some changed) :
    changed.result? = part.result? := by
  cases part with
  | toolResult result =>
    obtain ⟨_, _, same⟩ := map_eq_some_iff.mp found
    exact same ▸ rfl
  | other _ => exact absurd found (some_ne_none _).symm

theorem compressToolResult_id {result changed : ToolResultPart}
    (found : compressToolResult texts result = some changed) :
    changed.toolCallId = result.toolCallId := by
  obtain ⟨_, _, same⟩ := map_eq_some_iff.mp found
  exact same ▸ rfl

theorem compressToolPart_id {part changed : ToolPart}
    (found : compressToolPart texts part = some changed) : changed.result? = part.result? := by
  cases part with
  | toolResult result =>
    obtain ⟨reduced, own, same⟩ := map_eq_some_iff.mp found
    subst same
    exact congrArg some (compressToolResult_id texts own)
  | other _ => exact absurd found (some_ne_none _).symm

theorem compressAssistantPart_ids {preserve : Bool} {part changed : AssistantPart}
    (found : compressAssistantPart texts preserve part = some changed) :
    changed.call? = part.call? ∧ changed.result? = part.result? := by
  cases part with
  | text _ =>
    obtain ⟨_, _, same⟩ := map_eq_some_iff.mp found
    exact same ▸ ⟨rfl, rfl⟩
  | attachment _ =>
    obtain ⟨_, _, same⟩ := map_eq_some_iff.mp found
    exact same ▸ ⟨rfl, rfl⟩
  | toolResult result =>
    obtain ⟨reduced, own, same⟩ := map_eq_some_iff.mp found
    subst same
    exact ⟨rfl, congrArg some (compressToolResult_id texts own)⟩
  | toolCall _ _ _ => exact absurd found (some_ne_none _).symm
  | other _ => exact absurd found (some_ne_none _).symm

theorem marks_assistant_of_changed {change : AssistantPart → Option AssistantPart}
    (ids : ∀ a b, change a = some b → b.call? = a.call? ∧ b.result? = a.result?)
    {l l' : List AssistantPart} (changed : mapChanged change l = some l') :
    (ModelMessage.assistant (.parts l')).marks = (ModelMessage.assistant (.parts l)).marks := by
  have calls := filterMap_mapChanged AssistantPart.call? (fun a b found => (ids a b found).1) changed
  have results :=
    filterMap_mapChanged AssistantPart.result? (fun a b found => (ids a b found).2) changed
  simp only [ModelMessage.marks, ModelMessage.calls, ModelMessage.toolResults,
    ModelMessage.embeddedResults, Content.list, calls, results]

theorem marks_tool_of_changed {change : ToolPart → Option ToolPart}
    (ids : ∀ a b, change a = some b → b.result? = a.result?)
    {l l' : List ToolPart} (changed : mapChanged change l = some l') :
    (ModelMessage.tool l').marks = (ModelMessage.tool l).marks := by
  have results := filterMap_mapChanged ToolPart.result? ids changed
  simp only [ModelMessage.marks, ModelMessage.calls, ModelMessage.toolResults,
    ModelMessage.embeddedResults, results]

theorem marks_staleMessage {pressure : Bool} {messages : List ModelMessage} (index : ℕ)
    (message changed : ModelMessage)
    (found : staleMessage texts pressure messages index message = some changed) :
    changed.marks = message.marks := by
  cases message with
  | system _ => exact absurd found (some_ne_none _).symm
  | user _ => exact absurd found (some_ne_none _).symm
  | tool content =>
    obtain ⟨parts, own, same⟩ := map_eq_some_iff.mp found
    exact same ▸ marks_tool_of_changed (fun _ _ one => staleResult_id texts one) own
  | assistant content =>
    cases content with
    | text _ => exact absurd found (some_ne_none _).symm
    | parts list =>
      obtain ⟨parts, own, same⟩ := map_eq_some_iff.mp found
      exact same ▸ marks_assistant_of_changed (fun _ _ one => redactToolCall_ids texts one) own

theorem marks_compressMessage {preserve : Bool} (message changed : ModelMessage)
    (found : compressMessage texts preserve message = some changed) :
    changed.marks = message.marks := by
  cases message with
  | system _ =>
    obtain ⟨_, _, same⟩ := map_eq_some_iff.mp found
    exact same ▸ rfl
  | user content =>
    cases content with
    | text _ => exact absurd found (some_ne_none _).symm
    | parts _ =>
      obtain ⟨_, _, same⟩ := map_eq_some_iff.mp found
      exact same ▸ rfl
  | tool content =>
    obtain ⟨parts, own, same⟩ := map_eq_some_iff.mp found
    exact same ▸ marks_tool_of_changed (fun _ _ one => compressToolPart_id texts one) own
  | assistant content =>
    cases content with
    | text _ =>
      obtain ⟨_, _, same⟩ := map_eq_some_iff.mp found
      exact same ▸ rfl
    | parts list =>
      obtain ⟨parts, own, same⟩ := map_eq_some_iff.mp found
      exact same ▸
        marks_assistant_of_changed (fun _ _ one => compressAssistantPart_ids texts one) own

theorem marks_pruneStale (pressure : Bool) (messages : List ModelMessage) :
    (pruneStaleToolContext texts pressure messages).messages.map ModelMessage.marks =
      messages.map ModelMessage.marks :=
  map_adjustMessages _ (fun i m m' found => marks_staleMessage texts i m m' found) messages

theorem marks_compress (preserve : Bool) (messages : List ModelMessage) :
    (compressMessagesForRequestTooLargeRetry texts preserve messages).messages.map
      ModelMessage.marks = messages.map ModelMessage.marks :=
  map_adjustMessages _ (fun _ m m' found => marks_compressMessage texts m m' found) messages

end Texts

/-! ## Messages that may be cut -/

/-- The assistant messages hold no results, and every call is answered right behind its
message. -/
structure Trimmable (messages : List ModelMessage) : Prop where
  plain : messages.flatMap ModelMessage.embeddedResults = []
  tidy : Tidy (messages.map ModelMessage.toolRound)

variable {messages : List ModelMessage}

theorem round_of_plain (plain : messages.flatMap ModelMessage.embeddedResults = []) :
    messages.map ModelMessage.round = messages.map ModelMessage.toolRound := by
  apply map_congr_left
  intro message mem
  have own := flatMap_eq_nil_iff.mp plain message mem
  simp [ModelMessage.round, ModelMessage.toolRound, ModelMessage.results, own]

theorem Trimmable.wellPaired (trimmable : Trimmable messages) : WellPaired messages := by
  rw [WellPaired, round_of_plain trimmable.plain]
  exact trimmable.tidy.resolved

section

variable {messages other : List ModelMessage}
  (same : other.map ModelMessage.marks = messages.map ModelMessage.marks)
include same

theorem toolRounds_of_marks :
    other.map ModelMessage.toolRound = messages.map ModelMessage.toolRound := by
  have both := congrArg (List.map fun marks => (⟨marks.2.1, marks.1⟩ : Round JsString)) same
  rwa [List.map_map, List.map_map] at both

theorem embedded_of_marks :
    other.flatMap ModelMessage.embeddedResults = messages.flatMap ModelMessage.embeddedResults := by
  have third := congrArg (List.map fun marks => marks.2.2) same
  rw [List.map_map, List.map_map] at third
  rw [flatMap_def, flatMap_def]
  exact congrArg List.flatten third

end

theorem Trimmable.of_marks {messages other : List ModelMessage} (trimmable : Trimmable messages)
    (same : other.map ModelMessage.marks = messages.map ModelMessage.marks) :
    Trimmable other :=
  ⟨(embedded_of_marks same).trans trimmable.plain, toolRounds_of_marks same ▸ trimmable.tidy⟩

def Fresh (messages : List ModelMessage) : Prop :=
  messages.head?.any ModelMessage.startsWithToolResult = false

theorem startsAfresh_of_fresh (fresh : Fresh messages) :
    StartsAfresh (messages.map ModelMessage.toolRound) := by
  cases messages with
  | nil => trivial
  | cons message messages =>
    simpa [Fresh, ModelMessage.startsWithToolResult, StartsAfresh, ModelMessage.toolRound]
      using fresh

theorem Trimmable.drop (trimmable : Trimmable messages) (k : ℕ)
    (fresh : Fresh (messages.drop k)) : Trimmable (messages.drop k) where
  plain := by
    have plain := trimmable.plain
    rw [← take_append_drop k messages, flatMap_append] at plain
    exact (append_eq_nil_iff.mp plain).2
  tidy := by
    have tidy := trimmable.tidy
    rw [← take_append_drop k messages, map_append] at tidy
    exact tidy_of_append tidy (startsAfresh_of_fresh fresh)

section

variable {message : ModelMessage}

theorem Trimmable.tail {messages : List ModelMessage}
    (trimmable : Trimmable (message :: messages)) (quiet : message.endsWithToolCall = false) :
    Trimmable messages where
  plain := (append_eq_nil_iff.mp trimmable.plain).2
  tidy := Tidy.tail trimmable.tidy (by
    simpa [ModelMessage.endsWithToolCall, ModelMessage.toolRound] using quiet)

/-- A message that neither calls a tool nor holds a result. -/
def Quiet (message : ModelMessage) : Prop := message.marks = ([], [], [])

theorem quiet_user (content : Content UserPart) : Quiet (.user content) := rfl

theorem trimmable_cons {messages : List ModelMessage}
    (quiet : Quiet message) (trimmable : Trimmable messages) : Trimmable (message :: messages) where
  plain := by
    have own : message.embeddedResults = [] := congrArg (fun marks => marks.2.2) quiet
    rw [flatMap_cons, own, trimmable.plain]
    rfl
  tidy := (tidy_cons_idle ⟨congrArg (fun marks => marks.2.1) quiet,
    congrArg (fun marks => marks.1) quiet⟩).mpr trimmable.tidy

theorem trimmable_quiet {before messages : List ModelMessage}
    (quiet : ∀ message ∈ before, Quiet message) (trimmable : Trimmable messages) :
    Trimmable (before ++ messages) := by
  induction before with
  | nil => exact trimmable
  | cons message before ih =>
    exact trimmable_cons (quiet message mem_cons_self)
      (ih fun other mem => quiet other (mem_cons_of_mem _ mem))

theorem wellPaired_concat (paired : WellPaired messages) (quiet : Quiet message) :
    WellPaired (messages ++ [message]) := by
  rw [WellPaired, map_append]
  refine resolvedFrom_append_idle paired fun round mem => ?_
  rw [map_singleton, mem_singleton] at mem
  have calls : message.calls = [] := congrArg (fun marks => marks.1) quiet
  have tools : message.toolResults = [] := congrArg (fun marks => marks.2.1) quiet
  have embedded : message.embeddedResults = [] := congrArg (fun marks => marks.2.2) quiet
  rw [mem]
  exact ⟨by simp [ModelMessage.round, ModelMessage.results, tools, embedded], calls⟩

/-! ## The cuts -/

theorem fresh_backOverResults (messages : List ModelMessage) (splitAt : ℕ) :
    backOverResults messages splitAt = 0 ∨
      Fresh (messages.drop (backOverResults messages splitAt)) := by
  induction splitAt with
  | zero => exact .inl rfl
  | succ splitAt ih =>
    unfold backOverResults
    split
    · exact ih
    · rename_i other
      right
      simpa [Fresh, head?_drop] using other

theorem calls_of_toolResults (starts : message.startsWithToolResult) :
    message.endsWithToolCall = false := by
  cases message with
  | tool _ => rfl
  | _ => exact absurd starts Bool.noConfusion

end

theorem fresh_backOverCalls (messages : List ModelMessage) (splitAt : ℕ)
    (start : splitAt = 0 ∨ Fresh (messages.drop splitAt)) :
    backOverCalls messages splitAt = 0 ∨ Fresh (messages.drop (backOverCalls messages splitAt)) := by
  induction splitAt with
  | zero => exact .inl rfl
  | succ splitAt ih =>
    unfold backOverCalls
    split
    · rename_i calls
      apply ih
      right
      rw [Fresh, head?_drop]
      cases found : messages[splitAt]? with
      | none => rfl
      | some message =>
        rw [found] at calls
        by_contra starts
        have none_ := calls_of_toolResults (not_eq_false _ ▸ starts)
        simp [none_] at calls
    · exact start

theorem Trimmable.keepRecent (trimmable : Trimmable messages) (protectRecentMessages : ℤ) :
    Trimmable (keepRecentContextMessages messages protectRecentMessages) := by
  unfold keepRecentContextMessages findSafeCompactionSplitIndex
  rcases fresh_backOverCalls messages _ (fresh_backOverResults messages
      (max 0 ((messages.length : ℤ) - protectRecentMessages)).toNat) with start | fresh
  · rw [start]
    exact trimmable
  · exact trimmable.drop _ fresh

theorem fresh_skip (messages : List ModelMessage) : Fresh (skipToolResultsForward messages) := by
  unfold Fresh skipToolResultsForward
  have first := head?_dropWhile_not ModelMessage.startsWithToolResult messages
  cases found : (messages.dropWhile ModelMessage.startsWithToolResult).head? with
  | none => rfl
  | some message =>
    rw [found] at first
    simpa using first

theorem Trimmable.skip_of_suffix {messages rest : List ModelMessage}
    (trimmable : Trimmable messages) (suffix : rest <:+ messages) :
    Trimmable (skipToolResultsForward rest) := by
  obtain ⟨before, whole⟩ := (dropWhile_suffix _).trans suffix
  have cut : messages.drop before.length = skipToolResultsForward rest := by
    rw [← whole, drop_left]
    rfl
  rw [← cut]
  exact trimmable.drop _ (cut ▸ fresh_skip rest)

/-- Dropping the head of trimmable messages keeps calls and results together. -/
theorem Trimmable.pruneFirst (trimmable : Trimmable messages) :
    Trimmable (pruneFirstModelMessage messages) := by
  unfold pruneFirstModelMessage
  split
  · exact trimmable
  · exact ⟨rfl, fun _ => rfl⟩
  · rename_i first second rest
    split
    · exact trimmable.skip_of_suffix (suffix_cons _ _)
    · rename_i quiet
      rw [not_eq_true] at quiet
      have later := trimmable.tail quiet
      split
      · exact trimmable.skip_of_suffix ((suffix_cons _ _).trans (suffix_cons _ _))
      · rename_i calls
        split
        · rename_i pair
          simp only [and_eq_true] at pair calls
          apply later.tail
          rw [← not_eq_true]
          exact fun ends => calls ⟨pair.1, ends⟩
        · split
          · exact trimmable.skip_of_suffix suffix_rfl
          · exact later

theorem trimmable_pruneWhile (trimmable : Trimmable messages)
    (exceeds : List ModelMessage → Bool) : Trimmable (pruneWhile exceeds messages) := by
  fun_induction pruneWhile exceeds messages with
  | case1 messages _ _ => exact trimmable
  | case2 messages _ _ ih => exact ih trimmable.pruneFirst
  | case3 messages _ => exact trimmable

theorem Trimmable.guard (trimmable : Trimmable messages)
    (texts : TextFunctions) (tokens : TokenEstimator) (budget : Budget) :
    Trimmable (applyStepBudgetGuard texts tokens budget messages).messages := by
  unfold applyStepBudgetGuard
  split
  · exact trimmable
  · have next : Trimmable ((compressMessagesForRequestTooLargeRetry texts false (messages.take
        (findSafeCompactionSplitIndex messages budget.protectRecentMessages))).messages ++
        messages.drop (findSafeCompactionSplitIndex messages budget.protectRecentMessages)) := by
      apply trimmable.of_marks
      rw [map_append, marks_compress, ← map_append, take_append_drop]
    apply trimmable_pruneWhile
    split
    · exact next.keepRecent _
    · exact next

/-! ## Trimmable messages stay well paired -/

theorem trimmable_repair (plain : messages.flatMap ModelMessage.embeddedResults = [])
    (inPlace : Unanswered.initial.answeredInPlace messages) :
    Trimmable (repairToolMessageIntegrity messages).messages :=
  ⟨(embedded_repair messages).trans plain, (repair_tidy_iff messages).mpr inPlace⟩

section Prepared

variable (texts : TextFunctions) (tokens : TokenEstimator)

theorem trimmable_typed (trimmable : Trimmable messages) (pressure preserve : Bool) :
    Trimmable (compressMessagesForRequestTooLargeRetry texts preserve
      (pruneStaleToolContext texts pressure messages).messages).messages :=
  trimmable.of_marks ((marks_compress texts preserve _).trans (marks_pruneStale texts pressure _))

theorem wellPaired_step
    (trimmable : Trimmable (repairToolMessageIntegrity messages).messages) (budget : Budget)
    (pendingHandles : List JsString) :
    WellPaired (prepareStepContext texts tokens budget pendingHandles messages) := by
  unfold prepareStepContext
  have working := ((trimmable_typed texts trimmable (budget.exceeded tokens
    (repairToolMessageIntegrity messages).messages) true).guard texts tokens budget)
  dsimp only
  split
  · exact working.wellPaired
  · have again := working.guard texts tokens { budget with
      reservedTokens := budget.reservedTokens + tokens [handleNotice pendingHandles] }
    split
    · exact again.wellPaired
    · exact wellPaired_concat again.wellPaired rfl

theorem trimmable_compactTurn {working : Adjusted} (trimmable : Trimmable working.messages)
    (input : TurnInput) : Trimmable (compactTurn tokens input working).1.messages := by
  have recent : Trimmable (if input.forced then
      ((⟨keepRecentContextMessages working.messages input.budget.protectRecentMessages, true⟩,
        false) : Adjusted × Bool)
      else (working, false)).1.messages := by
    split
    · exact trimmable.keepRecent _
    · exact trimmable
  unfold compactTurn
  dsimp only
  split
  · exact recent
  · split
    · rename_i compacted found
      simp only [prepareContextCompaction, ite_none_left_eq_some, Option.some.injEq] at found
      rw [← found.2.2]
      exact trimmable_cons rfl (trimmable_cons rfl (trimmable.keepRecent _))
    · exact recent

theorem quiet_reinjection (reinjection : Option PostCompactReinjection) :
    ∀ message ∈ buildReinjectionMessages reinjection, Quiet message := by
  intro message mem
  cases reinjection with
  | none => exact absurd mem not_mem_nil
  | some fields =>
    simp only [buildReinjectionMessages, mem_ite_nil_left, mem_singleton] at mem
    obtain ⟨content, same⟩ : ∃ content, message = .user content := ⟨_, mem.2⟩
    exact same ▸ quiet_user content

theorem wellPaired_turn
    (trimmable : Trimmable (repairToolMessageIntegrity messages).messages) (input : TurnInput) :
    WellPaired (prepareTurnContext texts tokens input messages) := by
  have typed := trimmable_typed texts trimmable
  simp only [prepareTurnContext]
  split
  · refine (trimmable_quiet (quiet_reinjection input.reinjection) ?_).wellPaired
    apply Trimmable.guard
    apply trimmable_compactTurn
    exact typed _ _
  · apply Trimmable.wellPaired
    apply trimmable_compactTurn
    exact typed _ _

end Prepared

end Netcatty.AgentContext
