import Netcatty.ContextPairing

/-!
When trimming keeps every tool call with its result.

A result that stands further on than right behind its call can be cut off from it: for
some budget the head is dropped up to the message between the two.
-/

namespace Netcatty.AgentContext

open Pairing List Option

/-! ## A budget that cuts at a given place -/

/-- Long lists cost as much as the budget allows, others nothing. -/
def costAbove (budget : Budget) (length : ℕ) : TokenEstimator := fun messages =>
  if length < messages.length then budget.threshold else 0

def protecting (protectRecentMessages : ℤ) : Budget :=
  { Budget.default with protectRecentMessages }

theorem one_le_threshold (budget : Budget) : 1 ≤ budget.threshold := le_max_left _ _

theorem reservedTotal_zero : reservedTotal 0 = 0 := by
  simp [reservedTotal]

theorem exceeded_costAbove (protectRecentMessages : ℤ) (length : ℕ) (messages : List ModelMessage) :
    (protecting protectRecentMessages).exceeded
        (costAbove (protecting protectRecentMessages) length) messages =
      decide (length < messages.length) := by
  have positive := one_le_threshold (protecting protectRecentMessages)
  have reserved : (protecting protectRecentMessages).reservedTokens = 0 := rfl
  unfold Budget.exceeded computeTotalInputTokens costAbove
  rw [reserved, reservedTotal_zero]
  apply decide_eq_decide.mpr
  split
  · rename_i long
    simpa using long
  · rename_i short
    constructor
    · intro low
      linarith
    · exact fun long => absurd long short

section

variable {before after : List ModelMessage} {message : ModelMessage}
    (fresh : message.startsWithToolResult = false)
    (quiet : ∀ last ∈ before.getLast?, last.endsWithToolCall = false)

include fresh quiet

theorem findSafe_eq :
    findSafeCompactionSplitIndex (before ++ message :: after) ((message :: after).length : ℤ) =
      before.length := by
  have start : (max 0 (((before ++ message :: after).length : ℤ) -
      ((message :: after).length : ℤ))).toNat = before.length := by
    simp only [length_append]
    omega
  unfold findSafeCompactionSplitIndex
  rw [start]
  rcases eq_nil_or_concat before with empty | ⟨earlier, last, whole⟩
  · subst empty
    rfl
  · rw [concat_eq_append] at whole
    subst whole
    have ends := quiet last (by simp)
    have there : (earlier ++ [last] ++ message :: after)[earlier.length + 1]? = some message := by
      simp
    have here : (earlier ++ [last] ++ message :: after)[earlier.length]? = some last := by
      simp
    rw [length_append, length_singleton, backOverResults, there, any_some, fresh,
      if_neg Bool.false_ne_true, backOverCalls, here, any_some, ends,
      if_neg Bool.false_ne_true]

theorem keepRecent_eq :
    keepRecentContextMessages (before ++ message :: after) ((message :: after).length : ℤ) =
      message :: after := by
  rw [keepRecentContextMessages, findSafe_eq fresh quiet, drop_left]

end

theorem skip_eq {closers rest : List ModelMessage}
    (closing : ∀ closer ∈ closers, closer.startsWithToolResult) (fresh : Fresh rest) :
    skipToolResultsForward (closers ++ rest) = rest := by
  rw [skipToolResultsForward, dropWhile_append_of_pos closing]
  cases rest with
  | nil => rfl
  | cons message rest =>
    rw [dropWhile_cons_of_neg]
    simpa [Fresh] using fresh

/-- Where the head is dropped up to: behind the results right behind the first call. -/
theorem pruneWhile_eq {exceeds : List ModelMessage → Bool} {message : ModelMessage}
    {closers rest : List ModelMessage} (calls : message.endsWithToolCall)
    (closing : ∀ closer ∈ closers, closer.startsWithToolResult) (fresh : Fresh rest)
    (two : 2 ≤ rest.length) (long : exceeds (message :: (closers ++ rest)))
    (short : exceeds rest = false) : pruneWhile exceeds (message :: (closers ++ rest)) = rest := by
  have first : pruneFirstModelMessage (message :: (closers ++ rest)) = rest := by
    cases parts : closers ++ rest with
    | nil =>
      have length := congrArg List.length parts
      simp only [length_append, length_nil] at length
      omega
    | cons second more =>
      rw [pruneFirstModelMessage, if_pos calls, ← parts]
      exact skip_eq closing fresh
  have done : pruneWhile exceeds rest = rest := by
    unfold pruneWhile
    rw [if_neg]
    simp [short]
  rw [pruneWhile, if_pos ⟨long, by simp only [length_cons, length_append]; omega⟩,
    dif_neg, first, done]
  rw [first]
  simp only [length_cons, length_append]
  omega

theorem quiet_getLast_of_marks {before other : List ModelMessage}
    (same : other.map ModelMessage.marks = before.map ModelMessage.marks)
    (quiet : ∀ last ∈ before.getLast?, last.endsWithToolCall = false) :
    ∀ last ∈ other.getLast?, last.endsWithToolCall = false := by
  intro last mem
  have found := congrArg List.getLast? same
  rw [getLast?_map, getLast?_map, mem_def.mp mem, map_some] at found
  obtain ⟨own, held, equal⟩ := map_eq_some_iff.mp found.symm
  have calls : own.calls = last.calls := congrArg (fun marks => marks.1) equal
  have ends := quiet own (mem_def.mpr held)
  rwa [ModelMessage.endsWithToolCall, calls] at ends

theorem guard_eq (texts : TextFunctions) {before closers rest : List ModelMessage}
    {message : ModelMessage} (starts : message.startsWithToolResult = false)
    (calls : message.endsWithToolCall)
    (quiet : ∀ last ∈ before.getLast?, last.endsWithToolCall = false)
    (closing : ∀ closer ∈ closers, closer.startsWithToolResult) (fresh : Fresh rest)
    (two : 2 ≤ rest.length) :
    (applyStepBudgetGuard texts
      (costAbove (protecting ((message :: (closers ++ rest)).length : ℤ)) rest.length)
      (protecting ((message :: (closers ++ rest)).length : ℤ))
      (before ++ message :: (closers ++ rest))).messages = rest := by
  have long : rest.length < (before ++ message :: (closers ++ rest)).length := by
    simp only [length_append, length_cons]
    omega
  have kept : rest.length < (message :: (closers ++ rest)).length := by
    simp only [length_append, length_cons]
    omega
  generalize budget_eq : protecting ((message :: (closers ++ rest)).length : ℤ) = budget
  have protect : budget.protectRecentMessages = ((message :: (closers ++ rest)).length : ℤ) := by
    rw [← budget_eq]
    rfl
  have exceeded : ∀ messages, budget.exceeded (costAbove budget rest.length) messages =
      decide (rest.length < messages.length) := by
    rw [← budget_eq]
    exact exceeded_costAbove _ _
  have cut : pruneWhile (budget.exceeded (costAbove budget rest.length))
      (message :: (closers ++ rest)) = rest :=
    pruneWhile_eq calls closing fresh two (by rw [exceeded]; exact decide_eq_true kept)
      (by rw [exceeded]; exact decide_eq_false (lt_irrefl _))
  unfold applyStepBudgetGuard
  rw [if_neg (by rw [exceeded, decide_eq_true long]; exact Bool.false_ne_true), protect,
    findSafe_eq starts quiet]
  dsimp only
  rw [take_left, drop_left]
  have same := marks_compress texts false before
  have keep : keepRecentContextMessages ((compressMessagesForRequestTooLargeRetry texts false
      before).messages ++ message :: (closers ++ rest)) ((message :: (closers ++ rest)).length : ℤ) =
      message :: (closers ++ rest) := keepRecent_eq starts (quiet_getLast_of_marks same quiet)
  split
  · rw [keep]
    exact cut
  · rename_i whole
    rcases before with _ | ⟨first, before⟩
    · exact cut
    · apply absurd _ whole
      rw [exceeded, Bool.and_eq_true]
      refine ⟨decide_eq_true ?_, decide_eq_true (Nat.succ_pos _)⟩
      rw [length_append]
      omega

/-! ## Cutting a result off its call -/

section Steps

variable (texts : TextFunctions) (tokens : TokenEstimator)

/-- The messages of a step before they are cut. -/
def typedMessages (budget : Budget) (messages : List ModelMessage) : List ModelMessage :=
  let repaired := (repairToolMessageIntegrity messages).messages
  (compressMessagesForRequestTooLargeRetry texts true
    (pruneStaleToolContext texts (budget.exceeded tokens repaired) repaired).messages).messages

theorem marks_typedMessages (budget : Budget) (messages : List ModelMessage) :
    (typedMessages texts tokens budget messages).map ModelMessage.marks =
      (repairToolMessageIntegrity messages).messages.map ModelMessage.marks :=
  (marks_compress texts true _).trans (marks_pruneStale texts _ _)

theorem step_without_handles (budget : Budget) (messages : List ModelMessage) :
    prepareStepContext texts tokens budget [] messages =
      (applyStepBudgetGuard texts tokens budget
        (typedMessages texts tokens budget messages)).messages := by
  unfold prepareStepContext
  dsimp only
  rw [if_pos (show unannouncedHandles texts [] _ = [] from rfl)]
  rfl

end Steps

variable (messages : List ModelMessage)

theorem count_results (id : JsString) :
    ((messages.map ModelMessage.round).flatMap Round.closes).count id =
      ((messages.map ModelMessage.toolRound).flatMap Round.closes).count id +
        (messages.flatMap ModelMessage.embeddedResults).count id := by
  induction messages with
  | nil => rfl
  | cons message messages ih =>
    simp only [map_cons, flatMap_cons, count_append, ModelMessage.round,
      ModelMessage.toolRound, ModelMessage.results] at ih ⊢
    omega

theorem opens_round : (messages.map ModelMessage.round).flatMap Round.opens =
      (messages.map ModelMessage.toolRound).flatMap Round.opens := by
  rw [flatMap_map, flatMap_map]
  rfl

/-- Results inside assistant messages are more than the repaired calls need. -/
theorem plain_of_wellPaired {messages : List ModelMessage} (paired : WellPaired messages)
    (resolved : Resolved (messages.map ModelMessage.toolRound)) :
    messages.flatMap ModelMessage.embeddedResults = [] := by
  apply eq_nil_iff_forall_not_mem.mpr
  intro id mem
  have found := count_pos_iff.mpr mem
  have all := ResolvedFrom.totals paired id
  have own := ResolvedFrom.totals resolved id
  have results := count_results messages id
  rw [opens_round] at all
  omega

theorem exceeded_zero : (protecting 0).exceeded (fun _ => 0) messages = false := by
  have positive := one_le_threshold (protecting 0)
  unfold Budget.exceeded computeTotalInputTokens
  rw [show (protecting 0).reservedTokens = 0 from rfl, reservedTotal_zero]
  apply decide_eq_false
  intro low
  linarith

theorem plain_of_steps (texts : TextFunctions) {messages : List ModelMessage}
    (paired : WellPaired (prepareStepContext texts (fun _ => 0) (protecting 0) [] messages)) :
    messages.flatMap ModelMessage.embeddedResults = [] := by
  have marks := marks_typedMessages texts (fun _ => 0) (protecting 0) messages
  rw [step_without_handles, applyStepBudgetGuard, exceeded_zero,
    if_pos (show (!false) = true from rfl)] at paired
  rw [← embedded_repair messages, ← embedded_of_marks marks]
  apply plain_of_wellPaired paired
  rw [toolRounds_of_marks marks]
  exact repair_resolved messages

theorem startsWithToolResult_eq_false {message : ModelMessage} :
    message.startsWithToolResult = false ↔ message.toolRound.closes = [] := by
  simp [ModelMessage.startsWithToolResult, ModelMessage.toolRound]

theorem endsWithToolCall_eq_false {message : ModelMessage} :
    message.endsWithToolCall = false ↔ message.toolRound.opens = [] := by
  simp [ModelMessage.endsWithToolCall, ModelMessage.toolRound]

theorem fresh_of_startsAfresh {messages : List ModelMessage}
    (afresh : StartsAfresh (messages.map ModelMessage.toolRound)) : Fresh messages := by
  cases messages with
  | nil => rfl
  | cons message messages => exact startsWithToolResult_eq_false.mpr afresh

theorem cut_apart (texts : TextFunctions) {messages : List ModelMessage}
    (plain : messages.flatMap ModelMessage.embeddedResults = [])
    (apart : ¬ Unanswered.initial.answeredInPlace messages) :
    ∃ tokens budget, ¬ WellPaired (prepareStepContext texts tokens budget [] messages) := by
  rw [← repair_tidy_iff] at apart
  obtain ⟨before, round, closers, rest, cut, settled, starts, calls, closing, afresh, two, bad⟩ :=
    untidy (repair_resolved messages) apart
  refine ⟨costAbove (protecting ((round :: (closers ++ rest)).length : ℤ)) rest.length,
    protecting ((round :: (closers ++ rest)).length : ℤ), ?_⟩
  rw [step_without_handles]
  generalize typed_eq : typedMessages texts _ _ messages = typed
  have marks : typed.map ModelMessage.marks = _ := typed_eq ▸ marks_typedMessages texts _ _ messages
  have rounds := toolRounds_of_marks marks
  rw [cut, map_eq_append_iff] at rounds
  obtain ⟨head, tail, whole, head_eq, tail_eq⟩ := rounds
  obtain ⟨message, more, tail_cut, message_eq, more_eq⟩ := map_eq_cons_iff.mp tail_eq
  obtain ⟨answers, last, more_cut, answers_eq, last_eq⟩ := map_eq_append_iff.mp more_eq
  have length : (round :: (closers ++ rest)).length = (message :: (answers ++ last)).length := by
    rw [← answers_eq, ← last_eq]
    simp
  have size : rest.length = last.length := by rw [← last_eq, length_map]
  rw [whole, tail_cut, more_cut, length, size, guard_eq texts]
  · have embedded := (embedded_of_marks marks).trans ((embedded_repair messages).trans plain)
    rw [whole, tail_cut, more_cut, flatMap_append, flatMap_cons,
      flatMap_append] at embedded
    have own : last.flatMap ModelMessage.embeddedResults = [] :=
      (append_eq_nil_iff.mp (append_eq_nil_iff.mp
        (append_eq_nil_iff.mp embedded).2).2).2
    rw [WellPaired, round_of_plain own, last_eq]
    exact bad
  · exact startsWithToolResult_eq_false.mpr (message_eq ▸ starts)
  · rw [← Bool.not_eq_false, endsWithToolCall_eq_false, message_eq]
    exact calls
  · intro last_ mem
    obtain ⟨earlier, parts⟩ := getLast?_eq_some_iff.mp (mem_def.mp mem)
    rw [← head_eq, parts, map_append] at settled
    exact endsWithToolCall_eq_false.mpr (last_opens_nil settled)
  · intro closer mem
    rw [← Bool.not_eq_false, startsWithToolResult_eq_false]
    exact closing _ (answers_eq ▸ List.mem_map_of_mem mem)
  · exact fresh_of_startsAfresh (last_eq ▸ afresh)
  · exact size ▸ two

/-- A step and a turn return well paired messages, whatever the budget and the estimator,
exactly when no assistant message holds a result and every call that is answered is
answered right behind its message. -/
theorem trimming_keeps_pairs_iff (texts : TextFunctions) (messages : List ModelMessage) :
    ((∀ tokens budget pendingHandles,
        WellPaired (prepareStepContext texts tokens budget pendingHandles messages)) ∧
      ∀ tokens input, WellPaired (prepareTurnContext texts tokens input messages)) ↔
    (∀ message ∈ messages, message.embeddedResults = []) ∧
      Unanswered.initial.answeredInPlace messages := by
  rw [← flatMap_eq_nil_iff]
  constructor
  · rintro ⟨steps, _⟩
    have plain := plain_of_steps texts (steps _ _ [])
    refine ⟨plain, ?_⟩
    by_contra apart
    obtain ⟨tokens, budget, bad⟩ := cut_apart texts plain apart
    exact bad (steps tokens budget [])
  · rintro ⟨plain, inPlace⟩
    have trimmable := trimmable_repair plain inPlace
    exact ⟨fun tokens budget => wellPaired_step texts tokens trimmable budget,
      fun tokens => wellPaired_turn texts tokens trimmable⟩

/-! ## A result that loses its call -/

/-- Texts that nothing changes. -/
def sameTexts : TextFunctions where
  compressAndTruncateText value _ := value
  stringify _ := []
  redactInput _ := none
  staleText _ _ _ _ := none
  visibleContent _ := []

def interrupted : List ModelMessage :=
  [.assistant (.parts [.toolCall (text "c1") (text "exec") .null]),
    .user (.text (text "wait")),
    .tool [.toolResult ⟨text "c1", text "exec", .text (text "done"), false⟩]]

def flatCost : TokenEstimator := fun messages => 50000 * messages.length

theorem default_threshold : Budget.default.threshold = 108754 := by
  have effective : resolveEffectiveMaxOutputTokens 128000 4096 = 4096 := by
    norm_num [resolveEffectiveMaxOutputTokens, MIN_OUTPUT_RESERVE, MAX_OUTPUT_SHARE_OF_WINDOW]
  have buffer : computeCompactionBuffer 128000 4096 = 15000 := by
    norm_num [computeCompactionBuffer, AUTO_COMPACT_BUFFER_RATIO, AUTO_COMPACT_BUFFER_CAP]
  change computeCompactionThreshold 128000 4096 = 108754
  unfold computeCompactionThreshold
  dsimp only
  rw [effective, buffer]
  norm_num [COMPACTION_PROMPT_RESERVE]

theorem exceeded_flatCost :
    Budget.default.exceeded flatCost messages = decide (3 ≤ messages.length) := by
  unfold Budget.exceeded computeTotalInputTokens
  rw [default_threshold, show Budget.default.reservedTokens = 0 from rfl, reservedTotal_zero,
    flatCost, add_zero]
  apply decide_eq_decide.mpr
  constructor
  · intro low
    by_contra short
    have few : (messages.length : ℚ) ≤ 2 := by exact_mod_cast Nat.le_of_lt_succ (not_le.mp short)
    linarith
  · intro three
    have many : (3 : ℚ) ≤ messages.length := by exact_mod_cast three
    linarith

/-- The head is dropped up to the user's message, and the result behind it is kept. -/
theorem result_behind_message_is_cut_off :
    ¬ WellPaired (prepareStepContext sameTexts flatCost Budget.default [] interrupted) := by
  have typed : typedMessages sameTexts flatCost Budget.default interrupted = interrupted := rfl
  have first : pruneFirstModelMessage interrupted = interrupted.drop 1 := rfl
  have pruned : pruneWhile (Budget.default.exceeded flatCost) interrupted = interrupted.drop 1 := by
    have rest : pruneWhile (Budget.default.exceeded flatCost) (interrupted.drop 1) =
        interrupted.drop 1 := by
      rw [pruneWhile, exceeded_flatCost]
      rfl
    rw [pruneWhile, exceeded_flatCost, if_pos (by decide), first, rest]
    rfl
  have whole : (applyStepBudgetGuard sameTexts flatCost Budget.default interrupted).messages =
      interrupted.drop 1 := by
    have guard_ : (applyStepBudgetGuard sameTexts flatCost Budget.default interrupted).messages =
        pruneWhile (Budget.default.exceeded flatCost) interrupted := by
      have splitAt : findSafeCompactionSplitIndex interrupted
          Budget.default.protectRecentMessages = 0 := rfl
      unfold applyStepBudgetGuard
      rw [exceeded_flatCost, if_neg (by decide), splitAt]
      dsimp only
      rw [show decide (0 < 0) = false from rfl, Bool.and_false]
      rfl
    exact guard_.trans pruned
  rw [step_without_handles, typed, whole]
  intro paired
  have answers : (1 : ℕ) ≤ 0 := paired.2.1 (text "c1")
  omega

end Netcatty.AgentContext
