import Mathlib.Data.Rat.Floor
import Netcatty.AgentMessages

/-!
How the context of a turn and of a step is cut down to the model's window.

What a text becomes (redacted, shortened, superseded) and how many tokens messages
cost is given by functions this development takes as they are; which messages and
parts stay is modelled as the source decides it.  Token counts are rationals: the
source rounds `(1 - 0.8) * remaining` as a double before it takes the ceiling.
-/

namespace Netcatty.AgentContext

/-- The functions on texts and values that trimming calls. -/
structure TextFunctions where
  /-- `compressAndTruncateText`. -/
  compressAndTruncateText : JsString → ℕ → JsString
  /-- `JSON.stringify`. -/
  stringify : JsonValue → JsString
  /-- `redactSecretsInValueForModel` of a call's input, where it changes the JSON text. -/
  redactInput : JsonValue → Option JsonValue
  /-- The text that `pruneStaleToolContext` puts in place of a result's, under budget
  pressure or not, at this index of the messages. -/
  staleText : Bool → List ModelMessage → ℕ → ToolResultPart → Option JsString
  /-- A message's content as the search for handles reads it. -/
  visibleContent : ModelMessage → JsString

def RETRY_MAX_TOOL_RESULT_CHARS : ℕ := 4000
def RETRY_MAX_MESSAGE_TEXT_CHARS : ℕ := 8000

/-- Map the elements that change; `none` when none does. -/
def mapChanged {α : Type} (change : α → Option α) (l : List α) : Option (List α) :=
  if l.any fun a => (change a).isSome then some (l.map fun a => (change a).getD a) else none

def adjustMessages (change : ℕ → ModelMessage → Option ModelMessage)
    (messages : List ModelMessage) : Adjusted :=
  ⟨messages.mapIdx fun index message => (change index message).getD message,
    (messages.mapIdx fun index message => (change index message).isSome).any id⟩

section Texts

variable (texts : TextFunctions)

/-! ## Stale tool context -/

def redactToolCall : AssistantPart → Option AssistantPart
  | .toolCall toolCallId toolName input =>
    (texts.redactInput input).map (.toolCall toolCallId toolName)
  | _ => none

def staleResult (underBudgetPressure : Bool) (messages : List ModelMessage) (index : ℕ) :
    ToolPart → Option ToolPart
  | .toolResult result =>
    (texts.staleText underBudgetPressure messages index result).map fun value =>
      .toolResult { result with output := .text value }
  | .other _ => none

def staleMessage (underBudgetPressure : Bool) (messages : List ModelMessage) (index : ℕ) :
    ModelMessage → Option ModelMessage
  | .assistant (.parts list) =>
    (mapChanged (redactToolCall texts) list).map fun list => .assistant (.parts list)
  | .tool content =>
    (mapChanged (staleResult texts underBudgetPressure messages index) content).map .tool
  | _ => none

def pruneStaleToolContext (underBudgetPressure : Bool) (messages : List ModelMessage) : Adjusted :=
  adjustMessages (staleMessage texts underBudgetPressure messages) messages

/-! ## Typed compression -/

def compressText (limit : ℕ) (value : JsString) : Option JsString :=
  let reduced := texts.compressAndTruncateText value limit
  if reduced = value then none else some reduced

def omittedAttachmentText (attachment : Attachment) (payload : JsString) : JsString :=
  let details := (attachment.filename.map (text "filename=" ++ ·)).toList ++
    (attachment.mediaType.map (text "mediaType=" ++ ·)).toList ++
    [decimal payload.length ++ text " chars"]
  text "[" ++ text (if attachment.isImage then "image" else "file") ++
    text " attachment omitted to keep the AI request small: " ++
    (details.intersperse (text ", ")).flatten ++ text "]"

variable (preserveAttachments : Bool)

/-- The text that takes an attachment's place. -/
def compressAttachment (attachment : Attachment) : Option JsString :=
  let preserveImage := preserveAttachments &&
    (attachment.isImage || (text "image/").isPrefixOf (attachment.mediaType.getD []))
  if preserveImage then none
  else attachment.payload.map (omittedAttachmentText attachment)

def compressToolResult (result : ToolResultPart) : Option ToolResultPart :=
  let reduced := match result.output with
    | .text value => compressText texts RETRY_MAX_TOOL_RESULT_CHARS value
    | .json value => compressText texts RETRY_MAX_TOOL_RESULT_CHARS (texts.stringify value)
    | .other _ => none
  reduced.map fun value => { result with output := .text value }

def compressUserPart : UserPart → Option UserPart
  | .text _ => none
  | .attachment attachment => (compressAttachment preserveAttachments attachment).map .text

def compressAssistantPart : AssistantPart → Option AssistantPart
  | .text value => (compressText texts RETRY_MAX_MESSAGE_TEXT_CHARS value).map .text
  | .attachment attachment => (compressAttachment preserveAttachments attachment).map .text
  | .toolResult result => (compressToolResult texts result).map .toolResult
  | _ => none

def compressToolPart : ToolPart → Option ToolPart
  | .toolResult result => (compressToolResult texts result).map .toolResult
  | .other _ => none

def compressMessage : ModelMessage → Option ModelMessage
  | .system content => (compressText texts RETRY_MAX_MESSAGE_TEXT_CHARS content).map .system
  | .user (.text _) => none
  | .user (.parts list) =>
    (mapChanged (compressUserPart preserveAttachments) list).map fun list => .user (.parts list)
  | .assistant (.text content) =>
    (compressText texts RETRY_MAX_MESSAGE_TEXT_CHARS content).map fun content =>
      .assistant (.text content)
  | .assistant (.parts list) =>
    (mapChanged (compressAssistantPart texts preserveAttachments) list).map fun list =>
      .assistant (.parts list)
  | .tool content => (mapChanged (compressToolPart texts) content).map .tool

variable (messages : List ModelMessage)

def compressMessagesForRequestTooLargeRetry : Adjusted :=
  adjustMessages (fun _ => compressMessage texts preserveAttachments) messages

end Texts

/-! ## Where to cut -/

def backOverResults (messages : List ModelMessage) : ℕ → ℕ
  | 0 => 0
  | splitAt + 1 =>
    if messages[splitAt + 1]?.any ModelMessage.startsWithToolResult then
      backOverResults messages splitAt
    else splitAt + 1

def backOverCalls (messages : List ModelMessage) : ℕ → ℕ
  | 0 => 0
  | splitAt + 1 =>
    if messages[splitAt]?.any ModelMessage.endsWithToolCall then backOverCalls messages splitAt
    else splitAt + 1

variable (messages : List ModelMessage)

def findSafeCompactionSplitIndex (protectRecentMessages : ℤ) : ℕ :=
  backOverCalls messages
    (backOverResults messages (max 0 ((messages.length : ℤ) - protectRecentMessages)).toNat)

def keepRecentContextMessages (protectRecentMessages : ℤ) :
    List ModelMessage :=
  messages.drop (findSafeCompactionSplitIndex messages protectRecentMessages)

def skipToolResultsForward : List ModelMessage :=
  messages.dropWhile ModelMessage.startsWithToolResult

def pruneFirstModelMessage : List ModelMessage → List ModelMessage
  | [] => []
  | [_] => []
  | first :: second :: rest =>
    if first.endsWithToolCall then skipToolResultsForward (second :: rest)
    else if first.isUser && second.endsWithToolCall then skipToolResultsForward rest
    else if first.isUser && second.isAssistant then rest
    else if first.startsWithToolResult then skipToolResultsForward (first :: second :: rest)
    else second :: rest

theorem length_skip : (skipToolResultsForward messages).length ≤ messages.length :=
  (List.dropWhile_suffix _).length_le

theorem length_pruneFirst : (pruneFirstModelMessage messages).length ≤ messages.length := by
  unfold pruneFirstModelMessage
  split
  · exact le_rfl
  · exact Nat.zero_le _
  · rename_i first second rest
    have whole := length_skip (first :: second :: rest)
    have tail := length_skip (second :: rest)
    have end_ := length_skip rest
    simp only [List.length_cons] at whole tail ⊢
    split
    · omega
    · split
      · omega
      · split
        · omega
        · split
          · omega
          · simp

/-! ## Budgets -/

def COMPACTION_PROMPT_RESERVE : ℚ := 150
def AUTO_COMPACT_BUFFER_CAP : ℚ := 15000
def AUTO_COMPACT_BUFFER_RATIO : ℚ := 4 / 5
def DEFAULT_MAX_OUTPUT_TOKENS : ℚ := 4096
def MIN_OUTPUT_RESERVE : ℚ := 256
def MAX_OUTPUT_SHARE_OF_WINDOW : ℚ := 1 / 4
def DEFAULT_CONTEXT_WINDOW_TOKENS : ℚ := 128000
def DEFAULT_PROTECT_RECENT_MESSAGES : ℤ := 10

def resolveEffectiveMaxOutputTokens (contextWindow maxOutputTokens : ℚ) : ℚ :=
  if contextWindow ≤ 0 then maxOutputTokens
  else min maxOutputTokens
    (max MIN_OUTPUT_RESERVE ⌊contextWindow * MAX_OUTPUT_SHARE_OF_WINDOW⌋)

def computeCompactionBuffer (contextWindow maxOutputTokens : ℚ) : ℚ :=
  let remaining := max 0 (contextWindow - maxOutputTokens)
  let ratioCompactionBuffer : ℚ := ⌈(1 - AUTO_COMPACT_BUFFER_RATIO) * remaining⌉
  min (max maxOutputTokens ratioCompactionBuffer) AUTO_COMPACT_BUFFER_CAP

def computeCompactionThreshold (contextWindow maxOutputTokens : ℚ) : ℚ :=
  let effective := resolveEffectiveMaxOutputTokens contextWindow maxOutputTokens
  let buffer := computeCompactionBuffer contextWindow effective
  max 1 (contextWindow - effective - buffer - COMPACTION_PROMPT_RESERVE)

/-- How many tokens messages cost. -/
abbrev TokenEstimator := List ModelMessage → ℚ

def reservedTotal (reservedTokens : ℚ) : ℚ := max 0 ⌈reservedTokens⌉

def computeTotalInputTokens (tokens : TokenEstimator) (reservedTokens : ℚ)
    (messages : List ModelMessage) : ℚ :=
  tokens messages + reservedTotal reservedTokens

/-- The settings of a step or a turn, its defaults filled in. -/
structure Budget where
  contextWindow : ℚ
  maxOutputTokens : ℚ
  reservedTokens : ℚ
  protectRecentMessages : ℤ

def Budget.default : Budget :=
  ⟨DEFAULT_CONTEXT_WINDOW_TOKENS, DEFAULT_MAX_OUTPUT_TOKENS, 0, DEFAULT_PROTECT_RECENT_MESSAGES⟩

def Budget.threshold (budget : Budget) : ℚ :=
  computeCompactionThreshold budget.contextWindow budget.maxOutputTokens

/-- `total >= threshold`. -/
def Budget.exceeded (budget : Budget) (tokens : TokenEstimator) (messages : List ModelMessage) :
    Bool :=
  budget.threshold ≤ computeTotalInputTokens tokens budget.reservedTokens messages

/-- The loop at the end of `applyStepBudgetGuard`. -/
def pruneWhile (exceeds : List ModelMessage → Bool) (messages : List ModelMessage) :
    List ModelMessage :=
  if exceeds messages ∧ 2 < messages.length then
    if _same : (pruneFirstModelMessage messages).length = messages.length then messages
    else pruneWhile exceeds (pruneFirstModelMessage messages)
  else messages
  termination_by messages.length
  decreasing_by
    have shorter := length_pruneFirst messages
    omega

def applyStepBudgetGuard (texts : TextFunctions) (tokens : TokenEstimator) (budget : Budget)
    (messages : List ModelMessage) : Adjusted :=
  if !budget.exceeded tokens messages then ⟨messages, false⟩
  else
    let splitAt := findSafeCompactionSplitIndex messages budget.protectRecentMessages
    let compressedHead := compressMessagesForRequestTooLargeRetry texts false (messages.take splitAt)
    let next := compressedHead.messages ++ messages.drop splitAt
    let cut := budget.exceeded tokens next && decide (0 < splitAt)
    let kept := if cut then keepRecentContextMessages next budget.protectRecentMessages else next
    let pruned := pruneWhile (budget.exceeded tokens) kept
    ⟨pruned, compressedHead.didAdjust || cut || decide (pruned.length ≠ kept.length) ||
      decide (pruned.length ≠ messages.length)⟩

/-! ## A step -/

/-- `s.includes(part)`. -/
def includesText (s part : JsString) : Bool := s.tails.any part.isPrefixOf

def handleNotice (handles : List JsString) : ModelMessage :=
  .user (.text (text "[Tool output handles available: " ++
    (handles.intersperse (text ", ")).flatten ++ text "]"))

def unannouncedHandles (texts : TextFunctions) (pendingHandles : List JsString)
    (messages : List ModelMessage) : List JsString :=
  pendingHandles.filter fun handle =>
    !messages.any fun message => includesText (texts.visibleContent message) handle

/-- The messages `prepareStepContext` returns; `pendingHandles` are those of the tool
output store, none at step 0. -/
def prepareStepContext (texts : TextFunctions) (tokens : TokenEstimator) (budget : Budget)
    (pendingHandles : List JsString) (messages : List ModelMessage) : List ModelMessage :=
  let integrity := repairToolMessageIntegrity messages
  let stale := pruneStaleToolContext texts (budget.exceeded tokens integrity.messages)
    integrity.messages
  let typed := compressMessagesForRequestTooLargeRetry texts true stale.messages
  let working := (applyStepBudgetGuard texts tokens budget typed.messages).messages
  if unannouncedHandles texts pendingHandles working = [] then working
  else
    let noticeTokens := tokens [handleNotice pendingHandles]
    let working := (applyStepBudgetGuard texts tokens
      { budget with reservedTokens := budget.reservedTokens + noticeTokens } working).messages
    let handles := unannouncedHandles texts pendingHandles working
    if handles = [] then working else working ++ [handleNotice handles]

/-! ## A turn -/

inductive ContextPrepareTrigger where
  | preTurn
  | retry413
  | force
  | step
  deriving DecidableEq

structure PostCompactReinjection where
  permissionMode : Option JsString
  sessionStateText : Option JsString
  sessionScopeSummary : Option JsString
  userGoal : Option JsString
  pendingToolHandleIds : List JsString

/-- A line that a field which is neither missing nor empty adds. -/
def reinjectedLine (label : JsString) (field : Option JsString) : List JsString :=
  match field with
  | none => []
  | some value => if value = [] then [] else [label ++ value]

def buildReinjectionMessages (reinjection : Option PostCompactReinjection) : List ModelMessage :=
  match reinjection with
  | none => []
  | some fields =>
    let lines := reinjectedLine (text "Permission mode: ") fields.permissionMode ++
      reinjectedLine [] fields.sessionStateText ++
      reinjectedLine [] fields.sessionScopeSummary ++
      reinjectedLine (text "Current user goal: ") fields.userGoal ++
      (if fields.pendingToolHandleIds = [] then []
      else [text "Unresolved tool output handles: " ++
        (fields.pendingToolHandleIds.intersperse (text ", ")).flatten])
    if lines = [] then []
    else
      [.user (.text (((text "[Netcatty session context — preserved after compaction]" ::
        lines).intersperse (text "\n")).flatten))]

structure TurnInput where
  budget : Budget
  trigger : ContextPrepareTrigger
  force : Bool
  compressForRequestTooLargeRetry : Bool
  /-- The summary the model returns. -/
  summarize : Option (List ModelMessage → JsString)
  reinjection : Option PostCompactReinjection

/-- `input.force || trigger is '413-retry' or 'force'`. -/
def TurnInput.forced (input : TurnInput) : Bool :=
  input.force || input.trigger = .retry413 || input.trigger = .force

def buildCompactedMessages (summary : JsString) (recentMessages : List ModelMessage) :
    List ModelMessage :=
  .user (.text (text "[Previous conversation summary]\n\n" ++ trim summary ++
    text "\n\n[Continue with the recent messages below.]")) ::
  .assistant (.text (text ("I understand the previous conversation summary and will continue " ++
    "from the recent messages."))) :: recentMessages

/-- `prepareContextCompaction`; `none` where it does not compact. -/
def prepareContextCompaction (tokens : TokenEstimator) (budget : Budget)
    (thresholdRatio : Option ℚ) (summarize : List ModelMessage → JsString)
    (messages : List ModelMessage) : Option (List ModelMessage) :=
  let promptTokens := tokens messages + reservedTotal budget.reservedTokens
  let threshold := match thresholdRatio with
    | some ratio => budget.contextWindow * ratio
    | none => budget.threshold
  let splitAt := findSafeCompactionSplitIndex messages budget.protectRecentMessages
  let summary := trim (summarize (messages.take splitAt))
  if budget.contextWindow ≤ 0 ∨ promptTokens < threshold then none
  else if (messages.take splitAt).isEmpty ∨ summary = [] then none
  else some (buildCompactedMessages summary (messages.drop splitAt))

def compactTurn (tokens : TokenEstimator) (input : TurnInput) (working : Adjusted) :
    Adjusted × Bool :=
  let recent : Adjusted × Bool :=
    if input.forced then
      (⟨keepRecentContextMessages working.messages input.budget.protectRecentMessages, true⟩, false)
    else (working, false)
  match input.summarize with
  | none => recent
  | some summarize =>
    let ratio := if input.force || input.trigger = .force then some 0 else none
    match prepareContextCompaction tokens input.budget ratio summarize working.messages with
    | some compacted => (⟨compacted, true⟩, true)
    | none => recent

/-- The messages `prepareTurnContext` returns. -/
def prepareTurnContext (texts : TextFunctions) (tokens : TokenEstimator) (input : TurnInput)
    (messages : List ModelMessage) : List ModelMessage :=
  let integrity := repairToolMessageIntegrity messages
  let underBudgetPressure := input.forced || input.budget.exceeded tokens integrity.messages
  let stale := pruneStaleToolContext texts underBudgetPressure integrity.messages
  let retry := input.compressForRequestTooLargeRetry || input.trigger = .retry413
  let typed := compressMessagesForRequestTooLargeRetry texts (!retry) stale.messages
  let didAdjust := integrity.didAdjust || stale.didAdjust || typed.didAdjust
  let (working, didLlmSummarize) := compactTurn tokens input ⟨typed.messages, didAdjust⟩
  let reinjection := buildReinjectionMessages input.reinjection
  if !reinjection.isEmpty && working.didAdjust && (underBudgetPressure || didLlmSummarize) then
    let finalGuard := applyStepBudgetGuard texts tokens
      { input.budget with reservedTokens := input.budget.reservedTokens + tokens reinjection }
      working.messages
    reinjection ++ finalGuard.messages
  else working.messages

end Netcatty.AgentContext
