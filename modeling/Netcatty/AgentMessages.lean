import Mathlib.Algebra.Order.Ring.Rat
import Netcatty.JsText
import Netcatty.OrderedMap

/-!
The messages of an agent's conversation, and the repair of their tool calls.

A tool call is a part of an assistant message and a tool result a part that names
the call's id.  `repairToolMessageIntegrity` drops the results that answer nothing
and gives each call without a result one right behind its message.  The source
keeps calls in sets of objects; here a call is named by its place among the tool
calls of the list, so every part is an object of its own.
-/

namespace Netcatty.AgentContext

/-- The `output` of a tool result. -/
inductive ToolOutput where
  | text (value : JsString)
  | json (value : JsonValue)
  /-- Any other shape. -/
  | other (value : JsonValue)

structure ToolResultPart where
  toolCallId : JsString
  toolName : JsString
  output : ToolOutput
  isError : Bool

/-- An `image` or a `file` part. -/
structure Attachment where
  isImage : Bool
  /-- Its data, where that is a string. -/
  payload : Option JsString
  mediaType : Option JsString
  filename : Option JsString

inductive UserPart where
  | text (value : JsString)
  | attachment (attachment : Attachment)

inductive AssistantPart where
  | text (value : JsString)
  | attachment (attachment : Attachment)
  | toolCall (toolCallId toolName : JsString) (input : JsonValue)
  | toolResult (result : ToolResultPart)
  /-- Reasoning, and requests for approval. -/
  | other (value : JsonValue)

inductive ToolPart where
  | toolResult (result : ToolResultPart)
  /-- An answer to a request for approval. -/
  | other (value : JsonValue)

inductive Content (P : Type) where
  | text (value : JsString)
  | parts (list : List P)

inductive ModelMessage where
  | system (content : JsString)
  | user (content : Content UserPart)
  | assistant (content : Content AssistantPart)
  | tool (content : List ToolPart)

def Content.list {P : Type} : Content P → List P
  | .text _ => []
  | .parts list => list

namespace AssistantPart

def call? : AssistantPart → Option JsString
  | toolCall toolCallId _ _ => some toolCallId
  | _ => none

def result? : AssistantPart → Option JsString
  | toolResult result => some result.toolCallId
  | _ => none

end AssistantPart

def ToolPart.result? : ToolPart → Option JsString
  | toolResult result => some result.toolCallId
  | other _ => none

namespace ModelMessage

/-- The ids of the message's tool calls. -/
def calls : ModelMessage → List JsString
  | assistant content => content.list.filterMap AssistantPart.call?
  | _ => []

def toolResults : ModelMessage → List JsString
  | tool content => content.filterMap ToolPart.result?
  | _ => []

def embeddedResults : ModelMessage → List JsString
  | assistant content => content.list.filterMap AssistantPart.result?
  | _ => []

/-- The ids that the message's results name. -/
def results (message : ModelMessage) : List JsString :=
  message.toolResults ++ message.embeddedResults

def isUser : ModelMessage → Bool
  | user _ => true
  | _ => false

def isAssistant : ModelMessage → Bool
  | assistant _ => true
  | _ => false

def endsWithToolCall (message : ModelMessage) : Bool := !message.calls.isEmpty

def startsWithToolResult (message : ModelMessage) : Bool := !message.toolResults.isEmpty

end ModelMessage

/-! ## Repair -/

/-- The variables of the first pass of `repairToolMessageIntegrity`. -/
structure Repair where
  /-- The calls of an id that no result answers yet, nearest last. -/
  pendingCalls : OrderedMap JsString (List ℕ)
  matchedCalls : List ℕ
  /-- The tool calls seen so far. -/
  calls : ℕ
  didAdjust : Bool

namespace Repair

def initial : Repair := ⟨.empty, [], 0, false⟩

/-- `pendingCalls.get(toolCallId) ?? []`. -/
def pending (repair : Repair) (toolCallId : JsString) : List ℕ :=
  (repair.pendingCalls.get? toolCallId).getD []

def noteCall (repair : Repair) (part : AssistantPart) : Repair :=
  match part.call? with
  | none => repair
  | some toolCallId =>
    { repair with
      pendingCalls := repair.pendingCalls.set toolCallId (repair.pending toolCallId ++ [repair.calls]),
      calls := repair.calls + 1 }

def keepPart (repair : Repair) (part : ToolPart) : Repair × Bool :=
  match part.result? with
  | none => (repair, true)
  | some toolCallId =>
    match (repair.pending toolCallId).getLast? with
    | none => ({ repair with didAdjust := true }, false)
    | some call =>
      ({ repair with
        pendingCalls := repair.pendingCalls.set toolCallId (repair.pending toolCallId).dropLast,
        matchedCalls := call :: repair.matchedCalls }, true)

def filterParts (repair : Repair) : List ToolPart → Repair × List ToolPart
  | [] => (repair, [])
  | part :: parts =>
    let now := repair.keepPart part
    let later := now.1.filterParts parts
    (later.1, if now.2 then part :: later.2 else later.2)

/-- The first pass. -/
def sanitize (repair : Repair) : List ModelMessage → Repair × List ModelMessage
  | [] => (repair, [])
  | .assistant content :: messages =>
    let later := (content.list.foldl noteCall repair).sanitize messages
    (later.1, .assistant content :: later.2)
  | .tool content :: messages =>
    let kept := repair.filterParts content
    match kept.2 with
    | [] => { kept.1 with didAdjust := true }.sanitize messages
    | part :: parts =>
      let later := kept.1.sanitize messages
      (later.1, .tool (part :: parts) :: later.2)
  | message :: messages =>
    let later := repair.sanitize messages
    (later.1, message :: later.2)

end Repair

def INTERRUPTED : JsString :=
  text ("[Tool call interrupted before a result was recorded. Do not assume it succeeded " ++
    "or repeat a write automatically; verify current state first.]")

def missingResults (matchedCalls : List ℕ) : ℕ → List AssistantPart → List ToolResultPart
  | _, [] => []
  | call, .toolCall toolCallId toolName _ :: parts =>
    if call ∈ matchedCalls then missingResults matchedCalls (call + 1) parts
    else ⟨toolCallId, toolName, .text INTERRUPTED, true⟩ ::
      missingResults matchedCalls (call + 1) parts
  | call, _ :: parts => missingResults matchedCalls call parts

def insertedResults (matchedCalls : List ℕ) (call : ℕ) : ModelMessage → List ToolResultPart
  | .assistant content => missingResults matchedCalls call content.list
  | _ => []

/-- The second pass. -/
def insertMissing (matchedCalls : List ℕ) (call : ℕ) : List ModelMessage → List ModelMessage
  | [] => []
  | message :: messages =>
    let later := insertMissing matchedCalls (call + message.calls.length) messages
    match insertedResults matchedCalls call message with
    | [] => message :: later
    | missing => message :: .tool (missing.map .toolResult) :: later

/-- Does the second pass insert anything? -/
def insertsAny (matchedCalls : List ℕ) (call : ℕ) : List ModelMessage → Bool
  | [] => false
  | message :: messages =>
    !(insertedResults matchedCalls call message).isEmpty ||
      insertsAny matchedCalls (call + message.calls.length) messages

/-- Messages, and whether anything was changed in them. -/
structure Adjusted where
  messages : List ModelMessage
  didAdjust : Bool

def repairToolMessageIntegrity (messages : List ModelMessage) : Adjusted :=
  let first := Repair.initial.sanitize messages
  let didAdjust := first.1.didAdjust || insertsAny first.1.matchedCalls 0 first.2
  ⟨if didAdjust then insertMissing first.1.matchedCalls 0 first.2 else messages, didAdjust⟩

end Netcatty.AgentContext
