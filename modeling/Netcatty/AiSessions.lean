import Mathlib.Algebra.Order.Floor.Defs
import Mathlib.Data.Rat.Floor
import Netcatty.JsonText
import Netcatty.SyncMerge

/-!
The merge of two copies of a chat session.

A message is its properties, and is known by its id; without one, by its contents.  The messages of
both copies are kept: those that both have are anchors, and what stands between two anchors is one
segment.  The texts that are compared to keep a compaction are a parameter.
-/

namespace Netcatty.SyncMerge

abbrev ChatMessage := JsonObject

def ChatMessage.id (message : ChatMessage) : Option JsString :=
  match message.lookup (text "id") with
  | some (.str id) => some id
  | _ => none

/-- A property that is a number; 0 where it is not set. -/
def numberOrZero (fields : JsonObject) (field : String) : ℚ :=
  match fields.lookup (text field) with
  | some (.num n) => n
  | _ => 0

def ChatMessage.timestamp (message : ChatMessage) : ℚ := numberOrZero message "timestamp"

def AiSession.updatedAt (session : SyncEntity) : ℚ := numberOrZero session.fields "updatedAt"

def objectOf : JsonValue → Option JsonObject
  | .obj fields => some fields
  | _ => none

def AiSession.messages (session : SyncEntity) : List ChatMessage :=
  match session.fields.lookup (text "messages") with
  | some (.arr items) => items.filterMap objectOf
  | _ => []

/-- What the merge of sessions prints: a number, and the messages a compaction has summarized as
another device would have them. -/
structure SessionTexts where
  numberText : ℚ → JsString
  portableText : List ChatMessage → JsString

/-! ## Attachments -/

def propertiesOf : JsonValue → Option JsonObject
  | .obj fields => some fields
  | .arr items => some (items.zipIdx.map fun item => (decimal item.2, item.1))
  | _ => none

def hasBody (attachment : JsonObject) : Bool :=
  match attachment.lookup (text "base64Data") with
  | some (.str (_ :: _)) => true
  | _ => false

def suppliesBody (metadata candidate : JsonObject) : Bool :=
  hasBody candidate && [text "filename", text "mediaType", text "terminalSelection", text "vaultNoteId"].all fun key =>
    candidate.lookup key = metadata.lookup key

/-- An attachment with the body of another. -/
def restoreBody (metadata found : JsonObject) : JsonObject :=
  let restored := setOwnRecordValue metadata (text "base64Data") ((found.lookup (text "base64Data")).getD .null)
  let restored := [text "previewText", text "dataUrl", text "filePath"].foldl (fun restored key =>
    match found.lookup key with
    | some value => setOwnRecordValue restored key value
    | none => restored) restored
  restored.filter fun field => field.1 ≠ text "contentUnavailable"

/-- The attachments so far, and the candidates that are used up. -/
structure RestoreLoop where
  used : List ℕ
  restored : List JsonValue

def restoreAttachment (available : List JsonValue) (loop : RestoreLoop) (item : JsonValue × ℕ) : RestoreLoop :=
  match propertiesOf item.1 with
  | none => ⟨loop.used, loop.restored ++ [item.1]⟩
  | some metadata =>
    let candidate := fun index => (available[index]?.bind propertiesOf).filter fun candidate =>
      !loop.used.contains index && suppliesBody metadata candidate
    let matchIndex := if (candidate item.2).isSome then some item.2
      else (List.range available.length).find? fun index => (candidate index).isSome
    let used := matchIndex.toList ++ loop.used
    match hasBody metadata, matchIndex.bind candidate with
    | false, some found => ⟨used, loop.restored ++ [.obj (restoreBody metadata found)]⟩
    | _, _ => ⟨used, loop.restored ++ [item.1]⟩

def restoreAttachments (available attachments : List JsonValue) : List JsonValue :=
  (attachments.zipIdx.foldl (restoreAttachment available) ⟨[], []⟩).restored

/-- One of the two fields with attachments. -/
def retainField (other result : ChatMessage) (field sibling : JsString) : ChatMessage :=
  let present := fun key => (other.lookup key).filter (· ≠ .null)
  match result.lookup field, present field <|> present sibling with
  | some (.arr attachments), some (.arr available) =>
    setOwnRecordValue result field (.arr (restoreAttachments available attachments))
  | _, _ => result

/-- The bodies of attachments that only the other copy has are kept. -/
def retainAvailableAttachments (preferred other : ChatMessage) : ChatMessage :=
  let result := retainField other preferred (text "attachments") (text "images")
  retainField other result (text "images") (text "attachments")

/-! ## The order of messages -/

section Merge

variable (texts : SessionTexts)

def fingerprint (value : JsonValue) : JsString := stringify texts.numberText (canonicalizeJson value)

def aiMessageKey (message : ChatMessage) : JsString :=
  message.id.getD (texts.numberText message.timestamp ++ text ":" ++ fingerprint texts (.obj message))

/-- Does the left segment come first?  Times only break ties between whole segments. -/
def leftFirst (left right : List ChatMessage) : Bool :=
  match left.head?, right.head? with
  | _, none => true
  | none, some rightHead => aiMessageKey texts rightHead = []
  | some leftHead, some rightHead =>
    aiMessageKey texts rightHead = [] || (aiMessageKey texts leftHead ≠ [] &&
      (leftHead.timestamp < rightHead.timestamp ||
        (leftHead.timestamp = rightHead.timestamp && aiMessageKey texts leftHead < aiMessageKey texts rightHead)))

/-- `Set.add`. -/
def addKey (ordered : List JsString) (key : JsString) : List JsString :=
  if ordered.contains key then ordered else ordered ++ [key]

def appendSegments (ordered : List JsString) (left right : List ChatMessage) : List JsString :=
  let segments := if leftFirst texts left right then left ++ right else right ++ left
  (segments.map (aiMessageKey texts)).foldl addKey ordered

structure OrderLoop where
  startA : ℕ
  startB : ℕ
  ordered : List JsString

/-- `new Map(keys.map((key, index) => [key, index]))`. -/
def indexOfKey (keys : List JsString) : OrderedMap JsString ℕ :=
  keys.zipIdx.foldl (fun map key => map.set key.1 key.2) OrderedMap.empty

/-- One turn of the scan over the messages of the primary copy. -/
def orderTurn (a b : List ChatMessage) (loop : OrderLoop) (item : ChatMessage × ℕ) : OrderLoop :=
  let key := aiMessageKey texts item.1
  match (indexOfKey (b.map (aiMessageKey texts))).get? key with
  | none => loop
  | some otherIndex =>
    if otherIndex < loop.startB then loop
    else
      let ordered := appendSegments texts loop.ordered (a.extract loop.startA item.2) (b.extract loop.startB otherIndex)
      ⟨item.2 + 1, otherIndex + 1, addKey ordered key⟩

def mergeAiMessageOrder (a b : List ChatMessage) : List JsString :=
  let loop := a.zipIdx.foldl (orderTurn texts a b) ⟨0, 0, []⟩
  appendSegments texts loop.ordered (a.drop loop.startA) (b.drop loop.startB)

/-! ## Sessions -/

/-- A message of the newer copy replaces the one of the older copy. -/
def seeMessage (seen : OrderedMap JsString ChatMessage) (message : ChatMessage) : OrderedMap JsString ChatMessage :=
  let key := aiMessageKey texts message
  match seen.get? key with
  | some existing => seen.set key (retainAvailableAttachments message existing)
  | none => seen.set key message

def newerOf (a b : SyncEntity) : SyncEntity := if AiSession.updatedAt a < AiSession.updatedAt b then b else a

def olderOf (a b : SyncEntity) : SyncEntity := if AiSession.updatedAt a < AiSession.updatedAt b then a else b

def keysText (session : SyncEntity) : JsString :=
  stringify texts.numberText (.arr ((AiSession.messages session).map fun message => .str (aiMessageKey texts message)))

/-- The copy whose messages are scanned, and the other. -/
def primaryAndSecondary (a b : SyncEntity) : SyncEntity × SyncEntity :=
  if AiSession.updatedAt a ≠ AiSession.updatedAt b then (newerOf a b, olderOf a b)
  else if keysText texts a ≤ keysText texts b then (a, b) else (b, a)

def compactedMessageCount (fields : JsonObject) : ℕ :=
  match fields.lookup (text "contextCompaction") with
  | some (.obj compaction) => ⌊numberOrZero compaction "compactedMessageCount"⌋.toNat
  | _ => 0

def mergeAiSessionPair (a b : SyncEntity) : SyncEntity :=
  let newer := newerOf a b
  let older := olderOf a b
  let seen := (AiSession.messages older ++ AiSession.messages newer).foldl (seeMessage texts) OrderedMap.empty
  let sides := primaryAndSecondary texts a b
  let messages := (mergeAiMessageOrder texts (AiSession.messages sides.1) (AiSession.messages sides.2)).filterMap seen.get?
  let merged := setOwnRecordValue (setOwnRecordValue newer.fields (text "messages") (.arr (messages.map .obj)))
    (text "updatedAt") (.num (max (AiSession.updatedAt a) (AiSession.updatedAt b)))
  let count := compactedMessageCount merged
  ⟨newer.id,
    if 0 < count ∧ texts.portableText ((AiSession.messages newer).take count) ≠ texts.portableText (messages.take count) then
      merged.filter fun field => field.1 ≠ text "contextCompaction"
    else merged⟩

end Merge

end Netcatty.SyncMerge
