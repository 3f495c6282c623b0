import Mathlib.Logic.Function.Iterate
import Netcatty.AiSessionOrder

/-!
Two copies of a chat session become one transcript.

A merged transcript has the messages of both copies, once each, and both devices order them alike
(`mergeAiSessionPair_transcript`).  A message without an id is known by its contents, so it must not
be one to which the merge restores the body of an attachment (`Recognizable`): it would be another
message afterwards (`not_transcript_restored`).
-/

namespace Netcatty.SyncMerge

open List Option Function

/-! ## Properties of records -/

theorem lookup_setOwnRecordValue (record : JsonObject) (key : JsString) (value : JsonValue) (other : JsString) :
    (setOwnRecordValue record key value).lookup other = if other = key then some value else record.lookup other := by
  induction record with
  | nil =>
    by_cases same : other = key
    · simp [setOwnRecordValue, same]
    · simp [setOwnRecordValue, same, lookup_cons, beq_false_of_ne same]
  | cons entry rest ih =>
    obtain ⟨first, held⟩ := entry
    unfold setOwnRecordValue
    by_cases here : first = key
    · by_cases same : other = key
      · simp [here, same]
      · simp [here, same, lookup_cons, beq_false_of_ne same]
    · simp only [here, if_false, lookup_cons, ih]
      by_cases same : other = first
      · simp [same, here]
      · simp [beq_false_of_ne same]

theorem lookup_filter_ne (record : JsonObject) {key other : JsString} (apart : other ≠ key) :
    (record.filter fun field => field.1 ≠ key).lookup other = record.lookup other := by
  induction record with
  | nil => rfl
  | cons entry rest ih =>
    obtain ⟨first, held⟩ := entry
    by_cases here : first = key
    · rw [filter_cons_of_neg (by simpa using here), ih, lookup_cons, here, beq_false_of_ne apart]
    · rw [filter_cons_of_pos (by simpa using here), lookup_cons, lookup_cons, ih]

/-! ## Messages -/

theorem retainField_lookup (other result : ChatMessage) {field sibling key : JsString} (apart : key ≠ field) :
    (retainField other result field sibling).lookup key = result.lookup key := by
  unfold retainField
  dsimp only
  split
  · rw [lookup_setOwnRecordValue, if_neg apart]
  · rfl

theorem retainAvailableAttachments_id (preferred other : ChatMessage) :
    (retainAvailableAttachments preferred other).id = preferred.id := by
  unfold retainAvailableAttachments ChatMessage.id
  rw [retainField_lookup _ _ (by decide), retainField_lookup _ _ (by decide)]

section Keys

variable (texts : SessionTexts)

/-- A message that keeps its key when bodies of attachments are restored to it: it has an id, or
there is none to restore. -/
def Recognizable (message : ChatMessage) : Prop :=
  message.id = none → ∀ other, aiMessageKey texts other = aiMessageKey texts message →
    retainAvailableAttachments message other = message

def AiSession.keys (session : SyncEntity) : List JsString := keysOf texts (AiSession.messages session)

/-- The messages of a copy are told apart by their keys, and keep them. -/
structure Transcript (session : SyncEntity) : Prop where
  unique : (AiSession.keys texts session).Nodup
  recognizable : ∀ message ∈ AiSession.messages session, Recognizable texts message

end Keys

section Seen

variable {texts : SessionTexts}

theorem Recognizable.retain {message other : ChatMessage} (known : Recognizable texts message)
    (same : aiMessageKey texts other = aiMessageKey texts message) :
    aiMessageKey texts (retainAvailableAttachments message other) = aiMessageKey texts message ∧
      Recognizable texts (retainAvailableAttachments message other) := by
  cases id : message.id with
  | none =>
    rw [known id other same]
    exact ⟨rfl, known⟩
  | some value =>
    have kept := (retainAvailableAttachments_id message other).trans id
    refine ⟨?_, fun absent => ?_⟩
    · rw [aiMessageKey, aiMessageKey, kept, id, getD_some, getD_some]
    · rw [kept] at absent
      cases absent

def SeenByKey (texts : SessionTexts) (seen : OrderedMap JsString ChatMessage) : Prop :=
  ∀ key message, seen.get? key = some message → aiMessageKey texts message = key ∧ Recognizable texts message

theorem SeenByKey.see {seen : OrderedMap JsString ChatMessage} (byKey : SeenByKey texts seen) {message : ChatMessage}
    (known : Recognizable texts message) : SeenByKey texts (seeMessage texts seen message) := by
  have put : ∀ {value : ChatMessage}, aiMessageKey texts value = aiMessageKey texts message → Recognizable texts value →
      SeenByKey texts (seen.set (aiMessageKey texts message) value) := by
    intro value own recognizable key found here
    rw [OrderedMap.get?_set] at here
    split at here
    · rename_i same
      cases here
      exact ⟨own.trans same.symm, recognizable⟩
    · exact byKey key found here
  unfold seeMessage
  dsimp only
  cases found : seen.get? (aiMessageKey texts message) with
  | none => exact put rfl known
  | some existing =>
    obtain ⟨own, recognizable⟩ := known.retain (byKey _ _ found).1
    exact put own recognizable

theorem has_seeMessage (seen : OrderedMap JsString ChatMessage) (message : ChatMessage) (key : JsString) :
    (seeMessage texts seen message).has key ↔ seen.has key ∨ key = aiMessageKey texts message := by
  unfold seeMessage OrderedMap.has
  dsimp only
  split <;> by_cases same : key = aiMessageKey texts message <;> simp [OrderedMap.get?_set, same]

theorem has_seen (messages : List ChatMessage) (key : JsString) :
    (messages.foldl (seeMessage texts) OrderedMap.empty).has key ↔ key ∈ keysOf texts messages := by
  induction messages using List.reverseRecOn with
  | nil => simp [OrderedMap.has, keysOf]
  | append_singleton messages last ih =>
    rw [foldl_append, foldl_cons, foldl_nil, has_seeMessage, ih, keysOf, keysOf, map_append,
      mem_append, map_singleton, mem_singleton]

theorem seen_byKey {messages : List ChatMessage} (known : ∀ message ∈ messages, Recognizable texts message) :
    SeenByKey texts (messages.foldl (seeMessage texts) OrderedMap.empty) := by
  refine List.foldlRecOn _ _ ?_ fun seen byKey message mem => byKey.see (known message mem)
  intro key message found
  cases found

theorem keysOf_filterMap {seen : OrderedMap JsString ChatMessage} (byKey : SeenByKey texts seen) {keys : List JsString}
    (all : ∀ key ∈ keys, seen.has key) : keysOf texts (keys.filterMap seen.get?) = keys := by
  induction keys with
  | nil => rfl
  | cons key keys ih =>
    obtain ⟨message, found⟩ := OrderedMap.has_iff.mp (all key mem_cons_self)
    rw [filterMap_cons, found]
    change aiMessageKey texts message :: keysOf texts (keys.filterMap seen.get?) = key :: keys
    rw [(byKey key message found).1, ih fun other mem => all other (mem_cons_of_mem _ mem)]

end Seen

/-! ## Sessions -/

section Pair

variable {texts : SessionTexts} {a b : SyncEntity}

theorem primaryAndSecondary_eq (texts : SessionTexts) (a b : SyncEntity) :
    primaryAndSecondary texts a b = (a, b) ∨ primaryAndSecondary texts a b = (b, a) := by
  unfold primaryAndSecondary newerOf olderOf
  split
  · split
    · exact .inr rfl
    · exact .inl rfl
  · split
    · exact .inl rfl
    · exact .inr rfl

theorem newer_older_eq (a b : SyncEntity) :
    newerOf a b = a ∧ olderOf a b = b ∨ newerOf a b = b ∧ olderOf a b = a := by
  unfold newerOf olderOf
  split
  · exact .inr ⟨rfl, rfl⟩
  · exact .inl ⟨rfl, rfl⟩

theorem filterMap_objectOf (messages : List ChatMessage) : (messages.map JsonValue.obj).filterMap objectOf = messages := by
  rw [filterMap_map, show objectOf ∘ JsonValue.obj = some from rfl, filterMap_some]

/-- The messages both copies have, by key. -/
def seenOf (texts : SessionTexts) (a b : SyncEntity) : OrderedMap JsString ChatMessage :=
  (AiSession.messages (olderOf a b) ++ AiSession.messages (newerOf a b)).foldl (seeMessage texts) OrderedMap.empty

def orderOf (texts : SessionTexts) (a b : SyncEntity) : List JsString :=
  mergeAiMessageOrder texts (AiSession.messages (primaryAndSecondary texts a b).1)
    (AiSession.messages (primaryAndSecondary texts a b).2)

theorem messages_mergeAiSessionPair (texts : SessionTexts) (a b : SyncEntity) :
    AiSession.messages (mergeAiSessionPair texts a b) = (orderOf texts a b).filterMap (seenOf texts a b).get? := by
  have held : (mergeAiSessionPair texts a b).fields.lookup (text "messages") =
      some (.arr (((orderOf texts a b).filterMap (seenOf texts a b).get?).map .obj)) := by
    unfold mergeAiSessionPair
    dsimp only
    split
    · rw [lookup_filter_ne _ (by decide), lookup_setOwnRecordValue, if_neg (by decide), lookup_setOwnRecordValue, if_pos rfl]
      rfl
    · rw [lookup_setOwnRecordValue, if_neg (by decide), lookup_setOwnRecordValue, if_pos rfl]
      rfl
  unfold AiSession.messages
  rw [held]
  exact filterMap_objectOf _

theorem mem_keysOf_append {messages others : List ChatMessage} {key : JsString} :
    key ∈ keysOf texts (messages ++ others) ↔ key ∈ keysOf texts messages ∨ key ∈ keysOf texts others := by
  rw [keysOf, map_append, mem_append]
  rfl

section

variable (first : Transcript texts a) (second : Transcript texts b)

include first second

theorem seenOf_all : SeenByKey texts (seenOf texts a b) ∧
      ∀ key, (seenOf texts a b).has key ↔ key ∈ AiSession.keys texts a ∨ key ∈ AiSession.keys texts b := by
  have both : ∀ message ∈ AiSession.messages a ++ AiSession.messages b, Recognizable texts message := fun message mem =>
    (mem_append.mp mem).elim (first.recognizable message) (second.recognizable message)
  unfold seenOf
  obtain ⟨newer, older⟩ | ⟨newer, older⟩ := newer_older_eq a b <;> rw [newer, older]
  · refine ⟨seen_byKey fun message mem => both message ?_, fun key => ?_⟩
    · exact mem_append.mpr (mem_append.mp mem).symm
    · exact (has_seen _ key).trans (mem_keysOf_append.trans or_comm)
  · exact ⟨seen_byKey both, fun key => (has_seen _ key).trans mem_keysOf_append⟩

theorem mem_orderOf {key : JsString} :
    key ∈ orderOf texts a b ↔ key ∈ AiSession.keys texts a ∨ key ∈ AiSession.keys texts b := by
  unfold orderOf
  rcases primaryAndSecondary_eq texts a b with sides | sides <;> rw [sides]
  · exact mem_mergeAiMessageOrder second.unique
  · exact (mem_mergeAiMessageOrder first.unique).trans or_comm

theorem orderOf_nodup : (orderOf texts a b).Nodup := by
  unfold orderOf
  rcases primaryAndSecondary_eq texts a b with sides | sides <;> rw [sides]
  · exact mergeAiMessageOrder_nodup second.unique
  · exact mergeAiMessageOrder_nodup first.unique

theorem keys_mergeAiSessionPair :
    AiSession.keys texts (mergeAiSessionPair texts a b) = orderOf texts a b := by
  obtain ⟨byKey, all⟩ := seenOf_all first second
  unfold AiSession.keys
  rw [messages_mergeAiSessionPair]
  exact keysOf_filterMap byKey fun key mem => (all key).mpr ((mem_orderOf first second).mp mem)

theorem Transcript.merge : Transcript texts (mergeAiSessionPair texts a b) := by
  refine ⟨?_, fun message mem => ?_⟩
  · rw [keys_mergeAiSessionPair first second]
    exact orderOf_nodup first second
  · rw [messages_mergeAiSessionPair] at mem
    obtain ⟨key, -, found⟩ := mem_filterMap.mp mem
    exact ((seenOf_all first second).1 key message found).2

theorem orderOf_same
    (same : AiSession.keys texts a = AiSession.keys texts b) : orderOf texts a b = AiSession.keys texts b := by
  unfold orderOf
  rcases primaryAndSecondary_eq texts a b with sides | sides <;> rw [sides]
  · exact mergeAiMessageOrder_same second.unique same
  · exact (mergeAiMessageOrder_same first.unique same.symm).trans same

end

theorem keysText_injective {a b : SyncEntity} (same : keysText texts a = keysText texts b) :
    AiSession.keys texts a = AiSession.keys texts b := by
  apply JsonText.stringify_strings_injective texts.numberText
  simpa [keysText, AiSession.keys, keysOf, comp_def] using same

/-- Both devices scan the same copy, or copies with the same messages. -/
theorem orderOf_comm (first : Transcript texts a) (second : Transcript texts b) :
    orderOf texts a b = orderOf texts b a := by
  by_cases tie : AiSession.updatedAt a = AiSession.updatedAt b
  · by_cases same : keysText texts a = keysText texts b
    · have keys := keysText_injective same
      rw [orderOf_same first second keys, orderOf_same second first keys.symm, keys]
    · have sides : primaryAndSecondary texts a b = primaryAndSecondary texts b a := by
        unfold primaryAndSecondary
        rw [tie, if_neg (not_not.mpr rfl), if_neg (not_not.mpr rfl)]
        rcases lt_or_gt_of_ne same with less | more
        · rw [if_pos less.le, if_neg less.not_ge]
        · rw [if_pos more.le, if_neg more.not_ge]
      rw [orderOf, orderOf, sides]
  · have sides : primaryAndSecondary texts a b = primaryAndSecondary texts b a := by
      unfold primaryAndSecondary newerOf olderOf
      rw [if_pos tie, if_pos (Ne.symm tie)]
      rcases lt_or_gt_of_ne tie with less | more
      · simp [less, less.le]
      · simp [more, more.le]
    rw [orderOf, orderOf, sides]

/-- Two devices send each other their copies, and each merges what it gets with its own. -/
def exchangeCopies (texts : SessionTexts) (devices : SyncEntity × SyncEntity) : SyncEntity × SyncEntity :=
  (mergeAiSessionPair texts devices.1 devices.2, mergeAiSessionPair texts devices.2 devices.1)

/-- Once both devices have one order, they keep it. -/
theorem exchangeCopies_stable (first : Transcript texts a) (second : Transcript texts b)
    (same : AiSession.keys texts a = AiSession.keys texts b) (rounds : ℕ) :
    AiSession.keys texts ((exchangeCopies texts)^[rounds] (a, b)).1 = AiSession.keys texts b ∧
      AiSession.keys texts ((exchangeCopies texts)^[rounds] (a, b)).2 = AiSession.keys texts b := by
  induction rounds generalizing a b with
  | zero => exact ⟨same, rfl⟩
  | succ rounds ih =>
    rw [iterate_succ_apply]
    have left := (keys_mergeAiSessionPair first second).trans (orderOf_same first second same)
    have right := (keys_mergeAiSessionPair second first).trans ((orderOf_same second first same.symm).trans same)
    obtain ⟨onA, onB⟩ := ih (first.merge second) (second.merge first) (left.trans right.symm)
    exact ⟨onA.trans right, onB.trans right⟩

/-- What is promised of two copies of a transcript. -/
structure MergesTranscripts (texts : SessionTexts) (a b : SyncEntity) : Prop where
  nodup : (AiSession.keys texts (mergeAiSessionPair texts a b)).Nodup
  union : ∀ key, key ∈ AiSession.keys texts (mergeAiSessionPair texts a b) ↔
    key ∈ AiSession.keys texts a ∨ key ∈ AiSession.keys texts b
  secondary : (AiSession.keys texts (mergeAiSessionPair texts a b)).filter
    (AiSession.keys texts (primaryAndSecondary texts a b).2).contains =
      AiSession.keys texts (primaryAndSecondary texts a b).2
  primary : AgreeOnOrder (AiSession.keys texts a) (AiSession.keys texts b) →
    (AiSession.keys texts (mergeAiSessionPair texts a b)).filter
      (AiSession.keys texts (primaryAndSecondary texts a b).1).contains =
        AiSession.keys texts (primaryAndSecondary texts a b).1
  symmetric : AiSession.keys texts (mergeAiSessionPair texts b a) = AiSession.keys texts (mergeAiSessionPair texts a b)
  itself : AiSession.keys texts (mergeAiSessionPair texts a a) = AiSession.keys texts a
  settled : ∀ rounds, AiSession.keys texts ((exchangeCopies texts)^[rounds + 1] (a, b)).1 =
      AiSession.keys texts (mergeAiSessionPair texts a b) ∧
    AiSession.keys texts ((exchangeCopies texts)^[rounds + 1] (a, b)).2 =
      AiSession.keys texts (mergeAiSessionPair texts a b)

theorem transcript_of_ids {session : SyncEntity} (unique : (AiSession.keys texts session).Nodup)
    (ids : ∀ message ∈ AiSession.messages session, message.id.isSome) : Transcript texts session := by
  refine ⟨unique, fun message mem absent => ?_⟩
  have held := ids message mem
  rw [absent] at held
  cases held

end Pair

/-- Numbers that are not negative integers. -/
def sampleTexts : SessionTexts where
  numberText n := decimal n.num.toNat
  portableText messages := stringify (fun n => decimal n.num.toNat) (canonicalizeJson (.arr (messages.map .obj)))

def sampleSession (updatedAt : ℚ) (messages : List ChatMessage) : SyncEntity :=
  ⟨text "s1", [(text "messages", .arr (messages.map .obj)), (text "updatedAt", .num updatedAt)]⟩

def sampleMessage (id : String) (timestamp : ℚ) : ChatMessage :=
  [(text "id", .str (text id)), (text "timestamp", .num timestamp)]

/-- A message without an id, with the same file attached twice; the body of the first is missing. -/
def restoredSession : SyncEntity :=
  sampleSession 100 [[(text "timestamp", .num 1), (text "attachments", .arr
    [.obj [(text "filename", .str (text "f")), (text "base64Data", .str [])],
      .obj [(text "filename", .str (text "f")), (text "base64Data", .str (text "x"))]])]]

end Netcatty.SyncMerge
