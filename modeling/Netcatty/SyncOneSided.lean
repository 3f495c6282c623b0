import Netcatty.AiSessionMerge
import Netcatty.SyncChanges

/-!
A merge in which one side has changed, or both to the same.

Where a side is as in the base, the merged collections have the content of the other side, and
where both sides are the same they have theirs; no conflict is reported (`merge_oneSided`).
-/

namespace Netcatty.SyncMerge

open List Option OrderedMap

section Loop

variable {T : Type} {ops : EntityOps T}

theorem get?_byId_filterMap {turn : JsString → Option T} (own : ∀ id, ∀ item ∈ turn id, ops.id item = id)
    {ids : List JsString} (nodup : ids.Nodup) (id : JsString) :
    (byId ops (ids.filterMap turn)).get? id = if id ∈ ids then turn id else none := by
  induction ids using List.reverseRecOn with
  | nil => rfl
  | append_singleton ids last ih =>
    obtain ⟨nodup', -, fresh⟩ := nodup_append.mp nodup
    have new : last ∉ ids := fun mem => fresh last mem last (mem_singleton_self last) rfl
    rw [filterMap_append]
    cases kept : turn last with
    | none =>
      simp only [filterMap_cons, kept, filterMap_nil, append_nil, ih nodup', mem_append,
        mem_singleton]
      by_cases same : id = last
      · simp [same, new, kept]
      · simp [same]
    | some item =>
      simp only [filterMap_cons, kept, filterMap_nil, byId_snoc, OrderedMap.get?_set, ih nodup', own last item kept,
        mem_append, mem_singleton]
      by_cases same : id = last
      · simp [same, kept]
      · simp [same]

section

variable {merge : JsString → Option T → Option T → Option T → EntityOutcome T}

theorem get?_mergeById
    (keeps : KeepsId ops merge) (absent : ∀ id, (merge id none none none).kept = none)
    (base local_ remote : List T) (id : JsString) :
    (byId ops (mergeById ops merge base local_ remote).merged).get? id =
      (merge id ((byId ops base).get? id) ((byId ops local_).get? id) ((byId ops remote).get? id)).kept := by
  have own : ∀ id, ∀ item ∈ (merge id ((byId ops base).get? id) ((byId ops local_).get? id)
      ((byId ops remote).get? id)).kept, ops.id item = id := by
    intro id item kept
    exact keeps.own kept
  unfold mergeById
  dsimp only
  rw [filterMap_map, show (EntityOutcome.kept ∘ fun id => merge id ((byId ops base).get? id)
    ((byId ops local_).get? id) ((byId ops remote).get? id)) = fun id => (merge id ((byId ops base).get? id)
    ((byId ops local_).get? id) ((byId ops remote).get? id)).kept from rfl,
    get?_byId_filterMap own (eraseDups_nodup _)]
  split
  · rfl
  · rename_i outside
    simp only [mem_eraseDups, mem_append, not_or, get?_eq_none.symm] at outside
    obtain ⟨⟨atBase, atLocal⟩, atRemote⟩ := outside
    rw [atBase, atLocal, atRemote, absent]

theorem conflicts_mergeById {base local_ remote : List T}
    (calm : ∀ id, (merge id ((byId ops base).get? id) ((byId ops local_).get? id)
      ((byId ops remote).get? id)).counts.conflicts = 0) :
    (mergeById ops merge base local_ remote).counts.conflicts = 0 := by
  unfold mergeById
  dsimp only
  refine List.foldlRecOn (motive := fun counts : MergeSummary => counts.conflicts = 0) _ _ rfl ?_
  intro counts zero outcome mem
  obtain ⟨id, -, rfl⟩ := List.mem_map.mp mem
  simp [MergeSummary.plus, zero, calm]

end

/-- What is kept of an id has the content of an item: it is the item, or the base's with the same
fingerprint, or nothing where there is none. -/
inductive Settles (ops : EntityOps T) (base item : Option T) : Option T → Prop
  | absent (none_ : item = none) : Settles ops base item none
  | item {entity : T} (here : item = some entity) : Settles ops base item (some entity)
  | base {entity other : T} (held : base = some entity) (here : item = some other)
    (same : ops.sameFingerprint other entity = true) : Settles ops base item (some entity)

def CombinesItself (ops : EntityOps T) : Prop := ∀ base item, ops.combine base item item = (item, false)

/-- A turn that keeps the content of an item, and reports no conflict. -/
def Calm (ops : EntityOps T) (base item : Option T) (outcome : EntityOutcome T) : Prop :=
  Settles ops base item outcome.kept ∧ outcome.counts.conflicts = 0

theorem addition_calm {tombstone : Bool} (unrecorded : tombstone = false) {base : Option T} (item : T)
    (added deleted : SideCounts) : Calm ops base (some item) (addition tombstone item added deleted) := by
  rw [unrecorded]
  exact ⟨.item rfl, rfl⟩

theorem deletion_calm (reflexive : ∀ item, ops.sameFingerprint item item) {options : EntityMergeOptions}
    (honoured : options.preserveDeletions = false) (baseItem : T) (deleted : SideCounts) :
    Calm ops (some baseItem) none (deletion ops options baseItem baseItem deleted) := by
  unfold deletion
  rw [reflexive, honoured]
  exact ⟨.absent rfl, rfl⟩

/-- A turn in which one side is as the base, or both sides are the same. -/
theorem mergeEntity_calm (reflexive : ∀ item, ops.sameFingerprint item item) (combines : CombinesItself ops)
    {options : EntityMergeOptions} (honoured : options.preserveDeletions = false) {tombstones : Tombstones}
    (unrecorded : tombstones = ⟨[], []⟩) (id : JsString) (base item : Option T) :
    Calm ops base item (mergeEntity ops options tombstones id base base item) ∧
      Calm ops base item (mergeEntity ops options tombstones id base item base) ∧
      Calm ops base item (mergeEntity ops options tombstones id base item item) := by
  rcases base with _ | baseItem
  · rcases item with _ | item
    · exact ⟨⟨.absent rfl, rfl⟩, ⟨.absent rfl, rfl⟩, .absent rfl, rfl⟩
    · refine ⟨addition_calm ?_ item _ _, addition_calm ?_ item _ _, .item rfl, ?_⟩
      · simp [unrecorded]
      · simp [unrecorded]
      · simp [mergeEntity, reflexive, MergeSummary.zero]
  · rcases item with _ | item
    · exact ⟨deletion_calm reflexive honoured baseItem _, deletion_calm reflexive honoured baseItem _, .absent rfl, rfl⟩
    · unfold mergeEntity
      dsimp only
      rw [reflexive, reflexive]
      cases same : ops.sameFingerprint item baseItem with
      | true => exact ⟨⟨.base rfl rfl same, rfl⟩, ⟨.base rfl rfl same, rfl⟩, .base rfl rfl same, rfl⟩
      | false =>
        refine ⟨⟨.item rfl, rfl⟩, ⟨.item rfl, rfl⟩, ?_⟩
        cases fields : options.mergeFields with
        | true =>
          simp only [combines baseItem item]
          exact ⟨.item rfl, rfl⟩
        | false => exact ⟨.item rfl, rfl⟩

end Loop

/-! ## Entities -/

theorem sameFingerprint_self (entity : SyncEntity) : entityOps.sameFingerprint entity entity := by
  simp [entityOps]

theorem setOwnRecordValue_lookup {fields : JsonObject} {field : JsString} {value : JsonValue}
    (held : fields.lookup field = some value) : setOwnRecordValue fields field value = fields := by
  induction fields with
  | nil => cases held
  | cons entry rest ih =>
    obtain ⟨key, current⟩ := entry
    rw [lookup_cons] at held
    by_cases same : key = field
    · subst same
      simp only [beq_self_eq_true] at held
      simp [setOwnRecordValue, Option.some.inj held]
    · have other : (field == key) = false := beq_false_of_ne (Ne.symm same)
      rw [other] at held
      simp [setOwnRecordValue, same, ih held]

theorem combineFields_self : CombinesItself entityOps := by
  intro base item
  have unchanged : ∀ fields : List JsString,
      fields.foldl (combineField base item item) (item.fields, false) = (item.fields, false) := by
    intro fields
    refine List.foldlRecOn (motive := fun combined => combined = (item.fields, false)) _ _ rfl ?_
    rintro combined rfl field -
    unfold combineField
    dsimp only
    rw [sameField_self, Bool.not_true, Bool.and_false, Bool.or_false]
    cases held : item.fields.lookup field with
    | none => cases !sameField none (base.fields.lookup field) <;> rfl
    | some value =>
      cases !sameField (some value) (base.fields.lookup field) with
      | false => rfl
      | true => exact congrArg (·, false) (setOwnRecordValue_lookup held)
  simp only [entityOps, combineFields]
  rw [unchanged]

/-! ## Sides -/

/-- One side is as in the base, or both sides have changed to the same. -/
inductive OneSided {α : Type} (base x : α) : α → α → Prop
  | remote : OneSided base x base x
  | ofLocal : OneSided base x x base
  | both : OneSided base x x x

theorem OneSided.map {α β : Type} {base x local_ remote : α} (one : OneSided base x local_ remote) (f : α → β) :
    OneSided (f base) (f x) (f local_) (f remote) := by
  cases one with
  | remote => exact .remote
  | ofLocal => exact .ofLocal
  | both => exact .both

/-- A property of the base and of the changed side is one of both sides. -/
theorem OneSided.forall {α : Type} {base x local_ remote : α} (one : OneSided base x local_ remote) {p : α → Prop}
    (atBase : p base) (atX : p x) : p local_ ∧ p remote := by
  cases one with
  | remote => exact ⟨atBase, atX⟩
  | ofLocal => exact ⟨atX, atBase⟩
  | both => exact ⟨atX, atX⟩

theorem mergeEntityArrays_oneSided {base x local_ remote : List SyncEntity} (one : OneSided base x local_ remote)
    {options : EntityMergeOptions} (honoured : options.preserveDeletions = false) {tombstones : Tombstones}
    (unrecorded : tombstones = ⟨[], []⟩) :
    (∀ id, Settles entityOps ((byId entityOps base).get? id) ((byId entityOps x).get? id)
      ((byId entityOps (mergeEntityArrays entityOps base local_ remote tombstones options).merged).get? id)) ∧
    (mergeEntityArrays entityOps base local_ remote tombstones options).counts.conflicts = 0 := by
  have calm : ∀ id, Calm entityOps ((byId entityOps base).get? id) ((byId entityOps x).get? id)
      (mergeEntity entityOps options tombstones id ((byId entityOps base).get? id) ((byId entityOps local_).get? id)
        ((byId entityOps remote).get? id)) := by
    intro id
    obtain ⟨first, second, third⟩ := mergeEntity_calm sameFingerprint_self combineFields_self honoured unrecorded id
      ((byId entityOps base).get? id) ((byId entityOps x).get? id)
    cases one with
    | remote => exact first
    | ofLocal => exact second
    | both => exact third
  refine ⟨fun id => ?_, conflicts_mergeById fun id => (calm id).2⟩
  unfold mergeEntityArrays
  rw [get?_mergeById (mergeEntity_keepsId _ _ _) fun _ => rfl]
  exact (calm id).1

theorem mergeStringArrays_oneSided {base x local_ remote : List JsString} (one : OneSided base x local_ remote)
    {options : EntityMergeOptions} (honoured : options.preserveDeletions = false) {tombstones : Tombstones}
    (unrecorded : tombstones = ⟨[], []⟩) (value : JsString) :
    value ∈ mergeStringArrays base local_ remote tombstones options ↔ value ∈ x := by
  have kept : keepsString base local_ remote tombstones options value = x.contains value := by
    unfold keepsString
    rw [honoured, unrecorded]
    cases one with
    | remote => cases base.contains value <;> cases x.contains value <;> rfl
    | ofLocal => cases base.contains value <;> cases x.contains value <;> rfl
    | both => cases base.contains value <;> cases x.contains value <;> rfl
  unfold mergeStringArrays
  rw [mem_filter, kept, contains_iff_mem]
  simp only [mem_eraseDups, mem_append]
  refine ⟨And.right, fun mem => ⟨?_, mem⟩⟩
  cases one with
  | remote => exact .inr mem
  | ofLocal => exact .inl (.inr mem)
  | both => exact .inr mem

/-! ## Content -/

def SameContent (key : CloudSyncPayloadEntityKey) (payload other : SyncPayload) : Prop :=
  ∀ id, sameField ((entityMap (payload.values key)).get? id) ((entityMap (other.values key)).get? id) = true

theorem get?_entityMap_map {ops : EntityOps SyncEntity} (json : SyncEntity → JsonValue) (entities : List SyncEntity)
    (id : JsString) :
    (entityMap (some (entities.map fun entity => (ops.id entity, json entity)))).get? id =
      ((byId ops entities).get? id).map json := by
  unfold entityMap
  rw [getD_some]
  induction entities using List.reverseRecOn with
  | nil => rfl
  | append_singleton entities last ih =>
    rw [byId_snoc, OrderedMap.get?_set, map_append, foldl_append, map_singleton, foldl_cons,
      foldl_nil, OrderedMap.get?_set, ih]
    split <;> rfl

theorem get?_entityMap_strings (strings : List JsString) (id : JsString) :
    (entityMap (some (strings.map SyncPayload.values.stringValue))).get? id =
      if id ∈ strings then some (.str id) else none := by
  unfold entityMap
  rw [getD_some]
  induction strings using List.reverseRecOn with
  | nil => rfl
  | append_singleton strings last ih =>
    rw [map_append, foldl_append, map_singleton, foldl_cons, foldl_nil, OrderedMap.get?_set, ih]
    by_cases same : id = last <;> simp [SyncPayload.values.stringValue, same]

theorem sameField_symm {a b : Option JsonValue} (same : sameField a b) : sameField b a := by
  cases a <;> cases b <;> simp_all [sameField]

/-- What settles an id has its content. -/
theorem Settles.sameField {base item kept : Option SyncEntity} (settles : Settles entityOps base item kept) :
    sameField (kept.map SyncEntity.json) (item.map SyncEntity.json) := by
  cases settles with
  | absent none_ => rw [none_]; rfl
  | item here => rw [here]; exact sameField_self _
  | base held here same =>
    rw [here]
    exact sameField_symm (a := some _) (b := some _) same

/-! ## Configurations of groups -/

theorem mem_of_get?_byId {T : Type} {ops : EntityOps T} {entities : List T} {id : JsString} {entity : T}
    (found : (byId ops entities).get? id = some entity) : entity ∈ entities := by
  induction entities using List.reverseRecOn with
  | nil => cases found
  | append_singleton entities last ih =>
    rw [byId_snoc, OrderedMap.get?_set] at found
    split at found
    · rw [← Option.some.inj found]
      exact mem_append_right _ (mem_singleton_self last)
    · exact mem_append_left _ (ih found)

theorem canonicalizeJson_cons_cancel {property : JsString × JsonValue} {fields fields' : JsonObject}
    (same : canonicalizeJson (.obj (property :: fields)) = canonicalizeJson (.obj (property :: fields'))) :
    canonicalizeJson (.obj fields) = canonicalizeJson (.obj fields') := by
  simp only [canonicalizeJson, canonicalizeFields, JsonValue.obj.injEq, insertionSort_cons] at same ⊢
  have erased := congrArg (fun sorted => @List.erase _ instBEqOfDecidableEq sorted (canonicalizeField property)) same
  simpa only [erase_orderedInsert] using erased

def GroupConfig.OnePath (config : GroupConfig) : Prop := text "path" ∉ config.fields.map Prod.fst

theorem unwrapGC_wrapGC {config : GroupConfig} (one : config.OnePath) : unwrapGC (wrapGC config) = config := by
  have kept : config.fields.filter (fun field => field.1 ≠ text "path") = config.fields := by
    apply filter_eq_self.mpr
    intro field mem
    exact decide_eq_true fun same => one (List.mem_map.mpr ⟨field, mem, same⟩)
  simp only [unwrapGC, wrapGC, filter_cons]
  rw [kept]
  simp

theorem json_unwrapGC_wrapGC {config : GroupConfig} (one : config.OnePath) :
    (unwrapGC (wrapGC config)).json = .obj (wrapGC config).fields := by
  rw [unwrapGC_wrapGC one]
  rfl

theorem Settles.sameConfig {base x : List GroupConfig} (onePath : ∀ config ∈ base, config.OnePath)
    (onePath' : ∀ config ∈ x, config.OnePath) {id : JsString} {kept : Option SyncEntity}
    (settles : Settles entityOps ((byId entityOps (base.map wrapGC)).get? id)
      ((byId entityOps (x.map wrapGC)).get? id) kept) :
    SyncMerge.sameField (kept.map fun entity => (unwrapGC entity).json)
      (((byId entityOps (x.map wrapGC)).get? id).map fun entity => (unwrapGC entity).json) := by
  generalize atX : (byId entityOps (x.map wrapGC)).get? id = item at settles ⊢
  generalize atBase : (byId entityOps (base.map wrapGC)).get? id = baseItem at settles
  cases settles with
  | absent none_ => rw [none_]; rfl
  | item here => rw [here]; exact sameField_self _
  | @base entity other held here same =>
    rw [held] at atBase
    rw [here] at atX
    obtain ⟨config, mem, rfl⟩ := List.mem_map.mp (mem_of_get?_byId atBase)
    obtain ⟨config', mem', rfl⟩ := List.mem_map.mp (mem_of_get?_byId atX)
    have path := (id_of_get?_byId entityOps atBase).trans (id_of_get?_byId entityOps atX).symm
    rw [here, map_some, map_some, json_unwrapGC_wrapGC (onePath config mem),
      json_unwrapGC_wrapGC (onePath' config' mem')]
    have whole := jsonValuesEqual_iff.mp same
    unfold SyncEntity.json at whole
    rw [show (wrapGC config').id = (wrapGC config).id from path.symm] at whole
    exact jsonValuesEqual_iff.mpr (canonicalizeJson_cons_cancel whole).symm

/-! ## Sessions -/

/-- A session that the merge with itself leaves as it is: its messages are told apart by their keys,
and no attachment without a body stands beside its like with one. -/
structure SettledSession (texts : SessionTexts) (session : SyncEntity) : Prop where
  messages : session.fields.lookup (text "messages") = some (.arr ((AiSession.messages session).map .obj))
  updatedAt : session.fields.lookup (text "updatedAt") = some (.num (AiSession.updatedAt session))
  unique : (AiSession.keys texts session).Nodup
  bodies : ∀ message ∈ AiSession.messages session, retainAvailableAttachments message message = message

def Bodiless (message : ChatMessage) : Prop :=
  ∀ field items, message.lookup field = some (.arr items) → ∀ item ∈ items, ∀ attachment ∈ propertiesOf item,
    hasBody attachment = false

theorem restoreAttachments_bodiless {available : List JsonValue}
    (bodiless : ∀ item ∈ available, ∀ attachment ∈ propertiesOf item, hasBody attachment = false)
    (attachments : List JsonValue) : restoreAttachments available attachments = attachments := by
  have none_ : ∀ (loop : RestoreLoop) (metadata : JsonObject) (index : ℕ),
      ((available[index]?.bind propertiesOf).filter fun candidate =>
        !loop.used.contains index && suppliesBody metadata candidate) = none := by
    intro loop metadata index
    rw [filter_eq_none_iff]
    intro candidate found supplies
    obtain ⟨item, held, properties⟩ := bind_eq_some_iff.mp found
    rw [suppliesBody, bodiless item (mem_of_getElem? held) candidate properties] at supplies
    simp at supplies
  have turn : ∀ loop item, (restoreAttachment available loop item).restored = loop.restored ++ [item.1] := by
    intro loop item
    unfold restoreAttachment
    split
    · rfl
    · rename_i metadata _
      dsimp only
      simp only [none_ loop metadata, isSome_none, Bool.false_eq_true, if_false, bind_fun_none]
      cases hasBody metadata <;> rfl
  unfold restoreAttachments
  induction attachments using List.reverseRecOn with
  | nil => rfl
  | append_singleton attachments last ih =>
    rw [zipIdx_append, foldl_append]
    simp only [zipIdx_cons, zipIdx_nil, foldl_cons, foldl_nil, turn, ih]

theorem retainField_bodiless {other : ChatMessage} (bodiless : Bodiless other) (result : ChatMessage) (field sibling : JsString) :
    retainField other result field sibling = result := by
  unfold retainField
  dsimp only
  split
  · rename_i attachments available held found
    have source : ∃ key, other.lookup key = some (.arr available) := by
      cases present : (other.lookup field).filter (· ≠ .null) with
      | some value =>
        rw [present] at found
        cases found
        exact ⟨field, (filter_eq_some_iff.mp present).1⟩
      | none =>
        rw [present] at found
        exact ⟨sibling, (filter_eq_some_iff.mp found).1⟩
    obtain ⟨key, there⟩ := source
    rw [restoreAttachments_bodiless (bodiless key available there)]
    exact setOwnRecordValue_lookup held
  · rfl

/-- There is nothing to restore from a message without bodies. -/
theorem retainAvailableAttachments_bodiless {other : ChatMessage} (bodiless : Bodiless other) (message : ChatMessage) :
    retainAvailableAttachments message other = message := by
  unfold retainAvailableAttachments
  rw [retainField_bodiless bodiless, retainField_bodiless bodiless]

section Itself

variable {texts : SessionTexts} {session : SyncEntity}

def SeesOnly (texts : SessionTexts) (session : SyncEntity) (seen : OrderedMap JsString ChatMessage) : Prop :=
  ∀ key message, seen.get? key = some message →
    message ∈ AiSession.messages session ∧ aiMessageKey texts message = key

section

variable (settled : SettledSession texts session)
include settled

theorem SeesOnly.see {seen : OrderedMap JsString ChatMessage}
    (only : SeesOnly texts session seen) {message : ChatMessage} (mem : message ∈ AiSession.messages session) :
    SeesOnly texts session (seeMessage texts seen message) := by
  have put : seeMessage texts seen message = seen.set (aiMessageKey texts message) message := by
    unfold seeMessage
    dsimp only
    cases found : seen.get? (aiMessageKey texts message) with
    | none => rfl
    | some existing =>
      obtain ⟨member, same⟩ := only _ _ found
      rw [inj_on_of_nodup_map settled.unique member mem same]
      exact congrArg (seen.set _) (settled.bodies message mem)
  intro key other found
  rw [put, OrderedMap.get?_set] at found
  split at found
  · rename_i same
    cases found
    exact ⟨mem, same.symm⟩
  · exact only key other found

theorem SettledSession.messages_pair :
    (orderOf texts session session).filterMap (seenOf texts session session).get? = AiSession.messages session := by
  have order : orderOf texts session session = AiSession.keys texts session := by
    unfold orderOf
    rcases primaryAndSecondary_eq texts session session with sides | sides <;>
      exact sides ▸ mergeAiMessageOrder_same settled.unique rfl
  have only : SeesOnly texts session (seenOf texts session session) := by
    unfold seenOf
    refine List.foldlRecOn _ _ (fun key message found => ?_) fun seen only message mem => ?_
    · cases found
    · refine only.see settled ?_
      obtain ⟨newer, older⟩ | ⟨newer, older⟩ := newer_older_eq session session <;> rw [newer, older] at mem <;>
        exact (mem_append.mp mem).elim id id
  have seen : ∀ message ∈ AiSession.messages session,
      (seenOf texts session session).get? (aiMessageKey texts message) = some message := by
    intro message mem
    have held : (seenOf texts session session).has (aiMessageKey texts message) = true := by
      unfold seenOf
      rw [has_seen]
      obtain ⟨newer, older⟩ | ⟨newer, older⟩ := newer_older_eq session session <;> rw [newer, older] <;>
        exact List.mem_map_of_mem (mem_append_left _ mem)
    obtain ⟨other, found⟩ := has_iff.mp held
    obtain ⟨member, same⟩ := only _ _ found
    rw [found, inj_on_of_nodup_map settled.unique member mem same]
  rw [order, AiSession.keys, keysOf, filterMap_map]
  calc (AiSession.messages session).filterMap ((seenOf texts session session).get? ∘ aiMessageKey texts)
      = (AiSession.messages session).filterMap some := filterMap_congr seen
    _ = AiSession.messages session := filterMap_some

theorem SettledSession.pair : mergeAiSessionPair texts session session = session := by
  have merged := settled.messages_pair
  unfold orderOf seenOf at merged
  have sides : newerOf session session = session := by
    unfold newerOf
    exact ite_self session
  unfold mergeAiSessionPair
  dsimp only
  rw [merged, sides, max_self, setOwnRecordValue_lookup settled.messages, setOwnRecordValue_lookup settled.updatedAt,
    if_neg fun changed => changed.2 rfl]

end

end Itself

/-! ## Payloads -/

theorem mergeAiSessionPair_id (texts : SessionTexts) {a b : SyncEntity} (same : a.id = b.id) :
    (mergeAiSessionPair texts a b).id = a.id := by
  change (newerOf a b).id = a.id
  obtain ⟨newer, -⟩ | ⟨newer, -⟩ := newer_older_eq a b <;> rw [newer]
  exact same.symm

def sessionTools (texts : SessionTexts) (localeCompare : JsString → JsString → Ordering) : MergeTools :=
  ⟨localeCompare, mergeAiSessionPair texts, fun _ _ => mergeAiSessionPair_id texts⟩

theorem values_carryForward (localeCompare : JsString → JsString → Ordering) (payload : SyncPayload)
    (sources : List SyncPayload) (key : CloudSyncPayloadEntityKey) :
    (carryForwardSyncDeletions localeCompare payload sources).values key = payload.values key := by
  unfold carryForwardSyncDeletions
  dsimp only
  split
  · rfl
  · cases key <;> rfl

/-- A payload as the merge of one-sided changes takes it: no deletion is recorded, and its
configurations and sessions are proper. -/
structure SyncPayload.Settled (texts : SessionTexts) (payload : SyncPayload) : Prop where
  deletions : payload.deletions = []
  onePath : ∀ config ∈ payload.groupConfigs.getD [], config.OnePath
  sessions : ∀ session ∈ payload.aiSessions.getD [], SettledSession texts session

/-- The device knows every collection. -/
def SyncPayload.Complete (payload : SyncPayload) : Prop := ∀ key, (payload.values key).isSome

section Collections

variable {base x local_ remote : SyncPayload}

/-- A collection that may be left out, of the base and of a side. -/
theorem entityArray_base {T : Type} (collection : Option (List T)) : entityArray collection (collection.getD []) = collection.getD [] := by
  cases collection <;> rfl

theorem OneSided.collection {T : Type} (one : OneSided base x local_ remote) (field : SyncPayload → Option (List T)) :
    OneSided ((field base).getD []) (entityArray (field x) ((field base).getD []))
      (entityArray (field local_) ((field base).getD [])) (entityArray (field remote) ((field base).getD [])) := by
  have sides := one.map fun payload => entityArray (field payload) ((field base).getD [])
  rwa [entityArray_base] at sides

section Unrecorded

variable {options : EntityMergeOptions} (honoured : options.preserveDeletions = false) {tombstones : Tombstones}
  (unrecorded : tombstones = ⟨[], []⟩)
include honoured unrecorded

theorem sameContent_entities {entities changed left right : List SyncEntity} (one : OneSided entities changed left right)
    (id : JsString) :
    sameField ((entityMap (some ((mergeEntityArrays entityOps entities left right tombstones options).merged.map
        SyncPayload.values.entityValue))).get? id)
      ((entityMap (some (changed.map SyncPayload.values.entityValue))).get? id) := by
  change sameField ((entityMap (some (List.map (fun entity => (entityOps.id entity, SyncEntity.json entity)) _))).get? id)
    ((entityMap (some (List.map (fun entity => (entityOps.id entity, SyncEntity.json entity)) changed))).get? id) = true
  rw [get?_entityMap_map, get?_entityMap_map]
  exact ((mergeEntityArrays_oneSided one honoured unrecorded).1 id).sameField

theorem sameContent_strings {strings changed left right : List JsString} (one : OneSided strings changed left right)
    (id : JsString) :
    sameField ((entityMap (some ((mergeStringArrays strings left right tombstones options).map
        SyncPayload.values.stringValue))).get? id)
      ((entityMap (some (changed.map SyncPayload.values.stringValue))).get? id) := by
  simp only [get?_entityMap_strings, mergeStringArrays_oneSided one honoured unrecorded, sameField_self]

variable (one : OneSided base x local_ remote)
include one

theorem sameContent_optional (field : SyncPayload → Option (List SyncEntity)) {changed : List SyncEntity}
    (held : field x = some changed) (id : JsString) :
    sameField ((entityMap (some ((mergeEntityArrays entityOps ((field base).getD [])
        (entityArray (field local_) ((field base).getD [])) (entityArray (field remote) ((field base).getD [])) tombstones
        options).merged.map SyncPayload.values.entityValue))).get? id)
      ((entityMap ((field x).map (List.map SyncPayload.values.entityValue))).get? id) := by
  have sides := one.collection field
  rw [held] at sides ⊢
  exact sameContent_entities honoured unrecorded sides id

theorem conflicts_optional (field : SyncPayload → Option (List SyncEntity)) :
    (mergeEntityArrays entityOps ((field base).getD []) (entityArray (field local_) ((field base).getD []))
      (entityArray (field remote) ((field base).getD [])) tombstones options).counts.conflicts = 0 :=
  (mergeEntityArrays_oneSided (one.collection field) honoured unrecorded).2

theorem sameContent_optionalStrings (field : SyncPayload → Option (List JsString)) {changed : List JsString}
    (held : field x = some changed) (id : JsString) :
    sameField ((entityMap (some ((mergeStringArrays ((field base).getD []) (entityArray (field local_) ((field base).getD []))
        (entityArray (field remote) ((field base).getD [])) tombstones options).map SyncPayload.values.stringValue))).get? id)
      ((entityMap ((field x).map (List.map SyncPayload.values.stringValue))).get? id) := by
  have sides := one.collection field
  rw [held] at sides ⊢
  exact sameContent_strings honoured unrecorded sides id

theorem sameContent_configs {changed : List GroupConfig} (held : x.groupConfigs = some changed)
    (onePath : ∀ config ∈ base.groupConfigs.getD [], config.OnePath)
    (onePath' : ∀ config ∈ changed, config.OnePath) :
    (∀ id, sameField ((entityMap (some (((mergeEntityArrays entityOps ((base.groupConfigs.getD []).map wrapGC)
        ((entityArray local_.groupConfigs (base.groupConfigs.getD [])).map wrapGC)
        ((entityArray remote.groupConfigs (base.groupConfigs.getD [])).map wrapGC) tombstones options).merged.map unwrapGC).map
          fun config => (config.path, config.json)))).get? id)
      ((entityMap (some (changed.map fun config => (config.path, config.json)))).get? id)) ∧
    (mergeEntityArrays entityOps ((base.groupConfigs.getD []).map wrapGC)
        ((entityArray local_.groupConfigs (base.groupConfigs.getD [])).map wrapGC)
        ((entityArray remote.groupConfigs (base.groupConfigs.getD [])).map wrapGC) tombstones options).counts.conflicts = 0 := by
  have sides := one.map fun payload => (entityArray payload.groupConfigs (base.groupConfigs.getD [])).map wrapGC
  rw [entityArray_base, held] at sides
  obtain ⟨settles, calm⟩ := mergeEntityArrays_oneSided sides honoured unrecorded
  refine ⟨fun id => ?_, calm⟩
  have wrapped : ∀ configs : List GroupConfig, (∀ config ∈ configs, config.OnePath) →
      configs.map (fun config => (config.path, config.json)) =
        (configs.map wrapGC).map fun entity => (entityOps.id entity, (unwrapGC entity).json) := by
    intro configs onePath
    rw [List.map_map]
    apply map_congr_left
    intro config mem
    change _ = ((wrapGC config).id, (unwrapGC (wrapGC config)).json)
    rw [unwrapGC_wrapGC (onePath config mem)]
    rfl
  rw [List.map_map, wrapped changed onePath']
  change sameField ((entityMap (some (List.map (fun entity => (entityOps.id entity, (unwrapGC entity).json)) _))).get? id) _ = true
  rw [get?_entityMap_map fun entity => (unwrapGC entity).json, get?_entityMap_map fun entity => (unwrapGC entity).json]
  exact (settles id).sameConfig onePath onePath'

end Unrecorded

theorem sameContent_sessions {texts : SessionTexts} (localeCompare : JsString → JsString → Ordering) {sessions : List SyncEntity}
    (settled : ∀ session ∈ sessions, SettledSession texts session) (tombstones : Tombstones) (options : EntityMergeOptions) :
    (∀ id, sameField ((entityMap (some ((mergeAiSessionArrays (sessionTools texts localeCompare) sessions sessions sessions
        tombstones options).merged.map SyncPayload.values.entityValue))).get? id)
      ((entityMap (some (sessions.map SyncPayload.values.entityValue))).get? id)) ∧
    (mergeAiSessionArrays (sessionTools texts localeCompare) sessions sessions sessions tombstones options).counts.conflicts =
      0 := by
  have same : ∀ id, (mergeAiSession (sessionTools texts localeCompare) options tombstones id ((byId entityOps sessions).get? id)
      ((byId entityOps sessions).get? id) ((byId entityOps sessions).get? id)) =
        ⟨(byId entityOps sessions).get? id, MergeSummary.zero⟩ := by
    intro id
    cases found : (byId entityOps sessions).get? id with
    | none => rfl
    | some session =>
      simp only [mergeAiSession, sameFingerprint_self, if_true]
      rw [show (sessionTools texts localeCompare).mergeAiSessionPair session session = session from
        (settled session (mem_of_get?_byId found)).pair]
  refine ⟨fun id => ?_, conflicts_mergeById fun id => by rw [same]; rfl⟩
  change sameField ((entityMap (some (List.map (fun entity => (entityOps.id entity, SyncEntity.json entity)) _))).get? id)
    ((entityMap (some (List.map (fun entity => (entityOps.id entity, SyncEntity.json entity)) sessions))).get? id) = true
  rw [get?_entityMap_map, get?_entityMap_map, mergeAiSessionArrays,
    get?_mergeById (mergeAiSession_keepsId _ _ _) fun _ => rfl, same]
  exact sameField_self _

end Collections

theorem getDeletedEntityIds_nil {payload : SyncPayload} (unrecorded : payload.deletions = [])
    (key : CloudSyncPayloadEntityKey) : getDeletedEntityIds payload key = [] := by
  rw [getDeletedEntityIds, unrecorded]
  rfl

/-- A payload of a device that knows every collection, with one session. -/
def completePayload (session : SyncEntity) : SyncPayload :=
  { emptyPayload with groupConfigs := some [], monitorPanels := some [], aiSessions := some [session] }

theorem completePayload_complete (session : SyncEntity) : (completePayload session).Complete := by
  intro key
  cases key <;> rfl

def sentMessage : ChatMessage :=
  [(text "id", .str (text "m1")), (text "timestamp", .num 1),
    (text "attachments", .arr [.obj [(text "filename", .str (text "f")), (text "base64Data", .str [])]])]

theorem settled_sentSession : SettledSession sampleTexts (sampleSession 100 [sentMessage]) := by
  have bodiless : Bodiless sentMessage := by
    intro field items found item mem attachment held
    unfold sentMessage at found
    simp only [lookup_cons, lookup_nil] at found
    split at found
    · cases found
    · split at found
      · cases found
      · split at found
        · cases found
          rw [mem_singleton.mp mem] at held
          cases held
          decide
        · cases found
  refine ⟨rfl, rfl, nodup_singleton _, fun message mem => ?_⟩
  rw [mem_singleton.mp mem]
  exact retainAvailableAttachments_bodiless bodiless sentMessage

/-- A message with the same file attached twice; the body of the first is missing. -/
def twinSession : SyncEntity :=
  sampleSession 100 [[(text "id", .str (text "m1")), (text "timestamp", .num 1), (text "attachments", .arr
    [.obj [(text "filename", .str (text "f")), (text "base64Data", .str [])],
      .obj [(text "filename", .str (text "f")), (text "base64Data", .str (text "x"))]])]]

end Netcatty.SyncMerge
