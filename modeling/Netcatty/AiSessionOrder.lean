import Netcatty.AiSessions

/-!
The order of the messages of two merged copies.

The scan takes the messages of one copy, the primary one, and looks for each in the other.  Every
message comes once (`mem_mergeAiMessageOrder`, `mergeAiMessageOrder_nodup`).  The secondary copy
keeps its order whatever the primary one says (`mergeAiMessageOrder_secondary`), and the primary copy
keeps its own where the two agree on their common messages (`mergeAiMessageOrder_primary`).
-/

namespace Netcatty.SyncMerge

open List

/-! ## Adding keys -/

variable {ordered : List JsString}

theorem mem_addKey {key k : JsString} : k ∈ addKey ordered key ↔ k ∈ ordered ∨ k = key := by
  unfold addKey
  by_cases held : key ∈ ordered
  · rw [if_pos (contains_iff_mem.mpr held)]
    exact ⟨.inl, fun either => either.elim id fun same => same ▸ held⟩
  · rw [if_neg (by simpa using held), mem_append, mem_singleton]

theorem addKey_nodup (nodup : ordered.Nodup) (key : JsString) : (addKey ordered key).Nodup := by
  unfold addKey
  by_cases held : key ∈ ordered
  · rwa [if_pos (contains_iff_mem.mpr held)]
  · rw [if_neg (by simpa using held)]
    exact nodup_append.mpr ⟨nodup, nodup_singleton key, fun k mem last single => by
      rw [mem_singleton.mp single]
      exact fun same => held (same ▸ mem)⟩

theorem mem_addKeys {keys ordered : List JsString} {k : JsString} :
    k ∈ keys.foldl addKey ordered ↔ k ∈ ordered ∨ k ∈ keys := by
  induction keys generalizing ordered with
  | nil => simp
  | cons key keys ih => rw [foldl_cons, ih, mem_addKey, mem_cons, or_assoc]

theorem addKeys_nodup {keys ordered : List JsString} (nodup : ordered.Nodup) : (keys.foldl addKey ordered).Nodup := by
  induction keys generalizing ordered with
  | nil => exact nodup
  | cons key keys ih => exact ih (addKey_nodup nodup key)

section Filter

variable {p : JsString → Bool} {ordered keys : List JsString}

theorem filter_addKeys_apart (apart : ∀ k ∈ keys, p k → k ∈ ordered) :
    (keys.foldl addKey ordered).filter p = ordered.filter p := by
  induction keys generalizing ordered with
  | nil => rfl
  | cons key keys ih =>
    have first : (addKey ordered key).filter p = ordered.filter p := by
      unfold addKey
      by_cases held : key ∈ ordered
      · rw [if_pos (contains_iff_mem.mpr held)]
      · rw [if_neg (by simpa using held), filter_append]
        simp [show p key = false from Bool.eq_false_iff.mpr fun asked => held (apart key mem_cons_self asked)]
    rw [foldl_cons, ih, first]
    intro k mem asked
    exact mem_addKey.mpr (.inl (apart k (mem_cons_of_mem _ mem) asked))

theorem filter_addKeys_fresh (nodup : keys.Nodup) (fresh : ∀ k ∈ keys, p k ∧ k ∉ ordered) :
    (keys.foldl addKey ordered).filter p = ordered.filter p ++ keys := by
  induction keys generalizing ordered with
  | nil => simp
  | cons key keys ih =>
    obtain ⟨new, nodup⟩ := nodup_cons.mp nodup
    obtain ⟨asked, absent⟩ := fresh key mem_cons_self
    have first : addKey ordered key = ordered ++ [key] := by
      unfold addKey
      exact if_neg (by simpa using absent)
    rw [foldl_cons, first, ih nodup]
    · simp [asked]
    · intro k mem
      obtain ⟨asked, absent⟩ := fresh k (mem_cons_of_mem _ mem)
      refine ⟨asked, fun held => ?_⟩
      rcases mem_append.mp held with here | last
      · exact absent here
      · exact new (mem_singleton.mp last ▸ mem)

end Filter

section Order

variable {texts : SessionTexts}

def keysOf (texts : SessionTexts) (messages : List ChatMessage) : List JsString := messages.map (aiMessageKey texts)

theorem appendSegments_eq (texts : SessionTexts) (ordered : List JsString) (left right : List ChatMessage) :
    appendSegments texts ordered left right = (keysOf texts left ++ keysOf texts right).foldl addKey ordered ∨
      appendSegments texts ordered left right = (keysOf texts right ++ keysOf texts left).foldl addKey ordered := by
  unfold appendSegments keysOf
  split
  · exact .inl (congrArg (·.foldl addKey ordered) map_append)
  · exact .inr (congrArg (·.foldl addKey ordered) map_append)

theorem mem_appendSegments {left right : List ChatMessage} {k : JsString} :
    k ∈ appendSegments texts ordered left right ↔ k ∈ ordered ∨ k ∈ keysOf texts left ∨ k ∈ keysOf texts right := by
  rcases appendSegments_eq texts ordered left right with first | second
  · rw [first, mem_addKeys, mem_append]
  · rw [second, mem_addKeys, mem_append, or_comm (a := k ∈ keysOf texts right)]

theorem appendSegments_nodup (nodup : ordered.Nodup) (left right : List ChatMessage) :
    (appendSegments texts ordered left right).Nodup := addKeys_nodup nodup

theorem filter_addKeys_segments {p : JsString → Bool} {ordered other fresh : List JsString} (nodup : fresh.Nodup)
    (new : ∀ k ∈ fresh, p k ∧ k ∉ ordered) (apart : ∀ k ∈ other, p k → k ∈ ordered) :
    ((other ++ fresh).foldl addKey ordered).filter p = ordered.filter p ++ fresh ∧
      ((fresh ++ other).foldl addKey ordered).filter p = ordered.filter p ++ fresh := by
  constructor
  · rw [foldl_append, filter_addKeys_fresh nodup, filter_addKeys_apart apart]
    intro k mem
    refine ⟨(new k mem).1, fun held => (mem_addKeys.mp held).elim (new k mem).2 fun other => ?_⟩
    exact (new k mem).2 (apart k other (new k mem).1)
  · rw [foldl_append, filter_addKeys_apart, filter_addKeys_fresh nodup new]
    intro k mem asked
    exact mem_addKeys.mpr (.inl (apart k mem asked))

theorem filter_appendSegments {p : JsString → Bool} {ordered : List JsString} {left right : List ChatMessage}
    {fresh other : List JsString}
    (sides : other = keysOf texts left ∧ fresh = keysOf texts right ∨ fresh = keysOf texts left ∧ other = keysOf texts right)
    (nodup : fresh.Nodup) (new : ∀ k ∈ fresh, p k ∧ k ∉ ordered) (apart : ∀ k ∈ other, p k → k ∈ ordered) :
    (appendSegments texts ordered left right).filter p = ordered.filter p ++ fresh := by
  obtain ⟨last, first⟩ := filter_addKeys_segments nodup new apart
  rcases sides with ⟨rfl, rfl⟩ | ⟨rfl, rfl⟩
  · rcases appendSegments_eq texts ordered left right with here | here <;> rw [here] <;> assumption
  · rcases appendSegments_eq texts ordered left right with here | here <;> rw [here] <;> assumption

/-! ## The scan -/

theorem get?_indexOfKey (keys : List JsString) (key : JsString) :
    (∀ index, (indexOfKey keys).get? key = some index → keys[index]? = some key) ∧
      ((indexOfKey keys).get? key = none → key ∉ keys) := by
  unfold indexOfKey
  induction keys using List.reverseRecOn with
  | nil => simp
  | append_singleton keys last ih =>
    rw [zipIdx_append, foldl_append]
    simp only [zipIdx_cons, zipIdx_nil, foldl_cons, foldl_nil, OrderedMap.get?_set, Nat.zero_add]
    by_cases same : key = last
    · simp [same]
    · rw [if_neg same]
      refine ⟨fun index found => ?_, fun absent mem => ?_⟩
      · have held := ih.1 index found
        rw [getElem?_append_left (List.getElem?_eq_some_iff.mp held).1]
        exact held
      · rcases mem_append.mp mem with here | here
        · exact ih.2 absent here
        · exact same (mem_singleton.mp here)

/-- The scan after the first messages of the primary copy. -/
structure Scanned (texts : SessionTexts) (a b : List ChatMessage) (scanned : ℕ) (loop : OrderLoop) : Prop where
  startA : loop.startA ≤ scanned
  startB : loop.startB ≤ (keysOf texts b).length
  nodup : loop.ordered.Nodup
  members : ∀ k, k ∈ loop.ordered ↔ k ∈ (keysOf texts a).take loop.startA ∨ k ∈ (keysOf texts b).take loop.startB
  passed : ∀ k ∈ (keysOf texts a).take scanned, k ∈ keysOf texts b → k ∈ (keysOf texts b).take loop.startB
  secondary : loop.ordered.filter (keysOf texts b).contains = (keysOf texts b).take loop.startB

/-- What is scanned up to a message is what was scanned and one segment. -/
theorem take_append_extract {α : Type} (l : List α) {start stop : ℕ} (order : start ≤ stop) :
    l.take start ++ l.extract start stop = l.take stop := by
  rw [extract_eq_take_drop, ← take_add, Nat.add_sub_cancel' order]

theorem keysOf_extract (messages : List ChatMessage) (start stop : ℕ) :
    keysOf texts (messages.extract start stop) = (keysOf texts messages).extract start stop := by
  simp [keysOf, extract_eq_take_drop]

variable {keys : List JsString}

theorem not_mem_take_of_extract (nodup : keys.Nodup) {start stop : ℕ} (order : start ≤ stop)
    {k : JsString} (mem : k ∈ keys.extract start stop) : k ∉ keys.take start := by
  have whole : (keys.take start ++ keys.extract start stop).Nodup := by
    rw [take_append_extract keys order]
    exact nodup.sublist (take_sublist _ _)
  exact fun early => (nodup_append.mp whole).2.2 k early k mem rfl

theorem take_succ_of_getElem? {index : ℕ} {k : JsString} (found : keys[index]? = some k) :
    keys.take (index + 1) = keys.take index ++ [k] := by
  rw [take_add_one, found, Option.toList_some]

theorem not_mem_take_of_getElem? (nodup : keys.Nodup) {index : ℕ} {k : JsString}
    (found : keys[index]? = some k) : k ∉ keys.take index := by
  have whole : (keys.take index ++ [k]).Nodup := by
    rw [← take_succ_of_getElem? found]
    exact nodup.sublist (take_sublist _ _)
  exact fun early => (nodup_append.mp whole).2.2 k early k (mem_singleton_self k) rfl

theorem filter_addKey (nodup : keys.Nodup) {index : ℕ} {k : JsString} (found : keys[index]? = some k)
    {ordered : List JsString} (before : ordered.filter keys.contains = keys.take index) :
    (addKey ordered k).filter keys.contains = keys.take (index + 1) := by
  have common : keys.contains k = true := contains_iff_mem.mpr (mem_of_getElem? found)
  have fresh : k ∉ ordered := by
    intro held
    apply not_mem_take_of_getElem? nodup found
    rw [← before]
    exact mem_filter.mpr ⟨held, common⟩
  rw [addKey, if_neg (by simpa using fresh), filter_append, before, take_succ_of_getElem? found, filter_singleton,
    common, cond_true]

theorem mem_of_mem_extract {k : JsString} {start stop : ℕ} (order : start ≤ stop)
    (mem : k ∈ keys.extract start stop) : k ∈ keys.take stop := by
  rw [← take_append_extract keys order]
  exact mem_append_right _ mem

variable {a b : List ChatMessage}

theorem Scanned.pass {scanned : ℕ} {loop : OrderLoop} (inv : Scanned texts a b scanned loop)
    {key : JsString} (here : (keysOf texts a)[scanned]? = some key)
    (behind : key ∈ keysOf texts b → key ∈ (keysOf texts b).take loop.startB) : Scanned texts a b (scanned + 1) loop := by
  refine { inv with startA := Nat.le_succ_of_le inv.startA, passed := ?_ }
  intro k mem common
  rw [take_succ_of_getElem? here] at mem
  rcases mem_append.mp mem with early | last
  · exact inv.passed k early common
  · rw [mem_singleton.mp last] at common ⊢
    exact behind common

theorem Scanned.segments (nodupB : (keysOf texts b).Nodup) {scanned stop : ℕ} {loop : OrderLoop}
    (inv : Scanned texts a b scanned loop) (order : loop.startB ≤ stop) :
    (appendSegments texts loop.ordered (a.extract loop.startA scanned) (b.extract loop.startB stop)).filter
        (keysOf texts b).contains = (keysOf texts b).take stop ∧
      ∀ k, k ∈ appendSegments texts loop.ordered (a.extract loop.startA scanned) (b.extract loop.startB stop) ↔
        k ∈ (keysOf texts a).take scanned ∨ k ∈ (keysOf texts b).take stop := by
  constructor
  · rw [filter_appendSegments (.inl ⟨rfl, rfl⟩), inv.secondary, keysOf_extract, take_append_extract _ order]
    · rw [keysOf_extract, extract_eq_take_drop]
      exact nodupB.sublist ((take_sublist _ _).trans (drop_sublist _ _))
    · intro k mem
      rw [keysOf_extract] at mem
      have held : k ∈ keysOf texts b := mem_of_mem_take (mem_of_mem_extract order mem)
      refine ⟨contains_iff_mem.mpr held, fun early => not_mem_take_of_extract nodupB order mem ?_⟩
      rw [← inv.secondary]
      exact mem_filter.mpr ⟨early, contains_iff_mem.mpr held⟩
    · intro k mem common
      rw [keysOf_extract] at mem
      exact (inv.members k).mpr (.inr (inv.passed k (mem_of_mem_extract inv.startA mem) (contains_iff_mem.mp common)))
  · intro k
    rw [mem_appendSegments, keysOf_extract, keysOf_extract, inv.members, ← take_append_extract _ inv.startA,
      ← take_append_extract (keysOf texts b) order, mem_append, mem_append]
    tauto

theorem orderTurn_alone {loop : OrderLoop} {message : ChatMessage} {scanned : ℕ}
    (lookup : (indexOfKey (keysOf texts b)).get? (aiMessageKey texts message) = none) :
    orderTurn texts a b loop (message, scanned) = loop := by
  unfold orderTurn
  change (indexOfKey (b.map (aiMessageKey texts))).get? (aiMessageKey texts message) = none at lookup
  dsimp only
  rw [lookup]

theorem orderTurn_common {loop : OrderLoop} {message : ChatMessage} {scanned otherIndex : ℕ}
    (lookup : (indexOfKey (keysOf texts b)).get? (aiMessageKey texts message) = some otherIndex) :
    orderTurn texts a b loop (message, scanned) =
      if otherIndex < loop.startB then loop
      else ⟨scanned + 1, otherIndex + 1, addKey (appendSegments texts loop.ordered (a.extract loop.startA scanned)
        (b.extract loop.startB otherIndex)) (aiMessageKey texts message)⟩ := by
  unfold orderTurn
  change (indexOfKey (b.map (aiMessageKey texts))).get? (aiMessageKey texts message) = some otherIndex at lookup
  dsimp only
  rw [lookup]

theorem Scanned.turn (nodupB : (keysOf texts b).Nodup) {scanned : ℕ} {loop : OrderLoop}
    (inv : Scanned texts a b scanned loop) {message : ChatMessage} (here : a[scanned]? = some message) :
    Scanned texts a b (scanned + 1) (orderTurn texts a b loop (message, scanned)) := by
  have key : (keysOf texts a)[scanned]? = some (aiMessageKey texts message) := by
    simp [keysOf, here]
  obtain ⟨found, missing⟩ := get?_indexOfKey (keysOf texts b) (aiMessageKey texts message)
  cases lookup : (indexOfKey (keysOf texts b)).get? (aiMessageKey texts message) with
  | none =>
    rw [orderTurn_alone lookup]
    exact inv.pass key fun common => absurd common (missing lookup)
  | some otherIndex =>
    have there := found otherIndex lookup
    rw [orderTurn_common lookup]
    split
    · rename_i behind
      refine inv.pass key fun _ => take_subset_take_left _ behind ?_
      rw [take_succ_of_getElem? there]
      exact mem_append_right _ (mem_singleton_self _)
    · rename_i ahead
      obtain ⟨order, members⟩ := inv.segments nodupB (Nat.le_of_not_lt ahead)
      refine ⟨Nat.le_refl _, (List.getElem?_eq_some_iff.mp there).1, addKey_nodup (appendSegments_nodup inv.nodup _ _) _, fun k => ?_, fun k mem common => ?_, ?_⟩
      · rw [mem_addKey, members, take_succ_of_getElem? key, take_succ_of_getElem? there, mem_append, mem_append,
          mem_singleton]
        tauto
      · rw [take_succ_of_getElem? key] at mem
        rw [take_succ_of_getElem? there]
        rcases mem_append.mp mem with early | last
        · exact mem_append_left _ (take_subset_take_left _ (Nat.le_of_not_lt ahead) (inv.passed k early common))
        · exact mem_append_right _ last
      · exact filter_addKey nodupB there order

theorem scan_induction {p : ℕ → OrderLoop → Prop} (a b : List ChatMessage) (start : p 0 ⟨0, 0, []⟩)
    (turn : ∀ scanned loop message, p scanned loop → a[scanned]? = some message →
      p (scanned + 1) (orderTurn texts a b loop (message, scanned))) :
    p a.length (a.zipIdx.foldl (orderTurn texts a b) ⟨0, 0, []⟩) := by
  have run : ∀ scanned ≤ a.length, p scanned ((a.zipIdx.take scanned).foldl (orderTurn texts a b) ⟨0, 0, []⟩) := by
    intro scanned
    induction scanned with
    | zero => exact fun _ => start
    | succ scanned ih =>
      intro bound
      have here : a[scanned]? = some a[scanned] := getElem?_eq_getElem bound
      rw [take_add_one, foldl_append]
      simp only [getElem?_zipIdx, here, Option.map_some, Nat.zero_add, Option.toList_some, foldl_cons, foldl_nil]
      exact turn scanned _ _ (ih (Nat.le_of_succ_le bound)) here
  have all := run a.length (Nat.le_refl _)
  rwa [take_of_length_le (by simp)] at all

theorem scanned_all (a : List ChatMessage) {b : List ChatMessage} (nodupB : (keysOf texts b).Nodup) :
    Scanned texts a b a.length (a.zipIdx.foldl (orderTurn texts a b) ⟨0, 0, []⟩) := by
  apply scan_induction a b
  · exact ⟨Nat.le_refl _, Nat.zero_le _, nodup_nil, by simp, by simp, by simp⟩
  · intro scanned loop message inv here
    exact inv.turn nodupB here

theorem drop_eq_extract {α : Type} (l : List α) (start : ℕ) : l.drop start = l.extract start l.length := by
  rw [extract_eq_take_drop, take_of_length_le]
  exact (length_drop).le

theorem length_keysOf (texts : SessionTexts) (messages : List ChatMessage) : (keysOf texts messages).length = messages.length :=
  length_map _

theorem mergeAiMessageOrder_eq (a b : List ChatMessage) : mergeAiMessageOrder texts a b =
      appendSegments texts (a.zipIdx.foldl (orderTurn texts a b) ⟨0, 0, []⟩).ordered
        (a.extract (a.zipIdx.foldl (orderTurn texts a b) ⟨0, 0, []⟩).startA a.length)
        (b.extract (a.zipIdx.foldl (orderTurn texts a b) ⟨0, 0, []⟩).startB b.length) := by
  unfold mergeAiMessageOrder
  dsimp only
  rw [drop_eq_extract, drop_eq_extract]

section Merged

variable {a b : List ChatMessage}

section

variable (nodupB : (keysOf texts b).Nodup)
include nodupB

theorem mergeAiMessageOrder_nodup : (mergeAiMessageOrder texts a b).Nodup := by
  rw [mergeAiMessageOrder_eq]
  exact appendSegments_nodup (scanned_all a nodupB).nodup _ _

theorem mem_mergeAiMessageOrder {k : JsString} :
    k ∈ mergeAiMessageOrder texts a b ↔ k ∈ keysOf texts a ∨ k ∈ keysOf texts b := by
  have inv := scanned_all a nodupB
  rw [mergeAiMessageOrder_eq, ← length_keysOf texts b, (inv.segments nodupB inv.startB).2, take_length,
    ← length_keysOf texts a, take_length]

theorem mergeAiMessageOrder_secondary :
    (mergeAiMessageOrder texts a b).filter (keysOf texts b).contains = keysOf texts b := by
  have inv := scanned_all a nodupB
  rw [mergeAiMessageOrder_eq, ← length_keysOf texts b, (inv.segments nodupB inv.startB).1, take_length]

theorem mergeAiMessageOrder_same (same : keysOf texts a = keysOf texts b) :
    mergeAiMessageOrder texts a b = keysOf texts b := by
  rw [← mergeAiMessageOrder_secondary (a := a) nodupB, eq_comm]
  apply filter_eq_self.mpr
  intro k mem
  rw [mem_mergeAiMessageOrder nodupB, same, or_self] at mem
  exact contains_iff_mem.mpr mem

end

end Merged

/-! ## Copies that agree -/

/-- Two copies have their common messages in one order. -/
def AgreeOnOrder (keysA keysB : List JsString) : Prop := keysA.filter keysB.contains = keysB.filter keysA.contains

/-- The scan of a copy that agrees with the other: every common message is an anchor. -/
structure Agreed (texts : SessionTexts) (a b : List ChatMessage) (scanned : ℕ) (loop : OrderLoop) : Prop
    extends Scanned texts a b scanned loop where
  primary : loop.ordered.filter (keysOf texts a).contains = (keysOf texts a).take loop.startA
  apart : ∀ k ∈ (keysOf texts a).extract loop.startA scanned, k ∉ keysOf texts b
  agreed : ((keysOf texts a).take loop.startA).filter (keysOf texts b).contains =
    ((keysOf texts b).take loop.startB).filter (keysOf texts a).contains

theorem extract_append_drop {α : Type} (l : List α) {start stop : ℕ} (order : start ≤ stop) :
    l.extract start stop ++ l.drop stop = l.drop start := by
  have whole : l.take start ++ (l.extract start stop ++ l.drop stop) = l.take start ++ l.drop start := by
    rw [← append_assoc, take_append_extract l order, take_append_drop, take_append_drop]
  exact append_cancel_left whole

theorem extract_succ {start index : ℕ} (order : start ≤ index) {k : JsString}
    (found : keys[index]? = some k) : keys.extract start (index + 1) = keys.extract start index ++ [k] := by
  have whole : keys.take start ++ keys.extract start (index + 1) = keys.take start ++ (keys.extract start index ++ [k]) := by
    rw [take_append_extract keys (Nat.le_succ_of_le order), ← append_assoc, take_append_extract keys order,
      take_succ_of_getElem? found]
  exact append_cancel_left whole

theorem filter_eq_nil_of_apart {keys others : List JsString} (apart : ∀ k ∈ keys, k ∉ others) :
    keys.filter others.contains = [] :=
  filter_eq_nil_iff.mpr fun k mem common => apart k mem (contains_iff_mem.mp common)

section

variable (agree : AgreeOnOrder (keysOf texts a) (keysOf texts b))
include agree

/-- What is left of the other copy has the common messages that are left, in their order. -/
theorem Agreed.rest {scanned : ℕ} {loop : OrderLoop} (inv : Agreed texts a b scanned loop) :
    ((keysOf texts b).drop loop.startB).filter (keysOf texts a).contains =
      ((keysOf texts a).drop scanned).filter (keysOf texts b).contains := by
  have whole : ((keysOf texts b).take loop.startB).filter (keysOf texts a).contains ++
        ((keysOf texts b).drop loop.startB).filter (keysOf texts a).contains =
      ((keysOf texts b).take loop.startB).filter (keysOf texts a).contains ++
        ((keysOf texts a).drop scanned).filter (keysOf texts b).contains := by
    calc _ = (keysOf texts b).filter (keysOf texts a).contains := by rw [← filter_append, take_append_drop]
      _ = ((keysOf texts a).take loop.startA ++ (keysOf texts a).drop loop.startA).filter (keysOf texts b).contains := by
          rw [take_append_drop, agree]
      _ = _ := by
          rw [← extract_append_drop (keysOf texts a) inv.startA, filter_append, filter_append,
            filter_eq_nil_of_apart inv.apart, nil_append, inv.agreed]
  exact append_cancel_left whole

theorem Agreed.next
    (nodupB : (keysOf texts b).Nodup) {scanned index : ℕ} {loop : OrderLoop} (inv : Agreed texts a b scanned loop)
    {key : JsString} (here : (keysOf texts a)[scanned]? = some key) (there : (keysOf texts b)[index]? = some key) :
    loop.startB ≤ index ∧ ∀ k ∈ (keysOf texts b).extract loop.startB index, k ∉ keysOf texts a := by
  have rest := inv.rest agree
  have first : (keysOf texts a).drop scanned = key :: (keysOf texts a).drop (scanned + 1) := by
    rw [drop_eq_getElem_cons (List.getElem?_eq_some_iff.mp here).1, (List.getElem?_eq_some_iff.mp here).2]
  have firstB : (keysOf texts b).drop index = key :: (keysOf texts b).drop (index + 1) := by
    rw [drop_eq_getElem_cons (List.getElem?_eq_some_iff.mp there).1, (List.getElem?_eq_some_iff.mp there).2]
  have commonA : (keysOf texts a).contains key = true := contains_iff_mem.mpr (mem_of_getElem? here)
  have commonB : (keysOf texts b).contains key = true := contains_iff_mem.mpr (mem_of_getElem? there)
  rw [first, filter_cons_of_pos commonB] at rest
  have order : loop.startB ≤ index := by
    by_contra behind
    have left : key ∈ (keysOf texts b).drop loop.startB := by
      apply mem_of_mem_filter
      rw [rest]
      exact mem_cons_self
    have early : key ∈ (keysOf texts b).take loop.startB := by
      refine take_subset_take_left _ (Nat.lt_of_not_le behind) ?_
      rw [take_succ_of_getElem? there]
      exact mem_append_right _ (mem_singleton_self key)
    rw [drop_eq_extract] at left
    exact not_mem_take_of_extract nodupB inv.startB left early
  refine ⟨order, fun k mem common => ?_⟩
  rw [← extract_append_drop (keysOf texts b) order, filter_append, firstB, filter_cons_of_pos commonA] at rest
  -- the first common message that is left is the next one
  cases segment : ((keysOf texts b).extract loop.startB index).filter (keysOf texts a).contains with
  | nil =>
    rw [filter_eq_nil_iff] at segment
    exact segment k mem (contains_iff_mem.mpr common)
  | cons other others =>
    rw [segment, cons_append, List.cons.injEq] at rest
    have held : key ∈ (keysOf texts b).extract loop.startB index := by
      apply mem_of_mem_filter
      rw [segment, rest.1]
      exact mem_cons_self
    exact not_mem_take_of_getElem? nodupB there (mem_of_mem_extract order held)

omit agree in
theorem Agreed.segments (nodupA : (keysOf texts a).Nodup) {scanned stop : ℕ} {loop : OrderLoop}
    (inv : Agreed texts a b scanned loop) (apart : ∀ k ∈ (keysOf texts b).extract loop.startB stop, k ∉ keysOf texts a) :
    (appendSegments texts loop.ordered (a.extract loop.startA scanned) (b.extract loop.startB stop)).filter
        (keysOf texts a).contains = (keysOf texts a).take scanned := by
  rw [filter_appendSegments (.inr ⟨rfl, rfl⟩), inv.primary, keysOf_extract, take_append_extract _ inv.startA]
  · rw [keysOf_extract, extract_eq_take_drop]
    exact nodupA.sublist ((take_sublist _ _).trans (drop_sublist _ _))
  · intro k mem
    rw [keysOf_extract] at mem
    have held : k ∈ keysOf texts a := mem_of_mem_take (mem_of_mem_extract inv.startA mem)
    refine ⟨contains_iff_mem.mpr held, fun early => not_mem_take_of_extract nodupA inv.startA mem ?_⟩
    rw [← inv.primary]
    exact mem_filter.mpr ⟨early, contains_iff_mem.mpr held⟩
  · intro k mem common
    rw [keysOf_extract] at mem
    exact absurd (contains_iff_mem.mp common) (apart k mem)

theorem Agreed.turn
    (nodupA : (keysOf texts a).Nodup) (nodupB : (keysOf texts b).Nodup) {scanned : ℕ} {loop : OrderLoop}
    (inv : Agreed texts a b scanned loop) {message : ChatMessage} (here : a[scanned]? = some message) :
    Agreed texts a b (scanned + 1) (orderTurn texts a b loop (message, scanned)) := by
  have scan := inv.toScanned.turn nodupB here
  have key : (keysOf texts a)[scanned]? = some (aiMessageKey texts message) := by
    simp [keysOf, here]
  obtain ⟨found, missing⟩ := get?_indexOfKey (keysOf texts b) (aiMessageKey texts message)
  cases lookup : (indexOfKey (keysOf texts b)).get? (aiMessageKey texts message) with
  | none =>
    rw [orderTurn_alone lookup] at scan ⊢
    refine { toScanned := scan, primary := inv.primary, apart := fun k mem => ?_, agreed := inv.agreed }
    rw [extract_succ inv.startA key] at mem
    rcases mem_append.mp mem with early | last
    · exact inv.apart k early
    · exact mem_singleton.mp last ▸ missing lookup
  | some otherIndex =>
    have there := found otherIndex lookup
    obtain ⟨order, apart⟩ := inv.next agree nodupB key there
    rw [orderTurn_common lookup, if_neg (Nat.not_lt.mpr order)] at scan ⊢
    have common : (keysOf texts a).contains (aiMessageKey texts message) = true :=
      contains_iff_mem.mpr (mem_of_getElem? key)
    have commonB : (keysOf texts b).contains (aiMessageKey texts message) = true :=
      contains_iff_mem.mpr (mem_of_getElem? there)
    have segments := inv.segments nodupA apart
    refine { toScanned := scan, primary := filter_addKey nodupA key segments, apart := ?_, agreed := ?_ }
    · simp
    · dsimp only
      rw [take_succ_of_getElem? key, take_succ_of_getElem? there, filter_append, filter_append, ← take_append_extract _ inv.startA,
        ← take_append_extract (keysOf texts b) order, filter_append, filter_append, filter_eq_nil_of_apart inv.apart,
        filter_eq_nil_of_apart apart, inv.agreed, filter_singleton, filter_singleton, common, commonB]

theorem mergeAiMessageOrder_primary
    (nodupA : (keysOf texts a).Nodup) (nodupB : (keysOf texts b).Nodup) :
    (mergeAiMessageOrder texts a b).filter (keysOf texts a).contains = keysOf texts a := by
  have inv : Agreed texts a b a.length (a.zipIdx.foldl (orderTurn texts a b) ⟨0, 0, []⟩) := by
    apply scan_induction a b
    · exact ⟨⟨Nat.le_refl _, Nat.zero_le _, nodup_nil, by simp, by simp, by simp⟩, by simp, by simp, by simp⟩
    · intro scanned loop message inv here
      exact inv.turn agree nodupA nodupB here
  have rest := inv.rest agree
  rw [drop_of_length_le (length_keysOf texts a).le, filter_nil, drop_eq_extract, filter_eq_nil_iff] at rest
  rw [mergeAiMessageOrder_eq, ← length_keysOf texts b,
    inv.segments nodupA fun k mem common => rest k mem (contains_iff_mem.mpr common),
    ← length_keysOf texts a, take_length]

end

end Order

end Netcatty.SyncMerge
