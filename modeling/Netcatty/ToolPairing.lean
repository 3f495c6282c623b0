import Netcatty.AgentMessages
import Netcatty.Pairing

/-!
What the repair of tool calls achieves.

The repaired messages answer every call once.  A call is answered in place when only
tool messages that answer something stand between its message and its result; the
repaired messages are tidy exactly when every answered call is answered in place, and
this can be read off the messages before the repair.
-/

namespace Netcatty.AgentContext

open Pairing List Bool

namespace ModelMessage

/-- The calls a message answers and those it makes. -/
def round (message : ModelMessage) : Round JsString := ⟨message.results, message.calls⟩

/-- As `round`, but without the results inside an assistant message, which the repair
does not look at. -/
def toolRound (message : ModelMessage) : Round JsString := ⟨message.toolResults, message.calls⟩

end ModelMessage

/-- Scanning left to right, every result answers a still unanswered call with its id in
an earlier message, and at the end no call is unanswered. -/
def WellPaired (messages : List ModelMessage) : Prop :=
  Resolved (messages.map ModelMessage.round)

/-! ## Calls answered in place -/

/-- The ids of the unanswered calls. -/
structure Unanswered where
  /-- Calls that a message other than an answer follows. -/
  older : List JsString
  /-- Calls of the last message but answers. -/
  latest : List JsString

namespace Unanswered

def initial : Unanswered := ⟨[], []⟩

/-- Behind a result; `none` where it answers an older call. -/
def answer (unanswered : Unanswered) (toolCallId : JsString) : Option Unanswered :=
  if unanswered.latest.contains toolCallId then
    some { unanswered with latest := unanswered.latest.erase toolCallId }
  else if unanswered.older.contains toolCallId then none
  else some unanswered

def answerAll (unanswered : Unanswered) : List JsString → Option Unanswered
  | [] => some unanswered
  | toolCallId :: ids =>
    match unanswered.answer toolCallId with
    | none => none
    | some left => left.answerAll ids

/-- Behind a message that answers nothing. -/
def retire (unanswered : Unanswered) (calls : List JsString) : Unanswered :=
  ⟨unanswered.older ++ unanswered.latest, calls⟩

/-- Behind a tool message. -/
def passTool (unanswered : Unanswered) (content : List ToolPart) : Option Unanswered :=
  (unanswered.answerAll (content.filterMap ToolPart.result?)).map fun left =>
    if left.latest = unanswered.latest ∧ content.any (·.result?.isNone) then unanswered.retire []
    else left

def answeredInPlace (unanswered : Unanswered) : List ModelMessage → Bool
  | [] => true
  | .tool content :: messages =>
    match unanswered.passTool content with
    | none => false
    | some left => left.answeredInPlace messages
  | message :: messages => (unanswered.retire message.calls).answeredInPlace messages

end Unanswered

namespace Repair

/-! ## The first pass -/

variable (repair : Repair)

def called (toolCallId : JsString) : Repair :=
  { repair with
    pendingCalls := repair.pendingCalls.set toolCallId (repair.pending toolCallId ++ [repair.calls]),
    calls := repair.calls + 1 }

def answered (toolCallId : JsString) (earlier : List ℕ) (call : ℕ) : Repair :=
  { repair with
    pendingCalls := repair.pendingCalls.set toolCallId earlier,
    matchedCalls := call :: repair.matchedCalls }

theorem noteCall_of_call {part : AssistantPart} {toolCallId : JsString} (repair : Repair)
    (call : part.call? = some toolCallId) : repair.noteCall part = repair.called toolCallId := by
  simp only [noteCall, call, called]

theorem noteCall_of_none {part : AssistantPart} (repair : Repair) (call : part.call? = none) :
    repair.noteCall part = repair := by
  simp only [noteCall, call]

@[simp] theorem pending_called (toolCallId id : JsString) : (repair.called toolCallId).pending id =
      if id = toolCallId then repair.pending toolCallId ++ [repair.calls] else repair.pending id := by
  simp only [pending, called, OrderedMap.get?_set]
  split <;> rfl

@[simp] theorem pending_answered (toolCallId id : JsString) (earlier : List ℕ)
    (call : ℕ) : (repair.answered toolCallId earlier call).pending id =
      if id = toolCallId then earlier else repair.pending id := by
  simp only [pending, answered, OrderedMap.get?_set]
  split <;> rfl

/-- The three things that can happen to a part. -/
theorem keepPart_cases (part : ToolPart) :
    (part.result? = none ∧ repair.keepPart part = (repair, true)) ∨
    (∃ id, part.result? = some id ∧ repair.pending id = [] ∧
      repair.keepPart part = ({ repair with didAdjust := true }, false)) ∨
    (∃ id earlier call, part.result? = some id ∧ repair.pending id = earlier ++ [call] ∧
      repair.keepPart part = (repair.answered id earlier call, true)) := by
  cases result : part.result? with
  | none => exact .inl ⟨rfl, by simp only [keepPart, result]⟩
  | some id =>
    right
    rcases eq_nil_or_concat (repair.pending id) with empty | ⟨earlier, call, last⟩
    · exact .inl ⟨id, rfl, empty, by simp [keepPart, result, empty]⟩
    · rw [concat_eq_append] at last
      exact .inr ⟨id, earlier, call, rfl, last, by simp [keepPart, result, last, answered]⟩

/-- Calls are pending in their order, for one id each, and none is matched. -/
structure Ordered (repair : Repair) : Prop where
  sorted : ∀ id, (repair.pending id).Pairwise (· < ·)
  below : ∀ id, ∀ call ∈ repair.pending id, call < repair.calls
  apart : ∀ id other call, call ∈ repair.pending id → call ∈ repair.pending other → id = other
  unmatched : ∀ id, ∀ call ∈ repair.pending id, call ∉ repair.matchedCalls
  known : ∀ call ∈ repair.matchedCalls, call < repair.calls

theorem ordered_initial : initial.Ordered :=
  ⟨fun _ => .nil, fun _ _ mem => absurd mem not_mem_nil,
    fun _ _ _ mem => absurd mem not_mem_nil, fun _ _ mem => absurd mem not_mem_nil,
    fun _ mem => absurd mem not_mem_nil⟩

variable {repair : Repair}

theorem mem_pending_called {toolCallId id : JsString} {call : ℕ} :
    call ∈ (repair.called toolCallId).pending id ↔
      call ∈ repair.pending id ∨ (id = toolCallId ∧ call = repair.calls) := by
  rw [pending_called]
  by_cases same : id = toolCallId
  · subst same
    simp
  · simp [same]

theorem Ordered.called (ordered : repair.Ordered) (toolCallId : JsString) :
    (repair.called toolCallId).Ordered where
  sorted id := by
    rw [pending_called]
    split
    · rw [pairwise_append]
      refine ⟨ordered.sorted _, pairwise_singleton _ _, fun a mem b last => ?_⟩
      rw [mem_singleton.mp last]
      exact ordered.below _ a mem
    · exact ordered.sorted id
  below id call mem := by
    rcases mem_pending_called.mp mem with mem | ⟨_, same⟩
    · exact Nat.lt_succ_of_lt (ordered.below id call mem)
    · exact same ▸ Nat.lt_succ_self _
  apart id other call mem also := by
    rcases mem_pending_called.mp mem with mem | ⟨here, same⟩
    · rcases mem_pending_called.mp also with also | ⟨_, same⟩
      · exact ordered.apart id other call mem also
      · exact absurd (same ▸ ordered.below id call mem) (lt_irrefl _)
    · rcases mem_pending_called.mp also with also | ⟨there, _⟩
      · exact absurd (same ▸ ordered.below other call also) (lt_irrefl _)
      · exact here.trans there.symm
  unmatched id call mem matched := by
    rcases mem_pending_called.mp mem with mem | ⟨_, same⟩
    · exact ordered.unmatched id call mem matched
    · exact absurd (same ▸ ordered.known call matched) (lt_irrefl _)
  known call matched := Nat.lt_succ_of_lt (ordered.known call matched)

theorem mem_pending_of_answered {id other : JsString} {earlier : List ℕ}
    {call x : ℕ} (last : repair.pending id = earlier ++ [call])
    (mem : x ∈ (repair.answered id earlier call).pending other) : x ∈ repair.pending other := by
  rw [pending_answered] at mem
  split at mem
  · rename_i same
    rw [same, last]
    exact mem_append_left _ mem
  · exact mem

theorem Ordered.last_not_mem (ordered : repair.Ordered) {id : JsString}
    {earlier : List ℕ} {call : ℕ} (last : repair.pending id = earlier ++ [call]) :
    ∀ x ∈ earlier, x < call := by
  have sorted := ordered.sorted id
  rw [last, pairwise_append] at sorted
  exact fun x mem => sorted.2.2 x mem call mem_cons_self

theorem Ordered.answered (ordered : repair.Ordered) {id : JsString}
    {earlier : List ℕ} {call : ℕ} (last : repair.pending id = earlier ++ [call]) :
    (repair.answered id earlier call).Ordered where
  sorted other := by
    rw [pending_answered]
    split
    · have sorted := ordered.sorted id
      rw [last, pairwise_append] at sorted
      exact sorted.1
    · exact ordered.sorted other
  below other x mem := ordered.below other x (mem_pending_of_answered last mem)
  apart one other x mem also := ordered.apart one other x (mem_pending_of_answered last mem)
    (mem_pending_of_answered last also)
  unmatched other x mem matched := by
    rcases mem_cons.mp matched with same | matched
    · subst same
      have own : x ∈ repair.pending id := by simp [last]
      have where_ := ordered.apart other id x (mem_pending_of_answered last mem) own
      rw [where_, pending_answered, if_pos rfl] at mem
      exact lt_irrefl _ (ordered.last_not_mem last x mem)
    · exact ordered.unmatched other x (mem_pending_of_answered last mem) matched
  known x matched := by
    rcases mem_cons.mp matched with same | matched
    · exact same ▸ ordered.below id call (by simp [last])
    · exact ordered.known x matched

/-- How many pending calls of an id are among these. -/
def promised (repair : Repair) (final : List ℕ) (id : JsString) : ℕ :=
  (repair.pending id).countP (final.contains ·)

theorem promised_answered {id : JsString} {earlier : List ℕ} {call : ℕ}
    (last : repair.pending id = earlier ++ [call]) {final : List ℕ} (mem : call ∈ final)
    (other : JsString) :
    repair.promised final other =
      (repair.answered id earlier call).promised final other + [id].count other := by
  unfold promised
  rw [pending_answered]
  by_cases same : other = id
  · subst same
    simp [last, mem]
  · have apart : id ≠ other := fun eq => same eq.symm
    simp [same, apart]

theorem filterParts_cons (repair : Repair) (part : ToolPart) (parts : List ToolPart) :
    repair.filterParts (part :: parts) =
      (((repair.keepPart part).1.filterParts parts).1,
        if (repair.keepPart part).2 then part :: ((repair.keepPart part).1.filterParts parts).2
        else ((repair.keepPart part).1.filterParts parts).2) := rfl

/-- What the filter of a message's parts preserves when every single part does. -/
theorem filterParts_preserves (P : Repair → Prop)
    (step : ∀ repair part, P repair → P (Repair.keepPart repair part).1)
    (parts : List ToolPart) (repair : Repair) (held : P repair) :
    P (repair.filterParts parts).1 := by
  induction parts generalizing repair with
  | nil => exact held
  | cons part parts ih => exact ih _ (step repair part held)

theorem calls_keepPart (repair : Repair) (part : ToolPart) :
    (repair.keepPart part).1.calls = repair.calls := by
  rcases repair.keepPart_cases part with ⟨_, kept⟩ | ⟨_, _, _, kept⟩ | ⟨_, _, _, _, _, kept⟩
  · rw [kept]
  · rw [kept]
  · rw [kept]
    rfl

theorem Ordered.keepPart (ordered : repair.Ordered) (part : ToolPart) :
    (repair.keepPart part).1.Ordered := by
  rcases repair.keepPart_cases part with ⟨_, kept⟩ | ⟨_, _, _, kept⟩ | ⟨_, _, _, _, last, kept⟩
  · rw [kept]
    exact ordered
  · rw [kept]
    exact ⟨ordered.sorted, ordered.below, ordered.apart, ordered.unmatched, ordered.known⟩
  · rw [kept]
    exact ordered.answered last

theorem matched_keepPart (repair : Repair) (part : ToolPart) :
    repair.matchedCalls ⊆ (repair.keepPart part).1.matchedCalls := by
  rcases repair.keepPart_cases part with ⟨_, kept⟩ | ⟨_, _, _, kept⟩ | ⟨_, _, _, _, _, kept⟩
  · rw [kept]
    exact List.Subset.refl _
  · rw [kept]
    exact List.Subset.refl _
  · rw [kept]
    exact subset_cons_self _ _

variable (parts : List ToolPart)

theorem calls_filterParts (repair : Repair) : (repair.filterParts parts).1.calls = repair.calls :=
  filterParts_preserves (fun now => now.calls = repair.calls)
    (fun now part held => (calls_keepPart now part).trans held) parts repair rfl

theorem Ordered.filterParts (ordered : repair.Ordered) (parts : List ToolPart) :
    (repair.filterParts parts).1.Ordered :=
  filterParts_preserves Ordered (fun _ part held => held.keepPart part) parts repair ordered

theorem matched_filterParts (repair : Repair) :
    repair.matchedCalls ⊆ (repair.filterParts parts).1.matchedCalls :=
  filterParts_preserves (fun now => repair.matchedCalls ⊆ now.matchedCalls)
    (fun now part held => List.Subset.trans held (matched_keepPart now part)) parts repair
    (List.Subset.refl _)

theorem promised_filterParts (repair : Repair) (final : List ℕ)
    (within : (repair.filterParts parts).1.matchedCalls ⊆ final) (id : JsString) :
    repair.promised final id = (repair.filterParts parts).1.promised final id +
      ((repair.filterParts parts).2.filterMap ToolPart.result?).count id := by
  induction parts generalizing repair with
  | nil => simp [filterParts]
  | cons part parts ih =>
    have rest := ih (repair.keepPart part).1 within
    have early := List.Subset.trans (matched_filterParts parts (repair.keepPart part).1) within
    rw [filterParts_cons]
    rcases repair.keepPart_cases part with ⟨result, kept⟩ | ⟨_, _, _, kept⟩ |
      ⟨named, earlier, call, result, last, kept⟩
    · rw [kept] at rest ⊢
      simpa only [if_true, filterMap_cons, result] using rest
    · rw [kept] at rest ⊢
      exact rest
    · rw [kept] at rest early ⊢
      have one := promised_answered last (early mem_cons_self) id
      simp only [count_cons, count_nil] at one
      dsimp only at rest
      simp only [if_true, filterMap_cons, result, count_cons]
      omega

/-! ## What the first pass knows of the unanswered calls -/

/-- Calls below `bound` are the older ones. -/
structure Tracks (repair : Repair) (bound : ℕ) (unanswered : Unanswered) : Prop where
  older : ∀ id, (repair.pending id).countP (· < bound) = unanswered.older.count id
  latest : ∀ id, (repair.pending id).countP (bound ≤ ·) = unanswered.latest.count id

theorem Tracks.retire {bound : ℕ} {unanswered : Unanswered}
    (tracks : repair.Tracks bound unanswered) (ordered : repair.Ordered) :
    repair.Tracks repair.calls (unanswered.retire []) where
  older id := by
    have all : (repair.pending id).countP (· < repair.calls) = (repair.pending id).length :=
      countP_eq_length.mpr fun call mem => decide_eq_true (ordered.below id call mem)
    have split := length_eq_countP_add_countP (· < bound) (l := repair.pending id)
    have rest : (repair.pending id).countP (fun call => ¬ (call < bound)) =
        (repair.pending id).countP (bound ≤ ·) :=
      countP_congr fun call _ => by simp
    have older := tracks.older id
    have latest := tracks.latest id
    simp only [Unanswered.retire, count_append]
    simp only [decide_not] at rest
    simp only [decide_eq_true_eq, decide_not] at split
    omega
  latest id := by
    rw [countP_eq_zero.mpr]
    · rfl
    · intro call mem
      have below := ordered.below id call mem
      simpa using below

theorem Tracks.called {bound : ℕ} {unanswered : Unanswered}
    (tracks : repair.Tracks bound unanswered) (enough : bound ≤ repair.calls) (id : JsString) :
    (repair.called id).Tracks bound ⟨unanswered.older, unanswered.latest ++ [id]⟩ where
  older other := by
    have older := tracks.older other
    rw [pending_called]
    by_cases same : other = id
    · subst same
      simpa [enough] using older
    · simpa [same] using older
  latest other := by
    have latest := tracks.latest other
    rw [pending_called]
    by_cases same : other = id
    · subst same
      simpa [enough] using latest
    · have apart : id ≠ other := fun eq => same eq.symm
      simpa [same, apart] using latest

theorem Tracks.of_pending {repair other : Repair} {bound : ℕ} {unanswered : Unanswered}
    (tracks : repair.Tracks bound unanswered) (same : ∀ id, other.pending id = repair.pending id) :
    other.Tracks bound unanswered :=
  ⟨fun id => by rw [same, tracks.older], fun id => by rw [same, tracks.latest]⟩

section

variable {bound : ℕ} {unanswered : Unanswered} (tracks : repair.Tracks bound unanswered)

include tracks

theorem Tracks.answer_none {id : JsString} (empty : repair.pending id = []) :
    unanswered.answer id = some unanswered := by
  have older := tracks.older id
  have latest := tracks.latest id
  rw [empty, countP_nil] at older latest
  have not_older : id ∉ unanswered.older := count_eq_zero.mp older.symm
  have not_latest : id ∉ unanswered.latest := count_eq_zero.mp latest.symm
  simp [Unanswered.answer, not_older, not_latest]

theorem Tracks.answer_latest {id : JsString} {earlier : List ℕ} {call : ℕ}
    (last : repair.pending id = earlier ++ [call]) (recent : bound ≤ call) :
    unanswered.answer id = some { unanswered with latest := unanswered.latest.erase id } ∧
      id ∈ unanswered.latest ∧ (repair.answered id earlier call).Tracks bound
        { unanswered with latest := unanswered.latest.erase id } := by
  have older := tracks.older id
  have latest := tracks.latest id
  have late : ¬ call < bound := by omega
  rw [last, countP_append] at older latest
  simp only [countP_singleton, recent, late, decide_true, decide_false, if_true,
    false_eq_true, if_false] at older latest
  have mem : id ∈ unanswered.latest := count_pos_iff.mp (by omega)
  refine ⟨by simp [Unanswered.answer, mem], mem, ?_, ?_⟩
  · intro other
    rw [pending_answered]
    by_cases same : other = id
    · subst same
      simpa using older
    · simpa [same] using tracks.older other
  · intro other
    rw [pending_answered, count_erase]
    by_cases same : other = id
    · subst same
      simp only [if_true, beq_self_eq_true]
      omega
    · have apart : (id == other) = false := by simpa using fun eq => same (Eq.symm eq)
      simpa [same, apart] using tracks.latest other

theorem Tracks.answer_older (ordered : repair.Ordered) {id : JsString}
    {earlier : List ℕ} {call : ℕ} (last : repair.pending id = earlier ++ [call])
    (old : call < bound) : unanswered.answer id = none := by
  have older := tracks.older id
  have latest := tracks.latest id
  have before := ordered.last_not_mem last
  have nothing : (repair.pending id).countP (bound ≤ ·) = 0 := by
    apply countP_eq_zero.mpr
    intro x mem
    rw [last] at mem
    rcases mem_append.mp mem with mem | mem
    · have smaller := before x mem
      simp only [decide_eq_true_eq]
      omega
    · have same := mem_singleton.mp mem
      simp only [decide_eq_true_eq]
      omega
  have mem : id ∈ unanswered.older := by
    apply count_pos_iff.mp
    rw [← older, last]
    simp [old]
  have absent : id ∉ unanswered.latest := by
    apply count_eq_zero.mp
    omega
  simp [Unanswered.answer, mem, absent]

end

/-- What a tool message's results do to the older calls and to the latest ones. -/
structure Passed (repair left : Repair) (bound : ℕ) (before after : Unanswered)
    (kept : List ToolPart) : Prop where
  tracks : left.Tracks bound after
  older : ∀ id call, call < bound → (call ∈ left.pending id ↔ call ∈ repair.pending id)
  /-- Nothing is answered, or an answer is kept. -/
  effect : (kept.filterMap ToolPart.result? = [] ∧ after = before ∧
      ∀ id, left.pending id = repair.pending id) ∨
    (kept.filterMap ToolPart.result? ≠ [] ∧ after.older = before.older ∧
      after.latest.length < before.latest.length)

theorem Passed.keep_other {repair left : Repair} {bound : ℕ} {before after : Unanswered}
    {kept : List ToolPart} (passed : Passed repair left bound before after kept) {part : ToolPart}
    (other : part.result? = none) : Passed repair left bound before after (part :: kept) :=
  ⟨passed.tracks, passed.older, by simpa [other] using passed.effect⟩

theorem passed_filterParts {repair : Repair} {bound : ℕ}
    {unanswered : Unanswered} (ordered : repair.Ordered)
    (tracks : repair.Tracks bound unanswered) :
    (unanswered.answerAll (parts.filterMap ToolPart.result?) = none ∧
      ∃ id call, call ∈ repair.pending id ∧ call < bound ∧
        call ∈ (repair.filterParts parts).1.matchedCalls) ∨
    ∃ after, unanswered.answerAll (parts.filterMap ToolPart.result?) = some after ∧
      Passed repair (repair.filterParts parts).1 bound unanswered after
        (repair.filterParts parts).2 := by
  induction parts generalizing repair unanswered with
  | nil =>
    exact .inr ⟨unanswered, rfl, tracks, fun _ _ _ => Iff.rfl, .inl ⟨rfl, rfl, fun _ => rfl⟩⟩
  | cons part parts ih =>
    have next := ordered.keepPart part
    rw [filterParts_cons]
    rcases repair.keepPart_cases part with ⟨result, kept⟩ | ⟨id, result, empty, kept⟩ |
      ⟨id, earlier, call, result, last, kept⟩
    · rw [kept]
      simp only [filterMap_cons, result, if_true]
      rcases ih ordered tracks with bad | ⟨after, found, passed⟩
      · exact .inl bad
      · exact .inr ⟨after, found, passed.keep_other result⟩
    · rw [kept] at next ⊢
      simp only [filterMap_cons, result, Unanswered.answerAll, tracks.answer_none empty,
        false_eq_true, if_false]
      rcases ih next (tracks.of_pending fun _ => rfl) with bad | ⟨after, found, passed⟩
      · exact .inl bad
      · exact .inr ⟨after, found, passed.tracks, passed.older, passed.effect⟩
    · rw [kept] at next ⊢
      simp only [filterMap_cons, result, Unanswered.answerAll, if_true]
      by_cases recent : bound ≤ call
      · obtain ⟨answer, mem, later⟩ := tracks.answer_latest last recent
        have older : ∀ other x, x < bound →
            (x ∈ (repair.answered id earlier call).pending other ↔ x ∈ repair.pending other) := by
          intro other x old
          rw [pending_answered]
          split
          · rename_i same
            have apart : x ≠ call := by omega
            simp [same, last, apart]
          · exact Iff.rfl
        rw [answer]
        rcases ih next later with ⟨bad, other, x, pending, old, matched⟩ | ⟨after, found, passed⟩
        · exact .inl ⟨bad, other, x, (older other x old).mp pending, old, matched⟩
        · refine .inr ⟨after, found, passed.tracks,
            fun other x old => (passed.older other x old).trans (older other x old), .inr ?_⟩
          have shrunk := length_erase_of_mem mem
          have some_ := length_pos_of_mem mem
          refine ⟨by simp [result], ?_⟩
          rcases passed.effect with ⟨_, same, _⟩ | ⟨_, same, less⟩
          · subst same
            exact ⟨rfl, by dsimp only; omega⟩
          · dsimp only at less
            exact ⟨same, by omega⟩
      · refine .inl ⟨?_, id, call, by simp [last], by omega, ?_⟩
        · rw [tracks.answer_older ordered last (by omega)]
        · exact matched_filterParts parts _ mem_cons_self

theorem filterParts_eq_nil {parts : List ToolPart} {repair : Repair} :
    (repair.filterParts parts).2 = [] ↔
      (repair.filterParts parts).2.filterMap ToolPart.result? = [] ∧
        parts.any (·.result?.isNone) = false := by
  induction parts generalizing repair with
  | nil => simp [filterParts]
  | cons part parts ih =>
    rw [filterParts_cons]
    rcases repair.keepPart_cases part with ⟨result, kept⟩ | ⟨_, result, _, kept⟩ |
      ⟨_, _, _, result, _, kept⟩
    · simp [kept, result]
    · simp only [kept, any_cons, result, Option.isNone_some, Bool.false_or]
      exact ih
    · simp [kept, result]

end Repair

end Netcatty.AgentContext
