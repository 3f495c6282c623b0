import Netcatty.ToolRepair

/-!
The repair of tool calls does what it has to, and no more.

The results of tool messages that answer nothing are dropped, calls without a result are
answered by an interruption, and everything else stays where it was.  Messages whose calls
are all answered once are returned as they are, so the second repair changes nothing.
Results inside an assistant message are not looked at: to the repair they are parts like
any other.
-/

namespace Netcatty.AgentContext

open Pairing List

def interruption (toolCallId toolName : JsString) : ToolResultPart :=
  ⟨toolCallId, toolName, .text INTERRUPTED, true⟩

def AssistantPart.interruption? : AssistantPart → Option ToolResultPart
  | toolCall toolCallId toolName _ => some (interruption toolCallId toolName)
  | _ => none

def ModelMessage.interruptions : ModelMessage → List ToolResultPart
  | assistant content => content.list.filterMap AssistantPart.interruption?
  | _ => []

def toolMessage : List ToolPart → List ModelMessage
  | [] => []
  | part :: parts => [.tool (part :: parts)]

/-- The parts of a tool message without the results of ids that have no unanswered call, and
the calls that are unanswered then. -/
inductive Filtered : (JsString → ℕ) → List ToolPart → List ToolPart → (JsString → ℕ) → Prop where
  | done {opened : JsString → ℕ} : Filtered opened [] [] opened
  | other {opened left : JsString → ℕ} {part : ToolPart} {parts kept : List ToolPart}
      (other : part.result? = none) (rest : Filtered opened parts kept left) :
      Filtered opened (part :: parts) (part :: kept) left
  | answer {opened left : JsString → ℕ} {part : ToolPart} {parts kept : List ToolPart} {id : JsString}
      (result : part.result? = some id) (unanswered : 0 < opened id)
      (rest : Filtered (Round.behind ⟨[id], []⟩ opened) parts kept left) :
      Filtered opened (part :: parts) (part :: kept) left
  | orphan {opened left : JsString → ℕ} {part : ToolPart} {parts kept : List ToolPart} {id : JsString}
      (result : part.result? = some id) (answered : opened id = 0)
      (rest : Filtered opened parts kept left) : Filtered opened (part :: parts) kept left

/-- What a repair may make of messages before which these calls are unanswered: it keeps
every message that is no tool message, adds interruptions behind it, and drops results that
answer nothing. -/
inductive RepairedFrom : (JsString → ℕ) → List ModelMessage → List ModelMessage → Prop where
  | done {opened : JsString → ℕ} : RepairedFrom opened [] []
  | kept {opened : JsString → ℕ} {message : ModelMessage} {messages repaired : List ModelMessage}
      {results : List ToolResultPart} (solid : ∀ content, message ≠ .tool content)
      (added : results.Sublist message.interruptions)
      (rest : RepairedFrom (message.toolRound.behind opened) messages repaired) :
      RepairedFrom opened (message :: messages)
        (message :: (toolMessage (results.map .toolResult) ++ repaired))
  | filtered {opened left : JsString → ℕ} {content kept : List ToolPart} {messages repaired : List ModelMessage}
      (filtered : Filtered opened content kept left) (rest : RepairedFrom left messages repaired) :
      RepairedFrom opened (.tool content :: messages) (toolMessage kept ++ repaired)

/-- Left to right, every result of a tool message answers a still unanswered call of its id in
an earlier message, and every call is answered. -/
def AnsweredOnce (messages : List ModelMessage) : Prop :=
  Resolved (messages.map ModelMessage.toolRound)

namespace Repair

/-- How many calls of each id are pending. -/
def opened (repair : Repair) (id : JsString) : ℕ := (repair.pending id).length

theorem opened_called (repair : Repair) (id : JsString) :
    (repair.called id).opened = Round.behind ⟨[], [id]⟩ repair.opened := by
  funext other
  change ((repair.called id).pending other).length = (repair.pending other).length - [].count other + [id].count other
  rw [pending_called, count_nil, Nat.sub_zero]
  by_cases same : other = id
  · rw [if_pos same, same, length_append, count_cons_self]
    rfl
  · have apart : id ≠ other := fun eq => same eq.symm
    rw [if_neg same, count_cons_of_ne apart, count_nil, Nat.add_zero]

theorem opened_answered {repair : Repair} {id : JsString} {earlier : List ℕ} {call : ℕ}
    (last : repair.pending id = earlier ++ [call]) :
    (repair.answered id earlier call).opened = Round.behind ⟨[id], []⟩ repair.opened := by
  funext other
  change ((repair.answered id earlier call).pending other).length =
    (repair.pending other).length - [id].count other + [].count other
  rw [pending_answered, count_nil, Nat.add_zero]
  by_cases same : other = id
  · rw [if_pos same, same, last, length_append, count_cons_self]
    rfl
  · have apart : id ≠ other := fun eq => same eq.symm
    rw [if_neg same, count_cons_of_ne apart, count_nil, Nat.sub_zero]

theorem behind_opens (opened : JsString → ℕ) (first : JsString) (more : List JsString) :
    Round.behind ⟨[], more⟩ (Round.behind ⟨[], [first]⟩ opened) = Round.behind ⟨[], first :: more⟩ opened := by
  funext id
  simp only [Round.behind, count_nil, count_cons]
  omega

theorem opened_noteCalls (list : List AssistantPart) (repair : Repair) :
    (list.foldl noteCall repair).opened =
      Round.behind ⟨[], list.filterMap AssistantPart.call?⟩ repair.opened := by
  induction list generalizing repair with
  | nil => exact (Round.Idle.behind ⟨rfl, rfl⟩ _).symm
  | cons part list ih =>
    rw [foldl_cons, ih, filterMap_cons]
    cases call : part.call? with
    | none => rw [noteCall_of_none repair call]
    | some id => rw [noteCall_of_call repair call, opened_called, behind_opens]

/-! ## What is dropped and what is added -/

theorem filtered_filterParts (parts : List ToolPart) (repair : Repair) :
    Filtered repair.opened parts (repair.filterParts parts).2 (repair.filterParts parts).1.opened := by
  induction parts generalizing repair with
  | nil => exact .done
  | cons part parts ih =>
    have rest := ih (repair.keepPart part).1
    rw [filterParts_cons]
    rcases repair.keepPart_cases part with ⟨result, kept⟩ | ⟨id, result, empty, kept⟩ |
      ⟨id, earlier, call, result, last, kept⟩
    · rw [kept] at rest ⊢
      exact .other result rest
    · rw [kept] at rest ⊢
      exact .orphan result (congrArg List.length empty) rest
    · rw [kept] at rest ⊢
      dsimp only at rest
      rw [opened_answered last] at rest
      refine .answer result ?_ rest
      rw [opened, last, length_append]
      exact Nat.succ_pos _

variable (final : List ℕ)

theorem sublist_missingResults (list : List AssistantPart) (call : ℕ) :
    (missingResults final call list).Sublist (list.filterMap AssistantPart.interruption?) := by
  induction list generalizing call with
  | nil => exact .slnil
  | cons part list ih =>
    cases part with
    | toolCall toolCallId toolName input =>
      rw [missingResults]
      split
      · exact (ih _).cons _
      · exact (ih _).cons_cons _
    | text _ => exact ih call
    | attachment _ => exact ih call
    | toolResult _ => exact ih call
    | other _ => exact ih call

theorem sublist_insertedResults (call : ℕ) (message : ModelMessage) :
    (insertedResults final call message).Sublist message.interruptions := by
  cases message with
  | assistant content => exact sublist_missingResults final content.list call
  | _ => exact .slnil

theorem insertMissing_cons (call : ℕ) (message : ModelMessage) (messages : List ModelMessage) :
    insertMissing final call (message :: messages) =
      message :: (toolMessage ((insertedResults final call message).map .toolResult) ++
        insertMissing final (call + message.calls.length) messages) := by
  rw [insertMissing]
  cases insertedResults final call message <;> rfl

theorem insertMissing_toolMessage (call : ℕ) (parts : List ToolPart)
    (messages : List ModelMessage) :
    insertMissing final call (toolMessage parts ++ messages) =
      toolMessage parts ++ insertMissing final call messages := by
  cases parts with
  | nil => rfl
  | cons part parts => exact insertMissing_cons final call (.tool (part :: parts)) messages

theorem sanitize_tool (repair : Repair) (content : List ToolPart) (messages : List ModelMessage) :
    ∃ left : Repair, left.opened = (repair.filterParts content).1.opened ∧ left.calls = repair.calls ∧
      (repair.sanitize (.tool content :: messages)).2 =
        toolMessage (repair.filterParts content).2 ++ (left.sanitize messages).2 := by
  have calls := calls_filterParts content repair
  rw [sanitize]
  cases kept : (repair.filterParts content).2 with
  | nil => exact ⟨(repair.filterParts content).1.dropped, rfl, calls, rfl⟩
  | cons part parts => exact ⟨(repair.filterParts content).1, rfl, calls, rfl⟩

variable (messages : List ModelMessage)

/-- The two passes keep the messages but for orphaned results, and add only interruptions. -/
theorem repaired_sanitize (repair : Repair) (final : List ℕ) :
    RepairedFrom repair.opened messages (insertMissing final repair.calls (repair.sanitize messages).2) := by
  induction messages generalizing repair with
  | nil => exact .done
  | cons message messages ih =>
    have solid (repair' : Repair) (opened : repair'.opened = message.toolRound.behind repair.opened)
        (calls : repair'.calls = repair.calls + message.calls.length) (other : ∀ content, message ≠ .tool content)
        (step : (repair.sanitize (message :: messages)).2 = message :: (repair'.sanitize messages).2) :
        RepairedFrom repair.opened (message :: messages)
          (insertMissing final repair.calls (repair.sanitize (message :: messages)).2) := by
      have rest := ih repair'
      rw [opened, calls] at rest
      rw [step, insertMissing_cons]
      exact .kept other (sublist_insertedResults final repair.calls message) rest
    cases message with
    | system content =>
      exact solid repair (Round.Idle.behind ⟨rfl, rfl⟩ _).symm rfl (fun _ same => by cases same) rfl
    | user content =>
      exact solid repair (Round.Idle.behind ⟨rfl, rfl⟩ _).symm rfl (fun _ same => by cases same) rfl
    | assistant content =>
      exact solid (content.list.foldl noteCall repair) (opened_noteCalls content.list repair)
        (calls_noteCalls content.list repair) (fun _ same => by cases same) rfl
    | tool content =>
      obtain ⟨left, opened, calls, step⟩ := sanitize_tool repair content messages
      have rest := ih left
      rw [opened, calls] at rest
      rw [step, insertMissing_toolMessage]
      exact .filtered (filtered_filterParts content repair) rest

/-! ## Messages that need no repair -/

def Accounted (repair : Repair) : Prop :=
  ∀ call < repair.calls, call ∈ repair.matchedCalls ∨ ∃ id, call ∈ repair.pending id

theorem accounted_initial : initial.Accounted := fun _ below => absurd below (Nat.not_lt_zero _)

section

variable {repair : Repair} (accounted : repair.Accounted)
include accounted

theorem Accounted.called (id : JsString) : (repair.called id).Accounted := by
  intro call below
  rw [calls_called] at below
  by_cases last : call = repair.calls
  · exact .inr ⟨id, mem_pending_called.mpr (.inr ⟨rfl, last⟩)⟩
  · rcases accounted call (by omega) with matched | ⟨other, mem⟩
    · exact .inl matched
    · exact .inr ⟨other, mem_pending_called.mpr (.inl mem)⟩

theorem Accounted.answered {id : JsString}
    {earlier : List ℕ} {call : ℕ} (last : repair.pending id = earlier ++ [call]) :
    (repair.answered id earlier call).Accounted := by
  intro other below
  rcases accounted other below with matched | ⟨named, mem⟩
  · exact .inl (mem_cons_of_mem _ matched)
  · by_cases same : named = id
    · rw [same, last, mem_append, mem_singleton] at mem
      rcases mem with mem | mem
      · exact .inr ⟨id, by rw [pending_answered, if_pos rfl]; exact mem⟩
      · exact .inl (mem ▸ mem_cons_self)
    · exact .inr ⟨named, by rw [pending_answered, if_neg same]; exact mem⟩

theorem Accounted.keepPart (part : ToolPart) : (repair.keepPart part).1.Accounted := by
  rcases repair.keepPart_cases part with ⟨_, kept⟩ | ⟨_, _, _, kept⟩ | ⟨_, _, _, _, last, kept⟩
  · rw [kept]
    exact accounted
  · rw [kept]
    exact accounted
  · rw [kept]
    exact accounted.answered last

omit accounted in
theorem filterParts_answers (parts : List ToolPart) {repair : Repair}
    (answers : Round.Answers ⟨parts.filterMap ToolPart.result?, []⟩ repair.opened) :
    (repair.filterParts parts).2 = parts ∧ (repair.filterParts parts).1.didAdjust = repair.didAdjust ∧
      (repair.filterParts parts).1.opened =
        Round.behind ⟨parts.filterMap ToolPart.result?, []⟩ repair.opened := by
  induction parts generalizing repair with
  | nil => exact ⟨rfl, rfl, (Round.Idle.behind ⟨rfl, rfl⟩ _).symm⟩
  | cons part parts ih =>
    rw [filterParts_cons]
    rcases repair.keepPart_cases part with ⟨result, kept⟩ | ⟨id, result, empty, kept⟩ |
      ⟨id, earlier, call, result, last, kept⟩
    · rw [filterMap_cons, result] at answers ⊢
      rw [kept]
      obtain ⟨all, quiet, opened⟩ := ih answers
      exact ⟨congrArg (part :: ·) all, quiet, opened⟩
    · rw [filterMap_cons, result] at answers
      have found := answers id
      rw [opened, empty, count_cons_self] at found
      exact absurd found (Nat.not_succ_le_zero _)
    · rw [filterMap_cons, result] at answers ⊢
      rw [kept]
      have one := opened_answered last
      have rest : Round.Answers ⟨parts.filterMap ToolPart.result?, []⟩
          (repair.answered id earlier call).opened := by
        intro other
        have enough := answers other
        rw [one]
        simp only [Round.behind, count_cons, count_nil] at enough ⊢
        omega
      obtain ⟨all, quiet, opened⟩ := ih rest
      refine ⟨congrArg (part :: ·) all, quiet, opened.trans ?_⟩
      rw [one]
      funext other
      simp only [Round.behind, count_cons, count_nil]
      omega

theorem sanitize_answered
    (answered : ResolvedFrom repair.opened (messages.map ModelMessage.toolRound))
    (filled : .tool [] ∉ messages) :
    (repair.sanitize messages).1.didAdjust = repair.didAdjust ∧
      ∀ call < repair.calls + (messages.flatMap ModelMessage.calls).length,
        call ∈ (repair.sanitize messages).1.matchedCalls := by
  induction messages generalizing repair with
  | nil =>
    refine ⟨rfl, fun call below => ?_⟩
    rcases accounted call below with matched | ⟨id, mem⟩
    · exact matched
    · have none_ : (repair.pending id).length = 0 := answered id
      rw [eq_nil_of_length_eq_zero none_] at mem
      exact absurd mem not_mem_nil
  | cons message messages ih =>
    have later : .tool [] ∉ messages := fun mem => filled (mem_cons_of_mem _ mem)
    have rest := answered.2
    cases message with
    | system content =>
      refine ih accounted ?_ later
      rwa [Round.Idle.behind ⟨rfl, rfl⟩] at rest
    | user content =>
      refine ih accounted ?_ later
      rwa [Round.Idle.behind ⟨rfl, rfl⟩] at rest
    | assistant content =>
      have noted := called_preserves Accounted (fun _ id held => held.called id) content.list repair accounted
      obtain ⟨quiet, matched⟩ := ih noted ((opened_noteCalls content.list repair) ▸ rest) later
      refine ⟨quiet.trans (didAdjust_noteCalls content.list repair), fun call below => matched call ?_⟩
      rw [calls_noteCalls]
      rw [flatMap_cons, length_append, ← Nat.add_assoc] at below
      exact below
    | tool content =>
      obtain ⟨all, quiet, opened⟩ := filterParts_answers content answered.1
      have kept := filterParts_preserves Accounted (fun _ part held => held.keepPart part) content repair accounted
      obtain ⟨first, more, cut⟩ := exists_cons_of_ne_nil (l := content) fun empty =>
        filled (empty ▸ mem_cons_self)
      have step : (repair.sanitize (.tool content :: messages)).1 =
          ((repair.filterParts content).1.sanitize messages).1 :=
        (rounds_kept repair [] messages (by rw [all, cut]; exact cons_ne_nil _ _)).1
      obtain ⟨same, matched⟩ := ih kept (opened ▸ rest) later
      rw [step]
      refine ⟨same.trans quiet, fun call below => matched call ?_⟩
      rw [calls_filterParts]
      exact below

end

theorem missingResults_of_matched (list : List AssistantPart) (call : ℕ)
    (matched : ∀ other < call + (list.filterMap AssistantPart.call?).length, other ∈ final) :
    missingResults final call list = [] := by
  induction list generalizing call with
  | nil => rfl
  | cons part list ih =>
    cases part with
    | toolCall toolCallId toolName input =>
      rw [filterMap_cons_some (show AssistantPart.call? _ = some toolCallId from rfl), length_cons] at matched
      rw [missingResults, if_pos (matched call (by omega))]
      exact ih (call + 1) fun other below => matched other (by omega)
    | text _ => exact ih call matched
    | attachment _ => exact ih call matched
    | toolResult _ => exact ih call matched
    | other _ => exact ih call matched

theorem insertsAny_of_matched (call : ℕ)
    (matched : ∀ other < call + (messages.flatMap ModelMessage.calls).length, other ∈ final) :
    insertsAny final call messages = false := by
  induction messages generalizing call with
  | nil => rfl
  | cons message messages ih =>
    rw [flatMap_cons, length_append] at matched
    have own : insertedResults final call message = [] := by
      cases message with
      | assistant content =>
        refine missingResults_of_matched final content.list call fun other below => matched other ?_
        change other < call + (ModelMessage.calls (.assistant content)).length at below
        omega
      | _ => rfl
    rw [insertsAny, own, ih _ fun other below => matched other (by omega)]
    rfl

end Repair

theorem repair_answered {messages : List ModelMessage} (answered : AnsweredOnce messages)
    (filled : .tool [] ∉ messages) : repairToolMessageIntegrity messages = ⟨messages, false⟩ := by
  obtain ⟨quiet, matched⟩ := Repair.sanitize_answered messages Repair.accounted_initial answered filled
  have same := (Repair.didAdjust_sanitize messages _ quiet).2
  have nothing : insertsAny (Repair.initial.sanitize messages).1.matchedCalls 0
      (Repair.initial.sanitize messages).2 = false := by
    rw [same]
    exact Repair.insertsAny_of_matched _ messages 0 matched
  unfold repairToolMessageIntegrity
  dsimp only
  rw [nothing, quiet]
  rfl

theorem RepairedFrom.filled {opened : JsString → ℕ} {messages repaired : List ModelMessage}
    (from_ : RepairedFrom opened messages repaired) : .tool [] ∉ repaired := by
  have none_ : ∀ parts, .tool [] ∉ toolMessage parts := by
    intro parts mem
    cases parts with
    | nil => exact absurd mem not_mem_nil
    | cons part parts => cases mem_singleton.mp mem
  induction from_ with
  | done => exact not_mem_nil
  | kept solid added rest ih =>
    intro mem
    rcases mem_cons.mp mem with same | mem
    · exact solid [] same.symm
    · exact (mem_append.mp mem).elim (none_ _) ih
  | filtered filtered rest ih =>
    intro mem
    exact (mem_append.mp mem).elim (none_ _) ih

end Netcatty.AgentContext
