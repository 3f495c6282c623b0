import Mathlib.Data.List.Find
import Mathlib.Data.List.Infix
import Netcatty.AliasSessions

/-!
A model's answer is restored while it streams in.

Of the text that has come, what can still be the beginning of an alias is held back (`Settles`),
and the rest is restored piece by piece.  A piece that is exactly the alias of a number or a
boolean is restored to that value, which is no text, and the stream fails; that is the only way
in which the deltas of an answer matter (`restores_whole_iff`).
-/

namespace Netcatty.Aliases

open List Option

def PRIVACY_ERROR : JsError :=
  .error (text "AI privacy protection is unavailable. No unprotected request was sent.")

def TOKEN_PREFIX : JsString := text "[NC_"

/-- `lastIndexOf` of a text that is not empty. -/
def lastIndexOf (pattern : JsString) : JsString → Option ℕ
  | [] => none
  | unit :: rest =>
    match lastIndexOf pattern rest with
    | some start => some (start + 1)
    | none => if pattern.isPrefixOf (unit :: rest) then some 0 else none

/-- The longest end of the text that begins `TOKEN_PREFIX` is held back. -/
def splitPartialPrefix (source : JsString) : JsString × JsString :=
  match [3, 2, 1].find? fun length => (TOKEN_PREFIX.take length).isSuffixOf source with
  | some length => (source.take (source.length - length), source.drop (source.length - length))
  | none => (source, [])

def splitSafeText (source : JsString) : Checked (JsString × JsString) :=
  match lastIndexOf TOKEN_PREFIX source with
  | some start =>
    if (source.drop start).any (· = closeBracket) then .ok (splitPartialPrefix source)
    else if 256 < source.length - start then .error PRIVACY_ERROR
    else .ok (source.take start, source.drop start)
  | none => .ok (splitPartialPrefix source)

/-! ## The stream -/

/-- The parts of a stream that the middleware looks at; the end of the answer and an error are
one. -/
inductive StreamPart where
  | textDelta (part : JsString) (delta : JsString)
  | textEnd (part : JsString)
  | finish

def StreamPart.delta : StreamPart → JsString
  | .textDelta _ delta => delta
  | _ => []

section Stream

variable (numberText : ℚ → JsString) (session : RedactionSession)

def restoreText (source : JsString) : Checked JsString := do
  match ← session.restore numberText source with
  | .string value => return value
  | _ => .error PRIVACY_ERROR

def enqueueRestored (part source : JsString) : Checked (List StreamPart) :=
  if source.isEmpty then .ok []
  else do return [.textDelta part (← restoreText numberText session source)]

/-- `flush` of one part or of all. -/
def flush (pending : OrderedMap JsString JsString) (only : Option JsString) :
    Checked (List StreamPart × OrderedMap JsString JsString) := do
  let flushed := pending.entries.filter fun entry => only.all (· = entry.1)
  let emitted ← flushed.mapM fun entry => enqueueRestored numberText session entry.1 entry.2
  return (emitted.flatten, (flushed.map Prod.fst).foldl OrderedMap.delete pending)

def transform (pending : OrderedMap JsString JsString) (chunk : StreamPart) :
    Checked (List StreamPart × OrderedMap JsString JsString) :=
  match chunk with
  | .textDelta part delta => do
    let (safe, suffix) ← splitSafeText ((pending.get? part).getD [] ++ delta)
    return (← enqueueRestored numberText session part safe, pending.set part suffix)
  | .textEnd part => do
    let (emitted, pending) ← flush numberText session pending (some part)
    return (emitted ++ [chunk], pending)
  | .finish => do
    let (emitted, pending) ← flush numberText session pending none
    return (emitted ++ [chunk], pending)

def transformAll (pending : OrderedMap JsString JsString) :
    List StreamPart → Checked (List StreamPart × OrderedMap JsString JsString)
  | [] => .ok ([], pending)
  | chunk :: chunks => do
    let (emitted, pending) ← transform numberText session pending chunk
    let (more, pending) ← transformAll pending chunks
    return (emitted ++ more, pending)

/-- `wrapStream`: the parts that reach the reader. -/
def wrapStream (chunks : List StreamPart) : Checked (List StreamPart) :=
  if !session.enabled then .ok chunks
  else do
    ensure (!session.exhausted) LIMIT_ERROR
    let (emitted, pending) ← transformAll numberText session .empty chunks
    let (rest, _) ← flush numberText session pending none
    return emitted ++ rest

def RestoresWhole (part : JsString) (deltas : List JsString) : Prop :=
  ∃ emitted whole, wrapStream numberText session (deltas.map (.textDelta part) ++ [.textEnd part]) = .ok emitted ∧
    session.restore numberText deltas.flatten = .ok whole ∧
    emitted.flatMap StreamPart.delta = whole.printed numberText

end Stream

/-! ## What is held back -/

/-- A text that an alias can begin with. -/
def AliasStart (source : JsString) : Prop :=
  (source <+: TOKEN_PREFIX ∨ TOKEN_PREFIX <+: source) ∧ closeBracket ∉ source

/-- A text without its longest end that an alias can begin with. -/
structure Settles (source safe opened : JsString) : Prop where
  join : source = safe ++ opened
  start : AliasStart opened
  longest : ∀ front back, source = front ++ back → AliasStart back → back.length ≤ opened.length

/-- Between two deltas, a text settles that is exactly the alias of a number or a boolean. -/
def SettlesScalar (session : RedactionSession) (held : JsString) (deltas : List JsString) : Prop :=
  ∃ earlier delta later safe opened source opened', deltas = earlier ++ delta :: later ∧
    Settles (held ++ earlier.flatten) safe opened ∧
    Settles (held ++ earlier.flatten ++ delta) (safe ++ source) opened' ∧ session.HidesScalar source

theorem aliasStart_nil : AliasStart [] := ⟨.inl (List.nil_prefix), not_mem_nil⟩

theorem AliasStart.of_append {front back : JsString} (start : AliasStart (front ++ back)) : AliasStart front := by
  refine ⟨?_, fun mem => start.2 (mem_append_left _ mem)⟩
  rcases start.1 with short | long
  · exact .inl ((prefix_append front back).trans short)
  · exact List.prefix_or_prefix_of_prefix (prefix_append front back) long

theorem Settles.unique {source safe opened safe' opened' : JsString} (first : Settles source safe opened)
    (second : Settles source safe' opened') : safe = safe' ∧ opened = opened' := by
  have one := first.longest safe' opened' second.join second.start
  have two := second.longest safe opened first.join first.start
  exact append_inj' (first.join.symm.trans second.join) (Nat.le_antisymm two one)

theorem settles_opened {opened : JsString} (start : AliasStart opened) : Settles opened [] opened :=
  ⟨rfl, start, fun front back same _ => by rw [same, length_append]; omega⟩

/-- What is held back settles with what comes after it. -/
theorem Settles.append {source safe opened delta more opened' : JsString} (first : Settles source safe opened)
    (second : Settles (opened ++ delta) more opened') : Settles (source ++ delta) (safe ++ more) opened' where
  join := by rw [first.join, append_assoc, second.join, append_assoc]
  start := second.start
  longest front back same start := by
    have whole : safe ++ (opened ++ delta) = front ++ back := by
      rw [← same, first.join, append_assoc]
    rcases append_eq_append_iff.mp whole with ⟨between, -, apart⟩ | ⟨between, kept, rfl⟩
    · exact second.longest between back apart start
    · -- the end begins in what had settled, where no alias can begin
      rw [← append_assoc] at start
      have none_ := first.longest front (between ++ opened)
        (by rw [first.join, kept, append_assoc]) start.of_append
      rw [length_append] at none_
      obtain rfl : between = [] := eq_nil_of_length_eq_zero (by omega)
      exact second.longest [] (opened ++ delta) rfl start

/-! ## The held text of a spelled answer -/

/-- `splitSafeText` cuts off one unit more. -/
def shifted (front : JsString) (cut : JsString × JsString) : JsString × JsString := (front ++ cut.1, cut.2)

variable {unit : Fin 65536}

theorem lastIndexOf_cons {rest : JsString}
    (apart : TOKEN_PREFIX.isPrefixOf (unit :: rest) = false) :
    lastIndexOf TOKEN_PREFIX (unit :: rest) = (lastIndexOf TOKEN_PREFIX rest).map (· + 1) := by
  rw [lastIndexOf, apart]
  cases lastIndexOf TOKEN_PREFIX rest <;> rfl

/-- The texts that `TOKEN_PREFIX` begins with. -/
def PARTIAL : List JsString := [text "[", text "[N", text "[NC"]

theorem splitPartialPrefix_cons {rest : JsString} (apart : unit :: rest ∉ PARTIAL) :
    splitPartialPrefix (unit :: rest) = shifted [unit] (splitPartialPrefix rest) := by
  have same : ∀ length ∈ [3, 2, 1], (TOKEN_PREFIX.take length).isSuffixOf (unit :: rest) =
      (TOKEN_PREFIX.take length).isSuffixOf rest := by
    intro length mem
    have whole : TOKEN_PREFIX.take length ≠ unit :: rest := by
      intro same
      refine apart (same ▸ ?_)
      rcases mem_cons.mp mem with rfl | mem
      · decide
      rcases mem_cons.mp mem with rfl | mem
      · decide
      rcases mem_singleton.mp mem with rfl
      decide
    rw [Bool.eq_iff_iff, isSuffixOf_iff_suffix, isSuffixOf_iff_suffix, suffix_cons_iff]
    exact ⟨fun either => either.resolve_left whole, .inr⟩
  have found : ([3, 2, 1].find? fun length => (TOKEN_PREFIX.take length).isSuffixOf (unit :: rest)) =
      [3, 2, 1].find? fun length => (TOKEN_PREFIX.take length).isSuffixOf rest := by
    exact find?_congr same
  unfold splitPartialPrefix
  rw [found]
  cases hit : [3, 2, 1].find? fun length => (TOKEN_PREFIX.take length).isSuffixOf rest with
  | none => rfl
  | some length =>
    have small : length ≤ 3 := by
      have mem := mem_of_find?_eq_some hit
      simp only [mem_cons, not_mem_nil, or_false] at mem
      omega
    have fits : length ≤ rest.length := by
      have ends := find?_some hit
      rw [isSuffixOf_iff_suffix] at ends
      have bound := ends.length_le
      rw [length_take_of_le (by rw [show TOKEN_PREFIX.length = 4 by decide]; omega)] at bound
      exact bound
    have counted : (unit :: rest).length - length = rest.length - length + 1 := by
      rw [length_cons]
      omega
    simp only [counted, take_succ_cons, drop_succ_cons, shifted, singleton_append]

/-- A text that does not begin an alias settles its first unit. -/
theorem splitSafeText_cons {rest : JsString} (short : unit :: rest ∉ PARTIAL)
    (long : TOKEN_PREFIX.isPrefixOf (unit :: rest) = false) :
    splitSafeText (unit :: rest) = (splitSafeText rest).map (shifted [unit]) := by
  unfold splitSafeText
  rw [lastIndexOf_cons long, splitPartialPrefix_cons short]
  cases lastIndexOf TOKEN_PREFIX rest with
  | none => rfl
  | some start =>
    simp only [map_some, drop_succ_cons, take_succ_cons, length_cons, Nat.add_sub_add_right]
    split
    · rfl
    split <;> rfl

theorem splitSafeText_front {source : JsString} (short : source ∈ PARTIAL) :
    splitSafeText source = .ok ([], source) := by
  simp only [PARTIAL, mem_cons, not_mem_nil, or_false] at short
  rcases short with rfl | rfl | rfl <;> rfl

theorem aliasStart_front {source : JsString} (short : source ∈ PARTIAL) : AliasStart source := by
  simp only [PARTIAL, mem_cons, not_mem_nil, or_false] at short
  rcases short with rfl | rfl | rfl
  all_goals exact ⟨.inl (by decide), by decide⟩

theorem AliasStart.cases {rest : JsString} (start : AliasStart (unit :: rest)) :
    unit :: rest ∈ PARTIAL ∨ TOKEN_PREFIX.isPrefixOf (unit :: rest) := by
  rcases start.1 with short | long
  · rw [← mem_inits] at short
    change unit :: rest ∈ [[], text "[", text "[N", text "[NC", text "[NC_"] at short
    simp only [mem_cons, not_mem_nil, or_false] at short
    rcases short with absurd_ | same | same | same | same
    · cases absurd_
    all_goals
      rw [same]
      decide
  · exact .inr (List.isPrefixOf_iff_prefix.mpr long)

theorem Settles.cons {source safe opened : JsString} (settles : Settles source safe opened)
    (short : unit :: source ∉ PARTIAL) (long : TOKEN_PREFIX.isPrefixOf (unit :: source) = false) :
    Settles (unit :: source) (unit :: safe) opened where
  join := by rw [settles.join, cons_append]
  start := settles.start
  longest front back same start := by
    cases front with
    | nil =>
      rw [nil_append] at same
      rcases (same ▸ start).cases with part | whole
      · exact absurd part short
      · exact absurd whole (by rw [long]; decide)
    | cons first front => exact settles.longest front back (List.cons.inj same).2 start

theorem Settles.token {token source safe opened : JsString} (settles : Settles source safe opened)
    (alias_ : IsAlias token) : Settles (token ++ source) (token ++ safe) opened where
  join := by rw [settles.join, append_assoc]
  start := settles.start
  longest front back same start := by
    obtain ⟨body, rfl, -⟩ := alias_.shape
    rcases append_eq_append_iff.mp same with ⟨between, -, apart⟩ | ⟨between, kept, rfl⟩
    · exact settles.longest between back apart start
    · cases between using List.reverseRecOn with
      | nil => exact settles.longest [] source rfl start
      | append_singleton between last =>
        -- an end that reaches into the alias contains its closing bracket
        rw [← append_assoc] at kept
        obtain ⟨-, closing⟩ := append_inj' kept rfl
        obtain rfl := List.cons.inj closing |>.1
        exact (start.2 (by simp)).elim

theorem lastIndexOf_append {front : JsString} (plain : openBracket ∉ front) (rest : JsString) :
    lastIndexOf TOKEN_PREFIX (front ++ rest) = (lastIndexOf TOKEN_PREFIX rest).map (· + front.length) := by
  induction front with
  | nil =>
    rw [nil_append]
    cases lastIndexOf TOKEN_PREFIX rest <;> rfl
  | cons unit front ih =>
    have apart : TOKEN_PREFIX.isPrefixOf (unit :: (front ++ rest)) = false := by
      rw [Bool.eq_false_iff, ne_eq, List.isPrefixOf_iff_prefix]
      intro starts
      obtain ⟨tail, same⟩ := starts
      exact plain ((List.cons.inj same).1 ▸ mem_cons_self)
    rw [cons_append, lastIndexOf_cons apart, ih fun mem => plain (mem_cons_of_mem _ mem), Option.map_map]
    cases lastIndexOf TOKEN_PREFIX rest with
    | none => rfl
    | some start =>
      simp only [map_some, Function.comp, length_cons]
      congr 1

theorem splitPartialPrefix_append {front : JsString} (rest : JsString) :
    splitPartialPrefix (front ++ closeBracket :: rest) =
      shifted (front ++ [closeBracket]) (splitPartialPrefix rest) := by
  have outside {source : JsString} (mem : closeBracket ∈ source) : source ∉ PARTIAL := by
    intro short
    simp only [PARTIAL, mem_cons, not_mem_nil, or_false] at short
    rcases short with rfl | rfl | rfl <;> exact absurd mem (by decide)
  induction front with
  | nil => exact splitPartialPrefix_cons (outside mem_cons_self)
  | cons unit front ih =>
    rw [cons_append, splitPartialPrefix_cons (outside (by simp)), ih]
    rfl

theorem splitSafeText_token {token : JsString} (alias_ : IsAlias token) (rest : JsString) :
    splitSafeText (token ++ rest) = (splitSafeText rest).map (shifted token) := by
  obtain ⟨body, rfl, inside, -⟩ := alias_.shape
  have plain : openBracket ∉ text "NC_" ++ body ++ [closeBracket] := by
    rw [mem_append, mem_append, not_or, not_or]
    exact ⟨⟨by decide, fun mem => (inside _ mem).2.1 rfl⟩, by decide⟩
  have opening : text "[NC_" ++ body ++ [closeBracket] = openBracket :: (text "NC_" ++ body ++ [closeBracket]) := by
    simp only [append_assoc]
    rfl
  have partials : splitPartialPrefix (text "[NC_" ++ body ++ [closeBracket] ++ rest) =
      shifted (text "[NC_" ++ body ++ [closeBracket]) (splitPartialPrefix rest) := by
    rw [append_assoc (text "[NC_" ++ body)]
    exact splitPartialPrefix_append rest
  have starts : TOKEN_PREFIX.isPrefixOf (text "[NC_" ++ body ++ [closeBracket] ++ rest) = true := by
    rw [List.isPrefixOf_iff_prefix]
    exact ⟨body ++ [closeBracket] ++ rest, by simp only [append_assoc]; rfl⟩
  have closes : (text "[NC_" ++ body ++ [closeBracket] ++ rest).any (· = closeBracket) = true :=
    List.any_eq_true.mpr ⟨closeBracket, mem_append_left _ (mem_append_right _ mem_cons_self),
      decide_eq_true rfl⟩
  rw [opening] at partials starts closes ⊢
  generalize text "NC_" ++ body ++ [closeBracket] = front at plain partials starts closes ⊢
  unfold splitSafeText
  rw [partials]
  rw [cons_append] at starts closes ⊢
  rw [lastIndexOf, lastIndexOf_append plain, starts]
  cases lastIndexOf TOKEN_PREFIX rest with
  | none =>
    simp only [map_none, if_true, drop_zero, closes]
    rfl
  | some start =>
    have counted : start + front.length + 1 = (openBracket :: front).length + start := by
      rw [length_cons]
      omega
    have whole : (openBracket :: (front ++ rest)).length - ((openBracket :: front).length + start) =
        rest.length - start := by
      rw [← cons_append, length_append]
      omega
    simp only [map_some, counted, whole]
    rw [← cons_append, drop_length_add_append, take_length_add_append]
    split
    · rfl
    split <;> rfl

theorem splitSafeText_started {token source : JsString} (alias_ : IsAlias token) (begins : source <+: token)
    (proper : source ≠ token) : AliasStart source ∧ splitSafeText source = .ok ([], source) := by
  obtain ⟨body, rfl, inside, small⟩ := alias_.shape
  have begins : source <+: TOKEN_PREFIX ++ body := (prefix_concat_iff.mp begins).resolve_left proper
  have unclosed : closeBracket ∉ source := by
    intro mem
    rcases mem_append.mp (begins.subset mem) with mem | mem
    · exact absurd mem (by decide)
    · exact (inside _ mem).2.2 rfl
  have start : AliasStart source :=
    ⟨List.prefix_or_prefix_of_prefix begins (prefix_append _ _), unclosed⟩
  refine ⟨start, ?_⟩
  rcases start.1 with short | ⟨more, rfl⟩
  · rw [← mem_inits] at short
    change source ∈ [[], text "[", text "[N", text "[NC", text "[NC_"] at short
    simp only [mem_cons, not_mem_nil, or_false] at short
    rcases short with rfl | rfl | rfl | rfl | rfl <;> rfl
  · have within : more <+: body := (prefix_append_right_inj _).mp begins
    have plain : openBracket ∉ text "NC_" ++ more := by
      rw [mem_append, not_or]
      exact ⟨by decide, fun mem => (inside _ (within.subset mem)).2.1 rfl⟩
    have opening : TOKEN_PREFIX ++ more = openBracket :: (text "NC_" ++ more) := rfl
    have starts : TOKEN_PREFIX.isPrefixOf (openBracket :: (text "NC_" ++ more)) = true := by
      rw [List.isPrefixOf_iff_prefix]
      exact ⟨more, rfl⟩
    have first : lastIndexOf TOKEN_PREFIX (openBracket :: (text "NC_" ++ more)) = some 0 := by
      have rest := lastIndexOf_append plain []
      rw [append_nil] at rest
      rw [lastIndexOf, rest, starts]
      rfl
    have bounded : ¬256 < (openBracket :: (text "NC_" ++ more)).length - 0 := by
      have length := within.length_le
      have named : (text "NC_").length = 3 := by decide
      rw [length_cons, length_append, named]
      omega
    unfold splitSafeText
    rw [opening] at unclosed ⊢
    have open_ : ¬ (openBracket :: (text "NC_" ++ more)).any (· = closeBracket) = true := by
      rw [List.any_eq_true]
      rintro ⟨unit, mem, same⟩
      exact unclosed (of_decide_eq_true same ▸ mem)
    simp only [first, drop_zero, take_zero, if_neg open_, if_neg bounded]

/-! ## The stream -/

section Answers

variable {issued : JsString → Prop}

theorem splitSafeText_of_spelled (shapes : ∀ token, issued token → IsAlias token) {parts : List Piece}
    {answer : JsString} (spelled : Spelled issued parts answer) {source rest : JsString}
    (join : answer = source ++ rest) :
    ∃ safe opened before after, splitSafeText source = .ok (safe, opened) ∧ Settles source safe opened ∧
      parts = before ++ after ∧ Spelled issued before safe ∧ Spelled issued after (opened ++ rest) := by
  have held {parts : List Piece} {source rest : JsString} (spelled : Spelled issued parts (source ++ rest))
      (started : AliasStart source ∧ splitSafeText source = .ok ([], source)) :
      ∃ safe opened before after, splitSafeText source = .ok (safe, opened) ∧ Settles source safe opened ∧
        parts = before ++ after ∧ Spelled issued before safe ∧ Spelled issued after (opened ++ rest) :=
    ⟨[], source, [], parts, started.2, settles_opened started.1, rfl, .nil, spelled⟩
  induction spelled generalizing source with
  | nil =>
    obtain ⟨rfl, rfl⟩ := append_eq_nil_iff.mp join.symm
    exact held .nil ⟨aliasStart_nil, rfl⟩
  | @plain unit tail parts apart spelled ih =>
    cases source with
    | nil => exact held (join ▸ .plain apart spelled) ⟨aliasStart_nil, rfl⟩
    | cons first source =>
      obtain ⟨rfl, rfl⟩ := List.cons.inj join
      have long : TOKEN_PREFIX.isPrefixOf (unit :: source) = false := by
        rw [Bool.eq_false_iff, ne_eq, List.isPrefixOf_iff_prefix]
        intro starts
        rw [Bool.eq_false_iff, ne_eq, List.isPrefixOf_iff_prefix] at apart
        exact apart (starts.trans (prefix_append (unit :: source) rest))
      by_cases short : unit :: source ∈ PARTIAL
      · exact held (.plain apart spelled) ⟨aliasStart_front short, splitSafeText_front short⟩
      · obtain ⟨safe, opened, before, after, cut, settles, rfl, front, back⟩ := ih rfl
        refine ⟨unit :: safe, opened, .plain unit :: before, after, ?_, ?_, rfl, ?_, back⟩
        · rw [splitSafeText_cons short long, cut]
          rfl
        · exact settles.cons short long
        · refine .plain ?_ front
          rw [Bool.eq_false_iff, ne_eq, List.isPrefixOf_iff_prefix] at long ⊢
          rw [settles.join] at long
          exact fun starts => long (starts.trans (prefix_append (unit :: safe) opened))
  | @token token tail parts known spelled ih =>
    have beyond {source : JsString} (join : tail = source ++ rest) :
        ∃ safe opened before after, splitSafeText (token ++ source) = .ok (safe, opened) ∧
          Settles (token ++ source) safe opened ∧ .token token :: parts = before ++ after ∧
          Spelled issued before safe ∧ Spelled issued after (opened ++ rest) := by
      obtain ⟨safe, opened, before, after, cut, settles, rfl, front, back⟩ := ih join
      refine ⟨token ++ safe, opened, .token token :: before, after, ?_, ?_, rfl, .token known front, back⟩
      · rw [splitSafeText_token (shapes token known), cut]
        rfl
      · exact settles.token (shapes token known)
    rcases append_eq_append_iff.mp join with ⟨between, rfl, rfl⟩ | ⟨between, rfl, rfl⟩
    · exact beyond rfl
    · by_cases proper : between = []
      · subst proper
        have whole := @beyond [] rfl
        simpa only [append_nil, nil_append] using whole
      · have started := splitSafeText_started (shapes _ known) (prefix_append source between)
          (fun same => proper (append_cancel_left (same.symm.trans (append_nil source).symm)))
        have whole := Spelled.token known spelled
        rw [append_assoc] at whole
        exact held whole started

variable {numberText : ℚ → JsString} {session : RedactionSession}

theorem settlesScalar_nil (session : RedactionSession) (held : JsString) : ¬SettlesScalar session held [] := by
  rintro ⟨earlier, delta, later, -, -, -, -, split, -⟩
  simp at split

theorem settlesScalar_cons (shapes : ∀ token, session.Issued token → IsAlias token) {parts : List Piece}
    {held delta safe opened : JsString} {deltas : List JsString} (start : AliasStart held)
    (settles : Settles (held ++ delta) safe opened)
    (spelled : Spelled session.Issued parts (opened ++ deltas.flatten)) :
    SettlesScalar session held (delta :: deltas) ↔
      session.HidesScalar safe ∨ SettlesScalar session opened deltas := by
  constructor
  · rintro ⟨earlier, next, later, before, held', source, opened', split, first, second, hidden⟩
    cases earlier with
    | nil =>
      obtain ⟨rfl, rfl⟩ := List.cons.inj split
      rw [flatten_nil, append_nil] at first second
      obtain ⟨rfl, -⟩ := first.unique (settles_opened start)
      obtain ⟨rfl, -⟩ := second.unique settles
      exact .inl hidden
    | cons delta' earlier =>
      rw [cons_append] at split
      obtain ⟨rfl, rfl⟩ := List.cons.inj split
      obtain ⟨more, rest, -, -, -, apart, -, -, -⟩ := @splitSafeText_of_spelled _ shapes _ _ spelled
        (opened ++ earlier.flatten) (next :: later).flatten (by rw [flatten_append, append_assoc])
      obtain ⟨more', rest', -, -, -, apart', -, -, -⟩ := @splitSafeText_of_spelled _ shapes _ _ spelled
        (opened ++ (earlier.flatten ++ next)) later.flatten
        (by rw [flatten_append, flatten_cons]; simp only [append_assoc])
      rw [flatten_cons, ← append_assoc] at first second
      obtain ⟨rfl, rfl⟩ := first.unique (settles.append apart)
      rw [append_assoc (held ++ delta)] at second
      obtain ⟨same, rfl⟩ := second.unique (settles.append apart')
      rw [append_assoc] at same
      obtain rfl := append_cancel_left same
      rw [← append_assoc] at apart'
      exact .inr ⟨earlier, next, later, more, _, source, _, rfl, apart, apart', hidden⟩
  · rintro (hidden | ⟨earlier, next, later, more, rest, source, rest', rfl, first, second, hidden⟩)
    · refine ⟨[], delta, deltas, [], held, safe, opened, rfl, ?_, ?_, hidden⟩
      · rw [flatten_nil, append_nil]
        exact settles_opened start
      · rw [flatten_nil, append_nil]
        exact settles
    · refine ⟨delta :: earlier, next, later, safe ++ more, rest, source, rest', rfl, ?_, ?_, hidden⟩
      · rw [flatten_cons, ← append_assoc]
        exact settles.append first
      · rw [append_assoc] at second
        rw [flatten_cons, ← append_assoc, append_assoc (held ++ delta), append_assoc safe]
        exact settles.append second

/-- A text that no check of a working session stops. -/
structure Allowed (source : JsString) : Prop where
  plain : source.any (·.val = 0) = false
  small : (UnicodeText.encode source).length ≤ MAX_BYTES

theorem Allowed.split {front back : JsString} (allowed : Allowed (front ++ back)) :
    Allowed front ∧ Allowed back := by
  have plain := allowed.plain
  rw [any_append, Bool.or_eq_false_iff] at plain
  exact ⟨⟨plain.1, (UnicodeText.length_encode_le_append_left front back).trans allowed.small⟩,
    ⟨plain.2, (UnicodeText.length_encode_le_append_right front back).trans allowed.small⟩⟩

/-- A session whose texts can be restored. -/
structure Working (session : RedactionSession) : Prop where
  numbered : session.Numbered
  enabled : session.enabled = true
  room : session.exhausted = false

theorem not_hidesScalar_of_start (numbered : session.Numbered) {source : JsString} (start : AliasStart source) :
    ¬session.HidesScalar source := by
  rintro ⟨original, found, -⟩
  obtain ⟨body, rfl, -⟩ := (numbered.isAlias (OrderedMap.has_iff.mpr ⟨original, found⟩)).shape
  exact start.2 (mem_append_right _ mem_cons_self)

theorem enqueueRestored_spec (working : Working session) (part : JsString) {parts : List Piece} {source : JsString}
    (spelled : Spelled session.Issued parts source) (allowed : Allowed source) :
    (¬session.HidesScalar source → ∃ emitted, enqueueRestored numberText session part source = .ok emitted ∧
      emitted.flatMap StreamPart.delta = parts.flatMap (printedPiece numberText session)) ∧
      (session.HidesScalar source → ∃ error, enqueueRestored numberText session part source = .error error) := by
  have shapes : ∀ token, session.Issued token → IsAlias token := fun _ held => working.numbered.isAlias held
  obtain ⟨value, restored, printed, kind⟩ := @RedactionSession.restore_of_spelled numberText _
    working.numbered working.enabled working.room _ _ spelled allowed.plain allowed.small
  cases source with
  | nil =>
    refine ⟨fun _ => ⟨[], rfl, ?_⟩, fun hidden => ?_⟩
    · rw [← pieces_of_spelled shapes spelled]
      rfl
    · exact (not_hidesScalar_of_start working.numbered aliasStart_nil hidden).elim
  | cons unit rest =>
    unfold enqueueRestored restoreText
    rw [restored, isEmpty_cons, if_neg Bool.false_ne_true]
    cases value with
    | string value =>
      refine ⟨fun _ => ⟨_, rfl, ?_⟩, fun hidden => ?_⟩
      · rw [← printed]
        exact append_nil value
      · exact Bool.noConfusion (kind.mpr hidden)
    | number value => exact ⟨fun shown => (shown (kind.mp rfl)).elim, fun _ => ⟨_, rfl⟩⟩
    | boolean value => exact ⟨fun shown => (shown (kind.mp rfl)).elim, fun _ => ⟨_, rfl⟩⟩

/-- Only one part is streaming, and this much of it is held back. -/
structure Holds (pending : OrderedMap JsString JsString) (part held : JsString) : Prop where
  entries : pending.entries = [] ∧ held = [] ∨ pending.entries = [(part, held)]

variable {pending : OrderedMap JsString JsString}

section

variable {part held : JsString} (holds : Holds pending part held)
include holds

theorem Holds.get : (pending.get? part).getD [] = held := by
  rcases holds.entries with ⟨none_, rfl⟩ | one
  · unfold OrderedMap.get?
    rw [none_]
    rfl
  · have found : pending.get? part = some held := OrderedMap.mem_entries.mp (one ▸ mem_cons_self)
    rw [found]
    rfl

theorem Holds.set (suffix : JsString) : Holds (pending.set part suffix) part suffix := by
  refine ⟨.inr ?_⟩
  unfold OrderedMap.set OrderedMap.has OrderedMap.get?
  rcases holds.entries with ⟨none_, -⟩ | one
  · simp only [none_]
    rfl
  · simp [one, OrderedMap.replaceEntry]

theorem Holds.flush
    {emitted : List StreamPart} (restored : enqueueRestored numberText session part held = .ok emitted) :
    ∃ pending', flush numberText session pending (some part) = .ok (emitted, pending') ∧ pending'.entries = [] := by
  unfold Aliases.flush
  rcases holds.entries with ⟨none_, rfl⟩ | one
  · cases restored
    refine ⟨pending, ?_, none_⟩
    simp only [none_]
    rfl
  · refine ⟨pending.delete part, ?_, ?_⟩
    · simp [one, restored]
    · simp [OrderedMap.delete, one]

end

/-- The rest of an answer is restored whole, unless a scalar settles in it. -/
theorem transformAll_spec (working : Working session) (part : JsString) (deltas : List JsString)
    {pending : OrderedMap JsString JsString} {held : JsString} {parts : List Piece} (holds : Holds pending part held)
    (start : AliasStart held) (spelled : Spelled session.Issued parts (held ++ deltas.flatten))
    (allowed : Allowed (held ++ deltas.flatten)) :
    (¬SettlesScalar session held deltas → ∃ emitted pending',
      transformAll numberText session pending (deltas.map (.textDelta part) ++ [.textEnd part]) =
        .ok (emitted, pending') ∧
      pending'.entries = [] ∧
      emitted.flatMap StreamPart.delta = parts.flatMap (printedPiece numberText session)) ∧
      (SettlesScalar session held deltas → ∃ error,
        transformAll numberText session pending (deltas.map (.textDelta part) ++ [.textEnd part]) = .error error) := by
  have shapes : ∀ token, session.Issued token → IsAlias token := fun _ held => working.numbered.isAlias held
  induction deltas generalizing pending held parts with
  | nil =>
    refine ⟨fun _ => ?_, fun settles => (settlesScalar_nil session held settles).elim⟩
    rw [flatten_nil, append_nil] at spelled allowed
    obtain ⟨emitted, restored, shown⟩ := (@enqueueRestored_spec numberText _ working part _ _ spelled allowed).1
      (not_hidesScalar_of_start working.numbered start)
    obtain ⟨pending', flushed, none_⟩ := holds.flush restored
    refine ⟨emitted ++ [.textEnd part] ++ [], pending', ?_, none_, ?_⟩
    · rw [map_nil, nil_append, transformAll, transform, flushed]
      rfl
    · rw [append_nil, flatMap_append, shown]
      exact append_nil _
  | cons delta deltas ih =>
    rw [flatten_cons, ← append_assoc] at spelled allowed
    obtain ⟨safe, opened, before, after, cut, settles, rfl, front, back⟩ :=
      splitSafeText_of_spelled shapes spelled rfl
    rw [settlesScalar_cons shapes start settles back]
    rw [settles.join, append_assoc] at allowed
    obtain ⟨allowedSafe, allowedRest⟩ := allowed.split
    obtain ⟨shown, hides⟩ := @enqueueRestored_spec numberText _ working part _ _ front allowedSafe
    obtain ⟨rest, fails⟩ := ih (holds.set opened) settles.start back allowedRest
    have step : transform numberText session pending (.textDelta part delta) = (do
        return (← enqueueRestored numberText session part safe, pending.set part opened)) := by
      rw [transform, holds.get, cut]
      rfl
    rw [map_cons, cons_append, transformAll, step]
    constructor
    · intro quiet
      rw [not_or] at quiet
      obtain ⟨emitted, restored, printed⟩ := shown quiet.1
      obtain ⟨more, pending', run, none_, printedMore⟩ := rest quiet.2
      refine ⟨emitted ++ more, pending', ?_, none_, ?_⟩
      · rw [restored]
        change (do
          let x ← transformAll numberText session (pending.set part opened) _
          pure (emitted ++ x.1, x.2)) = _
        rw [run]
        rfl
      · rw [flatMap_append, flatMap_append, printed, printedMore]
    · rintro (hidden | later)
      · obtain ⟨error, failed⟩ := hides hidden
        exact ⟨error, by rw [failed]; rfl⟩
      · obtain ⟨error, failed⟩ := fails later
        cases restored : enqueueRestored numberText session part safe with
        | error error => exact ⟨error, rfl⟩
        | ok emitted =>
          refine ⟨error, ?_⟩
          change (do
            let x ← transformAll numberText session (pending.set part opened) _
            pure (emitted ++ x.1, x.2)) = _
          rw [failed]
          rfl

end Answers

theorem flush_nil {numberText : ℚ → JsString} {session : RedactionSession} {pending : OrderedMap JsString JsString}
    (none_ : pending.entries = []) : flush numberText session pending none = .ok ([], pending) := by
  unfold flush
  simp only [none_]
  rfl

theorem allowed_of_restore {numberText : ℚ → JsString} {session : RedactionSession} (on : session.enabled)
    {source : JsString} {value : Scalar} (restored : session.restore numberText source = .ok value) :
    session.exhausted = false ∧ Allowed source := by
  unfold RedactionSession.restore at restored
  rw [on, Bool.not_true, if_neg Bool.false_ne_true, check_bind_eq_ok, check_bind_eq_ok, check_bind_eq_ok,
    ensure_eq_ok, ensure_eq_ok, ensure_eq_ok] at restored
  obtain ⟨room, plain, small, -⟩ := restored
  rw [Bool.not_eq_true'] at room plain
  exact ⟨room, plain, of_decide_eq_true small⟩

/-- The deltas of an answer whose alias-like parts were all issued matter in one way: its whole
text is restored exactly when the session still works, the text is one it accepts, and no alias
of a number or a boolean settles alone between two of the deltas. -/
theorem restores_whole_iff (numberText : ℚ → JsString) (enabled : Bool) (nonce : Nonce)
    (requests : List (Scalar × Namespace)) (part : JsString) (deltas : List JsString)
    (known : ∀ source, Piece.token source ∈ pieces none deltas.flatten →
      ((RedactionSession.create enabled nonce).run numberText requests).Issued source) :
    let session := (RedactionSession.create enabled nonce).run numberText requests
    RestoresWhole numberText session part deltas ↔
      (session.enabled = true → session.exhausted = false ∧ Allowed deltas.flatten ∧
        ¬SettlesScalar session [] deltas) := by
  intro session
  have numbered : session.Numbered := (RedactionSession.numbered_create enabled nonce).run requests
  have spelled := spelled_pieces (fun _ held => numbered.isAlias held) deltas.flatten known
  unfold RestoresWhole wrapStream
  cases on : session.enabled with
  | false =>
    refine ⟨fun _ works => Bool.noConfusion works, fun _ => ⟨_, .string deltas.flatten, rfl, ?_, ?_⟩⟩
    · unfold RedactionSession.restore
      rw [on]
      rfl
    · rw [flatMap_append, flatMap_map]
      exact (append_nil _).trans (flatMap_id ..)
  | true =>
    have empty : Holds (.empty : OrderedMap JsString JsString) part [] := ⟨.inl ⟨rfl, rfl⟩⟩
    rw [Bool.not_true, if_neg Bool.false_ne_true]
    constructor
    · rintro ⟨emitted, whole, streamed, restored, -⟩ -
      obtain ⟨room, allowed⟩ := allowed_of_restore on restored
      refine ⟨room, allowed, fun settles => ?_⟩
      obtain ⟨error, failed⟩ := (@transformAll_spec numberText _ ⟨numbered, on, room⟩ part deltas
        _ _ _ empty aliasStart_nil spelled allowed).2 settles
      rw [failed, room] at streamed
      cases streamed
    · intro conditions
      obtain ⟨room, allowed, quiet⟩ := conditions rfl
      have working : Working session := ⟨numbered, on, room⟩
      obtain ⟨value, restored, printed, -⟩ := @RedactionSession.restore_of_spelled numberText _
        numbered on room _ _ spelled allowed.plain allowed.small
      obtain ⟨emitted, pending, run, none_, shown⟩ := (@transformAll_spec numberText _ working part deltas
        _ _ _ empty aliasStart_nil spelled allowed).1 quiet
      refine ⟨emitted, value, ?_, restored, shown.trans printed.symm⟩
      rw [room, run]
      change (do
        let x ← flush numberText session pending none
        pure (emitted ++ x.1)) = Except.ok emitted
      rw [flush_nil none_]
      exact congrArg Except.ok (append_nil emitted)

/-! ## A hidden port -/

def aliasNonce : Nonce where
  digits := text "0123456789ab"
  hex := by simp [text, codeUnits, isHexDigit]
  length := by decide

/-- The number is printed as it stands in the answer. -/
def portText (_ : ℚ) : JsString := text "22"

def portSession : RedactionSession :=
  (RedactionSession.create true aliasNonce).run portText [(.number 22, .SECRET)]

def portDeltas : List JsString := [tokenText aliasNonce .SECRET 1, text " is open"]

theorem issued_portDeltas (source : JsString) (mem : Piece.token source ∈ pieces none portDeltas.flatten) :
    portSession.Issued source := by
  have parts : pieces none portDeltas.flatten =
      .token (tokenText aliasNonce .SECRET 1) :: (text " is open").map .plain := by decide +kernel
  rw [parts, mem_cons, Piece.token.injEq, List.mem_map] at mem
  rcases mem with rfl | ⟨unit, -, plain⟩
  · unfold RedactionSession.Issued
    decide +kernel
  · cases plain

/-- An answer that begins with the alias of a number, which is a delta of its own, fails. -/
theorem lone_number_fails :
    (∀ source, Piece.token source ∈ pieces none portDeltas.flatten → portSession.Issued source) ∧
      portSession.restore portText portDeltas.flatten = .ok (.string (text "22 is open")) ∧
      ¬RestoresWhole portText portSession (text "0") portDeltas := by
  refine ⟨issued_portDeltas, rfl, ?_⟩
  rintro ⟨emitted, whole, streamed, -, -⟩
  have failed : (wrapStream portText portSession
      (portDeltas.map (.textDelta (text "0")) ++ [.textEnd (text "0")])).toBool = false := by decide +kernel
  rw [streamed] at failed
  cases failed

theorem restores_whole_port : RestoresWhole portText portSession (text "0") portDeltas ↔
      (portSession.enabled = true → portSession.exhausted = false ∧ Allowed portDeltas.flatten ∧
        ¬SettlesScalar portSession [] portDeltas) :=
  restores_whole_iff portText true aliasNonce [(.number 22, .SECRET)] (text "0") portDeltas issued_portDeltas

end Netcatty.Aliases
