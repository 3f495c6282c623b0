import Mathlib.Logic.Function.Basic
import Netcatty.JsValue
import Netcatty.OrderedMap
import Netcatty.UnicodeText

/-!
The aliases of a redaction session.

A session gives each value it hides an alias of its own and puts the values back.  Which values
a session hides is left open: a session is whatever a run of `issue` leaves behind.  Its aliases
have one bracket at each end and none inside (`isAlias_of_has`), so a text whose alias-like
parts are all issued falls into plain units and aliases in one way (`spelled_pieces`).
-/

namespace Netcatty.Aliases

open List OrderedMap Function

def VALUE_ERROR : JsError := .error (text "External MCP redaction could not safely process this value")

def TOKEN_ERROR : JsError := .error (text "Unknown External MCP redaction token; reconnect the client")

def LIMIT_ERROR : JsError :=
  .error (text "External MCP redaction session limit reached; reconnect the client")

def MAX_ENTRIES : ℕ := 10000

def MAX_BYTES : ℕ := 8 * 1024 * 1024

/-- What a value is hidden as. -/
inductive Namespace where
  | IP
  | HOST
  | SECRET
  deriving DecidableEq

def Namespace.label : Namespace → JsString
  | .IP => text "IP"
  | .HOST => text "HOST"
  | .SECRET => text "SECRET"

/-- A value an alias stands for. -/
inductive Scalar where
  | string (value : JsString)
  | number (value : ℚ)
  | boolean (value : Bool)

/-- `typeof value`. -/
def Scalar.typeName : Scalar → JsString
  | .string _ => text "string"
  | .number _ => text "number"
  | .boolean _ => text "boolean"

variable (numberText : ℚ → JsString)

/-- `String(value)`. -/
def Scalar.printed : Scalar → JsString
  | .string value => value
  | .number value => numberText value
  | .boolean value => if value then text "true" else text "false"

def Scalar.isString : Scalar → Bool
  | .string _ => true
  | _ => false

/-- A lower-case hexadecimal digit. -/
def isHexDigit (unit : Fin 65536) : Bool :=
  (48 ≤ unit.val && unit.val ≤ 57) || (97 ≤ unit.val && unit.val ≤ 102)

/-- The text of six random bytes. -/
structure Nonce where
  digits : JsString
  hex : ∀ unit ∈ digits, isHexDigit unit = true
  length : digits.length = 12

structure RedactionSession where
  enabled : Bool
  nonce : Nonce
  originals : OrderedMap JsString Scalar
  tokens : OrderedMap JsString JsString
  counters : Namespace → ℕ
  storedBytes : ℕ
  exhausted : Bool

/-- The alias of a namespace with a number. -/
def tokenText (nonce : Nonce) (kind : Namespace) (count : ℕ) : JsString :=
  text "[NC_" ++ nonce.digits ++ text "_" ++ kind.label ++ text "_" ++ decimal count ++ text "]"

namespace RedactionSession

def create (enabled : Bool) (nonce : Nonce) : RedactionSession where
  enabled := enabled
  nonce := nonce
  originals := .empty
  tokens := .empty
  counters := fun _ => 0
  storedBytes := 0
  exhausted := false

variable (session : RedactionSession)

def issue (value : Scalar) (kind : Namespace) :
    Checked JsString × RedactionSession :=
  let identity := value.typeName ++ text "\x00" ++ value.printed numberText
  match session.tokens.get? identity with
  | some prior => (.ok prior, session)
  | none =>
    let bytes := (UnicodeText.encode identity).length
    if MAX_ENTRIES ≤ session.originals.size || MAX_BYTES < session.storedBytes + bytes then
      (.error LIMIT_ERROR, { session with exhausted := true })
    else
      let count := session.counters kind + 1
      let token := tokenText session.nonce kind count
      (.ok token, { session with
        tokens := session.tokens.set identity token
        originals := session.originals.set token value
        counters := Function.update session.counters kind count
        storedBytes := session.storedBytes + bytes })

/-- The session after the values of a list were hidden, or not for want of room. -/
def run (requests : List (Scalar × Namespace)) :
    RedactionSession :=
  requests.foldl (fun session request => (session.issue numberText request.1 request.2).2) session

end RedactionSession

/-! ## The parts of a text -/

/-- A unit of a text outside its alias-like parts, or such a part. -/
inductive Piece where
  | plain (unit : Fin 65536)
  | token (source : JsString)
  deriving DecidableEq

/-- The matches of `RESERVED_TOKEN` and what stands between them.  Inside a match, what was read
of it is carried along; a match ends after a closing bracket, and before a line break or the end
of the text. -/
def pieces : Option JsString → JsString → List Piece
  | none, [] => []
  | some read, [] => [.token read]
  | none, unit :: rest =>
    if (text "[NC_").isPrefixOf (unit :: rest) then pieces (some [unit]) rest
    else .plain unit :: pieces none rest
  | some read, unit :: rest =>
    if unit = closeBracket then .token (read ++ [unit]) :: pieces none rest
    else if unit = carriageReturn ∨ unit = lineFeed then .token read :: .plain unit :: pieces none rest
    else pieces (some (read ++ [unit])) rest

/-- A text of an alias's shape: the brackets at its ends are its only ones. -/
structure IsAlias (token : JsString) : Prop where
  shape : ∃ body, token = text "[NC_" ++ body ++ [closeBracket] ∧
    (∀ unit ∈ body, 48 ≤ unit.val ∧ unit ≠ openBracket ∧ unit ≠ closeBracket) ∧ body.length ≤ 200

/-- A text in its parts, each alias-like one an alias of a given kind. -/
inductive Spelled (issued : JsString → Prop) : List Piece → JsString → Prop
  | nil : Spelled issued [] []
  | plain {unit : Fin 65536} {rest : JsString} {parts : List Piece}
      (apart : (text "[NC_").isPrefixOf (unit :: rest) = false) (spelled : Spelled issued parts rest) :
      Spelled issued (.plain unit :: parts) (unit :: rest)
  | token {token rest : JsString} {parts : List Piece} (known : issued token)
      (spelled : Spelled issued parts rest) : Spelled issued (.token token :: parts) (token ++ rest)

/-! ## The aliases of a session -/

theorem length_decimal_le {n : ℕ} (small : n ≤ MAX_ENTRIES) : (decimal n).length ≤ 5 := by
  have digits : ∀ c ∈ Nat.toDigits 10 n, c.toNat < 0x10000 := by
    intro c mem
    have digit := Nat.isDigit_of_mem_toDigits (by decide) (by decide) mem
    simp only [Char.isDigit, Bool.and_eq_true, decide_eq_true_eq, ge_iff_le, UInt32.le_iff_toNat_le] at digit
    have high : c.toNat ≤ 57 := digit.2
    omega
  have lengths := congrArg List.length (map_val_codeUnits digits)
  rw [length_map, length_map] at lengths
  have bounded : (Nat.toDigits 10 n).length ≤ 5 :=
    (Nat.length_toDigits_le_iff (by decide) (by decide)).mpr (by unfold MAX_ENTRIES at small; omega)
  unfold decimal
  rw [lengths]
  exact bounded

theorem tokenText_injective {nonce : Nonce} {kind kind' : Namespace} {count count' : ℕ}
    (same : tokenText nonce kind count = tokenText nonce kind' count') : kind = kind' ∧ count = count' := by
  unfold tokenText at same
  simp only [append_assoc] at same
  have rest := append_cancel_left (append_cancel_left (append_cancel_left same))
  have apart : ∀ kind : Namespace, (95 : Fin 65536) ∉ kind.label := by
    intro kind
    cases kind <;> decide
  obtain ⟨labels, numbers⟩ := cut_unique (apart kind) (apart kind') rest
  refine ⟨?_, decimal_injective (append_cancel_right numbers)⟩
  cases kind <;> cases kind' <;> first | rfl | exact absurd labels (by decide)

theorem isAlias_tokenText (nonce : Nonce) (kind : Namespace) {count : ℕ} (small : count ≤ MAX_ENTRIES) :
    IsAlias (tokenText nonce kind count) := by
  refine ⟨nonce.digits ++ text "_" ++ kind.label ++ text "_" ++ decimal count, ?_, ?_, ?_⟩
  · unfold tokenText
    simp only [append_assoc]
    rfl
  · have labelled : ∀ unit ∈ kind.label, 48 ≤ unit.val ∧ unit ≠ openBracket ∧ unit ≠ closeBracket := by
      cases kind <;> simp [Namespace.label, text, codeUnits, openBracket, closeBracket]
    have joined : ∀ unit ∈ text "_", 48 ≤ unit.val ∧ unit ≠ openBracket ∧ unit ≠ closeBracket := by
      simp [text, codeUnits, openBracket, closeBracket]
    have outside {unit : Fin 65536} (apart : unit.val < 91 ∨ 93 < unit.val) :
        unit ≠ openBracket ∧ unit ≠ closeBracket := by
      refine ⟨?_, ?_⟩
      all_goals
        rintro rfl
        exact absurd apart (by decide)
    intro unit mem
    simp only [mem_append] at mem
    rcases mem with (((mem | mem) | mem) | mem) | mem
    · have hex := nonce.hex unit mem
      simp only [isHexDigit, Bool.or_eq_true, Bool.and_eq_true, decide_eq_true_eq] at hex
      exact ⟨by omega, outside (by omega)⟩
    · exact joined unit mem
    · exact labelled unit mem
    · exact joined unit mem
    · obtain ⟨low, high⟩ := mem_decimal mem
      exact ⟨low, outside (by omega)⟩
  · have labelled : kind.label.length ≤ 6 := by cases kind <;> decide
    have numeral := length_decimal_le small
    have joined : (text "_").length = 1 := by decide
    simp only [length_append, nonce.length, joined]
    omega

namespace RedactionSession

variable {numberText : ℚ → JsString} {session : RedactionSession}

/-- Every alias was numbered by its counter, and there is room for every number. -/
structure Numbered (session : RedactionSession) : Prop where
  issued : ∀ source, session.originals.has source = true →
    ∃ kind count, count ≤ session.counters kind ∧ source = tokenText session.nonce kind count
  counted : ∀ kind, session.counters kind ≤ session.originals.size
  bounded : session.originals.size ≤ MAX_ENTRIES

theorem numbered_create (enabled : Bool) (nonce : Nonce) : (create enabled nonce).Numbered :=
  ⟨fun _ held => (Bool.false_ne_true held).elim, fun _ => Nat.le_refl 0, Nat.zero_le _⟩

theorem Numbered.issue (numbered : session.Numbered) (value : Scalar) (kind : Namespace) :
    (session.issue numberText value kind).2.Numbered := by
  unfold RedactionSession.issue
  dsimp only
  split
  · exact numbered
  split
  · exact ⟨numbered.issued, numbered.counted, numbered.bounded⟩
  rename_i room
  simp only [Bool.or_eq_true, decide_eq_true_eq, not_or, Nat.not_le] at room
  have fresh : session.originals.get? (tokenText session.nonce kind (session.counters kind + 1)) = none := by
    rw [← Option.not_isSome_iff_eq_none]
    intro held
    obtain ⟨kind', count, small, same⟩ := numbered.issued _ held
    obtain ⟨rfl, rfl⟩ := tokenText_injective same
    omega
  have size : (session.originals.set (tokenText session.nonce kind (session.counters kind + 1)) value).size =
      session.originals.size + 1 := by
    rw [size_set, OrderedMap.has, fresh]
    rfl
  refine ⟨fun source held => ?_, fun other => ?_, ?_⟩
  · dsimp only at held ⊢
    rw [OrderedMap.has, OrderedMap.get?_set] at held
    by_cases same : source = tokenText session.nonce kind (session.counters kind + 1)
    · exact ⟨kind, session.counters kind + 1, by rw [update_self], same⟩
    · rw [if_neg same] at held
      obtain ⟨kind', count, small, same⟩ := numbered.issued source held
      refine ⟨kind', count, ?_, same⟩
      by_cases own : kind' = kind
      · subst own
        rw [update_self]
        omega
      · rw [update_of_ne own]
        exact small
  · dsimp only
    rw [size]
    have counted := numbered.counted
    by_cases own : other = kind
    · subst own
      rw [update_self]
      exact Nat.succ_le_succ (counted other)
    · rw [update_of_ne own]
      exact Nat.le_succ_of_le (counted other)
  · dsimp only
    rw [size]
    exact room.1

theorem Numbered.run (numbered : session.Numbered) (requests : List (Scalar × Namespace)) :
    (session.run numberText requests).Numbered := by
  induction requests generalizing session with
  | nil => exact numbered
  | cons request requests ih => exact ih (numbered.issue request.1 request.2)

/-- Whatever a session issued has an alias's shape. -/
theorem Numbered.isAlias (numbered : session.Numbered) {source : JsString}
    (held : session.originals.has source) : IsAlias source := by
  obtain ⟨kind, count, small, rfl⟩ := numbered.issued source held
  exact isAlias_tokenText _ _ (small.trans ((numbered.counted kind).trans numbered.bounded))

end RedactionSession

/-! ## The parts of a spelled text -/

section Parts

variable {issued : JsString → Prop}

theorem pieces_read {body read : JsString} (rest : JsString)
    (inside : ∀ unit ∈ body, 48 ≤ unit.val ∧ unit ≠ openBracket ∧ unit ≠ closeBracket) :
    pieces (some read) (body ++ closeBracket :: rest) =
      .token (read ++ body ++ [closeBracket]) :: pieces none rest := by
  induction body generalizing read with
  | nil =>
    rw [nil_append, pieces, if_pos rfl, append_nil]
  | cons unit body ih =>
    obtain ⟨low, -, apart⟩ := inside unit mem_cons_self
    have unbroken : ¬(unit = carriageReturn ∨ unit = lineFeed) := by
      rintro (rfl | rfl)
      all_goals exact absurd low (by decide)
    rw [cons_append, pieces, if_neg apart, if_neg unbroken,
      ih fun other mem => inside other (mem_cons_of_mem _ mem)]
    simp only [append_assoc, cons_append, nil_append]

section

variable (shapes : ∀ token, issued token → IsAlias token)
include shapes

theorem pieces_some {read rest : JsString} (unclosed : closeBracket ∉ read)
    (known : ∀ token, Piece.token token ∈ pieces (some read) rest → issued token) :
    ∃ body after, rest = body ++ closeBracket :: after ∧
      pieces (some read) rest = .token (read ++ body ++ [closeBracket]) :: pieces none after := by
  have closes {token : JsString} (alias_ : IsAlias token) : closeBracket ∈ token := by
    obtain ⟨body, rfl, -⟩ := alias_.shape
    exact mem_append_right _ mem_cons_self
  induction rest generalizing read with
  | nil =>
    rw [pieces] at known
    exact absurd (closes (shapes _ (known read mem_cons_self))) unclosed
  | cons unit rest ih =>
    rw [pieces] at known ⊢
    by_cases closing : unit = closeBracket
    · subst closing
      exact ⟨[], rest, rfl, by rw [if_pos rfl, append_nil]⟩
    rw [if_neg closing] at known ⊢
    by_cases broken : unit = carriageReturn ∨ unit = lineFeed
    · rw [if_pos broken] at known
      exact absurd (closes (shapes _ (known read mem_cons_self))) unclosed
    rw [if_neg broken] at known ⊢
    have still : closeBracket ∉ read ++ [unit] := by
      rw [mem_append, mem_singleton, not_or]
      exact ⟨unclosed, fun same => closing same.symm⟩
    obtain ⟨body, after, rfl, parts⟩ := ih still known
    refine ⟨unit :: body, after, rfl, ?_⟩
    rw [parts]
    simp only [append_assoc, cons_append, nil_append]

theorem spelled_pieces (source : JsString)
    (known : ∀ token, Piece.token token ∈ pieces none source → issued token) :
    Spelled issued (pieces none source) source := by
  induction len : source.length using Nat.strong_induction_on generalizing source with
  | _ n ih =>
    subst len
    cases source with
    | nil => exact .nil
    | cons unit rest =>
      rw [pieces] at known ⊢
      cases apart : (text "[NC_").isPrefixOf (unit :: rest) with
      | false =>
        rw [apart, if_neg Bool.false_ne_true] at known
        rw [if_neg Bool.false_ne_true]
        exact .plain apart (ih _ (Nat.lt_succ_self _) rest
          (fun token mem => known token (mem_cons_of_mem _ mem)) rfl)
      | true =>
        rw [apart, if_pos rfl] at known
        rw [if_pos rfl]
        have opens : unit = openBracket := by
          rw [List.isPrefixOf_iff_prefix] at apart
          obtain ⟨tail, same⟩ := apart
          exact (List.cons.inj same).1.symm
        have unclosed : closeBracket ∉ [unit] := by
          rw [opens]
          decide
        obtain ⟨body, after, rfl, parts⟩ := pieces_some shapes unclosed known
        rw [parts] at known ⊢
        have spelled : Spelled issued (pieces none after) after := by
          refine ih _ ?_ after (fun token mem => known token (mem_cons_of_mem _ mem)) rfl
          simp only [length_cons, length_append]
          omega
        have whole := Spelled.token (known _ mem_cons_self) spelled
        simpa only [append_assoc, singleton_append, cons_append, nil_append] using whole

theorem pieces_of_spelled {parts : List Piece}
    {source : JsString} (spelled : Spelled issued parts source) : pieces none source = parts := by
  induction spelled with
  | nil => rfl
  | plain apart _ ih => rw [pieces, apart, if_neg Bool.false_ne_true, ih]
  | @token token rest parts known _ ih =>
    obtain ⟨body, rfl, inside, -⟩ := (shapes token known).shape
    have opening : text "[NC_" ++ body ++ [closeBracket] ++ rest =
        openBracket :: (text "NC_" ++ body ++ closeBracket :: rest) := by
      simp only [append_assoc, cons_append, nil_append]
      rfl
    have starts : (text "[NC_").isPrefixOf (openBracket :: (text "NC_" ++ body ++ closeBracket :: rest)) = true := by
      rw [List.isPrefixOf_iff_prefix]
      exact ⟨body ++ closeBracket :: rest, by simp only [append_assoc]; rfl⟩
    have named : ∀ unit ∈ text "NC_" ++ body,
        48 ≤ unit.val ∧ unit ≠ openBracket ∧ unit ≠ closeBracket := by
      intro unit mem
      rcases mem_append.mp mem with mem | mem
      · have letters : ∀ unit ∈ text "NC_", 48 ≤ unit.val ∧ unit ≠ openBracket ∧ unit ≠ closeBracket := by
          simp [text, codeUnits, openBracket, closeBracket]
        exact letters unit mem
      · exact inside unit mem
    rw [opening, pieces, if_pos starts, pieces_read rest named, ih]
    refine congrArg (fun token => Piece.token token :: parts) ?_
    simp only [append_assoc]
    rfl

end

end Parts

/-! ## Restoring -/

variable (session : RedactionSession)

/-- What a part of a text is restored to. -/
def restorePiece : Piece → Checked JsString
  | .plain unit => .ok [unit]
  | .token source =>
    match session.originals.get? source with
    | none => .error TOKEN_ERROR
    | some original => .ok (original.printed numberText)

/-- `restore` of a text.  A text that is an alias is restored to what the alias stands for. -/
def RedactionSession.restore (value : JsString) :
    Checked Scalar :=
  if !session.enabled then .ok (.string value)
  else do
    ensure (!session.exhausted) LIMIT_ERROR
    ensure (!value.any (·.val = 0)) VALUE_ERROR
    ensure ((UnicodeText.encode value).length ≤ MAX_BYTES) VALUE_ERROR
    match session.originals.get? value with
    | some original => return original
    | none =>
      let restored ← (pieces none value).mapM (restorePiece numberText session)
      return .string restored.flatten

/-- What the session puts in the place of a part it knows. -/
def printedPiece : Piece → JsString
  | .plain unit => [unit]
  | .token source => ((session.originals.get? source).map (·.printed numberText)).getD []

namespace RedactionSession

variable {numberText : ℚ → JsString} {session : RedactionSession}

def Issued (session : RedactionSession) (source : JsString) : Prop := session.originals.has source = true

/-- The alias stands for a number or a boolean. -/
def HidesScalar (session : RedactionSession) (source : JsString) : Prop :=
  ∃ original, session.originals.get? source = some original ∧ original.isString = false

theorem mapM_restorePiece {parts : List Piece} {source : JsString}
    (spelled : Spelled session.Issued parts source) :
    parts.mapM (restorePiece numberText session) = .ok (parts.map (printedPiece numberText session)) := by
  induction spelled with
  | nil => rfl
  | plain _ _ ih =>
    rw [mapM_cons, ih]
    rfl
  | token known _ ih =>
    obtain ⟨original, found⟩ := has_iff.mp known
    rw [mapM_cons, ih]
    simp only [restorePiece, found, map_cons, printedPiece]
    rfl

/-- A text of known aliases is restored part by part, to a text unless it is itself the alias of
something else. -/
theorem restore_of_spelled (numbered : session.Numbered) (enabled : session.enabled)
    (room : session.exhausted = false) {parts : List Piece} {source : JsString}
    (spelled : Spelled session.Issued parts source) (plain : source.any (·.val = 0) = false)
    (small : (UnicodeText.encode source).length ≤ MAX_BYTES) :
    ∃ value, session.restore numberText source = .ok value ∧
      value.printed numberText = parts.flatMap (printedPiece numberText session) ∧
      (value.isString = false ↔ session.HidesScalar source) := by
  have shapes : ∀ token, session.Issued token → IsAlias token := fun _ held => numbered.isAlias held
  have parted := pieces_of_spelled shapes spelled
  unfold restore
  rw [enabled, room, plain, Bool.not_true, if_neg Bool.false_ne_true, decide_eq_true small]
  cases found : session.originals.get? source with
  | some original =>
    refine ⟨original, rfl, ?_, ⟨fun kind => ⟨original, found, kind⟩, fun hidden => ?_⟩⟩
    · have whole := Spelled.token (has_iff.mpr ⟨original, found⟩) (@Spelled.nil session.Issued)
      rw [append_nil] at whole
      obtain rfl : parts = [.token source] := parted.symm.trans (pieces_of_spelled shapes whole)
      simp only [flatMap_cons, flatMap_nil, append_nil, printedPiece, found]
      rfl
    · obtain ⟨other, same, kind⟩ := hidden
      obtain rfl := Option.some.inj (found.symm.trans same)
      exact kind
  | none =>
    refine ⟨.string (parts.map (printedPiece numberText session)).flatten, ?_, ?_, ?_⟩
    · rw [parted, mapM_restorePiece spelled]
      rfl
    · exact (flatMap_def ..).symm
    · refine ⟨fun kind => Bool.noConfusion kind, fun hidden => ?_⟩
      obtain ⟨other, same, -⟩ := hidden
      rw [found] at same
      cases same

end RedactionSession

end Netcatty.Aliases
