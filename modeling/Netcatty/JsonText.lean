import Netcatty.JsValue
import Netcatty.UnicodeText

/-!
The text of a JSON value.

`JSON.stringify` escapes what may not stand in a JSON string, and surrogates without their other
half.  A quoted string can be read back whatever follows it (`unquote_quoteBody`), so different
lists of strings have different texts (`stringify_strings_injective`).  The text of a number is a
parameter.
-/

namespace Netcatty

open List

namespace JsonText

/-- A code unit by its number. -/
def unit (n : ℕ) : Fin 65536 := UnicodeText.unit n

/-- `"`. -/
def quoteMark : Fin 65536 := unit 34

variable (u : Fin 65536)

def isLeadSurrogate : Bool := 0xD800 ≤ u.val && u.val < 0xDC00

def isTrailSurrogate : Bool := 0xDC00 ≤ u.val && u.val < 0xE000

/-- A hexadecimal digit, in lower case. -/
def hexDigit (n : ℕ) : Fin 65536 := if n < 10 then unit (48 + n) else unit (87 + n)

/-- `\uXXXX`. -/
def unicodeEscape : JsString :=
  [backslash, unit 117, hexDigit (u.val / 4096), hexDigit (u.val / 256 % 16), hexDigit (u.val / 16 % 16),
    hexDigit (u.val % 16)]

/-- A code unit that is no half of a surrogate pair. -/
def quoteUnit : JsString :=
  if u.val = 8 then [backslash, unit 98]
  else if u.val = 9 then [backslash, unit 116]
  else if u.val = 10 then [backslash, unit 110]
  else if u.val = 12 then [backslash, unit 102]
  else if u.val = 13 then [backslash, unit 114]
  else if u = quoteMark then [backslash, quoteMark]
  else if u = backslash then [backslash, backslash]
  else if u.val < 32 || isLeadSurrogate u || isTrailSurrogate u then unicodeEscape u
  else [u]

/-- What stands between the quotes. -/
def quoteBody : JsString → JsString
  | [] => []
  | [u] => quoteUnit u
  | u :: v :: rest =>
    if isLeadSurrogate u && isTrailSurrogate v then u :: v :: quoteBody rest
    else quoteUnit u ++ quoteBody (v :: rest)

/-- `QuoteJSONString`. -/
def quoteJSONString (s : JsString) : JsString := quoteMark :: (quoteBody s ++ [quoteMark])

end JsonText

mutual
/-- `JSON.stringify`. -/
def stringify (numberText : ℚ → JsString) : JsonValue → JsString
  | .null => text "null"
  | .bool true => text "true"
  | .bool false => text "false"
  | .num n => numberText n
  | .str s => JsonText.quoteJSONString s
  | .arr items => openBracket :: (stringifyItems numberText items ++ [closeBracket])
  | .obj fields => text "\x7b" ++ stringifyFields numberText fields ++ text "\x7d"
def stringifyItems (numberText : ℚ → JsString) : List JsonValue → JsString
  | [] => []
  | [item] => stringify numberText item
  | item :: next :: items => stringify numberText item ++ text "," ++ stringifyItems numberText (next :: items)
def stringifyFields (numberText : ℚ → JsString) : List (JsString × JsonValue) → JsString
  | [] => []
  | [field] => stringifyField numberText field
  | field :: next :: fields => stringifyField numberText field ++ text "," ++ stringifyFields numberText (next :: fields)
def stringifyField (numberText : ℚ → JsString) : JsString × JsonValue → JsString
  | (key, value) => JsonText.quoteJSONString key ++ text ":" ++ stringify numberText value
end

namespace JsonText

/-! ## Reading a string back -/

variable (u : Fin 65536)

/-- The value of a hexadecimal digit. -/
def hexValue : ℕ := if u.val < 58 then u.val - 48 else u.val - 87

theorem hexValue_hexDigit {n : ℕ} (small : n < 16) : hexValue (hexDigit n) = n := by
  revert small
  revert n
  decide

/-- One code unit of a quoted text, and what follows. -/
def readUnit : JsString → Option (Fin 65536 × JsString)
  | [] => none
  | [u] => some (u, [])
  | u :: code :: rest =>
    if u ≠ backslash then some (u, code :: rest)
    else if code.val = 98 then some (unit 8, rest)
    else if code.val = 116 then some (unit 9, rest)
    else if code.val = 110 then some (unit 10, rest)
    else if code.val = 102 then some (unit 12, rest)
    else if code.val = 114 then some (unit 13, rest)
    else if code.val = 117 then
      match rest with
      | a :: b :: c :: d :: rest =>
        some (unit (hexValue a * 4096 + hexValue b * 256 + hexValue c * 16 + hexValue d), rest)
      | _ => none
    else some (code, rest)

theorem readUnit_plain {u : Fin 65536} (plain : u ≠ backslash) (rest : JsString) :
    readUnit (u :: rest) = some (u, rest) := by
  cases rest with
  | nil => rfl
  | cons code rest => simp [readUnit, plain]

theorem unit_val : unit u.val = u := Fin.ext (Nat.mod_eq_of_lt u.isLt)

theorem readUnit_unicodeEscape (rest : JsString) :
    readUnit (unicodeEscape u ++ rest) = some (u, rest) := by
  have whole : u.val / 4096 * 4096 + u.val / 256 % 16 * 256 + u.val / 16 % 16 * 16 + u.val % 16 = u.val := by omega
  have code : (unit 117).val = 117 := by decide
  simp only [unicodeEscape, cons_append, nil_append, readUnit, ne_eq, not_true_eq_false, if_false, code,
    Nat.reduceEqDiff, if_true]
  rw [hexValue_hexDigit (by omega), hexValue_hexDigit (by omega), hexValue_hexDigit (by omega), hexValue_hexDigit (by omega),
    whole, unit_val]

theorem readUnit_short {letter u : Fin 65536} (rest : JsString) (reads : readUnit [backslash, letter] = some (u, []))
    (other : letter.val ≠ 117) : readUnit (backslash :: letter :: rest) = some (u, rest) := by
  simp only [readUnit, ne_eq, not_true_eq_false, if_false, other] at reads ⊢
  grind

theorem readUnit_quoteUnit (rest : JsString) : readUnit (quoteUnit u ++ rest) = some (u, rest) := by
  have short : ∀ {letter : Fin 65536} {n : ℕ}, u.val = n → readUnit [backslash, letter] = some (unit n, []) →
      letter.val ≠ 117 → readUnit ([backslash, letter] ++ rest) = some (u, rest) := by
    intro letter n value reads other
    rw [← value, unit_val] at reads
    exact readUnit_short rest reads other
  unfold quoteUnit
  by_cases backspace : u.val = 8
  · rw [if_pos backspace]
    exact short backspace (by decide) (by decide)
  rw [if_neg backspace]
  by_cases tab : u.val = 9
  · rw [if_pos tab]
    exact short tab (by decide) (by decide)
  rw [if_neg tab]
  by_cases feed : u.val = 10
  · rw [if_pos feed]
    exact short feed (by decide) (by decide)
  rw [if_neg feed]
  by_cases form : u.val = 12
  · rw [if_pos form]
    exact short form (by decide) (by decide)
  rw [if_neg form]
  by_cases carriage : u.val = 13
  · rw [if_pos carriage]
    exact short carriage (by decide) (by decide)
  rw [if_neg carriage]
  by_cases mark : u = quoteMark
  · rw [if_pos mark, mark]
    exact readUnit_short rest (by decide) (by decide)
  rw [if_neg mark]
  by_cases slash : u = backslash
  · rw [if_pos slash, slash]
    exact readUnit_short rest (by decide) (by decide)
  rw [if_neg slash]
  split
  · exact readUnit_unicodeEscape u rest
  · exact readUnit_plain slash rest

theorem quoteUnit_head : ∃ first rest, quoteUnit u = first :: rest ∧ first ≠ quoteMark := by
  have escape : backslash ≠ quoteMark := by decide
  unfold quoteUnit unicodeEscape
  repeat' split
  all_goals first | exact ⟨_, _, rfl, escape⟩ | exact ⟨_, _, rfl, by assumption⟩

/-- A quoted text up to its closing mark, and what follows. -/
def unquote : ℕ → JsString → Option (JsString × JsString)
  | 0, _ => none
  | fuel + 1, units =>
    if units.head? = some quoteMark then some ([], units.tail)
    else (readUnit units).bind fun read => (unquote fuel read.2).map fun body => (read.1 :: body.1, body.2)

theorem unquote_cons {fuel : ℕ} {u : Fin 65536} {units rest body after : JsString} (head : units.head? ≠ some quoteMark)
    (read : readUnit units = some (u, rest)) (inner : unquote fuel rest = some (body, after)) :
    unquote (fuel + 1) units = some (u :: body, after) := by
  simp [unquote, head, read, inner]

/-- A quoted text is read back, whatever follows it. -/
theorem unquote_quoteBody (s after : JsString) {fuel : ℕ} (enough : s.length < fuel) :
    unquote fuel (quoteBody s ++ quoteMark :: after) = some (s, after) := by
  have one : ∀ (u : Fin 65536) (rest body : JsString) {fuel : ℕ}, unquote fuel rest = some (body, after) →
      unquote (fuel + 1) (quoteUnit u ++ rest) = some (u :: body, after) := by
    intro u rest body fuel inner
    obtain ⟨first, others, starts, plain⟩ := quoteUnit_head u
    refine unquote_cons ?_ (readUnit_quoteUnit u rest) inner
    simp [starts, plain]
  induction s using quoteBody.induct generalizing fuel with
  | case1 =>
    obtain ⟨fuel, rfl⟩ := Nat.exists_eq_succ_of_ne_zero (Nat.ne_of_gt enough)
    simp [unquote, quoteBody]
  | case2 u =>
    obtain ⟨fuel, rfl⟩ : ∃ more, fuel = more + 2 := ⟨fuel - 2, by simp at enough; omega⟩
    exact one u _ [] (by simp [unquote])
  | case3 u v rest pair ih =>
    obtain ⟨fuel, rfl⟩ : ∃ more, fuel = more + 2 := ⟨fuel - 2, by simp at enough; omega⟩
    rw [quoteBody, if_pos pair]
    have raw : ∀ w, isLeadSurrogate w = true ∨ isTrailSurrogate w = true → w ≠ backslash ∧ w ≠ quoteMark := by
      rintro w half
      refine ⟨?_, ?_⟩
      · rintro rfl
        revert half
        decide
      · rintro rfl
        revert half
        decide
    obtain ⟨lead, trail⟩ := Bool.and_eq_true_iff.mp pair
    have inner : unquote fuel (quoteBody rest ++ quoteMark :: after) = some (rest, after) := ih (by simp at enough; omega)
    refine unquote_cons ?_ (readUnit_plain (raw u (.inl lead)).1 _) (unquote_cons ?_ (readUnit_plain (raw v (.inr trail)).1 _) inner)
    · simp [(raw u (.inl lead)).2]
    · simp [(raw v (.inr trail)).2]
  | case4 u v rest apart ih =>
    obtain ⟨fuel, rfl⟩ := Nat.exists_eq_succ_of_ne_zero (Nat.ne_of_gt (Nat.zero_lt_of_lt enough))
    rw [quoteBody, if_neg apart, append_assoc]
    exact one u _ _ (ih (by simp at enough ⊢; omega))

theorem quoteJSONString_cancel {s s' after after' : JsString}
    (same : quoteJSONString s ++ after = quoteJSONString s' ++ after') : s = s' ∧ after = after' := by
  simp only [quoteJSONString, cons_append, append_assoc, nil_append, List.cons.injEq, true_and] at same
  have read := unquote_quoteBody s after (Nat.lt_succ_of_le (le_max_left s.length s'.length))
  rw [same, unquote_quoteBody s' after' (Nat.lt_succ_of_le (le_max_right s.length s'.length))] at read
  exact Prod.mk.inj (Option.some.inj read.symm)

/-! ## Lists of strings -/

section

variable (numberText : ℚ → JsString) {keys keys' : List JsString} {after after' : JsString}

theorem stringifyItems_cancel
    (same : stringifyItems numberText (keys.map .str) ++ closeBracket :: after =
      stringifyItems numberText (keys'.map .str) ++ closeBracket :: after') : keys = keys' ∧ after = after' := by
  have opens : closeBracket ≠ quoteMark := by decide
  have comma : some closeBracket ≠ some (unit 44) := by decide
  induction keys generalizing keys' with
  | nil =>
    cases keys' with
    | nil => exact ⟨rfl, (List.cons.inj same).2⟩
    | cons key' rest' => cases rest' <;> simp [stringifyItems, stringify, quoteJSONString, opens] at same
  | cons key rest ih =>
    cases keys' with
    | nil => cases rest <;> simp [stringifyItems, stringify, quoteJSONString, opens.symm] at same
    | cons key' rest' =>
      cases rest with
      | nil =>
        cases rest' with
        | nil =>
          simp only [map_cons, map_nil, stringifyItems, stringify] at same
          obtain ⟨rfl, tails⟩ := quoteJSONString_cancel same
          exact ⟨rfl, (List.cons.inj tails).2⟩
        | cons next' rest' =>
          simp only [map_cons, map_nil, stringifyItems, stringify, append_assoc] at same
          exact absurd (congrArg List.head? (quoteJSONString_cancel same).2) comma
      | cons next rest =>
        cases rest' with
        | nil =>
          simp only [map_cons, map_nil, stringifyItems, stringify, append_assoc] at same
          exact absurd (congrArg List.head? (quoteJSONString_cancel same).2.symm) comma
        | cons next' rest' =>
          simp only [map_cons, stringifyItems, stringify, append_assoc] at same
          obtain ⟨rfl, tails⟩ := quoteJSONString_cancel same
          have rests : stringifyItems numberText ((next :: rest).map .str) ++ closeBracket :: after =
              stringifyItems numberText ((next' :: rest').map .str) ++ closeBracket :: after' :=
            append_cancel_left tails
          obtain ⟨others, afters⟩ := ih rests
          exact ⟨by rw [others], afters⟩

theorem stringify_strings_cancel (same : stringify numberText (.arr (keys.map .str)) ++ after =
      stringify numberText (.arr (keys'.map .str)) ++ after') : keys = keys' ∧ after = after' := by
  simp only [stringify, cons_append, append_assoc, nil_append, List.cons.injEq, true_and] at same
  exact stringifyItems_cancel numberText same

end

theorem stringify_strings_injective (numberText : ℚ → JsString) :
    Function.Injective fun keys : List JsString => stringify numberText (.arr (keys.map .str)) := by
  intro keys keys' same
  exact (stringify_strings_cancel numberText (congrArg (· ++ []) same)).1

end JsonText

end Netcatty
