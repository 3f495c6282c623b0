import Netcatty.JsonText
import Netcatty.Numerals

/-!
The policy of a redaction session.

A policy is accepted whole or not at all, and its text tells it from every other policy
(`fingerprint_injective`).  What Node takes for an address and what RE2 compiles are parameters.
-/

namespace Netcatty.Redaction

open List

/-- The parts of the platform that decide whether a policy is well formed. -/
structure PolicyTools where
  /-- `isIP`: 4, 6, or 0 for no address. -/
  isIP : JsString → ℕ
  /-- Does the pattern compile, and find nothing in the empty text? -/
  findsNothing : JsString → Bool
  /-- `String(n)`. -/
  numberText : ℚ → JsString

/-- A normalized policy. -/
structure RedactionConfig where
  enabled : Bool
  redactPrivateIps : Bool
  cidrs : List JsString
  patterns : List JsString
  deriving DecidableEq

/-- The policy of no input. -/
def RedactionConfig.default : RedactionConfig := ⟨false, false, [], []⟩

def CONFIG_KEYS : List JsString := [text "enabled", text "redactPrivateIps", text "cidrs", text "patterns"]

/-- `(0|[1-9]\d*)`. -/
def isPlainNumeral (digits : JsString) : Bool :=
  !digits.isEmpty && digits.all isDigit && (digits.head? != some digitZero || digits.length == 1)

variable (tools : PolicyTools)

/-- Does `parseCidr` accept the text? -/
def isCidr (value : JsString) : Bool :=
  let address := value.takeWhile (· ≠ slash)
  let length := (value.dropWhile (· ≠ slash)).tail
  !address.isEmpty && address.all (fun u => u.val ≠ 37 && !isWhiteSpace u) && value.contains slash &&
    isPlainNumeral length && tools.isIP address ≠ 0 &&
    parseDigits 10 length ≤ if tools.isIP address = 4 then 32 else 128

def booleanField (input : JsonObject) (key : String) : Option Bool :=
  match input.lookup (text key) with
  | none => some false
  | some (.bool value) => some value
  | some _ => none

/-- A non-empty string of at most 1024 code units. -/
def ruleText : JsonValue → Option JsString
  | .str item => if item.isEmpty || 1024 < item.length then none else some item
  | _ => none

def rulesField (input : JsonObject) (key : String) : Option (List JsString) :=
  match input.lookup (text key) with
  | none => some []
  | some (.arr items) => if 100 < items.length then none else items.mapM ruleText
  | some _ => none

/-- `normalizeRedactionConfig`; `none` where it throws, and no input is no object. -/
def normalizeRedactionConfig (input : Option JsonValue) : Option RedactionConfig :=
  match input.getD (.obj []) with
  | .obj fields =>
    if fields.any fun field => !CONFIG_KEYS.contains field.1 then none
    else do
      let enabled ← booleanField fields "enabled"
      let redactPrivateIps ← booleanField fields "redactPrivateIps"
      let cidrs ← rulesField fields "cidrs"
      let patterns ← rulesField fields "patterns"
      if cidrs.all (isCidr tools) && patterns.all tools.findsNothing then
        some ⟨enabled, redactPrivateIps, cidrs, patterns⟩
      else none
  | _ => none

/-- What a policy prints as. -/
def RedactionConfig.toJson (config : RedactionConfig) : JsonValue :=
  .obj [(text "enabled", .bool config.enabled), (text "redactPrivateIps", .bool config.redactPrivateIps),
    (text "cidrs", .arr (config.cidrs.map .str)), (text "patterns", .arr (config.patterns.map .str))]

/-- `JSON.stringify(config)`. -/
def fingerprint (config : RedactionConfig) : JsString :=
  stringify tools.numberText config.toJson

theorem stringify_bool_cancel (numberText : ℚ → JsString) {b b' : Bool} {after after' : JsString}
    (same : stringify numberText (.bool b) ++ after = stringify numberText (.bool b') ++ after') :
    b = b' ∧ after = after' := by
  have apart : (text "true").head? ≠ (text "false").head? := by decide
  cases b <;> cases b'
  · exact ⟨rfl, append_cancel_left same⟩
  · exact absurd (congrArg List.head? same).symm apart
  · exact absurd (congrArg List.head? same) apart
  · exact ⟨rfl, append_cancel_left same⟩

def printedField (key : String) (value : JsString) : JsString :=
  JsonText.quoteJSONString (text key) ++ text ":" ++ value

theorem fingerprint_eq (config : RedactionConfig) : fingerprint tools config = text "\x7b" ++
      (printedField "enabled" (stringify tools.numberText (.bool config.enabled)) ++ text "," ++
        (printedField "redactPrivateIps" (stringify tools.numberText (.bool config.redactPrivateIps)) ++ text "," ++
          (printedField "cidrs" (stringify tools.numberText (.arr (config.cidrs.map .str))) ++ text "," ++
            printedField "patterns" (stringify tools.numberText (.arr (config.patterns.map .str)))))) ++
      text "\x7d" := rfl

/-- Different policies have different fingerprints. -/
theorem fingerprint_injective : Function.Injective (fingerprint tools) := by
  intro config config' same
  rw [fingerprint_eq, fingerprint_eq] at same
  simp only [printedField, append_assoc] at same
  obtain ⟨enabled, same⟩ := stringify_bool_cancel tools.numberText
    (append_cancel_left (append_cancel_left (append_cancel_left same)))
  obtain ⟨privateIps, same⟩ := stringify_bool_cancel tools.numberText
    (append_cancel_left (append_cancel_left (append_cancel_left same)))
  obtain ⟨cidrs, same⟩ := JsonText.stringify_strings_cancel tools.numberText
    (append_cancel_left (append_cancel_left (append_cancel_left same)))
  obtain ⟨patterns, -⟩ := JsonText.stringify_strings_cancel tools.numberText
    (append_cancel_left (append_cancel_left (append_cancel_left same)))
  cases config
  cases config'
  simp only [RedactionConfig.mk.injEq]
  exact ⟨enabled, privateIps, cidrs, patterns⟩

end Netcatty.Redaction
