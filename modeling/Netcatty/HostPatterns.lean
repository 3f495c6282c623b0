import Netcatty.Numerals

/-!
Host names, host patterns and key fingerprints, as the trust files spell them.

The lower-case form of a text is a parameter; nothing here depends on how it is made.
-/

namespace Netcatty.KnownHosts

def comma : Fin 65536 := ⟨44, by decide⟩
def equalsSign : Fin 65536 := ⟨61, by decide⟩
def colonUnit : Fin 65536 := ⟨':'.toNat, by decide⟩

/-- `split(",")`. -/
def splitCommas : JsString → List JsString
  | [] => [[]]
  | u :: rest =>
    if u = comma then [] :: splitCommas rest
    else
      match splitCommas rest with
      | [] => [[u]]
      | first :: others => (u :: first) :: others

/-- `split(/\s+/)`. -/
def splitBlanks : JsString → List JsString
  | [] => [[]]
  | u :: rest =>
    if isWhiteSpace u then
      if rest.head?.any isWhiteSpace then splitBlanks rest else [] :: splitBlanks rest
    else
      match splitBlanks rest with
      | [] => [[u]]
      | first :: others => (u :: first) :: others

/-- What `/^\[([^\]]+)\]:(\d+)$/` takes apart. -/
def bracketMatch : JsString → Option (JsString × JsString)
  | [] => none
  | u :: rest =>
    let host := rest.takeWhile fun v => !(v = closeBracket)
    match rest.drop host.length with
    | v :: w :: digits =>
      if u = openBracket ∧ host ≠ [] ∧ v = closeBracket ∧ w = colonUnit ∧ digits ≠ [] ∧
          digits.all isDigit then some (host, digits)
      else none
    | _ => none

def normalizeHostname (toLowerCase : JsString → JsString) (value : JsString) : JsString :=
  toLowerCase (trim value)

/-- `replace(/=+$/g, "")`. -/
def stripPadding (value : JsString) : JsString :=
  (value.reverse.dropWhile fun u => u = equalsSign).reverse

/-- `/^SHA256:/i`. -/
def hasSha256Label (value : JsString) : Bool :=
  (value.take 7).map asciiLower = text "sha256:"

end Netcatty.KnownHosts
