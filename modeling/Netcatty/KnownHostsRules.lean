import Mathlib.Data.List.Infix
import Netcatty.HostPatterns
import Netcatty.PtyExecText

/-!
The rules by which OpenSSH reads a known_hosts file.

A line has markers, a host field, a key type and a key.  A host is looked up by its name,
or by `[name]:port` where the port is not the default one.  Letter case, base64 and the
keyed hash are parameters.
-/

namespace Netcatty.KnownHosts

def bang : Fin 65536 := ⟨33, by decide⟩
def numberSign : Fin 65536 := ⟨35, by decide⟩
def star : Fin 65536 := ⟨42, by decide⟩
def questionUnit : Fin 65536 := ⟨'?'.toNat, by decide⟩
def atSign : Fin 65536 := ⟨64, by decide⟩
def verticalBar : Fin 65536 := ⟨124, by decide⟩

/-- The characters with a meaning in a line, and the white space between its fields. -/
def isMark (u : Fin 65536) : Bool :=
  isWhiteSpace u || isDigit u || u.val ∈ [33, 35, 42, 44, 58, 63, 64, 91, 93, 124]

/-- The lower-case form of a character; the characters with a meaning have no case. -/
structure CaseMap where
  lowerUnit : Fin 65536 → Fin 65536
  fixes : ∀ u, isMark u = true → lowerUnit u = u
  reflects : ∀ u, isMark (lowerUnit u) = true → lowerUnit u = u
  idempotent : ∀ u, lowerUnit (lowerUnit u) = lowerUnit u

variable (case : CaseMap)

def CaseMap.lower (s : JsString) : JsString := s.map case.lowerUnit

/-- A character with a meaning is no letter. -/
theorem not_letter_of_isMark {u : Fin 65536} (mark : isMark u) :
    ¬(65 ≤ u.val ∧ u.val ≤ 90) ∧ ¬(97 ≤ u.val ∧ u.val ≤ 122) := by
  simp only [isMark, isDigit, isWhiteSpace, Bool.or_eq_true, Bool.and_eq_true, decide_eq_true_eq,
    List.mem_cons, List.not_mem_nil, or_false] at mark
  omega

theorem asciiLower_cases (u : Fin 65536) : asciiLower u = u ∧ ¬(65 ≤ u.val ∧ u.val ≤ 90) ∨
      97 ≤ (asciiLower u).val ∧ (asciiLower u).val ≤ 122 := by
  unfold asciiLower
  split
  · right
    dsimp only
    omega
  · exact .inl ⟨rfl, ‹_›⟩

/-- ASCII letters have a lower-case form, other characters are their own. -/
def asciiCase : CaseMap where
  lowerUnit := asciiLower
  fixes u mark := dif_neg (not_letter_of_isMark mark).1
  reflects u mark := by
    rcases asciiLower_cases u with ⟨same, _⟩ | letter
    · exact same
    · exact absurd letter (not_letter_of_isMark mark).2
  idempotent u := by
    rcases asciiLower_cases u with ⟨same, _⟩ | letter
    · rw [same]
      exact same
    · exact dif_neg (by omega)

structure HostCrypto where
  fromBase64 : JsString → List UInt8
  /-- HMAC-SHA1, keyed with a salt. -/
  hmacSha1 : List UInt8 → JsString → List UInt8

/-! ## Patterns -/

/-- Does a pattern with `*` and `?` match the whole name?  `wild` is what the two stand for. -/
def globMatches (wild : Fin 65536 → Bool) : JsString → JsString → Bool
  | [], name => name.isEmpty
  | p :: pattern, name =>
    if p = star then
      name.tails.any fun rest =>
        (name.take (name.length - rest.length)).all wild && globMatches wild pattern rest
    else
      match name with
      | [] => false
      | u :: rest => (if p = questionUnit then wild u else p = u) && globMatches wild pattern rest

def hasWildcard (pattern : JsString) : Bool := pattern.contains star || pattern.contains questionUnit

def lookupName (host : JsString) (port : ℕ) : JsString :=
  if port = 22 then case.lower host
  else openBracket :: (case.lower host ++ closeBracket :: colonUnit :: decimal port)

def patternMatches (pattern name : JsString) : Bool :=
  globMatches (fun _ => true) (case.lower pattern) name

def isNegated (pattern : JsString) : Bool := pattern.head? = some bang

def plainFieldMatches (field name : JsString) : Bool :=
  (splitCommas field).any (fun pattern => !isNegated pattern && patternMatches case pattern name) &&
    !(splitCommas field).any fun pattern =>
      isNegated pattern && patternMatches case pattern.tail name

/-! ## Hashed names -/

def isHashed (field : JsString) : Bool := (text "|1|").isPrefixOf field

def hashedParts (field : JsString) : Option (JsString × JsString) :=
  let rest := field.drop 3
  let salt := rest.takeWhile fun u => !(u = verticalBar)
  match rest.drop salt.length with
  | [] => none
  | _ :: hash => if salt = [] then none else some (salt, hash)

def hashedFieldMatches (crypto : HostCrypto) (field name : JsString) : Bool :=
  match hashedParts field with
  | none => false
  | some (salt, hash) =>
    crypto.fromBase64 salt ≠ [] && crypto.fromBase64 hash ≠ [] &&
      crypto.hmacSha1 (crypto.fromBase64 salt) name = crypto.fromBase64 hash

def fieldMatches (crypto : HostCrypto) (field name : JsString) : Bool :=
  if isHashed field then hashedFieldMatches crypto field name
  else plainFieldMatches case field name

/-! ## Lines -/

structure HostLine where
  markers : List JsString
  hosts : JsString
  keyType : JsString
  key : JsString
  deriving DecidableEq

def isMarker (field : JsString) : Bool := field.head? = some atSign

def lineOfFields (fields : List JsString) : Option HostLine :=
  match fields.dropWhile isMarker with
  | hosts :: keyType :: key :: _ => some ⟨fields.takeWhile isMarker, hosts, keyType, key⟩
  | _ => none

/-- A line of the file; comments and lines without a key are none. -/
def readLine (line : JsString) : Option HostLine :=
  if (trim line).head? = some numberSign then none else lineOfFields (splitBlanks (trim line))

/-- The lines of a file that have a key. -/
def readLines (content : JsString) : List HostLine :=
  (PtyExec.splitLines content).filterMap readLine

def HostLine.isRevoked (line : HostLine) : Bool := line.markers.contains (text "@revoked")

def HostLine.covers (line : HostLine) (case : CaseMap) (crypto : HostCrypto) (name : JsString) :
    Bool :=
  fieldMatches case crypto line.hosts name

end Netcatty.KnownHosts
