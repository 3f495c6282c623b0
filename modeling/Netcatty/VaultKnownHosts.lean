import Netcatty.HostKeyVerifier
import Netcatty.KnownHostsLines

/-!
The known_hosts file for external OpenSSH programs.

The keys of the vault are the only ones for the hosts they are for: the lines of the
system's files lose every pattern that covers such a host.
-/

namespace Netcatty.KnownHosts

open HostKeys (KnownHost isKeyTypeName describeRawPublicKeyBlob)

/-- A host with a usable key in the vault. -/
structure VaultSelector where
  hostname : JsString
  port : ℕ
  deriving DecidableEq

def space : Fin 65536 := ⟨' '.toNat, by decide⟩

/-- What `.` does not match in a regular expression. -/
def isLineTerminator (u : Fin 65536) : Bool := u.val ∈ [10, 13, 0x2028, 0x2029]

/-- `trimEnd()`. -/
def trimEnd (s : JsString) : JsString := (s.reverse.dropWhile isWhiteSpace).reverse

section Vault

variable (case : CaseMap) (crypto : HostCrypto)

/-! ## Vault entries -/

/-- The key type and the key of an entry, where OpenSSH can read them. -/
def vaultKey (publicKey : JsString) : Option (JsString × JsString) :=
  match splitBlanks (trim publicKey) with
  | [] => none
  | [word] =>
    if word = [] ∨ hasSha256Label word then none
    else
      match describeRawPublicKeyBlob (crypto.fromBase64 word) with
      | none => none
      | some decodedType => if isKeyTypeName decodedType then some (decodedType, word) else none
  | word :: blob :: _ => if isKeyTypeName word then some (word, blob) else none

def formatVaultKnownHostLine (knownHost : KnownHost) : Option JsString :=
  let hostname := trim knownHost.hostname
  if hostname = [] then none
  else
    let port := knownHost.port.getD 22
    let hostField :=
      if port = 22 then hostname
      else openBracket :: (hostname ++ closeBracket :: colonUnit :: decimal port)
    match vaultKey crypto (knownHost.publicKey.getD []) with
    | none => none
    | some (keyType, keyBlob) =>
      if keyType = [] ∨ keyBlob = [] then none
      else some ([space].intercalate [hostField, keyType, keyBlob])

def extractVaultHostSelectors (knownHosts : List KnownHost) : List VaultSelector :=
  knownHosts.filterMap fun knownHost =>
    if (formatVaultKnownHostLine crypto knownHost).isNone then none
    else
      let hostname := normalizeHostname case.lower knownHost.hostname
      if hostname = [] then none else some ⟨hostname, knownHost.port.getD 22⟩

/-! ## Patterns -/

def openSshHostGlobMatches (pattern hostname : JsString) : Bool :=
  let host := normalizeHostname case.lower hostname
  if pattern = [] ∨ host = [] then false
  else globMatches (fun u => !isLineTerminator u) (case.lower pattern) host

def plainHostPatternMatchesSelector (selector : VaultSelector) (token : JsString) : Bool :=
  if token = [] ∨ isNegated token then false
  else
    match bracketMatch token with
    | some (patternHost, digits) =>
      if parseDigits 10 digits ≠ selector.port then false
      else if hasWildcard patternHost then openSshHostGlobMatches case patternHost selector.hostname
      else normalizeHostname case.lower patternHost = selector.hostname
    | none =>
      if hasWildcard token then
        -- a bare wildcard is taken to be for the default port
        selector.port = 22 && openSshHostGlobMatches case token selector.hostname
      else normalizeHostname case.lower token = selector.hostname && selector.port = 22

/-- The names a hash may be of. -/
def buildHashLookupTokens (hostname : JsString) (port : ℕ) : List JsString :=
  let raw := trim hostname
  if raw = [] then []
  else
    [raw, case.lower raw].map fun variant =>
      if port = 22 then variant
      else openBracket :: (variant ++ closeBracket :: colonUnit :: decimal port)

def hashedHostFieldMatchesSelector (selector : VaultSelector) (hostField : JsString) : Bool :=
  if !isHashed hostField then false
  else
    match hashedParts hostField with
    | none => false
    | some (salt, expected) =>
      if crypto.fromBase64 salt = [] ∨ crypto.fromBase64 expected = [] then false
      else
        (buildHashLookupTokens case selector.hostname selector.port).any fun token =>
          crypto.hmacSha1 (crypto.fromBase64 salt) token = crypto.fromBase64 expected

/-- The loop over the patterns; `matchedPositive` is what the ones before came to. -/
def matchPatterns (selector : VaultSelector) : Bool → List JsString → Bool
  | matchedPositive, [] => matchedPositive
  | matchedPositive, pattern :: patterns =>
    let token := trim pattern
    if token = [] then matchPatterns selector matchedPositive patterns
    else if isNegated token then
      if plainHostPatternMatchesSelector case selector token.tail then false
      else matchPatterns selector matchedPositive patterns
    else
      matchPatterns selector (plainHostPatternMatchesSelector case selector token || matchedPositive)
        patterns

def plainHostFieldMatchesSelector (selector : VaultSelector) (hostField : JsString) : Bool :=
  matchPatterns case selector false (splitCommas hostField)

def hostFieldMatchesAnyVaultSelector (hostField : JsString) (selectors : List VaultSelector) : Bool :=
  let field := trim hostField
  if field = [] then false
  else if isHashed field then
    selectors.any fun selector => hashedHostFieldMatchesSelector case crypto selector field
  else selectors.any fun selector => plainHostFieldMatchesSelector case selector field

/-! ## Lines -/

/-- A pattern without its negation. -/
def positivePart (token : JsString) : JsString := if isNegated token then token.tail else token

def keptPatterns (selectors : List VaultSelector) (field : JsString) : List JsString :=
  ((splitCommas field).map trim).filter fun token =>
    token ≠ [] && !selectors.any fun selector =>
      plainHostPatternMatchesSelector case selector (positivePart token)

def rewriteHostFieldExcludingVaultHosts (hostField : JsString) (selectors : List VaultSelector) :
    Option JsString :=
  let field := trim hostField
  if field = [] ∨ isHashed field then
    if isHashed field && hostFieldMatchesAnyVaultSelector case crypto field selectors then none
    else if field = [] then none
    else some field
  else
    let kept := keptPatterns case selectors field
    if kept.all isNegated then none else some ([comma].intercalate kept)

/-- What a line of the file becomes. -/
def filterKnownHostsLine (selectors : List VaultSelector) (rawLine : JsString) : Option JsString :=
  let line := trim rawLine
  if line = [] then none
  else if line.head? = some numberSign then some (trimEnd rawLine)
  else
    match readMarkers line.length line with
    | none => some (trimEnd rawLine)
    | some (markers, rest) =>
      if rest = [] then some (trimEnd rawLine)
      else
        let hostField := (splitBlanks rest).headD []
        let tail := [space].intercalate (splitBlanks rest).tail
        if hostFieldMatchesAnyVaultSelector case crypto hostField selectors then
          if markers.contains (text "@revoked") then some (trimEnd rawLine)
          else
            match rewriteHostFieldExcludingVaultHosts case crypto hostField selectors with
            | none => none
            | some rewrittenHost =>
              if rewrittenHost = [] ∨ tail = [] then none
              else
                some (trim (markers.flatMap (fun marker => marker ++ [space]) ++ rewrittenHost ++
                  space :: tail))
        else some (trimEnd rawLine)

def filterKnownHostsContentExcludingVaultHosts (content : JsString)
    (selectors : List VaultSelector) : JsString :=
  if content = [] ∨ selectors = [] then if trim content = [] then [] else trimEnd content
  else
    [lineFeed].intercalate (((PtyExec.splitLines content).filterMap
      (filterKnownHostsLine case crypto selectors)).filter fun line => line ≠ [])

end Vault

end Netcatty.KnownHosts
