import Netcatty.KnownHostsLines

/-!
The system's known_hosts files as a source of trust for the background connection.

The matcher takes exact names only.  It gives trust by them, and it finds revoked keys by
them, so a key that a wildcard revokes is still trusted.
-/

namespace Netcatty.KnownHosts

/-- The hashes of `crypto`, and base64. -/
structure SystemCrypto extends HostCrypto where
  /-- `createHash("sha256").update(blob).digest("base64")`. -/
  sha256Base64 : List UInt8 → JsString

/-! ## The matcher -/

section Matcher

variable (case : CaseMap) (crypto : SystemCrypto)

def fingerprintFromKeyBlob (base64Key : JsString) : JsString :=
  if base64Key = [] then []
  else
    let blob := crypto.fromBase64 base64Key
    if blob = [] then [] else stripPadding (crypto.sha256Base64 blob)

/-- The name as it is, and in lower case, each with the port where it is not the default. -/
def buildLookupTokens (hostname : JsString) (port : ℕ) : List JsString :=
  let raw := trim hostname
  if raw = [] then []
  else
    [raw, case.lower raw].map fun variant =>
      if port = 22 then variant
      else openBracket :: (variant ++ closeBracket :: colonUnit :: decimal port)

def plainTokenMatches (wantHost : JsString) (wantPort : ℕ) (pattern : JsString) : Bool :=
  let token := trim pattern
  if token = [] ∨ isNegated token ∨ hasWildcard token then false
  else
    match bracketMatch token with
    | some (host, digits) =>
      normalizeHostname case.lower host = wantHost && parseDigits 10 digits = wantPort
    | none => normalizeHostname case.lower token = wantHost && wantPort = 22

def plainHostFieldMatches (hostField hostname : JsString) (port : ℕ) : Bool :=
  let wantHost := normalizeHostname case.lower hostname
  if wantHost = [] then false
  else (splitCommas hostField).any (plainTokenMatches case wantHost port)

def hashedHostFieldMatches (hostField hostname : JsString) (port : ℕ) : Bool :=
  match hashedParts hostField with
  | none => false
  | some (saltB64, expected) =>
    if expected = [] ∨ crypto.fromBase64 saltB64 = [] ∨ crypto.fromBase64 expected = [] then false
    else
      (buildLookupTokens case hostname port).any fun token =>
        crypto.hmacSha1 (crypto.fromBase64 saltB64) token = crypto.fromBase64 expected

def hostFieldMatches (hostField hostname : JsString) (port : ℕ) : Bool :=
  if isHashed hostField then hashedHostFieldMatches case crypto hostField hostname port
  else plainHostFieldMatches case hostField hostname port

/-! ## The files -/

structure KnownHostsEntry where
  revoked : Bool
  certAuthority : Bool
  hostField : JsString
  keyType : JsString
  fingerprint : JsString

def parseKnownHostsLine (rawLine : JsString) : Option KnownHostsEntry :=
  let line := trim rawLine
  if line = [] ∨ line.head? = some numberSign then none
  else
    match readMarkers line.length line with
    | none => none
    | some (markers, rest) =>
      match splitBlanks rest with
      | hostField :: keyType :: keyBlob :: _ =>
        if hostField = [] ∨ keyType = [] ∨ keyBlob = [] then none
        else
          let fingerprint := fingerprintFromKeyBlob crypto keyBlob
          if fingerprint = [] then none
          else
            some ⟨markers.contains (text "@revoked"), markers.contains (text "@cert-authority"),
              hostField, keyType, fingerprint⟩
      | _ => none

/-- One more file; what cannot be read is left out. -/
def addContent (combined : JsString) : Option JsString → JsString
  | none => combined
  | some content =>
    if content = [] then combined
    else if combined = [] then content else combined ++ lineFeed :: content

/-- The contents of the files on top of each other. -/
def readSystemKnownHostsContent (contents : List (Option JsString)) : JsString :=
  contents.foldl addContent []

/-- Does the entry decide about the key? -/
def isAbout (hostname : JsString) (port : ℕ) (wantFingerprint : JsString)
    (entry : KnownHostsEntry) : Bool :=
  !entry.certAuthority && entry.fingerprint = wantFingerprint &&
    hostFieldMatches case crypto entry.hostField hostname port

/-- The loop over the lines. -/
def scanLines (hostname : JsString) (port : ℕ) (wantFingerprint : JsString) :
    Bool → List JsString → Bool
  | trusted, [] => trusted
  | trusted, rawLine :: lines =>
    match parseKnownHostsLine crypto rawLine with
    | none => scanLines hostname port wantFingerprint trusted lines
    | some entry =>
      if !isAbout case crypto hostname port wantFingerprint entry then
        scanLines hostname port wantFingerprint trusted lines
      else if entry.revoked then false
      else scanLines hostname port wantFingerprint true lines

def isHostKeyTrustedBySystem (contents : List (Option JsString)) (hostname : JsString) (port : ℕ)
    (fingerprint : JsString) : Bool :=
  let wantFingerprint := stripPadding fingerprint
  if hostname = [] ∨ wantFingerprint = [] then false
  else
    let content := readSystemKnownHostsContent contents
    if content = [] then false
    else scanLines case crypto hostname port wantFingerprint false (PtyExec.splitLines content)

end Matcher

end Netcatty.KnownHosts
