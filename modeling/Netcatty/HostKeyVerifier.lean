import Netcatty.HostPatterns
import Netcatty.OrderedMap

/-!
The verification of a server's host key.

Reading keys is a parameter where `ssh2` and `crypto` do it.  Request ids are numbers that
are not used twice, and the promise of a request is settled in the state and taken up in a
step of its own.
-/

namespace Netcatty.HostKeys

open KnownHosts

/-- What the verifier asks of `crypto`, `ssh2` and the text functions of the language. -/
structure KeyCrypto where
  toLowerCase : JsString → JsString
  /-- `createHash("sha256").update(key).digest("base64")`. -/
  sha256Base64 : List UInt8 → JsString
  fromBase64 : JsString → List UInt8
  toBase64 : List UInt8 → JsString
  /-- The type and the public key that `sshUtils.parseKey` finds. -/
  parseKey : List UInt8 → Option JsString × Option JsString

structure KnownHost where
  id : JsString
  hostname : JsString
  port : Option ℕ
  keyType : JsString
  fingerprint : Option JsString
  publicKey : Option JsString
  deriving DecidableEq

structure KeyInfo where
  keyType : JsString
  fingerprint : JsString
  publicKey : Option JsString
  deriving DecidableEq

inductive HostKeyStatus where
  | trusted
  | changed
  | unknown
  deriving DecidableEq

structure Decision where
  status : HostKeyStatus
  knownHost : Option KnownHost
  expectedFingerprint : Option JsString
  deriving DecidableEq

/-! ## Records -/

/-- `parseKnownHostPattern`, before the host name is normalized. -/
def parseKnownHostPattern (toLowerCase : JsString → JsString) (hostname : JsString) :
    JsString × Option ℕ :=
  let value := trim hostname
  let first := value.takeWhile fun u => !(u = comma)
  match bracketMatch first with
  | some (host, digits) => (normalizeHostname toLowerCase host, some (parseDigits 10 digits))
  | none => (normalizeHostname toLowerCase first, none)

def getKnownHostPort (toLowerCase : JsString → JsString) (knownHost : KnownHost) : ℕ :=
  (knownHost.port.or (parseKnownHostPattern toLowerCase knownHost.hostname).2).getD 22

/-- `port || 22`. -/
def portOrDefault (port : ℕ) : ℕ := if port = 0 then 22 else port

def matchesHostAndPort (toLowerCase : JsString → JsString) (knownHost : KnownHost)
    (hostname : JsString) (port : ℕ) : Bool :=
  let parsed := (parseKnownHostPattern toLowerCase knownHost.hostname).1
  if parsed = [] ∨ parsed = text "(hashed)" then false
  else parsed = normalizeHostname toLowerCase hostname ∧
    getKnownHostPort toLowerCase knownHost = portOrDefault port

def normalizeFingerprint (value : JsString) : JsString :=
  let trimmed := trim value
  stripPadding (if hasSha256Label trimmed then trimmed.drop 7 else trimmed)

/-- Does the word begin like the type of a public key? -/
def isKeyTypeName (word : JsString) : Bool :=
  (text "ssh-").isPrefixOf word || (text "ecdsa-").isPrefixOf word || (text "sk-").isPrefixOf word

section Crypto

variable (crypto : KeyCrypto)

def fingerprintFromPublicKey (publicKey : JsString) : JsString :=
  let trimmed := trim publicKey
  if trimmed = [] then []
  else if hasSha256Label trimmed then normalizeFingerprint trimmed
  else
    match splitBlanks trimmed with
    | word :: blob :: _ =>
      if isKeyTypeName word then stripPadding (crypto.sha256Base64 (crypto.fromBase64 blob))
      else normalizeFingerprint trimmed
    | _ => normalizeFingerprint trimmed

def getKnownHostFingerprint (knownHost : KnownHost) : JsString :=
  let recorded := (knownHost.fingerprint.map normalizeFingerprint).getD []
  if recorded = [] then (knownHost.publicKey.map (fingerprintFromPublicKey crypto)).getD []
  else recorded

def classifyHostKey (knownHosts : List KnownHost) (hostname : JsString) (port : ℕ)
    (keyType fingerprint : JsString) : Decision :=
  let candidates := knownHosts.filter fun knownHost =>
    matchesHostAndPort crypto.toLowerCase knownHost hostname port
  let comparable := candidates.filter fun knownHost =>
    !(getKnownHostFingerprint crypto knownHost = [])
  match comparable.find? fun knownHost =>
    getKnownHostFingerprint crypto knownHost = normalizeFingerprint fingerprint with
  | some found => ⟨.trusted, some found, none⟩
  | none =>
    let keyType := trim keyType
    if keyType = [] ∨ keyType = text "unknown" then ⟨.unknown, none, none⟩
    else
      match comparable.find? fun knownHost => knownHost.keyType = keyType with
      | some other => ⟨.changed, some other, some (getKnownHostFingerprint crypto other)⟩
      | none => ⟨.unknown, none, none⟩

/-! ## Keys -/

/-- `/^[A-Za-z0-9@._+-]+$/`. -/
def isKeyTypeText (word : JsString) : Bool :=
  word ≠ [] && word.all fun u => isDigit u || (97 ≤ (asciiLower u).val && (asciiLower u).val ≤ 122) ||
    u.val ∈ [64, 46, 95, 43, 45]

/-- `toString("ascii")` of one byte. -/
def asciiUnit (byte : UInt8) : Fin 65536 :=
  ⟨byte.toNat % 128, (Nat.mod_lt _ (by decide)).trans (by decide)⟩

def describeRawPublicKeyBlob (key : List UInt8) : Option JsString :=
  if key.length < 8 then none
  else
    let typeLength := (key.take 4).foldl (fun value byte => 256 * value + byte.toNat) 0
    if typeLength = 0 ∨ 128 < typeLength ∨ key.length < 4 + typeLength then none
    else
      let keyType := ((key.drop 4).take typeLength).map asciiUnit
      if isKeyTypeText keyType then some keyType else none

/-- A key type that is the empty text counts as none. -/
def nonEmpty (value : Option JsString) : Option JsString := value.filter fun s => !s.isEmpty

def describeHostKey (key : List UInt8) : KeyInfo :=
  let rawType := describeRawPublicKeyBlob key
  let parsed := crypto.parseKey key
  { keyType := ((nonEmpty parsed.1).or rawType).getD (text "unknown")
    fingerprint := stripPadding (crypto.sha256Base64 key)
    publicKey := (nonEmpty parsed.2).or
      (rawType.map fun keyType => keyType ++ text " " ++ crypto.toBase64 key) }

end Crypto

/-! ## Verifiers -/

/-- What `createHostVerifier` is called with. -/
structure VerifierOptions where
  sender : Option ℕ
  sessionId : Option JsString
  hostname : JsString
  port : ℕ
  knownHosts : List KnownHost
  verifyHostKeys : Bool
  bootEpoch : Option ℤ
  unattended : Bool

/-- A call of a verifier. -/
structure Invocation where
  verifier : ℕ
  key : List UInt8
  deriving DecidableEq

structure PendingRequest where
  /-- The invocation whose promise the request settles. -/
  invocation : ℕ
  webContentsId : ℕ
  sessionId : Option JsString

/-- What a renderer is asked. -/
structure HostKeyPrompt where
  requestId : ℕ
  invocation : ℕ
  sessionId : Option JsString
  hostname : JsString
  port : ℕ
  keyInfo : KeyInfo
  decision : Decision
  bootEpoch : Option ℤ

structure HostKeyVerification where
  /-- The `acceptedKey` of each verifier. -/
  acceptedKey : ℕ → Option (List UInt8)
  hostKeyRequests : OrderedMap ℕ PendingRequest
  /-- How many request ids were made. -/
  requestIds : ℕ
  invocations : List Invocation
  /-- The promises that are settled and not taken up, with `accept`. -/
  settled : List (ℕ × Bool)
  /-- The calls of the callbacks. -/
  callbacks : List (ℕ × Bool)
  prompts : List HostKeyPrompt

namespace HostKeyVerification

def start : HostKeyVerification where
  acceptedKey := fun _ => none
  hostKeyRequests := OrderedMap.empty
  requestIds := 0
  invocations := []
  settled := []
  callbacks := []
  prompts := []

variable (crypto : KeyCrypto) (optionsOf : ℕ → VerifierOptions) (state : HostKeyVerification)

def settleRequest (requestId : ℕ) (accept : Bool) : HostKeyVerification :=
  match state.hostKeyRequests.get? requestId with
  | none => state
  | some pending =>
    { state with
      hostKeyRequests := state.hostKeyRequests.delete requestId
      settled := state.settled ++ [(pending.invocation, accept)] }

/-- The ways in which a sender takes a message. -/
inductive SendResult where
  | sent
  | destroyed
  | throws
  deriving DecidableEq

/-- `requestHostKeyVerification`, for an invocation of a verifier. -/
def requestHostKeyVerification (invocation : ℕ) (options : VerifierOptions) (keyInfo : KeyInfo)
    (decision : Decision) (sending : SendResult) : HostKeyVerification :=
  match options.sender with
  | none => { state with settled := state.settled ++ [(invocation, false)] }
  | some webContentsId =>
    if sending = .destroyed then { state with settled := state.settled ++ [(invocation, false)] }
    else
      let requestId := state.requestIds
      let asked : HostKeyVerification := { state with
        requestIds := requestId + 1
        hostKeyRequests :=
          state.hostKeyRequests.set requestId ⟨invocation, webContentsId, options.sessionId⟩ }
      if sending = .throws then asked.settleRequest requestId false
      else
        { asked with
          prompts := state.prompts ++ [⟨requestId, invocation, options.sessionId, options.hostname,
            options.port, keyInfo, decision, options.bootEpoch⟩] }

def noteAccepted (verifier : ℕ) (key : List UInt8) : HostKeyVerification :=
  { state with acceptedKey := Function.update state.acceptedKey verifier (some key) }

def callback (invocation : ℕ) (accept : Bool) : HostKeyVerification :=
  { state with callbacks := state.callbacks ++ [(invocation, accept)] }

/-- The function that `createHostVerifier` returns. -/
def verify (verifier : ℕ) (rawKey : List UInt8) (sending : SendResult) : HostKeyVerification :=
  let options := optionsOf verifier
  let invocation := state.invocations.length
  let called : HostKeyVerification :=
    { state with invocations := state.invocations ++ [⟨verifier, rawKey⟩] }
  match if options.verifyHostKeys then state.acceptedKey verifier else none with
  | some acceptedKey => called.callback invocation (acceptedKey = rawKey)
  | none =>
    let keyInfo := describeHostKey crypto rawKey
    if !options.verifyHostKeys then (called.noteAccepted verifier rawKey).callback invocation true
    else
      let decision := classifyHostKey crypto options.knownHosts options.hostname options.port
        keyInfo.keyType keyInfo.fingerprint
      if decision.status = .trusted then
        (called.noteAccepted verifier rawKey).callback invocation true
      else if options.unattended then called.callback invocation false
      else called.requestHostKeyVerification invocation options keyInfo decision sending

/-- What follows the promise of a request. -/
def takeUp : HostKeyVerification :=
  match state.settled with
  | [] => state
  | (invocation, accept) :: settled =>
    let state := { state with settled }
    match state.invocations[invocation]? with
    | none => state
    | some call =>
      if accept then (state.noteAccepted call.verifier call.key).callback invocation true
      else state.callback invocation false

def handleResponse (senderId : Option ℕ) (requestId : ℕ) (accept : Bool) : HostKeyVerification :=
  match state.hostKeyRequests.get? requestId with
  | none => state
  | some pending =>
    if senderId = some pending.webContentsId then state.settleRequest requestId accept else state

def cancelRequestsForSession (sessionId : Option JsString) : HostKeyVerification :=
  ((state.hostKeyRequests.entries.filter fun entry => entry.2.sessionId = sessionId).map
    (·.1)).foldl (fun state requestId => state.settleRequest requestId false) state

end HostKeyVerification

open HostKeyVerification

/-! ## Runs -/

inductive VerifierAction where
  | invoke (verifier : ℕ) (key : List UInt8) (sending : SendResult)
  | respond (senderId : Option ℕ) (requestId : ℕ) (accept : Bool)
  | cancel (sessionId : Option JsString)
  | timeout (requestId : ℕ)
  | takeUp
  deriving DecidableEq

section Runs

variable (crypto : KeyCrypto) (optionsOf : ℕ → VerifierOptions)

def HostKeyVerification.step (state : HostKeyVerification) : VerifierAction → HostKeyVerification
  | .invoke verifier key sending => state.verify crypto optionsOf verifier key sending
  | .respond senderId requestId accept => state.handleResponse senderId requestId accept
  | .cancel sessionId => state.cancelRequestsForSession sessionId
  | .timeout requestId => state.settleRequest requestId false
  | .takeUp => state.takeUp

def run (actions : List VerifierAction) : HostKeyVerification :=
  actions.foldl (HostKeyVerification.step crypto optionsOf) .start

end Runs

end Netcatty.HostKeys
