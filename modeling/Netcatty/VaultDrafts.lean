import Netcatty.QuickConnect
import Netcatty.VaultHosts

/-!
What an import makes hosts of: drafts, jump host specifications and ports.
-/

namespace Netcatty.VaultImport

inductive VaultImportIssueLevel where
  | warning
  | error
  deriving DecidableEq

structure VaultImportIssue where
  level : VaultImportIssueLevel
  message : JsString
  deriving DecidableEq

/-- The parts of a URL that an import reads. -/
structure UrlParts where
  hostname : JsString
  username : JsString
  port : JsString

/-- What an import takes from elsewhere.  No identifier comes up twice. -/
structure ImportTools where
  toLowerCase : JsString → JsString
  ascii : ∀ source : JsString, source.all (·.val < 128) = true → toLowerCase source = source.map asciiLower
  numberText : ℚ → JsString
  parseUrl : JsString → Option UrlParts
  randomUUID : ℕ → JsString
  distinct : Function.Injective randomUUID
  named : ∀ n, randomUUID n ≠ []

/-- The draft of a host, as the imports fill it in. -/
structure HostDraft where
  label : Option JsString
  hostname : JsString
  username : Option JsString
  password : Option JsString
  keyPath : Option JsString
  port : Option ℕ
  protocol : Option JsString
  group : Option JsString
  tags : List JsString

/-- `!isSafeSshConfigValue`. -/
def isUnsafeSshConfigValue (value : JsString) : Bool :=
  value.any fun unit => unit = carriageReturn || unit = lineFeed || unit.val = 0

def normalizeProtocol (tools : ImportTools) (raw : Option JsString) : Option JsString :=
  let value := tools.toLowerCase (trim (raw.getD []))
  if value = text "ssh" || value = text "ssh2" then some (text "ssh")
  else if value = text "telnet" then some (text "telnet")
  else if value = text "local" then some (text "local")
  else none

def defaultPortForProtocol (protocol : JsString) : ℕ := if protocol = text "telnet" then 23 else 22

/-- `buildVaultHostFromDraft`, with the identifier of the host. -/
def buildVaultHostFromDraft (tools : ImportTools) (id : JsString) (draft : HostDraft) : Checked Host := do
  let fail (message : String) : JsError := .error (text message)
  let hostname := trim draft.hostname
  ensure (!hostname.isEmpty) (fail "hostname is required.")
  ensure (!isUnsafeSshConfigValue hostname) (fail "hostname must not contain line breaks or null bytes.")
  ensure (!hostname.any isWhiteSpace) (fail "hostname must not contain whitespace.")
  let parsedProtocol := normalizeProtocol tools draft.protocol
  let hasProtocolInput := draft.protocol.any fun protocol => !(trim protocol).isEmpty
  ensure (!hasProtocolInput || parsedProtocol.isSome) (fail "protocol must be ssh, telnet, or local.")
  let protocol := parsedProtocol.getD (text "ssh")
  ensure (draft.port.all fun port => 1 ≤ port && port ≤ 65535) (fail "port must be an integer between 1 and 65535.")
  let label := if (trim (draft.label.getD [])).isEmpty then hostname else trim (draft.label.getD [])
  let username := trim (draft.username.getD [])
  ensure (!isUnsafeSshConfigValue label) (fail "label must not contain line breaks or null bytes.")
  ensure (!isUnsafeSshConfigValue username) (fail "username must not contain line breaks or null bytes.")
  let keyPath := (draft.keyPath.map trim).bind QuickConnect.nonempty
  ensure (!keyPath.any isUnsafeSshConfigValue) (fail "keyPath must not contain line breaks or null bytes.")
  return {
    id := id
    label := label
    hostname := hostname
    port := some (draft.port.getD (defaultPortForProtocol protocol))
    username := username
    group := normalizeGroupPath draft.group
    tags := ((draft.tags.map trim).filter (!·.isEmpty)).eraseDups
    os := text "linux"
    protocol := some protocol
    pluginConnection := false
    password := draft.password.bind QuickConnect.nonempty
    authMethod := keyPath.map fun _ => text "key"
    authPolicyVersion := keyPath.map fun _ => 1
    useSshAgent := keyPath.map fun _ => false
    identityFilePaths := keyPath.map fun keyPath => [keyPath]
    identityId := none
    telnetIdentityId := none
    identityFileId := none
    identityAgent := none
    identitiesOnly := none
    addKeysToAgent := none
    useKeychain := none
    hostChain := none
    localShell := none
    localShellArgs := none
    localShellName := none
    localStartDir := none
    x11Forwarding := none
    moshEnabled := none }

section

variable {tools : ImportTools} {id : JsString} {draft : HostDraft} {host : Host}

theorem id_of_draft
    (built : buildVaultHostFromDraft tools id draft = .ok host) : host.id = id ∧ host.hostChain = none := by
  unfold buildVaultHostFromDraft at built
  simp only [check_bind_eq_ok] at built
  obtain ⟨-, -, -, -, -, -, -, -, made⟩ := built
  cases made
  exact ⟨rfl, rfl⟩

theorem address_of_draft
    (ssh : draft.protocol = some (text "ssh")) (built : buildVaultHostFromDraft tools id draft = .ok host) :
    host.hostname = trim draft.hostname ∧ host.port = some (draft.port.getD 22) := by
  have protocol : normalizeProtocol tools draft.protocol = some (text "ssh") := by
    have lower : tools.toLowerCase (trim (text "ssh")) = text "ssh" := (tools.ascii _ (by decide)).trans (by decide)
    rw [ssh, normalizeProtocol, Option.getD_some, lower]
    rfl
  unfold buildVaultHostFromDraft at built
  simp only [check_bind_eq_ok, protocol] at built
  obtain ⟨-, -, -, -, -, -, -, -, made⟩ := built
  cases made
  exact ⟨rfl, rfl⟩

end

/-! ## Jump hosts -/

def comma : Fin 65536 := UnicodeText.unit 44

structure ParsedJumpHost where
  hostname : JsString
  username : Option JsString
  port : Option ℕ
  deriving DecidableEq

/-- A port that `parseInt` reads, from 1 to 65535. -/
def readPort (source : JsString) : Option ℕ :=
  match QuickConnect.parseInt source with
  | none => none
  | some port => if 1 ≤ port && port ≤ 65535 then some port.toNat else none

def parsePort (raw : Option JsString) : Option ℕ :=
  (raw.bind fun raw => QuickConnect.nonempty (trim raw)).bind readPort

/-- The host and the port of `[address]:port` or `host:port`. -/
def parseJumpAddress (rest : JsString) : JsString × Option ℕ :=
  if rest.head? = some openBracket then
    let inner := rest.tail.takeWhile (· ≠ closeBracket)
    match rest.drop (inner.length + 1) with
    | [] => (rest, none)
    | _ :: portPart =>
      (inner, if portPart.head? = some QuickConnect.colon then readPort portPart.tail else none)
  else
    let portText := (rest.reverse.takeWhile (· ≠ QuickConnect.colon)).reverse
    if portText.length = rest.length then (rest, none)
    else
      match readPort portText with
      | some port => (rest.take (rest.length - portText.length - 1), some port)
      | none => (rest, none)

def parseJumpHostSpec (tools : ImportTools) (spec : JsString) : Option ParsedJumpHost :=
  let trimmed := trim spec
  if trimmed.isEmpty || tools.toLowerCase trimmed = text "none" then none
  else if (text "ssh://").isPrefixOf trimmed then
    (tools.parseUrl trimmed).map fun url =>
      ⟨url.hostname, QuickConnect.nonempty url.username,
        if url.port.isEmpty then none else (QuickConnect.parseInt url.port).map Int.toNat⟩
  else
    let user := trimmed.takeWhile (· ≠ QuickConnect.atSign)
    let named := user.length < trimmed.length
    let address := parseJumpAddress (if named then trimmed.drop (user.length + 1) else trimmed)
    if address.1.isEmpty then none else some ⟨address.1, if named then some user else none, address.2⟩

def looksLikeHostnameToken (tools : ImportTools) (token : JsString) : Bool :=
  (QuickConnect.parseQuickConnectInput tools.toLowerCase (trim token)).isSome

def canServeAsSshJumpHost (protocol : Option JsString) : Bool :=
  protocol.all fun protocol => protocol ∈ [text "ssh", text "mosh", text "et"]

end Netcatty.VaultImport
