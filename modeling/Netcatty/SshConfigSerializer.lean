import Netcatty.SshConfigBlocks

/-!
Hosts written as the Host blocks of an ssh_config text.
-/

namespace Netcatty.VaultImport

open KnownHosts (numberSign space)
open JsonText (quoteMark)

def hyphen : Fin 65536 := ⟨45, by decide⟩

/-- A text within the lines of a block. -/
def indented (keyword : String) (value : JsString) : JsString := text "    " ++ text keyword ++ [space] ++ value

def assertSafeSshConfigValue (value : JsString) (field : String) : Checked Unit :=
  ensure (!isUnsafeSshConfigValue value) (.error (text field ++ text " must not contain line breaks or null bytes."))

/-! ## Aliases and arguments -/

/-- `/["\\*?!,[\]@#]/`. -/
def isAliasMark (unit : Fin 65536) : Bool := unit.val ∈ [34, 92, 42, 63, 33, 44, 91, 93, 64, 35]

def encodedAliasStart : JsString := text "netcatty-encoded-"

def hexByte (byte : UInt8) : JsString := [JsonText.hexDigit (byte.toNat / 16), JsonText.hexDigit (byte.toNat % 16)]

/-- An alias without white space, encoded where it could be read as a pattern. -/
def encodeAlias (name : JsString) : JsString :=
  if name.head? = some hyphen || encodedAliasStart.isPrefixOf name || name.any isAliasMark then
    encodedAliasStart ++ (UnicodeText.encode name).flatMap hexByte
  else name

def toSafeSshHostAlias (label hostname : JsString) : Checked JsString := do
  assertSafeSshConfigValue label "Host label"
  assertSafeSshConfigValue hostname "Host hostname"
  let stripped := label.filter (!isWhiteSpace ·)
  let name := if stripped.isEmpty then hostname.filter (!isWhiteSpace ·) else stripped
  ensure (!name.isEmpty) (.error (text "Host alias must not be empty."))
  return encodeAlias name

def isArgumentMark (unit : Fin 65536) : Bool :=
  isWhiteSpace unit || unit = quoteMark || unit = backslash || unit = numberSign

def formatSshConfigArgument (value : JsString) : JsString :=
  if !value.any isArgumentMark then value
  else
    quoteMark :: ((value.flatMap fun unit =>
      if unit = backslash then [backslash, backslash] else if unit = quoteMark then [backslash, quoteMark]
      else [unit]) ++ [quoteMark])

/-! ## Jump hosts -/

def isIPv6 (hostname : JsString) : Bool :=
  (hostname.any (· = QuickConnect.colon)) && hostname.head? ≠ some openBracket

def separatorError (field : String) : JsError := .error (text field ++ text " contains SSH ProxyJump separator characters.")

def assertSafeProxyJumpHostname (value : JsString) : Checked Unit := do
  assertSafeSshConfigValue value "Jump host hostname"
  ensure (value.head? ≠ some hyphen && !value.any fun unit => isWhiteSpace unit || unit.val ∈ [44, 64, 35])
    (separatorError "Jump host hostname")

def assertSafeProxyJumpUsername (value : JsString) : Checked Unit := do
  assertSafeSshConfigValue value "Jump host username"
  ensure (value.head? ≠ some hyphen && !value.any fun unit => isWhiteSpace unit || unit.val ∈ [44, 35])
    (separatorError "Jump host username")

def portSuffix (host : Host) : JsString :=
  match host.port with
  | some port => if port = 0 || port = 22 then [] else text ":" ++ decimal port
  | none => []

def serializeJumpHost (host : Host) (managedHostIds : List JsString) : Checked JsString := do
  assertSafeSshConfigValue host.label "Jump host label"
  assertSafeSshConfigValue host.hostname "Jump host hostname"
  if host.username.isEmpty then pure () else assertSafeProxyJumpUsername host.username
  let user := if host.username.isEmpty then [] else host.username ++ [QuickConnect.atSign]
  let hostPart ←
    if host.id ∈ managedHostIds && !host.label.isEmpty then toSafeSshHostAlias host.label host.hostname
    else do
      assertSafeProxyJumpHostname host.hostname
      pure host.hostname
  return user ++ (if isIPv6 hostPart then openBracket :: (hostPart ++ [closeBracket]) else hostPart) ++ portSuffix host

def jumpHostsOf (host : Host) (allHosts : List Host) : List Host :=
  host.hops.filterMap (OrderedMap.ofList (allHosts.map fun host => (host.id, host))).get?

def buildProxyJumpValue (host : Host) (allHosts : List Host) (managedHostIds : List JsString) :
    Checked (Option JsString) := do
  let jumpParts ← (jumpHostsOf host allHosts).mapM (serializeJumpHost · managedHostIds)
  return if jumpParts.isEmpty then none else some ((text ",").intercalate jumpParts)

/-! ## Blocks -/

/-- Whether a block is written for the host. -/
def isSshHost (host : Host) : Bool := !truthy host.protocol || host.protocol = some (text "ssh")

def yesNo (value : Bool) : JsString := if value then text "yes" else text "no"

section Serialize

variable (toLowerCase : JsString → JsString)

def serializedIdentityAgent (host : Host) : Option JsString :=
  let socket := text "$\\x7bSSH_AUTH_SOCK\\x7d"
  if host.useSshAgent = some false then some (text "none")
  else if host.useSshAgent = some true && host.identityAgent.any (toLowerCase · = text "none") then some socket
  else if host.useSshAgent = some true && host.identityAgent.isNone &&
      !hasMacKeychainAgentDirectives toLowerCase host.addKeysToAgent host.useKeychain then some socket
  else host.identityAgent

def hostLines (host : Host) (allHosts : List Host) (managedHostIds : List JsString) : Checked (List JsString) := do
  assertSafeSshConfigValue host.label "Host label"
  assertSafeSshConfigValue host.hostname "Host hostname"
  assertSafeSshConfigValue host.username "Host username"
  let name ← toSafeSshHostAlias host.label host.hostname
  let identityFilePaths := host.identityFilePaths.getD []
  let _ ← identityFilePaths.forM fun keyPath => assertSafeSshConfigValue keyPath "IdentityFile path"
  let identityAgent := serializedIdentityAgent toLowerCase host
  let _ ← identityAgent.toList.forM fun agent => assertSafeSshConfigValue agent "IdentityAgent"
  let _ ← host.addKeysToAgent.toList.forM fun value => assertSafeSshConfigValue value "AddKeysToAgent"
  let proxyJumpValue ← buildProxyJumpValue host allHosts managedHostIds
  return [text "Host " ++ name] ++
    (if host.hostname = name then [] else [indented "HostName" (formatSshConfigArgument host.hostname)]) ++
    (if host.username.isEmpty then [] else [indented "User" (formatSshConfigArgument host.username)]) ++
    (host.port.toList.filter fun port => port ≠ 0 && port ≠ 22).map (fun port => indented "Port" (decimal port)) ++
    (if host.x11Forwarding = some true && host.moshEnabled ≠ some true then [text "    ForwardX11 yes"] else []) ++
    identityFilePaths.map (fun keyPath => indented "IdentityFile" (formatSshConfigArgument keyPath)) ++
    identityAgent.toList.map (fun agent => indented "IdentityAgent" (formatSshConfigArgument agent)) ++
    host.identitiesOnly.toList.map (fun value => indented "IdentitiesOnly" (yesNo value)) ++
    host.addKeysToAgent.toList.map (indented "AddKeysToAgent") ++
    host.useKeychain.toList.map (fun value => indented "UseKeychain" (yesNo value)) ++
    (proxyJumpValue.bind QuickConnect.nonempty).toList.map (indented "ProxyJump")

def serializeHostsToSshConfig (hosts : List Host) (allHosts : Option (List Host)) : Checked JsString := do
  let sshHosts := hosts.filter isSshHost
  let blocks ← sshHosts.mapM fun host => do
    let lines ← hostLines toLowerCase host (allHosts.getD hosts) (sshHosts.map Host.id)
    return [lineFeed].intercalate lines
  return (text "\n\n").intercalate blocks ++ [lineFeed]

end Serialize

end Netcatty.VaultImport
