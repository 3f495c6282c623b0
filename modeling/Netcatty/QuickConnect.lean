import Netcatty.JsText
import Netcatty.Numerals
import Netcatty.UnicodeText

/-!
Quick connect targets: `[user@]host[:port]`, login names with several `@`, and ssh commands.
-/

namespace Netcatty.QuickConnect

structure QuickConnectTarget where
  hostname : JsString
  username : Option JsString
  port : Option ℕ
  isJumpServerLogin : Bool
  deriving DecidableEq

/-- What a target is parsed to, with the parts of a command that were not understood. -/
structure QuickConnectParseResult where
  target : Option QuickConnectTarget
  warnings : List JsString
  deriving DecidableEq

def colon : Fin 65536 := UnicodeText.unit 58

def atSign : Fin 65536 := UnicodeText.unit 64

def isLetter (unit : Fin 65536) : Bool := 97 ≤ (asciiLower unit).val && (asciiLower unit).val ≤ 122

def isAlphanumeric (unit : Fin 65536) : Bool := isDigit unit || isLetter unit

/-- `[a-fA-F0-9:]`. -/
def isAddressUnit (unit : Fin 65536) : Bool :=
  isDigit unit || (97 ≤ (asciiLower unit).val && (asciiLower unit).val ≤ 102) || unit = colon

variable (source : JsString)

/-- `parseInt(text, 10)`, where `none` is `NaN`. -/
def parseInt : Option ℤ :=
  let trimmed := source.dropWhile isWhiteSpace
  let negative : Bool := trimmed.head?.any (·.val = 45)
  let signed : Bool := trimmed.head?.any fun unit => unit.val = 43 || unit.val = 45
  let digits := (if signed then trimmed.tail else trimmed).takeWhile isDigit
  if digits.isEmpty then none
  else some (if negative then -(parseDigits 10 digits : ℤ) else parseDigits 10 digits)

def nonempty (value : JsString) : Option JsString := if value.isEmpty then none else some value

/-- `/^\d{1,3}\.\d{1,3}\.\d{1,3}\.\d{1,3}$/`. -/
def isIPv4 (hostname : JsString) : Bool :=
  let parts := hostname.splitOnP (·.val = 46)
  parts.length = 4 && parts.all fun part => 1 ≤ part.length && part.length ≤ 3 && part.all isDigit

/-- A text without brackets at its ends. -/
def stripBrackets (hostname : JsString) : JsString :=
  let opened := if hostname.head? = some openBracket then hostname.tail else hostname
  if opened.getLast? = some closeBracket then opened.dropLast else opened

/-- `/^\[?[a-fA-F0-9:]+\]?$/`. -/
def isIPv6 (hostname : JsString) : Bool :=
  !(stripBrackets hostname).isEmpty && (stripBrackets hostname).all isAddressUnit

/-- A label of a domain name: letters, digits and hyphens, the latter not at its ends. -/
def isDomainLabel (label : JsString) : Bool :=
  label.head?.any isAlphanumeric && label.getLast?.any isAlphanumeric &&
    label.all fun unit => isAlphanumeric unit || unit.val = 45

def isDomain (hostname : JsString) : Bool := (hostname.splitOnP (·.val = 46)).all isDomainLabel

/-- An IPv6 address without brackets: shortened, or with all its groups. -/
def isBareIPv6 : Bool :=
  !source.isEmpty && source.all isAddressUnit &&
    ((source.zip source.tail).any (fun pair => pair.1 = colon && pair.2 = colon) || source.count colon = 7)

/-- `([^\s:]+|\[[^\]]+\])(?::(\d+))?` of a whole text: the host and the digits of the port. -/
def splitHostPort : Option (JsString × Option JsString) :=
  let plain := source.takeWhile fun unit => !isWhiteSpace unit && unit ≠ colon
  let readPort (host rest : JsString) : Option (JsString × Option JsString) :=
    match rest with
    | [] => some (host, none)
    | unit :: digits => if unit = colon && !digits.isEmpty && digits.all isDigit then some (host, some digits) else none
  let direct := if plain.isEmpty then none else readPort plain (source.drop plain.length)
  match direct with
  | some found => some found
  | none =>
    if source.head? ≠ some openBracket then none
    else
      let inner := source.tail.takeWhile (· ≠ closeBracket)
      match source.drop (inner.length + 1) with
      | [] => none
      | _ :: rest => if inner.isEmpty then none else readPort (openBracket :: (inner ++ [closeBracket])) rest

/-- What stands before the first `@`, unless it is empty, and what stands after it. -/
def splitUser : Option (JsString × JsString) :=
  let user := source.takeWhile (· ≠ atSign)
  if user.isEmpty || user.length = source.length then none else some (user, source.drop (user.length + 1))

/-- The main pattern of `parseDirectTarget`: user, host and port. -/
def matchTarget : Option (Option JsString × JsString × Option JsString) :=
  let named := (splitUser source).bind fun parts =>
    (splitHostPort parts.2).map fun found => (some parts.1, found.1, found.2)
  match named with
  | some found => some found
  | none => (splitHostPort source).map fun found => (none, found.1, found.2)

/-- `[user@]ipv6`. -/
def matchBareIPv6 : Option QuickConnectTarget :=
  let named := (splitUser source).bind fun parts => if isBareIPv6 parts.2 then some parts else none
  match named with
  | some parts => some ⟨parts.2, some parts.1, none, false⟩
  | none => if isBareIPv6 source then some ⟨source, none, none, false⟩ else none

variable (input : JsString)

def parseDirectTarget : Option QuickConnectTarget :=
  let trimmed := trim input
  if trimmed.isEmpty then none
  else
    match matchTarget trimmed with
    | none => matchBareIPv6 trimmed
    | some (username, hostname, digits) =>
      if !isIPv4 hostname && !isIPv6 hostname && !isDomain hostname then none
      else
        let port := digits.map (parseDigits 10)
        if port.any fun port => port < 1 || 65535 < port then none
        else some ⟨stripBrackets hostname, username, port, false⟩

/-- The login name of a token with one to three `@`. -/
def parseUsernameFromHostToken : Option JsString :=
  let segments := (trim input).splitOn atSign
  if segments.length < 2 || 4 < segments.length || segments.getLast? = some [] then none
  else if segments.dropLast.all fun segment => !segment.isEmpty && !segment.any isWhiteSpace then
    some ([atSign].intercalate segments.dropLast)
  else none

def parseJumpServerTarget : Option QuickConnectTarget :=
  let trimmed := trim input
  let atCount := trimmed.count atSign
  if atCount < 2 || 3 < atCount then none
  else
    match parseDirectTarget ((trimmed.splitOn atSign).getLastD []), parseUsernameFromHostToken trimmed with
    | some host, some username => some ⟨host.hostname, some username, host.port, true⟩
    | _, _ => none

def parseTargetWithCompositeUser : Option QuickConnectTarget :=
  (parseJumpServerTarget input).or (parseDirectTarget input)

/-! ## ssh commands -/

def sshArgOptions : List JsString :=
  ["-b", "-c", "-D", "-E", "-F", "-i", "-I", "-J", "-L", "-m", "-O", "-P", "-R", "-S", "-W", "-w"].map text

def parseSshOption (raw : JsString) (nextToken : Option JsString) : Option (JsString × JsString × Bool) :=
  let trimmed := trim raw
  if trimmed.isEmpty then none
  else
    let key := trim (trimmed.takeWhile (·.val ≠ 61))
    let value := trim ((trimmed.dropWhile (·.val ≠ 61)).drop 1)
    if !key.isEmpty && !value.isEmpty then some (key, value, false)
    else
      match nextToken with
      | none => none
      | some next => if next.isEmpty || next.head?.any (·.val = 45) then none else some (trimmed, next, true)

/-- What was read of a command so far. -/
structure SshArguments where
  warnings : List JsString
  username : Option JsString
  optionUsername : Option JsString
  port : Option ℤ
  optionPort : Option ℤ
  portInvalid : Bool
  optionHostname : Option JsString
  hostToken : Option JsString

variable (state : SshArguments)

def SshArguments.warn (warning : JsString) : SshArguments :=
  { state with warnings := state.warnings ++ [warning] }

def SshArguments.readPort (value : JsString) : SshArguments :=
  match parseInt value with
  | some port => { state with port := some port }
  | none => { state with port := none, portInvalid := true }

variable (toLowerCase : JsString → JsString)

/-- An `-o` option. -/
def SshArguments.readOption (state : SshArguments) (key value : JsString) :
    SshArguments :=
  if toLowerCase key = text "port" then
    match parseInt value with
    | some port => { state with optionPort := some port }
    | none => { state with portInvalid := true }
  else if toLowerCase key = text "user" then { state with optionUsername := some value }
  else if toLowerCase key = text "hostname" then { state with optionHostname := some value }
  else state.warn (text "-o " ++ key)

/-- A token that is no known option. -/
def SshArguments.readOther (token : JsString) : SshArguments :=
  if token.head?.any (·.val = 45) then state.warn token
  else if state.hostToken.isNone then { state with hostToken := some token }
  else state.warn token

/-- The value that an option and a token of two letters or more make: `-p22` or `-p=22`. -/
def attachedValue (token : JsString) : JsString :=
  let value := token.drop 2
  if value.head?.any (·.val = 61) then value.tail else value

/-- The loop of `parseSshCommand`, over what is left of the tokens. -/
def readTokens (toLowerCase : JsString → JsString) : ℕ → SshArguments → List JsString → SshArguments
  | 0, state, _ => state
  | _ + 1, state, [] => state
  | fuel + 1, state, token :: rest =>
    if token = text "-p" then
      match rest with
      | [] => state
      | value :: rest => readTokens toLowerCase fuel (state.readPort value) rest
    else if (text "-p").isPrefixOf token then
      let value := attachedValue token
      readTokens toLowerCase fuel (if value.isEmpty then state else state.readPort value) rest
    else if token = text "-l" then
      match rest with
      | [] => state
      | value :: rest => readTokens toLowerCase fuel { state with username := some value } rest
    else if (text "-l").isPrefixOf token then
      let value := attachedValue token
      readTokens toLowerCase fuel (if value.isEmpty then state else { state with username := some value }) rest
    else if token = text "-o" then
      match rest with
      | [] => state
      | option :: rest =>
        match parseSshOption option rest.head? with
        | some (key, value, consumedNext) =>
          readTokens toLowerCase fuel (state.readOption toLowerCase key value) (if consumedNext then rest.tail else rest)
        | none => readTokens toLowerCase fuel (state.warn (text "-o")) rest
    else if (text "-o").isPrefixOf token then
      match parseSshOption (token.drop 2) rest.head? with
      | some (key, value, consumedNext) =>
        readTokens toLowerCase fuel (state.readOption toLowerCase key value) (if consumedNext then rest.tail else rest)
      | none => readTokens toLowerCase fuel ((state.warn (text "-o")).readOther token) rest
    else if token ∈ sshArgOptions then readTokens toLowerCase fuel (state.warn token) rest.tail
    else readTokens toLowerCase fuel (state.readOther token) rest

/-- `split(/\s+/)` of a text without white space at its ends. -/
def words : List JsString := (source.splitOnP isWhiteSpace).filter (!·.isEmpty)

/-- The host a command names: its token, or the `HostName` option. -/
def commandTarget (hostToken : JsString) : Option QuickConnectTarget :=
  let hostTokenTarget := parseTargetWithCompositeUser hostToken
  match state.optionHostname.bind nonempty with
  | none => hostTokenTarget
  | some optionHostname =>
    let atCount := hostToken.count atSign
    let composite := 2 ≤ atCount && atCount ≤ 3 && (parseUsernameFromHostToken hostToken).any (!·.isEmpty)
    (parseDirectTarget optionHostname).map fun target =>
      { target with
        username := ((hostTokenTarget.bind (·.username)).or (parseUsernameFromHostToken hostToken)).or target.username
        isJumpServerLogin := target.isJumpServerLogin || composite }

/-- `parseSshCommand`, where the outer `none` means that the text is no command. -/
def parseSshCommand (input : JsString) : Option QuickConnectParseResult :=
  let trimmed := trim input
  let isCommand := (trimmed.take 3).map asciiLower = text "ssh" && (trimmed[3]?.all isWhiteSpace)
  let tokens := words trimmed
  if !isCommand || tokens.length < 2 then none
  else
    let state := readTokens toLowerCase tokens.length ⟨[], none, none, none, none, false, none, none⟩ tokens.tail
    match state.hostToken with
    | none => none
    | some hostToken =>
      match commandTarget state hostToken with
      | none => none
      | some base =>
        let resolvedPort := (state.port.or state.optionPort).or (base.port.map Int.ofNat)
        if state.portInvalid || resolvedPort.any fun port => port < 1 || 65535 < port then none
        else some {
          target := some {
            hostname := base.hostname
            username := (state.optionUsername.or state.username).or base.username
            port := resolvedPort.map Int.toNat
            isJumpServerLogin := base.isJumpServerLogin && state.optionUsername.isNone && state.username.isNone }
          warnings := state.warnings.eraseDups }

def parseQuickConnectInputWithWarnings (input : JsString) :
    QuickConnectParseResult :=
  let trimmed := trim input
  if trimmed.isEmpty then ⟨none, []⟩
  else
    match parseSshCommand toLowerCase trimmed with
    | some result => result
    | none => ⟨parseTargetWithCompositeUser trimmed, []⟩

def parseQuickConnectInput (input : JsString) : Option QuickConnectTarget :=
  (parseQuickConnectInputWithWarnings toLowerCase input).target

end Netcatty.QuickConnect
