import Netcatty.PairedLists
import Netcatty.SshConfigArguments
import Netcatty.SshConfigMerge

/-!
The blocks that are read from what is written for hosts.

Every line that is written is one directive, and reading it sets one field of its block.  So the
text of hosts whose values need no escape is read as one block a host (`configBlocks_serialized`).
-/

namespace Netcatty.VaultImport

open List Option

open KnownHosts (numberSign space IsWord)
open JsonText (quoteMark)

/-! ## Lines -/

def IsLine (s : JsString) : Prop := ∀ unit ∈ s, unit = space ∨ isWhiteSpace unit = false

section Lines

variable {s t : JsString}

theorem IsLine.append (first : IsLine s) (second : IsLine t) : IsLine (s ++ t) :=
  fun unit mem => (mem_append.mp mem).elim (first unit) (second unit)

theorem isLine_solid (solid : ∀ unit ∈ s, isWhiteSpace unit = false) : IsLine s := fun unit mem => .inr (solid unit mem)

theorem IsSpaced.isLine (spaced : IsSpaced s) : IsLine s := by
  intro unit mem
  rw [IsSpaced] at spaced
  rw [← spaced] at mem
  refine (KnownHosts.mem_intercalate mem).imp_right ?_
  rintro ⟨word, held, mem⟩
  exact (isWord_of_mem_words held).solid unit mem

theorem IsLine.unbroken (line : IsLine s) : lineFeed ∉ s ∧ carriageReturn ∉ s := by
  refine ⟨fun mem => ?_, fun mem => ?_⟩
  · exact (line _ mem).elim (by decide) (by decide)
  · exact (line _ mem).elim (by decide) (by decide)

/-- Lines are cut where they were joined. -/
theorem splitLines_joinLines {line : JsString} {lines : List JsString} (all : ∀ other ∈ line :: lines, IsLine other)
    (rest : JsString) :
    PtyExec.splitLines (joinLines (line :: lines) ++ lineFeed :: rest) = line :: lines ++ PtyExec.splitLines rest := by
  have broken {line : JsString} (isLine : IsLine line) (rest : JsString) :
      PtyExec.splitLines (line ++ lineFeed :: rest) = line :: PtyExec.splitLines rest :=
    PtyExec.splitLines_broken rest isLine.unbroken.1 isLine.unbroken.2 (.inl rfl)
  induction lines generalizing line with
  | nil =>
    rw [joinLines, intercalate_singleton, broken (all line mem_cons_self)]
    rfl
  | cons next lines ih =>
    have later := ih fun other mem => all other (mem_cons_of_mem _ mem)
    rw [joinLines] at later ⊢
    rw [intercalate_cons_cons, append_assoc, append_assoc, singleton_append,
      broken (all line mem_cons_self), later]
    rfl

theorem foldl_splitLines {α : Type} {step : α → JsString → α} (skip : ∀ state, step state [] = state)
    {blocks : List (List JsString)} (all : ∀ block ∈ blocks, block ≠ [] ∧ ∀ line ∈ block, IsLine line) (state : α) :
    (PtyExec.splitLines (joinBlocks (blocks.map joinLines) ++ [lineFeed])).foldl step state =
      blocks.flatten.foldl step state := by
  induction blocks generalizing state with
  | nil =>
    change step (step state []) [] = state
    rw [skip, skip]
  | cons block blocks ih =>
    obtain ⟨filled, isLine⟩ := all block mem_cons_self
    obtain ⟨line, lines, rfl⟩ := exists_cons_of_ne_nil filled
    rw [flatten_cons, foldl_append]
    cases blocks with
    | nil =>
      rw [map_singleton, joinBlocks, intercalate_singleton, splitLines_joinLines isLine, foldl_append]
      exact skip _
    | cons next blocks =>
      have later := ih (fun other mem => all other (mem_cons_of_mem _ mem)) ((line :: lines).foldl step state)
      have feed (rest : JsString) : PtyExec.splitLines (lineFeed :: rest) = [] :: PtyExec.splitLines rest :=
        PtyExec.splitLines_broken rest not_mem_nil not_mem_nil (.inl rfl)
      rw [map_cons, joinBlocks] at later ⊢
      rw [map_cons, intercalate_cons_cons, append_assoc, append_assoc, cons_append,
        splitLines_joinLines isLine, singleton_append, feed, foldl_append, foldl_cons, skip]
      exact later

end Lines

/-! ## Directives -/

def IsKeyword (written keyword : String) : Prop :=
  (text written).all (fun unit => !isWhiteSpace unit && unit ≠ numberSign && unit.val < 128) = true ∧
    text written ≠ [] ∧ (text written).map asciiLower = text keyword ∧
    text keyword ≠ [] ∧ text keyword ≠ text "host" ∧ text keyword ≠ text "match"

instance (written keyword : String) : Decidable (IsKeyword written keyword) := by
  unfold IsKeyword
  infer_instance

/-- A line of a block, without the blanks in front. -/
theorem configTokens_line {word : JsString} (isWord : IsWord word) (comment : numberSign ∉ word) (argument : JsString) :
    configTokens (word ++ space :: argument) = word :: QuickConnect.words (stripComment argument) := by
  have blank : stripComment (space :: argument) = space :: stripComment argument := by
    have single : numberSign ∉ [space] := by decide
    exact stripComment_append single argument
  rw [configTokens, words_trim, stripComment_append comment, blank, words_append_cons KnownHosts.space_blank,
    words_solid isWord]
  rfl

section Directives

variable (tools : ImportTools)

def readValue (keyword : String) (block : SshConfigBlock) (argument : JsString) : SshConfigBlock :=
  if readArgument argument = [] then block
  else readDirective tools.toLowerCase block (text keyword) (readArgument argument)

variable {tools}

section

variable {written keyword : String} (isKeyword : IsKeyword written keyword)

include isKeyword

theorem IsKeyword.isWord : IsWord (text written) ∧ numberSign ∉ text written := by
  obtain ⟨all, filled, -⟩ := isKeyword
  have each (unit : Fin 65536) (mem : unit ∈ text written) : isWhiteSpace unit = false ∧ unit ≠ numberSign := by
    have held := List.all_eq_true.mp all unit mem
    simp only [Bool.and_eq_true, Bool.not_eq_true', decide_eq_true_eq] at held
    exact held.1
  exact ⟨⟨filled, fun unit mem => (each unit mem).1⟩, fun mem => (each _ mem).2 rfl⟩

theorem IsKeyword.lower : tools.toLowerCase (text written) = text keyword := by
  obtain ⟨all, -, same, -⟩ := isKeyword
  rw [tools.ascii _ ?_, same]
  refine List.all_eq_true.mpr fun unit mem => ?_
  have held := List.all_eq_true.mp all unit mem
  rw [Bool.and_eq_true] at held
  exact held.2

theorem readConfigLine_indented
    (blocks : List SshConfigBlock) (block : SshConfigBlock) (argument : JsString) :
    readConfigLine tools.toLowerCase ⟨blocks, some block⟩ (indented written argument) =
      ⟨blocks, some (readValue tools keyword block argument)⟩ := by
  have tokens : configTokens (indented written argument) =
      text written :: QuickConnect.words (stripComment argument) := by
    have blanks : KnownHosts.IsBlank (text "    ") := by
      intro unit mem
      have all : (text "    ").all isWhiteSpace = true := by decide
      exact List.all_eq_true.mp all unit mem
    have plain : numberSign ∉ text "    " := by decide
    have line := configTokens_line isKeyword.isWord.1 isKeyword.isWord.2 argument
    rw [configTokens, words_trim] at line ⊢
    rw [indented, append_assoc, append_assoc, stripComment_append plain, words_blank_append blanks]
    exact line
  have lower : tools.toLowerCase (text written) = text keyword := isKeyword.lower
  obtain ⟨-, -, -, filled, host, match_⟩ := isKeyword
  have nonempty : (text keyword).isEmpty = false := isEmpty_eq_false_iff.mpr filled
  unfold readConfigLine
  rw [tokens]
  dsimp only
  rw [lower, nonempty, if_neg Bool.false_ne_true, if_neg host, if_neg match_]
  unfold readValue readArgument
  split
  · rename_i empty
    rw [if_pos (List.isEmpty_iff.mp empty)]
  · rename_i some_
    rw [if_neg fun empty => some_ (List.isEmpty_iff.mpr empty)]

theorem foldl_indented (blocks : List SshConfigBlock)
    (arguments : List JsString) (block : SshConfigBlock) :
    (arguments.map (indented written)).foldl (readConfigLine tools.toLowerCase) ⟨blocks, some block⟩ =
      ⟨blocks, some (arguments.foldl (readValue tools keyword) block)⟩ := by
  induction arguments generalizing block with
  | nil => rfl
  | cons argument arguments ih =>
    rw [map_cons, foldl_cons, foldl_cons, readConfigLine_indented isKeyword]
    exact ih _

end

/-! ## Blocks -/

def writtenPort (host : Host) : Option ℕ := host.port.filter fun port => port ≠ 0 && port ≠ 22

/-- What a host asks of its block: that no argument needs an escape. -/
structure Writable (toLowerCase : JsString → JsString) (host : Host) : Prop where
  hostname : host.hostname ≠ [] ∧ IsPlain host.hostname
  username : IsPlain host.username
  port : ∀ port ∈ host.port, port ≤ 65535
  paths : ∀ path ∈ host.identityFilePaths.getD [], IsPath path
  agent : ∀ agent ∈ serializedIdentityAgent toLowerCase host, IsPath agent
  keys : ∀ value ∈ host.addKeysToAgent, value ≠ [] ∧ IsSpaced value ∧ numberSign ∉ value

def blockOf (tools : ImportTools) (host : Host) (name : JsString) (proxyJump : Option JsString) : SshConfigBlock where
  patterns := [name]
  hostname := if host.hostname = name then none else some host.hostname
  username := QuickConnect.nonempty host.username
  port := writtenPort host
  proxyJump := proxyJump
  identityFiles := if host.identityFilePaths.getD [] = [] then none else host.identityFilePaths
  identityAgent := serializedIdentityAgent tools.toLowerCase host
  identitiesOnly := host.identitiesOnly
  addKeysToAgent := host.addKeysToAgent.map tools.toLowerCase
  useKeychain := host.useKeychain
  forwardX11 := if host.x11Forwarding = some true && host.moshEnabled ≠ some true then some true else none

theorem parsePort_decimal {port : ℕ} (positive : 0 < port) (small : port ≤ 65535) :
    parsePort (some (decimal port)) = some port := by
  have digits : ∀ unit ∈ decimal port, isDigit unit = true := fun unit mem => mem_decimal_isDigit mem
  have solid : ∀ unit ∈ decimal port, isWhiteSpace unit = false := fun unit mem => isWhiteSpace_digit (digits unit mem)
  have word : IsWord (decimal port) := ⟨decimal_ne_nil port, solid⟩
  have parsed : QuickConnect.parseInt (decimal port) = some (port : ℤ) := by
    obtain ⟨first, rest, cut⟩ := exists_cons_of_ne_nil (decimal_ne_nil port)
    have digit := digits first (cut ▸ mem_cons_self)
    have range : 48 ≤ first.val ∧ first.val ≤ 57 := by
      simpa only [isDigit, Bool.and_eq_true, decide_eq_true_eq] using digit
    have trimmed : (decimal port).dropWhile isWhiteSpace = decimal port := by
      rw [cut, dropWhile_cons_of_neg]
      rw [isWhiteSpace_digit digit]
      exact Bool.false_ne_true
    have unsigned : ((decimal port).head?.any fun unit => unit.val = 43 || unit.val = 45) = false := by
      rw [cut, head?_cons, any_some, Bool.or_eq_false_iff, decide_eq_false_iff_not, decide_eq_false_iff_not]
      omega
    have positive_ : ((decimal port).head?.any (·.val = 45)) = false := by
      rw [cut, head?_cons, any_some, decide_eq_false_iff_not]
      omega
    have all : (decimal port).takeWhile isDigit = decimal port := takeWhile_eq_self_iff.mpr digits
    have filled : (decimal port).isEmpty = false := isEmpty_eq_false_iff.mpr (decimal_ne_nil port)
    unfold QuickConnect.parseInt
    dsimp only
    rw [trimmed, unsigned, positive_, if_neg Bool.false_ne_true, all, filled, if_neg Bool.false_ne_true,
      parseDigits_decimal, if_neg Bool.false_ne_true]
  have nonempty : QuickConnect.nonempty (decimal port) = some (decimal port) := by
    rw [QuickConnect.nonempty, isEmpty_eq_false_iff.mpr (decimal_ne_nil port)]
    rfl
  unfold parsePort readPort
  rw [bind_some, word.trimmed.trim_eq, nonempty, bind_some, parsed]
  dsimp only
  rw [if_pos (by rw [Bool.and_eq_true, decide_eq_true_eq, decide_eq_true_eq]; omega)]
  rfl

/-- The directives of a block: what is written, what is read, and the arguments. -/
def directives (toLowerCase : JsString → JsString) (host : Host) (name : JsString) (proxyJump : Option JsString) :
    List (String × String × List JsString) :=
  [("HostName", "hostname",
      (if host.hostname = name then none else some host.hostname).toList.map formatSshConfigArgument),
    ("User", "user", (QuickConnect.nonempty host.username).toList.map formatSshConfigArgument),
    ("Port", "port", (writtenPort host).toList.map decimal),
    ("ForwardX11", "forwardx11",
      (if host.x11Forwarding = some true && host.moshEnabled ≠ some true then some true else none).toList.map yesNo),
    ("IdentityFile", "identityfile", (host.identityFilePaths.getD []).map formatSshConfigArgument),
    ("IdentityAgent", "identityagent",
      (serializedIdentityAgent toLowerCase host).toList.map formatSshConfigArgument),
    ("IdentitiesOnly", "identitiesonly", host.identitiesOnly.toList.map yesNo),
    ("AddKeysToAgent", "addkeystoagent", host.addKeysToAgent.toList.map fun value => value),
    ("UseKeychain", "usekeychain", host.useKeychain.toList.map yesNo),
    ("ProxyJump", "proxyjump", proxyJump.toList.map fun value => value)]

theorem isKeyword_directives {toLowerCase : JsString → JsString} {host : Host} {name : JsString}
    {proxyJump : Option JsString} :
    ∀ directive ∈ directives toLowerCase host name proxyJump, IsKeyword directive.1 directive.2.1 := by
  simp only [directives, forall_mem_cons]
  exact ⟨by decide, by decide, by decide, by decide, by decide, by decide, by decide, by decide, by decide, by decide,
    fun _ mem => (not_mem_nil mem).elim⟩

variable {value : JsString}

theorem isUnsafe_eq_false : isUnsafeSshConfigValue value = false ↔
    ∀ unit ∈ value, unit ≠ carriageReturn ∧ unit ≠ lineFeed ∧ unit.val ≠ 0 := by
  simp only [isUnsafeSshConfigValue, List.any_eq_false, Bool.or_eq_true, decide_eq_true_eq, not_or, and_assoc]

theorem asserted_safe {field : String} (asserted : assertSafeSshConfigValue value field = .ok ()) :
    isUnsafeSshConfigValue value = false := by
  rw [assertSafeSshConfigValue, ensure_eq_ok, Bool.not_eq_true'] at asserted
  exact asserted

theorem hostLines_eq {toLowerCase : JsString → JsString} {host : Host} {allHosts : List Host}
    {managedHostIds lines : List JsString} (written : hostLines toLowerCase host allHosts managedHostIds = .ok lines) :
    ∃ name value, toSafeSshHostAlias host.label host.hostname = .ok name ∧
      buildProxyJumpValue host allHosts managedHostIds = .ok value ∧ isUnsafeSshConfigValue host.hostname = false ∧
      isUnsafeSshConfigValue host.username = false ∧
      lines = (text "Host " ++ name) ::
        (directives toLowerCase host name (value.bind QuickConnect.nonempty)).flatMap fun directive =>
          directive.2.2.map (indented directive.1) := by
  unfold hostLines at written
  rw [check_bind_eq_ok, check_bind_eq_ok, check_bind_eq_ok, bind_eq_ok] at written
  obtain ⟨-, hostname, username, name, named, written⟩ := written
  dsimp only at written
  rw [check_bind_eq_ok, check_bind_eq_ok, check_bind_eq_ok, bind_eq_ok] at written
  obtain ⟨-, -, -, value, jumps, written⟩ := written
  cases written
  refine ⟨name, value, named, jumps, asserted_safe hostname, asserted_safe username, ?_⟩
  have hostnameLine : (if host.hostname = name then []
      else [indented "HostName" (formatSshConfigArgument host.hostname)]) =
      ((if host.hostname = name then none else some host.hostname).toList.map formatSshConfigArgument).map
        (indented "HostName") := by
    split
    · rfl
    · rfl
  have userLine : (if host.username.isEmpty then []
      else [indented "User" (formatSshConfigArgument host.username)]) =
      ((QuickConnect.nonempty host.username).toList.map formatSshConfigArgument).map (indented "User") := by
    unfold QuickConnect.nonempty
    split
    · rfl
    · rfl
  have portLine : (host.port.toList.filter fun port => port ≠ 0 && port ≠ 22).map
      (fun port => indented "Port" (decimal port)) = ((writtenPort host).toList.map decimal).map (indented "Port") := by
    rw [writtenPort, toList_filter, List.map_map]
    rfl
  have forwardLine : (if host.x11Forwarding = some true && host.moshEnabled ≠ some true then [text "    ForwardX11 yes"]
      else []) = ((if host.x11Forwarding = some true && host.moshEnabled ≠ some true then some true
        else none).toList.map yesNo).map (indented "ForwardX11") := by
    split
    · rfl
    · rfl
  rw [hostnameLine, userLine, portLine, forwardLine]
  simp only [directives, flatMap_cons, flatMap_nil, append_nil, List.map_map, append_assoc,
    cons_append, nil_append, List.map_id', Function.comp_def]

theorem readValue_eq {keyword : String} {argument value : JsString} (block : SshConfigBlock)
    (read : readArgument argument = value) (filled : value ≠ []) :
    readValue tools keyword block argument = readDirective tools.toLowerCase block (text keyword) value := by
  rw [readValue, read, if_neg filled]

/-- A directive that is written at most once. -/
theorem foldl_option {α : Type} {keyword : String} {written : α → JsString} (put : Option α → SshConfigBlock)
    (argument : Option α) (reads : ∀ a ∈ argument, readValue tools keyword (put none) (written a) = put (some a)) :
    (argument.toList.map written).foldl (readValue tools keyword) (put none) = put argument := by
  cases argument with
  | none => rfl
  | some a => exact reads a rfl

theorem readArgument_yesNo (value : Bool) : readArgument (yesNo value) = yesNo value ∧ yesNo value ≠ [] := by
  cases value
  · exact ⟨by decide, by decide⟩
  · exact ⟨by decide, by decide⟩

theorem isYes_yesNo (value : Bool) : decide (tools.toLowerCase (yesNo value) = text "yes") = value := by
  have lower : tools.toLowerCase (yesNo value) = yesNo value := by
    cases value
    · exact (tools.ascii _ (by decide)).trans (by decide)
    · exact (tools.ascii _ (by decide)).trans (by decide)
  rw [lower]
  cases value
  · decide
  · decide

theorem readArgument_decimal (port : ℕ) : readArgument (decimal port) = decimal port := by
  have digits : ∀ unit ∈ decimal port, isDigit unit = true := fun unit mem => mem_decimal_isDigit mem
  refine readArgument_of_spaced (isSpaced_solid fun unit mem => isWhiteSpace_digit (digits unit mem)) fun mem => ?_
  exact absurd (digits _ mem) (by decide)

theorem foldl_paths (paths : List JsString) (isPath : ∀ path ∈ paths, IsPath path) (block : SshConfigBlock) :
    (paths.map formatSshConfigArgument).foldl (readValue tools "identityfile") block =
      { block with
        identityFiles := if paths = [] then block.identityFiles else some (block.identityFiles.getD [] ++ paths) } := by
  induction paths generalizing block with
  | nil => rfl
  | cons path paths ih =>
    obtain ⟨filled, stripped⟩ := stripQuotes_readArgument (isPath path mem_cons_self)
    have first : readValue tools "identityfile" block (formatSshConfigArgument path) =
        { block with identityFiles := some (block.identityFiles.getD [] ++ [path]) } := by
      rw [readValue, if_neg filled]
      conv_rhs => rw [← stripped]
      rfl
    rw [map_cons, foldl_cons, first, ih fun other mem => isPath other (mem_cons_of_mem _ mem),
      if_neg (cons_ne_nil path paths)]
    dsimp only
    rw [getD_some, append_assoc, singleton_append]
    by_cases last : paths = []
    · rw [if_pos last, last]
    · rw [if_neg last]

variable {host : Host}

theorem foldl_directives (writable : Writable tools.toLowerCase host) {name : JsString}
    {proxyJump : Option JsString} (jumps : ∀ value ∈ proxyJump, value ≠ [] ∧ readArgument value = value) :
    (directives tools.toLowerCase host name proxyJump).foldl
        (fun block directive => directive.2.2.foldl (readValue tools directive.2.1) block) (.start [name]) =
      blockOf tools host name proxyJump := by
  have argument {keyword : String} {value : JsString} (plain : IsPlain value) (filled : value ≠ [])
      (block : SshConfigBlock) : readValue tools keyword block (formatSshConfigArgument value) =
        readDirective tools.toLowerCase block (text keyword) value :=
    readValue_eq block (readArgument_plain plain) filled
  have flag {keyword : String} (put : Option Bool → SshConfigBlock) (value : Option Bool)
      (sets : ∀ value, readDirective tools.toLowerCase (put none) (text keyword) (yesNo value) =
        put (some (decide (tools.toLowerCase (yesNo value) = text "yes")))) :
      (value.toList.map yesNo).foldl (readValue tools keyword) (put none) = put value :=
    foldl_option put value fun value _ =>
      (readValue_eq _ (readArgument_yesNo value).1 (readArgument_yesNo value).2).trans
        ((sets value).trans (by rw [isYes_yesNo]))
  have hostname (value : JsString) (mem : value ∈ if host.hostname = name then none else some host.hostname) :
      IsPlain value ∧ value ≠ [] := by
    split at mem
    · cases mem
    · exact some_inj.mp mem ▸ writable.hostname.symm
  have username (value : JsString) (mem : value ∈ QuickConnect.nonempty host.username) : IsPlain value ∧ value ≠ [] := by
    rw [QuickConnect.nonempty] at mem
    split at mem
    · cases mem
    · rename_i filled
      exact some_inj.mp mem ▸ ⟨writable.username, fun empty => filled (List.isEmpty_iff.mpr empty)⟩
  have port (port : ℕ) (mem : port ∈ writtenPort host) (block : SshConfigBlock) :
      readValue tools "port" block (decimal port) = { block with port := some port } := by
    obtain ⟨own, other⟩ := filter_eq_some_iff.mp mem
    rw [Bool.and_eq_true, decide_eq_true_eq] at other
    rw [readValue_eq block (readArgument_decimal port) (decimal_ne_nil port),
      ← parsePort_decimal (Nat.pos_of_ne_zero other.1) (writable.port port own)]
    rfl
  have agent (agent : JsString) (mem : agent ∈ serializedIdentityAgent tools.toLowerCase host) (block : SshConfigBlock) :
      readValue tools "identityagent" block (formatSshConfigArgument agent) =
        { block with identityAgent := some agent } := by
    obtain ⟨filled, stripped⟩ := stripQuotes_readArgument (writable.agent agent mem)
    rw [readValue, if_neg filled]
    conv_rhs => rw [← stripped]
    rfl
  unfold blockOf directives
  simp only [foldl_cons, foldl_nil]
  generalize (if host.hostname = name then none else some host.hostname) = hostname_ at hostname
  generalize QuickConnect.nonempty host.username = username_ at username
  generalize writtenPort host = port_ at port
  generalize (if host.x11Forwarding = some true && host.moshEnabled ≠ some true then some true else none) = forwarded
  generalize serializedIdentityAgent tools.toLowerCase host = agent_ at agent
  rw [SshConfigBlock.start,
    foldl_option (fun value => ⟨[name], value, none, none, none, none, none, none, none, none, none⟩) hostname_
      fun value mem => argument (hostname value mem).1 (hostname value mem).2 _,
    foldl_option (fun value => ⟨[name], hostname_, value, none, none, none, none, none, none, none, none⟩) username_
      fun value mem => argument (username value mem).1 (username value mem).2 _,
    foldl_option (fun value => ⟨[name], hostname_, username_, value, none, none, none, none, none, none, none⟩) port_
      fun value mem => port value mem _,
    flag (fun value => ⟨[name], hostname_, username_, port_, none, none, none, none, none, none, value⟩) forwarded
      fun _ => rfl,
    foldl_paths _ writable.paths]
  dsimp only
  generalize files_ : (if host.identityFilePaths.getD [] = [] then none
    else some ((none : Option (List JsString)).getD [] ++ host.identityFilePaths.getD [])) = files
  have same : (if host.identityFilePaths.getD [] = [] then none else host.identityFilePaths) = files := by
    rw [← files_]
    cases host.identityFilePaths with
    | none => rfl
    | some paths => rfl
  rw [same,
    foldl_option (fun value => ⟨[name], hostname_, username_, port_, none, files, value, none, none, none, forwarded⟩)
      agent_ fun value mem => agent value mem _,
    flag (fun value => ⟨[name], hostname_, username_, port_, none, files, agent_, value, none, none, forwarded⟩)
      host.identitiesOnly fun _ => rfl]
  have keys : (host.addKeysToAgent.toList.map fun value => value).foldl (readValue tools "addkeystoagent")
      ⟨[name], hostname_, username_, port_, none, files, agent_, host.identitiesOnly, none, none, forwarded⟩ =
      ⟨[name], hostname_, username_, port_, none, files, agent_, host.identitiesOnly,
        host.addKeysToAgent.map tools.toLowerCase, none, forwarded⟩ := by
    cases value_ : host.addKeysToAgent with
    | none => rfl
    | some value =>
      obtain ⟨filled, spaced, comment⟩ := writable.keys value value_
      exact readValue_eq _ (readArgument_of_spaced spaced comment) filled
  rw [keys,
    flag (fun value => ⟨[name], hostname_, username_, port_, none, files, agent_, host.identitiesOnly,
      host.addKeysToAgent.map tools.toLowerCase, value, forwarded⟩) host.useKeychain fun _ => rfl,
    foldl_option (fun value => ⟨[name], hostname_, username_, port_, value, files, agent_, host.identitiesOnly,
      host.addKeysToAgent.map tools.toLowerCase, host.useKeychain, forwarded⟩) proxyJump
      fun value mem => readValue_eq _ (jumps value mem).2 (jumps value mem).1]

/-- A name of a Host line that is no pattern. -/
structure IsName (name : JsString) : Prop where
  isWord : IsWord name
  marks : ∀ unit ∈ name, isAliasMark unit = false
  safe : isUnsafeSshConfigValue name = false

theorem hexDigit_isName : ∀ n < 16, isWhiteSpace (JsonText.hexDigit n) = false ∧
    isAliasMark (JsonText.hexDigit n) = false ∧ 48 ≤ (JsonText.hexDigit n).val := by
  decide

theorem isName_encoded (name : JsString) : IsName (encodedAliasStart ++ (UnicodeText.encode name).flatMap hexByte) := by
  have start : encodedAliasStart.all (fun unit => !isWhiteSpace unit && !isAliasMark unit && 45 ≤ unit.val) = true := by
    decide
  have each (unit : Fin 65536) (mem : unit ∈ encodedAliasStart ++ (UnicodeText.encode name).flatMap hexByte) :
      isWhiteSpace unit = false ∧ isAliasMark unit = false ∧ 45 ≤ unit.val := by
    rcases mem_append.mp mem with mem | mem
    · have held := List.all_eq_true.mp start unit mem
      simp only [Bool.and_eq_true, Bool.not_eq_true', decide_eq_true_eq] at held
      exact ⟨held.1.1, held.1.2, held.2⟩
    · obtain ⟨byte, -, mem⟩ := mem_flatMap.mp mem
      have small : byte.toNat < 256 := byte.toNat_lt
      have digit (n : ℕ) (digit : n < 16) : isWhiteSpace (JsonText.hexDigit n) = false ∧
          isAliasMark (JsonText.hexDigit n) = false ∧ 45 ≤ (JsonText.hexDigit n).val := by
        obtain ⟨solid, mark, large⟩ := hexDigit_isName n digit
        exact ⟨solid, mark, by omega⟩
      simp only [hexByte, mem_cons, not_mem_nil, or_false] at mem
      rcases mem with rfl | rfl
      · exact digit _ (by omega)
      · exact digit _ (by omega)
  refine ⟨⟨append_ne_nil_of_left_ne_nil (by decide) _, fun unit mem => (each unit mem).1⟩,
    fun unit mem => (each unit mem).2.1, isUnsafe_eq_false.mpr fun unit mem => ?_⟩
  have large := (each unit mem).2.2
  refine ⟨fun same => ?_, fun same => ?_, by omega⟩
  · rw [same] at large
    exact absurd large (by decide)
  · rw [same] at large
    exact absurd large (by decide)

theorem isName_alias {label hostname name : JsString} (named : toSafeSshHostAlias label hostname = .ok name) :
    IsName name := by
  unfold toSafeSshHostAlias at named
  rw [check_bind_eq_ok, check_bind_eq_ok] at named
  obtain ⟨labelSafe, hostnameSafe, named⟩ := named
  dsimp only at named
  rw [check_bind_eq_ok, ensure_eq_ok] at named
  obtain ⟨filled, named⟩ := named
  cases named
  have part {value : JsString} {field : String} (asserted : assertSafeSshConfigValue value field = .ok ()) :
      ∀ unit ∈ value.filter (!isWhiteSpace ·), isWhiteSpace unit = false ∧ unit.val ≠ 0 := by
    intro unit mem
    obtain ⟨mem, solid⟩ := mem_filter.mp mem
    exact ⟨Bool.not_eq_true' _ ▸ solid, (isUnsafe_eq_false.mp (asserted_safe asserted) unit mem).2.2⟩
  have each : ∀ unit ∈ (if (label.filter (!isWhiteSpace ·)).isEmpty then hostname.filter (!isWhiteSpace ·)
      else label.filter (!isWhiteSpace ·)), isWhiteSpace unit = false ∧ unit.val ≠ 0 := by
    split
    · exact part hostnameSafe
    · exact part labelSafe
  generalize (if (label.filter (!isWhiteSpace ·)).isEmpty then hostname.filter (!isWhiteSpace ·)
    else label.filter (!isWhiteSpace ·)) = name at filled each
  unfold encodeAlias
  split
  · exact isName_encoded name
  · rename_i plain
    simp only [Bool.or_eq_true, not_or, Bool.not_eq_true, List.any_eq_false] at plain
    have solid (unit : Fin 65536) (mem : unit ∈ name) : isWhiteSpace unit = false := (each unit mem).1
    refine ⟨⟨fun empty => ?_, solid⟩, fun unit mem => plain.2 unit mem,
      isUnsafe_eq_false.mpr fun unit mem => ⟨fun same => ?_, fun same => ?_, (each unit mem).2⟩⟩
    · rw [empty] at filled
      cases filled
    · exact absurd (same ▸ solid unit mem) (by decide)
    · exact absurd (same ▸ solid unit mem) (by decide)

/-! ## ProxyJump values -/

def IsHopUnit (unit : Fin 65536) : Prop :=
  isWhiteSpace unit = false ∧ unit ≠ numberSign ∧ unit ≠ comma ∧ unit.val ≠ 0

theorem isHopUnit_of_isName {name : JsString} (isName : IsName name) : ∀ unit ∈ name, IsHopUnit unit := by
  intro unit mem
  have mark := isName.marks unit mem
  rw [isAliasMark, decide_eq_false_iff_not] at mark
  refine ⟨isName.isWord.solid unit mem, fun same => mark ?_, fun same => mark ?_,
    (isUnsafe_eq_false.mp isName.safe unit mem).2.2⟩
  · rw [same]
    decide
  · rw [same]
    decide

theorem isHopUnit_portSuffix : ∀ unit ∈ portSuffix host, IsHopUnit unit := by
  intro unit mem
  unfold portSuffix at mem
  split at mem
  · split at mem
    · cases mem
    · rcases mem_append.mp mem with mem | mem
      · obtain rfl : unit = QuickConnect.colon := mem_singleton.mp mem
        exact ⟨by decide, by decide, by decide, by decide⟩
      · have digit := mem_decimal_isDigit mem
        have range : 48 ≤ unit.val := (mem_decimal mem).1
        refine ⟨isWhiteSpace_digit digit, fun same => ?_, fun same => ?_, by omega⟩
        · rw [same] at range
          exact absurd range (by decide)
        · rw [same] at range
          exact absurd range (by decide)
  · cases mem

theorem isHopUnit_hostPart (asserted : assertSafeProxyJumpHostname value = .ok ()) :
    ∀ unit ∈ value, IsHopUnit unit := by
  unfold assertSafeProxyJumpHostname at asserted
  rw [check_bind_eq_ok, ensure_eq_ok, Bool.and_eq_true, Bool.not_eq_true', List.any_eq_false] at asserted
  obtain ⟨safe, -, plain⟩ := asserted
  intro unit mem
  have held := plain unit mem
  simp only [Bool.or_eq_true, decide_eq_true_eq, not_or, Bool.not_eq_true, mem_cons, not_mem_nil,
    or_false] at held
  exact ⟨held.1, fun same => held.2.2.2 (congrArg Fin.val same), fun same => held.2.1 (congrArg Fin.val same),
    (isUnsafe_eq_false.mp (asserted_safe safe) unit mem).2.2⟩

theorem isHopUnit_user (asserted : assertSafeProxyJumpUsername value = .ok ()) :
    ∀ unit ∈ value, IsHopUnit unit := by
  unfold assertSafeProxyJumpUsername at asserted
  rw [check_bind_eq_ok, ensure_eq_ok, Bool.and_eq_true, Bool.not_eq_true', List.any_eq_false] at asserted
  obtain ⟨safe, -, plain⟩ := asserted
  intro unit mem
  have held := plain unit mem
  simp only [Bool.or_eq_true, decide_eq_true_eq, not_or, Bool.not_eq_true, mem_cons, not_mem_nil,
    or_false] at held
  exact ⟨held.1, fun same => held.2.2 (congrArg Fin.val same), fun same => held.2.1 (congrArg Fin.val same),
    (isUnsafe_eq_false.mp (asserted_safe safe) unit mem).2.2⟩

/-- A hop that is written for a host: what no blank, comment or comma cuts, and no URL unless the login is one. -/
structure IsHop (host : Host) (part : JsString) : Prop where
  units : ∀ unit ∈ part, IsHopUnit unit
  url : text "ssh://" <+: part → text "ssh://" <+: host.username

theorem not_url {hostPart : JsString} (host : Host) :
    ¬text "ssh://" <+: (if isIPv6 hostPart then openBracket :: (hostPart ++ [closeBracket]) else hostPart) ++
      portSuffix host := by
  intro starts
  have slash_ : slash ∉ portSuffix host := by
    intro mem
    unfold portSuffix at mem
    split at mem
    · split at mem
      · cases mem
      · rcases mem_append.mp mem with mem | mem
        · exact absurd (mem_singleton.mp mem) (by decide)
        · exact absurd (mem_decimal_isDigit mem) (by decide)
    · cases mem
  split at starts
  · obtain ⟨rest, cut⟩ := starts
    exact absurd (List.cons.inj cut).1 (by decide)
  · rename_i plain
    have url : text "ssh://" <+: hostPart := by
      obtain ⟨rest, cut⟩ := starts
      rcases append_eq_append_iff.mp cut with ⟨more, whole, -⟩ | ⟨more, whole, port⟩
      · exact ⟨more, whole.symm⟩
      · rcases more.eq_nil_or_concat' with rfl | ⟨front, last, rfl⟩
        · exact ⟨[], (append_nil _).trans (whole.trans (append_nil _))⟩
        · have ends := congrArg List.getLast? whole
          rw [← append_assoc, getLast?_concat] at ends
          obtain rfl : slash = last := some_inj.mp ends
          exact absurd (port ▸ mem_append_left _ (mem_append_right _ (mem_singleton_self _))) slash_
    obtain ⟨rest, rfl⟩ := url
    exact plain rfl

theorem isHop_serialized {managedHostIds : List JsString} {part : JsString}
    (serialized : serializeJumpHost host managedHostIds = .ok part) : IsHop host part := by
  unfold serializeJumpHost at serialized
  rw [check_bind_eq_ok, check_bind_eq_ok] at serialized
  obtain ⟨-, -, serialized⟩ := serialized
  obtain ⟨username, hostPart, hostUnits, rfl⟩ : (∀ unit ∈ host.username, IsHopUnit unit) ∧
      ∃ hostPart, (∀ unit ∈ hostPart, IsHopUnit unit) ∧
        part = (if host.username.isEmpty then [] else host.username ++ [QuickConnect.atSign]) ++
          (if isIPv6 hostPart then openBracket :: (hostPart ++ [closeBracket]) else hostPart) ++ portSuffix host := by
    have rest (ran : (if host.id ∈ managedHostIds && !host.label.isEmpty then do
          let hostPart ← toSafeSshHostAlias host.label host.hostname
          return (if host.username.isEmpty then [] else host.username ++ [QuickConnect.atSign]) ++
            (if isIPv6 hostPart then openBracket :: (hostPart ++ [closeBracket]) else hostPart) ++ portSuffix host
        else do
          assertSafeProxyJumpHostname host.hostname
          return (if host.username.isEmpty then [] else host.username ++ [QuickConnect.atSign]) ++
            (if isIPv6 host.hostname then openBracket :: (host.hostname ++ [closeBracket]) else host.hostname) ++
              portSuffix host) = Except.ok part) :
        ∃ hostPart, (∀ unit ∈ hostPart, IsHopUnit unit) ∧
          part = (if host.username.isEmpty then [] else host.username ++ [QuickConnect.atSign]) ++
            (if isIPv6 hostPart then openBracket :: (hostPart ++ [closeBracket]) else hostPart) ++ portSuffix host := by
      split at ran
      · rw [bind_eq_ok] at ran
        obtain ⟨name, named, ran⟩ := ran
        cases ran
        exact ⟨name, isHopUnit_of_isName (isName_alias named), rfl⟩
      · rw [check_bind_eq_ok] at ran
        obtain ⟨asserted, ran⟩ := ran
        cases ran
        exact ⟨host.hostname, isHopUnit_hostPart asserted, rfl⟩
    by_cases empty : host.username.isEmpty = true
    · rw [if_pos empty] at serialized
      refine ⟨fun unit mem => ?_, rest serialized⟩
      rw [List.isEmpty_iff.mp empty] at mem
      cases mem
    · rw [if_neg empty, check_bind_eq_ok] at serialized
      exact ⟨isHopUnit_user serialized.1, rest serialized.2⟩
  refine ⟨fun unit mem => ?_, fun starts => ?_⟩
  · rcases mem_append.mp mem with mem | mem
    · rcases mem_append.mp mem with mem | mem
      · split at mem
        · cases mem
        · rcases mem_append.mp mem with mem | mem
          · exact username unit mem
          · obtain rfl := mem_singleton.mp mem
            exact ⟨by decide, by decide, by decide, by decide⟩
      · split at mem
        · rcases mem_cons.mp mem with rfl | mem
          · exact ⟨by decide, by decide, by decide, by decide⟩
          rcases mem_append.mp mem with mem | mem
          · exact hostUnits unit mem
          · obtain rfl := mem_singleton.mp mem
            exact ⟨by decide, by decide, by decide, by decide⟩
        · exact hostUnits unit mem
    · exact isHopUnit_portSuffix unit mem
  · split at starts
    · exact absurd starts (not_url host)
    · -- the `@` behind the login name is not in `ssh://`
      have at_ : QuickConnect.atSign ∉ text "ssh://" := by decide
      obtain ⟨rest, cut⟩ := starts
      rw [append_assoc, append_assoc] at cut
      rcases append_eq_append_iff.mp cut with ⟨more, whole, -⟩ | ⟨more, whole, tail⟩
      · exact ⟨more, whole.symm⟩
      · cases more with
        | nil => exact ⟨[], (append_nil _).trans (whole.trans (append_nil _))⟩
        | cons unit more =>
          rw [singleton_append, cons_append] at tail
          obtain ⟨rfl, -⟩ := List.cons.inj tail
          exact absurd (whole ▸ mem_append_right _ mem_cons_self) at_

def IsJumpValue (jumpHosts : List Host) (value : JsString) : Prop :=
  ∃ parts, parts ≠ [] ∧ value = [comma].intercalate parts ∧ ∀ part ∈ parts, ∃ host ∈ jumpHosts, IsHop host part

theorem isJumpValue_built {allHosts : List Host} {managedHostIds : List JsString}
    {value : Option JsString} (built : buildProxyJumpValue host allHosts managedHostIds = .ok value) :
    ∀ written ∈ value.bind QuickConnect.nonempty, written ≠ [] ∧ IsJumpValue (jumpHostsOf host allHosts) written := by
  unfold buildProxyJumpValue at built
  rw [bind_eq_ok] at built
  obtain ⟨parts, mapped, built⟩ := built
  cases built
  have all := PairedLists.forall₂_of_mapM mapped
  intro written mem
  split at mem
  · cases mem
  · rename_i some_
    rw [bind_some, QuickConnect.nonempty] at mem
    split at mem
    · cases mem
    · rename_i filled
      obtain rfl := some_inj.mp mem
      refine ⟨fun empty => filled (List.isEmpty_iff.mpr empty), parts, fun empty => some_ (List.isEmpty_iff.mpr empty),
        rfl, fun part held => ?_⟩
      obtain ⟨jump, jumps, serialized⟩ := PairedLists.exists_left all held
      exact ⟨jump, jumps, isHop_serialized serialized⟩

theorem readArgument_jumps {jumpHosts : List Host} {value : JsString} (jumps : IsJumpValue jumpHosts value) :
    readArgument value = value ∧ IsLine value := by
  obtain ⟨parts, -, rfl, hops⟩ := jumps
  have each (unit : Fin 65536) (mem : unit ∈ [comma].intercalate parts) :
      isWhiteSpace unit = false ∧ unit ≠ numberSign := by
    rcases KnownHosts.mem_intercalate mem with rfl | ⟨part, held, mem⟩
    · exact ⟨by decide, by decide⟩
    · obtain ⟨host, -, isHop⟩ := hops part held
      exact ⟨(isHop.units unit mem).1, (isHop.units unit mem).2.1⟩
  have solid : ∀ unit ∈ [comma].intercalate parts, isWhiteSpace unit = false := fun unit mem => (each unit mem).1
  exact ⟨readArgument_of_spaced (isSpaced_solid solid) fun mem => (each _ mem).2 rfl, isLine_solid solid⟩

/-! ## The whole text -/

structure Written (tools : ImportTools) (allHosts : List Host) (host : Host) (block : SshConfigBlock) : Prop where
  block : ∃ name value, block = blockOf tools host name value ∧ IsName name ∧
    ∀ written ∈ value, written ≠ [] ∧ IsJumpValue (jumpHostsOf host allHosts) written
  hostname : isUnsafeSshConfigValue host.hostname = false
  username : isUnsafeSshConfigValue host.username = false

theorem isLine_text {s : String} (all : (text s).all (fun unit => unit = space || !isWhiteSpace unit)) :
    IsLine (text s) := by
  intro unit mem
  have held := List.all_eq_true.mp all unit mem
  rwa [Bool.or_eq_true, decide_eq_true_eq, Bool.not_eq_true'] at held

theorem isLine_formatted {path : JsString} (isPath : IsPath path) : IsLine (formatSshConfigArgument path) := by
  rcases formatSshConfigArgument_path isPath with plain | quoted
  · rw [formatSshConfigArgument_plain plain]
    exact isLine_solid plain.solid
  · rw [quoted]
    exact isPath.spaced.isLine

theorem isLine_directives (writable : Writable tools.toLowerCase host) {name : JsString}
    {proxyJump : Option JsString} (jumps : ∀ value ∈ proxyJump, IsLine value) :
    ∀ directive ∈ directives tools.toLowerCase host name proxyJump, ∀ argument ∈ directive.2.2, IsLine argument := by
  have plain {value : JsString} (plain : IsPlain value) : IsLine (formatSshConfigArgument value) := by
    rw [formatSshConfigArgument_plain plain]
    exact isLine_solid plain.solid
  have flag (value : Bool) : IsLine (yesNo value) := by
    cases value
    · exact isLine_text (by decide)
    · exact isLine_text (by decide)
  simp only [directives, forall_mem_cons, List.forall_mem_map, mem_toList]
  refine ⟨fun value mem => ?_, fun value mem => ?_, fun port mem => ?_, fun value _ => flag value,
    fun path mem => isLine_formatted (writable.paths path mem), fun agent mem => isLine_formatted (writable.agent agent mem),
    fun value _ => flag value, fun value mem => (writable.keys value mem).2.1.isLine, fun value _ => flag value, jumps,
    fun _ mem => (not_mem_nil mem).elim⟩
  · split at mem
    · cases mem
    · exact some_inj.mp mem ▸ plain writable.hostname.2
  · rw [QuickConnect.nonempty] at mem
    split at mem
    · cases mem
    · exact some_inj.mp mem ▸ plain writable.username
  · exact isLine_solid fun unit mem => isWhiteSpace_digit (mem_decimal_isDigit mem)

theorem foldl_keywords {directives : List (String × String × List JsString)}
    (isKeyword : ∀ directive ∈ directives, IsKeyword directive.1 directive.2.1) (blocks : List SshConfigBlock)
    (block : SshConfigBlock) :
    (directives.flatMap fun directive => directive.2.2.map (indented directive.1)).foldl
        (readConfigLine tools.toLowerCase) ⟨blocks, some block⟩ =
      ⟨blocks, some (directives.foldl
        (fun block directive => directive.2.2.foldl (readValue tools directive.2.1) block) block)⟩ := by
  induction directives generalizing block with
  | nil => rfl
  | cons directive directives ih =>
    rw [flatMap_cons, foldl_append, foldl_indented (isKeyword directive mem_cons_self), foldl_cons]
    exact ih (fun other mem => isKeyword other (mem_cons_of_mem _ mem)) _

theorem readConfigLine_host {name : JsString} (isName : IsName name) (scan : SshConfigScan) :
    readConfigLine tools.toLowerCase scan (text "Host " ++ name) = ⟨scan.all, some (.start [name])⟩ := by
  have comment : numberSign ∉ name := fun mem => (isHopUnit_of_isName isName _ mem).2.1 rfl
  have tokens : configTokens (text "Host " ++ name) = [text "Host", name] := by
    have solid : (text "Host").all (!isWhiteSpace ·) = true := by decide
    have isWord : IsWord (text "Host") := ⟨by decide, fun unit mem => by
      have held := List.all_eq_true.mp solid unit mem
      rwa [Bool.not_eq_true'] at held⟩
    have line := configTokens_line isWord (by decide) name
    rw [stripComment_of_not_mem comment, words_solid isName.isWord] at line
    exact line
  have lower : tools.toLowerCase (text "Host") = text "host" := (tools.ascii _ (by decide)).trans (by decide)
  unfold readConfigLine
  rw [tokens]
  dsimp only
  rw [lower, if_neg (by decide), if_pos rfl]
  rfl

theorem foldl_hostLines {allHosts : List Host} {managedHostIds lines : List JsString}
    (writable : Writable tools.toLowerCase host)
    (written : hostLines tools.toLowerCase host allHosts managedHostIds = .ok lines) :
    (lines ≠ [] ∧ ∀ line ∈ lines, IsLine line) ∧ ∃ block, Written tools allHosts host block ∧
      ∀ scan, lines.foldl (readConfigLine tools.toLowerCase) scan = ⟨scan.all, some block⟩ := by
  obtain ⟨name, value, named, built, hostname, username, rfl⟩ := hostLines_eq written
  have isName := isName_alias named
  have jumps := isJumpValue_built built
  refine ⟨⟨cons_ne_nil _ _, fun line mem => ?_⟩, _, ⟨⟨name, _, rfl, isName, jumps⟩, hostname, username⟩,
    fun scan => ?_⟩
  · rcases mem_cons.mp mem with rfl | mem
    · exact (isLine_text (by decide)).append (isLine_solid isName.isWord.solid)
    · obtain ⟨directive, held, lineMem⟩ := mem_flatMap.mp mem
      obtain ⟨argument, argumentMem, rfl⟩ := List.mem_map.mp lineMem
      have keyword := (isKeyword_directives directive held).isWord.1
      have isLine := isLine_directives writable (fun value mem => (readArgument_jumps (jumps value mem).2).2) directive held
        argument argumentMem
      exact (((isLine_text (by decide)).append (isLine_solid keyword.solid)).append
        fun unit mem => .inl (mem_singleton.mp mem)).append isLine
  · rw [foldl_cons, readConfigLine_host isName, foldl_keywords isKeyword_directives,
      foldl_directives writable fun value mem => ⟨(jumps value mem).1, (readArgument_jumps (jumps value mem).2).1⟩]

theorem all_foldl_hostLines {allHosts hosts : List Host} {managedHostIds : List JsString}
    {linesList : List (List JsString)}
    (written : Forall₂ (fun host lines => Writable tools.toLowerCase host ∧
      hostLines tools.toLowerCase host allHosts managedHostIds = .ok lines) hosts linesList) :
    (∀ lines ∈ linesList, lines ≠ [] ∧ ∀ line ∈ lines, IsLine line) ∧ ∃ blocks,
      Forall₂ (Written tools allHosts) hosts blocks ∧
        ∀ scan, (linesList.flatten.foldl (readConfigLine tools.toLowerCase) scan).all = scan.all ++ blocks := by
  induction written with
  | nil => exact ⟨fun _ mem => (not_mem_nil mem).elim, [], .nil, fun scan => (append_nil _).symm⟩
  | cons held _ ih =>
    obtain ⟨isLines, blocks, all, reads⟩ := ih
    obtain ⟨isLine, block, first, read⟩ := foldl_hostLines held.1 held.2
    refine ⟨fun lines mem => ?_, block :: blocks, .cons first all, fun scan => ?_⟩
    · rcases mem_cons.mp mem with rfl | mem
      · exact isLine
      · exact isLines lines mem
    · rw [flatten_cons, foldl_append, read, reads]
      exact (append_cons _ _ _).symm

theorem configBlocks_serialized {hosts : List Host} {allHosts : Option (List Host)} {source : JsString}
    (ssh : ∀ host ∈ hosts, isSshHost host) (writable : ∀ host ∈ hosts, Writable tools.toLowerCase host)
    (serialized : serializeHostsToSshConfig tools.toLowerCase hosts allHosts = .ok source) :
    Forall₂ (Written tools (allHosts.getD hosts)) hosts (configBlocks tools.toLowerCase source) := by
  unfold serializeHostsToSshConfig at serialized
  dsimp only at serialized
  rw [filter_eq_self.mpr ssh, bind_eq_ok] at serialized
  obtain ⟨texts, mapped, serialized⟩ := serialized
  cases serialized
  have each := PairedLists.forall₂_of_mapM mapped
  obtain ⟨linesList, rfl, lines⟩ : ∃ linesList, texts = linesList.map joinLines ∧
      Forall₂ (fun host lines => hostLines tools.toLowerCase host (allHosts.getD hosts) (hosts.map Host.id) =
        .ok lines) hosts linesList := by
    generalize allHosts.getD hosts = all at each
    generalize hosts.map Host.id = ids at each
    clear mapped ssh writable
    induction each with
    | nil => exact ⟨[], rfl, .nil⟩
    | cons held _ ih =>
      obtain ⟨linesList, rfl, lines⟩ := ih
      rw [bind_eq_ok] at held
      obtain ⟨own, written, held⟩ := held
      cases held
      exact ⟨own :: linesList, rfl, .cons written lines⟩
  obtain ⟨isLines, blocks, all, reads⟩ := all_foldl_hostLines ((forall₂_and_left _ _).mpr ⟨writable, lines⟩)
  have folded := @foldl_splitLines _ (readConfigLine tools.toLowerCase) (fun _ => rfl) _ isLines ⟨[], none⟩
  have read : configBlocks tools.toLowerCase ((text "\n\n").intercalate (linesList.map joinLines) ++ [lineFeed]) =
      blocks := by
    have whole := congrArg SshConfigScan.all folded
    rw [reads] at whole
    exact whole
  rw [read]
  exact all

end Directives

end Netcatty.VaultImport
