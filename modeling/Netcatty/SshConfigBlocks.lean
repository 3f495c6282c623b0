import Netcatty.VaultDrafts
import Netcatty.VaultLines

/-!
The Host blocks of an ssh_config text.

Comments and white space around a line are cut off, its words are joined by single blanks, and the
last directive of a kind stands.  A block makes a host of each of its concrete patterns.
-/

namespace Netcatty.VaultImport

open List

open KnownHosts (numberSign star questionUnit bang space isLineTerminator IsWord Trimmed trimmed_join)

/-! ## Lines -/

/-- `replace(/#.*/, "")`. -/
def stripComment (line : JsString) : JsString :=
  line.takeWhile (· ≠ numberSign) ++ (line.dropWhile (· ≠ numberSign)).dropWhile (!isLineTerminator ·)

def configTokens (line : JsString) : List JsString := QuickConnect.words (trim (stripComment line))

def isQuote (unit : Fin 65536) : Bool := unit.val = 34 || unit.val = 39

/-- `replace(/^["']|["']$/g, "")`. -/
def stripQuotes (value : JsString) : JsString :=
  let opened := if value.head?.any isQuote then value.tail else value
  if opened.getLast?.any isQuote then opened.dropLast else opened

/-! ## Blocks -/

structure SshConfigBlock where
  patterns : List JsString
  hostname : Option JsString
  username : Option JsString
  port : Option ℕ
  proxyJump : Option JsString
  identityFiles : Option (List JsString)
  identityAgent : Option JsString
  identitiesOnly : Option Bool
  addKeysToAgent : Option JsString
  useKeychain : Option Bool
  forwardX11 : Option Bool
  deriving DecidableEq

def SshConfigBlock.start (patterns : List JsString) : SshConfigBlock :=
  ⟨patterns, none, none, none, none, none, none, none, none, none, none⟩

def readDirective (toLowerCase : JsString → JsString) (current : SshConfigBlock) (keyword value : JsString) :
    SshConfigBlock :=
  let isYes : Bool := toLowerCase value = text "yes"
  if keyword = text "hostname" then { current with hostname := some value }
  else if keyword = text "user" then { current with username := some value }
  else if keyword = text "port" then { current with port := parsePort (some value) }
  else if keyword = text "proxyjump" then { current with proxyJump := some value }
  else if keyword = text "forwardx11" then { current with forwardX11 := some isYes }
  else if keyword = text "identityagent" then { current with identityAgent := some (stripQuotes value) }
  else if keyword = text "identitiesonly" then { current with identitiesOnly := some isYes }
  else if keyword = text "addkeystoagent" then { current with addKeysToAgent := some (toLowerCase value) }
  else if keyword = text "usekeychain" then { current with useKeychain := some isYes }
  else if keyword = text "identityfile" then
    { current with identityFiles := some (current.identityFiles.getD [] ++ [stripQuotes value]) }
  else current

/-- The blocks that are closed, and the one that is read. -/
structure SshConfigScan where
  blocks : List SshConfigBlock
  current : Option SshConfigBlock

def SshConfigScan.flush (scan : SshConfigScan) : SshConfigScan := ⟨scan.blocks ++ scan.current.toList, none⟩

/-- One turn of the loop over the lines. -/
def readConfigLine (toLowerCase : JsString → JsString) (scan : SshConfigScan) (line : JsString) : SshConfigScan :=
  match configTokens line with
  | [] => scan
  | token :: rest =>
    let keyword := toLowerCase token
    if keyword.isEmpty then scan
    else if keyword = text "host" then { scan.flush with current := some (.start rest) }
    else if keyword = text "match" then scan.flush
    else
      match scan.current with
      | none => scan
      | some current =>
        let value := [space].intercalate rest
        if value.isEmpty then scan else { scan with current := some (readDirective toLowerCase current keyword value) }

def configBlocks (toLowerCase : JsString → JsString) (source : JsString) : List SshConfigBlock :=
  ((PtyExec.splitLines source).foldl (readConfigLine toLowerCase) ⟨[], none⟩).flush.blocks

/-! ## What the loop reads -/

theorem isWord_of_mem_words {s word : JsString} (mem : word ∈ QuickConnect.words s) : IsWord word := by
  obtain ⟨mem, filled⟩ := mem_filter.mp mem
  exact ⟨by simpa using filled, fun unit held => (of_mem_splitOnP mem unit held).2⟩

/-- The words of a block and its values have no white space around them. -/
structure SshConfigBlock.Tidy (block : SshConfigBlock) : Prop where
  patterns : ∀ pattern ∈ block.patterns, IsWord pattern
  hostname : ∀ hostname ∈ block.hostname, Trimmed hostname

section

variable {toLowerCase : JsString → JsString}

theorem tidy_readDirective {block : SshConfigBlock} {value : JsString}
    (tidy : block.Tidy) (trimmed : Trimmed value) (keyword : JsString) :
    (readDirective toLowerCase block keyword value).Tidy := by
  have other {after : SshConfigBlock} (patterns : after.patterns = block.patterns)
      (hostname : after.hostname = block.hostname) : after.Tidy :=
    ⟨patterns ▸ tidy.patterns, hostname ▸ tidy.hostname⟩
  have hostname : { block with hostname := some value }.Tidy :=
    ⟨tidy.patterns, fun hostname mem => Option.some_inj.mp mem ▸ trimmed⟩
  refine iteInduction (motive := SshConfigBlock.Tidy) (fun _ => hostname) fun _ => ?_
  repeat' refine iteInduction (motive := SshConfigBlock.Tidy) (fun _ => ?_) fun _ => ?_
  all_goals exact other rfl rfl

def SshConfigScan.all (scan : SshConfigScan) : List SshConfigBlock := scan.blocks ++ scan.current.toList

theorem tidy_readConfigLine {scan : SshConfigScan}
    (tidy : ∀ block ∈ scan.all, block.Tidy) (line : JsString) :
    ∀ block ∈ (readConfigLine toLowerCase scan line).all, block.Tidy := by
  unfold readConfigLine
  cases tokens : configTokens line with
  | nil => exact tidy
  | cons token rest =>
    have isWord : ∀ word ∈ rest, IsWord word := fun word mem =>
      isWord_of_mem_words (tokens ▸ mem_cons_of_mem token mem : word ∈ configTokens line)
    have flushed : scan.flush.all = scan.all := append_nil _
    dsimp only
    split
    · exact tidy
    split
    · intro block mem
      rcases mem_append.mp mem with mem | mem
      · exact tidy block mem
      · obtain rfl := mem_singleton.mp mem
        exact ⟨isWord, fun _ mem => by cases mem⟩
    split
    · rw [flushed]
      exact tidy
    cases read : scan.current with
    | none => exact tidy
    | some current =>
      dsimp only
      split
      · exact tidy
      · intro block mem
        rcases mem_append.mp mem with mem | mem
        · exact tidy block (mem_append_left _ mem)
        · obtain rfl := mem_singleton.mp mem
          refine tidy_readDirective (tidy current ?_) (trimmed_join isWord) _
          rw [SshConfigScan.all, read]
          exact mem_append_right _ (mem_singleton_self _)

theorem tidy_configBlocks {source : JsString} :
    ∀ block ∈ configBlocks toLowerCase source, block.Tidy :=
  List.foldlRecOn (PtyExec.splitLines source) (readConfigLine toLowerCase)
    (motive := fun scan => ∀ block ∈ scan.all, block.Tidy) (fun _ mem => (not_mem_nil mem).elim)
    fun _ tidy line _ => tidy_readConfigLine tidy line

end

/-! ## Hosts -/

def isWildcardPattern (pattern : JsString) : Bool :=
  pattern.any (fun unit => unit = star || unit = questionUnit) || pattern.head? = some bang

/-- The patterns that make hosts. -/
def concretePatterns (block : SshConfigBlock) : List JsString :=
  block.patterns.filter fun pattern => !pattern.isEmpty && !isWildcardPattern pattern

def hasMacKeychainAgentDirectives (toLowerCase : JsString → JsString) (addKeysToAgent : Option JsString)
    (useKeychain : Option Bool) : Bool :=
  useKeychain = some true && addKeysToAgent.any (toLowerCase · = text "yes")

def makeHostKey (toLowerCase : JsString → JsString) (hostname : JsString) (port : Option ℕ) : JsString :=
  toLowerCase hostname ++ text ":" ++ decimal (port.getD 22)

/-- The hosts that were made, their ProxyJump values by address, the counts and the issues. -/
structure SshConfigHosts where
  parsedHosts : List Host
  hostProxyJumpMap : OrderedMap JsString JsString
  parsed : ℕ
  skipped : ℕ
  issues : List VaultImportIssue
  issued : ℕ

section Hosts

variable (tools : ImportTools)

def patternDraft (block : SshConfigBlock) (pattern : JsString) : HostDraft where
  label := some pattern
  hostname := block.hostname.getD pattern
  username := block.username
  password := none
  keyPath := none
  port := block.port
  protocol := some (text "ssh")
  group := none
  tags := []

def applyDirectives (block : SshConfigBlock) (host : Host) : Host :=
  let isNone (agent : JsString) : Bool := tools.toLowerCase agent = text "none"
  let identityAgentEnabled := block.identityAgent.any (!isNone ·)
  let identityAgentDisabled := block.identityAgent.any isNone
  let macKeychainAgentEnabled := hasMacKeychainAgentDirectives tools.toLowerCase block.addKeysToAgent block.useKeychain
  { host with
    identityFilePaths := if (block.identityFiles.getD []).isEmpty then host.identityFilePaths else block.identityFiles
    identityAgent := block.identityAgent.or host.identityAgent
    identitiesOnly := block.identitiesOnly.or host.identitiesOnly
    addKeysToAgent := block.addKeysToAgent.or host.addKeysToAgent
    useKeychain := block.useKeychain.or host.useKeychain
    useSshAgent :=
      if !identityAgentDisabled && (identityAgentEnabled || macKeychainAgentEnabled) then some true
      else if identityAgentDisabled then some false
      else host.useSshAgent
    x11Forwarding := block.forwardX11.or host.x11Forwarding }

/-- The ProxyJump value of a block, unless it is `none`. -/
def storedProxyJump (block : SshConfigBlock) : Option JsString :=
  block.proxyJump.bind fun value => if value.isEmpty || tools.toLowerCase value = text "none" then none else some value

/-- One turn of the loop over the patterns of a block. -/
def readPattern (block : SshConfigBlock) (state : SshConfigHosts) (pattern : JsString) : Checked SshConfigHosts :=
  let state := { state with parsed := state.parsed + 1 }
  let hostname := block.hostname.getD pattern
  if !looksLikeHostnameToken tools hostname then
    return { state with
      skipped := state.skipped + 1
      issues := state.issues ++
        [⟨.warning, text "ssh_config: skipped host \"" ++ pattern ++ text "\" (invalid hostname)."⟩] }
  else do
    let host ← buildVaultHostFromDraft tools (tools.randomUUID state.issued) (patternDraft block pattern)
    return { state with
      parsedHosts := state.parsedHosts ++ [applyDirectives tools block host]
      hostProxyJumpMap :=
        match storedProxyJump tools block with
        | some value => state.hostProxyJumpMap.set (makeHostKey tools.toLowerCase hostname block.port) value
        | none => state.hostProxyJumpMap
      issued := state.issued + 1 }

def readBlocks (blocks : List SshConfigBlock) (start : ℕ) : Checked SshConfigHosts :=
  blocks.foldlM (fun state block => (concretePatterns block).foldlM (readPattern tools block) state)
    ⟨[], .empty, 0, 0, [], start⟩

/-! ## What the loop makes -/

def configEntries (blocks : List SshConfigBlock) : List (SshConfigBlock × JsString) :=
  blocks.flatMap fun block =>
    ((concretePatterns block).filter fun pattern => looksLikeHostnameToken tools (block.hostname.getD pattern)).map
      fun pattern => (block, pattern)

/-- The address under which the ProxyJump value of a host is stored. -/
def entryKey (entry : SshConfigBlock × JsString) : JsString :=
  makeHostKey tools.toLowerCase (entry.1.hostname.getD entry.2) entry.1.port

def MadeOf (entry : SshConfigBlock × JsString) (host : Host) : Prop :=
  ∃ made, buildVaultHostFromDraft tools host.id (patternDraft entry.1 entry.2) = .ok made ∧
    host = applyDirectives tools entry.1 made

def lastProxyJump (entries : List (SshConfigBlock × JsString)) (key : JsString) : Option JsString :=
  ((entries.filter (entryKey tools · = key)).filterMap (storedProxyJump tools ·.1)).getLast?

/-- The state when these hosts are made. -/
structure SshConfigHosts.Fits (start : ℕ) (entries : List (SshConfigBlock × JsString)) (state : SshConfigHosts) :
    Prop where
  issued : state.issued = start + entries.length
  hosts : List.Forall₂ (MadeOf tools) entries state.parsedHosts
  ids : state.parsedHosts.map Host.id = (List.range entries.length).map fun n => tools.randomUUID (start + n)
  values : ∀ key, state.hostProxyJumpMap.get? key = lastProxyJump tools entries key

variable {tools} {start : ℕ} {entries : List (SshConfigBlock × JsString)} {block : SshConfigBlock}

theorem lastProxyJump_concat (entries : List (SshConfigBlock × JsString)) (entry : SshConfigBlock × JsString)
    (key : JsString) : lastProxyJump tools (entries ++ [entry]) key =
      if entryKey tools entry = key then (storedProxyJump tools entry.1).or (lastProxyJump tools entries key)
      else lastProxyJump tools entries key := by
  unfold lastProxyJump
  rw [filter_append, filterMap_append, getLast?_append]
  by_cases here : entryKey tools entry = key
  · rw [if_pos here, filter_singleton, decide_eq_true here, cond_true]
    cases stored : storedProxyJump tools entry.1 with
    | none => simp [stored]
    | some value => simp [stored]
  · rw [if_neg here, filter_singleton, decide_eq_false here]
    rfl

theorem fits_readPattern {state after : SshConfigHosts} (fits : state.Fits tools start entries) {pattern : JsString}
    (ran : readPattern tools block state pattern = .ok after) :
    after.Fits tools start
      (entries ++ if looksLikeHostnameToken tools (block.hostname.getD pattern) then [(block, pattern)] else []) := by
  unfold readPattern at ran
  dsimp only at ran
  cases usable : looksLikeHostnameToken tools (block.hostname.getD pattern) with
  | false =>
    rw [usable, Bool.not_false, if_pos rfl] at ran
    cases ran
    rw [if_neg Bool.false_ne_true, append_nil]
    exact ⟨fits.issued, fits.hosts, fits.ids, fits.values⟩
  | true =>
    rw [usable, Bool.not_true, if_neg Bool.false_ne_true, bind_eq_ok] at ran
    obtain ⟨made, built, ran⟩ := ran
    cases ran
    have own := (id_of_draft built).1
    have same : (applyDirectives tools block made).id = tools.randomUUID state.issued := own
    rw [if_pos rfl]
    refine ⟨?_, rel_append fits.hosts (.cons ⟨made, ?_, rfl⟩ .nil), ?_, fun key => ?_⟩
    · rw [length_append, length_singleton, ← Nat.add_assoc, ← fits.issued]
    · rw [same]
      exact built
    · rw [map_append, fits.ids, length_append, length_singleton, range_succ, map_append,
        map_singleton, map_singleton, ← fits.issued, same]
    · rw [lastProxyJump_concat, ← fits.values]
      by_cases here : entryKey tools (block, pattern) = key
      · rw [if_pos here]
        cases stored : storedProxyJump tools block with
        | none => rfl
        | some value => exact (OrderedMap.get?_set _ _ _ _).trans (if_pos here.symm)
      · rw [if_neg here]
        cases stored : storedProxyJump tools block with
        | none => rfl
        | some value => exact (OrderedMap.get?_set _ _ _ _).trans (if_neg fun same => here same.symm)

theorem fits_readPatterns (patterns : List JsString) {state after : SshConfigHosts}
    (fits : state.Fits tools start entries) (ran : patterns.foldlM (readPattern tools block) state = .ok after) :
    after.Fits tools start (entries ++
      (patterns.filter fun pattern => looksLikeHostnameToken tools (block.hostname.getD pattern)).map
        fun pattern => (block, pattern)) := by
  induction patterns generalizing state entries with
  | nil =>
    cases ran
    rw [filter_nil, map_nil, append_nil]
    exact fits
  | cons pattern patterns ih =>
    rw [foldlM_cons, bind_eq_ok] at ran
    obtain ⟨next, first, ran⟩ := ran
    have held := ih (fits_readPattern fits first) ran
    rw [append_assoc] at held
    rw [filter_cons]
    cases usable : looksLikeHostnameToken tools (block.hostname.getD pattern) with
    | false =>
      rw [usable, if_neg Bool.false_ne_true, nil_append] at held
      rw [if_neg Bool.false_ne_true]
      exact held
    | true =>
      rw [usable, if_pos rfl, singleton_append] at held
      rw [if_pos rfl, map_cons]
      exact held

/-- The loops make a host of every entry, in order. -/
theorem fits_readBlocks {blocks : List SshConfigBlock} {after : SshConfigHosts}
    (ran : readBlocks tools blocks start = .ok after) : after.Fits tools start (configEntries tools blocks) := by
  have run (blocks : List SshConfigBlock) {state : SshConfigHosts} {entries : List (SshConfigBlock × JsString)}
      (fits : state.Fits tools start entries)
      (ran : blocks.foldlM (fun state block => (concretePatterns block).foldlM (readPattern tools block) state) state =
        .ok after) : after.Fits tools start (entries ++ configEntries tools blocks) := by
    induction blocks generalizing state entries with
    | nil =>
      cases ran
      rw [configEntries, flatMap_nil, append_nil]
      exact fits
    | cons block blocks ih =>
      rw [foldlM_cons, bind_eq_ok] at ran
      obtain ⟨next, first, ran⟩ := ran
      have held := ih (fits_readPatterns _ fits first) ran
      rw [append_assoc] at held
      rw [configEntries, flatMap_cons]
      exact held
  exact run blocks ⟨rfl, .nil, rfl, fun _ => rfl⟩ ran

theorem MadeOf.address {entry : SshConfigBlock × JsString} {host : Host} (made : MadeOf tools entry host)
    (tidy : entry.1.Tidy) (mem : entry.2 ∈ entry.1.patterns) :
    makeHostKey tools.toLowerCase host.hostname host.port = entryKey tools entry ∧ host.hostChain = none := by
  obtain ⟨built, made, rfl⟩ := made
  obtain ⟨hostname, port⟩ := address_of_draft rfl made
  have trimmed : trim (entry.1.hostname.getD entry.2) = entry.1.hostname.getD entry.2 := by
    cases own : entry.1.hostname with
    | none => exact (tidy.patterns entry.2 mem).trimmed.trim_eq
    | some hostname => exact (tidy.hostname hostname own).trim_eq
  refine ⟨?_, (id_of_draft made).2⟩
  change makeHostKey tools.toLowerCase built.hostname built.port = _
  rw [hostname, port, patternDraft, trimmed]
  rfl

theorem mem_of_configEntries {blocks : List SshConfigBlock} {entry : SshConfigBlock × JsString}
    (mem : entry ∈ configEntries tools blocks) : entry.1 ∈ blocks ∧ entry.2 ∈ entry.1.patterns := by
  obtain ⟨block, held, mem⟩ := mem_flatMap.mp mem
  obtain ⟨pattern, usable, rfl⟩ := List.mem_map.mp mem
  exact ⟨held, mem_of_mem_filter (mem_of_mem_filter usable)⟩

theorem lastProxyJump_of_same {entry : SshConfigBlock × JsString} (mem : entry ∈ entries)
    (same : ∀ other ∈ entries, entryKey tools other = entryKey tools entry →
      storedProxyJump tools other.1 = storedProxyJump tools entry.1) :
    lastProxyJump tools entries (entryKey tools entry) = storedProxyJump tools entry.1 := by
  have all : ∀ value ∈ (entries.filter (entryKey tools · = entryKey tools entry)).filterMap (storedProxyJump tools ·.1),
      storedProxyJump tools entry.1 = some value := by
    intro value held
    obtain ⟨other, held, stored⟩ := mem_filterMap.mp held
    obtain ⟨held, here⟩ := mem_filter.mp held
    exact (same other held (of_decide_eq_true here)).symm.trans stored
  cases last : lastProxyJump tools entries (entryKey tools entry) with
  | some value => exact (all value (mem_of_getLast? last)).symm
  | none =>
    cases stored : storedProxyJump tools entry.1 with
    | none => rfl
    | some value =>
      have held : value ∈ (entries.filter (entryKey tools · = entryKey tools entry)).filterMap (storedProxyJump tools ·.1) :=
        mem_filterMap.mpr ⟨entry, mem_filter.mpr ⟨mem, decide_eq_true rfl⟩, stored⟩
      rw [getLast?_eq_none_iff.mp last] at held
      cases held

end Hosts

end Netcatty.VaultImport
