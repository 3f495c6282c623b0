import Netcatty.SshConfigJumps
import Netcatty.SshConfigWritten

/-!
Managed hosts that are written and imported again.

The blocks of a text that was written make the hosts they were written for, but for hosts that the
importer takes for no hosts and for copies of a session (`managed_hosts_read_back`).
-/

namespace Netcatty.VaultImport

open List Option

open KnownHosts (IsWord)

section RoundTrip

variable {tools : ImportTools}

/-! ## Hosts of drafts -/

/-- The host of a draft with nothing but an address. -/
def sshHost (id label hostname : JsString) (port : ℕ) (username : JsString) : Host where
  id := id
  label := label
  hostname := hostname
  port := some port
  username := username
  group := none
  tags := []
  os := text "linux"
  protocol := some (text "ssh")
  pluginConnection := false
  password := none
  authMethod := none
  authPolicyVersion := none
  useSshAgent := none
  identityFilePaths := none
  identityId := none
  telnetIdentityId := none
  identityFileId := none
  identityAgent := none
  identitiesOnly := none
  addKeysToAgent := none
  useKeychain := none
  hostChain := none
  localShell := none
  localShellArgs := none
  localShellName := none
  localStartDir := none
  x11Forwarding := none
  moshEnabled := none

theorem buildVaultHostFromDraft_ssh {id label hostname username : JsString} {user : Option JsString} {port : Option ℕ}
    (named : IsWord label ∧ isUnsafeSshConfigValue label = false)
    (address : IsWord hostname ∧ isUnsafeSshConfigValue hostname = false)
    (login : trim (user.getD []) = username ∧ isUnsafeSshConfigValue username = false)
    (range : ∀ number ∈ port, 1 ≤ number ∧ number ≤ 65535) :
    buildVaultHostFromDraft tools id ⟨some label, hostname, user, none, none, port, some (text "ssh"), none, []⟩ =
      .ok (sshHost id label hostname (port.getD 22) username) := by
  have protocol : normalizeProtocol tools (some (text "ssh")) = some (text "ssh") := by
    have lower : tools.toLowerCase (trim (text "ssh")) = text "ssh" := (tools.ascii _ (by decide)).trans (by decide)
    rw [normalizeProtocol, getD_some, lower]
    rfl
  have ports : port.all (fun port => 1 ≤ port && port ≤ 65535) = true := by
    rw [Option.all_eq_true]
    intro number held
    rw [Bool.and_eq_true, decide_eq_true_eq, decide_eq_true_eq]
    exact range number held
  have solid : hostname.any isWhiteSpace = false :=
    List.any_eq_false.mpr fun unit mem => Bool.eq_false_iff.mp (address.1.solid unit mem)
  have trimmed : trim hostname = hostname := address.1.trimmed.trim_eq
  have label_ : trim label = label := named.1.trimmed.trim_eq
  have filled : hostname.isEmpty = false := isEmpty_eq_false_iff.mpr address.1.filled
  have labelled : label.isEmpty = false := isEmpty_eq_false_iff.mpr named.1.filled
  unfold buildVaultHostFromDraft
  simp only [trimmed, label_, filled, labelled, solid, protocol, ports, address.2, named.2, login.1, login.2, ensure,
    getD_some, Bool.not_false, Bool.or_true, isSome_some, ok_bind, ↓reduceIte, Bool.false_eq_true,
    map_none, bind_none, any_none]
  rfl

/-! ## Hosts of blocks -/

/-- The port that is set, or the default one. -/
def effectivePort (host : Host) : ℕ := (host.port.filter (· ≠ 0)).getD 22

/-- What makes copies of a host one session when they are imported. -/
def importedKey (tools : ImportTools) (host : Host) : JsString :=
  buildVaultHostMergeKey tools.toLowerCase tools.numberText
    { host with protocol := some (text "ssh"), port := some (effectivePort host), group := none }

/-- The settings of a host that are read back, the key paths apart. -/
structure ReadBack (tools : ImportTools) (host imported : Host) : Prop where
  hostname : imported.hostname = host.hostname
  username : imported.username = host.username
  port : imported.port = some (effectivePort host)
  identityAgent : imported.identityAgent = serializedIdentityAgent tools.toLowerCase host
  identitiesOnly : imported.identitiesOnly = host.identitiesOnly
  addKeysToAgent : imported.addKeysToAgent = host.addKeysToAgent.map tools.toLowerCase
  useKeychain : imported.useKeychain = host.useKeychain

theorem writtenPort_getD (host : Host) : (writtenPort host).getD 22 = effectivePort host := by
  unfold writtenPort effectivePort
  cases host.port with
  | none => rfl
  | some port =>
    by_cases zero : port = 0
    · subst zero
      rfl
    · by_cases default_ : port = 22
      · subst default_
        rfl
      · simp [Option.filter, zero, default_]

def EntryOf (tools : ImportTools) (allHosts : List Host) (host : Host) (entry : SshConfigBlock × JsString) : Prop :=
  Written tools allHosts host entry.1 ∧ entry.1.patterns = [entry.2]

theorem hostname_blockOf {host : Host} {name : JsString} {value : Option JsString} :
    (blockOf tools host name value).hostname.getD name = host.hostname := by
  change (if host.hostname = name then none else some host.hostname).getD name = host.hostname
  split
  · rename_i same
    exact same.symm
  · rfl

theorem concretePatterns_blockOf {host : Host} {name : JsString} {value : Option JsString} (isName : IsName name) :
    concretePatterns (blockOf tools host name value) = [name] := by
  have filled : name.isEmpty = false := isEmpty_eq_false_iff.mpr isName.isWord.filled
  have plain : isWildcardPattern name = false := by
    have mark (unit : Fin 65536) (mem : unit ∈ name) : unit ≠ KnownHosts.star ∧ unit ≠ KnownHosts.questionUnit ∧
        unit ≠ KnownHosts.bang := by
      have none_ := isName.marks unit mem
      refine ⟨fun same => ?_, fun same => ?_, fun same => ?_⟩
      · exact absurd (same ▸ none_) (by decide)
      · exact absurd (same ▸ none_) (by decide)
      · exact absurd (same ▸ none_) (by decide)
    rw [isWildcardPattern, Bool.or_eq_false_iff, List.any_eq_false, decide_eq_false_iff_not]
    refine ⟨fun unit mem => ?_, fun first => (mark _ (mem_of_mem_head? first)).2.2 rfl⟩
    rw [Bool.or_eq_true, decide_eq_true_eq, decide_eq_true_eq, not_or]
    exact ⟨(mark unit mem).1, (mark unit mem).2.1⟩
  change [name].filter _ = [name]
  rw [filter_singleton, filled, plain]
  rfl

/-- The hosts that the importer takes for hosts have the entries of the text. -/
theorem entries_written {allHosts hosts : List Host} {blocks : List SshConfigBlock}
    (written : Forall₂ (Written tools allHosts) hosts blocks) :
    Forall₂ (EntryOf tools allHosts) (hosts.filter (looksLikeHostnameToken tools ·.hostname))
      (configEntries tools blocks) := by
  induction written with
  | nil => exact .nil
  | @cons host block hosts blocks held _ ih =>
    obtain ⟨name, value, rfl, isName, -⟩ := held.block
    rw [configEntries, flatMap_cons, concretePatterns_blockOf isName, filter_cons, filter_cons,
      hostname_blockOf]
    cases looksLikeHostnameToken tools host.hostname with
    | false => exact ih
    | true => exact .cons ⟨held, rfl⟩ ih

section Entry

variable {allHosts : List Host} {host : Host} {entry : SshConfigBlock × JsString}

section

variable (writable : Writable tools.toLowerCase host) (own : EntryOf tools allHosts host entry)
include writable own

theorem buildVaultHostFromDraft_written (id : JsString) :
    buildVaultHostFromDraft tools id (patternDraft entry.1 entry.2) =
      .ok (sshHost id entry.2 host.hostname (effectivePort host) host.username) := by
  obtain ⟨⟨⟨name, value, block, isName, -⟩, hostname, username⟩, patterns⟩ := own
  obtain ⟨read, pattern⟩ := entry
  dsimp only at block patterns ⊢
  subst block
  obtain rfl : name = pattern := (List.cons.inj patterns).1
  have login : (QuickConnect.nonempty host.username).getD [] = host.username := by
    unfold QuickConnect.nonempty
    split
    · rename_i empty
      exact (List.isEmpty_iff.mp empty).symm
    · rfl
  have solid := writable.username.solid
  have trimmed : trim host.username = host.username := KnownHosts.Trimmed.trim_eq
    ⟨fun unit first => solid unit (mem_of_mem_head? first), fun unit last => solid unit (mem_of_mem_getLast? last)⟩
  have built := @buildVaultHostFromDraft_ssh tools id _ _ _ (QuickConnect.nonempty host.username) (writtenPort host) ⟨isName.isWord, isName.safe⟩ ⟨⟨writable.hostname.1, writable.hostname.2.solid⟩, hostname⟩
    ⟨login.symm ▸ trimmed, username⟩ fun port mem => by
      obtain ⟨set, other⟩ := filter_eq_some_iff.mp mem
      rw [Bool.and_eq_true, decide_eq_true_eq] at other
      exact ⟨Nat.pos_of_ne_zero other.1, writable.port port set⟩
  rw [writtenPort_getD] at built
  rw [patternDraft, hostname_blockOf]
  exact built

theorem readBack_made {imported : Host} (made : MadeOf tools entry imported) :
    ReadBack tools host imported ∧ imported.identityFilePaths.getD [] = host.identityFilePaths.getD [] ∧
      buildVaultHostMergeKey tools.toLowerCase tools.numberText imported = importedKey tools host := by
  obtain ⟨built, made, rfl⟩ := made
  generalize (applyDirectives tools entry.1 built).id = id at made
  rw [buildVaultHostFromDraft_written writable own] at made
  cases made
  obtain ⟨⟨⟨name, value, block, -⟩, -⟩, -⟩ := own
  rw [block]
  refine ⟨⟨rfl, rfl, rfl, or_none, or_none, or_none, or_none⟩, ?_, rfl⟩
  change (if ((if host.identityFilePaths.getD [] = [] then none else host.identityFilePaths).getD []).isEmpty then none
    else if host.identityFilePaths.getD [] = [] then none else host.identityFilePaths).getD [] = _
  by_cases empty : host.identityFilePaths.getD [] = []
  · rw [if_pos empty, empty]
    rfl
  · rw [if_neg empty, if_neg fun none_ => empty (List.isEmpty_iff.mp none_)]

end

end Entry

theorem exists_readBlocks {blocks : List SshConfigBlock} (start : ℕ)
    (usable : ∀ entry ∈ configEntries tools blocks, ∀ id, ∃ made,
      buildVaultHostFromDraft tools id (patternDraft entry.1 entry.2) = .ok made) :
    ∃ read, readBlocks tools blocks start = .ok read := by
  refine PairedLists.exists_foldlM (fun block mem state => PairedLists.exists_foldlM (fun pattern held state => ?_) state) _
  unfold readPattern
  dsimp only
  cases accepted : looksLikeHostnameToken tools (block.hostname.getD pattern) with
  | false => exact ⟨_, rfl⟩
  | true =>
    have entry : (block, pattern) ∈ configEntries tools blocks :=
      mem_flatMap.mpr ⟨block, mem, List.mem_map.mpr ⟨pattern, mem_filter.mpr ⟨held, accepted⟩, rfl⟩⟩
    obtain ⟨made, built⟩ := usable _ entry (tools.randomUUID state.issued)
    dsimp only at built
    rw [Bool.not_true, if_neg Bool.false_ne_true, built]
    exact ⟨_, rfl⟩

/-! ## Jump hosts -/

def Usable (tools : ImportTools) (jumpHost : ParsedJumpHost) : Prop :=
  ∀ id, ∃ made, buildVaultHostFromDraft tools id (inlineDraft jumpHost) = .ok made

theorem readPort_range {source : JsString} {port : ℕ} (read : readPort source = some port) : 1 ≤ port ∧ port ≤ 65535 := by
  unfold readPort at read
  split at read
  · cases read
  · split at read
    · rename_i range
      rw [Bool.and_eq_true, decide_eq_true_eq, decide_eq_true_eq] at range
      cases read
      omega
    · cases read

theorem parseJumpAddress_spec (rest : JsString) :
    (∀ unit ∈ (parseJumpAddress rest).1, unit ∈ rest) ∧
      ∀ port ∈ (parseJumpAddress rest).2, 1 ≤ port ∧ port ≤ 65535 := by
  unfold parseJumpAddress
  dsimp only
  split
  · split
    · exact ⟨fun _ mem => mem, fun _ mem => by cases mem⟩
    · refine ⟨fun unit mem => mem_of_mem_tail ((List.takeWhile_prefix _).subset mem), fun port mem => ?_⟩
      split at mem
      · exact readPort_range mem
      · cases mem
  · split
    · exact ⟨fun _ mem => mem, fun _ mem => by cases mem⟩
    · split
      · rename_i read
        exact ⟨fun unit mem => mem_of_mem_take mem, fun port mem => some_inj.mp mem ▸ readPort_range read⟩
      · exact ⟨fun _ mem => mem, fun _ mem => by cases mem⟩

theorem isUnsafe_of_units {s : JsString} (units : ∀ unit ∈ s, IsHopUnit unit) : isUnsafeSshConfigValue s = false := by
  refine isUnsafe_eq_false.mpr fun unit mem => ⟨fun same => ?_, fun same => ?_, (units unit mem).2.2.2⟩
  · exact absurd (same ▸ (units unit mem).1) (by decide)
  · exact absurd (same ▸ (units unit mem).1) (by decide)

/-- What is written for a hop is read as a jump host that can be added. -/
theorem usable_of_units {part : JsString} {jumpHost : ParsedJumpHost} (units : ∀ unit ∈ part, IsHopUnit unit)
    (plain : ¬text "ssh://" <+: part) (parsed : parseJumpHostSpec tools part = some jumpHost) : Usable tools jumpHost := by
  have trimmed {s : JsString} (units : ∀ unit ∈ s, IsHopUnit unit) : trim s = s := KnownHosts.Trimmed.trim_eq
    ⟨fun unit first => (units unit (mem_of_mem_head? first)).1,
      fun unit last => (units unit (mem_of_mem_getLast? last)).1⟩
  unfold parseJumpHostSpec at parsed
  dsimp only at parsed
  rw [trimmed units, if_neg fun url => plain (List.isPrefixOf_iff_prefix.mp url)] at parsed
  split at parsed
  · cases parsed
  generalize user_ : part.takeWhile (· ≠ QuickConnect.atSign) = user at parsed
  have userUnits : ∀ unit ∈ user, IsHopUnit unit :=
    fun unit mem => units unit ((List.takeWhile_prefix _).subset (user_ ▸ mem))
  generalize rest_ : (if user.length < part.length then part.drop (user.length + 1) else part) = rest at parsed
  have restUnits : ∀ unit ∈ rest, IsHopUnit unit := by
    intro unit mem
    rw [← rest_] at mem
    split at mem
    · exact units unit (mem_of_mem_drop mem)
    · exact units unit mem
  split at parsed
  · cases parsed
  · rename_i filled
    obtain ⟨inside, range⟩ := parseJumpAddress_spec rest
    have hostUnits : ∀ unit ∈ (parseJumpAddress rest).1, IsHopUnit unit := fun unit mem => restUnits unit (inside unit mem)
    have word : IsWord (parseJumpAddress rest).1 :=
      ⟨fun empty => filled (List.isEmpty_iff.mpr empty), fun unit mem => (hostUnits unit mem).1⟩
    have safe := isUnsafe_of_units hostUnits
    cases parsed
    intro id
    by_cases named : user.length < part.length
    · rw [if_pos named]
      exact ⟨_, buildVaultHostFromDraft_ssh ⟨word, safe⟩ ⟨word, safe⟩ ⟨trimmed userUnits, isUnsafe_of_units userUnits⟩ range⟩
    · rw [if_neg named]
      exact ⟨_, buildVaultHostFromDraft_ssh ⟨word, safe⟩ ⟨word, safe⟩ ⟨rfl, rfl⟩ range⟩

theorem usable_of_jumpValue {jumpHosts : List Host} {value : JsString} (jumps : IsJumpValue jumpHosts value)
    (logins : ∀ host ∈ jumpHosts, ¬text "ssh://" <+: host.username) :
    ∀ jumpHost ∈ parseProxyJump tools value, Usable tools jumpHost := by
  obtain ⟨parts, some_, rfl, hops⟩ := jumps
  intro jumpHost mem
  unfold parseProxyJump at mem
  split at mem
  · cases mem
  · have single : ∀ part ∈ parts, comma ∉ part := by
      intro part held comma_
      obtain ⟨host, -, isHop⟩ := hops part held
      exact (isHop.units comma comma_).2.2.1 rfl
    rw [splitOn_intercalate comma single some_] at mem
    obtain ⟨part, held, parsed⟩ := mem_filterMap.mp mem
    obtain ⟨own, mem, same⟩ := List.mem_map.mp (mem_of_mem_filter held)
    obtain ⟨host, jumps, isHop⟩ := hops own mem
    have trimmed : part = own := by
      rw [← same]
      exact KnownHosts.Trimmed.trim_eq ⟨fun unit first => (isHop.units unit (mem_of_mem_head? first)).1,
        fun unit last => (isHop.units unit (mem_of_mem_getLast? last)).1⟩
    rw [trimmed] at parsed
    exact usable_of_units isHop.units (fun url => logins host jumps (isHop.url url)) parsed

theorem exists_attachAllJumps {values : OrderedMap JsString JsString}
    (usable : ∀ key value, values.get? key = some value → ∀ jumpHost ∈ parseProxyJump tools value, Usable tools jumpHost)
    (hosts : List Host) (state : JumpLookup) : ∃ run, attachAllJumps tools values hosts state = .ok run := by
  induction hosts generalizing state with
  | nil => exact ⟨_, rfl⟩
  | cons host hosts ih =>
    have jumps : ∀ jumpHost ∈ jumpsOf tools values host, Usable tools jumpHost := by
      intro jumpHost mem
      unfold jumpsOf at mem
      cases found : values.get? (makeHostKey tools.toLowerCase host.hostname host.port) with
      | none =>
        rw [found] at mem
        cases mem
      | some value =>
        rw [found] at mem
        exact usable _ value found jumpHost mem
    obtain ⟨step, first⟩ : ∃ step, attachJumps tools values state host = .ok step := by
      obtain ⟨chain, resolved⟩ := PairedLists.exists_foldlM (f := resolveJump tools) (l := jumpsOf tools values host)
        (fun jumpHost mem chain => by
          unfold resolveJump
          dsimp only
          split
          · exact ⟨_, rfl⟩
          · split
            · exact ⟨_, rfl⟩
            · obtain ⟨made, built⟩ := jumps jumpHost mem (tools.randomUUID chain.state.issued)
              rw [built]
              exact ⟨_, rfl⟩) ⟨state, [], []⟩
      unfold attachJumps
      dsimp only
      split
      · exact ⟨_, rfl⟩
      · rw [resolved, ok_bind]
        split
        · exact ⟨_, rfl⟩
        · exact ⟨_, rfl⟩
    obtain ⟨rest, others⟩ := ih step.2
    exact ⟨(step.1 :: rest.1, rest.2), by rw [attachAllJumps, first, ok_bind, others, ok_bind, pure_eq_ok]⟩

/-! ## The import -/

theorem firstCopies_paired {R : Host → Host → Prop} {key key' : Host → JsString} {hosts others : List Host}
    (paired : Forall₂ R hosts others) (same : ∀ host other, R host other → key' other = key host)
    (seen : List JsString) :
    Forall₂ R (firstCopies key (fun _ => true) seen hosts) (firstCopies key' (fun _ => true) seen others) := by
  induction paired generalizing seen with
  | nil => exact .nil
  | cons held _ ih =>
    rw [firstCopies, firstCopies, same _ _ held]
    split
    · exact .cons held (ih _)
    split
    · exact ih _
    · exact .cons held (ih _)

theorem own_hosts {kept inline cut : List Host} {ownIds : List JsString}
    (bare : cut.map Host.bare = (kept ++ inline).map Host.bare) (own : ∀ host ∈ kept, host.id ∈ ownIds)
    (foreign : ∀ host ∈ inline, host.id ∉ ownIds) :
    Forall₂ (fun host other => host.bare = other.bare) kept (cut.filter (·.id ∈ ownIds)) := by
  have paired := PairedLists.of_map_eq bare.symm
  have filtered := rel_filter (p := fun host : Host => decide (host.id ∈ ownIds))
    (q := fun host : Host => decide (host.id ∈ ownIds)) (fun host other same => by
      dsimp only
      rw [field_of_bare same Host.id fun _ => rfl]) paired
  rw [filter_append, filter_eq_self.mpr fun host mem => decide_eq_true (own host mem),
    filter_eq_nil_iff.mpr fun host mem => by rw [decide_eq_true_eq]; exact foreign host mem, append_nil] at filtered
  exact filtered

theorem ReadBack.of_core {host made kept : Host} (read : ReadBack tools host made) (copied : Copied made kept) :
    ReadBack tools host kept where
  hostname := (copied.field Host.hostname fun _ => rfl).trans read.hostname
  username := (copied.field Host.username fun _ => rfl).trans read.username
  port := (copied.field Host.port fun _ => rfl).trans read.port
  identityAgent := (copied.field Host.identityAgent fun _ => rfl).trans read.identityAgent
  identitiesOnly := (copied.field Host.identitiesOnly fun _ => rfl).trans read.identitiesOnly
  addKeysToAgent := (copied.field Host.addKeysToAgent fun _ => rfl).trans read.addKeysToAgent
  useKeychain := (copied.field Host.useKeychain fun _ => rfl).trans read.useKeychain

theorem ReadBack.of_bare {host kept imported : Host} (read : ReadBack tools host kept) (bare : kept.bare = imported.bare) :
    ReadBack tools host imported where
  hostname := (field_of_bare bare Host.hostname fun _ => rfl).symm.trans read.hostname
  username := (field_of_bare bare Host.username fun _ => rfl).symm.trans read.username
  port := (field_of_bare bare Host.port fun _ => rfl).symm.trans read.port
  identityAgent := (field_of_bare bare Host.identityAgent fun _ => rfl).symm.trans read.identityAgent
  identitiesOnly := (field_of_bare bare Host.identitiesOnly fun _ => rfl).symm.trans read.identitiesOnly
  addKeysToAgent := (field_of_bare bare Host.addKeysToAgent fun _ => rfl).symm.trans read.addKeysToAgent
  useKeychain := (field_of_bare bare Host.useKeychain fun _ => rfl).symm.trans read.useKeychain

theorem block_of_lastProxyJump {entries : List (SshConfigBlock × JsString)} {key value : JsString}
    (last : lastProxyJump tools entries key = some value) : ∃ entry ∈ entries, entry.1.proxyJump = some value := by
  obtain ⟨entry, mem, stored⟩ := mem_filterMap.mp (mem_of_getLast? last)
  refine ⟨entry, mem_of_mem_filter mem, ?_⟩
  unfold storedProxyJump at stored
  obtain ⟨own, held, stored⟩ := bind_eq_some_iff.mp stored
  split at stored
  · cases stored
  · rw [held, some_inj.mp stored]

end RoundTrip

def managedHost (label hostname : String) (paths : List String) : Host :=
  { plainHost (text label) (text hostname) [] none with
    label := text label
    username := text "root"
    identityFilePaths := some (paths.map text) }

theorem isPlain_of_all {value : JsString} (all : value.all (!isArgumentMark ·)) : IsPlain value := by
  intro unit mem
  have held := List.all_eq_true.mp all unit mem
  rwa [Bool.not_eq_true'] at held

def blankHost : Host := managedHost "web" "10.0.0.1" ["~/My Keys/id"]

theorem writable_blankHost : Writable plainTools.toLowerCase blankHost := by
  have spaced : IsSpaced (JsonText.quoteMark :: (text "~/My Keys/id" ++ [JsonText.quoteMark])) := by
    unfold IsSpaced
    decide +kernel
  have path : IsPath (text "~/My Keys/id") :=
    ⟨by decide, by decide, by decide, by decide, spaced, fun _ => ⟨by decide, by decide⟩⟩
  refine ⟨⟨by decide, isPlain_of_all (by decide)⟩, isPlain_of_all (by decide), fun port mem => ?_, fun own mem => ?_,
    fun agent mem => ?_, fun value mem => ?_⟩
  · cases mem
    decide
  · exact mem_singleton.mp mem ▸ path
  · cases mem
  · cases mem

/-- Labels, host names and key paths of hosts that are written and imported again. -/
def importedAgain (hosts : List Host) : Option (List (JsString × JsString × Option (List JsString))) :=
  ((serializeHostsToSshConfig plainTools.toLowerCase hosts none).toOption.bind fun source =>
    (importFromSshConfig plainTools 0 source).toOption).map fun result =>
      result.1.hosts.map fun host => (host.label, host.hostname, host.identityFilePaths)

end Netcatty.VaultImport
