import Mathlib.Data.List.Forall2
import Mathlib.Logic.Relation
import Netcatty.JsText
import Netcatty.JsonText
import Netcatty.OrderedMap

/-!
The hosts of an import, their merge keys and their jump chains.

Hosts with one merge key are one session: the first copy stays and takes what it lacks from the
later ones.  Only tags, label and credentials change that way, so what is kept are the first
copies of the keys, each with its own chain (`dedupeHosts_copies`).
-/

namespace Netcatty.VaultImport

open List

/-- What an import reads and writes of a host.  A chain is the list of its hops' ids. -/
structure Host where
  id : JsString
  label : JsString
  hostname : JsString
  port : Option ℕ
  username : JsString
  group : Option JsString
  tags : List JsString
  os : JsString
  protocol : Option JsString
  pluginConnection : Bool
  password : Option JsString
  authMethod : Option JsString
  authPolicyVersion : Option ℕ
  useSshAgent : Option Bool
  identityFilePaths : Option (List JsString)
  identityId : Option JsString
  telnetIdentityId : Option JsString
  identityFileId : Option JsString
  identityAgent : Option JsString
  identitiesOnly : Option Bool
  addKeysToAgent : Option JsString
  useKeychain : Option Bool
  hostChain : Option (List JsString)
  localShell : Option JsString
  localShellArgs : Option (List JsString)
  localShellName : Option JsString
  localStartDir : Option JsString
  x11Forwarding : Option Bool
  moshEnabled : Option Bool
  deriving DecidableEq

def Host.hops (host : Host) : List JsString := host.hostChain.getD []

/-- A text that is present and not empty. -/
def truthy (value : Option JsString) : Bool := value.any (!·.isEmpty)

/-! ## Merge keys -/

def normalizeGroupPath (raw : Option JsString) : Option JsString :=
  match raw with
  | none => none
  | some raw =>
    let slashed := (trim raw).map fun unit => if unit = backslash then slash else unit
    let parts := ((slashed.splitOn slash).map trim).filter (!·.isEmpty)
    if parts.isEmpty then none else some ([slash].intercalate parts)

section Keys

variable (toLowerCase : JsString → JsString)

def buildVaultHostEndpointKey (host : Host) : JsString :=
  let port := if host.protocol = some (text "local") then some (host.port.getD 22) else host.port
  toLowerCase (host.protocol.getD (text "ssh")) ++ text "|" ++ toLowerCase host.hostname ++ text "|" ++
    (port.map decimal).getD (text "undefined") ++ text "|" ++ toLowerCase host.username

/-- The session a host stands for. -/
def buildVaultHostMergeKey (numberText : ℚ → JsString) (host : Host) : JsString :=
  let group := (normalizeGroupPath host.group).getD []
  let endpointGroupKey := buildVaultHostEndpointKey toLowerCase host ++ text "|" ++ group
  if host.protocol ≠ some (text "local") then endpointGroupKey
  else
    let arguments := (host.localShellArgs.map fun arguments => stringify numberText (.arr (arguments.map .str))).getD []
    endpointGroupKey ++ text "|" ++ (text "|").intercalate
      [host.os, host.localShell.getD [], host.localShellName.getD [], arguments, host.localStartDir.getD []]

end Keys

/-! ## Copies of one session -/

def hasKeyPath (host : Host) : Bool := (host.identityFilePaths.getD []).any fun path => !(trim path).isEmpty

variable (existing host : Host)

def takePassword : Host :=
  if !truthy existing.password && truthy host.password then { existing with password := host.password }
  else existing

def takeKeyPath : Host :=
  if !hasKeyPath existing && !(host.identityFilePaths.getD []).isEmpty then
    { existing with
      identityFilePaths := host.identityFilePaths
      authMethod := host.authMethod
      authPolicyVersion := host.authPolicyVersion
      useSshAgent := host.useSshAgent }
  else existing

def takeIdentities : Host :=
  let retainedHasCredentialSource := truthy existing.identityId || truthy existing.telnetIdentityId ||
    truthy existing.identityFileId || hasKeyPath existing || truthy existing.password
  if retainedHasCredentialSource then existing
  else { existing with
    identityId := if truthy host.identityId then host.identityId else existing.identityId
    telnetIdentityId := if truthy host.telnetIdentityId then host.telnetIdentityId else existing.telnetIdentityId
    identityFileId := if truthy host.identityFileId then host.identityFileId else existing.identityFileId }

def takeGroup : Host :=
  if existing.group = none then { existing with group := host.group } else existing

def takeLabel : Host :=
  if existing.label = existing.hostname && !host.label.isEmpty && host.label ≠ host.hostname then
    { existing with label := host.label }
  else existing

/-- The body of `dedupeHosts` for a copy: the kept host takes what it lacks. -/
def mergeCopy : Host :=
  let existing := { existing with tags := (existing.tags ++ host.tags).eraseDups }
  let existing := takePassword existing host
  let existing := takeKeyPath existing host
  let existing := takeIdentities existing host
  let existing := takeGroup existing host
  takeLabel existing host

/-- What a host keeps when it takes from its copies. -/
def Host.core (host : Host) : Host :=
  { host with
    label := []
    group := none
    tags := []
    password := none
    authMethod := none
    authPolicyVersion := none
    useSshAgent := none
    identityFilePaths := none
    identityId := none
    telnetIdentityId := none
    identityFileId := none }

/-- The host, with what it may have taken from its copies. -/
structure Copied (host kept : Host) : Prop where
  core : kept.core = host.core
  group : host.group ≠ none → kept.group = host.group

theorem Copied.refl (host : Host) : Copied host host := ⟨rfl, fun _ => rfl⟩

section Fields

variable {host kept : Host}

theorem Copied.field {α : Type} (copied : Copied host kept) (field : Host → α)
    (unmerged : ∀ host : Host, field host.core = field host) : field kept = field host := by
  rw [← unmerged kept, copied.core, unmerged]

theorem Copied.id (copied : Copied host kept) : kept.id = host.id := copied.field Host.id fun _ => rfl

theorem Copied.hops (copied : Copied host kept) : kept.hops = host.hops := copied.field Host.hops fun _ => rfl

theorem Copied.mergeKey (copied : Copied host kept) (some_ : host.group ≠ none) (toLowerCase : JsString → JsString)
    (numberText : ℚ → JsString) :
    buildVaultHostMergeKey toLowerCase numberText kept = buildVaultHostMergeKey toLowerCase numberText host := by
  unfold buildVaultHostMergeKey
  rw [copied.field (buildVaultHostEndpointKey toLowerCase) fun _ => rfl, copied.group some_,
    copied.field Host.protocol fun _ => rfl, copied.field Host.localShellArgs fun _ => rfl,
    copied.field Host.os fun _ => rfl, copied.field Host.localShell fun _ => rfl,
    copied.field Host.localShellName fun _ => rfl, copied.field Host.localStartDir fun _ => rfl]

end Fields

theorem Copied.trans {host kept later : Host} (first : Copied host kept) (second : Copied kept later) :
    Copied host later :=
  ⟨second.core.trans first.core, fun some_ =>
    (second.group (by rw [first.group some_]; exact some_)).trans (first.group some_)⟩

theorem copied_mergeCopy : Copied existing (mergeCopy existing host) := by
  have tags (existing : Host) : Copied existing { existing with tags := (existing.tags ++ host.tags).eraseDups } :=
    ⟨rfl, fun _ => rfl⟩
  have password (existing : Host) : Copied existing (takePassword existing host) := by
    unfold takePassword
    split
    · exact ⟨rfl, fun _ => rfl⟩
    · exact .refl existing
  have keyPath (existing : Host) : Copied existing (takeKeyPath existing host) := by
    unfold takeKeyPath
    split
    · exact ⟨rfl, fun _ => rfl⟩
    · exact .refl existing
  have identities (existing : Host) : Copied existing (takeIdentities existing host) := by
    unfold takeIdentities
    dsimp only
    split
    · exact .refl existing
    · exact ⟨rfl, fun _ => rfl⟩
  have group (existing : Host) : Copied existing (takeGroup existing host) := by
    unfold takeGroup
    split
    · rename_i none_
      exact ⟨rfl, fun some_ => (some_ none_).elim⟩
    · exact .refl existing
  have label (existing : Host) : Copied existing (takeLabel existing host) := by
    unfold takeLabel
    split
    · exact ⟨rfl, fun _ => rfl⟩
    · exact .refl existing
  exact (tags existing).trans ((password _).trans ((keyPath _).trans ((identities _).trans ((group _).trans (label _)))))

/-- Where each key's first copy stands among the hosts kept so far. -/
structure Deduped where
  seen : OrderedMap JsString ℕ
  retained : List Host
  duplicates : ℕ

/-- One turn of the loop of `dedupeHosts`. -/
def dedupeHost (hostKey : Host → JsString) (isCollapsible : Host → Bool) (state : Deduped) (host : Host) : Deduped :=
  if !isCollapsible host then { state with retained := state.retained ++ [host] }
  else
    match state.seen.get? (hostKey host) with
    | none =>
      { state with
        seen := state.seen.set (hostKey host) state.retained.length
        retained := state.retained ++ [host] }
    | some place =>
      { state with
        retained := state.retained.modify place (mergeCopy · host)
        duplicates := state.duplicates + 1 }

def dedupeHosts (hostKey : Host → JsString) (isCollapsible : Host → Bool) (hosts : List Host) : List Host × ℕ :=
  let state := hosts.foldl (dedupeHost hostKey isCollapsible) ⟨.empty, [], 0⟩
  (state.retained, state.duplicates)

/-- The hosts that are kept, as they came: those that may not be collapsed, and the first of each
key among the others. -/
def firstCopies (hostKey : Host → JsString) (isCollapsible : Host → Bool) : List JsString → List Host → List Host
  | _, [] => []
  | seen, host :: hosts =>
    if !isCollapsible host then host :: firstCopies hostKey isCollapsible seen hosts
    else if hostKey host ∈ seen then firstCopies hostKey isCollapsible seen hosts
    else host :: firstCopies hostKey isCollapsible (hostKey host :: seen) hosts

section Dedupe

variable {hostKey : Host → JsString} {isCollapsible : Host → Bool}

theorem forall₂_modify {R : Host → Host → Prop} {place : ℕ} {base kept : List Host} (copies : Forall₂ R base kept)
    {f : Host → Host} (step : ∀ first, base[place]? = some first → ∀ other, R first other → R first (f other)) :
    Forall₂ R base (kept.modify place f) := by
  induction copies generalizing place with
  | nil =>
    rw [modify_nil]
    exact .nil
  | cons copy copies ih =>
    cases place with
    | zero => exact .cons (step _ rfl _ copy) copies
    | succ place => exact .cons copy (ih step)

/-- The kept hosts are the first copies, each with what it took from the others: what holds of a
host itself, and stays when it takes from a later copy, holds of all that are kept. -/
theorem forall₂_dedupe {R : Host → Host → Prop} {all : List Host} (refl : ∀ host, R host host)
    (step : ∀ first host, [first, host].Sublist all → hostKey first = hostKey host →
      ∀ other, R first other → R first (mergeCopy other host))
    {before : List Host} (hosts : List Host) (whole : all = before ++ hosts) {state : Deduped} {base : List Host}
    {seen : List JsString} (copies : Forall₂ R base state.retained)
    (same : ∀ key, state.seen.has key ↔ key ∈ seen)
    (places : ∀ key place, state.seen.get? key = some place →
      ∃ first, base[place]? = some first ∧ hostKey first = key ∧ first ∈ before) :
    Forall₂ R (base ++ firstCopies hostKey isCollapsible seen hosts)
      (hosts.foldl (dedupeHost hostKey isCollapsible) state).retained := by
  induction hosts generalizing state base seen before with
  | nil =>
    rw [firstCopies, append_nil]
    exact copies
  | cons host hosts ih =>
    have added : Forall₂ R (base ++ [host]) (state.retained ++ [host]) :=
      rel_append copies (.cons (refl host) .nil)
    have whole' : all = before ++ [host] ++ hosts := whole.trans (append_cons _ _ _)
    have length : state.retained.length = base.length := copies.length_eq.symm
    have old_places : ∀ key place, state.seen.get? key = some place →
        ∃ first, (base ++ [host])[place]? = some first ∧ hostKey first = key ∧ first ∈ before ++ [host] := by
      intro key place found
      obtain ⟨first, held, own, mem⟩ := places key place found
      have inside := (List.getElem?_eq_some_iff.mp held).1
      exact ⟨first, (getElem?_append_left inside).trans held, own, mem_append_left _ mem⟩
    rw [foldl_cons, dedupeHost, firstCopies]
    cases isCollapsible host with
    | false =>
      rw [Bool.not_false, if_pos rfl, if_pos rfl, append_cons]
      exact ih whole' added same old_places
    | true =>
      rw [Bool.not_true, if_neg Bool.false_ne_true, if_neg Bool.false_ne_true]
      cases found : state.seen.get? (hostKey host) with
      | none =>
        have fresh : hostKey host ∉ seen := by
          rw [← same, OrderedMap.has, found]
          exact Bool.false_ne_true
        rw [if_neg fresh, append_cons]
        refine ih whole' added (fun key => ?_) fun key place held => ?_
        · rw [OrderedMap.has, OrderedMap.get?_set, mem_cons, ← same]
          by_cases own : key = hostKey host
          · simp [own]
          · simp [own, OrderedMap.has]
        · rw [OrderedMap.get?_set] at held
          split at held
          · rename_i own
            cases held
            refine ⟨host, ?_, own.symm, mem_append_right _ (mem_singleton_self _)⟩
            rw [length, getElem?_concat_length]
          · exact old_places key place held
      | some place =>
        have old : hostKey host ∈ seen := by
          rw [← same, OrderedMap.has, found]
          rfl
        rw [if_pos old]
        obtain ⟨first, held, own, mem⟩ := places _ place found
        refine ih whole' (forall₂_modify copies fun other here => ?_) same fun key place found => ?_
        · cases held.symm.trans here
          refine step first host ?_ own
          rw [whole]
          exact (singleton_sublist.mpr mem).append (singleton_sublist.mpr mem_cons_self)
        · obtain ⟨first, held, own, mem⟩ := places key place found
          exact ⟨first, held, own, mem_append_left _ mem⟩

theorem forall₂_dedupeHosts {R : Host → Host → Prop} (hosts : List Host) (refl : ∀ host, R host host)
    (step : ∀ first host, [first, host].Sublist hosts → hostKey first = hostKey host →
      ∀ other, R first other → R first (mergeCopy other host)) :
    Forall₂ R (firstCopies hostKey isCollapsible [] hosts) (dedupeHosts hostKey isCollapsible hosts).1 := by
  have none_ (key : JsString) : (OrderedMap.empty : OrderedMap JsString ℕ).has key = true ↔ key ∈ ([] : List JsString) := by
    simp [OrderedMap.has]
  exact @forall₂_dedupe hostKey isCollapsible R hosts refl step [] hosts rfl ⟨.empty, [], 0⟩ [] [] .nil none_
    fun _ _ found => by cases found

theorem dedupeHosts_copies (hosts : List Host) :
    Forall₂ Copied (firstCopies hostKey isCollapsible [] hosts) (dedupeHosts hostKey isCollapsible hosts).1 :=
  forall₂_dedupeHosts hosts .refl fun _ host _ _ other copy => copy.trans (copied_mergeCopy other host)

theorem paths_mergeCopy {existing : Host} (own : hasKeyPath existing) (host : Host) :
    (mergeCopy existing host).identityFilePaths = existing.identityFilePaths := by
  have password (kept : Host) : (takePassword kept host).identityFilePaths = kept.identityFilePaths := by
    unfold takePassword
    split
    · rfl
    · rfl
  have keyPath (kept : Host) (own : hasKeyPath kept = true) : takeKeyPath kept host = kept := by
    rw [takeKeyPath, own]
    rfl
  have identities (kept : Host) : (takeIdentities kept host).identityFilePaths = kept.identityFilePaths := by
    unfold takeIdentities
    dsimp only
    split
    · rfl
    · rfl
  have group (kept : Host) : (takeGroup kept host).identityFilePaths = kept.identityFilePaths := by
    unfold takeGroup
    split
    · rfl
    · rfl
  have label (kept : Host) : (takeLabel kept host).identityFilePaths = kept.identityFilePaths := by
    unfold takeLabel
    split
    · rfl
    · rfl
  unfold mergeCopy
  dsimp only
  rw [label, group, identities, keyPath, password]
  rw [hasKeyPath, password]
  exact own

theorem dedupeHosts_paths (hosts : List Host) : Forall₂ (fun host kept => Copied host kept ∧
        (hasKeyPath host → kept.identityFilePaths = host.identityFilePaths) ∧
        ((hosts.map hostKey).count (hostKey host) = 1 → kept = host))
      (firstCopies hostKey isCollapsible [] hosts) (dedupeHosts hostKey isCollapsible hosts).1 := by
  refine forall₂_dedupeHosts hosts (fun host => ⟨.refl host, fun _ => rfl, fun _ => rfl⟩) ?_
  intro first host twice same other held
  obtain ⟨copied, paths, -⟩ := held
  refine ⟨copied.trans (copied_mergeCopy other host), fun own => ?_, fun once => ?_⟩
  · have kept : hasKeyPath other = true := by
      rw [hasKeyPath, paths own]
      exact own
    rw [paths_mergeCopy kept, paths own]
  · have count := (twice.map hostKey).count_le (hostKey first)
    rw [once, map_cons, map_singleton, ← same, count_cons_self, count_singleton_self] at count
    omega

theorem firstCopies_sublist (seen : List JsString) (hosts : List Host) :
    (firstCopies hostKey isCollapsible seen hosts).Sublist hosts := by
  induction hosts generalizing seen with
  | nil => exact .slnil
  | cons host hosts ih =>
    rw [firstCopies]
    split
    · exact (ih seen).cons_cons host
    split
    · exact (ih seen).cons host
    · exact (ih _).cons_cons host

theorem exists_firstCopy {hosts : List Host} {seen : List JsString} {host : Host} (mem : host ∈ hosts) :
    host ∈ firstCopies hostKey isCollapsible seen hosts ∨
      isCollapsible host ∧ (hostKey host ∈ seen ∨
        ∃ first ∈ firstCopies hostKey isCollapsible seen hosts,
          isCollapsible first ∧ hostKey first = hostKey host) := by
  induction hosts generalizing seen with
  | nil => cases mem
  | cons first hosts ih =>
    rw [firstCopies]
    cases collapsible : isCollapsible first with
    | false =>
      rw [Bool.not_false, if_pos rfl]
      rcases mem_cons.mp mem with rfl | mem
      · exact .inl mem_cons_self
      · rcases ih mem with kept | ⟨loose, old | ⟨other, kept, also, same⟩⟩
        · exact .inl (mem_cons_of_mem _ kept)
        · exact .inr ⟨loose, .inl old⟩
        · exact .inr ⟨loose, .inr ⟨other, mem_cons_of_mem _ kept, also, same⟩⟩
    | true =>
      rw [Bool.not_true, if_neg Bool.false_ne_true]
      by_cases old : hostKey first ∈ seen
      · rw [if_pos old]
        rcases mem_cons.mp mem with rfl | mem
        · exact .inr ⟨collapsible, .inl old⟩
        · exact ih mem
      · rw [if_neg old]
        rcases mem_cons.mp mem with rfl | mem
        · exact .inl mem_cons_self
        · rcases ih mem with kept | ⟨loose, old | ⟨other, kept, also, same⟩⟩
          · exact .inl (mem_cons_of_mem _ kept)
          · rcases mem_cons.mp old with same | old
            · exact .inr ⟨loose, .inr ⟨first, mem_cons_self, collapsible, same.symm⟩⟩
            · exact .inr ⟨loose, .inl old⟩
          · exact .inr ⟨loose, .inr ⟨other, mem_cons_of_mem _ kept, also, same⟩⟩

theorem nodup_firstCopies (seen : List JsString) (hosts : List Host) :
    (((firstCopies hostKey isCollapsible seen hosts).filter isCollapsible).map hostKey).Nodup ∧
      ∀ host ∈ firstCopies hostKey isCollapsible seen hosts, isCollapsible host → hostKey host ∉ seen := by
  induction hosts generalizing seen with
  | nil => exact ⟨nodup_nil, fun _ mem => (not_mem_nil mem).elim⟩
  | cons first hosts ih =>
    rw [firstCopies]
    cases collapsible : isCollapsible first with
    | false =>
      obtain ⟨distinct, fresh⟩ := ih seen
      rw [Bool.not_false, if_pos rfl, filter_cons_of_neg (by rw [collapsible]; exact Bool.false_ne_true)]
      refine ⟨distinct, fun host mem loose => ?_⟩
      rcases mem_cons.mp mem with rfl | mem
      · rw [collapsible] at loose
        cases loose
      · exact fresh host mem loose
    | true =>
      rw [Bool.not_true, if_neg Bool.false_ne_true]
      by_cases old : hostKey first ∈ seen
      · rw [if_pos old]
        exact ih seen
      · rw [if_neg old]
        obtain ⟨distinct, fresh⟩ := ih (hostKey first :: seen)
        rw [filter_cons_of_pos collapsible, map_cons, nodup_cons]
        refine ⟨⟨fun mem => ?_, distinct⟩, fun host mem loose => ?_⟩
        · obtain ⟨other, held, same⟩ := List.mem_map.mp mem
          obtain ⟨held, loose⟩ := mem_filter.mp held
          exact fresh other held loose (same ▸ mem_cons_self)
        · rcases mem_cons.mp mem with rfl | mem
          · exact old
          · exact fun early => fresh host mem loose (mem_cons_of_mem _ early)

end Dedupe

/-! ## Jump graphs -/

def plainHost (name hostname group : JsString) (chain : Option (List JsString)) : Host where
  id := name
  label := hostname
  hostname := hostname
  port := some 22
  username := []
  group := some group
  tags := []
  os := text "linux"
  protocol := some (text "ssh")
  pluginConnection := false
  password := none
  authMethod := none
  authPolicyVersion := none
  useSshAgent := none
  identityFilePaths := none
  identityId := none
  telnetIdentityId := none
  identityFileId := none
  identityAgent := none
  identitiesOnly := none
  addKeysToAgent := none
  useKeychain := none
  hostChain := chain
  localShell := none
  localShellArgs := none
  localShellName := none
  localStartDir := none
  x11Forwarding := none
  moshEnabled := none

def JumpsTo (hosts : List Host) (source hop : JsString) : Prop :=
  ∃ host ∈ hosts, host.id = source ∧ hop ∈ host.hops

/-- No host is reached from itself. -/
def Acyclic (jumps : JsString → JsString → Prop) : Prop := ∀ host, ¬Relation.TransGen jumps host host

/-- Every hop is one of the hosts, and no host is its own hop, directly or through others. -/
structure SoundJumps (hosts : List Host) : Prop where
  closed : ∀ host ∈ hosts, ∀ hop ∈ host.hops, hop ∈ hosts.map Host.id
  acyclic : Acyclic (JumpsTo hosts)

end Netcatty.VaultImport
