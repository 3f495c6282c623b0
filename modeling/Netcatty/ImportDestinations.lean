import Netcatty.VaultHosts

/-!
Moving an import into one group.

Copies of a session that come together in the group are collapsed onto the first, and every
chain is led to the hosts that are kept.  No chain is left dangling and no host jumps through
itself, but a cycle that the copies had kept apart closes: the jump graph stays sound exactly
when no kept hosts reach each other in a circle through their hops or copies of them
(`destination_sound_iff`).
-/

namespace Netcatty.VaultImport

open List Option OrderedMap

structure VaultHostKeyPassphrase where
  hostId : JsString
  keyPath : JsString
  passphrase : JsString

structure VaultImportStats where
  parsed : ℕ
  imported : ℕ
  skipped : ℕ
  duplicates : ℕ

structure VaultImportResult where
  hosts : List Host
  groups : List JsString
  stats : VaultImportStats
  keyPassphrases : Option (List VaultHostKeyPassphrase)
  keyPassphraseCandidates : Option (List VaultHostKeyPassphrase)

inductive VaultImportDestination where
  | preserve
  | group (group : JsString)

/-- The options.  Whether a host may be collapsed does not depend on what a host takes from its
copies; the one caller that says so looks at the plugin connection. -/
structure ApplyVaultImportDestinationOptions where
  collapseDuplicateEndpoints : Option Bool
  isCollapsible : Host → Bool
  stable : ∀ host kept, Copied host kept → isCollapsible kept = isCollapsible host

/-- Nothing asked for. -/
def ApplyVaultImportDestinationOptions.default : ApplyVaultImportDestinationOptions :=
  ⟨none, fun _ => true, fun _ _ _ => rfl⟩

/-- A path that starts with a drive letter or two slashes. -/
def isWindowsPath (keyPath : JsString) : Bool :=
  let isSlash (unit : Fin 65536) : Bool := unit = slash || unit = backslash
  match keyPath with
  | first :: second :: rest =>
    (isSlash first && isSlash second) ||
      (97 ≤ (asciiLower first).val && (asciiLower first).val ≤ 122 && second.val = 58 && (rest.head?.any isSlash))
  | _ => false

section Destination

variable (toLowerCase : JsString → JsString) (hostKey : Host → JsString)

def normalizeKeyPathKey (keyPath : JsString) : JsString :=
  if isWindowsPath keyPath then
    toLowerCase (keyPath.map fun unit => if unit = backslash then slash else unit)
  else keyPath

def moved (group : JsString) (host : Host) : Host := { host with group := some group }

/-- Where the ids of an import lead once it is collapsed into a group. -/
structure Retained where
  hosts : List Host
  byMergeKey : OrderedMap JsString Host
  originalById : OrderedMap JsString Host

variable (isCollapsible : Host → Bool)

def retain (originals hosts : List Host) : Retained where
  hosts := hosts
  byMergeKey := .ofList ((hosts.filter isCollapsible).map fun host => (hostKey host, host))
  originalById := .ofList (originals.map fun host => (host.id, host))

def remapHostId (group : JsString) (retained : Retained) (hostId : JsString) :
    Option JsString :=
  if hostId ∈ retained.hosts.map Host.id then some hostId
  else
    match retained.originalById.get? hostId with
    | none => none
    | some original =>
      if !isCollapsible (moved group original) then none
      else (retained.byMergeKey.get? (hostKey (moved group original))).map Host.id

def nextHop (group : JsString) (retained : Retained) (hostId : JsString) :
    Option JsString :=
  match remapHostId hostKey isCollapsible group retained hostId with
  | some mapped => some mapped
  | none => if retained.originalById.has hostId then none else some hostId

/-- One turn of the loop over a chain. -/
def pushHop (next : JsString → Option JsString) (own : JsString) (hostIds : List JsString) (hostId : JsString) :
    List JsString :=
  match next hostId with
  | none => hostIds
  | some nextId => if nextId.isEmpty || nextId = own || nextId ∈ hostIds then hostIds else hostIds ++ [nextId]

def remapHost (next : JsString → Option JsString) (host : Host) : Host :=
  if host.hops.isEmpty then host
  else
    let hostIds := host.hops.foldl (pushHop next host.id) []
    if hostIds = host.hops then host
    else if hostIds.isEmpty then { host with hostChain := none }
    else { host with hostChain := some hostIds }

def selectedKey (host : Host) : Option JsString :=
  ((host.identityFilePaths.getD []).find? fun path => !(trim path).isEmpty).map
    fun path => normalizeKeyPathKey toLowerCase (trim path)

/-- One turn of `remapKeyPassphrases`: the entries kept so far, and their keys. -/
def remapKeyPassphrase (remap : JsString → Option JsString) (selected : OrderedMap JsString (Option JsString))
    (matchSelectedKey : Bool) (state : List VaultHostKeyPassphrase × List JsString) (entry : VaultHostKeyPassphrase) :
    List VaultHostKeyPassphrase × List JsString :=
  match remap entry.hostId with
  | none => state
  | some nextHostId =>
    let keyPathKey := normalizeKeyPathKey toLowerCase entry.keyPath
    let unselected := match (selected.get? nextHostId).join with
      | none => true
      | some selectedKey => selectedKey.isEmpty || keyPathKey ≠ selectedKey
    if nextHostId.isEmpty || (matchSelectedKey && unselected) then state
    else
      let dedupeKey := nextHostId ++ text "\x00" ++ keyPathKey ++ text "\x00" ++ entry.passphrase
      if dedupeKey ∈ state.2 then state
      else (state.1 ++ [{ entry with hostId := nextHostId }], dedupeKey :: state.2)

def remapKeyPassphrases (remap : JsString → Option JsString) (selected : OrderedMap JsString (Option JsString))
    (matchSelectedKey : Bool) (entries : Option (List VaultHostKeyPassphrase)) : Option (List VaultHostKeyPassphrase) :=
  entries.map fun entries =>
    (entries.foldl (remapKeyPassphrase toLowerCase remap selected matchSelectedKey) ([], [])).1

def applyVaultImportDestination (result : VaultImportResult) (destination : VaultImportDestination)
    (options : ApplyVaultImportDestinationOptions) : VaultImportResult :=
  match destination with
  | .preserve => result
  | .group raw =>
    match normalizeGroupPath (some raw) with
    | none => result
    | some group =>
      let rewrittenHosts := result.hosts.map (moved group)
      if options.collapseDuplicateEndpoints = some false then { result with hosts := rewrittenHosts, groups := [group] }
      else
        let deduped := dedupeHosts hostKey options.isCollapsible rewrittenHosts
        let retained := retain hostKey options.isCollapsible result.hosts deduped.1
        let remap := remapHostId hostKey options.isCollapsible group retained
        let selected := OrderedMap.ofList (deduped.1.map fun host => (host.id, selectedKey toLowerCase host))
        { result with
          hosts := deduped.1.map (remapHost (nextHop hostKey options.isCollapsible group retained))
          groups := [group]
          keyPassphrases := remapKeyPassphrases toLowerCase remap selected true result.keyPassphrases
          keyPassphraseCandidates :=
            remapKeyPassphrases toLowerCase remap selected false result.keyPassphraseCandidates
          stats := { result.stats with
            imported := deduped.1.length
            duplicates := result.stats.duplicates + deduped.2 } }

end Destination

/-! ## Chains that were led elsewhere -/

theorem mem_foldl_pushHop {next : JsString → Option JsString} {own hop : JsString} {hostIds start : List JsString} :
    hop ∈ hostIds.foldl (pushHop next own) start ↔
      hop ∈ start ∨ hop ≠ [] ∧ hop ≠ own ∧ ∃ hostId ∈ hostIds, next hostId = some hop := by
  induction hostIds generalizing start with
  | nil => simp
  | cons first hostIds ih =>
    have pushed : hop ∈ pushHop next own start first ↔
        hop ∈ start ∨ hop ≠ [] ∧ hop ≠ own ∧ next first = some hop := by
      unfold pushHop
      cases next first with
      | none => simp
      | some nextId =>
        dsimp only
        rw [Option.some.injEq]
        split
        · rename_i skipped
          simp only [Bool.or_eq_true, decide_eq_true_eq, List.isEmpty_iff] at skipped
          refine ⟨.inl, fun either => either.elim (fun held => held) ?_⟩
          rintro ⟨named, apart, rfl⟩
          rcases skipped with (empty | own) | held
          · exact absurd empty named
          · exact absurd own apart
          · exact held
        · rename_i fresh
          simp only [Bool.or_eq_true, decide_eq_true_eq, List.isEmpty_iff, not_or] at fresh
          rw [mem_append, mem_singleton]
          constructor
          · rintro (held | rfl)
            · exact .inl held
            · exact .inr ⟨fresh.1.1, fresh.1.2, rfl⟩
          · rintro (held | ⟨-, -, rfl⟩)
            · exact .inl held
            · exact .inr rfl
    rw [foldl_cons, ih, pushed]
    constructor
    · rintro ((held | ⟨named, apart, same⟩) | ⟨named, apart, other, mem, same⟩)
      · exact .inl held
      · exact .inr ⟨named, apart, first, mem_cons_self, same⟩
      · exact .inr ⟨named, apart, other, mem_cons_of_mem _ mem, same⟩
    · rintro (held | ⟨named, apart, other, mem, same⟩)
      · exact .inl (.inl held)
      · rcases mem_cons.mp mem with rfl | mem
        · exact .inl (.inr ⟨named, apart, same⟩)
        · exact .inr ⟨named, apart, other, mem, same⟩

theorem id_remapHost (next : JsString → Option JsString) (host : Host) : (remapHost next host).id = host.id := by
  unfold remapHost
  dsimp only
  split
  · rfl
  split
  · rfl
  split <;> rfl

theorem mem_hops_remapHost {next : JsString → Option JsString} {host : Host} {hop : JsString} :
    hop ∈ (remapHost next host).hops ↔ hop ≠ [] ∧ hop ≠ host.id ∧ ∃ hostId ∈ host.hops, next hostId = some hop := by
  have pushed := @mem_foldl_pushHop next host.id hop host.hops []
  rw [or_iff_right not_mem_nil] at pushed
  rw [← pushed]
  unfold remapHost
  dsimp only
  split
  · rename_i empty
    rw [List.isEmpty_iff.mp empty]
    rfl
  split
  · rename_i same
    rw [same]
  split
  · rename_i empty
    rw [List.isEmpty_iff.mp empty]
    rfl
  · rfl

/-! ## What an id leads to -/

def CopyOf (hostKey : Host → JsString) (isCollapsible : Host → Bool) (copy first : Host) : Prop :=
  first = copy ∨ isCollapsible copy = true ∧ isCollapsible first = true ∧ hostKey first = hostKey copy

def CopyJumps (hostKey : Host → JsString) (isCollapsible : Host → Bool) (hosts : List Host)
    (source hop : JsString) : Prop :=
  source ≠ hop ∧ ∃ host ∈ firstCopies hostKey isCollapsible [] hosts, host.id = source ∧
    ∃ copy ∈ hosts, copy.id ∈ host.hops ∧
      ∃ first ∈ firstCopies hostKey isCollapsible [] hosts, first.id = hop ∧ CopyOf hostKey isCollapsible copy first

section Remap

variable {hostKey : Host → JsString} {isCollapsible : Host → Bool} {group : JsString} {hosts kept : List Host}

section

variable {base kept : List Host} (copies : List.Forall₂ Copied base kept)

include copies

theorem ids_of_copies : kept.map Host.id = base.map Host.id := by
  induction copies with
  | nil => rfl
  | cons copy _ ih => rw [map_cons, map_cons, copy.id, ih]

theorem exists_kept {host : Host} (mem : host ∈ base) : ∃ other ∈ kept, Copied host other := by
  induction copies with
  | nil => cases mem
  | cons copy _ ih =>
    rcases mem_cons.mp mem with rfl | mem
    · exact ⟨_, mem_cons_self, copy⟩
    · obtain ⟨other, held, copy⟩ := ih mem
      exact ⟨other, mem_cons_of_mem _ held, copy⟩

theorem exists_base {other : Host} (mem : other ∈ kept) : ∃ host ∈ base, Copied host other := by
  induction copies with
  | nil => cases mem
  | cons copy _ ih =>
    rcases mem_cons.mp mem with rfl | mem
    · exact ⟨_, mem_cons_self, copy⟩
    · obtain ⟨host, held, copy⟩ := ih mem
      exact ⟨host, mem_cons_of_mem _ held, copy⟩

theorem keys_of_copies
    (stable : ∀ host kept, Copied host kept → isCollapsible kept = isCollapsible host)
    (keyed : ∀ host ∈ base, ∀ kept, Copied host kept → hostKey kept = hostKey host) :
    (kept.filter isCollapsible).map hostKey = (base.filter isCollapsible).map hostKey := by
  induction copies with
  | nil => rfl
  | @cons host other _ _ copy _ ih =>
    have rest := ih fun host mem => keyed host (mem_cons_of_mem _ mem)
    rw [filter_cons, filter_cons, stable host other copy]
    split
    · rw [map_cons, map_cons, keyed host mem_cons_self other copy, rest]
    · exact rest

end

theorem eq_of_id {hosts : List Host} (unique : (hosts.map Host.id).Nodup) {host other : Host} (mem : host ∈ hosts)
    (held : other ∈ hosts) (same : host.id = other.id) : host = other :=
  inj_on_of_nodup_map unique mem held same

theorem nextHop_eq_some (unique : (hosts.map Host.id).Nodup)
    (stable : ∀ host kept, Copied host kept → isCollapsible kept = isCollapsible host)
    (keyed : ∀ host ∈ hosts, ∀ kept, Copied (moved group host) kept → hostKey kept = hostKey (moved group host))
    (copies : Forall₂ Copied (firstCopies hostKey isCollapsible [] (hosts.map (moved group))) kept)
    {original : Host} (mem : original ∈ hosts) {hop : JsString} :
    nextHop hostKey isCollapsible group (retain hostKey isCollapsible hosts kept) original.id = some hop ↔
      ∃ first ∈ firstCopies hostKey isCollapsible [] (hosts.map (moved group)), first.id = hop ∧
        CopyOf hostKey isCollapsible (moved group original) first := by
  have movedIds : (hosts.map (moved group)).map Host.id = hosts.map Host.id := by
    rw [List.map_map]
    rfl
  have uniqueMoved : ((hosts.map (moved group)).map Host.id).Nodup := movedIds ▸ unique
  have memMoved : moved group original ∈ hosts.map (moved group) := List.mem_map_of_mem mem
  have sub := @firstCopies_sublist hostKey isCollapsible [] (hosts.map (moved group))
  have distinct := (@nodup_firstCopies hostKey isCollapsible []
    (hosts.map (moved group))).1
  have byId : (retain hostKey isCollapsible hosts kept).originalById.get? original.id = some original := by
    refine (get?_ofList ?_).mpr (List.mem_map_of_mem mem)
    rw [List.map_map]
    exact unique
  have known : (retain hostKey isCollapsible hosts kept).originalById.has original.id = true :=
    has_iff.mpr ⟨_, byId⟩
  have next : nextHop hostKey isCollapsible group (retain hostKey isCollapsible hosts kept) original.id =
      remapHostId hostKey isCollapsible group (retain hostKey isCollapsible hosts kept) original.id := by
    unfold nextHop
    cases remapHostId hostKey isCollapsible group (retain hostKey isCollapsible hosts kept) original.id with
    | none => rw [known]; rfl
    | some mapped => rfl
  have onlyOne {first : Host} (held : first ∈ firstCopies hostKey isCollapsible [] (hosts.map (moved group)))
      {other : Host} (also : other ∈ firstCopies hostKey isCollapsible [] (hosts.map (moved group)))
      (loose : isCollapsible first = true) (loose' : isCollapsible other = true)
      (same : hostKey first = hostKey other) : first = other :=
    inj_on_of_nodup_map distinct (mem_filter.mpr ⟨held, loose⟩) (mem_filter.mpr ⟨also, loose'⟩) same
  rw [next]
  unfold remapHostId
  by_cases own : moved group original ∈ firstCopies hostKey isCollapsible [] (hosts.map (moved group))
  · have listed : original.id ∈ (retain hostKey isCollapsible hosts kept).hosts.map Host.id := by
      change original.id ∈ kept.map Host.id
      rw [ids_of_copies copies]
      exact List.mem_map.mpr ⟨moved group original, own, rfl⟩
    rw [if_pos listed, Option.some.injEq]
    constructor
    · rintro rfl
      exact ⟨moved group original, own, rfl, .inl rfl⟩
    · rintro ⟨first, held, rfl, rfl | ⟨loose, loose', same⟩⟩
      · rfl
      · rw [onlyOne held own loose' loose same]
        rfl
  · have unlisted : original.id ∉ (retain hostKey isCollapsible hosts kept).hosts.map Host.id := by
      change original.id ∉ kept.map Host.id
      rw [ids_of_copies copies]
      intro listed
      obtain ⟨other, held, same⟩ := List.mem_map.mp listed
      exact own (eq_of_id uniqueMoved (sub.subset held) memMoved same ▸ held)
    rcases @exists_firstCopy hostKey isCollapsible _ [] _ memMoved with
      held | ⟨loose, none_ | ⟨first, held, loose', same⟩⟩
    · exact absurd held own
    · cases none_
    obtain ⟨other, keptOther, copy⟩ := exists_kept copies held
    have found : (retain hostKey isCollapsible hosts kept).byMergeKey.get? (hostKey (moved group original)) =
        some other := by
      refine (get?_ofList ?_).mpr (List.mem_map.mpr ⟨other, ?_, ?_⟩)
      · rw [List.map_map]
        have keys := keys_of_copies copies stable fun host mem => by
          obtain ⟨base, heldBase, rfl⟩ := List.mem_map.mp (sub.subset mem)
          exact keyed base heldBase
        change ((kept.filter isCollapsible).map hostKey).Nodup
        rw [keys]
        exact distinct
      · exact mem_filter.mpr ⟨keptOther, (stable first other copy).trans loose'⟩
      · obtain ⟨base, heldBase, rfl⟩ := List.mem_map.mp (sub.subset held)
        rw [keyed base heldBase other copy, same]
    rw [if_neg unlisted, byId]
    dsimp only
    rw [loose, found, Bool.not_true, if_neg Bool.false_ne_true, map_some, Option.some.injEq, copy.id]
    constructor
    · rintro rfl
      exact ⟨first, held, rfl, .inr ⟨loose, loose', same⟩⟩
    · rintro ⟨first', held', rfl, rfl | ⟨-, loose'', same'⟩⟩
      · exact absurd held' own
      · rw [onlyOne held held' loose' loose'' (same.trans same'.symm)]

end Remap

/-! ## The jump graph in the group -/

theorem jumpsTo_moved (group : JsString) (hosts : List Host) :
    JumpsTo (hosts.map (moved group)) = JumpsTo hosts := by
  funext source hop
  refine propext ⟨?_, ?_⟩
  · rintro ⟨host, mem, same, jumps⟩
    obtain ⟨original, held, rfl⟩ := List.mem_map.mp mem
    exact ⟨original, held, same, jumps⟩
  · rintro ⟨host, mem, same, jumps⟩
    exact ⟨moved group host, List.mem_map_of_mem mem, same, jumps⟩

theorem soundJumps_moved (group : JsString) {hosts : List Host} (sound : SoundJumps hosts) :
    SoundJumps (hosts.map (moved group)) where
  closed host mem hop jumps := by
    obtain ⟨original, held, rfl⟩ := List.mem_map.mp mem
    rw [List.map_map]
    exact sound.closed original held hop jumps
  acyclic := by
    rw [jumpsTo_moved]
    exact sound.acyclic

section Collapsed

variable {hostKey : Host → JsString} {isCollapsible : Host → Bool} {group : JsString} {hosts kept : List Host}

def collapsed (hostKey : Host → JsString) (isCollapsible : Host → Bool) (group : JsString)
    (hosts kept : List Host) : List Host :=
  kept.map (remapHost (nextHop hostKey isCollapsible group (retain hostKey isCollapsible hosts kept)))

theorem ids_collapsed : (collapsed hostKey isCollapsible group hosts kept).map Host.id = kept.map Host.id := by
  unfold collapsed
  rw [List.map_map]
  exact map_congr_left fun host _ => id_remapHost _ host

variable (unique : (hosts.map Host.id).Nodup) (named : ∀ host ∈ hosts, host.id ≠ []) (sound : SoundJumps hosts)
  (stable : ∀ host kept, Copied host kept → isCollapsible kept = isCollapsible host)
  (keyed : ∀ host ∈ hosts, ∀ kept, Copied (moved group host) kept → hostKey kept = hostKey (moved group host))
  (copies : List.Forall₂ Copied (firstCopies hostKey isCollapsible [] (hosts.map (moved group))) kept)

include unique named sound stable keyed copies

theorem mem_hops_collapsed {host base : Host}
    (mem : base ∈ firstCopies hostKey isCollapsible [] (hosts.map (moved group))) (copied : Copied base host)
    {hop : JsString} :
    hop ∈ (remapHost (nextHop hostKey isCollapsible group (retain hostKey isCollapsible hosts kept)) host).hops ↔
      hop ≠ base.id ∧ ∃ copy ∈ hosts.map (moved group), copy.id ∈ base.hops ∧
        ∃ first ∈ firstCopies hostKey isCollapsible [] (hosts.map (moved group)),
          first.id = hop ∧ CopyOf hostKey isCollapsible copy first := by
  have sub := @firstCopies_sublist hostKey isCollapsible [] (hosts.map (moved group))
  rw [mem_hops_remapHost, copied.id, copied.hops]
  constructor
  · rintro ⟨-, apart, hostId, listed, next⟩
    obtain ⟨original, held, rfl⟩ := List.mem_map.mp (sub.subset mem)
    obtain ⟨target, heldTarget, rfl⟩ := List.mem_map.mp (sound.closed original held hostId listed)
    exact ⟨apart, moved group target, List.mem_map_of_mem heldTarget, listed,
      (nextHop_eq_some unique stable keyed copies heldTarget).mp next⟩
  · rintro ⟨apart, copy, memCopy, listed, first, heldFirst, rfl, copyOf⟩
    obtain ⟨target, heldTarget, rfl⟩ := List.mem_map.mp memCopy
    obtain ⟨original, held, rfl⟩ := List.mem_map.mp (sub.subset heldFirst)
    exact ⟨named original held, apart, target.id, listed,
      (nextHop_eq_some unique stable keyed copies heldTarget).mpr ⟨_, heldFirst, rfl, copyOf⟩⟩

theorem jumpsTo_collapsed : JumpsTo (collapsed hostKey isCollapsible group hosts kept) =
      CopyJumps hostKey isCollapsible (hosts.map (moved group)) := by
  funext source hop
  refine propext ⟨?_, ?_⟩
  · rintro ⟨host, mem, rfl, listed⟩
    obtain ⟨other, held, rfl⟩ := List.mem_map.mp mem
    obtain ⟨base, heldBase, copied⟩ := exists_base copies held
    obtain ⟨apart, rest⟩ := (mem_hops_collapsed unique named sound stable keyed copies heldBase copied).mp listed
    rw [id_remapHost, copied.id]
    exact ⟨Ne.symm apart, base, heldBase, rfl, rest⟩
  · rintro ⟨apart, base, heldBase, rfl, rest⟩
    obtain ⟨other, held, copied⟩ := exists_kept copies heldBase
    exact ⟨_, List.mem_map_of_mem held, by rw [id_remapHost, copied.id],
      (mem_hops_collapsed unique named sound stable keyed copies heldBase copied).mpr ⟨Ne.symm apart, rest⟩⟩

theorem soundJumps_collapsed : SoundJumps (collapsed hostKey isCollapsible group hosts kept) ↔
      Acyclic (CopyJumps hostKey isCollapsible (hosts.map (moved group))) := by
  rw [← jumpsTo_collapsed unique named sound stable keyed copies]
  refine ⟨fun result => result.acyclic, fun acyclic => ⟨fun host mem hop listed => ?_, acyclic⟩⟩
  obtain ⟨other, held, rfl⟩ := List.mem_map.mp mem
  obtain ⟨base, heldBase, copied⟩ := exists_base copies held
  obtain ⟨-, copy, -, -, first, heldFirst, rfl, -⟩ :=
    (mem_hops_collapsed unique named sound stable keyed copies heldBase copied).mp listed
  rw [ids_collapsed, ids_of_copies copies]
  exact List.mem_map_of_mem heldFirst

end Collapsed

def CollapsesInto (destination : VaultImportDestination) (options : ApplyVaultImportDestinationOptions)
    (group : JsString) : Prop :=
  ∃ raw, destination = .group raw ∧ normalizeGroupPath (some raw) = some group ∧
    options.collapseDuplicateEndpoints ≠ some false

section

variable (toLowerCase : JsString → JsString) (hostKey : Host → JsString)
    (result : VaultImportResult) {destination : VaultImportDestination}
    {options : ApplyVaultImportDestinationOptions}

theorem hosts_of_collapse {group : JsString} (collapses : CollapsesInto destination options group) :
    (applyVaultImportDestination toLowerCase hostKey result destination options).hosts =
      collapsed hostKey options.isCollapsible group result.hosts
        (dedupeHosts hostKey options.isCollapsible (result.hosts.map (moved group))).1 := by
  obtain ⟨raw, rfl, normalized, collapse⟩ := collapses
  unfold applyVaultImportDestination
  dsimp only
  rw [normalized]
  dsimp only
  rw [if_neg collapse]
  rfl

/-- Elsewhere the hosts stay as they are, or in the group. -/
theorem hosts_of_not_collapse (apart : ∀ group, ¬CollapsesInto destination options group) :
    (applyVaultImportDestination toLowerCase hostKey result destination options).hosts = result.hosts ∨
      ∃ group, (applyVaultImportDestination toLowerCase hostKey result destination options).hosts =
        result.hosts.map (moved group) := by
  unfold applyVaultImportDestination
  cases destination with
  | preserve => exact .inl rfl
  | group raw =>
    dsimp only
    cases normalized : normalizeGroupPath (some raw) with
    | none => exact .inl rfl
    | some group =>
      dsimp only
      by_cases separate : options.collapseDuplicateEndpoints = some false
      · rw [if_pos separate]
        exact .inr ⟨group, rfl⟩
      · exact (apart group ⟨raw, rfl, normalized, separate⟩).elim

end

/-- An import with sound jumps still has them after it was given a destination exactly when, in
the group it is collapsed into, no kept hosts lead in a circle through their hops or through
kept copies of these. -/
theorem destination_sound_iff (toLowerCase : JsString → JsString) (numberText : ℚ → JsString)
    (result : VaultImportResult) (destination : VaultImportDestination)
    (options : ApplyVaultImportDestinationOptions) (unique : (result.hosts.map Host.id).Nodup)
    (named : ∀ host ∈ result.hosts, host.id ≠ []) (sound : SoundJumps result.hosts) :
    let hostKey := buildVaultHostMergeKey toLowerCase numberText
    SoundJumps (applyVaultImportDestination toLowerCase hostKey result destination options).hosts ↔
      ∀ group, CollapsesInto destination options group →
        Acyclic (CopyJumps hostKey options.isCollapsible (result.hosts.map (moved group))) := by
  intro hostKey
  have keyed (group : JsString) : ∀ host ∈ result.hosts, ∀ kept, Copied (moved group host) kept →
      hostKey kept = hostKey (moved group host) :=
    fun host _ kept copied => copied.mergeKey (some_ne_none group) toLowerCase numberText
  by_cases some_ : ∃ group, CollapsesInto destination options group
  · obtain ⟨group, collapses⟩ := some_
    have only : ∀ other, CollapsesInto destination options other → other = group := by
      rintro other ⟨raw, same, path, -⟩
      obtain ⟨raw', same', path', -⟩ := collapses
      obtain rfl := VaultImportDestination.group.inj (same.symm.trans same')
      exact Option.some.inj (path.symm.trans path')
    rw [hosts_of_collapse toLowerCase hostKey result collapses,
      soundJumps_collapsed unique named sound options.stable (keyed group) (dedupeHosts_copies _)]
    exact ⟨fun acyclic other also => only other also ▸ acyclic, fun acyclic => acyclic group collapses⟩
  · rw [not_exists] at some_
    refine ⟨fun _ group collapses => (some_ group collapses).elim, fun _ => ?_⟩
    rcases hosts_of_not_collapse toLowerCase hostKey result some_ with same | ⟨group, same⟩
    · rw [same]
      exact sound
    · rw [same]
      exact soundJumps_moved group sound

/-- Two hosts in two groups that jump through each other, in opposite directions. -/
def crossedHosts : List Host :=
  [plainHost (text "a1") (text "a") (text "one") (some [text "b1"]),
    plainHost (text "b2") (text "b") (text "two") (some [text "a2"]),
    plainHost (text "b1") (text "b") (text "one") none,
    plainHost (text "a2") (text "a") (text "two") none]

def crossedResult : VaultImportResult := ⟨crossedHosts, [text "one", text "two"], ⟨4, 4, 0, 0⟩, none, none⟩

theorem jumpsTo_of_graph {hosts : List Host} {source hop : JsString} {hops : List JsString}
    (mem : (source, hops) ∈ hosts.map fun host => (host.id, host.hops)) (listed : hop ∈ hops) :
    JumpsTo hosts source hop := by
  obtain ⟨host, held, same⟩ := List.mem_map.mp mem
  obtain ⟨rfl, rfl⟩ := Prod.mk.inj same
  exact ⟨host, held, rfl, listed⟩

theorem sound_crossedHosts : SoundJumps crossedHosts where
  closed := by decide +kernel
  acyclic := by
    have quiet : ∀ source hop, JumpsTo crossedHosts source hop → ∀ next, ¬JumpsTo crossedHosts hop next := by
      rintro source hop ⟨host, mem, -, listed⟩ next ⟨other, mem', same, listed'⟩
      have none_ : ∀ host ∈ crossedHosts, ∀ hop ∈ host.hops, ∀ other ∈ crossedHosts, other.id = hop → other.hops = [] := by
        decide +kernel
      rw [none_ host mem hop listed other mem' same] at listed'
      cases listed'
    intro host circle
    obtain ⟨hop, first, rest⟩ := Relation.TransGen.head'_iff.mp circle
    rcases Relation.reflTransGen_iff_eq_or_transGen.mp rest with rfl | more
    · exact quiet _ _ first _ first
    · obtain ⟨next, second, -⟩ := Relation.TransGen.head'_iff.mp more
      exact quiet _ _ first _ second

/-- Collapsed into one group, they jump in a circle. -/
theorem crossed_hosts_jump_in_a_circle :
    (crossedHosts.map Host.id).Nodup ∧ (∀ host ∈ crossedHosts, host.id ≠ []) ∧ SoundJumps crossedHosts ∧
      ¬SoundJumps (applyVaultImportDestination id (buildVaultHostMergeKey id fun _ => []) crossedResult
        (.group (text "all")) .default).hosts := by
  refine ⟨by decide +kernel, by decide +kernel, sound_crossedHosts, fun sound => sound.acyclic (text "a1") ?_⟩
  have graph : (applyVaultImportDestination id (buildVaultHostMergeKey id fun _ => []) crossedResult
      (.group (text "all")) .default).hosts.map (fun host => (host.id, host.hops)) =
        [(text "a1", [text "b2"]), (text "b2", [text "a1"])] := by
    decide +kernel
  have there := jumpsTo_of_graph (graph ▸ mem_cons_self) (mem_singleton_self (text "b2"))
  have back := jumpsTo_of_graph (graph ▸ mem_cons_of_mem _ mem_cons_self)
    (mem_singleton_self (text "a1"))
  exact .tail (.single there) back

/-- A single host may be moved into any group. -/
theorem destination_sound_plain :
    SoundJumps (applyVaultImportDestination id (buildVaultHostMergeKey id fun _ => [])
        ⟨[plainHost (text "a1") (text "a") (text "one") none], [], ⟨1, 1, 0, 0⟩, none, none⟩
        (.group (text "all")) .default).hosts ↔
      ∀ group, CollapsesInto (.group (text "all")) .default group →
        Acyclic (CopyJumps (buildVaultHostMergeKey id fun _ => [])
          ApplyVaultImportDestinationOptions.default.isCollapsible
          ([plainHost (text "a1") (text "a") (text "one") none].map (moved group))) :=
  destination_sound_iff id (fun _ => []) ⟨[plainHost (text "a1") (text "a") (text "one") none], [], ⟨1, 1, 0, 0⟩, none, none⟩
    (.group (text "all")) .default (List.nodup_singleton _) (by decide +kernel)
    ⟨by decide +kernel, fun host circle => by
      obtain ⟨hop, ⟨other, mem, -, listed⟩, -⟩ := Relation.TransGen.head'_iff.mp circle
      obtain rfl := List.mem_singleton.mp mem
      cases listed⟩

end Netcatty.VaultImport
