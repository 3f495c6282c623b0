import Mathlib.Data.List.Induction
import Netcatty.JsonText
import Netcatty.OrderedMap

/-!
A new master key for the local sync store.

The records are decrypted with the old key and encrypted with the new one before anything is
written; then they are written one by one, the master key's configuration last.  Where a write fails,
what has been written is put back (`reencrypt_allOrNothing`).  The cipher is a parameter, and any step may
fail.
-/

namespace Netcatty.SyncRekey

open List Option OrderedMap

namespace SYNC_STORAGE_KEYS

def MASTER_KEY_CONFIG : JsString := text "netcatty_master_key_config_v1"

def SYNC_BASE_PAYLOAD : JsString := text "netcatty_sync_base_payload_v1"

def CONVERGENT_REPLICA : JsString := text "netcatty_convergent_sync_replica_v2"

def CONVERGENT_PROVIDER_BASELINE : JsString := text "netcatty_convergent_sync_provider_baseline_v2"

end SYNC_STORAGE_KEYS

def SYNC_SNAPSHOTS_STORAGE_KEY : JsString := text "netcatty_sync_snapshots_v1"

/-- The values that are stored, by their keys. -/
abbrev Storage := OrderedMap JsString JsonValue

def loadFromStorage (storage : Storage) (key : JsString) : Option JsonValue :=
  (storage.get? key).filter (· ≠ .null)

/-- What the manager knows: its providers, and the configuration it has in memory. -/
structure Manager where
  providers : List JsString
  masterKeyConfig : Option JsonObject

def listedProviders (manager : Manager) : List JsString :=
  if manager.providers ≠ [] then manager.providers.mergeSort fun a b => a ≤ b
  else [text "github", text "google", text "onedrive", text "webdav", text "s3"]

def withSuffix (key : JsString) (provider : Option JsString) : JsString :=
  match provider with
  | some (u :: rest) => key ++ text "_" ++ (u :: rest)
  | _ => key

def syncBaseKey (provider : Option JsString) : JsString := withSuffix SYNC_STORAGE_KEYS.SYNC_BASE_PAYLOAD provider

def syncSnapshotsKey (provider : Option JsString) : JsString := withSuffix SYNC_SNAPSHOTS_STORAGE_KEY provider

def convergentProviderBaselineKey (provider : JsString) : JsString :=
  SYNC_STORAGE_KEYS.CONVERGENT_PROVIDER_BASELINE ++ text "_" ++ provider

def encryptedSyncStorageKeys (manager : Manager) : List JsString :=
  ([syncBaseKey none, syncSnapshotsKey none, SYNC_STORAGE_KEYS.CONVERGENT_REPLICA] ++
    (listedProviders manager).flatMap fun provider =>
      [syncBaseKey (some provider), syncSnapshotsKey (some provider), convergentProviderBaselineKey provider]).eraseDups

/-- A write that may not come about. -/
inductive WriteOutcome where
  | written
  /-- `false` is returned. -/
  | refused
  | thrown (error : JsError)

/-- The cipher, and which steps fail for what reason.  Every encryption draws its own nonce. -/
structure Steps (Key : Type) where
  decryptLocalStorageValue : JsString → Key → Checked JsonValue
  encryptLocalStorageValue : JsonValue → Key → ℕ → JsString
  nonce : JsString → ℕ
  decryption : JsString → Checked Unit
  encryption : JsString → Checked Unit
  write : JsString → WriteOutcome

section Rekey

variable {Key : Type} (steps : Steps Key)

/-- What is prepared before the first write. -/
structure Prepared where
  originals : OrderedMap JsString (Option JsString)
  replacements : OrderedMap JsString JsString

def Prepared.empty : Prepared := ⟨OrderedMap.empty, OrderedMap.empty⟩

def prepareRecord (oldKey newKey : Key) (storage : Storage) (prepared : Prepared) (key : JsString) : Checked Prepared :=
  match loadFromStorage storage key with
  | none => .ok { prepared with originals := prepared.originals.set key none }
  | some (.str encoded) => do
    steps.decryption key
    let value ← steps.decryptLocalStorageValue encoded oldKey
    steps.encryption key
    return ⟨prepared.originals.set key (some encoded),
      prepared.replacements.set key (steps.encryptLocalStorageValue value newKey (steps.nonce key))⟩
  | some _ => .error (.error (text "Encrypted sync record " ++ key ++ text " is invalid"))

/-- Nobody else has written in the meantime. -/
def recordUnchanged (storage : Storage) (original : JsString × Option JsString) : Bool :=
  match loadFromStorage storage original.1, original.2 with
  | none, none => true
  | some (.str current), some encoded => current = encoded
  | _, _ => false

/-- The storage while the records are written, those that have been, and the error that stopped it. -/
structure Commit where
  storage : Storage
  committed : List JsString
  error : Option JsError

def saveToStorage (commit : Commit) (key : JsString) (value : JsonValue) (refusal : JsString) : Commit :=
  match steps.write key with
  | .written => { commit with storage := commit.storage.set key value }
  | .refused => { commit with error := some (.error refusal) }
  | .thrown error => { commit with error := some error }

def commitRecord (commit : Commit) (replacement : JsString × JsString) : Commit :=
  if commit.error.isSome then commit
  else
    let saved := saveToStorage steps commit replacement.1 (.str replacement.2)
      (text "Unable to persist re-encrypted sync record: " ++ replacement.1)
    if saved.error.isSome then saved else { saved with committed := saved.committed ++ [replacement.1] }

def isTruthy : JsonValue → Bool
  | .null | .bool false | .str [] => false
  | .num n => n ≠ 0
  | _ => true

def restoreRecord (originals : OrderedMap JsString (Option JsString)) (storage : Storage) (key : JsString) : Storage :=
  match originals.get? key with
  | none => storage
  | some none => storage.set key .null
  | some (some original) => storage.set key (.str original)

/-- Every record that has been written is put back, and the configuration. -/
def restoreAll (originals : OrderedMap JsString (Option JsString)) (previousConfig : Option JsonValue)
    (commit : Commit) : Storage :=
  let storage := commit.committed.reverse.foldl (restoreRecord originals) commit.storage
  match previousConfig with
  | some config =>
    if isTruthy config then storage.set SYNC_STORAGE_KEYS.MASTER_KEY_CONFIG config
    else storage.delete SYNC_STORAGE_KEYS.MASTER_KEY_CONFIG
  | none => storage.delete SYNC_STORAGE_KEYS.MASTER_KEY_CONFIG

/-- `JSON.stringify` of a configuration or of `null`. -/
def configText (numberText : ℚ → JsString) (config : Option JsonValue) : JsString :=
  stringify numberText (config.getD .null)

def reencryptSyncStorage (numberText : ℚ → JsString) (manager : Manager) (oldKey newKey : Key) (newConfig : JsonObject)
    (storage : Storage) : Checked Unit × Storage :=
  let previousConfig := loadFromStorage storage SYNC_STORAGE_KEYS.MASTER_KEY_CONFIG <|>
    manager.masterKeyConfig.map .obj
  match (encryptedSyncStorageKeys manager).foldlM (prepareRecord steps oldKey newKey storage) Prepared.empty with
  | .error error => (.error error, storage)
  | .ok prepared =>
    if !prepared.originals.entries.all (recordUnchanged storage) then
      (.error (.error (text "Sync data changed while the master key was being rotated")), storage)
    else if configText numberText (loadFromStorage storage SYNC_STORAGE_KEYS.MASTER_KEY_CONFIG) ≠
        configText numberText previousConfig then
      (.error (.error (text "Master key configuration changed while it was being rotated")), storage)
    else
      let written := prepared.replacements.entries.foldl (commitRecord steps) ⟨storage, [], none⟩
      let commit := if written.error.isSome then written
        else saveToStorage steps written SYNC_STORAGE_KEYS.MASTER_KEY_CONFIG (.obj newConfig)
          (text "Unable to persist the new master key configuration")
      match commit.error with
      | none => (.ok (), commit.storage)
      | some error => (.error error, restoreAll prepared.originals previousConfig commit)

end Rekey

/-! ## Keys -/

theorem mem_encryptedSyncStorageKeys {manager : Manager} {key : JsString} (mem : key ∈ encryptedSyncStorageKeys manager) :
    ∃ first ∈ [SYNC_STORAGE_KEYS.SYNC_BASE_PAYLOAD, SYNC_SNAPSHOTS_STORAGE_KEY, SYNC_STORAGE_KEYS.CONVERGENT_REPLICA,
      SYNC_STORAGE_KEYS.CONVERGENT_PROVIDER_BASELINE], ∃ rest, key = first ++ rest := by
  have suffixed : ∀ first provider, ∃ rest, withSuffix first provider = first ++ rest := by
    intro first provider
    unfold withSuffix
    split
    · exact ⟨_, append_assoc ..⟩
    · exact ⟨[], (append_nil _).symm⟩
  have base : ∀ provider, ∃ rest, syncBaseKey provider = SYNC_STORAGE_KEYS.SYNC_BASE_PAYLOAD ++ rest := suffixed _
  have snapshots : ∀ provider, ∃ rest, syncSnapshotsKey provider = SYNC_SNAPSHOTS_STORAGE_KEY ++ rest := suffixed _
  simp only [encryptedSyncStorageKeys, mem_eraseDups, mem_append, mem_flatMap, mem_cons, not_mem_nil,
    or_false] at mem
  rcases mem with (rfl | rfl | rfl) | ⟨provider, -, rfl | rfl | rfl⟩
  · exact ⟨_, by simp, base _⟩
  · exact ⟨_, by simp, snapshots _⟩
  · exact ⟨_, by simp, [], (append_nil _).symm⟩
  · exact ⟨_, by simp, base _⟩
  · exact ⟨_, by simp, snapshots _⟩
  · exact ⟨_, by simp, _, append_assoc ..⟩

theorem config_not_record (manager : Manager) :
    SYNC_STORAGE_KEYS.MASTER_KEY_CONFIG ∉ encryptedSyncStorageKeys manager := by
  intro mem
  obtain ⟨first, known, rest, same⟩ := mem_encryptedSyncStorageKeys mem
  have apart : ∀ first ∈ [SYNC_STORAGE_KEYS.SYNC_BASE_PAYLOAD, SYNC_SNAPSHOTS_STORAGE_KEY,
      SYNC_STORAGE_KEYS.CONVERGENT_REPLICA, SYNC_STORAGE_KEYS.CONVERGENT_PROVIDER_BASELINE],
      9 < first.length ∧ SYNC_STORAGE_KEYS.MASTER_KEY_CONFIG[9]? ≠ first[9]? := by decide
  obtain ⟨long, other⟩ := apart first known
  rw [same, getElem?_append_left long] at other
  exact other rfl

section Proofs

variable {Key : Type} {steps : Steps Key} {storage : Storage}

/-! ## Preparing -/

/-- What has been prepared for the records of some keys. -/
structure PreparedFor (steps : Steps Key) (oldKey newKey : Key) (storage : Storage) (keys : List JsString)
    (prepared : Prepared) : Prop where
  original : ∀ key ∈ keys, ∀ encoded, loadFromStorage storage key = some (.str encoded) →
    prepared.originals.get? key = some (some encoded)
  replaced : ∀ key ∈ keys, loadFromStorage storage key = none ∨ prepared.replacements.has key = true
  replacement : ∀ key ciphertext, prepared.replacements.get? key = some ciphertext →
    key ∈ keys ∧ ∃ encoded value, loadFromStorage storage key = some (.str encoded) ∧
      steps.decryptLocalStorageValue encoded oldKey = .ok value ∧
      ciphertext = steps.encryptLocalStorageValue value newKey (steps.nonce key)

theorem PreparedFor.record {oldKey newKey : Key} {keys : List JsString} {prepared next : Prepared}
    (inv : PreparedFor steps oldKey newKey storage keys prepared) {key : JsString}
    (ran : prepareRecord steps oldKey newKey storage prepared key = .ok next) :
    PreparedFor steps oldKey newKey storage (keys ++ [key]) next := by
  have split_ : ∀ other ∈ keys ++ [key], other ∈ keys ∨ other = key := fun other mem =>
    (mem_append.mp mem).imp_right mem_singleton.mp
  unfold prepareRecord at ran
  cases loaded : loadFromStorage storage key with
  | none =>
    rw [loaded] at ran
    cases ran
    refine ⟨fun other mem encoded held => ?_, fun other mem => ?_, fun other ciphertext found => ?_⟩
    · rw [OrderedMap.get?_set]
      split
      · rename_i same
        rw [same, loaded] at held
        cases held
      · rename_i apart
        exact inv.original other ((split_ other mem).resolve_right apart) encoded held
    · rcases split_ other mem with early | same
      · exact inv.replaced other early
      · exact .inl (same ▸ loaded)
    · obtain ⟨mem, rest⟩ := inv.replacement other ciphertext found
      exact ⟨mem_append_left _ mem, rest⟩
  | some record =>
    rw [loaded] at ran
    cases record with
    | str encoded =>
      simp only [bind_eq_ok] at ran
      obtain ⟨-, -, value, decrypted, -, -, done⟩ := ran
      cases done
      refine ⟨fun other mem again held => ?_, fun other mem => ?_, fun other ciphertext found => ?_⟩
      · rw [OrderedMap.get?_set]
        split
        · rename_i same
          rw [same, loaded] at held
          cases held
          rfl
        · rename_i apart
          exact inv.original other ((split_ other mem).resolve_right apart) again held
      · rcases split_ other mem with early | same
        · refine (inv.replaced other early).imp_right fun has => ?_
          rw [OrderedMap.has, OrderedMap.get?_set]
          split
          · rfl
          · exact has
        · exact .inr (by rw [OrderedMap.has, OrderedMap.get?_set, if_pos same]; rfl)
      · rw [OrderedMap.get?_set] at found
        split at found
        · rename_i same
          cases found
          exact ⟨mem_append_right _ (mem_singleton.mpr same), encoded, value, same ▸ loaded, decrypted, by rw [same]⟩
        · obtain ⟨mem, rest⟩ := inv.replacement other ciphertext found
          exact ⟨mem_append_left _ mem, rest⟩
    | null => cases ran
    | bool b => cases ran
    | num n => cases ran
    | arr items => cases ran
    | obj fields => cases ran

/-- All records are prepared before the first is written. -/
theorem prepared_all {oldKey newKey : Key} {keys : List JsString} {prepared : Prepared}
    (ran : keys.foldlM (prepareRecord steps oldKey newKey storage) Prepared.empty = .ok prepared) :
    PreparedFor steps oldKey newKey storage keys prepared := by
  induction keys using List.reverseRecOn generalizing prepared with
  | nil =>
    cases ran
    refine ⟨fun key mem => absurd mem not_mem_nil, fun key mem => absurd mem not_mem_nil, fun key ciphertext found => ?_⟩
    cases found
  | append_singleton keys key ih =>
    rw [List.foldlM_append] at ran
    obtain ⟨middle, first, last⟩ := bind_eq_ok.mp ran
    rw [foldlM_cons, bind_eq_ok] at last
    obtain ⟨next, turn, rest⟩ := last
    cases rest
    exact (ih first).record turn

/-! ## Writing -/

/-- What is stored while the records are written: of those that have been, the new text, and of all
others what was there. -/
structure Writing (replacements : OrderedMap JsString JsString) (storage : Storage) (keys : List JsString)
    (commit : Commit) : Prop where
  stored : ∀ key, commit.storage.get? key =
    if key ∈ commit.committed then (replacements.get? key).map .str else storage.get? key
  known : ∀ key ∈ commit.committed, replacements.has key = true
  complete : commit.error = none → ∀ key ∈ keys, key ∈ commit.committed

theorem Writing.record {replacements : OrderedMap JsString JsString} {keys : List JsString} {commit : Commit}
    (inv : Writing replacements storage keys commit) {key ciphertext : JsString}
    (found : replacements.get? key = some ciphertext) :
    Writing replacements storage (keys ++ [key]) (commitRecord steps commit (key, ciphertext)) := by
  unfold commitRecord
  split
  · rename_i failed
    refine { inv with complete := fun none_ => ?_ }
    rw [none_] at failed
    cases failed
  · rename_i fine
    have clear : commit.error = none := by simpa using fine
    unfold saveToStorage
    cases steps.write key with
    | written =>
      dsimp only
      rw [clear, if_neg (by simp)]
      refine ⟨fun other => ?_, fun other mem => ?_, fun _ other mem => ?_⟩
      · rw [OrderedMap.get?_set, inv.stored]
        by_cases same : other = key
        · simp [same, found]
        · simp [same]
      · rcases mem_append.mp mem with early | last
        · exact inv.known other early
        · exact mem_singleton.mp last ▸ has_iff.mpr ⟨ciphertext, found⟩
      · exact (mem_append.mp mem).elim (fun early => mem_append_left _ (inv.complete clear other early))
          (mem_append_right _)
    | refused =>
      dsimp only
      rw [if_pos isSome_some]
      exact { inv with complete := fun none_ => by cases none_ }
    | thrown error =>
      dsimp only
      rw [if_pos isSome_some]
      exact { inv with complete := fun none_ => by cases none_ }

theorem writing_all (steps : Steps Key) (replacements : OrderedMap JsString JsString) (storage : Storage) :
    Writing replacements storage replacements.keys
      (replacements.entries.foldl (commitRecord steps) ⟨storage, [], none⟩) := by
  have run : ∀ entries : List (JsString × JsString), (∀ entry ∈ entries, replacements.get? entry.1 = some entry.2) →
      Writing replacements storage (entries.map Prod.fst) (entries.foldl (commitRecord steps) ⟨storage, [], none⟩) := by
    intro entries
    induction entries using List.reverseRecOn with
    | nil => exact fun _ => ⟨fun key => by simp, fun key mem => absurd mem not_mem_nil, fun _ key mem => absurd mem not_mem_nil⟩
    | append_singleton entries last ih =>
      intro found
      rw [foldl_append, map_append]
      exact (ih fun entry mem => found entry (mem_append_left _ mem)).record
        (found last (mem_append_right _ (mem_singleton_self last)))
  exact run replacements.entries fun entry mem => OrderedMap.mem_entries.mp mem

/-! ## Putting back -/

theorem restore_records {originals : OrderedMap JsString (Option JsString)} {before current : Storage} {keys : List JsString}
    (held : ∀ key ∈ keys, ∃ original, originals.get? key = some (some original) ∧ before.get? key = some (.str original))
    (key : JsString) :
    (keys.foldl (restoreRecord originals) current).get? key =
      if key ∈ keys then before.get? key else current.get? key := by
  induction keys using List.reverseRecOn with
  | nil => simp
  | append_singleton keys last ih =>
    obtain ⟨original, found, stored⟩ := held last (mem_append_right _ (mem_singleton_self last))
    rw [foldl_append, foldl_cons, foldl_nil, restoreRecord, found]
    dsimp only
    rw [OrderedMap.get?_set, ih fun key mem => held key (mem_append_left _ mem)]
    by_cases same : key = last
    · simp [same, stored]
    · simp [same]

/-- The stored configuration is a record, as the app writes it. -/
def ConfigStored (storage : Storage) : Prop :=
  ∀ config, storage.get? SYNC_STORAGE_KEYS.MASTER_KEY_CONFIG = some config → ∃ fields, config = .obj fields

/-- Where the configuration prints as it did, the one that is put back is the one that is stored. -/
theorem restore_config {numberText : ℚ → JsString} {inMemory : Option JsonObject} (stored : ConfigStored storage)
    (same : configText numberText (loadFromStorage storage SYNC_STORAGE_KEYS.MASTER_KEY_CONFIG) =
      configText numberText (loadFromStorage storage SYNC_STORAGE_KEYS.MASTER_KEY_CONFIG <|> inMemory.map JsonValue.obj))
    (current : Storage) (key : JsString) :
    (match loadFromStorage storage SYNC_STORAGE_KEYS.MASTER_KEY_CONFIG <|> inMemory.map JsonValue.obj with
      | some config =>
        if isTruthy config then current.set SYNC_STORAGE_KEYS.MASTER_KEY_CONFIG config
        else current.delete SYNC_STORAGE_KEYS.MASTER_KEY_CONFIG
      | none => current.delete SYNC_STORAGE_KEYS.MASTER_KEY_CONFIG).get? key =
      if key = SYNC_STORAGE_KEYS.MASTER_KEY_CONFIG then storage.get? key else current.get? key := by
  cases held : storage.get? SYNC_STORAGE_KEYS.MASTER_KEY_CONFIG with
  | some config =>
    obtain ⟨fields, rfl⟩ := stored config held
    have loaded : loadFromStorage storage SYNC_STORAGE_KEYS.MASTER_KEY_CONFIG = some (.obj fields) := by
      simp [loadFromStorage, held]
    rw [loaded]
    change (current.set SYNC_STORAGE_KEYS.MASTER_KEY_CONFIG (.obj fields)).get? key = _
    rw [OrderedMap.get?_set]
    split
    · rename_i here
      rw [here, held]
    · rfl
  | none =>
    have loaded : loadFromStorage storage SYNC_STORAGE_KEYS.MASTER_KEY_CONFIG = none := by
      simp [loadFromStorage, held]
    rw [loaded] at same ⊢
    cases inMemory with
    | some fields =>
      -- an object does not print as `null`
      have brace : (text "\x7b").head? = some (JsonText.unit 123) := by decide
      change stringify numberText .null = stringify numberText (.obj fields) at same
      have heads := congrArg List.head? same
      simp only [stringify, append_assoc, head?_append, brace, some_or] at heads
      exact absurd heads (by decide)
    | none =>
      change (current.delete SYNC_STORAGE_KEYS.MASTER_KEY_CONFIG).get? key = _
      rw [get?_delete]
      split
      · rename_i here
        rw [here, held]
      · rfl

/-- A rekeying is all or nothing: after an error every key holds what it held, and after a success
every record has its value under the new key. -/
structure AllOrNothing (steps : Steps Key) (manager : Manager) (oldKey newKey : Key) (newConfig : JsonObject)
    (storage : Storage) (result : Checked Unit × Storage) : Prop where
  failed : ∀ error, result.1 = .error error → ∀ key, result.2.get? key = storage.get? key
  config : result.1 = .ok () → result.2.get? SYNC_STORAGE_KEYS.MASTER_KEY_CONFIG = some (.obj newConfig)
  rekeyed : result.1 = .ok () → ∀ key ∈ encryptedSyncStorageKeys manager, ∀ encoded,
    loadFromStorage storage key = some (.str encoded) → ∃ ciphertext value, result.2.get? key = some (.str ciphertext) ∧
      steps.decryptLocalStorageValue encoded oldKey = .ok value ∧ steps.decryptLocalStorageValue ciphertext newKey = .ok value
  others : result.1 = .ok () → ∀ key, key ≠ SYNC_STORAGE_KEYS.MASTER_KEY_CONFIG →
    (key ∈ encryptedSyncStorageKeys manager → loadFromStorage storage key = none) → result.2.get? key = storage.get? key

def OpensRecords (steps : Steps Key) (manager : Manager) (oldKey newKey : Key) (storage : Storage) : Prop :=
  ∀ key ∈ encryptedSyncStorageKeys manager, ∀ encoded value, loadFromStorage storage key = some (.str encoded) →
    steps.decryptLocalStorageValue encoded oldKey = .ok value → ∀ nonce,
      steps.decryptLocalStorageValue (steps.encryptLocalStorageValue value newKey nonce) newKey = .ok value

theorem get?_of_load {key : JsString} {value : JsonValue} (loaded : loadFromStorage storage key = some value) :
    storage.get? key = some value := (filter_eq_some_iff.mp loaded).1

section Ready

variable {numberText : ℚ → JsString} {manager : Manager} {oldKey newKey : Key} {newConfig : JsonObject}
  {prepared : Prepared} {written : Commit}

/-- Whatever has been written is put back. -/
theorem restoreAll_get? (stored : ConfigStored storage)
    (printed : configText numberText (loadFromStorage storage SYNC_STORAGE_KEYS.MASTER_KEY_CONFIG) =
      configText numberText (loadFromStorage storage SYNC_STORAGE_KEYS.MASTER_KEY_CONFIG <|> manager.masterKeyConfig.map .obj))
    {keys : List JsString} (ready : PreparedFor steps oldKey newKey storage keys prepared)
    (writing : Writing prepared.replacements storage prepared.replacements.keys written) (error : Option JsError)
    (key : JsString) :
    (restoreAll prepared.originals
      (loadFromStorage storage SYNC_STORAGE_KEYS.MASTER_KEY_CONFIG <|> manager.masterKeyConfig.map .obj)
      { written with error := error }).get? key = storage.get? key := by
  have held : ∀ key ∈ written.committed.reverse, ∃ original, prepared.originals.get? key = some (some original) ∧
      storage.get? key = some (.str original) := by
    intro key mem
    obtain ⟨ciphertext, found⟩ := has_iff.mp (writing.known key (mem_reverse.mp mem))
    obtain ⟨known, encoded, value, loaded, -⟩ := ready.replacement key ciphertext found
    exact ⟨encoded, ready.original key known encoded loaded, get?_of_load loaded⟩
  unfold restoreAll
  dsimp only
  rw [restore_config stored printed, restore_records held, writing.stored]
  by_cases committed : key ∈ written.committed <;> simp [committed]

theorem allOrNothing_error {error : JsError} {after : Storage} (same : ∀ key, after.get? key = storage.get? key) :
    AllOrNothing steps manager oldKey newKey newConfig storage (.error error, after) := by
  refine ⟨fun _ _ => same, fun done => ?_, fun done => ?_, fun done => ?_⟩ <;> cases done

theorem allOrNothing_ok (ready : PreparedFor steps oldKey newKey storage (encryptedSyncStorageKeys manager) prepared)
    (writing : Writing prepared.replacements storage prepared.replacements.keys written) (fine : written.error = none)
    (opens : OpensRecords steps manager oldKey newKey storage) :
    AllOrNothing steps manager oldKey newKey newConfig storage
      (.ok (), written.storage.set SYNC_STORAGE_KEYS.MASTER_KEY_CONFIG (.obj newConfig)) := by
  have complete : ∀ key, prepared.replacements.has key = true → key ∈ written.committed := fun key has =>
    writing.complete fine key (OrderedMap.mem_keys.mpr has)
  refine ⟨fun error failed => ?_, fun _ => ?_, fun _ key mem encoded loaded => ?_, fun _ key other absent => ?_⟩
  · cases failed
  · rw [OrderedMap.get?_set, if_pos rfl]
  · have apart : key ≠ SYNC_STORAGE_KEYS.MASTER_KEY_CONFIG := fun same => config_not_record manager (same ▸ mem)
    have has : prepared.replacements.has key = true := by
      refine (ready.replaced key mem).resolve_left fun absent => ?_
      rw [loaded] at absent
      cases absent
    obtain ⟨ciphertext, found⟩ := has_iff.mp has
    obtain ⟨-, again, value, loaded', decrypted, rfl⟩ := ready.replacement key ciphertext found
    cases loaded.symm.trans loaded'
    refine ⟨_, value, ?_, decrypted, opens key mem encoded value loaded decrypted (steps.nonce key)⟩
    rw [OrderedMap.get?_set, if_neg apart, writing.stored, if_pos (complete key has), found, map_some]
  · rw [OrderedMap.get?_set, if_neg other, writing.stored, if_neg]
    intro committed
    obtain ⟨ciphertext, found⟩ := has_iff.mp (writing.known key committed)
    obtain ⟨mem, encoded, value, loaded, -⟩ := ready.replacement key ciphertext found
    rw [absent mem] at loaded
    cases loaded

end Ready

/-- A new master key is all or nothing, whichever steps fail. -/
theorem reencrypt_allOrNothing (steps : Steps Key) (numberText : ℚ → JsString) (manager : Manager) (oldKey newKey : Key)
    (newConfig : JsonObject) (storage : Storage) (stored : ConfigStored storage)
    (opens : OpensRecords steps manager oldKey newKey storage) :
    AllOrNothing steps manager oldKey newKey newConfig storage
      (reencryptSyncStorage steps numberText manager oldKey newKey newConfig storage) := by
  unfold reencryptSyncStorage
  dsimp only
  cases ran : (encryptedSyncStorageKeys manager).foldlM (prepareRecord steps oldKey newKey storage) Prepared.empty with
  | error error => exact allOrNothing_error fun _ => rfl
  | ok prepared =>
    dsimp only
    split
    · exact allOrNothing_error fun _ => rfl
    split
    · exact allOrNothing_error fun _ => rfl
    rename_i printed
    rw [ne_eq, not_not] at printed
    have ready := prepared_all ran
    have writing := writing_all steps prepared.replacements storage
    generalize prepared.replacements.entries.foldl (commitRecord steps) ⟨storage, [], none⟩ = written at writing ⊢
    cases stopped : written.error with
    | some error =>
      rw [if_pos isSome_some, stopped]
      exact allOrNothing_error (restoreAll_get? stored printed ready writing written.error)
    | none =>
      rw [if_neg (by simp)]
      unfold saveToStorage
      cases steps.write SYNC_STORAGE_KEYS.MASTER_KEY_CONFIG with
      | written =>
        dsimp only
        rw [stopped]
        exact allOrNothing_ok ready writing stopped opens
      | refused => exact allOrNothing_error (restoreAll_get? stored printed ready writing _)
      | thrown error => exact allOrNothing_error (restoreAll_get? stored printed ready writing _)

end Proofs

/-- A cipher that puts the key before the text; the configuration cannot be written. -/
def sampleSteps : Steps JsString where
  decryptLocalStorageValue encoded key :=
    if key.isPrefixOf encoded then .ok (.str (encoded.drop key.length)) else .error (.error (text "OperationError"))
  encryptLocalStorageValue value key _ := key ++ (match value with
    | .str s => s
    | _ => [])
  nonce _ := 0
  decryption _ := .ok ()
  encryption _ := .ok ()
  write key := if key = SYNC_STORAGE_KEYS.MASTER_KEY_CONFIG then .refused else .written

def sampleStorage : Storage :=
  (OrderedMap.empty.set SYNC_STORAGE_KEYS.MASTER_KEY_CONFIG (.obj [(text "salt", .str (text "old"))])).set
    SYNC_STORAGE_KEYS.CONVERGENT_REPLICA (.str (text "old:replica"))

/-- The replica is written, the configuration is not. -/
theorem reencrypt_allOrNothing_refused :
    AllOrNothing sampleSteps ⟨[], none⟩ (text "old:") (text "new:") [(text "salt", .str (text "new"))] sampleStorage
      (reencryptSyncStorage sampleSteps (fun n => decimal n.num.toNat) ⟨[], none⟩ (text "old:") (text "new:")
        [(text "salt", .str (text "new"))] sampleStorage) := by
  refine reencrypt_allOrNothing _ _ _ _ _ _ _ (fun config held => ?_) fun key mem encoded value loaded decrypted nonce => ?_
  · have stored : sampleStorage.get? SYNC_STORAGE_KEYS.MASTER_KEY_CONFIG =
        some (.obj [(text "salt", .str (text "old"))]) := by decide +kernel
    rw [stored] at held
    exact ⟨_, (Option.some.inj held).symm⟩
  · have sealed : ∃ s, value = .str s := by
      simp only [sampleSteps] at decrypted
      split at decrypted
      · exact ⟨_, (Except.ok.inj decrypted).symm⟩
      · cases decrypted
    obtain ⟨s, rfl⟩ := sealed
    simp [sampleSteps]

end Netcatty.SyncRekey
