import Netcatty.ConvergentCanonical

/-!
Register writes and lists of them.

A write allocates the device's next dot and leaves its candidate alone in the
register (`writeRegisterAt_eq_ok`, `registerAt_writtenState`); a run of writes
changes the registers it names and no others.  `foldlM_eq_runWrites` turns a
loop that decides as it goes into the run of the writes planned before it.
-/

namespace Netcatty

open List

/-! ## One write -/

variable (state : ConvergentSyncState) (deviceId : JsString)

def nextDot : Dot where
  deviceId
  counter := state.vector.counter deviceId + 1

variable (hlc : HybridLogicalClock)

/-- The candidate `writeRegister` creates at an address. -/
def newCandidate
    (address : RegisterAddress) (value : Option JsonValue) : RegisterCandidate where
  dot := nextDot state deviceId
  context := registerCausalContext (registerAt state address)
  hlc
  value

def allocateDot
    (address : RegisterAddress) : ConvergentSyncState :=
  { state with
    vector := state.vector.set deviceId (state.vector.counter deviceId + 1)
    dotOrigins := state.dotOrigins.set deviceId
      (((state.dotOrigins.get? deviceId).getD .empty).set (state.vector.counter deviceId + 1)
        (registerId address))
    hlc }

/-- The state a write leaves. -/
def writtenState
    (address : RegisterAddress) (value : Option JsonValue) : ConvergentSyncState :=
  storeRegister (allocateDot state deviceId hlc address) address
    { candidates := [newCandidate state deviceId hlc address value] }

@[simp] theorem registerAt_allocateDot (address other : RegisterAddress) :
    registerAt (allocateDot state deviceId hlc address) other = registerAt state other := by
  cases other <;> rfl

def CanWrite (now : JsNumber)
    (hlc : HybridLogicalClock) : Prop :=
  deviceId ≠ [] ∧ state.vector.counter deviceId < maxSafeInteger ∧
    tickHybridLogicalClock state.hlc now = .ok hlc

variable {state : ConvergentSyncState}

theorem writeRegister_eq_ok {deviceId : JsString} {now : JsNumber}
    {address : RegisterAddress} {value : Option JsonValue}
    {result : ConvergentSyncState × MultiValueRegister} :
    writeRegister state deviceId now (registerId address) (registerAt state address) value =
      .ok result ↔ ∃ hlc, CanWrite state deviceId now hlc ∧
        result = (allocateDot state deviceId hlc address,
          { candidates := [newCandidate state deviceId hlc address value] }) := by
  simp only [writeRegister, requireNonEmpty, assertNonEmptyKey, check_bind_eq_ok, ensure_eq_ok,
    decide_eq_true_eq]
  simp only [bind_eq_ok (α := HybridLogicalClock), pure_eq_ok, Except.ok.injEq, CanWrite, ne_eq]
  constructor
  · rintro ⟨device, counter, hlc, ticked, same⟩
    exact ⟨hlc, ⟨device, counter, ticked⟩, same.symm⟩
  · rintro ⟨hlc, ⟨device, counter, ticked⟩, same⟩
    exact ⟨device, counter, hlc, ticked, same.symm⟩

/-- A write at a stored entity or entry succeeds exactly when the device can write. -/
theorem writeRegisterAt_eq_ok {state state' : ConvergentSyncState} {deviceId : JsString}
    {now : JsNumber} {address : RegisterAddress} {value : Option JsonValue}
    (named : address.Named) (parent : state.HasParent address) :
    writeRegisterAt state deviceId now address value = .ok state' ↔
      ∃ hlc, CanWrite state deviceId now hlc ∧
        state' = writtenState state deviceId hlc address value := by
  have opened : ∀ hlc, openParent (allocateDot state deviceId hlc address) address =
      allocateDot state deviceId hlc address := fun hlc => openParent_eq_self (by
    rcases parent with setting | stored
    · exact Or.inl setting
    · exact Or.inr (by simpa using stored))
  simp only [writeRegisterAt, bind_eq_ok, writeRegister_eq_ok]
  constructor
  · rintro ⟨_, ⟨hlc, can, rfl⟩, stored⟩
    rw [setRegisterAtAddress_eq named, opened, Except.ok.injEq] at stored
    exact ⟨hlc, can, stored.symm⟩
  · rintro ⟨hlc, can, rfl⟩
    exact ⟨_, ⟨hlc, can, rfl⟩, by rw [setRegisterAtAddress_eq named, opened]; rfl⟩

theorem registerAt_writtenState {address : RegisterAddress}
    (named : address.Named) (parent : state.HasParent address) (deviceId : JsString)
    (hlc : HybridLogicalClock) (value : Option JsonValue) (other : RegisterAddress) :
    registerAt (writtenState state deviceId hlc address value) other =
      if other = address then some { candidates := [newCandidate state deviceId hlc address value] }
      else registerAt state other := by
  have parent' : (allocateDot state deviceId hlc address).HasParent address := by
    rcases parent with setting | stored
    · exact Or.inl setting
    · exact Or.inr (by simpa using stored)
  rw [writtenState, registerAt_storeRegister named parent', registerAt_allocateDot]

section

variable (state : ConvergentSyncState) (deviceId : JsString) (hlc : HybridLogicalClock)
    (address : RegisterAddress) (value : Option JsonValue)

@[simp] theorem writtenState_vector : (writtenState state deviceId hlc address value).vector =
      state.vector.set deviceId (state.vector.counter deviceId + 1) := by
  simp [writtenState, allocateDot]

@[simp] theorem writtenState_hlc : (writtenState state deviceId hlc address value).hlc = hlc := by
  simp [writtenState, allocateDot]

theorem origin_writtenState (dot : Dot) :
    (writtenState state deviceId hlc address value).origin dot =
      if dot = nextDot state deviceId then some (registerId address) else state.origin dot := by
  obtain ⟨device, counter⟩ := dot
  simp only [ConvergentSyncState.origin, writtenState, storeRegister_dotOrigins, allocateDot,
    SortedMap.get?_set, nextDot, Dot.mk.injEq]
  by_cases same : device = deviceId
  · subst same
    simp only [if_true, Option.bind_some, SortedMap.get?_set, true_and]
    split
    · rfl
    · cases state.dotOrigins.get? device <;> rfl
  · simp [same]

end

theorem hasParent_writtenState {address other : RegisterAddress}
    (named : address.Named) (parent : state.HasParent address) (deviceId : JsString)
    (hlc : HybridLogicalClock) (value : Option JsonValue) (otherParent : state.HasParent other) :
    (writtenState state deviceId hlc address value).HasParent other := by
  refine otherParent.imp_right fun stored => ?_
  rw [registerAt_writtenState named parent]
  split
  · rfl
  · exact stored

/-! ## Well-stored replicas -/

/-- Registers are stored at valid addresses only, under non-empty names. -/
structure StoredWell (state : ConvergentSyncState) : Prop where
  addresses : ∀ address register, registerAt state address = some register → address.Valid
  settingKeys : ∀ key ∈ state.settings.keys, ∃ path, ValidSettingPath path ∧ key = settingKey path
  collectionNames : ∀ name ∈ state.collections.keys, name ≠ []
  stringCollectionNames : ∀ name ∈ state.stringCollections.keys, name ≠ []

theorem mem_keys_set {V : Type} {m : SortedMap JsString V} {key x : JsString} {v : V} :
    x ∈ (m.set key v).keys ↔ x = key ∨ x ∈ m.keys := by
  simp only [SortedMap.mem_keys, SortedMap.get?_set]
  by_cases same : x = key <;> simp [same]

section WellStored

variable {state : ConvergentSyncState} {address : RegisterAddress} (well : StoredWell state)
  (valid : address.Valid)
include well valid

/-- Opening an entity or entry with names keeps a replica well stored. -/
theorem StoredWell.openParent : StoredWell (openParent state address) := by
  have collection : ∀ c e, c ≠ [] → ∀ name ∈ (openEntity state c e).collections.keys, name ≠ [] := by
    intro c e named name mem
    rw [openEntity] at mem
    split at mem
    · exact well.collectionNames name mem
    · rcases mem_keys_set.mp mem with rfl | mem
      · exact named
      · exact well.collectionNames name mem
  have entryCollection : ∀ c v, c ≠ [] →
      ∀ name ∈ (openStringEntry state c v).stringCollections.keys, name ≠ [] := by
    intro c v named name mem
    rw [openStringEntry] at mem
    split at mem
    · exact well.stringCollectionNames name mem
    · rcases mem_keys_set.mp mem with rfl | mem
      · exact named
      · exact well.stringCollectionNames name mem
  refine ⟨fun other register found => ?_, ?_, ?_, ?_⟩
  · rw [registerAt_openParent] at found
    split at found
    · rename_i opened
      rw [opened.2.1]
      obtain ⟨named, _⟩ := valid
      cases address <;> first
        | exact ⟨⟨named.1, named.2⟩, rfl⟩
        | exact ⟨⟨named.1, named.2.1⟩, rfl⟩
    · exact well.addresses other register found
  · have settings : (Netcatty.openParent state address).settings = state.settings := by
      cases address <;> simp only [Netcatty.openParent, openEntity, openStringEntry] <;>
        first | rfl | (split <;> rfl)
    rw [settings]
    exact well.settingKeys
  · cases address with
    | entityPresence c e => exact collection c e valid.1.1
    | entityPosition c e => exact collection c e valid.1.1
    | entityField c e f => exact collection c e valid.1.1
    | setting path => exact well.collectionNames
    | stringEntryPresence c v | stringEntryPosition c v =>
      intro name mem
      simp only [Netcatty.openParent, openStringEntry] at mem
      split at mem <;> exact well.collectionNames name mem
  · cases address with
    | stringEntryPresence c v => exact entryCollection c v valid.1.1
    | stringEntryPosition c v => exact entryCollection c v valid.1.1
    | setting path => exact well.stringCollectionNames
    | entityPresence c e | entityPosition c e | entityField c e f =>
      intro name mem
      simp only [Netcatty.openParent, openEntity] at mem
      split at mem <;> exact well.stringCollectionNames name mem

theorem StoredWell.writtenState (parent : state.HasParent address) (deviceId : JsString)
    (hlc : HybridLogicalClock) (value : Option JsonValue) :
    StoredWell (writtenState state deviceId hlc address value) := by
  refine ⟨fun other register found => ?_, ?_, ?_, ?_⟩
  · rw [registerAt_writtenState valid.1 parent] at found
    split at found
    · rename_i same
      exact same ▸ valid
    · exact well.addresses other register found
  · cases address with
    | setting path =>
      intro key mem
      rcases mem_keys_set.mp mem with rfl | mem
      · exact ⟨path, valid.1, rfl⟩
      · exact well.settingKeys key mem
    | _ => exact well.settingKeys
  · cases address with
    | entityPresence c e | entityPosition c e | entityField c e f =>
      intro name mem
      rcases mem_keys_set.mp mem with rfl | mem
      · exact valid.1.1
      · exact well.collectionNames name mem
    | _ => exact well.collectionNames
  · cases address with
    | stringEntryPresence c v | stringEntryPosition c v =>
      intro name mem
      rcases mem_keys_set.mp mem with rfl | mem
      · exact valid.1.1
      · exact well.stringCollectionNames name mem
    | _ => exact well.stringCollectionNames

end WellStored

theorem compact_setEntity (compact : state.Compact)
    (collection entityId : JsString) (entity : ConvergentEntityState) :
    (setEntity state collection entityId entity).Compact where
  collections name stored found := by
    simp only [setEntity, SortedMap.get?_set] at found
    split at found
    · cases found
      exact ne_nil_of_mem (mem_keys_set.mpr (Or.inl rfl))
    · exact compact.collections name stored found
  stringCollections := compact.stringCollections

theorem compact_setStringEntry (compact : state.Compact)
    (collection value : JsString) (entry : ConvergentStringEntryState) :
    (setStringEntry state collection value entry).Compact where
  collections := compact.collections
  stringCollections name stored found := by
    simp only [setStringEntry, SortedMap.get?_set] at found
    split at found
    · cases found
      exact ne_nil_of_mem (mem_keys_set.mpr (Or.inl rfl))
    · exact compact.stringCollections name stored found

theorem compact_openParent (compact : state.Compact)
    (address : RegisterAddress) : (openParent state address).Compact := by
  cases address <;> simp only [openParent, openEntity, openStringEntry] <;> first
    | exact compact
    | (split; exacts [compact, compact_setEntity compact _ _ _])
    | (split; exacts [compact, compact_setStringEntry compact _ _ _])

theorem compact_writtenState (compact : state.Compact)
    (deviceId : JsString) (hlc : HybridLogicalClock) (address : RegisterAddress)
    (value : Option JsonValue) : (writtenState state deviceId hlc address value).Compact := by
  have allocated : (allocateDot state deviceId hlc address).Compact :=
    ⟨compact.collections, compact.stringCollections⟩
  cases address with
  | entityPresence c e | entityPosition c e | entityField c e f =>
    exact compact_setEntity allocated _ _ _
  | setting path => exact ⟨allocated.collections, allocated.stringCollections⟩
  | stringEntryPresence c v | stringEntryPosition c v =>
    exact compact_setStringEntry allocated _ _ _

/-! ## Lists of writes -/

/-- One register write of a mutation; no value is a tombstone. -/
structure RegisterWrite where
  address : RegisterAddress
  value : Option JsonValue
  deriving DecidableEq

/-- Perform writes in order. -/
def runWrites (now : JsNumber) (state : ConvergentSyncState)
    (writes : List RegisterWrite) : Checked ConvergentSyncState :=
  writes.foldlM (fun state write => writeRegisterAt state deviceId now write.address write.value) state

section

variable (now : JsNumber) (state : ConvergentSyncState)

@[simp] theorem runWrites_nil : runWrites deviceId now state [] = .ok state := rfl

theorem runWrites_cons (write : RegisterWrite) (writes : List RegisterWrite) :
    runWrites deviceId now state (write :: writes) =
      writeRegisterAt state deviceId now write.address write.value >>= fun state =>
        runWrites deviceId now state writes := rfl

theorem runWrites_append (first second : List RegisterWrite) :
    runWrites deviceId now state (first ++ second) =
      runWrites deviceId now state first >>= fun state => runWrites deviceId now state second := by
  simp [runWrites, List.foldlM_append]

end

def Writable (state : ConvergentSyncState) (writes : List RegisterWrite) : Prop :=
  ∀ write ∈ writes, write.address.Valid ∧ state.HasParent write.address

theorem Writable.tail {write : RegisterWrite}
    {writes : List RegisterWrite} (writable : Writable state (write :: writes)) (deviceId : JsString)
    (hlc : HybridLogicalClock) :
    Writable (writtenState state deviceId hlc write.address write.value) writes := by
  intro other mem
  obtain ⟨valid, parent⟩ := writable write mem_cons_self
  obtain ⟨otherValid, otherParent⟩ := writable other (mem_cons_of_mem _ mem)
  exact ⟨otherValid, hasParent_writtenState valid.1 parent deviceId hlc _ otherParent⟩

theorem runWrites_cons_eq_ok {deviceId : JsString} {now : JsNumber}
    {state state' : ConvergentSyncState} {write : RegisterWrite} {writes : List RegisterWrite}
    (writable : Writable state (write :: writes)) :
    runWrites deviceId now state (write :: writes) = .ok state' ↔
      ∃ hlc, CanWrite state deviceId now hlc ∧
        runWrites deviceId now (writtenState state deviceId hlc write.address write.value) writes =
          .ok state' := by
  obtain ⟨valid, parent⟩ := writable write mem_cons_self
  rw [runWrites_cons, bind_eq_ok]
  simp only [writeRegisterAt_eq_ok valid.1 parent]
  constructor
  · rintro ⟨_, ⟨hlc, can, rfl⟩, rest⟩
    exact ⟨hlc, can, rest⟩
  · rintro ⟨hlc, can, rest⟩
    exact ⟨_, ⟨hlc, can, rfl⟩, rest⟩

theorem runWrites_induction {deviceId : JsString} {now : JsNumber}
    {P : ConvergentSyncState → Prop} {writes : List RegisterWrite}
    {state state' : ConvergentSyncState} (writable : Writable state writes)
    (ran : runWrites deviceId now state writes = .ok state') (start : P state)
    (step : ∀ s hlc, ∀ write ∈ writes, P s → write.address.Valid → s.HasParent write.address →
      CanWrite s deviceId now hlc → P (writtenState s deviceId hlc write.address write.value)) :
    P state' := by
  induction writes generalizing state with
  | nil => cases ran; exact start
  | cons write writes ih =>
    obtain ⟨hlc, can, rest⟩ := (runWrites_cons_eq_ok writable).mp ran
    obtain ⟨valid, parent⟩ := writable write mem_cons_self
    exact ih (writable.tail deviceId hlc) rest
      (step state hlc write mem_cons_self start valid parent can)
      fun s hlc other mem => step s hlc other (mem_cons_of_mem _ mem)

section

variable {deviceId : JsString} {now : JsNumber} {state state' : ConvergentSyncState}
    {writes : List RegisterWrite} (writable : Writable state writes)

include writable

theorem registerAt_runWrites (ran : runWrites deviceId now state writes = .ok state')
    {address : RegisterAddress} (unwritten : ∀ write ∈ writes, write.address ≠ address) :
    registerAt state' address = registerAt state address := by
  refine runWrites_induction (P := fun s => registerAt s address = registerAt state address)
    writable ran rfl fun s hlc write mem same valid parent _ => ?_
  rw [registerAt_writtenState valid.1 parent, if_neg (unwritten write mem).symm, same]

theorem counter_le_runWrites (ran : runWrites deviceId now state writes = .ok state')
    (device : JsString) : state.vector.counter device ≤ state'.vector.counter device := by
  refine runWrites_induction
    (P := fun s => state.vector.counter device ≤ s.vector.counter device)
    writable ran le_rfl fun s hlc write _ le _ _ _ => ?_
  rw [writtenState_vector, VersionVector.counter_set]
  split
  · rename_i same
    subst same
    exact Nat.le_succ_of_le le
  · exact le

/-- A write of a run whose writes have distinct addresses leaves its candidate
alone in its register. -/
theorem registerAt_runWrites_of_mem (distinct : (writes.map RegisterWrite.address).Nodup)
    (ran : runWrites deviceId now state writes = .ok state') {write : RegisterWrite}
    (mem : write ∈ writes) :
    ∃ candidate, registerAt state' write.address = some { candidates := [candidate] } ∧
      candidate.value = write.value ∧ candidate.dot.deviceId = deviceId ∧
      state.vector.counter deviceId < candidate.dot.counter ∧
      candidate.dot.counter ≤ state'.vector.counter deviceId ∧
      candidate.context = registerCausalContext (registerAt state write.address) := by
  induction writes generalizing state with
  | nil => cases mem
  | cons first writes ih =>
    obtain ⟨hlc, can, rest⟩ := (runWrites_cons_eq_ok writable).mp ran
    obtain ⟨valid, parent⟩ := writable first mem_cons_self
    obtain ⟨fresh, distinctTail⟩ := nodup_cons.mp distinct
    have grown : state.vector.counter deviceId + 1 ≤ state'.vector.counter deviceId := by
      have le := counter_le_runWrites (writable.tail deviceId hlc) rest deviceId
      rwa [writtenState_vector, VersionVector.counter_set, if_pos rfl] at le
    rcases mem_cons.mp mem with rfl | mem
    · refine ⟨newCandidate state deviceId hlc write.address write.value, ?_, rfl, rfl,
        Nat.lt_succ_self _, grown, rfl⟩
      rw [registerAt_runWrites (writable.tail deviceId hlc) rest fun other otherMem same =>
        fresh (List.mem_map.mpr ⟨other, otherMem, same⟩), registerAt_writtenState valid.1 parent,
        if_pos rfl]
    · obtain ⟨candidate, stored, value, device, low, high, context⟩ :=
        ih (writable.tail deviceId hlc) distinctTail rest mem
      have other : write.address ≠ first.address := fun same =>
        fresh (same ▸ List.mem_map_of_mem mem)
      rw [registerAt_writtenState valid.1 parent, if_neg other] at context
      rw [writtenState_vector, VersionVector.counter_set, if_pos rfl] at low
      exact ⟨candidate, stored, value, device, Nat.lt_of_succ_lt low, high, context⟩

end

/-! ## Loops that write as they go -/

section Loops

variable {α κ : Type} {deviceId : JsString} {now : JsNumber}
  {step : α → κ → Checked α} (current : α → ConvergentSyncState)
  (mark : α → ConvergentSyncState → α) (plan : ConvergentSyncState → κ → Option RegisterWrite)
  (address : κ → RegisterAddress)

theorem foldlM_eq_runWrites (keys : List κ) (reference : ConvergentSyncState)
    (current_mark : ∀ a s, current (mark a s) = s)
    (mark_mark : ∀ a s s', mark (mark a s) s' = mark a s')
    (turn : ∀ a, ∀ key ∈ keys, step a key = match plan (current a) key with
      | none => .ok a
      | some write => writeRegisterAt (current a) deviceId now write.address write.value >>=
          fun s => .ok (mark a s))
    (local' : ∀ s s', ∀ key ∈ keys, registerAt s (address key) = registerAt s' (address key) →
      plan s key = plan s' key)
    (target : ∀ s key write, plan s key = some write → write.address = address key)
    (named : ∀ key ∈ keys, (address key).Named) (distinct : (keys.map address).Nodup)
    (a : α) (parents : ∀ key ∈ keys, (current a).HasParent (address key))
    (same : ∀ key ∈ keys, registerAt (current a) (address key) = registerAt reference (address key)) :
    keys.foldlM step a = runWrites deviceId now (current a) (keys.filterMap (plan reference)) >>=
      fun s => .ok (if keys.filterMap (plan reference) = [] then a else mark a s) := by
  induction keys generalizing a with
  | nil => simp
  | cons key keys ih =>
    obtain ⟨fresh, distinctTail⟩ := nodup_cons.mp distinct
    have first := turn a key mem_cons_self
    rw [local' _ reference key mem_cons_self (same key mem_cons_self)] at first
    have rest : ∀ k ∈ keys, k ∈ key :: keys := fun k mem => mem_cons_of_mem _ mem
    rw [foldlM_cons, first, filterMap_cons]
    cases planned : plan reference key with
    | none =>
      rw [ok_bind]
      exact ih (fun a k mem => turn a k (rest k mem)) (fun s s' k mem => local' s s' k (rest k mem))
        (fun k mem => named k (rest k mem)) distinctTail a (fun k mem => parents k (rest k mem)) fun k mem => same k (rest k mem)
    | some write =>
      have atKey := target _ _ _ planned
      have keyNamed := named key mem_cons_self
      have keyParent := parents key mem_cons_self
      simp only [runWrites_cons, bind_assoc, reduceCtorEq, if_false]
      cases ran : writeRegisterAt (current a) deviceId now write.address write.value with
      | error e => rfl
      | ok s =>
        rw [atKey] at ran
        obtain ⟨hlc, _, rfl⟩ := (writeRegisterAt_eq_ok keyNamed keyParent).mp ran
        simp only [ok_bind]
        rw [ih (fun a k mem => turn a k (rest k mem)) (fun s s' k mem => local' s s' k (rest k mem))
          (fun k mem => named k (rest k mem)) distinctTail (mark a _)]
        · by_cases none : keys.filterMap (plan reference) = []
          · simp [none, current_mark]
          · simp only [none, if_false, current_mark, mark_mark]
        · intro k mem
          rw [current_mark]
          exact hasParent_writtenState keyNamed keyParent _ _ _ (parents k (rest k mem))
        · intro k mem
          have other : address k ≠ address key := fun eq =>
            fresh (List.mem_map.mpr ⟨k, mem, eq⟩)
          rw [current_mark, registerAt_writtenState keyNamed keyParent, if_neg other]
          exact same k (rest k mem)

end Loops

end Netcatty
