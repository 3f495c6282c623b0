import Netcatty.ConvergentMutations

/-!
The join of replicas that represent one history.

`mergedState_represents`: joining two replicas that are cuts of one history
succeeds, and the result is the cut of both.  It rests on the register join
keeping the frontier of the union of cuts (`mergeMultiValueRegisters_represents`);
the rest follows the records of the source level by level.
-/

namespace Netcatty

open List Option SortedMap

/-! ## Records -/

section Records

variable {K V : Type} [LinearOrder K] (left right : SortedMap K V)
  (merge : Option V → Option V → Checked (Option V)) {g : K → Option V}

theorem stored_of_mem_keys {left right : SortedMap K V} {key : K}
    (absent : key ∉ SortedMap.unionKeys left right) : left.get? key = none ∧ right.get? key = none := by
  simpa [mem_unionKeys, SortedMap.mem_keys] using absent

theorem mergeRecord_of_keys (runs : ∀ key ∈ SortedMap.unionKeys left right,
      merge (left.get? key) (right.get? key) = .ok (g key)) :
    ∃ merged, mergeRecord left right merge = .ok merged ∧
      ∀ key, merged.get? key = if key ∈ SortedMap.unionKeys left right then g key else none := by
  obtain ⟨merged, ran, lookups⟩ := buildM_eq_ok (m := .empty) runs (fun _ _ => rfl)
    (unionKeys_nodup left right)
  exact ⟨merged, ran, fun key => by rw [lookups, SortedMap.get?_empty]⟩

theorem mergeRecord_eq_ok (runs : ∀ key, merge (left.get? key) (right.get? key) = .ok (g key))
    (absent : merge none none = .ok none) :
    ∃ merged, mergeRecord left right merge = .ok merged ∧ ∀ key, merged.get? key = g key := by
  obtain ⟨merged, ran, lookups⟩ := mergeRecord_of_keys left right merge fun key _ => runs key
  refine ⟨merged, ran, fun key => ?_⟩
  rw [lookups]
  split
  · rfl
  · rename_i notMem
    have value := runs key
    rw [(stored_of_mem_keys notMem).1, (stored_of_mem_keys notMem).2, absent] at value
    exact Except.ok.inj value

theorem keys_of_mergeRecord {left right merged : SortedMap K V}
    {merge : Option V → Option V → Checked (Option V)}
    (runs : ∀ key, merge (left.get? key) (right.get? key) = .ok (merged.get? key))
    (absent : merge none none = .ok none) :
    ∀ key ∈ merged.keys, key ∈ left.keys ∨ key ∈ right.keys := by
  intro key mem
  by_contra unstored
  obtain ⟨none, none'⟩ := stored_of_mem_keys fun inUnion => unstored (mem_unionKeys.mp inUnion)
  have value := runs key
  rw [none, none', absent] at value
  rw [SortedMap.mem_keys, ← Except.ok.inj value] at mem
  cases mem

end Records

theorem bind_lookup {C V : Type} (inner : C → SortedMap JsString V) (o : Option C)
    (key : JsString) : ((o.map inner).getD .empty).get? key = o.bind fun c => (inner c).get? key := by
  cases o <;> rfl

theorem mergeMultiValueRegisters_none : mergeMultiValueRegisters none none = .ok none := rfl

section Entities

variable {presence position : Option MultiValueRegister}

theorem mergeEntity_eq_ok {left right : Option ConvergentEntityState}
    {fields : JsString → Option MultiValueRegister}
    (presenceRuns : mergeMultiValueRegisters (left.map ConvergentEntityState.presence)
      (right.map ConvergentEntityState.presence) = .ok presence)
    (positionRuns : mergeMultiValueRegisters (left.bind ConvergentEntityState.position)
      (right.bind ConvergentEntityState.position) = .ok position)
    (fieldRuns : ∀ f, mergeMultiValueRegisters (left.bind fun entity => entity.fields.get? f)
      (right.bind fun entity => entity.fields.get? f) = .ok (fields f))
    (absent : presence = none → left = none ∧ right = none) :
    ∃ merged, mergeEntity left right = .ok merged ∧
      merged.map ConvergentEntityState.presence = presence ∧
      merged.bind ConvergentEntityState.position = position ∧
      ∀ f, (merged.bind fun entity => entity.fields.get? f) = fields f := by
  cases presence with
  | none =>
    obtain ⟨rfl, rfl⟩ := absent rfl
    refine ⟨none, rfl, rfl, ?_, fun f => ?_⟩
    · exact Except.ok.inj positionRuns
    · exact Except.ok.inj (fieldRuns f)
  | some register =>
    obtain ⟨merged, ran, lookups⟩ := mergeRecord_eq_ok
      ((left.map ConvergentEntityState.fields).getD .empty)
      ((right.map ConvergentEntityState.fields).getD .empty) mergeMultiValueRegisters (g := fields)
      (fun f => by rw [bind_lookup, bind_lookup]; exact fieldRuns f) mergeMultiValueRegisters_none
    refine ⟨some { presence := register, position, fields := merged }, ?_, rfl, rfl, lookups⟩
    simp only [mergeEntity, presenceRuns, positionRuns, ran, ok_bind, pure_eq_ok]

theorem mergeStringEntry_eq_ok {left right : Option ConvergentStringEntryState}
    (presenceRuns : mergeMultiValueRegisters (left.map ConvergentStringEntryState.presence)
      (right.map ConvergentStringEntryState.presence) = .ok presence)
    (positionRuns : mergeMultiValueRegisters (left.bind ConvergentStringEntryState.position)
      (right.bind ConvergentStringEntryState.position) = .ok position)
    (absent : presence = none → left = none ∧ right = none) :
    ∃ merged, mergeStringEntry left right = .ok merged ∧
      merged.map ConvergentStringEntryState.presence = presence ∧
      merged.bind ConvergentStringEntryState.position = position := by
  cases presence with
  | none =>
    obtain ⟨rfl, rfl⟩ := absent rfl
    exact ⟨none, rfl, rfl, Except.ok.inj positionRuns⟩
  | some register =>
    refine ⟨some { presence := register, position }, ?_, rfl, rfl⟩
    simp only [mergeStringEntry, presenceRuns, positionRuns, ok_bind, pure_eq_ok]

theorem kept_lookup {C V : Type} {inner : C → SortedMap JsString V} {merged : C}
    {g : JsString → Option V} (lookups : ∀ key, (inner merged).get? key = g key) :
    let kept := if (inner merged).keys = [] then none else some merged
    (∀ key, (kept.bind fun c => (inner c).get? key) = g key) ∧
      ∀ c, kept = some c → (inner c).keys ≠ [] := by
  dsimp only
  split
  · rename_i empty
    refine ⟨fun key => ?_, fun c stored => by cases stored⟩
    rw [← lookups key, bind_none, eq_comm, ← not_isSome_iff_eq_none, ← SortedMap.mem_keys, empty]
    exact not_mem_nil
  · rename_i filled
    exact ⟨lookups, fun c stored => Option.some.inj stored ▸ filled⟩

theorem mergeCollection_eq_ok {left right : Option ConvergentCollectionState}
    {g : JsString → Option ConvergentEntityState}
    (runs : ∀ e, mergeEntity (left.bind fun c => c.entities.get? e)
      (right.bind fun c => c.entities.get? e) = .ok (g e)) :
    ∃ merged, mergeCollection left right = .ok merged ∧
      (∀ e, (merged.bind fun c => c.entities.get? e) = g e) ∧
      ∀ collection, merged = some collection → collection.entities.keys ≠ [] := by
  obtain ⟨merged, ran, lookups⟩ := mergeRecord_eq_ok
    ((left.map ConvergentCollectionState.entities).getD .empty)
    ((right.map ConvergentCollectionState.entities).getD .empty) mergeEntity (g := g)
    (fun e => by rw [bind_lookup, bind_lookup]; exact runs e) rfl
  refine ⟨_, ?_, kept_lookup lookups⟩
  simp only [mergeCollection, ran, ok_bind, pure_eq_ok]

theorem mergeStringCollection_eq_ok {left right : Option ConvergentStringCollectionState}
    {g : JsString → Option ConvergentStringEntryState}
    (runs : ∀ v, mergeStringEntry (left.bind fun c => c.entries.get? v)
      (right.bind fun c => c.entries.get? v) = .ok (g v)) :
    ∃ merged, mergeStringCollection left right = .ok merged ∧
      (∀ v, (merged.bind fun c => c.entries.get? v) = g v) ∧
      ∀ collection, merged = some collection → collection.entries.keys ≠ [] := by
  obtain ⟨merged, ran, lookups⟩ := mergeRecord_eq_ok
    ((left.map ConvergentStringCollectionState.entries).getD .empty)
    ((right.map ConvergentStringCollectionState.entries).getD .empty) mergeStringEntry (g := g)
    (fun e => by rw [bind_lookup, bind_lookup]; exact runs e) rfl
  refine ⟨_, ?_, kept_lookup lookups⟩
  simp only [mergeStringCollection, ran, ok_bind, pure_eq_ok]

end Entities

/-! ## Dot origins -/

section Origins

variable {left right : ConvergentSyncState}

theorem mergeDotOrigins_eq_ok (agree : ∀ dot id id', left.origin dot = some id →
      right.origin dot = some id' → id = id') :
    ∃ merged, mergeDotOrigins left.dotOrigins right.dotOrigins = .ok merged ∧
      (∀ dot : Dot, ((merged.get? dot.deviceId).bind fun origins => origins.get? dot.counter) =
        (left.origin dot).or (right.origin dot)) ∧
      ∀ deviceId, deviceId ∈ merged.keys ↔
        deviceId ∈ left.dotOrigins.keys ∨ deviceId ∈ right.dotOrigins.keys := by
  have device : ∀ deviceId, ∃ origins,
      mergeRecord ((left.dotOrigins.get? deviceId).getD .empty)
        ((right.dotOrigins.get? deviceId).getD .empty) mergeOrigin = .ok origins ∧
      ∀ counter, origins.get? counter =
        (left.origin { deviceId, counter }).or (right.origin { deviceId, counter }) := by
    intro deviceId
    have lookup : ∀ (o : DotOriginIndex) counter, ((o.get? deviceId).getD .empty).get? counter =
        (o.get? deviceId).bind fun origins => origins.get? counter := by
      intro o counter
      cases o.get? deviceId <;> rfl
    refine mergeRecord_eq_ok _ _ _ (fun counter => ?_) rfl
    have same := agree { deviceId, counter }
    rw [lookup, lookup]
    simp only [ConvergentSyncState.origin] at same ⊢
    cases mine : (left.dotOrigins.get? deviceId).bind fun origins => origins.get? counter with
    | none => rfl
    | some id =>
      cases theirs : (right.dotOrigins.get? deviceId).bind fun origins => origins.get? counter with
      | none => rfl
      | some id' => simp [mergeOrigin, same id id' mine theirs]
  choose origins runs lookups using device
  obtain ⟨merged, ran, keys⟩ := mergeRecord_of_keys left.dotOrigins right.dotOrigins
    (fun leftDevice rightDevice => do
      return some (← mergeRecord (leftDevice.getD .empty) (rightDevice.getD .empty) mergeOrigin))
    (g := fun deviceId => some (origins deviceId))
    (fun deviceId _ => by simp only [runs, ok_bind, pure_eq_ok])
  refine ⟨merged, ran, fun dot => ?_, fun deviceId => ?_⟩
  · rw [keys]
    split
    · exact lookups dot.deviceId dot.counter
    · rename_i absent
      have unstored : left.dotOrigins.get? dot.deviceId = none ∧
          right.dotOrigins.get? dot.deviceId = none := by
        simpa [mem_unionKeys, SortedMap.mem_keys] using absent
      simp [ConvergentSyncState.origin, unstored.1, unstored.2]
  · rw [SortedMap.mem_keys, keys]
    by_cases mem : deviceId ∈ SortedMap.unionKeys left.dotOrigins right.dotOrigins
    · simpa [mem] using mem_unionKeys.mp mem
    · simpa [mem] using mem_unionKeys.not.mp mem

end Origins

/-! ## Registers -/

section Joined

variable {history : History} {left right : ConvergentSyncState}
  (leftRep : Represents history left) (rightRep : Represents history right)
include leftRep rightRep

theorem union_isCut : history.graph.IsCut (left.vector.dots ∪ right.vector.dots) :=
  leftRep.cut.union rightRep.cut

theorem mergeMultiValueRegisters_represents (address : RegisterAddress) :
    ∃ merged, mergeMultiValueRegisters (registerAt left address) (registerAt right address) =
        .ok merged ∧
      (∀ c, c ∈ registerCandidates merged ↔
        ∃ dot ∈ history.graph.frontier (left.vector.dots ∪ right.vector.dots) address,
          c = history.candidate dot) ∧
      (registerCandidates merged).Pairwise (fun a b => a.dot < b.dot) ∧
      (merged = none ↔ registerCandidates merged = []) := by
  have agree : ∀ c ∈ registerCandidates (registerAt left address),
      ∀ c' ∈ registerCandidates (registerAt right address), c.dot = c'.dot → c = c' := by
    intro c mem c' mem' same
    obtain ⟨dot, _, rfl⟩ := (leftRep.candidates address c).mp mem
    obtain ⟨dot', _, rfl⟩ := (rightRep.candidates address c').mp mem'
    exact congrArg history.candidate same
  obtain ⟨merged, ran, members, sorted, empty⟩ := mem_mergeMultiValueRegisters
    (dotsDistinct_of_pairwise (leftRep.distinct address))
    (dotsDistinct_of_pairwise (rightRep.distinct address)) agree
  have memLeft : ∀ dot, history.candidate dot ∈ registerCandidates (registerAt left address) ↔
      dot ∈ history.graph.frontier left.vector.dots address := by
    intro dot
    refine (leftRep.candidates address _).trans ⟨?_, fun front => ⟨dot, front, rfl⟩⟩
    rintro ⟨dot', front, same⟩
    exact history.candidate_injective same ▸ front
  have memRight : ∀ dot, history.candidate dot ∈ registerCandidates (registerAt right address) ↔
      dot ∈ history.graph.frontier right.vector.dots address := by
    intro dot
    refine (rightRep.candidates address _).trans ⟨?_, fun front => ⟨dot, front, rfl⟩⟩
    rintro ⟨dot', front, same⟩
    exact history.candidate_injective same ▸ front
  -- A kept candidate is an event of the frontier of both cuts.
  have kept : ∀ c, Kept (registerAt left address) (registerAt right address) c ↔
      ∃ dot ∈ history.graph.frontier (left.vector.dots ∪ right.vector.dots) address,
        c = history.candidate dot := by
    intro c
    constructor
    · rintro (⟨mem, mem'⟩ | ⟨mem, unseen⟩ | ⟨mem, unseen⟩)
      · obtain ⟨dot, front, rfl⟩ := (leftRep.candidates address c).mp mem
        exact ⟨dot, (leftRep.cut.mem_frontier_union rightRep.cut).mpr
          (Or.inl ⟨front, (memRight dot).mp mem'⟩), rfl⟩
      · obtain ⟨dot, front, rfl⟩ := (leftRep.candidates address c).mp mem
        rw [History.candidate_dot, rightRep.mem_causalContext] at unseen
        exact ⟨dot, (leftRep.cut.mem_frontier_union rightRep.cut).mpr
          (Or.inr (Or.inl ⟨front, fun covered => unseen ⟨covered, front.2.1⟩⟩)), rfl⟩
      · obtain ⟨dot, front, rfl⟩ := (rightRep.candidates address c).mp mem
        rw [History.candidate_dot, leftRep.mem_causalContext] at unseen
        exact ⟨dot, (leftRep.cut.mem_frontier_union rightRep.cut).mpr
          (Or.inr (Or.inr ⟨front, fun covered => unseen ⟨covered, front.2.1⟩⟩)), rfl⟩
    · rintro ⟨dot, front, rfl⟩
      rcases (leftRep.cut.mem_frontier_union rightRep.cut).mp front with
        ⟨inLeft, inRight⟩ | ⟨inLeft, unseen⟩ | ⟨inRight, unseen⟩
      · exact Or.inl ⟨(memLeft dot).mpr inLeft, (memRight dot).mpr inRight⟩
      · refine Or.inr (Or.inl ⟨(memLeft dot).mpr inLeft, fun seen => unseen ?_⟩)
        exact (rightRep.mem_causalContext.mp seen).1
      · refine Or.inr (Or.inr ⟨(memRight dot).mpr inRight, fun seen => unseen ?_⟩)
        exact (leftRep.mem_causalContext.mp seen).1
  refine ⟨merged, ran, fun c => ?_, sorted, empty⟩
  rw [members c, kept c]
  refine ⟨fun h => h.1, fun h => ⟨h, ?_⟩⟩
  obtain ⟨dot, front, rfl⟩ := h
  intro other keptOther _ seen
  obtain ⟨dot', front', rfl⟩ := (kept other).mp keptOther
  exact front.2.2 dot' front'.1 seen

end Joined

/-! ## Replicas -/

section Replicas

variable {left right : ConvergentSyncState}

/-- What `mergedState` builds, register by register. -/
structure JoinedRecords (left right : ConvergentSyncState)
    (registers : RegisterAddress → Option MultiValueRegister) (merged : ConvergentSyncState) :
    Prop where
  registers : ∀ address, registerAt merged address = registers address
  compact : merged.Compact
  settingKeys : ∀ key ∈ merged.settings.keys, key ∈ left.settings.keys ∨ key ∈ right.settings.keys
  collectionNames : ∀ name ∈ merged.collections.keys,
    name ∈ left.collections.keys ∨ name ∈ right.collections.keys
  stringCollectionNames : ∀ name ∈ merged.stringCollections.keys,
    name ∈ left.stringCollections.keys ∨ name ∈ right.stringCollections.keys
  vector : merged.vector = mergeVersionVectors left.vector right.vector
  hlc : merged.hlc = max left.hlc right.hlc
  origin : ∀ dot, merged.origin dot = (left.origin dot).or (right.origin dot)
  originDevices : ∀ deviceId, deviceId ∈ merged.dotOrigins.keys ↔
    deviceId ∈ left.dotOrigins.keys ∨ deviceId ∈ right.dotOrigins.keys

/-- The join succeeds when every register, every setting key and every shared dot do. -/
theorem mergedState_eq_ok {registers : RegisterAddress → Option MultiValueRegister}
    (runs : ∀ address, mergeMultiValueRegisters (registerAt left address) (registerAt right address) =
      .ok (registers address))
    (absent : ∀ address, registers address = none →
      registerAt left address = none ∧ registerAt right address = none)
    (keys : ∀ key ∈ left.settings.keys, ∃ path, ValidSettingPath path ∧ key = settingKey path)
    (keys' : ∀ key ∈ right.settings.keys, ∃ path, ValidSettingPath path ∧ key = settingKey path)
    (agree : ∀ dot id id', left.origin dot = some id → right.origin dot = some id' → id = id') :
    ∃ merged, mergedState left right = .ok merged ∧ JoinedRecords left right registers merged := by
  -- Entities, collection by collection.
  have entity : ∀ c e, ∃ merged,
      mergeEntity (findEntity left c e) (findEntity right c e) = .ok merged ∧
      merged.map ConvergentEntityState.presence = registers (.entityPresence c e) ∧
      merged.bind ConvergentEntityState.position = registers (.entityPosition c e) ∧
      ∀ f, (merged.bind fun entity => entity.fields.get? f) = registers (.entityField c e f) :=
    fun c e => mergeEntity_eq_ok (runs (.entityPresence c e)) (runs (.entityPosition c e))
      (fun f => runs (.entityField c e f)) fun none => by
        simpa [registerAt] using absent _ none
  choose entities entityRuns presences positions fields using entity
  have collection : ∀ c, ∃ merged,
      mergeCollection (left.collections.get? c) (right.collections.get? c) = .ok merged ∧
      (∀ e, (merged.bind fun c => c.entities.get? e) = entities c e) ∧
      ∀ collection, merged = some collection → collection.entities.keys ≠ [] :=
    fun c => mergeCollection_eq_ok (entityRuns c)
  choose collections collectionRuns inCollection fullCollections using collection
  obtain ⟨mergedCollections, ranCollections, lookupCollections⟩ :=
    mergeRecord_eq_ok left.collections right.collections mergeCollection collectionRuns rfl
  obtain rfl : collections = mergedCollections.get? := funext fun c => (lookupCollections c).symm
  -- String entries, collection by collection.
  have entry : ∀ c v, ∃ merged,
      mergeStringEntry (findStringEntry left c v) (findStringEntry right c v) = .ok merged ∧
      merged.map ConvergentStringEntryState.presence = registers (.stringEntryPresence c v) ∧
      merged.bind ConvergentStringEntryState.position = registers (.stringEntryPosition c v) :=
    fun c v => mergeStringEntry_eq_ok (runs (.stringEntryPresence c v))
      (runs (.stringEntryPosition c v)) fun none => by simpa [registerAt] using absent _ none
  choose entries entryRuns entryPresences entryPositions using entry
  have stringCollection : ∀ c, ∃ merged,
      mergeStringCollection (left.stringCollections.get? c) (right.stringCollections.get? c) =
        .ok merged ∧
      (∀ v, (merged.bind fun c => c.entries.get? v) = entries c v) ∧
      ∀ collection, merged = some collection → collection.entries.keys ≠ [] :=
    fun c => mergeStringCollection_eq_ok (entryRuns c)
  choose stringCollections stringRuns inStringCollection fullStringCollections using stringCollection
  obtain ⟨mergedStrings, ranStrings, lookupStrings⟩ :=
    mergeRecord_eq_ok left.stringCollections right.stringCollections mergeStringCollection stringRuns rfl
  obtain rfl : stringCollections = mergedStrings.get? := funext fun c => (lookupStrings c).symm
  -- Settings, key by key.
  have setting : ∀ key, ∃ register,
      mergeMultiValueRegisters (left.settings.get? key) (right.settings.get? key) = .ok register := by
    intro key
    by_cases mem : key ∈ SortedMap.unionKeys left.settings right.settings
    · obtain ⟨path, _, rfl⟩ := (mem_unionKeys.mp mem).elim (keys key) (keys' key)
      exact ⟨_, runs (.setting path)⟩
    · obtain ⟨unset, unset'⟩ := stored_of_mem_keys mem
      rw [unset, unset']
      exact ⟨_, mergeMultiValueRegisters_none⟩
  choose settings settingRuns using setting
  obtain ⟨mergedSettings, ranSettings, lookupSettings⟩ :=
    mergeRecord_eq_ok left.settings right.settings mergeMultiValueRegisters settingRuns
      mergeMultiValueRegisters_none
  obtain rfl : settings = mergedSettings.get? := funext fun key => (lookupSettings key).symm
  obtain ⟨origins, ranOrigins, origin, originDevices⟩ := mergeDotOrigins_eq_ok agree
  have ran : mergedState left right = .ok {
      vector := mergeVersionVectors left.vector right.vector
      dotOrigins := origins
      hlc := maxHybridLogicalClock left.hlc right.hlc
      collections := mergedCollections
      settings := mergedSettings
      stringCollections := mergedStrings } := by
    simp only [mergedState, ranCollections, ranSettings, ranStrings, ranOrigins, ok_bind, pure_eq_ok]
  refine ⟨_, ran, fun address => ?_, ⟨fullCollections, fullStringCollections⟩,
    keys_of_mergeRecord settingRuns mergeMultiValueRegisters_none,
    keys_of_mergeRecord collectionRuns rfl, keys_of_mergeRecord stringRuns rfl, rfl,
    maxHybridLogicalClock_eq _ _, origin, originDevices⟩
  cases address with
  | entityPresence c e =>
    exact (congrArg (Option.map ConvergentEntityState.presence) (inCollection c e)).trans
      (presences c e)
  | entityPosition c e =>
    exact (congrArg (fun entity => entity.bind ConvergentEntityState.position)
      (inCollection c e)).trans (positions c e)
  | entityField c e f =>
    exact (congrArg (fun entity : Option ConvergentEntityState =>
      entity.bind fun entity => entity.fields.get? f) (inCollection c e)).trans (fields c e f)
  | setting path => exact Except.ok.inj ((settingRuns _).symm.trans (runs (.setting path)))
  | stringEntryPresence c v =>
    exact (congrArg (Option.map ConvergentStringEntryState.presence) (inStringCollection c v)).trans
      (entryPresences c v)
  | stringEntryPosition c v =>
    exact (congrArg (fun entry => entry.bind ConvergentStringEntryState.position)
      (inStringCollection c v)).trans (entryPositions c v)

end Replicas

section Represented

variable {history : History} {left right : ConvergentSyncState}
  (leftRep : Represents history left) (rightRep : Represents history right)
  (leftShaped : Shaped left) (rightShaped : Shaped right)
include leftRep rightRep

theorem origin_agree (dot : Dot) (id id' : RegisterId) (mine : left.origin dot = some id)
    (theirs : right.origin dot = some id') : id = id' := by
  have covered : dot ∈ left.vector.dots := by
    by_contra absent
    rw [leftRep.uncovered dot absent] at mine
    cases mine
  have covered' : dot ∈ right.vector.dots := by
    by_contra absent
    rw [rightRep.uncovered dot absent] at theirs
    cases theirs
  rw [leftRep.origins dot covered] at mine
  rw [rightRep.origins dot covered'] at theirs
  cases mine
  cases theirs
  rfl

include leftShaped rightShaped

/-- **The join of two cuts of a history is the cut of both.** -/
theorem mergedState_represents : ∃ merged, mergedState left right = .ok merged ∧
    Represents history merged ∧ Shaped merged ∧ merged.Compact ∧
    merged.vector = mergeVersionVectors left.vector right.vector ∧
    merged.hlc = max left.hlc right.hlc := by
  choose registers runs candidates sorted empty using
    mergeMultiValueRegisters_represents leftRep rightRep
  have cut := union_isCut leftRep rightRep
  have retained : ∀ {state : ConvergentSyncState} {address},
      Represents history state → Shaped state → state.vector.dots ⊆ left.vector.dots ∪ right.vector.dots →
      registers address = none → registerAt state address = none := by
    intro state address rep shaped sub none
    by_contra stored
    obtain ⟨register, found⟩ := ne_none_iff_exists'.mp stored
    obtain ⟨c, mem⟩ := exists_mem_of_ne_nil _ (shaped.nonEmpty address register found)
    obtain ⟨dot, front, rfl⟩ := (rep.candidates address c).mp (by rw [candidatesAt, found]; exact mem)
    obtain ⟨top, front'⟩ := cut.frontier_nonempty ⟨sub front.1, front.2.1⟩
    have mem' := (candidates address _).mpr ⟨top, front', rfl⟩
    rw [none] at mem'
    cases mem'
  have absent : ∀ address, registers address = none →
      registerAt left address = none ∧ registerAt right address = none := fun address none =>
    ⟨retained leftRep leftShaped Set.subset_union_left none,
      retained rightRep rightShaped Set.subset_union_right none⟩
  obtain ⟨merged, ran, joined⟩ := mergedState_eq_ok runs absent leftShaped.well.settingKeys
    rightShaped.well.settingKeys (origin_agree leftRep rightRep)
  have dots : merged.vector.dots = left.vector.dots ∪ right.vector.dots := by
    rw [joined.vector, dots_mergeVersionVectors]
  have at_ : ∀ address, candidatesAt merged address = registerCandidates (registers address) :=
    fun address => by rw [candidatesAt, joined.registers]
  refine ⟨merged, ran, ⟨dots ▸ cut, fun dot mem => ?_, fun address c => ?_, fun address => ?_,
    fun dot mem => ?_, fun dot mem => ?_, fun deviceId mem => ?_, fun deviceId counter stored => ?_, ?_⟩,
    ⟨⟨fun address register found => ?_, fun key mem => ?_, fun name mem => ?_, fun name mem => ?_⟩,
      fun address register found => ?_, fun address c mem => ?_⟩,
    joined.compact, joined.vector, joined.hlc⟩
  · rw [dots] at mem
    rcases mem with mem | mem
    · have ok := leftRep.events dot mem
      exact ⟨ok.device, ok.address, ok.distinct, ok.earlier, ok.safe,
        joined.hlc ▸ ok.past.trans (le_max_left _ _)⟩
    · have ok := rightRep.events dot mem
      exact ⟨ok.device, ok.address, ok.distinct, ok.earlier, ok.safe,
        joined.hlc ▸ ok.past.trans (le_max_right _ _)⟩
  · rw [at_, dots]
    exact candidates address c
  · rw [at_]
    exact (sorted address).imp fun lt => lt.ne
  · rw [joined.origin]
    by_cases covered : dot ∈ left.vector.dots
    · rw [leftRep.origins dot covered]
      rfl
    · rw [leftRep.uncovered dot covered, none_or]
      rw [dots] at mem
      exact rightRep.origins dot (mem.resolve_left covered)
  · rw [dots, Set.mem_union, not_or] at mem
    rw [joined.origin, leftRep.uncovered dot mem.1, rightRep.uncovered dot mem.2]
    rfl
  · have stored : deviceId ∈ left.vector.keys ∨ deviceId ∈ right.vector.keys :=
      ((joined.originDevices deviceId).mp mem).imp (leftRep.originDevices deviceId)
        (rightRep.originDevices deviceId)
    have positive : 0 < max (left.vector.counter deviceId) (right.vector.counter deviceId) :=
      lt_max_iff.mpr (stored.imp leftRep.mem_vector_keys.mp rightRep.mem_vector_keys.mp)
    rw [SortedMap.mem_keys, joined.vector, get?_mergeVersionVectors, if_pos positive]
    rfl
  · rw [joined.vector, get?_mergeVersionVectors] at stored
    split at stored
    · rename_i positive
      cases stored
      have bound : ∀ {state}, Represents history state → 0 < state.vector.counter deviceId →
          deviceId ≠ [] ∧ state.vector.counter deviceId ≤ maxSafeInteger := by
        intro state rep positive
        obtain ⟨counter, stored⟩ := mem_keys_iff_exists.mp (rep.mem_vector_keys.mpr positive)
        obtain ⟨device, _, safe⟩ := rep.vector deviceId counter stored
        exact ⟨device, VersionVector.counter_eq stored ▸ safe⟩
      rcases max_choice (left.vector.counter deviceId) (right.vector.counter deviceId) with same | same
        <;> rw [same] at positive ⊢
      · exact ⟨(bound leftRep positive).1, positive, (bound leftRep positive).2⟩
      · exact ⟨(bound rightRep positive).1, positive, (bound rightRep positive).2⟩
    · cases stored
  · rw [joined.hlc]
    rcases max_choice left.hlc right.hlc with same | same <;> rw [same]
    · exact leftRep.clock
    · exact rightRep.clock
  · have nonEmpty : registerCandidates (registers address) ≠ [] := fun nil => by
      rw [joined.registers, (empty address).mpr nil] at found
      cases found
    obtain ⟨c, mem⟩ := exists_mem_of_ne_nil _ nonEmpty
    obtain ⟨dot, front, _⟩ := (candidates address c).mp mem
    rcases front.1 with mem | mem
    · exact front.2.1 ▸ (leftRep.events dot mem).address
    · exact front.2.1 ▸ (rightRep.events dot mem).address
  · exact (joined.settingKeys key mem).elim (leftShaped.well.settingKeys key)
      (rightShaped.well.settingKeys key)
  · exact (joined.collectionNames name mem).elim (leftShaped.well.collectionNames name)
      (rightShaped.well.collectionNames name)
  · exact (joined.stringCollectionNames name mem).elim (leftShaped.well.stringCollectionNames name)
      (rightShaped.well.stringCollectionNames name)
  · intro nil
    rw [joined.registers] at found
    rw [(empty address).mpr (by rw [found]; exact nil)] at found
    cases found
  · rw [at_] at mem
    obtain ⟨dot, front, rfl⟩ := (candidates address c).mp mem
    rcases (leftRep.cut.mem_frontier_union rightRep.cut).mp front with ⟨inLeft, _⟩ | ⟨inLeft, _⟩ | ⟨inRight, _⟩
    · exact leftShaped.values address _ ((leftRep.candidates address _).mpr ⟨dot, inLeft, rfl⟩)
    · exact leftShaped.values address _ ((leftRep.candidates address _).mpr ⟨dot, inLeft, rfl⟩)
    · exact rightShaped.values address _ ((rightRep.candidates address _).mpr ⟨dot, inRight, rfl⟩)

end Represented

end Netcatty
