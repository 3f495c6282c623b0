import Netcatty.ConvergentUpsert

/-!
Batches that only add.

An upsert changes its own entity and an addition its own string; every other entity and string and
all settings stay as they are (`applyMutations_changesOnly`).  So what a batch of them adds is there
when it ends (`applyMutations_added`).
-/

namespace Netcatty

open List Option SortedMap

/-! ## What a step leaves as it is -/

/-- From `state` to `state'` nothing changes but entities and strings of the given presence registers. -/
structure ChangesOnly (targets : RegisterAddress → Prop) (state state' : ConvergentSyncState) : Prop where
  settings : state'.settings = state.settings
  entities : ∀ c e, ¬targets (.entityPresence c e) → findEntity state' c e = findEntity state c e
  entries : ∀ c v, ¬targets (.stringEntryPresence c v) → findStringEntry state' c v = findStringEntry state c v
  collections : ∀ c ∈ state'.collections.keys, c ∈ state.collections.keys ∨ ∃ e, targets (.entityPresence c e)
  stringCollections : ∀ c ∈ state'.stringCollections.keys,
    c ∈ state.stringCollections.keys ∨ ∃ v, targets (.stringEntryPresence c v)

namespace ChangesOnly

variable {targets targets' : RegisterAddress → Prop} {state state' state'' : ConvergentSyncState}

theorem refl (state : ConvergentSyncState) : ChangesOnly targets state state :=
  ⟨rfl, fun _ _ _ => rfl, fun _ _ _ => rfl, fun _ mem => .inl mem, fun _ mem => .inl mem⟩

theorem trans (first : ChangesOnly targets state state') (second : ChangesOnly targets state' state'') :
    ChangesOnly targets state state'' where
  settings := second.settings.trans first.settings
  entities c e other := (second.entities c e other).trans (first.entities c e other)
  entries c v other := (second.entries c v other).trans (first.entries c v other)
  collections c mem := (second.collections c mem).elim (first.collections c) .inr
  stringCollections c mem := (second.stringCollections c mem).elim (first.stringCollections c) .inr

theorem mono (changes : ChangesOnly targets state state') (wider : ∀ target, targets target → targets' target) :
    ChangesOnly targets' state state' where
  settings := changes.settings
  entities c e other := changes.entities c e fun target => other (wider _ target)
  entries c v other := changes.entries c v fun target => other (wider _ target)
  collections c mem := (changes.collections c mem).imp_right (Exists.imp fun _ => wider _)
  stringCollections c mem := (changes.stringCollections c mem).imp_right (Exists.imp fun _ => wider _)

theorem setEntity {c e : JsString} (target : targets (.entityPresence c e)) (state : ConvergentSyncState)
    (entity : ConvergentEntityState) : ChangesOnly targets state (setEntity state c e entity) where
  settings := rfl
  entities c' e' other := by
    rw [findEntity_setEntity, if_neg]
    rintro ⟨rfl, rfl⟩
    exact other target
  entries _ _ _ := rfl
  collections c' mem := by
    rw [SortedMap.mem_keys, Netcatty.setEntity, SortedMap.get?_set] at mem
    split at mem
    · rename_i same
      exact .inr ⟨e, same ▸ target⟩
    · exact .inl (SortedMap.mem_keys.mpr mem)
  stringCollections _ mem := .inl mem

theorem setStringEntry {c v : JsString} (target : targets (.stringEntryPresence c v)) (state : ConvergentSyncState)
    (entry : ConvergentStringEntryState) : ChangesOnly targets state (setStringEntry state c v entry) where
  settings := rfl
  entities _ _ _ := rfl
  entries c' v' other := by
    rw [findStringEntry_setStringEntry, if_neg]
    rintro ⟨rfl, rfl⟩
    exact other target
  collections _ mem := .inl mem
  stringCollections c' mem := by
    rw [SortedMap.mem_keys, Netcatty.setStringEntry, SortedMap.get?_set] at mem
    split at mem
    · rename_i same
      exact .inr ⟨v, same ▸ target⟩
    · exact .inl (SortedMap.mem_keys.mpr mem)

theorem openParent {address : RegisterAddress} (target : targets address.presence) (state : ConvergentSyncState) :
    ChangesOnly targets state (openParent state address) := by
  have entity : ∀ c e, targets (.entityPresence c e) → ChangesOnly targets state (openEntity state c e) := by
    intro c e target
    unfold openEntity
    split
    · exact refl state
    · exact setEntity target state createdEntity
  have entry : ∀ c v, targets (.stringEntryPresence c v) → ChangesOnly targets state (openStringEntry state c v) := by
    intro c v target
    unfold openStringEntry
    split
    · exact refl state
    · exact setStringEntry target state createdStringEntry
  cases address with
  | entityPresence c e | entityPosition c e | entityField c e f => exact entity c e target
  | stringEntryPresence c v | stringEntryPosition c v => exact entry c v target
  | setting path => exact refl state

theorem writtenState {address : RegisterAddress} (target : targets address.presence)
    (contained : address.isSetting = false) (state : ConvergentSyncState) (deviceId : JsString)
    (hlc : HybridLogicalClock) (value : Option JsonValue) :
    ChangesOnly targets state (writtenState state deviceId hlc address value) := by
  have allocated : ChangesOnly targets state (allocateDot state deviceId hlc address) :=
    ⟨rfl, fun _ _ _ => rfl, fun _ _ _ => rfl, fun _ mem => .inl mem, fun _ mem => .inl mem⟩
  refine allocated.trans ?_
  cases address with
  | entityPresence c e | entityPosition c e | entityField c e f => exact setEntity target _ _
  | stringEntryPresence c v | stringEntryPosition c v => exact setStringEntry target _ _
  | setting path => cases contained

end ChangesOnly

/-! ## Additions -/

def ConvergentMutation.added : ConvergentMutation → Option RegisterAddress
  | .entityUpsert collection entityId _ (some _) => some (.entityPresence collection entityId)
  | .stringEntryAdd collection value (some _) => some (.stringEntryPresence collection value)
  | _ => none

section Batch

variable {deviceId : JsString} {now : JsNumber} {history : History} {state state' : ConvergentSyncState}
  {mutation : ConvergentMutation} {target : RegisterAddress}

theorem mem_addedWrites (adds : mutation.added = some target) {write : RegisterWrite}
    (mem : write ∈ mutationWrites state mutation) :
    write.address.presence = target ∧ write.address.isSetting = false := by
  cases mutation with
  | entityUpsert collection entityId value position =>
    cases position with
    | none => cases adds
    | some position =>
      cases adds
      rcases mem_upsertWrites.mp mem with ⟨field, -, planned⟩ | planned | presence
      · rw [fieldWrite_address planned]
        exact ⟨rfl, rfl⟩
      · rw [positionWrite_address planned]
        exact ⟨rfl, rfl⟩
      · rw [presenceWrites_address presence]
        exact ⟨rfl, rfl⟩
  | stringEntryAdd collection value position =>
    cases position with
    | none => cases adds
    | some position =>
      cases adds
      rcases mem_append.mp mem with planned | presence
      · rw [positionWrite_address (mem_toList.mp planned)]
        exact ⟨rfl, rfl⟩
      · rw [presenceWrites_address presence]
        exact ⟨rfl, rfl⟩
  | _ => cases adds

theorem openMutation_changesOnly (adds : mutation.added = some target) :
    ChangesOnly (· = target) state (openMutation state mutation) := by
  cases mutation with
  | entityUpsert collection entityId value position =>
    cases position with
    | none => cases adds
    | some position =>
      cases adds
      change ChangesOnly _ state (openParent state (.entityPresence collection entityId))
      refine .openParent ?_ state
      rfl
  | stringEntryAdd collection value position =>
    cases position with
    | none => cases adds
    | some position =>
      cases adds
      change ChangesOnly _ state (openParent state (.stringEntryPresence collection value))
      refine .openParent ?_ state
      rfl
  | _ => cases adds

theorem applyMutation_changesOnly (well : StoredWell state) (adds : mutation.added = some target)
    (ran : applyMutation state deviceId mutation now = .ok state') : ChangesOnly (· = target) state state' := by
  have ok := mutationOk_of_applyMutation ran
  rw [applyMutation_eq_runWrites well ok] at ran
  refine runWrites_induction (P := ChangesOnly (· = target) state) (mutationWrites_writable well ok) ran
    (openMutation_changesOnly adds) fun s hlc write mem changes _ _ _ => ?_
  obtain ⟨own, contained⟩ := mem_addedWrites adds mem
  exact changes.trans (.writtenState own contained s deviceId hlc write.value)

/-- **A batch of additions changes nothing else.** -/
theorem applyMutations_changesOnly {mutations : List ConvergentMutation} (well : StoredWell state)
    (represents : Represents history state) (add : ∀ mutation ∈ mutations, mutation.added.isSome)
    (ran : applyMutations deviceId now state mutations = .ok state') :
    ChangesOnly (fun target => ∃ mutation ∈ mutations, mutation.added = some target) state state' := by
  induction mutations generalizing history state with
  | nil =>
    cases ran
    exact .refl _
  | cons mutation mutations ih =>
    obtain ⟨next, head, rest⟩ := applyMutations_cons_eq_ok.mp ran
    obtain ⟨well', history', evolves⟩ := applyMutation_evolves well represents head
    obtain ⟨target, adds⟩ := isSome_iff_exists.mp (add mutation mem_cons_self)
    refine ((applyMutation_changesOnly well adds head).mono fun address same => ?_).trans
      ((ih well' evolves.represents (fun other mem => add other (mem_cons_of_mem _ mem)) rest).mono
        fun address later => ?_)
    · exact ⟨mutation, mem_cons_self, same ▸ adds⟩
    · obtain ⟨other, mem, same⟩ := later
      exact ⟨other, mem_cons_of_mem _ mem, same⟩

/-! ## What is there in the end -/

theorem UpsertSettled.congr {c e : JsString} {value : JsonObject} {position : CollectionPosition}
    (settled : UpsertSettled state c e value position) (same : findEntity state' c e = findEntity state c e) :
    UpsertSettled state' c e value position := by
  constructor
  · intro field
    have here := settled.fields field
    simp only [registerAt] at here ⊢
    rw [same]
    exact here
  · have here := settled.position
    simp only [registerAt] at here ⊢
    rw [same]
    exact here
  · have here := settled.presence
    simp only [registerAt] at here ⊢
    rw [same]
    exact here

theorem stringEntryAdd_settled {c v : JsString} {position : Option CollectionPosition} (well : StoredWell state)
    (ran : applyMutation state deviceId (.stringEntryAdd c v position) now = .ok state') :
    ∃ shown, Settled (registerAt state' (.stringEntryPresence c v)) (some shown) := by
  have ok := mutationOk_of_applyMutation ran
  have writable := mutationWrites_writable well ok
  have distinct := mutationWrites_distinct well (.stringEntryAdd c v position)
  rw [applyMutation_eq_runWrites well ok] at ran
  by_cases written : ⟨.stringEntryPresence c v, some (.bool true)⟩ ∈ mutationWrites state (.stringEntryAdd c v position)
  · exact ⟨.bool true, settled_of_mem writable distinct ran written⟩
  · -- Nothing refreshes the presence: it was settled before.
    have unwritten : ∀ write ∈ mutationWrites state (.stringEntryAdd c v position),
        write.address ≠ .stringEntryPresence c v := by
      intro write mem same
      rcases mem_append.mp mem with planned | presence
      · rw [positionWrite_address (mem_toList.mp planned)] at same
        cases same
      · rw [presenceWrites_address presence] at mem
        exact written mem
    have fresh : presenceIsStale (registerAt state (.stringEntryPresence c v)) = false := by
      cases stale : presenceIsStale (registerAt state (.stringEntryPresence c v)) with
      | false => rfl
      | true =>
        refine absurd (mem_append_right _ ?_) written
        rw [presenceWrites, stale, Bool.true_or, if_pos rfl]
        exact mem_singleton_self _
    obtain ⟨shown, settled⟩ := presenceIsStale_eq_false.mp fresh
    refine ⟨shown, ?_⟩
    rw [registerAt_runWrites writable ran unwritten, openMutation, registerAt_openParent, if_neg]
    · exact settled
    · rintro ⟨-, -, absent⟩
      exact settled.stored rfl (by rw [absent]; rfl)

/-- What an addition leaves behind. -/
def ConvergentMutation.Done (state : ConvergentSyncState) : ConvergentMutation → Prop
  | .entityUpsert collection entityId value (some position) => UpsertSettled state collection entityId value position
  | .stringEntryAdd collection value (some _) =>
    ∃ shown, Settled (registerAt state (.stringEntryPresence collection value)) (some shown)
  | _ => True

theorem ConvergentMutation.Done.kept {targets : RegisterAddress → Prop} (done : mutation.Done state)
    (changes : ChangesOnly targets state state') (adds : mutation.added = some target) (other : ¬targets target) :
    mutation.Done state' := by
  cases mutation with
  | entityUpsert collection entityId value position =>
    cases position with
    | none => trivial
    | some position =>
      cases adds
      exact UpsertSettled.congr done (changes.entities _ _ other)
  | stringEntryAdd collection value position =>
    cases position with
    | none => trivial
    | some position =>
      cases adds
      change ∃ shown, Settled ((findStringEntry state' collection value).map _) (some shown)
      rw [changes.entries _ _ other]
      exact done
  | _ => trivial

theorem applyMutation_done (well : StoredWell state) (ran : applyMutation state deviceId mutation now = .ok state') :
    mutation.Done state' := by
  cases mutation with
  | entityUpsert collection entityId value position =>
    cases position with
    | none => trivial
    | some position => exact entityUpsert_settled well (mutationOk_of_applyMutation ran) ran
  | stringEntryAdd collection value position =>
    cases position with
    | none => trivial
    | some position => exact stringEntryAdd_settled well ran
  | _ => trivial

/-- **Everything a batch adds is there in the end**, if it adds nothing in two ways. -/
theorem applyMutations_added {mutations : List ConvergentMutation} (well : StoredWell state)
    (represents : Represents history state) (add : ∀ mutation ∈ mutations, mutation.added.isSome)
    (once : ∀ mutation ∈ mutations, ∀ other ∈ mutations, mutation.added = other.added → mutation = other)
    (ran : applyMutations deviceId now state mutations = .ok state') :
    ∀ mutation ∈ mutations, mutation.Done state' := by
  induction mutations generalizing history state with
  | nil => exact fun mutation mem => absurd mem not_mem_nil
  | cons first mutations ih =>
    obtain ⟨next, head, rest⟩ := applyMutations_cons_eq_ok.mp ran
    obtain ⟨well', history', evolves⟩ := applyMutation_evolves well represents head
    have later : ∀ mutation ∈ mutations, mutation.added.isSome :=
      fun mutation mem => add mutation (mem_cons_of_mem _ mem)
    have tail := ih well' evolves.represents later
      (fun mutation mem other mem' => once mutation (mem_cons_of_mem _ mem) other (mem_cons_of_mem _ mem')) rest
    have changes := applyMutations_changesOnly well' evolves.represents later rest
    intro mutation mem
    rcases mem_cons.mp mem with rfl | mem
    · obtain ⟨target, adds⟩ := isSome_iff_exists.mp (add mutation mem_cons_self)
      by_cases again : ∃ other ∈ mutations, other.added = some target
      · obtain ⟨other, inRest, same⟩ := again
        have equal := once mutation mem_cons_self other (mem_cons_of_mem _ inRest) (adds.trans same.symm)
        exact equal ▸ tail other inRest
      · exact (applyMutation_done well head).kept changes adds again
    · exact tail mutation mem

theorem ConvergentMutation.Done.canonical (done : mutation.Done state) : mutation.Done (canonicalState state) := by
  cases mutation with
  | entityUpsert collection entityId value position =>
    cases position with
    | none => trivial
    | some position => exact UpsertSettled.canonical done
  | stringEntryAdd collection value position =>
    cases position with
    | none => trivial
    | some position => exact Exists.imp (fun _ settled => settled.canonicalAt) done
  | _ => trivial

theorem ChangesOnly.canonical {targets : RegisterAddress → Prop} (changes : ChangesOnly targets state state')
    (canonical : canonicalState state = state) : ChangesOnly targets state (canonicalState state') where
  settings := by
    change state'.settings.mapValues canonicalRegister = state.settings
    rw [changes.settings]
    exact congrArg ConvergentSyncState.settings canonical
  entities c e other := by
    rw [findEntity_canonicalState, changes.entities c e other, ← findEntity_canonicalState, canonical]
  entries c v other := by
    rw [findStringEntry_canonicalState, changes.entries c v other, ← findStringEntry_canonicalState, canonical]
  collections c mem := changes.collections c (by rwa [canonicalState, keys_mapValues] at mem)
  stringCollections c mem := changes.stringCollections c (by rwa [canonicalState, keys_mapValues] at mem)

theorem applyConvergentMutations_added {mutations : List ConvergentMutation} (canonical : canonicalState state = state)
    (add : ∀ mutation ∈ mutations, mutation.added.isSome)
    (once : ∀ mutation ∈ mutations, ∀ other ∈ mutations, mutation.added = other.added → mutation = other)
    (ran : applyConvergentMutations state deviceId mutations now = .ok state') :
    ValidState state' ∧ canonicalState state' = state' ∧
      ChangesOnly (fun target => ∃ mutation ∈ mutations, mutation.added = some target) state state' ∧
      ∀ mutation ∈ mutations, mutation.Done state' := by
  obtain ⟨valid, -, next, applied, validNext, rfl⟩ := applyConvergentMutations_eq_ok.mp ran
  obtain ⟨history, represents⟩ := exists_represents valid.canonical
  have well := valid.canonical.shaped.well
  have changes := applyMutations_changesOnly well represents add applied
  rw [canonical] at changes
  exact ⟨validNext.canonical, canonicalState_idem validNext, changes.canonical canonical,
    fun mutation mem => (applyMutations_added well represents add once applied mutation mem).canonical⟩

end Batch

end Netcatty
