import Netcatty.LegacyDiffs

/-!
The strategy that keeps all loses no survivor.

The replica's payload retains the sources, which only adds to it, and the batch of the difference
only adds to the replica.  Configurations of groups are known by their paths; where one is stored
under another id, the id and the path may name two groups.
-/

namespace Netcatty.SyncMerge.Legacy

open List Option OrderedMap

def FiledByPath (state : ConvergentSyncState) : Prop :=
  ∀ id entity, findEntity state CloudSyncPayloadEntityKey.groupConfigs.name id = some entity →
    registerIsPresent (some entity.presence) = true →
      getOwnRecordValue (Netcatty.entityValue (id, entity)) (text "path") = some (.str id)

/-- The kept payload has what the first one and the sources have, and every entity of the first one as it was. -/
structure KeepsSurvivors (payload : SyncPayload) (sources : List SyncPayload) (kept : SyncPayload) : Prop where
  entities : ∀ collection ∈ CONVERGENT_ENTITY_COLLECTIONS, ∀ id ≠ [],
    (id ∈ payload.entityIds collection ∨ ∃ source ∈ sources, id ∈ source.entityIds collection) →
      id ∈ kept.entityIds collection
  strings : ∀ collection ∈ CONVERGENT_STRING_COLLECTIONS, ∀ value,
    (value ∈ payload.entityIds collection ∨ ∃ source ∈ sources, value ∈ source.entityIds collection) →
      value ∈ kept.entityIds collection
  fields : ∀ collection ∈ CONVERGENT_ENTITY_COLLECTIONS, ∀ value ∈ (payload.records collection).getD [],
    value ∈ (kept.records collection).getD []

def NothingMissing (payload : SyncPayload) (sources : List SyncPayload) : Prop :=
  ∀ source ∈ sources,
    (∀ collection ∈ CONVERGENT_ENTITY_COLLECTIONS, ∀ id ∈ source.entityIds collection, id ≠ [] →
      id ∈ payload.entityIds collection) ∧
    ∀ collection ∈ CONVERGENT_STRING_COLLECTIONS, ∀ value ∈ source.entityIds collection,
      value ∈ payload.entityIds collection

/-! ## What a replica shows -/

section Replica

variable {state state' : ConvergentSyncState} {result result' : MaterializedConvergentSyncState}

/-- The snapshots of replicas with the same settings show the same settings. -/
theorem settings_materialize (same : state'.settings = state.settings)
    (made : materializeConvergentSyncState state = .ok result)
    (made' : materializeConvergentSyncState state' = .ok result') : result'.settings = result.settings := by
  have settingsOf : ∀ {state result}, materializeConvergentSyncState state = .ok result →
      ∃ conflicts, materializeSettings state = .ok (result.settings, conflicts) := by
    intro state result made
    unfold materializeConvergentSyncState at made
    obtain ⟨-, made⟩ := check_bind_eq_ok.mp made
    obtain ⟨read, settings, made⟩ := bind_eq_ok.mp made
    cases made
    exact ⟨read.2, settings⟩
  obtain ⟨conflicts, first⟩ := settingsOf made
  obtain ⟨conflicts', second⟩ := settingsOf made'
  have equal : materializeSettings state' = materializeSettings state := by
    unfold materializeSettings
    rw [same]
  rw [first, second] at equal
  exact (Prod.mk.inj (Except.ok.inj equal)).1

theorem id_ne_nil (valid : ValidState state) {c id : JsString} {entity : ConvergentEntityState}
    (found : findEntity state c id = some entity) : id ≠ [] :=
  (valid.shaped.well.addresses (.entityPresence c id) entity.presence (by simp [registerAt, found])).1.2

theorem readId_entityValue (valid : ValidState state) (filed : FiledByPath state)
    {collection : CloudSyncPayloadEntityKey} {id : JsString} {entity : ConvergentEntityState}
    (found : findEntity state collection.name id = some entity)
    (present : registerIsPresent (some entity.presence)) :
    readId collection (Netcatty.entityValue (id, entity)) = some id := by
  unfold readId
  by_cases group : collection = .groupConfigs
  · subst group
    rw [if_pos rfl, readGroupConfig, filed id entity found present]
    rfl
  · rw [if_neg group, readEntity, getOwnRecordValue_entityValue, noStructuralId valid found, if_pos rfl]
    rfl

theorem mem_entityIds (valid : ValidState state) (filed : FiledByPath state) (snapshot : IsSnapshot state result)
    {collection : CloudSyncPayloadEntityKey} (known : collection ∈ CONVERGENT_ENTITY_COLLECTIONS) {syncedAt : ℚ}
    {id : JsString} : id ∈ (payloadOf result syncedAt).entityIds collection ↔
      ∃ entity, findEntity state collection.name id = some entity ∧
        registerIsPresent (some entity.presence) := by
  rw [entityIds_payloadOf known, mem_filterMap]
  constructor
  · rintro ⟨value, mem, read⟩
    obtain ⟨other, entity, found, present, rfl⟩ := (mem_collectionValues snapshot).mp mem
    rw [readId_entityValue valid filed found present] at read
    cases read
    exact ⟨entity, found, present⟩
  · rintro ⟨entity, found, present⟩
    exact ⟨_, (mem_collectionValues snapshot).mpr ⟨id, entity, found, present, rfl⟩,
      readId_entityValue valid filed found present⟩

theorem readId_upserted {collection : CloudSyncPayloadEntityKey} {id : JsString} {next value : JsonObject}
    (own : entityId collection next = some id) (structural : getOwnRecordValue value (text "id") = some (.str id))
    (fields : ∀ field, field ≠ text "id" → getOwnRecordValue value field =
      (getOwnRecordValue (normalizedEntityValue id next) field).map canonicalizeJson) :
    readId collection value = some id := by
  unfold readId
  by_cases group : collection = .groupConfigs
  · subst group
    have path : getOwnRecordValue next (text "path") = some (.str id) := by
      unfold entityId at own
      rw [if_pos rfl] at own
      split at own
      · rename_i read
        cases own
        exact read
      · cases own
    have other : text "path" ≠ text "id" := by decide
    rw [if_pos rfl, readGroupConfig, fields _ other, normalizedEntityValue, getOwnRecordValue_setOwnRecordValue,
      if_neg other, path]
    rfl
  · rw [if_neg group, readEntity, structural]
    rfl

theorem entityId_of_get? {payload : SyncPayload} {collection : CloudSyncPayloadEntityKey}
    (known : collection ∈ CONVERGENT_ENTITY_COLLECTIONS) {id : JsString} {value : JsonObject}
    (found : (entityMap (withHostsSanitizedForSync payload) collection).get? id = some value) :
    entityId collection value = some id := by
  rw [(entityMap_spec known).2] at found
  split at found
  · cases found
  · rename_i named
    obtain ⟨entity, held, rfl⟩ := map_eq_some_iff.mp found
    have own : entity.id = id := id_of_get?_byId entityOps held
    rw [entityId_recordOf (mem_of_get?_byId held), own, if_neg named]

end Replica

/-! ## The batch -/

section Batch

variable {baseline retained : SyncPayload} {sources : List SyncPayload} (kept : Retained baseline sources retained)
include kept

theorem added_diffCollections {mutation : ConvergentMutation} (mem : mutation ∈ diffCollections baseline retained) :
    (∃ collection ∈ CONVERGENT_ENTITY_COLLECTIONS, ∃ id,
      (entityMap (withHostsSanitizedForSync baseline) collection).has id = false ∧
        mutation.added = some (.entityPresence collection.name id)) ∨
      ∃ collection ∈ CONVERGENT_STRING_COLLECTIONS, ∃ value,
        value ∉ stringSet baseline collection ∧
          mutation.added = some (.stringEntryPresence collection.name value) := by
  rcases (mem_diffCollections kept).mp mem with
    ⟨collection, known, id, next, absent, found, rfl⟩ | ⟨collection, known, value, absent, held, rfl⟩
  · obtain ⟨place, at_⟩ := position_some (OrderedMap.mem_keys.mpr (has_iff.mpr ⟨next, found⟩))
    rw [at_]
    exact .inl ⟨collection, known, id, absent, rfl⟩
  · obtain ⟨place, at_⟩ := position_some held
    rw [at_]
    exact .inr ⟨collection, known, value, absent, rfl⟩

theorem diffCollections_once : ∀ mutation ∈ diffCollections baseline retained,
    ∀ other ∈ diffCollections baseline retained, mutation.added = other.added → mutation = other := by
  intro mutation mem other mem' same
  rcases (mem_diffCollections kept).mp mem with
    ⟨collection, known, id, next, -, found, rfl⟩ | ⟨collection, known, value, -, held, rfl⟩
  · obtain ⟨place, at_⟩ := position_some (OrderedMap.mem_keys.mpr (has_iff.mpr ⟨next, found⟩))
    rcases (mem_diffCollections kept).mp mem' with
      ⟨collection', known', id', next', -, found', rfl⟩ | ⟨collection', known', value', -, held', rfl⟩
    · obtain ⟨place', at_'⟩ := position_some (OrderedMap.mem_keys.mpr (has_iff.mpr ⟨next', found'⟩))
      rw [at_, at_'] at same
      simp only [ConvergentMutation.added, Option.some.injEq, RegisterAddress.entityPresence.injEq] at same
      obtain ⟨sameName, rfl⟩ := same
      obtain rfl := name_injective sameName
      rw [found] at found'
      cases found'
      rfl
    · obtain ⟨place', at_'⟩ := position_some held'
      rw [at_, at_'] at same
      cases same
  · obtain ⟨place, at_⟩ := position_some held
    rcases (mem_diffCollections kept).mp mem' with
      ⟨collection', known', id', next', -, found', rfl⟩ | ⟨collection', known', value', -, held', rfl⟩
    · obtain ⟨place', at_'⟩ := position_some (OrderedMap.mem_keys.mpr (has_iff.mpr ⟨next', found'⟩))
      rw [at_, at_'] at same
      cases same
    · obtain ⟨place', at_'⟩ := position_some held'
      rw [at_, at_'] at same
      simp only [ConvergentMutation.added, Option.some.injEq, RegisterAddress.stringEntryPresence.injEq] at same
      obtain ⟨sameName, rfl⟩ := same
      obtain rfl := name_injective sameName
      rfl

theorem diffCollections_nothing (nothing : NothingMissing baseline sources) : diffCollections baseline retained = [] := by
  refine eq_nil_iff_forall_not_mem.mpr fun mutation mem => ?_
  rcases (mem_diffCollections kept).mp mem with
    ⟨collection, known, id, next, absent, found, -⟩ | ⟨collection, known, value, absent, held, -⟩
  · obtain ⟨named, inRetained⟩ := (has_entityMap known).mp (has_iff.mpr ⟨next, found⟩)
    have inBaseline : id ∈ baseline.entityIds collection := by
      rcases (kept.ids collection id).mp inRetained with here | ⟨source, inSources, there⟩
      · exact here
      · exact (nothing source inSources).1 collection known id there named
    rw [(has_entityMap known).mpr ⟨named, inBaseline⟩] at absent
    cases absent
  · rw [mem_stringSet known] at absent held
    rcases (kept.ids collection value).mp held with here | ⟨source, inSources, there⟩
    · exact absent here
    · exact absent ((nothing source inSources).2 collection known value there)

end Batch

/-! ## The replica afterwards -/

section After

variable {state state' : ConvergentSyncState} {result result' : MaterializedConvergentSyncState} {now : ℚ}
  {sources : List SyncPayload} {retained : SyncPayload}

theorem knowsAll_payloadOf (result : MaterializedConvergentSyncState) (now : ℚ) :
    KnowsAll (payloadOf result now).toSyncPayload := by
  refine ⟨fun collection known => ?_, fun collection known => ?_⟩
  · rw [records_payloadOf known]
    rfl
  · cases collection with
    | customGroups | snippetPackages | noteGroups => rfl
    | _ => exact absurd known (by decide)

/-- The presence registers of what the batch adds. -/
def Missing (baseline retained : SyncPayload) (target : RegisterAddress) : Prop :=
  ∃ mutation ∈ diffCollections baseline retained, mutation.added = some target

theorem entity_untouched (valid : ValidState state) (filed : FiledByPath state) (snapshot : IsSnapshot state result)
    (kept : Retained (payloadOf result now).toSyncPayload sources retained)
    (changes : ChangesOnly (Missing (payloadOf result now).toSyncPayload retained) state state')
    {collection : CloudSyncPayloadEntityKey} (known : collection ∈ CONVERGENT_ENTITY_COLLECTIONS) {id : JsString}
    {entity : ConvergentEntityState} (found : findEntity state collection.name id = some entity)
    (present : registerIsPresent (some entity.presence)) :
    findEntity state' collection.name id = some entity := by
  rw [changes.entities, found]
  rintro ⟨mutation, mem, adds⟩
  rcases added_diffCollections kept mem with ⟨other, -, id', absent, adds'⟩ | ⟨other, -, value, -, adds'⟩
  · rw [adds, Option.some.injEq, RegisterAddress.entityPresence.injEq] at adds'
    obtain ⟨sameName, rfl⟩ := adds'
    obtain rfl := name_injective sameName
    have shown := (@mem_entityIds _ _ valid filed snapshot _ known now _).mpr ⟨entity, found, present⟩
    rw [(has_entityMap known).mpr ⟨id_ne_nil valid found, shown⟩] at absent
    cases absent
  · rw [adds] at adds'
    cases adds'

theorem string_untouched (snapshot : IsSnapshot state result)
    (kept : Retained (payloadOf result now).toSyncPayload sources retained)
    (changes : ChangesOnly (Missing (payloadOf result now).toSyncPayload retained) state state')
    {collection : CloudSyncPayloadEntityKey} (known : collection ∈ CONVERGENT_STRING_COLLECTIONS) {value : JsString}
    {entry : ConvergentStringEntryState} (found : findStringEntry state collection.name value = some entry)
    (present : registerIsPresent (some entry.presence)) :
    findStringEntry state' collection.name value = some entry := by
  rw [changes.entries, found]
  rintro ⟨mutation, mem, adds⟩
  rcases added_diffCollections kept mem with ⟨other, -, id, -, adds'⟩ | ⟨other, -, value', absent, adds'⟩
  · rw [adds] at adds'
    cases adds'
  · rw [adds, Option.some.injEq, RegisterAddress.stringEntryPresence.injEq] at adds'
    obtain ⟨sameName, rfl⟩ := adds'
    obtain rfl := name_injective sameName
    rw [mem_stringSet known, entityIds_strings known, mem_stringValues snapshot] at absent
    exact absent ⟨entry, found, present⟩

theorem upserted_shown (valid : ValidState state') (canonical : canonicalState state' = state')
    (snapshot : IsSnapshot state' result') {collection : CloudSyncPayloadEntityKey}
    (known : collection ∈ CONVERGENT_ENTITY_COLLECTIONS) {id : JsString} {next : JsonObject} {place : CollectionPosition}
    (own : entityId collection next = some id)
    (settled : UpsertSettled state' collection.name id (normalizedEntityValue id next) place) :
    id ∈ (payloadOf result' now).entityIds collection := by
  have shows := settled.shows valid (by rw [canonical]; exact snapshot)
  obtain ⟨stored, -, held, entity, mem, -, -, -, structural, fields⟩ := shows.shown
  rw [entityIds_payloadOf known, mem_filterMap]
  refine ⟨entity.value, ?_, readId_upserted own structural fields⟩
  rw [collectionValues, held]
  exact List.mem_map_of_mem mem

theorem added_shown (snapshot : IsSnapshot state' result') {collection : CloudSyncPayloadEntityKey}
    (known : collection ∈ CONVERGENT_STRING_COLLECTIONS) {value : JsString} {shown : JsonValue}
    (settled : Settled (registerAt state' (.stringEntryPresence collection.name value)) (some shown)) :
    value ∈ (payloadOf result' now).entityIds collection := by
  rw [entityIds_strings known, mem_stringValues snapshot]
  have present := settled.present
  cases found : findStringEntry state' collection.name value with
  | none =>
    rw [registerAt, found] at present
    cases present
  | some entry =>
    rw [registerAt, found] at present
    exact ⟨entry, rfl, present⟩

theorem requireKnownCollections_after (kept : Retained (payloadOf result now).toSyncPayload sources retained)
    (changes : ChangesOnly (Missing (payloadOf result now).toSyncPayload retained) state state')
    (known : requireKnownCollections state = .ok ()) : requireKnownCollections state' = .ok () := by
  obtain ⟨collections, stringCollections⟩ := requireKnownCollections_eq_ok.mp known
  refine requireKnownCollections_eq_ok.mpr ⟨fun c mem => ?_, fun c mem => ?_⟩
  · rcases changes.collections c mem with old | ⟨id, mutation, added, adds⟩
    · exact collections c old
    · rcases added_diffCollections kept added with ⟨collection, here, _, -, adds'⟩ | ⟨_, -, _, -, adds'⟩
      · rw [adds, Option.some.injEq, RegisterAddress.entityPresence.injEq] at adds'
        exact adds'.1 ▸ List.mem_map_of_mem here
      · rw [adds] at adds'
        cases adds'
  · rcases changes.stringCollections c mem with old | ⟨value, mutation, added, adds⟩
    · exact stringCollections c old
    · rcases added_diffCollections kept added with ⟨_, -, _, -, adds'⟩ | ⟨collection, here, _, -, adds'⟩
      · rw [adds] at adds'
        cases adds'
      · rw [adds, Option.some.injEq, RegisterAddress.stringEntryPresence.injEq] at adds'
        exact adds'.1 ▸ List.mem_map_of_mem here

/-- What the batch leaves keeps all survivors. -/
theorem keepsSurvivors (valid : ValidState state) (filed : FiledByPath state) (snapshot : IsSnapshot state result)
    (kept : Retained (payloadOf result now).toSyncPayload sources retained) (valid' : ValidState state')
    (canonical' : canonicalState state' = state') (snapshot' : IsSnapshot state' result')
    (changes : ChangesOnly (Missing (payloadOf result now).toSyncPayload retained) state state')
    (done : ∀ mutation ∈ diffCollections (payloadOf result now).toSyncPayload retained, mutation.Done state') :
    KeepsSurvivors (payloadOf result now).toSyncPayload sources (payloadOf result' now).toSyncPayload := by
  have stays : ∀ collection ∈ CONVERGENT_ENTITY_COLLECTIONS, ∀ value ∈ collectionValues result collection,
      value ∈ collectionValues result' collection := by
    intro collection known value mem
    obtain ⟨id, entity, found, present, rfl⟩ := (mem_collectionValues snapshot).mp mem
    have found' := entity_untouched valid filed snapshot kept changes known found present
    exact (mem_collectionValues snapshot').mpr ⟨id, entity, found', present, rfl⟩
  constructor
  · intro collection known id named held
    have inRetained := (kept.ids collection id).mpr held
    cases visible : (entityMap (withHostsSanitizedForSync (payloadOf result now).toSyncPayload) collection).has id with
    | true =>
      have mem := ((has_entityMap known).mp visible).2
      rw [entityIds_payloadOf known, mem_filterMap] at mem ⊢
      obtain ⟨value, mem, read⟩ := mem
      exact ⟨value, stays collection known value mem, read⟩
    | false =>
      obtain ⟨next, found⟩ := has_iff.mp ((has_entityMap known).mpr ⟨named, inRetained⟩)
      obtain ⟨place, at_⟩ := position_some (OrderedMap.mem_keys.mpr (has_iff.mpr ⟨next, found⟩))
      have settled := done _ ((mem_diffCollections kept).mpr
        (.inl ⟨collection, known, id, next, visible, found, rfl⟩))
      rw [at_] at settled
      exact upserted_shown valid' canonical' snapshot' known (entityId_of_get? known found) settled
  · intro collection known value held
    have inRetained := (mem_stringSet known).mpr ((kept.ids collection value).mpr held)
    by_cases visible : value ∈ stringSet (payloadOf result now).toSyncPayload collection
    · rw [mem_stringSet known, entityIds_strings known, mem_stringValues snapshot] at visible
      obtain ⟨entry, found, present⟩ := visible
      rw [entityIds_strings known, mem_stringValues snapshot']
      exact ⟨entry, string_untouched snapshot kept changes known found present, present⟩
    · obtain ⟨place, at_⟩ := position_some inRetained
      have settled := done _ ((mem_diffCollections kept).mpr (.inr ⟨collection, known, value, visible, inRetained, rfl⟩))
      rw [at_] at settled
      obtain ⟨shown, settled⟩ := settled
      exact added_shown snapshot' known settled
  · intro collection known value mem
    rw [records_payloadOf known, getD_some, mem_filterMap] at mem ⊢
    obtain ⟨source, mem, read⟩ := mem
    exact ⟨source, stays collection known source mem, read⟩

end After

/-! ## The strategy -/

theorem canonical_of_mutations {start state : ConvergentSyncState} {deviceId : JsString} {now : JsNumber}
    {mutations : List ConvergentMutation} (made : applyConvergentMutations start deviceId mutations now = .ok state) :
    canonicalizeConvergentSyncState state = .ok state := by
  obtain ⟨-, -, next, -, valid, rfl⟩ := applyConvergentMutations_eq_ok.mp made
  exact canonicalizeConvergentSyncState_eq_ok.mpr ⟨valid.canonical, (canonicalState_idem valid).symm⟩

/-- **Keeping all loses no survivor.**  From a joined replica whose group configurations are stored under
their paths, every id and every string that the replica or a source shows is shown, what the replica showed
and the settings are as they were, and nothing is written where nothing was missing. -/
theorem preserveSurvivingState_keeps {tools : MergeTools} {clock now : ℚ} {state state' : ConvergentSyncState}
    {sources : List SyncPayload} {deviceId : JsString}
    (joined : canonicalizeConvergentSyncState state = .ok state) (filed : FiledByPath state)
    (ran : preserveSurvivingState tools clock state sources deviceId now = .ok state') :
    ∃ before after, materializeSyncPayloadFromConvergentState state now = .ok before ∧
      materializeSyncPayloadFromConvergentState state' now = .ok after ∧
      KeepsSurvivors before.toSyncPayload sources after.toSyncPayload ∧ after.settings = before.settings ∧
      (NothingMissing before.toSyncPayload sources → state' = state) := by
  obtain ⟨valid, canonical⟩ := canonicalizeConvergentSyncState_eq_ok.mp joined
  unfold preserveSurvivingState at ran
  obtain ⟨baseline, made, ran⟩ := bind_eq_ok.mp ran
  obtain ⟨known, result, snap, rfl⟩ := materializeSyncPayload_eq_ok.mp made
  have snapshot := isSnapshot_of_ok valid snap
  have kept := retained_foldl tools clock (onePaths_payloadOf result now) (knowsAll_payloadOf result now) sources
  dsimp only at ran
  generalize sources.foldl (retain tools clock) (payloadOf result now).toSyncPayload = retained at kept ran
  -- The settings do not differ, so the batch is the difference of the collections.
  have batch : applyConvergentMutations state deviceId
      (diffCollections (payloadOf result now).toSyncPayload retained) (.finite now) = .ok state' := by
    unfold applyLegacySyncPayload diffLegacySyncPayload at ran
    obtain ⟨mutations, diff, ran⟩ := bind_eq_ok.mp ran
    obtain ⟨changes, settings, diff⟩ := bind_eq_ok.mp diff
    have none_ : changes = [] := by
      unfold diffKnownSettings at settings
      split at settings
      · exact diffSettings_self settings
      · cases settings
        rfl
    cases diff
    rw [none_, append_nil] at ran
    exact ran
  have add : ∀ mutation ∈ diffCollections (payloadOf result now).toSyncPayload retained, mutation.added.isSome := by
    intro mutation mem
    rcases added_diffCollections kept mem with ⟨_, -, _, -, adds⟩ | ⟨_, -, _, -, adds⟩
    · rw [adds]
      rfl
    · rw [adds]
      rfl
  obtain ⟨valid', canonical', changes, done⟩ :=
    applyConvergentMutations_added canonical.symm add (diffCollections_once kept) batch
  obtain ⟨result', snap', snapshot'⟩ := materializeConvergentSyncState_eq_ok valid'
  refine ⟨_, payloadOf result' now, made, materializeSyncPayload_eq_ok.mpr
    ⟨requireKnownCollections_after kept changes known, result', snap', rfl⟩,
    keepsSurvivors valid filed snapshot kept valid' canonical' snapshot' changes done, ?_, fun nothing => ?_⟩
  · unfold payloadOf
    dsimp only
    rw [settings_materialize changes.settings snap snap']
  · rw [diffCollections_nothing kept nothing] at batch
    obtain ⟨-, -, next, applied, -, rfl⟩ := applyConvergentMutations_eq_ok.mp batch
    cases applied
    rw [← canonical, ← canonical]

/-- The replica of a device that has deleted the second of two hosts. -/
def oneHostDeleted : Checked ConvergentSyncState :=
  applyConvergentMutations createConvergentSyncState (text "a")
    [.entityUpsert (text "hosts") (text "h1") [(text "label", .str (text "web"))] (some (.number 0)),
      .entityUpsert (text "hosts") (text "h2") [(text "label", .str (text "db"))] (some (.number 1)),
      .entityDelete (text "hosts") (text "h2")] (.finite 1)

def hostAndGroup : SyncPayload :=
  { emptyPayload with
    hosts := [⟨text "h2", [(text "label", .str (text "db"))]⟩]
    customGroups := [text "work"] }

theorem preserveSurvivingState_keeps_deletedHost :
    ∃ state state' after, oneHostDeleted = .ok state ∧
      preserveSurvivingState sampleTools 2 state [hostAndGroup] (text "b") 2 = .ok state' ∧
      materializeSyncPayloadFromConvergentState state' 2 = .ok after ∧
      text "h2" ∈ after.entityIds .hosts ∧ text "work" ∈ after.entityIds .customGroups := by
  have returns : ((do
      let state ← oneHostDeleted
      let _ ← preserveSurvivingState sampleTools 2 state [hostAndGroup] (text "b") 2
      return (state.collections.get? CloudSyncPayloadEntityKey.groupConfigs.name).isNone) :
        Checked Bool).toOption = some true := by
    decide +kernel
  cases made : oneHostDeleted with
  | error error =>
    rw [made] at returns
    cases returns
  | ok state =>
    rw [made, ok_bind] at returns
    cases ran : preserveSurvivingState sampleTools 2 state [hostAndGroup] (text "b") 2 with
    | error error =>
      rw [ran] at returns
      cases returns
    | ok state' =>
      rw [ran, ok_bind] at returns
      have noConfigs := isNone_iff_eq_none.mp (Option.some.inj returns)
      have filed : FiledByPath state := by
        intro id entity found
        rw [findEntity, noConfigs] at found
        cases found
      obtain ⟨before, after, -, shown, keeps, -⟩ :=
        preserveSurvivingState_keeps (canonical_of_mutations made) filed ran
      refine ⟨state, state', after, rfl, ran, shown, ?_, ?_⟩
      · exact keeps.entities .hosts (by decide) (text "h2") (by decide)
          (.inr ⟨hostAndGroup, mem_singleton_self _, by decide⟩)
      · exact keeps.strings .customGroups (by decide) (text "work")
          (.inr ⟨hostAndGroup, mem_singleton_self _, by decide⟩)

def misfiled : Checked ConvergentSyncState :=
  applyConvergentMutations createConvergentSyncState (text "a")
    [.entityUpsert (text "groupConfigs") (text "p") [(text "path", .str (text "q"))] (some (.number 0))] (.finite 1)

/-- It is overwritten when a source has a configuration of the other group. -/
theorem not_keepsAll_misfiled :
    ∃ state state' before after, canonicalizeConvergentSyncState state = .ok state ∧
      preserveSurvivingState sampleTools 2 state [{ emptyPayload with groupConfigs := some [⟨text "p", []⟩] }]
        (text "b") 2 = .ok state' ∧
      materializeSyncPayloadFromConvergentState state 2 = .ok before ∧
      materializeSyncPayloadFromConvergentState state' 2 = .ok after ∧
      text "q" ∈ before.entityIds .groupConfigs ∧ text "q" ∉ after.entityIds .groupConfigs := by
  have ids : ((do
      let state ← misfiled
      let state' ← preserveSurvivingState sampleTools 2 state
        [{ emptyPayload with groupConfigs := some [⟨text "p", []⟩] }] (text "b") 2
      let before ← materializeSyncPayloadFromConvergentState state 2
      let after ← materializeSyncPayloadFromConvergentState state' 2
      return (before.entityIds .groupConfigs, after.entityIds .groupConfigs)) :
        Checked (List JsString × List JsString)).toOption = some ([text "q"], [text "p"]) := by
    decide +kernel
  cases made : misfiled with
  | error error =>
    rw [made] at ids
    cases ids
  | ok state =>
    rw [made, ok_bind] at ids
    cases ran : preserveSurvivingState sampleTools 2 state
        [{ emptyPayload with groupConfigs := some [⟨text "p", []⟩] }] (text "b") 2 with
    | error error =>
      rw [ran] at ids
      cases ids
    | ok state' =>
      rw [ran, ok_bind] at ids
      cases first : materializeSyncPayloadFromConvergentState state 2 with
      | error error =>
        rw [first] at ids
        cases ids
      | ok before =>
        rw [first, ok_bind] at ids
        cases second : materializeSyncPayloadFromConvergentState state' 2 with
        | error error =>
          rw [second] at ids
          cases ids
        | ok after =>
          rw [second, ok_bind] at ids
          obtain ⟨inBefore, inAfter⟩ := Prod.mk.inj (Option.some.inj ids)
          refine ⟨state, state', before, after, canonical_of_mutations made, ran, first, second, ?_, ?_⟩
          · rw [inBefore]
            exact mem_singleton_self _
          · rw [inAfter]
            decide

end Netcatty.SyncMerge.Legacy
