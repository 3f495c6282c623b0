import Netcatty.SyncAdditions

/-!
A merge that preserves deletions is a union.

Whatever the base and the records of deletions say, every id and every string that a side has is
merged, and no other.  What a side leaves out counts as it is in the base.
-/

namespace Netcatty.SyncMerge

open List

section Loop

variable {T : Type} {ops : EntityOps T}

/-- A turn of the loop keeps an entity exactly where a side has one. -/
def Spares (merge : JsString → Option T → Option T → Option T → EntityOutcome T) : Prop :=
  ∀ id base local_ remote, (merge id base local_ remote).kept.isSome = (local_.isSome || remote.isSome)

theorem mem_merged_union {merge : JsString → Option T → Option T → Option T → EntityOutcome T}
    (keeps : KeepsId ops merge) (spares : Spares merge) {base local_ remote : List T} {id : JsString} :
    id ∈ (mergeById ops merge base local_ remote).merged.map ops.id ↔
      id ∈ local_.map ops.id ∨ id ∈ remote.map ops.id := by
  have sides : ((byId ops local_).get? id).isSome || ((byId ops remote).get? id).isSome ↔
      id ∈ local_.map ops.id ∨ id ∈ remote.map ops.id := by
    rw [isSome_get?_byId, isSome_get?_byId, Bool.or_eq_true, contains_iff_mem, contains_iff_mem]
  constructor
  · intro mem
    unfold mergeById at mem
    simp only [List.mem_map, mem_filterMap] at mem
    obtain ⟨item, ⟨outcome, ⟨other, _, rfl⟩, kept⟩, same⟩ := mem
    rw [← sides, ← same, keeps.own kept, ← spares other ((byId ops base).get? other), kept]
    rfl
  · intro mem
    rw [mem_mergeById keeps mem, spares]
    exact sides.mpr mem

theorem mergeEntity_spares (options : EntityMergeOptions) (preserved : options.preserveDeletions)
    (tombstones : Tombstones) : Spares (mergeEntity ops options tombstones) := by
  intro id base local_ remote
  rcases base with _ | baseItem <;> rcases local_ with _ | localItem <;>
    rcases remote with _ | remoteItem
  · rfl
  · simp [mergeEntity, addition_kept, preserved]
  · simp [mergeEntity, addition_kept, preserved]
  · rfl
  · rfl
  · simp only [mergeEntity, deletion, preserved]
    split <;> rfl
  · simp only [mergeEntity, deletion, preserved]
    split <;> rfl
  · simp only [mergeEntity]
    split
    · rfl
    · rfl
    · rfl
    · split <;> rfl

theorem mergeAiSession_spares (tools : MergeTools) (options : EntityMergeOptions)
    (preserved : options.preserveDeletions) (tombstones : Tombstones) :
    Spares (mergeAiSession tools options tombstones) := by
  intro id base local_ remote
  rcases base with _ | baseItem <;> rcases local_ with _ | localItem <;>
    rcases remote with _ | remoteItem <;>
    simp [mergeAiSession, sessionDeletion, addition_kept, preserved]

end Loop

theorem mem_strings_union {base local_ remote : List JsString} {tombstones : Tombstones}
    {options : EntityMergeOptions} (preserved : options.preserveDeletions) {value : JsString} :
    value ∈ mergeStringArrays base local_ remote tombstones options ↔ value ∈ local_ ∨ value ∈ remote := by
  have decided : keepsString base local_ remote tombstones options value =
      (local_.contains value || remote.contains value) := by
    unfold keepsString
    rw [preserved]
    cases base.contains value <;> cases local_.contains value <;> cases remote.contains value <;> rfl
  unfold mergeStringArrays
  rw [mem_filter, decided, Bool.or_eq_true, contains_iff_mem, contains_iff_mem]
  simp only [mem_eraseDups, mem_append]
  exact ⟨And.right, fun mem => ⟨mem.elim (fun held => .inl (.inr held)) .inr, mem⟩⟩

def SyncPayload.withOmitted (payload base : SyncPayload) : SyncPayload :=
  { payload with
    identities := payload.identities <|> base.identities
    proxyProfiles := payload.proxyProfiles <|> base.proxyProfiles
    snippetPackages := payload.snippetPackages <|> base.snippetPackages
    notes := payload.notes <|> base.notes
    noteGroups := payload.noteGroups <|> base.noteGroups
    portForwardingRules := payload.portForwardingRules <|> base.portForwardingRules
    browserBookmarks := payload.browserBookmarks <|> base.browserBookmarks
    groupConfigs := payload.groupConfigs <|> base.groupConfigs
    monitorPanels := payload.monitorPanels <|> base.monitorPanels
    aiSessions := payload.aiSessions <|> base.aiSessions }

theorem entityArray_eq {T : Type} (collection base : Option (List T)) :
    entityArray collection (base.getD []) = (collection <|> base).getD [] := by
  cases collection <;> rfl

/-- With deletions preserved, the ids and strings of every collection are those of the two sides. -/
theorem merge_preserving_union (tools : MergeTools) (now : ℚ) (base : Option SyncPayload)
    (local_ remote : SyncPayload) (key : CloudSyncPayloadEntityKey) (id : JsString) :
    id ∈ (mergeSyncPayloads tools now base local_ remote ⟨true⟩).payload.entityIds key ↔
      id ∈ (local_.withOmitted (base.getD emptyBase)).entityIds key ∨
        id ∈ (remote.withOmitted (base.getD emptyBase)).entityIds key := by
  have plain : ∀ {base local_ remote : List SyncEntity} (tombstones : Tombstones) (mergeFields deleteWins : Bool),
      id ∈ (mergeEntityArrays entityOps base local_ remote tombstones ⟨true, mergeFields, deleteWins⟩).merged.map
        entityOps.id ↔ id ∈ local_.map entityOps.id ∨ id ∈ remote.map entityOps.id :=
    fun tombstones mergeFields deleteWins =>
      mem_merged_union (mergeEntity_keepsId _ _ _) (mergeEntity_spares _ rfl tombstones)
  have optional : ∀ {all : List SyncEntity} {base local_ remote : Option (List SyncEntity)} (tombstones : Tombstones)
      (mergeFields deleteWins : Bool),
      id ∈ (mergeEntityArrays entityOps all (entityArray local_ (base.getD [])) (entityArray remote (base.getD []))
        tombstones ⟨true, mergeFields, deleteWins⟩).merged.map entityOps.id ↔
        id ∈ ((local_ <|> base).getD []).map entityOps.id ∨ id ∈ ((remote <|> base).getD []).map entityOps.id := by
    intro all base local_ remote tombstones mergeFields deleteWins
    rw [← entityArray_eq, ← entityArray_eq]
    exact plain tombstones mergeFields deleteWins
  have strings : ∀ {all : List JsString} {base local_ remote : Option (List JsString)} {tombstones : Tombstones},
      id ∈ mergeStringArrays all (entityArray local_ (base.getD [])) (entityArray remote (base.getD [])) tombstones
        ⟨true, false, false⟩ ↔ id ∈ (local_ <|> base).getD [] ∨ id ∈ (remote <|> base).getD [] := by
    intro all base local_ remote tombstones
    rw [← entityArray_eq, ← entityArray_eq]
    exact mem_strings_union rfl
  have sessions : ∀ {base local_ remote : List SyncEntity} (tombstones : Tombstones),
      id ∈ (mergeAiSessionArrays tools base local_ remote tombstones ⟨true, false, false⟩).merged.map
        entityOps.id ↔ id ∈ local_.map entityOps.id ∨ id ∈ remote.map entityOps.id :=
    fun tombstones => mem_merged_union (mergeAiSession_keepsId _ _ _) (mergeAiSession_spares tools _ rfl tombstones)
  unfold mergeSyncPayloads
  dsimp only
  rw [entityIds_carryForward]
  cases key with
  | hosts =>
    refine (plain _ _ _).trans ?_
    rw [show entityOps.id = SyncEntity.id from rfl, map_id_sanitize, map_id_sanitize]
    rfl
  | keys => exact plain _ _ _
  | identities => exact optional _ _ _
  | proxyProfiles => exact optional _ _ _
  | snippets => exact plain _ _ _
  | customGroups => exact mem_strings_union rfl
  | snippetPackages => exact strings
  | notes => exact optional _ _ _
  | noteGroups => exact strings
  | portForwardingRules => exact optional _ _ _
  | browserBookmarks => exact optional _ _ _
  | groupConfigs =>
    change id ∈ (List.map unwrapGC _).map GroupConfig.path ↔ _
    rw [map_path_unwrapGC]
    refine (plain _ _ _).trans ?_
    rw [show entityOps.id = SyncEntity.id from rfl, map_id_wrapGC, map_id_wrapGC, entityArray_eq, entityArray_eq]
    rfl
  | monitorPanels => exact optional _ _ _
  | aiSessions =>
    change id ∈ ((if _ then some _ else none : Option (List SyncEntity)).getD []).map entityOps.id ↔
      id ∈ ((local_.aiSessions <|> (base.getD emptyBase).aiSessions).getD []).map entityOps.id ∨
        id ∈ ((remote.aiSessions <|> (base.getD emptyBase).aiSessions).getD []).map entityOps.id
    split
    · refine (sessions _).trans ?_
      rw [entityArray_eq, entityArray_eq]
    · rename_i absent
      -- no side speaks of sessions, and none are merged
      simp only [Bool.or_eq_true, not_or, Option.not_isSome_iff_eq_none] at absent
      obtain ⟨⟨atBase, atLocal⟩, atRemote⟩ := absent
      have none_ : ((base.getD emptyBase).aiSessions).getD [] = [] := by
        cases base with
        | none => rfl
        | some base => simpa using congrArg (·.getD []) atBase
      rw [atLocal, atRemote]
      simp [none_]

/-- Each device made a group, and both have records of the deletion of both groups. -/
example :
    let deletions : List SyncDeletionRecord :=
      [⟨.customGroups, text "a", 1, none⟩, ⟨.customGroups, text "b", 1, none⟩]
    (mergeSyncPayloads sampleTools 2 none { emptyPayload with customGroups := [text "a"], deletions := deletions }
      { emptyPayload with customGroups := [text "b"], deletions := deletions } ⟨true⟩).payload.customGroups =
        [text "a", text "b"] := by
  decide +kernel

end Netcatty.SyncMerge
