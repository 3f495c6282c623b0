import Mathlib.Data.List.Nodup
import Mathlib.Data.List.Perm.Basic
import Netcatty.Workspace

/-!
What the layout operations do to the sessions of a workspace.

Each operation is described by the list of session ids it leaves, from left to right; that
no session is lost or doubled follows for every tree the operations can reach.
-/

namespace Netcatty.Workspace

open WorkspaceNode Function

inductive Laid : WorkspaceNode → Prop where
  | pane (sessionId : JsString) : Laid (.pane sessionId)
  | split {direction : SplitDirection} {children : List WorkspaceNode} {sizes : Option (List ℚ)}
      (several : 2 ≤ children.length) (sized : ∀ list ∈ sizes, list.length = children.length)
      (below : ∀ child ∈ children, Laid child) : Laid (.split direction children sizes)

/-! ## Children -/

theorem collectFromChildren_eq (children : List WorkspaceNode) :
    collectFromChildren children = children.flatMap collectSessionIds := by
  induction children with
  | nil => rfl
  | cons child children ih => rw [collectFromChildren, ih, List.flatMap_cons]

theorem pruneChildren_eq (target : JsString) (children : List WorkspaceNode) :
    pruneChildren target children = children.map (pruneWorkspaceNode target) := by
  induction children with
  | nil => rfl
  | cons child children ih => rw [pruneChildren, ih, List.map_cons]

theorem insertPaneIntoChildren_eq (newPane : WorkspaceNode) (hint : SplitHint) (target : JsString)
    (children : List WorkspaceNode) :
    insertPaneIntoChildren newPane hint target children =
      children.map (insertPane newPane hint target) := by
  induction children with
  | nil => rfl
  | cons child children ih => rw [insertPaneIntoChildren, ih, List.map_cons]

theorem cloneChildren_eq (sessionIdMap : JsString → Option JsString)
    (children : List WorkspaceNode) :
    cloneChildren sessionIdMap children = children.map (cloneWorkspaceTree sessionIdMap) := by
  induction children with
  | nil => rfl
  | cons child children ih => rw [cloneChildren, ih, List.map_cons]

variable (direction : SplitDirection)

theorem collect_split (children : List WorkspaceNode) (sizes : Option (List ℚ)) :
    collectSessionIds (split direction children sizes) = children.flatMap collectSessionIds := by
  rw [collectSessionIds, collectFromChildren_eq]

/-! ## Pruning -/

theorem length_sizeList (count : ℕ) (sizes : Option (List ℚ)) :
    (sizeList count sizes).length = count := by
  unfold sizeList
  split
  · split
    · assumption
    · exact List.length_replicate
  · exact List.length_replicate

theorem map_fst_kept {α β : Type} (pruned : List (Option α)) (list : List β)
    (same : list.length = pruned.length) :
    ((pruned.zip list).filterMap fun entry => entry.1.map fun child => (child, entry.2)).map (·.1) =
      pruned.filterMap id := by
  induction pruned generalizing list with
  | nil => rfl
  | cons first pruned ih =>
    cases list with
    | nil => simp at same
    | cons size list =>
      have later := ih list (by simpa using same)
      cases first with
      | none => simpa using later
      | some child => simpa using later

section

variable (sizes : Option (List ℚ)) (pruned : List (Option WorkspaceNode))

/-- A split goes, is replaced by its last child, or keeps the children that are left. -/
theorem rebuildSplit_cases :
    (pruned.filterMap id = [] ∧ rebuildSplit direction sizes pruned = none) ∨
    (∃ child, pruned.filterMap id = [child] ∧
      rebuildSplit direction sizes pruned = some child) ∨
    (2 ≤ (pruned.filterMap id).length ∧ ∃ list : List ℚ,
      list.length = (pruned.filterMap id).length ∧
      rebuildSplit direction sizes pruned =
        some (split direction (pruned.filterMap id) (some list))) := by
  have kept := map_fst_kept pruned (sizeList pruned.length sizes) (length_sizeList _ _)
  unfold rebuildSplit
  generalize (pruned.zip (sizeList pruned.length sizes)).filterMap
    (fun entry => entry.1.map fun child => (child, entry.2)) = next at kept ⊢
  rw [← kept]
  rcases next with _ | ⟨first, _ | ⟨second, next⟩⟩
  · exact .inl ⟨rfl, rfl⟩
  · exact .inr (.inl ⟨first.1, rfl, rfl⟩)
  · refine .inr (.inr ⟨by simp, ?_⟩)
    by_cases removed : pruned.any Option.isNone = true
    · refine ⟨_, ?_, if_pos removed⟩
      rw [List.length_map]
    · refine ⟨_, ?_, if_neg removed⟩
      rw [List.length_map, List.length_map, List.length_map]

/-- The session ids that pruning leaves; none where the whole tree goes. -/
def idsLeft (pruned : Option WorkspaceNode) : List JsString :=
  (pruned.map collectSessionIds).getD []

theorem flatMap_filterMap (pruned : List (Option WorkspaceNode)) :
    (pruned.filterMap id).flatMap collectSessionIds = pruned.flatMap idsLeft := by
  induction pruned with
  | nil => rfl
  | cons first pruned ih =>
    cases first with
    | none => simpa [idsLeft] using ih
    | some child => simpa [idsLeft] using ih

theorem idsLeft_rebuildSplit :
    idsLeft (rebuildSplit direction sizes pruned) = pruned.flatMap idsLeft := by
  rw [← flatMap_filterMap]
  rcases rebuildSplit_cases direction sizes pruned with ⟨left, same⟩ | ⟨child, left, same⟩ |
    ⟨_, list, _, same⟩
  · rw [same, left]
    rfl
  · rw [same, left, List.flatMap_singleton]
    rfl
  · rw [same]
    exact collect_split direction _ (some list)

end

/-- Pruning removes exactly the target's pane. -/
theorem idsLeft_prune (target : JsString) (node : WorkspaceNode) :
    idsLeft (pruneWorkspaceNode target node) =
      (collectSessionIds node).filter fun sessionId => !(sessionId = target) := by
  induction node with
  | pane sessionId =>
    rw [pruneWorkspaceNode, collectSessionIds]
    by_cases same : sessionId = target
    · simp [same, idsLeft]
    · simp [same, idsLeft, collectSessionIds]
  | split direction children sizes ih =>
    rw [pruneWorkspaceNode, idsLeft_rebuildSplit, pruneChildren_eq, collect_split,
      List.flatMap_map, List.filter_flatMap]
    exact List.flatMap_congr ih

theorem Laid.prune {target : JsString} {node left : WorkspaceNode} (laid : Laid node)
    (pruned : pruneWorkspaceNode target node = some left) : Laid left := by
  induction node generalizing left with
  | pane sessionId =>
    rw [pruneWorkspaceNode] at pruned
    split at pruned
    · cases pruned
    · exact Option.some.inj pruned ▸ laid
  | split direction children sizes ih =>
    cases laid with
    | split several sized below =>
      have kept : ∀ child ∈ (children.map (pruneWorkspaceNode target)).filterMap id, Laid child := by
        intro child mem
        simp only [List.filterMap_map, List.mem_filterMap, comp_apply, id_eq] at mem
        obtain ⟨old, mem, same⟩ := mem
        exact ih old mem (below old mem) same
      rw [pruneWorkspaceNode, pruneChildren_eq] at pruned
      rcases rebuildSplit_cases direction sizes (children.map (pruneWorkspaceNode target)) with
        ⟨_, same⟩ | ⟨child, only, same⟩ | ⟨two, list, length, same⟩
      · rw [same] at pruned
        cases pruned
      · rw [same] at pruned
        apply kept
        rw [only, Option.some.inj pruned]
        exact List.mem_singleton_self _
      · rw [same] at pruned
        rw [← Option.some.inj pruned]
        refine .split two (fun sized mem => ?_) kept
        rw [← Option.some.inj mem]
        exact length

/-! ## Inserting -/

theorem mem_placed {α : Type} {position : SplitPosition} {new old x : α} :
    x ∈ placed position new old ↔ x = new ∨ x = old := by
  unfold placed
  split
  · simp
  · simp [or_comm]

theorem length_placed {α : Type} (position : SplitPosition) (new old : α) :
    (placed position new old).length = 2 := by
  unfold placed
  split
  · rfl
  · rfl

theorem map_placed {α β : Type} (f : α → β) (position : SplitPosition) (new old : α) :
    (placed position new old).map f = placed position (f new) (f old) := by
  unfold placed
  split
  · rfl
  · rfl

theorem perm_placed {α : Type} (position : SplitPosition) (new old : α) :
    (placed position new old).Perm [new, old] := by
  unfold placed
  split
  · exact List.Perm.refl _
  · exact List.Perm.swap new old []

theorem collect_createSplitFromPane (sessionId target : JsString) (hint : SplitHint) :
    collectSessionIds (createSplitFromPane (pane target) (pane sessionId) hint) =
      placed hint.position sessionId target := by
  rw [createSplitFromPane, collect_split, List.flatMap_def, map_placed]
  unfold placed
  split
  · rfl
  · rfl

def besideTarget (sessionId target : JsString) (hint : SplitHint) (id : JsString) :
    List JsString :=
  if id = target then placed hint.position sessionId target else [id]

theorem collect_insertPane (sessionId target : JsString) (hint : SplitHint) (node : WorkspaceNode) :
    collectSessionIds (insertPane (pane sessionId) hint target node) =
      (collectSessionIds node).flatMap (besideTarget sessionId target hint) := by
  induction node with
  | pane id =>
    rw [insertPane, collectSessionIds, List.flatMap_singleton, besideTarget]
    split
    · rename_i same
      rw [same]
      exact collect_createSplitFromPane _ _ _
    · rfl
  | split direction children sizes ih =>
    rw [insertPane, collect_split, collect_split, insertPaneIntoChildren_eq, List.flatMap_map,
      List.flatMap_assoc]
    exact List.flatMap_congr ih

section

variable {sessionId target : JsString} {hint : SplitHint} {ids : List JsString}

theorem flatMap_besideTarget_of_not_mem (absent : target ∉ ids) :
    ids.flatMap (besideTarget sessionId target hint) = ids := by
  induction ids with
  | nil => rfl
  | cons id ids ih =>
    have other : id ≠ target := fun same => absent (same ▸ List.mem_cons_self)
    rw [List.flatMap_cons, ih fun mem => absent (List.mem_cons_of_mem _ mem), besideTarget,
      if_neg other, List.singleton_append]

theorem flatMap_besideTarget_perm (distinct : ids.Nodup) (mem : target ∈ ids) :
    (ids.flatMap (besideTarget sessionId target hint)).Perm (sessionId :: ids) := by
  induction ids with
  | nil => exact absurd mem List.not_mem_nil
  | cons id ids ih =>
    rw [List.nodup_cons] at distinct
    rw [List.flatMap_cons]
    rcases List.mem_cons.mp mem with same | later
    · subst same
      rw [flatMap_besideTarget_of_not_mem distinct.1, besideTarget, if_pos rfl]
      exact (perm_placed _ _ _).append_right ids
    · have other : id ≠ target := fun same => distinct.1 (same ▸ later)
      rw [besideTarget, if_neg other, List.singleton_append]
      exact ((ih distinct.2 later).cons id).trans (List.Perm.swap sessionId id ids)

/-- The other sessions keep their order. -/
theorem filter_besideTarget (absent : sessionId ∉ ids) :
    (ids.flatMap (besideTarget sessionId target hint)).filter (fun id => !(id = sessionId)) = ids := by
  induction ids with
  | nil => rfl
  | cons id ids ih =>
    have other : id ≠ sessionId := fun same => absent (same ▸ List.mem_cons_self)
    rw [List.flatMap_cons, List.filter_append, ih fun mem => absent (List.mem_cons_of_mem _ mem),
      besideTarget]
    split
    · rename_i same
      subst same
      unfold placed
      split
      · simp [other]
      · simp [other]
    · simp [other]

end

theorem Laid.createSplitFromPane {existing new : WorkspaceNode} (hint : SplitHint)
    (old : Laid existing) (fresh : Laid new) : Laid (createSplitFromPane existing new hint) := by
  refine .split (length_placed _ _ _).ge (fun list mem => ?_) fun child mem => ?_
  · rw [← Option.some.inj mem, length_placed]
    rfl
  · rcases mem_placed.mp mem with same | same
    · exact same ▸ fresh
    · exact same ▸ old

theorem Laid.insertPane {newPane node : WorkspaceNode} {target : JsString} (hint : SplitHint)
    (fresh : Laid newPane) (laid : Laid node) : Laid (insertPane newPane hint target node) := by
  induction node with
  | pane id =>
    rw [Workspace.insertPane]
    split
    · exact laid.createSplitFromPane hint fresh
    · exact laid
  | split direction children sizes ih =>
    cases laid with
    | split several sized below =>
      rw [Workspace.insertPane, insertPaneIntoChildren_eq]
      refine .split (by rwa [List.length_map]) (fun list mem => ?_) fun child mem => ?_
      · rw [List.length_map]
        exact sized list mem
      · obtain ⟨old, mem, same⟩ := List.mem_map.mp mem
        exact same ▸ ih old mem (below old mem)

/-! ## The layout of a workspace -/

/-- The root of a workspace: the placeholder without panes, or a layout; no session twice. -/
structure WellLaid (root : WorkspaceNode) : Prop where
  layout : root = createEmptyWorkspaceRoot ∨ Laid root
  distinct : (collectSessionIds root).Nodup

theorem collect_empty : collectSessionIds createEmptyWorkspaceRoot = [] := rfl

variable {root : WorkspaceNode}

theorem WellLaid.laid (well : WellLaid root) (some_ : collectSessionIds root ≠ []) : Laid root := by
  rcases well.layout with empty | laid
  · rw [empty] at some_
    exact absurd collect_empty some_
  · exact laid

theorem wellLaid_pane (sessionId : JsString) : WellLaid (pane sessionId) :=
  ⟨.inr (.pane sessionId), by rw [collectSessionIds]; exact List.nodup_singleton sessionId⟩

/-! ### Appending -/

theorem laid_pair {first second : WorkspaceNode} (direction : SplitDirection) {list : List ℚ}
    (length : list.length = 2) (one : Laid first) (two : Laid second) :
    Laid (split direction [first, second] (some list)) := by
  refine .split le_rfl (fun other mem => ?_) fun child mem => ?_
  · rw [← Option.some.inj mem, length]
    rfl
  · rcases List.mem_cons.mp mem with same | mem
    · exact same ▸ one
    · exact List.mem_singleton.mp mem ▸ two

theorem collect_append {sessionId : JsString} (direction : SplitDirection)
    (absent : sessionId ∉ collectSessionIds root) :
    collectSessionIds (appendPaneToWorkspaceRoot root sessionId direction) =
      collectSessionIds root ++ [sessionId] := by
  unfold appendPaneToWorkspaceRoot
  rw [if_neg absent]
  have wrapped : collectSessionIds (split direction [root, pane sessionId] (some [1 / 2, 1 / 2])) =
      collectSessionIds root ++ [sessionId] := by
    rw [collect_split, List.flatMap_cons, List.flatMap_singleton, collectSessionIds]
  split
  · rename_i nothing
    rw [nothing, collectSessionIds]
    rfl
  · cases root with
    | pane id => exact wrapped
    | split rootDirection children sizes =>
      dsimp only
      split
      · rw [collect_split, collect_split, List.flatMap_append, List.flatMap_singleton,
          collectSessionIds]
      · exact wrapped

theorem WellLaid.append (well : WellLaid root) (sessionId : JsString)
    (direction : SplitDirection) : WellLaid (appendPaneToWorkspaceRoot root sessionId direction) := by
  by_cases mem : sessionId ∈ collectSessionIds root
  · unfold appendPaneToWorkspaceRoot
    rwa [if_pos mem]
  · have ids := collect_append direction mem
    refine ⟨.inr ?_, ?_⟩
    · unfold appendPaneToWorkspaceRoot
      rw [if_neg mem]
      split
      · exact .pane sessionId
      · rename_i some_
        have laid := well.laid some_
        cases root with
        | pane id => exact laid_pair direction rfl laid (.pane sessionId)
        | split rootDirection children sizes =>
          dsimp only
          split
          · cases laid with
            | split several sized below =>
              refine .split ?_ (fun list mem => ?_) fun child mem => ?_
              · rw [List.length_append]
                omega
              · rw [← Option.some.inj mem, List.length_map]
              · rcases List.mem_append.mp mem with old | new
                · exact below child old
                · exact List.mem_singleton.mp new ▸ .pane sessionId
          · exact laid_pair direction rfl laid (.pane sessionId)
    · rw [ids, List.nodup_append]
      exact ⟨well.distinct, List.nodup_singleton _, fun id old new mem' same =>
        mem (List.mem_singleton.mp mem' ▸ same ▸ old)⟩

/-! ### Inserting -/

def idsInserted (ids : List JsString) (sessionId : JsString) (hint : SplitHint) : List JsString :=
  match hint.target with
  | none => (placed hint.position [sessionId] ids).flatten
  | some target => ids.flatMap (besideTarget sessionId target hint)

theorem collect_insert {sessionId : JsString} (hint : SplitHint)
    (absent : sessionId ∉ collectSessionIds root) (some_ : collectSessionIds root ≠ []) :
    collectSessionIds (insertPaneIntoWorkspace root sessionId hint) =
      idsInserted (collectSessionIds root) sessionId hint := by
  unfold insertPaneIntoWorkspace idsInserted
  rw [if_neg absent, if_neg some_]
  cases hint.target with
  | none =>
    dsimp only
    rw [collect_split, List.flatMap_def, map_placed, collectSessionIds]
  | some target => exact collect_insertPane sessionId target hint root

variable {ids : List JsString}

theorem idsInserted_perm {sessionId : JsString} {hint : SplitHint}
    (distinct : ids.Nodup) (reaches : ∀ target ∈ hint.target, target ∈ ids) :
    (idsInserted ids sessionId hint).Perm (sessionId :: ids) := by
  unfold idsInserted
  cases target : hint.target with
  | none =>
    dsimp only
    have both := (perm_placed hint.position [sessionId] ids).flatten
    simpa using both
  | some target' =>
    exact flatMap_besideTarget_perm distinct (reaches target' target)

theorem idsInserted_of_unknown {sessionId target : JsString}
    {hint : SplitHint} (names : hint.target = some target) (unknown : target ∉ ids) :
    idsInserted ids sessionId hint = ids := by
  unfold idsInserted
  rw [names]
  exact flatMap_besideTarget_of_not_mem unknown

theorem filter_idsInserted {sessionId : JsString} (hint : SplitHint) (absent : sessionId ∉ ids) :
    (idsInserted ids sessionId hint).filter (fun id => !(id = sessionId)) = ids := by
  have others : ids.filter (fun id => !(id = sessionId)) = ids := by
    rw [List.filter_eq_self]
    intro id mem
    simpa using fun same : id = sessionId => absent (same ▸ mem)
  unfold idsInserted
  cases hint.target with
  | none =>
    dsimp only
    unfold placed
    split
    · simpa using others
    · simpa using others
  | some target => exact filter_besideTarget absent

theorem Laid.insert (laid : Laid root) (sessionId : JsString)
    (hint : SplitHint) : Laid (insertPaneIntoWorkspace root sessionId hint) := by
  unfold insertPaneIntoWorkspace
  split
  · exact laid
  · split
    · exact .pane sessionId
    · cases hint.target with
      | none => exact laid.createSplitFromPane hint (.pane sessionId)
      | some target => exact Laid.insertPane hint (.pane sessionId) laid

theorem WellLaid.insert (well : WellLaid root) (sessionId : JsString)
    (hint : SplitHint) : WellLaid (insertPaneIntoWorkspace root sessionId hint) := by
  by_cases mem : sessionId ∈ collectSessionIds root
  · unfold insertPaneIntoWorkspace
    rwa [if_pos mem]
  by_cases nothing : collectSessionIds root = []
  · unfold insertPaneIntoWorkspace
    rw [if_neg mem, if_pos nothing]
    exact wellLaid_pane sessionId
  refine ⟨.inr ((well.laid nothing).insert sessionId hint), ?_⟩
  rw [collect_insert hint mem nothing]
  by_cases reaches : ∀ target ∈ hint.target, target ∈ collectSessionIds root
  · rw [(idsInserted_perm well.distinct reaches).nodup_iff, List.nodup_cons]
    exact ⟨mem, well.distinct⟩
  · simp only [not_forall] at reaches
    obtain ⟨target, names, unknown⟩ := reaches
    rw [idsInserted_of_unknown names unknown]
    exact well.distinct

/-! ### Pruning -/

theorem WellLaid.prune {root left : WorkspaceNode} {target : JsString} (well : WellLaid root)
    (pruned : pruneWorkspaceNode target root = some left) : WellLaid left := by
  have ids := idsLeft_prune target root
  rw [pruned] at ids
  refine ⟨.inr ?_, ?_⟩
  · rcases well.layout with empty | laid
    · rw [empty] at pruned
      exact absurd pruned (Option.some_ne_none _).symm
    · exact laid.prune pruned
  · have same : collectSessionIds left = _ := ids
    rw [same]
    exact well.distinct.filter _

theorem ids_of_pruned {root left : WorkspaceNode} {target : JsString}
    (pruned : pruneWorkspaceNode target root = some left) :
    collectSessionIds left =
      (collectSessionIds root).filter fun sessionId => !(sessionId = target) := by
  have ids := idsLeft_prune target root
  rwa [pruned] at ids

/-! ### Moving -/

inductive Within (part : WorkspaceNode) : WorkspaceNode → Prop where
  | here : Within part part
  | deeper {direction : SplitDirection} {children : List WorkspaceNode} {sizes : Option (List ℚ)}
      {child : WorkspaceNode} (mem : child ∈ children) (within : Within part child) :
      Within part (.split direction children sizes)

theorem within_insertPane {newPane node : WorkspaceNode} {target : JsString} (hint : SplitHint)
    (mem : target ∈ collectSessionIds node) :
    Within (createSplitFromPane (pane target) newPane hint) (insertPane newPane hint target node) := by
  induction node with
  | pane id =>
    rw [collectSessionIds, List.mem_singleton] at mem
    rw [insertPane, if_pos mem.symm, mem]
    exact .here
  | split direction children sizes ih =>
    rw [collect_split, List.mem_flatMap] at mem
    obtain ⟨child, held, inside⟩ := mem
    rw [insertPane, insertPaneIntoChildren_eq]
    exact .deeper (List.mem_map_of_mem held) (ih child held inside)

theorem target_eq_some {hint : SplitHint} {target : JsString} (names : hint.target = some target) :
    hint.targetSessionId = some target := by
  unfold SplitHint.target at names
  exact (Option.filter_eq_some_iff.mp names).1

/-- What holds where a drop is none of those that change nothing. -/
theorem moves_of_not_isNoOp {member : JsString} {hint : SplitHint}
    (moves : isNoOp root member hint = false) :
    member ∈ collectSessionIds root ∧ 2 ≤ (collectSessionIds root).length ∧
      ∀ target ∈ hint.target, target ≠ member ∧ target ∈ collectSessionIds root := by
  simp only [isNoOp, Bool.or_eq_false_iff, Bool.not_eq_false', List.contains_iff_mem,
    decide_eq_false_iff_not, not_le, Option.any_eq_false] at moves
  obtain ⟨⟨⟨mem, several⟩, other⟩, known⟩ := moves
  refine ⟨mem, several, fun target names => ⟨fun same => ?_, ?_⟩⟩
  · exact other (same ▸ target_eq_some names)
  · simpa using known target names

theorem prune_isSome {member : JsString} (well : WellLaid root)
    (mem : member ∈ collectSessionIds root) (several : 2 ≤ (collectSessionIds root).length) :
    ∃ left, pruneWorkspaceNode member root = some left ∧
      (member :: collectSessionIds left).Perm (collectSessionIds root) ∧
      collectSessionIds left ≠ [] := by
  have ids := idsLeft_prune member root
  have perm : (member :: (collectSessionIds root).filter (fun id => !(id = member))).Perm
      (collectSessionIds root) := by
    have removed : (collectSessionIds root).erase member =
        (collectSessionIds root).filter fun id => !(id = member) := by
      rw [well.distinct.erase_eq_filter]
      exact List.filter_congr fun id _ => by simp [bne, beq_eq_decide]
    rw [← removed]
    exact (List.perm_cons_erase mem).symm
  have length := perm.length_eq
  rw [List.length_cons] at length
  cases pruned : pruneWorkspaceNode member root with
  | none =>
    rw [pruned] at ids
    rw [← ids] at length
    have nothing : (idsLeft none).length = 0 := rfl
    omega
  | some left =>
    rw [← ids_of_pruned pruned] at perm length
    refine ⟨left, rfl, perm, fun nothing => ?_⟩
    rw [nothing, List.length_nil] at length
    omega

theorem movePane_eq {root left : WorkspaceNode} {member : JsString} {hint : SplitHint}
    (moves : isNoOp root member hint = false) (pruned : pruneWorkspaceNode member root = some left) :
    movePaneInWorkspace root member hint = insertPaneIntoWorkspace left member hint := by
  unfold movePaneInWorkspace
  rw [moves, pruned]
  rfl

theorem WellLaid.move (well : WellLaid root) (member : JsString)
    (hint : SplitHint) : WellLaid (movePaneInWorkspace root member hint) := by
  cases moves : isNoOp root member hint with
  | true =>
    unfold movePaneInWorkspace
    rwa [if_pos moves]
  | false =>
    obtain ⟨mem, several, _⟩ := moves_of_not_isNoOp moves
    obtain ⟨left, pruned, _⟩ := prune_isSome well mem several
    rw [movePane_eq moves pruned]
    exact (well.prune pruned).insert member hint

/-! ### Copies and new workspaces -/

theorem collect_clone (sessionIdMap : JsString → Option JsString) (node : WorkspaceNode) :
    collectSessionIds (cloneWorkspaceTree sessionIdMap node) =
      (collectSessionIds node).map fun id => (sessionIdMap id).getD id := by
  induction node with
  | pane id => rfl
  | split direction children sizes ih =>
    rw [cloneWorkspaceTree, collect_split, collect_split, cloneChildren_eq, List.flatMap_map,
      List.map_flatMap]
    exact List.flatMap_congr ih

theorem Laid.clone {node : WorkspaceNode} (sessionIdMap : JsString → Option JsString)
    (laid : Laid node) : Laid (cloneWorkspaceTree sessionIdMap node) := by
  induction node with
  | pane id => exact .pane _
  | split direction children sizes ih =>
    cases laid with
    | split several sized below =>
      rw [cloneWorkspaceTree, cloneChildren_eq]
      refine .split (by rwa [List.length_map]) (fun list mem => ?_) fun child mem => ?_
      · rw [List.length_map]
        exact sized list mem
      · obtain ⟨old, mem, same⟩ := List.mem_map.mp mem
        exact same ▸ ih old mem (below old mem)

/-- The map has one new id for one old id, and its new ids are not used in the tree. -/
structure FreshMap (sessionIdMap : JsString → Option JsString) (root : WorkspaceNode) : Prop where
  injective : ∀ a b id, sessionIdMap a = some id → sessionIdMap b = some id → a = b
  fresh : ∀ a id, sessionIdMap a = some id → id ∉ collectSessionIds root

theorem WellLaid.clone (well : WellLaid root)
    {sessionIdMap : JsString → Option JsString} (map : FreshMap sessionIdMap root) :
    WellLaid (cloneWorkspaceTree sessionIdMap root) := by
  refine ⟨?_, ?_⟩
  · rcases well.layout with empty | laid
    · exact .inl (by rw [empty]; rfl)
    · exact .inr (laid.clone sessionIdMap)
  · rw [collect_clone]
    refine List.Nodup.map_on (fun a memA b memB same => ?_) well.distinct
    cases newA : sessionIdMap a with
    | none =>
      cases newB : sessionIdMap b with
      | none => simpa [newA, newB] using same
      | some id =>
        simp only [newA, newB, Option.getD_none, Option.getD_some] at same
        exact absurd (same ▸ memA) (map.fresh b id newB)
    | some id =>
      cases newB : sessionIdMap b with
      | none =>
        simp only [newA, newB, Option.getD_none, Option.getD_some] at same
        exact absurd (same ▸ memB) (map.fresh a id newA)
      | some other =>
        simp only [newA, newB, Option.getD_some] at same
        exact map.injective a b id newA (same ▸ newB)

theorem wellLaid_fromSessions {base joining : JsString} (hint : SplitHint) (other : joining ≠ base) :
    WellLaid (createWorkspaceFromSessions base joining hint) := by
  have ids : collectSessionIds (createWorkspaceFromSessions base joining hint) =
      placed hint.position joining base := collect_createSplitFromPane joining base hint
  refine ⟨.inr (Laid.createSplitFromPane hint (.pane base) (.pane joining)), ?_⟩
  rw [ids, (perm_placed _ _ _).nodup_iff]
  simpa using other

theorem wellLaid_fromSessionIds {root : WorkspaceNode} (distinct : ids.Nodup)
    (created : createWorkspaceFromSessionIds ids = some root) : WellLaid root := by
  rcases ids with _ | ⟨first, _ | ⟨second, ids⟩⟩
  · cases created
  · exact Option.some.inj created ▸ wellLaid_pane first
  · rw [← Option.some.inj created]
    refine ⟨.inr (.split (by simp) (fun list mem => ?_) fun child mem => ?_), ?_⟩
    · rw [← Option.some.inj mem, List.length_map, List.length_map]
    · obtain ⟨id, _, same⟩ := List.mem_map.mp mem
      exact same ▸ .pane id
    · have single : collectSessionIds ∘ pane = fun id => [id] := rfl
      rw [collect_split, List.flatMap_map, ← comp_def collectSessionIds, single,
        List.flatMap_singleton']
      exact distinct

/-! ## Reachable layouts -/

/-- The trees the layout operations make. -/
inductive Reachable : WorkspaceNode → Prop where
  | pane (sessionId : JsString) : Reachable (.pane sessionId)
  | empty : Reachable createEmptyWorkspaceRoot
  | fromSessions {base joining : JsString} (hint : SplitHint) (other : joining ≠ base) :
      Reachable (createWorkspaceFromSessions base joining hint)
  | fromSessionIds {ids : List JsString} {root : WorkspaceNode} (distinct : ids.Nodup)
      (created : createWorkspaceFromSessionIds ids = some root) : Reachable root
  | insert {root : WorkspaceNode} (sessionId : JsString) (hint : SplitHint)
      (earlier : Reachable root) : Reachable (insertPaneIntoWorkspace root sessionId hint)
  | append {root : WorkspaceNode} (sessionId : JsString) (direction : SplitDirection)
      (earlier : Reachable root) : Reachable (appendPaneToWorkspaceRoot root sessionId direction)
  | prune {root left : WorkspaceNode} {target : JsString} (earlier : Reachable root)
      (pruned : pruneWorkspaceNode target root = some left) : Reachable left
  | move {root : WorkspaceNode} (member : JsString) (hint : SplitHint) (earlier : Reachable root) :
      Reachable (movePaneInWorkspace root member hint)
  | clone {root : WorkspaceNode} {sessionIdMap : JsString → Option JsString}
      (earlier : Reachable root) (map : FreshMap sessionIdMap root) :
      Reachable (cloneWorkspaceTree sessionIdMap root)

theorem Reachable.wellLaid (reachable : Reachable root) : WellLaid root := by
  induction reachable with
  | pane sessionId => exact wellLaid_pane sessionId
  | empty => exact ⟨.inl rfl, collect_empty ▸ List.nodup_nil⟩
  | fromSessions hint other => exact wellLaid_fromSessions hint other
  | fromSessionIds distinct created => exact wellLaid_fromSessionIds distinct created
  | insert sessionId hint _ ih => exact ih.insert sessionId hint
  | append sessionId direction _ ih => exact ih.append sessionId direction
  | prune _ pruned ih => exact ih.prune pruned
  | move member hint _ ih => exact ih.move member hint
  | clone _ map ih => exact ih.clone map

/-- Appending adds exactly a new id, and leaves the tree alone for a member. -/
def AppendsExactly (root : WorkspaceNode) : Prop :=
  ∀ sessionId direction,
    (sessionId ∈ collectSessionIds root →
      appendPaneToWorkspaceRoot root sessionId direction = root) ∧
    (sessionId ∉ collectSessionIds root →
      collectSessionIds (appendPaneToWorkspaceRoot root sessionId direction) =
        collectSessionIds root ++ [sessionId])

/-- Inserting adds exactly a new id where the hint names no target or a member, or where the
workspace has no panes; otherwise it changes no membership. -/
def InsertsExactly (root : WorkspaceNode) : Prop :=
  ∀ sessionId hint,
    (sessionId ∈ collectSessionIds root →
      insertPaneIntoWorkspace root sessionId hint = root) ∧
    (sessionId ∉ collectSessionIds root →
      (∀ target ∈ hint.target, target ∈ collectSessionIds root) ∨ collectSessionIds root = [] →
      (collectSessionIds (insertPaneIntoWorkspace root sessionId hint)).Perm
        (sessionId :: collectSessionIds root)) ∧
    (∀ target ∈ hint.target, target ∉ collectSessionIds root → collectSessionIds root ≠ [] →
      collectSessionIds (insertPaneIntoWorkspace root sessionId hint) = collectSessionIds root)

/-- Pruning removes exactly one id; only a tree that holds nothing else goes as a whole. -/
def PrunesExactly (root : WorkspaceNode) : Prop :=
  ∀ target, idsLeft (pruneWorkspaceNode target root) =
    (collectSessionIds root).filter fun sessionId => !(sessionId = target)

/-- A move that is none of the no-ops puts the pane on the requested side of its target, or of
the rest of the tree, and keeps the order of the others. -/
def MovesExactly (root : WorkspaceNode) : Prop :=
  ∀ member hint,
    (isNoOp root member hint = true → movePaneInWorkspace root member hint = root) ∧
    (isNoOp root member hint = false →
      (collectSessionIds (movePaneInWorkspace root member hint)).Perm (collectSessionIds root) ∧
      ((collectSessionIds (movePaneInWorkspace root member hint)).filter
          fun sessionId => !(sessionId = member)) =
        ((collectSessionIds root).filter fun sessionId => !(sessionId = member)) ∧
      (∀ target ∈ hint.target, Within
        (split hint.direction (placed hint.position (pane member) (pane target)) (some [1, 1]))
        (movePaneInWorkspace root member hint)) ∧
      (hint.target = none → ∃ left, pruneWorkspaceNode member root = some left ∧
        movePaneInWorkspace root member hint =
          split hint.direction (placed hint.position (pane member) left) (some [1, 1])))

theorem appendsExactly (root : WorkspaceNode) : AppendsExactly root := by
  intro sessionId direction
  refine ⟨fun mem => ?_, collect_append direction⟩
  unfold appendPaneToWorkspaceRoot
  rw [if_pos mem]

theorem WellLaid.insertsExactly (well : WellLaid root) : InsertsExactly root := by
  intro sessionId hint
  have member (mem : sessionId ∈ collectSessionIds root) :
      insertPaneIntoWorkspace root sessionId hint = root := by
    unfold insertPaneIntoWorkspace
    rw [if_pos mem]
  refine ⟨member, fun absent reaches => ?_, fun target names unknown some_ => ?_⟩
  · by_cases nothing : collectSessionIds root = []
    · unfold insertPaneIntoWorkspace
      rw [if_neg absent, if_pos nothing, nothing, collectSessionIds]
    · rw [collect_insert hint absent nothing]
      exact idsInserted_perm well.distinct (reaches.resolve_right nothing)
  · by_cases mem : sessionId ∈ collectSessionIds root
    · rw [member mem]
    · rw [collect_insert hint mem some_]
      exact idsInserted_of_unknown names unknown

theorem WellLaid.movesExactly (well : WellLaid root) : MovesExactly root := by
  intro member hint
  refine ⟨fun noOp => ?_, fun moves => ?_⟩
  · unfold movePaneInWorkspace
    rw [if_pos noOp]
  · obtain ⟨mem, several, reaches⟩ := moves_of_not_isNoOp moves
    obtain ⟨left, pruned, perm, some_⟩ := prune_isSome well mem several
    have ids := ids_of_pruned pruned
    have absent : member ∉ collectSessionIds left := by
      rw [ids]
      simp
    have known : ∀ target ∈ hint.target, target ∈ collectSessionIds left := by
      intro target names
      rw [ids, List.mem_filter]
      exact ⟨(reaches target names).2, by simpa using (reaches target names).1⟩
    rw [movePane_eq moves pruned]
    refine ⟨?_, ?_, fun target names => ?_, fun names => ⟨left, pruned, ?_⟩⟩
    · rw [collect_insert hint absent some_]
      exact (idsInserted_perm (well.prune pruned).distinct known).trans perm
    · rw [collect_insert hint absent some_, filter_idsInserted hint absent, ids]
    · have named : hint.target = some target := names
      unfold insertPaneIntoWorkspace
      rw [if_neg absent, if_neg some_, named]
      exact within_insertPane hint (known target names)
    · unfold insertPaneIntoWorkspace
      rw [if_neg absent, if_neg some_, names]

/-- No operation loses or doubles a terminal, in any layout that can be reached. -/
theorem layout_operations_keep_terminals {root : WorkspaceNode} (reachable : Reachable root) :
    (collectSessionIds root).Nodup ∧ (root = createEmptyWorkspaceRoot ∨ Laid root) ∧
      AppendsExactly root ∧ InsertsExactly root ∧ PrunesExactly root ∧ MovesExactly root :=
  ⟨reachable.wellLaid.distinct, reachable.wellLaid.layout, appendsExactly root,
    reachable.wellLaid.insertsExactly, fun target => idsLeft_prune target root,
    reachable.wellLaid.movesExactly⟩

def sampleHint : SplitHint := ⟨.vertical, .left, some (text "b")⟩

theorem layout_operations_keep_terminals_pair :
    Reachable (createWorkspaceFromSessions (text "a") (text "b") sampleHint) ∧
      MovesExactly (createWorkspaceFromSessions (text "a") (text "b") sampleHint) :=
  ⟨.fromSessions _ (by decide),
    (layout_operations_keep_terminals (.fromSessions _ (by decide))).2.2.2.2.2⟩

/-- A workspace without panes takes a session whatever target the hint names. -/
theorem empty_workspace_ignores_target : Reachable createEmptyWorkspaceRoot ∧
      text "b" ∉ collectSessionIds createEmptyWorkspaceRoot ∧
      sampleHint.target = some (text "b") ∧
      collectSessionIds (insertPaneIntoWorkspace createEmptyWorkspaceRoot (text "a") sampleHint) =
        [text "a"] :=
  ⟨.empty, by decide, by decide, by decide⟩

end Netcatty.Workspace
