import Netcatty.VaultHosts

/-!
Renaming a host group: `applyGroupPathRename` of `hostGroupPathMutations.ts`.

A group is there because it is listed, because a host or a managed source is in it, or because
a group below it is there.  The rename refuses a path that is listed.  It keeps the groups
apart exactly when the new path is not there in any other way either
(`rename_keeps_groups_apart_iff`).
-/

namespace Netcatty.HostGroups

open List

open VaultImport (Host)

def normalizeGroupTargetPath (value : JsString) : JsString :=
  [slash].intercalate
    ((((value.map fun unit => if unit = backslash then slash else unit).splitOn slash).map trim).filter (!·.isEmpty))

def computeRenamedGroupPath (renameTargetPath nextName : JsString) : JsString :=
  let segments := (renameTargetPath.splitOn slash).filter (!·.isEmpty)
  let parent := [slash].intercalate segments.dropLast
  if parent.isEmpty then nextName else parent ++ slash :: nextName

structure ManagedSource where
  id : JsString
  groupName : JsString
  deriving DecidableEq

structure RenameParams where
  renameTargetPath : JsString
  nextName : JsString
  customGroups : List JsString
  hosts : List Host
  managedSources : List ManagedSource

inductive RenameError where
  | required
  | invalidChars
  | duplicatePath
  | unchanged
  deriving DecidableEq

structure Renamed where
  nextPath : JsString
  updatedGroups : List JsString
  updatedHosts : List Host
  updatedManagedSources : List ManagedSource
  deriving DecidableEq

section Rename

variable (renameTargetPath nextPath : JsString)

/-- What the three updates make of a path. -/
def movedPath (path : JsString) : JsString :=
  if path = renameTargetPath then nextPath
  else if renameTargetPath ++ [slash] <+: path then nextPath ++ path.drop renameTargetPath.length
  else path

def updatedHost (host : Host) : Host :=
  let group := host.group.getD []
  if group = renameTargetPath then { host with group := some nextPath }
  else if renameTargetPath ++ [slash] <+: group then
    { host with group := some (nextPath ++ group.drop renameTargetPath.length) }
  else host

end Rename

def applyGroupPathRename (params : RenameParams) : Except RenameError Renamed :=
  let trimmed := trim params.nextName
  if trimmed.isEmpty then .error .required
  else if trimmed.any fun unit => unit = slash || unit = backslash then .error .invalidChars
  else
    let nextPath := computeRenamedGroupPath params.renameTargetPath trimmed
    if nextPath = params.renameTargetPath then .error .unchanged
    else if params.customGroups.contains nextPath then .error .duplicatePath
    else
      .ok ⟨nextPath, (params.customGroups.map (movedPath params.renameTargetPath nextPath)).eraseDups,
        params.hosts.map (updatedHost params.renameTargetPath nextPath),
        params.managedSources.map fun source =>
          { source with groupName := movedPath params.renameTargetPath nextPath source.groupName }⟩

/-! ## Paths in use -/

def Below (above path : JsString) : Prop := path = above ∨ above ++ [slash] <+: path

def occurrences (customGroups : List JsString) (hosts : List Host) (managedSources : List ManagedSource) :
    List JsString :=
  customGroups ++ hosts.map (·.group.getD []) ++ managedSources.map (·.groupName)

def InUse (paths : List JsString) (path : JsString) : Prop := ∃ occurrence ∈ paths, Below path occurrence

theorem below_iff {above path : JsString} :
    Below above path ↔ ∃ rest : JsString, path = above ++ rest ∧ ∀ unit ∈ rest.head?, unit = slash := by
  constructor
  · rintro (rfl | ⟨rest, rfl⟩)
    · exact ⟨[], by simp⟩
    · exact ⟨slash :: rest, by simp⟩
  · rintro ⟨_ | ⟨unit, rest⟩, rfl, starts⟩
    · exact .inl (append_nil _)
    · exact .inr ⟨rest, by rw [starts unit rfl, append_assoc, singleton_append]⟩

theorem starts_append {rest more : JsString} (starts : ∀ unit ∈ rest.head?, unit = slash)
    (starts' : ∀ unit ∈ more.head?, unit = slash) : ∀ unit ∈ (rest ++ more).head?, unit = slash := by
  cases rest with
  | nil => exact starts'
  | cons => exact starts

/-- Of two paths above a third one is above the other. -/
theorem Below.connected {a b path : JsString} (first : Below a path) (second : Below b path) :
    Below a b ∨ Below b a := by
  obtain ⟨restA, rfl, startsA⟩ := below_iff.mp first
  obtain ⟨restB, same, startsB⟩ := below_iff.mp second
  rcases append_eq_append_iff.mp same with ⟨between, rfl, rfl⟩ | ⟨between, rfl, rfl⟩
  · refine .inl (below_iff.mpr ⟨between, rfl, fun unit mem => startsA unit ?_⟩)
    exact mem_head?_append_of_mem_head? mem
  · refine .inr (below_iff.mpr ⟨between, rfl, fun unit mem => startsB unit ?_⟩)
    exact mem_head?_append_of_mem_head? mem

theorem Below.trans {a b c : JsString} (first : Below a b) (second : Below b c) : Below a c := by
  rcases second with rfl | second
  · exact first
  · rcases first with rfl | first
    · exact .inr second
    · exact .inr (first.trans ((prefix_append _ _).trans second))

theorem InUse.above {paths : List JsString} {above path : JsString} (used : InUse paths path)
    (below : Below above path) : InUse paths above := by
  obtain ⟨occurrence, mem, inside⟩ := used
  exact ⟨occurrence, mem, below.trans inside⟩

section Moved

variable {target next : JsString}

theorem movedPath_append {rest : JsString} (starts : ∀ unit ∈ rest.head?, unit = slash) :
    movedPath target next (target ++ rest) = next ++ rest := by
  unfold movedPath
  obtain _ | ⟨unit, rest⟩ := rest
  · rw [append_nil, if_pos rfl, append_nil]
  · have inside : target ++ [slash] <+: target ++ unit :: rest :=
      ⟨rest, by rw [starts unit rfl, append_assoc, singleton_append]⟩
    rw [if_neg (by simp), if_pos inside, drop_left]

theorem movedPath_of_not_below {path : JsString} (apart : ¬ Below target path) :
    movedPath target next path = path := by
  unfold movedPath
  rw [if_neg fun same => apart (.inl same), if_neg fun inside => apart (.inr inside)]

theorem group_updatedHost (host : Host) :
    (updatedHost target next host).group.getD [] = movedPath target next (host.group.getD []) := by
  unfold updatedHost movedPath
  dsimp only
  split
  · rfl
  split
  · rfl
  · rfl

theorem movedPath_injective {paths : List JsString} (free : ¬ InUse paths target ∨ ¬ InUse paths next)
    {p q : JsString} (usedP : InUse paths p) (usedQ : InUse paths q)
    (same : movedPath target next p = movedPath target next q) : p = q := by
  have apart {p q : JsString} (usedP : InUse paths p) (usedQ : InUse paths q) (below : Below target p)
      (outside : ¬ Below target q) : movedPath target next p ≠ movedPath target next q := by
    intro same
    obtain ⟨rest, rfl, starts⟩ := below_iff.mp below
    rw [movedPath_append starts, movedPath_of_not_below outside] at same
    rcases free with free | free
    · exact free (usedP.above below)
    · exact free (usedQ.above (below_iff.mpr ⟨rest, same.symm, starts⟩))
  by_cases belowP : Below target p
  · by_cases belowQ : Below target q
    · obtain ⟨restP, rfl, startsP⟩ := below_iff.mp belowP
      obtain ⟨restQ, rfl, startsQ⟩ := below_iff.mp belowQ
      rw [movedPath_append startsP, movedPath_append startsQ] at same
      rw [append_cancel_left same]
    · exact absurd same (apart usedP usedQ belowP belowQ)
  · by_cases belowQ : Below target q
    · exact absurd same.symm (apart usedQ usedP belowQ belowP)
    · rwa [movedPath_of_not_below belowP, movedPath_of_not_below belowQ] at same

end Moved

/-! ## Normalized paths -/

/-- A text without empty segments, or the empty text. -/
def Solid (path : JsString) : Prop := path = [] ∨ [] ∉ path.splitOn slash

theorem solid_of_normalized {path : JsString} (normalized : normalizeGroupTargetPath path = path) : Solid path := by
  unfold normalizeGroupTargetPath at normalized
  generalize split : (path.map fun unit => if unit = backslash then slash else unit).splitOn slash = segments
    at normalized
  by_cases none_ : (segments.map trim).filter (!·.isEmpty) = []
  · rw [none_] at normalized
    exact .inl normalized.symm
  · have whole : ∀ part ∈ (segments.map trim).filter (!·.isEmpty), slash ∉ part := by
      intro part mem inside
      obtain ⟨segment, cut, rfl⟩ := List.mem_map.mp (mem_filter.mp mem).1
      rw [← split, splitOn_eq_splitOnP] at cut
      exact absurd (of_mem_splitOnP cut _ (mem_of_mem_trim inside)).2 (by simp)
    right
    rw [← normalized, splitOn_intercalate slash whole none_]
    intro mem
    exact absurd (mem_filter.mp mem).2 (by simp)

theorem Solid.above {above path : JsString} (solid : Solid path) (below : Below above path) : Solid above := by
  rcases below with rfl | ⟨rest, rfl⟩
  · exact solid
  · refine .inr fun mem => solid.elim (by simp) fun solid => solid ?_
    rw [append_assoc, singleton_append, splitOn_append_cons_self]
    exact mem_append_left _ mem

theorem intercalate_concat {init : List JsString} (filled : init ≠ []) (last : JsString) :
    [slash].intercalate (init ++ [last]) = [slash].intercalate init ++ slash :: last := by
  induction init with
  | nil => exact absurd rfl filled
  | cons segment init ih =>
    by_cases none_ : init = []
    · subst none_
      simp [intercalate_cons_cons]
    · rw [cons_append, intercalate_cons_of_ne_nil (by simp), ih none_,
        intercalate_cons_of_ne_nil none_]
      simp

/-- The new path has another last segment. -/
theorem computeRenamedGroupPath_eq {target : JsString} (solid : Solid target) (name : JsString) :
    ∃ front last : JsString, target = front ++ last ∧ slash ∉ last ∧
      computeRenamedGroupPath target name = front ++ name := by
  rcases solid with rfl | solid
  · exact ⟨[], [], rfl, not_mem_nil, rfl⟩
  have all : (target.splitOn slash).filter (!·.isEmpty) = target.splitOn slash := by
    rw [filter_eq_self]
    intro segment mem
    cases segment with
    | nil => exact absurd mem solid
    | cons => rfl
  have joined : [slash].intercalate (target.splitOn slash) = target := intercalate_splitOn slash
  unfold computeRenamedGroupPath
  rw [all]
  have plain : ∀ segment ∈ target.splitOn slash, slash ∉ segment := by
    intro segment mem inside
    rw [splitOn_eq_splitOnP] at mem
    exact absurd (of_mem_splitOnP mem _ inside).2 (by simp)
  obtain none_ | ⟨init, last, cut⟩ := eq_nil_or_concat (target.splitOn slash)
  · exact absurd none_ (splitOn_ne_nil _ _)
  rw [concat_eq_append] at cut
  rw [cut] at joined solid plain ⊢
  dsimp only
  rw [dropLast_concat]
  have single := plain last (mem_append_right _ mem_cons_self)
  by_cases none_ : init = []
  · subst none_
    rw [nil_append, intercalate_singleton] at joined
    exact ⟨[], last, joined.symm, single, rfl⟩
  · rw [intercalate_concat none_] at joined
    have filled : [slash].intercalate init ≠ [] := by
      obtain ⟨segment, others, rfl⟩ := exists_cons_of_ne_nil none_
      rintro empty
      refine solid (mem_append_left _ ?_)
      by_cases alone : others = []
      · rw [alone, intercalate_singleton] at empty
        exact empty ▸ mem_cons_self
      · rw [intercalate_cons_of_ne_nil alone] at empty
        simp at empty
    refine ⟨[slash].intercalate init ++ [slash], last, ?_, single, ?_⟩
    · rw [← joined, append_assoc, singleton_append]
    · rw [if_neg (by simpa using filled), append_assoc, singleton_append]

theorem below_computeRenamedGroupPath {target above name : JsString} (solid : Solid target)
    (inside : above ++ [slash] <+: target) : above ++ [slash] <+: computeRenamedGroupPath target name := by
  obtain ⟨front, last, rfl, single, renamed⟩ := computeRenamedGroupPath_eq solid name
  rw [renamed]
  rcases List.prefix_or_prefix_of_prefix inside (prefix_append front last) with within | ⟨rest, whole⟩
  · exact within.trans (prefix_append _ _)
  · rw [← whole, prefix_append_right_inj] at inside
    obtain rfl | ⟨rest, unit, rfl⟩ := eq_nil_or_concat rest
    · rw [← whole, append_nil]
      exact prefix_append _ _
    · rw [concat_eq_append, ← append_assoc] at whole
      have ends := append_inj_right' whole rfl
      cases ends
      exact absurd (inside.subset (by simp)) single

/-! ## The rename -/

def RenameParams.occurrences (params : RenameParams) : List JsString :=
  HostGroups.occurrences params.customGroups params.hosts params.managedSources

def Renamed.occurrences (renamed : Renamed) : List JsString :=
  HostGroups.occurrences renamed.updatedGroups renamed.updatedHosts renamed.updatedManagedSources

def Renamed.place (renamed : Renamed) (params : RenameParams) : JsString → JsString :=
  movedPath params.renameTargetPath renamed.nextPath

/-- The paths in use move to different paths in use, hosts share a group as before, and what is
in the renamed group or below it keeps its place there. -/
structure KeepsGroupsApart (params : RenameParams) (renamed : Renamed) : Prop where
  used : ∀ path, InUse params.occurrences path → InUse renamed.occurrences (renamed.place params path)
  apart : ∀ p q, InUse params.occurrences p → InUse params.occurrences q →
    renamed.place params p = renamed.place params q → p = q
  hosts : ∃ rehosted : Host → Host, renamed.updatedHosts = params.hosts.map rehosted ∧
    ∀ a ∈ params.hosts, ∀ b ∈ params.hosts,
      ((rehosted a).group.getD [] = (rehosted b).group.getD [] ↔ a.group.getD [] = b.group.getD [])
  below : ∀ parent child : JsString, Below params.renameTargetPath parent →
    renamed.place params (parent ++ slash :: child) = renamed.place params parent ++ slash :: child

/-- The ways a rename succeeds. -/
theorem applyGroupPathRename_eq_ok {params : RenameParams} {renamed : Renamed}
    (ok : applyGroupPathRename params = .ok renamed) :
    slash ∉ trim params.nextName ∧
    renamed.nextPath = computeRenamedGroupPath params.renameTargetPath (trim params.nextName) ∧
    renamed.nextPath ≠ params.renameTargetPath ∧
    renamed.updatedGroups = (params.customGroups.map (renamed.place params)).eraseDups ∧
    renamed.updatedHosts = params.hosts.map (updatedHost params.renameTargetPath renamed.nextPath) ∧
    renamed.updatedManagedSources = params.managedSources.map fun source =>
      { source with groupName := renamed.place params source.groupName } := by
  unfold applyGroupPathRename at ok
  dsimp only at ok
  split at ok
  · cases ok
  split at ok
  · cases ok
  rename_i plain
  split at ok
  · cases ok
  rename_i changed
  split at ok
  · cases ok
  cases ok
  refine ⟨fun mem => plain ?_, rfl, changed, rfl, rfl, rfl⟩
  exact List.any_eq_true.mpr ⟨slash, mem, by decide⟩

/-- **A rename keeps the groups apart** exactly when the group or its new path is not in use. -/
theorem rename_keeps_groups_apart_iff (params : RenameParams) (renamed : Renamed)
    (normalized : ∀ path ∈ params.occurrences, normalizeGroupTargetPath path = path)
    (ok : applyGroupPathRename params = .ok renamed) :
    KeepsGroupsApart params renamed ↔
      ¬ InUse params.occurrences params.renameTargetPath ∨ ¬ InUse params.occurrences renamed.nextPath := by
  obtain ⟨single, renames, changed, groups, hosts, sources⟩ := applyGroupPathRename_eq_ok ok
  have solid {path : JsString} (used : InUse params.occurrences path) : Solid path := by
    obtain ⟨occurrence, mem, below⟩ := used
    exact (solid_of_normalized (normalized occurrence mem)).above below
  constructor
  · intro keeps
    by_contra both
    rw [not_or, not_not, not_not] at both
    have outside : ¬ Below params.renameTargetPath renamed.nextPath := by
      rintro (same | inside)
      · exact changed same
      · obtain ⟨front, last, whole, -, named⟩ := computeRenamedGroupPath_eq (solid both.1) (trim params.nextName)
        rw [renames, named, whole, append_assoc, prefix_append_right_inj] at inside
        exact single (inside.subset (by simp))
    refine changed (keeps.apart _ _ both.1 both.2 ?_).symm
    have moved : renamed.place params params.renameTargetPath = renamed.nextPath := if_pos rfl
    exact moved.trans (movedPath_of_not_below outside).symm
  · intro free
    have apart := fun p q => movedPath_injective free (p := p) (q := q)
    have inPlace {occurrence : JsString} (mem : occurrence ∈ params.occurrences) :
        renamed.place params occurrence ∈ renamed.occurrences := by
      unfold Renamed.occurrences HostGroups.occurrences
      rw [groups, hosts, sources]
      rcases mem_append.mp mem with mem | mem
      · rcases mem_append.mp mem with mem | mem
        · exact mem_append_left _ (mem_append_left _ (mem_eraseDups.mpr (List.mem_map_of_mem mem)))
        · obtain ⟨host, held, rfl⟩ := List.mem_map.mp mem
          refine mem_append_left _ (mem_append_right _ (List.mem_map.mpr ?_))
          exact ⟨_, List.mem_map_of_mem held, group_updatedHost host⟩
      · obtain ⟨source, held, rfl⟩ := List.mem_map.mp mem
        exact mem_append_right _ (List.mem_map.mpr ⟨_, List.mem_map_of_mem held, rfl⟩)
    refine ⟨?_, apart, ⟨_, hosts, ?_⟩, ?_⟩
    · rintro path ⟨occurrence, mem, below⟩
      refine ⟨_, inPlace mem, ?_⟩
      by_cases inside : Below params.renameTargetPath path
      · obtain ⟨rest, rfl, starts⟩ := below_iff.mp inside
        obtain ⟨more, rfl, starts'⟩ := below_iff.mp below
        rw [append_assoc, Renamed.place, movedPath_append starts, movedPath_append (starts_append starts starts'),
          ← append_assoc]
        exact below_iff.mpr ⟨more, rfl, starts'⟩
      rw [Renamed.place, movedPath_of_not_below inside]
      by_cases moves : Below params.renameTargetPath occurrence
      · have above := (below.connected moves).resolve_right inside
        obtain ⟨rest, rfl, starts⟩ := below_iff.mp moves
        rw [movedPath_append starts]
        rcases above with same | above
        · exact absurd (.inl same.symm) inside
        · refine .inr (List.IsPrefix.trans ?_ (prefix_append _ _))
          exact renames ▸ below_computeRenamedGroupPath (solid ⟨_, mem, moves⟩) above
      · rwa [movedPath_of_not_below moves]
    · intro a memA b memB
      rw [group_updatedHost, group_updatedHost]
      have used {host : Host} (mem : host ∈ params.hosts) : InUse params.occurrences (host.group.getD []) :=
        ⟨_, mem_append_left _ (mem_append_right _ (List.mem_map_of_mem mem)), .inl rfl⟩
      exact ⟨apart _ _ (used memA) (used memB), congrArg _⟩
    · intro parent child below
      obtain ⟨rest, rfl, starts⟩ := below_iff.mp below
      have further : ∀ unit ∈ (rest ++ slash :: child).head?, unit = slash := starts_append starts (by simp)
      rw [append_assoc, Renamed.place, movedPath_append starts, movedPath_append further, append_assoc]

def listedGroup (managedSources : List ManagedSource) : RenameParams :=
  ⟨text "a", text "b", [text "a"], [], managedSources⟩

theorem rename_of_a_listed_group :
    KeepsGroupsApart (listedGroup []) ⟨text "b", [text "b"], [], []⟩ ↔
      ¬ InUse [text "a"] (text "a") ∨ ¬ InUse [text "a"] (text "b") :=
  rename_keeps_groups_apart_iff _ _ (by decide +kernel) (by decide +kernel)

/-- A managed source is in a group that is not listed; the rename puts the group `a` into it. -/
theorem rename_merges_groups : ¬ ∀ (params : RenameParams) (renamed : Renamed),
    (∀ path ∈ params.occurrences, normalizeGroupTargetPath path = path) →
    applyGroupPathRename params = .ok renamed → KeepsGroupsApart params renamed := by
  intro keeps
  have merged := keeps (listedGroup [⟨text "s", text "b"⟩]) ⟨text "b", [text "b"], [], [⟨text "s", text "b"⟩]⟩
    (by decide +kernel) (by decide +kernel)
  have same := merged.apart (text "a") (text "b") ⟨_, mem_cons_self, .inl rfl⟩
    ⟨text "b", mem_append_right _ mem_cons_self, .inl rfl⟩ (by decide +kernel)
  exact absurd same (by decide)

end Netcatty.HostGroups
