import Netcatty.ConvergentMaterialize

/-!
The nested settings object.

Setting leaves of paths none of which is a prefix of another never meets an
atomic parent, and every leaf is found at its path afterwards
(`setNestedSettings_ok`).  `selectMaterializedSettingEntries` selects such leaves,
and a leaf it passes over shares a structure conflict with a related one
(`selected_or_conflict`).
-/

namespace Netcatty

/-! ## Records -/

theorem getOwnRecordValue_setOwnRecordValue (record : JsonObject) (key other : JsString)
    (value : JsonValue) : getOwnRecordValue (setOwnRecordValue record key value) other =
      if other = key then some value else getOwnRecordValue record other := by
  induction record with
  | nil => simp [setOwnRecordValue, getOwnRecordValue, SortedMap.lookupEntry]
  | cons entry rest ih =>
    obtain ⟨k, v⟩ := entry
    simp only [getOwnRecordValue] at ih
    simp only [setOwnRecordValue]
    split
    · rename_i same
      subst same
      simp only [getOwnRecordValue, SortedMap.lookupEntry]
      split <;> rfl
    · rename_i different
      simp only [getOwnRecordValue, SortedMap.lookupEntry, ih]
      by_cases same : other = k
      · simp [same, different]
      · simp [same]

/-! ## Nested objects -/

def nestedValue : JsonObject → List JsString → Option JsonValue
  | _, [] => none
  | root, [last] => getOwnRecordValue root last
  | root, segment :: next :: rest =>
    match getOwnRecordValue root segment with
    | some (.obj nested) => nestedValue nested (next :: rest)
    | _ => none

/-- No proper prefix of the path holds an atomic value. -/
def Walkable : JsonObject → List JsString → Prop
  | _, [] => True
  | _, [_] => True
  | root, segment :: next :: rest =>
    match getOwnRecordValue root segment with
    | none => True
    | some (.obj nested) => Walkable nested (next :: rest)
    | some _ => False

theorem nestedValue_nil (path : List JsString) : nestedValue [] path = none := by
  match path with
  | [] => rfl
  | [_] => rfl
  | _ :: _ :: _ => rfl

theorem walkable_nil (path : List JsString) : Walkable [] path := by
  match path with
  | [] => trivial
  | [_] => trivial
  | _ :: _ :: _ => trivial

def Unrelated (path other : List JsString) : Prop := ¬path <+: other ∧ ¬other <+: path

theorem Unrelated.symm {path other : List JsString} (unrelated : Unrelated path other) :
    Unrelated other path := ⟨unrelated.2, unrelated.1⟩

theorem settingPathsOverlap_eq_false {path other : List JsString} :
    settingPathsOverlap path other = false ↔ Unrelated path other := by
  simp [settingPathsOverlap, settingPathIsPrefix, Unrelated, List.isPrefixOf_iff_prefix,
    ← Bool.not_eq_true]

/-- What `setNestedFrom` leaves at the first segment of a longer path. -/
theorem walk_set (root nested : JsonObject) {segment : JsString} {q : List JsString}
    (other : ∀ rest, q = segment :: rest → rest ≠ []) :
    (∀ rest, q = segment :: rest → rest ≠ [] →
      nestedValue (setOwnRecordValue root segment (.obj nested)) q = nestedValue nested rest ∧
      (Walkable (setOwnRecordValue root segment (.obj nested)) q ↔ Walkable nested rest)) ∧
    ((∀ rest, q ≠ segment :: rest) →
      nestedValue (setOwnRecordValue root segment (.obj nested)) q = nestedValue root q ∧
      (Walkable (setOwnRecordValue root segment (.obj nested)) q ↔ Walkable root q)) := by
  constructor
  · rintro rest rfl long
    cases rest with
    | nil => exact absurd rfl long
    | cons next rest =>
      simp only [nestedValue, Walkable, getOwnRecordValue_setOwnRecordValue, if_true, and_self]
  · intro different
    match q, different with
    | [], _ => exact ⟨rfl, Iff.rfl⟩
    | [last], different =>
      have ne : last ≠ segment := fun same => different [] (by rw [same])
      simp only [nestedValue, Walkable, getOwnRecordValue_setOwnRecordValue, if_neg ne, and_self]
    | first :: next :: rest, different =>
      have ne : first ≠ segment := fun same => different (next :: rest) (by rw [same])
      simp only [nestedValue, Walkable, getOwnRecordValue_setOwnRecordValue, if_neg ne, and_self]

theorem setNestedFrom_ok (whole : List JsString) (value : JsonValue) {path : List JsString}
    {root : JsonObject} (nonEmpty : path ≠ []) (walkable : Walkable root path) :
    ∃ root', setNestedFrom whole value path root = .ok root' ∧ nestedValue root' path = some value ∧
      ∀ other, Unrelated path other → nestedValue root' other = nestedValue root other ∧
        (Walkable root other → Walkable root' other) := by
  induction path generalizing root with
  | nil => exact absurd rfl nonEmpty
  | cons segment rest ih =>
    cases rest with
    | nil =>
      refine ⟨setOwnRecordValue root segment value, rfl, ?_, fun other unrelated => ?_⟩
      · simp [nestedValue, getOwnRecordValue_setOwnRecordValue]
      · match other, unrelated with
        | [], _ => exact ⟨rfl, id⟩
        | first :: rest, unrelated =>
          have ne : first ≠ segment := fun same => unrelated.1 ⟨rest, by rw [same]; rfl⟩
          cases rest <;>
            simp [nestedValue, Walkable, getOwnRecordValue_setOwnRecordValue, ne]
    | cons next rest =>
      -- The nested object: a new one or the existing one.
      obtain ⟨nested, found, inner⟩ : ∃ nested : JsonObject, Walkable nested (next :: rest) ∧
          (setNestedFrom whole value (segment :: next :: rest) root =
            (setNestedFrom whole value (next :: rest) nested >>= fun nested =>
              .ok (setOwnRecordValue root segment (.obj nested)))) ∧
          ∀ q, q ≠ [] → nestedValue root (segment :: q) = nestedValue nested q ∧
            (Walkable root (segment :: q) → Walkable nested q) := by
        simp only [Walkable] at walkable
        simp only [setNestedFrom]
        cases stored : getOwnRecordValue root segment with
        | none =>
          refine ⟨[], walkable_nil _, rfl, fun q long => ?_⟩
          cases q with
          | nil => exact absurd rfl long
          | cons first q =>
            simp only [nestedValue, Walkable, stored, nestedValue_nil, walkable_nil, implies_true,
              and_self]
        | some existing =>
          cases existing with
          | obj existing =>
            simp only [stored] at walkable
            refine ⟨existing, walkable, rfl, fun q long => ?_⟩
            cases q with
            | nil => exact absurd rfl long
            | cons first q => simp only [nestedValue, Walkable, stored, imp_self, and_self]
          | _ => simp [stored] at walkable
      obtain ⟨ran, below⟩ := inner
      obtain ⟨nested', ran', value', others⟩ := ih (List.cons_ne_nil _ _) found
      refine ⟨setOwnRecordValue root segment (.obj nested'), ?_, ?_, fun other unrelated => ?_⟩
      · rw [ran, ran', ok_bind]
      · simp only [nestedValue, getOwnRecordValue_setOwnRecordValue, if_true]
        exact value'
      · have long : ∀ q, other = segment :: q → q ≠ [] := by
          rintro q rfl rfl
          exact unrelated.2 ⟨next :: rest, rfl⟩
        obtain ⟨inside, outside⟩ := walk_set root nested' long
        by_cases shared : ∃ q, other = segment :: q
        · obtain ⟨q, rfl⟩ := shared
          obtain ⟨sameValue, sameWalk⟩ := inside q rfl (long q rfl)
          obtain ⟨rootValue, rootWalk⟩ := below q (long q rfl)
          obtain ⟨kept, keptWalk⟩ := others q ⟨fun pre => unrelated.1 (by simpa using pre),
            fun pre => unrelated.2 (by simpa using pre)⟩
          exact ⟨sameValue.trans (kept.trans rootValue.symm),
            fun walk => sameWalk.mpr (keptWalk (rootWalk walk))⟩
        · push Not at shared
          obtain ⟨sameValue, sameWalk⟩ := outside shared
          exact ⟨sameValue, sameWalk.mpr⟩

theorem setNestedSettings_ok {entries : List ActiveSettingEntry} (root : JsonObject)
    (nonEmpty : ∀ e ∈ entries, e.path ≠ [])
    (unrelated : entries.Pairwise fun e e' => Unrelated e.path e'.path)
    (walkable : ∀ e ∈ entries, Walkable root e.path) :
    ∃ settings, entries.foldlM (fun settings entry => setNestedSetting settings entry.path entry.value)
        root = .ok settings ∧
      (∀ e ∈ entries, nestedValue settings e.path = some e.value) ∧
      ∀ other, (∀ e ∈ entries, Unrelated e.path other) →
        nestedValue settings other = nestedValue root other := by
  induction entries generalizing root with
  | nil => exact ⟨root, rfl, by simp, fun _ _ => rfl⟩
  | cons entry entries ih =>
    obtain ⟨head, tail⟩ := List.pairwise_cons.mp unrelated
    obtain ⟨root', ran, stored, others⟩ := setNestedFrom_ok entry.path entry.value
      (nonEmpty entry List.mem_cons_self) (walkable entry List.mem_cons_self)
    obtain ⟨settings, rest, values, kept⟩ := ih root'
      (fun e mem => nonEmpty e (List.mem_cons_of_mem _ mem)) tail
      fun e mem => (others e.path (head e mem)).2 (walkable e (List.mem_cons_of_mem _ mem))
    refine ⟨settings, ?_, fun e mem => ?_, fun other apart => ?_⟩
    · rw [List.foldlM_cons, setNestedSetting, ran, ok_bind, rest]
    · rcases List.mem_cons.mp mem with rfl | mem
      · rw [kept e.path fun e' mem' => (head e' mem').symm, stored]
      · exact values e mem
    · rw [kept other fun e mem => apart e (List.mem_cons_of_mem _ mem),
        (others other (apart entry List.mem_cons_self)).1]

/-! ## Ancestors -/

theorem mem_properAncestors {path : List JsString} {key : JsString} : key ∈ properAncestors path ↔
      ∃ other, other ≠ [] ∧ other <+: path ∧ other ≠ path ∧ key = settingKey other := by
  simp only [properAncestors, List.mem_map, List.mem_range'_1]
  constructor
  · rintro ⟨length, ⟨low, high⟩, rfl⟩
    have size : (path.take length).length = length := by
      rw [List.length_take]
      omega
    refine ⟨path.take length, ?_, List.take_prefix _ _, ?_, rfl⟩
    · exact List.ne_nil_of_length_pos (by omega)
    · intro same
      rw [same] at size
      omega
  · rintro ⟨other, nonEmpty, ⟨rest, rfl⟩, proper, rfl⟩
    have long := List.length_pos_of_ne_nil nonEmpty
    have more : 0 < rest.length := List.length_pos_of_ne_nil fun nil => proper (by simp [nil])
    exact ⟨other.length, ⟨long, by rw [List.length_append]; omega⟩, by simp⟩

theorem properAncestors_append {path rest : List JsString} (nonEmpty : path ≠ []) (proper : rest ≠ []) :
    ∃ deeper, properAncestors (path ++ rest) = properAncestors path ++ settingKey path :: deeper := by
  have long := List.length_pos_of_ne_nil nonEmpty
  have more := List.length_pos_of_ne_nil proper
  have lengths : List.range' 1 ((path ++ rest).length - 1) =
      List.range' 1 (path.length - 1) ++ path.length :: List.range' (path.length + 1) (rest.length - 1) := by
    rw [List.length_append, show path.length + rest.length - 1 = (path.length - 1) + rest.length by omega,
      ← List.range'_append_1, show 1 + (path.length - 1) = path.length by omega,
      show rest.length = rest.length - 1 + 1 by omega, List.range'_succ]
    simp
  refine ⟨(List.range' (path.length + 1) (rest.length - 1)).map fun length =>
    settingKey ((path ++ rest).take length), ?_⟩
  rw [properAncestors, lengths, List.map_append, List.map_cons, List.take_left']
  · congr 1
    refine List.map_congr_left fun length mem => ?_
    rw [List.mem_range'_1] at mem
    rw [List.take_append_of_le_length (by omega)]
  · rfl

/-! ## Active leaves -/

/-- What the loop of `materializeSettings` collects: one entry for an active leaf. -/
structure ActiveEntries (entries : List ActiveSettingEntry) : Prop where
  valid : ∀ e ∈ entries, ValidSettingPath e.path ∧ e.encodedPath = settingKey e.path
  distinct : (entries.map ActiveSettingEntry.encodedPath).Nodup

section Active

variable {entries : List ActiveSettingEntry} (active : ActiveEntries entries)
include active

variable {e e' : ActiveSettingEntry}

theorem ActiveEntries.eq_of_key (mem : e ∈ entries) (mem' : e' ∈ entries)
    (same : e.encodedPath = e'.encodedPath) : e = e' :=
  List.inj_on_of_nodup_map active.distinct mem mem' same

/-- A key among the ancestors of an entry belongs to a proper prefix. -/
theorem ActiveEntries.mem_ancestors (mem : e ∈ entries) : e.encodedPath ∈ properAncestors e'.path ↔
      e.path <+: e'.path ∧ e.path ≠ e'.path := by
  obtain ⟨valid, key⟩ := active.valid e mem
  rw [mem_properAncestors, key]
  constructor
  · rintro ⟨other, _, pre, proper, same⟩
    obtain rfl := (settingKey_inj valid).mp same.symm
    exact ⟨pre, proper⟩
  · rintro ⟨pre, proper⟩
    exact ⟨e.path, valid.1, pre, proper, rfl⟩

theorem ActiveEntries.unrelated_iff (mem : e ∈ entries)
    (mem' : e' ∈ entries) (different : e ≠ e') : Unrelated e.path e'.path ↔
      e.encodedPath ∉ properAncestors e'.path ∧ e'.encodedPath ∉ properAncestors e.path := by
  have paths : e.path ≠ e'.path := fun same => different (active.eq_of_key mem mem' (by
    rw [(active.valid e mem).2, (active.valid e' mem').2, same]))
  rw [active.mem_ancestors mem, active.mem_ancestors mem', Unrelated]
  simp [paths, paths.symm]

end Active

/-! ## Selection -/

/-- The order of the selection: the greater winner first, then the smaller path. -/
def settingPriority (entry : ActiveSettingEntry) :
    (Bool ×ₗ HybridLogicalClock ×ₗ Dot)ᵒᵈ ×ₗ JsString :=
  toLex (OrderDual.toDual (candidateRank entry.winner), entry.encodedPath)

theorem compareRegisterCandidates_eq_iff {left right : RegisterCandidate} :
    compareRegisterCandidates left right = .eq ↔ candidateRank left = candidateRank right := by
  simp only [compareRegisterCandidates, candidateRank, compareHybridLogicalClocks, compareDots,
    EmbeddingLike.apply_eq_iff_eq, Prod.mk.injEq]
  cases isTombstoneCandidate left <;> cases isTombstoneCandidate right <;>
    simp [Ordering.then_eq_eq, compare_eq_iff_eq]

theorem settingPriority_le_iff {left right : ActiveSettingEntry} :
    settingPriority left ≤ settingPriority right ↔
      compareRegisterCandidates left.winner right.winner = .gt ∨
        compareRegisterCandidates left.winner right.winner = .eq ∧ left.encodedPath ≤ right.encodedPath := by
  rw [settingPriority, settingPriority, Prod.Lex.toLex_le_toLex, compareRegisterCandidates_gt_iff,
    compareRegisterCandidates_eq_iff]
  exact Iff.rfl

theorem compareStrings_eq_gt {left right : JsString} : compareStrings left right = .gt ↔ right < left := by
  unfold compareStrings
  induction left generalizing right with
  | nil => cases right <;> simp
  | cons u left ih =>
    cases right with
    | nil => simp
    | cons v right =>
      have units : compare u v = .gt ↔ v < u := compare_gt_iff_gt
      have same : compare u v = .eq ↔ u = v := compare_eq_iff_eq
      rw [List.compare_cons_cons, Ordering.then_eq_gt, ih, units, same, List.cons_lt_cons_iff, eq_comm]

theorem compareSettingPriority_ne_gt {left right : ActiveSettingEntry} :
    compareSettingPriority left right ≠ .gt ↔ settingPriority left ≤ settingPriority right := by
  rw [compareSettingPriority, ne_eq, Ordering.then_eq_gt, compareRegisterCandidates_gt_iff,
    compareRegisterCandidates_eq_iff, compareStrings_eq_gt, settingPriority_le_iff,
    compareRegisterCandidates_gt_iff, compareRegisterCandidates_eq_iff]
  rcases lt_trichotomy (candidateRank left.winner) (candidateRank right.winner) with less | same | more
  · simp [less, less.not_gt, less.ne, less.ne']
  · simp [same]
  · simp [more, more.not_gt, more.ne, more.ne']

/-- What the loop of `selectMaterializedSettingEntries` keeps. -/
private structure Selecting (done : List ActiveSettingEntry) (selected : List JsString × List JsString) :
    Prop where
  paths : ∀ key ∈ selected.1, ∃ e ∈ done, e.encodedPath = key
  prefixes : ∀ key, key ∈ selected.2 ↔
    ∃ e ∈ done, e.encodedPath ∈ selected.1 ∧ key ∈ properAncestors e.path
  antichain : ∀ e ∈ done, ∀ e' ∈ done, e.encodedPath ∈ selected.1 → e'.encodedPath ∈ selected.1 →
    e.encodedPath ∉ properAncestors e'.path
  maximal : ∀ e ∈ done, e.encodedPath ∉ selected.1 → ∃ e' ∈ done, e'.encodedPath ∈ selected.1 ∧
    (e'.encodedPath ∈ properAncestors e.path ∨ e.encodedPath ∈ properAncestors e'.path) ∧
    settingPriority e' ≤ settingPriority e

theorem selectSettingEntry_selecting {done : List ActiveSettingEntry}
    {selected : List JsString × List JsString} {entry : ActiveSettingEntry}
    (active : ActiveEntries (done ++ [entry]))
    (earlier : ∀ e ∈ done, settingPriority e ≤ settingPriority entry) (inv : Selecting done selected) :
    Selecting (done ++ [entry]) (selectSettingEntry selected entry) := by
  have isNew : ∀ e ∈ done, e.encodedPath ≠ entry.encodedPath := by
    intro e mem same
    have nodup := active.distinct
    rw [List.map_append, List.nodup_append] at nodup
    exact nodup.2.2 _ (List.mem_map_of_mem mem) _ (List.mem_singleton.mpr rfl) same
  have unselected : entry.encodedPath ∉ selected.1 := fun mem => by
    obtain ⟨e, inDone, same⟩ := inv.paths _ mem
    exact isNew e inDone same
  have members : ∀ e, e ∈ done ++ [entry] ↔ e ∈ done ∨ e = entry := by simp
  have self : entry.encodedPath ∉ properAncestors entry.path := fun mem =>
    ((active.mem_ancestors ((members _).mpr (Or.inr rfl))).mp mem).2 rfl
  unfold selectSettingEntry
  by_cases skip : ((properAncestors entry.path).any fun ancestor => ancestor ∈ selected.1) ||
      entry.encodedPath ∈ selected.2
  · rw [if_pos skip]
    refine ⟨fun key mem => ?_, fun key => ?_, fun e mem e' mem' inPaths inPaths' => ?_,
      fun e mem out => ?_⟩
    · obtain ⟨e, inDone, same⟩ := inv.paths key mem
      exact ⟨e, (members e).mpr (Or.inl inDone), same⟩
    · rw [inv.prefixes]
      constructor
      · rintro ⟨e, inDone, rest⟩
        exact ⟨e, (members e).mpr (Or.inl inDone), rest⟩
      · rintro ⟨e, mem, inPaths, rest⟩
        rcases (members e).mp mem with inDone | rfl
        · exact ⟨e, inDone, inPaths, rest⟩
        · exact absurd inPaths unselected
    · rcases (members e).mp mem with inDone | rfl
      · rcases (members e').mp mem' with inDone' | rfl
        · exact inv.antichain e inDone e' inDone' inPaths inPaths'
        · exact absurd inPaths' unselected
      · exact absurd inPaths unselected
    · rcases (members e).mp mem with inDone | rfl
      · obtain ⟨e', inDone', rest⟩ := inv.maximal e inDone out
        exact ⟨e', (members e').mpr (Or.inl inDone'), rest⟩
      · simp only [Bool.or_eq_true, List.any_eq_true, decide_eq_true_eq] at skip
        rcases skip with ⟨ancestor, inAncestors, inPaths⟩ | inPrefixes
        · obtain ⟨e', inDone, rfl⟩ := inv.paths ancestor inPaths
          exact ⟨e', (members e').mpr (Or.inl inDone), inPaths, Or.inl inAncestors, earlier e' inDone⟩
        · obtain ⟨e', inDone, inPaths, inAncestors⟩ := (inv.prefixes _).mp inPrefixes
          exact ⟨e', (members e').mpr (Or.inl inDone), inPaths, Or.inr inAncestors, earlier e' inDone⟩
  · rw [if_neg skip]
    simp only [Bool.or_eq_true, List.any_eq_true, decide_eq_true_eq, not_or, not_exists, not_and] at skip
    obtain ⟨noAncestor, noDescendant⟩ := skip
    have old : ∀ e ∈ done, (e.encodedPath ∈ entry.encodedPath :: selected.1 ↔
        e.encodedPath ∈ selected.1) := fun e mem => by
      simp [List.mem_cons, isNew e mem]
    refine ⟨fun key mem => ?_, fun key => ?_, fun e mem e' mem' inPaths inPaths' => ?_,
      fun e mem out => ?_⟩
    · rcases List.mem_cons.mp mem with rfl | mem
      · exact ⟨entry, (members entry).mpr (Or.inr rfl), rfl⟩
      · obtain ⟨e, inDone, same⟩ := inv.paths key mem
        exact ⟨e, (members e).mpr (Or.inl inDone), same⟩
    · rw [List.mem_append, inv.prefixes]
      constructor
      · rintro (inAncestors | ⟨e, inDone, inPaths, rest⟩)
        · exact ⟨entry, (members entry).mpr (Or.inr rfl), List.mem_cons_self, inAncestors⟩
        · exact ⟨e, (members e).mpr (Or.inl inDone), List.mem_cons_of_mem _ inPaths, rest⟩
      · rintro ⟨e, mem, inPaths, rest⟩
        rcases (members e).mp mem with inDone | rfl
        · exact Or.inr ⟨e, inDone, (old e inDone).mp inPaths, rest⟩
        · exact Or.inl rest
    · rcases (members e).mp mem with inDone | rfl
      · rcases (members e').mp mem' with inDone' | rfl
        · exact inv.antichain e inDone e' inDone' ((old e inDone).mp inPaths)
            ((old e' inDone').mp inPaths')
        · exact fun above => noAncestor _ above ((old e inDone).mp inPaths)
      · rcases (members e').mp mem' with inDone' | rfl
        · exact fun above => noDescendant ((inv.prefixes _).mpr
            ⟨e', inDone', (old e' inDone').mp inPaths', above⟩)
        · exact self
    · rcases (members e).mp mem with inDone | rfl
      · obtain ⟨e', inDone', inPaths, rest⟩ := inv.maximal e inDone fun inPaths =>
          out ((old e inDone).mpr inPaths)
        exact ⟨e', (members e').mpr (Or.inl inDone'), List.mem_cons_of_mem _ inPaths, rest⟩
      · exact absurd List.mem_cons_self out

theorem foldl_selecting {done rest : List ActiveSettingEntry}
    {selected : List JsString × List JsString} (active : ActiveEntries (done ++ rest))
    (sorted : (done ++ rest).Pairwise fun e e' => settingPriority e ≤ settingPriority e')
    (inv : Selecting done selected) :
    Selecting (done ++ rest) (rest.foldl selectSettingEntry selected) := by
  induction rest generalizing done selected with
  | nil => simpa using inv
  | cons entry rest ih =>
    have split : done ++ entry :: rest = done ++ [entry] ++ rest := by simp
    have earlier : ∀ e ∈ done, settingPriority e ≤ settingPriority entry := fun e mem =>
      (List.pairwise_append.mp sorted).2.2 e mem entry List.mem_cons_self
    rw [split] at active sorted ⊢
    refine ih active sorted (selectSettingEntry_selecting ⟨fun e mem => active.valid e
      (List.mem_append_left _ mem), ?_⟩ earlier inv)
    have distinct := active.distinct
    rw [List.map_append, List.nodup_append] at distinct
    exact distinct.1

section Selection

variable {entries : List ActiveSettingEntry} (active : ActiveEntries entries)
include active

omit active in
theorem prioritized_sorted (entries : List ActiveSettingEntry) :
    (entries.insertionSort fun left right => compareSettingPriority left right ≠ .gt).Pairwise
      fun e e' => settingPriority e ≤ settingPriority e' := by
  have total : Std.Total fun left right : ActiveSettingEntry => compareSettingPriority left right ≠ .gt :=
    ⟨fun left right => by
      rw [compareSettingPriority_ne_gt, compareSettingPriority_ne_gt]
      exact le_total _ _⟩
  have trans : IsTrans ActiveSettingEntry fun left right => compareSettingPriority left right ≠ .gt :=
    ⟨fun first second third before before' => by
      rw [compareSettingPriority_ne_gt] at before before' ⊢
      exact before.trans before'⟩
  exact (List.pairwise_insertionSort _ entries).imp compareSettingPriority_ne_gt.mp

theorem selecting_selected : ∃ done prefixes, done.Perm entries ∧
      Selecting done (selectMaterializedSettingEntries entries, prefixes) := by
  have perm := List.perm_insertionSort (fun left right => compareSettingPriority left right ≠ .gt) entries
  have sorted : ActiveEntries ([] ++ entries.insertionSort fun left right =>
      compareSettingPriority left right ≠ .gt) :=
    ⟨fun e mem => active.valid e (perm.mem_iff.mp mem), (perm.map _).nodup_iff.mpr active.distinct⟩
  exact ⟨_, _, perm, foldl_selecting sorted (prioritized_sorted entries)
    (show Selecting [] ([], []) from ⟨by simp, by simp, by simp, by simp⟩)⟩

/-- Selected leaves are unrelated, and every other leaf is related to a selected one that goes
before it. -/
theorem selectMaterializedSettingEntries_spec :
    (∀ e ∈ entries, ∀ e' ∈ entries, e.encodedPath ∈ selectMaterializedSettingEntries entries →
      e'.encodedPath ∈ selectMaterializedSettingEntries entries → e ≠ e' →
      Unrelated e.path e'.path) ∧
    ∀ e ∈ entries, e.encodedPath ∉ selectMaterializedSettingEntries entries →
      ∃ e' ∈ entries, e'.encodedPath ∈ selectMaterializedSettingEntries entries ∧ e' ≠ e ∧
        ¬Unrelated e.path e'.path ∧ settingPriority e' ≤ settingPriority e := by
  obtain ⟨done, prefixes, perm, inv⟩ := selecting_selected active
  refine ⟨fun e mem e' mem' selected selected' different => ?_, fun e mem out => ?_⟩
  · rw [active.unrelated_iff mem mem' different]
    exact ⟨inv.antichain e (perm.mem_iff.mpr mem) e' (perm.mem_iff.mpr mem') selected selected',
      inv.antichain e' (perm.mem_iff.mpr mem') e (perm.mem_iff.mpr mem) selected' selected⟩
  · obtain ⟨e', mem', selected, related, before⟩ := inv.maximal e (perm.mem_iff.mpr mem) out
    have inEntries := perm.mem_iff.mp mem'
    have different : e' ≠ e := fun same => out (same ▸ selected)
    refine ⟨e', inEntries, selected, different, fun unrelated => ?_, before⟩
    obtain ⟨below, above⟩ := (active.unrelated_iff mem inEntries different.symm).mp unrelated
    exact related.elim above below

/-! ## Structure conflicts -/

variable {e e' : ActiveSettingEntry}

theorem settingRootPath_eq (mem : e ∈ entries)
    (pre : e.path <+: e'.path) (proper : e.path ≠ e'.path) :
    settingRootPath entries e' = settingRootPath entries e := by
  obtain ⟨valid, key⟩ := active.valid e mem
  obtain ⟨rest, extended⟩ := pre
  have more : rest ≠ [] := fun nil => proper (by rw [← extended, nil, List.append_nil])
  obtain ⟨deeper, ancestors⟩ := properAncestors_append valid.1 more
  have isActive : (entries.any fun other => other.encodedPath = settingKey e.path) = true :=
    List.any_eq_true.mpr ⟨e, mem, by simp [key]⟩
  rw [settingRootPath, settingRootPath, ← extended, ancestors, List.find?_append]
  cases (properAncestors e.path).find? fun ancestor =>
      entries.any fun other => other.encodedPath = ancestor with
  | some ancestor => rfl
  | none => simp [isActive, key]

theorem exists_related_of_sameRoot (mem : e ∈ entries) (mem' : e' ∈ entries)
    (different : e' ≠ e) (sameRoot : settingRootPath entries e' = settingRootPath entries e) :
    ∃ other ∈ entries, other.path ≠ e.path ∧ ¬Unrelated e.path other.path := by
  cases found : (properAncestors e.path).find? fun ancestor =>
      entries.any fun other => other.encodedPath = ancestor with
  | some ancestor =>
    -- The root is an ancestor.
    have isActive := (List.find?_eq_some_iff_append.mp found).1
    obtain ⟨other, inEntries, same⟩ := List.any_eq_true.mp isActive
    rw [decide_eq_true_eq] at same
    have isAncestor := List.mem_of_find?_eq_some found
    rw [← same, active.mem_ancestors inEntries] at isAncestor
    exact ⟨other, inEntries, isAncestor.2, fun unrelated => unrelated.2 isAncestor.1⟩
  | none =>
    -- The leaf is the root, and an ancestor of the other leaf.
    have root : settingRootPath entries e = e.encodedPath := by
      rw [settingRootPath, found, Option.getD_none]
    rw [root, settingRootPath] at sameRoot
    cases found' : (properAncestors e'.path).find? fun ancestor =>
        entries.any fun other => other.encodedPath = ancestor with
    | none =>
      rw [found', Option.getD_none] at sameRoot
      exact absurd (active.eq_of_key mem' mem sameRoot) different
    | some ancestor =>
      rw [found', Option.getD_some] at sameRoot
      have isAncestor := List.mem_of_find?_eq_some found'
      rw [sameRoot, active.mem_ancestors mem] at isAncestor
      exact ⟨e', mem', isAncestor.2.symm, fun unrelated => unrelated.1 isAncestor.1⟩

omit active in
theorem get?_settingGroups (root : JsString) : (settingGroups entries).get? root =
    match entries.filter fun e => settingRootPath entries e = root with
    | [] => none
    | group => some group := by
  have fold : ∀ (rest : List ActiveSettingEntry) (groups : SortedMap JsString (List ActiveSettingEntry)),
      (rest.foldl (fun groups entry =>
        groups.set (settingRootPath entries entry)
          ((groups.get? (settingRootPath entries entry)).getD [] ++ [entry])) groups).get? root =
      match rest.filter fun e => settingRootPath entries e = root with
      | [] => groups.get? root
      | group => some ((groups.get? root).getD [] ++ group) := by
    intro rest
    induction rest with
    | nil => intro groups; rfl
    | cons entry rest ih =>
      intro groups
      rw [List.foldl_cons, ih, SortedMap.get?_set]
      by_cases same : settingRootPath entries entry = root
      · subst same
        rw [List.filter_cons_of_pos (by simp)]
        cases rest.filter fun e => settingRootPath entries e = settingRootPath entries entry <;> simp
      · rw [List.filter_cons_of_neg (by simpa using same)]
        simp [Ne.symm same]
  rw [settingGroups, fold]
  cases entries.filter fun e => settingRootPath entries e = root <;> simp

/-- **Related leaves share a structure conflict**, which lists all candidates of each with its
path. -/
theorem exists_structureConflict_of_related (mem : e ∈ entries)
    (mem' : e' ∈ entries) (different : e' ≠ e) (related : ¬Unrelated e.path e'.path) :
    ∃ conflict ∈ recordSettingStructureConflicts entries (selectMaterializedSettingEntries entries),
      ∃ paths, conflict.address = .settingStructure paths ∧ e.path ∈ paths ∧ e'.path ∈ paths ∧
      ∀ c ∈ e.register.candidates, ∃ listed ∈ conflict.candidates,
        listed.dot = c.dot ∧ listed.value = c.value ∧ listed.settingPath = some e.path := by
  have paths : e.path ≠ e'.path := fun same => different (active.eq_of_key mem' mem (by
    rw [(active.valid e' mem').2, (active.valid e mem).2, same]))
  have sameRoot : settingRootPath entries e' = settingRootPath entries e := by
    rw [Unrelated, not_and_or, not_not, not_not] at related
    rcases related with pre | pre
    · exact settingRootPath_eq active mem pre paths
    · exact (settingRootPath_eq active mem' pre paths.symm).symm
  set group := entries.filter fun other => settingRootPath entries other = settingRootPath entries e
    with groupDef
  have inGroup : e ∈ group := List.mem_filter.mpr ⟨mem, by simp⟩
  have inGroup' : e' ∈ group := List.mem_filter.mpr ⟨mem', by simpa using sameRoot⟩
  have stored : (settingGroups entries).get? (settingRootPath entries e) = some group := by
    rw [get?_settingGroups, ← groupDef]
    cases shape : group with
    | nil => rw [shape] at inGroup; cases inGroup
    | cons first rest => rfl
  have two : ¬group.length < 2 := by
    match group, inGroup, inGroup' with
    | [only], inGroup, inGroup' =>
      rw [List.mem_singleton] at inGroup inGroup'
      exact absurd (inGroup'.trans inGroup.symm) different
    | _ :: _ :: _, _, _ => simp
  set sorted := group.insertionSort fun left right => left.encodedPath ≤ right.encodedPath with sortedDef
  have inSorted : e ∈ sorted := (List.mem_insertionSort _).mpr inGroup
  have inSorted' : e' ∈ sorted := (List.mem_insertionSort _).mpr inGroup'
  obtain ⟨conflict, made, address, candidates⟩ : ∃ conflict,
      settingStructureConflict (selectMaterializedSettingEntries entries) group = [conflict] ∧
      conflict.address = .settingStructure (sorted.map ActiveSettingEntry.path) ∧
      conflict.candidates = sorted.flatMap fun entry =>
        (candidatesByDot entry.register).map fun candidate => conflictCandidate candidate
          (if entry.encodedPath ∈ selectMaterializedSettingEntries entries
            then dotKey entry.winner.dot else []) (some entry.path) := by
    rw [settingStructureConflict, if_neg two]
    exact ⟨_, rfl, rfl, rfl⟩
  refine ⟨conflict, List.mem_flatMap.mpr ⟨_, SortedMap.mem_entries.mpr stored, ?_⟩, _, address,
    List.mem_map_of_mem inSorted, List.mem_map_of_mem inSorted', fun c inRegister => ?_⟩
  · rw [made]
    exact List.mem_singleton.mpr rfl
  · rw [candidates]
    exact ⟨_, List.mem_flatMap.mpr ⟨e, inSorted, List.mem_map_of_mem
      ((List.mem_insertionSort _).mpr inRegister)⟩, rfl, rfl, rfl⟩

theorem exists_structureConflict {e : ActiveSettingEntry} (mem : e ∈ entries)
    (out : e.encodedPath ∉ selectMaterializedSettingEntries entries) :
    ∃ conflict ∈ recordSettingStructureConflicts entries (selectMaterializedSettingEntries entries),
      ∃ paths, conflict.address = .settingStructure paths ∧ e.path ∈ paths ∧
      ∀ c ∈ e.register.candidates, ∃ listed ∈ conflict.candidates,
        listed.dot = c.dot ∧ listed.value = c.value ∧ listed.settingPath = some e.path := by
  obtain ⟨e', mem', _, different, related, _⟩ := (selectMaterializedSettingEntries_spec active).2 e mem out
  obtain ⟨conflict, recorded, paths, address, inPaths, -, listed⟩ :=
    exists_structureConflict_of_related active mem mem' different related
  exact ⟨conflict, recorded, paths, address, inPaths, listed⟩

end Selection

end Netcatty
