import Mathlib.Data.List.Induction
import Mathlib.Data.List.Sort
import Mathlib.Data.Prod.Lex
import Netcatty.PluginSidecars

/-!
When two devices end up with the same plugin records.

A merge is what becomes of every key (`arranged_merge`).  Two devices that merge the same pair agree,
and stay as they are, if and only if records with the same stamp print alike or are settings that both
have a value (`converges_iff`): of two baselines with the same stamp each device keeps its own.
-/

namespace Netcatty.PluginSync

open List Option

/-! ## Keys -/

/-- A record as it is written to a payload. -/
structure PrintedEntry where
  pluginId : JsString
  kind : JsString
  key : JsString
  valueText : Option JsString
  updatedAt : ℚ
  deriving DecidableEq

def PrintedEntry.mapKey (entry : PrintedEntry) : JsString :=
  entry.pluginId ++ nul :: (entry.kind ++ nul :: entry.key)

/-- Where a record is listed. -/
def PrintedEntry.place (entry : PrintedEntry) : JsString ×ₗ JsString ×ₗ JsString :=
  toLex (entry.pluginId, toLex (entry.kind, entry.key))

variable (numberText : ℚ → JsString)

def PluginSyncSidecarEntry.printed (entry : PluginSyncSidecarEntry) : PrintedEntry :=
  ⟨entry.pluginId, entry.kind, entry.key, entry.valueText numberText, entry.updatedAt⟩

theorem keyOf_eq (entry : PluginSyncSidecarEntry) :
    keyOf entry = (entry.printed numberText).mapKey := rfl

theorem nul_not_mem_kind {kind : JsString} (known : kind ∈ SIDECAR_KINDS) : nul ∉ kind := by
  have none_ : ∀ kind ∈ SIDECAR_KINDS, nul ∉ kind := by decide
  exact none_ kind known

theorem keyOf_injective {a b : PluginSyncSidecarEntry} (known : a.kind ∈ SIDECAR_KINDS) (known' : b.kind ∈ SIDECAR_KINDS)
    (same : keyOf a = keyOf b) : a.pluginId = b.pluginId ∧ a.kind = b.kind ∧ a.key = b.key := by
  obtain ⟨plugin, rest⟩ := cut_unique a.validId b.validId same
  obtain ⟨kind, key⟩ := cut_unique (nul_not_mem_kind known) (nul_not_mem_kind known') rest
  exact ⟨plugin, kind, key⟩

theorem compareEntries_ne_gt (a b : PluginSyncSidecarEntry) :
    compareEntries a b ≠ .gt ↔ (a.printed numberText).place ≤ (b.printed numberText).place := by
  simp only [PrintedEntry.place, PluginSyncSidecarEntry.printed, Prod.Lex.toLex_le_toLex]
  unfold compareEntries
  by_cases plugin : a.pluginId = b.pluginId
  · by_cases kind : a.kind = b.kind
    · simp only [plugin, kind, ne_eq, not_true_eq_false, if_false, lt_self_iff_false, true_and, false_or]
      rcases lt_trichotomy a.key b.key with less | same | more
      · simp [less, less.le]
      · simp [same]
      · simp [more, more.not_gt, more.not_ge]
    · simp only [plugin, kind, ne_eq, not_true_eq_false, not_false_eq_true, if_false, if_true, lt_self_iff_false, true_and,
        false_and, false_or, or_false]
      split <;> simp_all
  · simp only [plugin, ne_eq, not_false_eq_true, if_true, false_and, or_false]
    split <;> simp_all

/-! ## Records by key -/

section

variable {entries : List PluginSyncSidecarEntry} {key : JsString} {entry : PluginSyncSidecarEntry}

theorem get?_foldl_set :
    (entries.foldl (fun map entry => map.set (keyOf entry) entry) OrderedMap.empty).get? key = some entry →
      entry ∈ entries ∧ keyOf entry = key := by
  induction entries using List.reverseRecOn with
  | nil => simp
  | append_singleton entries last ih =>
    intro found
    rw [foldl_append, foldl_cons, foldl_nil, OrderedMap.get?_set] at found
    split at found
    · rename_i same
      cases found
      exact ⟨mem_append_right _ (mem_singleton_self _), same.symm⟩
    · exact ⟨mem_append_left _ (ih found).1, (ih found).2⟩

theorem get?_toMap
    (found : (toMap entries).get? key = some entry) : entry ∈ entries ∧ entry.kind ∈ SIDECAR_KINDS ∧ keyOf entry = key := by
  obtain ⟨held, same⟩ := get?_foldl_set found
  obtain ⟨mem, known⟩ := mem_filter.mp held
  exact ⟨mem, of_decide_eq_true known, same⟩

end

/-- A list of records in their order, as what is known of each key. -/
structure Arranged (entries : List PluginSyncSidecarEntry) (view : JsString → Option PluginSyncSidecarEntry) : Prop where
  held : ∀ key entry, view key = some entry ↔ entry ∈ entries ∧ keyOf entry = key
  kinds : ∀ entry ∈ entries, entry.kind ∈ SIDECAR_KINDS
  nodup : (entries.map keyOf).Nodup
  sorted : entries.Pairwise fun a b => compareEntries a b ≠ .gt

theorem Arranged.get?_toMap {entries : List PluginSyncSidecarEntry} {view : JsString → Option PluginSyncSidecarEntry}
    (arranged : Arranged entries view) (key : JsString) : (toMap entries).get? key = view key := by
  have kept : entries.filter (fun entry => entry.kind ∈ SIDECAR_KINDS) = entries :=
    filter_eq_self.mpr fun entry mem => decide_eq_true (arranged.kinds entry mem)
  have has : ∀ (entries : List PluginSyncSidecarEntry) key, key ∈ entries.map keyOf →
      (entries.foldl (fun map entry => map.set (keyOf entry) entry) OrderedMap.empty).has key = true := by
    intro entries key
    induction entries using List.reverseRecOn with
    | nil => simp
    | append_singleton entries last ih =>
      intro mem
      rw [foldl_append, foldl_cons, foldl_nil, OrderedMap.has, OrderedMap.get?_set]
      split
      · rfl
      · rename_i other
        rw [map_append, mem_append] at mem
        exact ih (mem.resolve_right fun last => other (mem_singleton.mp last))
  cases found : (toMap entries).get? key with
  | some entry =>
    obtain ⟨mem, -, same⟩ := PluginSync.get?_toMap found
    exact ((arranged.held key entry).mpr ⟨mem, same⟩).symm
  | none =>
    cases here : view key with
    | none => rfl
    | some entry =>
      obtain ⟨mem, same⟩ := (arranged.held key entry).mp here
      have there := has entries key (same ▸ List.mem_map_of_mem mem)
      unfold toMap at found
      rw [kept] at found
      rw [OrderedMap.has, found] at there
      cases there

section Printed

variable {numberText : ℚ → JsString} {entries others : List PluginSyncSidecarEntry}
  {view view' : JsString → Option PluginSyncSidecarEntry}

section

variable (arranged : Arranged entries view)
include arranged

theorem Arranged.mem_printed {printed : PrintedEntry} :
    printed ∈ entries.map (·.printed numberText) ↔ (view printed.mapKey).map (·.printed numberText) = some printed := by
  constructor
  · intro mem
    obtain ⟨entry, held, rfl⟩ := List.mem_map.mp mem
    rw [← keyOf_eq, (arranged.held _ entry).mpr ⟨held, rfl⟩, map_some]
  · intro found
    obtain ⟨entry, here, rfl⟩ := map_eq_some_iff.mp found
    exact List.mem_map_of_mem ((arranged.held _ entry).mp here).1

theorem Arranged.printed_nodup :
    ((entries.map (·.printed numberText)).map PrintedEntry.mapKey).Nodup := by
  rw [List.map_map]
  exact arranged.nodup

theorem Arranged.printed_sorted :
    (entries.map (·.printed numberText)).Pairwise fun a b => a.place ≤ b.place := by
  rw [pairwise_map]
  exact arranged.sorted.imp fun order => (compareEntries_ne_gt numberText _ _).mp order

/-- Two arranged lists print alike when every key does. -/
theorem Arranged.printed_eq_iff (arranged' : Arranged others view') :
    entries.map (·.printed numberText) = others.map (·.printed numberText) ↔
      ∀ key, (view key).map (·.printed numberText) = (view' key).map (·.printed numberText) := by
  constructor
  · intro same key
    have side : ∀ {entries others : List PluginSyncSidecarEntry} {view view' : JsString → Option PluginSyncSidecarEntry},
        Arranged entries view → Arranged others view' →
        entries.map (·.printed numberText) = others.map (·.printed numberText) → ∀ printed,
        (view key).map (·.printed numberText) = some printed → (view' key).map (·.printed numberText) = some printed := by
      intro entries others view view' arranged arranged' same printed found
      obtain ⟨entry, here, rfl⟩ := map_eq_some_iff.mp found
      obtain ⟨mem, rfl⟩ := (arranged.held key entry).mp here
      rw [keyOf_eq numberText, ← arranged'.mem_printed, ← same]
      exact List.mem_map_of_mem mem
    apply Option.ext
    intro printed
    exact ⟨side arranged arranged' same printed, side arranged' arranged same.symm printed⟩
  · intro same
    have perm : (entries.map (·.printed numberText)).Perm (others.map (·.printed numberText)) := by
      apply (perm_ext_iff_of_nodup (arranged.printed_nodup.of_map _) (arranged'.printed_nodup.of_map _)).mpr
      intro printed
      rw [arranged.mem_printed, arranged'.mem_printed, same]
    refine List.Perm.eq_of_pairwise ?_ arranged.printed_sorted arranged'.printed_sorted perm
    intro a b memA memB before after
    apply inj_on_of_nodup_map arranged.printed_nodup memA (perm.mem_iff.mpr memB)
    have place := le_antisymm before after
    simp only [PrintedEntry.place, EmbeddingLike.apply_eq_iff_eq, Prod.mk.injEq] at place
    obtain ⟨plugin, kind, key⟩ := place
    rw [PrintedEntry.mapKey, PrintedEntry.mapKey, plugin, kind, key]

end

end Printed

/-! ## What becomes of a key -/

section Merge

variable {numberText : ℚ → JsString} {strategy : MergeStrategy}

theorem mergeSidecar_mem {base local_ remote : Option PluginSyncSidecarEntry} {entry : PluginSyncSidecarEntry}
    (kept : mergeSidecar numberText strategy base local_ remote = some entry) :
    local_ = some entry ∨ remote = some entry := by
  unfold mergeSidecar mergeSetting mergeBaseline at kept
  rcases base with _ | b <;> rcases local_ with _ | l <;> rcases remote with _ | r <;> dsimp only at kept <;>
    split at kept <;> grind

def merged (numberText : ℚ → JsString) (strategy : MergeStrategy) (base local_ remote : List PluginSyncSidecarEntry)
    (key : JsString) : Option PluginSyncSidecarEntry :=
  mergeSidecar numberText strategy ((toMap base).get? key) ((toMap local_).get? key) ((toMap remote).get? key)

theorem merged_mem {base local_ remote : List PluginSyncSidecarEntry} {key : JsString} {entry : PluginSyncSidecarEntry}
    (kept : merged numberText strategy base local_ remote key = some entry) :
    entry.kind ∈ SIDECAR_KINDS ∧ keyOf entry = key :=
  (mergeSidecar_mem kept).elim (fun found => (get?_toMap found).2) fun found => (get?_toMap found).2

theorem arranged_merge (numberText : ℚ → JsString) (strategy : MergeStrategy)
    (base local_ remote : List PluginSyncSidecarEntry) :
    Arranged (mergePluginSyncSidecarsThreeWay numberText strategy base local_ remote)
      (merged numberText strategy base local_ remote) := by
  have perm := mergeSort_perm (((toMap base).keys ++ (toMap local_).keys ++ (toMap remote).keys).eraseDups.filterMap
    (merged numberText strategy base local_ remote)) fun a b => decide (compareEntries a b ≠ .gt)
  have mem : ∀ entry, entry ∈ mergePluginSyncSidecarsThreeWay numberText strategy base local_ remote ↔
      merged numberText strategy base local_ remote (keyOf entry) = some entry := by
    intro entry
    refine perm.mem_iff.trans (mem_filterMap.trans ⟨?_, fun kept => ⟨keyOf entry, ?_, kept⟩⟩)
    · rintro ⟨key, -, kept⟩
      rwa [(merged_mem kept).2]
    · have has : ∀ entries, (toMap entries).get? (keyOf entry) = some entry → keyOf entry ∈ (toMap entries).keys :=
        fun entries found => OrderedMap.mem_keys.mpr (OrderedMap.has_iff.mpr ⟨entry, found⟩)
      rw [mem_eraseDups, mem_append, mem_append]
      exact (mergeSidecar_mem kept).elim (fun found => .inl (.inr (has _ found))) fun found => .inr (has _ found)
  refine ⟨fun key entry => ⟨fun kept => ?_, fun held => held.2 ▸ (mem entry).mp held.1⟩, fun entry held => ?_, ?_, ?_⟩
  · have same := (merged_mem kept).2
    exact ⟨(mem entry).mpr (same.symm ▸ kept), same⟩
  · exact (merged_mem ((mem entry).mp held)).1
  · refine List.Nodup.map_on (fun a memA b memB same => ?_) (perm.nodup_iff.mpr ((eraseDups_nodup _).filterMap ?_))
    · have here := (mem a).mp memA
      rw [same, (mem b).mp memB] at here
      exact (Option.some.inj here).symm
    · intro key other entry kept kept'
      rw [← (merged_mem kept).2, ← (merged_mem kept').2]
  · have order := compareEntries_ne_gt numberText
    have sorted := @List.pairwise_mergeSort _ (fun a b => decide (compareEntries a b ≠ .gt))
      (fun a b c before after => by
        rw [decide_eq_true_eq, order] at before after ⊢
        exact before.trans after)
      (fun a b => by
        rw [Bool.or_eq_true, decide_eq_true_eq, decide_eq_true_eq, order, order]
        exact le_total _ _)
      (((toMap base).keys ++ (toMap local_).keys ++ (toMap remote).keys).eraseDups.filterMap
        (merged numberText strategy base local_ remote))
    exact sorted.imp of_decide_eq_true

end Merge

/-! ## Convergence -/

section Smart

variable {numberText : ℚ → JsString}

/-- Two records with the same stamp of which every device keeps one and the same: they print alike,
or they are settings that both have a value. -/
def Settles (numberText : ℚ → JsString) (a b : PluginSyncSidecarEntry) : Prop :=
  a.valueText numberText = b.valueText numberText ∨ a.kind = settingsKind ∧ a.value.isSome = true ∧ b.value.isSome = true

variable (base : Option PluginSyncSidecarEntry)

/-- The newer record is kept; with the same stamp, the local one, unless the text of a setting says
otherwise. -/
theorem mergeSidecar_both (l r : PluginSyncSidecarEntry) :
    mergeSidecar numberText .smart base (some l) (some r) =
      some (if r.updatedAt < l.updatedAt then l else if l.updatedAt < r.updatedAt then r
        else if l.kind = settingsKind ∧ textAtLeast (l.valueText numberText) (r.valueText numberText) = false then r else l) := by
  unfold mergeSidecar mergeSetting mergeBaseline
  rcases lt_trichotomy l.updatedAt r.updatedAt with older | same | newer
  · cases base <;> by_cases kind : l.kind = settingsKind <;> simp [older, older.not_ge, older.not_gt, older.ne, kind]
  · cases base <;> by_cases kind : l.kind = settingsKind <;>
      cases tie : textAtLeast (l.valueText numberText) (r.valueText numberText) <;> simp [same, kind, tie]
  · cases base <;> by_cases kind : l.kind = settingsKind <;> simp [newer, newer.le, newer.ne', kind]

theorem mergeSidecar_one (l : PluginSyncSidecarEntry) :
    mergeSidecar numberText .smart base (some l) none = mergeSidecar numberText .smart base none (some l) := by
  unfold mergeSidecar mergeSetting mergeBaseline
  cases base <;> by_cases kind : l.kind = settingsKind <;> simp [kind]

theorem mergeSidecar_none : mergeSidecar numberText .smart base none none = none := by
  unfold mergeSidecar mergeSetting mergeBaseline
  cases base with
  | none => rfl
  | some b => exact ite_self none

theorem mergeSidecar_self (base side : Option PluginSyncSidecarEntry) :
    mergeSidecar numberText .smart base side side = side := by
  cases side with
  | none => exact mergeSidecar_none base
  | some l =>
    rw [mergeSidecar_both, ite_self, ite_self, ite_self]

theorem mergeSidecar_choice (numberText : ℚ → JsString) (base local_ remote : Option PluginSyncSidecarEntry) :
    mergeSidecar numberText .smart base local_ remote = local_ ∨
      mergeSidecar numberText .smart base local_ remote = remote := by
  cases kept : mergeSidecar numberText .smart base local_ remote with
  | some entry => exact (mergeSidecar_mem kept).imp Eq.symm Eq.symm
  | none =>
    rcases local_ with _ | l
    · exact .inl rfl
    · rcases remote with _ | r
      · exact .inr rfl
      · rw [mergeSidecar_both] at kept
        cases kept

theorem mergeSidecar_comm_iff {local_ remote : Option PluginSyncSidecarEntry}
    (place : ∀ l ∈ local_, ∀ r ∈ remote, l.pluginId = r.pluginId ∧ l.kind = r.kind ∧ l.key = r.key) :
    (mergeSidecar numberText .smart base local_ remote).map (·.printed numberText) =
        (mergeSidecar numberText .smart base remote local_).map (·.printed numberText) ↔
      ∀ l ∈ local_, ∀ r ∈ remote, l.updatedAt = r.updatedAt → Settles numberText l r := by
  rcases local_ with _ | l
  · have none_ : ∀ l ∈ (none : Option PluginSyncSidecarEntry), ∀ r ∈ remote, l.updatedAt = r.updatedAt →
        Settles numberText l r := by simp
    refine iff_of_true ?_ none_
    rcases remote with _ | r
    · rfl
    · rw [mergeSidecar_one]
  rcases remote with _ | r
  · refine iff_of_true ?_ (by simp)
    rw [mergeSidecar_one]
  obtain ⟨plugin, kind, key⟩ := place l rfl r rfl
  have pair : (∀ a ∈ some l, ∀ b ∈ some r, a.updatedAt = b.updatedAt → Settles numberText a b) ↔
      (l.updatedAt = r.updatedAt → Settles numberText l r) := by
    simp [mem_def]
  rw [pair, mergeSidecar_both, mergeSidecar_both, map_some, map_some, Option.some.injEq]
  rcases lt_trichotomy l.updatedAt r.updatedAt with older | same | newer
  · simp [older, older.not_gt, older.ne]
  · have printed : l.printed numberText = r.printed numberText ↔ l.valueText numberText = r.valueText numberText := by
      simp [PluginSyncSidecarEntry.printed, plugin, kind, key, same]
    simp only [same, lt_self_iff_false, if_false, forall_const, Settles]
    by_cases setting : l.kind = settingsKind
    · have setting' : r.kind = settingsKind := kind ▸ setting
      simp only [setting, setting', true_and]
      have one : l.value.isSome = false ∨ r.value.isSome = false →
          textAtLeast (l.valueText numberText) (r.valueText numberText) = false ∧
            textAtLeast (r.valueText numberText) (l.valueText numberText) = false := by
        unfold PluginSyncSidecarEntry.valueText
        rintro (none_ | none_)
        · rw [isSome_eq_false_iff, isNone_iff_eq_none] at none_
          rw [none_]
          cases r.value <;> exact ⟨rfl, rfl⟩
        · rw [isSome_eq_false_iff, isNone_iff_eq_none] at none_
          rw [none_]
          cases l.value <;> exact ⟨rfl, rfl⟩
      rcases here : l.value with _ | a
      · obtain ⟨first, second⟩ := one (.inl (by rw [here]; rfl))
        simp only [first, second, if_true, isSome_none, Bool.false_eq_true, false_and, or_false]
        exact eq_comm.trans printed
      · rcases there : r.value with _ | b
        · obtain ⟨first, second⟩ := one (.inr (by rw [there]; rfl))
          simp only [first, second, if_true, isSome_none, Bool.false_eq_true, and_false, or_false]
          exact eq_comm.trans printed
        · refine iff_of_true ?_ (.inr ⟨rfl, rfl⟩)
          have texts : l.valueText numberText = some (stringify numberText a) ∧
              r.valueText numberText = some (stringify numberText b) := by
            simp [PluginSyncSidecarEntry.valueText, here, there]
          rw [texts.1, texts.2] at printed ⊢
          rcases lt_trichotomy (stringify numberText a) (stringify numberText b) with less | equal | more
          · simp [textAtLeast, less.le, less.not_ge]
          · have alike := printed.mpr (congrArg some equal)
            have itself : textAtLeast (some (stringify numberText b)) (some (stringify numberText b)) = true := by
              simp [textAtLeast]
            rw [equal, itself]
            simpa using alike
          · simp [textAtLeast, more.le, more.not_ge]
    · have setting' : ¬r.kind = settingsKind := kind ▸ setting
      simp only [setting, setting', false_and, if_false, or_false, printed]
  · simp [newer, newer.not_gt, newer.ne']

theorem mergeSidecar_absorbs {base local_ remote side : Option PluginSyncSidecarEntry}
    (alike : (mergeSidecar numberText .smart base local_ remote).map (·.printed numberText) =
      (mergeSidecar numberText .smart base remote local_).map (·.printed numberText))
    (either : side = local_ ∨ side = remote) :
    (mergeSidecar numberText .smart base (mergeSidecar numberText .smart base local_ remote) side).map (·.printed numberText) =
        (mergeSidecar numberText .smart base local_ remote).map (·.printed numberText) ∧
      (mergeSidecar numberText .smart base side (mergeSidecar numberText .smart base local_ remote)).map (·.printed numberText) =
        (mergeSidecar numberText .smart base local_ remote).map (·.printed numberText) := by
  rcases mergeSidecar_choice numberText base local_ remote with kept | kept
  · rcases either with rfl | rfl
    · rw [kept, mergeSidecar_self, and_self]
    · rw [kept] at alike ⊢
      exact ⟨congrArg _ kept, alike.symm⟩
  · rcases either with rfl | rfl
    · rw [kept] at alike ⊢
      exact ⟨alike.symm, congrArg _ kept⟩
    · rw [kept, mergeSidecar_self, and_self]

/-- Two devices that merge the same pair print the same records, and merging the result with either
side again changes nothing. -/
structure Converges (numberText : ℚ → JsString) (base local_ remote : List PluginSyncSidecarEntry) : Prop where
  symmetric : (mergePluginSyncSidecarsThreeWay numberText .smart base local_ remote).map (·.printed numberText) =
    (mergePluginSyncSidecarsThreeWay numberText .smart base remote local_).map (·.printed numberText)
  absorbs : ∀ side, side = local_ ∨ side = remote →
    (mergePluginSyncSidecarsThreeWay numberText .smart base
        (mergePluginSyncSidecarsThreeWay numberText .smart base local_ remote) side).map (·.printed numberText) =
      (mergePluginSyncSidecarsThreeWay numberText .smart base local_ remote).map (·.printed numberText) ∧
    (mergePluginSyncSidecarsThreeWay numberText .smart base side
        (mergePluginSyncSidecarsThreeWay numberText .smart base local_ remote)).map (·.printed numberText) =
      (mergePluginSyncSidecarsThreeWay numberText .smart base local_ remote).map (·.printed numberText)

theorem symmetric_iff (numberText : ℚ → JsString) (base local_ remote : List PluginSyncSidecarEntry) :
    (mergePluginSyncSidecarsThreeWay numberText .smart base local_ remote).map (·.printed numberText) =
        (mergePluginSyncSidecarsThreeWay numberText .smart base remote local_).map (·.printed numberText) ↔
      ∀ key l r, (toMap local_).get? key = some l → (toMap remote).get? key = some r →
        l.updatedAt = r.updatedAt → Settles numberText l r := by
  rw [(arranged_merge numberText .smart base local_ remote).printed_eq_iff (arranged_merge numberText .smart base remote local_)]
  apply forall_congr'
  intro key
  have place : ∀ l ∈ (toMap local_).get? key, ∀ r ∈ (toMap remote).get? key,
      l.pluginId = r.pluginId ∧ l.kind = r.kind ∧ l.key = r.key := by
    intro l atLocal r atRemote
    obtain ⟨-, known, same⟩ := get?_toMap atLocal
    obtain ⟨-, known', same'⟩ := get?_toMap atRemote
    exact keyOf_injective known known' (same.trans same'.symm)
  exact (mergeSidecar_comm_iff _ place).trans
    ⟨fun settles l r atLocal atRemote => settles l atLocal r atRemote, fun settles l atLocal r atRemote => settles l r atLocal atRemote⟩

/-- The two devices converge if and only if records with the same stamp settle. -/
theorem converges_iff (numberText : ℚ → JsString) (base local_ remote : List PluginSyncSidecarEntry) :
    Converges numberText base local_ remote ↔
      ∀ key l r, (toMap local_).get? key = some l → (toMap remote).get? key = some r →
        l.updatedAt = r.updatedAt → Settles numberText l r := by
  refine ⟨fun converges => (symmetric_iff numberText base local_ remote).mp converges.symmetric, fun settles => ?_⟩
  have symmetric := (symmetric_iff numberText base local_ remote).mpr settles
  have arranged := arranged_merge numberText .smart base local_ remote
  have alike := (arranged.printed_eq_iff (arranged_merge numberText .smart base remote local_)).mp symmetric
  have absorbs : ∀ side, side = local_ ∨ side = remote → ∀ key, _ ∧ _ := fun side either key =>
    mergeSidecar_absorbs (alike key) (either.imp (fun same => congrArg (fun side => (toMap side).get? key) same)
      fun same => congrArg (fun side => (toMap side).get? key) same)
  refine ⟨symmetric, fun side either => ⟨?_, ?_⟩⟩
  · rw [(arranged_merge numberText .smart base _ side).printed_eq_iff arranged]
    intro key
    rw [merged, arranged.get?_toMap]
    exact (absorbs side either key).1
  · rw [(arranged_merge numberText .smart base side _).printed_eq_iff arranged]
    intro key
    rw [merged, arranged.get?_toMap]
    exact (absorbs side either key).2

/-- Two devices with baselines of an account that have the same stamp. -/
theorem not_converges_baselines :
    ¬∀ (numberText : ℚ → JsString) (base local_ remote : List PluginSyncSidecarEntry),
      Converges numberText base local_ remote := by
  intro converges
  have apart := (converges (fun n => decimal n.num.toNat) []
    [⟨text "p", text "account_baseline", text "k", some (.str (text "a")), 1, by decide⟩]
    [⟨text "p", text "account_baseline", text "k", some (.str (text "b")), 1, by decide⟩]).symmetric
  revert apart
  decide +kernel

end Smart

end Netcatty.PluginSync
