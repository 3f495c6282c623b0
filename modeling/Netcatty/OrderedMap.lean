import Mathlib.Data.List.Nodup
import Mathlib.Data.List.NodupEquivFin

/-!
Finite maps that enumerate their keys in insertion order.

Replacing the value of a key keeps its place, and a key stored after a deletion
goes to the end.  Keys occur once by construction, so every operation is
described by what it does to `get?` and to the number of entries.
-/

/-- A finite map whose entries are kept in insertion order. -/
structure OrderedMap (K V : Type*) where
  /-- The entries, oldest first. -/
  entries : List (K × V)
  /-- No key occurs twice. -/
  nodup : (entries.map Prod.fst).Nodup

namespace OrderedMap

open List Option

variable {K V : Type*} [DecidableEq K]

def empty : OrderedMap K V := ⟨[], List.nodup_nil⟩

variable (m : OrderedMap K V)

/-- The value stored under a key. -/
def get? (key : K) : Option V := m.entries.lookup key

/-- Does the map hold the key? -/
def has (key : K) : Bool := (m.get? key).isSome

def size : ℕ := m.entries.length

/-- The keys in insertion order. -/
def keys : List K := m.entries.map Prod.fst

/-- The values in insertion order. -/
def values : List V := m.entries.map Prod.snd

def replaceEntry (key : K) (value : V) (entry : K × V) : K × V :=
  if entry.1 = key then (key, value) else entry

theorem fst_replaceEntry (key : K) (value : V) (entry : K × V) :
    (replaceEntry key value entry).1 = entry.1 := by
  by_cases same : entry.1 = key <;> simp [replaceEntry, same]

theorem map_fst_replaceEntry (key : K) (value : V) (l : List (K × V)) :
    (l.map (replaceEntry key value)).map Prod.fst = l.map Prod.fst := by
  rw [List.map_map]
  exact map_congr_left fun entry _ => fst_replaceEntry key value entry

theorem lookup_entry (x k : K) (v : V) (rest : List (K × V)) :
    ((k, v) :: rest).lookup x = if x = k then some v else rest.lookup x := by
  by_cases same : x = k
  · simp [same]
  · have other : (x == k) = false := by simpa using same
    simp [lookup_cons, same, other]

variable {m : OrderedMap K V} {key : K}

theorem get?_eq_none : m.get? key = none ↔ key ∉ m.keys := by
  unfold get? keys
  induction m.entries with
  | nil => simp
  | cons entry rest ih =>
    obtain ⟨k, v⟩ := entry
    rw [lookup_entry, map_cons, mem_cons, not_or, ← ih]
    by_cases same : key = k <;> simp [same]

theorem nodup_set_entries (m : OrderedMap K V) (key : K) (value : V) :
    ((if m.has key then m.entries.map (replaceEntry key value)
      else m.entries ++ [(key, value)]).map Prod.fst).Nodup := by
  split
  · rw [map_fst_replaceEntry]
    exact m.nodup
  · rename_i absent
    have fresh : key ∉ m.entries.map Prod.fst := by
      apply get?_eq_none.mp
      simpa [has] using absent
    rw [map_append, map_singleton]
    exact List.Nodup.append m.nodup (nodup_singleton key) (by simpa using fresh)

def set (m : OrderedMap K V) (key : K) (value : V) : OrderedMap K V :=
  ⟨if m.has key then m.entries.map (replaceEntry key value) else m.entries ++ [(key, value)],
    m.nodup_set_entries key value⟩

def delete (m : OrderedMap K V) (key : K) : OrderedMap K V :=
  ⟨m.entries.filter fun entry => entry.1 ≠ key,
    m.nodup.sublist (List.filter_sublist.map Prod.fst)⟩

/-! ## Lookups -/

@[simp] theorem get?_empty (key : K) : (empty : OrderedMap K V).get? key = none := rfl

theorem has_iff : m.has key ↔ ∃ value, m.get? key = some value := by
  rw [has, isSome_iff_exists]

theorem mem_keys : key ∈ m.keys ↔ m.has key := by
  rw [← not_iff_not, ← get?_eq_none]
  simp [has]

theorem lookup_map_replaceEntry (key x : K) (value : V) (l : List (K × V)) :
    (l.map (replaceEntry key value)).lookup x =
      if x = key then (l.lookup x).map fun _ => value else l.lookup x := by
  induction l with
  | nil => simp
  | cons entry rest ih =>
    obtain ⟨k, v⟩ := entry
    rw [map_cons, lookup_entry]
    by_cases same : k = key
    · subst same
      rw [replaceEntry, if_pos rfl, lookup_entry, ih]
      by_cases found : x = k <;> simp [found]
    · rw [replaceEntry, if_neg same, lookup_entry, ih]
      by_cases found : x = k
      · subst found
        simp [same]
      · simp [found]

section

variable (m : OrderedMap K V)

@[simp] theorem get?_set (key x : K) (value : V) :
    (m.set key value).get? x = if x = key then some value else m.get? x := by
  change (if m.has key then m.entries.map (replaceEntry key value)
    else m.entries ++ [(key, value)]).lookup x = _
  by_cases held : m.has key
  · rw [if_pos held, lookup_map_replaceEntry]
    by_cases same : x = key
    · obtain ⟨old, found⟩ := has_iff.mp held
      rw [if_pos same, if_pos same, same, show m.entries.lookup key = some old from found]
      rfl
    · rw [if_neg same, if_neg same]
      rfl
  · rw [if_neg held, lookup_append, lookup_entry, lookup_nil]
    by_cases same : x = key
    · have absent : m.entries.lookup key = none := by
        rw [Bool.not_eq_true] at held
        exact isNone_iff_eq_none.mp (by rw [← not_isSome, ← get?, ← has, held]; rfl)
      rw [if_pos same, if_pos same, same, absent]
      rfl
    · rw [if_neg same, if_neg same, or_none]
      rfl

@[simp] theorem get?_delete (key x : K) :
    (m.delete key).get? x = if x = key then none else m.get? x := by
  change (m.entries.filter fun entry => entry.1 ≠ key).lookup x = if x = key then none else m.entries.lookup x
  induction m.entries with
  | nil => simp
  | cons entry rest ih =>
    obtain ⟨k, v⟩ := entry
    by_cases dropped : k = key
    · rw [filter_cons_of_neg (by simpa using dropped), ih, lookup_entry, dropped]
      by_cases found : x = key <;> simp [found]
    · rw [filter_cons_of_pos (by simpa using dropped), lookup_entry, lookup_entry, ih]
      by_cases found : x = k
      · subst found
        simp [dropped]
      · simp [found]

/-- A new key comes last; the others keep their places. -/
theorem keys_set (key : K) (value : V) :
    (m.set key value).keys = if m.has key then m.keys else m.keys ++ [key] := by
  unfold set keys
  dsimp only
  split
  · exact map_fst_replaceEntry key value m.entries
  · rw [map_append, map_singleton]

/-! ## Maps that go on from others -/

/-- `m'` has the entries of `m` in their places, and others after them. -/
def ExtendedBy (m m' : OrderedMap K V) : Prop :=
  (∃ extra, m'.keys = m.keys ++ extra) ∧ ∀ key ∈ m.keys, m'.get? key = m.get? key

theorem ExtendedBy.refl : m.ExtendedBy m := ⟨⟨[], (append_nil _).symm⟩, fun _ _ => rfl⟩

theorem ExtendedBy.trans {m m' m'' : OrderedMap K V} (first : m.ExtendedBy m') (second : m'.ExtendedBy m'') :
    m.ExtendedBy m'' := by
  obtain ⟨⟨extra, keys⟩, values⟩ := first
  obtain ⟨⟨extra', keys'⟩, values'⟩ := second
  refine ⟨⟨extra ++ extra', by rw [keys', keys, append_assoc]⟩, fun key mem => ?_⟩
  rw [values' key (keys ▸ mem_append_left extra mem), values key mem]

theorem delete_delete (key : K) : (m.delete key).delete key = m.delete key := by
  unfold delete
  simp only [List.filter_filter, Bool.and_self]

end

theorem delete_of_not_has (absent : m.has key = false) : m.delete key = m := by
  have kept : m.entries.filter (fun entry => entry.1 ≠ key) = m.entries := by
    apply filter_eq_self.mpr
    intro entry mem
    have gone : key ∉ m.entries.map Prod.fst := get?_eq_none.mp (by simpa [has] using absent)
    simpa using fun same => gone (List.mem_map.mpr ⟨entry, mem, same⟩)
  unfold delete
  simp only [kept]

/-- Deleting keys one after the other. -/
theorem get?_foldl_delete (l : List K) (m : OrderedMap K V) (x : K) :
    (l.foldl delete m).get? x = if x ∈ l then none else m.get? x := by
  induction l generalizing m with
  | nil => simp
  | cons key rest ih =>
    rw [foldl_cons, ih, get?_delete]
    by_cases same : x = key <;> simp [same]

theorem mem_entries {value : V} : (key, value) ∈ m.entries ↔ m.get? key = some value := by
  obtain ⟨entries, distinct⟩ := m
  change (key, value) ∈ entries ↔ entries.lookup key = some value
  induction entries with
  | nil => simp
  | cons entry rest ih =>
    obtain ⟨k, v⟩ := entry
    rw [map_cons, nodup_cons] at distinct
    obtain ⟨fresh, restDistinct⟩ := distinct
    rw [mem_cons, lookup_entry, Prod.mk.injEq]
    by_cases same : key = k
    · subst same
      have absent : (key, value) ∉ rest := fun mem => fresh (List.mem_map.mpr ⟨_, mem, rfl⟩)
      simp [absent, eq_comm]
    · simp [same, ih restDistinct]

theorem eq_empty_of_get? (none : ∀ key, m.get? key = none) : m = empty := by
  obtain ⟨entries, nodup⟩ := m
  cases entries with
  | nil => rfl
  | cons entry rest => simpa [get?] using none entry.1

theorem size_eq_zero : m.size = 0 ↔ ∀ key, m.get? key = none := by
  constructor
  · intro bare key
    have nil : m.entries = [] := eq_nil_of_length_eq_zero bare
    simp [get?, nil]
  · intro absent
    rw [eq_empty_of_get? absent]
    rfl

/-! ## Sizes -/

theorem size_set (m : OrderedMap K V) (key : K) (value : V) :
    (m.set key value).size = if m.has key then m.size else m.size + 1 := by
  unfold set size
  split <;> simp

theorem size_delete_le (m : OrderedMap K V) (key : K) : (m.delete key).size ≤ m.size :=
  length_filter_le _ _

theorem entries_delete_perm {value : V}
    (found : m.get? key = some value) : m.entries.Perm ((key, value) :: (m.delete key).entries) := by
  have kept {entry : K × V} : entry ∈ (m.delete key).entries ↔ entry ∈ m.entries ∧ entry.1 ≠ key := by
    change entry ∈ m.entries.filter _ ↔ _
    rw [mem_filter, decide_eq_true_eq]
  have distinct : ((key, value) :: (m.delete key).entries).Nodup := by
    refine nodup_cons.mpr ⟨?_, (m.delete key).nodup.of_map _⟩
    intro mem
    exact (kept.mp mem).2 rfl
  apply (perm_ext_iff_of_nodup (m.nodup.of_map _) distinct).mpr
  rintro ⟨k, v⟩
  rw [mem_cons, kept, Prod.mk.injEq]
  by_cases same : k = key
  · subst same
    rw [mem_entries, found]
    simp [eq_comm]
  · simp [same]

theorem values_delete_perm {value : V}
    (found : m.get? key = some value) : m.values.Perm (value :: (m.delete key).values) :=
  (entries_delete_perm found).map Prod.snd

theorem values_set_of_get? {value : V} (fresh : m.get? key = none) :
    (m.set key value).values = m.values ++ [value] := by
  have absent : ¬ m.has key := by simp [has, fresh]
  change (if m.has key then m.entries.map (replaceEntry key value)
    else m.entries ++ [(key, value)]).map Prod.snd = _
  rw [if_neg absent, map_append, map_singleton]
  rfl

theorem size_delete_of_has (held : m.has key) : (m.delete key).size + 1 = m.size := by
  obtain ⟨value, found⟩ := has_iff.mp held
  have same := (entries_delete_perm found).length_eq
  rw [length_cons] at same
  exact same.symm

theorem size_eq_of_has {m m' : OrderedMap K V} (same : ∀ key, m.has key = m'.has key) :
    m.size = m'.size := by
  have perm : m.keys.Perm m'.keys := by
    apply (perm_ext_iff_of_nodup m.nodup m'.nodup).mpr
    intro key
    change key ∈ m.keys ↔ key ∈ m'.keys
    rw [mem_keys, mem_keys, same key]
  simpa [keys, size] using perm.length_eq

/-! ## Maps of entries -/

/-- The map of a list of entries; a later entry of a key takes the place of an earlier one. -/
def ofList (entries : List (K × V)) : OrderedMap K V := entries.foldl (fun m entry => m.set entry.1 entry.2) empty

theorem get?_foldl_set {entries : List (K × V)} (distinct : (entries.map Prod.fst).Nodup) (m : OrderedMap K V)
    {key : K} {value : V} :
    (entries.foldl (fun m entry => m.set entry.1 entry.2) m).get? key = some value ↔
      (key, value) ∈ entries ∨ key ∉ entries.map Prod.fst ∧ m.get? key = some value := by
  induction entries generalizing m with
  | nil => simp
  | cons entry entries ih =>
    rw [map_cons, nodup_cons] at distinct
    rw [foldl_cons, ih distinct.2, get?_set, map_cons, mem_cons, mem_cons, not_or]
    by_cases same : key = entry.1
    · subst same
      rw [if_pos rfl]
      constructor
      · rintro (mem | ⟨-, found⟩)
        · exact .inl (.inr mem)
        · obtain rfl := Option.some.inj found
          exact .inl (.inl rfl)
      · rintro ((own | mem) | ⟨⟨apart, -⟩, -⟩)
        · exact .inr ⟨distinct.1, congrArg some (congrArg Prod.snd own).symm⟩
        · exact .inl mem
        · exact (apart rfl).elim
    · rw [if_neg same]
      constructor
      · rintro (mem | ⟨absent, found⟩)
        · exact .inl (.inr mem)
        · exact .inr ⟨⟨same, absent⟩, found⟩
      · rintro ((own | mem) | ⟨⟨-, absent⟩, found⟩)
        · exact (same (congrArg Prod.fst own)).elim
        · exact .inl mem
        · exact .inr ⟨absent, found⟩

theorem get?_ofList {entries : List (K × V)} (distinct : (entries.map Prod.fst).Nodup) {key : K} {value : V} :
    (ofList entries).get? key = some value ↔ (key, value) ∈ entries := by
  unfold ofList
  rw [get?_foldl_set distinct]
  simp

/-- The last entry of a key counts. -/
theorem get?_ofList_reverse (entries : List (K × V)) (key : K) :
    (ofList entries).get? key = entries.reverse.lookup key := by
  have fold (m : OrderedMap K V) : (entries.foldl (fun m entry => m.set entry.1 entry.2) m).get? key =
      (entries.reverse.lookup key).or (m.get? key) := by
    induction entries generalizing m with
    | nil => rfl
    | cons entry entries ih =>
      rw [foldl_cons, ih, get?_set, reverse_cons, lookup_append, Option.or_assoc, lookup_entry, lookup_nil]
      congr 1
      by_cases same : key = entry.1 <;> simp [same]
  exact (fold empty).trans Option.or_none

theorem mem_of_get?_ofList {entries : List (K × V)} {key : K} {value : V}
    (found : (ofList entries).get? key = some value) : (key, value) ∈ entries := by
  rw [get?_ofList_reverse] at found
  obtain ⟨front, back, same, -⟩ := lookup_eq_some_iff.mp found
  exact mem_reverse.mp (same ▸ mem_append_right front mem_cons_self)

theorem has_ofList {entries : List (K × V)} {key : K} {value : V} (mem : (key, value) ∈ entries) :
    (ofList entries).has key := by
  rw [has, get?_ofList_reverse, lookup_isSome_iff]
  exact ⟨_, mem_reverse.mpr mem, beq_self_eq_true _⟩

end OrderedMap
