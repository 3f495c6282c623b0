import Mathlib.Data.List.Dedup
import Mathlib.Data.List.Nodup
import Mathlib.Data.List.Sort

/-!
Finite maps kept as strictly ascending association lists.

The keys of a map are strictly ascending by construction, so two maps with the
same lookups are equal (`SortedMap.ext`) and every operation is described by
what it does to `get?`.  Lookups, insertions and enumerations are structural
recursions on the entry list, so closed maps evaluate in the kernel.
-/

/-- A finite map whose entry list has strictly ascending keys. -/
structure SortedMap (K V : Type*) [LinearOrder K] where
  /-- The entries in key order. -/
  entries : List (K × V)
  /-- Keys are strictly ascending, so no key occurs twice. -/
  ascending : (entries.map Prod.fst).Pairwise (· < ·)

namespace SortedMap

open List Option

variable {K V W : Type*} [LinearOrder K]

def lookupEntry (key : K) : List (K × V) → Option V
  | [] => none
  | (k, v) :: rest => if key = k then some v else lookupEntry key rest

def insertEntry (key : K) (value : V) : List (K × V) → List (K × V)
  | [] => [(key, value)]
  | (k, v) :: rest =>
    if key < k then (key, value) :: (k, v) :: rest
    else if key = k then (key, value) :: rest
    else (k, v) :: insertEntry key value rest

theorem mem_insertEntry_key {key x : K} {value : V} {l : List (K × V)} :
    x ∈ (insertEntry key value l).map Prod.fst ↔ x = key ∨ x ∈ l.map Prod.fst := by
  induction l with
  | nil => simp [insertEntry]
  | cons head rest ih =>
    obtain ⟨k, v⟩ := head
    simp only [insertEntry]
    split
    · simp
    · split
      · rename_i same
        simp [same]
      · simp only [map_cons, mem_cons, ih]
        exact or_left_comm

theorem insertEntry_ascending {key : K} {value : V} {l : List (K × V)}
    (asc : (l.map Prod.fst).Pairwise (· < ·)) :
    ((insertEntry key value l).map Prod.fst).Pairwise (· < ·) := by
  induction l with
  | nil => simp [insertEntry]
  | cons head rest ih =>
    obtain ⟨k, v⟩ := head
    simp only [map_cons, pairwise_cons] at asc
    obtain ⟨below, restAsc⟩ := asc
    simp only [insertEntry]
    split
    · rename_i before
      simp only [map_cons, pairwise_cons]
      refine ⟨?_, below, restAsc⟩
      intro x member
      rcases mem_cons.mp member with rfl | member
      · exact before
      · exact before.trans (below x member)
    · split
      · rename_i same
        subst same
        exact pairwise_cons.mpr ⟨below, restAsc⟩
      · rename_i notBefore notSame
        refine pairwise_cons.mpr ⟨?_, ih restAsc⟩
        intro x member
        rcases mem_insertEntry_key.mp member with rfl | member
        · exact lt_of_le_of_ne (not_lt.mp notBefore) (Ne.symm notSame)
        · exact below x member

def empty : SortedMap K V := ⟨[], List.Pairwise.nil⟩

/-- The value stored under a key. -/
def get? (m : SortedMap K V) (key : K) : Option V := lookupEntry key m.entries

def set (m : SortedMap K V) (key : K) (value : V) : SortedMap K V :=
  ⟨insertEntry key value m.entries, insertEntry_ascending m.ascending⟩

/-- The keys in ascending order. -/
def keys (m : SortedMap K V) : List K := m.entries.map Prod.fst

def mapWithKey (f : K → V → W) (m : SortedMap K V) : SortedMap K W :=
  ⟨m.entries.map fun e => (e.1, f e.1 e.2), by
    simpa [List.map_map, Function.comp_def] using m.ascending⟩

/-- Apply a function to every value. -/
def mapValues (f : V → W) (m : SortedMap K V) : SortedMap K W := m.mapWithKey fun _ => f

instance [DecidableEq K] [DecidableEq V] : DecidableEq (SortedMap K V) := fun a b =>
  decidable_of_iff (a.entries = b.entries) ⟨fun h => by cases a; cases b; cases h; rfl, fun h => by rw [h]⟩

/-! ## Lookups -/

theorem lookupEntry_insertEntry (key x : K) (value : V) (l : List (K × V)) :
    lookupEntry x (insertEntry key value l) = if x = key then some value else lookupEntry x l := by
  induction l with
  | nil => simp [insertEntry, lookupEntry]
  | cons head rest ih =>
    obtain ⟨k, v⟩ := head
    simp only [insertEntry]
    split
    · simp [lookupEntry]
    · split
      · rename_i same
        subst same
        simp only [lookupEntry]
        split <;> rfl
      · rename_i notBefore notSame
        simp only [lookupEntry, ih]
        by_cases atHead : x = k
        · have other : x ≠ key := fun h => notSame (h.symm.trans atHead)
          rw [if_pos atHead, if_neg other, if_pos atHead]
        · rw [if_neg atHead, if_neg atHead]

theorem lookupEntry_eq_none {x : K} {l : List (K × V)} :
    lookupEntry x l = none ↔ x ∉ l.map Prod.fst := by
  induction l with
  | nil => simp [lookupEntry]
  | cons head rest ih =>
    obtain ⟨k, v⟩ := head
    by_cases same : x = k <;> simp [lookupEntry, same, ih]

theorem lookupEntry_eq_some {x : K} {v : V} {l : List (K × V)}
    (asc : (l.map Prod.fst).Pairwise (· < ·)) : lookupEntry x l = some v ↔ (x, v) ∈ l := by
  induction l with
  | nil => simp [lookupEntry]
  | cons head rest ih =>
    obtain ⟨k, w⟩ := head
    simp only [map_cons, pairwise_cons] at asc
    obtain ⟨below, restAsc⟩ := asc
    by_cases same : x = k
    · subst same
      have absent : (x, v) ∉ rest := fun member =>
        lt_irrefl x (below x (List.mem_map_of_mem member))
      simp [lookupEntry, absent, eq_comm]
    · simp [lookupEntry, same, ih restAsc]

@[simp] theorem get?_empty (key : K) : (empty : SortedMap K V).get? key = none := rfl

variable (m : SortedMap K V)

@[simp] theorem keys_empty : (empty : SortedMap K V).keys = [] := rfl

/-- Writing a key changes the lookup of that key only. -/
theorem get?_set (key x : K) (value : V) :
    (m.set key value).get? x = if x = key then some value else m.get? x :=
  lookupEntry_insertEntry key x value m.entries

@[simp] theorem get?_set_self (key : K) (value : V) : (m.set key value).get? key = some value := by
  simp [get?_set]

theorem get?_set_of_ne {key x : K} (value : V) (other : x ≠ key) :
    (m.set key value).get? x = m.get? x := by
  simp [get?_set, other]

theorem mem_entries {m : SortedMap K V} {key : K} {v : V} :
    (key, v) ∈ m.entries ↔ m.get? key = some v :=
  (lookupEntry_eq_some m.ascending).symm

theorem mem_keys {m : SortedMap K V} {key : K} : key ∈ m.keys ↔ (m.get? key).isSome := by
  rw [← not_iff_not, not_isSome_iff_eq_none]
  exact lookupEntry_eq_none.symm

theorem mem_keys_iff_exists {m : SortedMap K V} {key : K} :
    key ∈ m.keys ↔ ∃ v, m.get? key = some v := by
  rw [mem_keys, isSome_iff_exists]

theorem keys_nodup : m.keys.Nodup :=
  m.ascending.imp fun h => h.ne

@[simp] theorem keys_mapWithKey (f : K → V → W) (m : SortedMap K V) :
    (m.mapWithKey f).keys = m.keys := by
  simp [keys, mapWithKey, Function.comp_def]

@[simp] theorem get?_mapWithKey (f : K → V → W) (m : SortedMap K V) (key : K) :
    (m.mapWithKey f).get? key = (m.get? key).map (f key) := by
  obtain ⟨l, asc⟩ := m
  simp only [get?, mapWithKey]
  clear asc
  induction l with
  | nil => rfl
  | cons head rest ih =>
    obtain ⟨k, v⟩ := head
    by_cases same : key = k
    · subst same; simp [lookupEntry]
    · simp [lookupEntry, same, ih]

@[simp] theorem get?_mapValues (f : V → W) (m : SortedMap K V) (key : K) :
    (m.mapValues f).get? key = (m.get? key).map f := get?_mapWithKey _ m key

@[simp] theorem keys_mapValues (f : V → W) (m : SortedMap K V) :
    (m.mapValues f).keys = m.keys := keys_mapWithKey _ m

theorem ascending_ext {l l' : List (K × V)}
    (asc : (l.map Prod.fst).Pairwise (· < ·)) (asc' : (l'.map Prod.fst).Pairwise (· < ·))
    (same : ∀ x v, (x, v) ∈ l ↔ (x, v) ∈ l') : l = l' := by
  have irreflexive : Std.Irrefl fun a b : K × V => a.1 < b.1 := ⟨fun a => lt_irrefl a.1⟩
  have antisymmetric : Std.Antisymm fun a b : K × V => a.1 < b.1 := ⟨fun _ _ less more => absurd more less.asymm⟩
  exact (pairwise_map.mp asc).eq_of_mem_iff (pairwise_map.mp asc') fun entry => same entry.1 entry.2

@[ext] theorem ext {m m' : SortedMap K V} (same : ∀ key, m.get? key = m'.get? key) : m = m' := by
  have entries : m.entries = m'.entries :=
    ascending_ext m.ascending m'.ascending fun x v => by rw [mem_entries, mem_entries, same]
  cases m; cases m'; cases entries; rfl

theorem mapValues_eq_self {f : V → V} {m : SortedMap K V}
    (fixed : ∀ key v, m.get? key = some v → f v = v) : m.mapValues f = m := by
  ext1 key
  rw [get?_mapValues]
  cases stored : m.get? key with
  | none => rfl
  | some v => rw [map_some, fixed key v stored]

/-! ## Building a map key by key -/

/-- The keys of either map, ascending and without repetition. -/
def unionKeys (left : SortedMap K V) (right : SortedMap K W) : List K :=
  (left.keys ++ right.keys).dedup.insertionSort (· ≤ ·)

theorem mem_unionKeys {left : SortedMap K V} {right : SortedMap K W} {key : K} :
    key ∈ unionKeys left right ↔ key ∈ left.keys ∨ key ∈ right.keys := by
  simp [unionKeys, mem_insertionSort]

/-- Run a fallible function over keys in order, storing each value it gives. -/
def buildM {ε : Type*} (f : K → Except ε (Option V)) :
    List K → SortedMap K V → Except ε (SortedMap K V)
  | [], m => .ok m
  | key :: ks, m =>
    match f key with
    | .error e => .error e
    | .ok none => buildM f ks m
    | .ok (some v) => buildM f ks (m.set key v)

/-- A build succeeds when every key does, and then each lookup is what the
function gave for that key. -/
theorem buildM_eq_ok {ε : Type*} {f : K → Except ε (Option V)} {g : K → Option V} {ks : List K}
    {m : SortedMap K V} (runs : ∀ key ∈ ks, f key = .ok (g key))
    (fresh : ∀ key ∈ ks, m.get? key = none) (distinct : ks.Nodup) :
    ∃ built, buildM f ks m = .ok built ∧
      ∀ key, built.get? key = if key ∈ ks then g key else m.get? key := by
  induction ks generalizing m with
  | nil => exact ⟨m, rfl, fun key => by simp⟩
  | cons key ks ih =>
    have headRuns := runs key (by simp)
    obtain ⟨notMem, distinct⟩ := nodup_cons.mp distinct
    cases value : g key with
    | none =>
      obtain ⟨built, eq, lookups⟩ := ih (m := m) (fun k hk => runs k (by simp [hk]))
        (fun k hk => fresh k (by simp [hk])) distinct
      refine ⟨built, by simpa [buildM, headRuns, value] using eq, fun k => ?_⟩
      rw [lookups k]
      by_cases same : k = key
      · subst same; simp [notMem, value, fresh k (by simp)]
      · simp [same]
    | some v =>
      have freshTail : ∀ k ∈ ks, (m.set key v).get? k = none := by
        intro k hk
        have other : k ≠ key := fun h => notMem (h ▸ hk)
        rw [get?_set_of_ne m v other, fresh k (by simp [hk])]
      obtain ⟨built, eq, lookups⟩ := ih (m := m.set key v) (fun k hk => runs k (by simp [hk]))
        freshTail distinct
      refine ⟨built, by simpa [buildM, headRuns, value] using eq, fun k => ?_⟩
      rw [lookups k]
      by_cases same : k = key
      · subst same; simp [notMem, value]
      · simp [same, get?_set]

theorem unionKeys_nodup (left : SortedMap K V) (right : SortedMap K W) :
    (unionKeys left right).Nodup :=
  (perm_insertionSort _ _).nodup_iff.mpr (nodup_dedup _)

end SortedMap
