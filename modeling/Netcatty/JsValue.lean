import Mathlib.Algebra.Order.Ring.Rat
import Mathlib.Data.List.Lex
import Netcatty.SortedMap

/-!
JavaScript values as the modelled code uses them.

A string is its list of UTF-16 code units, so `<` on strings is the
lexicographic order of code units the source's `compareStrings` relies on, and
lone surrogates are ordinary strings.  A number that JSON can carry is a
rational: every finite double is one, `-0` prints like `0`, and the code only
compares such numbers.  A JSON object keeps its properties in insertion order;
`canonicalizeJson` sorts them.
-/

namespace Netcatty

open List Bool

/-- A JavaScript string: its UTF-16 code units. -/
abbrev JsString := List (Fin 65536)

instance (s : JsString) (texts : List JsString) : Decidable (s ∈ texts) := List.instDecidableMemOfLawfulBEq ..

/-- The code unit of `~`. -/
def tilde : Fin 65536 := 126

/-- The code unit of `/`. -/
def slash : Fin 65536 := 47

/-- The code unit of `0`. -/
def digitZero : Fin 65536 := 48

/-- The code unit of `1`. -/
def digitOne : Fin 65536 := 49

/-- `\x1b`. -/
def escapeUnit : Fin 65536 := 27

/-- `\x07`. -/
def bellUnit : Fin 65536 := 7

/-- `\r`. -/
def carriageReturn : Fin 65536 := 13

/-- `\n`. -/
def lineFeed : Fin 65536 := 10

/-- The code unit of `[`. -/
def openBracket : Fin 65536 := 91

/-- The code unit of `]`. -/
def closeBracket : Fin 65536 := 93

/-- The code unit of a backslash. -/
def backslash : Fin 65536 := 92

/-- The code units of one character: itself, or a surrogate pair. -/
def codeUnits (c : Char) : JsString :=
  if c.toNat < 0x10000 then [Fin.ofNat _ c.toNat]
  else [Fin.ofNat _ (0xD800 + (c.toNat - 0x10000) / 0x400),
        Fin.ofNat _ (0xDC00 + (c.toNat - 0x10000) % 0x400)]

/-- A string literal of the source. -/
def text (s : String) : JsString := s.toList.flatMap codeUnits

/-- `String(n)` of a non-negative integer. -/
def decimal (n : ℕ) : JsString := (Nat.toDigits 10 n).flatMap codeUnits

/-- `Number.MAX_SAFE_INTEGER`. -/
def maxSafeInteger : ℕ := 9007199254740991

/-- An error a function of the source throws, with its class and message. -/
inductive JsError where
  | error (message : JsString)
  | typeError (message : JsString)
  /-- `ConvergentSyncInvariantError`. -/
  | invariant (message : JsString)
  deriving DecidableEq

/-- A call of the source that returns or throws. -/
abbrev Checked := Except JsError

/-- Throw unless the condition holds. -/
def ensure (holds : Bool) (error : JsError) : Checked Unit :=
  if holds then .ok () else .error error

@[simp] theorem ensure_eq_ok {holds : Bool} {error : JsError} {u : Unit} :
    ensure holds error = .ok u ↔ holds := by
  cases holds <;> simp [ensure]

/-! ## Checked computations -/

theorem bind_eq_ok {ε α β : Type} {x : Except ε α} {f : α → Except ε β} {b : β} :
    (x >>= f) = .ok b ↔ ∃ a, x = .ok a ∧ f a = .ok b := by
  cases x <;> simp [bind, Except.bind]

/-- A check followed by a computation. -/
theorem check_bind_eq_ok {ε β : Type} {x : Except ε Unit} {y : Except ε β} {b : β} :
    (x >>= fun _ => y) = .ok b ↔ x = .ok () ∧ y = .ok b := by
  rw [bind_eq_ok]
  constructor
  · rintro ⟨_, first, rest⟩
    exact ⟨first, rest⟩
  · rintro ⟨first, rest⟩
    exact ⟨(), first, rest⟩

@[simp] theorem ok_bind {ε α β : Type} (a : α) (f : α → Except ε β) :
    ((Except.ok a : Except ε α) >>= f) = f a := rfl

@[simp] theorem bind_ok {ε α : Type} (x : Except ε α) : (x >>= fun a => Except.ok a) = x := by
  cases x <;> rfl

@[simp] theorem pure_eq_ok {ε α : Type} (a : α) : (pure a : Except ε α) = .ok a := rfl

theorem forM_eq_ok {ε α : Type} {f : α → Except ε Unit} {l : List α} :
    l.forM f = .ok () ↔ ∀ x ∈ l, f x = .ok () := by
  induction l with
  | nil => exact ⟨fun _ x mem => absurd mem not_mem_nil, fun _ => rfl⟩
  | cons x l ih =>
    change (f x >>= fun _ => l.forM f) = .ok () ↔ _
    rw [check_bind_eq_ok, forall_mem_cons, ← ih]

theorem eraseDups_nodup {α : Type} [BEq α] [LawfulBEq α] (l : List α) : l.eraseDups.Nodup := by
  induction len : l.length using Nat.strong_induction_on generalizing l with
  | _ n ih =>
    cases l with
    | nil => simp
    | cons a rest =>
      rw [eraseDups_cons, nodup_cons]
      have shorter : (rest.filter fun b => !b == a).length < n := by
        rw [← len, length_cons]
        exact Nat.lt_succ_of_le (length_filter_le _ _)
      exact ⟨by simp [mem_eraseDups], ih _ shorter _ rfl⟩

/-! ## Strings -/

/-- `compareStrings`: code-unit order. -/
def compareStrings (left right : JsString) : Ordering := compare left right

theorem codeUnits_digit {c : Char} (digit : c.isDigit) :
    codeUnits c = [Fin.ofNat _ c.toNat] ∧ 48 ≤ c.toNat ∧ c.toNat ≤ 57 := by
  simp only [Char.isDigit, and_eq_true, decide_eq_true_eq, ge_iff_le, UInt32.le_iff_toNat_le]
    at digit
  have low : 48 ≤ c.toNat := digit.1
  have high : c.toNat ≤ 57 := digit.2
  exact ⟨by simp [codeUnits, show c.toNat < 0x10000 by omega], low, high⟩

theorem digits_isDigit {n : ℕ} {c : Char} (mem : c ∈ Nat.toDigits 10 n) : c.isDigit :=
  Nat.isDigit_of_mem_toDigits (by decide) (by decide) mem

/-- Every code unit of a decimal numeral is an ASCII digit. -/
theorem mem_decimal {n : ℕ} {u : Fin 65536} (mem : u ∈ decimal n) : 48 ≤ u.val ∧ u.val ≤ 57 := by
  obtain ⟨c, hc, hu⟩ := mem_flatMap.mp mem
  obtain ⟨units, low, high⟩ := codeUnits_digit (digits_isDigit hc)
  rw [units, mem_singleton] at hu
  subst hu
  simp only [Fin.ofNat]
  omega

theorem codeUnits_append_inj {c d : Char} {a b : JsString} (same : codeUnits c ++ a = codeUnits d ++ b) :
    c = d ∧ a = b := by
  have validC := c.valid
  have validD := d.valid
  simp only [UInt32.isValidChar, Nat.isValidChar] at validC validD
  change c.toNat < _ ∨ _ < c.toNat ∧ c.toNat < _ at validC
  change d.toNat < _ ∨ _ < d.toNat ∧ d.toNat < _ at validD
  simp only [codeUnits] at same
  by_cases smallC : c.toNat < 0x10000 <;> by_cases smallD : d.toNat < 0x10000 <;>
    simp only [smallC, smallD, if_true, if_false, cons_append, nil_append, List.cons.injEq, Fin.ofNat,
      Fin.mk.injEq] at same
  · exact ⟨Char.toNat_inj.mp (by omega), same.2⟩
  · omega
  · omega
  · exact ⟨Char.toNat_inj.mp (by omega), same.2.2⟩

theorem codeUnits_ne_nil (c : Char) : codeUnits c ≠ [] := by
  unfold codeUnits
  split <;> exact cons_ne_nil _ _

theorem flatMap_codeUnits_injective {l l' : List Char} (same : l.flatMap codeUnits = l'.flatMap codeUnits) :
    l = l' := by
  induction l generalizing l' with
  | nil =>
    cases l' with
    | nil => rfl
    | cons c l' => exact absurd (append_eq_nil_iff.mp same.symm).1 (codeUnits_ne_nil c)
  | cons c l ih =>
    cases l' with
    | nil => exact absurd (append_eq_nil_iff.mp same).1 (codeUnits_ne_nil c)
    | cons c' l' =>
      obtain ⟨rfl, rest⟩ := codeUnits_append_inj same
      rw [ih rest]

theorem text_inj {s t : String} : text s = text t ↔ s = t :=
  ⟨fun same => String.toList_injective (flatMap_codeUnits_injective same), fun same => same ▸ rfl⟩

theorem cut_unique {α : Type} {sep : α} {a b x y : List α} (inA : sep ∉ a) (inB : sep ∉ b)
    (same : a ++ sep :: x = b ++ sep :: y) : a = b ∧ x = y := by
  induction a generalizing b with
  | nil =>
    cases b with
    | nil => exact ⟨rfl, (List.cons.inj same).2⟩
    | cons u b => exact absurd ((List.cons.inj same).1 ▸ mem_cons_self) inB
  | cons v a ih =>
    cases b with
    | nil => exact absurd ((List.cons.inj same).1 ▸ mem_cons_self) inA
    | cons u b =>
      obtain ⟨rfl, rest⟩ := List.cons.inj same
      obtain ⟨rfl, rfl⟩ := ih (fun mem => inA (mem_cons_of_mem _ mem))
        (fun mem => inB (mem_cons_of_mem _ mem)) rest
      exact ⟨rfl, rfl⟩

theorem map_val_codeUnits {l : List Char} (small : ∀ c ∈ l, c.toNat < 0x10000) :
    (l.flatMap codeUnits).map Fin.val = l.map Char.toNat := by
  induction l with
  | nil => rfl
  | cons c l ih =>
    have first := small c (by simp)
    rw [flatMap_cons, map_append, ih fun x mem => small x (by simp [mem]), map_cons,
      codeUnits, if_pos first]
    simp [Nat.mod_eq_of_lt first]

theorem decimal_injective : Function.Injective decimal := by
  intro m n same
  have digits := flatMap_codeUnits_injective same
  rw [← Nat.ofDigitChars_ten_toDigits (n := m), digits, Nat.ofDigitChars_ten_toDigits]

/-! ## JSON -/

/-- A JSON value; an object is its own properties in insertion order. -/
inductive JsonValue where
  | null
  | bool (b : Bool)
  | num (n : ℚ)
  | str (s : JsString)
  | arr (items : List JsonValue)
  | obj (fields : List (JsString × JsonValue))

/-- A JSON object's own properties in insertion order. -/
abbrev JsonObject := List (JsString × JsonValue)

instance : Inhabited JsonValue := ⟨.null⟩

mutual
def JsonValue.beq : JsonValue → JsonValue → Bool
  | .null, .null => true
  | .bool a, .bool b => decide (a = b)
  | .num a, .num b => decide (a = b)
  | .str a, .str b => decide (a = b)
  | .arr a, .arr b => JsonValue.beqItems a b
  | .obj a, .obj b => JsonValue.beqFields a b
  | _, _ => false
/-- Equality of array items, in order. -/
def JsonValue.beqItems : List JsonValue → List JsonValue → Bool
  | [], [] => true
  | a :: as, b :: bs => JsonValue.beq a b && JsonValue.beqItems as bs
  | _, _ => false
/-- Equality of object properties, in order. -/
def JsonValue.beqFields : List (JsString × JsonValue) → List (JsString × JsonValue) → Bool
  | [], [] => true
  | a :: as, b :: bs => JsonValue.beqField a b && JsonValue.beqFields as bs
  | _, _ => false
/-- Equality of one property: its key and its value. -/
def JsonValue.beqField : JsString × JsonValue → JsString × JsonValue → Bool
  | (k, a), f => decide (k = f.1) && JsonValue.beq a f.2
termination_by structural a => a
end

mutual
theorem beq_sound : ∀ a b : JsonValue, JsonValue.beq a b → a = b
  | .null, b, h => by cases b <;> simp_all [JsonValue.beq]
  | .bool a, b, h => by cases b <;> simp_all [JsonValue.beq]
  | .num a, b, h => by cases b <;> simp_all [JsonValue.beq]
  | .str a, b, h => by cases b <;> simp_all [JsonValue.beq]
  | .arr a, b, h => by
    cases b with
    | arr b => exact congrArg JsonValue.arr (beqItems_sound a b (by simpa [JsonValue.beq] using h))
    | _ => simp [JsonValue.beq] at h
  | .obj a, b, h => by
    cases b with
    | obj b => exact congrArg JsonValue.obj (beqFields_sound a b (by simpa [JsonValue.beq] using h))
    | _ => simp [JsonValue.beq] at h
theorem beqItems_sound : ∀ a b : List JsonValue, JsonValue.beqItems a b → a = b
  | [], [], _ => rfl
  | [], _ :: _, h => by simp [JsonValue.beqItems] at h
  | _ :: _, [], h => by simp [JsonValue.beqItems] at h
  | a :: as, b :: bs, h => by
    simp only [JsonValue.beqItems, and_eq_true] at h
    rw [beq_sound a b h.1, beqItems_sound as bs h.2]
theorem beqFields_sound :
    ∀ a b : List (JsString × JsonValue), JsonValue.beqFields a b → a = b
  | [], [], _ => rfl
  | [], _ :: _, h => by simp [JsonValue.beqFields] at h
  | _ :: _, [], h => by simp [JsonValue.beqFields] at h
  | (k, a) :: as, (k', b) :: bs, h => by
    simp only [JsonValue.beqFields, JsonValue.beqField, and_eq_true, decide_eq_true_eq] at h
    rw [h.1.1, beq_sound a b h.1.2, beqFields_sound as bs h.2]
end

mutual
theorem beq_refl : ∀ a : JsonValue, JsonValue.beq a a
  | .null => by simp [JsonValue.beq]
  | .bool a => by simp [JsonValue.beq]
  | .num a => by simp [JsonValue.beq]
  | .str a => by simp [JsonValue.beq]
  | .arr a => by simpa [JsonValue.beq] using beqItems_refl a
  | .obj a => by simpa [JsonValue.beq] using beqFields_refl a
theorem beqItems_refl : ∀ a : List JsonValue, JsonValue.beqItems a a
  | [] => rfl
  | a :: as => by simp [JsonValue.beqItems, beq_refl a, beqItems_refl as]
theorem beqFields_refl : ∀ a : List (JsString × JsonValue), JsonValue.beqFields a a
  | [] => rfl
  | (k, a) :: as => by simp [JsonValue.beqFields, JsonValue.beqField, beq_refl a, beqFields_refl as]
end

instance : DecidableEq JsonValue := fun a b =>
  decidable_of_iff (JsonValue.beq a b = true) ⟨beq_sound a b, fun h => h ▸ beq_refl a⟩

mutual
/-- `canonicalizeJson`: every object's properties sorted by key. -/
def canonicalizeJson : JsonValue → JsonValue
  | .arr items => .arr (canonicalizeItems items)
  | .obj fields => .obj ((canonicalizeFields fields).insertionSort fun a b => a.1 ≤ b.1)
  | .null => .null
  | .bool b => .bool b
  | .num n => .num n
  | .str s => .str s
/-- `canonicalizeJson` on every item of an array. -/
def canonicalizeItems : List JsonValue → List JsonValue
  | [] => []
  | item :: items => canonicalizeJson item :: canonicalizeItems items
/-- `canonicalizeJson` on every property value, keys kept. -/
def canonicalizeFields : List (JsString × JsonValue) → List (JsString × JsonValue)
  | [] => []
  | field :: fields => canonicalizeField field :: canonicalizeFields fields
/-- `canonicalizeJson` on one property value. -/
def canonicalizeField : JsString × JsonValue → JsString × JsonValue
  | (key, value) => (key, canonicalizeJson value)
end

theorem canonicalizeItems_eq_map (items : List JsonValue) :
    canonicalizeItems items = items.map canonicalizeJson := by
  induction items with
  | nil => rfl
  | cons item items ih => simp [canonicalizeItems, ih]

theorem canonicalizeFields_eq_map (fields : List (JsString × JsonValue)) :
    canonicalizeFields fields = fields.map fun f => (f.1, canonicalizeJson f.2) := by
  induction fields with
  | nil => rfl
  | cons field fields ih =>
    obtain ⟨key, value⟩ := field
    simp [canonicalizeFields, canonicalizeField, ih]

theorem map_fixed {α : Type*} {f : α → α} {l : List α} (fixed : ∀ x ∈ l, f x = x) :
    l.map f = l := by
  conv_rhs => rw [← List.map_id l]
  exact map_congr_left fixed

mutual
theorem canonicalizeJson_idem : ∀ v : JsonValue,
    canonicalizeJson (canonicalizeJson v) = canonicalizeJson v
  | .null => rfl
  | .bool _ => rfl
  | .num _ => rfl
  | .str _ => rfl
  | .arr items => by
    simp only [canonicalizeJson, canonicalizeItems_eq_map]
    rw [map_fixed]
    intro x hx
    obtain ⟨y, hy, rfl⟩ := List.mem_map.mp hx
    exact canonicalizeItems_idem items y hy
  | .obj fields => by
    simp only [canonicalizeJson, canonicalizeFields_eq_map]
    rw [map_fixed]
    · rw [List.Pairwise.insertionSort_eq]
      exact pairwise_insertionSort _ _
    · intro x hx
      obtain ⟨y, hy, rfl⟩ := List.mem_map.mp ((mem_insertionSort _).mp hx)
      rw [canonicalizeFields_idem fields y hy]
theorem canonicalizeItems_idem : ∀ items : List JsonValue, ∀ v ∈ items,
    canonicalizeJson (canonicalizeJson v) = canonicalizeJson v
  | item :: items, v, hv => by
    rcases mem_cons.mp hv with same | hv
    · rw [same]; exact canonicalizeJson_idem item
    · exact canonicalizeItems_idem items v hv
theorem canonicalizeFields_idem : ∀ fields : List (JsString × JsonValue), ∀ f ∈ fields,
    canonicalizeJson (canonicalizeJson f.2) = canonicalizeJson f.2
  | (key, value) :: fields, f, hf => by
    rcases mem_cons.mp hf with same | hf
    · rw [same]; exact canonicalizeJson_idem value
    · exact canonicalizeFields_idem fields f hf
end

/-- `jsonValuesEqual` compares canonical JSON texts.  `JSON.stringify` prints
different canonical values differently, so the values are compared directly. -/
def jsonValuesEqual (left right : JsonValue) : Bool :=
  decide (canonicalizeJson left = canonicalizeJson right)

@[simp] theorem jsonValuesEqual_iff {left right : JsonValue} :
    jsonValuesEqual left right ↔ canonicalizeJson left = canonicalizeJson right := by
  simp [jsonValuesEqual]

end Netcatty
