import Mathlib.Data.List.Basic

/-!
UTF-16 and UTF-8.

A text is a list of 16-bit code units, which may hold surrogates without their
partner.  Encoding it as UTF-8 replaces each of those by U+FFFD.  The decoder is
the usual machine that reads one byte at a time and replaces what no encoder
writes.  Decoding what was encoded gives the text with its lone surrogates
replaced, wherever the bytes end.
-/

namespace UnicodeText

open List

def replacementCharacter : ℕ := 0xFFFD

/-- A surrogate, of either half. -/
def isSurrogate (n : ℕ) : Bool := 0xD800 ≤ n && n < 0xE000

/-- A code point that is not a surrogate. -/
def IsScalar (n : ℕ) : Prop := n < 0xD800 ∨ 0xE000 ≤ n ∧ n < 0x110000

theorem isScalar_replacementCharacter : IsScalar replacementCharacter := by
  simp [IsScalar, replacementCharacter]

/-! ## UTF-16 -/

abbrev CodeUnit := Fin 65536

variable (u : CodeUnit)

def isHighSurrogate : Bool := 0xD800 ≤ u.val && u.val < 0xDC00

def isLowSurrogate : Bool := 0xDC00 ≤ u.val && u.val < 0xE000

/-- A unit that stands for itself. -/
def lone : ℕ := if isSurrogate u.val then replacementCharacter else u.val

def pairPoint (high low : CodeUnit) : ℕ :=
  0x10000 + (high.val - 0xD800) * 0x400 + (low.val - 0xDC00)

/-- The code points of a text, each lone surrogate replaced. -/
def scalars : List CodeUnit → List ℕ
  | [] => []
  | [u] => [lone u]
  | u :: v :: rest =>
    if isHighSurrogate u && isLowSurrogate v then pairPoint u v :: scalars rest
    else lone u :: scalars (v :: rest)

/-- No surrogate of the text lacks its partner. -/
def isWellFormed : List CodeUnit → Bool
  | [] => true
  | [u] => !isSurrogate u.val
  | u :: v :: rest =>
    if isHighSurrogate u && isLowSurrogate v then isWellFormed rest
    else !isSurrogate u.val && isWellFormed (v :: rest)

def unit (n : ℕ) : CodeUnit := ⟨n % 65536, Nat.mod_lt _ (by decide)⟩

def unitsOf (n : ℕ) : List CodeUnit :=
  if n < 0x10000 then [unit n]
  else [unit (0xD800 + (n - 0x10000) / 0x400), unit (0xDC00 + (n - 0x10000) % 0x400)]

/-- The text with its lone surrogates replaced. -/
def toWellFormed (s : List CodeUnit) : List CodeUnit := (scalars s).flatMap unitsOf

theorem lone_isScalar : IsScalar (lone u) := by
  unfold lone
  split
  · exact isScalar_replacementCharacter
  · rename_i plain
    simp only [isSurrogate, Bool.and_eq_true, decide_eq_true_eq, not_and] at plain
    unfold IsScalar
    omega

theorem pairPoint_isScalar {u v : CodeUnit} (high : isHighSurrogate u)
    (low : isLowSurrogate v) : IsScalar (pairPoint u v) := by
  simp only [isHighSurrogate, isLowSurrogate, Bool.and_eq_true, decide_eq_true_eq] at high low
  unfold IsScalar pairPoint
  omega

variable (s : List CodeUnit)

theorem scalars_isScalar : ∀ n ∈ scalars s, IsScalar n := by
  induction s using scalars.induct with
  | case1 => simp [scalars]
  | case2 u => simpa [scalars] using lone_isScalar u
  | case3 u v rest pair ih =>
    rw [scalars, if_pos pair]
    rw [Bool.and_eq_true] at pair
    simpa using ⟨pairPoint_isScalar pair.1 pair.2, ih⟩
  | case4 u v rest pair ih =>
    rw [scalars, if_neg pair]
    simpa using ⟨lone_isScalar u, by simpa using ih⟩

theorem unitsOf_lone {u : CodeUnit} (plain : isSurrogate u.val = false) : unitsOf (lone u) = [u] := by
  have value : lone u = u.val := by rw [lone, plain]; rfl
  rw [unitsOf, value, if_pos u.isLt, unit]
  exact congrArg (fun v => [v]) (Fin.ext (Nat.mod_eq_of_lt u.isLt))

theorem unitsOf_pair {u v : CodeUnit} (high : isHighSurrogate u)
    (low : isLowSurrogate v) : unitsOf (pairPoint u v) = [u, v] := by
  simp only [isHighSurrogate, isLowSurrogate, Bool.and_eq_true, decide_eq_true_eq] at high low
  have large : ¬ pairPoint u v < 0x10000 := by
    unfold pairPoint
    omega
  have first : (0xD800 + (pairPoint u v - 0x10000) / 0x400) % 65536 = u.val := by
    unfold pairPoint
    omega
  have second : (0xDC00 + (pairPoint u v - 0x10000) % 0x400) % 65536 = v.val := by
    unfold pairPoint
    omega
  rw [unitsOf, if_neg large, unit, unit]
  exact congrArg₂ (fun a b => [a, b]) (Fin.ext first) (Fin.ext second)

theorem length_unitsOf_lone : (unitsOf (lone u)).length = 1 := by
  have small : lone u < 0x10000 := by
    unfold lone replacementCharacter
    split <;> omega
  simp [unitsOf, small]

@[simp] theorem length_toWellFormed : (toWellFormed s).length = s.length := by
  unfold toWellFormed
  induction s using scalars.induct with
  | case1 => rfl
  | case2 u => simp [scalars, length_unitsOf_lone]
  | case3 u v rest pair ih =>
    rw [scalars, if_pos pair]
    rw [Bool.and_eq_true] at pair
    simp [unitsOf_pair pair.1 pair.2, ih]
  | case4 u v rest pair ih =>
    rw [scalars, if_neg pair, flatMap_cons, length_append, length_unitsOf_lone, ih]
    simp only [length_cons]
    omega

/-- A text stays as it is exactly when it is well formed. -/
theorem toWellFormed_eq_self : toWellFormed s = s ↔ isWellFormed s := by
  unfold toWellFormed
  induction s using scalars.induct with
  | case1 => simp [scalars, isWellFormed]
  | case2 u =>
    cases plain : isSurrogate u.val with
    | false => simp [scalars, isWellFormed, plain, unitsOf_lone]
    | true =>
      simp only [scalars, isWellFormed, plain, lone, if_true]
      refine iff_of_false ?_ (by simp)
      intro same
      have value := congrArg (List.map Fin.val) same
      simp only [isSurrogate, Bool.and_eq_true, decide_eq_true_eq] at plain
      simp [unitsOf, unit, replacementCharacter] at value
      omega
  | case3 u v rest pair ih =>
    rw [scalars, isWellFormed, if_pos pair, if_pos pair, ← ih]
    rw [Bool.and_eq_true] at pair
    simp [unitsOf_pair pair.1 pair.2]
  | case4 u v rest pair ih =>
    rw [scalars, isWellFormed, if_neg pair, if_neg pair, flatMap_cons]
    cases plain : isSurrogate u.val with
    | false => simp [unitsOf_lone plain, ← ih]
    | true =>
      refine iff_of_false ?_ (by simp)
      intro same
      have value := congrArg (fun l => (l.head?).map Fin.val) same
      simp only [isSurrogate, Bool.and_eq_true, decide_eq_true_eq] at plain
      simp [lone, isSurrogate, plain, unitsOf, unit, replacementCharacter] at value
      omega

/-! ## Concatenation -/

theorem scalars_cons {u : CodeUnit} (plain : isHighSurrogate u = false) (rest : List CodeUnit) :
    scalars (u :: rest) = lone u :: scalars rest := by
  cases rest with
  | nil => simp [scalars]
  | cons v rest => simp [scalars, plain]

theorem scalars_pair {u v : CodeUnit} (high : isHighSurrogate u)
    (low : isLowSurrogate v) (rest : List CodeUnit) :
    scalars (u :: v :: rest) = pairPoint u v :: scalars rest := by
  simp [scalars, high, low]

theorem scalars_append {s t : List CodeUnit} (cut : ∀ v, t.head? = some v → isLowSurrogate v = false) :
    scalars (s ++ t) = scalars s ++ scalars t := by
  induction s using scalars.induct with
  | case1 => rfl
  | case2 u =>
    cases t with
    | nil => rfl
    | cons v t => simp [scalars, cut v rfl]
  | case3 u v rest pair ih =>
    rw [scalars, if_pos pair, cons_append, cons_append, scalars, if_pos pair, ih]
    rfl
  | case4 u v rest pair ih =>
    rw [scalars, if_neg pair, cons_append, cons_append, scalars, if_neg pair,
      ← cons_append, ih]
    rfl

/-- A unit below 0x80. -/
def IsAscii : Prop := u.val < 0x80

theorem IsAscii.plain {u : CodeUnit} (ascii : IsAscii u) :
    isHighSurrogate u = false ∧ isSurrogate u.val = false := by
  unfold IsAscii at ascii
  constructor
  · simp only [isHighSurrogate, Bool.and_eq_false_iff, decide_eq_false_iff_not]
    omega
  · simp only [isSurrogate, Bool.and_eq_false_iff, decide_eq_false_iff_not]
    omega

theorem scalars_ascii_append {a : List CodeUnit} (ascii : ∀ u ∈ a, IsAscii u)
    (s : List CodeUnit) : scalars (a ++ s) = a.map Fin.val ++ scalars s := by
  induction a with
  | nil => rfl
  | cons u a ih =>
    have plain := (ascii u (by simp)).plain
    have value : lone u = u.val := by
      rw [lone, plain.2]
      rfl
    rw [cons_append, scalars_cons plain.1, ih fun v mem => ascii v (by simp [mem]), value]
    rfl

theorem toWellFormed_ascii_append {a : List CodeUnit} (ascii : ∀ u ∈ a, IsAscii u)
    (s : List CodeUnit) : toWellFormed (a ++ s) = a ++ toWellFormed s := by
  rw [toWellFormed, scalars_ascii_append ascii, flatMap_append, toWellFormed]
  congr 1
  induction a with
  | nil => rfl
  | cons u a ih =>
    have plain := (ascii u (by simp)).plain
    have value : lone u = u.val := by
      rw [lone, plain.2]
      rfl
    rw [map_cons, flatMap_cons, ih fun v mem => ascii v (by simp [mem]), ← value,
      unitsOf_lone plain.2]
    rfl

@[simp] theorem toWellFormed_nil : toWellFormed [] = [] := rfl

/-- The units of a code point are read back as that code point. -/
theorem scalars_unitsOf {n : ℕ} (valid : IsScalar n) (s : List CodeUnit) :
    scalars (unitsOf n ++ s) = n :: scalars s := by
  unfold IsScalar at valid
  unfold unitsOf
  split
  · rename_i small
    have value : (unit n).val = n := Nat.mod_eq_of_lt small
    have notHigh : isHighSurrogate (unit n) = false := by
      simp only [isHighSurrogate, value, Bool.and_eq_false_iff, decide_eq_false_iff_not]
      omega
    have notSurrogate : isSurrogate (unit n).val = false := by
      simp only [isSurrogate, value, Bool.and_eq_false_iff, decide_eq_false_iff_not]
      omega
    rw [singleton_append, scalars_cons notHigh, lone, notSurrogate, value]
    rfl
  · rename_i large
    have first : (unit (0xD800 + (n - 0x10000) / 0x400)).val = 0xD800 + (n - 0x10000) / 0x400 :=
      Nat.mod_eq_of_lt (by omega)
    have second : (unit (0xDC00 + (n - 0x10000) % 0x400)).val = 0xDC00 + (n - 0x10000) % 0x400 :=
      Nat.mod_eq_of_lt (by omega)
    have high : isHighSurrogate (unit (0xD800 + (n - 0x10000) / 0x400)) = true := by
      simp only [isHighSurrogate, first, Bool.and_eq_true, decide_eq_true_eq]
      omega
    have low : isLowSurrogate (unit (0xDC00 + (n - 0x10000) % 0x400)) = true := by
      simp only [isLowSurrogate, second, Bool.and_eq_true, decide_eq_true_eq]
      omega
    have value : pairPoint (unit (0xD800 + (n - 0x10000) / 0x400))
        (unit (0xDC00 + (n - 0x10000) % 0x400)) = n := by
      unfold pairPoint
      omega
    exact (scalars_pair high low s).trans (congrArg (· :: scalars s) value)

@[simp] theorem scalars_toWellFormed : scalars (toWellFormed s) = scalars s := by
  have all : ∀ l : List ℕ, (∀ n ∈ l, IsScalar n) → scalars (l.flatMap unitsOf) = l := by
    intro l valid
    induction l with
    | nil => rfl
    | cons n rest ih =>
      rw [flatMap_cons, scalars_unitsOf (valid n (by simp)),
        ih fun m mem => valid m (by simp [mem])]
  exact all _ (scalars_isScalar s)

@[simp] theorem toWellFormed_toWellFormed : toWellFormed (toWellFormed s) = toWellFormed s := by
  rw [toWellFormed, scalars_toWellFormed, toWellFormed]

theorem mem_of_mem_scalars {s : List CodeUnit} {n : ℕ} (mem : n ∈ scalars s) (small : n < 0x80) :
    ∃ u ∈ s, u.val = n := by
  have single : ∀ u : CodeUnit, n = lone u → u.val = n := by
    intro u same
    unfold lone replacementCharacter at same
    split at same <;> omega
  induction s using scalars.induct with
  | case1 => simp [scalars] at mem
  | case2 u => exact ⟨u, by simp, single u (by simpa [scalars] using mem)⟩
  | case3 u v rest pair ih =>
    rw [scalars, if_pos pair] at mem
    rcases mem_cons.mp mem with same | mem
    · unfold pairPoint at same
      omega
    · obtain ⟨w, held, value⟩ := ih mem
      exact ⟨w, by simp [held], value⟩
  | case4 u v rest pair ih =>
    rw [scalars, if_neg pair] at mem
    rcases mem_cons.mp mem with same | mem
    · exact ⟨u, by simp, single u same⟩
    · obtain ⟨w, held, value⟩ := ih mem
      exact ⟨w, mem_cons_of_mem _ held, value⟩

theorem mem_of_mem_toWellFormed {s : List CodeUnit} {u : CodeUnit} (mem : u ∈ toWellFormed s)
    (ascii : IsAscii u) : u ∈ s := by
  obtain ⟨n, point, mem⟩ := mem_flatMap.mp mem
  have valid := scalars_isScalar s n point
  unfold IsAscii at ascii
  have same : n = u.val := by
    unfold IsScalar at valid
    unfold unitsOf at mem
    split at mem
    · rename_i small
      rw [mem_singleton.mp mem]
      exact (Nat.mod_eq_of_lt small).symm
    · have first : (unit (0xD800 + (n - 0x10000) / 0x400)).val = 0xD800 + (n - 0x10000) / 0x400 :=
        Nat.mod_eq_of_lt (by omega)
      have second : (unit (0xDC00 + (n - 0x10000) % 0x400)).val = 0xDC00 + (n - 0x10000) % 0x400 :=
        Nat.mod_eq_of_lt (by omega)
      simp only [mem_cons, not_mem_nil, or_false] at mem
      rcases mem with same | same <;> rw [same] at ascii <;> omega
  subst same
  obtain ⟨v, held, value⟩ := mem_of_mem_scalars point ascii
  exact Fin.ext value ▸ held

/-! ## UTF-8 -/

/-- The bytes of a code point. -/
def bytesOf (n : ℕ) : List UInt8 :=
  if n < 0x80 then [.ofNat n]
  else if n < 0x800 then [.ofNat (0xC0 + n / 0x40), .ofNat (0x80 + n % 0x40)]
  else if n < 0x10000 then
    [.ofNat (0xE0 + n / 0x1000), .ofNat (0x80 + n / 0x40 % 0x40), .ofNat (0x80 + n % 0x40)]
  else
    [.ofNat (0xF0 + n / 0x40000), .ofNat (0x80 + n / 0x1000 % 0x40),
      .ofNat (0x80 + n / 0x40 % 0x40), .ofNat (0x80 + n % 0x40)]

def encode (s : List CodeUnit) : List UInt8 := (scalars s).flatMap bytesOf

inductive DecoderState where
  | start
  /-- Inside a code point: its bits so far, the bytes to come after the next one,
  and the range of the next one. -/
  | within (bits more lower upper : ℕ)

def decodeFirst (byte : UInt8) : DecoderState × List ℕ :=
  let n := byte.toNat
  if n < 0x80 then (.start, [n])
  else if 0xC2 ≤ n ∧ n < 0xE0 then (.within (n - 0xC0) 0 0x80 0xBF, [])
  else if 0xE0 ≤ n ∧ n < 0xF0 then
    (.within (n - 0xE0) 1 (if n = 0xE0 then 0xA0 else 0x80) (if n = 0xED then 0x9F else 0xBF), [])
  else if 0xF0 ≤ n ∧ n < 0xF5 then
    (.within (n - 0xF0) 2 (if n = 0xF0 then 0x90 else 0x80) (if n = 0xF4 then 0x8F else 0xBF), [])
  else (.start, [replacementCharacter])

/-- A byte out of range ends the code point and is read again. -/
def decodeByte (state : DecoderState) (byte : UInt8) : DecoderState × List ℕ :=
  match state with
  | .start => decodeFirst byte
  | .within bits more lower upper =>
    if byte.toNat < lower ∨ upper < byte.toNat then
      let next := decodeFirst byte
      (next.1, replacementCharacter :: next.2)
    else
      let bits := bits * 0x40 + (byte.toNat - 0x80)
      match more with
      | 0 => (.start, [bits])
      | more + 1 => (.within bits more 0x80 0xBF, [])

def decodeFrom (state : DecoderState) : List UInt8 → List ℕ
  | [] =>
    match state with
    | .start => []
    | .within .. => [replacementCharacter]
  | byte :: bytes =>
    let next := decodeByte state byte
    next.2 ++ decodeFrom next.1 bytes

def decode (bytes : List UInt8) : List CodeUnit := (decodeFrom .start bytes).flatMap unitsOf

theorem toNat_byte {n : ℕ} (small : n < 256) : (UInt8.ofNat n).toNat = n := by
  rw [UInt8.toNat_ofNat']
  exact Nat.mod_eq_of_lt small

/-- A continuation byte in range, with more to come. -/
theorem decode_more {bits more lower upper n : ℕ} {bytes : List UInt8} (above : lower ≤ n)
    (below : n ≤ upper) (small : n < 256) :
    decodeFrom (.within bits (more + 1) lower upper) (.ofNat n :: bytes) =
      decodeFrom (.within (bits * 0x40 + (n - 0x80)) more 0x80 0xBF) bytes := by
  rw [decodeFrom, decodeByte, toNat_byte small, if_neg (by omega)]
  rfl

theorem decode_last {bits lower upper n : ℕ} {bytes : List UInt8} (above : lower ≤ n)
    (below : n ≤ upper) (small : n < 256) :
    decodeFrom (.within bits 0 lower upper) (.ofNat n :: bytes) =
      (bits * 0x40 + (n - 0x80)) :: decodeFrom .start bytes := by
  rw [decodeFrom, decodeByte, toNat_byte small, if_neg (by omega)]
  rfl

theorem decodeFrom_bytesOf {n : ℕ} (valid : IsScalar n) (bytes : List UInt8) :
    decodeFrom .start (bytesOf n ++ bytes) = n :: decodeFrom .start bytes := by
  unfold IsScalar at valid
  unfold bytesOf
  split
  · rename_i one
    rw [singleton_append, decodeFrom, decodeByte, decodeFirst, toNat_byte (by omega),
      if_pos one]
    rfl
  · split
    · rename_i one two
      rw [cons_append, decodeFrom, decodeByte, decodeFirst, toNat_byte (by omega),
        if_neg (by omega), if_pos (by omega), singleton_append,
        decode_last (by omega) (by omega) (by omega), nil_append]
      exact congrArg (· :: decodeFrom .start bytes) (by omega)
    · split
      · rename_i one two three
        rw [cons_append, decodeFrom, decodeByte, decodeFirst, toNat_byte (by omega),
          if_neg (by omega), if_neg (by omega), if_pos (by omega), cons_append,
          decode_more (by split <;> omega) (by split <;> omega) (by omega), singleton_append,
          decode_last (by omega) (by omega) (by omega), nil_append]
        exact congrArg (· :: decodeFrom .start bytes) (by omega)
      · rename_i one two three
        rw [cons_append, decodeFrom, decodeByte, decodeFirst, toNat_byte (by omega),
          if_neg (by omega), if_neg (by omega), if_neg (by omega), if_pos (by omega),
          cons_append,
          decode_more (by split <;> omega) (by split <;> omega) (by omega), cons_append,
          decode_more (by omega) (by omega) (by omega), singleton_append,
          decode_last (by omega) (by omega) (by omega), nil_append]
        exact congrArg (· :: decodeFrom .start bytes) (by omega)

theorem decodeFrom_flatMap {l : List ℕ} (valid : ∀ n ∈ l, IsScalar n) (bytes : List UInt8) :
    decodeFrom .start (l.flatMap bytesOf ++ bytes) = l ++ decodeFrom .start bytes := by
  induction l with
  | nil => rfl
  | cons n rest ih =>
    rw [flatMap_cons, append_assoc, decodeFrom_bytesOf (valid n (by simp)),
      ih fun m mem => valid m (by simp [mem]), cons_append]

theorem decode_encode : decode (encode s) = toWellFormed s := by
  have all := decodeFrom_flatMap (scalars_isScalar s) []
  rw [append_nil] at all
  rw [decode, encode, all, toWellFormed, decodeFrom, append_nil]

/-! ## Bytes below 0x80 -/

theorem bytesOf_ascii {n : ℕ} (small : n < 0x80) : bytesOf n = [.ofNat n] := by
  rw [bytesOf, if_pos small]

theorem encode_ascii_append {a : List CodeUnit} (ascii : ∀ u ∈ a, IsAscii u) (s : List CodeUnit) :
    encode (a ++ s) = a.map (fun u => .ofNat u.val) ++ encode s := by
  rw [encode, scalars_ascii_append ascii, flatMap_append, encode]
  congr 1
  induction a with
  | nil => rfl
  | cons u a ih =>
    rw [map_cons, flatMap_cons, bytesOf_ascii (ascii u (by simp)),
      ih fun v mem => ascii v (by simp [mem])]
    rfl

theorem encode_append {s t : List CodeUnit} (cut : ∀ v, t.head? = some v → isLowSurrogate v = false) :
    encode (s ++ t) = encode s ++ encode t := by
  rw [encode, scalars_append cut, flatMap_append, encode, encode]

theorem mem_of_mem_encode {s : List CodeUnit} {byte : UInt8} (mem : byte ∈ encode s)
    (small : byte.toNat < 0x80) : ∃ u ∈ s, u.val = byte.toNat := by
  obtain ⟨n, point, mem⟩ := mem_flatMap.mp mem
  have valid := scalars_isScalar s n point
  have same : n = byte.toNat := by
    unfold IsScalar at valid
    unfold bytesOf at mem
    split at mem
    · rw [mem_singleton.mp mem, toNat_byte (by omega)]
    · split at mem
      · simp only [mem_cons, not_mem_nil, or_false] at mem
        rcases mem with same | same <;> rw [same, toNat_byte (by omega)] at small <;> omega
      · split at mem
        · simp only [mem_cons, not_mem_nil, or_false] at mem
          rcases mem with same | same | same <;> rw [same, toNat_byte (by omega)] at small <;> omega
        · simp only [mem_cons, not_mem_nil, or_false] at mem
          rcases mem with same | same | same | same <;>
            rw [same, toNat_byte (by omega)] at small <;> omega
  subst same
  exact mem_of_mem_scalars point small

theorem encode_ne_nil {s : List CodeUnit} (nonempty : s ≠ []) : encode s ≠ [] := by
  intro empty
  have same := decode_encode s
  rw [empty] at same
  have lengths := congrArg List.length same
  rw [length_toWellFormed] at lengths
  exact nonempty (length_eq_zero_iff.mp lengths.symm)

theorem length_bytesOf_lone_le : (bytesOf (lone u)).length ≤ 3 := by
  have small : lone u < 0x10000 := by
    unfold lone replacementCharacter
    split <;> omega
  unfold bytesOf
  simp only [if_pos small]
  split
  · exact Nat.le_add_left 1 2
  split
  · exact Nat.le_succ 2
  · exact Nat.le_refl 3

theorem length_bytesOf_pair (u v : CodeUnit) : (bytesOf (pairPoint u v)).length = 4 := by
  unfold bytesOf pairPoint
  rw [if_neg (by omega), if_neg (by omega), if_neg (by omega)]
  rfl

theorem length_encode_le_append_right (s t : List CodeUnit) : (encode t).length ≤ (encode (s ++ t)).length := by
  induction s with
  | nil => exact Nat.le_refl _
  | cons u s ih =>
    refine Nat.le_trans ih ?_
    rw [cons_append]
    generalize s ++ t = rest
    cases rest with
    | nil => exact Nat.zero_le _
    | cons v rest =>
      by_cases pair : (isHighSurrogate u && isLowSurrogate v) = true
      · have low : isHighSurrogate v = false := by
          simp only [isHighSurrogate, isLowSurrogate, Bool.and_eq_true, decide_eq_true_eq] at pair
          simp only [isHighSurrogate, Bool.and_eq_false_iff, decide_eq_false_iff_not]
          omega
        have single := length_bytesOf_lone_le v
        simp only [encode, scalars_cons low, scalars, if_pos pair, flatMap_cons, length_append,
          length_bytesOf_pair]
        omega
      · simp only [encode, scalars, if_neg pair, flatMap_cons, length_append]
        omega

theorem length_encode_le_append_left (s t : List CodeUnit) : (encode s).length ≤ (encode (s ++ t)).length := by
  induction s using scalars.induct with
  | case1 => exact Nat.zero_le _
  | case2 u =>
    cases t with
    | nil => exact Nat.le_refl _
    | cons v t =>
      have single := length_bytesOf_lone_le u
      simp only [encode, scalars, singleton_append]
      split
      · simp only [flatMap_cons, flatMap_nil, length_append, length_bytesOf_pair, length_nil]
        omega
      · simp only [flatMap_cons, flatMap_nil, length_append, length_nil]
        omega
  | case3 u v rest pair ih =>
    simp only [encode] at ih
    simp only [encode, cons_append, scalars, if_pos pair, flatMap_cons, length_append]
    omega
  | case4 u v rest pair ih =>
    simp only [encode, cons_append] at ih
    simp only [encode, cons_append, scalars, if_neg pair, flatMap_cons, length_append]
    omega

end UnicodeText
