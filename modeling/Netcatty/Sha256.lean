import Mathlib.Data.Nat.Prime.Basic
import Mathlib.Data.List.Basic
import Mathlib.Tactic.Ring

/-!
SHA-256, as the standard writes it.

A message is any sequence of bits.  It is padded to blocks of 512 bits, each block is expanded to
sixty-four words and compressed into eight words of hash value.  The constants are not listed but
computed: they are the first bits of the fractional parts of roots of primes (`root_spec`).
-/

namespace Netcatty.Sha256

open List

abbrev Word := BitVec 32

/-! ## Functions -/

def Ch (x y z : Word) : Word := (x &&& y) ^^^ (~~~x &&& z)

def Maj (x y z : Word) : Word := (x &&& y) ^^^ (x &&& z) ^^^ (y &&& z)

/-- The standard's upper-case sigmas. -/
def Sigma0 (x : Word) : Word := x.rotateRight 2 ^^^ x.rotateRight 13 ^^^ x.rotateRight 22

def Sigma1 (x : Word) : Word := x.rotateRight 6 ^^^ x.rotateRight 11 ^^^ x.rotateRight 25

/-- The standard's lower-case sigmas. -/
def sigma0 (x : Word) : Word := x.rotateRight 7 ^^^ x.rotateRight 18 ^^^ (x >>> 3)

def sigma1 (x : Word) : Word := x.rotateRight 17 ^^^ x.rotateRight 19 ^^^ (x >>> 10)

/-! ## Constants -/

/-- The greatest number below `c + 2 ^ bits` whose `k`-th power is at most `n`, bit by bit. -/
def root (k n : ℕ) : ℕ → ℕ → ℕ
  | c, 0 => c
  | c, bits + 1 => if (c + 2 ^ bits) ^ k ≤ n then root k n (c + 2 ^ bits) bits else root k n c bits

theorem root_spec {k n c bits : ℕ} (below : c ^ k ≤ n) (above : n < (c + 2 ^ bits) ^ k) :
    root k n c bits ^ k ≤ n ∧ n < (root k n c bits + 1) ^ k := by
  induction bits generalizing c with
  | zero => exact ⟨below, above⟩
  | succ bits ih =>
    unfold root
    split
    · rename_i fits
      exact ih fits (by rwa [add_assoc, ← two_mul, ← pow_succ'])
    · rename_i high
      exact ih below (Nat.lt_of_not_le high)

/-- The first thirty-two bits of the fractional part of the `k`-th root of `n`, for a root below
2 to the 5. -/
def fractionBits (k n : ℕ) : Word := BitVec.ofNat 32 (root k (n * 2 ^ (32 * k)) 0 37)

/-- The first sixty-four primes. -/
def primes : List ℕ := (List.range 312).filter fun n => 2 ≤ n ∧ ∀ d ∈ List.range n, 2 ≤ d → n % d ≠ 0

theorem mem_primes_iff (n : ℕ) : n ∈ primes ↔ n < 312 ∧ n.Prime := by
  unfold primes
  rw [mem_filter, mem_range, Nat.prime_def_lt', decide_eq_true_iff]
  simp only [mem_range, ne_eq, Nat.dvd_iff_mod_eq_zero]
  constructor
  · rintro ⟨small, two, none⟩
    exact ⟨small, two, fun d two' less => none d less two'⟩
  · rintro ⟨small, two, none⟩
    exact ⟨small, two, fun d less two' => none d two' less⟩

def K : List Word := primes.map (fractionBits 3)

/-- The eight words of a hash value, or the eight working variables. -/
structure HashValue where
  a : Word
  b : Word
  c : Word
  d : Word
  e : Word
  f : Word
  g : Word
  h : Word
  deriving DecidableEq

def HashValue.words (s : HashValue) : List Word := [s.a, s.b, s.c, s.d, s.e, s.f, s.g, s.h]

def HashValue.ofWords (words : List Word) : HashValue :=
  let word := fun index => words.getD index 0
  ⟨word 0, word 1, word 2, word 3, word 4, word 5, word 6, word 7⟩

def initial : HashValue := .ofWords ((primes.take 8).map (fractionBits 2))

/-! ## Preprocessing -/

/-- The bits of a number, the first one first. -/
def bits : ℕ → ℕ → List Bool
  | 0, _ => []
  | width + 1, n => n.testBit width :: bits width n

/-- The number whose bits these are. -/
def ofBits (message : List Bool) : ℕ := message.foldl (fun value bit => 2 * value + bit.toNat) 0

/-- The least number of zeros that makes the length, with one more bit, 448 modulo 512. -/
def zeros (length : ℕ) : ℕ := (447 + 512 - length % 512) % 512

theorem zeros_spec (length : ℕ) :
    (length + 1 + zeros length) % 512 = 448 ∧ ∀ k, (length + 1 + k) % 512 = 448 → zeros length ≤ k := by
  unfold zeros
  constructor
  · omega
  · intro k fits
    omega

def pad (message : List Bool) : List Bool :=
  message ++ true :: (List.replicate (zeros message.length) false ++ bits 64 message.length)

def blockWord (padded : List Bool) (i t : ℕ) : Word :=
  BitVec.ofNat 32 (ofBits ((((padded.drop (512 * i)).take 512).drop (32 * t)).take 32))

/-! ## Computation -/

/-- The message schedule of a block. -/
def schedule (M : ℕ → Word) (t : ℕ) : Word :=
  if t < 16 then M t
  else sigma1 (schedule M (t - 2)) + schedule M (t - 7) + sigma0 (schedule M (t - 15)) + schedule M (t - 16)

def HashValue.round (s : HashValue) (k w : Word) : HashValue :=
  let T1 := s.h + Sigma1 s.e + Ch s.e s.f s.g + k + w
  let T2 := Sigma0 s.a + Maj s.a s.b s.c
  ⟨T1 + T2, s.a, s.b, s.c, s.d + T1, s.e, s.f, s.g⟩

def compress (H : HashValue) (M : ℕ → Word) : HashValue :=
  let s := (List.range 64).foldl (fun s t => s.round (K.getD t 0) (schedule M t)) H
  ⟨H.a + s.a, H.b + s.b, H.c + s.c, H.d + s.d, H.e + s.e, H.f + s.f, H.g + s.g, H.h + s.h⟩

def hash (message : List Bool) : HashValue :=
  let padded := pad message
  (List.range (padded.length / 512)).foldl (fun H i => compress H (blockWord padded i)) initial

/-! ## Bits and bytes -/

@[simp] theorem length_bits (width n : ℕ) : (bits width n).length = width := by
  induction width with
  | zero => rfl
  | succ width ih => rw [bits, length_cons, ih]

theorem foldl_ofBits (message : List Bool) (value : ℕ) :
    message.foldl (fun value bit => 2 * value + bit.toNat) value = value * 2 ^ message.length + ofBits message := by
  induction message generalizing value with
  | nil => simp [ofBits]
  | cons bit message ih =>
    unfold ofBits
    rw [foldl_cons, foldl_cons, ih, ih, length_cons, pow_succ]
    ring

theorem ofBits_append (message more : List Bool) :
    ofBits (message ++ more) = ofBits message * 2 ^ more.length + ofBits more := by
  unfold ofBits
  rw [foldl_append]
  exact foldl_ofBits more _

theorem ofBits_bits (width n : ℕ) : ofBits (bits width n) = n % 2 ^ width := by
  induction width with
  | zero => simp [bits, ofBits, Nat.mod_one]
  | succ width ih =>
    have head : bits (width + 1) n = [n.testBit width] ++ bits width n := rfl
    have first : ofBits [n.testBit width] = n / 2 ^ width % 2 := by simp [ofBits, Nat.toNat_testBit]
    rw [head, ofBits_append, ih, length_bits, Nat.mod_pow_succ, first]
    ring

/-- Cutting a long number in bytes or in other pieces cuts its bits. -/
theorem bits_add (width more n : ℕ) : bits (width + more) n = bits width (n / 2 ^ more) ++ bits more n := by
  induction width with
  | zero => simp [bits]
  | succ width ih =>
    rw [Nat.succ_add, bits, ih, bits, cons_append, Nat.testBit_div_two_pow]

theorem bits_mod (width n m : ℕ) (small : width ≤ m) : bits width (n % 2 ^ m) = bits width n := by
  induction width with
  | zero => rfl
  | succ width ih =>
    have here : width < m := small
    simp [bits, ih (by omega), Nat.testBit_mod_two_pow, here]

end Netcatty.Sha256
