import Mathlib.Data.List.Induction
import Netcatty.DirectoryManifest
import Netcatty.Sha256
import Netcatty.UnicodeText

/-!
The digests of a directory manifest.

The compression of the manifest is the standard's (`toHashValue_compress`), and `sha256Hex` is the
standard's hash of the bytes of any text (`sha256Hex_eq`).  A manifest of version 1 is a chain of
such hashes; in both versions a chain may be left and taken up again after any identities
(`digest_chain`).
-/

namespace Netcatty.TransferHistory

open Sha256 UnicodeText List

/-! ## Words -/

/-- The same eight words, read as the standard's. -/
def Sha256State.toHashValue (s : Sha256State) : HashValue :=
  ⟨s.a.toBitVec, s.b.toBitVec, s.c.toBitVec, s.d.toBitVec, s.e.toBitVec, s.f.toBitVec, s.g.toBitVec, s.h.toBitVec⟩

theorem K_eq : K = SHA256_ROUND_CONSTANTS.map UInt32.toBitVec := by decide +kernel

theorem initial_eq : Sha256.initial = SHA256_INITIAL_STATE.toHashValue := by decide +kernel

theorem toBitVec_rotateRight (word : UInt32) {n : UInt32} (positive : 0 < n.toNat) (small : n.toNat < 32) :
    (rotateRight word n).toBitVec = word.toBitVec.rotateRight n.toNat := by
  have rest : (32 - n).toNat = 32 - n.toNat := by
    rw [UInt32.toNat_sub_of_le _ _ (UInt32.le_iff_toNat_le.mpr (by simpa using small.le))]
    rfl
  apply BitVec.eq_of_toNat_eq
  have narrow : 32 - n.toNat < 32 := by omega
  simp only [rotateRight, UInt32.toNat_toBitVec, UInt32.toNat_or, UInt32.toNat_shiftRight, UInt32.toNat_shiftLeft,
    BitVec.toNat_rotateRight, rest, Nat.mod_eq_of_lt small, Nat.mod_eq_of_lt narrow]

theorem toHashValue_round (s : Sha256State) (k w : UInt32) :
    (s.round (k, w)).toHashValue = s.toHashValue.round k.toBitVec w.toBitVec := by
  simp [Sha256State.round, Sha256State.toHashValue, HashValue.round, Sigma0, Sigma1, Ch, Maj, toBitVec_rotateRight]

/-! ## Blocks -/

def standardWord (block : JsString) (t : ℕ) : Word := (bigEndianWord ((block.drop (4 * t)).take 4)).toBitVec

/-- A word of the schedule that is kept latest first. -/
theorem getD_schedule (W : ℕ → UInt32) {n back : ℕ} (positive : 0 < back) (small : back ≤ n) :
    ((List.range n).map W).reverse.getD (back - 1) 0 = W (n - back) := by
  have place : back - 1 < ((List.range n).map W).length := by
    rw [length_map, length_range]
    omega
  rw [getD_eq_getElem?_getD, getElem?_reverse place, getElem?_map, length_map, length_range,
    getElem?_range (by omega), show n - 1 - (back - 1) = n - back by omega]
  rfl

theorem extendSchedule_words (block : JsString) (steps : ℕ) :
    (List.range steps).foldl (fun words _ => extendSchedule words) (blockWords block) =
      ((List.range (16 + steps)).map fun t => UInt32.ofBitVec (schedule (standardWord block) t)).reverse := by
  induction steps with
  | zero =>
    rw [range_zero, foldl_nil, blockWords]
    apply congrArg List.reverse
    apply map_congr_left
    intro t mem
    rw [schedule, if_pos (mem_range.mp mem), standardWord]
  | succ steps ih =>
    rw [range_succ, foldl_append, ih, foldl_cons, foldl_nil, ← Nat.add_assoc, range_succ,
      map_append, reverse_append, extendSchedule]
    simp only [getD_schedule _ (show 0 < 15 by omega) (show 15 ≤ 16 + steps by omega),
      getD_schedule _ (show 0 < 2 by omega) (show 2 ≤ 16 + steps by omega),
      getD_schedule _ (show 0 < 16 by omega) (show 16 ≤ 16 + steps by omega),
      getD_schedule _ (show 0 < 7 by omega) (show 7 ≤ 16 + steps by omega)]
    have late : ¬16 + steps < 16 := by omega
    rw [map_cons, map_nil, reverse_singleton, singleton_append]
    congr 1
    apply UInt32.toBitVec_inj.mp
    rw [schedule.eq_def _ (16 + steps), if_neg late]
    simp [sigma0, sigma1, toBitVec_rotateRight]
    ac_rfl

theorem workSchedule_eq (block : JsString) :
    workSchedule block = (List.range 64).map fun t => UInt32.ofBitVec (schedule (standardWord block) t) := by
  rw [workSchedule, extendSchedule_words, reverse_reverse]

theorem toHashValue_compress (s : Sha256State) (block : JsString) :
    (compressSha256Block s block).toHashValue = compress s.toHashValue (standardWord block) := by
  have constants : SHA256_ROUND_CONSTANTS = (List.range 64).map fun t => SHA256_ROUND_CONSTANTS.getD t 0 := by
    decide +kernel
  have rounds : ((SHA256_ROUND_CONSTANTS.zip (workSchedule block)).foldl Sha256State.round s).toHashValue =
      (List.range 64).foldl (fun s t => s.round (K.getD t 0) (schedule (standardWord block) t)) s.toHashValue := by
    rw [constants, workSchedule_eq, zip_map', foldl_map]
    symm
    apply foldl_hom
    intro x t
    rw [toHashValue_round, K_eq]
    simp
  unfold compress
  rw [← rounds]
  simp [compressSha256Block, Sha256State.toHashValue]

/-! ## Texts -/

/-- `setBigUint64(offset, value, false)`. -/
def bigUint64 (value : ℕ) : List UInt8 := [56, 48, 40, 32, 24, 16, 8, 0].map fun shift => UInt8.ofNat (value / 2 ^ shift)

/-- `padded`: the length is that of a string's bytes, far below 2 to the 31. -/
def sha256Padded (data : List UInt8) : List UInt8 :=
  data ++ 0x80 :: (List.replicate ((data.length + 9 + 63) / 64 * 64 - (data.length + 9)) 0 ++ bigUint64 (data.length * 8))

def sha256Hex (value : JsString) : JsString :=
  let padded := (sha256Padded (encode value)).map DirectoryManifestAccumulator.byteUnit
  ((List.range (padded.length / 64)).foldl
    (fun H chunk => compressSha256Block H ((padded.drop (64 * chunk)).take 64)) SHA256_INITIAL_STATE).hex

def byteBits (data : List UInt8) : List Bool := data.flatMap fun byte => bits 8 byte.toNat

variable (data : List UInt8)

theorem length_byteBits : (byteBits data).length = 8 * data.length := by
  simp [byteBits, length_flatMap]
  ring

theorem byteBits_append (data more : List UInt8) : byteBits (data ++ more) = byteBits data ++ byteBits more :=
  flatMap_append

theorem byteBits_drop (n : ℕ) : (byteBits data).drop (8 * n) = byteBits (data.drop n) := by
  by_cases inside : n ≤ data.length
  · have cut : byteBits data = byteBits (data.take n) ++ byteBits (data.drop n) := by
      rw [← byteBits_append, take_append_drop]
    have length : (byteBits (data.take n)).length = 8 * n := by
      rw [length_byteBits, length_take_of_le inside]
    rw [cut, drop_left' length]
  · rw [drop_eq_nil_of_le (by rw [length_byteBits]; omega), drop_eq_nil_of_le (by omega)]
    rfl

theorem byteBits_take (n : ℕ) : (byteBits data).take (8 * n) = byteBits (data.take n) := by
  by_cases inside : n ≤ data.length
  · have cut : byteBits data = byteBits (data.take n) ++ byteBits (data.drop n) := by
      rw [← byteBits_append, take_append_drop]
    have length : (byteBits (data.take n)).length = 8 * n := by
      rw [length_byteBits, length_take_of_le inside]
    rw [cut, take_left' length]
  · rw [take_of_length_le (by rw [length_byteBits]; omega), take_of_length_le (by omega)]

theorem ofBits_byteBits :
    ofBits (byteBits data) = (data.map DirectoryManifestAccumulator.byteUnit).foldl
      (fun value unit => value * 256 + unit.val % 256) 0 := by
  induction data using List.reverseRecOn with
  | nil => rfl
  | append_singleton data byte ih =>
    have one : byteBits [byte] = bits 8 byte.toNat := by simp [byteBits]
    have small : byte.toNat < 256 := byte.toNat_lt
    rw [byteBits_append, ofBits_append, ih, one, ofBits_bits, length_bits, map_append, foldl_append]
    simp [DirectoryManifestAccumulator.byteUnit, Nat.mod_eq_of_lt small]

theorem byteBits_zeros (n : ℕ) : byteBits (List.replicate n 0) = List.replicate (8 * n) false := by
  induction n with
  | zero => rfl
  | succ n ih =>
    have zero : byteBits [0] = List.replicate 8 false := by decide
    rw [replicate_succ', byteBits_append, ih, zero, replicate_append_replicate, Nat.mul_succ]

theorem byteBits_bigUint64 (value : ℕ) : byteBits (bigUint64 value) = bits 64 value := by
  have byte (n : ℕ) : bits 8 (UInt8.ofNat n).toNat = bits 8 n := by
    rw [UInt8.toNat_ofNat']
    exact bits_mod 8 n 8 (Nat.le_refl 8)
  simp only [byteBits, bigUint64, map_cons, map_nil, flatMap_cons, flatMap_nil, byte, append_nil]
  rw [bits_add 8 56, bits_add 8 48, bits_add 8 40, bits_add 8 32, bits_add 8 24, bits_add 8 16, bits_add 8 8]
  simp

theorem byteBits_sha256Padded : byteBits (sha256Padded data) = pad (byteBits data) := by
  have first : byteBits [0x80] = true :: List.replicate 7 false := by decide
  have split : sha256Padded data = data ++ ([0x80] ++
      (List.replicate ((data.length + 9 + 63) / 64 * 64 - (data.length + 9)) 0 ++ bigUint64 (data.length * 8))) := rfl
  have count : zeros (8 * data.length) = 7 + 8 * ((data.length + 9 + 63) / 64 * 64 - (data.length + 9)) := by
    unfold zeros
    omega
  rw [split, byteBits_append, byteBits_append, byteBits_append, first, byteBits_zeros, byteBits_bigUint64, pad,
    length_byteBits, count, replicate_add, Nat.mul_comm data.length 8]
  simp

theorem blockWord_eq (i : ℕ) : blockWord (byteBits data) i =
      standardWord (((data.map DirectoryManifestAccumulator.byteUnit).drop (64 * i)).take 64) := by
  funext t
  have slice : (((byteBits data).drop (512 * i)).take 512).drop (32 * t) =
      byteBits (((data.drop (64 * i)).take 64).drop (4 * t)) := by
    rw [show 512 * i = 8 * (64 * i) by ring, show 32 * t = 8 * (4 * t) by ring, byteBits_drop,
      byteBits_take _ 64, byteBits_drop]
  have word (n : ℕ) : (UInt32.ofNat n).toBitVec = BitVec.ofNat 32 n := rfl
  unfold blockWord
  rw [slice, byteBits_take _ 4, ofBits_byteBits]
  simp [standardWord, bigEndianWord, word, map_take, map_drop]

/-- The hexadecimal text is that of the standard's hash of the text's bytes. -/
theorem sha256Hex_eq (value : JsString) :
    sha256Hex value = (Sha256.hash (byteBits (encode value))).words.flatMap fun word => hexWord (UInt32.ofBitVec word) := by
  have length : (sha256Padded (encode value)).length / 64 = (pad (byteBits (encode value))).length / 512 := by
    rw [← byteBits_sha256Padded, length_byteBits]
    omega
  have blocks : (List.range ((pad (byteBits (encode value))).length / 512)).foldl
      (fun H i => compress H (blockWord (pad (byteBits (encode value))) i)) Sha256.initial =
      Sha256State.toHashValue ((List.range ((sha256Padded (encode value)).length / 64)).foldl
        (fun H chunk => compressSha256Block H ((((sha256Padded (encode value)).map
          DirectoryManifestAccumulator.byteUnit).drop (64 * chunk)).take 64)) SHA256_INITIAL_STATE) := by
    rw [initial_eq, length]
    apply foldl_hom
    intro H chunk
    rw [toHashValue_compress, ← byteBits_sha256Padded, blockWord_eq]
  unfold Sha256.hash
  rw [blocks]
  simp [sha256Hex, Sha256State.hex, Sha256State.words, Sha256State.toHashValue, HashValue.words]

example : sha256Hex (text "abc") = text "ba7816bf8f01cfea414140de5dae2223b00361a396177a9cb410ff61f20015ad" := by
  decide +kernel

/-! ## Chains of version 1 -/

theorem isAscii_of_isHexDigit {unit : Fin 65536} (digit : isHexDigit unit) : IsAscii unit := by
  unfold isHexDigit at digit
  unfold IsAscii
  simp only [Bool.or_eq_true, Bool.and_eq_true, decide_eq_true_eq] at digit
  omega

theorem mem_isHex64 {s : JsString} (hex : isHex64 s) {unit : Fin 65536} (mem : unit ∈ s) :
    isHexDigit unit :=
  List.all_eq_true.mp (Bool.and_eq_true_iff.mp hex).2 unit mem

theorem length_isHex64 {s : JsString} (hex : isHex64 s) : s.length = 64 :=
  beq_iff_eq.mp (Bool.and_eq_true_iff.mp hex).1

theorem map_byteUnit_encode {s : JsString} (ascii : ∀ unit ∈ s, IsAscii unit) :
    (encode s).map DirectoryManifestAccumulator.byteUnit = s := by
  have bytes : encode s = s.map fun u => .ofNat u.val := by
    have all := encode_ascii_append ascii []
    rwa [append_nil, show encode [] = [] from rfl, append_nil] at all
  rw [bytes, List.map_map]
  refine (map_congr_left fun unit mem => ?_).trans (List.map_id s)
  have small : unit.val < 0x80 := ascii unit mem
  apply Fin.ext
  simp [DirectoryManifestAccumulator.byteUnit]
  omega

theorem hex_legacyDigest {previous identity : JsString} (hex : isHex64 previous) (hex' : isHex64 identity) :
    (DirectoryManifestAccumulator.legacyDigest previous identity).hex = sha256Hex (previous ++ (text ":" ++ identity)) := by
  have value : (text ":").map (·.val) = [58] := by decide
  have colon : ∀ unit ∈ text ":", IsAscii unit := by
    intro unit mem
    have here : unit.val ∈ (text ":").map (·.val) := List.mem_map_of_mem mem
    rw [value, mem_singleton] at here
    unfold IsAscii
    omega
  have ascii : ∀ unit ∈ previous ++ (text ":" ++ identity), IsAscii unit := by
    intro unit mem
    rcases mem_append.mp mem with mem | mem
    · exact isAscii_of_isHexDigit (mem_isHex64 hex mem)
    · rcases mem_append.mp mem with mem | mem
      · exact colon unit mem
      · exact isAscii_of_isHexDigit (mem_isHex64 hex' mem)
  have units := map_byteUnit_encode ascii
  have length : (encode (previous ++ (text ":" ++ identity))).length = 129 := by
    have same := congrArg List.length units
    have colon : (text ":").length = 1 := by decide
    rw [length_map, length_append, length_append, length_isHex64 hex, length_isHex64 hex', colon] at same
    exact same
  have padding : ((0x80 :: (List.replicate 54 0 ++ bigUint64 (129 * 8)) : List UInt8)).map DirectoryManifestAccumulator.byteUnit =
      DirectoryManifestAccumulator.legacyPadding := by decide
  have padded : (sha256Padded (encode (previous ++ (text ":" ++ identity)))).map DirectoryManifestAccumulator.byteUnit =
      previous ++ (text ":" ++ (identity ++ DirectoryManifestAccumulator.legacyPadding)) := by
    rw [sha256Padded, length, map_append, units, padding]
    simp
  have blocks : (previous ++ (text ":" ++ (identity ++ DirectoryManifestAccumulator.legacyPadding))).length / 64 = 3 := by
    have same := congrArg List.length padded
    rw [← same, length_map, sha256Padded, length]
    simp [length, bigUint64]
  unfold sha256Hex
  dsimp only
  rw [padded, blocks]
  rfl

/-! ## Reading a state back -/

theorem val_hexDigit {nibble : ℕ} (small : nibble < 16) :
    (hexDigit nibble).val = if nibble < 10 then nibble + 48 else nibble + 87 := by
  interval_cases nibble <;> decide

theorem hexValue_lt {unit : Fin 65536} (digit : isHexDigit unit) : hexValue unit < 16 := by
  unfold isHexDigit at digit
  simp only [Bool.or_eq_true, Bool.and_eq_true, decide_eq_true_eq] at digit
  unfold hexValue
  split <;> omega

theorem hexDigit_hexValue {unit : Fin 65536} (digit : isHexDigit unit) : hexDigit (hexValue unit) = unit := by
  apply Fin.ext
  rw [val_hexDigit (hexValue_lt digit)]
  unfold isHexDigit at digit
  simp only [Bool.or_eq_true, Bool.and_eq_true, decide_eq_true_eq] at digit
  unfold hexValue
  split <;> split <;> omega

theorem digits_of_value (v0 v1 v2 v3 v4 v5 v6 v7 : ℕ) (small : v0 < 16 ∧ v1 < 16 ∧ v2 < 16 ∧ v3 < 16 ∧ v4 < 16 ∧ v5 < 16 ∧ v6 < 16 ∧ v7 < 16) :
    [268435456, 16777216, 1048576, 65536, 4096, 256, 16, 1].map (fun place =>
      (((((((v0 * 16 + v1) * 16 + v2) * 16 + v3) * 16 + v4) * 16 + v5) * 16 + v6) * 16 + v7) / place % 16) =
    [v0, v1, v2, v3, v4, v5, v6, v7] := by
  simp only [map_cons, map_nil, List.cons.injEq, and_true]
  omega

theorem hexWord_parseWord {u0 u1 u2 u3 u4 u5 u6 u7 : Fin 65536}
    (digits : ∀ unit ∈ [u0, u1, u2, u3, u4, u5, u6, u7], isHexDigit unit) :
    hexWord (parseWord [u0, u1, u2, u3, u4, u5, u6, u7]) = [u0, u1, u2, u3, u4, u5, u6, u7] := by
  simp only [forall_mem_cons] at digits
  obtain ⟨d0, d1, d2, d3, d4, d5, d6, d7, -⟩ := digits
  have small := And.intro (hexValue_lt d0) (And.intro (hexValue_lt d1) (And.intro (hexValue_lt d2) (And.intro (hexValue_lt d3)
    (And.intro (hexValue_lt d4) (And.intro (hexValue_lt d5) (And.intro (hexValue_lt d6) (hexValue_lt d7)))))))
  have values := digits_of_value _ _ _ _ _ _ _ _ small
  have number : (parseWord [u0, u1, u2, u3, u4, u5, u6, u7]).toNat = (((((((hexValue u0 * 16 + hexValue u1) * 16 + hexValue u2) * 16 +
      hexValue u3) * 16 + hexValue u4) * 16 + hexValue u5) * 16 + hexValue u6) * 16 + hexValue u7) := by
    unfold parseWord
    rw [UInt32.toNat_ofNat']
    simp only [foldl_cons, foldl_nil]
    omega
  have split (word : UInt32) : hexWord word = ([268435456, 16777216, 1048576, 65536, 4096, 256, 16, 1].map
      fun place => word.toNat / place % 16).map hexDigit := rfl
  rw [split, number, values]
  simp [hexDigit_hexValue, d0, d1, d2, d3, d4, d5, d6, d7]

theorem flatMap_parseWords {count : ℕ} {hash : JsString} (length : hash.length = 8 * count)
    (digits : ∀ unit ∈ hash, isHexDigit unit) : (parseWords count hash).flatMap hexWord = hash := by
  induction count generalizing hash with
  | zero => exact (eq_nil_of_length_eq_zero length).symm
  | succ count ih =>
    have rest : (parseWords count (hash.drop 8)).flatMap hexWord = hash.drop 8 :=
      ih (by rw [length_drop]; omega) fun unit mem => digits unit (mem_of_mem_drop mem)
    have eight : (hash.take 8).length = 8 := by
      rw [length_take]
      omega
    have first : hexWord (parseWord (hash.take 8)) = hash.take 8 := by
      have digits' : ∀ unit ∈ hash.take 8, isHexDigit unit = true := fun unit mem => digits unit (mem_of_mem_take mem)
      generalize hash.take 8 = slice at eight digits'
      rcases slice with _ | ⟨u0, _ | ⟨u1, _ | ⟨u2, _ | ⟨u3, _ | ⟨u4, _ | ⟨u5, _ | ⟨u6, _ | ⟨u7, _ | ⟨u8, rest⟩⟩⟩⟩⟩⟩⟩⟩⟩
      case cons.cons.cons.cons.cons.cons.cons.cons.nil => exact hexWord_parseWord digits'
      all_goals simp at eight
    rw [parseWords, flatMap_cons, first, rest, take_append_drop]

theorem hex_parseState {hash : JsString} (hex : isHex64 hash) : (parseState hash).hex = hash := by
  have words : (parseState hash).words = parseWords 8 hash := rfl
  rw [Sha256State.hex, words]
  exact flatMap_parseWords (length_isHex64 hex) fun unit mem => mem_isHex64 hex mem

/-! ## Chains -/

namespace DirectoryManifestAccumulator

def digestAll (version : ManifestVersion) (manifestHash : JsString) (identities : List JsString) : Checked JsString := do
  let manifest ← create version manifestHash
  let manifest ← identities.foldlM append manifest
  return manifest.digest

def appendDirectoryCheckpointIdentity (version : ManifestVersion) (manifestHash entryIdentity : JsString) :
    Checked JsString := do
  let accumulator ← create version manifestHash
  let accumulator ← accumulator.append entryIdentity
  return accumulator.digest

variable (version : ManifestVersion)

/-- Any state of sixty-four digits is one that an accumulator has. -/
theorem create_eq {manifestHash : JsString} (hex : isHex64 manifestHash) :
    ∃ manifest : DirectoryManifestAccumulator, create version manifestHash = .ok manifest ∧ manifest.WellFormed ∧
      manifest.version = version ∧ manifest.digest = manifestHash := by
  cases version with
  | v1 => exact ⟨.v1 manifestHash, by simp [create, hex], hex, rfl, rfl⟩
  | v2 => exact ⟨.v2 (parseState manifestHash), by simp [create, hex], trivial, rfl, hex_parseState hex⟩

section

variable {manifestHash : JsString} {identities : List JsString} (hex : isHex64 manifestHash)
  (valid : ∀ identity ∈ identities, isHex64 identity)
include hex valid

theorem digestAll_resume :
    ∃ digest, isHex64 digest ∧ digestAll version manifestHash identities = .ok digest ∧
      ∀ more, digestAll version manifestHash (identities ++ more) = digestAll version digest more := by
  obtain ⟨manifest, made, formed, same, -⟩ := create_eq version hex
  obtain ⟨after, appended, same', formed'⟩ := foldlM_append formed valid
  have resumed := create_digest formed'
  rw [same', same] at resumed
  refine ⟨after.digest, isHex64_digest formed', ?_, ?_⟩
  · exact bind_eq_ok.mpr ⟨manifest, made, bind_eq_ok.mpr ⟨after, appended, rfl⟩⟩
  · intro more
    have further : (identities ++ more).foldlM append manifest = more.foldlM append after := by
      rw [List.foldlM_append, appended]
      rfl
    unfold digestAll
    rw [made, resumed]
    exact congrArg (fun manifest => manifest >>= fun manifest => return manifest.digest) further

omit hex valid in
theorem digestAll_parts {manifestHash : JsString} {parts : List (List JsString)}
    (hex : isHex64 manifestHash) (valid : ∀ part ∈ parts, ∀ identity ∈ part, isHex64 identity) :
    ∃ digest, isHex64 digest ∧ digestAll version manifestHash parts.flatten = .ok digest ∧
      parts.foldlM (digestAll version) manifestHash = .ok digest := by
  induction parts generalizing manifestHash with
  | nil =>
    obtain ⟨manifest, made, -, -, same⟩ := create_eq version hex
    refine ⟨manifestHash, hex, ?_, rfl⟩
    rw [← same] at made ⊢
    exact bind_eq_ok.mpr ⟨manifest, made, rfl⟩
  | cons part parts ih =>
    obtain ⟨middle, hex', first, resume⟩ := digestAll_resume version hex (valid part mem_cons_self)
    obtain ⟨digest, last, whole, split⟩ := ih hex' fun part' mem => valid part' (mem_cons_of_mem part mem)
    refine ⟨digest, last, ?_, ?_⟩
    · rw [flatten_cons, resume]
      exact whole
    · rw [foldlM_cons]
      exact bind_eq_ok.mpr ⟨middle, first, split⟩

omit hex valid in
theorem digestAll_singleton (manifestHash entryIdentity : JsString) :
    digestAll version manifestHash [entryIdentity] = appendDirectoryCheckpointIdentity version manifestHash entryIdentity := by
  simp [digestAll, appendDirectoryCheckpointIdentity]

theorem digestAll_v1 : digestAll .v1 manifestHash identities =
      .ok (identities.foldl (fun previous identity => sha256Hex (previous ++ (text ":" ++ identity))) manifestHash) := by
  induction identities generalizing manifestHash with
  | nil => simp [digestAll, create, hex, digest, pure, Except.pure, bind, Except.bind]
  | cons identity identities ih =>
    obtain ⟨step, hex', first, resume⟩ := @digestAll_resume .v1 manifestHash [identity] hex fun other mem =>
      mem_singleton.mp mem ▸ valid identity mem_cons_self
    have hex'' := valid identity mem_cons_self
    have one : step = sha256Hex (manifestHash ++ (text ":" ++ identity)) := by
      have made : create .v1 manifestHash = .ok (.v1 manifestHash) := by simp [create, hex]
      have fed : digestAll .v1 manifestHash [identity] = .ok (legacyDigest manifestHash identity).hex := by
        rw [digestAll_singleton]
        exact bind_eq_ok.mpr ⟨_, made, bind_eq_ok.mpr ⟨_, append_eq _ hex'', rfl⟩⟩
      rw [← hex_legacyDigest hex hex'']
      exact Except.ok.inj (first.symm.trans fed)
    rw [← singleton_append, resume, ih hex' fun other mem => valid other (mem_cons_of_mem identity mem), one]
    rfl

end

/-- From any state, identities that are appended to one accumulator, or to several that are each
taken up from the digest before, or one at a time, give one digest; in version 1 it is the chain of
the standard's hashes. -/
theorem digest_chain {manifestHash : JsString} {parts : List (List JsString)} (hex : isHex64 manifestHash = true)
    (valid : ∀ part ∈ parts, ∀ identity ∈ part, isHex64 identity = true) :
    (∀ value, sha256Hex value =
      (Sha256.hash (byteBits (encode value))).words.flatMap fun word => hexWord (UInt32.ofBitVec word)) ∧
    digestAll .v1 manifestHash parts.flatten =
      .ok (parts.flatten.foldl (fun previous identity => sha256Hex (previous ++ (text ":" ++ identity))) manifestHash) ∧
    ∀ version, ∃ digest, digestAll version manifestHash parts.flatten = .ok digest ∧
      parts.foldlM (digestAll version) manifestHash = .ok digest ∧
      parts.flatten.foldlM (appendDirectoryCheckpointIdentity version) manifestHash = .ok digest := by
  have each : ∀ identity ∈ parts.flatten, isHex64 identity = true := by
    intro identity mem
    obtain ⟨part, mem', here⟩ := mem_flatten.mp mem
    exact valid part mem' identity here
  refine ⟨sha256Hex_eq, digestAll_v1 hex each, ?_⟩
  intro version
  obtain ⟨digest, -, whole, split⟩ := digestAll_parts version hex valid
  refine ⟨digest, whole, split, ?_⟩
  have single : ∀ part ∈ parts.flatten.map ([·]), ∀ identity ∈ part, isHex64 identity = true := by
    intro part mem identity here
    obtain ⟨other, mem', rfl⟩ := List.mem_map.mp mem
    exact mem_singleton.mp here ▸ each other mem'
  obtain ⟨digest', -, whole', split'⟩ := digestAll_parts version hex single
  have flat : (parts.flatten.map ([·])).flatten = parts.flatten := by
    rw [← flatMap_def, flatMap_singleton']
  rw [flat, whole] at whole'
  rw [Except.ok.inj whole', ← split', foldlM_map]
  congr 1
  funext previous identity
  exact (digestAll_singleton version previous identity).symm

/-- Two zero identities appended to the empty manifest, one accumulator each. -/
theorem digest_chain_zeros :
    [[EMPTY_DIRECTORY_MANIFEST_HASH], [EMPTY_DIRECTORY_MANIFEST_HASH]].foldlM (digestAll .v1) EMPTY_DIRECTORY_MANIFEST_HASH =
      digestAll .v1 EMPTY_DIRECTORY_MANIFEST_HASH [EMPTY_DIRECTORY_MANIFEST_HASH, EMPTY_DIRECTORY_MANIFEST_HASH] := by
  have hex : isHex64 EMPTY_DIRECTORY_MANIFEST_HASH = true := by decide
  have valid : ∀ part ∈ [[EMPTY_DIRECTORY_MANIFEST_HASH], [EMPTY_DIRECTORY_MANIFEST_HASH]], ∀ identity ∈ part,
      isHex64 identity = true := by
    simp [hex]
  obtain ⟨digest, whole, split, -⟩ := (digest_chain hex valid).2.2 .v1
  exact split.trans whole.symm

end DirectoryManifestAccumulator

end Netcatty.TransferHistory
