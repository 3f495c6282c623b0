import Mathlib.Tactic.IntervalCases
import Netcatty.JsValue

/-!
The manifest of a directory transfer.

A checkpoint stands for the entries at the front of a directory walk: instead of their
rows it keeps how many there are and a chain of SHA-256 over their identities.  The state
of the compression function is written out between two prunes and read back, so what
matters here is that nothing is lost on the way.
-/

namespace Netcatty.TransferHistory

open List

/-! ## Hexadecimal text -/

def isHexDigit (unit : Fin 65536) : Bool :=
  (48 ≤ unit.val && unit.val ≤ 57) || (97 ≤ unit.val && unit.val ≤ 102)

/-- `/^[a-f0-9]{64}$/`. -/
def isHex64 (s : JsString) : Bool := s.length == 64 && s.all isHexDigit

def HEX_CHARACTER_CODES : JsString := text "0123456789abcdef"

def hexDigit (nibble : ℕ) : Fin 65536 := HEX_CHARACTER_CODES.getD nibble digitZero

/-- What `parseInt` to the base 16 reads in a digit. -/
def hexValue (unit : Fin 65536) : ℕ := if unit.val < 58 then unit.val - 48 else unit.val - 87

/-- `word.toString(16).padStart(8, "0")`. -/
def hexWord (word : UInt32) : JsString :=
  [268435456, 16777216, 1048576, 65536, 4096, 256, 16, 1].map fun place =>
    hexDigit (word.toNat / place % 16)

/-- `Number.parseInt(slice, 16) >>> 0`. -/
def parseWord (slice : JsString) : UInt32 :=
  UInt32.ofNat (slice.foldl (fun value unit => value * 16 + hexValue unit) 0)

theorem hexValue_hexDigit {nibble : ℕ} (small : nibble < 16) :
    hexValue (hexDigit nibble) = nibble := by
  interval_cases nibble <;> decide

theorem isHexDigit_hexDigit {nibble : ℕ} (small : nibble < 16) :
    isHexDigit (hexDigit nibble) := by
  interval_cases nibble <;> decide

theorem parseWord_hexWord (word : UInt32) : parseWord (hexWord word) = word := by
  have digit : ∀ place : ℕ, hexValue (hexDigit (word.toNat / place % 16)) =
      word.toNat / place % 16 := fun place => hexValue_hexDigit (Nat.mod_lt _ (by decide))
  have bound : word.toNat < 4294967296 := word.toNat_lt
  unfold parseWord hexWord
  simp only [map_cons, map_nil, foldl_cons, foldl_nil, digit]
  apply UInt32.toNat.inj
  rw [UInt32.toNat_ofNat']
  omega

/-! ## SHA-256 -/

/-- The eight words of a compression state. -/
structure Sha256State where
  a : UInt32
  b : UInt32
  c : UInt32
  d : UInt32
  e : UInt32
  f : UInt32
  g : UInt32
  h : UInt32
  deriving DecidableEq

def SHA256_ROUND_CONSTANTS : List UInt32 := [
  0x428a2f98, 0x71374491, 0xb5c0fbcf, 0xe9b5dba5, 0x3956c25b, 0x59f111f1, 0x923f82a4, 0xab1c5ed5,
  0xd807aa98, 0x12835b01, 0x243185be, 0x550c7dc3, 0x72be5d74, 0x80deb1fe, 0x9bdc06a7, 0xc19bf174,
  0xe49b69c1, 0xefbe4786, 0x0fc19dc6, 0x240ca1cc, 0x2de92c6f, 0x4a7484aa, 0x5cb0a9dc, 0x76f988da,
  0x983e5152, 0xa831c66d, 0xb00327c8, 0xbf597fc7, 0xc6e00bf3, 0xd5a79147, 0x06ca6351, 0x14292967,
  0x27b70a85, 0x2e1b2138, 0x4d2c6dfc, 0x53380d13, 0x650a7354, 0x766a0abb, 0x81c2c92e, 0x92722c85,
  0xa2bfe8a1, 0xa81a664b, 0xc24b8b70, 0xc76c51a3, 0xd192e819, 0xd6990624, 0xf40e3585, 0x106aa070,
  0x19a4c116, 0x1e376c08, 0x2748774c, 0x34b0bcb5, 0x391c0cb3, 0x4ed8aa4a, 0x5b9cca4f, 0x682e6ff3,
  0x748f82ee, 0x78a5636f, 0x84c87814, 0x8cc70208, 0x90befffa, 0xa4506ceb, 0xbef9a3f7, 0xc67178f2]

def SHA256_INITIAL_STATE : Sha256State :=
  ⟨0x6a09e667, 0xbb67ae85, 0x3c6ef372, 0xa54ff53a, 0x510e527f, 0x9b05688c, 0x1f83d9ab, 0x5be0cd19⟩

def rotateRight (word n : UInt32) : UInt32 := (word >>> n) ||| (word <<< (32 - n))

def bigEndianWord (bytes : JsString) : UInt32 :=
  UInt32.ofNat (bytes.foldl (fun value unit => value * 256 + unit.val % 256) 0)

/-- The first sixteen words of the schedule, latest first. -/
def blockWords (block : JsString) : List UInt32 :=
  ((List.range 16).map fun i => bigEndianWord ((block.drop (4 * i)).take 4)).reverse

/-- One more word of the schedule.  The words so far are latest first, so `W[i - 2]` is at
place 1. -/
def extendSchedule (words : List UInt32) : List UInt32 :=
  let word := fun back => words.getD (back - 1) 0
  let s0 := rotateRight (word 15) 7 ^^^ rotateRight (word 15) 18 ^^^ (word 15 >>> 3)
  let s1 := rotateRight (word 2) 17 ^^^ rotateRight (word 2) 19 ^^^ (word 2 >>> 10)
  (word 16 + s0 + word 7 + s1) :: words

def workSchedule (block : JsString) : List UInt32 :=
  ((List.range 48).foldl (fun words _ => extendSchedule words) (blockWords block)).reverse

def Sha256State.round (s : Sha256State) (constantAndWord : UInt32 × UInt32) : Sha256State :=
  let s1 := rotateRight s.e 6 ^^^ rotateRight s.e 11 ^^^ rotateRight s.e 25
  let ch := (s.e &&& s.f) ^^^ (~~~s.e &&& s.g)
  let temp1 := s.h + s1 + ch + constantAndWord.1 + constantAndWord.2
  let s0 := rotateRight s.a 2 ^^^ rotateRight s.a 13 ^^^ rotateRight s.a 22
  let majority := (s.a &&& s.b) ^^^ (s.a &&& s.c) ^^^ (s.b &&& s.c)
  let temp2 := s0 + majority
  ⟨temp1 + temp2, s.a, s.b, s.c, s.d + temp1, s.e, s.f, s.g⟩

/-- A block of 64 bytes, given as code units. -/
def compressSha256Block (state : Sha256State) (block : JsString) : Sha256State :=
  let s := (SHA256_ROUND_CONSTANTS.zip (workSchedule block)).foldl Sha256State.round state
  ⟨state.a + s.a, state.b + s.b, state.c + s.c, state.d + s.d, state.e + s.e, state.f + s.f,
    state.g + s.g, state.h + s.h⟩

def Sha256State.words (s : Sha256State) : List UInt32 := [s.a, s.b, s.c, s.d, s.e, s.f, s.g, s.h]

def Sha256State.ofWords (words : List UInt32) : Sha256State :=
  let word := fun index => words.getD index 0
  ⟨word 0, word 1, word 2, word 3, word 4, word 5, word 6, word 7⟩

def Sha256State.hex (s : Sha256State) : JsString := s.words.flatMap hexWord

/-- The words of the first `count` slices of eight digits. -/
def parseWords : ℕ → JsString → List UInt32
  | 0, _ => []
  | count + 1, hash => parseWord (hash.take 8) :: parseWords count (hash.drop 8)

def parseState (hash : JsString) : Sha256State := .ofWords (parseWords 8 hash)

theorem length_hexWord (word : UInt32) : (hexWord word).length = 8 := rfl

theorem parseWords_flatMap (words : List UInt32) :
    parseWords words.length (words.flatMap hexWord) = words := by
  induction words with
  | nil => rfl
  | cons word rest ih =>
    rw [flatMap_cons, length_cons, parseWords, take_left' (length_hexWord word),
      drop_left' (length_hexWord word), parseWord_hexWord, ih]

/-- A state that is written out and read back is the same. -/
theorem parseState_hex (s : Sha256State) : parseState s.hex = s :=
  congrArg Sha256State.ofWords (parseWords_flatMap s.words)

theorem isHex64_hex (s : Sha256State) : isHex64 s.hex := by
  have digits : ∀ word : UInt32, (hexWord word).all isHexDigit = true := by
    intro word
    apply List.all_eq_true.mpr
    intro unit mem
    obtain ⟨place, _, rfl⟩ := List.mem_map.mp mem
    exact isHexDigit_hexDigit (Nat.mod_lt _ (by decide))
  have length : s.hex.length = 64 := by
    simp only [Sha256State.hex, Sha256State.words, flatMap_cons, flatMap_nil,
      length_append, length_hexWord, length_nil]
  apply Bool.and_eq_true_iff.mpr
  refine ⟨beq_iff_eq.mpr length, ?_⟩
  apply List.all_eq_true.mpr
  intro unit mem
  obtain ⟨word, _, here⟩ := mem_flatMap.mp mem
  exact List.all_eq_true.mp (digits word) unit here

/-! ## Checkpoints -/

inductive ManifestVersion where
  /-- A full digest for every entry. -/
  | v1
  /-- The compression state. -/
  | v2
  deriving DecidableEq

/-- Any other version makes a checkpoint invalid, and is left out. -/
structure DirectoryResumeCheckpoint where
  version : ManifestVersion
  coveredEntries : ℤ
  completedEntries : ℤ
  manifestHash : JsString
  deriving DecidableEq

def isSafeInteger (n : ℤ) : Bool := -maxSafeInteger ≤ n && n ≤ maxSafeInteger

def isValidDirectoryResumeCheckpoint : Option DirectoryResumeCheckpoint → Bool
  | none => false
  | some checkpoint =>
    isSafeInteger checkpoint.coveredEntries && 0 ≤ checkpoint.coveredEntries &&
      isSafeInteger checkpoint.completedEntries && 0 ≤ checkpoint.completedEntries &&
      checkpoint.completedEntries ≤ checkpoint.coveredEntries && isHex64 checkpoint.manifestHash

def EMPTY_DIRECTORY_MANIFEST_HASH : JsString := List.replicate 64 digitZero

def EMPTY_DIRECTORY_MANIFEST_STATE_V2 : JsString := SHA256_INITIAL_STATE.hex

def createEmptyDirectoryResumeCheckpoint : DirectoryResumeCheckpoint :=
  { version := .v2, coveredEntries := 0, completedEntries := 0,
    manifestHash := EMPTY_DIRECTORY_MANIFEST_STATE_V2 }

def emptyManifestHash : ManifestVersion → JsString
  | .v1 => EMPTY_DIRECTORY_MANIFEST_HASH
  | .v2 => EMPTY_DIRECTORY_MANIFEST_STATE_V2

/-! ## The accumulator -/

inductive DirectoryManifestAccumulator where
  | v1 (message : JsString)
  | v2 (state : Sha256State)

namespace DirectoryManifestAccumulator

def create (version : ManifestVersion) (manifestHash : JsString) :
    Checked DirectoryManifestAccumulator :=
  if !isHex64 manifestHash then .error (.error (text "Invalid directory manifest state"))
  else
    match version with
    | .v1 => .ok (.v1 manifestHash)
    | .v2 => .ok (.v2 (parseState manifestHash))

def byteUnit (byte : UInt8) : Fin 65536 := ⟨byte.toNat, byte.toNat_lt.trans (by decide)⟩

/-- The padding of a message of 129 bytes, with its length in bits at the end. -/
def legacyPadding : JsString :=
  ([0x80] ++ List.replicate 54 0 ++ [0, 0, 0, 0, 0, 0, 4, 8] : List UInt8).map byteUnit

/-- The three blocks of `previousHash:entryIdentity`. -/
def legacyDigest (message entryIdentity : JsString) : Sha256State :=
  let bytes := message ++ (text ":" ++ (entryIdentity ++ legacyPadding))
  compressSha256Block (compressSha256Block (compressSha256Block SHA256_INITIAL_STATE
    (bytes.take 64)) ((bytes.drop 64).take 64)) ((bytes.drop 128).take 64)

/-- `append` of an identity that is well formed. -/
def feed (entryIdentity : JsString) : DirectoryManifestAccumulator → DirectoryManifestAccumulator
  | .v1 message => .v1 (legacyDigest message entryIdentity).hex
  | .v2 state => .v2 (compressSha256Block state entryIdentity)

def append (manifest : DirectoryManifestAccumulator) (entryIdentity : JsString) :
    Checked DirectoryManifestAccumulator :=
  if !isHex64 entryIdentity then .error (.error (text "Invalid directory manifest identity"))
  else .ok (manifest.feed entryIdentity)

def digest : DirectoryManifestAccumulator → JsString
  | .v1 message => message
  | .v2 state => state.hex

def version : DirectoryManifestAccumulator → ManifestVersion
  | .v1 _ => .v1
  | .v2 _ => .v2

/-- The text an accumulator of version 1 holds is a digest. -/
def WellFormed : DirectoryManifestAccumulator → Prop
  | .v1 message => isHex64 message = true
  | .v2 _ => True

variable {manifest : DirectoryManifestAccumulator}

theorem isHex64_digest (formed : manifest.WellFormed) : isHex64 manifest.digest := by
  cases manifest with
  | v1 message => exact formed
  | v2 state => exact isHex64_hex state

/-- An accumulator that is written out and created again is the same. -/
theorem create_digest (formed : manifest.WellFormed) :
    create manifest.version manifest.digest = .ok manifest := by
  have valid := isHex64_digest formed
  unfold create
  rw [valid]
  cases manifest with
  | v1 message => rfl
  | v2 state => exact congrArg (fun s => Except.ok (v2 s)) (parseState_hex state)

theorem create_wellFormed {version : ManifestVersion} {manifestHash : JsString}
    {manifest : DirectoryManifestAccumulator} (made : create version manifestHash = .ok manifest) :
    manifest.version = version ∧ manifest.WellFormed := by
  unfold create at made
  split at made
  · exact nomatch made
  · next valid =>
    have hex : isHex64 manifestHash = true := by
      rw [Bool.not_eq_true', Bool.not_eq_false] at valid
      exact valid
    cases version with
    | v1 =>
      obtain rfl := Except.ok.inj made
      exact ⟨rfl, hex⟩
    | v2 =>
      obtain rfl := Except.ok.inj made
      exact ⟨rfl, trivial⟩

theorem append_eq {entryIdentity : JsString} (manifest : DirectoryManifestAccumulator)
    (valid : isHex64 entryIdentity) :
    manifest.append entryIdentity = .ok (manifest.feed entryIdentity) := by
  unfold append
  rw [valid]
  rfl

theorem wellFormed_v1 {message : JsString} (hex : isHex64 message) :
    (v1 message).WellFormed := hex

theorem feed_wellFormed (formed : manifest.WellFormed) (entryIdentity : JsString) :
    (manifest.feed entryIdentity).version = manifest.version ∧
      (manifest.feed entryIdentity).WellFormed := by
  cases manifest with
  | v1 message =>
    simp only [feed, version, true_and]
    exact wellFormed_v1 (isHex64_hex (legacyDigest message entryIdentity))
  | v2 state =>
    simp only [feed, version, WellFormed, and_self]

theorem foldlM_append {identities : List JsString} {manifest : DirectoryManifestAccumulator}
    (formed : manifest.WellFormed)
    (valid : ∀ identity ∈ identities, isHex64 identity) :
    ∃ after : DirectoryManifestAccumulator, identities.foldlM append manifest = .ok after ∧
      after.version = manifest.version ∧ after.WellFormed := by
  induction identities generalizing manifest with
  | nil => exact ⟨manifest, rfl, rfl, formed⟩
  | cons identity rest ih =>
    obtain ⟨same, formed'⟩ := feed_wellFormed formed identity
    obtain ⟨after, appended, version, last⟩ :=
      ih formed' fun other mem => valid other (mem_cons_of_mem _ mem)
    refine ⟨after, ?_, version.trans same, last⟩
    rw [foldlM_cons, append_eq manifest (valid identity mem_cons_self)]
    exact appended

theorem foldlM_append_wellFormed {identities : List JsString}
    {manifest after : DirectoryManifestAccumulator} (formed : manifest.WellFormed)
    (appended : identities.foldlM append manifest = .ok after) :
    after.version = manifest.version ∧ after.WellFormed := by
  induction identities generalizing manifest with
  | nil =>
    obtain rfl := Except.ok.inj appended
    exact ⟨rfl, formed⟩
  | cons identity rest ih =>
    rw [foldlM_cons] at appended
    obtain ⟨next, fed, later⟩ := bind_eq_ok.mp appended
    unfold append at fed
    split at fed
    · exact nomatch fed
    · obtain rfl := Except.ok.inj fed
      obtain ⟨same, formed'⟩ := feed_wellFormed formed identity
      obtain ⟨version, last⟩ := ih formed' later
      exact ⟨version.trans same, last⟩

end DirectoryManifestAccumulator

/-- The manifest of the first entries of a walk, as `validateDirectoryResumeCheckpoint`
rebuilds it. -/
def rebuildManifest (version : ManifestVersion) (identities : List JsString) : Checked JsString := do
  let manifest ← DirectoryManifestAccumulator.create version (emptyManifestHash version)
  let manifest ← identities.foldlM DirectoryManifestAccumulator.append manifest
  return manifest.digest

/-- A chain that is taken up again from its text goes on as if it had not been left. -/
theorem rebuildManifest_append {version : ManifestVersion} {identities more : List JsString}
    {manifestHash : JsString} (rebuilt : rebuildManifest version identities = .ok manifestHash)
    (valid : ∀ identity ∈ more, isHex64 identity) :
    ∃ manifest after : DirectoryManifestAccumulator,
      DirectoryManifestAccumulator.create version manifestHash = .ok manifest ∧
      more.foldlM DirectoryManifestAccumulator.append manifest = .ok after ∧
      isHex64 after.digest ∧
      rebuildManifest version (identities ++ more) = .ok after.digest := by
  obtain ⟨start, made, rest⟩ := bind_eq_ok.mp rebuilt
  obtain ⟨manifest, appended, digested⟩ := bind_eq_ok.mp rest
  obtain rfl := Except.ok.inj digested
  obtain ⟨startVersion, startFormed⟩ := DirectoryManifestAccumulator.create_wellFormed made
  obtain ⟨same, formed⟩ :=
    DirectoryManifestAccumulator.foldlM_append_wellFormed startFormed appended
  obtain ⟨after, further, _, last⟩ := DirectoryManifestAccumulator.foldlM_append formed valid
  refine ⟨manifest, after, ?_, further, DirectoryManifestAccumulator.isHex64_digest last, ?_⟩
  · rw [← startVersion, ← same]
    exact DirectoryManifestAccumulator.create_digest formed
  · unfold rebuildManifest
    apply bind_eq_ok.mpr
    refine ⟨start, made, ?_⟩
    apply bind_eq_ok.mpr
    refine ⟨after, ?_, rfl⟩
    rw [List.foldlM_append]
    exact bind_eq_ok.mpr ⟨manifest, appended, further⟩

end Netcatty.TransferHistory
