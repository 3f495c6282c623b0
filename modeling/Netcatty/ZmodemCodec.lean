import Mathlib.Data.List.Basic

/-!
Data subpackets of ZMODEM on the wire.

A subpacket is its payload, escaped by ZDLE, the pair of ZDLE and a frame end, and an escaped
checksum over the payload and the frame end.
-/

namespace Netcatty.Zmodem

open List Option Function

abbrev Bytes := List UInt8

def ZDLE : UInt8 := 0x18
def XON : UInt8 := 0x11
def XOFF : UInt8 := 0x13
def XON_HIGH : UInt8 := XON ||| 0x80
def XOFF_HIGH : UInt8 := XOFF ||| 0x80

/-- How a subpacket ends. -/
inductive FrameEnd where
  /-- ZCRCE. -/
  | end_no_ack
  /-- ZCRCG. -/
  | no_end_no_ack
  /-- ZCRCQ. -/
  | no_end_ack
  /-- ZCRCW. -/
  | end_ack
  deriving DecidableEq

/-- `FRAME_END_KEYS`. -/
def FRAME_END_KEYS (byte : UInt8) : Option FrameEnd :=
  if byte = 104 then some .end_no_ack
  else if byte = 105 then some .no_end_no_ack
  else if byte = 106 then some .no_end_ack
  else if byte = 107 then some .end_ack
  else none

def FrameEnd.num : FrameEnd → UInt8
  | .end_no_ack => 104
  | .no_end_no_ack => 105
  | .no_end_ack => 106
  | .end_ack => 107

/-- Does the frame end here (`frame_end()`)? -/
def FrameEnd.frame_end : FrameEnd → Bool
  | .end_no_ack => true
  | .no_end_no_ack => false
  | .no_end_ack => false
  | .end_ack => true

structure Subpacket where
  payload : Bytes
  frameEnd : FrameEnd
  deriving DecidableEq

/-! ## Checksums -/

/-- One bit of an entry of `CRC16_TABLE`. -/
def crc16Bit (currByte : UInt16) : UInt16 :=
  if currByte &&& 0x8000 ≠ 0 then (currByte <<< 1) ^^^ 0x1021 else currByte <<< 1

def CRC16_TABLE (divident : UInt8) : UInt16 :=
  (List.range 8).foldl (fun currByte _ => crc16Bit currByte) (divident.toUInt16 <<< 8)

def crc32Bit (c : UInt32) : UInt32 := if c &&& 1 ≠ 0 then (0xedb88320 : UInt32) ^^^ (c >>> 1) else c >>> 1

def CRC32_TABLE (n : UInt8) : UInt32 := (List.range 8).foldl (fun c _ => crc32Bit c) n.toUInt32

def crc16Step (crc : UInt16) (byte : UInt8) : UInt16 :=
  CRC16_TABLE (crc >>> 8).toUInt8 ^^^ (crc <<< 8) ^^^ byte.toUInt16

def crc16Bytes (payload : Bytes) (frameEndNum : UInt8) : UInt16 :=
  crc16Step (crc16Step (crc16Step (payload.foldl crc16Step 0) frameEndNum) 0) 0

def crc32Step (crc : UInt32) (byte : UInt8) : UInt32 :=
  CRC32_TABLE (crc.toUInt8 ^^^ byte) ^^^ (crc >>> 8)

def crc32Bytes (payload : Bytes) (frameEndNum : UInt8) : UInt32 :=
  crc32Step (payload.foldl crc32Step 0xffffffff) frameEndNum ^^^ 0xffffffff

/-- The two checksums a header announces. -/
inductive CrcLen where
  | two
  | four
  deriving DecidableEq

def CrcLen.length : CrcLen → ℕ
  | .two => 2
  | .four => 4

/-- The bytes of the checksum: the high byte first for two, the low byte first for four. -/
def CrcLen.expected (crcLen : CrcLen) (payload : Bytes) (frameEndNum : UInt8) : Bytes :=
  match crcLen with
  | .two =>
    let v := crc16Bytes payload frameEndNum
    [(v >>> 8).toUInt8, v.toUInt8]
  | .four =>
    let v := crc32Bytes payload frameEndNum
    [v.toUInt8, (v >>> 8).toUInt8, (v >>> 16).toUInt8, (v >>> 24).toUInt8]

/-! ## Reading -/

/-- Escaped bytes decoded; a ZDLE at the end is stored as 0. -/
def zdleDecode : Bytes → Bytes
  | [] => []
  | [b] => [if b = ZDLE then 0 else b]
  | b :: c :: rest => if b = ZDLE then (c - 64) :: zdleDecode rest else b :: zdleDecode (c :: rest)

/-- The next decoded bytes, and how many encoded bytes they are. -/
def readDecodedBytes : ℕ → Bytes → Option (Bytes × ℕ)
  | 0, _ => some ([], 0)
  | _ + 1, [] => none
  | count + 1, b :: rest =>
    if b = ZDLE then
      match rest with
      | [] => none
      | c :: rest =>
        (readDecodedBytes count rest).map fun got => ((c - 64) :: got.1, got.2 + 2)
    else (readDecodedBytes count rest).map fun got => (b :: got.1, got.2 + 1)

/-- A byte of software flow control. -/
def isIgnored (b : UInt8) : Bool := b = XON || b = XON_HIGH || b = XOFF || b = XOFF_HIGH

def stripIgnoredBytesFast (u8 : Bytes) : Bytes := u8.filter fun b => !isIgnored b

/-- `buf.indexOf(byte, start)`. -/
def indexOf (buf : Bytes) (byte : UInt8) (start : ℕ) : Option ℕ :=
  ((buf.drop start).findIdx? (· == byte)).map (start + ·)

/-- The loop of `parseSubpacketFast`: where the marker is, and its frame end. -/
def findMarker (buf : Bytes) : ℕ → ℕ → Option (ℕ × FrameEnd)
  | 0, _ => none
  | fuel + 1, start =>
    match indexOf buf ZDLE start with
    | none => none
    | some zdleAt =>
      match buf[zdleAt + 1]? with
      | none => none
      | some frameEndNum =>
        match FRAME_END_KEYS frameEndNum with
        | some frameEnd => some (zdleAt, frameEnd)
        | none => findMarker buf fuel (zdleAt + 1)

/-- What `parseSubpacketFast` comes to. -/
inductive Parsed where
  /-- More bytes are needed. -/
  | incomplete
  /-- `Zmodem.Error("crc", got, expected)`. -/
  | crc (got expected : Bytes)
  | subpacket (subpacket : Subpacket) (consumed : ℕ)
  deriving DecidableEq

def parseSubpacketFast (buf : Bytes) (crcLen : CrcLen) : Parsed :=
  match findMarker buf (buf.length + 1) 0 with
  | none => .incomplete
  | some (zdleAt, frameEnd) =>
    let payload := zdleDecode (buf.take zdleAt)
    match readDecodedBytes crcLen.length (buf.drop (zdleAt + 2)) with
    | none => .incomplete
    | some (bytes, consumed) =>
      let expected := crcLen.expected payload frameEnd.num
      if bytes = expected then .subpacket ⟨payload, frameEnd⟩ (zdleAt + 2 + consumed)
      else .crc bytes expected

/-! ## Writing -/

def sendSessionEscapes (byte : UInt8) : Bool := byte &&& 0x60 = 0

/-- A byte on the wire. -/
def writeByte (b : UInt8) : Bytes := if sendSessionEscapes b then [0x18, b ^^^ 0x40] else [b]

def buildSendSubpacketFast (source : Bytes) (offset length : ℕ) (frameEndNum : UInt8) : Bytes :=
  let payload := (source.drop offset).take length
  let crc := crc16Bytes payload frameEndNum
  payload.flatMap writeByte ++ [0x18, frameEndNum] ++
    [(crc >>> 8).toUInt8, crc.toUInt8].flatMap writeByte

/-! ## Bytes -/

theorem forall_byte {p : UInt8 → Prop} (all : ∀ b : BitVec 8, p ⟨b⟩) (b : UInt8) : p b := all b.toBitVec

/-- What stands behind the ZDLE of an escape is no ZDLE, frame end or byte of flow control. -/
structure IsEscaped (byte b : UInt8) : Prop where
  plain : byte ≠ ZDLE
  marker : FRAME_END_KEYS byte = none
  kept : isIgnored byte = false
  decoded : byte - 64 = b

instance (byte b : UInt8) : Decidable (IsEscaped byte b) :=
  decidable_of_iff (byte ≠ ZDLE ∧ FRAME_END_KEYS byte = none ∧ isIgnored byte = false ∧ byte - 64 = b)
    ⟨fun ⟨plain, marker, kept, decoded⟩ => ⟨plain, marker, kept, decoded⟩,
      fun ⟨plain, marker, kept, decoded⟩ => ⟨plain, marker, kept, decoded⟩⟩

theorem isEscaped (b : UInt8) (escapes : sendSessionEscapes b) : IsEscaped (b ^^^ 0x40) b := by
  revert b
  apply forall_byte
  decide

theorem not_escaped (b : UInt8) (plain : sendSessionEscapes b = false) :
    b ≠ ZDLE ∧ isIgnored b = false := by
  revert b
  apply forall_byte
  decide

theorem frameEnd_num (frameEnd : FrameEnd) :
    FRAME_END_KEYS frameEnd.num = some frameEnd ∧ isIgnored frameEnd.num = false := by
  cases frameEnd <;> decide

/-- A byte goes out as itself, or behind a ZDLE. -/
theorem writeByte_cases (b : UInt8) : (writeByte b = [b] ∧ b ≠ ZDLE ∧ isIgnored b = false) ∨
      ∃ byte, writeByte b = [ZDLE, byte] ∧ IsEscaped byte b := by
  unfold writeByte
  cases escapes : sendSessionEscapes b with
  | true => exact .inr ⟨_, rfl, isEscaped b escapes⟩
  | false => exact .inl ⟨rfl, not_escaped b escapes⟩

/-! ## The marker -/

/-- The first ZDLE that stands in front of a frame end. -/
def marker : Bytes → Option (ℕ × FrameEnd)
  | [] => none
  | [_] => none
  | b :: c :: rest =>
    match (if b = ZDLE then FRAME_END_KEYS c else none) with
    | some frameEnd => some (0, frameEnd)
    | none => (marker (c :: rest)).map fun found => (found.1 + 1, found.2)

theorem marker_cons {b : UInt8} (plain : b ≠ ZDLE) (rest : Bytes) :
    marker (b :: rest) = (marker rest).map fun found => (found.1 + 1, found.2) := by
  cases rest with
  | nil => rfl
  | cons c rest =>
    conv_lhs => unfold marker
    rw [if_neg plain]

theorem marker_zdle {c : UInt8} (other : FRAME_END_KEYS c = none) (rest : Bytes) :
    marker (ZDLE :: c :: rest) = (marker (c :: rest)).map fun found => (found.1 + 1, found.2) := by
  conv_lhs => unfold marker
  rw [if_pos rfl, other]

theorem marker_frameEnd (frameEnd : FrameEnd) (rest : Bytes) :
    marker (ZDLE :: frameEnd.num :: rest) = some (0, frameEnd) := by
  unfold marker
  rw [if_pos rfl, (frameEnd_num frameEnd).1]

theorem marker_skip {buf : Bytes} {n : ℕ} (plain : ∀ i < n, buf[i]? ≠ some ZDLE) :
    marker buf = (marker (buf.drop n)).map fun found => (n + found.1, found.2) := by
  induction n generalizing buf with
  | zero =>
    rw [drop_zero]
    simp
  | succ n ih =>
    cases buf with
    | nil => rfl
    | cons b rest =>
      have first : b ≠ ZDLE := fun same => plain 0 (Nat.succ_pos n) (congrArg some same)
      have later : ∀ i < n, rest[i]? ≠ some ZDLE := fun i less => plain (i + 1) (by omega)
      rw [marker_cons first, ih later, drop_succ_cons, Option.map_map]
      congr 1
      funext found
      simp only [comp_apply, Prod.mk.injEq, and_true]
      omega

theorem findMarker_eq {buf : Bytes} {fuel start : ℕ} (enough : buf.length < fuel + start) :
    findMarker buf fuel start = (marker (buf.drop start)).map fun found => (start + found.1, found.2) := by
  induction fuel generalizing start with
  | zero =>
    rw [drop_eq_nil_of_le (by omega)]
    rfl
  | succ fuel ih =>
    unfold findMarker indexOf
    cases found : (buf.drop start).findIdx? (· == ZDLE) with
    | none =>
      have none_ : marker (buf.drop start) = none := by
        have plain : ∀ i < (buf.drop start).length, (buf.drop start)[i]? ≠ some ZDLE := by
          intro i less same
          have absent := findIdx?_eq_none_iff.mp found ZDLE (mem_of_getElem? same)
          simp at absent
        rw [marker_skip plain, drop_length]
        rfl
      rw [none_]
      rfl
    | some at_ =>
      obtain ⟨inside, here, before⟩ := findIdx?_eq_some_iff_getElem.mp found
      have zdle : (buf.drop start)[at_] = ZDLE := by simpa using here
      have plain : ∀ i < at_, (buf.drop start)[i]? ≠ some ZDLE := by
        intro i less same
        have other := before i less
        rw [getElem?_eq_getElem (by omega), some_inj] at same
        rw [same] at other
        exact other rfl
      have cut : (buf.drop start).drop at_ = ZDLE :: buf.drop (start + at_ + 1) := by
        rw [drop_eq_getElem_cons inside, zdle, drop_drop]
        congr 2
      rw [marker_skip plain, cut, map_some]
      dsimp only
      cases next : buf[start + at_ + 1]? with
      | none =>
        have none_ : buf.drop (start + at_ + 1) = [] :=
          drop_eq_nil_of_le (List.getElem?_eq_none_iff.mp next)
        rw [none_]
        rfl
      | some c =>
        obtain ⟨within, same⟩ := List.getElem?_eq_some_iff.mp next
        have tail : buf.drop (start + at_ + 1) = c :: buf.drop (start + at_ + 1 + 1) := by
          rw [drop_eq_getElem_cons within, same]
        cases key : FRAME_END_KEYS c with
        | some frameEnd =>
          dsimp only
          rw [tail, key]
          unfold marker
          rw [if_pos rfl, key]
          rfl
        | none =>
          dsimp only
          rw [key, tail, marker_zdle key, Option.map_map, Option.map_map]
          dsimp only
          rw [ih (by omega), tail]
          congr 1
          funext found
          simp only [comp_apply, Prod.mk.injEq, and_true]
          omega

end Netcatty.Zmodem
