import Netcatty.ZmodemCodec

/-!
The receive fast path of a ZMODEM session.

Bytes wait in the chunks they came in.  Two scans go over them, each with a cursor into the list
of chunks; the list is merged where a subpacket is parsed, and its head is dropped when bytes are
consumed.  The header parser and the search for an abort sequence in an array are the library's.
-/

namespace Netcatty.Zmodem

/-- `ZMLIB.ABORT_SEQUENCE`. -/
def ABORT_SEQUENCE : Bytes := [24, 24, 24, 24, 24]

/-- The bytes of "OO". -/
def OVER_AND_OUT : Bytes := [79, 79]

structure SequenceScan where
  chunkIndex : ℕ
  byteIndex : ℕ
  offset : ℕ
  matched : ℕ
  deriving DecidableEq

structure FrameScan where
  chunkIndex : ℕ
  byteIndex : ℕ
  offset : ℕ
  previousWasZdle : Bool
  deriving DecidableEq

/-- A receive session; `delivered` is what `_consume_data` was called with. -/
structure FastSession where
  chunks : List Bytes
  length : ℕ
  frameEndAt : Option ℕ
  frameScan : Option FrameScan
  sequenceScan : Option SequenceScan
  inputBuffer : Bytes
  nextSubpacketHandler : Bool
  lastHeaderCrc : CrcLen
  aborted : Bool
  ended : Bool
  gotZFIN : Bool
  bytesAfterOO : Option Bytes
  delivered : List Subpacket
  deriving DecidableEq

/-- What is thrown. -/
inductive FastError where
  | crc (got expected : Bytes)
  | peer_aborted
  | already_aborted
  /-- Something other than "OO" after ZFIN. -/
  | protocol (bytes : Bytes)
  /-- An error of the library. -/
  | library
  /-- The loop has taken more turns than there were bytes. -/
  | spinning
  deriving DecidableEq

/-- What the library does with the array of a session. -/
structure Library where
  /-- `_check_for_abort_sequence`. -/
  checkForAbortSequence : FastSession → FastSession × Option FastError
  /-- `_parse_and_consume_header`: was there a header? -/
  parseAndConsumeHeader : FastSession → FastSession × Except FastError Bool

namespace FastSession

variable (session : FastSession)

/-- The bytes that wait, in their order. -/
def contents : Bytes := session.chunks.flatten

def fastPush (u8 : Bytes) : FastSession :=
  if u8 = [] then session
  else { session with chunks := session.chunks ++ [u8], length := session.length + u8.length }

def fastContiguous : FastSession × Bytes :=
  if session.chunks.length > 1 then
    ({ session with chunks := [session.chunks.flatten], sequenceScan := none }, session.chunks.flatten)
  else (session, session.chunks.flatten)

/-! ## The scans -/

/-- The inner loop of `fastFindSequence`. -/
def scanSequenceBytes (needle : Bytes) : SequenceScan → Bytes → SequenceScan × Option ℕ
  | scan, [] => (scan, none)
  | scan, byte :: rest =>
    let offset := scan.offset
    let scan := { scan with offset := scan.offset + 1 }
    if needle[scan.matched]? = some byte then
      let scan := { scan with matched := scan.matched + 1 }
      if scan.matched = needle.length then (scan, some (offset + 1 - needle.length))
      else scanSequenceBytes needle scan rest
    else
      scanSequenceBytes needle { scan with matched := if needle.head? = some byte then 1 else 0 } rest

/-- The loop of `fastFindSequence` over the chunks that are left. -/
def scanSequence (needle : Bytes) : SequenceScan → ℕ → List Bytes → SequenceScan × Option ℕ
  | scan, _, [] => (scan, none)
  | scan, chunkIndex, chunk :: rest =>
    let start := if chunkIndex = scan.chunkIndex then scan.byteIndex else 0
    match scanSequenceBytes needle scan (chunk.drop start) with
    | (scan, some at_) => (scan, some at_)
    | (scan, none) =>
      scanSequence needle { scan with chunkIndex := chunkIndex + 1, byteIndex := 0 } (chunkIndex + 1) rest

def fastFindSequence (needle : Bytes) : FastSession × Option ℕ :=
  if session.chunks = [] ∨ needle = [] then (session, none)
  else
    let scan := session.sequenceScan.getD ⟨0, 0, 0, 0⟩
    match scanSequence needle scan scan.chunkIndex (session.chunks.drop scan.chunkIndex) with
    | (scan, some at_) => ({ session with sequenceScan := some scan }, some at_)
    | (scan, none) =>
      ({ session with
        sequenceScan := some { scan with chunkIndex := session.chunks.length, byteIndex := 0 } }, none)

/-- The inner loop of `fastFindFrameEnd`. -/
def scanFrameBytes : FrameScan → Bytes → FrameScan × Option ℕ
  | scan, [] => (scan, none)
  | scan, byte :: rest =>
    let offset := scan.offset
    let scan := { scan with offset := scan.offset + 1 }
    if scan.previousWasZdle && (FRAME_END_KEYS byte).isSome then (scan, some (offset - 1))
    else scanFrameBytes { scan with previousWasZdle := byte = ZDLE } rest

/-- The loop of `fastFindFrameEnd` over the chunks that are left. -/
def scanFrame : FrameScan → ℕ → List Bytes → FrameScan × Option ℕ
  | scan, _, [] => (scan, none)
  | scan, chunkIndex, chunk :: rest =>
    let start := if chunkIndex = scan.chunkIndex then scan.byteIndex else 0
    match scanFrameBytes scan (chunk.drop start) with
    | (scan, some at_) => (scan, some at_)
    | (scan, none) =>
      scanFrame { scan with chunkIndex := chunkIndex + 1, byteIndex := 0 } (chunkIndex + 1) rest

def fastFindFrameEnd : FastSession × Option ℕ :=
  if session.chunks = [] then (session, none)
  else
    match session.frameEndAt with
    | some existing => (session, some existing)
    | none =>
      let scan := session.frameScan.getD ⟨0, 0, 0, false⟩
      match scanFrame scan scan.chunkIndex (session.chunks.drop scan.chunkIndex) with
      | (scan, some at_) => ({ session with frameScan := some scan, frameEndAt := some at_ }, some at_)
      | (scan, none) =>
        ({ session with
          frameScan := some { scan with chunkIndex := session.chunks.length, byteIndex := 0 } }, none)

/-! ## Moving bytes -/

/-- The loop of `fastConsumeAt`. -/
def dropBytes : List Bytes → ℕ → List Bytes
  | [], _ => []
  | head :: rest, n =>
    if n = 0 then head :: rest
    else if n < head.length then head.drop n :: rest
    else dropBytes rest (n - head.length)

/-- The cursors forgotten. -/
def forget : FastSession :=
  { session with frameEndAt := none, frameScan := none, sequenceScan := none }

def fastConsumeAt (n : ℕ) : FastSession :=
  { session with
    chunks := dropBytes session.chunks n
    length := session.length - min n session.length }.forget

def fastMoveAllToArray : FastSession :=
  let (session, buf) := session.fastContiguous
  { session with chunks := [], length := 0, inputBuffer := session.inputBuffer ++ buf }.forget

def fastMoveArrayToFast : FastSession :=
  if session.inputBuffer = [] then session
  else
    { session with
      inputBuffer := [], chunks := session.inputBuffer :: session.chunks
      length := session.inputBuffer.length + session.length }.forget

/-! ## Consuming -/

variable (library : Library)

def fastCheckAbort : FastSession × Option FastError :=
  if session.inputBuffer ≠ [] then library.checkForAbortSequence session.fastMoveAllToArray
  else
    match session.fastFindSequence ABORT_SEQUENCE with
    | (session, none) => (session, none)
    | (session, some at_) =>
      ({ session.fastConsumeAt (at_ + ABORT_SEQUENCE.length) with aborted := true, ended := true },
        some .peer_aborted)

/-- Was there a whole subpacket? -/
def fastParseSubpacket : FastSession × Except FastError Bool :=
  match session.fastFindFrameEnd with
  | (session, none) => (session, .ok false)
  | (session, some _) =>
    let (session, buf) := session.fastContiguous
    match parseSubpacketFast buf session.lastHeaderCrc with
    | .incomplete => (session, .ok false)
    | .crc got expected => (session, .error (.crc got expected))
    | .subpacket subpacket consumed =>
      let session := session.fastConsumeAt consumed
      ({ session with
        delivered := session.delivered ++ [subpacket]
        nextSubpacketHandler := session.nextSubpacketHandler && !subpacket.frameEnd.frame_end },
        .ok true)

/-- One turn of `fastConsumeLoop`: does it go on? -/
def fastConsumeTurn : FastSession × Except FastError Bool :=
  if session.nextSubpacketHandler then
    let session := session.fastMoveArrayToFast
    if session.length = 0 then (session, .ok false) else session.fastParseSubpacket
  else
    let session := session.fastMoveAllToArray
    if session.inputBuffer = [] then (session, .ok false) else library.parseAndConsumeHeader session

def fastConsumeLoop : ℕ → FastSession → FastSession × Option FastError
  | 0, session => (session, some .spinning)
  | fuel + 1, session =>
    match session.fastConsumeTurn library with
    | (session, .error thrown) => (session, some thrown)
    | (session, .ok false) => (session, none)
    | (session, .ok true) => fastConsumeLoop fuel session

/-- Every turn that goes on takes bytes. -/
def turns : ℕ := session.length + session.inputBuffer.length + 1

def trimOverAndOut (array : Bytes) : Bytes :=
  if OVER_AND_OUT <+: array then array.drop 2
  else if array.head? = some 79 then array.drop 1
  else array

/-- What follows ZFIN. -/
def afterZFIN (bytesBeingConsumed : Bytes) : FastSession × Option FastError :=
  let session := session.fastMoveAllToArray
  if session.inputBuffer.length < 2 then (session, none)
  else if OVER_AND_OUT <+: session.inputBuffer then
    ({ session with bytesAfterOO := some (trimOverAndOut bytesBeingConsumed), ended := true }, none)
  else (session, some (.protocol session.inputBuffer))

def fastSessionConsume (octets : Bytes) : FastSession × Option FastError :=
  if session.aborted then (session, some .already_aborted)
  else if octets = [] then (session, none)
  else
    let stripped := stripIgnoredBytesFast octets
    match (session.fastPush stripped).fastCheckAbort library with
    | (session, some thrown) => (session, some thrown)
    | (session, none) =>
      if session.gotZFIN then session.afterZFIN stripped
      else session.fastConsumeLoop library session.turns

/-- Buffers, one after the other, until an error is thrown. -/
def fastConsumeAll : FastSession → List Bytes → FastSession × Option FastError
  | session, [] => (session, none)
  | session, octets :: rest =>
    match session.fastSessionConsume library octets with
    | (session, some thrown) => (session, some thrown)
    | (session, none) => fastConsumeAll session rest

end FastSession

end Netcatty.Zmodem
