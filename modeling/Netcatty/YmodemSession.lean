import Netcatty.YmodemHeaders

/-!
The two sides of a YMODEM transfer, byte by byte.

A side waits for a byte or for a timeout, and answers with what it writes.  `readExpected` and
`readYmodemFrame` put back the byte behind a single CAN and read it again, so a pending CAN is a
flag of theirs.
-/

namespace Netcatty.Ymodem

/-- What a side waits for. -/
inductive Event where
  | byte (byte : UInt8)
  | timeout
  deriving DecidableEq

/-! ## The sender -/

/-- A file to be sent. -/
structure Sending where
  filename : JsString
  buffer : Bytes
  mtime : ℤ
  retryLimit : ℕ

namespace Sending

variable (sending : Sending)

def packets : List Bytes :=
  createYmodemFileInfoPacket sending.filename sending.buffer.length sending.mtime ::
    createYmodemDataPackets sending.buffer

end Sending

/-- Where `sendYmodemBuffer` waits. -/
inductive SenderPhase where
  /-- "initial receiver request". -/
  | initialRequest
  /-- The header was sent in this attempt. -/
  | header (attempt : ℕ)
  /-- "data receiver request", in this turn of its loop. -/
  | dataRequest (attempt : ℕ)
  /-- The header was sent again, in a turn of that loop. -/
  | headerAgain (request attempt : ℕ)
  /-- A data packet was sent in this attempt; the header is packet 0. -/
  | data (i attempt : ℕ)
  /-- "first EOT response". -/
  | firstEot
  /-- "second EOT ACK". -/
  | secondEot
  /-- "end session request". -/
  | endRequest
  | endSession (attempt : ℕ)
  | complete
  | failed (error : YmodemTransferError)
  deriving DecidableEq

structure Sender where
  phase : SenderPhase
  /-- `readExpected` has read a CAN. -/
  sawCan : Bool
  deriving DecidableEq

namespace SenderPhase

/-- The bytes a phase waits for. -/
def expected : SenderPhase → List UInt8
  | initialRequest => [CRC16]
  | header _ => [ACK, NAK]
  | dataRequest _ => [CRC16, NAK]
  | headerAgain _ _ => [ACK, NAK]
  | data _ _ => [ACK, NAK]
  | firstEot => [NAK, ACK]
  | secondEot => [ACK]
  | endRequest => [CRC16]
  | endSession _ => [ACK, NAK]
  | complete => []
  | failed _ => []

def stopped : SenderPhase → Bool
  | complete => true
  | failed _ => true
  | _ => false

end SenderPhase

variable (sending : Sending)

/-- An attempt of `sendPacketWithRetry`: the phase, and what is written. -/
def attemptPacket (phase : ℕ → SenderPhase) (attempt : ℕ) (packet : Bytes) :
    SenderPhase × Option Bytes :=
  if attempt < sending.retryLimit then (phase attempt, some packet) else (.failed .retryLimit, none)

/-- The data packet, or the end of the file. -/
def sendData (i : ℕ) : SenderPhase × Option Bytes :=
  match sending.packets[i]? with
  | some packet => attemptPacket sending (.data i) 0 packet
  | none => (.firstEot, some [EOT])

/-- The first packet. -/
def headerPacket : Bytes :=
  createYmodemFileInfoPacket sending.filename sending.buffer.length sending.mtime

/-- What a byte that is waited for leads to. -/
def respond (phase : SenderPhase) (byte : UInt8) : SenderPhase × Option Bytes :=
  match phase with
  | .initialRequest => attemptPacket sending .header 0 (headerPacket sending)
  | .header attempt =>
    if byte = ACK then
      if 0 < sending.retryLimit then (.dataRequest 0, none) else sendData sending 1
    else attemptPacket sending .header (attempt + 1) (headerPacket sending)
  | .dataRequest attempt =>
    if byte = CRC16 then sendData sending 1
    else attemptPacket sending (.headerAgain attempt) 0 (headerPacket sending)
  | .headerAgain request attempt =>
    if byte = ACK then
      if request + 1 = sending.retryLimit then (.failed .retryLimit, none) else (.dataRequest (request + 1), none)
    else attemptPacket sending (.headerAgain request) (attempt + 1) (headerPacket sending)
  | .data i attempt =>
    if byte = ACK then sendData sending (i + 1)
    else attemptPacket sending (.data i) (attempt + 1) (sending.packets.getD i [])
  | .firstEot => if byte = NAK then (.secondEot, some [EOT]) else (.endRequest, none)
  | .secondEot => (.endRequest, none)
  | .endRequest => attemptPacket sending .endSession 0 createYmodemEndSessionPacket
  | .endSession attempt =>
    if byte = ACK then (.complete, none)
    else attemptPacket sending .endSession (attempt + 1) createYmodemEndSessionPacket
  | .complete => (.complete, none)
  | .failed error => (.failed error, none)

namespace Sender

def start : Sender := ⟨.initialRequest, false⟩

/-- `readExpected`, with no CAN before the byte. -/
def readByte (phase : SenderPhase) (byte : UInt8) : Sender × Option Bytes :=
  if byte = CAN then (⟨phase, true⟩, none)
  else if phase.expected.contains byte then
    let next := respond sending phase byte
    (⟨next.1, false⟩, next.2)
  else if byte = CRC16 ∨ byte = ACK ∨ byte = NAK then (⟨phase, false⟩, none)
  else (⟨.failed (.unexpectedByte byte), false⟩, none)

def step (sender : Sender) (event : Event) : Sender × Option Bytes :=
  if sender.phase.stopped then (sender, none)
  else
    match event with
    | .byte byte =>
      if sender.sawCan && byte = CAN then (⟨.failed .remoteCancelled, false⟩, none)
      else readByte sending sender.phase byte
    | .timeout =>
      if sender.sawCan then (⟨sender.phase, false⟩, none) else (⟨.failed .timeout, false⟩, none)

end Sender

/-! ## The receiver -/

/-- A frame that was read. -/
inductive Frame where
  | eot
  | packet (blockNumber : UInt8) (payload : Bytes) (valid : Bool)
  deriving DecidableEq

/-- Where `readYmodemFrame` waits. -/
inductive FrameReader where
  | idle
  | sawCan
  /-- Behind a header that announces so many bytes of payload. -/
  | collecting (payloadSize : ℕ) (bytes : Bytes)
  deriving DecidableEq

inductive Reading where
  | more (reader : FrameReader)
  | frame (frame : Frame)
  | failed (error : YmodemTransferError)
  deriving DecidableEq

def frameOf (payloadSize : ℕ) (bytes : Bytes) : Frame :=
  let blockNumber := bytes.getD 0 0
  let blockComplement := bytes.getD 1 0
  let payload := (bytes.drop 2).take payloadSize
  let sentCrc := (bytes.getD (payloadSize + 2) 0).toNat * 256 + (bytes.getD (payloadSize + 3) 0).toNat
  .packet blockNumber payload
    (blockComplement = 0xff - blockNumber && sentCrc = (crc16Xmodem payload).toNat)

namespace FrameReader

/-- The first byte of a frame. -/
def readHeader (header : UInt8) : Reading :=
  if header = CAN then .more .sawCan
  else if header = EOT then .frame .eot
  else if header = SOH then .more (.collecting PACKET_SIZE_128 [])
  else if header = STX then .more (.collecting PACKET_SIZE_1024 [])
  else .failed (.unexpectedByte header)

def readByte : FrameReader → UInt8 → Reading
  | idle, byte => readHeader byte
  | sawCan, byte => if byte = CAN then .failed .remoteCancelled else readHeader byte
  | collecting payloadSize bytes, byte =>
    if bytes.length + 1 = payloadSize + 4 then .frame (frameOf payloadSize (bytes ++ [byte]))
    else .more (.collecting payloadSize (bytes ++ [byte]))

end FrameReader

structure ReceivedFile where
  fileName : JsString
  totalBytes : ℕ
  written : Bytes
  deriving DecidableEq

/-- A file that is being received. -/
structure OpenFile where
  fileName : JsString
  totalBytes : ℕ
  written : Bytes
  deriving DecidableEq

/-- Where `receiveYmodemFiles` waits. -/
inductive ReceiverPhase where
  /-- An attempt of `readYmodemPacketWithRetry`. -/
  | header (attempt : ℕ)
  /-- `receiveYmodemFileData`. -/
  | data (file : OpenFile) (expectedBlockNumber : UInt8) (rejectedPackets : ℕ)
  | secondEot (file : OpenFile)
  | complete
  | failed (error : YmodemTransferError)
  deriving DecidableEq

def ReceiverPhase.stopped : ReceiverPhase → Bool
  | complete => true
  | failed _ => true
  | _ => false

structure Receiver where
  phase : ReceiverPhase
  reader : FrameReader
  files : List ReceivedFile
  /-- The names in the destination directory. -/
  existing : List JsString
  deriving DecidableEq

namespace Receiver

variable (retryLimit : ℕ)

variable (receiver : Receiver)

def fail (error : YmodemTransferError) : Receiver :=
  { receiver with phase := .failed error }

def requestHeader (attempt : ℕ) (written : Bytes) : Receiver × Bytes :=
  if attempt < retryLimit then ({ receiver with phase := .header attempt }, written ++ [CRC16])
  else (receiver.fail .retryLimit, written)

/-- A packet is refused in `receiveYmodemFileData`. -/
def reject (file : OpenFile) (expectedBlockNumber : UInt8) (rejectedPackets : ℕ) :
    Receiver × Bytes :=
  if retryLimit < rejectedPackets + 1 then (receiver.fail .retryLimit, [])
  else ({ receiver with phase := .data file expectedBlockNumber (rejectedPackets + 1) }, [NAK])

/-- The packet that names a file, or ends the session. -/
def openFile (payload : Bytes) : Receiver × Bytes :=
  match parseYmodemFileInfoPayload payload with
  | .error error => (receiver.fail error, [])
  | .ok none => ({ receiver with phase := .complete }, [ACK])
  | .ok (some info) =>
    match resolveUniqueDestinationPath receiver.existing info.fileName with
    | none => (receiver.fail .destinationExists, [ACK, CRC16])
    | some fileName =>
      ({ receiver with
        phase := .data ⟨fileName, info.totalBytes, []⟩ 1 0, existing := receiver.existing ++ [fileName] },
        [ACK, CRC16])

/-- The part of a payload that belongs to the file. -/
def write (file : OpenFile) (payload : Bytes) : OpenFile :=
  { file with written := file.written ++ payload.take (file.totalBytes - file.written.length) }

/-- The file is whole, or the transfer fails. -/
def finishFile (file : OpenFile) : Receiver × Bytes :=
  if file.written.length ≠ file.totalBytes then (receiver.fail .incompleteFile, [ACK])
  else
    let received : ReceivedFile := ⟨file.fileName, file.totalBytes, file.written⟩
    ({ receiver with files := receiver.files ++ [received] } : Receiver).requestHeader retryLimit 0 [ACK]

def onFrame (frame : Frame) : Receiver × Bytes :=
  match receiver.phase, frame with
  | .header _, .eot => receiver.requestHeader retryLimit 0 [ACK]
  | .header attempt, .packet blockNumber payload valid =>
    if valid && blockNumber = 0 then receiver.openFile payload
    else if valid && blockNumber = 255 then receiver.requestHeader retryLimit (attempt + 1) [ACK]
    else receiver.requestHeader retryLimit (attempt + 1) [NAK]
  | .data file _ _, .eot => ({ receiver with phase := .secondEot file }, [NAK])
  | .data file expectedBlockNumber rejectedPackets, .packet blockNumber payload valid =>
    if !valid then receiver.reject retryLimit file expectedBlockNumber rejectedPackets
    else if blockNumber = expectedBlockNumber - 1 then (receiver, [ACK])
    else if blockNumber ≠ expectedBlockNumber then
      receiver.reject retryLimit file expectedBlockNumber rejectedPackets
    else ({ receiver with phase := .data (write file payload) (expectedBlockNumber + 1) 0 }, [ACK])
  | .secondEot file, .eot => receiver.finishFile retryLimit file
  | .secondEot _, .packet .. => (receiver.fail .eotExpected, [])
  | .complete, _ => (receiver, [])
  | .failed _, _ => (receiver, [])

/-- `readYmodemFrame` runs out of time. -/
def onTimeout : Receiver × Bytes :=
  match receiver.phase with
  | .header attempt =>
    if attempt + 1 < retryLimit then receiver.requestHeader retryLimit (attempt + 1) []
    else (receiver.fail .timeout, [])
  | .data file expectedBlockNumber rejectedPackets =>
    if rejectedPackets < retryLimit then
      ({ receiver with phase := .data file expectedBlockNumber (rejectedPackets + 1) }, [NAK])
    else (receiver.fail .timeout, [])
  | .secondEot _ => (receiver.fail .timeout, [])
  | .complete => (receiver, [])
  | .failed _ => (receiver, [])

def step (event : Event) : Receiver × Bytes :=
  if receiver.phase.stopped then (receiver, [])
  else
    match event with
    | .byte byte =>
      match receiver.reader.readByte byte with
      | .more reader => ({ receiver with reader := reader }, [])
      | .frame frame => ({ receiver with reader := .idle } : Receiver).onFrame retryLimit frame
      | .failed error => (receiver.fail error, [])
    | .timeout =>
      if receiver.reader = .sawCan then ({ receiver with reader := .idle }, [])
      else ({ receiver with reader := .idle } : Receiver).onTimeout retryLimit

def start (existing : List JsString) : Receiver × Bytes :=
  (⟨.header 0, .idle, [], existing⟩ : Receiver).requestHeader retryLimit 0 []

end Receiver

end Netcatty.Ymodem
