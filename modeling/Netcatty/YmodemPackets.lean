import Netcatty.KnownHostsLines
import Netcatty.Numerals
import Netcatty.UnicodeText

/-!
Packets of YMODEM.

A packet is a header that says how long its payload is, a block number and its complement, the
payload and its checksum.  The first packet of a file carries its name and its size.
-/

namespace Netcatty.Ymodem

open UnicodeText (encode decode)
open KnownHosts (Trimmed)

abbrev Bytes := List UInt8

def SOH : UInt8 := 0x01
def STX : UInt8 := 0x02
def EOT : UInt8 := 0x04
def ACK : UInt8 := 0x06
def NAK : UInt8 := 0x15
def CAN : UInt8 := 0x18
def CRC16 : UInt8 := 0x43
def PACKET_SIZE_128 : ℕ := 128
def PACKET_SIZE_1024 : ℕ := 1024

inductive YmodemTransferError where
  | unexpectedByte (byte : UInt8)
  | remoteCancelled
  | timeout
  | retryLimit
  | invalidSize
  | destinationExists
  | eotExpected
  | incompleteFile
  deriving DecidableEq

/-! ## Packets -/

/-- One turn of the loop of `crc16Xmodem`. -/
def crcStep (crc : UInt16) (byte : UInt8) : UInt16 :=
  let code := ((crc >>> 8) ^^^ byte.toUInt16) &&& 0xff
  let code := code ^^^ (code >>> 4)
  (crc <<< 8) ^^^ (code <<< 12) ^^^ (code <<< 5) ^^^ code

def crc16Xmodem (buffer : Bytes) : UInt16 := buffer.foldl crcStep 0

/-- The bytes of a checksum (`writeUInt16BE`). -/
def crcBytes (crc : UInt16) : Bytes := [(crc >>> 8).toUInt8, crc.toUInt8]

def createPacket (header blockNumber : UInt8) (payload : Bytes) : Bytes :=
  [header, blockNumber, 0xff - blockNumber] ++ payload ++ crcBytes (crc16Xmodem payload)

/-- A payload filled up to a size. -/
def pad (size : ℕ) (filler : UInt8) (bytes : Bytes) : Bytes :=
  bytes.take size ++ List.replicate (size - bytes.length) filler

/-- `path.basename` of a POSIX path. -/
def basename (path : JsString) : JsString :=
  ((path.reverse.dropWhile (· = slash)).takeWhile (· ≠ slash)).reverse

/-- `toString(8)`. -/
def octalText (n : ℤ) : JsString :=
  (if n < 0 then text "-" else []) ++ (Nat.toDigits 8 n.natAbs).flatMap codeUnits

/-- What stands behind the name: the size, the time and the mode. -/
def attributesText (size : ℕ) (mtime : ℤ) : JsString :=
  decimal size ++ text " " ++ octalText mtime ++ text " " ++ octalText 0o100644

def metadataBytes (filename : JsString) (size : ℕ) (mtime : ℤ) : Bytes :=
  let baseName := basename (if filename = [] then text "file" else filename)
  encode (baseName ++ text "\x00" ++ attributesText size mtime)

def createYmodemFileInfoPacket (filename : JsString) (size : ℕ) (mtime : ℤ) : Bytes :=
  let metadata := metadataBytes filename size mtime
  let packetSize := if PACKET_SIZE_128 ≤ metadata.length then PACKET_SIZE_1024 else PACKET_SIZE_128
  createPacket (if packetSize = PACKET_SIZE_1024 then STX else SOH) 0 (pad packetSize 0 metadata)

/-- How many data packets a buffer takes. -/
def packetCount (buffer : Bytes) : ℕ := (buffer.length + 1023) / 1024

def dataPayload (buffer : Bytes) (i : ℕ) : Bytes := pad PACKET_SIZE_1024 0x1a (buffer.drop (i * 1024))

/-- Block numbers start at 1 and wrap at 256. -/
def createYmodemDataPackets (buffer : Bytes) : List Bytes :=
  (List.range (packetCount buffer)).map fun i =>
    createPacket STX (UInt8.ofNat (i + 1)) (dataPayload buffer i)

def createYmodemEndSessionPacket : Bytes := createPacket SOH 0 (List.replicate PACKET_SIZE_128 0)

/-! ## The file a header names -/

/-- What `/[<>:"/\\|?*\x00-\x1f]/` matches. -/
def isForbidden (u : Fin 65536) : Bool := u.val < 32 || (text "<>:\"/\\|?*").contains u

def sanitizeYmodemFilename (filename : JsString) : JsString :=
  let normalized := filename.map fun u => if u = backslash then slash else u
  let baseName := trim ((basename normalized).map fun u => if isForbidden u then ⟨'_'.toNat, by decide⟩ else u)
  if baseName = [] ∨ baseName = text "." ∨ baseName = text ".." then text "ymodem-received.bin"
  else baseName

structure FileInfo where
  fileName : JsString
  totalBytes : ℕ
  deriving DecidableEq

def nulUnit : Fin 65536 := ⟨'\x00'.toNat, by decide⟩

/-- `toString("ascii")`. -/
def asciiText (bytes : Bytes) : JsString := bytes.map fun b => ⟨b.toNat % 128, by omega⟩

/-- `replace(/\0.*$/u, "")`. -/
def dropFromNul : JsString → JsString
  | [] => []
  | u :: rest =>
    if u = nulUnit && rest.all fun v => v.val ∉ [10, 13, 0x2028, 0x2029] then []
    else u :: dropFromNul rest

def parseYmodemFileInfoPayload (payload : Bytes) : Except YmodemTransferError (Option FileInfo) :=
  let rawName := decode (payload.takeWhile (· ≠ 0))
  if rawName = [] then .ok none
  else
    let metadata := trim (dropFromNul (asciiText ((payload.dropWhile (· ≠ 0)).drop 1)))
    let sizeText := metadata.takeWhile fun u => !isWhiteSpace u
    if sizeText ≠ [] ∧ sizeText.all isDigit then
      .ok (some ⟨sanitizeYmodemFilename rawName, parseDigits 10 sizeText⟩)
    else .error .invalidSize

/-- `path.parse` of a file name: the name and the extension. -/
def splitExtension (fileName : JsString) : JsString × JsString :=
  let extension := (fileName.reverse.takeWhile (· ≠ ⟨'.'.toNat, by decide⟩)).reverse
  if extension.length + 1 < fileName.length then
    (fileName.take (fileName.length - extension.length - 1),
      fileName.drop (fileName.length - extension.length - 1))
  else (fileName, [])

/-- A name that no file has; `existing` are the names in the directory. -/
def resolveUniqueDestinationPath (existing : List JsString) (fileName : JsString) : Option JsString :=
  ((List.range 10000).map fun attempt =>
    if attempt = 0 then fileName
    else (splitExtension fileName).1 ++ text " (" ++ decimal attempt ++ text ")" ++ (splitExtension fileName).2).find?
      fun candidate => !existing.any (· == candidate)

end Netcatty.Ymodem
