import Netcatty.YmodemNoise

/-!
Which transfers are exact.

Over lines that lose nothing every transfer is, and over lines that alter and lose bytes those of
files whose blocks have numbers of their own.
-/

namespace Netcatty.Ymodem

open FifoNetwork List

/-! ## Every run ends -/

/-- Every run goes on to an end at which both sides are done and the file has arrived. -/
def Delivered (sending : Sending) (line : Line) (retryLimit : ℕ) (existing : List JsString)
    (fileName : JsString) : Prop :=
  ∃ n written, ∀ k lines,
    Run (senderProcess sending line) (receiverProcess retryLimit) k (startConfig retryLimit existing) lines →
    ∃ rest, n = k + rest ∧ Run (senderProcess sending line) (receiverProcess retryLimit) rest lines
      (done sending fileName (existing ++ [fileName]) written)

theorem delivered {sending : Sending} {line : Line} {retryLimit limit : ℕ} {existing : List JsString}
    {fileName : JsString} (patient : Patient sending line retryLimit limit)
    (announced : IsAnnounced sending.filename sending.buffer.length sending.mtime)
    (free : resolveUniqueDestinationPath existing (sanitizeYmodemFilename (arrivedName sending.filename)) =
      some fileName) : Delivered sending line retryLimit existing fileName := by
  obtain ⟨written, n, run⟩ := delivers patient announced free
  refine ⟨n, written, fun k lines other => ?_⟩
  exact run.confluent (stuck_of_stopped rfl rfl) other

/-- **Transfers are exact**: over clean lines, over lines that harm packets so that the checksum tells, and,
where no two blocks have one number, over lines that alter and lose bytes. -/
theorem transfers_exact (sending : Sending) (retryLimit : ℕ) (existing : List JsString) (fileName : JsString)
    (announced : IsAnnounced sending.filename sending.buffer.length sending.mtime)
    (free : resolveUniqueDestinationPath existing (sanitizeYmodemFilename (arrivedName sending.filename)) =
      some fileName) :
    (0 < sending.retryLimit → 0 < retryLimit → Delivered sending .clean retryLimit existing fileName) ∧
    (∀ line limit, Patient sending line retryLimit limit →
      Delivered sending line retryLimit existing fileName) ∧
    (packetCount sending.buffer ≤ 255 → ∀ lines file,
      LossyRun sending retryLimit (startConfig retryLimit existing) lines → Returned lines file →
      IsExact sending file) := by
  refine ⟨?_, ?_, ?_⟩
  · intro tries requests
    have patient : Patient sending .clean retryLimit 1 := ⟨Line.clean_noisy sending Nat.one_pos, tries, requests⟩
    exact delivered patient announced free
  · intro line limit patient
    exact delivered patient announced free
  · intro few lines file run returned
    exact received_exact announced few run returned

/-- Three bytes, to an empty directory. -/
def threeBytes : Sending := ⟨text "a.bin", [1, 2, 3], 0, 10⟩

theorem transfers_exact_threeBytes :
    (0 < threeBytes.retryLimit → 0 < 10 → Delivered threeBytes .clean 10 [] (text "a.bin")) ∧
    (∀ line limit, Patient threeBytes line 10 limit → Delivered threeBytes line 10 [] (text "a.bin")) ∧
    (packetCount threeBytes.buffer ≤ 255 → ∀ lines file,
      LossyRun threeBytes 10 (startConfig 10 []) lines → Returned lines file → IsExact threeBytes file) :=
  transfers_exact threeBytes 10 [] (text "a.bin") ⟨by decide, by decide, by decide +kernel⟩ (by decide +kernel)

/-! ## A block for a header -/

section Wrapped

variable {sending : Sending} {retryLimit : ℕ}

/-- A process that reads nothing. -/
def silent : Process Receiver UInt8 UInt8 := ⟨fun _ => none⟩

/-- The sender reads what is first on its line. -/
theorem lossy_sender {s last : Sender × ℕ} {items out : Bytes}
    (fed : (senderProcess sending .clean).feed s items = some (last, out)) (r : Receiver) (forward : Bytes) :
    LossyRun sending retryLimit ⟨s, r, forward, items⟩ ⟨last, r, forward ++ out, []⟩ := by
  have run := @run_left _ _ _ _ _ silent _ _ _ _ fed r forward []
  rw [append_nil] at run
  generalize items.length = n at run
  generalize (⟨s, r, forward, items⟩ : Lines) = first at run ⊢
  generalize (⟨last, r, forward ++ out, []⟩ : Lines) = final at run ⊢
  induction run with
  | refl => exact .refl
  | step one _ ih =>
    cases one with
    | left reads => exact .head (.sender reads) ih
    | right reads => cases reads

theorem lossy_receiver {r : Receiver} {byte : UInt8} {answer : Receiver × Bytes} (live : r.phase.stopped = false)
    (answers : r.step retryLimit (.byte byte) = answer)
    (genuine : ∀ blockNumber payload, r.reader.readByte byte = .frame (.packet blockNumber payload true) →
      Sent sending blockNumber payload) (s : Sender × ℕ) (forward backward : Bytes) :
    LossyStep sending retryLimit ⟨s, r, byte :: forward, backward⟩
      ⟨s, answer.1, forward, backward ++ answer.2⟩ := by
  subst answers
  exact .receiver (read_receiver live) genuine

theorem lossy_eot {r : Receiver} (live : r.phase.stopped = false) (idle : r.reader = .idle) (s : Sender × ℕ) :
    LossyRun sending retryLimit ⟨s, r, [EOT], []⟩
      ⟨s, (r.onFrame retryLimit .eot).1, [], (r.onFrame retryLimit .eot).2⟩ := by
  have same : { r with reader := .idle } = r := by
    rw [← idle]
  have read : r.reader.readByte EOT = .frame .eot := by
    rw [idle]
    rfl
  have one : r.step retryLimit (.byte EOT) = r.onFrame retryLimit .eot := by
    simp only [Receiver.step, live, Bool.false_eq_true, if_false, read, same]
  refine .single (lossy_receiver live one ?_ s [] [])
  intro blockNumber payload packet
  cases read.symm.trans packet

theorem lossy_to_eot (s : Sender × ℕ) (r : Receiver) (header blockNumber : UInt8) (payload : Bytes) :
    LossyRun sending retryLimit ⟨s, r, createPacket header blockNumber payload, []⟩ ⟨s, r, [EOT], []⟩ := by
  have all : ∀ rest : Bytes, Damaged rest [] := by
    intro rest
    induction rest with
    | nil => exact .nil
    | cons byte rest ih => exact .lose ih
  exact .single (.forward (.alter (all _)))

theorem lossy_collect {r : Receiver} {size : ℕ} {bytes more rest : Bytes} (live : r.phase.stopped = false)
    (short : bytes.length + more.length < size + 4) (s : Sender × ℕ) :
    LossyRun sending retryLimit ⟨s, r.collecting size bytes, more ++ rest, []⟩
      ⟨s, r.collecting size (bytes ++ more), rest, []⟩ := by
  induction more generalizing bytes with
  | nil =>
    rw [append_nil]
    exact .refl
  | cons byte more ih =>
    rw [length_cons] at short
    have open_ : ¬ bytes.length + 1 = size + 4 := by omega
    have one := @step_collecting retryLimit r size bytes live byte
    rw [if_neg open_] at one
    have later := @ih (bytes ++ [byte]) (by
      rw [length_append, length_singleton]
      omega)
    rw [append_assoc] at later
    refine .head (@lossy_receiver _ _ (r.collecting size bytes) _ _ live one ?_ s (more ++ rest) []) later
    intro blockNumber payload packet
    have none_ : (r.collecting size bytes).reader.readByte byte = .more (.collecting size (bytes ++ [byte])) :=
      if_neg open_
    cases none_.symm.trans packet

theorem lossy_packet {r : Receiver} {header blockNumber : UInt8} {payload : Bytes} (is : IsPacket header payload)
    (sent : Sent sending blockNumber payload) (live : r.phase.stopped = false) (idle : r.reader = .idle)
    (s : Sender × ℕ) {answer : Receiver × Bytes}
    (answers : r.onFrame retryLimit (.packet blockNumber payload true) = answer) :
    LossyRun sending retryLimit ⟨s, r, createPacket header blockNumber payload, []⟩
      ⟨s, answer.1, [], answer.2⟩ := by
  obtain ⟨high, low, two⟩ : ∃ high low, crcBytes (crc16Xmodem payload) = [high, low] := ⟨_, _, rfl⟩
  have same : { r with reader := .idle } = r := by
    rw [← idle]
  have size := is.size
  have checked : decide (crcOf [high, low] = (crc16Xmodem payload).toNat) = true := by
    rw [← two, crcOf_crcBytes]
    exact decide_eq_true rfl
  have full : ([blockNumber, 0xff - blockNumber] ++ payload ++ [high]).length + 1 = payloadLength header + 4 := by
    simp only [length_append, length_cons, length_nil]
    omega
  have frame : frameOf (payloadLength header) ([blockNumber, 0xff - blockNumber] ++ payload ++ [high] ++ [low]) =
      .packet blockNumber payload true := by
    rw [frameOf_packet size, checked]
  have cut : createPacket header blockNumber payload =
      header :: (([blockNumber, 0xff - blockNumber] ++ payload ++ [high]) ++ [low]) := by
    rw [createPacket, two]
    simp
  have middle := @lossy_collect sending retryLimit r (payloadLength header) []
    ([blockNumber, 0xff - blockNumber] ++ payload ++ [high]) [low] live (by
      rw [length_nil]
      omega) s
  rw [nil_append] at middle
  have last := @step_collecting retryLimit r (payloadLength header)
    ([blockNumber, 0xff - blockNumber] ++ payload ++ [high]) live low
  rw [if_pos full, same, frame, answers] at last
  rw [cut]
  refine .head (lossy_receiver live (step_header live idle is.known) ?_ s _ []) (middle.tail ?_)
  · intro _ _ packet
    cases (read_header idle is.known).symm.trans packet
  · refine @lossy_receiver _ _ (r.collecting _ _) _ _ live last ?_ s [] []
    intro _ _ packet
    have read : (r.collecting (payloadLength header)
        ([blockNumber, 0xff - blockNumber] ++ payload ++ [high])).reader.readByte low =
        .frame (.packet blockNumber payload true) := (if_pos full).trans (congrArg Reading.frame frame)
    cases read.symm.trans packet
    exact sent

end Wrapped

/-- A block that reads as the header of an empty file. -/
def emptyHeader : Bytes := pad PACKET_SIZE_1024 0 (metadataBytes (text "a") 0 0)

/-- The name of that file. -/
def emptyName : JsString := sanitizeYmodemFilename (arrivedName (text "a"))

theorem length_emptyHeader : emptyHeader.length = 1024 := length_pad _ _ _

theorem parse_emptyHeader : parseYmodemFileInfoPayload emptyHeader = .ok (some ⟨emptyName, 0⟩) :=
  parse_header ⟨by decide, by decide, by decide +kernel⟩ _ (by decide +kernel)

theorem resolve_nil (fileName : JsString) : resolveUniqueDestinationPath [] fileName = some fileName := by
  have attempts : List.range 10000 = 0 :: (List.range 9999).map Nat.succ := range_succ_eq_map
  rw [resolveUniqueDestinationPath, attempts, map_cons, find?_cons_of_pos]
  · rfl
  · rfl

section Wrapped

variable {sending : Sending} {retryLimit : ℕ}

/-- Where the sender is, when the receiver has read `i` ends of files. -/
def turnPhase : ℕ → SenderPhase
  | 0 => .header 0
  | i + 1 => .data (i + 1) 0

def turnPacket (sending : Sending) : ℕ → Bytes
  | 0 => headerPacket sending
  | i + 1 => dataPacket sending (i + 1)

def turnAt (sending : Sending) (i : ℕ) : Lines :=
  ⟨(⟨turnPhase i, false⟩, i + 1), waiting [] [] 0, turnPacket sending i, []⟩

/-- The receiver, once it has taken the block for a header. -/
def emptyOpened (phase : ReceiverPhase) : Receiver := ⟨phase, .idle, [], [emptyName]⟩

def emptyReturned : Lines :=
  ⟨(⟨.endSession 0, false⟩, 260), ⟨.complete, .idle, [⟨emptyName, 0, []⟩], [emptyName]⟩, [], [ACK]⟩

variable (tries : 0 < sending.retryLimit) (requests : 0 < retryLimit)

include tries

theorem feed_turn {i : ℕ} (less : i < packetCount sending.buffer) :
    (senderProcess sending .clean).feed (⟨turnPhase i, false⟩, i + 1) [ACK, CRC16] =
      some ((⟨turnPhase (i + 1), false⟩, i + 1 + 1), turnPacket sending (i + 1)) := by
  have written := sendData_packet sending tries (Nat.succ_pos i) less
  cases i with
  | zero =>
    have accepted : respond sending (.header 0) ACK = (.dataRequest 0, none) := by
      simp only [respond, if_true, tries]
    have first := @feed_quiet sending .clean (.header 0) (.dataRequest 0) 1 ACK rfl (by decide) rfl accepted
    exact Process.feed_append first (feed_answer rfl (by decide) rfl written)
  | succ i =>
    have first := @feed_answer sending .clean (.data (i + 1) 0) _ (i + 1 + 1) ACK _ rfl (by decide) rfl written
    have both := Process.feed_append first (feed_skip rfl rfl)
    rwa [append_nil] at both

include requests

/-- A packet is read as the end of a file, and the sender goes on. -/
theorem turn {i : ℕ} (less : i < packetCount sending.buffer) :
    LossyRun sending retryLimit (turnAt sending i) (turnAt sending (i + 1)) := by
  have answers : (waiting [] [] 0).onFrame retryLimit .eot = (waiting [] [] 0, [ACK, CRC16]) :=
    if_pos requests
  have read := @lossy_eot sending retryLimit (waiting [] [] 0) rfl rfl (⟨turnPhase i, false⟩, i + 1)
  rw [answers] at read
  have answered := @lossy_sender sending retryLimit _ _ _ _ (feed_turn tries less) (waiting [] [] 0) []
  have cut : LossyRun sending retryLimit (turnAt sending i)
      ⟨(⟨turnPhase i, false⟩, i + 1), waiting [] [] 0, [EOT], []⟩ := by
    cases i with
    | zero =>
      rw [turnAt, turnPacket, headerPacket_eq]
      exact lossy_to_eot _ _ _ _ _
    | succ i => exact lossy_to_eot _ _ _ _ _
  exact cut.trans (read.trans answered)

theorem turns {i : ℕ} (last : i ≤ packetCount sending.buffer) :
    LossyRun sending retryLimit (turnAt sending 0) (turnAt sending i) := by
  induction i with
  | zero => exact .refl
  | succ i ih => exact (ih (by omega)).trans (turn tries requests last)

section

variable (many : packetCount sending.buffer = 256)
  (block : dataPacket sending 256 = createPacket STX 0 emptyHeader)
include many block

theorem last_turn : LossyRun sending retryLimit (turnAt sending 256) emptyReturned := by
  have sent : Sent sending 0 emptyHeader := ⟨STX, block ▸ data_mem sending (by decide) many.ge⟩
  have opened : (waiting [] [] 0).onFrame retryLimit (.packet 0 emptyHeader true) =
      (emptyOpened (.data ⟨emptyName, 0, []⟩ 1 0), [ACK, CRC16]) := by
    simp only [Receiver.onFrame, waiting, Receiver.openFile, parse_emptyHeader, resolve_nil, Bool.true_and,
      decide_true, if_true]
    rfl
  have header := @lossy_packet sending retryLimit (waiting [] [] 0) STX 0 emptyHeader
    ⟨.inr rfl, length_emptyHeader⟩ sent rfl rfl (⟨turnPhase 256, false⟩, 257) _ opened
  rw [← block] at header
  have past : respond sending (.data 256 0) ACK = (.firstEot, some [EOT]) := by
    have ended := sendData_end sending
    rw [many] at ended
    exact ended
  have behindBlock := @lossy_sender sending retryLimit _ _ _ _ (Process.feed_append
    (@feed_answer sending .clean (.data 256 0) _ 257 ACK _ rfl (by decide) rfl past) (feed_skip rfl rfl))
    (emptyOpened (.data ⟨emptyName, 0, []⟩ 1 0)) []
  have firstEot := @lossy_eot sending retryLimit (emptyOpened (.data ⟨emptyName, 0, []⟩ 1 0)) rfl rfl
    (⟨.firstEot, false⟩, 258)
  have behindEot := @lossy_sender sending retryLimit _ _ _ _
    (@feed_answer sending .clean .firstEot .secondEot 258 NAK [EOT] rfl (by decide) rfl rfl)
    (emptyOpened (.secondEot ⟨emptyName, 0, []⟩)) []
  have secondEot := @lossy_eot sending retryLimit (emptyOpened (.secondEot ⟨emptyName, 0, []⟩)) rfl rfl
    (⟨.secondEot, false⟩, 259)
  have finished : (emptyOpened (.secondEot ⟨emptyName, 0, []⟩)).onFrame retryLimit .eot =
      (waiting [⟨emptyName, 0, []⟩] [emptyName] 0, [ACK, CRC16]) := by
    simp only [Receiver.onFrame, emptyOpened, Receiver.finishFile, length_nil, ne_eq, not_true, if_false,
      Receiver.requestHeader, requests, if_true]
    rfl
  rw [finished] at secondEot
  have ended : respond sending .endRequest CRC16 = (.endSession 0, some createYmodemEndSessionPacket) :=
    if_pos tries
  have behindFile := @lossy_sender sending retryLimit _ _ _ _ (Process.feed_append
    (@feed_quiet sending .clean .secondEot .endRequest 259 ACK rfl (by decide) rfl rfl)
    (feed_answer rfl (by decide) rfl ended)) (waiting [⟨emptyName, 0, []⟩] [emptyName] 0) []
  have closed : (waiting [⟨emptyName, 0, []⟩] [emptyName] 0).onFrame retryLimit
      (.packet 0 (List.replicate PACKET_SIZE_128 0) true) =
      (⟨.complete, .idle, [⟨emptyName, 0, []⟩], [emptyName]⟩, [ACK]) := by
    simp only [Receiver.onFrame, waiting, Receiver.openFile, parse_endSession, Bool.true_and, decide_true, if_true]
  have session := @lossy_packet sending retryLimit (waiting [⟨emptyName, 0, []⟩] [emptyName] 0) SOH 0 _ isPacket_end
    ⟨SOH, end_mem sending⟩ rfl rfl (⟨.endSession 0, false⟩, 260) _ closed
  exact header.trans (behindBlock.trans (firstEot.trans (behindEot.trans (secondEot.trans
    (behindFile.trans session)))))

theorem returns_empty : LossyRun sending retryLimit (startConfig retryLimit []) emptyReturned := by
  have asked : startConfig retryLimit [] = ⟨(⟨.initialRequest, false⟩, 0), waiting [] [] 0, [], [CRC16]⟩ := by
    simp only [startConfig, Receiver.start, Receiver.requestHeader, requests, if_true]
    rfl
  have first : respond sending .initialRequest CRC16 = (.header 0, some (headerPacket sending)) :=
    if_pos tries
  have begun := @lossy_sender sending retryLimit _ _ _ _
    (@feed_answer sending .clean .initialRequest _ 0 CRC16 _ rfl (by decide) rfl first) (waiting [] [] 0) []
  rw [← asked] at begun
  exact begun.trans ((turns tries requests many.ge).trans (last_turn tries requests many block))

end

end Wrapped

/-- A file whose 256th block is such a header. -/
def wrapped : Sending := ⟨text "b", List.replicate (255 * 1024) 0 ++ emptyHeader, 0, 10⟩

theorem length_wrapped : wrapped.buffer.length = 262144 := by
  rw [wrapped, length_append, length_replicate, length_emptyHeader]

theorem announced_wrapped : IsAnnounced wrapped.filename wrapped.buffer.length wrapped.mtime := by
  rw [length_wrapped]
  exact ⟨by decide, by decide, by decide +kernel⟩

/-- The 256th block has the number of a header. -/
theorem dataPacket_wrapped : dataPacket wrapped 256 = createPacket STX 0 emptyHeader := by
  have block : dataPayload wrapped.buffer 255 = emptyHeader := by
    have behind : wrapped.buffer.drop (255 * 1024) = emptyHeader := by
      rw [wrapped, drop_left' (length_replicate)]
    rw [dataPayload, behind, pad, PACKET_SIZE_1024, length_emptyHeader, Nat.sub_self, replicate_zero,
      append_nil, take_of_length_le length_emptyHeader.le]
  rw [dataPacket, block]
  rfl

/-- A file is returned that was not sent. -/
theorem not_exact_wrapped : IsAnnounced wrapped.filename wrapped.buffer.length wrapped.mtime ∧
    ¬ ∀ lines file, LossyRun wrapped 10 (startConfig 10 []) lines → Returned lines file →
      IsExact wrapped file := by
  refine ⟨announced_wrapped, fun exact_ => ?_⟩
  have tries : 0 < wrapped.retryLimit := by decide
  have many : packetCount wrapped.buffer = 256 := by
    rw [packetCount, length_wrapped]
  have run := returns_empty tries (Nat.succ_pos 9) many dataPacket_wrapped
  obtain ⟨-, size, -⟩ := exact_ _ ⟨emptyName, 0, []⟩ run ⟨rfl, mem_singleton_self _⟩
  rw [length_wrapped] at size
  cases size

end Netcatty.Ymodem
