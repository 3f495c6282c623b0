import Netcatty.YmodemExchange

/-!
A transfer over lines that lose nothing comes to its end.

The header, every data packet and the packet that ends the session are stages of the exchange; the
end of the file stands between the last two.  So one run delivers the file (`delivers`), and with it
every run (`delivered`).
-/

namespace Netcatty.Ymodem

open FifoNetwork List

/-! ## What the sender writes -/

theorem length_pad (size : ℕ) (filler : UInt8) (bytes : Bytes) : (pad size filler bytes).length = size := by
  rw [pad, length_append, length_take, length_replicate]
  omega

def headerByte (sending : Sending) : UInt8 :=
  if PACKET_SIZE_128 ≤ (metadataBytes sending.filename sending.buffer.length sending.mtime).length then STX
  else SOH

/-- The payload of a file's header. -/
def headerPayload (sending : Sending) : Bytes :=
  pad (payloadLength (headerByte sending)) 0 (metadataBytes sending.filename sending.buffer.length sending.mtime)

variable (sending : Sending)

theorem headerPacket_eq :
    headerPacket sending = createPacket (headerByte sending) 0 (headerPayload sending) := by
  unfold headerPacket createYmodemFileInfoPacket headerPayload headerByte
  dsimp only
  by_cases long : PACKET_SIZE_128 ≤ (metadataBytes sending.filename sending.buffer.length sending.mtime).length
  · simp only [if_pos long]
    rfl
  · simp only [if_neg long]
    rfl

theorem isPacket_header : IsPacket (headerByte sending) (headerPayload sending) := by
  refine ⟨?_, length_pad _ _ _⟩
  unfold headerByte
  split
  · exact .inr rfl
  · exact .inl rfl

theorem parse_headerPayload {sending : Sending}
    (announced : IsAnnounced sending.filename sending.buffer.length sending.mtime) :
    parseYmodemFileInfoPayload (headerPayload sending) =
      .ok (some ⟨sanitizeYmodemFilename (arrivedName sending.filename), sending.buffer.length⟩) := by
  apply parse_header announced
  unfold headerByte
  split
  · exact announced.fits
  · rename_i short
    exact (Nat.lt_of_not_le short).le

/-- The packet of a block, counted from 1. -/
def dataPacket (sending : Sending) (i : ℕ) : Bytes :=
  createPacket STX (UInt8.ofNat i) (dataPayload sending.buffer (i - 1))

theorem isPacket_data (i : ℕ) : IsPacket STX (dataPayload sending.buffer i) :=
  ⟨.inr rfl, length_pad _ _ _⟩

theorem isPacket_end : IsPacket SOH (List.replicate PACKET_SIZE_128 0) := ⟨.inl rfl, rfl⟩

theorem packets_data {i : ℕ} (first : 1 ≤ i) (last : i ≤ packetCount sending.buffer) :
    sending.packets[i]? = some (dataPacket sending i) := by
  obtain ⟨j, rfl⟩ : ∃ j, i = j + 1 := ⟨i - 1, by omega⟩
  rw [Sending.packets, getElem?_cons_succ, createYmodemDataPackets, getElem?_map,
    getElem?_range (by omega)]
  rfl

theorem packets_end : sending.packets[packetCount sending.buffer + 1]? = none := by
  rw [Sending.packets, getElem?_cons_succ, createYmodemDataPackets, getElem?_eq_none]
  rw [length_map, length_range]

theorem sendData_packet (some_ : 0 < sending.retryLimit) {i : ℕ} (first : 1 ≤ i)
    (last : i ≤ packetCount sending.buffer) :
    sendData sending i = (.data i 0, some (dataPacket sending i)) := by
  rw [sendData, packets_data sending first last]
  exact if_pos some_

theorem sendData_end :
    sendData sending (packetCount sending.buffer + 1) = (.firstEot, some [EOT]) := by
  rw [sendData, packets_end]

theorem header_mem : headerPacket sending ∈ sending.allPackets :=
  mem_append_left _ mem_cons_self

theorem data_mem {i : ℕ} (first : 1 ≤ i) (last : i ≤ packetCount sending.buffer) :
    dataPacket sending i ∈ sending.allPackets :=
  mem_append_left _ (mem_of_getElem? (packets_data sending first last))

theorem end_mem : createYmodemEndSessionPacket ∈ sending.allPackets :=
  mem_append_right _ (mem_singleton_self _)

/-! ## What the receiver writes to the file -/

/-- The file in front of block `i`. -/
def fileAt (sending : Sending) (fileName : JsString) (i : ℕ) : OpenFile :=
  ⟨fileName, sending.buffer.length, sending.buffer.take ((i - 1) * 1024)⟩

/-- The filler of the last block is not written. -/
theorem take_pad (rest : Bytes) (filler : UInt8) :
    (pad PACKET_SIZE_1024 filler rest).take rest.length = rest.take 1024 := by
  unfold pad PACKET_SIZE_1024
  rcases Nat.le_total rest.length 1024 with short | long
  · rw [take_of_length_le short, take_left]
  · rw [Nat.sub_eq_zero_of_le long, replicate_zero, append_nil, take_of_length_le]
    rw [length_take]
    omega

theorem write_data (fileName : JsString) {i : ℕ} (first : 1 ≤ i)
    (last : i ≤ packetCount sending.buffer) :
    Receiver.write (fileAt sending fileName i) (dataPayload sending.buffer (i - 1)) =
      fileAt sending fileName (i + 1) := by
  obtain ⟨j, rfl⟩ : ∃ j, i = j + 1 := ⟨i - 1, by omega⟩
  have inside : j * 1024 < sending.buffer.length := by
    unfold packetCount at last
    omega
  unfold fileAt Receiver.write
  dsimp only
  rw [Nat.add_sub_cancel, Nat.add_sub_cancel, length_take, Nat.min_eq_left inside.le]
  have more : sending.buffer.take ((j + 1) * 1024) =
      sending.buffer.take (j * 1024) ++ (sending.buffer.drop (j * 1024)).take 1024 := by
    rw [Nat.add_mul, Nat.one_mul, take_add]
  have left : sending.buffer.length - j * 1024 = (sending.buffer.drop (j * 1024)).length := length_drop.symm
  rw [more, left, dataPayload, take_pad]

/-! ## The stages -/

/-- A line that both sides are patient enough for. -/
structure Patient (sending : Sending) (line : Line) (retryLimit limit : ℕ) : Prop where
  noisy : line.Noisy sending limit
  sender : limit ≤ sending.retryLimit
  receiver : limit ≤ retryLimit

theorem Patient.some {sending : Sending} {line : Line} {retryLimit limit : ℕ}
    (patient : Patient sending line retryLimit limit) : 0 < limit := by
  obtain ⟨k, less, -⟩ := patient.noisy.sometimes 0 _ (end_mem sending)
  omega

section Stages

variable {sending : Sending} {line : Line} {retryLimit limit : ℕ}
  (patient : Patient sending line retryLimit limit)

def waiting (files : List ReceivedFile) (existing : List JsString) (a : ℕ) : Receiver :=
  ⟨.header a, .idle, files, existing⟩

theorem refuse_header (files : List ReceivedFile) (existing : List JsString) {a : ℕ} (blockNumber : UInt8)
    (payload : Bytes) (left : a + 1 < retryLimit) :
    (waiting files existing a).onFrame retryLimit (.packet blockNumber payload false) =
      (waiting files existing (a + 1), [NAK, CRC16]) := by
  simp only [Receiver.onFrame, waiting, Receiver.requestHeader, left, Bool.false_and, Bool.false_eq_true,
    if_false, if_true]
  rfl

include patient

theorem stage_header (existing : List JsString) :
    Stage sending line retryLimit limit .header (waiting [] existing) (headerByte sending) 0
      (headerPayload sending) [NAK, CRC16] where
  is := isPacket_header sending
  mem := headerPacket_eq sending ▸ header_mem sending
  live _ := rfl
  idle _ := rfl
  refuse a payload' left := refuse_header _ _ _ _ (left.trans_le patient.receiver)
  again a n left := by
    have again : respond sending (.header a) NAK = (.header (a + 1), some (headerPacket sending)) :=
      if_pos (left.trans_le patient.sender)
    have first := @feed_answer sending line _ _ n NAK _ rfl (by decide) rfl again
    rw [headerPacket_eq] at first
    have both := Process.feed_append first (feed_skip rfl rfl)
    rwa [append_nil] at both

variable {fileName : JsString}

theorem stage_data {existing : List JsString} {i : ℕ} (first : 1 ≤ i)
    (last : i ≤ packetCount sending.buffer) :
    Stage sending line retryLimit limit (.data i)
      (fun a => ⟨.data (fileAt sending fileName i) (UInt8.ofNat i) a, .idle, [], existing⟩)
      STX (UInt8.ofNat i) (dataPayload sending.buffer (i - 1)) [NAK] where
  is := isPacket_data sending _
  mem := data_mem sending first last
  live _ := rfl
  idle _ := rfl
  refuse a payload' left := by
    have enough : ¬ retryLimit < a + 1 := by
      have limits := patient.receiver
      omega
    simp only [Receiver.onFrame, Receiver.reject, Bool.not_false, if_true, enough, if_false]
  again a n left := by
    have again : respond sending (.data i a) NAK = (.data i (a + 1), some (dataPacket sending i)) := by
      have packet : sending.packets.getD i [] = dataPacket sending i := by
        rw [getD_eq_getElem?_getD, packets_data sending first last]
        rfl
      have more := left.trans_le patient.sender
      simp only [respond, attemptPacket, packet, more, if_true]
      rfl
    exact feed_answer rfl (by decide) rfl again

theorem stage_end (file : ReceivedFile) (existing : List JsString) :
    Stage sending line retryLimit limit .endSession (waiting [file] existing) SOH 0
      (List.replicate PACKET_SIZE_128 0) [NAK, CRC16] where
  is := isPacket_end
  mem := end_mem sending
  live _ := rfl
  idle _ := rfl
  refuse a payload' left := refuse_header _ _ _ _ (left.trans_le patient.receiver)
  again a n left := by
    have again : respond sending (.endSession a) NAK = (.endSession (a + 1), some createYmodemEndSessionPacket) :=
      if_pos (left.trans_le patient.sender)
    have first := @feed_answer sending line _ _ n NAK _ rfl (by decide) rfl again
    have both := Process.feed_append first (feed_skip rfl rfl)
    rwa [append_nil] at both

def atBlock (sending : Sending) (line : Line) (fileName : JsString) (existing : List JsString) (i n : ℕ) :
    Config (Sender × ℕ) Receiver UInt8 UInt8 :=
  ⟨(⟨(sendData sending i).1, false⟩, n + 1),
    ⟨.data (fileAt sending fileName i) (UInt8.ofNat i) 0, .idle, [], existing⟩,
    line.arrives n ((sendData sending i).2.getD []), []⟩

theorem sendData_some {i : ℕ} (first : 1 ≤ i) (last : i ≤ packetCount sending.buffer + 1) :
    sendData sending i = ((sendData sending i).1, some ((sendData sending i).2.getD [])) := by
  rcases Nat.lt_or_ge (packetCount sending.buffer) i with beyond | inside
  · obtain rfl : i = packetCount sending.buffer + 1 := by omega
    rw [sendData_end]
    rfl
  · rw [sendData_packet sending (patient.some.trans_le patient.sender) first inside]
    rfl

variable {existing : List JsString}

/-- Behind the header the first block is sent. -/
theorem header_delivered
    (announced : IsAnnounced sending.filename sending.buffer.length sending.mtime)
    (free : resolveUniqueDestinationPath existing (sanitizeYmodemFilename (arrivedName sending.filename)) =
      some fileName) (n : ℕ) :
    ∃ m, Reaches (senderProcess sending line) (receiverProcess retryLimit)
      (attempt line .header (waiting [] existing) (headerPacket sending) n 0)
      (atBlock sending line fileName (existing ++ [fileName]) 1 m) := by
  have parsed := parse_headerPayload announced
  have positive : 0 < sending.retryLimit := patient.some.trans_le patient.sender
  rw [headerPacket_eq]
  refine (stage_header patient existing).goes_on patient.noisy n [ACK, CRC16] ?_ ?_
  · intro a
    simp only [Receiver.onFrame, waiting, Receiver.openFile, parsed, free, Bool.true_and, decide_true, if_true]
    rfl
  · intro a m _
    have accepted : respond sending (.header a) ACK = (.dataRequest 0, none) := by
      simp only [respond, if_true, positive]
    have requested : respond sending (.dataRequest 0) CRC16 =
        ((sendData sending 1).1, some ((sendData sending 1).2.getD [])) :=
      sendData_some patient (le_refl 1) (by omega)
    have first := @feed_quiet sending line _ _ m ACK rfl (by decide) rfl accepted
    exact Process.feed_append first (feed_answer rfl (by decide) rfl requested)

omit patient in
theorem ne_sub_one (b : UInt8) : b ≠ b - 1 := by
  intro same
  have numbers := congrArg UInt8.toNat same
  rw [UInt8.toNat_sub] at numbers
  have one : (1 : UInt8).toNat = 1 := rfl
  omega

theorem block_delivered {i : ℕ} (first : 1 ≤ i) (last : i ≤ packetCount sending.buffer) (n : ℕ) :
    ∃ m, Reaches (senderProcess sending line) (receiverProcess retryLimit)
      (atBlock sending line fileName existing i n) (atBlock sending line fileName existing (i + 1) m) := by
  have positive : 0 < sending.retryLimit := patient.some.trans_le patient.sender
  have here : atBlock sending line fileName existing i n = attempt line (.data i)
      (fun a => ⟨.data (fileAt sending fileName i) (UInt8.ofNat i) a, .idle, [], existing⟩)
      (dataPacket sending i) n 0 := by
    rw [atBlock, sendData_packet sending positive first last]
    rfl
  rw [here]
  refine (stage_data patient first last).goes_on patient.noisy n [ACK] ?_ ?_
  · intro a
    have wrap : UInt8.ofNat i + 1 = UInt8.ofNat (i + 1) := by simp
    have other := ne_sub_one (UInt8.ofNat i)
    simp only [Receiver.onFrame, Bool.not_true, Bool.false_eq_true, if_false, other, ne_eq, not_true,
      write_data sending fileName first last, wrap]
  · intro a m _
    have accepted : respond sending (.data i a) ACK =
        ((sendData sending (i + 1)).1, some ((sendData sending (i + 1)).2.getD [])) :=
      sendData_some patient (by omega) (by omega)
    exact feed_answer rfl (by decide) rfl accepted

theorem blocks_delivered (n : ℕ) {i : ℕ} (last : i ≤ packetCount sending.buffer) :
    ∃ m, Reaches (senderProcess sending line) (receiverProcess retryLimit)
      (atBlock sending line fileName existing 1 n) (atBlock sending line fileName existing (i + 1) m) := by
  induction i with
  | zero => exact ⟨n, .refl _⟩
  | succ i ih =>
    obtain ⟨m, there⟩ := ih (by omega)
    obtain ⟨m', more⟩ := block_delivered patient (by omega) last m
    exact ⟨m', there.trans more⟩

omit patient in
theorem feed_eot {r : Receiver} (live : r.phase.stopped = false) (idle : r.reader = .idle) :
    (receiverProcess retryLimit).feed r [EOT] = some (r.onFrame retryLimit .eot) := by
  have same : { r with reader := .idle } = r := by
    rw [← idle]
  have one : r.step retryLimit (.byte EOT) = r.onFrame retryLimit .eot := by
    have read : r.reader.readByte EOT = .frame .eot := by
      rw [idle]
      rfl
    simp only [Receiver.step, live, Bool.false_eq_true, if_false, read, same]
  generalize r.onFrame retryLimit .eot = answer at one ⊢
  obtain ⟨next, out⟩ := answer
  have fed := Process.feed_cons (read_receiver live) one (Process.feed_nil _ _)
  rwa [append_nil] at fed

def sentFile (sending : Sending) (fileName : JsString) : ReceivedFile :=
  ⟨fileName, sending.buffer.length, sending.buffer⟩

theorem eot_delivered (n : ℕ) :
    ∃ m, Reaches (senderProcess sending line) (receiverProcess retryLimit)
      (atBlock sending line fileName existing (packetCount sending.buffer + 1) n)
      (attempt line .endSession (waiting [sentFile sending fileName] existing) createYmodemEndSessionPacket m 0) := by
  have whole : fileAt sending fileName (packetCount sending.buffer + 1) =
      ⟨fileName, sending.buffer.length, sending.buffer⟩ := by
    unfold fileAt
    rw [Nat.add_sub_cancel, take_of_length_le]
    unfold packetCount
    omega
  have positive : 0 < sending.retryLimit := patient.some.trans_le patient.sender
  have requests : 0 < retryLimit := patient.some.trans_le patient.receiver
  generalize block : UInt8.ofNat (packetCount sending.buffer + 1) = expected
  have here : atBlock sending line fileName existing (packetCount sending.buffer + 1) n =
      ⟨(⟨.firstEot, false⟩, n + 1),
        ⟨.data ⟨fileName, sending.buffer.length, sending.buffer⟩ expected 0, .idle, [], existing⟩, [EOT], []⟩ := by
    rw [atBlock, sendData_end, whole, block, Option.getD_some, patient.noisy.control]
  have first := reaches_exchange
    (@feed_eot retryLimit
      ⟨.data ⟨fileName, sending.buffer.length, sending.buffer⟩ expected 0, .idle, [], existing⟩ rfl rfl)
    (@feed_answer sending line .firstEot .secondEot (n + 1) NAK [EOT] rfl (by decide) rfl rfl)
  rw [patient.noisy.control] at first
  have finished : (⟨.secondEot ⟨fileName, sending.buffer.length, sending.buffer⟩, .idle, [], existing⟩ :
      Receiver).onFrame retryLimit .eot = (waiting [sentFile sending fileName] existing 0, [ACK, CRC16]) := by
    simp only [Receiver.onFrame, Receiver.finishFile, ne_eq, not_true, if_false, Receiver.requestHeader, requests,
      if_true]
    rfl
  have read := @feed_eot retryLimit
    ⟨.secondEot ⟨fileName, sending.buffer.length, sending.buffer⟩, .idle, [], existing⟩ rfl rfl
  rw [finished] at read
  have ended : respond sending .endRequest CRC16 = (.endSession 0, some createYmodemEndSessionPacket) :=
    if_pos positive
  have second := reaches_exchange read (Process.feed_append
    (@feed_quiet sending line .secondEot .endRequest (n + 1 + 1) ACK rfl (by decide) rfl rfl)
    (feed_answer rfl (by decide) rfl ended))
  rw [here]
  exact ⟨n + 1 + 1, first.trans second⟩

/-- Both sides are done. -/
def done (sending : Sending) (fileName : JsString) (existing : List JsString) (n : ℕ) :
    Config (Sender × ℕ) Receiver UInt8 UInt8 :=
  ⟨(⟨.complete, false⟩, n), ⟨.complete, .idle, [sentFile sending fileName], existing⟩, [], []⟩

theorem session_ended (n : ℕ) :
    ∃ m, Reaches (senderProcess sending line) (receiverProcess retryLimit)
      (attempt line .endSession (waiting [sentFile sending fileName] existing) createYmodemEndSessionPacket n 0)
      (done sending fileName existing m) := by
  obtain ⟨a, -, there⟩ := (stage_end patient (sentFile sending fileName) existing).arrives patient.noisy n
  have read := @feed_good retryLimit (waiting [sentFile sending fileName] existing a) SOH 0 _ isPacket_end rfl rfl
  have ends : (waiting [sentFile sending fileName] existing a).onFrame retryLimit
      (.packet 0 (List.replicate PACKET_SIZE_128 0) true) =
      (⟨.complete, .idle, [sentFile sending fileName], existing⟩, [ACK]) := by
    simp only [Receiver.onFrame, waiting, Receiver.openFile, parse_endSession, Bool.true_and, decide_true, if_true]
  rw [ends] at read
  have accepted : respond sending (.endSession a) ACK = (.complete, none) := rfl
  exact ⟨n + a + 1, there.trans (reaches_exchange read (feed_quiet rfl (by decide) rfl accepted))⟩

/-- **One run delivers the file.** -/
theorem delivers (announced : IsAnnounced sending.filename sending.buffer.length sending.mtime)
    (free : resolveUniqueDestinationPath existing (sanitizeYmodemFilename (arrivedName sending.filename)) =
      some fileName) :
    ∃ m, Reaches (senderProcess sending line) (receiverProcess retryLimit) (startConfig retryLimit existing)
      (done sending fileName (existing ++ [fileName]) m) := by
  have positive : 0 < sending.retryLimit := patient.some.trans_le patient.sender
  have requests : 0 < retryLimit := patient.some.trans_le patient.receiver
  have first : respond sending .initialRequest CRC16 = (.header 0, some (headerPacket sending)) :=
    if_pos positive
  have asked : startConfig retryLimit existing =
      ⟨(⟨.initialRequest, false⟩, 0), waiting [] existing 0, [], [CRC16]⟩ := by
    simp only [startConfig, Receiver.start, Receiver.requestHeader, requests, if_true]
    rfl
  have begun := @run_left _ _ _ _ _ (receiverProcess retryLimit) _ _ _ _
    (@feed_answer sending line _ _ 0 CRC16 _ rfl (by decide) rfl first) (waiting [] existing 0) [] []
  rw [append_nil, ← asked] at begun
  obtain ⟨afterHeader, header⟩ := header_delivered patient announced free 0
  obtain ⟨afterBlocks, blocks⟩ := blocks_delivered patient afterHeader (le_refl (packetCount sending.buffer))
  obtain ⟨afterEot, eot⟩ := eot_delivered patient afterBlocks
  obtain ⟨last, session⟩ := session_ended patient afterEot
  exact ⟨last, Reaches.trans ⟨_, begun⟩ (header.trans (blocks.trans (eot.trans session)))⟩

end Stages

end Netcatty.Ymodem
