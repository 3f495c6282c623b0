import Netcatty.FifoNetwork
import Netcatty.YmodemSession

/-!
A transfer over two lines, packet by packet.

The line to the receiver may harm the payload or the checksum of a packet.  A packet is sent until
it arrives unharmed; then the transfer goes on, until both sides are done.
-/

namespace Netcatty.Ymodem

open FifoNetwork List

/-! ## The lines -/

def packetOf (header blockNumber : UInt8) (payload crc : Bytes) : Bytes :=
  [header, blockNumber, 0xff - blockNumber] ++ payload ++ crc

/-- How long the payload behind a header is. -/
def payloadLength (header : UInt8) : ℕ := if header = SOH then PACKET_SIZE_128 else PACKET_SIZE_1024

/-- What a checksum says. -/
def crcOf (crc : Bytes) : ℕ := (crc.getD 0 0).toNat * 256 + (crc.getD 1 0).toNat

/-- Payload and checksum may be harmed, and the checksum tells. -/
inductive Harmed : Bytes → Bytes → Prop
  | intro {header blockNumber : UInt8} {payload crc payload' crc' : Bytes}
    (size : payload'.length = payload.length) (two : crc.length = 2) (two' : crc'.length = 2)
    (detected : crcOf crc' ≠ (crc16Xmodem payload').toNat) :
    Harmed (packetOf header blockNumber payload crc) (packetOf header blockNumber payload' crc')

/-- The line to the receiver: what becomes of what is written, the how-many-th it is. -/
structure Line where
  arrives : ℕ → Bytes → Bytes

namespace Sending

/-- What is written that a line may harm. -/
def allPackets (sending : Sending) : List Bytes := sending.packets ++ [createYmodemEndSessionPacket]

end Sending

/-- A line that harms a packet fewer than `limit` times in a row, and so that the checksum tells. -/
structure Line.Noisy (sending : Sending) (limit : ℕ) (line : Line) : Prop where
  control : ∀ n, line.arrives n [EOT] = [EOT]
  detected : ∀ n, ∀ packet ∈ sending.allPackets,
    line.arrives n packet = packet ∨ Harmed packet (line.arrives n packet)
  sometimes : ∀ n, ∀ packet ∈ sending.allPackets, ∃ k < limit, line.arrives (n + k) packet = packet

/-- A line that harms nothing. -/
def Line.clean : Line := ⟨fun _ bytes => bytes⟩

theorem Line.clean_noisy (sending : Sending) {limit : ℕ} (some_ : 0 < limit) :
    Line.clean.Noisy sending limit :=
  ⟨fun _ => rfl, fun _ _ _ => .inl rfl, fun _ _ _ => ⟨0, some_, rfl⟩⟩

/-! ## The sides as processes -/

/-- What the sender writes next goes over the line, as the `n`-th. -/
def Line.deliver (line : Line) (n : ℕ) (next : Sender × Option Bytes) : (Sender × ℕ) × List UInt8 :=
  match next.2 with
  | none => ((next.1, n), [])
  | some written => ((next.1, n + 1), line.arrives n written)

/-- The sender, with what the line makes of its writes. -/
def senderProcess (sending : Sending) (line : Line) : Process (Sender × ℕ) UInt8 UInt8 where
  read s :=
    if s.1.phase.stopped then none
    else some fun byte => line.deliver s.2 (s.1.step sending (.byte byte))

def receiverProcess (retryLimit : ℕ) : Process Receiver UInt8 UInt8 where
  read r := if r.phase.stopped then none else some fun byte => r.step retryLimit (.byte byte)

/-- Both sides wait; the receiver has made its first request. -/
def startConfig (retryLimit : ℕ) (existing : List JsString) : Config (Sender × ℕ) Receiver UInt8 UInt8 :=
  let receiver := Receiver.start retryLimit existing
  ⟨(Sender.start, 0), receiver.1, [], receiver.2⟩

/-! ## Reading a packet -/

section Reading

variable {retryLimit : ℕ} {r : Receiver}

theorem read_receiver (live : r.phase.stopped = false) :
    (receiverProcess retryLimit).read r = some fun byte => r.step retryLimit (.byte byte) := by
  simp only [receiverProcess, live, Bool.false_eq_true, if_false]

/-- The receiver in the middle of a frame. -/
def Receiver.collecting (r : Receiver) (size : ℕ) (bytes : Bytes) : Receiver :=
  { r with reader := .collecting size bytes }

theorem step_collecting {size : ℕ} {bytes : Bytes} (live : r.phase.stopped = false) (byte : UInt8) :
    (r.collecting size bytes).step retryLimit (.byte byte) =
      if bytes.length + 1 = size + 4 then
        ({ r with reader := .idle } : Receiver).onFrame retryLimit (frameOf size (bytes ++ [byte]))
      else (r.collecting size (bytes ++ [byte]), []) := by
  by_cases full : bytes.length + 1 = size + 4
  · simp only [Receiver.step, Receiver.collecting, live, FrameReader.readByte, full, Bool.false_eq_true,
      if_true, if_false]
  · simp only [Receiver.step, Receiver.collecting, live, FrameReader.readByte, full, Bool.false_eq_true,
      if_false]

theorem collect {size : ℕ} {bytes more : Bytes} (live : r.phase.stopped = false)
    (short : bytes.length + more.length < size + 4) :
    (receiverProcess retryLimit).feed (r.collecting size bytes) more =
      some (r.collecting size (bytes ++ more), []) := by
  induction more generalizing bytes with
  | nil =>
    rw [append_nil]
    rfl
  | cons byte more ih =>
    rw [length_cons] at short
    have one := @step_collecting retryLimit r size bytes live byte
    rw [if_neg (by omega)] at one
    have rest := @ih (bytes ++ [byte]) (by
      rw [length_append, length_singleton]
      omega)
    rw [append_assoc] at rest
    exact Process.feed_cons (@read_receiver _ (r.collecting size bytes) live) one rest

theorem frameOf_packet {size : ℕ} {blockNumber high low : UInt8} {payload : Bytes} (length : payload.length = size) :
    frameOf size ([blockNumber, 0xff - blockNumber] ++ payload ++ [high] ++ [low]) =
      .packet blockNumber payload (crcOf [high, low] = (crc16Xmodem payload).toNat) := by
  subst length
  have inside : (([blockNumber, 0xff - blockNumber] ++ payload ++ [high] ++ [low]).drop 2).take payload.length =
      payload := by
    simp
  have last : ([blockNumber, 0xff - blockNumber] ++ payload ++ [high] ++ [low]).getD (payload.length + 2) 0 =
      high := by
    simp
  have after : ([blockNumber, 0xff - blockNumber] ++ payload ++ [high] ++ [low]).getD (payload.length + 3) 0 =
      low := by
    simp
  unfold frameOf
  rw [inside, last, after]
  simp [crcOf]

theorem read_header {header : UInt8} (idle : r.reader = .idle) (known : header = SOH ∨ header = STX) :
    r.reader.readByte header = .more (.collecting (payloadLength header) []) := by
  rw [idle]
  rcases known with rfl | rfl
  · rfl
  · rfl

theorem step_header {header : UInt8} (live : r.phase.stopped = false) (idle : r.reader = .idle)
    (known : header = SOH ∨ header = STX) :
    r.step retryLimit (.byte header) = (r.collecting (payloadLength header) [], []) := by
  simp only [Receiver.step, live, Bool.false_eq_true, if_false, read_header idle known]
  rfl

variable {header blockNumber : UInt8}

/-- **A whole packet is read as one frame.** -/
theorem feed_packet {payload crc : Bytes} (live : r.phase.stopped = false)
    (idle : r.reader = .idle) (known : header = SOH ∨ header = STX)
    (size : payload.length = payloadLength header) (two : crc.length = 2) :
    (receiverProcess retryLimit).feed r (packetOf header blockNumber payload crc) =
      some (r.onFrame retryLimit (.packet blockNumber payload (crcOf crc = (crc16Xmodem payload).toNat))) := by
  obtain ⟨high, low, rfl⟩ := length_eq_two.mp two
  have same : { r with reader := .idle } = r := by
    rw [← idle]
  have middle := @collect retryLimit r (payloadLength header) []
    ([blockNumber, 0xff - blockNumber] ++ payload ++ [high]) live (by
      simp only [length_append, length_cons, length_nil]
      omega)
  have last := @step_collecting retryLimit r (payloadLength header)
    ([blockNumber, 0xff - blockNumber] ++ payload ++ [high]) live low
  rw [if_pos (by simp only [length_append, length_cons, length_nil]; omega), same,
    frameOf_packet size] at last
  generalize r.onFrame retryLimit _ = answer at last ⊢
  obtain ⟨next, out⟩ := answer
  have ending := Process.feed_cons (@read_receiver retryLimit (r.collecting _ _) live) last
    (Process.feed_nil _ _)
  have whole := Process.feed_cons (read_receiver live) (step_header live idle known) (Process.feed_append middle ending)
  rw [nil_append, nil_append, append_nil] at whole
  have cut : packetOf header blockNumber payload [high, low] =
      header :: ([blockNumber, 0xff - blockNumber] ++ payload ++ [high] ++ [low]) := by
    simp [packetOf]
  rw [cut, whole]

/-- A packet as the sender makes it. -/
structure IsPacket (header : UInt8) (payload : Bytes) : Prop where
  known : header = SOH ∨ header = STX
  size : payload.length = payloadLength header

theorem crcOf_crcBytes (crc : UInt16) : crcOf (crcBytes crc) = crc.toNat := by
  have bound := crc.toNat_lt
  simp only [crcOf, crcBytes, getD_cons_zero, getD_cons_succ, UInt16.toNat_toUInt8,
    UInt16.toNat_shiftRight]
  have shift : crc.toNat >>> ((8 : UInt16).toNat % 16) = crc.toNat / 256 := by
    rw [Nat.shiftRight_eq_div_pow]
    rfl
  rw [shift]
  omega

theorem feed_good {payload : Bytes} (is : IsPacket header payload)
    (live : r.phase.stopped = false) (idle : r.reader = .idle) :
    (receiverProcess retryLimit).feed r (createPacket header blockNumber payload) =
      some (r.onFrame retryLimit (.packet blockNumber payload true)) := by
  have fed := @feed_packet retryLimit r header blockNumber payload (crcBytes (crc16Xmodem payload)) live idle
    is.known is.size rfl
  rwa [crcOf_crcBytes, decide_eq_true rfl] at fed

theorem Harmed.of_packet {payload arrived : Bytes}
    (harmed : Harmed (createPacket header blockNumber payload) arrived) :
    ∃ payload' crc', arrived = packetOf header blockNumber payload' crc' ∧
      payload'.length = payload.length ∧ crc'.length = 2 ∧ crcOf crc' ≠ (crc16Xmodem payload').toNat := by
  generalize same : createPacket header blockNumber payload = packet at harmed
  cases harmed with
  | @intro header' blockNumber' payload' crc payload'' crc'' size two two' detected =>
    obtain ⟨rfl, tail⟩ := List.cons.inj same
    obtain ⟨rfl, rest⟩ := List.cons.inj tail
    obtain ⟨-, body⟩ := List.cons.inj rest
    have body : payload ++ crcBytes (crc16Xmodem payload) = payload' ++ crc := body
    have lengths := congrArg List.length body
    rw [length_append, length_append, two] at lengths
    have crcLength : (crcBytes (crc16Xmodem payload)).length = 2 := rfl
    exact ⟨payload'', crc'', rfl, by omega, two', detected⟩

theorem feed_harmed {payload arrived : Bytes} (is : IsPacket header payload)
    (harmed : Harmed (createPacket header blockNumber payload) arrived)
    (live : r.phase.stopped = false) (idle : r.reader = .idle) :
    ∃ payload', (receiverProcess retryLimit).feed r arrived =
      some (r.onFrame retryLimit (.packet blockNumber payload' false)) := by
  obtain ⟨payload', crc', rfl, size, two, detected⟩ := harmed.of_packet
  have fed := @feed_packet retryLimit r header blockNumber payload' crc' live idle is.known
    (size.trans is.size) two
  rw [decide_eq_false detected] at fed
  exact ⟨payload', fed⟩

end Reading

/-! ## The sender's answers -/

section Answering

variable {sending : Sending} {line : Line} {phase next : SenderPhase} {n : ℕ} {byte : UInt8}

theorem feed_one {answer : Sender × Option Bytes} (live : phase.stopped = false)
    (one : Sender.readByte sending phase byte = answer) :
    (senderProcess sending line).feed (⟨phase, false⟩, n) [byte] = some (line.deliver n answer) := by
  have reads : (senderProcess sending line).read (⟨phase, false⟩, n) =
      some fun byte => line.deliver n (Sender.readByte sending phase byte) := by
    simp only [senderProcess, Sender.step, live, Bool.false_and, Bool.false_eq_true, if_false]
  subst one
  generalize delivered : line.deliver n (Sender.readByte sending phase byte) = after
  obtain ⟨last, out⟩ := after
  have fed := Process.feed_cons reads delivered (Process.feed_nil _ _)
  rwa [append_nil] at fed

theorem feed_answer {packet : Bytes} (live : phase.stopped = false) (other : byte ≠ CAN)
    (mem : phase.expected.contains byte) (wrote : respond sending phase byte = (next, some packet)) :
    (senderProcess sending line).feed (⟨phase, false⟩, n) [byte] =
      some ((⟨next, false⟩, n + 1), line.arrives n packet) := by
  have one : Sender.readByte sending phase byte = (⟨next, false⟩, some packet) := by
    simp only [Sender.readByte, other, if_false, mem, if_true, wrote]
  exact feed_one live one

/-- A byte that is waited for, and nothing to write. -/
theorem feed_quiet (live : phase.stopped = false) (other : byte ≠ CAN)
    (mem : phase.expected.contains byte) (wrote : respond sending phase byte = (next, none)) :
    (senderProcess sending line).feed (⟨phase, false⟩, n) [byte] = some ((⟨next, false⟩, n), []) := by
  have one : Sender.readByte sending phase byte = (⟨next, false⟩, none) := by
    simp only [Sender.readByte, other, if_false, mem, if_true, wrote]
  exact feed_one live one

theorem feed_skip (live : phase.stopped = false) (unexpected : phase.expected.contains CRC16 = false) :
    (senderProcess sending line).feed (⟨phase, false⟩, n) [CRC16] = some ((⟨phase, false⟩, n), []) := by
  have one : Sender.readByte sending phase CRC16 = (⟨phase, false⟩, none) := by
    have other : CRC16 ≠ CAN := by decide
    simp only [Sender.readByte, other, if_false, unexpected, Bool.false_eq_true, true_or, if_true]
  exact feed_one live one

end Answering

/-! ## A packet, until it arrives -/

/-- The packet is on the line for the `a`-th time, as the line has made it; `n` writes came before. -/
def attempt (line : Line) (phase : ℕ → SenderPhase) (receiver : ℕ → Receiver) (packet : Bytes) (n a : ℕ) :
    Config (Sender × ℕ) Receiver UInt8 UInt8 :=
  ⟨(⟨phase a, false⟩, n + a + 1), receiver a, line.arrives (n + a) packet, []⟩

/-- The packet is on the line as it was written. -/
def arrived (phase : ℕ → SenderPhase) (receiver : ℕ → Receiver) (packet : Bytes) (n a : ℕ) :
    Config (Sender × ℕ) Receiver UInt8 UInt8 :=
  ⟨(⟨phase a, false⟩, n + a + 1), receiver a, packet, []⟩

/-- A packet that is refused and sent again as long as it is harmed. -/
structure Stage (sending : Sending) (line : Line) (retryLimit limit : ℕ) (phase : ℕ → SenderPhase)
    (receiver : ℕ → Receiver) (header blockNumber : UInt8) (payload refusal : Bytes) : Prop where
  is : IsPacket header payload
  mem : createPacket header blockNumber payload ∈ sending.allPackets
  live : ∀ a, (receiver a).phase.stopped = false
  idle : ∀ a, (receiver a).reader = .idle
  refuse : ∀ a payload', a + 1 < limit →
    (receiver a).onFrame retryLimit (.packet blockNumber payload' false) = (receiver (a + 1), refusal)
  again : ∀ a n, a + 1 < limit → (senderProcess sending line).feed (⟨phase a, false⟩, n) refusal =
    some ((⟨phase (a + 1), false⟩, n + 1), line.arrives n (createPacket header blockNumber payload))

section Stages

variable {sending : Sending} {line : Line} {retryLimit limit : ℕ} {phase : ℕ → SenderPhase}
  {receiver : ℕ → Receiver} {header blockNumber : UInt8} {payload refusal : Bytes}

section

variable
    (stage : Stage sending line retryLimit limit phase receiver header blockNumber payload refusal)
    (noisy : line.Noisy sending limit) (n : ℕ)

include stage noisy

/-- It arrives at last. -/
theorem Stage.arrives :
    ∃ a < limit, Reaches (senderProcess sending line) (receiverProcess retryLimit)
      (attempt line phase receiver (createPacket header blockNumber payload) n 0)
      (arrived phase receiver (createPacket header blockNumber payload) n a) := by
  generalize whole : createPacket header blockNumber payload = packet
  have mem : packet ∈ sending.allPackets := whole ▸ stage.mem
  refine @Reaches.retry _ _ _ _ _ _ (attempt line phase receiver packet n) _
    (fun k => line.arrives (n + k) packet ≠ packet) limit ?_ ?_ ?_
  · obtain ⟨k, less, same⟩ := noisy.sometimes n packet mem
    exact ⟨k, less, not_not.mpr same⟩
  · intro k less harm
    have harmed : Harmed packet (line.arrives (n + k) packet) :=
      (noisy.detected (n + k) packet mem).resolve_left harm
    rw [← whole] at harmed
    obtain ⟨payload', fed⟩ := @feed_harmed retryLimit _ _ _ _ _ stage.is harmed (stage.live k) (stage.idle k)
    rw [stage.refuse k payload' less] at fed
    have answered := stage.again k (n + k + 1) less
    rw [whole] at fed answered
    exact reaches_exchange fed answered
  · intro k _ fine
    unfold attempt arrived
    rw [not_not.mp fine]
    exact .refl _

theorem Stage.goes_on {next : Receiver} (answer : Bytes)
    (accept : ∀ a, (receiver a).onFrame retryLimit (.packet blockNumber payload true) = (next, answer))
    {after : SenderPhase} {written : Bytes}
    (answered : ∀ a m, a < limit → (senderProcess sending line).feed (⟨phase a, false⟩, m) answer =
      some ((⟨after, false⟩, m + 1), line.arrives m written)) :
    ∃ m, Reaches (senderProcess sending line) (receiverProcess retryLimit)
      (attempt line phase receiver (createPacket header blockNumber payload) n 0)
      ⟨(⟨after, false⟩, m + 1), next, line.arrives m written, []⟩ := by
  obtain ⟨a, less, there⟩ := stage.arrives noisy n
  have fed := @feed_good retryLimit (receiver a) _ blockNumber _ stage.is (stage.live a) (stage.idle a)
  rw [accept a] at fed
  exact ⟨n + a + 1, there.trans (reaches_exchange fed (answered a _ less))⟩

end

end Stages

end Netcatty.Ymodem
