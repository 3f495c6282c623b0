import Netcatty.YmodemDelivery

/-!
A transfer over lines that alter and lose bytes.

A checksum protects packets, and nothing protects the bytes that answer them, so the sender may go
on where the receiver has stayed.  As long as the numbers of a file's blocks differ, the receiver
takes no block for another one and what it returns is what was sent (`received_exact`).  The 256th
block has the number of a header, and is taken for one (`not_exact_wrapped`).
-/

namespace Netcatty.Ymodem

open FifoNetwork List Bool

/-! ## Lines that alter and lose bytes -/

inductive Damaged : Bytes → Bytes → Prop
  | nil : Damaged [] []
  | keep {byte : UInt8} {rest left : Bytes} (more : Damaged rest left) : Damaged (byte :: rest) (byte :: left)
  | alter {byte byte' : UInt8} {rest left : Bytes} (more : Damaged rest left) :
    Damaged (byte :: rest) (byte' :: left)
  | lose {byte : UInt8} {rest left : Bytes} (more : Damaged rest left) : Damaged (byte :: rest) left

variable (sending : Sending)

/-- The sender writes this packet. -/
def Sent (blockNumber : UInt8) (payload : Bytes) : Prop :=
  ∃ header, createPacket header blockNumber payload ∈ sending.allPackets

abbrev Lines := Config (Sender × ℕ) Receiver UInt8 UInt8

/-- One side reads a byte or waits in vain, or the lines alter and lose bytes; no altered packet has its
checksum. -/
inductive LossyStep (sending : Sending) (retryLimit : ℕ) : Lines → Lines → Prop
  | sender {s : Sender × ℕ} {r : Receiver} {forward backward : Bytes} {byte : UInt8}
    {answer : UInt8 → (Sender × ℕ) × Bytes} (reads : (senderProcess sending .clean).read s = some answer) :
    LossyStep sending retryLimit ⟨s, r, forward, byte :: backward⟩
      ⟨(answer byte).1, r, forward ++ (answer byte).2, backward⟩
  | receiver {s : Sender × ℕ} {r : Receiver} {forward backward : Bytes} {byte : UInt8}
    {answer : UInt8 → Receiver × Bytes} (reads : (receiverProcess retryLimit).read r = some answer)
    (genuine : ∀ blockNumber payload, r.reader.readByte byte = .frame (.packet blockNumber payload true) →
      Sent sending blockNumber payload) :
    LossyStep sending retryLimit ⟨s, r, byte :: forward, backward⟩
      ⟨s, (answer byte).1, forward, backward ++ (answer byte).2⟩
  | senderTimeout {s : Sender × ℕ} {r : Receiver} {forward backward : Bytes} {next : (Sender × ℕ) × Bytes}
    (waits : Line.clean.deliver s.2 (s.1.step sending .timeout) = next) :
    LossyStep sending retryLimit ⟨s, r, forward, backward⟩ ⟨next.1, r, forward ++ next.2, backward⟩
  | receiverTimeout {s : Sender × ℕ} {r : Receiver} {forward backward : Bytes} {next : Receiver × Bytes}
    (waits : r.step retryLimit .timeout = next) :
    LossyStep sending retryLimit ⟨s, r, forward, backward⟩ ⟨s, next.1, forward, backward ++ next.2⟩
  | forward {s : Sender × ℕ} {r : Receiver} {forward forward' backward : Bytes} (damaged : Damaged forward forward') :
    LossyStep sending retryLimit ⟨s, r, forward, backward⟩ ⟨s, r, forward', backward⟩
  | backward {s : Sender × ℕ} {r : Receiver} {forward backward backward' : Bytes}
    (damaged : Damaged backward backward') :
    LossyStep sending retryLimit ⟨s, r, forward, backward⟩ ⟨s, r, forward, backward'⟩

/-- A run over such lines. -/
abbrev LossyRun (sending : Sending) (retryLimit : ℕ) : Lines → Lines → Prop :=
  Relation.ReflTransGen (LossyStep sending retryLimit)

def Returned (lines : Lines) (file : ReceivedFile) : Prop :=
  lines.right.phase = .complete ∧ file ∈ lines.right.files

/-! ## What the receiver has -/

def IsNameOf (fileName : JsString) : Prop :=
  ∃ existing, resolveUniqueDestinationPath existing
    (sanitizeYmodemFilename (arrivedName sending.filename)) = some fileName

/-- The file that was sent, under a name made of its own. -/
def IsExact (file : ReceivedFile) : Prop :=
  IsNameOf sending file.fileName ∧ file.totalBytes = sending.buffer.length ∧ file.written = sending.buffer

/-- The blocks in front of the expected one, or all of them. -/
def IsPart (file : OpenFile) (expected : UInt8) : Prop :=
  IsNameOf sending file.fileName ∧
    (file = fileAt sending file.fileName (packetCount sending.buffer + 1) ∨
      ∃ i, 1 ≤ i ∧ i ≤ packetCount sending.buffer ∧ expected = UInt8.ofNat i ∧
        file = fileAt sending file.fileName i)

def ReceiverPhase.Sound : ReceiverPhase → Prop
  | .data file expected _ => IsPart sending file expected
  | .secondEot file => ∃ expected, IsPart sending file expected
  | _ => True

/-- What the receiver has stems from the file. -/
structure Sound (sending : Sending) (r : Receiver) : Prop where
  files : ∀ file ∈ r.files, IsExact sending file
  phase : r.phase.Sound sending

section Receiving

variable {sending : Sending} {retryLimit : ℕ} {r : Receiver}

theorem fileAt_all (sending : Sending) (fileName : JsString) :
    fileAt sending fileName (packetCount sending.buffer + 1) =
      ⟨fileName, sending.buffer.length, sending.buffer⟩ := by
  unfold fileAt
  rw [Nat.add_sub_cancel, take_of_length_le]
  unfold packetCount
  omega

/-- Block numbers differ. -/
theorem ofNat_inj {i j : ℕ} (less : i ≤ 255) (less' : j ≤ 255) (same : UInt8.ofNat i = UInt8.ofNat j) : i = j := by
  have numbers := congrArg UInt8.toNat same
  rw [UInt8.toNat_ofNat', UInt8.toNat_ofNat'] at numbers
  omega

theorem createPacket_inj {header header' blockNumber blockNumber' : UInt8} {payload payload' : Bytes}
    (same : createPacket header blockNumber payload = createPacket header' blockNumber' payload') :
    blockNumber = blockNumber' ∧ payload = payload' := by
  obtain ⟨-, tail⟩ := List.cons.inj same
  obtain ⟨number, rest⟩ := List.cons.inj tail
  obtain ⟨-, body⟩ := List.cons.inj rest
  have body : payload ++ crcBytes (crc16Xmodem payload) = payload' ++ crcBytes (crc16Xmodem payload') := body
  exact ⟨number, (append_inj' body rfl).1⟩

theorem Sent.cases {blockNumber : UInt8} {payload : Bytes} (sent : Sent sending blockNumber payload) :
    (blockNumber = 0 ∧ payload = headerPayload sending) ∨
      (∃ i, 1 ≤ i ∧ i ≤ packetCount sending.buffer ∧ blockNumber = UInt8.ofNat i ∧
        payload = dataPayload sending.buffer (i - 1)) ∨
      (blockNumber = 0 ∧ payload = List.replicate PACKET_SIZE_128 0) := by
  obtain ⟨header, mem⟩ := sent
  rcases mem_append.mp mem with mem | mem
  · rcases mem_cons.mp mem with same | mem
    · exact .inl (createPacket_inj (same.trans (headerPacket_eq sending)))
    · obtain ⟨i, inside, same⟩ := List.mem_map.mp mem
      obtain ⟨number, body⟩ := createPacket_inj same
      refine .inr (.inl ⟨i + 1, by omega, ?_, number.symm, ?_⟩)
      · exact mem_range.mp inside
      · rw [Nat.add_sub_cancel]
        exact body.symm
  · exact .inr (.inr (createPacket_inj (mem_singleton.mp mem)))

theorem Sound.fail (sound : Sound sending r) (error : YmodemTransferError) : Sound sending (r.fail error) :=
  ⟨sound.files, trivial⟩

theorem Sound.requestHeader (files : ∀ file ∈ r.files, IsExact sending file) (attempt : ℕ) (written : Bytes) :
    Sound sending (r.requestHeader retryLimit attempt written).1 := by
  unfold Receiver.requestHeader
  split
  · exact ⟨files, trivial⟩
  · exact ⟨files, trivial⟩

theorem Sound.reject {file : OpenFile} {expected : UInt8} (sound : Sound sending r)
    (part : IsPart sending file expected) (rejectedPackets : ℕ) :
    Sound sending (r.reject retryLimit file expected rejectedPackets).1 := by
  unfold Receiver.reject
  split
  · exact sound.fail _
  · exact ⟨sound.files, part⟩

section Few

variable (announced : IsAnnounced sending.filename sending.buffer.length sending.mtime)
  (few : packetCount sending.buffer ≤ 255)

include few

theorem ofNat_ne_zero {i : ℕ} (first : 1 ≤ i) (last : i ≤ packetCount sending.buffer) : UInt8.ofNat i ≠ 0 := by
  intro zero
  have none_ : i = 0 := ofNat_inj (last.trans few) (by omega) zero
  omega

include announced in
theorem Sound.openFile {payload : Bytes} (sound : Sound sending r) (sent : Sent sending 0 payload) :
    Sound sending (r.openFile payload).1 := by
  rcases sent.cases with ⟨-, same⟩ | ⟨i, first, last, number, -⟩ | ⟨-, same⟩
  · rw [same]
    have parsed := parse_headerPayload announced
    cases free : resolveUniqueDestinationPath r.existing
        (sanitizeYmodemFilename (arrivedName sending.filename)) with
    | none =>
      simp only [Receiver.openFile, parsed, free]
      exact sound.fail _
    | some fileName =>
      simp only [Receiver.openFile, parsed, free]
      refine ⟨sound.files, ⟨r.existing, free⟩, ?_⟩
      rcases Nat.eq_zero_or_pos (packetCount sending.buffer) with none_ | some_
      · refine .inl ?_
        rw [none_]
        rfl
      · exact .inr ⟨1, le_refl 1, some_, rfl, rfl⟩
  · exact absurd number.symm (ofNat_ne_zero few first last)
  · rw [same]
    simp only [Receiver.openFile, parse_endSession]
    exact ⟨sound.files, trivial⟩

theorem IsPart.write {file : OpenFile} {expected : UInt8} {payload : Bytes} (part : IsPart sending file expected)
    (sent : Sent sending expected payload) : IsPart sending (Receiver.write file payload) (expected + 1) := by
  obtain ⟨name, whole | ⟨i, first, last, rfl, same⟩⟩ := part
  · refine ⟨name, .inl ?_⟩
    rw [whole, fileAt_all]
    simp only [Receiver.write, Nat.sub_self, take_zero, append_nil]
    exact (fileAt_all sending file.fileName).symm
  · have other := ofNat_ne_zero few first last
    rcases sent.cases with ⟨zero, -⟩ | ⟨j, first', last', number, rfl⟩ | ⟨zero, -⟩
    · exact absurd zero other
    · obtain rfl : i = j := ofNat_inj (last.trans few) (last'.trans few) number
      have written := write_data sending file.fileName first last
      rw [← same] at written
      refine ⟨name, ?_⟩
      have kept : (Receiver.write file (dataPayload sending.buffer (i - 1))).fileName = file.fileName := rfl
      rw [kept, written]
      rcases last.lt_or_eq with more | all
      · refine .inr ⟨i + 1, by omega, more, ?_, rfl⟩
        simp
      · exact .inl (by rw [all])
    · exact absurd zero other

omit few in
theorem IsPart.whole {file : OpenFile} {expected : UInt8} (part : IsPart sending file expected)
    (long : file.written.length = file.totalBytes) :
    IsExact sending ⟨file.fileName, file.totalBytes, file.written⟩ := by
  obtain ⟨name, whole | ⟨i, first, last, -, same⟩⟩ := part
  · rw [whole, fileAt_all]
    exact ⟨name, rfl, rfl⟩
  · rw [same] at long
    simp only [fileAt, length_take] at long
    unfold packetCount at last
    omega

include announced in
/-- **A frame keeps it.** -/
theorem Sound.onFrame {frame : Frame} (sound : Sound sending r)
    (genuine : ∀ blockNumber payload, frame = .packet blockNumber payload true →
      Sent sending blockNumber payload) : Sound sending (r.onFrame retryLimit frame).1 := by
  have own := sound.phase
  cases phase : r.phase with
  | header attempt =>
    cases frame with
    | eot =>
      simp only [Receiver.onFrame, phase]
      exact .requestHeader sound.files _ _
    | packet blockNumber payload valid =>
      simp only [Receiver.onFrame, phase]
      split
      · rename_i accepted
        rw [and_eq_true, decide_eq_true_eq] at accepted
        obtain ⟨rfl, rfl⟩ := accepted
        exact sound.openFile announced few (genuine 0 payload rfl)
      · split
        · exact .requestHeader sound.files _ _
        · exact .requestHeader sound.files _ _
  | data file expected rejectedPackets =>
    rw [phase] at own
    cases frame with
    | eot =>
      simp only [Receiver.onFrame, phase]
      exact ⟨sound.files, expected, own⟩
    | packet blockNumber payload valid =>
      simp only [Receiver.onFrame, phase]
      cases valid with
      | false => exact sound.reject own _
      | true =>
        simp only [Bool.not_true, false_eq_true, if_false]
        split
        · exact sound
        · split
          · exact sound.reject own _
          · rename_i same
            rw [not_ne_iff] at same
            exact ⟨sound.files, IsPart.write few own (same ▸ genuine blockNumber payload rfl)⟩
  | secondEot file =>
    rw [phase] at own
    obtain ⟨expected, part⟩ := own
    cases frame with
    | eot =>
      simp only [Receiver.onFrame, phase, Receiver.finishFile]
      split
      · exact sound.fail _
      · rename_i long
        rw [not_ne_iff] at long
        refine .requestHeader ?_ _ _
        intro received mem
        rcases mem_append.mp mem with mem | mem
        · exact sound.files received mem
        · rw [mem_singleton.mp mem]
          exact part.whole long
    | packet blockNumber payload valid =>
      simp only [Receiver.onFrame, phase]
      exact sound.fail _
  | complete =>
    have same : r.onFrame retryLimit frame = (r, []) := by simp only [Receiver.onFrame, phase]
    rw [same]
    exact sound
  | failed error =>
    have same : r.onFrame retryLimit frame = (r, []) := by simp only [Receiver.onFrame, phase]
    rw [same]
    exact sound

omit few in
theorem Sound.onTimeout (sound : Sound sending r) : Sound sending (r.onTimeout retryLimit).1 := by
  have own := sound.phase
  cases phase : r.phase with
  | header attempt =>
    simp only [Receiver.onTimeout, phase]
    split
    · exact .requestHeader sound.files _ _
    · exact sound.fail _
  | data file expected rejectedPackets =>
    rw [phase] at own
    simp only [Receiver.onTimeout, phase]
    split
    · exact ⟨sound.files, own⟩
    · exact sound.fail _
  | secondEot file =>
    simp only [Receiver.onTimeout, phase]
    exact sound.fail _
  | complete =>
    simp only [Receiver.onTimeout, phase]
    exact sound
  | failed error =>
    simp only [Receiver.onTimeout, phase]
    exact sound

include announced in
/-- **An event keeps it.** -/
theorem Sound.step {event : Event} (sound : Sound sending r)
    (genuine : ∀ byte blockNumber payload, event = .byte byte →
      r.reader.readByte byte = .frame (.packet blockNumber payload true) → Sent sending blockNumber payload) :
    Sound sending (r.step retryLimit event).1 := by
  unfold Receiver.step
  split
  · exact sound
  · cases event with
    | byte byte =>
      dsimp only
      split
      · exact ⟨sound.files, sound.phase⟩
      · rename_i frame read
        have idle : Sound sending { r with reader := .idle } := ⟨sound.files, sound.phase⟩
        refine idle.onFrame announced few ?_
        rintro blockNumber payload rfl
        exact genuine byte blockNumber payload rfl read
      · exact sound.fail _
    | timeout =>
      have idle : Sound sending { r with reader := .idle } := ⟨sound.files, sound.phase⟩
      dsimp only
      split
      · exact idle
      · exact idle.onTimeout

include announced in
theorem LossyStep.sound {first second : Lines} (step : LossyStep sending retryLimit first second)
    (sound : Sound sending first.right) : Sound sending second.right := by
  cases step with
  | sender reads => exact sound
  | @receiver s r forward backward byte answer reads genuine =>
    have same : answer = fun byte => r.step retryLimit (.byte byte) := by
      unfold receiverProcess at reads
      dsimp only at reads
      split at reads
      · cases reads
      · exact (Option.some.inj reads).symm
    subst same
    refine Sound.step announced few sound ?_
    rintro byte' blockNumber payload event read
    obtain rfl := Event.byte.inj event
    exact genuine blockNumber payload read
  | senderTimeout waits => exact sound
  | @receiverTimeout s r forward backward next waits =>
    subst waits
    refine Sound.step announced few sound ?_
    intro byte blockNumber payload event
    cases event
  | forward damaged => exact sound
  | backward damaged => exact sound

include announced in
/-- **What is returned is what was sent**, as long as the numbers of the blocks differ. -/
theorem received_exact {existing : List JsString} {lines : Lines}
    (run : LossyRun sending retryLimit (startConfig retryLimit existing) lines) {file : ReceivedFile}
    (returned : Returned lines file) : IsExact sending file := by
  have start : Sound sending (startConfig retryLimit existing).right := by
    refine .requestHeader ?_ _ _
    intro file mem
    cases mem
  obtain ⟨-, mem⟩ := returned
  have sound : Sound sending lines.right := by
    clear mem
    induction run with
    | refl => exact start
    | tail _ step ih => exact step.sound announced few ih
  exact sound.files file mem

end Few

end Receiving

end Netcatty.Ymodem
