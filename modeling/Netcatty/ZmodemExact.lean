import Netcatty.ZmodemScan

/-!
The receive fast path delivers what was sent.

While a frame is open the session holds the bytes that have come and not been delivered.  Together
with those still to come they are the subpackets that are left, as they were written.
-/

namespace Netcatty.Zmodem

open FastSession List Option

/-! ## Sessions in any order of operations -/

def FastSession.create (lastHeaderCrc : CrcLen) : FastSession :=
  ⟨[], 0, none, none, none, [], false, lastHeaderCrc, false, false, false, none, []⟩

/-- Sessions reached by the operations of the fast path, in any order, and by what the library does. -/
inductive Reached : FastSession → Prop
  | create (lastHeaderCrc : CrcLen) : Reached (FastSession.create lastHeaderCrc)
  | push {session : FastSession} (reached : Reached session) (u8 : Bytes) : Reached (session.fastPush u8)
  | findSequence {session : FastSession} (reached : Reached session) (needle : Bytes) :
    Reached (session.fastFindSequence needle).1
  | findFrameEnd {session : FastSession} (reached : Reached session) : Reached session.fastFindFrameEnd.1
  | consumeAt {session : FastSession} (reached : Reached session) (n : ℕ) : Reached (session.fastConsumeAt n)
  | moveAllToArray {session : FastSession} (reached : Reached session) : Reached session.fastMoveAllToArray
  | moveArrayToFast {session : FastSession} (reached : Reached session) : Reached session.fastMoveArrayToFast
  | parse {session : FastSession} (reached : Reached session) : Reached session.fastParseSubpacket.1
  | library {session : FastSession} (reached : Reached session) (inputBuffer : Bytes)
    (nextSubpacketHandler : Bool) (lastHeaderCrc : CrcLen) (aborted ended gotZFIN : Bool)
    (bytesAfterOO : Option Bytes) (delivered : List Subpacket) :
    Reached
      { session with
        inputBuffer := inputBuffer, nextSubpacketHandler := nextSubpacketHandler
        lastHeaderCrc := lastHeaderCrc, aborted := aborted, ended := ended, gotZFIN := gotZFIN
        bytesAfterOO := bytesAfterOO, delivered := delivered }

theorem Reached.coherent {session : FastSession} (reached : Reached session) : Coherent session := by
  induction reached with
  | create => exact ⟨rfl, fun _ none_ => absurd none_.symm (some_ne_none _),
      fun _ _ none_ => absurd none_.symm (some_ne_none _)⟩
  | push _ u8 ih => exact ih.push u8
  | findSequence _ needle ih => exact ih.findSequence needle
  | findFrameEnd _ ih => exact ih.findFrameEnd.1
  | consumeAt _ n ih => exact ih.consumeAt n
  | moveAllToArray => exact Coherent.moveAllToArray _
  | moveArrayToFast _ ih => exact ih.moveArrayToFast
  | parse _ ih => exact ih.parse.1
  | library _ _ _ _ _ _ _ _ _ ih => exact ⟨ih.length, ih.frameEnd, ih.cursor⟩

/-! ## Parts of a file -/

/-- A part of a file as it is sent. -/
structure SendPart where
  source : Bytes
  offset : ℕ
  length : ℕ
  within : offset + length ≤ source.length
  frameEnd : FrameEnd

def SendPart.encode (part : SendPart) : Bytes :=
  buildSendSubpacketFast part.source part.offset part.length part.frameEnd.num

def SendPart.subpacket (part : SendPart) : Subpacket :=
  ⟨(part.source.drop part.offset).take part.length, part.frameEnd⟩

theorem SendPart.encode_eq (part : SendPart) : part.encode = encodeSubpacket part.subpacket := by
  unfold SendPart.encode encodeSubpacket buildSendSubpacketFast SendPart.subpacket
  dsimp only
  rw [drop_zero, take_length]

/-- The bytes on the line: those that are sent, and bytes of flow control between them. -/
inductive Inserted : Bytes → Bytes → Prop
  | nil : Inserted [] []
  | byte (b : UInt8) {bytes wire : Bytes} (rest : Inserted bytes wire) : Inserted (b :: bytes) (b :: wire)
  | control (b : UInt8) (ignored : isIgnored b = true) {bytes wire : Bytes} (rest : Inserted bytes wire) :
    Inserted bytes (b :: wire)

theorem strip_inserted {bytes wire : Bytes} (inserted : Inserted bytes wire)
    (kept : ∀ b ∈ bytes, isIgnored b = false) : stripIgnoredBytesFast wire = bytes := by
  unfold stripIgnoredBytesFast
  induction inserted with
  | nil => rfl
  | byte b rest ih =>
    rw [filter_cons_of_pos (by rw [kept b mem_cons_self]; rfl),
      ih fun other mem => kept other (mem_cons_of_mem _ mem)]
  | control b ignored rest ih =>
    rw [filter_cons_of_neg (by rw [ignored]; decide), ih kept]

def OpenUntilLast (subpackets : List Subpacket) : Prop :=
  ∀ subpacket ∈ subpackets.dropLast, subpacket.frameEnd.frame_end = false

theorem fastMoveAllToArray_eq (session : FastSession) : session.fastMoveAllToArray =
      { session with
        chunks := [], length := 0, frameEndAt := none, frameScan := none, sequenceScan := none
        inputBuffer := session.inputBuffer ++ session.contents } := by
  unfold fastMoveAllToArray fastContiguous
  by_cases many : session.chunks.length > 1
  · rw [if_pos many]
    rfl
  · rw [if_neg many]
    rfl

/-! ## An open frame -/

/-- A cursor of the scan for an abort sequence, behind whole chunks. -/
structure SequenceCursor (chunks : List Bytes) (scan : SequenceScan) : Prop where
  index : scan.chunkIndex ≤ chunks.length
  byte : scan.byteIndex = 0
  saw : scan.Saw (chunks.take scan.chunkIndex).flatten

/-- The session has subpackets left, of which some bytes have come. -/
structure Streaming (session : FastSession) (remaining : List Subpacket) (future : Bytes) : Prop where
  coherent : Coherent session
  sequence : ∀ scan, session.sequenceScan = some scan → SequenceCursor session.chunks scan
  bytes : session.inputBuffer ++ session.contents ++ future = remaining.flatMap encodeSubpacket
  opens : OpenUntilLast remaining
  handler : remaining ≠ [] → session.nextSubpacketHandler = true
  crc : session.lastHeaderCrc = .two
  running : session.aborted = false ∧ session.gotZFIN = false

namespace Streaming

variable {session : FastSession} {remaining : List Subpacket} {future : Bytes}

section

variable (streaming : Streaming session remaining future)
include streaming

theorem chain : session.contents.IsChain fun b c => b = ZDLE → c ≠ ZDLE := by
  have whole := (Separated.flatMap fun subpacket (_ : subpacket ∈ remaining) =>
    Separated.of_encodeSubpacket subpacket).chain
  rw [← streaming.bytes] at whole
  exact whole.left_of_append.right_of_append

theorem findSequence :
    ∃ after, session.fastFindSequence ABORT_SEQUENCE = (after, none) ∧ Streaming after remaining future ∧
      after.delivered = session.delivered ∧ after.inputBuffer = session.inputBuffer := by
  have coherent := streaming.coherent.findSequence ABORT_SEQUENCE
  have chain := streaming.chain
  unfold fastFindSequence at coherent ⊢
  split
  · exact ⟨session, rfl, streaming, rfl, rfl⟩
  rename_i some_
  rw [if_neg some_] at coherent
  have cursor : SequenceCursor session.chunks (session.sequenceScan.getD ⟨0, 0, 0, 0⟩) := by
    cases held : session.sequenceScan with
    | none => exact ⟨Nat.zero_le _, rfl, ⟨.inl rfl⟩⟩
    | some scan => exact streaming.sequence scan held
  have whole : (session.chunks.take (session.sequenceScan.getD ⟨0, 0, 0, 0⟩).chunkIndex).flatten ++
      (session.chunks.drop (session.sequenceScan.getD ⟨0, 0, 0, 0⟩).chunkIndex).flatten =
        session.contents := by
    rw [← flatten_append, take_append_drop]
    rfl
  obtain ⟨after, answer, saw⟩ := scanSequence_spec cursor.saw rfl cursor.byte (whole ▸ chain)
  dsimp only at coherent ⊢
  rw [answer] at coherent ⊢
  refine ⟨_, rfl, ⟨coherent, fun scan held => ?_, streaming.bytes, streaming.opens, streaming.handler,
    streaming.crc, streaming.running⟩, rfl, rfl⟩
  cases held
  refine ⟨le_rfl, rfl, ⟨?_⟩⟩
  have seen := saw.matched
  rw [whole] at seen
  rw [take_length]
  exact seen

omit streaming in
/-- Bytes that come. -/
theorem push {bytes : Bytes} (streaming : Streaming session remaining (bytes ++ future)) :
    Streaming (session.fastPush bytes) remaining future := by
  have coherent := streaming.coherent.push bytes
  have before := streaming.bytes
  unfold fastPush at coherent ⊢
  split
  · rename_i empty
    rw [empty, nil_append] at streaming
    exact streaming
  rename_i some_
  rw [if_neg some_] at coherent
  refine ⟨coherent, fun scan held => ?_, ?_, streaming.opens, streaming.handler, streaming.crc, streaming.running⟩
  · obtain ⟨index, byte, saw⟩ := streaming.sequence scan held
    refine ⟨?_, byte, ?_⟩
    · rw [length_append]
      omega
    · rw [take_append_of_le_length index]
      exact saw
  · unfold FastSession.contents at before ⊢
    rw [← before, flatten_append, flatten_singleton]
    simp only [append_assoc]

theorem moveArrayToFast :
    Streaming session.fastMoveArrayToFast remaining future ∧ session.fastMoveArrayToFast.inputBuffer = [] ∧
      session.fastMoveArrayToFast.delivered = session.delivered ∧
      session.fastMoveArrayToFast.length = session.inputBuffer.length + session.length := by
  have coherent := streaming.coherent.moveArrayToFast
  have before := streaming.bytes
  unfold fastMoveArrayToFast at coherent ⊢
  split
  · rename_i empty
    refine ⟨streaming, empty, rfl, ?_⟩
    rw [empty]
    exact (Nat.zero_add _).symm
  rename_i some_
  rw [if_neg some_] at coherent
  refine ⟨⟨coherent, fun _ none_ => absurd none_.symm (some_ne_none _), ?_, streaming.opens,
    streaming.handler, streaming.crc, streaming.running⟩, rfl, rfl, rfl⟩
  unfold FastSession.contents at before
  have flat : (session.inputBuffer :: session.chunks).flatten = session.inputBuffer ++ session.chunks.flatten :=
    flatten_cons ..
  exact (congrArg (· ++ future) flat).trans before

omit streaming in
theorem opens_tail {subpacket : Subpacket} {rest : List Subpacket} (opens : OpenUntilLast (subpacket :: rest)) :
    OpenUntilLast rest ∧ (rest ≠ [] → subpacket.frameEnd.frame_end = false) := by
  cases rest with
  | nil => exact ⟨fun _ mem => absurd mem not_mem_nil, fun some_ => absurd rfl some_⟩
  | cons next rest =>
    exact ⟨fun other mem => opens other (mem_cons_of_mem _ mem), fun _ => opens subpacket mem_cons_self⟩

theorem parse (empty : session.inputBuffer = [])
    {subpacket : Subpacket} {rest : List Subpacket} (left : remaining = subpacket :: rest) :
    (∃ after, session.fastParseSubpacket = (after, .ok false) ∧ Streaming after remaining future ∧
      after.inputBuffer = [] ∧ after.delivered = session.delivered ∧
      after.contents.length < (encodeSubpacket subpacket).length) ∨
    ∃ after, session.fastParseSubpacket = (after, .ok true) ∧ Streaming after rest future ∧
      after.inputBuffer = [] ∧ after.delivered = session.delivered ++ [subpacket] ∧
      after.length < session.length := by
  obtain ⟨coherent, sequence, bytes, opens, handler, crc, running⟩ := streaming
  obtain ⟨coherent', flags, parses⟩ := coherent.parse
  subst left
  rw [empty, nil_append, flatMap_cons] at bytes
  have cursor : ∀ scan, session.fastParseSubpacket.1.sequenceScan = some scan →
      SequenceCursor session.fastParseSubpacket.1.chunks scan := by
    intro scan held
    rcases flags.sequence with none_ | ⟨same, chunks⟩
    · rw [none_] at held
      cases held
    · rw [chunks]
      exact sequence scan (same ▸ held)
  have running' : session.fastParseSubpacket.1.aborted = false ∧ session.fastParseSubpacket.1.gotZFIN = false :=
    ⟨flags.aborted.trans running.1, flags.gotZFIN.trans running.2⟩
  have array : session.fastParseSubpacket.1.inputBuffer = [] := flags.inputBuffer.trans empty
  unfold ParsesAll at parses
  rw [crc] at parses
  by_cases short : session.contents.length < (encodeSubpacket subpacket).length
  · left
    have cut : session.contents <+: encodeSubpacket subpacket := by
      apply prefix_of_prefix_length_le ⟨future, bytes⟩ (prefix_append _ _) short.le
    rw [parse_cut cut short] at parses
    obtain ⟨answer, contents, delivered, same⟩ := parses
    refine ⟨_, Prod.ext rfl answer, ⟨coherent', cursor, ?_, opens, fun _ => ?_, flags.crc.trans crc, running'⟩,
      array, delivered, ?_⟩
    · rw [array, contents, nil_append, bytes, flatMap_cons]
    · rw [same]
      exact handler (cons_ne_nil _ _)
    · rw [contents]
      exact short
  · right
    obtain ⟨more, whole⟩ : ∃ more, session.contents = encodeSubpacket subpacket ++ more := by
      obtain ⟨more, same⟩ : encodeSubpacket subpacket <+: session.contents :=
        prefix_of_prefix_length_le (prefix_append _ _) ⟨future, bytes⟩ (Nat.le_of_not_lt short)
      exact ⟨more, same.symm⟩
    rw [whole, parse_written] at parses
    obtain ⟨answer, contents, delivered, same⟩ := parses
    rw [drop_left] at contents
    rw [whole, append_assoc] at bytes
    have rest' := append_cancel_left bytes
    obtain ⟨later, open_⟩ := opens_tail opens
    refine ⟨_, Prod.ext rfl answer, ⟨coherent', cursor, ?_, later, fun some_ => ?_, flags.crc.trans crc, running'⟩,
      array, delivered, ?_⟩
    · rw [array, contents, nil_append, rest']
    · rw [same, handler (cons_ne_nil _ _), open_ some_]
      rfl
    · rw [coherent'.length, coherent.length, contents, whole, length_append]
      have positive : 0 < (encodeSubpacket subpacket).length := by
        rw [encodeSubpacket_eq, length_append, length_cons]
        omega
      omega

end

/-- No more turns: the bytes that wait are fewer than the next subpacket. -/
structure Waits (session : FastSession) (remaining : List Subpacket) : Prop where
  array : session.inputBuffer = []
  short : ∀ subpacket rest, remaining = subpacket :: rest →
    session.contents.length < (encodeSubpacket subpacket).length

theorem turn (library : Library) (streaming : Streaming session remaining future) :
    (∃ after, session.fastConsumeTurn library = (after, .ok false) ∧ Streaming after remaining future ∧
      Waits after remaining ∧ after.delivered = session.delivered) ∨
    ∃ after subpacket rest, remaining = subpacket :: rest ∧
      session.fastConsumeTurn library = (after, .ok true) ∧ Streaming after rest future ∧
      after.delivered = session.delivered ++ [subpacket] ∧ after.turns < session.turns := by
  unfold fastConsumeTurn
  cases handler : session.nextSubpacketHandler with
  | true =>
    obtain ⟨moved, empty, delivered, length⟩ := streaming.moveArrayToFast
    simp only [if_true]
    by_cases none_ : session.fastMoveArrayToFast.length = 0
    · left
      rw [if_pos none_]
      refine ⟨_, rfl, moved, ⟨empty, fun subpacket rest _ => ?_⟩, delivered⟩
      rw [← moved.coherent.length, none_, encodeSubpacket_eq, length_append, length_cons]
      omega
    rw [if_neg none_]
    cases remaining with
    | nil =>
      have bytes := moved.bytes
      rw [empty, nil_append, flatMap_nil, append_eq_nil_iff] at bytes
      have zero := moved.coherent.length
      rw [bytes.1] at zero
      exact absurd zero none_
    | cons subpacket rest =>
      rcases moved.parse empty rfl with ⟨after, answer, kept, array, same, short⟩ | ⟨after, answer, kept, array, grown, fewer⟩
      · refine .inl ⟨after, answer, kept, ⟨array, fun _ _ cut => ?_⟩, same.trans delivered⟩
        obtain ⟨rfl, -⟩ := List.cons.inj cut
        exact short
      · refine .inr ⟨after, subpacket, rest, rfl, answer, kept, delivered ▸ grown, ?_⟩
        unfold FastSession.turns
        rw [array, length_nil]
        omega
  | false =>
    left
    have done : remaining = [] := by
      by_contra some_
      rw [streaming.handler some_] at handler
      cases handler
    subst done
    have bytes := streaming.bytes
    rw [flatMap_nil, append_eq_nil_iff, append_eq_nil_iff] at bytes
    obtain ⟨⟨array, contents⟩, ends⟩ := bytes
    have moved := fastMoveAllToArray_eq session
    rw [array, contents, append_nil] at moved
    have coherent := Coherent.moveAllToArray session
    rw [moved] at coherent ⊢
    refine ⟨_, rfl, ⟨coherent, fun _ none_ => absurd none_.symm (some_ne_none _), ends,
      streaming.opens, fun some_ => absurd rfl some_, streaming.crc, streaming.running⟩, ⟨rfl, fun _ _ cut => ?_⟩,
      rfl⟩
    cases cut

theorem loop (library : Library) {fuel : ℕ} (streaming : Streaming session remaining future)
    (enough : session.turns ≤ fuel) :
    ∃ after rest delivered, session.fastConsumeLoop library fuel = (after, none) ∧
      Streaming after rest future ∧ Waits after rest ∧ remaining = delivered ++ rest ∧
      after.delivered = session.delivered ++ delivered := by
  induction fuel generalizing session remaining with
  | zero =>
    unfold FastSession.turns at enough
    omega
  | succ fuel ih =>
    unfold fastConsumeLoop
    rcases streaming.turn library with ⟨after, answer, kept, waits, same⟩ |
      ⟨after, subpacket, rest, rfl, answer, kept, grown, fewer⟩
    · rw [answer]
      exact ⟨after, remaining, [], rfl, kept, waits, rfl, by rw [append_nil, same]⟩
    · rw [answer]
      obtain ⟨last, left, delivered, ends, kept', waits, cut, grown'⟩ := ih kept (by omega)
      refine ⟨last, left, subpacket :: delivered, ends, kept', waits, ?_, ?_⟩
      · rw [cut, cons_append]
      · rw [grown', grown, append_assoc, singleton_append]

theorem consume (library : Library) {octets : Bytes} (waits : session.inputBuffer = [])
    (streaming : Streaming session remaining (stripIgnoredBytesFast octets ++ future))
    (short : Waits session remaining) :
    ∃ after rest delivered, session.fastSessionConsume library octets = (after, none) ∧
      Streaming after rest future ∧ Waits after rest ∧ remaining = delivered ++ rest ∧
      after.delivered = session.delivered ++ delivered := by
  unfold fastSessionConsume
  rw [streaming.running.1, if_neg Bool.false_ne_true]
  split
  · rename_i empty
    subst empty
    exact ⟨session, remaining, [], rfl, streaming, short, rfl, by rw [append_nil]⟩
  have pushed := streaming.push
  have array : (session.fastPush (stripIgnoredBytesFast octets)).inputBuffer = [] := by
    unfold fastPush
    split
    · exact waits
    · exact waits
  have before : (session.fastPush (stripIgnoredBytesFast octets)).delivered = session.delivered := by
    unfold fastPush
    split <;> rfl
  obtain ⟨scanned, answer, kept, same, array'⟩ := pushed.findSequence
  have quiet : (session.fastPush (stripIgnoredBytesFast octets)).fastCheckAbort library = (scanned, none) := by
    unfold fastCheckAbort
    rw [if_neg (not_not_intro array), answer]
  dsimp only
  rw [quiet]
  dsimp only
  rw [kept.running.2, if_neg Bool.false_ne_true]
  obtain ⟨after, rest, delivered, ends, kept', waits', cut, grown⟩ := kept.loop library le_rfl
  exact ⟨after, rest, delivered, ends, kept', waits', cut, by rw [grown, same, before]⟩

theorem consumeAll (library : Library) {buffers : List Bytes} (short : Waits session remaining)
    (streaming : Streaming session remaining (stripIgnoredBytesFast buffers.flatten)) :
    ∃ after, session.fastConsumeAll library buffers = (after, none) ∧
      after.delivered = session.delivered ++ remaining ∧ after.aborted = false ∧ after.length = 0 ∧
      after.contents = [] ∧ after.inputBuffer = [] := by
  induction buffers generalizing session remaining with
  | nil =>
    cases remaining with
    | nil =>
      have bytes := streaming.bytes
      rw [flatMap_nil, append_eq_nil_iff, append_eq_nil_iff] at bytes
      refine ⟨session, rfl, by rw [append_nil], streaming.running.1, ?_, bytes.1.2, bytes.1.1⟩
      rw [streaming.coherent.length, bytes.1.2]
      rfl
    | cons subpacket rest =>
      have bytes := congrArg List.length streaming.bytes
      have less := short.short subpacket rest rfl
      rw [short.array, flatMap_cons, length_append, length_append, length_append] at bytes
      have none_ : (stripIgnoredBytesFast ([] : List Bytes).flatten).length = 0 := rfl
      rw [none_] at bytes
      exact absurd less (by rw [length_nil] at bytes; omega)
  | cons octets rest ih =>
    have cut : stripIgnoredBytesFast (octets :: rest).flatten =
        stripIgnoredBytesFast octets ++ stripIgnoredBytesFast rest.flatten := by
      unfold stripIgnoredBytesFast
      rw [flatten_cons, filter_append]
    rw [cut] at streaming
    obtain ⟨after, left, delivered, answer, kept, waits, whole, grown⟩ :=
      streaming.consume library short.array short
    obtain ⟨last, ends, all, facts⟩ := ih waits kept
    unfold fastConsumeAll
    rw [answer]
    refine ⟨last, ends, ?_, facts⟩
    rw [all, grown, whole, append_assoc]

end Streaming

/-! ## A file received -/

/-- A session that has read the header of a file's data, with what came behind the header. -/
def FastSession.afterHeader (inputBuffer : Bytes) : FastSession :=
  { FastSession.create .two with inputBuffer := inputBuffer, nextSubpacketHandler := true }

def receive (library : Library) (first : Bytes) (buffers : List Bytes) : FastSession × Option FastError :=
  let session := FastSession.afterHeader (stripIgnoredBytesFast first)
  match session.fastConsumeLoop library session.turns with
  | (session, some thrown) => (session, some thrown)
  | (session, none) => session.fastConsumeAll library buffers

theorem streaming_afterHeader {subpackets : List Subpacket} (opens : OpenUntilLast subpackets)
    {first future : Bytes} (bytes : first ++ future = subpackets.flatMap encodeSubpacket) :
    Streaming (FastSession.afterHeader first) subpackets future := by
  refine ⟨⟨rfl, fun _ none_ => absurd none_.symm (some_ne_none _),
    fun _ _ none_ => absurd none_.symm (some_ne_none _)⟩,
    fun _ none_ => absurd none_.symm (some_ne_none _), ?_, opens, fun _ => rfl, rfl, rfl, rfl⟩
  rw [← bytes]
  exact congrArg (· ++ future) (append_nil first)

/-- What is sent in a frame is delivered, however it is cut; and whatever the bytes are, the scan
and the parse of the chunks are those of all the bytes. -/
theorem fast_path_exact (library : Library) :
    (∀ parts : List SendPart, OpenUntilLast (parts.map SendPart.subpacket) →
      ∀ (wire first : Bytes) (buffers : List Bytes), Inserted (parts.flatMap SendPart.encode) wire →
        wire = first ++ buffers.flatten →
        ∃ session, receive library first buffers = (session, none) ∧
          session.delivered = parts.map SendPart.subpacket ∧ session.aborted = false ∧
          session.length = 0 ∧ session.contents = [] ∧ session.inputBuffer = []) ∧
    ∀ session, Reached session →
      session.fastFindFrameEnd.2 =
        (findMarker session.contents (session.contents.length + 1) 0).map Prod.fst ∧
      ParsesAll session := by
  refine ⟨fun parts opens wire first buffers inserted cut => ?_, fun session reached => ?_⟩
  · have written : parts.flatMap SendPart.encode = (parts.map SendPart.subpacket).flatMap encodeSubpacket := by
      rw [flatMap_map]
      exact flatMap_congr fun part _ => part.encode_eq
    have stripped : stripIgnoredBytesFast wire = (parts.map SendPart.subpacket).flatMap encodeSubpacket := by
      rw [← written]
      apply strip_inserted inserted
      intro b mem
      rw [written] at mem
      obtain ⟨subpacket, -, own⟩ := mem_flatMap.mp mem
      exact strip_written subpacket b own
    have bytes : stripIgnoredBytesFast first ++ stripIgnoredBytesFast buffers.flatten =
        (parts.map SendPart.subpacket).flatMap encodeSubpacket := by
      rw [← stripped, cut]
      exact (filter_append ..).symm
    obtain ⟨middle, rest, delivered, answer, kept, waits, whole, grown⟩ :=
      (streaming_afterHeader opens bytes).loop library le_rfl
    obtain ⟨last, ends, all, facts⟩ := kept.consumeAll library waits
    unfold receive
    dsimp only
    rw [answer]
    refine ⟨last, ends, ?_, facts⟩
    rw [all, grown, whole]
    rfl
  · have coherent := reached.coherent
    have same : findMarker session.contents (session.contents.length + 1) 0 = marker session.contents := by
      rw [findMarker_eq (by omega), drop_zero]
      simp
    rw [same]
    exact ⟨coherent.findFrameEnd.2.1, coherent.parse.2.2⟩

/-- A library that finds no header: bytes in front of a `*` are garbage. -/
def headerless : Library where
  checkForAbortSequence session := (session, none)
  parseAndConsumeHeader session :=
    ({ session with inputBuffer := session.inputBuffer.dropWhile (· ≠ 0x2a) }, .ok false)

theorem Inserted.refl (bytes : Bytes) : Inserted bytes bytes := by
  induction bytes with
  | nil => exact .nil
  | cons b bytes ih => exact .byte b ih

/-- Two parts of a file, the second the last of its frame. -/
def twoParts : List SendPart :=
  [⟨[0, 0x18, 0x91], 0, 3, by decide, .no_end_no_ack⟩, ⟨[7, 8, 9], 1, 2, by decide, .end_no_ack⟩]

/-- The line with a byte of flow control, cut inside an escape. -/
theorem fast_path_exact_two :
    ∃ session, receive headerless [0x11] [(twoParts.flatMap SendPart.encode).take 3,
        (twoParts.flatMap SendPart.encode).drop 3] = (session, none) ∧
      session.delivered = twoParts.map SendPart.subpacket := by
  have opens : OpenUntilLast (twoParts.map SendPart.subpacket) := by
    intro subpacket mem
    rw [mem_singleton.mp mem]
    rfl
  have cut : 0x11 :: twoParts.flatMap SendPart.encode = [0x11] ++ [(twoParts.flatMap SendPart.encode).take 3,
      (twoParts.flatMap SendPart.encode).drop 3].flatten := by
    rw [flatten_cons, flatten_singleton, take_append_drop]
    rfl
  obtain ⟨session, answer, delivered, -⟩ := (fast_path_exact headerless).1 twoParts opens
    (0x11 :: twoParts.flatMap SendPart.encode) [0x11] _
    (.control 0x11 (by decide) (Inserted.refl _)) cut
  exact ⟨session, answer, delivered⟩

/-- A subpacket that ends the frame hands what follows to the header parser. -/
theorem fast_path_leaves_frame :
    ¬∀ (parts : List SendPart) (wire first : Bytes) (buffers : List Bytes),
      Inserted (parts.flatMap SendPart.encode) wire → wire = first ++ buffers.flatten →
      ∃ session, receive headerless first buffers = (session, none) ∧
        session.delivered = parts.map SendPart.subpacket := by
  intro all
  obtain ⟨session, answer, delivered⟩ := all twoParts.reverse (twoParts.reverse.flatMap SendPart.encode) []
    [twoParts.reverse.flatMap SendPart.encode] (Inserted.refl _) (flatten_singleton ..).symm
  have one : (receive headerless [] [twoParts.reverse.flatMap SendPart.encode]).1.delivered.length = 1 := by
    decide +kernel
  rw [answer, delivered] at one
  cases one

/-! ## Sessions that are fed -/

/-- The library's work on a session is among what `Reached` allows. -/
structure Library.Lawful (library : Library) : Prop where
  check : ∀ session, Reached session → Reached (library.checkForAbortSequence session).1
  header : ∀ session, Reached session → Reached (library.parseAndConsumeHeader session).1

namespace Reached

variable {library : Library} {session : FastSession}

theorem checkAbort (lawful : library.Lawful) (reached : Reached session) :
    Reached (session.fastCheckAbort library).1 := by
  unfold fastCheckAbort
  split
  · exact lawful.check _ reached.moveAllToArray
  have scanned := reached.findSequence ABORT_SEQUENCE
  generalize session.fastFindSequence ABORT_SEQUENCE = result at scanned ⊢
  obtain ⟨after, found⟩ := result
  cases found with
  | none => exact scanned
  | some at_ => exact (scanned.consumeAt _).library _ _ _ _ _ _ _ _

theorem loop (lawful : library.Lawful) (fuel : ℕ) (reached : Reached session) :
    Reached (session.fastConsumeLoop library fuel).1 := by
  induction fuel generalizing session with
  | zero => exact reached
  | succ fuel ih =>
    have turn : Reached (session.fastConsumeTurn library).1 := by
      unfold fastConsumeTurn
      split
      · dsimp only
        split
        · exact reached.moveArrayToFast
        · exact reached.moveArrayToFast.parse
      · dsimp only
        split
        · exact reached.moveAllToArray
        · exact lawful.header _ reached.moveAllToArray
    unfold fastConsumeLoop
    generalize session.fastConsumeTurn library = result at turn ⊢
    obtain ⟨after, answer⟩ := result
    cases answer with
    | error thrown => exact turn
    | ok more =>
      cases more with
      | false => exact turn
      | true => exact ih turn

/-- Whatever a session is fed, it is one of those whose scans and parses are those of all its bytes. -/
theorem consume (lawful : library.Lawful) (reached : Reached session) (octets : Bytes) :
    Reached (session.fastSessionConsume library octets).1 := by
  unfold fastSessionConsume
  split
  · exact reached
  split
  · exact reached
  have checked := (reached.push (stripIgnoredBytesFast octets)).checkAbort lawful
  dsimp only
  generalize (session.fastPush (stripIgnoredBytesFast octets)).fastCheckAbort library = result at checked ⊢
  obtain ⟨after, answer⟩ := result
  cases answer with
  | some thrown => exact checked
  | none =>
    dsimp only
    split
    · have moved := checked.moveAllToArray
      unfold afterZFIN
      dsimp only
      split
      · exact moved
      split
      · exact moved.library _ _ _ _ _ _ _ _
      · exact moved
    · exact checked.loop lawful _

end Reached

end Netcatty.Zmodem
