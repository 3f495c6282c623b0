import Netcatty.ZmodemFastPath
import Netcatty.ZmodemRoundTrip

/-!
The scans of the receive fast path.

A cursor stands behind the bytes it has seen, whatever chunks they are in.  As long as it does,
the scan finds the marker of the bytes as a whole, and a parse of the chunks is the parse of them.
-/

namespace Netcatty.Zmodem

open List Option Bool

/-! ## The scan for a frame end -/

theorem marker_snoc {done : Bytes} (quiet : marker done = none) (b : UInt8) : marker (done ++ [b]) =
      if done.getLast? = some ZDLE then (FRAME_END_KEYS b).map fun frameEnd => (done.length - 1, frameEnd)
      else none := by
  induction done with
  | nil => rfl
  | cons first rest ih =>
    cases rest with
    | nil =>
      rw [getLast?_singleton, singleton_append]
      by_cases zdle : first = ZDLE
      · rw [if_pos (congrArg some zdle)]
        unfold marker
        rw [if_pos zdle]
        cases FRAME_END_KEYS b <;> rfl
      · rw [if_neg fun same => zdle (some_inj.mp same)]
        rw [marker_cons zdle]
        rfl
    | cons second rest =>
      rw [getLast?_cons_cons]
      unfold marker at quiet
      rw [cons_append, cons_append]
      unfold marker
      cases key : (if first = ZDLE then FRAME_END_KEYS second else none) with
      | some frameEnd =>
        rw [key] at quiet
        cases quiet
      | none =>
        rw [key] at quiet
        have before := ih (map_eq_none_iff.mp quiet)
        rw [cons_append] at before
        dsimp only
        rw [before]
        split
        · cases FRAME_END_KEYS b <;> rfl
        · rfl

/-- The scan has seen these bytes, and no marker in them. -/
structure FrameScan.Saw (scan : FrameScan) (seen : Bytes) : Prop where
  offset : scan.offset = seen.length
  previous : scan.previousWasZdle = decide (seen.getLast? = some ZDLE)
  quiet : marker seen = none

theorem saw_start : FrameScan.Saw ⟨0, 0, 0, false⟩ [] := ⟨rfl, rfl, rfl⟩

inductive FrameScanned (found : FrameScan × Option ℕ) (seen : Bytes) : Prop
  | none (answer : found.2 = none) (saw : found.1.Saw seen)
  | some (at_ : ℕ) (frameEnd : FrameEnd) (answer : found.2 = some at_) (marked : marker seen = some (at_, frameEnd))

theorem scanFrameBytes_spec {scan : FrameScan} {seen : Bytes} (saw : scan.Saw seen) (bytes : Bytes) :
    FrameScanned (FastSession.scanFrameBytes scan bytes) (seen ++ bytes) := by
  induction bytes generalizing scan seen with
  | nil =>
    rw [append_nil]
    exact .none rfl saw
  | cons b rest ih =>
    have next := marker_snoc saw.quiet b
    have cut : seen ++ b :: rest = seen ++ [b] ++ rest := by
      rw [append_assoc, singleton_append]
    have last : (seen ++ [b]).getLast? = some b := getLast?_concat ..
    -- the byte is no frame end behind a ZDLE: the scan has seen it too
    have later : marker (seen ++ [b]) = none →
        FrameScanned (FastSession.scanFrameBytes
          { scan with offset := scan.offset + 1, previousWasZdle := b = ZDLE } rest)
          (seen ++ b :: rest) := by
      intro quiet
      rw [cut]
      apply ih
      refine ⟨?_, ?_, quiet⟩
      · rw [length_append, length_singleton, saw.offset]
      · simp only [last, some_inj]
    unfold FastSession.scanFrameBytes
    rw [saw.previous]
    by_cases zdle : seen.getLast? = some ZDLE
    · rw [if_pos zdle] at next
      cases key : FRAME_END_KEYS b with
      | some frameEnd =>
        rw [key, map_some] at next
        simp only [zdle, decide_true, isSome_some, Bool.and_self, if_true, saw.offset]
        exact .some _ frameEnd rfl (cut ▸ (marker_append next rest).2)
      | none =>
        rw [key] at next
        simp only [isSome_none, Bool.and_false, false_eq_true, if_false]
        exact later next
    · rw [if_neg zdle] at next
      simp only [zdle, decide_false, Bool.false_and, false_eq_true, if_false]
      exact later next

theorem scanFrame_spec {chunks : List Bytes} {scan : FrameScan} {chunkIndex : ℕ} {seen : Bytes}
    (saw : scan.Saw seen) (chunk : scan.chunkIndex = chunkIndex) (byte : scan.byteIndex = 0) :
    (∃ after, FastSession.scanFrame scan chunkIndex chunks = (after, none) ∧
      after.Saw (seen ++ chunks.flatten)) ∨
    ∃ after at_ frameEnd, FastSession.scanFrame scan chunkIndex chunks = (after, some at_) ∧
      marker (seen ++ chunks.flatten) = some (at_, frameEnd) := by
  induction chunks generalizing scan chunkIndex seen with
  | nil => exact .inl ⟨scan, rfl, by rwa [flatten_nil, append_nil]⟩
  | cons head rest ih =>
    have found := scanFrameBytes_spec saw head
    unfold FastSession.scanFrame
    rw [if_pos chunk.symm, byte]
    dsimp only
    rw [drop_zero, flatten_cons, ← append_assoc]
    generalize FastSession.scanFrameBytes scan head = result at found ⊢
    obtain ⟨after, answer⟩ := result
    cases found with
    | none none_ saw' =>
      dsimp only at none_
      subst none_
      exact @ih { after with chunkIndex := chunkIndex + 1, byteIndex := 0 } (chunkIndex + 1) (seen ++ head)
        ⟨saw'.offset, saw'.previous, saw'.quiet⟩ rfl rfl
    | some at_ frameEnd some_ marked =>
      dsimp only at some_
      subst some_
      exact .inr ⟨after, at_, frameEnd, rfl, (marker_append marked _).2⟩

/-! ## The scan for an abort sequence -/

/-- The scan has seen these bytes, and at most their last one matches. -/
structure SequenceScan.Saw (scan : SequenceScan) (seen : Bytes) : Prop where
  matched : scan.matched = 0 ∨ scan.matched = 1 ∧ seen.getLast? = some ZDLE

/-- Where no two ZDLE stand together there is no abort sequence. -/
theorem scanSequenceBytes_spec {scan : SequenceScan} {seen bytes : Bytes} (saw : scan.Saw seen)
    (chain : (seen ++ bytes).IsChain fun b c => b = ZDLE → c ≠ ZDLE) :
    (FastSession.scanSequenceBytes ABORT_SEQUENCE scan bytes).2 = none ∧
      (FastSession.scanSequenceBytes ABORT_SEQUENCE scan bytes).1.Saw (seen ++ bytes) := by
  induction bytes generalizing scan seen with
  | nil => exact ⟨rfl, by rwa [append_nil]⟩
  | cons b rest ih =>
    have cut : seen ++ b :: rest = seen ++ [b] ++ rest := by
      rw [append_assoc, singleton_append]
    have last : (seen ++ [b]).getLast? = some b := getLast?_concat ..
    have later : ∀ next : SequenceScan, next.matched = 0 ∨ next.matched = 1 ∧ b = ZDLE →
        (FastSession.scanSequenceBytes ABORT_SEQUENCE next rest).2 = none ∧
          (FastSession.scanSequenceBytes ABORT_SEQUENCE next rest).1.Saw (seen ++ b :: rest) := by
      intro next kind
      rw [cut] at chain ⊢
      refine ih ⟨?_⟩ chain
      rw [last]
      exact kind.imp_right fun ⟨one, zdle⟩ => ⟨one, congrArg some zdle⟩
    unfold FastSession.scanSequenceBytes
    dsimp only
    rcases saw.matched with zero | ⟨one, ends⟩
    · rw [zero]
      by_cases zdle : b = ZDLE
      · subst zdle
        exact later _ (.inr ⟨rfl, rfl⟩)
      · have other : ¬ABORT_SEQUENCE[0]? = some b := fun same => zdle (some_inj.mp same).symm
        have head : ¬ABORT_SEQUENCE.head? = some b := fun same => zdle (some_inj.mp same).symm
        rw [if_neg other, if_neg head]
        exact later _ (.inl rfl)
    · have plain : b ≠ ZDLE := by
        have step := (isChain_append.mp chain).2.2
        exact step ZDLE ends b rfl rfl
      have other : ¬ABORT_SEQUENCE[1]? = some b := fun same => plain (some_inj.mp same).symm
      have head : ¬ABORT_SEQUENCE.head? = some b := fun same => plain (some_inj.mp same).symm
      rw [one, if_neg other, if_neg head]
      exact later _ (.inl rfl)

theorem scanSequence_spec {chunks : List Bytes} {scan : SequenceScan} {chunkIndex : ℕ} {seen : Bytes}
    (saw : scan.Saw seen) (chunk : scan.chunkIndex = chunkIndex) (byte : scan.byteIndex = 0)
    (chain : (seen ++ chunks.flatten).IsChain fun b c => b = ZDLE → c ≠ ZDLE) :
    ∃ after, FastSession.scanSequence ABORT_SEQUENCE scan chunkIndex chunks = (after, none) ∧
      after.Saw (seen ++ chunks.flatten) := by
  induction chunks generalizing scan chunkIndex seen with
  | nil => exact ⟨scan, rfl, by rwa [flatten_nil, append_nil]⟩
  | cons head rest ih =>
    rw [flatten_cons, ← append_assoc] at chain ⊢
    obtain ⟨none_, saw'⟩ := scanSequenceBytes_spec saw (chain.left_of_append)
    unfold FastSession.scanSequence
    rw [if_pos chunk.symm, byte]
    dsimp only
    rw [drop_zero]
    generalize FastSession.scanSequenceBytes ABORT_SEQUENCE scan head = result at none_ saw' ⊢
    obtain ⟨after, answer⟩ := result
    dsimp only at none_
    subst none_
    exact @ih { after with chunkIndex := chunkIndex + 1, byteIndex := 0 } (chunkIndex + 1) (seen ++ head)
      ⟨saw'.matched⟩ rfl rfl chain

/-! ## Sessions -/

/-- A cursor behind whole chunks. -/
structure FrameCursor (chunks : List Bytes) (scan : FrameScan) : Prop where
  index : scan.chunkIndex ≤ chunks.length
  byte : scan.byteIndex = 0
  saw : scan.Saw (chunks.take scan.chunkIndex).flatten

/-- What a session remembers of its bytes is true of them. -/
structure Coherent (session : FastSession) : Prop where
  length : session.length = session.contents.length
  frameEnd : ∀ at_, session.frameEndAt = some at_ → ∃ frameEnd, marker session.contents = some (at_, frameEnd)
  cursor : session.frameEndAt = none → ∀ scan, session.frameScan = some scan → FrameCursor session.chunks scan

namespace Coherent

open FastSession

variable {session : FastSession}

theorem forget (length : session.length = session.contents.length) : Coherent session.forget :=
  ⟨length, fun _ none_ => absurd none_.symm (some_ne_none _),
    fun _ _ none_ => absurd none_.symm (some_ne_none _)⟩

section

variable (coherent : Coherent session)
include coherent

theorem push (u8 : Bytes) : Coherent (session.fastPush u8) := by
  unfold fastPush
  split
  · exact coherent
  have contents : (session.chunks ++ [u8]).flatten = session.chunks.flatten ++ u8 := by
    rw [flatten_append, flatten_singleton]
  refine ⟨?_, fun at_ held => ?_, fun none_ scan held => ?_⟩
  · have length := coherent.length
    unfold FastSession.contents at length ⊢
    rw [contents, length_append, ← length]
  · obtain ⟨frameEnd, marked⟩ := coherent.frameEnd at_ held
    refine ⟨frameEnd, ?_⟩
    unfold FastSession.contents
    rw [contents]
    exact (marker_append marked u8).2
  · obtain ⟨index, byte, saw⟩ := coherent.cursor none_ scan held
    refine ⟨?_, byte, ?_⟩
    · rw [length_append]
      omega
    · rw [take_append_of_le_length index]
      exact saw

theorem findFrameEnd : Coherent session.fastFindFrameEnd.1 ∧
      session.fastFindFrameEnd.2 = (marker session.contents).map Prod.fst ∧
      ∃ scan, session.fastFindFrameEnd.1 =
        { session with frameScan := scan, frameEndAt := (marker session.contents).map Prod.fst } := by
  unfold fastFindFrameEnd
  split
  · rename_i empty
    have quiet : marker session.contents = none := by
      unfold FastSession.contents
      rw [empty]
      rfl
    have unmarked : session.frameEndAt = none := by
      rw [eq_none_iff_forall_ne_some]
      intro at_ held
      obtain ⟨frameEnd, marked⟩ := coherent.frameEnd at_ held
      rw [quiet] at marked
      cases marked
    rw [quiet, map_none, ← unmarked]
    exact ⟨coherent, rfl, _, rfl⟩
  cases existing : session.frameEndAt with
  | some at_ =>
    obtain ⟨frameEnd, marked⟩ := coherent.frameEnd at_ existing
    dsimp only
    rw [marked, map_some, ← existing]
    exact ⟨coherent, rfl, _, rfl⟩
  | none =>
    -- a new cursor starts in front of the first chunk
    have cursor : FrameCursor session.chunks (session.frameScan.getD ⟨0, 0, 0, false⟩) := by
      cases held : session.frameScan with
      | none => exact ⟨Nat.zero_le _, rfl, saw_start⟩
      | some scan => exact coherent.cursor existing scan held
    have whole : (session.chunks.take (session.frameScan.getD ⟨0, 0, 0, false⟩).chunkIndex).flatten ++
        (session.chunks.drop (session.frameScan.getD ⟨0, 0, 0, false⟩).chunkIndex).flatten =
          session.contents := by
      rw [← flatten_append, take_append_drop]
      rfl
    dsimp only
    rcases scanFrame_spec cursor.saw rfl cursor.byte with ⟨after, answer, saw⟩ | ⟨after, at_, frameEnd, answer, marked⟩
    · rw [answer]
      rw [whole] at saw
      rw [saw.quiet, map_none]
      refine ⟨⟨coherent.length, fun _ held => ?_, fun _ scan held => ?_⟩, rfl, _, rfl⟩
      · exact coherent.frameEnd _ (existing.trans held)
      · cases held
        refine ⟨le_rfl, rfl, ?_⟩
        rw [take_length]
        exact ⟨saw.offset, saw.previous, saw.quiet⟩
    · rw [answer]
      rw [whole] at marked
      rw [marked, map_some]
      refine ⟨⟨coherent.length, fun _ held => ?_, fun none_ => absurd none_ (some_ne_none _)⟩, rfl, _, rfl⟩
      cases held
      exact ⟨frameEnd, marked⟩

omit coherent in
theorem dropBytes_flatten (chunks : List Bytes) (n : ℕ) :
    (dropBytes chunks n).flatten = chunks.flatten.drop n := by
  induction chunks generalizing n with
  | nil => exact drop_nil.symm
  | cons head rest ih =>
    unfold dropBytes
    rw [flatten_cons]
    split
    · rename_i zero
      rw [zero, drop_zero, flatten_cons]
    split
    · rw [flatten_cons, drop_append_of_le_length (by omega)]
    · have past : head.drop n = [] := drop_eq_nil_of_le (by omega)
      rw [ih, drop_append, past, nil_append]

omit coherent in
theorem contents_fastConsumeAt (session : FastSession) (n : ℕ) :
    (session.fastConsumeAt n).contents = session.contents.drop n := dropBytes_flatten _ _

theorem consumeAt (n : ℕ) : Coherent (session.fastConsumeAt n) := by
  apply forget
  unfold FastSession.contents
  dsimp only
  rw [dropBytes_flatten, length_drop, coherent.length]
  unfold FastSession.contents
  omega

omit coherent in
theorem moveAllToArray (session : FastSession) : Coherent session.fastMoveAllToArray := forget rfl

theorem moveArrayToFast : Coherent session.fastMoveArrayToFast := by
  unfold fastMoveArrayToFast
  split
  · exact coherent
  · apply forget
    unfold FastSession.contents
    rw [flatten_cons, length_append, coherent.length]
    rfl

theorem findSequence (needle : Bytes) : Coherent (session.fastFindSequence needle).1 := by
  unfold fastFindSequence
  split
  · exact coherent
  dsimp only
  split
  · exact ⟨coherent.length, coherent.frameEnd, coherent.cursor⟩
  · exact ⟨coherent.length, coherent.frameEnd, coherent.cursor⟩

/-- The chunks merged, once there is a marker. -/
theorem contiguous (marked : session.frameEndAt ≠ none) :
    Coherent session.fastContiguous.1 ∧ session.fastContiguous.2 = session.contents ∧
      ∃ chunks scan, session.fastContiguous.1 = { session with chunks := chunks, sequenceScan := scan } ∧
        chunks.flatten = session.contents ∧
        (scan = none ∨ scan = session.sequenceScan ∧ chunks = session.chunks) := by
  unfold fastContiguous
  split
  · have whole : [session.chunks.flatten].flatten = session.chunks.flatten := flatten_singleton ..
    refine ⟨⟨?_, ?_, fun none_ => absurd none_ marked⟩, rfl, _, _, rfl, whole, .inl rfl⟩
    · exact coherent.length.trans (congrArg List.length whole.symm)
    · intro at_ held
      obtain ⟨frameEnd, same⟩ := coherent.frameEnd at_ held
      exact ⟨frameEnd, (congrArg marker whole).trans same⟩
  · exact ⟨coherent, rfl, _, _, rfl, rfl, .inr ⟨rfl, rfl⟩⟩

end

end Coherent

/-! ## Parsing -/

/-- The session answers as a parse of all its bytes does. -/
def ParsesAll (session : FastSession) : Prop :=
  match parseSubpacketFast session.contents session.lastHeaderCrc with
  | .incomplete =>
    session.fastParseSubpacket.2 = .ok false ∧
      session.fastParseSubpacket.1.contents = session.contents ∧
      session.fastParseSubpacket.1.delivered = session.delivered ∧
      session.fastParseSubpacket.1.nextSubpacketHandler = session.nextSubpacketHandler
  | .crc got expected =>
    session.fastParseSubpacket.2 = .error (.crc got expected) ∧
      session.fastParseSubpacket.1.contents = session.contents ∧
      session.fastParseSubpacket.1.delivered = session.delivered ∧
      session.fastParseSubpacket.1.nextSubpacketHandler = session.nextSubpacketHandler
  | .subpacket subpacket consumed =>
    session.fastParseSubpacket.2 = .ok true ∧
      session.fastParseSubpacket.1.contents = session.contents.drop consumed ∧
      session.fastParseSubpacket.1.delivered = session.delivered ++ [subpacket] ∧
      session.fastParseSubpacket.1.nextSubpacketHandler =
        (session.nextSubpacketHandler && !subpacket.frameEnd.frame_end)

/-- A parse leaves the array and the flags, and the scan for an abort sequence unless bytes move. -/
structure KeepsFlags (before after : FastSession) : Prop where
  inputBuffer : after.inputBuffer = before.inputBuffer
  crc : after.lastHeaderCrc = before.lastHeaderCrc
  aborted : after.aborted = before.aborted
  gotZFIN : after.gotZFIN = before.gotZFIN
  sequence : after.sequenceScan = none ∨ after.sequenceScan = before.sequenceScan ∧ after.chunks = before.chunks

theorem Coherent.parse {session : FastSession} (coherent : Coherent session) :
    Coherent session.fastParseSubpacket.1 ∧ KeepsFlags session session.fastParseSubpacket.1 ∧
      ParsesAll session := by
  obtain ⟨found, answer, scan, same⟩ := coherent.findFrameEnd
  unfold ParsesAll FastSession.fastParseSubpacket
  generalize session.fastFindFrameEnd = result at found answer same ⊢
  obtain ⟨scanned, position⟩ := result
  dsimp only at found answer same
  subst answer
  cases marked : marker session.contents with
  | none =>
    have incomplete : parseSubpacketFast session.contents session.lastHeaderCrc = .incomplete := by
      rw [parse_eq, marked]
      rfl
    rw [incomplete]
    rw [marked] at same
    subst same
    exact ⟨found, ⟨rfl, rfl, rfl, rfl, .inr ⟨rfl, rfl⟩⟩, rfl, rfl, rfl, rfl⟩
  | some place =>
    rw [marked] at same
    have kept : scanned.frameEndAt ≠ none := by
      rw [same]
      exact some_ne_none _
    obtain ⟨merged, whole, chunks, scan', same', flat, cursor⟩ := found.contiguous kept
    dsimp only [map_some]
    generalize scanned.fastContiguous = contiguous at merged whole same' ⊢
    obtain ⟨session', buf⟩ := contiguous
    dsimp only at merged whole same' ⊢
    have contents : buf = session.contents := by
      rw [whole, same]
      rfl
    have crc : session'.lastHeaderCrc = session.lastHeaderCrc := by
      rw [same', same]
    have waiting : session'.contents = session.contents := by
      rw [same']
      exact flat.trans (whole.symm.trans contents)
    have delivered : session'.delivered = session.delivered := by
      rw [same', same]
    have handler : session'.nextSubpacketHandler = session.nextSubpacketHandler := by
      rw [same', same]
    have flags : KeepsFlags session session' := by
      subst same' same
      exact ⟨rfl, rfl, rfl, rfl, cursor⟩
    rw [contents, crc]
    cases parsed : parseSubpacketFast session.contents session.lastHeaderCrc with
    | incomplete => exact ⟨merged, flags, rfl, waiting, delivered, handler⟩
    | crc got expected => exact ⟨merged, flags, rfl, waiting, delivered, handler⟩
    | subpacket subpacket consumed =>
      have after := merged.consumeAt consumed
      refine ⟨⟨after.length, after.frameEnd, after.cursor⟩,
        ⟨flags.inputBuffer, flags.crc, flags.aborted, flags.gotZFIN, .inl rfl⟩, rfl, ?_, ?_, ?_⟩
      · have rest := Coherent.contents_fastConsumeAt session' consumed
        rw [waiting] at rest
        exact rest
      · exact congrArg (· ++ [subpacket]) delivered
      · exact congrArg (· && !subpacket.frameEnd.frame_end) handler

end Netcatty.Zmodem
