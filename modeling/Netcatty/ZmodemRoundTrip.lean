import Netcatty.ZmodemCodec
import Mathlib.Data.List.Chain

/-!
Subpackets read back.

More bytes never change an answer, a subpacket that was written is read back from its bytes, and
from fewer nothing is read.
-/

namespace Netcatty.Zmodem

open List Option

/-- The part of `parseSubpacketFast` behind the marker. -/
def parseTail (crcLen : CrcLen) (payload : Bytes) (frameEnd : FrameEnd) (zdleAt : ℕ) (tail : Bytes) : Parsed :=
  match readDecodedBytes crcLen.length tail with
  | none => .incomplete
  | some (bytes, consumed) =>
    if bytes = crcLen.expected payload frameEnd.num then
      .subpacket ⟨payload, frameEnd⟩ (zdleAt + 2 + consumed)
    else .crc bytes (crcLen.expected payload frameEnd.num)

theorem parse_eq (buf : Bytes) (crcLen : CrcLen) : parseSubpacketFast buf crcLen =
      (marker buf).elim .incomplete fun found =>
        parseTail crcLen (zdleDecode (buf.take found.1)) found.2 found.1 (buf.drop (found.1 + 2)) := by
  have same : findMarker buf (buf.length + 1) 0 = marker buf := by
    rw [findMarker_eq (by omega), drop_zero]
    simp
  unfold parseSubpacketFast
  rw [same]
  cases marker buf with
  | none => rfl
  | some found => rfl

/-! ## More bytes -/

/-- A marker is whole, and stays the first one. -/
theorem marker_append {buf : Bytes} {found : ℕ × FrameEnd} (held : marker buf = some found) (more : Bytes) :
    found.1 + 2 ≤ buf.length ∧ marker (buf ++ more) = some found := by
  induction buf generalizing found with
  | nil => cases held
  | cons b rest ih =>
    cases rest with
    | nil => cases held
    | cons c rest =>
      rw [cons_append, cons_append]
      unfold marker at held ⊢
      cases key : (if b = ZDLE then FRAME_END_KEYS c else none) with
      | some frameEnd =>
        rw [key] at held
        cases held
        exact ⟨by simp only [length_cons]; omega, rfl⟩
      | none =>
        rw [key] at held
        obtain ⟨later, there, rfl⟩ := map_eq_some_iff.mp held
        obtain ⟨inside, same⟩ := ih there
        rw [cons_append] at same
        dsimp only
        rw [same]
        simp only [length_cons] at inside ⊢
        exact ⟨by omega, rfl⟩

theorem readDecodedBytes_append {count : ℕ} {buf : Bytes} {got : Bytes × ℕ}
    (held : readDecodedBytes count buf = some got) (more : Bytes) :
    got.2 ≤ buf.length ∧ readDecodedBytes count (buf ++ more) = some got := by
  induction count generalizing buf got with
  | zero =>
    cases held
    exact ⟨Nat.zero_le _, rfl⟩
  | succ count ih =>
    cases buf with
    | nil => cases held
    | cons b rest =>
      rw [cons_append]
      unfold readDecodedBytes at held ⊢
      split at held
      · rename_i zdle
        rw [if_pos zdle]
        cases rest with
        | nil => cases held
        | cons c rest =>
          obtain ⟨later, there, rfl⟩ := map_eq_some_iff.mp held
          obtain ⟨inside, same⟩ := ih there
          rw [cons_append]
          dsimp only
          rw [same]
          simp only [length_cons]
          exact ⟨by omega, rfl⟩
      · rename_i plain
        obtain ⟨later, there, rfl⟩ := map_eq_some_iff.mp held
        obtain ⟨inside, same⟩ := ih there
        rw [if_neg plain, same]
        simp only [length_cons]
        exact ⟨by omega, rfl⟩

theorem parse_append {buf : Bytes} {crcLen : CrcLen} (whole : parseSubpacketFast buf crcLen ≠ .incomplete)
    (more : Bytes) : parseSubpacketFast (buf ++ more) crcLen = parseSubpacketFast buf crcLen := by
  rw [parse_eq] at whole ⊢
  rw [parse_eq]
  cases held : marker buf with
  | none =>
    rw [held] at whole
    exact absurd rfl whole
  | some found =>
    obtain ⟨inside, same⟩ := marker_append held more
    rw [held, elim_some] at whole
    rw [same, elim_some, elim_some, take_append_of_le_length (by omega),
      drop_append_of_le_length inside]
    unfold parseTail at whole ⊢
    cases read : readDecodedBytes crcLen.length (buf.drop (found.1 + 2)) with
    | none =>
      rw [read] at whole
      exact absurd rfl whole
    | some got => rw [(readDecodedBytes_append read more).2]

theorem consumed_le {buf : Bytes} {crcLen : CrcLen} {subpacket : Subpacket} {consumed : ℕ}
    (parsed : parseSubpacketFast buf crcLen = .subpacket subpacket consumed) :
    consumed ≤ buf.length := by
  rw [parse_eq] at parsed
  cases held : marker buf with
  | none =>
    rw [held] at parsed
    cases parsed
  | some found =>
    obtain ⟨inside, -⟩ := marker_append held []
    rw [held, elim_some] at parsed
    unfold parseTail at parsed
    cases read : readDecodedBytes crcLen.length (buf.drop (found.1 + 2)) with
    | none =>
      rw [read] at parsed
      cases parsed
    | some got =>
      obtain ⟨within, -⟩ := readDecodedBytes_append read []
      rw [length_drop] at within
      rw [read] at parsed
      dsimp only at parsed
      split at parsed
      · cases parsed
        omega
      · cases parsed

/-! ## Subpackets that were written -/

theorem marker_written (payload : Bytes) (frameEnd : FrameEnd) (tail : Bytes) :
    marker (payload.flatMap writeByte ++ ZDLE :: frameEnd.num :: tail) =
      some ((payload.flatMap writeByte).length, frameEnd) := by
  induction payload with
  | nil => exact marker_frameEnd frameEnd tail
  | cons b payload ih =>
    rw [flatMap_cons, append_assoc]
    rcases writeByte_cases b with ⟨same, plain, -⟩ | ⟨byte, same, escaped⟩
    · rw [same, singleton_append, marker_cons plain, ih]
      simp [Nat.add_comm]
    · rw [same, cons_append, singleton_append, marker_zdle escaped.marker,
        marker_cons escaped.plain, ih]
      simp [Nat.add_comm]

theorem zdleDecode_cons {b : UInt8} (plain : b ≠ ZDLE) (rest : Bytes) :
    zdleDecode (b :: rest) = b :: zdleDecode rest := by
  cases rest with
  | nil => simp [zdleDecode, plain]
  | cons c rest =>
    conv_lhs => unfold zdleDecode
    rw [if_neg plain]

theorem zdleDecode_written (payload : Bytes) : zdleDecode (payload.flatMap writeByte) = payload := by
  induction payload with
  | nil => rfl
  | cons b payload ih =>
    rw [flatMap_cons]
    rcases writeByte_cases b with ⟨same, plain, -⟩ | ⟨byte, same, escaped⟩
    · rw [same, singleton_append, zdleDecode_cons plain, ih]
    · rw [same, cons_append, singleton_append]
      unfold zdleDecode
      rw [if_pos rfl, escaped.decoded, ih]

theorem readDecodedBytes_written (bytes tail : Bytes) :
    readDecodedBytes bytes.length (bytes.flatMap writeByte ++ tail) =
      some (bytes, (bytes.flatMap writeByte).length) := by
  induction bytes with
  | nil => rfl
  | cons b bytes ih =>
    rw [flatMap_cons, append_assoc, length_cons]
    rcases writeByte_cases b with ⟨same, plain, -⟩ | ⟨byte, same, escaped⟩
    · rw [same, singleton_append]
      unfold readDecodedBytes
      rw [if_neg plain, ih]
      simp [Nat.add_comm]
    · rw [same, cons_append, singleton_append]
      unfold readDecodedBytes
      rw [if_pos rfl]
      dsimp only
      rw [ih, escaped.decoded, map_some, length_append, Nat.add_comm _ 2]
      rfl

variable (subpacket : Subpacket)

/-- A subpacket with a checksum of two bytes, as it is written. -/
def encodeSubpacket : Bytes :=
  buildSendSubpacketFast subpacket.payload 0 subpacket.payload.length subpacket.frameEnd.num

theorem encodeSubpacket_eq :
    encodeSubpacket subpacket = subpacket.payload.flatMap writeByte ++ ZDLE :: subpacket.frameEnd.num ::
      (CrcLen.two.expected subpacket.payload subpacket.frameEnd.num).flatMap writeByte := by
  unfold encodeSubpacket buildSendSubpacketFast
  rw [drop_zero, take_length, append_assoc]
  rfl

/-- A subpacket is read back. -/
theorem parse_written (tail : Bytes) : parseSubpacketFast (encodeSubpacket subpacket ++ tail) .two =
      .subpacket subpacket (encodeSubpacket subpacket).length := by
  obtain ⟨payload, frameEnd⟩ := subpacket
  have long : ∀ crc : Bytes, (payload.flatMap writeByte ++ ZDLE :: frameEnd.num :: crc).length =
      (payload.flatMap writeByte).length + 2 + crc.length := by
    intro crc
    simp only [length_append, length_cons]
    omega
  have rest : ∀ crc : Bytes, (payload.flatMap writeByte ++ ZDLE :: frameEnd.num :: crc).drop
      ((payload.flatMap writeByte).length + 2) = crc := by
    intro crc
    exact drop_length_add_append 2
  have read := readDecodedBytes_written (CrcLen.two.expected payload frameEnd.num) tail
  have two : CrcLen.two.length = (CrcLen.two.expected payload frameEnd.num).length := rfl
  rw [encodeSubpacket_eq, long, append_assoc, cons_append, cons_append, parse_eq,
    marker_written, elim_some, rest, take_left, zdleDecode_written]
  unfold parseTail
  rw [two, read]
  dsimp only
  rw [if_pos rfl]

theorem parse_cut {subpacket : Subpacket} {buf : Bytes} (cut : buf <+: encodeSubpacket subpacket)
    (short : buf.length < (encodeSubpacket subpacket).length) : parseSubpacketFast buf .two = .incomplete := by
  by_contra whole
  obtain ⟨more, same⟩ := cut
  have answer := parse_append whole more
  have written := parse_written subpacket []
  rw [append_nil, ← same, answer] at written
  have bound := consumed_le written
  rw [same] at bound
  omega

theorem strip_written : ∀ b ∈ encodeSubpacket subpacket, isIgnored b = false := by
  have written : ∀ (bytes : Bytes), ∀ b ∈ bytes.flatMap writeByte, isIgnored b = false := by
    intro bytes b mem
    obtain ⟨own, -, mem⟩ := mem_flatMap.mp mem
    rcases writeByte_cases own with ⟨same, -, kept⟩ | ⟨byte, same, escaped⟩
    · rw [same] at mem
      rw [mem_singleton.mp mem]
      exact kept
    · rw [same] at mem
      rcases mem_pair.mp mem with rfl | rfl
      · decide
      · exact escaped.kept
  intro b mem
  rw [encodeSubpacket_eq] at mem
  rcases mem_append.mp mem with front | back
  · exact written _ b front
  · rcases mem_cons.mp back with rfl | back
    · decide
    rcases mem_cons.mp back with rfl | back
    · exact (frameEnd_num _).2
    · exact written _ b back

/-! ## No abort sequence -/

/-- No two ZDLE stand together, and none at the end. -/
structure Separated (bytes : Bytes) : Prop where
  chain : bytes.IsChain fun b c => b = ZDLE → c ≠ ZDLE
  last : ∀ b ∈ bytes.getLast?, b ≠ ZDLE

namespace Separated

theorem nil : Separated [] := ⟨.nil, fun _ none_ => absurd none_.symm (some_ne_none _)⟩

theorem append {front back : Bytes} (first : Separated front) (second : Separated back) :
    Separated (front ++ back) := by
  refine ⟨isChain_append.mpr ⟨first.chain, second.chain, fun b held _ _ same => ?_⟩, fun b held => ?_⟩
  · exact absurd same (first.last b held)
  · rw [getLast?_append] at held
    cases own : back.getLast? with
    | some c =>
      rw [own] at held
      exact second.last b (own ▸ held)
    | none =>
      rw [own] at held
      exact first.last b held

theorem single {b : UInt8} (plain : b ≠ ZDLE) : Separated [b] :=
  ⟨.singleton _, fun _ held => some_inj.mp held ▸ plain⟩

theorem pair {c : UInt8} (plain : c ≠ ZDLE) : Separated [ZDLE, c] :=
  ⟨isChain_pair.mpr fun _ => plain, fun _ held => some_inj.mp held ▸ plain⟩

theorem flatMap {α : Type} {items : List α} {f : α → Bytes} (each : ∀ item ∈ items, Separated (f item)) :
    Separated (items.flatMap f) := by
  induction items with
  | nil => exact nil
  | cons item items ih =>
    rw [flatMap_cons]
    exact (each item mem_cons_self).append (ih fun other mem => each other (mem_cons_of_mem _ mem))

theorem of_writeByte (b : UInt8) : Separated (writeByte b) := by
  rcases writeByte_cases b with ⟨same, plain, -⟩ | ⟨byte, same, escaped⟩
  · exact same ▸ single plain
  · exact same ▸ pair escaped.plain

theorem of_encodeSubpacket : Separated (encodeSubpacket subpacket) := by
  have num : subpacket.frameEnd.num ≠ ZDLE := by
    cases subpacket.frameEnd <;> decide
  have body := flatMap fun b (_ : b ∈ subpacket.payload) => of_writeByte b
  have crc := flatMap fun b (_ : b ∈ CrcLen.two.expected subpacket.payload subpacket.frameEnd.num) => of_writeByte b
  rw [encodeSubpacket_eq]
  exact body.append ((pair num).append crc)

end Separated

end Netcatty.Zmodem
