import Netcatty.YmodemPackets

/-!
The header of a file, read back.
-/

namespace Netcatty.Ymodem

open List Option Bool

open UnicodeText (encode decode toWellFormed IsAscii isLowSurrogate)
open KnownHosts (Trimmed)

def baseNameOf (filename : JsString) : JsString := basename (if filename = [] then text "file" else filename)

/-- The name as it arrives: lone surrogates are replaced. -/
def arrivedName (filename : JsString) : JsString := toWellFormed (baseNameOf filename)

/-- A file that a header can announce: it has a base name without NUL, and its metadata fits one packet. -/
structure IsAnnounced (filename : JsString) (size : ℕ) (mtime : ℤ) : Prop where
  named : baseNameOf filename ≠ []
  plain : nulUnit ∉ baseNameOf filename
  fits : (metadataBytes filename size mtime).length ≤ PACKET_SIZE_1024

/-! ## Attributes -/

/-- A character of the attributes. -/
def IsAttribute (u : Fin 65536) : Prop := 32 ≤ u.val ∧ u.val < 128

theorem isAttribute_digits {base n : ℕ} (large : 1 < base) (small : base ≤ 10) :
    ∀ u ∈ (Nat.toDigits base n).flatMap codeUnits, IsAttribute u := by
  intro u mem
  have bounds := mem_digits large small mem
  unfold IsAttribute
  omega

theorem isAttribute_octalText (n : ℤ) : ∀ u ∈ octalText n, IsAttribute u := by
  intro u mem
  rcases mem_append.mp mem with sign | digits
  · split at sign
    · have minus : u = ⟨45, by decide⟩ := mem_singleton.mp sign
      rw [minus]
      exact ⟨by decide, by decide⟩
    · exact absurd sign not_mem_nil
  · exact isAttribute_digits (by decide) (by decide) u digits

theorem isAttribute_attributesText (size : ℕ) (mtime : ℤ) : ∀ u ∈ attributesText size mtime, IsAttribute u := by
  have blank : ∀ u ∈ text " ", IsAttribute u := by
    intro u mem
    have same : u = ⟨32, by decide⟩ := mem_singleton.mp mem
    rw [same]
    exact ⟨by decide, by decide⟩
  intro u mem
  unfold attributesText at mem
  rcases mem_append.mp mem with mem | mem
  · rcases mem_append.mp mem with mem | mem
    · rcases mem_append.mp mem with mem | mem
      · rcases mem_append.mp mem with mem | mem
        · exact isAttribute_digits (by decide) (by decide) u mem
        · exact blank u mem
      · exact isAttribute_octalText mtime u mem
    · exact blank u mem
  · exact isAttribute_octalText _ u mem

/-- The attributes begin and end with a digit. -/
theorem trim_attributesText (size : ℕ) (mtime : ℤ) :
    trim (attributesText size mtime) = attributesText size mtime := by
  have trimmed : Trimmed (attributesText size mtime) := by
    refine ⟨fun u first => ?_, fun u last => ?_⟩
    · cases digits : decimal size with
      | nil => exact absurd digits (decimal_ne_nil size)
      | cons d rest =>
        unfold attributesText at first
        rw [digits, append_assoc, append_assoc, append_assoc, cons_append, head?_cons,
          some_inj] at first
        rw [← first]
        exact isWhiteSpace_digit (mem_decimal_isDigit (digits ▸ mem_cons_self))
    · have ends : octalText 0o100644 = text "10064" ++ text "4" := by decide
      unfold attributesText at last
      rw [ends, ← append_assoc] at last
      have four : text "4" = [⟨52, by decide⟩] := rfl
      rw [four, getLast?_concat, some_inj] at last
      rw [← last]
      decide
  exact trimmed.trim_eq

theorem takeWhile_attributesText (size : ℕ) (mtime : ℤ) :
    (attributesText size mtime).takeWhile (fun u => !isWhiteSpace u) = decimal size := by
  unfold attributesText
  rw [append_assoc, append_assoc, append_assoc]
  apply (takeWhile_stop _ _).1
  · intro u mem
    rw [isWhiteSpace_digit (mem_decimal_isDigit mem)]
    rfl
  · intro u first
    have blank : text " " = [⟨32, by decide⟩] := rfl
    rw [blank, singleton_append, head?_cons, some_inj] at first
    rw [← first]
    decide

/-! ## The header -/

theorem dropFromNul_padded {s : JsString} (plain : ∀ u ∈ s, IsAttribute u) (zeros : ℕ) :
    dropFromNul (s ++ List.replicate zeros nulUnit) = s := by
  induction s with
  | nil =>
    cases zeros with
    | zero => rfl
    | succ zeros =>
      rw [nil_append, replicate_succ]
      unfold dropFromNul
      rw [if_pos]
      rw [and_eq_true]
      refine ⟨rfl, List.all_eq_true.mpr fun v mem => ?_⟩
      rw [eq_of_mem_replicate mem]
      decide
  | cons u s ih =>
    have own := plain u mem_cons_self
    rw [cons_append]
    unfold dropFromNul
    rw [if_neg, ih fun v mem => plain v (mem_cons_of_mem _ mem)]
    rw [and_eq_true, decide_eq_true_eq]
    rintro ⟨rfl, -⟩
    exact absurd own.1 (by decide)

theorem asciiText_bytes {s : JsString} (plain : ∀ u ∈ s, IsAttribute u) (zeros : ℕ) :
    asciiText (s.map (fun u => .ofNat u.val) ++ List.replicate zeros 0) =
      s ++ List.replicate zeros nulUnit := by
  unfold asciiText
  rw [map_append, List.map_map, map_replicate]
  congr 1
  conv_rhs => rw [← List.map_id s]
  apply map_congr_left
  intro u mem
  have own := plain u mem
  unfold IsAttribute at own
  apply Fin.ext
  simp only [Function.comp_apply, UInt8.toNat_ofNat', id_eq]
  omega

theorem encode_metadata (filename : JsString) (size : ℕ) (mtime : ℤ) :
    metadataBytes filename size mtime = encode (baseNameOf filename) ++
      0 :: (attributesText size mtime).map (fun u => .ofNat u.val) := by
  have ascii : ∀ u ∈ nulUnit :: attributesText size mtime, IsAscii u := by
    intro u mem
    rcases mem_cons.mp mem with rfl | mem
    · unfold IsAscii
      decide
    · exact (isAttribute_attributesText size mtime u mem).2
  have tail := UnicodeText.encode_ascii_append ascii []
  have cut : ∀ v, (nulUnit :: attributesText size mtime).head? = some v → isLowSurrogate v = false := by
    intro v first
    rw [head?_cons, some_inj] at first
    rw [← first]
    decide
  have nul : text "\x00" = [nulUnit] := rfl
  unfold metadataBytes
  dsimp only
  rw [nul, append_assoc, singleton_append]
  refine (UnicodeText.encode_append cut).trans ?_
  rw [append_nil] at tail
  rw [tail, map_cons, cons_append]
  have none_ : encode ([] : JsString) = [] := rfl
  rw [none_, append_nil]
  rfl

theorem parse_header {filename : JsString} {size : ℕ} {mtime : ℤ} (announced : IsAnnounced filename size mtime)
    (packetSize : ℕ) (fits : (metadataBytes filename size mtime).length ≤ packetSize) :
    parseYmodemFileInfoPayload (pad packetSize 0 (metadataBytes filename size mtime)) =
      .ok (some ⟨sanitizeYmodemFilename (arrivedName filename), size⟩) := by
  have payload : pad packetSize 0 (metadataBytes filename size mtime) = encode (baseNameOf filename) ++
      0 :: ((attributesText size mtime).map (fun u => .ofNat u.val) ++
        List.replicate (packetSize - (metadataBytes filename size mtime).length) 0) := by
    unfold pad
    rw [take_of_length_le fits]
    generalize packetSize - (metadataBytes filename size mtime).length = zeros
    rw [encode_metadata, append_assoc, cons_append]
  have plain : ∀ b ∈ encode (baseNameOf filename), b ≠ 0 := by
    intro b mem zero
    subst zero
    obtain ⟨u, own, same⟩ := UnicodeText.mem_of_mem_encode mem (by decide)
    have nul : u = nulUnit := Fin.ext same
    exact announced.plain (nul ▸ own)
  have front : ∀ rest : Bytes,
      (encode (baseNameOf filename) ++ 0 :: rest).takeWhile (· ≠ 0) = encode (baseNameOf filename) ∧
      (encode (baseNameOf filename) ++ 0 :: rest).dropWhile (· ≠ 0) = 0 :: rest := by
    intro rest
    constructor
    · rw [takeWhile_append_of_pos (by simpa using plain), takeWhile_cons_of_neg (by simp), append_nil]
    · rw [dropWhile_append_of_pos (by simpa using plain), dropWhile_cons_of_neg (by simp)]
  have named : toWellFormed (baseNameOf filename) ≠ [] := by
    intro none_
    have lengths := congrArg List.length none_
    rw [UnicodeText.length_toWellFormed] at lengths
    exact announced.named (length_eq_zero_iff.mp lengths)
  have attributes := isAttribute_attributesText size mtime
  unfold parseYmodemFileInfoPayload
  rw [payload, (front _).1, (front _).2, UnicodeText.decode_encode]
  dsimp only
  rw [if_neg named, drop_one, tail_cons, asciiText_bytes attributes, dropFromNul_padded attributes,
    trim_attributesText, takeWhile_attributesText, parseDigits_decimal, if_pos]
  · rfl
  · exact ⟨decimal_ne_nil size, List.all_eq_true.mpr fun u mem => mem_decimal_isDigit mem⟩

theorem parse_endSession : parseYmodemFileInfoPayload (List.replicate PACKET_SIZE_128 0) = .ok none := by
  rfl

end Netcatty.Ymodem
