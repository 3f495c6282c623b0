import Netcatty.SshConfigWritten

/-!
# Aliases of managed hosts

`toSafeSshHostAlias` of `domain/sshConfigSerializer.ts` gives two labels one alias only where both
are encoded and differ in lone surrogates alone, which UTF-8 cannot write.
-/

namespace Netcatty.VaultImport

open List
open UnicodeText (encode toWellFormed)

def nameOf (label : JsString) : JsString := label.filter (!isWhiteSpace ·)

def needsEncoding (name : JsString) : Bool :=
  name.head? = some hyphen || encodedAliasStart.isPrefixOf name || name.any isAliasMark

theorem encodeAlias_eq (name : JsString) : encodeAlias name =
    if needsEncoding name then encodedAliasStart ++ (encode name).flatMap hexByte else name := rfl

theorem hexByte_injective {a b : UInt8} (same : hexByte a = hexByte b) : a = b := by
  have small (byte : UInt8) : byte.toNat < 256 := byte.toNat_lt
  obtain ⟨high, low⟩ := cons.inj same
  have high := congrArg JsonText.hexValue high
  have low := congrArg JsonText.hexValue (cons.inj low).1
  have smallA := small a
  have smallB := small b
  rw [JsonText.hexValue_hexDigit (by omega), JsonText.hexValue_hexDigit (by omega)] at high low
  exact UInt8.toNat_inj.mp (by omega)

theorem flatMap_hexByte_injective {xs ys : List UInt8} (same : xs.flatMap hexByte = ys.flatMap hexByte) : xs = ys := by
  induction xs generalizing ys with
  | nil =>
    cases ys with
    | nil => rfl
    | cons y ys => cases same
  | cons x xs ih =>
    cases ys with
    | nil => cases same
    | cons y ys =>
      obtain ⟨first, rest⟩ := append_inj same rfl
      rw [hexByte_injective first, ih rest]

theorem encode_eq_iff {x y : JsString} : encode x = encode y ↔ toWellFormed x = toWellFormed y := by
  constructor
  · intro same
    rw [← UnicodeText.decode_encode, same, UnicodeText.decode_encode]
  · intro same
    rw [encode, encode, ← UnicodeText.scalars_toWellFormed, same, UnicodeText.scalars_toWellFormed]

theorem needsEncoding_encoded (rest : JsString) : needsEncoding (encodedAliasStart ++ rest) = true := by
  have start : encodedAliasStart.isPrefixOf (encodedAliasStart ++ rest) = true :=
    List.isPrefixOf_iff_prefix.mpr (prefix_append _ _)
  simp [needsEncoding, start]

theorem encodeAlias_eq_iff (x y : JsString) : encodeAlias x = encodeAlias y ↔
    x = y ∨ needsEncoding x ∧ needsEncoding y ∧ toWellFormed x = toWellFormed y := by
  rw [encodeAlias_eq, encodeAlias_eq]
  by_cases encodedX : needsEncoding x <;> by_cases encodedY : needsEncoding y
  · rw [if_pos encodedX, if_pos encodedY, append_cancel_left_eq]
    constructor
    · exact fun same => .inr ⟨encodedX, encodedY, encode_eq_iff.mp (flatMap_hexByte_injective same)⟩
    · rintro (rfl | ⟨-, -, same⟩)
      · rfl
      · rw [encode_eq_iff.mpr same]
  · rw [if_pos encodedX, if_neg encodedY]
    refine iff_of_false (fun same => encodedY (same ▸ needsEncoding_encoded _)) ?_
    rintro (rfl | both)
    · exact encodedY encodedX
    · exact encodedY both.2.1
  · rw [if_neg encodedX, if_pos encodedY]
    refine iff_of_false (fun same => encodedX (same ▸ needsEncoding_encoded _)) ?_
    rintro (rfl | both)
    · exact encodedX encodedY
    · exact encodedX both.1
  · rw [if_neg encodedX, if_neg encodedY]
    simp [encodedX]

theorem alias_eq_ok {label hostname name : JsString} (safe : isUnsafeSshConfigValue label = false)
    (filled : nameOf label ≠ []) : toSafeSshHostAlias label hostname = .ok name ↔
      isUnsafeSshConfigValue hostname = false ∧ encodeAlias (nameOf label) = name := by
  have asserts (value : JsString) (field : String) :
      assertSafeSshConfigValue value field = .ok () ↔ isUnsafeSshConfigValue value = false := by
    rw [assertSafeSshConfigValue, ensure_eq_ok, Bool.not_eq_true']
  have kept : (label.filter (!isWhiteSpace ·)).isEmpty = false := List.isEmpty_eq_false_iff.mpr filled
  unfold toSafeSshHostAlias
  rw [check_bind_eq_ok, check_bind_eq_ok, asserts, asserts]
  dsimp only
  rw [check_bind_eq_ok, ensure_eq_ok, kept]
  simp [safe, nameOf, pure, Except.pure, kept]

theorem head_encodeAlias (name : JsString) : (encodeAlias name).head? ≠ some hyphen := by
  rw [encodeAlias_eq]
  by_cases encoded : needsEncoding name
  · rw [if_pos encoded]
    intro first
    exact absurd (Option.some.inj first) (by decide)
  · rw [if_neg encoded]
    intro first
    exact encoded (by simp [needsEncoding, first])

/-- **Two labels share an alias exactly where both are encoded and differ in lone surrogates alone.** -/
theorem aliases_apart_iff {a b : JsString} (safeA : isUnsafeSshConfigValue a = false)
    (safeB : isUnsafeSshConfigValue b = false) (filledA : nameOf a ≠ []) (filledB : nameOf b ≠ []) :
    ((∀ hostnameA hostnameB name, toSafeSshHostAlias a hostnameA = .ok name →
        toSafeSshHostAlias b hostnameB = .ok name → nameOf a = nameOf b) ∧
      ∀ hostname name, toSafeSshHostAlias a hostname = .ok name →
        name.head? ≠ some hyphen ∧ ∀ unit ∈ name, isAliasMark unit = false) ↔
      (needsEncoding (nameOf a) → needsEncoding (nameOf b) →
        toWellFormed (nameOf a) = toWellFormed (nameOf b) → nameOf a = nameOf b) := by
  have same := encodeAlias_eq_iff (nameOf a) (nameOf b)
  constructor
  · rintro ⟨apart, -⟩ encodedA encodedB equal
    have shared := same.mpr (.inr ⟨encodedA, encodedB, equal⟩)
    exact apart [] [] _ ((alias_eq_ok safeA filledA).mpr ⟨rfl, rfl⟩) ((alias_eq_ok safeB filledB).mpr ⟨rfl, shared.symm⟩)
  · intro apart
    refine ⟨fun hostnameA hostnameB name aliasA aliasB => ?_, fun hostname name named => ?_⟩
    · have equal := ((alias_eq_ok safeA filledA).mp aliasA).2.trans ((alias_eq_ok safeB filledB).mp aliasB).2.symm
      rcases same.mp equal with equal | ⟨encodedA, encodedB, equal⟩
      · exact equal
      · exact apart encodedA encodedB equal
    · exact ⟨((alias_eq_ok safeA filledA).mp named).2 ▸ head_encodeAlias _, (isName_alias named).marks⟩

theorem aliases_apart_stars :
    toSafeSshHostAlias (text "a*") (text "h") = .ok (text "netcatty-encoded-612a") ∧
      ∀ hostnameA hostnameB name, toSafeSshHostAlias (text "a*") hostnameA = .ok name →
        toSafeSshHostAlias (text "a ?") hostnameB = .ok name → nameOf (text "a*") = nameOf (text "a ?") :=
  ⟨by decide, ((aliases_apart_iff (by decide) (by decide) (by decide) (by decide)).mpr
    fun _ _ same => absurd same (by decide)).1⟩

/-- A star before one lone surrogate, and before another. -/
theorem lone_surrogates_share_an_alias :
    let label (surrogate : ℕ) := text "*" ++ [UnicodeText.unit surrogate]
    toSafeSshHostAlias (label 0xD800) (text "h") = .ok (text "netcatty-encoded-2aefbfbd") ∧
      toSafeSshHostAlias (label 0xD801) (text "h") = .ok (text "netcatty-encoded-2aefbfbd") ∧
      nameOf (label 0xD800) ≠ nameOf (label 0xD801) := by
  decide

end Netcatty.VaultImport
