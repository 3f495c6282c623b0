import Netcatty.ConvergentTypes

/-!
Setting paths and their encoded keys: `encodeSettingPath` and
`decodeSettingPath` of `serialization.ts`.

A settings register is stored under the text of its path.  Encoding a valid
path and decoding a valid key are inverse (`decodeSettingPath_settingKey`,
`decodeSettingPath_eq_ok`), so keys and valid paths name the same registers.
-/

namespace Netcatty

open List

/-- `segment.replaceAll('~', '~0').replaceAll('/', '~1')`. -/
def escapeSegment (segment : JsString) : JsString :=
  (segment.flatMap fun u => if u = tilde then text "~0" else [u]).flatMap fun u =>
    if u = slash then text "~1" else [u]

/-- `text.replaceAll(pair, unit)` for a pair of code units. -/
def replacePair (first second unit : Fin 65536) : JsString → JsString
  | a :: b :: rest =>
    if a = first ∧ b = second then unit :: replacePair first second unit rest
    else a :: replacePair first second unit (b :: rest)
  | short => short

/-- `segment.replaceAll('~1', '/').replaceAll('~0', '~')`. -/
def unescapeSegment (segment : JsString) : JsString :=
  replacePair tilde digitZero tilde (replacePair tilde digitOne slash segment)

/-- A path `encodeSettingPath` accepts: non-empty, with non-empty segments. -/
def ValidSettingPath (path : List JsString) : Prop := path ≠ [] ∧ ∀ segment ∈ path, segment ≠ []

instance : DecidablePred ValidSettingPath := fun path =>
  inferInstanceAs (Decidable (path ≠ [] ∧ ∀ segment ∈ path, segment ≠ []))

/-- The text `encodeSettingPath` returns. -/
def settingKey (path : List JsString) : JsString :=
  slash :: [slash].intercalate (path.map escapeSegment)

/-- `encodeSettingPath`. -/
def encodeSettingPath (path : List JsString) : Checked JsString := do
  ensure (ValidSettingPath path) (.invariant (text "Setting paths require non-empty segments"))
  return settingKey path

/-- `decodeSettingPath`. -/
def decodeSettingPath (encoded : JsString) : Checked (List JsString) := do
  ensure (encoded.head? = some slash && encoded.length ≠ 1)
    (.invariant (text "Invalid encoded setting path: " ++ encoded))
  let path := (encoded.tail.splitOn slash).map unescapeSegment
  let canonical ← encodeSettingPath path
  ensure (canonical = encoded) (.invariant (text "Non-canonical setting path: " ++ encoded))
  return path

/-! ## Escaping -/

theorem text_tilde : text "~0" = [tilde, digitZero] ∧ text "~1" = [tilde, digitOne] := by decide

variable (segment : JsString)

theorem escapeSegment_eq : escapeSegment segment = segment.flatMap fun u =>
      if u = tilde then [tilde, digitZero] else if u = slash then [tilde, digitOne] else [u] := by
  induction segment with
  | nil => rfl
  | cons u segment ih =>
    simp only [escapeSegment, text_tilde] at ih
    simp only [escapeSegment, text_tilde, flatMap_cons, flatMap_append, ih]
    congr 1
    by_cases isTilde : u = tilde
    · subst isTilde; decide
    · by_cases isSlash : u = slash
      · subst isSlash; decide
      · simp [isTilde, isSlash]

theorem slash_not_mem_escape : slash ∉ escapeSegment segment := by
  rw [escapeSegment_eq]
  intro mem
  obtain ⟨u, _, hu⟩ := mem_flatMap.mp mem
  have units : slash ∉ [tilde, digitZero] ∧ slash ∉ [tilde, digitOne] := by decide
  split at hu
  · exact units.1 hu
  · split at hu
    · exact units.2 hu
    · rename_i notSlash
      exact notSlash (mem_singleton.mp hu).symm

theorem replacePair_cons {first second unit u : Fin 65536} (other : u ≠ first)
    (rest : JsString) :
    replacePair first second unit (u :: rest) = u :: replacePair first second unit rest := by
  cases rest <;> simp [replacePair, other]

theorem unescape_slashes : replacePair tilde digitOne slash (escapeSegment segment) =
      segment.flatMap fun u => if u = tilde then [tilde, digitZero] else [u] := by
  rw [escapeSegment_eq]
  induction segment with
  | nil => rfl
  | cons u segment ih =>
    have digit : digitZero ≠ tilde ∧ digitZero ≠ digitOne := by decide
    simp only [flatMap_cons]
    by_cases isTilde : u = tilde
    · simp [isTilde, replacePair, digit.2, replacePair_cons digit.1, ih]
    · by_cases isSlash : u = slash
      · have notTilde : slash ≠ tilde := by decide
        simp [isSlash, notTilde, replacePair, ih]
      · simp [isTilde, isSlash, replacePair_cons isTilde, ih]

theorem unescape_tildes :
    replacePair tilde digitZero tilde (segment.flatMap fun u => if u = tilde then [tilde, digitZero] else [u]) =
      segment := by
  induction segment with
  | nil => rfl
  | cons u segment ih =>
    simp only [flatMap_cons]
    by_cases isTilde : u = tilde
    · simp [isTilde, replacePair, ih]
    · simp [isTilde, replacePair_cons isTilde, ih]

theorem unescapeSegment_escapeSegment : unescapeSegment (escapeSegment segment) = segment := by
  rw [unescapeSegment, unescape_slashes, unescape_tildes]

/-! ## Keys of valid paths -/

variable {path : List JsString}

theorem encodeSettingPath_eq_ok {key : JsString} :
    encodeSettingPath path = .ok key ↔ ValidSettingPath path ∧ key = settingKey path := by
  simp only [encodeSettingPath, bind_eq_ok, ensure_eq_ok, decide_eq_true_eq, pure_eq_ok,
    Except.ok.injEq]
  constructor
  · rintro ⟨_, valid, eq⟩
    exact ⟨valid, eq.symm⟩
  · rintro ⟨valid, eq⟩
    exact ⟨(), valid, eq.symm⟩

theorem splitOn_settingKey (valid : path ≠ []) :
    ((settingKey path).tail.splitOn slash).map unescapeSegment = path := by
  rw [settingKey, tail_cons, splitOn_intercalate]
  · rw [List.map_map]
    conv_rhs => rw [← List.map_id path]
    exact map_congr_left fun segment _ => unescapeSegment_escapeSegment segment
  · intro l mem
    obtain ⟨segment, _, rfl⟩ := List.mem_map.mp mem
    exact slash_not_mem_escape segment
  · simpa using valid

theorem escapeSegment_ne_nil {segment : JsString} (nonEmpty : segment ≠ []) :
    escapeSegment segment ≠ [] := by
  intro empty
  have round := unescapeSegment_escapeSegment segment
  rw [empty] at round
  exact nonEmpty round.symm

theorem settingKey_long (valid : ValidSettingPath path) : (settingKey path).length ≠ 1 := by
  obtain ⟨nonEmpty, segments⟩ := valid
  cases path with
  | nil => exact absurd rfl nonEmpty
  | cons segment rest =>
    have segmentLong := length_pos_of_ne_nil (escapeSegment_ne_nil (segments segment (by simp)))
    cases rest with
    | nil => simp [settingKey, ne_nil_of_length_pos segmentLong]
    | cons next rest => simp [settingKey, intercalate_cons_cons]

theorem decodeSettingPath_settingKey (valid : ValidSettingPath path) :
    decodeSettingPath (settingKey path) = .ok path := by
  have long := settingKey_long valid
  simp only [decodeSettingPath]
  rw [show ensure _ _ = .ok () by simp [settingKey] at long ⊢; exact long, ok_bind,
    splitOn_settingKey valid.1, encodeSettingPath_eq_ok.mpr ⟨valid, rfl⟩, ok_bind,
    show ensure _ _ = .ok () by simp]
  rfl

theorem decodeSettingPath_eq_ok {key : JsString} {path : List JsString} :
    decodeSettingPath key = .ok path ↔ ValidSettingPath path ∧ key = settingKey path := by
  constructor
  · intro ran
    simp only [decodeSettingPath, bind_eq_ok, ensure_eq_ok, pure_eq_ok, Except.ok.injEq,
      decide_eq_true_eq] at ran
    obtain ⟨_, _, canonical, encoded, _, same, eq⟩ := ran
    obtain ⟨valid, text⟩ := encodeSettingPath_eq_ok.mp encoded
    rw [eq] at valid text
    exact ⟨valid, same.symm.trans text⟩
  · rintro ⟨valid, rfl⟩
    exact decodeSettingPath_settingKey valid

theorem settingKey_inj {path path' : List JsString} (valid : ValidSettingPath path) :
    settingKey path' = settingKey path ↔ path' = path := by
  refine ⟨fun same => ?_, fun same => same ▸ rfl⟩
  by_cases empty : path' = []
  · subst empty
    exact absurd (by rw [← same]; rfl) (settingKey_long valid)
  · have left := splitOn_settingKey empty
    rw [same, splitOn_settingKey valid.1] at left
    exact left.symm

/-! ## Prefixes -/

end Netcatty
