import Netcatty.AltScreenProbe
import Netcatty.OutputTriggerFilter
import Netcatty.UnicodeText

/-!
The alternate screen as the terminal log renderer follows it.

`TerminalTextRenderer` reads terminal output character by character, through escape
sequences, and draws on a text buffer while the alternate screen is not active.
`alternateScreenActiveAfter` reads the same sequences without a buffer.
-/

namespace Netcatty.TerminalLog

open List

open OutputTrigger (isFinal parseInt ALTERNATE_SCREEN_MODES)
open WriteCoalescing (C1_CSI lowerC lowerH lowerL questionMark semicolon)

/-- The characters a `for ... of` visits: code points, each with its code units. -/
def characters : JsString → List JsString
  | [] => []
  | [u] => [[u]]
  | u :: v :: rest =>
    if UnicodeText.isHighSurrogate u && UnicodeText.isLowSurrogate v then [u, v] :: characters rest
    else [u] :: characters (v :: rest)

inductive ParserState where
  | normal
  | esc
  | csi
  | osc
  | oscEsc
  deriving DecidableEq

/-! ## Control sequences -/

/-- The parameters of a CSI between the semicolons, its marks `?><=` removed. -/
def csiParts (params : JsString) : List JsString :=
  (params.filter fun u => !(text "?><=").contains u).splitOnP (· == semicolon)

/-- `values`: each part as a number, where it is one. -/
def csiValues (params : JsString) : List (Option ℤ) :=
  (csiParts params).map fun part => if part = [] then none else parseInt part

def alternateScreenActiveFromCsi (sequence : JsString) (active : Bool) : Bool :=
  match sequence.getLast? with
  | none => active
  | some final =>
    if final ≠ lowerH ∧ final ≠ lowerL then active
    else
      let params := sequence.dropLast
      if !params.contains questionMark then active
      else
        let switches := (csiParts params).any fun part =>
          if part = [] then false else (parseInt part).any (ALTERNATE_SCREEN_MODES.contains ·)
        if switches then final == lowerH else active

/-! ## `alternateScreenActiveAfter` -/

/-- The variables of `alternateScreenActiveAfter`. -/
structure ScreenScan where
  active : Bool
  state : ParserState
  escapeBuffer : JsString
  deriving DecidableEq

namespace ScreenScan

def start (active : Bool) : ScreenScan := ⟨active, .normal, []⟩

/-- One character. -/
def consume (scan : ScreenScan) (ch : JsString) : ScreenScan :=
  match scan.state with
  | .esc =>
    if ch = [openBracket] then { scan with state := .csi, escapeBuffer := [] }
    else if ch = [closeBracket] then { scan with state := .osc }
    else { scan with active := if ch = [lowerC] then false else scan.active, state := .normal }
  | .csi =>
    let escapeBuffer := scan.escapeBuffer ++ ch
    if ch.any isFinal then ⟨alternateScreenActiveFromCsi escapeBuffer scan.active, .normal, []⟩
    else { scan with escapeBuffer }
  | .osc =>
    if ch = [bellUnit] then { scan with state := .normal }
    else if ch = [escapeUnit] then { scan with state := .oscEsc }
    else scan
  | .oscEsc => { scan with state := if ch = [backslash] then .normal else .osc }
  | .normal =>
    if ch = [escapeUnit] then { scan with state := .esc }
    else if ch = [C1_CSI] then { scan with state := .csi, escapeBuffer := [] }
    else scan

/-- The whole loop. -/
def feed (scan : ScreenScan) (s : JsString) : ScreenScan := (characters s).foldl consume scan

end ScreenScan

def alternateScreenActiveAfter (s : JsString) (alternateScreenActive : Bool) : Bool :=
  ((ScreenScan.start alternateScreenActive).feed s).active

/-! ## The renderer -/

/-- What the renderer does to its text buffer. -/
inductive Drawing where
  | backspace
  | carriageReturn
  | lineFeed
  | tab
  /-- A character; the buffer leaves out those that do not print. -/
  | character (ch : JsString)
  /-- `#applyRisReset`. -/
  | reset
  /-- A CSI that is not a switch of screens. -/
  | control (final : Fin 65536) (values : List (Option ℤ))

/-- The state of a `TerminalTextRenderer` over a text buffer `S`. -/
structure TerminalTextRenderer (S : Type) where
  screen : S
  state : ParserState
  escapeBuffer : JsString
  alternateScreenActive : Bool

namespace TerminalTextRenderer

variable {S : Type} (draw : S → Drawing → S)

def create (screen : S) (alternateScreenActive : Bool) : TerminalTextRenderer S :=
  ⟨screen, .normal, [], alternateScreenActive⟩

variable (renderer : TerminalTextRenderer S)

def applyCsi (sequence : JsString) : TerminalTextRenderer S :=
  match sequence.getLast? with
  | none => renderer
  | some final =>
    let params := sequence.dropLast
    let isPrivateMode := params.contains questionMark
    let values := csiValues params
    let alternateModes := values.filter fun value => value.any (ALTERNATE_SCREEN_MODES.contains ·)
    if (final = lowerH ∨ final = lowerL) ∧ isPrivateMode ∧ 0 < alternateModes.length then
      { renderer with alternateScreenActive := final == lowerH }
    else if renderer.alternateScreenActive then renderer
    else { renderer with screen := draw renderer.screen (.control final values) }

def consumeEsc (ch : JsString) : TerminalTextRenderer S :=
  if ch = [openBracket] then { renderer with state := .csi, escapeBuffer := [] }
  else if ch = [closeBracket] then { renderer with state := .osc, escapeBuffer := [] }
  else
    let renderer :=
      if ch = [lowerC] then
        { renderer with
          alternateScreenActive := false, screen := draw renderer.screen .reset }
      else renderer
    { renderer with state := .normal, escapeBuffer := [] }

def paint (drawing : Drawing) : TerminalTextRenderer S :=
  if renderer.alternateScreenActive then renderer
  else { renderer with screen := draw renderer.screen drawing }

def consume (ch : JsString) : TerminalTextRenderer S :=
  match renderer.state with
  | .esc => renderer.consumeEsc draw ch
  | .csi =>
    let escapeBuffer := renderer.escapeBuffer ++ ch
    if ch.any isFinal then
      { ({ renderer with escapeBuffer } : TerminalTextRenderer S).applyCsi draw escapeBuffer with
        state := .normal, escapeBuffer := [] }
    else { renderer with escapeBuffer }
  | .osc =>
    if ch = [bellUnit] then { renderer with state := .normal, escapeBuffer := [] }
    else if ch = [escapeUnit] then { renderer with state := .oscEsc }
    else renderer
  | .oscEsc => { renderer with state := if ch = [backslash] then .normal else .osc }
  | .normal =>
    if ch = [escapeUnit] then { renderer with state := .esc, escapeBuffer := [] }
    else if ch = [C1_CSI] then { renderer with state := .csi, escapeBuffer := [] }
    else if ch = text "\x08" then renderer.paint draw .backspace
    else if ch = text "\r" then renderer.paint draw .carriageReturn
    else if ch = text "\n" then renderer.paint draw .lineFeed
    else if ch = text "\t" then renderer.paint draw .tab
    else renderer.paint draw (.character ch)

def feed (input : JsString) : TerminalTextRenderer S :=
  (characters input).foldl (consume draw) renderer

end TerminalTextRenderer

/-! ## Unit by unit -/

theorem not_isFinal_of_surrogate {u : Fin 65536} (high : 0xD800 ≤ u.val) : isFinal u = false := by
  simp only [isFinal, decide_eq_false_iff_not, not_and, not_le]
  omega

/-- A surrogate is none of the characters the scan looks for. -/
theorem singleton_ne_of_surrogate {u c : Fin 65536} (high : 0xD800 ≤ u.val)
    (low : c.val < 0xD800) : [u] ≠ [c] := by
  intro same
  rw [singleton_inj] at same
  omega

theorem ScreenScan.consume_pair (scan : ScreenScan) {u v : Fin 65536}
    (high : UnicodeText.isHighSurrogate u) (low : UnicodeText.isLowSurrogate v) :
    scan.consume [u, v] = (scan.consume [u]).consume [v] := by
  have first : 0xD800 ≤ u.val := by
    simp only [UnicodeText.isHighSurrogate, Bool.and_eq_true, decide_eq_true_eq] at high
    omega
  have second : 0xD800 ≤ v.val := by
    simp only [UnicodeText.isLowSurrogate, Bool.and_eq_true, decide_eq_true_eq] at low
    omega
  have other := fun (w : Fin 65536) (high : 0xD800 ≤ w.val) (c : Fin 65536)
    (low : c.val < 0xD800) => singleton_ne_of_surrogate high low
  obtain ⟨active, state, escapeBuffer⟩ := scan
  cases state with
  | normal =>
    simp [consume, other u first escapeUnit (by decide), other u first C1_CSI (by decide),
      other v second escapeUnit (by decide), other v second C1_CSI (by decide)]
  | esc =>
    simp [consume, other u first openBracket (by decide),
      other u first closeBracket (by decide), other u first lowerC (by decide),
      other v second escapeUnit (by decide), other v second C1_CSI (by decide)]
  | csi =>
    simp [consume, not_isFinal_of_surrogate first, not_isFinal_of_surrogate second]
  | osc =>
    simp [consume, other u first escapeUnit (by decide), other u first bellUnit (by decide),
      other v second escapeUnit (by decide), other v second bellUnit (by decide)]
  | oscEsc =>
    simp [consume, other u first backslash (by decide),
      other v second escapeUnit (by decide), other v second bellUnit (by decide)]

theorem ScreenScan.feed_eq (scan : ScreenScan) (s : JsString) :
    scan.feed s = s.foldl (fun scan u => scan.consume [u]) scan := by
  unfold ScreenScan.feed
  fun_induction characters s generalizing scan with
  | case1 => rfl
  | case2 u => rfl
  | case3 u v rest pair ih =>
    rw [Bool.and_eq_true] at pair
    rw [foldl_cons, ih, consume_pair scan pair.1 pair.2]
    rfl
  | case4 u v rest _ ih =>
    rw [foldl_cons, ih]
    rfl

theorem ScreenScan.feed_append (scan : ScreenScan) (s t : JsString) :
    scan.feed (s ++ t) = (scan.feed s).feed t := by
  simp only [feed_eq, foldl_append]

/-! ## The renderer and the scan -/

theorem any_csiValues (params : JsString) : (0 < ((csiValues params).filter fun value =>
      value.any (ALTERNATE_SCREEN_MODES.contains ·)).length) ↔
    ((csiParts params).any fun part =>
      if part = [] then false else (parseInt part).any (ALTERNATE_SCREEN_MODES.contains ·)) := by
  rw [length_pos_iff_exists_mem, List.any_eq_true]
  simp only [csiValues, mem_filter, List.mem_map]
  constructor
  · rintro ⟨value, ⟨part, mem, same⟩, mode⟩
    refine ⟨part, mem, ?_⟩
    subst same
    split at mode
    · exact absurd mode Bool.false_ne_true
    · rename_i filled
      rwa [if_neg filled]
  · rintro ⟨part, mem, mode⟩
    split at mode
    · exact absurd mode Bool.false_ne_true
    · rename_i filled
      exact ⟨parseInt part, ⟨part, mem, if_neg filled⟩, mode⟩

section Renderer

variable {S : Type} (draw : S → Drawing → S)

/-- The scan that has read what the renderer has. -/
structure Follows (renderer : TerminalTextRenderer S) (scan : ScreenScan) : Prop where
  active : renderer.alternateScreenActive = scan.active
  state : renderer.state = scan.state
  buffer : renderer.escapeBuffer = scan.escapeBuffer
  /-- Between sequences the buffer is empty. -/
  empty : scan.state ≠ .csi → scan.escapeBuffer = []

variable (renderer : TerminalTextRenderer S)

theorem paint_active (drawing : Drawing) :
    (renderer.paint draw drawing).alternateScreenActive = renderer.alternateScreenActive ∧
      (renderer.paint draw drawing).state = renderer.state ∧
      (renderer.paint draw drawing).escapeBuffer = renderer.escapeBuffer := by
  unfold TerminalTextRenderer.paint
  split
  · exact ⟨rfl, rfl, rfl⟩
  · exact ⟨rfl, rfl, rfl⟩

theorem applyCsi_active (sequence : JsString) :
    (renderer.applyCsi draw sequence).alternateScreenActive =
      alternateScreenActiveFromCsi sequence renderer.alternateScreenActive := by
  unfold TerminalTextRenderer.applyCsi alternateScreenActiveFromCsi
  cases sequence.getLast? with
  | none => rfl
  | some final =>
    have modes := any_csiValues sequence.dropLast
    dsimp only
    by_cases whole : (final = lowerH ∨ final = lowerL) ∧ sequence.dropLast.contains questionMark ∧
        0 < ((csiValues sequence.dropLast).filter fun value =>
          value.any (ALTERNATE_SCREEN_MODES.contains ·)).length
    · obtain ⟨kind, mark, switches⟩ := whole
      rw [if_pos ⟨kind, mark, switches⟩, if_neg (by simpa [or_iff_not_imp_left] using kind),
        if_neg (by simpa using mark), if_pos (modes.mp switches)]
    · rw [if_neg whole]
      have same : ∀ other : TerminalTextRenderer S,
          (if renderer.alternateScreenActive then renderer
            else { renderer with screen := other.screen }).alternateScreenActive =
          renderer.alternateScreenActive := by
        intro other
        split <;> rfl
      rw [same ⟨_, .normal, [], false⟩]
      split
      · rfl
      · rename_i kind
        split
        · rfl
        · rename_i mark
          rw [if_neg]
          intro switches
          exact whole ⟨by simpa [or_iff_not_imp_left] using kind, by simpa using mark,
            modes.mpr switches⟩

section

variable {renderer : TerminalTextRenderer S} {scan : ScreenScan} (follows : Follows renderer scan)
include follows

theorem Follows.consume (ch : JsString) : Follows (renderer.consume draw ch) (scan.consume ch) := by
  obtain ⟨screen, state, escapeBuffer, active⟩ := renderer
  obtain ⟨scanActive, scanState, scanBuffer⟩ := scan
  obtain ⟨sameActive, sameState, sameBuffer, empty⟩ := follows
  dsimp only at sameActive sameState sameBuffer empty
  subst sameActive sameState sameBuffer
  unfold TerminalTextRenderer.consume ScreenScan.consume
  cases state with
  | esc =>
    have none_ := empty (by decide)
    unfold TerminalTextRenderer.consumeEsc
    dsimp only
    split
    · exact ⟨rfl, rfl, rfl, fun other => absurd rfl other⟩
    · split
      · exact ⟨rfl, rfl, none_.symm, fun _ => none_⟩
      · split
        · exact ⟨rfl, rfl, none_.symm, fun _ => none_⟩
        · exact ⟨rfl, rfl, none_.symm, fun _ => none_⟩
  | csi =>
    dsimp only
    split
    · exact ⟨applyCsi_active draw _ _, rfl, rfl, fun _ => rfl⟩
    · exact ⟨rfl, rfl, rfl, fun other => absurd rfl other⟩
  | osc =>
    have none_ := empty (by decide)
    dsimp only
    split
    · exact ⟨rfl, rfl, none_.symm, fun _ => none_⟩
    · split
      · exact ⟨rfl, rfl, rfl, fun _ => none_⟩
      · exact ⟨rfl, rfl, rfl, fun _ => none_⟩
  | oscEsc => exact ⟨rfl, rfl, rfl, fun _ => empty (by decide)⟩
  | normal =>
    have none_ := empty (by decide)
    have painted : ∀ drawing, Follows
        (TerminalTextRenderer.paint draw ⟨screen, .normal, escapeBuffer, active⟩ drawing)
        ⟨active, .normal, escapeBuffer⟩ := by
      intro drawing
      obtain ⟨same, state, buffer⟩ := paint_active draw ⟨screen, .normal, escapeBuffer, active⟩ drawing
      exact ⟨same, state, buffer, fun _ => none_⟩
    dsimp only
    split
    · exact ⟨rfl, rfl, none_.symm, fun _ => none_⟩
    · split
      · exact ⟨rfl, rfl, rfl, fun other => absurd rfl other⟩
      · split
        · exact painted _
        · split
          · exact painted _
          · split
            · exact painted _
            · split
              · exact painted _
              · exact painted _

theorem Follows.feed (s : JsString) : Follows (renderer.feed draw s) (scan.feed s) := by
  unfold TerminalTextRenderer.feed ScreenScan.feed
  induction characters s generalizing renderer scan with
  | nil => exact follows
  | cons ch rest ih => exact ih (follows.consume draw ch)

end

theorem follows_create (screen : S) (active : Bool) :
    Follows (TerminalTextRenderer.create screen active) (ScreenScan.start active) :=
  ⟨rfl, rfl, rfl, fun _ => rfl⟩

theorem alternateScreenActiveAfter_eq (screen : S) (s : JsString) (active : Bool) :
    alternateScreenActiveAfter s active =
      ((TerminalTextRenderer.create screen active).feed draw s).alternateScreenActive :=
  ((follows_create screen active).feed draw s).active.symm

/-- Between sequences nothing but the active screen is remembered. -/
theorem feed_normal {s : JsString} {active : Bool}
    (normal : ((ScreenScan.start active).feed s).state = .normal) :
    (ScreenScan.start active).feed s = ScreenScan.start (alternateScreenActiveAfter s active) := by
  have empty := ((follows_create () active).feed (fun _ _ => ()) s).empty
    (by rw [normal]; decide)
  unfold alternateScreenActiveAfter
  generalize (ScreenScan.start active).feed s = scan at normal empty ⊢
  obtain ⟨_, _, _⟩ := scan
  subst normal empty
  rfl

end Renderer

end Netcatty.TerminalLog
