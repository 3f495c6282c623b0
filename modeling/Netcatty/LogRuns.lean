import Netcatty.LogHistory

/-!
Runs of the terminal log renderer.

A run is what the log was fed, chunk by chunk.  Its states are those after every character.
-/

namespace Netcatty.TerminalLog

open List Option

open WriteCoalescing (lowerC)

/-! ## One character -/

/-- What a character makes the renderer draw. -/
def TerminalTextRenderer.drawings {S : Type} (renderer : TerminalTextRenderer S) (ch : JsString) :
    List Drawing :=
  (TerminalTextRenderer.consume (fun drawn drawing => drawn ++ [drawing])
    ⟨[], renderer.state, renderer.escapeBuffer, renderer.alternateScreenActive⟩ ch).screen

/-- The character that ends `ESC c`. -/
def TerminalTextRenderer.IsReset {S : Type} (renderer : TerminalTextRenderer S) (ch : JsString) : Prop :=
  renderer.state = .esc ∧ ch = [lowerC]

/-- What one character draws does not depend on the buffer; only a reset is drawn on the alternate screen. -/
structure Draws (state : ParserState) (escapeBuffer : JsString) (active : Bool) (ch : JsString)
    (drawing : Option Drawing) : Prop where
  screen : ∀ (S : Type) (draw : S → Drawing → S) (screen : S),
    (TerminalTextRenderer.consume draw ⟨screen, state, escapeBuffer, active⟩ ch).screen =
      drawing.elim screen (draw screen)
  reset : state = .esc ∧ ch = [lowerC] → drawing = some .reset
  other : ¬(state = .esc ∧ ch = [lowerC]) → ∀ some_, drawing = some some_ → some_ ≠ .reset ∧ active = false

section

variable {state : ParserState} {escapeBuffer : JsString} {active : Bool} {ch : JsString}

theorem draws_none (quiet : ∀ (S : Type) (draw : S → Drawing → S) (screen : S),
      (TerminalTextRenderer.consume draw ⟨screen, state, escapeBuffer, active⟩ ch).screen = screen)
    (other : ¬(state = .esc ∧ ch = [lowerC])) :
    ∃ drawing, Draws state escapeBuffer active ch drawing :=
  ⟨none, quiet, fun reset => absurd reset other, fun _ _ none_ => absurd none_.symm (some_ne_none _)⟩

theorem draws_paint
    {drawing : Drawing} (painted : ∀ (S : Type) (draw : S → Drawing → S) (screen : S),
      (TerminalTextRenderer.consume draw ⟨screen, state, escapeBuffer, active⟩ ch).screen =
        if active then screen else draw screen drawing)
    (other : ¬(state = .esc ∧ ch = [lowerC])) (kind : drawing ≠ .reset) :
    ∃ drawing, Draws state escapeBuffer active ch drawing := by
  cases active with
  | true => exact draws_none painted other
  | false =>
    refine ⟨some drawing, painted, fun reset => absurd reset other, fun _ some_ same => ?_⟩
    rw [← some_inj.mp same]
    exact ⟨kind, rfl⟩

end

/-- What a character outside a sequence draws. -/
def plainDrawing (ch : JsString) : Drawing :=
  if ch = text "\x08" then .backspace
  else if ch = text "\r" then .carriageReturn
  else if ch = text "\n" then .lineFeed
  else if ch = text "\t" then .tab
  else .character ch

theorem plainDrawing_ne (ch : JsString) : plainDrawing ch ≠ .reset := by
  unfold plainDrawing
  intro same
  split at same
  · cases same
  split at same
  · cases same
  split at same
  · cases same
  split at same <;> cases same

theorem paint_screen {S : Type} (draw : S → Drawing → S) (renderer : TerminalTextRenderer S)
    (drawing : Drawing) :
    (renderer.paint draw drawing).screen =
      if renderer.alternateScreenActive then renderer.screen else draw renderer.screen drawing := by
  unfold TerminalTextRenderer.paint
  split <;> rfl

/-- One character draws at most once. -/
theorem draws_consume (state : ParserState) (escapeBuffer : JsString) (active : Bool) (ch : JsString) :
    ∃ drawing, Draws state escapeBuffer active ch drawing := by
  cases state with
  | esc =>
    by_cases reset : ch = [lowerC]
    · refine ⟨some .reset, fun S draw screen => ?_, fun _ => rfl, fun other => absurd ⟨rfl, reset⟩ other⟩
      subst reset
      rfl
    · refine draws_none (fun S draw screen => ?_) fun both => reset both.2
      unfold TerminalTextRenderer.consume TerminalTextRenderer.consumeEsc
      dsimp only
      rw [if_neg reset]
      split
      · rfl
      split <;> rfl
  | csi =>
    have other : ¬(ParserState.csi = .esc ∧ ch = [lowerC]) := fun both => ParserState.noConfusion both.1
    by_cases whole : ch.any OutputTrigger.isFinal = true
    · cases last : (escapeBuffer ++ ch).getLast? with
      | none =>
        refine draws_none (fun S draw screen => ?_) other
        unfold TerminalTextRenderer.consume TerminalTextRenderer.applyCsi
        simp only [whole, if_true, last]
      | some final =>
        by_cases switch : (final = WriteCoalescing.lowerH ∨ final = WriteCoalescing.lowerL) ∧
            (escapeBuffer ++ ch).dropLast.contains WriteCoalescing.questionMark ∧
            0 < ((csiValues (escapeBuffer ++ ch).dropLast).filter fun value =>
              value.any (OutputTrigger.ALTERNATE_SCREEN_MODES.contains ·)).length
        · refine draws_none (fun S draw screen => ?_) other
          unfold TerminalTextRenderer.consume TerminalTextRenderer.applyCsi
          simp only [whole, if_true, last]
          rw [if_pos switch]
        · refine draws_paint (fun S draw screen => ?_) other (fun same => Drawing.noConfusion same :
            Drawing.control final (csiValues (escapeBuffer ++ ch).dropLast) ≠ .reset)
          unfold TerminalTextRenderer.consume TerminalTextRenderer.applyCsi
          simp only [whole, if_true, last]
          rw [if_neg switch]
          split <;> rfl
    · refine draws_none (fun S draw screen => ?_) other
      unfold TerminalTextRenderer.consume
      dsimp only
      rw [if_neg whole]
  | osc =>
    refine draws_none (fun S draw screen => ?_) fun both => ParserState.noConfusion both.1
    unfold TerminalTextRenderer.consume
    dsimp only
    split
    · rfl
    split <;> rfl
  | oscEsc => exact draws_none (fun _ _ _ => rfl) fun both => ParserState.noConfusion both.1
  | normal =>
    have other : ¬(ParserState.normal = .esc ∧ ch = [lowerC]) := fun both => ParserState.noConfusion both.1
    by_cases escape : ch = [escapeUnit]
    · refine draws_none (fun S draw screen => ?_) other
      unfold TerminalTextRenderer.consume
      dsimp only
      rw [if_pos escape]
    by_cases single : ch = [WriteCoalescing.C1_CSI]
    · refine draws_none (fun S draw screen => ?_) other
      unfold TerminalTextRenderer.consume
      dsimp only
      rw [if_neg escape, if_pos single]
    refine draws_paint (fun S draw screen => ?_) other (plainDrawing_ne ch)
    have plain : TerminalTextRenderer.consume draw ⟨screen, .normal, escapeBuffer, active⟩ ch =
        TerminalTextRenderer.paint draw ⟨screen, .normal, escapeBuffer, active⟩ (plainDrawing ch) := by
      unfold TerminalTextRenderer.consume plainDrawing
      dsimp only
      rw [if_neg escape, if_neg single]
      split
      · rfl
      split
      · rfl
      split
      · rfl
      split <;> rfl
    rw [plain, paint_screen]

/-! ## Runs -/

/-- A piece of input, with the time it came. -/
structure Chunk where
  input : JsString
  timestamp : Option ℤ

/-- A renderer with its lines, as long as the cursor has been in the buffer. -/
abbrev LogRenderer := TerminalTextRenderer (Option LogScreen)

def createLog (alternateScreenActive : Bool) : LogRenderer :=
  TerminalTextRenderer.create (some LogScreen.create) alternateScreenActive

def setTimestamp (renderer : LogRenderer) (timestamp : Option ℤ) : LogRenderer :=
  { renderer with screen := renderer.screen.map fun screen => { screen with timestamp := timestamp } }

/-- `feed`. -/
def feedLog (classes : UnicodeClasses) (renderer : LogRenderer) (chunk : Chunk) : LogRenderer :=
  if chunk.input = [] then renderer
  else (setTimestamp renderer chunk.timestamp).feed (LogScreen.draw classes) chunk.input

/-- A turn of the loop of `feed`, or what comes before the loop. -/
inductive LogStep where
  | start (timestamp : Option ℤ)
  | character (ch : JsString)

def LogStep.run (classes : UnicodeClasses) (renderer : LogRenderer) : LogStep → LogRenderer
  | .start timestamp => setTimestamp renderer timestamp
  | .character ch => renderer.consume (LogScreen.draw classes) ch

def runLog (classes : UnicodeClasses) (renderer : LogRenderer) (steps : List LogStep) : LogRenderer :=
  steps.foldl (LogStep.run classes) renderer

def logSteps (chunks : List Chunk) : List LogStep :=
  chunks.flatMap fun chunk =>
    if chunk.input = [] then [] else .start chunk.timestamp :: (characters chunk.input).map .character

theorem runLog_logSteps (classes : UnicodeClasses) (renderer : LogRenderer) (chunks : List Chunk) :
    runLog classes renderer (logSteps chunks) = chunks.foldl (feedLog classes) renderer := by
  induction chunks generalizing renderer with
  | nil => rfl
  | cons chunk chunks ih =>
    have one : runLog classes renderer (logSteps [chunk]) = feedLog classes renderer chunk := by
      unfold logSteps feedLog runLog
      rw [flatMap_singleton]
      split
      · rfl
      · rw [foldl_cons, foldl_map]
        rfl
    have cut : logSteps (chunk :: chunks) = logSteps [chunk] ++ logSteps chunks := by
      unfold logSteps
      rw [flatMap_cons, flatMap_singleton]
    rw [foldl_cons, ← one, ← ih, cut]
    exact foldl_append

def LogStep.IsReset (renderer : LogRenderer) : LogStep → Prop
  | .start _ => False
  | .character ch => renderer.IsReset ch

def LogStep.StaysInside (classes : UnicodeClasses) (renderer : LogRenderer) : LogStep → Prop
  | .start _ => True
  | .character ch => ∀ drawing ∈ renderer.drawings ch, ∀ screen, renderer.screen = some screen →
      TerminalLog.StaysInside classes screen drawing

def RunStaysInside (classes : UnicodeClasses) : LogRenderer → List LogStep → Prop
  | _, [] => True
  | renderer, step :: steps =>
    step.StaysInside classes renderer ∧ RunStaysInside classes (step.run classes renderer) steps

def RunHasReset (classes : UnicodeClasses) : LogRenderer → List LogStep → Prop
  | _, [] => False
  | renderer, step :: steps =>
    step.IsReset renderer ∨ RunHasReset classes (step.run classes renderer) steps

/-- What one step does to the lines of the log. -/
structure StepKeeps (renderer : LogRenderer) (step : LogStep) (before after : LogScreen) : Prop where
  inside : InBuffer after
  reset : step.IsReset renderer → LogReset before after
  other : ¬step.IsReset renderer → LogChange before after
  /-- On the alternate screen no line changes, but for a reset, which leaves it. -/
  alternate : renderer.alternateScreenActive → ¬step.IsReset renderer →
    after.lines = before.lines ∧ after.screenBaseRow = before.screenBaseRow

/-! ## History along a run -/

theorem length_history {screen : LogScreen} (inside : InBuffer screen) :
    screen.history.length = screen.screenBaseRow := by
  have above := inside.above
  have below := inside.below
  unfold LogScreen.history
  rw [length_take]
  omega

theorem LogChange.history_isPrefix {before after : LogScreen} (inside : InBuffer before)
    (change : LogChange before after) : before.history <+: after.history := by
  cases change with
  | onScreen base same => exact same ▸ prefix_refl _
  | newScreen base lines =>
    have all : after.history = before.lines := by
      unfold LogScreen.history
      rw [lines, base, take_left]
    rw [all]
    exact List.take_prefix _ _
  | committed pending held base lines =>
    have long : (before.history ++ (trimTrailingBlankLines pending.lines ++ [emptyLine])).length =
        after.screenBaseRow := by
      rw [length_append, length_append, length_singleton, length_history inside, base,
        Nat.add_assoc]
    have grown : after.history = before.history ++ (trimTrailingBlankLines pending.lines ++ [emptyLine]) := by
      unfold LogScreen.history at long ⊢
      rw [lines, ← long, LogScreen.history, append_assoc (List.take _ _), take_left]
    rw [grown]
    exact prefix_append _ _

theorem LogReset.history_eq {before after : LogScreen} (reset : LogReset before after) :
    after.history = trimTrailingBlankLines before.lines := by
  unfold LogScreen.history
  rw [reset.lines, reset.base, take_left]

theorem StepKeeps.trimmed {renderer : LogRenderer} {step : LogStep} {before after : LogScreen}
    (inside : InBuffer before) (keeps : StepKeeps renderer step before after) :
    trimTrailingBlankLines before.history <+: trimTrailingBlankLines after.history := by
  by_cases reset : step.IsReset renderer
  · rw [(keeps.reset reset).history_eq, trimTrailingBlankLines_idem]
    exact trimTrailingBlankLines_mono (List.take_prefix _ _)
  · exact trimTrailingBlankLines_mono ((keeps.other reset).history_isPrefix inside)

theorem LogStep.keeps {classes : UnicodeClasses} {renderer : LogRenderer} {step : LogStep}
    {before : LogScreen} (held : renderer.screen = some before) (formed : Wellformed before)
    (inside : step.StaysInside classes renderer) :
    ∃ after, (step.run classes renderer).screen = some after ∧ Wellformed after ∧
      StepKeeps renderer step before after := by
  cases step with
  | start timestamp =>
    have same : Wellformed { before with timestamp := timestamp } :=
      ⟨⟨formed.above, formed.below, formed.left, formed.paired⟩, formed.pending, formed.content⟩
    refine ⟨_, ?_, same, same.toInBuffer, fun reset => reset.elim, fun _ => .onScreen rfl rfl,
      fun _ _ => ⟨rfl, rfl⟩⟩
    unfold run setTimestamp
    rw [held]
    rfl
  | character ch =>
    obtain ⟨drawing, draws⟩ := draws_consume renderer.state renderer.escapeBuffer
      renderer.alternateScreenActive ch
    have run : (LogStep.run classes renderer (.character ch)).screen =
        drawing.elim renderer.screen (LogScreen.draw classes renderer.screen) :=
      draws.screen _ (LogScreen.draw classes) renderer.screen
    have drawn : renderer.drawings ch = drawing.elim [] ([] ++ [·]) :=
      draws.screen _ (fun drawn drawing => drawn ++ [drawing]) []
    have inBuffer : ¬(before.row < 0 ∨ before.col < 0) := by
      have above := formed.above
      have left := formed.left
      omega
    cases drawing with
    | none =>
      have other : ¬renderer.IsReset ch := fun reset =>
        some_ne_none _ (draws.reset reset).symm
      exact ⟨before, run.trans held, formed, formed.toInBuffer, fun reset => absurd reset other,
        fun _ => .onScreen rfl rfl, fun _ _ => ⟨rfl, rfl⟩⟩
    | some drawing =>
      have stays : TerminalLog.StaysInside classes before drawing := by
        apply inside drawing _ before held
        rw [drawn]
        exact mem_singleton_self _
      have after : (LogStep.run classes renderer (.character ch)).screen =
          some (before.apply classes drawing) := by
        rw [run, elim_some, held]
        unfold LogScreen.draw
        rw [bind_some, if_neg inBuffer]
      refine ⟨_, after, ?_⟩
      by_cases reset : renderer.IsReset ch
      · have same := some_inj.mp (draws.reset reset)
        subst same
        obtain ⟨kept, change⟩ := formed.reset
        exact ⟨kept, kept.toInBuffer, fun _ => change, fun other => absurd reset other,
          fun _ other => absurd reset other⟩
      · obtain ⟨kind, normal⟩ := draws.other reset drawing rfl
        obtain ⟨kept, change⟩ := formed.apply stays kind
        exact ⟨kept, kept.toInBuffer, fun other => absurd other reset, fun _ => change,
          fun active => Bool.noConfusion (active.symm.trans normal)⟩

theorem RunStaysInside.of_append {classes : UnicodeClasses} {former latter : List LogStep}
    {renderer : LogRenderer} (inside : RunStaysInside classes renderer (former ++ latter)) :
    RunStaysInside classes renderer former ∧
      RunStaysInside classes (runLog classes renderer former) latter := by
  induction former generalizing renderer with
  | nil => exact ⟨trivial, inside⟩
  | cons step former ih =>
    obtain ⟨own, rest⟩ := inside
    obtain ⟨kept, after⟩ := ih rest
    exact ⟨⟨own, kept⟩, after⟩

theorem runLog_keeps {classes : UnicodeClasses} {steps : List LogStep} {renderer : LogRenderer}
    {before : LogScreen} (held : renderer.screen = some before) (formed : Wellformed before)
    (inside : RunStaysInside classes renderer steps) :
    ∃ after, (runLog classes renderer steps).screen = some after ∧ Wellformed after ∧
      trimTrailingBlankLines before.history <+: trimTrailingBlankLines after.history ∧
      (¬RunHasReset classes renderer steps → before.history <+: after.history) := by
  induction steps generalizing renderer before with
  | nil => exact ⟨before, held, formed, prefix_refl _, fun _ => prefix_refl _⟩
  | cons step steps ih =>
    obtain ⟨own, rest⟩ := inside
    obtain ⟨middle, there, whole, keeps⟩ := step.keeps held formed own
    obtain ⟨after, ends, formed', trimmed, same⟩ := ih there whole rest
    refine ⟨after, ends, formed', (keeps.trimmed formed.toInBuffer).trans trimmed, fun none_ => ?_⟩
    have first : ¬step.IsReset renderer := fun reset => none_ (.inl reset)
    have later := same fun reset => none_ (.inr reset)
    exact ((keeps.other first).history_isPrefix formed.toInBuffer).trans later

theorem wellformed_create : Wellformed LogScreen.create := by
  refine ⟨⟨le_rfl, ?_, le_rfl, fun line mem => ?_⟩, fun _ none_ => absurd none_.symm (some_ne_none _),
    fun some_ => absurd rfl some_⟩
  · exact Int.zero_lt_one
  · rw [mem_singleton.mp mem]
    exact paired_emptyLine

/-- The log never rewrites the history it preserves, as long as every drawing stays inside. -/
theorem log_history_preserved {classes : UnicodeClasses} {active : Bool} {chunks : List Chunk}
    (inside : RunStaysInside classes (createLog active) (logSteps chunks))
    {former latter rest : List LogStep} (cut : logSteps chunks = former ++ latter ++ rest) :
    ∃ before after, (runLog classes (createLog active) former).screen = some before ∧
      (runLog classes (createLog active) (former ++ latter)).screen = some after ∧
      InBuffer before ∧ InBuffer after ∧
      (∀ step, latter = [step] →
        StepKeeps (runLog classes (createLog active) former) step before after) ∧
      trimTrailingBlankLines before.history <+: after.history ∧
      (¬RunHasReset classes (runLog classes (createLog active) former) latter →
        before.history <+: after.history) := by
  rw [cut] at inside
  obtain ⟨first, second⟩ := inside.of_append.1.of_append
  obtain ⟨before, held, formed, -, -⟩ :=
    @runLog_keeps classes former (createLog active) _ rfl wellformed_create first
  obtain ⟨after, ends, formed', trimmed, same⟩ := runLog_keeps held formed second
  have joined : runLog classes (createLog active) (former ++ latter) =
      runLog classes (runLog classes (createLog active) former) latter := foldl_append
  refine ⟨before, after, held, joined ▸ ends, formed.toInBuffer, formed'.toInBuffer, fun step single => ?_,
    trimmed.trans (trimTrailingBlankLines_isPrefix _), same⟩
  subst single
  obtain ⟨other, there, -, keeps⟩ := step.keeps held formed second.1
  have unique : after = other := some_inj.mp (ends.symm.trans there)
  exact unique ▸ keeps

/-- The combining diacritical marks, and nothing else, take no cell. -/
def combiningMarks : UnicodeClasses where
  zeroWidthMark codePoint := 0x0300 ≤ codePoint && codePoint ≤ 0x036f
  zeroWidthFormat _ := false
  space_visible := ⟨rfl, rfl⟩

def screenAfter (s : String) : Option LogScreen :=
  (runLog combiningMarks (createLog false) (logSteps [⟨text s, none⟩])).screen

theorem log_history_preserved_clear :
    ∃ before after, screenAfter "a" = some before ∧ screenAfter "a\x1b[2J" = some after ∧
      before.history <+: after.history := by
  have steps : logSteps [⟨text "a\x1b[2J", none⟩] =
      [.start none, .character (text "a")] ++ [.character (text "\x1b"), .character (text "["),
        .character (text "2"), .character (text "J")] ++ [] := rfl
  have inside : RunStaysInside combiningMarks (createLog false) (logSteps [⟨text "a\x1b[2J", none⟩]) := by
    rw [steps]
    refine ⟨trivial, fun drawing mem screen _ => ?_, fun _ mem => absurd mem not_mem_nil,
      fun _ mem => absurd mem not_mem_nil, fun _ mem => absurd mem not_mem_nil,
      fun drawing mem screen _ => ?_, trivial⟩
    · have same : drawing = .character (text "a") := mem_singleton.mp mem
      subst same
      exact fun _ zero => absurd zero (by decide)
    · have same : drawing = .control ⟨'J'.toNat, by decide⟩ [some 2] := mem_singleton.mp mem
      subst same
      exact ⟨fun kind => absurd kind (by decide), fun kind => absurd kind (by decide)⟩
  obtain ⟨before, after, held, ends, -, -, -, -, same⟩ := log_history_preserved inside steps
  refine ⟨before, after, held, ends, same ?_⟩
  rintro (⟨-, reset⟩ | ⟨-, reset⟩ | ⟨-, reset⟩ | ⟨-, reset⟩ | none_)
  · exact absurd reset (by decide)
  · exact absurd reset (by decide)
  · exact absurd reset (by decide)
  · exact absurd reset (by decide)
  · exact none_

/-! ## Inputs that do not stay inside -/

/-- A mark alone, and behind it the half of a glyph. -/
theorem not_paired_halved {cells : List Cell}
    (shape : cells.map (fun cell => (cell.width, cell.continuation)) = [(some 0, false), (none, true)]) :
    ¬Paired cells := by
  intro paired
  have next := paired.next 0
  have first : cells[0]?.map (fun cell => (cell.width, cell.continuation)) = some (some 0, false) := by
    rw [← getElem?_map, shape]
    rfl
  have second : cells[1]?.map (fun cell => (cell.width, cell.continuation)) = some (none, true) := by
    rw [← getElem?_map, shape]
    rfl
  obtain ⟨mark, held, same⟩ := map_eq_some_iff.mp first
  obtain ⟨half, held', same'⟩ := map_eq_some_iff.mp second
  rw [held, held'] at next
  have width : mark.width = some 0 := congrArg Prod.fst same
  have continued : half.continuation = true := congrArg Prod.snd same'
  unfold isDouble isContinuation at next
  rw [bind_some, width, any_some, continued] at next
  cases next

/-- A parameter below zero moves the cursor out of the buffer; a mark in the first column halves
the glyph that is there. -/
theorem log_leaves_buffer :
    (∃ screen, screenAfter "\x1b[-1B" = some screen ∧ screen.row < screen.screenBaseRow) ∧
      (∃ screen, screenAfter "\x1b[-1C" = some screen ∧ screen.col < 0) ∧
      ∃ screen, screenAfter "你\r\u0301" = some screen ∧ ∃ line ∈ screen.lines, ¬Paired line.cells := by
  have down : (screenAfter "\x1b[-1B").map (fun screen => (screen.row, screen.screenBaseRow)) = some (-1, 0) :=
    rfl
  have right : (screenAfter "\x1b[-1C").map LogScreen.col = some (-1) := rfl
  have cells : (screenAfter "你\r\u0301").map (fun screen => screen.lines.map fun line =>
      line.cells.map fun cell => (cell.width, cell.continuation)) = some [[(some 0, false), (none, true)]] := by
    decide +kernel
  refine ⟨?_, ?_, ?_⟩
  · obtain ⟨screen, held, same⟩ := map_eq_some_iff.mp down
    obtain ⟨row, base⟩ := Prod.mk.inj same
    exact ⟨screen, held, by omega⟩
  · obtain ⟨screen, held, col⟩ := map_eq_some_iff.mp right
    exact ⟨screen, held, by omega⟩
  · obtain ⟨screen, held, same⟩ := map_eq_some_iff.mp cells
    obtain ⟨line, lines, shape⟩ := map_eq_singleton_iff.mp same
    exact ⟨screen, held, line, lines ▸ mem_singleton_self _, not_paired_halved shape⟩

end Netcatty.TerminalLog
