import Netcatty.OutputTriggerFilter

/-!
What the filter lets automation rules see of a server stream.

A stream is written as items: text, CSI and OSC sequences, and the escape
sequences of ECMA-48, `ESC I…I F`.  The reader takes an escape sequence only when
`F` follows `ESC` at once and is `0x40` or more.  A stream of such items is seen
completely, however it is cut; any other escape sequence is held back with
everything behind it (`seesAllOutput_iff`).
-/

namespace Netcatty.OutputTrigger

open ResumableScan List

/-! ## Streams -/

/-- One item of a well-formed stream. -/
inductive Item where
  | text (code : Fin 65536) (plain : code ≠ escapeUnit)
  /-- Parameter and intermediate bytes, and a final byte. -/
  | csi (body : JsString) (final : Fin 65536)
    (inside : ∀ code ∈ body, 0x20 ≤ code.val ∧ code.val ≤ 0x3f) (closes : isFinal final)
  /-- A payload ended by BEL or by ST. -/
  | osc (payload : JsString) (bel : Bool) (inside : bellUnit ∉ payload ∧ escapeUnit ∉ payload)
  /-- `ESC I…I F`; without intermediates `[` and `]` introduce the sequences above. -/
  | escape (intermediates : JsString) (final : Fin 65536)
    (inside : ∀ code ∈ intermediates, 0x20 ≤ code.val ∧ code.val ≤ 0x2f)
    (closes : 0x30 ≤ final.val ∧ final.val ≤ 0x7e)
    (own : intermediates = [] → final ≠ openBracket ∧ final ≠ closeBracket)

namespace Item

def units : Item → JsString
  | .text code _ => [code]
  | .csi body final _ _ => escapeUnit :: openBracket :: (body ++ [final])
  | .osc payload bel _ =>
    escapeUnit :: closeBracket :: (payload ++ if bel then [bellUnit] else [escapeUnit, backslash])
  | .escape intermediates final _ _ _ => escapeUnit :: (intermediates ++ [final])

/-- What the reader makes of the item. -/
def piece : Item → Piece
  | .text code _ => .unit code
  | item => .sequence item.units

/-- The items `readEscapeSequence` has a case for. -/
def Recognised : Item → Prop
  | .escape intermediates final _ _ _ => intermediates = [] ∧ 0x40 ≤ final.val
  | _ => True

end Item

def streamUnits (items : List Item) : JsString := items.flatMap Item.units

def screenAfter (alternateScreenActive : Bool) (sequence : JsString) : Bool :=
  match getTerminalAlternateScreenAction sequence with
  | some .enter => true
  | some .leave => false
  | none => alternateScreenActive

/-- The text outside sequences that arrives while the alternate screen is inactive. -/
def visibleText (alternateScreenActive : Bool) : List Item → JsString
  | [] => []
  | .text code _ :: items =>
    if alternateScreenActive then visibleText alternateScreenActive items
    else code :: visibleText alternateScreenActive items
  | item :: items => visibleText (screenAfter alternateScreenActive item.units) items

/-- Process chunks one after the other and concatenate what rules may match. -/
def processAll (f : TerminalOutputTriggerFilter) :
    List JsString → JsString × TerminalOutputTriggerFilter
  | [] => ([], f)
  | chunk :: chunks =>
    let now := f.processServerChunk chunk
    let later := processAll now.2 chunks
    (now.1.scannableText ++ later.1, later.2)

/-! ## Reading an item -/

theorem splitCsi_body {body more : JsString} {final : Fin 65536}
    (inside : ∀ code ∈ body, 0x20 ≤ code.val ∧ code.val ≤ 0x3f) (closes : isFinal final) :
    splitCsi (body ++ final :: more) = some (body ++ [final], more) := by
  induction body with
  | nil => rw [nil_append, splitCsi, if_pos closes, nil_append]
  | cons code body ih =>
    have low := inside code mem_cons_self
    have open_ : ¬ isFinal code := by
      simp only [isFinal, decide_eq_true_eq]
      omega
    rw [cons_append, splitCsi, if_neg open_,
      ih fun code mem => inside code (mem_cons_of_mem _ mem)]
    rfl

theorem splitOsc_payload {payload more : JsString} (bel : Bool)
    (inside : bellUnit ∉ payload ∧ escapeUnit ∉ payload) :
    splitOsc (payload ++ ((if bel then [bellUnit] else [escapeUnit, backslash]) ++ more)) =
      some (payload ++ (if bel then [bellUnit] else [escapeUnit, backslash]), more) := by
  induction payload with
  | nil =>
    cases bel with
    | true => rfl
    | false =>
      have other : escapeUnit ≠ bellUnit := by decide
      change splitOsc (escapeUnit :: backslash :: more) = _
      rw [splitOsc, if_neg other, if_pos ⟨rfl, rfl⟩]
      rfl
  | cons code payload ih =>
    obtain ⟨bell, esc⟩ := inside
    rw [mem_cons, not_or] at bell esc
    have more' := ih ⟨bell.2, esc.2⟩
    rw [cons_append, splitOsc, if_neg (Ne.symm bell.1),
      if_neg fun both => esc.1 both.1.symm, more']
    rfl

theorem nextPiece_of_recognised {item : Item} (known : item.Recognised) (more : JsString) :
    nextPiece (item.units ++ more) = some (item.piece, more) := by
  cases item with
  | text code plain =>
    simp only [Item.units, Item.piece, cons_append, nil_append, nextPiece, if_pos plain]
  | csi body final inside closes =>
    simp only [Item.units, Item.piece, cons_append, append_assoc, nil_append]
    rw [nextPiece, if_neg (not_not_intro rfl), readEscapeSequence, if_neg (not_not_intro rfl),
      if_pos rfl, readCsiSequence, if_pos ⟨rfl, rfl⟩, splitCsi_body inside closes]
    rfl
  | osc payload bel inside =>
    have other : closeBracket ≠ openBracket := by decide
    simp only [Item.units, Item.piece, cons_append, append_assoc]
    rw [nextPiece, if_neg (not_not_intro rfl), readEscapeSequence, if_neg (not_not_intro rfl),
      if_neg other, if_pos rfl, readOscSequence, if_pos ⟨rfl, rfl⟩, splitOsc_payload bel inside]
    rfl
  | escape intermediates final inside closes own =>
    obtain ⟨bare, high⟩ := known
    subst bare
    obtain ⟨csi, osc⟩ := own rfl
    have ends : isFinal final := by
      simp only [isFinal, decide_eq_true_eq]
      omega
    simp only [Item.units, Item.piece, cons_append, nil_append]
    rw [nextPiece, if_neg (not_not_intro rfl), readEscapeSequence, if_neg (not_not_intro rfl),
      if_neg csi, if_neg osc, if_pos ends]
    rfl

/-- An escape sequence without a case of its own is never read, whatever follows. -/
theorem nextPiece_of_not_recognised {item : Item} (unknown : ¬ item.Recognised) (more : JsString) :
    nextPiece (item.units ++ more) = none := by
  cases item with
  | text code plain => exact absurd trivial unknown
  | csi body final inside closes => exact absurd trivial unknown
  | osc payload bel inside => exact absurd trivial unknown
  | escape intermediates final inside closes own =>
    -- the unit behind ESC is an intermediate, or a final byte below 0x40
    obtain ⟨next, after, split, low⟩ : ∃ next after, intermediates ++ [final] = next :: after ∧
        next.val < 0x40 := by
      cases intermediates with
      | nil =>
        refine ⟨final, [], rfl, ?_⟩
        apply Nat.lt_of_not_le
        exact fun high => unknown ⟨rfl, high⟩
      | cons code rest =>
        have bound := inside code mem_cons_self
        exact ⟨code, rest ++ [final], rfl, by omega⟩
    have csi : next ≠ openBracket := by
      rintro rfl
      exact absurd low (by decide)
    have osc : next ≠ closeBracket := by
      rintro rfl
      exact absurd low (by decide)
    have ends : ¬ isFinal next := by
      simp only [isFinal, decide_eq_true_eq]
      omega
    simp only [Item.units, split, cons_append]
    rw [nextPiece, if_neg (not_not_intro rfl), readEscapeSequence, if_neg (not_not_intro rfl),
      if_neg csi, if_neg osc, if_neg ends]
    rfl

/-! ## A filter that was told of no input -/

/-- Nothing the user typed is expected back. -/
structure NoInputNoted (f : TerminalOutputTriggerFilter) : Prop where
  pendingEcho : f.pendingEcho = []
  currentInputLine : f.currentInputLine = []
  submittedEchoLine : f.submittedEchoLine = none
  inputEchoSuppressLines : f.inputEchoSuppressLines = 0
  inputEchoSuppressPendingLf : f.inputEchoSuppressPendingLf = false

theorem noInputNoted_create : NoInputNoted createTerminalOutputTriggerFilter :=
  ⟨rfl, rfl, rfl, rfl, rfl⟩

def showPiece (alternateScreenActive : Bool) : Piece → Bool × JsString
  | .unit code => (alternateScreenActive, if alternateScreenActive then [] else [code])
  | .sequence sequence => (screenAfter alternateScreenActive sequence, [])

theorem screenAfter_of_not_csi {sequence : JsString} {active : Bool}
    (other : sequence.take 2 ≠ [escapeUnit, openBracket]) : screenAfter active sequence = active := by
  rw [screenAfter, getTerminalAlternateScreenAction, if_pos (.inl other)]

theorem noteAlternateScreenSequence_quiet {n : Noted} (quiet : NoInputNoted n.filter)
    (sequence : JsString) :
    (n.noteAlternateScreenSequence sequence).filter =
      { n.filter with
        alternateScreenActive := screenAfter n.filter.alternateScreenActive sequence } := by
  unfold Noted.noteAlternateScreenSequence
  by_cases csi : sequence.take 2 ≠ [escapeUnit, openBracket]
  · rw [if_pos csi, screenAfter_of_not_csi csi]
  · rw [if_neg csi, screenAfter]
    have blank := quiet.pendingEcho
    cases getTerminalAlternateScreenAction sequence with
    | none => rfl
    | some action => cases action <;> simp [blank]

variable {f : TerminalOutputTriggerFilter}

theorem NoInputNoted.onScreen (quiet : NoInputNoted f)
    (active : Bool) : NoInputNoted { f with alternateScreenActive := active } :=
  ⟨quiet.1, quiet.2, quiet.3, quiet.4, quiet.5⟩

/-- The loop over a chunk shows each piece and moves the screen, nothing more. -/
theorem foldl_scanPiece {n : Noted} (quiet : NoInputNoted n.filter) (text : JsString)
    (read : List Piece) :
    (read.foldl scanPiece (n, text)).1.filter =
        { n.filter with
          alternateScreenActive :=
            (Tokenizer.interpret showPiece n.filter.alternateScreenActive read).1 } ∧
      (read.foldl scanPiece (n, text)).2 =
        text ++ (Tokenizer.interpret showPiece n.filter.alternateScreenActive read).2 := by
  induction read generalizing n text with
  | nil => exact ⟨rfl, (append_nil text).symm⟩
  | cons piece read ih =>
    rw [foldl_cons, Tokenizer.interpret]
    cases piece with
    | unit code =>
      dsimp only [scanPiece, showPiece]
      by_cases active : n.filter.alternateScreenActive
      · rw [if_pos active, if_pos active]
        exact ih quiet text
      · rw [if_neg active, if_neg active]
        obtain ⟨filter, shown⟩ := ih quiet (text ++ [code])
        exact ⟨filter, by rw [shown, append_assoc]⟩
    | sequence sequence =>
      have moved := noteAlternateScreenSequence_quiet quiet sequence
      have still : NoInputNoted (n.noteAlternateScreenSequence sequence).filter :=
        moved ▸ quiet.onScreen _
      obtain ⟨filter, shown⟩ := ih still text
      rw [moved] at filter shown
      exact ⟨filter, shown⟩

def scanScreen : Bool → JsString → Outcome Bool (Fin 65536) (Fin 65536) := pieces.scan showPiece

theorem scanChunk_quiet {n : Noted} (quiet : NoInputNoted n.filter)
    (blank : n.filter.pendingEscape = []) (chunk input : JsString) :
    let scanned := scanScreen n.filter.alternateScreenActive input
    (scanChunk n chunk input).1.scannableText = scanned.emitted ∧
      (scanChunk n chunk input).2 =
        { n.filter with
          submittedEchoCandidate := [], alternateScreenActive := scanned.state,
          pendingEscape := scanned.held } := by
  obtain ⟨⟨pendingEcho, line, overflowed, submitted, candidate, active, escape, lines, lf⟩, action⟩ := n
  obtain ⟨rfl, rfl, rfl, rfl, rfl⟩ := quiet
  cases blank
  intro scanned
  by_cases empty : input = []
  · subst empty
    have nothing : scanned = ⟨active, [], []⟩ := (pieces.resumable showPiece).nil active
    rw [nothing]
    exact ⟨rfl, rfl⟩
  · have start : NoInputNoted ⟨[], [], overflowed, none, [], active, [], 0, false⟩ :=
      ⟨rfl, rfl, rfl, rfl, rfl⟩
    obtain ⟨filter, shown⟩ :=
      foldl_scanPiece (n := ⟨_, action⟩) start [] (pieces.run input).1
    unfold scanChunk
    dsimp only [stripSubmittedLineEcho]
    rw [if_neg empty, stripUserEcho_nil]
    dsimp only
    by_cases held : (pieces.run input).2 = []
    · rw [if_neg (not_not_intro held), filter, shown]
      refine ⟨rfl, ?_⟩
      simp only [scanned, scanScreen, Tokenizer.scan, held]
    · rw [if_pos held, filter, shown]
      exact ⟨rfl, rfl⟩

/-- A chunk is scanned after what was held back; nothing else changes. -/
theorem processServerChunk_quiet (quiet : NoInputNoted f) (chunk : JsString) :
    let scanned := scanScreen f.alternateScreenActive (f.pendingEscape ++ chunk)
    (f.processServerChunk chunk).1.scannableText = scanned.emitted ∧
      (f.processServerChunk chunk).2 =
        { f with
          submittedEchoCandidate := [], alternateScreenActive := scanned.state,
          pendingEscape := scanned.held } := by
  have idle : ¬ (0 < f.inputEchoSuppressLines ∨ f.inputEchoSuppressPendingLf = true) := by
    rw [quiet.inputEchoSuppressLines, quiet.inputEchoSuppressPendingLf]
    decide
  unfold TerminalOutputTriggerFilter.processServerChunk
  dsimp only
  rw [if_neg idle]
  exact scanChunk_quiet (n := ⟨{ f with pendingEscape := [] }, none⟩)
    ⟨quiet.1, quiet.2, quiet.3, quiet.4, quiet.5⟩ rfl chunk (f.pendingEscape ++ chunk)

theorem NoInputNoted.processServerChunk (quiet : NoInputNoted f)
    (chunk : JsString) : NoInputNoted (f.processServerChunk chunk).2 := by
  rw [(processServerChunk_quiet quiet chunk).2]
  exact ⟨quiet.1, quiet.2, quiet.3, quiet.4, quiet.5⟩

theorem processAll_quiet (quiet : NoInputNoted f) (chunks : List JsString) (shown : JsString) :
    chunks.foldl (feed scanScreen) ⟨f.alternateScreenActive, shown, f.pendingEscape⟩ =
      ⟨(processAll f chunks).2.alternateScreenActive, shown ++ (processAll f chunks).1,
        (processAll f chunks).2.pendingEscape⟩ := by
  induction chunks generalizing f shown with
  | nil => rw [processAll, append_nil, foldl_nil]
  | cons chunk chunks ih =>
    obtain ⟨text, filter⟩ := processServerChunk_quiet quiet chunk
    have later := ih (quiet.processServerChunk chunk)
      (shown ++ (f.processServerChunk chunk).1.scannableText)
    rw [foldl_cons, processAll]
    rw [filter] at later
    dsimp only at later ⊢
    rw [feed, ← text, later, append_assoc, filter]

theorem processAll_eq_scan (quiet : NoInputNoted f)
    (outside : f.pendingEscape = []) (chunks : List JsString) :
    scanScreen f.alternateScreenActive chunks.flatten =
      ⟨(processAll f chunks).2.alternateScreenActive, (processAll f chunks).1,
        (processAll f chunks).2.pendingEscape⟩ := by
  have whole := (pieces.resumable showPiece).feedAll_eq f.alternateScreenActive chunks
  have each := processAll_quiet quiet chunks []
  rw [outside] at each
  rw [scanScreen, ← whole]
  exact each

/-! ## Whole streams -/

theorem run_streamUnits {items : List Item} (known : ∀ item ∈ items, item.Recognised) :
    pieces.run (streamUnits items) = (items.map Item.piece, []) := by
  induction items with
  | nil => exact Tokenizer.run_of_none rfl
  | cons item items ih =>
    have first := nextPiece_of_recognised (known item mem_cons_self) (streamUnits items)
    have later := ih fun item mem => known item (mem_cons_of_mem _ mem)
    change pieces.run (item.units ++ streamUnits items) = _
    rw [Tokenizer.run_of_some (k := pieces) first, later]
    rfl

theorem run_streamUnits_held {items : List Item} (unknown : ¬ ∀ item ∈ items, item.Recognised) :
    (pieces.run (streamUnits items)).2 ≠ [] := by
  induction items with
  | nil => exact absurd (fun item mem => absurd mem not_mem_nil) unknown
  | cons item items ih =>
    rw [streamUnits, flatMap_cons]
    by_cases known : item.Recognised
    · have first := nextPiece_of_recognised known (items.flatMap Item.units)
      rw [Tokenizer.run_of_some (k := pieces) first]
      apply ih
      intro rest
      apply unknown
      rw [forall_mem_cons]
      exact ⟨known, rest⟩
    · have first := nextPiece_of_not_recognised known (items.flatMap Item.units)
      rw [Tokenizer.run_of_none (k := pieces) first]
      cases item with
      | text code plain => exact absurd trivial known
      | csi body final inside closes => exact absurd trivial known
      | osc payload bel inside => exact absurd trivial known
      | escape intermediates final inside closes own => exact cons_ne_nil _ _

theorem interpret_pieces (active : Bool) (items : List Item) :
    (Tokenizer.interpret showPiece active (items.map Item.piece)).2 = visibleText active items := by
  induction items generalizing active with
  | nil => rfl
  | cons item items ih =>
    rw [map_cons, Tokenizer.interpret]
    cases item with
    | text code plain =>
      dsimp only [Item.piece, showPiece]
      rw [ih, visibleText]
      cases active <;> rfl
    | csi body final inside closes => exact ih _
    | osc payload bel inside => exact ih _
    | escape intermediates final inside closes own => exact ih _

/-- Every cut of the stream shows its visible text, holds nothing back, and ends
on the same screen. -/
structure SeesAllOutput (f : TerminalOutputTriggerFilter) (items : List Item) : Prop where
  scannable : ∀ chunks : List JsString, chunks.flatten = streamUnits items →
    (processAll f chunks).1 = visibleText f.alternateScreenActive items
  nothingHeld : ∀ chunks : List JsString, chunks.flatten = streamUnits items →
    (processAll f chunks).2.pendingEscape = []
  sameScreen : ∀ chunks chunks' : List JsString, chunks.flatten = streamUnits items →
    chunks'.flatten = streamUnits items →
    (processAll f chunks).2.alternateScreenActive = (processAll f chunks').2.alternateScreenActive

theorem not_seesAllOutput (quiet : NoInputNoted f)
    (outside : f.pendingEscape = []) {items : List Item}
    (unknown : ¬ ∀ item ∈ items, item.Recognised) : ¬ SeesAllOutput f items := by
  intro sees
  have whole := processAll_eq_scan quiet outside [streamUnits items]
  have none := sees.nothingHeld [streamUnits items] flatten_singleton
  rw [flatten_singleton] at whole
  exact run_streamUnits_held unknown ((congrArg Outcome.held whole).trans none)

/-- The filter sees all output exactly when the stream has no escape sequence with
an intermediate or with a final byte below `0x40`. -/
theorem seesAllOutput_iff {f : TerminalOutputTriggerFilter} (quiet : NoInputNoted f)
    (outside : f.pendingEscape = []) (items : List Item) :
    SeesAllOutput f items ↔ ∀ item ∈ items, item.Recognised := by
  constructor
  · intro sees
    apply Classical.byContradiction
    intro unknown
    exact not_seesAllOutput quiet outside unknown sees
  · intro known
    have scanned : scanScreen f.alternateScreenActive (streamUnits items) =
        ⟨(Tokenizer.interpret showPiece f.alternateScreenActive (items.map Item.piece)).1,
          visibleText f.alternateScreenActive items, []⟩ := by
      rw [scanScreen, Tokenizer.scan, run_streamUnits known, interpret_pieces]
    constructor
    · intro chunks cut
      have whole := processAll_eq_scan quiet outside chunks
      rw [cut, scanned] at whole
      exact (congrArg Outcome.emitted whole).symm
    · intro chunks cut
      have whole := processAll_eq_scan quiet outside chunks
      rw [cut, scanned] at whole
      exact (congrArg Outcome.held whole).symm
    · intro chunks chunks' cut cut'
      have whole := processAll_eq_scan quiet outside chunks
      have whole' := processAll_eq_scan quiet outside chunks'
      rw [cut] at whole
      rw [cut', whole] at whole'
      exact congrArg Outcome.state whole'

/-- A coloured prompt is seen completely. -/
theorem seesAllOutput_iff_colour :
    let colour : Item := .csi [⟨0x33, by decide⟩, ⟨0x32, by decide⟩] ⟨0x6d, by decide⟩
      (List.forall_mem_cons.mpr ⟨by decide, List.forall_mem_singleton.mpr (by decide)⟩) (by decide)
    let prompt : Item := .text ⟨0x24, by decide⟩ (by decide)
    SeesAllOutput createTerminalOutputTriggerFilter [colour, prompt] ↔
      ∀ item ∈ [colour, prompt], item.Recognised :=
  seesAllOutput_iff noInputNoted_create rfl _

/-- `ESC ( B`, which selects the ASCII character set. -/
def selectAscii : Item :=
  .escape [⟨0x28, by decide⟩] ⟨0x42, by decide⟩ (List.forall_mem_singleton.mpr (by decide))
    (by decide) (fun none => absurd none (List.cons_ne_nil _ _))

/-- Behind `ESC ( B` a shell's output is no longer seen. -/
theorem not_seesAllOutput_selectAscii :
    ¬ SeesAllOutput createTerminalOutputTriggerFilter [selectAscii, .text ⟨0x24, by decide⟩ (by decide)] := by
  apply not_seesAllOutput noInputNoted_create rfl
  intro known
  exact cons_ne_nil _ _ (known selectAscii mem_cons_self).1

end Netcatty.OutputTrigger
