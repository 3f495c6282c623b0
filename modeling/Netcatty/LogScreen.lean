import Netcatty.TerminalRenderer

/-!
The text buffer of the terminal log renderer.

A line is its cells, with the time of the last change.  The buffer is not followed further
once the cursor has left it: the source then throws, or writes outside the array.
-/

namespace Netcatty.TerminalLog

/-! ## Characters -/

/-- `codePointAt(0)`. -/
def codePointAt (ch : JsString) : ℕ :=
  match ch with
  | [] => 0
  | [u] => u.val
  | u :: v :: _ => 0x10000 + (u.val - 0xD800) * 0x400 + (v.val - 0xDC00)

/-- The classes of characters that the language's regular expressions know. -/
structure UnicodeClasses where
  /-- `/[\p{Mn}\p{Me}]/u`. -/
  zeroWidthMark : ℕ → Bool
  /-- `/(?=\p{Cf})\p{Default_Ignorable_Code_Point}/u`. -/
  zeroWidthFormat : ℕ → Bool
  space_visible : zeroWidthMark 32 = false ∧ zeroWidthFormat 32 = false

def fullwidthRanges : List (ℕ × ℕ) := [(12288, 12288), (65281, 65376), (65504, 65510)]

def wideRanges : List (ℕ × ℕ) :=
  [(4352, 4447), (8986, 8987), (9001, 9002), (9193, 9196), (9200, 9200), (9203, 9203),
    (9725, 9726), (9748, 9749), (9776, 9783), (9800, 9811), (9855, 9855), (9866, 9871),
    (9875, 9875), (9889, 9889), (9898, 9899), (9917, 9918), (9924, 9925), (9934, 9934),
    (9940, 9940), (9962, 9962), (9970, 9971), (9973, 9973), (9978, 9978), (9981, 9981),
    (9989, 9989), (9994, 9995), (10024, 10024), (10060, 10060), (10062, 10062), (10067, 10069),
    (10071, 10071), (10133, 10135), (10160, 10160), (10175, 10175), (11035, 11036),
    (11088, 11088), (11093, 11093), (11904, 11929), (11931, 12019), (12032, 12245),
    (12272, 12287), (12289, 12350), (12353, 12438), (12441, 12543), (12549, 12591),
    (12593, 12686), (12688, 12773), (12783, 12830), (12832, 12871), (12880, 42124),
    (42128, 42182), (43360, 43388), (44032, 55203), (63744, 64255), (65040, 65049),
    (65072, 65106), (65108, 65126), (65128, 65131), (94176, 94180), (94192, 94198),
    (94208, 101589), (101631, 101662), (101760, 101874), (110576, 110579), (110581, 110587),
    (110589, 110590), (110592, 110882), (110898, 110898), (110928, 110930), (110933, 110933),
    (110948, 110951), (110960, 111355), (119552, 119638), (119648, 119670), (126980, 126980),
    (127183, 127183), (127374, 127374), (127377, 127386), (127488, 127490), (127504, 127547),
    (127552, 127560), (127568, 127569), (127584, 127589), (127744, 127776), (127789, 127797),
    (127799, 127868), (127870, 127891), (127904, 127946), (127951, 127955), (127968, 127984),
    (127988, 127988), (127992, 128062), (128064, 128064), (128066, 128252), (128255, 128317),
    (128331, 128334), (128336, 128359), (128378, 128378), (128405, 128406), (128420, 128420),
    (128507, 128591), (128640, 128709), (128716, 128716), (128720, 128722), (128725, 128728),
    (128732, 128735), (128747, 128748), (128756, 128764), (128992, 129003), (129008, 129008),
    (129292, 129338), (129340, 129349), (129351, 129535), (129648, 129660), (129664, 129674),
    (129678, 129734), (129736, 129736), (129741, 129756), (129759, 129770), (129775, 129784),
    (131072, 196605), (196608, 262141)]

/-- The search of `inWidthRanges` between `low` and `high`. -/
def searchRanges (codePoint : ℕ) (ranges : List (ℕ × ℕ)) : ℕ → ℕ → ℕ → Bool
  | 0, _, _ => false
  | fuel + 1, low, high =>
    if high ≤ low then false
    else
      let middle := (low + high - 1) / 2
      match ranges[middle]? with
      | none => false
      | some range =>
        if codePoint < range.1 then searchRanges codePoint ranges fuel low middle
        else if range.2 < codePoint then searchRanges codePoint ranges fuel (middle + 1) high
        else true

def inWidthRanges (codePoint : ℕ) (ranges : List (ℕ × ℕ)) : Bool :=
  match ranges.head?, ranges.getLast? with
  | some first, some last =>
    if codePoint < first.1 ∨ last.2 < codePoint then false
    else searchRanges codePoint ranges (ranges.length + 1) 0 ranges.length
  | _, _ => false

variable (classes : UnicodeClasses)

/-- How many cells a character takes. -/
def widthOf (codePoint : ℕ) : ℕ :=
  let zeroWidth := classes.zeroWidthMark codePoint ||
    (codePoint ≠ 0x00ad && classes.zeroWidthFormat codePoint) ||
    (0x1160 ≤ codePoint && codePoint ≤ 0x11ff) || (0xd7b0 ≤ codePoint && codePoint ≤ 0xd7ff)
  if zeroWidth then 0
  else if inWidthRanges codePoint fullwidthRanges || inWidthRanges codePoint wideRanges then 2
  else 1

/-- `#isPrintable`. -/
def isPrintable (ch : JsString) : Bool :=
  ch ≠ [] && 0x20 ≤ codePointAt ch && codePointAt ch ≠ 0x7f

/-! ## Styles -/

inductive Color where
  /-- `ansiColorVar`. -/
  | ansi (index : ℕ)
  /-- `#rrggbb`. -/
  | rgb (r g b : ℕ)
  deriving DecidableEq

structure Style where
  fg : Option Color
  bg : Option Color
  bold : Bool
  italic : Bool
  underline : Bool
  inverse : Bool
  deriving DecidableEq

def createDefaultStyle : Style := ⟨none, none, false, false, false, false⟩

variable (style : Style)

/-- Does `styleToCss` give a declaration? -/
def hasCss : Bool :=
  style.fg.isSome || style.bg.isSome || style.bold || style.italic || style.underline || style.inverse

def colorPart (value : Option ℤ) : Option ℕ :=
  value.bind fun n => if 0 ≤ n ∧ n ≤ 255 then some n.toNat else none

def colorFromRgb (r g b : Option ℤ) : Option Color :=
  (colorPart r).bind fun r => (colorPart g).bind fun g => (colorPart b).map fun b => .rgb r g b

def colorCubeValue (n : ℕ) : ℕ := if n = 0 then 0 else 55 + n * 40

def colorFromAnsi256 (value : Option ℤ) : Option Color :=
  (colorPart value).map fun value =>
    if value < 16 then .ansi value
    else if value < 232 then
      let n := value - 16
      .rgb (colorCubeValue (n / 36)) (colorCubeValue (n % 36 / 6)) (colorCubeValue (n % 6))
    else
      let level := 8 + (value - 232) * 10
      .rgb level level level

/-- `38` sets the foreground, `48` the background; what is no color sets nothing. -/
def Style.setColor (code : ℤ) (color : Option Color) : Style :=
  match color with
  | none => style
  | some color => if code = 38 then { style with fg := some color } else { style with bg := some color }

/-- One code that stands for itself. -/
def Style.applyCode (code : ℤ) : Style :=
  if code = 0 then createDefaultStyle
  else if code = 1 then { style with bold := true }
  else if code = 3 then { style with italic := true }
  else if code = 4 then { style with underline := true }
  else if code = 7 then { style with inverse := true }
  else if code = 22 then { style with bold := false }
  else if code = 23 then { style with italic := false }
  else if code = 24 then { style with underline := false }
  else if code = 27 then { style with inverse := false }
  else if 30 ≤ code ∧ code ≤ 37 then { style with fg := some (.ansi (code - 30).toNat) }
  else if code = 39 then { style with fg := none }
  else if 40 ≤ code ∧ code ≤ 47 then { style with bg := some (.ansi (code - 40).toNat) }
  else if code = 49 then { style with bg := none }
  else if 90 ≤ code ∧ code ≤ 97 then { style with fg := some (.ansi (8 + (code - 90).toNat)) }
  else if 100 ≤ code ∧ code ≤ 107 then { style with bg := some (.ansi (8 + (code - 100).toNat)) }
  else style

/-- `#applySgr`, on the codes that are left; the fuel is their number. -/
def applySgr : ℕ → Style → List (Option ℤ) → Style
  | 0, style, _ => style
  | _ + 1, style, [] => style
  | fuel + 1, style, code :: codes =>
    let code := code.getD 0
    if (code = 38 ∨ code = 48) ∧ codes.head? = some (some 5) then
      applySgr fuel (style.setColor code (colorFromAnsi256 (codes.getD 1 none))) (codes.drop 2)
    else if (code = 38 ∨ code = 48) ∧ codes.head? = some (some 2) then
      applySgr fuel (style.setColor code
        (colorFromRgb (codes.getD 1 none) (codes.getD 2 none) (codes.getD 3 none))) (codes.drop 4)
    else applySgr fuel (style.applyCode code) codes

/-! ## Cells and lines -/

structure Cell where
  ch : JsString
  style : Style
  width : Option ℕ
  continuation : Bool
  deriving DecidableEq

def createCell (ch : JsString) (style : Style) : Cell := ⟨ch, style, none, false⟩

/-- `createCell(" ", createDefaultStyle())`. -/
def blankCell : Cell := createCell (text " ") createDefaultStyle

structure LogLine where
  cells : List Cell
  timestamp : Option ℤ
  deriving DecidableEq

def emptyLine : LogLine := ⟨[], none⟩

/-- A cell at the end of a line that does not show. -/
def isTrailingBlank (cell : Cell) : Bool :=
  !cell.continuation && (cell.ch = [] || cell.ch = text " " || cell.ch = text "\t") && !hasCss cell.style

def getTrimmedLineLength (line : LogLine) : ℕ := (line.cells.reverse.dropWhile isTrailingBlank).length

def trimTrailingBlankLines (lines : List LogLine) : List LogLine :=
  (lines.reverse.dropWhile fun line => getTrimmedLineLength line = 0).reverse

variable (cells : List Cell) (column : ℕ)

/-- `line[column] = cell`, within the line or at its end. -/
def putCell (cell : Cell) : List Cell :=
  if column < cells.length then cells.set column cell else cells ++ [cell]

def clearWideCellAt : List Cell :=
  let start := if cells[column]?.any Cell.continuation then column - 1 else column
  if (cells[start]?.bind Cell.width) = some 2 then
    putCell (putCell cells start blankCell) (start + 1) blankCell
  else cells

def zeroWidthText : JsString :=
  match cells[column]? with
  | some cell => if cell.width = some 0 then cell.ch else []
  | none => []

/-- The cell a zero-width character goes to: the glyph in front of the cursor. -/
def previousCell : Option ℕ :=
  if column = 0 then none
  else if cells[column - 1]?.any Cell.continuation then
    if column = 1 then none else some (column - 2)
  else some (column - 1)

/-- A character that takes no cell of its own. -/
def writeZeroWidth (ch : JsString) : List Cell :=
  match (previousCell cells column).bind fun previous => cells[previous]?.map fun cell => (previous, cell) with
  | some (previous, cell) => putCell cells previous { cell with ch := cell.ch ++ ch }
  | none => putCell cells column ⟨zeroWidthText cells column ++ ch, style, some 0, false⟩

/-- A character that takes one cell or two. -/
def writeGlyph (width : ℕ) (cells : List Cell) (column : ℕ) (ch : JsString) :
    List Cell :=
  let front := zeroWidthText cells column
  let cleared := (List.range width).foldl (fun cells offset => clearWideCellAt cells (column + offset)) cells
  let written := putCell cleared column ⟨front ++ ch, style, some width, false⟩
  if width = 2 then putCell written (column + 1) ⟨[], style, none, true⟩ else written

/-- One turn of the loop of `#writeText`: the cells and the column. -/
def writeCharacter (state : List Cell × ℕ) (ch : JsString) :
    List Cell × ℕ :=
  let width := widthOf classes (codePointAt ch)
  if width = 0 then (writeZeroWidth style state.1 state.2 ch, state.2)
  else (writeGlyph style width state.1 state.2 ch, state.2 + width)

/-! ## The screen -/

structure PendingScreen where
  lines : List LogLine
  baseRow : ℕ

structure LogScreen where
  lines : List LogLine
  row : ℤ
  col : ℤ
  screenBaseRow : ℕ
  style : Style
  cursorMovedHomeByCsi : Bool
  justStartedLogScreen : Bool
  hasPreservedScreenHistory : Bool
  pendingClearedScreen : Option PendingScreen
  timestamp : Option ℤ

namespace LogScreen

def create : LogScreen :=
  ⟨[emptyLine], 0, 0, 0, createDefaultStyle, false, false, false, none, none⟩

variable (screen : LogScreen)

def ensureLine : LogScreen :=
  { screen with
    lines := screen.lines ++
      List.replicate (screen.row + 1 - screen.lines.length).toNat emptyLine }

def currentLine : LogLine := screen.lines.getD screen.row.toNat emptyLine

def setCurrentLine (line : LogLine) : LogScreen :=
  { screen with lines := screen.lines.set screen.row.toNat line }

/-- The time of a change, where it is known. -/
def stamp (line : LogLine) : Option ℤ := screen.timestamp.or line.timestamp

def writeText (chars : List JsString) : LogScreen :=
  let screen := screen.ensureLine
  let line := screen.currentLine
  let padded := line.cells ++ List.replicate (screen.col.toNat - line.cells.length) blankCell
  let written := chars.foldl (writeCharacter classes screen.style) (padded, screen.col.toNat)
  { screen.setCurrentLine ⟨written.1, screen.stamp line⟩ with
    col := written.2, cursorMovedHomeByCsi := false, justStartedLogScreen := false }

def changesContent (line : LogLine) (mode : ℤ) : Bool :=
  if mode = 1 then
    (line.cells.take (min (screen.col.toNat + 1) (getTrimmedLineLength line))).any fun cell =>
      cell.ch ≠ text " " || cell.style ≠ createDefaultStyle
  else if mode = 2 then 0 < getTrimmedLineLength line
  else screen.col.toNat < getTrimmedLineLength line

/-- One turn of the loop that blanks the cells up to the cursor. -/
def blankAt : List Cell :=
  putCell (clearWideCellAt cells column) column blankCell

def eraseLine (mode : ℤ) : LogScreen :=
  let screen := screen.ensureLine
  let line := screen.currentLine
  let time := if screen.changesContent line mode then screen.stamp line else line.timestamp
  if mode = 1 then
    let blanked := (List.range (min (screen.col.toNat + 1) line.cells.length)).foldl blankAt line.cells
    screen.setCurrentLine ⟨blanked, time⟩
  else if mode = 2 then screen.setCurrentLine emptyLine
  else
    let cleared :=
      if line.cells[screen.col.toNat]?.any Cell.continuation then
        clearWideCellAt line.cells screen.col.toNat
      else line.cells
    screen.setCurrentLine ⟨cleared.take screen.col.toNat, time⟩

def blankLines (lines : List LogLine) (first last : ℕ) : List LogLine :=
  lines.mapIdx fun index line => if first ≤ index ∧ index < last then emptyLine else line

def currentLogScreenHasContent : Bool :=
  (screen.lines.drop screen.screenBaseRow).any fun line => 0 < getTrimmedLineLength line

def clearCurrentLogScreen (keepPending : Bool) : LogScreen :=
  let pending :=
    if keepPending && screen.currentLogScreenHasContent then
      some ⟨screen.lines.drop screen.screenBaseRow, screen.screenBaseRow⟩
    else if !keepPending then none
    else screen.pendingClearedScreen
  { { screen with
      pendingClearedScreen := pending
      lines := blankLines screen.lines screen.screenBaseRow screen.lines.length
      row := max screen.screenBaseRow screen.row }.ensureLine with
    cursorMovedHomeByCsi := false, justStartedLogScreen := true }

/-- `#buildLinesWithPendingClearedScreen`: the lines, and the base row of the screen. -/
def buildLinesWithPendingClearedScreen (pending : PendingScreen) :
    List LogLine × ℕ :=
  let front := screen.lines.take pending.baseRow
  let activeLines := screen.lines.drop pending.baseRow
  let pendingLines := trimTrailingBlankLines pending.lines
  (front ++ pendingLines ++ [emptyLine] ++ (if activeLines.isEmpty then [emptyLine] else activeLines),
    front.length + pendingLines.length + 1)

def commitPendingClearedScreen : LogScreen :=
  match screen.pendingClearedScreen with
  | none => screen
  | some pending =>
    let relativeRow := max 0 (screen.row - pending.baseRow)
    let (lines, screenBaseRow) := screen.buildLinesWithPendingClearedScreen pending
    { { screen with
        lines := lines, screenBaseRow := screenBaseRow
        row := screenBaseRow + relativeRow }.ensureLine with
      cursorMovedHomeByCsi := false, justStartedLogScreen := true, hasPreservedScreenHistory := true
      pendingClearedScreen := none }

def startNewLogScreen : LogScreen :=
  if screen.justStartedLogScreen then screen
  else
    let hasContent := screen.lines.any fun line => 0 < getTrimmedLineLength line
    let lines := if hasContent then screen.lines ++ [emptyLine] else [emptyLine]
    { screen with
      lines := lines, row := lines.length - 1, screenBaseRow := lines.length - 1, col := 0
      cursorMovedHomeByCsi := false, justStartedLogScreen := true
      hasPreservedScreenHistory := hasContent, pendingClearedScreen := none }

def eraseDisplay (mode : ℤ) : LogScreen :=
  let screen := screen.ensureLine
  if mode = 3 then screen.commitPendingClearedScreen
  else if mode = 2 then
    if screen.hasPreservedScreenHistory then screen.clearCurrentLogScreen true
    else screen.startNewLogScreen
  else if mode = 1 then
    ({ screen with
      lines := blankLines screen.lines screen.screenBaseRow screen.row.toNat }).eraseLine 1
  else if screen.row = screen.screenBaseRow ∧ screen.col = 0 ∧ screen.cursorMovedHomeByCsi ∧
      !screen.hasPreservedScreenHistory then screen.startNewLogScreen
  else
    let erased := screen.eraseLine 0
    { erased with lines := erased.lines.take (erased.row.toNat + 1) }

def applyRisReset : LogScreen :=
  let kept := trimTrailingBlankLines screen.lines
  let lines := kept ++ [emptyLine]
  { screen with
    style := createDefaultStyle, pendingClearedScreen := none, lines := lines, row := kept.length, col := 0
    screenBaseRow := kept.length, hasPreservedScreenHistory := !kept.isEmpty
    cursorMovedHomeByCsi := false, justStartedLogScreen := true }

/-- `value || 1`. -/
def orOne (value : Option ℤ) : ℤ :=
  match value with
  | none => 1
  | some n => if n = 0 then 1 else n

/-- `#applyCsi`, behind the switches of screens. -/
def applyCsi (final : Fin 65536) (values : List (Option ℤ)) : LogScreen :=
  let n := orOne (values.getD 0 none)
  let mode := (values.getD 0 none).getD 0
  if final.val = 'A'.toNat then
    { screen with
      row := max screen.screenBaseRow (screen.row - n), cursorMovedHomeByCsi := false }.ensureLine
  else if final.val = 'B'.toNat then
    { screen with row := screen.row + n, cursorMovedHomeByCsi := false }.ensureLine
  else if final.val = 'E'.toNat then
    { screen with row := screen.row + n, col := 0, cursorMovedHomeByCsi := false }.ensureLine
  else if final.val = 'C'.toNat then
    { screen with col := screen.col + n, cursorMovedHomeByCsi := false }
  else if final.val = 'D'.toNat then
    { screen with col := max 0 (screen.col - n), cursorMovedHomeByCsi := false }
  else if final.val = 'F'.toNat then
    { screen with
      row := max screen.screenBaseRow (screen.row - n), col := 0
      cursorMovedHomeByCsi := false }.ensureLine
  else if final.val = 'G'.toNat then
    { screen with col := max 0 (n - 1), cursorMovedHomeByCsi := false }
  else if final.val = 'H'.toNat ∨ final.val = 'f'.toNat then
    let row := screen.screenBaseRow + max 0 (n - 1)
    let col := max 0 (orOne (values.getD 1 none) - 1)
    { screen with
      row := row, col := col
      cursorMovedHomeByCsi := row = screen.screenBaseRow ∧ col = 0 }.ensureLine
  else if final.val = 'J'.toNat then screen.eraseDisplay mode
  else if final.val = 'K'.toNat then screen.eraseLine mode
  else if final.val = 'm'.toNat then
    { screen with style := applySgr (values.length + 1) screen.style values }
  else screen

def apply : Drawing → LogScreen
  | .backspace => { screen with col := max 0 (screen.col - 1) }
  | .carriageReturn => { screen with col := 0, cursorMovedHomeByCsi := false }
  | .lineFeed => { screen with row := screen.row + 1, col := 0, cursorMovedHomeByCsi := false }.ensureLine
  | .tab => screen.writeText classes (List.replicate (8 - screen.col.toNat % 8) (text " "))
  | .character ch => if isPrintable ch then screen.writeText classes [ch] else screen
  | .reset => screen.applyRisReset
  | .control final values => screen.applyCsi final values

/-- One drawing; there is no screen once the cursor was outside the buffer. -/
def draw (screen : Option LogScreen) (drawing : Drawing) : Option LogScreen :=
  screen.bind fun screen =>
    if screen.row < 0 ∨ screen.col < 0 then none else some (screen.apply classes drawing)

end LogScreen

end Netcatty.TerminalLog
