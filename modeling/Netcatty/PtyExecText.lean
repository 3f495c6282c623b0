import Netcatty.Numerals

/-!
The text functions of the terminal exec bridge.

Regular expressions are modelled by what they match at a place of the text; those with
the flag `g` by a scan that goes on behind each match.
-/

namespace Netcatty.PtyExec

/-- `s.slice(-limit)`, for a positive limit. -/
def keepLast (limit : ℕ) (s : JsString) : JsString := s.drop (s.length - limit)

def isLineBreak (u : Fin 65536) : Bool := u = carriageReturn || u = lineFeed

/-! ## Removing matches -/

/-- The text without the matches; a match is given by its length, and `skip` characters of
one are still to be left out. -/
def removeMatches (matchLength : JsString → ℕ) : ℕ → JsString → JsString
  | _, [] => []
  | skip + 1, _ :: rest => removeMatches matchLength skip rest
  | 0, u :: rest =>
    match matchLength (u :: rest) with
    | 0 => u :: removeMatches matchLength 0 rest
    | length + 1 => removeMatches matchLength length rest

/-- What follows up to and with the first BEL or `ESC \`. -/
def oscTail : JsString → Option ℕ
  | [] => none
  | u :: rest =>
    if u = bellUnit then some 1
    else if u = escapeUnit ∧ rest.head? = some backslash then some 2
    else (oscTail rest).map (· + 1)

/-- What `ANSI_OSC_REGEX` matches at the front. -/
def oscLength : JsString → ℕ
  | u :: v :: rest =>
    if u = escapeUnit ∧ v = closeBracket then ((oscTail rest).map (· + 2)).getD 0 else 0
  | _ => 0

def isBetween (low high : ℕ) (u : Fin 65536) : Bool := low ≤ u.val && u.val ≤ high

/-- What `ANSI_ESCAPE_REGEX` matches at the front. -/
def csiLength : JsString → ℕ
  | u :: v :: rest =>
    if u = escapeUnit ∧ v = openBracket then
      let parameters := rest.takeWhile (isBetween 0x30 0x3f)
      let intermediates := (rest.drop parameters.length).takeWhile (isBetween 0x20 0x2f)
      let length := parameters.length + intermediates.length
      if (rest.drop length).head?.any (isBetween 0x40 0x7e) then length + 3 else 0
    else 0
  | _ => 0

def stripAnsi (input : JsString) : JsString :=
  removeMatches csiLength 0 (removeMatches oscLength 0 input)

/-! ## Lines and markers -/

/-- `split(/\r?\n/)`. -/
def splitLines : JsString → List JsString
  | [] => [[]]
  | u :: rest =>
    if u = lineFeed then [] :: splitLines rest
    else if u = carriageReturn ∧ rest.head? = some lineFeed then splitLines rest
    else
      match splitLines rest with
      | [] => [[u]]
      | line :: lines => (u :: line) :: lines

def leadingNumber (s : JsString) : Option ℕ :=
  let digits := s.takeWhile isDigit
  if digits = [] then none
  else some (parseDigits 10 digits)

structure EndMarker where
  endIdx : ℕ
  exitCode : ℕ
  deriving DecidableEq

/-- `findEndMarker`, for the text behind `previous`. -/
def findEndMarkerFrom (endPattern : JsString) (allowInline : Bool) :
    Option (Fin 65536) → JsString → Option EndMarker
  | _, [] => none
  | previous, u :: rest =>
    let here :=
      if endPattern.isPrefixOf (u :: rest) && (allowInline || previous.all isLineBreak) then
        leadingNumber ((u :: rest).drop endPattern.length)
      else none
    match here with
    | some exitCode => some ⟨0, exitCode⟩
    | none =>
      (findEndMarkerFrom endPattern allowInline (some u) rest).map fun found =>
        { found with endIdx := found.endIdx + 1 }

def findEndMarker (outputText marker : JsString) (allowInline : Bool) : Option EndMarker :=
  findEndMarkerFrom (marker ++ text "_E:") allowInline none outputText

/-- What `markerPattern` matches at the front: the start marker, the rest of its line, and
the line's end or the end of the text. -/
def startLineLength (startMarker s : JsString) : ℕ :=
  if startMarker.isPrefixOf s then
    let line := (s.drop startMarker.length).takeWhile fun u => !isLineBreak u
    let length := startMarker.length + line.length
    match s.drop length with
    | [] => length
    | [u] => if u = lineFeed then length + 1 else 0
    | u :: v :: _ =>
      if u = lineFeed then length + 1 else if v = lineFeed then length + 2 else 0
  else 0

/-- The place of the last match of `markerPattern`, as the loop over its matches finds it. -/
def lastStartLine (startMarker : JsString) : ℕ → ℕ → JsString → Option ℕ
  | _, _, [] => none
  | skip + 1, index, _ :: rest => lastStartLine startMarker skip (index + 1) rest
  | 0, index, u :: rest =>
    match startLineLength startMarker (u :: rest) with
    | 0 => lastStartLine startMarker 0 (index + 1) rest
    | length + 1 => (lastStartLine startMarker length (index + 1) rest).or (some index)

/-- What follows the first line break, `/\r?\n/`; nothing where there is none. -/
def afterFirstLineBreak : JsString → JsString
  | [] => []
  | u :: rest => if u = lineFeed then rest else afterFirstLineBreak rest

/-! ## Output -/

def appendBoundedOutput (current chunk : JsString) (limit : ℕ) : JsString :=
  if 0 < limit ∧ limit ≤ chunk.length then keepLast limit chunk
  else
    let combined := current ++ chunk
    if limit = 0 ∨ combined.length ≤ limit then combined
    else combined.drop (combined.length - limit)

/-- Does a line start behind this character? -/
def endsLine (u : Fin 65536) : Bool := u.val ∈ [10, 13, 0x2028, 0x2029]

/-- The text without the lines that hold the marker. -/
def stripMarkerLines (marker : JsString) : ℕ → Bool → JsString → JsString
  | _, _, [] => []
  | skip + 1, _, u :: rest => stripMarkerLines marker skip (endsLine u) rest
  | 0, lineStart, u :: rest =>
    let line := (u :: rest).takeWhile fun u => !isLineBreak u
    let breaks := ((u :: rest).drop line.length).takeWhile isLineBreak
    if lineStart && line.tails.any marker.isPrefixOf then
      stripMarkerLines marker (line.length + breaks.length - 1) (endsLine u) rest
    else u :: stripMarkerLines marker 0 (endsLine u) rest

structure NormalizeOptions where
  stripMarkers : Bool
  expectedPrompt : JsString
  trimOutput : Bool
  markerToStrip : JsString

/-- `normalizePtyOutput`, with `stripPrompt`. -/
def normalizePtyOutput (stdout : JsString) (options : NormalizeOptions) : JsString :=
  let plain := (stripAnsi stdout).filter fun u => !(u = carriageReturn)
  let cleaned :=
    if options.stripMarkers then stripMarkerLines options.markerToStrip 0 true plain else plain
  let normalizedPrompt := (stripAnsi options.expectedPrompt).filter fun u => !(u = carriageReturn)
  let cut :=
    if normalizedPrompt ≠ [] ∧ normalizedPrompt.isSuffixOf cleaned then
      cleaned.take (cleaned.length - normalizedPrompt.length)
    else cleaned
  if options.trimOutput then trim cut else cut

end Netcatty.PtyExec
