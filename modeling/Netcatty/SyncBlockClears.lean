import Mathlib.Data.List.Infix
import Netcatty.JsValue

/-!
The filter that softens full-screen clears inside synchronized-output blocks.

While the user reads scrollback, the `ESC [ 2 J` behind a cursor-home inside a
block is dropped.  The cursor-home is held until the clear confirms the redraw,
and text that may be cut inside an escape sequence waits in `pending` for the
next chunk.
-/

namespace Netcatty.SyncBlock

open List

structure SyncBlockFilterState where
  inSyncBlock : Bool
  pending : JsString
  /-- Leading cursor-home held until a clear confirms a full redraw. -/
  pendingCursorHome : Option JsString
  /-- `none` is unknown, `some true` strips further clears of the block, and
  `some false` passes the rest of it through. -/
  fullRedrawBlock : Option Bool
  deriving DecidableEq

def createSyncBlockFilterState : SyncBlockFilterState := ⟨false, [], none, none⟩

def SYNC_BLOCK_SCROLLBACK_STRIP_MIN_ROWS : ℤ := 2

def SYNC_START : JsString := text "\x1b[?2026h"
def SYNC_END : JsString := text "\x1b[?2026l"
def CLEAR : JsString := text "\x1b[2J"
def CURSOR_HOME : JsString := text "\x1b[H"
def CURSOR_HOME_EXPLICIT : JsString := text "\x1b[1;1H"

def MARKERS : List JsString := [SYNC_START, SYNC_END, CLEAR, CURSOR_HOME, CURSOR_HOME_EXPLICIT]

/-- What `SYNC_START` and `SYNC_END` share. -/
def SYNC_PREFIX : JsString := text "\x1b[?2026"

def maxMarkerPrefixLength : ℕ := (MARKERS.map List.length).foldl max 0 - 1

/-! ## What a chunk may leave unfinished -/

def isCsiFinal (code : Fin 65536) : Bool := 0x40 ≤ code.val ∧ code.val ≤ 0x7e

/-- What follows the first final byte. -/
def afterCsiFinal : JsString → Option JsString
  | [] => none
  | code :: rest => if isCsiFinal code then some rest else afterCsiFinal rest

theorem afterCsiFinal_shrinks {input rest : JsString} (found : afterCsiFinal input = some rest) :
    rest.length < input.length := by
  induction input with
  | nil => cases found
  | cons code input ih =>
    rw [afterCsiFinal] at found
    by_cases final : isCsiFinal code
    · rw [if_pos final] at found
      cases found
      exact Nat.lt_succ_self _
    · rw [if_neg final] at found
      exact Nat.lt_succ_of_lt (ih found)

/-- The loop of `isIncompleteEscapePrefix`. -/
def endsIncomplete (suffix : JsString) : Bool :=
  match suffix with
  | [] => false
  | code :: rest =>
    if code = escapeUnit ∧ rest.head? = some openBracket then
      match _found : afterCsiFinal rest.tail with
      | none => true
      | some after => endsIncomplete after
    else if code = escapeUnit ∧ rest = [] then true
    else endsIncomplete rest
  termination_by suffix.length
  decreasing_by
    · have shorter := afterCsiFinal_shrinks _found
      simp only [List.length_tail, List.length_cons] at shorter ⊢
      omega
    · exact Nat.lt_succ_self _

def isIncompleteEscapePrefix (suffix : JsString) : Bool :=
  suffix.head? = some escapeUnit && endsIncomplete suffix

variable (input : JsString)

def hasCsiFinalByte : Bool := input.any isCsiFinal

/-- What follows the last `ESC [`. -/
def afterLastCsiIntro : JsString → Option JsString
  | [] => none
  | code :: rest =>
    match afterLastCsiIntro rest with
    | some after => some after
    | none => if code = escapeUnit ∧ rest.head? = some openBracket then some rest.tail else none

def mayEndWithIncompleteEscape : Bool :=
  if input = [] then false
  else if input.getLast? = some escapeUnit then true
  else (afterLastCsiIntro input).any fun after => !hasCsiFinalByte after

def longestSuffix (holds : JsString → Bool) (input : JsString) : ℕ → Option ℕ
  | 0 => none
  | length + 1 =>
    if holds (input.drop (input.length - (length + 1))) then some (length + 1)
    else longestSuffix holds input length

/-- A proper prefix of a marker. -/
def startsMarker (suffix : JsString) : Bool :=
  MARKERS.any fun marker => suffix <+: marker ∧ suffix.length < marker.length

structure PendingSplit where
  emit : JsString
  pending : JsString
  deriving DecidableEq

/-- `{ emit: input.slice(0, -length), pending: input.slice(-length) }`. -/
def splitLast (length : ℕ) : PendingSplit :=
  ⟨input.take (input.length - length), input.drop (input.length - length)⟩

def splitPendingMarkerSuffix : PendingSplit :=
  match longestSuffix startsMarker input (min input.length maxMarkerPrefixLength) with
  | some length => splitLast input length
  | none =>
    if !mayEndWithIncompleteEscape input then ⟨input, []⟩
    else
      match longestSuffix isIncompleteEscapePrefix input input.length with
      | some length => splitLast input length
      | none => ⟨input, []⟩

/-! ## Scrolling -/

inductive BufferType where
  | normal
  | alternate
  deriving DecidableEq

/-- `term.buffer.active`. -/
structure ActiveBuffer where
  type : BufferType
  baseY : ℤ
  viewportY : ℤ

/-- A terminal, whose buffer may be missing. -/
structure XTerm where
  active : Option ActiveBuffer

def isTerminalViewportScrolledUp (term : XTerm) : Bool :=
  match term.active with
  | none => false
  | some buffer =>
    if buffer.type ≠ .normal then false
    else buffer.baseY - buffer.viewportY ≥ SYNC_BLOCK_SCROLLBACK_STRIP_MIN_ROWS

def shouldStripFullRedrawClear (term : Option XTerm) : Bool := term.any isTerminalViewportScrolledUp

/-! ## Scanning -/

def readBlockCursorHome : Option (JsString × JsString) :=
  if CURSOR_HOME_EXPLICIT <+: input then
    some (CURSOR_HOME_EXPLICIT, input.drop CURSOR_HOME_EXPLICIT.length)
  else if CURSOR_HOME <+: input then some (CURSOR_HOME, input.drop CURSOR_HOME.length)
  else none

variable (state : SyncBlockFilterState)

def resetSyncBlockState : SyncBlockFilterState :=
  { state with inSyncBlock := false, pendingCursorHome := none, fullRedrawBlock := none }

/-- What `releasePendingCursorHome` appends to the result. -/
def heldHome : JsString := state.pendingCursorHome.getD []

/-- A way to cut the input before the next place of interest. -/
structure Hop where
  run : JsString → JsString × JsString
  whole : ∀ input, (run input).1 ++ (run input).2 = input

/-- The input before and from the first occurrence of a pattern. -/
def splitBefore (pattern : JsString) : JsString → JsString × JsString
  | [] => ([], [])
  | code :: rest =>
    if pattern <+: code :: rest then ([], code :: rest)
    else
      let split := splitBefore pattern rest
      (code :: split.1, split.2)

/-- A hop to the next `indexOf` of a pattern, or to the end. -/
def hopTo (pattern : JsString) : Hop where
  run := splitBefore pattern
  whole input := by
    induction input with
    | nil => rfl
    | cons code rest ih =>
      rw [splitBefore]
      by_cases here : pattern <+: code :: rest
      · rw [if_pos here, List.nil_append]
      · rw [if_neg here, List.cons_append, ih]

/-- Text the scan does not look into: outside a block, or in one that passes. -/
def passesThrough : Bool :=
  !state.inSyncBlock || state.fullRedrawBlock = some false

/-- What one round of the scan emits and leaves to scan. -/
structure Round where
  output : JsString
  state : SyncBlockFilterState
  startedSyncBlock : Bool
  rest : JsString

/-- One round of the loop of `scanSyncBlockClears` at the unit `first`; `outside`
and `inside` say how far a span of plain text reaches. -/
def scanRound (outside inside : Hop) (strip : Bool) (state : SyncBlockFilterState)
    (first : Fin 65536) (after : JsString) : Round :=
  let input := first :: after
  if SYNC_START <+: input then
    ⟨SYNC_START, { resetSyncBlockState state with inSyncBlock := true }, true,
      input.drop SYNC_START.length⟩
  else if SYNC_END <+: input then
    ⟨heldHome state ++ SYNC_END, resetSyncBlockState state, false, input.drop SYNC_END.length⟩
  else if passesThrough state then
    ⟨first :: (outside.run after).1, state, false, (outside.run after).2⟩
  else
    match readBlockCursorHome input with
    | some home =>
      -- a redundant home of a full redraw is dropped
      if state.fullRedrawBlock = some true then ⟨[], state, false, home.2⟩
      else if !strip then ⟨home.1, state, false, home.2⟩
      else ⟨[], { state with pendingCursorHome := some home.1 }, false, home.2⟩
    | none =>
      if CLEAR <+: input then
        let rest := input.drop CLEAR.length
        match state.pendingCursorHome with
        | some home =>
          if strip then
            ⟨home, { state with pendingCursorHome := none, fullRedrawBlock := some true }, false,
              rest⟩
          else
            ⟨home ++ CLEAR, { state with pendingCursorHome := none, fullRedrawBlock := none }, false,
              rest⟩
        | none =>
          if state.fullRedrawBlock = some true then ⟨[], state, false, rest⟩
          else if !strip then ⟨CLEAR, state, false, rest⟩
          else ⟨CLEAR, { state with fullRedrawBlock := some false }, false, rest⟩
      else
        ⟨heldHome state ++ first :: (inside.run after).1, { state with pendingCursorHome := none },
          false, (inside.run after).2⟩

theorem Hop.length_le (hop : Hop) (input : JsString) : (hop.run input).2.length ≤ input.length := by
  have whole := congrArg List.length (hop.whole input)
  rw [length_append] at whole
  omega

theorem drop_shrinks {marker : JsString} (long : 0 < marker.length) (first : Fin 65536)
    (after : JsString) : ((first :: after).drop marker.length).length ≤ after.length := by
  rw [length_drop, length_cons]
  omega

theorem readBlockCursorHome_shrinks {first : Fin 65536} {after : JsString}
    {home : JsString × JsString} (found : readBlockCursorHome (first :: after) = some home) :
    home.2.length ≤ after.length := by
  unfold readBlockCursorHome at found
  split at found
  · cases found
    exact drop_shrinks (by decide) first after
  · split at found
    · cases found
      exact drop_shrinks (by decide) first after
    · cases found

theorem scanRound_shrinks (outside inside : Hop) (strip : Bool) (state : SyncBlockFilterState)
    (first : Fin 65536) (after : JsString) :
    (scanRound outside inside strip state first after).rest.length ≤ after.length := by
  unfold scanRound
  dsimp only
  split
  · exact drop_shrinks (by decide) first after
  · split
    · exact drop_shrinks (by decide) first after
    · split
      · exact outside.length_le after
      · split
        · rename_i home found
          have shorter := readBlockCursorHome_shrinks found
          split
          · exact shorter
          · split <;> exact shorter
        · split
          · have shorter : ((first :: after).drop CLEAR.length).length ≤ after.length :=
              drop_shrinks (by decide) first after
            split
            · split <;> exact shorter
            · split
              · exact shorter
              · split <;> exact shorter
          · exact inside.length_le after

/-- What a scan emits and the state it ends in. -/
structure Scanned where
  output : JsString
  state : SyncBlockFilterState
  startedSyncBlock : Bool
  deriving DecidableEq

/-- The loop of `scanSyncBlockClears`. -/
def scanWith (outside inside : Hop) (strip : Bool) (state : SyncBlockFilterState)
    (input : JsString) : Scanned :=
  match input with
  | [] => ⟨[], state, false⟩
  | first :: after =>
    let now := scanRound outside inside strip state first after
    let later := scanWith outside inside strip now.state now.rest
    ⟨now.output ++ later.output, later.state, now.startedSyncBlock || later.startedSyncBlock⟩
  termination_by input.length
  decreasing_by exact Nat.lt_succ_of_le (scanRound_shrinks ..)

def scanSyncBlockClears (strip : Bool) (state : SyncBlockFilterState) (input : JsString) : Scanned :=
  scanWith (hopTo SYNC_PREFIX) (hopTo [escapeUnit]) strip state input

def filterSyncBlockClearsWithMeta (data : JsString) (state : SyncBlockFilterState)
    (term : Option XTerm) : Scanned :=
  if state.inSyncBlock = false ∧ state.pending = [] ∧ escapeUnit ∉ data then ⟨data, state, false⟩
  else
    let split := splitPendingMarkerSuffix (state.pending ++ data)
    let state := { state with pending := split.pending }
    if split.emit = [] then ⟨[], state, false⟩
    else scanSyncBlockClears (shouldStripFullRedrawClear term) state split.emit

end Netcatty.SyncBlock
