import Netcatty.JsValue

/-!
The alternate screen as the write coalescer sees it.

A scan of each chunk finds the private CSI sequences that enter or leave the alternate
screen, over chunks that cut them anywhere; latches bridge the time until xterm has
parsed what was queued.
-/

namespace Netcatty.WriteCoalescing

def C1_CSI : Fin 65536 := ⟨155, by decide⟩

def lowerC : Fin 65536 := ⟨99, by decide⟩
def lowerH : Fin 65536 := ⟨104, by decide⟩
def lowerL : Fin 65536 := ⟨108, by decide⟩
def questionMark : Fin 65536 := ⟨63, by decide⟩
def semicolon : Fin 65536 := ⟨59, by decide⟩

def ALT_SCREEN_DECSET : List JsString := [text "47", text "1047", text "1049"]
def MAX_INCOMPLETE_CSI_PARAMS : ℕ := 48

inductive CsiPhase where
  /-- `ESC`. -/
  | escape
  /-- `ESC[`. -/
  | bracket
  /-- `ESC[?` or the 8-bit CSI with `?`. -/
  | privateMode
  /-- The 8-bit CSI alone. -/
  | c1
  deriving DecidableEq

structure IncompletePrivateCsi where
  phase : CsiPhase
  params : JsString
  deriving DecidableEq

inductive AltScreenTransition where
  | enter
  | leave
  deriving DecidableEq

structure AltScreenProbeResult where
  needsRaf : Bool
  incomplete : Option IncompletePrivateCsi
  lastTransition : Option AltScreenTransition
  frameStart : Option ℕ
  normalScreenStart : Option ℕ

/-- The variables of `probeAltScreenScheduling`.  A `sequenceStart` of -1 is `none`. -/
structure AltScreenScan where
  phase : Option CsiPhase
  params : JsString
  lastTransition : Option AltScreenTransition
  sequenceStart : Option ℕ
  frameStart : Option ℕ
  normalScreenStart : Option ℕ

def isPrivateParamCharCode (code : Fin 65536) : Bool :=
  (0x30 ≤ code.val && code.val ≤ 0x39) || code.val == 0x3b

namespace AltScreenScan

/-- Leave the sequence that is being read. -/
def outside (scan : AltScreenScan) : AltScreenScan :=
  { scan with phase := none, params := [], sequenceStart := none }

/-- A character outside every sequence. -/
def start (scan : AltScreenScan) (i : ℕ) (ch : Fin 65536) : AltScreenScan :=
  if ch = escapeUnit then
    { scan with phase := some .escape, params := [], sequenceStart := some i }
  else if ch = C1_CSI then
    { scan with phase := some .c1, params := [], sequenceStart := some i }
  else scan

/-- A complete sequence: `set` for a final `h`. -/
def finishPrivate (scan : AltScreenScan) (set : Bool) (endOffset : ℕ) : AltScreenScan :=
  let parts := (scan.params.splitOn semicolon).filter (· ≠ [])
  if parts.any (· ∈ ALT_SCREEN_DECSET) then
    { scan with
      lastTransition := some (if set then .enter else .leave)
      frameStart :=
        if set ∧ scan.frameStart = none then some (scan.sequenceStart.getD 0) else scan.frameStart
      normalScreenStart := if set then none else some endOffset }.outside
  else scan.outside

/-- One turn of the loop.  A character that ends a sequence it does not belong to is
looked at again, outside of it. -/
def feed (scan : AltScreenScan) (i : ℕ) (ch : Fin 65536) : AltScreenScan :=
  match scan.phase with
  | none => scan.start i ch
  | some .escape =>
    if ch = openBracket then { scan with phase := some .bracket }
    else if ch = lowerC then
      { scan with lastTransition := some .leave, normalScreenStart := some (i + 1) }.outside
    else scan.outside.start i ch
  | some .bracket =>
    if ch = questionMark then { scan with phase := some .privateMode, params := [] }
    else scan.outside.start i ch
  | some .c1 =>
    if ch = questionMark then { scan with phase := some .privateMode, params := [] }
    else scan.outside.start i ch
  | some .privateMode =>
    if isPrivateParamCharCode ch then
      if scan.params.length < MAX_INCOMPLETE_CSI_PARAMS then
        { scan with params := scan.params ++ [ch] }
      else scan
    else if ch = lowerH then scan.finishPrivate true (i + 1)
    else if ch = lowerL then scan.finishPrivate false (i + 1)
    else if ch = escapeUnit ∨ ch = C1_CSI then scan.outside.start i ch
    else scan.outside

def feedAll (scan : AltScreenScan) (i : ℕ) : JsString → AltScreenScan
  | [] => scan
  | ch :: rest => (scan.feed i ch).feedAll (i + 1) rest

/-- The variables before the first character. -/
def resumed (resume : Option IncompletePrivateCsi) : AltScreenScan :=
  { phase := resume.map (·.phase)
    params := match resume with
      | none => []
      | some csi => csi.params
    lastTransition := none
    sequenceStart := if resume.isSome then some 0 else none
    frameStart := none
    normalScreenStart := none }

end AltScreenScan

def probeAltScreenScheduling (data : JsString) (resume : Option IncompletePrivateCsi) :
    AltScreenProbeResult :=
  let scan := (AltScreenScan.resumed resume).feedAll 0 data
  let incomplete := scan.phase.map fun phase => { phase, params := scan.params }
  { needsRaf := scan.lastTransition = some .enter || incomplete.isSome
    incomplete
    lastTransition := scan.lastTransition
    frameStart :=
      if incomplete.isSome ∧ scan.frameStart = none then some (scan.sequenceStart.getD 0)
      else scan.frameStart
    normalScreenStart := scan.normalScreenStart }

/-- A frame that begins after the first character begins in a chunk that has one. -/
theorem ne_nil_of_frameStart {data : JsString} {resume : Option IncompletePrivateCsi} {offset : ℕ}
    (found : (probeAltScreenScheduling data resume).frameStart = some offset)
    (later : 0 < offset) : data ≠ [] := by
  rintro rfl
  have start : (probeAltScreenScheduling [] resume).frameStart = none ∨
      (probeAltScreenScheduling [] resume).frameStart = some 0 := by
    cases resume with
    | none => exact Or.inl rfl
    | some csi => exact Or.inr rfl
  rw [found] at start
  rcases start with no | zero
  · exact Option.some_ne_none _ no
  · exact Nat.ne_of_gt later (Option.some.inj zero)

/-! ## Latches -/

/-- What is remembered of a terminal's alternate screen between chunks. -/
structure AltScreenLatches where
  incompleteAltScreenCsi : Option IncompletePrivateCsi
  pendingAltScreenEntry : Bool
  observedAltScreen : Bool
  pendingAltScreenLeave : Bool
  /-- The one-shot `preappliedAltScreenNeedsRafByTerm`. -/
  preappliedNeedsRaf : Option Bool

namespace AltScreenLatches

def cleared : AltScreenLatches :=
  { incompleteAltScreenCsi := none, pendingAltScreenEntry := false, observedAltScreen := false,
    pendingAltScreenLeave := false, preappliedNeedsRaf := none }

/-- `applyAltScreenScheduleProbeResult`; `alternate` says whether xterm shows the
alternate buffer. -/
def applyAltScreenScheduleProbeResult (latches : AltScreenLatches) (alternate : Bool)
    (probe : AltScreenProbeResult) : Bool × AltScreenLatches :=
  let latches := { latches with incompleteAltScreenCsi := probe.incomplete }
  let latches :=
    match probe.lastTransition with
    | some .leave => { latches with
        pendingAltScreenEntry := false, observedAltScreen := false, pendingAltScreenLeave := true }
    | some .enter => { latches with pendingAltScreenEntry := true, pendingAltScreenLeave := false }
    | none => latches
  if alternate then
    if latches.pendingAltScreenLeave then (true, latches)
    else (true, { latches with observedAltScreen := true, pendingAltScreenEntry := false })
  else
    let latches :=
      if latches.observedAltScreen then
        { latches with observedAltScreen := false, pendingAltScreenEntry := false }
      else latches
    let latches := { latches with pendingAltScreenLeave := false }
    (probe.needsRaf || latches.pendingAltScreenEntry, latches)

def noteAltScreenScheduleProbe (latches : AltScreenLatches) (alternate : Bool) (chunk : JsString) :
    Bool × AltScreenLatches :=
  latches.applyAltScreenScheduleProbeResult alternate
    (probeAltScreenScheduling chunk latches.incompleteAltScreenCsi)

/-- Whether a chunk needs a frame: the probe that was applied to it, or else a new one. -/
def takePreapplied (latches : AltScreenLatches) (alternate : Bool) (nextChunk : JsString) :
    Bool × AltScreenLatches :=
  match latches.preappliedNeedsRaf with
  | some preapplied => (preapplied, { latches with preappliedNeedsRaf := none })
  | none => latches.noteAltScreenScheduleProbe alternate nextChunk

end AltScreenLatches

end Netcatty.WriteCoalescing
