import Netcatty.LogScreen
import Netcatty.Osc133Markers
import Netcatty.PromptTail

/-!
Shell-integration tracking of a session's prompt.

Each marker is consumed once, when its terminator arrives, in a window that slides
over the output; what the session then knows is what a replay of the whole output
finds (`tracking_agrees_with_replay`).  The cursor of the prompt is read with the
terminal log renderer, and where that throws, the rest of the chunk is lost.
-/

namespace Netcatty.Osc133

open List Option Bool

open TerminalLog (MAX_PROMPT_TRACK_TAIL PromptTracking UnicodeClasses alternateScreenActiveAfter evicted)
open WriteCoalescing (semicolon)

/-! ## The cursor -/

structure CursorState where
  line : JsString
  column : ℤ
  deriving DecidableEq

/-- `cellText`. -/
def cellText (cell : TerminalLog.Cell) : JsString :=
  if cell.continuation then [] else if cell.ch = [] then text " " else cell.ch

/-- `getCursorLine`. -/
def getCursorLine (screen : TerminalLog.LogScreen) : JsString :=
  if screen.row < 0 then [] else ((screen.lines.getD screen.row.toNat TerminalLog.emptyLine).cells.map cellText).flatten

/-- Where the terminal log renderer leaves the cursor; `none` once it has drawn with the cursor outside
its buffer, where it throws or goes on beside its lines. -/
def terminalCursorState (classes : UnicodeClasses) (terminalData : JsString)
    (alternateScreenActive : Bool) : Option CursorState :=
  let renderer := (TerminalLog.TerminalTextRenderer.create (some TerminalLog.LogScreen.create)
    alternateScreenActive).feed (TerminalLog.LogScreen.draw classes) terminalData
  renderer.screen.map fun screen =>
    let screen := screen.commitPendingClearedScreen
    if renderer.alternateScreenActive then ⟨[], 0⟩ else ⟨getCursorLine screen, screen.col⟩

/-- `terminalCursorState`; `none` where it throws. -/
abbrev CursorReader := JsString → Bool → Option CursorState

/-! ## The session -/

/-- The fields that follow the prompt; what is not set is `none` where `null` is. -/
structure Session extends PromptTracking where
  osc133Ready : Option Bool
  osc133PromptStart : Option ℤ
  osc133PromptAltScreenAtStart : Bool
  osc133PromptLine : Option JsString
  osc133PromptColumn : Option ℤ
  osc133PromptEnd : Option ℤ
  osc133PromptContinued : Bool
  osc133PromptRedrawPending : Bool

/-- A session that has seen no output. -/
def freshSession : Session :=
  ⟨TerminalLog.freshSession, none, none, false, none, none, none, false, false⟩

def isOsc133PrimaryPrompt (marker : Osc133Marker) : Bool :=
  marker.kind = .A && !(marker.params.any fun params => (params.splitOnP (· == semicolon)).contains (text "k=s"))

def computeOsc133ReadyState (tail : JsString) : Option Bool :=
  if tail = [] then none
  else
    (matchAll 0 0 tail).foldl (fun ready found =>
      if found.marker.kind ≠ .B then some (isOsc133PrimaryPrompt found.marker) else ready) none

structure PromptView where
  tail : JsString
  alternateScreenActive : Bool
  deriving DecidableEq

def promptTrackingView (session : Session) : PromptView :=
  let tail := session.promptTrackTail
  if tail = [] then ⟨[], false⟩
  else if session.osc133Ready = some true then
    ⟨match session.osc133PromptStart with
      | some start => if 0 ≤ start then tail.drop start.toNat else []
      | none => [],
      session.osc133PromptAltScreenAtStart⟩
  else ⟨tail, session.promptTrackAltScreenAtTailStart⟩

section Tracking

variable (cursor : CursorReader)

/-- Is the input behind the prompt still empty? `none` where the cursor cannot be read. -/
def matchesOsc133EmptyPrompt (session : Session) (view : PromptView) : Option Bool :=
  if session.osc133PromptRedrawPending then some false
  else
    match session.osc133PromptLine with
    | none => some true
    | some line =>
      if session.osc133PromptContinued then some false
      else
        (cursor view.tail view.alternateScreenActive).map fun cursor =>
          some cursor.column = session.osc133PromptColumn && cursor.line = line

def priorSession (combined : JsString) (session : Session) (found : Osc133Match) : Session :=
  { session with promptTrackTail := combined.take found.index }

/-- What a primary prompt leaves in `_osc133PromptRedrawPending`. -/
def redrawPending (combined : JsString) (session : Session) (found : Osc133Match) : Option Bool :=
  if session.osc133PromptRedrawPending then some true
  else if session.osc133Ready = some true ∧ session.osc133PromptLine ≠ none then
    let prior := priorSession combined session found
    (matchesOsc133EmptyPrompt cursor prior (promptTrackingView prior)).map (!·)
  else some false

/-- One turn of the loop over the markers; `none` where the cursor cannot be read. -/
def consumeMarker (combined : JsString) (session : Session) (found : Osc133Match) : Option Session :=
  if isOsc133PrimaryPrompt found.marker then
    (redrawPending cursor combined session found).map fun pending =>
      { session with
        osc133PromptRedrawPending := pending
        osc133Ready := some true
        osc133PromptStart := some found.stop
        osc133PromptAltScreenAtStart :=
          alternateScreenActiveAfter (combined.take found.stop) session.promptTrackAltScreenAtTailStart
        osc133PromptLine := none
        osc133PromptEnd := some (-1)
        osc133PromptContinued := false }
  else if found.marker.kind = .B then
    match session.osc133PromptStart with
    | some start =>
      if session.osc133Ready = some true ∧ 0 ≤ start then
        (cursor ((combined.take found.stop).drop start.toNat) session.osc133PromptAltScreenAtStart).map
          fun cursor =>
            { session with
              osc133PromptLine := some cursor.line
              osc133PromptColumn := some cursor.column
              osc133PromptEnd := some found.stop }
      else some session
    | none => some session
  else
    some { session with
      osc133PromptRedrawPending := found.marker.kind = .A
      osc133Ready := some false
      osc133PromptLine := none
      osc133PromptStart := some (-1)
      osc133PromptEnd := some (-1) }

/-- The loop over the markers; what a turn that throws leaves is an error. -/
def consumeMarkers (combined : JsString) (session : Session) : List Osc133Match → Except Session Session
  | [] => .ok session
  | found :: rest =>
    match consumeMarker cursor combined session found with
    | none => .error session
    | some session => consumeMarkers combined session rest

/-- The markers whose terminators arrive with the chunk. -/
def newMarkers (previousTail chunk : JsString) : List Osc133Match :=
  (matchAll 0 0 (previousTail ++ chunk)).filter fun found => previousTail.length < found.stop

def noteContinuation (previousTail chunk : JsString) (session : Session) : Session :=
  if session.osc133PromptLine = none then session
  else
    let inputStart := max (previousTail.length : ℤ) (session.osc133PromptEnd.getD 0)
    if ((previousTail ++ chunk).drop inputStart.toNat).contains lineFeed then
      { session with osc133PromptContinued := true }
    else session

/-- Keep the end of the text, and move the offsets with it. -/
def slideTail (chunk : JsString) (session : Session) : Session :=
  let overflow := (session.promptTrackTail ++ chunk).length - MAX_PROMPT_TRACK_TAIL
  let moved := fun offset : ℤ => if 0 < overflow then max (-1) (offset - overflow) else offset
  { session with
    toPromptTracking := TerminalLog.trackSessionIdlePrompt session.toPromptTracking chunk
    osc133PromptStart := session.osc133PromptStart.map moved
    osc133PromptEnd := session.osc133PromptEnd.map moved }

/-- The session behind a chunk, also when the call throws. -/
def trackSessionIdlePrompt (session : Session) (chunk : JsString) : Session :=
  if chunk = [] then session
  else
    let previousTail := session.promptTrackTail
    match consumeMarkers cursor (previousTail ++ chunk) session (newMarkers previousTail chunk) with
    | .error session => session
    | .ok session => slideTail chunk (noteContinuation previousTail chunk session)

def trackChunks (session : Session) (chunks : List JsString) : Session :=
  chunks.foldl (trackSessionIdlePrompt cursor) session

end Tracking

/-! ## The replay -/

/-- What the markers say about readiness. -/
def replayReady (seen : List Osc133Match) : Option Bool :=
  seen.foldl (fun ready found =>
    if found.marker.kind ≠ .B then some (isOsc133PrimaryPrompt found.marker) else ready) none

def lastPrimary (seen : List Osc133Match) : Option Osc133Match :=
  (seen.filter fun found => isOsc133PrimaryPrompt found.marker).getLast?

theorem computeOsc133ReadyState_eq (tail : JsString) :
    computeOsc133ReadyState tail = replayReady (everyMatch 0 tail) := by
  unfold computeOsc133ReadyState replayReady
  split
  · rename_i nothing
    rw [nothing]
    rfl
  · rw [matchAll_eq]

theorem kind_of_primary {marker : Osc133Marker} (primary : isOsc133PrimaryPrompt marker) :
    marker.kind = .A := by
  simp only [isOsc133PrimaryPrompt, and_eq_true, decide_eq_true_eq] at primary
  exact primary.1

theorem replayReady_append (seen : List Osc133Match) (found : Osc133Match) :
    replayReady (seen ++ [found]) = if found.marker.kind ≠ .B then
      some (isOsc133PrimaryPrompt found.marker) else replayReady seen := by
  rw [replayReady, foldl_append]
  rfl

theorem lastPrimary_append (seen : List Osc133Match) (found : Osc133Match) :
    lastPrimary (seen ++ [found]) =
      if isOsc133PrimaryPrompt found.marker then some found else lastPrimary seen := by
  unfold lastPrimary
  rw [filter_append]
  split
  · rename_i primary
    simp [primary]
  · rename_i other
    simp [other]

/-- The session knows what these markers say; `base` is where its text starts. -/
structure Tracks (base : ℕ) (session : Session) (seen : List Osc133Match) : Prop where
  ready : session.osc133Ready = replayReady seen
  start : session.osc133Ready = some true → ∃ found, lastPrimary seen = some found ∧
    session.osc133PromptStart = some (max (-1) ((found.stop : ℤ) - base))

section Steps

variable {cursor : CursorReader} {base : ℕ} {combined : JsString} {session session' : Session}
  {seen : List Osc133Match} {found : Osc133Match}

theorem consumeMarker_text (consumed : consumeMarker cursor combined session found = some session') :
    session'.toPromptTracking = session.toPromptTracking := by
  unfold consumeMarker at consumed
  split at consumed
  · obtain ⟨pending, -, rfl⟩ := map_eq_some_iff.mp consumed
    rfl
  split at consumed
  · split at consumed
    · split at consumed
      · obtain ⟨here, -, rfl⟩ := map_eq_some_iff.mp consumed
        rfl
      · cases consumed
        rfl
    · cases consumed
      rfl
  · cases consumed
    rfl

/-- A marker of the prompt's end changes neither readiness nor the start. -/
theorem consumeMarker_end (end_ : found.marker.kind = .B)
    (consumed : consumeMarker cursor combined session found = some session') :
    session'.osc133Ready = session.osc133Ready ∧ session'.osc133PromptStart = session.osc133PromptStart := by
  have other : isOsc133PrimaryPrompt found.marker = false := by
    rw [eq_false_iff]
    intro primary
    cases end_.symm.trans (kind_of_primary primary)
  unfold consumeMarker at consumed
  rw [other, if_neg Bool.false_ne_true, if_pos end_] at consumed
  split at consumed
  · split at consumed
    · obtain ⟨here, -, rfl⟩ := map_eq_some_iff.mp consumed
      exact ⟨rfl, rfl⟩
    · cases consumed
      exact ⟨rfl, rfl⟩
  · cases consumed
    exact ⟨rfl, rfl⟩

/-- **One marker.** -/
theorem Tracks.consume (tracks : Tracks base session seen)
    (consumed : consumeMarker cursor combined session found = some session') :
    Tracks base session' (seen ++ [found.shift base]) := by
  by_cases end_ : found.marker.kind = .B
  · obtain ⟨ready, start⟩ := consumeMarker_end end_ consumed
    have other : isOsc133PrimaryPrompt found.marker = false := by
      rw [eq_false_iff]
      intro primary
      cases end_.symm.trans (kind_of_primary primary)
    refine ⟨?_, fun yes => ?_⟩
    · rw [replayReady_append, ready, Osc133Match.shift_marker, if_neg (not_not.mpr end_), tracks.ready]
    · rw [lastPrimary_append, Osc133Match.shift_marker, other, if_neg Bool.false_ne_true, start]
      exact tracks.start (ready ▸ yes)
  · have again := replayReady_append seen (found.shift base)
    rw [Osc133Match.shift_marker, if_pos end_] at again
    unfold consumeMarker at consumed
    split at consumed
    · rename_i primary
      obtain ⟨pending, -, rfl⟩ := map_eq_some_iff.mp consumed
      refine ⟨by rw [again, primary], fun _ => ⟨found.shift base, ?_, ?_⟩⟩
      · rw [lastPrimary_append, Osc133Match.shift_marker, if_pos primary]
      · have same : (found.stop : ℤ) = max (-1) (((found.shift base).stop : ℤ) - base) := by
          rw [Osc133Match.stop_shift]
          omega
        exact congrArg some same
    · rename_i other
      cases consumed
      refine ⟨by rw [again, eq_false_iff.mpr other], fun yes => ?_⟩
      cases yes

/-- **All markers of a chunk.** -/
theorem Tracks.consumeAll {founds : List Osc133Match} (tracks : Tracks base session seen)
    (consumed : consumeMarkers cursor combined session founds = .ok session') :
    Tracks base session' (seen ++ founds.map (Osc133Match.shift base)) ∧
      session'.toPromptTracking = session.toPromptTracking := by
  induction founds generalizing session seen with
  | nil =>
    cases consumed
    rw [map_nil, append_nil]
    exact ⟨tracks, rfl⟩
  | cons found founds ih =>
    rw [consumeMarkers] at consumed
    split at consumed
    · cases consumed
    · rename_i next one
      obtain ⟨later, same⟩ := ih (tracks.consume one) consumed
      rw [append_assoc] at later
      exact ⟨later, same.trans (consumeMarker_text one)⟩

theorem Tracks.continuation (tracks : Tracks base session seen) (previousTail chunk : JsString) :
    Tracks base (noteContinuation previousTail chunk session) seen := by
  unfold noteContinuation
  split
  · exact tracks
  · dsimp only
    split
    · exact ⟨tracks.ready, tracks.start⟩
    · exact tracks

theorem noteContinuation_text (previousTail chunk : JsString) :
    (noteContinuation previousTail chunk session).toPromptTracking = session.toPromptTracking := by
  unfold noteContinuation
  split
  · rfl
  · dsimp only
    split
    · rfl
    · rfl

theorem Tracks.slide (tracks : Tracks base session seen) (chunk : JsString) :
    Tracks (base + ((session.promptTrackTail ++ chunk).length - MAX_PROMPT_TRACK_TAIL))
      (slideTail chunk session) seen := by
  refine ⟨tracks.ready, fun yes => ?_⟩
  obtain ⟨found, last, start⟩ := tracks.start yes
  refine ⟨found, last, ?_⟩
  simp only [slideTail, start, map_some, Option.some.injEq]
  generalize (session.promptTrackTail ++ chunk).length - MAX_PROMPT_TRACK_TAIL = overflow
  split
  · push_cast
    omega
  · push_cast
    omega

end Steps

/-! ## Runs -/

/-- The session has seen this output. -/
structure Sees (session : Session) (stream : JsString) : Prop where
  tail : session.promptTrackTail = stream.drop (evicted stream)
  tracks : Tracks (evicted stream) session (everyMatch 0 stream)

theorem sees_fresh : Sees freshSession [] :=
  ⟨rfl, rfl, fun yes => absurd yes (some_ne_none true).symm⟩

/-- A window that starts far enough in front shows the markers that end in the chunk. -/
theorem newMarkers_drop {stream chunk : JsString} {front limit : ℕ} (le : front ≤ stream.length)
    (early : front = 0 ∨ front + limit ≤ stream.length + 1)
    (short : ∀ found ∈ everyMatch 0 (stream ++ chunk), found.marker.raw.length ≤ limit) :
    (newMarkers (stream.drop front) chunk).map (Osc133Match.shift front) =
      (everyMatch 0 (stream ++ chunk)).filter fun found => stream.length < found.stop := by
  have early' : front = 0 ∨ 0 + front + limit ≤ stream.length + 1 := by omega
  have window : stream.drop front ++ chunk = (stream ++ chunk).drop front := by
    rw [drop_append_of_le_length le]
  rw [everyMatch_drop front short early', everyMatch_shift, List.filter_map, newMarkers, matchAll_eq,
    window]
  refine congrArg _ (filter_congr fun found _ => ?_)
  simp only [Function.comp_apply, Osc133Match.stop_shift, length_drop]
  rw [decide_eq_decide]
  omega

theorem early_enough (stream : JsString) :
    evicted stream = 0 ∨ evicted stream + MAX_PROMPT_TRACK_TAIL ≤ stream.length + 1 := by
  simp only [evicted]
  omega

theorem newMarkers_eq {stream chunk : JsString}
    (short : ∀ found ∈ everyMatch 0 (stream ++ chunk), found.marker.raw.length ≤ MAX_PROMPT_TRACK_TAIL) :
    (newMarkers (stream.drop (evicted stream)) chunk).map (Osc133Match.shift (evicted stream)) =
      (everyMatch 0 (stream ++ chunk)).filter fun found => stream.length < found.stop :=
  newMarkers_drop (TerminalLog.evicted_le stream) (early_enough stream) short

section Runs

variable (cursor : CursorReader)

/-- The calls of `terminalCursorState` for this marker return. -/
def ReadsCursor (combined : JsString) (session : Session) (found : Osc133Match) : Prop :=
  if isOsc133PrimaryPrompt found.marker then
    session.osc133Ready = some true → session.osc133PromptLine ≠ none →
      session.osc133PromptRedrawPending = false → session.osc133PromptContinued = false →
      let view := promptTrackingView (priorSession combined session found)
      cursor view.tail view.alternateScreenActive ≠ none
  else
    found.marker.kind = .B → session.osc133Ready = some true →
      ∀ start ∈ session.osc133PromptStart, 0 ≤ start →
        cursor ((combined.take found.stop).drop start.toNat) session.osc133PromptAltScreenAtStart ≠ none

/-- They return for each of these markers. -/
inductive ReadsCursors (combined : JsString) : Session → List Osc133Match → Prop where
  | done {session : Session} : ReadsCursors combined session []
  | marker {session : Session} {found : Osc133Match} {founds : List Osc133Match} :
      ReadsCursor cursor combined session found →
      (∀ session', consumeMarker cursor combined session found = some session' →
        ReadsCursors combined session' founds) →
      ReadsCursors combined session (found :: founds)

/-- They return in every call of a run. -/
inductive ReadsAll : Session → List JsString → Prop where
  | done {session : Session} : ReadsAll session []
  | chunk {session : Session} {chunk : JsString} {chunks : List JsString} :
      ReadsCursors cursor (session.promptTrackTail ++ chunk) session
        (newMarkers session.promptTrackTail chunk) →
      ReadsAll (trackSessionIdlePrompt cursor session chunk) chunks → ReadsAll session (chunk :: chunks)

variable {cursor} {combined : JsString} {session session' : Session} {found : Osc133Match}

theorem readsAll_of_total (total : ∀ terminalData active, cursor terminalData active ≠ none)
    (session : Session) (chunks : List JsString) : ReadsAll cursor session chunks := by
  have one : ∀ combined session found, ReadsCursor cursor combined session found := by
    intro combined session found
    unfold ReadsCursor
    split
    · exact fun _ _ _ _ => total _ _
    · exact fun _ _ _ _ _ => total _ _
  have all : ∀ combined founds session, ReadsCursors cursor combined session founds := by
    intro combined founds
    induction founds with
    | nil => exact fun _ => .done
    | cons found founds ih => exact fun session => .marker (one _ _ _) fun next _ => ih next
  induction chunks generalizing session with
  | nil => exact .done
  | cons chunk chunks ih => exact .chunk (all _ _ _) (ih _)

theorem redrawPending_of_reads
    (reads : session.osc133Ready = some true → session.osc133PromptLine ≠ none →
      session.osc133PromptRedrawPending = false → session.osc133PromptContinued = false →
      let view := promptTrackingView (priorSession combined session found)
      cursor view.tail view.alternateScreenActive ≠ none) :
    ∃ pending, redrawPending cursor combined session found = some pending := by
  unfold redrawPending
  split
  · exact ⟨_, rfl⟩
  rename_i settled
  split
  · rename_i guard
    unfold matchesOsc133EmptyPrompt
    dsimp only
    rw [if_neg (show ¬ (priorSession combined session found).osc133PromptRedrawPending = true from settled)]
    obtain ⟨line, has⟩ := ne_none_iff_exists'.mp guard.2
    have has' : (priorSession combined session found).osc133PromptLine = some line := has
    rw [has']
    dsimp only
    split
    · exact ⟨_, rfl⟩
    · rename_i alone
      have returns := reads guard.1 guard.2 (eq_false_iff.mpr settled) (eq_false_iff.mpr alone)
      obtain ⟨here, same⟩ := ne_none_iff_exists'.mp returns
      exact ⟨_, by rw [same]; rfl⟩
  · exact ⟨_, rfl⟩

theorem consumeMarker_of_reads (reads : ReadsCursor cursor combined session found) :
    ∃ session', consumeMarker cursor combined session found = some session' := by
  unfold ReadsCursor at reads
  unfold consumeMarker
  split
  · rename_i primary
    rw [if_pos primary] at reads
    obtain ⟨pending, same⟩ := redrawPending_of_reads reads
    exact ⟨_, by rw [same]; rfl⟩
  · rename_i other
    rw [if_neg other] at reads
    split
    · rename_i end_
      split
      · rename_i start has
        split
        · rename_i guard
          have returns := reads end_ guard.1 start has guard.2
          obtain ⟨here, same⟩ := ne_none_iff_exists'.mp returns
          exact ⟨_, by rw [same]; rfl⟩
        · exact ⟨_, rfl⟩
      · exact ⟨_, rfl⟩
    · exact ⟨_, rfl⟩

theorem consumeMarkers_of_reads {founds : List Osc133Match}
    (reads : ReadsCursors cursor combined session founds) :
    ∃ session', consumeMarkers cursor combined session founds = .ok session' := by
  induction reads with
  | done => exact ⟨_, rfl⟩
  | marker one later ih =>
    obtain ⟨next, consumed⟩ := consumeMarker_of_reads one
    obtain ⟨last, all⟩ := ih next consumed
    exact ⟨last, by rw [consumeMarkers, consumed]; exact all⟩

/-- **One chunk.** -/
theorem Sees.track {stream chunk : JsString} (sees : Sees session stream)
    (short : ∀ found ∈ everyMatch 0 (stream ++ chunk), found.marker.raw.length ≤ MAX_PROMPT_TRACK_TAIL)
    (reads : ReadsCursors cursor (session.promptTrackTail ++ chunk) session
      (newMarkers session.promptTrackTail chunk)) :
    Sees (trackSessionIdlePrompt cursor session chunk) (stream ++ chunk) := by
  unfold trackSessionIdlePrompt
  by_cases nothing : chunk = []
  · rw [if_pos nothing, nothing, append_nil]
    exact sees
  rw [if_neg nothing]
  obtain ⟨session', consumed⟩ := consumeMarkers_of_reads reads
  dsimp only
  rw [consumed]
  obtain ⟨tracks, same⟩ := sees.tracks.consumeAll consumed
  have fresh := newMarkers_eq short
  have all := everyMatch_append 0 stream chunk
  rw [← sees.tail] at fresh
  rw [Nat.zero_add] at all
  rw [fresh, ← all] at tracks
  have text : (noteContinuation session.promptTrackTail chunk session').toPromptTracking =
      session'.toPromptTracking := noteContinuation_text _ _
  have tail : (noteContinuation session.promptTrackTail chunk session').promptTrackTail =
      stream.drop (evicted stream) := by
    rw [text, same, sees.tail]
  have slid := (tracks.continuation session.promptTrackTail chunk).slide chunk
  refine ⟨TerminalLog.tail_track tail chunk, ?_⟩
  rw [TerminalLog.overflow_append tail chunk,
    Nat.add_sub_cancel' (TerminalLog.evicted_append stream chunk)] at slid
  exact slid

/-- What the session answers is what a replay of the whole output finds. -/
def Agrees (session : Session) (stream : JsString) : Prop :=
  session.osc133Ready = computeOsc133ReadyState stream ∧
    (session.osc133Ready = some true →
      ∃ found, lastPrimary (matchAll 0 0 stream) = some found ∧
        (stream.length - session.promptTrackTail.length ≤ found.stop →
          (promptTrackingView session).tail = stream.drop found.stop) ∧
        (found.stop < stream.length - session.promptTrackTail.length →
          (promptTrackingView session).tail = []))

theorem view_of_start {stream : JsString} {front stop : ℕ} (ready : session.osc133Ready = some true)
    (tail : session.promptTrackTail = stream.drop front)
    (start : session.osc133PromptStart = some (max (-1) ((stop : ℤ) - front))) :
    (promptTrackingView session).tail = if stop < front then [] else stream.drop stop := by
  unfold promptTrackingView
  simp only [tail, start, ready, if_true]
  by_cases gone : stop < front
  · have evicted : max (-1) ((stop : ℤ) - front) = -1 := by omega
    rw [if_pos gone, evicted]
    split
    · rfl
    · rfl
  · have kept : max (-1) ((stop : ℤ) - front) = (stop - front : ℕ) := by omega
    have rest : stream.drop stop = (stream.drop front).drop (stop - front) := by
      rw [drop_drop]
      congr 1
      omega
    rw [if_neg gone, kept, rest]
    split
    · rename_i nothing
      rw [nothing, drop_nil]
    · simp

theorem Sees.agrees {stream : JsString} (sees : Sees session stream) : Agrees session stream := by
  obtain ⟨tail, tracks⟩ := sees
  refine ⟨by rw [tracks.ready, computeOsc133ReadyState_eq], fun yes => ?_⟩
  obtain ⟨found, last, start⟩ := tracks.start yes
  refine ⟨found, by rw [matchAll_eq]; exact last, ?_⟩
  have cut : stream.length - session.promptTrackTail.length = evicted stream := by
    rw [tail, length_drop, Nat.sub_sub_self (TerminalLog.evicted_le stream)]
  rw [cut, view_of_start yes tail start]
  exact ⟨fun kept => if_neg (Nat.not_lt.mpr kept), fun gone => if_pos gone⟩

theorem Sees.trackAll {stream : JsString} {chunks : List JsString} (sees : Sees session stream)
    (short : ∀ found ∈ everyMatch 0 (stream ++ chunks.flatten),
      found.marker.raw.length ≤ MAX_PROMPT_TRACK_TAIL)
    (reads : ReadsAll cursor session chunks) :
    Sees (trackChunks cursor session chunks) (stream ++ chunks.flatten) := by
  induction reads generalizing stream with
  | done =>
    rw [flatten_nil, append_nil]
    exact sees
  | @chunk session chunk chunks one _ ih =>
    rw [flatten_cons, ← append_assoc] at short ⊢
    refine ih (sees.track (fun found mem => short found ?_) one) short
    rw [everyMatch_append 0 (stream ++ chunk)]
    exact mem_append_left _ mem

end Runs

/-- **Tracking agrees with a replay** behind all chunks of a run in which the cursor can be read where it
is. -/
theorem tracking_agrees_with_replay {cursor : CursorReader} {chunks : List JsString}
    (short : ∀ found ∈ matchAll 0 0 chunks.flatten, found.marker.raw.length ≤ 4096)
    (reads : ReadsAll cursor freshSession chunks) :
    Agrees (trackChunks cursor freshSession chunks) chunks.flatten := by
  rw [matchAll_eq] at short
  exact (sees_fresh.trackAll short reads).agrees

/-- Classes for text without zero-width characters. -/
def noMarks : UnicodeClasses := ⟨fun _ => false, fun _ => false, rfl, rfl⟩

/-- A prompt whose end marker is cut in two. -/
def cutPrompt : List JsString := [text "\x1b]133;A\x07$ \x1b]13", text "3;B\x07"]

theorem tracking_agrees_cutPrompt : Agrees (trackChunks (fun terminalData active =>
      some ((terminalCursorState noMarks terminalData active).getD ⟨[], 0⟩)) freshSession cutPrompt)
        cutPrompt.flatten := by
  refine tracking_agrees_with_replay (fun found mem => ?_)
    (readsAll_of_total (fun _ _ => some_ne_none _) _ _)
  rw [matchAll_eq] at mem
  have stop := stop_le_of_mem mem
  have long : cutPrompt.flatten.length = 18 := by decide
  have part : found.marker.raw.length ≤ found.stop := Nat.le_add_left _ _
  omega

/-- A character behind a move to the row before the first one. -/
def aboveTheScreen : JsString :=
  text "\x1b]133;A\x07\x1b[-1Bx\x1b]133;B\x07\x1b]133;C\x07"

/-- The prompt's end cannot be read, and the command that runs behind it is not seen. -/
theorem not_agrees_aboveTheScreen :
    ¬ Agrees (trackChunks (terminalCursorState noMarks) freshSession [aboveTheScreen]) aboveTheScreen := by
  rintro ⟨ready, -⟩
  revert ready
  decide +kernel

end Netcatty.Osc133
