import Netcatty.TerminalRenderer

/-!
The rolling tail in which the idle prompt is looked for.

A session keeps the last characters of its output, and whether the alternate screen was
active where they start.  What is evicted is read by a scan that starts afresh, and so
is the tail: the two readings fit together where the cut is not inside an escape
sequence.
-/

namespace Netcatty.TerminalLog

open List

open WriteCoalescing (lowerH)

def MAX_PROMPT_TRACK_TAIL : ℕ := 4096

/-- The fields of a session that follow the screen. -/
structure PromptTracking where
  promptTrackTail : JsString
  promptTrackAltScreenAtTailStart : Bool

def freshSession : PromptTracking := ⟨[], false⟩

/-- What `trackSessionIdlePrompt` does to the tail. -/
def trackSessionIdlePrompt (session : PromptTracking) (chunk : JsString) : PromptTracking :=
  if chunk = [] then session
  else
    let combined := session.promptTrackTail ++ chunk
    let overflow := combined.length - MAX_PROMPT_TRACK_TAIL
    ⟨if 0 < overflow then combined.drop overflow else combined,
      if 0 < overflow then
        alternateScreenActiveAfter (combined.take overflow) session.promptTrackAltScreenAtTailStart
      else session.promptTrackAltScreenAtTailStart⟩

def trackChunks (chunks : List JsString) : PromptTracking :=
  chunks.foldl trackSessionIdlePrompt freshSession

/-- How much of an output the tail leaves out. -/
def evicted (stream : JsString) : ℕ := stream.length - MAX_PROMPT_TRACK_TAIL

theorem evicted_le (stream : JsString) : evicted stream ≤ stream.length := Nat.sub_le _ _

/-- Is the start of the tail outside every escape sequence? -/
def CutsCleanly (stream : JsString) : Prop :=
  ((ScreenScan.start false).feed (stream.take (evicted stream))).state = .normal

instance (stream : JsString) : Decidable (CutsCleanly stream) :=
  inferInstanceAs (Decidable (_ = _))

/-- The tail, and the screen at its start, for the whole output so far. -/
structure Keeps (session : PromptTracking) (stream : JsString) : Prop where
  tail : session.promptTrackTail = stream.drop (evicted stream)
  screen : session.promptTrackAltScreenAtTailStart =
    alternateScreenActiveAfter (stream.take (evicted stream)) false

theorem evicted_nil : evicted [] = 0 := by
  unfold evicted
  rw [length_nil, Nat.zero_sub]

theorem keeps_fresh : Keeps freshSession [] := by
  refine ⟨?_, ?_⟩
  · rw [evicted_nil]
    rfl
  · rw [evicted_nil]
    rfl

/-- A scan that starts afresh outside escape sequences reads on as the first one would. -/
theorem read_on {before : JsString}
    (normal : ((ScreenScan.start false).feed before).state = .normal) (s : JsString) :
    alternateScreenActiveAfter s (alternateScreenActiveAfter before false) =
      alternateScreenActiveAfter (before ++ s) false := by
  have here := feed_normal normal
  have joined := ScreenScan.feed_append (ScreenScan.start false) before s
  rw [here] at joined
  exact (congrArg ScreenScan.active joined).symm

section Track

variable {session : PromptTracking} {stream : JsString}

theorem evicted_append (stream chunk : JsString) : evicted stream ≤ evicted (stream ++ chunk) := by
  simp only [evicted, length_append]
  omega

section

variable (tail : session.promptTrackTail = stream.drop (evicted stream)) (chunk : JsString)

include tail

theorem overflow_append : (session.promptTrackTail ++ chunk).length - MAX_PROMPT_TRACK_TAIL =
      evicted (stream ++ chunk) - evicted stream := by
  rw [tail]
  simp only [evicted, length_append, length_drop]
  omega

theorem combined_eq :
    session.promptTrackTail ++ chunk = (stream ++ chunk).drop (evicted stream) := by
  rw [tail, drop_append_of_le_length (evicted_le stream)]

theorem tail_track : (trackSessionIdlePrompt session chunk).promptTrackTail =
      (stream ++ chunk).drop (evicted (stream ++ chunk)) := by
  unfold trackSessionIdlePrompt
  by_cases nothing : chunk = []
  · rw [if_pos nothing, nothing, append_nil, tail]
  have later := evicted_append stream chunk
  rw [if_neg nothing]
  dsimp only
  rw [overflow_append tail, combined_eq tail]
  split
  · rw [drop_drop, Nat.add_sub_cancel' later]
  · have same : evicted (stream ++ chunk) = evicted stream := by omega
    rw [same]

end

theorem Keeps.track (keeps : Keeps session stream) (clean : CutsCleanly stream) (chunk : JsString) :
    Keeps (trackSessionIdlePrompt session chunk) (stream ++ chunk) := by
  obtain ⟨tail, screen⟩ := keeps
  refine ⟨tail_track tail chunk, ?_⟩
  unfold trackSessionIdlePrompt
  by_cases nothing : chunk = []
  · rw [if_pos nothing, nothing, append_nil, screen]
  have later := evicted_append stream chunk
  have before : stream.take (evicted stream) = (stream ++ chunk).take (evicted stream) :=
    (take_append_of_le_length (evicted_le stream)).symm
  rw [if_neg nothing]
  dsimp only
  rw [overflow_append tail, combined_eq tail]
  split
  · rw [screen, read_on clean, before, ← take_add, Nat.add_sub_cancel' later]
  · have same : evicted (stream ++ chunk) = evicted stream := by omega
    rw [screen, same, before]

end Track

theorem keeps_trackChunks {chunks : List JsString}
    (clean : ∀ reached, reached <+: chunks → CutsCleanly reached.flatten) :
    Keeps (trackChunks chunks) chunks.flatten := by
  induction chunks using List.reverseRecOn with
  | nil => exact keeps_fresh
  | append_singleton chunks chunk ih =>
    have earlier := ih fun reached before => clean reached (before.trans (prefix_append _ _))
    have one := earlier.track (clean chunks (prefix_append _ _)) chunk
    rw [trackChunks, foldl_append, flatten_append, flatten_singleton]
    exact one

/-- An `x`. -/
def paintedUnit : Fin 65536 := ⟨120, by decide⟩

def fullScreen (painted : ℕ) : JsString :=
  text "\x1b[?1049h" ++ List.replicate painted paintedUnit

theorem feed_painted (painted : ℕ) (active : Bool) :
    (ScreenScan.start active).feed (List.replicate painted paintedUnit) =
      ScreenScan.start active := by
  rw [ScreenScan.feed_eq]
  induction painted with
  | zero => rfl
  | succ painted ih =>
    rw [replicate_succ, foldl_cons]
    exact ih

theorem feed_entered : (ScreenScan.start false).feed (text "\x1b[?1049h") = ScreenScan.start true := by
  decide

theorem feed_fullScreen (painted : ℕ) :
    (ScreenScan.start false).feed (fullScreen painted) = ScreenScan.start true := by
  rw [fullScreen, ScreenScan.feed_append, feed_entered, feed_painted]

theorem length_fullScreen (painted : ℕ) : (fullScreen painted).length = 8 + painted := by
  rw [fullScreen, length_append, length_replicate]
  rfl

theorem evicted_fullScreen (painted : ℕ) :
    evicted (fullScreen painted) = 8 + painted - MAX_PROMPT_TRACK_TAIL := by
  rw [evicted, length_fullScreen]

theorem cutsCleanly_nil : CutsCleanly [] := by
  rw [CutsCleanly, evicted_nil]
  rfl

/-- The sequence is evicted as a whole. -/
theorem cutsCleanly_fullScreen : CutsCleanly (fullScreen 4096) := by
  have all : evicted (fullScreen 4096) = (text "\x1b[?1049h").length := by
    rw [evicted_fullScreen, MAX_PROMPT_TRACK_TAIL]
    rfl
  rw [CutsCleanly, all, fullScreen, take_left, feed_entered]
  rfl

end Netcatty.TerminalLog
