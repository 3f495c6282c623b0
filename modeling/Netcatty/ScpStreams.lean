import Netcatty.ScpProtocol

/-!
A source stream in pieces.

Cutting the stream elsewhere moves the boundaries of the data events and nothing
else, so feeding the pieces reads what feeding the whole stream reads.
-/

namespace Netcatty.Scp

open List

def bytewise : ScpEvent → List ScpEvent
  | .fileData data => data.map fun byte => .fileData [byte]
  | event => [event]

namespace Reading

/-- The reading with data one byte at a time. -/
def bytewise (reading : Reading) : Reading :=
  { reading with events := reading.events.flatMap Scp.bytewise }

def after (events : List ScpEvent) (reading : Reading) : Reading :=
  { reading with events := events ++ reading.events }

end Reading

/-! ## One round of the loop -/

theorem loop_nil (phase : Phase) : loop phase [] = .ok ⟨[], phase, []⟩ := by
  rw [loop]
  rfl

theorem loop_stop {phase : Phase} {buf : Bytes} (read : readPhase phase buf = .ok none) :
    loop phase buf = .ok ⟨[], phase, buf⟩ := by
  by_cases empty : buf = []
  · subst empty
    exact loop_nil phase
  · rw [loop, dif_neg empty]
    split
    · rename_i message same
      rw [read] at same
      cases same
    · rfl
    · rename_i reading same
      rw [read] at same
      cases same

theorem loop_error {phase : Phase} {buf : Bytes} {message : JsString} (nonempty : buf ≠ [])
    (read : readPhase phase buf = .error message) : loop phase buf = .error message := by
  rw [loop, dif_neg nonempty]
  split
  · rename_i message' same
    rw [read, Except.error.injEq] at same
    rw [same]
  · rename_i same
    rw [read] at same
    cases same
  · rename_i reading same
    rw [read] at same
    cases same

theorem loop_next {phase : Phase} {buf : Bytes} {reading : Reading} (nonempty : buf ≠ [])
    (read : readPhase phase buf = .ok (some reading)) :
    loop phase buf = (loop reading.phase reading.buf).map (Reading.after reading.events) := by
  rw [loop, dif_neg nonempty]
  split
  · rename_i message same
    rw [read] at same
    cases same
  · rename_i same
    rw [read] at same
    cases same
  · rename_i reading' same
    rw [read, Except.ok.injEq, Option.some.injEq] at same
    subst same
    cases loop reading.phase reading.buf <;> rfl

theorem splitLine_append {buf line rest : Bytes} (more : Bytes)
    (found : splitLine buf = some (line, rest)) :
    splitLine (buf ++ more) = some (line, rest ++ more) := by
  induction buf generalizing line with
  | nil => cases found
  | cons byte buf ih =>
    rw [splitLine] at found
    rw [cons_append, splitLine]
    split at found
    · rename_i newline
      simp only [Option.some.injEq, Prod.mk.injEq] at found
      rw [if_pos newline, found.1, found.2]
    · rename_i other
      obtain ⟨later, split, same⟩ := Option.map_eq_some_iff.mp found
      have ends : later.2 = rest := congrArg Prod.snd same
      have starts : byte :: later.1 = line := congrArg Prod.fst same
      rw [if_neg other, @ih later.1 (by rw [split, ← ends]), ← starts]
      rfl

theorem readControl_append (control : ControlLine) (buf more : Bytes) :
    readControl control (buf ++ more) =
      { readControl control buf with buf := (readControl control buf).buf ++ more } := by
  cases control <;> rfl

/-! ## Going on with the next piece -/

/-- Read the next piece after an earlier reading. -/
def resume (more : Bytes) (reading : Reading) : ScpChecked Reading :=
  (loop reading.phase (reading.buf ++ more)).map (Reading.after reading.events)

theorem resume_after (more : Bytes) (events : List ScpEvent) (reading : Reading) :
    resume more (reading.after events) = (resume more reading).map (Reading.after events) := by
  unfold resume Reading.after
  cases loop reading.phase (reading.buf ++ more) with
  | error message => rfl
  | ok later => simp [Except.map]

/-- Readings that differ in the boundaries of data only. -/
def Alike (left right : ScpChecked Reading) : Prop :=
  left.map Reading.bytewise = right.map Reading.bytewise

theorem alike_ok {reading other : Reading} (alike : Alike (.ok reading) (.ok other)) :
    reading.events.flatMap bytewise = other.events.flatMap bytewise ∧
      reading.phase = other.phase ∧ reading.buf = other.buf := by
  have same : reading.bytewise = other.bytewise := Except.ok.inj alike
  have lists := congrArg Reading.events same
  have phases := congrArg Reading.phase same
  have bufs := congrArg Reading.buf same
  exact ⟨lists, phases, bufs⟩

theorem Alike.after {left right : ScpChecked Reading} (alike : Alike left right)
    (events : List ScpEvent) :
    Alike (left.map (Reading.after events)) (right.map (Reading.after events)) := by
  cases left with
  | error message =>
    cases right with
    | error other => exact alike
    | ok reading => cases alike
  | ok reading =>
    cases right with
    | error other => cases alike
    | ok other =>
      obtain ⟨lists, phases, bufs⟩ := alike_ok alike
      simp [Alike, Except.map, Reading.bytewise, Reading.after, lists, phases, bufs]

/-- A round that reads the same from a longer buffer may be taken first. -/
theorem alike_of_round {phase : Phase} {a b : Bytes} {reading : Reading} (nonempty : a ≠ [])
    (read : readPhase phase a = .ok (some reading))
    (longer : readPhase phase (a ++ b) =
      .ok (some { reading with buf := reading.buf ++ b }))
    (later : Alike (loop reading.phase (reading.buf ++ b))
      (loop reading.phase reading.buf >>= resume b)) :
    Alike (loop phase (a ++ b)) (loop phase a >>= resume b) := by
  have nonempty' : a ++ b ≠ [] := by simp [nonempty]
  rw [loop_next nonempty read, loop_next nonempty' longer]
  have moved : ((loop reading.phase reading.buf).map (Reading.after reading.events) >>= resume b) =
      (loop reading.phase reading.buf >>= resume b).map (Reading.after reading.events) := by
    cases loop reading.phase reading.buf with
    | error message => rfl
    | ok next => exact resume_after b reading.events next
  rw [moved]
  exact later.after reading.events

theorem alike_data {file : PendingFile} {remaining : ℕ} {a : Bytes} (b : Bytes) (nonempty : a ≠ [])
    (short : a.length < remaining) :
    Alike (loop (.awaitData file remaining) (a ++ b))
      (loop (.awaitData file remaining) a >>= resume b) := by
  have readA : readPhase (.awaitData file remaining) a =
      .ok (some ⟨[.fileData a], .awaitData file (remaining - a.length), []⟩) := by
    have all : min remaining a.length = a.length := by omega
    simp only [readPhase, all, take_length, drop_length]
    rw [if_neg (by omega)]
  have loopA : loop (.awaitData file remaining) a =
      .ok ⟨[.fileData a], .awaitData file (remaining - a.length), []⟩ := by
    rw [loop_next nonempty readA, loop_nil]
    rfl
  rw [loopA]
  change Alike _ ((loop (.awaitData file (remaining - a.length)) b).map
    (Reading.after [.fileData a]))
  by_cases empty : b = []
  · subst empty
    rw [append_nil, loopA, loop_nil]
    rfl
  · have readB : readPhase (.awaitData file (remaining - a.length)) b = .ok (some
        ⟨[.fileData (b.take (min (remaining - a.length) b.length))],
          if remaining - a.length - min (remaining - a.length) b.length = 0 then .awaitNul file
          else .awaitData file (remaining - a.length - min (remaining - a.length) b.length),
          b.drop (min (remaining - a.length) b.length)⟩) := rfl
    have readAB : readPhase (.awaitData file remaining) (a ++ b) = .ok (some
        ⟨[.fileData (a ++ b.take (min (remaining - a.length) b.length))],
          if remaining - a.length - min (remaining - a.length) b.length = 0 then .awaitNul file
          else .awaitData file (remaining - a.length - min (remaining - a.length) b.length),
          b.drop (min (remaining - a.length) b.length)⟩) := by
      have taken : min remaining (a ++ b).length =
          a.length + min (remaining - a.length) b.length := by
        rw [length_append]
        omega
      simp only [readPhase, taken, take_length_add_append, drop_length_add_append,
        Nat.sub_add_eq]
    have nonempty' : a ++ b ≠ [] := by simp [nonempty]
    rw [loop_next nonempty' readAB, loop_next empty readB]
    generalize loop _ _ = later
    cases later with
    | error message => rfl
    | ok later =>
      simp [Alike, Except.map, Reading.bytewise, Reading.after, bytewise]

theorem loop_append (phase : Phase) (a b : Bytes) :
    Alike (loop phase (a ++ b)) (loop phase a >>= resume b) := by
  have stopped : ∀ {phase : Phase} {a : Bytes}, loop phase a = .ok ⟨[], phase, a⟩ →
      Alike (loop phase (a ++ b)) (loop phase a >>= resume b) := by
    intro phase a stop
    rw [stop]
    change _ = Except.map _ ((loop phase (a ++ b)).map (Reading.after []))
    cases loop phase (a ++ b) <;> rfl
  induction size : fuel phase a using Nat.strongRecOn generalizing phase a with
  | ind n ih =>
    by_cases empty : a = []
    · subst empty
      exact stopped (loop_nil phase)
    · have nonempty' : a ++ b ≠ [] := by simp [empty]
      have round : ∀ reading : Reading, readPhase phase a = .ok (some reading) →
          readPhase phase (a ++ b) = .ok (some { reading with buf := reading.buf ++ b }) →
          Alike (loop phase (a ++ b)) (loop phase a >>= resume b) := fun _ read longer =>
        alike_of_round empty read longer
          (ih _ (size ▸ fuel_readPhase empty read) _ _ rfl)
      cases phase with
      | awaitControl =>
        cases cut : splitLine a with
        | none => exact stopped (loop_stop (by simp [readPhase, cut]))
        | some split =>
          have cut' : splitLine (a ++ b) = some (split.1, split.2 ++ b) := splitLine_append b cut
          cases parsed : parseControlLine (lineForParse split.1) with
          | error message =>
            have read : readPhase .awaitControl a = .error message := by
              simp [readPhase, cut, parsed, Bind.bind, Except.bind]
            have read' : readPhase .awaitControl (a ++ b) = .error message := by
              simp [readPhase, cut', parsed, Bind.bind, Except.bind]
            rw [loop_error empty read, loop_error nonempty' read']
            rfl
          | ok control =>
            apply round (readControl control split.2)
            · simp [readPhase, cut, parsed]
            · simp [readPhase, cut', parsed, readControl_append]
      | awaitData file remaining =>
        by_cases short : a.length < remaining
        · exact alike_data b empty short
        · have taken : min remaining a.length = remaining := by omega
          have taken' : min remaining (a ++ b).length = remaining := by
            rw [length_append]
            omega
          apply round ⟨[.fileData (a.take remaining)], .awaitNul file, a.drop remaining⟩
          · simp only [readPhase, taken, Nat.sub_self, if_true]
          · simp only [readPhase, taken', Nat.sub_self, if_true]
            rw [take_append_of_le_length (by omega), drop_append_of_le_length (by omega)]
      | awaitNul file =>
        cases a with
        | nil => exact absurd rfl empty
        | cons byte a =>
          by_cases zero : byte = 0
          · apply round ⟨[.fileEnd file], .awaitControl, a⟩
            · simp [readPhase, zero]
            · simp [readPhase, zero]
          · have read : readPhase (.awaitNul file) (byte :: a) =
                .error (text "Expected trailing NUL after SCP file data") := by
              simp [readPhase, zero]
            have read' : readPhase (.awaitNul file) (byte :: a ++ b) =
                .error (text "Expected trailing NUL after SCP file data") := by
              simp [readPhase, zero]
            rw [loop_error empty read, loop_error nonempty' read']
            rfl

/-! ## Chunks -/

def readingOf (fed : List ScpEvent × SourceStreamParser) : Reading :=
  ⟨fed.1, fed.2.phase, fed.2.buf⟩

theorem Alike.bind {left right : ScpChecked Reading} (alike : Alike left right) (more : Bytes) :
    Alike (left >>= resume more) (right >>= resume more) := by
  cases left with
  | error message =>
    cases right with
    | error other => exact alike
    | ok reading => cases alike
  | ok reading =>
    cases right with
    | error other => cases alike
    | ok other =>
      obtain ⟨lists, phases, bufs⟩ := alike_ok alike
      change Alike (resume more reading) (resume more other)
      unfold resume
      rw [phases, bufs]
      cases loop other.phase (other.buf ++ more) with
      | error message => rfl
      | ok later => simp [Alike, Except.map, Reading.bytewise, Reading.after, lists]

theorem feed_reading (parser : SourceStreamParser) {chunk : Bytes} (nonempty : chunk ≠ []) :
    (parser.feed chunk).map readingOf = loop parser.phase (parser.buf ++ chunk) := by
  rw [SourceStreamParser.feed, if_neg nonempty]
  cases loop parser.phase (parser.buf ++ chunk) <;> rfl

theorem feedAll_alike (phase : Phase) (a : Bytes) (events : List ScpEvent)
    (parser : SourceStreamParser) (chunks : List Bytes)
    (fed : Alike (loop phase a) (.ok (readingOf (events, parser)))) :
    Alike (loop phase (a ++ chunks.flatten))
      (((parser.feedAll chunks).map readingOf).map (Reading.after events)) := by
  induction chunks generalizing a events parser with
  | nil =>
    rw [flatten_nil, append_nil]
    simpa [SourceStreamParser.feedAll, Except.map, readingOf, Reading.after] using fed
  | cons chunk chunks ih =>
    rw [flatten_cons, SourceStreamParser.feedAll]
    by_cases empty : chunk = []
    · subst empty
      have next := ih a events parser fed
      rw [SourceStreamParser.feed, if_pos rfl, nil_append, ok_bind]
      cases later : parser.feedAll chunks with
      | error message => simpa [later, Except.map] using next
      | ok later' => simpa [later, Except.map, readingOf] using next
    · have whole := (loop_append phase a chunk).trans (fed.bind chunk)
      have piece := feed_reading parser empty
      change Alike _ (resume chunk (readingOf (events, parser))) at whole
      rw [resume, readingOf] at whole
      dsimp only at whole
      rw [← piece] at whole
      cases first : parser.feed chunk with
      | error message =>
        rw [first] at whole
        have failed : loop phase (a ++ chunk) = .error message := by
          cases read : loop phase (a ++ chunk) with
          | error other =>
            rw [read] at whole
            exact whole
          | ok reading =>
            rw [read] at whole
            cases whole
        have more := loop_append phase (a ++ chunk) chunks.flatten
        rw [failed, append_assoc] at more
        exact more
      | ok fed' =>
        rw [first] at whole
        have next := ih (a ++ chunk) (events ++ fed'.1) fed'.2 (by
          simpa [Except.map, readingOf, Reading.after] using whole)
        rw [append_assoc] at next
        cases later : fed'.2.feedAll chunks with
        | error message => simpa [later, Except.map, Bind.bind, Except.bind] using next
        | ok later' =>
          simpa [later, Except.map, Bind.bind, Except.bind, readingOf, Reading.after] using next

theorem feedAll_flatten (chunks : List Bytes) : Alike (loop .awaitControl chunks.flatten)
      ((createSourceStreamParser.feedAll chunks).map readingOf) := by
  have fed := feedAll_alike .awaitControl [] [] createSourceStreamParser chunks (by
    rw [loop_nil]
    rfl)
  rw [nil_append] at fed
  refine fed.trans ?_
  cases createSourceStreamParser.feedAll chunks <;> rfl

end Netcatty.Scp
