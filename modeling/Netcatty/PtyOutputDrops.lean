import Netcatty.DroppedSwitches
import Netcatty.PtyOutputConservation

/-!
What the PTY output buffer tells of the output it dropped.

A run is watched: beside the host's own state stands what was lost since the last
chunk, and what every chunk that was sent or taken was told (`Watch`); watching
changes nothing (`unwatched_run`).  The note that goes with the next chunk tells of a
switch that was cut (`Informs`) as long as the windows show it; every step keeps that
(`Watched.step`), so every chunk of a run is told (`drops_informed`).
-/

namespace Netcatty.PtyOutput

open List Option

open OutputTrigger (TerminalAlternateScreenAction)
open PtyOutputBuffer

variable {E : Type*}

/-! ## Watching a run -/

/-- What is lost from the stream. -/
inductive Loss where
  /-- The overflow limit cut the buffer. -/
  | overflow (drop : Drop)
  /-- A caller told of output that was dropped before it reached the buffer. -/
  | reported (note : OutputMeta)
  deriving DecidableEq

/-- The losses since the last chunk, and for each chunk the losses before it and what it carries. -/
structure Watch where
  since : List Loss
  told : List (List Loss × Option OutputMeta)

/-- A chunk leaves. -/
def Watch.tell (watch : Watch) (meta? : Option OutputMeta) : Watch :=
  ⟨[], watch.told ++ [(watch.since, meta?)]⟩

def Watch.lose (watch : Watch) (losses : List Loss) : Watch :=
  { watch with since := watch.since ++ losses }

def Host.watched (host : Host E) : Host (E × Watch) where
  send chunk meta? env := (host.send chunk meta? env.1, env.2.tell meta?)
  report bytes env := (host.report bytes env.1, env.2)
  accepts env := host.accepts env.1

/-- What the overflow limit cuts when `data` arrives. -/
def PtyOutputBuffer.overflow (options : BufferOptions) (s : PtyOutputBuffer E) (data : JsString) :
    Option Drop :=
  let whole := s.buffered ++ data
  if whole.length ≤ options.maxPendingBytes then none
  else some ⟨whole.take (whole.length - options.maxPendingBytes),
    whole.drop (whole.length - options.maxPendingBytes)⟩

def OutputMeta.tells (added : OutputMeta) : Bool :=
  added.droppedOutputMayAffectTerminalState || added.droppedOutputAlternateScreenAction.isSome

def PtyOutputBuffer.losses (options : BufferOptions) (s : PtyOutputBuffer E) (data : JsString)
    (meta? : Option OutputMeta) : List Loss :=
  (meta?.filter OutputMeta.tells).toList.map .reported ++
    (s.overflow options data).toList.map .overflow

/-- The watch that an event runs under: what it loses is lost before it sends anything. -/
def watchOf (host : Host E) (options : BufferOptions) (s : PtyOutputBuffer (E × Watch)) :
    BufferEvent E → Watch
  | .bufferData _ data meta? => s.env.2.lose (s.losses options data meta?)
  | .takePendingEntry => s.env.2.tell (s.takePendingEntry host.watched).1.2
  | _ => s.env.2

def BufferEvent.watched (watch : Watch) : BufferEvent E → BufferEvent (E × Watch)
  | .bufferData arrivedAt data meta? => .bufferData arrivedAt data meta?
  | .flush => .flush
  | .flushPaced onDrained => .flushPaced onDrained
  | .takePendingEntry => .takePendingEntry
  | .discard => .discard
  | .timerFires => .timerFires
  | .hostChanges env => .hostChanges (env, watch)

def PtyOutputBuffer.under (s : PtyOutputBuffer (E × Watch)) (watch : Watch) :
    PtyOutputBuffer (E × Watch) :=
  { s with env := (s.env.1, watch) }

def watchedStep (host : Host E) (options : BufferOptions) (s : PtyOutputBuffer (E × Watch))
    (event : BufferEvent E) : PtyOutputBuffer (E × Watch) :=
  let watch := watchOf host options s event
  step host.watched options (s.under watch) (event.watched watch)

def createWatched (env : E) : PtyOutputBuffer (E × Watch) := createPtyOutputBuffer (env, ⟨[], []⟩)

/-! ## Watching changes nothing -/

def PtyOutputBuffer.unwatched (s : PtyOutputBuffer (E × Watch)) : PtyOutputBuffer E :=
  { s with env := s.env.1 }

section Unwatched

variable {host : Host E} {options : BufferOptions} (s : PtyOutputBuffer (E × Watch))

theorem unwatched_notify : s.notifyDrained.unwatched = s.unwatched.notifyDrained := by
  unfold notifyDrained
  change (if s.hasPendingData then s else _).unwatched = if s.hasPendingData then s.unwatched else _
  split
  · rfl
  · rfl

theorem unwatched_sendQueued : (s.sendQueued host.watched).unwatched = s.unwatched.sendQueued host := by
  unfold PtyOutputBuffer.sendQueued
  change _ = s.queuedBuffers.foldl _ s.unwatched
  generalize s.queuedBuffers = queue
  induction queue generalizing s with
  | nil => rfl
  | cons chunk queue ih => exact ih _

theorem unwatched_sendFlood :
    (s.sendFlood host.watched options).unwatched = s.unwatched.sendFlood host options := by
  induction s using PtyOutputBuffer.sendFlood.induct host.watched options with
  | case1 s long ih =>
    rw [PtyOutputBuffer.sendFlood, if_pos long, ih]
    conv_rhs => rw [PtyOutputBuffer.sendFlood, if_pos (show _ < s.unwatched.dataBuffer.length from long)]
    rfl
  | case2 s short =>
    rw [PtyOutputBuffer.sendFlood, if_neg short, PtyOutputBuffer.sendFlood,
      if_neg (show ¬ _ < s.unwatched.dataBuffer.length from short)]

theorem unwatched_sendTail : (s.sendTail host.watched).unwatched = s.unwatched.sendTail host := by
  unfold PtyOutputBuffer.sendTail
  change (if s.dataBuffer = [] then s else _).unwatched = if s.dataBuffer = [] then s.unwatched else _
  split
  · rfl
  · rfl

theorem unwatched_flushNow :
    (s.flushNow host.watched options).unwatched = s.unwatched.flushNow host options := by
  unfold PtyOutputBuffer.flushNow
  dsimp only
  change (if !host.accepts s.env.1 then _ else _ : PtyOutputBuffer (E × Watch)).unwatched =
    if !host.accepts s.env.1 then _ else _
  split
  · rfl
  · rw [unwatched_sendTail, unwatched_sendFlood, unwatched_sendQueued]
    rfl

theorem unwatched_sendNext :
    (s.sendNext host.watched options).unwatched = s.unwatched.sendNext host options := by
  unfold PtyOutputBuffer.sendNext
  have same : s.unwatched.queuedBuffers = s.queuedBuffers := rfl
  rw [same]
  cases s.queuedBuffers with
  | cons chunk rest => rfl
  | nil =>
    change (if options.maxFloodBufferSize < s.dataBuffer.length then _ else _ :
      PtyOutputBuffer (E × Watch)).unwatched = if options.maxFloodBufferSize < s.dataBuffer.length then _ else _
    split
    · rfl
    · exact unwatched_sendTail s

theorem unwatched_sendNextPendingChunk : (s.sendNextPendingChunk host.watched options).unwatched =
      s.unwatched.sendNextPendingChunk host options := by
  unfold PtyOutputBuffer.sendNextPendingChunk
  rw [← unwatched_sendNext]
  change (if !host.accepts s.env.1 then _ else _ : PtyOutputBuffer (E × Watch)).unwatched =
    if !host.accepts s.env.1 then _ else _
  split
  · change (if s.drainCallbacks = [] then _ else _ : PtyOutputBuffer (E × Watch)).unwatched =
      if s.drainCallbacks = [] then _ else _
    split
    · rfl
    · exact unwatched_notify _
  · change (if !(s.sendNext host.watched options).hasPendingData then _ else _ :
      PtyOutputBuffer (E × Watch)).unwatched =
      if !(s.sendNext host.watched options).hasPendingData then _ else _
    split
    · exact unwatched_notify _
    · rfl

theorem unwatched_merge (meta? : Option OutputMeta) :
    (s.mergeNextSendMeta meta?).unwatched = s.unwatched.mergeNextSendMeta meta? := by
  cases meta? with
  | none => rfl
  | some added => rfl

theorem unwatched_enforce : (s.enforcePendingByteLimit host.watched options).unwatched =
      s.unwatched.enforcePendingByteLimit host options := by
  unfold PtyOutputBuffer.enforcePendingByteLimit
  change (if s.pendingBytes ≤ options.maxPendingBytes then _ else _ :
    PtyOutputBuffer (E × Watch)).unwatched = if s.pendingBytes ≤ options.maxPendingBytes then _ else _
  split
  · rfl
  · generalize dropped : s.dropOldestPendingBytes options (s.pendingBytes - options.maxPendingBytes) = left
    have same : s.unwatched.dropOldestPendingBytes options
        (s.unwatched.pendingBytes - options.maxPendingBytes) = (left.1, left.2.1, left.2.2.unwatched) := by
      rw [← dropped]
      rfl
    rw [same]
    dsimp only
    split
    · rfl
    · split
      · rfl
      · rfl

theorem unwatched_append (data : JsString) :
    (s.appendBoundedData host.watched options data).unwatched =
      s.unwatched.appendBoundedData host options data :=
  unwatched_enforce _

theorem unwatched_bufferData (arrivedAt : ℤ) (data : JsString) (meta? : Option OutputMeta) :
    (s.bufferData host.watched options arrivedAt data meta?).unwatched =
      s.unwatched.bufferData host options arrivedAt data meta? := by
  have appended : ∀ stamped : PtyOutputBuffer (E × Watch),
      ((stamped.mergeNextSendMeta meta?).appendBoundedData host.watched options data).unwatched =
        (stamped.unwatched.mergeNextSendMeta meta?).appendBoundedData host options data := by
    intro stamped
    rw [unwatched_append, unwatched_merge]
  have stamped : (if data = [] then s else { s with lastOutputArrivalAt := some arrivedAt }).unwatched =
      if data = [] then s.unwatched else { s.unwatched with lastOutputArrivalAt := some arrivedAt } := by
    split
    · rfl
    · rfl
  unfold PtyOutputBuffer.bufferData
  dsimp only
  rw [← stamped, ← appended]
  generalize PtyOutputBuffer.appendBoundedData _ _ _ _ = after
  change (if !host.accepts after.env.1 then _ else if after.scheduled = some .paced ∧ after.hasPendingData
      then _ else if after.queuedBuffers ≠ [] ∨ options.maxFloodBufferSize ≤ after.dataBuffer.length then _
      else if options.maxBufferSize ≤ after.dataBuffer.length then _
      else if after.scheduled = none then _ else _ : PtyOutputBuffer (E × Watch)).unwatched =
    if !host.accepts after.env.1 then _ else if after.scheduled = some .paced ∧ after.hasPendingData
      then _ else if after.queuedBuffers ≠ [] ∨ options.maxFloodBufferSize ≤ after.dataBuffer.length then _
      else if options.maxBufferSize ≤ after.dataBuffer.length then _
      else if after.scheduled = none then _ else _
  split
  · rfl
  · split
    · rfl
    · split
      · exact unwatched_sendNextPendingChunk _
      · split
        · rfl
        · split
          · rfl
          · rfl

theorem unwatched_step (event : BufferEvent E) :
    (watchedStep host options s event).unwatched = step host options s.unwatched event := by
  cases event with
  | bufferData arrivedAt data meta? => exact unwatched_bufferData _ arrivedAt data meta?
  | flush => exact unwatched_flushNow _
  | flushPaced onDrained =>
    change (s.flushPaced host.watched options onDrained).unwatched =
      s.unwatched.flushPaced host options onDrained
    unfold PtyOutputBuffer.flushPaced
    change (if onDrained.isSome ∧ !host.accepts s.env.1 then _ else _ :
      PtyOutputBuffer (E × Watch)).unwatched = if onDrained.isSome ∧ !host.accepts s.env.1 then _ else _
    split
    · exact unwatched_notify _
    · rw [unwatched_notify, unwatched_sendNextPendingChunk]
      rfl
  | takePendingEntry => exact unwatched_notify _
  | discard => rfl
  | timerFires =>
    change (s.timerFires host.watched options).unwatched = s.unwatched.timerFires host options
    unfold PtyOutputBuffer.timerFires
    have same : s.unwatched.scheduled = s.scheduled := rfl
    rw [same]
    cases s.scheduled with
    | none => rfl
    | some kind =>
      cases kind with
      | immediate => exact unwatched_flushNow s
      | burst => exact unwatched_flushNow s
      | flood => exact unwatched_sendNextPendingChunk s
      | paced => exact unwatched_sendNextPendingChunk s
  | hostChanges env => rfl

end Unwatched

/-- **The watched run is the run.** -/
theorem unwatched_run (host : Host E) (options : BufferOptions) (env : E) (events : List (BufferEvent E)) :
    (events.foldl (watchedStep host options) (createWatched env)).unwatched =
      events.foldl (step host options) (createPtyOutputBuffer env) := by
  have start : (createWatched env).unwatched = createPtyOutputBuffer env := rfl
  rw [← start]
  generalize createWatched env = s
  induction events generalizing s with
  | nil => rfl
  | cons event events ih =>
    rw [foldl_cons, ih, unwatched_step]
    rfl

/-! ## What a chunk must carry -/

/-- The chunk is flagged where a switch was cut; and where one drop is all there was, the action it
carries is the one of the last switch that was cut. -/
def Informs (losses : List Loss) (meta? : Option OutputMeta) : Prop :=
  (∀ drop front sequence action, .overflow drop ∈ losses → drop.Loses front sequence action →
    meta?.any OutputMeta.droppedOutputMayAffectTerminalState = true) ∧
  ∀ drop action, losses = [.overflow drop] →
    meta?.bind OutputMeta.droppedOutputAlternateScreenAction = some action →
    ∃ front sequence, drop.LastLoss front sequence action

/-- Every chunk that left tells of what was lost before it. -/
def Watch.AllInformed (watch : Watch) : Prop :=
  ∀ losses meta?, (losses, meta?) ∈ watch.told → Informs losses meta?

/-- The windows show what this event cuts, and no note of a switch is discarded. -/
def Shown (options : BufferOptions) (s : PtyOutputBuffer (E × Watch)) : BufferEvent E → Prop
  | .bufferData _ data _ => ∀ drop, s.overflow options data = some drop →
    drop.Inspectable options.maxDroppedStateScanBytes
  | .discard => ∀ drop front sequence action, .overflow drop ∈ s.env.2.since →
    ¬ drop.Loses front sequence action
  | _ => True

def ShownRun (host : Host E) (options : BufferOptions) (s : PtyOutputBuffer (E × Watch)) :
    List (BufferEvent E) → Prop
  | [] => True
  | event :: events => Shown options s event ∧
    ShownRun host options (watchedStep host options s event) events

/-! ## What a drop reads -/

theorem take_foldl (limit : ℕ) (before : JsString) (pieces : List JsString) :
    pieces.foldl (fun head piece => head ++ piece.take (limit - head.length)) (before.take limit) =
      (before ++ pieces.flatten).take limit := by
  induction pieces generalizing before with
  | nil => simp
  | cons piece pieces ih =>
    have same : before.take limit ++ piece.take (limit - (before.take limit).length) =
        (before ++ piece).take limit := by
      have left : limit - min limit before.length = limit - before.length := by omega
      rw [take_append, length_take, left]
    rw [foldl_cons, same, ih, flatten_cons, append_assoc]

theorem readHead_eq (limit : ℕ) (pieces : List JsString) :
    readHead limit pieces = pieces.flatten.take limit := by
  have read := take_foldl limit [] pieces
  rwa [take_nil, nil_append] at read

theorem readPendingHead_eq (s : PtyOutputBuffer E) (limit : ℕ) :
    s.readPendingHead limit = s.buffered.take limit := by
  rw [readPendingHead, readHead_eq, buffered, flatten_append, flatten_singleton]

theorem recordDropped_foldl (limit : ℕ) (before : JsString) (pieces : List JsString) :
    pieces.foldl (recordDropped limit) (before.take limit, before.drop (before.length - limit)) =
      ((before ++ pieces.flatten).take limit,
        (before ++ pieces.flatten).drop ((before ++ pieces.flatten).length - limit)) := by
  induction pieces generalizing before with
  | nil => simp
  | cons piece pieces ih =>
    have same : recordDropped limit (before.take limit, before.drop (before.length - limit)) piece =
        ((before ++ piece).take limit, (before ++ piece).drop ((before ++ piece).length - limit)) := by
      have head := take_foldl limit before [piece]
      rw [flatten_singleton] at head
      have tail : before.drop (before.length - limit) ++ piece =
          (before ++ piece).drop (before.length - limit) := by
        rw [drop_append_of_le_length (Nat.sub_le _ _)]
      rw [recordDropped, tail, drop_drop, length_drop]
      have start : before.length - limit + ((before ++ piece).length - (before.length - limit) - limit) =
          (before ++ piece).length - limit := by
        simp only [length_append]
        omega
      exact Prod.ext head (congrArg (List.drop · (before ++ piece)) start)
    rw [foldl_cons, same, ih, flatten_cons, append_assoc]

section Drops

variable {host : Host E} {options : BufferOptions} {s : PtyOutputBuffer E} {limit : ℕ} {input : JsString}
  {requested : List DrainCallback}

theorem dropOldestPendingBytes_inspect (c : Conserved options limit input requested s) {bytes : ℕ}
    (some : bytes ≤ s.pendingBytes) :
    (s.dropOldestPendingBytes options bytes).1 =
      Drop.inspect options.maxDroppedStateScanBytes ⟨s.buffered.take bytes, s.buffered.drop bytes⟩ := by
  obtain ⟨whole, length, -, -⟩ := dropOldest_spec c some
  have dropped : (s.dropOldest bytes).texts.flatten = s.buffered.take bytes := by
    rw [← whole, take_left' length]
  have retained : (s.dropOldest bytes).queuedBuffers.flatten ++ (s.dropOldest bytes).dataBuffer =
      s.buffered.drop bytes := by
    rw [← whole, drop_left' length]
  have sample := recordDropped_foldl options.maxDroppedStateScanBytes [] (s.dropOldest bytes).texts
  rw [take_nil, drop_nil, nil_append, dropped] at sample
  rw [PtyOutputBuffer.dropOldestPendingBytes, readPendingHead_eq, buffered, sample, dropped, retained]
  rfl

theorem enforcePendingByteLimit_note (c : Conserved options limit input requested s) :
    (s.enforcePendingByteLimit host options).nextSendMeta =
      if s.buffered.length ≤ options.maxPendingBytes then s.nextSendMeta
      else
        let drop : Drop := ⟨s.buffered.take (s.buffered.length - options.maxPendingBytes),
          s.buffered.drop (s.buffered.length - options.maxPendingBytes)⟩
        let found := drop.inspect options.maxDroppedStateScanBytes
        if found.droppedOutputMayAffectTerminalState then
          (s.mergeNextSendMeta (some ⟨true, found.droppedOutputAlternateScreenAction⟩)).nextSendMeta
        else s.nextSendMeta := by
  have count := c.count
  unfold PtyOutputBuffer.enforcePendingByteLimit
  rw [← count]
  by_cases inside : s.pendingBytes ≤ options.maxPendingBytes
  · rw [if_pos inside, if_pos inside]
  · rw [if_neg inside, if_neg inside]
    have found := dropOldestPendingBytes_inspect c
      (Nat.sub_le s.pendingBytes options.maxPendingBytes)
    obtain ⟨-, amount⟩ := (c.raise (le_refl s.pendingBytes)).dropOldestPendingBytes
      (s.pendingBytes - options.maxPendingBytes) (Nat.sub_le _ _)
    have same : (s.dropOldestPendingBytes options
        (s.pendingBytes - options.maxPendingBytes)).2.2.nextSendMeta = s.nextSendMeta := rfl
    dsimp only
    rw [amount, if_neg (by omega), found]
    split
    · change (PtyOutputBuffer.mergeNextSendMeta _ _).nextSendMeta = _
      rw [mergeNextSendMeta, mergeNextSendMeta, same]
    · exact same

end Drops

/-! ## Notes -/

section Notes

variable {host : Host E} {options : BufferOptions} {s : PtyOutputBuffer E} {since : List Loss} {limit : ℕ}
  {input : JsString} {requested : List DrainCallback}

theorem informs_nil (meta? : Option OutputMeta) : Informs [] meta? := by
  refine ⟨?_, ?_⟩
  · intro drop front sequence action mem
    cases mem
  · intro drop action same
    cases same

/-- A note that is added to takes no flag back. -/
theorem merge_flag (meta? : Option OutputMeta)
    (flagged : s.nextSendMeta.any OutputMeta.droppedOutputMayAffectTerminalState) :
    (s.mergeNextSendMeta meta?).nextSendMeta.any OutputMeta.droppedOutputMayAffectTerminalState := by
  obtain ⟨before, note, flag⟩ := Option.any_eq_true _ _ |>.mp flagged
  cases meta? with
  | none => exact flagged
  | some added => simp [mergeNextSendMeta, note, flag]

theorem merge_action {meta? : Option OutputMeta} (silent : meta?.filter OutputMeta.tells = none) :
    (s.mergeNextSendMeta meta?).nextSendMeta.bind OutputMeta.droppedOutputAlternateScreenAction =
      s.nextSendMeta.bind OutputMeta.droppedOutputAlternateScreenAction := by
  cases meta? with
  | none => rfl
  | some added =>
    have none_ : added.droppedOutputMayAffectTerminalState = false ∧
        added.droppedOutputAlternateScreenAction = none := by
      simpa [OutputMeta.tells] using silent
    cases note : s.nextSendMeta with
    | none => simp [mergeNextSendMeta, note, none_]
    | some before => simp [mergeNextSendMeta, note, none_]

/-- The next chunk tells of every loss since the last one. -/
structure Noted (since : List Loss) (s : PtyOutputBuffer E) : Prop where
  informs : Informs since s.nextSendMeta
  quiet : since = [] → s.nextSendMeta.bind OutputMeta.droppedOutputAlternateScreenAction = none

theorem Noted.merge (noted : Noted since s) (meta? : Option OutputMeta) :
    Noted (since ++ (meta?.filter OutputMeta.tells).toList.map .reported) (s.mergeNextSendMeta meta?) := by
  cases told : meta?.filter OutputMeta.tells with
  | none =>
    have same := merge_action (s := s) told
    rw [toList_none, map_nil, append_nil]
    refine ⟨⟨?_, ?_⟩, ?_⟩
    · intro drop front sequence action mem loses
      exact merge_flag meta? (noted.informs.1 drop front sequence action mem loses)
    · intro drop action one carried
      exact noted.informs.2 drop action one (same.symm.trans carried)
    · intro none_
      exact same.trans (noted.quiet none_)
  | some added =>
    rw [toList_some, map_singleton]
    refine ⟨⟨?_, ?_⟩, ?_⟩
    · intro drop front sequence action mem loses
      rcases mem_append.mp mem with mem | mem
      · exact merge_flag meta? (noted.informs.1 drop front sequence action mem loses)
      · cases mem_singleton.mp mem
    · intro drop action one
      cases append_eq_singleton_iff.mp one with
      | inl first => cases first.2
      | inr second => cases second.2
    · intro none_
      exact absurd (append_eq_nil_iff.mp none_).2 (cons_ne_nil _ _)

/-- A drop that the windows show is noted. -/
theorem Noted.overflow {s' : PtyOutputBuffer E} {drop : Drop} (noted : Noted since s)
    (wide : 3 ≤ options.maxDroppedStateScanBytes)
    (inspectable : drop.Inspectable options.maxDroppedStateScanBytes)
    (note : s'.nextSendMeta =
      if (drop.inspect options.maxDroppedStateScanBytes).droppedOutputMayAffectTerminalState then
        (s.mergeNextSendMeta (some ⟨true, (drop.inspect
          options.maxDroppedStateScanBytes).droppedOutputAlternateScreenAction⟩)).nextSendMeta
      else s.nextSendMeta) :
    Noted (since ++ [.overflow drop]) s' := by
  refine ⟨⟨?_, ?_⟩, ?_⟩
  · intro other front sequence action mem loses
    rw [note]
    rcases mem_append.mp mem with mem | mem
    · have flagged := noted.informs.1 other front sequence action mem loses
      split
      · exact merge_flag _ flagged
      · exact flagged
    · cases mem_singleton.mp mem
      rw [if_pos (drop.inspect_flags wide inspectable loses)]
      simp [mergeNextSendMeta]
  · intro other action one carried
    obtain ⟨none_, same⟩ : since = [] ∧ drop = other := by
      rcases append_eq_singleton_iff.mp one with first | second
      · exact ⟨first.1, by cases first.2; rfl⟩
      · cases second.2
    subst same
    rw [note] at carried
    split at carried
    · exact drop.inspect_action inspectable carried
    · cases (noted.quiet none_).symm.trans carried
  · intro none_
    exact absurd (append_eq_nil_iff.mp none_).2 (cons_ne_nil _ _)

theorem Noted.append (noted : Noted since s) (c : Conserved options limit input requested s)
    (wide : 3 ≤ options.maxDroppedStateScanBytes) {data : JsString}
    (shown : ∀ drop, s.overflow options data = some drop →
      drop.Inspectable options.maxDroppedStateScanBytes) :
    Noted (since ++ (s.overflow options data).toList.map .overflow)
      (s.appendBoundedData host options data) := by
  obtain ⟨whole, -, -⟩ := appendChunks_spec data c.queued c.tail
  have note := @enforcePendingByteLimit_note _ host _ _ _ _ _ (conserved_appended c host data)
  have same : ({ s with
      queuedBuffers := (appendChunks options s.queuedBuffers s.dataBuffer data).1,
      dataBuffer := (appendChunks options s.queuedBuffers s.dataBuffer data).2,
      pendingBytes := s.pendingBytes + data.length }.reportPendingBytes host).buffered =
      s.buffered ++ data := whole
  rw [same] at note
  unfold PtyOutputBuffer.overflow at shown ⊢
  dsimp only at shown note ⊢
  by_cases inside : (s.buffered ++ data).length ≤ options.maxPendingBytes
  · rw [if_pos inside] at note ⊢
    rw [toList_none, map_nil, append_nil]
    refine ⟨?_, ?_⟩
    · rw [PtyOutputBuffer.appendBoundedData, note]
      exact noted.informs
    · rw [PtyOutputBuffer.appendBoundedData, note]
      exact noted.quiet
  · rw [if_neg inside] at note shown ⊢
    exact noted.overflow wide (shown _ rfl) note

end Notes

/-! ## Steps -/

/-- Every chunk was told of the losses before it, and the next one will be. -/
structure Watched (s : PtyOutputBuffer (E × Watch)) : Prop extends Noted s.env.2.since s where
  told : s.env.2.AllInformed

section Steps

variable {host : Host E} {options : BufferOptions} {s s' : PtyOutputBuffer (E × Watch)}

section

variable (watched : Watched s)
include watched

/-- The buffers, the timers and the host's own state are no part of it. -/
theorem Watched.of_same (watch : s'.env.2 = s.env.2)
    (note : s'.nextSendMeta = s.nextSendMeta) : Watched s' := by
  refine ⟨?_, ?_⟩
  · rw [watch]
    exact ⟨note ▸ watched.informs, note ▸ watched.quiet⟩
  · rw [watch]
    exact watched.told

omit watched in
theorem Watched.of_told (told : s.env.2.AllInformed)
    (since : s.env.2.since = []) (note : s.nextSendMeta = none) : Watched s := by
  refine ⟨⟨?_, ?_⟩, told⟩
  · rw [since]
    exact informs_nil _
  · rw [note]
    exact fun _ => rfl

theorem Watched.tell (losses : List Loss) (meta? : Option OutputMeta)
    (mem : (losses, meta?) ∈ (s.env.2.tell s.nextSendMeta).told) : Informs losses meta? := by
  rcases mem_append.mp mem with mem | mem
  · exact watched.told losses meta? mem
  · cases mem_singleton.mp mem
    exact watched.informs

theorem Watched.deliver (chunk : JsString) : Watched (s.deliver host.watched chunk) :=
  .of_told watched.tell rfl rfl

theorem Watched.notify : Watched s.notifyDrained := by
  unfold notifyDrained
  split
  · exact watched
  · exact watched.of_same rfl rfl

theorem Watched.sendQueued : Watched (s.sendQueued host.watched) := by
  unfold PtyOutputBuffer.sendQueued
  generalize s.queuedBuffers = queue
  induction queue generalizing s with
  | nil => exact watched
  | cons chunk queue ih =>
    have popped : Watched { s with queuedBuffers := s.queuedBuffers.tail } := watched.of_same rfl rfl
    exact ih (popped.deliver chunk)

theorem Watched.sendFlood : Watched (s.sendFlood host.watched options) := by
  induction s using PtyOutputBuffer.sendFlood.induct host.watched options with
  | case1 s long ih =>
    have cut : Watched { s with dataBuffer := s.dataBuffer.drop options.maxFloodBufferSize } :=
      watched.of_same rfl rfl
    rw [PtyOutputBuffer.sendFlood, if_pos long]
    exact ih (cut.deliver _)
  | case2 s short =>
    rw [PtyOutputBuffer.sendFlood, if_neg short]
    exact watched

theorem Watched.sendTail : Watched (s.sendTail host.watched) := by
  unfold PtyOutputBuffer.sendTail
  split
  · exact watched
  · have emptied : Watched { s with dataBuffer := [] } := watched.of_same rfl rfl
    exact emptied.deliver _

theorem Watched.flushNow : Watched (s.flushNow host.watched options) := by
  have idle : Watched { s with scheduled := none } := watched.of_same rfl rfl
  unfold PtyOutputBuffer.flushNow
  dsimp only
  split
  · exact idle
  · exact idle.sendQueued.sendFlood.sendTail

theorem Watched.sendNext : Watched (s.sendNext host.watched options) := by
  unfold PtyOutputBuffer.sendNext
  split
  · rename_i chunk rest _
    have popped : Watched { s with queuedBuffers := rest } := watched.of_same rfl rfl
    exact popped.deliver chunk
  · split
    · have cut : Watched { s with dataBuffer := s.dataBuffer.drop options.maxFloodBufferSize } :=
        watched.of_same rfl rfl
      exact cut.deliver _
    · exact watched.sendTail

theorem Watched.clear (fate : Fate) : Watched (s.clearPendingBuffers host.watched fate) :=
  watched.of_same rfl rfl

theorem Watched.sendNextPendingChunk : Watched (s.sendNextPendingChunk host.watched options) := by
  have idle : Watched { s with scheduled := none } := watched.of_same rfl rfl
  have sent : Watched (s.sendNext host.watched options) := watched.sendNext
  unfold PtyOutputBuffer.sendNextPendingChunk
  split
  · split
    · exact idle
    · exact (idle.clear .refused).notify
  · split
    · exact Watched.notify (sent.of_same rfl rfl)
    · exact sent.of_same rfl rfl

end

variable {limit : ℕ} {input : JsString} {requested : List DrainCallback}

theorem overflow_merge (s : PtyOutputBuffer E) (meta? : Option OutputMeta) (data : JsString) :
    (s.mergeNextSendMeta meta?).overflow options data = s.overflow options data := by
  cases meta? with
  | none => rfl
  | some added => rfl

theorem appendBoundedData_watch (data : JsString) :
    (s.appendBoundedData host.watched options data).env.2 = s.env.2 := by
  unfold PtyOutputBuffer.appendBoundedData PtyOutputBuffer.enforcePendingByteLimit
  dsimp only
  split
  · rfl
  · split
    · rfl
    · split
      · rfl
      · rfl

section

variable (watched : Watched s) (c : Conserved options limit input requested s)
  (wide : 3 ≤ options.maxDroppedStateScanBytes)
include watched c wide

theorem Watched.append {data : JsString} (meta? : Option OutputMeta)
    (shown : ∀ drop, s.overflow options data = some drop →
      drop.Inspectable options.maxDroppedStateScanBytes) :
    Watched (((s.under (s.env.2.lose (s.losses options data meta?))).mergeNextSendMeta
      meta?).appendBoundedData host.watched options data) := by
  have merged : Noted (s.env.2.since ++ (meta?.filter OutputMeta.tells).toList.map .reported)
      ((s.under (s.env.2.lose (s.losses options data meta?))).mergeNextSendMeta meta?) := by
    have before : Noted s.env.2.since (s.under (s.env.2.lose (s.losses options data meta?))) :=
      ⟨watched.informs, watched.quiet⟩
    exact before.merge meta?
  have c' : Conserved options limit input requested
      ((s.under (s.env.2.lose (s.losses options data meta?))).mergeNextSendMeta meta?) :=
    Conserved.merge (c.retime _ _ _ _) meta?
  have cut : ((s.under (s.env.2.lose (s.losses options data meta?))).mergeNextSendMeta
      meta?).overflow options data = s.overflow options data := overflow_merge _ meta? data
  have noted := @Noted.append _ host.watched _ _ _ _ _ _ merged c' wide data (cut ▸ shown)
  have same : ((s.under (s.env.2.lose (s.losses options data meta?))).mergeNextSendMeta meta?).env.2 =
      s.env.2.lose (s.losses options data meta?) := by
    cases meta? with
    | none => rfl
    | some added => rfl
  refine ⟨?_, ?_⟩
  · rw [appendBoundedData_watch, same]
    rw [append_assoc, cut] at noted
    exact noted
  · rw [appendBoundedData_watch, same]
    exact watched.told

theorem Watched.bufferData (arrivedAt : ℤ) {data : JsString} (meta? : Option OutputMeta)
    (shown : ∀ drop, s.overflow options data = some drop →
      drop.Inspectable options.maxDroppedStateScanBytes) :
    Watched ((s.under (s.env.2.lose (s.losses options data meta?))).bufferData host.watched options
      arrivedAt data meta?) := by
  have appended : Watched (((if data = [] then s.under (s.env.2.lose (s.losses options data meta?))
      else { s.under (s.env.2.lose (s.losses options data meta?)) with
        lastOutputArrivalAt := some arrivedAt }).mergeNextSendMeta meta?).appendBoundedData host.watched
          options data) := by
    split
    · exact watched.append c wide meta? shown
    · have stamped : Watched { s with lastOutputArrivalAt := some arrivedAt } := watched.of_same rfl rfl
      exact stamped.append (c.retime _ _ _ _) wide meta? shown
  unfold PtyOutputBuffer.bufferData
  dsimp only
  generalize PtyOutputBuffer.appendBoundedData _ _ _ _ = after at appended ⊢
  split
  · exact appended
  · split
    · exact appended
    · split
      · exact Watched.sendNextPendingChunk (appended.of_same rfl rfl)
      · split
        · exact appended.of_same rfl rfl
        · split
          · exact appended.of_same rfl rfl
          · exact appended

/-- **One step keeps it.** -/
theorem Watched.step {event : BufferEvent E}
    (shown : Shown options s event) : Watched (watchedStep host options s event) := by
  cases event with
  | bufferData arrivedAt data meta? => exact watched.bufferData c wide arrivedAt meta? shown
  | flush => exact Watched.flushNow (watched.of_same rfl rfl)
  | flushPaced onDrained =>
    change Watched (s.flushPaced host.watched options onDrained)
    have asked : Watched
        { s with drainCallbacks := s.drainCallbacks ++ onDrained.toList }.cancelScheduled :=
      watched.of_same rfl rfl
    unfold PtyOutputBuffer.flushPaced
    dsimp only
    split
    · exact (asked.clear .refused).notify
    · exact asked.sendNextPendingChunk.notify
  | takePendingEntry =>
    have taken : Watched ({ s.under (s.env.2.tell s.nextSendMeta) with
        lastOutputArrivalAt := none, scheduled := none, nextSendMeta := none }.clearPendingBuffers
          host.watched .taken) :=
      .of_told watched.tell rfl rfl
    exact taken.notify
  | discard =>
    refine ⟨⟨⟨?_, ?_⟩, fun _ => rfl⟩, watched.told⟩
    · intro drop front sequence action mem loses
      exact absurd loses (shown drop front sequence action mem)
    · intro drop action one carried
      cases carried
  | timerFires =>
    change Watched (s.timerFires host.watched options)
    unfold PtyOutputBuffer.timerFires
    cases s.scheduled with
    | none => exact watched
    | some kind =>
      cases kind with
      | immediate => exact watched.flushNow
      | burst => exact watched.flushNow
      | flood => exact watched.sendNextPendingChunk
      | paced => exact watched.sendNextPendingChunk
  | hostChanges env => exact watched.of_same rfl rfl

end

end Steps

/-! ## Runs -/

variable {host : Host E} {options : BufferOptions} {s : PtyOutputBuffer (E × Watch)} {input : JsString}
  {requested : List DrainCallback}

theorem Watched.run {events : List (BufferEvent E)} (watched : Watched s)
    (c : Conserved options options.maxPendingBytes input requested s)
    (wide : 3 ≤ options.maxDroppedStateScanBytes) (shown : ShownRun host options s events) :
    Watched (events.foldl (watchedStep host options) s) := by
  induction events generalizing s input requested with
  | nil => exact watched
  | cons event events ih =>
    have stepped : Conserved options options.maxPendingBytes _ _ (watchedStep host options s event) :=
      Conserved.step (c.retime _ _ _ _) _
    exact ih (watched.step c wide shown.1) stepped shown.2

/-- **Where the windows show what is dropped, every chunk tells of it.** -/
theorem drops_informed (host : Host E) (options : BufferOptions)
    (wide : 256 ≤ options.maxDroppedStateScanBytes) (env : E) (events : List (BufferEvent E))
    (shown : ShownRun host options (createWatched env) events) :
    (events.foldl (watchedStep host options) (createWatched env)).env.2.AllInformed := by
  have start : Watched (createWatched env) := by
    refine .of_told ?_ rfl rfl
    intro losses meta? mem
    cases mem
  have empty : Conserved options options.maxPendingBytes [] [] (createWatched env) :=
    conserved_run host.watched options (env, ⟨[], []⟩) []
  exact (start.run empty (by omega) shown).told

/-- Eight units wait at most, and 256 units of what is dropped are looked at from each side. -/
def seamOptions : BufferOptions := ⟨8, 8, 8, 3, 8, 256, by decide, by decide⟩

def pushedOut : List (BufferEvent Bool) :=
  [.bufferData 0 (text "\x1b[?1049hxxxxxxxx") none, .takePendingEntry]

theorem shown_pushedOut : ShownRun flagHost seamOptions (createWatched false) pushedOut := by
  refine ⟨?_, trivial, trivial⟩
  intro drop cut
  obtain rfl : drop = ⟨text "\x1b[?1049h", text "xxxxxxxx"⟩ := by
    refine Option.some.inj (cut.symm.trans ?_)
    decide +kernel
  have only : ∀ i < 16, (text "\x1b[?1049hxxxxxxxx")[i]? = some escapeUnit → i = 0 := by decide
  refine ⟨?_, ?_, ?_, ?_⟩
  · intro front sequence action loses ends
    obtain ⟨rest, stands⟩ := loses.stands
    obtain ⟨tail, rfl⟩ := loses.switch.cons
    have starts := loses.starts
    have there : (text "\x1b[?1049hxxxxxxxx")[front.length]? = some escapeUnit := by
      have same : text "\x1b[?1049hxxxxxxxx" = front ++ (escapeUnit :: openBracket :: tail ++ rest) := stands
      rw [same, getElem?_append_right (le_refl _), Nat.sub_self]
      rfl
    have none_ := only front.length (by change front.length < 8 at starts; omega) there
    obtain rfl := length_eq_zero_iff.mp none_
    obtain ⟨params, inside, -⟩ := ends
    cases suffix_nil.mp inside
  · intro front sequence action loses short early
    change front.length + 256 < 8 at early
    omega
  · intro front sequence action loses
    obtain ⟨rest, stands⟩ := loses.stands
    have total : 16 = (front ++ (sequence ++ rest)).length := congrArg List.length stands
    simp only [length_append] at total
    change front.length + sequence.length ≤ 8 + 256
    omega
  · intro long
    change 256 < 8 at long
    omega

theorem drops_informed_pushedOut :
    (pushedOut.foldl (watchedStep flagHost seamOptions) (createWatched false)).env.2.AllInformed :=
  drops_informed flagHost seamOptions (by decide) false pushedOut shown_pushedOut

/-- A switch that starts at the last unit of the first window, where the second window starts behind
that unit. -/
def atTheSeam : Drop :=
  ⟨List.replicate 255 ⟨'x'.toNat, by decide⟩ ++ text "\x1b[?1049h" ++
    List.replicate 249 ⟨'x'.toNat, by decide⟩, List.replicate 8 ⟨'x'.toNat, by decide⟩⟩

theorem not_informed_atTheSeam :
    ¬ ([BufferEvent.bufferData 0 (atTheSeam.dropped ++ atTheSeam.retained) none, .takePendingEntry].foldl
      (watchedStep flagHost seamOptions) (createWatched false)).env.2.AllInformed := by
  intro informed
  have told : ([Loss.overflow atTheSeam], none) ∈
      ([BufferEvent.bufferData 0 (atTheSeam.dropped ++ atTheSeam.retained) none, .takePendingEntry].foldl
        (watchedStep flagHost seamOptions) (createWatched false)).env.2.told := by
    decide +kernel
  have loses : atTheSeam.Loses (List.replicate 255 ⟨'x'.toNat, by decide⟩) (text "\x1b[?1049h") .enter := by
    refine ⟨by decide +kernel, ⟨by decide, by decide⟩, ?_⟩
    refine ⟨List.replicate 249 ⟨'x'.toNat, by decide⟩ ++ atTheSeam.retained, ?_⟩
    simp only [atTheSeam, append_assoc]
  have flagged := (informed _ _ told).1 _ _ _ _ (mem_singleton_self _) loses
  cases flagged

end Netcatty.PtyOutput
