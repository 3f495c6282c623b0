import Mathlib.Data.List.Induction
import Netcatty.PtyOutputBuffer

/-!
The PTY output buffer neither loses nor duplicates output.

In every run, what left the buffer, in order, followed by what is buffered is the
input (`Conserved`).  A drain callback waits only while output is buffered, unless
`flushNow` empties the buffer under it: it is the one path that does not notify
(`flushNow_strands`).
-/

namespace Netcatty.PtyOutput

open PtyOutputBuffer List Bool

variable {E : Type*} {host : Host E} {options : BufferOptions} {s : PtyOutputBuffer E}
  {limit : ℕ} {input : JsString} {requested : List DrainCallback}

/-- What the buffer took in is what left it and what it holds; chunks and sends are
bounded; every drain callback was called, was dropped, or waits. -/
structure Conserved (options : BufferOptions) (limit : ℕ) (input : JsString)
    (requested : List DrainCallback) (s : PtyOutputBuffer E) : Prop where
  whole : (s.log.map Prod.snd).flatten ++ s.buffered = input
  count : s.pendingBytes = s.buffered.length
  bound : s.pendingBytes ≤ limit
  queued : ∀ chunk ∈ s.queuedBuffers, 0 < chunk.length ∧ chunk.length ≤ options.maxFloodBufferSize
  tail : s.dataBuffer.length ≤ options.maxFloodBufferSize
  sends : ∀ chunk, (Fate.sent, chunk) ∈ s.log → chunk.length ≤ options.maxFloodBufferSize
  callbacks : requested.Perm (s.notified ++ s.forgotten ++ s.drainCallbacks)

namespace Conserved

section

variable (c : Conserved options limit input requested s)

include c

/-- Timers, clocks, meta and the host's state are no part of it. -/
theorem retime (scheduled : Option TimerKind)
    (lastOutputArrivalAt : Option ℤ) (nextSendMeta : Option OutputMeta) (env : E) :
    Conserved options limit input requested { s with
      scheduled := scheduled, lastOutputArrivalAt := lastOutputArrivalAt,
      nextSendMeta := nextSendMeta, env := env } :=
  ⟨c.whole, c.count, c.bound, c.queued, c.tail, c.sends, c.callbacks⟩

theorem raise {limit' : ℕ}
    (le : s.pendingBytes ≤ limit') : Conserved options limit' input requested s :=
  ⟨c.whole, c.count, le, c.queued, c.tail, c.sends, c.callbacks⟩

theorem merge (meta? : Option OutputMeta) :
    Conserved options limit input requested (s.mergeNextSendMeta meta?) := by
  cases meta? with
  | none => exact c
  | some added => exact c.retime _ _ _ _

theorem deliver (host : Host E)
    {queue : List JsString} {tail chunk : JsString} (split : s.buffered = chunk ++ (queue.flatten ++ tail))
    (queued : ∀ piece ∈ queue, 0 < piece.length ∧ piece.length ≤ options.maxFloodBufferSize)
    (tail_le : tail.length ≤ options.maxFloodBufferSize)
    (short : chunk.length ≤ options.maxFloodBufferSize) :
    Conserved options limit input requested
      ({ s with queuedBuffers := queue, dataBuffer := tail }.deliver host chunk) := by
  have count := c.count
  have bound := c.bound
  rw [split, length_append] at count
  refine ⟨?_, ?_, ?_, queued, tail_le, ?_, c.callbacks⟩
  · change ((s.log ++ [(Fate.sent, chunk)]).map Prod.snd).flatten ++ (queue.flatten ++ tail) = input
    rw [← c.whole, split, map_append, flatten_append, append_assoc]
    simp
  · change s.pendingBytes - chunk.length = (queue.flatten ++ tail).length
    omega
  · change s.pendingBytes - chunk.length ≤ limit
    omega
  · intro other mem
    rcases mem_append.mp mem with mem | mem
    · exact c.sends other mem
    · cases mem_singleton.mp mem
      exact short

theorem clear (host : Host E) (fate : Fate) (lost : fate ≠ .sent) :
    Conserved options limit input requested (s.clearPendingBuffers host fate) := by
  refine ⟨?_, rfl, Nat.zero_le _, ?_, Nat.zero_le _, ?_, c.callbacks⟩
  · change ((s.log ++ [(fate, s.buffered)]).map Prod.snd).flatten ++ [] = input
    rw [← c.whole, map_append, flatten_append]
    simp
  · intro chunk mem
    cases mem
  · intro chunk mem
    rcases mem_append.mp mem with mem | mem
    · exact c.sends chunk mem
    · exact absurd (congrArg Prod.fst (mem_singleton.mp mem)).symm lost

theorem notify : Conserved options limit input requested s.notifyDrained := by
  unfold notifyDrained
  split
  · exact c
  · refine ⟨c.whole, c.count, c.bound, c.queued, c.tail, c.sends, c.callbacks.trans ?_⟩
    change (s.notified ++ s.forgotten ++ s.drainCallbacks).Perm
      (s.notified ++ s.drainCallbacks ++ s.forgotten ++ [])
    rw [append_nil, append_assoc, append_assoc]
    exact perm_append_comm.append_left _

end

end Conserved

/-! ## Pending data -/

theorem hasPendingData_iff (c : Conserved options limit input requested s) :
    s.hasPendingData ↔ 0 < s.pendingBytes := by
  rw [c.count, buffered, length_append, hasPendingData, decide_eq_true_eq]
  constructor
  · rintro (queued | tail)
    · obtain ⟨chunk, mem⟩ := exists_mem_of_ne_nil _ queued
      have inside := (sublist_flatten_of_mem mem).length_le
      have pos := (c.queued chunk mem).1
      omega
    · have pos := length_pos_iff.mpr tail
      omega
  · intro pos
    by_cases queued : s.queuedBuffers = []
    · rw [queued, flatten_nil, length_nil] at pos
      exact .inr (length_pos_iff.mp (by omega))
    · exact .inl queued

def Waiting (s : PtyOutputBuffer E) : Prop := s.drainCallbacks ≠ [] → 0 < s.pendingBytes

theorem waiting_notify (c : Conserved options limit input requested s) : Waiting s.notifyDrained := by
  unfold notifyDrained
  split
  · rename_i pending
    exact fun _ => (hasPendingData_iff c).mp pending
  · exact fun waits => absurd rfl waits

/-! ## Flushing -/

theorem conserved_sendQueued_loop (host : Host E) (queue : List JsString)
    (c : Conserved options limit input requested s) (same : s.queuedBuffers = queue) :
    let sent := queue.foldl (fun s chunk =>
      { s with queuedBuffers := s.queuedBuffers.tail }.deliver host chunk) s
    Conserved options limit input requested sent ∧ sent.queuedBuffers = [] ∧
      sent.dataBuffer = s.dataBuffer ∧ sent.drainCallbacks = s.drainCallbacks ∧
      sent.scheduled = s.scheduled := by
  induction queue generalizing s with
  | nil => exact ⟨c, same, rfl, rfl, rfl⟩
  | cons chunk queue ih =>
    have split : s.buffered = chunk ++ (s.queuedBuffers.tail.flatten ++ s.dataBuffer) := by
      rw [buffered, same, flatten_cons, append_assoc, tail_cons]
    have later : ∀ piece ∈ s.queuedBuffers.tail, 0 < piece.length ∧
        piece.length ≤ options.maxFloodBufferSize :=
      fun piece mem => c.queued piece (mem_of_mem_tail mem)
    have head := (c.queued chunk (by rw [same]; exact mem_cons_self)).2
    have next := c.deliver host split later c.tail head
    obtain ⟨all, queued, tail, callbacks, timer⟩ := ih next (by
      change s.queuedBuffers.tail = queue
      rw [same, tail_cons])
    exact ⟨all, queued, tail, callbacks, timer⟩

theorem conserved_sendTail (c : Conserved options limit input requested s)
    (empty : s.queuedBuffers = []) : Conserved options limit input requested (s.sendTail host) := by
  unfold sendTail
  split
  · exact c
  · have split : s.buffered = s.dataBuffer ++ (s.queuedBuffers.flatten ++ []) := by
      rw [buffered, empty, flatten_nil, nil_append, append_nil, append_nil]
    exact c.deliver host split c.queued (Nat.zero_le _) c.tail

theorem sendTail_empties (host : Host E) (empty : s.queuedBuffers = []) :
    (s.sendTail host).buffered = [] ∧ (s.sendTail host).drainCallbacks = s.drainCallbacks ∧
      (s.sendTail host).scheduled = s.scheduled := by
  unfold sendTail
  split
  · rename_i none
    exact ⟨by rw [buffered, empty, none]; rfl, rfl, rfl⟩
  · refine ⟨?_, rfl, rfl⟩
    change s.queuedBuffers.flatten ++ [] = []
    rw [empty]
    rfl

/-- A tail within the bound is not split. -/
theorem sendFlood_eq (tail : s.dataBuffer.length ≤ options.maxFloodBufferSize) :
    s.sendFlood host options = s := by
  rw [sendFlood, if_neg (Nat.not_lt.mpr tail)]

theorem Conserved.flushNow (c : Conserved options limit input requested s) :
    Conserved options limit input requested (s.flushNow host options) := by
  have idle := c.retime none s.lastOutputArrivalAt s.nextSendMeta s.env
  obtain ⟨sent, empty, tail, -, -⟩ := conserved_sendQueued_loop host _ idle rfl
  unfold PtyOutputBuffer.flushNow
  dsimp only
  split
  · exact idle
  · rw [sendQueued, sendFlood_eq sent.tail]
    exact conserved_sendTail sent empty

theorem flushNow_strands (c : Conserved options limit input requested s)
    (accepted : host.accepts s.env) :
    (s.flushNow host options).buffered = [] ∧ (s.flushNow host options).scheduled = none ∧
      (s.flushNow host options).drainCallbacks = s.drainCallbacks := by
  have idle := c.retime none s.lastOutputArrivalAt s.nextSendMeta s.env
  obtain ⟨sent, empty, tail, callbacks, timer⟩ := conserved_sendQueued_loop host _ idle rfl
  unfold PtyOutputBuffer.flushNow
  dsimp only
  rw [accepted, if_neg (by decide), sendQueued, sendFlood_eq sent.tail]
  obtain ⟨drained, kept, still⟩ := sendTail_empties host empty
  exact ⟨drained, still.trans timer, kept.trans callbacks⟩

theorem Waiting.flushNow (w : Waiting s) (c : Conserved options limit input requested s)
    (undisturbed : host.accepts s.env → s.drainCallbacks = []) :
    Waiting (s.flushNow host options) := by
  by_cases accepted : host.accepts s.env = true
  · obtain ⟨-, -, kept⟩ := flushNow_strands c accepted
    intro waits
    rw [kept] at waits
    exact absurd (undisturbed accepted) waits
  · unfold PtyOutputBuffer.flushNow
    dsimp only
    rw [eq_false_iff.mpr accepted, if_pos (by decide)]
    exact w

theorem conserved_sendNext (c : Conserved options limit input requested s) (host : Host E) :
    Conserved options limit input requested (s.sendNext host options) := by
  unfold PtyOutputBuffer.sendNext
  cases queue : s.queuedBuffers with
  | cons chunk rest =>
    have split : s.buffered = chunk ++ (rest.flatten ++ s.dataBuffer) := by
      rw [buffered, queue, flatten_cons, append_assoc]
    have queued := c.queued
    rw [queue] at queued
    obtain ⟨head, later⟩ := forall_mem_cons.mp queued
    exact c.deliver host split later c.tail head.2
  | nil =>
    dsimp only
    rw [if_neg (Nat.not_lt.mpr c.tail)]
    exact conserved_sendTail c queue

theorem Conserved.sendNextPendingChunk (c : Conserved options limit input requested s) :
    Conserved options limit input requested (s.sendNextPendingChunk host options) := by
  have idle := c.retime none s.lastOutputArrivalAt s.nextSendMeta s.env
  have sent := conserved_sendNext c host
  unfold PtyOutputBuffer.sendNextPendingChunk
  split
  · split
    · exact idle
    · exact (idle.clear host .refused (by decide)).notify
  · split
    · exact (sent.retime none _ _ _).notify
    · exact sent.retime (some .paced) _ _ _

theorem waiting_sendNextPendingChunk (c : Conserved options limit input requested s) :
    Waiting (s.sendNextPendingChunk host options) := by
  have idle := c.retime none s.lastOutputArrivalAt s.nextSendMeta s.env
  have sent := conserved_sendNext c host
  unfold PtyOutputBuffer.sendNextPendingChunk
  split
  · split
    · rename_i none
      exact fun waits => absurd none waits
    · exact waiting_notify (idle.clear host .refused (by decide))
  · split
    · exact waiting_notify (sent.retime none _ _ _)
    · rename_i pending
      rw [not_eq_true', not_eq_false] at pending
      exact fun _ => (hasPendingData_iff sent).mp pending

/-! ## Appending -/

theorem appendChunks_spec {queue : List JsString} {tail : JsString} (remaining : JsString)
    (queued : ∀ chunk ∈ queue, 0 < chunk.length ∧ chunk.length ≤ options.maxFloodBufferSize)
    (tail_le : tail.length ≤ options.maxFloodBufferSize) :
    let appended := appendChunks options queue tail remaining
    appended.1.flatten ++ appended.2 = queue.flatten ++ tail ++ remaining ∧
      (∀ chunk ∈ appended.1, 0 < chunk.length ∧ chunk.length ≤ options.maxFloodBufferSize) ∧
      appended.2.length ≤ options.maxFloodBufferSize := by
  have positive := options.positive
  induction queue, tail, remaining using appendChunks.induct options with
  | case1 queue tail =>
    rw [appendChunks, if_pos rfl, append_nil]
    exact ⟨rfl, queued, tail_le⟩
  | case2 queue tail remaining some available none ih =>
    -- the tail is full and becomes a chunk
    have more : ∀ chunk ∈ queue ++ [tail], 0 < chunk.length ∧
        chunk.length ≤ options.maxFloodBufferSize := by
      intro chunk mem
      rcases mem_append.mp mem with mem | mem
      · exact queued chunk mem
      · rw [mem_singleton.mp mem]
        omega
    obtain ⟨whole, chunks, short⟩ := ih more (Nat.zero_le _)
    rw [appendChunks, if_neg some, if_pos none]
    refine ⟨?_, chunks, short⟩
    rw [whole]
    simp
  | case3 queue tail remaining some available room full longer ih =>
    have short : full.length ≤ options.maxFloodBufferSize := by
      simp only [full, available, length_append, length_take]
      omega
    have more : ∀ chunk ∈ queue ++ [full], 0 < chunk.length ∧
        chunk.length ≤ options.maxFloodBufferSize := by
      intro chunk mem
      rcases mem_append.mp mem with mem | mem
      · exact queued chunk mem
      · rw [mem_singleton.mp mem]
        omega
    obtain ⟨whole, chunks, last⟩ := ih more (Nat.zero_le _)
    rw [appendChunks, if_neg some, if_neg room, if_pos longer]
    refine ⟨?_, chunks, last⟩
    rw [whole]
    simp [full]
  | case4 queue tail remaining some available room full under ih =>
    have short : full.length ≤ options.maxFloodBufferSize := by
      simp only [full, available, length_append, length_take]
      omega
    obtain ⟨whole, chunks, last⟩ := ih queued short
    rw [appendChunks, if_neg some, if_neg room, if_neg under]
    refine ⟨?_, chunks, last⟩
    rw [whole]
    simp [full]

theorem dropChunks_spec (bytes : ℕ) {queue : List JsString}
    (queued : ∀ chunk ∈ queue, 0 < chunk.length ∧ chunk.length ≤ options.maxFloodBufferSize) :
    let dropped := dropChunks bytes queue
    dropped.1.flatten ++ dropped.2.1.flatten = queue.flatten ∧
      dropped.1.flatten.length + dropped.2.2 = bytes ∧
      (dropped.2.2 ≠ 0 → dropped.2.1 = []) ∧
      ∀ chunk ∈ dropped.2.1, 0 < chunk.length ∧ chunk.length ≤ options.maxFloodBufferSize := by
  induction bytes, queue using dropChunks.induct with
  | case1 bytes =>
    rw [dropChunks]
    exact ⟨rfl, Nat.zero_add _, fun _ => rfl, queued⟩
  | case2 queue some =>
    rw [dropChunks]
    · exact ⟨rfl, rfl, fun none => absurd rfl none, queued⟩
    · exact some
  | case3 remaining chunk queue whole ih =>
    obtain ⟨rest, count, last, chunks⟩ := ih (forall_mem_cons.mp queued).2
    rw [dropChunks, if_pos whole]
    dsimp only
    refine ⟨?_, ?_, last, chunks⟩
    · rw [flatten_cons, flatten_cons, ← rest, append_assoc]
    · rw [flatten_cons, length_append]
      omega
  | case4 remaining chunk queue part =>
    obtain ⟨head, later⟩ := forall_mem_cons.mp queued
    rw [dropChunks, if_neg part]
    dsimp only
    refine ⟨?_, ?_, fun none => absurd rfl none, ?_⟩
    · simp only [flatten_cons, flatten_nil, append_nil]
      rw [← append_assoc, take_append_drop]
    · simp only [flatten_cons, flatten_nil, append_nil, length_take]
      omega
    · refine forall_mem_cons.mpr ⟨?_, later⟩
      rw [length_drop]
      omega

section

variable (c : Conserved options limit input requested s)

include c

theorem dropOldest_spec {bytes : ℕ} (some : bytes ≤ s.pendingBytes) : let left := s.dropOldest bytes
    left.texts.flatten ++ (left.queuedBuffers.flatten ++ left.dataBuffer) = s.buffered ∧
      left.texts.flatten.length = bytes ∧
      (∀ chunk ∈ left.queuedBuffers, 0 < chunk.length ∧
        chunk.length ≤ options.maxFloodBufferSize) ∧
      left.dataBuffer.length ≤ options.maxFloodBufferSize := by
  have dropped := dropChunks_spec bytes c.queued
  have total := c.count
  rw [buffered, length_append] at total
  unfold dropOldest
  dsimp only at dropped ⊢
  generalize dropChunks bytes s.queuedBuffers = first at dropped ⊢
  obtain ⟨whole, count, last, chunks⟩ := dropped
  have lengths := congrArg List.length whole
  rw [length_append] at lengths
  by_cases none : first.2.2 = 0
  · rw [if_pos none]
    refine ⟨?_, ?_, chunks, c.tail⟩
    · dsimp only
      rw [← append_assoc, whole]
      rfl
    · dsimp only
      omega
  · rw [last none, flatten_nil, append_nil] at whole
    rw [last none, flatten_nil, length_nil] at lengths
    rw [if_neg none]
    refine ⟨?_, ?_, chunks, ?_⟩
    · dsimp only
      rw [last none, flatten_nil, nil_append, flatten_append, flatten_singleton,
        append_assoc, take_append_drop, whole]
      rfl
    · dsimp only
      rw [flatten_append, flatten_singleton, length_append, length_take]
      omega
    · dsimp only
      rw [length_drop]
      have tail := c.tail
      omega

theorem Conserved.dropOldestPendingBytes (bytes : ℕ) (some : bytes ≤ s.pendingBytes) :
    Conserved options (limit - bytes) input requested (s.dropOldestPendingBytes options bytes).2.2 ∧
      (s.dropOldestPendingBytes options bytes).2.1 = bytes := by
  obtain ⟨whole, length, chunks, tail⟩ := dropOldest_spec c some
  have count := c.count
  have bound := c.bound
  have lengths := congrArg List.length whole
  rw [length_append, length] at lengths
  refine ⟨⟨?_, ?_, ?_, chunks, tail, ?_, c.callbacks⟩, length⟩
  · change ((s.log ++ (s.dropOldest bytes).texts.map fun dropped => (Fate.overflowed, dropped)).map
      Prod.snd).flatten ++ ((s.dropOldest bytes).queuedBuffers.flatten ++ (s.dropOldest bytes).dataBuffer) = input
    rw [← c.whole, ← whole, map_append, flatten_append, List.map_map, append_assoc]
    congr 2
    exact congrArg List.flatten (List.map_id _)
  · change s.pendingBytes - (s.dropOldest bytes).texts.flatten.length = _
    rw [length, count, ← lengths, Nat.add_sub_cancel_left]
    rfl
  · change s.pendingBytes - (s.dropOldest bytes).texts.flatten.length ≤ limit - bytes
    rw [length]
    omega
  · intro chunk mem
    rcases mem_append.mp mem with mem | mem
    · exact c.sends chunk mem
    · obtain ⟨dropped, -, same⟩ := List.mem_map.mp mem
      cases same

theorem Conserved.enforcePendingByteLimit :
    Conserved options options.maxPendingBytes input requested
      (s.enforcePendingByteLimit host options) := by
  unfold PtyOutputBuffer.enforcePendingByteLimit
  by_cases inside : s.pendingBytes ≤ options.maxPendingBytes
  · rw [if_pos inside]
    exact c.raise inside
  · rw [if_neg inside]
    have exact' := c.raise (le_refl s.pendingBytes)
    obtain ⟨less, amount⟩ := exact'.dropOldestPendingBytes
      (s.pendingBytes - options.maxPendingBytes) (Nat.sub_le _ _)
    have within : s.pendingBytes - (s.pendingBytes - options.maxPendingBytes) = options.maxPendingBytes := by
      omega
    rw [within] at less
    dsimp only
    rw [amount, if_neg (by omega)]
    split
    · exact (less.merge _).retime _ _ _ _
    · exact less.retime _ _ _ _

theorem enforcePendingByteLimit_pending (host : Host E) :
    (s.enforcePendingByteLimit host options).drainCallbacks = s.drainCallbacks ∧
      (0 < s.pendingBytes → 0 < (s.enforcePendingByteLimit host options).pendingBytes) := by
  have positive := options.positive
  have room := options.room
  unfold PtyOutputBuffer.enforcePendingByteLimit
  by_cases inside : s.pendingBytes ≤ options.maxPendingBytes
  · rw [if_pos inside]
    exact ⟨rfl, id⟩
  · rw [if_neg inside]
    obtain ⟨-, amount⟩ := c.dropOldestPendingBytes
      (s.pendingBytes - options.maxPendingBytes) (Nat.sub_le _ _)
    have left : (s.dropOldestPendingBytes options
        (s.pendingBytes - options.maxPendingBytes)).2.2.pendingBytes = options.maxPendingBytes := by
      change s.pendingBytes - (s.dropOldestPendingBytes options
        (s.pendingBytes - options.maxPendingBytes)).2.1 = _
      rw [amount]
      omega
    dsimp only
    rw [amount, if_neg (by omega)]
    have some : 0 < options.maxPendingBytes := by omega
    split
    · exact ⟨rfl, fun _ => lt_of_lt_of_eq some left.symm⟩
    · exact ⟨rfl, fun _ => lt_of_lt_of_eq some left.symm⟩

theorem conserved_appended (host : Host E) (data : JsString) :
    let appended := appendChunks options s.queuedBuffers s.dataBuffer data
    Conserved options (s.pendingBytes + data.length) (input ++ data) requested
      ({ s with
        queuedBuffers := appended.1, dataBuffer := appended.2,
        pendingBytes := s.pendingBytes + data.length }.reportPendingBytes host) := by
  obtain ⟨whole, chunks, tail⟩ := appendChunks_spec data c.queued c.tail
  have count := c.count
  refine ⟨?_, ?_, le_refl _, chunks, tail, c.sends, c.callbacks⟩
  · change (s.log.map Prod.snd).flatten ++ ((appendChunks options s.queuedBuffers s.dataBuffer data).1.flatten ++
      (appendChunks options s.queuedBuffers s.dataBuffer data).2) = input ++ data
    rw [whole, ← c.whole]
    simp only [buffered, append_assoc]
  · change s.pendingBytes + data.length = ((appendChunks options s.queuedBuffers s.dataBuffer data).1.flatten ++
      (appendChunks options s.queuedBuffers s.dataBuffer data).2).length
    rw [whole, length_append, count]
    rfl

theorem Conserved.appendBoundedData (host : Host E) (data : JsString) :
    Conserved options options.maxPendingBytes (input ++ data) requested
      (s.appendBoundedData host options data) :=
  (conserved_appended c host data).enforcePendingByteLimit

theorem appendBoundedData_pending (host : Host E) (data : JsString) :
    (s.appendBoundedData host options data).drainCallbacks = s.drainCallbacks ∧
      (0 < s.pendingBytes → 0 < (s.appendBoundedData host options data).pendingBytes) := by
  obtain ⟨callbacks, pending⟩ :=
    enforcePendingByteLimit_pending (conserved_appended c host data) host
  exact ⟨callbacks, fun some => pending (Nat.add_pos_left some _)⟩

/-! ## Calls -/

theorem Conserved.flushPaced (host : Host E) (onDrained : Option DrainCallback) :
    Conserved options limit input (requested ++ onDrained.toList)
      (s.flushPaced host options onDrained) := by
  have asked : Conserved options limit input (requested ++ onDrained.toList)
      { s with drainCallbacks := s.drainCallbacks ++ onDrained.toList }.cancelScheduled := by
    refine ⟨c.whole, c.count, c.bound, c.queued, c.tail, c.sends, ?_⟩
    change (requested ++ onDrained.toList).Perm
      (s.notified ++ s.forgotten ++ (s.drainCallbacks ++ onDrained.toList))
    rw [← append_assoc]
    exact c.callbacks.append_right _
  unfold PtyOutputBuffer.flushPaced
  dsimp only
  split
  · exact (asked.clear host .refused (by decide)).notify
  · exact asked.sendNextPendingChunk.notify

theorem Conserved.takePendingEntry :
    Conserved options limit input requested (s.takePendingEntry host).2 :=
  ((c.retime none none none s.env).clear host .taken (by decide)).notify

theorem Conserved.discard : Conserved options limit input requested (s.discard host).2 := by
  have cleared := (c.retime none none s.nextSendMeta s.env).clear host .discarded (by decide)
  refine ⟨cleared.whole, cleared.count, cleared.bound, cleared.queued, cleared.tail, cleared.sends, ?_⟩
  change requested.Perm (s.notified ++ (s.forgotten ++ s.drainCallbacks) ++ [])
  rw [append_nil, ← append_assoc]
  exact c.callbacks

end

theorem Conserved.bufferData (c : Conserved options options.maxPendingBytes input requested s)
    (host : Host E) (arrivedAt : ℤ) (data : JsString) (meta? : Option OutputMeta) :
    Conserved options options.maxPendingBytes (input ++ data) requested
      (s.bufferData host options arrivedAt data meta?) := by
  have arrived : Conserved options options.maxPendingBytes input requested
      (if data = [] then s else { s with lastOutputArrivalAt := some arrivedAt }) := by
    split
    · exact c
    · exact c.retime _ _ _ _
  have appended := (arrived.merge meta?).appendBoundedData host data
  unfold PtyOutputBuffer.bufferData
  dsimp only
  generalize ((if data = [] then s else { s with lastOutputArrivalAt := some arrivedAt }).mergeNextSendMeta
    meta?).appendBoundedData host options data = t at appended ⊢
  split
  · exact appended
  split
  · exact appended
  split
  · exact (appended.retime none _ _ _).sendNextPendingChunk
  split
  · exact appended.retime _ _ _ _
  split
  · exact appended.retime _ _ _ _
  · exact appended

theorem Waiting.bufferData (w : Waiting s)
    (c : Conserved options options.maxPendingBytes input requested s) (arrivedAt : ℤ)
    (data : JsString) (meta? : Option OutputMeta) :
    Waiting (s.bufferData host options arrivedAt data meta?) := by
  have arrived : Conserved options options.maxPendingBytes input requested
      ((if data = [] then s else { s with lastOutputArrivalAt := some arrivedAt }).mergeNextSendMeta
        meta?) ∧
      Waiting ((if data = [] then s
        else { s with lastOutputArrivalAt := some arrivedAt }).mergeNextSendMeta meta?) := by
    refine ⟨Conserved.merge ?_ meta?, ?_⟩
    · split
      · exact c
      · exact c.retime _ _ _ _
    · cases meta? <;> split <;> exact w
  obtain ⟨arrived, still⟩ := arrived
  have appended := arrived.appendBoundedData host data
  obtain ⟨callbacks, pending⟩ := appendBoundedData_pending arrived host data
  unfold PtyOutputBuffer.bufferData
  dsimp only
  generalize (if data = [] then s else { s with lastOutputArrivalAt := some arrivedAt }).mergeNextSendMeta
    meta? = u at arrived still callbacks pending appended ⊢
  generalize u.appendBoundedData host options data = t at appended callbacks pending ⊢
  have waits : Waiting t := by
    intro some
    rw [callbacks] at some
    exact pending (still some)
  split
  · exact waits
  split
  · exact waits
  split
  · exact waiting_sendNextPendingChunk (appended.retime none _ _ _)
  split
  · exact waits
  split
  · exact waits
  · exact waits

/-! ## Runs -/

def BufferEvent.data : BufferEvent E → JsString
  | .bufferData _ data _ => data
  | _ => []

def BufferEvent.callbacks : BufferEvent E → List DrainCallback
  | .flushPaced onDrained => onDrained.toList
  | _ => []

/-- `flushNow` does not run with output accepted while a drain callback waits. -/
def Undisturbed (host : Host E) (s : PtyOutputBuffer E) : BufferEvent E → Prop
  | .flush => host.accepts s.env = true → s.drainCallbacks = []
  | .timerFires => s.scheduled = some .immediate ∨ s.scheduled = some .burst →
    host.accepts s.env = true → s.drainCallbacks = []
  | _ => True

instance (host : Host E) (s : PtyOutputBuffer E) (event : BufferEvent E) :
    Decidable (Undisturbed host s event) :=
  match event with
  | .flush => inferInstanceAs (Decidable (host.accepts s.env = true → s.drainCallbacks = []))
  | .timerFires => inferInstanceAs (Decidable (s.scheduled = some .immediate ∨
      s.scheduled = some .burst → host.accepts s.env = true → s.drainCallbacks = []))
  | .bufferData .. | .flushPaced _ | .takePendingEntry | .discard | .hostChanges _ => isTrue trivial

def UndisturbedRun (host : Host E) (options : BufferOptions) (s : PtyOutputBuffer E) :
    List (BufferEvent E) → Prop
  | [] => True
  | event :: events => Undisturbed host s event ∧
    UndisturbedRun host options (step host options s event) events

instance decidableUndisturbedRun (host : Host E) (options : BufferOptions) (s : PtyOutputBuffer E)
    (events : List (BufferEvent E)) : Decidable (UndisturbedRun host options s events) :=
  match events with
  | [] => isTrue trivial
  | event :: events =>
    have := decidableUndisturbedRun host options (step host options s event) events
    inferInstanceAs (Decidable (Undisturbed host s event ∧
      UndisturbedRun host options (step host options s event) events))

/-- An event that puts nothing in and asks for nothing. -/
theorem Conserved.silent (c : Conserved options limit input requested s) :
    Conserved options limit (input ++ []) (requested ++ []) s := by
  rw [append_nil, append_nil]
  exact c

theorem Conserved.step (c : Conserved options options.maxPendingBytes input requested s)
    (event : BufferEvent E) :
    Conserved options options.maxPendingBytes (input ++ event.data) (requested ++ event.callbacks)
      (step host options s event) := by
  cases event with
  | bufferData arrivedAt data meta? =>
    have kept := c.bufferData host arrivedAt data meta?
    rw [← append_nil requested] at kept
    exact kept
  | flushPaced onDrained =>
    have kept := c.flushPaced host onDrained
    rw [← append_nil input] at kept
    exact kept
  | flush =>
    have idle := c.retime none none s.nextSendMeta s.env
    exact idle.flushNow.silent
  | takePendingEntry => exact c.takePendingEntry.silent
  | discard => exact c.discard.silent
  | timerFires =>
    refine Conserved.silent ?_
    change Conserved _ _ _ _ (s.timerFires host options)
    unfold PtyOutputBuffer.timerFires
    cases s.scheduled with
    | none => exact c
    | some kind =>
      cases kind with
      | immediate => exact c.flushNow
      | burst => exact c.flushNow
      | flood => exact c.sendNextPendingChunk
      | paced => exact c.sendNextPendingChunk
  | hostChanges env =>
    exact (c.retime s.scheduled s.lastOutputArrivalAt s.nextSendMeta env).silent

theorem Waiting.step (w : Waiting s)
    (c : Conserved options options.maxPendingBytes input requested s) {event : BufferEvent E}
    (undisturbed : Undisturbed host s event) : Waiting (step host options s event) := by
  cases event with
  | bufferData arrivedAt data meta? => exact w.bufferData c arrivedAt data meta?
  | flush =>
    have idle := c.retime none none s.nextSendMeta s.env
    exact Waiting.flushNow w idle undisturbed
  | flushPaced onDrained =>
    have asked : Conserved options options.maxPendingBytes input
        (s.notified ++ s.forgotten ++ (s.drainCallbacks ++ onDrained.toList))
        { s with drainCallbacks := s.drainCallbacks ++ onDrained.toList }.cancelScheduled :=
      ⟨c.whole, c.count, c.bound, c.queued, c.tail, c.sends, List.Perm.refl _⟩
    change Waiting (s.flushPaced host options onDrained)
    unfold PtyOutputBuffer.flushPaced
    dsimp only
    split
    · exact waiting_notify (asked.clear host .refused (by decide))
    · exact waiting_notify asked.sendNextPendingChunk
  | takePendingEntry =>
    exact waiting_notify ((c.retime none none none s.env).clear host .taken (by decide))
  | discard => exact fun waits => absurd rfl waits
  | timerFires =>
    change Waiting (s.timerFires host options)
    unfold PtyOutputBuffer.timerFires
    cases timer : s.scheduled with
    | none => exact w
    | some kind =>
      cases kind with
      | immediate => exact w.flushNow c (undisturbed (.inl timer))
      | burst => exact w.flushNow c (undisturbed (.inr timer))
      | flood => exact waiting_sendNextPendingChunk c
      | paced => exact waiting_sendNextPendingChunk c
  | hostChanges env => exact w

theorem conserved_run (host : Host E) (options : BufferOptions) (env : E)
    (events : List (BufferEvent E)) :
    Conserved options options.maxPendingBytes (events.flatMap BufferEvent.data)
      (events.flatMap BufferEvent.callbacks)
      (events.foldl (step host options) (createPtyOutputBuffer env)) := by
  have start : Conserved options options.maxPendingBytes [] [] (createPtyOutputBuffer env) := by
    refine ⟨rfl, rfl, Nat.zero_le _, ?_, Nat.zero_le _, ?_, List.Perm.refl _⟩
    · intro chunk mem
      cases mem
    · intro chunk mem
      cases mem
  induction events using List.reverseRecOn with
  | nil => exact start
  | append_singleton events event ih =>
    rw [foldl_append, flatMap_append, flatMap_append, flatMap_singleton,
      flatMap_singleton]
    exact ih.step event

theorem waiting_run {events : List (BufferEvent E)} (w : Waiting s)
    (c : Conserved options options.maxPendingBytes input requested s)
    (undisturbed : UndisturbedRun host options s events) :
    Waiting (events.foldl (step host options) s) := by
  induction events generalizing s input requested with
  | nil => exact w
  | cons event events ih => exact ih (w.step c undisturbed.1) (c.step event) undisturbed.2

/-- In every run output is conserved; and in a run where `flushNow` never runs with
output accepted while a drain callback waits, no callback is left waiting when
nothing is buffered. -/
theorem buffer_conserves_output (host : Host E) (options : BufferOptions) (env : E)
    (events : List (BufferEvent E))
    (undisturbed : UndisturbedRun host options (createPtyOutputBuffer env) events) :
    let s := events.foldl (step host options) (createPtyOutputBuffer env)
    Conserved options options.maxPendingBytes (events.flatMap BufferEvent.data)
        (events.flatMap BufferEvent.callbacks) s ∧
      (s.buffered = [] → s.scheduled = none → s.drainCallbacks = []) := by
  intro s
  have conserved : Conserved _ _ _ _ s := conserved_run host options env events
  have waiting : Waiting s := waiting_run (fun waits => absurd rfl waits)
    (conserved_run host options env []) undisturbed
  refine ⟨conserved, ?_⟩
  intro nothing _
  apply Classical.byContradiction
  intro waits
  have pending := waiting waits
  rw [conserved.count, nothing] at pending
  exact absurd pending (Nat.lt_irrefl 0)

/-- A host that accepts output while its flag is set. -/
def flagHost : Host Bool := ⟨fun _ _ env => env, fun _ env => env, id⟩

/-- One character to a chunk. -/
def tinyOptions : BufferOptions := ⟨1, 1, 8, 3, 8, 256, by decide, by decide⟩

/-- Three chunks, of which one is sent at once, a drain behind them, and what comes
next. -/
def drainBehindChunks (next : BufferEvent Bool) : List (BufferEvent Bool) :=
  [.bufferData 0 (text "abc") none, .flushPaced (some 7), next]

theorem buffer_conserves_output_drained :
    let s := (drainBehindChunks .timerFires).foldl (step flagHost tinyOptions)
      (createPtyOutputBuffer true)
    Conserved tinyOptions tinyOptions.maxPendingBytes
        ((drainBehindChunks .timerFires).flatMap BufferEvent.data)
        ((drainBehindChunks .timerFires).flatMap BufferEvent.callbacks) s ∧
      (s.buffered = [] → s.scheduled = none → s.drainCallbacks = []) :=
  buffer_conserves_output flagHost tinyOptions true _ (by decide +kernel)

/-- With `flush` in place of the timer, nothing is buffered or scheduled, and the
callback waits. -/
theorem flush_strands_drain :
    let s := (drainBehindChunks .flush).foldl (step flagHost tinyOptions)
      (createPtyOutputBuffer true)
    s.buffered = [] ∧ s.scheduled = none ∧ s.drainCallbacks = [7] ∧ s.notified = [] ∧
      s.forgotten = [] := by
  decide +kernel

end Netcatty.PtyOutput
