import Mathlib.Algebra.BigOperators.Group.List.Basic
import Mathlib.Algebra.Order.Ring.Int
import Netcatty.TerminalWriteCoalescer

/-!
Coalescing loses no text and no bytes of the backend's count.

The text that was written and the text that waits make up what was enqueued and not
aborted; the bytes that were handed out with slices, reported as dropped, and still
kept add up to the bytes that came in.
-/

namespace Netcatty.WriteCoalescing

open List Option

/-! ## Slices -/

theorem splitIngressBytes_le {total : ℕ} {remaining : ℤ} (ingress : ℤ) (slice : ℕ)
    (some : total ≠ 0) (credit : 0 ≤ remaining) :
    splitIngressBytes total ingress slice remaining ≤ remaining := by
  unfold splitIngressBytes
  rw [if_neg some]
  exact max_le credit (min_le_left _ _)

theorem splitIngressBytes_nonneg {total : ℕ} (ingress : ℤ) (slice : ℕ) (remaining : ℤ)
    (some : total ≠ 0) : 0 ≤ splitIngressBytes total ingress slice remaining := by
  unfold splitIngressBytes
  rw [if_neg some]
  exact le_max_left _ _

theorem span_eq_filter {l : List ℕ} {p : ℕ → Bool} (closed : l.Pairwise fun a b => p b → p a) :
    l.takeWhile p = l.filter p ∧ l.dropWhile p = l.filter fun a => !p a := by
  induction l with
  | nil => exact ⟨rfl, rfl⟩
  | cons head rest ih =>
    obtain ⟨below, closedRest⟩ := pairwise_cons.mp closed
    obtain ⟨front, back⟩ := ih closedRest
    cases holds : p head with
    | true => simp [holds, front, back]
    | false =>
      have others : ∀ bound ∈ rest, p bound = false := fun bound mem =>
        Bool.eq_false_iff.mpr fun here => Bool.false_ne_true (holds.symm.trans (below bound mem here))
      rw [takeWhile_cons, dropWhile_cons, filter_cons, filter_cons, holds]
      exact ⟨(filter_eq_nil_iff.mpr (by simpa using others)).symm,
        congrArg (head :: ·) (filter_eq_self.mpr (by simpa using others)).symm⟩

theorem lt_of_mem_dropWhile {offset bound : ℕ} {boundaries : List ℕ}
    (sorted : boundaries.Pairwise (· ≤ ·)) (mem : bound ∈ boundaries.dropWhile (· ≤ offset)) :
    offset < bound := by
  have closed : boundaries.Pairwise fun a b => decide (b ≤ offset) → decide (a ≤ offset) :=
    sorted.imp fun before behind => by
      rw [decide_eq_true_eq] at behind ⊢
      exact before.trans behind
  rw [(span_eq_filter closed).2] at mem
  simpa using (mem_filter.mp mem).2

theorem lt_lastBoundary {offset idealEnd : ℕ} {boundaries : List ℕ}
    (ideal : offset < idealEnd) (behind : ∀ bound ∈ boundaries, offset < bound) :
    offset < lastBoundary idealEnd boundaries := by
  unfold lastBoundary
  cases last : (boundaries.takeWhile (· ≤ idealEnd)).getLast? with
  | none => exact ideal
  | some bound =>
    apply behind
    exact (takeWhile_sublist _).subset (mem_of_getLast? last)

theorem le_nextBoundary (batchSize idealEnd : ℕ) (boundaries : List ℕ) :
    idealEnd ≤ nextBoundary batchSize idealEnd boundaries := by
  unfold nextBoundary
  split
  · exact Nat.le_refl _
  · split
    · next further => exact Nat.le_of_lt further.1
    · exact Nat.le_refl _

theorem lt_beforeFinalSlice {length batchSize offset idealEnd : ℕ}
    (ideal : offset < idealEnd) : offset < beforeFinalSlice length batchSize offset idealEnd := by
  unfold beforeFinalSlice
  dsimp only
  split
  · next final => exact final.1
  · exact ideal

theorem lt_sliceEnd {length batchSize offset : ℕ} {boundaries : List ℕ} (preserve : Bool)
    (inside : offset < length) (size : 0 < batchSize)
    (behind : ∀ bound ∈ boundaries, offset < bound) :
    offset < sliceEnd length batchSize offset preserve boundaries := by
  have ideal : offset < min length (offset + batchSize) := lt_min inside (by omega)
  unfold sliceEnd
  dsimp only
  split
  · split
    · split
      · exact lt_beforeFinalSlice ideal
      · exact ideal.trans_le (le_nextBoundary _ _ _)
    · exact lt_lastBoundary ideal behind
  · exact ideal

theorem Batch.slices_conserve (batch : Batch) (size : 0 < batch.batchSize) {fuel offset : ℕ}
    {remaining : ℤ} (yielded : ℕ) {boundaries : List ℕ} (credit : 0 ≤ remaining)
    (sorted : boundaries.Pairwise (· ≤ ·)) (enough : batch.data.length ≤ fuel + offset)
    (inside : offset < batch.data.length) :
    ((batch.slices fuel offset remaining yielded boundaries).map (·.data)).flatten =
        batch.data.drop offset ∧
      ((batch.slices fuel offset remaining yielded boundaries).map (·.ingressBytes)).sum =
        remaining ∧
      ∀ slice ∈ batch.slices fuel offset remaining yielded boundaries,
        0 ≤ slice.ingressBytes := by
  induction fuel generalizing offset remaining yielded boundaries with
  | zero => omega
  | succ fuel ih =>
    rw [Batch.slices, if_pos inside]
    dsimp only
    have behind : ∀ bound ∈ boundaries.dropWhile (· ≤ offset), offset < bound :=
      fun bound mem => lt_of_mem_dropWhile sorted mem
    have further := lt_sliceEnd batch.preserveSourceChunkBoundaries inside size behind
    have sortedRest : (boundaries.dropWhile (· ≤ offset)).Pairwise (· ≤ ·) :=
      sorted.sublist (dropWhile_sublist _)
    generalize boundaries.dropWhile (· ≤ offset) = boundaries at further sortedRest ⊢
    generalize sliceEnd batch.data.length batch.batchSize offset
      batch.preserveSourceChunkBoundaries boundaries = stop at further ⊢
    have cut : (batch.data.drop offset).take (stop - offset) ++ batch.data.drop stop =
        batch.data.drop offset := by
      have same : batch.data.drop stop = (batch.data.drop offset).drop (stop - offset) := by
        rw [drop_drop]
        congr 1
        omega
      rw [same, take_append_drop]
    simp only [map_cons, flatten_cons, sum_cons, forall_mem_cons]
    by_cases last : batch.data.length ≤ stop
    · -- the last slice takes what is left, and the loop ends
      have ended : ∀ (fuel : ℕ) (rest : ℤ) (yielded : ℕ) (boundaries : List ℕ),
          batch.slices fuel stop rest yielded boundaries = [] := by
        intro fuel rest yielded boundaries
        cases fuel with
        | zero => rfl
        | succ fuel => exact if_neg (Nat.not_lt.mpr last)
      rw [ended, if_pos last]
      rw [drop_of_length_le last, append_nil] at cut
      refine ⟨?_, ?_, credit, ?_⟩
      · rw [cut]
        exact append_nil _
      · exact add_zero remaining
      · exact fun _ mem => absurd mem not_mem_nil
    · have some : batch.data.length ≠ 0 := by omega
      rw [if_neg last]
      set sliceIngress := splitIngressBytes batch.data.length batch.ingressBytes
        ((batch.data.drop offset).take (stop - offset)).length remaining with share
      have least : 0 ≤ sliceIngress := splitIngressBytes_nonneg _ _ _ some
      have most : sliceIngress ≤ remaining := splitIngressBytes_le _ _ some credit
      obtain ⟨joined, total, positive⟩ := ih _ (Int.sub_nonneg_of_le most)
        (sortedRest.sublist (dropWhile_sublist (· < stop))) (by omega) (Nat.not_le.mp last)
      refine ⟨?_, ?_, least, positive⟩
      · rw [joined, cut]
      · rw [total]
        exact add_sub_cancel _ _

theorem writeLargeTerminalBatch_conserves {data : JsString} {ingress : ℤ}
    {options : CoalescedTerminalWriteOptions} (maxBatchBytes : ℕ) (writer : Writer) (preserve : Bool)
    (some : data ≠ []) (credit : 0 ≤ ingress)
    (sorted : options.sourceChunkBoundaries.Pairwise (· ≤ ·)) :
    ((writeLargeTerminalBatch data ingress maxBatchBytes writer options preserve).map
        (·.data)).flatten = data ∧
      ((writeLargeTerminalBatch data ingress maxBatchBytes writer options preserve).map
        (·.ingressBytes)).sum = ingress ∧
      ∀ slice ∈ writeLargeTerminalBatch data ingress maxBatchBytes writer options preserve,
        0 ≤ slice.ingressBytes := by
  have size : 0 < max 1 maxBatchBytes := lt_max_of_lt_left Nat.one_pos
  unfold writeLargeTerminalBatch
  dsimp only
  rw [max_eq_right credit]
  exact Batch.slices_conserve _ size 0 credit sorted (Nat.le_refl _) (length_pos_iff.mpr some)

/-! ## What is conserved -/

namespace CoalescedTerminal

variable (s : CoalescedTerminal)

/-- The text passed to `writeNow`. -/
def writtenText : JsString := (s.written.map (·.data)).flatten

def pendingText : JsString :=
  match s.coalescer with
  | none => []
  | some c => c.pending.flatten

/-- The bytes passed to `writeNow`, reported as dropped, and kept. -/
def writtenIngress : ℤ := (s.written.map (·.ingressBytes)).sum
def droppedIngress : ℤ := s.dropped.sum
def pendingIngress : ℤ := s.ingress.getD 0

def totalIngress : ℤ :=
  s.writtenIngress + s.droppedIngress + s.pendingIngress

structure Inv (s : CoalescedTerminal) : Prop where
  /-- Text never waits without its bytes, so a batch never falls back to its length. -/
  credited : s.pendingText ≠ [] → s.ingress.isSome
  credit : 0 ≤ s.pendingIngress
  sorted : s.chunkBoundaries.Pairwise (· ≤ ·)
  bounded : ∀ bound ∈ s.chunkBoundaries, bound ≤ s.getPendingCoalescedBytes
  shares : ∀ slice ∈ s.written, 0 ≤ slice.ingressBytes

/-- From `s` to `s'` this much text and this many bytes came in, and none went missing. -/
structure Conserves (s s' : CoalescedTerminal) (data : JsString) (ingress : ℤ) : Prop where
  inv : Inv s'
  text : s'.writtenText ++ s'.pendingText = s.writtenText ++ s.pendingText ++ data
  total : s'.totalIngress = s.totalIngress + ingress

variable {s : CoalescedTerminal}

theorem getPendingCoalescedBytes_eq (s : CoalescedTerminal) :
    s.getPendingCoalescedBytes = s.pendingText.length := by
  unfold getPendingCoalescedBytes pendingText
  cases s.coalescer with
  | none => rfl
  | some c => exact c.counted

theorem Conserves.refl (h : Inv s) : Conserves s s [] 0 :=
  ⟨h, (append_nil _).symm, (add_zero _).symm⟩

theorem Conserves.trans {s' s'' : CoalescedTerminal} {data data' : JsString} {ingress ingress' : ℤ}
    (first : Conserves s s' data ingress) (second : Conserves s' s'' data' ingress') :
    Conserves s s'' (data ++ data') (ingress + ingress') where
  inv := second.inv
  text := by rw [second.text, first.text, append_assoc]
  total := by rw [second.total, first.total, add_assoc]

/-- Followed by something that brings nothing in. -/
theorem Conserves.andThen {s' s'' : CoalescedTerminal} {data : JsString} {ingress : ℤ}
    (first : Conserves s s' data ingress) (second : Conserves s' s'' [] 0) :
    Conserves s s'' data ingress := by
  have both := first.trans second
  rw [append_nil, add_zero] at both
  exact both

/-- The parts of a terminal that nothing is conserved in. -/
structure SameText (s s' : CoalescedTerminal) : Prop where
  pending : s'.pendingText = s.pendingText
  ingress : s'.ingress = s.ingress
  boundaries : s'.chunkBoundaries = s.chunkBoundaries
  written : s'.written = s.written
  dropped : s'.dropped = s.dropped

theorem SameText.inv {s' : CoalescedTerminal} (h : Inv s) (same : SameText s s') : Inv s' where
  credited := by
    rw [same.pending, same.ingress]
    exact h.credited
  credit := by
    unfold pendingIngress
    rw [same.ingress]
    exact h.credit
  sorted := same.boundaries ▸ h.sorted
  bounded := by
    rw [same.boundaries, getPendingCoalescedBytes_eq, same.pending, ← getPendingCoalescedBytes_eq]
    exact h.bounded
  shares := same.written ▸ h.shares

theorem SameText.conserves {s' : CoalescedTerminal} (h : Inv s) (same : SameText s s') :
    Conserves s s' [] 0 where
  inv := same.inv h
  text := by
    unfold writtenText
    rw [same.pending, same.written, append_nil]
  total := by
    unfold totalIngress writtenIngress droppedIngress pendingIngress
    rw [same.ingress, same.written, same.dropped, add_zero]

/-! ## Operations -/

variable (byteCap : ℕ → ℕ)

/-- Slices that were cut from new text are written when nothing waits. -/
theorem write_conserves {data : JsString} {ingress : ℤ} {slices : List WrittenSlice} (h : Inv s)
    (empty : s.pendingText = []) (joined : (slices.map (·.data)).flatten = data)
    (total : (slices.map (·.ingressBytes)).sum = ingress)
    (shares : ∀ slice ∈ slices, 0 ≤ slice.ingressBytes) :
    Conserves s (s.write slices) data ingress where
  inv := ⟨h.credited, h.credit, h.sorted, h.bounded, by
    intro slice mem
    exact (mem_append.mp mem).elim (h.shares slice) (shares slice)⟩
  text := by
    change ((s.written ++ slices).map (·.data)).flatten ++ s.pendingText =
      s.writtenText ++ s.pendingText ++ data
    rw [empty, map_append, flatten_append, joined, append_nil, append_nil]
    rfl
  total := by
    change ((s.written ++ slices).map (·.ingressBytes)).sum + s.droppedIngress +
      s.pendingIngress = s.totalIngress + ingress
    rw [map_append, sum_append, total]
    unfold totalIngress writtenIngress
    omega

theorem writeLarge_conserves {data : JsString} {ingress : ℤ} (h : Inv s)
    (empty : s.pendingText = []) (some : data ≠ []) (credit : 0 ≤ ingress) (maxBatchBytes : ℕ)
    (writer : Writer) (preserve : Bool) :
    Conserves s (s.write (writeLargeTerminalBatch data ingress maxBatchBytes writer noOptions
      preserve)) data ingress := by
  obtain ⟨joined, total, shares⟩ := writeLargeTerminalBatch_conserves maxBatchBytes writer preserve
    some credit (show noOptions.sourceChunkBoundaries.Pairwise (· ≤ ·) from List.Pairwise.nil)
  exact write_conserves h empty joined total shares

theorem cancelScheduledDrain_same : SameText s s.cancelScheduledDrain := by
  refine ⟨?_, rfl, rfl, rfl, rfl⟩
  unfold cancelScheduledDrain pendingText
  dsimp only
  cases s.coalescer with
  | none => rfl
  | some c => rfl

theorem setSchedule_same (mode : WriteCoalesceScheduleMode) : SameText s (s.setSchedule mode) := by
  refine ⟨?_, rfl, rfl, rfl, rfl⟩
  unfold setSchedule pendingText
  dsimp only
  cases s.coalescer with
  | none => rfl
  | some c => rfl

theorem flushSync_conserves (h : Inv s) (moment : Moment) (writeOverride : Option Writer) :
    Conserves s (s.flushSync byteCap moment writeOverride) [] 0 ∧
      (s.flushSync byteCap moment writeOverride).pendingText = [] := by
  cases held : s.coalescer with
  | none =>
    have same : s.flushSync byteCap moment writeOverride = s := by
      unfold flushSync
      rw [held]
    rw [same]
    refine ⟨.refl h, ?_⟩
    unfold pendingText
    rw [held]
  | some c =>
    have pending : s.pendingText = c.pending.flatten := by
      unfold pendingText
      rw [held]
    by_cases empty : c.pendingBytes = 0
    · have same : s.flushSync byteCap moment writeOverride = s.cancelScheduledDrain := by
        unfold flushSync
        rw [held]
        exact if_pos empty
      rw [same]
      refine ⟨cancelScheduledDrain_same.conserves h, ?_⟩
      rw [cancelScheduledDrain_same.pending, pending]
      exact length_eq_zero_iff.mp (c.counted ▸ empty)
    · have some : c.pending.flatten ≠ [] :=
        fun none => empty (c.counted.trans (congrArg List.length none))
      obtain ⟨batchIngress, taken⟩ := isSome_iff_exists.mp (h.credited (pending ▸ some))
      have credit : 0 ≤ batchIngress := by
        have credit := h.credit
        unfold pendingIngress at credit
        rw [taken] at credit
        exact credit
      let options : CoalescedTerminalWriteOptions :=
        if s.chunkCount.getD 1 = 1 then noOptions
        else { noOptions with
          preservePerfTrace := Option.some false, sourceChunkBoundaries := s.chunkBoundaries }
      have sorted : options.sourceChunkBoundaries.Pairwise (· ≤ ·) := by
        by_cases single : s.chunkCount.getD 1 = 1
        · rw [show options = noOptions from if_pos single]
          exact List.Pairwise.nil
        · rw [show options = _ from if_neg single]
          exact h.sorted
      let cleared : CoalescedTerminal := { s with
        coalescer := Option.some { c with
          pending := [], pendingBytes := 0, counted := rfl, scheduledMode := none,
          lastFlushTime := moment.now }
        ingress := none
        chunkCount := none
        chunkBoundaries := []
        preserveSourceChunks := false
        byteCapReads := s.byteCapReads + 1 }
      have clearedInv : Inv cleared :=
        ⟨fun wrong => absurd rfl wrong, Int.le_refl 0, List.Pairwise.nil,
          fun _ mem => absurd mem not_mem_nil, h.shares⟩
      obtain ⟨joined, total, shares⟩ := writeLargeTerminalBatch_conserves
        (resolveTerminalWriteBatchBytes c.pending.flatten (byteCap s.byteCapReads))
        (writeOverride.getD (s.writer.getD c.firstWriter)) s.preserveSourceChunks some credit sorted
      have wrote := write_conserves clearedInv rfl joined total shares
      have shape : s.flushSync byteCap moment writeOverride = cleared.write
          (writeLargeTerminalBatch c.pending.flatten batchIngress
            (resolveTerminalWriteBatchBytes c.pending.flatten (byteCap s.byteCapReads))
            (writeOverride.getD (s.writer.getD c.firstWriter)) options s.preserveSourceChunks) := by
        unfold flushSync
        rw [held]
        dsimp only
        rw [if_neg empty]
        unfold writeBatch
        dsimp only
        rw [taken]
        rfl
      rw [shape]
      refine ⟨⟨wrote.inv, ?_, ?_⟩, rfl⟩
      · rw [wrote.text, pending, append_nil]
        exact congrArg (· ++ c.pending.flatten) (append_nil s.writtenText)
      · rw [wrote.total]
        unfold totalIngress pendingIngress
        rw [taken]
        change s.writtenIngress + s.droppedIngress + 0 + batchIngress = _
        rw [getD_some]
        omega

theorem flush_conserves (h : Inv s) (moment : Moment) (writeNow : Option Writer) :
    Conserves s (s.flushTerminalWriteCoalescer byteCap moment writeNow) [] 0 ∧
      (s.flushTerminalWriteCoalescer byteCap moment writeNow).pendingText = [] :=
  flushSync_conserves byteCap h moment writeNow

/-! ### Schedules -/

theorem flushUnlessGated_conserves (h : Inv s) (moment : Moment) :
    Conserves s (s.flushUnlessGated byteCap moment) [] 0 := by
  unfold flushUnlessGated
  split
  · exact .refl h
  · exact (flushSync_conserves byteCap h moment none).1

section

variable (h : Inv s) (moment : Moment) (mode : WriteCoalesceScheduleMode)

include h

theorem armFrame_conserves : Conserves s (s.armFrame byteCap moment mode) [] 0 := by
  unfold armFrame
  split
  · exact (setSchedule_same mode).conserves h
  · exact flushUnlessGated_conserves byteCap h moment

theorem armSchedule_conserves : Conserves s (s.armSchedule byteCap moment mode) [] 0 := by
  unfold armSchedule
  split
  · exact .refl h
  · split
    · split
      · split
        · exact (setSchedule_same .burst).conserves h
        · exact flushUnlessGated_conserves byteCap h moment
      · exact armFrame_conserves byteCap h moment .microtask
    · exact armFrame_conserves byteCap h moment mode

theorem armDeferredDrain_conserves : Conserves s (s.armDeferredDrain moment mode) [] 0 := by
  unfold armDeferredDrain
  split
  · exact .refl h
  · split
    · exact .refl h
    · split
      · exact (setSchedule_same mode).conserves h
      · exact .refl h

theorem onScheduled_conserves : Conserves s (s.onScheduled byteCap moment mode) [] 0 := by
  have cancelled := cancelScheduledDrain_same.conserves h
  unfold onScheduled
  dsimp only
  split
  · split
    · exact cancelled.andThen (armDeferredDrain_conserves cancelled.inv moment mode)
    · exact cancelled
  · exact cancelled.andThen (flushSync_conserves byteCap cancelled.inv moment none).1

theorem onDeferredDrain_conserves : Conserves s (s.onDeferredDrain byteCap moment mode) [] 0 := by
  have cancelled := cancelScheduledDrain_same.conserves h
  unfold onDeferredDrain
  dsimp only
  split
  · exact cancelled
  · split
    · exact cancelled.andThen (armDeferredDrain_conserves cancelled.inv moment mode)
    · exact cancelled.andThen (flushSync_conserves byteCap cancelled.inv moment none).1

end

/-! ### Chunks -/

theorem latches_same (s : CoalescedTerminal) (latches : AltScreenLatches) :
    SameText s { s with latches } := ⟨rfl, rfl, rfl, rfl, rfl⟩

theorem dropPreapplied_same : SameText s s.dropPreapplied := latches_same s _

theorem resolveScheduleMode_same (moment : Moment) (nextChunk : JsString) :
    SameText s (s.resolveScheduleMode moment nextChunk).2 := by
  unfold resolveScheduleMode
  dsimp only
  split
  · exact latches_same _ _
  · split
    · exact latches_same _ _
    · split <;> exact latches_same _ _

theorem append_conserves (chunk : JsString) (h : Inv s) (open_ : s.coalescer.isSome)
    (kept : s.ingress.isSome) : Conserves s (s.append chunk) chunk 0 := by
  obtain ⟨c, held⟩ := isSome_iff_exists.mp open_
  have longer : (s.append chunk).pendingText = s.pendingText ++ chunk := by
    unfold append pendingText
    rw [held]
    dsimp only [map_some]
    rw [flatten_append, flatten_singleton]
  refine ⟨⟨fun _ => kept, h.credit, h.sorted, ?_, h.shares⟩, ?_, (add_zero _).symm⟩
  · intro bound mem
    rw [getPendingCoalescedBytes_eq, longer, length_append, ← getPendingCoalescedBytes_eq]
    exact Nat.le_add_right_of_le (h.bounded bound mem)
  · rw [longer]
    exact (append_assoc _ _ _).symm

theorem push_conserves (chunk : JsString) (h : Inv s) (moment : Moment)
    (open_ : s.coalescer.isSome) (kept : s.ingress.isSome) :
    Conserves s (s.push byteCap moment chunk) chunk 0 := by
  unfold push
  split
  · next empty =>
    rw [empty]
    exact .refl h
  · have appended := append_conserves chunk h open_ kept
    have resolved := appended.andThen
      ((resolveScheduleMode_same moment chunk).conserves appended.inv)
    have capped : SameText ((s.append chunk).resolveScheduleMode moment chunk).2
        (((s.append chunk).resolveScheduleMode moment chunk).2.resolveCoalescerByteCap byteCap).2 :=
      ⟨rfl, rfl, rfl, rfl, rfl⟩
    have ready := resolved.andThen (capped.conserves resolved.inv)
    dsimp only
    split
    · exact ready.andThen (flushSync_conserves byteCap ready.inv moment none).1
    · split
      · exact ready.andThen (armSchedule_conserves byteCap ready.inv moment _)
      · split
        · have cancelled := ready.andThen (cancelScheduledDrain_same.conserves ready.inv)
          exact cancelled.andThen (armSchedule_conserves byteCap cancelled.inv moment .raf)
        · exact ready

theorem noteChunk_conserves {ingress : ℤ} (h : Inv s) (credit : 0 ≤ ingress) (writer : Writer)
    (preserve needsRaf : Bool) :
    Conserves s (s.noteChunk ingress writer preserve needsRaf) [] ingress := by
  have same : (s.noteChunk ingress writer preserve needsRaf).pendingText = s.pendingText := by
    unfold noteChunk pendingText
    dsimp only
    cases s.coalescer with
    | none => rfl
    | some c => rfl
  have count : (s.noteChunk ingress writer preserve needsRaf).getPendingCoalescedBytes =
      s.getPendingCoalescedBytes := by
    rw [getPendingCoalescedBytes_eq, same, ← getPendingCoalescedBytes_eq]
  refine ⟨⟨fun _ => rfl, ?_, ?_, ?_, h.shares⟩, ?_, ?_⟩
  · exact add_nonneg h.credit credit
  · unfold noteChunk
    dsimp only
    split
    · apply pairwise_append.mpr
      refine ⟨h.sorted, pairwise_singleton _ _, ?_⟩
      intro bound mem new only
      rw [mem_singleton.mp only]
      exact h.bounded bound mem
    · exact h.sorted
  · rw [count]
    unfold noteChunk
    dsimp only
    split
    · intro bound mem
      rcases mem_append.mp mem with old | new
      · exact h.bounded bound old
      · rw [mem_singleton.mp new]
    · exact h.bounded
  · rw [same, append_nil]
    rfl
  · change s.writtenIngress + s.droppedIngress + (s.ingress.getD 0 + ingress) = _
    unfold totalIngress pendingIngress
    omega

theorem enqueueProbed_conserves (data : JsString) {ingress : ℤ} (h : Inv s)
    (credit : 0 ≤ ingress) (moment : Moment) (probe : AltScreenProbeResult) (writer : Writer)
    (preserve : Bool) :
    Conserves s (s.enqueueProbed byteCap moment probe data writer ingress preserve) data ingress := by
  unfold enqueueProbed
  dsimp only
  generalize s.latches.applyAltScreenScheduleProbeResult moment.alternateBuffer probe = applied
  have read : SameText s
      (({ s with latches := applied.2 } : CoalescedTerminal).resolveCoalescerByteCap byteCap).2 :=
    ⟨rfl, rfl, rfl, rfl, rfl⟩
  have start := read.conserves h
  generalize ({ s with latches := applied.2 } : CoalescedTerminal).resolveCoalescerByteCap byteCap =
    capped at start ⊢
  have drained : ∀ s', s' = (if capped.1 < capped.2.getPendingCoalescedBytes + data.length then
      capped.2.flushTerminalWriteCoalescer byteCap moment none else capped.2) →
      Conserves s { s' with writer := some writer } [] 0 ∧
        (capped.1 < data.length → s'.pendingText = []) := by
    intro s' shape
    split at shape
    · obtain ⟨flushed, empty⟩ := flush_conserves byteCap start.inv moment none
      rw [← shape] at flushed empty
      have all := start.andThen flushed
      exact ⟨all.andThen (SameText.conserves all.inv ⟨rfl, rfl, rfl, rfl, rfl⟩), fun _ => empty⟩
    · next fits =>
      subst shape
      refine ⟨start.andThen (SameText.conserves start.inv ⟨rfl, rfl, rfl, rfl, rfl⟩), ?_⟩
      intro large
      omega
  generalize (if capped.1 < capped.2.getPendingCoalescedBytes + data.length then
      capped.2.flushTerminalWriteCoalescer byteCap moment none else capped.2) = s' at drained ⊢
  obtain ⟨ready, empty⟩ := drained s' rfl
  split
  · next large =>
    have some : data ≠ [] := ne_nil_of_length_pos (Nat.zero_lt_of_lt large)
    have wrote := ready.trans (writeLarge_conserves ready.inv (empty large) some credit
      (resolveTerminalWriteBatchBytes data capped.1) writer preserve)
    rw [zero_add] at wrote
    exact wrote
  · have noted := ready.trans (noteChunk_conserves ready.inv credit writer preserve applied.1)
    have pushed := noted.trans (push_conserves byteCap data noted.inv moment
      rfl rfl)
    rw [zero_add, add_zero] at pushed
    have unlatched := pushed.andThen (dropPreapplied_same.conserves pushed.inv)
    split
    · exact unlatched.andThen (flush_conserves byteCap unlatched.inv moment none).1
    · exact unlatched

theorem writeBeforeFrame_conserves {before : JsString} {ingress : ℤ} (h : Inv s)
    (empty : s.pendingText = []) (some : before ≠ []) (credit : 0 ≤ ingress) (moment : Moment)
    (writer : Writer) (preserve : Bool) :
    Conserves s (s.writeBeforeFrame byteCap moment before writer ingress preserve) before
      ingress := by
  unfold writeBeforeFrame
  dsimp only
  have noted := (latches_same s
    (s.latches.noteAltScreenScheduleProbe moment.alternateBuffer before).2).conserves h
  have read : SameText { s with
      latches := (s.latches.noteAltScreenScheduleProbe moment.alternateBuffer before).2 }
      (({ s with latches := (s.latches.noteAltScreenScheduleProbe moment.alternateBuffer before).2 } :
        CoalescedTerminal).resolveCoalescerByteCap byteCap).2 := ⟨rfl, rfl, rfl, rfl, rfl⟩
  have ready := noted.andThen (read.conserves noted.inv)
  have wrote := ready.trans (writeLarge_conserves ready.inv empty some credit
    (resolveTerminalWriteBatchBytes before (byteCap s.byteCapReads)) writer preserve)
  rw [zero_add] at wrote
  exact wrote

theorem enqueue_conserves (data : JsString) {ingress : ℤ} (h : Inv s) (credit : 0 ≤ ingress)
    (moment : Moment) (writer : Writer) (preserve : Bool) :
    Conserves s (s.enqueueCoalescedTerminalWrite byteCap moment data writer ingress preserve) data
      ingress := by
  generalize size : data.length = n
  induction n using Nat.strong_induction_on generalizing s data ingress with
  | _ n ih =>
    rw [enqueueCoalescedTerminalWrite]
    dsimp only
    split
    · exact enqueueProbed_conserves byteCap data h credit moment _ writer preserve
    · next frameStart found =>
      obtain ⟨flushed, empty⟩ := flush_conserves byteCap h moment none
      split
      · next later =>
        have some := ne_nil_of_newFrameStart found later
        have positive : 0 < data.length := length_pos_iff.mpr some
        have before : data.take frameStart ≠ [] := by
          apply ne_nil_of_length_pos
          rw [length_take]
          exact lt_min later positive
        have least := splitIngressBytes_nonneg ingress (data.take frameStart).length ingress
          positive.ne'
        have most := splitIngressBytes_le ingress (data.take frameStart).length positive.ne' credit
        generalize splitIngressBytes data.length ingress (data.take frameStart).length ingress =
          share at least most ⊢
        have wrote := flushed.trans (writeBeforeFrame_conserves byteCap flushed.inv empty
          before least moment writer preserve)
        have shorter : (data.drop frameStart).length < n := by
          rw [length_drop]
          omega
        have left : max 0 (ingress - share) = ingress - share :=
          max_eq_right (Int.sub_nonneg_of_le most)
        have rest := wrote.trans (ih _ shorter (data.drop frameStart) wrote.inv
          (left ▸ le_max_left 0 _) rfl)
        rw [left]
        rw [zero_add, nil_append, take_append_drop, add_sub_cancel] at rest
        exact rest
      · have probed := flushed.trans (enqueueProbed_conserves byteCap data flushed.inv credit
          moment (probeAltScreenScheduling data s.latches.incompleteAltScreenCsi) writer preserve)
        rw [zero_add] at probed
        exact probed

theorem abort_conserves (h : Inv s) : Inv s.abortTerminalWriteCoalescer ∧
      s.abortTerminalWriteCoalescer.writtenText = s.writtenText ∧
      s.abortTerminalWriteCoalescer.pendingText = [] ∧
      s.abortTerminalWriteCoalescer.totalIngress = s.totalIngress := by
  cases held : s.coalescer with
  | none =>
    have same : s.abortTerminalWriteCoalescer = { s with latches := .cleared } := by
      unfold abortTerminalWriteCoalescer
      dsimp only
      rw [held]
    have latched := latches_same s .cleared
    rw [same]
    refine ⟨latched.inv h, rfl, ?_, rfl⟩
    rw [latched.pending]
    unfold pendingText
    rw [held]
  | some c =>
    have pending : s.pendingText = c.pending.flatten := by
      unfold pendingText
      rw [held]
    let aborted : CoalescedTerminal := { s with
      latches := .cleared
      ingress := none
      chunkCount := none
      chunkBoundaries := []
      preserveSourceChunks := false
      coalescer := some (if c.pendingBytes = 0 then { c with scheduledMode := none }
        else { c with
          pending := [], pendingBytes := 0, counted := rfl, scheduledMode := none,
          lastFlushTime := 0 })
      dropped := if 0 < s.ingress.getD c.pendingBytes then
        s.dropped ++ [s.ingress.getD c.pendingBytes] else s.dropped }
    have shape : s.abortTerminalWriteCoalescer = aborted := by
      unfold abortTerminalWriteCoalescer
      dsimp only
      rw [held]
    have empty : aborted.pendingText = [] := by
      by_cases none : c.pendingBytes = 0
      · have nothing : c.pending.flatten = [] := length_eq_zero_iff.mp (c.counted ▸ none)
        unfold pendingText aborted
        dsimp only
        rw [if_pos none]
        exact nothing
      · unfold pendingText aborted
        dsimp only
        rw [if_neg none]
        rfl
    have bytes : s.ingress.getD c.pendingBytes = s.pendingIngress := by
      unfold pendingIngress
      cases taken : s.ingress with
      | some bytes => rfl
      | none =>
        have nothing : s.pendingText = [] := by
          by_contra some
          have kept := h.credited some
          rw [taken] at kept
          exact Bool.noConfusion kept
        rw [getD_none, getD_none, c.counted, ← pending, nothing]
        rfl
    rw [shape]
    refine ⟨⟨fun wrong => absurd empty wrong, Int.le_refl 0, List.Pairwise.nil,
      fun _ mem => absurd mem not_mem_nil, h.shares⟩, rfl, empty, ?_⟩
    change s.writtenIngress + (if 0 < s.ingress.getD c.pendingBytes then
      s.dropped ++ [s.ingress.getD c.pendingBytes] else s.dropped).sum + 0 = _
    rw [bytes]
    have credit := h.credit
    unfold totalIngress droppedIngress
    split
    · rw [sum_append, sum_singleton]
      omega
    · omega

/-! ## Runs -/

def keptAfter (s : CoalescedTerminal) (kept : JsString) : CoalescerEvent → JsString
  | .enqueue _ data _ _ _ => kept ++ data
  | .abort => kept.take (kept.length - s.pendingText.length)
  | _ => kept

def keptText (byteCap : ℕ → ℕ) (s : CoalescedTerminal) (kept : JsString) :
    List CoalescerEvent → JsString
  | [] => kept
  | event :: rest => (s.step byteCap event).keptText byteCap (s.keptAfter kept event) rest

def ingressOf : CoalescerEvent → ℤ
  | .enqueue _ _ _ ingressBytes _ => ingressBytes
  | _ => 0

theorem step_conserves (h : Inv s) (event : CoalescerEvent) : Inv (s.step byteCap event) ∧
      (s.step byteCap event).writtenText ++ (s.step byteCap event).pendingText =
        s.keptAfter (s.writtenText ++ s.pendingText) event ∧
      (s.step byteCap event).totalIngress = s.totalIngress + ingressOf event := by
  have quiet : ∀ s', Conserves s s' [] 0 → Inv s' ∧
      s'.writtenText ++ s'.pendingText = s.writtenText ++ s.pendingText ∧
      s'.totalIngress = s.totalIngress + 0 := by
    intro s' moved
    exact ⟨moved.inv, moved.text.trans (append_nil _), moved.total⟩
  cases event with
  | enqueue moment data writeNow ingressBytes preserve =>
    have moved := enqueue_conserves byteCap data h (Int.natCast_nonneg ingressBytes)
      moment writeNow preserve
    exact ⟨moved.inv, moved.text, moved.total⟩
  | scheduled moment mode => exact quiet _ (onScheduled_conserves byteCap h moment mode)
  | deferredDrain moment mode => exact quiet _ (onDeferredDrain_conserves byteCap h moment mode)
  | flush moment writeNow => exact quiet _ (flush_conserves byteCap h moment writeNow).1
  | abort =>
    obtain ⟨inv, written, empty, total⟩ := abort_conserves h
    refine ⟨inv, ?_, total.trans (add_zero _).symm⟩
    change s.abortTerminalWriteCoalescer.writtenText ++ s.abortTerminalWriteCoalescer.pendingText =
      (s.writtenText ++ s.pendingText).take _
    rw [written, empty, length_append, Nat.add_sub_cancel, append_nil, take_left']
    rfl

theorem run_conserves (h : Inv s) (events : List CoalescerEvent) :
    Inv (s.run byteCap events) ∧
      (s.run byteCap events).writtenText ++ (s.run byteCap events).pendingText =
        s.keptText byteCap (s.writtenText ++ s.pendingText) events ∧
      (s.run byteCap events).totalIngress = s.totalIngress + (events.map ingressOf).sum := by
  induction events generalizing s with
  | nil => exact ⟨h, rfl, (add_zero _).symm⟩
  | cons event rest ih =>
    obtain ⟨inv, text, total⟩ := step_conserves byteCap h event
    obtain ⟨last, texts, totals⟩ := ih inv
    refine ⟨last, ?_, ?_⟩
    · rw [keptText, ← text]
      exact texts
    · rw [map_cons, sum_cons, ← add_assoc, ← total]
      exact totals

theorem initial_inv : Inv initial :=
  ⟨fun wrong => absurd rfl wrong, Int.le_refl 0, List.Pairwise.nil,
    fun _ mem => absurd mem not_mem_nil, fun _ mem => absurd mem not_mem_nil⟩

/-- Whatever is enqueued, flushed, scheduled and aborted, and whatever the byte cap is at
each moment: the slices that were written and the text that waits are what was enqueued
less what waited at each abort, and no byte of the backend's count is lost or invented. -/
theorem coalescing_conserves (byteCap : ℕ → ℕ) (events : List CoalescerEvent) :
    let s := initial.run byteCap events
    s.writtenText ++ s.pendingText = initial.keptText byteCap [] events ∧
      s.writtenIngress + s.droppedIngress + s.pendingIngress = (events.map ingressOf).sum ∧
      (∀ slice ∈ s.written, 0 ≤ slice.ingressBytes) := by
  obtain ⟨inv, text, total⟩ := run_conserves byteCap initial_inv events
  exact ⟨text, total.trans (zero_add _), inv.shares⟩

end CoalescedTerminal

end Netcatty.WriteCoalescing
