import Netcatty.TerminalWriteCredit

/-!
The slices of a large batch and the source chunks in it.

`Sliced` is what the loop of `writeLargeTerminalBatch` produces, turn by turn.
From it follow what every call guarantees, and where a call may cut a source
chunk: `MovesBack` is the one situation in which it cuts a chunk that the batch
size could hold.  There a boundary lies exactly at the nominal end of the slice,
is taken for no boundary at all, and the end moves back into the chunk before it.
-/

namespace Netcatty.WriteCoalescing

open List

/-! ## Turns -/

def Batch.stop (batch : Batch) (bounds : List ℕ) (offset : ℕ) : ℕ :=
  sliceEnd batch.data.length batch.batchSize offset batch.preserveSourceChunkBoundaries
    (bounds.filter (offset < ·))

inductive Sliced (batch : Batch) (bounds : List ℕ) : ℕ → List WrittenSlice → Prop where
  | done {offset : ℕ} : batch.data.length ≤ offset → Sliced batch bounds offset []
  | turn {offset : ℕ} {slice : WrittenSlice} {rest : List WrittenSlice} :
      offset < batch.data.length →
      slice.data = (batch.data.drop offset).take (batch.stop bounds offset - offset) →
      slice.options.sourceChunkBoundaries =
        (bounds.filter fun bound => offset < bound ∧ bound < batch.stop bounds offset).map (· - offset) →
      Sliced batch bounds (batch.stop bounds offset) rest →
      Sliced batch bounds offset (slice :: rest)

inductive SliceStart (batch : Batch) (bounds : List ℕ) : ℕ → Prop where
  | first : SliceStart batch bounds 0
  | next {offset : ℕ} : SliceStart batch bounds offset → offset < batch.data.length →
      SliceStart batch bounds (batch.stop bounds offset)

def placed : ℕ → List WrittenSlice → List (ℕ × WrittenSlice)
  | _, [] => []
  | offset, slice :: rest => (offset, slice) :: placed (offset + slice.data.length) rest

/-- A source chunk reaches from one boundary, or the start, to the next, or the end. -/
structure IsChunk (length : ℕ) (bounds : List ℕ) (start stop : ℕ) : Prop where
  starts : start = 0 ∨ start ∈ bounds
  stops : stop = length ∨ stop ∈ bounds
  some : start < stop
  whole : ∀ bound ∈ bounds, bound ≤ start ∨ stop ≤ bound

def reported (bounds : List ℕ) (slices : List (ℕ × WrittenSlice)) : List ℕ :=
  slices.flatMap fun at_ => (if at_.1 ∈ bounds then [at_.1] else []) ++
    at_.2.options.sourceChunkBoundaries.map (· + at_.1)

/-- A slice may end inside a chunk only if the chunk is longer than the batch size, or is the tail
chunk and no boundary lies behind the start of the slice. -/
def KeepsChunks (length batchSize : ℕ) (bounds : List ℕ) (offset stop : ℕ) : Prop :=
  ∀ start past, IsChunk length bounds start past → start < stop → stop < past →
    batchSize < past - start ∨ past = length ∧ ∀ bound ∈ bounds, bound ≤ offset

/-- What slicing owes to the source chunks. -/
structure RespectsChunks (data : JsString) (batchSize : ℕ) (bounds : List ℕ) (preserve : Bool)
    (slices : List WrittenSlice) : Prop where
  nonEmpty : ∀ slice ∈ slices, slice.data ≠ []
  joined : (slices.map WrittenSlice.data).flatten = data
  /-- Slice starts that are boundaries and the boundaries handed out are the boundaries, in order. -/
  boundaries : reported bounds (placed 0 slices) = bounds
  inside : ∀ slice ∈ slices, ∀ bound ∈ slice.options.sourceChunkBoundaries,
    0 < bound ∧ bound < slice.data.length
  bounded : ∀ slice ∈ slices, slice.data.length ≤ batchSize + min batchSize 1024
  whole : preserve = true → ∀ at_ ∈ placed 0 slices,
    KeepsChunks data.length batchSize bounds at_.1 (at_.1 + at_.2.data.length)

/-- The nominal end of the slice is the last boundary, so few units follow it that the end moves back,
and it moves into a chunk that the batch size could hold. -/
structure MovesBack (length batchSize : ℕ) (bounds : List ℕ) (offset : ℕ) : Prop where
  nominal : offset + batchSize ∈ bounds
  last : ∀ bound ∈ bounds, bound ≤ offset + batchSize
  short : length - min batchSize 1024 < offset + batchSize
  cuts : ∃ start past, IsChunk length bounds start past ∧ start < length - min batchSize 1024 ∧
    length - min batchSize 1024 < past ∧ past - start ≤ batchSize

/-! ## Sorted boundaries -/

section Sorted

variable {l : List ℕ}

variable {k : ℕ} (sorted : l.Pairwise (· < ·))
include sorted

theorem dropWhile_le_eq_filter : l.dropWhile (· ≤ k) = l.filter (k < ·) := by
  rw [(span_eq_filter (sorted.imp fun before behind => by
    rw [decide_eq_true_eq] at behind ⊢
    omega)).2]
  refine filter_congr fun bound _ => ?_
  rw [← decide_not, decide_eq_decide, Nat.not_le]

theorem dropWhile_lt_eq_filter : l.dropWhile (· < k) = l.filter (k ≤ ·) := by
  rw [(span_eq_filter (sorted.imp fun before behind => by
    rw [decide_eq_true_eq] at behind ⊢
    omega)).2]
  refine filter_congr fun bound _ => ?_
  rw [← decide_not, decide_eq_decide, Nat.not_lt]

theorem takeWhile_lt_eq_filter : l.takeWhile (· < k) = l.filter (· < k) :=
  (span_eq_filter (sorted.imp fun before behind => by
    rw [decide_eq_true_eq] at behind ⊢
    omega)).1

theorem takeWhile_le_eq_filter : l.takeWhile (· ≤ k) = l.filter (· ≤ k) :=
  (span_eq_filter (sorted.imp fun before behind => by
    rw [decide_eq_true_eq] at behind ⊢
    omega)).1

theorem lastBoundary_cases (idealEnd : ℕ) :
    (lastBoundary idealEnd l ∈ l ∧ lastBoundary idealEnd l ≤ idealEnd ∧
        ∀ bound ∈ l, bound ≤ idealEnd → bound ≤ lastBoundary idealEnd l) ∨
      (lastBoundary idealEnd l = idealEnd ∧ ∀ bound ∈ l, idealEnd < bound) := by
  unfold lastBoundary
  rw [takeWhile_le_eq_filter sorted]
  cases found : (l.filter (· ≤ idealEnd)).getLast? with
  | none =>
    rw [getLast?_eq_none_iff, filter_eq_nil_iff] at found
    exact .inr ⟨rfl, fun bound mem => by simpa using found bound mem⟩
  | some last =>
    have mem := mem_filter.mp (mem_of_getLast? found)
    refine .inl ⟨mem.1, of_decide_eq_true mem.2, fun bound here behind => ?_⟩
    obtain ⟨before, split⟩ := getLast?_eq_some_iff.mp found
    have inFilter : bound ∈ before ++ [last] := split ▸ mem_filter.mpr ⟨here, decide_eq_true behind⟩
    rcases mem_append.mp inFilter with earlier | same
    · have ordered : (before ++ [last]).Pairwise (· < ·) := split ▸ sorted.filter _
      exact ((pairwise_append.mp ordered).2.2 bound earlier last (mem_singleton.mpr rfl)).le
    · exact (mem_singleton.mp same).le

/-- The next boundary within the slack, if there is one. -/
theorem nextBoundary_cases (batchSize idealEnd : ℕ) :
    (nextBoundary batchSize idealEnd l ∈ l ∧ idealEnd < nextBoundary batchSize idealEnd l ∧
        nextBoundary batchSize idealEnd l ≤ idealEnd + min batchSize 1024) ∨
      (nextBoundary batchSize idealEnd l = idealEnd ∧
        ∀ bound ∈ l, bound ≤ idealEnd ∨ idealEnd + min batchSize 1024 < bound) := by
  unfold nextBoundary
  rw [dropWhile_le_eq_filter sorted]
  cases ahead : l.filter (idealEnd < ·) with
  | nil =>
    rw [filter_eq_nil_iff] at ahead
    exact .inr ⟨rfl, fun bound mem => .inl (by simpa using ahead bound mem)⟩
  | cons next rest =>
    have first := mem_filter.mp (ahead ▸ mem_cons_self : next ∈ l.filter (idealEnd < ·))
    have beyond : idealEnd < next := of_decide_eq_true first.2
    have least : ∀ bound ∈ l, bound ≤ idealEnd ∨ next ≤ bound := by
      intro bound mem
      by_cases behind : bound ≤ idealEnd
      · exact .inl behind
      · have inAhead : bound ∈ next :: rest :=
          ahead ▸ mem_filter.mpr ⟨mem, decide_eq_true (Nat.not_le.mp behind)⟩
        have sortedAhead : (next :: rest).Pairwise (· < ·) := ahead ▸ sorted.filter _
        rcases mem_cons.mp inAhead with rfl | later
        · exact .inr le_rfl
        · exact .inr ((pairwise_cons.mp sortedAhead).1 bound later).le
    have slack : min batchSize SOURCE_BOUNDARY_SLICE_SLACK_BYTES = min batchSize 1024 := rfl
    rw [head?_cons]
    dsimp only
    by_cases near : idealEnd < next ∧ next - idealEnd ≤ min batchSize SOURCE_BOUNDARY_SLICE_SLACK_BYTES
    · rw [if_pos near]
      exact .inl ⟨first.1, near.1, by omega⟩
    · rw [if_neg near]
      refine .inr ⟨rfl, fun bound mem => (least bound mem).imp_right fun above => ?_⟩
      omega

end Sorted

/-! ## One turn -/

section Turn

variable {batch : Batch} {bounds : List ℕ} {offset : ℕ}

section

variable (sorted : bounds.Pairwise (· < ·)) (inside : ∀ bound ∈ bounds, bound < batch.data.length)
  (size : 0 < batch.batchSize)
include sorted inside size

theorem stop_cases : (batch.stop bounds offset = min batch.data.length (offset + batch.batchSize) ∧
      (batch.preserveSourceChunkBoundaries → batch.data.length ≤ offset + batch.batchSize)) ∨
    offset + batch.batchSize < batch.data.length ∧ batch.preserveSourceChunkBoundaries ∧
      ((batch.stop bounds offset ∈ bounds ∧ offset < batch.stop bounds offset ∧
          batch.stop bounds offset ≤ offset + batch.batchSize + min batch.batchSize 1024 ∧
          ¬ (offset + batch.batchSize ∈ bounds ∧ (∀ bound ∈ bounds, bound ≤ offset + batch.batchSize) ∧
            batch.data.length - min batch.batchSize 1024 < offset + batch.batchSize)) ∨
        ((∀ bound ∈ bounds, bound ≤ offset ∨
            offset + batch.batchSize + min batch.batchSize 1024 < bound) ∧
          (batch.stop bounds offset = offset + batch.batchSize ∨
            batch.data.length - min batch.batchSize 1024 < offset + batch.batchSize ∧
              batch.stop bounds offset = batch.data.length - min batch.batchSize 1024)) ∨
        (offset + batch.batchSize ∈ bounds ∧ (∀ bound ∈ bounds, bound ≤ offset + batch.batchSize) ∧
          batch.data.length - min batch.batchSize 1024 < offset + batch.batchSize ∧
          batch.stop bounds offset = batch.data.length - min batch.batchSize 1024)) := by
  by_cases looks : batch.preserveSourceChunkBoundaries = true ∧
      min batch.data.length (offset + batch.batchSize) < batch.data.length
  · obtain ⟨preserve, more⟩ := looks
    have short : offset + batch.batchSize < batch.data.length := by omega
    have ideal : min batch.data.length (offset + batch.batchSize) = offset + batch.batchSize :=
      min_eq_right short.le
    refine .inr ⟨short, preserve, ?_⟩
    have ahead : (bounds.filter (offset < ·)).Pairwise (· < ·) := sorted.filter _
    have inAhead : ∀ bound, bound ∈ bounds.filter (offset < ·) ↔ bound ∈ bounds ∧ offset < bound :=
      fun bound => by rw [mem_filter, decide_eq_true_eq]
    have same : batch.stop bounds offset =
        (let stop := lastBoundary (offset + batch.batchSize) (bounds.filter (offset < ·))
        let stop := if stop = offset + batch.batchSize then
          nextBoundary batch.batchSize (offset + batch.batchSize) (bounds.filter (offset < ·)) else stop
        if stop = offset + batch.batchSize then beforeFinalSlice batch.data.length batch.batchSize offset
          (offset + batch.batchSize) else stop) := by
      unfold Batch.stop sliceEnd
      rw [ideal, if_pos ⟨preserve, short⟩]
    rw [same]
    dsimp only
    rcases lastBoundary_cases ahead (offset + batch.batchSize) with ⟨mem, behind, greatest⟩ | ⟨ideal, none_⟩
    · obtain ⟨inBounds, beyond⟩ := (inAhead _).mp mem
      by_cases nominal : lastBoundary (offset + batch.batchSize) (bounds.filter (offset < ·)) =
          offset + batch.batchSize
      · -- A boundary lies at the nominal end.
        rw [nominal] at inBounds
        rw [if_pos nominal]
        rcases nextBoundary_cases ahead batch.batchSize (offset + batch.batchSize) with
          ⟨mem', beyond', within⟩ | ⟨same', far⟩
        · rw [if_neg beyond'.ne']
          have inBounds' := ((inAhead _).mp mem').1
          refine .inl ⟨inBounds', by omega, within, ?_⟩
          rintro ⟨-, last, -⟩
          exact absurd (last _ inBounds') (Nat.not_le.mpr beyond')
        · rw [if_pos same']
          unfold beforeFinalSlice
          dsimp only
          by_cases final : offset < batch.data.length - min batch.batchSize 1024 ∧
              batch.data.length - min batch.batchSize 1024 < offset + batch.batchSize
          · rw [if_pos final]
            refine .inr (.inr ⟨inBounds, fun bound here => ?_, final.2, rfl⟩)
            have below := inside bound here
            by_cases passed : offset < bound
            · rcases far bound ((inAhead _).mpr ⟨here, passed⟩) with near | distant
              · exact near
              · omega
            · omega
          · rw [if_neg final]
            refine .inl ⟨inBounds, by omega, by omega, ?_⟩
            rintro ⟨-, -, tail⟩
            exact final ⟨by omega, tail⟩
      · rw [if_neg nominal, if_neg nominal]
        refine .inl ⟨inBounds, beyond, by omega, ?_⟩
        rintro ⟨at_, -, -⟩
        have most := greatest _ ((inAhead _).mpr ⟨at_, by omega⟩) le_rfl
        exact nominal (le_antisymm behind most)
    · rw [if_pos ideal]
      rcases nextBoundary_cases ahead batch.batchSize (offset + batch.batchSize) with
        ⟨mem', beyond', within⟩ | ⟨same', far⟩
      · rw [if_neg beyond'.ne']
        refine .inl ⟨((inAhead _).mp mem').1, by omega, within, ?_⟩
        rintro ⟨at_, -, -⟩
        exact absurd (none_ _ ((inAhead _).mpr ⟨at_, by omega⟩)) (lt_irrefl _)
      · rw [if_pos same']
        refine .inr (.inl ⟨fun bound here => ?_, ?_⟩)
        · by_cases passed : offset < bound
          · have beyond := none_ bound ((inAhead _).mpr ⟨here, passed⟩)
            rcases far bound ((inAhead _).mpr ⟨here, passed⟩) with near | distant
            · omega
            · exact .inr distant
          · exact .inl (Nat.not_lt.mp passed)
        · unfold beforeFinalSlice
          dsimp only
          split
          · next final => exact .inr ⟨final.2, rfl⟩
          · exact .inl rfl
  · refine .inl ⟨?_, fun preserve => ?_⟩
    · unfold Batch.stop sliceEnd
      exact if_neg looks
    · have full : ¬ min batch.data.length (offset + batch.batchSize) < batch.data.length := fun more =>
        looks ⟨preserve, more⟩
      omega

theorem stop_le : batch.stop bounds offset ≤ batch.data.length ∧
      batch.stop bounds offset ≤ offset + batch.batchSize + min batch.batchSize 1024 := by
  rcases @stop_cases batch bounds offset sorted inside size with ⟨same, -⟩ |
    ⟨short, -, ⟨at_, -, near, -⟩ | ⟨-, same | ⟨tail, same⟩⟩ | ⟨-, -, tail, same⟩⟩
  · omega
  · exact ⟨(inside _ at_).le, near⟩
  all_goals omega

omit sorted inside size in
theorem lt_stop (size : 0 < batch.batchSize) (more : offset < batch.data.length) :
    offset < batch.stop bounds offset :=
  lt_sliceEnd _ more size fun _ mem => of_decide_eq_true (mem_filter.mp mem).2

/-- **A slice keeps the source chunks unless its end moves back.** -/
theorem keepsChunks_iff (preserve : batch.preserveSourceChunkBoundaries) :
    KeepsChunks batch.data.length batch.batchSize bounds offset (batch.stop bounds offset) ↔
      ¬ MovesBack batch.data.length batch.batchSize bounds offset := by
  rcases @stop_cases batch bounds offset sorted inside size with ⟨same, full⟩ |
    ⟨short, -, ⟨at_, -, near, clear⟩ | ⟨none_, ended⟩ | ⟨nominal, last, tail, same⟩⟩
  · -- The last slice ends the batch.
    have whole := full preserve
    constructor
    · intro _ moved
      have within := inside _ moved.nominal
      omega
    · intro _ start past chunk _ cut
      rcases chunk.stops with ended | bound
      · omega
      · have within := inside past bound
        omega
  · -- The slice ends at a boundary.
    constructor
    · intro _ moved
      exact clear ⟨moved.nominal, moved.last, moved.short⟩
    · intro _ start past chunk before cut
      rcases chunk.whole _ at_ with behind | beyond <;> omega
  · -- No boundary is in reach.
    constructor
    · intro _ moved
      rcases none_ _ moved.nominal with behind | beyond <;> omega
    · intro _ start past chunk before cut
      have early : start ≤ offset := by
        rcases chunk.starts with first | bound
        · omega
        · rcases none_ start bound with behind | beyond
          · exact behind
          · omega
      rcases chunk.stops with ended | bound
      · refine .inr ⟨ended, fun b mem => ?_⟩
        rcases none_ b mem with behind | beyond
        · exact behind
        · rcases chunk.whole b mem with before' | after'
          · omega
          · have within := inside b mem
            omega
      · have ahead : offset < batch.stop bounds offset := by omega
        rcases none_ past bound with behind | beyond
        · omega
        · exact .inl (by omega)
  · -- The end moves back from a boundary.
    rw [same]
    constructor
    · rintro keeps ⟨-, -, -, start, past, chunk, before, cut, fits⟩
      rcases keeps start past chunk before cut with long | ⟨ended, behind⟩
      · omega
      · have reached := behind _ nominal
        omega
    · intro stays start past chunk before cut
      by_contra bad
      rw [not_or] at bad
      exact stays ⟨nominal, last, tail, start, past, chunk, before, cut, Nat.not_lt.mp bad.1⟩

end

end Turn

/-! ## All turns -/

section Turns

variable {batch : Batch} {bounds : List ℕ}

section Ahead

variable (sorted : bounds.Pairwise (· < ·)) {offset stop : ℕ}
include sorted

theorem dropWhile_at : (bounds.filter (offset ≤ ·)).dropWhile (· ≤ offset) = bounds.filter (offset < ·) := by
  rw [dropWhile_le_eq_filter (sorted.filter _), List.filter_filter]
  refine filter_congr fun bound _ => ?_
  rw [← Bool.decide_and, decide_eq_decide]
  omega

theorem takeWhile_at : (bounds.filter (offset ≤ ·)).takeWhile (· ≤ offset) =
    if offset ∈ bounds then [offset] else [] := by
  rw [takeWhile_le_eq_filter (sorted.filter _), List.filter_filter]
  have same : (bounds.filter fun bound => decide (bound ≤ offset) && decide (offset ≤ bound)) =
      bounds.filter (· = offset) := filter_congr fun bound _ => by
    rw [← Bool.decide_and, decide_eq_decide]
    omega
  rw [same, filter_eq]
  split
  · next mem =>
    rw [count_eq_one_of_mem (sorted.imp Nat.ne_of_lt) mem]
    rfl
  · next absent =>
    rw [count_eq_zero_of_not_mem absent]
    rfl

theorem dropWhile_ahead (further : offset < stop) :
    (bounds.filter (offset < ·)).dropWhile (· < stop) = bounds.filter (stop ≤ ·) := by
  rw [dropWhile_lt_eq_filter (sorted.filter _), List.filter_filter]
  refine filter_congr fun bound _ => ?_
  rw [← Bool.decide_and, decide_eq_decide]
  omega

theorem takeWhile_ahead : (bounds.filter (offset < ·)).takeWhile (· < stop) =
    bounds.filter fun bound => offset < bound ∧ bound < stop := by
  rw [takeWhile_lt_eq_filter (sorted.filter _), List.filter_filter]
  refine filter_congr fun bound _ => ?_
  rw [← Bool.decide_and, decide_eq_decide]
  omega

end Ahead

theorem Batch.slices_sliced (sorted : bounds.Pairwise (· < ·))
    (size : 0 < batch.batchSize) {fuel offset : ℕ} (remaining : ℤ) (yielded : ℕ)
    (enough : batch.data.length ≤ fuel + offset) :
    Sliced batch bounds offset
      (batch.slices fuel offset remaining yielded (bounds.filter (offset ≤ ·))) := by
  induction fuel generalizing offset remaining yielded with
  | zero => exact .done (by omega)
  | succ fuel ih =>
    by_cases more : offset < batch.data.length
    · have further : offset < batch.stop bounds offset := lt_stop size more
      have stop : sliceEnd batch.data.length batch.batchSize offset batch.preserveSourceChunkBoundaries
          (bounds.filter (offset < ·)) = batch.stop bounds offset := rfl
      rw [Batch.slices, if_pos more]
      dsimp only
      rw [dropWhile_at sorted, stop, dropWhile_ahead sorted further, takeWhile_ahead sorted]
      exact .turn more rfl rfl (ih _ _ (by omega))
    · rw [Batch.slices, if_neg more]
      exact .done (Nat.not_lt.mp more)

theorem Sliced.joined (size : 0 < batch.batchSize) {offset : ℕ} {slices : List WrittenSlice}
    (sliced : Sliced batch bounds offset slices) :
    (slices.map WrittenSlice.data).flatten = batch.data.drop offset := by
  induction sliced with
  | done ended => exact (drop_of_length_le ended).symm
  | @turn offset slice rest more cut _ _ ih =>
    have further : offset < batch.stop bounds offset := lt_stop size more
    have same : batch.data.drop (batch.stop bounds offset) =
        (batch.data.drop offset).drop (batch.stop bounds offset - offset) := by
      rw [drop_drop]
      congr 1
      omega
    rw [map_cons, flatten_cons, ih, cut, same, take_append_drop]

variable (sorted : bounds.Pairwise (· < ·)) (inside : ∀ bound ∈ bounds, bound < batch.data.length)
  (size : 0 < batch.batchSize)
include sorted inside size

theorem stop_length {offset : ℕ} (more : offset < batch.data.length) {data : JsString}
    (cut : data = (batch.data.drop offset).take (batch.stop bounds offset - offset)) :
    offset + data.length = batch.stop bounds offset := by
  have further : offset < batch.stop bounds offset := lt_stop size more
  have within := (@stop_le batch bounds offset sorted inside size).1
  rw [cut, length_take, length_drop]
  omega

section

variable {offset : ℕ} {slices : List WrittenSlice} (sliced : Sliced batch bounds offset slices)

include sliced

theorem Sliced.boundaries :
    reported bounds (placed offset slices) = bounds.filter (offset ≤ ·) := by
  induction sliced with
  | done ended =>
    refine (filter_eq_nil_iff.mpr fun bound mem => ?_).symm
    have within := inside bound mem
    simpa using Nat.lt_of_lt_of_le within ended
  | @turn offset slice rest more cut handed _ ih =>
    have further : offset < batch.stop bounds offset := lt_stop size more
    have back : (slice.options.sourceChunkBoundaries.map (· + offset)) =
        bounds.filter fun bound => offset < bound ∧ bound < batch.stop bounds offset := by
      rw [handed, List.map_map]
      conv_rhs => rw [← List.map_id (bounds.filter _)]
      refine map_congr_left fun bound mem => ?_
      have range := of_decide_eq_true (mem_filter.mp mem).2
      exact Nat.sub_add_cancel range.1.le
    have start : reported bounds (placed offset (slice :: rest)) =
        (if offset ∈ bounds then [offset] else []) ++
          slice.options.sourceChunkBoundaries.map (· + offset) ++
          reported bounds (placed (offset + slice.data.length) rest) := rfl
    rw [start, stop_length sorted inside size more cut, ih, back, ← takeWhile_at sorted,
      ← takeWhile_ahead sorted, ← dropWhile_ahead sorted further, append_assoc,
      takeWhile_append_dropWhile, ← dropWhile_at sorted, takeWhile_append_dropWhile]

theorem Sliced.each : ∀ slice ∈ slices,
      0 < slice.data.length ∧ slice.data.length ≤ batch.batchSize + min batch.batchSize 1024 ∧
      ∀ bound ∈ slice.options.sourceChunkBoundaries, 0 < bound ∧ bound < slice.data.length := by
  induction sliced with
  | done _ => exact fun _ mem => absurd mem not_mem_nil
  | @turn offset slice rest more cut handed _ ih =>
    have further : offset < batch.stop bounds offset := lt_stop size more
    have near := (@stop_le batch bounds offset sorted inside size).2
    have length := stop_length sorted inside size more cut
    refine forall_mem_cons.mpr ⟨⟨by omega, by omega, fun bound mem => ?_⟩, ih⟩
    rw [handed] at mem
    obtain ⟨here, inRange, rfl⟩ := List.mem_map.mp mem
    have range := of_decide_eq_true (mem_filter.mp inRange).2
    omega

theorem Sliced.placed_stop (start : SliceStart batch bounds offset) :
    ∀ at_ ∈ placed offset slices, SliceStart batch bounds at_.1 ∧
      at_.1 + at_.2.data.length = batch.stop bounds at_.1 := by
  induction sliced with
  | done _ => exact fun _ mem => absurd mem not_mem_nil
  | @turn offset slice rest more cut _ _ ih =>
    have length := stop_length sorted inside size more cut
    refine forall_mem_cons.mpr ⟨⟨start, length⟩, ?_⟩
    rw [length]
    exact ih (start.next more)

theorem Sliced.placed_next {start : ℕ}
    (here : ∃ slice, (start, slice) ∈ placed offset slices) (more : batch.stop bounds start < batch.data.length) :
    ∃ slice, (batch.stop bounds start, slice) ∈ placed offset slices := by
  induction sliced with
  | done _ =>
    obtain ⟨slice, mem⟩ := here
    cases mem
  | @turn offset slice rest inBatch cut _ tail ih =>
    have length := stop_length sorted inside size inBatch cut
    obtain ⟨other, mem⟩ := here
    rcases mem_cons.mp mem with first | later
    · cases first
      cases tail with
      | done ended => exact absurd more (Nat.not_lt.mpr ended)
      | @turn _ next _ _ _ _ _ =>
        refine ⟨next, mem_cons_of_mem _ ?_⟩
        rw [length]
        exact mem_cons_self
    · rw [length] at later
      obtain ⟨next, mem'⟩ := ih ⟨other, later⟩
      refine ⟨next, mem_cons_of_mem _ ?_⟩
      rw [length]
      exact mem'

end

theorem Sliced.exists_placed {slices : List WrittenSlice} (sliced : Sliced batch bounds 0 slices)
    {offset : ℕ} (start : SliceStart batch bounds offset) (more : offset < batch.data.length) :
    ∃ slice, (offset, slice) ∈ placed 0 slices := by
  induction start with
  | first =>
    cases sliced with
    | done ended => exact absurd more (Nat.not_lt.mpr ended)
    | @turn _ slice _ _ _ _ _ => exact ⟨slice, mem_cons_self⟩
  | next earlier inBatch ih => exact sliced.placed_next sorted inside size (ih inBatch) more

end Turns

/-! ## Calls -/

/-- The batch that a call of `writeLargeTerminalBatch` slices. -/
def largeBatch (data : JsString) (ingressBytes : ℤ) (maxBatchBytes : ℕ) (writer : Writer)
    (options : CoalescedTerminalWriteOptions) (preserveSourceChunkBoundaries : Bool) : Batch where
  data := data
  ingressBytes := ingressBytes
  batchSize := max 1 maxBatchBytes
  yieldBudget := resolveSliceYieldBudgetBytes data (max 1 maxBatchBytes)
  writer := writer
  options := options
  preserveSourceChunkBoundaries := preserveSourceChunkBoundaries

/-- **A call respects the source chunks exactly if no slice of it moves back.**  Everything but the
chunks holds of every call. -/
theorem respectsChunks_iff (data : JsString) (ingressBytes : ℤ) (maxBatchBytes : ℕ) (writer : Writer)
    (options : CoalescedTerminalWriteOptions) (preserve : Bool)
    (sorted : options.sourceChunkBoundaries.Pairwise (· < ·))
    (inside : ∀ bound ∈ options.sourceChunkBoundaries, bound < data.length) :
    RespectsChunks data (max 1 maxBatchBytes) options.sourceChunkBoundaries preserve
        (writeLargeTerminalBatch data ingressBytes maxBatchBytes writer options preserve) ↔
      (preserve = true → ∀ offset,
        SliceStart (largeBatch data ingressBytes maxBatchBytes writer options preserve)
          options.sourceChunkBoundaries offset →
        ¬ MovesBack data.length (max 1 maxBatchBytes) options.sourceChunkBoundaries offset) := by
  set batch := largeBatch data ingressBytes maxBatchBytes writer options preserve with batchDef
  have size : 0 < batch.batchSize := lt_max_of_lt_left Nat.one_pos
  have sliced : Sliced batch options.sourceChunkBoundaries 0
      (writeLargeTerminalBatch data ingressBytes maxBatchBytes writer options preserve) := by
    have all := @Batch.slices_sliced batch _ sorted size data.length 0 (max 0 ingressBytes) 0 le_rfl
    rwa [filter_eq_self.mpr fun bound _ => decide_eq_true (Nat.zero_le bound)] at all
  have keeps := fun offset => @keepsChunks_iff batch options.sourceChunkBoundaries offset sorted inside size
  constructor
  · intro respects preserved offset start moved
    have more : offset < data.length := by
      have within := inside _ moved.nominal
      omega
    obtain ⟨slice, mem⟩ := sliced.exists_placed sorted inside size start more
    have kept := respects.whole preserved _ mem
    have stop := (sliced.placed_stop sorted inside size .first _ mem).2
    dsimp only at kept stop
    rw [stop] at kept
    exact (keeps offset preserved).mp kept moved
  · intro stays
    have each := sliced.each sorted inside size
    refine ⟨fun slice mem => ne_nil_of_length_pos (each slice mem).1, ?_, ?_,
      fun slice mem => (each slice mem).2.2, fun slice mem => (each slice mem).2.1, ?_⟩
    · rw [sliced.joined size]
      rfl
    · rw [sliced.boundaries sorted inside size]
      exact filter_eq_self.mpr fun bound _ => decide_eq_true (Nat.zero_le bound)
    · intro preserved at_ mem
      obtain ⟨start, stop⟩ := sliced.placed_stop sorted inside size .first at_ mem
      rw [stop]
      exact (keeps at_.1 preserved).mpr (stays preserved at_.1 start)

/-- A batch of one chunk of three units and one of two, sliced by four. -/
theorem respectsChunks_small : RespectsChunks (text "abcde") 4 [3] true
      (writeLargeTerminalBatch (text "abcde") 5 4 0 { noOptions with sourceChunkBoundaries := [3] }
        true) := by
  refine (respectsChunks_iff (text "abcde") 5 4 0 { noOptions with sourceChunkBoundaries := [3] } true
    (pairwise_singleton _ _) (by decide)).mpr fun _ offset _ moved => ?_
  have nominal := mem_singleton.mp moved.nominal
  omega

/-- The chunk "ab" fits the batch size and ends at the nominal end of the first slice; the slice cuts
it nevertheless. -/
theorem not_respectsChunks_nominal : ¬ RespectsChunks (text "abc") 2 [2] true
      (writeLargeTerminalBatch (text "abc") 3 2 0 { noOptions with sourceChunkBoundaries := [2] }
        true) := by
  intro respects
  have slices : (placed 0 (writeLargeTerminalBatch (text "abc") 3 2 0
      { noOptions with sourceChunkBoundaries := [2] } true)).map
        (fun at_ => (at_.1, at_.2.data.length)) = [(0, 1), (1, 2)] := by decide +kernel
  obtain ⟨at_, mem, same⟩ := List.mem_map.mp (slices ▸ mem_cons_self :
    (0, 1) ∈ (placed 0 (writeLargeTerminalBatch (text "abc") 3 2 0
      { noOptions with sourceChunkBoundaries := [2] } true)).map
        fun at_ => (at_.1, at_.2.data.length))
  have kept := respects.whole rfl at_ mem
  obtain ⟨start, length⟩ := Prod.mk.inj same
  rw [start, length] at kept
  have chunk : IsChunk 3 [2] 0 2 := ⟨.inl rfl, .inr (by decide), by decide, by decide⟩
  rcases kept 0 2 chunk (by decide) (by decide) with long | ⟨tail, -⟩
  · exact absurd long (lt_irrefl 2)
  · exact absurd tail (by decide)

end Netcatty.WriteCoalescing
