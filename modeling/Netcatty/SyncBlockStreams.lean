import Netcatty.SyncBlockFraming

/-!
Streams of chunks through the synchronized-output filter.

Whatever was emitted so far was scanned up to a clean cut, so scanning what is
still pending completes the scan of the whole stream (`settle_filterAll`).  What
is pending has not been scanned, and how much is pending depends on the cuts.
-/

namespace Netcatty.SyncBlock

open List Option

variable {strip : Bool} {state : SyncBlockFilterState}

/-! ## One chunk -/

theorem splitPendingMarkerSuffix_plain {data : JsString} (plain : escapeUnit ∉ data) :
    splitPendingMarkerSuffix data = ⟨data, []⟩ := by
  obtain ⟨whole, escape, -, -⟩ := splitPendingMarkerSuffix_spec data
  have nothing : (splitPendingMarkerSuffix data).pending = [] := by
    apply escape.resolve_right
    intro head
    apply plain
    rw [← whole]
    exact mem_append_right _ (mem_of_mem_head? head)
  rw [nothing, append_nil] at whole
  calc splitPendingMarkerSuffix data
      = ⟨(splitPendingMarkerSuffix data).emit, (splitPendingMarkerSuffix data).pending⟩ := rfl
    _ = ⟨data, []⟩ := by rw [whole, nothing]

theorem scanUnits_plain (outside : state.inSyncBlock = false) {data : JsString}
    (plain : escapeUnit ∉ data) : scanUnits strip state data = ⟨data, state, false⟩ := by
  induction data with
  | nil => exact scanWith_nil noHop noHop
  | cons code data ih =>
    rw [mem_cons, not_or] at plain
    have none : ∀ marker ∈ MARKERS, ¬ marker <+: code :: data :=
      fun marker mem => not_marker_of_plain mem (Ne.symm plain.1)
    have passing : passesThrough state = true := by rw [passesThrough, outside]; rfl
    rw [scanUnits_cons, scanRound_passing passing (none SYNC_START (by decide))
      (none SYNC_END (by decide))]
    dsimp only [noHop]
    rw [ih plain.2]
    rfl

theorem filterSyncBlockClearsWithMeta_eq (data : JsString) (state : SyncBlockFilterState)
    (term : Option XTerm) :
    filterSyncBlockClearsWithMeta data state term =
      let split := splitPendingMarkerSuffix (state.pending ++ data)
      scanUnits (shouldStripFullRedrawClear term) { state with pending := split.pending }
        split.emit := by
  unfold filterSyncBlockClearsWithMeta
  by_cases fast : state.inSyncBlock = false ∧ state.pending = [] ∧ escapeUnit ∉ data
  · obtain ⟨outside, nothing, plain⟩ := fast
    have same : { state with pending := [] } = state := by rw [← nothing]
    rw [if_pos ⟨outside, nothing, plain⟩, nothing, nil_append,
      splitPendingMarkerSuffix_plain plain]
    dsimp only
    rw [same, scanUnits_plain outside plain]
  · rw [if_neg fast]
    dsimp only
    split
    · rename_i none
      rw [none]
      exact (scanWith_nil noHop noHop).symm
    · rw [scanSyncBlockClears_eq]

/-! ## All chunks -/

/-- A chunk with the terminal it is written to. -/
abbrev Feed := JsString × Option XTerm

/-- Everything that was written. -/
def input (feeds : List Feed) : JsString := (feeds.map Prod.fst).flatten

def ConstantDecision (strip : Bool) (feeds : List Feed) : Prop :=
  ∀ feed ∈ feeds, shouldStripFullRedrawClear feed.2 = strip

instance (strip : Bool) (feeds : List Feed) : Decidable (ConstantDecision strip feeds) :=
  inferInstanceAs (Decidable (∀ feed ∈ feeds, shouldStripFullRedrawClear feed.2 = strip))

/-- The output of all chunks, and the state behind them. -/
def filterAll (state : SyncBlockFilterState) : List Feed → JsString × SyncBlockFilterState
  | [] => ([], state)
  | feed :: feeds =>
    let now := filterSyncBlockClearsWithMeta feed.1 state feed.2
    let later := filterAll now.state feeds
    (now.output ++ later.1, later.2)

/-- Between what was emitted and what is pending, no marker is cut, whatever follows. -/
def Settled (emitted pending : JsString) : Prop := ∀ more, CleanCut emitted (pending ++ more)

theorem settled_nil (pending : JsString) : Settled [] pending :=
  fun _ _ _ _ _ _ left _ inside => absurd (suffix_nil.mp inside) left

theorem Settled.split {emitted pending data : JsString} (settled : Settled emitted pending)
    {split : PendingSplit} (spec : SplitSpec (pending ++ data) split) :
    Settled (emitted ++ split.emit) split.pending := by
  intro more
  rcases spec.escape with nothing | escape
  · have whole := spec.whole
    rw [nothing, append_nil] at whole
    rw [whole, nothing, nil_append]
    intro marker mem x y same left right inside front
    by_cases short : x <:+ pending ++ data
    · -- the last chunk would have held this part of the marker
      have starts : startsMarker x = true := by
        refine startsMarker_iff.mpr ⟨marker, mem, ⟨y, same.symm⟩, ?_⟩
        rw [same, length_append]
        exact Nat.lt_add_of_pos_right (length_pos_iff.mpr right)
      rw [spec.complete nothing x short left] at starts
      cases starts
    · have long := (suffix_or_suffix_of_suffix inside
        (suffix_append emitted (pending ++ data))).resolve_left short
      obtain ⟨earlier, rfl⟩ := long
      have some : earlier ≠ [] := by
        rintro rfl
        exact short (by rw [nil_append])
      have inside' : earlier <:+ emitted := suffix_append_self_iff.mp inside
      refine settled (data ++ y) marker mem earlier (pending ++ (data ++ y)) ?_ some ?_ inside'
        prefix_rfl
      · rw [same, append_assoc, append_assoc]
      · simp [right]
  · apply cleanCut_of_escape
    rw [head?_append, escape]
    rfl

theorem CleanCut.of_append {before after more : JsString} (clean : CleanCut before (after ++ more)) :
    CleanCut before after :=
  fun marker mem x y same left right inside front =>
    clean marker mem x y same left right inside (front.trans (prefix_append after more))

/-- What the filter has done to a stream. -/
structure Progress (strip : Bool) (emitted : JsString) (start : SyncBlockFilterState)
    (feeds : List Feed) (result : JsString × SyncBlockFilterState) (done : JsString) : Prop where
  whole : start.pending ++ input feeds = done ++ result.2.pending
  settled : Settled (emitted ++ done) result.2.pending
  output : (scanUnits strip { start with pending := result.2.pending } done).output = result.1
  state : (scanUnits strip { start with pending := result.2.pending } done).state = result.2
  unfinished : result.2.pending = [] ∨ mayEndWithIncompleteEscape result.2.pending = true

variable {feeds : List Feed}

theorem filterAll_spec (constant : ConstantDecision strip feeds)
    {emitted : JsString} (settled : Settled emitted state.pending)
    (unfinished : state.pending = [] ∨ mayEndWithIncompleteEscape state.pending) :
    ∃ done, Progress strip emitted state feeds (filterAll state feeds) done := by
  induction feeds generalizing state emitted with
  | nil =>
    refine ⟨[], ⟨append_nil _, ?_, ?_, ?_, unfinished⟩⟩
    · rw [append_nil]
      exact settled
    · exact congrArg Scanned.output (scanWith_nil noHop noHop)
    · exact congrArg Scanned.state (scanWith_nil noHop noHop)
  | cons feed feeds ih =>
    obtain ⟨decision, constant⟩ := forall_mem_cons.mp constant
    have spec := splitPendingMarkerSuffix_spec (state.pending ++ feed.1)
    have now := filterSyncBlockClearsWithMeta_eq feed.1 state feed.2
    have later := settled.split spec
    generalize splitPendingMarkerSuffix (state.pending ++ feed.1) = split at spec now later
    dsimp only at now
    rw [decision, scanUnits_pending] at now
    rw [filterAll, now]
    dsimp only
    obtain ⟨done, rest⟩ := @ih { (scanUnits strip state split.emit).state with
      pending := split.pending } constant _ later spec.unfinished
    generalize filterAll _ feeds = result at rest ⊢
    have cut : CleanCut split.emit done := by
      have clean := later (input feeds)
      rw [show split.pending ++ input feeds = _ from rest.whole] at clean
      exact (clean.of_suffix (suffix_append emitted split.emit)).of_append
    have scanned : scanUnits strip { state with pending := result.2.pending } (split.emit ++ done) = _ :=
      scanUnits_append cut
    rw [scanUnits_pending result.2.pending split.emit] at scanned
    dsimp only at scanned
    refine ⟨split.emit ++ done, ⟨?_, ?_, ?_, ?_, rest.unfinished⟩⟩
    · calc state.pending ++ input (feed :: feeds)
          = (state.pending ++ feed.1) ++ input feeds := (append_assoc _ _ _).symm
        _ = split.emit ++ (split.pending ++ input feeds) := by rw [← spec.whole, append_assoc]
        _ = split.emit ++ (done ++ result.2.pending) := by
          rw [show split.pending ++ input feeds = _ from rest.whole]
        _ = split.emit ++ done ++ result.2.pending := (append_assoc _ _ _).symm
    · have still := rest.settled
      rw [append_assoc] at still
      exact still
    · rw [scanned, ← rest.output]
      rfl
    · rw [scanned]
      exact rest.state

/-- From a new filter. -/
theorem filterAll_create (constant : ConstantDecision strip feeds) :
    ∃ done, Progress strip [] createSyncBlockFilterState feeds
      (filterAll createSyncBlockFilterState feeds) done :=
  filterAll_spec constant (settled_nil _) (.inl rfl)

/-! ## Completing the scan -/

/-- The output with what the pending text and the held home add to it, and the
state behind them. -/
def settle (strip : Bool) (result : JsString × SyncBlockFilterState) :
    JsString × SyncBlockFilterState :=
  let scanned := scanSyncBlockClears strip result.2 result.2.pending
  (result.1 ++ scanned.output ++ heldHome scanned.state, { scanned.state with pending := [] })

def allText (result : JsString × SyncBlockFilterState) : JsString :=
  result.1 ++ heldHome result.2 ++ result.2.pending

/-- Scanning what is pending completes the scan of the stream. -/
theorem settle_filterAll (constant : ConstantDecision strip feeds) :
    settle strip (filterAll createSyncBlockFilterState feeds) =
      let whole := scanUnits strip createSyncBlockFilterState (input feeds)
      (whole.output ++ heldHome whole.state, { whole.state with pending := [] }) := by
  obtain ⟨done, progress⟩ := filterAll_create constant
  have cut : CleanCut done (filterAll createSyncBlockFilterState feeds).2.pending := by
    have clean := progress.settled []
    rw [append_nil] at clean
    exact clean
  generalize filterAll createSyncBlockFilterState feeds = result at progress cut ⊢
  have whole : input feeds = done ++ result.2.pending := progress.whole
  have output := progress.output
  have state := progress.state
  rw [scanUnits_pending] at output state
  dsimp only at output state
  obtain ⟨written, after⟩ := result
  dsimp only at whole output state cut
  rw [whole, scanUnits_append cut, settle, scanSyncBlockClears_eq]
  dsimp only
  rw [← state]
  dsimp only
  rw [scanUnits_pending, ← output]
  rfl

theorem pending_filterAll (constant : ConstantDecision strip feeds)
    (complete : mayEndWithIncompleteEscape (input feeds) = false) :
    (filterAll createSyncBlockFilterState feeds).2.pending = [] := by
  obtain ⟨done, progress⟩ := filterAll_create constant
  apply progress.unfinished.resolve_right
  intro unfinished
  have whole : input feeds = done ++ _ := progress.whole
  have inside := mayEndWithIncompleteEscape_of_suffix (suffix_append done _) unfinished
  rw [← whole, complete] at inside
  cases inside

/-! ## At the live bottom -/

/-- No home is held and nothing is stripped. -/
def Transparent (state : SyncBlockFilterState) : Prop :=
  state.pendingCursorHome = none ∧ state.fullRedrawBlock ≠ some true

theorem marker_append_drop {marker input : JsString} (front : marker <+: input) :
    marker ++ input.drop marker.length = input := by
  obtain ⟨rest, rfl⟩ := front
  rw [drop_left]

theorem readBlockCursorHome_eq_some {input : JsString} {home : JsString × JsString}
    (found : readBlockCursorHome input = some home) : home.1 ++ home.2 = input := by
  unfold readBlockCursorHome at found
  split at found
  · rename_i explicit
    cases found
    exact marker_append_drop explicit
  · split at found
    · rename_i short
      cases found
      exact marker_append_drop short
    · cases found

/-- At the live bottom a round copies what it takes. -/
theorem scanRound_transparent (transparent : Transparent state) (first : Fin 65536) (rest : JsString) :
    let round := scanRound noHop noHop false state first rest
    round.output ++ round.rest = first :: rest ∧ Transparent round.state := by
  obtain ⟨home, redraw⟩ := transparent
  unfold scanRound
  dsimp only
  by_cases start : SYNC_START <+: first :: rest
  · rw [if_pos start]
    exact ⟨marker_append_drop start, rfl, (some_ne_none true).symm⟩
  by_cases stop : SYNC_END <+: first :: rest
  · rw [if_neg start, if_pos stop, heldHome, home]
    exact ⟨marker_append_drop stop, rfl, (some_ne_none true).symm⟩
  by_cases passing : passesThrough state
  · rw [if_neg start, if_neg stop, if_pos passing]
    exact ⟨rfl, home, redraw⟩
  rw [if_neg start, if_neg stop, if_neg passing]
  cases read : readBlockCursorHome (first :: rest) with
  | some found =>
    dsimp only
    rw [if_neg redraw]
    exact ⟨readBlockCursorHome_eq_some read, home, redraw⟩
  | none =>
    dsimp only
    by_cases clear : CLEAR <+: first :: rest
    · rw [if_pos clear, home]
      dsimp only
      rw [if_neg redraw]
      exact ⟨marker_append_drop clear, home, redraw⟩
    · rw [if_neg clear, heldHome, home]
      exact ⟨rfl, rfl, redraw⟩

theorem scanUnits_transparent (transparent : Transparent state) (input : JsString) :
    (scanUnits false state input).output = input ∧ Transparent (scanUnits false state input).state := by
  induction len : input.length using Nat.strongRecOn generalizing input state with
  | ind n ih =>
    cases input with
    | nil =>
      have none : scanUnits false state [] = ⟨[], state, false⟩ := scanWith_nil noHop noHop
      rw [none]
      exact ⟨rfl, transparent⟩
    | cons code input =>
      have shorter := scanRound_shrinks noHop noHop false state code input
      obtain ⟨copied, still⟩ := scanRound_transparent transparent code input
      obtain ⟨output, final⟩ := ih _ (by rw [← len]; exact Nat.lt_succ_of_le shorter) still _ rfl
      rw [scanUnits_cons]
      refine ⟨?_, final⟩
      calc _ ++ (scanUnits false _ _).output = _ ++ _ := by rw [output]
        _ = code :: input := copied

theorem allText_filterAll (bottom : ConstantDecision false feeds) :
    allText (filterAll createSyncBlockFilterState feeds) = input feeds := by
  obtain ⟨done, progress⟩ := filterAll_create bottom
  have start : Transparent createSyncBlockFilterState := ⟨rfl, (some_ne_none true).symm⟩
  obtain ⟨output, final⟩ := scanUnits_transparent start done
  generalize filterAll createSyncBlockFilterState feeds = result at progress ⊢
  have written := progress.output
  have state := progress.state
  rw [scanUnits_pending] at written state
  have none : heldHome result.2 = [] := by
    rw [← state, heldHome]
    dsimp only
    rw [final.1]
    rfl
  have whole : input feeds = done ++ result.2.pending := progress.whole
  rw [allText, none, append_nil, whole]
  congr 1
  exact written.symm.trans output

/-! ## Framing -/

theorem settle_of_nothing_pending {result : JsString × SyncBlockFilterState}
    (nothing : result.2.pending = []) :
    settle strip result = (allText result, { result.2 with pending := [] }) := by
  unfold settle allText
  rw [nothing, scanSyncBlockClears, scanWith_nil]
  dsimp only
  rw [append_nil, append_nil]

/-- A terminal that shows scrollback. -/
def scrolledUp : XTerm := ⟨some ⟨.normal, 10, 0⟩⟩

end Netcatty.SyncBlock
