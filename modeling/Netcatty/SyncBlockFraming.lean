import Netcatty.SyncBlockClears

/-!
What the synchronized-output filter does to a stream does not depend on how the
stream was cut.

The scan hops over plain text, but does what a scan unit by unit does
(`scanSyncBlockClears_eq`), and that scan may be interrupted wherever no marker
straddles the cut (`scanUnits_append`).  The filter cuts only there, so what it
emitted and holds is always the scan of a prefix and the rest (`filterAll_spec`).
-/

namespace Netcatty.SyncBlock

open List

/-! ## Markers -/

theorem marker_spec : ∀ marker ∈ MARKERS,
    marker.head? = some escapeUnit ∧ escapeUnit ∉ marker.tail ∧ 2 ≤ marker.length := by
  decide

theorem marker_length_le : ∀ marker ∈ MARKERS, marker.length ≤ maxMarkerPrefixLength + 1 := by
  decide

theorem head_of_marker_front {marker part : JsString} (mem : marker ∈ MARKERS)
    (front : part <+: marker) (some : part ≠ []) : part.head? = Option.some escapeUnit := by
  obtain ⟨head, -, -⟩ := marker_spec marker mem
  obtain ⟨rest, rfl⟩ := front
  cases part with
  | nil => exact absurd rfl some
  | cons code part => exact head

theorem not_marker_of_plain {marker rest : JsString} {code : Fin 65536} (mem : marker ∈ MARKERS)
    (plain : code ≠ escapeUnit) : ¬ marker <+: code :: rest := by
  intro front
  obtain ⟨head, -, long⟩ := marker_spec marker mem
  obtain ⟨tail, same⟩ := front
  cases marker with
  | nil => cases head
  | cons first marker =>
    cases head
    exact plain (List.cons.inj same).1.symm

/-! ## Scanning unit by unit -/

/-- A span of one unit. -/
def noHop : Hop := ⟨fun input => ([], input), fun _ => rfl⟩

def scanUnits : Bool → SyncBlockFilterState → JsString → Scanned := scanWith noHop noHop

/-- What was emitted before a scan. -/
def Scanned.after (later : Scanned) (output : JsString) (started : Bool) : Scanned :=
  ⟨output ++ later.output, later.state, started || later.startedSyncBlock⟩

theorem Scanned.after_after (later : Scanned) (first second : JsString) (started again : Bool) :
    (later.after second again).after first started = later.after (first ++ second) (started || again) := by
  simp only [Scanned.after, append_assoc, Bool.or_assoc]

variable {strip : Bool} {state : SyncBlockFilterState} {first : Fin 65536} {rest : JsString}

@[simp] theorem scanWith_nil (outside inside : Hop) :
    scanWith outside inside strip state [] = ⟨[], state, false⟩ := by
  rw [scanWith]

theorem scanWith_cons (outside inside : Hop) : scanWith outside inside strip state (first :: rest) =
      let now := scanRound outside inside strip state first rest
      (scanWith outside inside strip now.state now.rest).after now.output now.startedSyncBlock := by
  rw [scanWith]
  rfl

theorem scanUnits_cons : scanUnits strip state (first :: rest) =
    let now := scanRound noHop noHop strip state first rest
    (scanUnits strip now.state now.rest).after now.output now.startedSyncBlock :=
  scanWith_cons noHop noHop

theorem scanRound_passing {outside inside : Hop} (passing : passesThrough state)
    (start : ¬ SYNC_START <+: first :: rest) (stop : ¬ SYNC_END <+: first :: rest) :
    scanRound outside inside strip state first rest =
      ⟨first :: (outside.run rest).1, state, false, (outside.run rest).2⟩ := by
  unfold scanRound
  dsimp only
  rw [if_neg start, if_neg stop, if_pos passing]

theorem scanRound_plain {outside inside : Hop} (inBlock : ¬ passesThrough state)
    (none : ∀ marker ∈ MARKERS, ¬ marker <+: first :: rest) :
    scanRound outside inside strip state first rest =
      ⟨heldHome state ++ first :: (inside.run rest).1, { state with pendingCursorHome := Option.none },
        false, (inside.run rest).2⟩ := by
  have start := none SYNC_START (by decide)
  have stop := none SYNC_END (by decide)
  have clear := none CLEAR (by decide)
  have home := none CURSOR_HOME (by decide)
  have explicit := none CURSOR_HOME_EXPLICIT (by decide)
  unfold scanRound
  dsimp only
  rw [if_neg start, if_neg stop, if_neg inBlock, readBlockCursorHome, if_neg explicit, if_neg home]
  dsimp only
  rw [if_neg clear]

variable {input : JsString}

theorem readBlockCursorHome_eq_none :
    readBlockCursorHome input = none ↔ ¬ CURSOR_HOME_EXPLICIT <+: input ∧ ¬ CURSOR_HOME <+: input := by
  unfold readBlockCursorHome
  by_cases explicit : CURSOR_HOME_EXPLICIT <+: input
  · simp [explicit]
  · by_cases home : CURSOR_HOME <+: input <;> simp [explicit, home]

theorem scanRound_marker {outside inside outside' inside' : Hop}
    (mark : SYNC_START <+: first :: rest ∨ SYNC_END <+: first :: rest ∨
      ¬ passesThrough state ∧ ∃ marker ∈ MARKERS, marker <+: first :: rest) :
    scanRound outside inside strip state first rest =
      scanRound outside' inside' strip state first rest := by
  unfold scanRound
  dsimp only
  by_cases start : SYNC_START <+: first :: rest
  · rw [if_pos start, if_pos start]
  by_cases stop : SYNC_END <+: first :: rest
  · rw [if_neg start, if_neg start, if_pos stop, if_pos stop]
  obtain ⟨inBlock, marker, mem, front⟩ := (mark.resolve_left start).resolve_left stop
  rw [if_neg start, if_neg stop, if_neg inBlock, if_neg start, if_neg stop, if_neg inBlock]
  cases home : readBlockCursorHome (first :: rest) with
  | some home => rfl
  | none =>
    obtain ⟨explicit, home⟩ := readBlockCursorHome_eq_none.mp home
    have clear : CLEAR <+: first :: rest := by
      simp only [MARKERS, mem_cons, not_mem_nil, or_false] at mem
      obtain rfl | rfl | rfl | rfl | rfl := mem
      · exact absurd front start
      · exact absurd front stop
      · exact front
      · exact absurd front home
      · exact absurd front explicit
    dsimp only
    rw [if_pos clear, if_pos clear]

/-! ## Hopping over plain text -/

theorem scanUnits_hop_outside (passing : passesThrough state) (input : JsString) :
    scanUnits strip state input =
      (scanUnits strip state (splitBefore SYNC_PREFIX input).2).after
        (splitBefore SYNC_PREFIX input).1 false := by
  induction input with
  | nil => rfl
  | cons code input ih =>
    rw [splitBefore]
    by_cases here : SYNC_PREFIX <+: code :: input
    · rw [if_pos here]
      rfl
    · have start : ¬ SYNC_START <+: code :: input :=
        fun front => here (List.IsPrefix.trans (by decide) front)
      have stop : ¬ SYNC_END <+: code :: input :=
        fun front => here (List.IsPrefix.trans (by decide) front)
      rw [if_neg here, scanUnits_cons, scanRound_passing passing start stop]
      dsimp only [noHop]
      rw [ih, Scanned.after_after]
      rfl

theorem scanUnits_hop_inside (state : SyncBlockFilterState) (inBlock : ¬ passesThrough state)
    (released : state.pendingCursorHome = none) (input : JsString) : scanUnits strip state input =
      (scanUnits strip state (splitBefore [escapeUnit] input).2).after
        (splitBefore [escapeUnit] input).1 false := by
  induction input with
  | nil => rfl
  | cons code input ih =>
    rw [splitBefore]
    by_cases here : [escapeUnit] <+: code :: input
    · rw [if_pos here]
      rfl
    · have plain : code ≠ escapeUnit := by
        rintro rfl
        exact here ⟨input, rfl⟩
      have same : { state with pendingCursorHome := none } = state := by rw [← released]
      rw [if_neg here, scanUnits_cons,
        scanRound_plain inBlock fun marker mem => not_marker_of_plain mem plain]
      dsimp only [noHop]
      rw [same, heldHome, released, ih, Scanned.after_after]
      rfl

/-- A round of the source does what rounds of one unit do. -/
theorem scanUnits_round : scanUnits strip state (first :: rest) =
    let now := scanRound (hopTo SYNC_PREFIX) (hopTo [escapeUnit]) strip state first rest
    (scanUnits strip now.state now.rest).after now.output now.startedSyncBlock := by
  rw [scanUnits_cons]
  by_cases mark : SYNC_START <+: first :: rest ∨ SYNC_END <+: first :: rest ∨
      ¬ passesThrough state ∧ ∃ marker ∈ MARKERS, marker <+: first :: rest
  · rw [scanRound_marker mark]
  rw [not_or, not_or, not_and_or] at mark
  obtain ⟨start, stop, plain⟩ := mark
  by_cases passing : passesThrough state
  · rw [scanRound_passing passing start stop, scanRound_passing passing start stop]
    dsimp only [noHop, hopTo]
    rw [scanUnits_hop_outside passing rest, Scanned.after_after]
    rfl
  · have none : ∀ marker ∈ MARKERS, ¬ marker <+: first :: rest := by
      intro marker mem front
      exact plain.elim (fun passes => passes passing) fun none => none ⟨marker, mem, front⟩
    rw [scanRound_plain passing none, scanRound_plain passing none]
    dsimp only [noHop, hopTo]
    rw [scanUnits_hop_inside { state with pendingCursorHome := Option.none } passing rfl rest, Scanned.after_after, append_assoc]
    rfl

theorem scanSyncBlockClears_eq (input : JsString) :
    scanSyncBlockClears strip state input = scanUnits strip state input := by
  induction len : input.length using Nat.strongRecOn generalizing input state with
  | ind n ih =>
    cases input with
    | nil => rw [scanSyncBlockClears, scanUnits, scanWith_nil, scanWith_nil]
    | cons code input =>
      have shorter := scanRound_shrinks (hopTo SYNC_PREFIX) (hopTo [escapeUnit]) strip state code input
      rw [scanSyncBlockClears, scanWith_cons, scanUnits_round]
      dsimp only
      rw [← scanSyncBlockClears, ih _ (by rw [← len]; exact Nat.lt_succ_of_le shorter) _ rfl]

/-! ## Cutting a stream -/

/-- No marker straddles the cut between `before` and `after`. -/
def CleanCut (before after : JsString) : Prop :=
  ∀ marker ∈ MARKERS, ∀ x y, marker = x ++ y → x ≠ [] → y ≠ [] → x <:+ before → ¬ y <+: after

variable {before after : JsString}

theorem CleanCut.of_suffix {later : JsString} (clean : CleanCut before after)
    (suffix : later <:+ before) : CleanCut later after :=
  fun marker mem x y same left right inside => clean marker mem x y same left right (inside.trans suffix)

/-- A cut in front of an ESC is clean. -/
theorem cleanCut_of_escape (head : after.head? = some escapeUnit) : CleanCut before after := by
  intro marker mem x y same left right inside front
  obtain ⟨-, once, -⟩ := marker_spec marker mem
  obtain ⟨rest, rfl⟩ := front
  apply once
  cases x with
  | nil => exact absurd rfl left
  | cons code x =>
    cases y with
    | nil => exact absurd rfl right
    | cons next y =>
      cases head
      rw [same]
      exact mem_append_right _ mem_cons_self

theorem CleanCut.marker_iff (clean : CleanCut before after) (some : before ≠ []) {marker : JsString}
    (mem : marker ∈ MARKERS) : marker <+: before ++ after ↔ marker <+: before := by
  constructor
  · intro front
    rcases List.prefix_or_prefix_of_prefix front (prefix_append before after) with here | longer
    · exact here
    · obtain ⟨y, rfl⟩ := longer
      by_cases whole : y = []
      · rw [whole, append_nil]
      · rw [prefix_append_right_inj] at front
        exact absurd front (clean _ mem before y rfl some whole suffix_rfl)
  · intro front
    exact front.trans (prefix_append before after)

theorem drop_append_of_marker {marker : JsString} (front : marker <+: before) :
    (before ++ after).drop marker.length = before.drop marker.length ++ after :=
  drop_append_of_le_length front.length_le

theorem CleanCut.readBlockCursorHome_append (clean : CleanCut before after) (some : before ≠ []) :
    readBlockCursorHome (before ++ after) =
      (readBlockCursorHome before).map fun home => (home.1, home.2 ++ after) := by
  unfold readBlockCursorHome
  by_cases explicit : CURSOR_HOME_EXPLICIT <+: before
  · rw [if_pos ((clean.marker_iff some (by decide)).mpr explicit), if_pos explicit,
      drop_append_of_marker explicit]
    rfl
  · rw [if_neg (mt (clean.marker_iff some (by decide)).mp explicit), if_neg explicit]
    by_cases home : CURSOR_HOME <+: before
    · rw [if_pos ((clean.marker_iff some (by decide)).mpr home), if_pos home,
        drop_append_of_marker home]
      rfl
    · rw [if_neg (mt (clean.marker_iff some (by decide)).mp home), if_neg home]
      rfl

/-- More text behind what is left. -/
def Round.append (round : Round) (after : JsString) : Round :=
  { round with rest := round.rest ++ after }

/-- Behind a clean cut, a round does not see what follows. -/
theorem scanRound_append (clean : CleanCut (first :: rest) after) :
    scanRound noHop noHop strip state first (rest ++ after) =
      (scanRound noHop noHop strip state first rest).append after := by
  have some : first :: rest ≠ [] := cons_ne_nil _ _
  have start : SYNC_START <+: first :: rest ++ after ↔ SYNC_START <+: first :: rest :=
    clean.marker_iff some (by decide)
  have stop : SYNC_END <+: first :: rest ++ after ↔ SYNC_END <+: first :: rest :=
    clean.marker_iff some (by decide)
  have clear : CLEAR <+: first :: rest ++ after ↔ CLEAR <+: first :: rest :=
    clean.marker_iff some (by decide)
  have home := clean.readBlockCursorHome_append some
  rw [cons_append] at start stop clear home
  unfold scanRound
  dsimp only
  by_cases isStart : SYNC_START <+: first :: rest
  · rw [if_pos (start.mpr isStart), if_pos isStart, ← cons_append,
      drop_append_of_marker isStart]
    rfl
  rw [if_neg (mt start.mp isStart), if_neg isStart]
  by_cases isStop : SYNC_END <+: first :: rest
  · rw [if_pos (stop.mpr isStop), if_pos isStop, ← cons_append, drop_append_of_marker isStop]
    rfl
  rw [if_neg (mt stop.mp isStop), if_neg isStop]
  by_cases passing : passesThrough state
  · rw [if_pos passing, if_pos passing]
    rfl
  rw [if_neg passing, if_neg passing, home]
  cases readBlockCursorHome (first :: rest) with
  | some found =>
    dsimp only [Option.map]
    by_cases full : state.fullRedrawBlock = Option.some true
    · rw [if_pos full, if_pos full]
      rfl
    · rw [if_neg full, if_neg full]
      cases strip <;> rfl
  | none =>
    dsimp only [Option.map]
    by_cases isClear : CLEAR <+: first :: rest
    · rw [if_pos (clear.mpr isClear), if_pos isClear, ← cons_append,
        drop_append_of_marker isClear]
      cases state.pendingCursorHome with
      | some held => cases strip <;> rfl
      | none =>
        dsimp only
        by_cases full : state.fullRedrawBlock = Option.some true
        · rw [if_pos full, if_pos full]
          rfl
        · rw [if_neg full, if_neg full]
          cases strip <;> rfl
    · rw [if_neg (mt clear.mp isClear), if_neg isClear]
      rfl

theorem scanRound_rest_suffix (strip : Bool) (state : SyncBlockFilterState) (first : Fin 65536)
    (rest : JsString) : (scanRound noHop noHop strip state first rest).rest <:+ first :: rest := by
  have all : ∀ n, (first :: rest).drop n <:+ first :: rest := fun n => drop_suffix n _
  have next : rest <:+ first :: rest := suffix_cons first rest
  have home : ∀ found, readBlockCursorHome (first :: rest) = some found → found.2 <:+ first :: rest := by
    intro found read
    unfold readBlockCursorHome at read
    split at read
    · cases read
      exact all _
    · split at read
      · cases read
        exact all _
      · cases read
  unfold scanRound
  dsimp only
  split
  · exact all _
  split
  · exact all _
  split
  · exact next
  split
  · rename_i found read
    split
    · exact home found read
    · split <;> exact home found read
  split
  · split
    · split <;> exact all _
    · split
      · exact all _
      · split <;> exact all _
  · exact next

theorem scanUnits_append (clean : CleanCut before after) : scanUnits strip state (before ++ after) =
    let first := scanUnits strip state before
    (scanUnits strip first.state after).after first.output first.startedSyncBlock := by
  induction len : before.length using Nat.strongRecOn generalizing before state with
  | ind n ih =>
    cases before with
    | nil =>
      have none : scanUnits strip state [] = ⟨[], state, false⟩ := scanWith_nil noHop noHop
      rw [nil_append, none]
      rfl
    | cons code before =>
      have shorter := scanRound_shrinks noHop noHop strip state code before
      have later := clean.of_suffix (scanRound_rest_suffix strip state code before)
      rw [cons_append, scanUnits_cons, scanRound_append clean, scanUnits_cons]
      dsimp only [Round.append]
      rw [ih _ (by rw [← len]; exact Nat.lt_succ_of_le shorter) later rfl, Scanned.after_after]
      rfl

theorem scanRound_pending (pending : JsString) :
    scanRound noHop noHop strip { state with pending := pending } first rest =
      let now := scanRound noHop noHop strip state first rest
      { now with state := { now.state with pending := pending } } := by
  have same : passesThrough { state with pending := pending } = passesThrough state := rfl
  unfold scanRound
  dsimp only
  rw [same]
  split
  · rfl
  split
  · rfl
  split
  · rfl
  split
  · split
    · rfl
    · split <;> rfl
  split
  · split
    · split <;> rfl
    · split
      · rfl
      · split <;> rfl
  · rfl

theorem scanUnits_pending (pending input : JsString) :
    scanUnits strip { state with pending := pending } input =
      let scanned := scanUnits strip state input
      { scanned with state := { scanned.state with pending := pending } } := by
  induction len : input.length using Nat.strongRecOn generalizing input state with
  | ind n ih =>
    cases input with
    | nil => simp only [scanUnits, scanWith_nil]
    | cons code input =>
      have shorter := scanRound_shrinks noHop noHop strip state code input
      rw [scanUnits_cons, scanRound_pending, scanUnits_cons]
      dsimp only
      rw [ih _ (by rw [← len]; exact Nat.lt_succ_of_le shorter) _ rfl]
      rfl

/-! ## What is held back -/

section
variable {holds : JsString → Bool} {input : JsString}

theorem longestSuffix_eq_some {bound length : ℕ} (found : longestSuffix holds input bound = some length) :
    0 < length ∧ length ≤ bound ∧ holds (input.drop (input.length - length)) := by
  induction bound with
  | zero => cases found
  | succ bound ih =>
    rw [longestSuffix] at found
    by_cases here : holds (input.drop (input.length - (bound + 1))) = true
    · rw [if_pos here] at found
      cases found
      exact ⟨Nat.succ_pos _, le_refl _, here⟩
    · rw [if_neg here] at found
      obtain ⟨pos, le, again⟩ := ih found
      exact ⟨pos, Nat.le_succ_of_le le, again⟩

theorem longestSuffix_eq_none {bound : ℕ} (none : longestSuffix holds input bound = none) :
    ∀ suffix, suffix <:+ input → suffix ≠ [] → suffix.length ≤ bound → holds suffix = false := by
  induction bound with
  | zero =>
    intro suffix _ some short
    exact absurd (length_eq_zero_iff.mp (Nat.le_zero.mp short)) some
  | succ bound ih =>
    intro suffix inside some short
    rw [longestSuffix] at none
    by_cases here : holds (input.drop (input.length - (bound + 1))) = true
    · rw [if_pos here] at none
      cases none
    · rw [if_neg here] at none
      by_cases longest : suffix.length = bound + 1
      · rw [← longest, ← suffix_iff_eq_drop.mp inside] at here
        exact Bool.not_eq_true _ ▸ here
      · exact ih none suffix inside some (by omega)

end

theorem startsMarker_iff {suffix : JsString} : startsMarker suffix ↔
    ∃ marker ∈ MARKERS, suffix <+: marker ∧ suffix.length < marker.length := by
  simp only [startsMarker, List.any_eq_true, decide_eq_true_eq]

theorem mayEndWithIncompleteEscape_cons {code : Fin 65536} {input : JsString}
    (unfinished : mayEndWithIncompleteEscape input) :
    mayEndWithIncompleteEscape (code :: input) := by
  have some : input ≠ [] := by
    rintro rfl
    cases unfinished
  have last : (code :: input).getLast? = input.getLast? := by
    cases input with
    | nil => exact absurd rfl some
    | cons next input => rw [getLast?_cons_cons]
  unfold mayEndWithIncompleteEscape at unfinished ⊢
  rw [if_neg some] at unfinished
  rw [if_neg (cons_ne_nil _ _), last]
  by_cases escape : input.getLast? = Option.some escapeUnit
  · rw [if_pos escape]
  · rw [if_neg escape] at unfinished ⊢
    cases after : afterLastCsiIntro input with
    | none =>
      rw [after] at unfinished
      cases unfinished
    | some rest =>
      rw [after] at unfinished
      rw [afterLastCsiIntro, after]
      exact unfinished

theorem mayEndWithIncompleteEscape_of_suffix {suffix input : JsString} (inside : suffix <:+ input)
    (unfinished : mayEndWithIncompleteEscape suffix) :
    mayEndWithIncompleteEscape input := by
  obtain ⟨before, rfl⟩ := inside
  induction before with
  | nil => exact unfinished
  | cons code before ih => exact mayEndWithIncompleteEscape_cons ih

theorem afterCsiFinal_suffix {input after : JsString} (found : afterCsiFinal input = some after) :
    after <:+ input := by
  induction input with
  | nil => cases found
  | cons code input ih =>
    rw [afterCsiFinal] at found
    by_cases final : isCsiFinal code
    · rw [if_pos final] at found
      cases found
      exact suffix_cons _ _
    · rw [if_neg final] at found
      exact (ih found).trans (suffix_cons _ _)

theorem hasCsiFinalByte_of_none (none : afterCsiFinal input = none) :
    hasCsiFinalByte input = false := by
  induction input with
  | nil => rfl
  | cons code input ih =>
    rw [afterCsiFinal] at none
    by_cases final : isCsiFinal code
    · rw [if_pos final] at none
      cases none
    · rw [if_neg final] at none
      have rest := ih none
      rw [hasCsiFinalByte] at rest ⊢
      rw [any_cons, rest, Bool.eq_false_iff.mpr final]
      rfl

theorem afterLastCsiIntro_suffix {input after : JsString} (found : afterLastCsiIntro input = some after) :
    after <:+ input := by
  induction input with
  | nil => cases found
  | cons code input ih =>
    rw [afterLastCsiIntro] at found
    cases later : afterLastCsiIntro input with
    | some rest =>
      rw [later] at found
      cases found
      exact (ih later).trans (suffix_cons _ _)
    | none =>
      rw [later] at found
      dsimp only at found
      split at found
      · cases found
        exact (tail_suffix _).trans (suffix_cons _ _)
      · cases found

theorem hasCsiFinalByte_of_suffix {input suffix : JsString} (inside : suffix <:+ input)
    (none : hasCsiFinalByte input = false) : hasCsiFinalByte suffix = false := by
  rw [hasCsiFinalByte, List.any_eq_false] at none ⊢
  intro code mem
  exact none code (inside.subset mem)

theorem mayEndWithIncompleteEscape_of_endsIncomplete
    (incomplete : endsIncomplete input) : mayEndWithIncompleteEscape input := by
  induction input using endsIncomplete.induct with
  | case1 =>
    rw [endsIncomplete] at incomplete
    cases incomplete
  | case2 code rest intro none =>
    obtain ⟨rfl, head⟩ := intro
    obtain ⟨after, rfl⟩ : ∃ after, rest = openBracket :: after := by
      cases rest with
      | nil => cases head
      | cons next after =>
        cases head
        exact ⟨after, rfl⟩
    have unfinished : hasCsiFinalByte after = false := hasCsiFinalByte_of_none none
    unfold mayEndWithIncompleteEscape
    rw [if_neg (cons_ne_nil _ _)]
    by_cases last : (escapeUnit :: openBracket :: after).getLast? = some escapeUnit
    · rw [if_pos last]
    · rw [if_neg last, afterLastCsiIntro, afterLastCsiIntro]
      cases later : afterLastCsiIntro after with
      | some rest =>
        have still := hasCsiFinalByte_of_suffix (afterLastCsiIntro_suffix later) unfinished
        dsimp only [Option.any]
        rw [still]
        rfl
      | none =>
        have other : ¬ (openBracket = escapeUnit ∧ after.head? = some openBracket) := by
          rintro ⟨same, -⟩
          exact absurd same (by decide)
        dsimp only
        rw [if_neg other]
        dsimp only
        rw [if_pos ⟨rfl, rfl⟩]
        dsimp only [Option.any, tail_cons]
        rw [unfinished]
        rfl
  | case3 code rest intro after found ih =>
    rw [endsIncomplete, if_pos intro] at incomplete
    split at incomplete
    · rename_i none
      rw [found] at none
      cases none
    · rename_i same
      rw [found, Option.some.injEq] at same
      subst same
      have inside := (afterCsiFinal_suffix found).trans
        ((tail_suffix rest).trans (suffix_cons code rest))
      exact mayEndWithIncompleteEscape_of_suffix inside (ih incomplete)
  | case4 code rest notIntro last =>
    obtain ⟨rfl, rfl⟩ := last
    rfl
  | case5 code rest notIntro notLast ih =>
    rw [endsIncomplete, if_neg notIntro, if_neg notLast] at incomplete
    exact mayEndWithIncompleteEscape_cons (ih incomplete)

theorem mayEndWithIncompleteEscape_of_startsMarker {suffix : JsString} (some : suffix ≠ [])
    (starts : startsMarker suffix) : mayEndWithIncompleteEscape suffix := by
  have every : ∀ marker ∈ MARKERS, ∀ n < marker.length, 0 < n →
      mayEndWithIncompleteEscape (marker.take n) = true := by decide
  obtain ⟨marker, mem, front, short⟩ := startsMarker_iff.mp starts
  rw [prefix_iff_eq_take.mp front]
  exact every marker mem _ short (length_pos_iff.mpr some)

/-- What is held back starts with ESC and may be unfinished; when nothing is, the
input does not end inside a marker. -/
structure SplitSpec (input : JsString) (split : PendingSplit) : Prop where
  whole : split.emit ++ split.pending = input
  escape : split.pending = [] ∨ split.pending.head? = some escapeUnit
  unfinished : split.pending = [] ∨ mayEndWithIncompleteEscape split.pending = true
  complete : split.pending = [] → ∀ suffix, suffix <:+ input → suffix ≠ [] →
    startsMarker suffix = false

theorem splitLast_spec {length : ℕ}
    (head : (splitLast input length).pending.head? = some escapeUnit)
    (unfinished : mayEndWithIncompleteEscape (splitLast input length).pending) :
    SplitSpec input (splitLast input length) := by
  refine ⟨take_append_drop _ input, .inr head, .inr unfinished, ?_⟩
  intro nothing
  rw [nothing] at head
  cases head

/-- No part of a marker is longer than the loop looks. -/
theorem startsMarker_of_none
    (found : longestSuffix startsMarker input (min input.length maxMarkerPrefixLength) = none)
    (suffix : JsString) (inside : suffix <:+ input) (some : suffix ≠ []) :
    startsMarker suffix = false := by
  apply Bool.eq_false_iff.mpr
  intro starts
  obtain ⟨marker, mem, -, short⟩ := startsMarker_iff.mp starts
  have bound := marker_length_le marker mem
  have within : suffix.length ≤ min input.length maxMarkerPrefixLength :=
    le_min inside.length_le (by omega)
  rw [longestSuffix_eq_none found suffix inside some within] at starts
  cases starts

theorem splitPendingMarkerSuffix_spec (input : JsString) :
    SplitSpec input (splitPendingMarkerSuffix input) := by
  unfold splitPendingMarkerSuffix
  cases found : longestSuffix startsMarker input (min input.length maxMarkerPrefixLength) with
  | some length =>
    obtain ⟨pos, le, starts⟩ := longestSuffix_eq_some found
    have some : input.drop (input.length - length) ≠ [] := by
      rw [← length_pos_iff, length_drop]
      omega
    obtain ⟨marker, mem, front, -⟩ := startsMarker_iff.mp starts
    exact splitLast_spec (head_of_marker_front mem front some)
      (mayEndWithIncompleteEscape_of_startsMarker some starts)
  | none =>
    have complete := startsMarker_of_none found
    have whole : SplitSpec input ⟨input, []⟩ :=
      ⟨append_nil input, .inl rfl, .inl rfl, fun _ => complete⟩
    dsimp only
    split
    · exact whole
    · cases held : longestSuffix isIncompleteEscapePrefix input input.length with
      | none => exact whole
      | some length =>
        obtain ⟨-, -, incomplete⟩ := longestSuffix_eq_some held
        rw [isIncompleteEscapePrefix, Bool.and_eq_true, decide_eq_true_eq] at incomplete
        exact splitLast_spec incomplete.1
          (mayEndWithIncompleteEscape_of_endsIncomplete incomplete.2)

end Netcatty.SyncBlock
