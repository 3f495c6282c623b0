import Netcatty.SyncBlockStreams

/-!
What the filter removes from a stream.

`Softened` says which text may be left out: a clear inside a block that has shown
a cursor-home, and cursor-homes of a block once such a clear is out.  The filter
keeps to it as long as no scan reads a start marker or another cursor-home while
a home is held (`filterAll_softened`): a start marker forgets the held home, a
second home replaces it, or overtakes it when the viewport is back at the bottom.
-/

namespace Netcatty.SyncBlock

open List Option

/-- Where a stream is: outside a block, or in one that may have shown a cursor-home and lost a clear. -/
inductive Block where
  | outside
  | inside (homed cleared : Bool)

def HOMES : List JsString := [CURSOR_HOME_EXPLICIT, CURSOR_HOME]

/-- The second text comes from the first by leaving out redundant redraw controls; `after` is what
comes next in the stream, and the blocks are those before and behind the text. -/
inductive Softened (after : JsString) : Block → JsString → JsString → Block → Prop where
  | nil {block : Block} : Softened after block [] [] block
  | start {block past : Block} {rest out : JsString} :
      Softened after (.inside false false) rest out past →
      Softened after block (SYNC_START ++ rest) (SYNC_START ++ out) past
  | stop {block past : Block} {rest out : JsString} :
      Softened after .outside rest out past → Softened after block (SYNC_END ++ rest) (SYNC_END ++ out) past
  | home {homed cleared : Bool} {past : Block} {home rest out : JsString} :
      home ∈ HOMES → Softened after (.inside true cleared) rest out past →
      Softened after (.inside homed cleared) (home ++ rest) (home ++ out) past
  | dropHome {homed : Bool} {past : Block} {home rest out : JsString} :
      home ∈ HOMES → Softened after (.inside homed true) rest out past →
      Softened after (.inside homed true) (home ++ rest) out past
  | clear {homed cleared : Bool} {past : Block} {rest out : JsString} :
      Softened after (.inside homed cleared) rest out past →
      Softened after (.inside homed cleared) (CLEAR ++ rest) (CLEAR ++ out) past
  | dropClear {cleared : Bool} {past : Block} {rest out : JsString} :
      Softened after (.inside true true) rest out past →
      Softened after (.inside true cleared) (CLEAR ++ rest) out past
  | unit {block past : Block} {code : Fin 65536} {rest out : JsString} :
      ¬ SYNC_START <+: code :: (rest ++ after) → ¬ SYNC_END <+: code :: (rest ++ after) →
      Softened after block rest out past → Softened after block (code :: rest) (code :: out) past

namespace Softened

variable {after before middle out out' : JsString} {block between past : Block}

theorem append (first : Softened (middle ++ after) block before out between)
    (second : Softened after between middle out' past) :
    Softened after block (before ++ middle) (out ++ out') past := by
  induction first with
  | nil => exact second
  | start _ ih => rw [append_assoc, append_assoc]; exact .start (ih second)
  | stop _ ih => rw [append_assoc, append_assoc]; exact .stop (ih second)
  | home mem _ ih => rw [append_assoc, append_assoc]; exact .home mem (ih second)
  | dropHome mem _ ih => rw [append_assoc]; exact .dropHome mem (ih second)
  | clear _ ih => rw [append_assoc, append_assoc]; exact .clear (ih second)
  | dropClear _ ih => rw [append_assoc]; exact .dropClear (ih second)
  | unit start stop _ ih =>
    rw [← append_assoc] at start stop
    exact .unit start stop (ih second)

/-- Nothing need be left out. -/
theorem refl (block : Block) (input : JsString) : ∃ past, Softened [] block input input past := by
  induction len : input.length using Nat.strongRecOn generalizing input block with
  | ind n ih =>
    cases input with
    | nil => exact ⟨block, .nil⟩
    | cons code rest =>
      by_cases start : SYNC_START <+: code :: rest
      · obtain ⟨tail, same⟩ := start
        rw [← same] at len ⊢
        have shorter : tail.length < n := by
          rw [← len, length_append]
          exact Nat.lt_add_of_pos_left (by decide)
        obtain ⟨past, kept⟩ := ih _ shorter (.inside false false) tail rfl
        exact ⟨past, .start kept⟩
      by_cases stop : SYNC_END <+: code :: rest
      · obtain ⟨tail, same⟩ := stop
        rw [← same] at len ⊢
        have shorter : tail.length < n := by
          rw [← len, length_append]
          exact Nat.lt_add_of_pos_left (by decide)
        obtain ⟨past, kept⟩ := ih _ shorter .outside tail rfl
        exact ⟨past, .stop kept⟩
      obtain ⟨past, kept⟩ := ih rest.length (by rw [← len]; exact Nat.lt_succ_self _) block rest rfl
      refine ⟨past, .unit ?_ ?_ kept⟩
      · rw [append_nil]
        exact start
      · rw [append_nil]
        exact stop

def Uncleared : Block → Prop
  | .outside => True
  | .inside _ cleared => cleared = false

/-- Without a clear in the text nothing is left out. -/
theorem eq_of_no_clear (softened : Softened after block before out past) (uncleared : Uncleared block)
    (none_ : ¬ CLEAR <:+: before) : out = before := by
  have later : ∀ {front rest : JsString}, ¬ CLEAR <:+: front ++ rest → ¬ CLEAR <:+: rest :=
    fun absent inside => absent (inside.trans (suffix_append _ _).isInfix)
  induction softened with
  | nil => rfl
  | start _ ih => rw [ih rfl (later none_)]
  | stop _ ih => rw [ih trivial (later none_)]
  | home _ _ ih => rw [ih uncleared (later none_)]
  | dropHome _ _ _ => cases uncleared
  | clear _ _ => exact absurd (prefix_append _ _).isInfix none_
  | dropClear _ _ => exact absurd (prefix_append _ _).isInfix none_
  | unit _ _ _ ih =>
    rw [ih uncleared fun inside => none_ (inside.trans (suffix_cons _ _).isInfix)]

end Softened

/-! ## One scan -/

def Tracks (state : SyncBlockFilterState) : Block → Prop
  | .outside => state.inSyncBlock = false ∧ state.pendingCursorHome = none
  | .inside homed cleared => state.inSyncBlock = true ∧
    (state.pendingCursorHome ≠ none → homed = true ∧ state.fullRedrawBlock = none) ∧
    (state.fullRedrawBlock = some true → homed = true ∧ cleared = true)

/-- The scan loses or overtakes the home it holds: a start marker comes, or another home comes and is
held in its place or is written before it. -/
def LosesHome (strip : Bool) (state : SyncBlockFilterState) (input : JsString) : Prop :=
  ∃ held, state.pendingCursorHome = some held ∧
    (SYNC_START <+: input ∨
      ∃ home, readBlockCursorHome input = some home ∧ (strip = true ∨ home.1 ≠ held))

inductive KeepsHomes (strip : Bool) : SyncBlockFilterState → JsString → Prop where
  | done {state : SyncBlockFilterState} : KeepsHomes strip state []
  | round {state : SyncBlockFilterState} {first : Fin 65536} {rest : JsString} :
      ¬ LosesHome strip state (first :: rest) →
      KeepsHomes strip (scanRound noHop noHop strip state first rest).state
        (scanRound noHop noHop strip state first rest).rest →
      KeepsHomes strip state (first :: rest)

section Scan

variable {strip : Bool} {state : SyncBlockFilterState} {after : JsString} {block : Block}

/-- What a scan has written and holds comes from what it read. -/
def Softens (after : JsString) (block : Block) (state : SyncBlockFilterState) (input output : JsString)
    (state' : SyncBlockFilterState) : Prop :=
  ∃ text past, heldHome state ++ text = output ++ heldHome state' ∧
    Softened after block input text past ∧ Tracks state' past

theorem Tracks.pending_none_of_passes (tracks : Tracks state block) (passing : passesThrough state) :
    state.pendingCursorHome = none := by
  cases block with
  | outside => exact tracks.2
  | inside homed cleared =>
    obtain ⟨open_, held, -⟩ := tracks
    by_contra some_
    simp [passesThrough, open_, (held some_).2] at passing

theorem Tracks.inside (tracks : Tracks state block) (inBlock : ¬ passesThrough state) :
    ∃ homed cleared, block = .inside homed cleared := by
  cases block with
  | outside => exact absurd (by rw [passesThrough, tracks.1]; rfl) inBlock
  | inside homed cleared => exact ⟨homed, cleared, rfl⟩

theorem fullRedrawBlock_unknown (inBlock : ¬ passesThrough state)
    (redraw : state.fullRedrawBlock ≠ some true) : state.fullRedrawBlock = none := by
  cases is : state.fullRedrawBlock with
  | none => rfl
  | some redrawn =>
    cases redrawn with
    | true => exact absurd is redraw
    | false => exact absurd (by simp [passesThrough, is]) inBlock

theorem heldHome_none (none_ : state.pendingCursorHome = none) : heldHome state = [] := by
  rw [heldHome, none_]
  rfl

theorem heldHome_some {home : JsString} (held : state.pendingCursorHome = some home) :
    heldHome state = home := by
  rw [heldHome, held]
  rfl

/-- What a round can do. -/
inductive RoundDoes (strip : Bool) (state : SyncBlockFilterState) : JsString → Round → Prop where
  | start {rest : JsString} : RoundDoes strip state (SYNC_START ++ rest)
      ⟨SYNC_START, { resetSyncBlockState state with inSyncBlock := true }, true, rest⟩
  | stop {rest : JsString} : RoundDoes strip state (SYNC_END ++ rest)
      ⟨heldHome state ++ SYNC_END, resetSyncBlockState state, false, rest⟩
  | passing {first : Fin 65536} {rest : JsString} : passesThrough state →
      ¬ SYNC_START <+: first :: rest → ¬ SYNC_END <+: first :: rest →
      RoundDoes strip state (first :: rest) ⟨[first], state, false, rest⟩
  | dropHome {home rest : JsString} : ¬ passesThrough state → state.fullRedrawBlock = some true →
      home ∈ HOMES → RoundDoes strip state (home ++ rest) ⟨[], state, false, rest⟩
  | copyHome {home rest : JsString} : ¬ passesThrough state → state.fullRedrawBlock ≠ some true →
      strip = false → readBlockCursorHome (home ++ rest) = some (home, rest) →
      RoundDoes strip state (home ++ rest) ⟨home, state, false, rest⟩
  | holdHome {home rest : JsString} : ¬ passesThrough state → state.fullRedrawBlock ≠ some true →
      strip = true → readBlockCursorHome (home ++ rest) = some (home, rest) →
      RoundDoes strip state (home ++ rest)
        ⟨[], { state with pendingCursorHome := some home }, false, rest⟩
  | confirm {home rest : JsString} : ¬ passesThrough state → state.pendingCursorHome = some home →
      RoundDoes strip state (CLEAR ++ rest)
        ⟨home, { state with pendingCursorHome := none, fullRedrawBlock := some true }, false, rest⟩
  | release {home rest : JsString} : ¬ passesThrough state → state.pendingCursorHome = some home →
      RoundDoes strip state (CLEAR ++ rest)
        ⟨home ++ CLEAR, { state with pendingCursorHome := none, fullRedrawBlock := none }, false, rest⟩
  | dropClear {rest : JsString} : ¬ passesThrough state → state.pendingCursorHome = none →
      state.fullRedrawBlock = some true → RoundDoes strip state (CLEAR ++ rest) ⟨[], state, false, rest⟩
  | copyClear {redraw : Option Bool} {rest : JsString} : ¬ passesThrough state →
      state.pendingCursorHome = none → state.fullRedrawBlock ≠ some true →
      redraw = state.fullRedrawBlock ∨ redraw = some false →
      RoundDoes strip state (CLEAR ++ rest)
        ⟨CLEAR, { state with fullRedrawBlock := redraw }, false, rest⟩
  | plain {first : Fin 65536} {rest : JsString} : ¬ passesThrough state →
      ¬ SYNC_START <+: first :: rest → ¬ SYNC_END <+: first :: rest →
      RoundDoes strip state (first :: rest)
        ⟨heldHome state ++ [first], { state with pendingCursorHome := none }, false, rest⟩

theorem readBlockCursorHome_mem {input : JsString} {home : JsString × JsString}
    (read : readBlockCursorHome input = some home) : home.1 ∈ HOMES := by
  unfold readBlockCursorHome at read
  split at read
  · cases read
    exact .head _
  · split at read
    · cases read
      exact .tail _ (.head _)
    · cases read

theorem scanRound_does (strip : Bool) (state : SyncBlockFilterState) (first : Fin 65536)
    (rest : JsString) :
    RoundDoes strip state (first :: rest) (scanRound noHop noHop strip state first rest) := by
  unfold scanRound
  dsimp only [noHop]
  generalize whole : first :: rest = input
  by_cases start : SYNC_START <+: input
  · rw [if_pos start]
    obtain ⟨later, rfl⟩ := start
    simpa only [drop_left] using .start
  by_cases stop : SYNC_END <+: input
  · rw [if_neg start, if_pos stop]
    obtain ⟨later, rfl⟩ := stop
    simpa only [drop_left] using .stop
  rw [if_neg start, if_neg stop]
  by_cases passing : passesThrough state
  · subst whole
    rw [if_pos passing]
    exact .passing passing start stop
  rw [if_neg passing]
  cases read : readBlockCursorHome input with
  | some home =>
    obtain rfl := readBlockCursorHome_eq_some read
    dsimp only
    by_cases redraw : state.fullRedrawBlock = some true
    · rw [if_pos redraw]
      exact .dropHome passing redraw (readBlockCursorHome_mem read)
    rw [if_neg redraw]
    cases strip with
    | false => exact .copyHome passing redraw rfl read
    | true => exact .holdHome passing redraw rfl read
  | none =>
    dsimp only
    by_cases clear : CLEAR <+: input
    · rw [if_pos clear]
      obtain ⟨later, rfl⟩ := clear
      rw [drop_left]
      cases held : state.pendingCursorHome with
      | some home =>
        cases strip with
        | true => exact .confirm passing held
        | false => exact .release passing held
      | none =>
        dsimp only
        by_cases redraw : state.fullRedrawBlock = some true
        · rw [if_pos redraw]
          exact .dropClear passing held redraw
        rw [if_neg redraw]
        cases strip with
        | false => simpa only [held] using .copyClear passing held redraw (.inl rfl)
        | true =>
          have copied : RoundDoes true state (CLEAR ++ later) _ :=
            .copyClear passing held redraw (.inr rfl)
          rw [held] at copied
          exact copied
    · subst whole
      rw [if_neg clear]
      exact .plain passing start stop

theorem heldHome_of_keeps {input : JsString} (keeps : ¬ LosesHome strip state input)
    (loses : ∀ held, state.pendingCursorHome = some held → LosesHome strip state input) :
    heldHome state = [] := by
  cases has : state.pendingCursorHome with
  | none => exact heldHome_none has
  | some held => exact absurd (loses held has) keeps

/-- **A round of the scan that loses no home**, given what the rest of the scan does. -/
theorem softens_round {input : JsString} {round : Round} (does : RoundDoes strip state input round)
    (clean : CleanCut input after) (tracks : Tracks state block) (keeps : ¬ LosesHome strip state input)
    {output : JsString} {state' : SyncBlockFilterState}
    (later : ∀ block', Tracks round.state block' →
      Softens after block' round.state round.rest output state') :
    Softens after block state input (round.output ++ output) state' := by
  have still : ∀ {first : Fin 65536} {rest marker : JsString}, CleanCut (first :: rest) after →
      marker ∈ MARKERS → ¬ marker <+: first :: rest → ¬ marker <+: first :: (rest ++ after) :=
    fun clean mem absent front => absent ((clean.marker_iff (cons_ne_nil _ _) mem).mp front)
  cases does with
  | start =>
    obtain ⟨text, past, same, softened, tracks'⟩ := later (.inside false false)
      ⟨rfl, fun some_ => absurd rfl some_, fun full => absurd full.symm (some_ne_none true)⟩
    have none_ := heldHome_of_keeps keeps
      fun held has => ⟨held, has, .inl (prefix_append SYNC_START _)⟩
    refine ⟨SYNC_START ++ text, past, ?_, .start softened, tracks'⟩
    simp only [none_, show text = _ from same, nil_append, append_assoc]
  | stop =>
    obtain ⟨text, past, same, softened, tracks'⟩ := later .outside ⟨rfl, rfl⟩
    refine ⟨SYNC_END ++ text, past, ?_, .stop softened, tracks'⟩
    simp only [show text = _ from same, append_assoc]
  | passing passing start stop =>
    obtain ⟨text, past, same, softened, tracks'⟩ := later block tracks
    refine ⟨_ :: text, past, ?_,
      .unit (still clean (by decide) start) (still clean (by decide) stop) softened, tracks'⟩
    rw [heldHome_none (tracks.pending_none_of_passes passing)] at same ⊢
    simp only [show text = _ from same, nil_append, cons_append]
  | dropHome inBlock redraw mem =>
    obtain ⟨homed, cleared, rfl⟩ := tracks.inside inBlock
    obtain ⟨rfl, rfl⟩ := tracks.2.2 redraw
    obtain ⟨text, past, same, softened, tracks'⟩ := later (.inside true true) tracks
    exact ⟨text, past, same, .dropHome mem softened, tracks'⟩
  | @copyHome home rest inBlock redraw copies read =>
    obtain ⟨homed, cleared, rfl⟩ := tracks.inside inBlock
    obtain ⟨text, past, same, softened, tracks'⟩ := later (.inside true cleared)
      ⟨tracks.1, fun some_ => ⟨rfl, (tracks.2.1 some_).2⟩, fun full => absurd full redraw⟩
    refine ⟨home ++ text, past, ?_, .home (readBlockCursorHome_mem read) softened, tracks'⟩
    -- the held home, if any, reads the same
    have turn : heldHome state ++ home = home ++ heldHome state := by
      cases has : state.pendingCursorHome with
      | none => rw [heldHome_none has, nil_append, append_nil]
      | some held =>
        have equal : home = held := by
          by_contra different
          exact keeps ⟨held, has, .inr ⟨_, read, .inr different⟩⟩
        rw [heldHome_some has, equal]
    calc heldHome state ++ (home ++ text)
        = home ++ (heldHome state ++ text) := by
          rw [← append_assoc, turn, append_assoc]
      _ = home ++ (output ++ heldHome state') := by rw [show heldHome state ++ text = _ from same]
      _ = home ++ output ++ heldHome state' := (append_assoc _ _ _).symm
  | @holdHome home rest inBlock redraw strips read =>
    obtain ⟨homed, cleared, rfl⟩ := tracks.inside inBlock
    obtain ⟨text, past, same, softened, tracks'⟩ := later (.inside true cleared)
      ⟨tracks.1, fun _ => ⟨rfl, fullRedrawBlock_unknown inBlock redraw⟩,
        fun full => absurd full redraw⟩
    refine ⟨home ++ text, past, ?_, .home (readBlockCursorHome_mem read) softened, tracks'⟩
    rw [heldHome_of_keeps keeps fun held has => ⟨held, has, .inr ⟨_, read, .inl strips⟩⟩]
    exact same
  | @confirm home rest inBlock has =>
    obtain ⟨homed, cleared, rfl⟩ := tracks.inside inBlock
    obtain ⟨rfl, -⟩ := tracks.2.1 (by rw [has]; exact some_ne_none home)
    obtain ⟨text, past, same, softened, tracks'⟩ := later (.inside true true)
      ⟨tracks.1, fun some_ => absurd rfl some_, fun _ => ⟨rfl, rfl⟩⟩
    refine ⟨text, past, ?_, .dropClear softened, tracks'⟩
    rw [heldHome_some has, show text = _ from same, append_assoc]
  | @release home rest inBlock has =>
    obtain ⟨homed, cleared, rfl⟩ := tracks.inside inBlock
    obtain ⟨text, past, same, softened, tracks'⟩ := later (.inside homed cleared)
      ⟨tracks.1, fun some_ => absurd rfl some_,
        fun full => absurd full.symm (some_ne_none true)⟩
    refine ⟨CLEAR ++ text, past, ?_, .clear softened, tracks'⟩
    simp only [heldHome_some has, show text = _ from same, append_assoc]
  | dropClear inBlock has redraw =>
    obtain ⟨homed, cleared, rfl⟩ := tracks.inside inBlock
    obtain ⟨rfl, rfl⟩ := tracks.2.2 redraw
    obtain ⟨text, past, same, softened, tracks'⟩ := later (.inside true true) tracks
    exact ⟨text, past, same, .dropClear softened, tracks'⟩
  | @copyClear redraw rest inBlock has unredrawn stays =>
    obtain ⟨homed, cleared, rfl⟩ := tracks.inside inBlock
    have never : redraw ≠ some true := by
      obtain rfl | rfl := stays
      · exact unredrawn
      · exact some_injective _ |>.ne Bool.false_ne_true
    obtain ⟨text, past, same, softened, tracks'⟩ := later (.inside homed cleared)
      ⟨tracks.1, fun some_ => absurd has some_, fun full => absurd full never⟩
    refine ⟨CLEAR ++ text, past, ?_, .clear softened, tracks'⟩
    have none_ : heldHome state = [] := heldHome_none has
    have same' : heldHome state ++ text = output ++ heldHome state' := same
    rw [none_, nil_append] at same' ⊢
    rw [same', append_assoc]
  | @plain first rest inBlock start stop =>
    obtain ⟨homed, cleared, rfl⟩ := tracks.inside inBlock
    obtain ⟨text, past, same, softened, tracks'⟩ := later (.inside homed cleared)
      ⟨tracks.1, fun some_ => absurd rfl some_, tracks.2.2⟩
    refine ⟨first :: text, past, ?_,
      .unit (still clean (by decide) start) (still clean (by decide) stop) softened, tracks'⟩
    simp only [show text = _ from same, append_assoc, cons_append, nil_append]

theorem softens_scanUnits {input : JsString} (clean : CleanCut input after) (tracks : Tracks state block)
    (keeps : KeepsHomes strip state input) :
    Softens after block state input (scanUnits strip state input).output
      (scanUnits strip state input).state := by
  induction len : input.length using Nat.strongRecOn generalizing input state block with
  | ind n ih =>
    cases keeps with
    | done =>
      rw [scanUnits, scanWith_nil]
      exact ⟨[], block, append_nil _, .nil, tracks⟩
    | @round _ first rest keeps further =>
      have shorter := scanRound_shrinks noHop noHop strip state first rest
      rw [scanUnits_cons]
      refine softens_round (scanRound_does ..) clean tracks keeps fun block' tracks' => ?_
      exact ih _ (by rw [← len]; exact Nat.lt_succ_of_le shorter)
        (clean.of_suffix (scanRound_rest_suffix strip state first rest)) tracks' further rfl

end Scan

/-! ## All chunks -/

/-- No scan of the chunks loses a home. -/
def HomesKept (state : SyncBlockFilterState) : List Feed → Prop
  | [] => True
  | feed :: feeds =>
    let split := splitPendingMarkerSuffix (state.pending ++ feed.1)
    KeepsHomes (shouldStripFullRedrawClear feed.2) { state with pending := split.pending } split.emit ∧
      HomesKept (filterSyncBlockClearsWithMeta feed.1 state feed.2).state feeds

theorem filterAll_softens {feeds : List Feed} {state : SyncBlockFilterState} (block : Block)
    {emitted : JsString} (settled : Settled emitted state.pending) (tracks : Tracks state block)
    (kept : HomesKept state feeds) :
    ∃ text past, heldHome state ++ text = allText (filterAll state feeds) ∧
      Softened [] block (state.pending ++ input feeds) text past := by
  induction feeds generalizing state block emitted with
  | nil =>
    obtain ⟨past, softened⟩ := Softened.refl block (state.pending ++ input [])
    refine ⟨_, past, ?_, softened⟩
    simp only [allText, filterAll, input, map_nil, flatten_nil, append_nil,
      nil_append]
  | cons feed feeds ih =>
    obtain ⟨keeps, kept⟩ := kept
    have spec := splitPendingMarkerSuffix_spec (state.pending ++ feed.1)
    have now := filterSyncBlockClearsWithMeta_eq feed.1 state feed.2
    have later := settled.split spec
    generalize splitPendingMarkerSuffix (state.pending ++ feed.1) = split at spec now later keeps
    dsimp only at now
    rw [now] at kept
    rw [filterAll, now]
    have clean : CleanCut split.emit (split.pending ++ input feeds) :=
      (later (input feeds)).of_suffix (suffix_append emitted split.emit)
    obtain ⟨text, between, same, softened, tracks'⟩ := softens_scanUnits clean
      (show Tracks { state with pending := split.pending } block from tracks) keeps
    have pending : (scanUnits (shouldStripFullRedrawClear feed.2)
        { state with pending := split.pending } split.emit).state.pending = split.pending := by
      rw [scanUnits_pending]
    generalize scanUnits _ _ split.emit = scanned at kept same tracks' pending ⊢
    obtain ⟨text', past, same', softened'⟩ := ih _ (pending ▸ later) tracks' kept
    refine ⟨text ++ text', past, ?_, ?_⟩
    · calc heldHome state ++ (text ++ text')
          = heldHome state ++ text ++ text' := (append_assoc _ _ _).symm
        _ = scanned.output ++ (heldHome scanned.state ++ text') := by
          rw [show heldHome state ++ text = _ from same, append_assoc]
        _ = scanned.output ++ allText (filterAll scanned.state feeds) := by rw [same']
        _ = _ := by simp only [allText, append_assoc]
    · rw [pending] at softened'
      have whole : state.pending ++ input (feed :: feeds) =
          split.emit ++ (split.pending ++ input feeds) := by
        rw [← append_assoc, spec.whole, append_assoc]
        rfl
      rw [whole]
      rw [← append_nil (split.pending ++ input feeds)] at softened
      exact softened.append softened'

/-- **What the filter removes.**  As long as no scan loses a home, the filter has written, holds and
keeps pending its whole input but for clears of a block behind a cursor-home and cursor-homes of a
block that lost such a clear. -/
theorem filterAll_softened {feeds : List Feed} (kept : HomesKept createSyncBlockFilterState feeds) :
    ∃ past, Softened [] .outside (input feeds)
      (allText (filterAll createSyncBlockFilterState feeds)) past := by
  obtain ⟨text, past, same, softened⟩ := filterAll_softens .outside
    (settled_nil createSyncBlockFilterState.pending) ⟨rfl, rfl⟩ kept
  refine ⟨past, ?_⟩
  rw [← same]
  exact softened

/-- A redraw whose home is kept and whose clear is dropped. -/
theorem filterAll_softened_redraw :
    let feeds := [(SYNC_START ++ CURSOR_HOME ++ CLEAR, some scrolledUp)]
    ∃ past, Softened [] .outside (input feeds)
      (allText (filterAll createSyncBlockFilterState feeds)) past := by
  apply filterAll_softened
  have strips : shouldStripFullRedrawClear (some scrolledUp) = true := by decide
  have split : splitPendingMarkerSuffix (SYNC_START ++ CURSOR_HOME ++ CLEAR) =
      ⟨SYNC_START ++ CURSOR_HOME ++ CLEAR, []⟩ := by decide +kernel
  have noStart : ¬ SYNC_START <+: CLEAR := by decide
  have noHome : readBlockCursorHome CLEAR = none := by decide
  refine ⟨?_, trivial⟩
  dsimp only [createSyncBlockFilterState, nil_append]
  rw [strips, split]
  have block : KeepsHomes true ⟨true, [], none, none⟩ (CURSOR_HOME ++ CLEAR) := by
    refine .round ?_ (.round ?_ .done)
    · rintro ⟨held, has, -⟩
      cases has
    · rintro ⟨held, has, start | ⟨home, read, -⟩⟩
      · exact noStart start
      · exact absurd (noHome.symm.trans read) (some_ne_none home).symm
  refine .round ?_ block
  rintro ⟨held, has, -⟩
  cases has

/-- A start marker forgets the home held by the block before it. -/
theorem not_softened_restart :
    let feeds := [(SYNC_START ++ CURSOR_HOME ++ SYNC_START, some scrolledUp)]
    ¬ ∃ past, Softened [] .outside (input feeds)
      (allText (filterAll createSyncBlockFilterState feeds)) past := by
  rintro feeds ⟨past, softened⟩
  have whole := softened.eq_of_no_clear trivial (by decide +kernel)
  revert whole
  decide +kernel

end Netcatty.SyncBlock
