import Netcatty.SyncBlockStreams

/-!
How much the filter holds back between two chunks.

Least is an unfinished sequence of its own.  The search takes the longest suffix
that ends in one, so it holds the unfinished sequence alone exactly if no stretch
of complete sequences and plain text before it starts with ESC
(`pending_minimal_iff`); else the whole stretch waits with it.
-/

namespace Netcatty.SyncBlock

open List Bool

/-! ## Sequences -/

/-- A lone ESC, or an `ESC [` without a final byte behind it. -/
def Unfinished (input : JsString) : Prop :=
  input = [escapeUnit] ∨
    ∃ params, input = escapeUnit :: openBracket :: params ∧ hasCsiFinalByte params = false

/-- Complete sequences and plain text. -/
inductive Finished : JsString → Prop where
  | nil : Finished []
  | csi {params rest : JsString} {final : Fin 65536} : hasCsiFinalByte params = false →
      isCsiFinal final → Finished rest →
      Finished (escapeUnit :: openBracket :: (params ++ final :: rest))
  | escape {rest : JsString} : rest.head? ≠ some openBracket → Finished rest →
      Finished (escapeUnit :: rest)
  | plain {code : Fin 65536} {rest : JsString} : code ≠ escapeUnit → Finished rest →
      Finished (code :: rest)

/-- An `ESC [` with a final byte behind it is part of the text. -/
def ContainsCsi (input : JsString) : Prop :=
  ∃ rest, escapeUnit :: openBracket :: rest <:+ input ∧ hasCsiFinalByte rest = true

/-- An unfinished sequence, with no other unfinished sequence in it. -/
def SingleUnfinished (input : JsString) : Prop :=
  Unfinished input ∧ ∀ later, later <:+ input → Unfinished later → later = input

/-- No complete sequence is held: nothing is, or a part of a marker, or a single unfinished sequence. -/
def Minimal (held : JsString) : Prop :=
  ¬ ContainsCsi held ∧ (held = [] ∨ startsMarker held = true ∨ SingleUnfinished held)

theorem afterCsiFinal_eq_some {input after : JsString} (found : afterCsiFinal input = some after) :
    ∃ params final, input = params ++ final :: after ∧ hasCsiFinalByte params = false ∧
      isCsiFinal final := by
  induction input with
  | nil => cases found
  | cons code input ih =>
    rw [afterCsiFinal] at found
    by_cases final : isCsiFinal code
    · rw [if_pos final] at found
      cases found
      exact ⟨[], code, rfl, rfl, final⟩
    · rw [if_neg final] at found
      obtain ⟨params, final', same, none, isFinal⟩ := ih found
      refine ⟨code :: params, final', by rw [same]; rfl, ?_, isFinal⟩
      simpa [hasCsiFinalByte, final] using none

theorem afterCsiFinal_params {params rest : JsString} {final : Fin 65536}
    (none : hasCsiFinalByte params = false) (isFinal : isCsiFinal final) :
    afterCsiFinal (params ++ final :: rest) = some rest := by
  induction params with
  | nil => simp [afterCsiFinal, isFinal]
  | cons code params ih =>
    simp only [hasCsiFinalByte, any_cons, or_eq_false_iff] at none
    simp only [cons_append, afterCsiFinal, none.1, false_eq_true, if_false]
    exact ih none.2

theorem afterCsiFinal_eq_none {input : JsString} :
    afterCsiFinal input = none ↔ hasCsiFinalByte input = false := by
  refine ⟨hasCsiFinalByte_of_none, fun noFinal => ?_⟩
  induction input with
  | nil => rfl
  | cons code input ih =>
    simp only [hasCsiFinalByte, any_cons, or_eq_false_iff] at noFinal
    simp only [afterCsiFinal, noFinal.1, false_eq_true, if_false]
    exact ih noFinal.2

theorem endsIncomplete_unfinished {tail : JsString} (unfinished : Unfinished tail) :
    endsIncomplete tail := by
  obtain rfl | ⟨params, rfl, noFinal⟩ := unfinished
  · simp [endsIncomplete]
  · rw [endsIncomplete, if_pos ⟨rfl, rfl⟩]
    split
    · rfl
    · rename_i found
      rw [tail_cons, afterCsiFinal_eq_none.mpr noFinal] at found
      cases found

theorem Unfinished.head {tail : JsString} (unfinished : Unfinished tail) :
    ∃ rest, tail = escapeUnit :: rest := by
  obtain rfl | ⟨params, rfl, -⟩ := unfinished
  · exact ⟨_, rfl⟩
  · exact ⟨_, rfl⟩

/-- The loop runs through finished text. -/
theorem endsIncomplete_finished {front tail : JsString} (finished : Finished front)
    (unfinished : Unfinished tail) : endsIncomplete (front ++ tail) := by
  induction finished with
  | nil => exact endsIncomplete_unfinished unfinished
  | @csi params rest final noFinal isFinal _ ih =>
    have whole : escapeUnit :: openBracket :: (params ++ final :: rest) ++ tail =
        escapeUnit :: openBracket :: (params ++ final :: (rest ++ tail)) := by simp
    rw [whole, endsIncomplete, if_pos ⟨rfl, rfl⟩]
    split
    · rfl
    · rename_i found
      rw [tail_cons, afterCsiFinal_params noFinal isFinal] at found
      cases found
      exact ih
  | @escape rest other _ ih =>
    obtain ⟨after, rfl⟩ := unfinished.head
    rw [cons_append, endsIncomplete, if_neg, if_neg]
    · exact ih
    · simp
    · rintro ⟨-, next⟩
      cases rest with
      | nil =>
        simp only [nil_append, head?_cons, Option.some.injEq] at next
        exact absurd next (by decide)
      | cons code rest => exact other next
  | @plain code rest other _ ih =>
    rw [cons_append, endsIncomplete, if_neg fun intro => other intro.1,
      if_neg fun last => other last.1]
    exact ih

/-- **The loop accepts** finished text with an unfinished sequence behind it. -/
theorem endsIncomplete_iff {input : JsString} : endsIncomplete input ↔
    ∃ front tail, input = front ++ tail ∧ Finished front ∧ Unfinished tail := by
  constructor
  · intro incomplete
    induction input using endsIncomplete.induct with
    | case1 =>
      rw [endsIncomplete] at incomplete
      cases incomplete
    | case2 code rest intro none =>
      obtain ⟨rfl, head⟩ := intro
      obtain ⟨params, rfl⟩ := head?_eq_some_iff.mp head
      exact ⟨[], _, rfl, .nil, .inr ⟨params, rfl, hasCsiFinalByte_of_none none⟩⟩
    | case3 code rest intro after found ih =>
      rw [endsIncomplete, if_pos intro] at incomplete
      obtain ⟨rfl, head⟩ := intro
      obtain ⟨rest, rfl⟩ := head?_eq_some_iff.mp head
      split at incomplete
      · rename_i none
        cases found.symm.trans none
      · rename_i same
        cases found.symm.trans same
        obtain ⟨front, tail, rfl, finished, unfinished⟩ := ih incomplete
        obtain ⟨params, final, same, noFinal, isFinal⟩ := afterCsiFinal_eq_some found
        rw [tail_cons] at same
        exact ⟨_, tail, by simp [same], .csi noFinal isFinal finished, unfinished⟩
    | case4 code rest notIntro last =>
      obtain ⟨rfl, rfl⟩ := last
      exact ⟨[], _, rfl, .nil, .inl rfl⟩
    | case5 code rest notIntro notLast ih =>
      rw [endsIncomplete, if_neg notIntro, if_neg notLast] at incomplete
      obtain ⟨front, tail, rfl, finished, unfinished⟩ := ih incomplete
      refine ⟨code :: front, tail, rfl, ?_, unfinished⟩
      by_cases escape : code = escapeUnit
      · subst escape
        refine .escape (fun next => notIntro ⟨rfl, ?_⟩) finished
        rw [head?_append, next]
        rfl
      · exact .plain escape finished
  · rintro ⟨front, tail, rfl, finished, unfinished⟩
    exact endsIncomplete_finished finished unfinished

/-! ## The cut -/

theorem longestSuffix_longest {holds : JsString → Bool} {input : JsString} {bound length : ℕ}
    (found : longestSuffix holds input bound = some length) {suffix : JsString}
    (inside : suffix <:+ input) (short : suffix.length ≤ bound) (held : holds suffix) :
    suffix.length ≤ length := by
  induction bound with
  | zero => exact short.trans (Nat.zero_le _)
  | succ bound ih =>
    rw [longestSuffix] at found
    by_cases here : holds (input.drop (input.length - (bound + 1))) = true
    · rw [if_pos here] at found
      cases found
      exact short
    · rw [if_neg here] at found
      have shorter : suffix.length ≠ bound + 1 := by
        intro longest
        rw [← longest, ← suffix_iff_eq_drop.mp inside] at here
        exact here held
      exact ih found (by omega)

/-- The text ends inside a marker, or no stretch of complete sequences and plain text before an
unfinished sequence at its end starts with ESC. -/
def TailAlone (buffer : JsString) : Prop :=
  (∃ marker, marker <:+ buffer ∧ marker ≠ [] ∧ startsMarker marker = true) ∨
    ∀ front tail, buffer = front ++ tail → Unfinished tail →
      ∀ stretch, escapeUnit :: stretch <:+ front → ¬ Finished (escapeUnit :: stretch)

theorem unfinished_of_startsMarker {held : JsString} (some_ : held ≠ [])
    (starts : startsMarker held) : Unfinished held := by
  have every : ∀ marker ∈ MARKERS, ∀ n < marker.length, 0 < n → marker.take n = [escapeUnit] ∨
      (marker.take n).take 2 = [escapeUnit, openBracket] ∧
        hasCsiFinalByte ((marker.take n).drop 2) = false := by decide
  obtain ⟨marker, mem, front, short⟩ := startsMarker_iff.mp starts
  have part := every marker mem _ short (length_pos_iff.mpr some_)
  rw [← prefix_iff_eq_take.mp front] at part
  refine part.imp_right fun intro => ⟨held.drop 2, ?_, intro.2⟩
  calc held = held.take 2 ++ held.drop 2 := (take_append_drop 2 held).symm
    _ = escapeUnit :: openBracket :: held.drop 2 := by rw [intro.1]; rfl

theorem Unfinished.no_csi {tail : JsString} (unfinished : Unfinished tail) : ¬ ContainsCsi tail := by
  rintro ⟨rest, inside, complete⟩
  obtain rfl | ⟨params, rfl, noFinal⟩ := unfinished
  · exact absurd inside.length_le (by simp)
  · have within : rest <:+ params := by
      refine suffix_of_suffix_length_le (((suffix_cons _ _).trans (suffix_cons _ _)).trans
        inside) ((suffix_cons _ _).trans (suffix_cons _ _)) ?_
      simpa using inside.length_le
    rw [hasCsiFinalByte_of_suffix within noFinal] at complete
    cases complete

/-- Behind an unfinished sequence, only a lone ESC at its end is unfinished. -/
theorem Unfinished.single {tail : JsString} (unfinished : Unfinished tail)
    (lone : ¬ [escapeUnit] <:+ tail) : SingleUnfinished tail := by
  refine ⟨unfinished, fun later inside again => ?_⟩
  obtain rfl | ⟨params, rfl, -⟩ := again
  · exact absurd inside lone
  obtain rfl | ⟨whole, rfl, noFinal⟩ := unfinished
  · exact absurd suffix_rfl lone
  rcases suffix_cons_iff.mp inside with same | inside
  · exact same
  rcases suffix_cons_iff.mp inside with same | inside
  · exact absurd (List.cons.inj same).1 (by decide)
  · -- a final byte of the held sequence
    have bracket := hasCsiFinalByte_of_suffix ((suffix_cons _ _).trans inside) noFinal
    simp only [hasCsiFinalByte, any_cons, or_eq_false_iff] at bracket
    exact absurd bracket.1 (by decide)

theorem isIncompleteEscapePrefix_iff {suffix : JsString} : isIncompleteEscapePrefix suffix ↔
    suffix.head? = some escapeUnit ∧
      ∃ front tail, suffix = front ++ tail ∧ Finished front ∧ Unfinished tail := by
  rw [isIncompleteEscapePrefix, and_eq_true, decide_eq_true_eq, endsIncomplete_iff]

theorem minimal_nil : Minimal [] := by
  refine ⟨?_, .inl rfl⟩
  rintro ⟨rest, inside, -⟩
  exact absurd (suffix_nil.mp inside) (cons_ne_nil _ _)

theorem isIncompleteEscapePrefix_stretch {buffer front tail stretch : JsString}
    (whole : buffer = front ++ tail) (unfinished : Unfinished tail)
    (inside : escapeUnit :: stretch <:+ front) (finished : Finished (escapeUnit :: stretch)) :
    escapeUnit :: stretch ++ tail <:+ buffer ∧
      isIncompleteEscapePrefix (escapeUnit :: stretch ++ tail) := by
  refine ⟨?_, isIncompleteEscapePrefix_iff.mpr ⟨rfl, _, tail, rfl, finished, unfinished⟩⟩
  rw [whole]
  exact suffix_append_self_iff.mpr inside

theorem slow_minimal_iff {buffer : JsString} {length : ℕ}
    (noMarker : ∀ suffix, suffix <:+ buffer → suffix ≠ [] → startsMarker suffix = false)
    (found : longestSuffix isIncompleteEscapePrefix buffer buffer.length = some length) :
    Minimal (splitLast buffer length).pending ↔ ∀ front tail, buffer = front ++ tail →
      Unfinished tail → ∀ stretch, escapeUnit :: stretch <:+ front →
        ¬ Finished (escapeUnit :: stretch) := by
  obtain ⟨pos, le, accepted⟩ := longestSuffix_eq_some found
  have accepted : isIncompleteEscapePrefix (splitLast buffer length).pending = true := accepted
  have longest := @longestSuffix_longest _ _ _ _ found
  have inside : (splitLast buffer length).pending <:+ buffer := drop_suffix _ _
  have long : (splitLast buffer length).pending.length = length := by
    rw [splitLast, length_drop]
    omega
  have cut : buffer = (splitLast buffer length).emit ++ (splitLast buffer length).pending :=
    (take_append_drop _ _).symm
  generalize splitLast buffer length = split at accepted inside long cut
  have some_ : split.pending ≠ [] := length_pos_iff.mp (long ▸ pos)
  constructor
  · rintro ⟨-, nothing | starts | ⟨-, only⟩⟩ front tail whole unfinished stretch inside' finished
    · exact some_ nothing
    · cases (noMarker _ inside some_).symm.trans starts
    · obtain ⟨reaches, accepted'⟩ :=
        isIncompleteEscapePrefix_stretch whole unfinished inside' finished
      have short := longest reaches reaches.length_le accepted'
      have within := suffix_of_suffix_length_le reaches inside (long ▸ short)
      have same := only tail ((suffix_append _ _).trans within) unfinished
      rw [length_append, same, long, length_cons] at short
      omega
  · intro alone
    obtain ⟨head, front, tail, whole, finished, unfinished⟩ :=
      isIncompleteEscapePrefix_iff.mp accepted
    cases front with
    | nil =>
      rw [nil_append] at whole
      rw [← whole] at unfinished
      refine ⟨unfinished.no_csi, .inr (.inr (unfinished.single fun lone => ?_))⟩
      exact absurd (noMarker _ (lone.trans inside) (cons_ne_nil _ _)) (by decide)
    | cons code stretch =>
      rw [whole] at head
      cases head
      refine absurd finished (alone (split.emit ++ escapeUnit :: stretch) tail ?_ unfinished stretch
        (suffix_append _ _))
      rw [cut, whole, append_assoc]

/-- **What a cut holds back is minimal** exactly if the unfinished tail stands alone. -/
theorem split_minimal_iff (buffer : JsString) :
    Minimal (splitPendingMarkerSuffix buffer).pending ↔ TailAlone buffer := by
  have spec := splitPendingMarkerSuffix_spec buffer
  unfold splitPendingMarkerSuffix at spec ⊢
  cases found : longestSuffix startsMarker buffer (min buffer.length maxMarkerPrefixLength) with
  | some length =>
    obtain ⟨pos, le, starts⟩ := longestSuffix_eq_some found
    have some_ : buffer.drop (buffer.length - length) ≠ [] := by
      rw [← length_pos_iff, length_drop]
      omega
    dsimp only [splitLast]
    exact iff_of_true ⟨(unfinished_of_startsMarker some_ starts).no_csi, .inr (.inl starts)⟩
      (.inl ⟨_, drop_suffix _ _, some_, starts⟩)
  | none =>
    have noMarker := startsMarker_of_none found
    have elsewhere : TailAlone buffer ↔ ∀ front tail, buffer = front ++ tail → Unfinished tail →
        ∀ stretch, escapeUnit :: stretch <:+ front → ¬ Finished (escapeUnit :: stretch) :=
      or_iff_right fun marked => by
        obtain ⟨marker, inside, some_, starts⟩ := marked
        rw [noMarker marker inside some_] at starts
        cases starts
    rw [elsewhere]
    dsimp only
    by_cases gate : mayEndWithIncompleteEscape buffer = true
    · rw [gate, Bool.not_true, if_neg Bool.false_ne_true]
      cases held : longestSuffix isIncompleteEscapePrefix buffer buffer.length with
      | some length => exact slow_minimal_iff noMarker held
      | none => 
        refine iff_of_true minimal_nil fun front tail whole unfinished stretch inside finished => ?_
        obtain ⟨reaches, accepted⟩ :=
          isIncompleteEscapePrefix_stretch whole unfinished inside finished
        have refused := longestSuffix_eq_none held _ reaches (cons_ne_nil _ _) reaches.length_le
        cases refused.symm.trans accepted
    · rw [not_eq_true] at gate
      rw [gate]
      refine iff_of_true minimal_nil fun front tail whole unfinished stretch inside finished => ?_
      have open_ := mayEndWithIncompleteEscape_of_suffix (whole ▸ suffix_append front tail)
        (mayEndWithIncompleteEscape_of_endsIncomplete (endsIncomplete_unfinished unfinished))
      cases gate.symm.trans open_

/-! ## All chunks -/

/-- A call of the filter: the text it cuts, and what it leaves pending. -/
structure Call where
  buffer : JsString
  pending : JsString
  deriving DecidableEq

def calls (state : SyncBlockFilterState) : List Feed → List Call
  | [] => []
  | feed :: feeds =>
    let next := (filterSyncBlockClearsWithMeta feed.1 state feed.2).state
    ⟨state.pending ++ feed.1, next.pending⟩ :: calls next feeds

theorem pending_filter (feed : Feed) (state : SyncBlockFilterState) :
    (filterSyncBlockClearsWithMeta feed.1 state feed.2).state.pending =
      (splitPendingMarkerSuffix (state.pending ++ feed.1)).pending := by
  rw [filterSyncBlockClearsWithMeta_eq]
  dsimp only
  rw [scanUnits_pending]

/-- **A call holds back as little as possible** exactly if the unfinished tail of its text stands alone. -/
theorem pending_minimal_iff (feeds : List Feed) :
    ∀ call ∈ calls createSyncBlockFilterState feeds, Minimal call.pending ↔ TailAlone call.buffer := by
  generalize createSyncBlockFilterState = state
  induction feeds generalizing state with
  | nil =>
    intro call mem
    cases mem
  | cons feed feeds ih =>
    intro call mem
    rcases mem_cons.mp mem with rfl | later
    · simp only [pending_filter]
      exact split_minimal_iff _
    · exact ih _ call later

/-- A colour in two chunks, not complete yet. -/
theorem pending_minimal_colour :
    Minimal (text "\x1b[38;5") ↔ TailAlone (text "\x1b[3" ++ text "8;5") :=
  pending_minimal_iff [(text "red\x1b[3", none), (text "8;5", none)]
    ⟨text "\x1b[3" ++ text "8;5", text "\x1b[38;5"⟩ (by decide +kernel)

/-- A complete colour before an unfinished one is held with the text between them. -/
theorem not_minimal_colours :
    ¬ ∀ call ∈ calls createSyncBlockFilterState [(text "\x1b[31mred\x1b[38;5", none)],
      Minimal call.pending := by
  intro minimal
  have held : calls createSyncBlockFilterState [(text "\x1b[31mred\x1b[38;5", none)] =
      [⟨text "\x1b[31mred\x1b[38;5", text "\x1b[31mred\x1b[38;5"⟩] := by
    simp only [calls]
    congr 2
    decide +kernel
  rw [held] at minimal
  refine (minimal _ (.head _)).1 ⟨text "31mred\x1b[38;5", ?_, by decide⟩
  exact suffix_rfl

end Netcatty.SyncBlock
