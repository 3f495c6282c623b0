import Netcatty.TerminalRenderer

/-!
Shell-integration markers in terminal output.

A marker holds no other one (`readOsc133Marker_inside`), so the matches of the
pattern are the markers at every offset (`matchAll_eq`).  Text that follows adds
matches behind the ones there are (`everyMatch_append`), and dropping text in
front of a match only shifts it (`everyMatch_drop`).
-/

namespace Netcatty.Osc133

open List Option

open WriteCoalescing (semicolon)

inductive Osc133Kind where
  /-- A prompt starts. -/
  | A
  /-- The prompt is there and command input starts. -/
  | B
  /-- A command runs. -/
  | C
  /-- The command is done. -/
  | D
  deriving DecidableEq

def Osc133Kind.letter : Osc133Kind → Fin 65536
  | .A => ⟨'A'.toNat, by decide⟩
  | .B => ⟨'B'.toNat, by decide⟩
  | .C => ⟨'C'.toNat, by decide⟩
  | .D => ⟨'D'.toNat, by decide⟩

/-- `[ABCD]`. -/
def osc133Kind (letter : Fin 65536) : Option Osc133Kind :=
  [Osc133Kind.A, .B, .C, .D].find? fun kind => kind.letter = letter

inductive Osc133Terminator where
  | bell
  | stringTerminator
  deriving DecidableEq

def Osc133Terminator.units : Osc133Terminator → JsString
  | .bell => [bellUnit]
  | .stringTerminator => [escapeUnit, backslash]

/-- `[^\u0007\u001B]`. -/
def isParameterUnit (u : Fin 65536) : Bool := u ≠ bellUnit ∧ u ≠ escapeUnit

/-- What `OSC133_MARKER_PATTERN` matches. -/
structure Osc133Marker where
  kind : Osc133Kind
  params : Option JsString
  terminator : Osc133Terminator
  plain : ∀ units ∈ params, units.all isParameterUnit = true

def OSC133_INTRODUCER : JsString := text "\x1b]133;"

variable (marker : Osc133Marker)

/-- `marker[0]`. -/
def Osc133Marker.raw : JsString :=
  OSC133_INTRODUCER ++ marker.kind.letter ::
    (marker.params.elim [] (semicolon :: ·) ++ marker.terminator.units)

def readTerminator (input : JsString) : Option Osc133Terminator :=
  [Osc133Terminator.bell, .stringTerminator].find? fun terminator => terminator.units <+: input

def readOsc133Marker (input : JsString) : Option Osc133Marker :=
  if OSC133_INTRODUCER <+: input then
    match input.drop OSC133_INTRODUCER.length with
    | [] => none
    | letter :: rest =>
      (osc133Kind letter).bind fun kind =>
        if rest.head? = some semicolon then
          (readTerminator (rest.tail.dropWhile isParameterUnit)).map fun terminator =>
            ⟨kind, some (rest.tail.takeWhile isParameterUnit), terminator, by
              rintro units ⟨⟩
              exact List.all_takeWhile⟩
        else (readTerminator rest).map fun terminator => ⟨kind, none, terminator, by simp⟩
  else none

/-! ## One marker -/

theorem osc133Kind_eq_some {letter : Fin 65536} {kind : Osc133Kind} :
    osc133Kind letter = some kind ↔ letter = kind.letter := by
  constructor
  · intro found
    have same := find?_some found
    rw [decide_eq_true_eq] at same
    exact same.symm
  · rintro rfl
    cases kind <;> decide

theorem readTerminator_eq_some {input : JsString} {terminator : Osc133Terminator} :
    readTerminator input = some terminator ↔ terminator.units <+: input := by
  constructor
  · intro found
    simpa only [decide_eq_true_eq] using find?_some found
  · rintro ⟨rest, rfl⟩
    cases terminator with
    | bell => simp [readTerminator, Osc133Terminator.units]
    | stringTerminator =>
      have other : ¬ bellUnit = escapeUnit := by decide
      simp [readTerminator, Osc133Terminator.units, other]

theorem takeWhile_params {params : JsString} (plain : params.all isParameterUnit)
    (terminator : Osc133Terminator) (rest : JsString) :
    (params ++ (terminator.units ++ rest)).takeWhile isParameterUnit = params ∧
      (params ++ (terminator.units ++ rest)).dropWhile isParameterUnit = terminator.units ++ rest := by
  rw [List.all_eq_true] at plain
  rw [takeWhile_append_of_pos plain, dropWhile_append_of_pos plain]
  cases terminator with
  | bell => simp [Osc133Terminator.units, isParameterUnit]
  | stringTerminator => simp [Osc133Terminator.units, isParameterUnit]

/-- **A marker is read** exactly where its text stands. -/
theorem readOsc133Marker_eq_some {input : JsString} {marker : Osc133Marker} :
    readOsc133Marker input = some marker ↔ marker.raw <+: input := by
  constructor
  · intro found
    unfold readOsc133Marker at found
    split at found
    · rename_i front
      obtain ⟨after, rfl⟩ := front
      rw [drop_left] at found
      cases after with
      | nil => cases found
      | cons letter rest =>
        obtain ⟨kind, isKind, found⟩ := bind_eq_some_iff.mp found
        rw [osc133Kind_eq_some] at isKind
        refine (prefix_append_right_inj _).mpr ?_
        split at found
        · rename_i separated
          obtain ⟨terminator, stop, rfl⟩ := map_eq_some_iff.mp found
          obtain ⟨tail, rfl⟩ := head?_eq_some_iff.mp separated
          obtain ⟨behind, same⟩ := readTerminator_eq_some.mp stop
          refine ⟨behind, ?_⟩
          rw [tail_cons] at same
          simp only [isKind, elim_some, tail_cons, cons_append, append_assoc, same,
            takeWhile_append_dropWhile]
        · obtain ⟨terminator, stop, rfl⟩ := map_eq_some_iff.mp found
          obtain ⟨behind, same⟩ := readTerminator_eq_some.mp stop
          refine ⟨behind, ?_⟩
          simp only [isKind, elim_none, nil_append, cons_append, same]
    · cases found
  · rintro ⟨rest, rfl⟩
    obtain ⟨kind, params, terminator, plain⟩ := marker
    have letter : osc133Kind kind.letter = some kind := osc133Kind_eq_some.mpr rfl
    have stop : readTerminator (terminator.units ++ rest) = some terminator :=
      readTerminator_eq_some.mpr (prefix_append _ _)
    rw [readOsc133Marker, Osc133Marker.raw, append_assoc, if_pos (prefix_append _ _),
      drop_left]
    simp only [cons_append, letter, bind_some]
    cases params with
    | none =>
      have other : (terminator.units ++ rest).head? ≠ some semicolon := by
        cases terminator with
        | bell => exact some_injective _ |>.ne (by decide)
        | stringTerminator => exact some_injective _ |>.ne (by decide)
      simp only [elim_none, nil_append, other, if_false, stop, map_some]
    | some params =>
      obtain ⟨taken, left⟩ := takeWhile_params (plain params rfl) terminator rest
      simp only [elim_some, cons_append, append_assoc, head?_cons, if_true,
        tail_cons, taken, left, stop, map_some]

/-! ## Markers do not overlap -/

/-- What a marker has between its first unit and its terminator. -/
def Osc133Marker.inner : JsString :=
  OSC133_INTRODUCER.tail ++ marker.kind.letter :: marker.params.elim [] (semicolon :: ·)

theorem Osc133Marker.raw_eq :
    marker.raw = escapeUnit :: (marker.inner ++ marker.terminator.units) := by
  rw [raw, inner, append_assoc]
  rfl

theorem Osc133Marker.inner_plain : escapeUnit ∉ marker.inner := by
  obtain ⟨kind, params, terminator, plain⟩ := marker
  have letter : escapeUnit ≠ kind.letter := by cases kind <;> decide
  have front : escapeUnit ∉ OSC133_INTRODUCER.tail := by decide
  have separator : escapeUnit ≠ semicolon := by decide
  cases params with
  | none => simp [inner, front, letter]
  | some params =>
    have absent : escapeUnit ∉ params := by
      intro mem
      have isParam := List.all_eq_true.mp (plain params rfl) _ mem
      exact absurd isParam (by decide)
    simp [inner, front, letter, separator, absent]

/-- The ESC inside a marker, if there is one, is that of its string terminator. -/
theorem Osc133Marker.escape_inside {offset : ℕ} (later : 0 < offset)
    (escape : (marker.raw.drop offset).head? = some escapeUnit) :
    marker.raw.drop offset = [escapeUnit, backslash] := by
  obtain ⟨back, rfl⟩ : ∃ back, offset = back + 1 := ⟨offset - 1, by omega⟩
  rw [marker.raw_eq, drop_succ_cons] at escape ⊢
  by_cases within : back < marker.inner.length
  · rw [drop_append_of_le_length (by omega), head?_append, head?_drop,
      getElem?_eq_getElem within, some_or, Option.some.injEq] at escape
    exact absurd (escape ▸ getElem_mem within) marker.inner_plain
  · obtain ⟨far, rfl⟩ : ∃ far, back = marker.inner.length + far := ⟨back - marker.inner.length, by omega⟩
    have here : (marker.inner ++ marker.terminator.units).drop (marker.inner.length + far) =
        marker.terminator.units.drop far := by
      rw [← drop_drop, drop_left]
    rw [here] at escape ⊢
    cases kind : marker.terminator with
    | bell =>
      rw [kind] at escape
      rcases far with _ | far
      · exact absurd (Option.some.inj escape) (by decide)
      · simp [Osc133Terminator.units] at escape
    | stringTerminator =>
      rw [kind] at escape
      rcases far with _ | _ | far
      · rfl
      · exact absurd (Option.some.inj escape) (by decide)
      · simp [Osc133Terminator.units] at escape

/-- **No marker starts inside another one.** -/
theorem readOsc133Marker_inside {input : JsString} {marker : Osc133Marker}
    (found : readOsc133Marker input = some marker) {offset : ℕ} (later : 0 < offset)
    (inside : offset < marker.raw.length) : readOsc133Marker (input.drop offset) = none := by
  rw [eq_none_iff_forall_ne_some]
  intro other found'
  obtain ⟨rest, rfl⟩ := readOsc133Marker_eq_some.mp found
  obtain ⟨behind, same⟩ := readOsc133Marker_eq_some.mp found'
  rw [drop_append_of_le_length inside.le] at same
  have some_ : marker.raw.drop offset ≠ [] := by
    rw [Ne, drop_eq_nil_iff]
    omega
  have escape : (marker.raw.drop offset).head? = some escapeUnit := by
    have head := congrArg List.head? same
    rw [head?_append_of_ne_nil _ some_, other.raw_eq] at head
    exact head.symm
  rw [marker.escape_inside later escape] at same
  have second : some closeBracket = some backslash :=
    congrArg (fun units : JsString => units[1]?) same
  exact absurd second (by decide)

/-! ## All matches -/

/-- A match of the pattern: `marker.index` and the groups. -/
structure Osc133Match where
  index : ℕ
  marker : Osc133Marker

namespace Osc133Match

/-- `marker.index + marker[0].length`. -/
def stop (found : Osc133Match) : ℕ := found.index + found.marker.raw.length

def shift (front : ℕ) (found : Osc133Match) : Osc133Match := ⟨found.index + front, found.marker⟩

@[simp] theorem shift_marker (front : ℕ) (found : Osc133Match) :
    (found.shift front).marker = found.marker := rfl

@[simp] theorem stop_shift (front : ℕ) (found : Osc133Match) :
    (found.shift front).stop = found.stop + front := by
  simp only [stop, shift]
  omega

end Osc133Match

/-- `matchAll` from this index on; the units to skip belong to the match before. -/
def matchAll (index skip : ℕ) : JsString → List Osc133Match
  | [] => []
  | u :: rest =>
    if 0 < skip then matchAll (index + 1) (skip - 1) rest
    else
      match readOsc133Marker (u :: rest) with
      | some marker => ⟨index, marker⟩ :: matchAll (index + 1) (marker.raw.length - 1) rest
      | none => matchAll (index + 1) 0 rest

/-- The matches at every offset, whether inside another one or not. -/
def everyMatch (index : ℕ) : JsString → List Osc133Match
  | [] => []
  | u :: rest =>
    match readOsc133Marker (u :: rest) with
    | some marker => ⟨index, marker⟩ :: everyMatch (index + 1) rest
    | none => everyMatch (index + 1) rest

variable {index : ℕ} {u : Fin 65536} {input rest : JsString}

theorem everyMatch_none (none_ : readOsc133Marker (u :: rest) = none) :
    everyMatch index (u :: rest) = everyMatch (index + 1) rest := by
  rw [everyMatch, none_]

theorem everyMatch_some {marker : Osc133Marker} (found : readOsc133Marker (u :: rest) = some marker) :
    everyMatch index (u :: rest) = ⟨index, marker⟩ :: everyMatch (index + 1) rest := by
  rw [everyMatch, found]

theorem matchAll_skip {skip : ℕ} (none_ : ∀ offset < skip, readOsc133Marker (input.drop offset) = none) :
    matchAll index skip input = everyMatch index input := by
  induction input generalizing index skip with
  | nil => rfl
  | cons u rest ih =>
    rw [matchAll]
    rcases skip with _ | skip
    · rw [if_neg (Nat.lt_irrefl 0)]
      cases found : readOsc133Marker (u :: rest) with
      | none =>
        rw [everyMatch_none found]
        exact ih fun _ less => absurd less (Nat.not_lt_zero _)
      | some marker =>
        rw [everyMatch_some found]
        refine congrArg _ (ih fun offset less => ?_)
        exact readOsc133Marker_inside found (Nat.succ_pos offset) (by omega)
    · rw [if_pos (Nat.succ_pos skip), everyMatch_none (none_ 0 (Nat.succ_pos skip))]
      exact ih fun offset less => none_ (offset + 1) (Nat.succ_lt_succ less)

/-- The pattern matches every marker. -/
theorem matchAll_eq (index : ℕ) (input : JsString) : matchAll index 0 input = everyMatch index input :=
  matchAll_skip fun _ less => absurd less (Nat.not_lt_zero _)

theorem raw_length_pos : 0 < marker.raw.length := by
  rw [marker.raw_eq]
  exact Nat.succ_pos _

theorem Osc133Match.index_lt_stop (found : Osc133Match) : found.index < found.stop :=
  Nat.lt_add_of_pos_right (raw_length_pos found.marker)

theorem index_le_of_mem {found : Osc133Match} (mem : found ∈ everyMatch index input) :
    index ≤ found.index := by
  induction input generalizing index with
  | nil => cases mem
  | cons u rest ih =>
    cases read : readOsc133Marker (u :: rest) with
    | none =>
      rw [everyMatch_none read] at mem
      exact Nat.le_of_succ_le (ih mem)
    | some marker =>
      rw [everyMatch_some read] at mem
      rcases mem_cons.mp mem with rfl | mem
      · exact le_rfl
      · exact Nat.le_of_succ_le (ih mem)

theorem stop_le_of_mem {found : Osc133Match} (mem : found ∈ everyMatch index input) :
    found.stop ≤ index + input.length := by
  induction input generalizing index with
  | nil => cases mem
  | cons u rest ih =>
    have later : found ∈ everyMatch (index + 1) rest → found.stop ≤ index + (u :: rest).length := by
      intro mem
      have stop := ih mem
      rw [length_cons]
      omega
    cases read : readOsc133Marker (u :: rest) with
    | none =>
      rw [everyMatch_none read] at mem
      exact later mem
    | some marker =>
      rw [everyMatch_some read] at mem
      rcases mem_cons.mp mem with rfl | mem
      · exact Nat.add_le_add_left (readOsc133Marker_eq_some.mp read).length_le index
      · exact later mem

theorem everyMatch_eq_nil (none_ : ∀ offset < input.length, readOsc133Marker (input.drop offset) = none) :
    everyMatch index input = [] := by
  induction input generalizing index with
  | nil => rfl
  | cons u rest ih =>
    rw [everyMatch_none (none_ 0 (Nat.succ_pos _))]
    exact ih fun offset less => none_ (offset + 1) (Nat.succ_lt_succ less)

theorem everyMatch_shift (front : ℕ) :
    everyMatch (index + front) input = (everyMatch index input).map (Osc133Match.shift front) := by
  induction input generalizing index with
  | nil => rfl
  | cons u rest ih =>
    have next := @ih (index + 1)
    rw [Nat.add_right_comm] at next
    cases read : readOsc133Marker (u :: rest) with
    | none => rw [everyMatch_none read, everyMatch_none read, next]
    | some marker =>
      rw [everyMatch_some read, everyMatch_some read, next]
      rfl

theorem readOsc133Marker_append {more : JsString} {marker : Osc133Marker} :
    readOsc133Marker input = some marker ↔
      readOsc133Marker (input ++ more) = some marker ∧ marker.raw.length ≤ input.length := by
  simp only [readOsc133Marker_eq_some]
  constructor
  · intro front
    exact ⟨front.trans (prefix_append _ _), front.length_le⟩
  · rintro ⟨front, short⟩
    exact prefix_of_prefix_length_le front (prefix_append _ _) short

/-- **More text** leaves the matches there were, and adds those that end in it. -/
theorem everyMatch_append (index : ℕ) (input more : JsString) :
    everyMatch index (input ++ more) = everyMatch index input ++
      (everyMatch index (input ++ more)).filter fun found => index + input.length < found.stop := by
  induction input generalizing index with
  | nil =>
    symm
    refine filter_eq_self.mpr fun found mem => ?_
    rw [decide_eq_true_eq]
    exact (index_le_of_mem mem).trans_lt found.index_lt_stop
  | cons u rest ih =>
    have later := ih (index + 1)
    have same : index + 1 + rest.length = index + (u :: rest).length := by
      rw [length_cons]
      omega
    rw [same] at later
    rw [cons_append]
    cases whole : readOsc133Marker (u :: (rest ++ more)) with
    | none =>
      have none_ : readOsc133Marker (u :: rest) = none := by
        rw [eq_none_iff_forall_ne_some]
        intro marker found
        cases whole.symm.trans (readOsc133Marker_append.mp found).1
      rw [everyMatch_none none_, everyMatch_none whole]
      exact later
    | some marker =>
      rw [everyMatch_some whole]
      by_cases short : marker.raw.length ≤ (u :: rest).length
      · have read : readOsc133Marker (u :: rest) = some marker :=
          readOsc133Marker_append.mpr ⟨whole, short⟩
        have early : ¬ index + (u :: rest).length < Osc133Match.stop ⟨index, marker⟩ :=
          Nat.not_lt.mpr (Nat.add_le_add_left short index)
        rw [everyMatch_some read, filter_cons_of_neg (by rwa [decide_eq_true_eq]), cons_append]
        exact congrArg _ later
      · -- a marker cut by the end of the text, which holds no other one
        have none_ : readOsc133Marker (u :: rest) = none := by
          rw [eq_none_iff_forall_ne_some]
          intro marker' found
          obtain ⟨whole', short'⟩ := readOsc133Marker_append.mp found
          cases whole.symm.trans whole'
          exact short short'
        have nothing : everyMatch (index + 1) rest = [] := by
          refine everyMatch_eq_nil fun offset less => ?_
          have inside := readOsc133Marker_inside whole (Nat.succ_pos offset)
            (by rw [length_cons] at short; omega)
          rw [drop_succ_cons, drop_append_of_le_length less.le] at inside
          rw [eq_none_iff_forall_ne_some]
          intro marker' found
          cases inside.symm.trans (readOsc133Marker_append.mp found).1
        have late : index + (u :: rest).length < Osc133Match.stop ⟨index, marker⟩ :=
          Nat.add_lt_add_left (Nat.lt_of_not_le short) index
        rw [nothing, nil_append] at later
        rw [everyMatch_none none_, nothing, filter_cons_of_pos (by rwa [decide_eq_true_eq]),
          nil_append]
        exact congrArg _ later

/-- **Dropped text** only shifts the matches that end late. -/
theorem everyMatch_drop {limit bound : ℕ} (front : ℕ)
    (short : ∀ found ∈ everyMatch index input, found.marker.raw.length ≤ limit)
    (early : front = 0 ∨ index + front + limit ≤ bound + 1) :
    (everyMatch index input).filter (fun found => bound < found.stop) =
      (everyMatch (index + front) (input.drop front)).filter fun found => bound < found.stop := by
  induction front generalizing index input with
  | zero => rfl
  | succ front ih =>
    cases input with
    | nil => rfl
    | cons u rest =>
      have bound' : index + (front + 1) + limit ≤ bound + 1 := early.resolve_left (Nat.succ_ne_zero _)
      have next : (everyMatch (index + 1) rest).filter (fun found => bound < found.stop) =
          (everyMatch (index + (front + 1)) (rest.drop front)).filter fun found => bound < found.stop := by
        rw [← Nat.add_assoc, Nat.add_right_comm]
        refine ih (fun found mem => short found ?_) (.inr (by omega))
        cases read : readOsc133Marker (u :: rest) with
        | none => rwa [everyMatch_none read]
        | some marker =>
          rw [everyMatch_some read]
          exact mem_cons_of_mem _ mem
      rw [drop_succ_cons, ← next]
      cases read : readOsc133Marker (u :: rest) with
      | none => rw [everyMatch_none read]
      | some marker =>
        rw [everyMatch_some read] at short ⊢
        have long : marker.raw.length ≤ limit := short _ (.head _)
        refine filter_cons_of_neg ?_
        rw [decide_eq_true_eq, Osc133Match.stop]
        dsimp only
        omega

end Netcatty.Osc133
