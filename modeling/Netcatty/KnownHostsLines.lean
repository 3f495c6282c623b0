import Mathlib.Data.List.TakeWhile
import Netcatty.KnownHostsRules
import Netcatty.PtyMarkers

/-!
Lines and fields of a known_hosts file, as the readers take them apart.
-/

namespace Netcatty.KnownHosts

open List Option

/-! ## Trimming -/

def IsBlank (s : JsString) : Prop := ∀ u ∈ s, isWhiteSpace u = true

/-- No white space at either end. -/
structure Trimmed (s : JsString) : Prop where
  front : ∀ u, s.head? = some u → isWhiteSpace u = false
  back : ∀ u, s.getLast? = some u → isWhiteSpace u = false

theorem trim_of_blank {s : JsString} (blank : IsBlank s) : trim s = [] := by
  have none_ : s.dropWhile isWhiteSpace = [] := dropWhile_eq_nil_iff.mpr blank
  rw [trim, none_]
  rfl

theorem trim_between {a m b : JsString} (before : IsBlank a) (after : IsBlank b) (trimmed : Trimmed m) :
    trim (a ++ (m ++ b)) = m := by
  rcases m.eq_nil_or_concat with nothing | ⟨front, last, some_⟩
  · subst nothing
    apply trim_of_blank
    intro u mem
    rw [nil_append, mem_append] at mem
    exact mem.elim (before u) (after u)
  · have first : ∀ u, m.head? = some u → isWhiteSpace u = false := trimmed.front
    have final : isWhiteSpace last = false := trimmed.back last (by simp [some_])
    have forward : (a ++ (m ++ b)).dropWhile isWhiteSpace = m ++ b := by
      rw [dropWhile_append_of_pos before]
      cases m with
      | nil => simp at some_
      | cons u m =>
        rw [cons_append, dropWhile_cons_of_neg]
        simpa using first u rfl
    rw [trim, forward, reverse_append, dropWhile_append_of_pos fun u mem =>
      after u (mem_reverse.mp mem), some_, concat_eq_append, reverse_append,
      reverse_singleton, singleton_append, dropWhile_cons_of_neg (by simp [final]),
      reverse_cons, reverse_reverse]

theorem Trimmed.trim_eq {s : JsString} (trimmed : Trimmed s) : trim s = s := by
  have none_ : IsBlank [] := fun u mem => absurd mem not_mem_nil
  have both := trim_between none_ none_ trimmed
  rwa [append_nil, nil_append] at both

variable (s : JsString)

/-- A text is its trimmed part between white space. -/
theorem trim_spec : ∃ a b, IsBlank a ∧ IsBlank b ∧ s = a ++ (trim s ++ b) ∧ Trimmed (trim s) := by
  have front := takeWhile_append_dropWhile (p := isWhiteSpace) (l := s)
  have back := takeWhile_append_dropWhile (p := isWhiteSpace)
    (l := (s.dropWhile isWhiteSpace).reverse)
  refine ⟨s.takeWhile isWhiteSpace, ((s.dropWhile isWhiteSpace).reverse.takeWhile
    isWhiteSpace).reverse, fun u mem => mem_takeWhile_imp mem,
    fun u mem => mem_takeWhile_imp (mem_reverse.mp mem), ?_, ?_, ?_⟩
  · rw [trim, ← reverse_append, back, reverse_reverse, front]
  · intro u first
    have head : ∀ v, (s.dropWhile isWhiteSpace).head? = some v → isWhiteSpace v = false := by
      intro v same
      have negative := head?_dropWhile_not isWhiteSpace s
      rw [same] at negative
      simpa using negative
    apply head
    have parts : s.dropWhile isWhiteSpace = trim s ++
        ((s.dropWhile isWhiteSpace).reverse.takeWhile isWhiteSpace).reverse := by
      rw [trim, ← reverse_append, back, reverse_reverse]
    rw [parts, head?_append, first]
    rfl
  · intro u last
    rw [trim, getLast?_reverse] at last
    have negative := head?_dropWhile_not isWhiteSpace (s.dropWhile isWhiteSpace).reverse
    rw [last] at negative
    simpa using negative

theorem trimmed_trim : Trimmed (trim s) := by
  obtain ⟨_, _, _, _, _, trimmed⟩ := trim_spec s
  exact trimmed

theorem trim_append_blank {b : JsString} (blank : IsBlank b) : trim (s ++ b) = trim s := by
  obtain ⟨a, c, before, after, cut, trimmed⟩ := trim_spec s
  have whole : s ++ b = a ++ (trim s ++ (c ++ b)) := by
    rw [← append_assoc, ← append_assoc, append_assoc a, ← cut]
  rw [whole]
  apply trim_between before _ trimmed
  intro u mem
  exact (mem_append.mp mem).elim (after u) (blank u)

/-! ## Fields -/

structure IsWord (s : JsString) : Prop where
  filled : s ≠ []
  solid : ∀ u ∈ s, isWhiteSpace u = false

theorem splitBlanks_ne_nil : splitBlanks s ≠ [] := by
  induction s with
  | nil => exact cons_ne_nil _ _
  | cons u rest ih =>
    unfold splitBlanks
    split
    · split
      · exact ih
      · exact cons_ne_nil _ _
    · split
      · exact cons_ne_nil _ _
      · exact cons_ne_nil _ _

theorem splitBlanks_cons {u : Fin 65536} {rest first : JsString} {others : List JsString}
    (solid : isWhiteSpace u = false) (cut : splitBlanks rest = first :: others) :
    splitBlanks (u :: rest) = (u :: first) :: others := by
  rw [splitBlanks, if_neg (by simp [solid]), cut]

theorem splitBlanks_solid {s : JsString} (solid : ∀ u ∈ s, isWhiteSpace u = false) :
    splitBlanks s = [s] := by
  induction s with
  | nil => rfl
  | cons u s ih =>
    exact splitBlanks_cons (solid u mem_cons_self)
      (ih fun v mem => solid v (mem_cons_of_mem _ mem))

theorem splitBlanks_blank {w : Fin 65536} (blank : isWhiteSpace w) (s : JsString) :
    splitBlanks (w :: s) = [] :: splitBlanks (s.dropWhile isWhiteSpace) := by
  induction s generalizing w with
  | nil => rw [splitBlanks, if_pos blank]; rfl
  | cons v s ih =>
    cases next : isWhiteSpace v with
    | true =>
      rw [splitBlanks, if_pos blank, if_pos (by simpa using next), ih next,
        dropWhile_cons_of_pos next]
    | false =>
      rw [splitBlanks, if_pos blank, if_neg (by simpa using next),
        dropWhile_cons_of_neg (by simpa using next)]

theorem splitBlanks_append {a : JsString} (solid : ∀ u ∈ a, isWhiteSpace u = false)
    {w : Fin 65536} (blank : isWhiteSpace w) (s : JsString) :
    splitBlanks (a ++ w :: s) = a :: splitBlanks (s.dropWhile isWhiteSpace) := by
  induction a with
  | nil => exact splitBlanks_blank blank s
  | cons u a ih =>
    exact splitBlanks_cons (solid u mem_cons_self)
      (ih fun v mem => solid v (mem_cons_of_mem _ mem))

theorem word_cut (s : JsString) : let word := s.takeWhile fun u => !isWhiteSpace u
    (∀ u ∈ word, isWhiteSpace u = false) ∧ s = word ++ s.drop word.length ∧
      (∀ w, (s.drop word.length).head? = some w → isWhiteSpace w) := by
  have whole := takeWhile_append_dropWhile (p := fun u => !isWhiteSpace u) (l := s)
  have rest : s.drop (s.takeWhile fun u => !isWhiteSpace u).length =
      s.dropWhile fun u => !isWhiteSpace u := by
    have drop := congrArg (List.drop (s.takeWhile fun u => !isWhiteSpace u).length) whole
    rw [drop_left] at drop
    exact drop.symm
  refine ⟨fun u mem => by simpa using mem_takeWhile_imp mem, by rw [rest, whole], fun w same => ?_⟩
  rw [rest] at same
  have negative := head?_dropWhile_not (fun u => !isWhiteSpace u) s
  rw [same] at negative
  simpa using negative

theorem dropWhile_of_trimmed {s rest : JsString} (trimmed : Trimmed s) (suffix : rest <:+ s) :
    trim rest = rest.dropWhile isWhiteSpace := by
  obtain ⟨before, cut⟩ := suffix
  rw [trim]
  cases kept : (rest.dropWhile isWhiteSpace).reverse with
  | nil => rw [dropWhile_nil, reverse_nil, reverse_eq_nil_iff.mp kept]
  | cons u others =>
    have last : (rest.dropWhile isWhiteSpace).getLast? = some u := by
      rw [← head?_reverse, kept]
      rfl
    have whole : s.getLast? = some u := by
      rw [← cut, ← takeWhile_append_dropWhile (p := isWhiteSpace) (l := rest),
        ← append_assoc, getLast?_append, last]
      rfl
    rw [dropWhile_cons_of_neg (by simpa using trimmed.back u whole), ← kept,
      reverse_reverse]

theorem Trimmed.suffix {s rest : JsString} (trimmed : Trimmed s) (suffix : rest <:+ s)
    (front : ∀ u, rest.head? = some u → isWhiteSpace u = false) : Trimmed rest := by
  refine ⟨front, fun u last => trimmed.back u ?_⟩
  obtain ⟨before, cut⟩ := suffix
  rw [← cut, getLast?_append, last]
  rfl

theorem isWord_of_mem_splitBlanks {s field : JsString} (trimmed : Trimmed s) (filled : s ≠ [])
    (mem : field ∈ splitBlanks s) : IsWord field := by
  induction length : s.length using Nat.strong_induction_on generalizing s with
  | _ n ih =>
    obtain ⟨solid, cut, next⟩ := word_cut s
    generalize word : s.takeWhile (fun u => !isWhiteSpace u) = first at solid cut next
    have firstFilled : first ≠ [] := by
      obtain ⟨u, rest, whole⟩ := exists_cons_of_ne_nil filled
      have front := trimmed.front u (by rw [whole]; rfl)
      rw [← word, whole, takeWhile_cons_of_pos (by simp [front])]
      exact cons_ne_nil _ _
    cases behind : s.drop first.length with
    | nil =>
      rw [behind, append_nil] at cut
      rw [cut, splitBlanks_solid solid, mem_singleton] at mem
      exact mem ▸ ⟨firstFilled, solid⟩
    | cons w later =>
      have blank : isWhiteSpace w = true := next w (by rw [behind]; rfl)
      rw [behind] at cut
      rw [cut, splitBlanks_append solid blank, mem_cons] at mem
      rcases mem with same | mem
      · exact same ▸ ⟨firstFilled, solid⟩
      · have suffix : later.dropWhile isWhiteSpace <:+ s := by
          rw [cut]
          exact (dropWhile_suffix isWhiteSpace).trans
            ((suffix_cons w later).trans (suffix_append first _))
        have front : ∀ u, (later.dropWhile isWhiteSpace).head? = some u → isWhiteSpace u = false := by
          intro u same
          have negative := head?_dropWhile_not isWhiteSpace later
          rw [same] at negative
          simpa using negative
        have rest : later.dropWhile isWhiteSpace ≠ [] := by
          intro nothing
          have blankLater := dropWhile_eq_nil_iff.mp nothing
          have last : ∃ u, s.getLast? = some u ∧ isWhiteSpace u = true := by
            rw [cut, getLast?_append]
            cases later.eq_nil_or_concat with
            | inl empty => exact ⟨w, by rw [empty]; rfl, blank⟩
            | inr concat =>
              obtain ⟨most, u, same⟩ := concat
              refine ⟨u, ?_, blankLater u (by simp [same])⟩
              rw [same, concat_eq_append, ← cons_append, getLast?_concat]
              rfl
          obtain ⟨u, same, white⟩ := last
          rw [trimmed.back u same] at white
          exact Bool.noConfusion white
        refine ih _ ?_ (trimmed.suffix suffix front) rest mem rfl
        have less := (dropWhile_suffix (l := later) isWhiteSpace).length_le
        have whole := congrArg List.length cut
        rw [length_append, length_cons] at whole
        omega

/-! ## Markers -/

/-- The loop over the leading markers, for a text of at most this length: the markers and what
follows, or nothing where a marker ends the line. -/
def readMarkers : ℕ → JsString → Option (List JsString × JsString)
  | 0, rest => some ([], rest)
  | fuel + 1, rest =>
    if isMarker rest then
      let marker := rest.takeWhile fun u => !isWhiteSpace u
      if marker.length = rest.length then none
      else (readMarkers fuel (trim (rest.drop marker.length))).map fun later =>
        (marker :: later.1, later.2)
    else some ([], rest)

theorem isMarker_ne_nil {s : JsString} (marker : isMarker s) : s ≠ [] := by
  intro nothing
  rw [nothing] at marker
  cases marker

theorem readMarkers_spec {fuel : ℕ} {s : JsString} (trimmed : Trimmed s) (enough : s.length ≤ fuel) :
    (readMarkers fuel s = none → ∀ field ∈ splitBlanks s, isMarker field) ∧
    ∀ markers rest, readMarkers fuel s = some (markers, rest) →
      Trimmed rest ∧ isMarker rest = false ∧
        (∀ marker ∈ markers, isMarker marker ∧ IsWord marker) ∧
        splitBlanks s = markers ++ splitBlanks rest := by
  induction fuel generalizing s with
  | zero =>
    have nothing : s = [] := eq_nil_of_length_eq_zero (by omega)
    subst nothing
    refine ⟨fun read => absurd read (some_ne_none _), fun markers rest read => ?_⟩
    cases read
    exact ⟨trimmed, rfl, by simp, rfl⟩
  | succ fuel ih =>
    unfold readMarkers
    cases marked : isMarker s with
    | false =>
      refine ⟨fun read => absurd read (some_ne_none _), fun markers rest read => ?_⟩
      cases read
      exact ⟨trimmed, marked, by simp, rfl⟩
    | true =>
      obtain ⟨solid, cut, next⟩ := word_cut s
      generalize word : s.takeWhile (fun u => !isWhiteSpace u) = marker at solid cut next
      have filled : marker ≠ [] := by
        obtain ⟨u, rest, whole⟩ := exists_cons_of_ne_nil (isMarker_ne_nil marked)
        have front := trimmed.front u (by rw [whole]; rfl)
        rw [← word, whole, takeWhile_cons_of_pos (by simp [front])]
        exact cons_ne_nil _ _
      have own : isMarker marker = true := by
        obtain ⟨u, body, same⟩ := exists_cons_of_ne_nil filled
        rw [cut, same] at marked
        rw [same]
        exact marked
      dsimp only
      by_cases ends : marker.length = s.length
      · rw [if_pos rfl, if_pos ends]
        have rest : s.drop marker.length = [] := drop_eq_nil_of_le ends.ge
        rw [rest, append_nil] at cut
        refine ⟨fun _ field mem => ?_, fun _ _ read => absurd read (some_ne_none _).symm⟩
        rw [cut, splitBlanks_solid solid, mem_singleton] at mem
        rw [mem]
        exact own
      · rw [if_pos rfl, if_neg ends]
        have length := congrArg List.length cut
        rw [length_append] at length
        obtain ⟨w, later, behind⟩ : ∃ w later, s.drop marker.length = w :: later := by
          cases tail : s.drop marker.length with
          | nil =>
            rw [tail, length_nil] at length
            omega
          | cons w later => exact ⟨w, later, rfl⟩
        have blank : isWhiteSpace w = true := next w (by rw [behind]; rfl)
        have suffix : s.drop marker.length <:+ s := drop_suffix _ _
        have kept := dropWhile_of_trimmed trimmed suffix
        rw [behind, dropWhile_cons_of_pos blank] at kept
        have short : (trim (s.drop marker.length)).length ≤ fuel := by
          rw [behind, kept]
          have less := (dropWhile_suffix (l := later) isWhiteSpace).length_le
          rw [behind, length_cons] at length
          omega
        have fields : splitBlanks s = marker :: splitBlanks (trim (s.drop marker.length)) := by
          rw [cut, drop_left, behind, kept]
          exact splitBlanks_append solid blank later
        obtain ⟨over_, rest⟩ := ih (trimmed_trim (s.drop marker.length)) short
        refine ⟨fun read field mem => ?_, fun markers rest' read => ?_⟩
        · rw [map_eq_none_iff] at read
          rw [fields] at mem
          rcases mem_cons.mp mem with same | mem
          · exact same ▸ own
          · exact over_ read field mem
        · obtain ⟨later, read, same⟩ := map_eq_some_iff.mp read
          obtain ⟨trimmed', other, words, split⟩ := rest later.1 later.2 read
          rw [Prod.mk.injEq] at same
          rw [← same.1, ← same.2]
          refine ⟨trimmed', other, fun field mem => ?_, ?_⟩
          · rcases mem_cons.mp mem with same | mem
            · exact same ▸ ⟨own, filled, solid⟩
            · exact words field mem
          · rw [fields, split, cons_append]

/-- The first field behind the markers is none. -/
theorem not_isMarker_first {rest first : JsString} {others : List JsString} (trimmed : Trimmed rest)
    (other : isMarker rest = false) (cut : splitBlanks rest = first :: others) :
    isMarker first = false := by
  cases rest with
  | nil =>
    obtain ⟨rfl, rfl⟩ := List.cons.inj cut
    rfl
  | cons u rest =>
    have solid := trimmed.front u rfl
    obtain ⟨front, later, parts⟩ := exists_cons_of_ne_nil (splitBlanks_ne_nil rest)
    rw [splitBlanks_cons solid parts, List.cons.injEq] at cut
    rw [← cut.1]
    exact other

theorem lineOfFields_markers {markers : List JsString} {rest : JsString} (trimmed : Trimmed rest)
    (other : isMarker rest = false) (words : ∀ marker ∈ markers, isMarker marker) :
    (markers ++ splitBlanks rest).takeWhile isMarker = markers ∧
      (markers ++ splitBlanks rest).dropWhile isMarker = splitBlanks rest := by
  obtain ⟨first, others, cut⟩ := exists_cons_of_ne_nil (splitBlanks_ne_nil rest)
  have stop := not_isMarker_first trimmed other cut
  rw [takeWhile_append_of_pos words, dropWhile_append_of_pos words, cut,
    takeWhile_cons_of_neg (by simp [stop]), dropWhile_cons_of_neg (by simp [stop]),
    append_nil]
  exact ⟨rfl, rfl⟩

theorem readLine_none {line : JsString}
    (read : readMarkers (trim line).length (trim line) = none) : readLine line = none := by
  have all := (readMarkers_spec (trimmed_trim line) le_rfl).1 read
  have nothing : (splitBlanks (trim line)).dropWhile isMarker = [] :=
    dropWhile_eq_nil_iff.mpr all
  unfold readLine lineOfFields
  rw [nothing]
  split
  · rfl
  · rfl

theorem readLine_some {line rest : JsString} {markers : List JsString}
    (read : readMarkers (trim line).length (trim line) = some (markers, rest)) :
    readLine line =
      if (trim line).head? = some numberSign then none
      else
        (splitBlanks rest)[0]?.bind fun hosts => (splitBlanks rest)[1]?.bind fun keyType =>
          (splitBlanks rest)[2]?.map fun key => ⟨markers, hosts, keyType, key⟩ := by
  obtain ⟨trimmed, other, words, fields⟩ :=
    (readMarkers_spec (trimmed_trim line) le_rfl).2 markers rest read
  obtain ⟨front, back⟩ := lineOfFields_markers trimmed other fun marker mem => (words marker mem).1
  unfold readLine lineOfFields
  rw [fields, front, back]
  rcases splitBlanks rest with _ | ⟨hosts, _ | ⟨keyType, _ | ⟨key, more⟩⟩⟩
  all_goals rfl

/-- What the fields of a line are. -/
structure IsLine (line : HostLine) : Prop where
  markers : ∀ marker ∈ line.markers, isMarker marker = true ∧ IsWord marker
  hosts : IsWord line.hosts
  unmarked : isMarker line.hosts = false
  key : IsWord line.key

theorem isLine_of_readLine {rawLine : JsString} {line : HostLine}
    (read : readLine rawLine = some line) : IsLine line := by
  cases found : readMarkers (trim rawLine).length (trim rawLine) with
  | none =>
    rw [readLine_none found] at read
    cases read
  | some later =>
    obtain ⟨markers, rest⟩ := later
    obtain ⟨trimmed, other, words, _⟩ :=
      (readMarkers_spec (trimmed_trim rawLine) le_rfl).2 markers rest found
    rw [readLine_some found] at read
    split at read
    · cases read
    · rcases fields : splitBlanks rest with _ | ⟨hosts, _ | ⟨keyType, _ | ⟨key, more⟩⟩⟩
      · rw [fields] at read
        cases read
      · rw [fields] at read
        cases read
      · rw [fields] at read
        cases read
      · have filled : rest ≠ [] := by
          intro nothing
          rw [nothing] at fields
          cases fields
        have isWord : ∀ field ∈ splitBlanks rest, IsWord field :=
          fun field mem => isWord_of_mem_splitBlanks trimmed filled mem
        have unmarked := not_isMarker_first trimmed other fields
        rw [fields] at read isWord
        obtain rfl := Option.some.inj read
        exact ⟨words, isWord hosts mem_cons_self, unmarked, isWord key (by simp)⟩

/-! ## The lines of a file -/

/-- The text cut at every line feed. -/
def splitFeeds : JsString → List JsString
  | [] => [[]]
  | u :: rest =>
    if u = lineFeed then [] :: splitFeeds rest
    else
      match splitFeeds rest with
      | [] => [[u]]
      | line :: lines => (u :: line) :: lines

theorem splitFeeds_ne_nil : splitFeeds s ≠ [] := by
  cases s with
  | nil => exact cons_ne_nil _ _
  | cons u rest =>
    unfold splitFeeds
    split
    · exact cons_ne_nil _ _
    · split
      · exact cons_ne_nil _ _
      · exact cons_ne_nil _ _

theorem splitFeeds_cons {u : Fin 65536} {rest line : JsString} {lines : List JsString}
    (other : u ≠ lineFeed) (cut : splitFeeds rest = line :: lines) :
    splitFeeds (u :: rest) = (u :: line) :: lines := by
  rw [splitFeeds, if_neg other, cut]

theorem splitFeeds_append (s t : JsString) :
    splitFeeds (s ++ lineFeed :: t) = splitFeeds s ++ splitFeeds t := by
  induction s with
  | nil => rfl
  | cons u s ih =>
    by_cases feed : u = lineFeed
    · rw [cons_append, splitFeeds, if_pos feed, ih, splitFeeds, if_pos feed, cons_append]
    · obtain ⟨line, lines, cut⟩ := exists_cons_of_ne_nil (splitFeeds_ne_nil s)
      rw [cut] at ih
      rw [cons_append, splitFeeds_cons feed ih, splitFeeds_cons feed cut]
      rfl

theorem splitFeeds_line {s : JsString} (single : lineFeed ∉ s) : splitFeeds s = [s] := by
  induction s with
  | nil => rfl
  | cons u s ih =>
    exact splitFeeds_cons (fun feed => single (feed ▸ mem_cons_self))
      (ih fun mem => single (mem_cons_of_mem _ mem))

/-- Splitting at `\r\n` too only leaves out carriage returns at the ends of lines. -/
theorem splitLines_feeds :
    Forall₂ (fun line whole => whole = line ∨ whole = line ++ [carriageReturn])
      (PtyExec.splitLines s) (splitFeeds s) := by
  induction s with
  | nil => exact .cons (.inl rfl) .nil
  | cons u rest ih =>
    rcases PtyExec.splitLines_cases u rest with ⟨feed, same⟩ | ⟨ret, next, same⟩ | ⟨feed, both⟩
    · rw [same, splitFeeds, if_pos feed]
      exact .cons (.inl rfl) ih
    · obtain ⟨more, cut⟩ := head?_eq_some_iff.mp next
      have other : u ≠ lineFeed := by rw [ret]; decide
      subst cut
      have feeds : splitFeeds (lineFeed :: more) = [] :: splitFeeds more := by
        rw [splitFeeds, if_pos rfl]
      rw [same, PtyExec.splitLines, if_pos rfl, splitFeeds_cons other feeds]
      rw [PtyExec.splitLines, if_pos rfl, feeds] at ih
      cases ih with
      | cons _ later => exact .cons (.inr (by rw [ret]; rfl)) later
    · obtain ⟨line, lines, cut⟩ := exists_cons_of_ne_nil (PtyExec.splitLines_ne_nil rest)
      obtain ⟨whole, wholes, parts⟩ := exists_cons_of_ne_nil (splitFeeds_ne_nil rest)
      rw [PtyExec.splitLines_unit feed both cut, splitFeeds_cons feed parts]
      rw [cut, parts] at ih
      cases ih with
      | cons first later =>
        refine .cons ?_ later
        rcases first with same | same
        · exact .inl (by rw [same])
        · exact .inr (by rw [same, cons_append])

theorem readLine_append_blank (line : JsString) {b : JsString} (blank : IsBlank b) :
    readLine (line ++ b) = readLine line := by
  unfold readLine
  rw [trim_append_blank line blank]

theorem filterMap_readLine {lines wholes : List JsString}
    (pairs : Forall₂ (fun line whole => ∃ b, IsBlank b ∧ whole = line ++ b) lines wholes) :
    lines.filterMap readLine = wholes.filterMap readLine := by
  induction pairs with
  | nil => rfl
  | cons first _ ih =>
    obtain ⟨b, blank, same⟩ := first
    rw [filterMap_cons, filterMap_cons, ih, same, readLine_append_blank _ blank]

theorem isBlank_nil : IsBlank [] := fun _ mem => absurd mem not_mem_nil

theorem isBlank_singleton {u : Fin 65536} (white : isWhiteSpace u) : IsBlank [u] := by
  intro v mem
  rw [mem_singleton.mp mem]
  exact white

theorem readLines_feeds (content : JsString) :
    readLines content = (splitFeeds content).filterMap readLine := by
  refine filterMap_readLine ((splitLines_feeds content).imp fun line whole either => ?_)
  rcases either with same | same
  · exact ⟨[], isBlank_nil, by rw [same, append_nil]⟩
  · exact ⟨[carriageReturn], isBlank_singleton (by decide), same⟩

theorem readLines_append (s t : JsString) :
    readLines (s ++ lineFeed :: t) = readLines s ++ readLines t := by
  rw [readLines_feeds, readLines_feeds, readLines_feeds, splitFeeds_append, filterMap_append]

theorem splitFeeds_snoc {u : Fin 65536} (other : u ≠ lineFeed) (white : isWhiteSpace u) :
    Forall₂ (fun line whole => ∃ b, IsBlank b ∧ whole = line ++ b)
      (splitFeeds s) (splitFeeds (s ++ [u])) := by
  induction s with
  | nil =>
    have single : lineFeed ∉ [u] := fun mem => other (mem_singleton.mp mem).symm
    rw [nil_append, splitFeeds_line single]
    exact Forall₂.cons ⟨[u], isBlank_singleton white, rfl⟩ Forall₂.nil
  | cons v s ih =>
    rw [cons_append]
    by_cases feed : v = lineFeed
    · rw [splitFeeds, if_pos feed, splitFeeds, if_pos feed]
      exact .cons ⟨[], isBlank_nil, rfl⟩ ih
    · obtain ⟨line, lines, cut⟩ := exists_cons_of_ne_nil (splitFeeds_ne_nil s)
      obtain ⟨whole, wholes, parts⟩ := exists_cons_of_ne_nil (splitFeeds_ne_nil (s ++ [u]))
      rw [splitFeeds_cons feed cut, splitFeeds_cons feed parts]
      rw [cut, parts] at ih
      cases ih with
      | cons first later =>
        obtain ⟨b, blank, same⟩ := first
        exact .cons ⟨b, blank, by rw [same, cons_append]⟩ later

theorem readLines_append_blank {b : JsString} (blank : IsBlank b) :
    readLines (s ++ b) = readLines s := by
  induction b generalizing s with
  | nil => rw [append_nil]
  | cons u b ih =>
    have rest : IsBlank b := fun v mem => blank v (mem_cons_of_mem _ mem)
    have none_ : readLines [] = [] := rfl
    by_cases feed : u = lineFeed
    · have later := ih [] rest
      rw [nil_append, none_] at later
      rw [feed, readLines_append, later, append_nil]
    · have cut : s ++ u :: b = (s ++ [u]) ++ b := by rw [append_assoc, singleton_append]
      rw [cut, ih _ rest, readLines_feeds, readLines_feeds]
      exact (filterMap_readLine (splitFeeds_snoc s feed (blank u mem_cons_self))).symm

end Netcatty.KnownHosts
