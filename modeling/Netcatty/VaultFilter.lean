import Netcatty.VaultLines

/-!
The merged known_hosts file: what it says about pinned hosts, and about the others.
-/

namespace Netcatty.KnownHosts

open List Option Bool

section Filter

variable (case : CaseMap) (crypto : HostCrypto)

/-! ## The filter on lines that were read -/

def filterHostLine (selectors : List VaultSelector) (line : HostLine) : Option HostLine :=
  if hostFieldMatchesAnyVaultSelector case crypto line.hosts selectors && !line.isRevoked then
    (rewriteHostFieldExcludingVaultHosts case crypto line.hosts selectors).map fun hosts =>
      { line with hosts := hosts }
  else some line

/-- The patterns after the first are none that could begin a line or a hashed field. -/
def TidyHosts (hosts : JsString) : Prop :=
  isHashed hosts = false → ∀ pattern ∈ (splitCommas hosts).tail,
    isMarker pattern = false ∧ pattern.head? ≠ some numberSign ∧ isHashed pattern = false

variable {case crypto}

theorem trim_of_mem_splitCommas {field pattern : JsString}
    (solid : ∀ u ∈ field, isWhiteSpace u = false) (mem : pattern ∈ splitCommas field) :
    trim pattern = pattern := by
  have inside := (of_mem_splitCommas mem).2
  have trimmed : Trimmed pattern :=
    ⟨fun u first => solid u (inside u (mem_of_mem_head? first)),
      fun u last => solid u (inside u (mem_of_mem_getLast? last))⟩
  exact trimmed.trim_eq

variable {selectors : List VaultSelector}

theorem mem_keptPatterns {field token : JsString} (solid : ∀ u ∈ field, isWhiteSpace u = false) :
    token ∈ keptPatterns case selectors field ↔ token ∈ splitCommas field ∧ token ≠ [] ∧
      ∀ selector ∈ selectors,
        plainHostPatternMatchesSelector case selector (positivePart token) = false := by
  have untrimmed : (splitCommas field).map trim = splitCommas field :=
    (map_congr_left fun pattern mem => trim_of_mem_splitCommas solid mem).trans (List.map_id' _)
  unfold keptPatterns
  rw [untrimmed, mem_filter]
  simp only [ne_eq, decide_not, and_eq_true, not_eq_true', decide_eq_false_iff_not,
    List.any_eq_false, not_eq_true]

/-- What is left of a field. -/
structure Rewritten (case : CaseMap) (selectors : List VaultSelector) (hosts rewritten : JsString) :
    Prop where
  plain : isHashed hosts = false
  patterns : splitCommas rewritten = keptPatterns case selectors hosts
  word : IsWord rewritten
  unmarked : isMarker rewritten = false
  shown : hosts.head? ≠ some numberSign → rewritten.head? ≠ some numberSign
  unhashed : isHashed rewritten = false

theorem isHashed_comma (first others : JsString) : isHashed (first ++ comma :: others) = isHashed first := by
  have label : text "|1|" = [verticalBar, ⟨49, by decide⟩, verticalBar] := by decide
  have bar : (verticalBar == comma) = false := by decide
  have one : ((⟨49, by decide⟩ : Fin 65536) == comma) = false := by decide
  unfold isHashed
  rw [label]
  rcases first with _ | ⟨a, _ | ⟨b, _ | ⟨c, rest⟩⟩⟩
  · simp only [nil_append, List.isPrefixOf, bar, Bool.false_and]
  · simp only [singleton_append, List.isPrefixOf, one, Bool.false_and, Bool.and_false]
  · simp only [cons_append, nil_append, List.isPrefixOf, bar, Bool.false_and, Bool.and_false]
  · simp only [cons_append, List.isPrefixOf]

theorem keptPatterns_solid {hosts : JsString}
    (solid : ∀ u ∈ hosts, isWhiteSpace u = false) {pattern : JsString}
    (mem : pattern ∈ keptPatterns case selectors hosts) : IsWord pattern ∧ comma ∉ pattern := by
  obtain ⟨held, filled, _⟩ := (mem_keptPatterns solid).mp mem
  obtain ⟨outside, inside⟩ := of_mem_splitCommas held
  exact ⟨⟨filled, fun u mem => solid u (inside u mem)⟩, outside⟩

theorem rewrite_eq_some {hosts rewritten : JsString} (word : IsWord hosts)
    (matched : hostFieldMatchesAnyVaultSelector case crypto hosts selectors)
    (rewrite : rewriteHostFieldExcludingVaultHosts case crypto hosts selectors = some rewritten) :
    isHashed hosts = false ∧ (keptPatterns case selectors hosts).all isNegated = false ∧
      rewritten = [comma].intercalate (keptPatterns case selectors hosts) := by
  unfold rewriteHostFieldExcludingVaultHosts at rewrite
  rw [word.trimmed.trim_eq] at rewrite
  dsimp only at rewrite
  cases hashed : isHashed hosts with
  | true =>
    rw [if_pos (.inr hashed), matched, hashed, Bool.and_self, if_pos rfl] at rewrite
    cases rewrite
  | false =>
    have plain : ¬(hosts = [] ∨ isHashed hosts = true) := by
      rintro (held | held)
      · exact word.filled held
      · rw [hashed] at held
        cases held
    rw [if_neg plain] at rewrite
    split at rewrite
    · cases rewrite
    · rename_i some_
      exact ⟨rfl, eq_false_of_not_eq_true some_, (Option.some.inj rewrite).symm⟩

theorem isWord_join {patterns : List JsString} (words : ∀ pattern ∈ patterns, IsWord pattern)
    (some_ : patterns ≠ []) : IsWord ([comma].intercalate patterns) := by
  obtain ⟨first, others, rfl⟩ := exists_cons_of_ne_nil some_
  obtain ⟨v, body, spelled⟩ := exists_cons_of_ne_nil (words first mem_cons_self).filled
  refine ⟨?_, fun u mem => ?_⟩
  · rw [spelled, intercalate_cons_cons_left]
    exact cons_ne_nil _ _
  · rcases mem_intercalate mem with same | ⟨pattern, held, mem⟩
    · rw [same]
      decide
    · exact (words pattern held).solid u mem

theorem rewritten_of_some {hosts rewritten : JsString}
    (word : IsWord hosts) (unmarked : isMarker hosts = false) (tidy : TidyHosts hosts)
    (matched : hostFieldMatchesAnyVaultSelector case crypto hosts selectors)
    (rewrite : rewriteHostFieldExcludingVaultHosts case crypto hosts selectors = some rewritten) :
    Rewritten case selectors hosts rewritten := by
  obtain ⟨hashed, some_, rfl⟩ := rewrite_eq_some word matched rewrite
  have solid : ∀ {pattern}, pattern ∈ keptPatterns case selectors hosts →
      IsWord pattern ∧ comma ∉ pattern := fun mem => keptPatterns_solid word.solid mem
  have member : ∀ {pattern}, pattern ∈ keptPatterns case selectors hosts →
      pattern ∈ splitCommas hosts := fun mem => ((mem_keptPatterns word.solid).mp mem).1
  generalize kept : keptPatterns case selectors hosts = patterns at some_ solid member
  cases patterns with
  | nil => exact absurd some_ (by decide)
  | cons first others =>
    have firstWord := (solid mem_cons_self).1
    obtain ⟨v, body, spelled⟩ := exists_cons_of_ne_nil firstWord.filled
    have joined : ([comma].intercalate (first :: others)).head? = first.head? := by
      rw [spelled, intercalate_cons_cons_left]
      rfl
    have hashedFirst : isHashed ([comma].intercalate (first :: others)) = isHashed first := by
      by_cases last : others = []
      · rw [last, intercalate_singleton]
      · rw [intercalate_cons_of_ne_nil last, append_assoc, singleton_append,
          isHashed_comma]
    -- the first kept pattern is the field's first one, or one that begins tidily
    have begins : isMarker first = false ∧
        (hosts.head? ≠ some numberSign → first.head? ≠ some numberSign) ∧ isHashed first = false := by
      obtain ⟨front, behind, cut⟩ := exists_cons_of_ne_nil (splitCommas_ne_nil hosts)
      have held : first ∈ splitCommas hosts := member mem_cons_self
      rw [cut] at held
      rcases mem_cons.mp held with same | later
      · subst same
        have whole : hosts = [comma].intercalate (first :: behind) := by
          rw [← cut, splitCommas_eq, intercalate_splitOn]
        have atFront : hosts.head? = first.head? := by
          rw [whole, spelled, intercalate_cons_cons_left]
          rfl
        refine ⟨?_, fun other => atFront ▸ other, ?_⟩
        · unfold isMarker at unmarked ⊢
          rwa [← atFront]
        · by_cases last : behind = []
          · rw [last, intercalate_singleton] at whole
            rwa [← whole]
          · rw [intercalate_cons_of_ne_nil last, append_assoc,
              singleton_append] at whole
            rw [← hashed, whole, isHashed_comma]
      · obtain ⟨one, two, three⟩ := tidy hashed first (by rw [cut]; exact later)
        exact ⟨one, fun _ => two, three⟩
    refine ⟨hashed, ?_, isWord_join (fun pattern mem => (solid mem).1) (cons_ne_nil _ _), ?_,
      fun other => ?_, ?_⟩
    · rw [splitCommas_join (fun pattern mem => (solid mem).2) (cons_ne_nil _ _), kept]
    · unfold isMarker
      rw [joined]
      exact begins.1
    · rw [joined]
      exact begins.2.1 other
    · rw [hashedFirst]
      exact begins.2.2

/-! ## The filter on a line of the file -/

theorem readMarkers_nil {fuel : ℕ} {s rest : JsString}
    (read : readMarkers fuel s = some ([], rest)) : rest = s := by
  cases fuel with
  | zero =>
    cases read
    rfl
  | succ fuel =>
    unfold readMarkers at read
    split at read
    · dsimp only at read
      split at read
      · cases read
      · obtain ⟨later, _, same⟩ := map_eq_some_iff.mp read
        cases same
    · cases read
      rfl

theorem head?_first {rest first : JsString} {others : List JsString} (trimmed : Trimmed rest)
    (cut : splitBlanks rest = first :: others) : first.head? = rest.head? := by
  cases rest with
  | nil =>
    obtain ⟨rfl, rfl⟩ := List.cons.inj cut
    rfl
  | cons u rest =>
    obtain ⟨front, later, parts⟩ := exists_cons_of_ne_nil (splitBlanks_ne_nil rest)
    rw [splitBlanks_cons (trimmed.front u rfl) parts, List.cons.injEq] at cut
    rw [← cut.1]
    rfl

theorem join_eq_nil {words : List JsString} (all : ∀ word ∈ words, IsWord word)
    (nothing : [space].intercalate words = []) : words = [] := by
  cases words with
  | nil => rfl
  | cons word words =>
    obtain ⟨v, body, spelled⟩ := exists_cons_of_ne_nil (all word mem_cons_self).filled
    rw [spelled, intercalate_cons_cons_left] at nothing
    cases nothing

/-- A line that lacks a key lacks it with another field for its hosts. -/
theorem readLine_short {markers words : List JsString} {first hosts : JsString}
    (all : ∀ word ∈ markers ++ first :: words, IsWord word)
    (marked : ∀ marker ∈ markers, isMarker marker)
    (short : (words[0]?.bind fun keyType => words[1]?.map fun key =>
      HostLine.mk markers hosts keyType key) = none) :
    readLine ([space].intercalate (markers ++ first :: words)) = none := by
  unfold readLine
  rw [(trimmed_join all).trim_eq, splitBlanks_join all (by simp), lineOfFields,
    dropWhile_append_of_pos marked]
  have least : ((first :: words).dropWhile isMarker).length ≤ 2 := by
    have less := (dropWhile_suffix (l := first :: words) isMarker).length_le
    rcases words with _ | ⟨keyType, _ | ⟨key, more⟩⟩
    · exact less.trans (Nat.le_succ 1)
    · exact less
    · cases short
  split
  · rfl
  · split
    · rename_i same
      rw [same] at least
      simp at least
    · rfl

theorem readLine_filterKnownHostsLine {rawLine : JsString}
    (tidy : ∀ line, readLine rawLine = some line → TidyHosts line.hosts) :
    (filterKnownHostsLine case crypto selectors rawLine).bind readLine =
      (readLine rawLine).bind (filterHostLine case crypto selectors) := by
  unfold filterKnownHostsLine
  dsimp only
  by_cases empty : trim rawLine = []
  · have nothing : readLine rawLine = none := by
      unfold readLine
      rw [empty]
      rfl
    rw [if_pos empty, nothing]
    rfl
  rw [if_neg empty]
  by_cases comment : (trim rawLine).head? = some numberSign
  · have nothing : readLine rawLine = none := by
      unfold readLine
      rw [if_pos comment]
    rw [if_pos comment, bind_some, readLine_trimEnd, nothing]
    rfl
  rw [if_neg comment]
  cases found : readMarkers (trim rawLine).length (trim rawLine) with
  | none =>
    dsimp only
    rw [bind_some, readLine_trimEnd, readLine_none found]
    rfl
  | some later =>
    obtain ⟨markers, rest⟩ := later
    obtain ⟨trimmed, other, marked, _⟩ :=
      (readMarkers_spec (trimmed_trim rawLine) le_rfl).2 markers rest found
    have read := readLine_some found
    rw [if_neg comment] at read
    dsimp only
    by_cases nothing : rest = []
    · have none_ : readLine rawLine = none := by
        rw [read, nothing]
        rfl
      rw [if_pos nothing, bind_some, readLine_trimEnd, none_]
      rfl
    rw [if_neg nothing]
    obtain ⟨hosts, words, cut⟩ := exists_cons_of_ne_nil (splitBlanks_ne_nil rest)
    have isWord : ∀ field ∈ hosts :: words, IsWord field := fun field mem =>
      isWord_of_mem_splitBlanks trimmed nothing (cut ▸ mem)
    have unmarked := not_isMarker_first trimmed other cut
    have hostsHead := head?_first trimmed cut
    rw [cut, getElem?_cons_zero, bind_some, getElem?_cons_succ,
      getElem?_cons_succ] at read
    rw [cut, headD_cons, tail_cons]
    -- what the line is read as, and what becomes of it
    have spec : ∀ line, readLine rawLine = some line → line.hosts = hosts ∧ line.markers = markers := by
      intro line same
      rw [read] at same
      obtain ⟨keyType, _, same⟩ := bind_eq_some_iff.mp same
      obtain ⟨key, _, rfl⟩ := map_eq_some_iff.mp same
      exact ⟨rfl, rfl⟩
    have kept : (hostFieldMatchesAnyVaultSelector case crypto hosts selectors &&
        !markers.contains (text "@revoked")) = false →
        readLine (trimEnd rawLine) =
          (readLine rawLine).bind (filterHostLine case crypto selectors) := by
      intro stays
      rw [readLine_trimEnd]
      cases whole : readLine rawLine with
      | none => rfl
      | some line =>
        obtain ⟨sameHosts, sameMarkers⟩ := spec line whole
        rw [bind_some, filterHostLine, HostLine.isRevoked, sameHosts, sameMarkers, stays,
          if_neg Bool.false_ne_true]
    cases matched : hostFieldMatchesAnyVaultSelector case crypto hosts selectors with
    | false =>
      rw [if_neg Bool.false_ne_true, bind_some]
      exact kept (by rw [matched, Bool.false_and])
    | true =>
      cases revoked : markers.contains (text "@revoked") with
      | true =>
        rw [if_pos rfl, if_pos rfl, bind_some]
        exact kept (by rw [revoked, Bool.not_true, Bool.and_false])
      | false =>
        rw [if_pos rfl, if_neg Bool.false_ne_true]
        have filtered : ∀ line, readLine rawLine = some line →
            filterHostLine case crypto selectors line =
              (rewriteHostFieldExcludingVaultHosts case crypto hosts selectors).map fun rewritten =>
                { line with hosts := rewritten } := by
          intro line whole
          obtain ⟨sameHosts, sameMarkers⟩ := spec line whole
          rw [filterHostLine, HostLine.isRevoked, sameHosts, sameMarkers, matched, revoked]
          rfl
        cases rewrite : rewriteHostFieldExcludingVaultHosts case crypto hosts selectors with
        | none =>
          cases whole : readLine rawLine with
          | none => rfl
          | some line =>
            rw [bind_some, filtered line whole, rewrite]
            rfl
        | some rewritten =>
          dsimp only
          by_cases bare : words = []
          · have none_ : readLine rawLine = none := by
              rw [read, bare]
              rfl
            rw [if_pos (.inr (by rw [bare]; rfl)), none_]
            rfl
          have hostsWord := isWord hosts mem_cons_self
          have rewrittenWord : IsWord rewritten := by
            obtain ⟨_, some_, rfl⟩ := rewrite_eq_some hostsWord matched rewrite
            refine isWord_join (fun pattern mem => (keptPatterns_solid hostsWord.solid mem).1) ?_
            intro nothing
            rw [nothing] at some_
            cases some_
          have filled : [space].intercalate words ≠ [] := fun nothing =>
            bare (join_eq_nil (fun word mem => isWord word (mem_cons_of_mem _ mem)) nothing)
          have all : ∀ word ∈ markers ++ rewritten :: words, IsWord word := by
            intro word mem
            rcases mem_append.mp mem with mem | mem
            · exact (marked word mem).2
            · rcases mem_cons.mp mem with same | mem
              · exact same ▸ rewrittenWord
              · exact isWord word (mem_cons_of_mem _ mem)
          have joined : markers.flatMap (fun marker => marker ++ [space]) ++ rewritten ++
              space :: [space].intercalate words =
                [space].intercalate (markers ++ rewritten :: words) := by
            rw [← join_markers markers (cons_ne_nil _ _), intercalate_cons_of_ne_nil bare]
            simp only [append_assoc, singleton_append]
          rw [if_neg (by rintro (held | held); exacts [rewrittenWord.filled held, filled held]),
            bind_some, joined, (trimmed_join all).trim_eq]
          cases whole : readLine rawLine with
          | none => exact readLine_short all (fun marker mem => (marked marker mem).1) (read ▸ whole)
          | some line =>
            have tidyHosts : TidyHosts hosts := (spec line whole).1 ▸ tidy line whole
            have facts := rewritten_of_some hostsWord unmarked tidyHosts matched rewrite
            rw [bind_some, filtered line whole, rewrite, readLine_join all
              (fun marker mem => (marked marker mem).1) facts.unmarked ?_]
            · rw [read] at whole
              obtain ⟨keyType, atOne, same⟩ := bind_eq_some_iff.mp whole
              obtain ⟨key, atTwo, rfl⟩ := map_eq_some_iff.mp same
              rw [atOne, bind_some, atTwo]
              rfl
            · intro none_
              rw [none_] at found
              apply facts.shown
              rw [hostsHead, readMarkers_nil found]
              exact comment

/-! ## The filter on the file -/

theorem not_mem_filterKnownHostsLine {rawLine line : JsString} (single : lineFeed ∉ rawLine)
    (kept : filterKnownHostsLine case crypto selectors rawLine = some line) : lineFeed ∉ line := by
  have atEnd : lineFeed ∉ trimEnd rawLine := by
    obtain ⟨b, _, cut⟩ := trimEnd_spec rawLine
    exact fun mem => single (cut ▸ mem_append_left b mem)
  unfold filterKnownHostsLine at kept
  dsimp only at kept
  split at kept
  · cases kept
  split at kept
  · obtain rfl := Option.some.inj kept
    exact atEnd
  split at kept
  · obtain rfl := Option.some.inj kept
    exact atEnd
  rename_i markers rest found
  split at kept
  · obtain rfl := Option.some.inj kept
    exact atEnd
  rename_i some_
  split at kept
  · rename_i matched
    split at kept
    · obtain rfl := Option.some.inj kept
      exact atEnd
    split at kept
    · cases kept
    rename_i rewritten rewrite
    split at kept
    · cases kept
    obtain rfl := Option.some.inj kept
    obtain ⟨trimmed, _, marked, _⟩ :=
      (readMarkers_spec (trimmed_trim rawLine) le_rfl).2 markers rest found
    obtain ⟨hosts, words, cut⟩ := exists_cons_of_ne_nil (splitBlanks_ne_nil rest)
    have isWord : ∀ field ∈ hosts :: words, IsWord field := fun field mem =>
      isWord_of_mem_splitBlanks trimmed some_ (cut ▸ mem)
    rw [cut, headD_cons] at matched rewrite
    rw [cut, tail_cons]
    have solid : ∀ word, IsWord word → lineFeed ∉ word := fun word own mem =>
      absurd (own.solid _ mem) (by decide)
    have blank : lineFeed ≠ space := by decide
    have hostsWord := isWord hosts mem_cons_self
    have rewrittenWord : IsWord rewritten := by
      obtain ⟨_, some_, rfl⟩ := rewrite_eq_some hostsWord matched rewrite
      refine isWord_join (fun pattern mem => (keptPatterns_solid hostsWord.solid mem).1) ?_
      intro nothing
      rw [nothing] at some_
      cases some_
    intro mem
    have inside := mem_of_mem_trim mem
    rw [mem_append, mem_append, mem_flatMap, mem_cons] at inside
    rcases inside with (⟨marker, held, mem⟩ | mem) | same | mem
    · rw [mem_append, mem_singleton] at mem
      exact mem.elim (solid marker (marked marker held).2) blank
    · exact solid rewritten rewrittenWord mem
    · exact blank same
    · rcases mem_intercalate mem with same | ⟨word, held, mem⟩
      · exact blank same
      · exact solid word (isWord word (mem_cons_of_mem _ held)) mem
  · obtain rfl := Option.some.inj kept
    exact atEnd

theorem hostFieldMatches_nothing (hosts : JsString) :
    hostFieldMatchesAnyVaultSelector case crypto hosts [] = false := by
  unfold hostFieldMatchesAnyVaultSelector
  dsimp only
  split
  · rfl
  · split
    · rfl
    · rfl

theorem readLines_filter {content : JsString} {selectors : List VaultSelector}
    (tidy : ∀ line ∈ readLines content, TidyHosts line.hosts) :
    readLines (filterKnownHostsContentExcludingVaultHosts case crypto content selectors) =
      (readLines content).filterMap (filterHostLine case crypto selectors) := by
  unfold filterKnownHostsContentExcludingVaultHosts
  split
  · rename_i unfiltered
    have same : readLines content = (readLines content).filterMap (filterHostLine case crypto selectors) := by
      rcases unfiltered with nothing | nothing
      · rw [nothing]
        rfl
      · have all : ∀ line, filterHostLine case crypto selectors line = some line := by
          intro line
          rw [filterHostLine, nothing, hostFieldMatches_nothing]
          rfl
        rw [funext all, filterMap_some]
    rw [← same]
    split
    · rename_i empty
      obtain ⟨a, b, before, after, cut, _⟩ := trim_spec content
      rw [empty, nil_append] at cut
      have blank : IsBlank content := by
        rw [cut]
        exact fun u mem => (mem_append.mp mem).elim (before u) (after u)
      exact (readLines_append_blank [] blank).symm
    · obtain ⟨b, blank, cut⟩ := trimEnd_spec content
      have shown := readLines_append_blank (trimEnd content) blank
      rw [← cut] at shown
      exact shown.symm
  · rw [readLines_join, filterMap_filter, filterMap_filterMap, readLines,
      filterMap_filterMap]
    · refine filterMap_congr fun rawLine mem => ?_
      rw [← readLine_filterKnownHostsLine fun line read =>
        tidy line (mem_filterMap.mpr ⟨rawLine, mem, read⟩)]
      congr 1
      funext line
      by_cases empty : line = []
      · rw [empty]
        rfl
      · rw [if_pos (by simpa using empty)]
    · intro line mem
      obtain ⟨rawLine, held, kept⟩ := mem_filterMap.mp (mem_filter.mp mem).1
      exact not_mem_filterKnownHostsLine (not_mem_splitLines held) kept

end Filter

end Netcatty.KnownHosts
