import Netcatty.HostGlobs
import Netcatty.VaultKnownHosts

/-!
Where the filter's matching of a pattern agrees with OpenSSH's.
-/

namespace Netcatty.KnownHosts

open List Option

/-! ## Brackets -/

theorem bracketMatch_eq_some {s host digits : JsString} : bracketMatch s = some (host, digits) ↔
      s = openBracket :: (host ++ closeBracket :: colonUnit :: digits) ∧ host ≠ [] ∧
        closeBracket ∉ host ∧ digits ≠ [] ∧ ∀ u ∈ digits, isDigit u := by
  cases s with
  | nil =>
    refine ⟨fun found => ?_, fun found => ?_⟩
    · cases found
    · exact absurd found.1 (cons_ne_nil _ _).symm
  | cons u rest =>
    unfold bracketMatch
    dsimp only
    constructor
    · intro found
      have whole := takeWhile_append_dropWhile (p := fun v => !decide (v = closeBracket)) (l := rest)
      have inside := fun v (mem : v ∈ rest.takeWhile fun v => !decide (v = closeBracket)) =>
        mem_takeWhile_imp mem
      generalize rest.takeWhile (fun v => !decide (v = closeBracket)) = name at found whole inside
      have behind : rest.drop name.length = rest.dropWhile fun v => !decide (v = closeBracket) := by
        have drop := congrArg (List.drop name.length) whole
        rw [drop_left] at drop
        exact drop.symm
      split at found
      · rename_i v w more cut
        split at found
        · rename_i facts
          cases found
          obtain ⟨rfl, filled, rfl, rfl, some_, all⟩ := facts
          rw [← behind, cut] at whole
          refine ⟨by rw [whole], filled, fun mem => ?_, some_, fun u mem => List.all_eq_true.mp all u mem⟩
          simpa using inside _ mem
        · cases found
      · cases found
    · rintro ⟨same, filled, outside, some_, all⟩
      obtain ⟨rfl, rfl⟩ := List.cons.inj same
      have front : (host ++ closeBracket :: colonUnit :: digits).takeWhile
          (fun v => !decide (v = closeBracket)) = host := by
        rw [takeWhile_append_of_pos, takeWhile_cons_of_neg (by simp), append_nil]
        intro v mem
        have other : v ≠ closeBracket := fun same => outside (same ▸ mem)
        simpa using other
      rw [front, drop_left]
      dsimp only
      rw [if_pos ⟨rfl, filled, rfl, rfl, some_, List.all_eq_true.mpr all⟩]

/-! ## Letter case -/

section Patterns

variable {case : CaseMap}

theorem isMark_of_isDigit {u : Fin 65536} (digit : isDigit u) : isMark u := by
  simp [isMark, digit]

theorem isMark_of_isWhiteSpace {u : Fin 65536} (white : isWhiteSpace u) : isMark u := by
  simp [isMark, white]

theorem CaseMap.mem_lower {s : JsString} {u : Fin 65536} (mark : isMark u) :
    u ∈ case.lower s ↔ u ∈ s := by
  unfold CaseMap.lower
  rw [List.mem_map]
  constructor
  · rintro ⟨v, mem, rfl⟩
    exact (case.reflects v mark).symm ▸ mem
  · exact fun mem => ⟨u, mem, case.fixes u mark⟩

theorem CaseMap.lower_lower (s : JsString) : case.lower (case.lower s) = case.lower s := by
  unfold CaseMap.lower
  rw [List.map_map]
  exact map_congr_left fun u _ => case.idempotent u

theorem CaseMap.lower_marks {s : JsString} (marks : ∀ u ∈ s, isMark u) : case.lower s = s := by
  unfold CaseMap.lower
  rw [map_congr_left fun u mem => case.fixes u (marks u mem)]
  exact List.map_id' s

theorem CaseMap.isWhiteSpace_lowerUnit (u : Fin 65536) :
    isWhiteSpace (case.lowerUnit u) = isWhiteSpace u := by
  cases white : isWhiteSpace u with
  | true => rw [case.fixes u (isMark_of_isWhiteSpace white), white]
  | false =>
    cases lowered : isWhiteSpace (case.lowerUnit u) with
    | true => rw [← white, ← case.reflects u (isMark_of_isWhiteSpace lowered), lowered]
    | false => rfl

theorem CaseMap.trimmed_lower {s : JsString} (trimmed : Trimmed s) : Trimmed (case.lower s) := by
  refine ⟨fun u first => ?_, fun u last => ?_⟩
  · rw [CaseMap.lower, head?_map, map_eq_some_iff] at first
    obtain ⟨v, first, rfl⟩ := first
    rw [case.isWhiteSpace_lowerUnit, trimmed.front v first]
  · rw [CaseMap.lower, getLast?_map, map_eq_some_iff] at last
    obtain ⟨v, last, rfl⟩ := last
    rw [case.isWhiteSpace_lowerUnit, trimmed.back v last]

theorem CaseMap.lower_bracket (host digits : JsString) (all : ∀ u ∈ digits, isDigit u) :
    case.lower (openBracket :: (host ++ closeBracket :: colonUnit :: digits)) =
      openBracket :: (case.lower host ++ closeBracket :: colonUnit :: digits) := by
  have own := case.lower_marks fun u mem => isMark_of_isDigit (all u mem)
  unfold CaseMap.lower at own ⊢
  rw [map_cons, map_append, map_cons, map_cons, own,
    case.fixes openBracket (by decide), case.fixes closeBracket (by decide),
    case.fixes colonUnit (by decide)]

/-! ## Pins -/

/-- What the selectors of plain host names are. -/
structure IsPin (case : CaseMap) (selector : VaultSelector) : Prop where
  lowered : case.lower selector.hostname = selector.hostname
  trimmed : Trimmed selector.hostname
  filled : selector.hostname ≠ []
  plain : ∀ u ∈ selector.hostname, u ≠ openBracket ∧ u ≠ closeBracket ∧ isLineTerminator u = false

/-- The name a pinned host is looked up by. -/
def VaultSelector.name (case : CaseMap) (selector : VaultSelector) : JsString :=
  lookupName case selector.hostname selector.port

theorem lookupName_default {host : JsString} : lookupName case host 22 = case.lower host := if_pos rfl

theorem lookupName_port {host : JsString} {port : ℕ} (other : port ≠ 22) :
    lookupName case host port =
      openBracket :: (case.lower host ++ closeBracket :: colonUnit :: decimal port) := if_neg other

theorem IsPin.normalized {selector : VaultSelector} (pin : IsPin case selector) :
    normalizeHostname case.lower selector.hostname = selector.hostname := by
  unfold normalizeHostname
  rw [pin.trimmed.trim_eq, pin.lowered]

/-- On the host of a pin, the filter's wildcards are OpenSSH's. -/
theorem IsPin.glob {selector : VaultSelector} (pin : IsPin case selector) {pattern : JsString}
    (filled : pattern ≠ []) :
    openSshHostGlobMatches case pattern selector.hostname =
      patternMatches case pattern selector.hostname := by
  unfold openSshHostGlobMatches patternMatches
  rw [pin.normalized]
  dsimp only
  rw [if_neg (by rintro (held | held); exacts [filled held, pin.filled held]), globMatches_wild]
  intro u mem
  rw [(pin.plain u mem).2.2]
  rfl

theorem normalizeHostname_word {token : JsString} (solid : ∀ u ∈ token, isWhiteSpace u = false) :
    normalizeHostname case.lower token = case.lower token := by
  have trimmed : Trimmed token :=
    ⟨fun u first => solid u (mem_of_mem_head? first), fun u last =>
      solid u (mem_of_mem_getLast? last)⟩
  unfold normalizeHostname
  rw [trimmed.trim_eq]

theorem patternMatches_exact {pattern name : JsString} (exact_ : hasWildcard pattern = false) :
    patternMatches case pattern name ↔ case.lower pattern = name :=
  globMatches_exact ((case.hasWildcard_lower pattern).trans exact_) name

theorem bracket_not_plain {host digits name : JsString} (outside : openBracket ∉ name)
    (covers : globMatches (fun _ => true) (openBracket :: (host ++ closeBracket :: colonUnit :: digits))
      name) : False := by
  unfold globMatches at covers
  rw [if_neg (by decide)] at covers
  cases name with
  | nil => cases covers
  | cons u rest =>
    dsimp only at covers
    rw [if_neg (by decide), Bool.and_eq_true, decide_eq_true_eq] at covers
    exact outside (covers.1 ▸ mem_cons_self)

theorem hasWildcard_port {digits : JsString} (digital : ∀ u ∈ digits, isDigit u) :
    hasWildcard (closeBracket :: colonUnit :: digits) = false := by
  have other : ∀ mark, isDigit mark = false → mark ≠ closeBracket → mark ≠ colonUnit →
      (closeBracket :: colonUnit :: digits).contains mark = false := by
    intro mark notDigit one two
    rw [← Bool.not_eq_true, contains_iff_mem, mem_cons, mem_cons]
    rintro (same | same | mem)
    · exact one same
    · exact two same
    · exact Bool.noConfusion (notDigit.symm.trans (digital mark mem))
  unfold hasWildcard
  rw [other star (by decide) (by decide) (by decide),
    other questionUnit (by decide) (by decide) (by decide)]
  rfl

theorem bracket_matches {host digits name : JsString} {port : ℕ}
    (digital : ∀ u ∈ digits, isDigit u) (outside : closeBracket ∉ name)
    (covers : globMatches (fun _ => true) (openBracket :: (host ++ closeBracket :: colonUnit :: digits))
      (openBracket :: (name ++ closeBracket :: colonUnit :: decimal port))) :
    globMatches (fun _ => true) host name ∧ digits = decimal port := by
  have bare := hasWildcard_port digital
  unfold globMatches at covers
  rw [if_neg (by decide)] at covers
  dsimp only at covers
  rw [if_neg (by decide), Bool.and_eq_true] at covers
  obtain ⟨first, second, parts, front, back⟩ := globMatches_append covers.2
  rw [globMatches_exact bare] at back
  have behind : closeBracket ∉ colonUnit :: decimal port := by
    intro mem
    rcases mem_cons.mp mem with same | mem
    · exact absurd same (by decide)
    · exact absurd (mem_decimal_isDigit mem) (by decide)
  rw [← back, append_cons_inj_of_notMem outside behind] at parts
  obtain ⟨rfl, _, same⟩ := parts
  exact ⟨front, (List.cons.inj same).2.symm⟩

theorem bracket_of_lower {token host : JsString} {port : ℕ} (filled : host ≠ [])
    (outside : closeBracket ∉ host)
    (same : case.lower token = openBracket :: (host ++ closeBracket :: colonUnit :: decimal port)) :
    ∃ name, bracketMatch token = some (name, decimal port) := by
  unfold CaseMap.lower at same
  obtain ⟨first, later, rfl, opened, same⟩ := map_eq_cons_iff.mp same
  obtain ⟨name, behind, rfl, lowered, same⟩ := map_eq_append_iff.mp same
  obtain ⟨second, behind, rfl, closed, same⟩ := map_eq_cons_iff.mp same
  obtain ⟨third, digits, rfl, colon, same⟩ := map_eq_cons_iff.mp same
  have fixed : ∀ {u v : Fin 65536}, isMark v = true → case.lowerUnit u = v → u = v := by
    intro u v mark lowered
    exact (case.reflects u (lowered ▸ mark)).symm.trans lowered
  have own : digits = decimal port := by
    rw [← same]
    refine (List.map_id' digits).symm.trans (map_congr_left fun u mem => ?_)
    have digit : isDigit (case.lowerUnit u) = true :=
      mem_decimal_isDigit (same ▸ List.mem_map_of_mem mem)
    exact fixed (isMark_of_isDigit digit) rfl
  refine ⟨name, bracketMatch_eq_some.mpr ⟨?_, fun nothing => ?_, fun mem => ?_, decimal_ne_nil port,
    fun u mem => mem_decimal_isDigit mem⟩⟩
  · rw [fixed (by decide) opened, fixed (by decide) closed, fixed (by decide) colon, own]
  · rw [nothing] at lowered
    exact filled lowered.symm
  · rw [← lowered] at outside
    exact outside ((case.mem_lower (by decide)).mpr mem)

theorem selects_of_covers {selector : VaultSelector} {token : JsString} (pin : IsPin case selector)
    (word : IsWord token) (positive : isNegated token = false)
    (covers : patternMatches case token (selector.name case))
    (bare : hasWildcard token → bracketMatch token = none → selector.port = 22) :
    plainHostPatternMatchesSelector case selector token := by
  have outside : closeBracket ∉ selector.hostname := fun mem => (pin.plain _ mem).2.1 rfl
  have opening : openBracket ∉ selector.hostname := fun mem => (pin.plain _ mem).1 rfl
  unfold plainHostPatternMatchesSelector
  rw [if_neg (by rintro (held | held); exacts [word.filled held, by rw [positive] at held; cases held])]
  unfold VaultSelector.name at covers
  cases bracket : bracketMatch token with
  | some parts =>
    obtain ⟨host, digits⟩ := parts
    obtain ⟨same, filled, _, _, all⟩ := bracketMatch_eq_some.mp bracket
    unfold patternMatches at covers
    rw [same, case.lower_bracket host digits all] at covers
    by_cases default_ : selector.port = 22
    · rw [default_, lookupName_default, pin.lowered] at covers
      exact (bracket_not_plain opening covers).elim
    · rw [lookupName_port default_, pin.lowered] at covers
      obtain ⟨front, own⟩ := bracket_matches all outside covers
      have port : parseDigits 10 digits = selector.port := own ▸ parseDigits_decimal _
      dsimp only
      rw [if_neg (not_not_intro port)]
      cases wild : hasWildcard host with
      | true => rw [if_pos rfl, pin.glob filled, patternMatches, front]
      | false =>
        have solid : ∀ u ∈ host, isWhiteSpace u = false := fun u mem =>
          word.solid u (same ▸ mem_cons_of_mem _ (mem_append_left _ mem))
        rw [if_neg Bool.false_ne_true, normalizeHostname_word solid, decide_eq_true_eq]
        exact (patternMatches_exact wild).mp front
  | none =>
    dsimp only
    cases wild : hasWildcard token with
    | true =>
      have default_ := bare wild bracket
      rw [default_, lookupName_default, pin.lowered] at covers
      rw [if_pos rfl, pin.glob word.filled, covers, Bool.and_true, decide_eq_true_eq]
      exact default_
    | false =>
      have lowered := (patternMatches_exact wild).mp covers
      rw [if_neg Bool.false_ne_true, normalizeHostname_word word.solid, Bool.and_eq_true,
        decide_eq_true_eq, decide_eq_true_eq]
      by_cases default_ : selector.port = 22
      · rw [default_, lookupName_default, pin.lowered] at lowered
        exact ⟨lowered, default_⟩
      · rw [lookupName_port default_, pin.lowered] at lowered
        obtain ⟨name, found⟩ := bracket_of_lower pin.filled outside lowered
        exact absurd (found.symm.trans bracket) (some_ne_none _)

theorem covers_of_selects {selector : VaultSelector} {token : JsString} (pin : IsPin case selector)
    (solid : ∀ u ∈ token, isWhiteSpace u = false)
    (selects : plainHostPatternMatchesSelector case selector token)
    (written : ∀ host digits, bracketMatch token = some (host, digits) →
      ∃ port, port ≠ 22 ∧ digits = decimal port) :
    patternMatches case token (selector.name case) := by
  unfold plainHostPatternMatchesSelector at selects
  unfold VaultSelector.name
  split at selects
  · cases selects
  rename_i ordinary
  have filled : token ≠ [] := fun nothing => ordinary (.inl nothing)
  cases bracket : bracketMatch token with
  | some parts =>
    obtain ⟨host, digits⟩ := parts
    obtain ⟨same, filled, _, _, all⟩ := bracketMatch_eq_some.mp bracket
    obtain ⟨port, other, own⟩ := written host digits bracket
    rw [bracket] at selects
    dsimp only at selects
    rw [own, parseDigits_decimal] at selects
    split at selects
    · cases selects
    · rename_i agree
      rw [not_not] at agree
      have front : patternMatches case host selector.hostname = true := by
        cases wild : hasWildcard host with
        | true =>
          rw [wild, if_pos rfl, pin.glob filled] at selects
          exact selects
        | false =>
          have inside : ∀ u ∈ host, isWhiteSpace u = false := fun u mem =>
            solid u (same ▸ mem_cons_of_mem _ (mem_append_left _ mem))
          rw [wild, if_neg Bool.false_ne_true, normalizeHostname_word inside,
            decide_eq_true_eq] at selects
          exact (patternMatches_exact wild).mpr selects
      rw [← agree, lookupName_port other, pin.lowered, same, own]
      unfold patternMatches at front ⊢
      rw [case.lower_bracket host _ fun u mem => mem_decimal_isDigit mem]
      have behind : globMatches (fun _ => true) (closeBracket :: colonUnit :: decimal port)
          (closeBracket :: colonUnit :: decimal port) = true :=
        (globMatches_exact (hasWildcard_port fun u mem => mem_decimal_isDigit mem) _).mpr rfl
      unfold globMatches
      rw [if_neg (by decide)]
      dsimp only
      rw [if_neg (by decide), globMatches_join front behind, decide_eq_true rfl]
      rfl
  | none =>
    rw [bracket] at selects
    dsimp only at selects
    cases wild : hasWildcard token with
    | true =>
      rw [wild, if_pos rfl, pin.glob filled, Bool.and_eq_true, decide_eq_true_eq] at selects
      rw [selects.1, lookupName_default, pin.lowered]
      exact selects.2
    | false =>
      rw [wild, if_neg Bool.false_ne_true, normalizeHostname_word solid, Bool.and_eq_true,
        decide_eq_true_eq, decide_eq_true_eq] at selects
      rw [selects.2, lookupName_default, pin.lowered, patternMatches_exact wild]
      exact selects.1

end Patterns

end Netcatty.KnownHosts
