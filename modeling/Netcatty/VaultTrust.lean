import Netcatty.VaultFilter

/-!
What the merged known_hosts file says about pinned hosts, and about the others.
-/

namespace Netcatty.KnownHosts

open List Option

open HostKeys (KnownHost)

section Trust

variable (case : CaseMap) (crypto : HostCrypto)

/-- A host name without commas, wildcards, brackets and line breaks. -/
def IsPlainHost (host : JsString) : Bool :=
  host.all fun u => !(u.val ∈ [42, 44, 63, 91, 93]) && !isLineTerminator u

def matchingKeys (lines : List HostLine) (name : JsString) :
    List (List JsString × JsString × JsString) :=
  (lines.filter fun line => line.covers case crypto name).map fun line =>
    (line.markers, line.keyType, line.key)

/-- A line whose patterns the filter takes as OpenSSH does. -/
structure PlainlyWritten (pins : List VaultSelector) (line : HostLine) : Prop where
  /-- A wildcard outside brackets covers no pin of another port than the default one. -/
  bare : ∀ pattern ∈ splitCommas line.hosts, isNegated pattern = false →
    hasWildcard pattern = true → bracketMatch pattern = none →
      ∀ pin ∈ pins, patternMatches case pattern (pin.name case) = true → pin.port = 22
  /-- A negated pattern with brackets has another port than the default one, written plainly. -/
  negated : ∀ pattern ∈ splitCommas line.hosts, isNegated pattern = true →
    ∀ host digits, bracketMatch pattern.tail = some (host, digits) →
      ∃ port, port ≠ 22 ∧ digits = decimal port

def SharesNoPattern (pins : List VaultSelector) (name : JsString) (line : HostLine) : Prop :=
  isHashed line.hosts = false → ∀ pattern ∈ splitCommas line.hosts,
    patternMatches case (positivePart pattern) name = true →
      ∀ pin ∈ pins, patternMatches case (positivePart pattern) (pin.name case) = false

variable {case crypto}

/-! ## Pins -/

theorem isPin_of_mem {knownHosts : List KnownHost} {selector : VaultSelector}
    (plain : ∀ knownHost ∈ knownHosts, IsPlainHost knownHost.hostname)
    (mem : selector ∈ extractVaultHostSelectors case crypto knownHosts) : IsPin case selector := by
  unfold extractVaultHostSelectors at mem
  obtain ⟨knownHost, held, made⟩ := mem_filterMap.mp mem
  split at made
  · cases made
  dsimp only at made
  split at made
  · cases made
  rename_i filled
  obtain rfl := Option.some.inj made
  refine ⟨case.lower_lower _, case.trimmed_lower (trimmed_trim _), filled, fun u mem => ?_⟩
  have fromName : ∀ {v}, isMark v = true → v ∈ normalizeHostname case.lower knownHost.hostname →
      v ∈ knownHost.hostname := fun mark mem => mem_of_mem_trim ((case.mem_lower mark).mp mem)
  have each := List.all_eq_true.mp (plain knownHost held)
  refine ⟨fun same => ?_, fun same => ?_, ?_⟩
  · subst same
    exact absurd (each _ (fromName (by decide) mem)) (by decide)
  · subst same
    exact absurd (each _ (fromName (by decide) mem)) (by decide)
  · cases broken : isLineTerminator u with
    | false => rfl
    | true =>
      have white : isWhiteSpace u = true := by
        simp only [isLineTerminator, isWhiteSpace, mem_cons, not_mem_nil, or_false,
          decide_eq_true_eq] at broken ⊢
        omega
      have ordinary := each u (fromName (isMark_of_isWhiteSpace white) mem)
      rw [broken, Bool.not_true, Bool.and_false] at ordinary
      cases ordinary

variable {selector : VaultSelector}

section

variable (pin : IsPin case selector)
include pin

theorem IsPin.name_ne_nil : selector.name case ≠ [] := by
  unfold VaultSelector.name
  by_cases default_ : selector.port = 22
  · rw [default_, lookupName_default, pin.lowered]
    exact pin.filled
  · rw [lookupName_port default_]
    exact cons_ne_nil _ _

/-- A name without brackets that is looked up as a pin is the pin's. -/
theorem IsPin.eq_of_name {host : JsString}
    {port : ℕ} (opening : openBracket ∉ host) (closing : closeBracket ∉ host)
    (same : lookupName case host port = selector.name case) : selector = ⟨case.lower host, port⟩ := by
  have openingPin : openBracket ∉ selector.hostname := fun mem => (pin.plain _ mem).1 rfl
  have opening' : openBracket ∉ case.lower host := fun mem => opening ((case.mem_lower (by decide)).mp mem)
  have closing' : closeBracket ∉ case.lower host := fun mem => closing ((case.mem_lower (by decide)).mp mem)
  obtain ⟨hostname, pinPort⟩ := selector
  have lowered := pin.lowered
  dsimp only at lowered openingPin
  unfold VaultSelector.name at same
  dsimp only at same
  by_cases default_ : port = 22
  · by_cases pinDefault : pinPort = 22
    · rw [default_, pinDefault, lookupName_default, lookupName_default, lowered] at same
      rw [same, default_, pinDefault]
    · rw [default_, lookupName_default, lookupName_port pinDefault] at same
      exact absurd (same ▸ mem_cons_self) opening'
  · by_cases pinDefault : pinPort = 22
    · rw [pinDefault, lookupName_default, lookupName_port default_, lowered] at same
      exact absurd (same ▸ mem_cons_self) openingPin
    · rw [lookupName_port default_, lookupName_port pinDefault, List.cons.injEq, lowered] at same
      have behind : closeBracket ∉ colonUnit :: decimal port := by
        intro mem
        rcases mem_cons.mp mem with colon | mem
        · exact absurd colon (by decide)
        · exact absurd (mem_decimal_isDigit mem) (by decide)
      rw [append_cons_inj_of_notMem closing' behind] at same
      have ports := congrArg (parseDigits 10) (List.cons.inj same.2.2.2).2
      rw [parseDigits_decimal, parseDigits_decimal] at ports
      rw [same.2.1, ports]

theorem covers_pin {token host : JsString}
    {port : ℕ} (solid : ∀ u ∈ token, isWhiteSpace u = false) (opening : openBracket ∉ host)
    (closing : closeBracket ∉ host)
    (selects : plainHostPatternMatchesSelector case selector token)
    (covers : patternMatches case token (lookupName case host port)) :
    patternMatches case token (selector.name case) := by
  refine covers_of_selects pin solid selects fun name digits bracket => ⟨port, ?_⟩
  obtain ⟨same, _, _, _, all⟩ := bracketMatch_eq_some.mp bracket
  have opening' : openBracket ∉ case.lower host := fun mem => opening ((case.mem_lower (by decide)).mp mem)
  have closing' : closeBracket ∉ case.lower host := fun mem => closing ((case.mem_lower (by decide)).mp mem)
  unfold patternMatches at covers
  rw [same, case.lower_bracket name digits all] at covers
  by_cases default_ : port = 22
  · rw [default_, lookupName_default] at covers
    exact (bracket_not_plain opening' covers).elim
  · rw [lookupName_port default_] at covers
    exact ⟨default_, (bracket_matches all closing' covers).2⟩

/-! ## Fields -/

theorem hashedHostFieldMatchesSelector_eq {field : JsString} (hashed : isHashed field) :
    hashedHostFieldMatchesSelector case crypto selector field =
      hashedFieldMatches crypto field (selector.name case) := by
  have tokens : buildHashLookupTokens case selector.hostname selector.port =
      [selector.name case, selector.name case] := by
    unfold buildHashLookupTokens VaultSelector.name lookupName
    rw [pin.trimmed.trim_eq, pin.lowered]
    dsimp only
    rw [if_neg pin.filled, map_cons, map_singleton, pin.lowered]
  unfold hashedHostFieldMatchesSelector hashedFieldMatches
  rw [hashed, Bool.not_true, if_neg Bool.false_ne_true]
  cases hashedParts field with
  | none => rfl
  | some parts =>
    dsimp only
    rw [tokens]
    by_cases noSalt : crypto.fromBase64 parts.1 = []
    · simp [noSalt]
    by_cases noHash : crypto.fromBase64 parts.2 = []
    · simp [noHash]
    · simp [noSalt, noHash]

end

theorem matchPatterns_eq_true {patterns : List JsString}
    (trimmed : ∀ pattern ∈ patterns, trim pattern = pattern) (matched : Bool) :
    matchPatterns case selector matched patterns ↔
      (∀ pattern ∈ patterns, isNegated pattern →
        plainHostPatternMatchesSelector case selector pattern.tail = false) ∧
      (matched ∨ ∃ pattern ∈ patterns, isNegated pattern = false ∧
        plainHostPatternMatchesSelector case selector pattern) := by
  induction patterns generalizing matched with
  | nil => simp [matchPatterns]
  | cons pattern patterns ih =>
    have later := ih fun other mem => trimmed other (mem_cons_of_mem _ mem)
    unfold matchPatterns
    rw [trimmed pattern mem_cons_self]
    dsimp only
    by_cases empty : pattern = []
    · have never : plainHostPatternMatchesSelector case selector [] = false := rfl
      have positive : isNegated [] = false := rfl
      rw [if_pos empty, later, empty]
      simp [never, positive]
    rw [if_neg empty]
    cases negated : isNegated pattern with
    | true =>
      rw [if_pos rfl]
      cases selects : plainHostPatternMatchesSelector case selector pattern.tail with
      | true => simp [negated, selects]
      | false =>
        rw [if_neg Bool.false_ne_true, later]
        simp [negated, selects]
    | false =>
      rw [if_neg Bool.false_ne_true, later]
      cases selects : plainHostPatternMatchesSelector case selector pattern with
      | true => simp [negated, selects]
      | false => simp [negated, selects]

theorem plainFieldMatches_eq_true {field name : JsString} :
    plainFieldMatches case field name ↔
      (∃ pattern ∈ splitCommas field, isNegated pattern = false ∧
        patternMatches case pattern name) ∧
      ∀ pattern ∈ splitCommas field, isNegated pattern →
        patternMatches case pattern.tail name = false := by
  unfold plainFieldMatches
  simp only [Bool.and_eq_true, List.any_eq_true, Bool.not_eq_true', List.any_eq_false, not_and,
    Bool.not_eq_true]

theorem pattern_ne_nil {pattern name : JsString} (filled : name ≠ [])
    (covers : patternMatches case pattern name) : pattern ≠ [] := by
  intro nothing
  rw [nothing] at covers
  exact filled (List.isEmpty_iff.mp covers)

theorem solid_of_mem_splitCommas {field pattern : JsString} (word : IsWord field)
    (mem : pattern ∈ splitCommas field) : ∀ u ∈ pattern, isWhiteSpace u = false :=
  fun u inside => word.solid u ((of_mem_splitCommas mem).2 u inside)

variable {pins : List VaultSelector}

theorem selects_of_plainFieldMatches {line : HostLine}
    (isLine : IsLine line) (written : PlainlyWritten case pins line) {selector : VaultSelector}
    (mem : selector ∈ pins) (pin : IsPin case selector)
    (covers : plainFieldMatches case line.hosts (selector.name case)) :
    plainHostFieldMatchesSelector case selector line.hosts := by
  obtain ⟨⟨pattern, held, positive, matches_⟩, included⟩ := plainFieldMatches_eq_true.mp covers
  unfold plainHostFieldMatchesSelector
  rw [matchPatterns_eq_true fun _ held => trim_of_mem_splitCommas isLine.hosts.solid held]
  refine ⟨fun other held' negated => ?_, .inr ⟨pattern, held, positive, ?_⟩⟩
  · rw [← Bool.not_eq_true]
    intro selects
    have solid : ∀ u ∈ other.tail, isWhiteSpace u = false := fun u inside =>
      solid_of_mem_splitCommas isLine.hosts held' u (mem_of_mem_tail inside)
    have excluded := covers_of_selects pin solid selects (written.negated other held' negated)
    exact Bool.noConfusion ((included other held' negated).symm.trans excluded)
  · exact selects_of_covers pin
      ⟨pattern_ne_nil pin.name_ne_nil matches_, solid_of_mem_splitCommas isLine.hosts held⟩ positive
      matches_ fun wild bare => written.bare pattern held positive wild bare selector mem matches_

theorem matched_of_covers {line : HostLine} (isLine : IsLine line)
    (written : isHashed line.hosts = false → PlainlyWritten case pins line)
    {selector : VaultSelector} (mem : selector ∈ pins) (pin : IsPin case selector)
    (covers : line.covers case crypto (selector.name case)) :
    hostFieldMatchesAnyVaultSelector case crypto line.hosts pins := by
  unfold hostFieldMatchesAnyVaultSelector
  rw [isLine.hosts.trimmed.trim_eq]
  dsimp only
  rw [if_neg isLine.hosts.filled]
  unfold HostLine.covers fieldMatches at covers
  cases hashed : isHashed line.hosts with
  | true =>
    rw [hashed, if_pos rfl] at covers
    rw [if_pos rfl, List.any_eq_true]
    exact ⟨selector, mem, (hashedHostFieldMatchesSelector_eq pin hashed).trans covers⟩
  | false =>
    rw [hashed, if_neg Bool.false_ne_true] at covers
    rw [if_neg Bool.false_ne_true, List.any_eq_true]
    exact ⟨selector, mem, selects_of_plainFieldMatches isLine (written hashed) mem pin covers⟩

/-! ## Lines -/

theorem filterHostLine_cases (crypto : HostCrypto) (pins : List VaultSelector) (line : HostLine) :
    filterHostLine case crypto pins line = some line ∧
        (hostFieldMatchesAnyVaultSelector case crypto line.hosts pins → line.isRevoked) ∨
      line.isRevoked = false ∧ hostFieldMatchesAnyVaultSelector case crypto line.hosts pins ∧
        filterHostLine case crypto pins line =
          (rewriteHostFieldExcludingVaultHosts case crypto line.hosts pins).map fun hosts =>
            { line with hosts := hosts } := by
  unfold filterHostLine
  cases matched : hostFieldMatchesAnyVaultSelector case crypto line.hosts pins with
  | false => exact .inl ⟨rfl, fun never => by cases never⟩
  | true =>
    cases revoked : line.isRevoked with
    | true => exact .inl ⟨rfl, fun _ => rfl⟩
    | false => exact .inr ⟨rfl, rfl, rfl⟩

theorem filtered_line_covers_no_pin {line left : HostLine}
    (isLine : IsLine line) (tidy : TidyHosts line.hosts)
    (written : line.isRevoked = false → isHashed line.hosts = false → PlainlyWritten case pins line)
    (filtered : filterHostLine case crypto pins line = some left) (unrevoked : left.isRevoked = false)
    {selector : VaultSelector} (mem : selector ∈ pins) (pin : IsPin case selector) :
    left.covers case crypto (selector.name case) = false := by
  rw [← Bool.not_eq_true]
  intro covers
  rcases filterHostLine_cases crypto pins line with ⟨same, only⟩ | ⟨revoked, matched, same⟩
  · rw [same] at filtered
    obtain rfl := Option.some.inj filtered
    have found := only (matched_of_covers isLine (written unrevoked) mem pin covers)
    exact Bool.noConfusion (unrevoked.symm.trans found)
  · rw [same] at filtered
    obtain ⟨rewritten, rewrite, rfl⟩ := map_eq_some_iff.mp filtered
    have facts := rewritten_of_some isLine.hosts isLine.unmarked tidy matched rewrite
    unfold HostLine.covers fieldMatches at covers
    dsimp only at covers
    rw [facts.unhashed, if_neg Bool.false_ne_true, plainFieldMatches_eq_true, facts.patterns] at covers
    obtain ⟨⟨pattern, kept, positive, matches_⟩, _⟩ := covers
    obtain ⟨held, filled, others⟩ := (mem_keptPatterns isLine.hosts.solid).mp kept
    have unselected := others selector mem
    rw [positivePart, positive, if_neg Bool.false_ne_true] at unselected
    have selects := selects_of_covers pin ⟨filled, solid_of_mem_splitCommas isLine.hosts held⟩ positive
      matches_ fun wild bare =>
        (written revoked facts.plain).bare pattern held positive wild bare selector mem matches_
    exact Bool.noConfusion (unselected.symm.trans selects)

/-- A host that the vault has no key for, and that no pattern is for together with a pin. -/
structure IsOther (case : CaseMap) (crypto : HostCrypto) (pins : List VaultSelector)
    (lines : List HostLine) (host : JsString) (port : ℕ) : Prop where
  filled : host ≠ []
  opening : openBracket ∉ host
  closing : closeBracket ∉ host
  unpinned : ⟨case.lower host, port⟩ ∉ pins
  unshared : ∀ line ∈ lines, line.isRevoked = false →
    SharesNoPattern case pins (lookupName case host port) line
  collisionFree : ∀ pin ∈ pins, ∀ salt,
    crypto.hmacSha1 salt (lookupName case host port) = crypto.hmacSha1 salt (pin.name case) →
      lookupName case host port = pin.name case

section

variable {lines : List HostLine} {host : JsString} {port : ℕ}
    (other : IsOther case crypto pins lines host port)

include other

theorem IsOther.name_ne_nil : lookupName case host port ≠ [] := by
  by_cases default_ : port = 22
  · rw [default_, lookupName_default]
    exact fun nothing => other.filled (map_eq_nil_iff.mp nothing)
  · rw [lookupName_port default_]
    exact cons_ne_nil _ _

section

variable (isPin : ∀ pin ∈ pins, IsPin case pin) {line : HostLine} (mem : line ∈ lines)
include isPin mem

theorem IsOther.kept
    (unrevoked : line.isRevoked = false) (isLine : IsLine line) (plain : isHashed line.hosts = false)
    {pattern : JsString} (held : pattern ∈ splitCommas line.hosts)
    (covers : patternMatches case (positivePart pattern) (lookupName case host port)) :
    pattern ∈ keptPatterns case pins line.hosts := by
  have solid : ∀ u ∈ positivePart pattern, isWhiteSpace u = false := by
    intro u inside
    unfold positivePart at inside
    split at inside
    · exact solid_of_mem_splitCommas isLine.hosts held u (mem_of_mem_tail inside)
    · exact solid_of_mem_splitCommas isLine.hosts held u inside
  refine (mem_keptPatterns isLine.hosts.solid).mpr ⟨held, fun nothing => ?_, fun pin pinned => ?_⟩
  · rw [nothing] at covers
    exact pattern_ne_nil other.name_ne_nil covers rfl
  · rw [← Bool.not_eq_true]
    intro selects
    have both := covers_pin (isPin pin pinned) solid other.opening other.closing selects covers
    have apart := other.unshared line mem unrevoked plain pattern held covers pin pinned
    exact Bool.noConfusion (apart.symm.trans both)

theorem filtered_line_covers_other (isLine : IsLine line) (tidy : TidyHosts line.hosts) :
    matchingKeys case crypto (filterHostLine case crypto pins line).toList (lookupName case host port) =
      matchingKeys case crypto [line] (lookupName case host port) := by
  rcases filterHostLine_cases crypto pins line with ⟨same, _⟩ | ⟨unrevoked, matched, same⟩
  · rw [same]
    rfl
  have kept : isHashed line.hosts = false → ∀ pattern ∈ splitCommas line.hosts,
      patternMatches case (positivePart pattern) (lookupName case host port) = true →
        pattern ∈ keptPatterns case pins line.hosts := fun plain _ held covers =>
    other.kept isPin mem unrevoked isLine plain held covers
  have member : ∀ {pattern}, pattern ∈ keptPatterns case pins line.hosts →
      pattern ∈ splitCommas line.hosts := fun held => ((mem_keptPatterns isLine.hosts.solid).mp held).1
  rw [same]
  cases rewrite : rewriteHostFieldExcludingVaultHosts case crypto line.hosts pins with
  | none =>
    -- the line is gone, and did not cover the host
    have uncovered : line.covers case crypto (lookupName case host port) = false := by
      rw [← Bool.not_eq_true]
      intro covers
      unfold HostLine.covers fieldMatches at covers
      cases hashed : isHashed line.hosts with
      | true =>
        rw [hashed, if_pos rfl] at covers
        unfold hostFieldMatchesAnyVaultSelector at matched
        rw [isLine.hosts.trimmed.trim_eq] at matched
        dsimp only at matched
        rw [if_neg isLine.hosts.filled, hashed, if_pos rfl, List.any_eq_true] at matched
        obtain ⟨pin, pinned, found⟩ := matched
        rw [hashedHostFieldMatchesSelector_eq (isPin pin pinned) hashed] at found
        unfold hashedFieldMatches at covers found
        cases parts : hashedParts line.hosts with
        | none =>
          rw [parts] at covers
          cases covers
        | some both =>
          obtain ⟨salt, hash⟩ := both
          rw [parts] at covers found
          simp only [Bool.and_eq_true, decide_eq_true_eq] at covers found
          have sameName := other.collisionFree pin pinned _ (covers.2.trans found.2.symm)
          have pinIs := (isPin pin pinned).eq_of_name other.opening other.closing sameName
          exact other.unpinned (pinIs ▸ pinned)
      | false =>
        rw [hashed, if_neg Bool.false_ne_true, plainFieldMatches_eq_true] at covers
        obtain ⟨⟨pattern, held, positive, matches_⟩, _⟩ := covers
        have stays := kept hashed pattern held (by
          rw [positivePart, positive, if_neg Bool.false_ne_true]
          exact matches_)
        unfold rewriteHostFieldExcludingVaultHosts at rewrite
        rw [isLine.hosts.trimmed.trim_eq] at rewrite
        dsimp only at rewrite
        have plain : ¬(line.hosts = [] ∨ isHashed line.hosts = true) := by
          rintro (nothing | held)
          · exact isLine.hosts.filled nothing
          · exact Bool.noConfusion (hashed.symm.trans held)
        rw [if_neg plain] at rewrite
        split at rewrite
        · rename_i all
          have negated := List.all_eq_true.mp all pattern stays
          exact Bool.noConfusion (positive.symm.trans negated)
        · cases rewrite
    have left : [line].filter (fun line => line.covers case crypto (lookupName case host port)) = [] := by
      rw [filter_cons_of_neg (by simp [uncovered]), filter_nil]
    unfold matchingKeys
    rw [left]
    rfl
  | some rewritten =>
    have facts := rewritten_of_some isLine.hosts isLine.unmarked tidy matched rewrite
    have agree : plainFieldMatches case rewritten (lookupName case host port) =
        plainFieldMatches case line.hosts (lookupName case host port) := by
      rw [Bool.eq_iff_iff, plainFieldMatches_eq_true, plainFieldMatches_eq_true, facts.patterns]
      constructor
      · rintro ⟨⟨pattern, held, positive, matches_⟩, included⟩
        refine ⟨⟨pattern, member held, positive, matches_⟩, fun negation held negated => ?_⟩
        rw [← Bool.not_eq_true]
        intro excluded
        have stays := kept facts.plain negation held (by
          rw [positivePart, negated, if_pos rfl]
          exact excluded)
        exact Bool.noConfusion ((included negation stays negated).symm.trans excluded)
      · rintro ⟨⟨pattern, held, positive, matches_⟩, included⟩
        refine ⟨⟨pattern, ?_, positive, matches_⟩, fun negation held negated =>
          included negation (member held) negated⟩
        apply kept facts.plain pattern held
        rw [positivePart, positive, if_neg Bool.false_ne_true]
        exact matches_
    have covers : ({ line with hosts := rewritten } : HostLine).covers case crypto
        (lookupName case host port) = line.covers case crypto (lookupName case host port) := by
      unfold HostLine.covers fieldMatches
      rw [facts.unhashed, facts.plain]
      exact agree
    unfold matchingKeys
    rw [map_some, toList_some, filter_singleton, filter_singleton, covers]
    cases line.covers case crypto (lookupName case host port) with
    | true => rfl
    | false => rfl

end

end

theorem filtered_line_revoked (line : HostLine) :
    (filterHostLine case crypto pins line).toList.filter (fun left => left.isRevoked) =
      [line].filter fun left => left.isRevoked := by
  rcases filterHostLine_cases crypto pins line with ⟨same, _⟩ | ⟨unrevoked, _, same⟩
  · rw [same]
    rfl
  · have gone : [line].filter (fun left => left.isRevoked) = [] := by
      rw [filter_cons_of_neg (by simp [unrevoked]), filter_nil]
    rw [same, gone, filter_eq_nil_iff]
    intro left mem
    obtain ⟨rewritten, _, rfl⟩ := map_eq_some_iff.mp (mem_toList.mp mem)
    exact Bool.not_eq_true _ ▸ unrevoked

theorem filterMap_one (f : HostLine → Option HostLine) (line : HostLine) :
    [line].filterMap f = (f line).toList := by
  cases made : f line with
  | none => rw [filterMap_cons_none made, filterMap_nil, toList_none]
  | some left => rw [filterMap_cons_some made, filterMap_nil, toList_some]

/-! ## Files -/

end Trust

/-- Base64 and the keyed hash, where no line is hashed. -/
def plainCrypto : HostCrypto where
  fromBase64 _ := []
  hmacSha1 _ name := name.map fun u => UInt8.ofNat u.val

def vaultHost (hostname : JsString) : KnownHost :=
  ⟨text "1", hostname, some 22, text "ssh-ed25519", none, some (text "ssh-ed25519 AAAA")⟩

def hostLine (host key : JsString) : HostLine := ⟨[], host, text "ssh-rsa", key⟩

end Netcatty.KnownHosts
