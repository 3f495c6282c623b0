import Netcatty.HostGlobs
import Netcatty.SystemKnownHosts

/-!
When the background connection trusts no key that OpenSSH would not.
-/

namespace Netcatty.KnownHosts

open List Bool

/-! ## Entries -/

section Entries

variable (case : CaseMap) (crypto : SystemCrypto)

def entryOf (line : HostLine) : Option KnownHostsEntry :=
  let fingerprint := fingerprintFromKeyBlob crypto line.key
  if fingerprint = [] then none
  else
    some ⟨line.isRevoked, line.markers.contains (text "@cert-authority"), line.hosts, line.keyType,
      fingerprint⟩

theorem parseKnownHostsLine_eq (rawLine : JsString) :
    parseKnownHostsLine crypto rawLine = (readLine rawLine).bind (entryOf crypto) := by
  unfold parseKnownHostsLine
  dsimp only
  by_cases empty : trim rawLine = []
  · have none_ : readLine rawLine = none := by
      unfold readLine
      rw [empty]
      rfl
    rw [if_pos (.inl empty), none_]
    rfl
  by_cases comment : (trim rawLine).head? = some numberSign
  · have none_ : readLine rawLine = none := by
      unfold readLine
      rw [if_pos comment]
    rw [if_pos (.inr comment), none_]
    rfl
  rw [if_neg (by rintro (held | held); exacts [empty held, comment held])]
  cases read : readMarkers (trim rawLine).length (trim rawLine) with
  | none =>
    rw [readLine_none read]
    rfl
  | some later =>
    obtain ⟨markers, rest⟩ := later
    obtain ⟨trimmed, _, _, _⟩ := (readMarkers_spec (trimmed_trim rawLine) le_rfl).2 markers rest read
    rw [readLine_some read, if_neg comment]
    dsimp only
    by_cases nothing : rest = []
    · subst nothing
      rfl
    · have words : ∀ field ∈ splitBlanks rest, IsWord field :=
        fun field mem => isWord_of_mem_splitBlanks trimmed nothing mem
      rcases fields : splitBlanks rest with _ | ⟨hosts, _ | ⟨keyType, _ | ⟨key, more⟩⟩⟩
      · rfl
      · rfl
      · rfl
      · rw [fields] at words
        have one := (words hosts mem_cons_self).filled
        have two := (words keyType (by simp)).filled
        have three := (words key (by simp)).filled
        dsimp only
        rw [if_neg (by rintro (held | held | held); exacts [one held, two held, three held])]
        rfl

theorem scanLines_eq_true (hostname : JsString) (port : ℕ) (wantFingerprint : JsString)
    (trusted : Bool) (lines : List JsString) :
    scanLines case crypto hostname port wantFingerprint trusted lines ↔
      (∀ entry ∈ lines.filterMap (parseKnownHostsLine crypto),
        isAbout case crypto hostname port wantFingerprint entry → entry.revoked = false) ∧
      (trusted ∨ ∃ entry ∈ lines.filterMap (parseKnownHostsLine crypto),
        isAbout case crypto hostname port wantFingerprint entry) := by
  induction lines generalizing trusted with
  | nil => simp [scanLines]
  | cons rawLine lines ih =>
    unfold scanLines
    cases parsed : parseKnownHostsLine crypto rawLine with
    | none =>
      dsimp only
      rw [ih, filterMap_cons_none parsed]
    | some entry =>
      dsimp only
      rw [filterMap_cons_some parsed]
      cases about : isAbout case crypto hostname port wantFingerprint entry with
      | false =>
        rw [Bool.not_false, if_pos rfl, ih]
        simp [about]
      | true =>
        rw [Bool.not_true, if_neg Bool.false_ne_true]
        cases revoked : entry.revoked with
        | true => simp [about, revoked]
        | false =>
          rw [if_neg Bool.false_ne_true, ih]
          simp [about, revoked]

end Entries

/-! ## The contents -/

def allLines (contents : List (Option JsString)) : List HostLine :=
  contents.flatMap fun content => readLines (content.getD [])

theorem readLines_nil : readLines [] = [] := rfl

theorem readLines_addContent (combined : JsString) (content : Option JsString) :
    readLines (addContent combined content) = readLines combined ++ readLines (content.getD []) := by
  unfold addContent
  cases content with
  | none => simp [readLines_nil]
  | some content =>
    dsimp only
    rw [Option.getD_some]
    by_cases empty : content = []
    · rw [if_pos empty, empty, readLines_nil, append_nil]
    · rw [if_neg empty]
      by_cases first : combined = []
      · rw [if_pos first, first, readLines_nil, nil_append]
      · rw [if_neg first, readLines_append]

theorem readLines_content (contents : List (Option JsString)) :
    readLines (readSystemKnownHostsContent contents) = allLines contents := by
  have fold : ∀ combined : JsString,
      readLines (contents.foldl addContent combined) = readLines combined ++ allLines contents := by
    induction contents with
    | nil => intro combined; exact (append_nil _).symm
    | cons content contents ih =>
      intro combined
      rw [foldl_cons, ih, readLines_addContent]
      exact append_assoc _ _ _
  exact fold []

/-! ## Trust -/

theorem stripPadding_idempotent (s : JsString) : stripPadding (stripPadding s) = stripPadding s := by
  have twice : ∀ t : JsString, (t.dropWhile fun u => u = equalsSign).dropWhile
      (fun u => u = equalsSign) = t.dropWhile fun u => u = equalsSign := by
    intro t
    rw [dropWhile_eq_self_iff]
    intro filled
    have negative := head?_dropWhile_not (fun u => decide (u = equalsSign)) t
    rw [head?_eq_getElem?, getElem?_eq_getElem filled] at negative
    simpa using negative
  unfold stripPadding
  rw [reverse_reverse, twice]

section Trust

variable (case : CaseMap) (crypto : SystemCrypto)

/-- OpenSSH trusts the key for this name: a line without markers covers the name and holds
the key, and no revoked line does. -/
def OpenSshTrusts (lines : List HostLine) (name : JsString) (key : List UInt8) : Prop :=
  (∃ line ∈ lines, line.markers = [] ∧ crypto.fromBase64 line.key = key ∧
    line.covers case crypto.toHostCrypto name = true) ∧
  ∀ line ∈ lines, line.isRevoked = true → crypto.fromBase64 line.key = key →
    line.covers case crypto.toHostCrypto name = false

/-- The field spells the name as OpenSSH looks it up, up to the case of letters. -/
def spellsOut (field name : JsString) : Bool :=
  if isHashed field then hashedFieldMatches crypto.toHostCrypto field name
  else (splitCommas field).any fun pattern =>
    !isNegated pattern && !hasWildcard pattern && case.lower pattern = name

def excludes (field name : JsString) : Bool :=
  !isHashed field && (splitCommas field).any fun pattern =>
    isNegated pattern && patternMatches case pattern.tail name

def GivesTrust (line : HostLine) (hostname : JsString) (port : ℕ) : Prop :=
  line.isRevoked = false ∧ line.markers.contains (text "@cert-authority") = false ∧
    hostFieldMatches case crypto line.hosts hostname port = true

/-- What the lines with the key have to be for the trust to be OpenSSH's. -/
structure SoundFor (lines : List HostLine) (hostname : JsString) (port : ℕ) (key : List UInt8) :
    Prop where
  /-- Where a line gives trust, one without markers spells the name out and excludes nothing. -/
  vouched : (∃ line ∈ lines, crypto.fromBase64 line.key = key ∧
      GivesTrust case crypto line hostname port) →
    ∃ line ∈ lines, crypto.fromBase64 line.key = key ∧ line.markers = [] ∧
      spellsOut case crypto line.hosts (lookupName case (trim hostname) port) = true ∧
      excludes case line.hosts (lookupName case (trim hostname) port) = false
  /-- A revoked line that covers the host is one that the reader finds. -/
  revoked : ∀ line ∈ lines, line.isRevoked = true → crypto.fromBase64 line.key = key →
    line.covers case crypto.toHostCrypto (lookupName case (trim hostname) port) = true →
    line.markers.contains (text "@cert-authority") = false ∧
      hostFieldMatches case crypto line.hosts hostname port = true

variable {case crypto}

theorem covers_of_spellsOut {line : HostLine} {name : JsString}
    (spells : spellsOut case crypto line.hosts name)
    (included : excludes case line.hosts name = false) :
    line.covers case crypto.toHostCrypto name := by
  unfold HostLine.covers fieldMatches
  unfold spellsOut at spells
  unfold excludes at included
  cases hashed : isHashed line.hosts with
  | true =>
    rw [hashed] at spells
    exact spells
  | false =>
    rw [hashed, if_neg Bool.false_ne_true, List.any_eq_true] at spells
    rw [hashed, Bool.not_false, Bool.true_and] at included
    obtain ⟨pattern, mem, facts⟩ := spells
    simp only [and_eq_true, not_eq_true', decide_eq_true_eq] at facts
    rw [if_neg Bool.false_ne_true]
    unfold plainFieldMatches
    rw [included, Bool.not_false, Bool.and_true, List.any_eq_true]
    refine ⟨pattern, mem, ?_⟩
    rw [facts.1.1, Bool.not_false, Bool.true_and]
    unfold patternMatches
    rw [globMatches_exact ((case.hasWildcard_lower pattern).trans facts.1.2)]
    exact facts.2

theorem mem_allLines {contents : List (Option JsString)} {line : HostLine}
    (mem : line ∈ allLines contents) : line.key ≠ [] := by
  obtain ⟨content, _, held⟩ := mem_flatMap.mp mem
  obtain ⟨rawLine, _, read⟩ := mem_filterMap.mp held
  exact (isLine_of_readLine read).key.filled

theorem entries_eq (contents : List (Option JsString)) :
    (PtyExec.splitLines (readSystemKnownHostsContent contents)).filterMap
        (parseKnownHostsLine crypto) = (allLines contents).filterMap (entryOf crypto) := by
  rw [← readLines_content, readLines, filterMap_filterMap]
  exact filterMap_congr fun rawLine _ => parseKnownHostsLine_eq crypto rawLine

theorem entryOf_eq_some {line : HostLine} {entry : KnownHostsEntry}
    (made : entryOf crypto line = some entry) :
    entry.revoked = line.isRevoked ∧
      entry.certAuthority = line.markers.contains (text "@cert-authority") ∧
      entry.hostField = line.hosts ∧ crypto.fromBase64 line.key ≠ [] ∧
      entry.fingerprint = stripPadding (crypto.sha256Base64 (crypto.fromBase64 line.key)) := by
  unfold entryOf fingerprintFromKeyBlob at made
  dsimp only at made
  by_cases noKey : line.key = []
  · rw [if_pos noKey] at made
    cases made
  · rw [if_neg noKey] at made
    by_cases noBlob : crypto.fromBase64 line.key = []
    · rw [if_pos noBlob] at made
      cases made
    · rw [if_neg noBlob] at made
      split at made
      · cases made
      · obtain rfl := Option.some.inj made
        exact ⟨rfl, rfl, rfl, noBlob, rfl⟩

end Trust

/-! ## A revoked key -/

/-- Base64, the hash and the keyed hash, on the key `AAAA`. -/
def sampleCrypto : SystemCrypto where
  fromBase64 base64 := if base64 = text "AAAA" then [0, 0, 0] else []
  hmacSha1 _ _ := []
  sha256Base64 blob :=
    if blob = [0, 0, 0] then text "cJ6AyISHokEeHuTfufIqhhSS0gxHZRUMDHlKvXD4FHw=" else []

theorem sampleCrypto_collisionFree (blob : List UInt8)
    (same : stripPadding (sampleCrypto.sha256Base64 blob) =
      stripPadding (sampleCrypto.sha256Base64 [0, 0, 0])) : blob = [0, 0, 0] := by
  by_contra other
  have nothing : sampleCrypto.sha256Base64 blob = [] := if_neg other
  rw [nothing] at same
  exact absurd same (by decide)


end Netcatty.KnownHosts
