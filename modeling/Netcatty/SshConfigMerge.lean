import Netcatty.SshConfigSerializer

/-!
Managed hosts in a file of the user.

The first merge cuts the managed patterns out of the Host lines of the file and puts the managed
block behind what is left; later merges replace what stands between the markers.  So the sections
of the file stay as they are, but for their managed patterns (`first_merge`), and nothing outside
the markers changes any more (`later_merges`).
-/

namespace Netcatty.VaultImport

open List Option Bool

open KnownHosts (space)

def MANAGED_BLOCK_BEGIN : JsString := text "# BEGIN NETCATTY MANAGED - DO NOT EDIT THIS BLOCK"

def MANAGED_BLOCK_END : JsString := text "# END NETCATTY MANAGED"

/-- `[*?!,[\]@#]` or white space. -/
def isMatchMark (unit : Fin 65536) : Bool := isWhiteSpace unit || unit.val ∈ [42, 63, 33, 44, 91, 93, 64, 35]

def isSafeSshHostMatchLiteral (value : JsString) : Bool := !isUnsafeSshConfigValue value && !value.any isMatchMark

/-- `join("\n")`. -/
def joinLines (lines : List JsString) : JsString := [lineFeed].intercalate lines

/-- `join("\n\n")`. -/
def joinBlocks (blocks : List JsString) : JsString := [lineFeed, lineFeed].intercalate blocks

/-- `indexOf`. -/
def indexOf (part : JsString) : JsString → Option ℕ
  | [] => if part.isEmpty then some 0 else none
  | unit :: rest => if part.isPrefixOf (unit :: rest) then some 0 else (indexOf part rest).map (· + 1)

def wrapManaged (managedContent : JsString) : JsString :=
  MANAGED_BLOCK_BEGIN ++ [lineFeed] ++ managedContent ++ MANAGED_BLOCK_END

/-- What `mergeWithExistingSshConfig` knows of the lines so far. -/
structure MergeScan where
  preservedBlocks : List JsString
  preambleLines : List JsString
  seenFirstBlock : Bool
  currentBlock : List JsString
  currentHostPatterns : List JsString
  isMatchBlock : Bool

section Merge

variable (toLowerCase : JsString → JsString) (managedHostnameSet : List JsString)

def nonManagedPatterns (patterns : List JsString) : List JsString :=
  patterns.filter fun pattern => toLowerCase pattern ∉ managedHostnameSet

def MergeScan.flush (scan : MergeScan) : MergeScan :=
  if scan.currentBlock.isEmpty then scan
  else
    let kept := nonManagedPatterns toLowerCase managedHostnameSet scan.currentHostPatterns
    { scan with
      preservedBlocks :=
        if scan.isMatchBlock then scan.preservedBlocks ++ [joinLines scan.currentBlock]
        else if kept.length = scan.currentHostPatterns.length then scan.preservedBlocks ++ [joinLines scan.currentBlock]
        else if 0 < kept.length then
          scan.preservedBlocks ++ [joinLines ((text "Host " ++ [space].intercalate kept) :: scan.currentBlock.tail)]
        else scan.preservedBlocks
      currentBlock := []
      currentHostPatterns := []
      isMatchBlock := false }

def lineKeyword (line : JsString) : Option JsString := (configTokens line).head?.map toLowerCase

/-- One turn of the loop over the lines. -/
def readMergeLine (scan : MergeScan) (line : JsString) : MergeScan :=
  let flushed := scan.flush toLowerCase managedHostnameSet
  if lineKeyword toLowerCase line = some (text "host") then
    { flushed with
      seenFirstBlock := true
      currentHostPatterns := (configTokens line).tail
      currentBlock := flushed.currentBlock ++ [line] }
  else if lineKeyword toLowerCase line = some (text "match") then
    { flushed with
      seenFirstBlock := true
      isMatchBlock := true
      currentBlock := flushed.currentBlock ++ [line] }
  else if !scan.seenFirstBlock then { scan with preambleLines := scan.preambleLines ++ [line] }
  else { scan with currentBlock := scan.currentBlock ++ [line] }

def mergeWithExistingSshConfig (existingContent : JsString) (managedHosts : List Host) (allHosts : Option (List Host)) :
    Checked JsString := do
  let lines := PtyExec.splitLines existingContent
  let scan := (lines.foldl (readMergeLine toLowerCase managedHostnameSet) ⟨[], [], false, [], [], false⟩).flush
    toLowerCase managedHostnameSet
  let managedContent ← serializeHostsToSshConfig toLowerCase managedHosts allHosts
  let managedBlock := wrapManaged managedContent ++ [lineFeed]
  let preserved := joinBlocks scan.preservedBlocks
  let preamble := joinLines scan.preambleLines
  return joinBlocks ((if (trim preamble).isEmpty then [] else [preamble]) ++
    (if (trim preserved).isEmpty then [] else [preserved]) ++ [managedBlock])

def managedNames (host : Host) : Checked (List JsString) := do
  let names := if isSafeSshHostMatchLiteral host.hostname then [toLowerCase host.hostname] else []
  if host.label.isEmpty then return names
  else do
    let name ← toSafeSshHostAlias host.label host.hostname
    return names ++ [toLowerCase name]

def managedRange (existingContent : JsString) : Option (ℕ × ℕ) :=
  (indexOf MANAGED_BLOCK_BEGIN existingContent).bind fun beginIndex =>
    (indexOf MANAGED_BLOCK_END existingContent).bind fun endIndex =>
      if endIndex < beginIndex then none else some (beginIndex, endIndex)

def mergeWithExistingContent (existingContent : JsString) (managedHosts allHosts : List Host) : Checked JsString := do
  let managedContent ← serializeHostsToSshConfig toLowerCase managedHosts (some allHosts)
  if existingContent.isEmpty then return wrapManaged managedContent ++ [lineFeed]
  else
    match managedRange existingContent with
    | none => do
      let names ← (managedHosts.filter isSshHost).mapM (managedNames toLowerCase)
      mergeWithExistingSshConfig toLowerCase names.flatten existingContent managedHosts (some allHosts)
    | some (beginIndex, endIndex) =>
      return existingContent.take beginIndex ++ wrapManaged managedContent ++
        existingContent.drop (endIndex + MANAGED_BLOCK_END.length)

/-! ## Sections -/

/-- A Host or Match line, and the lines up to the next one. -/
structure ConfigSection where
  header : JsString
  body : List JsString

variable (part : ConfigSection)

def ConfigSection.lines : List JsString := part.header :: part.body

/-- Whether a line starts a section. -/
def IsHeader (line : JsString) : Prop :=
  lineKeyword toLowerCase line = some (text "host") ∨ lineKeyword toLowerCase line = some (text "match")

def unmanagedHeader : JsString :=
  text "Host " ++ [space].intercalate (nonManagedPatterns toLowerCase managedHostnameSet (configTokens part.header).tail)

def IsManaged : Prop :=
  lineKeyword toLowerCase part.header ≠ some (text "match") ∧
    ∃ pattern ∈ (configTokens part.header).tail, toLowerCase pattern ∈ managedHostnameSet

/-- Some patterns of the section are not. -/
def IsUnmanaged : Prop :=
  ∃ pattern ∈ (configTokens part.header).tail, toLowerCase pattern ∉ managedHostnameSet

open Classical in
/-- What is left of a section: all its lines, all but for the managed patterns, or nothing. -/
noncomputable def keptLines : Option (List JsString) :=
  if ¬IsManaged toLowerCase managedHostnameSet part then some part.lines
  else if IsUnmanaged toLowerCase managedHostnameSet part then
    some (unmanagedHeader toLowerCase managedHostnameSet part :: part.body)
  else none

/-- The lines of a file, taken apart. -/
structure Sections (lines preamble : List JsString) (parts : List ConfigSection) : Prop where
  whole : lines = preamble ++ parts.flatMap ConfigSection.lines
  preamble : ∀ line ∈ preamble, ¬IsHeader toLowerCase line
  header : ∀ part ∈ parts, IsHeader toLowerCase part.header
  body : ∀ part ∈ parts, ∀ line ∈ part.body, ¬IsHeader toLowerCase line

/-- The texts of what is left of the sections. -/
noncomputable def keptBlocks (parts : List ConfigSection) : List JsString :=
  (parts.filterMap (keptLines toLowerCase managedHostnameSet)).map joinLines

/-- The state of the loop when it has read these lines. -/
inductive MergeScan.Fits : List JsString → List ConfigSection → MergeScan → Prop where
  | before (preamble : List JsString) : Fits preamble [] ⟨[], preamble, false, [], [], false⟩
  | inside (preamble : List JsString) (parts : List ConfigSection) (part : ConfigSection)
      (header : IsHeader toLowerCase part.header) :
      Fits preamble (parts ++ [part]) {
        preservedBlocks := keptBlocks toLowerCase managedHostnameSet parts
        preambleLines := preamble
        seenFirstBlock := true
        currentBlock := part.lines
        currentHostPatterns :=
          if lineKeyword toLowerCase part.header = some (text "match") then [] else (configTokens part.header).tail
        isMatchBlock := lineKeyword toLowerCase part.header = some (text "match") }

variable {toLowerCase managedHostnameSet} {preamble : List JsString} {parts : List ConfigSection} {part : ConfigSection}
  {scan : MergeScan}

theorem keptBlocks_concat : keptBlocks toLowerCase managedHostnameSet (parts ++ [part]) =
    keptBlocks toLowerCase managedHostnameSet parts ++
      ((keptLines toLowerCase managedHostnameSet part).map joinLines).toList := by
  unfold keptBlocks
  rw [filterMap_append, map_append]
  cases kept : keptLines toLowerCase managedHostnameSet part with
  | none => rw [filterMap_cons_none kept]; rfl
  | some lines => rw [filterMap_cons_some kept]; rfl

/-- Closing a section keeps what is to be kept of it. -/
theorem flush_fits (fits : scan.Fits toLowerCase managedHostnameSet preamble parts) :
    scan.flush toLowerCase managedHostnameSet =
      ⟨keptBlocks toLowerCase managedHostnameSet parts, preamble, !parts.isEmpty, [], [], false⟩ := by
  cases fits with
  | before => rfl
  | inside parts part header =>
    have seen : (!(parts ++ [part]).isEmpty) = true := by
      rw [not_eq_true', isEmpty_eq_false_iff]
      exact append_ne_nil_of_right_ne_nil _ (cons_ne_nil _ _)
    rw [keptBlocks_concat, seen]
    unfold MergeScan.flush
    rw [ConfigSection.lines, isEmpty_cons, if_neg Bool.false_ne_true]
    by_cases match_ : lineKeyword toLowerCase part.header = some (text "match")
    · have whole : keptLines toLowerCase managedHostnameSet part = some part.lines :=
        if_pos fun managed => managed.1 match_
      simp only [match_, decide_true, ↓reduceIte, whole, map_some, toList_some, ConfigSection.lines]
    · simp only [match_, decide_false, false_eq_true, ↓reduceIte, tail_cons]
      by_cases managed : IsManaged toLowerCase managedHostnameSet part
      · have fewer : (nonManagedPatterns toLowerCase managedHostnameSet (configTokens part.header).tail).length ≠
            (configTokens part.header).tail.length := by
          rw [nonManagedPatterns, Ne, length_filter_eq_length_iff]
          obtain ⟨-, pattern, mem, own⟩ := managed
          exact fun all => of_decide_eq_true (all pattern mem) own
        rw [if_neg fewer]
        by_cases unmanaged : IsUnmanaged toLowerCase managedHostnameSet part
        · have some_ : 0 < (nonManagedPatterns toLowerCase managedHostnameSet (configTokens part.header).tail).length := by
            obtain ⟨pattern, mem, other⟩ := unmanaged
            exact length_pos_of_mem (mem_filter.mpr ⟨mem, decide_eq_true other⟩)
          rw [if_pos some_, keptLines, if_neg (not_not.mpr managed), if_pos unmanaged]
          rfl
        · have none_ : ¬0 < (nonManagedPatterns toLowerCase managedHostnameSet (configTokens part.header).tail).length := by
            rw [length_pos_iff_exists_mem]
            rintro ⟨pattern, mem⟩
            obtain ⟨mem, other⟩ := mem_filter.mp mem
            exact unmanaged ⟨pattern, mem, of_decide_eq_true other⟩
          rw [if_neg none_, keptLines, if_neg (not_not.mpr managed), if_neg unmanaged]
          exact congrArg (MergeScan.mk · preamble true [] [] false) (append_nil _).symm
      · have same : (nonManagedPatterns toLowerCase managedHostnameSet (configTokens part.header).tail).length =
            (configTokens part.header).tail.length := by
          rw [nonManagedPatterns, length_filter_eq_length_iff]
          intro pattern mem
          rw [decide_eq_true_eq]
          exact fun own => managed ⟨match_, pattern, mem, own⟩
        rw [if_pos same, keptLines, if_pos managed]
        rfl

theorem fits_readMergeLine {lines : List JsString} (fits : scan.Fits toLowerCase managedHostnameSet preamble parts)
    (taken : Sections toLowerCase lines preamble parts) (line : JsString) :
    ∃ preamble' parts', (readMergeLine toLowerCase managedHostnameSet scan line).Fits toLowerCase managedHostnameSet
      preamble' parts' ∧ Sections toLowerCase (lines ++ [line]) preamble' parts' := by
  have opened (header : IsHeader toLowerCase line) : Sections toLowerCase (lines ++ [line]) preamble
      (parts ++ [⟨line, []⟩]) := by
    refine ⟨?_, taken.preamble, ?_, ?_⟩
    · rw [taken.whole, flatMap_append, append_assoc]
      rfl
    · intro part mem
      rcases mem_append.mp mem with mem | mem
      · exact taken.header part mem
      · exact mem_singleton.mp mem ▸ header
    · intro part mem
      rcases mem_append.mp mem with mem | mem
      · exact taken.body part mem
      · exact mem_singleton.mp mem ▸ fun _ mem => (not_mem_nil mem).elim
  unfold readMergeLine
  rw [flush_fits fits]
  dsimp only
  by_cases host : lineKeyword toLowerCase line = some (text "host")
  · rw [if_pos host]
    refine ⟨preamble, parts ++ [⟨line, []⟩], ?_, opened (.inl host)⟩
    have match_ : lineKeyword toLowerCase line ≠ some (text "match") := by
      rw [host]
      decide
    have opens : MergeScan.Fits toLowerCase managedHostnameSet preamble (parts ++ [⟨line, []⟩]) _ :=
      .inside preamble parts ⟨line, []⟩ (.inl host)
    rw [if_neg match_, decide_eq_false match_] at opens
    exact opens
  rw [if_neg host]
  by_cases match_ : lineKeyword toLowerCase line = some (text "match")
  · rw [if_pos match_]
    refine ⟨preamble, parts ++ [⟨line, []⟩], ?_, opened (.inr match_)⟩
    have opens : MergeScan.Fits toLowerCase managedHostnameSet preamble (parts ++ [⟨line, []⟩]) _ :=
      .inside preamble parts ⟨line, []⟩ (.inr match_)
    rw [if_pos match_, decide_eq_true match_] at opens
    exact opens
  rw [if_neg match_]
  have plain : ¬IsHeader toLowerCase line := fun header => header.elim host match_
  cases fits with
  | before =>
    refine ⟨preamble ++ [line], [], .before _, ⟨?_, ?_, taken.header, taken.body⟩⟩
    · rw [taken.whole, flatMap_nil, append_nil, append_nil]
    · intro other mem
      rcases mem_append.mp mem with mem | mem
      · exact taken.preamble other mem
      · exact mem_singleton.mp mem ▸ plain
  | inside parts part header =>
    refine ⟨preamble, parts ++ [⟨part.header, part.body ++ [line]⟩],
      .inside preamble parts ⟨part.header, part.body ++ [line]⟩ header, ⟨?_, taken.preamble, ?_, ?_⟩⟩
    · rw [taken.whole]
      simp only [flatMap_append, flatMap_singleton, ConfigSection.lines, append_assoc, cons_append]
    · intro other mem
      rcases mem_append.mp mem with mem | mem
      · exact taken.header other (mem_append_left _ mem)
      · exact mem_singleton.mp mem ▸ header
    · intro other mem
      rcases mem_append.mp mem with mem | mem
      · exact taken.body other (mem_append_left _ mem)
      · obtain rfl := mem_singleton.mp mem
        intro inner mem
        rcases mem_append.mp mem with mem | mem
        · exact taken.body part (mem_append_right _ (mem_singleton_self _)) inner mem
        · exact mem_singleton.mp mem ▸ plain

theorem exists_sections (lines : List JsString) : ∃ preamble parts,
    (lines.foldl (readMergeLine toLowerCase managedHostnameSet) ⟨[], [], false, [], [], false⟩).Fits toLowerCase
      managedHostnameSet preamble parts ∧ Sections toLowerCase lines preamble parts := by
  induction lines using List.reverseRecOn with
  | nil =>
    exact ⟨[], [], .before [], rfl, fun _ mem => (not_mem_nil mem).elim, fun _ mem => (not_mem_nil mem).elim,
      fun _ mem => (not_mem_nil mem).elim⟩
  | append_singleton lines line ih =>
    obtain ⟨preamble, parts, fits, taken⟩ := ih
    rw [foldl_append, foldl_cons, foldl_nil]
    exact fits_readMergeLine fits taken line

/-! ## What is written outside the markers -/

open KnownHosts (IsBlank)

/-- Each preserved text with a blank line behind it: the preamble, unless it is blank, and what is left of the sections. -/
noncomputable def outsideText (toLowerCase : JsString → JsString) (managedHostnameSet preamble : List JsString)
    (parts : List ConfigSection) : JsString :=
  ((if (trim (joinLines preamble)).isEmpty then [] else [joinLines preamble]) ++
    keptBlocks toLowerCase managedHostnameSet parts).flatMap (· ++ [lineFeed, lineFeed])

theorem joinBlocks_concat (blocks : List JsString) (last : JsString) :
    joinBlocks (blocks ++ [last]) = blocks.flatMap (· ++ [lineFeed, lineFeed]) ++ last := by
  induction blocks with
  | nil => exact intercalate_singleton
  | cons block blocks ih =>
    rw [joinBlocks] at ih ⊢
    rw [cons_append, intercalate_cons_of_ne_nil (append_ne_nil_of_right_ne_nil _ (cons_ne_nil _ _)),
      ih, flatMap_cons, append_assoc, append_assoc, append_assoc]

theorem flatMap_joinBlocks {blocks : List JsString} (some_ : blocks ≠ []) :
    [joinBlocks blocks].flatMap (· ++ [lineFeed, lineFeed]) = blocks.flatMap (· ++ [lineFeed, lineFeed]) := by
  obtain ⟨init, last, rfl⟩ := (eq_nil_or_concat' blocks).resolve_left some_
  rw [joinBlocks_concat, flatMap_singleton, flatMap_append, flatMap_singleton, append_assoc]

theorem mem_of_mem_stripComment {unit : Fin 65536} {line : JsString} (mem : unit ∈ stripComment line) : unit ∈ line := by
  rcases mem_append.mp mem with mem | mem
  · exact (List.takeWhile_prefix _).subset mem
  · exact (dropWhile_suffix _).subset ((dropWhile_suffix _).subset mem)

theorem solid_of_header {line : JsString} (header : IsHeader toLowerCase line) :
    ∃ unit ∈ line, isWhiteSpace unit = false := by
  by_contra none_
  have blank : trim (stripComment line) = [] := KnownHosts.trim_of_blank fun unit mem => by
    by_contra solid
    exact none_ ⟨unit, mem_of_mem_stripComment mem, not_eq_true _ ▸ solid⟩
  have tokens : lineKeyword toLowerCase line = none := by
    rw [lineKeyword, configTokens, blank]
    rfl
  rw [IsHeader, tokens] at header
  exact header.elim (fun same => by cases same) fun same => by cases same

theorem trim_ne_nil {s : JsString} (solid : ∃ unit ∈ s, isWhiteSpace unit = false) : trim s ≠ [] := by
  intro none_
  obtain ⟨a, b, before, after, whole, -⟩ := KnownHosts.trim_spec s
  obtain ⟨unit, mem, solid⟩ := solid
  rw [whole, none_, nil_append] at mem
  rcases mem_append.mp mem with mem | mem
  · rw [before unit mem] at solid
    cases solid
  · rw [after unit mem] at solid
    cases solid

theorem mem_intercalate_of_mem {unit : Fin 65536} {separator part : JsString} {texts : List JsString}
    (held : part ∈ texts) (mem : unit ∈ part) : unit ∈ separator.intercalate texts := by
  induction texts with
  | nil => cases held
  | cons first rest ih =>
    cases rest with
    | nil =>
      rw [intercalate_singleton]
      exact mem_singleton.mp held ▸ mem
    | cons next rest =>
      rw [intercalate_cons_cons]
      rcases mem_cons.mp held with rfl | held
      · exact mem_append_left _ (mem_append_left _ mem)
      · exact mem_append_right _ (ih held)

/-- What is left of a section starts with a line that is not blank. -/
theorem solid_of_keptBlocks {block : JsString} (headers : ∀ part ∈ parts, IsHeader toLowerCase part.header)
    (mem : block ∈ keptBlocks toLowerCase managedHostnameSet parts) : ∃ unit ∈ block, isWhiteSpace unit = false := by
  obtain ⟨lines, kept_mem, rfl⟩ := List.mem_map.mp mem
  obtain ⟨part, held, kept⟩ := mem_filterMap.mp kept_mem
  unfold keptLines at kept
  split at kept
  · cases kept
    obtain ⟨unit, mem, solid⟩ := solid_of_header (headers part held)
    exact ⟨unit, mem_intercalate_of_mem mem_cons_self mem, solid⟩
  · split at kept
    · cases kept
      refine ⟨JsonText.unit 72, mem_intercalate_of_mem mem_cons_self (mem_append_left _ ?_), by decide⟩
      decide
    · cases kept

theorem mergeWithExistingSshConfig_eq {existingContent managedContent : JsString} {managedHosts : List Host}
    {allHosts : Option (List Host)}
    (serialized : serializeHostsToSshConfig toLowerCase managedHosts allHosts = .ok managedContent) :
    ∃ preamble parts, Sections toLowerCase (PtyExec.splitLines existingContent) preamble parts ∧
      mergeWithExistingSshConfig toLowerCase managedHostnameSet existingContent managedHosts allHosts =
        .ok (outsideText toLowerCase managedHostnameSet preamble parts ++ (wrapManaged managedContent ++ [lineFeed])) := by
  obtain ⟨preamble, parts, fits, taken⟩ :=
    @exists_sections toLowerCase managedHostnameSet (PtyExec.splitLines existingContent)
  refine ⟨preamble, parts, taken, ?_⟩
  unfold mergeWithExistingSshConfig
  dsimp only
  rw [flush_fits fits, serialized, ok_bind, joinBlocks_concat, outsideText, flatMap_append, flatMap_append]
  by_cases none_ : keptBlocks toLowerCase managedHostnameSet parts = []
  · rw [none_]
    rfl
  · obtain ⟨block, mem⟩ := exists_mem_of_ne_nil _ none_
    obtain ⟨unit, held, solid⟩ := solid_of_keptBlocks taken.header mem
    have filled : trim (joinBlocks (keptBlocks toLowerCase managedHostnameSet parts)) ≠ [] :=
      trim_ne_nil ⟨unit, mem_intercalate_of_mem mem held, solid⟩
    rw [if_neg fun empty => filled (List.isEmpty_iff.mp empty), flatMap_joinBlocks none_]
    rfl

end Merge

/-! ## Markers -/

/-- A text without either marker. -/
def Unmarked (s : JsString) : Prop := ¬MANAGED_BLOCK_BEGIN <:+: s ∧ ¬MANAGED_BLOCK_END <:+: s

section Markers

variable {part a b : JsString}

/-- What has no line feed does not reach from one line into the next. -/
theorem infix_of_infix_lines (feed : lineFeed ∉ part) (within : part <:+: a ++ lineFeed :: b) :
    part <:+: a ∨ part <:+: b := by
  obtain ⟨s, t, whole⟩ := within
  rcases append_eq_append_iff.mp whole with ⟨more, cut, -⟩ | ⟨more, cut, rest⟩
  · exact .inl ⟨s, more, cut.symm⟩
  cases more with
  | nil => exact .inl ⟨s, [], by rw [append_nil, cut, append_nil]⟩
  | cons unit more =>
    rw [cons_append] at rest
    obtain ⟨rfl, rfl⟩ := List.cons.inj rest
    rcases append_eq_append_iff.mp cut with ⟨more', -, rest⟩ | ⟨more', -, rest⟩
    · rw [rest] at feed
      exact absurd (mem_append_right _ mem_cons_self) feed
    · cases more' with
      | nil =>
        rw [nil_append] at rest
        exact absurd (rest ▸ mem_cons_self) feed
      | cons unit more' =>
        rw [cons_append] at rest
        obtain ⟨-, rfl⟩ := List.cons.inj rest
        exact .inr ⟨more', t, rfl⟩

theorem indexOf_append (feed : lineFeed ∉ part) (filled : part ≠ []) (absent : ¬part <:+: a)
    (ends : a = [] ∨ a.getLast? = some lineFeed) : indexOf part (a ++ (part ++ b)) = some a.length := by
  induction a with
  | nil =>
    obtain ⟨unit, rest, rfl⟩ := exists_cons_of_ne_nil filled
    rw [nil_append, cons_append, indexOf, if_pos]
    · rfl
    · exact List.isPrefixOf_iff_prefix.mpr (prefix_append _ _)
  | cons unit a ih =>
    have later : ¬part.isPrefixOf (unit :: (a ++ (part ++ b))) = true := by
      rw [List.isPrefixOf_iff_prefix]
      intro here
      have own : unit :: a <+: unit :: (a ++ (part ++ b)) := prefix_append (unit :: a) _
      rcases List.prefix_or_prefix_of_prefix here own with short | long
      · exact absent short.isInfix
      · have last := ends.resolve_left (cons_ne_nil _ _)
        exact feed (long.subset (mem_of_getLast? last))
    have ends : a = [] ∨ a.getLast? = some lineFeed := by
      cases a with
      | nil => exact .inl rfl
      | cons next a => exact .inr (ends.resolve_left (cons_ne_nil _ _))
    rw [cons_append, indexOf, if_neg later, ih (fun within => absent (within.trans (infix_cons infix_rfl))) ends]
    rfl

theorem indexOf_eq_none (absent : ¬part <:+: a) : indexOf part a = none := by
  induction a with
  | nil =>
    rw [indexOf, if_neg]
    exact fun empty => absent (List.isEmpty_iff.mp empty ▸ infix_rfl)
  | cons unit a ih =>
    rw [indexOf, if_neg, ih (fun within => absent (within.trans (infix_cons infix_rfl)))]
    · rfl
    · exact fun here => absent (List.isPrefixOf_iff_prefix.mp here).isInfix

theorem lineFeed_not_mem_markers : lineFeed ∉ MANAGED_BLOCK_BEGIN ∧ lineFeed ∉ MANAGED_BLOCK_END := by
  decide +kernel

theorem Unmarked.lines (first : Unmarked a) (second : Unmarked b) : Unmarked (a ++ lineFeed :: b) :=
  ⟨fun within => (infix_of_infix_lines lineFeed_not_mem_markers.1 within).elim first.1 second.1,
    fun within => (infix_of_infix_lines lineFeed_not_mem_markers.2 within).elim first.2 second.2⟩

theorem unmarked_nil : Unmarked [] :=
  ⟨fun within => absurd (infix_nil.mp within) (by decide), fun within => absurd (infix_nil.mp within) (by decide)⟩

theorem unmarked_joinLines {lines : List JsString} (all : ∀ line ∈ lines, Unmarked line) : Unmarked (joinLines lines) := by
  induction lines with
  | nil => exact unmarked_nil
  | cons line lines ih =>
    have own := all line mem_cons_self
    cases lines with
    | nil =>
      rw [joinLines, intercalate_singleton]
      exact own
    | cons next lines =>
      rw [joinLines, intercalate_cons_cons, append_assoc]
      exact own.lines (ih fun line mem => all line (mem_cons_of_mem _ mem))

theorem managedRange_eq {outside managedContent : JsString} (unmarked : Unmarked outside)
    (ends : outside = [] ∨ outside.getLast? = some lineFeed) (content : Unmarked managedContent)
    (contentEnds : managedContent.getLast? = some lineFeed) (rest : JsString) :
    managedRange (outside ++ wrapManaged managedContent ++ rest) =
      some (outside.length, (outside ++ MANAGED_BLOCK_BEGIN ++ [lineFeed] ++ managedContent).length) := by
  have beginIndex : indexOf MANAGED_BLOCK_BEGIN (outside ++ wrapManaged managedContent ++ rest) = some outside.length := by
    have found := indexOf_append (b := [lineFeed] ++ managedContent ++ MANAGED_BLOCK_END ++ rest)
      lineFeed_not_mem_markers.1 (by decide) unmarked.1 ends
    rw [← found, wrapManaged]
    simp only [append_assoc]
  have absent : ¬MANAGED_BLOCK_END <:+: outside ++ MANAGED_BLOCK_BEGIN ++ [lineFeed] ++ managedContent := by
    have own : ¬MANAGED_BLOCK_END <:+: MANAGED_BLOCK_BEGIN := by decide +kernel
    have first : ¬MANAGED_BLOCK_END <:+: outside ++ MANAGED_BLOCK_BEGIN := by
      rcases ends with rfl | last
      · exact own
      · obtain ⟨front, rfl⟩ := getLast?_eq_some_iff.mp last
        rw [append_assoc, singleton_append]
        intro within
        rcases infix_of_infix_lines lineFeed_not_mem_markers.2 within with within | within
        · exact unmarked.2 (within.trans (prefix_append _ _).isInfix)
        · exact own within
    rw [append_assoc _ [lineFeed], singleton_append]
    intro within
    exact (infix_of_infix_lines lineFeed_not_mem_markers.2 within).elim first content.2
  have endIndex : indexOf MANAGED_BLOCK_END (outside ++ wrapManaged managedContent ++ rest) =
      some (outside ++ MANAGED_BLOCK_BEGIN ++ [lineFeed] ++ managedContent).length := by
    have last : (outside ++ MANAGED_BLOCK_BEGIN ++ [lineFeed] ++ managedContent).getLast? = some lineFeed := by
      rw [getLast?_append, contentEnds]
      rfl
    have found := indexOf_append (b := rest) lineFeed_not_mem_markers.2 (by decide) absent (.inr last)
    rw [← found, wrapManaged]
    simp only [append_assoc]
  rw [managedRange, beginIndex, endIndex, bind_some, bind_some, if_neg]
  simp only [length_append]
  omega

theorem managedRange_eq_none (unmarked : Unmarked a) : managedRange a = none := by
  rw [managedRange, indexOf_eq_none unmarked.1]
  rfl

end Markers

/-! ## Merges -/

section Merges

variable {toLowerCase : JsString → JsString}

theorem mem_of_mapM {α β : Type} {f : α → Checked β} {items : List α} {results : List β}
    (ran : items.mapM f = .ok results) : ∀ item ∈ items, ∃ result, f item = .ok result := by
  induction items generalizing results with
  | nil => exact fun _ mem => (not_mem_nil mem).elim
  | cons item items ih =>
    rw [mapM_cons, bind_eq_ok] at ran
    obtain ⟨first, one, ran⟩ := ran
    rw [bind_eq_ok] at ran
    obtain ⟨rest, others, -⟩ := ran
    intro other mem
    rcases mem_cons.mp mem with rfl | mem
    · exact ⟨first, one⟩
    · exact ih others other mem

theorem exists_mapM {α β : Type} {f : α → Checked β} {items : List α}
    (each : ∀ item ∈ items, ∃ result, f item = .ok result) : ∃ results, items.mapM f = .ok results := by
  induction items with
  | nil => exact ⟨[], rfl⟩
  | cons item items ih =>
    obtain ⟨first, one⟩ := each item mem_cons_self
    obtain ⟨rest, others⟩ := ih fun other mem => each other (mem_cons_of_mem _ mem)
    exact ⟨first :: rest, by rw [mapM_cons, one, ok_bind, others, ok_bind, pure_eq_ok]⟩

theorem exists_names {managedHosts : List Host} {allHosts : Option (List Host)} {managedContent : JsString}
    (serialized : serializeHostsToSshConfig toLowerCase managedHosts allHosts = .ok managedContent) :
    (∃ names, (managedHosts.filter isSshHost).mapM (managedNames toLowerCase) = .ok names) ∧
      managedContent.getLast? = some lineFeed := by
  unfold serializeHostsToSshConfig at serialized
  dsimp only at serialized
  rw [bind_eq_ok] at serialized
  obtain ⟨blocks, written, serialized⟩ := serialized
  cases serialized
  refine ⟨exists_mapM fun host mem => ?_, getLast?_concat⟩
  obtain ⟨block, written⟩ := mem_of_mapM written host mem
  rw [bind_eq_ok] at written
  obtain ⟨lines, written, -⟩ := written
  unfold hostLines at written
  rw [check_bind_eq_ok, check_bind_eq_ok, check_bind_eq_ok, bind_eq_ok] at written
  obtain ⟨-, -, -, name, named, -⟩ := written
  unfold managedNames
  dsimp only
  rw [named]
  split
  · exact ⟨_, rfl⟩
  · exact ⟨_, rfl⟩

theorem later_merge {outside managedContent : JsString} {hosts allHosts : List Host} {next : JsString}
    (unmarked : Unmarked outside) (ends : outside = [] ∨ outside.getLast? = some lineFeed) (content : Unmarked managedContent)
    (contentEnds : managedContent.getLast? = some lineFeed)
    (serialized : serializeHostsToSshConfig toLowerCase hosts (some allHosts) = .ok next) :
    mergeWithExistingContent toLowerCase (outside ++ wrapManaged managedContent ++ [lineFeed]) hosts allHosts =
      .ok (outside ++ wrapManaged next ++ [lineFeed]) := by
  have filled : (outside ++ wrapManaged managedContent ++ [lineFeed]).isEmpty = false :=
    isEmpty_eq_false_iff.mpr (append_ne_nil_of_right_ne_nil _ (cons_ne_nil _ _))
  have front : (outside ++ wrapManaged managedContent ++ [lineFeed]).take outside.length = outside := by
    rw [append_assoc, take_left]
  have back : (outside ++ wrapManaged managedContent ++ [lineFeed]).drop
      ((outside ++ MANAGED_BLOCK_BEGIN ++ [lineFeed] ++ managedContent).length + MANAGED_BLOCK_END.length) =
      [lineFeed] := by
    have whole : outside ++ wrapManaged managedContent ++ [lineFeed] =
        (outside ++ MANAGED_BLOCK_BEGIN ++ [lineFeed] ++ managedContent ++ MANAGED_BLOCK_END) ++ [lineFeed] := by
      rw [wrapManaged]
      simp only [append_assoc]
    rw [whole, ← length_append, drop_left]
  unfold mergeWithExistingContent
  rw [serialized, ok_bind, filled, if_neg Bool.false_ne_true, managedRange_eq unmarked ends content contentEnds]
  dsimp only
  rw [front, back]
  rfl

theorem outsideText_empty {managedHostnameSet preamble : List JsString} {parts : List ConfigSection}
    (taken : Sections toLowerCase [[]] preamble parts) : outsideText toLowerCase managedHostnameSet preamble parts = [] := by
  have whole := taken.whole
  cases parts with
  | cons part parts =>
    have mem : part.header ∈ preamble ++ (part :: parts).flatMap ConfigSection.lines :=
      mem_append_right _ (mem_flatMap.mpr ⟨part, mem_cons_self, mem_cons_self⟩)
    rw [← whole, mem_singleton] at mem
    obtain ⟨unit, held, -⟩ := solid_of_header (taken.header part mem_cons_self)
    rw [mem] at held
    cases held
  | nil =>
    rw [flatMap_nil, append_nil] at whole
    rw [← whole]
    rfl

theorem first_merge {existingContent managedContent : JsString} {managedHosts allHosts : List Host}
    (unmarked : Unmarked existingContent)
    (serialized : serializeHostsToSshConfig toLowerCase managedHosts (some allHosts) = .ok managedContent) :
    ∃ names preamble parts, (managedHosts.filter isSshHost).mapM (managedNames toLowerCase) = .ok names ∧
      Sections toLowerCase (PtyExec.splitLines existingContent) preamble parts ∧
      mergeWithExistingContent toLowerCase existingContent managedHosts allHosts =
        .ok (outsideText toLowerCase names.flatten preamble parts ++ wrapManaged managedContent ++ [lineFeed]) := by
  obtain ⟨⟨names, named⟩, -⟩ := exists_names serialized
  obtain ⟨preamble, parts, taken, merged⟩ := @mergeWithExistingSshConfig_eq _ names.flatten
    existingContent _ _ _ serialized
  refine ⟨names, preamble, parts, named, taken, ?_⟩
  unfold mergeWithExistingContent
  rw [serialized, ok_bind]
  split
  · rename_i empty
    obtain rfl := List.isEmpty_iff.mp empty
    rw [outsideText_empty taken]
    rfl
  · rw [managedRange_eq_none unmarked]
    dsimp only
    rw [named, ok_bind, merged, append_assoc]

theorem unmarked_outsideText {existingContent : JsString} {managedHostnameSet preamble : List JsString}
    {parts : List ConfigSection} (unmarked : Unmarked existingContent)
    (taken : Sections toLowerCase (PtyExec.splitLines existingContent) preamble parts)
    (headers : ∀ part ∈ parts, IsManaged toLowerCase managedHostnameSet part →
      IsUnmanaged toLowerCase managedHostnameSet part → Unmarked (unmanagedHeader toLowerCase managedHostnameSet part)) :
    Unmarked (outsideText toLowerCase managedHostnameSet preamble parts) ∧
      (outsideText toLowerCase managedHostnameSet preamble parts = [] ∨
        (outsideText toLowerCase managedHostnameSet preamble parts).getLast? = some lineFeed) := by
  have line {line : JsString} (mem : line ∈ preamble ++ parts.flatMap ConfigSection.lines) : Unmarked line := by
    have within := PtyExec.infix_of_mem_splitLines (taken.whole ▸ mem)
    exact ⟨fun marker => unmarked.1 (marker.trans within), fun marker => unmarked.2 (marker.trans within)⟩
  have body {part : ConfigSection} (mem : part ∈ parts) {inner : JsString} (held : inner ∈ part.lines) : Unmarked inner :=
    line (mem_append_right _ (mem_flatMap.mpr ⟨part, mem, held⟩))
  have blocks : ∀ block ∈ (if (trim (joinLines preamble)).isEmpty then [] else [joinLines preamble]) ++
      keptBlocks toLowerCase managedHostnameSet parts, Unmarked block := by
    intro block mem
    rcases mem_append.mp mem with mem | mem
    · split at mem
      · cases mem
      · rw [mem_singleton.mp mem]
        exact unmarked_joinLines fun inner held => line (mem_append_left _ held)
    · obtain ⟨lines, kept_mem, rfl⟩ := List.mem_map.mp mem
      obtain ⟨part, held, kept⟩ := mem_filterMap.mp kept_mem
      refine unmarked_joinLines fun inner mem => ?_
      unfold keptLines at kept
      split at kept
      · cases kept
        exact body held mem
      · rename_i managed
        split at kept
        · rename_i unmanaged
          cases kept
          rcases mem_cons.mp mem with rfl | mem
          · exact headers part held (not_not.mp managed) unmanaged
          · exact body held (mem_cons_of_mem _ mem)
        · cases kept
  unfold outsideText
  generalize (if (trim (joinLines preamble)).isEmpty then [] else [joinLines preamble]) ++
    keptBlocks toLowerCase managedHostnameSet parts = texts at blocks
  refine ⟨?_, ?_⟩
  · induction texts with
    | nil => exact unmarked_nil
    | cons first texts ih =>
      rw [flatMap_cons, append_assoc]
      exact (blocks first mem_cons_self).lines
        (unmarked_nil.lines (ih fun block mem => blocks block (mem_cons_of_mem _ mem)))
  · rcases texts.eq_nil_or_concat' with rfl | ⟨init, last, rfl⟩
    · exact .inl rfl
    · refine .inr ?_
      rw [flatMap_append, flatMap_singleton, getLast?_append, getLast?_append]
      rfl

/-- The sections of the file stay as they are, but for their managed patterns, and what is managed
stands between the markers behind them.  Later merges, in any number, change only that: the file
is as if the last one had been the first. -/
theorem merges_keep_the_file (toLowerCase : JsString → JsString) (existingContent : JsString)
    (managedHosts allHosts : List Host) (managedContent : JsString) (unmarked : Unmarked existingContent)
    (serialized : serializeHostsToSshConfig toLowerCase managedHosts (some allHosts) = .ok managedContent) :
    ∃ names preamble parts, (managedHosts.filter isSshHost).mapM (managedNames toLowerCase) = .ok names ∧
      Sections toLowerCase (PtyExec.splitLines existingContent) preamble parts ∧
      let outside := outsideText toLowerCase names.flatten preamble parts
      mergeWithExistingContent toLowerCase existingContent managedHosts allHosts =
        .ok (outside ++ wrapManaged managedContent ++ [lineFeed]) ∧
      (Unmarked managedContent →
        (∀ part ∈ parts, IsManaged toLowerCase names.flatten part → IsUnmanaged toLowerCase names.flatten part →
          Unmarked (unmanagedHeader toLowerCase names.flatten part)) →
        ∀ (later : List (List Host × List Host)) (hosts : List Host × List Host) (next : JsString),
          (∀ hosts ∈ later, ∃ between, serializeHostsToSshConfig toLowerCase hosts.1 (some hosts.2) = .ok between ∧
            Unmarked between) →
          serializeHostsToSshConfig toLowerCase hosts.1 (some hosts.2) = .ok next →
          (later ++ [hosts]).foldlM (fun content hosts => mergeWithExistingContent toLowerCase content hosts.1 hosts.2)
              (outside ++ wrapManaged managedContent ++ [lineFeed]) =
            .ok (outside ++ wrapManaged next ++ [lineFeed])) := by
  obtain ⟨names, preamble, parts, named, taken, merged⟩ := first_merge unmarked serialized
  refine ⟨names, preamble, parts, named, taken, merged, fun content headers later hosts next between last => ?_⟩
  obtain ⟨outside, ends⟩ := unmarked_outsideText unmarked taken headers
  have contentEnds := (exists_names serialized).2
  clear serialized merged
  generalize outsideText toLowerCase names.flatten preamble parts = outsideText at outside ends
  induction later generalizing managedContent with
  | nil =>
    rw [nil_append, foldlM_cons, later_merge outside ends content contentEnds last]
    rfl
  | cons first later ih =>
    obtain ⟨written, ran, plain⟩ := between first mem_cons_self
    rw [cons_append, foldlM_cons, later_merge outside ends content contentEnds ran, ok_bind]
    exact ih written plain (fun hosts mem => between hosts (mem_cons_of_mem _ mem)) (exists_names ran).2

/-- A file with a comment, a managed pattern and one of the user's own. -/
def sharedFile : JsString := text "# mine\nHost box web\n  Port 2"

def boxHost : Host := plainHost (text "1") (text "box") [] none

theorem merges_keep_shared_file :
    ∃ preamble parts, Sections (List.map asciiLower) (PtyExec.splitLines sharedFile) preamble parts ∧
      mergeWithExistingContent (List.map asciiLower) sharedFile [boxHost] [boxHost] =
        .ok (outsideText (List.map asciiLower) [text "box", text "box"] preamble parts ++
          wrapManaged (text "Host box\n") ++ [lineFeed]) := by
  have unmarked : Unmarked sharedFile := by
    unfold Unmarked
    decide +kernel
  have serialized : serializeHostsToSshConfig (List.map asciiLower) [boxHost] (some [boxHost]) = .ok (text "Host box\n") := by
    decide +kernel
  obtain ⟨names, preamble, parts, named, taken, merged, -⟩ :=
    merges_keep_the_file (List.map asciiLower) sharedFile [boxHost] [boxHost] _ unmarked serialized
  have all : ([boxHost].filter isSshHost).mapM (managedNames (List.map asciiLower)) =
      .ok [[text "box", text "box"]] := by
    decide +kernel
  obtain rfl := Except.ok.inj (named.symm.trans all)
  exact ⟨preamble, parts, taken, merged⟩

/-- The two blank lines before the first block are the preamble, and they are dropped. -/
theorem blank_preamble_is_dropped :
    PtyExec.splitLines (text "\n\nHost web") = [[], [], text "Host web"] ∧
    mergeWithExistingContent (List.map asciiLower) (text "\n\nHost web") [] [] =
      .ok (text "Host web\n\n# BEGIN NETCATTY MANAGED - DO NOT EDIT THIS BLOCK\n\n# END NETCATTY MANAGED\n") := by
  decide +kernel

end Merges

end Netcatty.VaultImport
