import Netcatty.ScpStreams

/-!
What a receiver reads of the items a sender wrote.

The name of an item comes back with its lone surrogates replaced and its leading
white space swallowed by the `\s+` before `(.*)`, and not at all when what is left
holds a line terminator, for `.` does not match one.  A name without any of these
comes back as it was.
-/

namespace Netcatty.Scp

open List Option

open UnicodeText (encode decode toWellFormed IsAscii)

/-! ## Items -/

inductive ScpItem where
  | directory (mode : ℕ) (name : JsString)
  | file (mode : ℕ) (name : JsString) (content : Bytes)
  | endDirectory

namespace ScpItem

/-- The modes are those of `0o7777`. -/
def HasMode : ScpItem → Prop
  | directory mode _ => mode ≤ 0o7777
  | file mode _ _ => mode ≤ 0o7777
  | endDirectory => True

/-- What the sender writes for the item. -/
def encoded : ScpItem → ScpChecked Bytes
  | directory mode name => buildDirectoryControlLine mode name
  | file mode name content => do
    let line ← buildFileControlLine mode content.length name
    return line ++ (content ++ [0])
  | endDirectory => .ok buildEndDirectoryLine

end ScpItem

def encodeItems : List ScpItem → ScpChecked Bytes
  | [] => .ok []
  | item :: items => do
    let first ← item.encoded
    let rest ← encodeItems items
    return first ++ rest

def assemble : Option (PendingFile × Bytes) → List ScpEvent → Option (List ScpItem)
  | none, [] => some []
  | none, .directory mode name :: events =>
    (assemble none events).map (.directory mode name :: ·)
  | none, .endDirectory :: events => (assemble none events).map (.endDirectory :: ·)
  | none, .fileStart file :: events => assemble (some (file, [])) events
  | some (file, content), .fileData data :: events => assemble (some (file, content ++ data)) events
  | some (file, content), .fileEnd ended :: events =>
    if ended = file ∧ content.length = file.size then
      (assemble none events).map (.file file.mode file.name content :: ·)
    else none
  | _, _ => none

def itemsOf (events : List ScpEvent) : Option (List ScpItem) :=
  assemble none (events.flatMap bytewise)

/-- The parser reads exactly these items from the chunks, and `finish` succeeds. -/
def Yields (chunks : List Bytes) (items : List ScpItem) : Prop :=
  ∃ fed, createSourceStreamParser.feedAll chunks = .ok fed ∧ itemsOf fed.1 = some items ∧
    fed.2.finish = .ok ()

/-! ## Numerals -/

variable {mode : ℕ}

theorem normalizeModeOctal_eq (bound : mode ≤ 0o7777) : normalizeModeOctal mode =
      List.replicate (4 - (Nat.toDigits 8 mode).length) digitZero ++
        (Nat.toDigits 8 mode).flatMap codeUnits := by
  have positive : ¬ (mode : ℤ) < 0 := by omega
  have masked : ((mode : ℤ) % 4096).toNat = mode := by omega
  simp only [normalizeModeOctal, if_neg positive, masked]
  rw [length_digits (by decide) (by decide)]

theorem length_normalizeModeOctal (bound : mode ≤ 0o7777) :
    (normalizeModeOctal mode).length = 4 := by
  have short := (Nat.length_toDigits_le_iff (b := 8) (n := mode) (by decide) (k := 4)
    (by decide)).mpr (by omega)
  rw [normalizeModeOctal_eq bound, length_append, length_replicate,
    length_digits (by decide) (by decide)]
  omega

theorem parseDigits_normalizeModeOctal (bound : mode ≤ 0o7777) :
    parseDigits 8 (normalizeModeOctal mode) = mode := by
  rw [normalizeModeOctal_eq bound]
  exact parseDigits_zeros (by decide) (by decide) _

theorem mem_normalizeModeOctal (bound : mode ≤ 0o7777) {u : Fin 65536}
    (mem : u ∈ normalizeModeOctal mode) : isOctalDigit u := by
  rw [normalizeModeOctal_eq bound, mem_append] at mem
  rcases mem with mem | mem
  · rw [eq_of_mem_replicate mem]
    rfl
  · have := mem_digits (by decide) (by decide) mem
    simp only [isOctalDigit, Bool.and_eq_true, decide_eq_true_eq]
    omega

/-! ## Control lines -/

/-- A control line up to its name. -/
def header (kind : String) (mode : ℤ) (size : ℕ) : JsString :=
  text kind ++ (normalizeModeOctal mode ++ (text " " ++ (decimal size ++ text " ")))

theorem fileHeader_eq (mode : ℤ) (size : ℕ) : fileHeader mode size = header "C" mode size := rfl

theorem directoryHeader_eq (mode : ℤ) : directoryHeader mode = header "D" mode 0 := by
  have zero : decimal 0 = text "0" := by decide
  rw [directoryHeader, header, zero]

theorem isDigit_octal {u : Fin 65536} (digit : isOctalDigit u) : isDigit u := by
  simp only [isOctalDigit, isDigit, Bool.and_eq_true, decide_eq_true_eq] at digit ⊢
  omega

/-- What `.*` is left with. -/
def bareName (name : JsString) : JsString := name.dropWhile isWhiteSpace

/-- The expression takes a control line apart, unless the name holds a line
terminator behind its leading white space. -/
theorem matchControlLine_header {kind : Fin 65536} (letter : kind.val = 67 ∨ kind.val = 68)
    {mode : ℕ} (bound : mode ≤ 0o7777) (size : ℕ) (name : JsString) :
    matchControlLine (kind :: (normalizeModeOctal mode ++
      (text " " ++ (decimal size ++ (text " " ++ name))))) =
      if (bareName name).any isLineTerminator then none
      else some ⟨kind.val = 67, normalizeModeOctal mode, decimal size, bareName name⟩ := by
  have blank : text " " = [⟨32, by decide⟩] := by decide
  have mode' := takeWhile_stop (p := isOctalDigit) (a := normalizeModeOctal mode)
    (b := text " " ++ (decimal size ++ (text " " ++ name))) (fun u mem => mem_normalizeModeOctal bound mem)
    (by
      intro u first
      rw [blank] at first
      obtain rfl := Option.some.inj first
      decide)
  have allWhite : ∀ u ∈ text " ", isWhiteSpace u = true := by
    rw [blank]
    intro u mem
    rw [mem_singleton.mp mem]
    rfl
  have gap := takeWhile_stop (p := isWhiteSpace) (a := text " ")
    (b := decimal size ++ (text " " ++ name)) allWhite (by
      intro u first
      rw [head?_append_of_ne_nil _ (decimal_ne_nil size)] at first
      exact isWhiteSpace_digit (mem_decimal_isDigit (mem_of_mem_head? first)))
  have size' := takeWhile_stop (p := isDigit) (a := decimal size) (b := text " " ++ name)
    (fun u mem => mem_decimal_isDigit mem) (by
      intro u first
      rw [blank] at first
      obtain rfl := Option.some.inj first
      decide)
  have rest : (text " " ++ name).dropWhile isWhiteSpace = bareName name := by
    rw [dropWhile_append_of_pos allWhite]
    rfl
  have white : ∀ s : JsString, (text " " ++ s).head?.any isWhiteSpace = true := by
    intro s
    rw [blank]
    rfl
  have length := length_normalizeModeOctal bound
  simp only [matchControlLine, mode'.1, mode'.2, gap.2, size'.1, size'.2, rest, white, length]
  by_cases terminated : (bareName name).any isLineTerminator = true
  · simp [terminated]
  · simp [terminated, letter, decimal_ne_nil]

/-- What the parser makes of a decoded name. -/
def receivedName (name : JsString) : Option JsString :=
  if (bareName name).any isLineTerminator ∨ bareName name = [] ∨ (bareName name).contains slash ∨
      bareName name = text ".." ∨ bareName name = text "." then none
  else some (bareName name)

def kindLetter (isFile : Bool) : String := if isFile then "C" else "D"

def controlOf (isFile : Bool) (mode size : ℕ) (name : JsString) : ControlLine :=
  if isFile then .file mode size name else .directory mode size name

/-- The letter of `kindLetter`. -/
def kindUnit (isFile : Bool) : Fin 65536 := if isFile then ⟨67, by decide⟩ else ⟨68, by decide⟩

variable (isFile : Bool)

theorem text_kindLetter : text (kindLetter isFile) = [kindUnit isFile] := by
  cases isFile <;> decide

theorem kindUnit_known : text "E" ≠ [kindUnit isFile] ∧
    (text "E").head? ≠ some (kindUnit isFile) ∧ (text "T").head? ≠ some (kindUnit isFile) ∧
    ((text "C").head? = some (kindUnit isFile) ∨ (text "D").head? = some (kindUnit isFile)) ∧
    (kindUnit isFile).val = (if isFile then 67 else 68) := by
  cases isFile <;> decide

theorem header_append (mode : ℤ) (size : ℕ) (name : JsString) :
    header (kindLetter isFile) mode size ++ name =
      kindUnit isFile :: (normalizeModeOctal mode ++
        (text " " ++ (decimal size ++ (text " " ++ name)))) := by
  rw [header, text_kindLetter]
  simp only [append_assoc, nil_append, cons_append]

theorem parseControlText_header (bound : mode ≤ 0o7777) (size : ℕ) (name : JsString) :
    (parseControlText (header (kindLetter isFile) mode size ++ name)).toOption =
      (receivedName name).map (controlOf isFile mode size) := by
  obtain ⟨-, notEnd, notTime, known, value⟩ := kindUnit_known isFile
  have letter : (kindUnit isFile).val = 67 ∨ (kindUnit isFile).val = 68 := by
    cases isFile
    · exact Or.inr value
    · exact Or.inl value
  have found := matchControlLine_header letter bound size name
  rw [← header_append] at found
  have head : (header (kindLetter isFile) mode size ++ name).head? = some (kindUnit isFile) := by
    rw [header_append, head?_cons]
  have nonempty : header (kindLetter isFile) mode size ++ name ≠ [] := by
    rw [header_append]
    exact cons_ne_nil _ _
  have long : header (kindLetter isFile) mode size ++ name ≠ text "E" := by
    intro same
    exact notEnd (same ▸ head)
  have expected : ¬ (some (kindUnit isFile) ≠ (text "C").head? ∧
      some (kindUnit isFile) ≠ (text "D").head? ∧ some (kindUnit isFile) ≠ (text "T").head?) := by
    rintro ⟨notC, notD, -⟩
    exact known.elim (fun same => notC same.symm) (fun same => notD same.symm)
  rw [parseControlText, if_neg nonempty, if_neg long, head, if_neg expected,
    if_neg (Ne.symm notTime), found, receivedName]
  by_cases terminated : (bareName name).any isLineTerminator = true
  · rw [if_pos terminated, if_pos (Or.inl terminated)]
    rfl
  · rw [if_neg terminated]
    simp only [parseDigits_normalizeModeOctal bound, parseDigits_decimal]
    by_cases refused : bareName name = [] ∨ (bareName name).contains slash ∨ bareName name = text ".." ∨
        bareName name = text "."
    · rw [if_pos refused, if_pos (Or.inr refused)]
      rfl
    · rw [if_neg refused, if_neg (not_or.mpr ⟨terminated, refused⟩)]
      cases isFile
      · simp [value, controlOf, Except.toOption]
      · simp [value, controlOf, Except.toOption]

/-! ## Control lines as bytes -/

theorem text_blank : text " " = [⟨32, by decide⟩] := by decide

theorem header_ascii (bound : mode ≤ 0o7777) (size : ℕ) :
    ∀ u ∈ header (kindLetter isFile) mode size, IsAscii u ∧ u ≠ lineFeed := by
  have digits : ∀ u : Fin 65536, isDigit u = true → IsAscii u ∧ u ≠ lineFeed := by
    intro u digit
    simp only [isDigit, Bool.and_eq_true, decide_eq_true_eq] at digit
    refine ⟨by unfold IsAscii; omega, ?_⟩
    rintro rfl
    simp [lineFeed] at digit
  have blank : ∀ u ∈ text " ", IsAscii u ∧ u ≠ lineFeed := by
    rw [text_blank]
    intro u mem
    rw [mem_singleton.mp mem]
    exact ⟨by unfold IsAscii; decide, by decide⟩
  intro u mem
  simp only [header, mem_append] at mem
  rcases mem with mem | mem | mem | mem | mem
  · cases isFile
    · have same : u = ⟨68, by decide⟩ := mem_singleton.mp mem
      rw [same]
      exact ⟨by unfold IsAscii; decide, by decide⟩
    · have same : u = ⟨67, by decide⟩ := mem_singleton.mp mem
      rw [same]
      exact ⟨by unfold IsAscii; decide, by decide⟩
  · exact digits u (isDigit_octal (mem_normalizeModeOctal bound mem))
  · exact blank u mem
  · exact digits u (mem_decimal_isDigit mem)
  · exact blank u mem

/-- A line without a newline ends where its newline comes. -/
theorem splitLine_newline {line : Bytes} (inside : ∀ byte ∈ line, byte ≠ 0x0a) (rest : Bytes) :
    splitLine (line ++ (0x0a :: rest)) = some (line, rest) := by
  induction line with
  | nil => rfl
  | cons byte line ih =>
    rw [cons_append, splitLine, if_neg (inside byte (by simp)),
      ih fun other mem => inside other (by simp [mem])]
    rfl

theorem splitBlanks_skip {word : Bytes} (inside : ∀ byte ∈ word, byte ≠ 0x20) (count : ℕ)
    (rest : Bytes) : splitBlanks (count + 1) (word ++ (0x20 :: rest)) =
      (splitBlanks count rest).map (Prod.map (word ++ [0x20] ++ ·) id) := by
  induction word with
  | nil => rfl
  | cons byte word ih =>
    rw [cons_append, splitBlanks, if_neg (inside byte (by simp)),
      ih fun other mem => inside other (by simp [mem])]
    cases splitBlanks count rest <;> rfl

/-- The bytes of a text below 0x80. -/
def asciiBytes (s : JsString) : Bytes := s.map fun u => .ofNat u.val

theorem mem_asciiBytes {s : JsString} (digits : ∀ u ∈ s, 33 ≤ u.val ∧ u.val < 0x80) :
    ∀ byte ∈ asciiBytes s, byte ≠ 0x20 := by
  intro byte mem
  obtain ⟨u, held, rfl⟩ := List.mem_map.mp mem
  have bounds := digits u held
  intro same
  have value := congrArg UInt8.toNat same
  rw [UnicodeText.toNat_byte (by omega)] at value
  have blank : (0x20 : UInt8).toNat = 32 := rfl
  omega

section

variable (bound : mode ≤ 0o7777) (size : ℕ)
include bound

/-- The name of a control line starts behind its second blank. -/
theorem splitBlanks_header (name : Bytes) :
    splitBlanks 2 (encode (header (kindLetter isFile) mode size) ++ name) =
      some (encode (header (kindLetter isFile) mode size), name) := by
  have ascii := header_ascii isFile bound size
  have bytes : encode (header (kindLetter isFile) mode size) =
      asciiBytes (text (kindLetter isFile) ++ normalizeModeOctal mode) ++
        (0x20 :: (asciiBytes (decimal size) ++ [0x20])) := by
    have whole := UnicodeText.encode_ascii_append (fun u mem => (ascii u mem).1) []
    rw [append_nil] at whole
    rw [whole]
    simp only [header, asciiBytes, text_blank, map_append, append_assoc, map_cons,
      map_nil, cons_append]
    rfl
  have first : ∀ byte ∈ asciiBytes (text (kindLetter isFile) ++ normalizeModeOctal mode),
      byte ≠ 0x20 := by
    apply mem_asciiBytes
    intro u mem
    rcases mem_append.mp mem with mem | mem
    · cases isFile
      · have same : u = ⟨68, by decide⟩ := mem_singleton.mp mem
        rw [same]
        decide
      · have same : u = ⟨67, by decide⟩ := mem_singleton.mp mem
        rw [same]
        decide
    · have digit := mem_normalizeModeOctal bound mem
      simp only [isOctalDigit, Bool.and_eq_true, decide_eq_true_eq] at digit
      omega
  have second : ∀ byte ∈ asciiBytes (decimal size), byte ≠ 0x20 := by
    apply mem_asciiBytes
    intro u mem
    have digit := mem_decimal mem
    omega
  rw [bytes, append_assoc, cons_append, append_assoc, singleton_append,
    splitBlanks_skip first, splitBlanks_skip second, splitBlanks]
  simp [Prod.map]

theorem decode_header : decode (encode (header (kindLetter isFile) mode size)) =
      header (kindLetter isFile) mode size := by
  have ascii := header_ascii isFile bound size
  have whole := UnicodeText.toWellFormed_ascii_append (fun u mem => (ascii u mem).1) []
  rw [append_nil, UnicodeText.toWellFormed_nil, append_nil] at whole
  rw [UnicodeText.decode_encode, whole]

theorem head_encode_header (name : Bytes) :
    (encode (header (kindLetter isFile) mode size) ++ name).head? = some 0x43 ∨
      (encode (header (kindLetter isFile) mode size) ++ name).head? = some 0x44 := by
  have ascii := header_ascii isFile bound size
  have whole := UnicodeText.encode_ascii_append (fun u mem => (ascii u mem).1) []
  rw [append_nil] at whole
  have first : (encode (header (kindLetter isFile) mode size) ++ name).head? =
      some (.ofNat (kindUnit isFile).val) := by
    rw [whole, header, text_kindLetter]
    rfl
  rw [first]
  cases isFile
  · exact Or.inr rfl
  · exact Or.inl rfl

omit bound in
theorem stripLineEnd_of_not_mem {s : JsString} (inside : lineFeed ∉ s) : stripLineEnd s = s := by
  rw [stripLineEnd, if_neg]
  exact fun last => inside (mem_of_getLast? last)

theorem parseControlLine_encoded
    {name : JsString} (nonempty : name ≠ []) (inside : lineFeed ∉ name) :
    (parseControlLine (lineForParse
      (encode (header (kindLetter isFile) mode size) ++ encode name))).toOption =
      (receivedName (toWellFormed name)).map (controlOf isFile mode size) := by
  have ascii := header_ascii isFile bound size
  have again : lineForParse (encode (header (kindLetter isFile) mode size) ++ encode name) =
      encode (header (kindLetter isFile) mode size ++ toWellFormed name) := by
    rw [lineForParse, if_pos (head_encode_header isFile bound size _),
      splitBlanks_header isFile bound size]
    simp only [if_neg (UnicodeText.encode_ne_nil nonempty), decode_header isFile bound,
      UnicodeText.decode_encode]
  have newline : lineFeed ∉ header (kindLetter isFile) mode size ++ toWellFormed name := by
    intro mem
    rcases mem_append.mp mem with mem | mem
    · exact (ascii _ mem).2 rfl
    · exact inside (UnicodeText.mem_of_mem_toWellFormed mem (by unfold IsAscii; decide))
  rw [again, parseControlLine, UnicodeText.decode_encode,
    UnicodeText.toWellFormed_ascii_append (fun u mem => (ascii u mem).1),
    UnicodeText.toWellFormed_toWellFormed, stripLineEnd_of_not_mem newline,
    parseControlText_header isFile bound]

omit bound in
theorem encode_newline : encode (text "\n") = [0x0a] := by decide

omit bound in
theorem not_mem_encode {s : JsString} (inside : lineFeed ∉ s) : ∀ byte ∈ encode s, byte ≠ 0x0a := by
  rintro byte mem rfl
  obtain ⟨u, held, value⟩ := UnicodeText.mem_of_mem_encode mem (by decide)
  have same : u = lineFeed := Fin.ext value
  exact inside (same ▸ held)

theorem loop_control
    {name : JsString} (nonempty : name ≠ []) (inside : lineFeed ∉ name) (rest : Bytes) :
    (∀ received, receivedName (toWellFormed name) = some received →
      loop .awaitControl (encode (header (kindLetter isFile) mode size) ++
          (encode name ++ (0x0a :: rest))) =
        let reading := readControl (controlOf isFile mode size received) rest
        (loop reading.phase reading.buf).map (Reading.after reading.events)) ∧
    (receivedName (toWellFormed name) = none → ∃ message,
      loop .awaitControl (encode (header (kindLetter isFile) mode size) ++
        (encode name ++ (0x0a :: rest))) = .error message) := by
  have parsed := parseControlLine_encoded isFile bound size nonempty inside
  have whole : ∀ byte ∈ encode (header (kindLetter isFile) mode size) ++ encode name,
      byte ≠ 0x0a := by
    intro byte mem
    rcases mem_append.mp mem with mem | mem
    · exact not_mem_encode (fun held => (header_ascii isFile bound size _ held).2 rfl) byte mem
    · exact not_mem_encode inside byte mem
  have cut := splitLine_newline whole rest
  rw [append_assoc] at cut
  have present : encode (header (kindLetter isFile) mode size) ++ (encode name ++ (0x0a :: rest)) ≠ [] := by
    simp
  constructor
  · intro received accepted
    rw [accepted] at parsed
    cases found : parseControlLine (lineForParse
        (encode (header (kindLetter isFile) mode size) ++ encode name)) with
    | error message =>
      rw [found] at parsed
      cases parsed
    | ok control =>
      rw [found] at parsed
      obtain rfl : control = controlOf isFile mode size received := Option.some.inj parsed
      refine loop_next present ?_
      simp [readPhase, cut, found]
  · intro refused
    rw [refused] at parsed
    cases found : parseControlLine (lineForParse
        (encode (header (kindLetter isFile) mode size) ++ encode name)) with
    | error message =>
      refine ⟨message, loop_error present ?_⟩
      simp [readPhase, cut, found, Bind.bind, Except.bind]
    | ok control =>
      rw [found] at parsed
      cases parsed

end

/-! ## Items on the wire -/

def dataOf (content : Bytes) : List ScpEvent := if content = [] then [] else [.fileData content]

def eventsOf : ScpItem → List ScpEvent
  | .directory mode name => [.directory mode name]
  | .file mode name content =>
    .fileStart ⟨mode, content.length, name⟩ ::
      (dataOf content ++ [.fileEnd ⟨mode, content.length, name⟩])
  | .endDirectory => [.endDirectory]

/-- What becomes of an item on the wire. -/
def ScpItem.received : ScpItem → Option ScpItem
  | directory mode name => (receivedName (toWellFormed name)).map (directory mode)
  | file mode name content => (receivedName (toWellFormed name)).map (file mode · content)
  | endDirectory => some endDirectory

def receivedItems : List ScpItem → Option (List ScpItem)
  | [] => some []
  | item :: items => item.received.bind fun first => (receivedItems items).map (first :: ·)

theorem assemble_eventsOf (item : ScpItem) (events : List ScpEvent) :
    assemble none ((eventsOf item ++ events).flatMap bytewise) =
      (assemble none (events.flatMap bytewise)).map (item :: ·) := by
  have data : ∀ (file : PendingFile) (sofar content : Bytes) (later : List ScpEvent),
      assemble (some (file, sofar)) ((content.map fun byte => ScpEvent.fileData [byte]) ++ later) =
        assemble (some (file, sofar ++ content)) later := by
    intro file sofar content later
    induction content generalizing sofar with
    | nil => simp
    | cons byte content ih => simp [assemble, ih]
  cases item with
  | directory mode name => rfl
  | endDirectory => rfl
  | file mode name content =>
    have pieces : (dataOf content).flatMap bytewise =
        content.map fun byte => ScpEvent.fileData [byte] := by
      unfold dataOf
      split
      · rename_i empty
        rw [empty]
        rfl
      · simp [bytewise]
    simp only [eventsOf, cons_append, append_assoc, flatMap_cons, flatMap_append,
      pieces, bytewise, nil_append]
    rw [assemble, data]
    simp [assemble]

theorem loop_nul (file : PendingFile) (rest : Bytes) : loop (.awaitNul file) (0 :: rest) =
      (loop .awaitControl rest).map (Reading.after [.fileEnd file]) := by
  have read : readPhase (.awaitNul file) (0 :: rest) =
      .ok (some ⟨[.fileEnd file], .awaitControl, rest⟩) := rfl
  exact loop_next (cons_ne_nil _ _) read

theorem loop_data (file : PendingFile) {content : Bytes} (size : file.size = content.length)
    (rest : Bytes) :
    loop (if file.size = 0 then .awaitNul file else .awaitData file file.size)
        (content ++ (0 :: rest)) =
      (loop .awaitControl rest).map (Reading.after (dataOf content ++ [.fileEnd file])) := by
  by_cases empty : content = []
  · subst empty
    have zero : file.size = 0 := size
    rw [if_pos zero]
    exact loop_nul file rest
  · have positive := length_pos_iff.mpr empty
    have taken : min file.size (content ++ (0 :: rest)).length = content.length := by
      rw [length_append]
      omega
    have read : readPhase (.awaitData file file.size) (content ++ (0 :: rest)) =
        .ok (some ⟨[.fileData content], .awaitNul file, 0 :: rest⟩) := by
      simp only [readPhase, taken, take_left, drop_left]
      rw [if_pos (by omega)]
    rw [if_neg (by omega), loop_next (by simp) read, loop_nul, dataOf, if_neg empty]
    cases loop .awaitControl rest <;> rfl

theorem sanitize_ok {name checked : JsString} (accepted : sanitizeScpBasename name = .ok checked) :
    checked = name ∧ name ≠ [] ∧ slash ∉ name ∧ name ≠ text ".." ∧ name ≠ text "." ∧
      carriageReturn ∉ name ∧ lineFeed ∉ name := by
  unfold sanitizeScpBasename at accepted
  split at accepted
  · cases accepted
  · rename_i nonempty
    split at accepted
    · cases accepted
    · split at accepted
      · cases accepted
      · rename_i simple
        split at accepted
        · cases accepted
        · rename_i newlines
          simp only [not_or, contains_iff_mem] at simple newlines
          exact ⟨(Except.ok.inj accepted).symm, nonempty, simple.1, simple.2.1, simple.2.2,
            newlines.1, newlines.2⟩

/-- The parser reads an item and goes on behind it, or throws. -/
theorem loop_item {item : ScpItem} (bound : item.HasMode) {bytes : Bytes}
    (encoded : item.encoded = .ok bytes) (rest : Bytes) :
    (∀ received, item.received = some received → loop .awaitControl (bytes ++ rest) =
      (loop .awaitControl rest).map (Reading.after (eventsOf received))) ∧
    (item.received = none → ∃ message, loop .awaitControl (bytes ++ rest) = .error message) := by
  cases item with
  | endDirectory =>
    obtain rfl : encode (text "E\n") = bytes := Except.ok.inj encoded
    have line : encode (text "E\n") = [0x45, 0x0a] := by decide
    refine ⟨?_, fun refused => by cases refused⟩
    rintro received same
    obtain rfl := Option.some.inj same
    have parsed : parseControlLine (lineForParse [0x45]) = .ok .endOfDirectory := by
      have unit : decode [0x45] = text "E" := by decide
      have same : lineForParse [0x45] = [0x45] := by decide
      rw [same, parseControlLine, unit]
      rfl
    have read : readPhase .awaitControl ([0x45, 0x0a] ++ rest) =
        .ok (some ⟨[.endDirectory], .awaitControl, rest⟩) := by
      have cut : splitLine ([0x45, 0x0a] ++ rest) = some ([0x45], rest) := rfl
      simp only [readPhase, cut, parsed]
      rfl
    rw [line]
    exact loop_next (cons_ne_nil _ _) read
  | directory mode name =>
    simp only [ScpItem.encoded, buildDirectoryControlLine] at encoded
    cases accepted : sanitizeScpBasename name with
    | error message => simp [accepted, Bind.bind, Except.bind] at encoded
    | ok checked =>
      obtain ⟨rfl, nonempty, -, -, -, -, inside⟩ := sanitize_ok accepted
      simp only [accepted, ok_bind, pure_eq_ok, Except.ok.injEq] at encoded
      subst encoded
      have ascii := header_ascii false bound 0
      have bytes : encode (directoryHeader mode ++ checked ++ text "\n") ++ rest =
          encode (header (kindLetter false) mode 0) ++ (encode checked ++ (0x0a :: rest)) := by
        have cut : ∀ v, (text "\n").head? = some v → UnicodeText.isLowSurrogate v = false := by
          intro v first
          obtain rfl : lineFeed = v := Option.some.inj first
          decide
        have split := UnicodeText.encode_ascii_append (fun u mem => (ascii u mem).1) checked
        have alone := UnicodeText.encode_ascii_append (fun u mem => (ascii u mem).1) []
        rw [append_nil] at alone
        rw [UnicodeText.encode_append cut, directoryHeader_eq, encode_newline]
        change encode (header (kindLetter false) mode 0 ++ checked) ++ _ ++ _ = _
        rw [split, alone]
        simp [encode, UnicodeText.scalars]
      obtain ⟨reads, throws⟩ := loop_control false bound 0 nonempty inside rest
      rw [bytes]
      constructor
      · rintro received same
        obtain ⟨short, found, rfl⟩ := map_eq_some_iff.mp same
        exact reads short found
      · intro refused
        exact throws (map_eq_none_iff.mp refused)
  | file mode name content =>
    simp only [ScpItem.encoded, buildFileControlLine] at encoded
    rw [if_neg (by omega)] at encoded
    cases accepted : sanitizeScpBasename name with
    | error message => simp [accepted, Bind.bind, Except.bind] at encoded
    | ok checked =>
      obtain ⟨rfl, nonempty, -, -, -, -, inside⟩ := sanitize_ok accepted
      simp only [accepted, ok_bind, pure_eq_ok, Except.ok.injEq] at encoded
      subst encoded
      have bytes : encode (fileHeader mode (content.length : ℤ).toNat) ++ encode checked ++
          encode (text "\n") ++ (content ++ [0]) ++ rest =
          encode (header (kindLetter true) mode content.length) ++
            (encode checked ++ (0x0a :: (content ++ (0 :: rest)))) := by
        rw [encode_newline, fileHeader_eq, Int.toNat_natCast]
        simp [kindLetter]
      obtain ⟨reads, throws⟩ := loop_control true bound content.length nonempty inside
        (content ++ (0 :: rest))
      rw [bytes]
      constructor
      · rintro received same
        obtain ⟨short, found, rfl⟩ := map_eq_some_iff.mp same
        rw [reads short found]
        let pending : PendingFile := ⟨mode, content.length, short⟩
        have data := loop_data pending rfl rest
        change (loop (if pending.size = 0 then .awaitNul pending
          else .awaitData pending pending.size) (content ++ (0 :: rest))).map
            (Reading.after [.fileStart pending]) = _
        rw [data]
        cases loop .awaitControl rest <;> rfl
      · intro refused
        exact throws (map_eq_none_iff.mp refused)

theorem loop_items {items : List ScpItem} (modes : ∀ item ∈ items, item.HasMode) {bytes : Bytes}
    (encoded : encodeItems items = .ok bytes) :
    (∀ received, receivedItems items = some received →
      loop .awaitControl bytes = .ok ⟨received.flatMap eventsOf, .awaitControl, []⟩) ∧
    (receivedItems items = none → ∃ message, loop .awaitControl bytes = .error message) := by
  induction items generalizing bytes with
  | nil =>
    obtain rfl : [] = bytes := Except.ok.inj encoded
    refine ⟨?_, fun refused => by cases refused⟩
    rintro received same
    obtain rfl := Option.some.inj same
    exact loop_nil _
  | cons item items ih =>
    rw [encodeItems] at encoded
    cases first : item.encoded with
    | error message => simp [first, Bind.bind, Except.bind] at encoded
    | ok bytes₁ =>
      cases later : encodeItems items with
      | error message => simp [first, later, Bind.bind, Except.bind] at encoded
      | ok bytes₂ =>
        simp only [first, later, ok_bind, pure_eq_ok, Except.ok.injEq] at encoded
        subst encoded
        obtain ⟨reads, throws⟩ := loop_item (modes item (by simp)) first bytes₂
        obtain ⟨readsAll, throwsAll⟩ := ih (fun other mem => modes other (by simp [mem])) later
        rw [receivedItems]
        cases head : item.received with
        | none =>
          refine ⟨fun received same => by simp at same, fun _ => throws head⟩
        | some one =>
          rw [reads one head]
          cases tail : receivedItems items with
          | none =>
            obtain ⟨message, failed⟩ := throwsAll tail
            refine ⟨fun received same => by simp at same, fun _ => ⟨message, ?_⟩⟩
            rw [failed]
            rfl
          | some rest =>
            refine ⟨?_, fun refused => by simp at refused⟩
            rintro received same
            obtain rfl : one :: rest = received := by simpa using same
            rw [readsAll rest tail]
            simp [Except.map, Reading.after]

theorem itemsOf_flatMap (items : List ScpItem) : itemsOf (items.flatMap eventsOf) = some items := by
  unfold itemsOf
  induction items with
  | nil => rfl
  | cons item items ih => rw [flatMap_cons, assemble_eventsOf, ih, map_some]

theorem yields_iff_received {items : List ScpItem} (modes : ∀ item ∈ items, item.HasMode)
    {chunks : List Bytes} (encoded : encodeItems items = .ok chunks.flatten)
    (wanted : List ScpItem) : Yields chunks wanted ↔ receivedItems items = some wanted := by
  obtain ⟨reads, throws⟩ := loop_items modes encoded
  have alike := feedAll_flatten chunks
  cases received : receivedItems items with
  | none =>
    obtain ⟨message, failed⟩ := throws received
    rw [failed] at alike
    refine iff_of_false ?_ (some_ne_none _).symm
    rintro ⟨fed, found, -, -⟩
    rw [found] at alike
    cases alike
  | some others =>
    rw [reads others received] at alike
    cases found : createSourceStreamParser.feedAll chunks with
    | error message =>
      rw [found] at alike
      cases alike
    | ok fed =>
      rw [found] at alike
      obtain ⟨events, phase, buf⟩ := alike_ok alike
      have items' : itemsOf fed.1 = some others := by
        rw [← itemsOf_flatMap others, itemsOf, itemsOf]
        exact congrArg (assemble none) events.symm
      have ends : fed.2.finish = .ok () := by
        have phase' : fed.2.phase = .awaitControl := phase.symm
        have buf' : fed.2.buf = [] := buf.symm
        simp [SourceStreamParser.finish, phase', buf']
      constructor
      · rintro ⟨fed', same, wants, -⟩
        obtain rfl : fed = fed' := Except.ok.inj (found.symm.trans same)
        exact items'.symm.trans wants
      · intro same
        exact ⟨fed, found, items'.trans same, ends⟩

/-! ## Names that come back -/

/-- A name without unpaired surrogates that starts with no white space and holds
neither U+2028 nor U+2029. -/
def PortableName (name : JsString) : Prop :=
  UnicodeText.isWellFormed name = true ∧
    (∀ u, name.head? = some u → isWhiteSpace u = false) ∧
    ∀ u ∈ name, u.val ≠ 0x2028 ∧ u.val ≠ 0x2029

def ScpItem.Portable : ScpItem → Prop
  | directory _ name => PortableName name
  | file _ name _ => PortableName name
  | endDirectory => True

theorem receivedName_eq_self {name checked : JsString}
    (accepted : sanitizeScpBasename name = .ok checked) :
    receivedName (toWellFormed name) = some name ↔ PortableName name := by
  obtain ⟨rfl, nonempty, noSlash, notDots, notDot, noReturn, noFeed⟩ := sanitize_ok accepted
  constructor
  · intro received
    rw [receivedName] at received
    split at received
    · cases received
    · rename_i plain
      have bare : bareName (toWellFormed checked) = checked := Option.some.inj received
      simp only [not_or] at plain
      have lengths : (bareName (toWellFormed checked)).length = (toWellFormed checked).length := by
        rw [bare, UnicodeText.length_toWellFormed]
      have whole : bareName (toWellFormed checked) = toWellFormed checked :=
        (dropWhile_suffix isWhiteSpace).eq_of_length lengths
      have formed : toWellFormed checked = checked := whole.symm.trans bare
      rw [formed] at bare plain
      refine ⟨(UnicodeText.toWellFormed_eq_self checked).mp formed, ?_, ?_⟩
      · intro u first
        cases checked with
        | nil => cases first
        | cons v rest =>
          obtain rfl : v = u := Option.some.inj first
          cases white : isWhiteSpace v with
          | false => rfl
          | true =>
            rw [bareName, dropWhile_cons_of_pos white] at bare
            have shorter := (dropWhile_suffix (l := rest) isWhiteSpace).length_le
            rw [bare, length_cons] at shorter
            omega
      · intro u mem
        rw [bare] at plain
        have clear : isLineTerminator u = false := by
          simpa using fun terminated => plain.1 (List.any_eq_true.mpr ⟨u, mem, terminated⟩)
        simp only [isLineTerminator, mem_cons, not_mem_nil, or_false,
          decide_eq_false_iff_not] at clear
        omega
  · rintro ⟨formed, solid, joined⟩
    have same := (UnicodeText.toWellFormed_eq_self checked).mpr formed
    have bare : bareName checked = checked := by
      cases checked with
      | nil => rfl
      | cons u rest =>
        rw [bareName, dropWhile_cons_of_neg (by simp [solid u rfl])]
    have clear : ¬ checked.any isLineTerminator = true := by
      intro terminated
      obtain ⟨u, mem, found⟩ := List.any_eq_true.mp terminated
      simp only [isLineTerminator, mem_cons, not_mem_nil, or_false, decide_eq_true_eq]
        at found
      rcases found with value | value | value | value
      · exact noFeed (Fin.ext (a := u) (b := lineFeed) value ▸ mem)
      · exact noReturn (Fin.ext (a := u) (b := carriageReturn) value ▸ mem)
      · exact (joined u mem).1 value
      · exact (joined u mem).2 value
    rw [same, receivedName, bare, if_neg]
    simp [clear, nonempty, noSlash, notDots, notDot]

theorem received_eq_self {item : ScpItem} {bytes : Bytes} (encoded : item.encoded = .ok bytes) :
    item.received = some item ↔ item.Portable := by
  cases item with
  | endDirectory => exact iff_of_true rfl trivial
  | directory mode name =>
    simp only [ScpItem.encoded, buildDirectoryControlLine] at encoded
    cases accepted : sanitizeScpBasename name with
    | error message => simp [accepted, Bind.bind, Except.bind] at encoded
    | ok checked =>
      rw [ScpItem.Portable, ← receivedName_eq_self accepted, ScpItem.received]
      simp
  | file mode name content =>
    simp only [ScpItem.encoded, buildFileControlLine] at encoded
    rw [if_neg (by omega)] at encoded
    cases accepted : sanitizeScpBasename name with
    | error message => simp [accepted, Bind.bind, Except.bind] at encoded
    | ok checked =>
      rw [ScpItem.Portable, ← receivedName_eq_self accepted, ScpItem.received]
      simp

theorem receivedItems_eq_self {items : List ScpItem} {bytes : Bytes}
    (encoded : encodeItems items = .ok bytes) :
    receivedItems items = some items ↔ ∀ item ∈ items, item.Portable := by
  induction items generalizing bytes with
  | nil => simp [receivedItems]
  | cons item items ih =>
    rw [encodeItems] at encoded
    cases first : item.encoded with
    | error message => simp [first, Bind.bind, Except.bind] at encoded
    | ok bytes₁ =>
      cases later : encodeItems items with
      | error message => simp [first, later, Bind.bind, Except.bind] at encoded
      | ok bytes₂ =>
        rw [forall_mem_cons, ← received_eq_self first, ← ih later, receivedItems]
        cases item.received with
        | none => simp
        | some one => cases receivedItems items <;> simp

/-- The items a sender wrote come back, in whatever chunks, exactly when each of
their names is portable. -/
theorem scp_round_trips_iff (items : List ScpItem) (modes : ∀ item ∈ items, item.HasMode)
    (chunks : List Bytes) (encoded : encodeItems items = .ok chunks.flatten) :
    Yields chunks items ↔ ∀ item ∈ items, item.Portable := by
  rw [yields_iff_received modes encoded, receivedItems_eq_self encoded]

/-- A directory of one file, cut inside its control lines and its data. -/
theorem scp_round_trips_sample : Yields [(encode (text "D0755 0 a\nC0644 2 b\n")).take 7,
        (encode (text "D0755 0 a\nC0644 2 b\n")).drop 7 ++ [7], [10, 0, 0x45, 0x0a]]
      [.directory 0o755 (text "a"), .file 0o644 (text "b") [7, 10], .endDirectory] := by
  refine (scp_round_trips_iff [.directory 0o755 (text "a"), .file 0o644 (text "b") [7, 10],
    .endDirectory] ?_ _ ?_).mpr ?_
  · simp [ScpItem.HasMode]
  · rfl
  · have plain : ∀ u : Fin 65536, u.val = 97 ∨ u.val = 98 → PortableName [u] := by
      intro u letter
      refine ⟨?_, ?_, ?_⟩
      · simp only [UnicodeText.isWellFormed, UnicodeText.isSurrogate, Bool.not_eq_true',
          Bool.and_eq_false_iff, decide_eq_false_iff_not]
        omega
      · intro v first
        obtain rfl := Option.some.inj first
        simp only [isWhiteSpace, decide_eq_false_iff_not, mem_cons, not_mem_nil, or_false]
        omega
      · intro v mem
        rw [mem_singleton.mp mem]
        omega
    simp only [forall_mem_cons, ScpItem.Portable]
    exact ⟨plain _ (Or.inl rfl), plain _ (Or.inr rfl), trivial, by simp⟩

/-- A file whose name starts with a blank does not come back under its name. -/
theorem leading_blank_is_lost :
    ¬ ∀ (items : List ScpItem) (chunks : List Bytes), (∀ item ∈ items, item.HasMode) →
      encodeItems items = .ok chunks.flatten → Yields chunks items := by
  intro all
  have modes : ∀ item ∈ [ScpItem.file 0o644 (text " a") []], item.HasMode := by
    simp [ScpItem.HasMode]
  have encoded : encodeItems [ScpItem.file 0o644 (text " a") []] =
      .ok [encode (text "C0644 0  a\n") ++ [0]].flatten := rfl
  have yields := all _ _ modes encoded
  rw [yields_iff_received modes encoded, receivedItems_eq_self encoded] at yields
  have solid := (yields _ (mem_singleton.mpr rfl)).2.1 ⟨32, by decide⟩ rfl
  cases solid

end Netcatty.Scp
