import Mathlib.Tactic.Linarith
import Netcatty.ResumableScan

/-!
The telnet parser: data bytes, option commands and subnegotiations of a byte
stream that arrives in chunks of any size.

`feed` keeps an unfinished command until the next chunk.  What it reports is what
one scan of the whole stream reports (`feedAll_framing`), and the stream is the
concatenation of complete tokens and the bytes kept back, where only plain bytes
and escaped 255s are data (`feedAll_tokens`).
-/

namespace Netcatty.Telnet

open ResumableScan List Option

def IAC : UInt8 := 255
def SE : UInt8 := 240
def SB : UInt8 := 250
def WILL : UInt8 := 251
def WONT : UInt8 := 252
def DO : UInt8 := 253
def DONT : UInt8 := 254

def isOptionCommand (cmd : UInt8) : Bool := cmd = WILL ∨ cmd = WONT ∨ cmd = DO ∨ cmd = DONT

/-- The payload up to `IAC SE`, and what follows it.  Any other byte after an
`IAC` is skipped with it. -/
def splitSubnegotiation : List UInt8 → Option (List UInt8 × List UInt8)
  | [] => none
  | [_] => none
  | b :: c :: rest =>
    if b = IAC then
      if c = SE then some ([], rest)
      else (splitSubnegotiation rest).map fun split => (b :: c :: split.1, split.2)
    else (splitSubnegotiation (c :: rest)).map fun split => (b :: split.1, split.2)

/-- The loop of `unescapeIacFromPayload`. -/
def unescapeLoop : List UInt8 → List UInt8
  | [] => []
  | [b] => [b]
  | b :: c :: rest =>
    if b = IAC ∧ c = IAC then IAC :: unescapeLoop rest else b :: unescapeLoop (c :: rest)

def unescapeIacFromPayload (buf : List UInt8) : List UInt8 :=
  if IAC ∉ buf then buf else unescapeLoop buf

/-- What one round of the parser's loop consumes. -/
inductive Token where
  | byte (b : UInt8)
  /-- `IAC IAC`. -/
  | escaped
  | command (cmd opt : UInt8)
  | subnegotiation (opt : UInt8) (rawPayload : List UInt8)
  /-- Any other command, which is dropped. -/
  | verb (cmd : UInt8)
  deriving DecidableEq

/-- One round of the loop of `feed`: what it consumes, unless the buffer ends
inside a command. -/
def nextToken : List UInt8 → Option (Token × List UInt8)
  | [] => none
  | byte :: rest =>
    if byte ≠ IAC then some (.byte byte, rest)
    else
      match rest with
      | [] => none
      | cmd :: rest =>
        if cmd = IAC then some (.escaped, rest)
        else if isOptionCommand cmd then rest.head?.map fun opt => (.command cmd opt, rest.tail)
        else if cmd = SB then
          match rest with
          | [] => none
          | opt :: payload =>
            (splitSubnegotiation payload).map fun split => (.subnegotiation opt split.1, split.2)
        else some (.verb cmd, rest)

def Token.bytes : Token → List UInt8
  | .byte b => [b]
  | .escaped => [IAC, IAC]
  | .command cmd opt => [IAC, cmd, opt]
  | .subnegotiation opt rawPayload => IAC :: SB :: opt :: (rawPayload ++ [IAC, SE])
  | .verb cmd => [IAC, cmd]

/-- The tokens the parser tells apart. -/
def Token.Valid : Token → Prop
  | .byte b => b ≠ IAC
  | .escaped => True
  | .command cmd _ => isOptionCommand cmd
  | .subnegotiation _ rawPayload =>
    ∀ rest, splitSubnegotiation (rawPayload ++ IAC :: SE :: rest) = some (rawPayload, rest)
  | .verb cmd => cmd ≠ IAC ∧ isOptionCommand cmd = false ∧ cmd ≠ SB

/-! ## Reading one token -/

theorem splitSubnegotiation_eq_some {buf raw rest : List UInt8}
    (found : splitSubnegotiation buf = some (raw, rest)) :
    buf = raw ++ IAC :: SE :: rest ∧
      ∀ more, splitSubnegotiation (raw ++ IAC :: SE :: more) = some (raw, more) := by
  induction buf using splitSubnegotiation.induct generalizing raw with
  | case1 => cases found
  | case2 b => cases found
  | case3 after =>
    rw [splitSubnegotiation, if_pos rfl, if_pos rfl] at found
    cases found
    refine ⟨rfl, ?_⟩
    intro more
    rw [nil_append, splitSubnegotiation, if_pos rfl, if_pos rfl]
  | case4 c after se ih =>
    rw [splitSubnegotiation, if_pos rfl, if_neg se, map_eq_some_iff] at found
    obtain ⟨inner, found, same⟩ := found
    cases same
    obtain ⟨bytes, again⟩ := ih found
    refine ⟨by rw [bytes]; rfl, ?_⟩
    intro more
    rw [cons_append, cons_append, splitSubnegotiation, if_pos rfl, if_neg se, again]
    rfl
  | case5 b c after iac ih =>
    rw [splitSubnegotiation, if_neg iac, map_eq_some_iff] at found
    obtain ⟨inner, found, same⟩ := found
    cases same
    obtain ⟨bytes, again⟩ := ih found
    refine ⟨by rw [bytes]; rfl, ?_⟩
    intro more
    have head := again more
    -- the payload after `b` is not empty, so the scan steps over `b` alone
    cases split : inner.1 with
    | nil =>
      rw [split] at head
      rw [cons_append, nil_append, splitSubnegotiation, if_neg iac]
      rw [nil_append] at head
      rw [head]
      rfl
    | cons d ds =>
      rw [split, cons_append] at head
      rw [cons_append, cons_append, splitSubnegotiation, if_neg iac, head]
      rfl

theorem nextToken_eq_some {buf rest : List UInt8} {token : Token}
    (found : nextToken buf = some (token, rest)) : token.Valid ∧ buf = token.bytes ++ rest := by
  cases buf with
  | nil => cases found
  | cons byte after =>
    unfold nextToken at found
    dsimp only at found
    by_cases iac : byte = IAC
    · rw [if_neg (not_not.mpr iac)] at found
      subst iac
      cases after with
      | nil => cases found
      | cons cmd after =>
        dsimp only at found
        by_cases escaped : cmd = IAC
        · rw [if_pos escaped] at found
          cases found
          exact ⟨trivial, by rw [escaped]; rfl⟩
        · rw [if_neg escaped] at found
          by_cases option : isOptionCommand cmd
          · rw [if_pos option] at found
            cases after with
            | nil => cases found
            | cons opt after =>
              cases found
              exact ⟨option, rfl⟩
          · rw [if_neg option] at found
            by_cases sub : cmd = SB
            · rw [if_pos sub] at found
              cases after with
              | nil => cases found
              | cons opt payload =>
                rw [map_eq_some_iff] at found
                obtain ⟨split, found, same⟩ := found
                cases same
                obtain ⟨bytes, again⟩ := splitSubnegotiation_eq_some found
                refine ⟨again, ?_⟩
                rw [bytes, sub]
                simp [Token.bytes]
            · rw [if_neg sub] at found
              cases found
              exact ⟨⟨escaped, by simpa using option, sub⟩, rfl⟩
    · rw [if_pos iac] at found
      cases found
      exact ⟨iac, rfl⟩

/-- A valid token is read back whatever follows it. -/
theorem nextToken_bytes {token : Token} (valid : token.Valid) (rest : List UInt8) :
    nextToken (token.bytes ++ rest) = some (token, rest) := by
  cases token with
  | byte b => exact if_pos valid
  | escaped => rfl
  | command cmd opt =>
    have other : cmd ≠ IAC := by
      rintro rfl
      cases valid
    simp [Token.bytes, nextToken, other, show isOptionCommand cmd = true from valid]
  | subnegotiation opt raw =>
    have split := valid rest
    simp only [Token.bytes, cons_append, append_assoc, nil_append]
    change (splitSubnegotiation (raw ++ IAC :: SE :: rest)).map _ = _
    rw [split]
    rfl
  | verb cmd =>
    obtain ⟨other, option, sub⟩ := valid
    simp [Token.bytes, nextToken, other, option, sub]

theorem Token.bytes_ne_nil (token : Token) : token.bytes ≠ [] := by
  cases token <;> exact cons_ne_nil _ _

/-- The tokens of a telnet stream. -/
def tokenizer : Tokenizer UInt8 Token where
  next := nextToken
  shrinks {buf token rest} found := by
    have taken := List.length_pos_iff.mpr token.bytes_ne_nil
    rw [(nextToken_eq_some found).2, List.length_append]
    omega
  stable more found := by
    obtain ⟨valid, bytes⟩ := nextToken_eq_some found
    rw [bytes, List.append_assoc]
    exact nextToken_bytes valid _

/-! ## The parser -/

inductive ParserCall where
  | onCommand (cmd opt : UInt8)
  | onSubnegotiation (opt : UInt8) (payload : List UInt8)
  | onData (buf : List UInt8)
  deriving DecidableEq

/-- `flushData`. -/
def flushData (out : List UInt8) : List ParserCall := if out = [] then [] else [.onData out]

/-- The loop of `feed`: the callbacks made, and what stays pending.  `out` holds
the data bytes not yet handed over. -/
def feedLoop (out : List UInt8) (buf : List UInt8) : List ParserCall × List UInt8 :=
  match _found : nextToken buf with
  | none => (flushData out, buf)
  | some (.byte b, rest) => feedLoop (out ++ [b]) rest
  | some (.escaped, rest) => feedLoop (out ++ [IAC]) rest
  | some (.command cmd opt, rest) =>
    let later := feedLoop [] rest
    (flushData out ++ .onCommand cmd opt :: later.1, later.2)
  | some (.subnegotiation opt raw, rest) =>
    let later := feedLoop [] rest
    (flushData out ++ .onSubnegotiation opt (unescapeIacFromPayload raw) :: later.1, later.2)
  | some (.verb _, rest) =>
    let later := feedLoop [] rest
    (flushData out ++ later.1, later.2)
  termination_by buf.length
  decreasing_by all_goals exact tokenizer.shrinks _found

/-- The parser between two chunks: the callbacks made so far and the pending bytes. -/
structure TelnetParser where
  calls : List ParserCall
  pending : List UInt8

def createTelnetParser : TelnetParser := ⟨[], []⟩

def TelnetParser.feed (parser : TelnetParser) (chunk : List UInt8) : TelnetParser :=
  if chunk = [] then parser
  else
    let fed := feedLoop [] (parser.pending ++ chunk)
    ⟨parser.calls ++ fed.1, fed.2⟩

def feedAll (chunks : List (List UInt8)) : TelnetParser := chunks.foldl .feed createTelnetParser

/-! ## What the callbacks report -/

inductive TelnetEvent where
  | data (byte : UInt8)
  | command (cmd opt : UInt8)
  | subnegotiation (opt : UInt8) (payload : List UInt8)
  deriving DecidableEq

def ParserCall.events : ParserCall → List TelnetEvent
  | .onCommand cmd opt => [.command cmd opt]
  | .onSubnegotiation opt payload => [.subnegotiation opt payload]
  | .onData buf => buf.map .data

/-- Everything reported, in order. -/
def TelnetParser.events (parser : TelnetParser) : List TelnetEvent :=
  parser.calls.flatMap ParserCall.events

def Token.events : Token → List TelnetEvent
  | .byte b => [.data b]
  | .escaped => [.data IAC]
  | .command cmd opt => [.command cmd opt]
  | .subnegotiation opt rawPayload => [.subnegotiation opt (unescapeIacFromPayload rawPayload)]
  | .verb _ => []

theorem events_flushData (out : List UInt8) :
    (flushData out).flatMap ParserCall.events = out.map .data := by
  unfold flushData
  split
  · rename_i empty
    simp [empty]
  · simp [ParserCall.events]

/-- The loop reports the tokens of the buffer. -/
theorem feedLoop_eq (out buf : List UInt8) : (feedLoop out buf).1.flatMap ParserCall.events =
      out.map .data ++ (tokenizer.run buf).1.flatMap Token.events ∧
    (feedLoop out buf).2 = (tokenizer.run buf).2 := by
  induction len : buf.length using Nat.strongRecOn generalizing out buf with
  | ind n ih =>
    have shorter {token rest} (found : nextToken buf = some (token, rest)) : rest.length < n :=
      len ▸ tokenizer.shrinks found
    rw [feedLoop]
    split
    · rename_i found
      rw [Tokenizer.run_of_none found]
      simp [events_flushData]
    · rename_i b rest found
      obtain ⟨events, pending⟩ := ih _ (shorter found) (out ++ [b]) rest rfl
      rw [Tokenizer.run_of_some found, events, pending]
      simp [Token.events]
    · rename_i rest found
      obtain ⟨events, pending⟩ := ih _ (shorter found) (out ++ [IAC]) rest rfl
      rw [Tokenizer.run_of_some found, events, pending]
      simp [Token.events]
    · rename_i cmd opt rest found
      obtain ⟨events, pending⟩ := ih _ (shorter found) [] rest rfl
      rw [Tokenizer.run_of_some found]
      simp [events, pending, events_flushData, ParserCall.events, Token.events]
    · rename_i opt raw rest found
      obtain ⟨events, pending⟩ := ih _ (shorter found) [] rest rfl
      rw [Tokenizer.run_of_some found]
      simp [events, pending, events_flushData, ParserCall.events, Token.events]
    · rename_i cmd rest found
      obtain ⟨events, pending⟩ := ih _ (shorter found) [] rest rfl
      rw [Tokenizer.run_of_some found]
      simp [events, pending, events_flushData, Token.events]

theorem feedAll_eq (chunks : List (List UInt8)) :
    (feedAll chunks).events = (tokenizer.run chunks.flatten).1.flatMap Token.events ∧
      (feedAll chunks).pending = (tokenizer.run chunks.flatten).2 := by
  induction chunks using List.reverseRecOn with
  | nil =>
    rw [flatten_nil, Tokenizer.run_of_none rfl]
    exact ⟨rfl, rfl⟩
  | append_singleton chunks chunk ih =>
    obtain ⟨events, pending⟩ := ih
    have last : feedAll (chunks ++ [chunk]) = (feedAll chunks).feed chunk := by simp [feedAll]
    rw [last, flatten_append, flatten_singleton, Tokenizer.run_append, ← pending]
    unfold TelnetParser.feed
    by_cases empty : chunk = []
    · have again := Tokenizer.run_append (k := tokenizer) chunks.flatten []
      rw [append_nil, append_nil, ← pending] at again
      rw [if_pos empty, empty, append_nil, events]
      exact ⟨congrArg (fun read => read.1.flatMap Token.events) again,
        pending.trans (congrArg Prod.snd again)⟩
    · obtain ⟨loopEvents, loopPending⟩ := feedLoop_eq [] ((feedAll chunks).pending ++ chunk)
      rw [if_neg empty]
      refine ⟨?_, loopPending⟩
      unfold TelnetParser.events at events ⊢
      rw [flatMap_append, flatMap_append, events, loopEvents]
      rfl

theorem run_tokens (buf : List UInt8) : (∀ token ∈ (tokenizer.run buf).1, token.Valid) ∧
    buf = (tokenizer.run buf).1.flatMap Token.bytes ++ (tokenizer.run buf).2 := by
  induction len : buf.length using Nat.strongRecOn generalizing buf with
  | ind n ih =>
    cases found : nextToken buf with
    | none =>
      rw [Tokenizer.run_of_none found]
      simp
    | some read =>
      obtain ⟨token, rest⟩ := read
      obtain ⟨valid, bytes⟩ := nextToken_eq_some found
      obtain ⟨valids, split⟩ := ih _ (len ▸ tokenizer.shrinks found) rest rfl
      rw [Tokenizer.run_of_some found]
      refine ⟨forall_mem_cons.mpr ⟨valid, valids⟩, ?_⟩
      rw [flatMap_cons, append_assoc, ← split]
      exact bytes

/-- Two ways of cutting a stream into chunks report the same events and leave the
same bytes pending; the stream is complete tokens and these bytes, and data are
exactly its plain bytes and escaped 255s. -/
theorem feedAll_framing {chunks chunks' : List (List UInt8)}
    (same : chunks.flatten = chunks'.flatten) :
    (feedAll chunks).events = (feedAll chunks').events ∧
      (feedAll chunks).pending = (feedAll chunks').pending ∧
      ∃ tokens : List Token, (∀ token ∈ tokens, token.Valid) ∧
        chunks.flatten = tokens.flatMap Token.bytes ++ (feedAll chunks).pending ∧
        (feedAll chunks).events = tokens.flatMap Token.events := by
  obtain ⟨events, pending⟩ := feedAll_eq chunks
  obtain ⟨events', pending'⟩ := feedAll_eq chunks'
  obtain ⟨valid, split⟩ := run_tokens chunks.flatten
  refine ⟨events.trans (same ▸ events'.symm), pending.trans (same ▸ pending'.symm),
    (tokenizer.run chunks.flatten).1, valid, ?_, events⟩
  rw [pending]
  exact split

/-- A subnegotiation cut inside its escaped 255 and before its end. -/
theorem feedAll_framing_subnegotiation :
    (feedAll [[65, 255, 250, 24, 255], [255, 1, 255], [240, 66]]).events =
      (feedAll [[65, 255, 250, 24, 255, 255, 1, 255, 240, 66]]).events :=
  (feedAll_framing (show [[65, 255, 250, 24, 255], [255, 1, 255], [240, 66]].flatten =
    [[65, 255, 250, 24, 255, 255, 1, 255, 240, 66]].flatten from rfl)).1

end Netcatty.Telnet
