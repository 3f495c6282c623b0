import Netcatty.TelnetProtocol

/-!
What is escaped for the wire is what the telnet parser hands over.

A 255 is written twice; the scan for the end of a subnegotiation steps over every such pair, and
the payload is read back pair by pair.  So a stream of data, option commands and subnegotiations
is reported item by item, wherever their bytes are 255 or 240 (`feed_wire`).
-/

namespace Netcatty.Telnet

open ResumableScan List

/-- The loop of `escapeIacForWire`. -/
def escapeLoop (buf : List UInt8) : List UInt8 := buf.flatMap fun b => if b = IAC then [b, IAC] else [b]

def escapeIacForWire (buf : List UInt8) : List UInt8 :=
  if buf = [] then buf
  else if IAC ∉ buf then buf
  else escapeLoop buf

theorem escapeLoop_iac (rest : List UInt8) : escapeLoop (IAC :: rest) = IAC :: IAC :: escapeLoop rest := rfl

theorem escapeLoop_plain {b : UInt8} (plain : b ≠ IAC) (rest : List UInt8) :
    escapeLoop (b :: rest) = b :: escapeLoop rest := by
  simp [escapeLoop, plain]

/-- The shortcuts change nothing: without a 255 nothing is added. -/
theorem escapeIacForWire_eq (buf : List UInt8) : escapeIacForWire buf = escapeLoop buf := by
  have plain : IAC ∉ buf → buf = escapeLoop buf := by
    intro absent
    induction buf with
    | nil => rfl
    | cons b rest ih =>
      obtain ⟨head, tail⟩ := not_or.mp (mt mem_cons.mpr absent)
      rw [escapeLoop_plain (Ne.symm head), ← ih tail]
  unfold escapeIacForWire
  split
  · rename_i empty
    rw [empty]
    rfl
  · split
    · rename_i absent
      exact plain absent
    · rfl

/-! ## Payloads -/

theorem unescapeLoop_escapeLoop (payload : List UInt8) : unescapeLoop (escapeLoop payload) = payload := by
  induction payload with
  | nil => rfl
  | cons b rest ih =>
    by_cases iac : b = IAC
    · rw [iac, escapeLoop_iac, unescapeLoop, if_pos ⟨rfl, rfl⟩, ih]
    · rw [escapeLoop_plain iac]
      cases escaped : escapeLoop rest with
      | nil =>
        rw [escaped] at ih
        rw [unescapeLoop, ← ih]
        rfl
      | cons c more =>
        rw [unescapeLoop, if_neg (fun pair => iac pair.1), ← escaped, ih]

theorem unescapeLoop_plain {buf : List UInt8} (absent : IAC ∉ buf) : unescapeLoop buf = buf := by
  induction buf using unescapeLoop.induct with
  | case1 => rfl
  | case2 b => rfl
  | case3 b c rest pair ih => exact absurd (pair.1 ▸ mem_cons_self) absent
  | case4 b c rest pair ih =>
    rw [unescapeLoop, if_neg pair, ih (fun mem => absent (mem_cons_of_mem b mem))]

theorem unescapeIacFromPayload_escapeIacForWire (payload : List UInt8) :
    unescapeIacFromPayload (escapeIacForWire payload) = payload := by
  rw [escapeIacForWire_eq]
  unfold unescapeIacFromPayload
  split
  · rename_i absent
    rw [← unescapeLoop_plain absent, unescapeLoop_escapeLoop]
  · exact unescapeLoop_escapeLoop payload

theorem splitSubnegotiation_escapeLoop (payload rest : List UInt8) :
    splitSubnegotiation (escapeLoop payload ++ IAC :: SE :: rest) = some (escapeLoop payload, rest) := by
  induction payload with
  | nil => simp [escapeLoop, splitSubnegotiation]
  | cons b payload ih =>
    by_cases iac : b = IAC
    · have other : IAC ≠ SE := by decide
      rw [iac, escapeLoop_iac, cons_append, cons_append, splitSubnegotiation, if_pos rfl,
        if_neg other, ih]
      rfl
    · rw [escapeLoop_plain iac, cons_append]
      -- something follows `b`, so the scan steps over `b` alone
      cases split : escapeLoop payload with
      | nil =>
        rw [split, nil_append] at ih
        rw [nil_append, splitSubnegotiation, if_neg iac, ih]
        rfl
      | cons c more =>
        rw [split, cons_append] at ih
        rw [cons_append, splitSubnegotiation, if_neg iac, ih]
        rfl

/-! ## What is sent -/

/-- What one side of the line sends. -/
inductive Item where
  | data (buf : List UInt8)
  | command (cmd : UInt8) (option : isOptionCommand cmd) (opt : UInt8)
  | subnegotiation (opt : UInt8) (payload : List UInt8)

def Item.wire : Item → List UInt8
  | .data buf => escapeIacForWire buf
  | .command cmd _ opt => [IAC, cmd, opt]
  | .subnegotiation opt payload => IAC :: SB :: opt :: (escapeIacForWire payload ++ [IAC, SE])

def Item.events : Item → List TelnetEvent
  | .data buf => buf.map .data
  | .command cmd _ opt => [.command cmd opt]
  | .subnegotiation opt payload => [.subnegotiation opt payload]

/-- The callbacks that hand the items over, behind data not yet handed over: one for each run of
data that is not empty, one for each command and each subnegotiation. -/
def handedOver (out : List UInt8) : List Item → List ParserCall
  | [] => flushData out
  | .data buf :: items => handedOver (out ++ buf) items
  | .command cmd _ opt :: items => flushData out ++ .onCommand cmd opt :: handedOver [] items
  | .subnegotiation opt payload :: items =>
    flushData out ++ .onSubnegotiation opt payload :: handedOver [] items

theorem handedOver_events (items : List Item) (out : List UInt8) :
    (handedOver out items).flatMap ParserCall.events = out.map .data ++ items.flatMap Item.events := by
  induction items generalizing out with
  | nil => simp [handedOver, events_flushData]
  | cons item items ih =>
    cases item with
    | data buf => simp [handedOver, ih, Item.events]
    | command cmd option opt => simp [handedOver, ih, Item.events, events_flushData, ParserCall.events]
    | subnegotiation opt payload => simp [handedOver, ih, Item.events, events_flushData, ParserCall.events]

/-! ## The parser's loop on an item -/

theorem feedLoop_byte {b : UInt8} (plain : b ≠ IAC) (out rest : List UInt8) :
    feedLoop out (b :: rest) = feedLoop (out ++ [b]) rest := by
  have found : nextToken (b :: rest) = some (.byte b, rest) := @nextToken_bytes (.byte b) plain rest
  rw [feedLoop]
  split <;> simp_all

theorem feedLoop_escaped (out rest : List UInt8) :
    feedLoop out (IAC :: IAC :: rest) = feedLoop (out ++ [IAC]) rest := by
  have found : nextToken (IAC :: IAC :: rest) = some (.escaped, rest) := rfl
  rw [feedLoop]
  split <;> simp_all

theorem feedLoop_data (buf out rest : List UInt8) :
    feedLoop out (escapeLoop buf ++ rest) = feedLoop (out ++ buf) rest := by
  induction buf generalizing out with
  | nil => simp [escapeLoop]
  | cons b buf ih =>
    by_cases iac : b = IAC
    · rw [iac, escapeLoop_iac, cons_append, cons_append, feedLoop_escaped, ih, append_assoc,
        singleton_append]
    · rw [escapeLoop_plain iac, cons_append, feedLoop_byte iac, ih, append_assoc,
        singleton_append]

theorem feedLoop_command {cmd : UInt8} (option : isOptionCommand cmd) (opt : UInt8) (out rest : List UInt8) :
    feedLoop out (IAC :: cmd :: opt :: rest) =
      (flushData out ++ .onCommand cmd opt :: (feedLoop [] rest).1, (feedLoop [] rest).2) := by
  have found : nextToken (IAC :: cmd :: opt :: rest) = some (.command cmd opt, rest) :=
    @nextToken_bytes (.command cmd opt) option rest
  rw [feedLoop]
  split <;> simp_all

theorem feedLoop_subnegotiation (opt : UInt8) (payload out rest : List UInt8) :
    feedLoop out (IAC :: SB :: opt :: (escapeLoop payload ++ IAC :: SE :: rest)) =
      (flushData out ++ .onSubnegotiation opt payload :: (feedLoop [] rest).1, (feedLoop [] rest).2) := by
  have found : nextToken (IAC :: SB :: opt :: (escapeLoop payload ++ IAC :: SE :: rest)) =
      some (.subnegotiation opt (escapeLoop payload), rest) := by
    change (splitSubnegotiation (escapeLoop payload ++ IAC :: SE :: rest)).map _ = _
    rw [splitSubnegotiation_escapeLoop]
    rfl
  have undone := unescapeIacFromPayload_escapeIacForWire payload
  rw [escapeIacForWire_eq] at undone
  rw [feedLoop]
  split <;> simp_all

theorem feedLoop_wire (items : List Item) (out : List UInt8) :
    feedLoop out (items.flatMap Item.wire) = (handedOver out items, []) := by
  induction items generalizing out with
  | nil =>
    rw [flatMap_nil, feedLoop]
    split <;> simp_all [nextToken, handedOver]
  | cons item items ih =>
    rw [flatMap_cons]
    cases item with
    | data buf =>
      rw [Item.wire, escapeIacForWire_eq, feedLoop_data, ih]
      rfl
    | command cmd option opt =>
      have wire : (Item.command cmd option opt).wire ++ items.flatMap Item.wire =
          IAC :: cmd :: opt :: items.flatMap Item.wire := rfl
      rw [wire, feedLoop_command option, ih]
      rfl
    | subnegotiation opt payload =>
      have wire : (Item.subnegotiation opt payload).wire ++ items.flatMap Item.wire =
          IAC :: SB :: opt :: (escapeLoop payload ++ IAC :: SE :: items.flatMap Item.wire) := by
        simp [Item.wire, escapeIacForWire_eq]
      rw [wire, feedLoop_subnegotiation, ih]
      rfl

/-- The bytes of any items, fed to a new parser, are handed over as these items in order, data that
follow each other as one, and nothing stays pending.  Cut into chunks in any way they report the
same, byte by byte of the data. -/
theorem feed_wire (items : List Item) :
    (createTelnetParser.feed (items.flatMap Item.wire)).calls = handedOver [] items ∧
    (createTelnetParser.feed (items.flatMap Item.wire)).pending = [] ∧
    ∀ chunks : List (List UInt8), chunks.flatten = items.flatMap Item.wire →
      (feedAll chunks).events = items.flatMap Item.events ∧ (feedAll chunks).pending = [] := by
  have fed := feedLoop_wire items []
  have whole : createTelnetParser.feed (items.flatMap Item.wire) = ⟨handedOver [] items, []⟩ := by
    unfold TelnetParser.feed
    split
    · rename_i empty
      rw [empty, feedLoop] at fed
      have none : handedOver [] items = [] := (congrArg Prod.fst fed).symm
      rw [none]
      rfl
    · simp [createTelnetParser, fed]
  refine ⟨by rw [whole], by rw [whole], ?_⟩
  intro chunks same
  obtain ⟨events, pending⟩ := feedAll_eq chunks
  obtain ⟨loopEvents, loopPending⟩ := feedLoop_eq [] (items.flatMap Item.wire)
  rw [same] at events pending
  rw [fed, handedOver_events] at loopEvents
  rw [fed] at loopPending
  exact ⟨by rw [events]; exact loopEvents.symm, by rw [pending]; exact loopPending.symm⟩

/-- Bytes 255 in data and before the end of a subnegotiation, and a 240 behind one. -/
theorem feed_wire_bytes :
    (createTelnetParser.feed [255, 255, 65, 255, 251, 1, 255, 250, 24, 255, 255, 240, 255, 255, 255, 240]).calls =
      [.onData [255, 65], .onCommand 251 1, .onSubnegotiation 24 [255, 240, 255]] :=
  (feed_wire [.data [255], .data [65], .command WILL rfl 1, .subnegotiation 24 [255, 240, 255]]).1

end Netcatty.Telnet
