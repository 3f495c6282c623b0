import Mathlib.Data.Finset.Basic
import Mathlib.Data.Rat.Floor
import Netcatty.TelnetRoundTrip

/-!
Telnet option negotiation.

`start` asks for what legacy servers wait for, and `handleCommand` answers one option command of
the peer.  Requests that are pending, and what is enabled on either side, are sets of options.
-/

namespace Netcatty.Telnet

namespace OPT

def ECHO : UInt8 := 1
def SUPPRESS_GO_AHEAD : UInt8 := 3
def TERMINAL_TYPE : UInt8 := 24
def NAWS : UInt8 := 31

end OPT

def SUBOPTION_IS : UInt8 := 0
def SUBOPTION_SEND : UInt8 := 1

/-- A call of the negotiator to what it was made with. -/
inductive Call where
  | writeCommand (cmd opt : UInt8)
  | writeSubnegotiation (opt : UInt8) (payload : List UInt8)
  | onRemoteEchoChange (enabled : Bool)
  | onLocalEchoChange (enabled : Bool)
  deriving DecidableEq

structure Negotiator where
  pendingDoRequests : Finset UInt8
  pendingWillRequests : Finset UInt8
  enabledRemoteOptions : Finset UInt8
  enabledLocalOptions : Finset UInt8
  deriving DecidableEq

def createTelnetNegotiator : Negotiator := ⟨∅, ∅, ∅, ∅⟩

/-- What `getWindowSize` returns: each number if it is a finite one. -/
structure WindowSize where
  cols : Option ℚ
  rows : Option ℚ

/-- A finite positive number as an integer, or the default. -/
def safeSize (size : Option ℚ) (default : ℕ) : ℕ :=
  ((size.filter (0 < ·)).map fun size => ⌊size⌋.toNat).getD default

/-- The two low bytes, high one first. -/
def sizeBytes (size : ℕ) : List UInt8 := [UInt8.ofNat (size / 256), UInt8.ofNat size]

variable (n : Negotiator)

def naws (size : WindowSize) : List Call :=
  if OPT.NAWS ∉ n.enabledLocalOptions then []
  else [.writeSubnegotiation OPT.NAWS
    (escapeIacForWire (sizeBytes (safeSize size.cols 80) ++ sizeBytes (safeSize size.rows 24)))]

def sendTerminalType (termType : List UInt8) : List Call :=
  [.writeSubnegotiation OPT.TERMINAL_TYPE (SUBOPTION_IS :: termType)]

def requestOption (cmd opt : UInt8) : Negotiator × List Call :=
  if cmd = DO then
    ({ n with pendingDoRequests := insert opt n.pendingDoRequests }, [.writeCommand cmd opt])
  else if cmd = WILL then
    ({ n with pendingWillRequests := insert opt n.pendingWillRequests }, [.writeCommand cmd opt])
  else (n, [.writeCommand cmd opt])

def start : Negotiator × List Call :=
  let goAhead := requestOption n DO OPT.SUPPRESS_GO_AHEAD
  let type := requestOption goAhead.1 WILL OPT.TERMINAL_TYPE
  let size := requestOption type.1 WILL OPT.NAWS
  (size.1, goAhead.2 ++ type.2 ++ size.2)

/-- `acknowledgesOurRequest`, and the request is no longer pending then. -/
def acknowledge (cmd opt : UInt8) : Negotiator × Bool :=
  if (cmd = WILL ∨ cmd = WONT) ∧ opt ∈ n.pendingDoRequests then
    ({ n with pendingDoRequests := n.pendingDoRequests.erase opt }, true)
  else if (cmd = DO ∨ cmd = DONT) ∧ opt ∈ n.pendingWillRequests then
    ({ n with pendingWillRequests := n.pendingWillRequests.erase opt }, true)
  else (n, false)

def handleWill (acknowledges : Bool) (opt : UInt8) : Negotiator × List Call :=
  let supported := opt = OPT.SUPPRESS_GO_AHEAD ∨ opt = OPT.ECHO
  let wasEnabled := opt ∈ n.enabledRemoteOptions
  let remote := if supported then insert opt n.enabledRemoteOptions else n.enabledRemoteOptions
  let withdraws := opt = OPT.ECHO ∧ opt ∈ n.enabledLocalOptions
  let localOptions := if withdraws then n.enabledLocalOptions.erase opt else n.enabledLocalOptions
  ({ n with enabledRemoteOptions := remote, enabledLocalOptions := localOptions },
    (if opt = OPT.ECHO then [.onRemoteEchoChange true] else []) ++
    (if withdraws then [.onLocalEchoChange false, .writeCommand WONT opt] else []) ++
    (if acknowledges then []
    else if supported ∧ ¬wasEnabled then [.writeCommand DO opt]
    else if ¬supported then [.writeCommand DONT opt]
    else []))

def handleDo (acknowledges : Bool) (opt : UInt8) (size : WindowSize) :
    Negotiator × List Call :=
  let wasEnabled := opt ∈ n.enabledLocalOptions
  let enabled := { n with enabledLocalOptions := insert opt n.enabledLocalOptions }
  let agrees : List Call := if acknowledges = false ∧ ¬wasEnabled then [.writeCommand WILL opt] else []
  if opt = OPT.NAWS then (enabled, agrees ++ if wasEnabled then [] else naws enabled size)
  else if opt = OPT.ECHO then (enabled, agrees ++ if wasEnabled then [] else [.onLocalEchoChange true])
  else if opt = OPT.TERMINAL_TYPE ∨ opt = OPT.SUPPRESS_GO_AHEAD then (enabled, agrees)
  else (n, if acknowledges then [] else [.writeCommand WONT opt])

def handleDont (acknowledges : Bool) (opt : UInt8) : Negotiator × List Call :=
  let wasEnabled := opt ∈ n.enabledLocalOptions
  ({ n with enabledLocalOptions := n.enabledLocalOptions.erase opt },
    (if opt = OPT.ECHO ∧ wasEnabled then [.onLocalEchoChange false] else []) ++
    (if acknowledges = false ∧ (wasEnabled ∨ opt ∈ n.pendingWillRequests) then [.writeCommand WONT opt]
    else []))

def handleWont (acknowledges : Bool) (opt : UInt8) : Negotiator × List Call :=
  let wasEnabled := opt ∈ n.enabledRemoteOptions
  ({ n with enabledRemoteOptions := n.enabledRemoteOptions.erase opt },
    (if opt = OPT.ECHO then [.onRemoteEchoChange false] else []) ++
    (if acknowledges = false ∧ wasEnabled then [.writeCommand DONT opt] else []))

/-- `handleCommand`; `size` is what `getWindowSize` returns when it is asked. -/
def handleCommand (cmd opt : UInt8) (size : WindowSize) : Negotiator × List Call :=
  let acknowledged := acknowledge n cmd opt
  if cmd = WILL then handleWill acknowledged.1 acknowledged.2 opt
  else if cmd = DO then handleDo acknowledged.1 acknowledged.2 opt size
  else if cmd = DONT then handleDont acknowledged.1 acknowledged.2 opt
  else if cmd = WONT then handleWont acknowledged.1 acknowledged.2 opt
  else (acknowledged.1, [])

def handleSubnegotiation (termType : List UInt8) (opt : UInt8) (payload : List UInt8) : List Call :=
  if opt = OPT.TERMINAL_TYPE ∧ payload.head? = some SUBOPTION_SEND then sendTerminalType termType else []

end Netcatty.Telnet
