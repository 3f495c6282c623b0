import Netcatty.FifoNetwork
import Netcatty.TelnetNegotiator

/-!
Conversations of a telnet negotiator.

A started negotiator that answers any sequence of commands keeps `Negotiated`: what is enabled was
agreed on, and what the rest of the program is told of echoing is so.  What is already so draws no
command as long as ECHO is enabled in one direction at most, and it is enabled in both exactly when
a DO ECHO arrives while the peer echoes (`consistent_iff`).  Two started negotiators exchange twelve
commands, whichever reads first.
-/

namespace Netcatty.Telnet

open FifoNetwork List Option

/-! ## Conversations -/

/-- A command of the peer, and the size of the window when it arrives. -/
structure Received where
  cmd : UInt8
  opt : UInt8
  size : WindowSize

/-- A negotiator with all it has received and all calls it has made. -/
structure Conversation where
  negotiator : Negotiator
  received : List Received
  calls : List Call

def started : Conversation := ⟨(start createTelnetNegotiator).1, [], (start createTelnetNegotiator).2⟩

def Conversation.receive (c : Conversation) (r : Received) : Conversation :=
  let answer := handleCommand c.negotiator r.cmd r.opt r.size
  ⟨answer.1, c.received ++ [r], c.calls ++ answer.2⟩

/-- After `start`, these commands arrive. -/
def converse (commands : List Received) : Conversation := commands.foldl .receive started

/-- The last answer of a reading. -/
def lastOf {α β : Type} (read : α → Option β) (items : List α) : Option β := (items.filterMap read).getLast?

def Call.offers (opt : UInt8) : Call → Option UInt8
  | .writeCommand cmd o => if o = opt ∧ (cmd = WILL ∨ cmd = WONT) then some cmd else none
  | _ => none

def Call.remoteEcho : Call → Option Bool
  | .onRemoteEchoChange enabled => some enabled
  | _ => none

def Call.localEcho : Call → Option Bool
  | .onLocalEchoChange enabled => some enabled
  | _ => none

def Received.offers (opt : UInt8) (r : Received) : Option UInt8 :=
  if r.opt = opt ∧ (r.cmd = WILL ∨ r.cmd = WONT) then some r.cmd else none

def Received.requests (opt : UInt8) (r : Received) : Option UInt8 :=
  if r.opt = opt ∧ (r.cmd = DO ∨ r.cmd = DONT) then some r.cmd else none

def Negotiator.Confirms (n : Negotiator) (r : Received) : Prop :=
  (r.cmd = WILL ∧ r.opt ∈ n.enabledRemoteOptions) ∨ (r.cmd = WONT ∧ r.opt ∉ n.enabledRemoteOptions) ∨
    (r.cmd = DO ∧ r.opt ∈ n.enabledLocalOptions) ∨ (r.cmd = DONT ∧ r.opt ∉ n.enabledLocalOptions)

def Negotiator.Answers (n : Negotiator) (r : Received) : Prop :=
  ((r.cmd = WILL ∨ r.cmd = WONT) ∧ r.opt ∈ n.pendingDoRequests) ∨
    ((r.cmd = DO ∨ r.cmd = DONT) ∧ r.opt ∈ n.pendingWillRequests)

structure Agreed (c : Conversation) : Prop where
  offered : ∀ opt ∈ c.negotiator.enabledLocalOptions, lastOf (Call.offers opt) c.calls = some WILL
  requested : ∀ opt ∈ c.negotiator.enabledLocalOptions, lastOf (Received.requests opt) c.received = some DO
  remote : ∀ opt ∈ c.negotiator.enabledRemoteOptions, lastOf (Received.offers opt) c.received = some WILL
  remoteEcho : (lastOf Call.remoteEcho c.calls).getD false = decide (OPT.ECHO ∈ c.negotiator.enabledRemoteOptions)
  localEcho : (lastOf Call.localEcho c.calls).getD false = decide (OPT.ECHO ∈ c.negotiator.enabledLocalOptions)

/-- A command that says nothing new draws no command. -/
def Quiet (n : Negotiator) : Prop :=
  ∀ r : Received, n.Confirms r ∨ n.Answers r →
    ∀ cmd opt, .writeCommand cmd opt ∉ (handleCommand n r.cmd r.opt r.size).2

def EchoOnce (n : Negotiator) : Prop :=
  ¬(OPT.ECHO ∈ n.enabledLocalOptions ∧ OPT.ECHO ∈ n.enabledRemoteOptions)

structure Consistent (c : Conversation) : Prop where
  agreed : Agreed c
  quiet : Quiet c.negotiator
  echoOnce : EchoOnce c.negotiator

/-! ## What every command keeps -/

variable {α β : Type}

variable (read : α → Option β)

theorem lastOf_append (items more : List α) :
    lastOf read (items ++ more) = (lastOf read more).or (lastOf read items) := by
  simp [lastOf]

theorem lastOf_singleton (item : α) : lastOf read [item] = read item := by
  cases found : read item <;> simp [lastOf, found]

/-- The options that we agree to use ourselves. -/
def SupportedLocally (opt : UInt8) : Prop :=
  opt = OPT.NAWS ∨ opt = OPT.ECHO ∨ opt = OPT.TERMINAL_TYPE ∨ opt = OPT.SUPPRESS_GO_AHEAD

/-- The agreement with what its proof needs: which options are requested and enabled at all. -/
structure Negotiated (c : Conversation) : Prop extends Agreed c where
  pendingDo : ∀ opt ∈ c.negotiator.pendingDoRequests, opt = OPT.SUPPRESS_GO_AHEAD
  pendingWill : ∀ opt ∈ c.negotiator.pendingWillRequests, opt = OPT.TERMINAL_TYPE ∨ opt = OPT.NAWS
  pendingOffered : ∀ opt ∈ c.negotiator.pendingWillRequests, lastOf (Call.offers opt) c.calls = some WILL
  remoteSupported : ∀ opt ∈ c.negotiator.enabledRemoteOptions, opt = OPT.SUPPRESS_GO_AHEAD ∨ opt = OPT.ECHO
  localSupported : ∀ opt ∈ c.negotiator.enabledLocalOptions, SupportedLocally opt

theorem started_pendingDo : started.negotiator.pendingDoRequests = {OPT.SUPPRESS_GO_AHEAD} := rfl

theorem started_pendingWill : started.negotiator.pendingWillRequests = {OPT.NAWS, OPT.TERMINAL_TYPE} := rfl

theorem negotiated_started : Negotiated started where
  offered opt mem := absurd mem (Finset.notMem_empty opt)
  requested opt mem := absurd mem (Finset.notMem_empty opt)
  remote opt mem := absurd mem (Finset.notMem_empty opt)
  remoteEcho := by decide
  localEcho := by decide
  pendingDo opt mem := Finset.mem_singleton.mp (started_pendingDo ▸ mem)
  pendingWill opt mem := by
    rw [started_pendingWill, Finset.mem_insert, Finset.mem_singleton] at mem
    exact mem.symm
  pendingOffered opt mem := by
    rw [started_pendingWill, Finset.mem_insert, Finset.mem_singleton] at mem
    rcases mem with rfl | rfl <;> rfl
  remoteSupported opt mem := absurd mem (Finset.notMem_empty opt)
  localSupported opt mem := absurd mem (Finset.notMem_empty opt)

/-! ## What each command calls -/

@[simp] theorem lastOf_nil {α β : Type} (read : α → Option β) : lastOf read [] = none := rfl

@[simp] theorem lastOf_cons (item : α) (items : List α) :
    lastOf read (item :: items) = (lastOf read items).or (read item) := by
  rw [← singleton_append, lastOf_append, lastOf_singleton]

@[simp] theorem lastOf_ite (p : Prop) [Decidable p] (items more : List α) :
    lastOf read (if p then items else more) = if p then lastOf read items else lastOf read more :=
  apply_ite (lastOf read) p items more

theorem handleDo_supported {opt : UInt8} (supported : SupportedLocally opt) (n : Negotiator) (acknowledges : Bool)
    (size : WindowSize) :
    handleDo n acknowledges opt size = ({ n with enabledLocalOptions := insert opt n.enabledLocalOptions },
      (if acknowledges = false ∧ opt ∉ n.enabledLocalOptions then [.writeCommand WILL opt] else []) ++
      if opt ∈ n.enabledLocalOptions then []
      else if opt = OPT.NAWS then naws { n with enabledLocalOptions := insert opt n.enabledLocalOptions } size
      else if opt = OPT.ECHO then [.onLocalEchoChange true]
      else []) := by
  have echo : OPT.ECHO ≠ OPT.NAWS := by decide
  have type : OPT.TERMINAL_TYPE ≠ OPT.NAWS ∧ OPT.TERMINAL_TYPE ≠ OPT.ECHO := by decide
  have goAhead : OPT.SUPPRESS_GO_AHEAD ≠ OPT.NAWS ∧ OPT.SUPPRESS_GO_AHEAD ≠ OPT.ECHO := by decide
  unfold handleDo
  rcases supported with rfl | rfl | rfl | rfl
  · rw [if_pos rfl, if_pos rfl]
  · rw [if_neg echo, if_pos rfl, if_neg echo, if_pos rfl]
  · simp [type]
  · simp [goAhead]

theorem handleDo_unsupported {opt : UInt8} (supported : ¬SupportedLocally opt) (n : Negotiator) (acknowledges : Bool)
    (size : WindowSize) :
    handleDo n acknowledges opt size = (n, if acknowledges then [] else [.writeCommand WONT opt]) := by
  unfold SupportedLocally at supported
  obtain ⟨naws, echo, others⟩ := by simpa only [not_or] using supported
  simp [handleDo, naws, echo, others]

variable (n : Negotiator)

section

variable (acknowledges : Bool) (opt o : UInt8)

theorem offers_will : lastOf (Call.offers o) (handleWill n acknowledges opt).2 =
      if opt = OPT.ECHO ∧ opt ∈ n.enabledLocalOptions then if opt = o then some WONT else none else none := by
  have do_ : ¬(DO = WILL ∨ DO = WONT) := by decide
  have dont : ¬(DONT = WILL ∨ DONT = WONT) := by decide
  simp [handleWill, lastOf_append, Call.offers, do_, dont]

theorem offers_dont (other : opt ≠ o) :
    lastOf (Call.offers o) (handleDont n acknowledges opt).2 = none := by
  simp [handleDont, lastOf_append, Call.offers, other]

theorem offers_wont : lastOf (Call.offers o) (handleWont n acknowledges opt).2 = none := by
  have dont : ¬(DONT = WILL ∨ DONT = WONT) := by decide
  simp [handleWont, lastOf_append, Call.offers, dont]

end

theorem offers_do {opt : UInt8} (supported : SupportedLocally opt) (n : Negotiator) (acknowledges : Bool) (o : UInt8)
    (size : WindowSize) :
    lastOf (Call.offers o) (handleDo n acknowledges opt size).2 =
      if acknowledges = false ∧ opt ∉ n.enabledLocalOptions then if opt = o then some WILL else none else none := by
  have size' (m : Negotiator) : lastOf (Call.offers o) (naws m size) = none := by
    simp [naws, Call.offers]
  simp [handleDo_supported supported, lastOf_append, Call.offers, size']

/-! ## What every command keeps -/

theorem acknowledge_offer {cmd : UInt8} (offer : cmd = WILL ∨ cmd = WONT) (opt : UInt8) :
    acknowledge n cmd opt =
      ({ n with pendingDoRequests := n.pendingDoRequests.erase opt }, decide (opt ∈ n.pendingDoRequests)) := by
  have other : ¬((cmd = DO ∨ cmd = DONT) ∧ opt ∈ n.pendingWillRequests) := by
    rintro ⟨request, -⟩
    rcases offer with rfl | rfl <;> revert request <;> decide
  unfold acknowledge
  by_cases pending : opt ∈ n.pendingDoRequests
  · rw [if_pos ⟨offer, pending⟩, decide_eq_true pending]
  · rw [if_neg (fun both => pending both.2), if_neg other, decide_eq_false pending, Finset.erase_eq_of_notMem pending]

theorem acknowledge_request {cmd : UInt8} (request : cmd = DO ∨ cmd = DONT) (opt : UInt8) :
    acknowledge n cmd opt =
      ({ n with pendingWillRequests := n.pendingWillRequests.erase opt }, decide (opt ∈ n.pendingWillRequests)) := by
  have other : ¬((cmd = WILL ∨ cmd = WONT) ∧ opt ∈ n.pendingDoRequests) := by
    rintro ⟨offer, -⟩
    rcases request with rfl | rfl <;> revert offer <;> decide
  unfold acknowledge
  rw [if_neg other]
  by_cases pending : opt ∈ n.pendingWillRequests
  · rw [if_pos ⟨request, pending⟩, decide_eq_true pending]
  · rw [if_neg (fun both => pending both.2), decide_eq_false pending, Finset.erase_eq_of_notMem pending]

/-- A command with no meaning here changes nothing. -/
theorem handleCommand_other {n : Negotiator} {cmd : UInt8} (other : isOptionCommand cmd = false) (opt : UInt8)
    (size : WindowSize) : handleCommand n cmd opt size = (n, []) := by
  simp [isOptionCommand] at other
  simp [handleCommand, acknowledge, other]

theorem lastOf_kept {read : α → Option β} {more : List α} (silent : lastOf read more = none)
    (items : List α) : lastOf read (items ++ more) = lastOf read items := by
  rw [lastOf_append, silent, none_or]

theorem lastOf_new {read : α → Option β} {more : List α} {answer : β} (said : lastOf read more = some answer)
    (items : List α) : lastOf read (items ++ more) = some answer := by
  rw [lastOf_append, said, some_or]

section Steps

variable {c : Conversation} {opt : UInt8} {size : WindowSize}

section

variable (opt : UInt8) (size : WindowSize)

theorem handleCommand_will :
    handleCommand n WILL opt size = handleWill { n with pendingDoRequests := n.pendingDoRequests.erase opt }
      (decide (opt ∈ n.pendingDoRequests)) opt := by
  simp [handleCommand, acknowledge_offer]

theorem handleCommand_wont :
    handleCommand n WONT opt size = handleWont { n with pendingDoRequests := n.pendingDoRequests.erase opt }
      (decide (opt ∈ n.pendingDoRequests)) opt := by
  have other : WONT ≠ WILL ∧ WONT ≠ DO ∧ WONT ≠ DONT := by decide
  simp [handleCommand, acknowledge_offer, other]

theorem handleCommand_do :
    handleCommand n DO opt size = handleDo { n with pendingWillRequests := n.pendingWillRequests.erase opt }
      (decide (opt ∈ n.pendingWillRequests)) opt size := by
  have other : DO ≠ WILL := by decide
  simp [handleCommand, acknowledge_request, other]

theorem handleCommand_dont :
    handleCommand n DONT opt size = handleDont { n with pendingWillRequests := n.pendingWillRequests.erase opt }
      (decide (opt ∈ n.pendingWillRequests)) opt := by
  have other : DONT ≠ WILL ∧ DONT ≠ DO := by decide
  simp [handleCommand, acknowledge_request, other]

end

theorem requests_offer {cmd : UInt8} (offer : cmd = WILL ∨ cmd = WONT) (o : UInt8) :
    lastOf (Received.requests o) [⟨cmd, opt, size⟩] = none := by
  have other : ¬(cmd = DO ∨ cmd = DONT) := by
    rcases offer with rfl | rfl <;> decide
  simp [Received.requests, other]

theorem offers_request {cmd : UInt8} (request : cmd = DO ∨ cmd = DONT) (o : UInt8) :
    lastOf (Received.offers o) [⟨cmd, opt, size⟩] = none := by
  have other : ¬(cmd = WILL ∨ cmd = WONT) := by
    rcases request with rfl | rfl <;> decide
  simp [Received.offers, other]

section

variable (inv : Negotiated c)
include inv

theorem negotiated_will : Negotiated (c.receive ⟨WILL, opt, size⟩) := by
  have answer := handleCommand_will c.negotiator opt size
  have withdrawn {o : UInt8} (mem : o ∈ (c.receive ⟨WILL, opt, size⟩).negotiator.enabledLocalOptions) :
      o ∈ c.negotiator.enabledLocalOptions ∧ ¬(opt = OPT.ECHO ∧ opt = o) := by
    simp only [Conversation.receive, answer, handleWill] at mem
    split at mem
    · exact ⟨Finset.mem_of_mem_erase mem, fun same => Finset.ne_of_mem_erase mem same.2.symm⟩
    · rename_i keeps
      exact ⟨mem, fun same => keeps ⟨same.1, same.2 ▸ mem⟩⟩
  have enabled {o : UInt8} (mem : o ∈ (c.receive ⟨WILL, opt, size⟩).negotiator.enabledRemoteOptions) :
      o ∈ c.negotiator.enabledRemoteOptions ∨ (opt = OPT.SUPPRESS_GO_AHEAD ∨ opt = OPT.ECHO) ∧ o = opt := by
    simp only [Conversation.receive, answer, handleWill] at mem
    split at mem
    · rename_i supported
      exact (Finset.mem_insert.mp mem).symm.imp_right fun same => ⟨supported, same⟩
    · exact .inl mem
  have silent {o : UInt8} (other : ¬(opt = OPT.ECHO ∧ opt = o)) :
      lastOf (Call.offers o) (handleCommand c.negotiator WILL opt size).2 = none := by
    rw [answer, offers_will]
    split_ifs <;> simp_all
  constructor
  · constructor
    · intro o mem
      obtain ⟨held, other⟩ := withdrawn mem
      exact (lastOf_kept (silent other) _).trans (inv.offered o held)
    · intro o mem
      exact (lastOf_kept (requests_offer (.inl rfl) o) _).trans (inv.requested o (withdrawn mem).1)
    · intro o mem
      by_cases same : opt = o
      · exact lastOf_new (by simp [Received.offers, same]) _
      · rcases enabled mem with held | ⟨-, rfl⟩
        · exact (lastOf_kept (by simp [Received.offers, same]) _).trans (inv.remote o held)
        · exact absurd rfl same
    · have held := inv.remoteEcho
      simp only [Conversation.receive, answer, lastOf_append]
      simp [handleWill, lastOf_append, Call.remoteEcho]
      grind
    · have held := inv.localEcho
      simp [Conversation.receive, answer, lastOf_append, handleWill, Call.localEcho]
      grind
  · intro o mem
    exact inv.pendingDo o (Finset.mem_of_mem_erase (by simpa [Conversation.receive, answer, handleWill] using mem))
  · exact fun o mem => inv.pendingWill o (by simpa [Conversation.receive, answer, handleWill] using mem)
  · intro o mem
    have held : o ∈ c.negotiator.pendingWillRequests := by
      simpa [Conversation.receive, answer, handleWill] using mem
    refine (lastOf_kept (silent ?_) _).trans (inv.pendingOffered o held)
    rintro ⟨echo, rfl⟩
    have known := inv.pendingWill opt held
    rw [echo] at known
    revert known
    decide
  · intro o mem
    rcases enabled mem with held | ⟨supported, rfl⟩
    · exact inv.remoteSupported o held
    · exact supported
  · exact fun o mem => inv.localSupported o (withdrawn mem).1

theorem Negotiated.narrow {r : Received} {answer : Negotiator × List Call}
    (answered : handleCommand c.negotiator r.cmd r.opt r.size = answer)
    (locals : ∀ o ∈ answer.1.enabledLocalOptions, o ∈ c.negotiator.enabledLocalOptions ∧
      lastOf (Call.offers o) answer.2 = none ∧ lastOf (Received.requests o) [r] = none)
    (remotes : ∀ o ∈ answer.1.enabledRemoteOptions, o ∈ c.negotiator.enabledRemoteOptions ∧
      lastOf (Received.offers o) [r] = none)
    (remoteEcho : (lastOf Call.remoteEcho (c.calls ++ answer.2)).getD false =
      decide (OPT.ECHO ∈ answer.1.enabledRemoteOptions))
    (localEcho : (lastOf Call.localEcho (c.calls ++ answer.2)).getD false =
      decide (OPT.ECHO ∈ answer.1.enabledLocalOptions))
    (pendingDo : ∀ o ∈ answer.1.pendingDoRequests, o ∈ c.negotiator.pendingDoRequests)
    (pendingWill : ∀ o ∈ answer.1.pendingWillRequests, o ∈ c.negotiator.pendingWillRequests ∧
      lastOf (Call.offers o) answer.2 = none) : Negotiated (c.receive r) := by
  have same : c.receive r = ⟨answer.1, c.received ++ [r], c.calls ++ answer.2⟩ := by
    rw [Conversation.receive, answered]
  rw [same]
  constructor
  · constructor
    · exact fun o mem => (lastOf_kept (locals o mem).2.1 _).trans (inv.offered o (locals o mem).1)
    · exact fun o mem => (lastOf_kept (locals o mem).2.2 _).trans (inv.requested o (locals o mem).1)
    · exact fun o mem => (lastOf_kept (remotes o mem).2 _).trans (inv.remote o (remotes o mem).1)
    · exact remoteEcho
    · exact localEcho
  · exact fun o mem => inv.pendingDo o (pendingDo o mem)
  · exact fun o mem => inv.pendingWill o (pendingWill o mem).1
  · exact fun o mem => (lastOf_kept (pendingWill o mem).2 _).trans (inv.pendingOffered o (pendingWill o mem).1)
  · exact fun o mem => inv.remoteSupported o (remotes o mem).1
  · exact fun o mem => inv.localSupported o (locals o mem).1

theorem negotiated_wont : Negotiated (c.receive ⟨WONT, opt, size⟩) := by
  refine inv.narrow (handleCommand_wont c.negotiator opt size) (fun o mem => ?_) (fun o mem => ?_) ?_ ?_
    (fun o mem => Finset.mem_of_mem_erase mem) fun o mem => ⟨mem, offers_wont ..⟩
  · exact ⟨mem, offers_wont .., requests_offer (.inr rfl) o⟩
  · have other := Finset.ne_of_mem_erase mem
    exact ⟨Finset.mem_of_mem_erase mem, by simp [Received.offers, other.symm]⟩
  · have held := inv.remoteEcho
    simp [lastOf_append, handleWont, Call.remoteEcho]
    grind
  · have held := inv.localEcho
    simp [lastOf_append, handleWont, Call.localEcho]
    grind

omit inv in
theorem requests_do (o : UInt8) :
    lastOf (Received.requests o) [⟨DO, opt, size⟩] = if opt = o then some DO else none := by
  simp [Received.requests]

theorem negotiated_do_supported (supported : SupportedLocally opt) :
    Negotiated (c.receive ⟨DO, opt, size⟩) := by
  have answer := handleCommand_do c.negotiator opt size
  rw [handleDo_supported supported] at answer
  have enabled {o : UInt8} (mem : o ∈ (c.receive ⟨DO, opt, size⟩).negotiator.enabledLocalOptions) :
      o = opt ∨ o ∈ c.negotiator.enabledLocalOptions := by
    simpa [Conversation.receive, answer] using mem
  have offers (o : UInt8) : lastOf (Call.offers o) (handleCommand c.negotiator DO opt size).2 =
      if opt ∉ c.negotiator.pendingWillRequests ∧ opt ∉ c.negotiator.enabledLocalOptions then
        if opt = o then some WILL else none
      else none := by
    rw [handleCommand_do, offers_do supported]
    simp
  have silent {o : UInt8} (known : opt = o → o ∈ c.negotiator.pendingWillRequests ∨ o ∈ c.negotiator.enabledLocalOptions) :
      lastOf (Call.offers o) (handleCommand c.negotiator DO opt size).2 = none := by
    rw [offers]
    split_ifs with new same
    · subst same
      exact absurd (known rfl) (not_or.mpr new)
    · rfl
    · rfl
  constructor
  · constructor
    · intro o mem
      by_cases held : o ∈ c.negotiator.enabledLocalOptions
      · exact (lastOf_kept (silent fun _ => .inr held) _).trans (inv.offered o held)
      · obtain rfl := (enabled mem).resolve_right held
        by_cases pending : o ∈ c.negotiator.pendingWillRequests
        · exact (lastOf_kept (silent fun _ => .inl pending) _).trans (inv.pendingOffered o pending)
        · exact lastOf_new (by rw [offers, if_pos ⟨pending, held⟩, if_pos rfl]) _
    · intro o mem
      by_cases same : opt = o
      · exact lastOf_new (by rw [requests_do, if_pos same]) _
      · have held := (enabled mem).resolve_left (Ne.symm same)
        exact (lastOf_kept (by rw [requests_do, if_neg same]) _).trans (inv.requested o held)
    · intro o mem
      have held : o ∈ c.negotiator.enabledRemoteOptions := by
        simpa [Conversation.receive, answer] using mem
      exact (lastOf_kept (offers_request (.inl rfl) o) _).trans (inv.remote o held)
    · have held := inv.remoteEcho
      simp [Conversation.receive, answer, lastOf_append, naws, Call.remoteEcho]
      grind
    · have held := inv.localEcho
      have other : OPT.ECHO ≠ OPT.NAWS := by decide
      simp [Conversation.receive, answer, lastOf_append, naws, Call.localEcho]
      grind
  · exact fun o mem => inv.pendingDo o (by simpa [Conversation.receive, answer] using mem)
  · intro o mem
    exact inv.pendingWill o (Finset.mem_of_mem_erase (by simpa [Conversation.receive, answer] using mem))
  · intro o mem
    have held : o ∈ c.negotiator.pendingWillRequests :=
      Finset.mem_of_mem_erase (by simpa [Conversation.receive, answer] using mem)
    exact (lastOf_kept (silent fun _ => .inl held) _).trans (inv.pendingOffered o held)
  · exact fun o mem => inv.remoteSupported o (by simpa [Conversation.receive, answer] using mem)
  · intro o mem
    rcases enabled mem with rfl | held
    · exact supported
    · exact inv.localSupported o held

theorem negotiated_do_unsupported (supported : ¬SupportedLocally opt) :
    Negotiated (c.receive ⟨DO, opt, size⟩) := by
  have answer := handleCommand_do c.negotiator opt size
  rw [handleDo_unsupported supported] at answer
  -- the option is none of ours, so the refusal is about no option that is enabled or asked for
  have other {o : UInt8} (known : SupportedLocally o) : opt ≠ o := fun same => supported (same ▸ known)
  have silent {o : UInt8} (known : SupportedLocally o) (acknowledges : Bool) :
      lastOf (Call.offers o) (if acknowledges then [] else [.writeCommand WONT opt]) = none := by
    simp [Call.offers, other known]
  refine inv.narrow answer (fun o mem => ?_) (fun o mem => ⟨mem, offers_request (.inl rfl) o⟩) ?_ ?_
    (fun o mem => mem) fun o mem => ?_
  · have known := inv.localSupported o mem
    exact ⟨mem, silent known _, by rw [requests_do, if_neg (other known)]⟩
  · have held := inv.remoteEcho
    simpa [lastOf_append, Call.remoteEcho] using held
  · have held := inv.localEcho
    simpa [lastOf_append, Call.localEcho] using held
  · have held := Finset.mem_of_mem_erase mem
    refine ⟨held, silent ?_ _⟩
    rcases inv.pendingWill o held with rfl | rfl
    · exact .inr (.inr (.inl rfl))
    · exact .inl rfl

theorem negotiated_do : Negotiated (c.receive ⟨DO, opt, size⟩) := by
  by_cases supported : SupportedLocally opt
  · exact negotiated_do_supported inv supported
  · exact negotiated_do_unsupported inv supported

theorem negotiated_dont : Negotiated (c.receive ⟨DONT, opt, size⟩) := by
  have silent {o : UInt8} (other : o ≠ opt) (acknowledges : Bool) (n : Negotiator) :
      lastOf (Call.offers o) (handleDont n acknowledges opt).2 = none := offers_dont _ _ _ _ other.symm
  refine inv.narrow (handleCommand_dont c.negotiator opt size) (fun o mem => ?_)
    (fun o mem => ⟨mem, offers_request (.inr rfl) o⟩) ?_ ?_ (fun o mem => mem) fun o mem => ?_
  · have other := Finset.ne_of_mem_erase mem
    exact ⟨Finset.mem_of_mem_erase mem, silent other .., by simp [Received.requests, other.symm]⟩
  · have held := inv.remoteEcho
    simpa [lastOf_append, handleDont, Call.remoteEcho] using held
  · have held := inv.localEcho
    simp [lastOf_append, handleDont, Call.localEcho]
    grind
  · obtain ⟨other, held⟩ : o ≠ opt ∧ o ∈ c.negotiator.pendingWillRequests := by
      simpa [handleDont] using mem
    exact ⟨held, silent other ..⟩

theorem negotiated_other {cmd : UInt8} (other : isOptionCommand cmd = false) :
    Negotiated (c.receive ⟨cmd, opt, size⟩) := by
  have answer := handleCommand_other (n := c.negotiator) other opt size
  simp [isOptionCommand] at other
  refine inv.narrow answer (fun o mem => ⟨mem, rfl, by simp [Received.requests, other]⟩)
    (fun o mem => ⟨mem, by simp [Received.offers, other]⟩) ?_ ?_ (fun o mem => mem) fun o mem => ⟨mem, rfl⟩
  · simpa using inv.remoteEcho
  · simpa using inv.localEcho

end

end Steps

theorem negotiated_receive {c : Conversation} (inv : Negotiated c) (r : Received) : Negotiated (c.receive r) := by
  obtain ⟨cmd, opt, size⟩ := r
  by_cases option : isOptionCommand cmd
  · unfold isOptionCommand at option
    rcases of_decide_eq_true option with rfl | rfl | rfl | rfl
    · exact negotiated_will inv
    · exact negotiated_wont inv
    · exact negotiated_do inv
    · exact negotiated_dont inv
  · exact negotiated_other inv (by simpa using option)

theorem negotiated_converse (commands : List Received) : Negotiated (converse commands) := by
  induction commands using List.reverseRecOn with
  | nil => exact negotiated_started
  | append_singleton commands r ih =>
    unfold converse at ih ⊢
    rw [foldl_append]
    exact negotiated_receive ih r

/-! ## Echoing -/

/-- The peer asks us to echo while it echoes itself. -/
def EchoAsked (n : Negotiator) (r : Received) : Prop :=
  r.cmd = DO ∧ r.opt = OPT.ECHO ∧ OPT.ECHO ∈ n.enabledRemoteOptions

/-- One command keeps ECHO to one direction, unless it asks for what the peer does. -/
theorem echoOnce_handleCommand {n : Negotiator} (once : EchoOnce n) (r : Received) :
    EchoOnce (handleCommand n r.cmd r.opt r.size).1 ↔ ¬EchoAsked n r := by
  obtain ⟨cmd, opt, size⟩ := r
  unfold EchoOnce at once
  by_cases option : isOptionCommand cmd
  · unfold isOptionCommand at option
    rcases of_decide_eq_true option with rfl | rfl | rfl | rfl
    · have other : WILL ≠ DO := by decide
      simp only [handleCommand_will, handleWill, EchoOnce, EchoAsked, other, false_and, not_false_eq_true, iff_true]
      grind
    · have other : WONT ≠ DO := by decide
      simp only [handleCommand_wont, handleWont, EchoOnce, EchoAsked, other, false_and, not_false_eq_true, iff_true]
      grind
    · by_cases supported : SupportedLocally opt
      · simp only [handleCommand_do, handleDo_supported supported, EchoOnce, EchoAsked, true_and]
        grind
      · have other : opt ≠ OPT.ECHO := fun same => supported (same ▸ .inr (.inl rfl))
        simp only [handleCommand_do, handleDo_unsupported supported, EchoOnce, EchoAsked, true_and, other, false_and,
          not_false_eq_true, iff_true]
        exact once
    · have other : DONT ≠ DO := by decide
      simp only [handleCommand_dont, handleDont, EchoOnce, EchoAsked, other, false_and, not_false_eq_true, iff_true]
      grind
  · have other : cmd ≠ DO := by
      rintro rfl
      exact option rfl
    rw [handleCommand_other (by simpa using option)]
    simp [EchoOnce, EchoAsked, other, once]

theorem quiet_of_echoOnce {c : Conversation} (inv : Negotiated c) (once : EchoOnce c.negotiator) : Quiet c.negotiator := by
  rintro ⟨cmd, opt, size⟩ known
  unfold EchoOnce at once
  have goAhead : OPT.SUPPRESS_GO_AHEAD ≠ OPT.ECHO := by decide
  by_cases option : isOptionCommand cmd
  · unfold isOptionCommand at option
    rcases of_decide_eq_true option with rfl | rfl | rfl | rfl
    · have enabled : opt ∈ c.negotiator.enabledRemoteOptions ∨ opt ∈ c.negotiator.pendingDoRequests := by
        have other : WILL ≠ WONT ∧ WILL ≠ DO ∧ WILL ≠ DONT := by decide
        simpa [Negotiator.Confirms, Negotiator.Answers, other] using known
      have supported : opt = OPT.SUPPRESS_GO_AHEAD ∨ opt = OPT.ECHO := by
        rcases enabled with held | pending
        · exact inv.remoteSupported opt held
        · exact .inl (inv.pendingDo opt pending)
      have stays : ¬(opt = OPT.ECHO ∧ opt ∈ c.negotiator.enabledLocalOptions) := by
        rintro ⟨rfl, held⟩
        rcases enabled with remote | pending
        · exact once ⟨held, remote⟩
        · exact goAhead (inv.pendingDo _ pending).symm
      intro cmd o
      simp only [handleCommand_will, handleWill]
      grind
    · have off : opt ∉ c.negotiator.enabledRemoteOptions ∨ opt ∈ c.negotiator.pendingDoRequests := by
        have other : WONT ≠ WILL ∧ WONT ≠ DO ∧ WONT ≠ DONT := by decide
        simpa [Negotiator.Confirms, Negotiator.Answers, other] using known
      intro cmd o
      simp only [handleCommand_wont, handleWont]
      grind
    · have enabled : opt ∈ c.negotiator.enabledLocalOptions ∨ opt ∈ c.negotiator.pendingWillRequests := by
        have other : DO ≠ WILL ∧ DO ≠ WONT ∧ DO ≠ DONT := by decide
        simpa [Negotiator.Confirms, Negotiator.Answers, other] using known
      have supported : SupportedLocally opt := by
        rcases enabled with held | pending
        · exact inv.localSupported opt held
        · rcases inv.pendingWill opt pending with rfl | rfl
          · exact .inr (.inr (.inl rfl))
          · exact .inl rfl
      intro cmd o
      simp only [handleCommand_do, handleDo_supported supported, naws]
      grind
    · have off : opt ∉ c.negotiator.enabledLocalOptions ∨ opt ∈ c.negotiator.pendingWillRequests := by
        have other : DONT ≠ WILL ∧ DONT ≠ WONT ∧ DONT ≠ DO := by decide
        simpa [Negotiator.Confirms, Negotiator.Answers, other] using known
      intro cmd o
      simp only [handleCommand_dont, handleDont]
      grind
  · intro cmd o
    rw [handleCommand_other (by simpa using option)]
    exact not_mem_nil

theorem echoOnce_started : EchoOnce started.negotiator := by
  unfold EchoOnce
  decide

theorem converse_append (commands : List Received) (r : Received) :
    converse (commands ++ [r]) = (converse commands).receive r := by
  simp [converse]

theorem consistent_iff (commands : List Received) :
    (∀ before, before <+: commands → Consistent (converse before)) ↔
      ∀ before r, before ++ [r] <+: commands → ¬EchoAsked (converse before).negotiator r := by
  constructor
  · intro consistent before r upTo
    have once := (consistent before ((prefix_append before [r]).trans upTo)).echoOnce
    have after := (consistent (before ++ [r]) upTo).echoOnce
    rw [converse_append] at after
    exact (echoOnce_handleCommand once r).mp after
  · intro never before
    induction before using List.reverseRecOn with
    | nil => exact fun _ => ⟨negotiated_started.toAgreed, quiet_of_echoOnce negotiated_started echoOnce_started, echoOnce_started⟩
    | append_singleton before r ih =>
      intro upTo
      have once := (ih ((prefix_append before [r]).trans upTo)).echoOnce
      have after := (echoOnce_handleCommand once r).mpr (never before r upTo)
      have negotiated := negotiated_converse (before ++ [r])
      have here : EchoOnce (converse (before ++ [r])).negotiator := by
        rw [converse_append]
        exact after
      exact ⟨negotiated.toAgreed, quiet_of_echoOnce negotiated here, here⟩

/-- The peer echoes, and asks us to echo. -/
def bothEcho : List Received := [⟨WILL, OPT.ECHO, ⟨none, none⟩⟩, ⟨DO, OPT.ECHO, ⟨none, none⟩⟩]

theorem not_consistent_bothEcho :
    ¬∀ commands : List Received, ∀ before, before <+: commands → Consistent (converse before) := by
  intro consistent
  have once : EchoOnce (converse bothEcho).negotiator :=
    (consistent bothEcho bothEcho (prefix_refl bothEcho)).echoOnce
  revert once
  unfold EchoOnce
  decide

/-! ## Two negotiators -/

/-- What goes over the line between two negotiators. -/
inductive Message where
  | command (cmd opt : UInt8)
  | subnegotiation (opt : UInt8) (payload : List UInt8)

def Call.message : Call → Option Message
  | .writeCommand cmd opt => some (.command cmd opt)
  | .writeSubnegotiation opt payload => some (.subnegotiation opt payload)
  | _ => none

def answer (termType : List UInt8) (n : Negotiator) (size : WindowSize) : Message → Negotiator × List Call
  | .command cmd opt => handleCommand n cmd opt size
  | .subnegotiation opt payload => (n, handleSubnegotiation termType opt payload)

/-- A negotiator at one end, which has read so many messages; its window may have another size at
each of them. -/
def peer (termType : List UInt8) (size : ℕ → WindowSize) : Process (Negotiator × ℕ) Message Message where
  read s := some fun message =>
    (((answer termType s.1 (size s.2) message).1, s.2 + 1),
      (answer termType s.1 (size s.2) message).2.filterMap Call.message)

/-- Both have called `start`, and nothing has arrived yet. -/
def bothStarted : Config (Negotiator × ℕ) (Negotiator × ℕ) Message Message :=
  ⟨(started.negotiator, 0), (started.negotiator, 0), started.calls.filterMap Call.message,
    started.calls.filterMap Call.message⟩

/-- What a started negotiator answers to the requests of another, and that it answers nothing to
such answers. -/
theorem feed_started (termType : List UInt8) (size : ℕ → WindowSize) : ∃ middle last,
    (peer termType size).feed (started.negotiator, 0) (started.calls.filterMap Call.message) =
      some (middle, [.command WILL OPT.SUPPRESS_GO_AHEAD, .command DONT OPT.TERMINAL_TYPE, .command DONT OPT.NAWS]) ∧
    (peer termType size).feed middle
        [.command WILL OPT.SUPPRESS_GO_AHEAD, .command DONT OPT.TERMINAL_TYPE, .command DONT OPT.NAWS] =
      some (last, []) :=
  ⟨_, _, rfl, rfl⟩

theorem twelve_messages (termType termType' : List UInt8) (size size' : ℕ → WindowSize) : ∃ last last',
    ∀ k config, Run (peer termType size) (peer termType' size') k bothStarted config →
      ∃ m, 12 = k + m ∧ Run (peer termType size) (peer termType' size') m config ⟨last, last', [], []⟩ := by
  obtain ⟨middle, last, asked, done⟩ := feed_started termType size
  obtain ⟨middle', last', asked', done'⟩ := feed_started termType' size'
  refine ⟨last, last', ?_⟩
  intro k config run
  have left := @run_left _ _ _ _ _ (peer termType' size') _ _ _ _ asked (started.negotiator, 0)
    (started.calls.filterMap Call.message) []
  have right := @run_right _ _ _ _ (peer termType size) _ _ _ _ _ asked' middle
    [.command WILL OPT.SUPPRESS_GO_AHEAD, .command DONT OPT.TERMINAL_TYPE, .command DONT OPT.NAWS] []
  have left' := @run_left _ _ _ _ _ (peer termType' size') _ _ _ _ done middle'
    [.command WILL OPT.SUPPRESS_GO_AHEAD, .command DONT OPT.TERMINAL_TYPE, .command DONT OPT.NAWS] []
  have right' := @run_right _ _ _ _ (peer termType size) _ _ _ _ _ done' last [] []
  rw [append_nil] at left left' right'
  exact (((left.trans right).trans left').trans right').confluent (stuck_of_empty last last') run

/-- Along any commands a conversation is consistent if and only if the peer never asks us to echo
while it echoes itself, and two negotiators that are connected come to rest. -/
theorem negotiation_consistent (commands : List Received) :
    ((∀ before, before <+: commands → Consistent (converse before)) ↔
      ∀ before r, before ++ [r] <+: commands → ¬EchoAsked (converse before).negotiator r) ∧
    ∀ (termType termType' : List UInt8) (size size' : ℕ → WindowSize), ∃ last last', ∀ k config,
      Run (peer termType size) (peer termType' size') k bothStarted config →
        ∃ m, 12 = k + m ∧ Run (peer termType size) (peer termType' size') m config ⟨last, last', [], []⟩ :=
  ⟨consistent_iff commands, twelve_messages⟩

/-- A server that echoes, and asks for the size of the window and the type of the terminal. -/
def login : List Received :=
  [⟨WILL, OPT.ECHO, ⟨some 120, some 40⟩⟩, ⟨WILL, OPT.SUPPRESS_GO_AHEAD, ⟨some 120, some 40⟩⟩,
    ⟨DO, OPT.NAWS, ⟨some 120, some 40⟩⟩, ⟨DO, OPT.TERMINAL_TYPE, ⟨some 120, some 40⟩⟩]

theorem negotiation_consistent_login : Consistent (converse login) := by
  refine (negotiation_consistent login).1.mpr ?_ login (prefix_refl login)
  rintro before r upTo ⟨cmd, opt, -⟩
  have mem : r ∈ login := upTo.subset (mem_append_right before (mem_singleton_self r))
  have other : ∀ r ∈ login, ¬(r.cmd = DO ∧ r.opt = OPT.ECHO) := by decide
  exact other r mem ⟨cmd, opt⟩

end Netcatty.Telnet
