import Mathlib.Data.Finset.Card
import Netcatty.JsText

/-!
Transfers that borrow the SFTP session of a panel.

Closing the panel must not end a session that transfers still use.  The store counts the transfers
of a session and remembers that its close was asked for; the release of the last one begins a close
that a new transfer can still cancel, until the close is committed and the client's end begins.
Every interleaving of these calls keeps the promise on both sides (`leases_keep_sessions`): a session
is not ended under a transfer, and one whose close was asked for ends once nothing uses it.
-/

namespace Netcatty.SftpLeases

open List Function

/-! ## The store -/

structure HardCloseClaim where
  token : ℕ
  committed : Bool

/-- What the maps of the store hold under one session id; no entry is the empty set. -/
structure Lease where
  transfers : Finset JsString := ∅
  softClosed : Bool := false
  hardCloseClaim : Option HardCloseClaim := none

structure Released where
  released : Bool
  shouldHardClose : Bool
  remaining : ℕ

namespace Lease

variable (lease : Lease)

def isHeld : Bool := lease.transfers.card ≠ 0

def isHardCloseCommitted : Bool := lease.hardCloseClaim.any (·.committed)

def getPendingHardCloseToken : Option ℕ := lease.hardCloseClaim.map (·.token)

/-- The token of the close, and the count of tokens afterwards. -/
def beginHardClose (nextHardCloseToken : ℕ) : ℕ × Lease × ℕ :=
  match lease.hardCloseClaim with
  | some existing => (existing.token, lease, nextHardCloseToken)
  | none => (nextHardCloseToken + 1,
      { lease with hardCloseClaim := some ⟨nextHardCloseToken + 1, false⟩ }, nextHardCloseToken + 1)

/-- A close that is not committed is cancelled, and stays asked for. -/
def acquire (transferId : JsString) : Bool × Lease :=
  if transferId = [] ∨ lease.isHardCloseCommitted then (false, lease)
  else
    (transferId ∉ lease.transfers,
      { transfers := insert transferId lease.transfers
        softClosed := lease.softClosed || lease.hardCloseClaim.isSome
        hardCloseClaim := none })

def release (transferId : JsString) (nextHardCloseToken : ℕ) : Released × Lease × ℕ :=
  if transferId = [] then (⟨false, false, 0⟩, lease, nextHardCloseToken)
  else if transferId ∉ lease.transfers then
    (⟨false, lease.softClosed && !lease.isHeld, lease.transfers.card⟩, lease, nextHardCloseToken)
  else
    let left := { lease with transfers := lease.transfers.erase transferId }
    if left.isHeld then (⟨true, false, left.transfers.card⟩, left, nextHardCloseToken)
    else if lease.softClosed then
      let begun := left.beginHardClose nextHardCloseToken
      (⟨true, true, 0⟩, { begun.2.1 with softClosed := false }, begun.2.2)
    else (⟨true, false, 0⟩, left, nextHardCloseToken)

/-- Was the close put off? -/
def markSoftClosed : Bool × Lease := (lease.isHeld, { lease with softClosed := lease.isHeld })

def commitHardClose (closeToken : Option ℕ) : Bool × Lease :=
  match lease.hardCloseClaim with
  | none => (false, lease)
  | some claim =>
    if some claim.token ≠ closeToken ∨ claim.committed ∨ lease.isHeld then (false, lease)
    else (true, { lease with hardCloseClaim := some ⟨claim.token, true⟩ })

end Lease

/-! ## The bridges that use it -/

/-- One SFTP session, with the calls about it that wait. -/
structure Session where
  lease : Lease := {}
  /-- It is in `sftpClients`. -/
  client : Bool
  /-- The end of its client has begun. -/
  ended : Bool := false
  /-- `closeSftp` was called for it. -/
  closeAsked : Bool := false
  /-- The tokens of the calls of `hardCloseSftpSession` that wait for `setImmediate`. -/
  hardCloses : List (Option ℕ) := []
  /-- The calls of `closeSftp` that wait for `client.end()`, forced or not. -/
  teardowns : List Bool := []

namespace Session

variable (session : Session)

def markSoftClosed : Session := { session with lease := session.lease.markSoftClosed.2 }

def tearDown (force : Bool) : Session :=
  { session with ended := true, teardowns := force :: session.teardowns }

/-- `closeSftp` as far as `client.end()`. -/
def closeSftp (force : Bool) (nextHardCloseToken : ℕ) : Session × ℕ :=
  if !session.client then ({ session with lease := {} }, nextHardCloseToken)
  else if force then
    (if session.lease.isHeld then session.markSoftClosed else session.tearDown true, nextHardCloseToken)
  else
    let soft := session.lease.markSoftClosed
    if soft.1 then (session.markSoftClosed, nextHardCloseToken)
    else
      let begun := soft.2.beginHardClose nextHardCloseToken
      let committed := begun.2.1.commitHardClose (some begun.1)
      let closing := { session with lease := committed.2 }
      (if !committed.1 ∧ closing.lease.isHeld then closing.markSoftClosed else closing.tearDown false, begun.2.2)

/-- `hardCloseSftpSession` behind `setImmediate`. -/
def hardCloseSftpSession (closeToken : Option ℕ) (nextHardCloseToken : ℕ) : Session × ℕ :=
  if session.lease.isHeld then (session.markSoftClosed, nextHardCloseToken)
  else
    let committed := session.lease.commitHardClose closeToken
    if !committed.1 then (session, nextHardCloseToken)
    else { session with lease := committed.2 }.closeSftp true nextHardCloseToken

/-- `closeSftp` behind `client.end()`. -/
def teardownEnds (force : Bool) : Session :=
  if force ∧ session.lease.isHeld then session.markSoftClosed else { session with client := false, lease := {} }

def acquire (transferId : JsString) : Session :=
  { session with lease := (session.lease.acquire transferId).2 }

/-- The step of `releaseTransferSessionLeases` for one id. -/
def release (transferId : JsString) (nextHardCloseToken : ℕ) : Session × ℕ :=
  let result := session.lease.release transferId nextHardCloseToken
  ({ session with
      lease := result.2.1
      hardCloses := if result.1.shouldHardClose then
        result.2.1.getPendingHardCloseToken :: session.hardCloses else session.hardCloses }, result.2.2)

end Session

structure Bridges where
  sessions : JsString → Session
  nextHardCloseToken : ℕ

inductive Event where
  | acquire (transferId : JsString) (sftpIds : List JsString)
  | release (transferId : JsString) (sftpIds : List JsString)
  | closeSftp (sftpId : JsString)
  | hardCloseSftpSession (sftpId : JsString) (closeToken : Option ℕ)
  | teardownEnds (sftpId : JsString) (force : Bool)

namespace Bridges

variable (b : Bridges)

def start (client : JsString → Bool) : Bridges := ⟨fun sftpId => { client := client sftpId }, 0⟩

/-- The store does nothing under the empty id. -/
def act (f : Session → ℕ → Session × ℕ) (sftpId : JsString) : Bridges :=
  if sftpId = [] then b
  else
    let after := f (b.sessions sftpId) b.nextHardCloseToken
    ⟨update b.sessions sftpId after.1, after.2⟩

/-- It throws before any lease is taken where one of the sessions is closing. -/
def acquireTransferSessionLeases (transferId : JsString) (sftpIds : List JsString) : Option Bridges :=
  if sftpIds.any fun sftpId => (b.sessions sftpId).lease.isHardCloseCommitted then none
  else some (sftpIds.foldl (fun b => b.act fun session next => (session.acquire transferId, next)) b)

def step : Event → Bridges
  | .acquire transferId sftpIds => (b.acquireTransferSessionLeases transferId sftpIds).getD b
  | .release transferId sftpIds => sftpIds.foldl (fun b => b.act fun session => session.release transferId) b
  | .closeSftp sftpId => b.act (fun session => { session with closeAsked := true }.closeSftp false) sftpId
  | .hardCloseSftpSession sftpId closeToken =>
    if closeToken ∈ (b.sessions sftpId).hardCloses then
      b.act (fun session => { session with
        hardCloses := session.hardCloses.erase closeToken }.hardCloseSftpSession closeToken) sftpId
    else b
  | .teardownEnds sftpId force =>
    if force ∈ (b.sessions sftpId).teardowns then
      b.act (fun session next => ({ session with teardowns := session.teardowns.erase force }.teardownEnds force, next))
        sftpId
    else b

end Bridges

/-! ## What every call keeps -/

structure Sound (session : Session) : Prop where
  soft : session.lease.softClosed → session.lease.isHeld
  claim : ∀ claim, session.lease.hardCloseClaim = some claim → session.lease.isHeld = false ∧
    (claim.committed → session.ended) ∧ (claim.committed = false → some claim.token ∈ session.hardCloses)
  ended : session.ended → session.client → session.lease.isHardCloseCommitted
  asked : session.closeAsked → session.client →
    session.lease.softClosed ∨ session.lease.hardCloseClaim.isSome
  unasked : session.closeAsked = false → session.lease.softClosed = false ∧
    session.lease.hardCloseClaim = none ∧ session.ended = false ∧ session.hardCloses = [] ∧ session.teardowns = []

variable {session : Session}

@[grind =] theorem isHeld_iff {lease : Lease} : lease.isHeld ↔ lease.transfers.Nonempty := by
  rw [Lease.isHeld, decide_eq_true_eq, ← Finset.card_pos, Nat.pos_iff_ne_zero]

theorem Sound.claim_of_held (sound : Sound session) (held : session.lease.isHeld) :
    session.lease.hardCloseClaim = none := by
  cases found : session.lease.hardCloseClaim with
  | none => rfl
  | some claim =>
    have idle := (sound.claim claim found).1
    rw [held] at idle
    cases idle

/-- A new lease cancels a close that is not committed, and leaves it asked for. -/
theorem Sound.acquire (sound : Sound session) (transferId : JsString) : Sound (session.acquire transferId) := by
  have held (softClosed : Bool) : Lease.isHeld ⟨insert transferId session.lease.transfers, softClosed, none⟩ :=
    isHeld_iff.mpr (Finset.insert_nonempty _ _)
  obtain ⟨soft, claim, ended, asked, unasked⟩ := sound
  unfold Session.acquire Lease.acquire
  split
  · exact ⟨soft, claim, ended, asked, unasked⟩
  · constructor <;> grind

/-- The last lease of a session that is to close begins the close, and its call waits. -/
theorem Sound.release (sound : Sound session) (transferId : JsString) (next : ℕ) :
    Sound (session.release transferId next).1 := by
  have none := sound.claim_of_held
  obtain ⟨soft, claim, ended, asked, unasked⟩ := sound
  constructor <;> grind [Session.release, Lease.release, Lease.beginHardClose, Lease.isHardCloseCommitted,
    Lease.isHeld, Lease.getPendingHardCloseToken]

theorem Sound.closeSftp (sound : Sound session) (next : ℕ) :
    Sound ({ session with closeAsked := true }.closeSftp false next).1 := by
  have none := sound.claim_of_held
  obtain ⟨soft, claim, ended, asked, unasked⟩ := sound
  constructor <;> grind [Session.closeSftp, Session.markSoftClosed, Session.tearDown, Lease.markSoftClosed,
    Lease.beginHardClose, Lease.commitHardClose, Lease.isHardCloseCommitted, Lease.isHeld]

theorem Sound.hardCloseSftpSession {closeToken : Option ℕ} (sound : Sound session)
    (due : closeToken ∈ session.hardCloses) (next : ℕ) :
    Sound ({ session with hardCloses := session.hardCloses.erase closeToken }.hardCloseSftpSession
      closeToken next).1 := by
  have none := sound.claim_of_held
  obtain ⟨soft, claim, ended, asked, unasked⟩ := sound
  constructor <;> grind [Session.hardCloseSftpSession, Session.closeSftp, Session.markSoftClosed, Session.tearDown,
    Lease.markSoftClosed, Lease.commitHardClose, Lease.isHardCloseCommitted, Lease.isHeld]

theorem Sound.teardownEnds (sound : Sound session) {force : Bool} (due : force ∈ session.teardowns) :
    Sound ({ session with teardowns := session.teardowns.erase force }.teardownEnds force) := by
  have none := sound.claim_of_held
  obtain ⟨soft, claim, ended, asked, unasked⟩ := sound
  constructor <;> grind [Session.teardownEnds, Session.markSoftClosed, Lease.markSoftClosed,
    Lease.isHardCloseCommitted, Lease.isHeld]

/-! ## Runs -/

theorem sound_act {b : Bridges} {f : Session → ℕ → Session × ℕ} {sftpId : JsString}
    (sound : ∀ sftpId, Sound (b.sessions sftpId)) (kept : Sound (f (b.sessions sftpId) b.nextHardCloseToken).1)
    (other : JsString) : Sound ((b.act f sftpId).sessions other) := by
  unfold Bridges.act
  split
  · exact sound other
  · dsimp only
    by_cases same : other = sftpId
    · subst same
      rw [update_self]
      exact kept
    · rw [update_of_ne same]
      exact sound other

theorem sound_foldl {f : Session → ℕ → Session × ℕ}
    (keeps : ∀ session next, Sound session → Sound (f session next).1) (sftpIds : List JsString) {b : Bridges}
    (sound : ∀ sftpId, Sound (b.sessions sftpId)) :
    ∀ sftpId, Sound ((sftpIds.foldl (fun b => b.act f) b).sessions sftpId) := by
  induction sftpIds generalizing b with
  | nil => exact sound
  | cons first sftpIds ih => exact ih (sound_act sound (keeps _ _ (sound first)))

theorem sound_step {b : Bridges} (sound : ∀ sftpId, Sound (b.sessions sftpId)) (event : Event) :
    ∀ sftpId, Sound ((b.step event).sessions sftpId) := by
  unfold Bridges.step
  cases event with
  | acquire transferId sftpIds =>
    dsimp only [Bridges.acquireTransferSessionLeases]
    split
    · exact sound
    · exact sound_foldl (fun _ _ kept => kept.acquire transferId) sftpIds sound
  | release transferId sftpIds => exact sound_foldl (fun _ next kept => kept.release transferId next) sftpIds sound
  | closeSftp sftpId => exact sound_act sound ((sound sftpId).closeSftp _)
  | hardCloseSftpSession sftpId closeToken =>
    dsimp only
    split
    · rename_i due
      exact sound_act sound ((sound sftpId).hardCloseSftpSession due _)
    · exact sound
  | teardownEnds sftpId force =>
    dsimp only
    split
    · rename_i due
      exact sound_act sound ((sound sftpId).teardownEnds due)
    · exact sound

theorem sound_run (client : JsString → Bool) (events : List Event) :
    ∀ sftpId, Sound ((events.foldl Bridges.step (.start client)).sessions sftpId) := by
  induction events using reverseRecOn with
  | nil =>
    intro sftpId
    exact ⟨Bool.noConfusion, (fun _ none => by cases none), Bool.noConfusion, Bool.noConfusion,
      fun _ => ⟨rfl, rfl, rfl, rfl, rfl⟩⟩
  | append_singleton events event ih =>
    rw [foldl_append]
    exact sound_step ih event

/-- What the leases promise of a session: its end does not begin under a transfer; once it has begun, because
a close was asked for, no transfer gets the session; and a session whose close was asked for is held, ends, or
has a call waiting that begins the end. -/
structure Kept (b : Bridges) (sftpId : JsString) : Prop where
  held : (b.sessions sftpId).lease.isHeld → (b.sessions sftpId).ended = false
  ended : (b.sessions sftpId).ended → (b.sessions sftpId).closeAsked ∧ ∀ transferId sftpIds,
    sftpId ∈ sftpIds → b.acquireTransferSessionLeases transferId sftpIds = none
  asked : (b.sessions sftpId).closeAsked → (b.sessions sftpId).lease.isHeld ∨ (b.sessions sftpId).ended ∨
    ∃ closeToken ∈ (b.sessions sftpId).hardCloses,
      ((b.sessions sftpId).hardCloseSftpSession closeToken b.nextHardCloseToken).1.ended

/-- **Leases keep sessions, and no longer than they are used**, in every state that any interleaving of the
calls reaches, as long as the client is there. -/
theorem leases_keep_sessions (client : JsString → Bool) (events : List Event) (sftpId : JsString)
    (there : ((events.foldl Bridges.step (.start client)).sessions sftpId).client) :
    Kept (events.foldl Bridges.step (.start client)) sftpId := by
  have sound := sound_run client events sftpId
  generalize events.foldl Bridges.step (.start client) = b at there sound
  refine ⟨fun held => ?_, fun ended => ⟨?_, fun transferId sftpIds mem => ?_⟩, fun asked => ?_⟩
  · have open_ := sound.claim_of_held held
    by_contra ended
    have committed := sound.ended (Bool.not_eq_false _ ▸ ended) there
    simp [Lease.isHardCloseCommitted, open_] at committed
  · by_contra unasked
    cases ended.symm.trans (sound.unasked (Bool.eq_false_iff.mpr unasked)).2.2.1
  · exact if_pos (any_eq_true.mpr ⟨sftpId, mem, sound.ended ended there⟩)
  · rcases sound.asked asked there with soft | begun
    · exact .inl (sound.soft soft)
    · obtain ⟨⟨token, committed⟩, found⟩ := Option.isSome_iff_exists.mp begun
      obtain ⟨idle, ended, due⟩ := sound.claim _ found
      cases committed with
      | true => exact .inr (.inl (ended rfl))
      | false =>
        refine .inr (.inr ⟨some token, due rfl, ?_⟩)
        grind [Session.hardCloseSftpSession, Session.closeSftp, Session.tearDown, Lease.commitHardClose, Lease.isHeld]

/-- A panel is closed under a transfer, which ends. -/
theorem leases_keep_sessions_released :
    Kept ([Event.acquire (text "t") [text "s"], .closeSftp (text "s"), .release (text "t") [text "s"]].foldl
      Bridges.step (.start fun _ => true)) (text "s") :=
  leases_keep_sessions (fun _ => true) _ (text "s") (by decide +kernel)

end Netcatty.SftpLeases
