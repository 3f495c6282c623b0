import Netcatty.SshTransport

/-!
The registry of shared SSH transports: borrowing, returning, parking, ending.

Transports and holders are reached by reference, so the registry carries the
heap of all transports ever created.  `randomUUID` of the runtime is a parameter:
its n-th call returns `randomUUID n`.  Every function returns the registry it
leaves behind, also when it throws.
-/

namespace Netcatty

/-- The registry, the objects it points to, and its clock. -/
structure TransportRegistry where
  /-- Every transport ever created, by reference. -/
  transports : List SshTransport
  holders : HolderRef → LeaseHolder
  connections : ConnectionRef → SshConnection
  transportsById : OrderedMap JsString TransportRef
  transportIdsByEndpoint : OrderedMap JsString (List JsString)
  leasesById : OrderedMap JsString LeaseEntry
  /-- Oldest first. -/
  idleTransportsLru : OrderedMap JsString TransportRef
  noIdleParkEndpointKeys : List JsString
  defaultIdleTtlMs : ℚ
  maxIdleTransports : ℕ
  nextLeaseSeq : ℕ
  /-- How often `randomUUID` was called. -/
  uuidsDrawn : ℕ
  /-- `nowFn()`. -/
  now : ℚ
  /-- The connections on which `end()` was called. -/
  endCalls : List ConnectionRef

def TransportRegistry.initial (holders : HolderRef → LeaseHolder)
    (connections : ConnectionRef → SshConnection) (defaultIdleTtlMs : ℚ)
    (maxIdleTransports : ℕ) : TransportRegistry where
  transports := []
  holders := holders
  connections := connections
  transportsById := .empty
  transportIdsByEndpoint := .empty
  leasesById := .empty
  idleTransportsLru := .empty
  noIdleParkEndpointKeys := []
  defaultIdleTtlMs := defaultIdleTtlMs
  maxIdleTransports := maxIdleTransports
  nextLeaseSeq := 0
  uuidsDrawn := 0
  now := 0
  endCalls := []

/-- `set.add(value)`. -/
def addToSet (value : JsString) (l : List JsString) : List JsString :=
  if value ∈ l then l else l ++ [value]

/-- `clearIdleTimer`. -/
def SshTransport.clearIdleTimer (t : SshTransport) : SshTransport :=
  if t.idleTimer.isSome then { t with idleTimer := none, idleDeadlineAt := none } else t

namespace TransportRegistry

section

variable (r : TransportRegistry)

def transport? (ref : TransportRef) : Option SshTransport := r.transports[ref]?

def update (ref : TransportRef) (f : SshTransport → SshTransport) :
    TransportRegistry :=
  { r with transports := r.transports.modify ref f }

def updateHolder (ref : HolderRef) (f : LeaseHolder → LeaseHolder) :
    TransportRegistry :=
  { r with holders := Function.update r.holders ref (f (r.holders ref)) }

/-- `holder.connRef = null; holder._sshTransportLeaseId = null`. -/
def detachHolder (ref : HolderRef) : TransportRegistry :=
  r.updateHolder ref fun h => { h with connRef := none, sshTransportLeaseId := none }

/-- `isTransportSocketHealthy`. -/
def isTransportSocketHealthy (t : SshTransport) : Bool :=
  match t.conn with
  | none => false
  | some conn =>
    if t.state = .dead ∨ t.state = .closing then false else !(r.connections conn).socketDestroyed

/-! ## Idle transports and the end of a transport -/

def removeIdleTransportLru (t : SshTransport) : TransportRegistry :=
  { r with idleTransportsLru := r.idleTransportsLru.delete t.id }

def touchIdleTransportLru (ref : TransportRef) (t : SshTransport) :
    TransportRegistry :=
  if t.state ≠ .idle ∨ t.leases.size ≠ 0 then r.removeIdleTransportLru t
  else { r with idleTransportsLru := (r.idleTransportsLru.delete t.id).set t.id ref }

/-- Remove an id from the set of an endpoint key, and the set when it is empty. -/
def dropEndpointId (key id : JsString) (index : OrderedMap JsString (List JsString)) :
    OrderedMap JsString (List JsString) :=
  match index.get? key with
  | none => index
  | some ids =>
    let kept := ids.filter (· ≠ id)
    if kept = [] then index.delete key else index.set key kept

def unregisterTransport (t : SshTransport) : TransportRegistry :=
  let r := r.removeIdleTransportLru t
  { r with
    transportsById := r.transportsById.delete t.id
    transportIdsByEndpoint :=
      match t.endpointKey with
      | none => r.transportIdsByEndpoint
      | some key => dropEndpointId key t.id r.transportIdsByEndpoint }

/-- `detachTransportLifecycle`. -/
def detachedLifecycle (t : SshTransport) : SshTransport :=
  match t.conn with
  | none => t
  | some conn =>
    if (r.connections conn).emitsEvents then
      { t with poolOnConnectionClose := false, poolOnConnectionError := false }
    else t

/-- A transport when its end begins. -/
def toClosing (t : SshTransport) : SshTransport :=
  r.detachedLifecycle { t with state := .closing }.clearIdleTimer

/-- A transport when its end is complete. -/
def toDead (reason : JsString) (t : SshTransport) : SshTransport :=
  { t with
    count := 0
    chainConnections := []
    conn := none
    state := .dead
    endedReason := some reason }

/-- `transport.leases.delete(leaseId)`. -/
def deleteLease (leaseId : JsString) (t : SshTransport) : SshTransport :=
  { t with leases := t.leases.delete leaseId }

def forgetLease (ref : TransportRef) (r : TransportRegistry) (leaseId : JsString) :
    TransportRegistry :=
  let entry := r.leasesById.get? leaseId
  let r := { r with leasesById := r.leasesById.delete leaseId }
  let r := r.update ref (deleteLease leaseId)
  match entry.bind LeaseEntry.holder with
  | none => r
  | some holder => if (r.holders holder).connRef = some ref then r.detachHolder holder else r

/-- `endTransport`: whether the call ended the transport. -/
def endTransport (ref : TransportRef) (reason : JsString)
    (skipConnectionEnd : Bool) : TransportRegistry × Bool :=
  match r.transport? ref with
  | none => (r, false)
  | some t =>
    if t.state = .dead ∨ t.state = .closing then (r, false)
    else
      let closing := r.update ref r.toClosing
      let bare := t.leases.keys.foldl (forgetLease ref) closing
      let ended := bare.update ref (toDead reason)
      let own := if skipConnectionEnd then [] else t.conn.toList
      let ended := { ended with endCalls := ended.endCalls ++ own ++ t.chainConnections }
      (ended.unregisterTransport t, true)

def isStaleIdleEntry (id : JsString) (ref : TransportRef) : Bool :=
  match r.transport? ref with
  | none => true
  | some t => r.transportsById.get? id ≠ some ref ∨ t.state ≠ .idle ∨ t.leases.size ≠ 0

/-- The first loop of `enforceIdleTransportLimit`, for one entry. -/
def pruneIdleEntry (entry : JsString × TransportRef) : TransportRegistry :=
  if r.isStaleIdleEntry entry.1 entry.2 then
    { r with idleTransportsLru := r.idleTransportsLru.delete entry.1 }
  else r

/-- One round of the second loop: evict the transport that has been idle longest. -/
def evictOldest (oldest : TransportRef) : TransportRegistry :=
  match r.transport? oldest with
  | none => r
  | some t =>
    let r := r.removeIdleTransportLru t
    if t.state = .idle ∧ t.leases.size = 0 then (r.endTransport oldest (text "idle-cap") false).1
    else r

/-- The second loop of `enforceIdleTransportLimit`.  A round shortens the list,
so its length bounds the number of rounds. -/
def evictIdleTransports : ℕ → TransportRegistry → TransportRegistry
  | 0, r => r
  | rounds + 1, r =>
    if r.idleTransportsLru.size ≤ r.maxIdleTransports then r
    else
      match r.idleTransportsLru.values with
      | [] => r
      | oldest :: _ => evictIdleTransports rounds (r.evictOldest oldest)

def enforceIdleTransportLimit : TransportRegistry :=
  let pruned := r.idleTransportsLru.entries.foldl pruneIdleEntry r
  evictIdleTransports pruned.idleTransportsLru.size pruned

/-- What `scheduleIdleEnd` returns. -/
structure ParkResult where
  ended : Bool
  idle : Bool
  deriving DecidableEq

def isEnded (ref : TransportRef) : Bool :=
  match r.transport? ref with
  | none => false
  | some t => t.state = .dead ∨ t.state = .closing

/-- The part of `scheduleIdleEnd` after the limit was enforced: end the transport
when its time is up, or set its timer. -/
def scheduleIdleTimer (ref : TransportRef) (ttl now : ℚ) :
    TransportRegistry × ParkResult :=
  if r.isEnded ref then (r, ⟨true, false⟩)
  else if ttl ≤ 0 then (r.update ref fun t => { t with idleDeadlineAt := none }, ⟨false, true⟩)
  else
    let idleSince := ((r.transport? ref).bind SshTransport.idleSince).getD now
    let remaining := max 0 (ttl - max 0 (now - idleSince))
    let r := r.update ref fun t => { t with idleDeadlineAt := some (idleSince + ttl) }
    if remaining = 0 then ((r.endTransport ref (text "idle-ttl") false).1, ⟨true, false⟩)
    else (r.update ref fun t => { t with idleTimer := some remaining }, ⟨false, true⟩)

def toIdle (preserveIdleSince : Bool) (t : SshTransport) : SshTransport :=
  { t with
    state := .idle
    idleSince := if preserveIdleSince ∧ t.idleSince.isSome then t.idleSince else some r.now }

/-- The part of `scheduleIdleEnd` that makes a transport idle. -/
def listAsIdle (ref : TransportRef) (t : SshTransport)
    (preserveIdleSince preserveLru : Bool) : TransportRegistry :=
  let idle := r.update ref fun _ => r.toIdle preserveIdleSince t
  if !preserveLru ∨ !idle.idleTransportsLru.has t.id then
    idle.touchIdleTransportLru ref (r.toIdle preserveIdleSince t)
  else idle

/-- `scheduleIdleEnd`: park a transport until its time to live is over, or for
good when that is 0. -/
def scheduleIdleEnd (ref : TransportRef)
    (preserveIdleSince preserveLru : Bool) : TransportRegistry × ParkResult :=
  let r := r.update ref SshTransport.clearIdleTimer
  match r.transport? ref with
  | none => (r, ⟨false, false⟩)
  | some t =>
    if !r.isTransportSocketHealthy t then
      ((r.endTransport ref (text "unhealthy-last-lease") false).1, ⟨true, false⟩)
    else if !t.allowIdlePark then
      ((r.endTransport ref (text "no-idle-park") false).1, ⟨true, false⟩)
    else
      (r.listAsIdle ref t preserveIdleSince preserveLru).enforceIdleTransportLimit.scheduleIdleTimer
        ref t.idleTtlMs r.now

def fireIdleTimer (ref : TransportRef) : TransportRegistry :=
  let r := r.update ref fun t => { t with idleTimer := none }
  match r.transport? ref with
  | none => r
  | some t =>
    if t.state ≠ .idle ∨ t.leases.size ≠ 0 then r
    else (r.endTransport ref (text "idle-ttl") false).1

/-- The `close` event of a connection. -/
def onConnectionClose (ref : TransportRef) : TransportRegistry :=
  match r.transport? ref with
  | none => r
  | some t =>
    if t.poolOnConnectionClose then (r.endTransport ref (text "socket-close") true).1 else r

/-- The `error` event of a connection. -/
def onConnectionError (ref : TransportRef) : TransportRegistry :=
  match r.transport? ref with
  | none => r
  | some t =>
    if t.poolOnConnectionError then (r.endTransport ref (text "socket-error") false).1 else r

/-! ## Creating and borrowing -/

def toLive (t : SshTransport) : SshTransport :=
  { t.clearIdleTimer with state := .live, idleSince := none, idleDeadlineAt := none }

def wakeFromIdle (ref : TransportRef) : TransportRegistry :=
  match r.transport? ref with
  | none => r
  | some t =>
    if t.state ≠ .idle then r
    else (r.removeIdleTransportLru t).update ref toLive

def attachEndpointIndex (t : SshTransport) : TransportRegistry :=
  match t.endpointKey with
  | none => r
  | some key =>
    let ids := (r.transportIdsByEndpoint.get? key).getD []
    { r with transportIdsByEndpoint := r.transportIdsByEndpoint.set key (addToSet t.id ids) }

def endpointAllowsIdlePark (key : Option JsString)
    (remoteSshVersion : JsString) : Bool :=
  if !remoteAllowsIdleParkedShellReuse remoteSshVersion then false
  else
    match key with
    | none => true
    | some key => key ∉ r.noIdleParkEndpointKeys

end

variable (randomUUID : ℕ → JsString) (r : TransportRegistry)

/-- The options of `createTransport`.  A time to live is absent when it is not a
finite number. -/
structure CreateOptions where
  conn : Option ConnectionRef
  chainConnections : List ConnectionRef
  endpoint : Option SshEndpoint
  idleTtlMs : Option ℚ

/-- The transport `createTransport` makes. -/
def newTransport (conn : ConnectionRef) (options : CreateOptions) :
    SshTransport :=
  let key := buildEndpointKey options.endpoint
  let emits := (r.connections conn).emitsEvents
  { id := randomUUID r.uuidsDrawn
    count := 0
    conn := some conn
    chainConnections := options.chainConnections
    leases := .empty
    endpoint := options.endpoint
    endpointKey := key
    state := .live
    idleTtlMs := (options.idleTtlMs.filter (0 ≤ ·)).getD r.defaultIdleTtlMs
    idleTimer := none
    idleSince := none
    idleDeadlineAt := none
    createdAt := r.now
    pendingShellReconnectRisk := none
    closedShellPids := []
    closedShellPidUnknown := false
    shellCloseGeneration := 0
    allowIdlePark := r.endpointAllowsIdlePark key (r.connections conn).remoteVer
    allowShellReuse := true
    endedReason := none
    poolOnConnectionClose := emits
    poolOnConnectionError := emits }

def createTransport (options : CreateOptions) :
    TransportRegistry × Checked TransportRef :=
  match options.conn with
  | none => (r, .error (.error (text "createTransport requires conn")))
  | some conn =>
    let t := newTransport randomUUID r conn options
    let ref := r.transports.length
    let created : TransportRegistry :=
      { r with
        transports := r.transports ++ [t]
        uuidsDrawn := r.uuidsDrawn + 1
        noIdleParkEndpointKeys :=
          if t.allowIdlePark then r.noIdleParkEndpointKeys
          else t.endpointKey.elim r.noIdleParkEndpointKeys (addToSet · r.noIdleParkEndpointKeys)
        transportsById := r.transportsById.set t.id ref }
    (created.attachEndpointIndex t, .ok ref)

/-- The options of `borrowTransport`. -/
structure BorrowOptions where
  kind : JsString
  leaseId : JsString
  holder : Option HolderRef
  activeShellChannel : Bool

/-- `allocateLeaseId`. -/
def allocateLeaseId (kind : JsString) : TransportRegistry × JsString :=
  let kind := if kind = [] then text "lease" else kind
  ({ r with nextLeaseSeq := r.nextLeaseSeq + 1, uuidsDrawn := r.uuidsDrawn + 1 },
    kind ++ text "-" ++ decimal (r.nextLeaseSeq + 1) ++ text "-" ++
      (randomUUID r.uuidsDrawn).take 8)

/-- `options.leaseId || allocateLeaseId(kind)`. -/
def chooseLeaseId (kind leaseId : JsString) : TransportRegistry × JsString :=
  if leaseId = [] then allocateLeaseId randomUUID r kind else (r, leaseId)

def withLease (leaseId : JsString) (lease : SshLease) (t : SshTransport) : SshTransport :=
  { t with
    leases := t.leases.set leaseId lease
    count := (t.leases.set leaseId lease).size
    state := .live }

/-- `holder.connRef = transport; holder._sshTransportLeaseId = leaseId`. -/
def attachHolder (holder : HolderRef) (ref : TransportRef)
    (leaseId : JsString) : TransportRegistry :=
  r.updateHolder holder fun h =>
    { h with connRef := some ref, sshTransportLeaseId := some leaseId }

/-- Hand out a lease under an unused id. -/
def addLease (ref : TransportRef) (leaseId : JsString) (lease : SshLease) :
    TransportRegistry :=
  let lent : TransportRegistry :=
    { r.update ref (withLease leaseId lease) with
      leasesById := r.leasesById.set leaseId ⟨ref, lease.holder⟩ }
  match lease.holder with
  | none => lent
  | some holder => lent.attachHolder holder ref leaseId

/-- The kind of the lease: `shell` unless the options name another. -/
def leaseKind (options : BorrowOptions) : JsString :=
  if options.kind = [] then text "shell" else options.kind

def borrowTransport (ref : TransportRef) (options : BorrowOptions) :
    TransportRegistry × Checked JsString :=
  match r.transport? ref with
  | none => (r, .error (.error (text "Cannot borrow a closed SSH transport")))
  | some t =>
    if t.state = .dead ∨ t.state = .closing then
      (r, .error (.error (text "Cannot borrow a closed SSH transport")))
    else if !r.isTransportSocketHealthy t then
      ((r.endTransport ref (text "unhealthy") false).1,
        .error (.error (text "SSH transport socket is not healthy")))
    else
      let chosen := chooseLeaseId randomUUID (r.wakeFromIdle ref) (leaseKind options) options.leaseId
      let leaseId := chosen.2
      if t.leases.has leaseId ∨ chosen.1.leasesById.has leaseId then
        (chosen.1, .error (.error (text "SSH transport lease already exists: " ++ leaseId)))
      else
        let lease : SshLease :=
          ⟨leaseKind options, options.holder, options.activeShellChannel, r.now⟩
        (chosen.1.addLease ref leaseId lease, .ok leaseId)

/-- The lease of a holder that `transferConnectionRef` moves, with its transport. -/
def leaseOfHolder (holder : HolderRef) :
    Option (TransportRef × JsString × SshLease) := do
  let leaseId ← (r.holders holder).sshTransportLeaseId
  let ref ← (r.holders holder).connRef
  let t ← r.transport? ref
  let lease ← t.leases.get? leaseId
  if leaseId = [] then none else some (ref, leaseId, lease)

def reboundLease (lease : SshLease) (toHolder : HolderRef) : SshLease :=
  { lease with
    holder := some toHolder
    activeShellChannel :=
      if lease.kind = text "shell" ∧ (r.holders toHolder).hasStream then true
      else lease.activeShellChannel }

def withReboundLease (leaseId : JsString) (lease : SshLease) (t : SshTransport) : SshTransport :=
  { t with leases := t.leases.set leaseId lease }

/-- Put a lease under its new holder in both maps. -/
def rebindLease (ref : TransportRef) (leaseId : JsString)
    (lease : SshLease) : TransportRegistry :=
  { r.update ref (withReboundLease leaseId lease) with
    leasesById := r.leasesById.set leaseId ⟨ref, lease.holder⟩ }

def transferConnectionRef (fromHolder toHolder : Option HolderRef) :
    TransportRegistry × Bool :=
  match fromHolder, toHolder with
  | some fromHolder, some toHolder =>
    if fromHolder = toHolder then (r, false)
    else
      match r.leaseOfHolder fromHolder with
      | none => (r, false)
      | some (ref, leaseId, lease) =>
        let moved := r.rebindLease ref leaseId (r.reboundLease lease toHolder)
        ((moved.detachHolder fromHolder).attachHolder toHolder ref leaseId, true)
  | _, _ => (r, false)

/-! ## Returning -/

/-- The argument of `returnTransport`. -/
inductive LeaseArgument where
  | leaseId (id : JsString)
  | holder (ref : HolderRef)
  deriving DecidableEq

/-- The lease the argument names.  A holder whose lease id was lost is matched
against the leases of the transport it still points to. -/
def LeaseArgument.resolve : LeaseArgument → Option JsString
  | .leaseId id => if id = [] then none else some id
  | .holder ref =>
    match (r.holders ref).sshTransportLeaseId.filter (· ≠ []) with
    | some id => some id
    | none =>
      (((r.holders ref).connRef.bind r.transport?).bind fun t =>
        t.leases.entries.find? fun entry => entry.2.holder = some ref).map Prod.fst

/-- What `returnTransport` returns. -/
structure ReturnResult where
  released : Bool
  ended : Bool
  idle : Bool
  remaining : ℕ
  deriving DecidableEq

/-- `/^\d+$/`. -/
def isDigits (s : JsString) : Bool := s ≠ [] ∧ s.all fun unit => 48 ≤ unit.val ∧ unit.val ≤ 57

def SshLease.isActiveShell (lease : SshLease) : Bool :=
  lease.kind = text "shell" ∧ lease.activeShellChannel

/-- Remember the shell channel that closed with the lease, so that a later shell
does not take its process for a running one. -/
def recordShellClose (lease : SshLease) (t : SshTransport) : SshTransport :=
  let releasedPid := lease.holder.elim [] fun holder => (r.holders holder).shellPid
  let closed : SshTransport :=
    { t with
      shellCloseGeneration := t.shellCloseGeneration + 1
      closedShellPids :=
        if isDigits releasedPid then addToSet releasedPid t.closedShellPids else t.closedShellPids
      closedShellPidUnknown := if isDigits releasedPid then t.closedShellPidUnknown else true }
  if closed.leases.values.any SshLease.isActiveShell then closed
  else
    let remoteVer := closed.conn.elim [] fun conn => (r.connections conn).remoteVer
    { closed with
      pendingShellReconnectRisk := some ⟨closed.closedShellPids, closed.closedShellPidUnknown⟩
      closedShellPids := []
      closedShellPidUnknown := false
      allowShellReuse :=
        if remoteAllowsIdleParkedShellReuse remoteVer then closed.allowShellReuse else false }

/-- Detach the holder of a returned lease, or the object the lease was returned by. -/
def releaseHolder (entry : LeaseEntry) (argument : LeaseArgument) :
    TransportRegistry :=
  match entry.holder, argument with
  | some holder, _ =>
    r.updateHolder holder fun h =>
      { h with
        connRef := if h.connRef = some entry.transport then none else h.connRef
        sshTransportLeaseId := none }
  | none, .holder holder => r.detachHolder holder
  | none, .leaseId _ => r

def withoutLease (leaseId : JsString) (t : SshTransport) : SshTransport :=
  { t with leases := t.leases.delete leaseId, count := (t.leases.delete leaseId).size }

def removeLease (ref : TransportRef) (leaseId : JsString) :
    TransportRegistry :=
  { r.update ref (withoutLease leaseId) with leasesById := r.leasesById.delete leaseId }

/-- `returnTransport` up to the point where a transport without leases is parked. -/
def releaseLease (argument : LeaseArgument) (leaseId : JsString)
    (entry : LeaseEntry) : TransportRegistry :=
  let released := ((r.transport? entry.transport).bind fun t => t.leases.get? leaseId).filter
    SshLease.isActiveShell
  let removed := r.removeLease entry.transport leaseId
  let recorded :=
    match released with
    | none => removed
    | some lease => removed.update entry.transport (removed.recordShellClose lease)
  recorded.releaseHolder entry argument

/-- The rest of `returnTransport`: park the transport when its last lease is gone. -/
def parkReleased (ref : TransportRef) : TransportRegistry × ReturnResult :=
  let remaining := ((r.transport? ref).map fun t => t.leases.size).getD 0
  if remaining > 0 then (r, ⟨true, false, false, remaining⟩)
  else
    let park := r.scheduleIdleEnd ref false false
    (park.1, ⟨true, park.2.ended, park.2.idle, 0⟩)

/-- A late return: the lease is gone, and the holder that names it is detached. -/
def detachArgument (argument : LeaseArgument) : TransportRegistry :=
  match argument with
  | .holder holder => r.detachHolder holder
  | .leaseId _ => r

def returnTransport (argument : LeaseArgument) :
    TransportRegistry × ReturnResult :=
  match argument.resolve r with
  | none => (r, ⟨false, false, false, 0⟩)
  | some leaseId =>
    match r.leasesById.get? leaseId with
    | none => (r.detachArgument argument, ⟨false, false, false, 0⟩)
    | some entry => (r.releaseLease argument leaseId entry).parkReleased entry.transport

/-! ## Discarding, finding and retiming -/

/-- The argument of `discardTransport`. -/
inductive TransportArgument where
  | id (id : JsString)
  | transport (ref : TransportRef)
  deriving DecidableEq

def discardTransport (argument : TransportArgument) (reason : JsString) :
    TransportRegistry × Bool :=
  match argument with
  | .transport ref => r.endTransport ref reason false
  | .id id =>
    match r.transportsById.get? id with
    | none => (r, false)
    | some ref => r.endTransport ref reason false

/-- Move a transport that is handed out to the end of the idle list if it is idle. -/
def touchIfIdle (ref : TransportRef) (t : SshTransport) : TransportRegistry :=
  if t.state = .idle then r.touchIdleTransportLru ref t else r

def findTransportById (id : JsString) :
    TransportRegistry × Option TransportRef :=
  match r.transportsById.get? id with
  | none => (r, none)
  | some ref =>
    match r.transport? ref with
    | none => (r, none)
    | some t =>
      if !r.isTransportSocketHealthy t then (r, none) else (r.touchIfIdle ref t, some ref)

/-- May the healthy transport serve the request? -/
def isCandidate (endpoint : SshEndpoint) (kind : ReuseKind) (t : SshTransport) : Bool :=
  (t.state = .live ∨ t.state = .idle) ∧ ¬(kind = .shell ∧ ¬t.allowShellReuse) ∧
    t.endpoint.all fun existing => endpointAllowsReuse endpoint existing kind

/-- One round of the lookup by endpoint: drop a transport whose socket died, or
note a candidate. -/
def collectCandidate (endpoint : SshEndpoint) (kind : ReuseKind)
    (found : TransportRegistry × List TransportRef) (id : JsString) :
    TransportRegistry × List TransportRef :=
  match found.1.transportsById.get? id with
  | none => found
  | some ref =>
    match found.1.transport? ref with
    | none => found
    | some t =>
      if !found.1.isTransportSocketHealthy t then
        (if t.state ≠ .dead then (found.1.endTransport ref (text "unhealthy-lookup") false).1
          else found.1.unregisterTransport t, found.2)
      else if isCandidate endpoint kind t then (found.1, found.2 ++ [ref])
      else found

def candidateLe (a b : TransportRef) : Bool :=
  match r.transport? a, r.transport? b with
  | some a, some b => if a.state ≠ b.state then a.state = .live else a.leases.size ≤ b.leases.size
  | _, _ => true

def findTransportByEndpoint (endpoint : Option SshEndpoint)
    (kind : ReuseKind) : TransportRegistry × Option TransportRef :=
  match endpoint with
  | none => (r, none)
  | some endpoint =>
    match r.transportIdsByEndpoint.get? endpoint.key with
    | none => (r, none)
    | some ids =>
      let found := ids.foldl (collectCandidate endpoint kind) (r, [])
      match found.2.mergeSort found.1.candidateLe with
      | [] => (found.1, none)
      | selected :: _ =>
        match found.1.transport? selected with
        | none => (found.1, some selected)
        | some t => (found.1.touchIfIdle selected t, some selected)

/-- One round of `setDefaultTransportIdleTtlMs`: an entry deleted by an earlier
round is not visited. -/
def retimeTransport (ttl : ℚ) (r : TransportRegistry) (entry : JsString × TransportRef) :
    TransportRegistry :=
  if r.transportsById.get? entry.1 ≠ some entry.2 then r
  else
    let r := r.update entry.2 fun t => { t with idleTtlMs := ttl }
    match r.transport? entry.2 with
    | none => r
    | some t =>
      if t.state = .idle ∧ t.leases.size = 0 then (r.scheduleIdleEnd entry.2 true true).1 else r

/-- `setDefaultTransportIdleTtlMs`.  The argument is absent when it is not a
finite number. -/
def setDefaultTransportIdleTtlMs (ms : Option ℚ) : TransportRegistry :=
  match ms with
  | none => r
  | some ms =>
    if ms < 0 ∨ ms = r.defaultIdleTtlMs then r
    else r.transportsById.entries.foldl (retimeTransport ms) { r with defaultIdleTtlMs := ms }

end TransportRegistry

end Netcatty
