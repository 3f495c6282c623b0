import Netcatty.SshTransportRuns

/-!
Coordination of SSH dials: who reuses a transport, who joins a dial that is under
way, and who leads a new one.

Callers describe an endpoint with raw material, and `normalizeEndpoint` is applied to
it again and again: by the lookup, by the join and by the delivery.  Files named in the
material may change between two calls, so each call brings the digests of its moment.
-/

namespace Netcatty

/-! ## Endpoints of callers -/

/-- An endpoint as callers pass it.  A string that is absent is empty, and an absent port
is 0; `M` is what only the digests look at: jump hosts, proxies and credentials. -/
structure ConnectionEndpoint (M : Type) where
  hostId : Option JsString
  hostname : JsString
  port : ℕ
  username : JsString
  protocol : JsString
  sftpSudo : Bool
  singleChannelSsh : Bool
  jumpFingerprint : JsString
  proxyFingerprint : JsString
  authFingerprint : JsString
  agentForwarding : Bool
  forwardingAgentFingerprint : JsString
  forwardingAgentSocket : JsString
  keepaliveIntervalMs : Option ℕ
  keepaliveCountMax : Option ℕ
  /-- In seconds. -/
  keepaliveInterval : Option ℤ
  /-- Absent in a normalized endpoint. -/
  material : Option M

/-- `fingerprintJumpHosts`, `fingerprintProxy`, `fingerprintAuth` and `secureDigest` at
one moment.  Each returns the hexadecimal form of a hash, or a dash. -/
structure EndpointDigests (M : Type) where
  fingerprintJumpHosts : Option M → JsString
  fingerprintProxy : Option M → JsString
  /-- For an endpoint that brings no `authFingerprint`. -/
  fingerprintAuth : ConnectionEndpoint M → JsString
  secureDigest : JsString → JsString
  jumpHosts_ne : ∀ material, fingerprintJumpHosts material ≠ []
  proxy_ne : ∀ material, fingerprintProxy material ≠ []
  auth_ne : ∀ endpoint, fingerprintAuth endpoint ≠ []
  digest_ne : ∀ value, secureDigest value ≠ []

/-- `a || b` for strings. -/
def orElseText (a b : JsString) : JsString := if a = [] then b else a

/-- `resolveConnectionKeepalivePolicy`: the interval in milliseconds and the count. -/
def resolveConnectionKeepalivePolicy (interval : Option ℤ) (count : Option ℕ) : ℕ × ℕ :=
  match interval with
  | none => (10 * 1000, 3)
  | some seconds => if 0 < seconds then (seconds.toNat * 1000, count.getD 3) else (0, 0)

def keepaliveOf {M : Type} (endpoint : ConnectionEndpoint M) : ℕ × ℕ :=
  match endpoint.keepaliveIntervalMs with
  | some interval => (interval, endpoint.keepaliveCountMax.getD 0)
  | none =>
    resolveConnectionKeepalivePolicy endpoint.keepaliveInterval endpoint.keepaliveCountMax

def normalizeEndpoint {M : Type} (digests : EndpointDigests M) (endpoint : ConnectionEndpoint M) :
    Option SshEndpoint :=
  if trim endpoint.hostname = [] then none
  else some
    { hostId := trim (endpoint.hostId.getD [])
      hostname := trim endpoint.hostname
      port := if endpoint.port = 0 then 22 else endpoint.port
      username := orElseText endpoint.username (text "root")
      protocol := orElseText endpoint.protocol (text "ssh")
      sftpSudo := endpoint.sftpSudo
      singleChannelSsh := endpoint.singleChannelSsh
      jumpFingerprint :=
        orElseText endpoint.jumpFingerprint (digests.fingerprintJumpHosts endpoint.material)
      proxyFingerprint :=
        orElseText endpoint.proxyFingerprint (digests.fingerprintProxy endpoint.material)
      authFingerprint := orElseText endpoint.authFingerprint (digests.fingerprintAuth endpoint)
      agentForwarding := endpoint.agentForwarding
      forwardingAgentFingerprint := orElseText endpoint.forwardingAgentFingerprint
        (if endpoint.agentForwarding ∧ endpoint.forwardingAgentSocket ≠ [] then
          digests.secureDigest endpoint.forwardingAgentSocket
        else text "-")
      keepaliveIntervalMs := (keepaliveOf endpoint).1
      keepaliveCountMax := (keepaliveOf endpoint).2 }

def SshEndpoint.asArgument (M : Type) (endpoint : SshEndpoint) : ConnectionEndpoint M :=
  { hostId := some endpoint.hostId
    hostname := endpoint.hostname
    port := endpoint.port
    username := endpoint.username
    protocol := endpoint.protocol
    sftpSudo := endpoint.sftpSudo
    singleChannelSsh := endpoint.singleChannelSsh
    jumpFingerprint := endpoint.jumpFingerprint
    proxyFingerprint := endpoint.proxyFingerprint
    authFingerprint := endpoint.authFingerprint
    agentForwarding := endpoint.agentForwarding
    forwardingAgentFingerprint := endpoint.forwardingAgentFingerprint
    forwardingAgentSocket := []
    keepaliveIntervalMs := some endpoint.keepaliveIntervalMs
    keepaliveCountMax := some endpoint.keepaliveCountMax
    keepaliveInterval := none
    material := none }

/-- `endpointAllowsReuse` of two endpoints that it normalizes again. -/
def allowsReuseAgain {M : Type} (digests : EndpointDigests M) (requested existing : SshEndpoint)
    (kind : ReuseKind) : Bool :=
  match normalizeEndpoint digests (requested.asArgument M),
    normalizeEndpoint digests (existing.asArgument M) with
  | some requested, some existing => endpointAllowsReuse requested existing kind
  | _, _ => false

/-! ## Dials -/

/-- A pointer to the record of a dial. -/
abbrev DialRef := ℕ

/-- A call of the `resolve` or the `reject` of a dial's promise. -/
inductive DialSettlement where
  | resolve (transport : TransportRef)
  | reject (message : JsString)
  deriving DecidableEq

/-- The record of a leader. -/
structure DialRecord where
  endpoint : SshEndpoint
  endpointKey : JsString
  kind : ReuseKind
  settled : Bool
  /-- The calls that settled `promise`, oldest first. -/
  settlements : List DialSettlement

/-- The `role` of a coordination handle, with what else depends on it. -/
inductive CoordinationRole where
  | reuse (transport : TransportRef)
  | join (record : DialRef)
  | leader (record : DialRef)
  deriving DecidableEq

/-- What `beginTransportDial` returns.  The endpoint of a reused transport is read by
nobody and left out. -/
structure Coordination where
  role : CoordinationRole
  endpoint : Option SshEndpoint
  kind : ReuseKind

/-- What a caller of `waitForTransportDial` is told. -/
inductive WaitOutcome where
  | received (transport : TransportRef)
  | failed (message : JsString)
  /-- "SSH dial completed with an incompatible endpoint". -/
  | incompatible
  /-- The signal was aborted. -/
  | cancelled
  deriving DecidableEq

structure DialWaiter where
  handle : ℕ
  /-- Whether the caller passed a signal. -/
  signal : Bool
  outcome : Option WaitOutcome

/-- The reason `failTransportDial` is given: an `Error`, or another value as text. -/
inductive DialFailure where
  | error (message : JsString)
  | other (value : JsString)

def DialFailure.message : DialFailure → JsString
  | .error message => message
  | .other value => orElseText value (text "SSH dial failed")

/-- The registry with its dials, the handles given out and the callers that wait. -/
structure DialPool where
  registry : TransportRegistry
  records : List DialRecord
  pendingDialsByEndpoint : OrderedMap JsString (List DialRef)
  handles : List Coordination
  waiters : List DialWaiter

namespace DialPool

variable {M : Type}

def initial (registry : TransportRegistry) : DialPool :=
  { registry, records := [], pendingDialsByEndpoint := .empty, handles := [], waiters := [] }

variable (pool : DialPool)

def pendingAt (key : JsString) : List DialRef :=
  (pool.pendingDialsByEndpoint.get? key).getD []

def removePendingDial (ref : DialRef) (record : DialRecord) : DialPool :=
  match pool.pendingDialsByEndpoint.get? record.endpointKey with
  | none => pool
  | some refs =>
    let kept := refs.filter (· ≠ ref)
    { pool with
      pendingDialsByEndpoint :=
        if kept = [] then pool.pendingDialsByEndpoint.delete record.endpointKey
        else pool.pendingDialsByEndpoint.set record.endpointKey kept }

variable (digests : EndpointDigests M)

/-- The first pending dial that is not settled and whose endpoint serves the request. -/
def joinable (endpoint : SshEndpoint)
    (kind : ReuseKind) (key : JsString) : Option DialRef :=
  (pool.pendingAt key).find? fun ref =>
    match pool.records[ref]? with
    | none => false
    | some record => !record.settled && allowsReuseAgain digests endpoint record.endpoint kind

def addRecord (endpoint : SshEndpoint) (key : JsString) (kind : ReuseKind) :
    DialPool :=
  let ref := pool.records.length
  { pool with
    records := pool.records ++
      [{ endpoint, endpointKey := key, kind, settled := false, settlements := [] }]
    pendingDialsByEndpoint :=
      pool.pendingDialsByEndpoint.set key (pool.pendingAt key ++ [ref]) }

/-- Hand out a handle. -/
def giveHandle (handle : Coordination) : DialPool :=
  { pool with handles := pool.handles ++ [handle] }

/-- `beginTransportDial`.  Without a valid endpoint it throws, and no handle is given. -/
def beginTransportDial
    (endpoint : Option (ConnectionEndpoint M)) (kind : ReuseKind) : DialPool :=
  let normalized := endpoint.bind (normalizeEndpoint digests)
  let found := pool.registry.findTransportByEndpoint normalized kind
  let pool := { pool with registry := found.1 }
  match found.2 with
  | some transport => pool.giveHandle { role := .reuse transport, endpoint := none, kind }
  | none =>
    match normalized with
    | none => pool
    | some endpoint =>
      match normalizeEndpoint digests (endpoint.asArgument M) with
      | none => pool
      | some again =>
        match pool.joinable digests endpoint kind again.key with
        | some record => pool.giveHandle { role := .join record, endpoint := some endpoint, kind }
        | none =>
          (pool.addRecord endpoint again.key kind).giveHandle
            { role := .leader pool.records.length, endpoint := some endpoint, kind }

/-- The part `completeTransportDial` and `failTransportDial` share: settle the promise of
a record that is not settled. -/
def settleDial (ref : DialRef) (settlement : DialSettlement) : DialPool :=
  match pool.records[ref]? with
  | none => pool
  | some record =>
    if record.settled then pool
    else
      let value := { record with
        settled := true, settlements := record.settlements ++ [settlement] }
      ({ pool with records := pool.records.set ref value } : DialPool).removePendingDial ref record

def leaderRecord (handle : ℕ) : Option DialRef :=
  match pool.handles[handle]? with
  | some { role := .leader ref, .. } => some ref
  | _ => none

def failTransportDial (handle : ℕ) (reason : DialFailure) : DialPool :=
  match pool.leaderRecord handle with
  | none => pool
  | some ref => pool.settleDial ref (.reject reason.message)

def isHealthy (transport : Option TransportRef) : Bool :=
  match transport.bind pool.registry.transport? with
  | none => false
  | some t => pool.registry.isTransportSocketHealthy t

def completeTransportDial (handle : ℕ) (transport : Option TransportRef) :
    DialPool :=
  match pool.leaderRecord handle with
  | none => pool
  | some ref =>
    match transport with
    | some t =>
      if pool.isHealthy (some t) then pool.settleDial ref (.resolve t)
      else pool.failTransportDial handle
        (.error (text "SSH dial completed without a healthy transport"))
    | none => pool.failTransportDial handle
        (.error (text "SSH dial completed without a healthy transport"))

def failAllPendingDials (reason : JsString) : DialPool :=
  (pool.pendingDialsByEndpoint.values.flatten).foldl
    (fun pool ref => pool.settleDial ref (.reject reason)) pool

/-! ## Waiters -/

def addWaiter (waiter : DialWaiter) : DialPool :=
  { pool with waiters := pool.waiters ++ [waiter] }

/-- `waitForTransportDial`, with a signal that may be aborted already. -/
def waitForTransportDial (handle : ℕ) (signal : Option Bool) : DialPool :=
  match pool.handles[handle]? with
  | none => pool
  | some { role := .reuse transport, .. } =>
    pool.addWaiter { handle, signal := false, outcome := some (.received transport) }
  | some _ =>
    let outcome := if signal = some true then some WaitOutcome.cancelled else none
    pool.addWaiter { handle, signal := signal.isSome, outcome }

def tellWaiter (index : ℕ) (outcome : WaitOutcome) : DialPool :=
  { pool with
    waiters := pool.waiters.modify index fun waiter =>
      if waiter.outcome.isSome then waiter else { waiter with outcome := some outcome } }

/-- The record a handle waits for. -/
def CoordinationRole.record? : CoordinationRole → Option DialRef
  | .reuse _ => none
  | .join ref => some ref
  | .leader ref => some ref

/-- `validateTransport`: the endpoint of the transport is compared when the promise is
delivered. -/
def validateTransport (handle : Coordination)
    (transport : TransportRef) : WaitOutcome :=
  match handle.endpoint, (pool.registry.transport? transport).bind SshTransport.endpoint with
  | some requested, some existing =>
    if allowsReuseAgain digests requested existing handle.kind then .received transport
    else .incompatible
  | _, _ => .incompatible

/-- A reaction of a settled promise runs. -/
def deliver (index : ℕ) : DialPool :=
  match pool.waiters[index]? with
  | none => pool
  | some waiter =>
    match pool.handles[waiter.handle]? with
    | none => pool
    | some handle =>
      match (CoordinationRole.record? handle.role).bind fun ref => pool.records[ref]? with
      | none => pool
      | some record =>
        match record.settlements with
        | [] => pool
        | .resolve transport :: _ =>
          pool.tellWaiter index (pool.validateTransport digests handle transport)
        | .reject message :: _ => pool.tellWaiter index (.failed message)

def abortSignal (index : ℕ) : DialPool :=
  match pool.waiters[index]? with
  | some waiter => if waiter.signal then pool.tellWaiter index .cancelled else pool
  | none => pool

end DialPool

/-- A call of the coordination, a reaction of a promise, or an event of the registry. -/
inductive DialEvent (M : Type) where
  | registry (event : RegistryEvent)
  | begin (digests : EndpointDigests M) (endpoint : Option (ConnectionEndpoint M))
      (kind : ReuseKind)
  | complete (handle : ℕ) (transport : Option TransportRef)
  | fail (handle : ℕ) (reason : DialFailure)
  | failAll (reason : JsString)
  | wait (handle : ℕ) (signal : Option Bool)
  | abortSignal (waiter : ℕ)
  | deliver (digests : EndpointDigests M) (waiter : ℕ)

namespace DialPool

variable {M : Type} (randomUUID : ℕ → JsString)

def step (pool : DialPool) : DialEvent M → DialPool
  | .registry event => { pool with registry := pool.registry.step randomUUID event }
  | .begin digests endpoint kind => pool.beginTransportDial digests endpoint kind
  | .complete handle transport => pool.completeTransportDial handle transport
  | .fail handle reason => pool.failTransportDial handle reason
  | .failAll reason => pool.failAllPendingDials reason
  | .wait handle signal => pool.waitForTransportDial handle signal
  | .abortSignal waiter => pool.abortSignal waiter
  | .deliver digests waiter => pool.deliver digests waiter

variable (pool : DialPool)

def run (events : List (DialEvent M)) : DialPool :=
  events.foldl (step randomUUID) pool

end DialPool

end Netcatty
