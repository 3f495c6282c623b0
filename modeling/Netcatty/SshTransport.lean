import Netcatty.ConvergentVisibility
import Netcatty.JsText
import Netcatty.OrderedMap

/-!
SSH transports, the leases on them, and which endpoints may share one.

A transport, a connection and a lease holder are JavaScript objects that other
code keeps pointers to, so each is named by a reference.  Endpoints appear in
the form `normalizeEndpoint` returns: the digests in them are opaque strings.
-/

namespace Netcatty

/-- A pointer to a transport object. -/
abbrev TransportRef := ℕ

/-- A pointer to a session, or to another object that holds a lease. -/
abbrev HolderRef := ℕ

/-- A pointer to an ssh2 client. -/
abbrev ConnectionRef := ℕ

/-- `transport.state`. -/
inductive TransportState where
  | live
  | idle
  | closing
  | dead
  deriving DecidableEq

/-- What the registry reads of an ssh2 client. -/
structure SshConnection where
  /-- `_sock` is there and destroyed. -/
  socketDestroyed : Bool
  /-- `_remoteVer`, empty when it is not a string. -/
  remoteVer : JsString
  /-- `once` and `removeListener` are there. -/
  emitsEvents : Bool
  deriving DecidableEq

/-- A normalized endpoint. -/
structure SshEndpoint where
  hostId : JsString
  hostname : JsString
  port : ℕ
  username : JsString
  protocol : JsString
  sftpSudo : Bool
  singleChannelSsh : Bool
  jumpFingerprint : JsString
  proxyFingerprint : JsString
  authFingerprint : JsString
  agentForwarding : Bool
  forwardingAgentFingerprint : JsString
  keepaliveIntervalMs : ℕ
  keepaliveCountMax : ℕ
  deriving DecidableEq

/-- One lease on a transport.  `activeShellChannel` is the only field of `meta`
the registry reads. -/
structure SshLease where
  kind : JsString
  holder : Option HolderRef
  activeShellChannel : Bool
  borrowedAt : ℚ
  deriving DecidableEq

/-- The fields of a lease holder the registry reads and writes. -/
structure LeaseHolder where
  connRef : Option TransportRef
  sshTransportLeaseId : Option JsString
  /-- `stream` is there. -/
  hasStream : Bool
  /-- `String(shellPid || "")`. -/
  shellPid : JsString
  deriving DecidableEq

/-- `pendingShellReconnectRisk`. -/
structure ShellReconnectRisk where
  oldShellPids : List JsString
  hasUnknownOldShell : Bool
  deriving DecidableEq

/-- A transport of the registry. -/
structure SshTransport where
  id : JsString
  count : ℕ
  conn : Option ConnectionRef
  chainConnections : List ConnectionRef
  leases : OrderedMap JsString SshLease
  endpoint : Option SshEndpoint
  endpointKey : Option JsString
  state : TransportState
  /-- Always a finite number: `createTransport` replaces any other. -/
  idleTtlMs : ℚ
  /-- The delay of the pending timer. -/
  idleTimer : Option ℚ
  idleSince : Option ℚ
  idleDeadlineAt : Option ℚ
  createdAt : ℚ
  pendingShellReconnectRisk : Option ShellReconnectRisk
  closedShellPids : List JsString
  closedShellPidUnknown : Bool
  shellCloseGeneration : ℕ
  allowIdlePark : Bool
  allowShellReuse : Bool
  endedReason : Option JsString
  /-- The close handler is attached. -/
  poolOnConnectionClose : Bool
  /-- The error handler is attached. -/
  poolOnConnectionError : Bool

/-- An entry of `leasesById`. -/
structure LeaseEntry where
  transport : TransportRef
  holder : Option HolderRef
  deriving DecidableEq

/-- Which kind of opening asks for a transport. -/
inductive ReuseKind where
  | shell
  | channel
  deriving DecidableEq

/-! ## Remote banners -/

def normalizeRemoteSshVersion (remoteSshVersion : JsString) : JsString :=
  let software := trim remoteSshVersion
  if (text "ssh-2.0-").isPrefixOf (software.map asciiLower) then software.drop 8
  else if (text "ssh-1.99-").isPrefixOf (software.map asciiLower) then software.drop 9
  else software

/-- Can this daemon host a new shell on a parked transport? -/
def remoteAllowsIdleParkedShellReuse (remoteSshVersion : JsString) : Bool :=
  let software := (normalizeRemoteSshVersion remoteSshVersion).map asciiLower
  !software.tails.any fun rest => (text "term-sshd").isPrefixOf rest

/-! ## Endpoints -/

/-- `value || "-"`. -/
def orDash (value : JsString) : JsString := if value = [] then text "-" else value

/-- `buildEndpointKey` of a normalized endpoint. -/
def SshEndpoint.key (ep : SshEndpoint) : JsString :=
  (text "|").intercalate
    [orDash ep.hostId, ep.hostname, decimal ep.port, ep.username, ep.protocol,
      if ep.sftpSudo then text "sudo" else text "nosudo",
      orDash ep.jumpFingerprint, orDash ep.proxyFingerprint, orDash ep.authFingerprint,
      text "keepalive:" ++ decimal ep.keepaliveIntervalMs ++ text ":" ++
        decimal ep.keepaliveCountMax]

def buildEndpointKey (endpoint : Option SshEndpoint) : Option JsString := endpoint.map SshEndpoint.key

/-- Two profiles never share a connection; an endpoint without one matches any. -/
def sameHostId (left right : SshEndpoint) : Bool :=
  left.hostId = [] ∨ right.hostId = [] ∨ left.hostId = right.hostId

def sameTransportEndpoint (left right : SshEndpoint) : Bool :=
  sameHostId left right ∧ left.hostname = right.hostname ∧ left.port = right.port ∧
    left.username = right.username ∧ left.protocol = right.protocol ∧
    left.jumpFingerprint = right.jumpFingerprint ∧ left.proxyFingerprint = right.proxyFingerprint ∧
    left.authFingerprint = right.authFingerprint ∧
    left.keepaliveIntervalMs = right.keepaliveIntervalMs ∧
    left.keepaliveCountMax = right.keepaliveCountMax

def sameEndpoint (left right : SshEndpoint) : Bool :=
  sameTransportEndpoint left right ∧ left.sftpSudo = right.sftpSudo

/-- May the requested open use a connection to the existing endpoint?  A shell
must match the agent forwarding of the connection exactly, a channel may use one
that forwards more. -/
def endpointAllowsReuse (requested existing : SshEndpoint) (kind : ReuseKind) : Bool :=
  match kind with
  | .shell =>
    sameEndpoint requested existing ∧ ¬(requested.singleChannelSsh ∨ existing.singleChannelSsh) ∧
      requested.agentForwarding = existing.agentForwarding ∧
      (¬requested.agentForwarding ∨
        requested.forwardingAgentFingerprint = existing.forwardingAgentFingerprint)
  | .channel =>
    sameTransportEndpoint requested existing ∧
      ¬(requested.singleChannelSsh ∨ existing.singleChannelSsh) ∧
      ¬(requested.agentForwarding ∧ ¬existing.agentForwarding)

end Netcatty
