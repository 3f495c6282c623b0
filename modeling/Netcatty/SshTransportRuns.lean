import Netcatty.SshTransportLeases

/-!
The transport registry over whole runs.

A run is any sequence of calls and events.  Between them connections change as
they like, session code writes to the holders, forbids parking and marks
endpoints, and the clock moves.  The idle timer and the close and error handlers
may fire at any time.
-/

namespace Netcatty

open TransportRegistry OrderedMap

/-- A call of the registry, an event it handles, or a write of other code. -/
inductive RegistryEvent where
  | createTransport (options : CreateOptions)
  | borrowTransport (ref : TransportRef) (options : BorrowOptions)
  | transferConnectionRef (fromHolder toHolder : Option HolderRef)
  | returnTransport (argument : LeaseArgument)
  | discardTransport (argument : TransportArgument) (reason : JsString)
  | findTransportById (id : JsString)
  | findTransportByEndpoint (endpoint : Option SshEndpoint) (kind : ReuseKind)
  | setDefaultTransportIdleTtlMs (ms : Option ℚ)
  | connectionClose (ref : TransportRef)
  | connectionError (ref : TransportRef)
  | idleTimer (ref : TransportRef)
  | connectionChanges (conn : ConnectionRef) (value : SshConnection)
  | holderWritten (holder : HolderRef) (value : LeaseHolder)
  /-- A reused shell died at once, and session code forbids the next one. -/
  | parkingForbidden (ref : TransportRef)
  | markEndpointNoIdlePark (key : JsString)
  | clock (now : ℚ)

namespace TransportRegistry

variable (randomUUID : ℕ → JsString)

def step (r : TransportRegistry) : RegistryEvent → TransportRegistry
  | .createTransport options => (r.createTransport randomUUID options).1
  | .borrowTransport ref options => (r.borrowTransport randomUUID ref options).1
  | .transferConnectionRef fromHolder toHolder => (r.transferConnectionRef fromHolder toHolder).1
  | .returnTransport argument => (r.returnTransport argument).1
  | .discardTransport argument reason => (r.discardTransport argument reason).1
  | .findTransportById id => (r.findTransportById id).1
  | .findTransportByEndpoint endpoint kind => (r.findTransportByEndpoint endpoint kind).1
  | .setDefaultTransportIdleTtlMs ms => r.setDefaultTransportIdleTtlMs ms
  | .connectionClose ref => r.onConnectionClose ref
  | .connectionError ref => r.onConnectionError ref
  | .idleTimer ref => r.fireIdleTimer ref
  | .connectionChanges conn value =>
    { r with connections := Function.update r.connections conn value }
  | .holderWritten holder value => r.updateHolder holder fun _ => value
  | .parkingForbidden ref =>
    r.update ref fun t => { t with allowIdlePark := false, allowShellReuse := false }
  | .markEndpointNoIdlePark key =>
    { r with noIdleParkEndpointKeys := addToSet key r.noIdleParkEndpointKeys }
  | .clock now => { r with now := now }

def run (r : TransportRegistry) (events : List RegistryEvent) : TransportRegistry :=
  events.foldl (step randomUUID) r

variable {randomUUID} {r : TransportRegistry}

theorem wellFormed_initial (holders : HolderRef → LeaseHolder)
    (connections : ConnectionRef → SshConnection) (defaultIdleTtlMs : ℚ) (maxIdleTransports : ℕ) :
    WellFormed randomUUID (initial holders connections defaultIdleTtlMs maxIdleTransports) := by
  let empty := initial holders connections defaultIdleTtlMs maxIdleTransports
  have nothing {ref : TransportRef} {t : SshTransport} : empty.transport? ref ≠ some t := by
    intro mem
    cases mem
  refine ⟨⟨?_, ?_, ?_, ?_, ?_, ?_, ?_, ?_, ?_, ?_⟩, Nat.zero_le _⟩
  · intro leaseId entry
    constructor
    · intro found
      cases found
    · rintro ⟨_, _, mem, _⟩
      exact absurd mem nothing
  · exact fun _ _ mem => absurd mem nothing
  · exact fun _ _ mem => absurd mem nothing
  · intro id ref
    constructor
    · intro found
      cases found
    · rintro ⟨_, mem, _⟩
      exact absurd mem nothing
  · intro id ref
    constructor
    · intro found
      cases found
    · rintro ⟨_, mem, _⟩
      exact absurd mem nothing
  · intro key id
    constructor
    · intro found
      cases found
    · rintro ⟨_, _, mem, _⟩
      exact absurd mem nothing
  · intro key ids found
    cases found
  · exact fun _ _ mem => absurd mem nothing
  · exact fun _ _ _ _ mem => absurd mem nothing
  · exact fun _ _ mem => absurd mem nothing

theorem WellFormed.step (distinct : Function.Injective randomUUID) (well : WellFormed randomUUID r)
    (event : RegistryEvent) : WellFormed randomUUID (r.step randomUUID event) := by
  cases event with
  | createTransport options => exact well.createTransport distinct options
  | borrowTransport ref options => exact well.borrowTransport ref options
  | transferConnectionRef fromHolder toHolder => exact well.transferConnectionRef fromHolder toHolder
  | returnTransport argument => exact well.returnTransport argument
  | discardTransport argument reason => exact well.discardTransport argument reason
  | findTransportById id => exact well.findTransportById id
  | findTransportByEndpoint endpoint kind => exact well.findTransportByEndpoint endpoint kind
  | setDefaultTransportIdleTtlMs ms => exact (well.setDefaultTransportIdleTtlMs ms).1
  | connectionClose ref => exact well.onConnectionClose ref
  | connectionError ref => exact well.onConnectionError ref
  | idleTimer ref => exact (well.fireIdleTimer ref).1
  | connectionChanges conn value => exact well.congr rfl rfl rfl rfl rfl le_rfl rfl
  | holderWritten holder value => exact well.updateHolder holder fun _ => value
  | parkingForbidden ref =>
    have same (t : SshTransport) : SameRole t { t with allowIdlePark := false, allowShellReuse := false } :=
      ⟨rfl, rfl, rfl, rfl, rfl⟩
    exact (well.update ref same).1
  | markEndpointNoIdlePark key => exact well.congr rfl rfl rfl rfl rfl le_rfl rfl
  | clock now => exact well.congr rfl rfl rfl rfl rfl le_rfl rfl

theorem WellFormed.run (distinct : Function.Injective randomUUID) (well : WellFormed randomUUID r)
    (events : List RegistryEvent) : WellFormed randomUUID (r.run randomUUID events) := by
  induction events generalizing r with
  | nil => exact well
  | cons event rest ih => exact ih (well.step distinct event)

/-- What holds between any two events. -/
structure Invariant (r : TransportRegistry) : Prop where
  /-- `leasesById` is the union of the lease maps of the registered transports. -/
  leases : ∀ leaseId entry, r.leasesById.get? leaseId = some entry ↔
    ∃ id t lease, r.transportsById.get? id = some entry.transport ∧
      r.transport? entry.transport = some t ∧ t.leases.get? leaseId = some lease ∧
      lease.holder = entry.holder
  /-- The lease maps are disjoint. -/
  disjoint : ∀ ref ref' t t' leaseId, r.transport? ref = some t → r.transport? ref' = some t' →
    t.leases.has leaseId → t'.leases.has leaseId → ref = ref'
  counted : ∀ ref t, r.transport? ref = some t → t.count = t.leases.size
  leasedLive : ∀ ref t, r.transport? ref = some t → t.leases.size ≠ 0 → t.state = .live
  /-- The idle list holds the idle transports. -/
  idle : ∀ id ref, r.idleTransportsLru.get? id = some ref ↔
    ∃ t, r.transport? ref = some t ∧ t.id = id ∧ t.state = .idle
  idleBare : ∀ ref t, r.transport? ref = some t → t.state = .idle → t.leases.size = 0
  limited : r.idleTransportsLru.size ≤ r.maxIdleTransports
  /-- A dead transport is in no index. -/
  dead : ∀ ref t, r.transport? ref = some t → t.state = .dead →
    (∀ id, r.transportsById.get? id ≠ some ref) ∧ (∀ id, r.idleTransportsLru.get? id ≠ some ref) ∧
      (∀ key, t.id ∉ r.idsAt key) ∧
      ∀ leaseId entry, r.leasesById.get? leaseId = some entry → entry.transport ≠ ref
  /-- Any other transport is registered, under its own endpoint key and no other. -/
  alive : ∀ ref t, r.transport? ref = some t → t.state ≠ .dead →
    r.transportsById.get? t.id = some ref ∧ ∀ key, t.id ∈ r.idsAt key ↔ t.endpointKey = some key

theorem WellFormed.invariant (well : WellFormed randomUUID r) : Invariant r where
  __ := well
  leases leaseId entry := by
    rw [well.leases]
    constructor
    · rintro ⟨t, lease, mem, held, holder⟩
      have leased : t.leases.size ≠ 0 := fun bare => by
        rw [size_eq_zero.mp bare leaseId] at held
        cases held
      have live := well.leasedLive _ t mem leased
      exact ⟨t.id, t, lease, well.registeredAt mem (by simp [live]), mem, held, holder⟩
    · rintro ⟨-, t, lease, -, rest⟩
      exact ⟨t, lease, rest⟩
  disjoint ref ref' t t' leaseId mem mem' held held' := well.lease_unique mem mem' held held'
  idleBare ref t mem idle := well.bare_of_idle mem idle
  dead ref t mem dead := by
    refine ⟨?_, ?_, ?_, ?_⟩
    · intro id registered
      exact alive_of_registered well.toCoherent registered mem dead
    · intro id listed
      obtain ⟨u, mem', -, idle⟩ := (well.idle id ref).mp listed
      rw [← Option.some.inj (mem.symm.trans mem'), dead] at idle
      cases idle
    · intro key listed
      obtain ⟨x, u, mem', named, alive, -⟩ := (well.byEndpoint key t.id).mp listed
      rw [well.identified x ref u t mem' mem named, mem] at mem'
      exact alive (Option.some.inj mem' ▸ dead)
    · intro leaseId entry found same
      obtain ⟨u, lease, mem', held, -⟩ := (well.leases leaseId entry).mp found
      rw [same, mem] at mem'
      rw [← Option.some.inj mem', size_eq_zero.mp (well.bare_of_dead mem dead)] at held
      cases held
  alive ref t mem alive := by
    refine ⟨well.registeredAt mem alive, ?_⟩
    intro key
    rw [well.byEndpoint]
    constructor
    · rintro ⟨x, u, mem', named, -, keyed⟩
      rw [well.identified x ref u t mem' mem named, mem] at mem'
      exact Option.some.inj mem' ▸ keyed
    · exact fun keyed => ⟨ref, t, mem, rfl, alive, keyed⟩

/-- A return ends no transport that has another lease: it loses the returned
lease at most. -/
theorem WellFormed.returnTransport_keeps (well : WellFormed randomUUID r) {argument : LeaseArgument}
    {leaseId other : JsString} (resolved : argument.resolve r = some leaseId) {ref : TransportRef}
    {t : SshTransport} (mem : r.transport? ref = some t) (held : t.leases.has other)
    (another : other ≠ leaseId) : ∃ t', (r.returnTransport argument).1.transport? ref = some t' ∧
      t'.state = .live ∧ t'.leases = t.leases.delete leaseId := by
  have live : t.state = .live := by
    apply well.leasedLive ref t mem
    intro bare
    obtain ⟨lease, found⟩ := has_iff.mp held
    rw [size_eq_zero.mp bare] at found
    cases found
  have untouched (absent : t.leases.has leaseId = false) :
      t.leases = t.leases.delete leaseId := (delete_of_not_has absent).symm
  unfold TransportRegistry.returnTransport
  rw [resolved]
  dsimp only
  cases found : r.leasesById.get? leaseId with
  | none =>
    refine ⟨t, ?_, live, untouched ?_⟩
    · change (r.detachArgument argument).transport? ref = some t
      unfold TransportRegistry.detachArgument
      split <;> exact mem
    · by_contra has
      obtain ⟨lease, here⟩ := has_iff.mp (by simpa using has : t.leases.has leaseId)
      rw [well.leaseEntry mem here] at found
      cases found
  | some entry =>
    obtain ⟨released, u, u', ch, has, same, heap⟩ := releaseLease_spec well argument found
    have parked := (released.parkReleased entry.transport).2
    by_cases own : ref = entry.transport
    · have here : u = t := Option.some.inj (ch.before.symm.trans (own ▸ mem))
      subst here
      have leases : u'.leases = u.leases.delete leaseId := same.leases
      have leased : u'.leases.size ≠ 0 := by
        intro bare
        obtain ⟨lease, found⟩ := has_iff.mp held
        have gone := size_eq_zero.mp bare other
        rw [leases, get?_delete, if_neg another, found] at gone
        cases gone
      obtain ⟨t', mem', state', leases'⟩ := parked.leased ref u' (by rw [heap, if_pos own]) leased
      exact ⟨t', mem', state'.trans (same.state.trans live), leases'.trans leases⟩
    · have leased : t.leases.size ≠ 0 := by
        intro bare
        obtain ⟨lease, found⟩ := has_iff.mp held
        rw [size_eq_zero.mp bare] at found
        cases found
      obtain ⟨t', mem', state', leases'⟩ := parked.leased ref t (by rw [heap, if_neg own, mem]) leased
      refine ⟨t', mem', state'.trans live, leases'.trans (untouched ?_)⟩
      by_contra both
      exact own (well.lease_unique mem ch.before (by simpa using both) has)

/-- Over any run from an empty registry the indexes describe the transports, and
no idle timer, no new time to live and no return (with the eviction it may cause)
ends a transport that keeps a lease. -/
theorem run_invariant (distinct : Function.Injective randomUUID) (holders : HolderRef → LeaseHolder)
    (connections : ConnectionRef → SshConnection) (defaultIdleTtlMs : ℚ) (maxIdleTransports : ℕ)
    (events : List RegistryEvent)
    (reached : r = (initial holders connections defaultIdleTtlMs maxIdleTransports).run
      randomUUID events) :
    Invariant r ∧
      ∀ ref t, r.transport? ref = some t → ∀ other, t.leases.has other →
        (∀ event, (∃ x, event = .idleTimer x) ∨ (∃ ms, event = .setDefaultTransportIdleTtlMs ms) →
          ∃ t', (r.step randomUUID event).transport? ref = some t' ∧
            t'.state = .live ∧ t'.leases = t.leases) ∧
        ∀ argument leaseId, argument.resolve r = some leaseId → other ≠ leaseId →
          ∃ t', (r.step randomUUID (.returnTransport argument)).transport? ref = some t' ∧
            t'.state = .live ∧ t'.leases = t.leases.delete leaseId := by
  have well : WellFormed randomUUID r := by
    rw [reached]
    exact (wellFormed_initial holders connections defaultIdleTtlMs maxIdleTransports).run distinct
      events
  refine ⟨well.invariant, ?_⟩
  intro ref t mem other held
  have leased : t.leases.size ≠ 0 := by
    intro bare
    obtain ⟨lease, found⟩ := has_iff.mp held
    rw [size_eq_zero.mp bare] at found
    cases found
  have live := well.leasedLive ref t mem leased
  constructor
  · rintro event (⟨x, rfl⟩ | ⟨ms, rfl⟩)
    · obtain ⟨t', mem', state', leases'⟩ := (well.fireIdleTimer x).2.leased ref t mem leased
      exact ⟨t', mem', state'.trans live, leases'⟩
    · obtain ⟨t', mem', state', leases'⟩ :=
        (well.setDefaultTransportIdleTtlMs ms).2.leased ref t mem leased
      exact ⟨t', mem', state'.trans live, leases'⟩
  · intro argument leaseId resolved another
    exact well.returnTransport_keeps resolved mem held another

/-! ## A run -/

/-- Ids of the form `randomUUID` draws. -/
def sampleUUID (n : ℕ) : JsString :=
  text "1b9d6bcd-bbfd-4b2d-9b5d-" ++ decimal (100000000000 + n)

theorem sampleUUID_injective : Function.Injective sampleUUID := by
  intro n n' same
  have digits := decimal_injective (List.append_cancel_left same)
  omega

def smallRegistry : TransportRegistry :=
  initial (fun _ => ⟨none, none, true, []⟩) (fun _ => ⟨false, text "OpenSSH_9.6", true⟩) 300000 1

def twoParked : List RegistryEvent :=
  [.createTransport ⟨some 0, [], none, none⟩, .createTransport ⟨some 1, [], none, none⟩,
    .borrowTransport 0 ⟨[], text "a", some 0, true⟩, .borrowTransport 1 ⟨[], text "b", some 1, true⟩,
    .returnTransport (.holder 0), .clock 1000, .returnTransport (.leaseId (text "b"))]

/-- The second return evicts the transport that was idle first. -/
theorem run_invariant_twoParked : Invariant (smallRegistry.run sampleUUID twoParked) ∧
      ((smallRegistry.run sampleUUID twoParked).transports.map fun t => t.state) = [.dead, .idle] :=
  ⟨(run_invariant sampleUUID_injective _ _ _ _ twoParked rfl).1, by decide +kernel⟩

end TransportRegistry

end Netcatty
