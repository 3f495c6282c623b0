import Netcatty.SshTransportPool

/-!
What the indexes of the transport registry say about its transports.

Each index is a function of the transports: of their ids, states, endpoint keys
and lease maps (`Coherent`).  An operation that changes one transport and the
entries under its id (`Changes`) keeps the indexes coherent, so every function of
the registry is described once by the change it makes.
-/

namespace Netcatty.TransportRegistry

open OrderedMap

def idsAt (r : TransportRegistry) (key : JsString) : List JsString :=
  (r.transportIdsByEndpoint.get? key).getD []

/-- The indexes agree with the transports. -/
structure Coherent (randomUUID : ℕ → JsString) (r : TransportRegistry) : Prop where
  leases : ∀ leaseId entry, r.leasesById.get? leaseId = some entry ↔
    ∃ t lease, r.transport? entry.transport = some t ∧ t.leases.get? leaseId = some lease ∧
      lease.holder = entry.holder
  counted : ∀ ref t, r.transport? ref = some t → t.count = t.leases.size
  leasedLive : ∀ ref t, r.transport? ref = some t → t.leases.size ≠ 0 → t.state = .live
  idle : ∀ id ref, r.idleTransportsLru.get? id = some ref ↔
    ∃ t, r.transport? ref = some t ∧ t.id = id ∧ t.state = .idle
  byId : ∀ id ref, r.transportsById.get? id = some ref ↔
    ∃ t, r.transport? ref = some t ∧ t.id = id ∧ t.state ≠ .dead
  byEndpoint : ∀ key id, id ∈ r.idsAt key ↔
    ∃ ref t, r.transport? ref = some t ∧ t.id = id ∧ t.state ≠ .dead ∧ t.endpointKey = some key
  populated : ∀ key ids, r.transportIdsByEndpoint.get? key = some ids → ids ≠ []
  settled : ∀ ref t, r.transport? ref = some t → t.state ≠ .closing
  identified : ∀ ref ref' t t', r.transport? ref = some t → r.transport? ref' = some t' →
    t.id = t'.id → ref = ref'
  drawn : ∀ ref t, r.transport? ref = some t → ∃ n < r.uuidsDrawn, t.id = randomUUID n

/-- One transport changed, and with it the entries under its id. -/
structure Changes (r r' : TransportRegistry) (ref : TransportRef) (t t' : SshTransport) : Prop where
  before : r.transport? ref = some t
  after : ∀ x, r'.transport? x = if x = ref then some t' else r.transport? x
  id : t'.id = t.id
  endpointKey : t'.endpointKey = t.endpointKey
  settled : t'.state ≠ .closing
  counted : t'.count = t'.leases.size
  leasedLive : t'.leases.size ≠ 0 → t'.state = .live
  fresh : ∀ leaseId, t'.leases.has leaseId → t.leases.has leaseId ∨ r.leasesById.get? leaseId = none
  held : ∀ leaseId lease, t'.leases.get? leaseId = some lease →
    r'.leasesById.get? leaseId = some ⟨ref, lease.holder⟩
  unheld : ∀ leaseId, t'.leases.get? leaseId = none → r'.leasesById.get? leaseId =
    if t.leases.has leaseId then none else r.leasesById.get? leaseId
  idle : ∀ id, r'.idleTransportsLru.get? id =
    if id = t.id then (if t'.state = .idle then some ref else none) else r.idleTransportsLru.get? id
  byId : ∀ id, r'.transportsById.get? id =
    if id = t.id then (if t'.state ≠ .dead then some ref else none) else r.transportsById.get? id
  byEndpoint : ∀ key id, id ∈ r'.idsAt key ↔
    if id = t.id then t'.state ≠ .dead ∧ t.endpointKey = some key else id ∈ r.idsAt key
  populated : ∀ key ids, r'.transportIdsByEndpoint.get? key = some ids → ids ≠ []
  drawn : r.uuidsDrawn ≤ r'.uuidsDrawn
  limit : r'.maxIdleTransports = r.maxIdleTransports

variable {randomUUID : ℕ → JsString} {r r' r'' : TransportRegistry} {ref : TransportRef}
  {t t' : SshTransport}

@[simp] theorem transport?_update (r : TransportRegistry) (ref x : TransportRef)
    (f : SshTransport → SshTransport) :
    (r.update ref f).transport? x = if x = ref then (r.transport? ref).map f else r.transport? x := by
  unfold update transport?
  rw [List.getElem?_modify]
  by_cases same : x = ref
  · subst same
    simp
  · have other : ref ≠ x := fun eq => same eq.symm
    simp [same, other]

/-! ## Coherent registries -/

namespace Coherent

section

variable (c : Coherent randomUUID r)

include c

section

variable (mem : r.transport? ref = some t)
include mem

theorem leaseEntry {leaseId : JsString}
    {lease : SshLease} (held : t.leases.get? leaseId = some lease) :
    r.leasesById.get? leaseId = some ⟨ref, lease.holder⟩ :=
  (c.leases leaseId ⟨ref, lease.holder⟩).mpr ⟨t, lease, mem, held, rfl⟩

omit mem in
theorem lease_unique {x : TransportRef} {u : SshTransport}
    (mem : r.transport? ref = some t) (mem' : r.transport? x = some u) {leaseId : JsString}
    (held : t.leases.has leaseId) (held' : u.leases.has leaseId) : ref = x := by
  obtain ⟨lease, found⟩ := has_iff.mp held
  obtain ⟨lease', found'⟩ := has_iff.mp held'
  have same := (c.leaseEntry mem found).symm.trans (c.leaseEntry mem' found')
  exact congrArg LeaseEntry.transport (Option.some.inj same)

theorem registeredAt (open_ : t.state ≠ .dead) : r.transportsById.get? t.id = some ref :=
  (c.byId t.id ref).mpr ⟨t, mem, rfl, open_⟩

/-- A transport that ended holds no lease. -/
theorem bare_of_dead (dead : t.state = .dead) : t.leases.size = 0 := by
  by_contra leased
  rw [c.leasedLive ref t mem leased] at dead
  cases dead

theorem bare_of_idle (idle : t.state = .idle) : t.leases.size = 0 := by
  by_contra leased
  rw [c.leasedLive ref t mem leased] at idle
  cases idle

end

theorem id_eq_iff {x : TransportRef} {u : SshTransport}
    (mem : r.transport? ref = some t) (mem' : r.transport? x = some u) : u.id = t.id ↔ x = ref := by
  constructor
  · exact fun same => c.identified x ref u t mem' mem same
  · rintro rfl
    rw [Option.some.inj (mem.symm.trans mem')]

end

end Coherent

namespace Changes

section

variable (ch : Changes r r' ref t t')

include ch

theorem at_ref : r'.transport? ref = some t' := by
  rw [ch.after, if_pos rfl]

theorem at_other {x : TransportRef} (other : x ≠ ref) : r'.transport? x = r.transport? x := by
  rw [ch.after, if_neg other]

theorem cases {x : TransportRef} {u : SshTransport}
    (mem : r'.transport? x = some u) : (x = ref ∧ u = t') ∨ (x ≠ ref ∧ r.transport? x = some u) := by
  by_cases same : x = ref
  · subst same
    exact Or.inl ⟨rfl, Option.some.inj (mem.symm.trans ch.at_ref)⟩
  · exact Or.inr ⟨same, ch.at_other same ▸ mem⟩

theorem leases_iff (c : Coherent randomUUID r)
    (leaseId : JsString) (entry : LeaseEntry) : r'.leasesById.get? leaseId = some entry ↔
      ∃ u lease, r'.transport? entry.transport = some u ∧ u.leases.get? leaseId = some lease ∧
        lease.holder = entry.holder := by
  have elsewhere {u : SshTransport} (other : entry.transport ≠ ref)
      (mem : r.transport? entry.transport = some u) (held : u.leases.has leaseId) :
      t.leases.has leaseId = false ∧ t'.leases.has leaseId = false := by
    have apart : t.leases.has leaseId = false := by
      by_contra both
      exact other (c.lease_unique mem ch.before held (by simpa using both))
    refine ⟨apart, ?_⟩
    by_contra both
    rcases ch.fresh leaseId (by simpa using both) with here | unused
    · rw [apart] at here
      cases here
    · obtain ⟨lease, found⟩ := has_iff.mp held
      rw [c.leaseEntry mem found] at unused
      cases unused
  cases now : t'.leases.get? leaseId with
  | some lease =>
    rw [ch.held leaseId lease now, Option.some.injEq]
    constructor
    · rintro rfl
      exact ⟨t', lease, ch.at_ref, now, rfl⟩
    · rintro ⟨u, found, mem, held, holder⟩
      rcases ch.cases mem with same | old
      · obtain ⟨here, same⟩ := same
        rw [same, now] at held
        rw [← here, ← Option.some.inj held] at *
        exact LeaseEntry.mk.injEq .. ▸ ⟨rfl, holder⟩
      · obtain ⟨other, mem⟩ := old
        have absent := (elsewhere other mem (has_iff.mpr ⟨found, held⟩)).2
        rw [OrderedMap.has, now] at absent
        cases absent
  | none =>
    rw [ch.unheld leaseId now]
    by_cases had : t.leases.has leaseId
    · rw [if_pos had]
      constructor
      · intro absurd
        cases absurd
      · rintro ⟨u, found, mem, held, -⟩
        rcases ch.cases mem with same | old
        · rw [same.2, now] at held
          cases held
        · have absent := (elsewhere old.1 old.2 (has_iff.mpr ⟨found, held⟩)).1
          rw [absent] at had
          cases had
    · rw [if_neg had, c.leases]
      constructor
      · rintro ⟨u, found, mem, held, holder⟩
        by_cases here : entry.transport = ref
        · rw [here, ch.before] at mem
          rw [← Option.some.inj mem] at held
          exact absurd (has_iff.mpr ⟨found, held⟩) had
        · exact ⟨u, found, (ch.at_other here).trans mem, held, holder⟩
      · rintro ⟨u, found, mem, held, holder⟩
        rcases ch.cases mem with same | old
        · rw [same.2, now] at held
          cases held
        · exact ⟨u, found, old.2, held, holder⟩

theorem index_iff (c : Coherent randomUUID r)
    {P : TransportState → Prop} [DecidablePred P] {old new : OrderedMap JsString TransportRef}
    (was : ∀ id x, old.get? id = some x ↔ ∃ u, r.transport? x = some u ∧ u.id = id ∧ P u.state)
    (now : ∀ id, new.get? id =
      if id = t.id then (if P t'.state then some ref else none) else old.get? id)
    (id : JsString) (x : TransportRef) :
    new.get? id = some x ↔ ∃ u, r'.transport? x = some u ∧ u.id = id ∧ P u.state := by
  rw [now]
  by_cases same : id = t.id
  · subst same
    rw [if_pos rfl]
    constructor
    · intro found
      split at found
      · rename_i listed
        cases found
        exact ⟨t', ch.at_ref, ch.id, listed⟩
      · cases found
    · rintro ⟨u, mem, named, listed⟩
      rcases ch.cases mem with ⟨rfl, rfl⟩ | ⟨other, old⟩
      · rw [if_pos listed]
      · exact absurd ((c.id_eq_iff ch.before old).mp named) other
  · rw [if_neg same, was]
    constructor
    · rintro ⟨u, mem, named, listed⟩
      have other : x ≠ ref := fun here => same (named ▸ (c.id_eq_iff ch.before mem).mpr here)
      exact ⟨u, (ch.at_other other).trans mem, named, listed⟩
    · rintro ⟨u, mem, named, listed⟩
      rcases ch.cases mem with ⟨rfl, rfl⟩ | ⟨other, old⟩
      · exact absurd (named.symm.trans ch.id) same
      · exact ⟨u, old, named, listed⟩

theorem coherent (c : Coherent randomUUID r) : Coherent randomUUID r' where
  leases := ch.leases_iff c
  counted x u mem := by
    rcases ch.cases mem with ⟨-, rfl⟩ | ⟨-, old⟩
    · exact ch.counted
    · exact c.counted x u old
  leasedLive x u mem := by
    rcases ch.cases mem with ⟨-, rfl⟩ | ⟨-, old⟩
    · exact ch.leasedLive
    · exact c.leasedLive x u old
  idle := ch.index_iff c (P := (· = .idle)) c.idle ch.idle
  byId := ch.index_iff c (P := (· ≠ .dead)) c.byId ch.byId
  byEndpoint key id := by
    rw [ch.byEndpoint]
    by_cases same : id = t.id
    · subst same
      rw [if_pos rfl]
      constructor
      · rintro ⟨alive, keyed⟩
        exact ⟨ref, t', ch.at_ref, ch.id, alive, ch.endpointKey.trans keyed⟩
      · rintro ⟨x, u, mem, named, alive, keyed⟩
        rcases ch.cases mem with ⟨rfl, rfl⟩ | ⟨other, old⟩
        · exact ⟨alive, ch.endpointKey.symm.trans keyed⟩
        · exact absurd ((c.id_eq_iff ch.before old).mp named) other
    · rw [if_neg same, c.byEndpoint]
      constructor
      · rintro ⟨x, u, mem, named, rest⟩
        have other : x ≠ ref := fun here => same (named ▸ (c.id_eq_iff ch.before mem).mpr here)
        exact ⟨x, u, (ch.at_other other).trans mem, named, rest⟩
      · rintro ⟨x, u, mem, named, rest⟩
        rcases ch.cases mem with ⟨rfl, rfl⟩ | ⟨other, old⟩
        · exact absurd (named.symm.trans ch.id) same
        · exact ⟨x, u, old, named, rest⟩
  populated := ch.populated
  settled x u mem := by
    rcases ch.cases mem with ⟨-, rfl⟩ | ⟨-, old⟩
    · exact ch.settled
    · exact c.settled x u old
  identified x x' u u' mem mem' same := by
    rcases ch.cases mem with ⟨rfl, rfl⟩ | ⟨other, old⟩
    · rcases ch.cases mem' with ⟨rfl, -⟩ | ⟨-, old'⟩
      · rfl
      · exact ((c.id_eq_iff ch.before old').mp (same.symm.trans ch.id)).symm
    · rcases ch.cases mem' with ⟨rfl, rfl⟩ | ⟨-, old'⟩
      · exact (c.id_eq_iff ch.before old).mp (same.trans ch.id)
      · exact c.identified x x' u u' old old' same
  drawn x u mem := by
    have old : ∃ v, r.transport? x = some v ∧ u.id = v.id := by
      rcases ch.cases mem with ⟨rfl, rfl⟩ | ⟨-, old⟩
      · exact ⟨t, ch.before, ch.id⟩
      · exact ⟨u, old, rfl⟩
    obtain ⟨v, mem, same⟩ := old
    obtain ⟨n, drawn, named⟩ := c.drawn x v mem
    exact ⟨n, drawn.trans_le ch.drawn, same.trans named⟩

end

end Changes

end Netcatty.TransportRegistry
