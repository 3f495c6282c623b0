import Netcatty.SshTransportInvariant

/-!
Ending transports, and the limit on idle ones.

Ending changes one transport: its leases go, and its id leaves every index.
Enforcing the limit ends idle transports only, so it keeps every transport that
has a lease (`KeepsLeased`), and leaves at most `maxIdleTransports` idle ones.
-/

namespace Netcatty.TransportRegistry

open List OrderedMap

variable {randomUUID : ℕ → JsString} {r r' r'' : TransportRegistry} {ref : TransportRef}
  {t t' : SshTransport}

structure KeepsLeased (r r' : TransportRegistry) : Prop where
  leased : ∀ ref t, r.transport? ref = some t → t.leases.size ≠ 0 →
    ∃ t', r'.transport? ref = some t' ∧ t'.state = t.state ∧ t'.leases = t.leases
  /-- No transport gains a lease. -/
  bare : ∀ ref, (∀ t, r.transport? ref = some t → t.leases.size = 0) →
    ∀ t', r'.transport? ref = some t' → t'.leases.size = 0
  limit : r'.maxIdleTransports = r.maxIdleTransports

theorem KeepsLeased.refl (r : TransportRegistry) : KeepsLeased r r where
  leased _ t mem _ := ⟨t, mem, rfl, rfl⟩
  bare _ none := none
  limit := rfl

theorem KeepsLeased.trans (first : KeepsLeased r r') (second : KeepsLeased r' r'') :
    KeepsLeased r r'' where
  leased ref t mem leased := by
    obtain ⟨t', mem', state', leases'⟩ := first.leased ref t mem leased
    obtain ⟨t'', mem'', state'', leases''⟩ := second.leased ref t' mem' (by rwa [leases'])
    exact ⟨t'', mem'', state''.trans state', leases''.trans leases'⟩
  bare ref none := second.bare ref (first.bare ref none)
  limit := second.limit.trans first.limit

theorem Changes.keepsLeased (ch : Changes r r' ref t t') (bare : t.leases.size = 0)
    (bare' : t'.leases.size = 0) : KeepsLeased r r' where
  leased x u mem leased := by
    have other : x ≠ ref := by
      rintro rfl
      rw [ch.before] at mem
      exact leased (Option.some.inj mem ▸ bare)
    exact ⟨u, (ch.at_other other).trans mem, rfl, rfl⟩
  bare x none u mem := by
    rcases ch.cases mem with ⟨-, rfl⟩ | ⟨-, old⟩
    · exact bare'
    · exact none u old
  limit := ch.limit

/-! ## Ending -/

section

variable (t : SshTransport)

@[simp] theorem clearIdleTimer_id : t.clearIdleTimer.id = t.id := by
  unfold SshTransport.clearIdleTimer
  split <;> rfl

@[simp] theorem clearIdleTimer_endpointKey : t.clearIdleTimer.endpointKey = t.endpointKey := by
  unfold SshTransport.clearIdleTimer
  split <;> rfl

@[simp] theorem clearIdleTimer_leases : t.clearIdleTimer.leases = t.leases := by
  unfold SshTransport.clearIdleTimer
  split <;> rfl

@[simp] theorem clearIdleTimer_count : t.clearIdleTimer.count = t.count := by
  unfold SshTransport.clearIdleTimer
  split <;> rfl

@[simp] theorem clearIdleTimer_state : t.clearIdleTimer.state = t.state := by
  unfold SshTransport.clearIdleTimer
  split <;> rfl

end

theorem toClosing_keeps (r : TransportRegistry) (t : SshTransport) :
    (r.toClosing t).id = t.id ∧ (r.toClosing t).endpointKey = t.endpointKey ∧
      (r.toClosing t).leases = t.leases := by
  unfold toClosing detachedLifecycle
  cases SshTransport.conn _ with
  | none => simp
  | some conn => by_cases emits : (r.connections conn).emitsEvents <;> simp [emits]

/-- The registry after a transport became `t'` without leases, and its entries
in the indexes went. -/
def withEnded (r : TransportRegistry) (ref : TransportRef) (t t' : SshTransport)
    (holders : HolderRef → LeaseHolder) (endCalls : List ConnectionRef) : TransportRegistry :=
  { r with
    transports := r.transports.modify ref fun _ => t'
    holders := holders
    leasesById := t.leases.keys.foldl .delete r.leasesById
    endCalls := endCalls }.unregisterTransport t

/-- Forgetting leases removes them from both maps and writes to holders only. -/
theorem foldl_forgetLease (ref : TransportRef) (l : List JsString) (r : TransportRegistry) :
    ∃ holders, l.foldl (forgetLease ref) r =
      { r.update ref (fun t => l.foldl (fun t leaseId => deleteLease leaseId t) t) with
        holders := holders
        leasesById := l.foldl .delete r.leasesById } := by
  induction l generalizing r with
  | nil =>
    refine ⟨r.holders, ?_⟩
    change r = r.update ref id
    unfold update
    rw [modify_id]
  | cons leaseId rest ih =>
    have first : ∃ holders, forgetLease ref r leaseId =
        { r.update ref (deleteLease leaseId) with
          holders := holders
          leasesById := r.leasesById.delete leaseId } := by
      unfold forgetLease
      dsimp only
      split
      · exact ⟨r.holders, rfl⟩
      · split
        · exact ⟨_, rfl⟩
        · exact ⟨r.holders, rfl⟩
    obtain ⟨between, first⟩ := first
    obtain ⟨holders, rest_⟩ := ih (forgetLease ref r leaseId)
    refine ⟨holders, ?_⟩
    rw [foldl_cons, rest_, first]
    unfold update
    simp only [modify_modify_eq]
    rfl

theorem foldl_deleteLease (l : List JsString) (t : SshTransport) :
    l.foldl (fun t leaseId => deleteLease leaseId t) t =
      { t with leases := l.foldl .delete t.leases } := by
  induction l generalizing t with
  | nil => rfl
  | cons leaseId rest ih => exact ih (deleteLease leaseId t)

theorem endTransport_eq (mem : r.transport? ref = some t) (alive : t.state ≠ .dead)
    (settled : t.state ≠ .closing) (reason : JsString) (skipConnectionEnd : Bool) :
    ∃ t' holders endCalls,
      r.endTransport ref reason skipConnectionEnd = (r.withEnded ref t t' holders endCalls, true) ∧
      t'.id = t.id ∧ t'.endpointKey = t.endpointKey ∧ t'.state = .dead ∧ t'.leases = .empty ∧
      t'.count = 0 := by
  obtain ⟨idSame, keySame, leasesSame⟩ := toClosing_keeps r t
  have noLeases : t.leases.keys.foldl .delete (r.toClosing t).leases = .empty := by
    apply eq_empty_of_get?
    intro key
    rw [get?_foldl_delete, leasesSame]
    by_cases held : key ∈ t.leases.keys
    · rw [if_pos held]
    · rw [if_neg held]
      exact get?_eq_none.mpr held
  obtain ⟨holders, bare⟩ := foldl_forgetLease ref t.leases.keys (r.update ref r.toClosing)
  refine ⟨toDead reason { r.toClosing t with leases := .empty }, holders,
    r.endCalls ++ (if skipConnectionEnd then [] else t.conn.toList) ++ t.chainConnections,
    ?_, idSame, keySame, rfl, rfl, rfl⟩
  have last : r.transports.modify ref (fun t' => toDead reason
      (t.leases.keys.foldl (fun t leaseId => deleteLease leaseId t) (r.toClosing t'))) =
      r.transports.modify ref fun _ => toDead reason { r.toClosing t with leases := .empty } := by
    apply ext_getElem?
    intro x
    rw [getElem?_modify, getElem?_modify]
    by_cases same : ref = x
    · subst same
      rw [show r.transports[ref]? = some t from mem]
      simp [foldl_deleteLease, noLeases]
    · simp [same]
  unfold endTransport
  rw [mem]
  simp only [alive, settled, or_self, if_false, bare]
  unfold withEnded
  rw [← last]
  unfold update
  simp only [modify_modify_eq]
  rfl

theorem mem_dropEndpointId {key id k x : JsString}
    {index : OrderedMap JsString (List JsString)} :
    x ∈ ((dropEndpointId key id index).get? k).getD [] ↔
      x ∈ (index.get? k).getD [] ∧ ¬(k = key ∧ x = id) := by
  unfold dropEndpointId
  cases found : index.get? key with
  | none =>
    by_cases same : k = key
    · subst same
      simp [found]
    · simp [same]
  | some ids =>
    dsimp only
    by_cases same : k = key
    · subst same
      by_cases empty : ids.filter (· ≠ id) = []
      · rw [if_pos empty, get?_delete, if_pos rfl, found]
        have own (mem : x ∈ ids) : x = id := by
          simpa using (filter_eq_nil_iff.mp empty) x mem
        simpa using own
      · rw [if_neg empty, OrderedMap.get?_set, if_pos rfl, found]
        simp
    · by_cases empty : ids.filter (· ≠ id) = []
      · rw [if_pos empty, get?_delete, if_neg same]
        simp [same]
      · rw [if_neg empty, OrderedMap.get?_set, if_neg same]
        simp [same]

theorem dropEndpointId_populated {key id : JsString}
    {index : OrderedMap JsString (List JsString)}
    (populated : ∀ k ids, index.get? k = some ids → ids ≠ []) (k : JsString) (ids : List JsString)
    (found : (dropEndpointId key id index).get? k = some ids) : ids ≠ [] := by
  unfold dropEndpointId at found
  cases here : index.get? key with
  | none =>
    rw [here] at found
    exact populated k ids found
  | some old =>
    rw [here] at found
    dsimp only at found
    by_cases empty : old.filter (· ≠ id) = []
    · rw [if_pos empty, get?_delete] at found
      split at found
      · cases found
      · exact populated k ids found
    · rw [if_neg empty, OrderedMap.get?_set] at found
      split at found
      · cases found
        exact empty
      · exact populated k ids found

theorem withEnded_changes (c : Coherent randomUUID r) (mem : r.transport? ref = some t)
    (id : t'.id = t.id) (key : t'.endpointKey = t.endpointKey) (dead : t'.state = .dead)
    (bare : t'.leases = .empty) (count : t'.count = 0) (holders : HolderRef → LeaseHolder)
    (endCalls : List ConnectionRef) :
    Changes r (r.withEnded ref t t' holders endCalls) ref t t' where
  before := mem
  after x := by
    change (r.transports.modify ref fun _ => t')[x]? = _
    rw [getElem?_modify]
    by_cases same : ref = x
    · subst same
      rw [show r.transports[ref]? = some t from mem]
      simp
    · have other : x ≠ ref := fun eq => same eq.symm
      simp [same, other, transport?]
  id := id
  endpointKey := key
  settled := by simp [dead]
  counted := by simp [count, bare, OrderedMap.empty, OrderedMap.size]
  leasedLive leased := by simp [bare, OrderedMap.empty, OrderedMap.size] at leased
  fresh leaseId held := by simp [bare, OrderedMap.has] at held
  held leaseId lease found := by
    rw [bare] at found
    cases found
  unheld leaseId _ := by
    change (t.leases.keys.foldl OrderedMap.delete r.leasesById).get? leaseId = _
    rw [get?_foldl_delete]
    by_cases held : leaseId ∈ t.leases.keys
    · rw [if_pos held, if_pos (OrderedMap.mem_keys.mp held)]
    · rw [if_neg held, if_neg fun has => held (OrderedMap.mem_keys.mpr has)]
  idle x := by
    change (r.idleTransportsLru.delete t.id).get? x = _
    simp [dead]
  byId x := by
    change (r.transportsById.delete t.id).get? x = _
    simp [dead]
  byEndpoint k x := by
    have indexed : x ∈ (r.withEnded ref t t' holders endCalls).idsAt k ↔
        x ∈ r.idsAt k ∧ ¬(t.endpointKey = some k ∧ x = t.id) := by
      unfold withEnded unregisterTransport idsAt
      cases keyed : t.endpointKey with
      | none => simp [removeIdleTransportLru]
      | some own =>
        rw [Option.some.injEq, eq_comm (a := own)]
        exact mem_dropEndpointId
    rw [indexed]
    by_cases same : x = t.id
    · rw [if_pos same]
      constructor
      · rintro ⟨listed, notOwn⟩
        obtain ⟨u, v, mem', named, -, keyed⟩ := (c.byEndpoint k x).mp listed
        have here := c.identified u ref v t mem' mem (named.trans same)
        rw [here, mem] at mem'
        rw [← Option.some.inj mem'] at keyed
        exact absurd ⟨keyed, same⟩ notOwn
      · rintro ⟨alive, -⟩
        exact absurd dead alive
    · rw [if_neg same]
      simp [same]
  populated := by
    unfold withEnded unregisterTransport
    cases t.endpointKey with
    | none => exact c.populated
    | some own => exact dropEndpointId_populated c.populated
  drawn := le_rfl
  limit := rfl

theorem endTransport_changes (c : Coherent randomUUID r) (mem : r.transport? ref = some t)
    (alive : t.state ≠ .dead) (reason : JsString) (skipConnectionEnd : Bool) :
    ∃ t', Changes r (r.endTransport ref reason skipConnectionEnd).1 ref t t' ∧
      t'.leases.size = 0 ∧ (r.endTransport ref reason skipConnectionEnd).1.idleTransportsLru =
        r.idleTransportsLru.delete t.id := by
  obtain ⟨t', holders, endCalls, eq, id, key, dead, bare, count⟩ :=
    endTransport_eq mem alive (c.settled ref t mem) reason skipConnectionEnd
  refine ⟨t', ?_, by rw [bare]; rfl, ?_⟩
  · rw [eq]
    exact withEnded_changes c mem id key dead bare count holders endCalls
  · rw [eq]
    rfl

theorem endTransport_of_ended (ended : ∀ t, r.transport? ref = some t → t.state = .dead)
    (reason : JsString) (skipConnectionEnd : Bool) :
    r.endTransport ref reason skipConnectionEnd = (r, false) := by
  unfold endTransport
  cases mem : r.transport? ref with
  | none => rfl
  | some t => simp [ended t mem]

/-! ## The idle limit -/

/-- At most the permitted number of transports is idle. -/
def Limited (r : TransportRegistry) : Prop := r.idleTransportsLru.size ≤ r.maxIdleTransports

/-- The registry between two operations. -/
structure WellFormed (randomUUID : ℕ → JsString) (r : TransportRegistry) : Prop
    extends Coherent randomUUID r where
  limited : r.Limited

theorem WellFormed.endTransport (well : WellFormed randomUUID r) (ref : TransportRef)
    (reason : JsString) (skipConnectionEnd : Bool) :
    WellFormed randomUUID (r.endTransport ref reason skipConnectionEnd).1 := by
  by_cases ended : ∀ t, r.transport? ref = some t → t.state = .dead
  · rw [endTransport_of_ended ended]
    exact well
  · simp only [not_forall] at ended
    obtain ⟨t, mem, alive⟩ := ended
    obtain ⟨t', ch, -, idle⟩ := endTransport_changes well.toCoherent mem alive reason
      skipConnectionEnd
    refine ⟨ch.coherent well.toCoherent, ?_⟩
    unfold Limited
    rw [idle, ch.limit]
    exact (size_delete_le _ _).trans well.limited

/-- Ending a transport without leases keeps the others. -/
theorem WellFormed.endTransport_keepsLeased (well : WellFormed randomUUID r)
    (bare : ∀ t, r.transport? ref = some t → t.leases.size = 0) (reason : JsString)
    (skipConnectionEnd : Bool) : KeepsLeased r (r.endTransport ref reason skipConnectionEnd).1 := by
  by_cases ended : ∀ t, r.transport? ref = some t → t.state = .dead
  · rw [endTransport_of_ended ended]
    exact .refl r
  · simp only [not_forall] at ended
    obtain ⟨t, mem, alive⟩ := ended
    obtain ⟨t', ch, bare', -⟩ := endTransport_changes well.toCoherent mem alive reason
      skipConnectionEnd
    exact ch.keepsLeased (bare t mem) bare'

theorem isStaleIdleEntry_eq_false (c : Coherent randomUUID r) {id : JsString}
    (listed : r.idleTransportsLru.get? id = some ref) : r.isStaleIdleEntry id ref = false := by
  obtain ⟨t, mem, named, idle⟩ := (c.idle id ref).mp listed
  have registered := c.registeredAt mem (by simp [idle])
  rw [named] at registered
  simp [isStaleIdleEntry, mem, registered, idle, c.bare_of_idle mem idle]

theorem foldl_pruneIdleEntry (c : Coherent randomUUID r)
    (l : List (JsString × TransportRef)) (listed : ∀ entry ∈ l, entry ∈ r.idleTransportsLru.entries) :
    l.foldl pruneIdleEntry r = r := by
  induction l with
  | nil => rfl
  | cons entry rest ih =>
    have kept : pruneIdleEntry r entry = r := by
      have found := OrderedMap.mem_entries.mp (listed entry mem_cons_self)
      simp [pruneIdleEntry, isStaleIdleEntry_eq_false c found]
    rw [foldl_cons, kept]
    exact ih fun entry mem => listed entry (mem_cons_of_mem _ mem)

theorem evictOldest_spec (c : Coherent randomUUID r) (mem : r.transport? ref = some t)
    (idle : t.state = .idle) : Coherent randomUUID (r.evictOldest ref) ∧
      KeepsLeased r (r.evictOldest ref) ∧
      (r.evictOldest ref).idleTransportsLru = r.idleTransportsLru.delete t.id := by
  have bare := c.bare_of_idle mem idle
  obtain ⟨t', holders, endCalls, eq, id, key, dead, noLeases, count⟩ :=
    endTransport_eq (show (r.removeIdleTransportLru t).transport? ref = some t from mem)
      (by simp [idle]) (by simp [idle]) (text "idle-cap") false
  have same : r.evictOldest ref = r.withEnded ref t t' holders endCalls := by
    unfold evictOldest
    simp only [mem, idle, bare, and_self, if_true, eq]
    unfold withEnded unregisterTransport removeIdleTransportLru
    simp only [delete_delete]
  have ch := withEnded_changes c mem id key dead noLeases count holders endCalls
  rw [same]
  exact ⟨ch.coherent c, ch.keepsLeased bare (by rw [noLeases]; rfl), rfl⟩

theorem evictIdleTransports_spec (rounds : ℕ) (c : Coherent randomUUID r)
    (enough : r.idleTransportsLru.size ≤ rounds) :
    WellFormed randomUUID (evictIdleTransports rounds r) ∧
      KeepsLeased r (evictIdleTransports rounds r) := by
  induction rounds generalizing r with
  | zero => exact ⟨⟨c, by unfold evictIdleTransports Limited; omega⟩, .refl r⟩
  | succ rounds ih =>
    unfold evictIdleTransports
    by_cases within : r.idleTransportsLru.size ≤ r.maxIdleTransports
    · rw [if_pos within]
      exact ⟨⟨c, within⟩, .refl r⟩
    · rw [if_neg within]
      cases entries : r.idleTransportsLru.entries with
      | nil => simp [OrderedMap.size, entries] at within
      | cons entry rest =>
        obtain ⟨id, oldest⟩ := entry
        have values : r.idleTransportsLru.values = oldest :: rest.map Prod.snd := by
          simp [OrderedMap.values, entries]
        have listed : r.idleTransportsLru.get? id = some oldest :=
          OrderedMap.mem_entries.mp (entries ▸ mem_cons_self)
        obtain ⟨t, mem, named, idle⟩ := (c.idle id oldest).mp listed
        obtain ⟨c', keeps, shorter⟩ := evictOldest_spec c mem idle
        have size := size_delete_of_has
          (has_iff.mpr ⟨oldest, named ▸ listed⟩ : r.idleTransportsLru.has t.id)
        rw [values]
        obtain ⟨well, keeps'⟩ := ih c' (by rw [shorter]; omega)
        exact ⟨well, keeps.trans keeps'⟩

theorem enforceIdleTransportLimit_spec (c : Coherent randomUUID r) :
    WellFormed randomUUID r.enforceIdleTransportLimit ∧ KeepsLeased r r.enforceIdleTransportLimit := by
  unfold enforceIdleTransportLimit
  rw [foldl_pruneIdleEntry c _ fun _ mem => mem]
  exact evictIdleTransports_spec _ c le_rfl

end Netcatty.TransportRegistry
