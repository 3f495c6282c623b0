import Netcatty.SshTransportReclaim

/-!
Parking: what happens to a transport when its last lease is gone.

Parking lists the transport as idle and enforces the limit.  The idle timer and a
new time to live touch idle transports only; each of them keeps the registry well
formed and every transport that has a lease.
-/

namespace Netcatty.TransportRegistry

open OrderedMap

variable {randomUUID : ℕ → JsString} {r r' : TransportRegistry} {ref : TransportRef}
  {t t' : SshTransport}

/-- The fields the indexes depend on are the same. -/
structure SameRole (t t' : SshTransport) : Prop where
  id : t'.id = t.id
  endpointKey : t'.endpointKey = t.endpointKey
  state : t'.state = t.state
  leases : t'.leases = t.leases
  count : t'.count = t.count

theorem index_at (c : Coherent randomUUID r) {P : TransportState → Prop} [DecidablePred P]
    {index : OrderedMap JsString TransportRef}
    (listed : ∀ id x, index.get? id = some x ↔ ∃ u, r.transport? x = some u ∧ u.id = id ∧ P u.state)
    (mem : r.transport? ref = some t) :
    index.get? t.id = if P t.state then some ref else none := by
  by_cases here : P t.state
  · rw [if_pos here]
    exact (listed t.id ref).mpr ⟨t, mem, rfl, here⟩
  · rw [if_neg here]
    cases found : index.get? t.id with
    | none => rfl
    | some x =>
      obtain ⟨u, mem', named, there⟩ := (listed t.id x).mp found
      have same := c.identified x ref u t mem' mem named
      rw [same, mem] at mem'
      exact absurd (Option.some.inj mem' ▸ there) here

theorem unheld_at (r : TransportRegistry) (t : SshTransport) (leaseId : JsString)
    (none : t.leases.get? leaseId = none) : r.leasesById.get? leaseId =
      if t.leases.has leaseId then Option.none else r.leasesById.get? leaseId := by
  simp [OrderedMap.has, none]

namespace Coherent

section

variable (c : Coherent randomUUID r) (mem : r.transport? ref = some t)
include c mem

theorem idle_at : r.idleTransportsLru.get? t.id = if t.state = .idle then some ref else none :=
  index_at c (P := (· = .idle)) c.idle mem

theorem retune (after : ∀ x, r'.transport? x = if x = ref then some t' else r.transport? x)
    (id : t'.id = t.id) (endpointKey : t'.endpointKey = t.endpointKey)
    (settled : t'.state ≠ .closing) (ends : t'.state = .dead ↔ t.state = .dead)
    (counted : t'.count = t'.leases.size) (leasedLive : t'.leases.size ≠ 0 → t'.state = .live)
    (fresh : ∀ leaseId, t'.leases.has leaseId →
      t.leases.has leaseId ∨ r.leasesById.get? leaseId = none)
    (held : ∀ leaseId lease, t'.leases.get? leaseId = some lease →
      r'.leasesById.get? leaseId = some ⟨ref, lease.holder⟩)
    (unheld : ∀ leaseId, t'.leases.get? leaseId = none → r'.leasesById.get? leaseId =
      if t.leases.has leaseId then none else r.leasesById.get? leaseId)
    (idle : ∀ id, r'.idleTransportsLru.get? id =
      if id = t.id then (if t'.state = .idle then some ref else none)
      else r.idleTransportsLru.get? id)
    (byId : r'.transportsById = r.transportsById)
    (byEndpoint : r'.transportIdsByEndpoint = r.transportIdsByEndpoint)
    (drawn : r.uuidsDrawn ≤ r'.uuidsDrawn) (limit : r'.maxIdleTransports = r.maxIdleTransports) :
    Changes r r' ref t t' where
  before := mem
  after := after
  id := id
  endpointKey := endpointKey
  settled := settled
  counted := counted
  leasedLive := leasedLive
  fresh := fresh
  held := held
  unheld := unheld
  idle := idle
  byId x := by
    rw [byId]
    by_cases same : x = t.id
    · rw [if_pos same, same, index_at c (P := (· ≠ .dead)) c.byId mem]
      simp only [ne_eq, ends]
    · rw [if_neg same]
  byEndpoint key x := by
    have indexed : r'.idsAt key = r.idsAt key := by rw [idsAt, byEndpoint, idsAt]
    rw [indexed]
    by_cases same : x = t.id
    · rw [if_pos same, same, c.byEndpoint]
      constructor
      · rintro ⟨x, u, mem', named, alive, keyed⟩
        rw [c.identified x ref u t mem' mem named, mem] at mem'
        rw [← Option.some.inj mem'] at alive keyed
        exact ⟨fun dead => alive (ends.mp dead), keyed⟩
      · rintro ⟨alive, keyed⟩
        exact ⟨ref, t, mem, rfl, fun dead => alive (ends.mpr dead), keyed⟩
    · rw [if_neg same]
  populated key ids found := c.populated key ids (byEndpoint ▸ found)
  drawn := drawn
  limit := limit

/-- A write to one transport that no index depends on. -/
theorem update_changes {f : SshTransport → SshTransport} (same : SameRole t (f t)) :
    Changes r (r.update ref f) ref t (f t) := by
  apply c.retune mem (by simp [mem]) same.id same.endpointKey
  · rw [same.state]
    exact c.settled ref t mem
  · rw [same.state]
  · rw [same.count, same.leases, c.counted ref t mem]
  · rw [same.leases, same.state]
    exact c.leasedLive ref t mem
  · rw [same.leases]
    exact fun _ => Or.inl
  · rw [same.leases]
    exact fun _ _ found => c.leaseEntry mem found
  · rw [same.leases]
    exact unheld_at r t
  · intro id
    by_cases own : id = t.id
    · rw [if_pos own, own, same.state]
      exact c.idle_at mem
    · rw [if_neg own]
      rfl
  · rfl
  · rfl
  · exact le_rfl
  · rfl

end

end Coherent

theorem update_of_none (none : r.transport? ref = none) (f : SshTransport → SshTransport) :
    r.update ref f = r := by
  have same : r.transports.modify ref f = r.transports := by
    apply List.ext_getElem?
    intro x
    rw [List.getElem?_modify]
    by_cases here : ref = x
    · subst here
      rw [show r.transports[ref]? = Option.none from none]
      rfl
    · simp [here]
  unfold update
  rw [same]

theorem WellFormed.update (well : WellFormed randomUUID r) (ref : TransportRef)
    {f : SshTransport → SshTransport} (same : ∀ t, SameRole t (f t)) :
    WellFormed randomUUID (r.update ref f) ∧ KeepsLeased r (r.update ref f) := by
  cases mem : r.transport? ref with
  | none =>
    rw [update_of_none mem]
    exact ⟨well, .refl r⟩
  | some t =>
    have ch := well.toCoherent.update_changes mem (same t)
    refine ⟨⟨ch.coherent well.toCoherent, well.limited⟩, ?_, ?_, rfl⟩
    · intro x u mem' leased
      by_cases here : x = ref
      · rw [here, mem] at mem'
        rw [here, ← Option.some.inj mem']
        exact ⟨f t, ch.at_ref, (same t).state, (same t).leases⟩
      · exact ⟨u, (ch.at_other here).trans mem', rfl, rfl⟩
    · intro x none u mem'
      rcases ch.cases mem' with ⟨rfl, rfl⟩ | ⟨-, old⟩
      · rw [(same t).leases]
        exact none t mem
      · exact none u old

theorem sameRole_clearIdleTimer (t : SshTransport) : SameRole t t.clearIdleTimer :=
  ⟨by simp, by simp, by simp, by simp, by simp⟩

theorem touchIdleTransportLru_eq (r : TransportRegistry) (ref : TransportRef)
    (idle : t.state = .idle) (bare : t.leases.size = 0) : r.touchIdleTransportLru ref t =
      { r with idleTransportsLru := (r.idleTransportsLru.delete t.id).set t.id ref } := by
  unfold touchIdleTransportLru
  rw [if_neg (by simp [idle, bare])]

theorem listAsIdle_changes (c : Coherent randomUUID r) (mem : r.transport? ref = some t)
    (bare : t.leases.size = 0) (alive : t.state ≠ .dead) (preserveIdleSince preserveLru : Bool) :
    Changes r (r.listAsIdle ref t preserveIdleSince preserveLru) ref t
      (r.toIdle preserveIdleSince t) := by
  have eq : ∃ lru : OrderedMap JsString TransportRef,
      r.listAsIdle ref t preserveIdleSince preserveLru =
        { r.update ref (fun _ => r.toIdle preserveIdleSince t) with idleTransportsLru := lru } ∧
      ∀ id, lru.get? id = if id = t.id then some ref else r.idleTransportsLru.get? id := by
    unfold listAsIdle
    dsimp only
    split
    · refine ⟨_, touchIdleTransportLru_eq _ ref rfl bare, ?_⟩
      intro id
      rw [OrderedMap.get?_set, get?_delete]
      by_cases same : id = t.id <;> simp [same, toIdle, update]
    · rename_i untouched
      refine ⟨r.idleTransportsLru, rfl, ?_⟩
      intro id
      by_cases same : id = t.id
      · have has : r.idleTransportsLru.has t.id := by simpa [update] using (not_or.mp untouched).2
        obtain ⟨x, found⟩ := has_iff.mp has
        have here := c.idle_at mem
        rw [found] at here
        split at here
        · rw [if_pos same, same, found, here]
        · cases here
      · rw [if_neg same]
  obtain ⟨lru, eq, listed⟩ := eq
  rw [eq]
  apply c.retune mem
  · intro x
    exact (transport?_update r ref x _).trans (by rw [mem]; rfl)
  · rfl
  · rfl
  · simp [toIdle]
  · simp [toIdle, alive]
  · exact c.counted ref t mem
  · exact fun leased => absurd bare leased
  · exact fun _ => Or.inl
  · exact fun _ _ found => c.leaseEntry mem found
  · exact unheld_at r t
  · exact listed
  · rfl
  · rfl
  · exact le_rfl
  · rfl

section

variable (well : WellFormed randomUUID r)
include well

theorem scheduleIdleTimer_spec
    (bare : ∀ t, r.transport? ref = some t → t.leases.size = 0) (ttl now : ℚ) :
    WellFormed randomUUID (r.scheduleIdleTimer ref ttl now).1 ∧
      KeepsLeased r (r.scheduleIdleTimer ref ttl now).1 := by
  unfold scheduleIdleTimer
  by_cases ended : r.isEnded ref
  · rw [if_pos ended]
    exact ⟨well, .refl r⟩
  · rw [if_neg ended]
    by_cases forever : ttl ≤ 0
    · rw [if_pos forever]
      exact well.update ref fun t => ⟨rfl, rfl, rfl, rfl, rfl⟩
    · rw [if_neg forever]
      dsimp only
      obtain ⟨well', keeps⟩ := well.update ref (f := fun t => { t with
        idleDeadlineAt := some (((r.transport? ref).bind SshTransport.idleSince).getD now + ttl) })
        fun t => ⟨rfl, rfl, rfl, rfl, rfl⟩
      split
      · exact ⟨well'.endTransport _ _ _,
          keeps.trans (well'.endTransport_keepsLeased (keeps.bare ref bare) _ _)⟩
      · obtain ⟨well'', keeps'⟩ := well'.update ref (f := fun t => { t with
          idleTimer := some (max 0 (ttl - max 0
            (now - ((r.transport? ref).bind SshTransport.idleSince).getD now))) })
          fun t => ⟨rfl, rfl, rfl, rfl, rfl⟩
        exact ⟨well'', keeps.trans keeps'⟩

theorem WellFormed.scheduleIdleEnd (bare : ∀ t, r.transport? ref = some t → t.leases.size = 0)
    (preserveIdleSince preserveLru : Bool) :
    WellFormed randomUUID (r.scheduleIdleEnd ref preserveIdleSince preserveLru).1 ∧
      KeepsLeased r (r.scheduleIdleEnd ref preserveIdleSince preserveLru).1 := by
  obtain ⟨well', keeps⟩ := well.update ref (f := SshTransport.clearIdleTimer) sameRole_clearIdleTimer
  have bare' := keeps.bare ref bare
  unfold TransportRegistry.scheduleIdleEnd
  dsimp only
  generalize r.update ref SshTransport.clearIdleTimer = cleared at well' keeps bare'
  cases mem : cleared.transport? ref with
  | none => exact ⟨well', keeps⟩
  | some t =>
    dsimp only
    by_cases healthy : cleared.isTransportSocketHealthy t
    · rw [if_neg (by simp [healthy])]
      by_cases parks : t.allowIdlePark
      · rw [if_neg (by simp [parks])]
        have alive : t.state ≠ .dead := by
          rintro dead
          unfold isTransportSocketHealthy at healthy
          split at healthy
          · cases healthy
          · simp [dead] at healthy
        have ch := listAsIdle_changes well'.toCoherent mem (bare' t mem) alive
          preserveIdleSince preserveLru
        obtain ⟨well'', keeps'⟩ := enforceIdleTransportLimit_spec (ch.coherent well'.toCoherent)
        have kept := (ch.keepsLeased (bare' t mem) (bare' t mem)).trans keeps'
        obtain ⟨last, keeps''⟩ := scheduleIdleTimer_spec well'' (kept.bare ref bare') t.idleTtlMs
          cleared.now
        exact ⟨last, keeps.trans (kept.trans keeps'')⟩
      · rw [if_pos (by simpa using parks)]
        exact ⟨well'.endTransport _ _ _, keeps.trans (well'.endTransport_keepsLeased bare' _ _)⟩
    · rw [if_pos (by simpa using healthy)]
      exact ⟨well'.endTransport _ _ _, keeps.trans (well'.endTransport_keepsLeased bare' _ _)⟩

/-! ## Timers and times to live -/

theorem WellFormed.fireIdleTimer (ref : TransportRef) :
    WellFormed randomUUID (r.fireIdleTimer ref) ∧ KeepsLeased r (r.fireIdleTimer ref) := by
  obtain ⟨well', keeps⟩ := well.update ref (f := fun t => { t with idleTimer := none })
    fun t => ⟨rfl, rfl, rfl, rfl, rfl⟩
  unfold TransportRegistry.fireIdleTimer
  dsimp only
  split
  · exact ⟨well', keeps⟩
  · rename_i t mem
    split
    · exact ⟨well', keeps⟩
    · rename_i parked
      have bare : ∀ u, (r.update ref fun t => { t with idleTimer := none }).transport? ref = some u →
          u.leases.size = 0 := by
        intro u mem'
        rw [← Option.some.inj (mem.symm.trans mem')]
        simpa using (not_or.mp parked).2
      exact ⟨well'.endTransport _ _ _, keeps.trans (well'.endTransport_keepsLeased bare _ _)⟩

theorem retimeTransport_spec (ttl : ℚ) (entry : JsString × TransportRef) :
    WellFormed randomUUID (retimeTransport ttl r entry) ∧
      KeepsLeased r (retimeTransport ttl r entry) := by
  obtain ⟨well', keeps⟩ := well.update entry.2 (f := fun t => { t with idleTtlMs := ttl })
    fun t => ⟨rfl, rfl, rfl, rfl, rfl⟩
  unfold retimeTransport
  split
  · exact ⟨well, .refl r⟩
  · dsimp only
    split
    · exact ⟨well', keeps⟩
    · rename_i t mem
      split
      · rename_i parked
        have bare : ∀ u, (r.update entry.2 fun t => { t with idleTtlMs := ttl }).transport? entry.2 =
            some u → u.leases.size = 0 := by
          intro u mem'
          rw [← Option.some.inj (mem.symm.trans mem')]
          exact parked.2
        obtain ⟨well'', keeps'⟩ := well'.scheduleIdleEnd bare true true
        exact ⟨well'', keeps.trans keeps'⟩
      · exact ⟨well', keeps⟩

theorem WellFormed.setDefaultTransportIdleTtlMs (ms : Option ℚ) :
    WellFormed randomUUID (r.setDefaultTransportIdleTtlMs ms) ∧
      KeepsLeased r (r.setDefaultTransportIdleTtlMs ms) := by
  have loop (ttl : ℚ) (l : List (JsString × TransportRef)) (s : TransportRegistry)
      (start : WellFormed randomUUID s) :
      WellFormed randomUUID (l.foldl (retimeTransport ttl) s) ∧
        KeepsLeased s (l.foldl (retimeTransport ttl) s) := by
    induction l generalizing s with
    | nil => exact ⟨start, .refl s⟩
    | cons entry rest ih =>
      obtain ⟨well, keeps⟩ := retimeTransport_spec start ttl entry
      obtain ⟨well', keeps'⟩ := ih _ well
      exact ⟨well', keeps.trans keeps'⟩
  unfold TransportRegistry.setDefaultTransportIdleTtlMs
  cases ms with
  | none => exact ⟨well, .refl r⟩
  | some ms =>
    dsimp only
    split
    · exact ⟨well, .refl r⟩
    · have start : WellFormed randomUUID { r with defaultIdleTtlMs := ms } :=
        { leases := well.leases, counted := well.counted, leasedLive := well.leasedLive,
          idle := well.idle, byId := well.byId, byEndpoint := well.byEndpoint,
          populated := well.populated, settled := well.settled, identified := well.identified,
          drawn := well.drawn, limited := well.limited }
      obtain ⟨well', keeps⟩ := loop ms r.transportsById.entries _ start
      exact ⟨well', ⟨keeps.leased, keeps.bare, keeps.limit⟩⟩

end

end Netcatty.TransportRegistry
