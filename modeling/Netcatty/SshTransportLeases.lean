import Netcatty.SshTransportParking

/-!
Creating, borrowing, moving, returning and finding keep the registry well formed.

A lease is added to and removed from its transport and `leasesById` together.  A
borrow first wakes an idle transport; the last return parks it.
-/

namespace Netcatty.TransportRegistry

open List Option OrderedMap

variable {randomUUID : ℕ → JsString} {r r' : TransportRegistry} {ref : TransportRef}
  {t t' : SshTransport}

theorem WellFormed.congr (well : WellFormed randomUUID r) (transports : r'.transports = r.transports)
    (leasesById : r'.leasesById = r.leasesById) (lru : r'.idleTransportsLru = r.idleTransportsLru)
    (byId : r'.transportsById = r.transportsById)
    (byEndpoint : r'.transportIdsByEndpoint = r.transportIdsByEndpoint)
    (drawn : r.uuidsDrawn ≤ r'.uuidsDrawn) (limit : r'.maxIdleTransports = r.maxIdleTransports) :
    WellFormed randomUUID r' := by
  have heap (ref : TransportRef) : r'.transport? ref = r.transport? ref := by
    rw [transport?, transports, transport?]
  have ids (key : JsString) : r'.idsAt key = r.idsAt key := by rw [idsAt, byEndpoint, idsAt]
  constructor
  · constructor
    · simpa only [leasesById, heap] using well.leases
    · simpa only [heap] using well.counted
    · simpa only [heap] using well.leasedLive
    · simpa only [lru, heap] using well.idle
    · simpa only [byId, heap] using well.byId
    · simpa only [ids, heap] using well.byEndpoint
    · simpa only [byEndpoint] using well.populated
    · simpa only [heap] using well.settled
    · simpa only [heap] using well.identified
    · intro ref t mem
      obtain ⟨n, below, named⟩ := well.drawn ref t (heap ref ▸ mem)
      exact ⟨n, below.trans_le drawn, named⟩
  · unfold Limited
    rw [lru, limit]
    exact well.limited

theorem WellFormed.updateHolder (well : WellFormed randomUUID r) (holder : HolderRef)
    (f : LeaseHolder → LeaseHolder) : WellFormed randomUUID (r.updateHolder holder f) :=
  well.congr rfl rfl rfl rfl rfl le_rfl rfl

/-! ## Creating -/

theorem transport?_append (transports : r'.transports = r.transports ++ [t])
    (x : TransportRef) :
    r'.transport? x = if x = r.transports.length then some t else r.transport? x := by
  unfold transport?
  rw [transports]
  by_cases same : x = r.transports.length
  · simp [same]
  · rw [if_neg same]
    rcases Nat.lt_or_gt_of_ne same with below | above
    · rw [getElem?_append_left below]
    · rw [getElem?_eq_none (by simp; omega), getElem?_eq_none (by omega)]

theorem mem_idsAt_attach (r : TransportRegistry) (t : SshTransport) (key id : JsString) :
    id ∈ (r.attachEndpointIndex t).idsAt key ↔
      id ∈ r.idsAt key ∨ (t.endpointKey = some key ∧ id = t.id) := by
  unfold attachEndpointIndex
  cases own : t.endpointKey with
  | none => simp
  | some k =>
    unfold idsAt addToSet
    dsimp only
    rw [OrderedMap.get?_set, Option.some.injEq]
    by_cases same : key = k
    · subst same
      rw [if_pos rfl, getD_some]
      by_cases listed : t.id ∈ (r.transportIdsByEndpoint.get? key).getD []
      · rw [if_pos listed]
        constructor
        · exact Or.inl
        · rintro (mem | ⟨-, rfl⟩)
          · exact mem
          · exact listed
      · rw [if_neg listed]
        simp
    · have other : ¬k = key := fun eq => same eq.symm
      simp [same, other]

theorem attach_populated (populated : ∀ k ids, r.transportIdsByEndpoint.get? k = some ids →
    ids ≠ []) (k : JsString) (ids : List JsString)
    (found : (r.attachEndpointIndex t).transportIdsByEndpoint.get? k = some ids) : ids ≠ [] := by
  unfold attachEndpointIndex at found
  cases own : t.endpointKey with
  | none =>
    rw [own] at found
    exact populated k ids found
  | some key =>
    rw [own] at found
    dsimp only at found
    rw [OrderedMap.get?_set] at found
    split at found
    · cases found
      unfold addToSet
      split
      · exact ne_nil_of_mem ‹_›
      · simp
    · exact populated k ids found

section

variable (well : WellFormed randomUUID r)

include well

theorem register_wellFormed
    (transports : r'.transports = r.transports ++ [t]) (live : t.state = .live)
    (bare : t.leases = .empty) (count : t.count = 0) (fresh : ∀ x u, r.transport? x = some u → u.id ≠ t.id)
    (leasesById : r'.leasesById = r.leasesById) (lru : r'.idleTransportsLru = r.idleTransportsLru)
    (byId : r'.transportsById = r.transportsById.set t.id r.transports.length)
    (byEndpoint : ∀ key id, id ∈ r'.idsAt key ↔
      id ∈ r.idsAt key ∨ (t.endpointKey = some key ∧ id = t.id))
    (populated : ∀ k ids, r'.transportIdsByEndpoint.get? k = some ids → ids ≠ [])
    (drawn : r.uuidsDrawn < r'.uuidsDrawn) (uuid : t.id = randomUUID r.uuidsDrawn)
    (limit : r'.maxIdleTransports = r.maxIdleTransports) : WellFormed randomUUID r' := by
  have heap := transport?_append transports
  have none : r.transport? r.transports.length = none := getElem?_eq_none le_rfl
  have cases {x : TransportRef} {u : SshTransport} (mem : r'.transport? x = some u) :
      (x = r.transports.length ∧ u = t) ∨ r.transport? x = some u := by
    rw [heap] at mem
    split at mem
    · exact Or.inl ⟨‹_›, (Option.some.inj mem).symm⟩
    · exact Or.inr mem
  have old {x : TransportRef} {u : SshTransport} (mem : r.transport? x = some u) :
      r'.transport? x = some u := by
    rw [heap, if_neg]
    · exact mem
    · rintro rfl
      rw [none] at mem
      cases mem
  have new : r'.transport? r.transports.length = some t := by rw [heap, if_pos rfl]
  have zero : t.leases.size = 0 := by rw [bare]; rfl
  refine ⟨⟨?_, ?_, ?_, ?_, ?_, ?_, populated, ?_, ?_, ?_⟩, ?_⟩
  · intro leaseId entry
    rw [leasesById, well.leases]
    constructor
    · rintro ⟨u, lease, mem, rest⟩
      exact ⟨u, lease, old mem, rest⟩
    · rintro ⟨u, lease, mem, held, rest⟩
      rcases cases mem with ⟨-, rfl⟩ | mem
      · rw [bare] at held
        cases held
      · exact ⟨u, lease, mem, held, rest⟩
  · intro x u mem
    rcases cases mem with ⟨-, rfl⟩ | mem
    · rw [count, zero]
    · exact well.counted x u mem
  · intro x u mem leased
    rcases cases mem with ⟨-, rfl⟩ | mem
    · exact live
    · exact well.leasedLive x u mem leased
  · intro id x
    rw [lru, well.idle]
    constructor
    · rintro ⟨u, mem, rest⟩
      exact ⟨u, old mem, rest⟩
    · rintro ⟨u, mem, named, idle⟩
      rcases cases mem with ⟨-, rfl⟩ | mem
      · rw [live] at idle
        cases idle
      · exact ⟨u, mem, named, idle⟩
  · intro id x
    rw [byId, OrderedMap.get?_set]
    by_cases same : id = t.id
    · rw [if_pos same]
      constructor
      · intro found
        cases found
        exact ⟨t, new, same.symm, by simp [live]⟩
      · rintro ⟨u, mem, named, -⟩
        rcases cases mem with ⟨rfl, -⟩ | mem
        · rfl
        · exact absurd (named.trans same) (fresh x u mem)
    · rw [if_neg same, well.byId]
      constructor
      · rintro ⟨u, mem, rest⟩
        exact ⟨u, old mem, rest⟩
      · rintro ⟨u, mem, named, alive⟩
        rcases cases mem with ⟨-, rfl⟩ | mem
        · exact absurd named.symm same
        · exact ⟨u, mem, named, alive⟩
  · intro key id
    rw [byEndpoint, well.byEndpoint]
    constructor
    · rintro (⟨x, u, mem, rest⟩ | ⟨keyed, rfl⟩)
      · exact ⟨x, u, old mem, rest⟩
      · exact ⟨_, t, new, rfl, by simp [live], keyed⟩
    · rintro ⟨x, u, mem, named, alive, keyed⟩
      rcases cases mem with ⟨-, rfl⟩ | mem
      · exact Or.inr ⟨keyed, named.symm⟩
      · exact Or.inl ⟨x, u, mem, named, alive, keyed⟩
  · intro x u mem
    rcases cases mem with ⟨-, rfl⟩ | mem
    · simp [live]
    · exact well.settled x u mem
  · intro x x' u u' mem mem' same
    rcases cases mem with ⟨rfl, rfl⟩ | mem
    · rcases cases mem' with ⟨rfl, -⟩ | mem'
      · rfl
      · exact absurd same.symm (fresh x' u' mem')
    · rcases cases mem' with ⟨rfl, rfl⟩ | mem'
      · exact absurd same (fresh x u mem)
      · exact well.identified x x' u u' mem mem' same
  · intro x u mem
    rcases cases mem with ⟨-, rfl⟩ | mem
    · exact ⟨r.uuidsDrawn, drawn, uuid⟩
    · obtain ⟨n, below, named⟩ := well.drawn x u mem
      exact ⟨n, below.trans drawn, named⟩
  · unfold Limited
    rw [lru, limit]
    exact well.limited

theorem WellFormed.createTransport
    (distinct : Function.Injective randomUUID) (options : CreateOptions) :
    WellFormed randomUUID (r.createTransport randomUUID options).1 := by
  unfold TransportRegistry.createTransport
  cases options.conn with
  | none => exact well
  | some conn =>
    have fresh : ∀ x u, r.transport? x = some u →
        u.id ≠ (newTransport randomUUID r conn options).id := by
      intro x u mem same
      obtain ⟨n, below, named⟩ := well.drawn x u mem
      have drawn := distinct (named.symm.trans same)
      omega
    dsimp only
    apply register_wellFormed well (t := newTransport randomUUID r conn options) _ rfl rfl rfl fresh
    · unfold attachEndpointIndex
      split <;> rfl
    · unfold attachEndpointIndex
      split <;> rfl
    · unfold attachEndpointIndex
      split <;> rfl
    · intro key id
      rw [mem_idsAt_attach]
      rfl
    · exact attach_populated well.populated
    · unfold attachEndpointIndex
      split <;> exact Nat.lt_succ_self _
    · rfl
    · unfold attachEndpointIndex
      split <;> rfl
    · unfold attachEndpointIndex
      split <;> rfl

/-! ## Borrowing -/

theorem wakeFromIdle_spec (mem : r.transport? ref = some t) (alive : t.state ≠ .dead) :
    WellFormed randomUUID (r.wakeFromIdle ref) ∧
      (r.wakeFromIdle ref).leasesById = r.leasesById ∧
      ∃ t', (r.wakeFromIdle ref).transport? ref = some t' ∧ t'.state = .live ∧
        t'.leases = t.leases := by
  unfold wakeFromIdle
  rw [mem]
  dsimp only
  by_cases idle : t.state = .idle
  · rw [if_neg (by simp [idle])]
    have sameLeases : (toLive t).leases = t.leases := by simp [toLive]
    have ch : Changes r ((r.removeIdleTransportLru t).update ref toLive) ref t (toLive t) := by
      apply well.retune mem
      · intro x
        exact (transport?_update (r.removeIdleTransportLru t) ref x _).trans
          (by rw [show (r.removeIdleTransportLru t).transport? ref = some t from mem]; rfl)
      · simp [toLive]
      · simp [toLive]
      · simp [toLive]
      · simp [toLive, alive]
      · simpa [toLive] using well.counted ref t mem
      · simp [toLive]
      · simpa [toLive] using fun _ => Or.inl
      · rw [sameLeases]
        exact fun _ _ found => well.leaseEntry mem found
      · rw [sameLeases]
        exact unheld_at r t
      · intro id
        change (r.idleTransportsLru.delete t.id).get? id = _
        simp [toLive]
      · rfl
      · rfl
      · exact le_rfl
      · rfl
    refine ⟨⟨ch.coherent well.toCoherent, ?_⟩, rfl, _, ch.at_ref, rfl, sameLeases⟩
    exact (size_delete_le _ _).trans well.limited
  · rw [if_pos idle]
    refine ⟨well, rfl, t, mem, ?_, rfl⟩
    have settled := well.settled ref t mem
    cases state : t.state with
    | live => rfl
    | idle => exact absurd state idle
    | closing => exact absurd state settled
    | dead => exact absurd state alive

theorem chooseLeaseId_spec (kind leaseId : JsString) :
    WellFormed randomUUID (chooseLeaseId randomUUID r kind leaseId).1 ∧
      (chooseLeaseId randomUUID r kind leaseId).1.leasesById = r.leasesById ∧
      (chooseLeaseId randomUUID r kind leaseId).1.transports = r.transports := by
  unfold chooseLeaseId
  split
  · exact ⟨well.congr rfl rfl rfl rfl rfl (Nat.le_succ _) rfl, rfl, rfl⟩
  · exact ⟨well, rfl, rfl⟩

theorem live_of_has (mem : r.transport? ref = some t) {leaseId : JsString}
    (has : t.leases.has leaseId) : t.state = .live := by
  have shorter := size_delete_of_has has
  exact well.leasedLive ref t mem (by omega)

theorem changes_lease (mem : r.transport? ref = some t) (live : t.state = .live)
    {f : SshTransport → SshTransport} (id : (f t).id = t.id)
    (endpointKey : (f t).endpointKey = t.endpointKey) (still : (f t).state = .live)
    (counted : (f t).count = (f t).leases.size) {leaseId : JsString} {lease : Option SshLease}
    (known : t.leases.has leaseId ∨ r.leasesById.get? leaseId = none)
    (leases : ∀ other, (f t).leases.get? other = if other = leaseId then lease else t.leases.get? other)
    {leasesById : OrderedMap JsString LeaseEntry}
    (entries : ∀ other, leasesById.get? other =
      if other = leaseId then lease.map fun lease => ⟨ref, lease.holder⟩ else r.leasesById.get? other) :
    Changes r { r.update ref f with leasesById } ref t (f t) := by
  apply well.retune mem
  · intro x
    exact (transport?_update r ref x _).trans (by rw [mem]; rfl)
  · exact id
  · exact endpointKey
  · simp [still]
  · simp [still, live]
  · exact counted
  · exact fun _ => still
  · intro other held
    by_cases same : other = leaseId
    · exact same ▸ known
    · left
      simpa [OrderedMap.has, leases, same] using held
  · intro other own found
    rw [leases] at found
    refine (entries other).trans ?_
    split at found
    · rw [if_pos ‹_›, found]
      rfl
    · rw [if_neg ‹_›, well.leaseEntry mem found]
  · intro other none
    rw [leases] at none
    refine (entries other).trans ?_
    by_cases same : other = leaseId
    · subst same
      rw [if_pos rfl] at none ⊢
      rw [none]
      rcases known with has | unheld
      · simp [has]
      · simp [unheld]
    · rw [if_neg same] at none ⊢
      exact unheld_at r t other none
  · intro id
    by_cases own : id = t.id
    · rw [if_pos own, own]
      exact (well.idle_at mem).trans (by simp [live, still])
    · rw [if_neg own]
      rfl
  · rfl
  · rfl
  · exact le_rfl
  · rfl

theorem addLease_wellFormed
    (mem : r.transport? ref = some t) (live : t.state = .live) {leaseId : JsString}
    (unused : r.leasesById.has leaseId = false) (lease : SshLease) :
    WellFormed randomUUID (r.addLease ref leaseId lease) := by
  have unheld : r.leasesById.get? leaseId = none := by simpa [OrderedMap.has] using unused
  have ch := changes_lease well mem live (f := withLease leaseId lease) rfl rfl rfl rfl
    (.inr unheld) (fun other => OrderedMap.get?_set _ leaseId other lease)
    fun other => OrderedMap.get?_set r.leasesById leaseId other ⟨ref, lease.holder⟩
  have lent : WellFormed randomUUID { r.update ref (withLease leaseId lease) with
      leasesById := r.leasesById.set leaseId ⟨ref, lease.holder⟩ } :=
    ⟨ch.coherent well.toCoherent, well.limited⟩
  unfold addLease
  cases holder : lease.holder with
  | none => simpa only [holder] using lent
  | some own =>
    rw [holder] at lent
    exact lent.updateHolder own _

theorem WellFormed.borrowTransport (ref : TransportRef) (options : BorrowOptions) :
    WellFormed randomUUID (r.borrowTransport randomUUID ref options).1 := by
  unfold TransportRegistry.borrowTransport
  cases mem : r.transport? ref with
  | none => exact well
  | some t =>
    dsimp only
    split
    · exact well
    · rename_i alive
      split
      · exact well.endTransport _ _ _
      · obtain ⟨woken, sameLeases, t', mem', live, leases⟩ :=
          wakeFromIdle_spec well mem (not_or.mp alive).1
        obtain ⟨chosen, kept, transports⟩ := chooseLeaseId_spec woken
          (leaseKind options) options.leaseId
        split
        · exact chosen
        · rename_i unused
          refine addLease_wellFormed chosen (t := t') ?_ live ?_ _
          · rw [transport?, transports]
            exact mem'
          · simpa using (not_or.mp unused).2

/-! ## Moving -/

theorem rebindLease_wellFormed
    (mem : r.transport? ref = some t) {leaseId : JsString} (has : t.leases.has leaseId)
    (lease : SshLease) : WellFormed randomUUID (r.rebindLease ref leaseId lease) := by
  have sameSize : (t.leases.set leaseId lease).size = t.leases.size := by
    rw [size_set, if_pos has]
  have live := live_of_has well mem has
  have ch := changes_lease well mem live (f := withReboundLease leaseId lease) rfl rfl live
    ((well.counted ref t mem).trans sameSize.symm) (.inl has)
    (fun other => OrderedMap.get?_set _ leaseId other lease)
    fun other => OrderedMap.get?_set r.leasesById leaseId other ⟨ref, lease.holder⟩
  exact ⟨ch.coherent well.toCoherent, well.limited⟩

end

theorem leaseOfHolder_eq_some {holder : HolderRef} {leaseId : JsString} {lease : SshLease}
    (found : r.leaseOfHolder holder = some (ref, leaseId, lease)) :
    ∃ t, r.transport? ref = some t ∧ t.leases.get? leaseId = some lease := by
  unfold leaseOfHolder at found
  simp only [bind_eq_bind, bind_eq_some_iff] at found
  obtain ⟨id, -, x, -, t, mem, own, held, found⟩ := found
  split at found
  · cases found
  · cases found
    exact ⟨t, mem, held⟩

theorem WellFormed.transferConnectionRef (well : WellFormed randomUUID r)
    (fromHolder toHolder : Option HolderRef) :
    WellFormed randomUUID (r.transferConnectionRef fromHolder toHolder).1 := by
  unfold TransportRegistry.transferConnectionRef
  split
  · split
    · exact well
    · split
      · exact well
      · rename_i found
        obtain ⟨t, mem, held⟩ := leaseOfHolder_eq_some found
        have has : t.leases.has _ := has_iff.mpr ⟨_, held⟩
        dsimp only
        exact ((rebindLease_wellFormed well mem has _).updateHolder _ _).updateHolder _ _
  · exact well

/-! ## Returning -/

theorem removeLease_changes (well : WellFormed randomUUID r)
    (mem : r.transport? ref = some t) {leaseId : JsString} (has : t.leases.has leaseId) :
    Changes r (r.removeLease ref leaseId) ref t (withoutLease leaseId t) :=
  have live := live_of_has well mem has
  changes_lease well mem live (f := withoutLease leaseId) rfl rfl live rfl (.inl has)
    (fun other => get?_delete _ leaseId other) fun other => get?_delete r.leasesById leaseId other

theorem sameRole_recordShellClose (r : TransportRegistry) (lease : SshLease) (t : SshTransport) :
    SameRole t (r.recordShellClose lease t) := by
  unfold recordShellClose
  dsimp only
  split <;> exact ⟨rfl, rfl, rfl, rfl, rfl⟩

theorem releaseHolder_transports (r : TransportRegistry) (entry : LeaseEntry)
    (argument : LeaseArgument) : (r.releaseHolder entry argument).transports = r.transports := by
  unfold releaseHolder
  split <;> rfl

section

variable (well : WellFormed randomUUID r)

include well

theorem WellFormed.releaseHolder (entry : LeaseEntry)
    (argument : LeaseArgument) : WellFormed randomUUID (r.releaseHolder entry argument) := by
  unfold TransportRegistry.releaseHolder
  split
  · exact well.updateHolder _ _
  · exact well.updateHolder _ _
  · exact well

theorem releaseLease_spec (argument : LeaseArgument)
    {leaseId : JsString} {entry : LeaseEntry} (found : r.leasesById.get? leaseId = some entry) :
    WellFormed randomUUID (r.releaseLease argument leaseId entry) ∧
      ∃ t t', Changes r (r.removeLease entry.transport leaseId) entry.transport t
          (withoutLease leaseId t) ∧ t.leases.has leaseId ∧
        SameRole (withoutLease leaseId t) t' ∧
        ∀ x, (r.releaseLease argument leaseId entry).transport? x =
          if x = entry.transport then some t' else r.transport? x := by
  obtain ⟨t, lease, mem, held, -⟩ := (well.leases leaseId entry).mp found
  have has : t.leases.has leaseId := has_iff.mpr ⟨lease, held⟩
  have ch := removeLease_changes well mem has
  have removed : WellFormed randomUUID (r.removeLease entry.transport leaseId) :=
    ⟨ch.coherent well.toCoherent, well.limited⟩
  unfold releaseLease
  dsimp only
  split
  · refine ⟨removed.releaseHolder entry argument, t, withoutLease leaseId t, ch, has,
      ⟨rfl, rfl, rfl, rfl, rfl⟩, ?_⟩
    intro x
    rw [transport?, releaseHolder_transports]
    exact ch.after x
  · rename_i shell _
    have same := sameRole_recordShellClose (r.removeLease entry.transport leaseId) shell
    refine ⟨(removed.update entry.transport same).1.releaseHolder entry argument, t, _, ch, has,
      same _, ?_⟩
    intro x
    rw [transport?, releaseHolder_transports]
    exact ((removed.update_changes ch.at_ref (same _)).after x).trans
      (ite_congr rfl (fun _ => rfl) fun other => ch.at_other other)

theorem WellFormed.detachArgument (argument : LeaseArgument) :
    WellFormed randomUUID (r.detachArgument argument) := by
  unfold TransportRegistry.detachArgument
  split
  · exact well.updateHolder _ _
  · exact well

theorem WellFormed.parkReleased (ref : TransportRef) :
    WellFormed randomUUID (r.parkReleased ref).1 ∧ KeepsLeased r (r.parkReleased ref).1 := by
  unfold TransportRegistry.parkReleased
  dsimp only
  split
  · exact ⟨well, .refl r⟩
  · rename_i last
    apply well.scheduleIdleEnd
    intro t mem
    rw [mem] at last
    simpa using last

theorem WellFormed.returnTransport (argument : LeaseArgument) :
    WellFormed randomUUID (r.returnTransport argument).1 := by
  unfold TransportRegistry.returnTransport
  split
  · exact well
  · split
    · exact well.detachArgument argument
    · rename_i found
      exact ((releaseLease_spec well argument found).1.parkReleased _).1

/-! ## Discarding and finding -/

theorem WellFormed.discardTransport (argument : TransportArgument)
    (reason : JsString) : WellFormed randomUUID (r.discardTransport argument reason).1 := by
  unfold TransportRegistry.discardTransport
  split
  · exact well.endTransport _ _ _
  · split
    · exact well
    · exact well.endTransport _ _ _

theorem WellFormed.touchIfIdle (mem : r.transport? ref = some t) :
    WellFormed randomUUID (r.touchIfIdle ref t) := by
  unfold TransportRegistry.touchIfIdle
  split
  · rename_i idle
    rw [touchIdleTransportLru_eq r ref idle (well.bare_of_idle mem idle)]
    have same (id : JsString) : ((r.idleTransportsLru.delete t.id).set t.id ref).get? id =
        r.idleTransportsLru.get? id := by
      rw [OrderedMap.get?_set, get?_delete]
      by_cases own : id = t.id
      · rw [if_pos own, own, well.idle_at mem, if_pos idle]
      · rw [if_neg own, if_neg own]
    have size : ((r.idleTransportsLru.delete t.id).set t.id ref).size = r.idleTransportsLru.size :=
      size_eq_of_has fun id => by rw [OrderedMap.has, same, OrderedMap.has]
    constructor
    · exact
        { leases := well.leases, counted := well.counted, leasedLive := well.leasedLive,
          idle := fun id ref' => (by rw [same]; exact well.idle id ref'), byId := well.byId,
          byEndpoint := well.byEndpoint, populated := well.populated, settled := well.settled,
          identified := well.identified, drawn := well.drawn }
    · exact size.trans_le well.limited
  · exact well

theorem WellFormed.findTransportById (id : JsString) :
    WellFormed randomUUID (r.findTransportById id).1 := by
  unfold TransportRegistry.findTransportById
  split
  · exact well
  · split
    · exact well
    · split
      · exact well
      · exact well.touchIfIdle ‹_›

end

theorem alive_of_registered (c : Coherent randomUUID r) {id : JsString}
    (registered : r.transportsById.get? id = some ref) (mem : r.transport? ref = some t) :
    t.state ≠ .dead := by
  obtain ⟨u, mem', -, alive⟩ := (c.byId id ref).mp registered
  rwa [Option.some.inj (mem.symm.trans mem')]

theorem collectCandidate_wellFormed (endpoint : SshEndpoint) (kind : ReuseKind)
    {found : TransportRegistry × List TransportRef} (well : WellFormed randomUUID found.1)
    (id : JsString) : WellFormed randomUUID (collectCandidate endpoint kind found id).1 := by
  unfold collectCandidate
  split
  · exact well
  · rename_i registered
    split
    · exact well
    · rename_i mem
      split
      · rw [if_pos (alive_of_registered well.toCoherent registered mem)]
        exact well.endTransport _ _ _
      · split <;> exact well

theorem WellFormed.findTransportByEndpoint (well : WellFormed randomUUID r)
    (endpoint : Option SshEndpoint) (kind : ReuseKind) :
    WellFormed randomUUID (r.findTransportByEndpoint endpoint kind).1 := by
  have loop (endpoint : SshEndpoint) (ids : List JsString)
      (found : TransportRegistry × List TransportRef) (well : WellFormed randomUUID found.1) :
      WellFormed randomUUID (ids.foldl (collectCandidate endpoint kind) found).1 := by
    induction ids generalizing found with
    | nil => exact well
    | cons id rest ih => exact ih _ (collectCandidate_wellFormed endpoint kind well id)
  unfold TransportRegistry.findTransportByEndpoint
  split
  · exact well
  · rename_i endpoint
    split
    · exact well
    · rename_i ids _
      have collected := loop endpoint ids (r, []) well
      dsimp only
      split
      · exact collected
      · split
        · exact collected
        · exact collected.touchIfIdle ‹_›

/-! ## Events of a connection -/

theorem WellFormed.onConnectionClose (well : WellFormed randomUUID r) (ref : TransportRef) :
    WellFormed randomUUID (r.onConnectionClose ref) := by
  unfold TransportRegistry.onConnectionClose
  split
  · exact well
  · split
    · exact well.endTransport _ _ _
    · exact well

theorem WellFormed.onConnectionError (well : WellFormed randomUUID r) (ref : TransportRef) :
    WellFormed randomUUID (r.onConnectionError ref) := by
  unfold TransportRegistry.onConnectionError
  split
  · exact well
  · split
    · exact well.endTransport _ _ _
    · exact well

end Netcatty.TransportRegistry
