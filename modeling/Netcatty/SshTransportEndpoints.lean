import Netcatty.SshTransportRuns

/-!
A transport keeps the endpoint it was created for, and the key it is filed under, whatever
happens to it.
-/

namespace Netcatty

open List

def SshTransport.route (t : SshTransport) : Option SshEndpoint × Option JsString := (t.endpoint, t.endpointKey)

namespace TransportRegistry

variable {randomUUID : ℕ → JsString} {r : TransportRegistry} {ref : TransportRef}

section

variable (r : TransportRegistry)

def endpoints : List (Option SshEndpoint) :=
  r.transports.map SshTransport.endpoint

theorem endpoints_get? (ref : TransportRef) :
    r.endpoints[ref]? = (r.transport? ref).map SshTransport.endpoint :=
  getElem?_map

def routes : List (Option SshEndpoint × Option JsString) :=
  r.transports.map SshTransport.route

theorem routes_get? (ref : TransportRef) :
    r.routes[ref]? = (r.transport? ref).map SshTransport.route :=
  getElem?_map

theorem endpoints_eq_map : r.endpoints = r.routes.map Prod.fst := by
  unfold endpoints routes
  rw [List.map_map]
  rfl

end

/-- A write that keeps the route of the transport it meets. -/
theorem routes_update_at {f : SshTransport → SshTransport}
    (kept : ∀ t, r.transport? ref = some t → (f t).route = t.route) :
    (r.update ref f).routes = r.routes := by
  apply ext_getElem?
  intro other
  rw [routes_get?, routes_get?, transport?_update]
  by_cases same : other = ref
  · subst same
    rw [if_pos rfl]
    cases mem : r.transport? other with
    | none => rfl
    | some t => exact congrArg some (kept t mem)
  · rw [if_neg same]

theorem routes_update {f : SshTransport → SshTransport}
    (kept : ∀ t, (f t).route = t.route) : (r.update ref f).routes = r.routes :=
  routes_update_at fun t _ => kept t

theorem clearIdleTimer_route (t : SshTransport) :
    t.clearIdleTimer.route = t.route := by
  unfold SshTransport.clearIdleTimer
  split
  · rfl
  · rfl

theorem toClosing_route (t : SshTransport) :
    (r.toClosing t).route = t.route := by
  unfold toClosing detachedLifecycle
  split
  · exact clearIdleTimer_route _
  · split
    · exact clearIdleTimer_route _
    · exact clearIdleTimer_route _

/-! ### Ends -/

theorem foldl_keeps {α : Type} {f : TransportRegistry → α → TransportRegistry}
    (kept : ∀ r a, (f r a).routes = r.routes) (l : List α) (r : TransportRegistry) :
    (l.foldl f r).routes = r.routes := by
  induction l generalizing r with
  | nil => rfl
  | cons a rest ih => exact (ih (f r a)).trans (kept r a)

theorem forgetLease_routes (r : TransportRegistry) (leaseId : JsString) :
    (forgetLease ref r leaseId).routes = r.routes := by
  have deleted : (({ r with leasesById := r.leasesById.delete leaseId } :
      TransportRegistry).update ref (deleteLease leaseId)).routes = r.routes :=
    routes_update fun _ => rfl
  unfold forgetLease
  dsimp only
  split
  · exact deleted
  · split
    · exact deleted
    · exact deleted

theorem endTransport_routes (r : TransportRegistry) (ref : TransportRef) (reason : JsString)
    (skipConnectionEnd : Bool) :
    (r.endTransport ref reason skipConnectionEnd).1.routes = r.routes := by
  unfold endTransport
  split
  · rfl
  · next t _ =>
    split
    · rfl
    · have closing : (r.update ref r.toClosing).routes = r.routes :=
        routes_update toClosing_route
      have bare : (t.leases.keys.foldl (forgetLease ref) (r.update ref r.toClosing)).routes =
          r.routes := (foldl_keeps forgetLease_routes _ _).trans closing
      have dead : ((t.leases.keys.foldl (forgetLease ref) (r.update ref r.toClosing)).update ref
          (toDead reason)).routes = r.routes := (routes_update (by exact fun _ => rfl)).trans bare
      exact dead

theorem evictOldest_routes (r : TransportRegistry) (oldest : TransportRef) :
    (r.evictOldest oldest).routes = r.routes := by
  unfold evictOldest
  split
  · rfl
  · dsimp only
    split
    · exact endTransport_routes _ _ _ _
    · rfl

theorem evictIdleTransports_routes (rounds : ℕ) (r : TransportRegistry) :
    (evictIdleTransports rounds r).routes = r.routes := by
  induction rounds generalizing r with
  | zero => rfl
  | succ rounds ih =>
    unfold evictIdleTransports
    split
    · rfl
    · split
      · rfl
      · exact (ih _).trans (evictOldest_routes _ _)

theorem enforceIdleTransportLimit_routes (r : TransportRegistry) :
    r.enforceIdleTransportLimit.routes = r.routes := by
  have pruned : ∀ (r : TransportRegistry) (entry : JsString × TransportRef),
      (pruneIdleEntry r entry).routes = r.routes := by
    intro r entry
    unfold pruneIdleEntry
    split
    · rfl
    · rfl
  exact (evictIdleTransports_routes _ _).trans (foldl_keeps pruned _ _)

/-! ### Parking -/

theorem scheduleIdleTimer_routes (r : TransportRegistry) (ref : TransportRef)
    (ttl now : ℚ) : (r.scheduleIdleTimer ref ttl now).1.routes = r.routes := by
  unfold scheduleIdleTimer
  split
  · rfl
  · split
    · exact routes_update fun _ => rfl
    · dsimp only
      split
      · exact (endTransport_routes _ _ _ _).trans (routes_update (by exact fun _ => rfl))
      · exact (routes_update (by exact fun _ => rfl)).trans (routes_update (by exact fun _ => rfl))

theorem listAsIdle_routes {t : SshTransport} {preserveIdleSince preserveLru : Bool}
    (mem : r.transport? ref = some t) :
    (r.listAsIdle ref t preserveIdleSince preserveLru).routes = r.routes := by
  have idle : (r.update ref fun _ => r.toIdle preserveIdleSince t).routes = r.routes := by
    apply routes_update_at
    intro u mem'
    obtain rfl := Option.some.inj (mem.symm.trans mem')
    rfl
  unfold listAsIdle
  dsimp only
  split
  · unfold touchIdleTransportLru removeIdleTransportLru
    split
    · exact idle
    · exact idle
  · exact idle

theorem scheduleIdleEnd_routes (r : TransportRegistry) (ref : TransportRef)
    (preserveIdleSince preserveLru : Bool) :
    (r.scheduleIdleEnd ref preserveIdleSince preserveLru).1.routes = r.routes := by
  have cleared : (r.update ref SshTransport.clearIdleTimer).routes = r.routes :=
    routes_update clearIdleTimer_route
  unfold scheduleIdleEnd
  dsimp only
  split
  · exact cleared
  · next t mem =>
    split
    · exact (endTransport_routes _ _ _ _).trans cleared
    · split
      · exact (endTransport_routes _ _ _ _).trans cleared
      · exact (scheduleIdleTimer_routes _ _ _ _).trans
          ((enforceIdleTransportLimit_routes _).trans ((listAsIdle_routes mem).trans cleared))

theorem fireIdleTimer_routes (r : TransportRegistry) (ref : TransportRef) :
    (r.fireIdleTimer ref).routes = r.routes := by
  have cleared : (r.update ref fun t => { t with idleTimer := none }).routes = r.routes :=
    routes_update fun _ => rfl
  unfold fireIdleTimer
  dsimp only
  split
  · exact cleared
  · split
    · exact cleared
    · exact (endTransport_routes _ _ _ _).trans cleared

/-! ### Leases -/

theorem wakeFromIdle_routes (r : TransportRegistry) (ref : TransportRef) :
    (r.wakeFromIdle ref).routes = r.routes := by
  unfold wakeFromIdle
  split
  · rfl
  · split
    · rfl
    · exact routes_update clearIdleTimer_route

theorem chooseLeaseId_routes (randomUUID : ℕ → JsString) (r : TransportRegistry)
    (kind leaseId : JsString) :
    (chooseLeaseId randomUUID r kind leaseId).1.routes = r.routes := by
  unfold chooseLeaseId
  split
  · rfl
  · rfl

theorem borrowTransport_routes (r : TransportRegistry) (ref : TransportRef)
    (options : BorrowOptions) :
    (r.borrowTransport randomUUID ref options).1.routes = r.routes := by
  unfold borrowTransport
  split
  · rfl
  · split
    · rfl
    · split
      · exact endTransport_routes _ _ _ _
      · have chosen := (chooseLeaseId_routes randomUUID (r.wakeFromIdle ref)
          (leaseKind options) options.leaseId).trans (wakeFromIdle_routes r ref)
        dsimp only
        split
        · exact chosen
        · unfold addLease
          dsimp only
          split
          · exact (routes_update (by exact fun _ => rfl)).trans chosen
          · exact (routes_update (by exact fun _ => rfl)).trans chosen

theorem transferConnectionRef_routes (r : TransportRegistry)
    (fromHolder toHolder : Option HolderRef) :
    (r.transferConnectionRef fromHolder toHolder).1.routes = r.routes := by
  unfold transferConnectionRef
  split
  · split
    · rfl
    · split
      · rfl
      · exact routes_update fun _ => rfl
  · rfl

theorem recordShellClose_route (lease : SshLease) (t : SshTransport) :
    (r.recordShellClose lease t).route = t.route := by
  unfold recordShellClose
  dsimp only
  split
  · rfl
  · rfl

section

variable (r : TransportRegistry)

theorem releaseLease_routes (argument : LeaseArgument)
    (leaseId : JsString) (entry : LeaseEntry) :
    (r.releaseLease argument leaseId entry).routes = r.routes := by
  have released : ∀ r : TransportRegistry,
      (r.releaseHolder entry argument).routes = r.routes := by
    intro r
    unfold releaseHolder
    split
    · rfl
    · rfl
    · rfl
  have removed : (r.removeLease entry.transport leaseId).routes = r.routes :=
    routes_update fun _ => rfl
  unfold releaseLease
  dsimp only
  rw [released]
  split
  · exact removed
  · exact (routes_update (recordShellClose_route _)).trans removed

theorem returnTransport_routes (argument : LeaseArgument) :
    (r.returnTransport argument).1.routes = r.routes := by
  unfold returnTransport
  split
  · rfl
  · split
    · unfold detachArgument
      split
      · rfl
      · rfl
    · unfold parkReleased
      dsimp only
      split
      · exact releaseLease_routes _ _ _ _
      · exact (scheduleIdleEnd_routes _ _ _ _).trans (releaseLease_routes _ _ _ _)

/-! ### Lookups and runs -/

theorem touchIfIdle_routes (ref : TransportRef)
    (t : SshTransport) : (r.touchIfIdle ref t).routes = r.routes := by
  unfold touchIfIdle
  split
  · unfold touchIdleTransportLru removeIdleTransportLru
    split
    · rfl
    · rfl
  · rfl

theorem collectCandidate_routes (endpoint : SshEndpoint) (kind : ReuseKind)
    (ids : List JsString) (found : TransportRegistry × List TransportRef) :
    (ids.foldl (collectCandidate endpoint kind) found).1.routes = found.1.routes := by
  induction ids generalizing found with
  | nil => rfl
  | cons id rest ih =>
    refine (ih _).trans ?_
    unfold collectCandidate
    split
    · rfl
    · split
      · rfl
      · split
        · dsimp only
          split
          · exact endTransport_routes _ _ _ _
          · rfl
        · split
          · rfl
          · rfl

theorem findTransportByEndpoint_routes (endpoint : Option SshEndpoint)
    (kind : ReuseKind) : (r.findTransportByEndpoint endpoint kind).1.routes = r.routes := by
  unfold findTransportByEndpoint
  split
  · rfl
  · next endpoint =>
    split
    · rfl
    · next ids _ =>
      have found := collectCandidate_routes endpoint kind ids (r, [])
      dsimp only
      split
      · exact found
      · split
        · exact found
        · exact (touchIfIdle_routes _ _ _).trans found

theorem setDefaultTransportIdleTtlMs_routes (ms : Option ℚ) :
    (r.setDefaultTransportIdleTtlMs ms).routes = r.routes := by
  have retimed : ∀ ttl (r : TransportRegistry) entry,
      (retimeTransport ttl r entry).routes = r.routes := by
    intro ttl r entry
    unfold retimeTransport
    split
    · rfl
    · have set : (r.update entry.2 fun t => { t with idleTtlMs := ttl }).routes =
          r.routes := routes_update fun _ => rfl
      dsimp only
      split
      · exact set
      · split
        · exact (scheduleIdleEnd_routes _ _ _ _).trans set
        · exact set
  unfold setDefaultTransportIdleTtlMs
  split
  · rfl
  · split
    · rfl
    · exact foldl_keeps (retimed _) _ _

theorem step_routes (event : RegistryEvent) :
    ∃ more, (r.step randomUUID event).routes = r.routes ++ more ∧
      ∀ route ∈ more, route.2 = buildEndpointKey route.1 := by
  have unchanged : ∀ r' : TransportRegistry, r'.routes = r.routes →
      ∃ more, r'.routes = r.routes ++ more ∧ ∀ route ∈ more, route.2 = buildEndpointKey route.1 :=
    fun r' same => ⟨[], same.trans (append_nil _).symm, fun _ mem => absurd mem not_mem_nil⟩
  cases event with
  | createTransport options =>
    unfold step createTransport
    dsimp only
    split
    · exact unchanged _ rfl
    · next conn _ =>
      refine ⟨[(options.endpoint, buildEndpointKey options.endpoint)], ?_, ?_⟩
      · unfold attachEndpointIndex
        dsimp only
        split
        · exact map_append
        · exact map_append
      · intro route new
        rw [mem_singleton.mp new]
  | borrowTransport ref options =>
    exact unchanged _ (borrowTransport_routes r ref options)
  | transferConnectionRef fromHolder toHolder =>
    exact unchanged _ (transferConnectionRef_routes r fromHolder toHolder)
  | returnTransport argument =>
    exact unchanged _ (returnTransport_routes r argument)
  | discardTransport argument reason =>
    refine unchanged _ ?_
    unfold step discardTransport
    dsimp only
    split
    · exact endTransport_routes _ _ _ _
    · split
      · rfl
      · exact endTransport_routes _ _ _ _
  | findTransportById id =>
    refine unchanged _ ?_
    unfold step findTransportById
    dsimp only
    split
    · rfl
    · split
      · rfl
      · split
        · rfl
        · exact touchIfIdle_routes _ _ _
  | findTransportByEndpoint endpoint kind =>
    exact unchanged _ (findTransportByEndpoint_routes r endpoint kind)
  | setDefaultTransportIdleTtlMs ms =>
    exact unchanged _ (setDefaultTransportIdleTtlMs_routes r ms)
  | connectionClose ref =>
    refine unchanged _ ?_
    unfold step onConnectionClose
    dsimp only
    split
    · rfl
    · split
      · exact endTransport_routes _ _ _ _
      · rfl
  | connectionError ref =>
    refine unchanged _ ?_
    unfold step onConnectionError
    dsimp only
    split
    · rfl
    · split
      · exact endTransport_routes _ _ _ _
      · rfl
  | idleTimer ref => exact unchanged _ (fireIdleTimer_routes r ref)
  | connectionChanges conn value => exact unchanged _ rfl
  | holderWritten holder value => exact unchanged _ rfl
  | parkingForbidden ref =>
    have same : (r.update ref fun t =>
        { t with allowIdlePark := false, allowShellReuse := false }).routes = r.routes :=
      routes_update fun _ => rfl
    exact unchanged _ same
  | markEndpointNoIdlePark key => exact unchanged _ rfl
  | clock now => exact unchanged _ rfl

/-! ## Endpoints and keys -/

theorem findTransportByEndpoint_endpoints (endpoint : Option SshEndpoint)
    (kind : ReuseKind) : (r.findTransportByEndpoint endpoint kind).1.endpoints = r.endpoints := by
  rw [endpoints_eq_map, findTransportByEndpoint_routes, endpoints_eq_map]

theorem step_endpoints (event : RegistryEvent) :
    ∃ more, (r.step randomUUID event).endpoints = r.endpoints ++ more := by
  obtain ⟨more, grown, -⟩ := @step_routes randomUUID r event
  exact ⟨more.map Prod.fst, by rw [endpoints_eq_map, grown, map_append, endpoints_eq_map]⟩

def Keyed : Prop := ∀ route ∈ r.routes, route.2 = buildEndpointKey route.1

end

theorem Keyed.transport (keyed : Keyed r) {t : SshTransport} (mem : r.transport? ref = some t) :
    t.endpointKey = buildEndpointKey t.endpoint := by
  have found : r.routes[ref]? = some t.route := by rw [routes_get?, mem, Option.map_some]
  exact keyed t.route (mem_of_getElem? found)

theorem Keyed.step (keyed : Keyed r) (event : RegistryEvent) : Keyed (r.step randomUUID event) := by
  obtain ⟨more, grown, filed⟩ := @step_routes randomUUID r event
  intro route mem
  rw [grown] at mem
  rcases mem_append.mp mem with old | new
  · exact keyed route old
  · exact filed route new

theorem Keyed.run (keyed : Keyed r) (events : List RegistryEvent) : Keyed (r.run randomUUID events) := by
  induction events generalizing r with
  | nil => exact keyed
  | cons event rest ih => exact ih (keyed.step event)

end TransportRegistry

end Netcatty
