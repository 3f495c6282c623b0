import Mathlib.Data.List.DropRight
import Netcatty.SshDialCoordination
import Netcatty.SshTransportEndpoints

/-!
SSH dials over whole runs: one dial at a time where one would do, one settlement for
each leader, and no incompatibility for those who joined.
-/

namespace Netcatty

open List Option

/-! ## Normalized endpoints -/

theorem trim_trim (s : JsString) : trim (trim s) = trim s := by
  let front := s.dropWhile isWhiteSpace
  have shape : trim s = front.rdropWhile isWhiteSpace := rfl
  have start : (front.rdropWhile isWhiteSpace).dropWhile isWhiteSpace =
      front.rdropWhile isWhiteSpace := by
    rw [dropWhile_eq_self_iff]
    intro nonempty
    have first := dropWhile_eq_self_iff.mp
      (dropWhile_idempotent (p := isWhiteSpace) (l := s))
    have head := (List.rdropWhile_prefix isWhiteSpace (l := front)).getElem nonempty
    rw [head]
    exact first _
  rw [shape]
  change ((front.rdropWhile isWhiteSpace).dropWhile isWhiteSpace).rdropWhile isWhiteSpace = _
  rw [start]
  exact rdropWhile_idempotent isWhiteSpace front

/-- What `normalizeEndpoint` establishes, and what makes it the identity. -/
structure SshEndpoint.Normalized (endpoint : SshEndpoint) : Prop where
  hostId : trim endpoint.hostId = endpoint.hostId
  hostname : trim endpoint.hostname = endpoint.hostname
  hostname_ne : endpoint.hostname ≠ []
  port : endpoint.port ≠ 0
  username : endpoint.username ≠ []
  protocol : endpoint.protocol ≠ []
  jump : endpoint.jumpFingerprint ≠ []
  proxy : endpoint.proxyFingerprint ≠ []
  auth : endpoint.authFingerprint ≠ []
  forwarding : endpoint.forwardingAgentFingerprint ≠ []

theorem orElseText_ne {a b : JsString} (fallback : b ≠ []) : orElseText a b ≠ [] := by
  unfold orElseText
  split
  · exact fallback
  · next given => exact given

theorem orElseText_of_ne {a b : JsString} (given : a ≠ []) : orElseText a b = a :=
  if_neg given

variable {M : Type} {digests : EndpointDigests M}

theorem normalizeEndpoint_normalized {argument : ConnectionEndpoint M} {endpoint : SshEndpoint}
    (normal : normalizeEndpoint digests argument = some endpoint) : endpoint.Normalized := by
  unfold normalizeEndpoint at normal
  split at normal
  · exact absurd normal.symm (some_ne_none _)
  · next named =>
    obtain rfl := Option.some.inj normal
    constructor
    · exact trim_trim _
    · exact trim_trim _
    · exact named
    · dsimp only
      split
      · decide
      · next given => exact given
    · exact orElseText_ne (by decide)
    · exact orElseText_ne (by decide)
    · exact orElseText_ne (digests.jumpHosts_ne _)
    · exact orElseText_ne (digests.proxy_ne _)
    · exact orElseText_ne (digests.auth_ne _)
    · apply orElseText_ne
      split
      · exact digests.digest_ne _
      · decide

/-- Normalizing again changes nothing, whatever the files have become. -/
theorem SshEndpoint.Normalized.again {endpoint : SshEndpoint} (normal : endpoint.Normalized)
    (digests : EndpointDigests M) :
    normalizeEndpoint digests (endpoint.asArgument M) = some endpoint := by
  have named : trim (endpoint.asArgument M).hostname ≠ [] := by
    change trim endpoint.hostname ≠ []
    rw [normal.hostname]
    exact normal.hostname_ne
  unfold normalizeEndpoint
  rw [if_neg named]
  simp only [SshEndpoint.asArgument, getD_some, normal.hostId, normal.hostname,
    normal.port, if_false, orElseText_of_ne normal.username, orElseText_of_ne normal.protocol,
    orElseText_of_ne normal.jump, orElseText_of_ne normal.proxy, orElseText_of_ne normal.auth,
    orElseText_of_ne normal.forwarding, keepaliveOf]

theorem allowsReuseAgain_eq {requested existing : SshEndpoint} (first : requested.Normalized)
    (second : existing.Normalized) (kind : ReuseKind) :
    allowsReuseAgain digests requested existing kind =
      endpointAllowsReuse requested existing kind := by
  unfold allowsReuseAgain
  rw [first.again, second.again]

namespace DialPool

/-- What a waiter on a handle may have been told so far. -/
def mayBeTold (registry : TransportRegistry) (record : DialRecord) (outcome : Option WaitOutcome) :
    Prop :=
  (record.settlements = [] → outcome = none ∨ outcome = some .cancelled) ∧
    ∀ transport rest, record.settlements = .resolve transport :: rest →
      registry.endpoints[transport]? = some (some record.endpoint) →
      outcome = none ∨ outcome = some .cancelled ∨ outcome = some (.received transport)

structure Joined (records : List DialRecord) (handle : Coordination) (ref : DialRef)
    (record : DialRecord) (endpoint : SshEndpoint) : Prop where
  role : handle.role = .join ref
  found : records[ref]? = some record
  named : handle.endpoint = some endpoint
  normal : endpoint.Normalized
  allowed : endpointAllowsReuse endpoint record.endpoint handle.kind = true

structure DialInv (pool : DialPool) : Prop where
  pendingRecord : ∀ (key : JsString) (ref : DialRef), ref ∈ pool.pendingAt key →
    ∃ record, pool.records[ref]? = some record ∧ record.settled = false ∧
      record.endpointKey = key
  unsettledPending : ∀ (ref : DialRef) (record : DialRecord), pool.records[ref]? = some record →
    record.settled = false → ref ∈ pool.pendingAt record.endpointKey
  settledOnce : ∀ (ref : DialRef) (record : DialRecord), pool.records[ref]? = some record →
    if record.settled then record.settlements.length = 1 else record.settlements = []
  resolved : ∀ (ref : DialRef) (record : DialRecord) (transport : TransportRef)
    (rest : List DialSettlement), pool.records[ref]? = some record →
    record.settlements = .resolve transport :: rest →
      transport < pool.registry.endpoints.length
  normal : ∀ (ref : DialRef) (record : DialRecord), pool.records[ref]? = some record →
    record.endpoint.Normalized
  keyed : ∀ (ref : DialRef) (record : DialRecord), pool.records[ref]? = some record →
    record.endpointKey = record.endpoint.key
  singleFlight : ∀ (i j : DialRef) (first later : DialRecord), i < j →
    pool.records[i]? = some first → pool.records[j]? = some later →
    first.settled = false → later.settled = false → first.endpointKey = later.endpointKey →
    endpointAllowsReuse later.endpoint first.endpoint later.kind = false
  leaders : ∀ (index : ℕ) (handle : Coordination) (ref : DialRef),
    pool.handles[index]? = some handle → handle.role = .leader ref → ref < pool.records.length
  joins : ∀ (index : ℕ) (handle : Coordination) (ref : DialRef),
    pool.handles[index]? = some handle → handle.role = .join ref →
    ∃ record endpoint, Joined pool.records handle ref record endpoint
  waiters : ∀ (index : ℕ) (waiter : DialWaiter), pool.waiters[index]? = some waiter →
    ∃ handle, pool.handles[waiter.handle]? = some handle
  told : ∀ (index : ℕ) (waiter : DialWaiter) (handle : Coordination) (ref : DialRef)
    (record : DialRecord), pool.waiters[index]? = some waiter →
    pool.handles[waiter.handle]? = some handle → handle.role = .join ref →
    pool.records[ref]? = some record → mayBeTold pool.registry record waiter.outcome

variable {pool : DialPool}

theorem initial_inv (registry : TransportRegistry) : DialInv (initial registry) where
  pendingRecord := fun _ _ mem => absurd mem not_mem_nil
  unsettledPending := fun _ _ found => absurd found.symm (some_ne_none _)
  settledOnce := fun _ _ found => absurd found.symm (some_ne_none _)
  resolved := fun _ _ _ _ found => absurd found.symm (some_ne_none _)
  normal := fun _ _ found => absurd found.symm (some_ne_none _)
  keyed := fun _ _ found => absurd found.symm (some_ne_none _)
  singleFlight := fun _ _ _ _ _ found => absurd found.symm (some_ne_none _)
  leaders := fun _ _ _ found => absurd found.symm (some_ne_none _)
  joins := fun _ _ _ found => absurd found.symm (some_ne_none _)
  waiters := fun _ _ found => absurd found.symm (some_ne_none _)
  told := fun _ _ _ _ _ found => absurd found.symm (some_ne_none _)

/-! ## The registry moves -/

/-- Transports keep their endpoints, so what waiters were told stays right. -/
theorem DialInv.registryMoves {registry : TransportRegistry} {more : List (Option SshEndpoint)}
    (h : DialInv pool) (grown : registry.endpoints = pool.registry.endpoints ++ more) :
    DialInv { pool with registry } where
  __ := h
  resolved := by
    intro ref record transport rest found settled
    have bound := h.resolved ref record transport rest found settled
    rw [grown, length_append]
    exact Nat.lt_add_right _ bound
  told := by
    intro index waiter handle ref record found named role known
    obtain ⟨idle, received⟩ := h.told index waiter handle ref record found named role known
    refine ⟨idle, ?_⟩
    intro transport rest settled same
    have bound := h.resolved ref record transport rest known settled
    rw [grown, getElem?_append_left bound] at same
    exact received transport rest settled same

/-! ## Handles and waiters -/

theorem giveHandle_inv {handle : Coordination} (h : DialInv pool)
    (leader : ∀ ref, handle.role = .leader ref → ref < pool.records.length)
    (join : ∀ ref, handle.role = .join ref → ∃ record endpoint,
      Joined pool.records handle ref record endpoint) : DialInv (pool.giveHandle handle) where
  __ := h
  leaders := by
    intro index given ref found role
    rcases mem_append.mp (mem_of_getElem? found) with old | new
    · obtain ⟨at_, there⟩ := mem_iff_getElem?.mp old
      exact h.leaders at_ given ref there role
    · obtain rfl := mem_singleton.mp new
      exact leader ref role
  joins := by
    intro index given ref found role
    rcases mem_append.mp (mem_of_getElem? found) with old | new
    · obtain ⟨at_, there⟩ := mem_iff_getElem?.mp old
      exact h.joins at_ given ref there role
    · obtain rfl := mem_singleton.mp new
      exact join ref role
  waiters := by
    intro index waiter found
    obtain ⟨given, there⟩ := h.waiters index waiter found
    exact ⟨given, (getElem?_append_left (List.getElem?_eq_some_iff.mp there).1).trans there⟩
  told := by
    intro index waiter given ref record found named role known
    obtain ⟨older, there⟩ := h.waiters index waiter found
    have kept : (pool.handles ++ [handle])[waiter.handle]? = pool.handles[waiter.handle]? :=
      getElem?_append_left (List.getElem?_eq_some_iff.mp there).1
    have same := kept.symm.trans named
    exact h.told index waiter given ref record found same role known

theorem addWaiter_inv {waiter : DialWaiter} {handle : Coordination} (h : DialInv pool)
    (named : pool.handles[waiter.handle]? = some handle)
    (told : ∀ ref, handle.role = .join ref →
      waiter.outcome = none ∨ waiter.outcome = some .cancelled) :
    DialInv (pool.addWaiter waiter) where
  __ := h
  waiters := by
    intro index other found
    rcases mem_append.mp (mem_of_getElem? found) with old | new
    · obtain ⟨at_, there⟩ := mem_iff_getElem?.mp old
      exact h.waiters at_ other there
    · obtain rfl := mem_singleton.mp new
      exact ⟨handle, named⟩
  told := by
    intro index other given ref record found givenHandle role known
    rcases mem_append.mp (mem_of_getElem? found) with old | new
    · obtain ⟨at_, there⟩ := mem_iff_getElem?.mp old
      exact h.told at_ other given ref record there givenHandle role known
    · obtain rfl := mem_singleton.mp new
      obtain rfl := Option.some.inj (givenHandle.symm.trans named)
      have outcome := told ref role
      exact ⟨fun _ => outcome, fun _ _ _ _ => outcome.imp_right Or.inl⟩

theorem tellWaiter_cases {index other : ℕ} {outcome : WaitOutcome} {waiter : DialWaiter}
    (found : (pool.tellWaiter index outcome).waiters[other]? = some waiter) :
    ∃ old, pool.waiters[other]? = some old ∧ waiter.handle = old.handle ∧
      (waiter = old ∨ other = index ∧ waiter.outcome = some outcome) := by
  change (pool.waiters.modify index _)[other]? = some waiter at found
  rw [getElem?_modify] at found
  obtain ⟨old, there, same⟩ := map_eq_some_iff.mp found
  refine ⟨old, there, ?_⟩
  by_cases this : index = other
  · rw [if_pos this] at same
    by_cases already : old.outcome.isSome
    · rw [if_pos already] at same
      exact same ▸ ⟨rfl, Or.inl rfl⟩
    · rw [if_neg already] at same
      exact same ▸ ⟨rfl, Or.inr ⟨this.symm, rfl⟩⟩
  · rw [if_neg this] at same
    exact same ▸ ⟨rfl, Or.inl rfl⟩

theorem tellWaiter_inv {index : ℕ} {outcome : WaitOutcome} (h : DialInv pool)
    (allowed : ∀ (waiter : DialWaiter) (handle : Coordination) (ref : DialRef)
      (record : DialRecord), pool.waiters[index]? = some waiter →
      pool.handles[waiter.handle]? = some handle → handle.role = .join ref →
      pool.records[ref]? = some record → mayBeTold pool.registry record (some outcome)) :
    DialInv (pool.tellWaiter index outcome) where
  __ := h
  waiters := by
    intro other waiter found
    obtain ⟨old, there, handle, _⟩ := tellWaiter_cases found
    exact handle ▸ h.waiters other old there
  told := by
    intro other waiter handle ref record found named role known
    obtain ⟨old, there, same, rfl | ⟨rfl, told⟩⟩ := tellWaiter_cases found
    · exact h.told other waiter handle ref record there named role known
    · rw [told]
      exact allowed old handle ref record there (same ▸ named) role known

/-! ## Dials begin and settle -/

theorem addRecord_inv {endpoint : SshEndpoint} (kind : ReuseKind) (h : DialInv pool)
    (normal : endpoint.Normalized)
    (alone : ∀ (ref : DialRef) (record : DialRecord), ref ∈ pool.pendingAt endpoint.key →
      pool.records[ref]? = some record → record.settled = false →
      endpointAllowsReuse endpoint record.endpoint kind = false) :
    DialInv (pool.addRecord endpoint endpoint.key kind) := by
  let fresh : DialRecord :=
    { endpoint, endpointKey := endpoint.key, kind, settled := false, settlements := [] }
  have old : ∀ (ref : DialRef) (record : DialRecord),
      (pool.addRecord endpoint endpoint.key kind).records[ref]? = some record →
      pool.records[ref]? = some record ∨ ref = pool.records.length ∧ record = fresh := by
    intro ref record found
    change (pool.records ++ [fresh])[ref]? = some record at found
    by_cases bound : ref < pool.records.length
    · rw [getElem?_append_left bound] at found
      exact Or.inl found
    · rw [getElem?_append_right (Nat.le_of_not_lt bound), getElem?_singleton] at found
      split at found
      · next here =>
        have above : pool.records.length ≤ ref := Nat.le_of_not_lt bound
        have below : ref ≤ pool.records.length := Nat.sub_eq_zero_iff_le.mp here
        exact Or.inr ⟨Nat.le_antisymm below above, (Option.some.inj found).symm⟩
      · exact absurd found.symm (some_ne_none _)
  have kept : ∀ (ref : DialRef) (record : DialRecord), pool.records[ref]? = some record →
      (pool.addRecord endpoint endpoint.key kind).records[ref]? = some record := by
    intro ref record found
    exact (getElem?_append_left (List.getElem?_eq_some_iff.mp found).1).trans found
  have pending : ∀ key : JsString, (pool.addRecord endpoint endpoint.key kind).pendingAt key =
      if key = endpoint.key then pool.pendingAt key ++ [pool.records.length]
      else pool.pendingAt key := by
    intro key
    change ((pool.pendingDialsByEndpoint.set _ _).get? key).getD [] = _
    rw [OrderedMap.get?_set]
    split
    · next same =>
      rw [same]
      rfl
    · rfl
  exact
  { pendingRecord := by
      intro key ref mem
      rw [pending] at mem
      split at mem
      · next same =>
        rcases mem_append.mp mem with older | new
        · obtain ⟨record, found, rest⟩ := h.pendingRecord key ref older
          exact ⟨record, kept ref record found, rest⟩
        · obtain rfl := mem_singleton.mp new
          refine ⟨fresh, ?_, rfl, same.symm⟩
          exact getElem?_concat_length
      · obtain ⟨record, found, rest⟩ := h.pendingRecord key ref mem
        exact ⟨record, kept ref record found, rest⟩
    unsettledPending := by
      intro ref record found unsettled
      rw [pending]
      rcases old ref record found with older | ⟨rfl, rfl⟩
      · have mem := h.unsettledPending ref record older unsettled
        split
        · exact mem_append_left _ mem
        · exact mem
      · rw [if_pos rfl]
        exact mem_append_right _ (mem_singleton_self _)
    settledOnce := by
      intro ref record found
      rcases old ref record found with older | ⟨_, rfl⟩
      · exact h.settledOnce ref record older
      · rfl
    resolved := by
      intro ref record transport rest found settled
      rcases old ref record found with older | ⟨_, rfl⟩
      · exact h.resolved ref record transport rest older settled
      · exact absurd settled.symm (cons_ne_nil _ _)
    normal := by
      intro ref record found
      rcases old ref record found with older | ⟨_, rfl⟩
      · exact h.normal ref record older
      · exact normal
    keyed := by
      intro ref record found
      rcases old ref record found with older | ⟨_, rfl⟩
      · exact h.keyed ref record older
      · rfl
    singleFlight := by
      intro i j first later less foundFirst foundLater open₁ open₂ same
      have bound : j ≤ pool.records.length := by
        have length := (List.getElem?_eq_some_iff.mp foundLater).1
        exact Nat.le_of_lt_succ (length.trans_eq length_append)
      have first' : pool.records[i]? = some first :=
        (old i first foundFirst).resolve_right (fun new => Nat.ne_of_lt (less.trans_le bound) new.1)
      rcases old j later foundLater with older | ⟨rfl, rfl⟩
      · exact h.singleFlight i j first later less first' older open₁ open₂ same
      · have mem := h.unsettledPending i first first' open₁
        rw [same] at mem
        exact alone i first mem first' open₁
    leaders := by
      intro index handle ref found role
      have grown : (pool.addRecord endpoint endpoint.key kind).records.length =
          pool.records.length + 1 := length_append
      rw [grown]
      exact Nat.lt_succ_of_lt (h.leaders index handle ref found role)
    joins := by
      intro index handle ref found role
      obtain ⟨record, requested, joined⟩ := h.joins index handle ref found role
      exact ⟨record, requested, joined.role, kept ref record joined.found, joined.named,
        joined.normal, joined.allowed⟩
    waiters := h.waiters
    told := by
      intro index waiter handle ref record found named role known
      obtain ⟨there, _, joined⟩ := h.joins waiter.handle handle ref named role
      have same := kept ref there joined.found
      obtain rfl := Option.some.inj (same.symm.trans known)
      exact h.told index waiter handle ref there found named role joined.found }

variable {ref : DialRef}

theorem pendingAt_removePendingDial {record : DialRecord}
    (key : JsString) : (pool.removePendingDial ref record).pendingAt key =
      if key = record.endpointKey then (pool.pendingAt key).filter (· ≠ ref)
      else pool.pendingAt key := by
  unfold removePendingDial
  split
  · next none =>
    split
    · next same =>
      rw [same, pendingAt, none]
      rfl
    · rfl
  · next refs some =>
    dsimp only
    unfold pendingAt
    dsimp only
    split
    · next empty =>
      rw [OrderedMap.get?_delete]
      split
      · next same =>
        rw [same, some]
        exact empty.symm
      · rfl
    · rw [OrderedMap.get?_set]
      split
      · next same =>
        rw [same, some]
        rfl
      · rfl

theorem removePendingDial_rest (pool : DialPool) (ref : DialRef) (record : DialRecord) :
    (pool.removePendingDial ref record).records = pool.records ∧
      (pool.removePendingDial ref record).handles = pool.handles ∧
      (pool.removePendingDial ref record).waiters = pool.waiters ∧
      (pool.removePendingDial ref record).registry = pool.registry := by
  unfold removePendingDial
  split
  · exact ⟨rfl, rfl, rfl, rfl⟩
  · exact ⟨rfl, rfl, rfl, rfl⟩

def settledRecord (record : DialRecord) (settlement : DialSettlement) : DialRecord :=
  { record with settled := true, settlements := record.settlements ++ [settlement] }

/-- What settling a dial does, when it was not settled before. -/
structure Settles (pool pool' : DialPool) (ref : DialRef) (record : DialRecord)
    (settlement : DialSettlement) : Prop where
  before : pool.records[ref]? = some record
  unsettled : record.settled = false
  after : pool'.records[ref]? = some (settledRecord record settlement)
  others : ∀ other : DialRef, other ≠ ref → pool'.records[other]? = pool.records[other]?
  length : pool'.records.length = pool.records.length
  pending : ∀ key, pool'.pendingAt key = (pool.pendingAt key).filter (· ≠ ref)
  handles : pool'.handles = pool.handles
  waiters : pool'.waiters = pool.waiters
  registry : pool'.registry = pool.registry

theorem settleDial_settles {record : DialRecord} {settlement : DialSettlement}
    (h : DialInv pool) (found : pool.records[ref]? = some record)
    (unsettled : record.settled = false) :
    Settles pool (pool.settleDial ref settlement) ref record settlement := by
  let moved : DialPool := { pool with
    records := pool.records.set ref (settledRecord record settlement) }
  have shape : pool.settleDial ref settlement = moved.removePendingDial ref record := by
    unfold settleDial
    rw [found]
    dsimp only
    rw [if_neg (by rw [unsettled]; exact Bool.false_ne_true)]
    rfl
  obtain ⟨records, handles, waiters, registry⟩ := removePendingDial_rest moved ref record
  rw [shape]
  constructor
  · exact found
  · exact unsettled
  · rw [records]
    exact getElem?_set_self (List.getElem?_eq_some_iff.mp found).1
  · intro other different
    rw [records]
    exact getElem?_set_ne different.symm
  · rw [records]
    exact length_set
  · intro key
    rw [pendingAt_removePendingDial]
    split
    · rfl
    · next different =>
      symm
      apply filter_eq_self.mpr
      intro other mem
      apply decide_eq_true
      rintro rfl
      obtain ⟨there, same, _, keyed⟩ := h.pendingRecord key other mem
      obtain rfl := Option.some.inj (same.symm.trans found)
      exact different keyed.symm
  · exact handles
  · exact waiters
  · exact registry

theorem Settles.inv {pool' : DialPool} {ref : DialRef} {record : DialRecord}
    {settlement : DialSettlement} (h : DialInv pool) (s : Settles pool pool' ref record settlement)
    (resolvable : ∀ transport, settlement = .resolve transport →
      transport < pool.registry.endpoints.length) : DialInv pool' := by
  have once : record.settlements = [] := by
    have count := h.settledOnce ref record s.before
    rw [if_neg (by rw [s.unsettled]; exact Bool.false_ne_true)] at count
    exact count
  have cases : ∀ (other : DialRef) (value : DialRecord), pool'.records[other]? = some value →
      other = ref ∧ value = settledRecord record settlement ∨
        other ≠ ref ∧ pool.records[other]? = some value := by
    intro other value found
    by_cases same : other = ref
    · rw [same, s.after] at found
      exact Or.inl ⟨same, (Option.some.inj found).symm⟩
    · rw [s.others other same] at found
      exact Or.inr ⟨same, found⟩
  have single : (settledRecord record settlement).settlements = [settlement] := by
    change record.settlements ++ [settlement] = _
    rw [once]
    rfl
  exact
  { pendingRecord := by
      intro key other mem
      rw [s.pending] at mem
      obtain ⟨older, different⟩ := mem_filter.mp mem
      obtain ⟨value, found, rest⟩ := h.pendingRecord key other older
      exact ⟨value, (s.others other (of_decide_eq_true different)).trans found, rest⟩
    unsettledPending := by
      intro other value found unsettled
      rcases cases other value found with ⟨_, rfl⟩ | ⟨different, older⟩
      · exact Bool.noConfusion unsettled
      · rw [s.pending]
        exact mem_filter.mpr
          ⟨h.unsettledPending other value older unsettled, decide_eq_true different⟩
    settledOnce := by
      intro other value found
      rcases cases other value found with ⟨_, rfl⟩ | ⟨_, older⟩
      · rw [single]
        rfl
      · exact h.settledOnce other value older
    resolved := by
      intro other value transport rest found settled
      rw [s.registry]
      rcases cases other value found with ⟨_, rfl⟩ | ⟨_, older⟩
      · rw [single] at settled
        exact resolvable transport (List.cons.inj settled).1
      · exact h.resolved other value transport rest older settled
    normal := by
      intro other value found
      rcases cases other value found with ⟨_, rfl⟩ | ⟨_, older⟩
      · exact h.normal ref record s.before
      · exact h.normal other value older
    keyed := by
      intro other value found
      rcases cases other value found with ⟨_, rfl⟩ | ⟨_, older⟩
      · exact h.keyed ref record s.before
      · exact h.keyed other value older
    singleFlight := by
      intro i j first later less foundFirst foundLater open₁ open₂ same
      rcases cases i first foundFirst with ⟨_, rfl⟩ | ⟨_, first'⟩
      · exact Bool.noConfusion open₁
      · rcases cases j later foundLater with ⟨_, rfl⟩ | ⟨_, later'⟩
        · exact Bool.noConfusion open₂
        · exact h.singleFlight i j first later less first' later' open₁ open₂ same
    leaders := by
      intro index handle other found role
      rw [s.handles] at found
      exact s.length ▸ h.leaders index handle other found role
    joins := by
      intro index handle other found role
      rw [s.handles] at found
      obtain ⟨there, endpoint, joined⟩ := h.joins index handle other found role
      by_cases same : other = ref
      · subst same
        obtain rfl := Option.some.inj (s.before.symm.trans joined.found)
        exact ⟨settledRecord record settlement, endpoint, role, s.after, joined.named,
          joined.normal, joined.allowed⟩
      · exact ⟨there, endpoint, role, (s.others other same).trans joined.found, joined.named,
          joined.normal, joined.allowed⟩
    waiters := by
      intro index waiter found
      rw [s.waiters] at found
      rw [s.handles]
      exact h.waiters index waiter found
    told := by
      intro index waiter handle other value found named role known
      rw [s.waiters] at found
      rw [s.handles] at named
      rw [s.registry]
      rcases cases other value known with ⟨rfl, rfl⟩ | ⟨_, older⟩
      · have idle := (h.told index waiter handle other record found named role s.before).1 once
        exact ⟨fun _ => idle, fun _ _ _ _ => idle.imp_right Or.inl⟩
      · exact h.told index waiter handle other value found named role older }

/-- A dial that was settled, or was never begun, is left alone. -/
theorem settleDial_of_settled {settlement : DialSettlement}
    (settled : ∀ record, pool.records[ref]? = some record → record.settled) :
    pool.settleDial ref settlement = pool := by
  unfold settleDial
  split
  · rfl
  · next record found => rw [if_pos (settled record found)]

theorem settleDial_inv {settlement : DialSettlement} (h : DialInv pool)
    (resolvable : ∀ transport, settlement = .resolve transport →
      transport < pool.registry.endpoints.length) :
    DialInv (pool.settleDial ref settlement) := by
  by_cases open_ : ∃ record, pool.records[ref]? = some record ∧ record.settled = false
  · obtain ⟨record, found, unsettled⟩ := open_
    exact (settleDial_settles h found unsettled).inv h resolvable
  · rw [settleDial_of_settled]
    · exact h
    · intro record found
      by_contra unsettled
      exact open_ ⟨record, found, Bool.not_eq_true _ ▸ unsettled⟩

theorem settleDial_reject {message : JsString} (h : DialInv pool) :
    DialInv (pool.settleDial ref (.reject message)) :=
  settleDial_inv h fun _ wrong => DialSettlement.noConfusion wrong

theorem failTransportDial_inv {handle : ℕ} {reason : DialFailure} (h : DialInv pool) :
    DialInv (pool.failTransportDial handle reason) := by
  unfold failTransportDial
  split
  · exact h
  · exact settleDial_reject h

theorem bound_of_healthy {transport : TransportRef}
    (healthy : pool.isHealthy (some transport)) :
    transport < pool.registry.endpoints.length := by
  unfold isHealthy at healthy
  cases found : pool.registry.transport? transport with
  | none =>
    rw [bind_some, found] at healthy
    exact Bool.noConfusion healthy
  | some t =>
    unfold TransportRegistry.endpoints
    rw [length_map]
    exact (List.getElem?_eq_some_iff.mp found).1

theorem completeTransportDial_inv {handle : ℕ} {transport : Option TransportRef}
    (h : DialInv pool) : DialInv (pool.completeTransportDial handle transport) := by
  unfold completeTransportDial
  split
  · exact h
  · split
    · split
      · next transport healthy =>
        apply settleDial_inv h
        intro other same
        exact DialSettlement.resolve.inj same ▸ bound_of_healthy healthy
      · exact failTransportDial_inv h
    · exact failTransportDial_inv h

theorem failAllPendingDials_inv {reason : JsString} (h : DialInv pool) :
    DialInv (pool.failAllPendingDials reason) := by
  unfold failAllPendingDials
  generalize pool.pendingDialsByEndpoint.values.flatten = refs
  induction refs generalizing pool with
  | nil => exact h
  | cons ref rest ih => exact ih (settleDial_reject h)

variable {M : Type}

theorem beginTransportDial_inv {digests : EndpointDigests M}
    {endpoint : Option (ConnectionEndpoint M)} {kind : ReuseKind} (h : DialInv pool) :
    DialInv (pool.beginTransportDial digests endpoint kind) := by
  unfold beginTransportDial
  dsimp only
  generalize shape : endpoint.bind (normalizeEndpoint digests) = normalized
  have looked : DialInv { pool with
      registry := (pool.registry.findTransportByEndpoint normalized kind).1 } :=
    h.registryMoves ((TransportRegistry.findTransportByEndpoint_endpoints _ _ _).trans
      (append_nil _).symm)
  split
  · apply giveHandle_inv looked
    · exact fun _ wrong => CoordinationRole.noConfusion wrong
    · exact fun _ wrong => CoordinationRole.noConfusion wrong
  · cases normalized with
    | none => exact looked
    | some endpoint =>
      dsimp only
      have normal : endpoint.Normalized := by
        obtain ⟨argument, _, same⟩ := bind_eq_some_iff.mp shape
        exact normalizeEndpoint_normalized same
      rw [normal.again digests]
      dsimp only
      split
      · next ref found =>
        have chosen := find?_some found
        have mem := mem_of_find?_eq_some found
        obtain ⟨record, there, unsettled, _⟩ := looked.pendingRecord _ ref mem
        dsimp only at chosen
        rw [there] at chosen
        simp only [unsettled, Bool.not_false, Bool.true_and] at chosen
        apply giveHandle_inv looked
        · exact fun _ wrong => CoordinationRole.noConfusion wrong
        · intro other same
          obtain rfl := CoordinationRole.join.inj same
          refine ⟨record, endpoint, rfl, there, rfl, normal, ?_⟩
          exact (allowsReuseAgain_eq normal (looked.normal ref record there) kind).symm.trans chosen
      · next missing =>
        have alone : ∀ (ref : DialRef) (record : DialRecord),
            ref ∈ pool.pendingAt endpoint.key → pool.records[ref]? = some record →
            record.settled = false →
            endpointAllowsReuse endpoint record.endpoint kind = false := by
          intro ref record mem there unsettled
          have refused := find?_eq_none.mp missing ref mem
          dsimp only at refused
          rw [there] at refused
          simp only [unsettled, Bool.not_false, Bool.true_and] at refused
          rw [allowsReuseAgain_eq normal (h.normal ref record there)] at refused
          exact Bool.eq_false_iff.mpr refused
        have added := addRecord_inv kind looked normal alone
        apply giveHandle_inv added
        · intro ref same
          obtain rfl := CoordinationRole.leader.inj same
          change _ < (pool.records ++ [_]).length
          rw [length_append]
          exact Nat.lt_succ_self _
        · exact fun _ wrong => CoordinationRole.noConfusion wrong

theorem waitForTransportDial_inv {handle : ℕ} {signal : Option Bool} (h : DialInv pool) :
    DialInv (pool.waitForTransportDial handle signal) := by
  unfold waitForTransportDial
  split
  · exact h
  · next found =>
    apply addWaiter_inv h found
    exact fun _ wrong => CoordinationRole.noConfusion wrong
  · next found =>
    apply addWaiter_inv h found
    intro _ _
    dsimp only
    split
    · exact Or.inr rfl
    · exact Or.inl rfl

theorem abortSignal_inv {index : ℕ} (h : DialInv pool) : DialInv (pool.abortSignal index) := by
  unfold abortSignal
  split
  · split
    · apply tellWaiter_inv h
      exact fun _ _ _ _ _ _ _ _ =>
        ⟨fun _ => Or.inr rfl, fun _ _ _ _ => Or.inr (Or.inl rfl)⟩
    · exact h
  · exact h

theorem validateTransport_joined {digests : EndpointDigests M} {handle : Coordination}
    {ref : DialRef} {record : DialRecord} {endpoint : SshEndpoint} {transport : TransportRef}
    (joined : Joined pool.records handle ref record endpoint)
    (normal : record.endpoint.Normalized)
    (same : pool.registry.endpoints[transport]? = some (some record.endpoint)) :
    pool.validateTransport digests handle transport = .received transport := by
  rw [TransportRegistry.endpoints_get?] at same
  obtain ⟨t, found, here⟩ := map_eq_some_iff.mp same
  unfold validateTransport
  rw [joined.named, found, bind_some, here]
  dsimp only
  rw [allowsReuseAgain_eq joined.normal normal, if_pos joined.allowed]

theorem deliver_inv {digests : EndpointDigests M} {index : ℕ} (h : DialInv pool) :
    DialInv (pool.deliver digests index) := by
  unfold deliver
  split
  · exact h
  · next waiter found =>
    split
    · exact h
    · next handle named =>
      split
      · exact h
      · next record settledRecord =>
        obtain ⟨ref, given, there⟩ := bind_eq_some_iff.mp settledRecord
        have only : ∀ (other : DialWaiter) (its : Coordination) (dial : DialRef)
            (value : DialRecord), pool.waiters[index]? = some other →
            pool.handles[other.handle]? = some its → its.role = .join dial →
            pool.records[dial]? = some value →
            value = record ∧ ∃ endpoint, Joined pool.records handle dial record endpoint := by
          intro other its dial value found' named' role known
          obtain rfl := Option.some.inj (found.symm.trans found')
          obtain rfl := Option.some.inj (named.symm.trans named')
          rw [role] at given
          obtain rfl := Option.some.inj given
          obtain rfl := Option.some.inj (there.symm.trans known)
          obtain ⟨value, endpoint, joined⟩ := h.joins _ handle dial named role
          obtain rfl := Option.some.inj (joined.found.symm.trans there)
          exact ⟨rfl, endpoint, joined⟩
        split
        · exact h
        · next transport rest settled =>
          apply tellWaiter_inv h
          intro other its dial value found' named' role known
          obtain ⟨rfl, endpoint, joined⟩ := only other its dial value found' named' role known
          refine ⟨fun nothing => absurd (nothing.symm.trans settled).symm (cons_ne_nil _ _), ?_⟩
          intro transport' rest' settled' same
          obtain ⟨resolved, _⟩ := List.cons.inj (settled'.symm.trans settled)
          obtain rfl := DialSettlement.resolve.inj resolved
          rw [validateTransport_joined joined (h.normal dial value known) same]
          exact Or.inr (Or.inr rfl)
        · next message rest settled =>
          apply tellWaiter_inv h
          intro other its dial value found' named' role known
          obtain ⟨rfl, _⟩ := only other its dial value found' named' role known
          refine ⟨fun nothing => absurd (nothing.symm.trans settled).symm (cons_ne_nil _ _), ?_⟩
          intro transport' rest' settled' _
          obtain ⟨resolved, _⟩ := List.cons.inj (settled'.symm.trans settled)
          exact DialSettlement.noConfusion resolved

/-! ## Runs -/

variable {randomUUID : ℕ → JsString}

theorem step_inv (h : DialInv pool) (event : DialEvent M) :
    DialInv (pool.step randomUUID event) := by
  cases event with
  | registry event =>
    obtain ⟨more, grown⟩ : ∃ more, (pool.registry.step randomUUID event).endpoints =
        pool.registry.endpoints ++ more := TransportRegistry.step_endpoints pool.registry event
    exact h.registryMoves grown
  | begin digests endpoint kind => exact beginTransportDial_inv h
  | complete handle transport => exact completeTransportDial_inv h
  | fail handle reason => exact failTransportDial_inv h
  | failAll reason => exact failAllPendingDials_inv h
  | wait handle signal => exact waitForTransportDial_inv h
  | abortSignal waiter => exact abortSignal_inv h
  | deliver digests waiter => exact deliver_inv h

theorem run_inv (h : DialInv pool) (events : List (DialEvent M)) :
    DialInv (pool.run randomUUID events) := by
  induction events generalizing pool with
  | nil => exact h
  | cons event rest ih => exact ih (step_inv h event)

end DialPool

end Netcatty
