import Mathlib.Algebra.Order.Ring.Rat
import Mathlib.Data.Rat.Floor
import Netcatty.JsValue
import Netcatty.OrderedMap

/-!
The gate that holds tool calls until the user approves them.

`requestApproval` returns a promise and keeps an entry under the tool call's id.
The entry's `resolve` callback grows when another request joins it, and the
request that made the entry owns a timer that denies it.
-/

namespace Netcatty.Approvals

/-- A promise, by the order of the calls to `requestApproval`. -/
abbrev PromiseRef := ℕ

def CATTY_APPROVAL_TIMEOUT_MS : ℚ := 5 * 60 * 1000
def CATTY_APPROVAL_HARD_DEADLINE_MAX_MS : ℚ := 30 * 60 * 1000

structure CattyApprovalDeadlines where
  idleMs : ℚ
  hardDeadlineMs : ℚ

/-- A time-out that is `Infinity` or `NaN` is `none`. -/
def resolveCattyApprovalDeadlines (timeoutMs : Option ℚ) : CattyApprovalDeadlines :=
  let idleMs := max 0 (timeoutMs.getD CATTY_APPROVAL_TIMEOUT_MS)
  let scaled := idleMs * 3
  ⟨idleMs, max idleMs (min scaled CATTY_APPROVAL_HARD_DEADLINE_MAX_MS)⟩

/-- The delay `setTimeout` reads from its argument, a `long`. -/
def timerDelay (ms : ℚ) : ℚ := max 0 (⌊ms⌋.bmod 4294967296 : ℤ)

theorem timerDelay_le {ms : ℚ} (positive : 0 < ms) : timerDelay ms ≤ ms := by
  have floored : (⌊ms⌋ : ℚ) ≤ ms := Int.floor_le ms
  have nonneg : 0 ≤ ⌊ms⌋ := Int.floor_nonneg.mpr positive.le
  have bounded : ⌊ms⌋.bmod 4294967296 ≤ ⌊ms⌋ := by
    rw [Int.bmod_def]
    split <;> omega
  have cast : ((⌊ms⌋.bmod 4294967296 : ℤ) : ℚ) ≤ ⌊ms⌋ := by exact_mod_cast bounded
  exact max_le positive.le (cast.trans floored)

structure ApprovalRequest where
  toolCallId : JsString
  chatSessionId : Option JsString

/-- A `resolve` callback of an entry. -/
inductive Resolver where
  /-- `wrappedResolve` of the call that returned the promise. -/
  | wrapped (promise : PromiseRef)
  /-- The callback of `registerExternalApproval`, or the bridge's empty one. -/
  | external
  /-- `previousResolve`, and then the promise of the request that joined. -/
  | joined (previousResolve : Resolver) (promise : PromiseRef)

namespace Resolver

/-- The promises the callback settles, in its order. -/
def promises : Resolver → List PromiseRef
  | wrapped promise => [promise]
  | external => []
  | joined previousResolve promise => previousResolve.promises ++ [promise]

/-- The call whose `wrappedResolve` the callback started from. -/
def base : Resolver → Option PromiseRef
  | wrapped promise => some promise
  | external => none
  | joined previousResolve _ => previousResolve.base

theorem base_mem {resolve : Resolver} {promise : PromiseRef}
    (owner : resolve.base = some promise) : promise ∈ resolve.promises := by
  induction resolve with
  | wrapped other => simp_all [base, promises]
  | external => simp [base] at owner
  | joined previousResolve other ih => simp [promises, ih owner]

end Resolver

structure PendingApproval where
  resolve : Resolver
  request : ApprovalRequest
  /-- The call whose timer `cancelTimeout` arms again. -/
  cancelTimeout : Option PromiseRef

/-- The variables of the executor in `requestApproval`, without its timer. -/
structure ApprovalScope where
  toolCallId : JsString
  idleMs : ℚ
  hardDeadlineAt : ℚ

/-- One call of a promise's `resolve`. -/
structure Settlement where
  promise : PromiseRef
  approved : Bool
  deriving DecidableEq

structure ApprovalGate where
  now : ℚ
  pendingApprovals : OrderedMap JsString PendingApproval
  /-- The tool call each promise was returned for. -/
  promises : List JsString
  /-- The calls of the promises' `resolve`, oldest first. -/
  settlements : List Settlement
  scopes : OrderedMap PromiseRef ApprovalScope
  /-- When the timer of a call is due. -/
  timers : OrderedMap PromiseRef ℚ

namespace ApprovalGate

def initial (now : ℚ) : ApprovalGate := ⟨now, .empty, [], [], .empty, .empty⟩

variable (gate : ApprovalGate)

/-- What a promise's `resolve` was called with. -/
def outcomes (promise : PromiseRef) : List Bool :=
  (gate.settlements.filter fun settlement => settlement.promise = promise).map (·.approved)

def settle (promise : PromiseRef) (approved : Bool) : ApprovalGate :=
  { gate with settlements := gate.settlements ++ [⟨promise, approved⟩] }

variable (owner : PromiseRef)

def clearTimer : ApprovalGate :=
  { gate with timers := gate.timers.delete owner }

def wrappedResolve (approved : Bool) : ApprovalGate :=
  (gate.clearTimer owner).settle owner approved

/-- A call of an entry's `resolve`. -/
def callResolve (approved : Bool) : Resolver → ApprovalGate
  | .wrapped promise => gate.wrappedResolve promise approved
  | .external => gate
  | .joined previousResolve promise => (callResolve approved previousResolve).settle promise approved

def denyTimedOut (scope : ApprovalScope) : ApprovalGate :=
  match gate.pendingApprovals.get? scope.toolCallId with
  | none => gate
  | some _ =>
    { gate with pendingApprovals := gate.pendingApprovals.delete scope.toolCallId }.wrappedResolve
      owner false

def armTimer (scope : ApprovalScope) (ms : ℚ) : ApprovalGate :=
  let gate := gate.clearTimer owner
  if ms ≤ 0 then gate.denyTimedOut owner scope
  else { gate with timers := gate.timers.set owner (gate.now + timerDelay ms) }

/-- The request that finds no entry: its timer is armed before the entry is set. -/
def openRequest (request : ApprovalRequest) (timeoutMs : Option ℚ) :
    ApprovalGate :=
  let deadlines := resolveCattyApprovalDeadlines timeoutMs
  let scope : ApprovalScope :=
    ⟨request.toolCallId, deadlines.idleMs, gate.now + deadlines.hardDeadlineMs⟩
  let gate := { gate with scopes := gate.scopes.set owner scope }.armTimer owner scope
    deadlines.idleMs
  { gate with
    pendingApprovals := gate.pendingApprovals.set request.toolCallId
      ⟨.wrapped owner, request, some owner⟩ }

/-- `granted` is what the rules in force say of the request. -/
def requestApproval (request : ApprovalRequest) (timeoutMs : Option ℚ) (granted : Bool) :
    ApprovalGate :=
  let promise := gate.promises.length
  let gate := { gate with promises := gate.promises ++ [request.toolCallId] }
  if granted then gate.settle promise true
  else
    match gate.pendingApprovals.get? request.toolCallId with
    | some existing =>
      { gate with
        pendingApprovals := gate.pendingApprovals.set request.toolCallId
          { existing with resolve := .joined existing.resolve promise } }
    | none => gate.openRequest promise request timeoutMs

/-- The `cancelTimeout` of an entry. -/
def rearm (scope : ApprovalScope) : ApprovalGate :=
  let remainingHard := scope.hardDeadlineAt - gate.now
  if remainingHard ≤ 0 then gate.armTimer owner scope 0
  else gate.armTimer owner scope (min scope.idleMs remainingHard)

def timerOf (toolCallId : JsString) : Option (PromiseRef × ApprovalScope) :=
  (gate.pendingApprovals.get? toolCallId).bind fun entry =>
    entry.cancelTimeout.bind fun owner =>
      (gate.scopes.get? owner).map fun scope => (owner, scope)

def cancelApprovalTimeout (toolCallId : JsString) : ApprovalGate :=
  match gate.timerOf toolCallId with
  | none => gate
  | some (owner, scope) => gate.rearm owner scope

/-- An entry leaves the map and its `resolve` is called. -/
def close (approved : Bool) (held : JsString × PendingApproval) : ApprovalGate :=
  { gate with pendingApprovals := gate.pendingApprovals.delete held.1 }.callResolve approved
    held.2.resolve

def resolveApproval (toolCallId : JsString) (approved : Bool) : ApprovalGate :=
  match gate.pendingApprovals.get? toolCallId with
  | none => gate
  | some entry => gate.close approved (toolCallId, entry)

/-- The entry both `registerExternalApproval` and the bridge of the main process make. -/
def registerExternalApproval (request : ApprovalRequest) : ApprovalGate :=
  if gate.pendingApprovals.has request.toolCallId then gate
  else
    { gate with
      pendingApprovals := gate.pendingApprovals.set request.toolCallId ⟨.external, request, none⟩ }

def clearPendingApprovalIds (toolCallIds : List JsString) : ApprovalGate :=
  { gate with
    pendingApprovals := toolCallIds.foldl OrderedMap.delete gate.pendingApprovals }

def clearAllPendingApprovals (chatSessionId : Option JsString) : ApprovalGate :=
  match chatSessionId.filter (· ≠ []) with
  | none =>
    { gate.pendingApprovals.entries.foldl (fun gate held => gate.callResolve false held.2.resolve)
        gate with
      pendingApprovals := .empty }
  | some chat =>
    (gate.pendingApprovals.entries.filter fun held => held.2.request.chatSessionId = some chat).foldl
      (close · false) gate

def timerFires : ApprovalGate :=
  match gate.timers.get? owner, gate.scopes.get? owner with
  | some due, some scope =>
    if due ≤ gate.now then (gate.clearTimer owner).denyTimedOut owner scope else gate
  | _, _ => gate

/-- Time passes. -/
def tick (elapsed : ℚ) : ApprovalGate := { gate with now := gate.now + max 0 elapsed }

end ApprovalGate

/-! ## Runs -/

inductive ApprovalAction where
  | requestApproval (request : ApprovalRequest) (timeoutMs : Option ℚ) (granted : Bool)
  | cancelApprovalTimeout (toolCallId : JsString)
  | resolveApproval (toolCallId : JsString) (approved : Bool)
  | registerExternalApproval (request : ApprovalRequest)
  | clearPendingApprovalIds (toolCallIds : List JsString)
  | clearAllPendingApprovals (chatSessionId : Option JsString)
  | timerFires (owner : PromiseRef)
  | tick (elapsed : ℚ)

namespace ApprovalGate

def step (gate : ApprovalGate) : ApprovalAction → ApprovalGate
  | .requestApproval request timeoutMs granted => gate.requestApproval request timeoutMs granted
  | .cancelApprovalTimeout toolCallId => gate.cancelApprovalTimeout toolCallId
  | .resolveApproval toolCallId approved => gate.resolveApproval toolCallId approved
  | .registerExternalApproval request => gate.registerExternalApproval request
  | .clearPendingApprovalIds toolCallIds => gate.clearPendingApprovalIds toolCallIds
  | .clearAllPendingApprovals chatSessionId => gate.clearAllPendingApprovals chatSessionId
  | .timerFires owner => gate.timerFires owner
  | .tick elapsed => gate.tick elapsed

def run (gate : ApprovalGate) (actions : List ApprovalAction) : ApprovalGate :=
  actions.foldl step gate

end ApprovalGate

end Netcatty.Approvals
