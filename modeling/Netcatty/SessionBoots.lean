import Mathlib.Order.Lattice
import Mathlib.Order.Defs.LinearOrder
import Mathlib.Data.Set.Insert

/-!
Overlapping terminal starts that share one session id.

The maps of the source are modelled by their entries for this id, which is not empty.
A boot epoch is any finite number; whatever else a caller passes is `none`.
-/

namespace Netcatty.SessionBoots

/-- A start that has not claimed the registry yet. -/
structure PendingBoot (E : Type) where
  controller : ℕ
  bootEpoch : Option E

structure Session (E : Type) where
  bootEpoch : Option E := none
  supersededByBootEpoch : Option E := none
  closed : Bool := false
  displacedDisposed : Bool := false

structure BootRegistry (E : Type) where
  pendingBootAborts : Option (PendingBoot E)
  latestBootEpoch : Option E
  /-- The session object in the slot. -/
  holder : Option ℕ
  sessions : ℕ → Session E
  /-- How many controllers were made. -/
  controllers : ℕ
  /-- The controllers that were aborted. -/
  aborted : List ℕ
  /-- The session objects whose resources were torn down. -/
  disposed : List ℕ

inductive ClaimResult where
  | ok (displaced : Option ℕ)
  | superseded
  deriving DecidableEq

namespace BootRegistry

variable {E : Type} [LinearOrder E] (registry : BootRegistry E)

/-- `Math.max(latest ?? normalized, normalized)`, where there is an epoch. -/
def noteEpoch (latest bootEpoch : Option E) : Option E :=
  match bootEpoch with
  | none => latest
  | some normalized => some (max (latest.getD normalized) normalized)

variable (bootEpoch : Option E)

def registerPendingBootAbort : BootRegistry E :=
  { registry with
    aborted := registry.aborted ++ (registry.pendingBootAborts.map (·.controller)).toList
    controllers := registry.controllers + 1
    latestBootEpoch := noteEpoch registry.latestBootEpoch bootEpoch
    pendingBootAborts := some ⟨registry.controllers, bootEpoch⟩ }

/-- Is the first epoch known to be above the second? -/
def isAbove (left right : Option E) : Bool :=
  match left, right with
  | some left, some right => right < left
  | _, _ => false

def abortPendingBoot : Bool × BootRegistry E :=
  match registry.pendingBootAborts with
  | none => (false, registry)
  | some pending =>
    if isAbove pending.bootEpoch bootEpoch then (false, registry)
    else (true, { registry with
      aborted := registry.aborted ++ [pending.controller], pendingBootAborts := none })

def hasNewerBootEpoch : Bool := isAbove registry.latestBootEpoch bootEpoch

def forgetBootEpoch : BootRegistry E :=
  if isAbove registry.latestBootEpoch bootEpoch then registry
  else { registry with latestBootEpoch := none }

def clearPendingBootAbort (controller : ℕ) : BootRegistry E :=
  if registry.pendingBootAborts.any (·.controller = controller) then
    { registry with pendingBootAborts := none }
  else registry

def setSession (session : ℕ) (value : Session E) : BootRegistry E :=
  { registry with sessions := Function.update registry.sessions session value }

def disposeDisplacedSessionResources (session : ℕ) : BootRegistry E :=
  if (registry.sessions session).displacedDisposed then registry
  else
    { registry.setSession session { registry.sessions session with displacedDisposed := true } with
      disposed := registry.disposed ++ [session] }

def takeSlot (session : ℕ) (bootEpoch : Option E) : BootRegistry E :=
  { registry with
    sessions := Function.update registry.sessions session
      { registry.sessions session with
        bootEpoch := bootEpoch.or (registry.sessions session).bootEpoch }
    latestBootEpoch := noteEpoch registry.latestBootEpoch bootEpoch
    holder := some session }

def claimSessionSlot (session : ℕ) (bootEpoch : Option E) : ClaimResult × BootRegistry E :=
  match registry.holder with
  | none => (.ok none, registry.takeSlot session bootEpoch)
  | some existing =>
    if existing = session then (.ok none, registry.takeSlot session bootEpoch)
    else if isAbove (registry.sessions existing).bootEpoch bootEpoch then (.superseded, registry)
    else if isAbove bootEpoch (registry.sessions existing).bootEpoch then
      let marked := registry.setSession existing
        { registry.sessions existing with supersededByBootEpoch := bootEpoch, closed := true }
      (.ok (some existing),
        (marked.takeSlot session bootEpoch).disposeDisplacedSessionResources existing)
    else (.ok none, registry.takeSlot session bootEpoch)

end BootRegistry

/-! ## Runs -/

/-- What happens to the session id; a start's session object has the start's number. -/
inductive BootAction (E : Type) where
  | register (start : ℕ)
  | clear (controller : ℕ)
  | abort (bootEpoch : Option E)
  | claim (start : ℕ)
  | forget (bootEpoch : Option E)
  | remove
  deriving DecidableEq

section Runs

variable {E : Type} [LinearOrder E] (epochOf : ℕ → E)

def BootRegistry.step (registry : BootRegistry E) : BootAction E → BootRegistry E
  | .register start => registry.registerPendingBootAbort (some (epochOf start))
  | .clear controller => registry.clearPendingBootAbort controller
  | .abort bootEpoch => (registry.abortPendingBoot bootEpoch).2
  | .claim start => (registry.claimSessionSlot start (some (epochOf start))).2
  | .forget bootEpoch => registry.forgetBootEpoch bootEpoch
  | .remove => { registry with holder := none }

def emptyRegistry : BootRegistry E where
  pendingBootAborts := none
  latestBootEpoch := none
  holder := none
  sessions := fun _ => {}
  controllers := 0
  aborted := []
  disposed := []

def run (actions : List (BootAction E)) : BootRegistry E :=
  actions.foldl (BootRegistry.step epochOf) emptyRegistry

def knownStep (registry : BootRegistry E) (known : Set E) : BootAction E → Set E
  | .register start => insert (epochOf start) known
  | .claim start =>
    if (registry.claimSessionSlot start (some (epochOf start))).1 = .superseded then known
    else insert (epochOf start) known
  | .forget none => ∅
  | .forget (some bootEpoch) => {epoch ∈ known | bootEpoch < epoch}
  | _ => known

def knownFrom (registry : BootRegistry E) (known : Set E) : List (BootAction E) → Set E
  | [] => known
  | action :: actions =>
    knownFrom (registry.step epochOf action) (knownStep epochOf registry known action) actions

def knownEpochs (actions : List (BootAction E)) : Set E := knownFrom epochOf emptyRegistry ∅ actions

end Runs

end Netcatty.SessionBoots
