import Mathlib.Data.Rat.Defs
import Netcatty.JsValue

/-!
The layout tree of a workspace.

Panes hold a session; a split has children side by side and a share of the room for each.
The ids of the nodes are left out: the operations on the layout only mint or carry them.
-/

namespace Netcatty.Workspace

inductive SplitDirection where
  | horizontal
  | vertical
  deriving DecidableEq

inductive SplitPosition where
  | left
  | right
  | top
  | bottom
  deriving DecidableEq

structure SplitHint where
  direction : SplitDirection
  position : SplitPosition
  targetSessionId : Option JsString

inductive WorkspaceNode where
  | pane (sessionId : JsString)
  | split (direction : SplitDirection) (children : List WorkspaceNode) (sizes : Option (List ℚ))

namespace WorkspaceNode

@[induction_eliminator]
theorem inductOn {P : WorkspaceNode → Prop} (node : WorkspaceNode)
    (pane : ∀ sessionId, P (pane sessionId))
    (split : ∀ direction children sizes, (∀ child ∈ children, P child) →
      P (split direction children sizes)) : P node :=
  @WorkspaceNode.rec P (fun children => ∀ child ∈ children, P child) pane split
    (fun _ mem => absurd mem List.not_mem_nil)
    (fun _ _ first others child mem => by
      rcases List.mem_cons.mp mem with same | later
      · exact same ▸ first
      · exact others child later) node

end WorkspaceNode

open WorkspaceNode

mutual

def collectSessionIds : WorkspaceNode → List JsString
  | pane sessionId => [sessionId]
  | split _ children _ => collectFromChildren children

/-- `children.flatMap(collectSessionIds)`. -/
def collectFromChildren : List WorkspaceNode → List JsString
  | [] => []
  | child :: children => collectSessionIds child ++ collectFromChildren children

end

def createEmptyWorkspaceRoot : WorkspaceNode := split .vertical [] (some [])

/-! ## Removing a pane -/

/-- The shares of a split's children, where they are recorded for every child. -/
def sizeList (count : ℕ) (sizes : Option (List ℚ)) : List ℚ :=
  match sizes with
  | some list => if list.length = count then list else List.replicate count (1 / count)
  | none => List.replicate count (1 / count)

/-- `total || 1`. -/
def orOne (total : ℚ) : ℚ := if total = 0 then 1 else total

/-- A split with what is left of its children. -/
def rebuildSplit (direction : SplitDirection) (sizes : Option (List ℚ))
    (pruned : List (Option WorkspaceNode)) : Option WorkspaceNode :=
  let next := (pruned.zip (sizeList pruned.length sizes)).filterMap fun entry =>
    entry.1.map fun child => (child, entry.2)
  let nextChildren := next.map (·.1)
  let nextSizes := next.map (·.2)
  match nextChildren with
  | [] => none
  | [child] => some child
  | _ =>
    if pruned.any Option.isNone then
      some (split direction nextChildren (some (nextChildren.map fun _ => 1 / nextChildren.length)))
    else
      let total := orOne nextSizes.sum
      some (split direction nextChildren (some (nextSizes.map (· / total))))

mutual

def pruneWorkspaceNode (targetSessionId : JsString) : WorkspaceNode → Option WorkspaceNode
  | pane sessionId => if sessionId = targetSessionId then none else some (pane sessionId)
  | split direction children sizes =>
    rebuildSplit direction sizes (pruneChildren targetSessionId children)

def pruneChildren (targetSessionId : JsString) : List WorkspaceNode → List (Option WorkspaceNode)
  | [] => []
  | child :: children =>
    pruneWorkspaceNode targetSessionId child :: pruneChildren targetSessionId children

end

/-! ## Adding a pane -/

/-- Where a caller names no direction it is vertical. -/
def appendPaneToWorkspaceRoot (root : WorkspaceNode) (sessionId : JsString)
    (direction : SplitDirection) : WorkspaceNode :=
  if sessionId ∈ collectSessionIds root then root
  else if collectSessionIds root = [] then pane sessionId
  else
    let wrapped := split direction [root, pane sessionId] (some [1 / 2, 1 / 2])
    match root with
    | pane _ => wrapped
    | split rootDirection children _ =>
      if rootDirection = direction then
        let nextChildren := children ++ [pane sessionId]
        split direction nextChildren (some (nextChildren.map fun _ => 1 / nextChildren.length))
      else wrapped

def placed {α : Type} (position : SplitPosition) (new old : α) : List α :=
  if position = .left ∨ position = .top then [new, old] else [old, new]

def createSplitFromPane (existingPane newPane : WorkspaceNode) (hint : SplitHint) : WorkspaceNode :=
  split hint.direction (placed hint.position newPane existingPane) (some [1, 1])

mutual

/-- `insertPane`, the inner function of `insertPaneIntoWorkspace`. -/
def insertPane (newPane : WorkspaceNode) (hint : SplitHint) (target : JsString) :
    WorkspaceNode → WorkspaceNode
  | pane sessionId =>
    if sessionId = target then createSplitFromPane (pane sessionId) newPane hint
    else pane sessionId
  | split direction children sizes =>
    split direction (insertPaneIntoChildren newPane hint target children) sizes

def insertPaneIntoChildren (newPane : WorkspaceNode) (hint : SplitHint) (target : JsString) :
    List WorkspaceNode → List WorkspaceNode
  | [] => []
  | child :: children =>
    insertPane newPane hint target child :: insertPaneIntoChildren newPane hint target children

end

/-- The target a hint names; the empty text names none. -/
def SplitHint.target (hint : SplitHint) : Option JsString :=
  hint.targetSessionId.filter fun target => !target.isEmpty

def insertPaneIntoWorkspace (root : WorkspaceNode) (sessionId : JsString) (hint : SplitHint) :
    WorkspaceNode :=
  if sessionId ∈ collectSessionIds root then root
  else if collectSessionIds root = [] then pane sessionId
  else
    match hint.target with
    | none => split hint.direction (placed hint.position (pane sessionId) root) (some [1, 1])
    | some target => insertPane (pane sessionId) hint target root

/-! ## Moving a pane -/

/-- The drops that change nothing. -/
def isNoOp (root : WorkspaceNode) (memberSessionId : JsString) (hint : SplitHint) : Bool :=
  let paneSessionIds := collectSessionIds root
  !paneSessionIds.contains memberSessionId || paneSessionIds.length ≤ 1 ||
    hint.targetSessionId = some memberSessionId ||
    hint.target.any fun target => !paneSessionIds.contains target

def movePaneInWorkspace (root : WorkspaceNode) (memberSessionId : JsString) (hint : SplitHint) :
    WorkspaceNode :=
  if isNoOp root memberSessionId hint then root
  else
    match pruneWorkspaceNode memberSessionId root with
    | none => root
    | some prunedRoot => insertPaneIntoWorkspace prunedRoot memberSessionId hint

/-! ## New workspaces -/

/-- The root of `createWorkspaceFromSessions`. -/
def createWorkspaceFromSessions (baseSessionId joiningSessionId : JsString) (hint : SplitHint) :
    WorkspaceNode :=
  split hint.direction (placed hint.position (pane joiningSessionId) (pane baseSessionId))
    (some [1, 1])

/-- The root of `createWorkspaceFromSessionIds`, which throws where there are no sessions. -/
def createWorkspaceFromSessionIds : List JsString → Option WorkspaceNode
  | [] => none
  | [sessionId] => some (pane sessionId)
  | sessionIds => some (split .vertical (sessionIds.map pane) (some (sessionIds.map fun _ => 1)))

/-! ## Copies -/

mutual

def cloneWorkspaceTree (sessionIdMap : JsString → Option JsString) : WorkspaceNode → WorkspaceNode
  | pane sessionId => pane ((sessionIdMap sessionId).getD sessionId)
  | split direction children sizes => split direction (cloneChildren sessionIdMap children) sizes

def cloneChildren (sessionIdMap : JsString → Option JsString) :
    List WorkspaceNode → List WorkspaceNode
  | [] => []
  | child :: children =>
    cloneWorkspaceTree sessionIdMap child :: cloneChildren sessionIdMap children

end

end Netcatty.Workspace
