import Clemvion.Editor.Canvas
import Mathlib.Logic.Function.Basic

/-!
# ContainerAssignment — which container a node belongs to

`containerId` is metadata that the store keeps in step with the wires: from scratch by
`deriveContainerAssignments`, and for one new wire by `propagateContainerOnConnect`.
-/

open Clemvion.Js

namespace Clemvion.Editor

/-! ## 1. Nodes -/

/-- `if (containerId)`. -/
def isSet (containerId : Option String) : Bool := containerId.any (· ≠ "")

/-- `nodes.find((n) => n.id === id)`. -/
def findNode (nodes : List EditorNode) (id : String) : Option EditorNode :=
  nodes.find? fun n => n.id = id

def isTrigger (node : EditorNode) : Bool := node.category = some "trigger"

variable (getNodeDefinition : String → Option NodeDefinition)

def isContainerNode (node : EditorNode) : Bool :=
  node.type ≠ "" && (getNodeDefinition node.type).any (·.isContainer)

def applyContainerAssignment (nodes : List EditorNode) (nodeId : String)
    (containerId : Option String) : List EditorNode :=
  match findNode nodes nodeId with
  | none => nodes
  | some child =>
    if isSet containerId && isTrigger child then nodes
    else if child.containerId = containerId then nodes
    else nodes.map fun n => if n.id = nodeId then { n with containerId } else n

/-- The label, or the id of a node that is gone or has none. -/
def labelOf (nodes : List EditorNode) (id : String) : Value :=
  match findNode nodes id with
  | none => .str id
  | some node => match node.label with
    | .undefined | .null => .str id
    | label => label

/-! ## 2. One new wire -/

def isBodyWire (sourceNode : EditorNode) (connection : Connection) : Bool :=
  isContainerNode getNodeDefinition sourceNode &&
    connection.sourceHandle = .str CONTAINER_BODY_HANDLE

def isEmitWire (targetNode : EditorNode) (connection : Connection) : Bool :=
  isContainerNode getNodeDefinition targetNode &&
    connection.targetHandle = .str CONTAINER_EMIT_HANDLE

section Conflict

variable (templateText : Value → String)

def conflictMessage (nodes : List EditorNode) (childId otherId : String) : String :=
  let other := templateText (labelOf nodes otherId)
  let child := templateText (labelOf nodes childId)
  s!"Cannot connect: \"{child}\" is already a body child of \"{other}\". Detach it from \"{other}\" first."

/-- The container other than `containerId` that a node is in. -/
def otherContainer (node : EditorNode) (containerId : String) : Option String :=
  node.containerId.filter fun c => c ≠ "" && c ≠ containerId

def detectContainerConflict (nodes : List EditorNode) (connection : Connection) : Option String :=
  match findNode nodes connection.source, findNode nodes connection.target with
  | some sourceNode, some targetNode =>
    let bodyConflict := if isBodyWire getNodeDefinition sourceNode connection then
        otherContainer targetNode sourceNode.id
      else none
    let emitConflict := if isEmitWire getNodeDefinition targetNode connection then
        otherContainer sourceNode targetNode.id
      else none
    match bodyConflict, emitConflict with
    | some other, _ => some (conflictMessage templateText nodes targetNode.id other)
    | none, some other => some (conflictMessage templateText nodes sourceNode.id other)
    | none, none => none
  | _, _ => none

end Conflict

/-- The three rules: what the two ends of a wire are assigned. -/
def nextContainers (sourceNode targetNode : EditorNode) (connection : Connection)
    (source target : Option String) : Option String × Option String :=
  let target' := if isBodyWire getNodeDefinition sourceNode connection then some sourceNode.id else target
  let source' := if isEmitWire getNodeDefinition targetNode connection then some targetNode.id else source
  if !isContainerNode getNodeDefinition sourceNode && !isContainerNode getNodeDefinition targetNode &&
      source' ≠ target' then
    if isSet source' && !isSet target' then (source', source')
    else if !isSet source' && isSet target' then (target', target')
    else (source', target')
  else (source', target')

def propagateContainerOnConnect (nodes : List EditorNode) (connection : Connection) :
    List EditorNode :=
  match findNode nodes connection.source, findNode nodes connection.target with
  | some sourceNode, some targetNode =>
    let next := nextContainers getNodeDefinition sourceNode targetNode connection
      sourceNode.containerId targetNode.containerId
    let result := if next.1 ≠ sourceNode.containerId then
        applyContainerAssignment nodes sourceNode.id next.1
      else nodes
    if next.2 ≠ targetNode.containerId then applyContainerAssignment result targetNode.id next.2
    else result
  | _, _ => nodes

/-! ## 3. All wires, from scratch -/

/-- `nodeMap.get(id)`: the last node with this id. -/
def lastNode (nodes : List EditorNode) (id : String) : Option EditorNode :=
  nodes.reverse.find? fun n => n.id = id

/-- The node at an end of a wire; an empty id is no node. -/
def wireNode (nodes : List EditorNode) (id : String) : Option EditorNode :=
  if id = "" then none else lastNode nodes id

/-- Assignments by node id; a node without one reads as `null`. -/
abbrev Assignment := String → Option String

/-- Whether something changed, and the assignments after the wire. -/
def propagateContainerInMap (nodes : List EditorNode) (containerIdById : Assignment)
    (connection : Connection) : Bool × Assignment :=
  match wireNode nodes connection.source, wireNode nodes connection.target with
  | some sourceNode, some targetNode =>
    let prevSource := containerIdById sourceNode.id
    let prevTarget := containerIdById targetNode.id
    let next := nextContainers getNodeDefinition sourceNode targetNode connection prevSource prevTarget
    -- a trigger is a member of no container
    let nextSource := if isTrigger sourceNode then prevSource else next.1
    let nextTarget := if isTrigger targetNode then prevTarget else next.2
    let map := if nextSource ≠ prevSource then
        Function.update containerIdById sourceNode.id nextSource
      else containerIdById
    let map := if nextTarget ≠ prevTarget then Function.update map targetNode.id nextTarget else map
    (nextSource ≠ prevSource || nextTarget ≠ prevTarget, map)
  | _, _ => (false, containerIdById)

/-- The wire of an edge, as `deriveContainerAssignments` reads it. -/
def EditorEdge.connection (e : EditorEdge) : Connection where
  source := e.source
  sourceHandle := coalesce e.sourceHandle .null
  target := e.target
  targetHandle := coalesce e.targetHandle .null

def propagatePass (nodes : List EditorNode) (edges : List EditorEdge) (containerIdById : Assignment) :
    Bool × Assignment :=
  edges.foldl (fun pass e =>
    let step := propagateContainerInMap getNodeDefinition nodes pass.2 e.connection
    (pass.1 || step.1, step.2)) (false, containerIdById)

def propagatePasses (nodes : List EditorNode) (edges : List EditorEdge) : Nat → Assignment → Assignment
  | 0, containerIdById => containerIdById
  | passes + 1, containerIdById =>
    let pass := propagatePass getNodeDefinition nodes edges containerIdById
    if pass.1 then propagatePasses nodes edges passes pass.2 else pass.2

def maxPasses : Nat := 16

def deriveContainerAssignments (nodes : List EditorNode) (edges : List EditorEdge) :
    List EditorNode :=
  let containerIdById := propagatePasses getNodeDefinition nodes edges maxPasses fun _ => none
  nodes.map fun n =>
    if n.containerId = containerIdById n.id then n else { n with containerId := containerIdById n.id }

end Clemvion.Editor
