import Clemvion.Js.Json

/-!
# Canvas — nodes, edges and what a connection means

The data of the editor's canvas as the store keeps it, and the small functions of `edge-utils`
that the store calls.  The node definitions come from the server; React Flow's own functions on
nodes and edges belong to that package.  Both are parameters.
-/

open Clemvion.Js

namespace Clemvion.Editor

/-! ## 1. Data -/

structure Position where
  x : Number
  y : Number
  deriving DecidableEq

/-- A node of the canvas with its `data` payload. -/
structure EditorNode where
  id : String
  type : String
  category : Option String := none
  /-- A string, except that the assistant stores whatever truthy value its patch holds. -/
  label : Value
  config : Value
  isDisabled : Bool := false
  containerId : Option String := none
  position : Position
  selected : Bool := false
  deriving DecidableEq

inductive EdgePortType
  | data | error | system | container
  deriving DecidableEq

/-- The port type stands for its colour too. -/
structure EdgeData where
  sourcePort : Value
  portType : EdgePortType
  deriving DecidableEq

/-- A handle is a string or absent, except that the assistant stores whatever its call holds. -/
structure EditorEdge where
  id : String
  source : String
  sourceHandle : Value
  target : String
  targetHandle : Value
  data : EdgeData
  deriving DecidableEq

structure Connection where
  source : String
  sourceHandle : Value
  target : String
  targetHandle : Value
  deriving DecidableEq

structure PortDefinition where
  id : String
  type : EdgePortType
  deriving DecidableEq

structure NodeDefinition where
  category : String
  isContainer : Bool
  outputs : List PortDefinition

inductive NodeChange
  | remove (id : String)
  /-- A change of position, size or selection, or a node that React Flow adds or replaces. -/
  | other (change : Value)
  deriving DecidableEq

inductive EdgeChange
  | remove (id : String)
  | other (change : Value)
  deriving DecidableEq

/-- The functions of the package that draws the canvas. -/
structure ReactFlow where
  addEdge : Connection → EdgeData → List EditorEdge → List EditorEdge
  reconnectEdge : EditorEdge → Connection → List EditorEdge → List EditorEdge
  applyNodeChanges : List NodeChange → List EditorNode → List EditorNode
  applyEdgeChanges : List EdgeChange → List EditorEdge → List EditorEdge

/-! ## 2. Edges -/

/-- `v ?? fallback`. -/
def coalesce (v fallback : Value) : Value :=
  match v with
  | .undefined | .null => fallback
  | v => v

def CONTAINER_BODY_HANDLE : String := "body"

def CONTAINER_EMIT_HANDLE : String := "emit"

variable (getNodeDefinition : String → Option NodeDefinition)

def resolvePortType (sourceHandle : Value) (sourceNodeType : String) : EdgePortType :=
  if !sourceHandle.truthy then .data
  else if sourceHandle = .str "body" then .container
  else if sourceHandle = .str "error" then .error
  else if sourceNodeType = "ai_agent" then
    if sourceHandle = .str "out" || sourceHandle = .str "user_ended" ||
        sourceHandle = .str "max_turns" then .system
    else .data
  else
    match getNodeDefinition sourceNodeType with
    | none => .data
    | some definition =>
      if definition.isContainer && sourceHandle = .str "done" then .system
      else
        match definition.outputs.find? fun port => sourceHandle = .str port.id with
        | some port => if port.type = .error then .error else .data
        | none => .data

def buildEdgeData (sourceHandle : Value) (sourceNodeType : String) : EdgeData where
  sourcePort := coalesce sourceHandle (.str "out")
  portType := resolvePortType getNodeDefinition sourceHandle sourceNodeType

def isSelfConnection (connection : Connection) : Bool := connection.source = connection.target

/-- `(a ?? null) === (b ?? null)`. -/
def sameHandle (a b : Value) : Bool := (coalesce a .null).strictEquals (coalesce b .null)

def isDuplicateConnection (edges : List EditorEdge) (connection : Connection) : Bool :=
  edges.any fun e => e.source = connection.source && e.target = connection.target &&
    sameHandle e.sourceHandle connection.sourceHandle &&
    sameHandle e.targetHandle connection.targetHandle

end Clemvion.Editor
