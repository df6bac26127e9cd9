import Clemvion.Editor.CloneSelection
import Clemvion.Editor.ContainerAssignment
import Clemvion.Library.Timeline

/-!
# EditorStore — the canvas and the actions on it

The part of the editor's state that its canvas actions read and write, and the actions as
functions on it.  Toasts, the list of recent node types and the record of the workflow are left
out: no canvas action reads them.
-/

open Clemvion.Js Clemvion.Library

namespace Clemvion.Editor

/-! ## 1. State -/

def MAX_UNDO : Nat := 50

structure Snapshot where
  nodes : List EditorNode
  edges : List EditorEdge
  deriving DecidableEq

structure PendingContainerDelete where
  id : String
  label : Value
  childCount : Nat

structure EditorState where
  nodes : List EditorNode := []
  edges : List EditorEdge := []
  selectedNodeId : Option String := none
  editorClipboard : Option Snapshot := none
  pendingContainerDelete : Option PendingContainerDelete := none
  history : Timeline Snapshot MAX_UNDO := .empty
  isDirty : Bool := false

def EditorState.snapshot (s : EditorState) : Snapshot := ⟨s.nodes, s.edges⟩

/-- What the store takes from the browser, from React Flow and from the server. -/
structure StoreDeps where
  getNodeDefinition : String → Option NodeDefinition
  reactFlow : ReactFlow
  /-- `String(v)`, and the text of `v` in a template. -/
  text : Value → String
  /-- `Number(v)`. -/
  toNumber : Value → Number
  add : Number → Number → Number
  subtract : Number → Number → Number

def PASTE_DUPLICATE_OFFSET : Position := ⟨.finite 40, .finite 40⟩

variable (deps : StoreDeps)

/-! ## 2. The undo history -/

def pushUndo (s : EditorState) : EditorState :=
  { s with history := s.history.push s.snapshot }

def undo (s : EditorState) : EditorState :=
  match s.history.undo? s.snapshot with
  | none => s
  | some (prev, history) => { s with nodes := prev.nodes, edges := prev.edges, history, isDirty := true }

def redo (s : EditorState) : EditorState :=
  match s.history.redo? s.snapshot with
  | none => s
  | some (next, history) => { s with nodes := next.nodes, edges := next.edges, history, isDirty := true }

/-- `if (!opts?.skipUndo) get().pushUndo()`. -/
def pushUndoUnless (skipUndo : Bool) (s : EditorState) : EditorState :=
  if skipUndo then s else pushUndo s

/-! ## 3. Edges -/

/-- An error holds the text of the toast; a self-connection is refused without one. -/
def evaluateConnection (nodes : List EditorNode) (edges : List EditorEdge) (connection : Connection) :
    Except (Option String) Unit :=
  if isSelfConnection connection then .error none
  else if isDuplicateConnection edges connection then
    .error (some "These nodes are already connected.")
  else
    match detectContainerConflict deps.getNodeDefinition deps.text nodes connection with
    | some conflict => .error (some conflict)
    | none => .ok ()

def buildEdgeDataForConnection (nodes : List EditorNode) (connection : Connection) : EdgeData :=
  buildEdgeData deps.getNodeDefinition connection.sourceHandle
    ((findNode nodes connection.source).elim "" (·.type))

/-- The state with new edges, and with the containers that they give. -/
def setEdges (edges : List EditorEdge) (s : EditorState) : EditorState :=
  { s with
    edges
    nodes := deriveContainerAssignments deps.getNodeDefinition s.nodes edges
    isDirty := true }

def isEdgeRemoval : EdgeChange → Bool
  | .remove _ => true
  | .other _ => false

def onEdgesChange (changes : List EdgeChange) (s : EditorState) : EditorState :=
  let nextEdges := deps.reactFlow.applyEdgeChanges changes s.edges
  if changes.any isEdgeRemoval then setEdges deps nextEdges s
  else { s with edges := nextEdges, isDirty := true }

def onConnect (connection : Connection) (skipUndo : Bool) (s : EditorState) : EditorState :=
  match evaluateConnection deps s.nodes s.edges connection with
  | .error _ => s
  | .ok () =>
    let s := pushUndoUnless skipUndo s
    let edgeData := buildEdgeDataForConnection deps s.nodes connection
    { s with
      edges := deps.reactFlow.addEdge connection edgeData s.edges
      nodes := propagateContainerOnConnect deps.getNodeDefinition s.nodes connection
      isDirty := true }

def onReconnect (oldEdge : EditorEdge) (newConnection : Connection) (s : EditorState) : EditorState :=
  match evaluateConnection deps s.nodes (s.edges.filter (·.id ≠ oldEdge.id)) newConnection with
  | .error _ => s
  | .ok () =>
    let s := pushUndo s
    let reconnected := deps.reactFlow.reconnectEdge oldEdge newConnection s.edges
    let edgeData := buildEdgeDataForConnection deps s.nodes newConnection
    setEdges deps (reconnected.map fun e => if e.id = oldEdge.id then { e with data := edgeData } else e) s

def removeEdge (edgeId : String) (skipUndo : Bool) (s : EditorState) : EditorState :=
  let s := pushUndoUnless skipUndo s
  setEdges deps (s.edges.filter (·.id ≠ edgeId)) s

/-! ## 4. Nodes -/

def addNode (node : EditorNode) (s : EditorState) : EditorState :=
  let s := pushUndo s
  { s with nodes := s.nodes ++ [node], isDirty := true }

/-- The canvas without some nodes and their edges, from the nodes that remain. -/
def dropNodes (removed : String → Bool) (remainingNodes : List EditorNode) (s : EditorState) :
    EditorState :=
  let remainingEdges := s.edges.filter fun e => !removed e.source && !removed e.target
  { s with
    nodes := deriveContainerAssignments deps.getNodeDefinition remainingNodes remainingEdges
    edges := remainingEdges
    selectedNodeId := s.selectedNodeId.filter fun id => !removed id
    isDirty := true }

def removeNode (id : String) (s : EditorState) : EditorState :=
  let s := pushUndo s
  dropNodes deps (fun n => n = id) (s.nodes.filter (·.id ≠ id)) s

def removedId : NodeChange → Option String
  | .remove id => some id
  | .other _ => none

/-- The manual trigger is not removed. -/
def allowedNodeChange (nodes : List EditorNode) (change : NodeChange) : Bool :=
  !(removedId change).any fun id => (findNode nodes id).any fun n => n.type = "manual_trigger"

def onNodesChange (changes : List NodeChange) (s : EditorState) : EditorState :=
  let filteredChanges := changes.filter (allowedNodeChange s.nodes)
  if filteredChanges = [] then s
  else
    let removedIds := filteredChanges.filterMap removedId
    let changed := deps.reactFlow.applyNodeChanges filteredChanges s.nodes
    if removedIds ≠ [] then dropNodes deps (· ∈ removedIds) changed (pushUndo s)
    else { s with nodes := changed, isDirty := true }

/-! ## 5. Selection, clipboard, containers -/

def selectedNodes (s : EditorState) : List EditorNode := s.nodes.filter (·.selected)

/-- The edges between selected nodes. -/
def internalEdges (s : EditorState) : List EditorEdge :=
  s.edges.filter fun e => e.source ∈ (selectedNodes s).map (·.id) &&
    e.target ∈ (selectedNodes s).map (·.id)

def copySelection (s : EditorState) : EditorState :=
  if selectedNodes s = [] then s
  else
    let clonedNodes := (selectedNodes s).map fun n => { n with selected := false }
    { s with editorClipboard := some ⟨clonedNodes, internalEdges s⟩ }

def selectAll (s : EditorState) : EditorState :=
  { s with nodes := s.nodes.map fun n => { n with selected := true } }

def deselect (nodes : List EditorNode) : List EditorNode :=
  nodes.map fun n => { n with selected := false }

def deselectAll (s : EditorState) : EditorState :=
  { s with nodes := deselect s.nodes, selectedNodeId := none }

def mathMin (ns : List Number) : Number :=
  ns.foldl (fun least n => if least = .nan || n = .nan then .nan else if n.lt least then n else least)
    .posInfinity

/-- The top left corner of the copies comes to the anchor. -/
def pasteOffset (anchor : Option Position) (nodes : List EditorNode) : Position :=
  match anchor with
  | none => PASTE_DUPLICATE_OFFSET
  | some anchor =>
    ⟨deps.subtract anchor.x (mathMin (nodes.map (·.position.x))),
      deps.subtract anchor.y (mathMin (nodes.map (·.position.y)))⟩

/-- Copies of nodes and edges put beside what is there. -/
def insertClones (newId : Nat → String) (nodes : List EditorNode) (edges : List EditorEdge)
    (offset : Position) (refFilter : IntegrationRefFilterContext) (s : EditorState) : EditorState :=
  let existingLabels := s.nodes.filterMap stringLabel
  let cloned := cloneNodesWithOffset deps.add newId nodes edges existingLabels offset
  let usable := clearUnusableIntegrationRefsInNodes cloned.1 refFilter
  let allNodes := deselect s.nodes ++ usable.1
  let allEdges := s.edges ++ cloned.2
  { s with
    nodes := deriveContainerAssignments deps.getNodeDefinition allNodes allEdges
    edges := allEdges
    isDirty := true }

def pasteClipboard (anchor : Option Position) (refFilter : IntegrationRefFilterContext)
    (newId : Nat → String) (s : EditorState) : EditorState :=
  match s.editorClipboard with
  | none => s
  | some clip =>
    if clip.nodes = [] then s
    else insertClones deps newId clip.nodes clip.edges (pasteOffset deps anchor clip.nodes) refFilter
      (pushUndo s)

def duplicateSelection (refFilter : IntegrationRefFilterContext) (newId : Nat → String)
    (s : EditorState) : EditorState :=
  if selectedNodes s = [] then s
  else insertClones deps newId (selectedNodes s) (internalEdges s) PASTE_DUPLICATE_OFFSET refFilter
    (pushUndo s)

def openContainerDeleteConfirm (id : String) (s : EditorState) : EditorState :=
  match findNode s.nodes id with
  | none => s
  | some _ =>
    let childCount := (s.nodes.filter fun n => n.containerId = some id).length
    { s with pendingContainerDelete := some ⟨id, labelOf s.nodes id, childCount⟩ }

def needsContainerDeleteConfirm (id : String) (s : EditorState) : Bool :=
  (findNode s.nodes id).any (isContainerNode deps.getNodeDefinition) &&
    s.nodes.any fun n => n.containerId = some id

def requestNodeDelete (id : String) (s : EditorState) : EditorState :=
  if needsContainerDeleteConfirm deps id s then openContainerDeleteConfirm id s
  else removeNode deps id s

inductive ContainerDeleteMode
  | deleteAll | ungroup
  deriving DecidableEq

def confirmContainerDelete (mode : ContainerDeleteMode) (s : EditorState) : EditorState :=
  match s.pendingContainerDelete with
  | none => s
  | some pending =>
    match mode with
    | .ungroup => { removeNode deps pending.id s with pendingContainerDelete := none }
    | .deleteAll =>
      let s := pushUndo s
      let toRemove := pending.id :: (s.nodes.filter fun n => n.containerId = some pending.id).map (·.id)
      let s := dropNodes deps (· ∈ toRemove) (s.nodes.filter fun n => n.id ∉ toRemove) s
      { s with pendingContainerDelete := none }

def cancelContainerDelete (s : EditorState) : EditorState := { s with pendingContainerDelete := none }

/-! ## 6. The assistant's operations -/

/-- `String(args.id ?? "")`. -/
def textArg (v : Value) : String := deps.text (coalesce v (.str ""))

/-- `Number(v ?? fallback)`. -/
def numberArg (v : Value) (fallback : Number) : Number := deps.toNumber (coalesce v (.num fallback))

def assistantNode (id type : String) (args : Value) : EditorNode :=
  let position := coalesce (args.field "position") (.obj [])
  { id, type
    label := .str (deps.text (coalesce (args.field "label") (.str type)))
    category := some ((deps.getNodeDefinition type).elim "logic" (·.category))
    config := coalesce (args.field "config") (.obj [])
    position := ⟨numberArg deps (position.field "x") (.finite 0), numberArg deps (position.field "y") (.finite 0)⟩ }

/-- What a patch leaves of a node: the config first, then the label and the position. -/
def patchNode (patch : Value) (n : EditorNode) : EditorNode :=
  let n := if (patch.field "config").truthy then
      { n with config := .obj (Value.spread n.config.ownFields (patch.field "config")) }
    else n
  let n := if (patch.field "label").truthy then { n with label := patch.field "label" } else n
  let position := patch.field "position"
  if position.truthy then
    { n with position := ⟨numberArg deps (position.field "x") n.position.x,
        numberArg deps (position.field "y") n.position.y⟩ }
  else n

/-- The connection of an `add_edge` call. -/
def assistantConnection (args : Value) : Connection where
  source := textArg deps (coalesce (args.field "source_id") (args.field "sourceId"))
  sourceHandle := coalesce (coalesce (args.field "source_port") (args.field "sourcePort")) (.str "out")
  target := textArg deps (coalesce (args.field "target_id") (args.field "targetId"))
  targetHandle := coalesce (coalesce (args.field "target_port") (args.field "targetPort")) (.str "in")

def applyAssistantOperation (name : String) (args result : Value) (s : EditorState) : EditorState :=
  if !(result.field "ok").truthy then s
  else if name = "add_node" then
    let type := textArg deps (args.field "type")
    match result.field "id" with
    | .str id =>
      if type = "" || id = "" then s else addNode (assistantNode deps id type args) s
    | _ => s
  else if name = "update_node" then
    let id := textArg deps (args.field "id")
    let patch := coalesce (args.field "patch") (.obj [])
    if id = "" then s
    else
      let s := pushUndo s
      if (patch.field "config").truthy || (patch.field "label").truthy ||
          (patch.field "position").truthy then
        { s with
          nodes := s.nodes.map fun n => if n.id = id then patchNode deps patch n else n
          isDirty := true }
      else s
  else if name = "remove_node" then
    let id := textArg deps (args.field "id")
    if id = "" then s else removeNode deps id s
  else if name = "add_edge" then
    let connection := assistantConnection deps args
    if connection.source = "" || connection.target = "" then s else onConnect deps connection false s
  else if name = "remove_edge" then
    let edgeId := textArg deps (args.field "id")
    if edgeId = "" then s else removeEdge deps edgeId false s
  else s

/-! ## 7. A store on plain values -/

/-- React Flow's notion of a connection that is there already. -/
def connectionExists (connection : Connection) (edges : List EditorEdge) : Bool :=
  let sameOrFalsy := fun a b : Value => a.strictEquals b || !a.truthy && !b.truthy
  edges.any fun e => e.source = connection.source && e.target = connection.target &&
    sameOrFalsy e.sourceHandle connection.sourceHandle &&
    sameOrFalsy e.targetHandle connection.targetHandle

/-- React Flow's functions on connections and removals; other changes are ignored. -/
def plainReactFlow : ReactFlow where
  addEdge := fun c data edges =>
    if c.source = "" || c.target = "" || connectionExists c edges then edges
    else
      let id := "xy-edge__" ++ c.source ++ stringHandle c.sourceHandle ++ "-" ++ c.target ++
        stringHandle c.targetHandle
      edges ++ [⟨id, c.source, c.sourceHandle, c.target, c.targetHandle, data⟩]
  reconnectEdge := fun oldEdge c edges =>
    match edges.find? fun e => e.id = oldEdge.id with
    | none => edges
    | some e => edges.filter (·.id ≠ oldEdge.id) ++ [{ e with
        source := c.source, sourceHandle := c.sourceHandle
        target := c.target, targetHandle := c.targetHandle }]
  applyNodeChanges := fun changes nodes => nodes.filter fun n => .remove n.id ∉ changes
  applyEdgeChanges := fun changes edges => edges.filter fun e => .remove e.id ∉ changes
where
  stringHandle : Value → String
    | .str s => s
    | _ => ""

/-- Only `loop` is a container. -/
def plainDeps : StoreDeps where
  getNodeDefinition := fun type => some ⟨"logic", type = "loop", []⟩
  reactFlow := plainReactFlow
  text := plainReactFlow.stringHandle
  toNumber := fun
    | .num n => n
    | _ => .nan
  add := fun
    | .finite p, .finite q => .finite (p + q)
    | _, _ => .nan
  subtract := fun
    | .finite p, .finite q => .finite (p - q)
    | _, _ => .nan

def plainNode (id type : String) : EditorNode :=
  { id, type, label := .str id, config := .obj [], position := ⟨.finite 0, .finite 0⟩ }

def plainEdge (id source sourceHandle target targetHandle : String) : EditorEdge where
  id := id
  source := source
  sourceHandle := .str sourceHandle
  target := target
  targetHandle := .str targetHandle
  data := ⟨.str sourceHandle, .data⟩

/-- A loop, and two nodes with a wire between them outside it. -/
def wired : EditorState where
  nodes := [plainNode "L" "loop", plainNode "A" "code", plainNode "B" "code"]
  edges := [plainEdge "e" "A" "out" "B" "in"]

end Clemvion.Editor
