import Clemvion.Common.ReferenceInScope
import Clemvion.Js.Value

/-!
# CanvasStore — workflows, their nodes and edges, and their versions

The four tables, and what a statement does to them, with the constraints of the database that are not
foreign keys: primary keys, the placement of a node, loops and doubled connections.
-/

namespace Clemvion.Workflows

open Common Js

/-! ## 1. The tables -/

structure Workflow (uuid : Type) where
  id : uuid
  workspaceId : uuid
  name : String
  description : Option String
  isActive : Bool
  tags : List String
  folderId : Option uuid
  settings : Value
  createdBy : uuid
  currentVersion : Nat

structure Node (uuid : Type) where
  id : uuid
  workflowId : uuid
  type : String
  category : String
  label : String
  positionX : Number
  positionY : Number
  config : Value
  isDisabled : Bool
  description : Option String
  containerId : Option uuid
  toolOwnerId : Option uuid

inductive EdgeType
  | data | error
  deriving DecidableEq, Repr

structure Edge (uuid : Type) where
  id : uuid
  workflowId : uuid
  sourceNodeId : uuid
  sourcePort : String
  targetNodeId : uuid
  targetPort : String
  type : EdgeType
  condition : Option Value

/-- A node as a request or a snapshot has it; what is `undefined` or `null` is `none`. -/
structure CanvasNode (uuid : Type) where
  id : uuid
  type : String
  category : String
  label : String
  positionX : Number
  positionY : Number
  config : Option Value
  isDisabled : Option Bool
  description : Option String
  containerId : Option uuid
  toolOwnerId : Option uuid

structure CanvasEdge (uuid : Type) where
  sourceNodeId : uuid
  sourcePort : Option String
  targetNodeId : uuid
  targetPort : Option String
  type : Option EdgeType
  condition : Option Value

structure Snapshot (uuid : Type) where
  name : String
  description : Option String
  nodes : List (CanvasNode uuid)
  edges : List (CanvasEdge uuid)

structure WorkflowVersion (uuid : Type) where
  id : uuid
  workflowId : uuid
  version : Nat
  snapshot : Snapshot uuid
  changeSummary : Option String
  createdBy : uuid

structure Store (uuid : Type) where
  workflows : List (Workflow uuid)
  nodes : List (Node uuid)
  edges : List (Edge uuid)
  versions : List (WorkflowVersion uuid)

def Store.empty {uuid : Type} : Store uuid := ⟨[], [], [], []⟩

variable {uuid : Type} [DecidableEq uuid]

/-- `chk_node_placement` refuses a node that is in a container and owned by an agent. -/
def Node.misplaced (n : Node uuid) : Bool := n.containerId.isSome && n.toolOwnerId.isSome

/-- What `UNIQUE (source_node_id, source_port, target_node_id, target_port)` is about. -/
def Edge.connection (e : Edge uuid) : uuid × String × uuid × String :=
  (e.sourceNodeId, e.sourcePort, e.targetNodeId, e.targetPort)

/-! ## 2. Queries -/

namespace Store

def findWorkflow (s : Store uuid) (id workspaceId : uuid) : Option (Workflow uuid) :=
  s.workflows.find? fun w => w.id = id ∧ w.workspaceId = workspaceId

def nodesOf (s : Store uuid) (workflowId : uuid) : List (Node uuid) :=
  s.nodes.filter fun n => n.workflowId = workflowId

def edgesOf (s : Store uuid) (workflowId : uuid) : List (Edge uuid) :=
  s.edges.filter fun e => e.workflowId = workflowId

def versionsOf (s : Store uuid) (workflowId : uuid) : List (WorkflowVersion uuid) :=
  s.versions.filter fun v => v.workflowId = workflowId

/-! ## 3. Statements -/

def insertWorkflow (s : Store uuid) (w : Workflow uuid) : Except ServiceException (Store uuid) :=
  if w.id ∈ s.workflows.map Workflow.id then .error (.queryFailed "workflow_pkey")
  else .ok { s with workflows := s.workflows ++ [w] }

def updateWorkflow (s : Store uuid) (w : Workflow uuid) : Store uuid :=
  { s with workflows := s.workflows.map fun other => if other.id = w.id then w else other }

/-- `ON DELETE CASCADE` takes along all that belongs to the workflow. -/
def deleteWorkflow (s : Store uuid) (id : uuid) : Store uuid :=
  { workflows := s.workflows.filter fun w => w.id ≠ id
    nodes := s.nodes.filter fun n => n.workflowId ≠ id
    edges := s.edges.filter fun e => e.workflowId ≠ id
    versions := s.versions.filter fun v => v.workflowId ≠ id }

def insertNodes (s : Store uuid) (rows : List (Node uuid)) : Except ServiceException (Store uuid) :=
  if ¬((s.nodes ++ rows).map Node.id).Nodup then .error (.queryFailed "node_pkey")
  else if rows.any Node.misplaced then .error (.queryFailed "chk_node_placement")
  else .ok { s with nodes := s.nodes ++ rows }

def updateNodes (s : Store uuid) (rows : List (Node uuid)) : Except ServiceException (Store uuid) :=
  if rows.any Node.misplaced then .error (.queryFailed "chk_node_placement")
  else .ok { s with nodes := s.nodes.map fun n => (rows.find? fun row => row.id = n.id).getD n }

/-- `save`: the rows that are there are updated, the others are inserted. -/
def saveNodes (s : Store uuid) (rows : List (Node uuid)) : Except ServiceException (Store uuid) := do
  let known := s.nodes.map Node.id
  let s ← s.insertNodes (rows.filter fun row => row.id ∉ known)
  s.updateNodes (rows.filter fun row => row.id ∈ known)

/-- The edges of a node go with it (`CASCADE`), and the references to it are cleared (`SET NULL`). -/
def deleteNodes (s : Store uuid) (gone : List uuid) : Store uuid :=
  { s with
    nodes := (s.nodes.filter fun n => n.id ∉ gone).map fun n =>
      { n with
        containerId := n.containerId.filter fun id => id ∉ gone
        toolOwnerId := n.toolOwnerId.filter fun id => id ∉ gone }
    edges := s.edges.filter fun e => e.sourceNodeId ∉ gone ∧ e.targetNodeId ∉ gone }

def insertEdges (s : Store uuid) (rows : List (Edge uuid)) : Except ServiceException (Store uuid) :=
  if ¬((s.edges ++ rows).map Edge.id).Nodup then .error (.queryFailed "edge_pkey")
  else if rows.any fun e => e.sourceNodeId = e.targetNodeId then .error (.queryFailed "chk_no_self_loop")
  else if ¬((s.edges ++ rows).map Edge.connection).Nodup then
    .error (.queryFailed "edge_source_node_id_source_port_target_node_id_target_port_key")
  else .ok { s with edges := s.edges ++ rows }

def deleteEdgesOf (s : Store uuid) (workflowId : uuid) : Store uuid :=
  { s with edges := s.edges.filter fun e => e.workflowId ≠ workflowId }

def deleteEdge (s : Store uuid) (id : uuid) : Store uuid :=
  { s with edges := s.edges.filter fun e => e.id ≠ id }

def insertVersion (s : Store uuid) (v : WorkflowVersion uuid) : Except ServiceException (Store uuid) :=
  if v.id ∈ s.versions.map WorkflowVersion.id ∨
      (s.versionsOf v.workflowId).any fun other => other.version = v.version then
    .error (.conflict "WORKFLOW_VERSION_CONFLICT" "Concurrent save detected — please retry")
  else .ok { s with versions := s.versions ++ [v] }

end Store

end Clemvion.Workflows
