import Clemvion.Workflows.CanvasStore

/-!
# WorkflowsService — the requests that write a canvas

The canvas is saved as a whole, restored from a version, duplicated, exported and imported, and its
nodes and edges are also written one by one.  What depends on other subsystems (node schemas, reserved
names, integrations, graph rules, default models) answers through the gates of a request.
-/

namespace Clemvion.Workflows

open Common Js

variable {uuid : Type} [DecidableEq uuid]

/-- What the other subsystems answer while a request runs. -/
structure CanvasGates (uuid : Type) where
  invalidParameters : Option Value → Bool
  reservedName : String → Option Value → Bool
  unusableRefs : List (CanvasNode uuid) → List InvalidReference
  clearRefs : CanvasNode uuid → Value
  graphErrors : List (Node uuid) → List (Edge uuid) → Option String
  folderInWorkspace : uuid → uuid → Bool
  importConfig : String → Value → Value

def manualTriggerType : String := "manual_trigger"

def workflowNotFound : ServiceException := .notFound "RESOURCE_NOT_FOUND" "Workflow not found"

def nodeNotFound : ServiceException := .notFound "RESOURCE_NOT_FOUND" "Node not found"

def Store.findById (s : Store uuid) (id workspaceId : uuid) : Except ServiceException (Workflow uuid) :=
  match s.findWorkflow id workspaceId with
  | none => .error workflowNotFound
  | some workflow => .ok workflow

/-! ## 1. The checks of a canvas -/

structure SaveCanvasDto (uuid : Type) where
  name : Option String
  nodes : List (CanvasNode uuid)
  edges : List (CanvasEdge uuid)
  changeSummary : Option String

/-- A restored snapshot may be older than a gate. -/
inductive Origin
  | save | restore
  deriving DecidableEq, Repr

def validateManualTrigger (gates : CanvasGates uuid) (dto : SaveCanvasDto uuid) (origin : Origin) :
    Except ServiceException Unit :=
  match dto.nodes.filter fun n => n.type = manualTriggerType with
  | [] => .error (.badRequest none "Workflow must contain a Manual Trigger node" [])
  | [trigger] =>
    if origin = .save ∧ gates.invalidParameters trigger.config then
      .error (.badRequest (some "INVALID_TRIGGER_PARAMETERS")
        "Manual Trigger has an invalid parameter schema" [])
    else .ok ()
  | _ => .error (.badRequest none "Workflow cannot contain more than one Manual Trigger node" [])

/-- The loop over the labels, with the set of those seen. -/
def firstRepeated (seen : List String) : List String → Option String
  | [] => none
  | label :: labels => if label ∈ seen then some label else firstRepeated (label :: seen) labels

def uniqueLabels (message : String → String) (labels : List String) : Except ServiceException Unit :=
  match firstRepeated [] labels with
  | none => .ok ()
  | some label => .error (.conflict "DUPLICATE_NODE_LABEL" (message label))

def validateUniqueLabels (dto : SaveCanvasDto uuid) : Except ServiceException Unit :=
  uniqueLabels (fun label => s!"Duplicate node label: \"{label}\"") (dto.nodes.map CanvasNode.label)

/-- The reference, if it leads out of the canvas. -/
def outside (nodeIds : List uuid) (id : Option uuid) (item : InvalidReference) : List InvalidReference :=
  match id with
  | none => []
  | some id => if id ∈ nodeIds then [] else [item]

def invalidNodeReferences (nodeIds : List uuid) (i : Nat) (node : CanvasNode uuid) :
    List InvalidReference :=
  outside nodeIds node.containerId
      ⟨s!"nodes[{i}].containerId", "Container node not found in this canvas"⟩ ++
    outside nodeIds node.toolOwnerId
      ⟨s!"nodes[{i}].toolOwnerId", "Tool owner node not found in this canvas"⟩

def invalidEdgeReferences (nodeIds : List uuid) (i : Nat) (edge : CanvasEdge uuid) :
    List InvalidReference :=
  outside nodeIds (some edge.sourceNodeId)
      ⟨s!"edges[{i}].sourceNodeId", "Source node not found in this canvas"⟩ ++
    outside nodeIds (some edge.targetNodeId)
      ⟨s!"edges[{i}].targetNodeId", "Target node not found in this canvas"⟩

def validateCanvasReferences (dto : SaveCanvasDto uuid) : Except ServiceException Unit :=
  let nodeIds := dto.nodes.map CanvasNode.id
  let invalid := (dto.nodes.mapIdx (invalidNodeReferences nodeIds)).flatten ++
    (dto.edges.mapIdx (invalidEdgeReferences nodeIds)).flatten
  if invalid = [] then .ok () else .error (throwInvalidReferences invalid)

def reservedNameError : ServiceException :=
  .badRequest (some "RESERVED_VARIABLE_NAME") "Variable names must not start with the reserved prefix \"__\"" []

/-! ## 2. The canvas as a whole -/

/-- Another type or category in the request is passed over, and no description leaves the old one. -/
def Node.assign (existing : Node uuid) (dto : CanvasNode uuid) : Node uuid :=
  { existing with
    label := dto.label
    positionX := dto.positionX
    positionY := dto.positionY
    config := dto.config.getD (.obj [])
    isDisabled := dto.isDisabled.getD false
    description := dto.description.or existing.description
    containerId := dto.containerId
    toolOwnerId := dto.toolOwnerId }

def CanvasNode.newNode (dto : CanvasNode uuid) (workflowId : uuid) : Node uuid :=
  { id := dto.id
    workflowId
    type := dto.type
    category := dto.category
    label := dto.label
    positionX := dto.positionX
    positionY := dto.positionY
    config := dto.config.getD (.obj [])
    isDisabled := dto.isDisabled.getD false
    description := dto.description
    containerId := dto.containerId
    toolOwnerId := dto.toolOwnerId }

/-- All requests of one id write the same entity, so that the last one stays. -/
def finalNode (dtos : List (CanvasNode uuid)) (existing : Node uuid) : Node uuid :=
  dtos.foldl (fun node dto => if dto.id = existing.id then node.assign dto else node) existing

def nodeToSave (workflowId : uuid) (dtos : List (CanvasNode uuid)) (existing : List (Node uuid))
    (dto : CanvasNode uuid) : Node uuid :=
  match existing.find? fun n => n.id = dto.id with
  | some node => finalNode dtos node
  | none => dto.newNode workflowId

def nodesToSave (workflowId : uuid) (dtos : List (CanvasNode uuid)) (existing : List (Node uuid)) :
    List (Node uuid) :=
  dtos.map (nodeToSave workflowId dtos existing)

def assertNewNodeIdsUnused (s : Store uuid) (dtos : List (CanvasNode uuid))
    (existing : List (Node uuid)) : Except ServiceException Unit :=
  let taken := (dtos.mapIdx fun i dto =>
    if dto.id ∉ existing.map Node.id ∧ dto.id ∈ s.nodes.map Node.id then
      [(⟨s!"nodes[{i}].id", "Node id is already used by another workflow"⟩ : InvalidReference)]
    else []).flatten
  if taken = [] then .ok () else .error (throwInvalidReferences taken)

def syncNodes (s : Store uuid) (workflowId : uuid) (dtos : List (CanvasNode uuid)) :
    Except ServiceException (Store uuid × List (Node uuid)) := do
  let existing := s.nodesOf workflowId
  assertNewNodeIdsUnused s dtos existing
  let gone := (existing.map Node.id).filter fun id => id ∉ dtos.map CanvasNode.id
  let rows := nodesToSave workflowId dtos existing
  let s ← (s.deleteNodes gone).saveNodes rows
  pure (s, rows)

/-- `edgeIds` are the ids that the database draws. -/
def CanvasEdge.newEdge (dto : CanvasEdge uuid) (id workflowId : uuid) : Edge uuid :=
  { id
    workflowId
    sourceNodeId := dto.sourceNodeId
    sourcePort := dto.sourcePort.getD "out"
    targetNodeId := dto.targetNodeId
    targetPort := dto.targetPort.getD "in"
    type := dto.type.getD .data
    condition := dto.condition }

def syncEdges (s : Store uuid) (workflowId : uuid) (edgeIds : Nat → uuid)
    (dtos : List (CanvasEdge uuid)) : Except ServiceException (Store uuid × List (Edge uuid)) := do
  let rows := dtos.mapIdx fun i dto => dto.newEdge (edgeIds i) workflowId
  let s ← (s.deleteEdgesOf workflowId).insertEdges rows
  pure (s, rows)

def Node.snapshot (n : Node uuid) : CanvasNode uuid :=
  { id := n.id
    type := n.type
    category := n.category
    label := n.label
    positionX := n.positionX
    positionY := n.positionY
    config := some n.config
    isDisabled := some n.isDisabled
    description := n.description
    containerId := n.containerId
    toolOwnerId := n.toolOwnerId }

def Edge.snapshot (e : Edge uuid) : CanvasEdge uuid :=
  { sourceNodeId := e.sourceNodeId
    sourcePort := some e.sourcePort
    targetNodeId := e.targetNodeId
    targetPort := some e.targetPort
    type := some e.type
    condition := e.condition }

def buildSnapshot (workflow : Workflow uuid) (nodes : List (Node uuid)) (edges : List (Edge uuid)) :
    Snapshot uuid :=
  { name := workflow.name
    description := workflow.description
    nodes := nodes.map Node.snapshot
    edges := edges.map Edge.snapshot }

/-- The number after the greatest one. -/
def nextVersion (s : Store uuid) (workflowId : uuid) : Nat :=
  match ((s.versionsOf workflowId).map WorkflowVersion.version).max? with
  | none => 1
  | some latest => latest + 1

/-- The ids that are drawn while a request runs. -/
structure DrawnIds (uuid : Type) where
  workflow : uuid
  version : uuid
  node : Nat → uuid
  edge : Nat → uuid

def assertNodeIntegrationRefsUsable (gates : CanvasGates uuid) (nodes : List (CanvasNode uuid)) :
    Except ServiceException Unit :=
  let unusable := gates.unusableRefs nodes
  refuseIf (unusable ≠ []) (throwInvalidReferences unusable)

def applyIntegrationRefRules (gates : CanvasGates uuid) (origin : Origin)
    (nodes : List (CanvasNode uuid)) : Except ServiceException (List (CanvasNode uuid)) :=
  match origin with
  | .save => do
    assertNodeIntegrationRefsUsable gates nodes
    pure nodes
  | .restore => .ok (nodes.map fun n => { n with config := some (gates.clearRefs n) })

def evaluateGraphWarnings (gates : CanvasGates uuid) (nodes : List (Node uuid)) (edges : List (Edge uuid)) :
    Except ServiceException Unit :=
  match gates.graphErrors nodes edges with
  | some message =>
    .error (.badRequest (some "GRAPH_VALIDATION_FAILED") s!"Graph validation failed: {message}" [])
  | none => .ok ()

def writeCanvas (gates : CanvasGates uuid) (drawn : DrawnIds uuid) (s : Store uuid)
    (id workspaceId userId : uuid) (dto : SaveCanvasDto uuid) (origin : Origin) :
    Except ServiceException (Store uuid) := do
  let workflow ← s.findById id workspaceId
  validateManualTrigger gates dto origin
  validateUniqueLabels dto
  validateCanvasReferences dto
  refuseIf (origin = .save && dto.nodes.any fun n => gates.reservedName n.type n.config)
    reservedNameError
  let workflow := { workflow with
    name := dto.name.getD workflow.name
    currentVersion := workflow.currentVersion + 1 }
  let s := s.updateWorkflow workflow
  let nodes ← applyIntegrationRefRules gates origin dto.nodes
  let (s, savedNodes) ← syncNodes s id nodes
  let (s, savedEdges) ← syncEdges s id drawn.edge dto.edges
  evaluateGraphWarnings gates savedNodes savedEdges
  s.insertVersion
    { id := drawn.version
      workflowId := id
      version := nextVersion s id
      snapshot := buildSnapshot workflow savedNodes savedEdges
      changeSummary := dto.changeSummary
      createdBy := userId }

/-- `WorkflowVersionsService.findOne`. -/
def Store.findVersion (s : Store uuid) (workflowId versionId : uuid) :
    Except ServiceException (WorkflowVersion uuid) :=
  match s.versions.find? fun v => v.id = versionId ∧ v.workflowId = workflowId with
  | none => .error (.notFound "RESOURCE_NOT_FOUND" "Workflow version not found")
  | some version => .ok version

def restoreVersion (gates : CanvasGates uuid) (drawn : DrawnIds uuid) (s : Store uuid)
    (workflowId workspaceId versionId userId : uuid) : Except ServiceException (Store uuid) := do
  let _ ← s.findById workflowId workspaceId
  let target ← s.findVersion workflowId versionId
  writeCanvas gates drawn s workflowId workspaceId userId
    { name := some target.snapshot.name
      nodes := target.snapshot.nodes
      edges := target.snapshot.edges
      changeSummary := some s!"Restored from v{target.version}" } .restore

/-! ## 3. New workflows -/

structure CreateWorkflowDto (uuid : Type) where
  name : String
  description : Option String
  isActive : Option Bool
  tags : Option (List String)
  folderId : Option uuid

def create (gates : CanvasGates uuid) (drawn : DrawnIds uuid) (s : Store uuid)
    (workspaceId userId : uuid) (dto : CreateWorkflowDto uuid) : Except ServiceException (Store uuid) := do
  refuseIf (dto.folderId.any fun folderId => !gates.folderInWorkspace folderId workspaceId)
    (throwInvalidReferences [⟨"folderId", "Folder not found in this workspace"⟩])
  let s ← s.insertWorkflow
    { id := drawn.workflow
      workspaceId
      name := dto.name
      description := dto.description
      isActive := dto.isActive.getD false
      tags := dto.tags.getD []
      folderId := dto.folderId
      settings := .obj []
      createdBy := userId
      currentVersion := 1 }
  s.insertNodes
    [{ id := drawn.node 0
       workflowId := drawn.workflow
       type := manualTriggerType
       category := "trigger"
       label := "Manual Trigger"
       positionX := .finite 250
       positionY := .finite 300
       config := .obj []
       isDisabled := false
       description := none
       containerId := none
       toolOwnerId := none }]

/-- `idMap.get(id) ?? null`, where the map sends the nodes in order to the drawn ids. -/
def remap (nodes : List (Node uuid)) (drawn : Nat → uuid) (id : uuid) : Option uuid :=
  (nodes.findIdx? fun n => n.id = id).map drawn

/-- `clearCopiedNodeRefs` looks at the row that is inserted. -/
def copiedNode (gates : CanvasGates uuid) (drawn : DrawnIds uuid) (nodes : List (Node uuid)) (i : Nat)
    (node : Node uuid) : Node uuid :=
  let row := { node with
    id := drawn.node i
    workflowId := drawn.workflow
    containerId := node.containerId.bind (remap nodes drawn.node)
    toolOwnerId := node.toolOwnerId.bind (remap nodes drawn.node) }
  { row with config := gates.clearRefs row.snapshot }

/-- An edge with an end outside of the copied nodes is left out. -/
def remapEnds (nodes : List (Node uuid)) (drawn : Nat → uuid) (edge : Edge uuid) : Option (Edge uuid) :=
  match remap nodes drawn edge.sourceNodeId, remap nodes drawn edge.targetNodeId with
  | some sourceNodeId, some targetNodeId => some { edge with sourceNodeId, targetNodeId }
  | _, _ => none

def copiedEdges (drawn : DrawnIds uuid) (nodes : List (Node uuid)) (edges : List (Edge uuid)) :
    List (Edge uuid) :=
  (edges.filterMap (remapEnds nodes drawn.node)).mapIdx fun i edge =>
    { edge with id := drawn.edge i, workflowId := drawn.workflow }

def duplicate (gates : CanvasGates uuid) (drawn : DrawnIds uuid) (s : Store uuid)
    (id workspaceId userId : uuid) : Except ServiceException (Store uuid) := do
  let original ← s.findById id workspaceId
  let nodes := s.nodesOf id
  let edges := s.edgesOf id
  let s ← s.insertWorkflow
    { id := drawn.workflow
      workspaceId
      name := s!"{original.name} (Copy)"
      description := original.description
      isActive := false
      tags := original.tags
      folderId := original.folderId
      settings := original.settings
      createdBy := userId
      currentVersion := 1 }
  let s ← s.insertNodes (nodes.mapIdx (copiedNode gates drawn nodes))
  s.insertEdges (copiedEdges drawn nodes edges)

/-! ## 4. Export and import -/

structure ImportNodeDto where
  type : String
  category : String
  label : String
  positionX : Number
  positionY : Number
  config : Option Value
  isDisabled : Option Bool
  description : Option String
  containerIndex : Option Int
  toolOwnerIndex : Option Int

structure ImportEdgeDto where
  sourceNodeIndex : Int
  sourcePort : Option String
  targetNodeIndex : Int
  targetPort : Option String
  type : Option EdgeType
  condition : Option Value

structure ImportWorkflowDto where
  name : String
  description : Option String
  tags : Option (List String)
  settings : Value
  nodes : List ImportNodeDto
  edges : Option (List ImportEdgeDto)

/-- `nodes.findIndex((n) => n.id === id)`, which is `-1` where there is none. -/
def findIndex (nodes : List (Node uuid)) (id : uuid) : Int :=
  match nodes.findIdx? fun n => n.id = id with
  | some i => i
  | none => -1

/-- An index in the export, and `null` for a reference that is not there or leads nowhere. -/
def exportIndex (nodes : List (Node uuid)) (id : Option uuid) : Option Int :=
  match id with
  | none => none
  | some id => if findIndex nodes id ≥ 0 then some (findIndex nodes id) else none

/-- `nodes` and `edges` are what the two queries return, in whatever order. -/
def exportCanvas (workflow : Workflow uuid) (nodes : List (Node uuid)) (edges : List (Edge uuid)) :
    ImportWorkflowDto :=
  { name := workflow.name
    description := workflow.description
    tags := some workflow.tags
    settings := workflow.settings
    nodes := nodes.map fun n =>
      { type := n.type
        category := n.category
        label := n.label
        positionX := n.positionX
        positionY := n.positionY
        config := some n.config
        isDisabled := some n.isDisabled
        description := n.description
        containerIndex := exportIndex nodes n.containerId
        toolOwnerIndex := exportIndex nodes n.toolOwnerId }
    edges := some (edges.map fun e =>
      { sourceNodeIndex := findIndex nodes e.sourceNodeId
        sourcePort := some e.sourcePort
        targetNodeIndex := findIndex nodes e.targetNodeId
        targetPort := some e.targetPort
        type := some e.type
        condition := e.condition }) }

def exportWorkflow (s : Store uuid) (id workspaceId : uuid) : Except ServiceException ImportWorkflowDto := do
  let workflow ← s.findById id workspaceId
  pure (exportCanvas workflow (s.nodesOf id) (s.edgesOf id))

/-- `@IsInt() @Min(0)` of the indices. -/
def ImportWorkflowDto.valid (dto : ImportWorkflowDto) : Bool :=
  (dto.nodes.all fun n => n.containerIndex.all (0 ≤ ·) && n.toolOwnerIndex.all (0 ≤ ·)) &&
    (dto.edges.getD []).all fun e => 0 ≤ e.sourceNodeIndex && 0 ≤ e.targetNodeIndex

/-- `nodeIdMap[index]`. -/
def nodeIdAt (drawn : Nat → uuid) (count : Nat) (index : Int) : Option uuid :=
  if 0 ≤ index ∧ index < count then some (drawn index.toNat) else none

def ImportNodeDto.node (gates : CanvasGates uuid) (drawn : DrawnIds uuid) (count i : Nat)
    (dto : ImportNodeDto) : Node uuid :=
  let node : Node uuid :=
    { id := drawn.node i
      workflowId := drawn.workflow
      type := dto.type
      category := dto.category
      label := dto.label
      positionX := dto.positionX
      positionY := dto.positionY
      config := gates.importConfig dto.type (dto.config.getD (.obj []))
      isDisabled := dto.isDisabled.getD false
      description := dto.description
      containerId := dto.containerIndex.bind (nodeIdAt drawn.node count)
      toolOwnerId := dto.toolOwnerIndex.bind (nodeIdAt drawn.node count) }
  { node with config := gates.clearRefs node.snapshot }

def ImportEdgeDto.ends (drawn : Nat → uuid) (count : Nat) (dto : ImportEdgeDto) : Option (CanvasEdge uuid) :=
  match nodeIdAt drawn count dto.sourceNodeIndex, nodeIdAt drawn count dto.targetNodeIndex with
  | some sourceNodeId, some targetNodeId =>
    some ⟨sourceNodeId, dto.sourcePort, targetNodeId, dto.targetPort, dto.type, dto.condition⟩
  | _, _ => none

def importEdges (drawn : DrawnIds uuid) (count : Nat) (dtos : List ImportEdgeDto) : List (Edge uuid) :=
  (dtos.filterMap (ImportEdgeDto.ends drawn.node count)).mapIdx fun i dto =>
    dto.newEdge (drawn.edge i) drawn.workflow

def importWorkflow (gates : CanvasGates uuid) (drawn : DrawnIds uuid) (s : Store uuid)
    (workspaceId userId : uuid) (dto : ImportWorkflowDto) : Except ServiceException (Store uuid) := do
  refuseIf (dto.nodes.any fun n => gates.reservedName n.type n.config) reservedNameError
  uniqueLabels (fun label => s!"Duplicate node label in import: \"{label}\"")
    (dto.nodes.map ImportNodeDto.label)
  let s ← s.insertWorkflow
    { id := drawn.workflow
      workspaceId
      name := dto.name
      description := dto.description
      isActive := false
      tags := dto.tags.getD []
      folderId := none
      settings := dto.settings
      createdBy := userId
      currentVersion := 1 }
  let s ← s.insertNodes (dto.nodes.mapIdx fun i n => n.node gates drawn dto.nodes.length i)
  s.insertEdges (importEdges drawn dto.nodes.length (dto.edges.getD []))

/-! ## 5. One node or edge -/

def assertLabelUnique (s : Store uuid) (workflowId : uuid) (label : String) (exclude : Option uuid) :
    Except ServiceException Unit :=
  if s.nodes.any fun n => n.workflowId = workflowId ∧ n.label = label ∧ exclude ≠ some n.id then
    .error (.conflict "DUPLICATE_NODE_LABEL"
      s!"A node with label \"{label}\" already exists in this workflow")
  else .ok ()

def assertPlacementInWorkflow (s : Store uuid) (workflowId : uuid) (containerId toolOwnerId : Option uuid) :
    Except ServiceException Unit :=
  let nodeIds := (s.nodesOf workflowId).map Node.id
  let invalid :=
    outside nodeIds containerId ⟨"containerId", "Container node not found in this workflow"⟩ ++
      outside nodeIds toolOwnerId ⟨"toolOwnerId", "Tool owner node not found in this workflow"⟩
  if invalid = [] then .ok () else .error (throwInvalidReferences invalid)

/-- Only the primary key can be violated here, which is reported as if it were the label. -/
def saveWithUniqueConstraint (result : Except ServiceException (Store uuid)) :
    Except ServiceException (Store uuid) :=
  match result with
  | .error (.queryFailed "node_pkey") =>
    .error (.conflict "DUPLICATE_NODE_LABEL" "A node with this label already exists in this workflow")
  | result => result

/-- `dto.id` is the id that the database draws, and a position that is not sent is 0. -/
def createNode (gates : CanvasGates uuid) (s : Store uuid) (workflowId workspaceId : uuid)
    (dto : CanvasNode uuid) : Except ServiceException (Store uuid) := do
  let _ ← s.findById workflowId workspaceId
  assertLabelUnique s workflowId dto.label none
  assertPlacementInWorkflow s workflowId dto.containerId dto.toolOwnerId
  assertNodeIntegrationRefsUsable gates [dto]
  saveWithUniqueConstraint (s.insertNodes [dto.newNode workflowId])

/-- What is not sent is `none`; a `null` is `some none`. -/
structure UpdateNodeDto (uuid : Type) where
  label : Option String
  positionX : Option Number
  positionY : Option Number
  config : Option Value
  isDisabled : Option Bool
  description : Option (Option String)
  containerId : Option (Option uuid)
  toolOwnerId : Option (Option uuid)

def UpdateNodeDto.assign (dto : UpdateNodeDto uuid) (node : Node uuid) : Node uuid :=
  { node with
    label := dto.label.getD node.label
    positionX := dto.positionX.getD node.positionX
    positionY := dto.positionY.getD node.positionY
    config := dto.config.getD node.config
    isDisabled := dto.isDisabled.getD node.isDisabled
    description := dto.description.getD node.description
    containerId := dto.containerId.getD node.containerId
    toolOwnerId := dto.toolOwnerId.getD node.toolOwnerId }

/-- The node, if its workflow is one of the workspace. -/
def findNode (s : Store uuid) (id workspaceId : uuid) : Except ServiceException (Node uuid) :=
  match s.nodes.find? fun n => n.id = id with
  | none => .error nodeNotFound
  | some node => if (s.findWorkflow node.workflowId workspaceId).isSome then .ok node else .error nodeNotFound

def assertNewLabelUnique (s : Store uuid) (node : Node uuid) (label : String) :
    Except ServiceException Unit :=
  if label = node.label then .ok () else assertLabelUnique s node.workflowId label (some node.id)

def updateNode (gates : CanvasGates uuid) (s : Store uuid) (id workspaceId : uuid)
    (dto : UpdateNodeDto uuid) : Except ServiceException (Store uuid) := do
  let node ← findNode s id workspaceId
  assertNewLabelUnique s node (dto.label.getD node.label)
  assertPlacementInWorkflow s node.workflowId (dto.containerId.getD none) (dto.toolOwnerId.getD none)
  assertNodeIntegrationRefsUsable gates (if dto.config.isSome then [(dto.assign node).snapshot] else [])
  saveWithUniqueConstraint (s.updateNodes [dto.assign node])

def removeNode (s : Store uuid) (id workspaceId : uuid) : Except ServiceException (Store uuid) := do
  let node ← findNode s id workspaceId
  pure (s.deleteNodes [node.id])

def createEdge (s : Store uuid) (id workflowId workspaceId : uuid) (dto : CanvasEdge uuid) :
    Except ServiceException (Store uuid) := do
  let _ ← s.findById workflowId workspaceId
  refuseIf (dto.sourceNodeId = dto.targetNodeId) (validationError "Self-loop connections are not allowed")
  let nodeIds := (s.nodesOf workflowId).map Node.id
  let invalid :=
    outside nodeIds (some dto.sourceNodeId) ⟨"sourceNodeId", "Source node not found in this workflow"⟩ ++
      outside nodeIds (some dto.targetNodeId) ⟨"targetNodeId", "Target node not found in this workflow"⟩
  refuseIf (invalid ≠ []) (throwInvalidReferences invalid)
  s.insertEdges [dto.newEdge id workflowId]

def removeEdge (s : Store uuid) (id workspaceId : uuid) : Except ServiceException (Store uuid) :=
  match s.edges.find? fun e => e.id = id with
  | none => .error (.notFound "RESOURCE_NOT_FOUND" "Edge not found")
  | some edge =>
    if (s.findWorkflow edge.workflowId workspaceId).isSome then .ok (s.deleteEdge edge.id)
    else .error (.notFound "RESOURCE_NOT_FOUND" "Edge not found")

def remove (s : Store uuid) (id workspaceId : uuid) : Except ServiceException (Store uuid) := do
  let workflow ← s.findById id workspaceId
  pure (s.deleteWorkflow workflow.id)

/-! ## 6. Runs -/

inductive CanvasRequest (uuid : Type)
  | create (workspaceId userId : uuid) (dto : CreateWorkflowDto uuid)
  | saveCanvas (id workspaceId userId : uuid) (dto : SaveCanvasDto uuid)
  | restoreVersion (id workspaceId versionId userId : uuid)
  | duplicate (id workspaceId userId : uuid)
  | importWorkflow (workspaceId userId : uuid) (dto : ImportWorkflowDto)
  | remove (id workspaceId : uuid)
  | createNode (workflowId workspaceId : uuid) (dto : CanvasNode uuid)
  | updateNode (id workspaceId : uuid) (dto : UpdateNodeDto uuid)
  | removeNode (id workspaceId : uuid)
  | createEdge (workflowId workspaceId : uuid) (dto : CanvasEdge uuid)
  | removeEdge (id workspaceId : uuid)

/-- A request, with the ids that are drawn for it and what the other subsystems answer. -/
structure CanvasCall (uuid : Type) where
  request : CanvasRequest uuid
  drawn : DrawnIds uuid
  gates : CanvasGates uuid

def CanvasCall.run (c : CanvasCall uuid) (s : Store uuid) : Except ServiceException (Store uuid) :=
  match c.request with
  | .create workspaceId userId dto => Workflows.create c.gates c.drawn s workspaceId userId dto
  | .saveCanvas id workspaceId userId dto => writeCanvas c.gates c.drawn s id workspaceId userId dto .save
  | .restoreVersion id workspaceId versionId userId =>
    Workflows.restoreVersion c.gates c.drawn s id workspaceId versionId userId
  | .duplicate id workspaceId userId => Workflows.duplicate c.gates c.drawn s id workspaceId userId
  | .importWorkflow workspaceId userId dto =>
    if dto.valid then Workflows.importWorkflow c.gates c.drawn s workspaceId userId dto
    else .error (validationError "Validation failed")
  | .remove id workspaceId => Workflows.remove s id workspaceId
  | .createNode workflowId workspaceId dto => Workflows.createNode c.gates s workflowId workspaceId dto
  | .updateNode id workspaceId dto => Workflows.updateNode c.gates s id workspaceId dto
  | .removeNode id workspaceId => Workflows.removeNode s id workspaceId
  | .createEdge workflowId workspaceId dto =>
    Workflows.createEdge s (c.drawn.edge 0) workflowId workspaceId dto
  | .removeEdge id workspaceId => Workflows.removeEdge s id workspaceId

/-- A request that throws is rolled back. -/
def storeAfter (calls : List (CanvasCall uuid)) : Store uuid :=
  calls.foldl (fun s c => (c.run s).toOption.getD s) .empty

end Clemvion.Workflows
