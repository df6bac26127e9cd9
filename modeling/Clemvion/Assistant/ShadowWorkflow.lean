import Clemvion.Js.Value
import Clemvion.Library.KeyedMap
import Clemvion.Library.StackSearch

/-!
# ShadowWorkflow — the assistant's replica of the editor state

The five edit operations that the workflow assistant validates before it sends them to the
client.  A call's arguments come from the model unchecked, so they are arbitrary values.  The
injected collaborators (port resolver, config validator) may throw; what the state is then is
part of the outcome.
-/

open Clemvion.Js Clemvion.Library

namespace Clemvion.Assistant

/-! ## 1. Data -/

structure ShadowNode where
  id : String
  type : String
  category : String
  /-- A string, except that `update_node` stores whatever truthy value the patch holds. -/
  label : Value
  positionX : Number := .finite 0
  positionY : Number := .finite 0
  config : Value
  isDisabled : Bool := false
  containerId : Option String := none
  deriving DecidableEq

inductive EdgeType
  | data | error
  deriving DecidableEq

structure ShadowEdge where
  id : String
  sourceNodeId : String
  sourcePort : String
  targetNodeId : String
  targetPort : String
  type : EdgeType
  deriving DecidableEq

structure ShadowSnapshot where
  nodes : List ShadowNode
  edges : List ShadowEdge

inductive ShadowErrorCode
  | unknownTool | unknownNodeType | labelConflict | nodeNotFound | edgeNotFound
  | manualTriggerProtected | containerInvalidChild | cycleDetected | invalidArguments
  | invalidExpression | portNotFound
  deriving DecidableEq

structure ShadowRuntimePort where
  id : String
  type : EdgeType
  label : Option String := none
  deriving DecidableEq

structure ResolvedNodePorts where
  outputs : List ShadowRuntimePort
  inputs : List ShadowRuntimePort
  deriving DecidableEq

/-- The side of an edge on which a port is missing. -/
inductive PortSide
  | source | target
  deriving DecidableEq

structure PortInfo where
  side : PortSide
  attemptedPort : String
  nodeLabel : Value
  nodeType : String
  knownPorts : List String
  deriving DecidableEq

structure ExpressionValidationIssue where
  path : String
  message : String
  value : String
  deriving DecidableEq

structure ShadowResult where
  ok : Bool
  id : Option String := none
  removedEdgeIds : Option (List String) := none
  error : Option ShadowErrorCode := none
  suggested : Option String := none
  invalidExpressions : Option (List ExpressionValidationIssue) := none
  configWarnings : Option (List String) := none
  portInfo : Option PortInfo := none
  repeatCount : Option Nat := none
  ports : Option ResolvedNodePorts := none
  portsTruncated : Bool := false
  deriving DecidableEq

def ShadowResult.fail (error : ShadowErrorCode) : ShadowResult := { ok := false, error }

/-- The constructor's collaborators, and the two checks that live in other files. -/
structure ShadowDeps where
  knownNodeTypes : List String
  categoryByType : String → Option String
  defaultConfigByType : String → Value
  portResolver : Option (ShadowNode → Except String (Option ResolvedNodePorts))
  /-- The `errors` of `handler.validate`. -/
  configValidator : Option (String → Value → Except String (List String))
  /-- The issues of `validateConfigExpressions`. -/
  validateConfigExpressions : Value → List ExpressionValidationIssue
  normalizeNodeButtonIds : Value → Value
  /-- `${v}`. -/
  templateText : Value → String
  /-- `Number(v)`, which throws when `v` has no primitive value. -/
  toNumber : Value → Except String Number

structure ShadowWorkflow where
  nodes : KeyedMap ShadowNode.id
  edges : KeyedMap ShadowEdge.id
  labelConflictCounts : String → Nat

def ShadowWorkflow.ofSnapshot (snapshot : ShadowSnapshot) : ShadowWorkflow where
  nodes := .ofList snapshot.nodes
  edges := .ofList snapshot.edges
  labelConflictCounts := fun _ => 0

def ShadowWorkflow.snapshot (w : ShadowWorkflow) : ShadowSnapshot where
  nodes := w.nodes.values
  edges := w.edges.values

/-- The state a call leaves, and what it returns or throws. -/
abbrev Outcome := ShadowWorkflow × Except String ShadowResult

/-- The call returned `ok: false`, or threw. -/
def Outcome.Failed (outcome : Outcome) : Prop :=
  match outcome.2 with
  | .ok result => result.ok = false
  | .error _ => True

/-! ## 2. Queries -/

def manualTrigger : String := "manual_trigger"

def containerLoopbackPorts : List String := ["emit"]

def maxContainerDepth : Nat := 64

def labelConflictRepeatThreshold : Nat := 2

def runtimePortsMaxPerSide : Nat := 50

def buttonNodeTypes : List String := ["carousel", "chart", "table", "template"]

def resolveCategory (deps : ShadowDeps) (type : String) : String :=
  (deps.categoryByType type).getD (if type = manualTrigger then "trigger" else "logic")

def isTriggerCategory (deps : ShadowDeps) (type : String) : Bool :=
  resolveCategory deps type = "trigger"

namespace ShadowWorkflow

variable (deps : ShadowDeps) (w : ShadowWorkflow)

def findByLabel (label : Value) : Option ShadowNode :=
  w.nodes.values.find? fun n => n.label.strictEquals label

/-- `nodes.get(id)?.containerId ?? null`. -/
def containerOf (id : String) : Option String := (w.nodes.get? id).bind (·.containerId)

/-- The loop of `isAncestorContainer`, with the depth still allowed. -/
def climbsTo (candidateAncestorId : String) : Nat → List String → Option String → Bool
  | 0, _, _ => false
  | _, _, none => false
  | depth + 1, visited, some current =>
    if current = "" then false
    else if current = candidateAncestorId then true
    else if current ∈ visited then false
    else climbsTo candidateAncestorId depth (current :: visited) (w.containerOf current)

def isAncestorContainer (descendantId candidateAncestorId : String) : Bool :=
  w.climbsTo candidateAncestorId maxContainerDepth [] (w.containerOf descendantId)

/-- An edge from a child back to the `emit` port of an ancestor container. -/
def shouldBypassCycleCheck (sourceId targetId targetPort : String) : Bool :=
  targetPort ∈ containerLoopbackPorts && w.isAncestorContainer sourceId targetId

/-- `collectBypassableEdgeIds().has(edge.id)`. -/
def isBypassable (e : ShadowEdge) : Bool :=
  w.shouldBypassCycleCheck e.sourceNodeId e.targetNodeId e.targetPort

/-- The vertices that the search of `wouldCreateCycle` pushes from `cur`. -/
def ordinaryTargets (cur : String) : List String :=
  (w.edges.values.filter fun e => e.sourceNodeId = cur && !w.isBypassable e).map (·.targetNodeId)

/-- Does `targetId` lead to `sourceId` already? -/
def wouldCreateCycle (sourceId targetId : String) : Bool :=
  search w.ordinaryTargets (w.edges.values.map (·.sourceNodeId)).dedup targetId sourceId

/-- The first of `base (2)`, …, `base (99)` that is free, else one with four hex digits. -/
def suggestLabel (base : Value) (uuid : String) : String :=
  let text := deps.templateText base
  let candidates := (List.range 98).map fun i => text ++ " (" ++ toString (i + 2) ++ ")"
  (candidates.find? fun candidate => (w.findByLabel (.str candidate)).isNone).getD
    (text ++ " (" ++ String.ofList (uuid.toList.take 4) ++ ")")

/-- `buildRuntimePorts`, written into a success result. -/
def withRuntimePorts (nodeId : String) (result : ShadowResult) : Except String ShadowResult :=
  match deps.portResolver, w.nodes.get? nodeId with
  | some resolver, some node => do
    match ← resolver node with
    | none => return result
    | some resolved => return { result with
        ports := some
          { outputs := resolved.outputs.take runtimePortsMaxPerSide
            inputs := resolved.inputs.take runtimePortsMaxPerSide }
        portsTruncated := runtimePortsMaxPerSide < resolved.outputs.length ||
          runtimePortsMaxPerSide < resolved.inputs.length }
  | _, _ => return result

def portNotFound (side : PortSide) (attemptedPort : String) (node : ShadowNode)
    (knownPorts : List String) : ShadowResult :=
  { ShadowResult.fail .portNotFound with
    portInfo := some { side, attemptedPort, nodeLabel := node.label, nodeType := node.type
                       knownPorts } }

def validateEdgePorts (sourceId targetId sourcePort targetPort : String) :
    Except String (Option ShadowResult) :=
  match deps.portResolver, w.nodes.get? sourceId, w.nodes.get? targetId with
  | some resolver, some sourceNode, some targetNode => do
    let sourcePorts ← resolver sourceNode
    let targetPorts ← resolver targetNode
    let outputs := sourcePorts.map fun p => p.outputs.map (·.id)
    let inputs := targetPorts.map fun p => p.inputs.map (·.id)
    match outputs.filter (sourcePort ∉ ·), inputs.filter (targetPort ∉ ·) with
    | some known, _ => return some (portNotFound .source sourcePort sourceNode known)
    | none, some known =>
      if targetPort ∈ containerLoopbackPorts && w.isAncestorContainer sourceId targetId then
        return none
      else return some (portNotFound .target targetPort targetNode known)
    | none, none => return none
  | _, _, _ => return none

/-! ## 3. Operations -/

/-- `typeof args[key] === 'string' ? args[key] : ''`. -/
def stringArg (args : Value) (key : String) : String :=
  match args.field key with
  | .str s => s
  | _ => ""

/-- The first of two spellings of an argument that holds a string. -/
def stringArgOr (args : Value) (key key' default : String) : String :=
  match args.field key, args.field key' with
  | .str s, _ => s
  | _, .str s => s
  | _, _ => default

/-- `v ?? {}`, as the fields that a spread of it copies. -/
def fieldsOrEmpty : Value → List (String × Value)
  | .undefined | .null => []
  | v => v.ownFields

def containerIdArg (args : Value) : Option String :=
  match args.field "containerId" with
  | .str containerId => some containerId
  | _ => none

/-- The config of a new node: the type's defaults under the given values. -/
def newConfig (type : String) (args : Value) : Value :=
  let config := Value.obj
    (Value.spread (fieldsOrEmpty (deps.defaultConfigByType type))
      (.obj (fieldsOrEmpty (args.field "config"))))
  if type ∈ buttonNodeTypes then deps.normalizeNodeButtonIds config else config

/-- The warnings of `handler.validate`, at most five. -/
def configWarnings (type : String) (config : Value) : Except String (Option (List String)) :=
  match deps.configValidator with
  | none => .ok none
  | some validator => (validator type config).map fun errors =>
    if errors = [] then none else some (errors.take 5)

/-- `Number(position?.x ?? 0)` and `Number(position?.y ?? 0)`. -/
def newPosition (args : Value) : Except String (Number × Number) := do
  let coordinate (axis : String) : Value :=
    match (args.field "position").field axis with
    | .undefined | .null => .num (.finite 0)
    | v => v
  return (← deps.toNumber (coordinate "x"), ← deps.toNumber (coordinate "y"))

def noteLabelConflict (label : String) : ShadowWorkflow :=
  { w with
    labelConflictCounts :=
      Function.update w.labelConflictCounts label (w.labelConflictCounts label + 1) }

def addNode (args : Value) (uuid : String) : Outcome :=
  let type := stringArg args "type"
  let label := stringArg args "label"
  let config := newConfig deps type args
  let containerId := containerIdArg args
  if type = "" || label = "" then (w, .ok (.fail .invalidArguments))
  else if type ≠ manualTrigger && type ∉ deps.knownNodeTypes then
    (w, .ok (.fail .unknownNodeType))
  else if (w.findByLabel (.str label)).isSome then
    let w' := w.noteLabelConflict label
    let next := w'.labelConflictCounts label
    (w', .ok { ShadowResult.fail .labelConflict with
      suggested := some (w.suggestLabel deps (.str label) uuid)
      repeatCount := if labelConflictRepeatThreshold ≤ next then some next else none })
  else if containerId.any (fun c => c ≠ "" && !w.nodes.has c) then
    (w, .ok (.fail .nodeNotFound))
  else if containerId.any (fun c => c ≠ "") && isTriggerCategory deps type then
    (w, .ok (.fail .containerInvalidChild))
  else if deps.validateConfigExpressions config ≠ [] then
    (w, .ok { ShadowResult.fail .invalidExpression with
      invalidExpressions := some ((deps.validateConfigExpressions config).take 5) })
  else
    match configWarnings deps type config with
    | .error thrown => (w, .error thrown)
    | .ok warnings =>
      match newPosition deps args with
      | .error thrown => (w, .error thrown)
      | .ok (positionX, positionY) =>
        let node : ShadowNode :=
          { id := uuid, type, category := resolveCategory deps type, label := .str label
            positionX, positionY, config, containerId }
        let w' := { w with nodes := w.nodes.set node }
        (w', w'.withRuntimePorts deps uuid
          { ok := true, id := some uuid, configWarnings := warnings })

/-- The label that the patch asks for, when it is a new one. -/
def patchedLabel (patch : Value) (node : ShadowNode) : Option Value :=
  let label := patch.field "label"
  if label.truthy && !label.strictEquals node.label then some label else none

/-- The config that the patch leaves, when it has one. -/
def patchedConfig (patch : Value) (node : ShadowNode) : Option Value :=
  let config := patch.field "config"
  if config.truthy then
    let merged := Value.obj (Value.spread node.config.ownFields config)
    some (if node.type ∈ buttonNodeTypes then deps.normalizeNodeButtonIds merged else merged)
  else none

/-- The position that the patch leaves. -/
def patchedPosition (patch : Value) (node : ShadowNode) : Except String (Number × Number) :=
  let position := patch.field "position"
  let coordinate (axis : String) (current : Number) : Except String Number :=
    if position.truthy && position.field axis ≠ .undefined then deps.toNumber (position.field axis)
    else .ok current
  return (← coordinate "x" node.positionX, ← coordinate "y" node.positionY)

def updateNode (args : Value) (uuid : String) : Outcome :=
  let id := stringArg args "id"
  let patch := args.field "patch"
  match w.nodes.get? id with
  | none => (w, .ok (.fail .nodeNotFound))
  | some node =>
    if (patchedLabel patch node).any fun label => (w.findByLabel label).isSome then
      (w, .ok { ShadowResult.fail .labelConflict with
        suggested := some (w.suggestLabel deps (patch.field "label") uuid) })
    else if (patch.field "config").truthy &&
        deps.validateConfigExpressions (patch.field "config") ≠ [] then
      (w, .ok { ShadowResult.fail .invalidExpression with
        invalidExpressions :=
          some ((deps.validateConfigExpressions (patch.field "config")).take 5) })
    else
      match patchedPosition deps patch node with
      | .error thrown => (w, .error thrown)
      | .ok (positionX, positionY) =>
        let next := { node with
          label := (patchedLabel patch node).getD node.label
          positionX, positionY
          config := (patchedConfig deps patch node).getD node.config }
        let warnings :=
          if (patchedConfig deps patch node).isSome then configWarnings deps next.type next.config
          else .ok none
        match warnings with
        | .error thrown => (w, .error thrown)
        | .ok warnings =>
          let w' := { w with nodes := w.nodes.set next }
          (w', w'.withRuntimePorts deps id
            { ok := true, id := some id, configWarnings := warnings })

def removeNode (args : Value) : Outcome :=
  let id := stringArg args "id"
  match w.nodes.get? id with
  | none => (w, .ok (.fail .nodeNotFound))
  | some node =>
    if node.type = manualTrigger then (w, .ok (.fail .manualTriggerProtected))
    else
      let removedEdgeIds := (w.edges.values.filter fun e =>
        e.sourceNodeId = id || e.targetNodeId = id).map (·.id)
      ({ w with
          nodes := w.nodes.delete id
          edges := removedEdgeIds.foldl KeyedMap.delete w.edges },
        .ok { ok := true, id := some id, removedEdgeIds := some removedEdgeIds })

def addEdge (args : Value) (uuid : String) : Outcome :=
  let sourceId := stringArgOr args "source_id" "sourceId" ""
  let targetId := stringArgOr args "target_id" "targetId" ""
  let sourcePort := stringArgOr args "source_port" "sourcePort" "out"
  let targetPort := stringArgOr args "target_port" "targetPort" "in"
  let edgeType := if args.field "type" = .str "error" then EdgeType.error else .data
  if sourceId = "" || targetId = "" then (w, .ok (.fail .invalidArguments))
  else if sourceId = targetId then (w, .ok (.fail .cycleDetected))
  else if !w.nodes.has sourceId || !w.nodes.has targetId then (w, .ok (.fail .nodeNotFound))
  else
    match w.validateEdgePorts deps sourceId targetId sourcePort targetPort with
    | .error thrown => (w, .error thrown)
    | .ok (some refusal) => (w, .ok refusal)
    | .ok none =>
      if !w.shouldBypassCycleCheck sourceId targetId targetPort &&
          w.wouldCreateCycle sourceId targetId then
        (w, .ok (.fail .cycleDetected))
      else
        let edge : ShadowEdge :=
          { id := uuid, sourceNodeId := sourceId, sourcePort, targetNodeId := targetId, targetPort
            type := edgeType }
        ({ w with edges := w.edges.set edge }, .ok { ok := true, id := some uuid })

def removeEdge (args : Value) : Outcome :=
  let id := stringArg args "id"
  if id ≠ "" && w.edges.has id then
    ({ w with edges := w.edges.delete id }, .ok { ok := true, id := some id })
  else
    let sourceId := stringArg args "source_id"
    let targetId := stringArg args "target_id"
    let found := if sourceId ≠ "" && targetId ≠ "" then
        w.edges.values.find? fun e => e.sourceNodeId = sourceId && e.targetNodeId = targetId
      else none
    match found with
    | some edge => ({ w with edges := w.edges.delete edge.id }, .ok { ok := true, id := some edge.id })
    | none => (w, .ok (.fail .edgeNotFound))

end ShadowWorkflow

inductive ShadowToolName
  | addNode | updateNode | removeNode | addEdge | removeEdge
  /-- A name outside the union type. -/
  | other (name : String)
  deriving DecidableEq

structure ShadowToolCall where
  name : ShadowToolName
  arguments : Value

/-- `apply`; `uuid` is what `randomUUID` returns during the call. -/
def ShadowWorkflow.apply (deps : ShadowDeps) (w : ShadowWorkflow) (call : ShadowToolCall)
    (uuid : String) : Outcome :=
  match call.name with
  | .addNode => w.addNode deps call.arguments uuid
  | .updateNode => w.updateNode deps call.arguments uuid
  | .removeNode => w.removeNode call.arguments
  | .addEdge => w.addEdge deps call.arguments uuid
  | .removeEdge => w.removeEdge call.arguments
  | .other _ => (w, .ok (.fail .unknownTool))

end Clemvion.Assistant
