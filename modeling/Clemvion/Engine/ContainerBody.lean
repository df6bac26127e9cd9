import Mathlib.Data.Finset.Option
import Clemvion.Engine.GatherInput
import Clemvion.Graph.TopologicalSort

/-!
# ContainerBody — one iteration of a container

`planContainerBody` and `executeContainerBody`: the wiring of a ForEach, Loop or Map body, and the
loop over its nodes in topological order.  The set of executed nodes and the output cache are those
of the whole run and outlive the iteration.

What executing a body node does is left to the `BodyEnvironment`, which sees the whole state.
Beside the shared outputs the model keeps, as history, the outputs that an iteration started from
nothing would have by now; the last section says when the two give the same inputs.
-/

open Clemvion.Js Clemvion.Graph

namespace Clemvion.Engine

/-! ## 1. The plan -/

structure ContainerBodyPlan where
  childIds : List String
  bodyEntryNodeIds : List String
  emitSourceNodeId : String
  internalEdges : List (GraphEdge String)
  sortedNodeIds : List String
  nodeMap : String → Option (Node String)

def containerCycleMessage (containerNode cursor : Node String) : String :=
  "CONTAINER_CYCLE: Container \"" ++ containerNode.label ++
    "\" is part of a containerId cycle involving node \"" ++ cursor.label ++ "\"."

/-- The walk of `assertNoContainerCycle` from one child.  Every pass visits a node it has not
visited before, so one more pass than there are nodes never runs out. -/
def climbContainers (containerNode : Node String) (byId : String → Option (Node String)) :
    Nat → List String → Node String → Except String Unit
  | 0, _, cursor => .error (containerCycleMessage containerNode cursor)
  | fuel + 1, visited, cursor =>
    match cursor.containerId with
    | none => .ok ()
    | some containerId =>
      if cursor.id ∈ visited then .error (containerCycleMessage containerNode cursor)
      else
        match byId containerId with
        | none => .ok ()
        | some container =>
          climbContainers containerNode byId fuel (cursor.id :: visited) container

def assertNoContainerCycle (containerNode : Node String) (children : List (Node String))
    (byId : String → Option (Node String)) (allNodes : List (Node String)) : Except String Unit :=
  children.forM fun child => climbContainers containerNode byId (allNodes.length + 1) [] child

def pickContainerInternalEdges (childIds : List String) (allEdges : List (GraphEdge String)) :
    List (GraphEdge String) :=
  allEdges.filter fun e => e.sourceNodeId ∈ childIds && e.targetNodeId ∈ childIds

/-- The text for a container without an emit source, which depends on whether some wire reaches
its emit port from outside the body. -/
def missingEmitMessage (containerNode : Node String) (nodeMap : String → Option (Node String))
    (orphanEmitEdges : List (GraphEdge String)) : String :=
  if orphanEmitEdges ≠ [] then
    let sourceLabels := ", ".intercalate (orphanEmitEdges.map fun e =>
      ((nodeMap e.sourceNodeId).map (·.label)).getD e.sourceNodeId)
    "CONTAINER_MISSING_EMIT: Container \"" ++ containerNode.label ++
      "\" has an \"emit\" wire from \"" ++ sourceLabels ++
      "\" but that node isn't a body child of this container. Open its settings panel and set " ++
      "its \"Container\" to \"" ++ containerNode.label ++ "\"."
  else
    "CONTAINER_MISSING_EMIT: Container \"" ++ containerNode.label ++
      "\" has no body node wired to its \"emit\" port. Connect the node whose output should be " ++
      "collected."

def planContainerBody (containerNode : Node String) (allNodes : List (Node String))
    (allEdges : List (GraphEdge String)) : Except String ContainerBodyPlan := do
  let nodeMap := nodeMapOf allNodes
  let children := allNodes.filter fun n => n.containerId = some containerNode.id
  assertNoContainerCycle containerNode children nodeMap allNodes
  let childIds := children.map (·.id)
  match children.find? fun n => n.category = .trigger with
  | some triggerChild =>
    .error ("CONTAINER_INVALID_CHILD: Trigger node \"" ++ triggerChild.label ++
      "\" cannot be placed inside container \"" ++ containerNode.label ++ "\".")
  | none =>
    let bodyEntryNodeIds := (allEdges.filter fun e =>
      e.sourceNodeId = containerNode.id && e.sourcePort = "body").map (·.targetNodeId)
    let emitWires := allEdges.filter fun e =>
      e.targetNodeId = containerNode.id && e.targetPort = "emit"
    match emitWires.filter fun e => e.sourceNodeId ∈ childIds with
    | [] => .error (missingEmitMessage containerNode nodeMap emitWires)
    | [emitEdge] =>
      let internalEdges := pickContainerInternalEdges childIds allEdges
      let graphNodes := children.map fun n => { id := n.id : GraphNode String }
      let classified := identifyBackEdges graphNodes internalEdges
      if classified.backEdges ≠ [] then
        .error ("Container \"" ++ containerNode.label ++
          "\" body contains back-edges, which are not yet supported inside containers.")
      else
        let sortedNodeIds ← topologicalSort graphNodes classified.forwardEdges
        return {
          childIds, bodyEntryNodeIds, internalEdges, sortedNodeIds, nodeMap
          emitSourceNodeId := emitEdge.sourceNodeId }
    | emitEdges =>
      .error ("CONTAINER_MULTIPLE_EMIT: Container \"" ++ containerNode.label ++ "\" has " ++
        toString emitEdges.length ++
        " nodes wired to its \"emit\" port. Only one emit source is allowed.")

/-! ## 2. The outputs a run shares -/

/-- `executedNodes` and `nodeOutputCache`. -/
structure RunOutputs where
  executedNodes : Finset String
  nodeOutputCache : OutputCache String

def RunOutputs.none : RunOutputs where
  executedNodes := ∅
  nodeOutputCache := emptyCache

/-- A node executed; no output when the error policy skipped it or the node is disabled. -/
def RunOutputs.commit (outputs : RunOutputs) (nodeId : String) (output : Option FlatValue) :
    RunOutputs where
  executedNodes := insert nodeId outputs.executedNodes
  nodeOutputCache := match output with
    | some output => Function.update outputs.nodeOutputCache nodeId output
    | .none => outputs.nodeOutputCache

inductive BodyError
  /-- `ExecutionCancelledError`. -/
  | cancelled (message : String)
  /-- Any other error, with the code that `resolveIterationErrorCode` gives it. -/
  | failed (code message : String)
  deriving DecidableEq

/-- What executing a node, with the parallel run its kind adds, did. -/
structure BodyVisit where
  /-- The nodes that executed, in order. -/
  committed : List (String × Option FlatValue)
  /-- `runParallel` ran: the nodes it added to the reachable set. -/
  parallel : Option (List String) := none
  /-- What it threw, after these commits. -/
  error : Option BodyError := none

/-- History: a call of `gatherNodeInput`, with the state it saw. -/
structure BodyDispatch where
  nodeId : String
  shared : RunOutputs
  own : RunOutputs
  written : Finset String
  input : Value

structure BodyState where
  index : Nat
  iterInput : Value
  shared : RunOutputs
  reachable : Finset String
  ranInParallelBranches : Finset String := ∅
  /-- History, like the next two fields, which the program does not keep: the outputs of this
  iteration alone. -/
  own : RunOutputs := .none
  /-- The nodes that committed an output in this iteration. -/
  written : Finset String := ∅
  dispatches : List BodyDispatch := []

structure BodyEnvironment where
  /-- `assertExecutionNotCancelled`. -/
  boundary : BodyState → Option BodyError
  execute : BodyState → Node String → Value → BodyVisit

/-! ## 3. The loop over the body -/

/-- A node executed: both views of the outputs change. -/
def BodyState.commit (s : BodyState) (committed : String × Option FlatValue) : BodyState :=
  { s with
    shared := s.shared.commit committed.1 committed.2
    own := s.own.commit committed.1 committed.2
    written := if committed.2.isSome then insert committed.1 s.written else s.written }

def BodyState.commitAll (s : BodyState) (committed : List (String × Option FlatValue)) :
    BodyState :=
  committed.foldl BodyState.commit s

/-- The nodes that a visit wrote outputs for. -/
def BodyVisit.writtenNodeIds (visit : BodyVisit) : List String :=
  (visit.committed.filter fun c => c.2.isSome).map (·.1)

def blockingNodeMessage (containerNode node : Node String) : String :=
  "Blocking node \"" ++ node.label ++ "\" inside container \"" ++ containerNode.label ++
    "\" is not supported."

section Body

variable (env : BodyEnvironment) (containerNode : Node String) (plan : ContainerBodyPlan)

/-- `propagateReachability` over the edges of the body. -/
def ContainerBodyPlan.propagateReachability (nodeOutputCache : OutputCache String)
    (nodeId : String) (reachable : Finset String) : Finset String :=
  reachable ∪ ((plan.internalEdges.filter fun e => e.sourceNodeId = nodeId &&
    !isPortFiltered (nodeOutputCache nodeId).value e.sourcePort).map (·.targetNodeId)).toFinset

/-- The nodes an iteration starts from: those behind the `body` port, else the children without
an incoming internal edge. -/
def ContainerBodyPlan.initialReachable : Finset String :=
  if plan.bodyEntryNodeIds ≠ [] then
    (plan.bodyEntryNodeIds.filter fun id => id ∈ plan.childIds).toFinset
  else
    (plan.sortedNodeIds.filter fun id => id ∉ plan.internalEdges.map (·.targetNodeId)).toFinset

/-- `gatherNodeInput` over the edges of the body. -/
def ContainerBodyPlan.gatherInput (outputs : RunOutputs) (iterInput : Value) (nodeId : String) :
    Value :=
  gatherNodeInput nodeId plan.internalEdges outputs.executedNodes outputs.nodeOutputCache iterInput

/-- The input of the node is gathered. -/
def BodyState.dispatch (s : BodyState) (nodeId : String) : BodyState :=
  { s with
    dispatches := s.dispatches ++ [{
      nodeId, shared := s.shared, own := s.own, written := s.written
      input := plan.gatherInput s.shared s.iterInput nodeId }] }

/-- What follows `executeNode`, and `runParallel` for a parallel node. -/
def BodyState.leave (s : BodyState) (nodeId : String) (node : Node String) (visit : BodyVisit) :
    BodyState × Option BodyError :=
  match visit.error with
  | some error => (s, some error)
  | none =>
    match visit.parallel with
    | some marked =>
      ({ s with
          reachable := s.reachable ∪ marked.toFinset
          ranInParallelBranches := s.ranInParallelBranches ∪ visit.writtenNodeIds.toFinset }, none)
    | none =>
      if (s.shared.nodeOutputCache node.id).value.field "status" = .str "waiting_for_input" then
        (s, some (.failed "UNKNOWN_ERROR" (blockingNodeMessage containerNode node)))
      else
        ({ s with
            reachable :=
              plan.propagateReachability s.shared.nodeOutputCache nodeId s.reachable }, none)

/-- One turn of the loop over `sortedNodeIds`. -/
def bodyStep (s : BodyState) (nodeId : String) : BodyState × Option BodyError :=
  if nodeId ∈ s.reachable then
    match plan.nodeMap nodeId with
    | none => (s, none)
    | some node =>
      if node.isDisabled then (s.commit (nodeId, none), none)
      else
        let input := plan.gatherInput s.shared s.iterInput nodeId
        let visit := env.execute s node input
        ((s.dispatch plan nodeId).commitAll visit.committed).leave containerNode plan nodeId node
          visit
  else (s, none)

def runBody : List String → BodyState → BodyState × Option BodyError
  | [], s => (s, none)
  | nodeId :: nodeIds, s =>
    match bodyStep env containerNode plan s nodeId with
    | (s, some error) => (s, some error)
    | (s, none) => runBody nodeIds s

/-- What the container collects: nothing when the emit source did not run in this iteration. -/
def BodyState.collect (s : BodyState) (outputs : RunOutputs) : Value :=
  if plan.emitSourceNodeId ∈ s.reachable ∨ plan.emitSourceNodeId ∈ s.ranInParallelBranches then
    unwrapEngineFlatValue (outputs.nodeOutputCache plan.emitSourceNodeId)
  else .undefined

/-- One call of `executeContainerBody`, with the state it ended in. -/
structure Iteration where
  final : BodyState
  outcome : Except BodyError Value

def executeContainerBody (shared : RunOutputs) (index : Nat) (iterInput : Value) : Iteration :=
  let start : BodyState := { index, iterInput, shared, reachable := plan.initialReachable }
  if plan.sortedNodeIds = [] then { final := start, outcome := .ok .undefined }
  else
    match env.boundary start with
    | some error => { final := start, outcome := .error error }
    | none =>
      match runBody env containerNode plan plan.sortedNodeIds start with
      | (final, some error) => { final, outcome := .error error }
      | (final, none) => { final, outcome := .ok (final.collect plan final.shared) }

end Body

/-! ## 4. The shared outputs and those of the iteration -/

/-- The outputs of the iteration are part of the shared ones, and the entries it wrote are its
own. -/
structure Tracks (shared own : RunOutputs) (written : Finset String) : Prop where
  ran : own.executedNodes ⊆ shared.executedNodes
  wrote : ∀ nodeId ∈ written, own.nodeOutputCache nodeId = shared.nodeOutputCache nodeId
  unwritten : ∀ nodeId, nodeId ∉ written → own.nodeOutputCache nodeId = { value := .undefined }

theorem tracks_none (shared : RunOutputs) : Tracks shared .none ∅ where
  ran := Finset.empty_subset _
  wrote := by simp
  unwritten := fun _ _ => rfl

theorem Tracks.commit {shared own : RunOutputs} {written : Finset String}
    (h : Tracks shared own written) (nodeId : String) (output : Option FlatValue) :
    Tracks (shared.commit nodeId output) (own.commit nodeId output)
      (if output.isSome then insert nodeId written else written) where
  ran := Finset.insert_subset_insert _ h.ran
  wrote := by
    intro id hid
    cases output with
    | none => exact h.wrote id (by simpa using hid)
    | some output =>
      show Function.update own.nodeOutputCache nodeId output id =
        Function.update shared.nodeOutputCache nodeId output id
      by_cases heq : id = nodeId
      · rw [heq, Function.update_self, Function.update_self]
      · rw [Function.update_of_ne heq, Function.update_of_ne heq]
        exact h.wrote id (by simpa [heq] using hid)
  unwritten := by
    intro id hid
    cases output with
    | none => exact h.unwritten id (by simpa using hid)
    | some output =>
      have hmem : id ≠ nodeId ∧ id ∉ written := by simpa using hid
      show Function.update own.nodeOutputCache nodeId output id = _
      rw [Function.update_of_ne hmem.1]
      exact h.unwritten id hmem.2

/-- What the record of a dispatch says. -/
structure BodyDispatch.Recorded (plan : ContainerBodyPlan) (iterInput : Value)
    (d : BodyDispatch) : Prop where
  input : d.input = plan.gatherInput d.shared iterInput d.nodeId
  tracks : Tracks d.shared d.own d.written

structure BodyState.Sound (plan : ContainerBodyPlan) (iterInput : Value) (s : BodyState) :
    Prop where
  start : s.iterInput = iterInput
  tracks : Tracks s.shared s.own s.written
  recorded : ∀ d ∈ s.dispatches, d.Recorded plan iterInput

section Sound

variable (env : BodyEnvironment) (containerNode : Node String) {plan : ContainerBodyPlan}
  {iterInput : Value} {s : BodyState}

theorem BodyState.Sound.commit (h : s.Sound plan iterInput) (c : String × Option FlatValue) :
    (s.commit c).Sound plan iterInput where
  start := h.start
  tracks := h.tracks.commit c.1 c.2
  recorded := h.recorded

theorem BodyState.Sound.commitAll (h : s.Sound plan iterInput)
    (committed : List (String × Option FlatValue)) :
    (s.commitAll committed).Sound plan iterInput := by
  induction committed generalizing s with
  | nil => exact h
  | cons c committed ih => exact ih (h.commit c)

theorem BodyState.Sound.dispatch (h : s.Sound plan iterInput) (nodeId : String) :
    (s.dispatch plan nodeId).Sound plan iterInput where
  start := h.start
  tracks := h.tracks
  recorded := by
    intro d hd
    rcases List.mem_append.mp hd with hold | hnew
    · exact h.recorded d hold
    · rw [List.mem_singleton.mp hnew]
      exact { input := by rw [h.start], tracks := h.tracks }

theorem BodyState.Sound.leave (h : s.Sound plan iterInput) (nodeId : String) (node : Node String)
    (visit : BodyVisit) :
    (s.leave containerNode plan nodeId node visit).1.Sound plan iterInput := by
  unfold BodyState.leave
  split
  · exact h
  · split
    · exact { start := h.start, tracks := h.tracks, recorded := h.recorded }
    · split_ifs
      · exact h
      · exact { start := h.start, tracks := h.tracks, recorded := h.recorded }

theorem BodyState.Sound.bodyStep (h : s.Sound plan iterInput) (nodeId : String) :
    (bodyStep env containerNode plan s nodeId).1.Sound plan iterInput := by
  unfold Engine.bodyStep
  split_ifs
  · split
    · exact h
    · split_ifs
      · exact h.commit _
      · exact ((h.dispatch nodeId).commitAll _).leave containerNode nodeId _ _
  · exact h

theorem BodyState.Sound.runBody (h : s.Sound plan iterInput) (nodeIds : List String) :
    (runBody env containerNode plan nodeIds s).1.Sound plan iterInput := by
  induction nodeIds generalizing s with
  | nil => exact h
  | cons nodeId nodeIds ih =>
    have hstep := h.bodyStep env containerNode nodeId
    unfold Engine.runBody
    split
    · next s' error heq =>
      rw [heq] at hstep
      exact hstep
    · next s' heq =>
      rw [heq] at hstep
      exact ih hstep

theorem executeContainerBody_sound (plan : ContainerBodyPlan) (shared : RunOutputs) (index : Nat) (iterInput : Value) :
    (executeContainerBody env containerNode plan shared index iterInput).final.Sound plan
      iterInput := by
  have hstart : ({ index, iterInput, shared, reachable := plan.initialReachable } :
      BodyState).Sound plan iterInput :=
    { start := rfl, tracks := tracks_none shared, recorded := by simp }
  unfold executeContainerBody
  split_ifs
  · exact hstart
  · dsimp only
    split
    · exact hstart
    · have hfinal := hstart.runBody env containerNode plan.sortedNodeIds
      split
      · next heq => simpa only [heq] using hfinal
      · next heq => simpa only [heq] using hfinal

end Sound

/-! ## 5. When an iteration sees its own outputs only -/

section Isolation

variable (plan : ContainerBodyPlan)

/-- The source of an edge, when it has executed at all, did so in this iteration and wrote the
entry that the cache holds for it, if any. -/
def BodyDispatch.SettledSource (d : BodyDispatch) (sourceNodeId : String) : Prop :=
  sourceNodeId ∈ d.own.executedNodes ∧
    (sourceNodeId ∈ d.written ∨ d.shared.nodeOutputCache sourceNodeId = { value := .undefined })

/-- No predecessor of the dispatched node is left from an earlier iteration; beside other edges,
an edge whose port such a predecessor did not select does no harm. -/
def BodyDispatch.Fresh (d : BodyDispatch) : Prop :=
  ∀ edge ∈ plan.internalEdges.filter fun e => e.targetNodeId = d.nodeId,
    edge.sourceNodeId ∈ d.shared.executedNodes →
      d.SettledSource edge.sourceNodeId ∨
        1 < (plan.internalEdges.filter fun e => e.targetNodeId = d.nodeId).length ∧
          edge.sourceNodeId ∉ d.own.executedNodes ∧
          isPortFiltered (d.shared.nodeOutputCache edge.sourceNodeId).value edge.sourcePort

/-- An emit source that counts as having run wrote the entry that the cache holds for it, if
any. -/
def BodyState.FreshEmit (s : BodyState) : Prop :=
  plan.emitSourceNodeId ∈ s.reachable ∨ plan.emitSourceNodeId ∈ s.ranInParallelBranches →
    plan.emitSourceNodeId ∈ s.written ∨
      s.shared.nodeOutputCache plan.emitSourceNodeId = { value := .undefined }

structure Iteration.Fresh (iteration : Iteration) : Prop where
  dispatches : ∀ d ∈ iteration.final.dispatches, d.Fresh plan
  emit : iteration.final.FreshEmit plan

instance (d : BodyDispatch) : Decidable (d.Fresh plan) := by
  unfold BodyDispatch.Fresh BodyDispatch.SettledSource
  infer_instance

instance (s : BodyState) : Decidable (s.FreshEmit plan) := by
  unfold BodyState.FreshEmit
  infer_instance

instance (iteration : Iteration) : Decidable (iteration.Fresh plan) :=
  decidable_of_iff ((∀ d ∈ iteration.final.dispatches, d.Fresh plan) ∧
    iteration.final.FreshEmit plan) ⟨fun h => ⟨h.1, h.2⟩, fun h => ⟨h.dispatches, h.emit⟩⟩

/-- The value that an iteration collects out of the given outputs. -/
def Iteration.collected (iteration : Iteration) (outputs : RunOutputs) : Value :=
  if plan.sortedNodeIds = [] then .undefined else iteration.final.collect plan outputs

/-- Every input is what the iteration's own outputs give. -/
def Iteration.InputsIsolated (iteration : Iteration) : Prop :=
  ∀ d ∈ iteration.final.dispatches,
    d.input = plan.gatherInput d.own iteration.final.iterInput d.nodeId

instance (iteration : Iteration) : Decidable (iteration.InputsIsolated plan) := by
  unfold Iteration.InputsIsolated
  infer_instance

/-- So is the collected result. -/
structure Iteration.Isolated (iteration : Iteration) : Prop where
  inputs : iteration.InputsIsolated plan
  result : ∀ output, iteration.outcome = .ok output →
    output = iteration.collected plan iteration.final.own

variable {plan}

theorem Tracks.cache_eq {shared own : RunOutputs} {written : Finset String}
    (h : Tracks shared own written) {nodeId : String}
    (hfresh : nodeId ∈ written ∨ shared.nodeOutputCache nodeId = { value := .undefined }) :
    own.nodeOutputCache nodeId = shared.nodeOutputCache nodeId := by
  by_cases hwritten : nodeId ∈ written
  · exact h.wrote nodeId hwritten
  · rw [h.unwritten nodeId hwritten]
    exact (hfresh.resolve_left hwritten).symm

theorem BodyDispatch.Recorded.isolated {d : BodyDispatch} {iterInput : Value}
    (h : d.Recorded plan iterInput) (hfresh : d.Fresh plan) :
    d.input = plan.gatherInput d.own iterInput d.nodeId := by
  rw [h.input]
  apply inputFrom_congr
  intro edge hedge
  unfold deliver
  by_cases hexecuted : edge.sourceNodeId ∈ d.shared.executedNodes
  · obtain ⟨hran, hentry⟩ | ⟨hlength, hstale, hfiltered⟩ := hfresh edge hedge hexecuted
    · have hcache := h.tracks.cache_eq hentry
      left
      rw [if_pos hexecuted, if_pos hran, hcache]
    · right
      rw [if_pos hexecuted, if_pos hfiltered, if_neg hstale]
      exact ⟨hlength, rfl, rfl⟩
  · have hown : edge.sourceNodeId ∉ d.own.executedNodes := fun hmem => hexecuted (h.tracks.ran hmem)
    left
    rw [if_neg hexecuted, if_neg hown]

theorem BodyState.Sound.collect_own {iterInput : Value} {s : BodyState}
    (h : s.Sound plan iterInput) (hfresh : s.FreshEmit plan) :
    s.collect plan s.shared = s.collect plan s.own := by
  unfold BodyState.collect
  split_ifs with hran
  · rw [h.tracks.cache_eq (hfresh hran)]
  · rfl

theorem executeContainerBody_collected (env : BodyEnvironment) (containerNode : Node String)
    (shared : RunOutputs) (index : Nat) (iterInput output : Value)
    (h : (executeContainerBody env containerNode plan shared index iterInput).outcome =
      .ok output) :
    output = (executeContainerBody env containerNode plan shared index iterInput).collected plan
      (executeContainerBody env containerNode plan shared index iterInput).final.shared := by
  unfold Iteration.collected
  unfold executeContainerBody at h ⊢
  split_ifs at h ⊢
  · cases h
    rfl
  · dsimp only at h ⊢
    split at h
    · cases h
    · split at h
      · cases h
      · next heq =>
        cases h
        rfl

/-- One iteration, from any outputs an earlier one may have left. -/
theorem executeContainerBody_isolated (env : BodyEnvironment) (containerNode : Node String)
    (shared : RunOutputs) (index : Nat) (iterInput : Value)
    (hfresh : (executeContainerBody env containerNode plan shared index iterInput).Fresh plan) :
    (executeContainerBody env containerNode plan shared index iterInput).Isolated plan := by
  have hsound := executeContainerBody_sound env containerNode plan shared index iterInput
  refine { inputs := ?_, result := ?_ }
  · intro d hd
    rw [hsound.start]
    exact (hsound.recorded d hd).isolated (hfresh.dispatches d hd)
  · intro output houtput
    rw [executeContainerBody_collected env containerNode shared index iterInput output houtput]
    unfold Iteration.collected
    rw [hsound.collect_own hfresh.emit]

end Isolation

end Clemvion.Engine
