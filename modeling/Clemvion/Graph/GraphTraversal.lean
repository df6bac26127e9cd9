import Mathlib.Data.Finset.Basic
import Clemvion.Js.Value
import Clemvion.Graph.TopologicalSort

/-!
# GraphTraversal — edge indexes and reachability

The stateless graph operations of `graph-traversal.service.ts` and the graph state the dispatch
loops run on.  Which out-edges a node activates depends on its entry in the output cache: an
object with `_selectedPort` activates the selected ports only, everything else activates all.
-/

open Clemvion.Js Clemvion.Library

namespace Clemvion.Graph

variable {Id : Type} [LinearOrder Id]

/-- A value of the engine's flat output cache.  `wrapped` is the `WeakSet` mark that
`toEngineFlatShape` puts on the envelopes it builds around array and primitive outputs. -/
structure FlatValue where
  value : Value
  wrapped : Bool := false
  deriving DecidableEq

/-- `nodeOutputCache`: an absent key reads as `undefined`. -/
abbrev OutputCache (Id : Type) := Id → FlatValue

def emptyCache : OutputCache Id := fun _ => { value := .undefined }

/-- `isPortFiltered`: the output selects ports and this one is not among them. -/
def isPortFiltered (sourceOutput : Value) (edgeSourcePort : String) : Bool :=
  if sourceOutput.hasField "_selectedPort" then
    match sourceOutput.field "_selectedPort" with
    | .arr ports => !ports.isEmpty && !(Value.str edgeSourcePort ∈ ports)
    | selectedPort => Value.str edgeSourcePort ≠ selectedPort
  else false

/-- An entry of `backEdgeMap`. -/
structure BackEdgeTarget (Id : Type) where
  edge : GraphEdge Id
  targetIndex : Nat
  deriving DecidableEq

/-- What `loadAndBuildGraph` hands to the dispatch loops. -/
structure ExecutionGraphState (Id : Type) where
  graphEdges : List (GraphEdge Id)
  forwardEdges : List (GraphEdge Id)
  backEdges : List (GraphEdge Id)
  sortedNodeIds : List Id
  nodeMap : Id → Option (Node Id)
  maxNodeIterations : Nat

namespace ExecutionGraphState

variable (g : ExecutionGraphState Id)

/-- `sortedIndexMap.get(id)`. -/
def sortedIndex (id : Id) : Option Nat :=
  if id ∈ g.sortedNodeIds then some (g.sortedNodeIds.idxOf id) else none

/-- `outgoingEdgeMap.get(id)`: every graph edge leaving `id`, back-edges included. -/
def outgoingEdges (id : Id) : List (GraphEdge Id) :=
  g.graphEdges.filter fun e => e.sourceNodeId = id

/-- `incomingEdgeMap.get(id)`: every graph edge entering `id`, back-edges included. -/
def incomingEdges (id : Id) : List (GraphEdge Id) :=
  g.graphEdges.filter fun e => e.targetNodeId = id

/-- `backEdgeMap.get(id)`: the back-edges leaving `id` whose target has a position. -/
def backEdgesFrom (id : Id) : List (BackEdgeTarget Id) :=
  g.backEdges.filterMap fun e =>
    if e.sourceNodeId = id then (g.sortedIndex e.targetNodeId).map fun i => ⟨e, i⟩ else none

end ExecutionGraphState

/-- `new Map(nodes.map((n) => [n.id, n]))`: the last node with an id wins. -/
def nodeMapOf (nodes : List (Node Id)) (id : Id) : Option (Node Id) :=
  nodes.reverse.find? fun n => n.id = id

/-- `loadAndBuildGraph`, from the workflow's node and edge rows. -/
def loadAndBuildGraph (nodes : List (Node Id)) (edges : List (GraphEdge Id))
    (maxNodeIterations : Nat) : Except String (ExecutionGraphState Id) := do
  let built := buildGraph nodes edges
  let classified := identifyBackEdges built.graphNodes built.graphEdges
  let sortedNodeIds ← topologicalSort built.graphNodes classified.forwardEdges
  return {
    graphEdges := built.graphEdges
    forwardEdges := classified.forwardEdges
    backEdges := classified.backEdges
    sortedNodeIds
    nodeMap := nodeMapOf nodes
    maxNodeIterations }

/-- `seedInitialReachability`: the explicit entries, else the triggers, else the nodes without
an incoming forward edge. -/
def seedInitialReachability (g : ExecutionGraphState Id) (explicitEntryIds : List Id) :
    Finset Id :=
  if explicitEntryIds ≠ [] then
    (explicitEntryIds.filter fun id => (g.nodeMap id).isSome).toFinset
  else
    let triggers := g.sortedNodeIds.filter fun id =>
      ((g.nodeMap id).map (·.category)) = some .trigger
    if triggers ≠ [] then triggers.toFinset
    else (g.sortedNodeIds.filter fun id =>
      id ∉ g.forwardEdges.map (·.targetNodeId)).toFinset

/-- The targets of the out-edges that an output activates. -/
def activatedTargets (g : ExecutionGraphState Id) (sourceOutput : Value) (nodeId : Id) :
    List Id :=
  ((g.outgoingEdges nodeId).filter fun e =>
    !isPortFiltered sourceOutput e.sourcePort).map (·.targetNodeId)

/-- `propagateReachability`. -/
def propagateReachability (g : ExecutionGraphState Id) (cache : OutputCache Id) (nodeId : Id)
    (reachable : Finset Id) : Finset Id :=
  reachable ∪ (activatedTargets g (cache nodeId).value nodeId).toFinset

/-- `findActivatedBackEdge`: the first back-edge whose port is not filtered. -/
def findActivatedBackEdge (backEdges : List (BackEdgeTarget Id)) (sourceOutput : Value) :
    Option (BackEdgeTarget Id) :=
  backEdges.find? fun b => !isPortFiltered sourceOutput b.edge.sourcePort

/-! ## What the graph state guarantees -/

/-- The facts about the order and the edge classification that the loops rely on. -/
structure ExecutionGraphState.Scheduled (g : ExecutionGraphState Id) : Prop where
  nodup : g.sortedNodeIds.Nodup
  nodeMap_id : ∀ id node, g.nodeMap id = some node → node.id = id
  ends : ∀ e ∈ g.graphEdges, e.sourceNodeId ∈ g.sortedNodeIds ∧ e.targetNodeId ∈ g.sortedNodeIds
  split : ∀ e, e ∈ g.graphEdges ↔ e ∈ g.forwardEdges ∨ e ∈ g.backEdges
  forward_lt : ∀ e ∈ g.forwardEdges,
    g.sortedNodeIds.idxOf e.sourceNodeId < g.sortedNodeIds.idxOf e.targetNodeId
  back_le : ∀ e ∈ g.backEdges,
    g.sortedNodeIds.idxOf e.targetNodeId ≤ g.sortedNodeIds.idxOf e.sourceNodeId

theorem nodeMapOf_id (nodes : List (Node Id)) (id : Id) (node : Node Id)
    (h : nodeMapOf nodes id = some node) : node.id = id := by
  simpa using List.find?_some h

omit [LinearOrder Id] in
theorem mem_split_iff {edges : List (GraphEdge Id)} {isBack : Nat → Bool} (e : GraphEdge Id) :
    e ∈ edges ↔ e ∈ (edges.zipIdx.filter fun r => !isBack r.2).map (·.1) ∨
      e ∈ (edges.zipIdx.filter fun r => isBack r.2).map (·.1) := by
  simp only [List.mem_map, List.mem_filter, Prod.exists, exists_and_right, exists_eq_right]
  constructor
  · intro he
    obtain ⟨i, hi⟩ := List.getElem?_of_mem he
    have hmem : (e, i) ∈ edges.zipIdx := List.mem_zipIdx_iff_getElem?.mpr hi
    cases hb : isBack i with
    | false => exact .inl ⟨i, hmem, by simp [hb]⟩
    | true => exact .inr ⟨i, hmem, by simp [hb]⟩
  · rintro (⟨i, hmem, -⟩ | ⟨i, hmem, -⟩)
    · exact List.fst_mem_of_mem_zipIdx hmem
    · exact List.fst_mem_of_mem_zipIdx hmem

/-- Loading never fails, and orders exactly the top-level nodes. -/
theorem loadAndBuildGraph_ok (nodes : List (Node Id)) (edges : List (GraphEdge Id))
    (maxNodeIterations : Nat) : ∃ g, loadAndBuildGraph nodes edges maxNodeIterations = .ok g ∧
      g.Scheduled ∧ (∀ v, v ∈ g.sortedNodeIds ↔ v ∈ (buildGraph nodes edges).graphNodes.map (·.id)) ∧
      g.graphEdges = (buildGraph nodes edges).graphEdges ∧
      g.maxNodeIterations = maxNodeIterations := by
  obtain ⟨-, -, ⟨sorted, hsort, hnodup, hmem, hforward, hback⟩, isBack, hF, hB⟩ :=
    topologicalSort_identifyBackEdges (buildGraph nodes edges).graphNodes
      (buildGraph nodes edges).graphEdges
  have hends : ∀ e ∈ (buildGraph nodes edges).graphEdges,
      e.sourceNodeId ∈ sorted ∧ e.targetNodeId ∈ sorted := by
    intro e he
    simp only [buildGraph, List.mem_filter, Bool.and_eq_true, decide_eq_true_eq] at he
    rw [hmem, hmem]
    simpa [buildGraph] using he.2
  have hsplit : ∀ e, e ∈ (buildGraph nodes edges).graphEdges ↔
      e ∈ (identifyBackEdges (buildGraph nodes edges).graphNodes
        (buildGraph nodes edges).graphEdges).forwardEdges ∨
      e ∈ (identifyBackEdges (buildGraph nodes edges).graphNodes
        (buildGraph nodes edges).graphEdges).backEdges := by
    intro e
    rw [hF, hB]
    exact mem_split_iff e
  refine ⟨_, by simp only [loadAndBuildGraph, hsort]; rfl, ⟨hnodup, nodeMapOf_id nodes, hends, hsplit, ?_, ?_⟩,
    hmem, rfl, rfl⟩
  · intro e he
    have he' := hends e ((hsplit e).mpr (.inl he))
    exact hforward e he ((hmem _).mp he'.1) ((hmem _).mp he'.2)
  · intro e he
    exact (hback e he).2.2

theorem loadAndBuildGraph_scheduled {nodes : List (Node Id)} {edges : List (GraphEdge Id)}
    {maxNodeIterations : Nat} {g : ExecutionGraphState Id}
    (hg : loadAndBuildGraph nodes edges maxNodeIterations = .ok g) :
    g.Scheduled ∧ g.maxNodeIterations = maxNodeIterations := by
  obtain ⟨g', hg', hsched, -, -, hmax⟩ := loadAndBuildGraph_ok nodes edges maxNodeIterations
  rw [hg] at hg'
  cases hg'
  exact ⟨hsched, hmax⟩

/-- No directed cycle among the edges between top-level nodes. -/
def Acyclic (nodes : List (Node Id)) (edges : List (GraphEdge Id)) : Prop :=
  ∀ v, ¬ Relation.TransGen (fun a b => ∃ e ∈ (buildGraph nodes edges).graphEdges,
    e.sourceNodeId = a ∧ e.targetNodeId = b) v v

/-- An acyclic workflow has no back-edges, since each of them would close a cycle. -/
theorem loadAndBuildGraph_acyclic {nodes : List (Node Id)} {edges : List (GraphEdge Id)}
    {maxNodeIterations : Nat} {g : ExecutionGraphState Id}
    (hg : loadAndBuildGraph nodes edges maxNodeIterations = .ok g) (hacyclic : Acyclic nodes edges) :
    g.backEdges = [] := by
  have hbacks : g.backEdges = (identifyBackEdges (buildGraph nodes edges).graphNodes
      (buildGraph nodes edges).graphEdges).backEdges := by
    simp only [loadAndBuildGraph] at hg
    cases hsort : topologicalSort (buildGraph nodes edges).graphNodes
        (identifyBackEdges (buildGraph nodes edges).graphNodes
          (buildGraph nodes edges).graphEdges).forwardEdges with
    | error message =>
      rw [hsort] at hg
      cases hg
    | ok sorted =>
      rw [hsort] at hg
      cases hg
      rfl
  rw [hbacks]
  apply List.eq_nil_iff_forall_not_mem.mpr
  intro e he
  obtain ⟨isBack, hF, hB⟩ := identifyBackEdges_partition (buildGraph nodes edges).graphNodes
    (buildGraph nodes edges).graphEdges
  have hmem : ∀ e', (e' ∈ (identifyBackEdges (buildGraph nodes edges).graphNodes
        (buildGraph nodes edges).graphEdges).forwardEdges ∨
      e' ∈ (identifyBackEdges (buildGraph nodes edges).graphNodes
        (buildGraph nodes edges).graphEdges).backEdges) →
      e' ∈ (buildGraph nodes edges).graphEdges := by
    intro e'
    rw [hF, hB]
    exact (mem_split_iff e').mpr
  obtain ⟨-, hpath⟩ := backEdges_close_path _ _ he
  -- the path back to the source, then the back-edge itself
  apply hacyclic e.targetNodeId
  refine Relation.TransGen.tail' (b := e.sourceNodeId) ?_ ⟨e, hmem e (.inr he), rfl, rfl⟩
  apply Relation.ReflTransGen.mono ?_ _ _ hpath
  rintro a b ⟨e', he', -, hsource, htarget⟩
  exact ⟨e', hmem e' (.inl he'), hsource, htarget⟩

/-- A rank that every edge raises excludes cycles. -/
theorem acyclic_of_ranked {nodes : List (Node Id)} {edges : List (GraphEdge Id)} (rank : Id → Nat)
    (hrank : ∀ e ∈ edges, rank e.sourceNodeId < rank e.targetNodeId) : Acyclic nodes edges := by
  apply acyclic_of_rank rank
  rintro a b ⟨e, he, rfl, rfl⟩
  exact hrank e (List.mem_of_mem_filter he)

end Clemvion.Graph
