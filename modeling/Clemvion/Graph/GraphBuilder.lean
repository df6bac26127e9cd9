import Mathlib.Data.List.Nodup

/-!
# GraphBuilder — the graph the engine runs on

Nodes and edges as `graph-builder.ts` hands them to the scheduling passes: container children
and tool-area nodes are filtered out, and an edge survives only between two top-level nodes.
Node ids are compared and sorted by the engine but never inspected, so the id type stays
generic.
-/

namespace Clemvion.Graph

/-- `NodeCategory` of `node.entity.ts`. -/
inductive NodeCategory
  | trigger | logic | flow | ai | integration | data | presentation
  deriving DecidableEq, Repr

/-- The columns of a workflow node that scheduling reads. -/
structure Node (Id : Type) where
  id : Id
  type : String
  category : NodeCategory
  label : String
  isDisabled : Bool := false
  containerId : Option Id := none
  toolOwnerId : Option Id := none
  deriving DecidableEq, Repr

structure GraphNode (Id : Type) where
  id : Id
  deriving DecidableEq, Repr

structure GraphEdge (Id : Type) where
  sourceNodeId : Id
  sourcePort : String
  targetNodeId : Id
  targetPort : String
  deriving DecidableEq, Repr

structure GraphBuildResult (Id : Type) where
  graphNodes : List (GraphNode Id)
  graphEdges : List (GraphEdge Id)

variable {Id : Type} [DecidableEq Id]

/-- `new Set(xs)` in iteration order: every value once, at its first occurrence. -/
def setOf (xs : List Id) : List Id :=
  xs.foldl (fun seen x => if x ∈ seen then seen else seen ++ [x]) []

def isTopLevel (node : Node Id) : Bool :=
  node.containerId.isNone && node.toolOwnerId.isNone

/-- `buildGraph`: the top-level nodes and the edges between them. -/
def buildGraph (nodes : List (Node Id)) (edges : List (GraphEdge Id)) : GraphBuildResult Id :=
  let topLevelNodes := nodes.filter isTopLevel
  let topLevelNodeIds := topLevelNodes.map (·.id)
  { graphNodes := topLevelNodes.map fun n => ⟨n.id⟩
    graphEdges := edges.filter fun e =>
      e.sourceNodeId ∈ topLevelNodeIds && e.targetNodeId ∈ topLevelNodeIds }

/-! ## Insertion-ordered sets -/

private theorem foldl_setOf_mem (xs seen : List Id) (x : Id) :
    x ∈ xs.foldl (fun seen x => if x ∈ seen then seen else seen ++ [x]) seen ↔
      x ∈ seen ∨ x ∈ xs := by
  induction xs generalizing seen with
  | nil => simp
  | cons y ys ih =>
    rw [List.foldl_cons, ih]
    by_cases hy : y ∈ seen
    · rw [if_pos hy]
      constructor
      · rintro (h | h)
        · exact .inl h
        · exact .inr (List.mem_cons_of_mem _ h)
      · rintro (h | h)
        · exact .inl h
        · rcases List.mem_cons.mp h with rfl | h
          · exact .inl hy
          · exact .inr h
    · rw [if_neg hy]
      simp [or_assoc]

private theorem foldl_setOf_nodup (xs seen : List Id) (hseen : seen.Nodup) :
    (xs.foldl (fun seen x => if x ∈ seen then seen else seen ++ [x]) seen).Nodup := by
  induction xs generalizing seen with
  | nil => exact hseen
  | cons y ys ih =>
    rw [List.foldl_cons]
    by_cases hy : y ∈ seen
    · rw [if_pos hy]
      exact ih seen hseen
    · rw [if_neg hy]
      refine ih _ (List.Nodup.append hseen (List.nodup_singleton y) ?_)
      simpa using hy

@[simp] theorem mem_setOf {xs : List Id} {x : Id} : x ∈ setOf xs ↔ x ∈ xs := by
  simp [setOf, foldl_setOf_mem]

theorem nodup_setOf (xs : List Id) : (setOf xs).Nodup :=
  foldl_setOf_nodup xs [] List.nodup_nil

end Clemvion.Graph
