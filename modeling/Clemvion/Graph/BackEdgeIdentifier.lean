import Mathlib.Logic.Relation
import Mathlib.Data.List.Nodup
import Mathlib.Data.List.Sigma
import Mathlib.Algebra.Order.BigOperators.Group.List
import Mathlib.Algebra.Order.Ring.Nat
import Clemvion.Library.While
import Clemvion.Library.ListOrder
import Clemvion.Graph.GraphBuilder

/-!
# BackEdgeIdentifier — the coloured depth-first search behind `identifyBackEdges`

The source keeps edge *objects* in a `Set`, so two equal edges are classified separately; here
an edge object is an edge together with its position in the input list.  The search keeps an
explicit stack of frames, each with a cursor into the out-edges of its node.

Two facts are drawn from the search: the finishing order ranks every edge that is not a
back-edge strictly upwards, and every back-edge closes a path of such edges.
-/

open Clemvion.Library

set_option linter.unusedSectionVars false

namespace Clemvion.Graph

variable {Id : Type} [DecidableEq Id]

structure BackEdgeResult (Id : Type) where
  forwardEdges : List (GraphEdge Id)
  backEdges : List (GraphEdge Id)

/-- An edge object: the edge and its identity. -/
abbrev EdgeRef (Id : Type) := GraphEdge Id × Nat

inductive Color
  | white | gray | black
  deriving DecidableEq, Repr

structure Frame (Id : Type) where
  nodeId : Id
  edgeIndex : Nat
  deriving DecidableEq, Repr

/-- The variables of the search; the top of the stack is the head of the list. -/
structure DfsState (Id : Type) where
  color : Id → Color
  stack : List (Frame Id)
  backEdgeSet : List Nat

/-- Both endpoints are nodes of the graph; the passes skip every other edge. -/
def isKnownEdge (nodeIds : List Id) (e : GraphEdge Id) : Bool :=
  e.sourceNodeId ∈ nodeIds && e.targetNodeId ∈ nodeIds

/-- `adjacency.get(id)`: the known edges leaving `id`, in input order. -/
def adjacencyOf (nodeIds : List Id) (edges : List (GraphEdge Id)) (id : Id) :
    List (EdgeRef Id) :=
  edges.zipIdx.filter fun r => isKnownEdge nodeIds r.1 && r.1.sourceNodeId = id

/-- One pass through the body of `while (stack.length > 0)`. -/
def dfsStep (adjacency : Id → List (EdgeRef Id)) (s : DfsState Id) : DfsState Id :=
  match s.stack with
  | [] => s
  | top :: rest =>
    match (adjacency top.nodeId)[top.edgeIndex]? with
    | none => { s with color := Function.update s.color top.nodeId .black, stack := rest }
    | some (edge, ref) =>
      let top' := { top with edgeIndex := top.edgeIndex + 1 }
      match s.color edge.targetNodeId with
      | .gray => { s with stack := top' :: rest, backEdgeSet := ref :: s.backEdgeSet }
      | .white =>
        { s with
          color := Function.update s.color edge.targetNodeId .gray
          stack := ⟨edge.targetNodeId, 0⟩ :: top' :: rest }
      | .black => { s with stack := top' :: rest }

def stackNonempty (s : DfsState Id) : Bool := !s.stack.isEmpty

/-- The body of `for (const startId of nodeIds)`. -/
def dfsFrom (adjacency : Id → List (EdgeRef Id)) (fuel : Nat) (s : DfsState Id) (startId : Id) :
    DfsState Id :=
  if s.color startId = .white then
    whileLoop stackNonempty (dfsStep adjacency) fuel
      { s with color := Function.update s.color startId .gray, stack := [⟨startId, 0⟩] }
  else s

/-- The search over every start node. -/
def dfsAll (fuel : Nat) (nodeIds : List Id) (edges : List (GraphEdge Id)) : DfsState Id :=
  nodeIds.foldl (dfsFrom (adjacencyOf nodeIds edges) fuel)
    { color := fun _ => .white, stack := [], backEdgeSet := [] }

/-- One iteration for every out-edge and one for the pop, for every node. -/
def dfsFuel (nodeIds : List Id) (edges : List (GraphEdge Id)) : Nat :=
  (nodeIds.map fun id => (adjacencyOf nodeIds edges id).length + 1).sum

def identifyBackEdgesWith (fuel : Nat) (nodes : List (GraphNode Id))
    (edges : List (GraphEdge Id)) : BackEdgeResult Id :=
  let nodeIds := setOf (nodes.map (·.id))
  let backEdgeSet := (dfsAll fuel nodeIds edges).backEdgeSet
  { forwardEdges := (edges.zipIdx.filter fun r => r.2 ∉ backEdgeSet).map (·.1)
    backEdges := (edges.zipIdx.filter fun r => r.2 ∈ backEdgeSet).map (·.1) }

/-- `identifyBackEdges`: classify every edge as forward or back. -/
def identifyBackEdges (nodes : List (GraphNode Id)) (edges : List (GraphEdge Id)) :
    BackEdgeResult Id :=
  identifyBackEdgesWith (dfsFuel (setOf (nodes.map (·.id))) edges) nodes edges

/-! ## 1. The invariant of the search

`done` lists the black nodes, last finished first, and `cursor u` is the number of out-edges of
`u` that have been looked at.  Neither is a variable of the program.
-/

/-- `b` follows from `a` by an edge that was looked at and not classified as a back-edge. -/
def TreeStep (adjacency : Id → List (EdgeRef Id)) (backEdgeSet : List Nat) (cursor : Id → Nat)
    (a b : Id) : Prop :=
  ∃ i r, i < cursor a ∧ (adjacency a)[i]? = some r ∧ r.2 ∉ backEdgeSet ∧ r.1.targetNodeId = b

structure DfsInv (adjacency : Id → List (EdgeRef Id)) (s : DfsState Id) (done : List Id)
    (cursor : Id → Nat) : Prop where
  black_iff : ∀ v, s.color v = .black ↔ v ∈ done
  gray_iff : ∀ v, s.color v = .gray ↔ v ∈ s.stack.map (·.nodeId)
  stack_nodup : (s.stack.map (·.nodeId)).Nodup
  done_nodup : done.Nodup
  cursor_white : ∀ v, s.color v = .white → cursor v = 0
  cursor_black : ∀ v ∈ done, cursor v = (adjacency v).length
  cursor_frame : ∀ f ∈ s.stack, cursor f.nodeId = f.edgeIndex
  cursor_le : ∀ v, cursor v ≤ (adjacency v).length
  /-- An out-edge that was looked at is a back-edge, or its target is finished, or its target
  is still above its source on the stack. -/
  examined : ∀ u i r, i < cursor u → (adjacency u)[i]? = some r → r.2 ∉ s.backEdgeSet →
    r.1.targetNodeId ∈ done ∨ [r.1.targetNodeId, u].Sublist (s.stack.map (·.nodeId))
  finish_order : ∀ u ∈ done, ∀ r ∈ adjacency u, r.2 ∉ s.backEdgeSet →
    [u, r.1.targetNodeId].Sublist done
  /-- Lower frames of the stack reach the upper ones. -/
  stack_path : s.stack.Pairwise fun upper lower =>
    Relation.ReflTransGen (TreeStep adjacency s.backEdgeSet cursor) lower.nodeId upper.nodeId
  back_examined : ∀ ref ∈ s.backEdgeSet, ∃ u i r, i < cursor u ∧ (adjacency u)[i]? = some r ∧
    r.2 = ref
  back_path : ∀ u, ∀ r ∈ adjacency u, r.2 ∈ s.backEdgeSet →
    Relation.ReflTransGen (TreeStep adjacency s.backEdgeSet cursor) r.1.targetNodeId u

/-- An edge object occurs once in the whole adjacency. -/
def DistinctRefs (adjacency : Id → List (EdgeRef Id)) : Prop :=
  ∀ (u v : Id) (i j : Nat) (r r' : EdgeRef Id), (adjacency u)[i]? = some r → (adjacency v)[j]? = some r' →
    r.2 = r'.2 → u = v ∧ i = j

variable {adjacency : Id → List (EdgeRef Id)} {s : DfsState Id} {done : List Id}
  {cursor : Id → Nat} {top : Frame Id} {rest : List (Frame Id)}

private theorem lt_cursor_update {u t : Id} {i k : Nat} (hk : cursor t = k)
    (h : i < Function.update cursor t (k + 1) u) : i < cursor u ∨ (u = t ∧ i = k) := by
  by_cases hu : u = t
  · subst hu
    rw [Function.update_self] at h
    rcases Nat.lt_succ_iff_lt_or_eq.mp h with hlt | heq
    · exact .inl (by omega)
    · exact .inr ⟨rfl, heq⟩
  · rw [Function.update_of_ne hu] at h
    exact .inl h

private theorem cursor_le_update {u t : Id} {k : Nat} (hk : cursor t = k) :
    cursor u ≤ Function.update cursor t (k + 1) u := by
  by_cases hu : u = t
  · subst hu
    rw [Function.update_self]
    omega
  · rw [Function.update_of_ne hu]

/-- Looking at one more out-edge keeps every tree step. -/
private theorem TreeStep.advance (hdist : DistinctRefs adjacency) {B B' : List Nat} {t a b : Id}
    {k : Nat} {r : EdgeRef Id} (hk : cursor t = k) (hr : (adjacency t)[k]? = some r)
    (hB : ∀ x ∈ B', x ∈ B ∨ x = r.2) (h : TreeStep adjacency B cursor a b) :
    TreeStep adjacency B' (Function.update cursor t (k + 1)) a b := by
  obtain ⟨i, r', hi, hr', hnot, rfl⟩ := h
  refine ⟨i, r', Nat.lt_of_lt_of_le hi (cursor_le_update hk), hr', ?_, rfl⟩
  intro hmem
  rcases hB _ hmem with hold | hnew
  · exact hnot hold
  · obtain ⟨rfl, rfl⟩ := hdist _ _ _ _ _ _ hr' hr hnew
    omega

namespace DfsInv

private theorem top_gray (hinv : DfsInv adjacency s done cursor) (hstack : s.stack = top :: rest) :
    s.color top.nodeId = .gray :=
  (hinv.gray_iff _).mpr (by simp [hstack])

private theorem top_not_done (hinv : DfsInv adjacency s done cursor)
    (hstack : s.stack = top :: rest) : top.nodeId ∉ done := by
  intro hmem
  have hblack := (hinv.black_iff _).mpr hmem
  rw [hinv.top_gray hstack] at hblack
  exact Color.noConfusion hblack

private theorem cursor_top (hinv : DfsInv adjacency s done cursor)
    (hstack : s.stack = top :: rest) : cursor top.nodeId = top.edgeIndex :=
  hinv.cursor_frame top (by simp [hstack])

private theorem rest_ne_top (hinv : DfsInv adjacency s done cursor)
    (hstack : s.stack = top :: rest) {f : Frame Id} (hf : f ∈ rest) :
    f.nodeId ≠ top.nodeId := by
  have hnodup := hinv.stack_nodup
  rw [hstack, List.map_cons, List.nodup_cons] at hnodup
  intro heq
  exact hnodup.1 (heq ▸ List.mem_map_of_mem hf)

/-- The edge under the cursor has not been classified yet. -/
private theorem fresh_ref (hinv : DfsInv adjacency s done cursor)
    (hdist : DistinctRefs adjacency) (hstack : s.stack = top :: rest) {r : EdgeRef Id}
    (hr : (adjacency top.nodeId)[top.edgeIndex]? = some r) : r.2 ∉ s.backEdgeSet := by
  intro hmem
  obtain ⟨u, i, r', hi, hr', heq⟩ := hinv.back_examined _ hmem
  obtain ⟨rfl, rfl⟩ := hdist _ _ _ _ _ _ hr' hr heq
  rw [hinv.cursor_top hstack] at hi
  omega

/-- The cursor facts after one more out-edge of the top frame was looked at. -/
private theorem cursor_advance (hinv : DfsInv adjacency s done cursor)
    (hstack : s.stack = top :: rest) {r : EdgeRef Id}
    (hr : (adjacency top.nodeId)[top.edgeIndex]? = some r) :
    let cursor' := Function.update cursor top.nodeId (top.edgeIndex + 1)
    (∀ v, s.color v = .white → cursor' v = 0) ∧
    (∀ v ∈ done, cursor' v = (adjacency v).length) ∧
    (∀ f ∈ rest, cursor' f.nodeId = f.edgeIndex) ∧
    ∀ v, cursor' v ≤ (adjacency v).length := by
  refine ⟨?_, ?_, ?_, ?_⟩
  · intro v hv
    have hne : v ≠ top.nodeId := by
      rintro rfl
      rw [hinv.top_gray hstack] at hv
      exact Color.noConfusion hv
    rw [Function.update_of_ne hne]
    exact hinv.cursor_white v hv
  · intro v hv
    have hne : v ≠ top.nodeId := fun heq => hinv.top_not_done hstack (heq ▸ hv)
    rw [Function.update_of_ne hne]
    exact hinv.cursor_black v hv
  · intro f hf
    rw [Function.update_of_ne (hinv.rest_ne_top hstack hf)]
    exact hinv.cursor_frame f (by simp [hstack, hf])
  · intro v
    by_cases hv : v = top.nodeId
    · subst hv
      rw [Function.update_self]
      exact (List.getElem?_eq_some_iff.mp hr).1
    · rw [Function.update_of_ne hv]
      exact hinv.cursor_le v

/-- The edge leads to a gray or a black node: only the cursor and the back-edge set move. -/
private theorem advance (hinv : DfsInv adjacency s done cursor) (hdist : DistinctRefs adjacency)
    (hstack : s.stack = top :: rest) {r : EdgeRef Id} {B : List Nat}
    (hr : (adjacency top.nodeId)[top.edgeIndex]? = some r)
    (hsub : ∀ x ∈ s.backEdgeSet, x ∈ B) (hB : ∀ x ∈ B, x ∈ s.backEdgeSet ∨ x = r.2)
    (hnew : r.2 ∉ B → r.1.targetNodeId ∈ done)
    (hback : r.2 ∈ B → Relation.ReflTransGen
      (TreeStep adjacency s.backEdgeSet cursor) r.1.targetNodeId top.nodeId) :
    DfsInv adjacency
      { s with
        stack := { top with edgeIndex := top.edgeIndex + 1 } :: rest, backEdgeSet := B }
      done (Function.update cursor top.nodeId (top.edgeIndex + 1)) := by
  have hcur := hinv.cursor_top hstack
  have hids : ({ top with edgeIndex := top.edgeIndex + 1 } :: rest).map (·.nodeId)
      = s.stack.map (·.nodeId) := by simp [hstack]
  have hmono : ∀ a b, Relation.ReflTransGen (TreeStep adjacency s.backEdgeSet cursor) a b →
      Relation.ReflTransGen (TreeStep adjacency B
        (Function.update cursor top.nodeId (top.edgeIndex + 1))) a b :=
    Relation.ReflTransGen.mono fun _ _ hstep => TreeStep.advance hdist hcur hr hB hstep
  obtain ⟨hwhite, hblack, hframe, hle⟩ := hinv.cursor_advance hstack hr
  constructor
  case black_iff => exact hinv.black_iff
  case gray_iff => intro v; rw [hids]; exact hinv.gray_iff v
  case stack_nodup => rw [hids]; exact hinv.stack_nodup
  case done_nodup => exact hinv.done_nodup
  case cursor_white => exact hwhite
  case cursor_black => exact hblack
  case cursor_frame =>
    intro f hf
    rcases List.mem_cons.mp hf with rfl | hf
    · rw [Function.update_self]
    · exact hframe f hf
  case cursor_le => exact hle
  case examined =>
    intro u i r' hi hr' hnot
    rw [hids]
    rcases lt_cursor_update hcur hi with hold | ⟨rfl, rfl⟩
    · exact hinv.examined u i r' hold hr' fun hmem => hnot (hsub _ hmem)
    · obtain rfl : r = r' := by rw [hr] at hr'; exact Option.some.inj hr'
      exact .inl (hnew hnot)
  case finish_order =>
    intro u hu r' hr' hnot
    exact hinv.finish_order u hu r' hr' fun hmem => hnot (hsub _ hmem)
  case stack_path =>
    have hpath := hinv.stack_path
    rw [hstack, List.pairwise_cons] at hpath
    refine List.pairwise_cons.mpr ⟨?_, ?_⟩
    · intro lower hlower
      exact hmono _ _ (hpath.1 lower hlower)
    · exact hpath.2.imp fun h => hmono _ _ h
  case back_examined =>
    intro ref href
    rcases hB ref href with hold | rfl
    · obtain ⟨u, i, r', hi, hr', heq⟩ := hinv.back_examined ref hold
      exact ⟨u, i, r', Nat.lt_of_lt_of_le hi (cursor_le_update hcur), hr', heq⟩
    · exact ⟨top.nodeId, top.edgeIndex, r, by rw [Function.update_self]; omega, hr, rfl⟩
  case back_path =>
    intro u r' hr' hmem
    rcases hB _ hmem with hold | heq
    · exact hmono _ _ (hinv.back_path u r' hr' hold)
    · obtain ⟨i, hi⟩ := List.getElem?_of_mem hr'
      obtain ⟨rfl, rfl⟩ := hdist _ _ _ _ _ _ hi hr heq
      obtain rfl : r = r' := by rw [hr] at hi; exact Option.some.inj hi
      exact hmono _ _ (hback hmem)

/-- The edge leads to a white node: a frame for it is pushed. -/
private theorem push (hinv : DfsInv adjacency s done cursor) (hdist : DistinctRefs adjacency)
    (hstack : s.stack = top :: rest) {r : EdgeRef Id}
    (hr : (adjacency top.nodeId)[top.edgeIndex]? = some r)
    (hcolor : s.color r.1.targetNodeId = .white) :
    DfsInv adjacency
      { s with
        color := Function.update s.color r.1.targetNodeId .gray
        stack := ⟨r.1.targetNodeId, 0⟩ :: { top with edgeIndex := top.edgeIndex + 1 } :: rest }
      done (Function.update cursor top.nodeId (top.edgeIndex + 1)) := by
  have hcur := hinv.cursor_top hstack
  have hids : ({ top with edgeIndex := top.edgeIndex + 1 } :: rest).map (·.nodeId)
      = s.stack.map (·.nodeId) := by simp [hstack]
  have hmono : ∀ a b, Relation.ReflTransGen (TreeStep adjacency s.backEdgeSet cursor) a b →
      Relation.ReflTransGen (TreeStep adjacency s.backEdgeSet
        (Function.update cursor top.nodeId (top.edgeIndex + 1))) a b :=
    Relation.ReflTransGen.mono fun _ _ hstep =>
      TreeStep.advance hdist hcur hr (fun _ hx => .inl hx) hstep
  obtain ⟨hwhite, hblack, hframe, hle⟩ := hinv.cursor_advance hstack hr
  have hnotDone : r.1.targetNodeId ∉ done := by
    intro hmem
    rw [(hinv.black_iff _).mpr hmem] at hcolor
    exact Color.noConfusion hcolor
  have hnotStack : r.1.targetNodeId ∉ s.stack.map (·.nodeId) := by
    intro hmem
    rw [(hinv.gray_iff _).mpr hmem] at hcolor
    exact Color.noConfusion hcolor
  constructor
  case black_iff =>
    intro v
    by_cases hv : v = r.1.targetNodeId
    · subst hv
      simpa using hnotDone
    · simpa [Function.update_of_ne hv] using hinv.black_iff v
  case gray_iff =>
    intro v
    rw [List.map_cons, hids, List.mem_cons]
    by_cases hv : v = r.1.targetNodeId
    · subst hv
      simp
    · simpa [Function.update_of_ne hv, hv] using hinv.gray_iff v
  case stack_nodup =>
    rw [List.map_cons, hids]
    exact List.nodup_cons.mpr ⟨hnotStack, hinv.stack_nodup⟩
  case done_nodup => exact hinv.done_nodup
  case cursor_white =>
    intro v hv
    by_cases heq : v = r.1.targetNodeId
    · subst heq
      simp at hv
    · exact hwhite v (by simpa [Function.update_of_ne heq] using hv)
  case cursor_black => exact hblack
  case cursor_frame =>
    intro f hf
    rcases List.mem_cons.mp hf with rfl | hf
    · exact hwhite _ hcolor
    · rcases List.mem_cons.mp hf with rfl | hf
      · rw [Function.update_self]
      · exact hframe f hf
  case cursor_le => exact hle
  case examined =>
    intro u i r' hi hr' hnot
    rw [List.map_cons, hids]
    rcases lt_cursor_update hcur hi with hold | ⟨rfl, rfl⟩
    · exact (hinv.examined u i r' hold hr' hnot).imp_right fun h => h.cons _
    · obtain rfl : r = r' := by rw [hr] at hr'; exact Option.some.inj hr'
      refine .inr (List.Sublist.cons_cons _ ?_)
      simp [hstack]
  case finish_order => exact hinv.finish_order
  case stack_path =>
    have hpath := hinv.stack_path
    rw [hstack, List.pairwise_cons] at hpath
    have hstep : TreeStep adjacency s.backEdgeSet
        (Function.update cursor top.nodeId (top.edgeIndex + 1)) top.nodeId
        r.1.targetNodeId :=
      ⟨top.edgeIndex, r, by rw [Function.update_self]; omega, hr,
        hinv.fresh_ref hdist hstack hr, rfl⟩
    refine List.pairwise_cons.mpr ⟨?_, List.pairwise_cons.mpr ⟨?_, ?_⟩⟩
    · intro lower hlower
      rcases List.mem_cons.mp hlower with rfl | hlower
      · exact .single hstep
      · exact (hmono _ _ (hpath.1 lower hlower)).tail hstep
    · intro lower hlower
      exact hmono _ _ (hpath.1 lower hlower)
    · exact hpath.2.imp fun h => hmono _ _ h
  case back_examined =>
    intro ref href
    obtain ⟨u, i, r', hi, hr', heq⟩ := hinv.back_examined ref href
    exact ⟨u, i, r', Nat.lt_of_lt_of_le hi (cursor_le_update hcur), hr', heq⟩
  case back_path =>
    intro u r' hr' hmem
    exact hmono _ _ (hinv.back_path u r' hr' hmem)

private theorem not_above_top {a t : Id} {ids : List Id} (hnodup : (t :: ids).Nodup) :
    ¬ [a, t].Sublist (t :: ids) := by
  intro h
  have hnot := (List.nodup_cons.mp hnodup).1
  cases h with
  | cons _ h => exact hnot (h.subset (by simp))
  | cons_cons _ h => exact hnot (h.subset (by simp))

private theorem eq_or_above {a b t : Id} {ids : List Id} (h : [a, b].Sublist (t :: ids)) :
    a = t ∨ [a, b].Sublist ids := by
  cases h with
  | cons _ h => exact .inr h
  | cons_cons _ h => exact .inl rfl

/-- All out-edges of the top frame were looked at: its node is finished. -/
private theorem pop (hinv : DfsInv adjacency s done cursor) (hstack : s.stack = top :: rest)
    (hr : (adjacency top.nodeId)[top.edgeIndex]? = none) :
    DfsInv adjacency
      { s with color := Function.update s.color top.nodeId .black, stack := rest }
      (top.nodeId :: done) cursor := by
  have hcur := hinv.cursor_top hstack
  have hnodup := hinv.stack_nodup
  rw [hstack, List.map_cons] at hnodup
  have hlen : cursor top.nodeId = (adjacency top.nodeId).length := by
    have hge := List.getElem?_eq_none_iff.mp hr
    have hle := hinv.cursor_le top.nodeId
    omega
  constructor
  case black_iff =>
    intro v
    by_cases hv : v = top.nodeId
    · subst hv
      simp
    · simpa [Function.update_of_ne hv, hv] using hinv.black_iff v
  case gray_iff =>
    intro v
    by_cases hv : v = top.nodeId
    · subst hv
      simpa using (List.nodup_cons.mp hnodup).1
    · simpa [Function.update_of_ne hv, hstack, hv] using hinv.gray_iff v
  case stack_nodup => exact (List.nodup_cons.mp hnodup).2
  case done_nodup => exact List.nodup_cons.mpr ⟨hinv.top_not_done hstack, hinv.done_nodup⟩
  case cursor_white =>
    intro v hv
    by_cases heq : v = top.nodeId
    · subst heq
      simp at hv
    · exact hinv.cursor_white v (by simpa [Function.update_of_ne heq] using hv)
  case cursor_black =>
    intro v hv
    rcases List.mem_cons.mp hv with rfl | hv
    · exact hlen
    · exact hinv.cursor_black v hv
  case cursor_frame =>
    intro f hf
    exact hinv.cursor_frame f (by simp [hstack, hf])
  case cursor_le => exact hinv.cursor_le
  case examined =>
    intro u i r hi hr' hnot
    rcases hinv.examined u i r hi hr' hnot with hdone | habove
    · exact .inl (List.mem_cons_of_mem _ hdone)
    · rw [hstack, List.map_cons] at habove
      rcases eq_or_above habove with heq | habove
      · exact .inl (heq ▸ List.mem_cons_self)
      · exact .inr habove
  case finish_order =>
    intro u hu r hr' hnot
    rcases List.mem_cons.mp hu with rfl | hu
    · obtain ⟨i, hi⟩ := List.getElem?_of_mem hr'
      have hlt : i < cursor top.nodeId := by
        rw [hlen]
        exact (List.getElem?_eq_some_iff.mp hi).1
      rcases hinv.examined _ i r hlt hi hnot with hdone | habove
      · exact List.Sublist.cons_cons _ (List.singleton_sublist.mpr hdone)
      · rw [hstack, List.map_cons] at habove
        exact absurd habove (not_above_top hnodup)
    · exact (hinv.finish_order u hu r hr' hnot).cons _
  case stack_path =>
    have hpath := hinv.stack_path
    rw [hstack, List.pairwise_cons] at hpath
    exact hpath.2
  case back_examined => exact hinv.back_examined
  case back_path => exact hinv.back_path

end DfsInv

/-! ## 2. One step, and the whole search -/

/-- Iterations the search still has to make: the unseen out-edges and the pop of every node
that is not finished. -/
def remaining (adjacency : Id → List (EdgeRef Id)) (nodeIds : List Id) (done : List Id)
    (cursor : Id → Nat) : Nat :=
  (nodeIds.map fun v => if v ∈ done then 0 else (adjacency v).length + 1 - cursor v).sum

private theorem remaining_lt {nodeIds done' : List Id} {cursor' : Id → Nat} {t : Id}
    (ht : t ∈ nodeIds)
    (hlt : (if t ∈ done' then 0 else (adjacency t).length + 1 - cursor' t) <
      if t ∈ done then 0 else (adjacency t).length + 1 - cursor t)
    (hne : ∀ v, v ≠ t → (v ∈ done' ↔ v ∈ done) ∧ cursor' v = cursor v) :
    remaining adjacency nodeIds done' cursor' < remaining adjacency nodeIds done cursor := by
  refine List.sum_lt_sum _ _ ?_ ⟨t, ht, hlt⟩
  intro v _
  by_cases hv : v = t
  · subst hv
    exact hlt.le
  · obtain ⟨hdone, hcur⟩ := hne v hv
    simp only [hdone, hcur, le_refl]

/-- The loop invariant with its iteration count: `started` lists the start nodes so far. -/
def DfsLoopInv (adjacency : Id → List (EdgeRef Id)) (nodeIds started : List Id) (n : Nat)
    (s : DfsState Id) : Prop :=
  (∀ v, s.color v ≠ .white → v ∈ nodeIds) ∧ (∀ v ∈ started, s.color v ≠ .white) ∧
  ∃ done cursor, DfsInv adjacency s done cursor ∧ remaining adjacency nodeIds done cursor ≤ n

/-- **One iteration** keeps the invariant and uses up one unit of the measure. -/
theorem dfsStep_inv (hdist : DistinctRefs adjacency) {nodeIds started : List Id}
    (hclosed : ∀ u, ∀ r ∈ adjacency u, r.1.targetNodeId ∈ nodeIds) (n : Nat) (s : DfsState Id)
    (hinv : DfsLoopInv adjacency nodeIds started n s) (hcond : stackNonempty s = true) :
    ∃ m, m < n ∧ DfsLoopInv adjacency nodeIds started m (dfsStep adjacency s) := by
  obtain ⟨hknown, hstarted, done, cursor, hinv, hn⟩ := hinv
  obtain ⟨top, rest, hstack⟩ : ∃ top rest, s.stack = top :: rest := by
    cases hs : s.stack with
    | nil => simp [stackNonempty, hs] at hcond
    | cons top rest => exact ⟨top, rest, rfl⟩
  have hcur := hinv.cursor_top hstack
  have htop : top.nodeId ∈ nodeIds := hknown _ (by rw [hinv.top_gray hstack]; decide)
  have hnotDone := hinv.top_not_done hstack
  -- moving the cursor of the top frame pays for the iteration
  have hadvance : ∀ r, (adjacency top.nodeId)[top.edgeIndex]? = some r →
      remaining adjacency nodeIds done (Function.update cursor top.nodeId (top.edgeIndex + 1)) <
        remaining adjacency nodeIds done cursor := by
    intro r hr
    have hlt := (List.getElem?_eq_some_iff.mp hr).1
    refine remaining_lt htop ?_ fun v hv => ⟨Iff.rfl, Function.update_of_ne hv _ _⟩
    rw [if_neg hnotDone, if_neg hnotDone, Function.update_self, hcur]
    omega
  cases hr : (adjacency top.nodeId)[top.edgeIndex]? with
  | none =>
    have hdec : remaining adjacency nodeIds (top.nodeId :: done) cursor <
        remaining adjacency nodeIds done cursor := by
      refine remaining_lt htop ?_ fun v hv => ⟨by simp [hv], rfl⟩
      have hle := hinv.cursor_le top.nodeId
      rw [if_pos List.mem_cons_self, if_neg hnotDone]
      omega
    refine ⟨_, Nat.lt_of_lt_of_le hdec hn, ?_, ?_, _, _, ?_, Nat.le_refl _⟩
    · intro v hv
      by_cases heq : v = top.nodeId
      · exact heq ▸ htop
      · exact hknown v (by simpa [dfsStep, hstack, hr, Function.update_of_ne heq] using hv)
    · intro v hv
      by_cases heq : v = top.nodeId
      · subst heq
        simp [dfsStep, hstack, hr]
      · simpa [dfsStep, hstack, hr, Function.update_of_ne heq] using hstarted v hv
    · simpa only [dfsStep, hstack, hr] using hinv.pop hstack hr
  | some r =>
    have hdec := hadvance r hr
    have htarget : r.1.targetNodeId ∈ nodeIds := hclosed _ r (List.mem_of_getElem? hr)
    have hfresh := hinv.fresh_ref hdist hstack hr
    cases hcolor : s.color r.1.targetNodeId with
    | gray =>
      refine ⟨_, Nat.lt_of_lt_of_le hdec hn, ?_, ?_, _, _, ?_, Nat.le_refl _⟩
      · simpa only [dfsStep, hstack, hr, hcolor] using hknown
      · simpa only [dfsStep, hstack, hr, hcolor] using hstarted
      · have hmem := (hinv.gray_iff _).mp hcolor
        have hpath := hinv.stack_path
        rw [hstack, List.pairwise_cons] at hpath
        have hback : Relation.ReflTransGen (TreeStep adjacency s.backEdgeSet cursor)
            r.1.targetNodeId top.nodeId := by
          rw [hstack, List.map_cons, List.mem_cons] at hmem
          rcases hmem with heq | hmem
          · rw [heq]
          · obtain ⟨f, hf, heq⟩ := List.mem_map.mp hmem
            rw [← heq]
            exact hpath.1 f hf
        simpa only [dfsStep, hstack, hr, hcolor] using
          hinv.advance hdist hstack hr (B := r.2 :: s.backEdgeSet)
            (fun _ hx => List.mem_cons_of_mem _ hx)
            (fun _ hx => (List.mem_cons.mp hx).symm)
            (fun hnot => absurd List.mem_cons_self hnot) (fun _ => hback)
    | white =>
      refine ⟨_, Nat.lt_of_lt_of_le hdec hn, ?_, ?_, _, _, ?_, Nat.le_refl _⟩
      · intro v hv
        by_cases heq : v = r.1.targetNodeId
        · exact heq ▸ htarget
        · exact hknown v
            (by simpa [dfsStep, hstack, hr, hcolor, Function.update_of_ne heq] using hv)
      · intro v hv
        by_cases heq : v = r.1.targetNodeId
        · subst heq
          simp [dfsStep, hstack, hr, hcolor]
        · simpa [dfsStep, hstack, hr, hcolor, Function.update_of_ne heq] using hstarted v hv
      · simpa only [dfsStep, hstack, hr, hcolor] using hinv.push hdist hstack hr hcolor
    | black =>
      refine ⟨_, Nat.lt_of_lt_of_le hdec hn, ?_, ?_, _, _, ?_, Nat.le_refl _⟩
      · simpa only [dfsStep, hstack, hr, hcolor] using hknown
      · simpa only [dfsStep, hstack, hr, hcolor] using hstarted
      · simpa only [dfsStep, hstack, hr, hcolor] using
          hinv.advance hdist hstack hr (fun _ hx => hx) (fun _ hx => .inl hx)
            (fun _ => (hinv.black_iff _).mp hcolor) (fun hmem => absurd hmem hfresh)

theorem dfsLoopInv_start {nodeIds started : List Id} {n : Nat} {startId : Id}
    (hinv : DfsLoopInv adjacency nodeIds started n s) (hstack : s.stack = [])
    (hmem : startId ∈ nodeIds) (hcolor : s.color startId = .white) :
    DfsLoopInv adjacency nodeIds (started ++ [startId]) n
      { s with color := Function.update s.color startId .gray, stack := [⟨startId, 0⟩] } := by
  obtain ⟨hknown, hstarted, done, cursor, hinv, hn⟩ := hinv
  have hne : ∀ v, s.color v ≠ .white → v ≠ startId := by
    rintro v hv rfl
    exact hv hcolor
  refine ⟨?_, ?_, done, cursor, ?_, hn⟩
  · intro v hv
    by_cases heq : v = startId
    · exact heq ▸ hmem
    · exact hknown v (by simpa [Function.update_of_ne heq] using hv)
  · intro v hv
    by_cases heq : v = startId
    · subst heq
      simp
    · have hold : v ∈ started := by simpa [heq] using hv
      simpa [Function.update_of_ne heq] using hstarted v hold
  · have hnotDone : startId ∉ done := by
      intro hdone
      exact hne _ (by rw [(hinv.black_iff _).mpr hdone]; decide) rfl
    constructor
    case black_iff =>
      intro v
      by_cases hv : v = startId
      · subst hv
        simpa using hnotDone
      · simpa [Function.update_of_ne hv] using hinv.black_iff v
    case gray_iff =>
      intro v
      by_cases hv : v = startId
      · subst hv
        simp
      · simpa [Function.update_of_ne hv, hstack, hv] using hinv.gray_iff v
    case stack_nodup => simp
    case done_nodup => exact hinv.done_nodup
    case cursor_white =>
      intro v hv
      by_cases heq : v = startId
      · subst heq
        simp at hv
      · exact hinv.cursor_white v (by simpa [Function.update_of_ne heq] using hv)
    case cursor_black => exact hinv.cursor_black
    case cursor_frame =>
      intro f hf
      obtain rfl := List.mem_singleton.mp hf
      exact hinv.cursor_white _ hcolor
    case cursor_le => exact hinv.cursor_le
    case examined =>
      intro u i r hi hr hnot
      rcases hinv.examined u i r hi hr hnot with hdone | habove
      · exact .inl hdone
      · simp [hstack] at habove
    case finish_order => exact hinv.finish_order
    case stack_path => exact List.pairwise_singleton _ _
    case back_examined => exact hinv.back_examined
    case back_path => exact hinv.back_path

theorem dfsFrom_inv (hdist : DistinctRefs adjacency) {nodeIds started : List Id}
    (hclosed : ∀ u, ∀ r ∈ adjacency u, r.1.targetNodeId ∈ nodeIds) {fuel n : Nat} {startId : Id}
    (hmem : startId ∈ nodeIds) (hinv : DfsLoopInv adjacency nodeIds started n s)
    (hstack : s.stack = []) (hn : n ≤ fuel) :
    (dfsFrom adjacency fuel s startId).stack = [] ∧ ∃ m, m ≤ fuel ∧
      DfsLoopInv adjacency nodeIds (started ++ [startId]) m (dfsFrom adjacency fuel s startId) := by
  by_cases hcolor : s.color startId = .white
  · simp only [dfsFrom, hcolor, if_true]
    obtain ⟨⟨k, hk, hinv'⟩, hstop⟩ := whileLoop_spec
      (fun k s => k ≤ fuel ∧ DfsLoopInv adjacency nodeIds (started ++ [startId]) k s)
      (fun k s h hcond => by
        obtain ⟨m, hm, h'⟩ := dfsStep_inv hdist hclosed k s h.2 hcond
        exact ⟨m, hm, by omega, h'⟩)
      fuel n _ ⟨hn, dfsLoopInv_start hinv hstack hmem hcolor⟩ hn
    exact ⟨by simpa [stackNonempty] using hstop, k, hk, hinv'⟩
  · simp only [dfsFrom, hcolor, if_false]
    refine ⟨hstack, n, hn, hinv.1, ?_, hinv.2.2⟩
    intro v hv
    rcases List.mem_append.mp hv with hv | hv
    · exact hinv.2.1 v hv
    · exact List.mem_singleton.mp hv ▸ hcolor

private theorem foldl_dfsFrom_inv (hdist : DistinctRefs adjacency) {nodeIds : List Id}
    (hclosed : ∀ u, ∀ r ∈ adjacency u, r.1.targetNodeId ∈ nodeIds) {fuel : Nat}
    (startIds started : List Id) (hsub : ∀ v ∈ startIds, v ∈ nodeIds) {n : Nat}
    (hinv : DfsLoopInv adjacency nodeIds started n s) (hstack : s.stack = []) (hn : n ≤ fuel) :
    (startIds.foldl (dfsFrom adjacency fuel) s).stack = [] ∧ ∃ m, m ≤ fuel ∧
      DfsLoopInv adjacency nodeIds (started ++ startIds) m
        (startIds.foldl (dfsFrom adjacency fuel) s) := by
  induction startIds generalizing s started n with
  | nil => exact ⟨hstack, n, hn, by simpa using hinv⟩
  | cons startId rest ih =>
    obtain ⟨hstack', m, hm, hinv'⟩ :=
      dfsFrom_inv hdist hclosed (hsub startId List.mem_cons_self) hinv hstack hn
    rw [List.foldl_cons, ← List.singleton_append, ← List.append_assoc]
    exact ih _ (fun v hv => hsub v (List.mem_cons_of_mem _ hv)) hinv' hstack' hm

/-- Once the budget covers the iterations left, more of it changes nothing. -/
private theorem foldl_dfsFrom_stable (hdist : DistinctRefs adjacency) {nodeIds : List Id}
    (hclosed : ∀ u, ∀ r ∈ adjacency u, r.1.targetNodeId ∈ nodeIds) {fuel fuel' : Nat}
    (hfuel : fuel ≤ fuel') (startIds started : List Id) (hsub : ∀ v ∈ startIds, v ∈ nodeIds)
    {n : Nat} (hinv : DfsLoopInv adjacency nodeIds started n s) (hstack : s.stack = [])
    (hn : n ≤ fuel) :
    startIds.foldl (dfsFrom adjacency fuel') s = startIds.foldl (dfsFrom adjacency fuel) s := by
  induction startIds generalizing s started n with
  | nil => rfl
  | cons startId rest ih =>
    obtain ⟨hstack', m, hm, hinv'⟩ :=
      dfsFrom_inv hdist hclosed (hsub startId List.mem_cons_self) hinv hstack hn
    have hsame : dfsFrom adjacency fuel' s startId = dfsFrom adjacency fuel s startId := by
      by_cases hcolor : s.color startId = .white
      · simp only [dfsFrom, hcolor, if_true] at hstack' ⊢
        exact whileLoop_stable hfuel _ (by simp [stackNonempty, hstack'])
      · simp only [dfsFrom, hcolor, if_false]
    rw [List.foldl_cons, List.foldl_cons, hsame]
    exact ih _ (fun v hv => hsub v (List.mem_cons_of_mem _ hv)) hinv' hstack' hm

theorem mem_adjacencyOf {nodeIds : List Id} {edges : List (GraphEdge Id)} {id : Id}
    {r : EdgeRef Id} : r ∈ adjacencyOf nodeIds edges id ↔
      r ∈ edges.zipIdx ∧ isKnownEdge nodeIds r.1 = true ∧ r.1.sourceNodeId = id := by
  simp [adjacencyOf]

private theorem eq_of_ref_eq {edges : List (GraphEdge Id)} {r r' : EdgeRef Id}
    (hr : r ∈ edges.zipIdx) (hr' : r' ∈ edges.zipIdx) (heq : r.2 = r'.2) : r = r' := by
  rw [List.mem_zipIdx_iff_getElem?] at hr hr'
  rw [heq, hr'] at hr
  exact Prod.ext (Option.some.inj hr).symm heq

theorem distinctRefs_adjacencyOf (nodeIds : List Id) (edges : List (GraphEdge Id)) :
    DistinctRefs (adjacencyOf nodeIds edges) := by
  intro u v i j r r' hr hr' heq
  have hmem := mem_adjacencyOf.mp (List.mem_of_getElem? hr)
  have hmem' := mem_adjacencyOf.mp (List.mem_of_getElem? hr')
  obtain rfl : r = r' := eq_of_ref_eq hmem.1 hmem'.1 heq
  obtain rfl : u = v := hmem.2.2.symm.trans hmem'.2.2
  have hnodup : (adjacencyOf nodeIds edges u).Nodup :=
    (List.Nodup.of_map _ (List.nodup_zipIdx_map_snd edges)).filter _
  refine ⟨rfl, (List.getElem?_inj (List.getElem?_eq_some_iff.mp hr).1 hnodup).mp ?_⟩
  rw [hr, hr']

theorem adjacencyOf_closed (nodeIds : List Id) (edges : List (GraphEdge Id)) (u : Id)
    (r : EdgeRef Id) (hr : r ∈ adjacencyOf nodeIds edges u) : r.1.targetNodeId ∈ nodeIds := by
  have hknown := (mem_adjacencyOf.mp hr).2.1
  simp only [isKnownEdge, Bool.and_eq_true, decide_eq_true_eq] at hknown
  exact hknown.2

theorem dfsLoopInv_init (adjacency : Id → List (EdgeRef Id)) (nodeIds : List Id) :
    DfsLoopInv adjacency nodeIds [] (nodeIds.map fun id => (adjacency id).length + 1).sum
      { color := fun _ => .white, stack := [], backEdgeSet := [] } := by
  refine ⟨by simp, by simp, [], fun _ => 0, ?_, by simp [remaining]⟩
  constructor <;> simp

/-- **The search ends by itself** and finishes every node. -/
theorem dfsAll_spec (nodeIds : List Id) (edges : List (GraphEdge Id)) {fuel : Nat}
    (hfuel : dfsFuel nodeIds edges ≤ fuel) :
    (dfsAll fuel nodeIds edges).stack = [] ∧ ∃ done cursor,
      DfsInv (adjacencyOf nodeIds edges) (dfsAll fuel nodeIds edges) done cursor ∧
      ∀ v ∈ nodeIds, v ∈ done := by
  have hrun : (dfsAll fuel nodeIds edges).stack = [] ∧ ∃ m, m ≤ fuel ∧
      DfsLoopInv (adjacencyOf nodeIds edges) nodeIds ([] ++ nodeIds) m
        (dfsAll fuel nodeIds edges) :=
    foldl_dfsFrom_inv (distinctRefs_adjacencyOf nodeIds edges) (adjacencyOf_closed nodeIds edges)
      nodeIds [] (fun _ hv => hv) (dfsLoopInv_init _ nodeIds) rfl hfuel
  obtain ⟨hstack, m, -, -, hstarted, done, cursor, hinv, -⟩ := hrun
  refine ⟨hstack, done, cursor, hinv, ?_⟩
  intro v hv
  have hne := hstarted v hv
  refine (hinv.black_iff v).mp ?_
  cases hcolor : (dfsAll fuel nodeIds edges).color v with
  | white => exact absurd hcolor hne
  | gray =>
    have hmem := (hinv.gray_iff v).mp hcolor
    rw [hstack] at hmem
    exact absurd hmem List.not_mem_nil
  | black => rfl

theorem dfsAll_stable (nodeIds : List Id) (edges : List (GraphEdge Id)) {fuel : Nat}
    (hfuel : dfsFuel nodeIds edges ≤ fuel) :
    dfsAll fuel nodeIds edges = dfsAll (dfsFuel nodeIds edges) nodeIds edges :=
  foldl_dfsFrom_stable (distinctRefs_adjacencyOf nodeIds edges)
    (adjacencyOf_closed nodeIds edges) hfuel nodeIds [] (fun _ hv => hv)
    (dfsLoopInv_init _ nodeIds) rfl (Nat.le_refl _)

/-! ## 3. What the classification guarantees -/

/-- `identifyBackEdges` does not depend on the iteration budget. -/
theorem identifyBackEdgesWith_eq (nodes : List (GraphNode Id)) (edges : List (GraphEdge Id))
    {fuel : Nat} (hfuel : dfsFuel (setOf (nodes.map (·.id))) edges ≤ fuel) :
    identifyBackEdgesWith fuel nodes edges = identifyBackEdges nodes edges := by
  simp only [identifyBackEdges, identifyBackEdgesWith, dfsAll_stable _ edges hfuel]

/-- One step along a known edge of the list. -/
def EdgeStep (nodeIds : List Id) (edges : List (GraphEdge Id)) (a b : Id) : Prop :=
  ∃ e ∈ edges, isKnownEdge nodeIds e = true ∧ e.sourceNodeId = a ∧ e.targetNodeId = b

variable (nodes : List (GraphNode Id)) (edges : List (GraphEdge Id))

/-- The two lists split the input by position, each in input order. -/
theorem identifyBackEdges_partition : ∃ isBack : Nat → Bool,
    (identifyBackEdges nodes edges).forwardEdges =
        (edges.zipIdx.filter fun r => !isBack r.2).map (·.1) ∧
      (identifyBackEdges nodes edges).backEdges =
        (edges.zipIdx.filter fun r => isBack r.2).map (·.1) := by
  refine ⟨fun ref => ref ∈ (dfsAll (dfsFuel (setOf (nodes.map (·.id))) edges)
    (setOf (nodes.map (·.id))) edges).backEdgeSet, ?_, ?_⟩
  · simp [identifyBackEdges, identifyBackEdgesWith]
  · simp [identifyBackEdges, identifyBackEdgesWith]

theorem isKnownEdge_setOf (xs : List Id) (e : GraphEdge Id) :
    isKnownEdge (setOf xs) e = isKnownEdge xs e := by
  simp [isKnownEdge]

/-- **The forward edges are acyclic:** the finishing order ranks each of them upwards. -/
theorem forwardEdges_ranked : ∃ rank : Id → Nat,
    ∀ e ∈ (identifyBackEdges nodes edges).forwardEdges,
      isKnownEdge (nodes.map (·.id)) e = true → rank e.sourceNodeId < rank e.targetNodeId := by
  obtain ⟨-, done, cursor, hinv, hall⟩ :=
    dfsAll_spec (setOf (nodes.map (·.id))) edges (Nat.le_refl _)
  refine ⟨fun v => done.idxOf v, ?_⟩
  intro e he hknown
  simp only [identifyBackEdges, identifyBackEdgesWith, List.mem_map, List.mem_filter,
    decide_eq_true_eq] at he
  obtain ⟨r, ⟨hr, hnot⟩, rfl⟩ := he
  rw [← isKnownEdge_setOf] at hknown
  have hadj : r ∈ adjacencyOf (setOf (nodes.map (·.id))) edges r.1.sourceNodeId :=
    mem_adjacencyOf.mpr ⟨hr, hknown, rfl⟩
  have hsource : r.1.sourceNodeId ∈ done := by
    simp only [isKnownEdge, Bool.and_eq_true, decide_eq_true_eq] at hknown
    exact hall _ hknown.1
  exact idxOf_lt_of_pair_sublist hinv.done_nodup
    (hinv.finish_order _ hsource r hadj hnot)

/-- **A back-edge closes a path of forward edges** from its target to its source. -/
theorem backEdges_close_path {e : GraphEdge Id}
    (he : e ∈ (identifyBackEdges nodes edges).backEdges) :
    isKnownEdge (nodes.map (·.id)) e = true ∧
      Relation.ReflTransGen
        (EdgeStep (nodes.map (·.id)) (identifyBackEdges nodes edges).forwardEdges)
        e.targetNodeId e.sourceNodeId := by
  obtain ⟨-, done, cursor, hinv, -⟩ :=
    dfsAll_spec (setOf (nodes.map (·.id))) edges (Nat.le_refl _)
  simp only [identifyBackEdges, identifyBackEdgesWith, List.mem_map, List.mem_filter,
    decide_eq_true_eq] at he
  obtain ⟨r, ⟨hr, hback⟩, rfl⟩ := he
  obtain ⟨u, i, r', -, hr', heq⟩ := hinv.back_examined _ hback
  have hmem' := mem_adjacencyOf.mp (List.mem_of_getElem? hr')
  obtain rfl : r' = r := eq_of_ref_eq hmem'.1 hr heq
  refine ⟨by rw [← isKnownEdge_setOf]; exact hmem'.2.1, ?_⟩
  have hpath := hinv.back_path _ r' (mem_adjacencyOf.mpr ⟨hr, hmem'.2.1, rfl⟩) hback
  refine Relation.ReflTransGen.mono ?_ _ _ hpath
  rintro a b ⟨j, q, -, hq, hnot, rfl⟩
  have hqmem := mem_adjacencyOf.mp (List.mem_of_getElem? hq)
  refine ⟨q.1, ?_, by rw [← isKnownEdge_setOf]; exact hqmem.2.1, hqmem.2.2, rfl⟩
  simp only [identifyBackEdges, identifyBackEdgesWith, List.mem_map, List.mem_filter,
    decide_eq_true_eq]
  exact ⟨q, ⟨hqmem.1, hnot⟩, rfl⟩

end Clemvion.Graph
