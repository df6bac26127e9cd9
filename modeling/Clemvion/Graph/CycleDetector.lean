import Mathlib.Data.List.Chain
import Clemvion.Graph.BackEdgeIdentifier
import Clemvion.Library.Loop

/-!
# CycleDetector — the search that stops at the first cycle

`detectCycle` runs the coloured search of `identifyBackEdges` on plain node ids and returns as soon
as it meets a gray neighbour, with the stack read back down to that neighbour.  Until then both
searches make the same moves, and the one that goes on has found no back-edge.
-/

open Clemvion.Library

set_option linter.unusedSectionVars false

namespace Clemvion.Graph

variable {Id : Type} [DecidableEq Id]

structure CycleDetectionResult (Id : Type) where
  hasCycle : Bool
  cyclePath : Option (List Id) := none

/-- `adjacency.get(id)`: the targets of the known edges leaving `id`, in input order. -/
def adjacentIds (nodeIds : List Id) (edges : List (GraphEdge Id)) (id : Id) : List Id :=
  (edges.filter fun e => isKnownEdge nodeIds e && e.sourceNodeId = id).map (·.targetNodeId)

structure NeighborFrame (Id : Type) where
  nodeId : Id
  neighborIndex : Nat

structure DetectState (Id : Type) where
  color : Id → Color
  stack : List (NeighborFrame Id)

/-- The nodes on the stack from the top down to `neighbor`. -/
def walkBack (neighbor : Id) : List (NeighborFrame Id) → List Id
  | [] => []
  | frame :: rest => frame.nodeId :: if frame.nodeId = neighbor then [] else walkBack neighbor rest

/-- One pass through the body of `while (stack.length > 0)`: the end of the loop, or a `return` with
    the path. -/
def detectStep (adjacency : Id → List Id) (s : DetectState Id) :
    DetectState Id × Option (Option (List Id)) :=
  match s.stack with
  | [] => (s, some none)
  | top :: rest =>
    match (adjacency top.nodeId)[top.neighborIndex]? with
    | none => ({ color := Function.update s.color top.nodeId .black, stack := rest }, none)
    | some neighbor =>
      let stack := { top with neighborIndex := top.neighborIndex + 1 } :: rest
      match s.color neighbor with
      | .gray => ({ s with stack }, some (some (neighbor :: walkBack neighbor stack).reverse))
      | .white =>
        ({ color := Function.update s.color neighbor .gray, stack := ⟨neighbor, 0⟩ :: stack }, none)
      | .black => ({ s with stack }, none)

/-- The body of `for (const startId of nodeIds)`. -/
def detectFrom (adjacency : Id → List Id) (fuel : Nat) (s : DetectState Id) (startId : Id) :
    DetectState Id × Option (List Id) :=
  if s.color startId = .white then
    match runLoop (detectStep adjacency) fuel
        { color := Function.update s.color startId .gray, stack := [⟨startId, 0⟩] } with
    | (s, some (some path)) => (s, some path)
    | (s, _) => (s, none)
  else (s, none)

def detectAll (adjacency : Id → List Id) (fuel : Nat) : DetectState Id → List Id → Option (List Id)
  | _, [] => none
  | s, startId :: rest =>
    match detectFrom adjacency fuel s startId with
    | (_, some path) => some path
    | (s, none) => detectAll adjacency fuel s rest

def detectCycleWith (fuel : Nat) (nodes : List (GraphNode Id)) (edges : List (GraphEdge Id)) :
    CycleDetectionResult Id :=
  let nodeIds := setOf (nodes.map (·.id))
  match detectAll (adjacentIds nodeIds edges) fuel { color := fun _ => .white, stack := [] } nodeIds with
  | some path => { hasCycle := true, cyclePath := some path }
  | none => { hasCycle := false }

/-- `detectCycle`: one more iteration than the search needs, to see the empty stack. -/
def detectCycle (nodes : List (GraphNode Id)) (edges : List (GraphEdge Id)) :
    CycleDetectionResult Id :=
  detectCycleWith (dfsFuel (setOf (nodes.map (·.id))) edges + 1) nodes edges

/-! ## 1. The path -/

/-- A walk that ends where it begins. -/
def ClosedWalk (r : Id → Id → Prop) (path : List Id) : Prop :=
  ∃ v middle, path = v :: (middle ++ [v]) ∧ path.IsChain r

theorem ClosedWalk.transGen {r : Id → Id → Prop} {path : List Id} (h : ClosedWalk r path) :
    ∃ v, Relation.TransGen r v v := by
  obtain ⟨v, middle, rfl, hchain⟩ := h
  refine ⟨v, ?_⟩
  cases middle with
  | nil =>
    rw [List.nil_append, List.isChain_cons_cons] at hchain
    exact .single hchain.1
  | cons w middle =>
    rw [List.cons_append, List.isChain_cons_cons] at hchain
    refine Relation.TransGen.head' hchain.1 ?_
    have hend : (w :: (middle ++ [v])).getLast (List.cons_ne_nil _ _) = v := by simp
    exact List.relationReflTransGen_of_exists_isChain_cons (middle ++ [v]) hchain.2 hend

/-- The walk back ends at the neighbour when the neighbour is on the stack. -/
theorem walkBack_spec {neighbor : Id} {stack : List (NeighborFrame Id)}
    (h : neighbor ∈ stack.map (·.nodeId)) :
    walkBack neighbor stack <+: stack.map (·.nodeId) ∧
      ∃ above, walkBack neighbor stack = above ++ [neighbor] := by
  induction stack with
  | nil => exact absurd h List.not_mem_nil
  | cons frame rest ih =>
    rw [walkBack]
    by_cases hframe : frame.nodeId = neighbor
    · rw [if_pos hframe]
      exact ⟨⟨rest.map (·.nodeId), rfl⟩, [], by rw [hframe, List.nil_append]⟩
    · rw [if_neg hframe]
      have hrest : neighbor ∈ rest.map (·.nodeId) := by
        rw [List.map_cons, List.mem_cons] at h
        exact h.resolve_left fun heq => hframe heq.symm
      obtain ⟨hbefore, above, habove⟩ := ih hrest
      refine ⟨List.cons_prefix_cons.mpr ⟨rfl, hbefore⟩, frame.nodeId :: above, ?_⟩
      rw [habove, List.cons_append]

/-- Each frame was pushed from the one below it. -/
def Trail (adjacency : Id → List Id) (stack : List (NeighborFrame Id)) : Prop :=
  (stack.map (·.nodeId)).IsChain fun upper lower => upper ∈ adjacency lower

/-- A gray neighbour closes the walk that the stack holds. -/
theorem closedWalk_walkBack {adjacency : Id → List Id} {top : NeighborFrame Id}
    {rest : List (NeighborFrame Id)} {neighbor : Id} (htrail : Trail adjacency (top :: rest))
    (hnext : neighbor ∈ adjacency top.nodeId) (hgray : neighbor ∈ (top :: rest).map (·.nodeId)) :
    ClosedWalk (fun a b => b ∈ adjacency a) (neighbor :: walkBack neighbor (top :: rest)).reverse := by
  obtain ⟨hbefore, above, habove⟩ := walkBack_spec hgray
  refine ⟨neighbor, above.reverse, ?_, ?_⟩
  · rw [habove, List.reverse_cons, List.reverse_append]
    rfl
  · rw [List.isChain_reverse]
    have hchain : (neighbor :: (top :: rest).map (·.nodeId)).IsChain
        fun upper lower => upper ∈ adjacency lower := by
      rw [List.map_cons, List.isChain_cons_cons]
      exact ⟨hnext, htrail⟩
    exact hchain.prefix (List.cons_prefix_cons.mpr ⟨rfl, hbefore⟩)

/-! ## 2. The same moves as `identifyBackEdges` -/

def NeighborFrame.toFrame (frame : NeighborFrame Id) : Frame Id := ⟨frame.nodeId, frame.neighborIndex⟩

/-- The two searches stand at the same place, and no back-edge was met. -/
structure Matches (adjacency : Id → List Id) (d : DetectState Id) (s : DfsState Id) : Prop where
  color : s.color = d.color
  stack : s.stack = d.stack.map NeighborFrame.toFrame
  noBack : s.backEdgeSet = []
  trail : Trail adjacency d.stack

variable {adjacency : Id → List (EdgeRef Id)} {neighbors : Id → List Id} {d d' : DetectState Id}
  {s : DfsState Id}

theorem Matches.map_nodeId (h : Matches neighbors d s) :
    s.stack.map (·.nodeId) = d.stack.map (·.nodeId) := by
  rw [h.stack, List.map_map]
  rfl

theorem getElem?_neighbors {targets : List Id} {refs : List (EdgeRef Id)}
    (h : targets = refs.map fun r => r.1.targetNodeId) (i : Nat) :
    targets[i]? = refs[i]?.map fun r => r.1.targetNodeId := by
  rw [h, List.getElem?_map]

/-- **One pass** of both searches: they move alike, or the one that detects returns a walk. -/
theorem detectStep_matches
    (hneighbors : ∀ u, neighbors u = (adjacency u).map fun r => r.1.targetNodeId)
    (h : Matches neighbors d s) (hgray : ∀ v, s.color v = .gray → v ∈ s.stack.map (·.nodeId))
    (hstack : s.stack ≠ []) :
    (∃ d', detectStep neighbors d = (d', none) ∧ Matches neighbors d' (dfsStep adjacency s)) ∨
      ∃ d' path, detectStep neighbors d = (d', some (some path)) ∧
        ClosedWalk (fun a b => b ∈ neighbors a) path := by
  obtain ⟨top, rest, hd⟩ : ∃ top rest, d.stack = top :: rest := by
    cases hd : d.stack with
    | nil =>
      rw [h.stack, hd] at hstack
      exact absurd rfl hstack
    | cons top rest => exact ⟨top, rest, rfl⟩
  have hs : s.stack = top.toFrame :: rest.map NeighborFrame.toFrame := by
    rw [h.stack, hd, List.map_cons]
  have htrail : Trail neighbors (top :: rest) := hd ▸ h.trail
  have hadvanced : Trail neighbors ({ top with neighborIndex := top.neighborIndex + 1 } :: rest) :=
    htrail
  have hnext := getElem?_neighbors (hneighbors top.nodeId) top.neighborIndex
  unfold detectStep dfsStep
  rw [hd, hs]
  cases href : (adjacency top.nodeId)[top.neighborIndex]? with
  | none =>
    rw [href] at hnext
    left
    simp only [hnext, Option.map_none, NeighborFrame.toFrame, href]
    refine ⟨_, rfl, ⟨by rw [h.color], rfl, h.noBack, ?_⟩⟩
    exact htrail.tail
  | some r =>
    rw [href] at hnext
    have hmem : r.1.targetNodeId ∈ neighbors top.nodeId := List.mem_of_getElem? hnext
    simp only [hnext, Option.map_some, NeighborFrame.toFrame, href]
    cases hcolor : d.color r.1.targetNodeId with
    | gray =>
      right
      refine ⟨_, _, rfl, closedWalk_walkBack hadvanced hmem ?_⟩
      have hon := hgray _ (by rw [h.color, hcolor])
      rwa [h.map_nodeId, hd] at hon
    | white =>
      left
      simp only [h.color, hcolor]
      refine ⟨_, rfl, ⟨rfl, rfl, h.noBack, ?_⟩⟩
      exact List.isChain_cons_cons.mpr ⟨hmem, hadvanced⟩
    | black =>
      left
      simp only [h.color, hcolor]
      exact ⟨_, rfl, ⟨rfl, rfl, h.noBack, hadvanced⟩⟩

theorem Matches.stack_eq_nil (h : Matches neighbors d s) (hstack : s.stack = []) : d.stack = [] := by
  rw [h.stack] at hstack
  exact List.map_eq_nil_iff.mp hstack

variable (adjacency) in
/-- With an empty stack both loops are over. -/
theorem runLoop_of_empty (h : Matches neighbors d s) (hstack : s.stack = []) (fuel fuel' : Nat) :
    runLoop (detectStep neighbors) (fuel + 1) d = (d, some none) ∧
      whileLoop stackNonempty (dfsStep adjacency) fuel' s = s := by
  refine ⟨?_, whileLoop_of_not_cond fuel' (by rw [stackNonempty, hstack]; rfl)⟩
  rw [runLoop, detectStep, h.stack_eq_nil hstack]

/-- The loop of one start node. -/
theorem runLoop_detectStep (hdist : DistinctRefs adjacency)
    (hneighbors : ∀ u, neighbors u = (adjacency u).map fun r => r.1.targetNodeId)
    {nodeIds started : List Id} (hclosed : ∀ u, ∀ r ∈ adjacency u, r.1.targetNodeId ∈ nodeIds)
    {n fuel : Nat} (h : Matches neighbors d s) (hinv : DfsLoopInv adjacency nodeIds started n s)
    (hend : (whileLoop stackNonempty (dfsStep adjacency) fuel s).stack = []) :
    (∃ d', runLoop (detectStep neighbors) (fuel + 1) d = (d', some none) ∧
        Matches neighbors d' (whileLoop stackNonempty (dfsStep adjacency) fuel s)) ∨
      ∃ d' path, runLoop (detectStep neighbors) (fuel + 1) d = (d', some (some path)) ∧
        ClosedWalk (fun a b => b ∈ neighbors a) path := by
  induction fuel generalizing d s n with
  | zero => exact .inl ⟨d, (runLoop_of_empty adjacency h hend 0 0).1, h⟩
  | succ fuel ih =>
    by_cases hstack : s.stack = []
    · obtain ⟨hrun, hwhile⟩ := runLoop_of_empty adjacency h hstack (fuel + 1) (fuel + 1)
      rw [hwhile]
      exact .inl ⟨d, hrun, h⟩
    · have hcond : stackNonempty s = true := by simpa [stackNonempty] using hstack
      have hgray : ∀ v, s.color v = .gray → v ∈ s.stack.map (·.nodeId) := by
        obtain ⟨-, -, done, cursor, hdfs, -⟩ := hinv
        exact fun v => (hdfs.gray_iff v).mp
      have hwhile : whileLoop stackNonempty (dfsStep adjacency) (fuel + 1) s =
          whileLoop stackNonempty (dfsStep adjacency) fuel (dfsStep adjacency s) := by
        rw [whileLoop, if_pos hcond]
      rcases detectStep_matches hneighbors h hgray hstack with ⟨d', hstep, h'⟩ | ⟨d', path, hstep, hpath⟩
      · obtain ⟨m, -, hinv'⟩ := dfsStep_inv hdist hclosed n s hinv hcond
        rw [hwhile] at hend ⊢
        have hrun : runLoop (detectStep neighbors) (fuel + 1 + 1) d =
            runLoop (detectStep neighbors) (fuel + 1) d' := by
          rw [runLoop, hstep]
        rw [hrun]
        exact ih h' hinv' hend
      · refine .inr ⟨d', path, ?_, hpath⟩
        rw [runLoop, hstep]

/-- The loop over the start nodes: a walk is returned, or the other search finds no back-edge. -/
theorem detectAll_spec (hdist : DistinctRefs adjacency)
    (hneighbors : ∀ u, neighbors u = (adjacency u).map fun r => r.1.targetNodeId)
    {nodeIds : List Id} (hclosed : ∀ u, ∀ r ∈ adjacency u, r.1.targetNodeId ∈ nodeIds) {fuel : Nat}
    (startIds started : List Id) (hsub : ∀ v ∈ startIds, v ∈ nodeIds) {n : Nat}
    (h : Matches neighbors d s) (hinv : DfsLoopInv adjacency nodeIds started n s)
    (hstack : s.stack = []) (hn : n ≤ fuel) :
    (detectAll neighbors (fuel + 1) d startIds = none ∧
        (startIds.foldl (dfsFrom adjacency fuel) s).backEdgeSet = []) ∨
      ∃ path, detectAll neighbors (fuel + 1) d startIds = some path ∧
        ClosedWalk (fun a b => b ∈ neighbors a) path := by
  induction startIds generalizing d s started n with
  | nil => exact .inl ⟨rfl, h.noBack⟩
  | cons startId rest ih =>
    have hmem := hsub startId List.mem_cons_self
    obtain ⟨hstack', m, hm, hinv'⟩ := dfsFrom_inv hdist hclosed hmem hinv hstack hn
    have hrest : ∀ v ∈ rest, v ∈ nodeIds := fun v hv => hsub v (List.mem_cons_of_mem _ hv)
    rw [List.foldl_cons, detectAll]
    unfold detectFrom
    by_cases hcolor : s.color startId = .white
    · have hwhile : dfsFrom adjacency fuel s startId = whileLoop stackNonempty (dfsStep adjacency) fuel
          { s with color := Function.update s.color startId .gray, stack := [⟨startId, 0⟩] } := if_pos hcolor
      have hstart : Matches neighbors
          { color := Function.update d.color startId .gray, stack := [⟨startId, 0⟩] }
          { s with color := Function.update s.color startId .gray, stack := [⟨startId, 0⟩] } :=
        ⟨by rw [h.color], rfl, h.noBack, List.isChain_singleton _⟩
      rw [hwhile] at hstack' hinv' ⊢
      rw [if_pos (h.color ▸ hcolor)]
      rcases runLoop_detectStep hdist hneighbors hclosed hstart
        (dfsLoopInv_start hinv hstack hmem hcolor) hstack' with ⟨d', hrun, h'⟩ | ⟨d', path, hrun, hpath⟩
      · rw [hrun]
        exact ih _ hrest h' hinv' hstack' hm
      · rw [hrun]
        exact .inr ⟨path, rfl, hpath⟩
    · have hsame : dfsFrom adjacency fuel s startId = s := if_neg hcolor
      rw [hsame] at hstack' hinv' ⊢
      rw [if_neg (h.color ▸ hcolor)]
      exact ih _ hrest h hinv' hstack' hm

/-! ## 3. The three notions of a cycle -/

theorem adjacentIds_eq (nodeIds : List Id) (edges : List (GraphEdge Id)) (id : Id) :
    adjacentIds nodeIds edges id = (adjacencyOf nodeIds edges id).map fun r => r.1.targetNodeId := by
  have hedges : edges.zipIdx.map (·.1) = edges := List.zipIdx_map_fst 0 edges
  unfold adjacentIds adjacencyOf
  conv_lhs => rw [← hedges]
  rw [List.filter_map, List.map_map]
  rfl

theorem mem_of_mem_zipIdx_filter {edges : List (GraphEdge Id)} {p : EdgeRef Id → Bool} {e : GraphEdge Id}
    (h : e ∈ (edges.zipIdx.filter p).map (·.1)) : e ∈ edges := by
  obtain ⟨r, hr, rfl⟩ := List.mem_map.mp h
  exact List.fst_mem_of_mem_zipIdx (List.mem_filter.mp hr).1

variable (nodes : List (GraphNode Id)) (edges : List (GraphEdge Id))

theorem mem_adjacentIds {a b : Id} : b ∈ adjacentIds (setOf (nodes.map (·.id))) edges a ↔
    EdgeStep (nodes.map (·.id)) edges a b := by
  simp [adjacentIds, EdgeStep, isKnownEdge_setOf, and_assoc]

/-- A walk is returned, or there are no back-edges; the budget is never felt. -/
theorem detectCycleWith_spec {fuel : Nat} (hfuel : dfsFuel (setOf (nodes.map (·.id))) edges ≤ fuel) :
    (detectCycleWith (fuel + 1) nodes edges = ⟨false, none⟩ ∧
        (identifyBackEdges nodes edges).backEdges = []) ∨
      ∃ path, detectCycleWith (fuel + 1) nodes edges = ⟨true, some path⟩ ∧
        ClosedWalk (EdgeStep (nodes.map (·.id)) edges) path := by
  have hinit : Matches (adjacentIds (setOf (nodes.map (·.id))) edges)
      { color := fun _ => .white, stack := [] }
      { color := fun _ => .white, stack := [], backEdgeSet := [] } := ⟨rfl, rfl, rfl, List.isChain_nil⟩
  have hsearch := detectAll_spec (distinctRefs_adjacencyOf (setOf (nodes.map (·.id))) edges)
    (adjacentIds_eq (setOf (nodes.map (·.id))) edges)
    (adjacencyOf_closed (setOf (nodes.map (·.id))) edges) (setOf (nodes.map (·.id))) []
    (fun _ hv => hv) hinit (dfsLoopInv_init _ _) rfl hfuel
  unfold detectCycleWith
  dsimp only
  rcases hsearch with ⟨hnone, hback⟩ | ⟨path, hsome, hwalk⟩
  · left
    rw [hnone, ← identifyBackEdgesWith_eq nodes edges hfuel]
    refine ⟨rfl, ?_⟩
    have hempty : (dfsAll fuel (setOf (nodes.map (·.id))) edges).backEdgeSet = [] := hback
    simp [identifyBackEdgesWith, hempty]
  · right
    rw [hsome]
    refine ⟨path, rfl, ?_⟩
    obtain ⟨v, middle, hpath, hchain⟩ := hwalk
    exact ⟨v, middle, hpath, hchain.imp fun a b => (mem_adjacentIds nodes edges).mp⟩

/-- Without back-edges every edge is a forward edge, and the graph has no cycle. -/
theorem backEdges_ne_nil {v : Id} (h : Relation.TransGen (EdgeStep (nodes.map (·.id)) edges) v v) :
    (identifyBackEdges nodes edges).backEdges ≠ [] := by
  intro hnone
  obtain ⟨isBack, hforward, hback⟩ := identifyBackEdges_partition nodes edges
  rw [hnone] at hback
  have hall : ∀ r ∈ edges.zipIdx, isBack r.2 = false := by
    intro r hr
    by_contra hne
    have hmem : r.1 ∈ (edges.zipIdx.filter fun r => isBack r.2).map (·.1) :=
      List.mem_map_of_mem (List.mem_filter.mpr ⟨hr, by simpa using hne⟩)
    rw [← hback] at hmem
    exact List.not_mem_nil hmem
  have hedges : (identifyBackEdges nodes edges).forwardEdges = edges := by
    have hfilter : edges.zipIdx.filter (fun r => !isBack r.2) = edges.zipIdx :=
      List.filter_eq_self.mpr fun r hr => by rw [hall r hr]; rfl
    rw [hforward, hfilter]
    exact List.zipIdx_map_fst 0 edges
  obtain ⟨rank, hrank⟩ := forwardEdges_ranked nodes edges
  rw [hedges] at hrank
  have hlt : ∀ {a b : Id}, Relation.TransGen (EdgeStep (nodes.map (·.id)) edges) a b →
      rank a < rank b := by
    intro a b hpath
    induction hpath with
    | single hstep =>
      obtain ⟨e, he, hknown, rfl, rfl⟩ := hstep
      exact hrank e he hknown
    | tail _ hstep ih =>
      obtain ⟨e, he, hknown, rfl, rfl⟩ := hstep
      exact ih.trans (hrank e he hknown)
  exact Nat.lt_irrefl _ (hlt h)

/-- A back-edge closes a cycle. -/
theorem exists_cycle_of_backEdges (h : (identifyBackEdges nodes edges).backEdges ≠ []) :
    ∃ v, Relation.TransGen (EdgeStep (nodes.map (·.id)) edges) v v := by
  obtain ⟨e, he⟩ := List.exists_mem_of_ne_nil _ h
  obtain ⟨hknown, hpath⟩ := backEdges_close_path nodes edges he
  obtain ⟨isBack, hforward, hback⟩ := identifyBackEdges_partition nodes edges
  have hedge : e ∈ edges := by
    rw [hback] at he
    exact mem_of_mem_zipIdx_filter he
  have hpath' : Relation.ReflTransGen (EdgeStep (nodes.map (·.id)) edges) e.targetNodeId
      e.sourceNodeId := by
    refine Relation.ReflTransGen.mono ?_ _ _ hpath
    rintro a b ⟨e', he', hknown', rfl, rfl⟩
    rw [hforward] at he'
    exact ⟨e', mem_of_mem_zipIdx_filter he', hknown', rfl, rfl⟩
  exact ⟨e.sourceNodeId, Relation.TransGen.head' ⟨e, hedge, hknown, rfl, rfl⟩ hpath'⟩

/-- **Cycles.** Both searches find a cycle just when there is one, and what `detectCycle` returns is
one. -/
theorem detectCycle_iff :
    ((detectCycle nodes edges).hasCycle = true ↔ (identifyBackEdges nodes edges).backEdges ≠ []) ∧
      ((detectCycle nodes edges).hasCycle = true ↔
        ∃ v, Relation.TransGen (EdgeStep (nodes.map (·.id)) edges) v v) ∧
      (detectCycle nodes edges = ⟨false, none⟩ ∨
        ∃ path, detectCycle nodes edges = ⟨true, some path⟩ ∧
          ClosedWalk (EdgeStep (nodes.map (·.id)) edges) path) := by
  have hcycle : (∃ v, Relation.TransGen (EdgeStep (nodes.map (·.id)) edges) v v) ↔
      (identifyBackEdges nodes edges).backEdges ≠ [] :=
    ⟨fun ⟨_, h⟩ => backEdges_ne_nil nodes edges h, exists_cycle_of_backEdges nodes edges⟩
  have hspec := detectCycleWith_spec nodes edges (Nat.le_refl _)
  change (detectCycle nodes edges = ⟨false, none⟩ ∧ _) ∨
    (∃ path, detectCycle nodes edges = ⟨true, some path⟩ ∧ _) at hspec
  rcases hspec with ⟨hnone, hback⟩ | ⟨path, hsome, hwalk⟩
  · rw [hcycle, hnone, hback]
    exact ⟨by simp, by simp, .inl rfl⟩
  · have hexists := hwalk.transGen
    rw [hsome]
    refine ⟨?_, ?_, .inr ⟨path, rfl, hwalk⟩⟩
    · exact iff_of_true rfl (hcycle.mp hexists)
    · exact iff_of_true rfl hexists

end Clemvion.Graph
