import Mathlib.Algebra.Order.BigOperators.Group.List
import Clemvion.Graph.BackEdgeIdentifier

/-!
# CycleWarnings — the rule `graph:unescapable-cycle`

`evaluateGraphCycleWarnings` runs the coloured search on the canvas graph without its container
edges and puts a warning on the source of every back-edge that is not a branch node.  Which edge of
a cycle becomes the back-edge is an accident of the order of nodes and edges, so the rule looks at
one node of each cycle it closes.

It misses no cycle without a branch node.  It warns about other cycles as well, and not in every
order, as soon as some node that is not a branch node lies only on cycles with one.
-/

open Clemvion.Library

set_option linter.unusedSectionVars false

namespace Clemvion.Graph

variable {Id : Type} [DecidableEq Id]

structure GraphRuleNode (Id : Type) where
  id : Id
  type : String
  deriving DecidableEq, Repr

/-- An absent handle and a `null` one are treated alike. -/
structure GraphRuleEdge (Id : Type) where
  source : Id
  sourceHandle : Option String := none
  target : Id
  targetHandle : Option String := none
  deriving DecidableEq, Repr

structure GraphRuleGraph (Id : Type) where
  nodes : List (GraphRuleNode Id)
  edges : List (GraphRuleEdge Id)
  deriving DecidableEq, Repr

inductive WarningSeverity
  | error | warning
  deriving DecidableEq, Repr

structure GraphWarningRuleResult (Id : Type) where
  ruleId : String
  severity : WarningSeverity
  nodeId : Id
  message : String
  deriving DecidableEq, Repr

def unescapableCycleRuleId : String := "graph:unescapable-cycle"

def branchNodeTypes : List String :=
  ["switch", "if_else", "text_classifier", "http_request", "ai_agent"]

def isContainerStructuralEdge (sourceHandle targetHandle : Option String) : Bool :=
  sourceHandle = some "body" || targetHandle = some "emit"

/-- The value that the rule stores for a flagged node. -/
def unescapableCycleWarning (nodeId : Id) : GraphWarningRuleResult Id where
  ruleId := unescapableCycleRuleId
  severity := .warning
  nodeId := nodeId
  message := "This node feeds a cycle with no branch node to exit it — the loop may run forever. " ++
    "Route the back-edge from a branch node (Switch/If-Else) instead."

namespace GraphRuleGraph

/-- `nodeType.keys()`. -/
def nodeIds (graph : GraphRuleGraph Id) : List Id :=
  setOf (graph.nodes.map (·.id))

/-- `nodeType.get(id)`: of two nodes with one id the later one is kept. -/
def nodeType (graph : GraphRuleGraph Id) (id : Id) : Option String :=
  graph.nodes.foldl (fun type n => if n.id = id then some n.type else type) none

/-- `BRANCH_NODE_TYPES.has(nodeType.get(id) ?? '')`. -/
def isBranch (graph : GraphRuleGraph Id) (id : Id) : Bool :=
  branchNodeTypes.contains ((graph.nodeType id).getD "")

/-- The edges that the search walks along. -/
def isSearched (graph : GraphRuleGraph Id) (e : GraphRuleEdge Id) : Bool :=
  !isContainerStructuralEdge e.sourceHandle e.targetHandle &&
    (e.source ∈ graph.nodeIds && e.target ∈ graph.nodeIds)

end GraphRuleGraph

/-- An entry of the adjacency lists. -/
structure OutEdge (Id : Type) where
  target : Id
  source : Id
  deriving DecidableEq, Repr

/-- `adjacency.get(id)`. -/
def GraphRuleGraph.adjacency (graph : GraphRuleGraph Id) (id : Id) : List (OutEdge Id) :=
  (graph.edges.filter fun e => graph.isSearched e && e.source = id).map
    fun e => ⟨e.target, e.source⟩

structure CycleFrame (Id : Type) where
  nodeId : Id
  idx : Nat

/-- The variables of the rule; `flagged` in insertion order. -/
structure CycleSearch (Id : Type) where
  color : Id → Color
  stack : List (CycleFrame Id)
  flagged : List (GraphWarningRuleResult Id)

/-- What a back-edge from `source` adds to `flagged`. -/
def flagSource (graph : GraphRuleGraph Id) (flagged : List (GraphWarningRuleResult Id)) (source : Id) :
    List (GraphWarningRuleResult Id) :=
  if !graph.isBranch source && !flagged.any (·.nodeId = source) then
    flagged ++ [unescapableCycleWarning source]
  else flagged

/-- One pass through the body of `while (stack.length > 0)`. -/
def cycleStep (graph : GraphRuleGraph Id) (c : CycleSearch Id) : CycleSearch Id :=
  match c.stack with
  | [] => c
  | top :: rest =>
    match (graph.adjacency top.nodeId)[top.idx]? with
    | none => { c with color := Function.update c.color top.nodeId .black, stack := rest }
    | some edge =>
      let stack := { top with idx := top.idx + 1 } :: rest
      match c.color edge.target with
      | .gray => { c with stack := stack, flagged := flagSource graph c.flagged edge.source }
      | .white =>
        { c with
          color := Function.update c.color edge.target .gray
          stack := ⟨edge.target, 0⟩ :: stack }
      | .black => { c with stack := stack }

def cycleStackNonempty (c : CycleSearch Id) : Bool := !c.stack.isEmpty

/-- The body of `for (const start of nodeType.keys())`. -/
def cycleFrom (graph : GraphRuleGraph Id) (fuel : Nat) (c : CycleSearch Id) (start : Id) :
    CycleSearch Id :=
  if c.color start = .white then
    whileLoop cycleStackNonempty (cycleStep graph) fuel
      { c with color := Function.update c.color start .gray, stack := [⟨start, 0⟩] }
  else c

def cycleSearchInit : CycleSearch Id :=
  { color := fun _ => .white, stack := [], flagged := [] }

def evaluateGraphCycleWarningsWith (fuel : Nat) (graph : GraphRuleGraph Id) :
    List (GraphWarningRuleResult Id) :=
  (graph.nodeIds.foldl (cycleFrom graph fuel) cycleSearchInit).flagged

/-- One iteration for every out-edge and one for the pop, for every node. -/
def cycleFuel (graph : GraphRuleGraph Id) : Nat :=
  (graph.nodeIds.map fun id => (graph.adjacency id).length + 1).sum

def evaluateGraphCycleWarnings (graph : GraphRuleGraph Id) : List (GraphWarningRuleResult Id) :=
  evaluateGraphCycleWarningsWith (cycleFuel graph) graph

/-! ## 1. What the rule is for -/

/-- A searched edge leads from `a` to `b`. -/
def Feeds (graph : GraphRuleGraph Id) (a b : Id) : Prop :=
  ∃ e ∈ graph.edges, graph.isSearched e = true ∧ e.source = a ∧ e.target = b

/-- The same between two nodes that are no branch nodes. -/
def FeedsPassThrough (graph : GraphRuleGraph Id) (a b : Id) : Prop :=
  Feeds graph a b ∧ graph.isBranch a = false ∧ graph.isBranch b = false

def OnCycle (graph : GraphRuleGraph Id) (v : Id) : Prop :=
  Relation.TransGen (Feeds graph) v v

def OnBranchFreeCycle (graph : GraphRuleGraph Id) (v : Id) : Prop :=
  Relation.TransGen (FeedsPassThrough graph) v v

/-- The rule warns just when there is a cycle without a branch node, and only about nodes of one. -/
def WarnsExactly (graph : GraphRuleGraph Id) : Prop :=
  (evaluateGraphCycleWarnings graph ≠ [] ↔ ∃ v, OnBranchFreeCycle graph v) ∧
    ∀ w ∈ evaluateGraphCycleWarnings graph, OnBranchFreeCycle graph w.nodeId

/-- The same snapshot, with its nodes and edges listed in another order. -/
structure Reordering (graph graph' : GraphRuleGraph Id) : Prop where
  nodes : graph'.nodes.Perm graph.nodes
  edges : graph'.edges.Perm graph.edges
  nodeType : ∀ id, graph'.nodeType id = graph.nodeType id

namespace Reordering

variable {graph graph' : GraphRuleGraph Id}

theorem refl (graph : GraphRuleGraph Id) : Reordering graph graph :=
  ⟨.refl _, .refl _, fun _ => rfl⟩

theorem mem_nodeIds (h : Reordering graph graph') (v : Id) : v ∈ graph'.nodeIds ↔ v ∈ graph.nodeIds := by
  simp only [GraphRuleGraph.nodeIds, mem_setOf]
  exact (h.nodes.map _).mem_iff

theorem isBranch_eq (h : Reordering graph graph') (v : Id) : graph'.isBranch v = graph.isBranch v := by
  rw [GraphRuleGraph.isBranch, GraphRuleGraph.isBranch, h.nodeType]

theorem isSearched_eq (h : Reordering graph graph') (e : GraphRuleEdge Id) :
    graph'.isSearched e = graph.isSearched e := by
  simp only [GraphRuleGraph.isSearched, h.mem_nodeIds]

theorem feeds_iff (h : Reordering graph graph') (a b : Id) : Feeds graph' a b ↔ Feeds graph a b := by
  simp only [Feeds, h.isSearched_eq, h.edges.mem_iff]

theorem onCycle_iff (h : Reordering graph graph') (v : Id) : OnCycle graph' v ↔ OnCycle graph v := by
  have hsame : Feeds graph' = Feeds graph := by
    funext a b
    exact propext (h.feeds_iff a b)
  rw [OnCycle, OnCycle, hsame]

theorem onBranchFreeCycle_iff (h : Reordering graph graph') (v : Id) :
    OnBranchFreeCycle graph' v ↔ OnBranchFreeCycle graph v := by
  have hsame : FeedsPassThrough graph' = FeedsPassThrough graph := by
    funext a b
    simp only [FeedsPassThrough, h.isBranch_eq, h.feeds_iff]
  rw [OnBranchFreeCycle, OnBranchFreeCycle, hsame]

end Reordering

theorem OnBranchFreeCycle.onCycle {graph : GraphRuleGraph Id} {v : Id} (h : OnBranchFreeCycle graph v) :
    OnCycle graph v :=
  Relation.TransGen.mono (fun _ _ hstep => hstep.1) _ _ h

/-! ## 2. The same search as `identifyBackEdges` -/

namespace GraphRuleGraph

variable (graph : GraphRuleGraph Id)

def asGraphNodes : List (GraphNode Id) :=
  graph.nodes.map fun n => ⟨n.id⟩

/-- The edges that are not container edges; their handles play no part any more. -/
def asGraphEdges : List (GraphEdge Id) :=
  (graph.edges.filter fun e => !isContainerStructuralEdge e.sourceHandle e.targetHandle).map
    fun e => ⟨e.source, "", e.target, ""⟩

/-- The out-edges of a node as `identifyBackEdges` has them. -/
def refs (id : Id) : List (EdgeRef Id) :=
  adjacencyOf graph.nodeIds graph.asGraphEdges id

theorem nodeIds_eq : graph.nodeIds = setOf (graph.asGraphNodes.map (·.id)) := by
  rw [nodeIds, asGraphNodes, List.map_map]
  rfl

theorem adjacency_eq (id : Id) :
    graph.adjacency id = (graph.refs id).map fun r => ⟨r.1.targetNodeId, r.1.sourceNodeId⟩ := by
  have hedges : graph.asGraphEdges.zipIdx.map (·.1) = graph.asGraphEdges := List.zipIdx_map_fst 0 _
  have hrefs : (graph.refs id).map (·.1) =
      graph.asGraphEdges.filter fun e => isKnownEdge graph.nodeIds e && e.sourceNodeId = id := by
    conv_rhs => rw [← hedges]
    rw [List.filter_map]
    rfl
  have hsplit : (graph.refs id).map (fun r => (⟨r.1.targetNodeId, r.1.sourceNodeId⟩ : OutEdge Id)) =
      ((graph.refs id).map (·.1)).map fun e => ⟨e.targetNodeId, e.sourceNodeId⟩ := by
    rw [List.map_map]
    rfl
  rw [hsplit, hrefs, asGraphEdges, List.filter_map, List.map_map, List.filter_filter, adjacency]
  congr 1
  refine List.filter_congr fun e _ => ?_
  simp only [isSearched, isKnownEdge, Function.comp]
  cases isContainerStructuralEdge e.sourceHandle e.targetHandle <;> simp

theorem cycleFuel_eq : cycleFuel graph = dfsFuel graph.nodeIds graph.asGraphEdges := by
  simp only [cycleFuel, dfsFuel, adjacency_eq, List.length_map]
  rfl

theorem edgeStep_iff (a b : Id) :
    EdgeStep (graph.asGraphNodes.map (·.id)) graph.asGraphEdges a b ↔ Feeds graph a b := by
  have hids : ∀ v, v ∈ graph.asGraphNodes.map (·.id) ↔ v ∈ graph.nodeIds := by
    intro v
    rw [nodeIds_eq, mem_setOf]
  constructor
  · rintro ⟨e, he, hknown, rfl, rfl⟩
    obtain ⟨e, hmem, rfl⟩ := List.mem_map.mp he
    obtain ⟨hmem, hplain⟩ := List.mem_filter.mp hmem
    refine ⟨e, hmem, ?_, rfl, rfl⟩
    simpa [isKnownEdge, hids, isSearched, hplain] using hknown
  · rintro ⟨e, he, hsearched, rfl, rfl⟩
    rw [isSearched, Bool.and_eq_true] at hsearched
    refine ⟨⟨e.source, "", e.target, ""⟩, ?_, ?_, rfl, rfl⟩
    · exact List.mem_map.mpr ⟨e, List.mem_filter.mpr ⟨he, hsearched.1⟩, rfl⟩
    · simpa [isKnownEdge, hids] using hsearched.2

end GraphRuleGraph

def CycleFrame.toFrame (frame : CycleFrame Id) : Frame Id := ⟨frame.nodeId, frame.idx⟩

/-- The two searches stand at the same place; a node is flagged when it is no branch node and an edge
    that leaves it was found to be a back-edge. -/
structure SameSearch (graph : GraphRuleGraph Id) (c : CycleSearch Id) (s : DfsState Id) : Prop where
  color : s.color = c.color
  stack : s.stack = c.stack.map CycleFrame.toFrame
  flagged : ∀ v, v ∈ c.flagged.map (·.nodeId) ↔
    graph.isBranch v = false ∧ ∃ r ∈ graph.refs v, r.2 ∈ s.backEdgeSet

variable {graph : GraphRuleGraph Id} {c : CycleSearch Id} {s : DfsState Id}

theorem mem_flagSource (flagged : List (GraphWarningRuleResult Id)) (source v : Id) :
    v ∈ (flagSource graph flagged source).map (·.nodeId) ↔
      v ∈ flagged.map (·.nodeId) ∨ (graph.isBranch source = false ∧ v = source) := by
  unfold flagSource
  cases hbranch : graph.isBranch source with
  | true => simp
  | false =>
    by_cases hseen : flagged.any (·.nodeId = source) = true
    · have hmem : source ∈ flagged.map (·.nodeId) := by simpa using hseen
      simp only [hseen, Bool.not_true, Bool.and_false, Bool.false_eq_true, if_false, true_and]
      constructor
      · exact .inl
      · rintro (h | rfl)
        · exact h
        · exact hmem
    · simp only [hseen, Bool.not_false, Bool.and_true, if_true, List.map_append, List.mem_append]
      simp [unescapableCycleWarning]

theorem cycleStep_same (h : SameSearch graph c s) :
    SameSearch graph (cycleStep graph c) (dfsStep graph.refs s) := by
  cases hc : c.stack with
  | nil =>
    have hs : s.stack = [] := by rw [h.stack, hc, List.map_nil]
    simpa only [cycleStep, dfsStep, hc, hs] using h
  | cons top rest =>
    have hs : s.stack = top.toFrame :: rest.map CycleFrame.toFrame := by rw [h.stack, hc, List.map_cons]
    have hnext : (graph.adjacency top.nodeId)[top.idx]? =
        (graph.refs top.nodeId)[top.idx]?.map fun r => ⟨r.1.targetNodeId, r.1.sourceNodeId⟩ := by
      rw [graph.adjacency_eq, List.getElem?_map]
    unfold cycleStep dfsStep
    rw [hc, hs]
    cases href : (graph.refs top.nodeId)[top.idx]? with
    | none =>
      rw [href] at hnext
      simp only [hnext, Option.map_none, CycleFrame.toFrame, href]
      exact ⟨by rw [h.color], rfl, h.flagged⟩
    | some r =>
      rw [href] at hnext
      have hmem : r ∈ graph.refs top.nodeId := List.mem_of_getElem? href
      have hsource : r.1.sourceNodeId = top.nodeId := (mem_adjacencyOf.mp hmem).2.2
      simp only [hnext, Option.map_some, CycleFrame.toFrame, href, h.color, hsource]
      cases hcolor : c.color r.1.targetNodeId with
      | gray =>
        refine ⟨rfl, rfl, ?_⟩
        intro v
        rw [mem_flagSource, h.flagged]
        constructor
        · rintro (⟨hbranch, q, hq, hback⟩ | ⟨hbranch, rfl⟩)
          · exact ⟨hbranch, q, hq, List.mem_cons_of_mem _ hback⟩
          · exact ⟨hbranch, r, hmem, List.mem_cons_self⟩
        · rintro ⟨hbranch, q, hq, hback⟩
          rcases List.mem_cons.mp hback with heq | hold
          · -- an edge object leaves one node only
            obtain ⟨i, hi⟩ := List.getElem?_of_mem hq
            obtain ⟨rfl, -⟩ :=
              distinctRefs_adjacencyOf graph.nodeIds graph.asGraphEdges _ _ _ _ _ _ hi href heq
            exact .inr ⟨hbranch, rfl⟩
          · exact .inl ⟨hbranch, q, hq, hold⟩
      | white => exact ⟨rfl, rfl, h.flagged⟩
      | black => exact ⟨rfl, rfl, h.flagged⟩

theorem SameSearch.nonempty_eq (h : SameSearch graph c s) : cycleStackNonempty c = stackNonempty s := by
  rw [cycleStackNonempty, stackNonempty, h.stack]
  cases c.stack <;> rfl

theorem SameSearch.start (h : SameSearch graph c s) (start : Id) :
    SameSearch graph { c with color := Function.update c.color start .gray, stack := [⟨start, 0⟩] }
      { s with color := Function.update s.color start .gray, stack := [⟨start, 0⟩] } :=
  ⟨by rw [h.color], rfl, h.flagged⟩

theorem cycleFrom_same (h : SameSearch graph c s) (fuel : Nat) (start : Id) :
    SameSearch graph (cycleFrom graph fuel c start) (dfsFrom graph.refs fuel s start) := by
  unfold cycleFrom dfsFrom
  rw [h.color]
  by_cases hwhite : c.color start = .white
  · rw [if_pos hwhite, if_pos hwhite]
    have hstart := h.start start
    rw [h.color] at hstart
    exact whileLoop_rel (R := SameSearch graph) (fun _ _ => SameSearch.nonempty_eq)
      (fun _ _ => cycleStep_same) fuel _ _ hstart
  · rw [if_neg hwhite, if_neg hwhite]
    exact h

theorem cycleSearch_same (graph : GraphRuleGraph Id) (fuel : Nat) :
    SameSearch graph (graph.nodeIds.foldl (cycleFrom graph fuel) cycleSearchInit)
      (dfsAll fuel graph.nodeIds graph.asGraphEdges) := by
  refine List.foldl_rel ⟨rfl, rfl, by simp [cycleSearchInit]⟩ ?_
  intro start _ c s h
  exact cycleFrom_same h fuel start

/-- **The flagged nodes** are the sources of back-edges that are no branch nodes. -/
theorem mem_warnings_iff (graph : GraphRuleGraph Id) (v : Id) :
    v ∈ (evaluateGraphCycleWarnings graph).map (·.nodeId) ↔ graph.isBranch v = false ∧
      ∃ e ∈ (identifyBackEdges graph.asGraphNodes graph.asGraphEdges).backEdges,
        isKnownEdge graph.nodeIds e = true ∧ e.sourceNodeId = v := by
  rw [evaluateGraphCycleWarnings, evaluateGraphCycleWarningsWith, (cycleSearch_same graph _).flagged,
    graph.cycleFuel_eq, graph.nodeIds_eq]
  refine and_congr_right fun _ => ?_
  simp only [GraphRuleGraph.refs, graph.nodeIds_eq, mem_adjacencyOf, identifyBackEdges,
    identifyBackEdgesWith, List.mem_map, List.mem_filter, decide_eq_true_eq]
  constructor
  · rintro ⟨r, ⟨hr, hknown, hsource⟩, hback⟩
    exact ⟨r.1, ⟨r, ⟨hr, hback⟩, rfl⟩, hknown, hsource⟩
  · rintro ⟨_, ⟨r, ⟨hr, hback⟩, rfl⟩, hknown, hsource⟩
    exact ⟨r, ⟨hr, hknown, hsource⟩, hback⟩

/-- Once the budget covers the search, more of it changes nothing. -/
theorem foldl_cycleFrom_stable (graph : GraphRuleGraph Id) {fuel fuel' : Nat} (hfuel : fuel ≤ fuel')
    (starts started : List Id) (hsub : ∀ v ∈ starts, v ∈ graph.nodeIds) {n : Nat}
    (h : SameSearch graph c s) (hinv : DfsLoopInv graph.refs graph.nodeIds started n s)
    (hstack : s.stack = []) (hn : n ≤ fuel) :
    starts.foldl (cycleFrom graph fuel') c = starts.foldl (cycleFrom graph fuel) c := by
  induction starts generalizing c s started n with
  | nil => rfl
  | cons start rest ih =>
    obtain ⟨hstack', m, hm, hinv'⟩ := dfsFrom_inv (distinctRefs_adjacencyOf _ _)
      (adjacencyOf_closed _ _) (hsub start List.mem_cons_self) hinv hstack hn
    have h' := cycleFrom_same h fuel start
    have hsame : cycleFrom graph fuel' c start = cycleFrom graph fuel c start := by
      by_cases hwhite : c.color start = .white
      · simp only [cycleFrom, hwhite, if_true] at h' ⊢
        refine whileLoop_stable hfuel _ ?_
        rw [h'.nonempty_eq, stackNonempty]
        exact congrArg (fun stack => !List.isEmpty stack) hstack'
      · simp only [cycleFrom, hwhite, if_false]
    rw [List.foldl_cons, List.foldl_cons, hsame]
    exact ih _ (fun v hv => hsub v (List.mem_cons_of_mem _ hv)) h' hinv' hstack' hm

/-- **The search ends by itself**, so the budget is never felt. -/
theorem evaluateGraphCycleWarningsWith_eq (graph : GraphRuleGraph Id) {fuel : Nat}
    (hfuel : cycleFuel graph ≤ fuel) :
    evaluateGraphCycleWarningsWith fuel graph = evaluateGraphCycleWarnings graph := by
  have hbudget : (graph.nodeIds.map fun id => (graph.refs id).length + 1).sum ≤ cycleFuel graph :=
    Nat.le_of_eq graph.cycleFuel_eq.symm
  rw [evaluateGraphCycleWarnings, evaluateGraphCycleWarningsWith, evaluateGraphCycleWarningsWith,
    foldl_cycleFrom_stable graph hfuel graph.nodeIds [] (fun _ hv => hv)
      ⟨rfl, rfl, by simp [cycleSearchInit]⟩ (dfsLoopInv_init graph.refs graph.nodeIds) rfl hbudget]

/-! ## 3. No cycle without a branch node is missed -/

/-- A flagged node is no branch node and lies on a cycle: its back-edge closes one. -/
theorem warned_on_cycle {w : GraphWarningRuleResult Id} (hw : w ∈ evaluateGraphCycleWarnings graph) :
    graph.isBranch w.nodeId = false ∧ OnCycle graph w.nodeId := by
  obtain ⟨hbranch, e, he, hknown, hsource⟩ :=
    (mem_warnings_iff graph w.nodeId).mp (List.mem_map_of_mem hw)
  refine ⟨hbranch, ?_⟩
  obtain ⟨-, hpath⟩ := backEdges_close_path _ _ he
  obtain ⟨isBack, hforward, hback⟩ := identifyBackEdges_partition graph.asGraphNodes graph.asGraphEdges
  have hsub : ∀ {p : EdgeRef Id → Bool} {e : GraphEdge Id},
      e ∈ (graph.asGraphEdges.zipIdx.filter p).map (·.1) → e ∈ graph.asGraphEdges := by
    intro p e hmem
    obtain ⟨r, hr, rfl⟩ := List.mem_map.mp hmem
    exact List.fst_mem_of_mem_zipIdx (List.mem_filter.mp hr).1
  have hfirst : Feeds graph w.nodeId e.targetNodeId := by
    refine (graph.edgeStep_iff _ _).mp ⟨e, hsub (hback ▸ he), ?_, hsource, rfl⟩
    rwa [graph.nodeIds_eq, isKnownEdge_setOf] at hknown
  refine Relation.TransGen.head' hfirst ?_
  rw [hsource] at hpath
  refine Relation.ReflTransGen.mono ?_ _ _ hpath
  rintro a b ⟨e', he', hknown', rfl, rfl⟩
  exact (graph.edgeStep_iff _ _).mp ⟨e', hsub (hforward ▸ he'), hknown', rfl, rfl⟩

/-- **Completeness.** A cycle without a branch node contains a back-edge, since the other edges only
    lead upwards in the finishing order. -/
theorem warnings_ne_nil {v : Id} (h : OnBranchFreeCycle graph v) :
    evaluateGraphCycleWarnings graph ≠ [] := by
  intro hnone
  obtain ⟨isBack, hforward, hback⟩ := identifyBackEdges_partition graph.asGraphNodes graph.asGraphEdges
  obtain ⟨rank, hrank⟩ := forwardEdges_ranked graph.asGraphNodes graph.asGraphEdges
  refine acyclic_of_rank (r := FeedsPassThrough graph) rank ?_ v h
  rintro a b ⟨hfeeds, hbranch, -⟩
  obtain ⟨e, he, hknown, rfl, rfl⟩ := (graph.edgeStep_iff a b).mpr hfeeds
  refine hrank e ?_ hknown
  rw [← List.zipIdx_map_fst 0 graph.asGraphEdges] at he
  obtain ⟨r, hr, rfl⟩ := List.mem_map.mp he
  rw [hforward]
  refine List.mem_map_of_mem (List.mem_filter.mpr ⟨hr, ?_⟩)
  cases hr' : isBack r.2 with
  | false => rfl
  | true =>
    -- a back-edge out of a node that is no branch node would have been flagged
    have hmem : r.1 ∈ (identifyBackEdges graph.asGraphNodes graph.asGraphEdges).backEdges := by
      rw [hback]
      exact List.mem_map_of_mem (List.mem_filter.mpr ⟨hr, hr'⟩)
    have hflagged := (mem_warnings_iff graph r.1.sourceNodeId).mpr
      ⟨hbranch, r.1, hmem, by rwa [graph.nodeIds_eq, isKnownEdge_setOf], rfl⟩
    rw [hnone] at hflagged
    exact absurd hflagged List.not_mem_nil

/-! ## 4. An order that closes a given cycle at a given node -/

theorem flagSource_mono {flagged : List (GraphWarningRuleResult Id)} {source v : Id}
    (h : v ∈ flagged.map (·.nodeId)) : v ∈ (flagSource graph flagged source).map (·.nodeId) :=
  (mem_flagSource flagged source v).mpr (.inl h)

theorem cycleStep_flagged {v : Id} (h : v ∈ c.flagged.map (·.nodeId)) :
    v ∈ (cycleStep graph c).flagged.map (·.nodeId) := by
  cases hstack : c.stack with
  | nil => simpa only [cycleStep, hstack] using h
  | cons top rest =>
    cases hedge : (graph.adjacency top.nodeId)[top.idx]? with
    | none => simpa only [cycleStep, hstack, hedge] using h
    | some edge =>
      cases hcolor : c.color edge.target with
      | gray => simpa only [cycleStep, hstack, hedge, hcolor] using flagSource_mono h
      | white => simpa only [cycleStep, hstack, hedge, hcolor] using h
      | black => simpa only [cycleStep, hstack, hedge, hcolor] using h

theorem whileLoop_flagged {v : Id} (fuel : Nat) (h : v ∈ c.flagged.map (·.nodeId)) :
    v ∈ (whileLoop cycleStackNonempty (cycleStep graph) fuel c).flagged.map (·.nodeId) :=
  whileLoop_preserves (P := fun c : CycleSearch Id => v ∈ c.flagged.map (·.nodeId))
    (fun _ => cycleStep_flagged) fuel c h

theorem cycleFrom_flagged {v : Id} (fuel : Nat) (start : Id) (h : v ∈ c.flagged.map (·.nodeId)) :
    v ∈ (cycleFrom graph fuel c start).flagged.map (·.nodeId) := by
  unfold cycleFrom
  by_cases hwhite : c.color start = .white
  · rw [if_pos hwhite]
    exact whileLoop_flagged fuel h
  · rw [if_neg hwhite]
    exact h

/-- The first out-edge of each node on the walk leads to the next one, and that of the last node back
    to `w`, which is gray: the search goes down the walk and flags its last node. -/
theorem flagged_of_walk (graph : GraphRuleGraph Id) {w : Id} (path : List Id) :
    ∀ (u : Id) (rest : List (CycleFrame Id)) (c : CycleSearch Id) (fuel : Nat),
      c.stack = ⟨u, 0⟩ :: rest → c.color w = .gray → (∀ p ∈ path, c.color p = .white) → path.Nodup →
      (∀ l ∈ (u :: path).zip (path ++ [w]), (graph.adjacency l.1)[0]? = some ⟨l.2, l.1⟩) →
      path.length < fuel →
      graph.isBranch ((u :: path).getLast (List.cons_ne_nil _ _)) = false →
      (u :: path).getLast (List.cons_ne_nil _ _) ∈
        (whileLoop cycleStackNonempty (cycleStep graph) fuel c).flagged.map (·.nodeId) := by
  induction path with
  | nil =>
    intro u rest c fuel hstack hgray _ _ hlinks hfuel hbranch
    obtain ⟨fuel, rfl⟩ : ∃ n, fuel = n + 1 := ⟨fuel - 1, by simp at hfuel; omega⟩
    have hedge : (graph.adjacency u)[0]? = some ⟨w, u⟩ := hlinks (u, w) (by simp)
    have hcond : cycleStackNonempty c = true := by rw [cycleStackNonempty, hstack]; rfl
    rw [whileLoop, if_pos hcond]
    refine whileLoop_flagged fuel ?_
    simp only [cycleStep, hstack, hedge, hgray]
    exact (mem_flagSource _ _ _).mpr (.inr ⟨hbranch, rfl⟩)
  | cons next path ih =>
    intro u rest c fuel hstack hgray hwhite hnodup hlinks hfuel hbranch
    obtain ⟨fuel, rfl⟩ : ∃ n, fuel = n + 1 := ⟨fuel - 1, by simp at hfuel; omega⟩
    obtain ⟨hfresh, hnodup⟩ := List.nodup_cons.mp hnodup
    have hedge : (graph.adjacency u)[0]? = some ⟨next, u⟩ := hlinks (u, next) (by simp)
    have hnext : c.color next = .white := hwhite next List.mem_cons_self
    have hcond : cycleStackNonempty c = true := by rw [cycleStackNonempty, hstack]; rfl
    have hne : w ≠ next := by
      rintro rfl
      rw [hgray] at hnext
      exact Color.noConfusion hnext
    rw [whileLoop, if_pos hcond]
    refine ih next (⟨u, 1⟩ :: rest) (cycleStep graph c) fuel ?_ ?_ ?_ hnodup ?_ ?_ hbranch
    · simp only [cycleStep, hstack, hedge, hnext]
    · simp only [cycleStep, hstack, hedge, hnext, Function.update_of_ne hne, hgray]
    · intro p hp
      have hpne : p ≠ next := fun heq => hfresh (heq ▸ hp)
      simp only [cycleStep, hstack, hedge, hnext, Function.update_of_ne hpne]
      exact hwhite p (List.mem_cons_of_mem _ hp)
    · exact fun l hl => hlinks l (List.mem_cons_of_mem _ hl)
    · rw [List.length_cons] at hfuel
      omega

/-- The nodes with the id `w` come first, and the edges along `links` before the other edges. -/
def GraphRuleGraph.walkFirst (graph : GraphRuleGraph Id) (w : Id) (links : List (Id × Id)) :
    GraphRuleGraph Id where
  nodes := graph.nodes.filter (fun n => n.id = w) ++ graph.nodes.filter fun n => !decide (n.id = w)
  edges := graph.edges.filter (fun e => (e.source, e.target) ∈ links) ++
    graph.edges.filter fun e => !decide ((e.source, e.target) ∈ links)

theorem nodeType_foldl_filter (nodes : List (GraphRuleNode Id)) (id : Id) (start : Option String) :
    nodes.foldl (fun type n => if n.id = id then some n.type else type) start =
      (nodes.filter fun n => n.id = id).foldl (fun _ n => some n.type) start := by
  induction nodes generalizing start with
  | nil => rfl
  | cons n nodes ih =>
    by_cases hn : n.id = id
    · rw [List.foldl_cons, if_pos hn, List.filter_cons_of_pos (by simpa using hn), List.foldl_cons, ih]
    · rw [List.foldl_cons, if_neg hn, List.filter_cons_of_neg (by simpa using hn), ih]

theorem walkFirst_reordering (graph : GraphRuleGraph Id) (w : Id) (links : List (Id × Id)) :
    Reordering graph (graph.walkFirst w links) := by
  refine ⟨List.filter_append_perm _ _, List.filter_append_perm _ _, ?_⟩
  intro id
  rw [GraphRuleGraph.nodeType, GraphRuleGraph.nodeType, nodeType_foldl_filter, nodeType_foldl_filter]
  congr 1
  rw [GraphRuleGraph.walkFirst, List.filter_append, List.filter_filter, List.filter_filter]
  by_cases hid : id = w
  · have hnone : graph.nodes.filter (fun n => decide (n.id = id) && !decide (n.id = w)) = [] :=
      List.filter_eq_nil_iff.mpr fun n _ => by simp [hid]
    rw [hnone, List.append_nil]
    exact List.filter_congr fun n _ => by simp [hid]
  · have hnone : graph.nodes.filter (fun n => decide (n.id = id) && decide (n.id = w)) = [] :=
      List.filter_eq_nil_iff.mpr fun n _ => by
        by_cases hn : n.id = id
        · simp [hn, hid]
        · simp [hn]
    rw [hnone, List.nil_append]
    refine List.filter_congr fun n _ => ?_
    by_cases hn : n.id = id
    · simp [hn, hid]
    · simp [hn]

/-- In the new order the walk follows first out-edges. -/
theorem walkFirst_adjacency {w a b : Id} {links : List (Id × Id)} (hnodup : (links.map (·.1)).Nodup)
    (hlink : (a, b) ∈ links) (hfeeds : Feeds graph a b) :
    ((graph.walkFirst w links).adjacency a)[0]? = some ⟨b, a⟩ := by
  have horder := walkFirst_reordering graph w links
  obtain ⟨e, he, hsearched, rfl, rfl⟩ := hfeeds
  have hmem : e ∈ (graph.edges.filter fun e => (e.source, e.target) ∈ links).filter
      fun e' => (graph.walkFirst w links).isSearched e' && e'.source = e.source := by
    refine List.mem_filter.mpr ⟨List.mem_filter.mpr ⟨he, by simpa using hlink⟩, ?_⟩
    simp [horder.isSearched_eq, hsearched]
  rw [GraphRuleGraph.adjacency, List.getElem?_map]
  have hedges : (graph.walkFirst w links).edges =
      graph.edges.filter (fun e => (e.source, e.target) ∈ links) ++
        graph.edges.filter fun e => !decide ((e.source, e.target) ∈ links) := rfl
  rw [hedges, List.filter_append]
  cases hfirst : (graph.edges.filter fun e => (e.source, e.target) ∈ links).filter
      fun e' => (graph.walkFirst w links).isSearched e' && e'.source = e.source with
  | nil =>
    rw [hfirst] at hmem
    exact absurd hmem List.not_mem_nil
  | cons e' others =>
    have hmem' : e' ∈ (graph.edges.filter fun e => (e.source, e.target) ∈ links).filter
        fun e' => (graph.walkFirst w links).isSearched e' && e'.source = e.source := by
      rw [hfirst]
      exact List.mem_cons_self
    obtain ⟨hlink', hsource⟩ := List.mem_filter.mp hmem'
    have hlink' : (e'.source, e'.target) ∈ links := by simpa using (List.mem_filter.mp hlink').2
    have hsource : e'.source = e.source := by
      rw [Bool.and_eq_true, decide_eq_true_eq] at hsource
      exact hsource.2
    -- the walk visits each node once, so it leaves each node once
    have hsame : (e'.source, e'.target) = (e.source, e.target) :=
      List.inj_on_of_nodup_map hnodup hlink' hlink hsource
    simp only [List.cons_append, List.getElem?_cons_zero, Option.map_some]
    rw [(Prod.mk.inj hsame).1, (Prod.mk.inj hsame).2]

/-- `setOf` keeps its first value in front. -/
theorem setOf_cons (x : Id) (xs : List Id) : ∃ others, setOf (x :: xs) = x :: others := by
  have hkeep : ∀ (xs seen : List Id), ∃ others,
      xs.foldl (fun seen x => if x ∈ seen then seen else seen ++ [x]) seen = seen ++ others := by
    intro xs
    induction xs with
    | nil => exact fun seen => ⟨[], (List.append_nil seen).symm⟩
    | cons y ys ih =>
      intro seen
      rw [List.foldl_cons]
      by_cases hy : y ∈ seen
      · rw [if_pos hy]
        exact ih seen
      · rw [if_neg hy]
        obtain ⟨others, hothers⟩ := ih (seen ++ [y])
        exact ⟨y :: others, by rw [hothers, List.append_assoc]; rfl⟩
  obtain ⟨others, hothers⟩ := hkeep xs [x]
  exact ⟨others, by rw [setOf, List.foldl_cons]; exact hothers⟩

theorem walkFirst_nodeIds {w : Id} (links : List (Id × Id)) (hw : w ∈ graph.nodeIds) :
    ∃ others, (graph.walkFirst w links).nodeIds = w :: others := by
  rw [GraphRuleGraph.nodeIds, mem_setOf] at hw
  obtain ⟨n, hn, rfl⟩ := List.mem_map.mp hw
  have hmem : n ∈ graph.nodes.filter fun n' => n'.id = n.id := List.mem_filter.mpr ⟨hn, by simp⟩
  cases hfirst : graph.nodes.filter fun n' => n'.id = n.id with
  | nil =>
    rw [hfirst] at hmem
    exact absurd hmem List.not_mem_nil
  | cons n' others =>
    have hn' : n'.id = n.id := by
      have hmem' : n' ∈ graph.nodes.filter fun n' => n'.id = n.id := by
        rw [hfirst]
        exact List.mem_cons_self
      simpa using (List.mem_filter.mp hmem').2
    rw [GraphRuleGraph.nodeIds, GraphRuleGraph.walkFirst, hfirst, List.cons_append, List.map_cons, hn']
    exact setOf_cons _ _

theorem Feeds.mem_nodeIds {a b : Id} (h : Feeds graph a b) : a ∈ graph.nodeIds ∧ b ∈ graph.nodeIds := by
  obtain ⟨e, -, hsearched, rfl, rfl⟩ := h
  simp only [GraphRuleGraph.isSearched, Bool.and_eq_true, decide_eq_true_eq] at hsearched
  exact hsearched.2

/-- The links of a closed walk are edges. -/
theorem feeds_of_links {w : Id} (path : List Id) :
    ∀ u, (u :: path).IsChain (Feeds graph) →
      Feeds graph ((u :: path).getLast (List.cons_ne_nil _ _)) w →
      ∀ l ∈ (u :: path).zip (path ++ [w]), Feeds graph l.1 l.2 := by
  induction path with
  | nil =>
    intro u _ hback l hl
    obtain rfl : l = (u, w) := by simpa using hl
    exact hback
  | cons next path ih =>
    intro u hchain hback l hl
    rw [List.isChain_cons_cons] at hchain
    rw [List.cons_append, List.zip_cons_cons] at hl
    rcases List.mem_cons.mp hl with rfl | hl
    · exact hchain.1
    · exact ih next hchain.2 hback l hl

/-- **False warnings.** Some order of the snapshot puts a warning on a given node of a cycle that is no
    branch node. -/
theorem exists_order_flagging {v : Id} (hbranch : graph.isBranch v = false) (hcycle : OnCycle graph v) :
    ∃ graph', Reordering graph graph' ∧ v ∈ (evaluateGraphCycleWarnings graph').map (·.nodeId) := by
  obtain ⟨w, hback, hreach⟩ := Relation.TransGen.head'_iff.mp hcycle
  obtain ⟨path, hchain, hnodup, hlast⟩ := exists_nodup_path hreach
  have hlinks := feeds_of_links path w hchain (by rw [hlast]; exact hback)
  have hsources : ((w :: path).zip (path ++ [w])).map (·.1) = w :: path :=
    List.map_fst_zip (by simp)
  have horder := walkFirst_reordering graph w ((w :: path).zip (path ++ [w]))
  refine ⟨_, horder, ?_⟩
  obtain ⟨others, hids⟩ :=
    walkFirst_nodeIds ((w :: path).zip (path ++ [w])) hback.mem_nodeIds.2
  generalize hgraph' : graph.walkFirst w ((w :: path).zip (path ++ [w])) = graph' at horder hids
  -- the walk visits each node once, so the budget covers it
  have hfuel : path.length < cycleFuel graph' := by
    have hsub : (w :: path) ⊆ graph'.nodeIds := by
      intro p hp
      rw [← hsources] at hp
      obtain ⟨l, hl, rfl⟩ := List.mem_map.mp hp
      exact (horder.mem_nodeIds _).mpr (hlinks l hl).mem_nodeIds.1
    have hlen := (List.subperm_of_subset hnodup hsub).length_le
    have hsum := List.length_le_sum_of_one_le
      (graph'.nodeIds.map fun id => (graph'.adjacency id).length + 1) (by simp)
    rw [List.length_map] at hsum
    rw [List.length_cons] at hlen
    rw [cycleFuel]
    omega
  rw [evaluateGraphCycleWarnings, evaluateGraphCycleWarningsWith, hids, List.foldl_cons]
  have hkeep : ∀ (ids : List Id) (c : CycleSearch Id), v ∈ c.flagged.map (·.nodeId) →
      v ∈ (ids.foldl (cycleFrom graph' (cycleFuel graph')) c).flagged.map (·.nodeId) := by
    intro ids
    induction ids with
    | nil => exact fun c h => h
    | cons id ids ih => exact fun c h => ih _ (cycleFrom_flagged _ _ h)
  refine hkeep others _ ?_
  have hstart : cycleFrom graph' (cycleFuel graph') cycleSearchInit w =
      whileLoop cycleStackNonempty (cycleStep graph') (cycleFuel graph')
        { color := Function.update (fun _ => .white) w .gray, stack := [⟨w, 0⟩], flagged := [] } := rfl
  rw [hstart]
  obtain ⟨hfresh, hnodup'⟩ := List.nodup_cons.mp hnodup
  have hwalk := flagged_of_walk graph' path w []
    { color := Function.update (fun _ => .white) w .gray, stack := [⟨w, 0⟩], flagged := [] }
    (cycleFuel graph') rfl (Function.update_self w Color.gray fun _ => Color.white)
    (fun p hp => Function.update_of_ne (ne_of_mem_of_not_mem hp hfresh) Color.gray fun _ => Color.white)
    hnodup'
    (fun l hl => by
      rw [← hgraph']
      exact walkFirst_adjacency (by rw [hsources]; exact hnodup) hl (hlinks l hl))
    hfuel (by rw [horder.isBranch_eq, hlast]; exact hbranch)
  rwa [hlast] at hwalk

/-! ## 5. When the rule says what it means -/

/-- **Exact warnings.** The warnings are right in every order of the nodes and edges exactly when no
    node except the branch nodes lies only on cycles through a branch node. -/
theorem warnsExactly_iff (graph : GraphRuleGraph Id) :
    (∀ graph', Reordering graph graph' → WarnsExactly graph') ↔
      ∀ v, graph.isBranch v = false → OnCycle graph v → OnBranchFreeCycle graph v := by
  constructor
  · intro h v hbranch hcycle
    obtain ⟨graph', horder, hflagged⟩ := exists_order_flagging hbranch hcycle
    obtain ⟨w, hw, rfl⟩ := List.mem_map.mp hflagged
    exact (horder.onBranchFreeCycle_iff _).mp ((h graph' horder).2 w hw)
  · intro h graph' horder
    have hwarned : ∀ w ∈ evaluateGraphCycleWarnings graph', OnBranchFreeCycle graph' w.nodeId := by
      intro w hw
      obtain ⟨hbranch, hcycle⟩ := warned_on_cycle hw
      rw [horder.onBranchFreeCycle_iff]
      exact h _ (by rwa [← horder.isBranch_eq]) ((horder.onCycle_iff _).mp hcycle)
    refine ⟨⟨?_, ?_⟩, hwarned⟩
    · intro hne
      obtain ⟨w, hw⟩ := List.exists_mem_of_ne_nil _ hne
      exact ⟨w.nodeId, hwarned w hw⟩
    · rintro ⟨v, hv⟩
      exact warnings_ne_nil hv

/-- A pass-through node and a switch that feed each other, listed from the switch or from the node. -/
def retryLoop (switchFirst : Bool) : GraphRuleGraph String where
  nodes := if switchFirst then [⟨"sw", "switch"⟩, ⟨"a", "action"⟩] else [⟨"a", "action"⟩, ⟨"sw", "switch"⟩]
  edges := [{ source := "a", target := "sw" }, { source := "sw", target := "a" }]

/-- The switch is on the only cycle; whether the rule warns is decided by the order of the nodes. -/
theorem retryLoop_warns_by_order :
    Reordering (retryLoop false) (retryLoop true) ∧
      evaluateGraphCycleWarnings (retryLoop false) = [] ∧
      evaluateGraphCycleWarnings (retryLoop true) = [unescapableCycleWarning "a"] ∧
      ¬ ∃ v, OnBranchFreeCycle (retryLoop true) v := by
  refine ⟨⟨List.Perm.swap _ _ _, .refl _, ?_⟩, by decide +kernel, by decide +kernel, ?_⟩
  · intro id
    by_cases ha : "a" = id
    · subst ha
      decide +kernel
    · by_cases hsw : "sw" = id
      · subst hsw
        decide +kernel
      · simp [GraphRuleGraph.nodeType, retryLoop, ha, hsw]
  · rintro ⟨v, hcycle⟩
    obtain ⟨w, ⟨⟨e, he, -, hsource, htarget⟩, hfrom, hto⟩, -⟩ := Relation.TransGen.head'_iff.mp hcycle
    have hends : ∀ e ∈ (retryLoop true).edges,
        (retryLoop true).isBranch e.source = true ∨ (retryLoop true).isBranch e.target = true := by
      decide +kernel
    rcases hends e he with hbranch | hbranch
    · rw [hsource, hfrom] at hbranch
      exact Bool.false_ne_true hbranch
    · rw [htarget, hto] at hbranch
      exact Bool.false_ne_true hbranch

end Clemvion.Graph
