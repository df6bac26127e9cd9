import Mathlib.Data.String.Basic
import Clemvion.Engine.DispatchLoop

/-!
# ReachabilitySoundness — why a dispatched node was reachable

A mark in `reachable` is justified by an entry seed, by the back-edge just followed, or by a
forward edge out of a node that ran in the current pass and whose current output selects the
edge.  A rewind clears the marks of its own window only; a mark beyond the pointer survives the
execution that put it there.  `CleanPass` says that a pass leaves no such mark behind, and the
run theorem shows that clean passes dispatch justified nodes only.
-/

open Clemvion.Js Clemvion.Graph Clemvion.Library

set_option linter.unusedSectionVars false

namespace Clemvion.Engine

variable {Id : Type} [LinearOrder Id] (g : ExecutionGraphState Id)

/-! ## 1. Justified marks -/

/-- A forward edge out of a live node, on a port that the node's current output selects. -/
def Justified (cache : OutputCache Id) (live : Finset Id) (v : Id) : Prop :=
  ∃ e ∈ g.forwardEdges, e.targetNodeId = v ∧ e.sourceNodeId ∈ live ∧
    isPortFiltered (cache e.sourceNodeId).value e.sourcePort = false

/-- The marks beyond a position are entry seeds or justified. -/
def JustifiedBeyond (seeds : Finset Id) (position : Nat) (reachable : Finset Id)
    (cache : OutputCache Id) (live : Finset Id) : Prop :=
  ∀ i v, position < i → g.sortedNodeIds[i]? = some v → v ∈ reachable →
    v ∈ seeds ∨ Justified g cache live v

/-- The pass that starts in `s` leaves no stale mark beyond the pointer, in the three situations
where one can arise. -/
structure CleanPass (env : Environment Id) (opts : LoopOptions) (seeds : Finset Id)
    (s : LoopState Id) : Prop where
  /-- It follows a back-edge, which undoes the executions of the window. -/
  rewind : ∀ nodeId node committed activated, Dispatches g env opts s nodeId node →
    env.execute (s.beginDispatch nodeId) node = .ran committed →
    let ran := (s.beginDispatch nodeId).commit nodeId committed
    findActivatedBackEdge (g.backEdgesFrom nodeId) (ran.nodeOutputCache nodeId).value
      = some activated →
    JustifiedBeyond g seeds s.pointer
      (propagateReachability g ran.nodeOutputCache nodeId s.reachable) ran.nodeOutputCache
      (ran.live \ (windowNodes g activated.targetIndex s.pointer).toFinset)
  /-- It executes a node that a parallel branch of this pass has executed already. -/
  again : ∀ nodeId node committed, Dispatches g env opts s nodeId node → nodeId ∈ s.live →
    env.execute (s.beginDispatch nodeId) node = .ran committed →
    let ran := (s.beginDispatch nodeId).commit nodeId committed
    JustifiedBeyond g seeds s.pointer s.reachable ran.nodeOutputCache ran.live
  /-- It runs parallel branches. -/
  parallel : ∀ nodeId node written marked, Dispatches g env opts s nodeId node →
    env.execute (s.beginDispatch nodeId) node = .ranParallel written marked →
    let left := (s.beginDispatch nodeId).leaveParallel nodeId written marked
    JustifiedBeyond g seeds s.pointer (s.reachable ∪ marked.toFinset) left.nodeOutputCache
      left.live

/-! ## 2. The invariant and its step -/

/-- Every mark from the pointer on is justified; a rewind puts the pointer on its target. -/
structure MarksSound (seeds : Finset Id) (s : LoopState Id) : Prop where
  rewound : ∀ v, s.rewoundTo = some v → g.sortedNodeIds[s.pointer]? = some v
  marks : ∀ i v, s.pointer ≤ i → g.sortedNodeIds[i]? = some v → v ∈ s.reachable →
    v ∈ seeds ∨ s.rewoundTo = some v ∨ Justified g s.nodeOutputCache s.live v

variable {g} {env : Environment Id} {opts : LoopOptions} {seeds : Finset Id} {s t : LoopState Id}

theorem getElem?_idxOf {l : List Id} (hnodup : l.Nodup) {i : Nat} {v : Id}
    (hi : l[i]? = some v) : l.idxOf v = i := by
  obtain ⟨hlt, rfl⟩ := List.getElem?_eq_some_iff.mp hi
  exact hnodup.idxOf_getElem i hlt

/-- Past the pointer only seeds and justified marks count. -/
private theorem MarksSound.beyond (hsched : g.Scheduled) (h : MarksSound g seeds s) :
    JustifiedBeyond g seeds s.pointer s.reachable s.nodeOutputCache s.live := by
  intro i v hlt hi hv
  rcases h.marks i v hlt.le hi hv with hseed | hrew | hjust
  · exact .inl hseed
  · have hp := getElem?_idxOf hsched.nodup (h.rewound v hrew)
    rw [getElem?_idxOf hsched.nodup hi] at hp
    omega
  · exact .inr hjust

private theorem marksSound_of_beyond {position : Nat} (hrew : t.rewoundTo = none)
    (hpointer : t.pointer = position + 1)
    (h : JustifiedBeyond g seeds position t.reachable t.nodeOutputCache t.live) :
    MarksSound g seeds t := by
  refine ⟨?_, ?_⟩
  · intro v hv
    rw [hrew] at hv
    cases hv
  · intro i v hle hi hv
    rcases h i v (by omega) hi hv with hseed | hjust
    · exact .inl hseed
    · exact .inr (.inr hjust)

/-- A target opened beyond the pointer is opened by a forward edge. -/
private theorem justified_of_activated (hsched : g.Scheduled) {cache : OutputCache Id}
    {live : Finset Id} {nodeId v : Id} {i p : Nat} (hp : g.sortedNodeIds[p]? = some nodeId)
    (hi : g.sortedNodeIds[i]? = some v) (hlt : p < i) (hlive : nodeId ∈ live)
    (hv : v ∈ activatedTargets g (cache nodeId).value nodeId) : Justified g cache live v := by
  simp only [activatedTargets, ExecutionGraphState.outgoingEdges, List.mem_map, List.mem_filter,
    decide_eq_true_eq, Bool.not_eq_true'] at hv
  obtain ⟨e, ⟨⟨he, hsource⟩, hport⟩, htarget⟩ := hv
  rcases (hsched.split e).mp he with hforward | hback
  · exact ⟨e, hforward, htarget, hsource ▸ hlive, hsource ▸ hport⟩
  · have hle := hsched.back_le e hback
    rw [hsource, htarget, getElem?_idxOf hsched.nodup hp, getElem?_idxOf hsched.nodup hi] at hle
    omega

/-- A mark is not lost when its source stays live with the same output. -/
private theorem Justified.mono {cache cache' : OutputCache Id} {live live' : Finset Id} {v nodeId : Id}
    (hcache : ∀ u, u ≠ nodeId → cache' u = cache u) (hlive : ∀ u ∈ live, u ∈ live')
    (hnot : nodeId ∉ live) (h : Justified g cache live v) : Justified g cache' live' v := by
  obtain ⟨e, he, htarget, hsource, hport⟩ := h
  have hne : e.sourceNodeId ≠ nodeId := fun heq => hnot (heq ▸ hsource)
  exact ⟨e, he, htarget, hlive _ hsource, by rw [hcache _ hne]; exact hport⟩

/-- **One clean pass** keeps every mark from the pointer on justified. -/
theorem dispatchStep_marksSound (hsched : g.Scheduled) (h : MarksSound g seeds s)
    (hclean : CleanPass g env opts seeds s) (hstep : dispatchStep g env opts s = (t, none)) :
    MarksSound g seeds t := by
  have hbeyond := h.beyond hsched
  have hpass := dispatchStep_eq_pass g hstep
  cases hpass with
  | skipped hat hskip => exact marksSound_of_beyond rfl rfl hbeyond
  | disabled hd hdis => exact marksSound_of_beyond rfl rfl hbeyond
  | parallel hd hen hvisit =>
    refine marksSound_of_beyond rfl (leaveParallel_pointer ..) ?_
    rw [leaveParallel_reachable]
    exact hclean.parallel _ _ _ _ hd hvisit
  | @left nodeId node committed hd hen hvisit hgo =>
    set ran := (s.beginDispatch nodeId).commit nodeId committed with hran
    have hreach : ran.reachable = s.reachable := rfl
    have hpointer : ran.pointer = s.pointer := rfl
    cases hback : findActivatedBackEdge (g.backEdgesFrom nodeId)
        (ran.nodeOutputCache nodeId).value with
    | none =>
      rw [leaveNode_forward g ran nodeId hback]
      refine marksSound_of_beyond rfl rfl ?_
      intro i v hlt hi hv
      rcases Finset.mem_union.mp hv with hold | hnew
      · by_cases hlive : nodeId ∈ s.live
        · exact hclean.again nodeId node committed hd hlive hvisit i v hlt hi hold
        · refine (hbeyond i v hlt hi hold).imp_right fun hjust => ?_
          exact hjust.mono (fun u hu => commit_cache_of_ne _ _ _ hu)
            (fun u hu => Finset.mem_insert_of_mem hu) hlive
      · exact .inr (justified_of_activated hsched hd.atPointer hi hlt
          (Finset.mem_insert_self _ _) (List.mem_toFinset.mp hnew))
    | some activated =>
      have hmarks := hclean.rewind nodeId node committed activated hd hvisit hback
      simp only [LoopState.leaveNode, hback]
      refine ⟨fun v hv => hv, ?_⟩
      intro i v hle hi hv
      rcases Finset.mem_union.mp hv with hold | htarget
      · obtain ⟨hmem, hwindow⟩ := Finset.mem_sdiff.mp hold
        have hlt : s.pointer < i := by
          by_contra hle'
          refine hwindow (List.mem_toFinset.mpr ?_)
          refine List.mem_of_getElem? (i := i - activated.targetIndex) ?_
          rw [windowNodes, List.getElem?_drop, List.getElem?_take, hpointer]
          have hidx : activated.targetIndex + (i - activated.targetIndex) = i := by
            have hle'' : activated.targetIndex ≤ i := hle
            omega
          rw [hidx, if_pos (by omega)]
          exact hi
        rcases hmarks i v hlt hi hmem with hseed | hjust
        · exact .inl hseed
        · exact .inr (.inr hjust)
      · exact .inr (.inl (by simpa using htarget))

/-! ## 3. Whole runs -/

/-- A run of clean passes. -/
def CleanReaches (g : ExecutionGraphState Id) (env : Environment Id) (opts : LoopOptions)
    (seeds : Finset Id) : LoopState Id → LoopState Id → Prop :=
  Relation.ReflTransGen fun s t =>
    dispatchStep g env opts s = (t, none) ∧ CleanPass g env opts seeds s

theorem marksSound_initial : MarksSound g seeds (.initial seeds) := by
  refine ⟨?_, ?_⟩
  · intro v hv
    simp [LoopState.initial] at hv
  · intro i v _ _ hv
    exact .inl hv

theorem CleanReaches.marksSound (hsched : g.Scheduled)
    (hrun : CleanReaches g env opts seeds (.initial seeds) s) : MarksSound g seeds s := by
  induction hrun with
  | refl => exact marksSound_initial
  | tail _ hst ih => exact dispatchStep_marksSound hsched ih hst.2 hst.1

def loopNodes : List (Node String) :=
  [{ id := "head", type := "manual_trigger", category := .trigger, label := "Head" },
   { id := "body", type := "code", category := .logic, label := "Body" },
   { id := "exit", type := "code", category := .logic, label := "Exit" }]

def loopEdges : List (GraphEdge String) :=
  [⟨"head", "body", "body", "in"⟩, ⟨"head", "exit", "exit", "in"⟩, ⟨"body", "again", "head", "in"⟩]

def loopGraph : ExecutionGraphState String where
  graphEdges := loopEdges
  forwardEdges := loopEdges.take 2
  backEdges := loopEdges.drop 2
  sortedNodeIds := ["head", "body", "exit"]
  nodeMap := nodeMapOf loopNodes
  maxNodeIterations := 100

/-- `head` selects `headPorts` in its first pass and `body` afterwards; `body` goes round once. -/
def loopEnvironment (headPorts : List Value) : Environment String where
  boundary := fun _ => none
  execute := fun s node =>
    let firstPass := s.nodeExecutionCount node.id = 1
    let selected : Value :=
      if node.id = "head" then if firstPass then .arr headPorts else .arr [.str "body"]
      else if node.id = "body" then if firstPass then .str "again" else .str "done"
      else .str "out"
    .ran (some { value := .obj [("_selectedPort", selected)] })
  parkEntry := fun _ _ => false

theorem loadAndBuildGraph_loop : loadAndBuildGraph loopNodes loopEdges 100 = .ok loopGraph := rfl

instance (g : ExecutionGraphState Id) (cache : OutputCache Id) (live : Finset Id) (v : Id) :
    Decidable (Justified g cache live v) :=
  inferInstanceAs (Decidable (∃ e ∈ g.forwardEdges, _ ∧ _ ∧ _))

/-- The environment of the stale run. -/
def staleEnvironment : Environment String := loopEnvironment [.str "body", .str "exit"]

/-- The stale run before its fifth pass. -/
def staleState : LoopState String :=
  (runLoop (dispatchStep loopGraph staleEnvironment {}) 4
    (.initial (seedInitialReachability loopGraph []))).1

/-- The environment that opens `exit` in no pass. -/
def cleanEnvironment : Environment String := loopEnvironment [.str "body"]

private theorem cleanPass_head : CleanPass loopGraph cleanEnvironment {}
    (seedInitialReachability loopGraph []) (.initial (seedInitialReachability loopGraph [])) := by
  refine ⟨?_, ?_, ?_⟩
  · intro nodeId node committed activated hd hvisit ran hback
    obtain rfl : "head" = nodeId := by simpa [loopGraph, LoopState.initial] using hd.atPointer
    have hnone : loopGraph.backEdgesFrom "head" = [] := by decide
    simp [hnone, findActivatedBackEdge] at hback
  · intro nodeId node committed hd hlive
    simp [LoopState.initial] at hlive
  · intro nodeId node written marked hd hvisit
    simp [cleanEnvironment, loopEnvironment] at hvisit

end Clemvion.Engine
