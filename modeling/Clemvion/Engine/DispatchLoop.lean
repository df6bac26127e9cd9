import Mathlib.Data.Finset.Option
import Mathlib.Algebra.BigOperators.Group.Finset.Basic
import Clemvion.Library.Loop
import Clemvion.Graph.GraphTraversal

/-!
# DispatchLoop — the pointer loop over the sorted nodes

The loop that `runExecution` and `runNodeDispatchLoop` share.  A pointer walks the topological
order; a reachable node is counted, executed, and opens its activated out-edges; an activated
back-edge clears the window it spans and moves the pointer back.

What the loop does not decide itself is the `Environment`: the boundary checks (active-time limit
and external cancellation), what executing a node did, and whether a park handler takes a waiting
node.  The environment sees the whole loop state, so it may answer differently every time.
-/

open Clemvion.Js Clemvion.Graph Clemvion.Library

set_option linter.unusedSectionVars false

namespace Clemvion.Engine

variable {Id : Type} [LinearOrder Id]

/-- What the loop can throw, by origin. -/
inductive LoopError
  | boundary (message : String)
  | iterationLimit (message : String)
  | node (message : String)
  deriving DecidableEq

inductive LoopEnd
  | completed
  | parked
  | threw (error : LoopError)
  deriving DecidableEq

/-- What executing a node, with the container, background or parallel run its kind adds, leaves
behind for the loop. -/
inductive Visit (Id : Type)
  /-- `executeNode` or the follow-up threw. -/
  | threw (message : String)
  /-- A nested sub-workflow parked: `ParkReleaseSignal`. -/
  | parkReleased
  /-- The node finished; `none` when the error policy skipped it and nothing was committed. -/
  | ran (committed : Option FlatValue)
  /-- `runParallel` ran the branches: the outputs written, own output last, and the nodes it
  added to the reachable set. -/
  | ranParallel (written : List (Id × FlatValue)) (marked : List Id)

structure LoopState (Id : Type) where
  pointer : Nat
  reachable : Finset Id
  nodeExecutionCount : Id → Nat
  nodeOutputCache : OutputCache Id
  executedNodes : Finset Id
  /-- Passes made so far. -/
  iteration : Nat
  /-- History, like the next two fields, which the program does not keep: the nodes dispatched so
  far, in order. -/
  dispatched : List Id
  /-- The nodes whose latest execution no rewind has undone. -/
  live : Finset Id := ∅
  /-- The target of the back-edge that the previous pass followed. -/
  rewoundTo : Option Id := none

structure Environment (Id : Type) where
  /-- `assertActiveTimeWithinLimit` and `assertExecutionNotCancelled`. -/
  boundary : LoopState Id → Option String
  execute : LoopState Id → Node Id → Visit Id
  /-- `dispatchParkEntry` answered `PARK_RELEASED`. -/
  parkEntry : LoopState Id → Node Id → Bool

structure LoopOptions where
  /-- Crash re-drive only: trust the restored `executedNodes`. -/
  skipExecutedNodes : Bool := false
  /-- `singleNodeId` is set: stop after the first executed node. -/
  singleNode : Bool := false

/-- A fresh run of `runExecution`. -/
def LoopState.initial (reachable : Finset Id) : LoopState Id where
  pointer := 0
  reachable
  nodeExecutionCount := fun _ => 0
  nodeOutputCache := emptyCache
  executedNodes := ∅
  iteration := 0
  dispatched := []

/-- `pointer++; continue`. -/
def LoopState.next (s : LoopState Id) : LoopState Id :=
  { s with pointer := s.pointer + 1, iteration := s.iteration + 1, rewoundTo := none }

/-- `nodeExecutionCount.set(nodeId, count)`. -/
def LoopState.countNode (s : LoopState Id) (nodeId : Id) : LoopState Id :=
  { s with
    nodeExecutionCount :=
      Function.update s.nodeExecutionCount nodeId (s.nodeExecutionCount nodeId + 1) }

/-- The node passed the iteration guard. -/
def LoopState.beginDispatch (s : LoopState Id) (nodeId : Id) : LoopState Id :=
  { s.countNode nodeId with dispatched := s.dispatched ++ [nodeId] }

/-- `commitNodeOutput` and `executedNodes.add`. -/
def LoopState.commit (s : LoopState Id) (nodeId : Id) (committed : Option FlatValue) :
    LoopState Id :=
  { s with
    nodeOutputCache := match committed with
      | some output => Function.update s.nodeOutputCache nodeId output
      | none => s.nodeOutputCache
    executedNodes := insert nodeId s.executedNodes
    live := insert nodeId s.live }

/-- `handleDisabledNode`, then `pointer++`. -/
def LoopState.leaveDisabled (s : LoopState Id) (nodeId : Id) : LoopState Id :=
  { s.next with executedNodes := insert nodeId s.executedNodes }

def iterationLimitMessage (node : Node Id) (maxNodeIterations : Nat) : String :=
  "Node \"" ++ node.label ++ "\" exceeded maximum iteration count (" ++
    toString maxNodeIterations ++ "). Set MAX_NODE_ITERATIONS=0 for unlimited."

/-- `status === 'waiting_for_input'` on the node's cache entry. -/
def isWaiting (output : FlatValue) : Bool :=
  output.value.field "status" = .str "waiting_for_input"

variable (g : ExecutionGraphState Id)

/-- The nodes between two positions, both included. -/
def windowNodes (targetIndex pointer : Nat) : List Id :=
  (g.sortedNodeIds.take (pointer + 1)).drop targetIndex

/-- The tail of a pass: open the activated out-edges, then follow the first activated
back-edge, if any. -/
def LoopState.leaveNode (s : LoopState Id) (nodeId : Id) : LoopState Id :=
  let reachable := propagateReachability g s.nodeOutputCache nodeId s.reachable
  match findActivatedBackEdge (g.backEdgesFrom nodeId) (s.nodeOutputCache nodeId).value with
  | some activated =>
    let window := (windowNodes g activated.targetIndex s.pointer).toFinset
    let target := g.sortedNodeIds[activated.targetIndex]?
    { s with
      reachable := (reachable \ window) ∪ target.toFinset
      pointer := activated.targetIndex
      iteration := s.iteration + 1
      live := s.live \ window
      rewoundTo := target }
  | none => { s.next with reachable }

/-- The tail of a pass after `runParallel`, which did its own propagation. -/
def LoopState.leaveParallel (s : LoopState Id) (nodeId : Id) (written : List (Id × FlatValue))
    (marked : List Id) : LoopState Id :=
  let s := written.foldl (fun s w => s.commit w.1 (some w.2)) (s.commit nodeId none)
  { s.next with reachable := s.reachable ∪ marked.toFinset }

/-- Execute the dispatched node and leave it.  A single-node run breaks before the follow-ups,
so its environment never answers `ranParallel`. -/
def visitNode (env : Environment Id) (opts : LoopOptions) (s : LoopState Id) (nodeId : Id)
    (node : Node Id) : LoopState Id × Option LoopEnd :=
  match env.execute s node with
  | .threw message => (s, some (.threw (.node message)))
  | .parkReleased => (s, some .parked)
  | .ran committed =>
    let s := s.commit nodeId committed
    if opts.singleNode then (s, some .completed)
    else if isWaiting (s.nodeOutputCache nodeId) && env.parkEntry s node then (s, some .parked)
    else (s.leaveNode g nodeId, none)
  | .ranParallel written marked => (s.leaveParallel nodeId written marked, none)

/-- One pass of the loop. -/
def dispatchStep (env : Environment Id) (opts : LoopOptions) (s : LoopState Id) :
    LoopState Id × Option LoopEnd :=
  match g.sortedNodeIds[s.pointer]? with
  | none => (s, some .completed)
  | some nodeId =>
    match env.boundary s with
    | some message => (s, some (.threw (.boundary message)))
    | none =>
      match g.nodeMap nodeId with
      | none => (s.next, none)
      | some node =>
        if nodeId ∉ s.reachable then (s.next, none)
        else if opts.skipExecutedNodes && nodeId ∈ s.executedNodes then (s.next, none)
        else
          let counted := s.countNode nodeId
          if 0 < g.maxNodeIterations &&
              g.maxNodeIterations < counted.nodeExecutionCount nodeId then
            (counted, some (.threw (.iterationLimit
              (iterationLimitMessage node g.maxNodeIterations))))
          else if node.isDisabled then ((s.beginDispatch nodeId).leaveDisabled nodeId, none)
          else visitNode g env opts (s.beginDispatch nodeId) nodeId node

/-- `runNodeDispatchLoop` under a budget of passes. -/
def runNodeDispatchLoop (env : Environment Id) (opts : LoopOptions) (fuel : Nat)
    (s : LoopState Id) : LoopState Id × Option LoopEnd :=
  runLoop (dispatchStep g env opts) fuel s

/-! ## 1. What the operations leave alone -/

section Fields

variable (s : LoopState Id) (nodeId : Id) (committed : Option FlatValue)
  (written : List (Id × FlatValue)) (marked : List Id)

@[simp] theorem next_pointer : s.next.pointer = s.pointer + 1 := rfl
@[simp] theorem next_reachable : s.next.reachable = s.reachable := rfl
@[simp] theorem next_count : s.next.nodeExecutionCount = s.nodeExecutionCount := rfl
@[simp] theorem next_cache : s.next.nodeOutputCache = s.nodeOutputCache := rfl
@[simp] theorem next_executed : s.next.executedNodes = s.executedNodes := rfl
@[simp] theorem next_dispatched : s.next.dispatched = s.dispatched := rfl
@[simp] theorem next_live : s.next.live = s.live := rfl
@[simp] theorem next_rewoundTo : s.next.rewoundTo = none := rfl

@[simp] theorem beginDispatch_pointer : (s.beginDispatch nodeId).pointer = s.pointer := rfl
@[simp] theorem beginDispatch_reachable : (s.beginDispatch nodeId).reachable = s.reachable := rfl
@[simp] theorem beginDispatch_cache :
    (s.beginDispatch nodeId).nodeOutputCache = s.nodeOutputCache := rfl
@[simp] theorem beginDispatch_executed :
    (s.beginDispatch nodeId).executedNodes = s.executedNodes := rfl
@[simp] theorem beginDispatch_dispatched :
    (s.beginDispatch nodeId).dispatched = s.dispatched ++ [nodeId] := rfl

@[simp] theorem beginDispatch_live : (s.beginDispatch nodeId).live = s.live := rfl

@[simp] theorem commit_pointer : (s.commit nodeId committed).pointer = s.pointer := rfl
@[simp] theorem commit_reachable : (s.commit nodeId committed).reachable = s.reachable := rfl
@[simp] theorem commit_count :
    (s.commit nodeId committed).nodeExecutionCount = s.nodeExecutionCount := rfl
@[simp] theorem commit_executed :
    (s.commit nodeId committed).executedNodes = insert nodeId s.executedNodes := rfl
@[simp] theorem commit_dispatched : (s.commit nodeId committed).dispatched = s.dispatched := rfl

@[simp] theorem commit_live : (s.commit nodeId committed).live = insert nodeId s.live := rfl

theorem commit_cache_of_ne {v : Id} (hv : v ≠ nodeId) :
    (s.commit nodeId committed).nodeOutputCache v = s.nodeOutputCache v := by
  cases committed with
  | none => rfl
  | some output => exact Function.update_of_ne hv ..

@[simp] theorem leaveDisabled_pointer :
    (s.leaveDisabled nodeId).pointer = s.pointer + 1 := rfl
@[simp] theorem leaveDisabled_reachable :
    (s.leaveDisabled nodeId).reachable = s.reachable := rfl
@[simp] theorem leaveDisabled_count :
    (s.leaveDisabled nodeId).nodeExecutionCount = s.nodeExecutionCount := rfl
@[simp] theorem leaveDisabled_cache :
    (s.leaveDisabled nodeId).nodeOutputCache = s.nodeOutputCache := rfl
@[simp] theorem leaveDisabled_executed :
    (s.leaveDisabled nodeId).executedNodes = insert nodeId s.executedNodes := rfl
@[simp] theorem leaveDisabled_dispatched :
    (s.leaveDisabled nodeId).dispatched = s.dispatched := rfl

@[simp] theorem leaveDisabled_live : (s.leaveDisabled nodeId).live = s.live := rfl
@[simp] theorem leaveDisabled_rewoundTo : (s.leaveDisabled nodeId).rewoundTo = none := rfl

@[simp] theorem leaveNode_count :
    (s.leaveNode g nodeId).nodeExecutionCount = s.nodeExecutionCount := by
  unfold LoopState.leaveNode
  split <;> rfl

@[simp] theorem leaveNode_cache :
    (s.leaveNode g nodeId).nodeOutputCache = s.nodeOutputCache := by
  unfold LoopState.leaveNode
  split <;> rfl

@[simp] theorem leaveNode_executed :
    (s.leaveNode g nodeId).executedNodes = s.executedNodes := by
  unfold LoopState.leaveNode
  split <;> rfl

@[simp] theorem leaveNode_dispatched :
    (s.leaveNode g nodeId).dispatched = s.dispatched := by
  unfold LoopState.leaveNode
  split <;> rfl

/-- Leaving without an activated back-edge. -/
theorem leaveNode_forward
    (hback : findActivatedBackEdge (g.backEdgesFrom nodeId) (s.nodeOutputCache nodeId).value
      = none) :
    s.leaveNode g nodeId = { s.next with
      reachable := propagateReachability g s.nodeOutputCache nodeId s.reachable } := by
  simp only [LoopState.leaveNode, hback]

/-- The commits of the branches touch the cache and the executed set only. -/
theorem foldl_commit_frame :
    (written.foldl (fun s w => s.commit w.1 (some w.2)) s).pointer = s.pointer ∧
    (written.foldl (fun s w => s.commit w.1 (some w.2)) s).reachable = s.reachable ∧
    (written.foldl (fun s w => s.commit w.1 (some w.2)) s).nodeExecutionCount
      = s.nodeExecutionCount ∧
    (written.foldl (fun s w => s.commit w.1 (some w.2)) s).dispatched = s.dispatched := by
  induction written generalizing s with
  | nil => exact ⟨rfl, rfl, rfl, rfl⟩
  | cons w ws ih => exact ih (s.commit w.1 (some w.2))

@[simp] theorem leaveParallel_pointer :
    (s.leaveParallel nodeId written marked).pointer = s.pointer + 1 := by
  simp [LoopState.leaveParallel, foldl_commit_frame]

@[simp] theorem leaveParallel_reachable :
    (s.leaveParallel nodeId written marked).reachable = s.reachable ∪ marked.toFinset := by
  simp [LoopState.leaveParallel, foldl_commit_frame]

@[simp] theorem leaveParallel_rewoundTo :
    (s.leaveParallel nodeId written marked).rewoundTo = none := rfl

@[simp] theorem leaveParallel_count :
    (s.leaveParallel nodeId written marked).nodeExecutionCount = s.nodeExecutionCount := by
  simp [LoopState.leaveParallel, foldl_commit_frame]

@[simp] theorem leaveParallel_dispatched :
    (s.leaveParallel nodeId written marked).dispatched = s.dispatched := by
  simp [LoopState.leaveParallel, foldl_commit_frame]

end Fields

/-! ## 2. Everything one pass can do -/

/-- The node at the pointer, as the pass that dispatches it finds it. -/
structure Dispatches (env : Environment Id) (opts : LoopOptions) (s : LoopState Id) (nodeId : Id)
    (node : Node Id) : Prop where
  atPointer : g.sortedNodeIds[s.pointer]? = some nodeId
  noBoundary : env.boundary s = none
  known : g.nodeMap nodeId = some node
  reachable : nodeId ∈ s.reachable
  notSkipped : ¬ (opts.skipExecutedNodes = true ∧ nodeId ∈ s.executedNodes)
  withinLimit : g.maxNodeIterations = 0 ∨ s.nodeExecutionCount nodeId < g.maxNodeIterations

/-- The exits of a pass, each with what the pass found. -/
inductive Pass (env : Environment Id) (opts : LoopOptions) (s : LoopState Id) :
    LoopState Id → Option LoopEnd → Prop
  | pastEnd (hend : g.sortedNodeIds[s.pointer]? = none) : Pass env opts s s (some .completed)
  | boundary {message : String} (hb : env.boundary s = some message) :
      Pass env opts s s (some (.threw (.boundary message)))
  | skipped {nodeId : Id} (hat : g.sortedNodeIds[s.pointer]? = some nodeId)
      (hskip : g.nodeMap nodeId = none ∨ nodeId ∉ s.reachable ∨
        (opts.skipExecutedNodes = true ∧ nodeId ∈ s.executedNodes)) :
      Pass env opts s s.next none
  | limit {nodeId : Id} {node : Node Id} (hat : g.sortedNodeIds[s.pointer]? = some nodeId)
      (hmax : 0 < g.maxNodeIterations)
      (hcount : g.maxNodeIterations ≤ s.nodeExecutionCount nodeId) :
      Pass env opts s (s.countNode nodeId) (some (.threw (.iterationLimit
        (iterationLimitMessage node g.maxNodeIterations))))
  | disabled {nodeId : Id} {node : Node Id} (hd : Dispatches g env opts s nodeId node)
      (hdis : node.isDisabled = true) :
      Pass env opts s ((s.beginDispatch nodeId).leaveDisabled nodeId) none
  | threw {nodeId : Id} {node : Node Id} {message : String}
      (hd : Dispatches g env opts s nodeId node) (hen : node.isDisabled = false)
      (hvisit : env.execute (s.beginDispatch nodeId) node = .threw message) :
      Pass env opts s (s.beginDispatch nodeId) (some (.threw (.node message)))
  | released {nodeId : Id} {node : Node Id} (hd : Dispatches g env opts s nodeId node)
      (hen : node.isDisabled = false)
      (hvisit : env.execute (s.beginDispatch nodeId) node = .parkReleased) :
      Pass env opts s (s.beginDispatch nodeId) (some .parked)
  | single {nodeId : Id} {node : Node Id} {committed : Option FlatValue}
      (hd : Dispatches g env opts s nodeId node) (hen : node.isDisabled = false)
      (hvisit : env.execute (s.beginDispatch nodeId) node = .ran committed)
      (hsingle : opts.singleNode = true) :
      Pass env opts s ((s.beginDispatch nodeId).commit nodeId committed) (some .completed)
  | parked {nodeId : Id} {node : Node Id} {committed : Option FlatValue}
      (hd : Dispatches g env opts s nodeId node) (hen : node.isDisabled = false)
      (hvisit : env.execute (s.beginDispatch nodeId) node = .ran committed)
      (hwait : isWaiting (((s.beginDispatch nodeId).commit nodeId committed).nodeOutputCache nodeId)
        = true)
      (hpark : env.parkEntry ((s.beginDispatch nodeId).commit nodeId committed) node = true) :
      Pass env opts s ((s.beginDispatch nodeId).commit nodeId committed) (some .parked)
  | left {nodeId : Id} {node : Node Id} {committed : Option FlatValue}
      (hd : Dispatches g env opts s nodeId node) (hen : node.isDisabled = false)
      (hvisit : env.execute (s.beginDispatch nodeId) node = .ran committed)
      (hgo : ¬ (isWaiting (((s.beginDispatch nodeId).commit nodeId committed).nodeOutputCache
        nodeId) = true ∧ env.parkEntry ((s.beginDispatch nodeId).commit nodeId committed) node
          = true)) :
      Pass env opts s (((s.beginDispatch nodeId).commit nodeId committed).leaveNode g nodeId) none
  | parallel {nodeId : Id} {node : Node Id} {written : List (Id × FlatValue)} {marked : List Id}
      (hd : Dispatches g env opts s nodeId node) (hen : node.isDisabled = false)
      (hvisit : env.execute (s.beginDispatch nodeId) node = .ranParallel written marked) :
      Pass env opts s ((s.beginDispatch nodeId).leaveParallel nodeId written marked) none

private theorem visitNode_pass {env : Environment Id} {opts : LoopOptions} {s : LoopState Id}
    {nodeId : Id} {node : Node Id} (hd : Dispatches g env opts s nodeId node)
    (hen : node.isDisabled = false) :
    Pass g env opts s (visitNode g env opts (s.beginDispatch nodeId) nodeId node).1
      (visitNode g env opts (s.beginDispatch nodeId) nodeId node).2 := by
  unfold visitNode
  cases hvisit : env.execute (s.beginDispatch nodeId) node with
  | threw message => exact .threw hd hen hvisit
  | parkReleased => exact .released hd hen hvisit
  | ranParallel written marked => exact .parallel hd hen hvisit
  | ran committed =>
    by_cases hsingle : opts.singleNode = true
    · simp only [hsingle, if_true]
      exact .single hd hen hvisit hsingle
    · simp only [hsingle, Bool.and_eq_true]
      by_cases hgo : isWaiting (((s.beginDispatch nodeId).commit nodeId committed).nodeOutputCache
          nodeId) = true ∧ env.parkEntry ((s.beginDispatch nodeId).commit nodeId committed) node
            = true
      · simp only [hgo, and_self, if_true]
        exact .parked hd hen hvisit hgo.1 hgo.2
      · simp only [hgo, if_false]
        exact .left hd hen hvisit hgo

/-- **Inversion.** Every pass leaves by one of the exits. -/
theorem dispatchStep_pass (env : Environment Id) (opts : LoopOptions) (s : LoopState Id) :
    Pass g env opts s (dispatchStep g env opts s).1 (dispatchStep g env opts s).2 := by
  unfold dispatchStep
  cases hat : g.sortedNodeIds[s.pointer]? with
  | none => exact .pastEnd hat
  | some nodeId =>
    cases hb : env.boundary s with
    | some message => exact .boundary hb
    | none =>
      cases hnode : g.nodeMap nodeId with
      | none =>
        simp only [hnode]
        exact .skipped hat (.inl hnode)
      | some node =>
        simp only [hnode]
        by_cases hreach : nodeId ∈ s.reachable
        · rw [if_neg (by simpa using hreach)]
          by_cases hskip : opts.skipExecutedNodes = true ∧ nodeId ∈ s.executedNodes
          · rw [if_pos (by simpa using hskip)]
            exact .skipped hat (.inr (.inr hskip))
          · rw [if_neg (by simpa using hskip)]
            have hcount : (s.countNode nodeId).nodeExecutionCount nodeId =
                s.nodeExecutionCount nodeId + 1 := Function.update_self ..
            rw [hcount]
            by_cases hlimit : 0 < g.maxNodeIterations ∧
                g.maxNodeIterations < s.nodeExecutionCount nodeId + 1
            · rw [if_pos (by simpa using hlimit)]
              exact .limit hat hlimit.1 (by omega)
            · rw [if_neg (by simpa using hlimit)]
              have hd : Dispatches g env opts s nodeId node :=
                ⟨hat, hb, hnode, hreach, hskip, by omega⟩
              cases hdis : node.isDisabled with
              | true => exact .disabled hd hdis
              | false => exact visitNode_pass g hd hdis
        · rw [if_pos hreach]
          exact .skipped hat (.inr (.inl hreach))

/-- The inversion lemma for a pass whose result is known. -/
theorem dispatchStep_eq_pass {env : Environment Id} {opts : LoopOptions} {s t : LoopState Id}
    {e : Option LoopEnd} (h : dispatchStep g env opts s = (t, e)) : Pass g env opts s t e := by
  have hpass := dispatchStep_pass g env opts s
  rwa [h] at hpass

/-- An enabled node that the pass dispatches is visited. -/
theorem dispatchStep_of_dispatches {env : Environment Id} {opts : LoopOptions} {s : LoopState Id}
    {nodeId : Id} {node : Node Id} (hd : Dispatches g env opts s nodeId node)
    (hen : node.isDisabled = false) :
    dispatchStep g env opts s = visitNode g env opts (s.beginDispatch nodeId) nodeId node := by
  have hcount : (s.countNode nodeId).nodeExecutionCount nodeId =
      s.nodeExecutionCount nodeId + 1 := Function.update_self ..
  have hlimit : ¬ (0 < g.maxNodeIterations ∧
      g.maxNodeIterations < s.nodeExecutionCount nodeId + 1) := by
    rcases hd.withinLimit with hzero | hlt <;> omega
  unfold dispatchStep
  simp only [hd.atPointer, hd.noBoundary, hd.known, hcount]
  rw [if_neg (by simpa using hd.reachable), if_neg (by simpa using hd.notSkipped),
    if_neg (by simpa using hlimit), if_neg (by simp [hen])]

/-- Two environments that agree on the visit of the node at the pointer make the same pass. -/
theorem dispatchStep_congr {env env' : Environment Id} {opts : LoopOptions} {s : LoopState Id}
    (hboundary : env.boundary s = env'.boundary s)
    (hvisit : ∀ nodeId node, Dispatches g env opts s nodeId node → node.isDisabled = false →
      visitNode g env opts (s.beginDispatch nodeId) nodeId node =
        visitNode g env' opts (s.beginDispatch nodeId) nodeId node) :
    dispatchStep g env opts s = dispatchStep g env' opts s := by
  by_cases hd : ∃ nodeId node, Dispatches g env opts s nodeId node ∧ node.isDisabled = false
  · obtain ⟨nodeId, node, hd, hen⟩ := hd
    have hd' : Dispatches g env' opts s nodeId node := { hd with
      noBoundary := hboundary ▸ hd.noBoundary }
    rw [dispatchStep_of_dispatches g hd hen, dispatchStep_of_dispatches g hd' hen]
    exact hvisit nodeId node hd hen
  · -- the environments are asked for nothing but the boundary checks
    unfold dispatchStep
    rw [← hboundary]
    split
    · rfl
    · rename_i nodeId hat
      split
      · rfl
      · rename_i hb
        split
        · rfl
        · rename_i node hnode
          split_ifs with hreach hskip hdis
          · rfl
          · rfl
          · have hcount : (s.countNode nodeId).nodeExecutionCount nodeId =
                s.nodeExecutionCount nodeId + 1 := Function.update_self ..
            have hlimit : 0 < g.maxNodeIterations ∧
                g.maxNodeIterations < s.nodeExecutionCount nodeId + 1 := by
              by_contra hnot
              apply hd
              exact ⟨nodeId, node, ⟨hat, hb, hnode, by simpa using hreach, by simpa using hskip,
                by omega⟩, by simpa using hdis⟩
            simp only [hcount]
            rw [if_pos (by simpa using hlimit), if_pos (by simpa using hlimit)]
          · rfl

end Clemvion.Engine
