import Mathlib.Data.String.Basic
import Clemvion.Engine.DispatchLoop

/-!
# DispatchTermination — every dispatch loop ends

The pointer moves backwards on back-edges, but only in a pass that dispatched a node, and every
dispatch spends one unit of the per-node budget.  The rank is the pair of the budget left and the
distance to the end, flattened to one number.
-/

open Clemvion.Js Clemvion.Graph Clemvion.Library

set_option linter.unusedSectionVars false

namespace Clemvion.Engine

variable {Id : Type} [LinearOrder Id] (g : ExecutionGraphState Id)

/-! ## 1. The dispatch budget -/

/-- Dispatches the iteration guard still allows. -/
def budget (s : LoopState Id) : Nat :=
  (g.sortedNodeIds.map fun v => g.maxNodeIterations - s.nodeExecutionCount v).sum

/-- The history stays within the counters, and the counters within the limit. -/
structure WithinBudget (s : LoopState Id) : Prop where
  counted : ∀ v, s.dispatched.count v ≤ s.nodeExecutionCount v
  limited : ∀ v, s.nodeExecutionCount v ≤ g.maxNodeIterations
  total : s.dispatched.length + budget g s ≤ g.sortedNodeIds.length * g.maxNodeIterations

variable {g} {s t : LoopState Id} {env : Environment Id} {opts : LoopOptions}

theorem WithinBudget.of_eq (h : WithinBudget g s)
    (hcount : t.nodeExecutionCount = s.nodeExecutionCount) (hdisp : t.dispatched = s.dispatched) :
    WithinBudget g t := by
  refine ⟨?_, ?_, ?_⟩
  · rw [hcount, hdisp]
    exact h.counted
  · rw [hcount]
    exact h.limited
  · have hbudget : budget g t = budget g s := by rw [budget, budget, hcount]
    rw [hbudget, hdisp]
    exact h.total

/-- A dispatch spends at least one unit. -/
theorem budget_beginDispatch_lt {nodeId : Id} (hmem : nodeId ∈ g.sortedNodeIds)
    (hlt : s.nodeExecutionCount nodeId < g.maxNodeIterations) :
    budget g (s.beginDispatch nodeId) < budget g s := by
  have hself : (s.beginDispatch nodeId).nodeExecutionCount nodeId
      = s.nodeExecutionCount nodeId + 1 := Function.update_self ..
  refine List.sum_lt_sum _ _ ?_ ⟨nodeId, hmem, by rw [hself]; omega⟩
  intro v _
  by_cases hv : v = nodeId
  · subst hv
    rw [hself]
    omega
  · have hother : (s.beginDispatch nodeId).nodeExecutionCount v = s.nodeExecutionCount v :=
      Function.update_of_ne hv ..
    rw [hother]

theorem WithinBudget.beginDispatch (h : WithinBudget g s) {nodeId : Id}
    (hmem : nodeId ∈ g.sortedNodeIds)
    (hlt : s.nodeExecutionCount nodeId < g.maxNodeIterations) :
    WithinBudget g (s.beginDispatch nodeId) := by
  refine ⟨?_, ?_, ?_⟩
  · intro v
    rw [beginDispatch_dispatched, List.count_append]
    by_cases hv : v = nodeId
    · subst hv
      have hself : (s.beginDispatch v).nodeExecutionCount v = s.nodeExecutionCount v + 1 :=
        Function.update_self ..
      have hold := h.counted v
      rw [hself]
      simp
      omega
    · have hother : (s.beginDispatch nodeId).nodeExecutionCount v = s.nodeExecutionCount v :=
        Function.update_of_ne hv ..
      have hne : nodeId ≠ v := fun heq => hv heq.symm
      rw [hother]
      simpa [List.count_singleton, hne] using h.counted v
  · intro v
    by_cases hv : v = nodeId
    · subst hv
      have hself : (s.beginDispatch v).nodeExecutionCount v = s.nodeExecutionCount v + 1 :=
        Function.update_self ..
      rw [hself]
      omega
    · have hother : (s.beginDispatch nodeId).nodeExecutionCount v = s.nodeExecutionCount v :=
        Function.update_of_ne hv ..
      rw [hother]
      exact h.limited v
  · have hbudget := budget_beginDispatch_lt hmem hlt
    have htotal := h.total
    rw [beginDispatch_dispatched, List.length_append, List.length_singleton]
    omega

/-! ## 2. One pass -/

/-- Passes left at most: a full sweep for every dispatch in the budget, and the current one. -/
def rank (g : ExecutionGraphState Id) (s : LoopState Id) : Nat :=
  budget g s * (g.sortedNodeIds.length + 1) + (g.sortedNodeIds.length - s.pointer)

private theorem rank_lt_of_budget_lt (hlt : budget g t < budget g s) : rank g t < rank g s := by
  have hmul : (budget g t + 1) * (g.sortedNodeIds.length + 1) ≤
      budget g s * (g.sortedNodeIds.length + 1) := Nat.mul_le_mul_right _ hlt
  rw [Nat.add_mul] at hmul
  unfold rank
  omega

private theorem rank_of_dispatch {nodeId : Id} (hmem : nodeId ∈ g.sortedNodeIds)
    (hlt : s.nodeExecutionCount nodeId < g.maxNodeIterations)
    (hcount : t.nodeExecutionCount = (s.beginDispatch nodeId).nodeExecutionCount) :
    rank g t < rank g s := by
  have hbudget : budget g t = budget g (s.beginDispatch nodeId) := by
    rw [budget, budget, hcount]
  exact rank_lt_of_budget_lt (hbudget ▸ budget_beginDispatch_lt hmem hlt)

private theorem Dispatches.mem {nodeId : Id} {node : Node Id}
    (hd : Dispatches g env opts s nodeId node) : nodeId ∈ g.sortedNodeIds :=
  List.mem_of_getElem? hd.atPointer

private theorem Dispatches.count_lt (hmax : 0 < g.maxNodeIterations) {nodeId : Id} {node : Node Id}
    (hd : Dispatches g env opts s nodeId node) :
    s.nodeExecutionCount nodeId < g.maxNodeIterations :=
  hd.withinLimit.resolve_left (by omega)

/-- **One pass** that goes round again keeps the budget and lowers the rank. -/
theorem dispatchStep_rank (hmax : 0 < g.maxNodeIterations) (h : WithinBudget g s)
    (hstep : dispatchStep g env opts s = (t, none)) :
    WithinBudget g t ∧ rank g t < rank g s := by
  have hpass := dispatchStep_eq_pass g hstep
  cases hpass with
  | skipped hat hskip =>
    have hlt := (List.getElem?_eq_some_iff.mp hat).1
    refine ⟨h.of_eq rfl rfl, ?_⟩
    have hbudget : budget g s.next = budget g s := rfl
    simp only [rank, hbudget, next_pointer]
    omega
  | disabled hd hdis =>
    exact ⟨(h.beginDispatch hd.mem (hd.count_lt hmax)).of_eq (by simp) (by simp),
      rank_of_dispatch hd.mem (hd.count_lt hmax) (by simp)⟩
  | left hd hen hvisit hgo =>
    exact ⟨(h.beginDispatch hd.mem (hd.count_lt hmax)).of_eq (by simp) (by simp),
      rank_of_dispatch hd.mem (hd.count_lt hmax) (by simp)⟩
  | parallel hd hen hvisit =>
    exact ⟨(h.beginDispatch hd.mem (hd.count_lt hmax)).of_eq (by simp) (by simp),
      rank_of_dispatch hd.mem (hd.count_lt hmax) (by simp)⟩

/-- The history within its bounds; unlike the counters it survives the final pass. -/
structure HistoryBounded (g : ExecutionGraphState Id) (s : LoopState Id) : Prop where
  each : ∀ v, s.dispatched.count v ≤ g.maxNodeIterations
  all : s.dispatched.length ≤ g.sortedNodeIds.length * g.maxNodeIterations

theorem WithinBudget.historyBounded (h : WithinBudget g s) : HistoryBounded g s :=
  ⟨fun v => (h.counted v).trans (h.limited v), by have := h.total; omega⟩

theorem HistoryBounded.of_eq (h : HistoryBounded g s) (hdisp : t.dispatched = s.dispatched) :
    HistoryBounded g t := by
  refine ⟨?_, ?_⟩
  · rw [hdisp]
    exact h.each
  · rw [hdisp]
    exact h.all

/-- The ways a loop can end, with what held in its last pass. -/
inductive EndedBy (g : ExecutionGraphState Id) (env : Environment Id) (u : LoopState Id) :
    LoopEnd → Prop
  | pastLast (hend : g.sortedNodeIds.length ≤ u.pointer) : EndedBy g env u .completed
  | limit {message : String} {nodeId : Id}
      (hcount : g.maxNodeIterations < u.nodeExecutionCount nodeId) :
      EndedBy g env u (.threw (.iterationLimit message))
  | handler {message : String} {node : Node Id} (hthrew : env.execute u node = .threw message) :
      EndedBy g env u (.threw (.node message))
  | nestedPark {node : Node Id} (hreleased : env.execute u node = .parkReleased) :
      EndedBy g env u .parked
  | park {node : Node Id} {nodeId : Id} (hwait : isWaiting (u.nodeOutputCache nodeId) = true)
      (hentry : env.parkEntry u node = true) : EndedBy g env u .parked
  | boundary {message : String} (hb : env.boundary u = some message) :
      EndedBy g env u (.threw (.boundary message))

/-- The final pass of a loop. -/
theorem dispatchStep_end (hmax : 0 < g.maxNodeIterations) (hsingle : opts.singleNode = false)
    (h : WithinBudget g s) {u : LoopState Id} {e : LoopEnd}
    (hstep : dispatchStep g env opts s = (u, some e)) :
    HistoryBounded g u ∧ EndedBy g env u e := by
  have hpass := dispatchStep_eq_pass g hstep
  cases hpass with
  | pastEnd hend => exact ⟨h.historyBounded, .pastLast (List.getElem?_eq_none_iff.mp hend)⟩
  | boundary hb => exact ⟨h.historyBounded, .boundary hb⟩
  | @limit nodeId node hat hpos hcount =>
    have hself : (s.countNode nodeId).nodeExecutionCount nodeId = s.nodeExecutionCount nodeId + 1 :=
      Function.update_self ..
    have hover : g.maxNodeIterations < (s.countNode nodeId).nodeExecutionCount nodeId := by omega
    exact ⟨h.historyBounded.of_eq rfl, .limit hover⟩
  | threw hd hen hvisit =>
    exact ⟨(h.beginDispatch hd.mem (hd.count_lt hmax)).historyBounded, .handler hvisit⟩
  | released hd hen hvisit =>
    exact ⟨(h.beginDispatch hd.mem (hd.count_lt hmax)).historyBounded, .nestedPark hvisit⟩
  | single hd hen hvisit hs =>
    rw [hsingle] at hs
    cases hs
  | parked hd hen hvisit hwait hpark =>
    exact ⟨((h.beginDispatch hd.mem (hd.count_lt hmax)).of_eq (by simp) (by simp)).historyBounded,
      .park hwait hpark⟩

/-! ## 3. The whole loop -/

theorem withinBudget_fresh (hcount : ∀ v, s.nodeExecutionCount v = 0) (hdisp : s.dispatched = []) :
    WithinBudget g s := by
  refine ⟨?_, ?_, ?_⟩
  · intro v
    simp [hdisp]
  · intro v
    simp [hcount]
  · simp [hdisp, budget, hcount]

/-- **Termination and iteration bound.** With a positive limit and fresh counters the loop ends
for every environment, after at most a full sweep per budgeted dispatch.  It dispatched each node
at most `maxNodeIterations` times, and it ended past the last node, by the iteration limit, by a
node's error, by parking, or by a boundary check. -/
theorem runNodeDispatchLoop_ends {nodes : List (Node Id)} {edges : List (GraphEdge Id)}
    {maxNodeIterations : Nat} (hmax : 0 < maxNodeIterations)
    (hg : loadAndBuildGraph nodes edges maxNodeIterations = .ok g) (env : Environment Id)
    (skipExecutedNodes : Bool) (s : LoopState Id) (hcount : ∀ v, s.nodeExecutionCount v = 0)
    (hdisp : s.dispatched = []) :
    ∃ u e, (∀ fuel, (g.sortedNodeIds.length * maxNodeIterations + 1) *
          (g.sortedNodeIds.length + 1) ≤ fuel →
        runNodeDispatchLoop g env { skipExecutedNodes } fuel s = (u, some e)) ∧
      u.dispatched.length ≤ g.sortedNodeIds.length * maxNodeIterations ∧
      (∀ v, u.dispatched.count v ≤ maxNodeIterations) ∧ EndedBy g env u e := by
  obtain ⟨-, hlimit⟩ := loadAndBuildGraph_scheduled hg
  subst hlimit
  have hfresh : WithinBudget g s := withinBudget_fresh hcount hdisp
  have hrank : rank g s <
      (g.sortedNodeIds.length * g.maxNodeIterations + 1) * (g.sortedNodeIds.length + 1) := by
    have hbudget : budget g s = g.sortedNodeIds.length * g.maxNodeIterations := by
      simp [budget, hcount]
    rw [rank, hbudget, Nat.add_mul]
    omega
  have hpass : ∀ s t, WithinBudget g s → dispatchStep g env { skipExecutedNodes } s = (t, none) →
      WithinBudget g t ∧ rank g t < rank g s :=
    fun s t hs hst => dispatchStep_rank hmax hs hst
  obtain ⟨t, u, e, -, ht, hend, hrun⟩ := runLoop_of_rank (rank g) hpass _ s hfresh hrank
  obtain ⟨hhist, hended⟩ := dispatchStep_end hmax rfl ht hend
  exact ⟨u, e, fun fuel hle => runLoop_stable hrun hle, hhist.all, hhist.each, hended⟩

/-! A single waiting node: the loop hands the execution over and returns `parked`. -/

def waitingNode : Node String where
  id := "form"
  type := "form"
  category := .presentation
  label := "Form"

def waitingEnvironment : Environment String where
  boundary := fun _ => none
  execute := fun _ _ => .ran (some { value := .obj [("status", .str "waiting_for_input")] })
  parkEntry := fun _ _ => true

def waitingGraph : ExecutionGraphState String where
  graphEdges := []
  forwardEdges := []
  backEdges := []
  sortedNodeIds := ["form"]
  nodeMap := nodeMapOf [waitingNode]
  maxNodeIterations := 1

theorem runNodeDispatchLoop_ends_waiting :
    ∃ u e, (∀ fuel, (1 * 1 + 1) * (1 + 1) ≤ fuel →
        runNodeDispatchLoop waitingGraph waitingEnvironment { skipExecutedNodes := false } fuel
          (.initial {"form"}) = (u, some e)) ∧
      u.dispatched.length ≤ 1 * 1 ∧ (∀ v, u.dispatched.count v ≤ 1) ∧
      EndedBy waitingGraph waitingEnvironment u e :=
  runNodeDispatchLoop_ends (by decide)
    (show loadAndBuildGraph [waitingNode] [] 1 = .ok waitingGraph from rfl)
    waitingEnvironment false (.initial {"form"}) (fun _ => rfl) rfl

/-- A loop need not end past the last node or by an error: a waiting node parks it. -/
theorem runNodeDispatchLoop_may_park :
    ¬ ∀ (nodes : List (Node String)) (edges : List (GraphEdge String)) (maxNodeIterations : Nat)
        (g : ExecutionGraphState String) (env : Environment String),
      0 < maxNodeIterations → loadAndBuildGraph nodes edges maxNodeIterations = .ok g →
      ∃ fuel u e, runNodeDispatchLoop g env {} fuel (.initial (seedInitialReachability g []))
          = (u, some e) ∧
        (e = .completed ∧ g.sortedNodeIds.length ≤ u.pointer ∨
          (∃ message, e = .threw (.iterationLimit message)) ∨
          ∃ message, e = .threw (.node message)) := by
  intro h
  obtain ⟨fuel, u, e, hrun, hend⟩ :=
    h [waitingNode] [] 1 waitingGraph waitingEnvironment (by decide) rfl
  have hpark : (runNodeDispatchLoop waitingGraph waitingEnvironment {} 1
      (.initial (seedInitialReachability waitingGraph []))).2 = some .parked := by decide
  cases fuel with
  | zero => simp [runNodeDispatchLoop, runLoop] at hrun
  | succ fuel =>
    have hlong := runLoop_stable (Prod.ext rfl hpark) (Nat.succ_le_succ (Nat.zero_le fuel))
    have he : e = .parked := by
      rw [runNodeDispatchLoop, hlong] at hrun
      simpa using (Prod.mk.inj hrun).2.symm
    subst he
    rcases hend with ⟨hend, -⟩ | ⟨message, hend⟩ | ⟨message, hend⟩ <;> cases hend

end Clemvion.Engine
