import Mathlib.Algebra.Order.Floor.Semiring
import Mathlib.Data.Rat.Floor
import Clemvion.Engine.ContainerBody

/-!
# ContainerRun — the iterations of a ForEach, Loop or Map

`foreach-executor.ts`, `loop-executor.ts` and `runContainerInner`.  Every iteration starts from the
outputs that the one before it left, also when it failed and the error policy went on.
-/

open Clemvion.Js Clemvion.Graph

namespace Clemvion.Engine

/-! ## 1. The executors -/

inductive ContainerErrorPolicy
  | stop | skip | «continue»
  deriving DecidableEq, Repr

/-- An entry of `skipped`. -/
structure ForEachSkippedEntry where
  index : Nat
  code : String
  message : String

structure ForEachExecutionResult where
  items : List Value := []
  skipped : List ForEachSkippedEntry := []

inductive LoopExitReason
  | completed | «break» | maxIterations
  deriving DecidableEq, Repr

structure LoopExecutionResult where
  iterations : List Value
  exitReason : LoopExitReason

/-- The outputs that the whole run shares, with the iterations made so far as history. -/
structure ContainerState where
  shared : RunOutputs
  iterations : List Iteration := []

def ContainerState.record (s : ContainerState) (iteration : Iteration) : ContainerState where
  shared := iteration.final.shared
  iterations := s.iterations ++ [iteration]

def defaultMaxIterations : Rat := 1000

inductive ContainerError
  /-- `planContainerBody` threw. -/
  | plan (message : String)
  | body (error : BodyError)
  /-- `MAX_ITERATIONS_EXCEEDED`. -/
  | maxIterationsExceeded (count maximum : Rat)

section Executors

variable (env : BodyEnvironment) (containerNode : Node String) (plan : ContainerBodyPlan)

/-- The next iteration of a container. -/
def ContainerState.iterate (s : ContainerState) (index : Nat) (iterInput : Value) : Iteration :=
  executeContainerBody env containerNode plan s.shared index iterInput

/-- `ForEachExecutor.execute` from an index on; ForEach and Map always collect. -/
def foreachExecute (errorPolicy : ContainerErrorPolicy) :
    List Value → Nat → ContainerState → ForEachExecutionResult →
      ContainerState × Except ContainerError ForEachExecutionResult
  | [], _, s, result => (s, .ok result)
  | item :: array, index, s, result =>
    let iteration := s.iterate env containerNode plan index item
    let s := s.record iteration
    match iteration.outcome with
    | .ok output =>
      foreachExecute errorPolicy array (index + 1) s { result with items := result.items ++ [output] }
    -- a cancellation passes every error policy
    | .error (.cancelled message) => (s, .error (.body (.cancelled message)))
    | .error (.failed code message) =>
      match errorPolicy with
      | .stop => (s, .error (.body (.failed code message)))
      | .skip | .continue =>
        foreachExecute errorPolicy array (index + 1) s {
          items := result.items ++ [.null]
          skipped := result.skipped ++ [{ index, code, message }] }

/-- The loop of `LoopExecutor.execute`, with as many turns left as `count` allows. -/
def loopIterate (maxIterations : Rat) (breakCondition : Option (ContainerState → Bool)) :
    Nat → Nat → ContainerState → List Value → Value →
      ContainerState × Except ContainerError LoopExecutionResult
  | 0, _, s, results, _ =>
    (s, .ok {
      iterations := results
      exitReason := if maxIterations ≤ results.length then .maxIterations else .completed })
  | remaining + 1, index, s, results, previousOutput =>
    let iteration := s.iterate env containerNode plan index previousOutput
    let s := s.record iteration
    match iteration.outcome with
    | .error error => (s, .error (.body error))
    | .ok output =>
      let results := results ++ [output]
      if breakCondition.any fun holds => holds s then
        (s, .ok { iterations := results, exitReason := .break })
      else loopIterate maxIterations breakCondition remaining (index + 1) s results output

/-- `LoopExecutor.execute`.  The loop runs while `index < count`, where `count` may be a fraction;
its own check of `index` against the maximum never fires after the first one. -/
def loopExecute (count : Rat) (maxIterations : Option Rat)
    (breakCondition : Option (ContainerState → Bool)) (s : ContainerState) :
    ContainerState × Except ContainerError LoopExecutionResult :=
  let maxIterations := maxIterations.getD defaultMaxIterations
  if maxIterations < count then (s, .error (.maxIterationsExceeded count maxIterations))
  else loopIterate env containerNode plan maxIterations breakCondition ⌈count⌉.toNat 0 s [] .undefined

/-! ## 2. The container -/

/-- What `runContainerInner` reads off the handler's output and the resolved config. -/
inductive ContainerParameters
  | foreach (array : List Value) (errorPolicy : ContainerErrorPolicy)
  | map (array : List Value) (errorPolicy : ContainerErrorPolicy)
  | loop (count : Rat) (maxIterations : Option Rat)
      (breakCondition : Option (ContainerState → Bool))

def natValue (n : Nat) : Value := .num (.finite n)

def ForEachSkippedEntry.error (entry : ForEachSkippedEntry) : Value :=
  .obj [("code", .str entry.code), ("message", .str entry.message)]

def foreachOutput (result : ForEachExecutionResult) : List (String × Value) :=
  let fields := [("items", .arr result.items), ("count", natValue result.items.length)]
  if result.skipped ≠ [] then
    fields ++ [("skipped", .arr (result.skipped.map fun entry =>
      .obj [("index", natValue entry.index), ("error", entry.error)]))]
  else fields

/-- Map puts a marker in the slot of a skipped item. -/
def mapOutput (result : ForEachExecutionResult) : List (String × Value) :=
  let mapped := result.skipped.foldl (fun mapped entry =>
    mapped.set entry.index (.obj [("_skipped", .bool true), ("error", entry.error)])) result.items
  [("mapped", .arr mapped), ("count", natValue mapped.length)]

def loopOutput (result : LoopExecutionResult) : List (String × Value) :=
  [("iterations", .arr result.iterations), ("count", natValue result.iterations.length)]

def runIterations (parameters : ContainerParameters) (s : ContainerState) :
    ContainerState × Except ContainerError (List (String × Value)) :=
  match parameters with
  | .foreach array errorPolicy =>
    let (s, result) := foreachExecute env containerNode plan errorPolicy array 0 s {}
    (s, result.map foreachOutput)
  | .map array errorPolicy =>
    let (s, result) := foreachExecute env containerNode plan errorPolicy array 0 s {}
    (s, result.map mapOutput)
  | .loop count maxIterations breakCondition =>
    let (s, result) := loopExecute env containerNode plan count maxIterations breakCondition s
    (s, result.map loopOutput)

/-- `runContainerInner`, up to the commit of the container's output. -/
def runContainerInner (allNodes : List (Node String)) (allEdges : List (GraphEdge String))
    (parameters : ContainerParameters) (shared : RunOutputs) :
    ContainerState × Except ContainerError (List (String × Value)) :=
  match planContainerBody containerNode allNodes allEdges with
  | .error message => ({ shared }, .error (.plan message))
  | .ok plan => runIterations env containerNode plan parameters { shared }

end Executors

/-! ## 3. Every iteration is a call of `executeContainerBody` -/

section Iterations

variable (env : BodyEnvironment) (containerNode : Node String) (plan : ContainerBodyPlan)

def ContainerState.FromBody (s : ContainerState) : Prop :=
  ∀ iteration ∈ s.iterations, ∃ shared index iterInput,
    iteration = executeContainerBody env containerNode plan shared index iterInput

variable {env containerNode plan}

theorem ContainerState.FromBody.record {s : ContainerState} (h : s.FromBody env containerNode plan)
    (index : Nat) (iterInput : Value) :
    (s.record (s.iterate env containerNode plan index iterInput)).FromBody env containerNode
      plan := by
  intro iteration hmem
  rcases List.mem_append.mp hmem with hold | hnew
  · exact h iteration hold
  · exact ⟨s.shared, index, iterInput, List.mem_singleton.mp hnew⟩

theorem ContainerState.FromBody.foreachExecute {s : ContainerState}
    (h : s.FromBody env containerNode plan) (errorPolicy : ContainerErrorPolicy)
    (array : List Value) (index : Nat) (result : ForEachExecutionResult) :
    (foreachExecute env containerNode plan errorPolicy array index s result).1.FromBody env
      containerNode plan := by
  induction array generalizing index s result with
  | nil => exact h
  | cons item array ih =>
    have hrecord := h.record index item
    unfold Engine.foreachExecute
    dsimp only
    split
    · exact ih hrecord _ _
    · exact hrecord
    · cases errorPolicy with
      | stop => exact hrecord
      | skip => exact ih hrecord _ _
      | «continue» => exact ih hrecord _ _

theorem ContainerState.FromBody.loopIterate {s : ContainerState}
    (h : s.FromBody env containerNode plan) (maxIterations : Rat)
    (breakCondition : Option (ContainerState → Bool)) (remaining index : Nat)
    (results : List Value) (previousOutput : Value) :
    (loopIterate env containerNode plan maxIterations breakCondition remaining index s results
      previousOutput).1.FromBody env containerNode plan := by
  induction remaining generalizing index s results previousOutput with
  | zero => exact h
  | succ remaining ih =>
    have hrecord := h.record index previousOutput
    unfold Engine.loopIterate
    dsimp only
    split
    · exact hrecord
    · split_ifs
      · exact hrecord
      · exact ih hrecord _ _ _

theorem fromBody_runIterations (parameters : ContainerParameters) (shared : RunOutputs) :
    (runIterations env containerNode plan parameters { shared }).1.FromBody env containerNode
      plan := by
  have hstart : ({ shared } : ContainerState).FromBody env containerNode plan := by
    simp [ContainerState.FromBody]
  cases parameters with
  | foreach array errorPolicy => exact hstart.foreachExecute errorPolicy array 0 {}
  | map array errorPolicy => exact hstart.foreachExecute errorPolicy array 0 {}
  | loop count maxIterations breakCondition =>
    show (loopExecute env containerNode plan count maxIterations breakCondition _).1.FromBody _ _ _
    unfold loopExecute
    dsimp only
    split_ifs
    · exact hstart
    · exact hstart.loopIterate _ _ _ _ _ _

end Iterations

/-! ## 4. Isolation of the iterations -/

/-- In every container run, an iteration that no stale output touches is isolated from the
iterations before it. -/
theorem runContainerInner_isolated (env : BodyEnvironment) (containerNode : Node String)
    (allNodes : List (Node String)) (allEdges : List (GraphEdge String))
    (parameters : ContainerParameters) (shared : RunOutputs) (plan : ContainerBodyPlan)
    (hplan : planContainerBody containerNode allNodes allEdges = .ok plan)
    (hfresh : ∀ iteration ∈ (runContainerInner env containerNode allNodes allEdges parameters
      shared).1.iterations, iteration.Fresh plan) :
    ∀ iteration ∈ (runContainerInner env containerNode allNodes allEdges parameters
      shared).1.iterations, iteration.Isolated plan := by
  intro iteration hmem
  have hiteration := hfresh iteration hmem
  have hrun : runContainerInner env containerNode allNodes allEdges parameters shared =
      runIterations env containerNode plan parameters { shared } := by
    simp only [runContainerInner, hplan]
  rw [hrun] at hmem
  obtain ⟨shared', index, iterInput, rfl⟩ := fromBody_runIterations parameters shared iteration hmem
  exact executeContainerBody_isolated env containerNode shared' index iterInput hiteration

/-! A ForEach over two items whose body picks one of two branches, which join again before the
emit. -/

def eachNode : Node String :=
  { id := "each", type := "foreach", category := .logic, label := "Each" }

def branchingNodes : List (Node String) :=
  let child (id type : String) : Node String :=
    { id, type, category := .logic, label := id, containerId := some "each" }
  [eachNode, child "pick" "if", child "a" "code", child "b" "code", child "join" "code"]

def branchingEdges : List (GraphEdge String) :=
  [⟨"each", "body", "pick", "in"⟩, ⟨"pick", "true", "a", "in"⟩, ⟨"pick", "false", "b", "in"⟩,
    ⟨"a", "out", "join", "in"⟩, ⟨"b", "out", "join", "in"⟩, ⟨"join", "out", "each", "emit"⟩]

/-- `pick` selects a port by the index of the iteration; the other nodes answer with the item. -/
def branchingEnvironment (port : Nat → String) : BodyEnvironment where
  boundary := fun _ => none
  execute := fun s node _ =>
    let fields :=
      if node.type = "if" then [("_selectedPort", Value.str (port s.index))]
      else [("item", s.iterInput)]
    { committed := [(node.id, some { value := .obj fields })] }

def branchingRun (port : Nat → String) :
    ContainerState × Except ContainerError (List (String × Value)) :=
  runContainerInner (branchingEnvironment port) eachNode branchingNodes branchingEdges
    (.foreach [natValue 1, natValue 2] .stop) .none

theorem exists_plan_of_check (check : ContainerBodyPlan → Prop) [DecidablePred check]
    (h : (planContainerBody eachNode branchingNodes branchingEdges).toOption.any
      (fun plan => decide (check plan)) = true) :
    ∃ plan, planContainerBody eachNode branchingNodes branchingEdges = .ok plan ∧ check plan := by
  cases hplan : planContainerBody eachNode branchingNodes branchingEdges with
  | error message =>
    rw [hplan] at h
    cases h
  | ok plan =>
    rw [hplan] at h
    exact ⟨plan, rfl, of_decide_eq_true h⟩

/-- While every item takes the same branch, the iterations are isolated. -/
theorem branchingRun_isolated : ∃ plan,
    planContainerBody eachNode branchingNodes branchingEdges = .ok plan ∧
      ∀ iteration ∈ (branchingRun fun _ => "true").1.iterations, iteration.Isolated plan := by
  obtain ⟨plan, hplan, hfresh⟩ := exists_plan_of_check
    (fun plan => ∀ iteration ∈ (branchingRun fun _ => "true").1.iterations, iteration.Fresh plan)
    (by decide +kernel)
  refine ⟨plan, hplan, ?_⟩
  unfold branchingRun at hfresh ⊢
  exact runContainerInner_isolated _ eachNode branchingNodes branchingEdges _ .none plan hplan hfresh

/-- When the second item takes the other branch, `join` receives the first item's output too. -/
theorem branchingRun_leaks : ∃ plan,
    planContainerBody eachNode branchingNodes branchingEdges = .ok plan ∧
      ¬ ∀ iteration ∈ (branchingRun fun index => if index = 0 then "true" else "false").1.iterations,
        iteration.Isolated plan := by
  obtain ⟨plan, hplan, hleak⟩ := exists_plan_of_check
    (fun plan => ¬ ∀ iteration ∈
      (branchingRun fun index => if index = 0 then "true" else "false").1.iterations,
      iteration.InputsIsolated plan) (by decide +kernel)
  refine ⟨plan, hplan, fun hisolated => hleak ?_⟩
  intro iteration hmem
  exact (hisolated iteration hmem).inputs

end Clemvion.Engine
