import Clemvion.Engine.ContainerRun
import Clemvion.Engine.OutputFidelity
import Clemvion.Execution.StatusTransactions

/-!
# Rehydration — the two caches rebuilt from the rows

While a segment runs, the entry of a node comes from the adapter, the flattening, the port
selection and, for a container or a parallel node, a later overwrite.  `rehydrateContext` rebuilds
it from the row that `executeNode` saved, which holds the handler's return as it was.
-/

open Clemvion.Js Clemvion.Js.Value Clemvion.Graph Clemvion.Execution

namespace Clemvion.Engine

/-! ## 1. The rows and the context -/

/-- The columns of a `NodeExecution` that the restore reads. -/
structure NodeExecutionRow where
  nodeId : String
  status : NodeExecutionStatus
  startedAt : Nat
  outputData : Value

structure ExecutionContext where
  executedNodes : Finset String := ∅
  nodeOutputCache : OutputCache String := emptyCache
  structuredOutputCache : String → Option NodeHandlerOutput := fun _ => none

/-- What a context holds of one node. -/
structure NodeEntry where
  executed : Bool
  flat : FlatValue
  structured : Option NodeHandlerOutput

namespace ExecutionContext

variable (context : ExecutionContext)

def entry (nodeId : String) : NodeEntry where
  executed := nodeId ∈ context.executedNodes
  flat := context.nodeOutputCache nodeId
  structured := context.structuredOutputCache nodeId

def setNodeOutput (nodeId : String) (output : FlatValue) : ExecutionContext :=
  { context with
    nodeOutputCache := Function.update context.nodeOutputCache nodeId output
    structuredOutputCache := Function.update context.structuredOutputCache nodeId
      (some (mergeStructured (context.structuredOutputCache nodeId) output)) }

/-- `if (row.outputData) setNodeOutput(…)`. -/
def restoreOutput (row : NodeExecutionRow) : ExecutionContext :=
  if row.outputData.truthy then context.setNodeOutput row.nodeId { value := row.outputData }
  else context

/-- `executedNodes.add`. -/
def addExecuted (nodeId : String) : ExecutionContext :=
  { context with executedNodes := insert nodeId context.executedNodes }

end ExecutionContext

/-- The latest COMPLETED row of a node. -/
def latestCompleted (rows : List NodeExecutionRow) (nodeId : String) : Option NodeExecutionRow :=
  ((rows.filter fun row => row.status = .completed).mergeSort
    fun a b => b.startedAt ≤ a.startedAt).find? fun row => row.nodeId = nodeId

def restoreNode (rows : List NodeExecutionRow) (context : ExecutionContext) (nodeId : String) :
    ExecutionContext :=
  match latestCompleted rows nodeId with
  | none => context
  | some row => (context.restoreOutput row).addExecuted nodeId

/-- `rehydrateContext`, as far as node outputs go; `logs` are the node ids of the execution log. -/
def rehydrateContext (logs : List String) (rows : List NodeExecutionRow)
    (waitingNodeExec : Option NodeExecutionRow) : ExecutionContext :=
  let context := (setOf logs).foldl (restoreNode rows) {}
  match waitingNodeExec with
  | none => context
  | some row => context.restoreOutput row

/-! ## 2. What the running engine holds -/

def buildIterationMeta (iterations skippedCount : Nat) : List (String × Value) :=
  [("iterations", natValue iterations)] ++
    if 0 < skippedCount then [("skippedCount", natValue skippedCount)] else []

def LoopExitReason.toValue : LoopExitReason → Value
  | .completed => .str "completed"
  | .break => .str "break"
  | .maxIterations => .str "maxIterations"

/-- The output of a parallel node whose branches are done. -/
def parallelOutput (branches : List Value) (skipped : List ForEachSkippedEntry) :
    List (String × Value) :=
  let fields := [("branches", .arr branches), ("count", natValue branches.length)]
  if skipped ≠ [] then
    fields ++ [("skipped", .arr (skipped.map fun entry =>
      .obj [("index", natValue entry.index), ("error", entry.error)]))]
  else fields

/-- What follows `executeNode` for the kind of the node; an error port is routed by the plain
kind. -/
inductive NodeRun
  | plain
  | foreach (result : ForEachExecutionResult)
  | map (result : ForEachExecutionResult)
  | loop (result : LoopExecutionResult)
  | parallel (branches : List Value) (skipped : List ForEachSkippedEntry)
      (metadata : Option (List (String × Value)))

/-- The output that a container or parallel run puts in place of the handler's. -/
def NodeRun.output : NodeRun → Option (List (String × Value))
  | .plain => none
  | .foreach result => some (foreachOutput result)
  | .map result => some (mapOutput result)
  | .loop result => some (loopOutput result)
  | .parallel branches skipped _ => some (parallelOutput branches skipped)

/-- The metrics of the run. -/
def NodeRun.structuredMeta : NodeRun → List (String × Value)
  | .plain => []
  | .foreach result | .map result =>
    buildIterationMeta result.items.length result.skipped.length
  | .loop result =>
    [("iterations", natValue result.iterations.length),
      ("maxIterationsReached", .bool (result.exitReason = .maxIterations)),
      ("exitReason", result.exitReason.toValue)]
  | .parallel _ _ metadata => metadata.getD []

namespace HandlerReturn

variable (r : HandlerReturn)

/-- `isBlocking`. -/
def isBlocking : Bool := r.status = some "waiting_for_input"

/-- The row that `executeNode` saves. -/
def persistedRow (nodeId : String) (startedAt : Nat) : NodeExecutionRow where
  nodeId
  startedAt
  status :=
    if r.isBlocking then .running else if isErrorPortRouted r.flat then .failed else .completed
  outputData := jsonRoundTrip r.toValue

/-- The entry after `executeNode`: `setStructuredOutput`, then `commitNodeOutput`. -/
def executedEntry : NodeEntry where
  executed := true
  flat := r.flat
  structured := some (mergeStructured (some r.adapted) r.flat)

/-- The entry when the node is done. -/
def liveEntry (run : NodeRun) : NodeEntry :=
  match run with
  | .plain => r.executedEntry
  | .parallel branches skipped metadata =>
    let output := parallelOutput branches skipped
    { executed := true
      flat := { value := .obj (spread [("_selectedPort", .str "done")] (.obj output)) }
      structured := some {
        config := .obj r.config, output := .obj output, port := .str "done"
        metadata := (metadata.map Value.obj).getD .undefined } }
  | run =>
    let output := run.output.getD []
    let structured : NodeHandlerOutput := {
      config := .obj r.config
      output := .obj output
      metadata := .obj (spread (spread [] (mergeStructured (some r.adapted) r.flat).metadata)
        (.obj run.structuredMeta)) }
    { executed := true
      flat := { value := .obj output }
      structured := some (mergeStructured (some structured) { value := .obj output }) }

end HandlerReturn

/-! ## 3. What others see of an entry -/

namespace NodeEntry

variable (entry : NodeEntry)

/-- `$node[…].output`; there is no `$node` entry while the flat cache has none. -/
def nodeOutput : Option Value :=
  if entry.flat.value = .undefined then none
  else
    match entry.structured with
    | some structured => some structured.output
    | none => some entry.flat.value

/-- `gatherNodeInput` for a node, in a run where this entry is that of `nodeId`. -/
def inputOf (nodeId targetId : String) (edges : List (GraphEdge String)) (others : RunOutputs)
    (workflowInput : Value) : Value :=
  gatherNodeInput targetId edges
    (if entry.executed then insert nodeId others.executedNodes
      else others.executedNodes.erase nodeId)
    (Function.update others.nodeOutputCache nodeId entry.flat) workflowInput

end NodeEntry

/-- Two `$node` outputs read the same. -/
def SameOutput : Option Value → Option Value → Prop
  | some v, some w => SameProperties v w
  | v, w => v = w

theorem sameOutput_some (v w : Value) : SameOutput (some v) (some w) ↔ SameProperties v w :=
  Iff.rfl

/-- Nobody can tell the restored entry from the one the engine held: every outgoing edge is
filtered alike, every successor receives the same input whatever the other nodes did, and `$node`
reads the same output. -/
structure LosslessRestore (nodeId : String) (edges : List (GraphEdge String))
    (live restored : NodeEntry) : Prop where
  filter : ∀ edge ∈ edges, edge.sourceNodeId = nodeId →
    isPortFiltered live.flat.value edge.sourcePort =
      isPortFiltered restored.flat.value edge.sourcePort
  input : ∀ edge ∈ edges, edge.sourceNodeId = nodeId →
    ∀ (others : RunOutputs) (workflowInput : Value),
      live.inputOf nodeId edge.targetNodeId edges others workflowInput =
        restored.inputOf nodeId edge.targetNodeId edges others workflowInput
  node : SameOutput live.nodeOutput restored.nodeOutput

/-! ## 4. The restored entry -/

section Restore

variable {rows : List NodeExecutionRow} {nodeId : String} {row : NodeExecutionRow}

theorem restoreOutput_entry_of_ne (context : ExecutionContext) (h : row.nodeId ≠ nodeId) :
    (context.restoreOutput row).entry nodeId = context.entry nodeId := by
  unfold ExecutionContext.restoreOutput
  split_ifs
  · unfold ExecutionContext.entry ExecutionContext.setNodeOutput
    simp only [Function.update_of_ne h.symm]
  · rfl

theorem restoreOutput_entry (context : ExecutionContext) (h : row.outputData.truthy = true) :
    (context.restoreOutput row).entry row.nodeId = {
      executed := (context.entry row.nodeId).executed
      flat := { value := row.outputData }
      structured := some (mergeStructured (context.entry row.nodeId).structured
        { value := row.outputData }) } := by
  unfold ExecutionContext.restoreOutput
  rw [if_pos h]
  unfold ExecutionContext.entry ExecutionContext.setNodeOutput
  simp only [Function.update_self]

theorem addExecuted_entry (context : ExecutionContext) (nodeId : String) :
    (context.addExecuted nodeId).entry nodeId =
      { context.entry nodeId with executed := true } := by
  simp [ExecutionContext.entry, ExecutionContext.addExecuted]

theorem addExecuted_entry_of_ne (context : ExecutionContext) {other : String}
    (h : other ≠ nodeId) : (context.addExecuted other).entry nodeId = context.entry nodeId := by
  simp [ExecutionContext.entry, ExecutionContext.addExecuted, h.symm]

theorem latestCompleted_nodeId {found : NodeExecutionRow}
    (h : latestCompleted rows nodeId = some found) : found.nodeId = nodeId := by
  simpa using List.find?_some h

theorem restoreNode_entry_of_ne (context : ExecutionContext) {other : String}
    (h : other ≠ nodeId) : (restoreNode rows context other).entry nodeId = context.entry nodeId := by
  unfold restoreNode
  cases hfound : latestCompleted rows other with
  | none => rfl
  | some found =>
    have hne : found.nodeId ≠ nodeId := latestCompleted_nodeId hfound ▸ h
    dsimp only
    rw [addExecuted_entry_of_ne _ h, restoreOutput_entry_of_ne _ hne]

theorem foldl_restoreNode_entry_of_not_mem {logs : List String} (context : ExecutionContext)
    (h : nodeId ∉ logs) : (logs.foldl (restoreNode rows) context).entry nodeId =
      context.entry nodeId := by
  induction logs generalizing context with
  | nil => rfl
  | cons other logs ih =>
    obtain ⟨hne, hrest⟩ := not_or.mp (fun hor => h (List.mem_cons.mpr hor))
    rw [List.foldl_cons, ih _ hrest, restoreNode_entry_of_ne _ (Ne.symm hne)]

/-- A node is restored once, in a context that holds nothing of it yet. -/
theorem foldl_restoreNode_entry (rows : List NodeExecutionRow) {logs : List String}
    (hnodup : logs.Nodup) (hmem : nodeId ∈ logs) (context : ExecutionContext) : ∃ before : ExecutionContext, before.entry nodeId = context.entry nodeId ∧
        (logs.foldl (restoreNode rows) context).entry nodeId =
          (restoreNode rows before nodeId).entry nodeId := by
  induction logs generalizing context with
  | nil => simp at hmem
  | cons other logs ih =>
    obtain ⟨hfresh, hrest⟩ := List.nodup_cons.mp hnodup
    rw [List.foldl_cons]
    by_cases heq : other = nodeId
    · subst heq
      exact ⟨context, rfl, foldl_restoreNode_entry_of_not_mem _ hfresh⟩
    · have hmem' := (List.mem_cons.mp hmem).resolve_left (Ne.symm heq)
      obtain ⟨before, hbefore, hentry⟩ := ih hrest hmem' (restoreNode rows context other)
      refine ⟨before, ?_, hentry⟩
      rw [hbefore, restoreNode_entry_of_ne _ heq]

/-- The only row of a node is its latest COMPLETED one, if it is COMPLETED. -/
theorem latestCompleted_of_only (hrow : row ∈ rows)
    (honly : ∀ other ∈ rows, other.nodeId = row.nodeId → other = row) :
    latestCompleted rows row.nodeId = if row.status = .completed then some row else none := by
  unfold latestCompleted
  split_ifs with hcompleted
  · cases hfound : ((rows.filter fun row => row.status = .completed).mergeSort
        fun a b => b.startedAt ≤ a.startedAt).find? fun other => other.nodeId = row.nodeId with
    | none =>
      have hmem : row ∈ (rows.filter fun row => row.status = .completed).mergeSort
          fun a b => b.startedAt ≤ a.startedAt := by
        rw [List.mem_mergeSort, List.mem_filter]
        exact ⟨hrow, by simpa using hcompleted⟩
      have hno := List.find?_eq_none.mp hfound row hmem
      simp at hno
    | some found =>
      have hmem := List.mem_of_find?_eq_some hfound
      rw [List.mem_mergeSort, List.mem_filter] at hmem
      have hid : found.nodeId = row.nodeId := by simpa using List.find?_some hfound
      rw [honly found hmem.1 hid]
  · apply List.find?_eq_none.mpr
    intro other hother
    rw [List.mem_mergeSort, List.mem_filter] at hother
    intro hid
    rw [honly other hother.1 (by simpa using hid)] at hother
    exact hcompleted (by simpa using hother.2)

theorem rehydrateContext_entry {logs : List String} {waitingNodeExec : Option NodeExecutionRow}
    (hlog : row.nodeId ∈ logs) (hrow : row ∈ rows)
    (honly : ∀ other ∈ rows, other.nodeId = row.nodeId → other = row)
    (hwaiting : ∀ other, waitingNodeExec = some other → other.nodeId ≠ row.nodeId)
    (houtput : row.outputData.truthy = true) :
    (rehydrateContext logs rows waitingNodeExec).entry row.nodeId =
      if row.status = .completed then {
        executed := true
        flat := { value := row.outputData }
        structured := some (deriveStructured { value := row.outputData }) }
      else { executed := false, flat := { value := .undefined }, structured := none } := by
  have hlogs : (setOf logs).Nodup ∧ row.nodeId ∈ setOf logs := ⟨nodup_setOf logs, mem_setOf.mpr hlog⟩
  obtain ⟨before, hbefore, hentry⟩ := foldl_restoreNode_entry rows hlogs.1 hlogs.2 {}
  have hrestored : (rehydrateContext logs rows waitingNodeExec).entry row.nodeId =
      (restoreNode rows before row.nodeId).entry row.nodeId := by
    unfold rehydrateContext
    cases hcase : waitingNodeExec with
    | none => exact hentry
    | some waiting =>
      dsimp only
      rw [restoreOutput_entry_of_ne _ (hwaiting waiting hcase), hentry]
  have hempty : before.entry row.nodeId =
      { executed := false, flat := { value := .undefined }, structured := none } := hbefore
  rw [hrestored]
  unfold restoreNode
  rw [latestCompleted_of_only hrow honly]
  split_ifs with hcompleted
  · dsimp only
    rw [addExecuted_entry, restoreOutput_entry _ houtput, hempty]
    rfl
  · exact hempty

end Restore

end Clemvion.Engine
