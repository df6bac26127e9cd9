import Clemvion.Execution.StateMachine

/-!
# StatusTransactions — the guarded transactions on an execution and its parked node

The rows that several workers and the API write concurrently: the status of one `Execution` and
of the `NodeExecution` it is parked at.  Every writer is one database transaction whose `WHERE`
clause (or row lock) is its only synchronisation; each is a function of the rows it finds.
The `Bool` beside the new rows is the affected-row count that the writer looks at.
-/

namespace Clemvion.Execution

inductive NodeExecutionStatus where
  | pending
  | running
  | completed
  | failed
  | cancelled
  | skipped
  | waitingForInput
  deriving DecidableEq, Repr

structure Rows where
  execution : ExecutionStatus
  nodeExecutionId : String
  nodeExecution : NodeExecutionStatus
  deriving DecidableEq, Repr

namespace Rows

variable (rows : Rows)

/-! ## 1. Resume -/

/-- The ids that `claimResumeEntry` lets pass without a claim. -/
def isLegacyId (nodeExecutionId : String) : Bool :=
  nodeExecutionId = "" || nodeExecutionId = "__no_node_exec__"

def claimResumeEntry (nodeExecutionId : String) : Rows × Bool :=
  if isLegacyId nodeExecutionId then
    (rows, true)
  else if nodeExecutionId = rows.nodeExecutionId ∧ rows.nodeExecution = .waitingForInput then
    if rows.execution = .waitingForInput ∨ rows.execution = .running then
      ({ rows with execution := .running, nodeExecution := .running }, true)
    else
      -- ResumeClaimExecTerminalError rolls the node's claim back
      (rows, false)
  else
    (rows, false)

def markExecutionCancelled : Rows × Bool :=
  if rows.execution = .waitingForInput ∨ rows.execution = .running then
    ({ rows with execution := .cancelled }, true)
  else
    (rows, false)

def markNodeExecutionFailed : Rows :=
  if rows.nodeExecution = .waitingForInput ∨ rows.nodeExecution = .running then
    { rows with nodeExecution := .failed }
  else
    rows

/-! ## 2. Cancel and timeout -/

/-- The transaction that `cancelParkedExecution` and `markWebChatIdleTimeout` share. -/
def cancelWaiting : Rows × Bool :=
  if rows.execution = .waitingForInput then
    ({ rows with
        execution := .cancelled
        nodeExecution :=
          if rows.nodeExecution = .waitingForInput then .cancelled else rows.nodeExecution }, true)
  else
    (rows, false)

def cancelParkedExecution : Rows × Bool :=
  rows.cancelWaiting

def markWebChatIdleTimeout : Rows × Bool :=
  rows.cancelWaiting

def finalizeStalledExhausted : Rows × Bool :=
  if rows.execution = .running then
    ({ rows with
        execution := .failed
        nodeExecution := if rows.nodeExecution = .running then .failed else rows.nodeExecution },
      true)
  else
    (rows, false)

inductive StopOutcome where
  /-- The `UPDATE` ran; `true` if it affected the row. -/
  | updated (affected : Bool)
  /-- `cancelWaitingExecution` was queued: `cancelParkedExecution` follows later. -/
  | queued
  deriving DecidableEq, Repr

/-- `stop` decides by the status `found` that an earlier `SELECT` saw. -/
def stopInternal (found : ExecutionStatus) : Except String (Rows × StopOutcome) :=
  if found ≠ .running ∧ found ≠ .pending ∧ found ≠ .waitingForInput then
    .error s!"Cannot stop execution with status '{found.value}'"
  else if found = .waitingForInput then
    .ok (rows, .queued)
  else if rows.execution = .running ∨ rows.execution = .pending then
    .ok ({ rows with execution := .cancelled }, .updated true)
  else
    .ok (rows, .updated false)

/-! ## 3. The choke point of the worker's transitions -/

/-- What `updateExecutionStatus` leaves behind: the rows, the status of the worker's own
`Execution` entity, and whether the transition was persisted. -/
structure Transition where
  rows : Rows
  inMemory : ExecutionStatus
  persisted : Bool
  deriving DecidableEq, Repr

/-- `inMemory` is the status of the entity that the caller holds, `linkedNodeExec` the status of
the `NodeExecution` it hands over to be saved in the same transaction. -/
def updateExecutionStatus (inMemory newStatus : ExecutionStatus)
    (linkedNodeExec : Option NodeExecutionStatus) (opts : TransitionOptions) :
    Except String Transition := do
  assertTransition inMemory newStatus opts
  let isNonTerminal := decide (rows.execution ∈ nonTerminalStatuses opts)
  match linkedNodeExec with
  | some nodeStatus =>
    if isNonTerminal then
      return ⟨{ rows with execution := newStatus, nodeExecution := nodeStatus }, newStatus, true⟩
    else
      return ⟨rows, inMemory, false⟩
  | none =>
    -- the entity is assigned before the guarded UPDATE, whatever the row says
    if isNonTerminal then
      return ⟨{ rows with execution := newStatus }, newStatus, true⟩
    else
      return ⟨rows, newStatus, false⟩

/-- `markNodeCancelled` saves the node row without a guard. -/
def markNodeCancelled : Rows :=
  { rows with nodeExecution := .cancelled }

/-! ## 4. What each transaction does -/

theorem claimResumeEntry_cases (id : String) :
    (isLegacyId id = true ∧ rows.claimResumeEntry id = (rows, true)) ∨
    rows.claimResumeEntry id = (rows, false) ∨
    (isLegacyId id = false ∧ id = rows.nodeExecutionId ∧ rows.nodeExecution = .waitingForInput ∧
      ¬ rows.execution.IsTerminal ∧
      rows.claimResumeEntry id =
        ({ rows with execution := .running, nodeExecution := .running }, true)) := by
  unfold claimResumeEntry
  split_ifs with hlegacy hguard hresumable
  · exact .inl ⟨hlegacy, rfl⟩
  · refine .inr (.inr ⟨by simpa using hlegacy, hguard.1, hguard.2, ?_, rfl⟩)
    rcases hresumable with h | h <;> rw [h] <;> decide
  · exact .inr (.inl rfl)
  · exact .inr (.inl rfl)

theorem stopInternal_cases (found : ExecutionStatus) :
    (∃ message, rows.stopInternal found = .error message) ∨
    (∃ outcome, rows.stopInternal found = .ok (rows, outcome)) ∨
    ((rows.execution = .running ∨ rows.execution = .pending) ∧
      rows.stopInternal found = .ok ({ rows with execution := .cancelled }, .updated true)) := by
  unfold stopInternal
  split_ifs with hinvalid hwaiting hguard
  · exact .inl ⟨_, rfl⟩
  · exact .inr (.inl ⟨_, rfl⟩)
  · exact .inr (.inr ⟨hguard, rfl⟩)
  · exact .inr (.inl ⟨_, rfl⟩)

variable {rows}

theorem cancelWaiting_of_affected (h : rows.cancelWaiting.2 = true) :
    rows.execution = .waitingForInput ∧ rows.cancelWaiting.1.execution = .cancelled ∧
      rows.cancelWaiting.1.nodeExecution ≠ .waitingForInput := by
  unfold cancelWaiting at h ⊢
  split_ifs at h ⊢ with hwaiting hnode
  · exact ⟨hwaiting, rfl, by simp⟩
  · exact ⟨hwaiting, rfl, hnode⟩

theorem cancelWaiting_of_not_affected (h : rows.cancelWaiting.2 = false) :
    rows.execution ≠ .waitingForInput ∧ rows.cancelWaiting.1 = rows := by
  unfold cancelWaiting at h ⊢
  split_ifs at h ⊢ with hwaiting
  exact ⟨hwaiting, rfl⟩

/-- A transition that the entity's status allows, alone. -/
theorem updateExecutionStatus_none {inMemory newStatus : ExecutionStatus}
    {opts : TransitionOptions} (hcan : canTransition inMemory newStatus opts = true) :
    rows.updateExecutionStatus inMemory newStatus none opts =
      .ok (if rows.execution ∈ nonTerminalStatuses opts
        then ⟨{ rows with execution := newStatus }, newStatus, true⟩
        else ⟨rows, newStatus, false⟩) := by
  unfold updateExecutionStatus
  rw [assertTransition_eq_ok_iff.mpr hcan]
  by_cases hlive : rows.execution ∈ nonTerminalStatuses opts <;>
    simp [hlive, bind, Except.bind, pure, Except.pure]

/-- A transition that the entity's status allows, with a node row. -/
theorem updateExecutionStatus_some {inMemory newStatus : ExecutionStatus}
    {nodeStatus : NodeExecutionStatus} {opts : TransitionOptions}
    (hcan : canTransition inMemory newStatus opts = true) :
    rows.updateExecutionStatus inMemory newStatus (some nodeStatus) opts =
      .ok (if rows.execution ∈ nonTerminalStatuses opts
        then ⟨{ rows with execution := newStatus, nodeExecution := nodeStatus }, newStatus, true⟩
        else ⟨rows, inMemory, false⟩) := by
  unfold updateExecutionStatus
  rw [assertTransition_eq_ok_iff.mpr hcan]
  by_cases hlive : rows.execution ∈ nonTerminalStatuses opts <;>
    simp [hlive, bind, Except.bind, pure, Except.pure]

/-- A transition that went through: the entity's status allowed it, and either the row was live
and now has the new status, or it was not and nothing changed. -/
theorem updateExecutionStatus_eq_ok {inMemory newStatus : ExecutionStatus}
    {linked : Option NodeExecutionStatus} {opts : TransitionOptions} {t : Transition}
    (h : rows.updateExecutionStatus inMemory newStatus linked opts = .ok t) :
    canTransition inMemory newStatus opts = true ∧
      ((rows.execution ∈ nonTerminalStatuses opts ∧ t.persisted = true ∧
          t.rows = { rows with
            execution := newStatus, nodeExecution := linked.getD rows.nodeExecution }) ∨
        (rows.execution ∉ nonTerminalStatuses opts ∧ t.persisted = false ∧ t.rows = rows)) := by
  have hcan : canTransition inMemory newStatus opts = true := by
    by_contra hnot
    simp [updateExecutionStatus, assertTransition, hnot, bind, Except.bind] at h
  refine ⟨hcan, ?_⟩
  cases linked with
  | none =>
    rw [updateExecutionStatus_none hcan, Except.ok.injEq] at h
    split_ifs at h with hlive <;> subst h
    · exact .inl ⟨hlive, rfl, rfl⟩
    · exact .inr ⟨hlive, rfl, rfl⟩
  | some nodeStatus =>
    rw [updateExecutionStatus_some hcan, Except.ok.injEq] at h
    split_ifs at h with hlive <;> subst h
    · exact .inl ⟨hlive, rfl, rfl⟩
    · exact .inr ⟨hlive, rfl, rfl⟩

end Rows

end Clemvion.Execution
