import Mathlib.Logic.Relation
import Clemvion.Execution.StatusTransactions

/-!
# ResumeClaim — any interleaving of the transactions on a parked execution

Resume deliveries, cancel requests, reapers and workers run their transactions in any order and
any number of times.  `History` carries the rows together with the number of claims that
succeeded since the last park; what one operation can do to the rows is said once, by the
lemmas of the second section, and every fact about runs follows from these.
-/

namespace Clemvion.Execution

/-- A call of `updateExecutionStatus`, as its call sites make it. -/
structure StatusUpdate where
  inMemory : ExecutionStatus
  newStatus : ExecutionStatus
  linkedNodeExec : Option NodeExecutionStatus
  opts : TransitionOptions
  /-- A park hands over a waiting node row; a re-claim hands over a finished one. -/
  linked_parks : ∀ nodeStatus, linkedNodeExec = some nodeStatus →
    (nodeStatus = .waitingForInput ↔ newStatus = .waitingForInput)
  /-- Only a retried turn opts in, and it ends running or parks again. -/
  reentry_target : opts.allowRetryReentry = true →
    newStatus = .running ∨ newStatus = .waitingForInput

inductive Operation where
  | claimResumeEntry (nodeExecutionId : String)
  | cancelParkedExecution
  | markWebChatIdleTimeout
  /-- `markExecutionCancelled` with `markNodeExecutionFailed`. -/
  | failResume
  | finalizeStalledExhausted
  | stop (found : ExecutionStatus)
  | updateExecutionStatus (update : StatusUpdate)

/-- An execution parked at the node execution `nodeExecutionId`. -/
def Rows.parked (nodeExecutionId : String) : Rows :=
  ⟨.waitingForInput, nodeExecutionId, .waitingForInput⟩

namespace Operation

def perform (rows : Rows) : Operation → Rows
  | claimResumeEntry id => (rows.claimResumeEntry id).1
  | cancelParkedExecution => rows.cancelParkedExecution.1
  | markWebChatIdleTimeout => rows.markWebChatIdleTimeout.1
  | failResume => rows.markExecutionCancelled.1.markNodeExecutionFailed
  | finalizeStalledExhausted => rows.finalizeStalledExhausted.1
  | stop found =>
    match rows.stopInternal found with
    | .ok (rows', _) => rows'
    | .error _ => rows
  | updateExecutionStatus u =>
    match rows.updateExecutionStatus u.inMemory u.newStatus u.linkedNodeExec u.opts with
    | .ok transition => transition.rows
    | .error _ => rows

/-- The operation is a claim of the parked node, and the caller is told to go on. -/
def claims (rows : Rows) : Operation → Bool
  | claimResumeEntry id => !Rows.isLegacyId id && (rows.claimResumeEntry id).2
  | _ => false

/-- The operation commits a node row that waits. -/
def parks (rows : Rows) : Operation → Bool
  | updateExecutionStatus u =>
    match rows.updateExecutionStatus u.inMemory u.newStatus u.linkedNodeExec u.opts with
    | .ok transition =>
      transition.persisted && decide (u.linkedNodeExec = some .waitingForInput)
    | .error _ => false
  | _ => false

/-- The operation ends the execution. -/
def Terminates (op : Operation) (rows : Rows) : Prop :=
  ¬ rows.execution.IsTerminal ∧ (op.perform rows).execution.IsTerminal

/-- The operations that end a parked execution together with its node. -/
def ClosesPark : Operation → Prop
  | cancelParkedExecution | markWebChatIdleTimeout | failResume => True
  | _ => False

/-- The operation does not move the `Execution` row alone while the node row waits. -/
def KeepsPaired (rows : Rows) : Operation → Prop
  | updateExecutionStatus u => u.linkedNodeExec = none → rows.nodeExecution ≠ .waitingForInput
  | _ => True

end Operation

structure History where
  rows : Rows
  /-- The claims that succeeded since the last park. -/
  claims : Nat

def History.record (history : History) (op : Operation) : History where
  rows := op.perform history.rows
  claims :=
    if op.parks history.rows then 0
    else if op.claims history.rows then history.claims + 1
    else history.claims

/-- `history'` follows `history` by one operation, whichever. -/
def Performs (history history' : History) : Prop :=
  ∃ op, history' = history.record op

/-- The same, by an operation that keeps the pair together. -/
def PerformsPaired (history history' : History) : Prop :=
  ∃ op : Operation, op.KeepsPaired history.rows ∧ history' = history.record op

def Reachable (nodeExecutionId : String) : History → Prop :=
  Relation.ReflTransGen Performs ⟨Rows.parked nodeExecutionId, 0⟩

def ReachablePaired (nodeExecutionId : String) : History → Prop :=
  Relation.ReflTransGen PerformsPaired ⟨Rows.parked nodeExecutionId, 0⟩

/-! ## 1. What one operation does -/

namespace Operation

/-- Everything that an operation can do to the rows it finds. -/
inductive Does (rows : Rows) : Operation → Rows → Prop
  | nothing {op : Operation} : Does rows op rows
  | claimed {id : String} : rows.nodeExecution = .waitingForInput → ¬ rows.execution.IsTerminal →
      Does rows (claimResumeEntry id) { rows with execution := .running, nodeExecution := .running }
  | closed {op : Operation} {node : NodeExecutionStatus} : op.ClosesPark →
      ¬ rows.execution.IsTerminal → node ≠ .waitingForInput →
      Does rows op { rows with execution := .cancelled, nodeExecution := node }
  | nodeFailed : Does rows failResume { rows with nodeExecution := .failed }
  | stalled {node : NodeExecutionStatus} : rows.execution = .running →
      (node = .waitingForInput → rows.nodeExecution = .waitingForInput) →
      Does rows finalizeStalledExhausted { rows with execution := .failed, nodeExecution := node }
  | stopped {found : ExecutionStatus} : rows.execution = .running ∨ rows.execution = .pending →
      Does rows (stop found) { rows with execution := .cancelled }
  | updated {u : StatusUpdate} : rows.execution ∈ nonTerminalStatuses u.opts →
      canTransition u.inMemory u.newStatus u.opts = true →
      (updateExecutionStatus u).parks rows = decide (u.linkedNodeExec = some .waitingForInput) →
      Does rows (updateExecutionStatus u)
        { rows with
          execution := u.newStatus
          nodeExecution := u.linkedNodeExec.getD rows.nodeExecution }

variable {rows : Rows} {op : Operation}

theorem does_cancelWaiting (hcloses : op.ClosesPark) : Does rows op rows.cancelWaiting.1 := by
  unfold Rows.cancelWaiting
  split_ifs with hwaiting hnode
  · refine .closed hcloses ?_ (by decide)
    rw [hwaiting]
    decide
  · refine .closed hcloses ?_ hnode
    rw [hwaiting]
    decide
  · exact .nothing

theorem does_failResume :
    Does rows failResume rows.markExecutionCancelled.1.markNodeExecutionFailed := by
  unfold Rows.markExecutionCancelled
  split_ifs with hlive
  · have hterm : ¬ rows.execution.IsTerminal := by
      rcases hlive with h | h <;> rw [h] <;> decide
    unfold Rows.markNodeExecutionFailed
    split_ifs with hnode
    · exact .closed trivial hterm (by decide)
    · exact .closed trivial hterm fun h => hnode (.inl h)
  · unfold Rows.markNodeExecutionFailed
    split_ifs
    · exact .nodeFailed
    · exact .nothing

theorem does_update (u : StatusUpdate) :
    Does rows (updateExecutionStatus u) ((updateExecutionStatus u).perform rows) := by
  cases hupd : rows.updateExecutionStatus u.inMemory u.newStatus u.linkedNodeExec u.opts with
  | error message =>
    simp only [perform, hupd]
    exact .nothing
  | ok t =>
    simp only [perform, hupd]
    obtain ⟨hcan, ⟨hlive, hpersisted, hrows⟩ | ⟨-, -, hrows⟩⟩ :=
      Rows.updateExecutionStatus_eq_ok hupd
    · rw [hrows]
      exact .updated hlive hcan (by simp only [parks, hupd, hpersisted, Bool.true_and])
    · rw [hrows]
      exact .nothing

theorem does_perform (rows : Rows) (op : Operation) : Does rows op (op.perform rows) := by
  cases op with
  | claimResumeEntry id =>
    show Does rows _ (rows.claimResumeEntry id).1
    obtain ⟨-, h⟩ | h | ⟨-, -, hnode, hlive, h⟩ := rows.claimResumeEntry_cases id <;> rw [h]
    · exact .nothing
    · exact .nothing
    · exact .claimed hnode hlive
  | cancelParkedExecution => exact does_cancelWaiting trivial
  | markWebChatIdleTimeout => exact does_cancelWaiting trivial
  | failResume => exact does_failResume
  | finalizeStalledExhausted =>
    show Does rows _ rows.finalizeStalledExhausted.1
    unfold Rows.finalizeStalledExhausted
    split_ifs with hrunning hnode
    · exact .stalled hrunning (by simp)
    · exact .stalled hrunning id
    · exact .nothing
  | stop found =>
    obtain ⟨_, h⟩ | ⟨_, h⟩ | ⟨hguard, h⟩ := rows.stopInternal_cases found <;>
      simp only [perform, h]
    · exact .nothing
    · exact .nothing
    · exact .stopped hguard
  | updateExecutionStatus u => exact does_update u

/-! ## 2. Its consequences -/

/-- **Terminal is final.**  Only a retried turn moves a terminal execution, and only a failed
one. -/
theorem execution_of_terminal (op : Operation) (hterm : rows.execution.IsTerminal) :
    (op.perform rows).execution = rows.execution ∨
      ∃ u, op = updateExecutionStatus u ∧ u.opts.allowRetryReentry = true ∧
        rows.execution = .failed ∧ (op.perform rows).execution = u.newStatus := by
  have hdoes := does_perform rows op
  generalize op.perform rows = rows' at hdoes
  cases hdoes with
  | nothing => exact .inl rfl
  | claimed _ hlive => exact absurd hterm hlive
  | closed _ hlive _ => exact absurd hterm hlive
  | nodeFailed => exact .inl rfl
  | stalled hrunning _ =>
    rw [hrunning] at hterm
    exact absurd hterm (by decide)
  | stopped hguard =>
    rcases hguard with h | h <;> rw [h] at hterm <;> exact absurd hterm (by decide)
  | updated hlive _ _ =>
    -- a terminal row passes the guard only as `failed` under the opt-in
    obtain hnot | ⟨hopt, hfailed⟩ := mem_nonTerminalStatuses.mp hlive
    · exact absurd hterm hnot
    · exact .inr ⟨_, rfl, hopt, hfailed, rfl⟩

/-- A node row waits after an operation only if it waited before or the operation parks. -/
theorem waiting_of_perform (hwaiting : (op.perform rows).nodeExecution = .waitingForInput) :
    rows.nodeExecution = .waitingForInput ∨ op.parks rows = true := by
  have hdoes := does_perform rows op
  generalize op.perform rows = rows' at hdoes hwaiting
  cases hdoes with
  | nothing => exact .inl hwaiting
  | claimed hnode _ => exact .inl hnode
  | closed _ _ hnode => exact absurd hwaiting hnode
  | nodeFailed => simp at hwaiting
  | stalled _ hnode => exact .inl (hnode hwaiting)
  | stopped _ => exact .inl hwaiting
  | @updated u _ _ hparks =>
    cases hlinked : u.linkedNodeExec with
    | none =>
      rw [hlinked] at hwaiting
      exact .inl hwaiting
    | some nodeStatus =>
      rw [hlinked] at hwaiting hparks
      refine .inr (hparks.trans ?_)
      simpa using hwaiting

/-- A claim succeeds on a waiting node row, and leaves it running. -/
theorem of_claims (h : op.claims rows = true) :
    rows.nodeExecution = .waitingForInput ∧ (op.perform rows).nodeExecution = .running := by
  cases op with
  | claimResumeEntry id =>
    simp only [claims, Bool.and_eq_true, Bool.not_eq_true'] at h
    obtain ⟨hlegacy, -⟩ | hlost | ⟨-, -, hnode, -, hwon⟩ := rows.claimResumeEntry_cases id
    · exact absurd h.1 (by simp [hlegacy])
    · exact absurd h.2 (by simp [hlost])
    · exact ⟨hnode, by simp only [perform, hwon]⟩
  | _ => simp [claims] at h

/-- The three operations that close a park never leave its node row waiting. -/
theorem not_waiting_of_closesPark (hcloses : op.ClosesPark) (hterm : op.Terminates rows) :
    (op.perform rows).nodeExecution ≠ .waitingForInput := by
  obtain ⟨hbefore, hafter⟩ := hterm
  have hdoes := does_perform rows op
  generalize op.perform rows = rows' at hdoes hafter
  cases hdoes with
  | nothing => exact absurd hafter hbefore
  | closed _ _ hnode => exact hnode
  | nodeFailed => simp
  | claimed _ _ | stalled _ _ | stopped _ | updated _ _ _ => exact absurd hcloses id

/-! ## 3. While the pair is kept together -/

/-- A waiting node row belongs to an execution that no worker runs and that is not queued. -/
def OnlyParkedWaits (rows : Rows) : Prop :=
  rows.nodeExecution = .waitingForInput → rows.execution ≠ .running ∧ rows.execution ≠ .pending

/-- Nothing goes back to `pending`. -/
theorem canTransition_ne_pending {src dst : ExecutionStatus} {opts : TransitionOptions}
    (h : canTransition src dst opts = true) : dst ≠ .pending := by
  rintro rfl
  rw [canTransition_iff] at h
  cases src <;> simp [allowedTransitions] at h

theorem onlyParkedWaits_perform (hinv : OnlyParkedWaits rows) (hpaired : op.KeepsPaired rows) :
    OnlyParkedWaits (op.perform rows) := by
  have hdoes := does_perform rows op
  generalize op.perform rows = rows' at hdoes
  intro hwaiting
  cases hdoes with
  | nothing => exact hinv hwaiting
  | claimed _ _ => simp at hwaiting
  | closed _ _ _ => exact ⟨by simp, by simp⟩
  | nodeFailed => simp at hwaiting
  | stalled _ _ => exact ⟨by simp, by simp⟩
  | stopped _ => exact ⟨by simp, by simp⟩
  | @updated u _ hcan _ =>
    refine ⟨?_, canTransition_ne_pending hcan⟩
    cases hlinked : u.linkedNodeExec with
    | none =>
      rw [hlinked] at hwaiting
      exact absurd hwaiting (hpaired hlinked)
    | some nodeStatus =>
      rw [hlinked] at hwaiting
      have hparks : u.newStatus = .waitingForInput :=
        (u.linked_parks nodeStatus hlinked).mp hwaiting
      simp [hparks]

/-- While the pair is kept together, no operation that ends the execution leaves the node row
waiting. -/
theorem not_waiting_of_keepsPaired (hinv : OnlyParkedWaits rows) (hpaired : op.KeepsPaired rows)
    (hterm : op.Terminates rows) : (op.perform rows).nodeExecution ≠ .waitingForInput := by
  obtain ⟨hbefore, hafter⟩ := hterm
  have hdoes := does_perform rows op
  generalize op.perform rows = rows' at hdoes hafter
  intro hwaiting
  cases hdoes with
  | nothing => exact absurd hafter hbefore
  | claimed _ _ => simp at hwaiting
  | closed _ _ hnode => exact hnode hwaiting
  | nodeFailed => simp at hwaiting
  | stalled hrunning hnode => exact (hinv (hnode hwaiting)).1 hrunning
  | stopped hguard =>
    rcases hguard with h | h
    · exact (hinv hwaiting).1 h
    · exact (hinv hwaiting).2 h
  | @updated u _ _ _ =>
    cases hlinked : u.linkedNodeExec with
    | none =>
      rw [hlinked] at hwaiting
      exact hpaired hlinked hwaiting
    | some nodeStatus =>
      rw [hlinked] at hwaiting
      have hparks : u.newStatus = .waitingForInput :=
        (u.linked_parks nodeStatus hlinked).mp hwaiting
      exact absurd hafter (by simp [hparks, ExecutionStatus.IsTerminal])

end Operation

/-! ## 4. Whole runs -/

variable {nodeExecutionId : String} {history : History}

/-- The race for a park has been decided at most once, and then the node row no longer waits. -/
def History.ClaimedOnce (history : History) : Prop :=
  history.claims = 0 ∨
    (history.claims = 1 ∧ history.rows.nodeExecution ≠ .waitingForInput)

theorem claimedOnce_record (h : history.ClaimedOnce) (op : Operation) :
    (history.record op).ClaimedOnce := by
  unfold History.ClaimedOnce History.record
  cases hparks : op.parks history.rows with
  | true => exact .inl (by simp)
  | false =>
    cases hclaims : op.claims history.rows with
    | true =>
      obtain ⟨hbefore, hafter⟩ := Operation.of_claims hclaims
      obtain hnone | ⟨-, hdecided⟩ := h
      · exact .inr ⟨by simp [hnone], by simp [hafter]⟩
      · exact absurd hbefore hdecided
    | false =>
      obtain hnone | ⟨hone, hdecided⟩ := h
      · exact .inl (by simp [hnone])
      · refine .inr ⟨by simp [hone], fun hwaiting => ?_⟩
        obtain hbefore | hpark := Operation.waiting_of_perform hwaiting
        · exact hdecided hbefore
        · simp [hparks] at hpark

theorem claimedOnce_of_reachable (h : Reachable nodeExecutionId history) :
    history.ClaimedOnce := by
  induction h with
  | refl => exact .inl rfl
  | tail _ hstep ih =>
    obtain ⟨op, rfl⟩ := hstep
    exact claimedOnce_record ih op

theorem onlyParkedWaits_of_reachablePaired (h : ReachablePaired nodeExecutionId history) :
    Operation.OnlyParkedWaits history.rows := by
  induction h with
  | refl => exact fun _ => ⟨by simp [Rows.parked], by simp [Rows.parked]⟩
  | tail _ hstep ih =>
    obtain ⟨op, hpaired, rfl⟩ := hstep
    exact Operation.onlyParkedWaits_perform ih hpaired

/-- **Resume claim and cancel.**  In every interleaving on one parked execution: between two parks
at most one claim succeeds; a terminal status changes only when a retried turn takes a failed
execution back to running or to waiting; the operations that close a park never leave its node
row waiting; and while no status update moves the execution alone under a waiting node row, no
operation does. -/
theorem resume_protocol (nodeExecutionId : String) :
    (∀ history, Reachable nodeExecutionId history → history.claims ≤ 1) ∧
    (∀ history, Reachable nodeExecutionId history → history.rows.execution.IsTerminal →
      ∀ op : Operation, (op.perform history.rows).execution = history.rows.execution ∨
        ∃ u, op = .updateExecutionStatus u ∧ u.opts.allowRetryReentry = true ∧
          history.rows.execution = .failed ∧
          ((op.perform history.rows).execution = .running ∨
            (op.perform history.rows).execution = .waitingForInput)) ∧
    (∀ history, Reachable nodeExecutionId history → ∀ op : Operation, op.ClosesPark →
      op.Terminates history.rows →
        (op.perform history.rows).nodeExecution ≠ .waitingForInput) ∧
    (∀ history, ReachablePaired nodeExecutionId history → ∀ op : Operation,
      op.KeepsPaired history.rows → op.Terminates history.rows →
        (op.perform history.rows).nodeExecution ≠ .waitingForInput) := by
  refine ⟨fun history hreach => ?_, fun history _ hterm op => ?_,
    fun history _ op hcloses hterm => ?_, fun history hreach op hpaired hterm => ?_⟩
  · obtain h | ⟨h, -⟩ := claimedOnce_of_reachable hreach <;> omega
  · obtain h | ⟨u, rfl, hopt, hfailed, h⟩ := Operation.execution_of_terminal op hterm
    · exact .inl h
    · refine .inr ⟨u, rfl, hopt, hfailed, ?_⟩
      rw [h]
      exact u.reentry_target hopt
  · exact Operation.not_waiting_of_closesPark hcloses hterm
  · exact Operation.not_waiting_of_keepsPaired (onlyParkedWaits_of_reachablePaired hreach)
      hpaired hterm

/-- The pre-transition of a resume that carries no node execution id. -/
def legacyResume : StatusUpdate where
  inMemory := .waitingForInput
  newStatus := .running
  linkedNodeExec := none
  opts := {}
  linked_parks := by simp
  reentry_target := by simp

/-- `finalizeFailedExecution` of a worker. -/
def failRun : StatusUpdate where
  inMemory := .running
  newStatus := .failed
  linkedNodeExec := none
  opts := {}
  linked_parks := by simp
  reentry_target := by simp

/-- A retried turn that continues: it parks the failed execution again. -/
def retryRepark : StatusUpdate where
  inMemory := .failed
  newStatus := .waitingForInput
  linkedNodeExec := some .waitingForInput
  opts := { allowRetryReentry := true }
  linked_parks := by simp
  reentry_target := by simp

/-- Three designed exceptions: claims without a node execution id all pass; a retried turn also
takes `failed` to `waiting_for_input`; and a stop of an execution that was resumed without a node
execution id ends it over a waiting node row. -/
theorem resume_protocol_exceptions :
    ((Rows.parked "n").claimResumeEntry "" = (Rows.parked "n", true) ∧
      (Rows.parked "n").claimResumeEntry "__no_node_exec__" = (Rows.parked "n", true)) ∧
    ((Operation.updateExecutionStatus failRun).perform
        ((Operation.claimResumeEntry "n").perform (Rows.parked "n")) =
          ⟨.failed, "n", .running⟩ ∧
      (Operation.updateExecutionStatus retryRepark).perform ⟨.failed, "n", .running⟩ =
          ⟨.waitingForInput, "n", .waitingForInput⟩) ∧
    ((Operation.updateExecutionStatus legacyResume).perform (Rows.parked "n") =
          ⟨.running, "n", .waitingForInput⟩ ∧
      (Operation.stop .running).perform ⟨.running, "n", .waitingForInput⟩ =
          ⟨.cancelled, "n", .waitingForInput⟩) := by
  decide

end Clemvion.Execution
