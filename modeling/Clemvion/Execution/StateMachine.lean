import Mathlib.Data.List.Basic

/-!
# StateMachine — the transitions of an execution's status

The table of allowed transitions, its one opt-in, and the list of statuses that the guards of
the database transactions accept.  The guard list is computed from the table, so the two agree
by `mem_nonTerminalStatuses`.
-/

namespace Clemvion.Execution

inductive ExecutionStatus where
  | pending
  | running
  | completed
  | failed
  | cancelled
  | waitingForInput
  deriving DecidableEq, Repr

namespace ExecutionStatus

def value : ExecutionStatus → String
  | pending => "pending"
  | running => "running"
  | completed => "completed"
  | failed => "failed"
  | cancelled => "cancelled"
  | waitingForInput => "waiting_for_input"

/-- `Object.values(ExecutionStatus)`, in the order of the declaration. -/
def values : List ExecutionStatus :=
  [pending, running, completed, failed, cancelled, waitingForInput]

end ExecutionStatus

open ExecutionStatus

structure TransitionOptions where
  allowRetryReentry : Bool := false
  deriving DecidableEq, Repr

def allowedTransitions : ExecutionStatus → List ExecutionStatus
  | pending => [running, cancelled]
  | running => [completed, failed, cancelled, waitingForInput]
  | waitingForInput => [running, cancelled, failed]
  | completed => []
  | failed => []
  | cancelled => []

def canTransition (src dst : ExecutionStatus) (opts : TransitionOptions) : Bool :=
  -- the pair that a retry of the last turn needs stays outside the table
  if opts.allowRetryReentry = true ∧ src = failed ∧ (dst = running ∨ dst = waitingForInput) then
    true
  else
    decide (dst ∈ allowedTransitions src)

def assertTransition (src dst : ExecutionStatus) (opts : TransitionOptions) : Except String Unit :=
  if canTransition src dst opts then .ok ()
  else .error s!"Invalid state transition: cannot transition from \"{src.value}\" to \"{dst.value}\""

/-- The statuses with an allowed outgoing transition: what the database guards accept. -/
def nonTerminalStatuses (opts : TransitionOptions) : List ExecutionStatus :=
  values.filter fun src => values.any fun dst => canTransition src dst opts

/-- An execution that ended. -/
def ExecutionStatus.IsTerminal (status : ExecutionStatus) : Prop :=
  status = completed ∨ status = failed ∨ status = cancelled

instance (status : ExecutionStatus) : Decidable status.IsTerminal :=
  inferInstanceAs (Decidable (_ ∨ _ ∨ _))

theorem canTransition_iff {src dst : ExecutionStatus} {opts : TransitionOptions} :
    canTransition src dst opts = true ↔
      dst ∈ allowedTransitions src ∨
        (opts.allowRetryReentry = true ∧ src = failed ∧ (dst = running ∨ dst = waitingForInput)) := by
  unfold canTransition
  split_ifs with hreentry
  · simp [hreentry]
  · simp [hreentry]

theorem allowedTransitions_eq_nil_iff {status : ExecutionStatus} :
    allowedTransitions status = [] ↔ status.IsTerminal := by
  cases status <;> decide

/-- The guard list is the table's: a status that did not end, or `failed` under the opt-in. -/
theorem mem_nonTerminalStatuses {status : ExecutionStatus} {opts : TransitionOptions} :
    status ∈ nonTerminalStatuses opts ↔
      ¬ status.IsTerminal ∨ (opts.allowRetryReentry = true ∧ status = failed) := by
  rcases opts with ⟨_ | _⟩ <;> cases status <;> decide

theorem assertTransition_eq_ok_iff {src dst : ExecutionStatus} {opts : TransitionOptions} :
    assertTransition src dst opts = .ok () ↔ canTransition src dst opts = true := by
  unfold assertTransition
  split_ifs with h <;> simp [h]

end Clemvion.Execution
