import Clemvion.Execution.StatusTransactions

/-!
# TerminalEvents — who announces the end of an execution

One worker segment (`runExecution`) against any number of stop and cancel requests.  Every
database transaction is one action; the worker emits its event in an action of its own, after
the transaction, and so does `cancelParkedExecution`.  `stop` never emits: it relies on the worker
to notice.  `runSegment_announces_iff` says exactly when somebody does.
-/

namespace Clemvion.Execution

inductive TerminalEvent where
  | completed
  | failed
  | cancelled
  deriving DecidableEq, Repr

def TerminalEvent.status : TerminalEvent → ExecutionStatus
  | completed => .completed
  | failed => .failed
  | cancelled => .cancelled

/-- Where the worker stands in `runExecution`. -/
inductive Worker where
  /-- Before the transition to RUNNING. -/
  | starting
  /-- In the dispatch loop. -/
  | dispatching
  /-- Past the last node: the completion path. -/
  | completing
  /-- In the catch block, with an error: `finalizeFailedExecution`. -/
  | failing
  /-- In the catch block, with an `ExecutionCancelledError`: `finalizeCancelledExecution`. -/
  | cancelling
  /-- `finalizeCancelledExecution` after an UPDATE of no row: it reads the row again. -/
  | rereading
  | emitting (event : TerminalEvent)
  | ended
  deriving DecidableEq, Repr

structure Segment where
  rows : Rows
  /-- The status of the worker's `savedExecution`. -/
  inMemory : ExecutionStatus
  worker : Worker
  /-- Transactions of `cancelParkedExecution` that are committed and not yet announced. -/
  announcing : Nat
  /-- The terminal events emitted so far. -/
  events : List TerminalEvent
  deriving DecidableEq, Repr

inductive Action where
  | start
  | assertExecutionNotCancelled
  /-- A node parks the execution. -/
  | park
  /-- A node or a guard of the loop throws. -/
  | handlerThrows
  /-- A node throws an `ExecutionCancelledError`. -/
  | cancellationThrown
  | leaveLoop
  | complete
  | finalizeFailedExecution
  | finalizeCancelledExecution
  | reread
  | emit
  | stop (found : ExecutionStatus)
  | cancelParkedExecution
  | emitCancellationEvent
  deriving DecidableEq, Repr

namespace Segment

/-- `updateExecutionStatus` of the worker's entity alone: on to `applied`, `lost` (no row) or
`thrown` (the entity's own status does not allow it). -/
def update (s : Segment) (newStatus : ExecutionStatus) (applied lost thrown : Worker) : Segment :=
  match s.rows.updateExecutionStatus s.inMemory newStatus none {} with
  | .ok t =>
    { s with
      rows := t.rows
      inMemory := t.inMemory
      worker := if t.persisted then applied else lost }
  | .error _ => { s with worker := thrown }

/-- `updateExecutionStatus` with the waiting node row, then `assertLinkedTransitionApplied`. -/
def park (s : Segment) : Segment :=
  match s.rows.updateExecutionStatus s.inMemory .waitingForInput (some .waitingForInput) {} with
  | .ok t =>
    if t.persisted then
      { s with rows := t.rows, inMemory := t.inMemory, worker := .ended }
    else
      { s with rows := t.rows.markNodeCancelled, inMemory := t.inMemory, worker := .cancelling }
  | .error _ => { s with worker := .failing }

def assertExecutionNotCancelled (s : Segment) : Segment :=
  if s.rows.execution = .cancelled then { s with worker := .cancelling } else s

def reread (s : Segment) : Segment :=
  if s.rows.execution = .cancelled then { s with worker := .emitting .cancelled }
  else { s with worker := .ended }

/-- One action; `none` where it is not enabled. -/
def step (s : Segment) : Action → Option Segment
  | .start =>
    if s.worker = .starting then some (s.update .running .dispatching .dispatching .failing)
    else none
  | .assertExecutionNotCancelled =>
    if s.worker = .dispatching then some s.assertExecutionNotCancelled else none
  | .park => if s.worker = .dispatching then some s.park else none
  | .handlerThrows =>
    if s.worker = .dispatching then some { s with worker := .failing } else none
  | .cancellationThrown =>
    if s.worker = .dispatching then some { s with worker := .cancelling } else none
  | .leaveLoop =>
    if s.worker = .dispatching then some { s with worker := .completing } else none
  | .complete =>
    if s.worker = .completing then
      some (s.update .completed (.emitting .completed) .ended .failing)
    else none
  | .finalizeFailedExecution =>
    if s.worker = .failing then some (s.update .failed (.emitting .failed) .ended .ended) else none
  | .finalizeCancelledExecution =>
    if s.worker = .cancelling then
      some (s.update .cancelled (.emitting .cancelled) .rereading .ended)
    else none
  | .reread => if s.worker = .rereading then some s.reread else none
  | .emit =>
    match s.worker with
    | .emitting event => some { s with worker := .ended, events := s.events ++ [event] }
    | _ => none
  | .stop found =>
    match s.rows.stopInternal found with
    | .ok (rows, _) => some { s with rows := rows }
    | .error _ => some s
  | .cancelParkedExecution =>
    match s.rows.cancelParkedExecution with
    | (rows, true) => some { s with rows := rows, announcing := s.announcing + 1 }
    | (rows, false) => some { s with rows := rows }
  | .emitCancellationEvent =>
    if 0 < s.announcing then
      some { s with announcing := s.announcing - 1, events := s.events ++ [.cancelled] }
    else none

def run : List Action → Segment → Option Segment
  | [], s => some s
  | action :: actions, s => (s.step action).bind (run actions)

/-- A segment about to start: queued (`runExecution` moves it to RUNNING) or already admitted. -/
inductive Initial : Segment → Prop
  | queued (id : String) (node : NodeExecutionStatus) :
      Initial ⟨⟨.pending, id, node⟩, .pending, .starting, 0, []⟩
  | admitted (id : String) (node : NodeExecutionStatus) :
      Initial ⟨⟨.running, id, node⟩, .running, .dispatching, 0, []⟩

/-- The worker has ended and no cancel waits to be announced. -/
def Quiet (s : Segment) : Prop :=
  s.worker = .ended ∧ s.announcing = 0

/-- Exactly one terminal event was emitted, and it is the row's. -/
def Announced (s : Segment) : Prop :=
  ∃ event, s.events = [event] ∧ event.status = s.rows.execution

/-- The action does not complete or fail an execution that was stopped already. -/
def Timely (s : Segment) (action : Action) : Prop :=
  action = .complete ∨ action = .finalizeFailedExecution → s.rows.execution ≠ .cancelled

def AllTimely : List Action → Segment → Prop
  | [], _ => True
  | action :: actions, s =>
    s.Timely action ∧ ∀ s', s.step action = some s' → AllTimely actions s'

/-! ## 1. The worker's transitions -/

variable {s s' : Segment}

theorem update_of_live {newStatus : ExecutionStatus} {applied lost thrown : Worker}
    (hcan : canTransition s.inMemory newStatus {} = true) (hlive : ¬ s.rows.execution.IsTerminal) :
    s.update newStatus applied lost thrown =
      { s with
        rows := { s.rows with execution := newStatus }
        inMemory := newStatus
        worker := applied } := by
  have hguard : s.rows.execution ∈ nonTerminalStatuses {} := mem_nonTerminalStatuses.mpr (.inl hlive)
  unfold update
  rw [Rows.updateExecutionStatus_none hcan, if_pos hguard]
  rfl

theorem update_of_terminal {newStatus : ExecutionStatus} {applied lost thrown : Worker}
    (hcan : canTransition s.inMemory newStatus {} = true) (hterm : s.rows.execution.IsTerminal) :
    s.update newStatus applied lost thrown = { s with inMemory := newStatus, worker := lost } := by
  have hguard : s.rows.execution ∉ nonTerminalStatuses {} := by
    rw [mem_nonTerminalStatuses]
    simp [hterm]
  unfold update
  rw [Rows.updateExecutionStatus_none hcan, if_neg hguard]
  rfl

theorem park_of_live (hcan : canTransition s.inMemory .waitingForInput {} = true)
    (hlive : ¬ s.rows.execution.IsTerminal) :
    s.park =
      { s with
        rows := { s.rows with execution := .waitingForInput, nodeExecution := .waitingForInput }
        inMemory := .waitingForInput
        worker := .ended } := by
  have hguard : s.rows.execution ∈ nonTerminalStatuses {} := mem_nonTerminalStatuses.mpr (.inl hlive)
  unfold park
  rw [Rows.updateExecutionStatus_some hcan, if_pos hguard]
  rfl

theorem park_of_terminal (hcan : canTransition s.inMemory .waitingForInput {} = true)
    (hterm : s.rows.execution.IsTerminal) :
    s.park = { s with rows := s.rows.markNodeCancelled, worker := .cancelling } := by
  have hguard : s.rows.execution ∉ nonTerminalStatuses {} := by
    rw [mem_nonTerminalStatuses]
    simp [hterm]
  unfold park
  rw [Rows.updateExecutionStatus_some hcan, if_neg hguard]
  rfl

/-! ## 2. The invariant -/

/-- Nothing has been announced, and nothing is about to be by a cancel. -/
def Silent (s : Segment) : Prop :=
  s.events = [] ∧ s.announcing = 0

/-- The worker still runs: the row has the status it believes in, or was stopped. -/
def Live (s : Segment) (status : ExecutionStatus) : Prop :=
  s.inMemory = status ∧ (s.rows.execution = status ∨ s.rows.execution = .cancelled) ∧ s.Silent

/-- The end of the execution is announced once, or will be by the cancel that caused it. -/
def Settled (s : Segment) : Prop :=
  (s.rows.execution = .cancelled ∧ s.announcing = 1 ∧ s.events = []) ∨
    (s.announcing = 0 ∧ s.Announced)

/-- What holds while the worker stands at a point. -/
def ConsistentAt (s : Segment) : Worker → Prop
  | .starting => s.Live .pending
  | .dispatching | .completing | .failing | .cancelling => s.Live .running
  | .rereading => s.rows.execution = .cancelled ∧ s.Silent
  | .emitting event => s.rows.execution = event.status ∧ s.Silent
  | .ended => (s.rows.execution = .waitingForInput ∧ s.Silent) ∨ s.Settled

def Consistent (s : Segment) : Prop :=
  s.ConsistentAt s.worker

/-- A stop that nobody will announce. -/
def Unannounced (s : Segment) : Prop :=
  s.worker = .ended ∧ s.rows.execution = .cancelled ∧ s.Silent

theorem consistent_of_initial (h : Initial s) : s.Consistent := by
  cases h with
  | queued id node => exact ⟨rfl, .inl rfl, rfl, rfl⟩
  | admitted id node => exact ⟨rfl, .inl rfl, rfl, rfl⟩

/-- A guarded UPDATE of a live worker: the row takes the new status, or it had been stopped. -/
theorem update_of_live_worker {status : ExecutionStatus} {applied lost thrown : Worker}
    (newStatus : ExecutionStatus) (h : s.Live status) (hstatus : ¬ status.IsTerminal)
    (hcan : canTransition status newStatus {} = true) :
    (s.rows.execution = status ∧ s.update newStatus applied lost thrown =
      { s with
        rows := { s.rows with execution := newStatus }
        inMemory := newStatus
        worker := applied }) ∨
    (s.rows.execution = .cancelled ∧
      s.update newStatus applied lost thrown = { s with inMemory := newStatus, worker := lost }) := by
  obtain ⟨hmem, hrow, -⟩ := h
  rw [← hmem] at hcan
  obtain hrow | hrow := hrow
  · exact .inl ⟨hrow, update_of_live hcan (by rwa [hrow])⟩
  · exact .inr ⟨hrow, update_of_terminal hcan (by rw [hrow]; decide)⟩

theorem consistent_park (h : s.Live .running) : s.park.Consistent := by
  obtain ⟨hmem, hrow, hsilent⟩ := h
  have hcan : canTransition s.inMemory .waitingForInput {} = true := by
    rw [hmem]
    decide
  obtain hrow | hrow := hrow
  · rw [park_of_live hcan (by rw [hrow]; decide)]
    exact .inl ⟨rfl, hsilent⟩
  · rw [park_of_terminal hcan (by rw [hrow]; decide)]
    exact ⟨hmem, .inr hrow, hsilent⟩

/-- A step of the worker keeps the invariant, if it is timely. -/
theorem consistent_of_stop {rows : Rows} (h : s.Consistent)
    (hstop : rows = s.rows ∨ ((s.rows.execution = .running ∨ s.rows.execution = .pending) ∧
      rows = { s.rows with execution := .cancelled })) :
    Consistent { s with rows := rows } := by
  obtain rfl | ⟨hguard, rfl⟩ := hstop
  · exact h
  · unfold Consistent at h ⊢
    show ConsistentAt _ s.worker
    cases hworker : s.worker with
    | starting =>
      rw [hworker] at h
      exact ⟨h.1, .inr rfl, h.2.2⟩
    | dispatching | completing | failing | cancelling =>
      rw [hworker] at h
      exact ⟨h.1, .inr rfl, h.2.2⟩
    | rereading =>
      rw [hworker] at h
      exact ⟨rfl, h.2⟩
    | emitting event =>
      rw [hworker] at h
      -- the row is terminal already, so the guard fails
      obtain ⟨hrow, -⟩ := h
      cases event <;> simp [hrow, TerminalEvent.status] at hguard
    | ended =>
      rw [hworker] at h
      obtain ⟨hrow, -⟩ | ⟨hrow, -⟩ | ⟨-, event, -, hrow⟩ := h
      · simp [hrow] at hguard
      · simp [hrow] at hguard
      · rw [← hrow] at hguard
        cases event <;> simp [TerminalEvent.status] at hguard

theorem parked_of_waiting (h : s.Consistent) (hwaiting : s.rows.execution = .waitingForInput) :
    s.worker = .ended ∧ s.Silent := by
  unfold Consistent at h
  cases hworker : s.worker with
  | starting | dispatching | completing | failing | cancelling =>
    rw [hworker] at h
    obtain ⟨-, hrow | hrow, -⟩ := h <;> simp [hrow] at hwaiting
  | rereading =>
    rw [hworker] at h
    simp [h.1] at hwaiting
  | emitting event =>
    rw [hworker] at h
    rw [h.1] at hwaiting
    cases event <;> simp [TerminalEvent.status] at hwaiting
  | ended =>
    rw [hworker] at h
    obtain ⟨-, hsilent⟩ | ⟨hrow, -⟩ | ⟨-, event, -, hrow⟩ := h
    · exact ⟨rfl, hsilent⟩
    · simp [hrow] at hwaiting
    · rw [← hrow] at hwaiting
      cases event <;> simp [TerminalEvent.status] at hwaiting

/-- `cancelParkedExecution` takes a parked execution, and then owes the event. -/
theorem consistent_of_cancelParked {rows : Rows} (h : s.Consistent)
    (hwaiting : s.rows.execution = .waitingForInput) (hrows : rows.execution = .cancelled) :
    Consistent { s with rows := rows, announcing := s.announcing + 1 } := by
  obtain ⟨hworker, hevents, hann⟩ := parked_of_waiting h hwaiting
  unfold Consistent
  show ConsistentAt _ s.worker
  rw [hworker]
  exact .inr (.inl ⟨hrows, by simp [hann], hevents⟩)

/-- A pending announcement is the only one, and it is right. -/
theorem consistent_of_emitCancellation (h : s.Consistent) (hann : 0 < s.announcing) :
    Consistent { s with announcing := s.announcing - 1, events := s.events ++ [.cancelled] } := by
  have howed : s.worker = .ended ∧ s.rows.execution = .cancelled ∧ s.announcing = 1 ∧
      s.events = [] := by
    unfold Consistent at h
    cases hworker : s.worker with
    | starting | dispatching | completing | failing | cancelling =>
      rw [hworker] at h
      have := h.2.2.2
      omega
    | rereading | emitting _ =>
      rw [hworker] at h
      have := h.2.2
      omega
    | ended =>
      rw [hworker] at h
      obtain ⟨-, -, hnone⟩ | hcancelled | ⟨hnone, -⟩ := h
      · omega
      · exact ⟨rfl, hcancelled⟩
      · omega
  obtain ⟨hworker, hrow, hone, hevents⟩ := howed
  unfold Consistent
  show ConsistentAt _ s.worker
  rw [hworker]
  refine .inr (.inr ⟨by simp [hone], .cancelled, ?_, hrow.symm⟩)
  simp [hevents]

/-- A step of the worker starts where the action is enabled. -/
theorem of_enabled {worker : Worker} {t : Segment} (h : s.Consistent)
    (hstep : (if s.worker = worker then some t else none) = some s') :
    s.ConsistentAt worker ∧ s' = t := by
  simp only [Option.ite_none_right_eq_some, Option.some.injEq] at hstep
  obtain ⟨hworker, rfl⟩ := hstep
  unfold Consistent at h
  rw [hworker] at h
  exact ⟨h, rfl⟩

/-- **One step** keeps the invariant, if it is timely. -/
theorem consistent_step {action : Action} (h : s.Consistent) (htimely : s.Timely action)
    (hstep : s.step action = some s') : s'.Consistent := by
  cases action with
  | start =>
    obtain ⟨h, rfl⟩ := of_enabled h hstep
    obtain ⟨hrow, hupd⟩ | ⟨hrow, hupd⟩ := update_of_live_worker .running h (by decide) (by decide) <;>
      rw [hupd]
    · exact ⟨rfl, .inl rfl, h.2.2⟩
    · exact ⟨rfl, .inr hrow, h.2.2⟩
  | assertExecutionNotCancelled =>
    simp only [step, Option.ite_none_right_eq_some, Option.some.injEq] at hstep
    obtain ⟨hworker, rfl⟩ := hstep
    unfold assertExecutionNotCancelled
    split_ifs
    · unfold Consistent at h
      rw [hworker] at h
      exact h
    · exact h
  | park =>
    obtain ⟨h, rfl⟩ := of_enabled h hstep
    exact consistent_park h
  | handlerThrows =>
    obtain ⟨h, rfl⟩ := of_enabled h hstep
    exact h
  | cancellationThrown =>
    obtain ⟨h, rfl⟩ := of_enabled h hstep
    exact h
  | leaveLoop =>
    obtain ⟨h, rfl⟩ := of_enabled h hstep
    exact h
  | complete =>
    obtain ⟨h, rfl⟩ := of_enabled h hstep
    obtain ⟨-, hupd⟩ | ⟨hrow, -⟩ := update_of_live_worker .completed h (by decide) (by decide)
    · rw [hupd]
      exact ⟨rfl, h.2.2⟩
    · exact absurd hrow (htimely (.inl rfl))
  | finalizeFailedExecution =>
    obtain ⟨h, rfl⟩ := of_enabled h hstep
    obtain ⟨-, hupd⟩ | ⟨hrow, -⟩ := update_of_live_worker .failed h (by decide) (by decide)
    · rw [hupd]
      exact ⟨rfl, h.2.2⟩
    · exact absurd hrow (htimely (.inr rfl))
  | finalizeCancelledExecution =>
    obtain ⟨h, rfl⟩ := of_enabled h hstep
    -- the opposite polarity: a lost UPDATE is followed by a look at the row
    obtain ⟨-, hupd⟩ | ⟨hrow, hupd⟩ := update_of_live_worker .cancelled h (by decide) (by decide) <;>
      rw [hupd]
    · exact ⟨rfl, h.2.2⟩
    · exact ⟨hrow, h.2.2⟩
  | reread =>
    obtain ⟨h, rfl⟩ := of_enabled h hstep
    unfold reread
    rw [if_pos h.1]
    exact h
  | emit =>
    simp only [step] at hstep
    split at hstep
    · rename_i event hworker
      obtain rfl := Option.some.inj hstep
      unfold Consistent at h
      rw [hworker] at h
      obtain ⟨hrow, hevents, hann⟩ := h
      exact .inr (.inr ⟨hann, event, by simp [hevents], hrow.symm⟩)
    · simp at hstep
  | stop found =>
    simp only [step] at hstep
    obtain ⟨_, hstop⟩ | ⟨_, hstop⟩ | ⟨hguard, hstop⟩ := s.rows.stopInternal_cases found <;>
      rw [hstop] at hstep <;> obtain rfl := Option.some.inj hstep
    · exact h
    · exact h
    · exact consistent_of_stop h (.inr ⟨hguard, rfl⟩)
  | cancelParkedExecution =>
    simp only [step, Rows.cancelParkedExecution] at hstep
    rcases hcancel : s.rows.cancelWaiting with ⟨rows, _ | _⟩ <;> rw [hcancel] at hstep <;>
      obtain rfl := Option.some.inj hstep
    · obtain ⟨-, hrows⟩ := Rows.cancelWaiting_of_not_affected (by rw [hcancel])
      rw [hcancel] at hrows
      obtain rfl : rows = s.rows := hrows
      exact h
    · obtain ⟨hwaiting, hrows, -⟩ := Rows.cancelWaiting_of_affected (by rw [hcancel])
      rw [hcancel] at hrows
      exact consistent_of_cancelParked h hwaiting hrows
  | emitCancellationEvent =>
    simp only [step, Option.ite_none_right_eq_some, Option.some.injEq] at hstep
    obtain ⟨hann, rfl⟩ := hstep
    exact consistent_of_emitCancellation h hann

/-- **The lost stop.**  An untimely step ends the worker without a word. -/
theorem unannounced_of_untimely {action : Action} (h : s.Consistent)
    (huntimely : ¬ s.Timely action) (hstep : s.step action = some s') : s'.Unannounced := by
  unfold Timely at huntimely
  push Not at huntimely
  obtain ⟨rfl | rfl, hrow⟩ := huntimely
  · obtain ⟨h, rfl⟩ := of_enabled h hstep
    obtain ⟨hrunning, -⟩ | ⟨-, hupd⟩ := update_of_live_worker .completed h (by decide) (by decide)
    · simp [hrow] at hrunning
    · rw [hupd]
      exact ⟨rfl, hrow, h.2.2⟩
  · obtain ⟨h, rfl⟩ := of_enabled h hstep
    obtain ⟨hrunning, -⟩ | ⟨-, hupd⟩ := update_of_live_worker .failed h (by decide) (by decide)
    · simp [hrow] at hrunning
    · rw [hupd]
      exact ⟨rfl, hrow, h.2.2⟩

theorem unannounced_step {action : Action} (h : s.Unannounced) (hstep : s.step action = some s') :
    s'.Unannounced := by
  obtain ⟨hworker, hrow, hevents, hann⟩ := h
  cases action with
  | stop found =>
    simp only [step] at hstep
    obtain ⟨_, hstop⟩ | ⟨_, hstop⟩ | ⟨hguard, -⟩ := s.rows.stopInternal_cases found
    · rw [hstop] at hstep
      obtain rfl := Option.some.inj hstep
      exact ⟨hworker, hrow, hevents, hann⟩
    · rw [hstop] at hstep
      obtain rfl := Option.some.inj hstep
      exact ⟨hworker, hrow, hevents, hann⟩
    · simp [hrow] at hguard
  | cancelParkedExecution =>
    simp only [step, Rows.cancelParkedExecution, Rows.cancelWaiting, hrow, reduceCtorEq,
      if_false, Option.some.injEq] at hstep
    subst hstep
    exact ⟨hworker, hrow, hevents, hann⟩
  | emitCancellationEvent => simp [step, hann] at hstep
  | _ => simp [step, hworker] at hstep

/-! ## 3. Whole runs -/

theorem unannounced_run (actions : List Action) (h : s.Unannounced)
    (hrun : run actions s = some s') : s'.Unannounced := by
  induction actions generalizing s with
  | nil =>
    obtain rfl := Option.some.inj hrun
    exact h
  | cons action actions ih =>
    obtain ⟨t, hstep, hrest⟩ := Option.bind_eq_some_iff.mp hrun
    exact ih (unannounced_step h hstep) hrest

/-- A run either keeps the invariant to its end, all steps being timely, or loses a stop. -/
theorem consistent_or_unannounced (actions : List Action) (h : s.Consistent)
    (hrun : run actions s = some s') :
    (AllTimely actions s ∧ s'.Consistent) ∨ (¬ AllTimely actions s ∧ s'.Unannounced) := by
  induction actions generalizing s with
  | nil =>
    obtain rfl := Option.some.inj hrun
    exact .inl ⟨trivial, h⟩
  | cons action actions ih =>
    obtain ⟨t, hstep, hrest⟩ := Option.bind_eq_some_iff.mp hrun
    by_cases htimely : s.Timely action
    · obtain ⟨hall, hcons⟩ | ⟨hnot, hlost⟩ := ih (consistent_step h htimely hstep) hrest
      · refine .inl ⟨⟨htimely, fun t' ht' => ?_⟩, hcons⟩
        obtain rfl : t = t' := Option.some.inj (hstep.symm.trans ht')
        exact hall
      · exact .inr ⟨fun hall => hnot (hall.2 t hstep), hlost⟩
    · exact .inr ⟨fun hall => htimely hall.1,
        unannounced_run actions (unannounced_of_untimely h htimely hstep) hrest⟩

/-- **Terminal event agreement.**  In a run of one worker segment against any stop and cancel
requests that has come to rest at a terminal row, exactly one terminal event was emitted and it is
the row's, if and only if every completion and failure came before a stop. -/
theorem announced_iff_allTimely {start : Segment} (actions : List Action) (hinit : Initial start)
    (hrun : run actions start = some s) (hquiet : s.Quiet) (hterm : s.rows.execution.IsTerminal) :
    s.Announced ↔ AllTimely actions start := by
  obtain ⟨hworker, hann⟩ := hquiet
  obtain ⟨hall, hcons⟩ | ⟨hnot, -, -, hsilent, -⟩ :=
    consistent_or_unannounced actions (consistent_of_initial hinit) hrun
  · refine ⟨fun _ => hall, fun _ => ?_⟩
    unfold Consistent at hcons
    rw [hworker] at hcons
    obtain ⟨hrow, -⟩ | ⟨-, hone, -⟩ | ⟨-, hannounced⟩ := hcons
    · rw [hrow] at hterm
      exact absurd hterm (by decide)
    · omega
    · exact hannounced
  · refine ⟨fun ⟨event, hevents, _⟩ => ?_, fun hall => absurd hall hnot⟩
    simp [hsilent] at hevents

/-- A stop before the last boundary check is announced by `finalizeCancelledExecution`. -/
theorem announced_iff_allTimely_stopped :
    Announced ⟨⟨.cancelled, "n", .pending⟩, .cancelled, .ended, 0, [.cancelled]⟩ ↔
      AllTimely [.stop .running, .assertExecutionNotCancelled, .finalizeCancelledExecution, .reread,
        .emit] ⟨⟨.running, "n", .pending⟩, .running, .dispatching, 0, []⟩ :=
  announced_iff_allTimely _ (.admitted "n" .pending) (by decide) ⟨rfl, rfl⟩ (by decide)

/-- A stop between the last boundary check and the completion is not. -/
theorem not_announced_of_late_stop :
    let start : Segment := ⟨⟨.running, "n", .pending⟩, .running, .dispatching, 0, []⟩
    let final : Segment := ⟨⟨.cancelled, "n", .pending⟩, .completed, .ended, 0, []⟩
    Initial start ∧
      run [.assertExecutionNotCancelled, .leaveLoop, .stop .running, .complete] start = some final ∧
      final.Quiet ∧ final.rows.execution.IsTerminal ∧ ¬ final.Announced := by
  refine ⟨.admitted "n" .pending, by decide, ⟨rfl, rfl⟩, by decide, ?_⟩
  rintro ⟨event, hevents, -⟩
  simp at hevents

end Segment

end Clemvion.Execution
