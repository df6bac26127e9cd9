import Clemvion.Library.Limiter
import Mathlib.Algebra.Order.Floor.Ring
import Mathlib.Data.Rat.Floor
import Mathlib.Logic.Function.Basic

/-!
# ParallelExecutor — the branches of a Parallel node, run with a limiter

`execute` hands one task per branch to a limiter and waits for all of them to settle.  When a
branch body may be called, when it settles and how, and when the upstream signal aborts are the
environment's choice: a run is any list of these events that the limiter allows.
-/

open Clemvion.Library

namespace Clemvion.Engine

/-! ## 1. Configuration -/

inductive ParallelErrorPolicy
  | stop | «continue» | cancelOthersOnFail
  deriving DecidableEq, Repr

structure ParallelConfig where
  branchCount : Rat
  maxConcurrency : Rat
  errorPolicy : Option ParallelErrorPolicy := none

def nestedParallelConcurrencyCap : Nat := 32

/-- `Math.max(lo, Math.min(hi, Math.floor(n)))`. -/
def clampFloor (lo hi : Int) (n : Rat) : Int := max lo (min hi ⌊n⌋)

structure ClampedConcurrency where
  intended : Nat
  actual : Nat
  parentEffective : Rat
  cap : Nat
  deriving DecidableEq

namespace ParallelConfig

variable (config : ParallelConfig)

def branches : Nat := (clampFloor 2 16 config.branchCount).toNat

def policy : ParallelErrorPolicy := config.errorPolicy.getD .stop

def intendedEffective : Nat :=
  let maxConcurrency := (clampFloor 0 16 config.maxConcurrency).toNat
  if maxConcurrency > 0 then maxConcurrency else config.branches

/-- What the concurrency of an enclosing Parallel node leaves. -/
def allowed (parentEffective : Rat) : Nat :=
  (max 1 ⌊(nestedParallelConcurrencyCap : Rat) / parentEffective⌋).toNat

def clampedConcurrency (parentParallelConcurrency : Option Rat) : Option ClampedConcurrency :=
  match parentParallelConcurrency with
  | some parentEffective =>
    if 0 < parentEffective ∧ config.intendedEffective > allowed parentEffective then
      some {
        intended := config.intendedEffective
        actual := allowed parentEffective
        parentEffective
        cap := nestedParallelConcurrencyCap }
    else none
  | none => none

def effectiveConcurrency (parentParallelConcurrency : Option Rat) : Nat :=
  match config.clampedConcurrency parentParallelConcurrency with
  | some clamped => clamped.actual
  | none => config.intendedEffective

end ParallelConfig

/-! ## 2. What a branch can throw -/

/-- The properties of an `Error` that the executor reads; `cancelled` is
`instanceof ExecutionCancelledError`. -/
structure ErrorObject where
  name : String := "Error"
  message : String
  code : Option String := none
  cancelled : Bool := false
  deriving DecidableEq

/-- A rejection reason; of a value that is no `Error` only its text is used. -/
inductive Reason
  | error (e : ErrorObject)
  | other (text : String)
  deriving DecidableEq

/-- `reason instanceof Error ? reason : new Error(String(reason))`. -/
def Reason.toError : Reason → ErrorObject
  | .error e => e
  | .other text => { message := text }

/-- A settled slot of `Promise.allSettled`. -/
inductive Settlement
  | fulfilled
  | rejected (reason : Reason)
  deriving DecidableEq

/-- The common rule for the code of a failed iteration or branch. -/
def resolveIterationErrorCode (passthroughCodes : List String) : Reason → String
  | .other _ => "UNKNOWN_ERROR"
  | .error e =>
    if e.name = "AbortError" then "AbortError"
    else
      match e.code with
      | some code => if code ∈ passthroughCodes then code else "UNKNOWN_ERROR"
      | none => "UNKNOWN_ERROR"

/-! ## 3. The run of the branches -/

structure ParallelState (L : Limiter) where
  limiter : L.State
  /-- `cancelController.signal.aborted`. -/
  aborted : Bool := false
  slots : Nat → Option Settlement := fun _ => none
  /-- The bodies that were started, latest first. -/
  started : List Nat := []
  /-- Every settlement with its branch, latest first. -/
  history : List (Nat × Settlement) := []

inductive ParallelEvent
  /-- The limiter calls the task: the branch context is built and the body starts. -/
  | start (i : Nat)
  /-- The limiter calls the task and `structuredClone(context.variables)` throws. -/
  | startFails (i : Nat) (reason : Reason)
  | fulfil (i : Nat)
  | reject (i : Nat) (reason : Reason)
  | upstreamAbort
  deriving DecidableEq

/-- Everything that is fixed for one call of `execute`. -/
structure ParallelCall where
  config : ParallelConfig
  parentParallelConcurrency : Option Rat := none
  /-- `context.abortSignal`: absent, or present and possibly aborted already. -/
  upstreamSignal : Option Bool := none

namespace ParallelCall

variable (call : ParallelCall) (L : Limiter)

def effectiveConcurrency : Nat := call.config.effectiveConcurrency call.parentParallelConcurrency

def hasCancelController : Bool := call.config.policy = .cancelOthersOnFail

/-- All tasks are handed to the limiter before the first of them is called. -/
def initial : ParallelState L where
  limiter := L.enqueueAll (List.range call.config.branches) (L.create call.effectiveConcurrency)
  aborted := call.hasCancelController && call.upstreamSignal = some true

variable {L}

/-- A task settles: its slot is filled and the limiter may go on. -/
def settle (s : ParallelState L) (i : Nat) (settlement : Settlement) : ParallelState L :=
  { s with
    limiter := L.settle s.limiter i
    slots := Function.update s.slots i (some settlement)
    history := (i, settlement) :: s.history }

def isRunning (s : ParallelState L) (i : Nat) : Bool := i ∈ s.started && (s.slots i).isNone

/-- The bodies that have started and not settled. -/
def running (s : ParallelState L) : List Nat := s.started.filter fun i => (s.slots i).isNone

def step (s : ParallelState L) : ParallelEvent → Option (ParallelState L)
  | .start i =>
    (L.call s.limiter i).map fun limiter => { s with limiter, started := i :: s.started }
  | .startFails i reason =>
    (L.call s.limiter i).map fun limiter => settle { s with limiter } i (.rejected reason)
  | .fulfil i => if isRunning s i then some (settle s i .fulfilled) else none
  | .reject i reason =>
    if isRunning s i then
      -- the first failure aborts the group; an aborted group stays so
      some (settle { s with aborted := s.aborted || call.hasCancelController } i (.rejected reason))
    else none
  | .upstreamAbort =>
    if call.hasCancelController && call.upstreamSignal.isSome then some { s with aborted := true }
    else none

def run (s : ParallelState L) : List ParallelEvent → Option (ParallelState L)
  | [] => some s
  | event :: events => (call.step s event).bind fun s' => run s' events

end ParallelCall

/-! ## 4. The end of the run -/

structure BranchFailure where
  branchIndex : Nat
  error : ErrorObject
  code : String
  deriving DecidableEq

structure ParallelResult where
  settled : List Settlement
  failures : List BranchFailure
  clampedConcurrency : Option ClampedConcurrency

/-- `throw f.error` for one of the failures, or a normal return. -/
inductive ParallelOutcome
  | throws (f : BranchFailure)
  | returns (result : ParallelResult)

def branchFailure (passthroughCodes : List String) (i : Nat) : Settlement → Option BranchFailure
  | .fulfilled => none
  | .rejected reason => some {
      branchIndex := i
      error := reason.toError
      code := resolveIterationErrorCode passthroughCodes reason }

/-- The failures in the order of their branches. -/
def branchFailures (passthroughCodes : List String) (settled : List Settlement) :
    List BranchFailure :=
  settled.zipIdx.filterMap fun slot => branchFailure passthroughCodes slot.2 slot.1

/-- `failures.find((f) => f.error.name !== 'AbortError')?.error ?? failures[0].error`. -/
def rootCause (failures : List BranchFailure) : Option BranchFailure :=
  (failures.find? fun f => f.error.name ≠ "AbortError").or failures.head?

/-- What `execute` does once every promise has settled. -/
def conclude (call : ParallelCall) (passthroughCodes : List String) (settled : List Settlement) :
    ParallelOutcome :=
  let failures := branchFailures passthroughCodes settled
  match failures.find? fun f => f.error.cancelled with
  | some cancellation => .throws cancellation
  | none =>
    let thrown :=
      match call.config.policy with
      | .stop => failures.head?
      | .cancelOthersOnFail => rootCause failures
      | .«continue» => none
    match thrown with
    | some f => .throws f
    | none => .returns {
        settled
        failures
        clampedConcurrency := call.config.clampedConcurrency call.parentParallelConcurrency }

namespace ParallelState

variable {L : Limiter}

/-- `Promise.allSettled` resolves once every slot is filled. -/
def settled (call : ParallelCall) (s : ParallelState L) : Option (List Settlement) :=
  (List.range call.config.branches).mapM s.slots

/-- The rejections in the order of time. -/
def failures (s : ParallelState L) : List (Nat × Reason) :=
  s.history.reverse.filterMap fun entry =>
    match entry.2 with
    | .fulfilled => none
    | .rejected reason => some (entry.1, reason)

end ParallelState

end Clemvion.Engine
