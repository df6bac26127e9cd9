import Mathlib.Logic.Function.Basic
import Clemvion.Js.Text
import Clemvion.Js.Value

/-!
# ExecutionStore — the client's view of one execution

`execution-store.ts`: the status of the execution, the last status of every node, one row per node
execution with the maps that find it, and what the screen shows while the execution waits.
-/

open Clemvion.Js

namespace Clemvion.LiveExecution

/-! ## 1. The state -/

inductive ExecutionStatus
  | idle | running | completed | failed | waitingForInput
  deriving DecidableEq, Repr

inductive NodeExecutionStatus
  | pending | running | completed | failed | cancelled | skipped | waitingForInput
  deriving DecidableEq, Repr

structure NodeStatusInfo where
  status : NodeExecutionStatus
  duration : Option Number := none
  error : Option String := none
  deriving DecidableEq

/-- A row of the timeline. -/
structure NodeResult where
  nodeExecutionId : Option String := none
  nodeId : String
  nodeLabel : String
  nodeType : String
  nodeCategory : String
  status : NodeExecutionStatus
  duration : Option Number := none
  error : Option String := none
  outputData : Value
  inputData : Value := .undefined
  startedAt : Option String := none
  parentNodeExecutionId : Option String := none
  deriving DecidableEq

inductive WaitingInteractionType
  | form | buttons | aiConversation | aiFormRender
  deriving DecidableEq, Repr

/-- The store; `μ` is a message of a conversation. -/
structure ExecutionState (μ : Type) where
  executionId : Option String := none
  status : ExecutionStatus := .idle
  nodeStatuses : String → Option NodeStatusInfo := fun _ => none
  /-- In the order of arrival. -/
  nodeResults : List NodeResult := []
  nodeResultIndexByExecId : String → Option Nat := fun _ => none
  lastIndexByNodeId : String → Option Nat := fun _ => none
  firstNoExecIdIndexByNodeId : String → Option Nat := fun _ => none
  startedAt : Option String := none
  waitingNodeId : Option String := none
  waitingFormConfig : Value := .null
  waitingInteractionType : Option WaitingInteractionType := none
  waitingButtonConfig : Value := .null
  waitingConversationConfig : Value := .null
  conversationMessages : List μ := []
  isWaitingAiResponse : Bool := false
  selectedResultNodeId : Option String := none
  selectedConversationItemIndex : Option Nat := none

variable {μ : Type}

/-! ## 2. Rows -/

/-- `if (text)`, for an optional string. -/
def given (text : Option String) : Option String := text.filter (· ≠ "")

def updateNodeStatus (nodeId : String) (info : NodeStatusInfo) (state : ExecutionState μ) :
    ExecutionState μ :=
  { state with nodeStatuses := Function.update state.nodeStatuses nodeId (some info) }

/-- The index in a derived map, unless the row there is another one. -/
def validIndex (state : ExecutionState μ) (index : Option Nat) (valid : NodeResult → Bool) :
    Option Nat :=
  index.filter fun i => (state.nodeResults[i]?).any valid

/-- The row that an incoming one updates. -/
def targetIndex (state : ExecutionState μ) (result : NodeResult) : Option Nat :=
  match given result.nodeExecutionId with
  | some nodeExecutionId =>
    validIndex state (state.nodeResultIndexByExecId nodeExecutionId)
      (·.nodeExecutionId = some nodeExecutionId)
  | none => validIndex state (state.lastIndexByNodeId result.nodeId) (·.nodeId = result.nodeId)

/-- `value ?? fallback`. -/
def coalesce (value fallback : Value) : Value :=
  match value with
  | .undefined | .null => fallback
  | value => value

/-- The row `{ ...prev, ...result, … }` of an update. -/
def mergedResult (prev result : NodeResult) : NodeResult :=
  { result with
    nodeLabel := if result.nodeLabel = result.nodeId && prev.nodeLabel ≠ "" then prev.nodeLabel
      else result.nodeLabel
    nodeExecutionId := result.nodeExecutionId <|> prev.nodeExecutionId
    parentNodeExecutionId := result.parentNodeExecutionId <|> prev.parentNodeExecutionId
    startedAt := result.startedAt <|> prev.startedAt
    inputData := coalesce result.inputData prev.inputData }

/-- The update of the row at an index. -/
def updateResult (index : Nat) (prev result : NodeResult) (state : ExecutionState μ) :
    ExecutionState μ :=
  let merged := mergedResult prev result
  let state := { state with nodeResults := state.nodeResults.set index merged }
  match given merged.nodeExecutionId with
  | none => state
  | some nodeExecutionId =>
    { state with
      nodeResultIndexByExecId :=
        Function.update state.nodeResultIndexByExecId nodeExecutionId (some index)
      firstNoExecIdIndexByNodeId :=
        if given prev.nodeExecutionId = none &&
            state.firstNoExecIdIndexByNodeId prev.nodeId = some index then
          Function.update state.firstNoExecIdIndexByNodeId prev.nodeId none
        else state.firstNoExecIdIndexByNodeId }

/-- A new row at the end. -/
def appendResult (result : NodeResult) (state : ExecutionState μ) : ExecutionState μ :=
  let newIndex := state.nodeResults.length
  let state := { state with
    nodeResults := state.nodeResults ++ [result]
    lastIndexByNodeId := Function.update state.lastIndexByNodeId result.nodeId (some newIndex) }
  match given result.nodeExecutionId with
  | some nodeExecutionId =>
    { state with
      nodeResultIndexByExecId :=
        Function.update state.nodeResultIndexByExecId nodeExecutionId (some newIndex) }
  | none =>
    if state.firstNoExecIdIndexByNodeId result.nodeId = none then
      { state with
        firstNoExecIdIndexByNodeId :=
          Function.update state.firstNoExecIdIndexByNodeId result.nodeId (some newIndex) }
    else state

def addNodeResult (result : NodeResult) (state : ExecutionState μ) : ExecutionState μ :=
  match targetIndex state result with
  | none => appendResult result state
  | some index =>
    match state.nodeResults[index]? with
    | none => appendResult result state
    | some prev => updateResult index prev result state

/-- `findNodeResult` for a node execution id. -/
def findNodeResult (nodeExecutionId : String) (state : ExecutionState μ) : Option NodeResult :=
  (state.nodeResultIndexByExecId nodeExecutionId).bind fun index =>
    (state.nodeResults[index]?).filter (·.nodeExecutionId = some nodeExecutionId)

def latestResultIdForNode (results : List NodeResult) (nodeId : String) : String :=
  match results.filter (·.nodeId = nodeId) with
  | [] => nodeId
  | first :: candidates =>
    let latest := candidates.foldl (fun best r =>
      if lessThan (best.startedAt.getD "") (r.startedAt.getD "") then r else best) first
    latest.nodeExecutionId.getD nodeId

/-! ## 3. The execution -/

/-- `CLEAR_INPUT_AFFORDANCE`. -/
def clearInputAffordance (state : ExecutionState μ) : ExecutionState μ :=
  { state with
    waitingNodeId := none
    waitingFormConfig := .null
    waitingInteractionType := none
    waitingButtonConfig := .null
    waitingConversationConfig := .null
    isWaitingAiResponse := false
    selectedConversationItemIndex := none }

def completeExecution (state : ExecutionState μ) : ExecutionState μ :=
  { clearInputAffordance state with status := .completed }

/-- The key of the whole execution among the nodes. -/
def executionKey : String := "__execution__"

def failExecution (error : Option String) (state : ExecutionState μ) : ExecutionState μ :=
  let failed := { clearInputAffordance state with status := .failed }
  match given error, given state.executionId with
  | some error, some _ =>
    updateNodeStatus executionKey { status := .failed, error := some error } failed
  | _, _ => failed

/-- What the three `pauseFor` setters share. -/
def pauseFor (interactionType : WaitingInteractionType) (nodeId : String)
    (formConfig buttonConfig conversationConfig : Value) (state : ExecutionState μ) :
    ExecutionState μ :=
  { state with
    status := .waitingForInput
    waitingNodeId := some nodeId
    waitingFormConfig := formConfig
    waitingInteractionType := some interactionType
    waitingButtonConfig := buttonConfig
    waitingConversationConfig := conversationConfig
    selectedResultNodeId := some (latestResultIdForNode state.nodeResults nodeId) }

def pauseForForm (nodeId : String) (formConfig : Value) : ExecutionState μ → ExecutionState μ :=
  pauseFor .form nodeId formConfig .null .null

def pauseForButtons (nodeId : String) (buttonConfig : Value) :
    ExecutionState μ → ExecutionState μ :=
  pauseFor .buttons nodeId .null buttonConfig .null

def pauseForConversation (nodeId : String) (config : Value) (state : ExecutionState μ) :
    ExecutionState μ :=
  { pauseFor .aiConversation nodeId .null .null config state with isWaitingAiResponse := false }

/-- What the three `resumeFrom` setters are. -/
def resume (state : ExecutionState μ) : ExecutionState μ :=
  { clearInputAffordance state with status := .running }

def resumeFromForm : ExecutionState μ → ExecutionState μ := resume

def resumeFromButtons : ExecutionState μ → ExecutionState μ := resume

def resumeFromConversation : ExecutionState μ → ExecutionState μ := resume

def setConversationMessages (items : List μ) (state : ExecutionState μ) : ExecutionState μ :=
  { state with
    conversationMessages := items
    selectedConversationItemIndex := state.selectedConversationItemIndex.filter (· < items.length) }

/-- `selectStoreExecutionFinished`. -/
def storeExecutionFinished (state : ExecutionState μ) : Bool :=
  state.status = .completed || state.status = .failed

end Clemvion.LiveExecution
