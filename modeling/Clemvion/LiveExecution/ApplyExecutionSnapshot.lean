import Clemvion.LiveExecution.ExecutionStore

/-!
# ApplyExecutionSnapshot — a snapshot of the server written into the store

`apply-execution-snapshot.ts`.  The rows come first, in the order of their start; then the status
of the execution decides whether the store ends, resumes, starts or waits.
-/

open Clemvion.Js

namespace Clemvion.LiveExecution

/-! ## 1. Snapshots -/

inductive ServerExecutionStatus
  | pending | running | completed | failed | cancelled | waitingForInput
  deriving DecidableEq, Repr

inductive ServerNodeStatus
  | pending | running | completed | failed | cancelled | skipped | waitingForInput
  deriving DecidableEq, Repr

structure NodeReference where
  type : String
  label : String

structure NodeExecutionData where
  id : String
  nodeId : String
  status : ServerNodeStatus
  startedAt : Option String := none
  durationMs : Option Number := none
  inputData : Value := .undefined
  outputData : Value := .null
  errorMessage : Option String := none
  parentNodeExecutionId : Option String := none
  node : Option NodeReference := none
  /-- Two fields of other response shapes. -/
  nodeType : Option String := none
  type : Option String := none

/-- A view of an execution.  Its rows come from a table whose primary key is their id. -/
structure ExecutionData where
  id : String
  status : ServerExecutionStatus
  errorMessage : Option String := none
  startedAt : Option String := none
  nodeExecutions : Option (List NodeExecutionData) := none
  named : ∀ rows ∈ nodeExecutions, ∀ ne ∈ rows, ne.id ≠ "" := by simp
  distinct : ∀ rows ∈ nodeExecutions, (rows.map (·.id)).Nodup := by simp

def ExecutionData.rows (execution : ExecutionData) : List NodeExecutionData :=
  execution.nodeExecutions.getD []

theorem ExecutionData.id_ne_empty {execution : ExecutionData} {ne : NodeExecutionData}
    (h : ne ∈ execution.rows) : ne.id ≠ "" := by
  unfold ExecutionData.rows at h
  cases hrows : execution.nodeExecutions with
  | none => simp [hrows] at h
  | some rows =>
    rw [hrows] at h
    exact execution.named rows hrows ne h

theorem ExecutionData.nodup_ids (execution : ExecutionData) :
    (execution.rows.map (·.id)).Nodup := by
  unfold ExecutionData.rows
  cases hrows : execution.nodeExecutions with
  | none => exact List.nodup_nil
  | some rows => exact execution.distinct rows hrows

/-- `TERMINAL_SERVER_EXECUTION_STATUSES`. -/
def isTerminalServerExecutionStatus (status : ServerExecutionStatus) : Bool :=
  status = .completed || status = .failed || status = .cancelled

/-- The status column and the status in the output, which is written first. -/
def isNodeWaitingForInput (ne : NodeExecutionData) : Bool :=
  match ne.status with
  | .waitingForInput => true
  | .running | .pending => ne.outputData.field "status" = .str "waiting_for_input"
  | _ => false

def mapNodeStatus : ServerNodeStatus → NodeExecutionStatus
  | .running => .running
  | .completed => .completed
  | .failed => .failed
  | .skipped => .skipped
  | .waitingForInput => .waitingForInput
  | _ => .pending

def incomingStatus (ne : NodeExecutionData) : NodeExecutionStatus :=
  if isNodeWaitingForInput ne then .waitingForInput else mapNodeStatus ne.status

/-- `STATUS_PRIORITY[status] ?? 0`. -/
def statusPriority : NodeExecutionStatus → Nat
  | .pending | .cancelled => 0
  | .running => 1
  | .waitingForInput => 2
  | .completed | .failed | .skipped => 3

def shouldUpdateStatus (current : Option NodeExecutionStatus) (incoming : NodeExecutionStatus) :
    Bool :=
  current.all fun current => statusPriority current ≤ statusPriority incoming

/-! ## 2. The rows -/

/-- Functions of other modules. -/
structure SnapshotDeps (μ : Type) where
  getCategoryForType : String → String
  parseHistoryMessages : Value → List μ

section Snapshot

variable {μ : Type} (deps : SnapshotDeps μ)

def resultOf (ne : NodeExecutionData) : NodeResult where
  nodeExecutionId := some ne.id
  parentNodeExecutionId := ne.parentNodeExecutionId
  nodeId := ne.nodeId
  nodeLabel := (ne.node.map (·.label)).getD ne.nodeId
  nodeType := (ne.node.map (·.type)).getD "unknown"
  nodeCategory := deps.getCategoryForType ((ne.node.map (·.type)).getD "unknown")
  status := incomingStatus ne
  duration := ne.durationMs
  error := ne.errorMessage
  outputData := ne.outputData
  inputData := ne.inputData
  startedAt := ne.startedAt

def applyNodeStatus (ne : NodeExecutionData) (state : ExecutionState μ) : ExecutionState μ :=
  if shouldUpdateStatus ((state.nodeStatuses ne.nodeId).map (·.status)) (incomingStatus ne) then
    updateNodeStatus ne.nodeId
      { status := incomingStatus ne, duration := ne.durationMs, error := ne.errorMessage } state
  else state

/-- One turn of the loop over the sorted rows. -/
def applyRow (state : ExecutionState μ) (ne : NodeExecutionData) : ExecutionState μ :=
  addNodeResult (resultOf deps ne) (applyNodeStatus ne state)

def sortedByStart (rows : List NodeExecutionData) : List NodeExecutionData :=
  rows.mergeSort fun a b => !lessThan (b.startedAt.getD "") (a.startedAt.getD "")

def applyRows (execution : ExecutionData) (state : ExecutionState μ) : ExecutionState μ :=
  (sortedByStart execution.rows).foldl (applyRow deps) state

/-! ## 3. Waiting -/

def inferInteractionTypeFromNodeType (nodeType : Option String) : Value :=
  match given nodeType with
  | none => .undefined
  | some nodeType =>
    if nodeType = "form" then .str "form"
    else if nodeType ∈ ["carousel", "chart", "table", "template"] then .str "buttons"
    else if nodeType ∈ ["ai_agent", "information_extractor"] then .str "ai_conversation"
    else .undefined

/-- `{ config, output, … }`. -/
def isStructured (raw : Value) : Bool := raw.isObject && raw.hasField "config" && raw.hasField "output"

/-- The five places of an interaction type. -/
def interactionTypeOf (ne : NodeExecutionData) : Value :=
  let raw := ne.outputData
  let metaField := if isStructured raw then raw.field "meta" else .undefined
  let envelopeOutput := if isStructured raw then raw.field "output" else .undefined
  let fallbackNodeType := ne.node.map (·.type) <|> ne.nodeType <|> ne.type
  coalesce (metaField.field "interactionType")
    (coalesce (envelopeOutput.field "interactionType")
      (coalesce (raw.field "interactionType")
        (if raw.field "type" = .str "form" then .str "form"
        else inferInteractionTypeFromNodeType fallbackNodeType)))

/-- `merged[key] = result[key]`, when the value has the right type. -/
def mergedField (valid : Value → Bool) (key : String) (result : Value)
    (merged : List (String × Value)) : List (String × Value) :=
  if valid (result.field key) then Value.setKey merged key (result.field key) else merged

def isString : Value → Bool
  | .str _ => true
  | _ => false

def isNumber : Value → Bool
  | .num _ => true
  | _ => false

def isArray : Value → Bool
  | .arr _ => true
  | _ => false

def buildConvConfigFromStructured (raw : Value) : Value :=
  let handlerConfig := (coalesce (raw.field "config") (.obj [])).ownFields
  let result := (raw.field "output").field "result"
  if result.truthy then
    .obj (mergedField isArray "messages" result (mergedField isNumber "maxTurns" result
      (mergedField isNumber "turnCount" result (mergedField isString "message" result
        handlerConfig))))
  else .obj handlerConfig

/-- `setConversationMessages(parseHistoryMessages(raw))`, when there are none yet. -/
def seedConversationMessages (raw : Value) (state : ExecutionState μ) : ExecutionState μ :=
  if state.conversationMessages.isEmpty then
    match deps.parseHistoryMessages raw with
    | [] => state
    | items => setConversationMessages items state
  else state

def maybeSeedAiConversationMessages (ne : NodeExecutionData) (state : ExecutionState μ) :
    ExecutionState μ :=
  if ne.outputData.truthy && (state.waitingInteractionType = some .aiConversation ||
      state.waitingInteractionType = some .aiFormRender) then
    seedConversationMessages deps ne.outputData state
  else state

/-- `config` of the envelope, or the legacy field, or null. -/
def configOf (legacyKey : String) (ne : NodeExecutionData) : Value :=
  coalesce
    (if isStructured ne.outputData then ne.outputData.field "config"
    else ne.outputData.field legacyKey)
    .null

def convConfigOf (ne : NodeExecutionData) : Value :=
  coalesce
    (if isStructured ne.outputData then buildConvConfigFromStructured ne.outputData
    else ne.outputData.field "conversationConfig")
    .null

/-- A conversation, with or without a form in it. -/
def pauseForAi (ne : NodeExecutionData) (state : ExecutionState μ) : ExecutionState μ :=
  let paused := pauseForConversation ne.nodeId (convConfigOf ne) state
  seedConversationMessages deps ne.outputData
    (if interactionTypeOf ne = .str "ai_form_render" then
      { paused with waitingInteractionType := some .aiFormRender }
    else paused)

/-- The pause that a waiting row asks for. -/
def pauseForInteraction (ne : NodeExecutionData) (state : ExecutionState μ) : ExecutionState μ :=
  let interactionType := interactionTypeOf ne
  if interactionType = .str "ai_conversation" || interactionType = .str "ai_form_render" then
    pauseForAi deps ne state
  else if interactionType = .str "buttons" then
    pauseForButtons ne.nodeId (configOf "buttonConfig" ne) state
  else if interactionType = .str "form" then
    pauseForForm ne.nodeId (configOf "formConfig" ne) state
  else state

/-- The branch of a waiting execution. -/
def hydrateWaiting (execution : ExecutionData) (state : ExecutionState μ) : ExecutionState μ :=
  match execution.rows.find? isNodeWaitingForInput with
  | none => state
  | some waitingNode =>
    if given state.waitingNodeId = some waitingNode.nodeId then
      maybeSeedAiConversationMessages deps waitingNode state
    else if waitingNode.outputData.truthy then pauseForInteraction deps waitingNode state
    else state

/-! ## 4. The execution -/

/-- A live execution with a waiting row counts as waiting. -/
def reconcileToWaiting (execution : ExecutionData) : Bool :=
  !isTerminalServerExecutionStatus execution.status && execution.status ≠ .waitingForInput &&
    execution.rows.any isNodeWaitingForInput

def effectiveExecutionStatus (execution : ExecutionData) : ServerExecutionStatus :=
  if reconcileToWaiting execution then .waitingForInput else execution.status

/-- The resume that fits what the store waits for. -/
def resumeWaiting (state : ExecutionState μ) : ExecutionState μ :=
  match state.waitingInteractionType with
  | some .aiConversation | some .aiFormRender => resumeFromConversation state
  | some .buttons => resumeFromButtons state
  | _ => resumeFromForm state

/-- What follows the rows; `now` is `new Date().toISOString()`. -/
def applyExecutionStatus (now : String) (execution : ExecutionData) (state : ExecutionState μ) :
    ExecutionState μ :=
  if execution.status = .completed then completeExecution state
  else if execution.status = .failed then failExecution execution.errorMessage state
  else if execution.status = .cancelled then failExecution (some "Execution cancelled") state
  else if execution.status = .running && state.status = .waitingForInput then
    if execution.rows.any isNodeWaitingForInput then state else resumeWaiting state
  else if execution.status = .running && state.status = .idle && !reconcileToWaiting execution then
    { state with
      executionId := some execution.id
      status := .running
      startedAt := some (execution.startedAt.getD now) }
  else if effectiveExecutionStatus execution = .waitingForInput then
    hydrateWaiting deps execution state
  else state

/-- A call, with what `isCancelled` returns at it and the time. -/
structure SnapshotCall where
  execution : Option ExecutionData
  isCancelled : Bool := false
  now : String

def applyExecutionSnapshot (state : ExecutionState μ) (call : SnapshotCall) : ExecutionState μ :=
  match call.execution with
  | none => state
  | some execution =>
    if call.isCancelled then state
    else applyExecutionStatus deps call.now execution (applyRows deps execution state)

end Snapshot

end Clemvion.LiveExecution
