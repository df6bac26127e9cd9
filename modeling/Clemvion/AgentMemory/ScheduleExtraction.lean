import Mathlib.Algebra.Order.Floor.Ring
import Mathlib.Data.Rat.Floor
import Clemvion.Conversation.ConversationThread

/-!
# ScheduleExtraction — the turns that are handed to memory extraction

`scheduleMemoryExtraction` offers the turns behind a watermark to a queue and moves the watermark
only when the queue takes them.  The watermark lives in the resume state and is threaded from one
call to the next; turns are appended and the oldest evicted in between.
-/

open Clemvion.Js Clemvion.Js.Value Clemvion.Conversation

namespace Clemvion.AgentMemory

/-! ## 1. The call -/

/-- What extraction reads of a turn; `seq` counts up from zero. -/
structure ConversationTurn where
  seq : Nat
  source : ConversationTurnSource
  text : String
  nodeLabel : String
  deriving DecidableEq

structure ExtractionTurnSnapshot where
  source : ConversationTurnSource
  text : String
  nodeLabel : String
  deriving DecidableEq

def ConversationTurn.snapshot (t : ConversationTurn) : ExtractionTurnSnapshot :=
  { source := t.source, text := t.text, nodeLabel := t.nodeLabel }

/-- The arguments of `scheduleExtraction`. -/
structure ExtractionJob where
  workspaceId : String
  scopeKey : String
  llmConfigId : Value
  model : Value
  extractionModelConfigId : Value
  embeddingModelConfigId : Value
  turns : List ExtractionTurnSnapshot
  ttlDays : Option Int
  deriving DecidableEq

/-- `scheduleExtraction` answers whether the queue took the job. -/
structure AgentMemoryScheduler where
  resolveScopeKey : Value → String → String
  scheduleExtraction : ExtractionJob → Bool

/-- `τ` is the holder of a thread. -/
structure ScheduleMemoryExtractionDeps (τ : Type) where
  agentMemoryService : Option AgentMemoryScheduler
  /-- `getThread(target).turns` -/
  conversationThreadService : Option (τ → List ConversationTurn)

structure ScheduleMemoryExtractionArgs (τ : Type) where
  strategy : String
  target : Option τ
  config : Value
  workspaceId : String
  executionId : String
  lastExtractionTurnSeq : Option Number := none

/-- `toNumber` is `Number` on texts. -/
def resolveMemoryTtlDays (toNumber : String → Number) (raw : Value) : Option Int :=
  let n := match raw with
    | .num n => n
    | .str s => toNumber s
    | _ => .nan
  match n with
  | .finite q => if q ≤ 0 then none else some ⌊q⌋
  | _ => none

/-- `readExtractionWatermark`: the namespace first, the flat key of older states after it. -/
def readExtractionWatermark (resumeState : Value) : Option Number :=
  match (resumeState.field "memoryState").field "lastExtractionTurnSeq" with
  | .num n => some n
  | _ =>
    match resumeState.field "lastExtractionTurnSeq" with
    | .num n => some n
    | _ => none

/-- The turns behind the watermark, all of them without one. -/
def freshTurns (prevWatermark : Option Number) (turns : List ConversationTurn) :
    List ConversationTurn :=
  match prevWatermark with
  | none => turns
  | some watermark => turns.filter fun t => watermark.lt (.finite t.seq)

/-- `fresh.reduce((m, t) => (t.seq > m ? t.seq : m), prevWatermark ?? -1)` -/
def maxSeq (prevWatermark : Option Number) (fresh : List ConversationTurn) : Number :=
  fresh.foldl (fun m t => if m.lt (.finite t.seq) then .finite t.seq else m)
    (prevWatermark.getD (.finite (-1)))

section Schedule

variable {τ : Type} (toNumber : String → Number)

/-- The returned watermark, and the turns with their job where the queue took one. -/
def scheduleMemoryExtraction (deps : ScheduleMemoryExtractionDeps τ)
    (args : ScheduleMemoryExtractionArgs τ) :
    Option Number × Option (List ConversationTurn × ExtractionJob) :=
  let prevWatermark := args.lastExtractionTurnSeq
  match deps.agentMemoryService with
  | none => (prevWatermark, none)
  | some agentMemoryService =>
    if args.strategy ≠ "persistent" then (prevWatermark, none)
    else
      match deps.conversationThreadService, args.target with
      | some getThread, some target =>
        let scopeKey :=
          agentMemoryService.resolveScopeKey (args.config.field "memoryKey") args.executionId
        let fresh := freshTurns prevWatermark (getThread target)
        if fresh = [] then (prevWatermark, none)
        else
          let job : ExtractionJob :=
            { workspaceId := args.workspaceId
              scopeKey
              llmConfigId := args.config.field "llmConfigId"
              model := args.config.field "model"
              extractionModelConfigId := args.config.field "extractionModelConfigId"
              embeddingModelConfigId := args.config.field "embeddingModelConfigId"
              turns := fresh.map ConversationTurn.snapshot
              ttlDays := resolveMemoryTtlDays toNumber (args.config.field "memoryTtlDays") }
          if agentMemoryService.scheduleExtraction job then
            (some (maxSeq prevWatermark fresh), some (fresh, job))
          else (prevWatermark, none)
      | _, _ => (prevWatermark, none)

/-- The watermark in the resume state of the next turn; without one the state stays as it is. -/
def persistWatermark (state : Value) : Option Number → Value
  | none => state
  | some nextExtractionSeq =>
    let memoryState := if (state.field "memoryState").isObject then
        spread [] (state.field "memoryState")
      else []
    .obj (setKey (spread [] state) "memoryState"
      (.obj (setKey memoryState "lastExtractionTurnSeq" (.num nextExtractionSeq))))

/-- Nothing is accepted without a new watermark, and a refusal keeps the old one. -/
theorem scheduleMemoryExtraction_cases (deps : ScheduleMemoryExtractionDeps τ)
    (args : ScheduleMemoryExtractionArgs τ) :
    scheduleMemoryExtraction toNumber deps args = (args.lastExtractionTurnSeq, none) ∨
    ∃ getThread target fresh job, deps.conversationThreadService = some getThread ∧
      args.target = some target ∧
      fresh = freshTurns args.lastExtractionTurnSeq (getThread target) ∧ fresh ≠ [] ∧
      job.turns = fresh.map ConversationTurn.snapshot ∧
      scheduleMemoryExtraction toNumber deps args =
        (some (maxSeq args.lastExtractionTurnSeq fresh), some (fresh, job)) := by
  unfold scheduleMemoryExtraction
  cases hservice : deps.agentMemoryService with
  | none => exact Or.inl rfl
  | some agentMemoryService =>
    dsimp only
    split
    case isTrue => exact Or.inl rfl
    case isFalse =>
      split
      case h_2 => exact Or.inl rfl
      case h_1 getThread target hthread htarget =>
        split
        case isTrue => exact Or.inl rfl
        case isFalse hfresh =>
          split
          case isFalse => exact Or.inl rfl
          case isTrue =>
            exact Or.inr ⟨getThread, target, _, _, hthread, htarget, rfl, hfresh, rfl, rfl⟩

/-- What is stored is read back. -/
theorem readExtractionWatermark_persistWatermark {state : Value} {next : Option Number}
    (h : next = none → readExtractionWatermark state = none) :
    readExtractionWatermark (persistWatermark state next) = next := by
  cases next with
  | none => exact h rfl
  | some n =>
    unfold readExtractionWatermark persistWatermark
    simp only [field_setKey, if_true]

end Schedule

end Clemvion.AgentMemory
