import Mathlib.Algebra.Ring.Int.Defs
import Clemvion.Js.Properties
import Clemvion.Js.Text

/-!
# ConversationThread — the turns of an execution, appended, parked and restored

`ConversationThreadService` is the only writer of a thread: it appends turns, evicts the oldest
beyond `STORAGE_MAX_TURNS` and keeps two counters.  A parked execution stores the thread in a JSON
column; `rehydrateConversationThread` rebuilds it from whatever that column holds.
-/

open Clemvion.Js Clemvion.Js.Value

namespace Clemvion.Conversation

/-! ## 1. Turns and threads -/

inductive ConversationTurnSource
  | presentationUser | aiUser | aiAssistant | aiTool | system
  deriving DecidableEq, Repr

def ConversationTurnSource.text : ConversationTurnSource → String
  | .presentationUser => "presentation_user"
  | .aiUser => "ai_user"
  | .aiAssistant => "ai_assistant"
  | .aiTool => "ai_tool"
  | .system => "system"

def conversationTurnSources : List String :=
  ["presentation_user", "ai_user", "ai_assistant", "ai_tool", "system"]

def maxRunningSummaryChars : Nat := 20000

def storageMaxTurns : Nat := 500

def defaultThreadId : String := "default"

/-- A turn is the object it is stored as: a restored one may carry any further properties. -/
structure ConversationThread where
  id : String := defaultThreadId
  nextSeq : Number := .finite 0
  turns : List Value := []
  totalChars : Int := 0
  runningSummary : Option String := none
  summarizedUpToSeq : Option Number := none

/-- `turn.seq`. -/
def seqOf (turn : Value) : Number :=
  match turn.field "seq" with
  | .num n => n
  | _ => .nan

/-- `turn.text.length`. -/
def textLength (turn : Value) : Nat :=
  match turn.field "text" with
  | .str s => utf16Length s
  | _ => 0

def sumChars (turns : List Value) : Int := (turns.map fun turn => (textLength turn : Int)).sum

/-! ## 2. Appending -/

structure NodeRef where
  id : String
  label : String
  type : String
  config : Value := .undefined

def isOptedOut (node : NodeRef) : Bool :=
  node.config.field "excludeFromConversationThread" = .bool true

/-- `AppendBaseArgs`; an absent optional field is `undefined`. -/
structure AppendArgs where
  node : NodeRef
  source : ConversationTurnSource
  text : String
  timestamp : Option String := none
  data : Value := .undefined
  toolCalls : Value := .undefined
  toolCallId : Value := .undefined
  presentations : Value := .undefined

/-- The turn object; `now` is the clock, read when the caller gives no timestamp. -/
def buildTurn (seq : Number) (args : AppendArgs) (now : String) : Value :=
  .obj ([("seq", .num seq),
    ("nodeId", .str args.node.id),
    ("nodeLabel", .str (if args.node.label = "" then args.node.id else args.node.label)),
    ("nodeType", .str args.node.type),
    ("timestamp", .str (args.timestamp.getD now)),
    ("source", .str args.source.text),
    ("text", .str args.text)] ++
    (presentField "data" args.data ++ presentField "toolCalls" args.toolCalls ++
      presentField "toolCallId" args.toolCallId ++ presentField "presentations" args.presentations))

def appendInternal (thread : ConversationThread) (args : AppendArgs) (now : String) :
    ConversationThread :=
  if isOptedOut args.node then thread
  else
    let seq := thread.nextSeq
    let turns := thread.turns ++ [buildTurn seq args now]
    let totalChars := thread.totalChars + utf16Length args.text
    if turns.length > storageMaxTurns then
      let drop := turns.length - storageMaxTurns
      { thread with
        turns := turns.drop drop
        nextSeq := seq.succ
        totalChars := totalChars - sumChars (turns.take drop) }
    else { thread with turns, nextSeq := seq.succ, totalChars }

/-- The four `append*` methods with their arguments. -/
inductive AppendCall
  | presentationInteraction (node : NodeRef) (type : String) (data : Value) (receivedAt : String)
  | aiUserMessage (node : NodeRef) (content : String) (timestamp : Option String)
  | aiAssistantMessage (node : NodeRef) (content : String) (toolCalls : Option (List Value))
      (timestamp : Option String) (presentations : Option (List Value))
  | aiToolResult (node : NodeRef) (toolCallId content : String) (timestamp : Option String)

/-- `renderInteractionText`, from the type and the data of an interaction. -/
abbrev InteractionRenderer := String → Value → String

def AppendCall.args (renderInteractionText : InteractionRenderer) : AppendCall → AppendArgs
  | .presentationInteraction node type data receivedAt =>
    { node, source := .presentationUser, text := renderInteractionText type data,
      timestamp := some receivedAt, data }
  | .aiUserMessage node content timestamp =>
    { node, source := .aiUser, text := content, timestamp }
  | .aiAssistantMessage node content toolCalls timestamp presentations =>
    { node, source := .aiAssistant, text := content, timestamp
      toolCalls := (toolCalls.map Value.arr).getD .undefined
      presentations :=
        match presentations with
        | some (p :: ps) => .arr (p :: ps)
        | _ => .undefined }
  | .aiToolResult node toolCallId content timestamp =>
    { node, source := .aiTool, text := content, timestamp, toolCallId := .str toolCallId }

def updateSummaryState (thread : ConversationThread) (runningSummary : Option String)
    (summarizedUpToSeq : Option Number) : ConversationThread :=
  { thread with runningSummary, summarizedUpToSeq }

/-! ## 3. Parking and restoring -/

/-- The object that `cloneThread` stages for the `conversation_thread` column. -/
def ConversationThread.toValue (thread : ConversationThread) : Value :=
  .obj [("id", .str thread.id), ("nextSeq", .num thread.nextSeq), ("turns", .arr thread.turns),
    ("totalChars", .num (.finite thread.totalChars)),
    ("runningSummary", (thread.runningSummary.map Value.str).getD .undefined),
    ("summarizedUpToSeq", (thread.summarizedUpToSeq.map Value.num).getD .undefined)]

/-- The minimal check of a stored turn. -/
def isConversationTurn (t : Value) : Bool :=
  if !t.truthy || !t.isObject then false
  else
    let seqOk :=
      match t.field "seq" with
      | .num seq => seq.isInteger && !seq.lt (.finite 0)
      | _ => false
    let sourceOk :=
      match t.field "source" with
      | .str source => decide (source ∈ conversationTurnSources)
      | _ => false
    let textOk :=
      match t.field "text" with
      | .str _ => true
      | _ => false
    seqOk && sourceOk && textOk

/-- The stored counter, where it is a number not below the number of surviving turns. -/
def storedNextSeq (raw : Value) (count : Nat) : Option Number :=
  match raw.field "nextSeq" with
  | .num stored => if Number.le (.finite count) stored then some stored else none
  | _ => none

def trimSummary (summary : String) : String :=
  if utf16Length summary > maxRunningSummaryChars then sliceUnits summary maxRunningSummaryChars
  else summary

def rehydrateConversationThread (raw : Value) : ConversationThread :=
  if !raw.truthy || !raw.isObject then {}
  else
    match raw.field "turns" with
    | .arr items =>
      let turns := items.filter isConversationTurn
      { id := match raw.field "id" with
          | .str id => id
          | _ => defaultThreadId
        nextSeq := (storedNextSeq raw turns.length).getD (.finite turns.length)
        turns
        totalChars := sumChars turns
        runningSummary := match raw.field "runningSummary" with
          | .str summary => some (trimSummary summary)
          | _ => none
        summarizedUpToSeq := match raw.field "summarizedUpToSeq" with
          | .num seq => some seq
          | _ => none }
    | _ => {}

/-- A park and a resume: the thread goes through its JSON column. -/
def parkAndResume (thread : ConversationThread) : ConversationThread :=
  rehydrateConversationThread (jsonRoundTrip thread.toValue)

/-! ## 4. Runs -/

inductive ThreadOp
  | append (call : AppendCall) (now : String)
  | updateSummary (runningSummary : Option String) (summarizedUpToSeq : Option Number)
  | snapshot

variable (renderInteractionText : InteractionRenderer)

def ThreadOp.apply (thread : ConversationThread) : ThreadOp → ConversationThread
  | .append call now => appendInternal thread (call.args renderInteractionText) now
  | .updateSummary runningSummary summarizedUpToSeq =>
    updateSummaryState thread runningSummary summarizedUpToSeq
  | .snapshot => parkAndResume thread

def runThread (ops : List ThreadOp) (thread : ConversationThread) : ConversationThread :=
  ops.foldl (ThreadOp.apply renderInteractionText) thread

def ThreadOp.isSnapshot : ThreadOp → Bool
  | .snapshot => true
  | _ => false

/-- The same calls on a thread that is never parked. -/
def withoutSnapshots (ops : List ThreadOp) : List ThreadOp := ops.filter fun op => !op.isSnapshot

end Clemvion.Conversation
