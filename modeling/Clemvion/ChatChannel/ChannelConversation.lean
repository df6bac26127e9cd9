import Clemvion.Js.JsonText
import Clemvion.Library.Interleaving

/-!
# ChannelConversation — the stored state of one conversation and what writes it

`ChannelConversationService` on the one key of a `(triggerId, conversationKey)`, and the requests
that use it: the dispatcher's handling of a form that waits and of an execution that ends, and the
start of a new execution from a message.  Each Redis command is one statement.  Its expiry and its
errors are left out.
-/

namespace Clemvion.ChatChannel

open Clemvion.Js Clemvion.Library Program

/-! ## 1. The key -/

/-- The properties of a `ChannelConversationState`. -/
abbrev State := List (String × Value)

/-- What an upsert comes from, and for a form how often the conversation had been re-pointed when
the state was read. -/
inductive Writer
  | form (executionId : String) (seen : Nat)
  | link (executionId : String)
  deriving DecidableEq

/-- The text under the key.  The rest is history: how often a link or a compare-and-set has
re-pointed the conversation, the executions it has been linked to, and the execution whose form
event wrote the form state. -/
structure Store where
  value : Option String
  repoints : Nat
  linked : List String
  formOwner : Option String
  deriving DecidableEq

/-- The fields of a state whose `executionId` is `executionId`; only an object has one. -/
def stateOf (executionId : String) : Value → Option State
  | .obj fields => if (Value.obj fields).field "executionId" = .str executionId then some fields else none
  | _ => none

/-- A property that is a string. -/
def string? : Value → Option String
  | .str s => some s
  | _ => none

/-- The execution that a stored text points to. -/
def executionIdOf (raw : String) : Option String :=
  (JsonText.parse raw).bind fun state => string? (state.field "executionId")

def Store.PointsTo (s : Store) (executionId : String) : Prop :=
  s.value.bind executionIdOf = some executionId

instance (s : Store) (executionId : String) : Decidable (s.PointsTo executionId) :=
  inferInstanceAs (Decidable (_ = _))

/-! ## 2. Statements -/

/-- A reply of `get`, and the clock after it. -/
structure Seen where
  raw : Option String
  repoints : Nat
  now : String

inductive Statement
  | get
  | set (writer : Writer) (state : State)
  | compareAndSet (raw : String) (state : State)

abbrev Statement.Reply : Statement → Type
  | .get => Seen
  | .set .. => Unit
  | .compareAndSet .. => Bool

def text (state : State) : String := JsonText.stringify (.obj state)

/-- What the statement leaves of the store. -/
def Statement.write (s : Store) : Statement → Store
  | .get => s
  | .set (.form executionId _) state =>
    { s with value := some (text state), formOwner := some executionId }
  | .set (.link executionId) state =>
    { value := some (text state)
      repoints := s.repoints + 1
      linked := executionId :: s.linked
      formOwner := none }
  | .compareAndSet raw state =>
    if s.value = some raw then { s with value := some (text state), repoints := s.repoints + 1 }
    else s

def Statement.exec : (q : Statement) → String → Store → q.Reply × Store
  | .get, now, s => (⟨s.value, s.repoints, now⟩, s)
  | .set writer state, _, s => ((), write s (.set writer state))
  | .compareAndSet raw state, _, s =>
    (decide (s.value = some raw), write s (.compareAndSet raw state))

theorem Statement.exec_snd (q : Statement) (now : String) (s : Store) :
    (q.exec now s).2 = q.write s := by
  cases q <;> rfl

abbrev Service (α : Type) := Program Statement.Reply Empty α

/-! ## 3. Requests -/

/-- `pendingFormModal` without its node, as `extractFormFields` and `extractFormTitle` make it. -/
structure FormModal where
  fields : Value
  title : Option String
  hasText : JsonText.HasText fields

/-- The node whose form waits, and its modal when the renderer gave a `form_modal` message. -/
structure WaitingForm where
  nodeId : String
  modal : Option FormModal

/-- Both a missing key and an empty text are no state. -/
def given (raw : Option String) : Option String := raw.filter (· ≠ "")

/-- `lookup`, after its `get`: a text that cannot be parsed is no state either. -/
def lookup (raw : Option String) : Option Value := (given raw).bind JsonText.parse

def pendingFormModal (nodeId : String) (modal : FormModal) : Value :=
  .obj ([("nodeId", .str nodeId), ("fields", modal.fields)] ++
    match modal.title with
    | some title => [("title", .str title)]
    | none => [])

def initialFormState (nodeId : String) : Value :=
  .obj [("nodeId", .str nodeId), ("currentFieldIdx", .num (.finite 0)), ("partialFormData", .obj [])]

/-- The state after the form: it has a modal or a form state, never both. -/
def withForm (form : WaitingForm) (now : String) (state : State) : State :=
  let mode :=
    match form.modal with
    | some modal =>
      Value.setKey (Value.setKey state "pendingFormModal" (pendingFormModal form.nodeId modal))
        "formState" .undefined
    | none =>
      Value.setKey (Value.setKey state "pendingFormModal" .undefined)
        "formState" (initialFormState form.nodeId)
  Value.setKey mode "lastUpdateAt" (.str now)

/-- The dispatcher on `execution.waiting_for_input` of a form node. -/
def formWaiting (executionId : String) (form : WaitingForm) : Service Unit := do
  let seen ← send (Q := Statement) .get
  match (lookup seen.raw).bind (stateOf executionId) with
  | some state =>
    send (Q := Statement) (.set (.form executionId seen.repoints) (withForm form seen.now state))
  | none => pure ()

/-- The state without its execution. -/
def cleared (now : String) (state : State) : State :=
  Value.setKey (Value.setKey state "executionId" .null) "lastUpdateAt" (.str now)

def compareAndSetMaxAttempts : Nat := 3

/-- `clearExecutionIdIfMatches`, with as many attempts left. -/
def clearAttempts (executionId : String) : Nat → Service Bool
  | 0 => pure false
  | attempts + 1 => do
    let seen ← send (Q := Statement) .get
    match given seen.raw with
    | none => pure false
    | some raw =>
      match (JsonText.parse raw).bind (stateOf executionId) with
      | none => pure false
      | some state =>
        let swapped ← send (Q := Statement) (.compareAndSet raw (cleared seen.now state))
        if swapped then pure true else clearAttempts executionId attempts

def clearExecutionIdIfMatches (executionId : String) : Service Bool :=
  clearAttempts executionId compareAndSetMaxAttempts

/-- `state?.startedAt ?? now`. -/
def startedAt (state : Option Value) (now : String) : Value :=
  match (state.getD .undefined).field "startedAt" with
  | .undefined | .null => .str now
  | startedAt => startedAt

def freshState (executionId channelUserKey : String) (state : Option Value) (now : String) : State :=
  [("executionId", .str executionId), ("threadId", .str "default"),
    ("channelUserKey", .str channelUserKey), ("startedAt", startedAt state now),
    ("lastUpdateAt", .str now)]

/-- A message that starts an execution links the conversation to it. -/
def startExecution (executionId channelUserKey : String) : Service Unit := do
  let seen ← send (Q := Statement) .get
  send (Q := Statement) (.set (.link executionId)
    (freshState executionId channelUserKey (lookup seen.raw) seen.now))

inductive Request
  | formWaiting (executionId : String) (form : WaitingForm)
  | terminal (executionId : String)
  | startExecution (executionId channelUserKey : String)

/-- The execution whose event the request handles. -/
def Request.eventOf : Request → Option String
  | .formWaiting executionId _ | .terminal executionId => some executionId
  | .startExecution .. => none

def program : Request → Service Unit
  | .formWaiting executionId form => formWaiting executionId form
  | .terminal executionId => do
    let _ ← clearExecutionIdIfMatches executionId
    pure ()
  | .startExecution executionId channelUserKey => startExecution executionId channelUserKey

def server : Server Statement Statement.Reply Empty Store String Request where
  exec := Statement.exec
  program := program

abbrev World := Clemvion.Library.World Statement.Reply Empty Store Request

end Clemvion.ChatChannel
