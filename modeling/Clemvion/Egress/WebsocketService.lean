import Clemvion.Egress.SanitizeErrorMessage

/-!
# WebsocketService — what an execution event becomes on its way out

The payload is masked by key, wrapped into the wire envelope and masked by value; the editor's
websocket gets that.  The fanout to external receivers gets it without the debug fields, with the
node outputs narrowed to the allowed keys and with the routing context.
-/

open Clemvion.Js

namespace Clemvion.Egress

/-! ## 1. Masking by key -/

def maxSanitizeDepth : Nat := 10

/-- `sanitizePayloadForWs` with so many levels left, down to the first too deep one. -/
def sanitizeLevels : Nat → Value → Value
  | 0, v => if v.isObject then .str depthMaskMarker else v
  | _ + 1, .undefined => .undefined
  | _ + 1, .null => .null
  | _ + 1, .bool b => .bool b
  | _ + 1, .num n => .num n
  | _ + 1, .str s => .str s
  | levels + 1, .arr items => .arr (items.map (sanitizeLevels levels))
  | levels + 1, .obj fields =>
    .obj (fields.map fun field => (field.1,
      if wsCredentialKeyPattern.matchesWhole field.1 then .str keyMaskMarker
      else sanitizeLevels levels field.2))

def sanitizePayloadForWs (v : Value) : Value := sanitizeLevels (maxSanitizeDepth + 1) v

/-- `SANITIZE_CACHE`: the results for the payload objects seen so far, by identity.  A payload is
not written to once it has been emitted. -/
structure SanitizeCache (payloads : Nat → Value) where
  results : List (Nat × Value)
  sound : ∀ entry ∈ results, entry.2 = sanitizePayloadForWs (payloads entry.1)

namespace SanitizeCache

variable {payloads : Nat → Value}

def empty (payloads : Nat → Value) : SanitizeCache payloads :=
  ⟨[], fun _ hmem => absurd hmem List.not_mem_nil⟩

def set (cache : SanitizeCache payloads) (payload : Nat) : SanitizeCache payloads where
  results := (payload, sanitizePayloadForWs (payloads payload)) :: cache.results
  sound := by
    intro entry hmem
    rcases List.mem_cons.mp hmem with rfl | hold
    · rfl
    · exact cache.sound entry hold

/-- The sanitized payload and the cache afterwards; only objects are cached. -/
def sanitize (cache : SanitizeCache payloads) (payload : Nat) :
    Value × SanitizeCache payloads :=
  if !(payloads payload).isObject then (sanitizePayloadForWs (payloads payload), cache)
  else
    match cache.results.lookup payload with
    | some cached => (cached, cache)
    | none => (sanitizePayloadForWs (payloads payload), cache.set payload)

/-- The cache saves the walk and changes nothing. -/
theorem sanitize_fst (cache : SanitizeCache payloads) (payload : Nat) :
    (cache.sanitize payload).1 = sanitizePayloadForWs (payloads payload) := by
  unfold sanitize
  split
  · rfl
  · split
    case h_1 cached hcached =>
      obtain ⟨before, after, hresults, -⟩ := List.lookup_eq_some_iff.mp hcached
      apply cache.sound (payload, cached)
      rw [hresults]
      simp
    case h_2 => rfl

end SanitizeCache

/-! ## 2. Debug fields -/

def externalStrippedFields : List String := ["llmCalls"]

/-- `stripDeep` with so many levels left; below them nothing is touched. -/
def stripDeep : Nat → Value → Value
  | 0, v => v
  | _ + 1, .undefined => .undefined
  | _ + 1, .null => .null
  | _ + 1, .bool b => .bool b
  | _ + 1, .num n => .num n
  | _ + 1, .str s => .str s
  | levels + 1, .arr items => .arr (items.map (stripDeep levels))
  | levels + 1, .obj fields =>
    .obj ((fields.filter fun field => field.1 ∉ externalStrippedFields).map fun field =>
      (field.1, stripDeep levels field.2))

def stripExternalOnlyFields (v : Value) (maxDepth : Nat) : Value := stripDeep (maxDepth + 1) v

/-! ## 3. Allowed node output -/

def nodeOutputAllowedKeys : List String :=
  ["config", "output", "meta", "port", "status", "formConfig", "conversationConfig",
    "buttonConfig", "interactionType", "payload", "title", "rendered", "nodeType"]

def allowlistNodeOutputKeys : Value → Value
  | .obj fields => .obj (fields.filter fun field => field.1 ∈ nodeOutputAllowedKeys)
  | v => v

def narrowTopLevelNodeOutput (envelope : List (String × Value)) (key : String) :
    List (String × Value) :=
  let v := (Value.obj envelope).field key
  if !v.isObject then envelope
  else
    let narrowed := allowlistNodeOutputKeys v
    if narrowed = v then envelope else Value.setKey envelope key narrowed

def allowlistFanoutNodeOutput (envelope : List (String × Value)) : List (String × Value) :=
  let next := narrowTopLevelNodeOutput envelope "nodeOutput"
  let next := narrowTopLevelNodeOutput next "output"
  match (Value.obj next).field "buttonConfig" with
  | .obj buttonConfig =>
    let inner := (Value.obj buttonConfig).field "nodeOutput"
    if !inner.isObject then next
    else
      let narrowed := allowlistNodeOutputKeys inner
      if narrowed = inner then next
      else Value.setKey next "buttonConfig"
        (.obj (Value.setKey buttonConfig "nodeOutput" narrowed))
  | _ => next

/-! ## 4. Routing context -/

structure ExecutionRoutingContext where
  triggerId : Option String
  workflowId : Option String
  chatChannel : Option Value

/-- The property of an optional string, left out when it is empty. -/
def presentString (key : String) : Option String → List (String × Value)
  | some s => if s = "" then [] else [(key, .str s)]
  | none => []

def attachRoutingContext (context : Option ExecutionRoutingContext)
    (envelope : List (String × Value)) : List (String × Value) :=
  match context with
  | none => envelope
  | some context =>
    let additions := presentString "triggerId" context.triggerId ++
      presentString "workflowId" context.workflowId ++
      match context.chatChannel with
      | some chatChannel => [("chatChannel", sanitizePayloadForWs chatChannel)]
      | none => []
    if additions = [] then envelope else Value.spread envelope (.obj additions)

/-! ## 5. Emission -/

/-- `{ ...ids, ...payload, seq, timestamp }` before the masking by value. -/
def wrapPayload (ids : List (String × Value)) (seq timestamp sanitizedPayload : Value) :
    List (String × Value) :=
  let body := Value.spread ids
    (if sanitizedPayload.isObject then sanitizedPayload else .obj [("data", sanitizedPayload)])
  Value.setKey (Value.setKey body "seq" seq) "timestamp" timestamp

def maskWireEnvelope (wireEnvelope : List (String × Value)) : Value :=
  deepRedactSecretsPreserving (.obj wireEnvelope) externalStrippedFields

/-- The properties of an envelope. -/
def envelopeFields : Value → List (String × Value)
  | .obj fields => fields
  | _ => []

def toFanoutEnvelope (context : Option ExecutionRoutingContext) (maskedWireEnvelope : Value) :
    List (String × Value) :=
  attachRoutingContext context (allowlistFanoutNodeOutput
    (envelopeFields (stripExternalOnlyFields maskedWireEnvelope maxSanitizeDepth)))

structure Emission (payloads : Nat → Value) where
  /-- What the editor's channel gets. -/
  wire : Value
  /-- What the external fanout gets. -/
  fanout : List (String × Value)
  cache : SanitizeCache payloads

section Emit

variable {payloads : Nat → Value} (cache : SanitizeCache payloads)

def emit (ids : List (String × Value)) (context : Option ExecutionRoutingContext)
    (seq timestamp : Value) (payload : Nat) : Emission payloads :=
  let (sanitizedPayload, cache) := cache.sanitize payload
  let wire := maskWireEnvelope (wrapPayload ids seq timestamp sanitizedPayload)
  { wire, fanout := toFanoutEnvelope context wire, cache }

def emitExecutionEvent (executionId : String) (context : Option ExecutionRoutingContext)
    (seq : Int) (timestamp : String) (payload : Nat) : Emission payloads :=
  emit cache [("executionId", .str executionId)] context (.num (.finite seq)) (.str timestamp)
    payload

def emitNodeEvent (executionId nodeId : String) (context : Option ExecutionRoutingContext)
    (seq : Int) (timestamp : String) (payload : Nat) : Emission payloads :=
  emit cache [("executionId", .str executionId), ("nodeId", .str nodeId)] context
    (.num (.finite seq)) (.str timestamp) payload

end Emit

end Clemvion.Egress
