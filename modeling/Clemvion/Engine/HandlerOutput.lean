import Clemvion.Js.Json
import Clemvion.Graph.GraphTraversal

/-!
# HandlerOutput — from a handler's return to the engine's two caches

`handler-output.adapter.ts` and the parts of the engine that shape an output: the structured form
that expressions read, the flat form that routing and input gathering read, and the port
selection between them.  `undefined` in a field of the structured form means that the key is
absent, as in the source's conditional spreads.
-/

open Clemvion.Js Clemvion.Graph

namespace Clemvion.Engine

structure NodeHandlerOutput where
  config : Value
  output : Value
  metadata : Value := .undefined
  port : Value := .undefined
  status : Value := .undefined
  resumeState : Value := .undefined
  retryState : Value := .undefined
  deriving DecidableEq

/-! ## 1. Adapting a handler's return -/

/-- `a ?? b`. -/
def nullish (a b : Value) : Value :=
  if a = .undefined ∨ a = .null then b else a

/-- `isNewShape`: an object with `config` and `output`. -/
def isCanonicalHandlerOutput (raw : Value) : Bool :=
  raw.hasField "config" && raw.hasField "output"

def contractViolationMessage : String :=
  "Node handler return violates the NodeHandlerOutput contract."

def adaptHandlerReturn (raw : Value) : Except String NodeHandlerOutput :=
  if isCanonicalHandlerOutput raw then
    .ok {
      config := nullish (raw.field "config") (.obj [])
      output := raw.field "output"
      metadata := raw.field "meta"
      port := raw.field "port"
      status := raw.field "status"
      resumeState := raw.field "_resumeState"
      retryState := raw.field "_retryState" }
  else
    .error contractViolationMessage

/-- `{ data, ...control }` around an array or primitive output, with the engine's mark. -/
def markWrappedValueEnvelope (fields : List (String × Value)) : FlatValue :=
  { value := .obj fields, wrapped := true }

/-- `unwrapEngineFlatValue`. -/
def unwrapEngineFlatValue (flat : FlatValue) : Value :=
  if flat.wrapped then flat.value.field "data" else flat.value

/-- `wrapBareAsNodeHandlerOutput`. -/
def wrapBareAsNodeHandlerOutput (raw : FlatValue) : NodeHandlerOutput :=
  match raw.value with
  | .obj _ =>
    { config := .obj []
      output := unwrapEngineFlatValue raw
      status := match raw.value.field "status" with
        | .str s => .str s
        | _ => .undefined
      port := match raw.value.field "port" with
        | .str s => .str s
        | .arr ports => .arr ports
        | _ => .undefined
      resumeState := match raw.value.field "_resumeState" with
        | .obj fields => .obj fields
        | _ => .undefined }
  | v => { config := .obj [], output := v }

/-! ## 2. The flat form -/

/-- `...(v !== undefined ? { key: v } : {})`. -/
def setDefined (fields : List (String × Value)) (key : String) (v : Value) :
    List (String × Value) :=
  if v = .undefined then fields else Value.setKey fields key v

/-- `toEngineFlatShape` of a null or undefined output. -/
def flatOfNullish (adapted : NodeHandlerOutput) : FlatValue :=
  match adapted.port, adapted.status, adapted.resumeState with
  | .str port, .undefined, .undefined =>
    markWrappedValueEnvelope [("data", adapted.output), ("port", .str port)]
  | port, status, resumeState =>
    let hasConfig := adapted.config ≠ .null ∧ adapted.config ≠ .undefined ∧
      adapted.config.ownFields ≠ []
    let hasControl := port ≠ .undefined ∨ status ≠ .undefined
    if hasConfig ∨ hasControl ∨ resumeState ≠ .undefined then
      let fields := if hasConfig then Value.spread [] adapted.config else []
      let fields := setDefined fields "port" port
      let fields := setDefined fields "status" status
      { value := .obj (setDefined fields "_resumeState" resumeState) }
    else
      { value := adapted.output }

/-- `toEngineFlatShape` of an array or primitive output. -/
def flatOfBare (adapted : NodeHandlerOutput) : FlatValue :=
  if adapted.port.truthy || adapted.status.truthy || adapted.resumeState.truthy then
    let fields := setDefined [("data", adapted.output)] "port" adapted.port
    let fields := setDefined fields "status" adapted.status
    markWrappedValueEnvelope (setDefined fields "_resumeState" adapted.resumeState)
  else
    { value := adapted.output }

/-- `toEngineFlatShape` of an object output. -/
def flatOfObject (adapted : NodeHandlerOutput) (output : List (String × Value)) : FlatValue :=
  let base := setDefined output "status" adapted.status
  let base :=
    if adapted.port = .undefined then base
    else
      let base := Value.setKey base "port" adapted.port
      -- `applyPortSelection` expects `{ port, data }`
      if (Value.obj base).field "data" = .undefined then
        Value.setKey base "data" (.obj output)
      else base
  let base :=
    if (Value.obj base).field "_resumeState" = .undefined then
      setDefined base "_resumeState" adapted.resumeState
    else base
  let base :=
    if (Value.obj base).field "_retryState" = .undefined then
      setDefined base "_retryState" adapted.retryState
    else base
  { value := .obj base }

def toEngineFlatShape (adapted : NodeHandlerOutput) : FlatValue :=
  match adapted.output with
  | .undefined | .null => flatOfNullish adapted
  | .obj output => flatOfObject adapted output
  | _ => flatOfBare adapted

/-- `applyPortSelection`. -/
def applyPortSelection (output : FlatValue) : FlatValue :=
  match output.value with
  | .obj fields =>
    if output.value.hasField "port" && output.value.hasField "data" then
      let port := output.value.field "port"
      let extra := fields.filter fun field => field.1 ≠ "port" && field.1 ≠ "data"
      match output.value.field "data" with
      | .obj base =>
        { value := .obj (Value.setKey (Value.spread base (.obj extra)) "_selectedPort" port) }
      | data =>
        { value := .obj (Value.setKey (Value.setKey extra "data" data) "_selectedPort" port)
          wrapped := output.wrapped }
    else output
  | _ => output

/-- `isErrorPortRouted`. -/
def isErrorPortRouted (finalOutput : FlatValue) : Bool :=
  finalOutput.value.field "_selectedPort" = .str "error"

/-! ## 3. The structured entry -/

/-- A value that already has the structured form, read as such. -/
def asNodeHandlerOutput (v : Value) : NodeHandlerOutput where
  config := v.field "config"
  output := v.field "output"
  metadata := v.field "meta"
  port := v.field "port"
  status := v.field "status"
  resumeState := v.field "_resumeState"
  retryState := v.field "_retryState"

/-- The structured view that `setNodeOutput` derives from a flat output. -/
def deriveStructured (output : FlatValue) : NodeHandlerOutput :=
  if isCanonicalHandlerOutput output.value then asNodeHandlerOutput output.value
  else wrapBareAsNodeHandlerOutput output

/-- The structured entry after `setNodeOutput`: the handler's `config` survives. -/
def mergeStructured (existing : Option NodeHandlerOutput) (output : FlatValue) :
    NodeHandlerOutput :=
  let derived := deriveStructured output
  match existing with
  | some existing =>
    { config := existing.config
      output := derived.output
      metadata := nullish derived.metadata existing.metadata
      port := nullish derived.port existing.port
      status := nullish derived.status existing.status }
  | none => derived

end Clemvion.Engine
