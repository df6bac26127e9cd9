import Clemvion.ExternalInteraction.SseAdapter
import Clemvion.Js.JsonLine
import Clemvion.Js.ToNumber
import Clemvion.Library.Framing

/-!
# SseClient — the event stream in the SDK

The server writes an event as a frame of lines and puts its position on a line of its own, if it
has one.  The client collects what arrives, cuts the frames off and hands the events on.
-/

open Clemvion.Js Clemvion.Library

namespace Clemvion.ExternalInteraction

abbrev Text := List Char

/-! ## 1. What the server writes -/

def frameLines (event : ExecutionChannelEvent) : List Text :=
  ["event: ".toList ++ event.eventType.toList] ++
    (if 0 < event.seq then ["id: ".toList ++ Nat.toDigits 10 event.seq.toNat] else []) ++
    ["data: ".toList ++ (JsonText.stringify event.payload).toList]

/-- `lines.join('\n')`, with two empty lines at the end. -/
def writeSseFrame (event : ExecutionChannelEvent) : Text :=
  ['\n'].intercalate (frameLines event ++ [[], []])

def heartbeat : Text := ": heartbeat\n\n".toList

inductive Written
  | event (event : ExecutionChannelEvent)
  | heartbeat

def Written.text : Written → Text
  | .event sent => writeSseFrame sent
  | .heartbeat => ExternalInteraction.heartbeat

/-- An event of the server: its type is a name and its payload is JSON. -/
structure Sendable (event : ExecutionChannelEvent) : Prop where
  oneLine : '\n' ∉ event.eventType.toList
  trimmed : Solid isJsSpace event.eventType.toList
  json : JsonText.HasText event.payload

/-! ## 2. What the client reads -/

structure SseEvent where
  event : String
  seq : Number
  data : Value
  deriving DecidableEq

structure FrameFields where
  event : Text := []
  id : Text := []
  dataLines : List Text := []

def readLine (fields : FrameFields) (line : Text) : FrameFields :=
  if [':'] <+: line then fields
  else if "event:".toList <+: line then { fields with event := trimText (line.drop 6) }
  else if "id:".toList <+: line then { fields with id := trimText (line.drop 3) }
  else if "data:".toList <+: line then
    let value := line.drop 5
    let value := if [' '] <+: value then value.drop 1 else value
    { fields with dataLines := fields.dataLines ++ [value] }
  else fields

def parseSseFrame (frame : Text) : Option SseEvent :=
  let fields := (frame.splitOn '\n').foldl readLine {}
  if fields.event = [] ∧ fields.id = [] ∧ fields.dataLines.length = 0 then none
  else
    let seq := toNumber (String.ofList fields.id)
    if seq.isFinite then
      let data := ['\n'].intercalate fields.dataLines
      (JsonText.parse (String.ofList (if data = [] then "{}".toList else data))).map fun data =>
        { event := String.ofList fields.event, seq, data }
    else none

/-- `buf.indexOf('\n\n')` and the two slices. -/
def cutFrame : Text → Option (Text × Text)
  | [] => none
  | c :: rest =>
    if c = '\n' ∧ rest.head? = some '\n' then some ([], rest.drop 1)
    else (cutFrame rest).map fun (frame, rest) => (c :: frame, rest)

def MAX_BUF : Nat := 1024 * 1024

/-- `buf.length` -/
def bufLength (buf : Text) : Nat := (buf.map utf16Width).sum

structure LoopState where
  buf : Text := []
  lastSeq : Number
  /-- The calls of `onEvent`, each with `lastSeq()` at that moment. -/
  calls : List (SseEvent × Number) := []
  /-- What `onError` was told. -/
  error : Option String := none

def onFrame (state : LoopState) (frame : Text) : LoopState :=
  match parseSseFrame frame with
  | none => state
  | some parsed =>
    { state with lastSeq := parsed.seq, calls := state.calls ++ [(parsed, parsed.seq)] }

theorem cutFrame_shorter {buf frame rest : Text} (h : cutFrame buf = some (frame, rest)) :
    rest.length < buf.length := by
  induction buf generalizing frame with
  | nil => cases h
  | cons c buf ih =>
    rw [cutFrame] at h
    split_ifs at h with hbreak
    · obtain ⟨-, rfl⟩ := Prod.mk.inj (Option.some.inj h)
      rw [List.length_drop, List.length_cons]
      omega
    · obtain ⟨⟨frame', rest'⟩, hcut, heq⟩ := Option.map_eq_some_iff.mp h
      obtain ⟨-, rfl⟩ := Prod.mk.inj heq
      have := ih hcut
      rw [List.length_cons]
      omega

/-- The inner loop. -/
def drain (state : LoopState) : LoopState :=
  match _h : cutFrame state.buf with
  | none => state
  | some (frame, buf) => drain (onFrame { state with buf } frame)
  termination_by state.buf.length
  decreasing_by
    have hshorter := cutFrame_shorter _h
    unfold onFrame
    split <;> exact hshorter

def readChunk (state : LoopState) (chunk : Text) : LoopState :=
  if state.error.isSome then state
  else
    let state := { state with buf := state.buf ++ chunk }
    if MAX_BUF < bufLength state.buf then { state with error := some "SSE_BUFFER_OVERFLOW" }
    else drain state

def runSseLoop (lastEventId : Int) (chunks : List Text) : LoopState :=
  chunks.foldl readChunk { lastSeq := .finite lastEventId }

end Clemvion.ExternalInteraction
