import Clemvion.Js.Value
import Clemvion.Library.KeyedMap
import Mathlib.Algebra.Order.Floor.Ring
import Mathlib.Data.List.Dedup
import Mathlib.Data.Rat.Floor

/-!
# SseAdapter — one subscriber of an execution's event stream

An event reaches the subscriber over three routes: the emitter of its own server instance, the
live channel of the others, and the replay buffer.  Until it is live the subscriber collects what
arrives.  Every `await` of the source is a step of its own here, so that anything may happen
between two of them; what the buffer, the counter and the channels answer is part of the step.
-/

open Clemvion.Js Clemvion.Library

namespace Clemvion.ExternalInteraction

/-! ## 1. Events, buffers and the entry of a subscriber -/

def sseBufferMaxEvents : Nat := 1000

def sseReplayWindowMs : Int := 5 * 60 * 1000

def replayUnavailableEventType : String := "execution.replay_unavailable"

def sseTerminalEventTypes : List String :=
  ["execution.completed", "execution.failed", "execution.cancelled"]

structure ExecutionChannelEvent where
  eventType : String
  seq : Int
  payload : Value
  deriving DecidableEq

def ExecutionChannelEvent.isTerminal (event : ExecutionChannelEvent) : Bool :=
  event.eventType ∈ sseTerminalEventTypes

/-- An item of the replay buffer; without an event only the omitted marker is left of it. -/
structure BufferedSseEvent where
  seq : Int
  receivedAt : Int
  event : Option ExecutionChannelEvent
  seq_event : ∀ e, event = some e → e.seq = seq

inductive PendingItem
  | event (event : ExecutionChannelEvent)
  | omitted (seq : Int)
  deriving DecidableEq

inductive Phase
  | admitting | catchingUp | live | closed
  deriving DecidableEq, Repr

/-- Where the subscriber's own procedure waits. -/
inductive Task
  | idle
  | retaining (replayAfter : Option Int)
  | readingBuffer (lastEventId : Int) (resuming : Bool)
  | readingLatest (lastEventId : Int) (resuming : Bool)
  /-- The replay is over and `goLive` comes next. -/
  | goingLive
  deriving DecidableEq

structure SubscriberEntry where
  executionId : String
  phase : Phase := .admitting
  pending : List PendingItem := []
  pendingOverflowed : Bool := false
  lastSeq : Int := 0
  anchored : Bool := false
  resyncRequested : Bool := false
  retainsLive : Bool := false
  task : Task := .idle
  /-- The normalized `Last-Event-Id` that the subscriber started with. -/
  replayAfter : Option Int := none
  /-- Every frame pushed to the client, in order. -/
  pushed : List ExecutionChannelEvent := []

def buildReplayUnavailableEvent (executionId : String) (lastEventId : Int) :
    ExecutionChannelEvent where
  eventType := replayUnavailableEventType
  seq := 0
  payload := .obj [("executionId", .str executionId), ("lastEventId", .num (.finite lastEventId)),
    ("message", .str ("Requested events are no longer available in the 5-minute replay buffer. " ++
      "Re-fetch current state via GET /api/external/executions/:id."))]

namespace SubscriberEntry

variable (entry : SubscriberEntry)

/-! ## 2. Delivery -/

def unsubscribe : SubscriberEntry :=
  { entry with phase := .closed, pending := [], retainsLive := false }

def deliverNow (event : ExecutionChannelEvent) : SubscriberEntry :=
  if entry.phase = .closed then entry
  else if 0 < event.seq ∧ event.seq ≤ entry.lastSeq then entry
  else
    let moved :=
      if 0 < event.seq then { entry with lastSeq := event.seq, anchored := true } else entry
    let sent := { moved with pushed := moved.pushed ++ [event] }
    if event.isTerminal then sent.unsubscribe else sent

def signalUnavailable (lastEventId : Int) : SubscriberEntry :=
  entry.deliverNow (buildReplayUnavailableEvent entry.executionId lastEventId)

def signalOmitted (seq : Int) : SubscriberEntry :=
  if seq ≤ entry.lastSeq then entry else entry.signalUnavailable entry.lastSeq

def collect (item : PendingItem) : SubscriberEntry :=
  let pending := entry.pending ++ [item]
  if pending.length > sseBufferMaxEvents then
    { entry with pending := pending.tail, pendingOverflowed := true }
  else { entry with pending }

def deliverItem : PendingItem → SubscriberEntry
  | .event event => entry.deliverNow event
  | .omitted seq => entry.signalOmitted seq

/-- What arrives: at once when live, into `pending` before. -/
def accept (item : PendingItem) : SubscriberEntry :=
  match entry.phase with
  | .closed => entry
  | .live => entry.deliverItem item
  | .admitting | .catchingUp => entry.collect item

end SubscriberEntry

/-- A loop over items that ends when a delivery has closed the subscriber. -/
def deliverAll (entry : SubscriberEntry) : List PendingItem → SubscriberEntry
  | [] => entry
  | item :: items =>
    if entry.phase = .closed then entry else deliverAll (entry.deliverItem item) items

namespace SubscriberEntry

variable (entry : SubscriberEntry)

/-! ## 3. Catching up and going live -/

def catchUp : SubscriberEntry :=
  let entry := { entry with resyncRequested := false, phase := .catchingUp }
  if entry.anchored then { entry with task := .readingBuffer entry.lastSeq true }
  else { entry.signalUnavailable entry.lastSeq with task := .goingLive }

/-- Live from now on; what was lost to overflow is signalled before the rest is delivered. -/
def openLive : SubscriberEntry :=
  let entry := { entry with phase := .live, pending := [], task := .idle }
  if entry.pendingOverflowed then
    { entry with pendingOverflowed := false }.signalUnavailable entry.lastSeq
  else entry

def goLive : SubscriberEntry :=
  let pending := entry.pending
  let entry := deliverAll entry.openLive pending
  if entry.resyncRequested && entry.phase ≠ .closed then entry.catchUp else entry

def resync : SubscriberEntry :=
  if !entry.retainsLive then entry
  else
    match entry.phase with
    | .live => entry.catchUp
    | .catchingUp => { entry with resyncRequested := true }
    | .admitting | .closed => entry

/-- The position a `Last-Event-Id` stands for. -/
def normalizeLastEventId (lastEventId : Option Rat) : Option Int :=
  match lastEventId with
  | some q => if 0 ≤ q then some ⌊q⌋ else none
  | none => none

/-- What follows the subscription: a replay where a position is known. -/
def afterRetain (replayAfter : Option Int) : SubscriberEntry :=
  match replayAfter with
  | some lastEventId => { entry with task := .readingBuffer lastEventId false }
  | none => { entry with task := .goingLive }

def start (enabled : Bool) (lastEventId : Option Rat) : SubscriberEntry :=
  if entry.phase ≠ .admitting then entry
  else
    let replayAfter := normalizeLastEventId lastEventId
    let entry := { entry with phase := .catchingUp, replayAfter }
    let entry :=
      match replayAfter with
      | some position => { entry with lastSeq := position, anchored := true }
      | none => entry
    if enabled then { entry with retainsLive := true, task := .retaining replayAfter }
    else entry.afterRetain replayAfter

end SubscriberEntry

/-! ## 4. The replay -/

/-- An entry of the Redis stream: its `seq` field, and the message where its form is right. -/
structure StreamEntry where
  seqField : Option Int
  decoded : Option BufferedSseEvent

structure SseBufferRead where
  events : List BufferedSseEvent
  skipped : Nat
  complete : Bool

/-- `SseFanoutService.readBuffer`: entries at or below `afterSeq` are counted and not parsed. -/
def fanoutReadBuffer (entries : List StreamEntry) (afterSeq : Int) :
    List BufferedSseEvent × Nat :=
  let old := fun entry : StreamEntry => entry.seqField.any fun seq => seq ≤ afterSeq
  ((entries.filter fun entry => !old entry).filterMap StreamEntry.decoded, (entries.filter old).length)

/-- One item for each seq, a whole event before an omitted marker. -/
def mergeBySeq (items : List BufferedSseEvent) : KeyedMap BufferedSseEvent.seq :=
  items.foldl (fun bySeq item =>
    match bySeq.get? item.seq with
    | none => bySeq.set item
    | some existing =>
      if existing.event.isNone && item.event.isSome then bySeq.set item else bySeq) KeyedMap.empty

/-- `SseAdapter.readBuffer`: `remote` is the Redis stream, absent when it could not be read. -/
def readBuffer (enabled : Bool) (remote : Option (List StreamEntry)) (memory : List BufferedSseEvent)
    (afterSeq : Int) : SseBufferRead :=
  if !enabled then { events := memory, skipped := 0, complete := true }
  else
    match remote with
    | none => { events := memory, skipped := 0, complete := false }
    | some entries =>
      let (events, skipped) := fanoutReadBuffer entries afterSeq
      if memory.isEmpty then { events, skipped, complete := true }
      else { events := (mergeBySeq (events ++ memory)).values, skipped, complete := true }

/-- The events of the items as far as these continue `expected` without a gap. -/
def contiguousEvents (expected : Int) : List BufferedSseEvent → List ExecutionChannelEvent
  | [] => []
  | item :: items =>
    match item.event with
    | some event =>
      if item.seq = expected then event :: contiguousEvents (item.seq + 1) items else []
    | none => []

/-- The items inside the replay window, in the order of their seqs. -/
def replayable (wanted : List BufferedSseEvent) (now : Int) : List BufferedSseEvent :=
  (wanted.filter fun item => now - sseReplayWindowMs ≤ item.receivedAt).mergeSort
    fun a b => a.seq ≤ b.seq

namespace SubscriberEntry

variable (entry : SubscriberEntry)

def replayOrSignalUnavailable (lastEventId : Int) (wanted : List BufferedSseEvent) (now : Int) :
    SubscriberEntry :=
  let items := replayable wanted now
  let events := contiguousEvents (lastEventId + 1) items
  if events.length = 0 ∨ events.length ≠ items.length then entry.signalUnavailable lastEventId
  else deliverAll entry (events.map PendingItem.event)

/-- The seqs in `(lastEventId, latest]` of the collected events. -/
def collectedSeqs (lastEventId latest : Int) : List Int :=
  entry.pending.filterMap fun item =>
    match item with
    | .event event => if lastEventId < event.seq ∧ event.seq ≤ latest then some event.seq else none
    | .omitted _ => none

def mayHaveMissed (lastEventId : Int) (latest : Option Int) : Bool :=
  match latest with
  | none => true
  | some latest =>
    if latest ≤ lastEventId then false
    else (entry.collectedSeqs lastEventId latest).dedup.length < latest - lastEventId

/-- The buffer has been read. -/
def replayFromBuffer (lastEventId : Int) (resuming : Bool) (buffer : SseBufferRead) (now : Int) :
    SubscriberEntry :=
  let wanted := buffer.events.filter fun item => lastEventId < item.seq
  if wanted ≠ [] then
    { entry.replayOrSignalUnavailable lastEventId wanted now with task := .goingLive }
  else if buffer.complete ∧ (buffer.events ≠ [] ∨ 0 < buffer.skipped) then
    { entry with task := .goingLive }
  else { entry with task := .readingLatest lastEventId resuming }

/-- The counter has been read. -/
def replayFromCounter (lastEventId : Int) (latest : Option Int) : SubscriberEntry :=
  if entry.mayHaveMissed lastEventId latest then
    { entry.signalUnavailable lastEventId with task := .goingLive }
  else { entry with task := .goingLive }

end SubscriberEntry

/-! ## 5. Steps -/

inductive SseStep
  /-- Some server instance publishes the event of this seq; the shared buffer holds it by then. -/
  | published (seq : Int)
  /-- An event arrives, from the own emitter or over the live channel. -/
  | event (event : ExecutionChannelEvent)
  /-- The omitted marker of another instance's event arrives. -/
  | omitted (seq : Int)
  | start (lastEventId : Option Rat)
  | liveRetained
  | bufferRead (remote : Option (List StreamEntry)) (memory : List BufferedSseEvent) (now : Int)
  | latestRead (latest : Option Int)
  | replayThrows
  | goLive
  | resync
  | unsubscribe

def SubscriberEntry.step (enabled : Bool) (entry : SubscriberEntry) :
    SseStep → SubscriberEntry
  | .published _ => entry
  | .event event => entry.accept (.event event)
  | .omitted seq => entry.accept (.omitted seq)
  | .start lastEventId => entry.start enabled lastEventId
  | .liveRetained =>
    match entry.task with
    | .retaining replayAfter => if entry.phase = .closed then entry else entry.afterRetain replayAfter
    | _ => entry
  | .bufferRead remote memory now =>
    match entry.task with
    | .readingBuffer lastEventId resuming =>
      if entry.phase = .closed then entry
      else entry.replayFromBuffer lastEventId resuming (readBuffer enabled remote memory lastEventId) now
    | _ => entry
  | .latestRead latest =>
    match entry.task with
    | .readingLatest lastEventId _ =>
      if entry.phase = .closed then entry else entry.replayFromCounter lastEventId latest
    | _ => entry
  | .replayThrows =>
    match entry.task with
    | .readingBuffer _ true | .readingLatest _ true =>
      -- only `catchUp` catches; it signals and goes live
      { entry.signalUnavailable entry.lastSeq with task := .goingLive }
    | .readingBuffer _ false | .readingLatest _ false => { entry with task := .idle }
    | _ => entry
  | .goLive =>
    match entry.task with
    | .goingLive => if entry.phase = .closed then entry else entry.goLive
    | _ => entry
  | .resync => entry.resync
  | .unsubscribe => entry.unsubscribe

end Clemvion.ExternalInteraction
