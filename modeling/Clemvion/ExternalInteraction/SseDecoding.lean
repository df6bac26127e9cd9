import Clemvion.ExternalInteraction.SseClient

/-!
# SseDecoding — the events that reach the handler

Frames come out of the stream as they went in, wherever the stream was cut.  What the client says
about its position is the position of the last frame.
-/

open Clemvion.Js Clemvion.Library

namespace Clemvion.ExternalInteraction

/-! ## 1. Frames -/

theorem cutFrame_append {buf frame rest : Text} (h : cutFrame buf = some (frame, rest)) (more : Text) :
    cutFrame (buf ++ more) = some (frame, rest ++ more) := by
  induction buf generalizing frame with
  | nil => cases h
  | cons c buf ih =>
    rw [cutFrame] at h
    rw [List.cons_append, cutFrame]
    -- one character is not a frame's end, so both steps look at the same two characters
    cases buf with
    | nil =>
      rw [if_neg (by simp)] at h
      cases h
    | cons d buf =>
      rw [show (d :: buf ++ more).head? = (d :: buf).head? from rfl]
      split_ifs at h with hbreak
      · obtain ⟨rfl, rfl⟩ := Prod.mk.inj (Option.some.inj h)
        rw [if_pos hbreak]
        rfl
      · obtain ⟨⟨frame', rest'⟩, hcut, heq⟩ := Option.map_eq_some_iff.mp h
        obtain ⟨rfl, rfl⟩ := Prod.mk.inj heq
        rw [if_neg hbreak, ih hcut]
        rfl

def framer : Framer Char Text where
  cut := cutFrame
  shorter := cutFrame_shorter
  append := cutFrame_append

/-- A line is passed over. -/
theorem cutFrame_line {line : Text} (hline : '\n' ∉ line) (rest : Text) :
    cutFrame (line ++ rest) = (cutFrame rest).map fun (frame, rest) => (line ++ frame, rest) := by
  induction line with
  | nil =>
    rw [List.nil_append]
    cases cutFrame rest with
    | none => rfl
    | some found => rfl
  | cons c line ih =>
    have hc : c ≠ '\n' := (List.ne_of_not_mem_cons hline).symm
    rw [List.cons_append, cutFrame, if_neg fun h => hc h.1,
      ih fun h => hline (List.mem_cons_of_mem _ h), Option.map_map]
    rfl

/-- Lines that are not empty end where two line breaks follow. -/
theorem cutFrame_lines {lines : List Text} (hne : lines ≠ [])
    (hlines : ∀ line ∈ lines, line ≠ [] ∧ '\n' ∉ line) (rest : Text) :
    cutFrame (['\n'].intercalate lines ++ '\n' :: '\n' :: rest) =
      some (['\n'].intercalate lines, rest) := by
  induction lines with
  | nil => exact absurd rfl hne
  | cons line lines ih =>
    obtain ⟨-, hbreak⟩ := hlines line (List.mem_cons_self ..)
    cases lines with
    | nil =>
      rw [List.intercalate_singleton, cutFrame_line hbreak, cutFrame, if_pos ⟨rfl, rfl⟩]
      simp
    | cons next lines =>
      -- the next line is not empty: the break before it stands alone
      have hmore := ih (List.cons_ne_nil _ _) fun l hl => hlines l (List.mem_cons_of_mem _ hl)
      obtain ⟨hnext, hnextBreak⟩ := hlines next (by simp)
      obtain ⟨c, tail, rfl⟩ := List.exists_cons_of_ne_nil hnext
      have hc : c ≠ '\n' := (List.ne_of_not_mem_cons hnextBreak).symm
      obtain ⟨after, hafter⟩ : ∃ after, ['\n'].intercalate ((c :: tail) :: lines) = c :: after := by
        cases lines with
        | nil => exact ⟨tail, by rw [List.intercalate_singleton]⟩
        | cons third lines => exact ⟨_, by rw [List.intercalate_cons_cons]; rfl⟩
      rw [List.intercalate_cons_cons, List.append_assoc, List.append_assoc, cutFrame_line hbreak,
        List.singleton_append, cutFrame, hmore, if_neg]
      · simp
      · rintro ⟨-, hhead⟩
        rw [hafter] at hhead
        exact hc (Option.some.inj hhead)

/-! ## 2. One event -/

variable {event : ExecutionChannelEvent}

theorem frameLines_spec (h : Sendable event) :
    ∀ line ∈ frameLines event, line ≠ [] ∧ '\n' ∉ line := by
  have hnumber : '\n' ∉ Nat.toDigits 10 event.seq.toNat := JsonText.lineBreak_notMem_toDigits _
  have hdata := JsonText.lineBreak_notMem_stringify event.payload
  have hlabelled : ∀ (label value : Text), label ≠ [] → '\n' ∉ label → '\n' ∉ value →
      label ++ value ≠ [] ∧ '\n' ∉ label ++ value := by
    intro label value hne hlabel hvalue
    refine ⟨fun hnil => hne (List.append_eq_nil_iff.mp hnil).1, ?_⟩
    rw [List.mem_append, not_or]
    exact ⟨hlabel, hvalue⟩
  -- the three kinds of lines are a label and a value each
  intro line hline
  unfold frameLines at hline
  rw [List.mem_append, List.mem_append, List.mem_singleton, List.mem_singleton] at hline
  rcases hline with (rfl | hid) | rfl
  · exact hlabelled _ _ (by decide) (by decide) h.oneLine
  · split_ifs at hid with hseq
    · rw [List.mem_singleton.mp hid]
      exact hlabelled _ _ (by decide) (by decide) hnumber
    · cases hid
  · exact hlabelled _ _ (by decide) (by decide) hdata

/-- The position of an event, 0 without one. -/
def wirePosition (event : ExecutionChannelEvent) : Int := if 0 < event.seq then event.seq else 0

/-- What the handler is called with. -/
def decoded (event : ExecutionChannelEvent) : SseEvent where
  event := event.eventType
  seq := .finite (wirePosition event)
  data := event.payload.jsonRoundTrip

theorem frameLines_ne_nil (event : ExecutionChannelEvent) : frameLines event ≠ [] := by
  unfold frameLines
  simp

/-- The text of an event is its lines and two line breaks. -/
theorem writeSseFrame_eq (event : ExecutionChannelEvent) :
    writeSseFrame event = ['\n'].intercalate (frameLines event) ++ ['\n', '\n'] := by
  have hend : ∀ lines : List Text, lines ≠ [] →
      ['\n'].intercalate (lines ++ [[], []]) = ['\n'].intercalate lines ++ ['\n', '\n'] := by
    intro lines hne
    induction lines with
    | nil => exact absurd rfl hne
    | cons line lines ih =>
      cases lines with
      | nil => simp [List.intercalate_cons_cons]
      | cons next lines =>
        have hmore := ih (List.cons_ne_nil _ _)
        rw [List.cons_append, List.cons_append] at *
        rw [List.intercalate_cons_cons, hmore, List.intercalate_cons_cons]
        simp only [List.append_assoc]
  exact hend _ (frameLines_ne_nil event)

theorem foldl_readLine (h : Sendable event) :
    (frameLines event).foldl readLine {} =
      { event := event.eventType.toList
        id := if 0 < event.seq then Nat.toDigits 10 event.seq.toNat else []
        dataLines := [(JsonText.stringify event.payload).toList] } := by
  have hname : trimText (' ' :: event.eventType.toList) = event.eventType.toList := by
    have hmargins := trimText_margins h.trimmed [' '] []
      (List.forall_mem_singleton.mpr (by decide)) (by simp)
    rwa [List.append_nil] at hmargins
  have hdigits : trimText (' ' :: Nat.toDigits 10 event.seq.toNat) =
      Nat.toDigits 10 event.seq.toNat := by
    have hmargins := trimText_margins (solid_toDigits event.seq.toNat) [' '] []
      (List.forall_mem_singleton.mpr (by decide)) (by simp)
    rwa [List.append_nil] at hmargins
  have hevent : ∀ fields : FrameFields, readLine fields ("event: ".toList ++ event.eventType.toList) =
      { fields with event := event.eventType.toList } := by
    intro fields
    unfold readLine
    rw [if_neg, if_pos]
    · exact congrArg (fun name => { fields with event := name }) hname
    · exact ⟨' ' :: event.eventType.toList, rfl⟩
    · rintro ⟨tail, htail⟩
      cases htail
  have hid : ∀ fields : FrameFields, readLine fields ("id: ".toList ++ Nat.toDigits 10 event.seq.toNat) =
      { fields with id := Nat.toDigits 10 event.seq.toNat } := by
    intro fields
    unfold readLine
    rw [if_neg, if_neg, if_pos]
    · exact congrArg (fun id => { fields with id }) hdigits
    · exact ⟨' ' :: Nat.toDigits 10 event.seq.toNat, rfl⟩
    · rintro ⟨tail, htail⟩
      cases htail
    · rintro ⟨tail, htail⟩
      cases htail
  have hdata : ∀ fields : FrameFields,
      readLine fields ("data: ".toList ++ (JsonText.stringify event.payload).toList) =
        { fields with dataLines := fields.dataLines ++ [(JsonText.stringify event.payload).toList] } := by
    intro fields
    unfold readLine
    rw [if_neg, if_neg, if_neg, if_pos]
    · rfl
    · exact ⟨' ' :: (JsonText.stringify event.payload).toList, rfl⟩
    · rintro ⟨tail, htail⟩
      cases htail
    · rintro ⟨tail, htail⟩
      cases htail
    · rintro ⟨tail, htail⟩
      cases htail
  -- with a position there are three lines, without one two
  unfold frameLines
  split_ifs with hseq
  · simp only [List.cons_append, List.nil_append, List.foldl_cons, List.foldl_nil, hevent, hid, hdata]
  · simp only [List.append_nil, List.nil_append, List.singleton_append, List.foldl_cons,
      List.foldl_nil, hevent, hdata]

/-- The client reads the event that the server wrote. -/
theorem parseSseFrame_event (h : Sendable event) :
    parseSseFrame (['\n'].intercalate (frameLines event)) = some (decoded event) := by
  have hsplit : (['\n'].intercalate (frameLines event)).splitOn '\n' = frameLines event :=
    List.splitOn_intercalate '\n' (fun line hline => (frameLines_spec h line hline).2)
      (frameLines_ne_nil event)
  have hseq : toNumber (String.ofList (if 0 < event.seq then Nat.toDigits 10 event.seq.toNat else [])) =
      .finite (wirePosition event) := by
    unfold wirePosition
    split_ifs with hpositive
    · have hcast : ((event.seq.toNat : Nat) : Rat) = ((event.seq : Int) : Rat) := by
        rw [← Int.cast_natCast, Int.toNat_of_nonneg (by omega)]
      rw [toNumber_toDigits, hcast]
    · exact toNumber_empty
  -- an empty text does not parse, and a payload's text does
  have hdata : (JsonText.stringify event.payload).toList ≠ [] := by
    intro hnil
    have hparse := JsonText.parse_stringify_of_hasText h.json
    rw [String.toList_eq_nil_iff.mp hnil] at hparse
    rw [show JsonText.parse "" = none by decide] at hparse
    cases hparse
  unfold parseSseFrame
  dsimp only
  rw [hsplit, foldl_readLine h]
  dsimp only
  rw [if_neg (by simp), hseq, List.intercalate_singleton, if_neg hdata, String.ofList_toList,
    String.ofList_toList, JsonText.parse_stringify_of_hasText h.json]
  rfl

/-! ## 3. The loop -/

def LoopState.setBuf (state : LoopState) (buf : Text) : LoopState := { state with buf }

@[simp] theorem LoopState.setBuf_buf (state : LoopState) (buf : Text) : (state.setBuf buf).buf = buf := rfl

@[simp] theorem LoopState.setBuf_error (state : LoopState) (buf : Text) :
    (state.setBuf buf).error = state.error := rfl

@[simp] theorem LoopState.setBuf_setBuf (state : LoopState) (buf buf' : Text) :
    (state.setBuf buf).setBuf buf' = state.setBuf buf' := rfl

theorem onFrame_setBuf (state : LoopState) (buf frame : Text) :
    onFrame (state.setBuf buf) frame = (onFrame state frame).setBuf buf := by
  unfold onFrame
  split <;> rfl

theorem foldl_onFrame_setBuf (frames : List Text) (state : LoopState) (buf : Text) :
    frames.foldl onFrame (state.setBuf buf) = (frames.foldl onFrame state).setBuf buf := by
  induction frames generalizing state with
  | nil => rfl
  | cons frame frames ih => rw [List.foldl_cons, onFrame_setBuf, ih, List.foldl_cons]

theorem error_foldl_onFrame (frames : List Text) (state : LoopState) :
    (frames.foldl onFrame state).error = state.error := by
  induction frames generalizing state with
  | nil => rfl
  | cons frame frames ih =>
    rw [List.foldl_cons, ih]
    unfold onFrame
    split <;> rfl

/-- All the frames of a text are handed on, and the rest is kept. -/
def consume (state : LoopState) (text : Text) : LoopState :=
  ((framer.all text).1.foldl onFrame state).setBuf (framer.all text).2

theorem drain_eq (state : LoopState) : drain state = consume state state.buf := by
  induction hlength : state.buf.length using Nat.strong_induction_on generalizing state with
  | _ n ih =>
    -- the induction is on the length of the buffer, as the loop's termination
    rw [drain]
    split
    case h_1 hnone =>
      have hall := Framer.all_of_none (show framer.cut state.buf = none from hnone)
      rw [consume, hall]
      rfl
    case h_2 frame rest hsome =>
      have hall := Framer.all_of_some (show framer.cut state.buf = some (frame, rest) from hsome)
      have hstep : onFrame { state with buf := rest } frame = (onFrame state frame).setBuf rest :=
        onFrame_setBuf state rest frame
      have hshort : rest.length < n := by
        rw [← hlength]
        exact cutFrame_shorter hsome
      rw [hstep, ih rest.length hshort _ rfl, LoopState.setBuf_buf]
      rw [consume, consume, hall, foldl_onFrame_setBuf, LoopState.setBuf_setBuf, List.foldl_cons]

/-- A second text is consumed with what the first has left. -/
theorem consume_consume (state : LoopState) (text more : Text) :
    consume (consume state text) ((consume state text).buf ++ more) = consume state (text ++ more) := by
  have hwhole : consume state (text ++ more) =
      (((framer.all text).1 ++ (framer.all ((framer.all text).2 ++ more)).1).foldl onFrame state).setBuf
        (framer.all ((framer.all text).2 ++ more)).2 := by
    rw [consume, framer.all_append text more]
  rw [hwhole, List.foldl_append]
  exact (congrArg (LoopState.setBuf · _) (foldl_onFrame_setBuf _ _ _)).trans rfl

theorem consume_setBuf (state : LoopState) (buf text : Text) :
    consume (state.setBuf buf) text = consume state text := by
  rw [consume, foldl_onFrame_setBuf, LoopState.setBuf_setBuf, consume]

/-- What is left of an unfinished frame is never too long with the next chunk. -/
def Fits : Text → List Text → Prop
  | _, [] => True
  | left, chunk :: chunks =>
    bufLength (left ++ chunk) ≤ MAX_BUF ∧ Fits (framer.all (left ++ chunk)).2 chunks

theorem readChunk_of_fits {state : LoopState} {chunk : Text} (herror : state.error = none)
    (h : bufLength (state.buf ++ chunk) ≤ MAX_BUF) :
    readChunk state chunk = consume state (state.buf ++ chunk) := by
  have hnone : ¬ state.error.isSome = true := by
    rw [herror]
    simp
  have hdrain : readChunk state chunk = drain (state.setBuf (state.buf ++ chunk)) := by
    unfold readChunk
    rw [if_neg hnone]
    exact if_neg (Nat.not_lt.mpr h)
  rw [hdrain, drain_eq, consume_setBuf, LoopState.setBuf_buf]

theorem consume_error {state : LoopState} (h : state.error = none) (text : Text) :
    (consume state text).error = none :=
  (error_foldl_onFrame _ state).trans h

/-- Chunks that fit give the frames of the whole text. -/
theorem readChunks_of_fits {chunks : List Text} (state : LoopState) (h : Fits state.buf chunks)
    (herror : state.error = none) (hcut : cutFrame state.buf = none) :
    chunks.foldl readChunk state = consume state (state.buf ++ chunks.flatten) := by
  induction chunks generalizing state with
  | nil =>
    rw [List.flatten_nil, List.append_nil, consume,
      Framer.all_of_none (show framer.cut state.buf = none from hcut)]
    rfl
  | cons chunk chunks ih =>
    obtain ⟨hfits, hrest⟩ := h
    -- between two chunks the buffer holds no frame
    have hleft : cutFrame (consume state (state.buf ++ chunk)).buf = none :=
      Framer.cut_rest (F := framer) _
    rw [List.foldl_cons, readChunk_of_fits herror hfits,
      ih _ hrest (consume_error herror _) hleft, consume_consume, List.flatten_cons, List.append_assoc]

/-- An error stays. -/
theorem error_readChunks {chunks : List Text} {state : LoopState} (h : state.error ≠ none) :
    (chunks.foldl readChunk state).error ≠ none := by
  induction chunks generalizing state with
  | nil => exact h
  | cons chunk chunks ih =>
    have hsome : state.error.isSome = true := Option.ne_none_iff_isSome.mp h
    rw [List.foldl_cons]
    refine ih ?_
    unfold readChunk
    rwa [if_pos hsome]

theorem fits_of_error {chunks : List Text} (state : LoopState) (herror : state.error = none)
    (h : (chunks.foldl readChunk state).error = none) : Fits state.buf chunks := by
  induction chunks generalizing state with
  | nil => trivial
  | cons chunk chunks ih =>
    by_cases hlong : MAX_BUF < bufLength (state.buf ++ chunk)
    -- an overflow reports an error, and no later chunk takes it back
    · have hread : (readChunk state chunk).error ≠ none := by
        unfold readChunk
        rw [herror, if_neg (by simp)]
        dsimp only
        rw [if_pos hlong]
        simp
      have hlater : (chunks.foldl readChunk (readChunk state chunk)).error = none := h
      exact absurd hlater (error_readChunks hread)
    · have hfits := Nat.not_lt.mp hlong
      have hrest := ih _ (consume_error herror _) (by
        rwa [List.foldl_cons, readChunk_of_fits herror hfits] at h)
      exact ⟨hfits, hrest⟩

/-! ## 4. The whole stream -/

/-- The events among what was written. -/
def eventsOf (written : List Written) : List ExecutionChannelEvent :=
  written.filterMap fun
    | .event event => some event
    | .heartbeat => none

/-- The largest position so far. -/
def furthest (position : Int) (event : ExecutionChannelEvent) : Int :=
  if 0 < event.seq then max position event.seq else position

/-- The largest position after each of the events. -/
def positions : Int → List ExecutionChannelEvent → List Int
  | _, [] => []
  | position, event :: events => furthest position event :: positions (furthest position event) events

/-- No position is behind one before it, and one that is missing comes before all others. -/
def Forward : Int → List ExecutionChannelEvent → Prop
  | _, [] => True
  | position, event :: events =>
    (if 0 < event.seq then position ≤ event.seq else position = 0) ∧
      Forward (furthest position event) events

theorem wirePosition_eq_furthest_iff (position : Int) (event : ExecutionChannelEvent) :
    wirePosition event = furthest position event ↔
      if 0 < event.seq then position ≤ event.seq else position = 0 := by
  unfold wirePosition furthest
  split_ifs
  · omega
  · exact eq_comm

theorem map_wirePosition_iff (position : Int) (events : List ExecutionChannelEvent) :
    events.map wirePosition = positions position events ↔ Forward position events := by
  induction events generalizing position with
  | nil => simp [positions, Forward]
  | cons event events ih =>
    rw [List.map_cons, positions, Forward, List.cons_eq_cons, wirePosition_eq_furthest_iff, ih]

/-- The handler is called once for each event, in order and with its data, no error is reported,
and `lastSeq()` is at each call, and in the end, the largest position so far. -/
structure Decoded (lastEventId : Int) (events : List ExecutionChannelEvent) (state : LoopState) :
    Prop where
  calls : state.calls.map Prod.fst = events.map decoded
  silent : state.error = none
  moments : state.calls.map Prod.snd = (positions lastEventId events).map fun n => .finite n
  last : state.lastSeq = .finite ((positions lastEventId events).getLast?.getD lastEventId)

/-- The step of the loop that an event makes. -/
def receive (state : LoopState) (event : ExecutionChannelEvent) : LoopState :=
  { state with
    lastSeq := (decoded event).seq
    calls := state.calls ++ [(decoded event, (decoded event).seq)] }

/-- A stream of frames is cut into the frames. -/
theorem consume_written {written : List Written}
    (hsend : ∀ event, Written.event event ∈ written → Sendable event) (state : LoopState) :
    consume state (written.flatMap Written.text) =
      ((eventsOf written).foldl receive state).setBuf [] := by
  induction written generalizing state with
  | nil =>
    rw [List.flatMap_nil, consume, Framer.all_of_none (show framer.cut [] = none from rfl)]
    rfl
  | cons first written ih =>
    have hrest : ∀ event, Written.event event ∈ written → Sendable event := fun event hevent =>
      hsend event (List.mem_cons_of_mem _ hevent)
    have hcons : ∀ (frame : Text) (more : Text), cutFrame (first.text ++ more) = some (frame, more) →
        consume state (first.text ++ more) = consume (onFrame state frame) more := by
      intro frame more hcut
      rw [consume, consume, Framer.all_of_some (show framer.cut (first.text ++ more) = _ from hcut),
        List.foldl_cons]
    rw [List.flatMap_cons]
    -- an event's frame changes the state; a heartbeat's is only cut off
    cases first with
    | event event =>
      have hevent := hsend event (List.mem_cons_self ..)
      have hcut := cutFrame_lines (frameLines_ne_nil event) (frameLines_spec hevent)
        (written.flatMap Written.text)
      have htext : (Written.event event).text ++ written.flatMap Written.text =
          ['\n'].intercalate (frameLines event) ++ '\n' :: '\n' :: written.flatMap Written.text := by
        rw [Written.text, writeSseFrame_eq, List.append_assoc]
        rfl
      have hframe : onFrame state (['\n'].intercalate (frameLines event)) = receive state event := by
        unfold onFrame
        rw [parseSseFrame_event hevent]
        rfl
      rw [hcons _ _ (by rw [htext]; exact hcut), hframe, ih hrest]
      rfl
    | heartbeat =>
      have hcut : cutFrame (Written.heartbeat.text ++ written.flatMap Written.text) =
          some (": heartbeat".toList, written.flatMap Written.text) :=
        cutFrame_append (show cutFrame heartbeat = some (": heartbeat".toList, []) by decide) _
      have hframe : onFrame state ": heartbeat".toList = state := by
        unfold onFrame
        rw [show parseSseFrame ": heartbeat".toList = none by decide]
      rw [hcons _ _ hcut, hframe, ih hrest]
      rfl

theorem receive_all (events : List ExecutionChannelEvent) (state : LoopState) :
    (events.foldl receive state).calls =
      state.calls ++ events.map (fun event => (decoded event, (decoded event).seq)) ∧
    (events.foldl receive state).lastSeq =
      (events.getLast?.map fun event => (decoded event).seq).getD state.lastSeq ∧
    (events.foldl receive state).error = state.error := by
  induction events generalizing state with
  | nil => exact ⟨(List.append_nil _).symm, rfl, rfl⟩
  | cons event events ih =>
    obtain ⟨hcalls, hlast, herror⟩ := ih (receive state event)
    refine ⟨?_, ?_, herror⟩
    · rw [List.foldl_cons, hcalls]
      simp [receive]
    · rw [List.foldl_cons, hlast, List.getLast?_cons]
      cases events.getLast? <;> rfl

theorem number_finite_inj {xs ys : List Int} :
    (xs.map fun n : Int => Number.finite n) = (ys.map fun n : Int => Number.finite n) ↔ xs = ys := by
  have hinjective : Function.Injective fun n : Int => Number.finite n := fun m n h =>
    Int.cast_injective (Number.finite.inj h)
  exact (List.map_injective_iff.mpr hinjective).eq_iff

theorem runSseLoop_of_fits {lastEventId : Int} {written : List Written} {chunks : List Text}
    (hsend : ∀ event, Written.event event ∈ written → Sendable event)
    (hcut : chunks.flatten = written.flatMap Written.text) (hfits : Fits [] chunks) :
    runSseLoop lastEventId chunks =
      ((eventsOf written).foldl receive { lastSeq := .finite lastEventId }).setBuf [] := by
  have hread := readChunks_of_fits { lastSeq := .finite lastEventId } hfits rfl rfl
  rw [List.nil_append, hcut, consume_written hsend] at hread
  exact hread

/-- **The event stream.** However the text of the stream is cut, the events are handed on and
`lastSeq()` is the largest position, exactly when no unfinished frame grows too long with the next
chunk and no event comes without a position, or with a smaller one, after one that has it. -/
theorem runSseLoop_spec (lastEventId : Int) (written : List Written) (chunks : List Text)
    (hsend : ∀ event, Written.event event ∈ written → Sendable event)
    (hcut : chunks.flatten = written.flatMap Written.text) :
    Decoded lastEventId (eventsOf written) (runSseLoop lastEventId chunks) ↔
      Fits [] chunks ∧ Forward lastEventId (eventsOf written) := by
  obtain ⟨hcalls, hlast, herror⟩ := receive_all (eventsOf written) { lastSeq := .finite lastEventId }
  rw [List.nil_append] at hcalls
  have hmoments : ∀ events : List ExecutionChannelEvent,
      (events.map fun event => (decoded event).seq) =
        (events.map wirePosition).map fun n : Int => .finite n := by
    intro events
    rw [List.map_map]
    rfl
  -- no error means that every chunk fitted, and then the run is the fold over the events
  constructor
  · intro h
    have hfits := fits_of_error { lastSeq := .finite lastEventId } rfl h.silent
    refine ⟨hfits, (map_wirePosition_iff _ _).mp (number_finite_inj.mp ?_)⟩
    have hsecond := h.moments
    rw [runSseLoop_of_fits hsend hcut hfits] at hsecond
    rw [← hsecond, ← hmoments]
    show _ = (((eventsOf written).foldl receive { lastSeq := .finite lastEventId }).calls).map Prod.snd
    rw [hcalls, List.map_map]
    rfl
  · rintro ⟨hfits, hforward⟩
    have hpositions := (map_wirePosition_iff _ _).mpr hforward
    rw [runSseLoop_of_fits hsend hcut hfits]
    refine ⟨?_, herror, ?_, ?_⟩
    · show (((eventsOf written).foldl receive { lastSeq := .finite lastEventId }).calls).map Prod.fst = _
      rw [hcalls, List.map_map]
      rfl
    · show (((eventsOf written).foldl receive { lastSeq := .finite lastEventId }).calls).map Prod.snd = _
      rw [hcalls, List.map_map, ← hpositions, ← hmoments]
      rfl
    · show ((eventsOf written).foldl receive { lastSeq := .finite lastEventId }).lastSeq = _
      rw [hlast, ← hpositions, List.getLast?_map]
      cases (eventsOf written).getLast? <;> rfl

theorem bufLength_append (buf more : Text) : bufLength (buf ++ more) = bufLength buf + bufLength more := by
  unfold bufLength
  rw [List.map_append, List.sum_append]

theorem bufLength_heartbeats (n : Nat) :
    bufLength ((List.replicate n Written.heartbeat).flatMap Written.text) = 13 * n := by
  induction n with
  | zero => rfl
  | succ n ih =>
    rw [List.replicate_succ, List.flatMap_cons, bufLength_append, ih,
      show bufLength Written.heartbeat.text = 13 by decide]
    omega

/-- The length is checked before the frames are cut: many small ones in one chunk are too long. -/
theorem runSseLoop_manyHeartbeats (lastEventId : Int) {n : Nat} (h : MAX_BUF < 13 * n) :
    (runSseLoop lastEventId [(List.replicate n Written.heartbeat).flatMap Written.text]).error ≠ none := by
  intro hsilent
  have hfits := (fits_of_error { lastSeq := .finite lastEventId } rfl hsilent).1
  rw [List.nil_append, bufLength_heartbeats] at hfits
  omega

theorem sendable_replayUnavailable (executionId : String) (lastEventId : Int) :
    Sendable (buildReplayUnavailableEvent executionId lastEventId) where
  oneLine := show '\n' ∉ replayUnavailableEventType.toList by decide
  trimmed := show Solid isJsSpace replayUnavailableEventType.toList from
    Solid.of_all (by decide) (by decide)
  json := by
    have hnumber : JsonText.IsDecimal (lastEventId : Rat) := ⟨0, by simp⟩
    unfold JsonText.HasText buildReplayUnavailableEvent
    simpa [Value.jsonRoundTrip, Value.jsonFields, JsonText.IsJson, JsonText.FieldsAreJson,
      JsonText.DistinctKeys, JsonText.FieldsAreDistinct] using hnumber

/-- The notice that the replay is gone has no position, and the client goes back to 0. -/
theorem lastSeq_replayUnavailable {executionId : String} {lastEventId : Int} {chunks : List Text}
    (hcut : chunks.flatten = writeSseFrame (buildReplayUnavailableEvent executionId lastEventId))
    (hfits : Fits [] chunks) : (runSseLoop lastEventId chunks).lastSeq = .finite 0 := by
  have hsend : ∀ event,
      Written.event event ∈ [Written.event (buildReplayUnavailableEvent executionId lastEventId)] →
        Sendable event := by
    intro event hevent
    obtain rfl : event = buildReplayUnavailableEvent executionId lastEventId := by simpa using hevent
    exact sendable_replayUnavailable executionId lastEventId
  have hone : chunks.flatten =
      [Written.event (buildReplayUnavailableEvent executionId lastEventId)].flatMap Written.text := by
    rw [hcut, List.flatMap_singleton, Written.text]
  rw [runSseLoop_of_fits hsend hone hfits]
  exact congrArg Number.finite Int.cast_zero

section Examples

def startedEvent : ExecutionChannelEvent :=
  { eventType := "execution.started", seq := 1, payload := .obj [("status", .str "running")] }

def waitingEvent : ExecutionChannelEvent :=
  { eventType := "execution.waiting", seq := 2, payload := .obj [] }

def sampleStream : List Written := [.event startedEvent, .heartbeat, .event waitingEvent]

theorem sendable_sample : ∀ event, Written.event event ∈ sampleStream → Sendable event := by
  have hstarted : Sendable startedEvent :=
    ⟨by decide, Solid.of_all (by decide) (by decide), by
      unfold JsonText.HasText startedEvent
      simp [Value.jsonRoundTrip, Value.jsonFields, JsonText.IsJson, JsonText.FieldsAreJson,
        JsonText.DistinctKeys, JsonText.FieldsAreDistinct]⟩
  have hwaiting : Sendable waitingEvent :=
    ⟨by decide, Solid.of_all (by decide) (by decide), by
      unfold JsonText.HasText waitingEvent
      simp [Value.jsonRoundTrip, Value.jsonFields, JsonText.IsJson, JsonText.FieldsAreJson,
        JsonText.DistinctKeys, JsonText.FieldsAreDistinct]⟩
  intro event hevent
  simp only [sampleStream, List.mem_cons, Written.event.injEq, reduceCtorEq, List.not_mem_nil,
    or_false, false_or] at hevent
  rcases hevent with rfl | rfl
  · exact hstarted
  · exact hwaiting

/-- The stream arrives in two pieces, cut between the line breaks that end the first frame. -/
theorem runSseLoop_spec_sample :
    Decoded 0 [startedEvent, waitingEvent]
      (runSseLoop 0 [(sampleStream.flatMap Written.text).take 58,
        (sampleStream.flatMap Written.text).drop 58]) := by
  have hnone : framer.cut ([] ++ (sampleStream.flatMap Written.text).take 58) = none := by decide
  have hfits : Fits [] [(sampleStream.flatMap Written.text).take 58,
      (sampleStream.flatMap Written.text).drop 58] := by
    refine ⟨by decide +kernel, ?_⟩
    rw [Framer.all_of_none hnone]
    exact ⟨by decide +kernel, trivial⟩
  have hcut : [(sampleStream.flatMap Written.text).take 58,
      (sampleStream.flatMap Written.text).drop 58].flatten = sampleStream.flatMap Written.text := by
    simp
  exact (runSseLoop_spec 0 sampleStream _ sendable_sample hcut).mpr ⟨hfits, by decide, by decide, trivial⟩

theorem runSseLoop_replayUnavailable :
    ¬ Decoded 5 [buildReplayUnavailableEvent "e" 5]
      (runSseLoop 5 [writeSseFrame (buildReplayUnavailableEvent "e" 5)]) := by
  intro h
  have hcut : [writeSseFrame (buildReplayUnavailableEvent "e" 5)].flatten =
      writeSseFrame (buildReplayUnavailableEvent "e" 5) := List.flatten_singleton
  -- whatever the length of the notice: an overflow would not be silent
  have hfits := fits_of_error { lastSeq := .finite ((5 : Int) : Rat) } rfl h.silent
  have hlast := lastSeq_replayUnavailable hcut hfits
  have hposition := h.last
  rw [hlast] at hposition
  exact absurd (Number.finite.inj hposition) (by decide)

end Examples

end Clemvion.ExternalInteraction
