import Clemvion.ExternalInteraction.SseAdapter
import Mathlib.Order.Interval.Finset.Basic
import Mathlib.Data.Int.Interval

/-!
# SseContinuity — what a client can rely on in the stream it is sent

Whatever happens in whatever order, the seqs a client is sent only grow and a closed stream stays
silent.  Live delivery itself does not look for gaps: it trusts that arrivals come one after the
other.  Where they do, and a buffer read that settles a replay shows the newest published event,
no gap stays without a signal.
-/

open Clemvion.Js Clemvion.Library

namespace Clemvion.ExternalInteraction

/-! ## 1. What the client sees -/

/-- The client's side: its position, and whether it was told since then that events are missing. -/
structure ClientView where
  position : Option Int
  signalled : Bool := false
  silentGap : Bool := false
  deriving DecidableEq

def ClientView.receive (view : ClientView) (frame : ExecutionChannelEvent) : ClientView :=
  if 0 < frame.seq then
    { position := some frame.seq
      signalled := false
      silentGap := view.silentGap ||
        (!view.signalled && view.position.any fun position => position + 1 < frame.seq) }
  else if frame.eventType = replayUnavailableEventType then { view with signalled := true }
  else view

namespace SubscriberEntry

variable (entry : SubscriberEntry)

def view : ClientView :=
  entry.pushed.foldl ClientView.receive { position := entry.replayAfter }

/-- The seqs pushed to the client. -/
def pushedSeqs : List Int := (entry.pushed.map ExecutionChannelEvent.seq).filter fun seq => 0 < seq

/-- Steps taken by a subscriber that has just been admitted. -/
def run (enabled : Bool) (entry : SubscriberEntry) (steps : List SseStep) : SubscriberEntry :=
  steps.foldl (SubscriberEntry.step enabled) entry

/-- The book-keeping of the client's position, whatever the order of the steps. -/
structure Tracked : Prop where
  position : entry.view.position = if entry.anchored then some entry.lastSeq else none
  lastSeq_nonneg : 0 ≤ entry.lastSeq
  replayAfter_le : ∀ position ∈ entry.replayAfter, position ≤ entry.lastSeq
  increasing : entry.pushedSeqs.Pairwise (· < ·)
  le_lastSeq : ∀ seq ∈ entry.pushedSeqs, seq ≤ entry.lastSeq
  above : ∀ seq ∈ entry.pushedSeqs, ∀ position ∈ entry.replayAfter, position < seq
  admitting : entry.phase = .admitting →
    entry.pushed = [] ∧ entry.anchored = false ∧ entry.replayAfter = none ∧ entry.task = .idle

end SubscriberEntry

/-! ## 2. Deliveries -/

namespace SubscriberEntry

variable {entry : SubscriberEntry}

/-- The part of the entry that only a delivery or the start moves. -/
structure SameStream (entry entry' : SubscriberEntry) : Prop where
  pushed : entry'.pushed = entry.pushed
  lastSeq : entry'.lastSeq = entry.lastSeq
  anchored : entry'.anchored = entry.anchored
  replayAfter : entry'.replayAfter = entry.replayAfter
  admitting : entry'.phase = .admitting → entry.phase = .admitting ∧ entry'.task = entry.task

theorem SameStream.view {entry' : SubscriberEntry} (h : SameStream entry entry') :
    entry'.view = entry.view := by
  unfold SubscriberEntry.view
  rw [h.pushed, h.replayAfter]

theorem SameStream.tracked {entry' : SubscriberEntry} (h : SameStream entry entry')
    (ht : entry.Tracked) : entry'.Tracked := by
  have hseqs : entry'.pushedSeqs = entry.pushedSeqs := by
    unfold pushedSeqs
    rw [h.pushed]
  constructor
  · rw [h.view, h.anchored, h.lastSeq]
    exact ht.position
  · rw [h.lastSeq]
    exact ht.lastSeq_nonneg
  · rw [h.replayAfter, h.lastSeq]
    exact ht.replayAfter_le
  · rw [hseqs]
    exact ht.increasing
  · rw [hseqs, h.lastSeq]
    exact ht.le_lastSeq
  · rw [hseqs, h.replayAfter]
    exact ht.above
  · intro hphase
    obtain ⟨hadmitting, htask⟩ := h.admitting hphase
    rw [h.pushed, h.anchored, h.replayAfter, htask]
    exact ht.admitting hadmitting

/-- What one push leaves behind. -/
theorem deliverNow_cases (entry : SubscriberEntry) (event : ExecutionChannelEvent) :
    entry.deliverNow event = entry ∧ (entry.phase = .closed ∨ 0 < event.seq ∧ event.seq ≤ entry.lastSeq) ∨
    entry.phase ≠ .closed ∧ (entry.deliverNow event).pushed = entry.pushed ++ [event] ∧
      (entry.deliverNow event).replayAfter = entry.replayAfter ∧
      (event.seq ≤ 0 ∧ (entry.deliverNow event).lastSeq = entry.lastSeq ∧
          (entry.deliverNow event).anchored = entry.anchored ∨
        0 < event.seq ∧ entry.lastSeq < event.seq ∧
          (entry.deliverNow event).lastSeq = event.seq ∧ (entry.deliverNow event).anchored = true) ∧
      ((entry.deliverNow event).phase = .closed ∨
        (entry.deliverNow event).phase = entry.phase ∧
          (entry.deliverNow event).pending = entry.pending) := by
  unfold deliverNow
  by_cases hclosed : entry.phase = .closed
  · rw [if_pos hclosed]
    exact Or.inl ⟨rfl, Or.inl hclosed⟩
  · rw [if_neg hclosed]
    by_cases hold : 0 < event.seq ∧ event.seq ≤ entry.lastSeq
    · rw [if_pos hold]
      exact Or.inl ⟨rfl, Or.inr hold⟩
    · rw [if_neg hold]
      apply Or.inr
      by_cases hseq : 0 < event.seq
      · have hlast : entry.lastSeq < event.seq := by omega
        by_cases hterminal : event.isTerminal = true <;>
          simp [hclosed, hseq, hlast, hterminal, unsubscribe]
      · have hseq' : event.seq ≤ 0 := by omega
        by_cases hterminal : event.isTerminal = true <;>
          simp [hclosed, hseq, hseq', hterminal, unsubscribe]

theorem phase_deliverNow (entry : SubscriberEntry) (event : ExecutionChannelEvent) :
    (entry.deliverNow event).phase = .closed ∨
      (entry.deliverNow event).phase = entry.phase ∧
        (entry.deliverNow event).pending = entry.pending := by
  rcases deliverNow_cases entry event with ⟨hsame, _⟩ | ⟨_, _, _, _, hphase⟩
  · rw [hsame]
    exact Or.inr ⟨rfl, rfl⟩
  · exact hphase

theorem phase_deliverNow_ne_admitting (event : ExecutionChannelEvent)
    (h : entry.phase ≠ .admitting) : (entry.deliverNow event).phase ≠ .admitting := by
  rcases phase_deliverNow entry event with hclosed | ⟨hsame, _⟩
  · rw [hclosed]
    decide
  · rwa [hsame]

theorem view_deliverNow {event : ExecutionChannelEvent}
    (hpushed : (entry.deliverNow event).pushed = entry.pushed ++ [event])
    (hafter : (entry.deliverNow event).replayAfter = entry.replayAfter) :
    (entry.deliverNow event).view = entry.view.receive event := by
  unfold view
  rw [hpushed, hafter, List.foldl_append]
  rfl

theorem Tracked.deliverNow (event : ExecutionChannelEvent) (hphase : entry.phase ≠ .admitting)
    (h : entry.Tracked) : (entry.deliverNow event).Tracked := by
  rcases deliverNow_cases entry event with ⟨hsame, _⟩ | ⟨_, hpushed, hafter, hseq, _⟩
  · rw [hsame]
    exact h
  have hview := view_deliverNow hpushed hafter
  have hadmitting := phase_deliverNow_ne_admitting event hphase
  rcases hseq with ⟨hle, hlast, hanchored⟩ | ⟨hpos, hnew, hlast, hanchored⟩
  · have hseqs : (entry.deliverNow event).pushedSeqs = entry.pushedSeqs := by
      unfold pushedSeqs
      rw [hpushed]
      simp [hle]
    refine ⟨?_, ?_, ?_, ?_, ?_, ?_, fun hp => absurd hp hadmitting⟩
    · have hposition : (entry.view.receive event).position = entry.view.position := by
        unfold ClientView.receive
        rw [if_neg (by omega)]
        split <;> rfl
      rw [hview, hposition, hlast, hanchored]
      exact h.position
    · rw [hlast]
      exact h.lastSeq_nonneg
    · rw [hafter, hlast]
      exact h.replayAfter_le
    · rw [hseqs]
      exact h.increasing
    · rw [hseqs, hlast]
      exact h.le_lastSeq
    · rw [hseqs, hafter]
      exact h.above
  · have hseqs : (entry.deliverNow event).pushedSeqs = entry.pushedSeqs ++ [event.seq] := by
      unfold pushedSeqs
      rw [hpushed]
      simp [hpos]
    refine ⟨?_, ?_, ?_, ?_, ?_, ?_, fun hp => absurd hp hadmitting⟩
    · rw [hview, hlast, hanchored]
      unfold ClientView.receive
      rw [if_pos hpos]
      rfl
    · omega
    · intro position hposition
      rw [hafter] at hposition
      have := h.replayAfter_le position hposition
      omega
    · rw [hseqs, List.pairwise_append]
      refine ⟨h.increasing, List.pairwise_singleton _ _, ?_⟩
      intro seq hmem seq' hmem'
      have hold := h.le_lastSeq seq hmem
      rw [List.mem_singleton] at hmem'
      omega
    · intro seq hmem
      rw [hseqs, List.mem_append, List.mem_singleton] at hmem
      rcases hmem with hmem | rfl
      · have hold := h.le_lastSeq seq hmem
        omega
      · omega
    · intro seq hmem position hposition
      rw [hafter] at hposition
      rw [hseqs, List.mem_append, List.mem_singleton] at hmem
      rcases hmem with hmem | rfl
      · exact h.above seq hmem position hposition
      · have hle := h.replayAfter_le position hposition
        omega

/-- The stream moves by deliveries only. -/
inductive Serves : SubscriberEntry → SubscriberEntry → Prop
  | same {entry entry' : SubscriberEntry} (h : SameStream entry entry') : Serves entry entry'
  | deliver (entry : SubscriberEntry) (event : ExecutionChannelEvent)
      (h : entry.phase ≠ .admitting) : Serves entry (entry.deliverNow event)
  | trans {entry entry' entry'' : SubscriberEntry} (h : Serves entry entry')
      (h' : Serves entry' entry'') : Serves entry entry''

theorem Serves.tracked {entry' : SubscriberEntry} (h : Serves entry entry') :
    entry.Tracked → entry'.Tracked := by
  induction h with
  | same h => exact h.tracked
  | deliver entry event h => exact Tracked.deliverNow event h
  | trans _ _ ih ih' => exact ih' ∘ ih

theorem Serves.ne_admitting {entry' : SubscriberEntry} (h : Serves entry entry') :
    entry.phase ≠ .admitting → entry'.phase ≠ .admitting := by
  induction h with
  | same h => exact fun hphase h' => hphase (h.admitting h').1
  | deliver entry event _ => exact phase_deliverNow_ne_admitting event
  | trans _ _ ih ih' => exact ih' ∘ ih

theorem serves_refl (entry : SubscriberEntry) : Serves entry entry :=
  .same ⟨rfl, rfl, rfl, rfl, fun h => ⟨h, rfl⟩⟩

/-- Outside of the admission the control fields are free. -/
theorem serves_control {entry' : SubscriberEntry} (hpushed : entry'.pushed = entry.pushed)
    (hlast : entry'.lastSeq = entry.lastSeq) (hanchored : entry'.anchored = entry.anchored)
    (hafter : entry'.replayAfter = entry.replayAfter) (h : entry'.phase ≠ .admitting) :
    Serves entry entry' :=
  .same ⟨hpushed, hlast, hanchored, hafter, fun hp => absurd hp h⟩

theorem serves_deliverItem (item : PendingItem) (h : entry.phase ≠ .admitting) :
    Serves entry (entry.deliverItem item) := by
  cases item with
  | event event => exact .deliver entry event h
  | omitted seq =>
    show Serves entry (entry.signalOmitted seq)
    unfold signalOmitted
    split
    · exact serves_refl entry
    · exact .deliver entry _ h

theorem serves_deliverAll (items : List PendingItem) :
    ∀ {entry : SubscriberEntry}, entry.phase ≠ .admitting → Serves entry (deliverAll entry items) := by
  induction items with
  | nil => exact fun _ => serves_refl _
  | cons item items ih =>
    intro entry h
    rw [deliverAll]
    split
    · exact serves_refl entry
    · have hitem := serves_deliverItem item h
      exact .trans hitem (ih (hitem.ne_admitting h))

theorem serves_signalThenLive (lastEventId : Int) (h : entry.phase ≠ .admitting) :
    Serves entry { entry.signalUnavailable lastEventId with task := .goingLive } :=
  have hsignal : Serves entry (entry.signalUnavailable lastEventId) := .deliver entry _ h
  hsignal.trans (serves_control rfl rfl rfl rfl (hsignal.ne_admitting h))

theorem serves_catchUp (entry : SubscriberEntry) : Serves entry entry.catchUp := by
  unfold catchUp
  dsimp only
  split
  · exact serves_control rfl rfl rfl rfl Phase.noConfusion
  · have hcatching : Serves entry { entry with resyncRequested := false, phase := .catchingUp } :=
      serves_control rfl rfl rfl rfl Phase.noConfusion
    exact hcatching.trans (serves_signalThenLive _ Phase.noConfusion)

theorem serves_openLive (entry : SubscriberEntry) : Serves entry entry.openLive := by
  unfold openLive
  dsimp only
  have hlive : ∀ overflowed, Serves entry { entry with
      phase := .live, pending := [], task := .idle, pendingOverflowed := overflowed } :=
    fun _ => serves_control rfl rfl rfl rfl Phase.noConfusion
  split
  · exact .trans (hlive false) (.deliver _ _ Phase.noConfusion)
  · exact hlive _

theorem serves_goLive (h : entry.phase ≠ .admitting) : Serves entry entry.goLive := by
  have hopen := serves_openLive entry
  have hall := hopen.trans (serves_deliverAll entry.pending (hopen.ne_admitting h))
  unfold goLive
  dsimp only
  split
  · exact hall.trans (serves_catchUp _)
  · exact hall

theorem serves_accept (entry : SubscriberEntry) (item : PendingItem) : Serves entry (entry.accept item) := by
  have hcollect : Serves entry (entry.collect item) := by
    unfold collect
    dsimp only
    split <;> exact .same ⟨rfl, rfl, rfl, rfl, fun h => ⟨h, rfl⟩⟩
  unfold accept
  split
  case h_1 => exact serves_refl entry
  case h_2 hlive =>
    apply serves_deliverItem
    rw [hlive]
    decide
  all_goals exact hcollect

theorem serves_replayFromBuffer (lastEventId : Int) (resuming : Bool) (buffer : SseBufferRead)
    (now : Int) (h : entry.phase ≠ .admitting) :
    Serves entry (entry.replayFromBuffer lastEventId resuming buffer now) := by
  unfold replayFromBuffer
  dsimp only
  split
  · have hreplay : Serves entry (entry.replayOrSignalUnavailable lastEventId
        (buffer.events.filter fun item => lastEventId < item.seq) now) := by
      unfold replayOrSignalUnavailable
      dsimp only
      split
      · exact .deliver entry _ h
      · exact serves_deliverAll _ h
    exact hreplay.trans (serves_control rfl rfl rfl rfl (hreplay.ne_admitting h))
  · split <;> exact serves_control rfl rfl rfl rfl h

theorem serves_replayFromCounter (lastEventId : Int) (latest : Option Int)
    (h : entry.phase ≠ .admitting) : Serves entry (entry.replayFromCounter lastEventId latest) := by
  unfold replayFromCounter
  split
  · exact serves_signalThenLive _ h
  · exact serves_control rfl rfl rfl rfl h

theorem serves_resync (entry : SubscriberEntry) : Serves entry entry.resync := by
  unfold resync
  split
  · exact serves_refl entry
  · split
    case h_1 => exact serves_catchUp entry
    case h_2 hphase =>
      refine serves_control rfl rfl rfl rfl ?_
      rw [hphase]
      decide
    all_goals exact serves_refl entry

/-! ## 3. The position over a whole run -/

theorem Tracked.task_ne_idle (h : entry.Tracked) (htask : entry.task ≠ .idle) :
    entry.phase ≠ .admitting :=
  fun hphase => htask (h.admitting hphase).2.2.2

/-- Every step but the start moves the stream by deliveries. -/
theorem serves_step (enabled : Bool) (h : entry.Tracked) {step : SseStep}
    (hstart : ∀ lastEventId, step ≠ .start lastEventId) :
    Serves entry (entry.step enabled step) := by
  cases step with
  | published _ => exact serves_refl entry
  | event event => exact serves_accept entry _
  | omitted seq => exact serves_accept entry _
  | start lastEventId => exact absurd rfl (hstart lastEventId)
  | liveRetained =>
    dsimp only [SubscriberEntry.step]
    split
    case h_1 replayAfter htask =>
      have hphase := h.task_ne_idle (by rw [htask]; exact Task.noConfusion)
      split
      · exact serves_refl entry
      · unfold afterRetain
        split <;> exact serves_control rfl rfl rfl rfl hphase
    case h_2 => exact serves_refl entry
  | bufferRead remote memory now =>
    dsimp only [SubscriberEntry.step]
    split
    case h_1 lastEventId resuming htask =>
      have hphase := h.task_ne_idle (by rw [htask]; exact Task.noConfusion)
      split
      · exact serves_refl entry
      · exact serves_replayFromBuffer _ _ _ _ hphase
    case h_2 => exact serves_refl entry
  | latestRead latest =>
    dsimp only [SubscriberEntry.step]
    split
    case h_1 lastEventId resuming htask =>
      have hphase := h.task_ne_idle (by rw [htask]; exact Task.noConfusion)
      split
      · exact serves_refl entry
      · exact serves_replayFromCounter _ _ hphase
    case h_2 => exact serves_refl entry
  | replayThrows =>
    dsimp only [SubscriberEntry.step]
    split
    case h_5 => exact serves_refl entry
    all_goals
      rename_i htask
      have hphase := h.task_ne_idle (by rw [htask]; exact Task.noConfusion)
      first
        | exact serves_signalThenLive _ hphase
        | exact serves_control rfl rfl rfl rfl hphase
  | goLive =>
    dsimp only [SubscriberEntry.step]
    split
    case h_1 htask =>
      have hphase := h.task_ne_idle (by rw [htask]; exact Task.noConfusion)
      split
      · exact serves_refl entry
      · exact serves_goLive hphase
    case h_2 => exact serves_refl entry
  | resync => exact serves_resync entry
  | unsubscribe => exact serves_control rfl rfl rfl rfl Phase.noConfusion

theorem normalizeLastEventId_nonneg {lastEventId : Option Rat} {position : Int}
    (h : normalizeLastEventId lastEventId = some position) : 0 ≤ position := by
  unfold normalizeLastEventId at h
  split at h
  case h_1 q =>
    split at h
    case isTrue hq =>
      rw [← Option.some.inj h]
      exact Int.floor_nonneg.mpr hq
    case isFalse => cases h
  case h_2 => cases h

/-- A subscriber starts where its `Last-Event-Id` says, or without a position. -/
theorem start_cases (enabled : Bool) (lastEventId : Option Rat) (h : entry.phase = .admitting) :
    ((entry.start enabled lastEventId).phase = .catchingUp ∧
      (entry.start enabled lastEventId).pushed = entry.pushed ∧
      (entry.start enabled lastEventId).pending = entry.pending ∧
      (entry.start enabled lastEventId).replayAfter = normalizeLastEventId lastEventId) ∧
    (normalizeLastEventId lastEventId = none ∧
        (entry.start enabled lastEventId).anchored = entry.anchored ∧
        (entry.start enabled lastEventId).lastSeq = entry.lastSeq ∧
        ((entry.start enabled lastEventId).task = .retaining none ∨
          (entry.start enabled lastEventId).task = .goingLive) ∨
      ∃ position, normalizeLastEventId lastEventId = some position ∧
        (entry.start enabled lastEventId).anchored = true ∧
        (entry.start enabled lastEventId).lastSeq = position ∧
        ((entry.start enabled lastEventId).task = .retaining (some position) ∨
          (entry.start enabled lastEventId).task = .readingBuffer position false)) := by
  unfold start
  rw [if_neg (not_not.mpr h)]
  dsimp only
  cases normalizeLastEventId lastEventId with
  | none => cases enabled <;> simp [afterRetain]
  | some position => cases enabled <;> simp [afterRetain]

theorem tracked_start (enabled : Bool) (lastEventId : Option Rat) (h : entry.Tracked) :
    (entry.start enabled lastEventId).Tracked := by
  by_cases hphase : entry.phase = .admitting
  case neg =>
    have hsame : entry.start enabled lastEventId = entry := if_pos hphase
    rw [hsame]
    exact h
  obtain ⟨hpushed, hanchored, hafter, -⟩ := h.admitting hphase
  obtain ⟨⟨hphase', hpushed', -, hafter'⟩, hposition⟩ := start_cases enabled lastEventId hphase
  rw [hpushed] at hpushed'
  have hseqs : (entry.start enabled lastEventId).pushedSeqs = [] := by
    unfold pushedSeqs
    rw [hpushed']
    rfl
  have hstart : normalizeLastEventId lastEventId =
      if (entry.start enabled lastEventId).anchored then
        some (entry.start enabled lastEventId).lastSeq else none := by
    rcases hposition with ⟨hnormal, hanchored', -, -⟩ | ⟨position, hnormal, hanchored', hlast, -⟩
    · rw [hnormal, hanchored', hanchored]
      rfl
    · rw [hnormal, hanchored', hlast]
      rfl
  constructor
  · unfold view
    rw [hpushed', ← hstart, ← hafter']
    rfl
  · rcases hposition with ⟨-, -, hlast, -⟩ | ⟨position, hnormal, -, hlast, -⟩
    · rw [hlast]
      exact h.lastSeq_nonneg
    · rw [hlast]
      exact normalizeLastEventId_nonneg hnormal
  · intro position hmem
    rw [hafter', hstart] at hmem
    split at hmem
    · rw [Option.mem_some_iff.mp hmem]
    · cases hmem
  · rw [hseqs]
    exact List.Pairwise.nil
  · rw [hseqs]
    exact fun _ hmem => absurd hmem List.not_mem_nil
  · rw [hseqs]
    exact fun _ hmem => absurd hmem List.not_mem_nil
  · rw [hphase']
    exact Phase.noConfusion

theorem tracked_step (enabled : Bool) (h : entry.Tracked) (step : SseStep) :
    (entry.step enabled step).Tracked := by
  by_cases hstart : ∃ lastEventId, step = .start lastEventId
  · obtain ⟨lastEventId, rfl⟩ := hstart
    exact tracked_start enabled lastEventId h
  · exact (serves_step enabled h fun lastEventId heq => hstart ⟨lastEventId, heq⟩).tracked h

/-- A delivery closes the subscriber or leaves its control fields alone. -/
theorem deliverItem_control (entry : SubscriberEntry) (item : PendingItem) :
    (entry.deliverItem item).phase = .closed ∨ (entry.deliverItem item).phase = entry.phase ∧
      (entry.deliverItem item).pending = entry.pending ∧
      (entry.deliverItem item).pendingOverflowed = entry.pendingOverflowed ∧
      (entry.deliverItem item).task = entry.task := by
  have hdeliver : ∀ event, (entry.deliverNow event).phase = .closed ∨
      (entry.deliverNow event).phase = entry.phase ∧
        (entry.deliverNow event).pending = entry.pending ∧
        (entry.deliverNow event).pendingOverflowed = entry.pendingOverflowed ∧
        (entry.deliverNow event).task = entry.task := by
    intro event
    unfold deliverNow
    dsimp only
    split
    · exact Or.inr ⟨rfl, rfl, rfl, rfl⟩
    · split
      · exact Or.inr ⟨rfl, rfl, rfl, rfl⟩
      · split
        · exact Or.inl rfl
        · apply Or.inr
          split <;> exact ⟨rfl, rfl, rfl, rfl⟩
  cases item with
  | event event => exact hdeliver event
  | omitted seq =>
    show (entry.signalOmitted seq).phase = .closed ∨ _
    dsimp only [deliverItem]
    unfold signalOmitted
    split
    · exact Or.inr ⟨rfl, rfl, rfl, rfl⟩
    · exact hdeliver _

theorem deliverAll_control (items : List PendingItem) : ∀ entry : SubscriberEntry,
    (deliverAll entry items).phase = .closed ∨ (deliverAll entry items).phase = entry.phase ∧
      (deliverAll entry items).pending = entry.pending ∧
      (deliverAll entry items).pendingOverflowed = entry.pendingOverflowed ∧
      (deliverAll entry items).task = entry.task := by
  induction items with
  | nil => exact fun _ => Or.inr ⟨rfl, rfl, rfl, rfl⟩
  | cons item items ih =>
    intro entry
    rw [deliverAll]
    split
    case isTrue hclosed => exact Or.inl hclosed
    case isFalse =>
      rcases deliverItem_control entry item with hclosed | ⟨hphase, hpending, hoverflow, htask⟩
      · rcases ih (entry.deliverItem item) with hclosed' | ⟨hphase', -⟩
        · exact Or.inl hclosed'
        · exact Or.inl (hphase'.trans hclosed)
      · rw [← hphase, ← hpending, ← hoverflow, ← htask]
        exact ih (entry.deliverItem item)

theorem openLive_control (entry : SubscriberEntry) : entry.openLive.phase = .closed ∨
    entry.openLive.phase = .live ∧ entry.openLive.pending = [] ∧ entry.openLive.task = .idle := by
  unfold openLive
  dsimp only
  split
  · apply (deliverItem_control { entry with
      phase := .live, pending := [], task := .idle, pendingOverflowed := false }
      (.event (buildReplayUnavailableEvent entry.executionId entry.lastSeq))).imp_right
    exact fun ⟨hphase, hpending, _, htask⟩ => ⟨hphase, hpending, htask⟩
  · exact Or.inr ⟨rfl, rfl, rfl⟩

theorem replayOrSignalUnavailable_control (entry : SubscriberEntry) (lastEventId : Int)
    (wanted : List BufferedSseEvent) (now : Int) :
    (entry.replayOrSignalUnavailable lastEventId wanted now).phase = .closed ∨
      (entry.replayOrSignalUnavailable lastEventId wanted now).phase = entry.phase ∧
        (entry.replayOrSignalUnavailable lastEventId wanted now).pending = entry.pending := by
  unfold replayOrSignalUnavailable
  dsimp only
  split
  · exact phase_deliverNow entry _
  · rcases deliverAll_control _ entry with hclosed | ⟨hphase, hpending, -⟩
    · exact Or.inl hclosed
    · exact Or.inr ⟨hphase, hpending⟩

end SubscriberEntry

/-! ## 4. Arrivals that come one after the other -/

/-- What is known about the seq of the next arrival. -/
inductive Expected
  | free
  | atMost (seq : Int)
  | exactly (seq : Int)
  deriving DecidableEq

def Expected.bound : Expected → Option Int
  | .free => none
  | .atMost seq => some seq
  | .exactly seq => some seq

def Expected.Admits : Expected → Int → Prop
  | .free, _ => True
  | .atMost bound, seq => seq ≤ bound
  | .exactly next, seq => seq = next

def PendingItem.seq : PendingItem → Int
  | .event arrived => arrived.seq
  | .omitted seq => seq

/-- The seqs of the items that have a place in the order. -/
def seqsOf (items : List PendingItem) : List Int :=
  (items.map PendingItem.seq).filter fun seq => 0 < seq

/-- What comes first when `seqs` come before what is expected after them. -/
def upcoming : List Int → Expected → Expected
  | [], expected => expected
  | seq :: _, _ => .exactly seq

def Consecutive : List Int → Expected → Prop
  | [], _ => True
  | seq :: seqs, expected => upcoming seqs expected = .exactly (seq + 1) ∧ Consecutive seqs expected

theorem consecutive_append {seqs : List Int} {expected : Expected} {seq : Int}
    (h : Consecutive seqs expected) (hseq : expected.Admits seq) :
    Consecutive (seqs ++ [seq]) (.exactly (seq + 1)) := by
  induction seqs with
  | nil => exact ⟨rfl, trivial⟩
  | cons first rest ih =>
    refine ⟨?_, ih h.2⟩
    cases rest with
    | nil =>
      have hexpected : expected = .exactly (first + 1) := h.1
      rw [hexpected] at hseq
      have hnext : seq = first + 1 := hseq
      rw [hnext]
      rfl
    | cons second rest => exact h.1

theorem Consecutive.tail {seqs : List Int} {expected : Expected} (h : Consecutive seqs expected) :
    Consecutive seqs.tail expected := by
  cases seqs with
  | nil => exact trivial
  | cons seq seqs => exact h.2

/-- The first of consecutive seqs is the least, and what follows them is above it. -/
theorem Consecutive.head_le {first : Int} {rest : List Int} {expected : Expected}
    (h : Consecutive (first :: rest) expected) :
    (∀ seq ∈ first :: rest, first ≤ seq) ∧ ∃ next, expected = .exactly next ∧ first < next := by
  induction rest generalizing first with
  | nil =>
    refine ⟨fun seq hmem => ?_, first + 1, h.1, by omega⟩
    rw [List.mem_singleton.mp hmem]
  | cons second rest ih =>
    obtain ⟨hleast, next, hnext, hlt⟩ := ih h.2
    have hsecond : second = first + 1 := Expected.exactly.inj h.1
    refine ⟨fun seq hmem => ?_, next, hnext, by omega⟩
    rcases List.mem_cons.mp hmem with rfl | hmem
    · exact le_refl seq
    · have := hleast seq hmem
      omega

/-- The upcoming seq is no larger than what is expected after the pending ones. -/
theorem Consecutive.upcoming_bound {seqs : List Int} {expected : Expected} {bound : Int}
    (h : Consecutive seqs expected) (hbound : ∀ next ∈ expected.bound, next ≤ bound)
    (hknown : expected ≠ .free) : ∃ next, (upcoming seqs expected).bound = some next ∧ next ≤ bound := by
  cases seqs with
  | nil =>
    cases hexpected : expected with
    | free => exact absurd hexpected hknown
    | atMost next => exact ⟨next, rfl, hbound next (by rw [hexpected]; rfl)⟩
    | exactly next => exact ⟨next, rfl, hbound next (by rw [hexpected]; rfl)⟩
  | cons first rest =>
    obtain ⟨-, next, hnext, hlt⟩ := h.head_le
    refine ⟨first, rfl, ?_⟩
    have hle := hbound next (by rw [hnext]; rfl)
    omega

/-! ## 5. Deliveries without a silent gap -/

/-- No gap is silent so far, and what is expected next opens none. -/
structure Continues (entry : SubscriberEntry) (expected : Expected) : Prop where
  tracked : entry.Tracked
  noGap : entry.view.silentGap = false
  joins : entry.phase ≠ .closed → entry.anchored = true →
    entry.view.signalled = true ∨ ∃ next, expected.bound = some next ∧ next ≤ entry.lastSeq + 1

namespace Continues

variable {entry : SubscriberEntry} {expected : Expected}

theorem of_control {entry' : SubscriberEntry} (h : Continues entry expected)
    (hsame : SubscriberEntry.SameStream entry entry')
    (hphase : entry.phase = .closed → entry'.phase = .closed) : Continues entry' expected := by
  refine ⟨hsame.tracked h.tracked, ?_, ?_⟩
  · rw [hsame.view]
    exact h.noGap
  · rw [hsame.view, hsame.anchored, hsame.lastSeq]
    exact fun hopen => h.joins fun hclosed => hopen (hphase hclosed)

theorem of_closed (hclosed : entry.phase = .closed) (htracked : entry.Tracked)
    (hgap : entry.view.silentGap = false) : Continues entry expected :=
  ⟨htracked, hgap, fun hopen => absurd hclosed hopen⟩

/-- The next seq of the order is delivered. -/
theorem deliverSeq {event : ExecutionChannelEvent} (hphase : entry.phase ≠ .admitting)
    (hseq : 0 < event.seq) (h : Continues entry (.exactly event.seq)) :
    Continues (entry.deliverNow event) (.exactly (event.seq + 1)) := by
  rcases SubscriberEntry.deliverNow_cases entry event with
    ⟨hsame, hreason⟩ | ⟨hopen, hpushed, hafter, hmoved, -⟩
  · rw [hsame]
    refine ⟨h.tracked, h.noGap, fun hopen _ => Or.inr ⟨event.seq + 1, rfl, ?_⟩⟩
    rcases hreason with hclosed | hold
    · exact absurd hclosed hopen
    · omega
  · rcases hmoved with ⟨hle, -⟩ | ⟨-, -, hlast, -⟩
    · exact absurd hseq (not_lt.mpr hle)
    refine ⟨h.tracked.deliverNow event hphase, ?_, fun _ _ => Or.inr ⟨event.seq + 1, rfl, ?_⟩⟩
    · rw [SubscriberEntry.view_deliverNow hpushed hafter]
      unfold ClientView.receive
      rw [if_pos hseq]
      show (entry.view.silentGap || (!entry.view.signalled &&
        entry.view.position.any fun position => position + 1 < event.seq)) = false
      rw [h.noGap, h.tracked.position, Bool.false_or]
      -- a gap is seen only from a position, and there the seq was the one expected
      cases hanchored : entry.anchored with
      | false => simp
      | true =>
        rcases h.joins hopen hanchored with hsignalled | ⟨next, hnext, hle⟩
        · rw [hsignalled]
          rfl
        · rw [← Option.some.inj hnext] at hle
          simp [show ¬ entry.lastSeq + 1 < event.seq by omega]
    · omega

/-- A frame without a seq leaves the position alone. -/
theorem deliverUnnumbered {event : ExecutionChannelEvent} (hphase : entry.phase ≠ .admitting)
    (hseq : event.seq ≤ 0) (h : Continues entry expected) :
    Continues (entry.deliverNow event) expected := by
  rcases SubscriberEntry.deliverNow_cases entry event with
    ⟨hsame, -⟩ | ⟨hopen, hpushed, hafter, hmoved, -⟩
  · rw [hsame]
    exact h
  · rcases hmoved with ⟨-, hlast, hanchored⟩ | ⟨hpos, -⟩
    case inr => exact absurd hpos (not_lt.mpr hseq)
    have hview := SubscriberEntry.view_deliverNow hpushed hafter
    have hreceive : entry.view.receive event = entry.view ∨
        entry.view.receive event = { entry.view with signalled := true } := by
      unfold ClientView.receive
      rw [if_neg (by omega)]
      split
      · exact Or.inr rfl
      · exact Or.inl rfl
    refine ⟨h.tracked.deliverNow event hphase, ?_, fun _ hanchored' => ?_⟩
    · rw [hview]
      rcases hreceive with heq | heq <;> rw [heq] <;> exact h.noGap
    · rw [hanchored] at hanchored'
      rw [hview, hlast]
      rcases hreceive with heq | heq <;> rw [heq]
      · exact h.joins hopen hanchored'
      · exact Or.inl rfl

/-- After the signal any seq may come. -/
theorem signal (lastEventId : Int) (expected' : Expected) (hphase : entry.phase ≠ .admitting)
    (htracked : entry.Tracked) (hgap : entry.view.silentGap = false) :
    Continues (entry.signalUnavailable lastEventId) expected' := by
  have hseq : (buildReplayUnavailableEvent entry.executionId lastEventId).seq = 0 := rfl
  rcases SubscriberEntry.deliverNow_cases entry
      (buildReplayUnavailableEvent entry.executionId lastEventId) with
    ⟨hsame, hreason⟩ | ⟨-, hpushed, hafter, -, -⟩
  · have hclosed : entry.phase = .closed := by
      rcases hreason with hclosed | hold
      · exact hclosed
      · omega
    have hsame' : entry.signalUnavailable lastEventId = entry := hsame
    rw [hsame']
    exact of_closed hclosed htracked hgap
  · have hview := SubscriberEntry.view_deliverNow hpushed hafter
    have hreceive : entry.view.receive (buildReplayUnavailableEvent entry.executionId lastEventId) =
        { entry.view with signalled := true } := by
      unfold ClientView.receive
      rw [if_neg (by omega)]
      exact if_pos rfl
    rw [hreceive] at hview
    refine ⟨htracked.deliverNow _ hphase, ?_, fun _ _ => Or.inl ?_⟩
    · unfold SubscriberEntry.signalUnavailable
      rw [hview]
      exact hgap
    · unfold SubscriberEntry.signalUnavailable
      rw [hview]

theorem deliverItem {item : PendingItem} (hphase : entry.phase ≠ .admitting) (hseq : 0 < item.seq)
    (h : Continues entry (.exactly item.seq)) :
    Continues (entry.deliverItem item) (.exactly (item.seq + 1)) := by
  cases item with
  | event event => exact h.deliverSeq hphase hseq
  | omitted seq =>
    show Continues (entry.signalOmitted seq) (.exactly (seq + 1))
    unfold SubscriberEntry.signalOmitted
    split
    case isTrue hold => exact ⟨h.tracked, h.noGap, fun _ _ => Or.inr ⟨seq + 1, rfl, by omega⟩⟩
    case isFalse => exact signal _ _ hphase h.tracked h.noGap

theorem deliverItem_unnumbered {item : PendingItem} (hphase : entry.phase ≠ .admitting)
    (hseq : item.seq ≤ 0) (h : Continues entry expected) :
    Continues (entry.deliverItem item) expected := by
  cases item with
  | event event => exact h.deliverUnnumbered hphase hseq
  | omitted seq =>
    show Continues (entry.signalOmitted seq) expected
    have hseq' : seq ≤ 0 := hseq
    have hold : seq ≤ entry.lastSeq := hseq'.trans h.tracked.lastSeq_nonneg
    unfold SubscriberEntry.signalOmitted
    rw [if_pos hold]
    exact h

theorem deliverAll {items : List PendingItem} :
    ∀ {entry : SubscriberEntry}, entry.phase ≠ .admitting → Consecutive (seqsOf items) expected →
      Continues entry (upcoming (seqsOf items) expected) →
      Continues (deliverAll entry items) expected := by
  induction items with
  | nil => exact fun _ _ h => h
  | cons item items ih =>
    intro entry hphase hconsecutive h
    rw [ExternalInteraction.deliverAll]
    split
    case isTrue hclosed => exact of_closed hclosed h.tracked h.noGap
    have hphase' := (SubscriberEntry.serves_deliverItem item hphase).ne_admitting hphase
    by_cases hseq : 0 < item.seq
    · have hseqs : seqsOf (item :: items) = item.seq :: seqsOf items := by
        simp [seqsOf, hseq]
      rw [hseqs] at hconsecutive h
      apply ih hphase' hconsecutive.2
      rw [hconsecutive.1]
      exact h.deliverItem hphase hseq
    · have hseqs : seqsOf (item :: items) = seqsOf items := by
        simp [seqsOf, hseq]
      rw [hseqs] at hconsecutive h
      exact ih hphase' hconsecutive (h.deliverItem_unnumbered hphase (not_lt.mp hseq))

theorem of_admits {seq : Int} (h : Continues entry expected) (hseq : expected.Admits seq) :
    Continues entry (.exactly seq) := by
  refine ⟨h.tracked, h.noGap, fun hopen hanchored => ?_⟩
  rcases h.joins hopen hanchored with hsignalled | ⟨next, hnext, hle⟩
  · exact Or.inl hsignalled
  · refine Or.inr ⟨seq, rfl, ?_⟩
    cases expected with
    | free => cases hnext
    | atMost bound =>
      have hbound : bound = next := Option.some.inj hnext
      have hseq' : seq ≤ bound := hseq
      omega
    | exactly first =>
      have hfirst : first = next := Option.some.inj hnext
      have hseq' : seq = first := hseq
      omega

/-- What is expected may as well be smaller. -/
theorem of_le {seq : Int} {expected' : Expected} (h : Continues entry (.exactly seq))
    (hnext : ∃ next, expected'.bound = some next ∧ next ≤ seq) : Continues entry expected' := by
  obtain ⟨next, hnext, hle⟩ := hnext
  refine ⟨h.tracked, h.noGap, fun hopen hanchored => ?_⟩
  rcases h.joins hopen hanchored with hsignalled | ⟨bound, hbound, hle'⟩
  · exact Or.inl hsignalled
  · have hbound' : seq = bound := Option.some.inj hbound
    exact Or.inr ⟨next, hnext, by omega⟩

/-- Right after the last seq the next one continues. -/
theorem of_lastSeq (htracked : entry.Tracked) (hgap : entry.view.silentGap = false) :
    Continues entry (.exactly (entry.lastSeq + 1)) :=
  ⟨htracked, hgap, fun _ _ => Or.inr ⟨entry.lastSeq + 1, rfl, le_refl _⟩⟩

end Continues

/-! ## 6. The subscriber among the other steps -/

structure Session where
  entry : SubscriberEntry
  /-- The greatest seq published so far. -/
  publishedSeq : Int := 0
  expected : Expected := .free

namespace Session

def expectedAfterArrival (session : Session) (seq : Int) : Expected :=
  if 0 < seq then .exactly (seq + 1) else session.expected

/-- The live channel is subscribed before the buffer is read, and again before `resync`: what is
published after that arrives. -/
def expectedAfter (session : Session) : SseStep → Expected
  | .event event => session.expectedAfterArrival event.seq
  | .omitted seq => session.expectedAfterArrival seq
  | .bufferRead .. =>
    match session.entry.task, session.expected with
    | .readingBuffer .., .free => .atMost (session.publishedSeq + 1)
    | _, expected => expected
  | .resync =>
    if session.entry.retainsLive && session.entry.phase = .live then
      .atMost (session.publishedSeq + 1)
    else session.expected
  | _ => session.expected

def step (enabled : Bool) (session : Session) (step : SseStep) : Session where
  entry := session.entry.step enabled step
  publishedSeq :=
    match step with
    | .published seq => max session.publishedSeq seq
    | _ => session.publishedSeq
  expected := session.expectedAfter step

/-- What arrives has been published, and the counter is not behind it. -/
def Published (session : Session) : SseStep → Prop
  | .event event => event.seq ≤ session.publishedSeq
  | .omitted seq => seq ≤ session.publishedSeq
  | .latestRead (some latest) => session.publishedSeq ≤ latest
  | _ => True

/-- A buffer read that settles the replay shows the newest published event, which was received
last. -/
def ShowsNewest (publishedSeq lastEventId : Int) (buffer : SseBufferRead) : Prop :=
  (∃ item ∈ buffer.events, lastEventId < item.seq) ∨
      buffer.complete ∧ (buffer.events ≠ [] ∨ 0 < buffer.skipped) →
    publishedSeq ≤ lastEventId ∨ ∃ newest ∈ buffer.events, publishedSeq ≤ newest.seq ∧
      ∀ item ∈ buffer.events, item.receivedAt ≤ newest.receivedAt

/-- What the delivery without gap detection relies on. -/
def InOrder (enabled : Bool) (session : Session) : SseStep → Prop
  | .event event => 0 < event.seq → session.expected.Admits event.seq
  | .omitted seq => 0 < seq → session.expected.Admits seq
  | .bufferRead remote memory _ => ∀ lastEventId resuming,
      session.entry.task = .readingBuffer lastEventId resuming →
        ShowsNewest session.publishedSeq lastEventId (readBuffer enabled remote memory lastEventId)
  | _ => True

/-- A run each of whose steps finds `allowed` true of the session before it. -/
def Allowed (enabled : Bool) (allowed : Session → SseStep → Prop) : Session → List SseStep → Prop
  | _, [] => True
  | session, step :: steps =>
    allowed session step ∧ Allowed enabled allowed (session.step enabled step) steps

end Session

/-- The position that the waiting procedure replays from. -/
def Task.replayFrom : Task → Option (Option Int)
  | .retaining replayAfter => some replayAfter
  | .readingBuffer lastEventId _ | .readingLatest lastEventId _ => some (some lastEventId)
  | .idle | .goingLive => none

/-- What holds of an open subscriber while arrivals come in order. -/
structure Session.Open (session : Session) : Prop where
  consecutive : Consecutive (seqsOf session.entry.pending) session.expected
  replayFrom : ∀ position, session.entry.task.replayFrom = some position →
    session.entry.phase = .catchingUp ∧
      position = if session.entry.anchored then some session.entry.lastSeq else none
  known : ∀ lastEventId resuming, session.entry.task = .readingLatest lastEventId resuming →
    session.expected ≠ .free
  goingLive : session.entry.task = .goingLive →
    session.entry.phase = .catchingUp ∧ (session.entry.pendingOverflowed = true ∨
      Continues session.entry (upcoming (seqsOf session.entry.pending) session.expected))
  live : session.entry.phase = .live → session.entry.pending = [] ∧
    session.entry.task = .idle ∧ Continues session.entry session.expected

structure Session.Ordered (session : Session) : Prop where
  tracked : session.entry.Tracked
  noGap : session.entry.view.silentGap = false
  published : ∀ next ∈ session.expected.bound, next ≤ session.publishedSeq + 1
  opened : session.entry.phase ≠ .closed → session.Open

theorem seqsOf_append (items : List PendingItem) (item : PendingItem) :
    seqsOf (items ++ [item]) = seqsOf items ++ if 0 < item.seq then [item.seq] else [] := by
  by_cases hseq : 0 < item.seq <;> simp [seqsOf, hseq]

theorem consecutive_seqsOf_tail {items : List PendingItem} {expected : Expected}
    (h : Consecutive (seqsOf items) expected) : Consecutive (seqsOf items.tail) expected := by
  cases items with
  | nil => exact h
  | cons item items =>
    by_cases hseq : 0 < item.seq
    · have hseqs : seqsOf (item :: items) = item.seq :: seqsOf items := by simp [seqsOf, hseq]
      rw [hseqs] at h
      exact h.2
    · have hseqs : seqsOf (item :: items) = seqsOf items := by simp [seqsOf, hseq]
      rw [hseqs] at h
      exact h

namespace Session.Ordered

variable {session : Session}

/-- The collected items stay in order, and the first of them stays as near. -/
theorem collected {item : PendingItem} {entry : SubscriberEntry} {expected : Expected}
    (hseq : 0 < item.seq → expected.Admits item.seq)
    (hconsecutive : Consecutive (seqsOf entry.pending) expected) :
    let expected' := if 0 < item.seq then Expected.exactly (item.seq + 1) else expected
    Consecutive (seqsOf (entry.pending ++ [item])) expected' ∧
      (Continues entry (upcoming (seqsOf entry.pending) expected) →
        Continues entry (upcoming (seqsOf (entry.pending ++ [item])) expected')) := by
  dsimp only
  rw [seqsOf_append]
  by_cases hpos : 0 < item.seq
  · rw [if_pos hpos, if_pos hpos]
    refine ⟨consecutive_append hconsecutive (hseq hpos), fun h => ?_⟩
    cases hpending : seqsOf entry.pending with
    | nil =>
      rw [hpending] at h
      exact h.of_admits (hseq hpos)
    | cons first rest =>
      rw [hpending] at h
      exact h
  · rw [if_neg hpos, if_neg hpos, List.append_nil]
    exact ⟨hconsecutive, id⟩

/-- A closed subscriber only has to be silent. -/
theorem of_closed (htracked : session.entry.Tracked)
    (hgap : session.entry.view.silentGap = false)
    (hpublished : ∀ next ∈ session.expected.bound, next ≤ session.publishedSeq + 1)
    (hclosed : session.entry.phase = .closed) : session.Ordered :=
  ⟨htracked, hgap, hpublished, fun hopen => absurd hclosed hopen⟩

theorem accept (item : PendingItem) (h : session.Ordered)
    (hpublished : item.seq ≤ session.publishedSeq)
    (hseq : 0 < item.seq → session.expected.Admits item.seq) :
    Session.Ordered { session with
      entry := session.entry.accept item
      expected := session.expectedAfterArrival item.seq } := by
  have htracked := (SubscriberEntry.serves_accept session.entry item).tracked h.tracked
  have hbound : ∀ next ∈ (session.expectedAfterArrival item.seq).bound,
      next ≤ session.publishedSeq + 1 := by
    unfold Session.expectedAfterArrival
    split
    · intro next hnext
      have hnext' : item.seq + 1 = next := Option.some.inj hnext
      omega
    · exact h.published
  by_cases hclosed : session.entry.phase = .closed
  · have hsame : session.entry.accept item = session.entry := by
      unfold SubscriberEntry.accept
      rw [hclosed]
    rw [hsame] at htracked ⊢
    exact of_closed htracked h.noGap hbound hclosed
  have hopen := h.opened hclosed
  by_cases hlive : session.entry.phase = .live
  · have hdeliver : session.entry.accept item = session.entry.deliverItem item := by
      unfold SubscriberEntry.accept
      rw [hlive]
    have hphase : session.entry.phase ≠ .admitting := by
      rw [hlive]
      decide
    obtain ⟨hpending, htask, hcontinues⟩ := hopen.live hlive
    have hcontinues' : Continues (session.entry.deliverItem item)
        (session.expectedAfterArrival item.seq) := by
      unfold Session.expectedAfterArrival
      by_cases hpos : 0 < item.seq
      · rw [if_pos hpos]
        exact (hcontinues.of_admits (hseq hpos)).deliverItem hphase hpos
      · rw [if_neg hpos]
        exact hcontinues.deliverItem_unnumbered hphase (not_lt.mp hpos)
    rw [hdeliver]
    refine ⟨hcontinues'.tracked, hcontinues'.noGap, hbound, fun hopen' => ?_⟩
    rcases SubscriberEntry.deliverItem_control session.entry item with
      hclosed' | ⟨hphase', hpending', -, htask'⟩
    · exact absurd hclosed' hopen'
    · have htask'' : (session.entry.deliverItem item).task = .idle := htask'.trans htask
      have hpending'' : (session.entry.deliverItem item).pending = [] := hpending'.trans hpending
      constructor
      · dsimp only
        rw [hpending'']
        exact trivial
      · dsimp only
        rw [htask'']
        exact fun position hposition => absurd hposition (by simp [Task.replayFrom])
      · dsimp only
        rw [htask'']
        exact fun _ _ hreading => absurd hreading Task.noConfusion
      · dsimp only
        rw [htask'']
        exact fun hgoing => absurd hgoing Task.noConfusion
      · exact fun _ => ⟨hpending'', htask'', hcontinues'⟩
  · have hcollect : session.entry.accept item = session.entry.collect item := by
      unfold SubscriberEntry.accept
      split
      · contradiction
      · contradiction
      · rfl
      · rfl
    rw [hcollect]
    rw [hcollect] at htracked
    have hview : (session.entry.collect item).view = session.entry.view := by
      unfold SubscriberEntry.collect
      dsimp only
      split <;> rfl
    refine ⟨htracked, hview ▸ h.noGap, hbound, fun _ => ?_⟩
    obtain ⟨hconsecutive, hnear⟩ := collected hseq hopen.consecutive
    have hknown : ∀ lastEventId resuming,
        session.entry.task = .readingLatest lastEventId resuming →
          session.expectedAfterArrival item.seq ≠ .free := by
      unfold Session.expectedAfterArrival
      split
      · exact fun _ _ _ => Expected.noConfusion
      · exact hopen.known
    unfold SubscriberEntry.collect
    dsimp only
    split
    · exact ⟨consecutive_seqsOf_tail hconsecutive, hopen.replayFrom, hknown,
        fun hgoing => ⟨(hopen.goingLive hgoing).1, Or.inl rfl⟩, fun hlive' => absurd hlive' hlive⟩
    · refine ⟨hconsecutive, hopen.replayFrom, hknown, fun hgoing => ?_,
        fun hlive' => absurd hlive' hlive⟩
      obtain ⟨hphase, hoverflow | hcontinues⟩ := hopen.goingLive hgoing
      · exact ⟨hphase, Or.inl hoverflow⟩
      · exact ⟨hphase, Or.inr ((hnear hcontinues).of_control
          ⟨rfl, rfl, rfl, rfl, fun hp => ⟨hp, rfl⟩⟩ id)⟩

section Waiting

variable {entry : SubscriberEntry} {expected : Expected}

/-- The subscriber waits for an answer before it replays from its position. -/
theorem replaying {position : Option Int} (htracked : entry.Tracked)
    (hgap : entry.view.silentGap = false)
    (hbound : ∀ next ∈ expected.bound, next ≤ session.publishedSeq + 1)
    (hphase : entry.phase = .catchingUp)
    (hconsecutive : Consecutive (seqsOf entry.pending) expected)
    (htask : entry.task.replayFrom = some position)
    (hposition : position = if entry.anchored then some entry.lastSeq else none)
    (hknown : ∀ lastEventId resuming, entry.task = .readingLatest lastEventId resuming →
      expected ≠ .free) : Session.Ordered { session with entry, expected } := by
  refine ⟨htracked, hgap, hbound, fun _ => ⟨hconsecutive, ?_, hknown, ?_, ?_⟩⟩
  · intro position' hposition'
    rw [← Option.some.inj (htask.symm.trans hposition')]
    exact ⟨hphase, hposition⟩
  · intro hgoing
    have hgoing' : entry.task = .goingLive := hgoing
    rw [hgoing'] at htask
    cases htask
  · exact fun hlive => absurd (hphase.symm.trans hlive) Phase.noConfusion

/-- The replay is over. -/
theorem joining (htracked : entry.Tracked) (hgap : entry.view.silentGap = false)
    (hbound : ∀ next ∈ expected.bound, next ≤ session.publishedSeq + 1)
    (hphase : entry.phase = .closed ∨ entry.phase = .catchingUp)
    (hconsecutive : entry.phase ≠ .closed → Consecutive (seqsOf entry.pending) expected)
    (htask : entry.task = .goingLive)
    (hjoins : entry.phase ≠ .closed → entry.pendingOverflowed = true ∨
      Continues entry (upcoming (seqsOf entry.pending) expected)) :
    Session.Ordered { session with entry, expected } := by
  refine ⟨htracked, hgap, hbound, fun hopen => ?_⟩
  have hphase' : entry.phase = .catchingUp := hphase.resolve_left hopen
  refine ⟨hconsecutive hopen, ?_, ?_, fun _ => ⟨hphase', hjoins hopen⟩, ?_⟩
  · intro position hposition
    dsimp only at hposition
    rw [htask] at hposition
    cases hposition
  · intro _ _ hreading
    exact absurd (htask.symm.trans hreading) Task.noConfusion
  · exact fun hlive => absurd (hphase'.symm.trans hlive) Phase.noConfusion

end Waiting

theorem start (enabled : Bool) (lastEventId : Option Rat) (h : session.Ordered) :
    Session.Ordered { session with entry := session.entry.start enabled lastEventId } := by
  have htracked := SubscriberEntry.tracked_start enabled lastEventId h.tracked
  by_cases hphase : session.entry.phase = .admitting
  case neg =>
    have hsame : session.entry.start enabled lastEventId = session.entry := if_pos hphase
    rw [hsame]
    exact h
  obtain ⟨hpushed, hanchored, -⟩ := h.tracked.admitting hphase
  obtain ⟨⟨hphase', hpushed', hpending', -⟩, hposition⟩ :=
    SubscriberEntry.start_cases enabled lastEventId hphase
  have hopen := h.opened (by rw [hphase]; decide)
  have hgap : (session.entry.start enabled lastEventId).view.silentGap = false := by
    unfold SubscriberEntry.view
    rw [hpushed', hpushed]
    rfl
  have hconsecutive := hopen.consecutive
  rw [← hpending'] at hconsecutive
  rcases hposition with ⟨-, hanchored', -, htask⟩ | ⟨position, -, hanchored', hlast, htask⟩
  · rw [hanchored] at hanchored'
    rcases htask with htask | htask
    · apply replaying htracked hgap h.published hphase' hconsecutive
      · rw [htask]
        rfl
      · rw [hanchored']
        rfl
      · rw [htask]
        exact fun _ _ hreading => absurd hreading Task.noConfusion
    · apply joining htracked hgap h.published (Or.inr hphase') (fun _ => hconsecutive) htask
      refine fun _ => Or.inr ⟨htracked, hgap, fun _ hanchored'' => ?_⟩
      rw [hanchored'] at hanchored''
      cases hanchored''
  · have hfrom : (session.entry.start enabled lastEventId).task.replayFrom =
        some (some position) := by
      rcases htask with htask | htask <;> rw [htask] <;> rfl
    apply replaying htracked hgap h.published hphase' hconsecutive hfrom
    · rw [hanchored', hlast]
      rfl
    · rcases htask with htask | htask <;> rw [htask] <;>
        exact fun _ _ hreading => absurd hreading Task.noConfusion

/-- The live channel is subscribed. -/
theorem liveRetained (enabled : Bool) (h : session.Ordered) :
    Session.Ordered { session with entry := session.entry.step enabled .liveRetained } := by
  dsimp only [SubscriberEntry.step]
  split
  case h_2 => exact h
  case h_1 replayAfter htask =>
  split
  case isTrue => exact h
  case isFalse hopen =>
  have hopen' := h.opened hopen
  obtain ⟨hphase, hposition⟩ := hopen'.replayFrom replayAfter (by rw [htask]; rfl)
  have hphase' : session.entry.phase ≠ .admitting := by
    rw [hphase]
    decide
  cases replayAfter with
  | none =>
    have hserves : SubscriberEntry.Serves session.entry { session.entry with task := .goingLive } :=
      SubscriberEntry.serves_control rfl rfl rfl rfl hphase'
    have htracked := hserves.tracked h.tracked
    apply joining htracked h.noGap h.published (Or.inr hphase) (fun _ => hopen'.consecutive) rfl
    refine fun _ => Or.inr ⟨htracked, h.noGap, fun _ hanchored => ?_⟩
    have hanchored' : session.entry.anchored = true := hanchored
    rw [hanchored'] at hposition
    cases hposition
  | some position =>
    have hserves : SubscriberEntry.Serves session.entry
        { session.entry with task := .readingBuffer position false } :=
      SubscriberEntry.serves_control rfl rfl rfl rfl hphase'
    exact replaying (hserves.tracked h.tracked) h.noGap h.published hphase hopen'.consecutive rfl
      hposition fun _ _ hreading => absurd hreading Task.noConfusion

theorem toLive {entry : SubscriberEntry} {expected : Expected}
    (hcatching : session.entry.phase = .catchingUp)
    (hcontrol : entry.phase = .closed ∨
      entry.phase = session.entry.phase ∧ entry.pending = session.entry.pending)
    (hbound : ∀ next ∈ expected.bound, next ≤ session.publishedSeq + 1)
    (hconsecutive : Consecutive (seqsOf session.entry.pending) expected)
    (hcontinues : Continues entry (upcoming (seqsOf session.entry.pending) expected)) :
    Session.Ordered { session with entry := { entry with task := .goingLive }, expected } := by
  have hphase : entry.phase = .closed ∨ entry.phase = .catchingUp :=
    hcontrol.imp_right fun hsame => hsame.1.trans hcatching
  have hadmitting : entry.phase ≠ .admitting := by
    rcases hphase with hphase | hphase <;> rw [hphase] <;> decide
  have hcontinues' : Continues { entry with task := .goingLive }
      (upcoming (seqsOf session.entry.pending) expected) :=
    hcontinues.of_control ⟨rfl, rfl, rfl, rfl, fun hp => absurd hp hadmitting⟩ id
  have hpending : entry.phase ≠ .closed → entry.pending = session.entry.pending :=
    fun hopen => (hcontrol.resolve_left hopen).2
  apply joining hcontinues'.tracked hcontinues'.noGap hbound hphase _ rfl
  · intro hopen
    rw [← hpending hopen] at hcontinues'
    exact Or.inr hcontinues'
  · intro hopen
    dsimp only
    rw [hpending hopen]
    exact hconsecutive

/-- After a signal everything may come. -/
theorem signalled (lastEventId : Int) {expected : Expected} (h : session.Ordered)
    (hcatching : session.entry.phase = .catchingUp)
    (hbound : ∀ next ∈ expected.bound, next ≤ session.publishedSeq + 1)
    (hconsecutive : Consecutive (seqsOf session.entry.pending) expected) :
    Session.Ordered { session with
      entry := { session.entry.signalUnavailable lastEventId with task := .goingLive }
      expected } := by
  have hphase : session.entry.phase ≠ .admitting := by
    rw [hcatching]
    decide
  apply toLive hcatching _ hbound hconsecutive
    (Continues.signal lastEventId _ hphase h.tracked h.noGap)
  exact SubscriberEntry.phase_deliverNow session.entry _

end Session.Ordered

/-! ## 7. The replay joins what arrived meanwhile -/

theorem contiguousEvents_spec (items : List BufferedSseEvent) : ∀ expected : Int, 0 < expected →
    let events := contiguousEvents expected items
    Consecutive (seqsOf (events.map PendingItem.event)) (.exactly (expected + events.length)) ∧
      upcoming (seqsOf (events.map PendingItem.event)) (.exactly (expected + events.length)) =
        .exactly expected ∧
      (events.length = items.length → ∀ item ∈ items, item.seq < expected + events.length) := by
  induction items with
  | nil => exact fun expected _ => ⟨trivial, by simp [contiguousEvents, seqsOf, upcoming], by simp⟩
  | cons item items ih =>
    intro expected hpos
    cases hevent : item.event with
    | none => simp [contiguousEvents, hevent, seqsOf, upcoming, Consecutive]
    | some event =>
      by_cases hseq : item.seq = expected
      · have hevents : contiguousEvents expected (item :: items) =
            event :: contiguousEvents (expected + 1) items := by
          simp [contiguousEvents, hevent, hseq]
        have hevent' : event.seq = expected := (item.seq_event event hevent).trans hseq
        obtain ⟨hconsecutive, hupcoming, hbelow⟩ := ih (expected + 1) (by omega)
        rw [hevents]
        have hlength : expected + ((event :: contiguousEvents (expected + 1) items).length : Int) =
            expected + 1 + ((contiguousEvents (expected + 1) items).length : Int) := by
          rw [List.length_cons]
          omega
        have hseqs : seqsOf ((event :: contiguousEvents (expected + 1) items).map
            PendingItem.event) = expected ::
              seqsOf ((contiguousEvents (expected + 1) items).map PendingItem.event) := by
          simp [seqsOf, PendingItem.seq, hevent', hpos]
        dsimp only
        rw [hlength, hseqs]
        refine ⟨⟨hupcoming, hconsecutive⟩, rfl, fun hall other hmem => ?_⟩
        rcases List.mem_cons.mp hmem with rfl | hmem
        · omega
        · exact hbelow (Nat.succ.inj hall) other hmem
      · simp [contiguousEvents, hevent, hseq, seqsOf, upcoming, Consecutive]

namespace Session.Ordered

variable {session : Session}

/-- The replay reaches the newest published seq, or says that it cannot. -/
theorem replayOrSignalUnavailable {expected : Expected} {buffer : SseBufferRead} (now : Int)
    (h : session.Ordered) (hcatching : session.entry.phase = .catchingUp)
    (hshows : ShowsNewest session.publishedSeq session.entry.lastSeq buffer)
    (hwanted : buffer.events.filter (fun item => session.entry.lastSeq < item.seq) ≠ [])
    (hnext : ∃ next, (upcoming (seqsOf session.entry.pending) expected).bound = some next ∧
      next ≤ session.publishedSeq + 1) :
    Continues (session.entry.replayOrSignalUnavailable session.entry.lastSeq
        (buffer.events.filter fun item => session.entry.lastSeq < item.seq) now)
      (upcoming (seqsOf session.entry.pending) expected) := by
  have hphase : session.entry.phase ≠ .admitting := by
    rw [hcatching]
    decide
  obtain ⟨next, hbound, hle⟩ := hnext
  generalize hitems : replayable (buffer.events.filter fun item =>
    session.entry.lastSeq < item.seq) now = items
  unfold SubscriberEntry.replayOrSignalUnavailable
  dsimp only
  rw [hitems]
  split
  case isTrue => exact Continues.signal _ _ hphase h.tracked h.noGap
  case isFalse hwhole =>
  rw [not_or, not_not] at hwhole
  obtain ⟨hnonempty, hall⟩ := hwhole
  have hnonneg := h.tracked.lastSeq_nonneg
  obtain ⟨hconsecutive, hupcoming, hbelow⟩ :=
    contiguousEvents_spec items (session.entry.lastSeq + 1) (by omega)
  have hreplayed := Continues.deliverAll hphase hconsecutive
    (hupcoming ▸ Continues.of_lastSeq h.tracked h.noGap)
  refine hreplayed.of_le ⟨next, hbound, ?_⟩
  -- the newest item is replayed, for some item is inside the window and none is newer
  have hsettles : ∃ item ∈ buffer.events, session.entry.lastSeq < item.seq := by
    obtain ⟨item, hmem⟩ := List.exists_mem_of_ne_nil _ hwanted
    have hmem' := List.mem_filter.mp hmem
    exact ⟨item, hmem'.1, of_decide_eq_true hmem'.2⟩
  rcases hshows (Or.inl hsettles) with hold | ⟨newest, hmem, hnewest, hlast⟩
  · omega
  by_cases hnew : session.entry.lastSeq < newest.seq
  case neg => omega
  obtain ⟨item, hitem⟩ := List.exists_mem_of_length_pos (l := items) (by omega)
  rw [← hitems] at hitem
  have hwindow : now - sseReplayWindowMs ≤ item.receivedAt := by
    have hmem' := List.mem_mergeSort.mp hitem
    exact of_decide_eq_true (List.mem_filter.mp hmem').2
  have hbuffer : item ∈ buffer.events := by
    have hmem' := List.mem_mergeSort.mp hitem
    exact (List.mem_filter.mp (List.mem_filter.mp hmem').1).1
  have hnewest' : newest ∈ items := by
    rw [← hitems]
    apply List.mem_mergeSort.mpr
    apply List.mem_filter.mpr
    refine ⟨List.mem_filter.mpr ⟨hmem, decide_eq_true hnew⟩, decide_eq_true ?_⟩
    exact hwindow.trans (hlast item hbuffer)
  have hreached := hbelow hall newest hnewest'
  omega

/-- Seqs are pending only when the next one is known. -/
theorem consecutive_of_free {seqs : List Int} (expected : Expected) (h : Consecutive seqs .free) :
    Consecutive seqs expected := by
  cases seqs with
  | nil => exact trivial
  | cons seq seqs =>
    obtain ⟨-, next, hnext, -⟩ := h.head_le
    cases hnext

theorem expectedAfter_bufferRead (remote : Option (List StreamEntry))
    (memory : List BufferedSseEvent) (now : Int) (h : session.Ordered) :
    (∀ next ∈ (session.expectedAfter (.bufferRead remote memory now)).bound,
        next ≤ session.publishedSeq + 1) ∧
      (Consecutive (seqsOf session.entry.pending) session.expected →
        Consecutive (seqsOf session.entry.pending)
          (session.expectedAfter (.bufferRead remote memory now))) := by
  dsimp only [Session.expectedAfter]
  split
  case h_1 hfree =>
    rw [hfree]
    refine ⟨fun next hnext => ?_, consecutive_of_free _⟩
    rw [← Option.some.inj hnext]
  case h_2 => exact ⟨h.published, id⟩

theorem bufferRead (enabled : Bool) (remote : Option (List StreamEntry))
    (memory : List BufferedSseEvent) (now : Int) (h : session.Ordered)
    (hshows : session.InOrder enabled (.bufferRead remote memory now)) :
    (session.step enabled (.bufferRead remote memory now)).Ordered := by
  obtain ⟨hbound, hconsecutive⟩ := expectedAfter_bufferRead remote memory now h
  by_cases hactive : session.entry.phase = .closed ∨ ∀ lastEventId resuming,
      session.entry.task ≠ .readingBuffer lastEventId resuming
  · have hentry : session.entry.step enabled (.bufferRead remote memory now) = session.entry := by
      dsimp only [SubscriberEntry.step]
      split
      case h_1 lastEventId resuming htask =>
        rcases hactive with hclosed | hidle
        · exact if_pos hclosed
        · exact absurd htask (hidle lastEventId resuming)
      case h_2 => rfl
    unfold Session.step
    rw [hentry]
    rcases hactive with hclosed | hidle
    · exact of_closed h.tracked h.noGap hbound hclosed
    · have hexpected : session.expectedAfter (.bufferRead remote memory now) =
          session.expected := by
        dsimp only [Session.expectedAfter]
        split
        case h_1 lastEventId resuming htask _ => exact absurd htask (hidle lastEventId resuming)
        case h_2 => rfl
      rw [hexpected]
      exact h
  rw [not_or] at hactive
  obtain ⟨hclosed, hreading⟩ := hactive
  push Not at hreading
  obtain ⟨lastEventId, resuming, htask⟩ := hreading
  have hopen := h.opened hclosed
  obtain ⟨hcatching, hposition⟩ := hopen.replayFrom (some lastEventId) (by rw [htask]; rfl)
  have hanchored : session.entry.anchored = true := by
    by_contra hfree
    rw [if_neg hfree] at hposition
    cases hposition
  rw [if_pos hanchored] at hposition
  have hlast : lastEventId = session.entry.lastSeq := Option.some.inj hposition
  subst hlast
  have hshows' := hshows _ _ htask
  have hconsecutive' := hconsecutive hopen.consecutive
  have hknown : session.expectedAfter (.bufferRead remote memory now) ≠ .free := by
    dsimp only [Session.expectedAfter]
    rw [htask]
    split
    case h_1 => exact Expected.noConfusion
    case h_2 hnot => exact fun hfree => hnot _ _ rfl hfree
  have hnext := hconsecutive'.upcoming_bound hbound hknown
  generalize hread : readBuffer enabled remote memory session.entry.lastSeq = buffer at hshows'
  have hentry : session.entry.step enabled (.bufferRead remote memory now) =
      session.entry.replayFromBuffer session.entry.lastSeq resuming buffer now := by
    dsimp only [SubscriberEntry.step]
    rw [htask]
    dsimp only
    rw [if_neg hclosed, hread]
  unfold Session.step
  rw [hentry]
  unfold SubscriberEntry.replayFromBuffer
  dsimp only
  split
  case isTrue hwanted =>
    apply toLive hcatching _ hbound hconsecutive'
      (replayOrSignalUnavailable now h hcatching hshows' hwanted hnext)
    exact SubscriberEntry.replayOrSignalUnavailable_control session.entry _ _ now
  case isFalse hwanted =>
  split
  case isTrue hcomplete =>
    apply toLive hcatching (Or.inr ⟨rfl, rfl⟩) hbound hconsecutive'
    obtain ⟨next, hnext, hle⟩ := hnext
    refine (Continues.of_lastSeq h.tracked h.noGap).of_le ⟨next, hnext, ?_⟩
    rcases hshows' (Or.inr hcomplete) with hold | ⟨newest, hmem, hnewest, -⟩
    · omega
    · have hseen : newest.seq ≤ session.entry.lastSeq := by
        by_contra hnew
        exact hwanted (List.ne_nil_of_mem
          (List.mem_filter.mpr ⟨hmem, decide_eq_true (not_le.mp hnew)⟩))
      omega
  case isFalse =>
    have hphase : session.entry.phase ≠ .admitting := by
      rw [hcatching]
      decide
    have hserves : SubscriberEntry.Serves session.entry { session.entry with
        task := .readingLatest session.entry.lastSeq resuming } :=
      SubscriberEntry.serves_control rfl rfl rfl rfl hphase
    apply replaying (hserves.tracked h.tracked) h.noGap hbound hcatching hconsecutive' rfl
    · rw [hanchored]
      rfl
    · exact fun _ _ _ => hknown

/-- Where nothing was missed, the seq after the position has been collected. -/
theorem collected_of_not_missed {entry : SubscriberEntry} {lastEventId latest : Int}
    (hnew : lastEventId < latest) (h : entry.mayHaveMissed lastEventId (some latest) = false) :
    0 ≤ lastEventId → lastEventId + 1 ∈ seqsOf entry.pending := by
  intro hnonneg
  unfold SubscriberEntry.mayHaveMissed at h
  dsimp only at h
  rw [if_neg (not_le.mpr hnew)] at h
  have hcount := not_lt.mp (of_decide_eq_false h)
  -- as many seqs of the range as it has, so all of them
  have hrange : (entry.collectedSeqs lastEventId latest).toFinset ⊆
      Finset.Ioc lastEventId latest := by
    intro seq hmem
    obtain ⟨item, -, hitem⟩ := List.mem_filterMap.mp (List.mem_toFinset.mp hmem)
    split at hitem
    · split at hitem
      case isTrue hbetween =>
        rw [← Option.some.inj hitem]
        exact Finset.mem_Ioc.mpr hbetween
      case isFalse => cases hitem
    · cases hitem
  have hcard : (Finset.Ioc lastEventId latest).card ≤
      (entry.collectedSeqs lastEventId latest).toFinset.card := by
    rw [Int.card_Ioc, List.card_toFinset]
    omega
  have hall := Finset.eq_of_subset_of_card_le hrange hcard
  have hfirst : lastEventId + 1 ∈ (entry.collectedSeqs lastEventId latest).toFinset := by
    rw [hall, Finset.mem_Ioc]
    omega
  obtain ⟨item, hmem, hitem⟩ := List.mem_filterMap.mp (List.mem_toFinset.mp hfirst)
  apply List.mem_filter.mpr
  refine ⟨List.mem_map.mpr ⟨item, hmem, ?_⟩, decide_eq_true (by omega)⟩
  split at hitem
  · split at hitem
    · exact Option.some.inj hitem
    · cases hitem
  · cases hitem

theorem latestRead (enabled : Bool) (latest : Option Int) (h : session.Ordered)
    (hpublished : session.Published (.latestRead latest)) :
    Session.Ordered { session with entry := session.entry.step enabled (.latestRead latest) } := by
  dsimp only [SubscriberEntry.step]
  split
  case h_2 => exact h
  case h_1 lastEventId resuming htask =>
  split
  case isTrue => exact h
  case isFalse hclosed =>
  have hopen := h.opened hclosed
  obtain ⟨hcatching, hposition⟩ := hopen.replayFrom (some lastEventId) (by rw [htask]; rfl)
  have hknown := hopen.known _ _ htask
  unfold SubscriberEntry.replayFromCounter
  split
  case isTrue => exact signalled _ h hcatching h.published hopen.consecutive
  case isFalse hmissed =>
    have hlast : lastEventId = session.entry.lastSeq := by
      split at hposition
      · exact Option.some.inj hposition
      · cases hposition
    subst hlast
    apply toLive hcatching (Or.inr ⟨rfl, rfl⟩) h.published hopen.consecutive
    apply (Continues.of_lastSeq h.tracked h.noGap).of_le
    cases latest with
    | none => exact absurd rfl hmissed
    | some latest =>
      have hpublished' : session.publishedSeq ≤ latest := hpublished
      by_cases hnew : session.entry.lastSeq < latest
      · have hfirst := collected_of_not_missed hnew (Bool.not_eq_true _ ▸ hmissed)
          h.tracked.lastSeq_nonneg
        have hconsecutive := hopen.consecutive
        cases hseqs : seqsOf session.entry.pending with
        | nil =>
          rw [hseqs] at hfirst
          exact absurd hfirst List.not_mem_nil
        | cons first rest =>
          rw [hseqs] at hfirst hconsecutive
          exact ⟨first, rfl, hconsecutive.head_le.1 _ hfirst⟩
      · obtain ⟨next, hnext, hle⟩ := hopen.consecutive.upcoming_bound h.published hknown
        exact ⟨next, hnext, by omega⟩

theorem replayThrows (enabled : Bool) (h : session.Ordered) :
    Session.Ordered { session with entry := session.entry.step enabled .replayThrows } := by
  have hsignal : ∀ lastEventId resuming,
      session.entry.task = .readingBuffer lastEventId resuming ∨
        session.entry.task = .readingLatest lastEventId resuming →
      Session.Ordered { session with entry :=
        { session.entry.signalUnavailable session.entry.lastSeq with task := .goingLive } } := by
    intro lastEventId resuming htask
    by_cases hclosed : session.entry.phase = .closed
    · have hsame : session.entry.signalUnavailable session.entry.lastSeq = session.entry :=
        if_pos hclosed
      rw [hsame]
      have hserves : SubscriberEntry.Serves session.entry
          { session.entry with task := .goingLive } :=
        SubscriberEntry.serves_control rfl rfl rfl rfl (by rw [hclosed]; decide)
      dsimp only
      exact of_closed (hserves.tracked h.tracked) h.noGap h.published hclosed
    · have hopen := h.opened hclosed
      have hcatching : session.entry.phase = .catchingUp := by
        rcases htask with htask | htask <;>
          exact (hopen.replayFrom (some lastEventId) (by rw [htask]; rfl)).1
      exact signalled _ h hcatching h.published hopen.consecutive
  have hidle : ∀ lastEventId resuming,
      session.entry.task = .readingBuffer lastEventId resuming ∨
        session.entry.task = .readingLatest lastEventId resuming →
      Session.Ordered { session with entry := { session.entry with task := .idle } } := by
    intro lastEventId resuming htask
    have hphase : session.entry.phase ≠ .admitting := by
      apply h.tracked.task_ne_idle
      rcases htask with htask | htask <;> rw [htask] <;> exact Task.noConfusion
    have hserves : SubscriberEntry.Serves session.entry { session.entry with task := .idle } :=
      SubscriberEntry.serves_control rfl rfl rfl rfl hphase
    refine ⟨hserves.tracked h.tracked, h.noGap, h.published, fun hopen => ?_⟩
    have hopen' := h.opened hopen
    have hcatching : session.entry.phase = .catchingUp := by
      rcases htask with htask | htask <;>
        exact (hopen'.replayFrom (some lastEventId) (by rw [htask]; rfl)).1
    refine ⟨hopen'.consecutive, ?_, ?_, ?_, ?_⟩
    · exact fun _ hposition => absurd hposition (Option.some_ne_none _).symm
    · exact fun _ _ hreading => absurd hreading Task.noConfusion
    · exact fun hgoing => absurd hgoing Task.noConfusion
    · exact fun hlive => absurd (hcatching.symm.trans hlive) Phase.noConfusion
  dsimp only [SubscriberEntry.step]
  split
  case h_1 htask => exact hsignal _ _ (Or.inl htask)
  case h_2 htask => exact hsignal _ _ (Or.inr htask)
  case h_3 htask => exact hidle _ _ (Or.inl htask)
  case h_4 htask => exact hidle _ _ (Or.inr htask)
  case h_5 => exact h

/-- Catching up starts over from the last seq, with nothing pending. -/
theorem catchUp {expected : Expected} (h : session.Ordered)
    (hlive : session.entry.phase = .live)
    (hbound : ∀ next ∈ expected.bound, next ≤ session.publishedSeq + 1) :
    Session.Ordered { session with entry := session.entry.catchUp, expected } := by
  obtain ⟨hpending, htask, -⟩ := (h.opened (by rw [hlive]; decide)).live hlive
  have htracked := (SubscriberEntry.serves_catchUp session.entry).tracked h.tracked
  have hconsecutive : Consecutive (seqsOf session.entry.pending) expected := by
    rw [hpending]
    exact trivial
  revert htracked
  unfold SubscriberEntry.catchUp
  dsimp only
  split
  case isTrue hanchored =>
    intro htracked
    apply replaying htracked h.noGap hbound rfl hconsecutive rfl
    · dsimp only
      rw [hanchored]
      rfl
    · exact fun _ _ hreading => absurd hreading Task.noConfusion
  case isFalse hanchored =>
    intro _
    have hserves : SubscriberEntry.Serves session.entry { session.entry with
        resyncRequested := false, phase := .catchingUp } :=
      SubscriberEntry.serves_control rfl rfl rfl rfl Phase.noConfusion
    have hcatching : Session.Ordered { session with
        entry := { session.entry with resyncRequested := false, phase := .catchingUp }
        expected } := by
      refine ⟨hserves.tracked h.tracked, h.noGap, hbound, fun _ => ⟨hconsecutive, ?_, ?_, ?_, ?_⟩⟩
      · dsimp only
        rw [htask]
        exact fun _ hposition => absurd hposition (Option.some_ne_none _).symm
      · exact fun _ _ hreading => absurd (htask.symm.trans hreading) Task.noConfusion
      · exact fun hgoing => absurd (htask.symm.trans hgoing) Task.noConfusion
      · exact fun hlive' => absurd hlive' Phase.noConfusion
    exact signalled _ hcatching rfl hbound hconsecutive

theorem goLive (enabled : Bool) (h : session.Ordered) :
    Session.Ordered { session with entry := session.entry.step enabled .goLive } := by
  dsimp only [SubscriberEntry.step]
  split
  case h_2 => exact h
  case h_1 htask =>
  split
  case isTrue => exact h
  case isFalse hclosed =>
  have hopen := h.opened hclosed
  obtain ⟨hcatching, hjoins⟩ := hopen.goingLive htask
  have hphase : session.entry.phase ≠ .admitting := by
    rw [hcatching]
    decide
  have hopened := SubscriberEntry.serves_openLive session.entry
  have hcontinues : Continues session.entry.openLive
      (upcoming (seqsOf session.entry.pending) session.expected) := by
    have hlive : ∀ overflowed, SubscriberEntry.SameStream session.entry { session.entry with
        phase := .live, pending := [], task := .idle, pendingOverflowed := overflowed } :=
      fun _ => ⟨rfl, rfl, rfl, rfl, fun hp => absurd hp Phase.noConfusion⟩
    unfold SubscriberEntry.openLive
    dsimp only
    split
    case isTrue =>
      exact Continues.signal _ _ Phase.noConfusion ((hlive false).tracked h.tracked) h.noGap
    case isFalse hkept =>
      exact (hjoins.resolve_left hkept).of_control (hlive _) fun hp => absurd hp hclosed
  have hall := Continues.deliverAll (hopened.ne_admitting hphase) hopen.consecutive hcontinues
  have hcontrol : (deliverAll session.entry.openLive session.entry.pending).phase = .closed ∨
      (deliverAll session.entry.openLive session.entry.pending).phase = .live ∧
        (deliverAll session.entry.openLive session.entry.pending).pending = [] ∧
        (deliverAll session.entry.openLive session.entry.pending).task = .idle := by
    rcases SubscriberEntry.deliverAll_control session.entry.pending session.entry.openLive with
      hclosed' | ⟨hphase', hpending', -, htask'⟩
    · exact Or.inl hclosed'
    · rw [hphase', hpending', htask']
      exact SubscriberEntry.openLive_control session.entry
  have hflushed : Session.Ordered { session with
      entry := deliverAll session.entry.openLive session.entry.pending } := by
    refine ⟨hall.tracked, hall.noGap, h.published, fun hopen' => ?_⟩
    obtain ⟨-, hpending, htask'⟩ := hcontrol.resolve_left hopen'
    constructor
    · dsimp only
      rw [hpending]
      exact trivial
    · dsimp only
      rw [htask']
      exact fun _ hposition => absurd hposition (Option.some_ne_none _).symm
    · exact fun _ _ hreading => absurd (htask'.symm.trans hreading) Task.noConfusion
    · exact fun hgoing => absurd (htask'.symm.trans hgoing) Task.noConfusion
    · exact fun _ => ⟨hpending, htask', hall⟩
  unfold SubscriberEntry.goLive
  dsimp only
  split
  case isTrue hresync =>
    have hopen' : (deliverAll session.entry.openLive session.entry.pending).phase ≠ .closed :=
      of_decide_eq_true (Bool.and_eq_true_iff.mp hresync).2
    exact hflushed.catchUp (hcontrol.resolve_left hopen').1 h.published
  case isFalse => exact hflushed

theorem resync (enabled : Bool) (h : session.Ordered) : (session.step enabled .resync).Ordered := by
  unfold Session.step Session.expectedAfter
  dsimp only [SubscriberEntry.step]
  by_cases hlive : session.entry.retainsLive = true ∧ session.entry.phase = .live
  · have hcatchUp : session.entry.resync = session.entry.catchUp := by
      unfold SubscriberEntry.resync
      rw [hlive.1, hlive.2]
      rfl
    rw [hcatchUp, hlive.1, hlive.2]
    apply h.catchUp hlive.2
    intro next hnext
    rw [← Option.some.inj hnext]
  · rw [if_neg (by simpa using hlive)]
    unfold SubscriberEntry.resync
    split
    case isTrue => exact h
    case isFalse hretains =>
      have hretains' : session.entry.retainsLive = true := by simpa using hretains
      split
      case h_1 hphase => exact absurd ⟨hretains', hphase⟩ hlive
      case h_2 hphase =>
        have hserves : SubscriberEntry.Serves session.entry
            { session.entry with resyncRequested := true } :=
          SubscriberEntry.serves_control rfl rfl rfl rfl (by rw [hphase]; decide)
        refine ⟨hserves.tracked h.tracked, h.noGap, h.published, fun hopen => ?_⟩
        have hopen' := h.opened hopen
        refine ⟨hopen'.consecutive, hopen'.replayFrom, hopen'.known, fun hgoing => ?_,
          fun hlive' => absurd (hphase.symm.trans hlive') Phase.noConfusion⟩
        refine (hopen'.goingLive hgoing).imp_right fun hjoins => hjoins.imp_right fun hcontinues =>
          hcontinues.of_control ⟨rfl, rfl, rfl, rfl, fun hp => ⟨hp, rfl⟩⟩ id
      all_goals exact h

/-- One step in order keeps the stream free of silent gaps. -/
theorem step (enabled : Bool) (step : SseStep) (h : session.Ordered)
    (hpublished : session.Published step) (horder : session.InOrder enabled step) :
    (session.step enabled step).Ordered := by
  cases step with
  | published seq =>
    refine ⟨h.tracked, h.noGap, fun next hnext => ?_, fun hopen => ?_⟩
    · have hle := h.published next hnext
      show next ≤ max session.publishedSeq seq + 1
      omega
    · have hopen' := h.opened hopen
      exact ⟨hopen'.consecutive, hopen'.replayFrom, hopen'.known, hopen'.goingLive, hopen'.live⟩
  | event event => exact h.accept (.event event) hpublished horder
  | omitted seq => exact h.accept (.omitted seq) hpublished horder
  | start lastEventId => exact h.start enabled lastEventId
  | liveRetained => exact h.liveRetained enabled
  | bufferRead remote memory now => exact h.bufferRead enabled remote memory now horder
  | latestRead latest => exact h.latestRead enabled latest hpublished
  | replayThrows => exact h.replayThrows enabled
  | goLive => exact h.goLive enabled
  | resync => exact h.resync enabled
  | unsubscribe =>
    have hserves : SubscriberEntry.Serves session.entry session.entry.unsubscribe :=
      SubscriberEntry.serves_control rfl rfl rfl rfl Phase.noConfusion
    exact of_closed (hserves.tracked h.tracked) h.noGap h.published rfl

end Session.Ordered

/-! ## 8. Whole runs -/

/-- A subscriber as `subscribe` makes it. -/
def admitted (executionId : String) : SubscriberEntry := { executionId }

theorem tracked_admitted (executionId : String) : (admitted executionId).Tracked :=
  ⟨rfl, le_refl 0, fun _ hmem => absurd hmem (by simp [admitted]), List.Pairwise.nil,
    fun _ hmem => absurd hmem (by simp [admitted, SubscriberEntry.pushedSeqs]),
    fun _ hmem => absurd hmem (by simp [admitted, SubscriberEntry.pushedSeqs]),
    fun _ => ⟨rfl, rfl, rfl, rfl⟩⟩

theorem ordered_admitted (executionId : String) :
    Session.Ordered { entry := admitted executionId } := by
  refine ⟨tracked_admitted executionId, rfl, fun _ hmem => absurd hmem (by simp [Expected.bound]),
    fun _ => ⟨trivial, ?_, ?_, ?_, ?_⟩⟩
  · exact fun _ hposition => absurd hposition (Option.some_ne_none _).symm
  · exact fun _ _ hreading => absurd hreading Task.noConfusion
  · exact fun hgoing => absurd hgoing Task.noConfusion
  · exact fun hlive => absurd hlive Phase.noConfusion

namespace SubscriberEntry

variable {entry : SubscriberEntry}

theorem tracked_run (enabled : Bool) (steps : List SseStep) (h : entry.Tracked) :
    (entry.run enabled steps).Tracked := by
  induction steps generalizing entry with
  | nil => exact h
  | cons step steps ih => exact ih (tracked_step enabled h step)

theorem step_closed (enabled : Bool) (step : SseStep) (h : entry.phase = .closed) :
    (entry.step enabled step).phase = .closed ∧ (entry.step enabled step).pushed = entry.pushed := by
  cases step with
  | start lastEventId =>
    have hsame : entry.start enabled lastEventId = entry := if_pos (by rw [h]; decide)
    dsimp only [SubscriberEntry.step]
    rw [hsame]
    exact ⟨h, rfl⟩
  | replayThrows =>
    have hsame : entry.signalUnavailable entry.lastSeq = entry := if_pos h
    dsimp only [SubscriberEntry.step]
    rw [hsame]
    split <;> exact ⟨h, rfl⟩
  | unsubscribe => exact ⟨rfl, rfl⟩
  | published _ => exact ⟨h, rfl⟩
  | resync =>
    dsimp only [SubscriberEntry.step]
    unfold resync
    rw [h]
    split <;> exact ⟨h, rfl⟩
  | event _ | omitted _ =>
    dsimp only [SubscriberEntry.step]
    unfold accept
    rw [h]
    exact ⟨h, rfl⟩
  | liveRetained | bufferRead _ _ _ | latestRead _ | goLive =>
    dsimp only [SubscriberEntry.step]
    split
    · rw [if_pos h]
      exact ⟨h, rfl⟩
    · exact ⟨h, rfl⟩

theorem run_closed (enabled : Bool) (steps : List SseStep) (h : entry.phase = .closed) :
    (entry.run enabled steps).pushed = entry.pushed := by
  induction steps generalizing entry with
  | nil => rfl
  | cons step steps ih =>
    obtain ⟨hclosed, hpushed⟩ := step_closed enabled step h
    exact (ih hclosed).trans hpushed

theorem Serves.replayAfter {entry' : SubscriberEntry} (h : Serves entry entry') :
    entry'.replayAfter = entry.replayAfter := by
  induction h with
  | same h => exact h.replayAfter
  | deliver entry event _ =>
    rcases deliverNow_cases entry event with ⟨hsame, -⟩ | ⟨-, -, hafter, -⟩
    · rw [hsame]
    · exact hafter
  | trans _ _ ih ih' => exact ih'.trans ih

/-- Once started, the subscriber keeps the position it started from. -/
theorem replayAfter_run (enabled : Bool) (steps : List SseStep) (h : entry.Tracked)
    (hphase : entry.phase ≠ .admitting) :
    (entry.run enabled steps).replayAfter = entry.replayAfter := by
  induction steps generalizing entry with
  | nil => rfl
  | cons step steps ih =>
    have hserves : Serves entry (entry.step enabled step) := by
      by_cases hstart : ∃ lastEventId, step = .start lastEventId
      · obtain ⟨lastEventId, rfl⟩ := hstart
        have hsame : entry.step enabled (.start lastEventId) = entry := if_pos hphase
        rw [hsame]
        exact serves_refl entry
      · exact serves_step enabled h fun lastEventId heq => hstart ⟨lastEventId, heq⟩
    have hrest := ih (tracked_step enabled h step) (hserves.ne_admitting hphase)
    exact hrest.trans hserves.replayAfter

/-- What is pushed after the start lies above the `Last-Event-Id` as the client sent it. -/
theorem above_lastEventId (enabled : Bool) (later : List SseStep) {lastEventId : Rat}
    (h : entry.Tracked) (hphase : entry.phase = .admitting) (hnonneg : 0 ≤ lastEventId) :
    ∀ seq ∈ ((entry.start enabled (some lastEventId)).run enabled later).pushedSeqs,
      lastEventId < seq := by
  intro seq hmem
  have hstarted := tracked_start enabled (some lastEventId) h
  obtain ⟨⟨hphase', -, -, hafter⟩, -⟩ := start_cases enabled (some lastEventId) hphase
  have hkept := replayAfter_run enabled later hstarted (by rw [hphase']; decide)
  have hnormal : normalizeLastEventId (some lastEventId) = some ⌊lastEventId⌋ := if_pos hnonneg
  have habove := (tracked_run enabled later hstarted).above seq hmem ⌊lastEventId⌋
    (by rw [hkept, hafter, hnormal]; rfl)
  exact Int.floor_lt.mp habove

end SubscriberEntry

theorem Session.Ordered.run (enabled : Bool) (steps : List SseStep) {session : Session}
    (h : session.Ordered) (hallowed : Session.Allowed enabled
      (fun session step => session.Published step ∧ session.InOrder enabled step) session steps) :
    (session.entry.run enabled steps).view.silentGap = false := by
  induction steps generalizing session with
  | nil => exact h.noGap
  | cons step steps ih =>
    obtain ⟨⟨hpublished, horder⟩, hrest⟩ := hallowed
    exact ih (h.step enabled step hpublished horder) hrest

def nodeEvent (seq : Int) : ExecutionChannelEvent :=
  { eventType := "execution.node.completed", seq, payload := .obj [] }

def bufferedEvent : BufferedSseEvent :=
  { seq := 5, receivedAt := 0, event := some (nodeEvent 5)
    seq_event := fun _ hevent => by rw [← Option.some.inj hevent]; rfl }

/-- Event 5 is replayed from the buffer, event 6 arrives before the subscriber is live. -/
def replayedRun : List SseStep :=
  [.published 5, .start (some 4), .liveRetained,
    .bufferRead (some [{ seqField := some 5, decoded := some bufferedEvent }]) [] 0,
    .published 6, .event (nodeEvent 6), .goLive]

/-- The message of event 2 is lost on the live channel. -/
def lossyRun : List SseStep :=
  [.start none, .liveRetained, .goLive, .published 1, .event (nodeEvent 1), .published 2,
    .published 3, .event (nodeEvent 3)]

end Clemvion.ExternalInteraction
