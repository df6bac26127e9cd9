import Mathlib.Data.List.Induction
import Clemvion.AgentMemory.ScheduleExtraction

/-!
# ExtractionRuns — every turn is extracted once

A run appends turns, evicts the oldest and calls `scheduleMemoryExtraction`, which the queue may
refuse at any time.  The watermark is the number of the last turn that was taken, and the turns
that were taken are the ones up to it: that is kept by every step.
-/

open Clemvion.Js Clemvion.Js.Value

namespace Clemvion.AgentMemory

/-! ## 1. Runs -/

/-- What happens to a thread; the watermark of the call is the one that was returned last. -/
inductive ThreadEvent (τ : Type)
  | append (turn : ConversationTurn) (evicted : Nat)
  | schedule (agentMemoryService : Option AgentMemoryScheduler)
      (args : ScheduleMemoryExtractionArgs τ)

structure ExtractionRun where
  /-- Every turn so far, evicted ones included. -/
  appended : List ConversationTurn := []
  turns : List ConversationTurn := []
  resumeState : Value := .obj []
  /-- What the queue took, the turns beside the job. -/
  accepted : List (List ConversationTurn × ExtractionJob) := []

namespace ExtractionRun

def watermark (s : ExtractionRun) : Option Number := readExtractionWatermark s.resumeState

def snapshots (s : ExtractionRun) : List (List ConversationTurn) := s.accepted.map Prod.fst

/-- The turns of all snapshots, one after the other. -/
def taken (s : ExtractionRun) : List ConversationTurn := s.snapshots.flatten

/-- The snapshot at this index has the turn. -/
def InSnapshot (s : ExtractionRun) (t : ConversationTurn) (i : Nat) : Prop :=
  ∃ snapshot : List ConversationTurn, s.snapshots[i]? = some snapshot ∧ t ∈ snapshot

end ExtractionRun

section Runs

variable {τ : Type} (toNumber : String → Number)

/-- The call on the thread as it is, with the watermark of the resume state. -/
def extractionCall (s : ExtractionRun) (agentMemoryService : Option AgentMemoryScheduler)
    (args : ScheduleMemoryExtractionArgs τ) :
    Option Number × Option (List ConversationTurn × ExtractionJob) :=
  scheduleMemoryExtraction toNumber
    { agentMemoryService, conversationThreadService := some fun _ => s.turns }
    { args with lastExtractionTurnSeq := s.watermark }

def extractionStep (s : ExtractionRun) : ThreadEvent τ → ExtractionRun
  | .append turn evicted =>
    { s with
      appended := s.appended ++ [turn]
      turns := (s.turns ++ [turn]).drop evicted }
  | .schedule agentMemoryService args =>
    let called := extractionCall toNumber s agentMemoryService args
    { s with
      resumeState := persistWatermark s.resumeState called.1
      accepted := s.accepted ++ called.2.toList }

def extractionRun (events : List (ThreadEvent τ)) : ExtractionRun :=
  events.foldl (extractionStep toNumber) {}

def ThreadEvent.appendedTurn : ThreadEvent τ → Option ConversationTurn
  | .append turn _ => some turn
  | .schedule _ _ => none

/-- The numbers of the appended turns go up. -/
def Ascending (events : List (ThreadEvent τ)) : Prop :=
  ((events.filterMap ThreadEvent.appendedTurn).map ConversationTurn.seq).Pairwise (· < ·)

instance (events : List (ThreadEvent τ)) : Decidable (Ascending events) :=
  inferInstanceAs (Decidable (List.Pairwise _ _))

end Runs

/-! ## 2. The watermark -/

variable {τ : Type} (toNumber : String → Number)

theorem lt_finite {m n : Nat} : (Number.finite m).lt (.finite n) = true ↔ m < n := by
  show decide ((m : Rat) < n) = true ↔ m < n
  rw [decide_eq_true_iff, Nat.cast_lt]

theorem le_finite {m n : Nat} : (Number.finite m).le (.finite n) = true ↔ m ≤ n := by
  unfold Number.le
  rw [Bool.or_eq_true, lt_finite, Bool.and_eq_true, decide_eq_true_iff, Number.finite.injEq,
    Nat.cast_inj]
  constructor
  · rintro (hlt | ⟨heq, -⟩)
    · omega
    · omega
  · intro hle
    rcases Nat.lt_or_eq_of_le hle with hlt | heq
    · exact Or.inl hlt
    · exact Or.inr ⟨heq, by simp⟩

/-- Over turns that go up, the maximum is the number of the last one. -/
theorem foldl_maxSeq {fresh : List ConversationTurn} {m : Number}
    (hm : ∀ t ∈ fresh, m.lt (.finite t.seq) = true)
    (hasc : (fresh.map ConversationTurn.seq).Pairwise (· < ·)) :
    fresh.foldl (fun m t => if m.lt (.finite t.seq) then .finite t.seq else m) m =
      (fresh.getLast?.map fun t => Number.finite t.seq).getD m := by
  induction fresh generalizing m with
  | nil => rfl
  | cons t fresh ih =>
    rw [List.map_cons, List.pairwise_cons] at hasc
    -- each turn is larger than the maximum so far, so the last one remains
    rw [List.foldl_cons, if_pos (hm t List.mem_cons_self), ih ?_ hasc.2]
    · cases fresh with
      | nil => rfl
      | cons u fresh =>
        rw [List.getLast?_cons_cons]
        cases hlast : (u :: fresh).getLast? with
        | none => simp at hlast
        | some v => rfl
    · intro u hu
      exact lt_finite.mpr (hasc.1 u.seq (List.mem_map_of_mem hu))

/-- The watermark of the turns that were taken. -/
def lastSeq (taken : List ConversationTurn) : Option Number :=
  taken.getLast?.map fun t => .finite t.seq

theorem le_lastSeq {taken : List ConversationTurn} {n : Number} {t : ConversationTurn}
    (hasc : (taken.map ConversationTurn.seq).Pairwise (· < ·)) (hmem : t ∈ taken)
    (hlast : lastSeq taken = some n) : n.lt (.finite t.seq) = false := by
  obtain ⟨u, hu, rfl⟩ := Option.map_eq_some_iff.mp hlast
  obtain ⟨front, rfl⟩ := List.getLast?_eq_some_iff.mp hu
  rw [Bool.eq_false_iff]
  intro hlt
  have hseq : u.seq < t.seq := lt_finite.mp hlt
  -- every turn that was taken is before the last one, or is the last one
  rcases List.mem_append.mp hmem with hfront | hend
  · rw [List.map_append, List.pairwise_append] at hasc
    have := hasc.2.2 t.seq (List.mem_map_of_mem hfront) u.seq (by simp)
    omega
  · rw [List.mem_singleton.mp hend] at hseq
    omega

theorem freshTurns_sublist (watermark : Option Number) (turns : List ConversationTurn) :
    (freshTurns watermark turns).Sublist turns := by
  cases watermark with
  | none => exact List.Sublist.refl turns
  | some w => exact List.filter_sublist

theorem mem_freshTurns {watermark : Option Number} {turns : List ConversationTurn}
    {t : ConversationTurn} : t ∈ freshTurns watermark turns ↔
      t ∈ turns ∧ ∀ w, watermark = some w → w.lt (.finite t.seq) = true := by
  cases watermark with
  | none => simp [freshTurns]
  | some w => simp [freshTurns]

/-- The turns behind the watermark are the end of a thread that goes up. -/
theorem freshTurns_suffix (watermark : Option Number) {turns : List ConversationTurn}
    (hasc : (turns.map ConversationTurn.seq).Pairwise (· < ·))
    (hnat : ∀ w, watermark = some w → ∃ n : Nat, w = .finite n) :
    freshTurns watermark turns <:+ turns := by
  cases watermark with
  | none => exact List.suffix_rfl
  | some w =>
    obtain ⟨n, rfl⟩ := hnat w rfl
    induction turns with
    | nil => exact List.suffix_rfl
    | cons t turns ih =>
      rw [List.map_cons, List.pairwise_cons] at hasc
      have hfilter : ∀ us, freshTurns (some (.finite n)) us =
          us.filter fun u => (Number.finite n).lt (.finite u.seq) := fun _ => rfl
      rw [hfilter] at ih ⊢
      by_cases hlt : n < t.seq
      · -- from the first such turn on all of them are
        have hall : (t :: turns).filter (fun u => (Number.finite n).lt (.finite u.seq)) = t :: turns := by
          rw [List.filter_eq_self]
          intro u hu
          rcases List.mem_cons.mp hu with rfl | hu
          · exact lt_finite.mpr hlt
          · have := hasc.1 u.seq (List.mem_map_of_mem hu)
            exact lt_finite.mpr (by omega)
        exact ⟨[], hall⟩
      · rw [List.filter_cons, if_neg (by rw [lt_finite]; exact hlt)]
        exact (ih hasc.2).trans (List.suffix_cons t turns)

/-! ## 3. What every step keeps -/

/-- The turns that were taken are the stored ones up to the watermark. -/
structure Covered (s : ExtractionRun) : Prop where
  ascending : (s.appended.map ConversationTurn.seq).Pairwise (· < ·)
  stored : s.turns <:+ s.appended
  taken_appended : ∀ t ∈ s.taken, t ∈ s.appended
  taken_ascending : (s.taken.map ConversationTurn.seq).Pairwise (· < ·)
  watermark : s.watermark = lastSeq s.taken
  reached : ∀ t ∈ s.turns, ∀ w, s.watermark = some w → w.lt (.finite t.seq) = false → t ∈ s.taken

theorem covered_start : Covered {} where
  ascending := List.Pairwise.nil
  stored := List.suffix_rfl
  taken_appended := fun _ h => nomatch h
  taken_ascending := List.Pairwise.nil
  watermark := rfl
  reached := fun _ h => nomatch h

theorem Covered.append {s : ExtractionRun} (h : Covered s) {turn : ConversationTurn} (evicted : Nat)
    (hturn : ∀ t ∈ s.appended, t.seq < turn.seq) :
    Covered { s with
      appended := s.appended ++ [turn]
      turns := (s.turns ++ [turn]).drop evicted } where
  ascending := by
    show ((s.appended ++ [turn]).map _).Pairwise _
    rw [List.map_append, List.pairwise_append]
    refine ⟨h.ascending, List.pairwise_singleton _ _, ?_⟩
    intro m hm n hn
    obtain ⟨t, ht, rfl⟩ := List.mem_map.mp hm
    rw [List.mem_singleton.mp hn]
    exact hturn t ht
  stored := by
    obtain ⟨older, holder⟩ := h.stored
    have hall : s.turns ++ [turn] <:+ s.appended ++ [turn] :=
      ⟨older, by rw [← holder, List.append_assoc]⟩
    exact (List.drop_suffix _ _).trans hall
  taken_appended := fun t ht => List.mem_append_left _ (h.taken_appended t ht)
  taken_ascending := h.taken_ascending
  watermark := h.watermark
  reached := by
    intro t ht w hw hreached
    rcases List.mem_append.mp (List.mem_of_mem_drop ht) with ht | ht
    · exact h.reached t ht w hw hreached
    · -- the new turn lies behind every turn that was taken
      obtain rfl := List.mem_singleton.mp ht
      obtain ⟨u, hu, rfl⟩ := Option.map_eq_some_iff.mp (h.watermark.symm.trans hw)
      have hlt := hturn u (h.taken_appended u (List.mem_of_getLast? hu))
      rw [lt_finite.mpr hlt] at hreached
      cases hreached

/-- What an accepted call adds: the end of the thread from the first turn behind the watermark. -/
theorem Covered.fresh {s : ExtractionRun} (h : Covered s) :
    ∃ older, s.turns = older ++ freshTurns s.watermark s.turns ∧ ∀ t ∈ older, t ∈ s.taken := by
  have hturns : (s.turns.map ConversationTurn.seq).Pairwise (· < ·) :=
    h.ascending.sublist (h.stored.sublist.map _)
  have hnat : ∀ w, s.watermark = some w → ∃ n : Nat, w = .finite n := by
    intro w hw
    obtain ⟨u, -, rfl⟩ := Option.map_eq_some_iff.mp (h.watermark.symm.trans hw)
    exact ⟨u.seq, rfl⟩
  obtain ⟨older, holder⟩ := freshTurns_suffix s.watermark hturns hnat
  refine ⟨older, holder.symm, ?_⟩
  intro t ht
  have hmem : t ∈ s.turns := by
    rw [← holder]
    exact List.mem_append_left _ ht
  -- what lies before the fresh turns is not behind the watermark, so it was taken
  have hnot : t ∉ freshTurns s.watermark s.turns := by
    intro hfresh
    rw [← holder, List.map_append, List.pairwise_append] at hturns
    have := hturns.2.2 t.seq (List.mem_map_of_mem ht) t.seq (List.mem_map_of_mem hfresh)
    omega
  rw [mem_freshTurns] at hnot
  push Not at hnot
  obtain ⟨w, hw, hreached⟩ := hnot hmem
  exact h.reached t hmem w hw (by simpa using hreached)

theorem Covered.taken_fresh {s : ExtractionRun} (h : Covered s) :
    ((s.taken ++ freshTurns s.watermark s.turns).map ConversationTurn.seq).Pairwise (· < ·) := by
  rw [List.map_append, List.pairwise_append]
  refine ⟨h.taken_ascending, ?_, ?_⟩
  · exact h.ascending.sublist (((freshTurns_sublist _ _).trans h.stored.sublist).map _)
  -- taken turns end at the watermark and fresh ones begin behind it
  · intro m hm n hn
    obtain ⟨t, ht, rfl⟩ := List.mem_map.mp hm
    obtain ⟨u, hu, rfl⟩ := List.mem_map.mp hn
    obtain ⟨last, hlast⟩ : ∃ last, lastSeq s.taken = some last := by
      cases htaken : s.taken.getLast? with
      | none =>
        rw [List.getLast?_eq_none_iff.mp htaken] at ht
        cases ht
      | some v => exact ⟨.finite v.seq, by rw [lastSeq, htaken]; rfl⟩
    have hbehind := (mem_freshTurns.mp hu).2 last (h.watermark.trans hlast)
    have hbefore := le_lastSeq h.taken_ascending ht hlast
    obtain ⟨v, -, rfl⟩ := Option.map_eq_some_iff.mp hlast
    have hu' : v.seq < u.seq := lt_finite.mp hbehind
    have ht' : ¬v.seq < t.seq := by
      rw [← lt_finite, hbefore]
      exact Bool.false_ne_true
    omega

/-- The new watermark is the number of the last turn of the snapshot. -/
theorem Covered.maxSeq {s : ExtractionRun} (h : Covered s)
    (hfresh : freshTurns s.watermark s.turns ≠ []) :
    some (maxSeq s.watermark (freshTurns s.watermark s.turns)) =
      lastSeq (s.taken ++ freshTurns s.watermark s.turns) := by
  have hasc := h.taken_fresh
  rw [List.map_append, List.pairwise_append] at hasc
  unfold AgentMemory.maxSeq
  rw [foldl_maxSeq ?_ hasc.2.1]
  · unfold lastSeq
    rw [List.getLast?_append_of_ne_nil _ hfresh]
    cases hlast : (freshTurns s.watermark s.turns).getLast? with
    | none => exact absurd (List.getLast?_eq_none_iff.mp hlast) hfresh
    | some t => rfl
  · intro t ht
    -- the first call starts at -1, below every number of a turn
    cases hwatermark : s.watermark with
    | none =>
      show decide ((-1 : Rat) < (t.seq : Rat)) = true
      have hnonneg : (0 : Rat) ≤ t.seq := Nat.cast_nonneg _
      rw [decide_eq_true_iff]
      linarith
    | some w => exact (mem_freshTurns.mp ht).2 w hwatermark

theorem extractionCall_cases (s : ExtractionRun) (agentMemoryService : Option AgentMemoryScheduler)
    (args : ScheduleMemoryExtractionArgs τ) :
    extractionCall toNumber s agentMemoryService args = (s.watermark, none) ∨
    ∃ fresh job, fresh = freshTurns s.watermark s.turns ∧ fresh ≠ [] ∧
      job.turns = fresh.map ConversationTurn.snapshot ∧
      extractionCall toNumber s agentMemoryService args =
        (some (maxSeq s.watermark fresh), some (fresh, job)) := by
  obtain hrefused | ⟨getThread, target, fresh, job, hthread, -, hfresh, hne, hjob, haccepted⟩ :=
    scheduleMemoryExtraction_cases toNumber
      { agentMemoryService, conversationThreadService := some fun _ => s.turns }
      { args with lastExtractionTurnSeq := s.watermark }
  · exact Or.inl hrefused
  · obtain rfl := Option.some.inj hthread
    exact Or.inr ⟨fresh, job, hfresh, hne, hjob, haccepted⟩

theorem watermark_schedule {s : ExtractionRun} {agentMemoryService : Option AgentMemoryScheduler}
    {args : ScheduleMemoryExtractionArgs τ}
    {next : Option Number} (hcall : (extractionCall toNumber s agentMemoryService args).1 = next)
    (h : next = none → s.watermark = none) :
    (extractionStep toNumber s (.schedule agentMemoryService args)).watermark = next := by
  show readExtractionWatermark (persistWatermark s.resumeState (extractionCall toNumber s _ args).1) = _
  rw [hcall]
  exact readExtractionWatermark_persistWatermark h

/-- A call is refused, and nothing moves, or the queue takes the end of the thread. -/
theorem Covered.call {s : ExtractionRun} (h : Covered s)
    (agentMemoryService : Option AgentMemoryScheduler) (args : ScheduleMemoryExtractionArgs τ) :
    ((extractionStep toNumber s (.schedule agentMemoryService args)).accepted = s.accepted ∧
      (extractionStep toNumber s (.schedule agentMemoryService args)).watermark = s.watermark) ∨
    ∃ fresh job, fresh = freshTurns s.watermark s.turns ∧ fresh ≠ [] ∧
      job.turns = fresh.map ConversationTurn.snapshot ∧
      (extractionStep toNumber s (.schedule agentMemoryService args)).accepted =
        s.accepted ++ [(fresh, job)] ∧
      (extractionStep toNumber s (.schedule agentMemoryService args)).watermark =
        lastSeq (s.taken ++ fresh) := by
  have haccepted : (extractionStep toNumber s (.schedule agentMemoryService args)).accepted =
      s.accepted ++ (extractionCall toNumber s agentMemoryService args).2.toList := rfl
  obtain hcall | ⟨fresh, job, hfresh, hne, hjob, hcall⟩ :=
    extractionCall_cases toNumber s agentMemoryService args
  · left
    refine ⟨?_, watermark_schedule toNumber (congrArg Prod.fst hcall) id⟩
    rw [haccepted, hcall]
    exact List.append_nil _
  · refine Or.inr ⟨fresh, job, hfresh, hne, hjob, ?_, ?_⟩
    · rw [haccepted, hcall]
      rfl
    · have hlast := h.maxSeq (hfresh ▸ hne)
      rw [← hfresh] at hlast
      rw [watermark_schedule toNumber (congrArg Prod.fst hcall) (fun hnone => nomatch hnone)]
      exact hlast

theorem taken_of_accepted {s s' : ExtractionRun} {fresh : List ConversationTurn} {job : ExtractionJob}
    (h : s'.accepted = s.accepted ++ [(fresh, job)]) : s'.taken = s.taken ++ fresh := by
  unfold ExtractionRun.taken ExtractionRun.snapshots
  rw [h, List.map_append, List.flatten_append]
  simp

theorem Covered.schedule {s : ExtractionRun} (h : Covered s)
    (agentMemoryService : Option AgentMemoryScheduler) (args : ScheduleMemoryExtractionArgs τ) :
    Covered (extractionStep toNumber s (.schedule agentMemoryService args)) := by
  rcases h.call toNumber agentMemoryService args with
    ⟨haccepted, hwatermark⟩ | ⟨fresh, job, hfresh, -, -, haccepted, hwatermark⟩
  -- refused: nothing moves
  · have htaken : (extractionStep toNumber s (.schedule agentMemoryService args)).taken = s.taken := by
      unfold ExtractionRun.taken ExtractionRun.snapshots
      rw [haccepted]
    exact
      { ascending := h.ascending
        stored := h.stored
        taken_appended := htaken ▸ h.taken_appended
        taken_ascending := htaken ▸ h.taken_ascending
        watermark := by rw [hwatermark, htaken, h.watermark]
        reached := by
          rw [hwatermark, htaken]
          exact h.reached }
  -- taken: the end of the thread comes to what was taken before
  · have htaken := taken_of_accepted haccepted
    obtain ⟨older, holder, holder_taken⟩ := h.fresh
    exact
      { ascending := h.ascending
        stored := h.stored
        taken_appended := by
          rw [htaken, hfresh]
          intro t ht
          rcases List.mem_append.mp ht with ht | ht
          · exact h.taken_appended t ht
          · exact h.stored.subset ((freshTurns_sublist _ _).subset ht)
        taken_ascending := by
          rw [htaken, hfresh]
          exact h.taken_fresh
        watermark := by rw [hwatermark, htaken]
        reached := by
          intro t ht w _ _
          have ht' : t ∈ older ++ freshTurns s.watermark s.turns := holder ▸ ht
          rw [htaken, hfresh]
          rcases List.mem_append.mp ht' with ht' | ht'
          · exact List.mem_append_left _ (holder_taken t ht')
          · exact List.mem_append_right _ ht' }

theorem appended_extractionRun (events : List (ThreadEvent τ)) :
    (extractionRun toNumber events).appended = events.filterMap ThreadEvent.appendedTurn := by
  induction events using List.reverseRecOn with
  | nil => rfl
  | append_singleton events e ih =>
    unfold extractionRun at ih ⊢
    rw [List.foldl_append, List.filterMap_append, ← ih]
    cases e with
    | append turn evicted => rfl
    | schedule agentMemoryService args => exact (List.append_nil _).symm

theorem covered_extractionRun {events : List (ThreadEvent τ)} (h : Ascending events) :
    Covered (extractionRun toNumber events) := by
  induction events using List.reverseRecOn with
  | nil => exact covered_start
  | append_singleton events e ih =>
    unfold Ascending at h
    rw [List.filterMap_append, List.map_append, List.pairwise_append] at h
    have hbefore := ih h.1
    unfold extractionRun
    rw [List.foldl_append]
    -- the induction is on the run from its end, so that the last event is a step
    cases e with
    | schedule agentMemoryService args => exact hbefore.schedule toNumber agentMemoryService args
    | append turn evicted =>
      refine hbefore.append evicted ?_
      intro t ht
      rw [appended_extractionRun] at ht
      exact h.2.2 t.seq (List.mem_map_of_mem ht) turn.seq (List.mem_singleton.mpr rfl)

/-! ## 4. Exactly one snapshot -/

theorem accepted_prefix (s : ExtractionRun) (events : List (ThreadEvent τ)) :
    s.accepted <+: (events.foldl (extractionStep toNumber) s).accepted := by
  induction events generalizing s with
  | nil => exact List.prefix_rfl
  | cons e events ih =>
    refine List.IsPrefix.trans ?_ (ih _)
    cases e with
    | append turn evicted => exact List.prefix_rfl
    | schedule agentMemoryService args => exact List.prefix_append _ _

/-- What was taken stays taken until the end of the run. -/
theorem accepted_extractionRun (before : List (ThreadEvent τ)) (e : ThreadEvent τ)
    (after : List (ThreadEvent τ)) :
    (extractionStep toNumber (extractionRun toNumber before) e).accepted <+:
      (extractionRun toNumber (before ++ e :: after)).accepted := by
  unfold extractionRun
  rw [List.foldl_append, List.foldl_cons]
  exact accepted_prefix toNumber _ after

/-- Snapshots that go up one after the other share no turn. -/
theorem Covered.existsUnique {s : ExtractionRun} (h : Covered s) {t : ConversationTurn}
    (ht : t ∈ s.taken) :
    ∃! i, s.InSnapshot t i := by
  obtain ⟨snapshot, hsnapshot, hmem⟩ := List.mem_flatten.mp ht
  obtain ⟨i, hi⟩ := List.getElem?_of_mem hsnapshot
  have hasc : s.taken.Pairwise fun t u => t.seq < u.seq := List.pairwise_map.mp h.taken_ascending
  have hapart := (List.pairwise_flatten.mp hasc).2
  -- two snapshots that share a turn would have it before itself
  have hless : ∀ i j : Nat, i < j → ∀ x y, s.snapshots[i]? = some x → s.snapshots[j]? = some y →
      t ∈ x → t ∉ y := by
    intro i j hij x y hx hy htx hty
    obtain ⟨hi, rfl⟩ := List.getElem?_eq_some_iff.mp hx
    obtain ⟨hj, rfl⟩ := List.getElem?_eq_some_iff.mp hy
    have := List.pairwise_iff_getElem.mp hapart i j hi hj hij t htx t hty
    omega
  refine ⟨i, ⟨snapshot, hi, hmem⟩, ?_⟩
  rintro j ⟨other, hj, hother⟩
  by_contra hne
  rcases Nat.lt_or_gt_of_ne hne with hlt | hlt
  · exact hless j i hlt other snapshot hj hi hother hmem
  · exact hless i j hlt snapshot other hi hj hmem hother

/-- **Incremental extraction.** The snapshots go up and never overlap; each is the end of the
thread it was taken from.  Where a call is not taken the watermark stays; where it is taken, every
turn still stored up to the new watermark is in exactly one of the run's snapshots. -/
theorem extraction_exactly_once (events : List (ThreadEvent τ))
    (h : Ascending events) :
    ((extractionRun toNumber events).taken.map ConversationTurn.seq).Pairwise (· < ·) ∧
    ∀ before agentMemoryService args after,
      events = before ++ .schedule agentMemoryService args :: after →
      let s := extractionRun toNumber before
      let s' := extractionStep toNumber s (.schedule agentMemoryService args)
      s'.accepted = s.accepted ∧ s'.watermark = s.watermark ∨
      ∃ snapshot job older w, s'.accepted = s.accepted ++ [(snapshot, job)] ∧
        job.turns = snapshot.map ConversationTurn.snapshot ∧ snapshot ≠ [] ∧
        s.turns = older ++ snapshot ∧ s'.watermark = some w ∧
        ∀ t ∈ s'.turns, (Number.finite t.seq).le w = true →
          ∃! i, (extractionRun toNumber events).InSnapshot t i := by
  have hall := covered_extractionRun toNumber h
  refine ⟨hall.taken_ascending, ?_⟩
  rintro before agentMemoryService args after rfl
  unfold Ascending at h
  rw [List.filterMap_append, List.map_append, List.pairwise_append] at h
  have hbefore := covered_extractionRun toNumber h.1
  rcases hbefore.call toNumber agentMemoryService args with
    hrefused | ⟨fresh, job, hfresh, hne, hjob, haccepted, hwatermark⟩
  · exact Or.inl hrefused
  · obtain ⟨older, holder, -⟩ := hbefore.fresh
    have hafter := hbefore.schedule toNumber agentMemoryService args
    have htaken := taken_of_accepted haccepted
    obtain ⟨w, hw⟩ : ∃ w, lastSeq ((extractionRun toNumber before).taken ++ fresh) = some w := by
      unfold lastSeq
      rw [List.getLast?_append_of_ne_nil _ hne, List.getLast?_eq_some_getLast hne]
      exact ⟨_, rfl⟩
    refine Or.inr ⟨fresh, job, older, w, haccepted, hjob, hne, hfresh ▸ holder, hwatermark.trans hw, ?_⟩
    intro t ht hle
    -- up to the new watermark everything that is stored was taken, now or before
    have hreached : t ∈ (extractionStep toNumber (extractionRun toNumber before)
        (.schedule agentMemoryService args)).taken := by
      refine hafter.reached t ht w (hwatermark.trans hw) ?_
      obtain ⟨u, -, rfl⟩ := Option.map_eq_some_iff.mp hw
      have hle' : t.seq ≤ u.seq := le_finite.mp hle
      rw [Bool.eq_false_iff, Ne, lt_finite]
      omega
    refine hall.existsUnique ?_
    obtain ⟨snapshot, hsnapshot, hmem⟩ := List.mem_flatten.mp hreached
    have hkept := (accepted_extractionRun toNumber before (.schedule agentMemoryService args) after).map Prod.fst
    exact List.mem_flatten.mpr ⟨snapshot, hkept.subset hsnapshot, hmem⟩

section Witness

def numbered (n : Nat) : ConversationTurn :=
  { seq := n, source := .aiUser, text := "hello", nodeLabel := "chat" }

def scheduler (takes : Bool) : Option AgentMemoryScheduler :=
  some { resolveScopeKey := fun _ executionId => executionId, scheduleExtraction := fun _ => takes }

def persistentArgs : ScheduleMemoryExtractionArgs Unit :=
  { strategy := "persistent", target := some (), config := .obj [], workspaceId := "w", executionId := "e" }

/-- A refusal in between and an eviction. -/
def sampleRun : List (ThreadEvent Unit) :=
  [.append (numbered 0) 0, .append (numbered 1) 0, .schedule (scheduler true) persistentArgs,
    .append (numbered 2) 0, .schedule (scheduler false) persistentArgs, .append (numbered 4) 1,
    .schedule (scheduler true) persistentArgs]

theorem extraction_exactly_once_sample :
    (((extractionRun (fun _ => .nan) sampleRun).taken.map ConversationTurn.seq).Pairwise (· < ·)) ∧
      (extractionRun (fun _ => .nan) sampleRun).snapshots.map (List.map ConversationTurn.seq) =
        [[0, 1], [2, 4]] :=
  ⟨(extraction_exactly_once (fun _ => .nan) sampleRun (by decide)).1, by decide +kernel⟩

end Witness

end Clemvion.AgentMemory
