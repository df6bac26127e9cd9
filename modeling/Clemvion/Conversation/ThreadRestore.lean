import Clemvion.Conversation.ThreadInvariant

/-!
# ThreadRestore — runs with parks, and rows that no run wrote

Over a run from the empty thread the invariant holds and a park changes nothing.  The restore
path also accepts any other JSON value: what it makes of it keeps the invariant only when the
surviving turns and the counter fit together, which it does not check.
-/

open Clemvion.Js Clemvion.Js.Value

namespace Clemvion.Conversation

variable {thread thread' : ConversationThread} {args : AppendArgs} {now : String}
variable {renderInteractionText : InteractionRenderer}

/-! ## 1. Two threads with one history, side by side -/

theorem sumChars_eq_of_map_eq {turns turns' : List Value} (h : ∀ turn ∈ turns, StoredTurn turn)
    (h' : ∀ turn ∈ turns', StoredTurn turn)
    (hsame : turns.map jsonRoundTrip = turns'.map jsonRoundTrip) : sumChars turns = sumChars turns' := by
  rw [← sumChars_map_jsonRoundTrip h, hsame, sumChars_map_jsonRoundTrip h']

theorem sameHistory_pushed (h : SameHistory thread thread') :
    SameHistory (pushed thread args now) (pushed thread' args now) := by
  constructor
  · unfold pushed
    rw [List.map_append, List.map_append, h.turns, h.nextSeq]
  · unfold pushed
    rw [h.nextSeq]
  · unfold pushed
    rw [h.totalChars]

theorem sameHistory_evicted (hthread : Consistent thread) (hthread' : Consistent thread')
    (h : SameHistory thread thread') : SameHistory (evicted thread) (evicted thread') := by
  have hlength : thread.turns.length = thread'.turns.length := by
    simpa using congrArg List.length h.turns
  have hexcess : excess thread.turns = excess thread'.turns := by
    unfold excess
    rw [hlength]
  have hdropped : sumChars (thread.turns.take (excess thread.turns)) =
      sumChars (thread'.turns.take (excess thread'.turns)) := by
    apply sumChars_eq_of_map_eq
    · exact fun turn hturn => hthread.stored turn (List.mem_of_mem_take hturn)
    · exact fun turn hturn => hthread'.stored turn (List.mem_of_mem_take hturn)
    · rw [List.map_take, List.map_take, h.turns, hexcess]
  unfold evicted
  rw [hdropped, h.totalChars, hexcess]
  generalize excess thread'.turns = k
  constructor
  · show (thread.turns.drop k).map jsonRoundTrip = (thread'.turns.drop k).map jsonRoundTrip
    rw [List.map_drop, List.map_drop, h.turns]
  · exact h.nextSeq
  · rfl

theorem sameHistory_append (hthread : WellFormed thread) (hthread' : WellFormed thread')
    (h : SameHistory thread thread') :
    SameHistory (appendInternal thread args now) (appendInternal thread' args now) := by
  by_cases hopt : isOptedOut args.node = true
  · unfold appendInternal
    rw [if_pos hopt, if_pos hopt]
    exact h
  · rw [appendInternal_eq (by simpa using hopt), appendInternal_eq (by simpa using hopt)]
    exact sameHistory_evicted (consistent_pushed hthread) (consistent_pushed hthread')
      (sameHistory_pushed h)

/-! ## 2. Runs -/

theorem wellFormed_apply (op : ThreadOp) (h : WellFormed thread) :
    WellFormed (op.apply renderInteractionText thread) := by
  cases op with
  | append call now => exact wellFormed_append h
  | updateSummary runningSummary summarizedUpToSeq => exact wellFormed_updateSummaryState h
  | snapshot => exact wellFormed_parkAndResume h

theorem wellFormed_runThread (ops : List ThreadOp) (h : WellFormed thread) :
    WellFormed (runThread renderInteractionText ops thread) := by
  induction ops generalizing thread with
  | nil => exact h
  | cons op ops ih => exact ih (wellFormed_apply op h)

/-- **Parks leave the history alone.** -/
theorem sameHistory_runThread (ops : List ThreadOp) (hthread : WellFormed thread)
    (hthread' : WellFormed thread') (h : SameHistory thread thread') :
    SameHistory (runThread renderInteractionText ops thread)
      (runThread renderInteractionText (withoutSnapshots ops) thread') := by
  induction ops generalizing thread thread' with
  | nil => exact h
  | cons op ops ih =>
    cases op with
    | append call now =>
      exact ih (wellFormed_append hthread) (wellFormed_append hthread')
        (sameHistory_append hthread hthread' h)
    | updateSummary runningSummary summarizedUpToSeq =>
      exact ih (wellFormed_updateSummaryState hthread) (wellFormed_updateSummaryState hthread')
        ⟨h.turns, h.nextSeq, h.totalChars⟩
    | snapshot =>
      exact ih (wellFormed_parkAndResume hthread) hthread' (sameHistory_parkAndResume hthread h)

/-! ## 3. Plain JSON payloads come back as they were -/

/-- The payload of an append has no `undefined` inside and only finite numbers. -/
structure JsonPayload (args : AppendArgs) : Prop where
  data : jsonRoundTrip args.data = args.data
  toolCalls : jsonRoundTrip args.toolCalls = args.toolCalls
  toolCallId : jsonRoundTrip args.toolCallId = args.toolCallId
  presentations : jsonRoundTrip args.presentations = args.presentations

def ThreadOp.HasJsonPayload (renderInteractionText : InteractionRenderer) : ThreadOp → Prop
  | .append call _ => JsonPayload (call.args renderInteractionText)
  | .updateSummary .. | .snapshot => True

theorem jsonFields_presentField {key : String} {v : Value} (h : jsonRoundTrip v = v) :
    jsonFields (presentField key v) = presentField key v := by
  unfold presentField
  split_ifs with hv
  · rw [jsonFields_cons, if_neg hv, h]
    rfl
  · rfl

theorem jsonRoundTrip_buildTurn {q : Rat} (h : JsonPayload args) :
    jsonRoundTrip (buildTurn (.finite q) args now) = buildTurn (.finite q) args now := by
  unfold buildTurn
  show Value.obj (jsonFields _) = _
  rw [jsonFields_append, jsonFields_append, jsonFields_append, jsonFields_append,
    jsonFields_presentField h.data, jsonFields_presentField h.toolCalls,
    jsonFields_presentField h.toolCallId, jsonFields_presentField h.presentations]
  rfl

def JsonTurns (thread : ConversationThread) : Prop :=
  ∀ turn ∈ thread.turns, jsonRoundTrip turn = turn

theorem jsonTurns_append (hthread : WellFormed thread) (hargs : JsonPayload args)
    (h : JsonTurns thread) : JsonTurns (appendInternal thread args now) := by
  by_cases hopt : isOptedOut args.node = true
  · unfold appendInternal
    rw [if_pos hopt]
    exact h
  · rw [appendInternal_eq (by simpa using hopt)]
    intro turn hturn
    have hmem := mem_of_mem_evicted hturn
    unfold pushed at hmem
    rcases List.mem_append.mp hmem with hold | hnew
    · exact h turn hold
    · obtain ⟨n, hn, -⟩ := hthread.counter
      rw [List.mem_singleton.mp hnew, hn]
      exact jsonRoundTrip_buildTurn hargs

theorem jsonTurns_parkAndResume (hthread : WellFormed thread) : JsonTurns (parkAndResume thread) := by
  intro turn hturn
  rw [(parkAndResume_eq hthread).1] at hturn
  obtain ⟨source, -, rfl⟩ := List.mem_map.mp hturn
  exact jsonRoundTrip_idem source

theorem jsonTurns_runThread (ops : List ThreadOp) (hthread : WellFormed thread)
    (hops : ∀ op ∈ ops, op.HasJsonPayload renderInteractionText) (h : JsonTurns thread) :
    JsonTurns (runThread renderInteractionText ops thread) := by
  induction ops generalizing thread with
  | nil => exact h
  | cons op ops ih =>
    have hop := hops op List.mem_cons_self
    have hrest : ∀ op ∈ ops, op.HasJsonPayload renderInteractionText :=
      fun op hmem => hops op (List.mem_cons_of_mem _ hmem)
    apply ih (wellFormed_apply op hthread) hrest
    cases op with
    | append call now => exact jsonTurns_append hthread hop h
    | updateSummary runningSummary summarizedUpToSeq => exact h
    | snapshot => exact jsonTurns_parkAndResume hthread

theorem map_jsonRoundTrip_of_jsonTurns (h : JsonTurns thread) :
    thread.turns.map jsonRoundTrip = thread.turns := by
  have hid : thread.turns.map jsonRoundTrip = thread.turns.map id := List.map_congr_left h
  rw [hid, List.map_id]

/-! ## 4. Rows that no run wrote -/

/-- The turns of a row that pass the stored check. -/
def survivors (raw : Value) : List Value :=
  match raw.field "turns" with
  | .arr items => items.filter isConversationTurn
  | _ => []

def natSeqs (n : Nat) : List Number := (List.range n).map fun k : Nat => .finite k

/-- The row's turns and counter fit together: at most the cap survive, their numbers increase,
and the stored counter stands above the last of them; where the restore makes the counter up from
the number of survivors, these are numbered from zero without a gap. -/
structure Restorable (raw : Value) : Prop where
  bounded : (survivors raw).length ≤ storageMaxTurns
  increasing : ((survivors raw).map seqOf).Pairwise fun a b => a.lt b = true
  counter :
    match storedNextSeq raw (survivors raw).length with
    | some stored => ∀ turn ∈ (survivors raw).getLast?, (seqOf turn).lt stored = true
    | none => (survivors raw).map seqOf = natSeqs (survivors raw).length

variable {raw : Value}

theorem rehydrate_of_arr {items : List Value} (h : raw.field "turns" = .arr items) :
    (rehydrateConversationThread raw).turns = survivors raw ∧
      (rehydrateConversationThread raw).nextSeq =
        (storedNextSeq raw (survivors raw).length).getD (.finite (survivors raw).length) ∧
      (rehydrateConversationThread raw).totalChars = sumChars (survivors raw) := by
  have hobject : ¬(!raw.truthy || !raw.isObject) = true := by
    cases raw with
    | obj fields => simp [truthy, isObject]
    | _ => simp [Value.field] at h
  unfold rehydrateConversationThread survivors
  rw [if_neg hobject, h]
  exact ⟨rfl, rfl, rfl⟩

theorem rehydrate_of_not_arr (h : ∀ items, raw.field "turns" ≠ .arr items) :
    rehydrateConversationThread raw = {} ∧ survivors raw = [] := by
  have hsurvivors : survivors raw = [] := by
    unfold survivors
    split
    · rename_i items hitems
      exact absurd hitems (h items)
    · rfl
  refine ⟨?_, hsurvivors⟩
  unfold rehydrateConversationThread
  split
  · rfl
  · split
    · rename_i items hitems
      exact absurd hitems (h items)
    · rfl

/-- A surviving turn has a natural number as its seq. -/
theorem exists_natSeq {turn : Value} (h : turn ∈ survivors raw) : ∃ n : Nat, seqOf turn = .finite n := by
  have hcheck : isConversationTurn turn = true := by
    unfold survivors at h
    split at h
    · exact (List.mem_filter.mp h).2
    · exact absurd h List.not_mem_nil
  obtain ⟨-, ⟨n, hseq, hint, hpos⟩, -⟩ := isConversationTurn_iff.mp hcheck
  rw [seqOf_of_field hseq]
  cases n with
  | finite q =>
    simp only [Number.isInteger, decide_eq_true_eq] at hint
    simp only [Number.lt, decide_eq_false_iff_not, not_lt] at hpos
    have hnum : 0 ≤ q.num := Rat.num_nonneg.mpr hpos
    refine ⟨q.num.toNat, congrArg Number.finite ?_⟩
    calc q = (q.num : Rat) := ((Rat.den_eq_one_iff q).mp hint).symm
      _ = ((q.num.toNat : Int) : Rat) := by rw [Int.toNat_of_nonneg hnum]
      _ = (q.num.toNat : Rat) := by norm_cast
  | _ => simp [Number.isInteger] at hint

theorem exists_natSeqs : ∀ turns : List Value, (∀ turn ∈ turns, ∃ n : Nat, seqOf turn = .finite n) →
    ∃ ns : List Nat, turns.map seqOf = ns.map fun k : Nat => Number.finite k
  | [], _ => ⟨[], rfl⟩
  | turn :: turns, h => by
    obtain ⟨n, hn⟩ := h turn List.mem_cons_self
    obtain ⟨ns, hns⟩ := exists_natSeqs turns fun t ht => h t (List.mem_cons_of_mem _ ht)
    exact ⟨n :: ns, by rw [List.map_cons, List.map_cons, hn, hns]⟩

theorem natCast_lt_iff {m n : Nat} : (Number.finite m).lt (.finite n) = true ↔ m < n := by
  simp [Number.lt]

/-- Increasing numbers below their count are all the numbers below it. -/
theorem eq_range_of_pairwise_lt {ns : List Nat} (hlt : ns.Pairwise (· < ·))
    (hbelow : ∀ n ∈ ns, n < ns.length) : ns = List.range ns.length := by
  have hsubset : ns ⊆ List.range ns.length := fun n hn => List.mem_range.mpr (hbelow n hn)
  have hnodup : ns.Nodup := hlt.imp fun h => Nat.ne_of_lt h
  have hle : ns.Pairwise (· ≤ ·) := hlt.imp fun h => Nat.le_of_lt h
  have hrange : (List.range ns.length).Pairwise (· ≤ ·) :=
    List.pairwise_lt_range.imp fun h => Nat.le_of_lt h
  apply List.Perm.eq_of_pairwise' hle hrange
  exact (List.subperm_of_subset hnodup hsubset).perm_of_length_le (by rw [List.length_range])

theorem map_seqOf_eq_natSeqs
    (hincreasing : ((survivors raw).map seqOf).Pairwise fun a b => a.lt b = true)
    (hbelow : ∀ turn ∈ survivors raw,
      (seqOf turn).lt (.finite (survivors raw).length) = true) :
    (survivors raw).map seqOf = natSeqs (survivors raw).length := by
  obtain ⟨ns, hns⟩ := exists_natSeqs (survivors raw) fun _ h => exists_natSeq h
  have hlength : ns.length = (survivors raw).length := by
    have hcount := congrArg List.length hns
    rw [List.length_map, List.length_map] at hcount
    exact hcount.symm
  have hpairwise : ns.Pairwise (· < ·) := by
    rw [hns, List.pairwise_map] at hincreasing
    exact hincreasing.imp fun h => natCast_lt_iff.mp h
  have hns_below : ∀ n ∈ ns, n < ns.length := by
    intro n hn
    have hmem : Number.finite n ∈ (survivors raw).map seqOf := by
      rw [hns]
      exact List.mem_map.mpr ⟨n, hn, rfl⟩
    obtain ⟨turn, hturn, hseq⟩ := List.mem_map.mp hmem
    have hlt := hbelow turn hturn
    rw [hseq] at hlt
    rw [hlength]
    exact natCast_lt_iff.mp hlt
  rw [hns, natSeqs, ← hlength, ← eq_range_of_pairwise_lt hpairwise hns_below]

/-- Below the last of increasing numbers stand the others. -/
theorem lt_of_getLast_lt {turns : List Value} {stored : Number}
    (hincreasing : (turns.map seqOf).Pairwise fun a b => a.lt b = true)
    (hnat : ∀ turn ∈ turns, ∃ n : Nat, seqOf turn = .finite n)
    (hlast : ∀ turn ∈ turns.getLast?, (seqOf turn).lt stored = true) :
    ∀ turn ∈ turns, (seqOf turn).lt stored = true := by
  rcases List.eq_nil_or_concat' turns with rfl | ⟨front, last, rfl⟩
  · simp
  · have hlast' : (seqOf last).lt stored = true := hlast last (by simp)
    intro turn hturn
    rcases List.mem_append.mp hturn with hfront | hend
    · rw [List.map_append, List.pairwise_append] at hincreasing
      have hlt := hincreasing.2.2 _ (List.mem_map_of_mem hfront) (seqOf last) (by simp)
      obtain ⟨m, hm⟩ := hnat turn hturn
      obtain ⟨n, hn⟩ := hnat last (by simp)
      rw [hm, hn] at hlt
      rw [hn] at hlast'
      rw [hm]
      cases stored with
      | finite q =>
        simp only [Number.lt, decide_eq_true_eq] at hlt hlast' ⊢
        exact lt_trans hlt hlast'
      | posInfinity => rfl
      | _ => simp [Number.lt] at hlast'
    · rw [List.mem_singleton.mp hend]
      exact hlast'

/-- **A restored row keeps the invariant exactly when its turns and counter fit together.** -/
theorem rehydrate_invariant_iff (raw : Value) :
    ThreadInvariant (rehydrateConversationThread raw) ↔ Restorable raw := by
  by_cases hturns : ∃ items, raw.field "turns" = .arr items
  · obtain ⟨items, hitems⟩ := hturns
    obtain ⟨hsurvivors, hcounter, hchars⟩ := rehydrate_of_arr hitems
    constructor
    · intro h
      have hincreasing := h.increasing
      have hbelow := h.below
      have hbounded := h.bounded
      rw [hsurvivors] at hincreasing hbelow hbounded
      rw [hcounter] at hbelow
      refine ⟨hbounded, hincreasing, ?_⟩
      split
      · rename_i stored hstored
        rw [hstored] at hbelow
        exact fun turn hturn => hbelow turn (List.mem_of_mem_getLast? hturn)
      · rename_i hstored
        rw [hstored] at hbelow
        exact map_seqOf_eq_natSeqs hincreasing hbelow
    · intro h
      have hcounter' := h.counter
      constructor
      · rw [hsurvivors]
        exact h.increasing
      · rw [hsurvivors, hcounter]
        split at hcounter'
        · rename_i stored hstored
          rw [hstored]
          exact lt_of_getLast_lt h.increasing (fun _ => exists_natSeq) hcounter'
        · rename_i hstored
          rw [hstored]
          intro turn hturn
          have hmem := List.mem_map_of_mem (f := seqOf) hturn
          rw [hcounter', natSeqs] at hmem
          obtain ⟨k, hk, hseq⟩ := List.mem_map.mp hmem
          rw [← hseq]
          exact natCast_lt_iff.mpr (List.mem_range.mp hk)
      · rw [hsurvivors, hchars]
      · rw [hsurvivors]
        exact h.bounded
  · obtain ⟨hempty, hnone⟩ := rehydrate_of_not_arr fun items hitems => hturns ⟨items, hitems⟩
    rw [hempty]
    constructor
    · intro _
      constructor
      · rw [hnone]
        exact Nat.zero_le _
      · rw [hnone]
        exact List.Pairwise.nil
      · rw [hnone]
        split
        · simp
        · rfl
    · intro _
      exact wellFormed_empty.toThreadInvariant

/-- **Over every run the thread keeps its invariant and a park changes nothing; over any JSON
value the restored thread keeps it exactly when the value is restorable.** -/
theorem conversation_thread_contract (renderInteractionText : InteractionRenderer)
    (ops : List ThreadOp) (raw : Value) :
    ThreadInvariant (runThread renderInteractionText ops {}) ∧
      SameHistory (runThread renderInteractionText ops {})
        (runThread renderInteractionText (withoutSnapshots ops) {}) ∧
      (runThread renderInteractionText ops {}).turns.map seqOf =
        (runThread renderInteractionText (withoutSnapshots ops) {}).turns.map seqOf ∧
      ((∀ op ∈ ops, op.HasJsonPayload renderInteractionText) →
        (runThread renderInteractionText ops {}).turns =
          (runThread renderInteractionText (withoutSnapshots ops) {}).turns) ∧
      (ThreadInvariant (rehydrateConversationThread raw) ↔ Restorable raw) := by
  have hrun : WellFormed (runThread renderInteractionText ops {}) :=
    wellFormed_runThread ops wellFormed_empty
  have hplain : WellFormed (runThread renderInteractionText (withoutSnapshots ops) {}) :=
    wellFormed_runThread _ wellFormed_empty
  have hsame : SameHistory (runThread renderInteractionText ops {})
      (runThread renderInteractionText (withoutSnapshots ops) {}) :=
    sameHistory_runThread ops wellFormed_empty wellFormed_empty ⟨rfl, rfl, rfl⟩
  refine ⟨hrun.toThreadInvariant, hsame, ?_, ?_, rehydrate_invariant_iff raw⟩
  · rw [← map_seqOf_jsonRoundTrip hrun.stored, hsame.turns, map_seqOf_jsonRoundTrip hplain.stored]
  · intro hops
    have hempty : JsonTurns {} := fun turn hturn => absurd hturn List.not_mem_nil
    have hops' : ∀ op ∈ withoutSnapshots ops, op.HasJsonPayload renderInteractionText :=
      fun op hop => hops op (List.mem_of_mem_filter hop)
    have hleft := jsonTurns_runThread ops wellFormed_empty hops hempty
    have hright := jsonTurns_runThread _ wellFormed_empty hops' hempty
    rw [← map_jsonRoundTrip_of_jsonTurns hleft, hsame.turns, map_jsonRoundTrip_of_jsonTurns hright]

def greeting : List ThreadOp :=
  [.append (.aiUserMessage { id := "n1", label := "Agent", type := "ai_agent" } "hello" none) "t0",
    .snapshot,
    .append (.aiAssistantMessage { id := "n1", label := "", type := "ai_agent" } "hi" none none none)
      "t1"]

theorem greeting_restored :
    (runThread (fun _ _ => "") greeting {}).turns =
      (runThread (fun _ _ => "") (withoutSnapshots greeting) {}).turns :=
  (conversation_thread_contract (fun _ _ => "") greeting .null).2.2.2.1 (by
    intro op hop
    simp only [greeting, List.mem_cons, List.not_mem_nil, or_false] at hop
    rcases hop with rfl | rfl | rfl
    · exact ⟨rfl, rfl, rfl, rfl⟩
    · trivial
    · exact ⟨rfl, rfl, rfl, rfl⟩)

/-! ## 5. A damaged row -/

/-- One turn numbered five beside a counter that is not a number. -/
def damagedRow : Value :=
  .obj [("id", .str "default"), ("nextSeq", .str "bad"),
    ("turns", .arr [.obj [("seq", .num (.finite 5)), ("source", .str "ai_user"),
      ("text", .str "hi")]]),
    ("totalChars", .num (.finite 2))]

/-- The counter restarts at one, below the turn that survives. -/
theorem damagedRow_not_restored :
    (rehydrateConversationThread damagedRow).nextSeq = .finite 1 ∧
      (rehydrateConversationThread damagedRow).turns.map seqOf = [.finite 5] ∧
      ¬ ∀ raw, ThreadInvariant (rehydrateConversationThread raw) := by
  have hseq : (rehydrateConversationThread damagedRow).nextSeq = .finite 1 := by decide +kernel
  have hturns : (rehydrateConversationThread damagedRow).turns.map seqOf = [.finite 5] := by
    decide +kernel
  refine ⟨hseq, hturns, ?_⟩
  intro h
  have hmem : Number.finite 5 ∈ (rehydrateConversationThread damagedRow).turns.map seqOf := by
    rw [hturns]
    exact List.mem_cons_self
  obtain ⟨turn, hturn, hfive⟩ := List.mem_map.mp hmem
  have hlt := (h damagedRow).below turn hturn
  rw [hfive, hseq] at hlt
  exact absurd hlt (by decide)

end Clemvion.Conversation
