import Clemvion.Conversation.ConversationThread
import Mathlib.Data.List.Sort
import Mathlib.Tactic.NormNum
import Mathlib.Tactic.Linarith

/-!
# ThreadInvariant — what holds of every thread, and what parking leaves alone

The append path keeps its counters step by step; the restore path computes them again.  From the
empty thread both agree.  On an arbitrary column the restore path trusts the stored numbers of the
turns and the stored counter one by one, and keeps the invariant only when they fit together.
-/

open Clemvion.Js Clemvion.Js.Value

namespace Clemvion.Conversation

structure ThreadInvariant (thread : ConversationThread) : Prop where
  increasing : (thread.turns.map seqOf).Pairwise fun a b => a.lt b = true
  below : ∀ turn ∈ thread.turns, (seqOf turn).lt thread.nextSeq = true
  chars : thread.totalChars = sumChars thread.turns
  bounded : thread.turns.length ≤ storageMaxTurns

/-! ## 1. Reading a turn -/

/-- A turn that the column keeps: an object with distinct keys that passes the stored check. -/
def StoredTurn (turn : Value) : Prop :=
  ∃ fields, turn = .obj fields ∧ (fields.map Prod.fst).Nodup ∧ isConversationTurn turn = true

variable {turn : Value} {args : AppendArgs} {now : String} {thread : ConversationThread}

theorem seqOf_of_field {n : Number} (h : turn.field "seq" = .num n) : seqOf turn = n := by
  rw [seqOf, h]

theorem textLength_of_field {s : String} (h : turn.field "text" = .str s) :
    textLength turn = utf16Length s := by
  rw [textLength, h]

theorem mem_conversationTurnSources (source : ConversationTurnSource) :
    source.text ∈ conversationTurnSources := by
  cases source <;> decide

theorem isConversationTurn_iff : isConversationTurn turn = true ↔
    (turn.truthy = true ∧ turn.isObject = true) ∧
      (∃ n, turn.field "seq" = .num n ∧ n.isInteger = true ∧ n.lt (.finite 0) = false) ∧
      (∃ source, turn.field "source" = .str source ∧ source ∈ conversationTurnSources) ∧
      ∃ text, turn.field "text" = .str text := by
  unfold isConversationTurn
  by_cases hobject : turn.truthy = true ∧ turn.isObject = true
  · rw [if_neg (by simp [hobject.1, hobject.2])]
    cases turn.field "seq" <;> cases turn.field "source" <;> cases turn.field "text" <;>
      simp [hobject.1, hobject.2]
  · rw [if_pos (by simpa [imp_iff_not_or, or_comm] using hobject)]
    simp [hobject]

/-- The four reads of a stored turn that the check makes. -/
theorem storedTurn_of_fields {fields : List (String × Value)} {n : Number}
    {source : String} {text : String} (hnodup : (fields.map Prod.fst).Nodup)
    (hseq : (Value.obj fields).field "seq" = .num n) (hint : n.isInteger = true)
    (hpos : n.lt (.finite 0) = false) (hsource : (Value.obj fields).field "source" = .str source)
    (hmem : source ∈ conversationTurnSources)
    (htext : (Value.obj fields).field "text" = .str text) : StoredTurn (.obj fields) :=
  ⟨fields, rfl, hnodup, isConversationTurn_iff.mpr
    ⟨⟨rfl, rfl⟩, ⟨n, hseq, hint, hpos⟩, ⟨source, hsource, hmem⟩, text, htext⟩⟩

theorem lt_natCast_zero (n : Nat) : (Number.finite n).lt (.finite 0) = false := by
  simp [Number.lt]

theorem isInteger_natCast (n : Nat) : (Number.finite n).isInteger = true := by
  simp [Number.isInteger]

theorem keys_presentField_sublist (key : String) (v : Value) :
    ((presentField key v).map Prod.fst).Sublist [key] := by
  unfold presentField
  split_ifs
  · exact List.Sublist.refl _
  · exact List.nil_sublist _

/-- The properties of a turn, those that may be absent included. -/
def turnKeys : List String :=
  ["seq", "nodeId", "nodeLabel", "nodeType", "timestamp", "source", "text"] ++
    (((["data"] ++ ["toolCalls"]) ++ ["toolCallId"]) ++ ["presentations"])

theorem nodup_buildTurn {seq : Number} {fields : List (String × Value)}
    (h : buildTurn seq args now = .obj fields) : (fields.map Prod.fst).Nodup := by
  injection h with hfields
  subst hfields
  have hkeys : turnKeys.Nodup := by decide
  refine List.Nodup.sublist ?_ hkeys
  simp only [List.map_append]
  apply List.Sublist.append (List.Sublist.refl _)
  exact (((keys_presentField_sublist ..).append (keys_presentField_sublist ..)).append
    (keys_presentField_sublist ..)).append (keys_presentField_sublist ..)

theorem storedTurn_buildTurn (n : Nat) : StoredTurn (buildTurn (.finite n) args now) :=
  storedTurn_of_fields (nodup_buildTurn rfl) rfl (isInteger_natCast n) (lt_natCast_zero n) rfl
    (mem_conversationTurnSources args.source) rfl

theorem seqOf_buildTurn {seq : Number} : seqOf (buildTurn seq args now) = seq := rfl

theorem textLength_buildTurn {seq : Number} :
    textLength (buildTurn seq args now) = utf16Length args.text := rfl

/-- The column keeps what the check reads. -/
theorem storedTurn_jsonRoundTrip (h : StoredTurn turn) :
    StoredTurn (jsonRoundTrip turn) ∧ seqOf (jsonRoundTrip turn) = seqOf turn ∧
      textLength (jsonRoundTrip turn) = textLength turn := by
  obtain ⟨fields, rfl, hnodup, hturn⟩ := h
  obtain ⟨-, ⟨n, hseq, hint, hpos⟩, ⟨source, hsource, hmem⟩, text, htext⟩ :=
    isConversationTurn_iff.mp hturn
  have hseq' : (jsonRoundTrip (.obj fields)).field "seq" = .num n := by
    rw [field_jsonRoundTrip hnodup, hseq]
    cases n with
    | finite q => rfl
    | _ => simp [Number.isInteger] at hint
  have hsource' : (jsonRoundTrip (.obj fields)).field "source" = .str source := by
    rw [field_jsonRoundTrip hnodup, hsource]
    rfl
  have htext' : (jsonRoundTrip (.obj fields)).field "text" = .str text := by
    rw [field_jsonRoundTrip hnodup, htext]
    rfl
  refine ⟨?_, ?_, ?_⟩
  · exact storedTurn_of_fields (nodup_jsonFields hnodup) hseq' hint hpos hsource' hmem htext'
  · rw [seqOf_of_field hseq', seqOf_of_field hseq]
  · rw [textLength_of_field htext', textLength_of_field htext]

/-! ## 2. One append -/

/-- The invariant that carries the runs: the turns can be stored, and the counter is a natural
number that counts every kept turn. -/
structure WellFormed (thread : ConversationThread) : Prop extends ThreadInvariant thread where
  stored : ∀ turn ∈ thread.turns, StoredTurn turn
  counter : ∃ n : Nat, thread.nextSeq = .finite n ∧ thread.turns.length ≤ n

theorem wellFormed_empty : WellFormed {} where
  increasing := List.Pairwise.nil
  below := by simp
  chars := rfl
  bounded := Nat.zero_le _
  stored := by simp
  counter := ⟨0, rfl, Nat.le_refl 0⟩

/-- The thread with the new turn at its end. -/
def pushed (thread : ConversationThread) (args : AppendArgs) (now : String) : ConversationThread :=
  { thread with
    turns := thread.turns ++ [buildTurn thread.nextSeq args now]
    nextSeq := thread.nextSeq.succ
    totalChars := thread.totalChars + utf16Length args.text }

/-- How many turns stand beyond the cap. -/
def excess (turns : List Value) : Nat := turns.length - storageMaxTurns

def evicted (thread : ConversationThread) : ConversationThread :=
  { thread with
    turns := thread.turns.drop (excess thread.turns)
    totalChars := thread.totalChars - sumChars (thread.turns.take (excess thread.turns)) }

/-- Both branches of the append: a push and a possibly empty eviction. -/
theorem appendInternal_eq (h : isOptedOut args.node = false) :
    appendInternal thread args now = evicted (pushed thread args now) := by
  unfold appendInternal
  rw [if_neg (by simp [h])]
  dsimp only
  by_cases hcap : (thread.turns ++ [buildTurn thread.nextSeq args now]).length > storageMaxTurns
  · rw [if_pos hcap]
    rfl
  · have hnone : excess (pushed thread args now).turns = 0 :=
      Nat.sub_eq_zero_of_le (Nat.le_of_not_lt hcap)
    rw [if_neg hcap]
    unfold evicted
    rw [hnone, List.drop_zero, List.take_zero]
    simp [sumChars, pushed]

theorem sumChars_append (turns turns' : List Value) :
    sumChars (turns ++ turns') = sumChars turns + sumChars turns' := by
  simp [sumChars]

theorem sumChars_take_drop (turns : List Value) (k : Nat) :
    sumChars (turns.take k) + sumChars (turns.drop k) = sumChars turns := by
  rw [← sumChars_append, List.take_append_drop]

theorem finite_lt_succ (q : Rat) : (Number.finite q).lt (Number.finite q).succ = true := by
  simp [Number.lt, Number.succ]

theorem lt_succ_of_lt {a : Number} {q : Rat} (h : a.lt (.finite q) = true) :
    a.lt (Number.finite q).succ = true := by
  cases a with
  | finite p =>
    simp only [Number.lt, Number.succ, decide_eq_true_eq] at h ⊢
    linarith
  | negInfinity => rfl
  | _ => simp [Number.lt] at h

/-- What a push keeps, the cap apart. -/
structure Consistent (thread : ConversationThread) : Prop where
  increasing : (thread.turns.map seqOf).Pairwise fun a b => a.lt b = true
  below : ∀ turn ∈ thread.turns, (seqOf turn).lt thread.nextSeq = true
  chars : thread.totalChars = sumChars thread.turns
  stored : ∀ turn ∈ thread.turns, StoredTurn turn
  counter : ∃ n : Nat, thread.nextSeq = .finite n ∧ thread.turns.length ≤ n

theorem consistent_pushed (h : WellFormed thread) : Consistent (pushed thread args now) := by
  obtain ⟨n, hn, hcount⟩ := h.counter
  have hcases : ∀ turn ∈ (pushed thread args now).turns,
      turn ∈ thread.turns ∨ turn = buildTurn thread.nextSeq args now := by
    intro turn hturn
    simpa [pushed] using hturn
  constructor
  · unfold pushed
    rw [List.map_append, List.pairwise_append]
    refine ⟨h.increasing, List.pairwise_singleton _ _, ?_⟩
    intro a ha b hb
    obtain ⟨turn, hturn, rfl⟩ := List.mem_map.mp ha
    rw [List.map_singleton, List.mem_singleton, seqOf_buildTurn] at hb
    rw [hb]
    exact h.below turn hturn
  · intro turn hturn
    show (seqOf turn).lt thread.nextSeq.succ = true
    rcases hcases turn hturn with hold | rfl
    · have hlt := h.below turn hold
      rw [hn] at hlt ⊢
      exact lt_succ_of_lt hlt
    · rw [seqOf_buildTurn, hn]
      exact finite_lt_succ n
  · have hnew : sumChars [buildTurn thread.nextSeq args now] = utf16Length args.text := by
      simp [sumChars, textLength_buildTurn]
    unfold pushed
    rw [sumChars_append, hnew, h.chars]
  · intro turn hturn
    rcases hcases turn hturn with hold | rfl
    · exact h.stored turn hold
    · rw [hn]
      exact storedTurn_buildTurn n
  · refine ⟨n + 1, ?_, ?_⟩
    · unfold pushed
      rw [hn]
      simp [Number.succ]
    · unfold pushed
      rw [List.length_append, List.length_singleton]
      omega

theorem mem_of_mem_evicted (h : turn ∈ (evicted thread).turns) : turn ∈ thread.turns := by
  unfold evicted at h
  dsimp only at h
  exact List.mem_of_mem_drop h

/-- The eviction keeps the newest turns and takes the characters of the others off the total. -/
theorem wellFormed_evicted (h : Consistent thread) : WellFormed (evicted thread) := by
  obtain ⟨n, hn, hcount⟩ := h.counter
  have hsplit := sumChars_take_drop thread.turns (excess thread.turns)
  have htotal := h.chars
  have hkept : ∀ turn ∈ thread.turns.drop (excess thread.turns), turn ∈ thread.turns :=
    fun turn hturn => List.mem_of_mem_drop hturn
  have hbounded : (thread.turns.drop (excess thread.turns)).length ≤ storageMaxTurns := by
    rw [List.length_drop]
    unfold excess
    omega
  have hcounted : (thread.turns.drop (excess thread.turns)).length ≤ n := by
    rw [List.length_drop]
    omega
  unfold evicted
  -- From here on only the number of evicted turns matters, not how it is computed.
  generalize excess thread.turns = k at hsplit hkept hbounded hcounted ⊢
  exact {
    increasing := by
      rw [List.map_drop]
      exact List.Pairwise.sublist (List.drop_sublist _ _) h.increasing
    below := fun turn hturn => h.below turn (hkept turn hturn)
    chars := by
      show thread.totalChars - sumChars (thread.turns.take k) = sumChars (thread.turns.drop k)
      omega
    bounded := hbounded
    stored := fun turn hturn => h.stored turn (hkept turn hturn)
    counter := ⟨n, hn, hcounted⟩ }

theorem wellFormed_append (h : WellFormed thread) : WellFormed (appendInternal thread args now) := by
  by_cases hopt : isOptedOut args.node = true
  · unfold appendInternal
    rw [if_pos hopt]
    exact h
  · rw [appendInternal_eq (by simpa using hopt)]
    exact wellFormed_evicted (consistent_pushed h)

theorem wellFormed_updateSummaryState {runningSummary : Option String}
    {summarizedUpToSeq : Option Number} (h : WellFormed thread) :
    WellFormed (updateSummaryState thread runningSummary summarizedUpToSeq) :=
  ⟨⟨h.increasing, h.below, h.chars, h.bounded⟩, h.stored, h.counter⟩

/-! ## 3. One park and resume -/

/-- What a restored thread shares with the one that was parked. -/
structure SameHistory (thread thread' : ConversationThread) : Prop where
  turns : thread.turns.map jsonRoundTrip = thread'.turns.map jsonRoundTrip
  nextSeq : thread.nextSeq = thread'.nextSeq
  totalChars : thread.totalChars = thread'.totalChars

theorem nodup_toValue {fields : List (String × Value)} (h : thread.toValue = .obj fields) :
    (fields.map Prod.fst).Nodup := by
  injection h with hfields
  subst hfields
  have hkeys : ["id", "nextSeq", "turns", "totalChars", "runningSummary",
    "summarizedUpToSeq"].Nodup := by decide
  exact hkeys

theorem stored_ne_undefined (h : StoredTurn turn) : turn ≠ .undefined := by
  obtain ⟨fields, rfl, -⟩ := h
  simp

theorem sumChars_map_jsonRoundTrip {turns : List Value} (h : ∀ turn ∈ turns, StoredTurn turn) :
    sumChars (turns.map jsonRoundTrip) = sumChars turns := by
  unfold sumChars
  rw [List.map_map]
  apply congrArg List.sum
  apply List.map_congr_left
  intro turn hturn
  show (textLength (jsonRoundTrip turn) : Int) = textLength turn
  rw [(storedTurn_jsonRoundTrip (h turn hturn)).2.2]

theorem map_seqOf_jsonRoundTrip {turns : List Value} (h : ∀ turn ∈ turns, StoredTurn turn) :
    (turns.map jsonRoundTrip).map seqOf = turns.map seqOf := by
  rw [List.map_map]
  apply List.map_congr_left
  intro turn hturn
  exact (storedTurn_jsonRoundTrip (h turn hturn)).2.1

theorem filter_stored {turns : List Value} (h : ∀ turn ∈ turns, StoredTurn turn) :
    (turns.map jsonRoundTrip).filter isConversationTurn = turns.map jsonRoundTrip := by
  rw [List.filter_eq_self]
  intro turn hturn
  obtain ⟨source, hsource, rfl⟩ := List.mem_map.mp hturn
  obtain ⟨-, -, -, hcheck⟩ := (storedTurn_jsonRoundTrip (h source hsource)).1
  exact hcheck

theorem le_natCast {m n : Nat} (h : m ≤ n) : Number.le (.finite m) (.finite n) = true := by
  have hcast : (m : Rat) ≤ n := by exact_mod_cast h
  rcases lt_or_eq_of_le hcast with hlt | heq
  · simp [Number.le, Number.lt, hlt]
  · simp [Number.le, heq]

/-- **A well-formed thread is restored with its turns and counters.** -/
theorem parkAndResume_eq (h : WellFormed thread) :
    (parkAndResume thread).turns = thread.turns.map jsonRoundTrip ∧
      (parkAndResume thread).nextSeq = thread.nextSeq ∧
      (parkAndResume thread).totalChars = thread.totalChars := by
  obtain ⟨n, hn, hcount⟩ := h.counter
  have hturns : (jsonRoundTrip thread.toValue).field "turns" =
      .arr (thread.turns.map jsonRoundTrip) := by
    unfold ConversationThread.toValue
    rw [field_jsonRoundTrip (nodup_toValue rfl)]
    show Value.arr (jsonItems thread.turns) = _
    rw [jsonItems_eq_map fun turn hturn => stored_ne_undefined (h.stored turn hturn)]
  have hseq : (jsonRoundTrip thread.toValue).field "nextSeq" = .num thread.nextSeq := by
    unfold ConversationThread.toValue
    rw [field_jsonRoundTrip (nodup_toValue rfl), hn]
    rfl
  have hobject : ¬(!(jsonRoundTrip thread.toValue).truthy ||
      !(jsonRoundTrip thread.toValue).isObject) = true := by
    unfold ConversationThread.toValue
    simp [jsonRoundTrip, truthy, isObject]
  have hstored : storedNextSeq (jsonRoundTrip thread.toValue) thread.turns.length =
      some thread.nextSeq := by
    unfold storedNextSeq
    rw [hseq, hn]
    exact if_pos (le_natCast hcount)
  unfold parkAndResume rehydrateConversationThread
  rw [if_neg hobject, hturns]
  dsimp only
  rw [filter_stored h.stored, List.length_map, hstored, sumChars_map_jsonRoundTrip h.stored, h.chars]
  exact ⟨rfl, rfl, rfl⟩

theorem wellFormed_parkAndResume (h : WellFormed thread) : WellFormed (parkAndResume thread) := by
  obtain ⟨hturns, hseq, hchars⟩ := parkAndResume_eq h
  obtain ⟨n, hn, hcount⟩ := h.counter
  constructor
  · constructor
    · rw [hturns, map_seqOf_jsonRoundTrip h.stored]
      exact h.increasing
    · intro turn hturn
      rw [hturns] at hturn
      obtain ⟨source, hsource, rfl⟩ := List.mem_map.mp hturn
      rw [hseq, (storedTurn_jsonRoundTrip (h.stored source hsource)).2.1]
      exact h.below source hsource
    · rw [hturns, hchars, sumChars_map_jsonRoundTrip h.stored]
      exact h.chars
    · rw [hturns, List.length_map]
      exact h.bounded
  · intro turn hturn
    rw [hturns] at hturn
    obtain ⟨source, hsource, rfl⟩ := List.mem_map.mp hturn
    exact (storedTurn_jsonRoundTrip (h.stored source hsource)).1
  · refine ⟨n, ?_, ?_⟩
    · rw [hseq, hn]
    · rw [hturns, List.length_map]
      exact hcount

theorem sameHistory_parkAndResume {thread' : ConversationThread} (h : WellFormed thread)
    (hsame : SameHistory thread thread') : SameHistory (parkAndResume thread) thread' := by
  obtain ⟨hturns, hseq, hchars⟩ := parkAndResume_eq h
  constructor
  · rw [hturns, List.map_map, ← hsame.turns]
    apply List.map_congr_left
    intro turn _
    exact jsonRoundTrip_idem turn
  · rw [hseq]
    exact hsame.nextSeq
  · rw [hchars]
    exact hsame.totalChars

end Clemvion.Conversation
