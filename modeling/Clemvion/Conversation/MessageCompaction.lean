import Clemvion.Library.Segments
import Mathlib.Data.List.TakeWhile

/-!
# MessageCompaction — the messages kept after a summary

`compactMessagesToTail` keeps the leading system messages and the last exchanges of a message
list.  It cuts in front of a user message only, so a tool result never loses its call.
-/

open Clemvion.Library

namespace Clemvion.Conversation

inductive ChatRole
  | system
  | user
  | assistant
  | tool
  deriving DecidableEq

structure ToolCall where
  id : String
  name : String
  arguments : String
  deriving DecidableEq

structure ChatMessage where
  role : ChatRole
  content : String
  toolCallId : Option String := none
  toolCalls : List ToolCall := []
  deriving DecidableEq

/-! ## 1. The function -/

/-- `prefixLen`: how many system messages the list starts with. -/
def leadingSystemCount : List ChatMessage → Nat
  | [] => 0
  | m :: rest => if m.role = .system then leadingSystemCount rest + 1 else 0

/-- The loop from the end: `position` messages are still to be looked at, `tailUserCount` users
    stand behind them.  The index of the wanted user message, or `-1`. -/
def findCutIndex (messages : List ChatMessage) (keepUserExchanges : Int) (lead : Nat) : Nat → Nat → Int
  | 0, _ => -1
  | i + 1, tailUserCount =>
    if i < lead then -1
    else
      match messages[i]? with
      | none => -1
      | some m =>
        if m.role = .user then
          if ((tailUserCount + 1 : Nat) : Int) = keepUserExchanges then i
          else findCutIndex messages keepUserExchanges lead i (tailUserCount + 1)
        else findCutIndex messages keepUserExchanges lead i tailUserCount

def compactMessagesToTail (messages : List ChatMessage) (keepUserExchanges : Int) : List ChatMessage :=
  if messages.head?.map (·.role) ≠ some .system then messages
  else if keepUserExchanges ≤ 0 then messages
  else
    let lead := leadingSystemCount messages
    let cutIndex := findCutIndex messages keepUserExchanges lead messages.length 0
    if cutIndex < 0 then messages
    else if cutIndex ≤ lead then messages
    else messages.take lead ++ messages.drop cutIndex.toNat

/-! ## 2. What the loop finds -/

def isUser (m : ChatMessage) : Bool := m.role = .user
def isSystem (m : ChatMessage) : Bool := m.role = .system

@[simp] theorem isUser_iff {m : ChatMessage} : isUser m = true ↔ m.role = .user := decide_eq_true_iff
@[simp] theorem isSystem_iff {m : ChatMessage} : isSystem m = true ↔ m.role = .system := decide_eq_true_iff

/-- The user messages from position `i` on. -/
def usersFrom (messages : List ChatMessage) (i : Nat) : Nat := (messages.drop i).countP isUser

theorem usersFrom_of_getElem {messages : List ChatMessage} {i : Nat} {m : ChatMessage} (h : messages[i]? = some m) :
    usersFrom messages i = usersFrom messages (i + 1) + if m.role = .user then 1 else 0 := by
  obtain ⟨hi, rfl⟩ := List.getElem?_eq_some_iff.mp h
  unfold usersFrom
  rw [List.drop_eq_getElem_cons hi, List.countP_cons]
  simp

theorem usersFrom_anti {messages : List ChatMessage} {i j : Nat} (h : i ≤ j) :
    usersFrom messages j ≤ usersFrom messages i := by
  have hsub : (messages.drop j).Sublist (messages.drop i) := by
    rw [show j = i + (j - i) by omega, ← List.drop_drop]
    exact List.drop_sublist _ _
  exact hsub.countP_le

/-- The loop answers `-1` when fewer than `keep` users follow the lead, else the `keep`-th user
    from the end. -/
theorem findCutIndex_spec (messages : List ChatMessage) (keep : Int) (lead : Nat) :
    ∀ position tailUserCount, position ≤ messages.length → tailUserCount = usersFrom messages position →
      (tailUserCount : Int) < keep →
      (findCutIndex messages keep lead position tailUserCount = -1 ∧ (usersFrom messages lead : Int) < keep) ∨
        ∃ i m, findCutIndex messages keep lead position tailUserCount = (i : Nat) ∧ lead ≤ i ∧
          messages[i]? = some m ∧ m.role = .user ∧ (usersFrom messages i : Int) = keep := by
  intro position
  induction position with
  | zero =>
    intro count _ hcount hkeep
    have : usersFrom messages lead ≤ usersFrom messages 0 := usersFrom_anti (Nat.zero_le lead)
    exact Or.inl ⟨rfl, by omega⟩
  | succ i ih =>
    intro count hlen hcount hkeep
    have hget : messages[i]? = some messages[i] := List.getElem?_eq_getElem (by omega)
    have hstep := usersFrom_of_getElem hget
    unfold findCutIndex
    rw [hget]
    by_cases hlead : i < lead
    · rw [if_pos hlead]
      have : usersFrom messages lead ≤ usersFrom messages (i + 1) := usersFrom_anti hlead
      exact Or.inl ⟨rfl, by omega⟩
    · rw [if_neg hlead]
      by_cases huser : messages[i].role = .user
      · rw [if_pos huser] at hstep
        simp only [if_pos huser]
        by_cases hfound : ((count + 1 : Nat) : Int) = keep
        · rw [if_pos hfound]
          exact Or.inr ⟨i, _, rfl, Nat.le_of_not_lt hlead, hget, huser, by omega⟩
        · rw [if_neg hfound]
          exact ih (count + 1) (by omega) (by omega) (by omega)
      · rw [if_neg huser] at hstep
        simp only [if_neg huser]
        exact ih count (by omega) (by omega) hkeep

/-! ## 3. What the function returns -/

theorem leadingSystemCount_eq (messages : List ChatMessage) :
    leadingSystemCount messages = (messages.takeWhile isSystem).length := by
  induction messages with
  | nil => rfl
  | cons m rest ih =>
    unfold leadingSystemCount
    by_cases h : m.role = .system
    · rw [if_pos h, List.takeWhile_cons_of_pos (isSystem_iff.mpr h), List.length_cons, ih]
    · rw [if_neg h, List.takeWhile_cons_of_neg (by simpa using h)]
      rfl

/-- The system block, what is dropped, and a tail that starts with a user and holds `keep` users. -/
structure IsCut (messages : List ChatMessage) (keep : Int) (dropped : List ChatMessage) (cut : ChatMessage)
    (tail : List ChatMessage) : Prop where
  split : messages = messages.takeWhile isSystem ++ dropped ++ cut :: tail
  role : cut.role = .user
  count : ((cut :: tail).countP isUser : Int) = keep

theorem take_leadingSystemCount (messages : List ChatMessage) :
    messages.take (leadingSystemCount messages) = messages.takeWhile isSystem := by
  rw [leadingSystemCount_eq]
  exact (List.prefix_iff_eq_take.mp (List.takeWhile_prefix _)).symm

/-- A user message behind the system block splits the list into a cut. -/
theorem isCut_of_getElem {messages : List ChatMessage} {keep : Int} {i : Nat} {m : ChatMessage}
    (hlead : leadingSystemCount messages ≤ i) (hget : messages[i]? = some m) (hrole : m.role = .user)
    (hcount : (usersFrom messages i : Int) = keep) :
    messages.drop i = m :: messages.drop (i + 1) ∧
      ∃ dropped, IsCut messages keep dropped m (messages.drop (i + 1)) := by
  obtain ⟨hi, hm⟩ := List.getElem?_eq_some_iff.mp hget
  have hdrop : messages.drop i = m :: messages.drop (i + 1) := by
    rw [List.drop_eq_getElem_cons hi, hm]
  refine ⟨hdrop, (messages.take i).drop (leadingSystemCount messages), ?_, hrole, ?_⟩
  · rw [← hdrop, ← take_leadingSystemCount,
      ← show (messages.take i).take (leadingSystemCount messages) = messages.take (leadingSystemCount messages) by
        rw [List.take_take, Nat.min_eq_left hlead],
      List.take_append_drop, List.take_append_drop]
  · rw [← hdrop]
    exact hcount

/-- Nothing changes, or the messages between the system block and a user are dropped. -/
theorem compactMessagesToTail_spec (messages : List ChatMessage) (keep : Int) :
    compactMessagesToTail messages keep = messages ∨
      ∃ dropped cut tail, IsCut messages keep dropped cut tail ∧
        compactMessagesToTail messages keep = messages.takeWhile isSystem ++ cut :: tail := by
  unfold compactMessagesToTail
  by_cases hsystem : messages.head?.map (·.role) ≠ some .system
  · exact Or.inl (if_pos hsystem)
  by_cases hkeep : keep ≤ 0
  · rw [if_neg hsystem]
    exact Or.inl (if_pos hkeep)
  rw [if_neg hsystem, if_neg hkeep]
  have hnone : 0 = usersFrom messages messages.length := by simp [usersFrom]
  rcases findCutIndex_spec messages keep (leadingSystemCount messages) _ 0 (Nat.le_refl _) hnone
    (by omega) with ⟨hcut, _⟩ | ⟨i, m, hcut, hlead, hget, hrole, hcount⟩
  · simp only [hcut]
    exact Or.inl (if_pos (by omega))
  · obtain ⟨hdrop, dropped, hsplit⟩ := isCut_of_getElem hlead hget hrole hcount
    simp only [hcut]
    rw [if_neg (by omega)]
    by_cases hle : (i : Int) ≤ leadingSystemCount messages
    · exact Or.inl (if_pos hle)
    · rw [if_neg hle, take_leadingSystemCount, Int.toNat_natCast, hdrop]
      exact Or.inr ⟨dropped, m, _, hsplit, rfl⟩

/-! ## 4. Tool results keep their calls -/

/-- `call` is the assistant message whose tool call the tool message `m` answers. -/
def AnswersCall (m call : ChatMessage) : Prop :=
  call.role = .assistant ∧ ∃ c ∈ call.toolCalls, m.toolCallId = some c.id

instance (m call : ChatMessage) : Decidable (AnswersCall m call) :=
  inferInstanceAs (Decidable (_ ∧ ∃ c ∈ call.toolCalls, m.toolCallId = some c.id))

/-- Every tool message answers a call of an earlier assistant message, with no user in between. -/
def Paired (messages : List ChatMessage) : Prop :=
  Answered (fun m => m.role = .tool) AnswersCall (fun m => m.role = .user) messages

instance (messages : List ChatMessage) : Decidable (Paired messages) :=
  inferInstanceAs (Decidable (Answered (fun m => m.role = .tool) AnswersCall (fun m => m.role = .user) messages))

theorem paired_systemBlock (messages : List ChatMessage) : Paired (messages.takeWhile isSystem) := by
  apply answered_of_no_needs
  intro m hm htool
  have hsystem := isSystem_iff.mp (List.mem_takeWhile_imp hm)
  rw [hsystem] at htool
  cases htool

/-- A cut keeps the pairs: it stands in front of a user. -/
theorem IsCut.paired {messages dropped tail : List ChatMessage} {keep : Int} {cut : ChatMessage}
    (hcut : IsCut messages keep dropped cut tail) (hpaired : Paired messages) :
    Paired (messages.takeWhile isSystem ++ cut :: tail) := by
  apply Answered.append (paired_systemBlock messages)
  apply Answered.from_boundary (l := messages.takeWhile isSystem ++ dropped) hcut.role
  · rw [hcut.role]
    exact fun h => ChatRole.noConfusion h
  · rw [← hcut.split]
    exact hpaired

/-! ## 5. The last exchanges stay -/

theorem filter_isUser_systemBlock (messages : List ChatMessage) :
    (messages.takeWhile isSystem).filter isUser = [] := by
  apply List.filter_eq_nil_iff.mpr
  intro m hm huser
  have hsystem := isSystem_iff.mp (List.mem_takeWhile_imp hm)
  rw [isUser_iff, hsystem] at huser
  cases huser

/-- The last `n` user messages, all of them when there are fewer. -/
def lastUsers (messages : List ChatMessage) (n : Nat) : List ChatMessage :=
  (messages.filter isUser).drop (messages.countP isUser - n)

theorem lastUsers_suffix (messages : List ChatMessage) (n : Nat) :
    lastUsers messages n <:+ messages.filter isUser := List.drop_suffix _ _

/-- The users of a cut are the last ones of the list. -/
theorem IsCut.lastUsers_eq {messages dropped tail : List ChatMessage} {keep : Int} {cut : ChatMessage}
    (hcut : IsCut messages keep dropped cut tail) :
    lastUsers messages keep.toNat = (messages.takeWhile isSystem ++ cut :: tail).filter isUser := by
  have hkeep : keep.toNat = ((cut :: tail).filter isUser).length := by
    rw [← List.countP_eq_length_filter, ← hcut.count, Int.toNat_natCast]
  have husers : messages.filter isUser = dropped.filter isUser ++ (cut :: tail).filter isUser := by
    conv_lhs => rw [hcut.split]
    rw [List.filter_append, List.filter_append, filter_isUser_systemBlock, List.nil_append]
  unfold lastUsers
  rw [List.countP_eq_length_filter, husers, hkeep, List.length_append, Nat.add_sub_cancel, List.drop_left,
    List.filter_append, filter_isUser_systemBlock, List.nil_append]

/-! ## 6. A second compaction -/

theorem takeWhile_isSystem_cut {messages tail : List ChatMessage} {cut : ChatMessage} (hrole : cut.role = .user) :
    (messages.takeWhile isSystem ++ cut :: tail).takeWhile isSystem = messages.takeWhile isSystem := by
  have hcut : ¬ isSystem cut = true := by
    rw [isSystem_iff, hrole]
    decide
  rw [List.takeWhile_append_of_pos (fun m hm => List.mem_takeWhile_imp hm), List.takeWhile_cons_of_neg hcut,
    List.append_nil]

/-- A list that is the system block and a cut of `keep` users has nothing left to drop. -/
theorem compactMessagesToTail_cut {messages dropped tail : List ChatMessage} {keep : Int} {cut : ChatMessage}
    (hcut : IsCut messages keep dropped cut tail) :
    compactMessagesToTail (messages.takeWhile isSystem ++ cut :: tail) keep =
      messages.takeWhile isSystem ++ cut :: tail := by
  rcases compactMessagesToTail_spec (messages.takeWhile isSystem ++ cut :: tail) keep with
    h | ⟨dropped', cut', tail', hcut', h⟩
  · exact h
  · have hsplit := hcut'.split
    rw [takeWhile_isSystem_cut hcut.role] at hsplit h
    have htail : cut :: tail = dropped' ++ cut' :: tail' := by
      rw [List.append_assoc] at hsplit
      exact List.append_cancel_left hsplit
    cases dropped' with
    | nil => rw [h, htail, List.nil_append]
    | cons d dropped' =>
      -- the first dropped message would be the user `cut`, one user too many
      have hcounts : ((cut :: tail).countP isUser : Int) = ((cut' :: tail').countP isUser : Int) := by
        rw [hcut.count, hcut'.count]
      rw [List.cons_append] at htail
      obtain ⟨rfl, hrest⟩ := List.cons.inj htail
      rw [hrest, List.countP_cons_of_pos (isUser_iff.mpr hcut.role), List.countP_append] at hcounts
      omega

theorem compactMessagesToTail_idempotent (messages : List ChatMessage) (keep : Int) :
    compactMessagesToTail (compactMessagesToTail messages keep) keep = compactMessagesToTail messages keep := by
  rcases compactMessagesToTail_spec messages keep with h | ⟨dropped, cut, tail, hcut, h⟩
  · rw [h, h]
  · rw [h, compactMessagesToTail_cut hcut]

/-- **Compaction keeps whole exchanges.**  The result is the system block and a suffix of the rest
    that starts at a user (or all of it), tool results keep their calls, the last `keep` users stay,
    and a second compaction changes nothing. -/
theorem compactMessagesToTail_keeps_exchanges (messages : List ChatMessage) (keep : Int)
    (hpaired : Paired messages) :
    (∃ dropped kept, messages = messages.takeWhile isSystem ++ dropped ++ kept ∧
        compactMessagesToTail messages keep = messages.takeWhile isSystem ++ kept ∧
        (dropped = [] ∨ ∃ cut tail, kept = cut :: tail ∧ cut.role = .user)) ∧
      Paired (compactMessagesToTail messages keep) ∧
      (0 < keep → lastUsers messages keep.toNat <:+ (compactMessagesToTail messages keep).filter isUser) ∧
      compactMessagesToTail (compactMessagesToTail messages keep) keep = compactMessagesToTail messages keep := by
  refine ⟨?_, ?_, ?_, compactMessagesToTail_idempotent messages keep⟩
  · rcases compactMessagesToTail_spec messages keep with h | ⟨dropped, cut, tail, hcut, h⟩
    · have hall := (List.takeWhile_append_dropWhile (p := isSystem) (l := messages)).symm
      exact ⟨[], messages.dropWhile isSystem, by rw [List.append_nil]; exact hall, h.trans hall, Or.inl rfl⟩
    · exact ⟨dropped, cut :: tail, hcut.split, h, Or.inr ⟨cut, tail, rfl, hcut.role⟩⟩
  · rcases compactMessagesToTail_spec messages keep with h | ⟨dropped, cut, tail, hcut, h⟩
    · rw [h]
      exact hpaired
    · rw [h]
      exact hcut.paired hpaired
  · intro _
    rcases compactMessagesToTail_spec messages keep with h | ⟨dropped, cut, tail, hcut, h⟩
    · rw [h]
      exact lastUsers_suffix messages keep.toNat
    · simpa only [h, hcut.lastUsers_eq] using List.suffix_refl _

/-- Two exchanges behind two system messages, the newer one with a tool call. -/
def twoExchanges : List ChatMessage :=
  [{ role := .system, content := "rules" }, { role := .system, content := "summary" },
    { role := .user, content := "hello" }, { role := .assistant, content := "hi" },
    { role := .user, content := "weather?" },
    { role := .assistant, content := "", toolCalls := [⟨"t1", "weather", "\x7b\x7d"⟩] },
    { role := .tool, content := "sun", toolCallId := some "t1" }]

theorem compactMessagesToTail_keeps_twoExchanges :
    Paired (compactMessagesToTail twoExchanges 1) ∧
      compactMessagesToTail twoExchanges 1 = twoExchanges.take 2 ++ twoExchanges.drop 4 :=
  ⟨(compactMessagesToTail_keeps_exchanges twoExchanges 1 (by decide)).2.1, by decide⟩

end Clemvion.Conversation
