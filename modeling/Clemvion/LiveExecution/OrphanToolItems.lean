import Clemvion.Js.Text
import Clemvion.Library.AnchoredInsertion

/-!
# OrphanToolItems — rows that a snapshot of the thread leaves out

A thread need not list the turns in which tools ran, so that a snapshot would take rows off the
screen that were drawn before.  The rows that the thread does not know are put back, each in the
turn to which it belongs.
-/

open Clemvion.Js Clemvion.Library

namespace Clemvion.LiveExecution

inductive ItemType
  | user | assistant | tool | presentation | system | systemError | rag
  deriving DecidableEq, Repr

structure ToolCallInfo where
  name : String
  arguments : String
  id : Option String := none
  deriving DecidableEq, Repr

/-- A row of the conversation; `details` is what it shows besides. -/
structure ConversationItem (δ : Type) where
  type : ItemType
  /-- Missing where it is not a string. -/
  content : Option String := none
  turnIndex : Int
  assistantToolCalls : List ToolCallInfo := []
  toolCallId : Option String := none
  details : δ
  deriving DecidableEq, Repr

variable {δ : Type}

/-! ## 1. What the thread knows -/

/-- A string that is neither missing nor empty. -/
def truthyId (id : Option String) : Option String := id.filter (· ≠ "")

structure ThreadKeys where
  knownToolCallIds : List String := []
  turnsWithIntermediateAssistant : List Int := []

def collectKeys (keys : ThreadKeys) (it : ConversationItem δ) : ThreadKeys :=
  match it.type, truthyId it.toolCallId with
  | .tool, some id => { keys with knownToolCallIds := id :: keys.knownToolCallIds }
  | .assistant, _ =>
    if it.assistantToolCalls = [] then keys
    else
      { turnsWithIntermediateAssistant := it.turnIndex :: keys.turnsWithIntermediateAssistant
        knownToolCallIds :=
          it.assistantToolCalls.filterMap (truthyId ·.id) ++ keys.knownToolCallIds }
  | _, _ => keys

def threadKeys (threadItems : List (ConversationItem δ)) : ThreadKeys :=
  threadItems.foldl collectKeys {}

/-- `typeof it.content !== "string" || it.content.trim() === ""` -/
def blank (it : ConversationItem δ) : Bool :=
  match it.content with
  | none => true
  | some content => trim content = ""

/-- The rows of `prev` that are picked. -/
def pickOrphan (keys : ThreadKeys) (it : ConversationItem δ) : Bool :=
  match it.type with
  | .tool =>
    match truthyId it.toolCallId with
    | some id => id ∉ keys.knownToolCallIds
    | none => false
  | .assistant =>
    it.assistantToolCalls ≠ [] && it.turnIndex ∉ keys.turnsWithIntermediateAssistant && blank it
  | _ => false

/-! ## 2. Where a row goes -/

def isFinalAssistant (it : ConversationItem δ) : Bool :=
  it.type = .assistant && it.assistantToolCalls = [] && !blank it

/-- The scan for the first final answer of the turn; it keeps the last place of the turn. -/
def scanTurn (turnIndex : Int) :
    List (ConversationItem δ) → Nat → Option Nat → Option Nat × Option Nat
  | [], _, lastSameTurnIdx => (none, lastSameTurnIdx)
  | it :: rest, i, lastSameTurnIdx =>
    if it.turnIndex ≠ turnIndex then scanTurn turnIndex rest (i + 1) lastSameTurnIdx
    else if isFinalAssistant it then (some i, some i)
    else scanTurn turnIndex rest (i + 1) (some i)

def insertAt (orphan : ConversationItem δ) (result : List (ConversationItem δ)) : Nat :=
  match scanTurn orphan.turnIndex result 0 none with
  | (some i, _) => i
  | (none, some lastSameTurnIdx) => lastSameTurnIdx + 1
  | (none, none) => result.length

def mergeOrphanToolItems (threadItems prev : List (ConversationItem δ)) :
    List (ConversationItem δ) :=
  if prev = [] then threadItems
  else
    let orphans := prev.filter (pickOrphan (threadKeys threadItems))
    if orphans = [] then threadItems
    else orphans.foldl (fun result orphan => result.insertIdx (insertAt orphan result) orphan)
      threadItems

/-! ## 3. Orphans -/

/-- The thread has a tool row or a tool call with the id. -/
def Knows (threadItems : List (ConversationItem δ)) (toolCallId : String) : Prop :=
  ∃ it ∈ threadItems, (it.type = .tool ∧ it.toolCallId = some toolCallId) ∨
    (it.type = .assistant ∧ ∃ call ∈ it.assistantToolCalls, call.id = some toolCallId)

/-- An assistant row that calls tools. -/
def Intermediate (it : ConversationItem δ) : Prop :=
  it.type = .assistant ∧ it.assistantToolCalls ≠ []

/-- A tool row that the thread does not know, or a blank row of tool calls in a turn where the
thread has none. -/
def Orphan (threadItems : List (ConversationItem δ)) (it : ConversationItem δ) : Prop :=
  (it.type = .tool ∧ ∃ id, it.toolCallId = some id ∧ id ≠ "" ∧ ¬ Knows threadItems id) ∨
    (Intermediate it ∧ blank it = true ∧
      ∀ it' ∈ threadItems, Intermediate it' → it'.turnIndex ≠ it.turnIndex)

theorem truthyId_eq_some_iff {id : Option String} {s : String} :
    truthyId id = some s ↔ id = some s ∧ s ≠ "" := by
  unfold truthyId
  rw [Option.filter_eq_some_iff]
  simp

theorem mem_turns_collectKeys {keys : ThreadKeys} {it : ConversationItem δ} {turn : Int} :
    turn ∈ (collectKeys keys it).turnsWithIntermediateAssistant ↔
      (Intermediate it ∧ it.turnIndex = turn) ∨ turn ∈ keys.turnsWithIntermediateAssistant := by
  unfold collectKeys Intermediate
  split
  case h_1 htype _ => simp [htype]
  case h_2 htype =>
    split_ifs with hcalls
    · simp [hcalls]
    · simp [htype, hcalls, eq_comm]
  case h_3 htype _ =>
    have hnot : ¬ it.type = .assistant := htype
    simp [hnot]

theorem mem_ids_collectKeys {keys : ThreadKeys} {it : ConversationItem δ} {id : String}
    (hid : id ≠ "") : id ∈ (collectKeys keys it).knownToolCallIds ↔
      ((it.type = .tool ∧ it.toolCallId = some id) ∨
        (it.type = .assistant ∧ ∃ call ∈ it.assistantToolCalls, call.id = some id)) ∨
      id ∈ keys.knownToolCallIds := by
  -- the branches of the source: a tool row with an id, an assistant row, any other row
  unfold collectKeys
  split
  case h_1 s htype hs =>
    obtain ⟨hcall, -⟩ := truthyId_eq_some_iff.mp hs
    simp [htype, hcall, eq_comm]
  case h_2 htype =>
    split_ifs with hcalls
    · simp [htype, hcalls]
    · simp [htype, truthyId_eq_some_iff, hid]
  case h_3 hassistant htool =>
    have hnot : ¬ (it.type = .tool ∧ it.toolCallId = some id) := by
      rintro ⟨htype, hcall⟩
      exact htool id htype (truthyId_eq_some_iff.mpr ⟨hcall, hid⟩)
    have hnotAssistant : ¬ it.type = .assistant := hassistant
    simp [hnot, hnotAssistant]

theorem threadKeys_spec (threadItems : List (ConversationItem δ)) :
    (∀ turn, turn ∈ (threadKeys threadItems).turnsWithIntermediateAssistant ↔
      ∃ it ∈ threadItems, Intermediate it ∧ it.turnIndex = turn) ∧
    ∀ id, id ≠ "" → (id ∈ (threadKeys threadItems).knownToolCallIds ↔ Knows threadItems id) := by
  -- from any keys, so that the induction goes through the fold
  have hfold : ∀ (items : List (ConversationItem δ)) (keys : ThreadKeys),
      (∀ turn, turn ∈ (items.foldl collectKeys keys).turnsWithIntermediateAssistant ↔
        (∃ it ∈ items, Intermediate it ∧ it.turnIndex = turn) ∨
          turn ∈ keys.turnsWithIntermediateAssistant) ∧
      ∀ id, id ≠ "" → (id ∈ (items.foldl collectKeys keys).knownToolCallIds ↔
        Knows items id ∨ id ∈ keys.knownToolCallIds) := by
    intro items
    induction items with
    | nil => simp [Knows]
    | cons it items ih =>
      intro keys
      obtain ⟨hturns, hids⟩ := ih (collectKeys keys it)
      refine ⟨fun turn => ?_, fun id hid => ?_⟩
      · rw [List.foldl_cons, hturns, mem_turns_collectKeys]
        simp only [List.mem_cons, exists_eq_or_imp]
        exact or_left_comm.trans or_assoc.symm
      · rw [List.foldl_cons, hids id hid, mem_ids_collectKeys hid]
        simp only [Knows, List.mem_cons, exists_eq_or_imp]
        exact or_left_comm.trans or_assoc.symm
  obtain ⟨hturns, hids⟩ := hfold threadItems {}
  refine ⟨fun turn => (hturns turn).trans ?_, fun id hid => (hids id hid).trans ?_⟩
  · simp
  · simp

theorem pickOrphan_iff (threadItems : List (ConversationItem δ)) (it : ConversationItem δ) :
    pickOrphan (threadKeys threadItems) it = true ↔ Orphan threadItems it := by
  obtain ⟨hturns, hids⟩ := threadKeys_spec threadItems
  unfold pickOrphan Orphan Intermediate
  split
  case h_1 htype =>
    split
    case h_1 id hid =>
      obtain ⟨hcall, hne⟩ := truthyId_eq_some_iff.mp hid
      simp [htype, hcall, hne, hids id hne]
    case h_2 hnone =>
      have hno : ∀ id, it.toolCallId = some id → id = "" := by
        intro id hid
        by_contra hne
        rw [truthyId_eq_some_iff.mpr ⟨hid, hne⟩] at hnone
        cases hnone
      simp only [htype, true_and, Bool.false_eq_true, false_iff, reduceCtorEq, false_and, or_false]
      rintro ⟨id, hid, hne, -⟩
      exact hne (hno id hid)
  case h_2 htype =>
    simp only [htype, Bool.and_eq_true, decide_eq_true_eq, hturns, Intermediate]
    simp only [reduceCtorEq, false_and, false_or, true_and, not_exists, not_and]
    tauto
  case h_3 htool hassistant =>
    have hnotTool : ¬ it.type = .tool := htool
    have hnotAssistant : ¬ it.type = .assistant := hassistant
    simp [hnotTool, hnotAssistant]

/-! ## 4. The scan and the insertion -/

/-- A row goes before the first final answer of its turn, or behind the last row of its turn, or at
the end. -/
abbrev insertOrphan (orphan : ConversationItem δ) (rows : List (ConversationItem δ)) :
    List (ConversationItem δ) :=
  insertAnchored ConversationItem.turnIndex isFinalAssistant orphan rows

/-- The places that a scan returns, counted from where it starts. -/
def Places (found : Option Nat × Option Nat) (place : Nat) : Prop :=
  found.1 = some place ∨ (found.1 = none ∧ ∃ last, found.2 = some last ∧ last + 1 = place)

theorem scanTurn_spec (orphan : ConversationItem δ) (rest : List (ConversationItem δ)) (i : Nat)
    (last : Option Nat) :
    (∃ k, Places (scanTurn orphan.turnIndex rest i last) (i + k) ∧
      (∃ it ∈ rest, it.turnIndex = orphan.turnIndex) ∧
      insertOrphan orphan rest = rest.insertIdx k orphan) ∨
    ((∀ it ∈ rest, it.turnIndex ≠ orphan.turnIndex) ∧
      scanTurn orphan.turnIndex rest i last = (none, last)) := by
  -- along the rows; `last` is the last row of the turn that was passed
  induction rest generalizing i last with
  | nil => exact .inr ⟨fun it hit => (nomatch hit), rfl⟩
  | cons it rest ih =>
    rw [scanTurn]
    by_cases hturn : it.turnIndex = orphan.turnIndex
    · rw [if_neg (not_not.mpr hturn)]
      left
      by_cases hfinal : isFinalAssistant it = true
      · rw [if_pos hfinal]
        refine ⟨0, .inl rfl, ⟨it, List.mem_cons_self .., hturn⟩, ?_⟩
        rw [insertOrphan, insertAnchored, if_pos ⟨hturn, hfinal⟩]
        rfl
      · rw [if_neg hfinal]
        -- a later row of the turn moves the place on; without one the place is behind this row
        rcases ih (i + 1) (some i) with ⟨k, hplaces, ⟨z, hz, hzturn⟩, hinsert⟩ | ⟨hnone, hscan⟩
        · refine ⟨k + 1, ?_, ⟨it, List.mem_cons_self .., hturn⟩, ?_⟩
          · rwa [show i + (k + 1) = i + 1 + k by omega]
          · rw [insertOrphan, insertAnchored, if_neg fun h => hfinal h.2,
              if_neg fun h => h.2 z hz hzturn, List.insertIdx_succ_cons, ← hinsert]
        · refine ⟨1, ?_, ⟨it, List.mem_cons_self .., hturn⟩, ?_⟩
          · rw [hscan]
            exact .inr ⟨rfl, i, rfl, rfl⟩
          · rw [insertOrphan, insertAnchored, if_neg fun h => hfinal h.2, if_pos ⟨hturn, hnone⟩]
            rfl
    · rw [if_pos hturn]
      rcases ih (i + 1) last with ⟨k, hplaces, ⟨z, hz, hzturn⟩, hinsert⟩ | ⟨hnone, hscan⟩
      · refine .inl ⟨k + 1, ?_, ⟨z, List.mem_cons_of_mem _ hz, hzturn⟩, ?_⟩
        · rwa [show i + (k + 1) = i + 1 + k by omega]
        · rw [insertOrphan, insertAnchored, if_neg fun h => hturn h.1, if_neg fun h => hturn h.1,
            List.insertIdx_succ_cons, ← hinsert]
      · refine .inr ⟨fun z hz => ?_, hscan⟩
        rcases List.mem_cons.mp hz with rfl | hz
        · exact hturn
        · exact hnone z hz

theorem insertOrphan_of_new {orphan : ConversationItem δ} {rows : List (ConversationItem δ)}
    (h : ∀ it ∈ rows, it.turnIndex ≠ orphan.turnIndex) :
    insertOrphan orphan rows = rows ++ [orphan] := by
  have hpass : insertOrphan orphan (rows ++ []) = rows ++ insertOrphan orphan [] :=
    insertAnchored_append (fun it hit hturn => absurd hturn (h it hit))
      fun ⟨it, hit, hturn⟩ => absurd hturn (h it hit)
  rwa [List.append_nil] at hpass

theorem insertIdx_insertAt (orphan : ConversationItem δ) (rows : List (ConversationItem δ)) :
    rows.insertIdx (insertAt orphan rows) orphan = insertOrphan orphan rows := by
  rcases scanTurn_spec orphan rows 0 none with ⟨k, hplaces, -, hinsert⟩ | ⟨hnone, hscan⟩
  · have hat : insertAt orphan rows = k := by
      unfold insertAt
      rw [Nat.zero_add] at hplaces
      rcases hfound : scanTurn orphan.turnIndex rows 0 none with ⟨final, last⟩
      rw [hfound] at hplaces
      rcases hplaces with hfinal | ⟨hno, last', hlast, hplace⟩
      · obtain rfl : final = some k := hfinal
        rfl
      · obtain rfl : final = none := hno
        obtain rfl : last = some last' := hlast
        exact hplace
    rw [hat, hinsert]
  · have hat : insertAt orphan rows = rows.length := by
      unfold insertAt
      rw [hscan]
    rw [hat, List.insertIdx_length_self, insertOrphan_of_new hnone]

/-! ## 5. The merged rows -/

section Merge

variable (threadItems prev : List (ConversationItem δ))

/-- The rows of `prev` that are put back. -/
def orphans : List (ConversationItem δ) := prev.filter (pickOrphan (threadKeys threadItems))

theorem mergeOrphanToolItems_eq : mergeOrphanToolItems threadItems prev =
    insertAllAnchored ConversationItem.turnIndex isFinalAssistant (orphans threadItems prev)
      threadItems := by
  have hfold : mergeOrphanToolItems threadItems prev = (orphans threadItems prev).foldl
      (fun result orphan => result.insertIdx (insertAt orphan result) orphan) threadItems := by
    unfold mergeOrphanToolItems
    dsimp only
    split_ifs with hprev horphans
    · rw [hprev]
      rfl
    · rw [orphans, horphans]
      rfl
    · rfl
  rw [hfold]
  simp only [insertIdx_insertAt]
  rfl

variable {threadItems prev}

/-- No orphan is a final answer. -/
theorem isFinalAssistant_of_orphan {it : ConversationItem δ} (h : Orphan threadItems it) :
    isFinalAssistant it = false := by
  unfold isFinalAssistant
  rcases h with ⟨htype, -⟩ | ⟨⟨-, hcalls⟩, -⟩
  · simp [htype]
  · simp [hcalls]

/-- No row of the thread is one of its orphans. -/
theorem not_orphan_of_mem {it : ConversationItem δ} (h : it ∈ threadItems) :
    ¬ Orphan threadItems it := by
  rintro (⟨htype, id, hid, -, hunknown⟩ | ⟨hcalls, -, hturns⟩)
  · exact hunknown ⟨it, h, .inl ⟨htype, hid⟩⟩
  · exact hturns it h hcalls rfl

variable (threadItems prev)

instance : DecidablePred (Orphan threadItems) := fun it =>
  decidable_of_iff _ (pickOrphan_iff threadItems it)

/-- What a snapshot is merged to. -/
structure Merged (merged : List (ConversationItem δ)) : Prop where
  /-- The rows of the thread stand in their order, -/
  thread : (merged.filter fun it => ¬ Orphan threadItems it) = threadItems
  /-- and besides them every orphan, as often as it was there before. -/
  orphans : (merged.filter fun it => Orphan threadItems it).Perm
    (prev.filter fun it => Orphan threadItems it)
  /-- Within a turn the orphans keep their order. -/
  order : ∀ turn, ((merged.filter fun it => Orphan threadItems it).filter (·.turnIndex = turn)) =
    (prev.filter fun it => Orphan threadItems it).filter (·.turnIndex = turn)
  /-- Where the turn has a final answer in the thread, the orphan has in front of it just the rows
  of the turn that precede the first such answer. -/
  place : ∀ before orphan after, merged = before ++ orphan :: after → Orphan threadItems orphan →
    ∀ earlier answer later, threadItems = earlier ++ answer :: later →
      answer.turnIndex = orphan.turnIndex → isFinalAssistant answer = true →
      (∀ it ∈ earlier, it.turnIndex = orphan.turnIndex → isFinalAssistant it = false) →
      ((before.filter fun it => ¬ Orphan threadItems it).filter (·.turnIndex = orphan.turnIndex)) =
        earlier.filter (·.turnIndex = orphan.turnIndex)

theorem orphans_eq :
    orphans threadItems prev = prev.filter fun it => Orphan threadItems it := by
  refine List.filter_congr fun it _ => ?_
  rw [Bool.eq_iff_iff, pickOrphan_iff, decide_eq_true_eq]

variable {threadItems prev} in
theorem orphan_of_mem_orphans {it : ConversationItem δ} (h : it ∈ orphans threadItems prev) :
    Orphan threadItems it :=
  (pickOrphan_iff threadItems it).mp (List.of_mem_filter h)

/-- The rows of one turn. -/
theorem group_mergeOrphanToolItems (turn : Int) :
    group ConversationItem.turnIndex turn (mergeOrphanToolItems threadItems prev) =
      beforeAnchor ConversationItem.turnIndex isFinalAssistant turn threadItems ++
        (group ConversationItem.turnIndex turn (orphans threadItems prev) ++
          fromAnchor ConversationItem.turnIndex isFinalAssistant turn threadItems) := by
  rw [mergeOrphanToolItems_eq, group_insertAllAnchored, List.append_assoc]
  exact fun it hit => isFinalAssistant_of_orphan (orphan_of_mem_orphans hit)

variable {threadItems prev}

theorem group_split {turn : Int} {earlier later : List (ConversationItem δ)}
    {answer : ConversationItem δ} (hthread : threadItems = earlier ++ answer :: later)
    (hturn : answer.turnIndex = turn) (hfinal : isFinalAssistant answer = true)
    (hfirst : ∀ it ∈ earlier, it.turnIndex = turn → isFinalAssistant it = false) :
    beforeAnchor ConversationItem.turnIndex isFinalAssistant turn threadItems =
      earlier.filter (·.turnIndex = turn) := by
  have hgroup : group ConversationItem.turnIndex turn threadItems =
      earlier.filter (·.turnIndex = turn) ++
        answer :: group ConversationItem.turnIndex turn later := by
    rw [hthread, group, List.filter_append, ← group_cons_self hturn]
    rfl
  have hpass : ∀ it ∈ earlier.filter (·.turnIndex = turn), (!isFinalAssistant it) = true := by
    intro it hit
    obtain ⟨hmem, hit⟩ := List.mem_filter.mp hit
    rw [hfirst it hmem (by simpa using hit)]
    rfl
  rw [beforeAnchor, hgroup, List.takeWhile_append_of_pos hpass,
    List.takeWhile_cons_of_neg (by simp [hfinal]), List.append_nil]

theorem mergeOrphanToolItems_place {before after : List (ConversationItem δ)}
    {orphan : ConversationItem δ}
    (hmerged : mergeOrphanToolItems threadItems prev = before ++ orphan :: after)
    (horphan : Orphan threadItems orphan) {earlier later : List (ConversationItem δ)}
    {answer : ConversationItem δ} (hthread : threadItems = earlier ++ answer :: later)
    (hturn : answer.turnIndex = orphan.turnIndex) (hfinal : isFinalAssistant answer = true)
    (hfirst : ∀ it ∈ earlier, it.turnIndex = orphan.turnIndex → isFinalAssistant it = false) :
    ((before.filter fun it => ¬ Orphan threadItems it).filter (·.turnIndex = orphan.turnIndex)) =
      earlier.filter (·.turnIndex = orphan.turnIndex) := by
  have hgroup := group_mergeOrphanToolItems threadItems prev orphan.turnIndex
  have hsplit : group ConversationItem.turnIndex orphan.turnIndex
      (mergeOrphanToolItems threadItems prev) =
      before.filter (·.turnIndex = orphan.turnIndex) ++
        orphan :: group ConversationItem.turnIndex orphan.turnIndex after := by
    rw [hmerged, group, List.filter_append, ← group_cons_self rfl]
    rfl
  have hthreadRow : ∀ it ∈ group ConversationItem.turnIndex orphan.turnIndex threadItems,
      decide (Orphan threadItems it) = false := fun it hit =>
    decide_eq_false (not_orphan_of_mem (List.mem_of_mem_filter hit))
  -- in the rows of the turn: thread rows, orphans, thread rows from the answer on
  have hfront := filter_front (p := fun it => decide (Orphan threadItems it))
    (hsplit.symm.trans hgroup) (decide_eq_true horphan)
    (fun it hit => hthreadRow it ((List.takeWhile_sublist _).subset hit))
    (fun it hit => decide_eq_true (orphan_of_mem_orphans (List.mem_of_mem_filter hit)))
    (fun it hit => hthreadRow it ((List.dropWhile_sublist _).subset hit))
  rw [← group_split hthread hturn hfinal hfirst, ← hfront, List.filter_filter, List.filter_filter]
  refine List.filter_congr fun it _ => ?_
  rw [Bool.and_comm, decide_not]

theorem merged_mergeOrphanToolItems (threadItems prev : List (ConversationItem δ)) :
    Merged threadItems prev (mergeOrphanToolItems threadItems prev) := by
  have hperm := insertAllAnchored_perm ConversationItem.turnIndex isFinalAssistant
    (orphans threadItems prev) threadItems
  rw [← mergeOrphanToolItems_eq] at hperm
  have hnone : (threadItems.filter fun it => Orphan threadItems it) = [] :=
    List.filter_eq_nil_iff.mpr fun it hit => by simpa using not_orphan_of_mem hit
  have hall : ((orphans threadItems prev).filter fun it => Orphan threadItems it) =
      orphans threadItems prev :=
    List.filter_eq_self.mpr fun it hit => decide_eq_true (orphan_of_mem_orphans hit)
  -- the thread, the orphans, their order in a turn and their places
  refine ⟨?_, ?_, fun turn => ?_, ?_⟩
  · rw [mergeOrphanToolItems_eq, filter_insertAllAnchored_of_not]
    · exact List.filter_eq_self.mpr fun it hit => decide_eq_true (not_orphan_of_mem hit)
    · exact fun it hit => decide_eq_false (not_not.mpr (orphan_of_mem_orphans hit))
  · have hkept := hperm.filter fun it => decide (Orphan threadItems it)
    rwa [List.filter_append, hall, hnone, List.append_nil, orphans_eq] at hkept
  · have hgroup := congrArg (List.filter fun it => decide (Orphan threadItems it))
      (group_mergeOrphanToolItems threadItems prev turn)
    have hthreadRow : ∀ it ∈ group ConversationItem.turnIndex turn threadItems,
        ¬ decide (Orphan threadItems it) = true := fun it hit => by
      simpa using not_orphan_of_mem (List.mem_of_mem_filter hit)
    have hbefore : (beforeAnchor ConversationItem.turnIndex isFinalAssistant turn threadItems).filter
        (fun it => Orphan threadItems it) = [] := List.filter_eq_nil_iff.mpr fun it hit =>
      hthreadRow it ((List.takeWhile_sublist _).subset hit)
    have hfrom : (fromAnchor ConversationItem.turnIndex isFinalAssistant turn threadItems).filter
        (fun it => Orphan threadItems it) = [] := List.filter_eq_nil_iff.mpr fun it hit =>
      hthreadRow it ((List.dropWhile_sublist _).subset hit)
    have hmiddle : (group ConversationItem.turnIndex turn (orphans threadItems prev)).filter
        (fun it => Orphan threadItems it) =
        group ConversationItem.turnIndex turn (orphans threadItems prev) :=
      List.filter_eq_self.mpr fun it hit =>
        decide_eq_true (orphan_of_mem_orphans (List.mem_of_mem_filter hit))
    rw [List.filter_append, List.filter_append, hbefore, hfrom, hmiddle, List.nil_append,
      List.append_nil, orphans_eq] at hgroup
    refine Eq.trans ?_ hgroup
    rw [group, List.filter_filter, List.filter_filter]
    refine List.filter_congr fun it _ => ?_
    rw [Bool.and_comm]
  · exact fun before orphan after hmerged horphan earlier answer later hthread hturn hanswer hfirst =>
      mergeOrphanToolItems_place hmerged horphan hthread hturn hanswer hfirst

end Merge

section Examples

/-- A question and its answer, and the same rows with a tool call in between. -/
def question : ConversationItem Unit := { type := .user, content := some "q", turnIndex := 1, details := () }

def answer : ConversationItem Unit :=
  { type := .assistant, content := some "a", turnIndex := 1, details := () }

def lookup : ConversationItem Unit :=
  { type := .tool, turnIndex := 1, toolCallId := some "c1", details := () }

example : mergeOrphanToolItems [question, answer] [question, lookup, answer] =
    [question, lookup, answer] := by decide

end Examples

end Clemvion.LiveExecution
