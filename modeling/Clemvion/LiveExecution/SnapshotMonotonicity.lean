import Mathlib.Data.List.Nodup
import Clemvion.Library.LastWrite
import Clemvion.LiveExecution.ApplyExecutionSnapshot

/-!
# SnapshotMonotonicity — when the live view never goes back

The statuses of the rows form a table that a snapshot overwrites without a look at what is there;
the statuses of the nodes are only ever raised; the status of the execution is set from the
snapshot alone.  So an old snapshot can reopen a row and the execution, and a cancelled row is shown
as pending.
-/

open Clemvion.Js Clemvion.Library

namespace Clemvion.LiveExecution

/-! ## 1. Terminal statuses -/

def NodeExecutionStatus.isTerminal (status : NodeExecutionStatus) : Bool :=
  status = .completed || status = .failed || status = .skipped

/-- Pending, running or waiting. -/
def NodeExecutionStatus.isLive (status : NodeExecutionStatus) : Bool :=
  status = .pending || status = .running || status = .waitingForInput

/-- The terminal statuses of the server; `cancelled` is one. -/
def ServerNodeStatus.isTerminal (status : ServerNodeStatus) : Bool :=
  status = .completed || status = .failed || status = .skipped || status = .cancelled

theorem NodeExecutionStatus.not_isLive {status : NodeExecutionStatus} (h : status.isTerminal = true) :
    status.isLive = false := by
  revert h
  cases status <;> decide

/-- No row is ever shown as cancelled, so one that is not live is terminal. -/
theorem isTerminal_incomingStatus (ne : NodeExecutionData) :
    (incomingStatus ne).isTerminal = !(incomingStatus ne).isLive := by
  unfold incomingStatus
  split
  · rfl
  · cases ne.status <;> rfl

/-- `mapNodeStatus` has no case for a cancelled row. -/
theorem incomingStatus_of_cancelled {ne : NodeExecutionData} (h : ne.status = .cancelled) :
    incomingStatus ne = .pending := by
  unfold incomingStatus isNodeWaitingForInput
  rw [h]
  rfl

/-- A terminal row of the server is shown as terminal, unless it was cancelled. -/
theorem isTerminal_incomingStatus_of_server {ne : NodeExecutionData}
    (h : ne.status.isTerminal = true) :
    (incomingStatus ne).isTerminal = decide (ne.status ≠ .cancelled) := by
  unfold incomingStatus isNodeWaitingForInput
  revert h
  cases ne.status <;> simp [ServerNodeStatus.isTerminal, mapNodeStatus, NodeExecutionStatus.isTerminal]

theorem statusPriority_eq_three {status : NodeExecutionStatus} :
    statusPriority status = 3 ↔ status.isTerminal = true := by
  cases status <;> decide

theorem statusPriority_le (status : NodeExecutionStatus) : statusPriority status ≤ 3 := by
  cases status <;> decide

section Rows

variable {μ : Type} {deps : SnapshotDeps μ} {state : ExecutionState μ}

/-! ## 2. The table of the rows -/

/-- The status of the row of a node execution. -/
def rowStatuses (state : ExecutionState μ) (nodeExecutionId : String) : Option NodeExecutionStatus :=
  (findNodeResult nodeExecutionId state).map (·.status)

/-- A result with an id updates the row that has it, or is appended. -/
theorem addNodeResult_cases {result : NodeResult} {id : String}
    (hid : result.nodeExecutionId = some id) (hne : id ≠ "") :
    (∃ index prev, state.nodeResults[index]? = some prev ∧ prev.nodeExecutionId = some id ∧
        addNodeResult result state = updateResult index prev result state) ∨
      addNodeResult result state = appendResult result state := by
  have hgiven : given result.nodeExecutionId = some id := by simp [given, hid, hne]
  unfold addNodeResult targetIndex validIndex
  simp only [hgiven]
  cases hindex : state.nodeResultIndexByExecId id with
  | none => exact .inr rfl
  | some index =>
    rw [Option.filter_some]
    cases hprev : state.nodeResults[index]? with
    | none => exact .inr rfl
    | some prev =>
      by_cases hvalid : prev.nodeExecutionId = some id
      · exact .inl ⟨index, prev, hprev, hvalid, by simp [hprev, hvalid]⟩
      · exact .inr (by simp [hvalid])

/-- **Adding a result** is a write to the table. -/
theorem rowStatuses_addNodeResult {result : NodeResult} {id : String}
    (hid : result.nodeExecutionId = some id) (hne : id ≠ "") :
    rowStatuses (addNodeResult result state) = write (rowStatuses state) (id, result.status) := by
  have hgiven : given (some id) = some id := by simp [given, hne]
  funext id'
  rcases @addNodeResult_cases _ state _ _ hid hne with ⟨index, prev, hprev, hprevId, hadd⟩ | hadd
  · have hlt : index < state.nodeResults.length := (List.getElem?_eq_some_iff.mp hprev).1
    have hmerged : (mergedResult prev result).nodeExecutionId = some id := by
      simp [mergedResult, hid]
    rw [hadd]
    unfold rowStatuses findNodeResult updateResult
    simp only [hmerged, hgiven]
    by_cases heq : id' = id
    · subst heq
      rw [write_same, Function.update_self, Option.bind_some, List.getElem?_set_self hlt,
        Option.filter_some, hmerged]
      simp [mergedResult]
    · rw [write_of_ne heq, Function.update_of_ne heq]
      cases state.nodeResultIndexByExecId id' with
      | none => rfl
      | some index' =>
        -- at the index of the update there is no row of the other id, before or after
        by_cases hindex : index' = index
        · subst hindex
          rw [Option.bind_some, Option.bind_some, List.getElem?_set_self hlt, hprev,
            Option.filter_some, Option.filter_some, hmerged, hprevId]
          simp [Ne.symm heq]
        · simp [List.getElem?_set_ne (Ne.symm hindex)]
  · rw [hadd]
    unfold rowStatuses findNodeResult appendResult
    simp only [hid, hgiven]
    by_cases heq : id' = id
    · subst heq
      rw [write_same, Function.update_self, Option.bind_some, List.getElem?_concat_length,
        Option.filter_some, hid]
      simp
    · rw [write_of_ne heq, Function.update_of_ne heq]
      cases state.nodeResultIndexByExecId id' with
      | none => rfl
      | some index' =>
        by_cases hlt : index' < state.nodeResults.length
        · simp [List.getElem?_append_left hlt]
        · by_cases hend : index' = state.nodeResults.length
          · subst hend
            rw [Option.bind_some, Option.bind_some, List.getElem?_concat_length,
              List.getElem?_eq_none (Nat.le_refl _), Option.filter_some, hid]
            simp [Ne.symm heq]
          · rw [Option.bind_some, Option.bind_some, List.getElem?_eq_none (by simp; omega),
              List.getElem?_eq_none (by omega)]

/-! ## 3. The loop over the rows -/

/-- A result changes the rows and their maps only. -/
theorem addNodeResult_frame (result : NodeResult) (state : ExecutionState μ) :
    ∃ rows byExecId last first, addNodeResult result state =
      { state with
        nodeResults := rows
        nodeResultIndexByExecId := byExecId
        lastIndexByNodeId := last
        firstNoExecIdIndexByNodeId := first } := by
  have happend : ∃ rows byExecId last first, appendResult result state =
      { state with
        nodeResults := rows
        nodeResultIndexByExecId := byExecId
        lastIndexByNodeId := last
        firstNoExecIdIndexByNodeId := first } := by
    unfold appendResult
    simp only
    split
    · exact ⟨_, _, _, _, rfl⟩
    · split
      · exact ⟨_, _, _, _, rfl⟩
      · exact ⟨_, _, _, _, rfl⟩
  unfold addNodeResult
  split
  · exact happend
  · split
    · exact happend
    · unfold updateResult
      simp only
      split
      · exact ⟨_, _, _, _, rfl⟩
      · exact ⟨_, _, _, _, rfl⟩

theorem applyNodeStatus_frame (ne : NodeExecutionData) (state : ExecutionState μ) :
    ∃ nodeStatuses, applyNodeStatus ne state = { state with nodeStatuses } := by
  unfold applyNodeStatus updateNodeStatus
  split
  · exact ⟨_, rfl⟩
  · exact ⟨state.nodeStatuses, rfl⟩

def nodeStatusOf (state : ExecutionState μ) (nodeId : String) : Option NodeExecutionStatus :=
  (state.nodeStatuses nodeId).map (·.status)

/-- The status of a node is raised, never lowered. -/
theorem nodeStatusOf_applyNodeStatus (ne : NodeExecutionData) (state : ExecutionState μ)
    (nodeId : String) :
    nodeStatusOf (applyNodeStatus ne state) nodeId =
      if nodeId = ne.nodeId ∧ shouldUpdateStatus (nodeStatusOf state nodeId) (incomingStatus ne) then
        some (incomingStatus ne)
      else nodeStatusOf state nodeId := by
  unfold applyNodeStatus
  by_cases hupdate :
      shouldUpdateStatus ((state.nodeStatuses ne.nodeId).map (·.status)) (incomingStatus ne) = true
  · rw [if_pos hupdate]
    by_cases hnode : nodeId = ne.nodeId
    · subst hnode
      rw [if_pos ⟨rfl, hupdate⟩]
      simp [nodeStatusOf, updateNodeStatus]
    · rw [if_neg fun h => hnode h.1]
      simp [nodeStatusOf, updateNodeStatus, hnode]
  · rw [if_neg hupdate, if_neg]
    rintro ⟨rfl, h⟩
    exact hupdate h

theorem status_applyRow (state : ExecutionState μ) (ne : NodeExecutionData) :
    (applyRow deps state ne).status = state.status ∧
      (applyRow deps state ne).waitingNodeId = state.waitingNodeId := by
  unfold applyRow
  obtain ⟨_, _, _, _, hadd⟩ := addNodeResult_frame (resultOf deps ne) (applyNodeStatus ne state)
  obtain ⟨_, hnode⟩ := applyNodeStatus_frame ne state
  rw [hadd, hnode]
  exact ⟨rfl, rfl⟩

theorem nodeStatusOf_applyRow (state : ExecutionState μ) (ne : NodeExecutionData) :
    nodeStatusOf (applyRow deps state ne) = nodeStatusOf (applyNodeStatus ne state) := by
  unfold applyRow
  obtain ⟨_, _, _, _, hadd⟩ := addNodeResult_frame (resultOf deps ne) (applyNodeStatus ne state)
  rw [hadd]
  rfl

theorem rowStatuses_applyRow {ne : NodeExecutionData} (hne : ne.id ≠ "") :
    rowStatuses (applyRow deps state ne) = write (rowStatuses state) (ne.id, incomingStatus ne) := by
  unfold applyRow
  rw [@rowStatuses_addNodeResult _ _ _ ne.id rfl hne]
  obtain ⟨_, hnode⟩ := applyNodeStatus_frame ne state
  rw [hnode]
  rfl

/-- A terminal node stays terminal, and a terminal row makes its node terminal. -/
theorem isTerminal_nodeStatusOf_applyRow {ne : NodeExecutionData} {nodeId : String}
    (h : (∃ status, nodeStatusOf state nodeId = some status ∧ status.isTerminal = true) ∨
      nodeId = ne.nodeId ∧ (incomingStatus ne).isTerminal = true) :
    ∃ status, nodeStatusOf (applyRow deps state ne) nodeId = some status ∧
      status.isTerminal = true := by
  rw [nodeStatusOf_applyRow, nodeStatusOf_applyNodeStatus]
  split
  · rename_i hupdate
    refine ⟨_, rfl, ?_⟩
    rcases h with ⟨status, hstatus, hterminal⟩ | ⟨-, hincoming⟩
    · -- only a status of the highest priority replaces a terminal one
      have hle := hupdate.2
      rw [hstatus] at hle
      have hpriority : statusPriority status ≤ statusPriority (incomingStatus ne) := by
        simpa [shouldUpdateStatus] using hle
      have hmax := statusPriority_le (incomingStatus ne)
      rw [statusPriority_eq_three.mpr hterminal] at hpriority
      exact statusPriority_eq_three.mp (by omega)
    · exact hincoming
  · rename_i hkeeps
    rcases h with hstatus | ⟨rfl, hincoming⟩
    · exact hstatus
    · -- what is there has at least the priority of the terminal row
      cases hcurrent : nodeStatusOf state ne.nodeId with
      | none => exact absurd ⟨rfl, by simp [hcurrent, shouldUpdateStatus]⟩ hkeeps
      | some status =>
        exfalso
        apply hkeeps
        refine ⟨rfl, ?_⟩
        rw [hcurrent]
        have hmax := statusPriority_le status
        have hthree := statusPriority_eq_three.mpr hincoming
        simp only [shouldUpdateStatus, Option.all_some, decide_eq_true_eq]
        omega

/-- What the loop keeps and what it writes. -/
theorem foldl_applyRow (rows : List NodeExecutionData) (state : ExecutionState μ)
    (hids : ∀ ne ∈ rows, ne.id ≠ "") :
    (rows.foldl (applyRow deps) state).status = state.status ∧
      (rows.foldl (applyRow deps) state).waitingNodeId = state.waitingNodeId ∧
      rowStatuses (rows.foldl (applyRow deps) state) =
        writeAll (rowStatuses state) (rows.map fun ne => (ne.id, incomingStatus ne)) ∧
      ∀ nodeId, ((∃ status, nodeStatusOf state nodeId = some status ∧ status.isTerminal = true) ∨
          ∃ ne ∈ rows, nodeId = ne.nodeId ∧ (incomingStatus ne).isTerminal = true) →
        ∃ status, nodeStatusOf (rows.foldl (applyRow deps) state) nodeId = some status ∧
          status.isTerminal = true := by
  induction rows generalizing state with
  | nil =>
    refine ⟨rfl, rfl, rfl, ?_⟩
    rintro nodeId (h | ⟨ne, hne, -⟩)
    · exact h
    · exact absurd hne List.not_mem_nil
  | cons ne rows ih =>
    have hrow := @status_applyRow _ deps state ne
    obtain ⟨hstatus, hwaiting, hrows, hnodes⟩ :=
      ih (applyRow deps state ne) fun ne' hne' => hids ne' (List.mem_cons_of_mem _ hne')
    rw [List.foldl_cons, List.map_cons, writeAll_cons]
    refine ⟨hstatus.trans hrow.1, hwaiting.trans hrow.2, ?_, ?_⟩
    · rw [hrows, rowStatuses_applyRow (hids ne List.mem_cons_self)]
    · rintro nodeId (hbefore | ⟨ne', hne', hnode, hterminal⟩)
      · exact hnodes nodeId (.inl (isTerminal_nodeStatusOf_applyRow (.inl hbefore)))
      · rcases List.mem_cons.mp hne' with rfl | hne'
        · exact hnodes nodeId (.inl (isTerminal_nodeStatusOf_applyRow (.inr ⟨hnode, hterminal⟩)))
        · exact hnodes nodeId (.inr ⟨ne', hne', hnode, hterminal⟩)

/-- **The rows of a snapshot.**  Every row of the store that the snapshot has gets its status. -/
theorem rowStatuses_applyRows (execution : ExecutionData) (state : ExecutionState μ) :
    (∀ ne ∈ execution.rows,
        rowStatuses (applyRows deps execution state) ne.id = some (incomingStatus ne)) ∧
      ∀ id, (∀ ne ∈ execution.rows, ne.id ≠ id) →
        rowStatuses (applyRows deps execution state) id = rowStatuses state id := by
  have hperm : (sortedByStart execution.rows).Perm execution.rows := List.mergeSort_perm _ _
  have hwrites := (@foldl_applyRow _ deps (sortedByStart execution.rows) state
    fun ne hne => ExecutionData.id_ne_empty (hperm.mem_iff.mp hne)).2.2.1
  -- the ids are distinct, so every write is read back
  have hagree := (@forall_writeAll_eq_iff _ _ _ (rowStatuses state)
      ((sortedByStart execution.rows).map fun ne => (ne.id, incomingStatus ne))).mpr ?_
  · refine ⟨fun ne hne => ?_, fun id hid => ?_⟩
    · unfold applyRows
      rw [hwrites]
      exact hagree _ (List.mem_map.mpr ⟨ne, hperm.mem_iff.mpr hne, rfl⟩)
    · unfold applyRows
      rw [hwrites]
      apply writeAll_of_forall_ne
      intro w hw
      obtain ⟨ne, hne, rfl⟩ := List.mem_map.mp hw
      exact (hid ne (hperm.mem_iff.mp hne)).symm
  · intro w hw w' hw' hkey
    obtain ⟨ne, hne, rfl⟩ := List.mem_map.mp hw
    obtain ⟨ne', hne', rfl⟩ := List.mem_map.mp hw'
    have hsame : ne = ne' := List.inj_on_of_nodup_map execution.nodup_ids (hperm.mem_iff.mp hne)
      (hperm.mem_iff.mp hne') hkey
    rw [hsame]

end Rows

/-! ## 4. The status of the execution -/

section Status

variable {μ : Type} {deps : SnapshotDeps μ} {state : ExecutionState μ}

/-- The rows and the nodes are as they were. -/
structure SameRows (state state' : ExecutionState μ) : Prop where
  results : state'.nodeResults = state.nodeResults
  byExecId : state'.nodeResultIndexByExecId = state.nodeResultIndexByExecId
  statuses : state'.nodeStatuses = state.nodeStatuses

theorem SameRows.refl (state : ExecutionState μ) : SameRows state state := ⟨rfl, rfl, rfl⟩

/-- Messages change neither the rows nor the status. -/
theorem seedConversationMessages_frame (raw : Value) (state : ExecutionState μ) :
    SameRows state (seedConversationMessages deps raw state) ∧
      (seedConversationMessages deps raw state).status = state.status := by
  unfold seedConversationMessages
  split
  · split
    · exact ⟨SameRows.refl state, rfl⟩
    · exact ⟨⟨rfl, rfl, rfl⟩, rfl⟩
  · exact ⟨SameRows.refl state, rfl⟩

/-- The interaction types that the client knows. -/
def knownInteraction (interactionType : Value) : Bool :=
  interactionType = .str "ai_conversation" || interactionType = .str "ai_form_render" ||
    interactionType = .str "buttons" || interactionType = .str "form"

theorem pauseForAi_frame (ne : NodeExecutionData) (state : ExecutionState μ) :
    SameRows state (pauseForAi deps ne state) ∧
      (pauseForAi deps ne state).status = .waitingForInput := by
  unfold pauseForAi
  simp only
  split
  · obtain ⟨hrows, hstatus⟩ := @seedConversationMessages_frame _ deps ne.outputData
      { pauseForConversation ne.nodeId (convConfigOf ne) state with
        waitingInteractionType := some .aiFormRender }
    exact ⟨⟨hrows.results, hrows.byExecId, hrows.statuses⟩, hstatus⟩
  · obtain ⟨hrows, hstatus⟩ := @seedConversationMessages_frame _ deps ne.outputData
      (pauseForConversation ne.nodeId (convConfigOf ne) state)
    exact ⟨⟨hrows.results, hrows.byExecId, hrows.statuses⟩, hstatus⟩

theorem pauseForInteraction_frame (ne : NodeExecutionData) (state : ExecutionState μ) :
    SameRows state (pauseForInteraction deps ne state) ∧
      (pauseForInteraction deps ne state).status =
        if knownInteraction (interactionTypeOf ne) then .waitingForInput else state.status := by
  unfold pauseForInteraction knownInteraction
  simp only
  by_cases hconversation : (decide (interactionTypeOf ne = .str "ai_conversation") ||
      decide (interactionTypeOf ne = .str "ai_form_render")) = true
  · rw [if_pos hconversation, hconversation]
    exact pauseForAi_frame ne state
  · rw [if_neg hconversation, Bool.eq_false_iff.mpr hconversation]
    by_cases hbuttons : interactionTypeOf ne = .str "buttons"
    · rw [if_pos hbuttons, decide_eq_true hbuttons]
      exact ⟨⟨rfl, rfl, rfl⟩, rfl⟩
    · rw [if_neg hbuttons, decide_eq_false hbuttons]
      by_cases hform : interactionTypeOf ne = .str "form"
      · rw [if_pos hform, decide_eq_true hform]
        exact ⟨⟨rfl, rfl, rfl⟩, rfl⟩
      · rw [if_neg hform, decide_eq_false hform]
        exact ⟨SameRows.refl state, rfl⟩

/-- The snapshot pauses a store that is not waiting. -/
def Pauses (state : ExecutionState μ) (execution : ExecutionData) : Prop :=
  isTerminalServerExecutionStatus execution.status = false ∧
    ∃ waitingNode, execution.rows.find? isNodeWaitingForInput = some waitingNode ∧
      given state.waitingNodeId ≠ some waitingNode.nodeId ∧
      waitingNode.outputData.truthy = true ∧
      knownInteraction (interactionTypeOf waitingNode) = true

theorem hydrateWaiting_frame (execution : ExecutionData) (state : ExecutionState μ)
    (hlive : isTerminalServerExecutionStatus execution.status = false) :
    SameRows state (hydrateWaiting deps execution state) ∧
      (Pauses state execution → (hydrateWaiting deps execution state).status = .waitingForInput) ∧
      (¬ Pauses state execution → (hydrateWaiting deps execution state).status = state.status) := by
  unfold hydrateWaiting Pauses
  cases hfind : execution.rows.find? isNodeWaitingForInput with
  | none => exact ⟨SameRows.refl state, by simp, by simp⟩
  | some waitingNode =>
    simp only
    by_cases hsame : given state.waitingNodeId = some waitingNode.nodeId
    · rw [if_pos hsame]
      unfold maybeSeedAiConversationMessages
      split
      · obtain ⟨hrows, hstatus⟩ :=
          @seedConversationMessages_frame _ deps waitingNode.outputData state
        exact ⟨hrows, by simp [hsame], fun _ => hstatus⟩
      · exact ⟨SameRows.refl state, by simp [hsame], fun _ => rfl⟩
    · rw [if_neg hsame]
      by_cases htruthy : waitingNode.outputData.truthy = true
      · rw [if_pos htruthy]
        obtain ⟨hrows, hstatus⟩ := @pauseForInteraction_frame _ deps waitingNode state
        rw [hstatus]
        exact ⟨hrows, by simp_all, by simp_all⟩
      · rw [if_neg htruthy]
        exact ⟨SameRows.refl state, by simp [htruthy], fun _ => rfl⟩

/-- The table of the rows, and the statuses of the nodes up to a failure of the execution. -/
structure SameStatuses (state state' : ExecutionState μ) : Prop where
  rows : rowStatuses state' = rowStatuses state
  nodes : ∀ nodeId, nodeStatusOf state' nodeId = nodeStatusOf state nodeId ∨
    nodeStatusOf state' nodeId = some .failed

theorem SameRows.sameStatuses {state' : ExecutionState μ} (h : SameRows state state') :
    SameStatuses state state' := by
  refine ⟨?_, fun nodeId => .inl ?_⟩
  · funext id
    unfold rowStatuses findNodeResult
    rw [h.results, h.byExecId]
  · unfold nodeStatusOf
    rw [h.statuses]

theorem failExecution_frame (error : Option String) (state : ExecutionState μ) :
    SameStatuses state (failExecution error state) ∧
      (failExecution error state).status = .failed := by
  unfold failExecution
  simp only
  split
  · refine ⟨⟨rfl, fun nodeId => ?_⟩, rfl⟩
    by_cases hkey : nodeId = executionKey
    · right
      simp [nodeStatusOf, updateNodeStatus, hkey]
    · left
      simp [nodeStatusOf, updateNodeStatus, hkey, clearInputAffordance]
  · exact ⟨SameRows.sameStatuses ⟨rfl, rfl, rfl⟩, rfl⟩

/-- What the status of the execution does to a store, and to one that has finished. -/
theorem applyExecutionStatus_frame (now : String) (execution : ExecutionData)
    (state : ExecutionState μ) :
    SameStatuses state (applyExecutionStatus deps now execution state) ∧
      (storeExecutionFinished state = true → Pauses state execution →
        (applyExecutionStatus deps now execution state).status = .waitingForInput) ∧
      (storeExecutionFinished state = true → ¬ Pauses state execution →
        storeExecutionFinished (applyExecutionStatus deps now execution state) = true) := by
  have hends {state' : ExecutionState μ} (hstatuses : SameStatuses state state')
      (hfinished : storeExecutionFinished state' = true)
      (hterminal : isTerminalServerExecutionStatus execution.status = true) :
      SameStatuses state state' ∧
        (storeExecutionFinished state = true → Pauses state execution →
          state'.status = .waitingForInput) ∧
        (storeExecutionFinished state = true → ¬ Pauses state execution →
          storeExecutionFinished state' = true) := by
    refine ⟨hstatuses, fun _ hpauses => ?_, fun _ _ => hfinished⟩
    rw [hpauses.1] at hterminal
    cases hterminal
  unfold applyExecutionStatus
  split
  · rename_i hstatus
    exact hends (SameRows.sameStatuses ⟨rfl, rfl, rfl⟩) rfl (by rw [hstatus]; rfl)
  split
  · rename_i hstatus
    obtain ⟨hstatuses, hfailed⟩ := failExecution_frame execution.errorMessage state
    exact hends hstatuses (by simp [storeExecutionFinished, hfailed]) (by rw [hstatus]; rfl)
  split
  · rename_i hstatus
    obtain ⟨hstatuses, hfailed⟩ := failExecution_frame (some "Execution cancelled") state
    exact hends hstatuses (by simp [storeExecutionFinished, hfailed]) (by rw [hstatus]; rfl)
  rename_i hcompleted hfailed hcancelled
  have hlive : isTerminalServerExecutionStatus execution.status = false := by
    simp [isTerminalServerExecutionStatus, hcompleted, hfailed, hcancelled]
  split
  · rename_i hwaiting
    have hnot : storeExecutionFinished state = false := by
      simp only [Bool.and_eq_true, decide_eq_true_eq] at hwaiting
      simp [storeExecutionFinished, hwaiting.2]
    split
    · exact ⟨(SameRows.refl state).sameStatuses, by simp [hnot], by simp [hnot]⟩
    · refine ⟨?_, by simp [hnot], by simp [hnot]⟩
      unfold resumeWaiting
      split
      · exact SameRows.sameStatuses ⟨rfl, rfl, rfl⟩
      · exact SameRows.sameStatuses ⟨rfl, rfl, rfl⟩
      · exact SameRows.sameStatuses ⟨rfl, rfl, rfl⟩
      · exact SameRows.sameStatuses ⟨rfl, rfl, rfl⟩
  split
  · rename_i hidle
    have hnot : storeExecutionFinished state = false := by
      simp only [Bool.and_eq_true, decide_eq_true_eq] at hidle
      simp [storeExecutionFinished, hidle.1.2]
    exact ⟨SameRows.sameStatuses ⟨rfl, rfl, rfl⟩, by simp [hnot], by simp [hnot]⟩
  split
  · obtain ⟨hrows, hpauses, hkeeps⟩ :=
      @hydrateWaiting_frame _ deps execution state hlive
    refine ⟨hrows.sameStatuses, fun _ => hpauses, fun hfinished hnot => ?_⟩
    unfold storeExecutionFinished at hfinished ⊢
    rw [hkeeps hnot]
    exact hfinished
  · rename_i heffective
    refine ⟨(SameRows.refl state).sameStatuses, fun _ hpauses => ?_, fun hfinished _ => hfinished⟩
    -- a waiting row makes a live execution count as waiting
    exfalso
    obtain ⟨-, waitingNode, hfind, -⟩ := hpauses
    apply heffective
    have hany : execution.rows.any isNodeWaitingForInput = true :=
      List.any_eq_true.mpr ⟨waitingNode, List.mem_of_find?_eq_some hfind, List.find?_some hfind⟩
    unfold effectiveExecutionStatus reconcileToWaiting
    by_cases hwaiting : execution.status = .waitingForInput
    · simp [hwaiting]
    · simp [hlive, hany, hwaiting]

/-! ## 5. One snapshot -/

/-- Nothing terminal is live afterwards. -/
structure NeverGoesBack (before after : ExecutionState μ) : Prop where
  finished : storeExecutionFinished before = true →
    after.status ≠ .running ∧ after.status ≠ .waitingForInput
  nodes : ∀ nodeId status, nodeStatusOf before nodeId = some status → status.isTerminal = true →
    ∃ status', nodeStatusOf after nodeId = some status' ∧ status'.isLive = false
  rows : ∀ id status, rowStatuses before id = some status → status.isTerminal = true →
    ∃ status', rowStatuses after id = some status' ∧ status'.isLive = false

/-- What the server calls terminal is not shown as live, neither in its row nor on its node. -/
def ShowsTerminalRows (execution : ExecutionData) (after : ExecutionState μ) : Prop :=
  ∀ ne ∈ execution.rows, ne.status.isTerminal = true →
    (∃ status, rowStatuses after ne.id = some status ∧ status.isLive = false) ∧
      ∃ status, nodeStatusOf after ne.nodeId = some status ∧ status.isLive = false

/-- A snapshot that does no harm: it pauses no finished store, it has no older status of a terminal
row, and no row was cancelled. -/
structure Harmless (state : ExecutionState μ) (execution : ExecutionData) : Prop where
  finished : storeExecutionFinished state = true → ¬ Pauses state execution
  stale : ∀ ne ∈ execution.rows, ∀ status, rowStatuses state ne.id = some status →
    status.isTerminal = true → (incomingStatus ne).isTerminal = true
  cancelled : ∀ ne ∈ execution.rows, ne.status ≠ .cancelled

/-- The same with terminal on both sides, which composes. -/
structure StaysTerminal (before after : ExecutionState μ) : Prop where
  finished : storeExecutionFinished before = true → storeExecutionFinished after = true
  nodes : ∀ nodeId status, nodeStatusOf before nodeId = some status → status.isTerminal = true →
    ∃ status', nodeStatusOf after nodeId = some status' ∧ status'.isTerminal = true
  rows : ∀ id status, rowStatuses before id = some status → status.isTerminal = true →
    ∃ status', rowStatuses after id = some status' ∧ status'.isTerminal = true

theorem StaysTerminal.refl (state : ExecutionState μ) : StaysTerminal state state :=
  ⟨id, fun _ status h hterminal => ⟨status, h, hterminal⟩,
    fun _ status h hterminal => ⟨status, h, hterminal⟩⟩

theorem StaysTerminal.trans {before middle after : ExecutionState μ}
    (h : StaysTerminal before middle) (h' : StaysTerminal middle after) :
    StaysTerminal before after := by
  refine ⟨fun hfinished => h'.finished (h.finished hfinished), ?_, ?_⟩
  · intro nodeId status hstatus hterminal
    obtain ⟨status', hstatus', hterminal'⟩ := h.nodes nodeId status hstatus hterminal
    exact h'.nodes nodeId status' hstatus' hterminal'
  · intro id status hstatus hterminal
    obtain ⟨status', hstatus', hterminal'⟩ := h.rows id status hstatus hterminal
    exact h'.rows id status' hstatus' hterminal'

theorem StaysTerminal.neverGoesBack {before after : ExecutionState μ}
    (h : StaysTerminal before after) : NeverGoesBack before after := by
  refine ⟨fun hfinished => ?_, ?_, ?_⟩
  · have hafter := h.finished hfinished
    unfold storeExecutionFinished at hafter
    constructor
    · intro hstatus
      simp [hstatus] at hafter
    · intro hstatus
      simp [hstatus] at hafter
  · intro nodeId status hstatus hterminal
    obtain ⟨status', hstatus', hterminal'⟩ := h.nodes nodeId status hstatus hterminal
    exact ⟨status', hstatus', NodeExecutionStatus.not_isLive hterminal'⟩
  · intro id status hstatus hterminal
    obtain ⟨status', hstatus', hterminal'⟩ := h.rows id status hstatus hterminal
    exact ⟨status', hstatus', NodeExecutionStatus.not_isLive hterminal'⟩

/-- The store after a snapshot that is applied. -/
def afterSnapshot (deps : SnapshotDeps μ) (now : String) (execution : ExecutionData)
    (state : ExecutionState μ) : ExecutionState μ :=
  applyExecutionStatus deps now execution (applyRows deps execution state)

/-- The loop over the rows leaves the execution, so the second half sees the store's own status. -/
theorem pauses_applyRows (execution : ExecutionData) (state : ExecutionState μ) :
    storeExecutionFinished (applyRows deps execution state) = storeExecutionFinished state ∧
      (Pauses (applyRows deps execution state) execution ↔ Pauses state execution) := by
  have hperm : (sortedByStart execution.rows).Perm execution.rows := List.mergeSort_perm _ _
  obtain ⟨hstatus, hwaiting, -⟩ := @foldl_applyRow _ deps (sortedByStart execution.rows)
    state fun ne hne => ExecutionData.id_ne_empty (hperm.mem_iff.mp hne)
  unfold applyRows storeExecutionFinished Pauses
  rw [hstatus, hwaiting]
  exact ⟨rfl, Iff.rfl⟩

theorem rowStatuses_afterSnapshot (now : String) (execution : ExecutionData)
    (state : ExecutionState μ) :
    rowStatuses (afterSnapshot deps now execution state) =
      rowStatuses (applyRows deps execution state) :=
  (applyExecutionStatus_frame now execution _).1.rows

theorem isTerminal_nodeStatusOf_afterSnapshot (now : String) {execution : ExecutionData}
    {nodeId : String}
    (h : (∃ status, nodeStatusOf state nodeId = some status ∧ status.isTerminal = true) ∨
      ∃ ne ∈ execution.rows, nodeId = ne.nodeId ∧ (incomingStatus ne).isTerminal = true) :
    ∃ status, nodeStatusOf (afterSnapshot deps now execution state) nodeId = some status ∧
      status.isTerminal = true := by
  have hperm : (sortedByStart execution.rows).Perm execution.rows := List.mergeSort_perm _ _
  have hrows : ∃ status, nodeStatusOf (applyRows deps execution state) nodeId = some status ∧
      status.isTerminal = true := by
    refine (@foldl_applyRow _ deps (sortedByStart execution.rows) state
      fun ne hne => ExecutionData.id_ne_empty (hperm.mem_iff.mp hne)).2.2.2 nodeId ?_
    refine h.imp_right ?_
    rintro ⟨ne, hne, hnode⟩
    exact ⟨ne, hperm.mem_iff.mpr hne, hnode⟩
  rcases (@applyExecutionStatus_frame _ deps now execution
      (applyRows deps execution state)).1.nodes nodeId with hsame | hfailed
  · exact hsame ▸ hrows
  · exact ⟨.failed, hfailed, rfl⟩

/-- **A harmless snapshot** keeps everything terminal and shows what is. -/
theorem Harmless.afterSnapshot (now : String) {execution : ExecutionData}
    (h : Harmless state execution) :
    StaysTerminal state (afterSnapshot deps now execution state) ∧
      ShowsTerminalRows execution (afterSnapshot deps now execution state) := by
  obtain ⟨hwritten, hkept⟩ := @rowStatuses_applyRows _ deps execution state
  obtain ⟨hfinished, hpauses⟩ := @pauses_applyRows _ deps execution state
  refine ⟨⟨fun hbefore => ?_, ?_, ?_⟩, ?_⟩
  · refine (applyExecutionStatus_frame now execution _).2.2 (hfinished.trans hbefore) ?_
    rw [hpauses]
    exact h.finished hbefore
  · intro nodeId status hstatus hterminal
    exact isTerminal_nodeStatusOf_afterSnapshot now (.inl ⟨status, hstatus, hterminal⟩)
  · intro id status hstatus hterminal
    rw [rowStatuses_afterSnapshot]
    by_cases hreported : ∃ ne ∈ execution.rows, ne.id = id
    · obtain ⟨ne, hne, rfl⟩ := hreported
      exact ⟨_, hwritten ne hne, h.stale ne hne status hstatus hterminal⟩
    · rw [hkept id fun ne hne heq => hreported ⟨ne, hne, heq⟩]
      exact ⟨status, hstatus, hterminal⟩
  · intro ne hne hterminal
    have hincoming : (incomingStatus ne).isTerminal = true := by
      rw [isTerminal_incomingStatus_of_server hterminal]
      exact decide_eq_true (h.cancelled ne hne)
    refine ⟨⟨incomingStatus ne, ?_, NodeExecutionStatus.not_isLive hincoming⟩, ?_⟩
    · rw [rowStatuses_afterSnapshot]
      exact hwritten ne hne
    · obtain ⟨status, hstatus, hnode⟩ := @isTerminal_nodeStatusOf_afterSnapshot _ deps state
        now _ _ (.inr ⟨ne, hne, rfl, hincoming⟩)
      exact ⟨status, hstatus, NodeExecutionStatus.not_isLive hnode⟩

/-- **Only harmless snapshots do.** -/
theorem harmless_of_afterSnapshot (now : String) {execution : ExecutionData}
    (hback : NeverGoesBack state (afterSnapshot deps now execution state))
    (hshows : ShowsTerminalRows execution (afterSnapshot deps now execution state)) :
    Harmless state execution := by
  obtain ⟨hwritten, -⟩ := @rowStatuses_applyRows _ deps execution state
  obtain ⟨hfinished, hpauses⟩ := @pauses_applyRows _ deps execution state
  refine ⟨fun hbefore hpause => ?_, ?_, ?_⟩
  · refine (hback.finished hbefore).2 ?_
    exact (applyExecutionStatus_frame now execution _).2.1 (hfinished.trans hbefore)
      (hpauses.mpr hpause)
  · intro ne hne status hstatus hterminal
    obtain ⟨status', hstatus', hlive⟩ := hback.rows ne.id status hstatus hterminal
    rw [rowStatuses_afterSnapshot, hwritten ne hne] at hstatus'
    obtain rfl := Option.some.inj hstatus'
    rw [isTerminal_incomingStatus, hlive]
    rfl
  · intro ne hne hcancelled
    obtain ⟨⟨status', hstatus', hlive⟩, -⟩ := hshows ne hne (by rw [hcancelled]; rfl)
    rw [rowStatuses_afterSnapshot, hwritten ne hne] at hstatus'
    obtain rfl := Option.some.inj hstatus'
    rw [incomingStatus_of_cancelled hcancelled] at hlive
    cases hlive

end Status

/-! ## 6. Runs -/

section Runs

variable {μ : Type} (deps : SnapshotDeps μ)

/-- The snapshot that a call writes into the store. -/
def SnapshotCall.applied? (call : SnapshotCall) : Option ExecutionData :=
  if call.isCancelled then none else call.execution

/-- The store after the first `i` calls of a run. -/
def storeAfter (state : ExecutionState μ) (calls : List SnapshotCall) (i : Nat) :
    ExecutionState μ :=
  (calls.take i).foldl (applyExecutionSnapshot deps) state

variable {deps} {state : ExecutionState μ} {calls : List SnapshotCall}

theorem storeAfter_succ {i : Nat} {call : SnapshotCall} (hcall : calls[i]? = some call) :
    storeAfter deps state calls (i + 1) =
      match call.applied? with
      | none => storeAfter deps state calls i
      | some execution => afterSnapshot deps call.now execution (storeAfter deps state calls i) := by
  unfold storeAfter
  rw [List.take_add_one, hcall, Option.toList_some, List.foldl_append, List.foldl_cons,
    List.foldl_nil]
  unfold applyExecutionSnapshot SnapshotCall.applied?
  cases hcancelled : call.isCancelled with
  | true =>
    rw [if_pos rfl]
    cases call.execution <;> rfl
  | false =>
    rw [if_neg Bool.false_ne_true]
    cases call.execution <;> rfl

/-- The live view never goes back, and shows as terminal what is reported so. -/
structure NeverGoesBackInRun (deps : SnapshotDeps μ) (state : ExecutionState μ)
    (calls : List SnapshotCall) : Prop where
  later : ∀ i j, i ≤ j → j ≤ calls.length →
    NeverGoesBack (storeAfter deps state calls i) (storeAfter deps state calls j)
  shown : ∀ i call execution, calls[i]? = some call → call.applied? = some execution →
    ShowsTerminalRows execution (storeAfter deps state calls (i + 1))

theorem staysTerminal_storeAfter
    (h : ∀ i call execution, calls[i]? = some call → call.applied? = some execution →
      Harmless (storeAfter deps state calls i) execution)
    (i j : Nat) (hle : i ≤ j) (hj : j ≤ calls.length) :
    StaysTerminal (storeAfter deps state calls i) (storeAfter deps state calls j) := by
  induction j, hle using Nat.le_induction with
  | base => exact StaysTerminal.refl _
  | succ j hle ih =>
    obtain ⟨call, hcall⟩ : ∃ call, calls[j]? = some call :=
      ⟨_, List.getElem?_eq_getElem (by omega)⟩
    refine (ih (by omega)).trans ?_
    rw [storeAfter_succ hcall]
    cases happlied : call.applied? with
    | none => exact StaysTerminal.refl _
    | some execution => exact ((h j call execution hcall happlied).afterSnapshot call.now).1

/-- **The live view of a run never goes back exactly when every snapshot in it is harmless** where it
is applied. -/
theorem neverGoesBackInRun_iff (deps : SnapshotDeps μ) (state : ExecutionState μ)
    (calls : List SnapshotCall) :
    NeverGoesBackInRun deps state calls ↔
      ∀ i call execution, calls[i]? = some call → call.applied? = some execution →
        Harmless (storeAfter deps state calls i) execution := by
  constructor
  · intro h i call execution hcall happlied
    have hlt : i < calls.length := (List.getElem?_eq_some_iff.mp hcall).1
    have hback := h.later i (i + 1) (Nat.le_succ i) hlt
    have hshows := h.shown i call execution hcall happlied
    rw [storeAfter_succ hcall, happlied] at hback hshows
    exact harmless_of_afterSnapshot call.now hback hshows
  · intro h
    refine ⟨fun i j hle hj => (staysTerminal_storeAfter h i j hle hj).neverGoesBack, ?_⟩
    intro i call execution hcall happlied
    rw [storeAfter_succ hcall, happlied]
    exact ((h i call execution hcall happlied).afterSnapshot call.now).2

/-! A carousel that was answered, seen by REST, and an older snapshot of its wait. -/

def carouselRow (status : ServerNodeStatus) : NodeExecutionData where
  id := "ne1"
  nodeId := "carousel"
  status := status
  outputData := .obj [("config", .obj []), ("output", .obj []),
    ("meta", .obj [("interactionType", .str "buttons")])]

def carouselCall (status : ServerExecutionStatus) (row : ServerNodeStatus) : SnapshotCall where
  execution := some
    { id := "ex1"
      status
      nodeExecutions := some [carouselRow row]
      named := by simp [carouselRow]
      distinct := by simp }
  now := "2026-07-26T09:00:00.000Z"

def carouselDeps : SnapshotDeps Unit where
  getCategoryForType := fun _ => "presentation"
  parseHistoryMessages := fun _ => []

/-- The older snapshot reopens the execution, and a cancelled row is shown as pending. -/
theorem not_neverGoesBackInRun :
    ¬ NeverGoesBackInRun carouselDeps {}
        [carouselCall .completed .completed, carouselCall .waitingForInput .waitingForInput] ∧
      ¬ NeverGoesBackInRun carouselDeps {} [carouselCall .cancelled .cancelled] := by
  refine ⟨fun h => ?_, fun h => ?_⟩
  · have hback := h.later 1 2 (by decide) (by decide)
    exact (hback.finished (by decide +kernel)).2 (by decide +kernel)
  · obtain ⟨⟨status, hstatus, hlive⟩, -⟩ :=
      h.shown 0 _ _ rfl rfl (carouselRow .cancelled) List.mem_cons_self rfl
    have hpending : rowStatuses
        (storeAfter carouselDeps {} [carouselCall .cancelled .cancelled] 1) "ne1" =
          some .pending := by decide +kernel
    obtain rfl := Option.some.inj (hpending.symm.trans hstatus)
    cases hlive

end Runs

end Clemvion.LiveExecution
