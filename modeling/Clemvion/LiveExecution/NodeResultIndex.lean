import Clemvion.Library.ScanIndex
import Clemvion.LiveExecution.ExecutionStore

/-!
# NodeResultIndex — the rows of an execution without their indices

The store finds its rows by three derived maps.  Without them it is a list of rows that is scanned:
the same row is updated, and the same rows are found, as long as no event takes the id of a row
away and none moves a row to another node.
-/

open Clemvion.Js Clemvion.Library

namespace Clemvion.LiveExecution

variable {μ : Type}

/-! ## 1. Finding rows -/

/-- `findNodeResult`, for an id that may be missing. -/
def ExecutionState.findNodeResult (state : ExecutionState μ) (nodeExecutionId : Option String)
    (nodeId : String) : Option NodeResult :=
  match given nodeExecutionId with
  | some nodeExecutionId => LiveExecution.findNodeResult nodeExecutionId state
  | none =>
    (state.firstNoExecIdIndexByNodeId nodeId).bind fun index =>
      (state.nodeResults[index]?).filter fun row =>
        given row.nodeExecutionId = none && row.nodeId = nodeId

def ExecutionState.findLatestResultByNodeId (state : ExecutionState μ) (nodeId : String) :
    Option NodeResult :=
  (state.lastIndexByNodeId nodeId).bind fun index =>
    (state.nodeResults[index]?).filter (·.nodeId = nodeId)

/-- `startHistoryView` clears the store for an execution. -/
def startHistoryView (executionId : String) (startedAt : Option String) (state : ExecutionState μ) :
    ExecutionState μ :=
  { clearInputAffordance state with
    executionId := some executionId
    status := .running
    nodeStatuses := fun _ => none
    nodeResults := []
    nodeResultIndexByExecId := fun _ => none
    lastIndexByNodeId := fun _ => none
    firstNoExecIdIndexByNodeId := fun _ => none
    startedAt
    selectedResultNodeId := none
    conversationMessages := [] }

/-! ## 2. The plain list -/

/-- The keys of the three maps. -/
def execKey (row : NodeResult) : Option String := given row.nodeExecutionId

def nodeKey (row : NodeResult) : Option String := some row.nodeId

def unidentifiedKey (row : NodeResult) : Option String :=
  if given row.nodeExecutionId = none then some row.nodeId else none

/-- The row that a linear scan updates: the one with the id, or the last one of the node. -/
def scanTarget (rows : List NodeResult) (result : NodeResult) : Option Nat :=
  match given result.nodeExecutionId with
  | some nodeExecutionId => firstIndex execKey nodeExecutionId rows
  | none => lastIndex nodeKey result.nodeId rows

def addRow (rows : List NodeResult) (result : NodeResult) : List NodeResult :=
  match scanTarget rows result with
  | none => rows ++ [result]
  | some index => rows.modify index fun prev => mergedResult prev result

/-- `nodeResults.find(…)` -/
def findRow (rows : List NodeResult) (nodeExecutionId : Option String) (nodeId : String) :
    Option NodeResult :=
  match given nodeExecutionId with
  | some nodeExecutionId => rows.find? fun row => row.nodeExecutionId = some nodeExecutionId
  | none => rows.find? fun row => given row.nodeExecutionId = none && row.nodeId = nodeId

/-- The last row of the node. -/
def latestRow (rows : List NodeResult) (nodeId : String) : Option NodeResult :=
  rows.reverse.find? fun row => row.nodeId = nodeId

/-- The event fits the rows: with an empty id it meets no row that has one, and the row with its id
is one of its node. -/
structure Steady (rows : List NodeResult) (result : NodeResult) : Prop where
  keepsId : result.nodeExecutionId = some "" →
    ∀ row, latestRow rows result.nodeId = some row → given row.nodeExecutionId = none
  keepsNode : ∀ row ∈ rows, ∀ nodeExecutionId, given result.nodeExecutionId = some nodeExecutionId →
    row.nodeExecutionId = some nodeExecutionId → row.nodeId = result.nodeId

/-- Every event fits the rows that it meets. -/
def SteadyRun : List NodeResult → List NodeResult → Prop
  | _, [] => True
  | rows, result :: results => Steady rows result ∧ SteadyRun (addRow rows result) results

/-! ## 3. The store and the list -/

/-- The maps answer as scans do, and no two rows have the same id. -/
structure Indexed (state : ExecutionState μ) : Prop where
  exec : IndexesFirst execKey state.nodeResultIndexByExecId state.nodeResults
  latest : IndexesLast nodeKey state.lastIndexByNodeId state.nodeResults
  unidentified : IndexesFirst unidentifiedKey state.firstNoExecIdIndexByNodeId state.nodeResults
  distinct : state.nodeResults.Pairwise fun row row' =>
    ∀ nodeExecutionId, execKey row = some nodeExecutionId → execKey row' ≠ some nodeExecutionId

theorem given_eq_some_iff {text : Option String} {s : String} :
    given text = some s ↔ text = some s ∧ s ≠ "" := by
  unfold given
  rw [Option.filter_eq_some_iff]
  simp

/-- A row has an id exactly when it has it as its key. -/
theorem execKey_eq_some_iff {row : NodeResult} {s : String} (hs : s ≠ "") :
    execKey row = some s ↔ row.nodeExecutionId = some s := by
  unfold execKey
  rw [given_eq_some_iff, and_iff_left hs]

theorem latestRow_eq (rows : List NodeResult) (nodeId : String) :
    latestRow rows nodeId = (lastIndex nodeKey nodeId rows).bind (rows[·]?) := by
  rw [getElem_lastIndex]
  simp only [nodeKey, Option.some.injEq]
  rfl

variable {state : ExecutionState μ}

/-- What is found by a right map needs no second look. -/
theorem filter_of_index {κ : Type} [DecidableEq κ] {key : NodeResult → Option κ} {k : κ}
    {rows : List NodeResult} {index : Option Nat} {valid : NodeResult → Bool}
    (hindex : ∀ i, index = some i → ∃ row, rows[i]? = some row ∧ key row = some k)
    (hvalid : ∀ row, key row = some k → valid row = true) :
    (index.bind fun i => (rows[i]?).filter valid) = index.bind (rows[·]?) := by
  cases index with
  | none => rfl
  | some i =>
    obtain ⟨row, hrow, hkey⟩ := hindex i rfl
    rw [Option.bind_some, Option.bind_some, hrow]
    exact Option.filter_some_pos (hvalid row hkey)

theorem Indexed.findNodeResult (h : Indexed state) (nodeExecutionId : Option String)
    (nodeId : String) : state.findNodeResult nodeExecutionId nodeId =
      findRow state.nodeResults nodeExecutionId nodeId := by
  unfold ExecutionState.findNodeResult findRow
  -- an id leads to the map of ids; without one only rows without an id count
  cases hgiven : given nodeExecutionId with
  | some s =>
    have hs := (given_eq_some_iff.mp hgiven).2
    dsimp only
    unfold LiveExecution.findNodeResult
    rw [h.exec s, filter_of_index (fun i => key_of_firstIndex)
      (fun row hrow => by simpa using (execKey_eq_some_iff hs).mp hrow), getElem_firstIndex]
    simp only [execKey_eq_some_iff hs]
  | none =>
    have hkey : ∀ row, unidentifiedKey row = some nodeId ↔
        (given row.nodeExecutionId = none && row.nodeId = nodeId) = true := by
      intro row
      unfold unidentifiedKey
      split_ifs with hnone <;> simp [hnone]
    dsimp only
    rw [h.unidentified nodeId, filter_of_index (fun i => key_of_firstIndex)
      (fun row hrow => (hkey row).mp hrow), getElem_firstIndex]
    simp only [hkey, Bool.decide_eq_true]

theorem Indexed.findLatestResultByNodeId (h : Indexed state) (nodeId : String) :
    state.findLatestResultByNodeId nodeId = latestRow state.nodeResults nodeId := by
  unfold ExecutionState.findLatestResultByNodeId
  rw [h.latest nodeId, filter_of_index (fun i => key_of_lastIndex)
    (fun row hrow => by simpa [nodeKey] using hrow), latestRow_eq]

/-- The maps lead to the row that a scan updates. -/
theorem Indexed.targetIndex (h : Indexed state) (result : NodeResult) :
    targetIndex state result = scanTarget state.nodeResults result := by
  have hvalid : ∀ {key : NodeResult → Option String} {k : String} {index : Option Nat}
      {valid : NodeResult → Bool},
      (∀ i, index = some i → ∃ row, state.nodeResults[i]? = some row ∧ key row = some k) →
      (∀ row, key row = some k → valid row = true) → validIndex state index valid = index := by
    intro key k index valid hindex hkey
    cases index with
    | none => rfl
    | some i =>
      obtain ⟨row, hrow, hrowKey⟩ := hindex i rfl
      unfold validIndex
      exact Option.filter_some_pos (by rw [hrow]; exact hkey row hrowKey)
  unfold LiveExecution.targetIndex scanTarget
  cases hgiven : given result.nodeExecutionId with
  | some s =>
    have hs := (given_eq_some_iff.mp hgiven).2
    dsimp only
    rw [h.exec s]
    exact hvalid (fun i => key_of_firstIndex)
      (fun row hrow => by simpa using (execKey_eq_some_iff hs).mp hrow)
  | none =>
    dsimp only
    rw [h.latest result.nodeId]
    exact hvalid (fun i => key_of_lastIndex) (fun row hrow => by simpa [nodeKey] using hrow)

/-! ## 4. What one event does -/

/-- The target of an event, as a row. -/
theorem scanTarget_spec {rows : List NodeResult} {result : NodeResult} {index : Nat}
    (h : scanTarget rows result = some index) : ∃ prev, rows[index]? = some prev ∧
      (execKey result = none → latestRow rows result.nodeId = some prev ∧
        prev.nodeId = result.nodeId) ∧
      ∀ nodeExecutionId, execKey result = some nodeExecutionId → execKey prev = some nodeExecutionId := by
  unfold scanTarget at h
  unfold execKey at *
  cases hgiven : given result.nodeExecutionId with
  | some s =>
    rw [hgiven] at h
    obtain ⟨prev, hprev, hkey⟩ := key_of_firstIndex h
    refine ⟨prev, hprev, ?_, ?_⟩
    · intro hnone
      cases hnone
    · intro t ht
      rw [← ht]
      exact hkey
  | none =>
    rw [hgiven] at h
    obtain ⟨prev, hprev, hkey⟩ := key_of_lastIndex h
    refine ⟨prev, hprev, fun _ => ⟨?_, Option.some.inj hkey⟩, fun t ht => nomatch ht⟩
    have hlast : lastIndex nodeKey result.nodeId rows = some index := h
    rw [latestRow_eq, hlast, Option.bind_some, hprev]

/-- An event that fits the rows changes neither the id nor the node of the row it updates. -/
theorem Steady.merged_keys {rows : List NodeResult} {result prev : NodeResult} {index : Nat}
    (h : Steady rows result) (htarget : scanTarget rows result = some index)
    (hprev : rows[index]? = some prev) :
    execKey (mergedResult prev result) = execKey prev ∧
      (mergedResult prev result).nodeId = prev.nodeId := by
  obtain ⟨row, hrow, hnone, hsome⟩ := scanTarget_spec htarget
  obtain rfl : prev = row := Option.some.inj (hprev.symm.trans hrow)
  -- found by its id, a row has the id already; found as the last of its node, it has the node
  cases hkey : execKey result with
  | some s =>
    obtain ⟨hid, hs⟩ := given_eq_some_iff.mp hkey
    have hprevKey := hsome s hkey
    refine ⟨?_, ?_⟩
    · rw [hprevKey, ← hkey]
      unfold execKey mergedResult
      dsimp only
      rw [hid]
      rfl
    · exact (h.keepsNode prev (List.mem_of_getElem? hprev) s hkey
        ((execKey_eq_some_iff hs).mp hprevKey)).symm
  | none =>
    obtain ⟨hlatest, hnode⟩ := hnone hkey
    refine ⟨?_, hnode.symm⟩
    cases hid : result.nodeExecutionId with
    | none =>
      unfold execKey mergedResult
      dsimp only
      rw [hid]
      rfl
    | some s =>
      -- only the empty id is given without being a key
      have hs : s = "" := by
        by_contra hne
        have hsome' : execKey result = some s := given_eq_some_iff.mpr ⟨hid, hne⟩
        rw [hkey] at hsome'
        cases hsome'
      subst hs
      have hprevNone := h.keepsId hid prev hlatest
      unfold execKey mergedResult
      dsimp only
      rw [hid, hprevNone]
      rfl

theorem nodeResults_updateResult (index : Nat) (prev result : NodeResult)
    (state : ExecutionState μ) : (updateResult index prev result state).nodeResults =
      state.nodeResults.set index (mergedResult prev result) := by
  unfold updateResult
  dsimp only
  split <;> rfl

/-- The only row with an id is the first one. -/
theorem Indexed.firstIndex_eq (h : Indexed state) {row : NodeResult} {index : Nat} {s : String}
    (hrow : state.nodeResults[index]? = some row) (hkey : execKey row = some s) :
    firstIndex execKey s state.nodeResults = some index := by
  obtain ⟨hlt, rfl⟩ := List.getElem?_eq_some_iff.mp hrow
  refine List.findIdx?_eq_some_iff_getElem.mpr ⟨hlt, by simpa using hkey, ?_⟩
  intro j hj
  have hapart := List.pairwise_iff_getElem.mp h.distinct j index (by omega) hlt hj s
  by_contra hfound
  exact hapart (by simpa using hfound) hkey

theorem Indexed.update (h : Indexed state) {result prev : NodeResult} {index : Nat}
    (hprev : state.nodeResults[index]? = some prev)
    (hexec : execKey (mergedResult prev result) = execKey prev)
    (hnode : (mergedResult prev result).nodeId = prev.nodeId) :
    Indexed (updateResult index prev result state) := by
  have hunidentified : unidentifiedKey (mergedResult prev result) = unidentifiedKey prev := by
    unfold unidentifiedKey
    rw [hnode]
    exact congrArg (fun k : Option String => if k = none then some prev.nodeId else none) hexec
  -- the keys of the rows are the same list as before
  have hdistinct : (state.nodeResults.set index (mergedResult prev result)).Pairwise fun row row' =>
      ∀ s, execKey row = some s → execKey row' ≠ some s := by
    have hmap := map_set_same hprev hexec
    have hkeys : ∀ rows : List NodeResult,
        (rows.Pairwise fun row row' => ∀ s, execKey row = some s → execKey row' ≠ some s) ↔
          (rows.map execKey).Pairwise fun k k' => ∀ s, k = some s → k' ≠ some s := fun rows => by
      rw [List.pairwise_map]
    rw [hkeys, hmap, ← hkeys]
    exact h.distinct
  have hrows := nodeResults_updateResult index prev result state
  -- the maps stay as they are
  have hmaps : (updateResult index prev result state).nodeResultIndexByExecId =
        state.nodeResultIndexByExecId ∧
      (updateResult index prev result state).lastIndexByNodeId = state.lastIndexByNodeId ∧
      (updateResult index prev result state).firstNoExecIdIndexByNodeId =
        state.firstNoExecIdIndexByNodeId := by
    unfold updateResult
    dsimp only
    split
    case h_1 => exact ⟨rfl, rfl, rfl⟩
    case h_2 s hs =>
      have hkey : execKey prev = some s := hexec.symm.trans hs
      have hgiven : given prev.nodeExecutionId = some s := hkey
      refine ⟨?_, rfl, ?_⟩
      · have hsame : state.nodeResultIndexByExecId s = some index :=
          (h.exec s).trans (h.firstIndex_eq hprev hkey)
        rw [← hsame]
        exact Function.update_eq_self s _
      · rw [hgiven]
        rfl
  refine ⟨?_, ?_, ?_, ?_⟩
  · rw [hrows, hmaps.1]
    exact h.exec.set hprev hexec
  · rw [hrows, hmaps.2.1]
    exact h.latest.set hprev (congrArg some hnode)
  · rw [hrows, hmaps.2.2]
    exact h.unidentified.set hprev hunidentified
  · rw [hrows]
    exact hdistinct

theorem Indexed.append (h : Indexed state) {result : NodeResult}
    (htarget : scanTarget state.nodeResults result = none) : Indexed (appendResult result state) := by
  have hlast := h.latest.append (r := result) rfl
  unfold scanTarget at htarget
  -- a new id is not among the rows: otherwise the event had a target
  have hdistinct : (∀ s, execKey result = some s → firstIndex execKey s state.nodeResults = none) →
      (state.nodeResults ++ [result]).Pairwise fun row row' =>
        ∀ s, execKey row = some s → execKey row' ≠ some s := by
    intro hnew
    rw [List.pairwise_append]
    refine ⟨h.distinct, List.pairwise_singleton _ _, ?_⟩
    intro row hrow row' hrow' s hkey hkey'
    rw [List.mem_singleton.mp hrow'] at hkey'
    have hnone := List.findIdx?_eq_none_iff.mp (hnew s hkey') row hrow
    simp [hkey] at hnone
  unfold appendResult
  dsimp only
  cases hgiven : given result.nodeExecutionId with
  | some s =>
    rw [hgiven] at htarget
    have hkey : execKey result = some s := hgiven
    have hunidentified : unidentifiedKey result = none := by
      unfold unidentifiedKey
      rw [hgiven]
      rfl
    refine ⟨?_, hlast, h.unidentified.append_none hunidentified, hdistinct ?_⟩
    · exact h.exec.append_new hkey ((h.exec s).trans htarget)
    · intro t ht
      rw [hkey] at ht
      rw [← Option.some.inj ht]
      exact htarget
  | none =>
    have hkey : execKey result = none := hgiven
    have hunidentified : unidentifiedKey result = some result.nodeId := by
      unfold unidentifiedKey
      rw [hgiven]
      rfl
    have hall := hdistinct fun s hs => by rw [hkey] at hs; cases hs
    dsimp only
    -- the first row of a node without an id is entered, later ones are not
    split
    case isTrue hfirst =>
      exact ⟨h.exec.append_none hkey, hlast, h.unidentified.append_new hunidentified hfirst, hall⟩
    case isFalse hfirst =>
      exact ⟨h.exec.append_none hkey, hlast, h.unidentified.append_old hunidentified hfirst, hall⟩

/-- One event: the store does what the list does, and its maps stay right. -/
theorem Indexed.addNodeResult (h : Indexed state) {result : NodeResult}
    (hsteady : Steady state.nodeResults result) : Indexed (addNodeResult result state) ∧
      (addNodeResult result state).nodeResults = addRow state.nodeResults result := by
  unfold LiveExecution.addNodeResult addRow
  rw [h.targetIndex result]
  cases htarget : scanTarget state.nodeResults result with
  | none =>
    refine ⟨h.append htarget, ?_⟩
    dsimp only
    unfold appendResult
    dsimp only
    split
    · rfl
    · split <;> rfl
  | some index =>
    obtain ⟨prev, hprev, -⟩ := scanTarget_spec htarget
    obtain ⟨hexec, hnode⟩ := hsteady.merged_keys htarget hprev
    dsimp only
    rw [hprev]
    refine ⟨h.update hprev hexec hnode, ?_⟩
    dsimp only
    rw [nodeResults_updateResult, List.modify_eq_set_getElem?, hprev]
    rfl

/-! ## 5. Runs -/

def addNodeResults (results : List NodeResult) (state : ExecutionState μ) : ExecutionState μ :=
  results.foldl (fun state result => addNodeResult result state) state

def addRows (results : List NodeResult) (rows : List NodeResult) : List NodeResult :=
  results.foldl addRow rows

/-- Every row that has an id keeps it. -/
def KeepsIds (rows rows' : List NodeResult) : Prop :=
  ∀ (index : Nat) (row : NodeResult) (nodeExecutionId : String), rows[index]? = some row →
    execKey row = some nodeExecutionId →
    ∃ row', rows'[index]? = some row' ∧ execKey row' = some nodeExecutionId

theorem KeepsIds.refl (rows : List NodeResult) : KeepsIds rows rows :=
  fun _ row _ hrow hkey => ⟨row, hrow, hkey⟩

theorem KeepsIds.trans {rows rows' rows'' : List NodeResult} (h : KeepsIds rows rows')
    (h' : KeepsIds rows' rows'') : KeepsIds rows rows'' := by
  intro index row s hrow hkey
  obtain ⟨row', hrow', hkey'⟩ := h index row s hrow hkey
  exact h' index row' s hrow' hkey'

theorem Steady.keepsIds {rows : List NodeResult} {result : NodeResult} (h : Steady rows result) :
    KeepsIds rows (addRow rows result) := by
  intro i row s hrow hkey
  have hlt : i < rows.length := (List.getElem?_eq_some_iff.mp hrow).1
  unfold addRow
  cases htarget : scanTarget rows result with
  | none => exact ⟨row, by rw [← hrow]; exact List.getElem?_append_left hlt, hkey⟩
  | some index =>
    obtain ⟨prev, hprev, -⟩ := scanTarget_spec htarget
    dsimp only
    by_cases hindex : index = i
    · obtain rfl : prev = row := Option.some.inj (by rw [← hprev, ← hrow, hindex])
      refine ⟨mergedResult prev result, ?_, (h.merged_keys htarget hprev).1.trans hkey⟩
      rw [hindex, List.getElem?_modify_eq, hrow]
      rfl
    · refine ⟨row, ?_, hkey⟩
      rw [List.getElem?_modify, hrow]
      simp [hindex]

/-- What the store and the plain list agree on. -/
structure Agrees (state : ExecutionState μ) (rows : List NodeResult) : Prop where
  list : state.nodeResults = rows
  find : ∀ nodeExecutionId nodeId,
    state.findNodeResult nodeExecutionId nodeId = findRow rows nodeExecutionId nodeId
  latest : ∀ nodeId, state.findLatestResultByNodeId nodeId = latestRow rows nodeId
  distinct : rows.Pairwise fun row row' =>
    ∀ nodeExecutionId, execKey row = some nodeExecutionId → execKey row' ≠ some nodeExecutionId

theorem Indexed.agrees (h : Indexed state) : Agrees state state.nodeResults :=
  ⟨rfl, h.findNodeResult, h.findLatestResultByNodeId, h.distinct⟩

theorem indexed_startHistoryView (executionId : String) (startedAt : Option String)
    (state : ExecutionState μ) : Indexed (startHistoryView executionId startedAt state) :=
  ⟨fun _ => rfl, fun _ => rfl, fun _ => rfl, List.Pairwise.nil⟩

theorem Indexed.addNodeResults (h : Indexed state) {results : List NodeResult}
    (hsteady : SteadyRun state.nodeResults results) : Indexed (addNodeResults results state) ∧
      (addNodeResults results state).nodeResults = addRows results state.nodeResults ∧
      KeepsIds state.nodeResults (addRows results state.nodeResults) := by
  -- one event at a time; the rows that the next event fits are those of the list
  induction results generalizing state with
  | nil => exact ⟨h, rfl, .refl _⟩
  | cons result results ih =>
    obtain ⟨hfirst, hlater⟩ := hsteady
    obtain ⟨hindexed, hrows⟩ := h.addNodeResult hfirst
    rw [← hrows] at hlater
    obtain ⟨hall, hrest, hkeeps⟩ := ih hindexed hlater
    rw [hrows] at hrest hkeeps
    exact ⟨hall, hrest, hfirst.keepsIds.trans hkeeps⟩

theorem SteadyRun.append {rows : List NodeResult} {before after : List NodeResult}
    (h : SteadyRun rows (before ++ after)) :
    SteadyRun rows before ∧ SteadyRun (addRows before rows) after := by
  induction before generalizing rows with
  | nil => exact ⟨trivial, h⟩
  | cons result before ih => exact ⟨⟨h.1, (ih h.2).1⟩, (ih h.2).2⟩

section Examples

def sampleResult (nodeExecutionId : Option String) (nodeId : String) : NodeResult :=
  { nodeExecutionId, nodeId, nodeLabel := nodeId, nodeType := "code", nodeCategory := "logic"
    status := .running, outputData := .null }

/-- An iteration without an id, two with one and an update without one. -/
def sampleResults : List NodeResult :=
  [sampleResult none "a", sampleResult (some "x") "a", sampleResult (some "y") "b",
    sampleResult none "a"]

/-- An empty id takes the id of a row away, and then the row is not found without one either. -/
def emptyIdResults : List NodeResult := [sampleResult (some "x") "a", sampleResult (some "") "a"]

/-- A row that moves to another node is not found as its last one. -/
def movedResults : List NodeResult := [sampleResult (some "x") "a", sampleResult (some "x") "b"]

end Examples

end Clemvion.LiveExecution
