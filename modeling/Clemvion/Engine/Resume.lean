import Mathlib.Data.String.Basic
import Clemvion.Library.MarkingScan
import Clemvion.Engine.DispatchLoop

/-!
# Resume — going on after a park

A blocking node parks the execution: the worker drops its context and a later worker rebuilds one.
The reachable set is not among the things that are persisted.  `resumeFromCheckpoint` seeds it
from the entry nodes, the restored executed nodes and the waiting node, so a mark that an executed
node put beyond the waiting node is gone.

On an acyclic workflow every run of the loop is a marking scan of the sorted nodes, which turns the
comparison of a resumed run with an uninterrupted one into a comparison of two sets of marks.
-/

open Clemvion.Js Clemvion.Graph Clemvion.Library

set_option linter.unusedSectionVars false

namespace Clemvion.Engine

variable {Id : Type} [LinearOrder Id]

/-! ## 1. The resume path -/

/-- The ways `resumeFromCheckpoint` refuses, with the data of their messages. -/
inductive RehydrationError (Id : Type)
  /-- A multi-turn AI node without `_resumeCheckpoint`. -/
  | checkpointAbsent (nodeType : String)
  /-- The checkpoint was written by a newer instance. -/
  | schemaTooNew (nodeType : String) (schemaVersion : Value)
  /-- "Waiting node … not in sorted graph (workflow=…)". -/
  | notInSortedGraph (nodeId : Id) (workflowId : String)
  deriving DecidableEq

def RehydrationError.code : RehydrationError Id → String
  | .checkpointAbsent _ | .schemaTooNew _ _ => "RESUME_INCOMPATIBLE_STATE"
  | .notInSortedGraph _ _ => "RESUME_CHECKPOINT_MISSING"

/-- The part of the rebuilt context that the dispatch reads. -/
structure RestoredContext (Id : Type) where
  nodeOutputCache : OutputCache Id
  executedNodes : Finset Id

def checkpointSchemaVersion : Number := .finite 1

/-- `readPersistedInteractionType`: the one in `meta` wins, anything but a string is ignored. -/
def readPersistedInteractionType (outputData : Value) : Option String :=
  match (outputData.field "meta").field "interactionType" with
  | .str interactionType => some interactionType
  | _ =>
    match outputData.field "interactionType" with
    | .str interactionType => some interactionType
    | _ => none

/-- `typeof v === 'number' && v > CHECKPOINT_SCHEMA_VERSION`. -/
def isNewerSchema : Value → Bool
  | .num version => checkpointSchemaVersion.lt version
  | _ => false

/-- The loop state of a top-level resume: `resumeFromCheckpoint` up to the drive. -/
def resumeFromCheckpoint (g : ExecutionGraphState Id) (workflowId : String)
    (context : RestoredContext Id) (node : Node Id) :
    Except (RehydrationError Id) (LoopState Id) :=
  let cachedOutput := (context.nodeOutputCache node.id).value
  let interactionType := readPersistedInteractionType cachedOutput
  let isAiConversation :=
    interactionType = some "ai_conversation" || interactionType = some "ai_form_render"
  let resumeCheckpoint := cachedOutput.field "_resumeCheckpoint"
  if isAiConversation && !resumeCheckpoint.truthy then
    .error (.checkpointAbsent node.type)
  else if isAiConversation && isNewerSchema (resumeCheckpoint.field "schemaVersion") then
    .error (.schemaTooNew node.type (resumeCheckpoint.field "schemaVersion"))
  else
    match g.sortedIndex node.id with
    | none => .error (.notInSortedGraph node.id workflowId)
    | some waitingPointer => .ok { LoopState.initial
        (insert node.id (seedInitialReachability g [] ∪ context.executedNodes)) with
      pointer := waitingPointer
      nodeOutputCache := context.nodeOutputCache
      executedNodes := context.executedNodes }

/-- `driveResumeAwaited` between the turn that completes the waiting node and the dispatch loop. -/
def LoopState.completeTurn (s : LoopState Id) (g : ExecutionGraphState Id) (nodeId : Id)
    (output : FlatValue) : LoopState Id :=
  (s.commit nodeId (some output)).leaveNode g nodeId

/-! ## 2. Runs of assigned handler results -/

/-- What the handler of a node does in a run without blocking nodes. -/
inductive HandlerResult (Id : Type)
  | threw (message : String)
  | returned (output : FlatValue) (nonBlocking : isWaiting output = false)
  | branches (written : List (Id × FlatValue)) (marked : List Id)

def HandlerResult.visit : HandlerResult Id → Visit Id
  | .threw message => .threw message
  | .returned output _ => .ran (some output)
  | .branches written marked => .ranParallel written marked

/-- The nodes that the result of `nodeId` makes reachable. -/
def HandlerResult.targets (g : ExecutionGraphState Id) (nodeId : Id) : HandlerResult Id → Finset Id
  | .threw _ => ∅
  | .returned output _ => (activatedTargets g output.value nodeId).toFinset
  | .branches _ marked => marked.toFinset

def HandlerResult.throws : HandlerResult Id → Bool
  | .threw _ => true
  | _ => false

/-- Deterministic handlers: every node has one result. -/
abbrev Assignment (Id : Type) := Id → HandlerResult Id

/-- Every node returns its result. -/
def Assignment.environment (results : Assignment Id) : Environment Id where
  boundary := fun _ => none
  execute := fun _ node => (results node.id).visit
  parkEntry := fun _ _ => true

/-- `waitingId` blocks with the output `waiting`, every other node returns its result. -/
def Assignment.blockingEnvironment (results : Assignment Id) (waitingId : Id)
    (waiting : FlatValue) : Environment Id where
  boundary := fun _ => none
  execute := fun _ node =>
    if node.id = waitingId then .ran (some waiting) else (results node.id).visit
  parkEntry := fun _ _ => true

/-- `nodeId` returns `output` at once, every other node returns its result. -/
def Assignment.complete (results : Assignment Id) (nodeId : Id) (output : FlatValue)
    (nonBlocking : isWaiting output = false) : Assignment Id :=
  Function.update results nodeId (.returned output nonBlocking)

variable (g : ExecutionGraphState Id)

def isEnabled (id : Id) : Bool :=
  match g.nodeMap id with
  | some node => !node.isDisabled
  | none => false

/-- The nodes executed so far, in order; dispatching a disabled node only records it. -/
def executedInOrder (s : LoopState Id) : List Id := s.dispatched.filter (isEnabled g)

/-- The enabled nodes from a position on. -/
def enabledFrom (position : Nat) : List Id :=
  (g.sortedNodeIds.drop position).filter (isEnabled g)

/-- The run from `s` ends in `u`. -/
def EndsIn (env : Environment Id) (s u : LoopState Id) : Prop :=
  ∃ fuel e, runNodeDispatchLoop g env {} fuel s = (u, some e)

/-- What the run executes from `s` on, as a scan. -/
def scanFrom (results : Assignment Id) (s : LoopState Id) : List Id :=
  scan (fun v => (results v).targets g v) (fun v => (results v).throws)
    (enabledFrom g s.pointer) s.reachable

/-- No node from the pointer on has been counted. -/
def FreshAhead (s : LoopState Id) : Prop :=
  ∀ i v, s.pointer ≤ i → g.sortedNodeIds[i]? = some v → s.nodeExecutionCount v = 0

variable {g} {results : Assignment Id} {s t u : LoopState Id}

/-! ## 3. One pass of an acyclic workflow is one step of the scan -/

theorem leaveNode_acyclic (hback : g.backEdges = []) (s : LoopState Id) (nodeId : Id) :
    s.leaveNode g nodeId = { s.next with
      reachable := propagateReachability g s.nodeOutputCache nodeId s.reachable } := by
  apply leaveNode_forward
  have hnone : g.backEdgesFrom nodeId = [] := by
    simp [ExecutionGraphState.backEdgesFrom, hback]
  rw [hnone]
  rfl

theorem enabledFrom_of_getElem? {position : Nat} {v : Id}
    (hv : g.sortedNodeIds[position]? = some v) :
    enabledFrom g position =
      if isEnabled g v then v :: enabledFrom g (position + 1) else enabledFrom g (position + 1) := by
  obtain ⟨hlt, rfl⟩ := List.getElem?_eq_some_iff.mp hv
  unfold enabledFrom
  rw [List.drop_eq_getElem_cons hlt, List.filter_cons]

theorem enabledFrom_of_pastEnd {position : Nat} (hend : g.sortedNodeIds[position]? = none) :
    enabledFrom g position = [] := by
  unfold enabledFrom
  rw [List.drop_eq_nil_of_le (List.getElem?_eq_none_iff.mp hend)]
  rfl

private theorem Dispatches.isEnabled {env : Environment Id} {opts : LoopOptions} {nodeId : Id}
    {node : Node Id} (hd : Dispatches g env opts s nodeId node) :
    isEnabled g nodeId = !node.isDisabled := by
  unfold Engine.isEnabled
  rw [hd.known]

private theorem scanFrom_skip {v : Id} (hv : g.sortedNodeIds[s.pointer]? = some v)
    (hskip : isEnabled g v = false ∨ v ∉ s.reachable) (hpointer : t.pointer = s.pointer + 1)
    (hreach : t.reachable = s.reachable) : scanFrom g results t = scanFrom g results s := by
  unfold scanFrom
  rw [enabledFrom_of_getElem? hv, hpointer, hreach]
  rcases hskip with hdis | hmark
  · rw [if_neg (by simp [hdis])]
  · split
    · rw [scan, if_neg hmark]
    · rfl

private theorem scanFrom_visit {v : Id} (hv : g.sortedNodeIds[s.pointer]? = some v)
    (hen : isEnabled g v = true) (hmark : v ∈ s.reachable) (hgo : (results v).throws = false)
    (hpointer : t.pointer = s.pointer + 1)
    (hreach : t.reachable = s.reachable ∪ (results v).targets g v) :
    scanFrom g results s = v :: scanFrom g results t := by
  unfold scanFrom
  rw [enabledFrom_of_getElem? hv, if_pos hen, scan, if_pos hmark, hpointer, hreach]
  simp only [hgo]
  rfl

private theorem scanFrom_throw {v : Id} (hv : g.sortedNodeIds[s.pointer]? = some v)
    (hen : isEnabled g v = true) (hmark : v ∈ s.reachable) (hstop : (results v).throws = true) :
    scanFrom g results s = [v] := by
  unfold scanFrom
  rw [enabledFrom_of_getElem? hv, if_pos hen, scan, if_pos hmark]
  simp only [hstop]
  rfl

/-- Counting the node at the pointer leaves the nodes behind it fresh. -/
private theorem FreshAhead.step {nodeId : Id} (hsched : g.Scheduled) (hfresh : FreshAhead g s)
    (hat : g.sortedNodeIds[s.pointer]? = some nodeId) (hpointer : t.pointer = s.pointer + 1)
    (hcount : ∀ v, v ≠ nodeId → t.nodeExecutionCount v = s.nodeExecutionCount v) :
    FreshAhead g t := by
  intro i v hle hi
  have hne : v ≠ nodeId := by
    rintro rfl
    have hidx := (List.getElem?_inj (List.getElem?_eq_some_iff.mp hi).1 hsched.nodup).mp
      (hi.trans hat.symm)
    omega
  rw [hcount v hne]
  exact hfresh i v (by omega) hi

theorem executedInOrder_append (nodeId : Id) (hdisp : t.dispatched = s.dispatched ++ [nodeId]) :
    executedInOrder g t =
      executedInOrder g s ++ if isEnabled g nodeId then [nodeId] else [] := by
  unfold executedInOrder
  rw [hdisp, List.filter_append, List.filter_singleton]
  cases isEnabled g nodeId <;> rfl

/-- What a pass that goes round again keeps: what was executed, and what the scan still finds. -/
structure ScanStep (g : ExecutionGraphState Id) (results : Assignment Id) (s t : LoopState Id) :
    Prop where
  pointer : t.pointer = s.pointer + 1
  fresh : FreshAhead g t
  executed : executedInOrder g t ++ scanFrom g results t =
    executedInOrder g s ++ scanFrom g results s

/-- **One pass.** Going round again is one step of the scan; ending leaves nothing to scan. -/
theorem dispatchStep_scan (hsched : g.Scheduled) (hback : g.backEdges = [])
    (hfresh : FreshAhead g s) {e : Option LoopEnd}
    (hstep : dispatchStep g results.environment {} s = (t, e)) :
    (e = none → ScanStep g results s t) ∧
    (e ≠ none → executedInOrder g t = executedInOrder g s ++ scanFrom g results s) := by
  have hpass := dispatchStep_eq_pass g hstep
  cases hpass with
  | pastEnd hend =>
    refine ⟨by simp, fun _ => ?_⟩
    have hnil : scanFrom g results s = [] := by
      unfold scanFrom
      rw [enabledFrom_of_pastEnd hend]
      rfl
    rw [hnil, List.append_nil]
  | boundary hb => cases hb
  | @skipped nodeId hat hskip =>
    refine ⟨fun _ => ?_, by simp⟩
    have hout : isEnabled g nodeId = false ∨ nodeId ∉ s.reachable := by
      rcases hskip with hnode | hmark | ⟨hopt, -⟩
      · left
        unfold isEnabled
        rw [hnode]
      · exact .inr hmark
      · cases hopt
    refine ⟨rfl, hfresh.step hsched hat rfl fun _ _ => rfl, ?_⟩
    rw [scanFrom_skip (t := s.next) hat hout rfl rfl]
    rfl
  | limit hat hmax hcount =>
    -- a fresh counter is below every positive limit
    have hzero := hfresh _ _ (Nat.le_refl _) hat
    omega
  | @disabled nodeId node hd hdis =>
    refine ⟨fun _ => ?_, by simp⟩
    have hoff : isEnabled g nodeId = false := by rw [hd.isEnabled, hdis]; rfl
    refine ⟨rfl, ?_, ?_⟩
    · apply hfresh.step hsched hd.atPointer rfl
      intro v hv
      exact Function.update_of_ne hv ..
    · rw [scanFrom_skip (t := (s.beginDispatch nodeId).leaveDisabled nodeId) hd.atPointer
        (.inl hoff) rfl rfl, executedInOrder_append (s := s) nodeId rfl]
      simp [hoff]
  | @threw nodeId node message hd hen hvisit =>
    refine ⟨by simp, fun _ => ?_⟩
    have hon : isEnabled g nodeId = true := by rw [hd.isEnabled, hen]; rfl
    have hid := hsched.nodeMap_id nodeId node hd.known
    have hstop : (results nodeId).throws = true := by
      have hresult : (results nodeId).visit = .threw message := by rw [← hid]; exact hvisit
      cases hr : results nodeId with
      | threw m => rfl
      | returned output nb => rw [hr] at hresult; cases hresult
      | branches written marked => rw [hr] at hresult; cases hresult
    rw [executedInOrder_append (s := s) nodeId rfl, if_pos hon,
      scanFrom_throw hd.atPointer hon hd.reachable hstop]
  | @released nodeId node hd hen hvisit =>
    have hresult : (results node.id).visit = .parkReleased := hvisit
    cases hr : results node.id <;> rw [hr] at hresult <;> cases hresult
  | single hd hen hvisit hsingle => cases hsingle
  | @parked nodeId node committed hd hen hvisit hwait hpark =>
    have hresult : (results node.id).visit = .ran committed := hvisit
    cases hr : results node.id with
    | threw m => rw [hr] at hresult; cases hresult
    | branches written marked => rw [hr] at hresult; cases hresult
    | returned output nb =>
      rw [hr] at hresult
      cases hresult
      simp [LoopState.commit, nb] at hwait
  | @left nodeId node committed hd hen hvisit hgo =>
    refine ⟨fun _ => ?_, by simp⟩
    have hon : isEnabled g nodeId = true := by rw [hd.isEnabled, hen]; rfl
    have hid := hsched.nodeMap_id nodeId node hd.known
    have hresult : (results nodeId).visit = .ran committed := by rw [← hid]; exact hvisit
    cases hr : results nodeId with
    | threw m => rw [hr] at hresult; cases hresult
    | branches written marked => rw [hr] at hresult; cases hresult
    | returned output nb =>
      rw [hr] at hresult
      cases hresult
      rw [leaveNode_acyclic hback]
      refine ⟨rfl, ?_, ?_⟩
      · apply hfresh.step hsched hd.atPointer rfl
        intro v hv
        exact Function.update_of_ne hv ..
      · rw [executedInOrder_append (s := s) nodeId rfl, if_pos hon, List.append_assoc,
          scanFrom_visit (t := ((s.beginDispatch nodeId).commit nodeId (some output)).leaveNode g
            nodeId) hd.atPointer hon hd.reachable (by rw [hr]; rfl)]
        · rw [leaveNode_acyclic hback]
          rfl
        · rw [leaveNode_acyclic hback]
          rfl
        · rw [hr, leaveNode_acyclic hback]
          simp [propagateReachability, LoopState.commit, HandlerResult.targets]
  | @parallel nodeId node written marked hd hen hvisit =>
    refine ⟨fun _ => ?_, by simp⟩
    have hon : isEnabled g nodeId = true := by rw [hd.isEnabled, hen]; rfl
    have hid := hsched.nodeMap_id nodeId node hd.known
    have hresult : (results nodeId).visit = .ranParallel written marked := by
      rw [← hid]; exact hvisit
    cases hr : results nodeId with
    | threw m => rw [hr] at hresult; cases hresult
    | returned output nb => rw [hr] at hresult; cases hresult
    | branches written' marked' =>
      rw [hr] at hresult
      cases hresult
      refine ⟨by simp, ?_, ?_⟩
      · apply hfresh.step hsched hd.atPointer (by simp)
        intro v hv
        rw [leaveParallel_count]
        exact Function.update_of_ne hv ..
      · rw [executedInOrder_append (s := s) nodeId (by simp), if_pos hon,
          List.append_assoc,
          scanFrom_visit (t := (s.beginDispatch nodeId).leaveParallel nodeId written marked)
            hd.atPointer hon hd.reachable (by rw [hr]; rfl) (by simp)]
        · rfl
        · rw [hr]
          simp [HandlerResult.targets]

/-- **A whole run** from fresh counters ends, and executes exactly what the scan visits. -/
theorem exists_endsIn (hsched : g.Scheduled) (hback : g.backEdges = []) (results : Assignment Id)
    (hfresh : FreshAhead g s) : ∃ u, EndsIn g results.environment s u ∧
      executedInOrder g u = executedInOrder g s ++ scanFrom g results s := by
  -- executed so far plus still to be scanned is the same before every pass
  have hpass : ∀ s₁ t₁, (FreshAhead g s₁ ∧ executedInOrder g s₁ ++ scanFrom g results s₁ =
        executedInOrder g s ++ scanFrom g results s) →
      dispatchStep g results.environment {} s₁ = (t₁, none) →
      (FreshAhead g t₁ ∧ executedInOrder g t₁ ++ scanFrom g results t₁ =
        executedInOrder g s ++ scanFrom g results s) ∧
      g.sortedNodeIds.length - t₁.pointer < g.sortedNodeIds.length - s₁.pointer := by
    intro s₁ t₁ hs₁ hstep
    have hscan := (dispatchStep_scan hsched hback hs₁.1 hstep).1 rfl
    refine ⟨⟨hscan.fresh, hscan.executed.trans hs₁.2⟩, ?_⟩
    have hlt : s₁.pointer < g.sortedNodeIds.length := by
      by_contra hge
      have hend : g.sortedNodeIds[s₁.pointer]? = none := List.getElem?_eq_none_iff.mpr (by omega)
      unfold dispatchStep at hstep
      rw [hend] at hstep
      cases hstep
    have hpointer := hscan.pointer
    omega
  obtain ⟨t, u, e, -, ⟨hfresh', hscan⟩, hend, hrun⟩ := runLoop_of_rank
    (fun t => g.sortedNodeIds.length - t.pointer) hpass
    (g.sortedNodeIds.length - s.pointer + 1) s ⟨hfresh, rfl⟩ (by omega)
  refine ⟨u, ⟨_, e, hrun⟩, ?_⟩
  rw [(dispatchStep_scan hsched hback hfresh' hend).2 (by simp), hscan]

/-! ## 4. Up to the park the two runs agree -/

variable {waitingId : Id} {waiting output : FlatValue} (nonBlocking : isWaiting output = false)

/-- A pass that does not park does not depend on what the waiting node will return. -/
private theorem dispatchStep_complete (hsched : g.Scheduled) (hwaiting : isWaiting waiting = true)
    (hstep : dispatchStep g (results.blockingEnvironment waitingId waiting) {} s = (t, none)) :
    dispatchStep g (results.complete waitingId output nonBlocking).environment {} s =
      (t, none) := by
  rw [← hstep]
  symm
  apply dispatchStep_congr
  · rfl
  · intro nodeId node hd hen
    have hid := hsched.nodeMap_id nodeId node hd.known
    have hne : node.id ≠ waitingId := by
      intro heq
      -- the waiting node would have parked
      rw [dispatchStep_of_dispatches g hd hen] at hstep
      simp [visitNode, Assignment.blockingEnvironment, heq, LoopState.commit, hwaiting]
        at hstep
    have hexec : (results.blockingEnvironment waitingId waiting).execute
        (s.beginDispatch nodeId) node =
        (results.complete waitingId output nonBlocking).environment.execute
          (s.beginDispatch nodeId) node := by
      simp [Assignment.blockingEnvironment, Assignment.environment, Assignment.complete, hne]
    unfold visitNode
    rw [hexec]
    rfl

/-- The pass that parks dispatches the waiting node. -/
private theorem dispatchStep_parked (hsched : g.Scheduled) {p : LoopState Id}
    (hstep : dispatchStep g (results.blockingEnvironment waitingId waiting) {} s =
      (p, some .parked)) :
    ∃ node, Dispatches g (results.blockingEnvironment waitingId waiting) {} s waitingId node ∧
      node.isDisabled = false ∧ isWaiting waiting = true ∧
      p = (s.beginDispatch waitingId).commit waitingId (some waiting) := by
  have hpass := dispatchStep_eq_pass g hstep
  cases hpass with
  | @released nodeId node hd hen hvisit =>
    simp only [Assignment.blockingEnvironment] at hvisit
    split at hvisit
    · cases hvisit
    · cases hr : results node.id <;> rw [hr] at hvisit <;> cases hvisit
  | @parked nodeId node committed hd hen hvisit hwait hpark =>
    have hid := hsched.nodeMap_id nodeId node hd.known
    simp only [Assignment.blockingEnvironment] at hvisit
    split at hvisit
    · rename_i heq
      cases hvisit
      have hnode : nodeId = waitingId := hid.symm.trans heq
      subst hnode
      refine ⟨node, hd, hen, ?_, rfl⟩
      simpa [LoopState.commit] using hwait
    · cases hr : results node.id with
      | threw m => rw [hr] at hvisit; cases hvisit
      | branches written marked => rw [hr] at hvisit; cases hvisit
      | returned output nb =>
        rw [hr] at hvisit
        cases hvisit
        simp [LoopState.commit, nb] at hwait

theorem freshAhead_initial (reachable : Finset Id) : FreshAhead g (.initial reachable) :=
  fun _ _ _ _ => rfl

/-- The state at the park is one pass of the uninterrupted run away from the state before the
waiting node. -/
private theorem exists_state_before_park (hsched : g.Scheduled) (hback : g.backEdges = [])
    {fuel : Nat} {s₀ p : LoopState Id} (hfresh : FreshAhead g s₀)
    (hpark : runNodeDispatchLoop g (results.blockingEnvironment waitingId waiting) {} fuel s₀ =
      (p, some .parked)) :
    ∃ t node, Reaches (dispatchStep g
          (results.complete waitingId output nonBlocking).environment {}) s₀ t ∧
      FreshAhead g t ∧
      Dispatches g (results.blockingEnvironment waitingId waiting) {} t waitingId node ∧
      node.isDisabled = false ∧
      p = (t.beginDispatch waitingId).commit waitingId (some waiting) := by
  obtain ⟨t, hreach, hlast⟩ := exists_last_pass hpark
  obtain ⟨node, hd, hen, hwaiting, hp⟩ := dispatchStep_parked hsched hlast
  have hlive : Reaches (dispatchStep g
      (results.complete waitingId output nonBlocking).environment {}) s₀ t := by
    apply Relation.ReflTransGen.mono ?_ _ _ hreach
    intro a b hstep
    exact dispatchStep_complete nonBlocking hsched hwaiting hstep
  refine ⟨t, node, hlive, ?_, hd, hen, hp⟩
  apply hlive.invariant ?_ hfresh
  intro a b ha hstep
  exact ((dispatchStep_scan hsched hback ha hstep).1 rfl).fresh

/-! ## 5. Park and resume -/

/-- The marks with which the uninterrupted run passes the waiting node. -/
def liveMarks (g : ExecutionGraphState Id) (p : LoopState Id) (nodeId : Id) (output : FlatValue) :
    Finset Id :=
  p.reachable ∪ (activatedTargets g output.value nodeId).toFinset

/-- The marks with which the resumed run starts. -/
def resumedMarks (g : ExecutionGraphState Id) (context : RestoredContext Id) (nodeId : Id)
    (output : FlatValue) : Finset Id :=
  insert nodeId (seedInitialReachability g [] ∪ context.executedNodes) ∪
    (activatedTargets g output.value nodeId).toFinset

/-- Every mark beyond the waiting node survives the park, in one of three ways: it is among the
resumed marks, a node after the waiting node sets it again, or it does not matter because a node
before it throws.  And the restored executed nodes bring no mark that the run did not have. -/
structure MarksSurvive (g : ExecutionGraphState Id) (results : Assignment Id)
    (p : LoopState Id) (context : RestoredContext Id) (nodeId : Id) (output : FlatValue) :
    Prop where
  notLost : ∀ v ∈ enabledFrom g (g.sortedNodeIds.idxOf nodeId + 1),
    v ∈ liveMarks g p nodeId output →
    CarriedOrStopped (fun u => (results u).targets g u) (fun u => (results u).throws)
      (enabledFrom g (g.sortedNodeIds.idxOf nodeId + 1)) (resumedMarks g context nodeId output) v
  notAdded : ∀ v ∈ enabledFrom g (g.sortedNodeIds.idxOf nodeId + 1),
    v ∈ resumedMarks g context nodeId output →
    CarriedOrStopped (fun u => (results u).targets g u) (fun u => (results u).throws)
      (enabledFrom g (g.sortedNodeIds.idxOf nodeId + 1)) (liveMarks g p nodeId output) v

theorem nodup_enabledFrom (hsched : g.Scheduled) (position : Nat) :
    (enabledFrom g position).Nodup := by
  unfold enabledFrom
  apply List.Nodup.filter
  exact hsched.nodup.sublist (List.drop_sublist _ _)

/-- What a successful `resumeFromCheckpoint` starts from. -/
theorem resumeFromCheckpoint_ok {workflowId : String} {context : RestoredContext Id}
    {node : Node Id} (h : resumeFromCheckpoint g workflowId context node = .ok s) :
    s.pointer = g.sortedNodeIds.idxOf node.id ∧
    s.reachable = insert node.id (seedInitialReachability g [] ∪ context.executedNodes) ∧
    (∀ v, s.nodeExecutionCount v = 0) ∧ s.dispatched = [] := by
  simp only [resumeFromCheckpoint] at h
  split at h
  · cases h
  · split at h
    · cases h
    · cases hindex : g.sortedIndex node.id with
      | none =>
        rw [hindex] at h
        cases h
      | some i =>
        rw [hindex] at h
        cases h
        unfold ExecutionGraphState.sortedIndex at hindex
        split at hindex
        · cases hindex
          exact ⟨rfl, rfl, fun _ => rfl, rfl⟩
        · cases hindex

/-- **Park and resume.** The uninterrupted run and the resumed run both end, and the resumed one
executes the same nodes in the same order as the uninterrupted one after the waiting node exactly
when the marks survive. -/
theorem resume_transparent_iff {nodes : List (Node Id)} {edges : List (GraphEdge Id)}
    {maxNodeIterations : Nat} (hg : loadAndBuildGraph nodes edges maxNodeIterations = .ok g)
    (hacyclic : Acyclic nodes edges) (results : Assignment Id) {node : Node Id} {fuel : Nat}
    {p : LoopState Id}
    (hpark : runNodeDispatchLoop g (results.blockingEnvironment node.id waiting) {} fuel
      (.initial (seedInitialReachability g [])) = (p, some .parked))
    {workflowId : String} {context : RestoredContext Id}
    (hresume : resumeFromCheckpoint g workflowId context node = .ok s) :
    ∃ u r after,
      EndsIn g (results.complete node.id output nonBlocking).environment
        (.initial (seedInitialReachability g [])) u ∧
      EndsIn g (results.complete node.id output nonBlocking).environment
        (s.completeTurn g node.id output) r ∧
      executedInOrder g u = executedInOrder g p ++ after ∧
      (executedInOrder g r = after ↔
        MarksSurvive g (results.complete node.id output nonBlocking) p context node.id
          output) := by
  have hsched := (loadAndBuildGraph_scheduled hg).1
  have hback := loadAndBuildGraph_acyclic hg hacyclic
  set live := results.complete node.id output nonBlocking with hlive
  have hself : live node.id = .returned output nonBlocking := Function.update_self ..
  -- the uninterrupted run, cut at the waiting node
  obtain ⟨t, row, hreach, hfresh, hd, hen, hp⟩ :=
    exists_state_before_park nonBlocking hsched hback
      (freshAhead_initial _) hpark
  have hon : isEnabled g node.id = true := by
    rw [hd.isEnabled, hen]
    rfl
  obtain ⟨u, ⟨fuel', e, hrun⟩, hexec⟩ := exists_endsIn hsched hback live hfresh
  obtain ⟨fuel'', hwhole⟩ := hreach.runLoop hrun
  have hposition : t.pointer = g.sortedNodeIds.idxOf node.id := by
    obtain ⟨hlt, hget⟩ := List.getElem?_eq_some_iff.mp hd.atPointer
    rw [← hget, hsched.nodup.idxOf_getElem]
  set rest := enabledFrom g (g.sortedNodeIds.idxOf node.id + 1) with hrest
  have hafter : scanFrom g live t = node.id :: scan (fun v => (live v).targets g v)
      (fun v => (live v).throws) rest (liveMarks g p node.id output) := by
    unfold scanFrom
    rw [enabledFrom_of_getElem? hd.atPointer, if_pos hon, scan, if_pos hd.reachable, hself,
      hposition]
    subst hp
    rfl
  -- the resumed run
  obtain ⟨hpointer, hmarks, hcount, hdisp⟩ := resumeFromCheckpoint_ok hresume
  have hturn : s.completeTurn g node.id output = { (s.commit node.id (some output)).next with
      reachable := propagateReachability g (s.commit node.id (some output)).nodeOutputCache node.id
        s.reachable } := leaveNode_acyclic hback _ _
  obtain ⟨r, hresumed, hexec'⟩ := exists_endsIn (s := s.completeTurn g node.id output) hsched hback
    live (by
      rw [hturn]
      intro i v _ _
      exact hcount v)
  have hscan : scanFrom g live (s.completeTurn g node.id output) =
      scan (fun v => (live v).targets g v) (fun v => (live v).throws) rest
        (resumedMarks g context node.id output) := by
    unfold scanFrom
    rw [hturn]
    simp [hrest, hpointer, hmarks, resumedMarks, propagateReachability, LoopState.commit,
      LoopState.next]
  have hnone : executedInOrder g (s.completeTurn g node.id output) = [] := by
    rw [hturn]
    simp [executedInOrder, hdisp]
  refine ⟨u, r, scan (fun v => (live v).targets g v) (fun v => (live v).throws) rest
    (liveMarks g p node.id output), ⟨fuel'', e, hwhole⟩, hresumed, ?_, ?_⟩
  · have hparked : executedInOrder g p = executedInOrder g t ++ [node.id] := by
      subst hp
      rw [executedInOrder_append (s := t) node.id rfl, if_pos hon]
    rw [hexec, hafter, hparked, List.append_assoc]
    rfl
  · rw [hexec', hscan, hnone, List.nil_append, eq_comm, scan_eq_iff (nodup_enabledFrom hsched _)]
    constructor
    · rintro ⟨hlost, hadded⟩
      exact ⟨hlost, hadded⟩
    · intro h
      exact ⟨h.notLost, h.notAdded⟩

/-! ## 6. A fork around the waiting node

`start` opens both `form` and `log`; `form` parks and leads to `log` on port `done`.  When the
submitted form selects another port, only the mark set by `start` leads to `log`.
-/

def forkNodes : List (Node String) :=
  [{ id := "start", type := "manual_trigger", category := .trigger, label := "Start" },
   { id := "form", type := "form", category := .presentation, label := "Form" },
   { id := "log", type := "code", category := .logic, label := "Log" }]

def forkEdges : List (GraphEdge String) :=
  [⟨"start", "out", "form", "in"⟩, ⟨"start", "out", "log", "in"⟩, ⟨"form", "done", "log", "in"⟩]

def forkGraph : ExecutionGraphState String where
  graphEdges := forkEdges
  forwardEdges := forkEdges
  backEdges := []
  sortedNodeIds := ["start", "form", "log"]
  nodeMap := nodeMapOf forkNodes
  maxNodeIterations := 100

def formNode : Node String :=
  { id := "form", type := "form", category := .presentation, label := "Form" }

def waitingForm : FlatValue := { value := .obj [("status", .str "waiting_for_input")] }

def submittedForm (selectedPort : String) : FlatValue :=
  { value := .obj [("_selectedPort", .str selectedPort)] }

/-- Every other node returns an empty object. -/
def forkResults : Assignment String := fun _ => .returned { value := .obj [] } rfl

/-- The state in which the fork parks. -/
def forkParked : LoopState String :=
  (runNodeDispatchLoop forkGraph (forkResults.blockingEnvironment "form" waitingForm) {} 2
    (.initial (seedInitialReachability forkGraph []))).1

/-- Everything is restored: the output cache, and the executed nodes before the waiting one. -/
def forkContext : RestoredContext String where
  nodeOutputCache := forkParked.nodeOutputCache
  executedNodes := forkParked.executedNodes.erase "form"

def forkResumed : LoopState String :=
  { LoopState.initial
      (insert "form" (seedInitialReachability forkGraph [] ∪ forkContext.executedNodes)) with
    pointer := 1
    nodeOutputCache := forkContext.nodeOutputCache
    executedNodes := forkContext.executedNodes }

theorem loadAndBuildGraph_fork : loadAndBuildGraph forkNodes forkEdges 100 = .ok forkGraph := rfl

theorem acyclic_fork : Acyclic forkNodes forkEdges := by
  apply acyclic_of_ranked fun id => ["start", "form", "log"].idxOf id
  decide

theorem resumeFromCheckpoint_fork (workflowId : String) :
    resumeFromCheckpoint forkGraph workflowId forkContext formNode = .ok forkResumed := rfl

theorem resume_transparent_iff_fork : ∃ u r after,
    EndsIn forkGraph (forkResults.complete "form" (submittedForm "done") rfl).environment
      (.initial (seedInitialReachability forkGraph [])) u ∧
    EndsIn forkGraph (forkResults.complete "form" (submittedForm "done") rfl).environment
      (forkResumed.completeTurn forkGraph "form" (submittedForm "done")) r ∧
    executedInOrder forkGraph u = executedInOrder forkGraph forkParked ++ after ∧
    (executedInOrder forkGraph r = after ↔
      MarksSurvive forkGraph (forkResults.complete "form" (submittedForm "done") rfl) forkParked
        forkContext "form" (submittedForm "done")) :=
  resume_transparent_iff (s := forkResumed) rfl loadAndBuildGraph_fork acyclic_fork forkResults
    (show runNodeDispatchLoop forkGraph (forkResults.blockingEnvironment formNode.id waitingForm) {}
      2 (.initial (seedInitialReachability forkGraph [])) = (forkParked, some .parked) from
      Prod.ext rfl (by decide)) (resumeFromCheckpoint_fork "")

/-- `form` selects no edge when it is submitted: the uninterrupted run still reaches `log`. -/
def skippingResults : Assignment String := forkResults.complete "form" (submittedForm "skip") rfl

def forkLive : LoopState String :=
  (runNodeDispatchLoop forkGraph skippingResults.environment {} 4
    (.initial (seedInitialReachability forkGraph []))).1

def forkAfterResume : LoopState String :=
  (runNodeDispatchLoop forkGraph skippingResults.environment {} 2
    (forkResumed.completeTurn forkGraph "form" (submittedForm "skip"))).1

/-- Park and resume is not transparent: the resumed run loses `log`. -/
theorem resume_not_transparent :
    ¬ ∀ (nodes : List (Node String)) (edges : List (GraphEdge String)) (maxNodeIterations : Nat)
        (g : ExecutionGraphState String) (results : Assignment String) (node : Node String)
        (waiting output : FlatValue) (nonBlocking : isWaiting output = false) (fuel : Nat)
        (workflowId : String) (context : RestoredContext String) (p s u r : LoopState String),
      loadAndBuildGraph nodes edges maxNodeIterations = .ok g → Acyclic nodes edges →
      runNodeDispatchLoop g (results.blockingEnvironment node.id waiting) {} fuel
        (.initial (seedInitialReachability g [])) = (p, some .parked) →
      context.nodeOutputCache = p.nodeOutputCache →
      context.executedNodes = p.executedNodes.erase node.id →
      resumeFromCheckpoint g workflowId context node = .ok s →
      EndsIn g (results.complete node.id output nonBlocking).environment
        (.initial (seedInitialReachability g [])) u →
      EndsIn g (results.complete node.id output nonBlocking).environment
        (s.completeTurn g node.id output) r →
      executedInOrder g u = executedInOrder g p ++ executedInOrder g r := by
  intro h
  have hpark : runNodeDispatchLoop forkGraph
      (forkResults.blockingEnvironment formNode.id waitingForm) {} 2
      (.initial (seedInitialReachability forkGraph [])) = (forkParked, some .parked) :=
    Prod.ext rfl (by decide)
  have hlive : EndsIn forkGraph skippingResults.environment
      (.initial (seedInitialReachability forkGraph [])) forkLive :=
    ⟨4, .completed, Prod.ext rfl (by decide)⟩
  have hresumed : EndsIn forkGraph skippingResults.environment
      (forkResumed.completeTurn forkGraph "form" (submittedForm "skip")) forkAfterResume :=
    ⟨2, .completed, Prod.ext rfl (by decide)⟩
  have heq := h forkNodes forkEdges 100 forkGraph forkResults formNode waitingForm
    (submittedForm "skip") rfl 2 "" forkContext forkParked forkResumed forkLive forkAfterResume
    loadAndBuildGraph_fork acyclic_fork hpark rfl rfl (resumeFromCheckpoint_fork "") hlive hresumed
  -- start, form, log against start, form
  revert heq
  decide

end Clemvion.Engine
