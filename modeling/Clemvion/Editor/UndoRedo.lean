import Clemvion.Editor.EditorStore

/-!
# UndoRedo — every canvas action takes one checkpoint

Undo brings back the canvas from before an action exactly when the action pushed one snapshot of
it.  All actions that change the canvas do, the grouped ones with one push for the group, except
that an edge that React Flow reports as removed goes without.
-/

open Clemvion.Js Clemvion.Library

namespace Clemvion.Editor

/-! ## 1. Actions and runs -/

inductive CanvasAction
  | addNode (node : EditorNode)
  | removeNode (id : String)
  | removeEdge (edgeId : String)
  | onEdgesChange (changes : List EdgeChange)
  | onNodesChange (changes : List NodeChange)
  | onConnect (connection : Connection)
  | onReconnect (oldEdge : EditorEdge) (newConnection : Connection)
  | pasteClipboard (anchor : Option Position) (refFilter : IntegrationRefFilterContext)
      (newId : Nat → String)
  | duplicateSelection (refFilter : IntegrationRefFilterContext) (newId : Nat → String)
  | confirmContainerDelete (mode : ContainerDeleteMode)
  | applyAssistantOperation (name : String) (args result : Value)
  /-- A node from the search popup, wired to the port the drag came from. -/
  | addConnectedNode (node : EditorNode) (connection : Connection)
  /-- A node dropped on an edge. -/
  | splitEdge (node : EditorNode) (edgeId : String) (sourceToNew newToTarget : Connection)

variable (deps : StoreDeps)

def perform : CanvasAction → EditorState → EditorState
  | .addNode node, s => addNode node s
  | .removeNode id, s => removeNode deps id s
  | .removeEdge edgeId, s => removeEdge deps edgeId false s
  | .onEdgesChange changes, s => onEdgesChange deps changes s
  | .onNodesChange changes, s => onNodesChange deps changes s
  | .onConnect connection, s => onConnect deps connection false s
  | .onReconnect oldEdge newConnection, s => onReconnect deps oldEdge newConnection s
  | .pasteClipboard anchor refFilter newId, s => pasteClipboard deps anchor refFilter newId s
  | .duplicateSelection refFilter newId, s => duplicateSelection deps refFilter newId s
  | .confirmContainerDelete mode, s => confirmContainerDelete deps mode s
  | .applyAssistantOperation name args result, s => applyAssistantOperation deps name args result s
  | .addConnectedNode node connection, s => onConnect deps connection true (addNode node s)
  | .splitEdge node edgeId sourceToNew newToTarget, s =>
    onConnect deps newToTarget true
      (onConnect deps sourceToNew true (removeEdge deps edgeId true (addNode node s)))

def run (actions : List CanvasAction) (s : EditorState) : EditorState :=
  actions.foldl (fun s a => perform deps a s) s

/-- The condition holds of every action in the state in which it is taken. -/
def EachStep (P : EditorState → CanvasAction → Prop) : EditorState → List CanvasAction → Prop
  | _, [] => True
  | s, a :: actions => P s a ∧ EachStep P (perform deps a s) actions

/-- A change of the canvas; what React Flow reports counts when it removes something. -/
def ChangesCanvas (s : EditorState) (a : CanvasAction) : Prop :=
  (perform deps a s).snapshot ≠ s.snapshot ∧
    match a with
    | .onEdgesChange changes => ∃ id, .remove id ∈ changes
    | .onNodesChange changes => ∃ id, .remove id ∈ changes.filter (allowedNodeChange s.nodes)
    | _ => True

def IsEdgesChange : CanvasAction → Prop
  | .onEdgesChange _ => True
  | _ => False

/-! ## 2. One action -/

/-- One checkpoint of the state before. -/
def Recorded (s s' : EditorState) : Prop := s'.history = s.history.push s.snapshot

variable {deps} {s s' : EditorState} {a : CanvasAction} {connection : Connection}
  {oldEdge : EditorEdge} {changes : List NodeChange} {anchor : Option Position}
  {refFilter : IntegrationRefFilterContext} {newId : Nat → String} {mode : ContainerDeleteMode}
  {name : String} {args result : Value}

theorem recorded_onConnect (h : (onConnect deps connection false s).snapshot ≠ s.snapshot) :
    Recorded s (onConnect deps connection false s) := by
  unfold onConnect at h ⊢
  split
  · rename_i heq
    rw [heq] at h
    exact absurd rfl h
  · rfl

theorem history_onConnect_skip (connection : Connection) (s : EditorState) :
    (onConnect deps connection true s).history = s.history := by
  unfold onConnect
  split <;> rfl

theorem recorded_onReconnect (h : (onReconnect deps oldEdge connection s).snapshot ≠ s.snapshot) :
    Recorded s (onReconnect deps oldEdge connection s) := by
  unfold onReconnect at h ⊢
  split
  · rename_i heq
    rw [heq] at h
    exact absurd rfl h
  · rfl

theorem recorded_pasteClipboard
    (h : (pasteClipboard deps anchor refFilter newId s).snapshot ≠ s.snapshot) :
    Recorded s (pasteClipboard deps anchor refFilter newId s) := by
  unfold pasteClipboard at h ⊢
  cases hclip : s.editorClipboard with
  | none =>
    rw [hclip] at h
    exact absurd rfl h
  | some clip =>
    rw [hclip] at h
    dsimp only at h ⊢
    split_ifs at h ⊢ with hnodes
    · exact absurd rfl h
    · rfl

theorem recorded_duplicateSelection
    (h : (duplicateSelection deps refFilter newId s).snapshot ≠ s.snapshot) :
    Recorded s (duplicateSelection deps refFilter newId s) := by
  unfold duplicateSelection at h ⊢
  split_ifs at h ⊢ with hselected
  · exact absurd rfl h
  · rfl

theorem recorded_confirmContainerDelete
    (h : (confirmContainerDelete deps mode s).snapshot ≠ s.snapshot) :
    Recorded s (confirmContainerDelete deps mode s) := by
  unfold confirmContainerDelete at h ⊢
  cases hpending : s.pendingContainerDelete with
  | none =>
    rw [hpending] at h
    exact absurd rfl h
  | some pending => cases mode <;> rfl

/-- A removal that is let through is recorded; other reports leave the history alone. -/
theorem recorded_onNodesChange
    (hremoval : ∃ id, .remove id ∈ changes.filter (allowedNodeChange s.nodes)) :
    Recorded s (onNodesChange deps changes s) := by
  obtain ⟨id, hid⟩ := hremoval
  have hids : (changes.filter (allowedNodeChange s.nodes)).filterMap removedId ≠ [] := by
    intro hnil
    have hmem := List.mem_filterMap.mpr ⟨_, hid, (rfl : removedId (.remove id) = some id)⟩
    rw [hnil] at hmem
    cases hmem
  unfold onNodesChange
  dsimp only
  rw [if_neg (List.ne_nil_of_mem hid), if_pos hids]
  rfl

theorem recorded_assistant
    (h : (applyAssistantOperation deps name args result s).snapshot ≠ s.snapshot) :
    Recorded s (applyAssistantOperation deps name args result s) := by
  unfold applyAssistantOperation at h ⊢
  dsimp only at h ⊢
  split_ifs at h ⊢ with hok hadd hupdate hid hpatch hremove hnode hedge hends hremoveEdge hedgeId
  · exact absurd rfl h
  · cases hresult : result.field "id" with
    | str id =>
      rw [hresult] at h
      dsimp only at h ⊢
      split_ifs at h ⊢ with hempty
      · exact absurd rfl h
      · rfl
    | _ =>
      rw [hresult] at h
      exact absurd rfl h
  · exact absurd rfl h
  · rfl
  · rfl
  · exact absurd rfl h
  · rfl
  · exact absurd rfl h
  · exact recorded_onConnect h
  · exact absurd rfl h
  · rfl
  · exact absurd rfl h

/-- **One action, one checkpoint.** -/
theorem recorded_perform (h : ChangesCanvas deps s a) (ha : ¬ IsEdgesChange a) :
    Recorded s (perform deps a s) := by
  obtain ⟨hchanged, hreported⟩ := h
  cases a with
  | addNode node => rfl
  | removeNode id => rfl
  | removeEdge edgeId => rfl
  | onEdgesChange changes => exact absurd trivial ha
  | onNodesChange changes => exact recorded_onNodesChange hreported
  | onConnect connection => exact recorded_onConnect hchanged
  | onReconnect oldEdge newConnection => exact recorded_onReconnect hchanged
  | pasteClipboard anchor refFilter newId => exact recorded_pasteClipboard hchanged
  | duplicateSelection refFilter newId => exact recorded_duplicateSelection hchanged
  | confirmContainerDelete mode => exact recorded_confirmContainerDelete hchanged
  | applyAssistantOperation name args result => exact recorded_assistant hchanged
  | addConnectedNode node connection => exact history_onConnect_skip connection _
  | splitEdge node edgeId sourceToNew newToTarget =>
    -- the push of `addNode` stands for the whole group
    exact (history_onConnect_skip newToTarget _).trans (history_onConnect_skip sourceToNew _)

/-! ## 3. Runs -/

/-- The canvas before each action of a run. -/
def snapshotsBefore (deps : StoreDeps) : EditorState → List CanvasAction → List Snapshot
  | _, [] => []
  | s, a :: actions => s.snapshot :: snapshotsBefore deps (perform deps a s) actions

theorem length_snapshotsBefore (actions : List CanvasAction) (s : EditorState) :
    (snapshotsBefore deps s actions).length = actions.length := by
  induction actions generalizing s with
  | nil => rfl
  | cons a actions ih => exact congrArg (· + 1) (ih _)

theorem run_append (before last : List CanvasAction) (s : EditorState) :
    run deps (before ++ last) s = run deps last (run deps before s) := List.foldl_append

theorem EachStep.append {P : EditorState → CanvasAction → Prop} {before last : List CanvasAction}
    (h : EachStep deps P s (before ++ last)) : EachStep deps P (run deps before s) last := by
  induction before generalizing s with
  | nil => exact h
  | cons a before ih => exact ih h.2

theorem EachStep.mono {P Q : EditorState → CanvasAction → Prop} {actions : List CanvasAction}
    (h : EachStep deps P s actions) (hPQ : ∀ s a, P s a → Q s a) : EachStep deps Q s actions := by
  induction actions generalizing s with
  | nil => trivial
  | cons a actions ih => exact ⟨hPQ s a h.1, ih h.2⟩

/-- What a run of recorded actions leaves in the history: its own snapshots over the older ones,
    cut at the bound. -/
theorem recent_run {actions : List CanvasAction}
    (h : EachStep deps (fun s a => Recorded s (perform deps a s)) s actions) :
    (run deps actions s).history.recent =
      ((snapshotsBefore deps s actions).reverse ++ s.history.recent).take MAX_UNDO := by
  induction actions generalizing s with
  | nil =>
    have hfit : s.history.recent.length ≤ MAX_UNDO := by
      have hbound := s.history.bounded
      rw [Timeline.recent, List.length_reverse]
      omega
    exact (List.take_of_length_le hfit).symm
  | cons a actions ih =>
    obtain ⟨hstep, hrest⟩ := h
    have hfirst : (perform deps a s).history.recent =
        (s.snapshot :: s.history.recent).take MAX_UNDO := by
      rw [hstep, Timeline.recent_push]
    show (run deps actions (perform deps a s)).history.recent = _
    rw [ih hrest, hfirst]
    show _ = ((s.snapshot :: snapshotsBefore deps (perform deps a s) actions).reverse ++
      s.history.recent).take MAX_UNDO
    rw [List.reverse_cons, List.append_assoc, List.singleton_append, List.take_append,
      List.take_append, List.take_take]
    congr 2
    omega

/-- Undo and redo move along the timeline. -/
def EditorState.moment (s : EditorState) : Timeline.Moment Snapshot MAX_UNDO := (s.snapshot, s.history)

theorem moment_undo (s : EditorState) : (undo s).moment = Timeline.back s.moment := by
  unfold undo Timeline.back EditorState.moment
  cases h : s.history.undo? s.snapshot <;> rfl

theorem moment_redo (s : EditorState) : (redo s).moment = Timeline.forward s.moment := by
  unfold redo Timeline.forward EditorState.moment
  cases h : s.history.redo? s.snapshot <;> rfl

theorem moment_undo_iterate (k : Nat) (s : EditorState) :
    (undo^[k] s).moment = Timeline.back^[k] s.moment := by
  induction k with
  | zero => rfl
  | succ k ih => rw [Function.iterate_succ_apply', Function.iterate_succ_apply', moment_undo, ih]

theorem moment_redo_iterate (k : Nat) (s : EditorState) :
    (redo^[k] s).moment = Timeline.forward^[k] s.moment := by
  induction k with
  | zero => rfl
  | succ k ih => rw [Function.iterate_succ_apply', Function.iterate_succ_apply', moment_redo, ih]

/-- The canvas before the last actions of a recorded run lies that deep in the history. -/
theorem recent_getElem {a : CanvasAction} {last : List CanvasAction}
    (h : EachStep deps (fun s a => Recorded s (perform deps a s)) s (a :: last))
    (hlast : last.length < MAX_UNDO) :
    (run deps (a :: last) s).history.recent[last.length]? = some s.snapshot := by
  rw [recent_run h, List.getElem?_take_of_lt hlast]
  show ((s.snapshot :: snapshotsBefore deps (perform deps a s) last).reverse ++
    s.history.recent)[last.length]? = some s.snapshot
  rw [List.reverse_cons, List.append_assoc, List.getElem?_append_right]
  · rw [List.length_reverse, length_snapshotsBefore, Nat.sub_self]
    rfl
  · rw [List.length_reverse, length_snapshotsBefore]

/-- **Undo and redo.** In a run whose actions all change the canvas, none of them through an edge
    change that React Flow reports, so many undos bring the canvas from before the last actions, and
    as many redos the canvas from before the undos. -/
theorem undo_redo_run {before last : List CanvasAction}
    (h : EachStep deps (fun s a => ChangesCanvas deps s a ∧ ¬ IsEdgesChange a) s (before ++ last))
    (hlast : last.length ≤ MAX_UNDO) :
    (undo^[last.length] (run deps (before ++ last) s)).snapshot = (run deps before s).snapshot ∧
      (redo^[last.length] (undo^[last.length] (run deps (before ++ last) s))).snapshot =
        (run deps (before ++ last) s).snapshot ∧
      ∀ s' : EditorState, s'.history.undoStack.length ≤ MAX_UNDO := by
  have hbound : ∀ s' : EditorState, s'.history.undoStack.length ≤ MAX_UNDO := fun s' =>
    (Nat.le_add_right _ _).trans s'.history.bounded
  have hrecorded : EachStep deps (fun s a => Recorded s (perform deps a s)) (run deps before s) last :=
    h.append.mono fun s a hstep => recorded_perform hstep.1 hstep.2
  rw [run_append]
  cases last with
  | nil => exact ⟨rfl, rfl, hbound⟩
  | cons a last =>
    have hdepth := recent_getElem hrecorded hlast
    have hundo : (undo^[last.length + 1] (run deps (a :: last) (run deps before s))).snapshot =
        (run deps before s).snapshot := by
      have hback := Timeline.back_iterate (m := (run deps (a :: last) (run deps before s)).moment)
        last.length hdepth
      rw [← moment_undo_iterate] at hback
      exact hback
    refine ⟨hundo, ?_, hbound⟩
    have hlength : last.length + 1 ≤
        (run deps (a :: last) (run deps before s)).history.undoStack.length := by
      have hlt := (List.getElem?_eq_some_iff.mp hdepth).1
      rwa [Timeline.recent, List.length_reverse] at hlt
    have hforth := Timeline.forward_back_iterate
      (m := (run deps (a :: last) (run deps before s)).moment) (last.length + 1) hlength
    rw [← moment_undo_iterate, ← moment_redo_iterate] at hforth
    exact congrArg Prod.fst hforth

/-- Two nodes and a wire, all taken back and put there again. -/
theorem undo_redo_wiring :
    (undo^[3] (run plainDeps [.addNode (plainNode "A" "code"), .addNode (plainNode "B" "code"),
        .onConnect ⟨"A", .str "out", "B", .str "in"⟩] {})).snapshot = ⟨[], []⟩ :=
  (@undo_redo_run plainDeps {} [] [.addNode (plainNode "A" "code"), .addNode (plainNode "B" "code"),
      .onConnect ⟨"A", .str "out", "B", .str "in"⟩]
    ⟨⟨⟨by decide +kernel, trivial⟩, id⟩, ⟨⟨by decide +kernel, trivial⟩, id⟩,
      ⟨⟨by decide +kernel, trivial⟩, id⟩, trivial⟩ (by decide)).1

/-- An edge that React Flow reports as removed does not come back. -/
theorem reported_edge_removal_lost : ChangesCanvas plainDeps wired (.onEdgesChange [.remove "e"]) ∧
    (undo (run plainDeps [.onEdgesChange [.remove "e"]] wired)).snapshot ≠ wired.snapshot :=
  ⟨⟨by decide +kernel, "e", List.mem_singleton.mpr rfl⟩, by decide +kernel⟩

end Clemvion.Editor
