import Clemvion.Workflows.CanvasRuns

/-!
# CanvasVersions — a version is the canvas that was saved, and a restore brings it back

A version is written once, by the save that it records, and no request changes it afterwards.  What a
restore does not bring back: a node that is there keeps its type and category, a missing description
keeps the one there is, and references to integrations that the workflow may not use are cleared.
-/

namespace Clemvion.Workflows

open Common Js

variable {uuid : Type} [DecidableEq uuid] {s s' : Store uuid} {id w v workspaceId userId : uuid}
  {rows nodes : List (Node uuid)} {edges links : List (Edge uuid)} {gates : CanvasGates uuid}
  {drawn : DrawnIds uuid}

/-! ## 1. Versions are written once -/

/-- The version has the canvas of its workflow. -/
structure Recorded (s : Store uuid) (version : WorkflowVersion uuid) : Prop where
  nodes : ∀ d, d ∈ version.snapshot.nodes ↔ d ∈ (s.nodesOf version.workflowId).map Node.snapshot
  edges : version.snapshot.edges = (s.edgesOf version.workflowId).map Edge.snapshot

theorem CanvasWritten.recorded {dtos : List (CanvasNode uuid)} {dtoEdges : List (CanvasEdge uuid)}
    {edgeIds : Nat → uuid} {version : WorkflowVersion uuid}
    (h : CanvasWritten s s' w dtos dtoEdges edgeIds version) : Recorded s' version := by
  refine ⟨fun d => ?_, ?_⟩
  · rw [h.snapshotNodes, h.home, List.mem_map, List.mem_map]
    simp only [h.own]
  · rw [h.home, h.snapshotEdges]

omit [DecidableEq uuid] in
theorem newCanvas_versions {row : Workflow uuid} (h : NewCanvas s s' row rows links) :
    s'.versions = s.versions := by
  rw [h.result]

/-- What a request does to the versions: it records the canvas that it has written, or adds none. -/
theorem CanvasCall.run_versions (c : CanvasCall uuid) (hs : CanvasOk s) (h : c.run s = .ok s') :
    (∃ version, s'.versions = s.versions ++ [version] ∧ Recorded s' version) ∨
      ∀ version ∈ s'.versions, version ∈ s.versions := by
  have hsame : ∀ {t : Store uuid}, t.versions = s.versions →
      (∃ version, t.versions = s.versions ++ [version] ∧ Recorded t version) ∨
        ∀ version ∈ t.versions, version ∈ s.versions := fun heq => .inr fun _ hv => heq ▸ hv
  unfold CanvasCall.run at h
  cases hrequest : c.request with
  | create workspaceId userId dto =>
    rw [hrequest] at h
    simp only [Workflows.create, bind_eq_ok_iff] at h
    obtain ⟨-, -, s₁, hworkflow, hnodes⟩ := h
    obtain ⟨-, rfl⟩ := insertWorkflow_eq_ok_iff.mp hworkflow
    obtain ⟨-, -, rfl⟩ := insertNodes_eq_ok_iff.mp hnodes
    exact hsame rfl
  | saveCanvas id workspaceId userId dto =>
    rw [hrequest] at h
    obtain ⟨dtos, version, -, hwritten⟩ := writeCanvas_written hs h
    exact .inl ⟨version, hwritten.versions, hwritten.recorded⟩
  | restoreVersion id workspaceId versionId userId =>
    rw [hrequest] at h
    simp only [Workflows.restoreVersion, bind_eq_ok_iff] at h
    obtain ⟨_, -, target, -, hwrite⟩ := h
    obtain ⟨dtos, version, -, hwritten⟩ := writeCanvas_written hs hwrite
    exact .inl ⟨version, hwritten.versions, hwritten.recorded⟩
  | duplicate id workspaceId userId =>
    rw [hrequest] at h
    simp only [Workflows.duplicate, bind_eq_ok_iff] at h
    obtain ⟨original, -, s₁, hworkflow, s₂, hnodes, hedges⟩ := h
    exact hsame (newCanvas_versions (newCanvas_of_insert hworkflow hnodes hedges))
  | importWorkflow workspaceId userId dto =>
    rw [hrequest] at h
    dsimp only at h
    split_ifs at h
    simp only [Workflows.importWorkflow, bind_eq_ok_iff] at h
    obtain ⟨-, -, _, -, s₁, hworkflow, s₂, hnodes, hedges⟩ := h
    exact hsame (newCanvas_versions (newCanvas_of_insert hworkflow hnodes hedges))
  | remove id workspaceId =>
    rw [hrequest] at h
    simp only [Workflows.remove, bind_eq_ok_iff] at h
    obtain ⟨workflow, -, hpure⟩ := h
    rw [← Except.ok.inj hpure]
    exact .inr fun version hv => List.mem_of_mem_filter hv
  | createNode workflowId workspaceId dto =>
    rw [hrequest] at h
    simp only [Workflows.createNode, bind_eq_ok_iff, saveWithUniqueConstraint_eq_ok_iff] at h
    obtain ⟨_, -, _, -, _, -, _, -, hinsert⟩ := h
    obtain ⟨-, -, rfl⟩ := insertNodes_eq_ok_iff.mp hinsert
    exact hsame rfl
  | updateNode id workspaceId dto =>
    rw [hrequest] at h
    simp only [Workflows.updateNode, bind_eq_ok_iff, saveWithUniqueConstraint_eq_ok_iff] at h
    obtain ⟨_, -, _, -, _, -, _, -, hupdate⟩ := h
    obtain ⟨-, rfl⟩ := updateNodes_eq_ok_iff.mp hupdate
    exact hsame rfl
  | removeNode id workspaceId =>
    rw [hrequest] at h
    simp only [Workflows.removeNode, bind_eq_ok_iff] at h
    obtain ⟨_, -, hpure⟩ := h
    rw [← Except.ok.inj hpure]
    exact hsame rfl
  | createEdge workflowId workspaceId dto =>
    rw [hrequest] at h
    simp only [Workflows.createEdge, bind_eq_ok_iff] at h
    obtain ⟨_, -, _, -, _, -, hinsert⟩ := h
    obtain ⟨-, -, -, rfl⟩ := insertEdges_eq_ok_iff.mp hinsert
    exact hsame rfl
  | removeEdge id workspaceId =>
    rw [hrequest] at h
    dsimp only [Workflows.removeEdge] at h
    split at h
    · cases h
    · split_ifs at h
      rw [← Except.ok.inj h]
      exact hsame rfl

theorem storeAfter_append_singleton (calls : List (CanvasCall uuid)) (c : CanvasCall uuid) :
    storeAfter (calls ++ [c]) = ((c.run (storeAfter calls)).toOption.getD (storeAfter calls)) := by
  unfold storeAfter
  rw [List.foldl_append, List.foldl_cons, List.foldl_nil]

/-- Every version is what the workflow was right after the request that has written it. -/
theorem recorded_of_mem (calls : List (CanvasCall uuid)) {version : WorkflowVersion uuid}
    (h : version ∈ (storeAfter calls).versions) :
    ∃ before c, before ++ [c] <+: calls ∧
      (storeAfter (before ++ [c])).versions = (storeAfter before).versions ++ [version] ∧
      Recorded (storeAfter (before ++ [c])) version := by
  induction calls using List.reverseRecOn with
  | nil => cases h
  | append_singleton calls c ih =>
    have hearlier : version ∈ (storeAfter calls).versions → ∃ before c', before ++ [c'] <+: calls ++ [c] ∧
        (storeAfter (before ++ [c'])).versions = (storeAfter before).versions ++ [version] ∧
        Recorded (storeAfter (before ++ [c'])) version := by
      intro hmem
      obtain ⟨before, c', hprefix, hrest⟩ := ih hmem
      exact ⟨before, c', hprefix.trans (List.prefix_append _ _), hrest⟩
    cases hrun : c.run (storeAfter calls) with
    | error e =>
      rw [storeAfter_append_singleton, hrun] at h
      exact hearlier h
    | ok s' =>
      have hafter : storeAfter (calls ++ [c]) = s' := by
        rw [storeAfter_append_singleton, hrun]
        rfl
      obtain ⟨new, hversions, hrecorded⟩ | hold := c.run_versions (canvasOk_after calls) hrun
      · rw [hafter, hversions, List.mem_append, List.mem_singleton] at h
        obtain h | rfl := h
        · exact hearlier h
        · exact ⟨calls, c, List.prefix_refl _, hafter ▸ hversions, hafter ▸ hrecorded⟩
      · exact hearlier (hold version (hafter ▸ h))

/-! ## 2. Restoring -/

/-- What a restore makes of a node of the version, where `current` is the canvas at that time. -/
def restoredNode (gates : CanvasGates uuid) (current : List (Node uuid)) (old : Node uuid) : Node uuid :=
  let restored := { old with config := gates.clearRefs old.snapshot }
  match current.find? fun n => n.id = old.id with
  | some n => { restored with
      type := n.type
      category := n.category
      description := old.description.or n.description }
  | none => restored

@[simp] theorem restoredNode_id (current : List (Node uuid)) (old : Node uuid) :
    (restoredNode gates current old).id = old.id := by
  unfold restoredNode
  cases current.find? fun n => n.id = old.id with
  | none => rfl
  | some n => rfl

omit [DecidableEq uuid] in
theorem assign_assign (n : Node uuid) (d : CanvasNode uuid) : (n.assign d).assign d = n.assign d := by
  unfold Node.assign
  cases d.description with
  | none => rfl
  | some description => rfl

/-- The nodes of the request with the id of the row are all the same one. -/
theorem finalNode_eq_assign {dtos : List (CanvasNode uuid)} {e : Node uuid} {d : CanvasNode uuid}
    (hd : d ∈ dtos) (hid : d.id = e.id) (hsame : ∀ other ∈ dtos, other.id = e.id → other = d) :
    finalNode dtos e = e.assign d := by
  have hcases : ∀ {l : List (CanvasNode uuid)}, (∀ other ∈ l, other.id = e.id → other = d) →
      finalNode l e = e.assign d ∨ d ∉ l ∧ finalNode l e = e := by
    intro l hl
    induction l using List.reverseRecOn with
    | nil => exact .inr ⟨List.not_mem_nil, rfl⟩
    | append_singleton l other ih =>
      have hstep : finalNode (l ++ [other]) e =
          if other.id = e.id then (finalNode l e).assign other else finalNode l e := by
        unfold finalNode
        rw [List.foldl_append, List.foldl_cons, List.foldl_nil]
      have hprevious := ih fun o ho => hl o (List.mem_append_left _ ho)
      rw [hstep]
      split_ifs with hoid
      · rw [hl other (List.mem_append_right _ (List.mem_singleton.mpr rfl)) hoid]
        obtain heq | ⟨-, heq⟩ := hprevious
        · rw [heq, assign_assign]
          exact .inl rfl
        · rw [heq]
          exact .inl rfl
      · obtain heq | ⟨hnot, heq⟩ := hprevious
        · exact .inl heq
        · refine .inr ⟨fun hmem => ?_, heq⟩
          obtain hmem | hmem := List.mem_append.mp hmem
          · exact hnot hmem
          · rw [← List.mem_singleton.mp hmem] at hoid
            exact hoid hid
  exact (hcases hsame).resolve_right fun h => h.1 hd

/-- The node of the version as the restore sends it. -/
def clearedSnapshot (gates : CanvasGates uuid) (old : Node uuid) : CanvasNode uuid :=
  { old.snapshot with config := some (gates.clearRefs old.snapshot) }

theorem mem_nodesToSave_restored {dtos : List (CanvasNode uuid)} {past : List (Node uuid)} {row : Node uuid}
    (hdtos : ∀ d, d ∈ dtos ↔ d ∈ past.map (clearedSnapshot gates)) (hids : (past.map Node.id).Nodup)
    (hpast : ∀ n ∈ past, n.workflowId = w) (hnodes : ∀ n ∈ nodes, n.workflowId = w) :
    row ∈ nodesToSave w dtos nodes ↔ row ∈ past.map (restoredNode gates nodes) := by
  have hrow : ∀ old ∈ past,
      nodeToSave w dtos nodes (clearedSnapshot gates old) = restoredNode gates nodes old := by
    intro old hold
    have hmem : clearedSnapshot gates old ∈ dtos := (hdtos _).mpr (List.mem_map_of_mem hold)
    unfold nodeToSave restoredNode
    rw [show (clearedSnapshot gates old).id = old.id from rfl]
    cases hfind : nodes.find? fun n => n.id = old.id with
    | some n =>
      have hid : n.id = old.id := by simpa using List.find?_some hfind
      have hsame : ∀ other ∈ dtos, other.id = n.id → other = clearedSnapshot gates old := by
        intro other hother hoid
        obtain ⟨old', hold', rfl⟩ := List.mem_map.mp ((hdtos other).mp hother)
        rw [node_eq_of_id hids hold' hold (hoid.trans hid)]
      show finalNode dtos n = _
      rw [finalNode_eq_assign hmem hid.symm hsame]
      have hworkflow : n.workflowId = old.workflowId :=
        (hnodes n (List.mem_of_find?_eq_some hfind)).trans (hpast old hold).symm
      unfold Node.assign clearedSnapshot Node.snapshot
      simp only [hid, hworkflow, Option.getD_some]
    | none =>
      show (clearedSnapshot gates old).newNode w = _
      unfold CanvasNode.newNode clearedSnapshot Node.snapshot
      simp only [← hpast old hold, Option.getD_some]
  unfold nodesToSave
  constructor
  · intro h
    obtain ⟨d, hd, heq⟩ := List.mem_map.mp h
    obtain ⟨old, hold, rfl⟩ := List.mem_map.mp ((hdtos d).mp hd)
    exact List.mem_map.mpr ⟨old, hold, (hrow old hold).symm.trans heq⟩
  · intro h
    obtain ⟨old, hold, heq⟩ := List.mem_map.mp h
    exact List.mem_map.mpr ⟨clearedSnapshot gates old, (hdtos _).mpr (List.mem_map_of_mem hold),
      (hrow old hold).trans heq⟩

omit [DecidableEq uuid] in
/-- An edge is the same edge again, but for its id. -/
theorem snapshot_newEdge (e : Edge uuid) : (e.snapshot.newEdge id w).snapshot = e.snapshot := rfl

theorem findVersion_spec {version : WorkflowVersion uuid} (h : s.findVersion w id = .ok version) :
    version ∈ s.versions ∧ version.id = id ∧ version.workflowId = w := by
  unfold Store.findVersion at h
  cases hfind : s.versions.find? fun v => v.id = id ∧ v.workflowId = w with
  | none =>
    rw [hfind] at h
    cases h
  | some found =>
    rw [hfind] at h
    cases h
    exact ⟨List.mem_of_find?_eq_some hfind, by simpa using List.find?_some hfind⟩

/-- However the workflow was written since, restoring a version of it gives the nodes and the edges that
    it had right after the request which has recorded the version. -/
theorem restoreVersion_restores (calls : List (CanvasCall uuid))
    (h : restoreVersion gates drawn (storeAfter calls) w workspaceId id userId = .ok s') :
    ∃ before c version, before ++ [c] <+: calls ∧ version.id = id ∧
      (storeAfter (before ++ [c])).versions = (storeAfter before).versions ++ [version] ∧
      (s'.nodesOf w).Perm (((storeAfter (before ++ [c])).nodesOf w).map
        (restoredNode gates ((storeAfter calls).nodesOf w))) ∧
      (s'.edgesOf w).map Edge.snapshot = ((storeAfter (before ++ [c])).edgesOf w).map Edge.snapshot := by
  have hs := canvasOk_after calls
  simp only [restoreVersion, bind_eq_ok_iff] at h
  obtain ⟨_, -, version, hfind, hwrite⟩ := h
  obtain ⟨hmem, rfl, rfl⟩ := findVersion_spec hfind
  obtain ⟨before, c, hprefix, hversions, hrecorded⟩ := recorded_of_mem calls hmem
  obtain ⟨dtos, new, hrules, hwritten⟩ := writeCanvas_written hs hwrite
  refine ⟨before, c, version, hprefix, rfl, hversions, ?_, ?_⟩
  · have hpast := canvasOk_after (before ++ [c])
    have hpastIds : (((storeAfter (before ++ [c])).nodesOf version.workflowId).map Node.id).Nodup :=
      hpast.nodeIds.sublist (List.filter_sublist.map _)
    have hdtos : ∀ d, d ∈ dtos ↔
        d ∈ ((storeAfter (before ++ [c])).nodesOf version.workflowId).map (clearedSnapshot gates) := by
      intro d
      rw [applyIntegrationRefRules_spec hrules]
      simp only [List.mem_map, hrecorded.nodes, exists_exists_and_eq_and]
      rfl
    have hsame : ∀ row, row ∈ (s'.nodesOf version.workflowId) ↔
        row ∈ ((storeAfter (before ++ [c])).nodesOf version.workflowId).map
          (restoredNode gates ((storeAfter calls).nodesOf version.workflowId)) := by
      intro row
      rw [hwritten.own]
      exact mem_nodesToSave_restored hdtos hpastIds (fun n hn => (mem_nodesOf_iff.mp hn).2)
        fun n hn => (mem_nodesOf_iff.mp hn).2
    refine (List.perm_ext_iff_of_nodup ?_ ?_).mpr hsame
    · exact (List.Nodup.of_map _ hwritten.nodeIds).filter _
    · refine List.Nodup.of_map Node.id ?_
      rw [List.map_map]
      have hkeeps : Node.id ∘ restoredNode gates ((storeAfter calls).nodesOf version.workflowId) = Node.id :=
        funext fun old => restoredNode_id _ old
      rw [hkeeps]
      exact hpastIds
  · rw [hwritten.edges]
    show ((version.snapshot.edges).mapIdx _).map Edge.snapshot = _
    rw [hrecorded.edges]
    refine List.ext_getElem (by simp) fun i h₁ h₂ => ?_
    simp [snapshot_newEdge]

/-- The loop is deleted by a second save and comes back. -/
theorem restoreVersion_restores_loop :
    let emptied : CanvasCall Nat :=
      ⟨.saveCanvas 10 1 2 ⟨none, [sampleNode 11 manualTriggerType "Start" none], [], none⟩, numberedFrom 30,
        sampleGates⟩
    let calls := sampleCalls ++ [emptied]
    let s' := (restoreVersion sampleGates (numberedFrom 40) (storeAfter calls) 10 1 20 2).toOption.getD .empty
    (s'.nodesOf 10).map Node.id = [11, 6, 5] ∧
      ∃ before c version, before ++ [c] <+: calls ∧ version.id = 20 ∧
        (storeAfter (before ++ [c])).versions = (storeAfter before).versions ++ [version] ∧
        (s'.nodesOf 10).Perm (((storeAfter (before ++ [c])).nodesOf 10).map
          (restoredNode sampleGates ((storeAfter calls).nodesOf 10))) ∧
        (s'.edgesOf 10).map Edge.snapshot = ((storeAfter (before ++ [c])).edgesOf 10).map Edge.snapshot :=
  ⟨by decide, restoreVersion_restores _
    (show restoreVersion sampleGates (numberedFrom 40) _ 10 1 20 2 = .ok _ from rfl)⟩

end Clemvion.Workflows
