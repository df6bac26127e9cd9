import Clemvion.Workflows.WorkflowsService
import Mathlib.Data.List.Induction
import Mathlib.Data.List.Nodup

/-!
# CanvasOk — every canvas is closed, and its labels are distinct

The database neither knows that labels are unique nor checks anything but rows, so these hold because
every request checks them.  One canvas is written at a time, so that each request is about one workflow
and leaves the others alone.
-/

namespace Clemvion.Workflows

open Common Js

variable {uuid : Type} [DecidableEq uuid] {s s' : Store uuid} {id w workspaceId : uuid}
  {rows nodes : List (Node uuid)} {edges links : List (Edge uuid)}

/-! ## 1. The invariant -/

/-- One canvas: distinct labels, references and connections inside of it, and rows as the table wants. -/
structure Closed (nodes : List (Node uuid)) (edges : List (Edge uuid)) : Prop where
  labels : (nodes.map Node.label).Nodup
  containers : ∀ n ∈ nodes, ∀ id ∈ n.containerId, id ∈ nodes.map Node.id
  toolOwners : ∀ n ∈ nodes, ∀ id ∈ n.toolOwnerId, id ∈ nodes.map Node.id
  placed : ∀ n ∈ nodes, n.misplaced = false
  ends : ∀ e ∈ edges, e.sourceNodeId ∈ nodes.map Node.id ∧ e.targetNodeId ∈ nodes.map Node.id ∧
    e.sourceNodeId ≠ e.targetNodeId

structure CanvasOk (s : Store uuid) : Prop where
  workflowIds : (s.workflows.map Workflow.id).Nodup
  nodeIds : (s.nodes.map Node.id).Nodup
  edgeIds : (s.edges.map Edge.id).Nodup
  connections : (s.edges.map Edge.connection).Nodup
  home : ∀ n ∈ s.nodes, n.workflowId ∈ s.workflows.map Workflow.id
  closed : ∀ w, Closed (s.nodesOf w) (s.edgesOf w)
  /-- The versions of a workflow are numbered from one on. -/
  versions : ∀ w, (s.versionsOf w).map WorkflowVersion.version =
    List.range' 1 (s.versionsOf w).length
  versionHome : ∀ v ∈ s.versions, v.workflowId ∈ s.workflows.map Workflow.id

omit [DecidableEq uuid] in
theorem closed_nil : Closed ([] : List (Node uuid)) [] :=
  ⟨List.nodup_nil, fun _ h => (nomatch h), fun _ h => (nomatch h), fun _ h => (nomatch h),
    fun _ h => nomatch h⟩

theorem canvasOk_empty : CanvasOk (Store.empty : Store uuid) :=
  ⟨List.nodup_nil, List.nodup_nil, List.nodup_nil, List.nodup_nil, fun _ h => (nomatch h),
    fun _ => closed_nil, fun _ => rfl, fun _ h => nomatch h⟩

theorem mem_nodesOf_iff {n : Node uuid} : n ∈ s.nodesOf w ↔ n ∈ s.nodes ∧ n.workflowId = w := by
  unfold Store.nodesOf
  rw [List.mem_filter, decide_eq_true_eq]

theorem mem_edgesOf_iff {e : Edge uuid} : e ∈ s.edgesOf w ↔ e ∈ s.edges ∧ e.workflowId = w := by
  unfold Store.edgesOf
  rw [List.mem_filter, decide_eq_true_eq]

omit [DecidableEq uuid] in
theorem node_eq_of_id (h : (nodes.map Node.id).Nodup) {m n : Node uuid} (hm : m ∈ nodes) (hn : n ∈ nodes)
    (hid : m.id = n.id) : m = n := List.inj_on_of_nodup_map h hm hn hid

/-- A node of one workflow is not a node of another one. -/
theorem CanvasOk.workflow_of_id (h : CanvasOk s) {v : uuid} (hw : id ∈ (s.nodesOf w).map Node.id)
    (hv : id ∈ (s.nodesOf v).map Node.id) : w = v := by
  obtain ⟨m, hm, rfl⟩ := List.mem_map.mp hw
  obtain ⟨n, hn, hid⟩ := List.mem_map.mp hv
  rw [mem_nodesOf_iff] at hm hn
  rw [← hm.2, ← hn.2, node_eq_of_id h.nodeIds hn.1 hm.1 hid]

/-- A new canvas is empty. -/
theorem CanvasOk.nodesOf_eq_nil (h : CanvasOk s) (hw : w ∉ s.workflows.map Workflow.id) :
    s.nodesOf w = [] := by
  rw [List.eq_nil_iff_forall_not_mem]
  intro n hn
  rw [mem_nodesOf_iff] at hn
  exact hw (hn.2 ▸ h.home n hn.1)

theorem CanvasOk.edgesOf_eq_nil (h : CanvasOk s) (hw : w ∉ s.workflows.map Workflow.id) :
    s.edgesOf w = [] := by
  rw [List.eq_nil_iff_forall_not_mem]
  intro e he
  have := ((h.closed w).ends e he).1
  rw [h.nodesOf_eq_nil hw] at this
  cases this

/-! ## 2. Statements -/

theorem findById_eq_ok_iff {workflow : Workflow uuid} :
    s.findById id workspaceId = .ok workflow ↔ s.findWorkflow id workspaceId = some workflow := by
  unfold Store.findById
  cases s.findWorkflow id workspaceId with
  | none => simp
  | some found => simp

theorem findWorkflow_spec {workflow : Workflow uuid} (h : s.findWorkflow id workspaceId = some workflow) :
    workflow ∈ s.workflows ∧ workflow.id = id ∧ workflow.workspaceId = workspaceId := by
  unfold Store.findWorkflow at h
  have hfound := List.find?_some h
  rw [decide_eq_true_eq] at hfound
  exact ⟨List.mem_of_find?_eq_some h, hfound⟩

theorem insertWorkflow_eq_ok_iff {row : Workflow uuid} :
    s.insertWorkflow row = .ok s' ↔
      row.id ∉ s.workflows.map Workflow.id ∧ s' = { s with workflows := s.workflows ++ [row] } := by
  unfold Store.insertWorkflow
  split_ifs with h
  · simp [h]
  · simp [h, eq_comm]

theorem insertNodes_eq_ok_iff :
    s.insertNodes rows = .ok s' ↔ ((s.nodes ++ rows).map Node.id).Nodup ∧
      (∀ n ∈ rows, n.misplaced = false) ∧ s' = { s with nodes := s.nodes ++ rows } := by
  unfold Store.insertNodes
  split_ifs with hids hplaced
  · refine iff_of_false (fun h => nomatch h) fun h => ?_
    obtain ⟨n, hn, hbad⟩ := List.any_eq_true.mp hplaced
    rw [h.2.1 n hn] at hbad
    cases hbad
  · constructor
    · intro h
      refine ⟨hids, fun n hn => ?_, (Except.ok.inj h).symm⟩
      rw [Bool.eq_false_iff]
      exact fun hbad => hplaced (List.any_eq_true.mpr ⟨n, hn, hbad⟩)
    · rintro ⟨-, -, rfl⟩
      rfl
  · exact iff_of_false (fun h => nomatch h) fun h => hids h.1

theorem updateNodes_eq_ok_iff :
    s.updateNodes rows = .ok s' ↔ (∀ n ∈ rows, n.misplaced = false) ∧
      s' = { s with nodes := s.nodes.map fun n => (rows.find? fun row => row.id = n.id).getD n } := by
  unfold Store.updateNodes
  split_ifs with hplaced
  · refine iff_of_false (fun h => nomatch h) fun h => ?_
    obtain ⟨n, hn, hbad⟩ := List.any_eq_true.mp hplaced
    rw [h.1 n hn] at hbad
    cases hbad
  · constructor
    · intro h
      refine ⟨fun n hn => ?_, (Except.ok.inj h).symm⟩
      rw [Bool.eq_false_iff]
      exact fun hbad => hplaced (List.any_eq_true.mpr ⟨n, hn, hbad⟩)
    · rintro ⟨-, rfl⟩
      rfl

theorem insertEdges_eq_ok_iff :
    s.insertEdges links = .ok s' ↔ ((s.edges ++ links).map Edge.id).Nodup ∧
      (∀ e ∈ links, e.sourceNodeId ≠ e.targetNodeId) ∧
      ((s.edges ++ links).map Edge.connection).Nodup ∧ s' = { s with edges := s.edges ++ links } := by
  unfold Store.insertEdges
  split_ifs with hids hloop hconnections
  · refine iff_of_false (fun h => nomatch h) fun h => ?_
    obtain ⟨e, he, hbad⟩ := List.any_eq_true.mp hloop
    exact h.2.1 e he (by simpa using hbad)
  · constructor
    · intro h
      refine ⟨hids, fun e he heq => hloop (List.any_eq_true.mpr ⟨e, he, by simpa using heq⟩),
        hconnections, (Except.ok.inj h).symm⟩
    · rintro ⟨-, -, -, rfl⟩
      rfl
  · exact iff_of_false (fun h => nomatch h) fun h => hconnections h.2.2.1
  · exact iff_of_false (fun h => nomatch h) fun h => hids h.1

/-! ## 3. A canvas is replaced -/

/-- What a request may do to the rows: the canvas of `w` becomes another one, the others stay. -/
structure Rewrites (s s' : Store uuid) (w : uuid) (nodes : List (Node uuid)) (edges : List (Edge uuid)) :
    Prop where
  workflows : s'.workflows.map Workflow.id = s.workflows.map Workflow.id ∨
    w ∉ s.workflows.map Workflow.id ∧ s'.workflows.map Workflow.id = s.workflows.map Workflow.id ++ [w]
  listed : w ∈ s'.workflows.map Workflow.id
  nodes : s'.nodesOf w = nodes
  edges : s'.edgesOf w = edges
  otherNodes : ∀ v, v ≠ w → s'.nodesOf v = s.nodesOf v
  otherEdges : ∀ v, v ≠ w → s'.edgesOf v = s.edgesOf v
  versions : s'.versions = s.versions
  nodeIds : (s'.nodes.map Node.id).Nodup
  edgeIds : (s'.edges.map Edge.id).Nodup
  connections : (s'.edges.map Edge.connection).Nodup

theorem Rewrites.canvasOk (h : Rewrites s s' w nodes edges) (hs : CanvasOk s)
    (hclosed : Closed nodes edges) : CanvasOk s' := by
  have hids : ∀ v ∈ s.workflows.map Workflow.id, v ∈ s'.workflows.map Workflow.id := by
    intro v hv
    obtain heq | ⟨-, heq⟩ := h.workflows
    · rwa [heq]
    · rw [heq]
      exact List.mem_append_left _ hv
  refine ⟨?_, h.nodeIds, h.edgeIds, h.connections, fun n hn => ?_, fun v => ?_, fun v => ?_,
    fun v hv => ?_⟩
  · obtain heq | ⟨hnew, heq⟩ := h.workflows
    · rw [heq]
      exact hs.workflowIds
    · rw [heq]
      refine List.Nodup.append hs.workflowIds (List.nodup_singleton _) ?_
      rw [List.disjoint_singleton]
      exact hnew
  · by_cases hw : n.workflowId = w
    · rw [hw]
      exact h.listed
    · have hmem : n ∈ s'.nodesOf n.workflowId := mem_nodesOf_iff.mpr ⟨hn, rfl⟩
      rw [h.otherNodes _ hw, mem_nodesOf_iff] at hmem
      exact hids _ (hs.home n hmem.1)
  · by_cases hw : v = w
    · rw [hw, h.nodes, h.edges]
      exact hclosed
    · rw [h.otherNodes v hw, h.otherEdges v hw]
      exact hs.closed v
  · have hsame : s'.versionsOf v = s.versionsOf v := by
      unfold Store.versionsOf
      rw [h.versions]
    rw [hsame]
    exact hs.versions v
  · rw [h.versions] at hv
    exact hids _ (hs.versionHome v hv)

/-! ## 4. New workflows -/

theorem filter_workflow_self (h : ∀ n ∈ rows, n.workflowId = w) :
    (rows.filter fun n => n.workflowId = w) = rows :=
  List.filter_eq_self.mpr fun n hn => decide_eq_true (h n hn)

theorem filter_workflow_ne {v : uuid} (h : ∀ n ∈ rows, n.workflowId = w) (hv : v ≠ w) :
    (rows.filter fun n => n.workflowId = v) = [] := by
  rw [List.filter_eq_nil_iff]
  intro n hn heq
  rw [decide_eq_true_eq, h n hn] at heq
  exact hv heq.symm

theorem filter_edge_self (h : ∀ e ∈ links, e.workflowId = w) :
    (links.filter fun e => e.workflowId = w) = links :=
  List.filter_eq_self.mpr fun e he => decide_eq_true (h e he)

theorem filter_edge_ne {v : uuid} (h : ∀ e ∈ links, e.workflowId = w) (hv : v ≠ w) :
    (links.filter fun e => e.workflowId = v) = [] := by
  rw [List.filter_eq_nil_iff]
  intro e he heq
  rw [decide_eq_true_eq, h e he] at heq
  exact hv heq.symm

/-- The rows of a new workflow, as the tables take them. -/
structure NewCanvas (s s' : Store uuid) (row : Workflow uuid) (rows : List (Node uuid))
    (links : List (Edge uuid)) : Prop where
  fresh : row.id ∉ s.workflows.map Workflow.id
  nodeIds : ((s.nodes ++ rows).map Node.id).Nodup
  edgeIds : ((s.edges ++ links).map Edge.id).Nodup
  connections : ((s.edges ++ links).map Edge.connection).Nodup
  placed : ∀ n ∈ rows, n.misplaced = false
  loops : ∀ e ∈ links, e.sourceNodeId ≠ e.targetNodeId
  result : s' = ⟨s.workflows ++ [row], s.nodes ++ rows, s.edges ++ links, s.versions⟩

theorem newCanvas_of_insert {row : Workflow uuid} {s₁ s₂ : Store uuid}
    (h₁ : s.insertWorkflow row = .ok s₁) (h₂ : s₁.insertNodes rows = .ok s₂)
    (h₃ : s₂.insertEdges links = .ok s') : NewCanvas s s' row rows links := by
  obtain ⟨hfresh, rfl⟩ := insertWorkflow_eq_ok_iff.mp h₁
  obtain ⟨hids, hplaced, rfl⟩ := insertNodes_eq_ok_iff.mp h₂
  obtain ⟨hedges, hloops, hconnections, rfl⟩ := insertEdges_eq_ok_iff.mp h₃
  exact ⟨hfresh, hids, hedges, hconnections, hplaced, hloops, rfl⟩

theorem NewCanvas.rewrites {row : Workflow uuid} (h : NewCanvas s s' row rows links) (hs : CanvasOk s)
    (hrows : ∀ n ∈ rows, n.workflowId = row.id) (hlinks : ∀ e ∈ links, e.workflowId = row.id) :
    Rewrites s s' row.id rows links := by
  have hresult := h.result
  subst hresult
  refine ⟨.inr ⟨h.fresh, List.map_append⟩, ?_, ?_, ?_, fun v hv => ?_, fun v hv => ?_, rfl, h.nodeIds,
    h.edgeIds, h.connections⟩
  · show row.id ∈ (s.workflows ++ [row]).map Workflow.id
    rw [List.map_append]
    exact List.mem_append_right _ (List.mem_singleton.mpr rfl)
  · unfold Store.nodesOf
    rw [List.filter_append, filter_workflow_self hrows]
    show s.nodesOf row.id ++ rows = rows
    rw [hs.nodesOf_eq_nil h.fresh, List.nil_append]
  · unfold Store.edgesOf
    rw [List.filter_append, filter_edge_self hlinks]
    show s.edgesOf row.id ++ links = links
    rw [hs.edgesOf_eq_nil h.fresh, List.nil_append]
  · unfold Store.nodesOf
    rw [List.filter_append, filter_workflow_ne hrows hv, List.append_nil]
  · unfold Store.edgesOf
    rw [List.filter_append, filter_edge_ne hlinks hv, List.append_nil]

omit [DecidableEq uuid] in
/-- The ids of rows that are numbered with drawn ids. -/
theorem map_id_mapIdx {β : Type} (items : List β) (drawn : Nat → uuid) (row : Nat → β → Node uuid)
    (hid : ∀ i item, (row i item).id = drawn i) :
    (items.mapIdx row).map Node.id = (List.range items.length).map drawn := by
  refine List.ext_getElem (by simp) fun i h₁ h₂ => ?_
  simp [hid]

theorem firstRepeated_eq_none_iff {labels seen : List String} :
    firstRepeated seen labels = none ↔ labels.Nodup ∧ ∀ label ∈ labels, label ∉ seen := by
  induction labels generalizing seen with
  | nil => simp [firstRepeated]
  | cons label labels ih =>
    unfold firstRepeated
    split_ifs with hseen
    · refine iff_of_false (fun h => nomatch h) fun h => ?_
      exact h.2 label List.mem_cons_self hseen
    · rw [ih, List.nodup_cons]
      constructor
      · rintro ⟨hnodup, hall⟩
        refine ⟨⟨fun hmem => hall label hmem List.mem_cons_self, hnodup⟩, fun l hl => ?_⟩
        obtain rfl | hl := List.mem_cons.mp hl
        · exact hseen
        · exact fun hmem => hall l hl (List.mem_cons_of_mem _ hmem)
      · rintro ⟨⟨hnew, hnodup⟩, hall⟩
        refine ⟨hnodup, fun l hl hmem => ?_⟩
        obtain rfl | hmem := List.mem_cons.mp hmem
        · exact hnew hl
        · exact hall l (List.mem_cons_of_mem _ hl) hmem

theorem uniqueLabels_eq_ok_iff {message : String → String} {labels : List String} {u : Unit} :
    uniqueLabels message labels = .ok u ↔ labels.Nodup := by
  have hnone : firstRepeated [] labels = none ↔ _ := firstRepeated_eq_none_iff
  unfold uniqueLabels
  cases hfirst : firstRepeated [] labels with
  | none => exact iff_of_true rfl (hnone.mp hfirst).1
  | some label =>
    refine iff_of_false (fun h => nomatch h) fun h => ?_
    rw [hnone.mpr ⟨h, fun _ _ hmem => nomatch hmem⟩] at hfirst
    cases hfirst

theorem create_canvasOk (hs : CanvasOk s) {gates : CanvasGates uuid} {drawn : DrawnIds uuid}
    {userId : uuid} {dto : CreateWorkflowDto uuid}
    (h : create gates drawn s workspaceId userId dto = .ok s') : CanvasOk s' := by
  simp only [create, bind_eq_ok_iff] at h
  obtain ⟨-, -, s₁, hworkflow, hnodes⟩ := h
  have hedges : s'.insertEdges [] = .ok s' := by
    obtain ⟨-, rfl⟩ := insertWorkflow_eq_ok_iff.mp hworkflow
    obtain ⟨-, -, rfl⟩ := insertNodes_eq_ok_iff.mp hnodes
    rw [insertEdges_eq_ok_iff, List.append_nil]
    exact ⟨hs.edgeIds, fun _ he => (nomatch he), hs.connections, by simp⟩
  have hnew := newCanvas_of_insert hworkflow hnodes hedges
  refine (hnew.rewrites hs (fun n hn => ?_) fun _ he => nomatch he).canvasOk hs ?_
  · rw [List.mem_singleton.mp hn]
  · refine ⟨List.nodup_singleton _, fun n hn id hid => ?_, fun n hn id hid => ?_, hnew.placed,
      fun _ he => nomatch he⟩
    · rw [List.mem_singleton.mp hn] at hid
      cases hid
    · rw [List.mem_singleton.mp hn] at hid
      cases hid

theorem mem_of_remap {drawn : Nat → uuid} {new : uuid} (h : remap nodes drawn id = some new) :
    new ∈ (List.range nodes.length).map drawn := by
  unfold remap at h
  obtain ⟨i, hi, rfl⟩ := Option.map_eq_some_iff.mp h
  obtain ⟨hlt, -⟩ := List.findIdx?_eq_some_iff_getElem.mp hi
  exact List.mem_map.mpr ⟨i, List.mem_range.mpr hlt, rfl⟩

omit [DecidableEq uuid] in
theorem mem_of_nodeIdAt {drawn : Nat → uuid} {count : Nat} {index : Int} {new : uuid}
    (h : nodeIdAt drawn count index = some new) : new ∈ (List.range count).map drawn := by
  unfold nodeIdAt at h
  split_ifs at h with hrange
  cases h
  exact List.mem_map.mpr ⟨index.toNat, List.mem_range.mpr (by omega), rfl⟩

omit [DecidableEq uuid] in
/-- The nodes are numbered with drawn ids, and everything points to such ids. -/
theorem closed_of_drawn {count : Nat} {drawn : Nat → uuid}
    (hids : rows.map Node.id = (List.range count).map drawn) (hlabels : (rows.map Node.label).Nodup)
    (hcontainers : ∀ n ∈ rows, ∀ id ∈ n.containerId, id ∈ (List.range count).map drawn)
    (howners : ∀ n ∈ rows, ∀ id ∈ n.toolOwnerId, id ∈ (List.range count).map drawn)
    (hplaced : ∀ n ∈ rows, n.misplaced = false)
    (hends : ∀ e ∈ links, e.sourceNodeId ∈ (List.range count).map drawn ∧
      e.targetNodeId ∈ (List.range count).map drawn)
    (hloops : ∀ e ∈ links, e.sourceNodeId ≠ e.targetNodeId) : Closed rows links := by
  refine ⟨hlabels, ?_, ?_, hplaced, fun e he => ⟨?_, ?_, hloops e he⟩⟩
  · rw [hids]
    exact hcontainers
  · rw [hids]
    exact howners
  · rw [hids]
    exact (hends e he).1
  · rw [hids]
    exact (hends e he).2

theorem remapEnds_spec {draw : Nat → uuid} {edge new : Edge uuid}
    (h : remapEnds nodes draw edge = some new) :
    remap nodes draw edge.sourceNodeId = some new.sourceNodeId ∧
      remap nodes draw edge.targetNodeId = some new.targetNodeId := by
  unfold remapEnds at h
  split at h
  · rename_i source target hsource htarget
    cases h
    exact ⟨hsource, htarget⟩
  · cases h

omit [DecidableEq uuid] in
theorem ends_spec {draw : Nat → uuid} {count : Nat} {dto : ImportEdgeDto} {new : CanvasEdge uuid}
    (h : dto.ends draw count = some new) :
    nodeIdAt draw count dto.sourceNodeIndex = some new.sourceNodeId ∧
      nodeIdAt draw count dto.targetNodeIndex = some new.targetNodeId := by
  unfold ImportEdgeDto.ends at h
  split at h
  · rename_i source target hsource htarget
    cases h
    exact ⟨hsource, htarget⟩
  · cases h

theorem duplicate_canvasOk (hs : CanvasOk s) {gates : CanvasGates uuid} {drawn : DrawnIds uuid}
    {userId : uuid} (h : duplicate gates drawn s id workspaceId userId = .ok s') : CanvasOk s' := by
  simp only [duplicate, bind_eq_ok_iff] at h
  obtain ⟨original, hfind, s₁, hworkflow, s₂, hnodes, hedges⟩ := h
  have hnew := newCanvas_of_insert hworkflow hnodes hedges
  have hids := map_id_mapIdx (s.nodesOf id) drawn.node (copiedNode gates drawn (s.nodesOf id))
    fun _ _ => rfl
  have hrows : ∀ n ∈ (s.nodesOf id).mapIdx (copiedNode gates drawn (s.nodesOf id)),
      ∃ i node, n = copiedNode gates drawn (s.nodesOf id) i node := by
    intro n hn
    obtain ⟨i, hi, rfl⟩ := List.mem_mapIdx.mp hn
    exact ⟨i, _, rfl⟩
  have hlinks : ∀ e ∈ copiedEdges drawn (s.nodesOf id) (s.edgesOf id), e.workflowId = drawn.workflow ∧
      e.sourceNodeId ∈ (List.range (s.nodesOf id).length).map drawn.node ∧
        e.targetNodeId ∈ (List.range (s.nodesOf id).length).map drawn.node := by
    intro e he
    obtain ⟨i, hi, rfl⟩ := List.mem_mapIdx.mp he
    obtain ⟨edge, -, hedge⟩ := List.mem_filterMap.mp (List.getElem_mem hi)
    obtain ⟨hsource, htarget⟩ := remapEnds_spec hedge
    exact ⟨rfl, mem_of_remap hsource, mem_of_remap htarget⟩
  refine (hnew.rewrites hs (fun n hn => ?_) fun e he => (hlinks e he).1).canvasOk hs ?_
  · obtain ⟨i, node, rfl⟩ := hrows n hn
    rfl
  have hlabels : ((s.nodesOf id).mapIdx (copiedNode gates drawn (s.nodesOf id))).map Node.label =
      (s.nodesOf id).map Node.label := by
    refine List.ext_getElem (by simp) fun i h₁ h₂ => ?_
    simp [copiedNode]
  refine closed_of_drawn hids ?_ (fun n hn new hnew => ?_) (fun n hn new hnew => ?_) hnew.placed
    (fun e he => (hlinks e he).2) hnew.loops
  · rw [hlabels]
    exact (hs.closed id).labels
  · obtain ⟨i, node, rfl⟩ := hrows n hn
    obtain ⟨old, -, hold⟩ := Option.bind_eq_some_iff.mp hnew
    exact mem_of_remap hold
  · obtain ⟨i, node, rfl⟩ := hrows n hn
    obtain ⟨old, -, hold⟩ := Option.bind_eq_some_iff.mp hnew
    exact mem_of_remap hold

theorem importWorkflow_canvasOk (hs : CanvasOk s) {gates : CanvasGates uuid} {drawn : DrawnIds uuid}
    {userId : uuid} {dto : ImportWorkflowDto}
    (h : importWorkflow gates drawn s workspaceId userId dto = .ok s') : CanvasOk s' := by
  simp only [importWorkflow, bind_eq_ok_iff] at h
  obtain ⟨-, -, _, hlabels, s₁, hworkflow, s₂, hnodes, hedges⟩ := h
  rw [uniqueLabels_eq_ok_iff] at hlabels
  have hnew := newCanvas_of_insert hworkflow hnodes hedges
  have hids := map_id_mapIdx dto.nodes drawn.node (fun i n => n.node gates drawn dto.nodes.length i)
    fun _ _ => rfl
  have hrows : ∀ n ∈ dto.nodes.mapIdx fun i n => n.node gates drawn dto.nodes.length i,
      ∃ i node, n = ImportNodeDto.node gates drawn dto.nodes.length i node := by
    intro n hn
    obtain ⟨i, hi, rfl⟩ := List.mem_mapIdx.mp hn
    exact ⟨i, _, rfl⟩
  have hlinks : ∀ e ∈ importEdges drawn dto.nodes.length (dto.edges.getD []),
      e.workflowId = drawn.workflow ∧
      e.sourceNodeId ∈ (List.range dto.nodes.length).map drawn.node ∧
        e.targetNodeId ∈ (List.range dto.nodes.length).map drawn.node := by
    intro e he
    obtain ⟨i, hi, rfl⟩ := List.mem_mapIdx.mp he
    obtain ⟨edge, -, hedge⟩ := List.mem_filterMap.mp (List.getElem_mem hi)
    obtain ⟨hsource, htarget⟩ := ends_spec hedge
    exact ⟨rfl, mem_of_nodeIdAt hsource, mem_of_nodeIdAt htarget⟩
  refine (hnew.rewrites hs (fun n hn => ?_) fun e he => (hlinks e he).1).canvasOk hs ?_
  · obtain ⟨i, node, rfl⟩ := hrows n hn
    rfl
  have hsame : (dto.nodes.mapIdx fun i n => n.node gates drawn dto.nodes.length i).map Node.label =
      dto.nodes.map ImportNodeDto.label := by
    refine List.ext_getElem (by simp) fun i h₁ h₂ => ?_
    simp [ImportNodeDto.node]
  refine closed_of_drawn hids ?_ (fun n hn new hnew => ?_) (fun n hn new hnew => ?_) hnew.placed
    (fun e he => (hlinks e he).2) hnew.loops
  · rw [hsame]
    exact hlabels
  · obtain ⟨i, node, rfl⟩ := hrows n hn
    obtain ⟨index, -, hindex⟩ := Option.bind_eq_some_iff.mp hnew
    exact mem_of_nodeIdAt hindex
  · obtain ⟨i, node, rfl⟩ := hrows n hn
    obtain ⟨index, -, hindex⟩ := Option.bind_eq_some_iff.mp hnew
    exact mem_of_nodeIdAt hindex

/-! ## 5. The checks -/

theorem outside_eq_nil_iff {nodeIds : List uuid} {ref : Option uuid} {item : InvalidReference} :
    outside nodeIds ref item = [] ↔ ∀ id ∈ ref, id ∈ nodeIds := by
  unfold outside
  cases ref with
  | none => simp
  | some id => simp

omit [DecidableEq uuid] in
theorem flatten_mapIdx_eq_nil_iff {α β : Type} {items : List α} {f : Nat → α → List β} :
    (items.mapIdx f).flatten = [] ↔ ∀ i (hi : i < items.length), f i items[i] = [] := by
  rw [List.flatten_eq_nil_iff]
  constructor
  · intro h i hi
    exact h _ (List.mem_mapIdx.mpr ⟨i, hi, rfl⟩)
  · intro h l hl
    obtain ⟨i, hi, rfl⟩ := List.mem_mapIdx.mp hl
    exact h i hi

/-- All references of the request lead to nodes of the request. -/
structure InCanvas (dto : SaveCanvasDto uuid) : Prop where
  containers : ∀ d ∈ dto.nodes, ∀ id ∈ d.containerId, id ∈ dto.nodes.map CanvasNode.id
  toolOwners : ∀ d ∈ dto.nodes, ∀ id ∈ d.toolOwnerId, id ∈ dto.nodes.map CanvasNode.id
  ends : ∀ d ∈ dto.edges, d.sourceNodeId ∈ dto.nodes.map CanvasNode.id ∧
    d.targetNodeId ∈ dto.nodes.map CanvasNode.id

theorem validateCanvasReferences_eq_ok_iff {dto : SaveCanvasDto uuid} {u : Unit} :
    validateCanvasReferences dto = .ok u ↔ InCanvas dto := by
  have hnil : validateCanvasReferences dto = .ok u ↔
      (dto.nodes.mapIdx (invalidNodeReferences (dto.nodes.map CanvasNode.id))).flatten ++
        (dto.edges.mapIdx (invalidEdgeReferences (dto.nodes.map CanvasNode.id))).flatten = [] := by
    unfold validateCanvasReferences
    dsimp only
    split_ifs with h
    · exact iff_of_true rfl h
    · exact iff_of_false (fun heq => nomatch heq) h
  rw [hnil, List.append_eq_nil_iff, flatten_mapIdx_eq_nil_iff, flatten_mapIdx_eq_nil_iff]
  simp only [invalidNodeReferences, invalidEdgeReferences, List.append_eq_nil_iff, outside_eq_nil_iff,
    Option.mem_some_iff, forall_eq']
  constructor
  · rintro ⟨hnodes, hedges⟩
    refine ⟨fun d hd => ?_, fun d hd => ?_, fun d hd => ?_⟩
    · obtain ⟨i, hi, rfl⟩ := List.getElem_of_mem hd
      exact (hnodes i hi).1
    · obtain ⟨i, hi, rfl⟩ := List.getElem_of_mem hd
      exact (hnodes i hi).2
    · obtain ⟨i, hi, rfl⟩ := List.getElem_of_mem hd
      exact hedges i hi
  · intro h
    exact ⟨fun i hi => ⟨h.containers _ (List.getElem_mem hi), h.toolOwners _ (List.getElem_mem hi)⟩,
      fun i hi => h.ends _ (List.getElem_mem hi)⟩

theorem assertNewNodeIdsUnused_eq_ok_iff {dtos : List (CanvasNode uuid)} {u : Unit} :
    assertNewNodeIdsUnused s dtos nodes = .ok u ↔
      ∀ d ∈ dtos, d.id ∉ nodes.map Node.id → d.id ∉ s.nodes.map Node.id := by
  have hnil : assertNewNodeIdsUnused s dtos nodes = .ok u ↔ ∀ i (hi : i < dtos.length),
      ¬(dtos[i].id ∉ nodes.map Node.id ∧ dtos[i].id ∈ s.nodes.map Node.id) := by
    unfold assertNewNodeIdsUnused
    dsimp only
    split_ifs with h
    · rw [flatten_mapIdx_eq_nil_iff] at h
      refine iff_of_true rfl fun i hi hbad => ?_
      have := h i hi
      rw [if_pos hbad] at this
      cases this
    · refine iff_of_false (fun heq => nomatch heq) fun hall => h ?_
      rw [flatten_mapIdx_eq_nil_iff]
      exact fun i hi => if_neg (hall i hi)
  rw [hnil]
  constructor
  · intro h d hd hnew hused
    obtain ⟨i, hi, rfl⟩ := List.getElem_of_mem hd
    exact h i hi ⟨hnew, hused⟩
  · rintro h i hi ⟨hnew, hused⟩
    exact h _ (List.getElem_mem hi) hnew hused

theorem assertPlacementInWorkflow_eq_ok_iff {containerId toolOwnerId : Option uuid} {u : Unit} :
    assertPlacementInWorkflow s w containerId toolOwnerId = .ok u ↔
      (∀ id ∈ containerId, id ∈ (s.nodesOf w).map Node.id) ∧
        ∀ id ∈ toolOwnerId, id ∈ (s.nodesOf w).map Node.id := by
  have hnil : assertPlacementInWorkflow s w containerId toolOwnerId = .ok u ↔
      outside ((s.nodesOf w).map Node.id) containerId
          ⟨"containerId", "Container node not found in this workflow"⟩ ++
        outside ((s.nodesOf w).map Node.id) toolOwnerId
          ⟨"toolOwnerId", "Tool owner node not found in this workflow"⟩ = [] := by
    unfold assertPlacementInWorkflow
    dsimp only
    split_ifs with h
    · exact iff_of_true rfl h
    · exact iff_of_false (fun heq => nomatch heq) h
  rw [hnil, List.append_eq_nil_iff, outside_eq_nil_iff, outside_eq_nil_iff]

theorem assertLabelUnique_eq_ok_iff {label : String} {exclude : Option uuid} {u : Unit} :
    assertLabelUnique s w label exclude = .ok u ↔
      ∀ n ∈ s.nodesOf w, n.label = label → exclude = some n.id := by
  unfold assertLabelUnique
  split_ifs with h
  · refine iff_of_false (fun heq => nomatch heq) fun hall => ?_
    obtain ⟨n, hn, hbad⟩ := List.any_eq_true.mp h
    rw [decide_eq_true_eq] at hbad
    exact hbad.2.2 (hall n (mem_nodesOf_iff.mpr ⟨hn, hbad.1⟩) hbad.2.1)
  · refine iff_of_true rfl fun n hn hlabel => ?_
    by_contra hne
    rw [mem_nodesOf_iff] at hn
    refine h (List.any_eq_true.mpr ⟨n, hn.1, ?_⟩)
    rw [decide_eq_true_eq]
    exact ⟨hn.2, hlabel, hne⟩

/-! ## 6. The whole canvas -/

/-- What a node of the request leaves in its row. -/
structure Written (n : Node uuid) (d : CanvasNode uuid) : Prop where
  id : n.id = d.id
  label : n.label = d.label
  containerId : n.containerId = d.containerId
  toolOwnerId : n.toolOwnerId = d.toolOwnerId

theorem finalNode_id (dtos : List (CanvasNode uuid)) (existing : Node uuid) :
    (finalNode dtos existing).id = existing.id ∧
      (finalNode dtos existing).workflowId = existing.workflowId := by
  unfold finalNode
  induction dtos using List.reverseRecOn with
  | nil => exact ⟨rfl, rfl⟩
  | append_singleton dtos d ih =>
    rw [List.foldl_append, List.foldl_cons, List.foldl_nil]
    split_ifs
    · exact ih
    · exact ih

/-- The last node of the request with the id is the one that is written. -/
theorem finalNode_written {dtos : List (CanvasNode uuid)} {existing : Node uuid}
    (h : existing.id ∈ dtos.map CanvasNode.id) : ∃ d ∈ dtos, Written (finalNode dtos existing) d := by
  induction dtos using List.reverseRecOn with
  | nil => cases h
  | append_singleton dtos d ih =>
    have hstep : finalNode (dtos ++ [d]) existing =
        if d.id = existing.id then (finalNode dtos existing).assign d else finalNode dtos existing := by
      unfold finalNode
      rw [List.foldl_append, List.foldl_cons, List.foldl_nil]
    rw [hstep]
    split_ifs with hid
    · refine ⟨d, List.mem_append_right _ (List.mem_singleton.mpr rfl), ?_, rfl, rfl, rfl⟩
      exact (finalNode_id dtos existing).1.trans hid.symm
    · rw [List.map_append, List.mem_append, List.map_singleton, List.mem_singleton] at h
      obtain ⟨d', hd', hw⟩ := ih (h.resolve_right fun heq => hid heq.symm)
      exact ⟨d', List.mem_append_left _ hd', hw⟩

theorem mem_nodesToSave {dtos : List (CanvasNode uuid)} {row : Node uuid}
    (h : row ∈ nodesToSave w dtos nodes) :
    (∃ e ∈ nodes, e.id ∈ dtos.map CanvasNode.id ∧ row = finalNode dtos e) ∨
      ∃ d ∈ dtos, d.id ∉ nodes.map Node.id ∧ row = d.newNode w := by
  unfold nodesToSave at h
  obtain ⟨d, hd, rfl⟩ := List.mem_map.mp h
  unfold nodeToSave
  cases hfind : nodes.find? fun n => n.id = d.id with
  | some e =>
    have hid : e.id = d.id := by simpa using List.find?_some hfind
    refine .inl ⟨e, List.mem_of_find?_eq_some hfind, ?_, rfl⟩
    rw [hid]
    exact List.mem_map_of_mem hd
  | none =>
    refine .inr ⟨d, hd, fun hmem => ?_, rfl⟩
    obtain ⟨n, hn, hid⟩ := List.mem_map.mp hmem
    exact absurd (List.find?_eq_none.mp hfind n hn) (by simp [hid])

end Clemvion.Workflows
