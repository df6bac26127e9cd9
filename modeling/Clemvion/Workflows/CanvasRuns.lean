import Clemvion.Workflows.CanvasOk

/-!
# CanvasRuns — every request keeps every canvas closed

A save deletes the nodes that it does not name, writes the others and inserts all edges anew.  That the
rows are in the end the ones of the request is what the checks before it are for.
-/

namespace Clemvion.Workflows

open Common Js

variable {uuid : Type} [DecidableEq uuid] {s s' : Store uuid} {id w v workspaceId : uuid}
  {rows nodes : List (Node uuid)} {edges links : List (Edge uuid)} {gone : List uuid}

/-! ## 1. Deleted nodes -/

def Node.cleared (gone : List uuid) (n : Node uuid) : Node uuid :=
  { n with
    containerId := n.containerId.filter fun id => id ∉ gone
    toolOwnerId := n.toolOwnerId.filter fun id => id ∉ gone }

/-- What is left of a canvas. -/
def keptNodes (gone : List uuid) (nodes : List (Node uuid)) : List (Node uuid) :=
  (nodes.filter fun n => n.id ∉ gone).map (Node.cleared gone)

def keptEdges (gone : List uuid) (edges : List (Edge uuid)) : List (Edge uuid) :=
  edges.filter fun e => e.sourceNodeId ∉ gone ∧ e.targetNodeId ∉ gone

theorem map_id_keptNodes :
    (keptNodes gone nodes).map Node.id = (nodes.map Node.id).filter fun id => id ∉ gone := by
  unfold keptNodes
  rw [List.map_map, List.filter_map]
  rfl

theorem nodesOf_deleteNodes : (s.deleteNodes gone).nodesOf w = keptNodes gone (s.nodesOf w) := by
  unfold Store.nodesOf Store.deleteNodes keptNodes
  dsimp only
  rw [List.filter_map, List.filter_filter, List.filter_filter]
  congr 1
  exact List.filter_congr fun n _ => Bool.and_comm _ _

theorem edgesOf_deleteNodes : (s.deleteNodes gone).edgesOf w = keptEdges gone (s.edgesOf w) := by
  unfold Store.edgesOf Store.deleteNodes keptEdges
  dsimp only
  rw [List.filter_filter, List.filter_filter]
  exact List.filter_congr fun e _ => Bool.and_comm _ _

theorem mem_kept_of_filter {ref : Option uuid} (h : ∀ id ∈ ref, id ∈ nodes.map Node.id) :
    ∀ id ∈ ref.filter fun id => id ∉ gone, id ∈ (keptNodes gone nodes).map Node.id := by
  intro id hid
  rw [Option.mem_def, Option.filter_eq_some_iff] at hid
  rw [map_id_keptNodes, List.mem_filter]
  exact ⟨h id hid.1, hid.2⟩

theorem Closed.kept (h : Closed nodes edges) : Closed (keptNodes gone nodes) (keptEdges gone edges) := by
  have hmem : ∀ n ∈ keptNodes gone nodes, ∃ m ∈ nodes, n = m.cleared gone := by
    intro n hn
    obtain ⟨m, hm, rfl⟩ := List.mem_map.mp hn
    exact ⟨m, List.mem_of_mem_filter hm, rfl⟩
  refine ⟨?_, fun n hn => ?_, fun n hn => ?_, fun n hn => ?_, fun e he => ?_⟩
  · unfold keptNodes
    rw [List.map_map]
    exact h.labels.sublist (List.filter_sublist.map _)
  · obtain ⟨m, hm, rfl⟩ := hmem n hn
    exact mem_kept_of_filter (h.containers m hm)
  · obtain ⟨m, hm, rfl⟩ := hmem n hn
    exact mem_kept_of_filter (h.toolOwners m hm)
  · obtain ⟨m, hm, rfl⟩ := hmem n hn
    have hplaced := h.placed m hm
    unfold Node.misplaced at hplaced ⊢
    unfold Node.cleared
    cases hc : m.containerId with
    | none => rfl
    | some c =>
      cases ht : m.toolOwnerId with
      | none => simp
      | some t => simp [hc, ht] at hplaced
  · unfold keptEdges at he
    rw [List.mem_filter, decide_eq_true_eq] at he
    obtain ⟨hsource, htarget, hne⟩ := h.ends e he.1
    rw [map_id_keptNodes, List.mem_filter, List.mem_filter]
    exact ⟨⟨hsource, decide_eq_true he.2.1⟩, ⟨htarget, decide_eq_true he.2.2⟩, hne⟩

/-- Nothing of a canvas without these nodes refers to them. -/
theorem Closed.kept_eq (h : Closed nodes edges) (hgone : ∀ id ∈ gone, id ∉ nodes.map Node.id) :
    keptNodes gone nodes = nodes ∧ keptEdges gone edges = edges := by
  have hstays : ∀ {ref : Option uuid}, (∀ id ∈ ref, id ∈ nodes.map Node.id) →
      (ref.filter fun id => id ∉ gone) = ref := by
    intro ref href
    cases ref with
    | none => rfl
    | some id =>
      rw [Option.filter_eq_some_iff]
      exact ⟨rfl, decide_eq_true fun hg => hgone id hg (href id rfl)⟩
  constructor
  · unfold keptNodes
    have hall : (nodes.filter fun n => n.id ∉ gone) = nodes :=
      List.filter_eq_self.mpr fun n hn =>
        decide_eq_true fun hg => hgone n.id hg (List.mem_map_of_mem hn)
    rw [hall]
    refine (List.map_congr_left fun n hn => ?_).trans (List.map_id nodes)
    unfold Node.cleared
    rw [hstays (h.containers n hn), hstays (h.toolOwners n hn)]
    rfl
  · refine List.filter_eq_self.mpr fun e he => decide_eq_true ?_
    obtain ⟨hsource, htarget, -⟩ := h.ends e he
    exact ⟨fun hg => hgone _ hg hsource, fun hg => hgone _ hg htarget⟩

theorem deleteNodes_rewrites (hs : CanvasOk s) (hw : w ∈ s.workflows.map Workflow.id)
    (gone : List uuid) (hgone : ∀ id ∈ gone, id ∈ (s.nodesOf w).map Node.id) :
    Rewrites s (s.deleteNodes gone) w (keptNodes gone (s.nodesOf w)) (keptEdges gone (s.edgesOf w)) := by
  have hother : ∀ v, v ≠ w → ∀ id ∈ gone, id ∉ (s.nodesOf v).map Node.id :=
    fun v hv id hid hmem => hv (hs.workflow_of_id hmem (hgone id hid))
  refine ⟨.inl rfl, hw, nodesOf_deleteNodes, edgesOf_deleteNodes, fun v hv => ?_, fun v hv => ?_, rfl,
    ?_, ?_, ?_⟩
  · rw [nodesOf_deleteNodes]
    exact ((hs.closed v).kept_eq (hother v hv)).1
  · rw [edgesOf_deleteNodes]
    exact ((hs.closed v).kept_eq (hother v hv)).2
  · show ((keptNodes gone s.nodes).map Node.id).Nodup
    rw [map_id_keptNodes]
    exact hs.nodeIds.filter _
  · exact hs.edgeIds.sublist (List.filter_sublist.map _)
  · exact hs.connections.sublist (List.filter_sublist.map _)

/-! ## 2. Saved nodes -/

/-- A row after the update of some of them. -/
def Node.updated (rows : List (Node uuid)) (n : Node uuid) : Node uuid :=
  (rows.find? fun row => row.id = n.id).getD n

theorem updated_cases (rows : List (Node uuid)) (n : Node uuid) :
    (∃ row ∈ rows, row.id = n.id ∧ n.updated rows = row) ∨
      n.id ∉ rows.map Node.id ∧ n.updated rows = n := by
  unfold Node.updated
  cases hfind : rows.find? fun row => row.id = n.id with
  | some row =>
    exact .inl ⟨row, List.mem_of_find?_eq_some hfind, by simpa using List.find?_some hfind, rfl⟩
  | none =>
    refine .inr ⟨fun hmem => ?_, rfl⟩
    obtain ⟨row, hrow, hid⟩ := List.mem_map.mp hmem
    exact absurd (List.find?_eq_none.mp hfind row hrow) (by simp [hid])

theorem updated_eq_self {n : Node uuid} (h : n.id ∉ rows.map Node.id) : n.updated rows = n := by
  obtain ⟨row, hrow, hid, -⟩ | ⟨-, heq⟩ := updated_cases rows n
  · exact absurd (hid ▸ List.mem_map_of_mem hrow) h
  · exact heq

theorem updated_eq_row {n row : Node uuid} (hrow : row ∈ rows) (hid : n.id = row.id)
    (hsame : ∀ other ∈ rows, other.id = row.id → other = row) : n.updated rows = row := by
  obtain ⟨other, hother, hoid, heq⟩ | ⟨hnot, -⟩ := updated_cases rows n
  · rw [heq]
    exact hsame other hother (hoid.trans hid)
  · exact absurd (hid ▸ List.mem_map_of_mem hrow) hnot

@[simp] theorem updated_id (n : Node uuid) : (n.updated rows).id = n.id := by
  obtain ⟨row, -, hid, heq⟩ | ⟨-, heq⟩ := updated_cases rows n
  · rw [heq, hid]
  · rw [heq]

theorem map_id_updated : (nodes.map (Node.updated rows)).map Node.id = nodes.map Node.id := by
  rw [List.map_map]
  exact List.map_congr_left fun n _ => updated_id n

/-- Rows of one workflow leave the ones of the others as they are. -/
theorem filter_map_updated (hrows : ∀ row ∈ rows, row.workflowId = w)
    (hnodes : ∀ n ∈ nodes, n.id ∈ rows.map Node.id → n.workflowId = w) :
    ((nodes.map (Node.updated rows)).filter fun n => n.workflowId = v) =
      (nodes.filter fun n => n.workflowId = v).map (Node.updated rows) := by
  rw [List.filter_map]
  congr 1
  refine List.filter_congr fun n hn => ?_
  obtain ⟨row, hrow, hid, heq⟩ | ⟨-, heq⟩ := updated_cases rows n
  · have hmem : n.id ∈ rows.map Node.id := hid ▸ List.mem_map_of_mem hrow
    simp [heq, hrows row hrow, hnodes n hn hmem]
  · simp [heq]

theorem updated_other (hrows : ∀ n ∈ nodes, n.id ∉ rows.map Node.id) :
    nodes.map (Node.updated rows) = nodes := by
  refine (List.map_congr_left fun n hn => ?_).trans (List.map_id nodes)
  exact updated_eq_self (hrows n hn)

/-- A row is found again by its id, be it new or known. -/
theorem mem_saved {n : Node uuid}
    (hknown : ∀ row ∈ rows, row.id ∈ s.nodes.map Node.id → row.id ∈ (s.nodesOf w).map Node.id)
    (hsame : ∀ row ∈ rows, row.id ∈ s.nodes.map Node.id → ∀ other ∈ rows, other.id = row.id → other = row) :
    n ∈ (s.nodesOf w ++ rows.filter fun row => row.id ∉ s.nodes.map Node.id).map
        (Node.updated (rows.filter fun row => row.id ∈ s.nodes.map Node.id)) ↔
      n ∈ rows ∨ n ∈ s.nodesOf w ∧ n.id ∉ rows.map Node.id := by
  set known := rows.filter fun row => row.id ∈ s.nodes.map Node.id with hk
  have hmem : ∀ {row}, row ∈ known ↔ row ∈ rows ∧ row.id ∈ s.nodes.map Node.id := by
    intro row
    rw [hk, List.mem_filter, decide_eq_true_eq]
  have hids : ∀ {m : Node uuid}, m ∈ s.nodesOf w → m.id ∈ s.nodes.map Node.id :=
    fun hm => List.mem_map_of_mem (mem_nodesOf_iff.mp hm).1
  constructor
  · intro hn
    obtain ⟨m, hm, rfl⟩ := List.mem_map.mp hn
    obtain ⟨row, hrow, -, heq⟩ | ⟨hnot, heq⟩ := updated_cases known m
    · rw [heq]
      exact .inl (hmem.mp hrow).1
    · rw [heq]
      obtain hm | hm := List.mem_append.mp hm
      · refine .inr ⟨hm, fun hid => hnot ?_⟩
        obtain ⟨row, hrow, hid⟩ := List.mem_map.mp hid
        rw [← hid]
        exact List.mem_map_of_mem (hmem.mpr ⟨hrow, hid ▸ hids hm⟩)
      · exact .inl (List.mem_of_mem_filter hm)
  · rintro (hn | ⟨hn, hnot⟩)
    · by_cases hid : n.id ∈ s.nodes.map Node.id
      · obtain ⟨m, hm, hmid⟩ := List.mem_map.mp (hknown n hn hid)
        refine List.mem_map.mpr ⟨m, List.mem_append_left _ hm, ?_⟩
        exact updated_eq_row (hmem.mpr ⟨hn, hid⟩) hmid fun other hother hoid =>
          hsame n hn hid other (hmem.mp hother).1 hoid
      · refine List.mem_map.mpr ⟨n, List.mem_append_right _ ?_, updated_eq_self fun hmem' => ?_⟩
        · exact List.mem_filter.mpr ⟨hn, decide_eq_true hid⟩
        · obtain ⟨row, hrow, hrid⟩ := List.mem_map.mp hmem'
          exact hid (hrid ▸ (hmem.mp hrow).2)
    · refine List.mem_map.mpr ⟨n, List.mem_append_left _ hn, updated_eq_self fun hmem' => hnot ?_⟩
      obtain ⟨row, hrow, hrid⟩ := List.mem_map.mp hmem'
      rw [← hrid]
      exact List.mem_map_of_mem (hmem.mp hrow).1

/-- What is saved: rows of `w`, of which the known ones are nodes of `w` already. -/
structure Saved (s s' : Store uuid) (w : uuid) (rows : List (Node uuid)) : Prop where
  workflows : s'.workflows = s.workflows
  edges : s'.edges = s.edges
  versions : s'.versions = s.versions
  nodeIds : (s'.nodes.map Node.id).Nodup
  placed : ∀ n ∈ rows, n.misplaced = false
  own : ∀ n, n ∈ s'.nodesOf w ↔ n ∈ rows ∨ n ∈ s.nodesOf w ∧ n.id ∉ rows.map Node.id
  others : ∀ v, v ≠ w → s'.nodesOf v = s.nodesOf v

theorem saved_of_saveNodes (hrows : ∀ row ∈ rows, row.workflowId = w)
    (hknown : ∀ row ∈ rows, row.id ∈ s.nodes.map Node.id → row.id ∈ (s.nodesOf w).map Node.id)
    (hsame : ∀ row ∈ rows, row.id ∈ s.nodes.map Node.id → ∀ other ∈ rows, other.id = row.id → other = row)
    (h : s.saveNodes rows = .ok s') : Saved s s' w rows := by
  simp only [Store.saveNodes, bind_eq_ok_iff] at h
  obtain ⟨s₁, hinsert, hupdate⟩ := h
  obtain ⟨hids, hplaced, rfl⟩ := insertNodes_eq_ok_iff.mp hinsert
  obtain ⟨hplaced', rfl⟩ := updateNodes_eq_ok_iff.mp hupdate
  clear hinsert hupdate
  set fresh := rows.filter fun row => row.id ∉ s.nodes.map Node.id with hfresh
  set known := rows.filter fun row => row.id ∈ s.nodes.map Node.id with hk
  have hmem : ∀ {row}, row ∈ rows → row ∈ fresh ∨ row ∈ known := by
    intro row hrow
    by_cases hid : row.id ∈ s.nodes.map Node.id
    · exact .inr (List.mem_filter.mpr ⟨hrow, decide_eq_true hid⟩)
    · exact .inl (List.mem_filter.mpr ⟨hrow, decide_eq_true hid⟩)
  have hknownRows : ∀ row ∈ known, row.workflowId = w :=
    fun row hrow => hrows row (List.mem_of_mem_filter hrow)
  have hworkflow : ∀ n ∈ s.nodes ++ fresh, n.id ∈ known.map Node.id → n.workflowId = w := by
    intro n hn hid
    obtain ⟨row, hrow, hid⟩ := List.mem_map.mp hid
    rw [hk, List.mem_filter, decide_eq_true_eq] at hrow
    obtain ⟨m, hm, hmid⟩ := List.mem_map.mp (hknown row hrow.1 hrow.2)
    rw [mem_nodesOf_iff] at hm
    rw [← node_eq_of_id hids (List.mem_append_left _ hm.1) hn (hmid.trans hid)]
    exact hm.2
  have hnodes : ∀ v, Store.nodesOf
      { s with nodes := (s.nodes ++ fresh).map (Node.updated known) } v =
        ((s.nodes ++ fresh).filter fun n => n.workflowId = v).map (Node.updated known) :=
    fun v => filter_map_updated hknownRows hworkflow
  refine ⟨rfl, rfl, rfl, ?_, fun n hn => ?_, fun n => ?_, fun v hv => ?_⟩
  · show (((s.nodes ++ fresh).map (Node.updated known)).map Node.id).Nodup
    rwa [map_id_updated]
  · obtain hn | hn := hmem hn
    · exact hplaced n hn
    · exact hplaced' n hn
  · show n ∈ Store.nodesOf { s with nodes := (s.nodes ++ fresh).map (Node.updated known) } w ↔ _
    rw [hnodes, List.filter_append, filter_workflow_self fun row hrow =>
      hrows row (List.mem_of_mem_filter hrow)]
    exact mem_saved hknown hsame
  · show Store.nodesOf { s with nodes := (s.nodes ++ fresh).map (Node.updated known) } v = _
    rw [hnodes, List.filter_append, filter_workflow_ne (fun row hrow =>
      hrows row (List.mem_of_mem_filter hrow)) hv, List.append_nil]
    refine updated_other fun n hn hid => hv ?_
    rw [List.mem_filter, decide_eq_true_eq] at hn
    rw [← hn.2]
    exact hworkflow n (List.mem_append_left _ hn.1) hid

/-! ## 3. The whole canvas -/

theorem map_id_nodesToSave {dtos : List (CanvasNode uuid)} :
    (nodesToSave w dtos nodes).map Node.id = dtos.map CanvasNode.id := by
  unfold nodesToSave
  rw [List.map_map]
  refine List.map_congr_left fun d _ => ?_
  show (nodeToSave w dtos nodes d).id = d.id
  unfold nodeToSave
  cases hfind : nodes.find? fun n => n.id = d.id with
  | some e => exact (finalNode_id dtos e).1.trans (by simpa using List.find?_some hfind)
  | none => rfl

/-- What the nodes of a request leave behind. -/
structure NodesWritten (s s' : Store uuid) (w : uuid) (dtos : List (CanvasNode uuid)) : Prop where
  unused : ∀ d ∈ dtos, d.id ∈ s.nodes.map Node.id → d.id ∈ (s.nodesOf w).map Node.id
  nodeIds : (s'.nodes.map Node.id).Nodup
  placed : ∀ n ∈ s'.nodesOf w, n.misplaced = false
  own : ∀ n, n ∈ s'.nodesOf w ↔ n ∈ nodesToSave w dtos (s.nodesOf w)
  others : ∀ v, v ≠ w → s'.nodesOf v = s.nodesOf v

structure Synced (s s' : Store uuid) (w : uuid) (dtos : List (CanvasNode uuid)) : Prop extends
    NodesWritten s s' w dtos where
  workflows : s'.workflows = s.workflows
  versions : s'.versions = s.versions
  otherEdges : ∀ v, v ≠ w → s'.edgesOf v = s.edgesOf v

theorem nodesToSave_workflowId {dtos : List (CanvasNode uuid)} :
    ∀ row ∈ nodesToSave w dtos (s.nodesOf w), row.workflowId = w := by
  intro row hrow
  obtain ⟨e, he, -, rfl⟩ | ⟨d, -, -, rfl⟩ := mem_nodesToSave hrow
  · rw [(finalNode_id dtos e).2]
    exact (mem_nodesOf_iff.mp he).2
  · rfl

/-- A row that is there already is written once, whatever the request repeats. -/
theorem nodesToSave_same (hs : CanvasOk s) {dtos : List (CanvasNode uuid)} {row other : Node uuid}
    (hrow : row ∈ nodesToSave w dtos (s.nodesOf w)) (hid : row.id ∈ (s.nodesOf w).map Node.id)
    (hother : other ∈ nodesToSave w dtos (s.nodesOf w)) (heq : other.id = row.id) : other = row := by
  have hfinal : ∀ {r}, r ∈ nodesToSave w dtos (s.nodesOf w) → r.id ∈ (s.nodesOf w).map Node.id →
      ∃ e ∈ s.nodesOf w, e.id = r.id ∧ r = finalNode dtos e := by
    intro r hr hrid
    obtain ⟨e, he, -, rfl⟩ | ⟨d, -, hnew, rfl⟩ := mem_nodesToSave hr
    · exact ⟨e, he, (finalNode_id dtos e).1.symm, rfl⟩
    · exact absurd hrid hnew
  obtain ⟨e, he, heid, hre⟩ := hfinal hrow hid
  obtain ⟨e', he', heid', hre'⟩ := hfinal hother (heq ▸ hid)
  have hsame : e' = e := node_eq_of_id hs.nodeIds (mem_nodesOf_iff.mp he').1 (mem_nodesOf_iff.mp he).1
    (heid'.trans (heq.trans heid.symm))
  rw [hre', hre, hsame]

theorem synced_of_syncNodes (hs : CanvasOk s) (hw : w ∈ s.workflows.map Workflow.id)
    {dtos : List (CanvasNode uuid)} (h : syncNodes s w dtos = .ok (s', rows)) :
    rows = nodesToSave w dtos (s.nodesOf w) ∧ Synced s s' w dtos := by
  simp only [syncNodes, bind_eq_ok_iff] at h
  obtain ⟨_, hunused, s₁, hsave, hpure⟩ := h
  obtain ⟨rfl, rfl⟩ : s₁ = s' ∧ nodesToSave w dtos (s.nodesOf w) = rows :=
    Prod.mk.injEq _ _ _ _ ▸ Except.ok.inj hpure
  rw [assertNewNodeIdsUnused_eq_ok_iff] at hunused
  have hunused' : ∀ d ∈ dtos, d.id ∈ s.nodes.map Node.id → d.id ∈ (s.nodesOf w).map Node.id := by
    intro d hd hid
    by_contra hnot
    exact hunused d hd hnot hid
  set gone := ((s.nodesOf w).map Node.id).filter fun id => id ∉ dtos.map CanvasNode.id with hgone
  have hdeleted := deleteNodes_rewrites hs hw gone fun id hid => List.mem_of_mem_filter hid
  have hmemRows : ∀ row ∈ nodesToSave w dtos (s.nodesOf w), ∃ d ∈ dtos, row.id = d.id := by
    intro row hrow
    have hid : row.id ∈ (nodesToSave w dtos (s.nodesOf w)).map Node.id := List.mem_map_of_mem hrow
    rw [map_id_nodesToSave] at hid
    obtain ⟨d, hd, heq⟩ := List.mem_map.mp hid
    exact ⟨d, hd, heq.symm⟩
  have hold : ∀ row ∈ nodesToSave w dtos (s.nodesOf w),
      row.id ∈ (s.deleteNodes gone).nodes.map Node.id → row.id ∈ (s.nodesOf w).map Node.id ∧
        row.id ∉ gone := by
    intro row hrow hid
    obtain ⟨d, hd, heq⟩ := hmemRows row hrow
    have hkept : row.id ∈ (keptNodes gone s.nodes).map Node.id := hid
    rw [map_id_keptNodes, List.mem_filter, decide_eq_true_eq] at hkept
    exact ⟨heq ▸ hunused' d hd (heq ▸ hkept.1), hkept.2⟩
  have hsaved := saved_of_saveNodes nodesToSave_workflowId (fun row hrow hid => ?_)
    (fun row hrow hid other hother heq => nodesToSave_same hs hrow (hold row hrow hid).1 hother heq) hsave
  · have hown : ∀ n, n ∈ s₁.nodesOf w ↔ n ∈ nodesToSave w dtos (s.nodesOf w) := by
      intro n
      rw [hsaved.own]
      refine or_iff_left fun hkept => hkept.2 ?_
      rw [map_id_nodesToSave]
      have hid : n.id ∈ ((s.deleteNodes gone).nodesOf w).map Node.id := List.mem_map_of_mem hkept.1
      rw [nodesOf_deleteNodes, map_id_keptNodes, List.mem_filter, decide_eq_true_eq] at hid
      by_contra hnot
      exact hid.2 (List.mem_filter.mpr ⟨hid.1, decide_eq_true hnot⟩)
    refine ⟨rfl, ⟨hunused', hsaved.nodeIds, fun n hn => hsaved.placed n ((hown n).mp hn), hown,
      fun v hv => ?_⟩, hsaved.workflows, hsaved.versions, fun v hv => ?_⟩
    · rw [hsaved.others v hv, hdeleted.otherNodes v hv]
    · rw [← hdeleted.otherEdges v hv]
      unfold Store.edgesOf
      rw [hsaved.edges]
  · obtain ⟨hid, hnot⟩ := hold row hrow hid
    rw [nodesOf_deleteNodes, map_id_keptNodes, List.mem_filter]
    exact ⟨hid, decide_eq_true hnot⟩

theorem mem_nodesToSave_written {dtos : List (CanvasNode uuid)} {row : Node uuid}
    (h : row ∈ nodesToSave w dtos nodes) : ∃ d ∈ dtos, Written row d := by
  obtain ⟨e, -, hid, rfl⟩ | ⟨d, hd, -, rfl⟩ := mem_nodesToSave h
  · exact finalNode_written hid
  · exact ⟨d, hd, rfl, rfl, rfl, rfl⟩

theorem NodesWritten.mem_ids_iff {dtos : List (CanvasNode uuid)} (h : NodesWritten s s' w dtos) :
    id ∈ (s'.nodesOf w).map Node.id ↔ id ∈ dtos.map CanvasNode.id := by
  have hids : (nodesToSave w dtos (s.nodesOf w)).map Node.id = dtos.map CanvasNode.id := map_id_nodesToSave
  rw [← hids, List.mem_map, List.mem_map]
  simp only [h.own]

/-- Distinct labels and references inside of the request are distinct labels and references inside of
    the canvas. -/
theorem NodesWritten.closed {dto : SaveCanvasDto uuid} (h : NodesWritten s s' w dto.nodes)
    (hlabels : (dto.nodes.map CanvasNode.label).Nodup) (hin : InCanvas dto)
    (hends : ∀ e ∈ links, ∃ d ∈ dto.edges,
      e.sourceNodeId = d.sourceNodeId ∧ e.targetNodeId = d.targetNodeId)
    (hloops : ∀ e ∈ links, e.sourceNodeId ≠ e.targetNodeId) : Closed (s'.nodesOf w) links := by
  have hwritten : ∀ n ∈ s'.nodesOf w, ∃ d ∈ dto.nodes, Written n d :=
    fun n hn => mem_nodesToSave_written ((h.own n).mp hn)
  refine ⟨?_, fun n hn id hid => ?_, fun n hn id hid => ?_, h.placed, fun e he => ?_⟩
  · have hnodup : (s'.nodesOf w).Nodup := (List.Nodup.of_map _ h.nodeIds).filter _
    refine List.Nodup.map_on (fun m hm n hn hlabel => ?_) hnodup
    obtain ⟨d, hd, hmd⟩ := hwritten m hm
    obtain ⟨d', hd', hnd⟩ := hwritten n hn
    have hsame : d = d' := List.inj_on_of_nodup_map hlabels hd hd'
      (hmd.label.symm.trans (hlabel.trans hnd.label))
    have hid : m.id = n.id := by rw [hmd.id, hnd.id, hsame]
    exact node_eq_of_id h.nodeIds (mem_nodesOf_iff.mp hm).1 (mem_nodesOf_iff.mp hn).1 hid
  · obtain ⟨d, hd, hw⟩ := hwritten n hn
    rw [h.mem_ids_iff]
    exact hin.containers d hd id (hw.containerId ▸ hid)
  · obtain ⟨d, hd, hw⟩ := hwritten n hn
    rw [h.mem_ids_iff]
    exact hin.toolOwners d hd id (hw.toolOwnerId ▸ hid)
  · obtain ⟨d, hd, hsource, htarget⟩ := hends e he
    rw [h.mem_ids_iff, h.mem_ids_iff, hsource, htarget]
    exact ⟨(hin.ends d hd).1, (hin.ends d hd).2, hsource ▸ htarget ▸ hloops e he⟩

theorem filter_remaining {α : Type} (workflowId : α → uuid) (items : List α) (gone v : uuid) :
    ((items.filter fun x => workflowId x ≠ gone).filter fun x => workflowId x = v) =
      if v = gone then [] else items.filter fun x => workflowId x = v := by
  rw [List.filter_filter]
  split_ifs with hv
  · exact List.filter_eq_nil_iff.mpr fun x _ => by simp [hv]
  · refine List.filter_congr fun x _ => ?_
    by_cases hx : workflowId x = v
    · simp [hx, hv]
    · simp [hx]

theorem syncEdges_spec {edgeIds : Nat → uuid} {dtos : List (CanvasEdge uuid)}
    (h : syncEdges s w edgeIds dtos = .ok (s', links)) :
    links = dtos.mapIdx (fun i dto => dto.newEdge (edgeIds i) w) ∧
      (s'.edges.map Edge.id).Nodup ∧ (s'.edges.map Edge.connection).Nodup ∧
      (∀ e ∈ links, e.sourceNodeId ≠ e.targetNodeId) ∧ s'.edgesOf w = links ∧
      (∀ v, v ≠ w → s'.edgesOf v = s.edgesOf v) ∧
      s'.workflows = s.workflows ∧ s'.nodes = s.nodes ∧ s'.versions = s.versions := by
  simp only [syncEdges, bind_eq_ok_iff] at h
  obtain ⟨s₁, hinsert, hpure⟩ := h
  obtain ⟨rfl, rfl⟩ : s₁ = s' ∧ dtos.mapIdx (fun i dto => dto.newEdge (edgeIds i) w) = links :=
    Prod.mk.injEq _ _ _ _ ▸ Except.ok.inj hpure
  obtain ⟨hids, hloops, hconnections, rfl⟩ := insertEdges_eq_ok_iff.mp hinsert
  have hlinks : ∀ e ∈ dtos.mapIdx fun i dto => dto.newEdge (edgeIds i) w, e.workflowId = w := by
    intro e he
    obtain ⟨i, hi, rfl⟩ := List.mem_mapIdx.mp he
    rfl
  refine ⟨rfl, hids, hconnections, hloops, ?_, fun v hv => ?_, rfl, rfl, rfl⟩
  · unfold Store.edgesOf Store.deleteEdgesOf
    dsimp only
    rw [List.filter_append, filter_edge_self hlinks, filter_remaining, if_pos rfl, List.nil_append]
  · unfold Store.edgesOf Store.deleteEdgesOf
    dsimp only
    rw [List.filter_append, filter_edge_ne hlinks hv, List.append_nil, filter_remaining, if_neg hv]

theorem map_id_updateWorkflow (row : Workflow uuid) :
    (s.updateWorkflow row).workflows.map Workflow.id = s.workflows.map Workflow.id := by
  unfold Store.updateWorkflow
  dsimp only
  rw [List.map_map]
  refine List.map_congr_left fun other _ => ?_
  show Workflow.id (if other.id = row.id then row else other) = other.id
  split_ifs with hid
  · exact hid.symm
  · rfl

theorem updateWorkflow_canvasOk (hs : CanvasOk s) (row : Workflow uuid) :
    CanvasOk (s.updateWorkflow row) :=
  ⟨map_id_updateWorkflow (s := s) row ▸ hs.workflowIds, hs.nodeIds, hs.edgeIds, hs.connections,
    fun n hn => map_id_updateWorkflow (s := s) row ▸ hs.home n hn, hs.closed, hs.versions,
    fun v hv => map_id_updateWorkflow (s := s) row ▸ hs.versionHome v hv⟩

theorem max?_range' (k : Nat) : (List.range' 1 k).max? = if k = 0 then none else some k := by
  cases k with
  | zero => rfl
  | succ k =>
    rw [if_neg (Nat.succ_ne_zero k), List.max?_eq_some_iff]
    constructor
    · rw [List.mem_range'_1]
      omega
    · intro n hn
      rw [List.mem_range'_1] at hn
      omega

theorem CanvasOk.nextVersion_eq (hs : CanvasOk s) (w : uuid) :
    nextVersion s w = (s.versionsOf w).length + 1 := by
  unfold nextVersion
  rw [hs.versions w, max?_range']
  by_cases h : (s.versionsOf w).length = 0
  · rw [if_pos h, h]
  · rw [if_neg h]

theorem insertVersion_eq_ok_iff {version : WorkflowVersion uuid} :
    s.insertVersion version = .ok s' ↔
      version.id ∉ s.versions.map WorkflowVersion.id ∧
      (∀ other ∈ s.versionsOf version.workflowId, other.version ≠ version.version) ∧
      s' = { s with versions := s.versions ++ [version] } := by
  unfold Store.insertVersion
  split_ifs with h
  · refine iff_of_false (fun heq => nomatch heq) fun hok => ?_
    obtain hid | hversion := h
    · exact hok.1 hid
    · obtain ⟨other, hother, heq⟩ := List.any_eq_true.mp hversion
      exact hok.2.1 other hother (by simpa using heq)
  · rw [not_or] at h
    constructor
    · intro heq
      refine ⟨h.1, fun other hother hversion => h.2 ?_, (Except.ok.inj heq).symm⟩
      exact List.any_eq_true.mpr ⟨other, hother, decide_eq_true hversion⟩
    · rintro ⟨-, -, rfl⟩
      rfl

theorem insertVersion_canvasOk (hs : CanvasOk s) {version : WorkflowVersion uuid}
    (hw : version.workflowId ∈ s.workflows.map Workflow.id)
    (hversion : version.version = nextVersion s version.workflowId)
    (h : s.insertVersion version = .ok s') : CanvasOk s' := by
  obtain ⟨-, -, rfl⟩ := insertVersion_eq_ok_iff.mp h
  refine ⟨hs.workflowIds, hs.nodeIds, hs.edgeIds, hs.connections, hs.home, hs.closed, fun v => ?_,
    fun v hv => ?_⟩
  · have hsplit : Store.versionsOf { s with versions := s.versions ++ [version] } v =
        s.versionsOf v ++ [version].filter fun other => other.workflowId = v := List.filter_append _ _
    rw [hsplit, List.map_append, hs.versions v, List.length_append]
    by_cases hv : version.workflowId = v
    · have hone : ([version].filter fun other => other.workflowId = v) = [version] :=
        List.filter_eq_self.mpr fun other hother => by simpa [List.mem_singleton.mp hother] using hv
      rw [hone, List.map_singleton, hversion, hs.nextVersion_eq, hv, List.length_singleton,
        List.range'_1_concat, Nat.add_comm 1]
    · have hnone : ([version].filter fun other => other.workflowId = v) = [] :=
        List.filter_eq_nil_iff.mpr fun other hother => by simpa [List.mem_singleton.mp hother] using hv
      rw [hnone, List.map_nil, List.append_nil, List.length_nil, Nat.add_zero]
  · obtain hv | hv := List.mem_append.mp hv
    · exact hs.versionHome v hv
    · rw [List.mem_singleton.mp hv]
      exact hw

/-- What a request that writes the whole canvas of `w` leaves behind. -/
structure CanvasWritten (s s' : Store uuid) (w : uuid) (dtos : List (CanvasNode uuid))
    (edges : List (CanvasEdge uuid)) (edgeIds : Nat → uuid) (version : WorkflowVersion uuid) : Prop extends
    NodesWritten s s' w dtos where
  listed : w ∈ s.workflows.map Workflow.id
  workflowIds : s'.workflows.map Workflow.id = s.workflows.map Workflow.id
  edges : s'.edgesOf w = edges.mapIdx fun i dto => dto.newEdge (edgeIds i) w
  otherEdges : ∀ v, v ≠ w → s'.edgesOf v = s.edgesOf v
  versions : s'.versions = s.versions ++ [version]
  home : version.workflowId = w
  snapshotNodes : version.snapshot.nodes = (nodesToSave w dtos (s.nodesOf w)).map Node.snapshot
  snapshotEdges : version.snapshot.edges = (s'.edgesOf w).map Edge.snapshot
  canvasOk : CanvasOk s'

omit [DecidableEq uuid] in
theorem applyIntegrationRefRules_spec {gates : CanvasGates uuid} {origin : Origin}
    {dtos dtos' : List (CanvasNode uuid)} (h : applyIntegrationRefRules gates origin dtos = .ok dtos') :
    dtos' = match origin with
      | .save => dtos
      | .restore => dtos.map fun n => { n with config := some (gates.clearRefs n) } := by
  cases origin with
  | save =>
    simp only [applyIntegrationRefRules, bind_eq_ok_iff] at h
    obtain ⟨-, -, hpure⟩ := h
    exact (Except.ok.inj hpure).symm
  | restore => exact (Except.ok.inj h).symm

omit [DecidableEq uuid] in
/-- Only the settings of the nodes may differ from the request. -/
theorem applyIntegrationRefRules_map {β : Type} {gates : CanvasGates uuid} {origin : Origin}
    {dtos dtos' : List (CanvasNode uuid)} (h : applyIntegrationRefRules gates origin dtos = .ok dtos')
    (f : CanvasNode uuid → β) (hf : ∀ (n : CanvasNode uuid) config, f { n with config } = f n) :
    dtos'.map f = dtos.map f := by
  rw [applyIntegrationRefRules_spec h]
  cases origin with
  | save => rfl
  | restore =>
    dsimp only
    rw [List.map_map]
    exact List.map_congr_left fun n _ => hf n _

omit [DecidableEq uuid] in
theorem InCanvas.of_rules {gates : CanvasGates uuid} {origin : Origin} {dto : SaveCanvasDto uuid}
    {dtos : List (CanvasNode uuid)} (h : InCanvas dto)
    (hrules : applyIntegrationRefRules gates origin dto.nodes = .ok dtos) :
    InCanvas { dto with nodes := dtos } := by
  have hids : dtos.map CanvasNode.id = dto.nodes.map CanvasNode.id :=
    applyIntegrationRefRules_map hrules _ fun _ _ => rfl
  have hcontainers := applyIntegrationRefRules_map hrules CanvasNode.containerId fun _ _ => rfl
  have howners := applyIntegrationRefRules_map hrules CanvasNode.toolOwnerId fun _ _ => rfl
  refine ⟨fun d hd => ?_, fun d hd => ?_, fun e he => ?_⟩
  · have hmem := List.mem_map_of_mem (f := CanvasNode.containerId) hd
    rw [hcontainers] at hmem
    obtain ⟨d', hd', heq⟩ := List.mem_map.mp hmem
    rw [hids, ← heq]
    exact h.containers d' hd'
  · have hmem := List.mem_map_of_mem (f := CanvasNode.toolOwnerId) hd
    rw [howners] at hmem
    obtain ⟨d', hd', heq⟩ := List.mem_map.mp hmem
    rw [hids, ← heq]
    exact h.toolOwners d' hd'
  · rw [hids]
    exact h.ends e he

theorem writeCanvas_written (hs : CanvasOk s) {gates : CanvasGates uuid} {drawn : DrawnIds uuid}
    {userId : uuid} {dto : SaveCanvasDto uuid} {origin : Origin}
    (h : writeCanvas gates drawn s id workspaceId userId dto origin = .ok s') :
    ∃ dtos version, applyIntegrationRefRules gates origin dto.nodes = .ok dtos ∧
      CanvasWritten s s' id dtos dto.edges drawn.edge version := by
  simp only [writeCanvas, bind_eq_ok_iff] at h
  obtain ⟨workflow, hfind, _, -, _, hlabels, _, hrefs, _, -, dtos, hrules, ⟨s₁, rows⟩, hnodes, ⟨s₂, links⟩,
    hedges, _, -, hversion⟩ := h
  obtain ⟨hworkflow, hid, -⟩ := findWorkflow_spec (findById_eq_ok_iff.mp hfind)
  have hlisted : id ∈ s.workflows.map Workflow.id := hid ▸ List.mem_map_of_mem hworkflow
  set row : Workflow uuid := { workflow with
    name := dto.name.getD workflow.name, currentVersion := workflow.currentVersion + 1 } with hrow
  have hs₀ : CanvasOk (s.updateWorkflow row) := updateWorkflow_canvasOk hs row
  have hids₀ : (s.updateWorkflow row).workflows.map Workflow.id = s.workflows.map Workflow.id :=
    map_id_updateWorkflow row
  obtain ⟨rfl, hsynced⟩ := synced_of_syncNodes hs₀ (hids₀ ▸ hlisted) hnodes
  obtain ⟨hlinks, hedgeIds, hconnections, hloops, hown, hother, hw₂, hn₂, hv₂⟩ := syncEdges_spec hedges
  rw [validateUniqueLabels, uniqueLabels_eq_ok_iff,
    ← applyIntegrationRefRules_map hrules CanvasNode.label fun _ _ => rfl] at hlabels
  have hin := (validateCanvasReferences_eq_ok_iff.mp hrefs).of_rules hrules
  have hnodesOf : ∀ v, s₂.nodesOf v = s₁.nodesOf v := fun v => by unfold Store.nodesOf; rw [hn₂]
  have hclosed : Closed (s₁.nodesOf id) links := by
    have hnodesWritten : NodesWritten (s.updateWorkflow row) s₁ id
        (SaveCanvasDto.nodes { dto with nodes := dtos }) := hsynced.toNodesWritten
    refine hnodesWritten.closed hlabels hin (fun e he => ?_) hloops
    rw [hlinks] at he
    obtain ⟨i, hi, rfl⟩ := List.mem_mapIdx.mp he
    exact ⟨_, List.getElem_mem hi, rfl, rfl⟩
  have hrewrites : Rewrites (s.updateWorkflow row) s₂ id (s₁.nodesOf id) links := by
    refine ⟨.inl (by rw [hw₂, hsynced.workflows]), ?_, hnodesOf id, hown, fun v hv => ?_, fun v hv => ?_, ?_,
      hn₂ ▸ hsynced.nodeIds, hedgeIds, hconnections⟩
    · rw [hw₂, hsynced.workflows, hids₀]
      exact hlisted
    · rw [hnodesOf, hsynced.others v hv]
    · rw [hother v hv, hsynced.otherEdges v hv]
    · rw [hv₂, hsynced.versions]
  have hs₂ : CanvasOk s₂ := hrewrites.canvasOk hs₀ hclosed
  have hs' : CanvasOk s' := insertVersion_canvasOk hs₂ hrewrites.listed rfl hversion
  obtain ⟨-, -, rfl⟩ := insertVersion_eq_ok_iff.mp hversion
  let version : WorkflowVersion uuid :=
    { id := drawn.version
      workflowId := id
      version := nextVersion s₂ id
      snapshot := buildSnapshot row (nodesToSave id dtos (s.nodesOf id)) links
      changeSummary := dto.changeSummary
      createdBy := userId }
  refine ⟨dtos, version, hrules, ⟨hsynced.unused, hs'.nodeIds, ?_, ?_, ?_⟩, hlisted, ?_, ?_, ?_, ?_, rfl, rfl,
    ?_, hs'⟩
  · intro n hn
    exact hsynced.placed n (hnodesOf id ▸ hn)
  · intro n
    exact (hnodesOf id).symm ▸ hsynced.own n
  · intro v hv
    exact (hnodesOf v).trans (hsynced.others v hv)
  · show s₂.workflows.map Workflow.id = s.workflows.map Workflow.id
    rw [hw₂, hsynced.workflows, hids₀]
  · exact hown.trans hlinks
  · intro v hv
    exact (hother v hv).trans (hsynced.otherEdges v hv)
  · show s₂.versions ++ _ = s.versions ++ _
    rw [hv₂, hsynced.versions]
    rfl
  · show links.map Edge.snapshot = (s₂.edgesOf id).map Edge.snapshot
    rw [hown]

/-! ## 4. One node or edge -/

omit [DecidableEq uuid] in
theorem saveWithUniqueConstraint_eq_ok_iff {result : Except ServiceException (Store uuid)} :
    saveWithUniqueConstraint result = .ok s' ↔ result = .ok s' := by
  unfold saveWithUniqueConstraint
  split
  · exact iff_of_false (fun h => nomatch h) fun h => nomatch h
  · exact Iff.rfl

theorem findNode_spec {node : Node uuid} (h : findNode s id workspaceId = .ok node) :
    node ∈ s.nodes ∧ node.id = id := by
  unfold findNode at h
  cases hfind : s.nodes.find? fun n => n.id = id with
  | none =>
    rw [hfind] at h
    cases h
  | some found =>
    rw [hfind] at h
    dsimp only at h
    split_ifs at h
    cases h
    exact ⟨List.mem_of_find?_eq_some hfind, by simpa using List.find?_some hfind⟩

theorem insertNode_canvasOk (hs : CanvasOk s) {row : Node uuid}
    (hlisted : row.workflowId ∈ s.workflows.map Workflow.id)
    (hlabel : ∀ n ∈ s.nodesOf row.workflowId, n.label ≠ row.label)
    (hcontainer : ∀ id ∈ row.containerId, id ∈ (s.nodesOf row.workflowId).map Node.id)
    (howner : ∀ id ∈ row.toolOwnerId, id ∈ (s.nodesOf row.workflowId).map Node.id)
    (h : s.insertNodes [row] = .ok s') : CanvasOk s' := by
  obtain ⟨hids, hplaced, rfl⟩ := insertNodes_eq_ok_iff.mp h
  have hone : ∀ n ∈ [row], n.workflowId = row.workflowId := fun n hn => by rw [List.mem_singleton.mp hn]
  have hrewrites : Rewrites s { s with nodes := s.nodes ++ [row] } row.workflowId
      (s.nodesOf row.workflowId ++ [row]) (s.edgesOf row.workflowId) := by
    refine ⟨.inl rfl, hlisted, ?_, rfl, fun v hv => ?_, fun _ _ => rfl, rfl, hids, hs.edgeIds,
      hs.connections⟩
    · unfold Store.nodesOf
      rw [List.filter_append, filter_workflow_self hone]
    · unfold Store.nodesOf
      rw [List.filter_append, filter_workflow_ne hone hv, List.append_nil]
  have hclosed := hs.closed row.workflowId
  have hgrown : ∀ id ∈ (s.nodesOf row.workflowId).map Node.id,
      id ∈ (s.nodesOf row.workflowId ++ [row]).map Node.id := by
    intro id hid
    rw [List.map_append]
    exact List.mem_append_left _ hid
  refine hrewrites.canvasOk hs ⟨?_, fun n hn id hid => ?_, fun n hn id hid => ?_, fun n hn => ?_,
    fun e he => ?_⟩
  · rw [List.map_append]
    refine List.Nodup.append hclosed.labels (List.nodup_singleton _) ?_
    rw [List.map_singleton, List.disjoint_singleton]
    intro hmem
    obtain ⟨n, hn, heq⟩ := List.mem_map.mp hmem
    exact hlabel n hn heq
  · obtain hn | hn := List.mem_append.mp hn
    · exact hgrown id (hclosed.containers n hn id hid)
    · rw [List.mem_singleton.mp hn] at hid
      exact hgrown id (hcontainer id hid)
  · obtain hn | hn := List.mem_append.mp hn
    · exact hgrown id (hclosed.toolOwners n hn id hid)
    · rw [List.mem_singleton.mp hn] at hid
      exact hgrown id (howner id hid)
  · obtain hn | hn := List.mem_append.mp hn
    · exact hclosed.placed n hn
    · exact hplaced n hn
  · obtain ⟨hsource, htarget, hne⟩ := hclosed.ends e he
    exact ⟨hgrown _ hsource, hgrown _ htarget, hne⟩

theorem createNode_canvasOk (hs : CanvasOk s) {gates : CanvasGates uuid} {dto : CanvasNode uuid}
    (h : createNode gates s w workspaceId dto = .ok s') : CanvasOk s' := by
  simp only [createNode, bind_eq_ok_iff, saveWithUniqueConstraint_eq_ok_iff] at h
  obtain ⟨workflow, hfind, _, hlabel, _, hplacement, _, -, hinsert⟩ := h
  obtain ⟨hworkflow, hid, -⟩ := findWorkflow_spec (findById_eq_ok_iff.mp hfind)
  rw [assertLabelUnique_eq_ok_iff] at hlabel
  rw [assertPlacementInWorkflow_eq_ok_iff] at hplacement
  refine insertNode_canvasOk hs (hid ▸ List.mem_map_of_mem hworkflow) (fun n hn heq => ?_) hplacement.1
    hplacement.2 hinsert
  have := hlabel n hn heq
  cases this

theorem assertNewLabelUnique_spec {node : Node uuid} {label : String} {u : Unit} (hs : CanvasOk s)
    (hnode : node ∈ s.nodes) (h : assertNewLabelUnique s node label = .ok u) :
    ∀ n ∈ s.nodesOf node.workflowId, n.label = label → n.id = node.id := by
  intro n hn hlabel
  unfold assertNewLabelUnique at h
  split_ifs at h with hsame
  · have hmem : node ∈ s.nodesOf node.workflowId := mem_nodesOf_iff.mpr ⟨hnode, rfl⟩
    have heq : n = node :=
      List.inj_on_of_nodup_map (hs.closed node.workflowId).labels hn hmem (hlabel.trans hsame)
    rw [heq]
  · rw [assertLabelUnique_eq_ok_iff] at h
    exact (Option.some.inj (h n hn hlabel)).symm

/-- A row takes the place of the one with its id. -/
theorem replaceNode_canvasOk (hs : CanvasOk s) {node row : Node uuid} (hnode : node ∈ s.nodes)
    (hid : row.id = node.id) (hworkflow : row.workflowId = node.workflowId)
    (hlabel : ∀ n ∈ s.nodesOf node.workflowId, n.label = row.label → n.id = node.id)
    (hcontainer : ∀ id ∈ row.containerId, id ∈ (s.nodesOf node.workflowId).map Node.id)
    (howner : ∀ id ∈ row.toolOwnerId, id ∈ (s.nodesOf node.workflowId).map Node.id)
    (h : s.updateNodes [row] = .ok s') : CanvasOk s' := by
  obtain ⟨hplaced, rfl⟩ := updateNodes_eq_ok_iff.mp h
  have hclosed := hs.closed node.workflowId
  have hnodesOf : ∀ v, Store.nodesOf { s with nodes := s.nodes.map (Node.updated [row]) } v =
      (s.nodesOf v).map (Node.updated [row]) := by
    intro v
    refine filter_map_updated (fun r hr => by rw [List.mem_singleton.mp hr]) fun n hn hmem => ?_
    rw [List.map_singleton, List.mem_singleton, hid] at hmem
    rw [node_eq_of_id hs.nodeIds hn hnode hmem, hworkflow]
  have hcases : ∀ n : Node uuid, n.id = row.id ∧ n.updated [row] = row ∨
      n.id ≠ row.id ∧ n.updated [row] = n := by
    intro n
    by_cases heq : n.id = row.id
    · exact .inl ⟨heq, updated_eq_row (List.mem_singleton.mpr rfl) heq fun other hother _ =>
        List.mem_singleton.mp hother⟩
    · exact .inr ⟨heq, updated_eq_self (by simpa using heq)⟩
  have hrewrites : Rewrites s { s with nodes := s.nodes.map (Node.updated [row]) } node.workflowId
      ((s.nodesOf node.workflowId).map (Node.updated [row])) (s.edgesOf node.workflowId) := by
    refine ⟨.inl rfl, hs.home node hnode, hnodesOf _, rfl, fun v hv => ?_, fun _ _ => rfl, rfl, ?_, hs.edgeIds,
      hs.connections⟩
    · rw [hnodesOf]
      refine updated_other fun n hn hmem => hv ?_
      rw [List.map_singleton, List.mem_singleton, hid] at hmem
      obtain ⟨hn', hnv⟩ := mem_nodesOf_iff.mp hn
      rw [← hnv, node_eq_of_id hs.nodeIds hn' hnode hmem]
    · show ((s.nodes.map (Node.updated [row])).map Node.id).Nodup
      rw [map_id_updated]
      exact hs.nodeIds
  refine hrewrites.canvasOk hs ⟨?_, fun n hn id href => ?_, fun n hn id href => ?_, fun n hn => ?_, ?_⟩
  · rw [List.map_map]
    have hnodup : (s.nodesOf node.workflowId).Nodup := List.Nodup.of_map _ hclosed.labels
    refine List.Nodup.map_on (fun m hm n hn heq => ?_) hnodup
    have hinj : ∀ {a b}, a ∈ s.nodesOf node.workflowId → b ∈ s.nodesOf node.workflowId → a.id = b.id →
        a = b := fun ha hb =>
      node_eq_of_id hs.nodeIds (mem_nodesOf_iff.mp ha).1 (mem_nodesOf_iff.mp hb).1
    -- the row is compared with a label that is new, and the others have kept theirs
    obtain ⟨hm', hmr⟩ | ⟨hm', hmr⟩ := hcases m <;> obtain ⟨hn', hnr⟩ | ⟨hn', hnr⟩ := hcases n
    · exact hinj hm hn (hm'.trans hn'.symm)
    · simp only [Function.comp_apply, hmr, hnr] at heq
      exact absurd ((hlabel n hn heq.symm).trans hid.symm) hn'
    · simp only [Function.comp_apply, hmr, hnr] at heq
      exact absurd ((hlabel m hm heq).trans hid.symm) hm'
    · simp only [Function.comp_apply, hmr, hnr] at heq
      exact List.inj_on_of_nodup_map hclosed.labels hm hn heq
  · rw [map_id_updated]
    obtain ⟨m, hm, rfl⟩ := List.mem_map.mp hn
    obtain ⟨-, heq⟩ | ⟨-, heq⟩ := hcases m
    · exact hcontainer id (heq ▸ href)
    · exact hclosed.containers m hm id (heq ▸ href)
  · rw [map_id_updated]
    obtain ⟨m, hm, rfl⟩ := List.mem_map.mp hn
    obtain ⟨-, heq⟩ | ⟨-, heq⟩ := hcases m
    · exact howner id (heq ▸ href)
    · exact hclosed.toolOwners m hm id (heq ▸ href)
  · obtain ⟨m, hm, rfl⟩ := List.mem_map.mp hn
    obtain ⟨-, heq⟩ | ⟨-, heq⟩ := hcases m
    · rw [heq]
      exact hplaced row (List.mem_singleton.mpr rfl)
    · rw [heq]
      exact hclosed.placed m hm
  · rw [map_id_updated]
    exact hclosed.ends

theorem updateNode_canvasOk (hs : CanvasOk s) {gates : CanvasGates uuid} {dto : UpdateNodeDto uuid}
    (h : updateNode gates s id workspaceId dto = .ok s') : CanvasOk s' := by
  simp only [updateNode, bind_eq_ok_iff, saveWithUniqueConstraint_eq_ok_iff] at h
  obtain ⟨node, hfind, _, hlabel, _, hplacement, _, -, hupdate⟩ := h
  obtain ⟨hnode, rfl⟩ := findNode_spec hfind
  rw [assertPlacementInWorkflow_eq_ok_iff] at hplacement
  have hmem : node ∈ s.nodesOf node.workflowId := mem_nodesOf_iff.mpr ⟨hnode, rfl⟩
  have hclosed := hs.closed node.workflowId
  have hnewLabel : ∀ n ∈ s.nodesOf node.workflowId, n.label = (dto.assign node).label → n.id = node.id :=
    assertNewLabelUnique_spec hs hnode hlabel
  have hid : (dto.assign node).id = node.id := rfl
  refine replaceNode_canvasOk hs hnode hid rfl hnewLabel (fun id hid => ?_) (fun id hid => ?_) hupdate
  · cases hsent : dto.containerId with
    | none =>
      have hkept : (dto.assign node).containerId = node.containerId := by simp [UpdateNodeDto.assign, hsent]
      exact hclosed.containers node hmem id (hkept ▸ hid)
    | some sent =>
      have hnew : (dto.assign node).containerId = sent := by simp [UpdateNodeDto.assign, hsent]
      exact hplacement.1 id (by rw [hsent]; exact hnew ▸ hid)
  · cases hsent : dto.toolOwnerId with
    | none =>
      have hkept : (dto.assign node).toolOwnerId = node.toolOwnerId := by simp [UpdateNodeDto.assign, hsent]
      exact hclosed.toolOwners node hmem id (hkept ▸ hid)
    | some sent =>
      have hnew : (dto.assign node).toolOwnerId = sent := by simp [UpdateNodeDto.assign, hsent]
      exact hplacement.2 id (by rw [hsent]; exact hnew ▸ hid)

theorem removeNode_canvasOk (hs : CanvasOk s) (h : removeNode s id workspaceId = .ok s') : CanvasOk s' := by
  simp only [removeNode, bind_eq_ok_iff] at h
  obtain ⟨node, hfind, hpure⟩ := h
  obtain rfl := (Except.ok.inj hpure).symm
  obtain ⟨hnode, rfl⟩ := findNode_spec hfind
  refine (deleteNodes_rewrites hs (hs.home node hnode) [node.id] fun id hid => ?_).canvasOk hs (hs.closed _).kept
  rw [List.mem_singleton.mp hid]
  exact List.mem_map_of_mem (mem_nodesOf_iff.mpr ⟨hnode, rfl⟩)

omit [DecidableEq uuid] in
theorem Closed.of_edges (h : Closed nodes edges)
    (hlinks : ∀ e ∈ links, e ∈ edges ∨ e.sourceNodeId ∈ nodes.map Node.id ∧
      e.targetNodeId ∈ nodes.map Node.id ∧ e.sourceNodeId ≠ e.targetNodeId) : Closed nodes links := by
  refine ⟨h.labels, h.containers, h.toolOwners, h.placed, fun e he => ?_⟩
  obtain he | he := hlinks e he
  · exact h.ends e he
  · exact he

theorem createEdge_canvasOk (hs : CanvasOk s) {dto : CanvasEdge uuid}
    (h : createEdge s id w workspaceId dto = .ok s') : CanvasOk s' := by
  simp only [createEdge, bind_eq_ok_iff, refuseIf_eq_ok_iff] at h
  obtain ⟨workflow, hfind, _, -, _, hinvalid, hinsert⟩ := h
  obtain ⟨hworkflow, hw, -⟩ := findWorkflow_spec (findById_eq_ok_iff.mp hfind)
  obtain ⟨hids, hloops, hconnections, rfl⟩ := insertEdges_eq_ok_iff.mp hinsert
  have hone : ∀ e ∈ [dto.newEdge id w], e.workflowId = w := fun e he => by rw [List.mem_singleton.mp he]; rfl
  have hrewrites : Rewrites s { s with edges := s.edges ++ [dto.newEdge id w] } w (s.nodesOf w)
      (s.edgesOf w ++ [dto.newEdge id w]) := by
    refine ⟨.inl rfl, hw ▸ List.mem_map_of_mem hworkflow, rfl, ?_, fun _ _ => rfl, fun v hv => ?_, rfl,
      hs.nodeIds, hids, hconnections⟩
    · unfold Store.edgesOf
      rw [List.filter_append, filter_edge_self hone]
    · unfold Store.edgesOf
      rw [List.filter_append, filter_edge_ne hone hv, List.append_nil]
  refine hrewrites.canvasOk hs ((hs.closed w).of_edges fun e he => ?_)
  obtain he | he := List.mem_append.mp he
  · exact .inl he
  · have hinside : _ ++ _ = [] := of_not_not (by simpa using hinvalid)
    rw [List.append_eq_nil_iff, outside_eq_nil_iff, outside_eq_nil_iff] at hinside
    rw [List.mem_singleton.mp he]
    exact .inr ⟨hinside.1 _ rfl, hinside.2 _ rfl, hloops _ (List.mem_singleton.mpr rfl)⟩

theorem removeEdge_canvasOk (hs : CanvasOk s) (h : removeEdge s id workspaceId = .ok s') : CanvasOk s' := by
  unfold removeEdge at h
  cases hfind : s.edges.find? fun e => e.id = id with
  | none =>
    rw [hfind] at h
    cases h
  | some edge =>
    rw [hfind] at h
    dsimp only at h
    split_ifs at h
    cases h
    have hsublist : (s.deleteEdge edge.id).edges.Sublist s.edges := List.filter_sublist
    refine ⟨hs.workflowIds, hs.nodeIds, hs.edgeIds.sublist (hsublist.map _),
      hs.connections.sublist (hsublist.map _), hs.home, fun v => ?_, hs.versions, hs.versionHome⟩
    refine (hs.closed v).of_edges fun e he => .inl ?_
    rw [mem_edgesOf_iff] at he ⊢
    exact ⟨hsublist.mem he.1, he.2⟩

/-- Whatever belongs to the workflow goes with it. -/
theorem remove_canvasOk (hs : CanvasOk s) (h : remove s id workspaceId = .ok s') : CanvasOk s' := by
  simp only [remove, bind_eq_ok_iff] at h
  obtain ⟨workflow, hfind, hpure⟩ := h
  obtain rfl := (Except.ok.inj hpure).symm
  set gone := workflow.id
  have hnodes : ∀ v, (s.deleteWorkflow gone).nodesOf v = if v = gone then [] else s.nodesOf v :=
    filter_remaining Node.workflowId s.nodes gone
  have hedges : ∀ v, (s.deleteWorkflow gone).edgesOf v = if v = gone then [] else s.edgesOf v :=
    filter_remaining Edge.workflowId s.edges gone
  have hversions : ∀ v, (s.deleteWorkflow gone).versionsOf v = if v = gone then [] else s.versionsOf v :=
    filter_remaining WorkflowVersion.workflowId s.versions gone
  have hlisted : ∀ v ∈ s.workflows.map Workflow.id, v ≠ gone →
      v ∈ (s.deleteWorkflow gone).workflows.map Workflow.id := by
    intro v hv hne
    obtain ⟨other, hother, rfl⟩ := List.mem_map.mp hv
    exact List.mem_map_of_mem (List.mem_filter.mpr ⟨hother, decide_eq_true hne⟩)
  refine ⟨hs.workflowIds.sublist (List.filter_sublist.map _), hs.nodeIds.sublist (List.filter_sublist.map _),
    hs.edgeIds.sublist (List.filter_sublist.map _), hs.connections.sublist (List.filter_sublist.map _),
    fun n hn => ?_, fun v => ?_, fun v => ?_, fun v hv => ?_⟩
  · obtain ⟨hn, hne⟩ := List.mem_filter.mp hn
    exact hlisted _ (hs.home n hn) (of_decide_eq_true hne)
  · rw [hnodes, hedges]
    split_ifs
    · exact closed_nil
    · exact hs.closed v
  · rw [hversions]
    split_ifs
    · rfl
    · exact hs.versions v
  · obtain ⟨hv, hne⟩ := List.mem_filter.mp hv
    exact hlisted _ (hs.versionHome v hv) (of_decide_eq_true hne)

/-! ## 5. Runs -/

theorem CanvasCall.run_canvasOk (c : CanvasCall uuid) (hs : CanvasOk s) (h : c.run s = .ok s') :
    CanvasOk s' := by
  unfold CanvasCall.run at h
  cases hrequest : c.request with
  | create workspaceId userId dto => rw [hrequest] at h; exact create_canvasOk hs h
  | saveCanvas id workspaceId userId dto =>
    rw [hrequest] at h
    obtain ⟨dtos, version, -, hwritten⟩ := writeCanvas_written hs h
    exact hwritten.canvasOk
  | restoreVersion id workspaceId versionId userId =>
    rw [hrequest] at h
    simp only [restoreVersion, bind_eq_ok_iff] at h
    obtain ⟨_, -, target, -, hwrite⟩ := h
    obtain ⟨dtos, version, -, hwritten⟩ := writeCanvas_written hs hwrite
    exact hwritten.canvasOk
  | duplicate id workspaceId userId => rw [hrequest] at h; exact duplicate_canvasOk hs h
  | importWorkflow workspaceId userId dto =>
    rw [hrequest] at h
    dsimp only at h
    split_ifs at h
    exact importWorkflow_canvasOk hs h
  | remove id workspaceId => rw [hrequest] at h; exact remove_canvasOk hs h
  | createNode workflowId workspaceId dto => rw [hrequest] at h; exact createNode_canvasOk hs h
  | updateNode id workspaceId dto => rw [hrequest] at h; exact updateNode_canvasOk hs h
  | removeNode id workspaceId => rw [hrequest] at h; exact removeNode_canvasOk hs h
  | createEdge workflowId workspaceId dto => rw [hrequest] at h; exact createEdge_canvasOk hs h
  | removeEdge id workspaceId => rw [hrequest] at h; exact removeEdge_canvasOk hs h

theorem canvasOk_after (calls : List (CanvasCall uuid)) : CanvasOk (storeAfter calls) := by
  unfold storeAfter
  induction calls using List.reverseRecOn with
  | nil => exact canvasOk_empty
  | append_singleton calls c ih =>
    rw [List.foldl_append, List.foldl_cons, List.foldl_nil]
    cases hrun : c.run (calls.foldl (fun s c => (c.run s).toOption.getD s) .empty) with
    | error e => exact ih
    | ok s' => exact c.run_canvasOk ih hrun

/-- Other subsystems that have nothing to say. -/
def sampleGates : CanvasGates Nat where
  invalidParameters _ := false
  reservedName _ _ := false
  unusableRefs _ := []
  clearRefs n := n.config.getD (.obj [])
  graphErrors _ _ := none
  folderInWorkspace _ _ := true
  importConfig _ config := config

def numberedFrom (k : Nat) : DrawnIds Nat where
  workflow := k
  version := k
  node i := k + 1 + i
  edge i := k + 1 + i

def sampleNode (id : Nat) (type label : String) (containerId : Option Nat) : CanvasNode Nat :=
  { id
    type
    category := "logic"
    label
    positionX := .finite 0
    positionY := .finite 0
    config := none
    isDisabled := none
    description := none
    containerId
    toolOwnerId := none }

/-- A workflow is created, and a loop with a node in it is saved. -/
def sampleCalls : List (CanvasCall Nat) :=
  [⟨.create 1 2 ⟨"Flow", none, none, none, none⟩, numberedFrom 10, sampleGates⟩,
    ⟨.saveCanvas 10 1 2
      ⟨none, [sampleNode 11 manualTriggerType "Start" none, sampleNode 6 "loop" "Loop" none,
        sampleNode 5 "code" "Code" (some 6)], [⟨11, none, 6, none, none, none⟩], none⟩,
      numberedFrom 20, sampleGates⟩]

end Clemvion.Workflows
