import Clemvion.Workflows.CanvasRuns
import Mathlib.Logic.Function.Basic

/-!
# Copies — a duplicated or imported workflow is the same graph under new ids

A duplicate sends ids to ids, and an export sends them to positions that the import sends to new ids.
Both are a renaming of the nodes, and because a canvas is closed nothing of it is lost on the way.
-/

namespace Clemvion.Workflows

open Common Js

variable {uuid : Type} [DecidableEq uuid] {s s' t : Store uuid} {id w workspaceId userId : uuid}
  {rows nodes : List (Node uuid)} {edges links : List (Edge uuid)} {gates : CanvasGates uuid}
  {drawn : DrawnIds uuid}

/-! ## 1. The renaming -/

/-- The new id of a node. -/
def renamedId (nodes : List (Node uuid)) (drawn : Nat → uuid) (id : uuid) : uuid :=
  (remap nodes drawn id).getD id

/-- A node that is copied into another workflow. -/
def Node.copied (gates : CanvasGates uuid) (rename : uuid → uuid) (w : uuid) (n : Node uuid) : Node uuid :=
  let row := { n with
    id := rename n.id
    workflowId := w
    containerId := n.containerId.map rename
    toolOwnerId := n.toolOwnerId.map rename }
  { row with config := gates.clearRefs row.snapshot }

def CanvasEdge.renamed (rename : uuid → uuid) (e : CanvasEdge uuid) : CanvasEdge uuid :=
  { e with
    sourceNodeId := rename e.sourceNodeId
    targetNodeId := rename e.targetNodeId }

theorem findIdx?_id (hids : (nodes.map Node.id).Nodup) {i : Nat} (hi : i < nodes.length) :
    (nodes.findIdx? fun n => n.id = nodes[i].id) = some i := by
  rw [List.findIdx?_eq_some_iff_getElem]
  refine ⟨hi, decide_eq_true rfl, fun j hj => ?_⟩
  rw [decide_eq_true_eq]
  intro heq
  have hi' : i < (nodes.map Node.id).length := by rwa [List.length_map]
  have hj' : j < (nodes.map Node.id).length := hj.trans hi'
  have hsame : (nodes.map Node.id)[j] = (nodes.map Node.id)[i] := by
    rw [List.getElem_map, List.getElem_map]
    exact heq
  exact absurd ((List.Nodup.getElem_inj_iff hids).mp hsame) hj.ne

theorem remap_getElem (hids : (nodes.map Node.id).Nodup) {draw : Nat → uuid} {i : Nat}
    (hi : i < nodes.length) : remap nodes draw nodes[i].id = some (draw i) := by
  unfold remap
  rw [findIdx?_id hids hi]
  rfl

theorem renamedId_getElem (hids : (nodes.map Node.id).Nodup) {draw : Nat → uuid} {i : Nat}
    (hi : i < nodes.length) : renamedId nodes draw nodes[i].id = draw i := by
  unfold renamedId
  rw [remap_getElem hids hi]
  rfl

/-- The position of a node is what the file has in place of its id. -/
theorem findIndex_getElem (hids : (nodes.map Node.id).Nodup) {i : Nat} (hi : i < nodes.length) :
    findIndex nodes nodes[i].id = i := by
  unfold findIndex
  rw [findIdx?_id hids hi]

omit [DecidableEq uuid] in
theorem exists_getElem_of_mem_ids (h : id ∈ nodes.map Node.id) :
    ∃ i, ∃ hi : i < nodes.length, nodes[i].id = id := by
  obtain ⟨n, hn, rfl⟩ := List.mem_map.mp h
  obtain ⟨i, hi, rfl⟩ := List.getElem_of_mem hn
  exact ⟨i, hi, rfl⟩

theorem remap_eq (hids : (nodes.map Node.id).Nodup) {draw : Nat → uuid} (h : id ∈ nodes.map Node.id) :
    remap nodes draw id = some (renamedId nodes draw id) := by
  obtain ⟨i, hi, rfl⟩ := exists_getElem_of_mem_ids h
  rw [renamedId_getElem hids hi, remap_getElem hids hi]

theorem nodeIdAt_findIndex (hids : (nodes.map Node.id).Nodup) {draw : Nat → uuid}
    (h : id ∈ nodes.map Node.id) :
    nodeIdAt draw nodes.length (findIndex nodes id) = some (renamedId nodes draw id) := by
  obtain ⟨i, hi, rfl⟩ := exists_getElem_of_mem_ids h
  rw [findIndex_getElem hids hi, renamedId_getElem hids hi]
  unfold nodeIdAt
  rw [if_pos ⟨by omega, by omega⟩, Int.toNat_natCast]

theorem renamedId_mem (hids : (nodes.map Node.id).Nodup) {draw : Nat → uuid} (h : id ∈ nodes.map Node.id) :
    renamedId nodes draw id ∈ (List.range nodes.length).map draw := by
  obtain ⟨i, hi, rfl⟩ := exists_getElem_of_mem_ids h
  rw [renamedId_getElem hids hi]
  exact List.mem_map_of_mem (List.mem_range.mpr hi)

/-- Two nodes never get the same id. -/
theorem renamedId_inj (hids : (nodes.map Node.id).Nodup) {draw : Nat → uuid}
    (hdraw : Function.Injective draw) {a b : uuid} (ha : a ∈ nodes.map Node.id)
    (hb : b ∈ nodes.map Node.id) (heq : renamedId nodes draw a = renamedId nodes draw b) : a = b := by
  obtain ⟨i, hi, rfl⟩ := exists_getElem_of_mem_ids ha
  obtain ⟨j, hj, rfl⟩ := exists_getElem_of_mem_ids hb
  rw [renamedId_getElem hids hi, renamedId_getElem hids hj] at heq
  simp only [hdraw heq]

/-! ## 2. A copy is always taken -/

/-- Ids that are new to the store. -/
structure DrawnIds.Fresh (drawn : DrawnIds uuid) (t : Store uuid) : Prop where
  workflow : drawn.workflow ∉ t.workflows.map Workflow.id
  node : Function.Injective drawn.node
  nodes : ∀ i, drawn.node i ∉ t.nodes.map Node.id
  edge : Function.Injective drawn.edge
  edges : ∀ i, drawn.edge i ∉ t.edges.map Edge.id

omit [DecidableEq uuid] in
theorem nodup_append_range {ids : List uuid} {draw : Nat → uuid} (hids : ids.Nodup)
    (hdraw : Function.Injective draw) (hnew : ∀ i, draw i ∉ ids) (count : Nat) :
    (ids ++ (List.range count).map draw).Nodup := by
  refine List.Nodup.append hids (List.nodup_range.map hdraw) ?_
  intro a ha hmem
  obtain ⟨i, -, rfl⟩ := List.mem_map.mp hmem
  exact hnew i ha

/-- Rows with new ids that refer to each other only are inserted, whatever the store holds. -/
theorem newCanvas_of_fresh (ht : CanvasOk t) (hfresh : drawn.Fresh t) {row : Workflow uuid}
    (hrow : row.id = drawn.workflow) (hids : rows.map Node.id = (List.range rows.length).map drawn.node)
    (hplaced : ∀ n ∈ rows, n.misplaced = false)
    (hedgeIds : links.map Edge.id = (List.range links.length).map drawn.edge)
    (hloops : ∀ e ∈ links, e.sourceNodeId ≠ e.targetNodeId) (hconnections : (links.map Edge.connection).Nodup)
    (hends : ∀ e ∈ links, ∃ i, e.sourceNodeId = drawn.node i) :
    ∃ t₁ t₂ t', t.insertWorkflow row = .ok t₁ ∧ t₁.insertNodes rows = .ok t₂ ∧
      t₂.insertEdges links = .ok t' ∧ NewCanvas t t' row rows links := by
  have hworkflow : row.id ∉ t.workflows.map Workflow.id := hrow ▸ hfresh.workflow
  have hnodeIds : ((t.nodes ++ rows).map Node.id).Nodup := by
    rw [List.map_append, hids]
    exact nodup_append_range ht.nodeIds hfresh.node hfresh.nodes _
  have hlinkIds : ((t.edges ++ links).map Edge.id).Nodup := by
    rw [List.map_append, hedgeIds]
    exact nodup_append_range ht.edgeIds hfresh.edge hfresh.edges _
  have hnewConnections : ((t.edges ++ links).map Edge.connection).Nodup := by
    rw [List.map_append]
    refine List.Nodup.append ht.connections hconnections ?_
    -- an old connection comes from an old node
    intro connection hold hnew
    obtain ⟨e, he, rfl⟩ := List.mem_map.mp hold
    obtain ⟨e', he', heq⟩ := List.mem_map.mp hnew
    obtain ⟨i, hi⟩ := hends e' he'
    have hsource : e'.sourceNodeId = e.sourceNodeId := congrArg Prod.fst heq
    obtain ⟨n, hn, hnid⟩ := List.mem_map.mp
      ((ht.closed e.workflowId).ends e (mem_edgesOf_iff.mpr ⟨he, rfl⟩)).1
    refine hfresh.nodes i ?_
    rw [← hi, hsource, ← hnid]
    exact List.mem_map_of_mem (mem_nodesOf_iff.mp hn).1
  exact ⟨_, _, _, insertWorkflow_eq_ok_iff.mpr ⟨hworkflow, rfl⟩,
    insertNodes_eq_ok_iff.mpr ⟨hnodeIds, hplaced, rfl⟩,
    insertEdges_eq_ok_iff.mpr ⟨hlinkIds, hloops, hnewConnections, rfl⟩,
    ⟨hworkflow, hnodeIds, hlinkIds, hnewConnections, hplaced, hloops, rfl⟩⟩

/-- The edges of a copy. -/
def copiedLinks (drawn : DrawnIds uuid) (rename : uuid → uuid) (edges : List (Edge uuid)) :
    List (Edge uuid) :=
  edges.mapIdx fun i e => (e.snapshot.renamed rename).newEdge (drawn.edge i) drawn.workflow

omit [DecidableEq uuid] in
theorem mem_copiedLinks {rename : uuid → uuid} {link : Edge uuid}
    (h : link ∈ copiedLinks drawn rename edges) :
    ∃ e ∈ edges, ∃ i, link = (e.snapshot.renamed rename).newEdge (drawn.edge i) drawn.workflow := by
  obtain ⟨i, hi, rfl⟩ := List.mem_mapIdx.mp h
  exact ⟨edges[i], List.getElem_mem hi, i, rfl⟩

omit [DecidableEq uuid] in
theorem map_copiedLinks {β : Type} {rename : uuid → uuid} (f : Edge uuid → β) (g : Edge uuid → β)
    (hfg : ∀ (i : Nat) e, f ((e.snapshot.renamed rename).newEdge (drawn.edge i) drawn.workflow) = g e) :
    (copiedLinks drawn rename edges).map f = edges.map g := by
  unfold copiedLinks
  refine List.ext_getElem (by simp) fun i h₁ h₂ => ?_
  simp [hfg]

/-- A closed canvas under new ids is taken by any store, and leaves the other canvases as they are. -/
theorem copy_taken (gates : CanvasGates uuid) (row : Workflow uuid) (hrow : row.id = drawn.workflow)
    (ht : CanvasOk t) (hfresh : drawn.Fresh t) (hids : (nodes.map Node.id).Nodup)
    (hclosed : Closed nodes edges) (hconnections : (edges.map Edge.connection).Nodup)
    (config : Node uuid → Value) :
    ∃ t₁ t₂ t', t.insertWorkflow row = .ok t₁ ∧
      t₁.insertNodes (nodes.map fun n =>
        Node.copied gates (renamedId nodes drawn.node) drawn.workflow { n with config := config n }) = .ok t₂ ∧
      t₂.insertEdges (copiedLinks drawn (renamedId nodes drawn.node) edges) = .ok t' ∧
      NewCanvas t t' row (nodes.map fun n =>
        Node.copied gates (renamedId nodes drawn.node) drawn.workflow { n with config := config n })
        (copiedLinks drawn (renamedId nodes drawn.node) edges) := by
  have hinj : ∀ {a b}, a ∈ nodes.map Node.id → b ∈ nodes.map Node.id →
      renamedId nodes drawn.node a = renamedId nodes drawn.node b → a = b :=
    fun ha hb => renamedId_inj hids hfresh.node ha hb
  refine newCanvas_of_fresh ht hfresh hrow ?_ (fun n hn => ?_) ?_ (fun e he => ?_) ?_ fun e he => ?_
  · refine List.ext_getElem (by simp) fun i h₁ h₂ => ?_
    rw [List.length_map, List.length_map] at h₁
    simp only [List.getElem_map, List.getElem_range]
    exact renamedId_getElem hids h₁
  · obtain ⟨m, hm, rfl⟩ := List.mem_map.mp hn
    have hplaced := hclosed.placed m hm
    unfold Node.misplaced at hplaced ⊢
    unfold Node.copied
    rw [Option.isSome_map, Option.isSome_map]
    exact hplaced
  · unfold copiedLinks
    refine List.ext_getElem (by simp) fun i h₁ h₂ => ?_
    simp [CanvasEdge.newEdge]
  · obtain ⟨old, hold, i, rfl⟩ := mem_copiedLinks he
    obtain ⟨hsource, htarget, hne⟩ := hclosed.ends old hold
    exact fun heq => hne (hinj hsource htarget heq)
  · rw [map_copiedLinks Edge.connection (fun e => (renamedId nodes drawn.node e.sourceNodeId, e.sourcePort,
      renamedId nodes drawn.node e.targetNodeId, e.targetPort)) fun _ _ => rfl]
    refine List.Nodup.map_on (fun a ha b hb heq => ?_) (List.Nodup.of_map _ hconnections)
    simp only [Prod.mk.injEq] at heq
    obtain ⟨hsource, hsourcePort, htarget, htargetPort⟩ := heq
    have hends := hclosed.ends a ha
    have hends' := hclosed.ends b hb
    refine List.inj_on_of_nodup_map hconnections ha hb ?_
    unfold Edge.connection
    rw [hinj hends.1 hends'.1 hsource, hinj hends.2.1 hends'.2.1 htarget, hsourcePort, htargetPort]
  · obtain ⟨old, hold, i, rfl⟩ := mem_copiedLinks he
    have hmem : renamedId nodes drawn.node old.sourceNodeId ∈ (List.range nodes.length).map drawn.node :=
      renamedId_mem hids (hclosed.ends old hold).1
    obtain ⟨j, -, hj⟩ := List.mem_map.mp hmem
    exact ⟨j, hj.symm⟩

/-! ## 3. Duplicates -/

theorem bind_remap_eq (hids : (nodes.map Node.id).Nodup) {draw : Nat → uuid} {ref : Option uuid}
    (href : ∀ id ∈ ref, id ∈ nodes.map Node.id) :
    ref.bind (remap nodes draw) = ref.map (renamedId nodes draw) := by
  cases ref with
  | none => rfl
  | some id => exact remap_eq hids (href id rfl)

theorem copiedNodes_eq (hids : (nodes.map Node.id).Nodup) (hclosed : Closed nodes edges) :
    nodes.mapIdx (copiedNode gates drawn nodes) =
      nodes.map (Node.copied gates (renamedId nodes drawn.node) drawn.workflow) := by
  refine List.ext_getElem (by simp) fun i h₁ h₂ => ?_
  rw [List.length_mapIdx] at h₁
  have hmem : nodes[i] ∈ nodes := List.getElem_mem h₁
  simp only [List.getElem_mapIdx, List.getElem_map]
  unfold copiedNode Node.copied
  rw [renamedId_getElem hids h₁, bind_remap_eq hids (hclosed.containers _ hmem),
    bind_remap_eq hids (hclosed.toolOwners _ hmem)]

/-- No edge is left out. -/
theorem copiedEdges_eq (hids : (nodes.map Node.id).Nodup) (hclosed : Closed nodes edges) :
    copiedEdges drawn nodes edges = copiedLinks drawn (renamedId nodes drawn.node) edges := by
  have hends : edges.filterMap (remapEnds nodes drawn.node) = edges.map fun edge =>
      { edge with
        sourceNodeId := renamedId nodes drawn.node edge.sourceNodeId
        targetNodeId := renamedId nodes drawn.node edge.targetNodeId } := by
    rw [← List.filterMap_eq_map]
    refine List.filterMap_congr fun edge hedge => ?_
    obtain ⟨hsource, htarget, -⟩ := hclosed.ends edge hedge
    unfold remapEnds
    rw [remap_eq hids hsource, remap_eq hids htarget]
    rfl
  unfold copiedEdges copiedLinks
  rw [hends]
  refine List.ext_getElem (by simp) fun i h₁ h₂ => ?_
  simp [Edge.snapshot, CanvasEdge.renamed, CanvasEdge.newEdge]

theorem numberedFrom_fresh (k : Nat) {t : Store Nat} (hworkflows : ∀ i ∈ t.workflows.map Workflow.id, i < k)
    (hnodes : ∀ i ∈ t.nodes.map Node.id, i < k) (hedges : ∀ i ∈ t.edges.map Edge.id, i < k) :
    (numberedFrom k).Fresh t := by
  refine ⟨fun h => (hworkflows _ h).false, fun i j heq => ?_, fun i h => ?_, fun i j heq => ?_, fun i h => ?_⟩
  · simpa [numberedFrom] using heq
  · have := hnodes _ h
    simp only [numberedFrom] at this
    omega
  · simpa [numberedFrom] using heq
  · have := hedges _ h
    simp only [numberedFrom] at this
    omega

omit [DecidableEq uuid] in
/-- The database may return the rows in any order. -/
theorem Closed.perm (h : Closed nodes edges) (hrows : rows.Perm nodes) (hlinks : links.Perm edges) :
    Closed rows links := by
  have hids : ∀ {id}, id ∈ nodes.map Node.id → id ∈ rows.map Node.id :=
    fun hid => (hrows.map Node.id).mem_iff.mpr hid
  refine ⟨((hrows.map Node.label).nodup_iff).mpr h.labels, fun n hn id hid => ?_, fun n hn id hid => ?_,
    fun n hn => h.placed n (hrows.mem_iff.mp hn), fun e he => ?_⟩
  · exact hids (h.containers n (hrows.mem_iff.mp hn) id hid)
  · exact hids (h.toolOwners n (hrows.mem_iff.mp hn) id hid)
  · obtain ⟨hsource, htarget, hne⟩ := h.ends e (hlinks.mem_iff.mp he)
    exact ⟨hids hsource, hids htarget, hne⟩

theorem findIndex_nonneg (h : id ∈ nodes.map Node.id) : 0 ≤ findIndex nodes id := by
  unfold findIndex
  cases hfind : nodes.findIdx? fun n => n.id = id with
  | some i => exact Int.natCast_nonneg i
  | none =>
    obtain ⟨n, hn, hid⟩ := List.mem_map.mp h
    exact absurd (List.findIdx?_eq_none_iff.mp hfind n hn) (by simp [hid])

theorem exportIndex_eq {ref : Option uuid} (href : ∀ id ∈ ref, id ∈ nodes.map Node.id) :
    exportIndex nodes ref = ref.map (findIndex nodes) := by
  cases ref with
  | none => rfl
  | some id => exact if_pos (findIndex_nonneg (href id rfl))

theorem valid_exportCanvas {workflow : Workflow uuid} (hclosed : Closed nodes edges) :
    (exportCanvas workflow nodes edges).valid = true := by
  have hindex : ∀ {ref : Option uuid}, (∀ id ∈ ref, id ∈ nodes.map Node.id) →
      (exportIndex nodes ref).all (0 ≤ ·) = true := by
    intro ref href
    rw [exportIndex_eq href]
    cases ref with
    | none => rfl
    | some id => exact decide_eq_true (findIndex_nonneg (href id rfl))
  unfold ImportWorkflowDto.valid exportCanvas
  simp only [Option.getD_some, List.all_map, Bool.and_eq_true, List.all_eq_true, Function.comp_apply,
    decide_eq_true_eq]
  refine ⟨fun n hn => ⟨hindex (hclosed.containers n hn), hindex (hclosed.toolOwners n hn)⟩, fun e he => ?_⟩
  obtain ⟨hsource, htarget, -⟩ := hclosed.ends e he
  exact ⟨findIndex_nonneg hsource, findIndex_nonneg htarget⟩

theorem bind_nodeIdAt_eq (hids : (nodes.map Node.id).Nodup) {draw : Nat → uuid} {ref : Option uuid}
    (href : ∀ id ∈ ref, id ∈ nodes.map Node.id) :
    (exportIndex nodes ref).bind (nodeIdAt draw nodes.length) = ref.map (renamedId nodes draw) := by
  rw [exportIndex_eq href]
  cases ref with
  | none => rfl
  | some id => exact nodeIdAt_findIndex hids (href id rfl)

/-- The configuration of an imported node gets the defaults of its type. -/
def Node.imported (gates : CanvasGates uuid) (rename : uuid → uuid) (w : uuid) (n : Node uuid) : Node uuid :=
  Node.copied gates rename w { n with config := gates.importConfig n.type n.config }

theorem importedNodes_eq {workflow : Workflow uuid} (hids : (nodes.map Node.id).Nodup)
    (hclosed : Closed nodes edges) :
    ((exportCanvas workflow nodes edges).nodes.mapIdx fun i n =>
      n.node gates drawn (exportCanvas workflow nodes edges).nodes.length i) =
      nodes.map (Node.imported gates (renamedId nodes drawn.node) drawn.workflow) := by
  have hlength : (exportCanvas workflow nodes edges).nodes.length = nodes.length := List.length_map _
  rw [hlength]
  refine List.ext_getElem (by simp [exportCanvas]) fun i h₁ h₂ => ?_
  rw [List.length_map] at h₂
  have hmem : nodes[i] ∈ nodes := List.getElem_mem h₂
  simp only [List.getElem_mapIdx, List.getElem_map, exportCanvas]
  unfold ImportNodeDto.node Node.imported Node.copied
  simp only [Option.getD_some]
  rw [renamedId_getElem hids h₂, bind_nodeIdAt_eq hids (hclosed.containers _ hmem),
    bind_nodeIdAt_eq hids (hclosed.toolOwners _ hmem)]

theorem importedEdges_eq {workflow : Workflow uuid} (hids : (nodes.map Node.id).Nodup)
    (hclosed : Closed nodes edges) :
    importEdges drawn (exportCanvas workflow nodes edges).nodes.length
        ((exportCanvas workflow nodes edges).edges.getD []) =
      copiedLinks drawn (renamedId nodes drawn.node) edges := by
  have hlength : (exportCanvas workflow nodes edges).nodes.length = nodes.length := List.length_map _
  have hends : ((exportCanvas workflow nodes edges).edges.getD []).filterMap
      (ImportEdgeDto.ends drawn.node nodes.length) =
      edges.map fun e => e.snapshot.renamed (renamedId nodes drawn.node) := by
    rw [← List.filterMap_eq_map]
    unfold exportCanvas
    rw [Option.getD_some, List.filterMap_map]
    refine List.filterMap_congr fun edge hedge => ?_
    obtain ⟨hsource, htarget, -⟩ := hclosed.ends edge hedge
    unfold ImportEdgeDto.ends
    rw [Function.comp_apply, nodeIdAt_findIndex hids hsource, nodeIdAt_findIndex hids htarget]
    rfl
  unfold importEdges copiedLinks
  rw [hlength, hends]
  refine List.ext_getElem (by simp) fun i h₁ h₂ => ?_
  simp

end Clemvion.Workflows
