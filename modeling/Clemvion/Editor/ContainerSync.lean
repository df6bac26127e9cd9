import Clemvion.Editor.ContainerMembership
import Clemvion.Editor.UndoRedo

/-!
# ContainerSync — the stored containers along a run

Most actions derive the containers from scratch, and undo and redo bring back a canvas that was in
step.  Only a new wire patches the containers of its own two ends, so the stored containers stay
those that the edges give as long as a wire brings a container to nobody else.
-/

open Clemvion.Js Clemvion.Library Clemvion.Library.SpreadRule

namespace Clemvion.Editor

variable {deps : StoreDeps} {nodes : List EditorNode} {edges : List EditorEdge}
  {connection : Connection} {map : Assignment} {s : EditorState} {n : EditorNode} {id : String}

/-! ## 1. A canvas in step -/

/-- The stored containers are the derived ones; node ids are distinct and not empty. -/
structure InStep (deps : StoreDeps) (c : Snapshot) : Prop where
  derived : deriveContainerAssignments deps.getNodeDefinition c.nodes c.edges = c.nodes
  distinct : (c.nodes.map EditorNode.id).Nodup
  named : ∀ n ∈ c.nodes, n.id ≠ ""

/-- The canvas, every canvas that undo and redo hold, and the ids on the clipboard. -/
structure Synced (deps : StoreDeps) (s : EditorState) : Prop where
  timeline : Timeline.Holds (InStep deps) s.moment
  clipboard : ∀ clip, s.editorClipboard = some clip → (clip.nodes.map EditorNode.id).Nodup

theorem map_id_withContainer (map : Assignment) (nodes : List EditorNode) :
    (nodes.map (withContainer map)).map EditorNode.id = nodes.map EditorNode.id := by
  rw [List.map_map]
  rfl

/-- Deriving brings a canvas into step. -/
theorem inStep_derive (edges : List EditorEdge) (hdistinct : (nodes.map EditorNode.id).Nodup)
    (hnamed : ∀ n ∈ nodes, n.id ≠ "") :
    InStep deps ⟨deriveContainerAssignments deps.getNodeDefinition nodes edges, edges⟩ := by
  refine ⟨derive_derive nodes edges edges, ?_, ?_⟩
  · show ((deriveContainerAssignments deps.getNodeDefinition nodes edges).map EditorNode.id).Nodup
    rwa [derive_eq, map_id_withContainer]
  · intro n hn
    rw [derive_eq] at hn
    obtain ⟨n', hn', rfl⟩ := List.mem_map.mp hn
    exact hnamed n' hn'

/-! ## 2. A wire patches the containers as a pass over it does -/

theorem findNode_withContainer (map : Assignment) (nodes : List EditorNode) (id : String) :
    findNode (nodes.map (withContainer map)) id = (findNode nodes id).map (withContainer map) := by
  unfold findNode
  rw [List.find?_map]
  rfl

/-- Where ids are distinct and not empty, the first node with an id is the last one. -/
theorem findNode_eq_wireNode (hdistinct : (nodes.map EditorNode.id).Nodup)
    (hnamed : ∀ n ∈ nodes, n.id ≠ "") (id : String) : findNode nodes id = wireNode nodes id := by
  have hfirst : ∀ {n : EditorNode}, findNode nodes id = some n → n ∈ nodes ∧ n.id = id := fun h =>
    ⟨List.mem_of_find?_eq_some h, by simpa using List.find?_some h⟩
  cases hfind : findNode nodes id with
  | none =>
    cases hwire : wireNode nodes id with
    | none => rfl
    | some n =>
      obtain ⟨hid, -, hmem, -⟩ := wireNode_eq_some hwire
      exact absurd (decide_eq_true hid) (List.find?_eq_none.mp hfind n hmem)
  | some n =>
    obtain ⟨hmem, hid⟩ := hfirst hfind
    have hne : id ≠ "" := by
      rw [← hid]
      exact hnamed n hmem
    cases hlast : lastNode nodes id with
    | none =>
      have hnone := List.find?_eq_none.mp hlast n (List.mem_reverse.mpr hmem)
      exact absurd (decide_eq_true hid) hnone
    | some n' =>
      obtain ⟨hmem', hid'⟩ := lastNode_id hlast
      unfold wireNode
      rw [if_neg hne, hlast, List.inj_on_of_nodup_map hdistinct hmem hmem' (hid.trans hid'.symm)]

theorem applyContainerAssignment_withContainer (map : Assignment) {child : EditorNode}
    (hchild : findNode nodes id = some child) (containerId : Option String) :
    applyContainerAssignment (nodes.map (withContainer map)) id containerId =
      nodes.map (withContainer (Function.update map id
        (if isSet containerId && isTrigger child then map id else containerId))) := by
  have hid : child.id = id := by simpa using List.find?_some hchild
  have hother : ∀ v, v = map id →
      nodes.map (withContainer map) = nodes.map (withContainer (Function.update map id v)) := by
    intro v hv
    rw [hv, Function.update_eq_self]
  unfold applyContainerAssignment
  rw [findNode_withContainer, hchild]
  simp only [Option.map_some]
  have htrigger : isTrigger (withContainer map child) = isTrigger child := rfl
  rw [htrigger]
  split_ifs with hguard hsame
  · exact hother _ rfl
  · have hsame : map child.id = containerId := hsame
    rw [hid] at hsame
    exact hother _ hsame.symm
  · rw [List.map_map]
    apply List.map_congr_left
    intro n _
    show (if n.id = id then { withContainer map n with containerId } else withContainer map n) =
      withContainer (Function.update map id containerId) n
    unfold withContainer
    split_ifs with hn
    · rw [hn, Function.update_self]
    · rw [Function.update_of_ne hn]

/-- What the rules assign is nothing or a real id. -/
theorem nextContainers_isSet (defs : String → Option NodeDefinition) (connection : Connection)
    {s t : EditorNode}
    {source target : Option String} (hs : s.id ≠ "") (ht : t.id ≠ "")
    (hsource : source ≠ none → isSet source = true) (htarget : target ≠ none → isSet target = true) :
    ((nextContainers defs s t connection source target).1 ≠ none →
      isSet (nextContainers defs s t connection source target).1 = true) ∧
    ((nextContainers defs s t connection source target).2 ≠ none →
      isSet (nextContainers defs s t connection source target).2 = true) := by
  have hset : ∀ {id : String}, id ≠ "" → isSet (some id) = true := fun h => by simpa [isSet] using h
  cases hcontainer : isContainerNode defs s || isContainerNode defs t with
  | true =>
    rw [nextContainers_of_container hcontainer]
    constructor
    · dsimp only
      split_ifs
      · exact fun _ => hset ht
      · exact hsource
    · dsimp only
      split_ifs
      · exact fun _ => hset hs
      · exact htarget
  | false =>
    rw [nextContainers_of_regular hcontainer]
    split_ifs
    · exact ⟨hsource, hsource⟩
    · exact ⟨htarget, htarget⟩
    · exact ⟨hsource, htarget⟩
    · exact ⟨hsource, htarget⟩

/-- A guarded update: a trigger keeps what it has, which is nothing. -/
theorem update_guarded (hfree : isTrigger n = true → map n.id = none) {next : Option String}
    (hnext : next ≠ none → isSet next = true) :
    (if next ≠ map n.id then
        Function.update map n.id (if isSet next && isTrigger n then map n.id else next)
      else map) = Function.update map n.id (if isTrigger n then map n.id else next) := by
  cases htrigger : isTrigger n with
  | false =>
    simp only [Bool.and_false, Bool.false_eq_true, if_false]
    exact update_ite map n.id next
  | true =>
    simp only [Bool.and_true, if_true, Function.update_eq_self]
    split_ifs with hne hset
    · exact Function.update_eq_self _ _
    · rw [hfree htrigger] at hne
      exact absurd (hnext hne) hset
    · rfl

theorem Plain.trigger (hplain : Plain nodes map) (h : wireNode nodes id = some n)
    (htrigger : isTrigger n = true) : map n.id = none := by
  obtain ⟨hid, -, -, hlast⟩ := wireNode_eq_some h
  rw [← hid] at hlast
  cases hn : map n.id with
  | none => rfl
  | some c =>
    have hfalse := (hplain _ c hn).2 n hlast
    rw [htrigger] at hfalse
    cases hfalse

/-- One of the two conditional assignments. -/
theorem assign_withContainer (hfind : findNode nodes n.id = some n)
    (hfree : isTrigger n = true → map n.id = none) {next : Option String}
    (hnext : next ≠ none → isSet next = true) :
    (if next ≠ map n.id then applyContainerAssignment (nodes.map (withContainer map)) n.id next
      else nodes.map (withContainer map)) =
      nodes.map (withContainer (Function.update map n.id (if isTrigger n then map n.id else next))) := by
  rw [← update_guarded hfree hnext]
  by_cases hne : next ≠ map n.id
  · rw [if_pos hne, if_pos hne, applyContainerAssignment_withContainer map hfind]
  · rw [if_neg hne, if_neg hne]

theorem update_ite_of_ne {x y : String} (hxy : y ≠ x) (map : Assignment) (v w : Option String) :
    (if w ≠ map y then Function.update (Function.update map x v) y w else Function.update map x v) =
      Function.update (Function.update map x v) y w := by
  have h := update_ite (Function.update map x v) y w
  rwa [Function.update_of_ne hxy] at h

/-- Both conditional assignments, for the two ends of a wire. -/
theorem assign_both {s t : EditorNode} (hids : t.id ≠ s.id) (hs : findNode nodes s.id = some s)
    (ht : findNode nodes t.id = some t) (hfree : isTrigger s = true → map s.id = none)
    (hfree' : isTrigger t = true → map t.id = none) {source target : Option String}
    (hnext : source ≠ none → isSet source = true) (hnext' : target ≠ none → isSet target = true) :
    (let result := if source ≠ map s.id then
        applyContainerAssignment (nodes.map (withContainer map)) s.id source
      else nodes.map (withContainer map)
    if target ≠ map t.id then applyContainerAssignment result t.id target else result) =
      nodes.map (withContainer (Function.update
        (Function.update map s.id (if isTrigger s then map s.id else source)) t.id
        (if isTrigger t then map t.id else target))) := by
  have hother : Function.update map s.id (if isTrigger s then map s.id else source) t.id = map t.id :=
    Function.update_of_ne hids _ _
  have hfirst := assign_withContainer hs hfree hnext
  have hsecond := assign_withContainer ht (fun htrigger => hother.trans (hfree' htrigger)) hnext'
  rwa [hother, ← hfirst] at hsecond

/-- On a canvas in step, the patch for one wire is a pass over it. -/
theorem propagateContainerOnConnect_eq {defs : String → Option NodeDefinition}
    (hplain : Plain nodes map) (hdistinct : (nodes.map EditorNode.id).Nodup)
    (hnamed : ∀ n ∈ nodes, n.id ≠ "") (hself : connection.source ≠ connection.target) :
    propagateContainerOnConnect defs (nodes.map (withContainer map)) connection =
      nodes.map (withContainer ((wireRule defs nodes connection).apply map)) := by
  rw [← propagate_eq_apply defs hplain]
  unfold propagateContainerOnConnect
  rw [findNode_withContainer, findNode_withContainer, findNode_eq_wireNode hdistinct hnamed,
    findNode_eq_wireNode hdistinct hnamed]
  cases hs : wireNode nodes connection.source with
  | none => simp only [propagateContainerInMap, hs, Option.map_none]
  | some s =>
    cases ht : wireNode nodes connection.target with
    | none => simp only [propagateContainerInMap, hs, ht, Option.map_none, Option.map_some]
    | some t =>
      obtain ⟨hsid, hsne, -, -⟩ := wireNode_eq_some hs
      obtain ⟨htid, htne, -, -⟩ := wireNode_eq_some ht
      have hids : t.id ≠ s.id := by
        rw [hsid, htid]
        exact hself.symm
      have hset : ∀ x, map x ≠ none → isSet (map x) = true := by
        intro x hx
        rw [isSet_eq_isSome hplain]
        exact Option.isSome_iff_ne_none.mpr hx
      rw [← hsid] at hsne
      rw [← htid] at htne
      obtain ⟨hnext, hnext'⟩ := nextContainers_isSet defs connection hsne htne (hset s.id) (hset t.id)
      have hfind : ∀ {x : String} {m : EditorNode}, wireNode nodes x = some m → findNode nodes m.id = some m := by
        intro x m hm
        rw [findNode_eq_wireNode hdistinct hnamed, (wireNode_eq_some hm).1, hm]
      have hboth := assign_both hids (hfind hs) (hfind ht) (hplain.trigger hs) (hplain.trigger ht)
        hnext hnext'
      refine hboth.trans ?_
      rw [propagate_of_nodes hs ht rfl]
      exact congrArg (fun m => nodes.map (withContainer m)) (update_ite_of_ne hids map _ _).symm

/-! ## 3. A new wire -/

/-- `addEdge` appends a new connection with its ends, and nothing else. -/
structure AddsConnections (reactFlow : ReactFlow) : Prop where
  kept : ∀ c data edges, c.source = "" ∨ c.target = "" ∨ connectionExists c edges = true →
    reactFlow.addEdge c data edges = edges
  added : ∀ c data edges, c.source ≠ "" → c.target ≠ "" → connectionExists c edges = false →
    ∃ e, reactFlow.addEdge c data edges = edges ++ [e] ∧ e.source = c.source ∧ e.target = c.target ∧
      coalesce e.sourceHandle .null = coalesce c.sourceHandle .null ∧
      coalesce e.targetHandle .null = coalesce c.targetHandle .null

/-- A wire that brings a container to nobody but its own ends, on a canvas that the passes settle
    before and after. -/
structure ConnectsCleanly (deps : StoreDeps) (c : Snapshot) (connection : Connection) : Prop where
  before : Consistent (wireRules deps.getNodeDefinition c.nodes c.edges)
  shallow : Shallow (wireRules deps.getNodeDefinition c.nodes c.edges) maxPasses
  after : Consistent (wireRules deps.getNodeDefinition c.nodes c.edges ++
    [wireRule deps.getNodeDefinition c.nodes connection])
  shallowAfter : Shallow (wireRules deps.getNodeDefinition c.nodes c.edges ++
    [wireRule deps.getNodeDefinition c.nodes connection]) maxPasses
  near : ∀ k x container, Belongs (wireRules deps.getNodeDefinition c.nodes c.edges ++
      [wireRule deps.getNodeDefinition c.nodes connection]) k x container →
    (∃ m, Belongs (wireRules deps.getNodeDefinition c.nodes c.edges) m x container) ∨
      Touches x (wireRule deps.getNodeDefinition c.nodes connection)

theorem coalesce_eq_str (v : Value) (handle : String) :
    coalesce v .null = .str handle ↔ v = .str handle := by
  cases v <;> simp [coalesce]

theorem wireRule_congr {defs : String → Option NodeDefinition} {c c' : Connection}
    (hsource : c.source = c'.source) (htarget : c.target = c'.target)
    (hbody : c.sourceHandle = .str CONTAINER_BODY_HANDLE ↔ c'.sourceHandle = .str CONTAINER_BODY_HANDLE)
    (hemit : c.targetHandle = .str CONTAINER_EMIT_HANDLE ↔ c'.targetHandle = .str CONTAINER_EMIT_HANDLE) :
    wireRule defs nodes c = wireRule defs nodes c' := by
  unfold wireRule emitClaims bodyClaims isEmitWire isBodyWire
  simp only [hsource, htarget, hbody, hemit]

/-- An edge of the connection stands for the same rule. -/
theorem wireRule_of_edge {defs : String → Option NodeDefinition} {e : EditorEdge}
    (hsource : e.source = connection.source) (htarget : e.target = connection.target)
    (hbody : e.sourceHandle = .str CONTAINER_BODY_HANDLE ↔
      connection.sourceHandle = .str CONTAINER_BODY_HANDLE)
    (hemit : e.targetHandle = .str CONTAINER_EMIT_HANDLE ↔
      connection.targetHandle = .str CONTAINER_EMIT_HANDLE) :
    wireRule defs nodes e.connection = wireRule defs nodes connection :=
  wireRule_congr hsource htarget ((coalesce_eq_str _ _).trans hbody) ((coalesce_eq_str _ _).trans hemit)

/-- Handles that React Flow takes for the same are the same container handle. -/
theorem eq_str_of_sameOrFalsy {a b : Value} {handle : String} (hhandle : handle ≠ "")
    (h : (a.strictEquals b || !a.truthy && !b.truthy) = true) : a = .str handle ↔ b = .str handle := by
  obtain hsame | hfalsy := Bool.or_eq_true_iff.mp h
  · constructor
    · rintro rfl
      cases b <;> simp_all [Value.strictEquals]
    · rintro rfl
      cases a <;> simp_all [Value.strictEquals]
  · obtain ⟨ha, hb⟩ := Bool.and_eq_true_iff.mp hfalsy
    constructor
    · rintro rfl
      simp [Value.truthy, hhandle] at ha
    · rintro rfl
      simp [Value.truthy, hhandle] at hb

theorem rule_mem_of_exists {defs : String → Option NodeDefinition}
    (h : connectionExists connection edges = true) :
    wireRule defs nodes connection ∈ wireRules defs nodes edges := by
  obtain ⟨e, he, hsame⟩ := List.any_eq_true.mp h
  simp only [Bool.and_eq_true, decide_eq_true_eq] at hsame
  obtain ⟨⟨⟨hsource, htarget⟩, hbody⟩, hemit⟩ := hsame
  refine List.mem_map.mpr ⟨e, he, ?_⟩
  exact wireRule_of_edge hsource htarget (eq_str_of_sameOrFalsy (by decide) hbody)
    (eq_str_of_sameOrFalsy (by decide) hemit)

/-- The containers after a clean wire are those of all wires. -/
theorem ConnectsCleanly.apply_eq {c : Snapshot} (h : ConnectsCleanly deps c connection) :
    (wireRule deps.getNodeDefinition c.nodes connection).apply
        (derivedMap deps.getNodeDefinition c.nodes c.edges) =
      rounds (wireRules deps.getNodeDefinition c.nodes c.edges ++
        [wireRule deps.getNodeDefinition c.nodes connection]) maxPasses :=
  apply_saturated h.after (saturated_rounds h.before h.shallow)
    (saturated_rounds h.after h.shallowAfter) h.near

theorem inStep_connect {c : Snapshot} {data : EdgeData} (hadds : AddsConnections deps.reactFlow)
    (h : InStep deps c) (hself : connection.source ≠ connection.target)
    (hclean : ConnectsCleanly deps c connection) :
    InStep deps ⟨propagateContainerOnConnect deps.getNodeDefinition c.nodes connection,
      deps.reactFlow.addEdge connection data c.edges⟩ := by
  let defs := deps.getNodeDefinition
  have hstored : c.nodes = c.nodes.map (withContainer (derivedMap defs c.nodes c.edges)) := by
    rw [← derive_eq, h.derived]
  have hpatched : propagateContainerOnConnect defs c.nodes connection =
      c.nodes.map (withContainer ((wireRule defs c.nodes connection).apply
        (derivedMap defs c.nodes c.edges))) := by
    rw [← propagateContainerOnConnect_eq (plain_derivedMap _ _ _) h.distinct h.named hself, ← hstored]
  have hmap : derivedMap defs c.nodes (deps.reactFlow.addEdge connection data c.edges) =
      (wireRule defs c.nodes connection).apply (derivedMap defs c.nodes c.edges) := by
    by_cases hempty : connection.source = "" ∨ connection.target = ""
    · rw [hadds.kept _ _ _ (hempty.imp_right .inl)]
      have hidle : wireRule defs c.nodes connection = .claim [] := by
        have hnone : wireNode c.nodes "" = none := if_pos rfl
        unfold wireRule
        obtain hsource | htarget := hempty
        · rw [hsource, hnone]
        · rw [htarget, hnone]
          cases wireNode c.nodes connection.source <;> rfl
      rw [hidle]
      rfl
    · obtain ⟨hsource, htarget⟩ := not_or.mp hempty
      rw [hclean.apply_eq]
      cases hexists : connectionExists connection c.edges with
      | true =>
        rw [hadds.kept _ _ _ (.inr (.inr hexists))]
        refine (rounds_congr (fun rule => ?_) hclean.before hclean.shallow).symm
        rw [List.mem_append, List.mem_singleton]
        refine ⟨.inl, fun hmem => hmem.elim id fun hrule => ?_⟩
        rw [hrule]
        exact rule_mem_of_exists hexists
      | false =>
        obtain ⟨e, hadded, hes, het, hbody, hemit⟩ := hadds.added _ data _ hsource htarget hexists
        have hrule : wireRule defs c.nodes e.connection = wireRule defs c.nodes connection := by
          refine wireRule_of_edge hes het ?_ ?_
          · rw [← coalesce_eq_str, hbody, coalesce_eq_str]
          · rw [← coalesce_eq_str, hemit, coalesce_eq_str]
        rw [hadded, derivedMap, wireRules, List.map_append, List.map_singleton, hrule]
        rfl
  have hids : (propagateContainerOnConnect defs c.nodes connection).map EditorNode.id =
      c.nodes.map EditorNode.id := by
    rw [hpatched, map_id_withContainer]
  refine ⟨?_, ?_, ?_⟩
  · show deriveContainerAssignments defs (propagateContainerOnConnect defs c.nodes connection) _ = _
    rw [hpatched, derive_withContainer, derive_eq, hmap]
  · show ((propagateContainerOnConnect defs c.nodes connection).map EditorNode.id).Nodup
    rw [hids]
    exact h.distinct
  · intro n hn
    have hid : n.id ∈ (propagateContainerOnConnect defs c.nodes connection).map EditorNode.id :=
      List.mem_map_of_mem hn
    rw [hids] at hid
    obtain ⟨n', hn', heq⟩ := List.mem_map.mp hid
    rw [← heq]
    exact h.named n' hn'

/-! ## 4. Copies have ids of their own -/

/-- The ids that are drawn are new, distinct and not empty. -/
structure FreshIds (newId : Nat → String) (nodes : List EditorNode) : Prop where
  injective : ∀ i j, newId i = newId j → i = j
  nonempty : ∀ i, newId i ≠ ""
  unused : ∀ i, ∀ n ∈ nodes, n.id ≠ newId i

variable {newId : Nat → String} {sourceNodes : List EditorNode}

variable (newId) in
theorem remapId_of_mem (hn : n ∈ sourceNodes) :
    ∃ i m, sourceNodes.zipIdx.reverse.find? (fun p => p.1.id = n.id) = some (m, i) ∧ m.id = n.id ∧
      remapId newId sourceNodes n.id = some (newId i) := by
  cases hfind : sourceNodes.zipIdx.reverse.find? fun p => p.1.id = n.id with
  | none =>
    obtain ⟨i, hi, hget⟩ := List.mem_iff_getElem.mp hn
    have hmem : (n, i) ∈ sourceNodes.zipIdx.reverse := by
      rw [List.mem_reverse, List.mem_zipIdx_iff_getElem?, ← hget]
      exact List.getElem?_eq_getElem hi
    simpa using List.find?_eq_none.mp hfind _ hmem
  | some p =>
    refine ⟨p.2, p.1, rfl, by simpa using List.find?_some hfind, ?_⟩
    unfold remapId
    rw [hfind]
    rfl

theorem ids_cloneNodes (add : Number → Number → Number) (clonedId : EditorNode → String)
    (offset : Position) (pool : List String) (sourceNodes : List EditorNode) :
    (cloneNodes add clonedId offset pool sourceNodes).map EditorNode.id = sourceNodes.map clonedId := by
  induction sourceNodes generalizing pool with
  | nil => rfl
  | cons n rest ih => exact congrArg (clonedId n :: ·) (ih _)

theorem ids_clearUnusable (nodes : List EditorNode) (ctx : IntegrationRefFilterContext) :
    (clearUnusableIntegrationRefsInNodes nodes ctx).1.map EditorNode.id = nodes.map EditorNode.id := by
  unfold clearUnusableIntegrationRefsInNodes
  rw [List.map_map]
  apply List.map_congr_left
  intro n _
  show (if _ then _ else n : EditorNode).id = n.id
  split_ifs <;> rfl

/-- The ids of the copies, for source nodes with distinct ids. -/
theorem clonedIds_spec (hfresh : FreshIds newId nodes)
    (hdistinct : (sourceNodes.map EditorNode.id).Nodup) :
    (sourceNodes.map fun n => (remapId newId sourceNodes n.id).getD "").Nodup ∧
      ∀ n ∈ sourceNodes, ∃ i, (remapId newId sourceNodes n.id).getD "" = newId i := by
  have hdrawn : ∀ n ∈ sourceNodes, ∃ i, (remapId newId sourceNodes n.id).getD "" = newId i := by
    intro n hn
    obtain ⟨i, -, -, -, hremap⟩ := remapId_of_mem newId hn
    rw [hremap]
    exact ⟨i, rfl⟩
  refine ⟨?_, hdrawn⟩
  have hmap : (sourceNodes.map fun n => (remapId newId sourceNodes n.id).getD "") =
      (sourceNodes.map EditorNode.id).map fun id => (remapId newId sourceNodes id).getD "" := by
    rw [List.map_map]
    rfl
  rw [hmap]
  refine List.Nodup.map_on ?_ hdistinct
  intro id hid id' hid' heq
  obtain ⟨n, hn, rfl⟩ := List.mem_map.mp hid
  obtain ⟨n', hn', rfl⟩ := List.mem_map.mp hid'
  obtain ⟨i, m, hfind, hm, hremap⟩ := remapId_of_mem newId hn
  obtain ⟨j, m', hfind', hm', hremap'⟩ := remapId_of_mem newId hn'
  rw [hremap, hremap'] at heq
  -- one position of the source list holds one node
  have hij := hfresh.injective i j heq
  have hi := List.mem_zipIdx_iff_getElem?.mp (List.mem_reverse.mp (List.mem_of_find?_eq_some hfind))
  have hj := List.mem_zipIdx_iff_getElem?.mp (List.mem_reverse.mp (List.mem_of_find?_eq_some hfind'))
  rw [← hm, ← hm']
  rw [← hij] at hj
  exact congrArg EditorNode.id (Option.some.inj (hi.symm.trans hj))

/-! ## 5. Runs -/

inductive EditorAction
  | canvas (a : CanvasAction)
  | undo
  | redo
  | copySelection
  | openContainerDeleteConfirm (id : String)
  | cancelContainerDelete

def performEditor (deps : StoreDeps) : EditorAction → EditorState → EditorState
  | .canvas a, s => perform deps a s
  | .undo, s => Editor.undo s
  | .redo, s => Editor.redo s
  | .copySelection, s => Editor.copySelection s
  | .openContainerDeleteConfirm id, s => Editor.openContainerDeleteConfirm id s
  | .cancelContainerDelete, s => Editor.cancelContainerDelete s

/-- The actions of a run: a wire that is accepted connects cleanly, and copies draw fresh ids.
    Actions that neither derive nor patch containers are not among them. -/
def KeepsStep (deps : StoreDeps) (s : EditorState) : EditorAction → Prop
  | .canvas (.onConnect connection) =>
    evaluateConnection deps s.nodes s.edges connection = .ok () →
      ConnectsCleanly deps s.snapshot connection
  | .canvas (.pasteClipboard _ _ newId) | .canvas (.duplicateSelection _ newId) =>
    FreshIds newId s.nodes
  | .canvas (.onReconnect _ _) | .canvas (.removeEdge _) | .canvas (.removeNode _)
  | .canvas (.confirmContainerDelete _) => True
  | .canvas _ => False
  | _ => True

theorem Synced.step {s' : EditorState} (h : Synced deps s) (hcanvas : InStep deps s'.snapshot)
    (hhistory : s'.history = s.history.push s.snapshot) (hclip : s'.editorClipboard = s.editorClipboard) :
    Synced deps s' := by
  refine ⟨?_, by rw [hclip]; exact h.clipboard⟩
  have hmoment : s'.moment = (s'.snapshot, s.moment.2.push s.moment.1) := by
    unfold EditorState.moment
    rw [hhistory]
  rw [hmoment]
  exact h.timeline.push hcanvas

theorem Synced.canvas (h : Synced deps s) : InStep deps s.snapshot := h.timeline.present

theorem Synced.distinct (h : Synced deps s) : (s.nodes.map EditorNode.id).Nodup := h.canvas.distinct

theorem Synced.filter_distinct (h : Synced deps s) (p : EditorNode → Bool) :
    ((s.nodes.filter p).map EditorNode.id).Nodup :=
  h.distinct.sublist (List.filter_sublist.map _)

/-- Dropping nodes derives the containers of the rest. -/
theorem inStep_dropNodes (h : Synced deps s) (removed : String → Bool) (p : EditorNode → Bool) :
    InStep deps (dropNodes deps removed (s.nodes.filter p) (pushUndo s)).snapshot :=
  inStep_derive _ (h.filter_distinct p) fun n hn => h.canvas.named n (List.mem_filter.mp hn).1

theorem inStep_setEdges (h : Synced deps s) (edges : List EditorEdge) :
    InStep deps (setEdges deps edges (pushUndo s)).snapshot :=
  inStep_derive edges h.distinct h.canvas.named

theorem inStep_insertClones (h : Synced deps s) (hfresh : FreshIds newId s.nodes)
    (hdistinct : (sourceNodes.map EditorNode.id).Nodup) (sourceEdges : List EditorEdge)
    (offset : Position) (refFilter : IntegrationRefFilterContext) :
    InStep deps (insertClones deps newId sourceNodes sourceEdges offset refFilter (pushUndo s)).snapshot := by
  let clonedId := fun n : EditorNode => (remapId newId sourceNodes n.id).getD ""
  let cloned := cloneNodes deps.add clonedId offset (s.nodes.filterMap stringLabel) sourceNodes
  let all := deselect s.nodes ++ (clearUnusableIntegrationRefsInNodes cloned refFilter).1
  obtain ⟨hnodup, hdrawn⟩ := clonedIds_spec hfresh hdistinct
  have hids : all.map EditorNode.id = s.nodes.map EditorNode.id ++ sourceNodes.map clonedId := by
    rw [List.map_append, ids_clearUnusable, ids_cloneNodes]
    congr 1
    exact List.map_map.trans rfl
  have hnamed : ∀ id ∈ all.map EditorNode.id, id ≠ "" := by
    intro id hid
    rw [hids] at hid
    obtain hold | hnew := List.mem_append.mp hid
    · obtain ⟨n, hn, rfl⟩ := List.mem_map.mp hold
      exact h.canvas.named n hn
    · obtain ⟨n, hn, rfl⟩ := List.mem_map.mp hnew
      obtain ⟨i, hi⟩ := hdrawn n hn
      exact fun hempty => hfresh.nonempty i (hi.symm.trans hempty)
  refine inStep_derive _ ?_ fun n hn => hnamed _ (List.mem_map_of_mem hn)
  show (all.map EditorNode.id).Nodup
  rw [hids]
  refine List.Nodup.append h.distinct hnodup ?_
  intro id hold hnew
  obtain ⟨n, hn, rfl⟩ := List.mem_map.mp hold
  obtain ⟨m, hm, heq⟩ := List.mem_map.mp hnew
  obtain ⟨i, hi⟩ := hdrawn m hm
  exact hfresh.unused i n hn (heq.symm.trans hi)

theorem not_self_of_evaluate (h : evaluateConnection deps nodes edges connection = .ok ()) :
    connection.source ≠ connection.target := by
  intro heq
  unfold evaluateConnection isSelfConnection at h
  rw [if_pos (decide_eq_true heq)] at h
  cases h

/-- **One action keeps the canvas in step.** -/
theorem Synced.perform (hadds : AddsConnections deps.reactFlow) (h : Synced deps s) {a : EditorAction}
    (ha : KeepsStep deps s a) : Synced deps (performEditor deps a s) := by
  cases a with
  | undo =>
    refine ⟨?_, ?_⟩
    · show Timeline.Holds (InStep deps) (undo s).moment
      rw [moment_undo]
      exact h.timeline.back
    · show ∀ clip, (undo s).editorClipboard = some clip → _
      unfold undo
      split
      · exact h.clipboard
      · exact h.clipboard
  | redo =>
    refine ⟨?_, ?_⟩
    · show Timeline.Holds (InStep deps) (redo s).moment
      rw [moment_redo]
      exact h.timeline.forward
    · show ∀ clip, (redo s).editorClipboard = some clip → _
      unfold redo
      split
      · exact h.clipboard
      · exact h.clipboard
  | copySelection =>
    show Synced deps (copySelection s)
    unfold copySelection
    split_ifs
    · exact h
    · refine ⟨h.timeline, fun clip hclip => ?_⟩
      cases hclip
      have hids : ((selectedNodes s).map fun n => { n with selected := false }).map EditorNode.id =
          (selectedNodes s).map EditorNode.id := List.map_map.trans rfl
      show (((selectedNodes s).map fun n => { n with selected := false }).map EditorNode.id).Nodup
      rw [hids]
      exact h.filter_distinct _
  | openContainerDeleteConfirm id =>
    show Synced deps (openContainerDeleteConfirm id s)
    unfold openContainerDeleteConfirm
    split
    · exact h
    · exact ⟨h.timeline, h.clipboard⟩
  | cancelContainerDelete => exact ⟨h.timeline, h.clipboard⟩
  | canvas a =>
    cases a with
    | removeNode id => exact h.step (inStep_dropNodes h _ _) rfl rfl
    | removeEdge edgeId => exact h.step (inStep_setEdges h _) rfl rfl
    | onConnect connection =>
      show Synced deps (onConnect deps connection false s)
      unfold onConnect
      split
      · exact h
      · rename_i heval
        exact h.step (inStep_connect hadds h.canvas (not_self_of_evaluate heval) (ha heval)) rfl rfl
    | onReconnect oldEdge newConnection =>
      show Synced deps (onReconnect deps oldEdge newConnection s)
      unfold onReconnect
      split
      · exact h
      · exact h.step (inStep_setEdges h _) rfl rfl
    | pasteClipboard anchor refFilter newId =>
      show Synced deps (pasteClipboard deps anchor refFilter newId s)
      unfold pasteClipboard
      split
      · exact h
      · rename_i clip hclip
        split_ifs
        · exact h
        · exact h.step (inStep_insertClones h ha (h.clipboard clip hclip) _ _ _) rfl rfl
    | duplicateSelection refFilter newId =>
      show Synced deps (duplicateSelection deps refFilter newId s)
      unfold duplicateSelection
      split_ifs
      · exact h
      · exact h.step (inStep_insertClones h ha (h.filter_distinct _) _ _ _) rfl rfl
    | confirmContainerDelete mode =>
      show Synced deps (confirmContainerDelete deps mode s)
      unfold confirmContainerDelete
      split
      · exact h
      · rename_i pending _
        cases mode with
        | ungroup =>
          refine h.step ?_ rfl rfl
          exact inStep_dropNodes h (fun n => n = pending.id) (·.id ≠ pending.id)
        | deleteAll =>
          let toRemove := pending.id ::
            (s.nodes.filter fun n => n.containerId = some pending.id).map EditorNode.id
          refine h.step ?_ rfl rfl
          exact inStep_dropNodes h (· ∈ toRemove) fun n => n.id ∉ toRemove
    | addNode node => exact ha.elim
    | onEdgesChange changes => exact ha.elim
    | onNodesChange changes => exact ha.elim
    | applyAssistantOperation name args result => exact ha.elim
    | addConnectedNode node connection => exact ha.elim
    | splitEdge node edgeId sourceToNew newToTarget => exact ha.elim

def runEditor (deps : StoreDeps) (actions : List EditorAction) (s : EditorState) : EditorState :=
  actions.foldl (fun s a => performEditor deps a s) s

/-- The condition holds of every action in the state in which it is taken. -/
def EachKeepsStep (deps : StoreDeps) : EditorState → List EditorAction → Prop
  | _, [] => True
  | s, a :: actions => KeepsStep deps s a ∧ EachKeepsStep deps (performEditor deps a s) actions

theorem Synced.run (hadds : AddsConnections deps.reactFlow) {actions : List EditorAction}
    (h : Synced deps s) (hactions : EachKeepsStep deps s actions) :
    Synced deps (runEditor deps actions s) := by
  induction actions generalizing s with
  | nil => exact h
  | cons a actions ih => exact ih (h.perform hadds hactions.1) hactions.2

/-- **Containers follow the edges.** From scratch they do for every node and edge list without
    conflicts, exactly as far as sixteen passes reach.  Along a run the stored ones stay the derived
    ones as long as every wire connects cleanly. -/
theorem containers_follow_edges (deps : StoreDeps) (hadds : AddsConnections deps.reactFlow) :
    (∀ nodes edges, Consistent (wireRules deps.getNodeDefinition nodes edges) →
      (FollowsEdges deps.getNodeDefinition nodes edges ↔
        Shallow (wireRules deps.getNodeDefinition nodes edges) maxPasses)) ∧
    ∀ s actions, Synced deps s → EachKeepsStep deps s actions →
      ∀ before after, actions = before ++ after →
        (runEditor deps before s).nodes = deriveContainerAssignments deps.getNodeDefinition
          (runEditor deps before s).nodes (runEditor deps before s).edges := by
  refine ⟨fun nodes edges hcons => followsEdges_iff hcons, ?_⟩
  rintro s actions hsynced heach before after rfl
  have hbefore : EachKeepsStep deps s before := by
    clear hsynced
    induction before generalizing s with
    | nil => trivial
    | cons a before ih => exact ⟨heach.1, ih _ heach.2⟩
  exact (hsynced.run hadds hbefore).canvas.derived.symm

theorem plain_addsConnections : AddsConnections plainReactFlow where
  kept := by
    intro c data edges h
    refine if_pos ?_
    simpa [or_assoc] using h
  added := by
    intro c data edges hsource htarget hnew
    refine ⟨_, if_neg ?_, rfl, rfl, rfl, rfl⟩
    simp [hsource, htarget, hnew]

/-- A loop, a node, and no wire yet. -/
def unwired : EditorState := { nodes := [plainNode "L" "loop", plainNode "A" "code"] }

def bodyConnection : Connection := ⟨"L", .str "body", "A", .str "in"⟩

theorem unwired_connectsCleanly : ConnectsCleanly plainDeps unwired.snapshot bodyConnection := by
  have hrule : wireRule plainDeps.getNodeDefinition unwired.snapshot.nodes bodyConnection =
      .claim [("A", "L")] := by decide +kernel
  have hreached : ∀ {k x c}, Reached [claim [("A", "L")]] k x c → (x, c) ∈ [("A", "L")] := by
    intro k x c hx
    obtain ⟨claims, hmem, hclaim⟩ := claimed_of_no_links (by simp) hx
    cases List.mem_singleton.mp hmem
    exact hclaim
  have hcons : Consistent [claim [("A", "L")]] := consistent_of_one (c := "L") (by simp)
  have hnone : ∀ {k x c}, ¬ Reached ([] : List (SpreadRule String String)) k x c := fun hx =>
    (claimed_of_no_links (by simp) hx).elim fun _ h => nomatch h.1
  have hwires : wireRules plainDeps.getNodeDefinition unwired.snapshot.nodes unwired.snapshot.edges = [] :=
    rfl
  constructor
  · rw [hwires]
    exact consistent_of_one (c := "L") (by simp)
  · rw [hwires]
    exact fun m x c hx => absurd hx.1 hnone
  · rw [hwires, hrule]
    exact hcons
  · rw [hwires, hrule]
    exact fun m x c hx => ⟨.inl ⟨_, List.mem_cons_self, hreached hx.1⟩, hx.2⟩
  · rw [hwires, hrule]
    exact fun k x c hx => .inr ⟨c, hreached hx.1⟩

theorem containers_follow_body_wire :
    (runEditor plainDeps [.canvas (.onConnect bodyConnection), .undo] unwired).nodes =
      deriveContainerAssignments plainDeps.getNodeDefinition
        (runEditor plainDeps [.canvas (.onConnect bodyConnection), .undo] unwired).nodes
        (runEditor plainDeps [.canvas (.onConnect bodyConnection), .undo] unwired).edges := by
  have hstart : InStep plainDeps unwired.snapshot :=
    ⟨by decide +kernel, by decide +kernel, by decide +kernel⟩
  have hsynced : Synced plainDeps unwired :=
    ⟨⟨hstart, fun _ h => (nomatch h), fun _ h => (nomatch h)⟩, fun _ h => nomatch h⟩
  exact (containers_follow_edges plainDeps plain_addsConnections).2 unwired
    [.canvas (.onConnect bodyConnection), .undo] hsynced
    ⟨fun _ => unwired_connectsCleanly, trivial, trivial⟩ [.canvas (.onConnect bodyConnection), .undo] [] rfl

/-- A chain of wires in a loop, the wire at the loop last. -/
def chainNodes (length : Nat) : List EditorNode :=
  plainNode "L" "loop" :: (List.range (length + 1)).map fun i => plainNode (toString i) "code"

def chainEdges (length : Nat) : List EditorEdge :=
  ((List.range length).map fun i =>
      plainEdge ("e" ++ toString i) (toString i) "out" (toString (i + 1)) "in").reverse ++
    [plainEdge "body" "L" "body" "0" "in"]

/-- Seventeen nodes in one loop: the last one is reached in one order of the edges only.  And a wire
    from the loop to a node that is wired already leaves the next node outside. -/
theorem long_chain_and_late_body_wire :
    (Consistent (wireRules plainDeps.getNodeDefinition (chainNodes 16) (chainEdges 16)) ∧
      deriveContainerAssignments plainDeps.getNodeDefinition (chainNodes 16) (chainEdges 16) ≠
        deriveContainerAssignments plainDeps.getNodeDefinition (chainNodes 16) (chainEdges 16).reverse) ∧
    deriveContainerAssignments plainDeps.getNodeDefinition wired.nodes wired.edges = wired.nodes ∧
      deriveContainerAssignments plainDeps.getNodeDefinition
          (runEditor plainDeps [.canvas (.onConnect bodyConnection)] wired).nodes
          (runEditor plainDeps [.canvas (.onConnect bodyConnection)] wired).edges ≠
        (runEditor plainDeps [.canvas (.onConnect bodyConnection)] wired).nodes := by
  refine ⟨⟨?_, by decide +kernel⟩, by decide +kernel, by decide +kernel⟩
  apply consistent_of_one (c := "L")
  intro claims hmem
  have hall : (wireRules plainDeps.getNodeDefinition (chainNodes 16) (chainEdges 16)).all (fun
      | .claim claims => claims.all (·.2 = "L")
      | .link _ _ => true) = true := by decide +kernel
  simpa using List.all_eq_true.mp hall _ hmem

end Clemvion.Editor
