import Mathlib.Data.List.Dedup
import Clemvion.Library.ListOrder
import Clemvion.Assistant.ShadowWorkflow

/-!
# ShadowConsistency — what every edit keeps

Four facts about the shadow graph: edges end at nodes, labels are pairwise distinct, containers
exist, and the edges that count for the cycle check form no cycle.  Which edges count depends on
the container chains, so an edit of the nodes can turn an exempt edge into an ordinary one.
`remove_node` does, and leaves its children behind; `BreaksContainers` says exactly when.
-/

open Clemvion.Js Clemvion.Library

namespace Clemvion.Assistant

namespace ShadowWorkflow

structure Consistent (w : ShadowWorkflow) : Prop where
  endpoints : ∀ e ∈ w.edges.values,
    w.nodes.has e.sourceNodeId = true ∧ w.nodes.has e.targetNodeId = true
  labels : ∀ m ∈ w.nodes.values, ∀ n ∈ w.nodes.values, m.id ≠ n.id →
    m.label.strictEquals n.label = false
  containers : ∀ n ∈ w.nodes.values, ∀ c, n.containerId = some c → w.nodes.has c = true
  acyclic : ∀ v, ¬ Relation.TransGen (fun a b => b ∈ w.ordinaryTargets a) v v

/-- `randomUUID` returns a non-empty id that no node and no edge has. -/
structure Fresh (w : ShadowWorkflow) (uuid : String) : Prop where
  nonempty : uuid ≠ ""
  node : w.nodes.has uuid = false
  edge : w.edges.has uuid = false

variable {w w' : ShadowWorkflow}

/-! ## 1. Container chains -/

theorem mem_ordinaryTargets {a b : String} : b ∈ w.ordinaryTargets a ↔
    ∃ e ∈ w.edges.values, e.sourceNodeId = a ∧ w.isBypassable e = false ∧ e.targetNodeId = b := by
  unfold ordinaryTargets
  simp only [List.mem_map, List.mem_filter, Bool.and_eq_true, decide_eq_true_eq,
    Bool.not_eq_true', and_assoc]

theorem containerOf_eq_some {id c : String} (h : w.containerOf id = some c) :
    ∃ n ∈ w.nodes.values, n.id = id ∧ n.containerId = some c := by
  unfold containerOf at h
  obtain ⟨n, hn, hc⟩ := Option.bind_eq_some_iff.mp h
  obtain ⟨hmem, hid⟩ := KeyedMap.get?_eq_some_iff.mp hn
  exact ⟨n, hmem, hid, hc⟩

/-- Two workflows that agree on the containers of a set of nodes closed under containers give
the same chains from that set. -/
private theorem climbsTo_congr {P : String → Prop}
    (hagree : ∀ id, P id → w'.containerOf id = w.containerOf id)
    (hclosed : ∀ id c, P id → w.containerOf id = some c → P c) (candidate : String) :
    ∀ (depth : Nat) (visited : List String) (current : Option String),
      (∀ c, current = some c → P c) →
      w'.climbsTo candidate depth visited current = w.climbsTo candidate depth visited current := by
  intro depth
  induction depth with
  | zero =>
    intro visited current _
    cases current <;> rfl
  | succ depth ih =>
    intro visited current hcurrent
    cases current with
    | none => rfl
    | some c =>
      have hc := hcurrent c rfl
      unfold climbsTo
      rw [hagree c hc, ih (c :: visited) (w.containerOf c) fun c' hc' => hclosed c c' hc hc']

theorem isBypassable_congr {P : String → Prop}
    (hagree : ∀ id, P id → w'.containerOf id = w.containerOf id)
    (hclosed : ∀ id c, P id → w.containerOf id = some c → P c) {e : ShadowEdge}
    (he : P e.sourceNodeId) : w'.isBypassable e = w.isBypassable e := by
  unfold isBypassable shouldBypassCycleCheck isAncestorContainer
  rw [hagree _ he, climbsTo_congr hagree hclosed e.targetNodeId maxContainerDepth []
    (w.containerOf e.sourceNodeId) fun c hc => hclosed _ c he hc]

/-- **The cycle check** is reachability along the ordinary edges. -/
theorem wouldCreateCycle_iff (w : ShadowWorkflow) (sourceId targetId : String) :
    w.wouldCreateCycle sourceId targetId = true ↔
      Relation.ReflTransGen (fun a b => b ∈ w.ordinaryTargets a) targetId sourceId := by
  unfold wouldCreateCycle
  apply search_eq_true_iff (List.nodup_dedup _)
  intro v hv
  apply List.eq_nil_iff_forall_not_mem.mpr
  intro b hb
  obtain ⟨e, he, hsource, -, -⟩ := mem_ordinaryTargets.mp hb
  exact hv (List.mem_dedup.mpr (List.mem_map.mpr ⟨e, he, hsource⟩))

/-! ## 2. The operations on the graph -/

/-- Dropping edges keeps the facts. -/
theorem Consistent.fewer_edges (h : w.Consistent) (hnodes : w'.nodes = w.nodes)
    (hedges : ∀ e ∈ w'.edges.values, e ∈ w.edges.values) : w'.Consistent := by
  have hcontainer : ∀ id, w'.containerOf id = w.containerOf id := by
    intro id
    unfold containerOf
    rw [hnodes]
  refine ⟨?_, ?_, ?_, ?_⟩
  · intro e he
    rw [hnodes]
    exact h.endpoints e (hedges e he)
  · rw [hnodes]
    exact h.labels
  · rw [hnodes]
    exact h.containers
  · apply acyclic_mono ?_ h.acyclic
    intro a b hb
    obtain ⟨e, he, hsource, hordinary, htarget⟩ := mem_ordinaryTargets.mp hb
    rw [isBypassable_congr (P := fun _ => True) (fun id _ => hcontainer id)
      (fun _ _ _ _ => trivial) trivial] at hordinary
    exact mem_ordinaryTargets.mpr ⟨e, hedges e he, hsource, hordinary, htarget⟩

theorem has_of_mem {m : KeyedMap ShadowNode.id} {n : ShadowNode} (hn : n ∈ m.values) :
    m.has n.id = true := KeyedMap.has_iff.mpr ⟨n, hn, rfl⟩

/-- A fresh id is nobody's container. -/
theorem Consistent.container_ne_fresh (h : w.Consistent) {uuid : String} (hfresh : w.Fresh uuid)
    {id c : String} (hc : w.containerOf id = some c) : c ≠ uuid := by
  rintro rfl
  obtain ⟨n, hn, -, hcontainer⟩ := containerOf_eq_some hc
  have hhas := h.containers n hn c hcontainer
  rw [hfresh.node] at hhas
  cases hhas

/-- Adding a node with a new label, into an existing container, keeps the facts. -/
theorem Consistent.set_new_node (h : w.Consistent) (node : ShadowNode) (hfresh : w.Fresh node.id)
    (hlabel : ∀ n ∈ w.nodes.values, n.label.strictEquals node.label = false)
    (hcontainer : ∀ c, node.containerId = some c → w.nodes.has c = true)
    (hnodes : w'.nodes = w.nodes.set node) (hedges : w'.edges = w.edges) : w'.Consistent := by
  have hne : ∀ n ∈ w.nodes.values, n.id ≠ node.id := by
    intro n hn heq
    have hhas := has_of_mem hn
    rw [heq, hfresh.node] at hhas
    cases hhas
  have hhas : ∀ id, w.nodes.has id = true → w'.nodes.has id = true := by
    intro id hid
    obtain ⟨n, hn, hkey⟩ := KeyedMap.has_iff.mp hid
    rw [hnodes]
    exact KeyedMap.has_iff.mpr ⟨n, KeyedMap.mem_set.mpr (.inr ⟨hn, hne n hn⟩), hkey⟩
  have hmem : ∀ n, n ∈ w'.nodes.values ↔ n = node ∨ n ∈ w.nodes.values := by
    intro n
    rw [hnodes, KeyedMap.mem_set]
    constructor
    · rintro (rfl | ⟨hn, -⟩)
      · exact .inl rfl
      · exact .inr hn
    · rintro (rfl | hn)
      · exact .inl rfl
      · exact .inr ⟨hn, hne n hn⟩
  refine ⟨?_, ?_, ?_, ?_⟩
  · intro e he
    rw [hedges] at he
    exact ⟨hhas _ (h.endpoints e he).1, hhas _ (h.endpoints e he).2⟩
  · intro m hm n hn hids
    rcases (hmem m).mp hm with rfl | hm
    · rcases (hmem n).mp hn with rfl | hn
      · exact absurd rfl hids
      · rw [Value.strictEquals_comm]
        exact hlabel n hn
    · rcases (hmem n).mp hn with rfl | hn
      · exact hlabel m hm
      · exact h.labels m hm n hn hids
  · intro n hn c hc
    rcases (hmem n).mp hn with rfl | hn
    · exact hhas c (hcontainer c hc)
    · exact hhas c (h.containers n hn c hc)
  · -- the chains of the old nodes do not meet the new one
    apply acyclic_mono ?_ h.acyclic
    intro a b hb
    obtain ⟨e, he, hsource, hordinary, htarget⟩ := mem_ordinaryTargets.mp hb
    rw [hedges] at he
    rw [isBypassable_congr (P := fun id => id ≠ node.id) ?_ ?_ ?_] at hordinary
    · exact mem_ordinaryTargets.mpr ⟨e, he, hsource, hordinary, htarget⟩
    · intro id hid
      unfold containerOf
      rw [hnodes, KeyedMap.get?_set_of_ne hid]
    · intro id c _ hc
      exact h.container_ne_fresh hfresh hc
    · intro heq
      have hhas := (h.endpoints e he).1
      rw [heq, hfresh.node] at hhas
      cases hhas

/-- Replacing a node by one with the same id and container, and a label of its own, keeps the
facts. -/
theorem Consistent.set_same_container (h : w.Consistent) {node : ShadowNode} (next : ShadowNode)
    (hget : w.nodes.get? next.id = some node) (hcontainer : next.containerId = node.containerId)
    (hlabel : ∀ n ∈ w.nodes.values, n.id ≠ next.id → n.label.strictEquals next.label = false)
    (hnodes : w'.nodes = w.nodes.set next) (hedges : w'.edges = w.edges) : w'.Consistent := by
  obtain ⟨hnode, hid⟩ := KeyedMap.get?_eq_some_iff.mp hget
  have hmem : ∀ n, n ∈ w'.nodes.values ↔ n = next ∨ n ∈ w.nodes.values ∧ n.id ≠ next.id := by
    intro n
    rw [hnodes]
    exact KeyedMap.mem_set
  have hhas : ∀ id, w.nodes.has id = true → w'.nodes.has id = true := by
    intro id hid'
    obtain ⟨n, hn, rfl⟩ := KeyedMap.has_iff.mp hid'
    by_cases heq : n.id = next.id
    · exact KeyedMap.has_iff.mpr ⟨next, (hmem next).mpr (.inl rfl), heq.symm⟩
    · exact has_of_mem ((hmem n).mpr (.inr ⟨hn, heq⟩))
  have hchain : ∀ id, w'.containerOf id = w.containerOf id := by
    intro id
    unfold containerOf
    rw [hnodes]
    by_cases heq : id = next.id
    · rw [heq, KeyedMap.get?_set_self, hget]
      exact hcontainer
    · rw [KeyedMap.get?_set_of_ne heq]
  refine ⟨?_, ?_, ?_, ?_⟩
  · intro e he
    rw [hedges] at he
    exact ⟨hhas _ (h.endpoints e he).1, hhas _ (h.endpoints e he).2⟩
  · intro m hm n hn hids
    rcases (hmem m).mp hm with rfl | ⟨hm, hmne⟩
    · rcases (hmem n).mp hn with rfl | ⟨hn, hnne⟩
      · exact absurd rfl hids
      · rw [Value.strictEquals_comm]
        exact hlabel n hn hnne
    · rcases (hmem n).mp hn with rfl | ⟨hn, -⟩
      · exact hlabel m hm hmne
      · exact h.labels m hm n hn hids
  · intro n hn c hc
    rcases (hmem n).mp hn with rfl | ⟨hn, -⟩
    · rw [hcontainer] at hc
      exact hhas c (h.containers node hnode c hc)
    · exact hhas c (h.containers n hn c hc)
  · apply acyclic_mono ?_ h.acyclic
    intro a b hb
    obtain ⟨e, he, hsource, hordinary, htarget⟩ := mem_ordinaryTargets.mp hb
    rw [hedges] at he
    rw [isBypassable_congr (P := fun _ => True) (fun id _ => hchain id)
      (fun _ _ _ _ => trivial) trivial] at hordinary
    exact mem_ordinaryTargets.mpr ⟨e, he, hsource, hordinary, htarget⟩

/-- Removing a node with its edges keeps the facts when it is no other node's container. -/
theorem Consistent.delete_node (h : w.Consistent) {id : String}
    (hchildless : ∀ n ∈ w.nodes.values, n.id ≠ id → n.containerId ≠ some id)
    (hnodes : w'.nodes = w.nodes.delete id)
    (hedges : ∀ e, e ∈ w'.edges.values ↔
      e ∈ w.edges.values ∧ e.sourceNodeId ≠ id ∧ e.targetNodeId ≠ id) : w'.Consistent := by
  have hmem : ∀ n, n ∈ w'.nodes.values ↔ n ∈ w.nodes.values ∧ n.id ≠ id := by
    intro n
    rw [hnodes]
    exact KeyedMap.mem_delete
  have hhas : ∀ id', w.nodes.has id' = true → id' ≠ id → w'.nodes.has id' = true := by
    intro id' hid' hne
    obtain ⟨n, hn, rfl⟩ := KeyedMap.has_iff.mp hid'
    exact has_of_mem ((hmem n).mpr ⟨hn, hne⟩)
  refine ⟨?_, ?_, ?_, ?_⟩
  · intro e he
    obtain ⟨he, hsource, htarget⟩ := (hedges e).mp he
    exact ⟨hhas _ (h.endpoints e he).1 hsource, hhas _ (h.endpoints e he).2 htarget⟩
  · intro m hm n hn hids
    exact h.labels m ((hmem m).mp hm).1 n ((hmem n).mp hn).1 hids
  · intro n hn c hc
    obtain ⟨hn, hne⟩ := (hmem n).mp hn
    apply hhas c (h.containers n hn c hc)
    rintro rfl
    exact hchildless n hn hne hc
  · -- no remaining chain goes through the removed node
    apply acyclic_mono ?_ h.acyclic
    intro a b hb
    obtain ⟨e, he, hsource, hordinary, htarget⟩ := mem_ordinaryTargets.mp hb
    obtain ⟨he, hsourceNe, -⟩ := (hedges e).mp he
    rw [isBypassable_congr (P := fun id' => id' ≠ id) ?_ ?_ hsourceNe] at hordinary
    · exact mem_ordinaryTargets.mpr ⟨e, he, hsource, hordinary, htarget⟩
    · intro id' hid'
      unfold containerOf
      rw [hnodes, KeyedMap.get?_delete_of_ne hid']
    · rintro id' c hid' hc rfl
      obtain ⟨n, hn, hkey, hcontainer⟩ := containerOf_eq_some hc
      exact hchildless n hn (hkey ▸ hid') hcontainer

/-- Adding an edge between nodes keeps the facts when it is exempt or closes no cycle. -/
theorem Consistent.set_new_edge (h : w.Consistent) (edge : ShadowEdge)
    (hsource : w.nodes.has edge.sourceNodeId = true)
    (htarget : w.nodes.has edge.targetNodeId = true)
    (hcycle : w.isBypassable edge = true ∨
      w.wouldCreateCycle edge.sourceNodeId edge.targetNodeId = false)
    (hnodes : w'.nodes = w.nodes) (hedges : w'.edges = w.edges.set edge) : w'.Consistent := by
  have hmem : ∀ e, e ∈ w'.edges.values → e = edge ∨ e ∈ w.edges.values := by
    intro e he
    rw [hedges] at he
    exact (KeyedMap.mem_set.mp he).imp_right (·.1)
  have hbypass : ∀ e, w'.isBypassable e = w.isBypassable e := by
    intro e
    apply isBypassable_congr (P := fun _ => True) ?_ (fun _ _ _ _ => trivial) trivial
    intro id _
    unfold containerOf
    rw [hnodes]
  refine ⟨?_, ?_, ?_, ?_⟩
  · intro e he
    rw [hnodes]
    rcases hmem e he with rfl | he
    · exact ⟨hsource, htarget⟩
    · exact h.endpoints e he
  · rw [hnodes]
    exact h.labels
  · rw [hnodes]
    exact h.containers
  · rcases hcycle with hexempt | hfree
    · apply acyclic_mono ?_ h.acyclic
      intro a b hb
      obtain ⟨e, he, hs, hordinary, ht⟩ := mem_ordinaryTargets.mp hb
      rw [hbypass] at hordinary
      rcases hmem e he with rfl | he
      · rw [hexempt] at hordinary
        cases hordinary
      · exact mem_ordinaryTargets.mpr ⟨e, he, hs, hordinary, ht⟩
    · have hback : ¬ Relation.ReflTransGen (fun a b => b ∈ w.ordinaryTargets a)
          edge.targetNodeId edge.sourceNodeId := by
        rw [← wouldCreateCycle_iff, hfree]
        exact Bool.false_ne_true
      apply acyclic_mono ?_ (acyclic_insert h.acyclic hback)
      intro a b hb
      obtain ⟨e, he, hs, hordinary, ht⟩ := mem_ordinaryTargets.mp hb
      rw [hbypass] at hordinary
      rcases hmem e he with rfl | he
      · exact .inr ⟨hs.symm, ht.symm⟩
      · exact .inl (mem_ordinaryTargets.mpr ⟨e, he, hs, hordinary, ht⟩)

/-! ## 3. What each call can do -/

variable {deps : ShadowDeps} {args : Value} {uuid : String}

theorem findByLabel_eq_none {label : Value} (h : w.findByLabel label = none) :
    ∀ n ∈ w.nodes.values, n.label.strictEquals label = false := by
  intro n hn
  unfold findByLabel at h
  rw [List.find?_eq_none] at h
  simpa using h n hn

/-- Every check of `add_node` passes. -/
structure AcceptsNewNode (deps : ShadowDeps) (w : ShadowWorkflow) (args : Value) : Prop where
  type : stringArg args "type" ≠ ""
  label : stringArg args "label" ≠ ""
  known : stringArg args "type" = manualTrigger ∨ stringArg args "type" ∈ deps.knownNodeTypes
  free : w.findByLabel (.str (stringArg args "label")) = none
  container : ∀ c, containerIdArg args = some c → c ≠ "" →
    w.nodes.has c = true ∧ isTriggerCategory deps (stringArg args "type") = false
  expressions :
    deps.validateConfigExpressions (newConfig deps (stringArg args "type") args) = []
  validated : ∃ warnings, configWarnings deps (stringArg args "type")
    (newConfig deps (stringArg args "type") args) = .ok warnings
  placed : ∃ position, newPosition deps args = .ok position

def newNode (deps : ShadowDeps) (args : Value) (uuid : String) : ShadowNode where
  id := uuid
  type := stringArg args "type"
  category := resolveCategory deps (stringArg args "type")
  label := .str (stringArg args "label")
  positionX := ((newPosition deps args).toOption.map (·.1)).getD (.finite 0)
  positionY := ((newPosition deps args).toOption.map (·.2)).getD (.finite 0)
  config := newConfig deps (stringArg args "type") args
  containerId := containerIdArg args

def storeNode (w : ShadowWorkflow) (node : ShadowNode) : ShadowWorkflow :=
  { w with nodes := w.nodes.set node }

/-- `add_node` fails and leaves the graph alone, or every check passed and the node is new. -/
theorem addNode_cases (deps : ShadowDeps) (w : ShadowWorkflow) (args : Value) (uuid : String) :
    ¬ AcceptsNewNode deps w args ∧ Outcome.Failed (w.addNode deps args uuid) ∧
        (w.addNode deps args uuid).1.nodes = w.nodes ∧
        (w.addNode deps args uuid).1.edges = w.edges ∨
      AcceptsNewNode deps w args ∧ ∃ warnings, w.addNode deps args uuid =
        (w.storeNode (newNode deps args uuid),
          (w.storeNode (newNode deps args uuid)).withRuntimePorts deps uuid
            { ok := true, id := some uuid, configWarnings := warnings }) := by
  unfold addNode
  simp only
  by_cases hempty : stringArg args "type" = "" ∨ stringArg args "label" = ""
  · rw [if_pos (by simpa using hempty)]
    refine .inl ⟨?_, rfl, rfl, rfl⟩
    intro h
    exact hempty.elim h.type h.label
  rw [if_neg (by simpa using hempty)]
  by_cases hunknown : stringArg args "type" ≠ manualTrigger ∧
      stringArg args "type" ∉ deps.knownNodeTypes
  · rw [if_pos (by simpa using hunknown)]
    refine .inl ⟨?_, rfl, rfl, rfl⟩
    intro h
    exact h.known.elim hunknown.1 hunknown.2
  rw [if_neg (by simpa using hunknown)]
  cases hfree : w.findByLabel (.str (stringArg args "label")) with
  | some n =>
    refine .inl ⟨?_, rfl, rfl, rfl⟩
    intro h
    rw [h.free] at hfree
    cases hfree
  | none =>
    rw [if_neg (by simp)]
    by_cases hmissing : ∃ c, containerIdArg args = some c ∧ c ≠ "" ∧ w.nodes.has c = false
    · obtain ⟨c, hc, hne, hhas⟩ := hmissing
      rw [if_pos (by simp [hc, hne, hhas])]
      refine .inl ⟨?_, rfl, rfl, rfl⟩
      intro h
      rw [(h.container c hc hne).1] at hhas
      cases hhas
    rw [if_neg (by
      rw [Option.any_eq_true]
      rintro ⟨c, hc, htest⟩
      exact hmissing ⟨c, hc, by simpa using htest⟩)]
    by_cases htrigger : ∃ c, containerIdArg args = some c ∧ c ≠ "" ∧
        isTriggerCategory deps (stringArg args "type") = true
    · obtain ⟨c, hc, hne, hcategory⟩ := htrigger
      rw [if_pos (by simp [hc, hne, hcategory])]
      refine .inl ⟨?_, rfl, rfl, rfl⟩
      intro h
      rw [(h.container c hc hne).2] at hcategory
      cases hcategory
    rw [if_neg (by
      rw [Bool.and_eq_true, Option.any_eq_true]
      rintro ⟨⟨c, hc, htest⟩, hcategory⟩
      exact htrigger ⟨c, hc, by simpa using htest, hcategory⟩)]
    by_cases hexpr : deps.validateConfigExpressions
        (newConfig deps (stringArg args "type") args) = []
    · rw [if_neg (by simpa using hexpr)]
      cases hwarn : configWarnings deps (stringArg args "type")
          (newConfig deps (stringArg args "type") args) with
      | error thrown =>
        refine .inl ⟨?_, trivial, rfl, rfl⟩
        intro h
        obtain ⟨warnings, hok⟩ := h.validated
        rw [hwarn] at hok
        cases hok
      | ok warnings =>
        cases hposition : newPosition deps args with
        | error thrown =>
          refine .inl ⟨?_, trivial, rfl, rfl⟩
          intro h
          obtain ⟨position, hok⟩ := h.placed
          rw [hposition] at hok
          cases hok
        | ok position =>
          refine .inr ⟨?_, warnings, ?_⟩
          · refine ⟨fun h => hempty (.inl h), fun h => hempty (.inr h), ?_, hfree, ?_, hexpr,
              ⟨warnings, hwarn⟩, position, hposition⟩
            · by_contra hnot
              exact hunknown (not_or.mp hnot)
            · intro c hc hne
              refine ⟨?_, ?_⟩
              · cases hhas : w.nodes.has c with
                | true => rfl
                | false => exact absurd ⟨c, hc, hne, hhas⟩ hmissing
              · cases hcategory : isTriggerCategory deps (stringArg args "type") with
                | false => rfl
                | true => exact absurd ⟨c, hc, hne, hcategory⟩ htrigger
          · unfold storeNode newNode
            rw [hposition]
            rfl
    · rw [if_pos (by simpa using hexpr)]
      refine .inl ⟨?_, rfl, rfl, rfl⟩
      intro h
      exact hexpr h.expressions

/-- An accepted `add_node` that names the container `""`, which the existence check skips. -/
def EntersNamelessContainer (deps : ShadowDeps) (w : ShadowWorkflow) (args : Value) : Prop :=
  AcceptsNewNode deps w args ∧ containerIdArg args = some "" ∧ w.nodes.has "" = false

/-- A `remove_node` of another node's container. -/
def RemovesContainer (w : ShadowWorkflow) (args : Value) : Prop :=
  ∃ node, w.nodes.get? (stringArg args "id") = some node ∧ node.type ≠ manualTrigger ∧
    ∃ n ∈ w.nodes.values, n.id ≠ stringArg args "id" ∧ n.containerId = some (stringArg args "id")

/-- The calls after which some `containerId` names no node. -/
def BreaksContainers (deps : ShadowDeps) (w : ShadowWorkflow) (call : ShadowToolCall) : Prop :=
  match call.name with
  | .addNode => EntersNamelessContainer deps w call.arguments
  | .removeNode => RemovesContainer w call.arguments
  | _ => False

theorem addNode_consistent_iff (h : w.Consistent) (hfresh : w.Fresh uuid) :
    (w.addNode deps args uuid).1.Consistent ↔ ¬ EntersNamelessContainer deps w args := by
  obtain ⟨hnot, -, hnodes, hedges⟩ | ⟨haccepts, warnings, hadd⟩ := addNode_cases deps w args uuid
  · constructor
    · intro _ hbreaks
      exact hnot hbreaks.1
    · intro _
      apply h.fewer_edges hnodes
      intro e he
      rwa [hedges] at he
  · have hnodes : (w.addNode deps args uuid).1.nodes = w.nodes.set (newNode deps args uuid) := by
      rw [hadd]
      rfl
    have hedges : (w.addNode deps args uuid).1.edges = w.edges := by
      rw [hadd]
      rfl
    constructor
    · rintro h' ⟨-, hname, hnone⟩
      -- the new node's container is neither an old node nor the new one
      have hmem : newNode deps args uuid ∈ (w.addNode deps args uuid).1.nodes.values := by
        rw [hnodes]
        exact KeyedMap.mem_set.mpr (.inl rfl)
      have hhas := h'.containers _ hmem "" hname
      rw [hnodes] at hhas
      obtain ⟨n, hn, hid⟩ := KeyedMap.has_iff.mp hhas
      rcases KeyedMap.mem_set.mp hn with rfl | ⟨hn, -⟩
      · exact hfresh.nonempty hid
      · rw [KeyedMap.has_iff.mpr ⟨n, hn, hid⟩] at hnone
        cases hnone
    · intro hkeeps
      apply h.set_new_node (newNode deps args uuid) hfresh
        (findByLabel_eq_none haccepts.free) ?_ hnodes hedges
      intro c hc
      by_cases hne : c = ""
      · subst hne
        cases hhas : w.nodes.has "" with
        | true => rfl
        | false => exact absurd ⟨haccepts, hc, hhas⟩ hkeeps
      · exact (haccepts.container c hc hne).1

theorem removeNode_consistent_iff (h : w.Consistent) :
    (w.removeNode args).1.Consistent ↔ ¬ RemovesContainer w args := by
  unfold removeNode
  simp only
  cases hget : w.nodes.get? (stringArg args "id") with
  | none =>
    constructor
    · rintro _ ⟨node, hsome, -⟩
      rw [hget] at hsome
      cases hsome
    · intro _
      exact h
  | some node =>
    simp only
    by_cases htrigger : node.type = manualTrigger
    · rw [if_pos htrigger]
      constructor
      · rintro _ ⟨node', hsome, hne, -⟩
        rw [hget] at hsome
        cases hsome
        exact hne htrigger
      · intro _
        exact h
    · rw [if_neg htrigger]
      constructor
      · rintro h' ⟨-, -, -, n, hn, hne, hcontainer⟩
        have hmem := KeyedMap.mem_delete.mpr ⟨hn, hne⟩
        obtain ⟨n', hn', hid⟩ := KeyedMap.has_iff.mp (h'.containers n hmem _ hcontainer)
        exact (KeyedMap.mem_delete.mp hn').2 hid
      · intro hkeeps
        apply h.delete_node ?_ rfl ?_
        · intro n hn hne hcontainer
          exact hkeeps ⟨node, hget, htrigger, n, hn, hne, hcontainer⟩
        · intro e
          show e ∈ (List.foldl KeyedMap.delete w.edges _).values ↔ _
          rw [KeyedMap.mem_foldl_delete]
          constructor
          · rintro ⟨he, hids⟩
            refine ⟨he, ?_, ?_⟩
            · intro hsource
              apply hids
              exact List.mem_map.mpr ⟨e, List.mem_filter.mpr ⟨he, by simp [hsource]⟩, rfl⟩
            · intro htarget
              apply hids
              exact List.mem_map.mpr ⟨e, List.mem_filter.mpr ⟨he, by simp [htarget]⟩, rfl⟩
          · rintro ⟨he, hsource, htarget⟩
            refine ⟨he, ?_⟩
            intro hids
            obtain ⟨e', he', hid⟩ := List.mem_map.mp hids
            obtain ⟨hmem, htouch⟩ := List.mem_filter.mp he'
            rw [KeyedMap.eq_of_key_eq hmem he hid] at htouch
            simp [hsource, htarget] at htouch

theorem updateNode_consistent (h : w.Consistent) : (w.updateNode deps args uuid).1.Consistent := by
  unfold updateNode
  simp only
  cases hget : w.nodes.get? (stringArg args "id") with
  | none => exact h
  | some node =>
    simp only
    split
    · exact h
    · rename_i hlabel
      split
      · exact h
      · split
        · exact h
        · rename_i positionX positionY _
          split
          · exact h
          · obtain ⟨hnode, hid⟩ := KeyedMap.get?_eq_some_iff.mp hget
            refine h.set_same_container { node with
                label := (patchedLabel (args.field "patch") node).getD node.label
                positionX, positionY
                config := (patchedConfig deps (args.field "patch") node).getD node.config }
              (show w.nodes.get? node.id = some node by rw [hid]; exact hget) rfl ?_ rfl rfl
            intro n hn hne
            cases hpatched : patchedLabel (args.field "patch") node with
            | none => exact h.labels n hn node hnode hne
            | some label =>
              rw [hpatched] at hlabel
              have hfree : w.findByLabel label = none := by simpa using hlabel
              exact findByLabel_eq_none hfree n hn

theorem addEdge_consistent (h : w.Consistent) : (w.addEdge deps args uuid).1.Consistent := by
  unfold addEdge
  simp only
  split
  · exact h
  · split
    · exact h
    · split
      · exact h
      · rename_i hexists
        simp only [Bool.or_eq_true, Bool.not_eq_true', not_or, Bool.not_eq_false] at hexists
        split
        · exact h
        · exact h
        · split
          · exact h
          · rename_i hcycle
            refine h.set_new_edge
              { id := uuid
                sourceNodeId := stringArgOr args "source_id" "sourceId" ""
                sourcePort := stringArgOr args "source_port" "sourcePort" "out"
                targetNodeId := stringArgOr args "target_id" "targetId" ""
                targetPort := stringArgOr args "target_port" "targetPort" "in"
                type := if args.field "type" = .str "error" then EdgeType.error else .data }
              hexists.1 hexists.2 ?_ rfl rfl
            simp only [Bool.and_eq_true, Bool.not_eq_true', not_and, Bool.not_eq_true] at hcycle
            cases hbypass : w.shouldBypassCycleCheck
                (stringArgOr args "source_id" "sourceId" "")
                (stringArgOr args "target_id" "targetId" "")
                (stringArgOr args "target_port" "targetPort" "in") with
            | true => exact .inl hbypass
            | false => exact .inr (hcycle hbypass)

theorem removeEdge_consistent (h : w.Consistent) : (w.removeEdge args).1.Consistent := by
  have hdelete : ∀ id, Consistent { w with edges := w.edges.delete id } := by
    intro id
    apply h.fewer_edges (show ({ w with edges := w.edges.delete id } : ShadowWorkflow).nodes =
      w.nodes from rfl)
    intro e he
    exact (KeyedMap.mem_delete.mp he).1
  unfold removeEdge
  simp only
  split
  · exact hdelete _
  · split
    · exact hdelete _
    · exact h

/-- **One call** keeps the four facts exactly when it breaks no container. -/
theorem apply_consistent_iff (h : w.Consistent) (hfresh : w.Fresh uuid) (call : ShadowToolCall) :
    (w.apply deps call uuid).1.Consistent ↔ ¬ BreaksContainers deps w call := by
  obtain ⟨name, args⟩ := call
  cases name with
  | addNode => exact addNode_consistent_iff h hfresh
  | removeNode => exact removeNode_consistent_iff h
  | updateNode => exact ⟨fun _ hbreaks => hbreaks, fun _ => updateNode_consistent h⟩
  | addEdge => exact ⟨fun _ hbreaks => hbreaks, fun _ => addEdge_consistent h⟩
  | removeEdge => exact ⟨fun _ hbreaks => hbreaks, fun _ => removeEdge_consistent h⟩
  | other name => exact ⟨fun _ hbreaks => hbreaks, fun _ => h⟩

/-! ## 4. Whole runs -/

/-- One call of a run, with the id that it draws. -/
def Calls (deps : ShadowDeps) (w w' : ShadowWorkflow) : Prop :=
  ∃ call uuid, w.Fresh uuid ∧ (w.apply deps call uuid).1 = w'

/-- One call of a run that breaks no container. -/
def CallsKeeping (deps : ShadowDeps) (w w' : ShadowWorkflow) : Prop :=
  ∃ call uuid, w.Fresh uuid ∧ ¬ BreaksContainers deps w call ∧ (w.apply deps call uuid).1 = w'

/-- **Runs.** As long as no call breaks a container, the four facts hold after every call. -/
theorem consistent_of_run {snapshot : ShadowSnapshot}
    (hstart : (ofSnapshot snapshot).Consistent)
    (hrun : Relation.ReflTransGen (CallsKeeping deps) (ofSnapshot snapshot) w) :
    w.Consistent := by
  induction hrun with
  | refl => exact hstart
  | tail _ hcall ih =>
    obtain ⟨call, uuid, hfresh, hkeeps, rfl⟩ := hcall
    exact (apply_consistent_iff ih hfresh call).mpr hkeeps

/-! ## 5. Nested loops

`inner` sits in `outer` and `step` in `inner`; `step` hands its result back to `outer` on `emit`.
The edge back is exempt as long as `inner` links `step` to `outer`.
-/

def nestedNode (id type : String) (containerId : Option String) : ShadowNode where
  id := id
  type := type
  category := "logic"
  label := .str id
  config := .obj []
  containerId := containerId

def nestedSnapshot : ShadowSnapshot where
  nodes := [nestedNode "outer" "loop" none, nestedNode "inner" "loop" (some "outer"),
    nestedNode "step" "code" (some "inner")]
  edges := [⟨"e1", "outer", "body", "step", "in", .data⟩, ⟨"e2", "step", "out", "outer", "emit", .data⟩]

/-- No injected collaborators. -/
def plainDeps : ShadowDeps where
  knownNodeTypes := ["loop", "code"]
  categoryByType := fun _ => none
  defaultConfigByType := fun _ => .obj []
  portResolver := none
  configValidator := none
  validateConfigExpressions := fun _ => []
  normalizeNodeButtonIds := fun config => config
  templateText := fun
    | .str s => s
    | _ => ""
  toNumber := fun
    | .num n => .ok n
    | _ => .ok .nan

def nestedWorkflow : ShadowWorkflow := ofSnapshot nestedSnapshot

theorem consistent_nested : nestedWorkflow.Consistent := by
  refine ⟨by decide, by decide, ?_, ?_⟩
  · have hcontainers : ∀ n ∈ nestedWorkflow.nodes.values,
        ∀ c ∈ n.containerId, nestedWorkflow.nodes.has c = true := by decide
    intro n hn c hc
    exact hcontainers n hn c (by rw [hc]; rfl)
  · -- only the edge from `outer` to `step` counts
    apply acyclic_of_rank fun id => if id = "step" then 1 else 0
    intro a b hb
    have hranked : ∀ e ∈ nestedWorkflow.edges.values, nestedWorkflow.isBypassable e = false →
        (if e.sourceNodeId = "step" then 1 else 0) < (if e.targetNodeId = "step" then 1 else 0) := by
      decide
    obtain ⟨e, he, rfl, hordinary, rfl⟩ := mem_ordinaryTargets.mp hb
    exact hranked e he hordinary

def removeCall (id : String) : ShadowToolCall where
  name := .removeNode
  arguments := .obj [("id", .str id)]

theorem consistent_of_run_nested :
    (nestedWorkflow.apply plainDeps (removeCall "step") "9b2e").1.Consistent := by
  have hcall : CallsKeeping plainDeps (ofSnapshot nestedSnapshot)
      (nestedWorkflow.apply plainDeps (removeCall "step") "9b2e").1 := by
    refine ⟨removeCall "step", "9b2e", ⟨by decide, by decide, by decide⟩, ?_, rfl⟩
    rintro ⟨-, -, -, n, hn, -, hcontainer⟩
    have hnone : ∀ n ∈ nestedWorkflow.nodes.values, n.containerId ≠ some "step" := by decide
    exact hnone n hn hcontainer
  exact consistent_of_run consistent_nested (Relation.ReflTransGen.single hcall)

/-- Not every call keeps the facts: without `inner`, `step` hangs in the air. -/
theorem not_consistent_of_run :
    ¬ ∀ (deps : ShadowDeps) (snapshot : ShadowSnapshot) (w : ShadowWorkflow),
      (ofSnapshot snapshot).Consistent →
      Relation.ReflTransGen (Calls deps) (ofSnapshot snapshot) w → w.Consistent := by
  intro h
  have hrun : Relation.ReflTransGen (Calls plainDeps) nestedWorkflow
      (nestedWorkflow.apply plainDeps (removeCall "inner") "9b2e").1 := by
    apply Relation.ReflTransGen.single
    exact ⟨removeCall "inner", "9b2e", ⟨by decide, by decide, by decide⟩, rfl⟩
  have hbroken := h plainDeps nestedSnapshot _ consistent_nested hrun
  have hhas := hbroken.containers (nestedNode "step" "code" (some "inner")) (by decide) "inner" rfl
  revert hhas
  decide

end ShadowWorkflow

end Clemvion.Assistant
