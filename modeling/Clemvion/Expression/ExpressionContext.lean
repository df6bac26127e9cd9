import Clemvion.Engine.Rehydration
import Clemvion.Expression.DisambiguateLabels
import Clemvion.Library.KeyedMap

/-!
# ExpressionContext — the `$node` object that expressions read

`buildExpressionContext` lists every node that has an output under its disambiguated label and
again under its id, in one object.  A name that two nodes get is read as the later one.
-/

open Clemvion.Js Clemvion.Js.Value Clemvion.Graph Clemvion.Engine Clemvion.Library

namespace Clemvion.Expression

/-! ## 1. Building `$node` -/

abbrev NodeMap := KeyedMap fun node : Node String => node.id

/-- An object that one pass of the loop allocates; the pass, that is the node, is its identity. -/
structure NodeView where
  nodeId : String
  value : Value
  deriving DecidableEq

def nodeEntry (context : ExecutionContext) (nodeId : String) : NodeView where
  nodeId
  value :=
    match context.structuredOutputCache nodeId with
    | some adapted =>
      .obj ([("config", nullish adapted.config (.obj [])), ("output", adapted.output)] ++
        presentField "meta" adapted.metadata ++ presentField "port" adapted.port ++
        presentField "status" adapted.status)
    | none => .obj [("output", (context.nodeOutputCache nodeId).value)]

/-- `executionContext.nodeOutputCache[nodeId] !== undefined`. -/
def hasOutput (context : ExecutionContext) (nodeId : String) : Bool :=
  (context.nodeOutputCache nodeId).value ≠ .undefined

def nodesWithOutput (nodeMap : NodeMap) (context : ExecutionContext) : List LabelEntry :=
  (nodeMap.values.filter fun node => hasOutput context node.id).map fun node => ⟨node.id, node.label⟩

/-- One pass of the loop over the node map. -/
def addNode (context : ExecutionContext) (disambiguatedKeys : String → Option String)
    (view : String → Option NodeView) (node : Node String) : String → Option NodeView :=
  if hasOutput context node.id then
    let entry := nodeEntry context node.id
    let resolvedKey := (disambiguatedKeys node.id).getD "undefined"
    write (write view (resolvedKey, entry)) (node.id, entry)
  else view

/-- `$node`. -/
def buildNodeView (nodeMap : NodeMap) (context : ExecutionContext) : String → Option NodeView :=
  nodeMap.values.foldl (addNode context (buildDisambiguatedKeys (nodesWithOutput nodeMap context)))
    fun _ => none

/-! ## 2. The writes of the loop -/

/-- Every node with an output reads its own entry, under its key and under its id. -/
def ReadsOwnEntries (nodeMap : NodeMap) (context : ExecutionContext) : Prop :=
  ∀ node ∈ nodeMap.values, hasOutput context node.id = true →
    ∃ key, buildDisambiguatedKeys (nodesWithOutput nodeMap context) node.id = some key ∧
      buildNodeView nodeMap context key = some (nodeEntry context node.id) ∧
      buildNodeView nodeMap context node.id = some (nodeEntry context node.id)

variable {nodeMap : NodeMap} {context : ExecutionContext} {e : LabelEntry}

theorem nodup_nodesWithOutput : ((nodesWithOutput nodeMap context).map LabelEntry.id).Nodup := by
  unfold nodesWithOutput
  rw [List.map_map]
  exact nodeMap.nodup.sublist (List.Sublist.map _ List.filter_sublist)

theorem mem_nodesWithOutput : e ∈ nodesWithOutput nodeMap context ↔
    ∃ node ∈ nodeMap.values, hasOutput context node.id = true ∧ e = ⟨node.id, node.label⟩ := by
  unfold nodesWithOutput
  simp only [List.mem_map, List.mem_filter, and_assoc, eq_comm]

/-- The two assignments made for an entry. -/
def entryWrites (context : ExecutionContext) (entries : List LabelEntry) (e : LabelEntry) :
    List (String × NodeView) :=
  [(keyOf entries e, nodeEntry context e.id), (e.id, nodeEntry context e.id)]

private theorem foldl_addNode {keys : String → Option String} {entries : List LabelEntry}
    (nodes : List (Node String)) (view : String → Option NodeView)
    (hkeys : ∀ node ∈ nodes, hasOutput context node.id = true →
      keys node.id = some (keyOf entries ⟨node.id, node.label⟩)) :
    nodes.foldl (addNode context keys) view =
      writeAll view (((nodes.filter fun node => hasOutput context node.id).map fun node =>
        (⟨node.id, node.label⟩ : LabelEntry)).flatMap (entryWrites context entries)) := by
  induction nodes generalizing view with
  | nil => rfl
  | cons node nodes ih =>
    rw [List.foldl_cons, ih _ fun n hn => hkeys n (List.mem_cons_of_mem _ hn)]
    unfold addNode
    by_cases houtput : hasOutput context node.id = true
    · have hfilter : (node :: nodes).filter (fun n => hasOutput context n.id) =
          node :: nodes.filter fun n => hasOutput context n.id := List.filter_cons_of_pos houtput
      rw [if_pos houtput, hfilter, List.map_cons, List.flatMap_cons, writeAll_append,
        hkeys node List.mem_cons_self houtput]
      rfl
    · have hfilter : (node :: nodes).filter (fun n => hasOutput context n.id) =
          nodes.filter fun n => hasOutput context n.id := List.filter_cons_of_neg houtput
      rw [if_neg houtput, hfilter]

/-- All assignments of the loop, in order. -/
def nodeWrites (nodeMap : NodeMap) (context : ExecutionContext) : List (String × NodeView) :=
  (nodesWithOutput nodeMap context).flatMap
    (entryWrites context (nodesWithOutput nodeMap context))

theorem key_eq (he : e ∈ nodesWithOutput nodeMap context) :
    buildDisambiguatedKeys (nodesWithOutput nodeMap context) e.id =
      some (keyOf (nodesWithOutput nodeMap context) e) :=
  buildDisambiguatedKeys_eq nodup_nodesWithOutput he

theorem buildNodeView_eq :
    buildNodeView nodeMap context = writeAll (fun _ => none) (nodeWrites nodeMap context) := by
  apply foldl_addNode
  intro node hnode houtput
  exact key_eq (mem_nodesWithOutput.mpr ⟨node, hnode, houtput, rfl⟩)

theorem mem_nodeWrites {key : String} {view : NodeView} :
    (key, view) ∈ nodeWrites nodeMap context ↔ ∃ e ∈ nodesWithOutput nodeMap context,
      (key = keyOf (nodesWithOutput nodeMap context) e ∨ key = e.id) ∧
        view = nodeEntry context e.id := by
  unfold nodeWrites entryWrites
  simp only [List.mem_flatMap, List.mem_cons, List.not_mem_nil, or_false, Prod.mk.injEq,
    or_and_right]

/-! ## 3. When every node reads its own entry -/

theorem readsOwnEntries_iff_writes : ReadsOwnEntries nodeMap context ↔
    ∀ w ∈ nodeWrites nodeMap context, buildNodeView nodeMap context w.1 = some w.2 := by
  constructor
  · rintro h ⟨key, view⟩ hw
    obtain ⟨e, he, hkey, rfl⟩ := mem_nodeWrites.mp hw
    have hname := key_eq he
    obtain ⟨node, hnode, houtput, rfl⟩ := mem_nodesWithOutput.mp he
    obtain ⟨key', hkey', hlabel, hid⟩ := h node hnode houtput
    rw [hname] at hkey'
    rcases hkey with rfl | rfl
    · rw [Option.some.inj hkey']
      exact hlabel
    · exact hid
  · intro h node hnode houtput
    have he : (⟨node.id, node.label⟩ : LabelEntry) ∈ nodesWithOutput nodeMap context :=
      mem_nodesWithOutput.mpr ⟨node, hnode, houtput, rfl⟩
    refine ⟨_, key_eq he, ?_, ?_⟩
    · exact h (_, nodeEntry context node.id) (mem_nodeWrites.mpr ⟨_, he, .inl rfl, rfl⟩)
    · exact h (node.id, nodeEntry context node.id) (mem_nodeWrites.mpr ⟨_, he, .inr rfl, rfl⟩)

/-- Two assignments agree on a shared key exactly when no key is shared by two nodes. -/
theorem agree_iff_keysApart :
    (∀ w ∈ nodeWrites nodeMap context, ∀ w' ∈ nodeWrites nodeMap context,
      w.1 = w'.1 → w.2 = w'.2) ↔ KeysApart (nodesWithOutput nodeMap context) := by
  constructor
  · intro h
    constructor
    · intro e he f hf hkey
      rw [key_eq he, key_eq hf] at hkey
      have hsame := h (_, _) (mem_nodeWrites.mpr ⟨e, he, .inl rfl, rfl⟩) (_, _)
        (mem_nodeWrites.mpr ⟨f, hf, .inl rfl, rfl⟩) (Option.some.inj hkey)
      exact congrArg NodeView.nodeId hsame
    · intro e he f hf hkey
      rw [key_eq he] at hkey
      have hsame := h (_, _) (mem_nodeWrites.mpr ⟨e, he, .inl rfl, rfl⟩) (_, _)
        (mem_nodeWrites.mpr ⟨f, hf, .inr rfl, rfl⟩) (Option.some.inj hkey)
      exact congrArg NodeView.nodeId hsame
  · rintro h ⟨key, view⟩ hw ⟨key', view'⟩ hw' hshared
    obtain ⟨e, he, hkey, rfl⟩ := mem_nodeWrites.mp hw
    obtain ⟨f, hf, hkey', rfl⟩ := mem_nodeWrites.mp hw'
    have hid : e.id = f.id := by
      change key = key' at hshared
      rcases hkey with rfl | rfl <;> rcases hkey' with rfl | rfl
      · apply h.keys e he f hf
        rw [key_eq he, key_eq hf, hshared]
      · apply h.ids e he f hf
        rw [key_eq he, hshared]
      · symm
        apply h.ids f hf e he
        rw [key_eq hf, hshared]
      · exact hshared
    exact congrArg (nodeEntry context) hid

/-- **Reading `$node` is faithful, and the keys are apart, exactly when the names are free.** -/
theorem node_view_faithful_iff (nodeMap : NodeMap) (context : ExecutionContext) :
    (ReadsOwnEntries nodeMap context ↔ NamesFree (nodesWithOutput nodeMap context)) ∧
      (KeysApart (nodesWithOutput nodeMap context) ↔ NamesFree (nodesWithOutput nodeMap context)) := by
  have hnames : KeysApart (nodesWithOutput nodeMap context) ↔
      NamesFree (nodesWithOutput nodeMap context) := keysApart_iff nodup_nodesWithOutput
  have hreads : ReadsOwnEntries nodeMap context ↔ KeysApart (nodesWithOutput nodeMap context) := by
    rw [readsOwnEntries_iff_writes, buildNodeView_eq, forall_writeAll_eq_iff, agree_iff_keysApart]
  exact ⟨hreads.trans hnames, hnames⟩

/-! ## 4. Three nodes, two of them labelled alike -/

/-- Labels `A`, `A` and `A#2`: the second `A` and the third node both get `A#2`. -/
def clashingMap : NodeMap :=
  KeyedMap.ofList [
    { id := "n1", type := "code", category := .data, label := "A" },
    { id := "n2", type := "code", category := .data, label := "A" },
    { id := "n3", type := "code", category := .data, label := "A#2" }]

def clashingContext : ExecutionContext where
  nodeOutputCache := fun id => { value := .str id }

/-- `$node["A#2"]` is the third node's entry, so the second node's is read under its id only. -/
theorem second_label_hidden :
    buildDisambiguatedKeys (nodesWithOutput clashingMap clashingContext) "n2" = some "A#2" ∧
      (buildNodeView clashingMap clashingContext "A#2").map NodeView.value =
        some (.obj [("output", .str "n3")]) ∧
      ¬ ∀ (nodeMap : NodeMap) (context : ExecutionContext), ReadsOwnEntries nodeMap context := by
  refine ⟨by decide +kernel, by decide +kernel, ?_⟩
  intro h
  have hkey : buildDisambiguatedKeys (nodesWithOutput clashingMap clashingContext) "n2" =
    some "A#2" := by decide +kernel
  have hread : (buildNodeView clashingMap clashingContext "A#2").map NodeView.nodeId = some "n3" := by
    decide +kernel
  obtain ⟨key, hkey', hown, -⟩ := h clashingMap clashingContext
    { id := "n2", type := "code", category := .data, label := "A" } (by decide +kernel)
    (by decide +kernel)
  rw [hkey] at hkey'
  rw [← Option.some.inj hkey'] at hown
  rw [hown] at hread
  exact absurd hread (by decide)

end Clemvion.Expression
