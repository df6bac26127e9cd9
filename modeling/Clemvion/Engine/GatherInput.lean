import Mathlib.Data.String.Basic
import Clemvion.Engine.HandlerOutput

/-!
# GatherInput — the input a node receives from its predecessors

`gatherNodeInput` and `stripControlFields`.  Node ids are strings here, since the input of a node
with several incoming edges is an object keyed by the ids of its predecessors.
-/

open Clemvion.Js Clemvion.Graph

namespace Clemvion.Engine

/-- The control fields that `stripControlFields` keeps from the next node. -/
def controlFields : List String :=
  ["_selectedPort", "port", "status", "_resumeState", "_resumeCheckpoint"]

def stripControlFields (output : FlatValue) : Value :=
  if output.wrapped then output.value.field "data"
  else
    match output.value with
    | .obj fields => .obj (fields.filter fun field => field.1 ∉ controlFields)
    | value => value

/-- What an incoming edge brings: nothing while its source has not executed, and nothing either,
but visibly so, when the source selected another port. -/
inductive Delivery
  | absent
  | withheld
  | handed (input : Value)
  deriving DecidableEq

def deliver (executedNodes : Finset String) (nodeOutputCache : OutputCache String)
    (edge : GraphEdge String) : Delivery :=
  if edge.sourceNodeId ∈ executedNodes then
    if isPortFiltered (nodeOutputCache edge.sourceNodeId).value edge.sourcePort then .withheld
    else .handed (stripControlFields (nodeOutputCache edge.sourceNodeId))
  else .absent

/-- One turn of the merge loop; `none` until some edge has handed an input. -/
def mergeDelivery (merged : Option (List (String × Value))) (edge : GraphEdge String) :
    Delivery → Option (List (String × Value))
  | .handed input => some (Value.setKey (merged.getD []) edge.sourceNodeId input)
  | .withheld | .absent => merged

def mergeInputs (delivery : GraphEdge String → Delivery) (incomingEdges : List (GraphEdge String)) :
    Option (List (String × Value)) :=
  incomingEdges.foldl (fun merged edge => mergeDelivery merged edge (delivery edge)) none

/-- `gatherNodeInput` over what each edge delivers. -/
def inputFrom (delivery : GraphEdge String → Delivery) (workflowInput : Value) :
    List (GraphEdge String) → Value
  | [] => workflowInput
  | [edge] =>
    match delivery edge with
    | .absent => workflowInput
    | .withheld => .undefined
    | .handed input => input
  | incomingEdges => ((mergeInputs delivery incomingEdges).map Value.obj).getD workflowInput

def gatherNodeInput (nodeId : String) (edges : List (GraphEdge String))
    (executedNodes : Finset String) (nodeOutputCache : OutputCache String)
    (workflowInput : Value) : Value :=
  inputFrom (deliver executedNodes nodeOutputCache) workflowInput
    (edges.filter fun edge => edge.targetNodeId = nodeId)

/-! ## 1. The input depends on the deliveries alone -/

theorem mergeInputs_congr {delivery delivery' : GraphEdge String → Delivery}
    {incomingEdges : List (GraphEdge String)}
    (h : ∀ edge ∈ incomingEdges, ∀ merged, mergeDelivery merged edge (delivery edge) =
      mergeDelivery merged edge (delivery' edge)) :
    mergeInputs delivery incomingEdges = mergeInputs delivery' incomingEdges := by
  apply List.foldl_ext
  intro merged edge hedge
  exact h edge hedge merged

/-- Edges that deliver the same give the same input; beside other edges, an edge that withholds
its output may as well be absent. -/
theorem inputFrom_congr {delivery delivery' : GraphEdge String → Delivery} {workflowInput : Value}
    {incomingEdges : List (GraphEdge String)}
    (h : ∀ edge ∈ incomingEdges, delivery edge = delivery' edge ∨
      1 < incomingEdges.length ∧ delivery edge = .withheld ∧ delivery' edge = .absent) :
    inputFrom delivery workflowInput incomingEdges =
      inputFrom delivery' workflowInput incomingEdges := by
  match incomingEdges with
  | [] => rfl
  | [edge] =>
    have hedge : delivery edge = delivery' edge := by simpa using h edge
    show (match delivery edge with | .absent => _ | .withheld => _ | .handed input => input) = _
    rw [hedge]
    rfl
  | e₁ :: e₂ :: rest =>
    show ((mergeInputs delivery _).map Value.obj).getD _ = _
    have hmerge : mergeInputs delivery (e₁ :: e₂ :: rest) =
        mergeInputs delivery' (e₁ :: e₂ :: rest) := by
      apply mergeInputs_congr
      intro edge hedge merged
      obtain heq | ⟨-, hwithheld, habsent⟩ := h edge hedge
      · rw [heq]
      · rw [hwithheld, habsent]
        rfl
    rw [hmerge]
    rfl

/-! ## 2. The input when one node delivers -/

/-- No edge hands anything over. -/
theorem inputFrom_absent {delivery : GraphEdge String → Delivery} {workflowInput : Value}
    {incomingEdges : List (GraphEdge String)} (h : ∀ edge ∈ incomingEdges, delivery edge = .absent) :
    inputFrom delivery workflowInput incomingEdges = workflowInput := by
  have hmerge : ∀ merged, incomingEdges.foldl
      (fun merged edge => mergeDelivery merged edge (delivery edge)) merged = merged := by
    induction incomingEdges with
    | nil => exact fun _ => rfl
    | cons edge rest ih =>
      intro merged
      rw [List.foldl_cons, h edge List.mem_cons_self]
      exact ih (fun edge hedge => h edge (List.mem_cons_of_mem _ hedge)) merged
  match incomingEdges with
  | [] => rfl
  | [edge] =>
    show (match delivery edge with | .absent => _ | .withheld => _ | .handed input => input) = _
    rw [h edge List.mem_cons_self]
  | e₁ :: e₂ :: rest =>
    show ((mergeInputs delivery (e₁ :: e₂ :: rest)).map Value.obj).getD _ = _
    rw [mergeInputs, hmerge none]
    rfl

/-- Only edges of one source hand something over, all of them the same. -/
theorem inputFrom_only {delivery : GraphEdge String → Delivery} {workflowInput input : Value}
    {sourceId : String} {incomingEdges : List (GraphEdge String)}
    (h : ∀ edge ∈ incomingEdges, edge.sourceNodeId = sourceId ∧ delivery edge = .handed input ∨
      delivery edge = .withheld ∨ delivery edge = .absent)
    (hsome : ∃ edge ∈ incomingEdges, delivery edge = .handed input) :
    inputFrom delivery workflowInput incomingEdges =
      if incomingEdges.length = 1 then input else .obj [(sourceId, input)] := by
  have hmerge : ∀ edges : List (GraphEdge String), (∀ edge ∈ edges,
      edge.sourceNodeId = sourceId ∧ delivery edge = .handed input ∨
        delivery edge = .withheld ∨ delivery edge = .absent) →
      ∀ merged, merged = none ∨ merged = some [(sourceId, input)] →
        edges.foldl (fun merged edge => mergeDelivery merged edge (delivery edge)) merged =
          if ∃ edge ∈ edges, delivery edge = .handed input then some [(sourceId, input)]
          else merged := by
    intro edges
    induction edges with
    | nil => simp
    | cons edge rest ih =>
      intro hedges merged hmerged
      have hrest := fun e he => hedges e (List.mem_cons_of_mem _ he)
      rw [List.foldl_cons]
      obtain ⟨hsource, hhanded⟩ | hnothing := hedges edge List.mem_cons_self
      · have hset : mergeDelivery merged edge (delivery edge) = some [(sourceId, input)] := by
          rw [hhanded, mergeDelivery, hsource]
          obtain rfl | rfl := hmerged
          · rfl
          · simp [Value.setKey]
        have hexists : ∃ e ∈ edge :: rest, delivery e = .handed input :=
          ⟨edge, List.mem_cons_self, hhanded⟩
        rw [hset, ih hrest _ (.inr rfl), if_pos hexists]
        split_ifs <;> rfl
      · have hkeep : mergeDelivery merged edge (delivery edge) = merged := by
          obtain hd | hd := hnothing <;> rw [hd] <;> rfl
        have hne : delivery edge ≠ .handed input := by
          obtain hd | hd := hnothing <;> rw [hd] <;> simp
        rw [hkeep, ih hrest merged hmerged]
        simp [hne]
  match incomingEdges with
  | [] => simp at hsome
  | [edge] =>
    have hedge : delivery edge = .handed input := by simpa using hsome
    show (match delivery edge with | .absent => _ | .withheld => _ | .handed input => input) = _
    rw [hedge]
    rfl
  | e₁ :: e₂ :: rest =>
    show ((mergeInputs delivery (e₁ :: e₂ :: rest)).map Value.obj).getD _ = _
    rw [mergeInputs, hmerge _ h none (.inl rfl), if_pos hsome, if_neg (by simp)]
    rfl

end Clemvion.Engine
