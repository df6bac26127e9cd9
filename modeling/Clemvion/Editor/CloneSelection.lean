import Clemvion.Editor.Canvas
import Clemvion.Library.NumberedNames
import Mathlib.Data.List.Infix
import Mathlib.Data.Finset.Card

/-!
# CloneSelection — what a paste or a duplicate puts on the canvas

Copies get new ids and labels that are not taken, lose their container, and drop the references
to integrations that the user may not pick in this workflow.
-/

open Clemvion.Js Clemvion.Library

namespace Clemvion.Editor

/-! ## 1. Labels -/

def numberedLabel (baseLabel : String) (n : Nat) : String := baseLabel ++ " " ++ toString n

/-- One of the first numbers is free, since only so many labels are taken. -/
def generateUniqueLabel (baseLabel : String) (existingLabels : List String) : String :=
  if baseLabel ∉ existingLabels then baseLabel
  else
    let candidates := (List.range (existingLabels.length + 1)).map fun i =>
      numberedLabel baseLabel (i + 2)
    (candidates.find? (· ∉ existingLabels)).getD baseLabel

theorem numberedLabel_injective (baseLabel : String) : Function.Injective (numberedLabel baseLabel) := by
  intro m n h
  have hchars := congrArg String.toList h
  have hdigits : Nat.toDigits 10 m = Nat.toDigits 10 n := by simpa [numberedLabel] using hchars
  exact toDigits_injective hdigits

/-- The search for a free number ends. -/
theorem generateUniqueLabel_notMem (baseLabel : String) (existingLabels : List String) :
    generateUniqueLabel baseLabel existingLabels ∉ existingLabels := by
  unfold generateUniqueLabel
  split_ifs with hbase
  · dsimp only
    cases hfind : ((List.range (existingLabels.length + 1)).map fun i =>
        numberedLabel baseLabel (i + 2)).find? (· ∉ existingLabels) with
    | some label => simpa using List.find?_some hfind
    | none =>
      -- one of them is free all the same
      obtain ⟨n, hle, hbound, hfree⟩ :=
        exists_free (fun m n (_ : 2 ≤ m) (_ : 2 ≤ n) h => numberedLabel_injective baseLabel h) existingLabels
      have htaken := List.find?_eq_none.mp hfind (numberedLabel baseLabel n)
        (List.mem_map.mpr ⟨n - 2, List.mem_range.mpr (by omega), by rw [Nat.sub_add_cancel hle]⟩)
      exact absurd htaken (by simpa using hfree)
  · exact hbase

/-! ## 2. Copies -/

variable (add : Number → Number → Number)

/-- `idRemap.get(id)`: the new id of the last copied node with this id. -/
def remapId (newId : Nat → String) (sourceNodes : List EditorNode) (id : String) : Option String :=
  (sourceNodes.zipIdx.reverse.find? fun n => n.1.id = id).map fun n => newId n.2

/-- The label of a node, where it is a string. -/
def stringLabel (node : EditorNode) : Option String :=
  match node.label with
  | .str label => some label
  | _ => none

/-- Every copy takes its label out of the pool. -/
def cloneNodes (newId : EditorNode → String) (offset : Position) :
    List String → List EditorNode → List EditorNode
  | _, [] => []
  | labelPool, n :: rest =>
    let label := generateUniqueLabel ((stringLabel n).getD "") labelPool
    { n with
      id := newId n
      position := ⟨add n.position.x offset.x, add n.position.y offset.y⟩
      selected := true
      label := .str label
      containerId := none } :: cloneNodes newId offset (labelPool ++ [label]) rest

def cloneEdges (newId : Nat → String) (remap : String → Option String) (sourceEdges : List EditorEdge) :
    List EditorEdge :=
  let inner := sourceEdges.filterMap fun e =>
    match remap e.source, remap e.target with
    | some source, some target => some { e with source, target }
    | _, _ => none
  inner.zipIdx.map fun e => { e.1 with id := newId e.2 }

/-- `newId i` is the `i`-th id that is drawn. -/
def cloneNodesWithOffset (newId : Nat → String) (sourceNodes : List EditorNode)
    (sourceEdges : List EditorEdge) (existingLabels : List String) (offset : Position) :
    List EditorNode × List EditorEdge :=
  let remap := remapId newId sourceNodes
  (cloneNodes add (fun n => (remap n.id).getD "") offset existingLabels sourceNodes,
    cloneEdges (fun i => newId (sourceNodes.length + i)) remap sourceEdges)

/-! ## 3. References to integrations -/

def INTEGRATION_ID_REF_NODE_TYPES : List String :=
  ["send_email", "database_query", "http_request", "cafe24", "makeshop"]

def MCP_SERVER_REF_NODE_TYPES : List String := ["ai_agent"]

inductive IntegrationScope
  | personal | organization
  deriving DecidableEq

structure VisibleIntegration where
  scope : IntegrationScope
  createdBy : String

def canUseIntegrationInWorkflow (integration : VisibleIntegration)
    (currentUserId workflowAuthorId : String) : Bool :=
  integration.scope = .organization ||
    integration.createdBy = currentUserId && currentUserId = workflowAuthorId

structure IntegrationRefFilterContext where
  currentUserId : Option String
  workflowAuthorId : Option String
  integrations : Option (String → Option VisibleIntegration)

def shouldClear (integrations : String → Option VisibleIntegration)
    (currentUserId workflowAuthorId : String) : Value → Bool
  | .undefined | .null => false
  | .str value =>
    if value = "" || decide ("\x7b\x7b".toList <:+: value.toList) then false
    else !(integrations value).any fun integration =>
      canUseIntegrationInWorkflow integration currentUserId workflowAuthorId
  | _ => true

/-- The config, and whether something was cleared. -/
def clearUnusableIntegrationRefs (type : String) (config : Value)
    (ctx : IntegrationRefFilterContext) : Value × Bool :=
  match ctx.integrations, ctx.currentUserId, ctx.workflowAuthorId, config with
  | some integrations, some currentUserId, some workflowAuthorId, .obj fields =>
    let clear := shouldClear integrations currentUserId workflowAuthorId
    let usesIntegrationId := type ∈ INTEGRATION_ID_REF_NODE_TYPES &&
      (type ≠ "http_request" || config.field "authentication" = .str "integration")
    let clearsId := usesIntegrationId && clear (config.field "integrationId")
    let next := if clearsId then fields.filter (·.1 ≠ "integrationId") else fields
    match config.field "mcpServers" with
    | .arr servers =>
      let kept := servers.filter fun item =>
        match item with
        | .obj _ => !clear (item.field "integrationId")
        | _ => true
      if type ∈ MCP_SERVER_REF_NODE_TYPES && kept.length ≠ servers.length then
        (.obj (Value.setKey next "mcpServers" (.arr kept)), true)
      else (.obj next, clearsId)
    | _ => (.obj next, clearsId)
  | _, _, _, _ => (config, false)

/-- The nodes, and the labels of those that lost a reference. -/
def clearUnusableIntegrationRefsInNodes (nodes : List EditorNode)
    (ctx : IntegrationRefFilterContext) : List EditorNode × List String :=
  let cleared := fun n : EditorNode => clearUnusableIntegrationRefs n.type n.config ctx
  (nodes.map fun n => if (cleared n).2 then { n with config := (cleared n).1 } else n,
    (nodes.filter fun n => (cleared n).2).map fun n => (stringLabel n).getD n.type)

end Clemvion.Editor
