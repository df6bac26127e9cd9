import Clemvion.Assistant.ShadowConsistency

/-!
# ShadowAtomicity — what a rejected edit leaves behind

Every check of an edit comes before its write, except one: `add_node` and `update_node` resolve the
ports of the node that they have just stored, and the resolver reads a config that nobody checked.
-/

open Clemvion.Js Clemvion.Library

namespace Clemvion.Assistant

namespace ShadowWorkflow

variable {deps : ShadowDeps} {w : ShadowWorkflow} {args : Value} {uuid : String}

/-! ## 1. The ports of a stored node -/

/-- The resolver throws on a node. -/
def PortsThrow (deps : ShadowDeps) (node : ShadowNode) : Prop :=
  ∃ resolver thrown, deps.portResolver = some resolver ∧ resolver node = .error thrown

/-- A success result stays one unless the resolver throws. -/
theorem failed_withRuntimePorts_iff {id : String} {node : ShadowNode} {result : ShadowResult}
    (hget : w.nodes.get? id = some node) (hok : result.ok = true) :
    Outcome.Failed (w, w.withRuntimePorts deps id result) ↔ PortsThrow deps node := by
  unfold withRuntimePorts Outcome.Failed PortsThrow
  rw [hget]
  cases hresolver : deps.portResolver with
  | none => simp [hok, pure, Except.pure]
  | some resolver =>
    cases hresolved : resolver node with
    | error thrown => simp [hresolved, bind, Except.bind]
    | ok resolved =>
      cases resolved with
      | none => simp [hresolved, hok, bind, Except.bind, pure, Except.pure]
      | some ports => simp [hresolved, hok, bind, Except.bind, pure, Except.pure]

/-- Storing a node changes the snapshot unless the node is there already. -/
theorem snapshot_storeNode_iff (w : ShadowWorkflow) (node : ShadowNode) :
    (w.storeNode node).snapshot = w.snapshot ↔ w.nodes.get? node.id = some node := by
  unfold snapshot storeNode
  rw [ShadowSnapshot.mk.injEq, KeyedMap.values_set_eq_iff]
  exact and_iff_left rfl

/-- **A call that stores a node and resolves its ports** is atomic exactly when the resolver does
not throw on the node, or the node was there already. -/
theorem keeps_of_stored_iff {node : ShadowNode} {result : ShadowResult} (hok : result.ok = true) :
    (Outcome.Failed (w.storeNode node, (w.storeNode node).withRuntimePorts deps node.id result) →
        (w.storeNode node).snapshot = w.snapshot) ↔
      ¬ (PortsThrow deps node ∧ w.nodes.get? node.id ≠ some node) := by
  have hget : (w.storeNode node).nodes.get? node.id = some node := KeyedMap.get?_set_self
  rw [failed_withRuntimePorts_iff hget hok, snapshot_storeNode_iff, not_and, not_not]

/-! ## 2. `update_node` -/

/-- Every check of `update_node` passes. -/
structure AcceptsPatch (deps : ShadowDeps) (w : ShadowWorkflow) (patch : Value)
    (node : ShadowNode) : Prop where
  free : ∀ label, patchedLabel patch node = some label → w.findByLabel label = none
  expressions : (patch.field "config").truthy = true →
    deps.validateConfigExpressions (patch.field "config") = []
  placed : ∃ position, patchedPosition deps patch node = .ok position
  validated : ∀ config, patchedConfig deps patch node = some config →
    ∃ warnings, configWarnings deps node.type config = .ok warnings

def patchedNode (deps : ShadowDeps) (patch : Value) (node : ShadowNode) : ShadowNode :=
  { node with
    label := (patchedLabel patch node).getD node.label
    positionX := ((patchedPosition deps patch node).toOption.map (·.1)).getD node.positionX
    positionY := ((patchedPosition deps patch node).toOption.map (·.2)).getD node.positionY
    config := (patchedConfig deps patch node).getD node.config }

/-- `update_node` fails and leaves the workflow alone, or every check of the patch passed. -/
theorem updateNode_cases (deps : ShadowDeps) (w : ShadowWorkflow) (args : Value) (uuid : String) :
    (∀ node, w.nodes.get? (stringArg args "id") = some node →
        ¬ AcceptsPatch deps w (args.field "patch") node) ∧
      Outcome.Failed (w.updateNode deps args uuid) ∧ (w.updateNode deps args uuid).1 = w ∨
    ∃ node warnings, w.nodes.get? (stringArg args "id") = some node ∧
      AcceptsPatch deps w (args.field "patch") node ∧
      w.updateNode deps args uuid =
        (w.storeNode (patchedNode deps (args.field "patch") node),
          (w.storeNode (patchedNode deps (args.field "patch") node)).withRuntimePorts deps
            (stringArg args "id")
            { ok := true, id := some (stringArg args "id"), configWarnings := warnings }) := by
  unfold updateNode
  simp only
  cases hget : w.nodes.get? (stringArg args "id") with
  | none => exact .inl ⟨by simp, rfl, rfl⟩
  | some node =>
    simp only
    by_cases hlabel :
        (patchedLabel (args.field "patch") node).any fun label => (w.findByLabel label).isSome
    · rw [if_pos hlabel]
      refine .inl ⟨?_, rfl, rfl⟩
      intro node' hnode' h
      obtain rfl := Option.some.inj hnode'
      obtain ⟨label, hpatched, hsome⟩ := (Option.any_eq_true _ _).mp hlabel
      rw [h.free label hpatched] at hsome
      cases hsome
    rw [if_neg hlabel]
    by_cases hexpr : (((args.field "patch").field "config").truthy && decide
        (deps.validateConfigExpressions ((args.field "patch").field "config") ≠ [])) = true
    · rw [if_pos hexpr]
      refine .inl ⟨?_, rfl, rfl⟩
      intro node' hnode' h
      obtain rfl := Option.some.inj hnode'
      simp only [Bool.and_eq_true, decide_eq_true_eq] at hexpr
      exact hexpr.2 (h.expressions hexpr.1)
    rw [if_neg hexpr]
    cases hposition : patchedPosition deps (args.field "patch") node with
    | error thrown =>
      refine .inl ⟨?_, trivial, rfl⟩
      intro node' hnode' h
      obtain rfl := Option.some.inj hnode'
      obtain ⟨position, hok⟩ := h.placed
      rw [hposition] at hok
      cases hok
    | ok position =>
      have hnext : patchedNode deps (args.field "patch") node = { node with
          label := (patchedLabel (args.field "patch") node).getD node.label
          positionX := position.1, positionY := position.2
          config := (patchedConfig deps (args.field "patch") node).getD node.config } := by
        unfold patchedNode
        rw [hposition]
        rfl
      have haccepts (hvalidated : ∀ config,
          patchedConfig deps (args.field "patch") node = some config →
            ∃ warnings, configWarnings deps node.type config = .ok warnings) :
          AcceptsPatch deps w (args.field "patch") node := by
        refine ⟨?_, ?_, ⟨position, hposition⟩, hvalidated⟩
        · intro label hpatched
          rw [hpatched] at hlabel
          simpa using hlabel
        · intro htruthy
          simpa [htruthy] using hexpr
      cases hconfig : patchedConfig deps (args.field "patch") node with
      | none =>
        rw [hconfig] at hnext
        refine .inr ⟨node, none, rfl, haccepts (by simp [hconfig]), ?_⟩
        rw [hnext]
        rfl
      | some config =>
        rw [hconfig] at hnext
        simp only [Option.isSome_some, if_true, Option.getD_some]
        cases hwarn : configWarnings deps node.type config with
        | error thrown =>
          refine .inl ⟨?_, trivial, rfl⟩
          intro node' hnode' h
          obtain rfl := Option.some.inj hnode'
          obtain ⟨warnings, hok⟩ := h.validated config hconfig
          rw [hwarn] at hok
          cases hok
        | ok warnings =>
          refine .inr ⟨node, warnings, rfl, haccepts ?_, ?_⟩
          · intro config' hconfig'
            obtain rfl := Option.some.inj (hconfig.symm.trans hconfig')
            exact ⟨warnings, hwarn⟩
          · rw [hnext]
            rfl

/-! ## 3. The other operations -/

/-- An outcome that is a failure only with the workflow as it was. -/
def Atomic (w : ShadowWorkflow) (outcome : Outcome) : Prop :=
  Outcome.Failed outcome → outcome.1 = w

theorem atomic_same (w : ShadowWorkflow) (result : Except String ShadowResult) :
    Atomic w (w, result) := fun _ => rfl

theorem atomic_ok (w w' : ShadowWorkflow) {result : ShadowResult} (hok : result.ok = true) :
    Atomic w (w', .ok result) :=
  fun hfailed => absurd (hok.symm.trans hfailed) Bool.true_eq_false.mp

theorem removeNode_atomic (w : ShadowWorkflow) (args : Value) : Atomic w (w.removeNode args) := by
  unfold removeNode
  simp only
  split
  · exact atomic_same w _
  · split
    · exact atomic_same w _
    · exact atomic_ok w _ rfl

theorem addEdge_atomic (deps : ShadowDeps) (w : ShadowWorkflow) (args : Value) (uuid : String) :
    Atomic w (w.addEdge deps args uuid) := by
  unfold addEdge
  simp only
  split
  · exact atomic_same w _
  split
  · exact atomic_same w _
  split
  · exact atomic_same w _
  split
  · exact atomic_same w _
  · exact atomic_same w _
  · split
    · exact atomic_same w _
    · exact atomic_ok w _ rfl

theorem removeEdge_atomic (w : ShadowWorkflow) (args : Value) : Atomic w (w.removeEdge args) := by
  unfold removeEdge
  simp only
  split
  · exact atomic_ok w _ rfl
  · split
    · exact atomic_ok w _ rfl
    · exact atomic_same w _

/-! ## 4. Every call -/

/-- The call passes every check and would store a node that the resolver throws on. -/
def ThrowsAfterStore (deps : ShadowDeps) (w : ShadowWorkflow) (call : ShadowToolCall)
    (uuid : String) : Prop :=
  match call.name with
  | .addNode =>
    AcceptsNewNode deps w call.arguments ∧ PortsThrow deps (newNode deps call.arguments uuid) ∧
      w.nodes.get? uuid ≠ some (newNode deps call.arguments uuid)
  | .updateNode =>
    ∃ node, w.nodes.get? (stringArg call.arguments "id") = some node ∧
      AcceptsPatch deps w (call.arguments.field "patch") node ∧
      PortsThrow deps (patchedNode deps (call.arguments.field "patch") node) ∧
      patchedNode deps (call.arguments.field "patch") node ≠ node
  | _ => False

/-- **A failed call leaves the snapshot as it was** exactly when the resolver does not throw on a
node that the call has just stored. -/
theorem failed_apply_keeps_snapshot_iff (deps : ShadowDeps) (w : ShadowWorkflow)
    (call : ShadowToolCall) (uuid : String) :
    (Outcome.Failed (w.apply deps call uuid) →
        (w.apply deps call uuid).1.snapshot = w.snapshot) ↔
      ¬ ThrowsAfterStore deps w call uuid := by
  obtain ⟨name, args⟩ := call
  have hatomic {outcome : Outcome} (h : Atomic w outcome) :
      (Outcome.Failed outcome → outcome.1.snapshot = w.snapshot) ↔ ¬ False :=
    iff_of_true (fun hfailed => congrArg snapshot (h hfailed)) not_false
  cases name with
  | addNode =>
    show (Outcome.Failed (w.addNode deps args uuid) → (w.addNode deps args uuid).1.snapshot = _) ↔ _
    obtain ⟨hnot, -, hnodes, hedges⟩ | ⟨haccepts, warnings, hadd⟩ := addNode_cases deps w args uuid
    · have hkept : (w.addNode deps args uuid).1.snapshot = w.snapshot := by
        unfold snapshot
        rw [hnodes, hedges]
      exact iff_of_true (fun _ => hkept) fun h => hnot h.1
    · rw [hadd]
      refine (@keeps_of_stored_iff deps w (newNode deps args uuid) _ rfl).trans ?_
      exact not_congr (and_iff_right haccepts).symm
  | updateNode =>
    show (Outcome.Failed (w.updateNode deps args uuid) →
      (w.updateNode deps args uuid).1.snapshot = _) ↔ _
    obtain ⟨hnot, -, hkept⟩ | ⟨node, warnings, hget, haccepts, hupdate⟩ :=
      updateNode_cases deps w args uuid
    · refine iff_of_true (fun _ => congrArg snapshot hkept) ?_
      rintro ⟨node, hget, haccepts, -⟩
      exact hnot node hget haccepts
    · have hid : (patchedNode deps (args.field "patch") node).id = stringArg args "id" :=
        (KeyedMap.get?_eq_some_iff.mp hget).2
      rw [hupdate, ← hid]
      refine (keeps_of_stored_iff rfl).trans (not_congr ?_)
      rw [hid, hget]
      constructor
      · rintro ⟨hthrow, hne⟩
        exact ⟨node, hget, haccepts, hthrow, fun h => hne (congrArg some h.symm)⟩
      · rintro ⟨node', hget', -, hthrow, hne⟩
        obtain rfl := Option.some.inj (hget.symm.trans hget')
        exact ⟨hthrow, fun h => hne (Option.some.inj h).symm⟩
  | removeNode => exact hatomic (removeNode_atomic w args)
  | addEdge => exact hatomic (addEdge_atomic deps w args uuid)
  | removeEdge => exact hatomic (removeEdge_atomic w args)
  | other name => exact hatomic (atomic_same w _)

/-! ## 5. A switch whose cases are no array -/

/-- `switchPorts` on cases without ids of their own: `(cases ?? []).map`, whatever `cases` is. -/
def switchPorts (config : Value) : Except String (List ShadowRuntimePort) :=
  let defaultPort : ShadowRuntimePort := { id := "default", type := .data }
  match config.field "cases" with
  | .undefined | .null => .ok [defaultPort]
  | .arr cases =>
    .ok ((List.range cases.length).map (fun i => { id := s!"case_{i}", type := .data }) ++
      [defaultPort])
  | _ => .error "cases.map is not a function"

/-- The collaborators of an assistant that knows the switch. -/
def switchDeps : ShadowDeps :=
  { plainDeps with
    knownNodeTypes := ["switch"]
    portResolver := some fun node => do
      return some { outputs := ← switchPorts node.config, inputs := [{ id := "in", type := .data }] }
    configValidator := some fun _ _ => .ok ["cases must be a non-empty array"] }

def addSwitchCall : ShadowToolCall where
  name := .addNode
  arguments := .obj [("type", .str "switch"), ("label", .str "Route"),
    ("config", .obj [("cases", .str "a, b")])]

/-- A call that throws and leaves its node behind. -/
theorem not_failed_apply_keeps_snapshot :
    Outcome.Failed ((ofSnapshot ⟨[], []⟩).apply switchDeps addSwitchCall "9b2e") ∧
      ((ofSnapshot ⟨[], []⟩).apply switchDeps addSwitchCall "9b2e").1.snapshot.nodes.map (·.id) =
        ["9b2e"] ∧
      (ofSnapshot ⟨[], []⟩).snapshot.nodes = [] :=
  ⟨trivial, rfl, rfl⟩

end ShadowWorkflow

end Clemvion.Assistant
