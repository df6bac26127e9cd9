import Clemvion.Editor.ContainerAssignment
import Clemvion.Library.Spread

/-!
# ContainerMembership — what the wires say

A body or an emit wire claims its regular end for the container, and a wire between two regular
nodes passes a container on.  Sixteen passes over the edges compute this membership as long as no
node is more than fifteen wires away from a claim; beyond that the order of the edges decides.
-/

open Clemvion.Js Clemvion.Library Clemvion.Library.SpreadRule

namespace Clemvion.Editor

variable (defs : String → Option NodeDefinition)

/-! ## 1. A wire as a rule -/

def emitClaims (sourceNode targetNode : EditorNode) (connection : Connection) : List (String × String) :=
  if isEmitWire defs targetNode connection && !isTrigger sourceNode then
    [(sourceNode.id, targetNode.id)]
  else []

def bodyClaims (sourceNode targetNode : EditorNode) (connection : Connection) : List (String × String) :=
  if isBodyWire defs sourceNode connection && !isTrigger targetNode then
    [(targetNode.id, sourceNode.id)]
  else []

/-- A trigger is in no container and passes none on. -/
def wireRule (nodes : List EditorNode) (connection : Connection) : SpreadRule String String :=
  match wireNode nodes connection.source, wireNode nodes connection.target with
  | some sourceNode, some targetNode =>
    if isContainerNode defs sourceNode || isContainerNode defs targetNode then
      .claim (emitClaims defs sourceNode targetNode connection ++
        bodyClaims defs sourceNode targetNode connection)
    else if isTrigger sourceNode || isTrigger targetNode then .claim []
    else .link sourceNode.id targetNode.id
  | _, _ => .claim []

def wireRules (nodes : List EditorNode) (edges : List EditorEdge) : List (SpreadRule String String) :=
  edges.map fun e => wireRule defs nodes e.connection

variable {defs} {nodes : List EditorNode} {edges : List EditorEdge} {connection : Connection}
  {map : Assignment} {s t n : EditorNode} {id : String}

theorem lastNode_id (h : lastNode nodes id = some n) : n ∈ nodes ∧ n.id = id := by
  refine ⟨List.mem_reverse.mp (List.mem_of_find?_eq_some h), ?_⟩
  simpa using List.find?_some h

theorem wireNode_eq_some (h : wireNode nodes id = some n) :
    n.id = id ∧ id ≠ "" ∧ n ∈ nodes ∧ lastNode nodes id = some n := by
  unfold wireNode at h
  split_ifs at h with hempty
  obtain ⟨hmem, hid⟩ := lastNode_id h
  exact ⟨hid, hempty, hmem, h⟩

/-- No trigger is assigned, and nothing is assigned the empty id. -/
def Plain (nodes : List EditorNode) (map : Assignment) : Prop :=
  ∀ x c, map x = some c → c ≠ "" ∧ ∀ n, lastNode nodes x = some n → isTrigger n = false

theorem update_ite (map : Assignment) (x : String) (v : Option String) :
    (if v ≠ map x then Function.update map x v else map) = Function.update map x v := by
  split_ifs with h
  · rfl
  · rw [not_not.mp h, Function.update_eq_self]

/-- What the three rules give where one end is a container. -/
theorem nextContainers_of_container {source target : Option String}
    (h : (isContainerNode defs s || isContainerNode defs t) = true) :
    nextContainers defs s t connection source target =
      (if isEmitWire defs t connection then some t.id else source,
        if isBodyWire defs s connection then some s.id else target) := by
  unfold nextContainers
  dsimp only
  rw [← Bool.not_or, h, Bool.not_true, Bool.false_and, if_neg Bool.false_ne_true]

theorem nextContainers_of_regular {source target : Option String}
    (h : (isContainerNode defs s || isContainerNode defs t) = false) :
    nextContainers defs s t connection source target =
      if source ≠ target then
        if isSet source && !isSet target then (source, source)
        else if !isSet source && isSet target then (target, target)
        else (source, target)
      else (source, target) := by
  obtain ⟨hs, ht⟩ := Bool.or_eq_false_iff.mp h
  unfold nextContainers isBodyWire isEmitWire
  simp only [hs, ht, Bool.false_and, Bool.not_false, Bool.true_and, decide_eq_true_eq]
  rfl

/-- The pass over one wire, between nodes that are there. -/
theorem propagate_of_nodes (hs : wireNode nodes connection.source = some s)
    (ht : wireNode nodes connection.target = some t) {next : Option String × Option String}
    (hnext : nextContainers defs s t connection (map s.id) (map t.id) = next) :
    (propagateContainerInMap defs nodes map connection).2 =
      let nextSource := if isTrigger s then map s.id else next.1
      let nextTarget := if isTrigger t then map t.id else next.2
      if nextTarget ≠ map t.id then
        Function.update (Function.update map s.id nextSource) t.id nextTarget
      else Function.update map s.id nextSource := by
  unfold propagateContainerInMap
  simp only [hs, ht, hnext]
  rw [update_ite map s.id]

/-- A wire with a container end: the claims, in the order of the two updates. -/
theorem propagate_of_container (hs : wireNode nodes connection.source = some s)
    (ht : wireNode nodes connection.target = some t)
    (hcontainer : (isContainerNode defs s || isContainerNode defs t) = true) :
    (propagateContainerInMap defs nodes map connection).2 =
      (claim (emitClaims defs s t connection ++ bodyClaims defs s t connection)).apply map := by
  rw [propagate_of_nodes hs ht (nextContainers_of_container hcontainer)]
  dsimp only
  have hemit : Function.update map s.id (if isTrigger s then map s.id
      else if isEmitWire defs t connection then some t.id else map s.id) =
        (emitClaims defs s t connection).foldl label map := by
    cases htrigger : isTrigger s <;> cases hwire : isEmitWire defs t connection <;>
      simp [emitClaims, htrigger, hwire, label]
  show _ = (emitClaims defs s t connection ++ bodyClaims defs s t connection).foldl label map
  rw [List.foldl_append, ← hemit]
  generalize hsource : (if isTrigger s then map s.id
    else if isEmitWire defs t connection then some t.id else map s.id) = nextSource
  cases htrigger : isTrigger t with
  | true => simp [bodyClaims, htrigger]
  | false =>
    cases hwire : isBodyWire defs s connection with
    | false => simp [bodyClaims, hwire]
    | true =>
      simp only [bodyClaims, htrigger, hwire, Bool.not_false, Bool.and_self, if_true, List.foldl_cons,
        List.foldl_nil, label, Bool.false_eq_true, if_false]
      split_ifs with hsame
      · rfl
      · -- the target has this container already, and the other update leaves it
        have hsame := not_not.mp hsame
        have hkept : Function.update map s.id nextSource t.id = some s.id := by
          by_cases hid : t.id = s.id
          · rw [hid] at hsame ⊢
            rw [Function.update_self, ← hsource]
            split_ifs
            · exact hsame.symm
            · rw [hid]
            · exact hsame.symm
          · rw [Function.update_of_ne hid, ← hsame]
        rw [← hkept, Function.update_eq_self]

/-- A wire between regular nodes: a link, idle where one end is a trigger. -/
theorem propagate_of_regular (hplain : Plain nodes map)
    (hs : wireNode nodes connection.source = some s) (ht : wireNode nodes connection.target = some t)
    (hregular : (isContainerNode defs s || isContainerNode defs t) = false) :
    (propagateContainerInMap defs nodes map connection).2 =
      (if isTrigger s || isTrigger t then claim [] else link s.id t.id).apply map := by
  have hassigned : ∀ {n : EditorNode} {id c : String}, wireNode nodes id = some n →
      map n.id = some c → c ≠ "" ∧ isTrigger n = false := by
    intro n id c hn hc
    obtain ⟨hid, -, -, hlast⟩ := wireNode_eq_some hn
    obtain ⟨hne, htrigger⟩ := hplain _ c hc
    exact ⟨hne, htrigger n (by rw [hid]; exact hlast)⟩
  have hnone : (claim ([] : List (String × String))).apply map = map := rfl
  rw [propagate_of_nodes hs ht (nextContainers_of_regular hregular)]
  cases hsource : map s.id with
  | none =>
    have hidle : Function.update map s.id none = map := by rw [← hsource, Function.update_eq_self]
    cases htarget : map t.id with
    | none =>
      have hlink : (link s.id t.id).apply map = map := link_idle (by rw [hsource, htarget])
      cases isTrigger s <;> cases isTrigger t <;> simp [hidle, hlink, hnone]
    | some c =>
      obtain ⟨hne, htrigger⟩ := hassigned ht htarget
      have hback : (link s.id t.id).apply map = label map (s.id, c) := link_backward hsource htarget
      cases isTrigger s <;> simp [htrigger, hne, hidle, hback, hnone, isSet, label]
  | some c =>
    obtain ⟨hne, hstrigger⟩ := hassigned hs hsource
    have hkept : Function.update map s.id (some c) = map := by rw [← hsource, Function.update_eq_self]
    cases htarget : map t.id with
    | none =>
      have hforth : (link s.id t.id).apply map = label map (t.id, c) := link_forward hsource htarget
      cases isTrigger t <;> simp [hstrigger, hne, hkept, hforth, hnone, isSet, label]
    | some c' =>
      obtain ⟨hne', htrigger⟩ := hassigned ht htarget
      have hidle : (link s.id t.id).apply map = map := link_idle (by simp [hsource, htarget])
      by_cases heq : c = c'
      · subst heq
        simp [hstrigger, htrigger, hkept, hidle]
      · simp [hstrigger, htrigger, hne, hne', hkept, hidle, heq, isSet]

variable (defs) in
/-- **One wire.** A pass over a wire applies its rule. -/
theorem propagate_eq_apply (hplain : Plain nodes map) (connection : Connection) :
    (propagateContainerInMap defs nodes map connection).2 =
      (wireRule defs nodes connection).apply map := by
  cases hs : wireNode nodes connection.source with
  | none =>
    simp only [propagateContainerInMap, wireRule, hs]
    rfl
  | some s =>
    cases ht : wireNode nodes connection.target with
    | none =>
      simp only [propagateContainerInMap, wireRule, hs, ht]
      rfl
    | some t =>
      simp only [wireRule, hs, ht]
      split_ifs with hcontainer htrigger
      · exact propagate_of_container hs ht hcontainer
      · have h := propagate_of_regular hplain hs ht (Bool.eq_false_of_not_eq_true hcontainer)
        rwa [if_pos htrigger] at h
      · have h := propagate_of_regular hplain hs ht (Bool.eq_false_of_not_eq_true hcontainer)
        rwa [if_neg htrigger] at h

/-! ## 2. Passes are rounds -/

theorem wireRule_claim {claims : List (String × String)} {x c : String}
    (h : wireRule defs nodes connection = .claim claims) (hx : (x, c) ∈ claims) :
    c ≠ "" ∧ ∃ n ∈ nodes, n.id = x ∧ lastNode nodes x = some n ∧ isTrigger n = false := by
  cases hs : wireNode nodes connection.source with
  | none =>
    simp only [wireRule, hs] at h
    cases h
    cases hx
  | some s =>
    cases ht : wireNode nodes connection.target with
    | none =>
      simp only [wireRule, hs, ht] at h
      cases h
      cases hx
    | some t =>
      obtain ⟨hsid, hsne, hsmem, hslast⟩ := wireNode_eq_some hs
      obtain ⟨htid, htne, htmem, htlast⟩ := wireNode_eq_some ht
      simp only [wireRule, hs, ht] at h
      split_ifs at h
      · cases h
        obtain hx | hx := List.mem_append.mp hx
        · unfold emitClaims at hx
          split_ifs at hx with hwire
          · cases List.mem_singleton.mp hx
            rw [hsid, htid]
            exact ⟨htne, s, hsmem, hsid, hslast, by simpa using (Bool.and_eq_true_iff.mp hwire).2⟩
          · cases hx
        · unfold bodyClaims at hx
          split_ifs at hx with hwire
          · cases List.mem_singleton.mp hx
            rw [hsid, htid]
            exact ⟨hsne, t, htmem, htid, htlast, by simpa using (Bool.and_eq_true_iff.mp hwire).2⟩
          · cases hx
      · cases h
        cases hx

/-- Both ends of a link are regular nodes. -/
theorem wireRule_link {x y : String} (h : wireRule defs nodes connection = .link x y) :
    ∃ s t, wireNode nodes connection.source = some s ∧ wireNode nodes connection.target = some t ∧
      s.id = x ∧ t.id = y ∧ isContainerNode defs s = false ∧ isContainerNode defs t = false ∧
      isTrigger s = false ∧ isTrigger t = false := by
  cases hs : wireNode nodes connection.source with
  | none =>
    simp only [wireRule, hs] at h
    cases h
  | some s =>
    cases ht : wireNode nodes connection.target with
    | none =>
      simp only [wireRule, hs, ht] at h
      cases h
    | some t =>
      simp only [wireRule, hs, ht] at h
      split_ifs at h with hcontainer htrigger
      cases h
      obtain ⟨hsc, htc⟩ := Bool.or_eq_false_iff.mp (Bool.eq_false_of_not_eq_true hcontainer)
      obtain ⟨hst, htt⟩ := Bool.or_eq_false_iff.mp (Bool.eq_false_of_not_eq_true htrigger)
      exact ⟨s, t, rfl, rfl, rfl, rfl, hsc, htc, hst, htt⟩

theorem Plain.apply (h : Plain nodes map) (connection : Connection) :
    Plain nodes ((wireRule defs nodes connection).apply map) := by
  intro x c hx
  obtain hkept | ⟨claims, c', hrule, hclaim, hset⟩ | ⟨y, c', hrule, -, hy, hset⟩ :=
    apply_cases (wireRule defs nodes connection) map x
  · rw [hkept] at hx
    exact h x c hx
  · rw [hset] at hx
    cases hx
    obtain ⟨hne, n, -, -, hlast, htrigger⟩ := wireRule_claim hrule hclaim
    refine ⟨hne, fun n' hn' => ?_⟩
    cases hlast.symm.trans hn'
    exact htrigger
  · rw [hset] at hx
    cases hx
    refine ⟨(h y c hy).1, fun n hn => ?_⟩
    have hend : ∀ {z : String} {m : EditorNode}, wireNode nodes z = some m → m.id = x →
        isTrigger m = false → isTrigger n = false := by
      intro z m hm hid htrigger
      obtain ⟨hz, -, -, hlast⟩ := wireNode_eq_some hm
      rw [← hz, hid] at hlast
      cases hlast.symm.trans hn
      exact htrigger
    obtain hrule | hrule := hrule
    · obtain ⟨s, t, hs, -, hid, -, -, -, htrigger, -⟩ := wireRule_link hrule
      exact hend hs hid htrigger
    · obtain ⟨s, t, -, ht, -, hid, -, -, -, htrigger⟩ := wireRule_link hrule
      exact hend ht hid htrigger

theorem propagate_unchanged (h : (propagateContainerInMap defs nodes map connection).1 = false) :
    (propagateContainerInMap defs nodes map connection).2 = map := by
  unfold propagateContainerInMap at h ⊢
  cases hs : wireNode nodes connection.source with
  | none => rfl
  | some s =>
    cases ht : wireNode nodes connection.target with
    | none => rfl
    | some t =>
      simp only [hs, ht, Bool.or_eq_false_iff, decide_eq_false_iff_not, not_not] at h ⊢
      simp only [h.1, h.2, ne_eq, not_true_eq_false, if_false]

variable (defs) in
/-- A pass is a round, and one that reports no change has changed nothing. -/
theorem propagatePass_eq (hplain : Plain nodes map) (edges : List EditorEdge) :
    (propagatePass defs nodes edges map).2 = round (wireRules defs nodes edges) map ∧
      ((propagatePass defs nodes edges map).1 = false → (propagatePass defs nodes edges map).2 = map) := by
  have hfold : ∀ (edges : List EditorEdge) (changed : Bool) (map : Assignment), Plain nodes map →
      let pass := edges.foldl (fun pass e =>
        let step := propagateContainerInMap defs nodes pass.2 e.connection
        (pass.1 || step.1, step.2)) (changed, map)
      pass.2 = round (wireRules defs nodes edges) map ∧
        (pass.1 = false → changed = false ∧ pass.2 = map) := by
    intro edges
    induction edges with
    | nil => exact fun changed map _ => ⟨rfl, fun h => ⟨h, rfl⟩⟩
    | cons e edges ih =>
      intro changed map hplain
      have hstep := propagate_eq_apply defs hplain e.connection
      obtain ⟨hround, hidle⟩ := ih (changed || (propagateContainerInMap defs nodes map e.connection).1)
        (propagateContainerInMap defs nodes map e.connection).2 (by rw [hstep]; exact hplain.apply _)
      refine ⟨hround.trans ?_, fun hfalse => ?_⟩
      · rw [hstep]
        rfl
      · obtain ⟨hchanged, hmap⟩ := hidle hfalse
        obtain ⟨hchanged, hsame⟩ := Bool.or_eq_false_iff.mp hchanged
        exact ⟨hchanged, hmap.trans (propagate_unchanged hsame)⟩
  obtain ⟨hround, hidle⟩ := hfold edges false map hplain
  exact ⟨hround, fun h => (hidle h).2⟩

theorem Plain.round (h : Plain nodes map) (edges : List EditorEdge) :
    Plain nodes (round (wireRules defs nodes edges) map) := by
  induction edges generalizing map with
  | nil => exact h
  | cons e edges ih => exact ih (h.apply e.connection)

theorem propagatePasses_eq (hplain : Plain nodes map) (edges : List EditorEdge) (passes : Nat) :
    propagatePasses defs nodes edges passes map = (round (wireRules defs nodes edges))^[passes] map := by
  induction passes generalizing map with
  | zero => rfl
  | succ passes ih =>
    obtain ⟨hround, hidle⟩ := propagatePass_eq defs hplain edges
    rw [Function.iterate_succ_apply, ← hround]
    unfold propagatePasses
    dsimp only
    split_ifs with hchanged
    · refine ih ?_
      rw [hround]
      exact hplain.round edges
    · -- a pass without a change is the last one, and every further round is idle as well
      have hfixed := hidle (Bool.eq_false_of_not_eq_true hchanged)
      rw [hfixed]
      rw [hfixed] at hround
      exact (Function.iterate_fixed hround.symm passes).symm

/-! ## 3. What the derivation gives -/

/-- The node with the container that a map gives it. -/
def withContainer (map : Assignment) (n : EditorNode) : EditorNode := { n with containerId := map n.id }

def derivedMap (defs : String → Option NodeDefinition) (nodes : List EditorNode)
    (edges : List EditorEdge) : Assignment := rounds (wireRules defs nodes edges) maxPasses

theorem plain_none (nodes : List EditorNode) : Plain nodes fun _ => none := fun _ _ h => nomatch h

variable (defs) in
theorem plain_derivedMap (nodes : List EditorNode) (edges : List EditorEdge) :
    Plain nodes (derivedMap defs nodes edges) := by
  unfold derivedMap
  induction maxPasses with
  | zero => exact plain_none nodes
  | succ passes ih =>
    rw [rounds_succ]
    exact ih.round edges

theorem derive_eq (nodes : List EditorNode) (edges : List EditorEdge) :
    deriveContainerAssignments defs nodes edges =
      nodes.map (withContainer (derivedMap defs nodes edges)) := by
  have hmap : propagatePasses defs nodes edges maxPasses (fun _ => none) = derivedMap defs nodes edges :=
    propagatePasses_eq (plain_none nodes) edges maxPasses
  unfold deriveContainerAssignments
  dsimp only
  rw [hmap]
  apply List.map_congr_left
  intro n _
  split_ifs with hsame
  · unfold withContainer
    rw [← hsame]
  · rfl

/-- The wiring does not look at the containers. -/
theorem wireNode_withContainer (map : Assignment) (nodes : List EditorNode) (id : String) :
    wireNode (nodes.map (withContainer map)) id = (wireNode nodes id).map (withContainer map) := by
  unfold wireNode lastNode
  rw [← List.map_reverse, List.find?_map]
  split_ifs <;> rfl

theorem wireRules_withContainer (map : Assignment) (nodes : List EditorNode) (edges : List EditorEdge) :
    wireRules defs (nodes.map (withContainer map)) edges = wireRules defs nodes edges := by
  apply List.map_congr_left
  intro e _
  unfold wireRule
  rw [wireNode_withContainer, wireNode_withContainer]
  cases wireNode nodes e.connection.source with
  | none => rfl
  | some s => cases wireNode nodes e.connection.target <;> rfl

theorem derive_withContainer (map : Assignment) (nodes : List EditorNode) (edges : List EditorEdge) :
    deriveContainerAssignments defs (nodes.map (withContainer map)) edges =
      deriveContainerAssignments defs nodes edges := by
  rw [derive_eq, derive_eq, derivedMap, wireRules_withContainer, List.map_map]
  rfl

/-- Deriving again changes nothing, and deriving for other edges starts over. -/
theorem derive_derive (nodes : List EditorNode) (edges edges' : List EditorEdge) :
    deriveContainerAssignments defs (deriveContainerAssignments defs nodes edges) edges' =
      deriveContainerAssignments defs nodes edges' := by
  rw [derive_eq nodes edges, derive_withContainer]

/-- What is reached is a node. -/
theorem mem_of_reached {k : Nat} {x c : String} (h : Reached (wireRules defs nodes edges) k x c) :
    ∃ n ∈ nodes, n.id = x := by
  induction k generalizing x with
  | zero => exact h.elim
  | succ k ih =>
    obtain ⟨claims, hmem, hclaim⟩ | hearlier | ⟨y, hlink, -⟩ := h
    · obtain ⟨e, -, hrule⟩ := List.mem_map.mp hmem
      obtain ⟨-, n, hn, hid, -⟩ := wireRule_claim hrule hclaim
      exact ⟨n, hn, hid⟩
    · exact ih hearlier
    · obtain hmem | hmem := hlink
      · obtain ⟨e, -, hrule⟩ := List.mem_map.mp hmem
        obtain ⟨s, t, hs, -, hid, -⟩ := wireRule_link hrule
        exact ⟨s, (wireNode_eq_some hs).2.2.1, hid⟩
      · obtain ⟨e, -, hrule⟩ := List.mem_map.mp hmem
        obtain ⟨s, t, -, ht, -, hid, -⟩ := wireRule_link hrule
        exact ⟨t, (wireNode_eq_some ht).2.2.1, hid⟩

/-! ## 4. Membership follows the edges -/

/-- The three rules, for the nodes as they are assigned. -/
def SatisfiesRules (defs : String → Option NodeDefinition) (nodes : List EditorNode)
    (edges : List EditorEdge) : Prop :=
  ∀ e ∈ edges, ∀ s t, wireNode nodes e.source = some s → wireNode nodes e.target = some t →
    (isBodyWire defs s e.connection = true → isTrigger t = false → t.containerId = some s.id) ∧
    (isEmitWire defs t e.connection = true → isTrigger s = false → s.containerId = some t.id) ∧
    (isContainerNode defs s = false → isContainerNode defs t = false → isTrigger s = false →
      isTrigger t = false → isSet s.containerId = isSet t.containerId)

structure FollowsEdges (defs : String → Option NodeDefinition) (nodes : List EditorNode)
    (edges : List EditorEdge) : Prop where
  rules : SatisfiesRules defs (deriveContainerAssignments defs nodes edges) edges
  order : ∀ edges', edges'.Perm edges →
    deriveContainerAssignments defs nodes edges' = deriveContainerAssignments defs nodes edges
  idempotent : deriveContainerAssignments defs (deriveContainerAssignments defs nodes edges) edges =
    deriveContainerAssignments defs nodes edges

variable (defs nodes) in
theorem mem_wireRules_perm {edges' : List EditorEdge} (hperm : edges'.Perm edges)
    (rule : SpreadRule String String) :
    rule ∈ wireRules defs nodes edges ↔ rule ∈ wireRules defs nodes edges' :=
  (hperm.map _).mem_iff.symm

theorem isSet_eq_isSome (h : Plain nodes map) (x : String) : isSet (map x) = (map x).isSome := by
  cases hx : map x with
  | none => rfl
  | some c => simpa [isSet] using (h x c hx).1

theorem wireRule_of_nodes (hs : wireNode nodes connection.source = some s)
    (ht : wireNode nodes connection.target = some t) :
    wireRule defs nodes connection =
      if isContainerNode defs s || isContainerNode defs t then
        .claim (emitClaims defs s t connection ++ bodyClaims defs s t connection)
      else if isTrigger s || isTrigger t then .claim [] else .link s.id t.id := by
  simp only [wireRule, hs, ht]

variable (defs) in
/-- A body wire claims its target, an emit wire its source. -/
theorem wireRule_claims (hs : wireNode nodes connection.source = some s)
    (ht : wireNode nodes connection.target = some t) :
    (isBodyWire defs s connection = true → isTrigger t = false →
      ∃ claims, wireRule defs nodes connection = .claim claims ∧ (t.id, s.id) ∈ claims) ∧
    (isEmitWire defs t connection = true → isTrigger s = false →
      ∃ claims, wireRule defs nodes connection = .claim claims ∧ (s.id, t.id) ∈ claims) := by
  constructor
  · intro hbody htrigger
    have hcontainer := (Bool.and_eq_true_iff.mp hbody).1
    refine ⟨_, (wireRule_of_nodes hs ht).trans (if_pos (by rw [hcontainer, Bool.true_or])), ?_⟩
    apply List.mem_append_right
    unfold bodyClaims
    rw [hbody, htrigger, if_pos (by decide)]
    exact List.mem_singleton.mpr rfl
  · intro hemit htrigger
    have hcontainer := (Bool.and_eq_true_iff.mp hemit).1
    refine ⟨_, (wireRule_of_nodes hs ht).trans (if_pos (by rw [hcontainer, Bool.or_true])), ?_⟩
    apply List.mem_append_left
    unfold emitClaims
    rw [hemit, htrigger, if_pos (by decide)]
    exact List.mem_singleton.mpr rfl

theorem satisfiesRules_derive (hcons : Consistent (wireRules defs nodes edges))
    (hshallow : Shallow (wireRules defs nodes edges) maxPasses) :
    SatisfiesRules defs (deriveContainerAssignments defs nodes edges) edges := by
  have hsat : Saturated (wireRules defs nodes edges) (derivedMap defs nodes edges) :=
    saturated_rounds hcons hshallow
  have hplain := plain_derivedMap defs nodes edges
  intro e he s' t' hs' ht'
  rw [derive_eq, wireNode_withContainer] at hs' ht'
  obtain ⟨s, hs, rfl⟩ := Option.map_eq_some_iff.mp hs'
  obtain ⟨t, ht, rfl⟩ := Option.map_eq_some_iff.mp ht'
  have hs : wireNode nodes e.connection.source = some s := hs
  have hrule : wireRule defs nodes e.connection ∈ wireRules defs nodes edges :=
    List.mem_map.mpr ⟨e, he, rfl⟩
  obtain ⟨hbody, hemit⟩ := wireRule_claims defs hs ht
  have hclaimed : ∀ {x c : String},
      (∃ claims, wireRule defs nodes e.connection = .claim claims ∧ (x, c) ∈ claims) →
      derivedMap defs nodes edges x = some c := by
    rintro x c ⟨claims, hclaims, hmem⟩
    rw [hclaims] at hrule
    have hclaim : Claimed (wireRules defs nodes edges) x c := ⟨claims, hrule, hmem⟩
    exact (hsat x c).mpr ⟨1, hclaim.belongs hcons 0⟩
  refine ⟨fun hwire htrigger => hclaimed (hbody hwire htrigger),
    fun hwire htrigger => hclaimed (hemit hwire htrigger), fun hsc htc hst htt => ?_⟩
  have hlink : wireRule defs nodes e.connection = .link s.id t.id := by
    have hsc' : isContainerNode defs s = false := hsc
    have htc' : isContainerNode defs t = false := htc
    have hst' : isTrigger s = false := hst
    have htt' : isTrigger t = false := htt
    rw [wireRule_of_nodes hs ht, hsc', htc', hst', htt']
    rfl
  rw [hlink] at hrule
  -- what reaches one end of the wire reaches the other
  have hpass : ∀ {x y c : String}, Linked (wireRules defs nodes edges) y x →
      derivedMap defs nodes edges x = some c → derivedMap defs nodes edges y ≠ none := by
    intro x y c hlinked hx
    obtain ⟨k, hk⟩ := hsat.sound x c hx
    exact hsat.ne_none hcons (hk.step hlinked)
  show isSet (derivedMap defs nodes edges s.id) = isSet (derivedMap defs nodes edges t.id)
  rw [isSet_eq_isSome hplain, isSet_eq_isSome hplain]
  cases hsource : derivedMap defs nodes edges s.id with
  | none =>
    cases htarget : derivedMap defs nodes edges t.id with
    | none => rfl
    | some c => exact absurd hsource (hpass (.inl hrule) htarget)
  | some c =>
    cases htarget : derivedMap defs nodes edges t.id with
    | none => exact absurd htarget (hpass (.inr hrule) hsource)
    | some c' => rfl

/-- Two derivations that agree on the nodes agree wherever something is reached. -/
theorem derivedMap_eq_of_derive_eq {edges' : List EditorEdge}
    (h : deriveContainerAssignments defs nodes edges' = deriveContainerAssignments defs nodes edges) :
    derivedMap defs nodes edges' = derivedMap defs nodes edges := by
  rw [derive_eq, derive_eq] at h
  have hnode : ∀ n ∈ nodes, derivedMap defs nodes edges' n.id = derivedMap defs nodes edges n.id := by
    intro n hn
    have hn' := List.map_inj_left.mp h n hn
    exact congrArg EditorNode.containerId hn'
  have hmem : ∀ {edges : List EditorEdge} {x c : String}, derivedMap defs nodes edges x = some c →
      ∃ n ∈ nodes, n.id = x := fun hx =>
    (sound_rounds _ _ _ _ hx).elim fun _ hreached => mem_of_reached hreached
  funext x
  cases hx : derivedMap defs nodes edges x with
  | some c =>
    obtain ⟨n, hn, rfl⟩ := hmem hx
    rw [hnode n hn, hx]
  | none =>
    cases hx' : derivedMap defs nodes edges' x with
    | none => rfl
    | some c =>
      obtain ⟨n, hn, rfl⟩ := hmem hx'
      rw [hnode n hn, hx] at hx'
      cases hx'

/-- **Membership follows the edges** exactly as far as the passes reach. -/
theorem followsEdges_iff (hcons : Consistent (wireRules defs nodes edges)) :
    FollowsEdges defs nodes edges ↔ Shallow (wireRules defs nodes edges) maxPasses := by
  constructor
  · intro hfollows
    by_contra hdeep
    obtain ⟨best, hperm, hsorted⟩ := exists_best_order (wireRules defs nodes edges) edges
      fun e => wireRule defs nodes e.connection
    have hperm' : best.reverse.Perm edges := (List.reverse_perm best).trans hperm
    have hworst : (wireRules defs nodes best.reverse).Pairwise fun a b =>
        NoLater (wireRules defs nodes edges) b a := by
      unfold wireRules
      rw [List.map_reverse]
      exact List.pairwise_reverse.mpr hsorted
    have hsame : derivedMap defs nodes best = derivedMap defs nodes best.reverse :=
      derivedMap_eq_of_derive_eq ((hfollows.order best hperm).trans (hfollows.order _ hperm').symm)
    exact rounds_ne_of_deep hcons hdeep (mem_wireRules_perm defs nodes hperm)
      (mem_wireRules_perm defs nodes hperm')
      hsorted hworst hsame
  · intro hshallow
    refine ⟨satisfiesRules_derive hcons hshallow, fun edges' hperm => ?_, derive_derive nodes edges edges⟩
    have hmap : derivedMap defs nodes edges' = derivedMap defs nodes edges :=
      rounds_congr (mem_wireRules_perm defs nodes hperm) hcons hshallow
    rw [derive_eq, derive_eq, hmap]

end Clemvion.Editor
