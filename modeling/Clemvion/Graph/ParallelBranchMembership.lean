import Clemvion.Graph.GraphBuilder
import Clemvion.Library.KeyedMap
import Clemvion.Library.QueueSearch

/-!
# ParallelBranchMembership — which branch of a Parallel node owns a node

Every branch is searched breadth first from the targets of its `branch_N` edges.  A node that one
branch reaches belongs to its body, a node that several branches reach is a join.
-/

open Clemvion.Library

set_option linter.unusedSectionVars false

namespace Clemvion.Graph

variable {Id : Type} [DecidableEq Id]

structure ParallelBranchMembership (Id : Type) where
  forwardAdj : Id → List (GraphEdge Id)
  branchEntries : List (List Id)
  bodyNodeIdsPerBranch : List (List Id)
  joinNodeIds : List Id
  allBodyNodeIds : List Id

/-- The number that `/^branch_(\d+)$/` reads in a port. -/
def branchIndex (port : String) : Option Nat :=
  if "branch_".toList <+: port.toList then
    let digits := port.toList.drop 7
    if digits ≠ [] ∧ digits.all Char.isDigit = true then
      some (digits.foldl (fun n c => 10 * n + (c.toNat - '0'.toNat)) 0)
    else none
  else none

/-- `set.add(x)`. -/
def addTo (set : List Id) (x : Id) : List Id := if x ∈ set then set else set ++ [x]

/-- The body of the loop over the edges of the Parallel node. -/
def addEntry (branchCount : Nat) (branchEntries : List (List Id)) (edge : GraphEdge Id) :
    List (List Id) :=
  match branchIndex edge.sourcePort with
  | none => branchEntries
  | some idx =>
    if idx < branchCount then branchEntries.modify idx fun entries => addTo entries edge.targetNodeId
    else branchEntries

/-- `ownerCount.set(id, (ownerCount.get(id) ?? 0) + 1)`. -/
def countOwner (ownerCount : KeyedMap (Prod.fst : Id × Nat → Id)) (id : Id) :
    KeyedMap (Prod.fst : Id × Nat → Id) :=
  ownerCount.set (id, ((ownerCount.get? id).map Prod.snd).getD 0 + 1)

/-- `ownerCount`, after the loop over the branches. -/
def countOwners (reachPerBranch : List (List Id)) : KeyedMap (Prod.fst : Id × Nat → Id) :=
  reachPerBranch.foldl (fun counts reach => reach.foldl countOwner counts) KeyedMap.empty

section

variable (parallelNodeId : Id) (forwardEdges : List (GraphEdge Id)) (branchCount : Nat)

/-- `forwardAdj.get(id)`. -/
def forwardEdgesOf (id : Id) : List (GraphEdge Id) :=
  forwardEdges.filter fun e => e.sourceNodeId = id

def branchEntries : List (List Id) :=
  (forwardEdgesOf forwardEdges parallelNodeId).foldl (addEntry branchCount)
    (List.replicate branchCount [])

/-- The nodes of every branch, in the order in which the search finds them. -/
def reachPerBranch : List (List Id) :=
  (branchEntries parallelNodeId forwardEdges branchCount).map
    (collect (fun id => (forwardEdgesOf forwardEdges id).map (·.targetNodeId))
      (setOf (forwardEdges.map (·.sourceNodeId))))

def collectParallelBranchMembership : ParallelBranchMembership Id :=
  let reachPerBranch := reachPerBranch parallelNodeId forwardEdges branchCount
  let ownerCount := countOwners reachPerBranch
  let joinNodeIds := (ownerCount.values.filter fun owner => owner.2 > 1).map Prod.fst
  let allBodyNodeIds := (ownerCount.values.filter fun owner => ¬ owner.2 > 1).map Prod.fst
  let bodyNodeIdsPerBranch := reachPerBranch.map fun reach => reach.filter (· ∈ allBodyNodeIds)
  { forwardAdj := forwardEdgesOf forwardEdges
    branchEntries := branchEntries parallelNodeId forwardEdges branchCount
    bodyNodeIdsPerBranch, joinNodeIds, allBodyNodeIds }

end

/-- `bodyNodeIdsPerBranch[i]`, empty beyond the last branch. -/
def ParallelBranchMembership.body (m : ParallelBranchMembership Id) (i : Nat) : List Id :=
  m.bodyNodeIdsPerBranch[i]?.getD []

/-! ## 1. Reachability from a branch -/

section Reachability

variable (parallelNodeId : Id) (forwardEdges : List (GraphEdge Id))

/-- One forward edge. -/
def Follows (a b : Id) : Prop := ∃ e ∈ forwardEdges, e.sourceNodeId = a ∧ e.targetNodeId = b

/-- An edge of the Parallel node at the port of branch `i` leads to this node. -/
def EntersBranch (i : Nat) (v : Id) : Prop :=
  ∃ e ∈ forwardEdges, e.sourceNodeId = parallelNodeId ∧ branchIndex e.sourcePort = some i ∧
    e.targetNodeId = v

def ReachedByBranch (i : Nat) (v : Id) : Prop :=
  ∃ entry, EntersBranch parallelNodeId forwardEdges i entry ∧
    Relation.ReflTransGen (Follows forwardEdges) entry v

theorem ReachedByBranch.follow {parallelNodeId : Id} {forwardEdges : List (GraphEdge Id)} {i : Nat} {v w : Id}
    (h : ReachedByBranch parallelNodeId forwardEdges i v) (hstep : Follows forwardEdges v w) :
    ReachedByBranch parallelNodeId forwardEdges i w := by
  obtain ⟨entry, hentry, hpath⟩ := h
  exact ⟨entry, hentry, hpath.tail hstep⟩

end Reachability

/-! ## 2. The entries -/

theorem mem_addTo {set : List Id} {x y : Id} : y ∈ addTo set x ↔ y ∈ set ∨ y = x := by
  unfold addTo
  by_cases hx : x ∈ set
  · rw [if_pos hx]
    refine ⟨.inl, ?_⟩
    rintro (hy | rfl)
    · exact hy
    · exact hx
  · rw [if_neg hx]
    simp

theorem length_addEntry (n : Nat) (entries : List (List Id)) (edge : GraphEdge Id) :
    (addEntry n entries edge).length = entries.length := by
  unfold addEntry
  split
  · rfl
  · split_ifs
    · exact List.length_modify ..
    · rfl

theorem mem_addEntry {n : Nat} {entries : List (List Id)} (hlength : entries.length = n)
    (edge : GraphEdge Id) (i : Nat) (v : Id) : v ∈ (addEntry n entries edge)[i]?.getD [] ↔
      v ∈ entries[i]?.getD [] ∨
        i < n ∧ branchIndex edge.sourcePort = some i ∧ edge.targetNodeId = v := by
  unfold addEntry
  cases hindex : branchIndex edge.sourcePort with
  | none => simp
  | some idx =>
    dsimp only
    by_cases hidx : idx < n
    · rw [if_pos hidx, List.getElem?_modify]
      by_cases heq : idx = i
      · subst heq
        have hget : entries[idx]? = some entries[idx] := List.getElem?_eq_getElem (hlength ▸ hidx)
        simp [hget, mem_addTo, hidx, eq_comm]
      · simp [heq]
    · rw [if_neg hidx]
      refine ⟨.inl, ?_⟩
      rintro (hv | ⟨hi, heq, -⟩)
      · exact hv
      · rw [Option.some.inj heq] at hidx
        exact absurd hi hidx

theorem mem_foldl_addEntry {n : Nat} (edges : List (GraphEdge Id)) {entries : List (List Id)}
    (hlength : entries.length = n) (i : Nat) (v : Id) :
    v ∈ (edges.foldl (addEntry n) entries)[i]?.getD [] ↔ v ∈ entries[i]?.getD [] ∨
      i < n ∧ ∃ e ∈ edges, branchIndex e.sourcePort = some i ∧ e.targetNodeId = v := by
  induction edges generalizing entries with
  | nil => simp
  | cons edge edges ih =>
    rw [List.foldl_cons, ih ((length_addEntry n entries edge).trans hlength), mem_addEntry hlength]
    simp only [List.mem_cons, exists_eq_or_imp]
    tauto

theorem length_foldl_addEntry (n : Nat) (edges : List (GraphEdge Id)) (entries : List (List Id)) :
    (edges.foldl (addEntry n) entries).length = entries.length := by
  induction edges generalizing entries with
  | nil => rfl
  | cons edge edges ih => rw [List.foldl_cons, ih, length_addEntry]

/-! ## 3. Counting the owners -/

/-- The count of a node in the map. -/
theorem get?_countOwner (counts : KeyedMap (Prod.fst : Id × Nat → Id)) (id v : Id) :
    (countOwner counts id).get? v =
      if v = id then some (id, ((counts.get? id).map Prod.snd).getD 0 + 1) else counts.get? v := by
  unfold countOwner
  by_cases hv : v = id
  · subst hv
    rw [if_pos rfl]
    exact KeyedMap.get?_set_self (x := (v, _))
  · rw [if_neg hv]
    exact KeyedMap.get?_set_of_ne hv

theorem get?_foldl_countOwner (ids : List Id) (counts : KeyedMap (Prod.fst : Id × Nat → Id))
    (seen : List Id)
    (h : ∀ v, counts.get? v = if v ∈ seen then some (v, seen.count v) else none) (v : Id) :
    (ids.foldl countOwner counts).get? v =
      if v ∈ seen ++ ids then some (v, (seen ++ ids).count v) else none := by
  induction ids generalizing counts seen with
  | nil => rw [List.foldl_nil, List.append_nil, h]
  | cons id ids ih =>
    have hnext : ∀ w, (countOwner counts id).get? w =
        if w ∈ seen ++ [id] then some (w, (seen ++ [id]).count w) else none := by
      intro w
      rw [get?_countOwner]
      by_cases hw : w = id
      · subst hw
        rw [if_pos rfl, if_pos (by simp), List.count_append, List.count_singleton_self, h]
        by_cases hseen : w ∈ seen
        · rw [if_pos hseen]
          rfl
        · rw [if_neg hseen, List.count_eq_zero.mpr hseen]
          rfl
      · have hmem : w ∈ seen ++ [id] ↔ w ∈ seen := by simp [hw]
        have hcount : (seen ++ [id]).count w = seen.count w := by
          rw [List.count_append, List.count_eq_zero.mpr (fun h => hw (List.mem_singleton.mp h))]
          rfl
        rw [if_neg hw, h, hcount]
        simp only [hmem]
    rw [List.foldl_cons, ih _ (seen ++ [id]) hnext, List.append_assoc, List.singleton_append]

theorem foldl_countOwner_flatten (reaches : List (List Id)) (counts : KeyedMap (Prod.fst : Id × Nat → Id)) :
    reaches.foldl (fun counts reach => reach.foldl countOwner counts) counts =
      reaches.flatten.foldl countOwner counts := by
  induction reaches generalizing counts with
  | nil => rfl
  | cons reach reaches ih => rw [List.foldl_cons, ih, List.flatten_cons, List.foldl_append]

/-- The owners of every node that a branch reaches. -/
theorem mem_countOwners (reaches : List (List Id)) (v : Id) (n : Nat) :
    (v, n) ∈ (countOwners reaches).values ↔ v ∈ reaches.flatten ∧ n = reaches.flatten.count v := by
  have hget := get?_foldl_countOwner reaches.flatten KeyedMap.empty [] (fun _ => rfl) v
  rw [List.nil_append, ← foldl_countOwner_flatten] at hget
  have hmem := KeyedMap.get?_eq_some_iff (m := countOwners reaches) (k := v) (x := (v, n))
  change (countOwners reaches).get? v = _ at hget
  rw [hget] at hmem
  rw [← and_iff_left (a := (v, n) ∈ _) rfl, ← hmem]
  split_ifs with hv
  · simp [hv, eq_comm]
  · simp [hv]

theorem mem_flatten_iff (reaches : List (List Id)) (v : Id) :
    v ∈ reaches.flatten ↔ ∃ i : Nat, v ∈ reaches[i]?.getD [] := by
  induction reaches with
  | nil => simp
  | cons reach reaches ih =>
    rw [List.flatten_cons, List.mem_append, ih]
    constructor
    · rintro (hv | ⟨i, hv⟩)
      · exact ⟨0, hv⟩
      · exact ⟨i + 1, hv⟩
    · rintro ⟨i, hv⟩
      cases i with
      | zero => exact .inl hv
      | succ i => exact .inr ⟨i, hv⟩

/-- More than one of the lists has it. -/
theorem one_lt_count_flatten {reaches : List (List Id)} (hnodup : ∀ reach ∈ reaches, reach.Nodup)
    (v : Id) : 1 < reaches.flatten.count v ↔
      ∃ i j : Nat, i ≠ j ∧ v ∈ reaches[i]?.getD [] ∧ v ∈ reaches[j]?.getD [] := by
  induction reaches with
  | nil => simp
  | cons reach reaches ih =>
    have hrest := ih fun r hr => hnodup r (List.mem_cons_of_mem _ hr)
    have hfirst : reach.count v = if v ∈ reach then 1 else 0 :=
      List.Nodup.count (hnodup reach List.mem_cons_self)
    have hpos := List.count_pos_iff (a := v) (l := reaches.flatten)
    rw [mem_flatten_iff] at hpos
    rw [List.flatten_cons, List.count_append, hfirst]
    constructor
    · intro hlt
      by_cases hv : v ∈ reach
      · rw [if_pos hv] at hlt
        obtain ⟨j, hj⟩ := hpos.mp (by omega)
        exact ⟨0, j + 1, by omega, hv, hj⟩
      · rw [if_neg hv] at hlt
        obtain ⟨i, j, hne, hi, hj⟩ := hrest.mp (by omega)
        exact ⟨i + 1, j + 1, by omega, hi, hj⟩
    · rintro ⟨i, j, hne, hi, hj⟩
      -- one of the two lists may be the first
      cases i with
      | zero =>
        cases j with
        | zero => exact absurd rfl hne
        | succ j =>
          have hfront : v ∈ reach := hi
          have hbehind := hpos.mpr ⟨j, hj⟩
          rw [if_pos hfront]
          omega
      | succ i =>
        cases j with
        | zero =>
          have hfront : v ∈ reach := hj
          have hbehind := hpos.mpr ⟨i, hi⟩
          rw [if_pos hfront]
          omega
        | succ j =>
          have hbehind := hrest.mpr ⟨i, j, by omega, hi, hj⟩
          omega

/-! ## 4. The membership -/

section Membership

variable (parallelNodeId : Id) (forwardEdges : List (GraphEdge Id)) (branchCount : Nat)

theorem length_reachPerBranch :
    (reachPerBranch parallelNodeId forwardEdges branchCount).length = branchCount := by
  unfold reachPerBranch branchEntries
  rw [List.length_map, length_foldl_addEntry, List.length_replicate]

theorem no_targets {id : Id} (h : id ∉ setOf (forwardEdges.map (·.sourceNodeId))) :
    (forwardEdgesOf forwardEdges id).map (·.targetNodeId) = [] := by
  have hnone : forwardEdgesOf forwardEdges id = [] := by
    unfold forwardEdgesOf
    rw [List.filter_eq_nil_iff]
    intro e he hsource
    exact h (mem_setOf.mpr (List.mem_map.mpr ⟨e, he, by simpa using hsource⟩))
  rw [hnone]
  rfl

theorem nodup_reach {reach : List Id}
    (h : reach ∈ reachPerBranch parallelNodeId forwardEdges branchCount) : reach.Nodup := by
  obtain ⟨entries, -, rfl⟩ := List.mem_map.mp h
  exact nodup_collect (nodup_setOf _) fun id hid => no_targets forwardEdges hid

theorem mem_targets {a b : Id} :
    b ∈ (forwardEdgesOf forwardEdges a).map (·.targetNodeId) ↔ Follows forwardEdges a b := by
  simp [forwardEdgesOf, Follows, and_assoc]

theorem mem_branchEntries (i : Nat) (v : Id) :
    v ∈ (branchEntries parallelNodeId forwardEdges branchCount)[i]?.getD [] ↔
      i < branchCount ∧ EntersBranch parallelNodeId forwardEdges i v := by
  have hnone : (List.replicate branchCount ([] : List Id))[i]?.getD [] = [] := by
    rw [List.getElem?_replicate]
    split_ifs <;> rfl
  have hlength : (List.replicate branchCount ([] : List Id)).length = branchCount :=
    List.length_replicate
  unfold branchEntries
  rw [mem_foldl_addEntry _ hlength, hnone]
  simp [forwardEdgesOf, EntersBranch, and_assoc]

/-- **A branch collects what it reaches.** -/
theorem mem_reachPerBranch (i : Nat) (v : Id) :
    v ∈ (reachPerBranch parallelNodeId forwardEdges branchCount)[i]?.getD [] ↔
      i < branchCount ∧ ReachedByBranch parallelNodeId forwardEdges i v := by
  have hsteps : (fun a b : Id => b ∈ (forwardEdgesOf forwardEdges a).map (·.targetNodeId)) =
      Follows forwardEdges := funext fun a => funext fun b => propext (mem_targets forwardEdges)
  have hcollect : v ∈ (reachPerBranch parallelNodeId forwardEdges branchCount)[i]?.getD [] ↔
      ∃ entry ∈ (branchEntries parallelNodeId forwardEdges branchCount)[i]?.getD [],
        Relation.ReflTransGen (Follows forwardEdges) entry v := by
    unfold reachPerBranch
    rw [List.getElem?_map]
    cases (branchEntries parallelNodeId forwardEdges branchCount)[i]? with
    | none => simp
    | some entries =>
      rw [Option.map_some, Option.getD_some, Option.getD_some, mem_collect_iff (nodup_setOf _)
        fun id hid => no_targets forwardEdges hid, hsteps]
  rw [hcollect]
  constructor
  · rintro ⟨entry, hentry, hpath⟩
    obtain ⟨hi, henters⟩ := (mem_branchEntries _ _ _ i entry).mp hentry
    exact ⟨hi, entry, henters, hpath⟩
  · rintro ⟨hi, entry, henters, hpath⟩
    exact ⟨entry, (mem_branchEntries _ _ _ i entry).mpr ⟨hi, henters⟩, hpath⟩

/-- The nodes whose number of owners has a property. -/
theorem mem_filter_countOwners (reaches : List (List Id)) (p : Nat → Prop) [DecidablePred p] (v : Id) :
    v ∈ ((countOwners reaches).values.filter fun owner => p owner.2).map Prod.fst ↔
      v ∈ reaches.flatten ∧ p (reaches.flatten.count v) := by
  rw [List.mem_map]
  constructor
  · rintro ⟨⟨w, n⟩, hmem, rfl⟩
    obtain ⟨hvalue, hp⟩ := List.mem_filter.mp hmem
    obtain ⟨hflatten, rfl⟩ := (mem_countOwners reaches w n).mp hvalue
    exact ⟨hflatten, by simpa using hp⟩
  · rintro ⟨hflatten, hp⟩
    refine ⟨(v, reaches.flatten.count v), List.mem_filter.mpr ⟨?_, by simpa using hp⟩, rfl⟩
    exact (mem_countOwners reaches v _).mpr ⟨hflatten, rfl⟩

/-- Reached by two branches. -/
def Shared (v : Id) : Prop :=
  ∃ i j, i < branchCount ∧ j < branchCount ∧ i ≠ j ∧ ReachedByBranch parallelNodeId forwardEdges i v ∧
    ReachedByBranch parallelNodeId forwardEdges j v

theorem one_lt_count_iff (v : Id) :
    1 < (reachPerBranch parallelNodeId forwardEdges branchCount).flatten.count v ↔
      Shared parallelNodeId forwardEdges branchCount v := by
  rw [one_lt_count_flatten fun reach hreach => nodup_reach parallelNodeId forwardEdges branchCount hreach]
  simp only [mem_reachPerBranch]
  constructor
  · rintro ⟨i, j, hne, ⟨hi, hvi⟩, hj, hvj⟩
    exact ⟨i, j, hi, hj, hne, hvi, hvj⟩
  · rintro ⟨i, j, hi, hj, hne, hvi, hvj⟩
    exact ⟨i, j, hne, ⟨hi, hvi⟩, hj, hvj⟩

theorem mem_joinNodeIds (v : Id) :
    v ∈ (collectParallelBranchMembership parallelNodeId forwardEdges branchCount).joinNodeIds ↔
      Shared parallelNodeId forwardEdges branchCount v := by
  refine (mem_filter_countOwners _ (fun n => n > 1) v).trans ?_
  rw [← one_lt_count_iff]
  exact ⟨And.right, fun hlt => ⟨List.count_pos_iff.mp (Nat.lt_trans Nat.zero_lt_one hlt), hlt⟩⟩

theorem mem_allBodyNodeIds (v : Id) :
    v ∈ (collectParallelBranchMembership parallelNodeId forwardEdges branchCount).allBodyNodeIds ↔
      (∃ i, i < branchCount ∧ ReachedByBranch parallelNodeId forwardEdges i v) ∧
        ¬ Shared parallelNodeId forwardEdges branchCount v := by
  refine (mem_filter_countOwners _ (fun n => ¬ n > 1) v).trans ?_
  rw [← one_lt_count_iff, mem_flatten_iff]
  simp only [mem_reachPerBranch]

theorem mem_body (i : Nat) (v : Id) :
    v ∈ (collectParallelBranchMembership parallelNodeId forwardEdges branchCount).body i ↔
      i < branchCount ∧ ReachedByBranch parallelNodeId forwardEdges i v ∧
        ¬ Shared parallelNodeId forwardEdges branchCount v := by
  have hbody : v ∈ (collectParallelBranchMembership parallelNodeId forwardEdges branchCount).body i ↔
      v ∈ (reachPerBranch parallelNodeId forwardEdges branchCount)[i]?.getD [] ∧
        v ∈ (collectParallelBranchMembership parallelNodeId forwardEdges branchCount).allBodyNodeIds := by
    show v ∈ ((reachPerBranch parallelNodeId forwardEdges branchCount).map _)[i]?.getD [] ↔ _
    rw [List.getElem?_map]
    cases (reachPerBranch parallelNodeId forwardEdges branchCount)[i]? with
    | none => simp
    | some reach =>
      rw [Option.map_some, Option.getD_some, Option.getD_some, List.mem_filter, decide_eq_true_iff]
      exact Iff.rfl
  rw [hbody, mem_reachPerBranch, mem_allBodyNodeIds]
  constructor
  · rintro ⟨⟨hi, hreached⟩, -, hshared⟩
    exact ⟨hi, hreached, hshared⟩
  · rintro ⟨hi, hreached, hshared⟩
    exact ⟨⟨hi, hreached⟩, ⟨i, hi, hreached⟩, hshared⟩

/-- **Membership.** A body is what its branch alone reaches, the joins are what several branches
reach, and no edge leads from a body into another one.  Cycles make no difference. -/
theorem collectParallelBranchMembership_spec :
    (∀ i v, i < branchCount →
      (v ∈ (collectParallelBranchMembership parallelNodeId forwardEdges branchCount).body i ↔
        ReachedByBranch parallelNodeId forwardEdges i v ∧
          ∀ j, j < branchCount → j ≠ i → ¬ ReachedByBranch parallelNodeId forwardEdges j v)) ∧
    (collectParallelBranchMembership parallelNodeId forwardEdges branchCount).bodyNodeIdsPerBranch.length =
      branchCount ∧
    (∀ i j, i ≠ j →
      List.Disjoint ((collectParallelBranchMembership parallelNodeId forwardEdges branchCount).body i)
        ((collectParallelBranchMembership parallelNodeId forwardEdges branchCount).body j)) ∧
    (∀ v, v ∈ (collectParallelBranchMembership parallelNodeId forwardEdges branchCount).joinNodeIds ↔
      ∃ i j, i < branchCount ∧ j < branchCount ∧ i ≠ j ∧
        ReachedByBranch parallelNodeId forwardEdges i v ∧
          ReachedByBranch parallelNodeId forwardEdges j v) ∧
    (∀ i, ∀ e ∈ forwardEdges,
      e.sourceNodeId ∈ (collectParallelBranchMembership parallelNodeId forwardEdges branchCount).body i →
      e.targetNodeId ∈ (collectParallelBranchMembership parallelNodeId forwardEdges branchCount).body i ∨
        e.targetNodeId ∈
          (collectParallelBranchMembership parallelNodeId forwardEdges branchCount).joinNodeIds) ∧
    (∀ e ∈ forwardEdges,
      e.sourceNodeId ∈ (collectParallelBranchMembership parallelNodeId forwardEdges branchCount).joinNodeIds →
      e.targetNodeId ∈
        (collectParallelBranchMembership parallelNodeId forwardEdges branchCount).joinNodeIds) ∧
    ∀ v, v ∈ (collectParallelBranchMembership parallelNodeId forwardEdges branchCount).allBodyNodeIds ↔
      ∃ i, v ∈ (collectParallelBranchMembership parallelNodeId forwardEdges branchCount).body i := by
  refine ⟨?_, ?_, ?_, mem_joinNodeIds parallelNodeId forwardEdges branchCount, ?_, ?_, ?_⟩
  · intro i v hi
    rw [mem_body]
    constructor
    · rintro ⟨-, hreached, hshared⟩
      exact ⟨hreached, fun j hj hne hother => hshared ⟨j, i, hj, hi, hne, hother, hreached⟩⟩
    · rintro ⟨hreached, halone⟩
      refine ⟨hi, hreached, ?_⟩
      rintro ⟨j, k, hj, hk, hne, hvj, hvk⟩
      by_cases hji : j = i
      · exact halone k hk (fun hki => hne (hji.trans hki.symm)) hvk
      · exact halone j hj hji hvj
  · show ((reachPerBranch parallelNodeId forwardEdges branchCount).map _).length = branchCount
    rw [List.length_map, length_reachPerBranch]
  · intro i j hne v hi hj
    rw [mem_body] at hi hj
    exact hi.2.2 ⟨i, j, hi.1, hj.1, hne, hi.2.1, hj.2.1⟩
  · intro i e he hsource
    rw [mem_body] at hsource ⊢
    rw [mem_joinNodeIds]
    have hstep : ReachedByBranch parallelNodeId forwardEdges i e.targetNodeId :=
      hsource.2.1.follow ⟨e, he, rfl, rfl⟩
    by_cases hshared : Shared parallelNodeId forwardEdges branchCount e.targetNodeId
    · exact .inr hshared
    · exact .inl ⟨hsource.1, hstep, hshared⟩
  · intro e he hsource
    rw [mem_joinNodeIds] at hsource ⊢
    obtain ⟨i, j, hi, hj, hne, hvi, hvj⟩ := hsource
    exact ⟨i, j, hi, hj, hne, hvi.follow ⟨e, he, rfl, rfl⟩, hvj.follow ⟨e, he, rfl, rfl⟩⟩
  · intro v
    simp only [mem_body, mem_allBodyNodeIds]
    constructor
    · rintro ⟨⟨i, hi, hreached⟩, hshared⟩
      exact ⟨i, hi, hreached, hshared⟩
    · rintro ⟨i, hi, hreached, hshared⟩
      exact ⟨⟨i, hi, hreached⟩, hshared⟩

end Membership

/-- Two branches that meet in `merge`. -/
def meetingBranches : List (GraphEdge String) :=
  [⟨"par", "branch_0", "a", "in"⟩, ⟨"par", "branch_1", "b", "in"⟩, ⟨"a", "out", "merge", "in"⟩,
    ⟨"b", "out", "merge", "in"⟩, ⟨"merge", "out", "after", "in"⟩]

example : (collectParallelBranchMembership "par" meetingBranches 2).bodyNodeIdsPerBranch = [["a"], ["b"]] ∧
    (collectParallelBranchMembership "par" meetingBranches 2).joinNodeIds = ["merge", "after"] := by
  decide +kernel

end Clemvion.Graph
