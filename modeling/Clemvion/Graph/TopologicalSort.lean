import Mathlib.Data.List.Sort
import Mathlib.Data.List.Count
import Mathlib.Data.List.Perm.Subperm
import Clemvion.Graph.BackEdgeIdentifier

/-!
# TopologicalSort — Kahn's algorithm

In-degrees count parallel edges, a node joins the queue when its count reaches zero, and nodes
that become ready together are queued in id order.  The sort throws when some node never
becomes ready; the second half shows that a ranked edge list never makes it throw.
-/

open Clemvion.Library

set_option linter.unusedSectionVars false

namespace Clemvion.Graph

variable {Id : Type} [LinearOrder Id]

structure KahnState (Id : Type) where
  inDegree : Id → Int
  queue : List Id
  sorted : List Id

def cycleError : String :=
  "Graph contains a cycle: topological sort could not process all nodes"

/-- The known edges, which alone count towards degrees. -/
def knownEdges (nodeIds : List Id) (edges : List (GraphEdge Id)) : List (GraphEdge Id) :=
  edges.filter (isKnownEdge nodeIds)

/-- `adjacency.get(id)`: targets of the known edges leaving `id`, in input order. -/
def neighborsOf (nodeIds : List Id) (edges : List (GraphEdge Id)) (id : Id) : List Id :=
  ((knownEdges nodeIds edges).filter fun e => e.sourceNodeId = id).map (·.targetNodeId)

/-- The body of `for (const neighbor of neighbors)`. -/
def relaxNeighbor (acc : (Id → Int) × List Id) (neighbor : Id) : (Id → Int) × List Id :=
  let newDegree := acc.1 neighbor - 1
  (Function.update acc.1 neighbor newDegree,
    if newDegree = 0 then acc.2 ++ [neighbor] else acc.2)

/-- One pass through the body of `while (queue.length > 0)`. -/
def kahnStep (neighbors : Id → List Id) (s : KahnState Id) : KahnState Id :=
  match s.queue with
  | [] => s
  | current :: queue =>
    let relaxed := (neighbors current).foldl relaxNeighbor (s.inDegree, [])
    { inDegree := relaxed.1
      queue := queue ++ relaxed.2.insertionSort (· ≤ ·)
      sorted := s.sorted ++ [current] }

def queueNonempty (s : KahnState Id) : Bool := !s.queue.isEmpty

def kahnInit (nodeIds : List Id) (edges : List (GraphEdge Id)) : KahnState Id :=
  let inDegree : Id → Int := fun id =>
    (knownEdges nodeIds edges).countP fun e => e.targetNodeId = id
  { inDegree
    queue := (nodeIds.filter fun id => inDegree id = 0).insertionSort (· ≤ ·)
    sorted := [] }

def kahnLoop (fuel : Nat) (nodeIds : List Id) (edges : List (GraphEdge Id)) : KahnState Id :=
  whileLoop queueNonempty (kahnStep (neighborsOf nodeIds edges)) fuel (kahnInit nodeIds edges)

def topologicalSortWith (fuel : Nat) (nodes : List (GraphNode Id)) (edges : List (GraphEdge Id)) :
    Except String (List Id) :=
  let nodeIds := setOf (nodes.map (·.id))
  let sorted := (kahnLoop fuel nodeIds edges).sorted
  if sorted.length ≠ nodeIds.length then .error cycleError else .ok sorted

/-- `topologicalSort`: every node leaves the queue at most once, so the number of nodes bounds
the iterations. -/
def topologicalSort (nodes : List (GraphNode Id)) (edges : List (GraphEdge Id)) :
    Except String (List Id) :=
  topologicalSortWith (setOf (nodes.map (·.id))).length nodes edges

/-! ## 1. Relaxing the neighbours of one node -/

private theorem foldl_relaxNeighbor_degree (ns : List Id) (acc : (Id → Int) × List Id) (v : Id) :
    (ns.foldl relaxNeighbor acc).1 v = acc.1 v - ns.count v := by
  induction ns generalizing acc with
  | nil => simp
  | cons n ns ih =>
    rw [List.foldl_cons, ih, List.count_cons]
    by_cases hv : v = n
    · subst hv
      simp [relaxNeighbor]
      omega
    · have hne : ¬ n = v := fun h => hv h.symm
      simp [relaxNeighbor, Function.update_of_ne hv, hne]

/-- A neighbour becomes ready when its count reaches zero on the way. -/
private theorem mem_foldl_relaxNeighbor (ns : List Id) (acc : (Id → Int) × List Id) (v : Id) :
    v ∈ (ns.foldl relaxNeighbor acc).2 ↔
      v ∈ acc.2 ∨ (1 ≤ acc.1 v ∧ acc.1 v ≤ ns.count v) := by
  induction ns generalizing acc with
  | nil =>
    simp only [List.foldl_nil, List.count_nil]
    constructor
    · exact .inl
    · rintro (h | h)
      · exact h
      · omega
  | cons n ns ih =>
    rw [List.foldl_cons, ih, List.count_cons]
    by_cases hv : v = n
    · subst hv
      simp only [relaxNeighbor, Function.update_self, beq_self_eq_true, if_true]
      by_cases hzero : acc.1 v - 1 = 0
      · rw [if_pos hzero]
        simp only [List.mem_append, List.mem_singleton, or_true, true_or, true_iff]
        right
        omega
      · rw [if_neg hzero]
        constructor
        · rintro (h | h)
          · exact .inl h
          · right; omega
        · rintro (h | h)
          · exact .inl h
          · right; omega
    · have hne : ¬ n = v := fun h => hv h.symm
      simp only [relaxNeighbor, Function.update_of_ne hv]
      by_cases hzero : acc.1 n - 1 = 0
      · simp [hzero, hv, hne]
      · simp [hzero, hne]

private theorem nodup_foldl_relaxNeighbor (ns : List Id) (acc : (Id → Int) × List Id)
    (hnodup : acc.2.Nodup) (hdeg : ∀ v ∈ acc.2, acc.1 v ≤ 0) :
    (ns.foldl relaxNeighbor acc).2.Nodup := by
  induction ns generalizing acc with
  | nil => exact hnodup
  | cons n ns ih =>
    rw [List.foldl_cons]
    have hdeg' : ∀ v ∈ acc.2, (relaxNeighbor acc n).1 v ≤ 0 := by
      intro v hv
      by_cases heq : v = n
      · subst heq
        have := hdeg v hv
        simp only [relaxNeighbor, Function.update_self]
        omega
      · simpa [relaxNeighbor, Function.update_of_ne heq] using hdeg v hv
    by_cases hzero : acc.1 n - 1 = 0
    · have hnot : n ∉ acc.2 := fun hmem => by
        have := hdeg n hmem
        omega
      have hready : (relaxNeighbor acc n).2 = acc.2 ++ [n] := by simp [relaxNeighbor, hzero]
      refine ih _ ?_ ?_
      · rw [hready]
        refine List.Nodup.append hnodup (List.nodup_singleton n) ?_
        simpa using hnot
      · intro v hv
        rw [hready, List.mem_append, List.mem_singleton] at hv
        rcases hv with hv | rfl
        · exact hdeg' v hv
        · simp [relaxNeighbor, hzero]
    · have hready : (relaxNeighbor acc n).2 = acc.2 := by simp [relaxNeighbor, hzero]
      exact ih _ (hready ▸ hnodup) fun v hv => hdeg' v (hready ▸ hv)

/-! ## 2. The invariant of the queue -/

structure KahnInv (nodeIds : List Id) (edges : List (GraphEdge Id)) (s : KahnState Id) : Prop where
  /-- A node's count is the number of its incoming edges whose source is not sorted yet. -/
  degree : ∀ v, s.inDegree v = ((knownEdges nodeIds edges).countP
    fun e => e.targetNodeId = v && e.sourceNodeId ∉ s.sorted : Nat)
  nodup : (s.sorted ++ s.queue).Nodup
  known : ∀ v ∈ s.sorted ++ s.queue, v ∈ nodeIds
  ready_iff : ∀ v ∈ nodeIds, v ∈ s.sorted ++ s.queue ↔
    ∀ e ∈ knownEdges nodeIds edges, e.targetNodeId = v → e.sourceNodeId ∈ s.sorted
  ordered : ∀ e ∈ knownEdges nodeIds edges, e.targetNodeId ∈ s.sorted ++ s.queue →
    [e.sourceNodeId, e.targetNodeId].Sublist (s.sorted ++ s.queue)

variable {nodeIds : List Id} {edges : List (GraphEdge Id)} {s : KahnState Id}

private theorem degree_eq_zero_iff (es : List (GraphEdge Id)) (sorted : List Id) (v : Id) :
    (es.countP fun e => e.targetNodeId = v && e.sourceNodeId ∉ sorted) = 0 ↔
      ∀ e ∈ es, e.targetNodeId = v → e.sourceNodeId ∈ sorted := by
  simp [List.countP_eq_zero]

/-- Sorting `current` takes its own edges out of every count. -/
private theorem countP_sorted_append (es : List (GraphEdge Id)) (sorted : List Id) {current : Id}
    (hnot : current ∉ sorted) (v : Id) :
    (es.countP fun e => e.targetNodeId = v && e.sourceNodeId ∉ sorted) =
      (es.countP fun e => e.targetNodeId = v && e.sourceNodeId ∉ sorted ++ [current]) +
      ((es.filter fun e => e.sourceNodeId = current).map (·.targetNodeId)).count v := by
  induction es with
  | nil => simp
  | cons e es ih =>
    simp only [List.countP_cons, List.filter_cons, ih]
    by_cases hs : e.sourceNodeId = current
    · by_cases ht : e.targetNodeId = v
      · simp [hs, ht, hnot]
        omega
      · simp [hs, ht]
    · by_cases ht : e.targetNodeId = v
      · simp [hs, ht]
        omega
      · simp [hs, ht]

namespace KahnInv

private theorem not_sorted (hinv : KahnInv nodeIds edges s) {current : Id} {queue : List Id}
    (hqueue : s.queue = current :: queue) : current ∉ s.sorted := by
  have hnodup := hinv.nodup
  rw [hqueue, List.nodup_append] at hnodup
  intro hmem
  exact hnodup.2.2 current hmem current List.mem_cons_self rfl

/-- **One iteration** moves the head of the queue to the sorted list and queues what it made
ready. -/
theorem step (hinv : KahnInv nodeIds edges s) {current : Id} {queue : List Id}
    (hqueue : s.queue = current :: queue) :
    KahnInv nodeIds edges (kahnStep (neighborsOf nodeIds edges) s) := by
  have hcurrent := hinv.not_sorted hqueue
  set relaxed := (neighborsOf nodeIds edges current).foldl relaxNeighbor (s.inDegree, [])
    with hrelaxed
  have hsplit : ∀ v, ((knownEdges nodeIds edges).countP
        fun e => e.targetNodeId = v && e.sourceNodeId ∉ s.sorted) =
      ((knownEdges nodeIds edges).countP
        fun e => e.targetNodeId = v && e.sourceNodeId ∉ s.sorted ++ [current]) +
      (neighborsOf nodeIds edges current).count v := countP_sorted_append _ _ hcurrent
  have hdegree : ∀ v, relaxed.1 v = ((knownEdges nodeIds edges).countP
      fun e => e.targetNodeId = v && e.sourceNodeId ∉ s.sorted ++ [current] : Nat) := by
    intro v
    rw [hrelaxed, foldl_relaxNeighbor_degree]
    show s.inDegree v - _ = _
    rw [hinv.degree, hsplit]
    omega
  have hready : ∀ v, v ∈ relaxed.2 ↔ v ∉ s.sorted ++ s.queue ∧ v ∈ nodeIds ∧
      ∀ e ∈ knownEdges nodeIds edges, e.targetNodeId = v →
        e.sourceNodeId ∈ s.sorted ++ [current] := by
    intro v
    rw [hrelaxed, mem_foldl_relaxNeighbor, ← degree_eq_zero_iff]
    simp only [List.not_mem_nil, false_or]
    rw [hinv.degree, hsplit]
    constructor
    · rintro ⟨hpos, hle⟩
      have hsome : ¬ ∀ e ∈ knownEdges nodeIds edges, e.targetNodeId = v →
          e.sourceNodeId ∈ s.sorted := by
        rw [← degree_eq_zero_iff, hsplit]
        omega
      have hknown : v ∈ nodeIds := by
        push Not at hsome
        obtain ⟨e, he, rfl, -⟩ := hsome
        have := (List.mem_filter.mp he).2
        simp only [isKnownEdge, Bool.and_eq_true, decide_eq_true_eq] at this
        exact this.2
      exact ⟨fun hmem => hsome ((hinv.ready_iff v hknown).mp hmem), hknown, by omega⟩
    · rintro ⟨hnot, hknown, hzero⟩
      have hsome : ¬ ∀ e ∈ knownEdges nodeIds edges, e.targetNodeId = v →
          e.sourceNodeId ∈ s.sorted := fun hall => hnot ((hinv.ready_iff v hknown).mpr hall)
      rw [← degree_eq_zero_iff, hsplit, hzero] at hsome
      omega
  have hlist : (kahnStep (neighborsOf nodeIds edges) s).sorted ++
      (kahnStep (neighborsOf nodeIds edges) s).queue =
      (s.sorted ++ s.queue) ++ relaxed.2.insertionSort (· ≤ ·) := by
    simp [kahnStep, hqueue, hrelaxed]
  have hsorted : (kahnStep (neighborsOf nodeIds edges) s).sorted = s.sorted ++ [current] := by
    simp [kahnStep, hqueue]
  constructor
  case degree =>
    intro v
    rw [hsorted, ← hdegree v]
    simp [kahnStep, hqueue, hrelaxed]
  case nodup =>
    rw [hlist]
    refine List.Nodup.append hinv.nodup ?_ ?_
    · rw [(List.perm_insertionSort _ _).nodup_iff]
      exact nodup_foldl_relaxNeighbor _ _ List.nodup_nil (by simp)
    · intro v hold hnew
      rw [List.mem_insertionSort] at hnew
      exact ((hready v).mp hnew).1 hold
  case known =>
    intro v hv
    rw [hlist, List.mem_append, List.mem_insertionSort] at hv
    rcases hv with hv | hv
    · exact hinv.known v hv
    · exact ((hready v).mp hv).2.1
  case ready_iff =>
    intro v hknown
    rw [hlist, hsorted, List.mem_append, List.mem_insertionSort]
    constructor
    · rintro (hv | hv)
      · intro e he ht
        exact List.mem_append_left _ ((hinv.ready_iff v hknown).mp hv e he ht)
      · exact ((hready v).mp hv).2.2
    · intro hall
      by_cases hold : v ∈ s.sorted ++ s.queue
      · exact .inl hold
      · exact .inr ((hready v).mpr ⟨hold, hknown, hall⟩)
  case ordered =>
    intro e he ht
    rw [hlist, List.mem_append, List.mem_insertionSort] at ht
    rw [hlist]
    rcases ht with ht | ht
    · exact (hinv.ordered e he ht).trans (List.sublist_append_left _ _)
    · have hsource := ((hready _).mp ht).2.2 e he rfl
      have hold : e.sourceNodeId ∈ s.sorted ++ s.queue := by
        rw [hqueue]
        simp only [List.mem_append, List.mem_cons, List.not_mem_nil, or_false] at hsource ⊢
        tauto
      exact List.Sublist.append (List.singleton_sublist.mpr hold)
        (List.singleton_sublist.mpr ((List.mem_insertionSort _).mpr ht))

theorem init (hnodup : nodeIds.Nodup) : KahnInv nodeIds edges (kahnInit nodeIds edges) := by
  constructor
  case degree => intro v; simp [kahnInit]
  case nodup =>
    simp only [kahnInit, List.nil_append]
    rw [(List.perm_insertionSort _ _).nodup_iff]
    exact hnodup.filter _
  case known =>
    intro v hv
    simp only [kahnInit, List.nil_append, List.mem_insertionSort] at hv
    exact (List.mem_filter.mp hv).1
  case ready_iff =>
    intro v hknown
    simp [kahnInit, hknown, List.countP_eq_zero]
  case ordered =>
    intro e he ht
    simp only [kahnInit, List.nil_append, List.mem_insertionSort, List.mem_filter,
      decide_eq_true_eq] at ht
    have hzero := List.countP_eq_zero.mp (Int.natCast_eq_zero.mp ht.2) e he
    simp at hzero

theorem length_le (hinv : KahnInv nodeIds edges s) :
    s.sorted.length + s.queue.length ≤ nodeIds.length := by
  rw [← List.length_append]
  exact (List.subperm_of_subset hinv.nodup hinv.known).length_le

end KahnInv

/-! ## 3. The sort ends, and is complete on a ranked edge list -/

private theorem kahnStep_inv {k : Nat} (hinv : KahnInv nodeIds edges s)
    (hk : s.sorted.length + k = nodeIds.length) (hcond : queueNonempty s = true) :
    ∃ m, m < k ∧ KahnInv nodeIds edges (kahnStep (neighborsOf nodeIds edges) s) ∧
      (kahnStep (neighborsOf nodeIds edges) s).sorted.length + m = nodeIds.length := by
  obtain ⟨current, queue, hqueue⟩ : ∃ current queue, s.queue = current :: queue := by
    cases hq : s.queue with
    | nil => simp [queueNonempty, hq] at hcond
    | cons current queue => exact ⟨current, queue, rfl⟩
  have hle := hinv.length_le
  rw [hqueue, List.length_cons] at hle
  have hlen : (kahnStep (neighborsOf nodeIds edges) s).sorted.length = s.sorted.length + 1 := by
    simp [kahnStep, hqueue]
  exact ⟨k - 1, by omega, hinv.step hqueue, by omega⟩

theorem kahnLoop_spec (hnodup : nodeIds.Nodup) (edges : List (GraphEdge Id)) {fuel : Nat}
    (hfuel : nodeIds.length ≤ fuel) :
    KahnInv nodeIds edges (kahnLoop fuel nodeIds edges) ∧
      (kahnLoop fuel nodeIds edges).queue = [] := by
  have hloop := whileLoop_spec (fun k s => KahnInv nodeIds edges s ∧
      s.sorted.length + k = nodeIds.length) (fun k s h => kahnStep_inv h.1 h.2)
    fuel nodeIds.length (kahnInit nodeIds edges) ⟨KahnInv.init hnodup, by simp [kahnInit]⟩ hfuel
  obtain ⟨⟨k, hinv, -⟩, hstop⟩ := hloop
  have hstop' : queueNonempty (kahnLoop fuel nodeIds edges) = false := hstop
  exact ⟨hinv, by simpa [queueNonempty] using hstop'⟩

theorem kahnLoop_stable (hnodup : nodeIds.Nodup) (edges : List (GraphEdge Id)) {fuel : Nat}
    (hfuel : nodeIds.length ≤ fuel) :
    kahnLoop fuel nodeIds edges = kahnLoop nodeIds.length nodeIds edges := by
  have hstop := (kahnLoop_spec hnodup edges (Nat.le_refl _)).2
  exact whileLoop_stable hfuel _ (by
    rw [kahnLoop] at hstop
    simp [queueNonempty, hstop])

theorem topologicalSortWith_eq (nodes : List (GraphNode Id)) (edges : List (GraphEdge Id))
    {fuel : Nat} (hfuel : (setOf (nodes.map (·.id))).length ≤ fuel) :
    topologicalSortWith fuel nodes edges = topologicalSort nodes edges := by
  simp only [topologicalSort, topologicalSortWith, kahnLoop_stable (nodup_setOf _) edges hfuel]

/-- A ranked edge list leaves no node unsorted: the lowest one would be ready. -/
private theorem all_sorted (hinv : KahnInv nodeIds edges s) (hqueue : s.queue = [])
    {rank : Id → Nat}
    (hrank : ∀ e ∈ knownEdges nodeIds edges, rank e.sourceNodeId < rank e.targetNodeId) :
    ∀ n, ∀ v ∈ nodeIds, rank v = n → v ∈ s.sorted := by
  intro n
  induction n using Nat.strong_induction_on with
  | _ n ih =>
    intro v hv hn
    have hmem : v ∈ s.sorted ++ s.queue := by
      refine (hinv.ready_iff v hv).mpr ?_
      intro e he ht
      have hlt := hrank e he
      rw [ht, hn] at hlt
      have hknown := (List.mem_filter.mp he).2
      simp only [isKnownEdge, Bool.and_eq_true, decide_eq_true_eq] at hknown
      exact ih _ hlt _ hknown.1 rfl
    rwa [hqueue, List.append_nil] at hmem

/-- **Kahn's algorithm on a ranked edge list** returns every node once and puts the source of
every known edge before its target. -/
theorem topologicalSort_of_ranked (nodes : List (GraphNode Id)) (edges : List (GraphEdge Id))
    {rank : Id → Nat} (hrank : ∀ e ∈ edges, isKnownEdge (nodes.map (·.id)) e = true →
      rank e.sourceNodeId < rank e.targetNodeId) :
    ∃ sorted, topologicalSort nodes edges = .ok sorted ∧ sorted.Nodup ∧
      (∀ v, v ∈ sorted ↔ v ∈ nodes.map (·.id)) ∧
      ∀ e ∈ edges, isKnownEdge (nodes.map (·.id)) e = true →
        sorted.idxOf e.sourceNodeId < sorted.idxOf e.targetNodeId := by
  set nodeIds := setOf (nodes.map (·.id)) with hids
  obtain ⟨hinv, hqueue⟩ := kahnLoop_spec (nodup_setOf (nodes.map (·.id))) edges (Nat.le_refl _)
  rw [← hids] at hinv hqueue
  set s := kahnLoop nodeIds.length nodeIds edges with hs
  have hnodup : s.sorted.Nodup := by simpa [hqueue] using hinv.nodup
  have hmemKnown : ∀ e ∈ edges, isKnownEdge (nodes.map (·.id)) e = true →
      e ∈ knownEdges nodeIds edges := by
    intro e he hknown
    exact List.mem_filter.mpr ⟨he, by rw [hids, isKnownEdge_setOf]; exact hknown⟩
  have hall : ∀ v ∈ nodeIds, v ∈ s.sorted := fun v hv =>
    all_sorted hinv hqueue (fun e he => by
      obtain ⟨he, hknown⟩ := List.mem_filter.mp he
      exact hrank e he (by rw [← isKnownEdge_setOf]; exact hknown)) _ v hv rfl
  have hmem : ∀ v, v ∈ s.sorted ↔ v ∈ nodeIds :=
    fun v => ⟨fun hv => hinv.known v (by simp [hv]), hall v⟩
  have hlen : s.sorted.length = nodeIds.length :=
    ((List.perm_ext_iff_of_nodup hnodup (nodup_setOf _)).mpr hmem).length_eq
  refine ⟨s.sorted, ?_, hnodup, fun v => by rw [hmem, hids, mem_setOf], ?_⟩
  · simp only [topologicalSort, topologicalSortWith, ← hids, ← hs]
    rw [if_neg (by simpa using hlen)]
  · intro e he hknown
    have htarget : e.targetNodeId ∈ s.sorted ++ s.queue := by
      have := hknown
      simp only [isKnownEdge, Bool.and_eq_true, decide_eq_true_eq] at this
      rw [hqueue, List.append_nil]
      exact hall _ (by rw [hids, mem_setOf]; exact this.2)
    have hsub := hinv.ordered e (hmemKnown e he hknown) htarget
    rw [hqueue, List.append_nil] at hsub
    exact idxOf_lt_of_pair_sublist hnodup hsub

/-! ## 4. Scheduling any graph: back-edges out, then sort -/

/-- **Every graph can be scheduled.**  Both loops end within their budgets; the sort of the
forward edges returns every node id once, with forward edges pointing strictly later and
back-edges never pointing later; and the two edge lists split the input in its own order. -/
theorem topologicalSort_identifyBackEdges (nodes : List (GraphNode Id))
    (edges : List (GraphEdge Id)) :
    let result := identifyBackEdges nodes edges
    let nodeIds := nodes.map (·.id)
    (∀ fuel, dfsFuel (setOf nodeIds) edges ≤ fuel →
      identifyBackEdgesWith fuel nodes edges = result) ∧
    (∀ fuel, (setOf nodeIds).length ≤ fuel →
      topologicalSortWith fuel nodes result.forwardEdges =
        topologicalSort nodes result.forwardEdges) ∧
    (∃ sorted, topologicalSort nodes result.forwardEdges = .ok sorted ∧ sorted.Nodup ∧
      (∀ v, v ∈ sorted ↔ v ∈ nodeIds) ∧
      (∀ e ∈ result.forwardEdges, e.sourceNodeId ∈ nodeIds → e.targetNodeId ∈ nodeIds →
        sorted.idxOf e.sourceNodeId < sorted.idxOf e.targetNodeId) ∧
      (∀ e ∈ result.backEdges, e.sourceNodeId ∈ nodeIds ∧ e.targetNodeId ∈ nodeIds ∧
        sorted.idxOf e.targetNodeId ≤ sorted.idxOf e.sourceNodeId)) ∧
    ∃ isBack : Nat → Bool,
      result.forwardEdges = (edges.zipIdx.filter fun r => !isBack r.2).map (·.1) ∧
      result.backEdges = (edges.zipIdx.filter fun r => isBack r.2).map (·.1) := by
  intro result nodeIds
  refine ⟨fun fuel hfuel => identifyBackEdgesWith_eq nodes edges hfuel,
    fun fuel hfuel => topologicalSortWith_eq nodes _ hfuel, ?_,
    identifyBackEdges_partition nodes edges⟩
  obtain ⟨rank, hrank⟩ := forwardEdges_ranked nodes edges
  obtain ⟨sorted, hsort, hnodup, hmem, hlt⟩ := topologicalSort_of_ranked nodes _ hrank
  refine ⟨sorted, hsort, hnodup, hmem, ?_, ?_⟩
  · intro e he hs ht
    refine hlt e he ?_
    simp only [isKnownEdge, Bool.and_eq_true, decide_eq_true_eq]
    exact ⟨hs, ht⟩
  · intro e he
    obtain ⟨hknown, hpath⟩ := backEdges_close_path nodes edges he
    have hends := hknown
    simp only [isKnownEdge, Bool.and_eq_true, decide_eq_true_eq] at hends
    have hstep : ∀ a b, EdgeStep nodeIds result.forwardEdges a b →
        sorted.idxOf a < sorted.idxOf b := by
      rintro a b ⟨f, hf, hfknown, rfl, rfl⟩
      exact hlt f hf hfknown
    exact ⟨hends.1, hends.2, rank_le_of_path (fun v => sorted.idxOf v) hstep hpath⟩

end Clemvion.Graph
