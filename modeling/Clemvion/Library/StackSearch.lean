import Mathlib.Data.List.Nodup
import Mathlib.Algebra.Order.BigOperators.Group.List
import Mathlib.Algebra.Order.Ring.Nat
import Clemvion.Library.Loop

/-!
# StackSearch — is a vertex reachable?

A depth-first search with an explicit stack and a visited list.  It ends on every finite graph,
and its answer is reachability.  The last section has the rule for which such a search is usually
run: an edge whose end does not lead back to its start closes no cycle.
-/

set_option linter.unusedSectionVars false

namespace Clemvion.Library

variable {α : Type} [DecidableEq α]

/-- The top of the stack is the head of the list. -/
structure SearchState (α : Type) where
  stack : List α
  visited : List α

/-- One pass: pop a vertex; if it is new, push its successors one after the other. -/
def searchStep (next : α → List α) (goal : α) (s : SearchState α) :
    SearchState α × Option Bool :=
  match s.stack with
  | [] => (s, some false)
  | cur :: rest =>
    if cur = goal then (s, some true)
    else if cur ∈ s.visited then ({ s with stack := rest }, none)
    else ({ stack := (next cur).reverse ++ rest, visited := cur :: s.visited }, none)

/-- Pushes still to come from the vertices that are not visited yet. -/
def pushesLeft (next : α → List α) (vertices visited : List α) : Nat :=
  ((vertices.filter fun v => v ∉ visited).map fun v => (next v).length).sum

/-- Is `goal` reachable from `start`?  `vertices` lists the vertices that have successors. -/
def search (next : α → List α) (vertices : List α) (start goal : α) : Bool :=
  (runLoop (searchStep next goal) (pushesLeft next vertices [] + 2) ⟨[start], []⟩).2 = some true

variable {next : α → List α} {vertices : List α} {start goal : α} {s t : SearchState α}

/-! ## 1. The search ends -/

theorem pushesLeft_cons_le (next : α → List α) (vertices : List α) (v : α) (visited : List α) :
    pushesLeft next vertices (v :: visited) ≤ pushesLeft next vertices visited := by
  unfold pushesLeft
  apply List.Sublist.sum_le_sum
  · apply List.Sublist.map
    apply List.monotone_filter_right
    intro u hu
    simp only [List.mem_cons, not_or, decide_eq_true_eq] at hu ⊢
    exact hu.2
  · intro n _
    exact Nat.zero_le n

/-- Visiting a vertex spends its pushes. -/
theorem pushesLeft_cons (next : α → List α) (hnodup : vertices.Nodup) {v : α} {visited : List α} (hv : v ∉ visited)
    (hmem : v ∈ vertices) :
    pushesLeft next vertices (v :: visited) + (next v).length ≤
      pushesLeft next vertices visited := by
  induction vertices with
  | nil => cases hmem
  | cons u us ih =>
    obtain ⟨hu, hus⟩ := List.nodup_cons.mp hnodup
    rcases List.mem_cons.mp hmem with rfl | hmem
    · have hle := pushesLeft_cons_le next us v visited
      unfold pushesLeft at hle ⊢
      rw [List.filter_cons_of_neg (by simp), List.filter_cons_of_pos (by simpa using hv)]
      simp only [List.map_cons, List.sum_cons]
      omega
    · have hne : u ≠ v := fun heq => hu (heq ▸ hmem)
      have hrest := ih hus hmem
      unfold pushesLeft at hrest ⊢
      by_cases huv : u ∈ visited
      · rw [List.filter_cons_of_neg (by simp [huv]), List.filter_cons_of_neg (by simp [huv])]
        exact hrest
      · rw [List.filter_cons_of_pos (by simp [huv, hne]), List.filter_cons_of_pos (by simp [huv])]
        simp only [List.map_cons, List.sum_cons]
        omega

/-! ## 2. The invariant -/

/-- Everything seen is reachable; a visited vertex is not the goal, and its successors are
seen. -/
structure SearchInv (next : α → List α) (start goal : α) (s : SearchState α) : Prop where
  reachable : ∀ v, v ∈ s.stack ∨ v ∈ s.visited →
    Relation.ReflTransGen (fun a b => b ∈ next a) start v
  started : start ∈ s.stack ∨ start ∈ s.visited
  missed : goal ∉ s.visited
  closed : ∀ v ∈ s.visited, ∀ w ∈ next v, w ∈ s.stack ∨ w ∈ s.visited

theorem searchInv_init : SearchInv next start goal ⟨[start], []⟩ := by
  refine ⟨?_, ?_, ?_, ?_⟩
  · intro v hv
    obtain rfl : v = start := by simpa using hv
    exact .refl
  · exact .inl List.mem_cons_self
  · exact List.not_mem_nil
  · intro v hv
    cases hv

/-- **One pass** that goes round again keeps the invariant and lowers the rank. -/
theorem searchStep_inv (hnodup : vertices.Nodup) (hvertices : ∀ v, v ∉ vertices → next v = [])
    (h : SearchInv next start goal s) (hstep : searchStep next goal s = (t, none)) :
    SearchInv next start goal t ∧
      t.stack.length + pushesLeft next vertices t.visited <
        s.stack.length + pushesLeft next vertices s.visited := by
  unfold searchStep at hstep
  cases hstack : s.stack with
  | nil => simp [hstack] at hstep
  | cons cur rest =>
    simp only [hstack] at hstep
    by_cases hgoal : cur = goal
    · simp [hgoal] at hstep
    · rw [if_neg hgoal] at hstep
      have hold : ∀ v, v ∈ s.stack ↔ v = cur ∨ v ∈ rest := by
        intro v
        rw [hstack]
        exact List.mem_cons
      by_cases hvisited : cur ∈ s.visited
      · rw [if_pos hvisited] at hstep
        obtain rfl : { s with stack := rest } = t := by simpa using hstep
        refine ⟨⟨?_, ?_, h.missed, ?_⟩, ?_⟩
        · rintro v (hv | hv)
          · exact h.reachable v (.inl ((hold v).mpr (.inr hv)))
          · exact h.reachable v (.inr hv)
        · rcases h.started with hstart | hstart
          · rcases (hold start).mp hstart with rfl | hstart
            · exact .inr hvisited
            · exact .inl hstart
          · exact .inr hstart
        · intro v hv w hw
          rcases h.closed v hv w hw with hseen | hseen
          · rcases (hold w).mp hseen with rfl | hseen
            · exact .inr hvisited
            · exact .inl hseen
          · exact .inr hseen
        · simp
      · rw [if_neg hvisited] at hstep
        obtain rfl : { stack := (next cur).reverse ++ rest, visited := cur :: s.visited } = t := by
          simpa using hstep
        have hcur := h.reachable cur (.inl ((hold cur).mpr (.inl rfl)))
        refine ⟨⟨?_, ?_, ?_, ?_⟩, ?_⟩
        · intro v hv
          simp only [List.mem_append, List.mem_reverse, List.mem_cons] at hv
          rcases hv with (hv | hv) | rfl | hv
          · exact hcur.tail hv
          · exact h.reachable v (.inl ((hold v).mpr (.inr hv)))
          · exact hcur
          · exact h.reachable v (.inr hv)
        · rcases h.started with hstart | hstart
          · rcases (hold start).mp hstart with rfl | hstart
            · exact .inr List.mem_cons_self
            · exact .inl (List.mem_append_right _ hstart)
          · exact .inr (List.mem_cons_of_mem _ hstart)
        · intro hmem
          rcases List.mem_cons.mp hmem with rfl | hmem
          · exact hgoal rfl
          · exact h.missed hmem
        · intro v hv w hw
          rcases List.mem_cons.mp hv with rfl | hv
          · exact .inl (List.mem_append_left _ (List.mem_reverse.mpr hw))
          · rcases h.closed v hv w hw with hseen | hseen
            · rcases (hold w).mp hseen with rfl | hseen
              · exact .inr List.mem_cons_self
              · exact .inl (List.mem_append_right _ hseen)
            · exact .inr (List.mem_cons_of_mem _ hseen)
        · simp only [List.length_append, List.length_reverse, List.length_cons]
          by_cases hmem : cur ∈ vertices
          · have hspent := pushesLeft_cons next hnodup hvisited hmem
            omega
          · have hle := pushesLeft_cons_le next vertices cur s.visited
            rw [hvertices cur hmem]
            simp only [List.length_nil]
            omega

/-- With an empty stack the visited vertices are closed under successors. -/
theorem SearchInv.not_reachable (h : SearchInv next start goal s) (hstack : s.stack = []) :
    ¬ Relation.ReflTransGen (fun a b => b ∈ next a) start goal := by
  intro hpath
  have hvisited : ∀ v, v ∈ s.stack ∨ v ∈ s.visited → v ∈ s.visited := by
    rintro v (hv | hv)
    · rw [hstack] at hv
      cases hv
    · exact hv
  have hseen : ∀ v, Relation.ReflTransGen (fun a b => b ∈ next a) start v → v ∈ s.visited := by
    intro v hv
    induction hv with
    | refl => exact hvisited _ h.started
    | tail _ hstep ih => exact hvisited _ (h.closed _ ih _ hstep)
  exact h.missed (hseen goal hpath)

/-! ## 3. The answer -/

/-- **The search decides reachability.** -/
theorem search_eq_true_iff (hnodup : vertices.Nodup)
    (hvertices : ∀ v, v ∉ vertices → next v = []) :
    search next vertices start goal = true ↔
      Relation.ReflTransGen (fun a b => b ∈ next a) start goal := by
  obtain ⟨t, u, e, -, hinv, hend, hrun⟩ := runLoop_of_rank
    (fun s : SearchState α => s.stack.length + pushesLeft next vertices s.visited)
    (fun s t hs hst => searchStep_inv hnodup hvertices hs hst)
    (pushesLeft next vertices [] + 2) ⟨[start], []⟩ searchInv_init
    (by simp only [List.length_singleton]; omega)
  have hanswer : search next vertices start goal = e := by
    unfold search
    rw [hrun]
    cases e <;> rfl
  rw [hanswer]
  unfold searchStep at hend
  cases hstack : t.stack with
  | nil =>
    simp only [hstack] at hend
    obtain rfl : false = e := by simpa using (Prod.mk.inj hend).2
    constructor
    · intro h
      cases h
    · intro hpath
      exact absurd hpath (hinv.not_reachable hstack)
  | cons cur rest =>
    simp only [hstack] at hend
    by_cases hgoal : cur = goal
    · rw [if_pos hgoal] at hend
      obtain rfl : true = e := by simpa using (Prod.mk.inj hend).2
      constructor
      · intro _
        rw [← hgoal]
        exact hinv.reachable cur (.inl (hstack ▸ List.mem_cons_self))
      · intro _
        rfl
    · rw [if_neg hgoal] at hend
      split at hend <;> cases (Prod.mk.inj hend).2

/-! ## 4. Edges that close no cycle -/

/-- A path over one more edge uses it not at all, or goes to its start and on from its end. -/
private theorem path_insert {r : α → α → Prop} {a b v w : α}
    (hback : ¬ Relation.ReflTransGen r b a)
    (h : Relation.ReflTransGen (fun x y => r x y ∨ x = a ∧ y = b) v w) :
    Relation.ReflTransGen r v w ∨
      Relation.ReflTransGen r v a ∧ Relation.ReflTransGen r b w := by
  induction h with
  | refl => exact .inl .refl
  | @tail x y _ hstep ih =>
    rcases ih with hx | ⟨hva, hbx⟩
    · rcases hstep with hr | ⟨rfl, rfl⟩
      · exact .inl (hx.tail hr)
      · exact .inr ⟨hx, .refl⟩
    · rcases hstep with hr | ⟨rfl, rfl⟩
      · exact .inr ⟨hva, hbx.tail hr⟩
      · exact absurd hbx hback

/-- **An edge whose end does not lead back to its start** closes no cycle. -/
theorem acyclic_insert {r : α → α → Prop} {a b : α} (hacyclic : ∀ v, ¬ Relation.TransGen r v v)
    (hback : ¬ Relation.ReflTransGen r b a) :
    ∀ v, ¬ Relation.TransGen (fun x y => r x y ∨ x = a ∧ y = b) v v := by
  intro v hcycle
  obtain ⟨w, hfirst, hrest⟩ := Relation.TransGen.head'_iff.mp hcycle
  have hpath := path_insert hback hrest
  rcases hfirst with hr | ⟨rfl, rfl⟩
  · rcases hpath with hwv | ⟨hwa, hbv⟩
    · exact hacyclic v (Relation.TransGen.head' hr hwv)
    · exact hback ((hbv.tail hr).trans hwa)
  · rcases hpath with hwv | ⟨-, hwv⟩
    · exact hback hwv
    · exact hback hwv

/-- Fewer edges, no new cycle. -/
theorem acyclic_mono {r r' : α → α → Prop} (hsub : ∀ a b, r' a b → r a b)
    (hacyclic : ∀ v, ¬ Relation.TransGen r v v) : ∀ v, ¬ Relation.TransGen r' v v :=
  fun v hcycle => hacyclic v (Relation.TransGen.mono (fun a b => hsub a b) v v hcycle)

end Clemvion.Library
