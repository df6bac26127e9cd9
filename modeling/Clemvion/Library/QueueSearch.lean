import Clemvion.Library.StackSearch
import Clemvion.Library.While

/-!
# QueueSearch — everything that is reachable, in breadth-first order

A search with a queue and the list of what was reached.  A vertex may wait in the queue more than
once; it is reached once.  On every finite graph the search ends, and it reaches exactly what a path
leads to.
-/

set_option linter.unusedSectionVars false

namespace Clemvion.Library

variable {α : Type} [DecidableEq α]

structure QueueState (α : Type) where
  queue : List α
  reached : List α

def queueNonempty (s : QueueState α) : Bool := !s.queue.isEmpty

/-- One pass: take the front vertex; if it is new, append its successors that are not reached. -/
def queueStep (next : α → List α) (s : QueueState α) : QueueState α :=
  match s.queue with
  | [] => s
  | cur :: rest =>
    if cur ∈ s.reached then { s with queue := rest }
    else
      let reached := s.reached ++ [cur]
      { queue := rest ++ (next cur).filter (· ∉ reached), reached }

/-- What is reachable from the starts.  `vertices` lists the vertices that have successors. -/
def collect (next : α → List α) (vertices starts : List α) : List α :=
  (whileLoop queueNonempty (queueStep next) (starts.length + pushesLeft next vertices [])
    ⟨starts, []⟩).reached

variable {next : α → List α} {vertices starts : List α} {s : QueueState α}

/-! ## 1. One pass -/

/-- What is seen comes from a start, and the successors of what is reached are seen. -/
structure QueueInv (next : α → List α) (starts : List α) (s : QueueState α) : Prop where
  reachable : ∀ v, v ∈ s.queue ∨ v ∈ s.reached →
    ∃ start ∈ starts, Relation.ReflTransGen (fun a b => b ∈ next a) start v
  started : ∀ v ∈ starts, v ∈ s.queue ∨ v ∈ s.reached
  closed : ∀ v ∈ s.reached, ∀ w ∈ next v, w ∈ s.queue ∨ w ∈ s.reached
  nodup : s.reached.Nodup

theorem queueInv_init : QueueInv next starts ⟨starts, []⟩ := by
  refine ⟨?_, fun v hv => .inl hv, ?_, List.nodup_nil⟩
  · rintro v (hv | hv)
    · exact ⟨v, hv, .refl⟩
    · exact absurd hv List.not_mem_nil
  · intro v hv
    exact absurd hv List.not_mem_nil

theorem pushesLeft_append_singleton (next : α → List α) (vertices reached : List α) (v : α) :
    pushesLeft next vertices (reached ++ [v]) = pushesLeft next vertices (v :: reached) := by
  have hfilter : vertices.filter (fun u => u ∉ reached ++ [v]) =
      vertices.filter fun u => u ∉ v :: reached := by
    refine List.filter_congr fun u _ => ?_
    simp [or_comm]
  unfold pushesLeft
  rw [hfilter]

/-- What waits and what may still be appended. -/
def queueRank (next : α → List α) (vertices : List α) (s : QueueState α) : Nat :=
  s.queue.length + pushesLeft next vertices s.reached

theorem queueStep_inv (hnodup : vertices.Nodup) (hvertices : ∀ v, v ∉ vertices → next v = [])
    (h : QueueInv next starts s) (hcond : queueNonempty s = true) :
    QueueInv next starts (queueStep next s) ∧
      queueRank next vertices (queueStep next s) < queueRank next vertices s := by
  obtain ⟨cur, rest, hqueue⟩ : ∃ cur rest, s.queue = cur :: rest := by
    cases hq : s.queue with
    | nil => simp [queueNonempty, hq] at hcond
    | cons cur rest => exact ⟨cur, rest, rfl⟩
  have hold : ∀ v, v ∈ s.queue ↔ v = cur ∨ v ∈ rest := by
    intro v
    rw [hqueue]
    exact List.mem_cons
  by_cases hreached : cur ∈ s.reached
  · have hstep : queueStep next s = { s with queue := rest } := by
      simp only [queueStep, hqueue, if_pos hreached]
    have hseen : ∀ v, v ∈ s.queue ∨ v ∈ s.reached → v ∈ rest ∨ v ∈ s.reached := by
      rintro v (hv | hv)
      · rcases (hold v).mp hv with rfl | hv
        · exact .inr hreached
        · exact .inl hv
      · exact .inr hv
    rw [hstep]
    refine ⟨⟨?_, fun v hv => hseen v (h.started v hv), ?_, h.nodup⟩, ?_⟩
    · rintro v (hv | hv)
      · exact h.reachable v (.inl ((hold v).mpr (.inr hv)))
      · exact h.reachable v (.inr hv)
    · exact fun v hv w hw => hseen w (h.closed v hv w hw)
    · show rest.length + pushesLeft next vertices s.reached <
        s.queue.length + pushesLeft next vertices s.reached
      rw [hqueue, List.length_cons]
      omega
  · have hstep : queueStep next s =
        { queue := rest ++ (next cur).filter (· ∉ s.reached ++ [cur]), reached := s.reached ++ [cur] } := by
      simp only [queueStep, hqueue, if_neg hreached]
    have hcur := h.reachable cur (.inl ((hold cur).mpr (.inl rfl)))
    have hseen : ∀ v, v ∈ s.queue ∨ v ∈ s.reached →
        v ∈ (queueStep next s).queue ∨ v ∈ (queueStep next s).reached := by
      rw [hstep]
      rintro v (hv | hv)
      · rcases (hold v).mp hv with rfl | hv
        · exact .inr (by simp)
        · exact .inl (List.mem_append_left _ hv)
      · exact .inr (List.mem_append_left _ hv)
    refine ⟨⟨?_, fun v hv => hseen v (h.started v hv), ?_, ?_⟩, ?_⟩
    · rw [hstep]
      rintro v (hv | hv)
      · rcases List.mem_append.mp hv with hv | hv
        · exact h.reachable v (.inl ((hold v).mpr (.inr hv)))
        · obtain ⟨start, hstart, hpath⟩ := hcur
          exact ⟨start, hstart, hpath.tail (List.mem_filter.mp hv).1⟩
      · rcases List.mem_append.mp hv with hv | hv
        · exact h.reachable v (.inr hv)
        · rw [List.mem_singleton.mp hv]
          exact hcur
    · intro v hv w hw
      have hv' : v ∈ s.reached ++ [cur] := by rwa [hstep] at hv
      rcases List.mem_append.mp hv' with hv' | hv'
      · exact hseen w (h.closed v hv' w hw)
      · obtain rfl := List.mem_singleton.mp hv'
        rw [hstep]
        by_cases hnew : w ∈ s.reached ++ [v]
        · exact .inr hnew
        · exact .inl (List.mem_append_right _ (List.mem_filter.mpr ⟨hw, by simpa using hnew⟩))
    · rw [hstep]
      refine List.Nodup.append h.nodup (List.nodup_singleton _) ?_
      rw [List.disjoint_singleton]
      exact hreached
    · rw [hstep]
      unfold queueRank
      rw [hqueue, List.length_cons, List.length_append, pushesLeft_append_singleton]
      have hspent : (next cur).length + pushesLeft next vertices (cur :: s.reached) ≤
          pushesLeft next vertices s.reached := by
        by_cases hmem : cur ∈ vertices
        · rw [Nat.add_comm]
          exact pushesLeft_cons next hnodup hreached hmem
        · rw [hvertices cur hmem, List.length_nil, Nat.zero_add]
          exact pushesLeft_cons_le next vertices cur s.reached
      -- not more is appended than there are successors
      refine Nat.lt_of_le_of_lt (Nat.add_le_add_right
        (Nat.add_le_add_left (List.length_filter_le _ _) _) _) ?_
      omega

/-! ## 2. The whole search -/

theorem collect_spec (hnodup : vertices.Nodup) (hvertices : ∀ v, v ∉ vertices → next v = []) :
    QueueInv next starts ⟨[], collect next vertices starts⟩ := by
  obtain ⟨⟨k, hinv, -⟩, hend⟩ := whileLoop_spec
    (fun n s => QueueInv next starts s ∧ queueRank next vertices s ≤ n)
    (fun n s hs hcond => by
      obtain ⟨hinv, hrank⟩ := queueStep_inv hnodup hvertices hs.1 hcond
      exact ⟨_, Nat.lt_of_lt_of_le hrank hs.2, hinv, Nat.le_refl _⟩)
    (starts.length + pushesLeft next vertices []) _ ⟨starts, []⟩ ⟨queueInv_init, Nat.le_refl _⟩
    (Nat.le_refl _)
  unfold collect
  generalize whileLoop queueNonempty (queueStep next) (starts.length + pushesLeft next vertices [])
    ⟨starts, []⟩ = last at hinv hend
  obtain ⟨queue, reached⟩ := last
  obtain rfl : queue = [] := by simpa [queueNonempty] using hend
  exact hinv

/-- **The search collects what is reachable.** -/
theorem mem_collect_iff (hnodup : vertices.Nodup) (hvertices : ∀ v, v ∉ vertices → next v = [])
    {v : α} : v ∈ collect next vertices starts ↔
      ∃ start ∈ starts, Relation.ReflTransGen (fun a b => b ∈ next a) start v := by
  have hinv : QueueInv next starts ⟨[], collect next vertices starts⟩ :=
    collect_spec hnodup hvertices
  have hreached : ∀ w, w ∈ [] ∨ w ∈ collect next vertices starts →
      w ∈ collect next vertices starts := fun w hw => hw.resolve_left List.not_mem_nil
  refine ⟨fun hv => hinv.reachable v (.inr hv), ?_⟩
  rintro ⟨start, hstart, hpath⟩
  induction hpath with
  | refl => exact hreached start (hinv.started start hstart)
  | tail _ hstep ih => exact hreached _ (hinv.closed _ ih _ hstep)

theorem nodup_collect (hnodup : vertices.Nodup) (hvertices : ∀ v, v ∉ vertices → next v = []) :
    (collect next vertices starts).Nodup := (collect_spec hnodup hvertices).nodup

end Clemvion.Library
