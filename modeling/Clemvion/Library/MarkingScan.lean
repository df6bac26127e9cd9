import Mathlib.Data.Finset.Basic

/-!
# MarkingScan — one pass over a list with a growing set of marks

A scan visits, left to right, the members of a list that are marked when their turn comes; a
visited member marks others, and some members stop the scan.  The set of marks that a scan
starts from is a piece of state that may be lost and rebuilt; `scan_eq_iff` says exactly when two
starting sets give the same visits, in terms of what they carry along the marks.
-/

set_option linter.unusedSectionVars false

namespace Clemvion.Library

variable {α : Type*} [DecidableEq α] (marks : α → Finset α) (stops : α → Bool)

/-- The members visited, in order, starting from the marks `marked`. -/
def scan : List α → Finset α → List α
  | [], _ => []
  | v :: vs, marked =>
    if v ∈ marked then v :: if stops v then [] else scan vs (marked ∪ marks v)
    else scan vs marked

/-- `v` is marked from the start, or by a carried member before it. -/
inductive Carried (l : List α) (marked : Finset α) : α → Prop
  | start {v : α} (hv : v ∈ l) (hmark : v ∈ marked) : Carried l marked v
  | step {u v : α} (hu : Carried l marked u) (hmark : v ∈ marks u) (horder : [u, v].Sublist l) :
      Carried l marked v

/-- `v` is carried, or a carried member before it stops the scan. -/
def CarriedOrStopped (l : List α) (marked : Finset α) (v : α) : Prop :=
  Carried marks l marked v ∨ ∃ s, stops s = true ∧ Carried marks l marked s ∧ [s, v].Sublist l

variable {marks stops} {l : List α} {marked marked' : Finset α}

/-! ## 1. The visits are the carried members up to the first stop -/

private theorem Carried.cons {x v : α} (hmarked : marked ⊆ marked')
    (h : Carried marks l marked v) : Carried marks (x :: l) marked' v := by
  induction h with
  | start hv hmark => exact .start (List.mem_cons_of_mem _ hv) (hmarked hmark)
  | step _ hmark horder ih => exact .step ih hmark (horder.cons _)

/-- Marks set by the head of the list are carried by the head. -/
private theorem Carried.cons_marks {x v : α} (hx : x ∈ marked)
    (h : Carried marks l (marked ∪ marks x) v) : Carried marks (x :: l) marked v := by
  induction h with
  | @start v hv hmark =>
    rcases Finset.mem_union.mp hmark with hold | hnew
    · exact .start (List.mem_cons_of_mem _ hv) hold
    · apply Carried.step (.start List.mem_cons_self hx) hnew
      exact List.Sublist.cons_cons _ (List.singleton_sublist.mpr hv)
  | step _ hmark horder ih => exact .step ih hmark (horder.cons _)

theorem carried_of_mem_scan {v : α} (hv : v ∈ scan marks stops l marked) :
    Carried marks l marked v := by
  induction l generalizing marked with
  | nil => simp [scan] at hv
  | cons x xs ih =>
    unfold scan at hv
    by_cases hx : x ∈ marked
    · rw [if_pos hx] at hv
      rcases List.mem_cons.mp hv with rfl | hv
      · exact .start List.mem_cons_self hx
      · cases hstop : stops x with
        | true => simp [hstop] at hv
        | false =>
          simp only [hstop] at hv
          exact (ih hv).cons_marks hx
    · rw [if_neg hx] at hv
      exact (ih hv).cons (Finset.Subset.refl _)

private theorem mem_of_mem_scan {v : α} (hv : v ∈ scan marks stops l marked) : v ∈ l := by
  cases carried_of_mem_scan hv with
  | start hmem _ => exact hmem
  | step _ _ horder => exact horder.subset (by simp)

/-- `v` is visited, or the scan stopped before it. -/
private def Passed (marks : α → Finset α) (stops : α → Bool) (l : List α) (marked : Finset α)
    (v : α) : Prop :=
  v ∈ scan marks stops l marked ∨
    ∃ s, stops s = true ∧ s ∈ scan marks stops l marked ∧ [s, v].Sublist l

private theorem Passed.cons_visit {x v : α} (hx : x ∈ marked) (hgo : stops x = false)
    (h : Passed marks stops l (marked ∪ marks x) v) : Passed marks stops (x :: l) marked v := by
  have hscan : scan marks stops (x :: l) marked = x :: scan marks stops l (marked ∪ marks x) := by
    rw [scan, if_pos hx, hgo]
    rfl
  rcases h with hv | ⟨s, hs, hmem, horder⟩
  · exact .inl (hscan ▸ List.mem_cons_of_mem _ hv)
  · exact .inr ⟨s, hs, hscan ▸ List.mem_cons_of_mem _ hmem, horder.cons _⟩

private theorem Passed.cons_skip {x v : α} (hx : x ∉ marked) (h : Passed marks stops l marked v) :
    Passed marks stops (x :: l) marked v := by
  have hscan : scan marks stops (x :: l) marked = scan marks stops l marked := by
    rw [scan, if_neg hx]
  rcases h with hv | ⟨s, hs, hmem, horder⟩
  · exact .inl (hscan ▸ hv)
  · exact .inr ⟨s, hs, hscan ▸ hmem, horder.cons _⟩

private theorem passed_of_stop {x v : α} (hx : x ∈ marked) (hstop : stops x = true) (hv : v ∈ l) :
    Passed marks stops (x :: l) marked v := by
  have hscan : x ∈ scan marks stops (x :: l) marked := by
    rw [scan, if_pos hx]
    exact List.mem_cons_self
  exact .inr ⟨x, hstop, hscan, List.Sublist.cons_cons _ (List.singleton_sublist.mpr hv)⟩

/-- A marked member of the list is passed. -/
private theorem passed_of_marked {v : α} (hv : v ∈ l) (hmark : v ∈ marked) :
    Passed marks stops l marked v := by
  induction l generalizing marked with
  | nil => cases hv
  | cons x xs ih =>
    by_cases hx : x ∈ marked
    · rcases List.mem_cons.mp hv with rfl | hv
      · refine .inl ?_
        rw [scan, if_pos hx]
        exact List.mem_cons_self
      · cases hstop : stops x with
        | true => exact passed_of_stop hx hstop hv
        | false => exact (ih hv (Finset.mem_union_left _ hmark)).cons_visit hx hstop
    · rcases List.mem_cons.mp hv with rfl | hv
      · exact absurd hmark hx
      · exact (ih hv hmark).cons_skip hx

/-- What a visited member marks further right is passed. -/
private theorem passed_of_visited {u v : α} (hu : u ∈ scan marks stops l marked)
    (hmark : v ∈ marks u) (hnodup : l.Nodup) (horder : [u, v].Sublist l) :
    Passed marks stops l marked v := by
  induction l generalizing marked with
  | nil => simp [scan] at hu
  | cons x xs ih =>
    obtain ⟨hxs, hnodup⟩ := List.nodup_cons.mp hnodup
    by_cases hx : x ∈ marked
    · cases horder with
      | cons_cons _ hmem =>
        -- the marking member is the head itself
        have hv : v ∈ xs := List.singleton_sublist.mp hmem
        cases hstop : stops u with
        | true => exact passed_of_stop hx hstop hv
        | false =>
          have hnew : v ∈ marked ∪ marks u := Finset.mem_union_right _ hmark
          exact (passed_of_marked hv hnew).cons_visit hx hstop
      | cons _ horder =>
        have hne : u ≠ x := fun heq => hxs (heq ▸ horder.subset List.mem_cons_self)
        have hv : v ∈ xs := horder.subset (by simp)
        cases hstop : stops x with
        | true => exact passed_of_stop hx hstop hv
        | false =>
          have hu' : u ∈ scan marks stops xs (marked ∪ marks x) := by
            rw [scan, if_pos hx, hstop] at hu
            exact (List.mem_cons.mp hu).resolve_left hne
          exact (ih hu' hnodup horder).cons_visit hx hstop
    · rw [scan, if_neg hx] at hu
      have hmem : u ∈ xs := mem_of_mem_scan hu
      cases horder with
      | cons_cons _ _ => exact absurd hmem hxs
      | cons _ horder => exact (ih hu hnodup horder).cons_skip hx

/-- In a list without repetition, coming before is transitive. -/
theorem pair_sublist_trans {a b c : α} (hnodup : l.Nodup) (hab : [a, b].Sublist l)
    (hbc : [b, c].Sublist l) : [a, c].Sublist l := by
  induction l with
  | nil => cases hab
  | cons x xs ih =>
    obtain ⟨hx, hxs⟩ := List.nodup_cons.mp hnodup
    cases hbc with
    | cons_cons _ hc =>
      -- `b` is the head, so nothing comes before it
      cases hab with
      | cons_cons _ h => exact absurd (h.subset (by simp)) hx
      | cons _ h => exact absurd (h.subset (by simp)) hx
    | cons _ hbc =>
      cases hab with
      | cons_cons _ _ =>
        exact List.Sublist.cons_cons _ (List.singleton_sublist.mpr (hbc.subset (by simp)))
      | cons _ hab => exact (ih hxs hab hbc).cons _

private theorem passed_of_carried (hnodup : l.Nodup) {v : α} (hv : Carried marks l marked v) :
    Passed marks stops l marked v := by
  induction hv with
  | start hv hmark => exact passed_of_marked hv hmark
  | @step u v _ hmark horder ih =>
    rcases ih with hu | ⟨s, hs, hmem, hsu⟩
    · exact passed_of_visited hu hmark hnodup horder
    · exact .inr ⟨s, hs, hmem, pair_sublist_trans hnodup hsu horder⟩

private theorem passed_iff (hnodup : l.Nodup) (v : α) :
    Passed marks stops l marked v ↔ CarriedOrStopped marks stops l marked v := by
  constructor
  · rintro (hv | ⟨s, hs, hmem, horder⟩)
    · exact .inl (carried_of_mem_scan hv)
    · exact .inr ⟨s, hs, carried_of_mem_scan hmem, horder⟩
  · rintro (hv | ⟨s, hs, hcarried, horder⟩)
    · exact passed_of_carried hnodup hv
    · have hpassed : Passed marks stops l marked s := passed_of_carried hnodup hcarried
      rcases hpassed with hmem | ⟨s', hs', hmem, hbefore⟩
      · exact .inr ⟨s, hs, hmem, horder⟩
      · exact .inr ⟨s', hs', hmem, pair_sublist_trans hnodup hbefore horder⟩

/-! ## 2. When two starting sets give the same visits -/

/-- An unmarked head is neither visited nor after a stop. -/
private theorem not_passed_head {x : α} (hnodup : (x :: l).Nodup) (hx : x ∉ marked) :
    ¬ Passed marks stops (x :: l) marked x := by
  obtain ⟨hxl, -⟩ := List.nodup_cons.mp hnodup
  rintro (hv | ⟨s, _, _, horder⟩)
  · rw [scan, if_neg hx] at hv
    exact hxl (mem_of_mem_scan hv)
  · cases horder with
    | cons _ h => exact hxl (h.subset (by simp))
    | cons_cons _ h => exact hxl (h.subset (by simp))

private theorem Passed.tail_visit {x v : α} (hnodup : (x :: l).Nodup) (hx : x ∈ marked)
    (hgo : stops x = false) (hv : v ∈ l) (h : Passed marks stops (x :: l) marked v) :
    Passed marks stops l (marked ∪ marks x) v := by
  obtain ⟨hxl, -⟩ := List.nodup_cons.mp hnodup
  have hscan : scan marks stops (x :: l) marked = x :: scan marks stops l (marked ∪ marks x) := by
    rw [scan, if_pos hx, hgo]
    rfl
  rcases h with hmem | ⟨s, hs, hmem, horder⟩
  · rw [hscan] at hmem
    exact .inl ((List.mem_cons.mp hmem).resolve_left fun heq => hxl (heq ▸ hv))
  · have hne : s ≠ x := by
      rintro rfl
      rw [hgo] at hs
      cases hs
    rw [hscan] at hmem
    refine .inr ⟨s, hs, (List.mem_cons.mp hmem).resolve_left hne, ?_⟩
    cases horder with
    | cons _ h => exact h
    | cons_cons _ _ => exact absurd rfl hne

private theorem Passed.tail_skip {x v : α} (hnodup : (x :: l).Nodup) (hx : x ∉ marked)
    (h : Passed marks stops (x :: l) marked v) : Passed marks stops l marked v := by
  obtain ⟨hxl, -⟩ := List.nodup_cons.mp hnodup
  have hscan : scan marks stops (x :: l) marked = scan marks stops l marked := by
    rw [scan, if_neg hx]
  rcases h with hmem | ⟨s, hs, hmem, horder⟩
  · exact .inl (hscan ▸ hmem)
  · rw [hscan] at hmem
    refine .inr ⟨s, hs, hmem, ?_⟩
    cases horder with
    | cons _ h => exact h
    | cons_cons _ _ => exact absurd (mem_of_mem_scan hmem) hxl

private theorem scan_eq_of_passed (hnodup : l.Nodup)
    (h : ∀ v ∈ l, v ∈ marked → Passed marks stops l marked' v)
    (h' : ∀ v ∈ l, v ∈ marked' → Passed marks stops l marked v) :
    scan marks stops l marked = scan marks stops l marked' := by
  induction l generalizing marked marked' with
  | nil => rfl
  | cons x xs ih =>
    obtain ⟨hxs, hnodup'⟩ := List.nodup_cons.mp hnodup
    by_cases hx : x ∈ marked
    · have hx' : x ∈ marked' := by
        by_contra hnot
        exact not_passed_head hnodup hnot (h x List.mem_cons_self hx)
      rw [scan, scan, if_pos hx, if_pos hx']
      cases hstop : stops x with
      | true => rfl
      | false =>
        have hrest : scan marks stops xs (marked ∪ marks x) =
            scan marks stops xs (marked' ∪ marks x) := by
          apply ih hnodup'
          · intro v hv hmark
            rcases Finset.mem_union.mp hmark with hold | hnew
            · exact (h v (List.mem_cons_of_mem _ hv) hold).tail_visit hnodup hx' hstop hv
            · exact passed_of_marked hv (Finset.mem_union_right _ hnew)
          · intro v hv hmark
            rcases Finset.mem_union.mp hmark with hold | hnew
            · exact (h' v (List.mem_cons_of_mem _ hv) hold).tail_visit hnodup hx hstop hv
            · exact passed_of_marked hv (Finset.mem_union_right _ hnew)
        rw [hrest]
    · have hx' : x ∉ marked' := by
        intro hmem
        exact not_passed_head hnodup hx (h' x List.mem_cons_self hmem)
      rw [scan, scan, if_neg hx, if_neg hx']
      apply ih hnodup'
      · intro v hv hmark
        exact (h v (List.mem_cons_of_mem _ hv) hmark).tail_skip hnodup hx'
      · intro v hv hmark
        exact (h' v (List.mem_cons_of_mem _ hv) hmark).tail_skip hnodup hx

/-- **Same visits.** Two starting sets give the same scan exactly when each carries, or stops
before, every member that the other one marks. -/
theorem scan_eq_iff (hnodup : l.Nodup) :
    scan marks stops l marked = scan marks stops l marked' ↔
      (∀ v ∈ l, v ∈ marked → CarriedOrStopped marks stops l marked' v) ∧
      ∀ v ∈ l, v ∈ marked' → CarriedOrStopped marks stops l marked v := by
  simp only [← passed_iff hnodup]
  constructor
  · intro heq
    refine ⟨?_, ?_⟩
    · intro v hv hmark
      have hpassed : Passed marks stops l marked v := passed_of_marked hv hmark
      rwa [Passed, heq] at hpassed
    · intro v hv hmark
      have hpassed : Passed marks stops l marked' v := passed_of_marked hv hmark
      rwa [Passed, ← heq] at hpassed
  · rintro ⟨h, h'⟩
    exact scan_eq_of_passed hnodup h h'

end Clemvion.Library
