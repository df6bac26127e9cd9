import Mathlib.Data.List.Chain
import Mathlib.Data.List.Perm.Subperm
import Mathlib.Data.List.TakeWhile
import Mathlib.Order.Basic

/-!
# FixedWindow — counting in windows that begin with the first tick

Ticks are counted one by one until the count starts again, which it may do a window's length after it
last did.  A window's length of time then touches two windows at most, so that of the ticks in it at
most twice the limit are within the limit, wherever it begins.
-/

namespace Clemvion.Library

/-- A moment, and the count that it gave. -/
abbrev Tick := Nat × Nat

variable {w limit t : Nat} {l l' before after : List Tick} {a b : Tick}

/-- How the counts of a key go on. -/
def Succeeds (a b : Tick) : Prop := a.1 ≤ b.1 ∧ (b.2 = a.2 + 1 ∨ b.2 = 1)

structure Counted (w : Nat) (l : List Tick) : Prop where
  chain : l.IsChain Succeeds
  positive : ∀ a ∈ l, 1 ≤ a.2
  starts : l.Pairwise fun a b => a.2 = 1 → b.2 = 1 → a.1 + w ≤ b.1

/-- The ticks that are within the limit. -/
def withinLimit (limit : Nat) (l : List Tick) : List Tick := l.filter fun a => a.2 ≤ limit

/-! ## 1. One window -/

theorem Counted.of_append (before : List Tick) (h : Counted w (before ++ after)) : Counted w before ∧ Counted w after :=
  ⟨⟨(List.isChain_append.mp h.chain).1, fun a ha => h.positive a (List.mem_append_left _ ha),
      (List.pairwise_append.mp h.starts).1⟩,
    ⟨(List.isChain_append.mp h.chain).2.1, fun a ha => h.positive a (List.mem_append_right _ ha),
      (List.pairwise_append.mp h.starts).2.1⟩⟩

/-- As long as it does not start again, the count grows. -/
theorem pairwise_count (h : Counted w (a :: l)) (hsteady : ∀ b ∈ l, b.2 ≠ 1) :
    (a :: l).Pairwise fun b c => b.2 < c.2 := by
  induction l generalizing a with
  | nil => exact List.pairwise_singleton _ _
  | cons b l ih =>
    have hrest : Counted w (b :: l) := (Counted.of_append [a] h).2
    have htail := ih hrest fun c hc => hsteady c (List.mem_cons_of_mem _ hc)
    have hstep : b.2 = a.2 + 1 := by
      have hfollows : Succeeds a b := (List.isChain_cons_cons.mp h.chain).1
      exact hfollows.2.resolve_right (hsteady b List.mem_cons_self)
    refine List.pairwise_cons.mpr ⟨fun c hc => ?_, htail⟩
    obtain rfl | hc := List.mem_cons.mp hc
    · omega
    · have := (List.pairwise_cons.mp htail).1 c hc
      omega

theorem withinLimit_steady (limit : Nat) (h : Counted w (a :: l)) (hsteady : ∀ b ∈ l, b.2 ≠ 1) :
    (withinLimit limit (a :: l)).length ≤ limit := by
  have hgrows := (pairwise_count h hsteady).sublist (List.filter_sublist (p := fun b => b.2 ≤ limit))
  have hnodup : ((withinLimit limit (a :: l)).map Prod.snd).Nodup := by
    rw [List.Nodup, List.pairwise_map]
    exact hgrows.imp fun hlt => Nat.ne_of_lt hlt
  have hsub : (withinLimit limit (a :: l)).map Prod.snd ⊆ List.range' 1 limit := by
    intro n hn
    obtain ⟨b, hb, rfl⟩ := List.mem_map.mp hn
    obtain ⟨hb, hle⟩ := List.mem_filter.mp hb
    rw [List.mem_range'_1]
    have hle : b.2 ≤ limit := of_decide_eq_true hle
    have := h.positive b hb
    omega
  calc (withinLimit limit (a :: l)).length
      = ((withinLimit limit (a :: l)).map Prod.snd).length := (List.length_map _).symm
    _ ≤ (List.range' 1 limit).length := (hnodup.subperm hsub).length_le
    _ = limit := List.length_range'

/-! ## 2. Any stretch of time -/

theorem withinLimit_short (h : Counted w l) (hshort : ∀ a ∈ l, t ≤ a.1 ∧ a.1 < t + w) :
    (withinLimit limit l).length ≤ 2 * limit := by
  cases l with
  | nil => exact Nat.zero_le _
  | cons a l =>
    by_cases hsteady : ∀ b ∈ l, b.2 ≠ 1
    · have := withinLimit_steady limit h hsteady
      omega
    · -- the count starts again at `b`, and nowhere else
      push Not at hsteady
      obtain ⟨b, hb, hone⟩ := hsteady
      obtain ⟨before, after, rfl⟩ := List.append_of_mem hb
      have hnear : ∀ c ∈ a :: before ++ b :: after, ∀ d ∈ a :: before ++ b :: after, ¬c.1 + w ≤ d.1 := by
        intro c hc d hd
        have := hshort c hc
        have := hshort d hd
        omega
      have hparts := Counted.of_append (a :: before) h
      have hbefore : ∀ c ∈ before, c.2 ≠ 1 := by
        intro c hc hc1
        have hpair := (List.pairwise_append.mp h.starts).2.2 c (List.mem_cons_of_mem _ hc) b
          List.mem_cons_self hc1 hone
        exact hnear c (List.mem_append_left _ (List.mem_cons_of_mem _ hc)) b
          (List.mem_append_right _ List.mem_cons_self) hpair
      have hafter : ∀ c ∈ after, c.2 ≠ 1 := by
        intro c hc hc1
        have hpair := (List.pairwise_cons.mp hparts.2.starts).1 c hc hone hc1
        exact hnear b (List.mem_append_right _ List.mem_cons_self) c
          (List.mem_append_right _ (List.mem_cons_of_mem _ hc)) hpair
      have hleft := withinLimit_steady limit hparts.1 hbefore
      have hright := withinLimit_steady limit hparts.2 hafter
      have hsplit : withinLimit limit (a :: (before ++ b :: after)) =
          withinLimit limit (a :: before) ++ withinLimit limit (b :: after) :=
        List.filter_append (a :: before) (b :: after)
      rw [hsplit, List.length_append]
      omega

theorem Counted.sorted (h : Counted w l) : l.Pairwise fun a b => a.1 ≤ b.1 := by
  have hchain : l.IsChain fun a b => a.1 ≤ b.1 := h.chain.imp fun _ _ hfollows => hfollows.1
  have : IsTrans Tick fun a b => a.1 ≤ b.1 := ⟨fun _ _ _ hab hbc => hab.trans hbc⟩
  exact hchain.pairwise

theorem le_of_mem_dropWhile (h : l.Pairwise fun a b => a.1 ≤ b.1) :
    ∀ a ∈ l.dropWhile fun a => a.1 < t, t ≤ a.1 := by
  induction l with
  | nil => exact fun a ha => nomatch ha
  | cons b l ih =>
    obtain ⟨hb, hl⟩ := List.pairwise_cons.mp h
    rw [List.dropWhile_cons]
    split_ifs with hlt
    · exact ih hl
    · rw [decide_eq_true_eq] at hlt
      intro a ha
      obtain rfl | ha := List.mem_cons.mp ha
      · omega
      · have := hb a ha
        omega

theorem lt_of_mem_takeWhile : ∀ a ∈ l.takeWhile fun a => a.1 < t, a.1 < t := by
  intro a ha
  have := List.mem_takeWhile_imp ha
  exact of_decide_eq_true this

/-- Within a window's length of time, wherever it begins, twice the limit is the most. -/
theorem Counted.withinLimit_le (h : Counted w l) (limit t : Nat) :
    ((withinLimit limit l).filter fun a => t ≤ a.1 ∧ a.1 < t + w).length ≤ 2 * limit := by
  -- the ticks before, during and after
  let before := l.takeWhile fun a => a.1 < t
  let late := l.dropWhile fun a => a.1 < t
  let during := late.takeWhile fun a => a.1 < t + w
  let after := late.dropWhile fun a => a.1 < t + w
  have hl : before ++ late = l := List.takeWhile_append_dropWhile
  have hlate : during ++ after = late := List.takeWhile_append_dropWhile
  have hlateCounted : Counted w (during ++ after) := hlate ▸ (Counted.of_append before (hl.symm ▸ h)).2
  have hduring : Counted w during := (Counted.of_append during hlateCounted).1
  have hbefore : ∀ a ∈ before, a.1 < t := lt_of_mem_takeWhile
  have hlater : ∀ a ∈ late, t ≤ a.1 := le_of_mem_dropWhile h.sorted
  have hafter : ∀ a ∈ after, t + w ≤ a.1 := le_of_mem_dropWhile (hlate ▸ hlateCounted.sorted)
  have hspan : ∀ a ∈ during, t ≤ a.1 ∧ a.1 < t + w := fun a ha =>
    ⟨hlater a (hlate ▸ List.mem_append_left _ ha), lt_of_mem_takeWhile a ha⟩
  have hwhole : (withinLimit limit l).filter (fun a => t ≤ a.1 ∧ a.1 < t + w) =
      withinLimit limit during := by
    unfold withinLimit
    rw [← hl, ← hlate, List.filter_append, List.filter_append, List.filter_append, List.filter_append]
    have hnone : ∀ {m : List Tick}, (∀ a ∈ m, ¬(t ≤ a.1 ∧ a.1 < t + w)) →
        ((m.filter fun a => a.2 ≤ limit).filter fun a => t ≤ a.1 ∧ a.1 < t + w) = [] := by
      intro m hm
      rw [List.filter_eq_nil_iff]
      intro a ha hin
      exact hm a (List.mem_of_mem_filter ha) (of_decide_eq_true hin)
    have hall : ((during.filter fun a => a.2 ≤ limit).filter fun a => t ≤ a.1 ∧ a.1 < t + w) =
        during.filter fun a => a.2 ≤ limit :=
      List.filter_eq_self.mpr fun a ha => decide_eq_true (hspan a (List.mem_of_mem_filter ha))
    rw [hall, hnone fun a ha => by have := hbefore a ha; omega,
      hnone fun a ha => by have := hafter a ha; omega, List.nil_append, List.append_nil]
  rw [hwhole]
  exact withinLimit_short hduring hspan

end Clemvion.Library
