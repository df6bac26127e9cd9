import Mathlib.Logic.Relation
import Mathlib.Data.List.Chain
import Mathlib.Data.List.Nodup

/-!
# ListOrder — positions in a list as an order

A list without repetition orders its members by position; a relation whose steps move strictly
later turns every path into an inequality of positions.
-/

namespace Clemvion.Library

variable {α : Type*}

/-- Along a path of strictly ranked steps the rank does not fall. -/
theorem rank_le_of_path {r : α → α → Prop} (rank : α → Nat) (hrank : ∀ a b, r a b → rank a < rank b)
    {a b : α} (h : Relation.ReflTransGen r a b) : rank a ≤ rank b := by
  induction h with
  | refl => exact Nat.le_refl _
  | tail _ hstep ih => exact Nat.le_trans ih (Nat.le_of_lt (hrank _ _ hstep))

/-- A rank that every step raises excludes cycles. -/
theorem acyclic_of_rank {r : α → α → Prop} (rank : α → Nat) (hrank : ∀ a b, r a b → rank a < rank b) :
    ∀ v, ¬ Relation.TransGen r v v := by
  intro v hcycle
  obtain ⟨w, hfirst, hpath⟩ := Relation.TransGen.head'_iff.mp hcycle
  have hle := rank_le_of_path rank hrank hpath
  have hlt := hrank v w hfirst
  omega

/-- A path can be walked without visiting a point twice: a visit that comes back cuts out the detour. -/
theorem exists_nodup_path {r : α → α → Prop} {a b : α} (h : Relation.ReflTransGen r a b) :
    ∃ path, (a :: path).IsChain r ∧ (a :: path).Nodup ∧
      (a :: path).getLast (List.cons_ne_nil _ _) = b := by
  induction h using Relation.ReflTransGen.head_induction_on with
  | refl => exact ⟨[], List.isChain_singleton _, List.nodup_singleton _, rfl⟩
  | @head a c hstep _ ih =>
    obtain ⟨path, hchain, hnodup, hlast⟩ := ih
    by_cases hmem : a ∈ c :: path
    · obtain ⟨before, after, hsplit⟩ := List.append_of_mem hmem
      have hsuffix : a :: after <:+ c :: path := ⟨before, hsplit.symm⟩
      refine ⟨after, hchain.suffix hsuffix, hnodup.sublist hsuffix.sublist, ?_⟩
      rw [← hlast]
      simp only [hsplit, List.getLast_append_of_ne_nil _ (List.cons_ne_nil a after)]
    · refine ⟨c :: path, List.isChain_cons_cons.mpr ⟨hstep, hchain⟩,
        List.nodup_cons.mpr ⟨hmem, hnodup⟩, ?_⟩
      rw [List.getLast_cons_cons]
      exact hlast

variable [DecidableEq α]

theorem idxOf_lt_of_pair_sublist {l : List α} {a b : α} (hnodup : l.Nodup)
    (h : [a, b].Sublist l) : l.idxOf a < l.idxOf b := by
  induction l with
  | nil => cases h
  | cons x xs ih =>
    obtain ⟨hx, hxs⟩ := List.nodup_cons.mp hnodup
    cases h with
    | cons _ h =>
      have hax : a ≠ x := fun heq => hx (heq ▸ h.subset (by simp))
      have hbx : b ≠ x := fun heq => hx (heq ▸ h.subset (by simp))
      rw [List.idxOf_cons_ne _ hax.symm, List.idxOf_cons_ne _ hbx.symm]
      exact Nat.succ_lt_succ (ih hxs h)
    | cons_cons _ h =>
      have hbx : b ≠ a := fun heq => hx (heq ▸ h.subset (by simp))
      rw [List.idxOf_cons_self, List.idxOf_cons_ne _ hbx.symm]
      exact Nat.succ_pos _

end Clemvion.Library
