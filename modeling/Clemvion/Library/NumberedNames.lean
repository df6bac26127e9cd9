import Mathlib.Data.List.Nodup
import Mathlib.Data.List.Perm.Subperm
import Clemvion.Library.While

/-!
# NumberedNames — names told apart by a number

A program that must not reuse a name appends numbers until it meets a free one.  Distinct numbers
give distinct names when a separator that is no digit stands before the number, and among more
candidates than there are taken names one is free.
-/

namespace Clemvion.Library

/-! ## 1. A number after a separator -/

theorem sep_notMem_toDigits {sep : Char} (hsep : sep.isDigit = false) (n : Nat) :
    sep ∉ Nat.toDigits 10 n := by
  intro h
  have hdigit := Nat.isDigit_of_mem_toDigits (by decide) (by decide) h
  rw [hsep] at hdigit
  exact Bool.false_ne_true hdigit

theorem toDigits_injective {m n : Nat} (h : Nat.toDigits 10 m = Nat.toDigits 10 n) : m = n := by
  have hread := congrArg (fun digits => Nat.ofDigitChars 10 digits 0) h
  simpa using hread

private theorem append_sep_before {α : Type*} {sep : α} {ys ds ds' : List α} (hds : sep ∉ ds)
    (h : sep :: ds = ys ++ sep :: ds') : ys = [] ∧ ds = ds' := by
  cases ys with
  | nil =>
    injection h with _ htail
    exact ⟨rfl, htail⟩
  | cons y ys =>
    injection h with _ htail
    rw [htail] at hds
    exact absurd (List.mem_append_right ys List.mem_cons_self) hds

/-- Two texts cut at their last separator. -/
theorem append_sep_inj {α : Type*} {sep : α} {xs xs' ds ds' : List α} (hds : sep ∉ ds) (hds' : sep ∉ ds')
    (h : xs ++ sep :: ds = xs' ++ sep :: ds') : xs = xs' ∧ ds = ds' := by
  rcases List.append_eq_append_iff.mp h with ⟨ys, hxs, hrest⟩ | ⟨ys, hxs, hrest⟩
  · obtain ⟨rfl, hd⟩ := append_sep_before hds hrest
    exact ⟨by rw [hxs, List.append_nil], hd⟩
  · obtain ⟨rfl, hd⟩ := append_sep_before hds' hrest
    exact ⟨by rw [hxs, List.append_nil], hd.symm⟩

/-- Two texts cut at their first separator. -/
theorem append_sep_inj_left {α : Type*} {sep : α} {xs xs' ds ds' : List α} (hxs : sep ∉ xs)
    (hxs' : sep ∉ xs') (h : xs ++ sep :: ds = xs' ++ sep :: ds') : xs = xs' ∧ ds = ds' := by
  have hrev : ds.reverse ++ sep :: xs.reverse = ds'.reverse ++ sep :: xs'.reverse := by
    simpa using congrArg List.reverse h
  obtain ⟨hds, hxs⟩ := append_sep_inj (by simpa using hxs) (by simpa using hxs') hrev
  exact ⟨List.reverse_injective hxs, List.reverse_injective hds⟩

/-! ## 2. The first free number -/

variable {α : Type*} [DecidableEq α]

/-- One of the candidates `start, …, start + taken.length` is free. -/
theorem exists_free {name : Nat → α} {start : Nat}
    (hinj : ∀ m n, start ≤ m → start ≤ n → name m = name n → m = n) (taken : List α) :
    ∃ n, start ≤ n ∧ n ≤ start + taken.length ∧ name n ∉ taken := by
  by_contra hnone
  have htaken : ∀ i < taken.length + 1, name (start + i) ∈ taken := by
    intro i hi
    by_contra hfree
    exact hnone ⟨start + i, by omega, by omega, hfree⟩
  have hnodup : ((List.range (taken.length + 1)).map fun i => name (start + i)).Nodup := by
    refine List.Nodup.map_on ?_ List.nodup_range
    intro i _ j _ hij
    have := hinj _ _ (by omega) (by omega) hij
    omega
  -- more distinct names than taken ones
  have hsub : ((List.range (taken.length + 1)).map fun i => name (start + i)) ⊆ taken := by
    intro x hx
    obtain ⟨i, hi, rfl⟩ := List.mem_map.mp hx
    exact htaken i (List.mem_range.mp hi)
  have hle := (List.subperm_of_subset hnodup hsub).length_le
  rw [List.length_map, List.length_range] at hle
  omega

/-- `while (taken.has(name(n))) n++`, from `start`. -/
def firstFree (name : Nat → α) (taken : List α) (start : Nat) : Nat :=
  whileLoop (fun n => decide (name n ∈ taken)) (· + 1) (taken.length + 1) start

/-- **The loop ends at the first free number.** -/
theorem firstFree_spec {name : Nat → α} {start : Nat}
    (hinj : ∀ m n, start ≤ m → start ≤ n → name m = name n → m = n) (taken : List α) :
    start ≤ firstFree name taken start ∧ firstFree name taken start ≤ start + taken.length ∧
      name (firstFree name taken start) ∉ taken ∧
      ∀ m, start ≤ m → m < firstFree name taken start → name m ∈ taken := by
  obtain ⟨free, hstart, hbound, hfree⟩ := exists_free hinj taken
  have hstep : ∀ k n, (start ≤ n ∧ n ≤ free ∧ (∀ m, start ≤ m → m < n → name m ∈ taken) ∧ k = free - n) →
      decide (name n ∈ taken) = true →
      ∃ k', k' < k ∧ start ≤ n + 1 ∧ n + 1 ≤ free ∧ (∀ m, start ≤ m → m < n + 1 → name m ∈ taken) ∧
        k' = free - (n + 1) := by
    rintro k n ⟨hle, hlefree, hbelow, rfl⟩ hcond
    have htaken : name n ∈ taken := by simpa using hcond
    have hne : n ≠ free := fun heq => hfree (heq ▸ htaken)
    refine ⟨free - (n + 1), by omega, by omega, by omega, ?_, rfl⟩
    intro m hm hlt
    by_cases hmn : m = n
    · exact hmn ▸ htaken
    · exact hbelow m hm (by omega)
  obtain ⟨⟨k, hle, hlefree, hbelow, -⟩, hstop⟩ := whileLoop_spec _ hstep (taken.length + 1)
    (free - start) start
    ⟨Nat.le_refl _, hstart, fun m hm hlt => absurd hm (by omega), rfl⟩ (by omega)
  change start ≤ firstFree name taken start at hle
  change firstFree name taken start ≤ free at hlefree
  exact ⟨hle, by omega, of_decide_eq_false hstop, hbelow⟩

end Clemvion.Library
