import Mathlib.Logic.Function.Basic
import Mathlib.Logic.Relation

/-!
# Forest — nodes that point to their parents

A partial function gives every node its parent.  It is a forest where every chain of parents ends, and
the number of nodes on the chain is the level of the node.  Moving a subtree below a node outside of it
keeps a forest, and shifts the levels inside the subtree only.
-/

namespace Clemvion.Library

variable {α : Type*} {parent parent' : α → Option α} {a b p x : α} {o : Option α} {m n k l : Nat}

/-- The chain of parents from here, itself counted, has `n` nodes. -/
inductive Level (parent : α → Option α) : Option α → Nat → Prop
  | nothing : Level parent none 0
  | node {x : α} {n : Nat} (h : Level parent (parent x) n) : Level parent (some x) (n + 1)

/-- `a` stands `k` steps above. -/
inductive Above (parent : α → Option α) (a : α) : Option α → Nat → Prop
  | self : Above parent a (some a) 0
  | step {x : α} {k : Nat} (h : Above parent a (parent x) k) : Above parent a (some x) (k + 1)

/-! ## 1. Levels -/

theorem Level.unique (h : Level parent o n) (h' : Level parent o m) : n = m := by
  induction h generalizing m with
  | nothing =>
    cases h'
    rfl
  | node _ ih =>
    cases h' with
    | node h' => rw [ih h']

theorem level_some_iff : Level parent (some x) n ↔ ∃ l, n = l + 1 ∧ Level parent (parent x) l := by
  constructor
  · intro h
    cases h with
    | node h => exact ⟨_, rfl, h⟩
  · rintro ⟨l, rfl, h⟩
    exact .node h

theorem Above.some_of (h : Above parent a o k) : ∃ x, o = some x := by
  cases h with
  | self => exact ⟨a, rfl⟩
  | step => exact ⟨_, rfl⟩

theorem above_some_iff : Above parent a (some x) k ↔
    (x = a ∧ k = 0) ∨ ∃ l, k = l + 1 ∧ Above parent a (parent x) l := by
  constructor
  · intro h
    cases h with
    | self => exact .inl ⟨rfl, rfl⟩
    | step h => exact .inr ⟨_, rfl, h⟩
  · rintro (⟨rfl, rfl⟩ | ⟨l, rfl, h⟩)
    · exact .self
    · exact .step h

/-- A node `k` steps up is `k` levels up. -/
theorem Above.level (h : Above parent a o k) (hn : Level parent o n) :
    ∃ m, Level parent (some a) m ∧ n = m + k := by
  induction h generalizing n with
  | self => exact ⟨n, hn, rfl⟩
  | step _ ih =>
    cases hn with
    | node hn =>
      obtain ⟨m, hm, hsum⟩ := ih hn
      exact ⟨m, hm, by omega⟩

theorem Level.of_above (hm : Level parent (some a) m) (h : Above parent a o k) :
    Level parent o (m + k) := by
  induction h with
  | self => exact hm
  | step _ ih => exact .node ih

theorem Above.trans (h : Above parent a o k) (hb : Above parent b (some a) l) :
    Above parent b o (k + l) := by
  induction h with
  | self =>
    rw [Nat.zero_add]
    exact hb
  | step _ ih =>
    rw [Nat.succ_add]
    exact .step ih

/-- Nothing stands above itself. -/
theorem Above.eq_zero (h : Above parent a (some a) k) (hn : Level parent (some a) n) : k = 0 := by
  obtain ⟨m, hm, hsum⟩ := h.level hn
  have := hm.unique hn
  omega

theorem Above.unique (h : Above parent a o k) (h' : Above parent a o l) (hn : Level parent o n) :
    k = l := by
  obtain ⟨m, hm, hsum⟩ := h.level hn
  obtain ⟨m', hm', hsum'⟩ := h'.level hn
  have := hm.unique hm'
  omega

/-- The last step of a climb: `x` is below a child of `a`. -/
theorem Above.child (h : Above parent a (some x) (k + 1)) :
    ∃ c, parent c = some a ∧ Above parent c (some x) k := by
  induction k generalizing x with
  | zero =>
    cases h with
    | step h =>
      obtain ⟨y, hy⟩ := h.some_of
      rw [hy] at h
      cases h with
      | self => exact ⟨x, hy, .self⟩
  | succ k ih =>
    cases h with
    | step h =>
      obtain ⟨y, hy⟩ := h.some_of
      rw [hy] at h
      obtain ⟨c, hc, hy'⟩ := ih h
      refine ⟨c, hc, .step ?_⟩
      rw [hy]
      exact hy'

/-- Below `a` is what child steps lead to from `a`. -/
theorem exists_above_iff :
    (∃ k, Above parent a (some x) k) ↔ Relation.ReflTransGen (fun p c => parent c = some p) a x := by
  constructor
  · rintro ⟨k, h⟩
    induction k generalizing a with
    | zero =>
      cases h
      exact .refl
    | succ k ih =>
      obtain ⟨c, hc, h⟩ := h.child
      exact .head hc (ih h)
  · intro h
    induction h with
    | refl => exact ⟨0, .self⟩
    | tail _ hc ih =>
      obtain ⟨k, h⟩ := ih
      refine ⟨k + 1, .step ?_⟩
      rw [hc]
      exact h

/-! ## 2. Other parents -/

/-- Only the parents of the nodes on the chain matter. -/
theorem Level.congr (h : Level parent o n)
    (hsame : ∀ y k, Above parent y o k → parent' y = parent y) : Level parent' o n := by
  induction h with
  | nothing => exact .nothing
  | @node x n _ ih =>
    refine .node ?_
    rw [hsame x 0 .self]
    exact ih fun y k hy => hsame y (k + 1) (.step hy)

theorem Above.congr (h : Above parent a o k)
    (hsame : ∀ y l, Above parent y o l → y ≠ a → parent' y = parent y) (hn : Level parent o n) :
    Above parent' a o k := by
  induction h generalizing n with
  | self => exact .self
  | @step x k h ih =>
    refine .step ?_
    -- a node strictly below `a` is not `a`
    have hx : x ≠ a := by
      rintro rfl
      have := (Above.step h).eq_zero hn
      omega
    rw [hsame x 0 .self hx]
    cases hn with
    | node hn => exact ih (fun y l hy => hsame y (l + 1) (.step hy)) hn

section
variable [DecidableEq α]

theorem Level.update_of_not_above (h : Level parent o n) (q : Option α)
    (ha : ∀ k, ¬Above parent a o k) : Level (Function.update parent a q) o n := by
  refine h.congr fun y k hy => Function.update_of_ne ?_ _ _
  rintro rfl
  exact ha k hy

/-- The climbs to a node that is moved stay. -/
theorem Above.update (h : Above parent a o k) (q : Option α) (hn : Level parent o n) :
    Above (Function.update parent a q) a o k :=
  h.congr (fun _ _ _ hne => Function.update_of_ne hne _ _) hn

/-- A subtree that is moved takes the level of its root along. -/
theorem Level.move (hp : Level parent o m) (hout : ∀ k, ¬Above parent a o k)
    (hx : Above parent a (some x) k) (hn : Level parent (some x) n) :
    Level (Function.update parent a o) (some x) (m + 1 + k) := by
  refine Level.of_above (.node ?_) (hx.update o hn)
  rw [Function.update_self]
  exact hp.update_of_not_above o hout

/-- A node that is moved below itself is on no finite chain any more. -/
theorem not_level_update (h : Above parent a (some p) k) (hn : Level parent (some p) n) :
    ¬∃ m, Level (Function.update parent a (some p)) (some a) m := by
  rintro ⟨m, hm⟩
  have hcycle : Above (Function.update parent a (some p)) a (some a) (k + 1) := by
    refine .step ?_
    rw [Function.update_self]
    exact h.update (some p) hn
  have := hcycle.eq_zero hm
  omega

end

end Clemvion.Library
