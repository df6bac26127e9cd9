import Mathlib.Order.Basic

/-!
# While — `while` loops with an iteration budget

A `while (cond) body` of an imperative program, as a structurally recursive function: the
budget bounds the number of iterations, and `whileLoop_spec` is the rule that shows the budget
was never the reason to stop.  `Inv n s` reads "the invariant holds of `s` and at most `n`
iterations remain"; a ghost component of the invariant is an existential inside `Inv`.
-/

namespace Clemvion.Library

variable {σ : Type*}

/-- `while (cond s) s := body s`, at most `fuel` times. -/
def whileLoop (cond : σ → Bool) (body : σ → σ) : Nat → σ → σ
  | 0, s => s
  | fuel + 1, s => if cond s then whileLoop cond body fuel (body s) else s

variable {cond : σ → Bool} {body : σ → σ}

theorem whileLoop_of_not_cond (fuel : Nat) {s : σ} (hs : cond s = false) :
    whileLoop cond body fuel s = s := by
  cases fuel with
  | zero => rfl
  | succ fuel => simp [whileLoop, hs]

/-- **Loop rule.** An invariant that counts the remaining iterations down holds when the loop
    ends, and the loop ends by its own condition. -/
theorem whileLoop_spec (Inv : Nat → σ → Prop)
    (hstep : ∀ n s, Inv n s → cond s = true → ∃ m, m < n ∧ Inv m (body s)) :
    ∀ fuel n s, Inv n s → n ≤ fuel →
      (∃ k, Inv k (whileLoop cond body fuel s)) ∧ cond (whileLoop cond body fuel s) = false := by
  intro fuel
  induction fuel with
  | zero =>
    intro n s hinv hn
    refine ⟨⟨n, hinv⟩, ?_⟩
    show cond s = false
    by_contra hcond
    obtain ⟨m, hm, -⟩ := hstep n s hinv (by simpa using hcond)
    omega
  | succ fuel ih =>
    intro n s hinv hn
    cases hcond : cond s with
    | false =>
      rw [whileLoop_of_not_cond _ hcond]
      exact ⟨⟨n, hinv⟩, hcond⟩
    | true =>
      obtain ⟨m, hm, hinv'⟩ := hstep n s hinv hcond
      simp only [whileLoop, hcond, if_true]
      exact ih m (body s) hinv' (by omega)

/-- Once a budget suffices, a larger one changes nothing. -/
theorem whileLoop_stable {fuel fuel' : Nat} (hle : fuel ≤ fuel') :
    ∀ s, cond (whileLoop cond body fuel s) = false →
      whileLoop cond body fuel' s = whileLoop cond body fuel s := by
  induction fuel generalizing fuel' with
  | zero =>
    intro s hs
    exact whileLoop_of_not_cond _ hs
  | succ fuel ih =>
    intro s hs
    obtain ⟨k, rfl⟩ : ∃ k, fuel' = k + 1 := ⟨fuel' - 1, by omega⟩
    cases hcond : cond s with
    | false => rw [whileLoop_of_not_cond _ hcond, whileLoop_of_not_cond _ hcond]
    | true =>
      simp only [whileLoop, hcond, if_true] at hs ⊢
      exact ih (by omega) (body s) hs

/-- What the body keeps, the loop keeps. -/
theorem whileLoop_preserves {P : σ → Prop} (hbody : ∀ s, P s → P (body s)) (fuel : Nat) :
    ∀ s, P s → P (whileLoop cond body fuel s) := by
  induction fuel with
  | zero => exact fun s hs => hs
  | succ fuel ih =>
    intro s hs
    cases hcond : cond s with
    | false =>
      rw [whileLoop_of_not_cond _ hcond]
      exact hs
    | true =>
      simp only [whileLoop, hcond, if_true]
      exact ih (body s) (hbody s hs)

/-- **Simulation rule.** Two loops whose conditions agree and whose bodies keep a relation end in
    related states. -/
theorem whileLoop_rel {τ : Type*} {cond' : τ → Bool} {body' : τ → τ} {R : σ → τ → Prop}
    (hcond : ∀ s t, R s t → cond s = cond' t) (hbody : ∀ s t, R s t → R (body s) (body' t))
    (fuel : Nat) :
    ∀ s t, R s t → R (whileLoop cond body fuel s) (whileLoop cond' body' fuel t) := by
  induction fuel with
  | zero => exact fun s t h => h
  | succ fuel ih =>
    intro s t h
    have hsame := hcond s t h
    cases hc : cond s with
    | false =>
      rw [hc] at hsame
      rw [whileLoop_of_not_cond _ hc, whileLoop_of_not_cond _ hsame.symm]
      exact h
    | true =>
      rw [hc] at hsame
      simp only [whileLoop, hc, ← hsame, if_true]
      exact ih _ _ (hbody s t h)

end Clemvion.Library
