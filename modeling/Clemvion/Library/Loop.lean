import Mathlib.Logic.Relation

/-!
# Loop — step functions with an early end

A loop body that either goes round again or ends with a value of `ρ` (a normal end, a `return`
or a `throw`).  `runLoop` iterates it under a budget; `runLoop_of_rank` is the termination rule,
and `Reaches` is the relation along which step invariants are carried to whole runs.
-/

namespace Clemvion.Library

variable {σ ρ : Type*}

/-- Iterate `step`, at most `fuel` times, until it ends. -/
def runLoop (step : σ → σ × Option ρ) : Nat → σ → σ × Option ρ
  | 0, s => (s, none)
  | fuel + 1, s =>
    match step s with
    | (s', none) => runLoop step fuel s'
    | (s', some e) => (s', some e)

/-- `t` is the state before some pass of the run that starts in `s`. -/
def Reaches (step : σ → σ × Option ρ) : σ → σ → Prop :=
  Relation.ReflTransGen fun s t => step s = (t, none)

variable {step : σ → σ × Option ρ}

/-- A step invariant holds before every pass of a run. -/
theorem Reaches.invariant {Inv : σ → Prop} (hstep : ∀ s t, Inv s → step s = (t, none) → Inv t)
    {s t : σ} (hreach : Reaches step s t) (hs : Inv s) : Inv t := by
  induction hreach with
  | refl => exact hs
  | tail _ hst ih => exact hstep _ _ ih hst

/-- **Termination rule.** A rank that falls with every pass that goes round again bounds the
run: it ends, by a pass from a state it reaches. -/
theorem runLoop_of_rank {Inv : σ → Prop} (rank : σ → Nat)
    (hstep : ∀ s t, Inv s → step s = (t, none) → Inv t ∧ rank t < rank s) :
    ∀ fuel s, Inv s → rank s < fuel →
      ∃ t u e, Reaches step s t ∧ Inv t ∧ step t = (u, some e) ∧
        runLoop step fuel s = (u, some e) := by
  intro fuel
  induction fuel with
  | zero =>
    intro s _ hlt
    omega
  | succ fuel ih =>
    intro s hs hlt
    rcases hres : step s with ⟨s', _ | e⟩
    · obtain ⟨hs', hrank⟩ := hstep s s' hs hres
      obtain ⟨t, u, e, hreach, ht, hend, hrun⟩ := ih s' hs' (by omega)
      refine ⟨t, u, e, Relation.ReflTransGen.head hres hreach, ht, hend, ?_⟩
      rw [runLoop, hres]
      exact hrun
    · refine ⟨s, s', e, .refl, hs, hres, ?_⟩
      rw [runLoop, hres]

/-- What a run under a budget leaves behind when it did not end is a state it reaches. -/
theorem reaches_runLoop {fuel : Nat} {s t : σ} (h : runLoop step fuel s = (t, none)) :
    Reaches step s t := by
  induction fuel generalizing s with
  | zero =>
    obtain rfl : s = t := by simpa [runLoop] using h
    exact .refl
  | succ fuel ih =>
    rw [runLoop] at h
    rcases hres : step s with ⟨s', _ | e⟩
    · rw [hres] at h
      exact Relation.ReflTransGen.head hres (ih h)
    · rw [hres] at h
      simp at h

/-- A finished run ended by a pass from a state it reaches. -/
theorem exists_last_pass {fuel : Nat} {s u : σ} {e : ρ} (h : runLoop step fuel s = (u, some e)) :
    ∃ t, Reaches step s t ∧ step t = (u, some e) := by
  induction fuel generalizing s with
  | zero => simp [runLoop] at h
  | succ fuel ih =>
    rw [runLoop] at h
    rcases hres : step s with ⟨s', _ | e'⟩
    · rw [hres] at h
      obtain ⟨t, hreach, hlast⟩ := ih h
      exact ⟨t, Relation.ReflTransGen.head hres hreach, hlast⟩
    · rw [hres] at h
      exact ⟨s, .refl, hres.trans h⟩

/-- A run may start earlier. -/
theorem Reaches.runLoop {s t u : σ} {e : ρ} {fuel : Nat} (hreach : Reaches step s t)
    (h : Library.runLoop step fuel t = (u, some e)) :
    ∃ fuel', Library.runLoop step fuel' s = (u, some e) := by
  induction hreach using Relation.ReflTransGen.head_induction_on with
  | refl => exact ⟨fuel, h⟩
  | head hst _ ih =>
    obtain ⟨fuel', hrun⟩ := ih
    exact ⟨fuel' + 1, by rw [Library.runLoop, hst]; exact hrun⟩

/-- A finished run does not depend on the budget. -/
theorem runLoop_stable {fuel fuel' : Nat} {s u : σ} {e : ρ}
    (h : runLoop step fuel s = (u, some e)) (hle : fuel ≤ fuel') :
    runLoop step fuel' s = (u, some e) := by
  induction fuel generalizing fuel' s with
  | zero => simp [runLoop] at h
  | succ fuel ih =>
    obtain ⟨k, rfl⟩ : ∃ k, fuel' = k + 1 := ⟨fuel' - 1, by omega⟩
    rw [runLoop] at h ⊢
    rcases hres : step s with ⟨s', _ | e'⟩
    · rw [hres] at h
      exact ih h (by omega)
    · rw [hres] at h
      exact h

end Clemvion.Library
