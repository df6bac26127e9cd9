import Mathlib.Data.List.Basic

/-!
# TakeThrough — a scan that stops at a member

The scan keeps a state and goes from member to member until a step refuses one; that member is
still taken.  What it does on a list is what the fold of its steps does on the members before.
-/

namespace Clemvion.Library

variable {σ α : Type} (step : σ → α → Option σ)

def takeThrough : σ → List α → Option (List α × List α)
  | _, [] => none
  | state, x :: xs =>
    match step state x with
    | none => some ([x], xs)
    | some state => (takeThrough state xs).map fun (taken, rest) => (x :: taken, rest)

/-- No step refuses a member of the list, and the last state is this one. -/
def Scans (state : σ) (xs : List α) (state' : σ) : Prop := xs.foldlM step state = some state'

variable {step} {state state' state'' : σ} {x : α} {xs ys taken rest : List α}

theorem Scans.nil : Scans step state [] state := rfl

theorem scans_nil_iff : Scans step state [] state' ↔ state = state' := Option.some_inj

theorem scans_cons_iff :
    Scans step state (x :: xs) state' ↔ ∃ next, step state x = some next ∧ Scans step next xs state' := by
  unfold Scans
  rw [List.foldlM_cons]
  exact Option.bind_eq_some_iff

theorem Scans.cons (h : Scans step state' xs state'') (hstep : step state x = some state') :
    Scans step state (x :: xs) state'' := scans_cons_iff.mpr ⟨state', hstep, h⟩

theorem Scans.append (h : Scans step state xs state') (h' : Scans step state' ys state'') :
    Scans step state (xs ++ ys) state'' := by
  unfold Scans at *
  rw [List.foldlM_append, h]
  exact h'

theorem takeThrough_stop (h : step state x = none) : takeThrough step state (x :: xs) = some ([x], xs) := by
  rw [takeThrough, h]

theorem takeThrough_go (h : step state x = some state') :
    takeThrough step state (x :: xs) =
      (takeThrough step state' xs).map fun (taken, rest) => (x :: taken, rest) := by
  rw [takeThrough, h]

/-- Members that no step refuses are taken first. -/
theorem takeThrough_passed (h : Scans step state xs state') (ys : List α) :
    takeThrough step state (xs ++ ys) =
      (takeThrough step state' ys).map fun (taken, rest) => (xs ++ taken, rest) := by
  induction xs generalizing state with
  | nil =>
    obtain rfl := scans_nil_iff.mp h
    rw [List.nil_append]
    cases takeThrough step state ys <;> rfl
  | cons x xs ih =>
    obtain ⟨next, hnext, hrest⟩ := scans_cons_iff.mp h
    rw [List.cons_append, takeThrough_go hnext, ih hrest, Option.map_map]
    rfl

/-- The member that is refused is the last one taken. -/
theorem takeThrough_eq_some_iff :
    takeThrough step state xs = some (taken, rest) ↔
      ∃ front x state', taken = front ++ [x] ∧ xs = front ++ x :: rest ∧
        Scans step state front state' ∧ step state' x = none := by
  -- the induction gives the members before the stop; the other way runs over them
  constructor
  · intro h
    induction xs generalizing state taken with
    | nil => cases h
    | cons x xs ih =>
      cases hstep : step state x with
      | none =>
        rw [takeThrough_stop hstep] at h
        obtain ⟨rfl, rfl⟩ := Prod.mk.inj (Option.some.inj h)
        exact ⟨[], x, state, rfl, rfl, .nil, hstep⟩
      | some next =>
        rw [takeThrough_go hstep] at h
        obtain ⟨⟨taken', rest'⟩, hmore, heq⟩ := Option.map_eq_some_iff.mp h
        obtain ⟨rfl, rfl⟩ := Prod.mk.inj heq
        obtain ⟨front, y, state', rfl, rfl, hscan, hstop⟩ := ih hmore
        exact ⟨x :: front, y, state', rfl, rfl, hscan.cons hstep, hstop⟩
  · rintro ⟨front, x, state', rfl, rfl, hscan, hstop⟩
    rw [takeThrough_passed hscan, takeThrough_stop hstop]
    rfl

/-- Without an end, no step refuses. -/
theorem takeThrough_eq_none (h : takeThrough step state xs = none) :
    ∃ state', Scans step state xs state' := by
  induction xs generalizing state with
  | nil => exact ⟨state, .nil⟩
  | cons x xs ih =>
    cases hstep : step state x with
    | none =>
      rw [takeThrough_stop hstep] at h
      cases h
    | some next =>
      rw [takeThrough_go hstep, Option.map_eq_none_iff] at h
      obtain ⟨state', hscan⟩ := ih h
      exact ⟨state', hscan.cons hstep⟩

/-- What is taken and what is left make up the list. -/
theorem takeThrough_parts (h : takeThrough step state xs = some (taken, rest)) :
    xs = taken ++ rest ∧ taken ≠ [] := by
  obtain ⟨front, x, state', rfl, rfl, -⟩ := takeThrough_eq_some_iff.mp h
  exact ⟨by simp, by simp⟩

/-- The scan does not look behind its end. -/
theorem takeThrough_append (h : takeThrough step state xs = some (taken, rest)) (ys : List α) :
    takeThrough step state (xs ++ ys) = some (taken, rest ++ ys) := by
  obtain ⟨front, x, state', rfl, rfl, hscan, hstop⟩ := takeThrough_eq_some_iff.mp h
  exact takeThrough_eq_some_iff.mpr ⟨front, x, state', rfl, by simp, hscan, hstop⟩

end Clemvion.Library
