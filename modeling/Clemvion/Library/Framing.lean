import Mathlib.Data.List.Basic

/-!
# Framing — frames that arrive in pieces

A reader takes frames off the front of what it has received.  Where the taking of a frame does not
depend on what comes behind it, the frames are the same however the stream is cut into pieces.
-/

namespace Clemvion.Library

/-- How one frame is taken off. -/
structure Framer (α β : Type) where
  cut : List α → Option (β × List α)
  shorter : ∀ {xs frame rest}, cut xs = some (frame, rest) → rest.length < xs.length
  append : ∀ {xs frame rest}, cut xs = some (frame, rest) →
    ∀ ys, cut (xs ++ ys) = some (frame, rest ++ ys)

namespace Framer

variable {α β : Type} (F : Framer α β)

/-- All the frames, and what is left of an unfinished one. -/
def all (xs : List α) : List β × List α :=
  match _h : F.cut xs with
  | none => ([], xs)
  | some (frame, rest) => (all rest).map (frame :: ·) id
  termination_by xs.length
  decreasing_by exact F.shorter _h

variable {F} {xs rest : List α} {frame : β}

theorem all_of_none (h : F.cut xs = none) : F.all xs = ([], xs) := by
  rw [all]
  split
  case h_1 => rfl
  case h_2 heq =>
    rw [h] at heq
    cases heq

theorem all_of_some (h : F.cut xs = some (frame, rest)) :
    F.all xs = (frame :: (F.all rest).1, (F.all rest).2) := by
  rw [all]
  split
  case h_1 heq =>
    rw [h] at heq
    cases heq
  case h_2 frame' rest' heq =>
    rw [h] at heq
    cases heq
    rfl

/-- What is left holds no frame. -/
theorem cut_rest (xs : List α) : F.cut (F.all xs).2 = none := by
  induction hlength : xs.length using Nat.strongRecOn generalizing xs with
  | _ n ih =>
    cases hcut : F.cut xs with
    | none =>
      rw [all_of_none hcut]
      exact hcut
    | some found =>
      obtain ⟨frame, rest⟩ := found
      rw [all_of_some hcut]
      exact ih rest.length (hlength ▸ F.shorter hcut) rest rfl

/-- More input meets what was left of the earlier. -/
theorem all_append (xs ys : List α) :
    F.all (xs ++ ys) = ((F.all xs).1 ++ (F.all ((F.all xs).2 ++ ys)).1, (F.all ((F.all xs).2 ++ ys)).2) := by
  induction hlength : xs.length using Nat.strongRecOn generalizing xs with
  | _ n ih =>
    -- a frame of the first input is a frame of both; without one all of it is left
    cases hcut : F.cut xs with
    | none =>
      rw [all_of_none hcut]
      rfl
    | some found =>
      obtain ⟨frame, rest⟩ := found
      have hrest := ih rest.length (hlength ▸ F.shorter hcut) rest rfl
      rw [all_of_some hcut, all_of_some (F.append hcut ys), hrest]
      rfl

/-- What every cut keeps holds of what is left in the end. -/
theorem rest_of {P : List α → Prop}
    (hcut : ∀ {xs frame rest}, P xs → F.cut xs = some (frame, rest) → P rest) (h : P xs) :
    P (F.all xs).2 := by
  induction hlength : xs.length using Nat.strongRecOn generalizing xs with
  | _ n ih =>
    cases hnext : F.cut xs with
    | none =>
      rw [all_of_none hnext]
      exact h
    | some found =>
      obtain ⟨frame, rest⟩ := found
      rw [all_of_some hnext]
      exact ih rest.length (hlength ▸ F.shorter hnext) (hcut h hnext) rfl

/-- What every cut keeps, and makes true of its frame, holds of all frames. -/
theorem frames_of {P : List α → Prop} {Q : β → Prop}
    (hcut : ∀ {xs frame rest}, P xs → F.cut xs = some (frame, rest) → Q frame ∧ P rest) (h : P xs) :
    ∀ frame ∈ (F.all xs).1, Q frame := by
  induction hlength : xs.length using Nat.strongRecOn generalizing xs with
  | _ n ih =>
    cases hnext : F.cut xs with
    | none =>
      rw [all_of_none hnext]
      exact fun _ hframe => absurd hframe List.not_mem_nil
    | some found =>
      obtain ⟨frame, rest⟩ := found
      obtain ⟨hframe, hrest⟩ := hcut h hnext
      rw [all_of_some hnext, List.forall_mem_cons]
      exact ⟨hframe, ih rest.length (hlength ▸ F.shorter hnext) hrest rfl⟩

end Framer

end Clemvion.Library
