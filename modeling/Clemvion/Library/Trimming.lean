import Mathlib.Data.List.DropRight

/-!
# Trimming — a list without what it begins and ends with

The members that satisfy a test are taken off both ends.  A list whose first and last member do
not satisfy it is what remains of itself with anything of that kind around it.
-/

namespace Clemvion.Library

variable {α : Type} (p : α → Bool)

def trimBoth (xs : List α) : List α := (xs.dropWhile p).rdropWhile p

variable {p} {xs margin : List α}

theorem dropWhile_margin (hmargin : ∀ x ∈ margin, p x = true) (xs : List α) :
    (margin ++ xs).dropWhile p = xs.dropWhile p := by
  rw [List.dropWhile_append_of_pos hmargin]

theorem rdropWhile_margin (hmargin : ∀ x ∈ margin, p x = true) (xs : List α) :
    (xs ++ margin).rdropWhile p = xs.rdropWhile p := by
  unfold List.rdropWhile
  rw [List.reverse_append, dropWhile_margin fun x hx => hmargin x (List.mem_reverse.mp hx)]

theorem trimBoth_margin_left (hmargin : ∀ x ∈ margin, p x = true) (xs : List α) :
    trimBoth p (margin ++ xs) = trimBoth p xs := by
  unfold trimBoth
  rw [dropWhile_margin hmargin]

/-- First and last member are there and stay. -/
structure Solid (p : α → Bool) (xs : List α) : Prop where
  first : ∃ x rest, xs = x :: rest ∧ p x = false
  last : ∃ front x, xs = front ++ [x] ∧ p x = false

theorem Solid.ne_nil (h : Solid p xs) : xs ≠ [] := by
  obtain ⟨x, rest, rfl, -⟩ := h.first
  exact List.cons_ne_nil x rest

theorem Solid.of_forall (hne : xs ≠ []) (h : ∀ x ∈ xs, p x = false) : Solid p xs where
  first := by
    obtain ⟨x, rest, rfl⟩ := List.exists_cons_of_ne_nil hne
    exact ⟨x, rest, rfl, h x (List.mem_cons_self ..)⟩
  last :=
    ⟨xs.dropLast, xs.getLast hne, (List.dropLast_append_getLast hne).symm, h _ (List.getLast_mem hne)⟩

/-- The check that a given list is solid. -/
theorem Solid.of_all (hne : xs ≠ []) (h : xs.all (fun x => !p x) = true) : Solid p xs :=
  .of_forall hne (by simpa using h)

theorem Solid.rdropWhile (h : Solid p xs) : xs.rdropWhile p = xs := by
  obtain ⟨front, x, rfl, hx⟩ := h.last
  exact List.rdropWhile_concat_neg p front x (by simp [hx])

theorem Solid.dropWhile (h : Solid p xs) : xs.dropWhile p = xs := by
  obtain ⟨x, rest, rfl, hx⟩ := h.first
  exact List.dropWhile_cons_of_neg (by simp [hx])

/-- A solid list with anything to be trimmed around it. -/
theorem Solid.trimBoth (h : Solid p xs) (before after : List α) (hbefore : ∀ x ∈ before, p x = true)
    (hafter : ∀ x ∈ after, p x = true) : trimBoth p (before ++ xs ++ after) = xs := by
  obtain ⟨x, rest, hcons, hx⟩ := h.first
  have hstart : (xs ++ after).dropWhile p = xs ++ after := by
    rw [hcons]
    exact List.dropWhile_cons_of_neg (by simp [hx])
  rw [List.append_assoc, trimBoth_margin_left hbefore]
  unfold Library.trimBoth
  rw [hstart, rdropWhile_margin hafter, h.rdropWhile]

theorem Solid.trimBoth_self (h : Solid p xs) : Library.trimBoth p xs = xs := by
  have hself := h.trimBoth [] [] (fun x hx => nomatch hx) fun x hx => nomatch hx
  rwa [List.append_nil] at hself

/-- Two solid lists with anything between them. -/
theorem Solid.append (h : Solid p xs) {ys : List α} (hys : Solid p ys) (between : List α) :
    Solid p (xs ++ between ++ ys) := by
  obtain ⟨x, rest, rfl, hx⟩ := h.first
  obtain ⟨front, y, rfl, hy⟩ := hys.last
  refine ⟨⟨x, rest ++ between ++ (front ++ [y]), by simp, hx⟩,
    ⟨x :: rest ++ between ++ front, y, by simp, hy⟩⟩

end Clemvion.Library
