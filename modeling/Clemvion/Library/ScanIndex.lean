import Mathlib.Data.List.Basic
import Mathlib.Logic.Function.Basic

/-!
# ScanIndex — a map that stands for a linear scan

A list of rows, each with a key or without one, and a map from keys to positions that is to answer
what a scan from the front or from the end would find.  The map stays right when a row is appended
and when a row is replaced by one with the same key.
-/

namespace Clemvion.Library

variable {α κ : Type*} [DecidableEq κ] (key : α → Option κ)

/-- Where a scan from the front finds the key. -/
def firstIndex (k : κ) (rows : List α) : Option Nat := rows.findIdx? fun r => key r = some k

/-- Where a scan from the end finds the key. -/
def lastIndex (k : κ) : List α → Option Nat
  | [] => none
  | r :: rows =>
    match lastIndex k rows with
    | some i => some (i + 1)
    | none => if key r = some k then some 0 else none

variable {key} {k : κ} {rows : List α} {r : α} {i : Nat}

/-! ## 1. Scans -/

theorem firstIndex_append : firstIndex key k (rows ++ [r]) =
    (firstIndex key k rows).or (if key r = some k then some rows.length else none) := by
  unfold firstIndex
  rw [List.findIdx?_append]
  by_cases hkey : key r = some k
  · simp [List.findIdx?_cons, hkey]
  · simp [List.findIdx?_cons, hkey]

theorem lastIndex_append : lastIndex key k (rows ++ [r]) =
    if key r = some k then some rows.length else lastIndex key k rows := by
  induction rows with
  | nil => rfl
  | cons s rows ih =>
    rw [List.cons_append, lastIndex, ih, lastIndex, List.length_cons]
    by_cases hkey : key r = some k
    · rw [if_pos hkey, if_pos hkey]
    · rw [if_neg hkey, if_neg hkey]

theorem firstIndex_congr {rows' : List α} (h : rows'.map key = rows.map key) :
    firstIndex key k rows' = firstIndex key k rows := by
  have hmap : ∀ xs : List α, firstIndex key k xs = (xs.map key).findIdx? fun x => x = some k := by
    intro xs
    rw [List.findIdx?_map]
    rfl
  rw [hmap, hmap, h]

theorem lastIndex_congr {rows' : List α} (h : rows'.map key = rows.map key) :
    lastIndex key k rows' = lastIndex key k rows := by
  induction rows' generalizing rows with
  | nil =>
    rw [List.map_nil, eq_comm, List.map_eq_nil_iff] at h
    rw [h]
  | cons r' rows' ih =>
    cases rows with
    | nil => exact absurd h (by simp)
    | cons r rows =>
      obtain ⟨hhead, htail⟩ := List.cons.inj h
      rw [lastIndex, lastIndex, ih htail, hhead]

omit [DecidableEq κ] in
/-- A row replaced by one with the same key. -/
theorem map_set_same (hi : rows[i]? = some r) {r' : α} (hkey : key r' = key r) :
    (rows.set i r').map key = rows.map key := by
  rw [List.map_set, hkey]
  refine List.ext_getElem? fun j => ?_
  rw [List.getElem?_set]
  split_ifs with hij hlt
  · rw [← hij, List.getElem?_map, hi]
    rfl
  · rw [← hij, List.getElem?_eq_none (by omega)]
  · rfl

/-! ## 2. The row that a scan finds -/

theorem getElem_firstIndex : (firstIndex key k rows).bind (rows[·]?) = rows.find? fun r => key r = some k := by
  unfold firstIndex
  induction rows with
  | nil => rfl
  | cons s rows ih =>
    rw [List.findIdx?_cons, List.find?_cons]
    by_cases hkey : key s = some k
    · simp [hkey]
    · rw [← ih]
      simp [hkey, Option.bind_map, Function.comp_def]

theorem getElem_lastIndex :
    (lastIndex key k rows).bind (rows[·]?) = rows.reverse.find? fun r => key r = some k := by
  induction rows with
  | nil => rfl
  | cons s rows ih =>
    rw [List.reverse_cons, List.find?_append, ← ih, lastIndex]
    cases hlast : lastIndex key k rows with
    | none =>
      by_cases hkey : key s = some k
      · simp [hkey]
      · simp [hkey]
    | some j =>
      have hlt : ∀ xs : List α, ∀ j, lastIndex key k xs = some j → j < xs.length := by
        intro xs
        induction xs with
        | nil => exact fun j h => nomatch h
        | cons x xs ih =>
          intro j h
          rw [lastIndex] at h
          rw [List.length_cons]
          split at h
          case h_1 m hm =>
            have := ih m hm
            have := Option.some.inj h
            omega
          case h_2 =>
            have := Option.some.inj (Option.ite_none_right_eq_some.mp h).2
            omega
      rw [Option.bind_some, Option.bind_some, List.getElem?_cons_succ,
        List.getElem?_eq_getElem (hlt rows j hlast)]
      rfl

theorem key_of_firstIndex (h : firstIndex key k rows = some i) : ∃ r, rows[i]? = some r ∧ key r = some k := by
  obtain ⟨hi, hkey, -⟩ := List.findIdx?_eq_some_iff_getElem.mp h
  exact ⟨rows[i], List.getElem?_eq_getElem hi, by simpa using hkey⟩

theorem key_of_lastIndex (h : lastIndex key k rows = some i) : ∃ r, rows[i]? = some r ∧ key r = some k := by
  induction rows generalizing i with
  | nil => cases h
  | cons s rows ih =>
    rw [lastIndex] at h
    split at h
    case h_1 j hj =>
      obtain ⟨r, hr, hkey⟩ := ih hj
      obtain rfl := Option.some.inj h
      exact ⟨r, by rw [List.getElem?_cons_succ, hr], hkey⟩
    case h_2 =>
      obtain ⟨hkey, heq⟩ := Option.ite_none_right_eq_some.mp h
      obtain rfl := Option.some.inj heq
      exact ⟨s, rfl, hkey⟩

/-! ## 3. Maps that are right -/

variable (key)

/-- The map answers as a scan from the front does. -/
def IndexesFirst (map : κ → Option Nat) (rows : List α) : Prop := ∀ k, map k = firstIndex key k rows

/-- The map answers as a scan from the end does. -/
def IndexesLast (map : κ → Option Nat) (rows : List α) : Prop := ∀ k, map k = lastIndex key k rows

variable {key} {map : κ → Option Nat}

theorem IndexesFirst.set (h : IndexesFirst key map rows) (hi : rows[i]? = some r) {r' : α}
    (hkey : key r' = key r) : IndexesFirst key map (rows.set i r') := fun k => by
  rw [h k, firstIndex_congr (map_set_same hi hkey)]

theorem IndexesLast.set (h : IndexesLast key map rows) (hi : rows[i]? = some r) {r' : α}
    (hkey : key r' = key r) : IndexesLast key map (rows.set i r') := fun k => by
  rw [h k, lastIndex_congr (map_set_same hi hkey)]

/-- A row without a key is appended. -/
theorem IndexesFirst.append_none (h : IndexesFirst key map rows) (hr : key r = none) :
    IndexesFirst key map (rows ++ [r]) := by
  intro k
  rw [h k, firstIndex_append, hr, if_neg (by simp), Option.or_none]

/-- A key that is there already keeps its place. -/
theorem IndexesFirst.append_old (h : IndexesFirst key map rows) (hr : key r = some k)
    (hk : map k ≠ none) : IndexesFirst key map (rows ++ [r]) := by
  intro l
  rw [h l, firstIndex_append, hr]
  by_cases hl : k = l
  · rw [← hl, ← h k]
    obtain ⟨i, hi⟩ := Option.ne_none_iff_exists'.mp hk
    rw [hi]
    rfl
  · rw [if_neg (by simpa using hl), Option.or_none]

/-- A new key gets the last place. -/
theorem IndexesFirst.append_new (h : IndexesFirst key map rows) (hr : key r = some k)
    (hk : map k = none) : IndexesFirst key (Function.update map k (some rows.length)) (rows ++ [r]) := by
  intro l
  rw [firstIndex_append, hr, ← h l]
  by_cases hl : l = k
  · rw [hl, Function.update_self, hk, if_pos rfl]
    rfl
  · rw [Function.update_of_ne hl, if_neg (by simpa using Ne.symm hl), Option.or_none]

theorem IndexesLast.append (h : IndexesLast key map rows) (hr : key r = some k) :
    IndexesLast key (Function.update map k (some rows.length)) (rows ++ [r]) := by
  intro l
  rw [lastIndex_append, hr]
  by_cases hl : l = k
  · rw [hl, Function.update_self, if_pos rfl]
  · rw [Function.update_of_ne hl, if_neg (by simpa using Ne.symm hl), h l]

end Clemvion.Library
