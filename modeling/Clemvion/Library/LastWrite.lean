import Mathlib.Logic.Function.Basic
import Mathlib.Data.List.Basic

/-!
# LastWrite — a table filled by a list of writes

The object that a loop of assignments `table[key] = value` leaves behind: a later write to a key
hides an earlier one.  Every write reads back its own value exactly when no two writes disagree
on a key.
-/

namespace Clemvion.Library

variable {κ ν : Type} [DecidableEq κ]

def write (table : κ → Option ν) (w : κ × ν) : κ → Option ν := Function.update table w.1 (some w.2)

def writeAll (table : κ → Option ν) (writes : List (κ × ν)) : κ → Option ν :=
  writes.foldl write table

variable {table : κ → Option ν} {writes : List (κ × ν)} {k : κ} {v : ν}

@[simp] theorem write_same (w : κ × ν) : write table w w.1 = some w.2 := Function.update_self ..

theorem write_of_ne {w : κ × ν} (h : k ≠ w.1) : write table w k = table k :=
  Function.update_of_ne h ..

@[simp] theorem writeAll_nil : writeAll table [] = table := rfl

@[simp] theorem writeAll_cons (w : κ × ν) :
    writeAll table (w :: writes) = writeAll (write table w) writes := rfl

theorem writeAll_append (writes' : List (κ × ν)) :
    writeAll table (writes ++ writes') = writeAll (writeAll table writes) writes' :=
  List.foldl_append

theorem writeAll_of_forall_ne (h : ∀ w ∈ writes, k ≠ w.1) : writeAll table writes k = table k := by
  induction writes generalizing table with
  | nil => rfl
  | cons w writes ih =>
    rw [writeAll_cons, ih fun w' hw' => h w' (List.mem_cons_of_mem _ hw')]
    exact write_of_ne (h w List.mem_cons_self)

/-- A key that is written reads as one of the values written to it. -/
theorem exists_writeAll (h : (k, v) ∈ writes) :
    ∃ v', writeAll table writes k = some v' ∧ (k, v') ∈ writes := by
  induction writes generalizing table v with
  | nil => exact absurd h List.not_mem_nil
  | cons w writes ih =>
    by_cases hlater : ∃ v', (k, v') ∈ writes
    · obtain ⟨v', hv'⟩ := hlater
      obtain ⟨v'', hread, hmem⟩ := ih hv'
      exact ⟨v'', hread, List.mem_cons_of_mem _ hmem⟩
    · have hw : (k, v) = w := by
        rcases List.mem_cons.mp h with hw | hw
        · exact hw
        · exact absurd ⟨v, hw⟩ hlater
      refine ⟨v, ?_, h⟩
      rw [writeAll_cons, writeAll_of_forall_ne]
      · rw [← hw]
        exact write_same (k, v)
      · intro w' hw' hk
        exact hlater ⟨w'.2, by rw [hk]; exact hw'⟩

/-- **Every write is read back exactly when the writes agree on every key.** -/
theorem forall_writeAll_eq_iff :
    (∀ w ∈ writes, writeAll table writes w.1 = some w.2) ↔
      ∀ w ∈ writes, ∀ w' ∈ writes, w.1 = w'.1 → w.2 = w'.2 := by
  constructor
  · intro h w hw w' hw' hkey
    have hread := h w hw
    rw [hkey, h w' hw'] at hread
    exact (Option.some.inj hread).symm
  · intro h w hw
    obtain ⟨v, hread, hmem⟩ := exists_writeAll hw
    have hv : v = w.2 := h (w.1, v) hmem w hw rfl
    rw [hread, hv]

end Clemvion.Library
