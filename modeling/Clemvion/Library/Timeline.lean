import Mathlib.Data.List.Basic
import Mathlib.Logic.Function.Iterate

/-!
# Timeline — undo and redo with a bounded past

Two stacks around a present value.  A checkpoint puts the present on the undo stack, keeps the
newest `cap` entries and clears the redo stack; undo and redo move the present from one stack to
the other.  The bound is on both stacks together, so undo and redo need not cut anything.
-/

namespace Clemvion.Library

variable {α : Type} {cap : Nat}

/-- The newest entry of either stack is its last one. -/
structure Timeline (α : Type) (cap : Nat) where
  undoStack : List α
  redoStack : List α
  bounded : undoStack.length + redoStack.length ≤ cap

namespace Timeline

/-! ## 1. Operations -/

def empty : Timeline α cap := ⟨[], [], Nat.zero_le cap⟩

/-- `[...undoStack, present].slice(-cap)`, with the redo stack cleared. -/
def push (t : Timeline α cap) (present : α) : Timeline α cap where
  undoStack := (t.undoStack ++ [present]).drop (t.undoStack.length + 1 - cap)
  redoStack := []
  bounded := by simp only [List.length_drop, List.length_append, List.length_cons, List.length_nil]; omega

/-- What undo brings back, and the stacks it leaves. -/
def undo? (t : Timeline α cap) (present : α) : Option (α × Timeline α cap) :=
  match h : t.undoStack.getLast? with
  | none => none
  | some prev => some (prev,
    { undoStack := t.undoStack.dropLast
      redoStack := t.redoStack ++ [present]
      bounded := by
        have hne : t.undoStack ≠ [] := by
          intro hnil
          rw [hnil] at h
          cases h
        have hpos := List.length_pos_of_ne_nil hne
        have hbound := t.bounded
        simp only [List.length_dropLast, List.length_append, List.length_cons, List.length_nil]
        omega })

/-- What redo brings back, and the stacks it leaves. -/
def redo? (t : Timeline α cap) (present : α) : Option (α × Timeline α cap) :=
  match h : t.redoStack.getLast? with
  | none => none
  | some next => some (next,
    { undoStack := t.undoStack ++ [present]
      redoStack := t.redoStack.dropLast
      bounded := by
        have hne : t.redoStack ≠ [] := by
          intro hnil
          rw [hnil] at h
          cases h
        have hpos := List.length_pos_of_ne_nil hne
        have hbound := t.bounded
        simp only [List.length_dropLast, List.length_append, List.length_cons, List.length_nil]
        omega })

/-- The undo stack, newest entry first. -/
def recent (t : Timeline α cap) : List α := t.undoStack.reverse

/-! ## 2. One step -/

variable {t t' : Timeline α cap} {prev next : α}

theorem ext_stacks (hundo : t.undoStack = t'.undoStack) (hredo : t.redoStack = t'.redoStack) :
    t = t' := by
  cases t
  cases t'
  cases hundo
  cases hredo
  rfl

theorem recent_push (t : Timeline α cap) (present : α) :
    (t.push present).recent = (present :: t.recent).take cap := by
  show ((t.undoStack ++ [present]).drop (t.undoStack.length + 1 - cap)).reverse = _
  have hlength : (t.undoStack ++ [present]).length = t.undoStack.length + 1 := by simp
  rw [← hlength, List.reverse_drop, List.reverse_append]
  have hcut : (t.undoStack ++ [present]).length - ((t.undoStack ++ [present]).length - cap) =
      min cap (t.undoStack ++ [present]).length := by omega
  rw [hcut]
  show (present :: t.recent).take (min cap (t.undoStack ++ [present]).length) = _
  have hfull : (t.undoStack ++ [present]).length = (present :: t.recent).length := by
    simp [recent]
  rw [hfull, ← List.take_eq_take_min]

theorem undo?_of_concat {older : List α} (present : α) (h : t.undoStack = older ++ [prev]) :
    ∃ t', t.undo? present = some (prev, t') ∧ t'.undoStack = older ∧
      t'.redoStack = t.redoStack ++ [present] := by
  have hlast : t.undoStack.getLast? = some prev := by rw [h, List.getLast?_concat]
  unfold undo?
  split
  · rename_i hnone
    rw [hlast] at hnone
    cases hnone
  · rename_i prev' hsome
    rw [hlast] at hsome
    cases hsome
    refine ⟨_, rfl, ?_, rfl⟩
    show t.undoStack.dropLast = older
    rw [h, List.dropLast_concat]

theorem redo?_of_concat {later : List α} (present : α) (h : t.redoStack = later ++ [next]) :
    ∃ t', t.redo? present = some (next, t') ∧ t'.redoStack = later ∧
      t'.undoStack = t.undoStack ++ [present] := by
  have hlast : t.redoStack.getLast? = some next := by rw [h, List.getLast?_concat]
  unfold redo?
  split
  · rename_i hnone
    rw [hlast] at hnone
    cases hnone
  · rename_i next' hsome
    rw [hlast] at hsome
    cases hsome
    refine ⟨_, rfl, ?_, rfl⟩
    show t.redoStack.dropLast = later
    rw [h, List.dropLast_concat]

/-! ## 3. Going back and forth -/

/-- A present value with its timeline. -/
abbrev Moment (α : Type) (cap : Nat) := α × Timeline α cap

def back (m : Moment α cap) : Moment α cap := (m.2.undo? m.1).getD m

def forward (m : Moment α cap) : Moment α cap := (m.2.redo? m.1).getD m

variable {m : Moment α cap}

theorem back_of_concat {older : List α} (h : m.2.undoStack = older ++ [prev]) :
    (back m).1 = prev ∧ (back m).2.undoStack = older ∧
      (back m).2.redoStack = m.2.redoStack ++ [m.1] := by
  obtain ⟨t', hundo, hstack, hredo⟩ := undo?_of_concat m.1 h
  unfold back
  rw [hundo]
  exact ⟨rfl, hstack, hredo⟩

theorem forward_of_concat {later : List α} (h : m.2.redoStack = later ++ [next]) :
    (forward m).1 = next ∧ (forward m).2.redoStack = later ∧
      (forward m).2.undoStack = m.2.undoStack ++ [m.1] := by
  obtain ⟨t', hredo, hstack, hundo⟩ := redo?_of_concat m.1 h
  unfold forward
  rw [hredo]
  exact ⟨rfl, hstack, hundo⟩

theorem exists_concat {l : List α} (h : 0 < l.length) : ∃ older last, l = older ++ [last] :=
  ⟨l.dropLast, l.getLast (List.ne_nil_of_length_pos h), (List.dropLast_concat_getLast _).symm⟩

theorem forward_back (h : 0 < m.2.undoStack.length) : forward (back m) = m := by
  obtain ⟨older, prev, hstack⟩ := exists_concat h
  obtain ⟨hprev, holder, hredo⟩ := back_of_concat hstack
  obtain ⟨hpresent, hlater, hundo⟩ := forward_of_concat hredo
  refine Prod.ext hpresent (ext_stacks ?_ hlater)
  rw [hundo, holder, hprev, hstack]

theorem length_back (h : 0 < m.2.undoStack.length) :
    (back m).2.undoStack.length = m.2.undoStack.length - 1 := by
  obtain ⟨older, prev, hstack⟩ := exists_concat h
  rw [(back_of_concat hstack).2.1, hstack]
  simp

/-- **Redo after undo.** As many steps forward as back. -/
theorem forward_back_iterate (k : Nat) (h : k ≤ m.2.undoStack.length) :
    forward^[k] (back^[k] m) = m := by
  induction k generalizing m with
  | zero => rfl
  | succ k ih =>
    rw [Function.iterate_succ_apply', Function.iterate_succ_apply back, ih]
    · exact forward_back (by omega)
    · rw [length_back (by omega)]
      omega

/-- **Undo.** So many steps back bring the entry at that depth. -/
theorem back_iterate (k : Nat) (h : m.2.recent[k]? = some prev) : (back^[k + 1] m).1 = prev := by
  induction k generalizing m with
  | zero =>
    have hlast : m.2.undoStack.getLast? = some prev := by
      rw [← h, recent, List.getLast?_eq_head?_reverse, List.head?_eq_getElem?]
    obtain ⟨older, hstack⟩ := List.getLast?_eq_some_iff.mp hlast
    exact (back_of_concat hstack).1
  | succ k ih =>
    rw [Function.iterate_succ_apply]
    have hlength : 0 < m.2.undoStack.length := by
      have hlt := (List.getElem?_eq_some_iff.mp h).1
      rw [recent, List.length_reverse] at hlt
      omega
    obtain ⟨older, last, hstack⟩ := exists_concat hlength
    apply ih
    rw [← h, recent, recent, (back_of_concat hstack).2.1, hstack]
    simp

/-! ## 4. What every entry satisfies -/

/-- The present and everything that undo and redo can bring back. -/
structure Holds (P : α → Prop) (m : Moment α cap) : Prop where
  present : P m.1
  past : ∀ c ∈ m.2.undoStack, P c
  future : ∀ c ∈ m.2.redoStack, P c

variable {P : α → Prop}

/-- A checkpoint, and a new present. -/
theorem Holds.push (h : Holds P m) (hnext : P next) : Holds P (next, m.2.push m.1) := by
  refine ⟨hnext, fun c hc => ?_, fun c hc => nomatch hc⟩
  obtain hold | hpresent := List.mem_append.mp (List.mem_of_mem_drop hc)
  · exact h.past c hold
  · rw [List.mem_singleton.mp hpresent]
    exact h.present

theorem eq_nil_or_concat (l : List α) : l = [] ∨ ∃ older last, l = older ++ [last] := by
  obtain hnil | hpos := Nat.eq_zero_or_pos l.length
  · exact .inl (List.length_eq_zero_iff.mp hnil)
  · exact .inr (exists_concat hpos)

theorem undo?_of_nil (h : t.undoStack = []) (present : α) : t.undo? present = none := by
  unfold undo?
  split
  · rfl
  · rename_i prev hprev
    rw [h] at hprev
    cases hprev

theorem redo?_of_nil (h : t.redoStack = []) (present : α) : t.redo? present = none := by
  unfold redo?
  split
  · rfl
  · rename_i next hnext
    rw [h] at hnext
    cases hnext

theorem Holds.back (h : Holds P m) : Holds P (back m) := by
  obtain hnil | ⟨older, prev, hstack⟩ := eq_nil_or_concat m.2.undoStack
  · unfold Timeline.back
    rw [undo?_of_nil hnil]
    exact h
  · obtain ⟨hpresent, hundo, hredo⟩ := back_of_concat hstack
    have hpast : ∀ c ∈ older ++ [prev], P c := by
      rw [← hstack]
      exact h.past
    refine ⟨?_, fun c hc => ?_, fun c hc => ?_⟩
    · rw [hpresent]
      exact hpast prev (List.mem_append_right _ List.mem_cons_self)
    · rw [hundo] at hc
      exact hpast c (List.mem_append_left _ hc)
    · rw [hredo] at hc
      obtain hold | hnew := List.mem_append.mp hc
      · exact h.future c hold
      · rw [List.mem_singleton.mp hnew]
        exact h.present

theorem Holds.forward (h : Holds P m) : Holds P (forward m) := by
  obtain hnil | ⟨later, next, hstack⟩ := eq_nil_or_concat m.2.redoStack
  · unfold Timeline.forward
    rw [redo?_of_nil hnil]
    exact h
  · obtain ⟨hpresent, hredo, hundo⟩ := forward_of_concat hstack
    have hfuture : ∀ c ∈ later ++ [next], P c := by
      rw [← hstack]
      exact h.future
    refine ⟨?_, fun c hc => ?_, fun c hc => ?_⟩
    · rw [hpresent]
      exact hfuture next (List.mem_append_right _ List.mem_cons_self)
    · rw [hundo] at hc
      obtain hold | hnew := List.mem_append.mp hc
      · exact h.past c hold
      · rw [List.mem_singleton.mp hnew]
        exact h.present
    · rw [hredo] at hc
      exact hfuture c (List.mem_append_left _ hc)

end Timeline

end Clemvion.Library
