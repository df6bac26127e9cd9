import Mathlib.Data.List.Basic

/-!
# Segments — lists cut at boundary elements

Some elements of a list *need* an earlier element that answers them, and no boundary may stand
between the two.  Such a list can be cut in front of any boundary.
-/

namespace Clemvion.Library

variable {α : Type*} {needs boundary : α → Prop} {answers : α → α → Prop}

/-- Every element that needs it has an earlier answering element with no boundary in between. -/
def Answered (needs : α → Prop) (answers : α → α → Prop) (boundary : α → Prop) (l : List α) : Prop :=
  ∀ before m after, l = before ++ m :: after → needs m →
    ∃ front c between, before = front ++ c :: between ∧ answers m c ∧ ∀ x ∈ between, ¬ boundary x

theorem answered_of_no_needs {l : List α} (h : ∀ m ∈ l, ¬ needs m) : Answered needs answers boundary l := by
  intro before m after hl hm
  exact absurd hm (h m (by rw [hl]; simp))

theorem Answered.append {l t : List α} (hl : Answered needs answers boundary l)
    (ht : Answered needs answers boundary t) : Answered needs answers boundary (l ++ t) := by
  intro before m after h hm
  rcases List.append_eq_append_iff.mp h with ⟨mid, rfl, h'⟩ | ⟨mid, h', hafter⟩
  · obtain ⟨front, c, between, rfl, hc, hb⟩ := ht mid m after h' hm
    exact ⟨l ++ front, c, between, by simp, hc, hb⟩
  · cases mid with
    | nil =>
      obtain ⟨front, c, between, hmid, hc, hb⟩ := ht [] m after (by simpa using hafter.symm) hm
      simp at hmid
    | cons y mid =>
      have hy : y = m := by simpa using (List.cons.inj hafter).1.symm
      exact hl before m mid (by rw [h', hy]) hm

/-- What stands from a boundary on is answered by itself: an answer never crosses the boundary. -/
theorem Answered.from_boundary {l t : List α} {b : α} (hb : boundary b) (hneeds : ¬ needs b)
    (h : Answered needs answers boundary (l ++ b :: t)) : Answered needs answers boundary (b :: t) := by
  intro before m after ht hm
  cases before with
  | nil => exact absurd ((List.cons.inj ht).1 ▸ hm) hneeds
  | cons b' before =>
    obtain ⟨rfl, ht'⟩ := List.cons.inj ht
    obtain ⟨front, c, between, hfront, hc, hbetween⟩ :=
      h (l ++ b :: before) m after (by rw [ht']; simp) hm
    -- the answering element stands at the boundary or after it
    rcases List.append_eq_append_iff.mp hfront with ⟨mid, rfl, hmid⟩ | ⟨mid, _, hmid⟩
    · exact ⟨mid, c, between, hmid, hc, hbetween⟩
    · cases mid with
      | nil => exact ⟨[], c, between, by simpa using hmid.symm, hc, hbetween⟩
      | cons y mid =>
        have hmem : b ∈ between := by rw [(List.cons.inj hmid).2]; simp
        exact absurd hb (hbetween b hmem)

/-! ## Deciding it -/

section Decide

variable [DecidablePred needs] [∀ m, DecidablePred (answers m)] [DecidablePred boundary]

/-- The elements since the last boundary, that boundary included, after one more element. -/
def nextSeen (boundary : α → Prop) [DecidablePred boundary] (seen : List α) (m : α) : List α :=
  if boundary m then [m] else m :: seen

/-- One pass from the front. -/
def answeredFrom (needs : α → Prop) (answers : α → α → Prop) (boundary : α → Prop) [DecidablePred needs]
    [∀ m, DecidablePred (answers m)] [DecidablePred boundary] : List α → List α → Bool
  | _, [] => true
  | seen, m :: rest =>
    (!decide (needs m) || seen.any fun c => answers m c) &&
      answeredFrom needs answers boundary (nextSeen boundary seen m) rest

/-- `m` is answered in `before`, or by one of `seen` in front of it. -/
def HasAnswer (answers : α → α → Prop) (boundary : α → Prop) (seen before : List α) (m : α) : Prop :=
  (∃ front c between, before = front ++ c :: between ∧ answers m c ∧ ∀ x ∈ between, ¬ boundary x) ∨
    ((∀ x ∈ before, ¬ boundary x) ∧ ∃ c ∈ seen, answers m c)

omit [∀ m, DecidablePred (answers m)] [DecidablePred boundary] in
theorem hasAnswer_nil {seen : List α} {m : α} : HasAnswer answers boundary seen [] m ↔ ∃ c ∈ seen, answers m c := by
  simp [HasAnswer]

omit [∀ m, DecidablePred (answers m)] in
theorem hasAnswer_cons {seen before : List α} {x m : α} :
    HasAnswer answers boundary seen (x :: before) m ↔
      HasAnswer answers boundary (nextSeen boundary seen x) before m := by
  have hseen : ∀ c, c ∈ nextSeen boundary seen x ↔ c = x ∨ (¬ boundary x ∧ c ∈ seen) := by
    intro c
    unfold nextSeen
    by_cases hx : boundary x <;> simp [hx]
  constructor
  · rintro (⟨front, c, between, hsplit, hc, hbetween⟩ | ⟨hnone, c, hc, hans⟩)
    · cases front with
      | nil =>
        obtain ⟨rfl, rfl⟩ := List.cons.inj hsplit
        exact Or.inr ⟨hbetween, x, (hseen x).mpr (Or.inl rfl), hc⟩
      | cons y front =>
        obtain ⟨rfl, hrest⟩ := List.cons.inj hsplit
        exact Or.inl ⟨front, c, between, hrest, hc, hbetween⟩
    · rw [List.forall_mem_cons] at hnone
      exact Or.inr ⟨hnone.2, c, (hseen c).mpr (Or.inr ⟨hnone.1, hc⟩), hans⟩
  · rintro (⟨front, c, between, rfl, hc, hbetween⟩ | ⟨hnone, c, hc, hans⟩)
    · exact Or.inl ⟨x :: front, c, between, rfl, hc, hbetween⟩
    · rcases (hseen c).mp hc with rfl | ⟨hx, hc⟩
      · exact Or.inl ⟨[], c, before, rfl, hans, hnone⟩
      · exact Or.inr ⟨List.forall_mem_cons.mpr ⟨hx, hnone⟩, c, hc, hans⟩

theorem answeredFrom_iff {seen l : List α} :
    answeredFrom needs answers boundary seen l = true ↔
      ∀ before m after, l = before ++ m :: after → needs m → HasAnswer answers boundary seen before m := by
  induction l generalizing seen with
  | nil => simp [answeredFrom]
  | cons x rest ih =>
    have hhead : (!decide (needs x) || seen.any fun c => answers x c) = true ↔
        (needs x → ∃ c ∈ seen, answers x c) := by
      by_cases hx : needs x <;> simp [hx]
    unfold answeredFrom
    rw [Bool.and_eq_true, hhead, ih]
    constructor
    · rintro ⟨hfirst, hrest⟩ before m after hl hm
      cases before with
      | nil =>
        obtain ⟨rfl, -⟩ := List.cons.inj hl
        exact hasAnswer_nil.mpr (hfirst hm)
      | cons y before =>
        obtain ⟨rfl, htail⟩ := List.cons.inj hl
        exact hasAnswer_cons.mpr (hrest before m after htail hm)
    · intro h
      constructor
      · intro hx
        exact hasAnswer_nil.mp (h [] x rest rfl hx)
      · intro before m after hl hm
        exact hasAnswer_cons.mp (h (x :: before) m after (by rw [hl]; rfl) hm)

theorem answeredFrom_nil_iff {l : List α} :
    answeredFrom needs answers boundary [] l = true ↔ Answered needs answers boundary l := by
  rw [answeredFrom_iff]
  simp [HasAnswer, Answered]

instance (l : List α) : Decidable (Answered needs answers boundary l) :=
  decidable_of_iff _ answeredFrom_nil_iff

end Decide

end Clemvion.Library
