import Mathlib.Data.List.TakeWhile
import Clemvion.Library.Occurrences

/-!
# Blocks — deleting what stands between a header and a footer

A block is a header and everything up to the first footer behind it, together with the gaps right
before the header.  One pass from the left deletes all blocks.  Header and footer are markers: they
begin with a letter that does not come again in them, and a gap is another letter.
-/

namespace Clemvion.Library

variable {α : Type*} [DecidableEq α] {a : α}

/-- What follows the first occurrence of the pattern. -/
def afterFirst (pattern : List α) : List α → Option (List α)
  | [] => none
  | c :: cs =>
    if pattern <+: c :: cs then some ((c :: cs).drop pattern.length) else afterFirst pattern cs

section AfterFirst

variable {pattern : List α}

theorem afterFirst_eq_none {text : List α} (h : occurrences pattern text = 0) :
    afterFirst pattern text = none := by
  induction text with
  | nil => rfl
  | cons c cs ih =>
    rw [occurrences] at h
    split_ifs at h with hfront
    · omega
    · rw [afterFirst, if_neg hfront, ih (by omega)]

theorem afterFirst_append (h : Marker a pattern) {x : List α} (hx : occurrences pattern x = 0)
    (y : List α) : afterFirst pattern (x ++ pattern ++ y) = some y := by
  induction x with
  | nil =>
    have hfront : pattern <+: pattern ++ y := List.prefix_append _ _
    rw [List.nil_append, h.eq_cons, List.cons_append] at *
    rw [afterFirst, if_pos hfront, ← List.cons_append, List.drop_left]
  | cons c x ih =>
    rw [occurrences] at hx
    split_ifs at hx with hfront
    · omega
    · have hnot : ¬ pattern <+: c :: (x ++ pattern ++ y) := by
        intro hbefore
        refine hfront (h.prefix_of_append (y := pattern.tail ++ y) ?_)
        rw [← List.cons_append, ← h.eq_cons]
        simpa using hbefore
      rw [List.cons_append, List.cons_append, afterFirst, if_neg hnot, ih (by omega)]

theorem length_afterFirst (hne : pattern ≠ []) {text rest : List α}
    (h : afterFirst pattern text = some rest) : rest.length < text.length := by
  have hpos : 0 < pattern.length := List.length_pos_of_ne_nil hne
  induction text with
  | nil => cases h
  | cons c cs ih =>
    rw [afterFirst] at h
    split_ifs at h with hfront
    · rw [← Option.some.inj h, List.length_drop, List.length_cons]
      omega
    · rw [List.length_cons]
      have := ih h
      omega

/-- A text with the pattern has a first occurrence. -/
theorem exists_first {text : List α} (h : occurrences pattern text ≠ 0) (hmarker : Marker a pattern) :
    ∃ x y, text = x ++ pattern ++ y ∧ occurrences pattern x = 0 := by
  induction text with
  | nil => exact absurd (occurrences_nil hmarker) h
  | cons c cs ih =>
    -- at the front, or behind the first element, where it does not begin at the front
    by_cases hfront : pattern <+: c :: cs
    · obtain ⟨y, hy⟩ := hfront
      exact ⟨[], y, by rw [List.nil_append, hy], occurrences_nil hmarker⟩
    · rw [occurrences, if_neg hfront, Nat.zero_add] at h
      obtain ⟨x, y, rfl, hx⟩ := ih h
      refine ⟨c :: x, y, by simp, ?_⟩
      have hnot : ¬ pattern <+: c :: x := fun hbefore =>
        hfront (hbefore.trans (by simp [List.prefix_append]))
      rw [occurrences, if_neg hnot, hx]

/-- Behind a text that begins with the letter and has no pattern, nothing is found. -/
theorem afterFirst_append_free (h : Marker a pattern) (x : List α) {y : List α}
    (hy : occurrences pattern (a :: y) = 0) :
    afterFirst pattern (x ++ a :: y) = (afterFirst pattern x).map (· ++ a :: y) := by
  induction x with
  | nil => rw [List.nil_append, afterFirst_eq_none hy]; rfl
  | cons c x ih =>
    rw [List.cons_append, afterFirst, afterFirst]
    -- an occurrence at the front ends before the letter
    by_cases hfront : pattern <+: c :: x
    · have hlonger : pattern <+: c :: (x ++ a :: y) :=
        hfront.trans (by rw [← List.cons_append]; exact List.prefix_append _ _)
      rw [if_pos hfront, if_pos hlonger, Option.map_some, ← List.cons_append,
        List.drop_append_of_le_length hfront.length_le]
    · have hnot : ¬ pattern <+: c :: (x ++ a :: y) := fun hbefore =>
        hfront (h.prefix_of_append (by simpa using hbefore))
      rw [if_neg hfront, if_neg hnot, ih]

end AfterFirst

/-! ## 1. One pass -/

structure Fence (α : Type*) where
  gap : α
  header : List α
  footer : List α

namespace Fence

/-- A block at the front: what follows it. -/
def matchBlock (F : Fence α) (text : List α) : Option (List α) :=
  let body := text.dropWhile fun c => c = F.gap
  if F.header <+: body then afterFirst F.footer (body.drop F.header.length) else none

def removeFrom (F : Fence α) : Nat → List α → List α
  | 0, text => text
  | _ + 1, [] => []
  | fuel + 1, c :: cs =>
    match F.matchBlock (c :: cs) with
    | some rest => removeFrom F fuel rest
    | none => c :: removeFrom F fuel cs

/-- The text without its blocks. -/
def removeBlocks (F : Fence α) (text : List α) : List α := F.removeFrom text.length text

/-- Header and footer are markers, and a gap stands in none of them. -/
structure Marked (a : α) (F : Fence α) : Prop where
  header : Marker a F.header
  footer : Marker a F.footer
  gap : F.gap ≠ a

variable {F : Fence α}

theorem length_matchBlock (hF : F.Marked a) {text rest : List α} (h : F.matchBlock text = some rest) :
    rest.length < text.length := by
  unfold matchBlock at h
  dsimp only at h
  split_ifs at h
  have hfooter := length_afterFirst hF.footer.ne_nil h
  have hdrop := (List.dropWhile_suffix (l := text) fun c => decide (c = F.gap)).length_le
  rw [List.length_drop] at hfooter
  omega

theorem removeFrom_eq (hF : F.Marked a) {fuel : Nat} {text : List α} (h : text.length ≤ fuel) :
    F.removeFrom fuel text = F.removeBlocks text := by
  -- fuel for the length is enough, since every step shortens the text
  have hsame : ∀ n m text, List.length text ≤ n → text.length ≤ m →
      F.removeFrom n text = F.removeFrom m text := by
    intro n
    induction n with
    | zero =>
      intro m text hn _
      obtain rfl := List.eq_nil_of_length_eq_zero (Nat.le_zero.mp hn)
      cases m <;> rfl
    | succ n ih =>
      intro m text hn hm
      cases text with
      | nil => cases m <;> rfl
      | cons c cs =>
        cases m with
        | zero => exact absurd hm (by simp)
        | succ m =>
          rw [removeFrom, removeFrom]
          rw [List.length_cons] at hn hm
          cases hmatch : F.matchBlock (c :: cs) with
          | none => exact congrArg (c :: ·) (ih m cs (by omega) (by omega))
          | some rest =>
            have hlength := length_matchBlock hF hmatch
            rw [List.length_cons] at hlength
            exact ih m rest (by omega) (by omega)
  exact hsame _ _ _ h (Nat.le_refl _)

@[simp] theorem removeBlocks_nil : F.removeBlocks [] = [] := rfl

theorem removeBlocks_cons (hF : F.Marked a) {c : α} {cs : List α}
    (h : F.matchBlock (c :: cs) = none) : F.removeBlocks (c :: cs) = c :: F.removeBlocks cs := by
  show F.removeFrom (cs.length + 1) (c :: cs) = _
  rw [removeFrom, h]
  exact congrArg (c :: ·) (removeFrom_eq hF (Nat.le_refl _))

theorem removeBlocks_of_match (hF : F.Marked a) {text rest : List α}
    (h : F.matchBlock text = some rest) : F.removeBlocks text = F.removeBlocks rest := by
  have hlength := length_matchBlock hF h
  cases text with
  | nil => exact absurd hlength (by simp)
  | cons c cs =>
    show F.removeFrom (cs.length + 1) (c :: cs) = _
    rw [removeFrom, h]
    rw [List.length_cons] at hlength
    exact removeFrom_eq hF (by omega)

/-! ## 2. What a pass keeps and what it deletes -/

theorem dropWhile_gaps (hF : F.Marked a) {gaps : List α} (h : ∀ c ∈ gaps, c = F.gap) (rest : List α) :
    (gaps ++ F.header ++ rest).dropWhile (fun c => decide (c = F.gap)) = F.header ++ rest := by
  rw [List.append_assoc, List.dropWhile_append_of_pos (fun c hc => by simpa using h c hc),
    hF.header.eq_cons, List.cons_append, List.dropWhile_cons, if_neg (by simpa using hF.gap.symm)]

/-- A block whose body has no footer is deleted. -/
theorem removeBlocks_block (hF : F.Marked a) {gaps body : List α} (hgaps : ∀ c ∈ gaps, c = F.gap)
    (hbody : occurrences F.footer body = 0) (rest : List α) :
    F.removeBlocks (gaps ++ F.header ++ (body ++ F.footer ++ rest)) = F.removeBlocks rest := by
  refine removeBlocks_of_match hF ?_
  unfold matchBlock
  dsimp only
  rw [dropWhile_gaps hF hgaps, if_pos (List.prefix_append _ _), List.drop_left,
    afterFirst_append hF.footer hbody]

/-- What no header begins in is kept, when it does not end with gaps. -/
theorem removeBlocks_append (hF : F.Marked a) {x y : List α} (hend : x.getLast? ≠ some F.gap)
    (hnone : ∀ v, v <:+ x → v ≠ [] → ¬ F.header <+: v ++ y) :
    F.removeBlocks (x ++ y) = x ++ F.removeBlocks y := by
  induction x with
  | nil => rfl
  | cons c x ih =>
    have hmatch : F.matchBlock (c :: (x ++ y)) = none := by
      unfold matchBlock
      dsimp only
      rw [if_neg]
      have hsuffix := List.dropWhile_suffix (l := c :: x) fun c => decide (c = F.gap)
      -- the gaps at the front end inside of what is kept
      have hne : (c :: x).dropWhile (fun c => decide (c = F.gap)) ≠ [] := by
        intro hall
        have hgaps : ∀ d ∈ c :: x, d = F.gap := by
          intro d hd
          simpa using List.dropWhile_eq_nil_iff.mp hall d hd
        refine hend ?_
        rw [List.getLast?_eq_some_getLast (List.cons_ne_nil _ _)]
        exact congrArg some (hgaps _ (List.getLast_mem _))
      rw [← List.cons_append, List.dropWhile_append,
        if_neg (by simpa [List.isEmpty_iff] using hne)]
      exact hnone _ hsuffix hne
    rw [List.cons_append, removeBlocks_cons hF hmatch]
    congr 1
    refine ih ?_ fun v hv => hnone v (hv.trans (List.suffix_cons c x))
    cases x with
    | nil => simp
    | cons d x => rwa [List.getLast?_cons_cons] at hend

/-- A text without a header is kept. -/
theorem removeBlocks_free (hF : F.Marked a) {text : List α} (h : occurrences F.header text = 0) :
    F.removeBlocks text = text := by
  induction text with
  | nil => rfl
  | cons c cs ih =>
    have hmatch : F.matchBlock (c :: cs) = none := by
      unfold matchBlock
      dsimp only
      rw [if_neg]
      intro hbefore
      refine not_prefix_of_suffix h (List.dropWhile_suffix _) ?_ hbefore
      intro hnil
      rw [hnil] at hbefore
      exact hF.header.ne_nil (List.prefix_nil.mp hbefore)
    have hle : occurrences F.header cs ≤ occurrences F.header (c :: cs) :=
      occurrences_le_append_right [c] cs
    rw [removeBlocks_cons hF hmatch, ih (by omega)]

/-- A text behind which another one begins with the letter that headers begin with. -/
theorem removeBlocks_append_free (hF : F.Marked a) (x : List α) {y : List α}
    (hheader : occurrences F.header (a :: y) = 0) (hfooter : occurrences F.footer (a :: y) = 0) :
    F.removeBlocks (x ++ a :: y) = F.removeBlocks x ++ a :: y := by
  have hfree : ∀ z, z <:+ a :: y → ¬ F.header <+: z := by
    intro z hz hbefore
    refine not_prefix_of_suffix hheader hz ?_ hbefore
    rintro rfl
    exact hF.header.ne_nil (List.prefix_nil.mp hbefore)
  -- on the length: a match goes on behind its footer
  induction hn : x.length using Nat.strongRecOn generalizing x with
  | ind n ih =>
    cases x with
    | nil => exact removeBlocks_free hF hheader
    | cons c x =>
      have hmatch : F.matchBlock (c :: x ++ a :: y) = (F.matchBlock (c :: x)).map (· ++ a :: y) := by
        unfold matchBlock
        dsimp only
        rw [List.dropWhile_append]
        -- gaps alone are no block; else the block lies before the letter, or there is none
        cases hdrop : (c :: x).dropWhile fun c => decide (c = F.gap) with
        | nil =>
          have hempty : ¬ F.header <+: [] := fun hbefore =>
            hF.header.ne_nil (List.prefix_nil.mp hbefore)
          simp only [List.isEmpty_nil, if_true, if_neg (hfree _ (List.dropWhile_suffix _)),
            if_neg hempty]
          rfl
        | cons d rest =>
          simp only [List.isEmpty_cons, Bool.false_eq_true, if_false]
          have hsame : F.header <+: d :: rest ++ a :: y ↔ F.header <+: d :: rest :=
            ⟨fun hbefore => hF.header.prefix_of_append hbefore,
              fun hbefore => hbefore.trans (List.prefix_append _ _)⟩
          simp only [hsame]
          split_ifs with hheader'
          · rw [List.drop_append_of_le_length hheader'.length_le,
              afterFirst_append_free hF.footer _ hfooter]
          · rfl
      cases hcase : F.matchBlock (c :: x) with
      | none =>
        rw [hcase] at hmatch
        rw [List.cons_append] at hmatch ⊢
        rw [removeBlocks_cons hF hmatch, removeBlocks_cons hF hcase,
          ih x.length (by rw [← hn, List.length_cons]; omega) x rfl]
        rfl
      | some rest =>
        rw [hcase, Option.map_some] at hmatch
        rw [removeBlocks_of_match hF hmatch, removeBlocks_of_match hF hcase]
        exact ih rest.length (by rw [← hn]; exact length_matchBlock hF hcase) rest rfl

end Fence

end Clemvion.Library
