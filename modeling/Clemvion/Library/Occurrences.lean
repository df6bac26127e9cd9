import Mathlib.Data.List.Infix
import Mathlib.Data.List.Basic

/-!
# Occurrences — how often a pattern stands in a text

A text is a list over any alphabet.  `split` cuts a text at a pattern from left to right, and
`List.intercalate` joins pieces, so that `split` and a join replace a pattern.  The patterns here
begin with a letter that does not come again in them: such a pattern never overlaps itself, and an
occurrence never reaches across a place where that letter stands.
-/

namespace Clemvion.Library

variable {α : Type*}

/-! ## 1. Markers -/

/-- The pattern begins with this letter, and the letter does not come again. -/
structure Marker (a : α) (pattern : List α) : Prop where
  head : pattern.head? = some a
  tail : a ∉ pattern.tail

variable {a : α} {pattern : List α}

theorem Marker.eq_cons (h : Marker a pattern) : pattern = a :: pattern.tail := by
  have hhead := h.head
  cases pattern with
  | nil => cases hhead
  | cons b rest =>
    obtain rfl : b = a := Option.some.inj hhead
    rfl

theorem Marker.ne_nil (h : Marker a pattern) : pattern ≠ [] := by
  rw [h.eq_cons]
  exact List.cons_ne_nil _ _

/-- A pattern that stands at the front ends before the first letter comes again. -/
theorem Marker.prefix_of_append (h : Marker a pattern) {c : α} {x y : List α}
    (hbefore : pattern <+: c :: x ++ a :: y) : pattern <+: c :: x := by
  by_contra hlong
  have hlength : (c :: x).length < pattern.length := by
    by_contra hle
    exact hlong (List.prefix_of_prefix_length_le hbefore (List.prefix_append _ _) (by omega))
  have hcut : c :: x ++ [a] <+: pattern := by
    refine List.prefix_of_prefix_length_le ⟨y, by simp⟩ hbefore ?_
    rw [List.length_append, List.length_singleton]
    omega
  obtain ⟨rest, rfl⟩ := hcut
  exact h.tail (by simp)

/-! ## 2. Counting -/

variable [DecidableEq α]

/-- The number of places where the pattern begins. -/
def occurrences (pattern : List α) : List α → Nat
  | [] => if pattern = [] then 1 else 0
  | c :: cs => (if pattern <+: c :: cs then 1 else 0) + occurrences pattern cs

theorem occurrences_nil (h : Marker a pattern) : occurrences pattern [] = 0 := if_neg h.ne_nil

/-- No occurrence reaches across a place where the first letter stands. -/
theorem occurrences_append_cons (h : Marker a pattern) (x y : List α) :
    occurrences pattern (x ++ a :: y) = occurrences pattern x + occurrences pattern (a :: y) := by
  induction x with
  | nil => rw [List.nil_append, occurrences_nil h, Nat.zero_add]
  | cons c x ih =>
    have hfront : pattern <+: c :: (x ++ a :: y) ↔ pattern <+: c :: x :=
      ⟨fun hbefore => h.prefix_of_append hbefore,
        fun hbefore => hbefore.trans ⟨a :: y, by rw [List.cons_append]⟩⟩
    rw [List.cons_append, occurrences, occurrences, ih]
    simp only [hfront]
    omega

/-- Where the first letter does not stand, nothing begins. -/
theorem occurrences_append_of_not_mem (h : Marker a pattern) {x : List α} (hx : a ∉ x) (y : List α) :
    occurrences pattern (x ++ y) = occurrences pattern y := by
  induction x with
  | nil => rfl
  | cons c x ih =>
    rw [List.mem_cons, not_or] at hx
    have hfront : ¬ pattern <+: c :: (x ++ y) := by
      rw [h.eq_cons]
      intro hbefore
      exact hx.1 (List.cons_prefix_cons.mp hbefore).1
    rw [List.cons_append, occurrences, if_neg hfront, ih hx.2, Nat.zero_add]

theorem occurrences_le_append_left (h : Marker a pattern) (x y : List α) :
    occurrences pattern x ≤ occurrences pattern (x ++ y) := by
  induction x with
  | nil =>
    rw [occurrences_nil h]
    exact Nat.zero_le _
  | cons c x ih =>
    have hfront : pattern <+: c :: x → pattern <+: c :: (x ++ y) := fun hbefore =>
      hbefore.trans ⟨y, by rw [List.cons_append]⟩
    rw [List.cons_append, occurrences, occurrences]
    split_ifs with hshort hlong
    · omega
    · exact absurd (hfront hshort) hlong
    · omega
    · omega

theorem occurrences_le_append_right (x y : List α) :
    occurrences pattern y ≤ occurrences pattern (x ++ y) := by
  induction x with
  | nil => exact Nat.le_refl _
  | cons c x ih =>
    rw [List.cons_append, occurrences]
    omega

/-- A text that begins with the letter, where the letter does not come again for a while. -/
theorem occurrences_block (h : Marker a pattern) {block : List α} (hblock : Marker a block)
    (rest : List α) : occurrences pattern (block ++ rest) =
      (if pattern <+: block ++ rest then 1 else 0) + occurrences pattern rest := by
  obtain ⟨tail, rfl, htail⟩ : ∃ tail, block = a :: tail ∧ a ∉ tail :=
    ⟨block.tail, hblock.eq_cons, hblock.tail⟩
  rw [List.cons_append, occurrences, occurrences_append_of_not_mem h htail]

/-- A marker that the pattern does not stand at counts for nothing. -/
theorem occurrences_marker_append (h : Marker a pattern) {marker rest : List α}
    (hmarker : Marker a marker) (hnot : ¬ pattern <+: marker ++ rest) :
    occurrences pattern (marker ++ rest) = occurrences pattern rest := by
  rw [occurrences_block h hmarker, if_neg hnot, Nat.zero_add]

/-- A pattern that stands at the front ends before a letter that it does not have. -/
theorem prefix_append_sep_iff {b : α} (hb : b ∉ pattern) {x y : List α} :
    pattern <+: x ++ b :: y ↔ pattern <+: x := by
  refine ⟨fun hbefore => ?_, fun hbefore => hbefore.trans (List.prefix_append _ _)⟩
  by_contra hlong
  have hlength : x.length < pattern.length := by
    by_contra hle
    exact hlong (List.prefix_of_prefix_length_le hbefore (List.prefix_append _ _) (by omega))
  have hend : x ++ [b] <+: pattern := by
    refine List.prefix_of_prefix_length_le ⟨y, by simp⟩ hbefore ?_
    rw [List.length_append, List.length_singleton]
    omega
  exact hb (hend.subset (by simp))

/-- No occurrence reaches across a letter that the pattern does not have. -/
theorem occurrences_append_sep {b : α} (hne : pattern ≠ []) (hb : b ∉ pattern) (x y : List α) :
    occurrences pattern (x ++ b :: y) = occurrences pattern x + occurrences pattern y := by
  induction x with
  | nil =>
    have hempty : ¬ pattern <+: b :: y := fun hbefore =>
      hne (List.prefix_nil.mp ((prefix_append_sep_iff (x := []) hb).mp hbefore))
    rw [List.nil_append, occurrences, occurrences, if_neg hempty, if_neg hne]
  | cons c x ih =>
    have hfront : pattern <+: c :: x ++ b :: y ↔ pattern <+: c :: x := prefix_append_sep_iff hb
    rw [List.cons_append] at hfront
    rw [List.cons_append, occurrences, occurrences, ih]
    simp only [hfront]
    omega

/-- Without an occurrence, the pattern stands at the front of no end of the text. -/
theorem not_prefix_of_suffix {text v : List α} (h : occurrences pattern text = 0) (hv : v <:+ text)
    (hne : v ≠ []) : ¬ pattern <+: v := by
  intro hbefore
  obtain ⟨x, rfl⟩ := hv
  have hle : occurrences pattern v ≤ occurrences pattern (x ++ v) := occurrences_le_append_right x v
  cases v with
  | nil => exact hne rfl
  | cons c v =>
    rw [h, occurrences, if_pos hbefore] at hle
    omega

/-! ## 3. Splitting and joining -/

/-- The pieces of a text between the occurrences of the pattern, from left to right; `skip` is
    what is left of an occurrence that was found. -/
def splitFrom (pattern : List α) : Nat → List α → List (List α)
  | _, [] => [[]]
  | skip + 1, _ :: cs => splitFrom pattern skip cs
  | 0, c :: cs =>
    if pattern <+: c :: cs then [] :: splitFrom pattern (pattern.length - 1) cs
    else
      match splitFrom pattern 0 cs with
      | [] => [[c]]
      | piece :: pieces => (c :: piece) :: pieces

/-- `text.split(pattern)`. -/
def split (pattern text : List α) : List (List α) := splitFrom pattern 0 text

/-- `text.split(pattern).join(replacement)`. -/
def replaceAll (pattern replacement text : List α) : List α :=
  replacement.intercalate (split pattern text)

theorem splitFrom_ne_nil (pattern : List α) (skip : Nat) (text : List α) :
    splitFrom pattern skip text ≠ [] := by
  induction skip, text using splitFrom.induct pattern with
  | case1 => exact List.cons_ne_nil _ _
  | case2 skip c cs ih => exact ih
  | case3 c cs hfound _ =>
    rw [splitFrom, if_pos hfound]
    exact List.cons_ne_nil _ _
  | case4 c cs hfound hnil hne => exact absurd hnil hne
  | case5 c cs hfound piece pieces hpieces _ =>
    rw [splitFrom, if_neg hfound, hpieces]
    exact List.cons_ne_nil _ _

/-- Joined by the pattern, the pieces are the text again. -/
theorem intercalate_splitFrom (hne : pattern ≠ []) (skip : Nat) (text : List α) :
    pattern.intercalate (splitFrom pattern skip text) = text.drop skip := by
  induction skip, text using splitFrom.induct pattern with
  | case1 =>
    rw [List.drop_nil]
    rfl
  | case2 skip c cs ih => exact ih
  | case3 c cs hfound ih =>
    obtain ⟨rest, hrest⟩ := hfound
    have hlength : 0 < pattern.length := List.length_pos_of_ne_nil hne
    have hdrop : cs.drop (pattern.length - 1) = rest := by
      have hall : (c :: cs).drop pattern.length = rest := by
        rw [← hrest, List.drop_left]
      rwa [List.drop_cons hlength] at hall
    rw [splitFrom, if_pos ⟨rest, hrest⟩, List.intercalate_cons_of_ne_nil (splitFrom_ne_nil _ _ _), ih, hdrop]
    exact hrest
  | case4 c cs hfound hnil _ => exact absurd hnil (splitFrom_ne_nil _ _ _)
  | case5 c cs hfound piece pieces hpieces ih =>
    rw [splitFrom, if_neg hfound, hpieces]
    rw [hpieces] at ih
    cases pieces with
    | nil =>
      rw [List.intercalate_singleton] at ih ⊢
      exact congrArg (c :: ·) ih
    | cons next rest =>
      rw [List.intercalate_cons_of_ne_nil (List.cons_ne_nil _ _)] at ih ⊢
      show c :: (piece ++ pattern ++ _) = c :: cs
      rw [ih]
      rfl

/-- The pattern is in none of the pieces. -/
theorem occurrences_splitFrom (h : Marker a pattern) (skip : Nat) (text : List α) :
    ∀ piece ∈ splitFrom pattern skip text, occurrences pattern piece = 0 := by
  induction skip, text using splitFrom.induct pattern with
  | case1 =>
    intro piece hpiece
    rw [List.mem_singleton.mp hpiece]
    exact occurrences_nil h
  | case2 skip c cs ih => exact ih
  | case3 c cs hfound ih =>
    rw [splitFrom, if_pos hfound]
    intro piece hpiece
    rcases List.mem_cons.mp hpiece with rfl | hpiece
    · exact occurrences_nil h
    · exact ih piece hpiece
  | case4 c cs hfound hnil _ => exact absurd hnil (splitFrom_ne_nil _ _ _)
  | case5 c cs hfound piece pieces hpieces ih =>
    rw [splitFrom, if_neg hfound, hpieces]
    rw [hpieces] at ih
    intro other hother
    rcases List.mem_cons.mp hother with rfl | hother
    · -- the piece is the front of what the pattern does not begin
      have hjoin := intercalate_splitFrom h.ne_nil 0 cs
      have hfront : piece <+: cs := by
        rw [hpieces, List.drop_zero] at hjoin
        cases pieces with
        | nil =>
          rw [List.intercalate_singleton] at hjoin
          exact hjoin ▸ List.prefix_rfl
        | cons next rest =>
          rw [List.intercalate_cons_of_ne_nil (List.cons_ne_nil _ _), List.append_assoc] at hjoin
          exact ⟨_, hjoin⟩
      have hnot : ¬ pattern <+: c :: piece := fun hbefore =>
        hfound (hbefore.trans (List.cons_prefix_cons.mpr ⟨rfl, hfront⟩))
      rw [occurrences, if_neg hnot, ih piece List.mem_cons_self]
    · exact ih other (List.mem_cons_of_mem _ hother)

/-- A piece has the pattern no more often than the text it was cut from. -/
theorem occurrences_le_intercalate (h : Marker a pattern) (separator : List α) {piece : List α}
    {pieces : List (List α)} (hpiece : piece ∈ pieces) :
    occurrences pattern piece ≤ occurrences pattern (separator.intercalate pieces) := by
  induction pieces with
  | nil => exact absurd hpiece List.not_mem_nil
  | cons first rest ih =>
    by_cases hrest : rest = []
    · subst hrest
      rw [List.mem_singleton.mp hpiece, List.intercalate_singleton]
    · rw [List.intercalate_cons_of_ne_nil hrest, List.append_assoc]
      rcases List.mem_cons.mp hpiece with rfl | hpiece
      · exact occurrences_le_append_left h _ _
      · refine (ih hpiece).trans ?_
        exact (occurrences_le_append_right _ _).trans (occurrences_le_append_right _ _)

/-- Between pieces, markers that the pattern does not stand at are as good as each other. -/
theorem occurrences_intercalate_congr (h : Marker a pattern) {sep sep' : List α}
    (hsep : Marker a sep) (hsep' : Marker a sep') (hnot : ∀ rest, ¬ pattern <+: sep ++ rest)
    (hnot' : ∀ rest, ¬ pattern <+: sep' ++ rest) (pieces : List (List α)) :
    occurrences pattern (sep.intercalate pieces) = occurrences pattern (sep'.intercalate pieces) := by
  have hjoin : ∀ (t first rest : List α), Marker a t → (∀ rest, ¬ pattern <+: t ++ rest) →
      occurrences pattern (first ++ (t ++ rest)) =
        occurrences pattern first + occurrences pattern rest := by
    intro t first rest ht hnone
    have hblock := occurrences_marker_append h ht (hnone rest)
    rw [ht.eq_cons, List.cons_append] at hblock ⊢
    rw [occurrences_append_cons h, hblock]
  induction pieces with
  | nil => rfl
  | cons first rest ih =>
    by_cases hrest : rest = []
    · rw [hrest, List.intercalate_singleton, List.intercalate_singleton]
    · rw [List.intercalate_cons_of_ne_nil hrest, List.intercalate_cons_of_ne_nil hrest,
        List.append_assoc, List.append_assoc, hjoin sep first _ hsep hnot,
        hjoin sep' first _ hsep' hnot', ih]

/-- Replacing one marker by another neither adds nor takes away a third one. -/
theorem occurrences_replaceAll_eq (h : Marker a pattern) {other replacement : List α}
    (hother : Marker a other) (hreplacement : Marker a replacement)
    (hnot : ∀ rest, ¬ pattern <+: other ++ rest)
    (hnot' : ∀ rest, ¬ pattern <+: replacement ++ rest) (text : List α) :
    occurrences pattern (replaceAll other replacement text) = occurrences pattern text := by
  unfold replaceAll
  rw [occurrences_intercalate_congr h hreplacement hother hnot' hnot]
  unfold split
  rw [intercalate_splitFrom hother.ne_nil, List.drop_zero]

/-! ## 4. Replacing a marker -/

/-- The text that stands for a marker is neither the marker nor the front of one. -/
structure Disarms (a : α) (pattern replacement : List α) : Prop where
  marker : Marker a replacement
  length_le : pattern.length ≤ replacement.length
  not_prefix : ¬ pattern <+: replacement

/-- Joined by a disarmed text, pieces without the marker make a text without it. -/
theorem occurrences_intercalate (h : Marker a pattern) {replacement : List α}
    (hdisarms : Disarms a pattern replacement) {pieces : List (List α)}
    (hpieces : ∀ piece ∈ pieces, occurrences pattern piece = 0) :
    occurrences pattern (replacement.intercalate pieces) = 0 := by
  induction pieces with
  | nil => exact occurrences_nil h
  | cons first rest ih =>
    have hfirst := hpieces first List.mem_cons_self
    by_cases hrest : rest = []
    · subst hrest
      rwa [List.intercalate_singleton]
    · have hbehind := ih fun piece hpiece => hpieces piece (List.mem_cons_of_mem _ hpiece)
      have hnot : ¬ pattern <+: replacement ++ replacement.intercalate rest := fun hbefore =>
        hdisarms.not_prefix (List.prefix_of_prefix_length_le hbefore (List.prefix_append _ _)
          hdisarms.length_le)
      have hblock := occurrences_block h hdisarms.marker (replacement.intercalate rest)
      rw [if_neg hnot, hbehind] at hblock
      rw [List.intercalate_cons_of_ne_nil hrest, List.append_assoc]
      obtain ⟨tail, htail⟩ : ∃ tail, replacement ++ replacement.intercalate rest = a :: tail := by
        rw [hdisarms.marker.eq_cons, List.cons_append]
        exact ⟨_, rfl⟩
      rw [htail] at hblock ⊢
      rw [occurrences_append_cons h, hfirst, hblock]

/-- **Replacing.** A marker that is replaced by a text that disarms it is gone. -/
theorem occurrences_replaceAll (h : Marker a pattern) {replacement : List α}
    (hdisarms : Disarms a pattern replacement) (text : List α) :
    occurrences pattern (replaceAll pattern replacement text) = 0 :=
  occurrences_intercalate h hdisarms (occurrences_splitFrom h 0 text)

/-- A marker that is not there stays away when another one is replaced. -/
theorem occurrences_replaceAll_other (h : Marker a pattern) {other replacement : List α}
    (hother : other ≠ []) (hdisarms : Disarms a pattern replacement) {text : List α}
    (htext : occurrences pattern text = 0) :
    occurrences pattern (replaceAll other replacement text) = 0 := by
  refine occurrences_intercalate h hdisarms fun piece hpiece => ?_
  have hle := occurrences_le_intercalate h other hpiece
  unfold split at hle
  rw [intercalate_splitFrom hother, List.drop_zero, htext] at hle
  exact Nat.le_zero.mp hle

end Clemvion.Library
