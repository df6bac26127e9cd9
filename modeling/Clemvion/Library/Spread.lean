import Mathlib.Data.List.Sort
import Mathlib.Logic.Function.Iterate

/-!
# Spread — labels that spread along links

Some vertices are claimed for a label, and a link between a labelled and an unlabelled vertex
passes the label on.  One round applies all rules in order.  Where the claims agree and no other
vertex is reached by two labels, after `n` rounds everything within `n` steps of a claim has its
label.  How far the rounds really get depends on the order of the rules: in the worst order a round
takes one step, in the best order one round takes them all.
-/

namespace Clemvion.Library

variable {ν κ : Type}

inductive SpreadRule (ν κ : Type)
  | claim (claims : List (ν × κ))
  | link (x y : ν)
  deriving DecidableEq

namespace SpreadRule

section Rounds

variable [DecidableEq ν]

def label (m : ν → Option κ) (claim : ν × κ) : ν → Option κ :=
  Function.update m claim.1 (some claim.2)

def apply : SpreadRule ν κ → (ν → Option κ) → ν → Option κ
  | .claim claims, m => claims.foldl label m
  | .link x y, m =>
    match m x, m y with
    | some c, none => Function.update m y (some c)
    | none, some c => Function.update m x (some c)
    | _, _ => m

/-- One round. -/
def round (rules : List (SpreadRule ν κ)) (m : ν → Option κ) : ν → Option κ :=
  rules.foldl (fun m rule => rule.apply m) m

end Rounds

/-! ## 1. What is within so many steps of a claim -/

def Linked (rules : List (SpreadRule ν κ)) (x y : ν) : Prop := .link x y ∈ rules ∨ .link y x ∈ rules

def Claimed (rules : List (SpreadRule ν κ)) (x : ν) (c : κ) : Prop :=
  ∃ claims, .claim claims ∈ rules ∧ (x, c) ∈ claims

def Reached (rules : List (SpreadRule ν κ)) : Nat → ν → κ → Prop
  | 0, _, _ => False
  | n + 1, x, c => Claimed rules x c ∨ Reached rules n x c ∨ ∃ y, Linked rules x y ∧ Reached rules n y c

/-- The claims on one vertex agree, and a vertex without a claim is not reached by two labels. -/
structure Consistent (rules : List (SpreadRule ν κ)) : Prop where
  claims : ∀ x c c', Claimed rules x c → Claimed rules x c' → c = c'
  chains : ∀ m n x c c', (∀ d, ¬ Claimed rules x d) →
    Reached rules m x c → Reached rules n x c' → c = c'

/-- The label that reaches a vertex, where no claim says otherwise. -/
def Belongs (rules : List (SpreadRule ν κ)) (n : Nat) (x : ν) (c : κ) : Prop :=
  Reached rules n x c ∧ ∀ d, Claimed rules x d → d = c

/-- Every vertex that is reached at all is reached in so many steps. -/
def Shallow (rules : List (SpreadRule ν κ)) (n : Nat) : Prop :=
  ∀ m x c, Belongs rules m x c → Belongs rules n x c

variable {rules rules' : List (SpreadRule ν κ)} {m m' n : Nat} {x y : ν} {c c' : κ}

theorem Reached.mono (h : Reached rules m x c) (hmn : m ≤ n) : Reached rules n x c := by
  induction hmn with
  | refl => exact h
  | step _ ih => exact .inr (.inl ih)

theorem Reached.step (h : Reached rules n y c) (hlink : Linked rules x y) :
    Reached rules (n + 1) x c := .inr (.inr ⟨y, hlink, h⟩)

theorem Claimed.reached (h : Claimed rules x c) (n : Nat) : Reached rules (n + 1) x c := .inl h

theorem Claimed.belongs (hcons : Consistent rules) (h : Claimed rules x c) (n : Nat) :
    Belongs rules (n + 1) x c := ⟨h.reached n, fun d hd => hcons.claims x d c hd h⟩

theorem Linked.symm (h : Linked rules x y) : Linked rules y x := Or.symm h

/-- A neighbour of an unclaimed vertex belongs to the label that reaches it. -/
theorem Consistent.belongs_of_linked (hcons : Consistent rules) (hlink : Linked rules x y)
    (hx : ∀ d, ¬ Claimed rules x d) (hy : Reached rules n y c) : Belongs rules n y c := by
  refine ⟨hy, fun d hd => ?_⟩
  exact hcons.chains _ _ x d c hx ((hd.reached 0).step hlink) (hy.step hlink)

/-- Where all claims are for one label there is nothing to disagree about. -/
theorem consistent_of_one (h : ∀ claims, .claim claims ∈ rules → ∀ p ∈ claims, p.2 = c) :
    Consistent rules := by
  have hclaimed : ∀ {x d}, Claimed rules x d → d = c := by
    rintro x d ⟨claims, hmem, hclaim⟩
    exact h claims hmem (x, d) hclaim
  have hreached : ∀ {n x d}, Reached rules n x d → d = c := by
    intro n
    induction n with
    | zero => exact fun h => h.elim
    | succ n ih => exact fun h => h.elim hclaimed (Or.elim · ih fun ⟨_, _, hy⟩ => ih hy)
  exact ⟨fun _ _ _ hc hc' => (hclaimed hc).trans (hclaimed hc').symm,
    fun _ _ _ _ _ _ hc hc' => (hreached hc).trans (hreached hc').symm⟩

/-- Without links only the claims reach anything. -/
theorem claimed_of_no_links (h : ∀ x y, .link x y ∉ rules) (hx : Reached rules n x c) :
    Claimed rules x c := by
  induction n generalizing x with
  | zero => exact hx.elim
  | succ n ih =>
    obtain hclaimed | hearlier | ⟨y, hlink, -⟩ := hx
    · exact hclaimed
    · exact ih hearlier
    · exact (hlink.elim (h x y) (h y x)).elim

section Congr

variable (h : ∀ rule, rule ∈ rules ↔ rule ∈ rules')
include h

theorem claimed_congr : Claimed rules x c ↔ Claimed rules' x c :=
  exists_congr fun _ => and_congr_left fun _ => h _

theorem reached_congr : Reached rules n x c ↔ Reached rules' n x c := by
  induction n generalizing x with
  | zero => exact Iff.rfl
  | succ n ih =>
    have hlinked : ∀ y, Linked rules x y ↔ Linked rules' x y := fun y => or_congr (h _) (h _)
    unfold Reached
    rw [claimed_congr h, ih]
    exact or_congr_right (or_congr_right (exists_congr fun y => and_congr (hlinked y) ih))

theorem belongs_congr : Belongs rules n x c ↔ Belongs rules' n x c := by
  unfold Belongs
  simp only [reached_congr h, claimed_congr h]

theorem consistent_congr (hcons : Consistent rules) : Consistent rules' where
  claims := fun x c c' hc hc' =>
    hcons.claims x c c' ((claimed_congr h).mpr hc) ((claimed_congr h).mpr hc')
  chains := fun m n x c c' hfree hc hc' =>
    hcons.chains m n x c c' (fun d hd => hfree d ((claimed_congr h).mp hd))
      ((reached_congr h).mpr hc) ((reached_congr h).mpr hc')

theorem shallow_congr (hshallow : Shallow rules n) : Shallow rules' n := fun m x c hc =>
  (belongs_congr h).mp (hshallow m x c ((belongs_congr h).mpr hc))

end Congr

/-! ## 2. Rounds keep the labels that belong -/

variable {mark : ν → Option κ} {rule : SpreadRule ν κ} {part : List (SpreadRule ν κ)}

/-- Every label is one that reaches its vertex. -/
def Sound (rules : List (SpreadRule ν κ)) (mark : ν → Option κ) : Prop :=
  ∀ x c, mark x = some c → ∃ n, Reached rules n x c

theorem sound_none (rules : List (SpreadRule ν κ)) : Sound rules fun _ => none :=
  fun _ _ h => nomatch h

variable [DecidableEq ν]

/-- The label that a list of claims leaves on a vertex. -/
theorem foldl_claims (claims : List (ν × κ)) (mark : ν → Option κ) (x : ν) :
    claims.foldl label mark x = mark x ∧ (∀ c, (x, c) ∉ claims) ∨
      ∃ c, (x, c) ∈ claims ∧ claims.foldl label mark x = some c := by
  induction claims generalizing mark with
  | nil => exact .inl ⟨rfl, fun _ => List.not_mem_nil⟩
  | cons claim claims ih =>
    rw [List.foldl_cons]
    obtain ⟨hkept, hother⟩ | ⟨c, hmem, hc⟩ := ih (label mark claim)
    · by_cases hx : x = claim.1
      · right
        refine ⟨claim.2, ?_, ?_⟩
        · rw [hx]
          exact List.mem_cons_self
        · rw [hkept, hx]
          exact Function.update_self _ _ _
      · left
        refine ⟨hkept.trans (Function.update_of_ne hx _ _), fun c hmem => ?_⟩
        obtain heq | hmem := List.mem_cons.mp hmem
        · exact hx (congrArg Prod.fst heq)
        · exact hother c hmem
    · exact .inr ⟨c, List.mem_cons_of_mem _ hmem, hc⟩

theorem link_forward (hx : mark x = some c) (hy : mark y = none) :
    (link x y).apply mark = label mark (y, c) := by
  simp only [apply, hx, hy]
  rfl

theorem link_backward (hx : mark x = none) (hy : mark y = some c) :
    (link x y).apply mark = label mark (x, c) := by
  simp only [apply, hx, hy]
  rfl

theorem link_idle (h : mark x = none ↔ mark y = none) : (link x y).apply mark = mark := by
  cases hx : mark x with
  | none => simp only [apply, hx, h.mp hx]
  | some c =>
    cases hy : mark y with
    | none => rw [h.mpr hy] at hx; cases hx
    | some c' => simp only [apply, hx, hy]

theorem label_self (mark : ν → Option κ) (x : ν) (c : κ) : label mark (x, c) x = some c :=
  Function.update_self _ _ _

theorem label_of_ne (h : x ≠ y) : label mark (y, c) x = mark x := Function.update_of_ne h _ _

/-- A label that a rule changes comes from a claim or over a link. -/
theorem apply_cases (rule : SpreadRule ν κ) (mark : ν → Option κ) (x : ν) :
    rule.apply mark x = mark x ∨
      (∃ claims c, rule = .claim claims ∧ (x, c) ∈ claims ∧ rule.apply mark x = some c) ∨
      ∃ y c, (rule = .link x y ∨ rule = .link y x) ∧ mark x = none ∧ mark y = some c ∧
        rule.apply mark x = some c := by
  cases rule with
  | claim claims =>
    obtain ⟨hkept, -⟩ | ⟨c, hmem, hc⟩ := foldl_claims claims mark x
    · exact .inl hkept
    · exact .inr (.inl ⟨claims, c, rfl, hmem, hc⟩)
  | link a b =>
    cases ha : mark a with
    | none =>
      cases hb : mark b with
      | none => exact .inl (congrFun (link_idle (by rw [ha, hb])) x)
      | some c =>
        rw [link_backward ha hb]
        by_cases hx : x = a
        · subst hx
          exact .inr (.inr ⟨b, c, .inl rfl, ha, hb, label_self mark x c⟩)
        · exact .inl (label_of_ne hx)
    | some c =>
      cases hb : mark b with
      | none =>
        rw [link_forward ha hb]
        by_cases hx : x = b
        · subst hx
          exact .inr (.inr ⟨a, c, .inr rfl, hb, ha, label_self mark x c⟩)
        · exact .inl (label_of_ne hx)
      | some c' => exact .inl (congrFun (link_idle (by simp [ha, hb])) x)

omit [DecidableEq ν] in
theorem linked_of_rule (hmem : rule ∈ rules) (hrule : rule = .link x y ∨ rule = .link y x) :
    Linked rules x y := by
  obtain rfl | rfl := hrule
  · exact .inl hmem
  · exact .inr hmem

theorem Sound.apply (h : Sound rules mark) (hmem : rule ∈ rules) : Sound rules (rule.apply mark) := by
  intro x c hx
  obtain hkept | ⟨claims, c', rfl, hclaim, hset⟩ | ⟨y, c', hrule, -, hy, hset⟩ :=
    apply_cases rule mark x
  · rw [hkept] at hx
    exact h x c hx
  · rw [hset] at hx
    rw [← Option.some.inj hx]
    exact ⟨1, .inl ⟨claims, hmem, hclaim⟩⟩
  · rw [hset] at hx
    rw [← Option.some.inj hx]
    obtain ⟨n, hn⟩ := h y c' hy
    exact ⟨n + 1, hn.step (linked_of_rule hmem hrule)⟩

theorem Sound.round (h : Sound rules mark) (hpart : ∀ rule ∈ part, rule ∈ rules) :
    Sound rules (round part mark) := by
  induction part generalizing mark with
  | nil => exact h
  | cons rule part ih =>
    obtain ⟨hrule, hrest⟩ := List.forall_mem_cons.mp hpart
    exact ih (h.apply hrule) hrest

/-- A label that no claim speaks against stays. -/
theorem apply_of_some (hmem : rule ∈ rules) (hfree : ∀ d, Claimed rules x d → d = c)
    (hx : mark x = some c) : rule.apply mark x = some c := by
  obtain hkept | ⟨claims, c', rfl, hclaim, hset⟩ | ⟨y, c', -, hnone, -, -⟩ := apply_cases rule mark x
  · rw [hkept, hx]
  · rw [hset, hfree c' ⟨claims, hmem, hclaim⟩]
  · rw [hnone] at hx
    cases hx

theorem round_of_some (hpart : ∀ rule ∈ part, rule ∈ rules)
    (hfree : ∀ d, Claimed rules x d → d = c) (hx : mark x = some c) : round part mark x = some c := by
  induction part generalizing mark with
  | nil => exact hx
  | cons rule part ih =>
    obtain ⟨hrule, hrest⟩ := List.forall_mem_cons.mp hpart
    exact ih hrest (apply_of_some hrule hfree hx)

/-- A vertex behind a rule of the round: labelled once the rule has been applied. -/
theorem round_of_apply (h : Sound rules mark) (hfree : ∀ d, Claimed rules x d → d = c)
    (hmem : rule ∈ rules)
    (happly : ∀ mark', Sound rules mark' →
      (∀ y d, (∀ e, Claimed rules y e → e = d) → mark y = some d → mark' y = some d) →
      rule.apply mark' x = some c) : round rules mark x = some c := by
  obtain ⟨before, after, hsplit⟩ := List.append_of_mem hmem
  have hbefore : ∀ rule ∈ before, rule ∈ rules := by
    rw [hsplit]
    exact fun r hr => List.mem_append_left _ hr
  have hafter : ∀ rule ∈ after, rule ∈ rules := by
    rw [hsplit]
    exact fun r hr => List.mem_append_right _ (List.mem_cons_of_mem _ hr)
  have hset : rule.apply (round before mark) x = some c :=
    happly _ (h.round hbefore) fun y d hfree' hy => round_of_some hbefore hfree' hy
  have hround : round rules mark = round after (rule.apply (round before mark)) := by
    rw [hsplit]
    unfold round
    rw [List.foldl_append, List.foldl_cons]
  rw [hround]
  exact round_of_some hafter hfree hset

/-! ## 3. Every round takes a step -/

/-- What belongs to a label within so many steps has it. -/
def Covers (rules : List (SpreadRule ν κ)) (n : Nat) (mark : ν → Option κ) : Prop :=
  ∀ x c, Belongs rules n x c → mark x = some c

/-- A claim labels its vertex. -/
theorem apply_claim {claims : List (ν × κ)} (hmem : .claim claims ∈ rules) (hx : (x, c) ∈ claims)
    (hfree : ∀ d, Claimed rules x d → d = c) (mark : ν → Option κ) :
    (claim claims).apply mark x = some c := by
  obtain ⟨-, hother⟩ | ⟨c', hc', hset⟩ := foldl_claims claims mark x
  · exact absurd hx (hother c)
  · rw [← hfree c' ⟨claims, hmem, hc'⟩]
    exact hset

/-- A link passes the label on, if it was not there yet. -/
theorem apply_link (hcons : Consistent rules) (h : Sound rules mark) (hmem : rule ∈ rules)
    (hrule : rule = .link x y ∨ rule = .link y x) (hx : ∀ d, ¬ Claimed rules x d)
    (hy : mark y = some c) : rule.apply mark x = some c := by
  cases hmark : mark x with
  | some c' =>
    obtain ⟨m, hm⟩ := h x c' hmark
    obtain ⟨n, hn⟩ := h y c hy
    rw [hcons.chains _ _ x c c' hx (hn.step (linked_of_rule hmem hrule)) hm]
    exact apply_of_some hmem (fun d hd => absurd hd (hx d)) hmark
  | none =>
    obtain rfl | rfl := hrule
    · rw [link_backward hmark hy]
      exact label_self mark x c
    · rw [link_forward hy hmark]
      exact label_self mark x c

theorem Covers.round (hcons : Consistent rules) (hsound : Sound rules mark)
    (h : Covers rules n mark) : Covers rules (n + 1) (round rules mark) := by
  intro x c ⟨hreached, hfree⟩
  obtain ⟨claims, hmem, hclaim⟩ | hearlier | ⟨y, hlink, hy⟩ := hreached
  · exact round_of_apply hsound hfree hmem fun mark' _ _ => apply_claim hmem hclaim hfree mark'
  · exact round_of_some (fun _ hr => hr) hfree (h x c ⟨hearlier, hfree⟩)
  · by_cases hclaimed : ∃ d, Claimed rules x d
    · obtain ⟨d, claims, hmem, hclaim⟩ := hclaimed
      rw [hfree d ⟨claims, hmem, hclaim⟩] at hclaim
      exact round_of_apply hsound hfree hmem fun mark' _ _ => apply_claim hmem hclaim hfree mark'
    · have hunclaimed : ∀ d, ¬ Claimed rules x d := fun d hd => hclaimed ⟨d, hd⟩
      have hbelongs := hcons.belongs_of_linked hlink hunclaimed hy
      have hpass : ∀ rule, rule = .link x y ∨ rule = .link y x → rule ∈ rules →
          SpreadRule.round rules mark x = some c := fun rule hrule hmem =>
        round_of_apply hsound hfree hmem fun mark' hsound' hkept =>
          apply_link hcons hsound' hmem hrule hunclaimed (hkept y c hbelongs.2 (h y c hbelongs))
      obtain hmem | hmem := hlink
      · exact hpass _ (.inl rfl) hmem
      · exact hpass _ (.inr rfl) hmem

/-- The labels after so many rounds. -/
def rounds (rules : List (SpreadRule ν κ)) (n : Nat) : ν → Option κ := (round rules)^[n] fun _ => none

theorem rounds_succ (rules : List (SpreadRule ν κ)) (n : Nat) :
    rounds rules (n + 1) = round rules (rounds rules n) := Function.iterate_succ_apply' _ _ _

theorem sound_rounds (rules : List (SpreadRule ν κ)) (n : Nat) : Sound rules (rounds rules n) := by
  induction n with
  | zero => exact sound_none rules
  | succ n ih =>
    rw [rounds_succ]
    exact ih.round fun _ hr => hr

theorem covers_rounds (hcons : Consistent rules) (n : Nat) : Covers rules n (rounds rules n) := by
  induction n with
  | zero => exact fun x c h => h.1.elim
  | succ n ih =>
    rw [rounds_succ]
    exact ih.round hcons (sound_rounds rules n)

/-- **Saturation.** Enough rounds label exactly what belongs to a label. -/
theorem rounds_eq_some_iff (hcons : Consistent rules) (hshallow : Shallow rules n) :
    rounds rules n x = some c ↔ ∃ m, Belongs rules m x c := by
  have hcovers : ∀ {m d}, Belongs rules m x d → rounds rules n x = some d := fun h =>
    covers_rounds hcons n x _ (hshallow _ x _ h)
  constructor
  · intro hx
    obtain ⟨m, hm⟩ := sound_rounds rules n x c hx
    refine ⟨m, hm, fun d hd => ?_⟩
    rw [hcovers (hd.belongs hcons 0)] at hx
    exact Option.some.inj hx
  · rintro ⟨m, hm⟩
    exact hcovers hm

/-- Saturated rounds do not depend on the order of the rules. -/
theorem rounds_congr (h : ∀ rule, rule ∈ rules ↔ rule ∈ rules') (hcons : Consistent rules)
    (hshallow : Shallow rules n) : rounds rules' n = rounds rules n := by
  funext x
  apply Option.ext
  intro c
  have hmark := rounds_eq_some_iff (x := x) (c := c) hcons hshallow
  have hmark' := rounds_eq_some_iff (x := x) (c := c) (consistent_congr h hcons)
    (shallow_congr h hshallow)
  exact hmark'.trans ((exists_congr fun k => (belongs_congr h).symm).trans hmark.symm)

/-! ## 4. The order of the rules -/

/-- The rule can label something once everything within `n` steps is labelled. -/
def Fires (rules : List (SpreadRule ν κ)) (n : Nat) : SpreadRule ν κ → Prop
  | .claim _ => True
  | .link x y => ∃ c, Reached rules n x c ∨ Reached rules n y c

/-- `a` can fire as soon as `b` can. -/
def NoLater (rules : List (SpreadRule ν κ)) (a b : SpreadRule ν κ) : Prop :=
  ∀ n, Fires rules n b → Fires rules n a

omit [DecidableEq ν] in
theorem Fires.mono (h : Fires rules m rule) (hmn : m ≤ n) : Fires rules n rule := by
  cases rule with
  | claim claims => trivial
  | link x y =>
    obtain ⟨c, hx | hy⟩ := h
    · exact ⟨c, .inl (hx.mono hmn)⟩
    · exact ⟨c, .inr (hy.mono hmn)⟩

omit [DecidableEq ν] in
theorem noLater_total (rules : List (SpreadRule ν κ)) (a b : SpreadRule ν κ) :
    NoLater rules a b ∨ NoLater rules b a := by
  by_contra hneither
  obtain ⟨hab, hba⟩ := not_or.mp hneither
  obtain ⟨m, hm⟩ := not_forall.mp hab
  obtain ⟨n, hn⟩ := not_forall.mp hba
  obtain ⟨hbm, ham⟩ := Classical.not_imp.mp hm
  obtain ⟨han, hbn⟩ := Classical.not_imp.mp hn
  obtain hle | hle := Nat.le_total m n
  · exact hbn (hbm.mono hle)
  · exact ham (han.mono hle)

omit [DecidableEq ν] in
theorem noLater_trans {a b d : SpreadRule ν κ} (hab : NoLater rules a b) (hbd : NoLater rules b d) :
    NoLater rules a d := fun n hd => hab n (hbd n hd)

/-- Only vertices within so many steps are labelled. -/
def Within (rules : List (SpreadRule ν κ)) (n : Nat) (mark : ν → Option κ) : Prop :=
  ∀ x, mark x ≠ none → ∃ c, Reached rules n x c

omit [DecidableEq ν] in
theorem Within.mono (h : Within rules m mark) (hmn : m ≤ n) : Within rules n mark := fun x hx =>
  (h x hx).imp fun _ hc => hc.mono hmn

/-- A rule that can fire at `n` labels nothing beyond the next step. -/
theorem Within.apply_fires (h : Within rules (n + 1) mark) (hmem : rule ∈ rules)
    (hfires : Fires rules n rule) : Within rules (n + 1) (rule.apply mark) := by
  intro x hx
  obtain hkept | ⟨claims, c, rfl, hclaim, -⟩ | ⟨y, c, hrule, -, -, -⟩ := apply_cases rule mark x
  · rw [hkept] at hx
    exact h x hx
  · exact ⟨c, .inl ⟨claims, hmem, hclaim⟩⟩
  · have hlink := linked_of_rule hmem hrule
    have hends : ∃ d, Reached rules n x d ∨ Reached rules n y d := by
      obtain rfl | rfl := hrule
      · exact hfires
      · exact hfires.imp fun _ => Or.symm
    obtain ⟨d, hd | hd⟩ := hends
    · exact ⟨d, hd.mono (Nat.le_succ n)⟩
    · exact ⟨d, hd.step hlink⟩

/-- A rule that cannot fire at `n` labels nothing while only what is within `n` is labelled. -/
theorem Within.apply_idle (h : Within rules n mark) (hidle : ¬ Fires rules n rule) :
    rule.apply mark = mark := by
  cases rule with
  | claim claims => exact absurd trivial hidle
  | link x y =>
    have hend : ∀ z, (∀ d, Reached rules n z d → Fires rules n (.link x y)) → mark z = none := by
      intro z hz
      by_contra hmark
      obtain ⟨d, hd⟩ := h z hmark
      exact hidle (hz d hd)
    rw [link_idle]
    rw [hend x fun d hd => ⟨d, .inl hd⟩, hend y fun d hd => ⟨d, .inr hd⟩]

theorem Within.round_fires (h : Within rules (n + 1) mark) (hpart : ∀ rule ∈ part, rule ∈ rules)
    (hfires : ∀ rule ∈ part, Fires rules n rule) : Within rules (n + 1) (round part mark) := by
  induction part generalizing mark with
  | nil => exact h
  | cons rule part ih =>
    obtain ⟨hrule, hrest⟩ := List.forall_mem_cons.mp hpart
    obtain ⟨hfire, hfires⟩ := List.forall_mem_cons.mp hfires
    exact ih (h.apply_fires hrule hfire) hrest hfires

/-- In the worst order a round takes one step: whatever can fire only later comes first. -/
theorem Within.round (h : Within rules n mark) (hpart : ∀ rule ∈ part, rule ∈ rules)
    (hsorted : part.Pairwise fun a b => NoLater rules b a) :
    Within rules (n + 1) (round part mark) := by
  induction part generalizing mark with
  | nil => exact h.mono (Nat.le_succ n)
  | cons rule part ih =>
    obtain ⟨hrule, hrest⟩ := List.forall_mem_cons.mp hpart
    obtain ⟨hlater, hsorted'⟩ := List.pairwise_cons.mp hsorted
    by_cases hfires : Fires rules n rule
    · refine (h.mono (Nat.le_succ n)).round_fires hpart ?_
      exact List.forall_mem_cons.mpr ⟨hfires, fun r hr => hlater r hr n hfires⟩
    · show Within rules (n + 1) (SpreadRule.round part (rule.apply mark))
      rw [h.apply_idle hfires]
      exact ih h hrest hsorted'

theorem within_rounds (hsorted : rules.Pairwise fun a b => NoLater rules b a) (n : Nat) :
    Within rules n (rounds rules n) := by
  induction n with
  | zero => exact fun x hx => absurd rfl hx
  | succ n ih =>
    rw [rounds_succ]
    exact ih.round (fun _ hr => hr) hsorted

/-- What a rule labels once what can fire it is labelled. -/
def Served (mark : ν → Option κ) : SpreadRule ν κ → Prop
  | .claim claims => ∀ x c, (x, c) ∈ claims → mark x ≠ none
  | .link x y => mark x ≠ none ∧ mark y ≠ none

theorem apply_ne_none (rule : SpreadRule ν κ) (hx : mark x ≠ none) : rule.apply mark x ≠ none := by
  obtain hkept | ⟨claims, c, -, -, hset⟩ | ⟨y, c, -, hnone, -, -⟩ := apply_cases rule mark x
  · rwa [hkept]
  · rw [hset]
    exact Option.some_ne_none c
  · exact absurd hnone hx

theorem round_ne_none (part : List (SpreadRule ν κ)) (hx : mark x ≠ none) :
    round part mark x ≠ none := by
  induction part generalizing mark with
  | nil => exact hx
  | cons rule part ih => exact ih (apply_ne_none rule hx)

theorem Served.apply (h : Served mark rule) (rule' : SpreadRule ν κ) :
    Served (rule'.apply mark) rule := by
  cases rule with
  | claim claims => exact fun x c hx => apply_ne_none rule' (h x c hx)
  | link x y => exact ⟨apply_ne_none rule' h.1, apply_ne_none rule' h.2⟩

theorem served_claim (claims : List (ν × κ)) (mark : ν → Option κ) :
    Served ((claim claims).apply mark) (.claim claims) := by
  intro x c hx
  obtain ⟨-, hother⟩ | ⟨d, -, hset⟩ := foldl_claims claims mark x
  · exact absurd hx (hother c)
  · show claims.foldl label mark x ≠ none
    rw [hset]
    exact Option.some_ne_none d

theorem served_link (h : mark x ≠ none ∨ mark y ≠ none) :
    Served ((link x y).apply mark) (.link x y) := by
  cases hx : mark x with
  | none =>
    obtain ⟨c, hc⟩ := Option.ne_none_iff_exists'.mp (h.resolve_left fun hne => hne hx)
    rw [link_backward hx hc]
    refine ⟨?_, ?_⟩
    · rw [label_self]
      exact Option.some_ne_none c
    · by_cases hyx : y = x
      · rw [hyx, label_self]
        exact Option.some_ne_none c
      · rw [label_of_ne hyx, hc]
        exact Option.some_ne_none c
  | some c =>
    have hleft : mark x ≠ none := by
      rw [hx]
      exact Option.some_ne_none c
    refine ⟨apply_ne_none _ hleft, ?_⟩
    cases hy : mark y with
    | none =>
      rw [link_forward hx hy, label_self]
      exact Option.some_ne_none c
    | some d =>
      refine apply_ne_none _ ?_
      rw [hy]
      exact Option.some_ne_none d

omit [DecidableEq ν] in
/-- Where all rules that can fire at `n` have been served, the next step is labelled. -/
theorem ne_none_of_served (hserved : ∀ rule ∈ rules, ∀ k < n, Fires rules k rule → Served mark rule) :
    ∀ k ≤ n, ∀ x c, Reached rules k x c → mark x ≠ none := by
  intro k
  induction k with
  | zero => exact fun _ x c h => h.elim
  | succ k ih =>
    intro hk x c hreached
    have hk' : k < n := hk
    obtain ⟨claims, hmem, hclaim⟩ | hearlier | ⟨y, hlink, hy⟩ := hreached
    · exact hserved _ hmem k hk' trivial x c hclaim
    · exact ih hk'.le x c hearlier
    · obtain hmem | hmem := hlink
      · exact (hserved _ hmem k hk' ⟨c, .inr hy⟩).1
      · exact (hserved _ hmem k hk' ⟨c, .inl hy⟩).2

/-- In the best order every rule is served as it comes: what fires it has been served before. -/
theorem served_round (done : List (SpreadRule ν κ)) (hrules : rules = done ++ part)
    (hsorted : rules.Pairwise (NoLater rules))
    (hdone : ∀ rule ∈ done, ∀ n, Fires rules n rule → Served mark rule) :
    ∀ rule ∈ rules, ∀ n, Fires rules n rule → Served (round part mark) rule := by
  induction part generalizing mark done with
  | nil =>
    rw [hrules, List.append_nil]
    rwa [hrules, List.append_nil] at hdone
  | cons rule part ih =>
    have hsplit : rules = done ++ [rule] ++ part := by
      rw [hrules, List.append_assoc]
      rfl
    refine ih (done ++ [rule]) hsplit ?_
    intro r hr n hfires
    obtain hr | hr := List.mem_append.mp hr
    · exact (hdone r hr n hfires).apply rule
    · rw [List.mem_singleton.mp hr] at hfires ⊢
      cases rule with
      | claim claims => exact served_claim claims mark
      | link x y =>
        have hsome : ∃ k, Fires rules k (link x y) := ⟨n, hfires⟩
        classical
        -- at the least step at which the rule fires, all that fires before it is done
        have hearlier : ∀ r ∈ rules, ∀ k < Nat.find hsome, Fires rules k r → Served mark r := by
          intro r hr k hk hrk
          rw [hrules] at hr
          obtain hr | hr := List.mem_append.mp hr
          · exact hdone r hr k hrk
          · have hfirst : NoLater rules (link x y) r := by
              obtain rfl | hr := List.mem_cons.mp hr
              · exact fun _ h => h
              · have hsub : (link x y :: part).Sublist rules := by
                  rw [hrules]
                  exact List.sublist_append_right done _
                exact (List.pairwise_cons.mp (hsorted.sublist hsub)).1 r hr
            exact absurd (hfirst k hrk) (Nat.find_min hsome hk)
        have hlabelled := ne_none_of_served hearlier _ (Nat.le_refl _)
        obtain ⟨c, hx | hy⟩ := Nat.find_spec hsome
        · exact served_link (.inl (hlabelled x c hx))
        · exact served_link (.inr (hlabelled y c hy))

/-- One round in the best order labels everything. -/
theorem ne_none_rounds (hsorted : rules.Pairwise (NoLater rules)) (n : Nat) (hx : Reached rules m x c) :
    rounds rules (n + 1) x ≠ none := by
  have hnone : ∀ rule ∈ ([] : List (SpreadRule ν κ)), ∀ k, Fires rules k rule →
      Served (fun _ => none) rule := fun _ h => nomatch h
  induction n with
  | zero =>
    have hserved := served_round [] rfl hsorted hnone
    exact ne_none_of_served (fun rule hr k _ => hserved rule hr k) m (Nat.le_refl m) x c hx
  | succ n ih =>
    rw [rounds_succ]
    exact round_ne_none rules ih

omit [DecidableEq ν] in
theorem noLater_congr (h : ∀ rule, rule ∈ rules ↔ rule ∈ rules') : NoLater rules = NoLater rules' := by
  funext a b
  have hfires : ∀ n, Fires rules n = Fires rules' n := by
    intro n
    funext rule
    cases rule with
    | claim claims => rfl
    | link x y => simp only [Fires, reached_congr h]
  unfold NoLater
  simp only [hfires]

omit [DecidableEq ν] in
/-- Anything that stands for rules can be put into the best order. -/
theorem exists_best_order {ε : Type} (rules : List (SpreadRule ν κ)) (es : List ε) (f : ε → SpreadRule ν κ) :
    ∃ best : List ε, best.Perm es ∧ (best.map f).Pairwise (NoLater rules) := by
  classical
  let r : ε → ε → Prop := fun a b => NoLater rules (f a) (f b)
  have : Std.Total r := ⟨fun a b => noLater_total rules (f a) (f b)⟩
  have : IsTrans ε r := ⟨fun _ _ _ hab hbd => noLater_trans hab hbd⟩
  exact ⟨es.insertionSort r, List.perm_insertionSort r es,
    List.pairwise_map.mpr (List.pairwise_insertionSort r es)⟩

/-- **The order matters** as soon as something is deeper than the number of rounds. -/
theorem rounds_ne_of_deep {best worst : List (SpreadRule ν κ)} (hcons : Consistent rules)
    (hdeep : ¬ Shallow rules (n + 1)) (hbest : ∀ rule, rule ∈ rules ↔ rule ∈ best)
    (hworst : ∀ rule, rule ∈ rules ↔ rule ∈ worst) (hsorted : best.Pairwise (NoLater rules))
    (hsorted' : worst.Pairwise fun a b => NoLater rules b a) :
    rounds best (n + 1) ≠ rounds worst (n + 1) := by
  intro heq
  apply hdeep
  intro m x c hx
  rw [noLater_congr hbest] at hsorted
  rw [noLater_congr hworst] at hsorted'
  have hlabelled := ne_none_rounds hsorted n ((reached_congr hbest).mp hx.1)
  rw [heq] at hlabelled
  obtain ⟨d, hd⟩ := within_rounds hsorted' (n + 1) x hlabelled
  rw [← reached_congr hworst] at hd
  by_cases hclaimed : ∃ e, Claimed rules x e
  · obtain ⟨e, he⟩ := hclaimed
    rw [← hx.2 e he]
    exact he.belongs hcons n
  · have hcd : c = d := hcons.chains _ _ x c d (fun e he => hclaimed ⟨e, he⟩) hx.1 hd
    subst hcd
    exact ⟨hd, hx.2⟩

/-! ## 5. One more rule -/

/-- The vertices that a rule may label. -/
def Touches (x : ν) : SpreadRule ν κ → Prop
  | .claim claims => ∃ c, (x, c) ∈ claims
  | .link a b => x = a ∨ x = b

/-- The labels are exactly those that belong. -/
def Saturated (rules : List (SpreadRule ν κ)) (mark : ν → Option κ) : Prop :=
  ∀ x c, mark x = some c ↔ ∃ n, Belongs rules n x c

theorem saturated_rounds (hcons : Consistent rules) (hshallow : Shallow rules n) :
    Saturated rules (rounds rules n) := fun _ _ => rounds_eq_some_iff hcons hshallow

omit [DecidableEq ν] in
theorem Saturated.sound (h : Saturated rules mark) : Sound rules mark := fun x c hx =>
  ((h x c).mp hx).imp fun _ hn => hn.1

omit [DecidableEq ν] in
/-- What is reached belongs to something. -/
theorem Saturated.ne_none (hcons : Consistent rules) (h : Saturated rules mark)
    (hx : Reached rules n x c) : mark x ≠ none := by
  by_cases hclaimed : ∃ d, Claimed rules x d
  · obtain ⟨d, hd⟩ := hclaimed
    rw [(h x d).mpr ⟨1, hd.belongs hcons 0⟩]
    exact Option.some_ne_none d
  · rw [(h x c).mpr ⟨n, hx, fun d hd => absurd ⟨d, hd⟩ hclaimed⟩]
    exact Option.some_ne_none c

section Snoc

variable {last : SpreadRule ν κ}

omit [DecidableEq ν]

theorem mem_snoc (hmem : rule ∈ rules) : rule ∈ rules ++ [last] := List.mem_append_left _ hmem

theorem Claimed.snoc (h : Claimed rules x c) : Claimed (rules ++ [last]) x c :=
  h.imp fun _ hclaims => ⟨mem_snoc hclaims.1, hclaims.2⟩

theorem Linked.snoc (h : Linked rules x y) : Linked (rules ++ [last]) x y := h.imp mem_snoc mem_snoc

theorem Reached.snoc (h : Reached rules n x c) : Reached (rules ++ [last]) n x c := by
  induction n generalizing x with
  | zero => exact h
  | succ n ih =>
    obtain hclaimed | hearlier | ⟨y, hlink, hy⟩ := h
    · exact .inl hclaimed.snoc
    · exact .inr (.inl (ih hearlier))
    · exact .inr (.inr ⟨y, hlink.snoc, ih hy⟩)

theorem claimed_snoc_link {a b : ν} (h : Claimed (rules ++ [.link a b]) x c) : Claimed rules x c := by
  obtain ⟨claims, hmem, hclaim⟩ := h
  obtain hmem | hlast := List.mem_append.mp hmem
  · exact ⟨claims, hmem, hclaim⟩
  · cases List.mem_singleton.mp hlast

theorem linked_snoc_link {a b : ν} (h : Linked (rules ++ [.link a b]) x y) :
    Linked rules x y ∨ x = a ∧ y = b ∨ x = b ∧ y = a := by
  have hsplit : ∀ {p q : ν}, .link p q ∈ rules ++ [.link a b] →
      .link p q ∈ rules ∨ p = a ∧ q = b := by
    intro p q hmem
    obtain hmem | hlast := List.mem_append.mp hmem
    · exact .inl hmem
    · cases List.mem_singleton.mp hlast
      exact .inr ⟨rfl, rfl⟩
  obtain hmem | hmem := h
  · exact (hsplit hmem).imp .inl .inl
  · obtain hmem | ⟨hy, hx⟩ := hsplit hmem
    · exact .inl (.inr hmem)
    · exact .inr (.inr ⟨hx, hy⟩)

/-- What one more link brings comes through one of its ends. -/
theorem reached_snoc_link {a b : ν} (h : Reached (rules ++ [.link a b]) n x c) :
    Reached rules n x c ∨ Reached rules n a c ∨ Reached rules n b c := by
  induction n generalizing x with
  | zero => exact .inl h
  | succ n ih =>
    have hup : ∀ {z}, Reached rules n z c → Reached rules (n + 1) z c := fun hz =>
      hz.mono (Nat.le_succ n)
    obtain hclaimed | hearlier | ⟨y, hlink, hy⟩ := h
    · exact .inl (.inl (claimed_snoc_link hclaimed))
    · exact (ih hearlier).imp hup (Or.imp hup hup)
    · obtain hreached | hends := ih hy
      · obtain hlink | ⟨-, rfl⟩ | ⟨-, rfl⟩ := linked_snoc_link hlink
        · exact .inl (hreached.step hlink)
        · exact .inr (.inr (hup hreached))
        · exact .inr (.inl (hup hreached))
      · exact .inr (hends.imp hup hup)

end Snoc

/-- The end of a new link that was not reached before takes the label of the other end. -/
theorem apply_new_link {a b : ν} {last : SpreadRule ν κ} (hlast : last = .link a b ∨ last = .link b a)
    (hcons : Consistent (rules ++ [last])) (hmark : Saturated rules mark)
    (hnew : ∀ m, ¬ Belongs rules m a c) (h : Belongs (rules ++ [last]) n a c) :
    last.apply mark a = some c := by
  have hclaimed : ∀ {z d}, Claimed (rules ++ [last]) z d → Claimed rules z d := by
    obtain rfl | rfl := hlast
    · exact claimed_snoc_link
    · exact claimed_snoc_link
  have hfree : ∀ d, ¬ Claimed (rules ++ [last]) a d := by
    intro d hd
    refine hnew 1 ⟨?_, fun e he => h.2 e he.snoc⟩
    rw [← h.2 d hd]
    exact .inl (hclaimed hd)
  have hlink : Linked (rules ++ [last]) a b := by
    obtain rfl | rfl := hlast
    · exact .inl (List.mem_append_right _ List.mem_cons_self)
    · exact .inr (List.mem_append_right _ List.mem_cons_self)
  have hunreached : ¬ Reached rules n a c := fun hreached =>
    hnew n ⟨hreached, fun d hd => absurd hd.snoc (hfree d)⟩
  have hother : Reached rules n b c := by
    obtain rfl | rfl := hlast
    · exact ((reached_snoc_link h.1).resolve_left hunreached).resolve_left hunreached
    · exact ((reached_snoc_link h.1).resolve_left hunreached).resolve_right hunreached
  have hb : mark b = some c := by
    refine (hmark b c).mpr ⟨n, hother, fun d hd => ?_⟩
    exact (hcons.belongs_of_linked hlink hfree hother.snoc).2 d hd.snoc
  have hsound : Sound (rules ++ [last]) mark := fun x d hx =>
    (hmark.sound x d hx).imp fun _ hreached => hreached.snoc
  exact apply_link hcons hsound (List.mem_append_right _ List.mem_cons_self) hlast hfree hb

/-- **One more rule.** Where the new rule brings a label to no vertex but its own, applying it once
    leaves what all rules together give. -/
theorem apply_saturated {last : SpreadRule ν κ} {mark' : ν → Option κ}
    (hcons : Consistent (rules ++ [last])) (hmark : Saturated rules mark)
    (hmark' : Saturated (rules ++ [last]) mark')
    (hnear : ∀ n x c, Belongs (rules ++ [last]) n x c → (∃ m, Belongs rules m x c) ∨ Touches x last) :
    last.apply mark = mark' := by
  have hlast : last ∈ rules ++ [last] := List.mem_append_right _ List.mem_cons_self
  funext x
  cases hx : mark' x with
  | none =>
    have hunreached : ∀ n c, ¬ Reached (rules ++ [last]) n x c := fun n c h =>
      hmark'.ne_none hcons h hx
    have hsound : Sound (rules ++ [last]) (last.apply mark) := by
      refine Sound.apply (fun y d hy => ?_) hlast
      exact (hmark.sound y d hy).imp fun _ hreached => hreached.snoc
    cases happly : last.apply mark x with
    | none => rfl
    | some c =>
      obtain ⟨n, hn⟩ := hsound x c happly
      exact absurd hn (hunreached n c)
  | some c =>
    obtain ⟨n, hbelongs⟩ := (hmark' x c).mp hx
    by_cases hold : ∃ m, Belongs rules m x c
    · exact apply_of_some hlast hbelongs.2 ((hmark x c).mpr hold)
    · have hnew : ∀ m, ¬ Belongs rules m x c := fun m hm => hold ⟨m, hm⟩
      have htouches := (hnear n x c hbelongs).resolve_left hold
      cases last with
      | claim claims =>
        obtain ⟨d, hd⟩ := htouches
        rw [hbelongs.2 d ⟨claims, hlast, hd⟩] at hd
        exact apply_claim hlast hd hbelongs.2 mark
      | link a b =>
        obtain rfl | rfl := htouches
        · exact apply_new_link (.inl rfl) hcons hmark hnew hbelongs
        · exact apply_new_link (.inr rfl) hcons hmark hnew hbelongs

end SpreadRule

end Clemvion.Library
