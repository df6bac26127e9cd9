import Mathlib.Data.List.Forall2
import Mathlib.Order.Basic

/-!
# Descent — recursive descent over a list of tokens

A parser reads from the front of a list of tokens.  A grammar whose rules call each other is
written with the recursion left open, as `body self`, and closed by `recursive`, whose budget is
the number of tokens left.  `recursive_eq` says that the budget is never felt: a body that calls
`self` on shorter lists only is a fixed point.  `Tracks k n` is what the bodies have to keep: on
lists shorter than `n` two parsers do the same, and take at least `k` tokens off the list.
-/

namespace Clemvion.Library

variable {τ ε ι α β : Type}

abbrev Parser (τ ε α : Type) := StateT (List τ) (Except ε) α

theorem run_bind_ok {p : Parser τ ε α} {f : α → Parser τ ε β} {tokens rest : List τ} {a : α}
    (h : p.run tokens = .ok (a, rest)) : (p >>= f).run tokens = (f a).run rest := by
  rw [StateT.run_bind, h]
  rfl

/-! ## 1. Parsers that do the same on short lists -/

/-- On this list the parsers do the same, and take at least `k` tokens off it. -/
def TracksOn (k : Nat) (p q : Parser τ ε α) (tokens : List τ) : Prop :=
  p.run tokens = q.run tokens ∧
    ∀ a rest, q.run tokens = .ok (a, rest) → rest.length + k ≤ tokens.length

def Tracks (k n : Nat) (p q : Parser τ ε α) : Prop :=
  ∀ tokens, tokens.length < n → TracksOn k p q tokens

variable {k l n : Nat} {p q : Parser τ ε α}

theorem Tracks.mono {k' n' : Nat} (h : Tracks k n p q) (hk : k' ≤ k) (hn : n' ≤ n) :
    Tracks k' n' p q := by
  intro tokens hlength
  obtain ⟨hsame, hshort⟩ := h tokens (by omega)
  refine ⟨hsame, fun a rest hrun => ?_⟩
  have := hshort a rest hrun
  omega

theorem tracksOn_pure (a : α) (tokens : List τ) :
    TracksOn 0 (pure a : Parser τ ε α) (pure a) tokens := by
  refine ⟨rfl, fun a' rest hrun => ?_⟩
  have heq : (a, tokens) = (a', rest) := Except.ok.inj hrun
  rw [(Prod.mk.inj heq).2]
  exact Nat.le_refl _

theorem tracks_pure (n : Nat) (a : α) : Tracks 0 n (pure a : Parser τ ε α) (pure a) :=
  fun tokens _ => tracksOn_pure a tokens

theorem tracksOn_throw (k : Nat) (e : ε) (tokens : List τ) :
    TracksOn k (throw e : Parser τ ε α) (throw e) tokens :=
  ⟨rfl, fun _ _ hrun => nomatch hrun⟩

theorem tracks_throw (k n : Nat) (e : ε) : Tracks k n (throw e : Parser τ ε α) (throw e) :=
  fun tokens _ => tracksOn_throw k e tokens

/-- One parser after another: the second one runs on what the first one leaves. -/
theorem Tracks.bind {f g : α → Parser τ ε β} (hpq : Tracks k n p q)
    (hfg : ∀ a, Tracks l (n - k) (f a) (g a)) : Tracks (k + l) n (p >>= f) (q >>= g) := by
  intro tokens hlength
  obtain ⟨hsame, hshort⟩ := hpq tokens hlength
  unfold TracksOn
  rw [StateT.run_bind, StateT.run_bind, hsame]
  cases hrun : q.run tokens with
  | error e => exact ⟨rfl, fun _ _ hrun' => nomatch hrun'⟩
  | ok result =>
    obtain ⟨a, rest⟩ := result
    have hrest := hshort a rest hrun
    obtain ⟨hsame', hshort'⟩ := hfg a rest (by omega)
    refine ⟨hsame', fun b rest' hrun' => ?_⟩
    have := hshort' b rest' hrun'
    omega

theorem Tracks.seq {f g : α → Parser τ ε β} (hpq : Tracks 0 n p q)
    (hfg : ∀ a, Tracks 0 n (f a) (g a)) : Tracks 0 n (p >>= f) (q >>= g) := hpq.bind hfg

/-! ## 2. Closing the recursion -/

section Recursive

variable [Inhabited ε]

/-- The body with the recursion unrolled `n` times. -/
def unroll (body : (ι → Parser τ ε α) → ι → Parser τ ε α) : Nat → ι → Parser τ ε α
  | 0 => body fun _ => throw default
  | n + 1 => body (unroll body n)

/-- The parser that calls itself, unrolled as often as there are tokens. -/
def recursive (body : (ι → Parser τ ε α) → ι → Parser τ ε α) (i : ι) : Parser τ ε α :=
  fun tokens => (unroll body tokens.length i).run tokens

/-- The bodies call themselves on shorter lists only. -/
def Guarded (k n : Nat) (body body' : (ι → Parser τ ε α) → ι → Parser τ ε α) : Prop :=
  ∀ m < n, ∀ p q, (∀ i, Tracks k m (p i) (q i)) → ∀ i, Tracks k (m + 1) (body p i) (body' q i)

variable {body body' : (ι → Parser τ ε α) → ι → Parser τ ε α}

/-- Unrolled often enough, the bodies do the same. -/
theorem Guarded.tracks_unroll (h : Guarded k n body body') {m : Nat} (hm : m < n) :
    ∀ u v, m ≤ u → m ≤ v → ∀ i, Tracks k (m + 1) (unroll body u i) (unroll body' v i) := by
  induction m with
  | zero =>
    intro u v _ _ i
    have hempty : ∀ p q : ι → Parser τ ε α, ∀ i, Tracks k 1 (body p i) (body' q i) :=
      fun p q => h 0 hm p q fun i tokens hlength => absurd hlength (Nat.not_lt_zero _)
    cases u <;> cases v <;> exact hempty _ _ i
  | succ m ih =>
    intro u v hu hv i
    obtain ⟨u, rfl⟩ := Nat.exists_eq_add_of_lt hu
    obtain ⟨v, rfl⟩ := Nat.exists_eq_add_of_lt hv
    exact h (m + 1) hm _ _ (ih (by omega) (m + u) (m + v) (by omega) (by omega)) i

theorem Guarded.tracks (h : Guarded k n body body') (i : ι) :
    Tracks k n (recursive body i) (recursive body' i) := by
  intro tokens hlength
  exact h.tracks_unroll hlength _ _ (Nat.le_refl _) (Nat.le_refl _) i tokens (Nat.lt_succ_self _)

/-- **Fixed point.** A guarded body is its own recursion. -/
theorem recursive_eq (h : ∀ n, Guarded k n body body) (i : ι) :
    recursive body i = body (recursive body) i := by
  funext tokens
  have hself : ∀ i, Tracks k tokens.length (unroll body (tokens.length - 1) i) (recursive body i) := by
    intro i rest hlength
    exact (h (rest.length + 1)).tracks_unroll (Nat.lt_succ_self _) _ _ (by omega) (Nat.le_refl _) i
      rest (Nat.lt_succ_self _)
  have hbody := h (tokens.length + 1) tokens.length (Nat.lt_succ_self _) _ _ hself i tokens
    (Nat.lt_succ_self _)
  show (unroll body tokens.length i).run tokens = _
  cases hlength : tokens.length with
  | zero =>
    have hempty := h 1 0 Nat.zero_lt_one (fun _ => throw default) (recursive body)
      (fun i rest hrest => absurd hrest (Nat.not_lt_zero _)) i tokens (by omega)
    exact hempty.1
  | succ m =>
    rw [hlength] at hbody
    exact hbody.1

end Recursive

/-! ## 3. What a parser yields -/

/-- Whatever the parser returns has the property. -/
def Yields (P : α → Prop) (p : Parser τ ε α) : Prop :=
  ∀ tokens a rest, p.run tokens = .ok (a, rest) → P a

variable {P : α → Prop} {Q : β → Prop}

theorem yields_pure {a : α} (h : P a) : Yields P (pure a : Parser τ ε α) := by
  intro tokens a' rest hrun
  have heq : (a, tokens) = (a', rest) := Except.ok.inj hrun
  rwa [← (Prod.mk.inj heq).1]

theorem yields_throw (e : ε) : Yields P (throw e : Parser τ ε α) := fun _ _ _ hrun => nomatch hrun

theorem Yields.bind {f : α → Parser τ ε β} (hp : Yields P p) (hf : ∀ a, P a → Yields Q (f a)) :
    Yields Q (p >>= f) := by
  intro tokens b rest hrun
  rw [StateT.run_bind] at hrun
  cases hfirst : p.run tokens with
  | error e =>
    rw [hfirst] at hrun
    cases hrun
  | ok result =>
    rw [hfirst] at hrun
    exact hf result.1 (hp tokens result.1 result.2 hfirst) result.2 b rest hrun

theorem yields_bind (p : Parser τ ε α) {f : α → Parser τ ε β} (hf : ∀ a, Yields Q (f a)) :
    Yields Q (p >>= f) :=
  Yields.bind (P := fun _ => True) (fun _ _ _ _ => trivial) fun a _ => hf a

theorem yields_recursive [Inhabited ε] {body : (ι → Parser τ ε α) → ι → Parser τ ε α}
    {P : ι → α → Prop} (h : ∀ p, (∀ i, Yields (P i) (p i)) → ∀ i, Yields (P i) (body p i)) (i : ι) :
    Yields (P i) (recursive body i) := by
  have hunroll : ∀ n i, Yields (P i) (unroll body n i) := by
    intro n
    induction n with
    | zero => exact h _ fun i => yields_throw default
    | succ n ih => exact h _ ih
  exact fun tokens => hunroll tokens.length i tokens

/-! ## 4. Two parsers on two lists -/

section Respects

variable {γ δ : Type} {R : τ → τ → Prop} {S : α → β → Prop} {T : γ → δ → Prop}

/-- Both fail, or what both return corresponds, and so does what they leave. -/
def Corresponds (R : τ → τ → Prop) (S : α → β → Prop) :
    Except ε (α × List τ) → Except ε (β × List τ) → Prop
  | .ok (a, rest), .ok (b, rest') => S a b ∧ List.Forall₂ R rest rest'
  | .error _, .error _ => True
  | _, _ => False

/-- The parsers do the same on lists whose tokens correspond. -/
def Respects (R : τ → τ → Prop) (S : α → β → Prop) (p : Parser τ ε α) (q : Parser τ ε β) : Prop :=
  ∀ tokens tokens', List.Forall₂ R tokens tokens' → Corresponds R S (p.run tokens) (q.run tokens')

theorem respects_pure {a : α} {b : β} (h : S a b) :
    Respects R S (pure a : Parser τ ε α) (pure b) := fun _ _ htokens => ⟨h, htokens⟩

theorem respects_throw (e e' : ε) :
    Respects R S (throw e : Parser τ ε α) (throw e') := fun _ _ _ => trivial

theorem Respects.bind {p : Parser τ ε α} {q : Parser τ ε β} {f : α → Parser τ ε γ}
    {g : β → Parser τ ε δ} (hpq : Respects R S p q)
    (hfg : ∀ a b, S a b → Respects R T (f a) (g b)) : Respects R T (p >>= f) (q >>= g) := by
  intro tokens tokens' htokens
  have hfirst := hpq tokens tokens' htokens
  rw [StateT.run_bind, StateT.run_bind]
  cases hp : p.run tokens with
  | error e =>
    cases hq : q.run tokens' with
    | error e' => trivial
    | ok result =>
      rw [hp, hq] at hfirst
      exact hfirst.elim
  | ok result =>
    cases hq : q.run tokens' with
    | error e' =>
      rw [hp, hq] at hfirst
      exact hfirst.elim
    | ok result' =>
      rw [hp, hq] at hfirst
      exact hfg result.1 result'.1 hfirst.1 result.2 result'.2 hfirst.2

theorem respects_recursive [Inhabited ε] {κ : Type} {body : (ι → Parser τ ε α) → ι → Parser τ ε α}
    {body' : (κ → Parser τ ε β) → κ → Parser τ ε β} {S : α → β → Prop} (I : ι → κ → Prop)
    (h : ∀ p q, (∀ i j, I i j → Respects R S (p i) (q j)) →
      ∀ i j, I i j → Respects R S (body p i) (body' q j)) {i : ι} {j : κ} (hij : I i j) :
    Respects R S (recursive body i) (recursive body' j) := by
  have hunroll : ∀ n i j, I i j → Respects R S (unroll body n i) (unroll body' n j) := by
    intro n
    induction n with
    | zero => exact h _ _ fun _ _ _ => respects_throw default default
    | succ n ih => exact h _ _ ih
  intro tokens tokens' htokens
  show Corresponds R S ((unroll body tokens.length i).run tokens)
    ((unroll body' tokens'.length j).run tokens')
  rw [← htokens.length_eq]
  exact hunroll tokens.length i j hij tokens tokens' htokens

end Respects

end Clemvion.Library
