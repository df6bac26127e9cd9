import Mathlib.Data.List.Basic

/-!
# Interleaving — programs that share a store one statement at a time

A program sends statements to a store and goes on with what each replies; between two statements
any other program may run.  A proof outline gives every statement what holds when it is sent, in
the manner of Owicki and Gries.  What a program has broken and still owes to the store is claimed
by the statement that mends it, so that where no program is half way nothing is owed.
-/

namespace Clemvion.Library

/-! ## 1. Programs -/

/-- A program over the statements `Q`, of which `q` is answered by a `Reply q`. -/
inductive Program {Q : Type} (Reply : Q → Type) (ε α : Type) : Type
  | done (outcome : Except ε α)
  | step (q : Q) (next : Reply q → Program Reply ε α)

namespace Program

variable {Q : Type} {Reply : Q → Type} {ε α β : Type}

def bind : Program Reply ε α → (α → Program Reply ε β) → Program Reply ε β
  | .done (.ok a), k => k a
  | .done (.error e), _ => .done (.error e)
  | .step q next, k => .step q fun reply => (next reply).bind k

instance : Monad (Program Reply ε) where
  pure a := .done (.ok a)
  bind := Program.bind

def send (q : Q) : Program Reply ε (Reply q) := .step q fun reply => .done (.ok reply)

def reject (e : ε) : Program Reply ε α := .done (.error e)

/-- Go on only if `condition`. -/
@[irreducible] def require (condition : Bool) (e : ε) : Program Reply ε Unit :=
  if condition then .done (.ok ()) else .done (.error e)

/-- Go on with the value, if there is one. -/
def orReject (e : ε) : Option α → Program Reply ε α
  | some a => .done (.ok a)
  | none => .done (.error e)

/-- All statements the program can come to, whatever is replied, are in `S`. -/
def Only (S : Q → Prop) : Program Reply ε α → Prop
  | .done _ => True
  | .step q next => S q ∧ ∀ reply, (next reply).Only S

variable {S : Q → Prop} {e : ε}

theorem Only.bind {p : Program Reply ε α} {k : α → Program Reply ε β} (hp : p.Only S)
    (hk : ∀ a, (k a).Only S) : (p >>= k).Only S := by
  show (p.bind k).Only S
  induction p with
  | done outcome =>
    cases outcome with
    | error e => trivial
    | ok a => exact hk a
  | step q next ih => exact ⟨hp.1, fun reply => ih reply (hp.2 reply)⟩

theorem Only.mono {S' : Q → Prop} {p : Program Reply ε α} (h : p.Only S)
    (hS : ∀ q, S q → S' q) : p.Only S' := by
  induction p with
  | done outcome => trivial
  | step q next ih => exact ⟨hS q h.1, fun reply => ih reply (h.2 reply)⟩

theorem only_done {outcome : Except ε α} :
    (Program.done outcome : Program Reply ε α).Only S := trivial

theorem only_send {q : Q} (h : S q) : (send q : Program Reply ε (Reply q)).Only S :=
  ⟨h, fun _ => trivial⟩

theorem only_require {condition : Bool} : (require condition e : Program Reply ε Unit).Only S := by
  unfold require
  cases condition <;> trivial

/-- What follows a check may rest on it. -/
theorem only_require_bind {condition : Bool} {k : Unit → Program Reply ε α}
    (hk : condition = true → (k ()).Only S) : (require condition e >>= k).Only S := by
  unfold require
  cases condition with
  | true => exact hk rfl
  | false => trivial

theorem only_done_bind {outcome : Except ε α} {k : α → Program Reply ε β}
    (hk : ∀ a, outcome = .ok a → (k a).Only S) : (Program.done outcome >>= k).Only S := by
  cases outcome with
  | error e => trivial
  | ok a => exact hk a rfl

theorem only_orReject {a : Option α} : (orReject e a : Program Reply ε α).Only S := by
  cases a <;> trivial

end Program

/-! ## 2. Runs -/

/-- `exec` runs one statement on the store, under an input from outside; `program` is what a
request sets off. -/
structure Server (Q : Type) (Reply : Q → Type) (ε σ ι R : Type) where
  exec : (q : Q) → ι → σ → Reply q × σ
  program : R → Program Reply ε Unit

/-- A request half way: the statement to be run next and what follows it. -/
structure Call {Q : Type} (Reply : Q → Type) (ε R : Type) where
  request : R
  statement : Q
  next : Reply statement → Program Reply ε Unit

variable {Q : Type} {Reply : Q → Type} {ε σ ι R : Type}

/-- What is left of a program: nothing once it is done. -/
def Program.suspend (request : R) : Program Reply ε Unit → Option (Call Reply ε R)
  | .done _ => none
  | .step q next => some ⟨request, q, next⟩

/-- The store, and the requests made so far in their order. -/
structure World {Q : Type} (Reply : Q → Type) (ε σ R : Type) where
  store : σ
  calls : List (Option (Call Reply ε R))

/-- The request with number `n`, if it is half way. -/
def World.call? (w : World Reply ε σ R) (n : Nat) : Option (Call Reply ε R) := w.calls[n]?.join

/-- No request is half way. -/
def World.Idle (w : World Reply ε σ R) : Prop := ∀ call ∈ w.calls, call = none

instance (w : World Reply ε σ R) : Decidable w.Idle :=
  decidable_of_iff (∀ call ∈ w.calls, call.isNone = true) <| by
    unfold World.Idle
    simp only [Option.isNone_iff_eq_none]

/-- A request comes in, or request `n` has its next statement run. -/
inductive Event (ι R : Type) : Type
  | submit (request : R)
  | advance (n : Nat) (input : ι)

variable (server : Server Q Reply ε σ ι R)

/-- What `call` leaves of itself and of the store. -/
def Server.proceed (call : Call Reply ε R) (input : ι) (s : σ) : Option (Call Reply ε R) × σ :=
  ((call.next (server.exec call.statement input s).1).suspend call.request,
    (server.exec call.statement input s).2)

def Server.step (w : World Reply ε σ R) : Event ι R → World Reply ε σ R
  | .submit request => { w with calls := w.calls ++ [(server.program request).suspend request] }
  | .advance n input =>
    match w.call? n with
    | none => w
    | some call =>
      { store := (server.proceed call input w.store).2
        calls := w.calls.set n (server.proceed call input w.store).1 }

def Server.run (w : World Reply ε σ R) (events : List (Event ι R)) : World Reply ε σ R :=
  events.foldl server.step w

/-- `P` of every step of the run. -/
def Server.EachStep (P : World Reply ε σ R → Event ι R → Prop) :
    World Reply ε σ R → List (Event ι R) → Prop
  | _, [] => True
  | w, e :: events => P w e ∧ EachStep P (server.step w e) events

/-- What `seen` makes of the steps of the run, in their order. -/
def Server.collect {β : Type} (seen : World Reply ε σ R → Event ι R → Option β) :
    World Reply ε σ R → List (Event ι R) → List β
  | _, [] => []
  | w, e :: events => (seen w e).toList ++ collect seen (server.step w e) events

/-- `allowed` of the request and the statement that `e` runs, if any. -/
def Sends (allowed : R → Q → σ → Prop) (w : World Reply ε σ R) : Event ι R → Prop
  | .submit _ => True
  | .advance n _ => ∀ call, w.call? n = some call → allowed call.request call.statement w.store

instance {allowed : R → Q → σ → Prop} [∀ r q s, Decidable (allowed r q s)]
    (w : World Reply ε σ R) : (e : Event ι R) → Decidable (Sends allowed w e)
  | .submit _ => isTrue trivial
  | .advance n _ =>
    match h : w.call? n with
    | none => isTrue fun _ hcall => nomatch h.symm.trans hcall
    | some call =>
      decidable_of_iff (allowed call.request call.statement w.store)
        ⟨fun hok _ hcall => by cases h.symm.trans hcall; exact hok, fun hok => hok call h⟩

instance decidableEachStep {P : World Reply ε σ R → Event ι R → Prop}
    [∀ w e, Decidable (P w e)] :
    (w : World Reply ε σ R) → (events : List (Event ι R)) → Decidable (server.EachStep P w events)
  | _, [] => isTrue trivial
  | w, e :: events =>
    @instDecidableAnd _ _ _ (decidableEachStep (server.step w e) events)

variable {server} {w : World Reply ε σ R} {n m : Nat}

theorem Server.run_append (before last : List (Event ι R)) :
    server.run w (before ++ last) = server.run (server.run w before) last :=
  List.foldl_append

theorem Server.EachStep.append {P : World Reply ε σ R → Event ι R → Prop}
    {before last : List (Event ι R)} :
    server.EachStep P w (before ++ last) ↔
      server.EachStep P w before ∧ server.EachStep P (server.run w before) last := by
  induction before generalizing w with
  | nil =>
    show _ ↔ True ∧ _
    rw [true_and]
    rfl
  | cons e before ih =>
    show P w e ∧ server.EachStep P (server.step w e) (before ++ last) ↔
      (P w e ∧ server.EachStep P (server.step w e) before) ∧ _
    rw [ih, and_assoc]
    rfl

theorem Server.EachStep.of_forall {P : World Reply ε σ R → Event ι R → Prop} (h : ∀ w e, P w e)
    (events : List (Event ι R)) : server.EachStep P w events := by
  induction events generalizing w with
  | nil => trivial
  | cons e events ih => exact ⟨h w e, ih⟩

/-- What a step leaves of the store: all of it, or what a statement makes of it. -/
theorem Server.store_step (server : Server Q Reply ε σ ι R) (w : World Reply ε σ R)
    (e : Event ι R) : (server.step w e).store = w.store ∨ ∃ n input call, e = .advance n input ∧
      w.call? n = some call ∧
      (server.step w e).store = (server.exec call.statement input w.store).2 := by
  cases e with
  | submit request => exact .inl rfl
  | advance n input =>
    cases hcall : w.call? n with
    | none =>
      left
      show (match w.call? n with | none => w | some _ => _ : World Reply ε σ R).store = w.store
      rw [hcall]
    | some call =>
      refine .inr ⟨n, input, call, rfl, hcall, ?_⟩
      show (match w.call? n with | none => w | some _ => _ : World Reply ε σ R).store = _
      rw [hcall]
      rfl

/-- The rule for invariants of a run. -/
theorem Server.EachStep.keeps {P : World Reply ε σ R → Event ι R → Prop}
    {I : World Reply ε σ R → Prop} (hstep : ∀ w e, I w → P w e → I (server.step w e))
    {events : List (Event ι R)} (hok : server.EachStep P w events) (h : I w) :
    I (server.run w events) := by
  induction events generalizing w with
  | nil => exact h
  | cons e events ih => exact ih hok.2 (hstep w e h hok.1)

/-- Two properties of steps that agree as long as the second keeps an invariant. -/
theorem Server.EachStep.iff_of_keeps {P P' F : World Reply ε σ R → Event ι R → Prop}
    {I : World Reply ε σ R → Prop} (hiff : ∀ w e, I w → F w e → (P w e ↔ P' w e))
    (hstep : ∀ w e, I w → F w e → P' w e → I (server.step w e)) {events : List (Event ι R)}
    (hok : server.EachStep F w events) (h : I w) :
    server.EachStep P w events ↔ server.EachStep P' w events := by
  induction events generalizing w with
  | nil => exact Iff.rfl
  | cons e events ih =>
    show P w e ∧ _ ↔ P' w e ∧ _
    rw [hiff w e h hok.1]
    exact and_congr_right fun he => ih hok.2 (hstep w e h hok.1 he)

theorem Sends.and {allowed allowed' : R → Q → σ → Prop} {e : Event ι R} (h : Sends allowed w e)
    (h' : Sends allowed' w e) : Sends (fun r q s => allowed r q s ∧ allowed' r q s) w e := by
  cases e with
  | submit request => trivial
  | advance n input => exact fun call hcall => ⟨h call hcall, h' call hcall⟩

/-- What two assertions say of the statement of each call they say of the step that runs it. -/
theorem Sends.congr {allowed allowed' : R → Q → σ → Prop} {e : Event ι R}
    (h : ∀ n call, w.call? n = some call →
      (allowed call.request call.statement w.store ↔ allowed' call.request call.statement w.store)) :
    Sends allowed w e ↔ Sends allowed' w e := by
  cases e with
  | submit request => exact Iff.rfl
  | advance n input =>
    exact forall_congr' fun call => imp_congr_right fun hcall => h n call hcall

/-- What is `used` up once it is seen is seen once. -/
theorem Server.EachStep.nodup_collect {β : Type} {P : World Reply ε σ R → Event ι R → Prop}
    {seen : World Reply ε σ R → Event ι R → Option β} (used : β → World Reply ε σ R → Prop)
    {I : World Reply ε σ R → Prop} (hstep : ∀ w e, I w → P w e → I (server.step w e))
    (hseen : ∀ w e b, I w → P w e → seen w e = some b → ¬ used b w ∧ used b (server.step w e))
    (hused : ∀ w e b, I w → P w e → used b w → used b (server.step w e))
    {events : List (Event ι R)} (hok : server.EachStep P w events) (h : I w) :
    (server.collect seen w events).Nodup := by
  -- with it: nothing used up already is seen
  suffices hboth : (server.collect seen w events).Nodup ∧
      ∀ b ∈ server.collect seen w events, ¬ used b w from hboth.1
  induction events generalizing w with
  | nil => exact ⟨List.nodup_nil, fun b hb => nomatch hb⟩
  | cons e events ih =>
    obtain ⟨hnodup, hunused⟩ := ih hok.2 (hstep w e h hok.1)
    have hlast : ∀ b ∈ server.collect seen (server.step w e) events, ¬ used b w :=
      fun b hb hbefore => hunused b hb (hused w e b h hok.1 hbefore)
    show ((seen w e).toList ++ _).Nodup ∧ ∀ b ∈ (seen w e).toList ++ _, _
    cases hb : seen w e with
    | none => exact ⟨hnodup, hlast⟩
    | some b =>
      obtain ⟨hnot, hnow⟩ := hseen w e b h hok.1 hb
      refine ⟨List.nodup_cons.mpr ⟨fun hagain => hunused b hagain hnow, hnodup⟩, fun b' hb' => ?_⟩
      obtain rfl | hb' := List.mem_cons.mp hb'
      · exact hnot
      · exact hlast b' hb'

theorem World.Idle.call?_eq_none (h : w.Idle) : w.call? n = none := by
  unfold World.call?
  cases hn : w.calls[n]? with
  | none => rfl
  | some call => exact h call (List.mem_of_getElem? hn)

theorem World.call?_length : w.call? w.calls.length = none := by
  unfold World.call?
  rw [List.getElem?_eq_none (Nat.le_refl _)]
  rfl

theorem Server.call?_submit (request : R) :
    (server.step w (.submit request : Event ι R)).call? n =
      if n = w.calls.length then (server.program request).suspend request else w.call? n := by
  show (w.calls ++ [_])[n]?.join = _
  split_ifs with hn
  · rw [hn, List.getElem?_concat_length]
    rfl
  · rw [List.getElem?_append]
    split_ifs with hlt
    · rfl
    · have hnone : w.calls[n]? = none := List.getElem?_eq_none (by omega)
      unfold World.call?
      rw [hnone, List.getElem?_singleton, if_neg (by omega)]

theorem Server.step_advance_of_none {input : ι} (h : w.call? n = none) :
    server.step w (.advance n input) = w := by
  show (match w.call? n with | none => w | some _ => _) = w
  rw [h]

theorem Server.step_advance {input : ι} {call : Call Reply ε R} (h : w.call? n = some call) :
    server.step w (.advance n input) =
      { store := (server.proceed call input w.store).2
        calls := w.calls.set n (server.proceed call input w.store).1 } := by
  show (match w.call? n with | none => w | some _ => _) = _
  rw [h]

theorem Server.call?_advance {input : ι} {call : Call Reply ε R} (h : w.call? n = some call) :
    (server.step w (.advance n input)).call? m =
      if m = n then (server.proceed call input w.store).1 else w.call? m := by
  have hlt : n < w.calls.length := by
    by_contra hge
    unfold World.call? at h
    rw [List.getElem?_eq_none (by omega)] at h
    cases h
  rw [step_advance h]
  show (w.calls.set n _)[m]?.join = _
  split_ifs with hm
  · rw [hm, List.getElem?_set_self hlt]
    rfl
  · rw [List.getElem?_set_ne (Ne.symm hm)]
    rfl

/-! ## 3. Proof outlines -/

/-- `Inv` holds of the store throughout, `later` relates it to what becomes of it, and `pre r q`
holds while request `r` waits to have `q` run.  `owed c` is something broken, which the statement
that claims `c` mends. -/
structure Outline (Q R σ ρ : Type) where
  Inv : σ → Prop
  later : σ → σ → Prop
  pre : R → Q → σ → Prop
  claim : Q → Option ρ
  owed : ρ → σ → Prop

namespace Outline

variable {ρ α β : Type} (O : Outline Q R σ ρ) (server) (allowed : R → Q → σ → Prop)

/-- From `s` to `s'` a program that held `held` comes to hold `held'`: only what no other can
hold, and all that was broken on the way. -/
structure HandsOn (held : Option ρ) (s s' : σ) (held' : Option ρ) : Prop where
  fresh : ∀ c, held' = some c → held = some c ∨ ∀ r q, O.pre r q s → O.claim q ≠ some c
  owes : ∀ c, O.owed c s' → O.owed c s ∧ held ≠ some c ∨ held' = some c

/-- The outline of a program of request `r`: the assertion before each of its statements holds
when the program comes to it, and `Post` when it ends. -/
def Proves (r : R) : Program Reply ε α → (Except ε α → Option ρ → σ → σ → Prop) →
    Option ρ → σ → σ → Prop
  | .done outcome, Post, held, s, s' => Post outcome held s s'
  | .step q next, Post, held, s, s' =>
    (O.pre r q s' ∧ O.HandsOn held s s' (O.claim q)) ∧
      ∀ input t, O.later s' t → O.Inv t → O.pre r q t → allowed r q t →
        Proves r (next (server.exec q input t).1) Post (O.claim q) t (server.exec q input t).2

/-- The end of a program: it leaves nothing owed. -/
def Ends (_ : Except ε α) (held : Option ρ) (s s' : σ) : Prop := O.HandsOn held s s' none

/-- Every statement keeps the invariant and the assertions of the others, and leaves something
later. -/
structure Sound : Prop where
  refl : ∀ s, O.later s s
  trans : ∀ s t u, O.later s t → O.later t u → O.later s u
  keeps : ∀ r q input s, O.Inv s → O.pre r q s → allowed r q s → O.Inv (server.exec q input s).2
  proceeds : ∀ r q input s, O.Inv s → O.pre r q s → allowed r q s →
    O.later s (server.exec q input s).2
  undisturbed : ∀ r q input s r' q', O.Inv s → O.pre r q s → allowed r q s → O.pre r' q' s →
    (∀ c, O.claim q = some c → O.claim q' ≠ some c) → O.pre r' q' (server.exec q input s).2

variable {O server allowed} {r : R}

theorem Proves.mono {Post Post' : Except ε α → Option ρ → σ → σ → Prop}
    (hpost : ∀ outcome held s s', Post outcome held s s' → Post' outcome held s s')
    {p : Program Reply ε α} {held : Option ρ} {s s' : σ}
    (h : O.Proves server allowed r p Post held s s') :
    O.Proves server allowed r p Post' held s s' := by
  induction p generalizing held s s' with
  | done outcome => exact hpost _ _ _ _ h
  | step q next ih =>
    obtain ⟨hq, hnext⟩ := h
    exact ⟨hq, fun input t hlater hinv hpre hok => ih _ (hnext input t hlater hinv hpre hok)⟩

/-- The rule of sequencing. -/
theorem proves_bind {p : Program Reply ε α} {k : α → Program Reply ε β}
    {Post : Except ε β → Option ρ → σ → σ → Prop} {held : Option ρ} {s s' : σ} :
    O.Proves server allowed r (p >>= k) Post held s s' ↔
      O.Proves server allowed r p (fun outcome held s s' =>
        match outcome with
        | .ok a => O.Proves server allowed r (k a) Post held s s'
        | .error e => Post (.error e) held s s') held s s' := by
  show O.Proves server allowed r (p.bind k) Post held s s' ↔ _
  induction p generalizing held s s' with
  | done outcome => cases outcome <;> rfl
  | step q next ih =>
    show (_ ∧ _) ↔ (_ ∧ _)
    refine and_congr_right fun _ => ?_
    refine forall_congr' fun input => forall_congr' fun t => imp_congr_right fun _ => ?_
    exact imp_congr_right fun _ => imp_congr_right fun _ => imp_congr_right fun _ => ih _

/-! ## 4. Triples -/

theorem HandsOn.refl (s : σ) : O.HandsOn none s s none where
  fresh c hc := by cases hc
  owes c hc := .inl ⟨hc, fun h => by cases h⟩

variable (O server allowed) in
/-- `p`, come to with nothing to mend in a state in `P`, follows its outline and ends with nothing
to mend, in a state in `Post` unless it fails. -/
def Triple (r : R) (P : σ → Prop) (p : Program Reply ε α) (Post : α → σ → Prop) : Prop :=
  ∀ held s s', O.HandsOn held s s' none → P s' →
    O.Proves server allowed r p
      (fun outcome held s s' => O.HandsOn held s s' none ∧ ∀ a, outcome = .ok a → Post a s')
      held s s'

variable {P : σ → Prop} {Post : α → σ → Prop}

theorem triple_done {outcome : Except ε α} (h : ∀ a s, outcome = .ok a → P s → Post a s) :
    O.Triple server allowed r P (.done outcome) Post :=
  fun _ _ s' hhands hP => ⟨hhands, fun a ha => h a s' ha hP⟩

theorem Triple.bind {p : Program Reply ε α} {k : α → Program Reply ε β} {Last : β → σ → Prop}
    (hp : O.Triple server allowed r P p Post)
    (hk : ∀ a, O.Triple server allowed r (Post a) (k a) Last) :
    O.Triple server allowed r P (p >>= k) Last := by
  intro held s s' hhands hP
  rw [proves_bind]
  apply (hp held s s' hhands hP).mono
  rintro (e | a) held s s' ⟨hmid, hpost⟩
  · exact ⟨hmid, fun b hb => nomatch hb⟩
  · exact hk a held s s' hmid (hpost a rfl)

theorem triple_send {q : Q} {Post : Reply q → σ → Prop} (hclaim : O.claim q = none)
    (hpre : ∀ s, P s → O.pre r q s)
    (hhands : ∀ input t, O.Inv t → O.pre r q t → allowed r q t →
      O.HandsOn none t (server.exec q input t).2 none)
    (hpost : ∀ input s t, P s → O.later s t → O.Inv t → O.pre r q t → allowed r q t →
      Post (server.exec q input t).1 (server.exec q input t).2) :
    O.Triple server allowed r P (Program.send q) Post := by
  intro held s s' hnow hP
  refine ⟨⟨hpre s' hP, ?_⟩, fun input t hlater hinv hq hok => ?_⟩
  · rw [hclaim]
    exact hnow
  · rw [hclaim]
    refine ⟨hhands input t hinv hq hok, fun a ha => ?_⟩
    cases ha
    exact hpost input s' t hP hlater hinv hq hok

/-- A program of statements that claim nothing, need nothing and break nothing keeps whatever
lasts. -/
theorem triple_of_only {S : Q → Prop} {F : σ → Prop} (hclaim : ∀ q, S q → O.claim q = none)
    (hpre : ∀ q s, S q → O.pre r q s)
    (hhands : ∀ q input t, S q → O.Inv t → O.pre r q t → allowed r q t →
      O.HandsOn none t (server.exec q input t).2 none)
    (hlasts : ∀ s t, O.later s t → F s → F t) (hsound : O.Sound server allowed)
    {p : Program Reply ε α} (hp : p.Only S) : O.Triple server allowed r F p fun _ => F := by
  intro held s s' hnow hF
  induction p generalizing held s s' with
  | done outcome => exact ⟨hnow, fun _ _ => hF⟩
  | step q next ih =>
    have hq := hclaim q hp.1
    refine ⟨⟨hpre q s' hp.1, by rwa [hq]⟩, fun input t hlater hinv hpre hok => ?_⟩
    have hstep := hsound.proceeds r q input t hinv hpre hok
    rw [hq]
    exact ih _ (hp.2 _) _ _ _ (hhands q input t hp.1 hinv hpre hok)
      (hlasts _ _ hstep (hlasts _ _ hlater hF))

theorem triple_require {condition : Bool} {e : ε} :
    O.Triple server allowed r P (Program.require condition e) fun _ s => P s ∧ condition = true := by
  unfold Program.require
  cases condition with
  | true => exact triple_done fun _ s _ hP => ⟨hP, rfl⟩
  | false => exact triple_done fun _ _ h => nomatch h

theorem triple_orReject {e : ε} {a : Option α} :
    O.Triple server allowed r P (Program.orReject e a) fun b s => P s ∧ a = some b := by
  cases a with
  | none => exact triple_done fun _ _ h => nomatch h
  | some a =>
    refine triple_done fun b s h hP => ⟨hP, ?_⟩
    cases h
    rfl

/-- What does not speak of the store may be used in the rest of the proof. -/
theorem triple_of_pure {c : Prop} {p : Program Reply ε α}
    (h : c → O.Triple server allowed r P p Post) :
    O.Triple server allowed r (fun s => P s ∧ c) p Post :=
  fun held s s' hnow hP => h hP.2 held s s' hnow hP.1

theorem Triple.mono {P' : σ → Prop} {Post' : α → σ → Prop} {p : Program Reply ε α}
    (h : O.Triple server allowed r P p Post) (hP : ∀ s, P' s → P s)
    (hPost : ∀ a s, Post a s → Post' a s) : O.Triple server allowed r P' p Post' :=
  fun held s s' hnow hP' =>
    (h held s s' hnow (hP s' hP')).mono fun _ _ _ _ hend =>
      ⟨hend.1, fun a ha => hPost a _ (hend.2 a ha)⟩

/-- A triple of a whole request. -/
theorem Triple.proves {p : Program Reply ε Unit} {Post : Unit → σ → Prop} {s : σ}
    (h : O.Triple server allowed r P p Post) (hP : P s) : O.Proves server allowed r p O.Ends none s s :=
  (h none s s (HandsOn.refl s) hP).mono fun _ _ _ _ hend => hend.1

/-! ## 5. The rule of parallel composition -/

variable (O server allowed) in
/-- What the outline says of a world: every call is where its outline has it, two calls claim
different things, and whatever is owed is claimed. -/
structure Holds (w : World Reply ε σ R) : Prop where
  inv : O.Inv w.store
  pre : ∀ n call, w.call? n = some call → O.pre call.request call.statement w.store
  proved : ∀ n call, w.call? n = some call →
    ∀ input t, O.later w.store t → O.Inv t → O.pre call.request call.statement t →
      allowed call.request call.statement t →
      O.Proves server allowed call.request (call.next (server.exec call.statement input t).1)
        O.Ends (O.claim call.statement) t (server.exec call.statement input t).2
  apart : ∀ n m call call' c, w.call? n = some call → w.call? m = some call' →
    O.claim call.statement = some c → O.claim call'.statement = some c → n = m
  paid : ∀ c, O.owed c w.store → ∃ n call, w.call? n = some call ∧ O.claim call.statement = some c

/-- What a call keeps of the outline when its program goes on. -/
private theorem suspend_holds {p : Program Reply ε Unit} {held : Option ρ} {s s' : σ}
    {call : Call Reply ε R} (h : O.Proves server allowed r p O.Ends held s s')
    (hcall : p.suspend r = some call) :
    O.pre call.request call.statement s' ∧ O.HandsOn held s s' (O.claim call.statement) ∧
    ∀ input t, O.later s' t → O.Inv t → O.pre call.request call.statement t →
      allowed call.request call.statement t →
      O.Proves server allowed call.request (call.next (server.exec call.statement input t).1)
        O.Ends (O.claim call.statement) t (server.exec call.statement input t).2 := by
  cases p with
  | done _ => cases hcall
  | step q next =>
    cases hcall
    obtain ⟨⟨hpre, hhands⟩, hnext⟩ := h
    exact ⟨hpre, hhands, hnext⟩

/-- What was owed before a program went on is claimed after, by itself if it broke it. -/
private theorem suspend_owes {p : Program Reply ε Unit} {held : Option ρ} {s s' : σ}
    (h : O.Proves server allowed r p O.Ends held s s') {c : ρ} (hc : O.owed c s') :
    O.owed c s ∧ held ≠ some c ∨
      ∃ call, p.suspend r = some call ∧ O.claim call.statement = some c := by
  cases p with
  | done outcome =>
    obtain hold | hnew := HandsOn.owes h c hc
    · exact .inl hold
    · cases hnew
  | step q next =>
    obtain hold | hnew := h.1.2.owes c hc
    · exact .inl hold
    · exact .inr ⟨_, rfl, hnew⟩

/-- Putting a program that goes on as its outline says in the place of call `n`. -/
private theorem Holds.put {w' : World Reply ε σ R} {p : Program Reply ε Unit} (held : Option ρ)
    (h : O.Holds server allowed w) (hsound : O.Sound server allowed)
    (hcalls : ∀ m, w'.call? m = if m = n then p.suspend r else w.call? m)
    (hheld : ∀ c, held = some c → ∀ m call, w.call? m = some call →
      O.claim call.statement = some c → m = n)
    (hbefore : ∀ call, w.call? n = some call → O.claim call.statement = held)
    (hgoes : O.Proves server allowed r p O.Ends held w.store w'.store) (hinv : O.Inv w'.store)
    (hlater : O.later w.store w'.store)
    (hothers : ∀ m call, m ≠ n → w.call? m = some call →
      O.pre call.request call.statement w'.store) :
    O.Holds server allowed w' := by
  have hcases : ∀ m call, w'.call? m = some call →
      m = n ∧ p.suspend r = some call ∨ m ≠ n ∧ w.call? m = some call := by
    intro m call hcall
    rw [hcalls] at hcall
    split_ifs at hcall with hm
    · exact .inl ⟨hm, hcall⟩
    · exact .inr ⟨hm, hcall⟩
  -- what the new call claims is claimed by no other
  have hapart : ∀ m call call' c, p.suspend r = some call → m ≠ n → w.call? m = some call' →
      O.claim call.statement = some c → O.claim call'.statement ≠ some c := by
    intro m call call' c hnew hm hold hc hc'
    obtain heq | hno := (suspend_holds hgoes hnew).2.1.fresh c hc
    · exact hm (hheld c heq m call' hold hc')
    · exact hno _ _ (h.pre m call' hold) hc'
  constructor
  · exact hinv
  · intro m call hcall
    obtain ⟨-, hnew⟩ | ⟨hm, hold⟩ := hcases m call hcall
    · exact (suspend_holds hgoes hnew).1
    · exact hothers m call hm hold
  · intro m call hcall
    obtain ⟨-, hnew⟩ | ⟨-, hold⟩ := hcases m call hcall
    · exact (suspend_holds hgoes hnew).2.2
    · exact fun input t ht => h.proved m call hold input t (hsound.trans _ _ _ hlater ht)
  · intro m m' call call' c hcall hcall' hc hc'
    obtain ⟨hm, hnew⟩ | ⟨hm, hold⟩ := hcases m call hcall <;>
      obtain ⟨hm', hnew'⟩ | ⟨hm', hold'⟩ := hcases m' call' hcall'
    · rw [hm, hm']
    · exact absurd hc' (hapart m' call call' c hnew hm' hold' hc)
    · exact absurd hc (hapart m call' call c hnew' hm hold hc')
    · exact h.apart m m' call call' c hold hold' hc hc'
  · intro c hc
    obtain ⟨howed, hnot⟩ | ⟨call, hnew, hclaim⟩ := suspend_owes hgoes hc
    · obtain ⟨m, call, hcall, hclaim⟩ := h.paid c howed
      have hm : m ≠ n := by
        rintro rfl
        exact hnot ((hbefore call hcall).symm.trans hclaim)
      exact ⟨m, call, by rw [hcalls, if_neg hm, hcall], hclaim⟩
    · exact ⟨n, call, by rw [hcalls, if_pos rfl, hnew], hclaim⟩

theorem Holds.step (hsound : O.Sound server allowed)
    (hstart : ∀ request s, O.Inv s →
      O.Proves server allowed request (server.program request) O.Ends none s s)
    {e : Event ι R} (h : O.Holds server allowed w) (hok : Sends allowed w e) :
    O.Holds server allowed (server.step w e) := by
  cases e with
  | submit request =>
    apply h.put none hsound fun m => Server.call?_submit request
    · intro c heq
      cases heq
    · intro call hcall
      rw [World.call?_length] at hcall
      cases hcall
    · exact hstart request w.store h.inv
    · exact h.inv
    · exact hsound.refl _
    · exact fun m call _ hcall => h.pre m call hcall
  | advance n input =>
    cases hcall : w.call? n with
    | none =>
      rw [Server.step_advance_of_none hcall]
      exact h
    | some call =>
      have hpre := h.pre n call hcall
      have hallowed := hok call hcall
      have hstore : (server.step w (.advance n input)).store =
          (server.exec call.statement input w.store).2 := by
        rw [Server.step_advance hcall]
        rfl
      apply h.put (O.claim call.statement) hsound fun m => Server.call?_advance hcall
      · intro c heq m call' hcall' hc
        exact h.apart m n call' call c hcall' hcall hc heq
      · intro call' hcall'
        rw [hcall] at hcall'
        cases hcall'
        rfl
      · rw [hstore]
        exact h.proved n call hcall input w.store (hsound.refl _) h.inv hpre hallowed
      · rw [hstore]
        exact hsound.keeps _ _ input _ h.inv hpre hallowed
      · rw [hstore]
        exact hsound.proceeds _ _ input _ h.inv hpre hallowed
      · intro m call' hm hcall'
        rw [hstore]
        apply hsound.undisturbed _ _ input _ _ _ h.inv hpre hallowed (h.pre m call' hcall')
        intro c hc hc'
        exact hm (h.apart m n call' call c hcall' hcall hc' hc)

/-- **Parallel composition.** The outline holds throughout a run. -/
theorem Holds.run (hsound : O.Sound server allowed)
    (hstart : ∀ request s, O.Inv s →
      O.Proves server allowed request (server.program request) O.Ends none s s)
    {events : List (Event ι R)} (h : O.Holds server allowed w)
    (hok : server.EachStep (Sends allowed) w events) :
    O.Holds server allowed (server.run w events) := by
  induction events generalizing w with
  | nil => exact h
  | cons e events ih => exact ih (h.step hsound hstart hok.1) hok.2

/-- Where no call is half way nothing is owed. -/
theorem Holds.settled (h : O.Holds server allowed w) (hidle : w.Idle) (c : ρ) :
    ¬ O.owed c w.store := by
  intro hc
  obtain ⟨n, call, hcall, -⟩ := h.paid c hc
  rw [hidle.call?_eq_none] at hcall
  cases hcall

/-- A world in which no call is half way is as its outline says once its store is. -/
theorem holds_of_idle (hidle : w.Idle) (hinv : O.Inv w.store) (hpaid : ∀ c, ¬ O.owed c w.store) :
    O.Holds server allowed w where
  inv := hinv
  pre n call hcall := by
    rw [hidle.call?_eq_none] at hcall
    cases hcall
  proved n call hcall := by
    rw [hidle.call?_eq_none] at hcall
    cases hcall
  apart n m call call' c hcall := by
    rw [hidle.call?_eq_none] at hcall
    cases hcall
  paid c hc := absurd hc (hpaid c)

/-- A reflexive and transitive relation that every statement keeps relates the ends of a run. -/
theorem Holds.relates (Rel : σ → σ → Prop) (hrefl : ∀ s, Rel s s)
    (htrans : ∀ s t u, Rel s t → Rel t u → Rel s u) (hsound : O.Sound server allowed)
    (hstart : ∀ request s, O.Inv s →
      O.Proves server allowed request (server.program request) O.Ends none s s)
    {allowed' : R → Q → σ → Prop}
    (hrel : ∀ r q input s, O.Inv s → O.pre r q s → allowed r q s → allowed' r q s →
      Rel s (server.exec q input s).2)
    {events : List (Event ι R)} (h : O.Holds server allowed w)
    (hok : server.EachStep (Sends allowed) w events)
    (hok' : server.EachStep (Sends allowed') w events) :
    Rel w.store (server.run w events).store := by
  induction events generalizing w with
  | nil => exact hrefl _
  | cons e events ih =>
    have hlater := ih (h.step hsound hstart hok.1) hok.2 hok'.2
    cases e with
    | submit request => exact hlater
    | advance n input =>
      cases hcall : w.call? n with
      | none =>
        rw [Server.step_advance_of_none hcall] at hlater
        show Rel w.store (server.run (server.step w (.advance n input)) events).store
        rw [Server.step_advance_of_none hcall]
        exact hlater
      | some call =>
        have hnow := hrel _ _ input _ h.inv (h.pre n call hcall) (hok.1 call hcall)
          (hok'.1 call hcall)
        refine htrans _ _ _ hnow ?_
        rw [Server.step_advance hcall] at hlater
        show Rel _ (server.run (server.step w (.advance n input)) events).store
        rw [Server.step_advance hcall]
        exact hlater

end Outline

end Clemvion.Library
