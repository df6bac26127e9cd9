import Clemvion.Redis.Limits

/-!
# Claims — keys that one client at a time can take

An update of a chat, a nonce, a challenge or a lock is claimed by `SET … NX`.  Whoever is told that it has
the claim has it until it expires or is given back, and a lock is only given back with its own token.
-/

namespace Clemvion.Redis

variable {client : Type} [DecidableEq client] {requests : client → Request} {redis : client → Bool}
  {limits : Limits} {s : Store} {events before mid after : List (Event client)} {e e' : Event client}
  {r r' : Request} {key : String} {seconds seconds' now x : Nat} {available : Bool} {v v' : Value}
  {c : Command} {cell : Option Entry}

/-! ## 1. A claimed key -/

/-- The commands that claims are made of. -/
def Command.isClaim (key : String) : Command → Bool
  | .setNx key' _ _ | .del key' | .delIfEquals key' _ => key' = key
  | _ => false

/-- The commands that give a claim back. -/
def Command.gives (key : String) (v : Value) (c : Command) : Bool := c = .del key ∨ c = .delIfEquals key v

theorem step_held (hc : c.isClaim key) (hkeeps : c.gives key v = false) (hnow : now ≤ x) :
    step now (some ⟨v, some x⟩) c = (some ⟨v, some x⟩, (step now (some ⟨v, some x⟩) c).2) ∧
      (step now (some ⟨v, some x⟩) c).2 ≠ .ok := by
  have hlive : live now (some ⟨v, some x⟩) = some ⟨v, some x⟩ := by
    refine live_eq_some_iff.mpr ⟨rfl, fun y hy => ?_⟩
    cases hy
    exact hnow
  have hgives := of_decide_eq_false hkeeps
  cases c with
  | setNx key' v' seconds =>
    rw [step, hlive]
    exact ⟨rfl, Reply.noConfusion⟩
  | del key' =>
    have hkey : key' = key := of_decide_eq_true hc
    exact absurd (.inl (by rw [hkey])) hgives
  | delIfEquals key' v' =>
    have hkey : key' = key := of_decide_eq_true hc
    have hother : ¬(live now (some ⟨v, some x⟩)).map Entry.value = some v' := by
      rw [hlive]
      intro heq
      have heq : v = v' := Option.some.inj heq
      exact hgives (.inr (by rw [hkey, heq]))
    rw [step, if_neg hother]
    exact ⟨rfl, Reply.noConfusion⟩
  | _ => cases hc

omit [DecidableEq client] in
theorem held_run (hcell : s key = some ⟨v, some x⟩)
    (hclaim : ∀ e ∈ mid, e.command.key = key → e.command.isClaim key)
    (hkeeps : ∀ e ∈ mid, e.fate ≠ .unsent → e.command.gives key v = false)
    (htime : ∀ e ∈ mid, e.time ≤ x) : storeAfter s mid key = some ⟨v, some x⟩ := by
  induction mid generalizing s with
  | nil => exact hcell
  | cons e mid ih =>
    have hleft : (e.effect s).1 key = some ⟨v, some x⟩ := by
      by_cases hkey : e.command.key = key
      · obtain ⟨-, heffect⟩ | ⟨hfate, hstep, -⟩ := effect_same e s
        · rw [heffect]
          exact hcell
        · rw [hkey, hcell] at hstep
          rw [hstep, (step_held (hclaim e List.mem_cons_self hkey) (hkeeps e List.mem_cons_self hfate)
            (htime e List.mem_cons_self)).1]
      · rw [effect_other hkey]
        exact hcell
    exact ih hleft (fun e' he' => hclaim e' (List.mem_cons_of_mem _ he'))
      (fun e' he' => hkeeps e' (List.mem_cons_of_mem _ he')) fun e' he' => htime e' (List.mem_cons_of_mem _ he')

/-- A claim that was won leaves its value, until it expires. -/
theorem step_setNx (h : (step now cell (.setNx key v seconds)).2 = .ok) :
    (step now cell (.setNx key v seconds)).1 = some ⟨v, expireAfter now seconds⟩ := by
  rw [step] at h ⊢
  split at h
  next => rfl
  next => cases h

omit [DecidableEq client] in
/-- Between two claims that were both won, the first expired or was given back. -/
theorem given_back (hevents : events = before ++ e :: (mid ++ e' :: after))
    (hsorted : events.Pairwise fun e e' => e.time ≤ e'.time)
    (hclaim : ∀ e ∈ events, e.command.key = key → e.command.isClaim key)
    (hcommand : e.command = .setNx key v seconds) (hcommand' : e'.command = .setNx key v' seconds')
    (hok : (e.effect (storeAfter s before)).2 = some .ok)
    (hok' : (e'.effect (storeAfter s (before ++ e :: mid))).2 = some .ok)
    (hsoon : e'.time ≤ e.time + 1000 * seconds) :
    ∃ d ∈ mid, d.fate ≠ .unsent ∧ d.command.gives key v := by
  by_contra hnone
  subst hevents
  obtain ⟨-, hlater, -⟩ := List.pairwise_append.mp hsorted
  obtain ⟨-, hlater⟩ := List.pairwise_cons.mp hlater
  obtain ⟨-, -, hcross⟩ := List.pairwise_append.mp hlater
  have hcell : storeAfter s (before ++ [e]) key = some ⟨v, some (e.time + 1000 * seconds)⟩ := by
    rw [storeAfter_append]
    show (e.effect (storeAfter s before)).1 key = _
    obtain ⟨-, heffect⟩ | ⟨-, hstep, hreply⟩ := effect_same e (storeAfter s before)
    · rw [heffect] at hok
      cases hok
    · rw [hreply, Option.some.injEq] at hok
      rw [hcommand] at hok hstep
      rw [step_setNx hok] at hstep
      exact hstep
  have hheld : storeAfter s (before ++ e :: mid) key = some ⟨v, some (e.time + 1000 * seconds)⟩ := by
    have hwhole : before ++ e :: mid = (before ++ [e]) ++ mid := by
      rw [List.append_assoc]
      rfl
    rw [hwhole, storeAfter_append]
    refine held_run hcell (fun d hd => hclaim d ?_) (fun d hd hsent => ?_) fun d hd => ?_
    · exact List.mem_append_right _ (List.mem_cons_of_mem _ (List.mem_append_left _ hd))
    · exact Bool.eq_false_iff.mpr fun hgives => hnone ⟨d, hd, hsent, hgives⟩
    · exact (hcross d hd e' List.mem_cons_self).trans hsoon
  obtain ⟨-, heffect⟩ | ⟨-, -, hreply⟩ := effect_same e' (storeAfter s (before ++ e :: mid))
  · rw [heffect] at hok'
    cases hok'
  · rw [hreply, Option.some.injEq] at hok'
    have hkey : e'.command.key = key := by rw [hcommand']; rfl
    rw [hkey, hheld, hcommand'] at hok'
    have hclaims : (Command.setNx key v' seconds').isClaim key = true := decide_eq_true rfl
    have hkeeps : (Command.setNx key v' seconds').gives key v = false := decide_eq_false (by simp)
    exact (step_held hclaims hkeeps hsoon).2 hok'

/-! ## 2. The requests that claim -/

/-- The key that a request claims, with what it sets it to and for how long. -/
def Request.claims : Request → Option (String × Value × Nat)
  | .claim triggerId idempotencyKey =>
    some (makeChatDedupKey triggerId idempotencyKey, .integer 1, chatDedupWindowSec)
  | .install mallId timestamp hmac =>
    some (Cafe24InstallNonceCache.buildKey mallId timestamp hmac, .integer 1, nonceTtlSec)
  | .challenge text expSec nowSec =>
    some (makeWebAuthnAuthChallengeKey text, .integer 1, challengeTtlSec expSec nowSec)
  | .submit triggerId conversationKey token =>
    some (buildLockKey triggerId conversationKey, .text token, lockTtlSec)
  | .recover lockToken => some (recoveryLockKey, .text lockToken, recoveryLockTtlSeconds)
  | _ => none

/-- An answer by which a request has its claim. -/
def Answer.wins : Answer → Bool
  | .first b => b
  | .replay b => !b
  | .used b => b = some true
  | .held b => b
  | _ => false

/-- Nothing but claims touches a key that can be claimed. -/
theorem isClaim_of_claims (h : r.claims = some (key, v, seconds)) (hc : c ∈ r'.commands)
    (hkey : c.key = key) : c.isClaim key := by
  cases r with
  | claim triggerId idempotencyKey =>
    cases h
    have hspace := mem_spaces hc hkey (spaceOf_dedup triggerId idempotencyKey)
    cases r' <;> simp [Request.spaces] at hspace
    · obtain rfl := List.mem_singleton.mp hc
      exact decide_eq_true hkey
    · obtain rfl := List.mem_singleton.mp hc
      exact decide_eq_true hkey
  | install mallId timestamp hmac =>
    cases h
    have hspace := mem_spaces hc hkey (spaceOf_nonce mallId timestamp hmac)
    cases r' <;> simp [Request.spaces] at hspace
    obtain rfl := List.mem_singleton.mp hc
    exact decide_eq_true hkey
  | challenge text expSec nowSec =>
    cases h
    have hspace := mem_spaces hc hkey (spaceOf_challenge text)
    cases r' <;> simp [Request.spaces] at hspace
    obtain rfl := List.mem_singleton.mp hc
    exact decide_eq_true hkey
  | submit triggerId conversationKey token =>
    cases h
    have hspace := mem_spaces hc hkey (spaceOf_lock triggerId conversationKey)
    cases r' <;> simp [Request.spaces] at hspace
    obtain rfl | rfl := (List.mem_cons.mp hc).imp_right List.mem_singleton.mp
    · exact decide_eq_true hkey
    · exact decide_eq_true hkey
  | recover lockToken =>
    cases h
    have hspace := mem_spaces hc hkey spaceOf_recovery
    cases r' <;> simp [Request.spaces] at hspace
    obtain rfl | rfl := (List.mem_cons.mp hc).imp_right List.mem_singleton.mp
    · exact decide_eq_true hkey
    · exact decide_eq_true hkey
  | _ => cases h

theorem mayReply_setNx {reply : Reply} (h : (Command.setNx key v seconds).mayReply reply) :
    reply = .ok ∨ reply = .nil := by
  obtain ⟨-, now, cell, rfl⟩ := h
  rw [step]
  split
  · exact .inl rfl
  · exact .inr rfl

/-- What a won claim was replied. -/
def Granted (key : String) (v : Value) (seconds : Nat) (c : Command) (reply : Reply) : Prop :=
  c = .setNx key v seconds → reply = .ok

theorem only_wins (h : r.claims = some (key, v, seconds)) (available : Bool) :
    (r.program limits available).Only (Granted key v seconds) fun a => a.wins = true := by
  cases r with
  | claim triggerId idempotencyKey =>
    cases h
    refine Program.Only.map ?_
    unfold ChatChannelDedup.claim
    split
    · intro reply hmay
      obtain rfl | rfl := mayReply_setNx hmay
      · exact ⟨.inr fun _ => rfl, trivial⟩
      · exact ⟨.inl Bool.false_ne_true, trivial⟩
    · exact trivial
  | install mallId timestamp hmac =>
    cases h
    refine Program.Only.map ?_
    unfold Cafe24InstallNonceCache.isReplay
    split
    · intro reply hmay
      obtain rfl | rfl := mayReply_setNx hmay
      · exact ⟨.inr fun _ => rfl, trivial⟩
      · exact ⟨.inl Bool.false_ne_true, trivial⟩
    · exact trivial
  | challenge text expSec nowSec =>
    cases h
    refine Program.Only.map ?_
    unfold WebAuthnAuthChallenge.consume
    split
    · intro reply hmay
      obtain rfl | rfl := mayReply_setNx hmay
      · exact ⟨.inr fun _ => rfl, trivial⟩
      · exact ⟨.inl Bool.false_ne_true, trivial⟩
    · exact trivial
  | submit triggerId conversationKey token =>
    cases h
    refine Program.Only.map ?_
    unfold submitForm
    split
    · intro reply hmay
      obtain rfl | rfl := mayReply_setNx hmay
      · exact ⟨.inr fun _ => rfl, fun reply _ => ⟨.inr fun hc => (nomatch hc), trivial⟩⟩
      · exact ⟨.inl Bool.false_ne_true, trivial⟩
    · exact trivial
  | recover lockToken =>
    cases h
    refine Program.Only.map ?_
    unfold recoverStuckExecutions
    split
    · intro reply hmay
      obtain rfl | rfl := mayReply_setNx hmay
      · exact ⟨.inr fun _ => rfl, fun reply _ => ⟨.inr fun hc => (nomatch hc), trivial⟩⟩
      · exact ⟨.inl Bool.false_ne_true, trivial⟩
    · exact trivial
  | _ => cases h

/-! ## 3. Runs -/

/-- The event of a claim that a client has won. -/
structure WonBy (limits : Limits) (requests : client → Request) (redis : client → Bool) (s : Store)
    (events : List (Event client)) (key : String) (v : Value) (seconds : Nat) (e : Event client) : Prop where
  claims : (requests e.client).claims = some (key, v, seconds)
  command : e.command = .setNx key v seconds
  answered : e.fate = .answered
  wins : AnsweredWith (programs limits requests redis) s events (·.wins) e.client

theorem WonBy.ok (h : WonBy limits requests redis s events key v seconds e)
    (hevents : events = before ++ e :: after) : (e.effect (storeAfter s before)).2 = some .ok := by
  obtain ⟨reply, hreply, hgranted⟩ := h.wins.reply (only_wins h.claims (redis e.client)) hevents rfl h.answered
  rw [hreply, hgranted h.command]

/-- What gives a claim back in a run. -/
theorem given_back_by (hrun : Run (programs limits requests redis) s events)
    (hevents : events = before ++ e :: (mid ++ e' :: after))
    (hwon : WonBy limits requests redis s events key v seconds e)
    (hwon' : WonBy limits requests redis s events key v' seconds' e')
    (hsoon : e'.time ≤ e.time + 1000 * seconds) :
    ∃ d ∈ mid, d.fate ≠ .unsent ∧ d.command ∈ (requests d.client).commands ∧ d.command.gives key v := by
  have hsends : ∀ d ∈ events, d.command ∈ (requests d.client).commands :=
    hrun.sends fun c => sends_request limits (redis c) (requests c)
  have hwhole : events = (before ++ e :: mid) ++ e' :: after := by
    rw [hevents, List.append_assoc]
    rfl
  obtain ⟨d, hd, hsent, hgives⟩ := given_back hevents hrun.sorted
    (fun d hd hkey => isClaim_of_claims hwon.claims (hsends d hd) hkey) hwon.command hwon'.command
    (hwon.ok hevents) (hwon'.ok hwhole) hsoon
  refine ⟨d, hd, hsent, hsends d ?_, hgives⟩
  rw [hevents]
  exact List.mem_append_right _ (List.mem_cons_of_mem _ (List.mem_append_left _ hd))

/-- The two locks. -/
theorem lock_cases {token : String} (h : r.claims = some (key, .text token, seconds)) :
    (spaceOf key = some .lock ∧ seconds = lockTtlSec) ∨
    (spaceOf key = some .recovery ∧ seconds = recoveryLockTtlSeconds) := by
  cases r with
  | submit triggerId conversationKey token =>
    cases h
    exact .inl ⟨spaceOf_lock triggerId conversationKey, rfl⟩
  | recover lockToken =>
    cases h
    exact .inr ⟨spaceOf_recovery, rfl⟩
  | _ => cases h

end Clemvion.Redis
