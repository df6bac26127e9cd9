import Clemvion.Redis.Limits

/-!
# LockOuts — addresses that guess install tokens

An address is locked out when enough of its installs have failed within a window.  Looking that up does not
count, and neither does an install that works.
-/

namespace Clemvion.Redis

open Cafe24InstallRateLimit

variable {client : Type} [DecidableEq client] {requests : client → Request} {redis : client → Bool}
  {limits : Limits} {s : Store} {events before after : List (Event client)} {e : Event client}
  {r : Request} {key ip : String} {now : Nat} {c : Command} {cell : Option Entry} {v : Value}

/-! ## 1. The key of an address -/

theorem isScript_of_fail (hc : c ∈ r.commands) (hkey : c.key = buildKey ip) :
    c.isScript (buildKey ip) installFailWindowSec := by
  have hspace := mem_spaces hc hkey (spaceOf_fail ip)
  cases r <;> simp [Request.spaces] at hspace
  · obtain rfl := List.mem_singleton.mp hc
    exact decide_eq_true (.inr (.inr (congrArg Command.get hkey)))
  · obtain rfl := List.mem_singleton.mp hc
    exact decide_eq_true (.inl (congrArg (Command.incrWindow · installFailWindowSec) hkey))

omit [DecidableEq client] in
theorem sends_fail (requests : client → Request) (redis : client → Bool) (ip : String) (c : client) :
    (programs limits requests redis c).Sends fun command =>
      command.key = buildKey ip → command.isScript (buildKey ip) installFailWindowSec :=
  (sends_request limits (redis c) (requests c)).imp fun _ hmem hkey => isScript_of_fail hmem hkey

omit [DecidableEq client] in
theorem effect_get (hcommand : e.command = .get key) (hfate : e.fate = .answered) :
    (e.effect s).2 = some (step e.time (s key) (.get key)).2 := by
  obtain ⟨hunsent, -⟩ | ⟨-, -, hstep⟩ := effect_same e s
  · cases hfate.symm.trans hunsent
  · rw [hstep, hcommand]
    rfl

theorem step_get (h : (step now cell (.get key)).2 = .value v) :
    ∃ entry, live now cell = some entry ∧ entry.value = v := by
  rw [step] at h
  split at h
  next => cases h
  next entry hlive =>
    cases h
    exact ⟨entry, hlive, rfl⟩

/-! ## 2. The answer to a look-up -/

/-- An address is locked out by a count that is high enough. -/
theorem only_lockedOut (available : Bool) (ip : String) :
    ((Request.lockedOut ip).program limits available).Only
      (fun c reply => c = .get (buildKey ip) → ∃ n, reply = .value (.integer n) ∧ installFailThreshold ≤ n)
      (· = .lockedOut true) := by
  refine Program.Only.map ?_
  unfold isLockedOut
  split
  · intro reply hmay
    cases reply with
    | value v =>
      cases v with
      | integer count =>
        by_cases hle : installFailThreshold ≤ count
        · exact ⟨.inr fun _ => ⟨count, rfl, hle⟩, trivial⟩
        · exact ⟨.inl fun hgood => hle (of_decide_eq_true (Answer.lockedOut.inj hgood)), trivial⟩
      | text t => exact ⟨.inl fun hgood => (nomatch hgood), trivial⟩
    | _ => exact ⟨.inl fun hgood => (nomatch hgood), trivial⟩
  · exact trivial

/-- It is not by a count that is too low. -/
theorem only_not_lockedOut (available : Bool) (ip : String) :
    ((Request.lockedOut ip).program limits available).Only
      (fun c reply => c = .get (buildKey ip) → ∀ n, reply = .value (.integer n) → n < installFailThreshold)
      (¬· = .lockedOut true) := by
  refine Program.Only.map ?_
  unfold isLockedOut
  split
  · intro reply hmay
    cases reply with
    | value v =>
      cases v with
      | integer count =>
        by_cases hle : installFailThreshold ≤ count
        · exact ⟨.inl fun hgood => hgood (congrArg Answer.lockedOut (decide_eq_true hle)), trivial⟩
        · refine ⟨.inr fun _ n hn => ?_, trivial⟩
          cases hn
          exact Nat.lt_of_not_le hle
      | text t => exact ⟨.inr fun _ n hn => (nomatch hn), trivial⟩
    | _ => exact ⟨.inr fun _ n hn => (nomatch hn), trivial⟩
  · exact trivial

/-! ## 3. Runs -/

theorem command_of_lockedOut (hrun : Run (programs limits requests redis) s events)
    (hevents : events = before ++ e :: after) (hrequest : requests e.client = .lockedOut ip) :
    e.command = .get (buildKey ip) := by
  have he : e ∈ events := hevents ▸ List.mem_append_right _ List.mem_cons_self
  have hmem := hrun.sends (fun c => sends_request limits (redis c) (requests c)) e he
  rw [hrequest] at hmem
  exact List.mem_singleton.mp hmem

/-- The reply to a look-up that was answered so. -/
theorem reply_of_lockedOut {good : Answer → Prop} {Q : Command → Reply → Prop}
    (honly : ((Request.lockedOut ip).program limits (redis e.client)).Only Q good)
    (hanswered : AnsweredWith (programs limits requests redis) s events good e.client)
    (hevents : events = before ++ e :: after) (hrequest : requests e.client = .lockedOut ip)
    (hfate : e.fate = .answered) :
    ∃ reply, (e.effect (storeAfter s before)).2 = some reply ∧ Q e.command reply := by
  refine hanswered.reply ?_ hevents rfl hfate
  unfold programs
  rw [hrequest]
  exact honly

/-- An address is locked out only if enough of its installs failed within the window's length just before. -/
theorem lockedOut_recently (hrun : Run (programs limits requests redis) s events)
    (hs : s (buildKey ip) = none) (hevents : events = before ++ e :: after)
    (hrequest : requests e.client = .lockedOut ip) (hfate : e.fate = .answered)
    (hlocked : AnsweredWith (programs limits requests redis) s events (· = .lockedOut true) e.client) :
    installFailThreshold ≤ ((ticks s before (buildKey ip)).filter fun a =>
      e.time ≤ a.1 + 1000 * installFailWindowSec).length := by
  have hcommand := command_of_lockedOut hrun hevents hrequest
  obtain ⟨reply, hreply, hcount⟩ := reply_of_lockedOut (only_lockedOut (redis e.client) ip) hlocked hevents
    hrequest hfate
  obtain ⟨n, rfl, hle⟩ := hcount hcommand
  rw [effect_get hcommand hfate] at hreply
  -- the count that was read is of a window that is still open
  obtain ⟨entry, hlive, hvalue⟩ := step_get (Option.some.inj hreply)
  obtain ⟨last, hrecent⟩ := recent_before hevents hs hrun.sorted (hrun.sends (sends_fail requests redis ip))
  exact hle.trans (hrecent.value_le hlive hvalue)

/-- In a window that was not open at the start, an address is locked out when enough of its installs have
failed. -/
theorem lockedOut_beyond (hrun : Run (programs limits requests redis) s events)
    (hs : live now (s (buildKey ip)) = none) (hnow : ∀ e ∈ events, now ≤ e.time)
    (hevents : events = before ++ e :: after) (hrequest : requests e.client = .lockedOut ip)
    (hfate : e.fate = .answered)
    (hanswered : AnsweredWith (programs limits requests redis) s events (fun _ => True) e.client)
    (hopen : ∀ a ∈ (ticks s before (buildKey ip)).head?, e.time ≤ a.1 + 1000 * installFailWindowSec)
    (hfailures : installFailThreshold ≤ (ticks s before (buildKey ip)).length) :
    AnsweredWith (programs limits requests redis) s events (· = .lockedOut true) e.client := by
  obtain ⟨hreplied, a, hresult, -⟩ := hanswered
  -- any other answer takes a count below the threshold, and the open window holds all failures
  by_contra hnot
  have hgood : AnsweredWith (programs limits requests redis) s events (¬· = .lockedOut true) e.client :=
    ⟨hreplied, a, hresult, fun hlocked => hnot ⟨hreplied, a, hresult, hlocked⟩⟩
  have hcommand := command_of_lockedOut hrun hevents hrequest
  obtain ⟨reply, hreply, hcount⟩ := reply_of_lockedOut (only_not_lockedOut (redis e.client) ip) hgood hevents
    hrequest hfate
  have hopened := opened_before hevents hs hnow hrun.sorted (hrun.sends (sends_fail requests redis ip))
  obtain ⟨first, hfirst⟩ : ∃ first, (ticks s before (buildKey ip)).head? = some first := by
    cases hticks : ticks s before (buildKey ip) with
    | nil =>
      rw [hticks] at hfailures
      exact absurd hfailures (by decide)
    | cons first rest => exact ⟨first, rfl⟩
  have hlive := hopened.isLive hfirst (hopen first hfirst)
  rw [effect_get hcommand hfate, step, hlive] at hreply
  have hlt := hcount hcommand _ (Option.some.inj hreply).symm
  omega

/-! ## 4. Ten failures -/

def tenFailures : List (Event (Fin 11)) :=
  (List.range 10).map fun i =>
    ⟨i, Fin.ofNat 11 i, .incrWindow (buildKey "::1") installFailWindowSec, .answered⟩

/-- The last client looks up what the others have brought about. -/
def lookUp : Event (Fin 11) := ⟨60, 10, .get (buildKey "::1"), .answered⟩

def guesses (c : Fin 11) : Request := if c = 10 then .lockedOut "::1" else .failure "::1"

theorem run_tenFailures :
    Run (programs {} guesses fun _ => true) (fun _ => none) (tenFailures ++ [lookUp]) :=
  ⟨by decide +kernel, by decide +kernel⟩

theorem lockedOut_recently_tenFailures :
    AnsweredWith (programs {} guesses fun _ => true) (fun _ => none) (tenFailures ++ [lookUp])
        (· = .lockedOut true) lookUp.client ∧
      installFailThreshold ≤ ((ticks (fun _ => none) tenFailures (buildKey "::1")).filter fun a =>
        lookUp.time ≤ a.1 + 1000 * installFailWindowSec).length := by
  have hlocked : AnsweredWith (programs {} guesses fun _ => true) (fun _ => none) (tenFailures ++ [lookUp])
      (· = .lockedOut true) lookUp.client := ⟨by decide +kernel, ⟨.lockedOut true, by decide +kernel, rfl⟩⟩
  exact ⟨hlocked, lockedOut_recently run_tenFailures rfl rfl rfl rfl hlocked⟩

theorem lockedOut_beyond_tenFailures :
    AnsweredWith (programs {} guesses fun _ => true) (fun _ => none) (tenFailures ++ [lookUp])
      (· = .lockedOut true) lookUp.client := by
  have hanswered : AnsweredWith (programs {} guesses fun _ => true) (fun _ => none) (tenFailures ++ [lookUp])
      (fun _ => True) lookUp.client := ⟨by decide +kernel, ⟨.lockedOut true, by decide +kernel, trivial⟩⟩
  have hs : live 0 ((fun _ => none : Store) (buildKey "::1")) = none := rfl
  have hhead : (ticks (fun _ => none) tenFailures (buildKey "::1")).head? = some (0, 1) := by decide +kernel
  refine lockedOut_beyond run_tenFailures hs (fun _ _ => Nat.zero_le _) rfl rfl rfl hanswered ?_
    (by decide +kernel)
  rw [hhead]
  intro a ha
  cases ha
  decide

end Clemvion.Redis
