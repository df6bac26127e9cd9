import Clemvion.Redis.Claims

/-!
# Challenges — a challenge is used once, whatever gets lost

The record of a used challenge fails closed: without a reply there is no sign-in.  So no two clients use a
challenge while its record lasts, not even those whose commands or replies get lost.
-/

namespace Clemvion.Redis

variable {client : Type} [DecidableEq client] {requests : client → Request} {redis : client → Bool}
  {limits : Limits} {s : Store} {events before mid after : List (Event client)} {e e' : Event client}
  {r : Request} {text : String} {expSec nowSec expSec' nowSec' : Nat} {available : Bool}
  {v : Value} {command : Command} {commands : List (Command × Outcome)} {c c' : client}

/-! ## 1. The reply that it takes -/

theorem result_done {α : Type} {a b : α} (h : (Program.done b).result commands = some a) : b = a := by
  cases commands with
  | nil =>
    cases h
    rfl
  | cons command commands => cases h

/-- The command by which a challenge is recorded. -/
def recordOf (text : String) (expSec nowSec : Nat) : Command :=
  .setNx (makeWebAuthnAuthChallengeKey text) (.integer 1) (challengeTtlSec expSec nowSec)

/-- A challenge is used only after `OK`. -/
theorem replied_of_used
    (h : ((Request.challenge text expSec nowSec).program limits available).result commands =
      some (.used (some true))) :
    (recordOf text expSec nowSec, .replied .ok) ∈ commands := by
  cases available with
  | false =>
    have hnone := result_done h
    cases hnone
  | true =>
    induction commands with
    | nil => cases h
    | cons sent commands ih =>
      obtain ⟨sent, outcome⟩ := sent
      obtain ⟨next, hcall, hcases⟩ := result_cons h
      obtain ⟨hsent, hnext⟩ := Program.call.inj hcall
      have hsent : recordOf text expSec nowSec = sent := hsent
      obtain ⟨reply, hreplied, hrest⟩ | ⟨-, hrest⟩ | ⟨-, hrest⟩ := hcases
      · subst hnext
        have houtcome : outcome = .replied reply := hreplied
        cases reply with
        | ok =>
          rw [houtcome, hsent]
          exact List.mem_cons_self
        | _ =>
          have hanswer := result_done hrest
          cases hanswer
      · subst hnext
        have hanswer := result_done hrest
        cases hanswer
      · -- the connection sends it again
        exact List.mem_cons_of_mem _ (ih hrest)

/-! ## 2. The event of a reply -/

omit [DecidableEq client] in
theorem mem_log_split {entry : Event client × Option Reply} (h : entry ∈ log s events) :
    ∃ before after, events = before ++ entry.1 :: after ∧
      entry.2 = (entry.1.effect (storeAfter s before)).2 := by
  induction events generalizing s with
  | nil => cases h
  | cons e events ih =>
    obtain rfl | h := List.mem_cons.mp h
    · exact ⟨[], events, rfl, rfl⟩
    · obtain ⟨before, after, hevents, hreply⟩ := ih h
      exact ⟨e :: before, after, congrArg (e :: ·) hevents, hreply⟩

/-- What a client has been replied, Redis has given at one of its events. -/
theorem event_of_replied {reply : Reply} (h : (command, Outcome.replied reply) ∈ observed s events c) :
    ∃ before e after, events = before ++ e :: after ∧ e.client = c ∧ e.command = command ∧
      (e.effect (storeAfter s before)).2 = some reply := by
  obtain ⟨entry, hentry, hseen⟩ := List.mem_map.mp h
  obtain ⟨hlog, hclient⟩ := List.mem_filter.mp hentry
  obtain ⟨before, after, hevents, hreply⟩ := mem_log_split hlog
  obtain ⟨hcommand, houtcome⟩ := Prod.mk.inj hseen
  refine ⟨before, entry.1, after, hevents, of_decide_eq_true hclient, hcommand, ?_⟩
  rw [← hreply]
  unfold outcomeOf at houtcome
  split at houtcome
  next r hfate hr =>
    cases houtcome
    exact hr
  next => cases houtcome
  next => cases houtcome

/-- Nothing gives a used challenge back. -/
theorem not_gives_challenge (hmem : command ∈ r.commands) :
    ¬command.gives (makeWebAuthnAuthChallengeKey text) v := by
  intro hgives
  have hkey : command.key = makeWebAuthnAuthChallengeKey text := by
    obtain rfl | rfl := of_decide_eq_true hgives
    · rfl
    · rfl
  have hspace := mem_spaces hmem hkey (spaceOf_challenge text)
  cases r <;> simp [Request.spaces] at hspace
  obtain rfl := List.mem_singleton.mp hmem
  obtain hdel | hdel := of_decide_eq_true hgives <;> cases hdel

/-! ## 3. Runs -/

/-- Of two that were told `OK`, the second came after the record of the first had expired. -/
theorem challenge_expired (hrun : Run (programs limits requests redis) s events)
    (hevents : events = before ++ e :: (mid ++ e' :: after))
    (hcommand : e.command = recordOf text expSec nowSec)
    (hcommand' : e'.command = recordOf text expSec' nowSec')
    (hok : (e.effect (storeAfter s before)).2 = some .ok)
    (hok' : (e'.effect (storeAfter s (before ++ e :: mid))).2 = some .ok) :
    e.time + 1000 * challengeTtlSec expSec nowSec < e'.time := by
  by_contra hsoon
  have hsends : ∀ d ∈ events, d.command ∈ (requests d.client).commands :=
    hrun.sends fun c => sends_request limits (redis c) (requests c)
  have hclaims : (Request.challenge text expSec nowSec).claims =
      some (makeWebAuthnAuthChallengeKey text, .integer 1, challengeTtlSec expSec nowSec) := rfl
  obtain ⟨d, hd, -, hgives⟩ := given_back hevents hrun.sorted
    (fun d hd hkey => isClaim_of_claims hclaims (hsends d hd) hkey) hcommand hcommand' hok hok'
    (Nat.le_of_not_lt hsoon)
  have hmem : d ∈ events := by
    rw [hevents]
    exact List.mem_append_right _ (List.mem_cons_of_mem _ (List.mem_append_left _ hd))
  exact not_gives_challenge (hsends d hmem) hgives

/-- Two clients that both use a challenge have done so further apart than its record lasts. -/
theorem challenge_used_once (hrun : Run (programs limits requests redis) s events) (hne : c ≠ c')
    (hc : requests c = .challenge text expSec nowSec) (hc' : requests c' = .challenge text expSec' nowSec')
    (hused : (programs limits requests redis c).result (observed s events c) = some (.used (some true)))
    (hused' : (programs limits requests redis c').result (observed s events c') = some (.used (some true))) :
    ∃ e ∈ events, ∃ e' ∈ events, e.client = c ∧ e'.client = c' ∧
      (e.time + 1000 * challengeTtlSec expSec nowSec < e'.time ∨
        e'.time + 1000 * challengeTtlSec expSec' nowSec' < e.time) := by
  unfold programs at hused hused'
  rw [hc] at hused
  rw [hc'] at hused'
  obtain ⟨before, e, after, hevents, hclient, hcommand, hok⟩ := event_of_replied (replied_of_used hused)
  obtain ⟨before', e', after', hevents', hclient', hcommand', hok'⟩ := event_of_replied (replied_of_used hused')
  have he : e ∈ events := hevents ▸ List.mem_append_right _ List.mem_cons_self
  have he' : e' ∈ events := hevents' ▸ List.mem_append_right _ List.mem_cons_self
  refine ⟨e, he, e', he', hclient, hclient', ?_⟩
  -- one of the two events comes first, and they are not the same
  obtain ⟨mid, hbefore, hafter⟩ | ⟨mid, hbefore, hafter⟩ :=
    List.append_eq_append_iff.mp (hevents.symm.trans hevents')
  · cases mid with
    | nil =>
      cases hafter
      exact absurd (hclient.symm.trans hclient') hne
    | cons first mid =>
      cases hafter
      rw [hbefore] at hok'
      exact .inl (challenge_expired hrun hevents hcommand hcommand' hok hok')
  · cases mid with
    | nil =>
      cases hafter
      exact absurd (hclient.symm.trans hclient') hne
    | cons first mid =>
      cases hafter
      rw [hbefore] at hok
      exact .inr (challenge_expired hrun hevents' hcommand' hcommand hok' hok)

/-- A challenge whose record has expired; the token that it is in has too. -/
theorem challenge_used_once_expired :
    let record := recordOf "challenge" 100 0
    let first : Event Bool := ⟨0, false, record, .answered⟩
    let second : Event Bool := ⟨160001, true, record, .answered⟩
    let used := programs {} (fun _ : Bool => .challenge "challenge" 100 0) fun _ => true
    (used false).result (observed (fun _ => none) [first, second] false) = some (.used (some true)) ∧
      (used true).result (observed (fun _ => none) [first, second] true) = some (.used (some true)) ∧
      ∃ e ∈ [first, second], ∃ e' ∈ [first, second],
        e.time + 1000 * challengeTtlSec 100 0 < e'.time ∨ e'.time + 1000 * challengeTtlSec 100 0 < e.time := by
  intro record first second used
  have hused : (used false).result (observed (fun _ => none) [first, second] false) = some (.used (some true)) := by
    decide
  have hused' : (used true).result (observed (fun _ => none) [first, second] true) = some (.used (some true)) := by
    decide
  have hrun : Run used (fun _ => none) [first, second] :=
    ⟨by simp [first, second], fun c => by cases c <;> decide⟩
  obtain ⟨e, he, e', he', -, -, hapart⟩ := challenge_used_once hrun Bool.false_ne_true rfl rfl hused hused'
  exact ⟨hused, hused', e, he, e', he', hapart⟩

end Clemvion.Redis
