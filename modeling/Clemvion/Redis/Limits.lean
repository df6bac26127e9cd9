import Clemvion.Redis.Scripts
import Clemvion.Redis.Services

/-!
# Limits — what the rate limits let through and what they refuse

Any requests run at the same time on one Redis.  Commands and replies get lost and are sent again; a
request counts as answered if in the end each of its commands was.
-/

namespace Clemvion.Redis

open Library

variable {client : Type} [DecidableEq client] {requests : client → Request} {redis : client → Bool}
  {limits : Limits} {s : Store} {events before mid after : List (Event client)} {e e' : Event client}
  {r r' : Request} {key ip : String} {limit t now : Nat} {available : Bool} {clients : List client}
  {a : Answer} {c : Command}

/-! ## 1. The counter of a request -/

/-- The counter that a request is limited by. -/
def Request.limitOn (limits : Limits) : Request → Option (String × Nat)
  | .interact executionId => some (makeInteractKey executionId, limits.interactPerMinute)
  | .status executionId => some (makeStatusKey executionId, limits.statusPerMinute)
  | .chat triggerId conversationKey limitPerMinute =>
    some (makeChatRateLimitKey triggerId conversationKey, chatLimit limitPerMinute)
  | .outbound triggerId => some (makeOutboundKey triggerId, limitPerMinute)
  | _ => none

/-- An answer by which a request is within its limit. -/
def Answer.passes : Answer → Bool
  | .limited r => r.allowed
  | .within b => b
  | .flooding b => !b
  | .quota r => r.allowed
  | _ => false

/-- An answer by which a request is not. -/
def Answer.refuses : Answer → Bool
  | .limited r => !r.allowed
  | .within b => !b
  | .flooding b => b
  | .quota r => !r.allowed
  | _ => false

theorem mayReply_counts {reply : Reply} (hcounts : c.counts key) (h : c.mayReply reply) :
    ∃ n : Nat, reply = .integer n := by
  obtain ⟨hreply, now, cell, rfl⟩ := h
  obtain herror | ⟨n, x, -, hn, -⟩ := step_counts now cell hcounts
  · rw [herror] at hreply
    exact absurd rfl hreply
  · exact ⟨n, hn⟩

theorem mayReply_ttl {reply : Reply} (h : (Command.ttl key).mayReply reply) :
    ∃ n : Int, reply = .integer n := by
  obtain ⟨-, now, cell, rfl⟩ := h
  exact ⟨_, rfl⟩

theorem isCounter_of_script {key' : String} {seconds : Nat}
    (hc : c ∈ [Command.incrWindow key' seconds, .ttl key']) (hkey : c.key = key) :
    c.isCounter key seconds ∧ c.isScript key seconds := by
  obtain rfl | rfl := (List.mem_cons.mp hc).imp_right List.mem_singleton.mp
  · have hkey : key' = key := hkey
    rw [hkey]
    exact ⟨decide_eq_true (.inr (.inr (.inl rfl))), decide_eq_true (.inl rfl)⟩
  · have hkey : key' = key := hkey
    rw [hkey]
    exact ⟨decide_eq_true (.inr (.inr (.inr rfl))), decide_eq_true (.inr (.inl rfl))⟩

theorem isCounter_of_pipeline {key' : String} {seconds : Nat}
    (hc : c ∈ [Command.incr key', .expireNx key' seconds]) (hkey : c.key = key) :
    c.isCounter key seconds := by
  obtain rfl | rfl := (List.mem_cons.mp hc).imp_right List.mem_singleton.mp
  · have hkey : key' = key := hkey
    rw [hkey]
    exact decide_eq_true (.inl rfl)
  · have hkey : key' = key := hkey
    rw [hkey]
    exact decide_eq_true (.inr (.inl rfl))

/-- Nothing but its counter touches the key of a limit. -/
theorem isCounter_of_limitOn (h : r.limitOn limits = some (key, limit)) (hc : c ∈ r'.commands)
    (hkey : c.key = key) : c.isCounter key minuteWindowSec := by
  cases r with
  | interact executionId =>
    cases h
    have hspace := mem_spaces hc hkey (spaceOf_interact executionId)
    cases r' <;> simp [Request.spaces] at hspace
    exact (isCounter_of_script hc hkey).1
  | status executionId =>
    cases h
    have hspace := mem_spaces hc hkey (spaceOf_status executionId)
    cases r' <;> simp [Request.spaces] at hspace
    exact (isCounter_of_script hc hkey).1
  | chat triggerId conversationKey limitPerMinute =>
    cases h
    have hspace := mem_spaces hc hkey (spaceOf_chat triggerId conversationKey)
    cases r' <;> simp [Request.spaces] at hspace
    exact isCounter_of_pipeline hc hkey
  | outbound triggerId =>
    cases h
    have hspace := mem_spaces hc hkey (spaceOf_outbound triggerId)
    cases r' <;> simp [Request.spaces] at hspace
    exact isCounter_of_pipeline hc hkey
  | _ => cases h

/-! ## 2. The answers of a request -/

theorem not_counts_of_key (h : c.key ≠ key) : c.counts key = false := by
  rw [Bool.eq_false_iff]
  intro hcounts
  obtain rfl | ⟨seconds, rfl⟩ := counts_cases hcounts
  · exact h rfl
  · exact h rfl

theorem countIs_of_not {P : Nat → Prop} {reply : Reply} (h : c.counts key = false) :
    CountIs key P c reply := by
  intro hcounts
  rw [h] at hcounts
  cases hcounts

/-- A script's request is let through exactly if its count is within the limit. -/
theorem only_consume {good : RateLimitResult → Prop} {P : Nat → Prop} (available : Bool)
    (hover : ∀ n, limit < n → (∀ ttl, ¬good ⟨false, ttl⟩) ∨ P n)
    (hwithin : ∀ n, n ≤ limit → ¬good ⟨true, 0⟩ ∨ P n) :
    (InteractionRateLimiter.consume available key limit).Only (CountIs key P) good := by
  unfold InteractionRateLimiter.consume
  split
  · intro reply hmay
    have hcounts : (Command.incrWindow key minuteWindowSec).counts key = true := decide_eq_true rfl
    obtain ⟨n, rfl⟩ := mayReply_counts hcounts hmay
    dsimp only [countOf]
    by_cases hlt : (limit : Int) < n
    · rw [if_pos hlt]
      refine ⟨(hover n (by omega)).imp (fun hbad => ?_) fun hP _ => ⟨n, rfl, hP⟩, ?_⟩
      · intro reply hmay
        obtain ⟨ttl, rfl⟩ := mayReply_ttl hmay
        exact hbad _
      · intro reply hmay
        obtain ⟨ttl, rfl⟩ := mayReply_ttl hmay
        exact ⟨.inr (countIs_of_not rfl), trivial⟩
    · rw [if_neg hlt]
      exact ⟨(hwithin n (by omega)).imp_right fun hP _ => ⟨n, rfl, hP⟩, trivial⟩
  · exact trivial

theorem only_incrWithWindow {α : Type} {key' : String} {windowSec : Nat} {next : Option Int → Program α}
    {P : Nat → Prop} {good : α → Prop}
    (h : ∀ n : Nat, ((next (some n)).Never good ∨ key' ≠ key ∨ P n) ∧
      (next (some n)).Only (CountIs key P) good) :
    (incrWithWindow key' windowSec next).Only (CountIs key P) good := by
  intro reply hmay
  have hcounts : (Command.incr key').counts key' = true := decide_eq_true rfl
  obtain ⟨n, rfl⟩ := mayReply_counts hcounts hmay
  obtain ⟨hcount, hrest⟩ := h n
  refine ⟨?_, fun reply hmay => ⟨.inr (countIs_of_not rfl), hrest⟩⟩
  obtain hnever | hother | hP := hcount
  · exact .inl fun _ _ => hnever
  · exact .inr (countIs_of_not (not_counts_of_key hother))
  · exact .inr fun _ => ⟨n, rfl, hP⟩

theorem only_passes (h : r.limitOn limits = some (key, limit)) (available : Bool) :
    (r.program limits available).Only (CountIs key (· ≤ limit)) fun a => a.passes = true := by
  cases r with
  | interact executionId =>
    cases h
    exact Program.Only.map (only_consume available (fun _ _ => .inl fun _ => Bool.false_ne_true) fun _ => .inr)
  | status executionId =>
    cases h
    exact Program.Only.map (only_consume available (fun _ _ => .inl fun _ => Bool.false_ne_true) fun _ => .inr)
  | chat triggerId conversationKey limitPerMinute =>
    cases h
    refine Program.Only.map ?_
    unfold ChatChannelRateLimiter.consume
    split
    · refine only_incrWithWindow fun n => ⟨?_, trivial⟩
      by_cases hle : n ≤ chatLimit limitPerMinute
      · exact .inr (.inr hle)
      · refine .inl fun hpasses => hle ?_
        simpa [Answer.passes] using hpasses
    · exact trivial
  | outbound triggerId =>
    cases h
    refine Program.Only.map ?_
    unfold OutboundNotificationRateLimiter.consume
    split
    · refine only_incrWithWindow fun n => ⟨?_, trivial⟩
      by_cases hle : n ≤ limitPerMinute
      · exact .inr (.inr hle)
      · refine .inl fun hpasses => hle ?_
        simpa [Answer.passes] using hpasses
    · exact trivial
  | _ => cases h

theorem only_refuses (h : r.limitOn limits = some (key, limit)) (available : Bool) :
    (r.program limits available).Only (CountIs key (limit < ·)) fun a => a.refuses = true := by
  cases r with
  | interact executionId =>
    cases h
    exact Program.Only.map (only_consume available (fun _ => .inr) fun _ _ => .inl Bool.false_ne_true)
  | status executionId =>
    cases h
    exact Program.Only.map (only_consume available (fun _ => .inr) fun _ _ => .inl Bool.false_ne_true)
  | chat triggerId conversationKey limitPerMinute =>
    cases h
    refine Program.Only.map ?_
    unfold ChatChannelRateLimiter.consume
    split
    · refine only_incrWithWindow fun n => ⟨?_, trivial⟩
      by_cases hlt : chatLimit limitPerMinute < n
      · exact .inr (.inr hlt)
      · refine .inl fun hrefuses => hlt ?_
        simpa [Answer.refuses] using hrefuses
    · exact trivial
  | outbound triggerId =>
    cases h
    refine Program.Only.map ?_
    unfold OutboundNotificationRateLimiter.consume
    split
    · refine only_incrWithWindow fun n => ⟨?_, trivial⟩
      by_cases hlt : limitPerMinute < n
      · exact .inr (.inr hlt)
      · refine .inl fun hrefuses => hlt ?_
        simpa [Answer.refuses] using hrefuses
    · exact trivial
  | _ => cases h

/-! ## 3. Runs -/

/-- Every client makes its request. -/
def programs (limits : Limits) (requests : client → Request) (redis : client → Bool) (c : client) :
    Program Answer := (requests c).program limits (redis c)

omit [DecidableEq client] in
theorem sends_counter (requests : client → Request) (redis : client → Bool)
    (h : r.limitOn limits = some (key, limit)) (c : client) :
    (programs limits requests redis c).Sends fun command =>
      command.key = key → command.isCounter key minuteWindowSec :=
  (sends_request limits (redis c) (requests c)).imp fun _ hmem hkey => isCounter_of_limitOn h hmem hkey

/-- Whatever else goes on, a window's length of time lets through at most twice the limit. -/
theorem passed_length_le (hrun : Run (programs limits requests redis) s events)
    (hs : ∀ e ∈ s key, e.value ≠ .integer 0) (hnodup : clients.Nodup)
    (hlimit : ∀ c ∈ clients, (requests c).limitOn limits = some (key, limit))
    (hpassed : ∀ c ∈ clients, AnsweredWith (programs limits requests redis) s events (·.passes) c)
    (hcounted : ∀ c ∈ clients, CountedWithin events key t (1000 * minuteWindowSec) c) :
    clients.length ≤ 2 * limit := by
  cases clients with
  | nil => exact Nat.zero_le _
  | cons c clients =>
    have hcounter := sends_counter requests redis (hlimit c List.mem_cons_self)
    exact length_clients_le hrun hs hcounter hnodup (fun c hc => (hpassed c hc).1)
      (fun c hc => (hpassed c hc).2) (fun c hc => only_passes (hlimit c hc) (redis c)) hcounted

/-- Two requests for one execution, five milliseconds apart. -/
def twoRequests : List (Event Bool) :=
  [⟨0, false, .incrWindow (makeInteractKey "run") minuteWindowSec, .answered⟩,
    ⟨5, true, .incrWindow (makeInteractKey "run") minuteWindowSec, .answered⟩]

theorem run_twoRequests :
    Run (programs {} (fun _ => .interact "run") fun _ => true) (fun _ => none) twoRequests where
  sorted := by simp [twoRequests]
  follows c := by cases c <;> decide

theorem passed_length_le_twoRequests :
    let passes := AnsweredWith (programs {} (fun _ : Bool => .interact "run") fun _ => true) (fun _ => none)
      twoRequests fun a => a.passes
    passes false ∧ passes true ∧ [false, true].length ≤ 2 * ({} : Limits).interactPerMinute := by
  intro passes
  have hpasses : ∀ c, passes c := by
    intro c
    refine ⟨?_, ⟨.limited ⟨true, 0⟩, ?_, rfl⟩⟩
    · cases c <;> decide
    · cases c <;> decide
  refine ⟨hpasses false, hpasses true, ?_⟩
  refine passed_length_le run_twoRequests (fun e he => nomatch he) (by decide) (fun _ _ => rfl)
    (fun c _ => hpasses c) (t := 0) fun c _ => ?_
  cases c with
  | false => exact ⟨_, List.mem_cons_self, rfl, rfl, rfl, by decide⟩
  | true => exact ⟨_, List.mem_cons_of_mem _ List.mem_cons_self, rfl, rfl, rfl, by decide⟩

/-! ## 4. Public webhooks -/

theorem isCounter_minute (hc : c ∈ r'.commands) (hkey : c.key = makeMinKey ip) :
    c.isCounter (makeMinKey ip) minuteWindowSec := by
  have hspace := mem_spaces hc hkey (spaceOf_minute ip)
  cases r' <;> simp [Request.spaces] at hspace
  rename_i ip'
  have hc : c ∈ [Command.incr (makeMinKey ip'), .expireNx (makeMinKey ip') minuteWindowSec] ++
      [.incr (makeHourKey ip'), .expireNx (makeHourKey ip') hourWindowSec] := hc
  obtain hc | hc := List.mem_append.mp hc
  · exact isCounter_of_pipeline hc hkey
  · -- the other counter of the service
    have hhour : spaceOf c.key = some .hour := by
      obtain rfl | rfl := (List.mem_cons.mp hc).imp_right List.mem_singleton.mp
      · exact spaceOf_hour ip'
      · exact spaceOf_hour ip'
    rw [hkey, spaceOf_minute] at hhour
    cases hhour

theorem isCounter_hour (hc : c ∈ r'.commands) (hkey : c.key = makeHourKey ip) :
    c.isCounter (makeHourKey ip) hourWindowSec := by
  have hspace := mem_spaces hc hkey (spaceOf_hour ip)
  cases r' <;> simp [Request.spaces] at hspace
  rename_i ip'
  have hc : c ∈ [Command.incr (makeMinKey ip'), .expireNx (makeMinKey ip') minuteWindowSec] ++
      [.incr (makeHourKey ip'), .expireNx (makeHourKey ip') hourWindowSec] := hc
  obtain hc | hc := List.mem_append.mp hc
  · have hminute : spaceOf c.key = some .minute := by
      obtain rfl | rfl := (List.mem_cons.mp hc).imp_right List.mem_singleton.mp
      · exact spaceOf_minute ip'
      · exact spaceOf_minute ip'
    rw [hkey, spaceOf_hour] at hminute
    cases hminute
  · exact isCounter_of_pipeline hc hkey

theorem makeMinKey_ne_makeHourKey (ip : String) : makeMinKey ip ≠ makeHourKey ip := by
  intro h
  have hspace := spaceOf_minute ip
  rw [h, spaceOf_hour] at hspace
  cases hspace

/-- A conversation is started only if both counts are within their limits. -/
theorem only_consumeStart (available : Bool) (ip : String) :
    ((Request.webhook ip).program limits available).Only
        (CountIs (makeMinKey ip) (· ≤ limits.startupPerMinute)) (fun a => a.passes = true) ∧
    ((Request.webhook ip).program limits available).Only
        (CountIs (makeHourKey ip) (· ≤ limits.hourlyNewMax)) (fun a => a.passes = true) := by
  have hrefused : ∀ reason, ¬(Answer.quota ⟨false, reason⟩).passes = true := fun _ => Bool.false_ne_true
  constructor
  · refine Program.Only.map ?_
    unfold PublicWebhookQuota.consumeStart
    split
    · refine only_incrWithWindow fun n => ?_
      dsimp only
      by_cases hover : (limits.startupPerMinute : Int) < n
      · rw [if_pos hover]
        exact ⟨.inl (hrefused _), trivial⟩
      · rw [if_neg hover]
        refine ⟨.inr (.inr (by omega)), only_incrWithWindow fun n => ?_⟩
        dsimp only
        refine ⟨.inr (.inl (makeMinKey_ne_makeHourKey ip).symm), ?_⟩
        split <;> exact trivial
    · exact trivial
  · refine Program.Only.map ?_
    unfold PublicWebhookQuota.consumeStart
    split
    · refine only_incrWithWindow fun n => ?_
      dsimp only
      refine ⟨.inr (.inl (makeMinKey_ne_makeHourKey ip)), ?_⟩
      split
      · exact trivial
      · refine only_incrWithWindow fun n => ?_
        dsimp only
        by_cases hover : (limits.hourlyNewMax : Int) < n
        · rw [if_pos hover]
          exact ⟨.inl (hrefused _), trivial⟩
        · rw [if_neg hover]
          exact ⟨.inr (.inr (by omega)), trivial⟩
    · exact trivial

/-- An address starts at most twice its quota of conversations in a minute, and in an hour. -/
theorem started_length_le (hrun : Run (programs limits requests redis) s events)
    (hminute : ∀ e ∈ s (makeMinKey ip), e.value ≠ .integer 0)
    (hhour : ∀ e ∈ s (makeHourKey ip), e.value ≠ .integer 0) (hnodup : clients.Nodup)
    (hwebhook : ∀ c ∈ clients, requests c = .webhook ip)
    (hpassed : ∀ c ∈ clients, AnsweredWith (programs limits requests redis) s events (·.passes) c) :
    ((∀ c ∈ clients, CountedWithin events (makeMinKey ip) t (1000 * minuteWindowSec) c) →
      clients.length ≤ 2 * limits.startupPerMinute) ∧
    ((∀ c ∈ clients, CountedWithin events (makeHourKey ip) t (1000 * hourWindowSec) c) →
      clients.length ≤ 2 * limits.hourlyNewMax) := by
  have hsends : ∀ (key : String) (seconds : Nat),
      (∀ (r' : Request) (c : Command), c ∈ r'.commands → c.key = key → c.isCounter key seconds) →
      ∀ c, (programs limits requests redis c).Sends fun command =>
        command.key = key → command.isCounter key seconds :=
    fun key seconds h c =>
      (sends_request limits (redis c) (requests c)).imp fun _ hmem hkey => h _ _ hmem hkey
  have honly : ∀ c ∈ clients, programs limits requests redis c =
      (Request.webhook ip).program limits (redis c) := by
    intro c hc
    unfold programs
    rw [hwebhook c hc]
  refine ⟨fun hcounted => ?_, fun hcounted => ?_⟩
  · refine length_clients_le hrun hminute (hsends _ _ fun _ _ => isCounter_minute) hnodup
      (fun c hc => (hpassed c hc).1) (fun c hc => (hpassed c hc).2) (fun c hc => ?_) hcounted
    rw [honly c hc]
    exact (only_consumeStart (redis c) ip).1
  · refine length_clients_le hrun hhour (hsends _ _ fun _ _ => isCounter_hour) hnodup
      (fun c hc => (hpassed c hc).1) (fun c hc => (hpassed c hc).2) (fun c hc => ?_) hcounted
    rw [honly c hc]
    exact (only_consumeStart (redis c) ip).2

/-- A conversation is started for an address. -/
def startedAt (time : Nat) (c : Bool) (ip : String) : List (Event Bool) :=
  [⟨time, c, .incr (makeMinKey ip), .answered⟩,
    ⟨time, c, .expireNx (makeMinKey ip) minuteWindowSec, .answered⟩,
    ⟨time, c, .incr (makeHourKey ip), .answered⟩,
    ⟨time, c, .expireNx (makeHourKey ip) hourWindowSec, .answered⟩]

theorem started_length_le_twoStarts :
    let events := startedAt 0 false "::1" ++ startedAt 7 true "::1"
    let passes := AnsweredWith (programs {} (fun _ : Bool => .webhook "::1") fun _ => true) (fun _ => none)
      events fun a => a.passes
    passes false ∧ passes true ∧ [false, true].length ≤ 2 * ({} : Limits).hourlyNewMax := by
  intro events passes
  have hpasses : ∀ c, passes c := by
    intro c
    refine ⟨?_, ⟨.quota ⟨true, none⟩, ?_, rfl⟩⟩
    · cases c <;> decide
    · cases c <;> decide
  have hrun : Run (programs {} (fun _ => .webhook "::1") fun _ => true) (fun _ => none) events :=
    ⟨by simp [events, startedAt], fun c => by cases c <;> decide⟩
  refine ⟨hpasses false, hpasses true, ?_⟩
  refine (started_length_le (t := 0) hrun (fun e he => nomatch he) (fun e he => nomatch he) (by decide)
    (fun _ _ => rfl) fun c _ => hpasses c).2 fun c _ => ?_
  cases c with
  | false => exact ⟨⟨0, false, .incr (makeHourKey "::1"), .answered⟩, by simp [events, startedAt], by decide⟩
  | true => exact ⟨⟨7, true, .incr (makeHourKey "::1"), .answered⟩, by simp [events, startedAt], by decide⟩

/-! ## 5. Refusals -/

/-- The requests whose counter is a script. -/
def Request.scripted : Request → Bool
  | .interact _ | .status _ => true
  | _ => false

theorem isScript_of_limitOn (h : r.limitOn limits = some (key, limit)) (hscripted : r.scripted)
    (hc : c ∈ r'.commands) (hkey : c.key = key) : c.isScript key minuteWindowSec := by
  cases r with
  | interact executionId =>
    cases h
    have hspace := mem_spaces hc hkey (spaceOf_interact executionId)
    cases r' <;> simp [Request.spaces] at hspace
    exact (isCounter_of_script hc hkey).2
  | status executionId =>
    cases h
    have hspace := mem_spaces hc hkey (spaceOf_status executionId)
    cases r' <;> simp [Request.spaces] at hspace
    exact (isCounter_of_script hc hkey).2
  | _ => cases hscripted

omit [DecidableEq client] in
theorem sends_script (requests : client → Request) (redis : client → Bool)
    (h : r.limitOn limits = some (key, limit)) (hscripted : r.scripted) (c : client) :
    (programs limits requests redis c).Sends fun command =>
      command.key = key → command.isScript key minuteWindowSec :=
  (sends_request limits (redis c) (requests c)).imp fun _ hmem hkey =>
    isScript_of_limitOn h hscripted hmem hkey

/-- A script's request that is not refused was counted within the limit. -/
theorem only_not_refuses (h : r.limitOn limits = some (key, limit)) (hscripted : r.scripted)
    (available : Bool) :
    (r.program limits available).Only (CountIs key (· ≤ limit)) fun a => ¬a.refuses = true := by
  cases r with
  | interact executionId =>
    cases h
    exact Program.Only.map (only_consume available (fun _ _ => .inl fun _ hnot => hnot rfl) fun _ => .inr)
  | status executionId =>
    cases h
    exact Program.Only.map (only_consume available (fun _ _ => .inl fun _ hnot => hnot rfl) fun _ => .inr)
  | _ => cases hscripted

/-- The count by which a request was let through or refused. -/
theorem count_of_answered {c : client} {good : Answer → Prop} {P : Nat → Prop}
    (honly : ((requests c).program limits (redis c)).Only (CountIs key P) good)
    (hanswered : AnsweredWith (programs limits requests redis) s events good c)
    (hevents : events = before ++ e :: after) (hclient : e.client = c) (hcounts : e.command.counts key)
    (hfate : e.fate = .answered) :
    ∃ n : Nat, (e.effect (storeAfter s before)).2 = some (.integer n) ∧ P n := by
  obtain ⟨reply, hreply, hcount⟩ := hanswered.reply honly hevents hclient hfate
  obtain ⟨n, rfl, hP⟩ := hcount hcounts
  exact ⟨n, hreply, hP⟩

/-- A script refuses only if the limit was reached within the window's length just before. -/
theorem refused_recently {c : client} (hrun : Run (programs limits requests redis) s events)
    (hs : s key = none) (hlimit : (requests c).limitOn limits = some (key, limit))
    (hscripted : (requests c).scripted)
    (hrefused : AnsweredWith (programs limits requests redis) s events (·.refuses) c)
    (hevents : events = before ++ e :: after) (hclient : e.client = c) (hcounts : e.command.counts key)
    (hfate : e.fate = .answered) :
    limit ≤ ((ticks s before key).filter fun a => e.time ≤ a.1 + 1000 * minuteWindowSec).length := by
  obtain ⟨n, hreply, hlt⟩ := count_of_answered (only_refuses hlimit (redis c)) hrefused hevents hclient
    hcounts hfate
  obtain ⟨last, hrecent⟩ := recent_before hevents hs hrun.sorted
    (hrun.sends (sends_script requests redis hlimit hscripted))
  obtain ⟨x, hcell⟩ := incrCell_of_reply hcounts hreply
  have hle := hrecent.count_le hcell
  omega

/-- The second request is one too many. -/
theorem refused_recently_secondRequest :
    let first : Event Bool := ⟨0, false, .incrWindow (makeInteractKey "run") minuteWindowSec, .answered⟩
    let second : Event Bool := ⟨5, true, .incrWindow (makeInteractKey "run") minuteWindowSec, .answered⟩
    let asked : Event Bool := ⟨6, true, .ttl (makeInteractKey "run"), .answered⟩
    AnsweredWith (programs { interactPerMinute := 1 } (fun _ : Bool => .interact "run") fun _ => true)
        (fun _ => none) [first, second, asked] (fun a => a.refuses) true ∧
      1 ≤ ((ticks (fun _ => none) [first] (makeInteractKey "run")).filter fun a =>
        second.time ≤ a.1 + 1000 * minuteWindowSec).length := by
  intro first second asked
  have hrefused : AnsweredWith (programs { interactPerMinute := 1 } (fun _ : Bool => .interact "run") fun _ => true)
      (fun _ => none) [first, second, asked] (fun a => a.refuses) true :=
    ⟨by decide, ⟨.limited ⟨false, 60⟩, by decide, rfl⟩⟩
  have hrun : Run (programs { interactPerMinute := 1 } (fun _ : Bool => .interact "run") fun _ => true)
      (fun _ => none) [first, second, asked] :=
    ⟨by simp [first, second, asked], fun c => by cases c <;> decide⟩
  have hevents : [first, second, asked] = [first] ++ second :: [asked] := rfl
  exact ⟨hrefused, refused_recently hrun rfl rfl rfl hrefused hevents rfl rfl rfl⟩

/-- In a window that was not open at the start, a script refuses what comes beyond the limit. -/
theorem refused_beyond {c : client} (hrun : Run (programs limits requests redis) s events)
    (hs : live now (s key) = none) (hnow : ∀ e ∈ events, now ≤ e.time)
    (hlimit : (requests c).limitOn limits = some (key, limit)) (hscripted : (requests c).scripted)
    (hanswered : AnsweredWith (programs limits requests redis) s events (fun _ => True) c)
    (hevents : events = before ++ e :: after) (hclient : e.client = c) (hcounts : e.command.counts key)
    (hfate : e.fate = .answered)
    (hopen : ∀ a ∈ (ticks s before key).head?, e.time ≤ a.1 + 1000 * minuteWindowSec)
    (hbeyond : limit ≤ (ticks s before key).length) :
    AnsweredWith (programs limits requests redis) s events (·.refuses) c := by
  obtain ⟨hreplied, a, hresult, -⟩ := hanswered
  -- any other answer takes a count within the limit, and the open window is past it
  by_contra hnot
  have hgood : AnsweredWith (programs limits requests redis) s events (fun a => ¬a.refuses = true) c :=
    ⟨hreplied, a, hresult, fun hrefuses => hnot ⟨hreplied, a, hresult, hrefuses⟩⟩
  obtain ⟨n, hreply, hle⟩ := count_of_answered (only_not_refuses hlimit hscripted (redis c)) hgood hevents
    hclient hcounts hfate
  have hopened := opened_before hevents hs hnow hrun.sorted
    (hrun.sends (sends_script requests redis hlimit hscripted))
  obtain ⟨x, hcell⟩ := incrCell_of_reply hcounts hreply
  have hcount := hopened.count hopen hcell
  omega

theorem refused_beyond_secondRequest :
    let first : Event Bool := ⟨0, false, .incrWindow (makeInteractKey "run") minuteWindowSec, .answered⟩
    let second : Event Bool := ⟨5, true, .incrWindow (makeInteractKey "run") minuteWindowSec, .answered⟩
    let asked : Event Bool := ⟨6, true, .ttl (makeInteractKey "run"), .answered⟩
    AnsweredWith (programs { interactPerMinute := 1 } (fun _ : Bool => .interact "run") fun _ => true)
      (fun _ => none) [first, second, asked] (fun a => a.refuses) true := by
  intro first second asked
  have hanswered : AnsweredWith (programs { interactPerMinute := 1 } (fun _ : Bool => .interact "run") fun _ => true)
      (fun _ => none) [first, second, asked] (fun _ => True) true :=
    ⟨by decide, ⟨.limited ⟨false, 60⟩, by decide, trivial⟩⟩
  have hrun : Run (programs { interactPerMinute := 1 } (fun _ : Bool => .interact "run") fun _ => true)
      (fun _ => none) [first, second, asked] :=
    ⟨by simp [first, second, asked], fun c => by cases c <;> decide⟩
  have hs : live 0 ((fun _ => none : Store) (makeInteractKey "run")) = none := rfl
  have hticks : ticks (fun _ => none) [first] (makeInteractKey "run") = [(0, 1)] := by decide
  have hevents : [first, second, asked] = [first] ++ second :: [asked] := rfl
  refine refused_beyond hrun hs (fun _ _ => Nat.zero_le _) rfl rfl hanswered hevents rfl rfl rfl ?_ ?_
  · rw [hticks]
    intro a ha
    cases ha
    decide
  · rw [hticks]
    exact Nat.le_refl 1

end Clemvion.Redis
