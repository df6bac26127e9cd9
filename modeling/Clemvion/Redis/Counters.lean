import Clemvion.Library.FixedWindow
import Clemvion.Redis.Clients

/-!
# Counters — a key that is counted up and expires

A key is counted up by the script, or by `INCR` with an `EXPIRE … NX` of its own that may come later or get
lost.  Either way the counts are those of fixed windows.
-/

namespace Clemvion.Redis

open Library

variable {client : Type} {s : Store} {events mid : List (Event client)} {e : Event client}
  {key : String} {seconds now t limit n : Nat} {x x' : Option Nat} {cell : Option Entry} {l : List Tick}
  {c : Command}

/-! ## 1. Ticks -/

/-- The commands that a counter is made of. -/
def Command.isCounter (key : String) (seconds : Nat) (c : Command) : Bool :=
  c = .incr key ∨ c = .expireNx key seconds ∨ c = .incrWindow key seconds ∨ c = .ttl key

/-- The commands that count. -/
def Command.counts (key : String) : Command → Bool
  | .incr key' | .incrWindow key' _ => key' = key
  | _ => false

theorem isCounter_cases (h : c.isCounter key seconds) :
    c = .incr key ∨ c = .expireNx key seconds ∨ c = .incrWindow key seconds ∨ c = .ttl key :=
  of_decide_eq_true h

theorem counts_cases (h : c.counts key) : c = .incr key ∨ ∃ seconds, c = .incrWindow key seconds := by
  cases c <;> simp_all [Command.counts]

theorem incrCell_cases (h : incrCell now cell = some (n, x)) :
    (∃ m, cell = some ⟨.integer m, x⟩ ∧ (∀ y ∈ x, now ≤ y) ∧ n = m + 1) ∨
    (∀ e ∈ cell, ∃ y ∈ e.expiresAt, y < now) ∧ n = 1 ∧ x = none := by
  unfold incrCell at h
  split at h
  next hlive =>
    cases h
    exact .inr ⟨live_eq_none_iff.mp hlive, rfl, rfl⟩
  next m y hlive =>
    cases h
    obtain ⟨hcell, hy⟩ := live_eq_some_iff.mp hlive
    exact .inl ⟨m, hcell, hy, rfl⟩
  next => cases h

/-- A command that counts replies with the count that it leaves. -/
theorem step_counts (now : Nat) (cell : Option Entry) (h : c.counts key) :
    step now cell c = (cell, .error) ∨
    ∃ n x, incrCell now cell = some (n, x) ∧ (step now cell c).2 = .integer n ∧
      ((step now cell c).1 = some ⟨.integer n, x⟩ ∨
        ∃ seconds, c = .incrWindow key seconds ∧ n = 1 ∧
          (step now cell c).1 = some ⟨.integer n, expireAfter now seconds⟩) := by
  obtain rfl | ⟨seconds, rfl⟩ := counts_cases h
  · rw [step]
    split
    next => exact .inl rfl
    next n x hcell => exact .inr ⟨n, x, hcell, rfl, .inl rfl⟩
  · rw [step]
    split
    next => exact .inl rfl
    next n x hcell =>
      refine .inr ⟨n, x, hcell, rfl, ?_⟩
      by_cases hone : n = 1
      · exact .inr ⟨seconds, rfl, hone, by rw [if_pos hone]⟩
      · exact .inl (by rw [if_neg hone])

/-- The tick of a command that was executed. -/
def tickOf (key : String) (entry : Event client × Option Reply) : Option Tick :=
  if entry.1.command.counts key then
    match entry.2 with
    | some (.integer n) => some (entry.1.time, n.toNat)
    | _ => none
  else none

def ticks (s : Store) (events : List (Event client)) (key : String) : List Tick :=
  (log s events).filterMap (tickOf key)

theorem ticks_cons (s : Store) (e : Event client) (events : List (Event client)) (key : String) :
    ticks s (e :: events) key = (tickOf key (e, (e.effect s).2)).toList ++ ticks (e.effect s).1 events key := by
  unfold ticks
  rw [log, List.filterMap_cons]
  cases tickOf key (e, (e.effect s).2) with
  | none => rfl
  | some a => rfl

/-- An event does its step on a key, or leaves it alone. -/
theorem effect_key (e : Event client) (s : Store) (key : String) :
    ((e.effect s).1 key = s key ∧ tickOf key (e, (e.effect s).2) = none) ∨
    (e.command.key = key ∧ (e.effect s).1 key = (step e.time (s key) e.command).1 ∧
      (e.effect s).2 = some (step e.time (s key) e.command).2) := by
  by_cases hkey : e.command.key = key
  · subst hkey
    obtain ⟨-, heffect⟩ | ⟨-, hcell, hreply⟩ := effect_same e s
    · refine .inl ⟨by rw [heffect], ?_⟩
      rw [heffect]
      exact ite_self _
    · exact .inr ⟨rfl, hcell, hreply⟩
  · refine .inl ⟨effect_other hkey, if_neg fun hcounts => ?_⟩
    obtain hc | ⟨seconds, hc⟩ := counts_cases hcounts
    · exact hkey (by rw [hc]; rfl)
    · exact hkey (by rw [hc]; rfl)

theorem incrCell_of_reply (hcounts : e.command.counts key)
    (hreply : (e.effect s).2 = some (.integer n)) : ∃ x, incrCell e.time (s key) = some (n, x) := by
  obtain ⟨-, hnone⟩ | ⟨-, -, hstep⟩ := effect_key e s key
  · rw [hreply] at hnone
    simp [tickOf, hcounts] at hnone
  · rw [hreply] at hstep
    obtain herror | ⟨n', x, hcell, hn, -⟩ := step_counts e.time (s key) hcounts
    · rw [herror] at hstep
      cases hstep
    · rw [hn] at hstep
      have hnn : n = n' := Int.ofNat.inj (Reply.integer.inj (Option.some.inj hstep))
      rw [hnn]
      exact ⟨x, hcell⟩

/-! ## 2. What one command keeps -/

/-- What is known of a counter at a moment. -/
structure Windowed (seconds now : Nat) (l : List Tick) (cell : Option Entry) : Prop where
  counted : Counted (1000 * seconds) l
  past : ∀ a ∈ l, a.1 ≤ now
  last : ∀ a ∈ l.getLast?, ∃ x, cell = some ⟨.integer a.2, x⟩
  positive : ∀ e ∈ cell, e.value ≠ .integer 0
  /-- No window is shorter than it should be. -/
  starts : ∀ a ∈ l, a.2 = 1 → ∀ e ∈ cell, ∀ x ∈ e.expiresAt, a.1 + 1000 * seconds ≤ x

theorem Windowed.later (h : Windowed seconds now l cell) {now' : Nat} (hle : now ≤ now') :
    Windowed seconds now' l cell :=
  { h with past := fun a ha => (h.past a ha).trans hle }

theorem windowed_nil (now : Nat) (h : ∀ e ∈ cell, e.value ≠ .integer 0) : Windowed seconds now [] cell where
  counted := ⟨.nil, fun _ ha => (nomatch ha), .nil⟩
  past _ ha := nomatch ha
  last _ ha := nomatch ha
  positive := h
  starts _ ha := nomatch ha

theorem Windowed.entry (h : Windowed seconds now l cell) {a : Tick} (ha : a ∈ l) : ∃ e, cell = some e := by
  cases hlast : l.getLast? with
  | none =>
    rw [List.getLast?_eq_none_iff] at hlast
    rw [hlast] at ha
    cases ha
  | some b =>
    obtain ⟨x, hx⟩ := h.last b hlast
    exact ⟨_, hx⟩

/-- The count goes on, or the window is over. -/
theorem Windowed.starts_again (h : Windowed seconds now l cell) (hcell : incrCell now cell = some (n, x))
    (hone : n = 1) : x = none ∧ ∀ a ∈ l, a.2 = 1 → a.1 + 1000 * seconds ≤ now := by
  obtain ⟨m, hm, -, rfl⟩ | ⟨hdead, -, hx⟩ := incrCell_cases hcell
  · have hzero : m = 0 := by omega
    rw [hzero] at hm
    exact absurd rfl (h.positive _ hm)
  · refine ⟨hx, fun a ha ha1 => ?_⟩
    obtain ⟨e, he⟩ := h.entry ha
    obtain ⟨y, hy, hlt⟩ := hdead e he
    have := h.starts a ha ha1 e he y hy
    omega

/-- A window that begins may end a window's length later, or not at all. -/
theorem Windowed.tick (h : Windowed seconds now l cell) (hcell : incrCell now cell = some (n, x))
    (hx : x' = x ∨ x' = expireAfter now seconds) :
    Windowed seconds now (l ++ [(now, n)]) (some ⟨.integer n, x'⟩) := by
  have hpositive : 1 ≤ n := by
    obtain ⟨m, -, -, rfl⟩ | ⟨-, rfl, -⟩ := incrCell_cases hcell <;> omega
  refine ⟨⟨?_, ?_, ?_⟩, ?_, ?_, ?_, ?_⟩
  · refine List.isChain_append.mpr ⟨h.counted.chain, .singleton _, fun a ha b hb => ?_⟩
    obtain rfl : (now, n) = b := by simpa using hb
    refine ⟨h.past a (List.mem_of_getLast? ha), ?_⟩
    obtain ⟨y, hy⟩ := h.last a ha
    obtain ⟨m, hm, -, rfl⟩ | ⟨-, hone, -⟩ := incrCell_cases hcell
    · cases hy.symm.trans hm
      exact .inl rfl
    · exact .inr hone
  · intro a ha
    obtain ha | ha := List.mem_append.mp ha
    · exact h.counted.positive a ha
    · obtain rfl := List.mem_singleton.mp ha
      exact hpositive
  · refine List.pairwise_append.mpr ⟨h.counted.starts, List.pairwise_singleton _ _, ?_⟩
    intro a ha b hb ha1 hb1
    obtain rfl := List.mem_singleton.mp hb
    exact (h.starts_again hcell hb1).2 a ha ha1
  · intro a ha
    obtain ha | ha := List.mem_append.mp ha
    · exact h.past a ha
    · obtain rfl := List.mem_singleton.mp ha
      exact Nat.le_refl _
  · intro a ha
    rw [List.getLast?_concat, Option.mem_some_iff] at ha
    subst ha
    exact ⟨x', rfl⟩
  · rintro e he hzero
    cases he
    have hzero : n = 0 := Value.integer.inj hzero
    omega
  · rintro a ha ha1 e he y hy
    cases he
    have hpast : a.1 ≤ now := by
      obtain ha | ha := List.mem_append.mp ha
      · exact h.past a ha
      · obtain rfl := List.mem_singleton.mp ha
        exact Nat.le_refl _
    obtain rfl | rfl := hx
    · obtain ha | ha := List.mem_append.mp ha
      · -- the window that goes on ends no sooner than before
        obtain ⟨m, hm, -, -⟩ | ⟨-, -, rfl⟩ := incrCell_cases hcell
        · exact h.starts a ha ha1 _ hm y hy
        · cases hy
      · obtain rfl := List.mem_singleton.mp ha
        rw [(h.starts_again hcell ha1).1] at hy
        cases hy
    · cases hy
      omega

theorem Windowed.step (h : Windowed seconds now l cell) (hc : c.isCounter key seconds) {e : Event client}
    (hcommand : e.command = c) (htime : e.time = now) :
    Windowed seconds now (l ++ (tickOf key (e, some (step now cell c).2)).toList) (step now cell c).1 := by
  have hcounts : c.counts key → Windowed seconds now
      (l ++ (tickOf key (e, some (Redis.step now cell c).2)).toList) (Redis.step now cell c).1 := by
    intro hcounts
    unfold tickOf
    rw [if_pos (by rw [hcommand]; exact hcounts), htime]
    obtain herror | ⟨n, x, hcell, hreply, hleft⟩ := step_counts now cell hcounts
    · rw [herror]
      simpa using h
    · rw [hreply]
      obtain hleft | ⟨seconds', rfl, hleft⟩ := hleft
      · rw [hleft]
        exact h.tick hcell (.inl rfl)
      · rw [hleft.2]
        have hseconds : seconds' = seconds := by
          obtain hc | hc | hc | hc := isCounter_cases hc
          · cases hc
          · cases hc
          · cases hc; rfl
          · cases hc
        rw [hseconds]
        exact h.tick hcell (.inr rfl)
  have hsilent : c.counts key = false → (tickOf key (e, some (Redis.step now cell c).2)).toList = [] := by
    intro hno
    unfold tickOf
    rw [hcommand, hno]
    rfl
  obtain rfl | rfl | rfl | rfl := isCounter_cases hc
  · exact hcounts (decide_eq_true rfl)
  · rw [hsilent rfl, List.append_nil, Redis.step]
    split
    next => exact h
    next e hlive =>
      split_ifs with hsome
      · exact h
      · -- an expiry that was missing
        obtain ⟨hcell, -⟩ := live_eq_some_iff.mp hlive
        refine ⟨h.counted, h.past, fun a ha => ?_, ?_, ?_⟩
        · obtain ⟨x, hx⟩ := h.last a ha
          cases hcell.symm.trans hx
          exact ⟨_, rfl⟩
        · rintro e' he' hzero
          cases he'
          exact h.positive e hcell hzero
        · rintro a ha ha1 e' he' y hy
          cases he'
          cases hy
          have := h.past a ha
          omega
  · exact hcounts (decide_eq_true rfl)
  · rw [hsilent rfl, List.append_nil]
    exact h

/-! ## 3. Runs -/

theorem Windowed.run (h : Windowed seconds now l (s key))
    (hsorted : events.Pairwise fun e e' => e.time ≤ e'.time) (hnow : ∀ e ∈ events, now ≤ e.time)
    (hcounter : ∀ e ∈ events, e.command.key = key → e.command.isCounter key seconds) :
    Counted (1000 * seconds) (l ++ ticks s events key) := by
  induction events generalizing s l now with
  | nil => exact (List.append_nil l).symm ▸ h.counted
  | cons e events ih =>
    obtain ⟨hfirst, hrest⟩ := List.pairwise_cons.mp hsorted
    have hcounter' : ∀ e ∈ events, e.command.key = key → e.command.isCounter key seconds :=
      fun e' he' => hcounter e' (List.mem_cons_of_mem _ he')
    have h := h.later (hnow e List.mem_cons_self)
    rw [ticks_cons, ← List.append_assoc]
    refine ih ?_ hrest hfirst hcounter'
    obtain ⟨hcell, hnone⟩ | ⟨hkey, hcell, hreply⟩ := effect_key e s key
    · rw [hnone, hcell]
      exact (List.append_nil l).symm ▸ h
    · rw [hreply, hcell]
      exact h.step (hcounter e List.mem_cons_self hkey) rfl rfl

theorem counted_ticks (hs : ∀ e ∈ s key, e.value ≠ .integer 0)
    (hsorted : events.Pairwise fun e e' => e.time ≤ e'.time)
    (hcounter : ∀ e ∈ events, e.command.key = key → e.command.isCounter key seconds) :
    Counted (1000 * seconds) (ticks s events key) :=
  (windowed_nil 0 hs).run hsorted (fun _ _ => Nat.zero_le _) hcounter

/-! ## 4. Clients within the limit -/

/-- What the reply to a command that counts was. -/
def CountIs (key : String) (P : Nat → Prop) (c : Command) (r : Reply) : Prop :=
  c.counts key → ∃ n : Nat, r = .integer n ∧ P n

variable {α : Type} [DecidableEq client] {programs : client → Program α} {clients : List client} {a : α}
  {good : α → Prop}

/-- A client whose count came within a stretch of time. -/
def CountedWithin (events : List (Event client)) (key : String) (t length : Nat) (c : client) : Prop :=
  ∃ e ∈ events, e.client = c ∧ e.command.counts key ∧ e.fate = .answered ∧ t ≤ e.time ∧ e.time < t + length

theorem length_clients_le (hrun : Run programs s events) (hs : ∀ e ∈ s key, e.value ≠ .integer 0)
    (hcounter : ∀ c, (programs c).Sends fun command =>
      command.key = key → command.isCounter key seconds)
    (hnodup : clients.Nodup) (hanswered : ∀ c ∈ clients, Answered s events c)
    (hresult : ∀ c ∈ clients, ∃ a, (programs c).result (observed s events c) = some a ∧ good a)
    (honly : ∀ c ∈ clients, (programs c).Only (CountIs key (· ≤ limit)) good)
    (hcounted : ∀ c ∈ clients, CountedWithin events key t (1000 * seconds) c) :
    clients.length ≤ 2 * limit := by
  let admitted (a : Tick) : Bool := decide (t ≤ a.1 ∧ a.1 < t + 1000 * seconds) && decide (a.2 ≤ limit)
  let entries := (log s events).filter fun entry => ((tickOf key entry).map admitted).getD false
  -- every client has an entry of its own
  have hsub : clients ⊆ entries.map fun entry => entry.1.client := by
    intro c hc
    obtain ⟨a, ha, hgood⟩ := hresult c hc
    obtain ⟨e, he, rfl, hcounts, hfate, hspan⟩ := hcounted c hc
    obtain ⟨reply, hlog⟩ := mem_log_of_mem he s
    obtain ⟨r, rfl, hr⟩ := reply_of_answered (hanswered _ hc) ha hgood (honly _ hc) rfl hfate hlog
    obtain ⟨n, rfl, hn⟩ := hr hcounts
    refine List.mem_map.mpr ⟨_, List.mem_filter.mpr ⟨hlog, ?_⟩, rfl⟩
    simp [tickOf, hcounts, admitted, hn, hspan]
  have hticks : entries.length =
      ((withinLimit limit (ticks s events key)).filter fun a => t ≤ a.1 ∧ a.1 < t + 1000 * seconds).length := by
    unfold withinLimit ticks
    rw [List.filter_filter, ← List.countP_eq_length_filter, ← List.countP_eq_length_filter,
      List.countP_filterMap]
  calc clients.length
      ≤ (entries.map fun entry => entry.1.client).length := (hnodup.subperm hsub).length_le
    _ = entries.length := List.length_map _
    _ ≤ 2 * limit := by
      rw [hticks]
      exact (counted_ticks hs hrun.sorted (hrun.sends hcounter)).withinLimit_le limit t

/-! ## 5. A count that starts again -/

/-- From a moment on, a count is of the ticks since, or it ends a window's length later at most. -/
def Healed (seconds since ticked : Nat) (cell : Option Entry) : Prop :=
  ∀ e ∈ cell, (∃ x ∈ e.expiresAt, x ≤ since + 1000 * seconds) ∨ ∃ n ≤ ticked, e.value = .integer n

/-- No expiry is further ahead than a window's length. -/
def Near (seconds now : Nat) (cell : Option Entry) : Prop :=
  ∀ e ∈ cell, ∀ x ∈ e.expiresAt, x ≤ now + 1000 * seconds

variable {since ticked : Nat}

/-- What a counter's command leaves. -/
theorem step_counter (now : Nat) (cell : Option Entry) (hc : c.isCounter key seconds) :
    (step now cell c).1 = cell ∨
    (∃ n x, c.counts key ∧ incrCell now cell = some (n, x) ∧ (step now cell c).2 = .integer n ∧
      ((step now cell c).1 = some ⟨.integer n, x⟩ ∨
        n = 1 ∧ (step now cell c).1 = some ⟨.integer n, expireAfter now seconds⟩)) ∨
    ∃ e, cell = some e ∧ e.expiresAt = none ∧ (step now cell c).1 = some ⟨e.value, expireAfter now seconds⟩ := by
  have hcounts : c.counts key → (step now cell c).1 = cell ∨
      ∃ n x, c.counts key ∧ incrCell now cell = some (n, x) ∧ (step now cell c).2 = .integer n ∧
        ((step now cell c).1 = some ⟨.integer n, x⟩ ∨
          n = 1 ∧ (step now cell c).1 = some ⟨.integer n, expireAfter now seconds⟩) := by
    intro hcounts
    obtain herror | ⟨n, x, hcell, hreply, hleft⟩ := step_counts now cell hcounts
    · exact .inl (by rw [herror])
    · refine .inr ⟨n, x, hcounts, hcell, hreply, hleft.imp_right ?_⟩
      rintro ⟨seconds', rfl, hone, hleft⟩
      obtain hc | hc | hc | hc := isCounter_cases hc <;> cases hc
      exact ⟨hone, hleft⟩
  obtain rfl | rfl | rfl | rfl := isCounter_cases hc
  · exact (hcounts (decide_eq_true rfl)).imp_right .inl
  · rw [step]
    split
    next => exact .inl rfl
    next e hlive =>
      split_ifs with hsome
      · exact .inl rfl
      · rw [Bool.not_eq_true, Option.isSome_eq_false_iff, Option.isNone_iff_eq_none] at hsome
        exact .inr (.inr ⟨e, (live_eq_some_iff.mp hlive).1, hsome, rfl⟩)
  · exact (hcounts (decide_eq_true rfl)).imp_right .inl
  · exact .inl rfl

theorem Near.step (h : Near seconds now cell) (hc : c.isCounter key seconds) :
    Near seconds now (step now cell c).1 := by
  obtain hsame | ⟨n, x, -, hcell, -, hleft | ⟨-, hleft⟩⟩ | ⟨e, -, -, hleft⟩ :=
    step_counter now cell hc
  · rw [hsame]
    exact h
  · rw [hleft]
    rintro e he y hy
    cases he
    obtain ⟨m, hm, -, -⟩ | ⟨-, -, rfl⟩ := incrCell_cases hcell
    · exact h _ hm y hy
    · cases hy
  · rw [hleft]
    rintro e he y hy
    cases he
    cases hy
    exact Nat.le_refl _
  · rw [hleft]
    rintro e' he y hy
    cases he
    cases hy
    exact Nat.le_refl _

/-- The missing expiry has been set. -/
theorem healed_expireNx (h : Near seconds now cell) :
    Healed seconds now ticked (step now cell (.expireNx key seconds)).1 := by
  rw [step]
  split
  next hlive =>
    intro e he
    obtain ⟨x, hx, hlt⟩ := live_eq_none_iff.mp hlive e he
    exact .inl ⟨x, hx, by omega⟩
  next e hlive =>
    obtain ⟨hcell, -⟩ := live_eq_some_iff.mp hlive
    split_ifs with hsome
    · intro e' he'
      cases hcell.symm.trans he'
      obtain ⟨x, hx⟩ := Option.isSome_iff_exists.mp hsome
      exact .inl ⟨x, hx, h e hcell x hx⟩
    · rintro e' he'
      cases he'
      exact .inl ⟨_, rfl, Nat.le_refl _⟩

omit [DecidableEq client] in
theorem Healed.step (h : Healed seconds since ticked cell) (hc : c.isCounter key seconds)
    {e : Event client} (hcommand : e.command = c) :
    Healed seconds since (ticked + (tickOf key (e, some (step now cell c).2)).toList.length)
      (step now cell c).1 := by
  obtain hsame | ⟨n, x, hcounts, hcell, hreply, hleft⟩ | ⟨e', hcell, hnone, hleft⟩ :=
    step_counter now cell hc
  · rw [hsame]
    exact fun e' he' => (h e' he').imp_right fun ⟨n, hn, hvalue⟩ => ⟨n, by omega, hvalue⟩
  · have htick : (tickOf key (e, some (Redis.step now cell c).2)).toList.length = 1 := by
      unfold tickOf
      rw [hcommand, if_pos hcounts, hreply]
      rfl
    rw [htick]
    have hcount : ∀ n ≤ ticked + 1, ∀ z, Healed seconds since (ticked + 1) (some ⟨.integer n, z⟩) := by
      rintro n hn z e' he'
      cases he'
      exact .inr ⟨n, hn, rfl⟩
    obtain hleft | ⟨rfl, hleft⟩ := hleft
    · rw [hleft]
      obtain ⟨m, hm, -, rfl⟩ | ⟨-, rfl, rfl⟩ := incrCell_cases hcell
      · obtain ⟨y, hy, hle⟩ | ⟨k, hk, hvalue⟩ := h _ hm
        · rintro e' he'
          cases he'
          exact .inl ⟨y, hy, hle⟩
        · have hmk : m = k := Value.integer.inj hvalue
          exact hcount _ (by omega) _
      · exact hcount _ (by omega) _
    · rw [hleft]
      exact hcount _ (by omega) _
  · rw [hleft]
    rintro e'' he''
    cases he''
    obtain ⟨x, hx, -⟩ | ⟨n, hn, hvalue⟩ := h e' hcell
    · rw [hnone] at hx
      cases hx
    · exact .inr ⟨n, by omega, hvalue⟩

omit [DecidableEq client] in
theorem Healed.run (h : Healed seconds since ticked (s key))
    (hcounter : ∀ e ∈ mid, e.command.key = key → e.command.isCounter key seconds) :
    Healed seconds since (ticked + (ticks s mid key).length) (storeAfter s mid key) := by
  induction mid generalizing s ticked with
  | nil => exact h
  | cons e mid ih =>
    have hrest : ∀ e ∈ mid, e.command.key = key → e.command.isCounter key seconds :=
      fun e' he' => hcounter e' (List.mem_cons_of_mem _ he')
    rw [ticks_cons, List.length_append, ← Nat.add_assoc]
    refine ih ?_ hrest
    obtain ⟨hcell, hnone⟩ | ⟨hkey, hcell, hreply⟩ := effect_key e s key
    · rw [hnone, hcell]
      exact h
    · rw [hreply, hcell]
      exact h.step (hcounter e List.mem_cons_self hkey) rfl

theorem Near.later (h : Near seconds now cell) {now' : Nat} (hle : now ≤ now') : Near seconds now' cell := by
  intro e he x hx
  have := h e he x hx
  omega

omit [DecidableEq client] in
theorem Near.run (h : Near seconds now (s key)) (hnow : ∀ e ∈ events, now ≤ e.time)
    (hsorted : events.Pairwise fun e e' => e.time ≤ e'.time) (hsince : ∀ e ∈ events, e.time ≤ since)
    (hle : now ≤ since)
    (hcounter : ∀ e ∈ events, e.command.key = key → e.command.isCounter key seconds) :
    Near seconds since (storeAfter s events key) := by
  induction events generalizing s now with
  | nil => exact h.later hle
  | cons e events ih =>
    obtain ⟨hfirst, hsorted⟩ := List.pairwise_cons.mp hsorted
    have h := h.later (hnow e List.mem_cons_self)
    have hleft : Near seconds e.time ((e.effect s).1 key) := by
      obtain ⟨hcell, -⟩ | ⟨hkey, hcell, -⟩ := effect_key e s key
      · rw [hcell]
        exact h
      · rw [hcell]
        exact h.step (hcounter e List.mem_cons_self hkey)
    exact ih hleft hfirst hsorted (fun e' he' => hsince e' (List.mem_cons_of_mem _ he'))
      (hsince e List.mem_cons_self) fun e' he' => hcounter e' (List.mem_cons_of_mem _ he')

theorem Healed.count_le (h : Healed seconds since ticked cell) (hlate : since + 1000 * seconds < now)
    (hcell : incrCell now cell = some (n, x)) : n ≤ ticked + 1 := by
  obtain ⟨m, hm, hlive, rfl⟩ | ⟨-, rfl, -⟩ := incrCell_cases hcell
  · obtain ⟨y, hy, hle⟩ | ⟨k, hk, hvalue⟩ := h _ hm
    · have := hlive y hy
      omega
    · have hmk : m = k := Value.integer.inj hvalue
      omega
  · omega

omit [DecidableEq client] in
/-- Once an `EXPIRE … NX` has come through, what was counted before is forgotten a window's length later. -/
theorem count_le_ticks {before after : List (Event client)} {e e' : Event client}
    (hevents : events = before ++ e :: (mid ++ e' :: after)) (hs : Near seconds now (s key))
    (hnow : ∀ e ∈ events, now ≤ e.time) (hsorted : events.Pairwise fun e e' => e.time ≤ e'.time)
    (hcounter : ∀ e ∈ events, e.command.key = key → e.command.isCounter key seconds)
    (hcommand : e.command = .expireNx key seconds) (hsent : e.fate ≠ .unsent)
    (hcounts : e'.command.counts key) (hlate : e.time + 1000 * seconds < e'.time)
    (hreply : (e'.effect (storeAfter s (before ++ e :: mid))).2 = some (.integer n)) :
    n ≤ (ticks (storeAfter s (before ++ [e])) mid key).length + 1 := by
  subst hevents
  obtain ⟨hbefore, hlater, hcross⟩ := List.pairwise_append.mp hsorted
  obtain ⟨hcounterBefore, hcounterLater⟩ := List.forall_mem_append.mp hcounter
  obtain ⟨-, hcounterLater⟩ := List.forall_mem_cons.mp hcounterLater
  obtain ⟨hcounterMid, -⟩ := List.forall_mem_append.mp hcounterLater
  obtain ⟨hnowBefore, hnowLater⟩ := List.forall_mem_append.mp hnow
  have hnear : Near seconds e.time (storeAfter s before key) :=
    hs.run hnowBefore hbefore (fun e' he' => hcross e' he' e List.mem_cons_self)
      (hnowLater e List.mem_cons_self) hcounterBefore
  have hhealed : Healed seconds e.time 0 (storeAfter s (before ++ [e]) key) := by
    rw [storeAfter_append]
    show Healed seconds e.time 0 ((e.effect (storeAfter s before)).1 key)
    obtain ⟨hunsent, -⟩ | ⟨-, hcell, -⟩ := effect_same e (storeAfter s before)
    · exact absurd hunsent hsent
    · rw [hcommand] at hcell
      have hkey : (Command.expireNx key seconds).key = key := rfl
      rw [hkey] at hcell
      rw [hcell]
      exact healed_expireNx hnear
  have hrun := hhealed.run hcounterMid
  rw [Nat.zero_add] at hrun
  have hwhole : storeAfter s (before ++ e :: mid) = storeAfter (storeAfter s (before ++ [e])) mid := by
    rw [← storeAfter_append, List.append_assoc]
    rfl
  rw [hwhole] at hreply
  obtain ⟨x, hcell⟩ := incrCell_of_reply hcounts hreply
  exact hrun.count_le hlate hcell

end Clemvion.Redis
