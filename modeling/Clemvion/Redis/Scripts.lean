import Clemvion.Redis.Counters

/-!
# Scripts — a key that only its script counts up

`INCR` and `EXPIRE` come in one script, so that every window has its end from the first tick on.  The count is
then of the ticks of the window that is open.
-/

namespace Clemvion.Redis

open Library

variable {client : Type} {s : Store} {events before after : List (Event client)} {e : Event client}
  {key : String} {seconds now moment n : Nat} {x : Option Nat} {cell : Option Entry} {l : List Tick}
  {c : Command} {a : Tick} {entry : Entry}

/-! ## 1. What one event does -/

/-- The commands that such a key is sent. -/
def Command.isScript (key : String) (seconds : Nat) (c : Command) : Bool :=
  c = .incrWindow key seconds ∨ c = .ttl key ∨ c = .get key

theorem step_script (now : Nat) (cell : Option Entry) (hc : c.isScript key seconds) :
    (c.counts key = false ∧ (step now cell c).1 = cell) ∨ c = .incrWindow key seconds := by
  have hc : c = .incrWindow key seconds ∨ c = .ttl key ∨ c = .get key := of_decide_eq_true hc
  obtain rfl | rfl | rfl := hc
  · exact .inr rfl
  · exact .inl ⟨rfl, rfl⟩
  · refine .inl ⟨rfl, ?_⟩
    rw [step]
    split <;> rfl

/-- An event leaves the key alone, or the script counts it up. -/
theorem effect_script (e : Event client) (s : Store)
    (hscript : e.command.key = key → e.command.isScript key seconds) :
    ((e.effect s).1 key = s key ∧ tickOf key (e, (e.effect s).2) = none) ∨
    ∃ n x, incrCell e.time (s key) = some (n, x) ∧
      (e.effect s).1 key = some ⟨.integer n, if n = 1 then expireAfter e.time seconds else x⟩ ∧
      tickOf key (e, (e.effect s).2) = some (e.time, n) := by
  obtain hsame | ⟨hkey, hcell, hreply⟩ := effect_key e s key
  · exact .inl hsame
  rw [hreply, hcell]
  obtain ⟨hcounts, hleft⟩ | hcommand := step_script e.time (s key) (hscript hkey)
  · refine .inl ⟨hleft, if_neg ?_⟩
    rw [hcounts]
    exact Bool.false_ne_true
  · have hcounts : e.command.counts key = true := by
      rw [hcommand]
      exact decide_eq_true rfl
    -- what holds no number gives an error and stays as it is
    cases hincr : incrCell e.time (s key) with
    | none =>
      have hstep : step e.time (s key) e.command = (s key, .error) := by rw [hcommand, step, hincr]
      rw [hstep]
      exact .inl ⟨rfl, if_pos hcounts⟩
    | some count =>
      obtain ⟨n, x⟩ := count
      have hstep : step e.time (s key) e.command =
          (some ⟨.integer n, if n = 1 then expireAfter e.time seconds else x⟩, .integer n) := by
        rw [hcommand, step, hincr]
      rw [hstep]
      exact .inr ⟨n, x, rfl, rfl, if_pos hcounts⟩

/-! ## 2. No count without its ticks -/

/-- Every window has an end, and its count is of ticks since its beginning. -/
def Recent (seconds now : Nat) (l : List Tick) (cell : Option Entry) : Prop :=
  ∀ e ∈ cell, ∃ n x, e = ⟨.integer n, some x⟩ ∧ x ≤ now + 1000 * seconds ∧
    n ≤ (l.filter fun a => x ≤ a.1 + 1000 * seconds).length

theorem Recent.later (h : Recent seconds now l cell) {now' : Nat} (hle : now ≤ now') :
    Recent seconds now' l cell := by
  intro e he
  obtain ⟨n, x, rfl, hx, hn⟩ := h e he
  exact ⟨n, x, rfl, by omega, hn⟩

theorem length_filter_concat (p : Tick → Bool) (a : Tick) (ha : p a = true) :
    ((l ++ [a]).filter p).length = (l.filter p).length + 1 := by
  rw [List.filter_append, List.filter_cons_of_pos ha, List.length_append]
  rfl

/-- As long as it has not expired, the count is at most that of the ticks of a window's length. -/
theorem Recent.value_le (h : Recent seconds now l cell) (hlive : live moment cell = some entry)
    (hvalue : entry.value = .integer n) :
    n ≤ (l.filter fun a => moment ≤ a.1 + 1000 * seconds).length := by
  obtain ⟨hcell, hlater⟩ := live_eq_some_iff.mp hlive
  obtain ⟨k, y, rfl, -, hk⟩ := h entry hcell
  have hy : moment ≤ y := hlater y rfl
  have hnk : k = n := Value.integer.inj hvalue
  -- the window began a window's length before its end, so that all its ticks are recent
  have hsub : (l.filter fun a => y ≤ a.1 + 1000 * seconds).length ≤
      (l.filter fun a => moment ≤ a.1 + 1000 * seconds).length := by
    apply List.Sublist.length_le
    apply List.monotone_filter_right
    intro a ha
    rw [decide_eq_true_eq] at ha ⊢
    omega
  omega

/-- The next count is at most one more. -/
theorem Recent.count_le (h : Recent seconds now l cell) (hcell : incrCell moment cell = some (n, x)) :
    n ≤ (l.filter fun a => moment ≤ a.1 + 1000 * seconds).length + 1 := by
  obtain ⟨m, hm, hlive, rfl⟩ | ⟨-, rfl, -⟩ := incrCell_cases hcell
  · have hle := h.value_le (live_eq_some_iff.mpr ⟨hm, hlive⟩) rfl
    omega
  · omega

theorem Recent.incrWindow (h : Recent seconds now l cell) (hcell : incrCell now cell = some (n, x)) :
    Recent seconds now (l ++ [(now, n)])
      (some ⟨.integer n, if n = 1 then expireAfter now seconds else x⟩) := by
  rintro e he
  cases he
  -- a window begins here, or it goes on to the end that it had
  by_cases hone : n = 1
  · refine ⟨n, now + 1000 * seconds, by rw [if_pos hone]; rfl, Nat.le_refl _, ?_⟩
    rw [length_filter_concat _ _ (decide_eq_true (Nat.le_refl _))]
    omega
  · rw [if_neg hone]
    obtain ⟨m, hm, -, rfl⟩ | ⟨-, hn, -⟩ := incrCell_cases hcell
    · obtain ⟨k, y, heq, hy, hk⟩ := h _ hm
      cases heq
      refine ⟨_, y, rfl, hy, ?_⟩
      rw [length_filter_concat _ _ (decide_eq_true hy)]
      omega
    · exact absurd hn hone

theorem Recent.run (h : Recent seconds now l (s key)) (hnow : ∀ e ∈ events, now ≤ e.time)
    (hsorted : events.Pairwise fun e e' => e.time ≤ e'.time)
    (hscript : ∀ e ∈ events, e.command.key = key → e.command.isScript key seconds) :
    ∃ last, Recent seconds last (l ++ ticks s events key) (storeAfter s events key) := by
  induction events generalizing s now l with
  | nil => exact ⟨now, (List.append_nil l).symm ▸ h⟩
  | cons e events ih =>
    obtain ⟨hfirst, hrest⟩ := List.pairwise_cons.mp hsorted
    have h := h.later (hnow e List.mem_cons_self)
    rw [ticks_cons, ← List.append_assoc]
    refine ih ?_ hfirst hrest fun e' he' => hscript e' (List.mem_cons_of_mem _ he')
    obtain ⟨hcell, hnone⟩ | ⟨n, x, hincr, hcell, htick⟩ := effect_script e s (hscript e List.mem_cons_self)
    · rw [hnone, hcell]
      exact (List.append_nil l).symm ▸ h
    · rw [htick, hcell]
      exact h.incrWindow hincr

/-- What is known of the key right before an event. -/
theorem recent_before (hevents : events = before ++ e :: after) (hs : s key = none)
    (hsorted : events.Pairwise fun e e' => e.time ≤ e'.time)
    (hscript : ∀ e ∈ events, e.command.key = key → e.command.isScript key seconds) :
    ∃ last, Recent seconds last (ticks s before key) (storeAfter s before key) := by
  subst hevents
  obtain ⟨hbefore, -, -⟩ := List.pairwise_append.mp hsorted
  have hstart : Recent seconds 0 [] (s key) := by
    rw [hs]
    exact fun e he => nomatch he
  exact hstart.run (fun _ _ => Nat.zero_le _) hbefore fun e' he' => hscript e' (List.mem_append_left _ he')

/-! ## 3. No tick without its count -/

theorem live_none_later (h : live now cell = none) (hle : now ≤ moment) : live moment cell = none := by
  refine live_eq_none_iff.mpr fun entry hentry => ?_
  obtain ⟨x, hx, hlt⟩ := live_eq_none_iff.mp h entry hentry
  exact ⟨x, hx, hlt.trans_le hle⟩

/-- The first window: as long as it is open, every tick is counted. -/
structure Opened (seconds now : Nat) (l : List Tick) (cell : Option Entry) : Prop where
  shut : l = [] → live now cell = none
  opened : ∀ a ∈ l.head?, now ≤ a.1 + 1000 * seconds →
    cell = some ⟨.integer l.length, some (a.1 + 1000 * seconds)⟩

theorem Opened.later (h : Opened seconds now l cell) {now' : Nat} (hle : now ≤ now') :
    Opened seconds now' l cell where
  shut hnil := live_none_later (h.shut hnil) hle
  opened a ha hopen := h.opened a ha (hle.trans hopen)

theorem Opened.isLive (h : Opened seconds now l cell) (ha : a ∈ l.head?)
    (hopen : now ≤ a.1 + 1000 * seconds) :
    live now cell = some ⟨.integer l.length, some (a.1 + 1000 * seconds)⟩ := by
  refine live_eq_some_iff.mpr ⟨h.opened a ha hopen, fun x hx => ?_⟩
  cases hx
  exact hopen

theorem Opened.begins (h : Opened seconds now [] cell) : incrCell now cell = some (1, none) := by
  unfold incrCell
  rw [h.shut rfl]

theorem Opened.goesOn (h : Opened seconds now l cell) (ha : a ∈ l.head?)
    (hopen : now ≤ a.1 + 1000 * seconds) :
    incrCell now cell = some (l.length + 1, some (a.1 + 1000 * seconds)) := by
  unfold incrCell
  rw [h.isLive ha hopen]

theorem Opened.count (h : Opened seconds now l cell) (hopen : ∀ a ∈ l.head?, now ≤ a.1 + 1000 * seconds)
    (hcell : incrCell now cell = some (n, x)) : n = l.length + 1 := by
  cases l with
  | nil =>
    rw [h.begins] at hcell
    cases hcell
    rfl
  | cons a l =>
    rw [h.goesOn rfl (hopen a rfl)] at hcell
    cases hcell
    rfl

theorem Opened.effect (h : Opened seconds e.time l (s key))
    (hscript : e.command.key = key → e.command.isScript key seconds) :
    Opened seconds e.time (l ++ (tickOf key (e, (e.effect s).2)).toList) ((e.effect s).1 key) := by
  obtain ⟨hcell, hnone⟩ | ⟨n, x, hincr, hcell, htick⟩ := effect_script e s hscript
  · rw [hcell, hnone]
    exact (List.append_nil l).symm ▸ h
  rw [hcell, htick]
  cases l with
  | nil =>
    -- the first tick opens the window
    rw [h.begins] at hincr
    cases hincr
    refine ⟨fun hnil => (nomatch hnil), fun a ha _ => ?_⟩
    cases ha
    rfl
  | cons a l =>
    refine ⟨fun hnil => (nomatch hnil), fun b hb hopen => ?_⟩
    -- the window is still open, so it was so far
    cases hb
    rw [h.goesOn rfl hopen] at hincr
    cases hincr
    rw [if_neg (by rw [List.length_cons]; omega), Option.toList_some, List.length_append]
    rfl

theorem Opened.run (h : Opened seconds now l (s key)) (hnow : ∀ e ∈ events, now ≤ e.time)
    (hsorted : events.Pairwise fun e e' => e.time ≤ e'.time) (hlater : ∀ e ∈ events, e.time ≤ moment)
    (hle : now ≤ moment)
    (hscript : ∀ e ∈ events, e.command.key = key → e.command.isScript key seconds) :
    Opened seconds moment (l ++ ticks s events key) (storeAfter s events key) := by
  induction events generalizing s now l with
  | nil => exact (List.append_nil l).symm ▸ h.later hle
  | cons e events ih =>
    obtain ⟨hfirst, hrest⟩ := List.pairwise_cons.mp hsorted
    have h := (h.later (hnow e List.mem_cons_self)).effect (hscript e List.mem_cons_self)
    rw [ticks_cons, ← List.append_assoc]
    exact ih h hfirst hrest (fun e' he' => hlater e' (List.mem_cons_of_mem _ he'))
      (hlater e List.mem_cons_self) fun e' he' => hscript e' (List.mem_cons_of_mem _ he')

theorem opened_before (hevents : events = before ++ e :: after) (hs : live now (s key) = none)
    (hnow : ∀ e ∈ events, now ≤ e.time) (hsorted : events.Pairwise fun e e' => e.time ≤ e'.time)
    (hscript : ∀ e ∈ events, e.command.key = key → e.command.isScript key seconds) :
    Opened seconds e.time (ticks s before key) (storeAfter s before key) := by
  subst hevents
  obtain ⟨hbefore, -, hcross⟩ := List.pairwise_append.mp hsorted
  obtain ⟨hnowBefore, hnowLater⟩ := List.forall_mem_append.mp hnow
  have hstart : Opened seconds now [] (s key) := ⟨fun _ => hs, fun a ha => nomatch ha⟩
  exact hstart.run hnowBefore hbefore (fun e' he' => hcross e' he' e List.mem_cons_self)
    (hnowLater e List.mem_cons_self) fun e' he' => hscript e' (List.mem_append_left _ he')

end Clemvion.Redis
