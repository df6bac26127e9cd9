import Clemvion.Redis.Commands

/-!
# Clients — programs that share a store

Clients send their commands in any order, to one store.  Commands get lost, replies get lost, and commands
are sent again.
-/

namespace Clemvion.Redis

/-! ## 1. Programs and their runs -/

/-- A client sends commands one after another, and goes on by the reply, or by there being none. -/
inductive Program (α : Type) : Type
  | done (a : α)
  | call (c : Command) (next : Option Reply → Program α)

def Program.map {α β : Type} (f : α → β) : Program α → Program β
  | .done a => .done (f a)
  | .call c next => .call c fun r => (next r).map f

/-- A command may fail to be sent, its reply may fail to come back, and it may then be sent again: a new
connection sends what the last one left unanswered. -/
inductive Fate
  | answered | lost | unsent | resent
  deriving DecidableEq, Repr

structure Event (client : Type) where
  time : Nat
  client : client
  command : Command
  fate : Fate

/-- What a client gets to see of a command. -/
inductive Outcome
  | replied (r : Reply)
  | failed
  | again
  deriving DecidableEq, Repr

variable {client α : Type} {s : Store} {events : List (Event client)} {e : Event client}

def Event.effect (e : Event client) (s : Store) : Store × Option Reply :=
  if e.fate = .unsent then (s, none)
  else
    let result := exec e.time s e.command
    (result.1, some result.2)

def storeAfter (s : Store) (events : List (Event client)) : Store :=
  events.foldl (fun s e => (e.effect s).1) s

/-- The events with the replies that Redis has given. -/
def log (s : Store) : List (Event client) → List (Event client × Option Reply)
  | [] => []
  | e :: events => (e, (e.effect s).2) :: log (e.effect s).1 events

def outcomeOf (fate : Fate) (reply : Option Reply) : Outcome :=
  match fate, reply with
  | .answered, some r => .replied r
  | .resent, _ => .again
  | _, _ => .failed

/-- What the client sees of an entry. -/
def seen (entry : Event client × Option Reply) : Command × Outcome :=
  (entry.1.command, outcomeOf entry.1.fate entry.2)

/-- The commands of a client, with what it gets to see. -/
def observed [DecidableEq client] (s : Store) (events : List (Event client)) (c : client) :
    List (Command × Outcome) := ((log s events).filter fun entry => entry.1.client = c).map seen

def Program.goOn (c : Command) (next : Option Reply → Program α) : Outcome → Program α
  | .replied r => next (some r)
  | .failed => next none
  | .again => .call c next

def Program.advance (command : Command × Outcome) : Program α → Option (Program α)
  | .done _ => none
  | .call c next => if c = command.1 then some (Program.goOn c next command.2) else none

/-- What is left of a program, if these are its commands. -/
def Program.after : Program α → List (Command × Outcome) → Option (Program α)
  | p, [] => some p
  | p, command :: rest => (p.advance command).bind fun p' => p'.after rest

/-- What a program ends with, if these are its commands. -/
def Program.result (p : Program α) (commands : List (Command × Outcome)) : Option α :=
  match p.after commands with
  | some (.done a) => some a
  | _ => none

/-- Clients run their programs, in any order. -/
structure Run [DecidableEq client] (programs : client → Program α) (s : Store)
    (events : List (Event client)) : Prop where
  sorted : events.Pairwise fun e e' => e.time ≤ e'.time
  follows : ∀ c, ((programs c).after (observed s events c)).isSome

/-! ## 2. The log -/

theorem storeAfter_append (s : Store) (before after : List (Event client)) :
    storeAfter s (before ++ after) = storeAfter (storeAfter s before) after := List.foldl_append

theorem log_append (s : Store) (before after : List (Event client)) :
    log s (before ++ after) = log s before ++ log (storeAfter s before) after := by
  induction before generalizing s with
  | nil => rfl
  | cons e before ih =>
    rw [List.cons_append, log, log, ih, List.cons_append]
    rfl

theorem log_map_fst (s : Store) (events : List (Event client)) : (log s events).map Prod.fst = events := by
  induction events generalizing s with
  | nil => rfl
  | cons e events ih => rw [log, List.map_cons, ih]

theorem effect_other {key : String} (h : e.command.key ≠ key) : (e.effect s).1 key = s key := by
  unfold Event.effect
  split
  · rfl
  · exact Function.update_of_ne (Ne.symm h) _ _

/-- Every command but one that was not sent does its step. -/
theorem effect_same (e : Event client) (s : Store) :
    (e.fate = .unsent ∧ e.effect s = (s, none)) ∨
    (e.fate ≠ .unsent ∧ (e.effect s).1 e.command.key = (step e.time (s e.command.key) e.command).1 ∧
      (e.effect s).2 = some (step e.time (s e.command.key) e.command).2) := by
  unfold Event.effect
  by_cases hfate : e.fate = .unsent
  · exact .inl ⟨hfate, if_pos hfate⟩
  · rw [if_neg hfate]
    exact .inr ⟨hfate, Function.update_self _ _ _, rfl⟩

theorem mem_log_of_mem (h : e ∈ events) (s : Store) : ∃ reply, (e, reply) ∈ log s events := by
  rw [← log_map_fst s events] at h
  obtain ⟨entry, hentry, rfl⟩ := List.mem_map.mp h
  exact ⟨entry.2, hentry⟩

/-- What a command may reply, unless it is an error. -/
def Command.mayReply (c : Command) (r : Reply) : Prop := r ≠ .error ∧ ∃ now cell, (step now cell c).2 = r

theorem reply_of_mem_log {entry : Event client × Option Reply} (h : entry ∈ log s events) :
    (entry.1.fate = .unsent ∧ entry.2 = none) ∨
    (entry.1.fate ≠ .unsent ∧ ∃ now cell, entry.2 = some (step now cell entry.1.command).2) := by
  induction events generalizing s with
  | nil => cases h
  | cons e events ih =>
    obtain rfl | h := List.mem_cons.mp h
    · obtain ⟨hfate, heffect⟩ | ⟨hfate, -, hreply⟩ := effect_same e s
      · exact .inl ⟨hfate, by rw [heffect]⟩
      · exact .inr ⟨hfate, _, _, hreply⟩
    · exact ih h

variable [DecidableEq client] {c : client}

theorem mem_observed {entry : Event client × Option Reply} (h : entry ∈ log s events)
    (hc : entry.1.client = c) : seen entry ∈ observed s events c :=
  List.mem_map_of_mem (List.mem_filter.mpr ⟨h, decide_eq_true hc⟩)

def Outcome.isAnswer : Outcome → Bool
  | .replied r => r ≠ .error
  | .failed => false
  | .again => true

/-- A client all of whose commands were answered in the end, and not with an error. -/
def Answered (s : Store) (events : List (Event client)) (c : client) : Prop :=
  ∀ command ∈ observed s events c, command.2.isAnswer

instance (s : Store) (events : List (Event client)) (c : client) : Decidable (Answered s events c) :=
  inferInstanceAs (Decidable (∀ command ∈ observed s events c, command.2.isAnswer))

/-- A client that was answered, and ends so. -/
def AnsweredWith (programs : client → Program α) (s : Store) (events : List (Event client))
    (good : α → Prop) (c : client) : Prop :=
  Answered s events c ∧ ∃ a, (programs c).result (observed s events c) = some a ∧ good a

theorem Answered.mayReply (h : Answered s events c) : ∀ command ∈ observed s events c,
    command.2 = .again ∨ ∃ r, command.2 = .replied r ∧ command.1.mayReply r := by
  intro command hcommand
  have hanswer := h command hcommand
  obtain ⟨entry, hentry, rfl⟩ := List.mem_map.mp hcommand
  have hlog := (List.mem_filter.mp hentry).1
  simp only [seen, outcomeOf] at hanswer ⊢
  split at hanswer
  next r hfate hreply =>
    obtain ⟨hunsent, -⟩ | ⟨-, now, cell, hstep⟩ := reply_of_mem_log hlog
    · cases hfate.symm.trans hunsent
    · rw [hreply] at hstep
      exact .inr ⟨r, rfl, of_decide_eq_true hanswer, now, cell, (Option.some.inj hstep).symm⟩
  next => exact .inl rfl
  next => cases hanswer

/-! ## 3. What programs do -/

/-- Every command that a program may send is one of these. -/
def Program.Sends (P : Command → Prop) : Program α → Prop
  | .done _ => True
  | .call c next => P c ∧ ∀ r, (next r).Sends P

/-- A program whose commands are answered does not end so. -/
def Program.Never (good : α → Prop) : Program α → Prop
  | .done a => ¬good a
  | .call c next => ∀ r, c.mayReply r → (next (some r)).Never good

/-- A program whose commands are answered only ends so if the replies are these. -/
def Program.Only (P : Command → Reply → Prop) (good : α → Prop) : Program α → Prop
  | .done _ => True
  | .call c next => ∀ r, c.mayReply r → ((next (some r)).Never good ∨ P c r) ∧ (next (some r)).Only P good

variable {P : Command → Prop} {Q : Command → Reply → Prop} {good : α → Prop} {p : Program α} {a : α}
  {commands : List (Command × Outcome)}

theorem Program.Sends.imp {P' : Command → Prop} (h : p.Sends P) (himp : ∀ c, P c → P' c) : p.Sends P' := by
  induction p with
  | done a => exact trivial
  | call c next ih => exact ⟨himp c h.1, fun r => ih r (h.2 r)⟩

theorem advance_cases {p' : Program α} {command : Command × Outcome} (h : p.advance command = some p') :
    ∃ next, p = .call command.1 next ∧
      ((∃ r, command.2 = .replied r ∧ p' = next (some r)) ∨ (command.2 = .failed ∧ p' = next none) ∨
        (command.2 = .again ∧ p' = p)) := by
  cases p with
  | done a => cases h
  | call c next =>
    obtain ⟨c', outcome⟩ := command
    rw [Program.advance, Option.ite_none_right_eq_some, Option.some.injEq] at h
    obtain ⟨rfl, rfl⟩ := h
    refine ⟨next, rfl, ?_⟩
    cases outcome with
    | replied r => exact .inl ⟨r, rfl, rfl⟩
    | failed => exact .inr (.inl ⟨rfl, rfl⟩)
    | again => exact .inr (.inr ⟨rfl, rfl⟩)

theorem Program.Sends.mem (h : p.Sends P) (hafter : (p.after commands).isSome) :
    ∀ command ∈ commands, P command.1 := by
  induction commands generalizing p with
  | nil => exact fun _ hmem => nomatch hmem
  | cons command commands ih =>
    obtain ⟨q, hq⟩ := Option.isSome_iff_exists.mp hafter
    obtain ⟨p', hadvance, hrest⟩ := Option.bind_eq_some_iff.mp hq
    have hrest : (p'.after commands).isSome := Option.isSome_iff_exists.mpr ⟨q, hrest⟩
    obtain ⟨next, rfl, hcases⟩ := advance_cases hadvance
    refine List.forall_mem_cons.mpr ⟨h.1, ?_⟩
    obtain ⟨r, -, rfl⟩ | ⟨-, rfl⟩ | ⟨-, rfl⟩ := hcases
    · exact ih (h.2 (some r)) hrest
    · exact ih (h.2 none) hrest
    · exact ih h hrest

theorem result_cons {command : Command × Outcome} (h : p.result (command :: commands) = some a) :
    ∃ next, p = .call command.1 next ∧
      ((∃ r, command.2 = .replied r ∧ (next (some r)).result commands = some a) ∨
        (command.2 = .failed ∧ (next none).result commands = some a) ∨
        (command.2 = .again ∧ p.result commands = some a)) := by
  rw [Program.result, Program.after] at h
  cases hadvance : p.advance command with
  | none =>
    rw [hadvance] at h
    cases h
  | some p' =>
    rw [hadvance] at h
    have h : p'.result commands = some a := h
    obtain ⟨next, hp, hcases⟩ := advance_cases hadvance
    refine ⟨next, hp, ?_⟩
    obtain ⟨r, hreplied, rfl⟩ | ⟨hfailed, rfl⟩ | ⟨hagain, rfl⟩ := hcases
    · exact .inl ⟨r, hreplied, h⟩
    · exact .inr (.inl ⟨hfailed, h⟩)
    · exact .inr (.inr ⟨hagain, h⟩)

theorem Program.Never.result (h : p.Never good) (hresult : p.result commands = some a)
    (hanswered : ∀ command ∈ commands,
      command.2 = .again ∨ ∃ r, command.2 = .replied r ∧ command.1.mayReply r) : ¬good a := by
  induction commands generalizing p with
  | nil =>
    cases p with
    | done b => cases hresult; exact h
    | call c next => cases hresult
  | cons command commands ih =>
    obtain ⟨hhead, htail⟩ := List.forall_mem_cons.mp hanswered
    obtain ⟨next, rfl, ⟨r, hreplied, hrest⟩ | ⟨hfailed, -⟩ | ⟨-, hrest⟩⟩ := result_cons hresult
    · obtain hagain | ⟨r', hreplied', hmay⟩ := hhead
      · cases hreplied.symm.trans hagain
      cases hreplied.symm.trans hreplied'
      exact ih (h r hmay) hrest htail
    · obtain hagain | ⟨r, hreplied, -⟩ := hhead
      · cases hfailed.symm.trans hagain
      · cases hfailed.symm.trans hreplied
    · exact ih h hrest htail

theorem Program.Only.reply (h : p.Only Q good) (hresult : p.result commands = some a) (hgood : good a)
    (hanswered : ∀ command ∈ commands,
      command.2 = .again ∨ ∃ r, command.2 = .replied r ∧ command.1.mayReply r) :
    ∀ command ∈ commands, ∀ r, command.2 = .replied r → Q command.1 r := by
  induction commands generalizing p with
  | nil => exact fun _ hmem => nomatch hmem
  | cons command commands ih =>
    obtain ⟨hhead, htail⟩ := List.forall_mem_cons.mp hanswered
    obtain ⟨next, rfl, ⟨r, hreplied, hrest⟩ | ⟨hfailed, -⟩ | ⟨hagain, hrest⟩⟩ := result_cons hresult
    · obtain hagain | ⟨r', hreplied', hmay⟩ := hhead
      · cases hreplied.symm.trans hagain
      cases hreplied.symm.trans hreplied'
      obtain ⟨hhere, hlater⟩ := h r hmay
      refine List.forall_mem_cons.mpr ⟨fun r' hr' => ?_, ih hlater hrest htail⟩
      cases hreplied.symm.trans hr'
      exact hhere.resolve_left fun hnever => hnever.result hrest htail hgood
    · obtain hagain | ⟨r, hreplied, -⟩ := hhead
      · cases hfailed.symm.trans hagain
      · cases hfailed.symm.trans hreplied
    · refine List.forall_mem_cons.mpr ⟨fun r hr => ?_, ih h hrest htail⟩
      cases hagain.symm.trans hr

omit [DecidableEq client] in
/-- The entry of an event among others. -/
theorem mem_log_append (s : Store) (before after : List (Event client)) (e : Event client) :
    (e, (e.effect (storeAfter s before)).2) ∈ log s (before ++ e :: after) := by
  rw [log_append]
  exact List.mem_append_right _ List.mem_cons_self

/-- What a client has been replied is what Redis has given, and what its program needs to end so. -/
theorem reply_of_answered (hanswered : Answered s events c)
    (hresult : p.result (observed s events c) = some a) (hgood : good a) (honly : p.Only Q good)
    (hclient : e.client = c) (hfate : e.fate = .answered) {reply : Option Reply}
    (hlog : (e, reply) ∈ log s events) : ∃ r, reply = some r ∧ Q e.command r := by
  have hseen := mem_observed hlog hclient
  obtain ⟨hunsent, -⟩ | ⟨-, now, cell, hreply⟩ := reply_of_mem_log hlog
  · cases hfate.symm.trans hunsent
  · have hreply : reply = some (step now cell e.command).2 := hreply
    have hreplied : (seen (e, reply)).2 = .replied (step now cell e.command).2 := by
      rw [hreply]
      simp only [seen, outcomeOf, hfate]
    exact ⟨_, hreply, honly.reply hresult hgood hanswered.mayReply _ hseen _ hreplied⟩

/-- The same of an event at its place in the run. -/
theorem AnsweredWith.reply {programs : client → Program α} {before after : List (Event client)}
    (h : AnsweredWith programs s events good c) (honly : (programs c).Only Q good)
    (hevents : events = before ++ e :: after) (hclient : e.client = c) (hfate : e.fate = .answered) :
    ∃ r, (e.effect (storeAfter s before)).2 = some r ∧ Q e.command r := by
  obtain ⟨hanswered, a, hresult, hgood⟩ := h
  have hlog : (e, (e.effect (storeAfter s before)).2) ∈ log s events := by
    rw [hevents]
    exact mem_log_append s before after e
  exact reply_of_answered hanswered hresult hgood honly hclient hfate hlog

theorem Run.sends {programs : client → Program α} {P : client → Command → Prop} (h : Run programs s events)
    (hsends : ∀ c, (programs c).Sends (P c)) : ∀ e ∈ events, P e.client e.command := by
  intro e he
  obtain ⟨reply, hmem⟩ := mem_log_of_mem he s
  exact (hsends e.client).mem (h.follows e.client) _ (mem_observed hmem rfl)

end Clemvion.Redis
