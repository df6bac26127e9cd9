import Mathlib.Logic.Function.Basic

/-!
# Commands — the commands of Redis that are used for counters, claims and locks

A key holds a value and the moment at which it expires, if it does.  Times are in milliseconds, and what
commands take and give is in seconds.  Every command looks at one key only, the scripts too.
-/

namespace Clemvion.Redis

inductive Value
  | integer (n : Nat)
  | text (s : String)
  deriving DecidableEq, Repr

structure Entry where
  value : Value
  expiresAt : Option Nat
  deriving DecidableEq, Repr

abbrev Store := String → Option Entry

inductive Command
  | incr (key : String)
  /-- Sets an expiry where there is none. -/
  | expireNx (key : String) (seconds : Nat)
  /-- The script: `INCR`, and `EXPIRE` if that gave 1. -/
  | incrWindow (key : String) (seconds : Nat)
  | ttl (key : String)
  | get (key : String)
  /-- `SET key value EX seconds NX` -/
  | setNx (key : String) (value : Value) (seconds : Nat)
  | del (key : String)
  /-- The script: `DEL`, if this is the value. -/
  | delIfEquals (key : String) (value : Value)
  deriving DecidableEq, Repr

inductive Reply
  | integer (n : Int)
  | value (v : Value)
  | ok
  | nil
  | error
  deriving DecidableEq, Repr

def Command.key : Command → String
  | .incr key | .expireNx key _ | .incrWindow key _ | .ttl key | .get key | .setNx key _ _ | .del key
  | .delIfEquals key _ => key

/-- The entry, if it has not expired. -/
def live (now : Nat) (cell : Option Entry) : Option Entry :=
  cell.filter fun e => e.expiresAt.all fun x => now ≤ x

def expireAfter (now seconds : Nat) : Option Nat := some (now + 1000 * seconds)

/-- The count, with the expiry that it has so far; none for what is no number. -/
def incrCell (now : Nat) (cell : Option Entry) : Option (Nat × Option Nat) :=
  match live now cell with
  | none => some (1, none)
  | some ⟨.integer n, x⟩ => some (n + 1, x)
  | some ⟨.text _, _⟩ => none

/-- The time to live in seconds, `-1` for a key that does not expire and `-2` for none. -/
def ttlOf (now : Nat) (cell : Option Entry) : Int :=
  match live now cell with
  | none => -2
  | some e =>
    match e.expiresAt with
    | none => -1
    | some x => ((x - now + 500) / 1000 : Nat)

def step (now : Nat) (cell : Option Entry) : Command → Option Entry × Reply
  | .incr _ =>
    match incrCell now cell with
    | none => (cell, .error)
    | some (n, x) => (some ⟨.integer n, x⟩, .integer n)
  | .incrWindow _ seconds =>
    match incrCell now cell with
    | none => (cell, .error)
    | some (n, x) => (some ⟨.integer n, if n = 1 then expireAfter now seconds else x⟩, .integer n)
  | .expireNx _ seconds =>
    match live now cell with
    | none => (cell, .integer 0)
    | some e =>
      if e.expiresAt.isSome then (cell, .integer 0)
      else (some { e with expiresAt := expireAfter now seconds }, .integer 1)
  | .ttl _ => (cell, .integer (ttlOf now cell))
  | .get _ =>
    match live now cell with
    | none => (cell, .nil)
    | some e => (cell, .value e.value)
  | .setNx _ value seconds =>
    match live now cell with
    | none => (some ⟨value, expireAfter now seconds⟩, .ok)
    | some _ => (cell, .nil)
  | .del _ => (none, .integer (if (live now cell).isSome then 1 else 0))
  | .delIfEquals _ value =>
    if (live now cell).map Entry.value = some value then (none, .integer 1) else (cell, .integer 0)

def exec (now : Nat) (s : Store) (c : Command) : Store × Reply :=
  let result := step now (s c.key) c
  (Function.update s c.key result.1, result.2)

theorem live_eq_some_iff {now : Nat} {cell : Option Entry} {e : Entry} :
    live now cell = some e ↔ cell = some e ∧ ∀ x ∈ e.expiresAt, now ≤ x := by
  unfold live
  rw [Option.filter_eq_some_iff]
  cases e.expiresAt with
  | none => simp
  | some x => simp

theorem live_eq_none_iff {now : Nat} {cell : Option Entry} :
    live now cell = none ↔ ∀ e ∈ cell, ∃ x ∈ e.expiresAt, x < now := by
  unfold live
  cases cell with
  | none => simp
  | some e =>
    cases hx : e.expiresAt with
    | none => simp [Option.filter, hx]
    | some x => simp [Option.filter, hx]

end Clemvion.Redis
