import Mathlib.Data.List.Perm.Basic

/-!
# Limiter — running tasks with limited concurrency

The contract of a limiter that is handed tasks and calls each of them once, so many at a time: a
task waits until it is called and is active from its call until it settles.  Which waiting task
is called next, and when, is left open.
-/

namespace Clemvion.Library

/-- The operations of a limiter; tasks are named by numbers. -/
structure Limiter where
  State : Type
  create : Nat → State
  enqueue : State → Nat → State
  /-- The state after the limiter has called a waiting task, where it may do so now. -/
  call : State → Nat → Option State
  settle : State → Nat → State
  concurrency : State → Nat
  active : State → List Nat
  pending : State → List Nat

namespace Limiter

structure Lawful (L : Limiter) : Prop where
  create_concurrency : ∀ n, L.concurrency (L.create n) = n
  create_active : ∀ n, L.active (L.create n) = []
  create_pending : ∀ n, L.pending (L.create n) = []
  enqueue_concurrency : ∀ s t, L.concurrency (L.enqueue s t) = L.concurrency s
  enqueue_active : ∀ s t, L.active (L.enqueue s t) = L.active s
  enqueue_pending : ∀ s t, L.pending (L.enqueue s t) = L.pending s ++ [t]
  call_concurrency : ∀ s t s', L.call s t = some s' → L.concurrency s' = L.concurrency s
  call_active : ∀ s t s', L.call s t = some s' → L.active s' = t :: L.active s
  call_pending : ∀ s t s', L.call s t = some s' → (L.pending s).Perm (t :: L.pending s')
  call_limit : ∀ s t s', L.call s t = some s' → (L.active s').length ≤ L.concurrency s'
  settle_concurrency : ∀ s t, L.concurrency (L.settle s t) = L.concurrency s
  settle_active : ∀ s t, L.active (L.settle s t) = (L.active s).erase t
  settle_pending : ∀ s t, L.pending (L.settle s t) = L.pending s

/-- All tasks of a list handed over at once. -/
def enqueueAll (L : Limiter) (tasks : List Nat) (s : L.State) : L.State := tasks.foldl L.enqueue s

variable {L : Limiter} {tasks : List Nat} {s : L.State}

theorem enqueueAll_concurrency (h : L.Lawful) :
    L.concurrency (L.enqueueAll tasks s) = L.concurrency s := by
  unfold enqueueAll
  induction tasks generalizing s with
  | nil => rfl
  | cons t tasks ih => rw [List.foldl_cons, ih, h.enqueue_concurrency]

theorem enqueueAll_active (h : L.Lawful) : L.active (L.enqueueAll tasks s) = L.active s := by
  unfold enqueueAll
  induction tasks generalizing s with
  | nil => rfl
  | cons t tasks ih => rw [List.foldl_cons, ih, h.enqueue_active]

theorem enqueueAll_pending (h : L.Lawful) :
    L.pending (L.enqueueAll tasks s) = L.pending s ++ tasks := by
  unfold enqueueAll
  induction tasks generalizing s with
  | nil => rw [List.foldl_nil, List.append_nil]
  | cons t tasks ih =>
    rw [List.foldl_cons, ih, h.enqueue_pending, List.append_assoc]
    rfl

/-! ## The limiter that calls its tasks in the order they came -/

structure FifoState where
  concurrency : Nat
  active : List Nat := []
  pending : List Nat := []

def fifo : Limiter where
  State := FifoState
  create n := { concurrency := n }
  enqueue s t := { s with pending := s.pending ++ [t] }
  call s t :=
    match s.pending with
    | [] => none
    | next :: rest =>
      if next = t ∧ s.active.length < s.concurrency then
        some { s with active := t :: s.active, pending := rest }
      else none
  settle s t := { s with active := s.active.erase t }
  concurrency := FifoState.concurrency
  active := FifoState.active
  pending := FifoState.pending

theorem fifo_call {s s' : FifoState} {t : Nat} (h : fifo.call s t = some s') :
    ∃ rest, s.pending = t :: rest ∧ s.active.length < s.concurrency ∧
      s' = { s with active := t :: s.active, pending := rest } := by
  dsimp only [fifo] at h
  cases hpending : s.pending with
  | nil => simp [hpending] at h
  | cons next rest =>
    simp only [hpending] at h
    split_ifs at h with hcall
    obtain ⟨rfl, hlimit⟩ := hcall
    exact ⟨rest, rfl, hlimit, (Option.some.inj h).symm⟩

theorem fifo_lawful : fifo.Lawful where
  create_concurrency _ := rfl
  create_active _ := rfl
  create_pending _ := rfl
  enqueue_concurrency _ _ := rfl
  enqueue_active _ _ := rfl
  enqueue_pending _ _ := rfl
  call_concurrency s t s' h := by
    obtain ⟨rest, -, -, rfl⟩ := fifo_call h
    rfl
  call_active s t s' h := by
    obtain ⟨rest, -, -, rfl⟩ := fifo_call h
    rfl
  call_pending s t s' h := by
    obtain ⟨rest, hpending, -, rfl⟩ := fifo_call h
    show s.pending.Perm (t :: rest)
    rw [hpending]
  call_limit s t s' h := by
    obtain ⟨rest, -, hlimit, rfl⟩ := fifo_call h
    show (t :: s.active).length ≤ s.concurrency
    rw [List.length_cons]
    omega
  settle_concurrency _ _ := rfl
  settle_active _ _ := rfl
  settle_pending _ _ := rfl

end Limiter

end Clemvion.Library
