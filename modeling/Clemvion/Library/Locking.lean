import Mathlib.Logic.Function.Basic
import Mathlib.Data.List.Nodup

/-!
# Locking — rows that are rewritten under a lock

A job looks at its row, takes the row's lock, reads the row again and writes what it makes of both; the
lock is held until the job has ended.  Rows have locks, not always one each, and a row may vanish
without any lock.  A job may give up at any moment before its write.  Seen from outside, a job is its
look and one moment at which all the rest happens.
-/

namespace Clemvion.Library

/-! ## 1. Jobs and their steps -/

structure Job (κ ν : Type) where
  row : κ
  /-- What is written for the first look and what was read under the lock; `none` where the job
  declines. -/
  merge : ν → ν → Option ν

inductive Outcome
  | wrote | missing | declined
  deriving DecidableEq, Repr

inductive Phase (ν : Type)
  | waiting
  | looked (first : ν)
  | locked (first : ν)
  | holding (first seen : ν)
  | ended (outcome : Outcome)
  deriving DecidableEq

/-- Between the lock and the end. -/
def Phase.active {ν : Type} : Phase ν → Bool
  | .locked _ | .holding _ _ => true
  | _ => false

/-- What the job saw before it took its lock. -/
def Phase.first {ν : Type} : Phase ν → Option ν
  | .looked first | .locked first | .holding first _ => some first
  | _ => none

structure LockState (ι κ lock ν : Type) where
  rows : κ → Option ν
  holder : lock → Option ι
  phase : ι → Phase ν

inductive LockEvent (ι κ : Type)
  | look (i : ι) | acquire (i : ι) | read (i : ι) | commit (i : ι) | giveUp (i : ι) | vanish (k : κ)

variable {ι κ lock ν : Type} [DecidableEq ι] [DecidableEq κ] [DecidableEq lock]
  (job : ι → Job κ ν) (lockOf : κ → lock)

/-- Every job waits and no lock is held. -/
def LockState.start (rows : κ → Option ν) : LockState ι κ lock ν :=
  ⟨rows, fun _ => none, fun _ => .waiting⟩

/-- The end of a job, which frees its lock. -/
def finish (i : ι) (outcome : Outcome) (s : LockState ι κ lock ν) : LockState ι κ lock ν :=
  { s with
    holder := Function.update s.holder (lockOf (job i).row) none
    phase := Function.update s.phase i (.ended outcome) }

/-- A step that is not possible now leaves everything as it is. -/
def lockStep (s : LockState ι κ lock ν) : LockEvent ι κ → LockState ι κ lock ν
  | .look i =>
    match s.phase i with
    | .waiting =>
      match s.rows (job i).row with
      | none => { s with phase := Function.update s.phase i (.ended .missing) }
      | some v => { s with phase := Function.update s.phase i (.looked v) }
    | _ => s
  | .acquire i =>
    match s.phase i, s.holder (lockOf (job i).row) with
    | .looked first, none =>
      { s with
        holder := Function.update s.holder (lockOf (job i).row) (some i)
        phase := Function.update s.phase i (.locked first) }
    | _, _ => s
  | .read i =>
    match s.phase i with
    | .locked first =>
      match s.rows (job i).row with
      | none => finish job lockOf i .missing s
      | some v => { s with phase := Function.update s.phase i (.holding first v) }
    | _ => s
  | .commit i =>
    match s.phase i with
    | .holding first v =>
      match (job i).merge first v, s.rows (job i).row with
      | none, _ => finish job lockOf i .declined s
      | some _, none => finish job lockOf i .missing s
      | some v', some _ =>
        finish job lockOf i .wrote { s with rows := Function.update s.rows (job i).row (some v') }
    | _ => s
  | .giveUp i =>
    match s.phase i with
    | .waiting | .looked _ => { s with phase := Function.update s.phase i (.ended .declined) }
    | .locked _ | .holding _ _ => finish job lockOf i .declined s
    | .ended _ => s
  | .vanish k => { s with rows := Function.update s.rows k none }

def lockRun (s : LockState ι κ lock ν) (events : List (LockEvent ι κ)) : LockState ι κ lock ν :=
  events.foldl (lockStep job lockOf) s

/-! ## 2. One moment for every write -/

inductive Moment (ι κ : Type)
  | look (i : ι) | rewrite (i : ι) | vanish (k : κ)
  deriving DecidableEq

/-- The rows, and what every job saw when it looked. -/
@[ext] structure Rows (ι κ ν : Type) where
  rows : κ → Option ν
  seen : ι → Option ν

/-- A look, the whole rest of a job at once, or the loss of a row. -/
def momentStep (a : Rows ι κ ν) : Moment ι κ → Rows ι κ ν
  | .look i => { a with seen := Function.update a.seen i (a.rows (job i).row) }
  | .rewrite i =>
    match a.seen i, a.rows (job i).row with
    | some first, some v =>
      { a with rows := Function.update a.rows (job i).row (some (((job i).merge first v).getD v)) }
    | _, _ => a
  | .vanish k => { a with rows := Function.update a.rows k none }

def momentRun (a : Rows ι κ ν) (moments : List (Moment ι κ)) : Rows ι κ ν :=
  moments.foldl (momentStep job) a

/-- What a step is, seen from outside. -/
def momentOf (s : LockState ι κ lock ν) : LockEvent ι κ → Option (Moment ι κ)
  | .look i =>
    match s.phase i, s.rows (job i).row with
    | .waiting, some _ => some (.look i)
    | _, _ => none
  | .commit i =>
    match s.phase i with
    | .holding first v =>
      match (job i).merge first v, s.rows (job i).row with
      | some _, some _ => some (.rewrite i)
      | _, _ => none
    | _ => none
  | .vanish k => some (.vanish k)
  | _ => none

/-- The moments of a run in their order. -/
def moments (s : LockState ι κ lock ν) : List (LockEvent ι κ) → List (Moment ι κ)
  | [] => []
  | e :: events => (momentOf job s e).toList ++ moments (lockStep job lockOf s e) events

/-- The moments of one job. -/
def Moment.isOf (i : ι) : Moment ι κ → Bool
  | .look j | .rewrite j => i = j
  | .vanish _ => false

/-- The jobs of the moments. -/
def written (ms : List (Moment ι κ)) : List ι :=
  ms.filterMap fun m =>
    match m with
    | .rewrite i => some i
    | .look _ | .vanish _ => none

omit [DecidableEq ι] [DecidableEq κ] in
theorem written_append (ms ms' : List (Moment ι κ)) :
    written (ms ++ ms') = written ms ++ written ms' := List.filterMap_append

omit [DecidableEq ι] [DecidableEq κ] in
theorem mem_written_toList {m : Option (Moment ι κ)} {i : ι} :
    i ∈ written m.toList ↔ m = some (.rewrite i) := by
  cases m with
  | none => simp [written]
  | some m => cases m <;> simp [written, eq_comm]

variable {job lockOf} {s s' : LockState ι κ lock ν} {e : LockEvent ι κ} {m : Option (Moment ι κ)}
  {i j : ι}

/-! ## 3. What a step can do -/

/-- The job goes on, or ends, without its lock being touched. -/
def setPhase (s : LockState ι κ lock ν) (i : ι) (p : Phase ν) : LockState ι κ lock ν :=
  { s with phase := Function.update s.phase i p }

/-- Every way in which a step changes the state, and its moment. -/
inductive Effect (job : ι → Job κ ν) (lockOf : κ → lock) (s : LockState ι κ lock ν) :
    LockEvent ι κ → LockState ι κ lock ν → Option (Moment ι κ) → Prop
  | idle (e : LockEvent ι κ) : Effect job lockOf s e s none
  | lookMissing (i : ι) (hphase : s.phase i = .waiting) (hrow : s.rows (job i).row = none) :
      Effect job lockOf s (.look i) (setPhase s i (.ended .missing)) none
  | look (i : ι) (v : ν) (hphase : s.phase i = .waiting) (hrow : s.rows (job i).row = some v) :
      Effect job lockOf s (.look i) (setPhase s i (.looked v)) (some (.look i))
  | acquire (i : ι) (first : ν) (hphase : s.phase i = .looked first)
      (hfree : s.holder (lockOf (job i).row) = none) :
      Effect job lockOf s (.acquire i)
        { setPhase s i (.locked first) with
          holder := Function.update s.holder (lockOf (job i).row) (some i) } none
  | readMissing (i : ι) (first : ν) (hphase : s.phase i = .locked first)
      (hrow : s.rows (job i).row = none) :
      Effect job lockOf s (.read i) (finish job lockOf i .missing s) none
  | read (i : ι) (first v : ν) (hphase : s.phase i = .locked first)
      (hrow : s.rows (job i).row = some v) :
      Effect job lockOf s (.read i) (setPhase s i (.holding first v)) none
  | decline (i : ι) (first v : ν) (hphase : s.phase i = .holding first v) :
      Effect job lockOf s (.commit i) (finish job lockOf i .declined s) none
  | commitMissing (i : ι) (first v : ν) (hphase : s.phase i = .holding first v)
      (hrow : s.rows (job i).row = none) :
      Effect job lockOf s (.commit i) (finish job lockOf i .missing s) none
  | commit (i : ι) (first v v' w : ν) (hphase : s.phase i = .holding first v)
      (hmerge : (job i).merge first v = some v') (hrow : s.rows (job i).row = some w) :
      Effect job lockOf s (.commit i)
        (finish job lockOf i .wrote { s with rows := Function.update s.rows (job i).row (some v') })
        (some (.rewrite i))
  | leave (i : ι) (hidle : (s.phase i).active = false) (hopen : ∀ o, s.phase i ≠ .ended o) :
      Effect job lockOf s (.giveUp i) (setPhase s i (.ended .declined)) none
  | release (i : ι) (hactive : (s.phase i).active = true) :
      Effect job lockOf s (.giveUp i) (finish job lockOf i .declined s) none
  | vanish (k : κ) :
      Effect job lockOf s (.vanish k) { s with rows := Function.update s.rows k none }
        (some (.vanish k))

theorem lockStep_effect (e : LockEvent ι κ) :
    Effect job lockOf s e (lockStep job lockOf s e) (momentOf job s e) := by
  cases e with
  | look i =>
    unfold lockStep momentOf
    dsimp only
    cases hphase : s.phase i with
    | waiting =>
      cases hrow : s.rows (job i).row with
      | none => exact .lookMissing i hphase hrow
      | some v => exact .look i v hphase hrow
    | _ => exact .idle _
  | acquire i =>
    unfold lockStep momentOf
    dsimp only
    split
    case h_1 first hphase hfree => exact .acquire i first hphase hfree
    case h_2 => exact .idle _
  | read i =>
    unfold lockStep momentOf
    dsimp only
    split
    case h_2 => exact .idle _
    case h_1 first hphase =>
      split
      case h_1 hrow => exact .readMissing i first hphase hrow
      case h_2 v hrow => exact .read i first v hphase hrow
  | commit i =>
    unfold lockStep momentOf
    dsimp only
    split
    case h_2 => exact .idle _
    case h_1 first v hphase =>
      cases hmerge : (job i).merge first v with
      | none => exact .decline i first v hphase
      | some v' =>
        cases hrow : s.rows (job i).row with
        | none => exact .commitMissing i first v hphase hrow
        | some w => exact .commit i first v v' w hphase hmerge hrow
  | giveUp i =>
    unfold lockStep momentOf
    dsimp only
    cases hphase : s.phase i with
    | waiting => exact .leave i (by rw [hphase]; rfl) (by simp [hphase])
    | looked first => exact .leave i (by rw [hphase]; rfl) (by simp [hphase])
    | locked first => exact .release i (by rw [hphase]; rfl)
    | holding first v => exact .release i (by rw [hphase]; rfl)
    | ended o => exact .idle _
  | vanish k => exact .vanish k

omit [DecidableEq κ] [DecidableEq lock] in
@[simp] theorem setPhase_phase (p : Phase ν) :
    (setPhase s i p).phase = Function.update s.phase i p := rfl

omit [DecidableEq κ] in
@[simp] theorem finish_phase (outcome : Outcome) :
    (finish job lockOf i outcome s).phase = Function.update s.phase i (.ended outcome) := rfl

omit [DecidableEq κ] [DecidableEq lock] in
theorem setPhase_self (p : Phase ν) : (setPhase s i p).phase i = p := Function.update_self ..

omit [DecidableEq κ] [DecidableEq lock] in
theorem setPhase_of_ne {p : Phase ν} (h : j ≠ i) : (setPhase s i p).phase j = s.phase j :=
  Function.update_of_ne h _ _

omit [DecidableEq κ] in
theorem finish_self (outcome : Outcome) : (finish job lockOf i outcome s).phase i = .ended outcome :=
  Function.update_self ..

omit [DecidableEq κ] in
theorem finish_of_ne {outcome : Outcome} (h : j ≠ i) :
    (finish job lockOf i outcome s).phase j = s.phase j := Function.update_of_ne h _ _

/-! ## 4. What is true at every moment -/

/-- An active job holds its lock, and what it has read is still there unless the row is gone. -/
structure Locked (job : ι → Job κ ν) (lockOf : κ → lock) (s : LockState ι κ lock ν) : Prop where
  holds : ∀ i, (s.phase i).active = true → s.holder (lockOf (job i).row) = some i
  fresh : ∀ i first v, s.phase i = .holding first v →
    s.rows (job i).row = some v ∨ s.rows (job i).row = none

omit [DecidableEq ι] [DecidableEq κ] [DecidableEq lock] in
theorem locked_start (rows : κ → Option ν) : Locked job lockOf (.start rows) where
  holds := fun _ h => nomatch h
  fresh := fun _ _ _ h => nomatch h

omit [DecidableEq ι] [DecidableEq κ] [DecidableEq lock] in
/-- Two active jobs have different locks. -/
theorem Locked.lock_ne (h : Locked job lockOf s) (hi : (s.phase i).active = true)
    (hj : (s.phase j).active = true) (hne : j ≠ i) : lockOf (job j).row ≠ lockOf (job i).row := by
  intro heq
  have hholder := h.holds j hj
  rw [heq, h.holds i hi] at hholder
  exact hne (Option.some.inj hholder).symm

omit [DecidableEq κ] in
/-- The end of an active job, with or without a write to its own row. -/
theorem Locked.finish (h : Locked job lockOf s) (hi : (s.phase i).active = true)
    (outcome : Outcome) {rows : κ → Option ν} (hrows : ∀ k, k ≠ (job i).row → rows k = s.rows k) :
    Locked job lockOf (finish job lockOf i outcome { s with rows := rows }) := by
  -- a job that is still active is another one, so it has another lock and another row
  have hother : ∀ j, ((Library.finish job lockOf i outcome { s with rows := rows }).phase j).active =
      true → j ≠ i ∧ (s.phase j).active = true := by
    intro j hj
    by_cases hji : j = i
    · rw [hji, finish_self] at hj
      cases hj
    · rw [finish_of_ne hji] at hj
      exact ⟨hji, hj⟩
  refine ⟨fun j hj => ?_, fun j first v hj => ?_⟩
  · obtain ⟨hji, hactive⟩ := hother j hj
    show Function.update s.holder _ none _ = some j
    rw [Function.update_of_ne (h.lock_ne hi hactive hji)]
    exact h.holds j hactive
  · obtain ⟨hji, hactive⟩ := hother j (by rw [hj]; rfl)
    have hrow : (job j).row ≠ (job i).row := fun heq =>
      h.lock_ne hi hactive hji (congrArg lockOf heq)
    rw [finish_of_ne hji] at hj
    show rows (job j).row = some v ∨ rows (job j).row = none
    rw [hrows _ hrow]
    exact h.fresh j first v hj

omit [DecidableEq κ] [DecidableEq lock] in
/-- A job that does not hold its lock may go on or end. -/
theorem Locked.setIdle (h : Locked job lockOf s) {p : Phase ν} (hp : p.active = false) :
    Locked job lockOf (setPhase s i p) := by
  have hother : ∀ j, ((setPhase s i p).phase j).active = true → j ≠ i := by
    rintro j hj rfl
    rw [setPhase_self, hp] at hj
    cases hj
  refine ⟨fun j hj => ?_, fun j first v hj => ?_⟩
  · have hji := hother j hj
    rw [setPhase_of_ne hji] at hj
    exact h.holds j hj
  · have hji := hother j (by rw [hj]; rfl)
    rw [setPhase_of_ne hji] at hj
    exact h.fresh j first v hj

theorem Locked.effect (h : Locked job lockOf s) (he : Effect job lockOf s e s' m) :
    Locked job lockOf s' := by
  cases he with
  | idle => exact h
  | lookMissing i hphase hrow => exact h.setIdle rfl
  | look i v hphase hrow => exact h.setIdle rfl
  | acquire i first hphase hfree =>
    refine ⟨fun j hj => ?_, fun j first' v hj => ?_⟩
    · show Function.update s.holder _ (some i) _ = some j
      by_cases hji : j = i
      · rw [hji, Function.update_self]
      · have hactive : (s.phase j).active = true := by
          rw [← setPhase_of_ne (p := .locked first) hji]
          exact hj
        have hlock : lockOf (job j).row ≠ lockOf (job i).row := by
          intro heq
          have hholder := h.holds j hactive
          rw [heq, hfree] at hholder
          cases hholder
        rw [Function.update_of_ne hlock]
        exact h.holds j hactive
    · by_cases hji : j = i
      · rw [hji] at hj
        cases (setPhase_self (s := s) (i := i) _).symm.trans hj
      · exact h.fresh j first' v ((setPhase_of_ne hji).symm.trans hj)
  | readMissing i first hphase hrow =>
    exact h.finish (by rw [hphase]; rfl) .missing fun k _ => rfl
  | read i first v hphase hrow =>
    have hi : (s.phase i).active = true := by rw [hphase]; rfl
    refine ⟨fun j hj => ?_, fun j first' v' hj => ?_⟩
    · by_cases hji : j = i
      · rw [hji]
        exact h.holds i hi
      · rw [setPhase_of_ne hji] at hj
        exact h.holds j hj
    · by_cases hji : j = i
      · rw [hji, setPhase_self] at hj
        rw [hji, ← (Phase.holding.inj hj).2]
        exact .inl hrow
      · rw [setPhase_of_ne hji] at hj
        exact h.fresh j first' v' hj
  | decline i first v hphase =>
    exact h.finish (by rw [hphase]; rfl) .declined fun k _ => rfl
  | commitMissing i first v hphase hrow =>
    exact h.finish (by rw [hphase]; rfl) .missing fun k _ => rfl
  | commit i first v v' w hphase hmerge hrow =>
    exact h.finish (by rw [hphase]; rfl) .wrote fun k hk => Function.update_of_ne hk _ _
  | leave i hidle hopen => exact h.setIdle rfl
  | release i hactive => exact h.finish hactive .declined fun k _ => rfl
  | vanish k =>
    refine ⟨h.holds, fun j first v hj => ?_⟩
    show Function.update s.rows k none _ = some v ∨ Function.update s.rows k none _ = none
    by_cases hk : (job j).row = k
    · rw [hk, Function.update_self]
      exact .inr rfl
    · rw [Function.update_of_ne hk]
      exact h.fresh j first v hj

/-- The rows are as the moments left them, and every job under way has seen what it says. -/
structure Follows (s : LockState ι κ lock ν) (a : Rows ι κ ν) : Prop where
  rows : s.rows = a.rows
  seen : ∀ i first, (s.phase i).first = some first → a.seen i = some first

omit [DecidableEq κ] [DecidableEq lock] in
/-- A step that is no moment, of a job that keeps its first look or forgets it. -/
theorem Follows.quiet {a : Rows ι κ ν} (h : Follows s a) (hrows : s'.rows = s.rows)
    (hother : ∀ j, j ≠ i → s'.phase j = s.phase j)
    (hi : ∀ first, (s'.phase i).first = some first → (s.phase i).first = some first) :
    Follows s' a := by
  refine ⟨hrows.trans h.rows, fun j first hj => ?_⟩
  by_cases hji : j = i
  · subst hji
    exact h.seen j first (hi first hj)
  · rw [hother j hji] at hj
    exact h.seen j first hj

theorem Follows.effect {a : Rows ι κ ν} (h : Follows s a) (hlocked : Locked job lockOf s)
    (he : Effect job lockOf s e s' m) : Follows s' (momentRun job a m.toList) := by
  cases he with
  | idle => exact h
  | lookMissing i hphase hrow =>
    refine h.quiet (i := i) rfl (fun j hji => setPhase_of_ne hji) fun first hfirst => ?_
    rw [setPhase_self] at hfirst
    cases hfirst
  | look i v hphase hrow =>
    refine ⟨h.rows, fun j first hj => ?_⟩
    show Function.update a.seen i _ j = some first
    by_cases hji : j = i
    · rw [hji, setPhase_self] at hj
      rw [hji, Function.update_self, ← h.rows, hrow]
      exact hj
    · rw [setPhase_of_ne hji] at hj
      rw [Function.update_of_ne hji]
      exact h.seen j first hj
  | acquire i first hphase hfree =>
    refine h.quiet (i := i) rfl (fun j hji => setPhase_of_ne hji) fun first' hfirst => ?_
    rw [hphase]
    rwa [show ({ setPhase s i (.locked first) with
      holder := Function.update s.holder (lockOf (job i).row) (some i) } :
        LockState ι κ lock ν).phase i = .locked first from setPhase_self _] at hfirst
  | readMissing i first hphase hrow =>
    refine h.quiet (i := i) rfl (fun j hji => finish_of_ne hji) fun first' hfirst => ?_
    rw [finish_self] at hfirst
    cases hfirst
  | read i first v hphase hrow =>
    refine h.quiet (i := i) rfl (fun j hji => setPhase_of_ne hji) fun first' hfirst => ?_
    rw [setPhase_self] at hfirst
    rw [hphase]
    exact hfirst
  | decline i first v hphase =>
    refine h.quiet (i := i) rfl (fun j hji => finish_of_ne hji) fun first' hfirst => ?_
    rw [finish_self] at hfirst
    cases hfirst
  | commitMissing i first v hphase hrow =>
    refine h.quiet (i := i) rfl (fun j hji => finish_of_ne hji) fun first' hfirst => ?_
    rw [finish_self] at hfirst
    cases hfirst
  | commit i first v v' w hphase hmerge hrow =>
    -- the row is the one that was read, and the look is the one of the moments
    have hread : w = v := by
      obtain hsame | hgone := hlocked.fresh i first v hphase
      · exact Option.some.inj (hrow.symm.trans hsame)
      · rw [hgone] at hrow
        cases hrow
    have hseen : a.seen i = some first := h.seen i first (by rw [hphase]; rfl)
    have hstep : momentStep job a (.rewrite i) =
        { a with rows := Function.update a.rows (job i).row (some v') } := by
      unfold momentStep
      dsimp only
      rw [hseen, ← h.rows, hrow, hread]
      dsimp only
      rw [hmerge, Option.getD_some]
    show Follows _ (momentStep job a (.rewrite i))
    rw [hstep]
    refine ⟨?_, fun j first' hj => ?_⟩
    · show Function.update s.rows _ _ = Function.update a.rows _ _
      rw [h.rows]
    · by_cases hji : j = i
      · rw [hji, finish_self] at hj
        cases hj
      · rw [finish_of_ne hji] at hj
        exact h.seen j first' hj
  | leave i hidle hopen =>
    refine h.quiet (i := i) rfl (fun j hji => setPhase_of_ne hji) fun first hfirst => ?_
    rw [setPhase_self] at hfirst
    cases hfirst
  | release i hactive =>
    refine h.quiet (i := i) rfl (fun j hji => finish_of_ne hji) fun first hfirst => ?_
    rw [finish_self] at hfirst
    cases hfirst
  | vanish k =>
    refine ⟨?_, h.seen⟩
    show Function.update s.rows _ _ = Function.update a.rows _ _
    rw [h.rows]

/-! ## 5. Which jobs have a moment -/

/-- What has ended stays as it is. -/
theorem Effect.keeps_ended (he : Effect job lockOf s e s' m) {outcome : Outcome}
    (h : s.phase i = .ended outcome) : s'.phase i = .ended outcome := by
  cases he with
  | idle => exact h
  | lookMissing j hphase | look j _ hphase =>
    exact (setPhase_of_ne (by rintro rfl; simp [h] at hphase)).trans h
  | acquire j _ hphase | read j _ _ hphase =>
    exact (setPhase_of_ne (by rintro rfl; simp [h] at hphase)).trans h
  | readMissing j _ hphase | decline j _ _ hphase | commitMissing j _ _ hphase
  | commit j _ _ _ _ hphase =>
    exact (finish_of_ne (by rintro rfl; simp [h] at hphase)).trans h
  | leave j hidle hopen =>
    exact (setPhase_of_ne (by rintro rfl; exact hopen _ h)).trans h
  | release j hactive =>
    exact (finish_of_ne (by rintro rfl; rw [h] at hactive; cases hactive)).trans h
  | vanish k => exact h

/-- A job has written exactly when it is the job of the moment, or had written before. -/
theorem Effect.wrote_iff (he : Effect job lockOf s e s' m) :
    s'.phase i = .ended .wrote ↔ m = some (.rewrite i) ∨ s.phase i = .ended .wrote := by
  have hset : ∀ (j : ι) (p : Phase ν), s.phase j ≠ .ended .wrote → p ≠ .ended .wrote →
      (Function.update s.phase j p i = .ended .wrote ↔ s.phase i = .ended .wrote) := by
    intro j p hold hnew
    by_cases hij : i = j
    · subst hij
      rw [Function.update_self]
      exact ⟨fun heq => absurd heq hnew, fun heq => absurd heq hold⟩
    · rw [Function.update_of_ne hij]
  cases he with
  | idle => simp
  | lookMissing j hphase => simpa using hset j (.ended .missing) (by simp [hphase]) (by simp)
  | look j v hphase => simpa using hset j (.looked v) (by simp [hphase]) (by simp)
  | acquire j first hphase => simpa using hset j (.locked first) (by simp [hphase]) (by simp)
  | readMissing j first hphase => simpa using hset j (.ended .missing) (by simp [hphase]) (by simp)
  | read j first v hphase => simpa using hset j (.holding first v) (by simp [hphase]) (by simp)
  | decline j first v hphase => simpa using hset j (.ended .declined) (by simp [hphase]) (by simp)
  | commitMissing j first v hphase =>
    simpa using hset j (.ended .missing) (by simp [hphase]) (by simp)
  | commit j first v v' w hphase =>
    by_cases hij : i = j
    · subst hij
      simp [finish_self]
    · rw [finish_of_ne hij]
      simp [Ne.symm hij]
  | leave j hidle hopen => simpa using hset j (.ended .declined) (hopen _) (by simp)
  | release j hactive =>
    have hopen : s.phase j ≠ .ended .wrote := by
      intro heq
      rw [heq] at hactive
      cases hactive
    simpa using hset j (.ended .declined) hopen (by simp)
  | vanish k => simp

/-- What a job that will write has still ahead of it, but for the write. -/
def Phase.ahead (i : ι) : Phase ν → List (Moment ι κ)
  | .waiting => [.look i]
  | _ => []

theorem Effect.ahead_of_rewrite (he : Effect job lockOf s e s' (some (.rewrite i))) :
    ((s.phase i).ahead i : List (Moment ι κ)) = [] := by
  cases he with
  | commit j first v v' w hphase =>
    rw [hphase]
    rfl

theorem Effect.not_isOf_of_ended {m : Moment ι κ} (he : Effect job lockOf s e s' (some m))
    {outcome : Outcome} (h : s.phase i = .ended outcome) : ¬m.isOf i = true := by
  intro hof
  cases he with
  | look j v hphase =>
    rw [← of_decide_eq_true hof, h] at hphase
    cases hphase
  | commit j first v v' w hphase =>
    rw [← of_decide_eq_true hof, h] at hphase
    cases hphase
  | vanish k => cases hof

/-- A step short of the write takes the look out of what is ahead and nothing else. -/
theorem Effect.ahead_eq (he : Effect job lockOf s e s' m) (hnow : s'.phase i ≠ .ended .wrote)
    (hopen : ∀ outcome, s'.phase i ≠ .ended outcome) :
    m.toList.filter (Moment.isOf i) ++ (s'.phase i).ahead i =
      ((s.phase i).ahead i : List (Moment ι κ)) := by
  -- nothing is ahead of a job before or after the step, unless it is the look
  have hset : ∀ (j : ι) (p : Phase ν), (s.phase j).ahead j = ([] : List (Moment ι κ)) →
      p.ahead j = ([] : List (Moment ι κ)) →
        (Function.update s.phase j p i).ahead i = ((s.phase i).ahead i : List (Moment ι κ)) := by
    intro j p hold hnew
    by_cases hij : i = j
    · subst hij
      rw [Function.update_self, hold, hnew]
    · rw [Function.update_of_ne hij]
  have hend : ∀ (j : ι) (outcome : Outcome), Function.update s.phase j (.ended outcome) = s'.phase →
      (s'.phase i).ahead i = ((s.phase i).ahead i : List (Moment ι κ)) := by
    intro j outcome hphase
    by_cases hij : i = j
    · subst hij
      exact absurd (by rw [← hphase, Function.update_self]) (hopen outcome)
    · rw [← hphase, Function.update_of_ne hij]
  cases he with
  | idle => rfl
  | lookMissing j hphase => exact hend j .missing rfl
  | look j v hphase =>
    by_cases hij : i = j
    · subst hij
      rw [setPhase_self, hphase]
      simp [Moment.isOf, Phase.ahead]
    · rw [setPhase_of_ne hij]
      simp [Moment.isOf, hij]
  | acquire j first hphase => exact hset j (.locked first) (by rw [hphase]; rfl) rfl
  | readMissing j first hphase => exact hend j .missing rfl
  | read j first v hphase => exact hset j (.holding first v) (by rw [hphase]; rfl) rfl
  | decline j first v hphase => exact hend j .declined rfl
  | commitMissing j first v hphase => exact hend j .missing rfl
  | commit j first v v' w hphase =>
    have hij : i ≠ j := by
      rintro rfl
      exact hnow (finish_self _)
    rw [finish_of_ne hij]
    simp [Moment.isOf, hij]
  | leave j hidle hopen' => exact hend j .declined rfl
  | release j hactive => exact hend j .declined rfl
  | vanish k => rfl

/-- A row that is gone never comes back. -/
theorem Effect.keeps_gone (he : Effect job lockOf s e s' m) {k : κ} (h : s.rows k = none) :
    s'.rows k = none := by
  cases he with
  | commit j first v v' w hphase hmerge hrow =>
    have hk : k ≠ (job j).row := by
      rintro rfl
      rw [h] at hrow
      cases hrow
    exact (Function.update_of_ne hk _ _).trans h
  | vanish k' =>
    show Function.update s.rows k' none k = none
    by_cases hk : k = k'
    · rw [hk, Function.update_self]
    · rw [Function.update_of_ne hk]
      exact h
  | _ => exact h

/-- A job that missed its row was right to: the row is not there any more. -/
def MissingGone (job : ι → Job κ ν) (s : LockState ι κ lock ν) : Prop :=
  ∀ i, s.phase i = .ended .missing → s.rows (job i).row = none

theorem MissingGone.effect (h : MissingGone job s) (he : Effect job lockOf s e s' m) :
    MissingGone job s' := by
  intro i hi
  -- either the job had missed its row before, or this is the step in which it does
  by_cases hbefore : s.phase i = .ended .missing
  · exact he.keeps_gone (h i hbefore)
  have hother : ∀ (j : ι) (p : Phase ν), p ≠ .ended .missing →
      Function.update s.phase j p i ≠ .ended .missing := by
    intro j p hp
    by_cases hij : i = j
    · rw [hij, Function.update_self]
      exact hp
    · rw [Function.update_of_ne hij]
      exact hbefore
  have hself : ∀ j, Function.update s.phase j (.ended .missing) i = .ended .missing → i = j := by
    intro j hj
    by_contra hij
    rw [Function.update_of_ne hij] at hj
    exact hbefore hj
  cases he with
  | idle => exact absurd hi hbefore
  | lookMissing j hphase hrow | readMissing j _ hphase hrow | commitMissing j _ _ hphase hrow =>
    rw [hself j hi]
    exact hrow
  | look j v => exact absurd hi (hother j _ (by simp))
  | acquire j first => exact absurd hi (hother j _ (by simp))
  | read j first v => exact absurd hi (hother j _ (by simp))
  | decline j => exact absurd hi (hother j _ (by simp))
  | commit j => exact absurd hi (hother j _ (by simp))
  | leave j => exact absurd hi (hother j _ (by simp))
  | release j => exact absurd hi (hother j _ (by simp))
  | vanish k => exact absurd hi hbefore

/-- A row after the step is one that was there before, or what the job of the moment has written. -/
theorem Effect.keeps_rows (he : Effect job lockOf s e s' m) {P : κ → ν → Prop}
    (hrows : ∀ k v, s.rows k = some v → P k v)
    (hcommit : ∀ i first v v' w, s.phase i = .holding first v → (job i).merge first v = some v' →
      s.rows (job i).row = some w → s'.phase i = .ended .wrote → P (job i).row v') :
    ∀ k v, s'.rows k = some v → P k v := by
  cases he with
  | commit i first v v' w hphase hmerge hrow =>
    intro k u hu
    replace hu : Function.update s.rows (job i).row (some v') k = some u := hu
    by_cases hk : k = (job i).row
    · rw [hk, Function.update_self] at hu
      rw [hk, ← Option.some.inj hu]
      exact hcommit i first v v' w hphase hmerge hrow (finish_self _)
    · rw [Function.update_of_ne hk] at hu
      exact hrows k u hu
  | vanish k' =>
    intro k u hu
    replace hu : Function.update s.rows k' none k = some u := hu
    by_cases hk : k = k'
    · rw [hk, Function.update_self] at hu
      cases hu
    · rw [Function.update_of_ne hk] at hu
      exact hrows k u hu
  | _ => exact hrows

/-- A first look after the step is one from before, or a row that is there. -/
theorem Effect.keeps_first (he : Effect job lockOf s e s' m) {Q : ι → ν → Prop}
    (hlooks : ∀ i first, (s.phase i).first = some first → Q i first)
    (hlook : ∀ i v, s.rows (job i).row = some v → Q i v) :
    ∀ i first, (s'.phase i).first = some first → Q i first := by
  have hset : ∀ (j : ι) (p : Phase ν), (∀ first, p.first = some first → Q j first) →
      ∀ i first, (Function.update s.phase j p i).first = some first → Q i first := by
    intro j p hp i first hfirst
    by_cases hij : i = j
    · subst hij
      rw [Function.update_self] at hfirst
      exact hp first hfirst
    · rw [Function.update_of_ne hij] at hfirst
      exact hlooks i first hfirst
  cases he with
  | idle => exact hlooks
  | look j v hphase hrow =>
    refine hset j _ fun first hfirst => ?_
    rw [← Option.some.inj hfirst]
    exact hlook j v hrow
  | acquire j first hphase =>
    refine hset j _ fun first' hfirst => hlooks j first' ?_
    rw [hphase]
    exact hfirst
  | read j first v hphase =>
    refine hset j _ fun first' hfirst => hlooks j first' ?_
    rw [hphase]
    exact hfirst
  | vanish k => exact hlooks
  | lookMissing j | readMissing j | decline j | commitMissing j | commit j | leave j | release j =>
    exact hset j _ fun first hfirst => nomatch hfirst

/-- The step in which a job writes. -/
theorem Effect.commit_of_wrote (he : Effect job lockOf s (.commit i) s' m)
    (hbefore : s.phase i ≠ .ended .wrote) (hafter : s'.phase i = .ended .wrote) :
    ∃ first v v', s.phase i = .holding first v ∧ s.rows (job i).row ≠ none ∧
      (job i).merge first v = some v' ∧
      s'.rows = Function.update s.rows (job i).row (some v') := by
  cases he with
  | idle => exact absurd hafter hbefore
  | decline _ first v hphase => cases (finish_self _).symm.trans hafter
  | commitMissing _ first v hphase hrow => cases (finish_self _).symm.trans hafter
  | commit _ first v v' w hphase hmerge hrow =>
    exact ⟨first, v, v', hphase, by rw [hrow]; simp, hmerge, rfl⟩

/-! ## 6. Runs -/

omit [DecidableEq ι] [DecidableEq κ] [DecidableEq lock] in
theorem follows_start (rows : κ → Option ν) :
    Follows (.start rows : LockState ι κ lock ν) ⟨rows, fun _ => none⟩ :=
  ⟨rfl, fun _ _ h => nomatch h⟩

omit [DecidableEq ι] [DecidableEq κ] [DecidableEq lock] in
theorem missingGone_start (rows : κ → Option ν) :
    MissingGone job (.start rows : LockState ι κ lock ν) := fun _ h => nomatch h

theorem lockRun_append (before after : List (LockEvent ι κ)) :
    lockRun job lockOf s (before ++ after) = lockRun job lockOf (lockRun job lockOf s before) after :=
  List.foldl_append

theorem Locked.locked_run (h : Locked job lockOf s) (events : List (LockEvent ι κ)) :
    Locked job lockOf (lockRun job lockOf s events) := by
  induction events generalizing s with
  | nil => exact h
  | cons e events ih => exact ih (h.effect (lockStep_effect e))

theorem Locked.run (h : Locked job lockOf s) {a : Rows ι κ ν} (ha : Follows s a)
    (events : List (LockEvent ι κ)) :
    Follows (lockRun job lockOf s events) (momentRun job a (moments job lockOf s events)) := by
  induction events generalizing s a with
  | nil => exact ha
  | cons e events ih =>
    have heffect : Effect job lockOf s e _ _ := lockStep_effect e
    have hrest := ih (h.effect heffect) (ha.effect h heffect)
    rw [moments]
    unfold momentRun at hrest ⊢
    rwa [List.foldl_append]

theorem ended_run {outcome : Outcome} (h : s.phase i = .ended outcome)
    (events : List (LockEvent ι κ)) : (lockRun job lockOf s events).phase i = .ended outcome := by
  induction events generalizing s with
  | nil => exact h
  | cons e events ih => exact ih ((lockStep_effect e).keeps_ended h)

/-- The jobs that have written are those that had before and those with a moment of their own. -/
theorem wrote_run (events : List (LockEvent ι κ)) (i : ι) :
    (lockRun job lockOf s events).phase i = .ended .wrote ↔
      i ∈ written (moments job lockOf s events) ∨ s.phase i = .ended .wrote := by
  induction events generalizing s with
  | nil => simp [lockRun, moments, written]
  | cons e events ih =>
    show (lockRun job lockOf (lockStep job lockOf s e) events).phase i = _ ↔ _
    rw [ih, (lockStep_effect e).wrote_iff, moments, written_append, List.mem_append,
      mem_written_toList]
    tauto

/-- A job that has ended has no moment any more. -/
theorem filter_isOf_of_ended {outcome : Outcome} (h : s.phase i = .ended outcome)
    (events : List (LockEvent ι κ)) :
    (moments job lockOf s events).filter (Moment.isOf i) = [] := by
  induction events generalizing s with
  | nil => rfl
  | cons e events ih =>
    have heffect : Effect job lockOf s e _ _ := lockStep_effect e
    rw [moments, List.filter_append, ih (heffect.keeps_ended h), List.append_nil]
    exact List.filter_eq_nil_iff.mpr fun m hm => by
      rw [Option.mem_toList.mp hm] at heffect
      exact heffect.not_isOf_of_ended h

/-- A job that writes has looked once, before, and writes once. -/
theorem filter_isOf_of_wrote (hstart : s.phase i ≠ .ended .wrote) (events : List (LockEvent ι κ))
    (hend : (lockRun job lockOf s events).phase i = .ended .wrote) :
    (moments job lockOf s events).filter (Moment.isOf i) = (s.phase i).ahead i ++ [.rewrite i] := by
  induction events generalizing s with
  | nil => exact absurd hend hstart
  | cons e events ih =>
    have heffect : Effect job lockOf s e _ _ := lockStep_effect e
    have hrest : (lockRun job lockOf (lockStep job lockOf s e) events).phase i = .ended .wrote := hend
    rw [moments, List.filter_append]
    by_cases hnow : (lockStep job lockOf s e).phase i = .ended .wrote
    · obtain hmoment | hbefore := heffect.wrote_iff.mp hnow
      · rw [hmoment] at heffect ⊢
        rw [filter_isOf_of_ended hnow, heffect.ahead_of_rewrite, Option.toList_some]
        simp [Moment.isOf]
      · exact absurd hbefore hstart
    · rw [ih hnow hrest, ← List.append_assoc, heffect.ahead_eq hnow]
      intro outcome hended
      have hlater : (lockRun job lockOf (lockStep job lockOf s e) events).phase i = .ended outcome :=
        ended_run hended events
      rw [hrest] at hlater
      rw [← hlater] at hended
      exact hnow hended

/-- What every job makes of a good look and a good row is a good row: then all rows stay good, and all
looks.  Only the jobs that write on the way have to be asked. -/
theorem Locked.keeps {P : κ → ν → Prop} {Q : ι → ν → Prop} (h : Locked job lockOf s)
    (hrows : ∀ k v, s.rows k = some v → P k v)
    (hlooks : ∀ i first, (s.phase i).first = some first → Q i first)
    (hlook : ∀ i v, P (job i).row v → Q i v) (events : List (LockEvent ι κ))
    (hmerge : ∀ i first v v', s.phase i ≠ .ended .wrote →
      (lockRun job lockOf s events).phase i = .ended .wrote → Q i first → P (job i).row v →
        (job i).merge first v = some v' → P (job i).row v') :
    (∀ k v, (lockRun job lockOf s events).rows k = some v → P k v) ∧
      ∀ i first, ((lockRun job lockOf s events).phase i).first = some first → Q i first := by
  induction events generalizing s with
  | nil => exact ⟨hrows, hlooks⟩
  | cons e events ih =>
    have heffect : Effect job lockOf s e _ _ := lockStep_effect e
    refine ih (h.effect heffect) ?_ ?_ fun i first v v' hbefore hafter =>
      hmerge i first v v' (fun hended => hbefore (heffect.keeps_ended hended)) hafter
    · refine heffect.keeps_rows hrows fun i first v v' w hphase hm hrow hnow => ?_
      obtain hsame | hgone := h.fresh i first v hphase
      · refine hmerge i first v v' ?_ (ended_run hnow events) (hlooks i first (by rw [hphase]; rfl))
          (hrows _ v hsame) hm
        rw [hphase]
        exact fun heq => nomatch heq
      · rw [hgone] at hrow
        cases hrow
    · exact heffect.keeps_first hlooks fun i v hrow => hlook i v (hrows _ v hrow)

theorem MissingGone.run (h : MissingGone job s) (events : List (LockEvent ι κ)) :
    MissingGone job (lockRun job lockOf s events) := by
  induction events generalizing s with
  | nil => exact h
  | cons e events ih => exact ih (h.effect (lockStep_effect e))

end Clemvion.Library
