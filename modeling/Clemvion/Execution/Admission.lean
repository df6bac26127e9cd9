import Mathlib.Data.List.Nodup
import Mathlib.Logic.Function.Basic
import Clemvion.Execution.StateMachine
import Clemvion.Js.Value

/-!
# Admission — how many executions of a workspace and of a workflow run at once

A queued execution is admitted by one transaction: it takes the advisory lock of its workspace, counts
the running executions of the workspace and of the workflow, and takes its own row from `pending` to
`running` if both counts leave room.  Everything else that happens to executions happens without that
lock, also between the count and the commit: rows come and go, end, park and are resumed.
-/

namespace Clemvion.Execution

open Js ExecutionStatus

/-! ## 1. The gate -/

def defaultWorkspaceMaxConcurrentExecutions : Nat := 10

def defaultWorkflowMaxConcurrentExecutions : Nat := 3

/-- Positive integers are caps; anything else leaves the default. -/
def resolveConcurrencyCap (settings : Value) (defaultCap : Nat) : Nat :=
  match settings.field "maxConcurrentExecutions" with
  | .num (.finite q) => if q.den = 1 ∧ 0 < q.num then q.num.toNat else defaultCap
  | _ => defaultCap

/-- What does not change: the workflow of an execution, and the workspace of a workflow, if the workflow
is still there. -/
structure Catalog where
  workflowOf : (executionId : String) → String
  workspaceOf : (workflowId : String) → Option String

def Catalog.workspaceId (c : Catalog) (executionId : String) : Option String :=
  c.workspaceOf (c.workflowOf executionId)

def Catalog.lockKey (c : Catalog) (executionId : String) : String :=
  "exec-cap:" ++ (c.workspaceId executionId).getD (c.workflowOf executionId)

/-- One delivery of an `execution-run` job to the gate, with the caps it has loaded. -/
structure AdmissionRequest where
  executionId : String
  wsCap : Nat
  wfCap : Nat

inductive AdmissionPhase
  | waiting
  | locked
  /-- The counts have been taken; is there room? -/
  | counted (room : Bool)
  /-- The row is updated and locked, or no row matched. -/
  | updated (row : Bool)
  | admitted | deferred | failed
  deriving DecidableEq

/-- Inside its transaction. -/
def AdmissionPhase.active : AdmissionPhase → Bool
  | .locked | .counted _ | .updated _ => true
  | _ => false

structure AdmissionState (ι lock : Type) where
  /-- All executions there have been. -/
  ids : List String
  status : String → Option ExecutionStatus
  /-- It was admitted, and has been running ever since. -/
  admitted : String → Bool
  holder : lock → Option ι
  phase : ι → AdmissionPhase

inductive AdmissionEvent (ι : Type)
  | acquire (i : ι) | count (i : ι) | update (i : ι) | commit (i : ι) | fail (i : ι)
  /-- Any other transaction. -/
  | insert (executionId : String)
  | write (executionId : String) (status : ExecutionStatus)
  | delete (executionId : String)

namespace AdmissionState

variable {ι lock : Type} [DecidableEq ι] [DecidableEq lock] (c : Catalog) (hashtext : String → lock)
  (request : ι → AdmissionRequest)

/-- No execution, and no delivery under way. -/
def start : AdmissionState ι lock := ⟨[], fun _ => none, fun _ => false, fun _ => none, fun _ => .waiting⟩

/-- `SELECT COUNT(*) … WHERE … AND status = 'running'`. -/
def runningCount (s : AdmissionState ι lock) (p : String → Bool) : Nat :=
  s.ids.countP fun id => p id && s.status id == some running

def inWorkspace (workspaceId : String) (executionId : String) : Bool :=
  c.workspaceId executionId == some workspaceId

def inWorkflow (workflowId : String) (executionId : String) : Bool := c.workflowOf executionId == workflowId

/-- The two comparisons; a workspace that is `NULL` has no executions. -/
def hasRoom (s : AdmissionState ι lock) (r : AdmissionRequest) : Bool :=
  (match c.workspaceId r.executionId with
    | some workspaceId => decide (s.runningCount (inWorkspace c workspaceId) < r.wsCap)
    | none => decide (0 < r.wsCap)) &&
    decide (s.runningCount (inWorkflow c (c.workflowOf r.executionId)) < r.wfCap)

/-- The lock under which `i` works. -/
def lockOf (i : ι) : lock := hashtext (c.lockKey (request i).executionId)

/-- The transaction of `i` ends, and its lock with it. -/
def finish (s : AdmissionState ι lock) (i : ι) (p : AdmissionPhase) : AdmissionState ι lock :=
  { s with
    holder := Function.update s.holder (lockOf c hashtext request i) none
    phase := Function.update s.phase i p }

/-- The execution is running from now on, by its admission. -/
def setRunning (s : AdmissionState ι lock) (executionId : String) : AdmissionState ι lock :=
  { s with
    status := Function.update s.status executionId (some running)
    admitted := Function.update s.admitted executionId true }

/-- The row is locked by an admission that has updated it: other writes of it have to wait. -/
def Blocked (s : AdmissionState ι lock) (executionId : String) : Prop :=
  ∃ i, s.phase i = .updated true ∧ (request i).executionId = executionId

variable {c hashtext request}

/-- What one event does; where it cannot happen, there is no next state. -/
inductive Step (c : Catalog) (hashtext : String → lock) (request : ι → AdmissionRequest)
    (s : AdmissionState ι lock) : AdmissionEvent ι → AdmissionState ι lock → Prop
  | acquire (i : ι) (hphase : s.phase i = .waiting)
      (hfree : s.holder (lockOf c hashtext request i) = none) :
      Step c hashtext request s (.acquire i)
        { s with
          holder := Function.update s.holder (lockOf c hashtext request i) (some i)
          phase := Function.update s.phase i .locked }
  | count (i : ι) (hphase : s.phase i = .locked) :
      Step c hashtext request s (.count i)
        { s with phase := Function.update s.phase i (.counted (s.hasRoom c (request i))) }
  | update (i : ι) (room : Bool) (hphase : s.phase i = .counted room) :
      Step c hashtext request s (.update i)
        { s with
          phase := Function.update s.phase i
            (.updated (room && s.status (request i).executionId == some pending)) }
  | letIn (i : ι) (hphase : s.phase i = .updated true) :
      Step c hashtext request s (.commit i)
        (finish c hashtext request (s.setRunning (request i).executionId) i .admitted)
  | defer (i : ι) (hphase : s.phase i = .updated false) :
      Step c hashtext request s (.commit i) (finish c hashtext request s i .deferred)
  | fail (i : ι) (hactive : (s.phase i).active = true) :
      Step c hashtext request s (.fail i) (finish c hashtext request s i .failed)
  | insert (executionId : String) (hnew : executionId ∉ s.ids) :
      Step c hashtext request s (.insert executionId)
        { s with
          ids := executionId :: s.ids
          status := Function.update s.status executionId (some pending)
          admitted := Function.update s.admitted executionId false }
  | write (executionId : String) (status : ExecutionStatus) (hthere : s.status executionId ≠ none)
      (hpending : status ≠ pending) (hfree : ¬s.Blocked request executionId) :
      Step c hashtext request s (.write executionId status)
        { s with
          status := Function.update s.status executionId (some status)
          admitted := Function.update s.admitted executionId
            (s.admitted executionId && s.status executionId == some running && status == running) }
  | delete (executionId : String) (hfree : ¬s.Blocked request executionId) :
      Step c hashtext request s (.delete executionId)
        { s with
          status := Function.update s.status executionId none
          admitted := Function.update s.admitted executionId false }

/-- The states of a run. -/
inductive Run (c : Catalog) (hashtext : String → lock) (request : ι → AdmissionRequest) :
    AdmissionState ι lock → Prop
  | start : Run c hashtext request start
  | step {s s' : AdmissionState ι lock} {e : AdmissionEvent ι} (h : Run c hashtext request s)
      (hstep : Step c hashtext request s e s') : Run c hashtext request s'

/-! ## 2. One admission at a time under a lock -/

variable {s s' : AdmissionState ι lock} {e : AdmissionEvent ι} {i j : ι}

/-- Active requests hold their locks. -/
def Holds (c : Catalog) (hashtext : String → lock) (request : ι → AdmissionRequest)
    (s : AdmissionState ι lock) : Prop :=
  ∀ i, (s.phase i).active = true → s.holder (lockOf c hashtext request i) = some i

omit [DecidableEq ι] [DecidableEq lock] in
/-- Two active requests have different locks. -/
theorem Holds.eq_of_lock (h : Holds c hashtext request s) (hi : (s.phase i).active = true)
    (hj : (s.phase j).active = true)
    (heq : lockOf c hashtext request j = lockOf c hashtext request i) : j = i := by
  have hholder := h j hj
  rw [heq, h i hi] at hholder
  exact (Option.some.inj hholder).symm

/-- The end of an active request. -/
theorem Holds.finish (h : Holds c hashtext request s) (hi : (s.phase i).active = true)
    {p : AdmissionPhase} (hp : p.active = false) :
    Holds c hashtext request (finish c hashtext request s i p) := by
  intro j hj
  change (Function.update s.phase i p j).active = true at hj
  show Function.update s.holder (lockOf c hashtext request i) none _ = some j
  by_cases hji : j = i
  · rw [hji, Function.update_self, hp] at hj
    cases hj
  · rw [Function.update_of_ne hji] at hj
    rw [Function.update_of_ne fun heq => hji (h.eq_of_lock hi hj heq)]
    exact h j hj

omit [DecidableEq lock] in
/-- An active request that goes on. -/
theorem Holds.proceed (h : Holds c hashtext request s) (hi : (s.phase i).active = true)
    (p : AdmissionPhase) :
    Holds c hashtext request { s with phase := Function.update s.phase i p } := by
  intro j hj
  change (Function.update s.phase i p j).active = true at hj
  by_cases hji : j = i
  · rw [hji]
    exact h i hi
  · rw [Function.update_of_ne hji] at hj
    exact h j hj

theorem Holds.step (h : Holds c hashtext request s) (hstep : Step c hashtext request s e s') :
    Holds c hashtext request s' := by
  cases hstep with
  | acquire i hphase hfree =>
    intro j hj
    change (Function.update s.phase i .locked j).active = true at hj
    show Function.update s.holder (lockOf c hashtext request i) (some i) _ = some j
    by_cases hji : j = i
    · rw [hji, Function.update_self]
    · rw [Function.update_of_ne hji] at hj
      have hlock : lockOf c hashtext request j ≠ lockOf c hashtext request i := by
        intro heq
        have hholder := h j hj
        rw [heq, hfree] at hholder
        cases hholder
      rw [Function.update_of_ne hlock]
      exact h j hj
  | count i hphase => exact h.proceed (by rw [hphase]; rfl) _
  | update i room hphase => exact h.proceed (by rw [hphase]; rfl) _
  | letIn i hphase =>
    have hmoved : Holds c hashtext request (s.setRunning (request i).executionId) := h
    exact hmoved.finish (show (s.phase i).active = true by rw [hphase]; rfl) rfl
  | defer i hphase => exact h.finish (by rw [hphase]; rfl) rfl
  | fail i hactive => exact h.finish hactive rfl
  | insert executionId hnew => exact h
  | write executionId status hthere hpending hfree => exact h
  | delete executionId hfree => exact h

/-- Every execution there is has been inserted, once. -/
structure Listed (s : AdmissionState ι lock) : Prop where
  nodup : s.ids.Nodup
  mem : ∀ id, s.status id ≠ none → id ∈ s.ids

omit [DecidableEq ι] [DecidableEq lock] in
theorem Listed.set (h : Listed s) {id : String} (hmem : id ∈ s.ids) (status : Option ExecutionStatus)
    (admitted : String → Bool) (holder : lock → Option ι) (phase : ι → AdmissionPhase) :
    Listed ⟨s.ids, Function.update s.status id status, admitted, holder, phase⟩ := by
  refine ⟨h.nodup, fun id' hid' => ?_⟩
  change Function.update s.status id status id' ≠ none at hid'
  by_cases hsame : id' = id
  · rw [hsame]
    exact hmem
  · rw [Function.update_of_ne hsame] at hid'
    exact h.mem id' hid'

/-- An updated row was `pending`, and its lock keeps it so. -/
def RowKept (request : ι → AdmissionRequest) (s : AdmissionState ι lock) : Prop :=
  ∀ i, s.phase i = .updated true → s.status (request i).executionId = some pending

theorem Listed.step (h : Listed s) (hrow : RowKept request s)
    (hstep : Step c hashtext request s e s') : Listed s' := by
  cases hstep with
  | acquire | count | update | defer | fail => exact ⟨h.nodup, h.mem⟩
  | letIn i hphase =>
    exact h.set (h.mem _ (by rw [hrow i hphase]; simp)) (some running) _ _ _
  | insert executionId hnew =>
    refine ⟨List.nodup_cons.mpr ⟨hnew, h.nodup⟩, fun id hid => ?_⟩
    change Function.update s.status executionId (some pending) id ≠ none at hid
    by_cases hsame : id = executionId
    · rw [hsame]
      exact List.mem_cons_self
    · rw [Function.update_of_ne hsame] at hid
      exact List.mem_cons_of_mem _ (h.mem id hid)
  | write executionId status hthere hpending hfree => exact h.set (h.mem _ hthere) _ _ _ _
  | delete executionId hfree =>
    refine ⟨h.nodup, fun id hid => ?_⟩
    change Function.update s.status executionId none id ≠ none at hid
    by_cases hsame : id = executionId
    · rw [hsame, Function.update_self] at hid
      exact absurd rfl hid
    · rw [Function.update_of_ne hsame] at hid
      exact h.mem id hid

omit [DecidableEq lock] in
theorem phase_of_update {p : AdmissionPhase} (hp : p ≠ .updated true)
    (hj : Function.update s.phase i p j = .updated true) : s.phase j = .updated true := by
  by_cases hji : j = i
  · rw [hji, Function.update_self] at hj
    exact absurd hj hp
  · rwa [Function.update_of_ne hji] at hj

theorem RowKept.step (h : RowKept request s) (hlisted : Listed s) (hholds : Holds c hashtext request s)
    (hstep : Step c hashtext request s e s') : RowKept request s' := by
  cases hstep with
  | acquire i | count i | defer i | fail i => exact fun j hj => h j (phase_of_update (by simp) hj)
  | update i room hphase =>
    intro j hj
    change Function.update s.phase i _ j = _ at hj
    by_cases hji : j = i
    · rw [hji, Function.update_self] at hj
      have hrow := AdmissionPhase.updated.inj hj
      rw [Bool.and_eq_true, beq_iff_eq] at hrow
      rw [hji]
      exact hrow.2
    · rw [Function.update_of_ne hji] at hj
      exact h j hj
  | letIn i hphase =>
    intro j hj
    have hji : j ≠ i := by
      rintro rfl
      change Function.update s.phase j .admitted j = _ at hj
      rw [Function.update_self] at hj
      cases hj
    have hbefore : s.phase j = .updated true := phase_of_update (by simp) hj
    -- a request for the same execution works under the same lock
    have hid : (request j).executionId ≠ (request i).executionId := by
      intro heq
      have hlock : lockOf c hashtext request j = lockOf c hashtext request i := by
        unfold lockOf
        rw [heq]
      exact hji (hholds.eq_of_lock (by rw [hphase]; rfl) (by rw [hbefore]; rfl) hlock)
    exact (Function.update_of_ne hid _ _).trans (h j hbefore)
  | insert executionId hnew =>
    intro j hj
    have hid : (request j).executionId ≠ executionId := by
      rintro rfl
      exact hnew (hlisted.mem _ (by rw [h j hj]; simp))
    exact (Function.update_of_ne hid _ _).trans (h j hj)
  | write executionId status hthere hpending hfree =>
    intro j hj
    have hid : (request j).executionId ≠ executionId := fun heq => hfree ⟨j, hj, heq⟩
    exact (Function.update_of_ne hid _ _).trans (h j hj)
  | delete executionId hfree =>
    intro j hj
    have hid : (request j).executionId ≠ executionId := fun heq => hfree ⟨j, hj, heq⟩
    exact (Function.update_of_ne hid _ _).trans (h j hj)

/-- What every state of every run satisfies. -/
structure Sound (c : Catalog) (hashtext : String → lock) (request : ι → AdmissionRequest)
    (s : AdmissionState ι lock) : Prop where
  holds : Holds c hashtext request s
  listed : Listed s
  row : RowKept request s

theorem Sound.step (h : Sound c hashtext request s) (hstep : Step c hashtext request s e s') :
    Sound c hashtext request s' :=
  ⟨h.holds.step hstep, h.listed.step h.row hstep, h.row.step h.listed h.holds hstep⟩

theorem Run.sound (h : Run c hashtext request s) : Sound c hashtext request s := by
  induction h with
  | start =>
    exact ⟨fun _ hi => Bool.noConfusion hi, ⟨List.nodup_nil, fun _ hid => absurd rfl hid⟩,
      fun _ hi => AdmissionPhase.noConfusion hi⟩
  | step _ hstep ih => exact ih.step hstep

/-! ## 3. The caps -/

/-- Admitted, and running ever since. -/
def fresh (s : AdmissionState ι lock) (executionId : String) : Bool :=
  s.admitted executionId && s.status executionId == some running

/-- The executions of a scope that run by admission. -/
def freshCount (s : AdmissionState ι lock) (p : String → Bool) : Nat :=
  s.ids.countP fun id => p id && s.fresh id

variable {p : String → Bool} {cap : ι → Nat}

omit [DecidableEq ι] [DecidableEq lock] in
theorem freshCount_le_runningCount : s.freshCount p ≤ s.runningCount p := by
  refine List.countP_mono_left fun id _ hid => ?_
  rw [Bool.and_eq_true] at hid ⊢
  exact ⟨hid.1, (Bool.and_eq_true_iff.mp hid.2).2⟩

omit [DecidableEq ι] [DecidableEq lock] in
theorem freshCount_mono {t : AdmissionState ι lock} (hids : t.ids = s.ids)
    (h : ∀ id, p id = true → t.fresh id = true → s.fresh id = true) :
    t.freshCount p ≤ s.freshCount p := by
  unfold freshCount
  rw [hids]
  refine List.countP_mono_left fun id _ hid => ?_
  rw [Bool.and_eq_true] at hid ⊢
  exact ⟨hid.1, h id hid.1 hid.2⟩

/-- One element more at most, where only one is different. -/
theorem countP_le_succ {l : List String} (hl : l.Nodup) {q q' : String → Bool} (a : String)
    (h : ∀ x, x ≠ a → q' x = true → q x = true) : l.countP q' ≤ l.countP q + 1 := by
  induction l with
  | nil => simp
  | cons x l ih =>
    obtain ⟨hx, hl⟩ := List.nodup_cons.mp hl
    by_cases hxa : x = a
    · have hrest : l.countP q' ≤ l.countP q := List.countP_mono_left fun y hy hq =>
        h y (fun heq => hx (by rw [hxa, ← heq]; exact hy)) hq
      rw [List.countP_cons, List.countP_cons]
      split_ifs <;> omega
    · have hrest := ih hl
      have hhead := h x hxa
      rw [List.countP_cons, List.countP_cons]
      split_ifs with hq' hq
      · omega
      · exact absurd (hhead hq') hq
      · omega
      · omega

/-- A scope whose requests all work under one lock, with what its count has to leave room for. -/
structure Scope (c : Catalog) (request : ι → AdmissionRequest) (p : String → Bool) (cap : ι → Nat) :
    Prop where
  lockKey : ∀ id id', p id = true → p id' = true → c.lockKey id = c.lockKey id'
  counted : ∀ {lock : Type} (s : AdmissionState ι lock) (i : ι), p (request i).executionId = true →
    s.hasRoom c (request i) = true → s.runningCount p < cap i

/-- A request of the scope that has found room, and has not used it yet, still has it. -/
def RoomLeft (request : ι → AdmissionRequest) (p : String → Bool) (cap : ι → Nat)
    (s : AdmissionState ι lock) : Prop :=
  ∀ i, p (request i).executionId = true →
    s.phase i = .counted true ∨ s.phase i = .updated true → s.freshCount p < cap i

omit [DecidableEq ι] [DecidableEq lock] in
theorem fresh_setRunning {id executionId : String} (h : id ≠ executionId) :
    (s.setRunning executionId).fresh id = s.fresh id := by
  unfold fresh setRunning
  dsimp only
  rw [Function.update_of_ne h, Function.update_of_ne h]

/-- Only the admission of an execution of the scope makes the scope fuller, by one. -/
theorem freshCount_step (hsound : Sound c hashtext request s)
    (hstep : Step c hashtext request s e s') :
    s'.freshCount p ≤ s.freshCount p ∨
      ∃ i, e = .commit i ∧ s.phase i = .updated true ∧ p (request i).executionId = true ∧
        s'.freshCount p ≤ s.freshCount p + 1 := by
  cases hstep with
  | acquire | count | update | defer | fail => exact .inl le_rfl
  | letIn i hphase =>
    by_cases hpi : p (request i).executionId = true
    · refine .inr ⟨i, rfl, hphase, hpi, ?_⟩
      refine countP_le_succ hsound.listed.nodup (request i).executionId fun id hid hfresh => ?_
      rw [← fresh_setRunning hid]
      exact hfresh
    · refine .inl (freshCount_mono rfl fun id hp hfresh => ?_)
      have hid : id ≠ (request i).executionId := by
        rintro rfl
        exact hpi hp
      rw [← fresh_setRunning hid]
      exact hfresh
  | insert executionId hnew =>
    left
    unfold freshCount
    rw [List.countP_cons_of_neg (by simp [fresh])]
    refine List.countP_mono_left fun id hmem hid => ?_
    have hne : id ≠ executionId := fun heq => hnew (heq ▸ hmem)
    simpa [fresh, Function.update_of_ne hne] using hid
  | write executionId status hthere hpending hfree =>
    refine .inl (freshCount_mono rfl fun id _ hfresh => ?_)
    by_cases hid : id = executionId
    · subst hid
      unfold fresh at hfresh ⊢
      simp only [Function.update_self, Bool.and_eq_true] at hfresh ⊢
      exact hfresh.1.1
    · simpa [fresh, Function.update_of_ne hid] using hfresh
  | delete executionId hfree =>
    refine .inl (freshCount_mono rfl fun id _ hfresh => ?_)
    by_cases hid : id = executionId
    · subst hid
      simp [fresh] at hfresh
    · simpa [fresh, Function.update_of_ne hid] using hfresh

/-- What a step does to the requests that have found room. -/
theorem phase_step (hstep : Step c hashtext request s e s')
    (hj : s'.phase j = .counted true ∨ s'.phase j = .updated true) :
    (s.phase j = .counted true ∨ s.phase j = .updated true) ∧ e ≠ .commit j ∨
      e = .count j ∧ s.hasRoom c (request j) = true := by
  -- a phase that is set to neither is the phase of another request
  have hset : ∀ (i : ι) (q : AdmissionPhase), q ≠ .counted true → q ≠ .updated true →
      Function.update s.phase i q j = .counted true ∨ Function.update s.phase i q j = .updated true →
        (s.phase j = .counted true ∨ s.phase j = .updated true) ∧ j ≠ i := by
    intro i q hcounted hupdated hj
    by_cases hji : j = i
    · rw [hji, Function.update_self] at hj
      exact absurd hj (not_or.mpr ⟨hcounted, hupdated⟩)
    · rw [Function.update_of_ne hji] at hj
      exact ⟨hj, hji⟩
  cases hstep with
  | acquire i hphase hfree => exact .inl ⟨(hset i _ (by simp) (by simp) hj).1, by simp⟩
  | count i hphase =>
    by_cases hji : j = i
    · subst hji
      change Function.update s.phase j _ j = _ ∨ Function.update s.phase j _ j = _ at hj
      rw [Function.update_self] at hj
      exact .inr ⟨rfl, by simpa using hj⟩
    · change Function.update s.phase i _ j = _ ∨ Function.update s.phase i _ j = _ at hj
      rw [Function.update_of_ne hji] at hj
      exact .inl ⟨hj, by simp⟩
  | update i room hphase =>
    by_cases hji : j = i
    · subst hji
      change Function.update s.phase j _ j = _ ∨ Function.update s.phase j _ j = _ at hj
      rw [Function.update_self] at hj
      cases room with
      | true => exact .inl ⟨.inl hphase, by simp⟩
      | false => simp at hj
    · change Function.update s.phase i _ j = _ ∨ Function.update s.phase i _ j = _ at hj
      rw [Function.update_of_ne hji] at hj
      exact .inl ⟨hj, by simp⟩
  | letIn i hphase =>
    obtain ⟨hbefore, hji⟩ := hset i _ (by simp) (by simp) hj
    exact .inl ⟨hbefore, fun heq => hji (AdmissionEvent.commit.inj heq).symm⟩
  | defer i hphase =>
    obtain ⟨hbefore, hji⟩ := hset i _ (by simp) (by simp) hj
    exact .inl ⟨hbefore, fun heq => hji (AdmissionEvent.commit.inj heq).symm⟩
  | fail i hactive => exact .inl ⟨(hset i _ (by simp) (by simp) hj).1, by simp⟩
  | insert executionId hnew => exact .inl ⟨hj, by simp⟩
  | write executionId status hthere hpending hfree => exact .inl ⟨hj, by simp⟩
  | delete executionId hfree => exact .inl ⟨hj, by simp⟩

theorem RoomLeft.step (hscope : Scope c request p cap) (h : RoomLeft request p cap s)
    (hsound : Sound c hashtext request s) (hstep : Step c hashtext request s e s') :
    RoomLeft request p cap s' := by
  intro j hp hj
  obtain ⟨hbefore, hcommit⟩ | ⟨hcount, hroom⟩ := phase_step hstep hj
  · obtain hle | ⟨i, he, hphase, hpi, -⟩ := freshCount_step (p := p) hsound hstep
    · exact lt_of_le_of_lt hle (h j hp hbefore)
    · -- the request that is admitted would work under the same lock
      have hlock : lockOf c hashtext request j = lockOf c hashtext request i :=
        congrArg hashtext (hscope.lockKey _ _ hp hpi)
      have hactive : (s.phase j).active = true := by
        obtain hj | hj := hbefore <;> rw [hj] <;> rfl
      have hji := hsound.holds.eq_of_lock (by rw [hphase]; rfl) hactive hlock
      exact absurd (hji ▸ he) hcommit
  · -- the count is of this very moment
    obtain hle | ⟨i, he, hphase, -⟩ := freshCount_step (p := p) hsound hstep
    · exact lt_of_le_of_lt (hle.trans freshCount_le_runningCount) (hscope.counted s j hp hroom)
    · rw [hcount] at he
      cases he

theorem Run.roomLeft (hscope : Scope c request p cap) (h : Run c hashtext request s) :
    RoomLeft request p cap s := by
  induction h with
  | start => exact fun _ _ hi => hi.elim (fun h => AdmissionPhase.noConfusion h) fun h =>
      AdmissionPhase.noConfusion h
  | step hrun hstep ih => exact ih.step hscope hrun.sound hstep

/-- No scope gets fuller by admissions than the largest cap of its requests. -/
theorem Run.freshCount_le (hscope : Scope c request p cap) {bound : Nat}
    (hbound : ∀ i, p (request i).executionId = true → cap i ≤ bound) (h : Run c hashtext request s) :
    s.freshCount p ≤ bound := by
  induction h with
  | start => exact Nat.zero_le _
  | step hrun hstep ih =>
    obtain hle | ⟨i, -, hphase, hpi, hle⟩ := freshCount_step (p := p) hrun.sound hstep
    · exact hle.trans ih
    · have hroom := hrun.roomLeft hscope i hpi (.inr hphase)
      have hcap := hbound i hpi
      omega

omit [DecidableEq ι] in
theorem workspaceScope (c : Catalog) (request : ι → AdmissionRequest) (workspaceId : String) :
    Scope c request (inWorkspace c workspaceId) fun i => (request i).wsCap := by
  refine ⟨fun id id' hid hid' => ?_, fun s i hi hroom => ?_⟩
  · unfold inWorkspace at hid hid'
    unfold Catalog.lockKey
    rw [eq_of_beq hid, eq_of_beq hid']
    rfl
  · unfold inWorkspace at hi
    unfold hasRoom at hroom
    rw [eq_of_beq hi, Bool.and_eq_true] at hroom
    exact of_decide_eq_true hroom.1

omit [DecidableEq ι] in
theorem workflowScope (c : Catalog) (request : ι → AdmissionRequest) (workflowId : String) :
    Scope c request (inWorkflow c workflowId) fun i => (request i).wfCap := by
  refine ⟨fun id id' hid hid' => ?_, fun s i hi hroom => ?_⟩
  · unfold inWorkflow at hid hid'
    unfold Catalog.lockKey Catalog.workspaceId
    rw [eq_of_beq hid, eq_of_beq hid']
  · unfold inWorkflow at hi
    unfold hasRoom at hroom
    rw [Bool.and_eq_true, eq_of_beq hi] at hroom
    exact of_decide_eq_true hroom.2

/-- In every state of every interleaving, the executions of a workspace, and those of a workflow, that run
by admission are no more than the largest cap with which requests of it came to the gate. -/
theorem admission_caps (h : Run c hashtext request s) :
    (∀ workspaceId bound, (∀ i, c.workspaceId (request i).executionId = some workspaceId →
        (request i).wsCap ≤ bound) → s.freshCount (inWorkspace c workspaceId) ≤ bound) ∧
      ∀ workflowId bound, (∀ i, c.workflowOf (request i).executionId = workflowId →
        (request i).wfCap ≤ bound) → s.freshCount (inWorkflow c workflowId) ≤ bound :=
  ⟨fun workspaceId _ hbound => h.freshCount_le (workspaceScope c request workspaceId) fun i hi =>
      hbound i (eq_of_beq hi),
    fun workflowId _ hbound => h.freshCount_le (workflowScope c request workflowId) fun i hi =>
      hbound i (eq_of_beq hi)⟩

/-- One workflow of one workspace. -/
def oneWorkflow : Catalog := ⟨fun _ => "wf", fun _ => some "ws"⟩

/-- Two deliveries for two executions, with a cap of one. -/
def twoDeliveries : Bool → AdmissionRequest
  | false => ⟨"a", 1, 1⟩
  | true => ⟨"b", 1, 1⟩

/-- The first is admitted, and the second finds no room. -/
theorem admission_caps_one : ∃ s : AdmissionState Bool String,
    s.phase false = .admitted ∧ s.phase true = .deferred ∧
      s.freshCount (inWorkspace oneWorkflow "ws") ≤ 1 := by
  have hrun : Run oneWorkflow (fun key => key) twoDeliveries _ :=
    (((((((((Run.start.step (.insert "a" (by decide))).step (.insert "b" (by decide))).step
      (.acquire false rfl rfl)).step (.count false rfl)).step (.update false true rfl)).step
      (.letIn false rfl)).step (.acquire true rfl rfl)).step (.count true rfl)).step
      (.update true false rfl)).step (.defer true rfl)
  exact ⟨_, rfl, rfl, (admission_caps hrun).1 "ws" 1 (by decide)⟩

/-! ## 4. At most one admission -/

/-- An execution that has been admitted is listed and not `pending` any more, and nobody else has been
told that it was admitted. -/
structure AdmittedOnce (request : ι → AdmissionRequest) (s : AdmissionState ι lock) : Prop where
  gone : ∀ i, s.phase i = .admitted → (request i).executionId ∈ s.ids ∧
    s.status (request i).executionId ≠ some pending
  once : ∀ i j, s.phase i = .admitted → s.phase j = .admitted →
    (request i).executionId = (request j).executionId → i = j

omit [DecidableEq lock] in
theorem admitted_of_update {p : AdmissionPhase} (hp : p ≠ .admitted)
    (hj : Function.update s.phase i p j = .admitted) : s.phase j = .admitted := by
  by_cases hji : j = i
  · rw [hji, Function.update_self] at hj
    exact absurd hj hp
  · rwa [Function.update_of_ne hji] at hj

theorem AdmittedOnce.step (h : AdmittedOnce request s) (hsound : Sound c hashtext request s)
    (hstep : Step c hashtext request s e s') : AdmittedOnce request s' := by
  cases hstep with
  | acquire i | count i | update i | defer i | fail i =>
    exact ⟨fun j hj => h.gone j (admitted_of_update (by simp) hj), fun j k hj hk =>
      h.once j k (admitted_of_update (by simp) hj) (admitted_of_update (by simp) hk)⟩
  | letIn i hphase =>
    have hpending := hsound.row i hphase
    have hlisted : (request i).executionId ∈ s.ids := hsound.listed.mem _ (by rw [hpending]; simp)
    -- whoever was admitted before has another execution
    have hother : ∀ j, j ≠ i → Function.update s.phase i .admitted j = .admitted →
        s.phase j = .admitted ∧ (request j).executionId ≠ (request i).executionId := by
      intro j hji hj
      rw [Function.update_of_ne hji] at hj
      exact ⟨hj, fun heq => (h.gone j hj).2 (by rw [heq]; exact hpending)⟩
    refine ⟨fun j hj => ?_, fun j k hj hk heq => ?_⟩
    · change Function.update s.phase i .admitted j = _ at hj
      show (request j).executionId ∈ s.ids ∧ Function.update s.status _ _ _ ≠ _
      by_cases hji : j = i
      · rw [hji, Function.update_self]
        exact ⟨hlisted, by simp⟩
      · obtain ⟨hbefore, hne⟩ := hother j hji hj
        rw [Function.update_of_ne hne]
        exact h.gone j hbefore
    · change Function.update s.phase i .admitted j = _ at hj
      change Function.update s.phase i .admitted k = _ at hk
      by_cases hji : j = i
      · by_cases hki : k = i
        · rw [hji, hki]
        · rw [hji] at heq
          exact absurd heq.symm (hother k hki hk).2
      · by_cases hki : k = i
        · rw [hki] at heq
          exact absurd heq (hother j hji hj).2
        · exact h.once j k (hother j hji hj).1 (hother k hki hk).1 heq
  | insert executionId hnew =>
    refine ⟨fun j hj => ?_, h.once⟩
    obtain ⟨hmem, hne⟩ := h.gone j hj
    have hid : (request j).executionId ≠ executionId := by
      rintro rfl
      exact hnew hmem
    refine ⟨List.mem_cons_of_mem _ hmem, ?_⟩
    show Function.update s.status executionId (some pending) _ ≠ _
    rw [Function.update_of_ne hid]
    exact hne
  | write executionId status hthere hpending hfree =>
    refine ⟨fun j hj => ?_, h.once⟩
    obtain ⟨hmem, hne⟩ := h.gone j hj
    refine ⟨hmem, ?_⟩
    show Function.update s.status executionId (some status) _ ≠ _
    by_cases hid : (request j).executionId = executionId
    · rw [hid, Function.update_self]
      exact fun heq => hpending (Option.some.inj heq)
    · rw [Function.update_of_ne hid]
      exact hne
  | delete executionId hfree =>
    refine ⟨fun j hj => ?_, h.once⟩
    obtain ⟨hmem, hne⟩ := h.gone j hj
    refine ⟨hmem, ?_⟩
    show Function.update s.status executionId none _ ≠ _
    by_cases hid : (request j).executionId = executionId
    · rw [hid, Function.update_self]
      simp
    · rw [Function.update_of_ne hid]
      exact hne

/-- However often an `execution-run` job is delivered, at most one delivery is told to run the execution. -/
theorem admitted_at_most_once (h : Run c hashtext request s) (i j : ι)
    (hi : s.phase i = .admitted) (hj : s.phase j = .admitted)
    (hsame : (request i).executionId = (request j).executionId) : i = j := by
  have honce : AdmittedOnce request s := by
    clear hi hj hsame
    induction h with
    | start =>
      exact ⟨fun _ hi => AdmissionPhase.noConfusion hi, fun _ _ hi => AdmissionPhase.noConfusion hi⟩
    | step hrun hstep ih => exact ih.step hrun.sound hstep
  exact honce.once i j hi hj hsame

/-- The same job delivered twice. -/
def sameDelivery (_ : Bool) : AdmissionRequest := ⟨"a", 2, 2⟩

/-- The second delivery is deferred, so the one that is admitted is the first. -/
theorem admitted_at_most_once_redelivered : ∃ s : AdmissionState Bool String,
    s.phase true = .deferred ∧ ∀ i, s.phase i = .admitted → i = false := by
  have hrun : Run oneWorkflow (fun key => key) sameDelivery _ :=
    ((((((((Run.start.step (.insert "a" (by decide))).step
      (.acquire false rfl rfl)).step (.count false rfl)).step (.update false true rfl)).step
      (.letIn false rfl)).step (.acquire true rfl rfl)).step (.count true rfl)).step
      (.update true true rfl)).step (.defer true rfl)
  exact ⟨_, rfl, fun i hi => admitted_at_most_once hrun i false hi rfl rfl⟩

end AdmissionState

end Clemvion.Execution
