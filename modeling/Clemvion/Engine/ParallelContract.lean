import Clemvion.Engine.ParallelExecutor

/-!
# ParallelContract — what holds of the branches in every order of events

The limiter starts each body at most once and never too many at a time; the slots record how each
branch settled; a cancellation is always rethrown.  The error that `cancel-others-on-fail` throws
is picked by branch number among the errors not named `AbortError`, which is the first failure in
time only when no other failure gets in its way.
-/

open Clemvion.Library

namespace Clemvion.Engine

variable {L : Limiter} {call : ParallelCall} {s s' : ParallelState L}

namespace ParallelCall

theorem running_nodup (h : s.started.Nodup) : (running s).Nodup := h.filter _

theorem mem_running {i : Nat} : i ∈ running s ↔ i ∈ s.started ∧ s.slots i = none := by
  simp [running]

theorem isRunning_iff {i : Nat} : isRunning s i = true ↔ i ∈ running s := by
  simp [isRunning, mem_running]

/-! ## 1. The history -/

/-- The slots are the history read by branch, and no branch settles twice. -/
structure HistoryOk (n : Nat) (slots : Nat → Option Settlement) (history : List (Nat × Settlement)) :
    Prop where
  slots_iff : ∀ i settlement, slots i = some settlement ↔ (i, settlement) ∈ history
  nodup : (history.map Prod.fst).Nodup
  lt : ∀ entry ∈ history, entry.1 < n

theorem HistoryOk.settle {n : Nat} {slots : Nat → Option Settlement}
    {history : List (Nat × Settlement)} {i : Nat} (h : HistoryOk n slots history)
    (hopen : slots i = none) (hlt : i < n) (settlement : Settlement) :
    HistoryOk n (Function.update slots i (some settlement)) ((i, settlement) :: history) := by
  have hfresh : ∀ settlement', (i, settlement') ∉ history := by
    intro settlement' hmem
    rw [← h.slots_iff, hopen] at hmem
    exact absurd hmem (by simp)
  constructor
  · intro j settlement'
    by_cases hij : j = i
    · subst hij
      rw [Function.update_self, List.mem_cons]
      constructor
      · intro heq
        exact .inl (congrArg (Prod.mk j) (Option.some.inj heq).symm)
      · rintro (heq | hmem)
        · exact congrArg some (congrArg Prod.snd heq).symm
        · exact absurd hmem (hfresh settlement')
    · rw [Function.update_of_ne hij, List.mem_cons, h.slots_iff]
      constructor
      · exact .inr
      · rintro (heq | hmem)
        · exact absurd (congrArg Prod.fst heq) hij
        · exact hmem
  · rw [List.map_cons, List.nodup_cons]
    refine ⟨?_, h.nodup⟩
    intro hmem
    obtain ⟨entry, hentry, hfst⟩ := List.mem_map.mp hmem
    have hkey : entry.1 = i := hfst
    rw [← hkey] at hfresh
    exact hfresh entry.2 hentry
  · intro entry hentry
    rcases List.mem_cons.mp hentry with rfl | hold
    · exact hlt
    · exact h.lt entry hold

/-! ## 2. The invariant of a run -/

structure RunInvariant (call : ParallelCall) (s : ParallelState L) : Prop where
  concurrency : L.concurrency s.limiter = call.effectiveConcurrency
  pending_nodup : (L.pending s.limiter).Nodup
  pending_lt : ∀ i ∈ L.pending s.limiter, i < call.config.branches
  pending_fresh : ∀ i ∈ L.pending s.limiter, i ∉ s.started ∧ s.slots i = none
  started_nodup : s.started.Nodup
  started_lt : ∀ i ∈ s.started, i < call.config.branches
  active : (L.active s.limiter).Perm (running s)
  limit : (L.active s.limiter).length ≤ call.effectiveConcurrency
  history : HistoryOk call.config.branches s.slots s.history

variable (hL : L.Lawful)
include hL

theorem runInvariant_initial : RunInvariant call (call.initial L) where
  concurrency := (Limiter.enqueueAll_concurrency hL).trans (hL.create_concurrency _)
  pending_nodup := by
    unfold initial
    rw [Limiter.enqueueAll_pending hL, hL.create_pending, List.nil_append]
    exact List.nodup_range
  pending_lt := by
    unfold initial
    rw [Limiter.enqueueAll_pending hL, hL.create_pending, List.nil_append]
    exact fun i hi => List.mem_range.mp hi
  pending_fresh := fun _ _ => ⟨List.not_mem_nil, rfl⟩
  started_nodup := List.nodup_nil
  started_lt := fun _ h => absurd h List.not_mem_nil
  active := by
    unfold initial
    rw [Limiter.enqueueAll_active hL, hL.create_active]
    rfl
  limit := by
    unfold initial
    rw [Limiter.enqueueAll_active hL, hL.create_active]
    exact Nat.zero_le _
  history := ⟨by simp [initial], List.nodup_nil, by simp [initial]⟩

/-- What a call of the limiter tells about the task. -/
theorem called_facts {i : Nat} {limiter : L.State} (h : RunInvariant call s)
    (hcall : L.call s.limiter i = some limiter) :
    i < call.config.branches ∧ i ∉ s.started ∧ s.slots i = none ∧
      (L.pending limiter).Nodup ∧ i ∉ L.pending limiter ∧
      ∀ j ∈ L.pending limiter, j ∈ L.pending s.limiter := by
  have hpending := hL.call_pending _ _ _ hcall
  have hmem : i ∈ L.pending s.limiter := hpending.symm.subset List.mem_cons_self
  obtain ⟨hfresh, hrest⟩ := List.nodup_cons.mp (hpending.nodup_iff.mp h.pending_nodup)
  obtain ⟨hstarted, hslot⟩ := h.pending_fresh i hmem
  exact ⟨h.pending_lt i hmem, hstarted, hslot, hrest, hfresh,
    fun j hj => hpending.symm.subset (List.mem_cons_of_mem _ hj)⟩

theorem runInvariant_start {i : Nat} {limiter : L.State} (h : RunInvariant call s)
    (hcall : L.call s.limiter i = some limiter) :
    RunInvariant call { s with limiter, started := i :: s.started } := by
  obtain ⟨hlt, hstarted, hslot, hnodup, hfresh, hpending⟩ := called_facts hL h hcall
  have hconcurrency := (hL.call_concurrency _ _ _ hcall).trans h.concurrency
  exact {
    concurrency := hconcurrency
    pending_nodup := hnodup
    pending_lt := fun j hj => h.pending_lt j (hpending j hj)
    pending_fresh := by
      intro j hj
      obtain ⟨hold, hopen⟩ := h.pending_fresh j (hpending j hj)
      refine ⟨?_, hopen⟩
      intro hmem
      rcases List.mem_cons.mp hmem with rfl | hmem
      · exact hfresh hj
      · exact hold hmem
    started_nodup := List.nodup_cons.mpr ⟨hstarted, h.started_nodup⟩
    started_lt := by
      intro j hj
      rcases List.mem_cons.mp hj with rfl | hold
      · exact hlt
      · exact h.started_lt j hold
    active := by
      rw [hL.call_active _ _ _ hcall]
      have hrunning : running ({ s with limiter, started := i :: s.started } : ParallelState L) =
          i :: running s := by
        unfold running
        rw [List.filter_cons_of_pos (by simp [hslot])]
      rw [hrunning]
      exact h.active.cons i
    limit := by
      rw [← hconcurrency]
      exact hL.call_limit _ _ _ hcall
    history := h.history }

omit hL in
/-- Filling the slot of a running branch takes it out of the running ones. -/
theorem running_settle {i : Nat} {limiter : L.State} {aborted : Bool} (settlement : Settlement)
    (hstarted : s.started.Nodup) :
    running (settle { s with limiter, aborted } i settlement) = (running s).erase i := by
  rw [(running_nodup hstarted).erase_eq_filter]
  unfold running settle
  rw [List.filter_filter]
  apply List.filter_congr
  intro j _
  by_cases hij : j = i
  · subst hij
    simp
  · simp [hij]

theorem runInvariant_settle {i : Nat} (h : RunInvariant call s) (hrunning : i ∈ running s)
    (settlement : Settlement) (aborted : Bool) :
    RunInvariant call (settle { s with aborted } i settlement) := by
  obtain ⟨hstarted, hopen⟩ := mem_running.mp hrunning
  have hactive : (L.active (L.settle s.limiter i)).Perm ((running s).erase i) := by
    rw [hL.settle_active]
    exact h.active.erase i
  exact {
    concurrency := (hL.settle_concurrency _ _).trans h.concurrency
    pending_nodup := by
      show (L.pending (L.settle s.limiter i)).Nodup
      rw [hL.settle_pending]
      exact h.pending_nodup
    pending_lt := by
      show ∀ j ∈ L.pending (L.settle s.limiter i), j < call.config.branches
      rw [hL.settle_pending]
      exact h.pending_lt
    pending_fresh := by
      show ∀ j ∈ L.pending (L.settle s.limiter i), j ∉ s.started ∧
        Function.update s.slots i (some settlement) j = none
      rw [hL.settle_pending]
      intro j hj
      obtain ⟨hfresh, hslot⟩ := h.pending_fresh j hj
      have hij : j ≠ i := by
        rintro rfl
        exact hfresh hstarted
      exact ⟨hfresh, by rw [Function.update_of_ne hij, hslot]⟩
    started_nodup := h.started_nodup
    started_lt := h.started_lt
    active := by
      rw [running_settle settlement h.started_nodup]
      exact hactive
    limit := by
      have hlength : (L.active (L.settle s.limiter i)).length ≤ (L.active s.limiter).length := by
        rw [hL.settle_active]
        exact List.length_erase_le
      exact Nat.le_trans hlength h.limit
    history := h.history.settle hopen (h.started_lt i hstarted) settlement }

/-- A task that fails before its body starts leaves the running ones alone. -/
theorem runInvariant_startFails {i : Nat} {limiter : L.State} (h : RunInvariant call s)
    (hcall : L.call s.limiter i = some limiter) (settlement : Settlement) :
    RunInvariant call (settle { s with limiter } i settlement) := by
  obtain ⟨hlt, hstarted, hslot, hnodup, hfresh, hpending⟩ := called_facts hL h hcall
  have hactive : L.active (L.settle limiter i) = L.active s.limiter := by
    rw [hL.settle_active, hL.call_active _ _ _ hcall, List.erase_cons_head]
  have hrunning : running (settle { s with limiter } i settlement) = running s := by
    rw [show ({ s with limiter } : ParallelState L) = { s with limiter, aborted := s.aborted } from rfl,
      running_settle settlement h.started_nodup]
    apply List.erase_of_not_mem
    intro hmem
    exact hstarted (mem_running.mp hmem).1
  exact {
    concurrency := ((hL.settle_concurrency _ _).trans (hL.call_concurrency _ _ _ hcall)).trans
      h.concurrency
    pending_nodup := by
      show (L.pending (L.settle limiter i)).Nodup
      rw [hL.settle_pending]
      exact hnodup
    pending_lt := by
      show ∀ j ∈ L.pending (L.settle limiter i), j < call.config.branches
      rw [hL.settle_pending]
      exact fun j hj => h.pending_lt j (hpending j hj)
    pending_fresh := by
      show ∀ j ∈ L.pending (L.settle limiter i), j ∉ s.started ∧
        Function.update s.slots i (some settlement) j = none
      rw [hL.settle_pending]
      intro j hj
      obtain ⟨hold, hopen⟩ := h.pending_fresh j (hpending j hj)
      have hij : j ≠ i := by
        rintro rfl
        exact hfresh hj
      exact ⟨hold, by rw [Function.update_of_ne hij, hopen]⟩
    started_nodup := h.started_nodup
    started_lt := h.started_lt
    active := by
      show (L.active (L.settle limiter i)).Perm _
      rw [hactive, hrunning]
      exact h.active
    limit := by
      show (L.active (L.settle limiter i)).length ≤ _
      rw [hactive]
      exact h.limit
    history := h.history.settle hslot hlt settlement }

theorem runInvariant_step {event : ParallelEvent} (h : RunInvariant call s)
    (hstep : call.step s event = some s') : RunInvariant call s' := by
  cases event with
  | start i =>
    obtain ⟨limiter, hcall, rfl⟩ := Option.map_eq_some_iff.mp hstep
    exact runInvariant_start hL h hcall
  | startFails i reason =>
    obtain ⟨limiter, hcall, rfl⟩ := Option.map_eq_some_iff.mp hstep
    exact runInvariant_startFails hL h hcall _
  | fulfil i =>
    dsimp only [step] at hstep
    split_ifs at hstep with hrunning
    rw [← Option.some.inj hstep]
    exact runInvariant_settle hL h (isRunning_iff.mp hrunning) _ s.aborted
  | reject i reason =>
    dsimp only [step] at hstep
    split_ifs at hstep with hrunning
    rw [← Option.some.inj hstep]
    exact runInvariant_settle hL h (isRunning_iff.mp hrunning) _ _
  | upstreamAbort =>
    dsimp only [step] at hstep
    split_ifs at hstep
    rw [← Option.some.inj hstep]
    exact ⟨h.concurrency, h.pending_nodup, h.pending_lt, h.pending_fresh, h.started_nodup,
      h.started_lt, h.active, h.limit, h.history⟩

/-- The invariant holds in every state that a run reaches. -/
theorem runInvariant_run {events : List ParallelEvent} (h : RunInvariant call s)
    (hrun : call.run s events = some s') : RunInvariant call s' := by
  induction events generalizing s with
  | nil =>
    rw [← Option.some.inj hrun]
    exact h
  | cons event events ih =>
    obtain ⟨next, hstep, hrest⟩ := Option.bind_eq_some_iff.mp hrun
    exact ih (runInvariant_step hL h hstep) hrest

omit hL in
theorem running_length_le (h : RunInvariant call s) :
    (running s).length ≤ call.effectiveConcurrency := by
  rw [← h.active.length_eq]
  exact h.limit

end ParallelCall

/-! ## 3. The slots at the end -/

theorem mapM_eq_some_iff {α β : Type} {f : α → Option β} {xs : List α} {ys : List β} :
    xs.mapM f = some ys ↔ xs.map f = ys.map some := by
  induction xs generalizing ys with
  | nil => cases ys <;> simp
  | cons x xs ih =>
    cases ys with
    | nil => cases hx : f x <;> cases hxs : xs.mapM f <;> simp [List.mapM_cons, hx, hxs]
    | cons y ys =>
      rw [List.mapM_cons, List.map_cons, List.map_cons, List.cons.injEq, ← ih]
      cases hx : f x <;> cases hxs : xs.mapM f <;> simp

/-- **The result slots are the branches' own settlements, in the order of the branches.** -/
theorem settled_aligned {settled : List Settlement} (h : s.settled call = some settled) :
    settled.length = call.config.branches ∧
      ∀ i < call.config.branches, settled[i]? = s.slots i := by
  have hmap := mapM_eq_some_iff.mp h
  have hlength := congrArg List.length hmap
  simp only [List.length_map, List.length_range] at hlength
  refine ⟨hlength.symm, ?_⟩
  intro i hi
  have hget := congrArg (fun l => l[i]?) hmap
  simp only [List.getElem?_map, List.getElem?_range hi, Option.map_some] at hget
  have hlt : i < settled.length := by omega
  rw [List.getElem?_eq_getElem hlt] at hget ⊢
  exact (Option.some.inj hget).symm

variable {codes : List String} {settled : List Settlement}

theorem mem_branchFailures {f : BranchFailure} : f ∈ branchFailures codes settled ↔
    ∃ reason, settled[f.branchIndex]? = some (.rejected reason) ∧
      f.error = reason.toError ∧ f.code = resolveIterationErrorCode codes reason := by
  unfold branchFailures
  rw [List.mem_filterMap]
  constructor
  · rintro ⟨⟨settlement, i⟩, hmem, hf⟩
    have hget := List.mk_mem_zipIdx_iff_getElem?.mp hmem
    cases settlement with
    | fulfilled => simp [branchFailure] at hf
    | rejected reason =>
      rw [← Option.some.inj hf]
      exact ⟨reason, hget, rfl, rfl⟩
  · rintro ⟨reason, hget, herror, hcode⟩
    refine ⟨(.rejected reason, f.branchIndex), List.mk_mem_zipIdx_iff_getElem?.mpr hget, ?_⟩
    show some _ = some f
    rw [← herror, ← hcode]

variable (codes settled) in
theorem branchFailures_pairwise :
    (branchFailures codes settled).Pairwise fun f g => f.branchIndex < g.branchIndex := by
  have hindex : ∀ i settlement f, branchFailure codes i settlement = some f → f.branchIndex = i := by
    intro i settlement f h
    cases settlement with
    | fulfilled => simp [branchFailure] at h
    | rejected reason => rw [← Option.some.inj h]
  unfold branchFailures
  rw [List.pairwise_filterMap]
  have hpositions : (settled.zipIdx.map Prod.snd).Pairwise (· < ·) := by
    rw [List.zipIdx_map_snd]
    exact List.pairwise_lt_range'
  rw [List.pairwise_map] at hpositions
  apply hpositions.imp
  intro a b hab f hf g hg
  rw [hindex _ _ _ hf, hindex _ _ _ hg]
  exact hab

/-- In failures ordered by branch, `find` gives the lowest branch that qualifies. -/
theorem find?_eq_some_iff_lowest {failures : List BranchFailure} {p : BranchFailure → Bool}
    {f : BranchFailure} (h : failures.Pairwise fun f g => f.branchIndex < g.branchIndex) :
    failures.find? p = some f ↔
      f ∈ failures ∧ p f = true ∧ ∀ g ∈ failures, p g = true → f.branchIndex ≤ g.branchIndex := by
  induction failures with
  | nil => simp
  | cons g failures ih =>
    obtain ⟨hg, hrest⟩ := List.pairwise_cons.mp h
    by_cases hp : p g = true
    · rw [List.find?_cons_of_pos hp]
      constructor
      · intro heq
        rw [← Option.some.inj heq]
        refine ⟨List.mem_cons_self, hp, ?_⟩
        intro g' hg' _
        rcases List.mem_cons.mp hg' with rfl | hmem
        · exact Nat.le_refl _
        · exact Nat.le_of_lt (hg g' hmem)
      · rintro ⟨hmem, hpf, hleast⟩
        rcases List.mem_cons.mp hmem with rfl | hmem
        · rfl
        · have hlt := hg f hmem
          have hle := hleast g List.mem_cons_self hp
          omega
    · rw [List.find?_cons_of_neg hp, ih hrest]
      constructor
      · rintro ⟨hmem, hpf, hleast⟩
        refine ⟨List.mem_cons_of_mem _ hmem, hpf, ?_⟩
        intro g' hg' hp'
        rcases List.mem_cons.mp hg' with rfl | hmem'
        · exact absurd hp' hp
        · exact hleast g' hmem' hp'
      · rintro ⟨hmem, hpf, hleast⟩
        rcases List.mem_cons.mp hmem with rfl | hmem
        · exact absurd hpf hp
        · exact ⟨hmem, hpf, fun g' hg' => hleast g' (List.mem_cons_of_mem _ hg')⟩

/-! ## 4. Which failure is thrown -/

theorem head?_eq_find? (failures : List BranchFailure) :
    failures.head? = failures.find? fun _ => true := by
  cases failures <;> rfl

variable (codes) in
/-- A failed slot gives a failure of its branch. -/
theorem exists_branchFailure {i : Nat} {reason : Reason}
    (h : settled[i]? = some (.rejected reason)) :
    ∃ f ∈ branchFailures codes settled, f.branchIndex = i ∧ f.error = reason.toError := by
  let f : BranchFailure := ⟨i, reason.toError, resolveIterationErrorCode codes reason⟩
  exact ⟨f, mem_branchFailures.mpr ⟨reason, h, rfl, rfl⟩, rfl, rfl⟩

variable (codes) in
/-- **A cancellation is rethrown, whatever the policy and whatever else failed.** -/
theorem conclude_of_cancelled {i : Nat} {reason : Reason}
    (h : settled[i]? = some (.rejected reason)) (hcancelled : reason.toError.cancelled = true) :
    ∃ f ∈ branchFailures codes settled, f.error.cancelled = true ∧
      conclude call codes settled = .throws f := by
  obtain ⟨f, hf, -, herror⟩ := exists_branchFailure codes h
  cases hfind : (branchFailures codes settled).find? fun f => f.error.cancelled with
  | none =>
    have hnone := List.find?_eq_none.mp hfind f hf
    rw [herror] at hnone
    exact absurd hcancelled hnone
  | some g =>
    refine ⟨g, List.mem_of_find?_eq_some hfind, by simpa using List.find?_some hfind, ?_⟩
    unfold conclude
    dsimp only
    rw [hfind]

/-- The name that the executor takes for a consequence of its own abort. -/
def Reason.isAbort (reason : Reason) : Prop := reason.toError.name = "AbortError"

instance (reason : Reason) : Decidable reason.isAbort := inferInstanceAs (Decidable (_ = _))

/-- No failure gets in the way of the first one: the others below its branch are named
`AbortError`; a first failure so named stands below all others, and these have the same name. -/
def FirstFailureVisible : List (Nat × Reason) → Prop
  | [] => True
  | (i, reason) :: later =>
    if reason.isAbort then ∀ other ∈ later, other.2.isAbort ∧ i < other.1
    else ∀ other ∈ later, other.1 < i → other.2.isAbort

/-- The failures of the slots are those of the history. -/
structure SameFailures (settled : List Settlement) (failed : List (Nat × Reason)) : Prop where
  slots_iff : ∀ i reason, settled[i]? = some (.rejected reason) ↔ (i, reason) ∈ failed
  nodup : (failed.map Prod.fst).Nodup

section RootCause

variable {i : Nat} {reason : Reason} {later : List (Nat × Reason)}
variable (h : SameFailures settled ((i, reason) :: later))
include h

/-- Every failure of the slots is the first one or one of the later ones. -/
theorem branchFailure_cases : ∀ f ∈ branchFailures codes settled,
    f.branchIndex = i ∧ f.error = reason.toError ∨
      ∃ other ∈ later, f.branchIndex = other.1 ∧ f.error = other.2.toError := by
  intro f hf
  obtain ⟨reason', hget, herror, -⟩ := mem_branchFailures.mp hf
  rcases List.mem_cons.mp ((h.slots_iff _ _).mp hget) with heq | hmem
  · have hpair := Prod.mk.inj heq
    exact .inl ⟨hpair.1, by rw [herror, hpair.2]⟩
  · exact .inr ⟨_, hmem, rfl, herror⟩

variable (codes) in
theorem exists_firstFailure :
    ∃ f ∈ branchFailures codes settled, f.branchIndex = i ∧ f.error = reason.toError :=
  exists_branchFailure codes ((h.slots_iff i reason).mpr List.mem_cons_self)

variable (codes) in
theorem exists_laterFailure {other : Nat × Reason} (hother : other ∈ later) :
    ∃ f ∈ branchFailures codes settled, f.branchIndex = other.1 ∧ f.error = other.2.toError :=
  exists_branchFailure codes ((h.slots_iff _ _).mpr (List.mem_cons_of_mem _ hother))

theorem later_branchIndex_ne {other : Nat × Reason} (hother : other ∈ later) : other.1 ≠ i := by
  intro heq
  have hnodup := h.nodup
  rw [List.map_cons, List.nodup_cons] at hnodup
  exact hnodup.1 (List.mem_map.mpr ⟨other, hother, heq⟩)

/-- A failure of the first branch carries the first error. -/
theorem error_of_branchIndex {f : BranchFailure} (hf : f ∈ branchFailures codes settled)
    (hindex : f.branchIndex = i) : f.error = reason.toError := by
  rcases branchFailure_cases h f hf with ⟨-, herror⟩ | ⟨other, hother, hindex', -⟩
  · exact herror
  · exact absurd (hindex'.symm.trans hindex) (later_branchIndex_ne h hother)

/-- A first failure not named `AbortError` is thrown when no lower one is like it. -/
theorem rootCause_of_not_abort (hreason : ¬reason.isAbort) :
    (∃ f, rootCause (branchFailures codes settled) = some f ∧ f.branchIndex = i) ↔
      ∀ other ∈ later, other.1 < i → other.2.isAbort := by
  have hsorted := branchFailures_pairwise codes settled
  obtain ⟨first, hfirst, hindex, herror⟩ := exists_firstFailure codes h
  have hp : (decide (first.error.name ≠ "AbortError")) = true := by
    rw [herror]
    exact decide_eq_true hreason
  constructor
  · rintro ⟨f, hroot, hf⟩ other hother hlt
    by_contra habort
    obtain ⟨g, hg, hgindex, hgerror⟩ := exists_laterFailure codes h hother
    have hpg : (decide (g.error.name ≠ "AbortError")) = true := by
      rw [hgerror]
      exact decide_eq_true habort
    cases hfind : (branchFailures codes settled).find? fun f => f.error.name ≠ "AbortError" with
    | none => exact absurd hp (List.find?_eq_none.mp hfind first hfirst)
    | some found =>
      have hfound : rootCause (branchFailures codes settled) = some found := by
        unfold rootCause
        rw [hfind]
        rfl
      rw [hroot] at hfound
      rw [← Option.some.inj hfound] at hfind
      have hle := ((find?_eq_some_iff_lowest hsorted).mp hfind).2.2 g hg hpg
      omega
  · intro hothers
    refine ⟨first, ?_, hindex⟩
    have hfind : (branchFailures codes settled).find? (fun f => f.error.name ≠ "AbortError") =
        some first := by
      rw [find?_eq_some_iff_lowest hsorted]
      refine ⟨hfirst, hp, ?_⟩
      intro g hg hpg
      rcases branchFailure_cases h g hg with ⟨hgindex, -⟩ | ⟨other, hother, hgindex, hgerror⟩
      · omega
      · by_contra hlt
        have habort := hothers other hother (by omega)
        rw [hgerror] at hpg
        exact absurd habort (of_decide_eq_true hpg)
    unfold rootCause
    rw [hfind]
    rfl

/-- A first failure named `AbortError` is thrown when all are so named and it is the lowest. -/
theorem rootCause_of_abort (hreason : reason.isAbort) :
    (∃ f, rootCause (branchFailures codes settled) = some f ∧ f.branchIndex = i) ↔
      ∀ other ∈ later, other.2.isAbort ∧ i < other.1 := by
  have hsorted := branchFailures_pairwise codes settled
  obtain ⟨first, hfirst, hindex, herror⟩ := exists_firstFailure codes h
  constructor
  · rintro ⟨f, hroot, hf⟩ other hother
    obtain ⟨g, hg, hgindex, hgerror⟩ := exists_laterFailure codes h hother
    cases hfind : (branchFailures codes settled).find? fun f => f.error.name ≠ "AbortError" with
    | some found =>
      have hfound : rootCause (branchFailures codes settled) = some found := by
        unfold rootCause
        rw [hfind]
        rfl
      rw [hroot] at hfound
      rw [← Option.some.inj hfound] at hfind
      obtain ⟨hmem, hpf, -⟩ := (find?_eq_some_iff_lowest hsorted).mp hfind
      rw [error_of_branchIndex h hmem hf] at hpf
      exact absurd hreason (of_decide_eq_true hpf)
    | none =>
      have hhead : (branchFailures codes settled).find? (fun _ => true) = some f := by
        unfold rootCause at hroot
        rw [hfind, Option.none_or, head?_eq_find?] at hroot
        exact hroot
      have hle := ((find?_eq_some_iff_lowest hsorted).mp hhead).2.2 g hg rfl
      have hne := later_branchIndex_ne h hother
      refine ⟨?_, by omega⟩
      have habort := List.find?_eq_none.mp hfind g hg
      rw [hgerror] at habort
      simpa [Reason.isAbort] using habort
  · intro hothers
    refine ⟨first, ?_, hindex⟩
    have hnone : (branchFailures codes settled).find? (fun f => f.error.name ≠ "AbortError") =
        none := by
      rw [List.find?_eq_none]
      intro g hg
      rcases branchFailure_cases h g hg with ⟨-, hgerror⟩ | ⟨other, hother, -, hgerror⟩
      · rw [hgerror]
        simpa [Reason.isAbort] using hreason
      · rw [hgerror]
        simpa [Reason.isAbort] using (hothers other hother).1
    unfold rootCause
    rw [hnone, Option.none_or, head?_eq_find?, find?_eq_some_iff_lowest hsorted]
    refine ⟨hfirst, rfl, ?_⟩
    intro g hg _
    rcases branchFailure_cases h g hg with ⟨hgindex, -⟩ | ⟨other, hother, hgindex, -⟩
    · omega
    · have hlt := (hothers other hother).2
      omega

variable (codes) in
theorem rootCause_branchIndex_iff :
    (∃ f, rootCause (branchFailures codes settled) = some f ∧ f.branchIndex = i) ↔
      FirstFailureVisible ((i, reason) :: later) := by
  dsimp only [FirstFailureVisible]
  by_cases hreason : reason.isAbort
  · rw [if_pos hreason]
    exact rootCause_of_abort h hreason
  · rw [if_neg hreason]
    exact rootCause_of_not_abort h hreason

end RootCause

/-! ## 5. The contract -/

theorem mem_failures {i : Nat} {reason : Reason} :
    (i, reason) ∈ s.failures ↔ (i, .rejected reason) ∈ s.history := by
  unfold ParallelState.failures
  rw [List.mem_filterMap]
  constructor
  · rintro ⟨⟨j, settlement⟩, hmem, heq⟩
    cases settlement with
    | fulfilled => simp at heq
    | rejected reason' =>
      have hpair := Prod.mk.inj (Option.some.inj heq)
      rw [← hpair.1, ← hpair.2]
      exact List.mem_reverse.mp hmem
  · intro hmem
    exact ⟨(i, .rejected reason), List.mem_reverse.mpr hmem, rfl⟩

theorem failures_nodup (h : (s.history.map Prod.fst).Nodup) : (s.failures.map Prod.fst).Nodup := by
  have hreverse : (s.history.reverse.map Prod.fst).Nodup := by
    rw [List.map_reverse]
    exact (List.reverse_perm _).nodup_iff.mpr h
  rw [List.Nodup, List.pairwise_map] at hreverse ⊢
  unfold ParallelState.failures
  rw [List.pairwise_filterMap]
  apply hreverse.imp
  rintro ⟨a, settlement⟩ ⟨b, settlement'⟩ hab x hx y hy
  cases settlement with
  | fulfilled => simp at hx
  | rejected reason =>
    cases settlement' with
    | fulfilled => simp at hy
    | rejected reason' =>
      rw [← Option.some.inj hx, ← Option.some.inj hy]
      exact hab

theorem sameFailures_of_run (h : ParallelCall.RunInvariant call s)
    (hsettled : s.settled call = some settled) : SameFailures settled s.failures := by
  obtain ⟨hlength, haligned⟩ := settled_aligned hsettled
  constructor
  · intro i reason
    rw [mem_failures, ← h.history.slots_iff]
    by_cases hi : i < call.config.branches
    · rw [haligned i hi]
    · constructor
      · intro hget
        have hlt := (List.getElem?_eq_some_iff.mp hget).1
        omega
      · intro hslot
        exact absurd (h.history.lt _ ((h.history.slots_iff _ _).mp hslot)) hi
  · exact failures_nodup h.history.nodup

theorem conclude_cancelOthers (hpolicy : call.config.policy = .cancelOthersOnFail)
    (hnone : ∀ f ∈ branchFailures codes settled, f.error.cancelled = false) {f : BranchFailure} :
    conclude call codes settled = .throws f ↔
      rootCause (branchFailures codes settled) = some f := by
  have hfind : (branchFailures codes settled).find? (fun f => f.error.cancelled) = none := by
    rw [List.find?_eq_none]
    intro g hg
    simp [hnone g hg]
  unfold conclude
  dsimp only
  rw [hfind, hpolicy]
  cases rootCause (branchFailures codes settled) with
  | none => simp
  | some g => simp

/-- What the executor promises of one state of a run. -/
structure ExecutorPromise (call : ParallelCall) (codes : List String) (s : ParallelState L) :
    Prop where
  started_once : s.started.Nodup
  started_branch : ∀ i ∈ s.started, i < call.config.branches
  limited : (ParallelCall.running s).length ≤ call.effectiveConcurrency
  aligned : ∀ settled, s.settled call = some settled → settled.length = call.config.branches ∧
    ∀ i settlement, settled[i]? = some settlement ↔ (i, settlement) ∈ s.history
  cancelled : ∀ settled, s.settled call = some settled →
    (∃ failure ∈ s.failures, failure.2.toError.cancelled = true) →
    ∃ f, conclude call codes settled = .throws f ∧ f.error.cancelled = true ∧
      ∃ failure ∈ s.failures, f.branchIndex = failure.1 ∧ f.error = failure.2.toError

/-- The error thrown is that of the branch which failed first in time. -/
def ThrowsFirstFailure (call : ParallelCall) (codes : List String) (settled : List Settlement)
    (failed : List (Nat × Reason)) : Prop :=
  ∀ first, failed.head? = some first →
    ∃ f, conclude call codes settled = .throws f ∧ f.branchIndex = first.1

theorem executorPromise_of_invariant (h : ParallelCall.RunInvariant call s) :
    ExecutorPromise call codes s where
  started_once := h.started_nodup
  started_branch := h.started_lt
  limited := ParallelCall.running_length_le h
  aligned := by
    intro settled hsettled
    obtain ⟨hlength, haligned⟩ := settled_aligned hsettled
    refine ⟨hlength, ?_⟩
    intro i settlement
    rw [← h.history.slots_iff]
    by_cases hi : i < call.config.branches
    · rw [haligned i hi]
    · constructor
      · intro hget
        have hlt := (List.getElem?_eq_some_iff.mp hget).1
        omega
      · intro hslot
        exact absurd (h.history.lt _ ((h.history.slots_iff _ _).mp hslot)) hi
  cancelled := by
    rintro settled hsettled ⟨⟨i, reason⟩, hfailure, hcancelled⟩
    have hsame := sameFailures_of_run h hsettled
    obtain ⟨f, hf, hfcancelled, hthrows⟩ :=
      conclude_of_cancelled codes ((hsame.slots_iff i reason).mpr hfailure) hcancelled
    obtain ⟨reason', hget, herror, -⟩ := mem_branchFailures.mp hf
    exact ⟨f, hthrows, hfcancelled, (f.branchIndex, reason'), (hsame.slots_iff _ _).mp hget, rfl,
      herror⟩

/-- **In every order of events the executor keeps its promise, and without a cancellation the
first failure in time is thrown exactly when no other failure gets in its way.** -/
theorem parallel_executor_contract (L : Limiter) (hL : L.Lawful) (call : ParallelCall)
    (codes : List String) (events : List ParallelEvent) (s : ParallelState L)
    (hrun : call.run (call.initial L) events = some s) :
    ExecutorPromise call codes s ∧
      ∀ settled, s.settled call = some settled → call.config.policy = .cancelOthersOnFail →
        (∀ failure ∈ s.failures, failure.2.toError.cancelled = false) →
        (ThrowsFirstFailure call codes settled s.failures ↔ FirstFailureVisible s.failures) := by
  have h := ParallelCall.runInvariant_run hL (ParallelCall.runInvariant_initial hL) hrun
  refine ⟨executorPromise_of_invariant h, ?_⟩
  intro settled hsettled hpolicy hplain
  have hsame := sameFailures_of_run h hsettled
  have hnone : ∀ f ∈ branchFailures codes settled, f.error.cancelled = false := by
    intro f hf
    obtain ⟨reason, hget, herror, -⟩ := mem_branchFailures.mp hf
    rw [herror]
    exact hplain _ ((hsame.slots_iff _ _).mp hget)
  unfold ThrowsFirstFailure
  cases hfailed : s.failures with
  | nil => simp [FirstFailureVisible]
  | cons first later =>
    obtain ⟨i, reason⟩ := first
    rw [hfailed] at hsame
    rw [← rootCause_branchIndex_iff codes hsame]
    simp only [List.head?_cons, Option.some.injEq, conclude_cancelOthers hpolicy hnone]
    constructor
    · exact fun hfirst => hfirst _ rfl
    · rintro hroot first rfl
      exact hroot

/-! ## 6. Two branches, one failing because of the other -/

instance decidableFirstFailureVisible : DecidablePred FirstFailureVisible
  | [] => inferInstanceAs (Decidable True)
  | (i, reason) :: later =>
    inferInstanceAs (Decidable (if reason.isAbort then ∀ other ∈ later, other.2.isAbort ∧ i < other.1
      else ∀ other ∈ later, other.1 < i → other.2.isAbort))

def twoBranches : ParallelCall where
  config := { branchCount := 2, maxConcurrency := 0, errorPolicy := some .cancelOthersOnFail }

def rootError : Reason := .error { message := "upstream returned 500" }

def abortError : Reason := .error { name := "AbortError", message := "This operation was aborted" }

/-- A handler that reports the abort under a name of its own. -/
def wrappedAbort : Reason := .error { message := "LLM call failed" }

/-- Both bodies run; branch `i` fails by itself, then the other one. -/
def failingPair (i : Nat) (second : Reason) : List ParallelEvent :=
  [.start 0, .start 1, .reject i rootError, .reject (1 - i) second]

/-- The state that a run of the two branches reaches, and its slots. -/
def reached (events : List ParallelEvent) : Option (ParallelState Limiter.fifo) :=
  twoBranches.run (twoBranches.initial Limiter.fifo) events

theorem reached_isSome : (reached (failingPair 0 abortError)).isSome = true := by decide +kernel

theorem abort_after_first_failure :
    ExecutorPromise twoBranches [] ((reached (failingPair 0 abortError)).get reached_isSome) ∧
      ThrowsFirstFailure twoBranches [] [.rejected rootError, .rejected abortError]
        ((reached (failingPair 0 abortError)).get reached_isSome).failures := by
  have hcontract := parallel_executor_contract Limiter.fifo Limiter.fifo_lawful twoBranches []
    (failingPair 0 abortError) ((reached (failingPair 0 abortError)).get reached_isSome)
    (Option.some_get reached_isSome).symm
  refine ⟨hcontract.1, (hcontract.2 _ ?_ rfl ?_).mpr ?_⟩
  · decide +kernel
  · decide +kernel
  · decide +kernel

theorem reached_masked_isSome : (reached (failingPair 1 wrappedAbort)).isSome = true := by
  decide +kernel

/-- Branch 1 fails first; branch 0 fails because of the abort and is the one thrown. -/
theorem wrapped_abort_masks_first_failure :
    ((reached (failingPair 1 wrappedAbort)).map fun s => s.failures) =
        some [(1, rootError), (0, wrappedAbort)] ∧
      conclude twoBranches [] [.rejected wrappedAbort, .rejected rootError] =
        .throws { branchIndex := 0, error := wrappedAbort.toError, code := "UNKNOWN_ERROR" } ∧
      ¬ ∀ (call : ParallelCall) (events : List ParallelEvent) (s : ParallelState Limiter.fifo),
        call.run (call.initial Limiter.fifo) events = some s →
        ∀ settled, s.settled call = some settled → call.config.policy = .cancelOthersOnFail →
          (∀ failure ∈ s.failures, failure.2.toError.cancelled = false) →
          ThrowsFirstFailure call [] settled s.failures := by
  have hconclude : conclude twoBranches [] [.rejected wrappedAbort, .rejected rootError] =
      .throws { branchIndex := 0, error := wrappedAbort.toError, code := "UNKNOWN_ERROR" } := rfl
  refine ⟨by decide +kernel, hconclude, ?_⟩
  intro h
  have hfailures : ((reached (failingPair 1 wrappedAbort)).get reached_masked_isSome).failures =
    [(1, rootError), (0, wrappedAbort)] := by decide +kernel
  have hthrows := h twoBranches (failingPair 1 wrappedAbort) _
    (Option.some_get reached_masked_isSome).symm
    [.rejected wrappedAbort, .rejected rootError] (by decide +kernel) rfl (by decide +kernel)
  rw [hfailures] at hthrows
  obtain ⟨f, hf, hindex⟩ := hthrows _ rfl
  rw [hconclude] at hf
  injection hf with hf
  rw [← hf] at hindex
  exact absurd hindex (by decide)

end Clemvion.Engine
