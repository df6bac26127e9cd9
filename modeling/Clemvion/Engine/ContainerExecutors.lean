import Clemvion.Engine.ContainerRun
import Clemvion.Js.JsonText

/-!
# ContainerExecutors — ForEach and Loop on the context that their bodies share

`ForEachExecutor.execute` and `LoopExecutor.execute` as they write the context: `itemContext` or
`loopContext` is set before every iteration and put back by a `finally`.  A body is any function on
the context; it may throw, and it may hold containers of its own.
-/

open Clemvion.Js

namespace Clemvion.Engine.Executors

/-! ## 1. The context -/

structure ItemContext where
  item : Value
  index : Nat
  isFirst : Bool
  isLast : Bool
  deriving DecidableEq

structure LoopContext where
  index : Nat
  count : Rat
  isFirst : Bool
  isLast : Bool
  deriving DecidableEq

/-- What a body reads and writes: the variables of the containers around it, and the rest. -/
structure IterationContext (ρ : Type) where
  itemContext : Option ItemContext := none
  loopContext : Option LoopContext := none
  rest : ρ

/-- A call that is awaited: it may throw, and it leaves the context changed either way. -/
abbrev Effect (ρ α : Type) := IterationContext ρ → Except BodyError α × IterationContext ρ

variable {ρ : Type}

/-! ## 2. ForEach -/

structure ForEachConfig where
  array : List Value
  errorPolicy : ContainerErrorPolicy := .stop
  collectResults : Bool := true

structure ForEachExecutionResult where
  items : List Value
  skipped : List ForEachSkippedEntry
  skippedCount : Nat

/-- The variables of an iteration. -/
def ForEachConfig.itemContext (config : ForEachConfig) (item : Value) (i : Nat) : ItemContext where
  item
  index := i
  isFirst := i = 0
  isLast := i + 1 = config.array.length

/-- The loop of `ForEachExecutor.execute` from an index on. -/
def forEachLoop (config : ForEachConfig) (executeBody : Value → Effect ρ Value) :
    List Value → Nat → List Value → List ForEachSkippedEntry → Effect ρ ForEachExecutionResult
  | [], _, items, skipped, context => (.ok ⟨items, skipped, skipped.length⟩, context)
  | item :: array, i, items, skipped, context =>
    match executeBody item { context with itemContext := some (config.itemContext item i) } with
    | (.ok output, context) =>
      forEachLoop config executeBody array (i + 1)
        (if config.collectResults then items ++ [output] else items) skipped context
    | (.error (.cancelled message), context) => (.error (.cancelled message), context)
    | (.error (.failed code message), context) =>
      match config.errorPolicy with
      | .stop => (.error (.failed code message), context)
      | .skip | .continue =>
        if config.collectResults then
          forEachLoop config executeBody array (i + 1) (items ++ [.null])
            (skipped ++ [{ index := i, code, message }]) context
        else forEachLoop config executeBody array (i + 1) items skipped context

/-- `ForEachExecutor.execute`. -/
def forEachExecute (config : ForEachConfig) (executeBody : Value → Effect ρ Value) :
    Effect ρ ForEachExecutionResult := fun context =>
  let (result, after) := forEachLoop config executeBody config.array 0 [] [] context
  (result, { after with itemContext := context.itemContext })

/-! ## 3. Loop -/

structure LoopConfig (ρ : Type) where
  count : Rat
  breakCondition : Option (IterationContext ρ → Except BodyError Bool) := none
  maxIterations : Option Rat := none

structure LoopIterationResult where
  index : Nat
  output : Value

structure LoopExecutionResult where
  iterations : List LoopIterationResult
  exitReason : LoopExitReason

/-- `new Error(message)` has no code of its own. -/
def plainError (message : String) : BodyError := .failed "UNKNOWN_ERROR" message

def numberText (q : Rat) : String := String.ofList (JsonText.writeNumber (.finite q))

/-- The end of the loop without a break. -/
def finishLoop (maxIterations : Rat) (results : List LoopIterationResult) : LoopExecutionResult where
  iterations := results
  exitReason := if maxIterations ≤ results.length then .maxIterations else .completed

/-- `config.breakCondition && config.breakCondition(context)`. -/
def LoopConfig.breaks (config : LoopConfig ρ) (context : IterationContext ρ) :
    Except BodyError Bool :=
  match config.breakCondition with
  | none => .ok false
  | some breakCondition => breakCondition context

/-- The variables of a turn. -/
def LoopConfig.loopContext (config : LoopConfig ρ) (i : Nat) : LoopContext where
  index := i
  count := config.count
  isFirst := i = 0
  isLast := (i : Rat) = config.count - 1

/-- The loop of `LoopExecutor.execute` from an index on, with so many turns left. -/
def loopLoop (config : LoopConfig ρ) (maxIterations : Rat) (executeBody : Value → Effect ρ Value) :
    Nat → Nat → Value → List LoopIterationResult → Effect ρ LoopExecutionResult
  | 0, _, _, results, context => (.ok (finishLoop maxIterations results), context)
  | turns + 1, i, previousOutput, results, context =>
    if (i : Rat) < config.count then
      if maxIterations ≤ i then
        (.error (plainError s!"MAX_ITERATIONS_EXCEEDED: Loop iteration {i} exceeds maximum {numberText maxIterations}"), context)
      else
        match executeBody previousOutput { context with loopContext := some (config.loopContext i) } with
        | (.error error, context) => (.error error, context)
        | (.ok output, context) =>
          match config.breaks context with
          | .error error => (.error error, context)
          | .ok true => (.ok ⟨results ++ [{ index := i, output }], .break⟩, context)
          | .ok false =>
            loopLoop config maxIterations executeBody turns (i + 1) output
              (results ++ [{ index := i, output }]) context
    else (.ok (finishLoop maxIterations results), context)

/-- The number of indices below the count. -/
def turnsOf (count : Rat) : Nat := ⌈count⌉₊

/-- `LoopExecutor.execute`. -/
def loopExecute (config : LoopConfig ρ) (executeBody : Value → Effect ρ Value) :
    Effect ρ LoopExecutionResult := fun context =>
  let maxIterations := config.maxIterations.getD defaultMaxIterations
  if maxIterations < config.count then
    (.error (plainError s!"MAX_ITERATIONS_EXCEEDED: Loop count {numberText config.count} exceeds maximum {numberText maxIterations}"), context)
  else
    let (result, after) := loopLoop config maxIterations executeBody (turnsOf config.count) 0
      .undefined [] context
    (result, { after with loopContext := context.loopContext })

/-! ## 4. What the iterations of a ForEach came to -/

/-- History: an iteration that a ForEach launched. -/
structure ForEachIteration where
  itemContext : ItemContext
  outcome : Except BodyError Value

/-- An outcome that ends a ForEach. -/
def stops (errorPolicy : ContainerErrorPolicy) : Except BodyError Value → Bool
  | .ok _ => false
  | .error (.cancelled _) => true
  | .error (.failed _ _) => errorPolicy = .stop

/-- The iterations that a ForEach launches, in their order. -/
def forEachIterations (config : ForEachConfig) (executeBody : Value → Effect ρ Value) :
    List Value → Nat → IterationContext ρ → List ForEachIteration
  | [], _, _ => []
  | item :: array, i, context =>
    let (outcome, context) :=
      executeBody item { context with itemContext := some (config.itemContext item i) }
    { itemContext := config.itemContext item i, outcome } ::
      if stops config.errorPolicy outcome then []
      else forEachIterations config executeBody array (i + 1) context

/-- The slot of an iteration. -/
def slot (iteration : ForEachIteration) : Value :=
  match iteration.outcome with
  | .ok output => output
  | .error _ => .null

/-- The entry of an iteration that failed. -/
def skippedEntryOf (iteration : ForEachIteration) : Option ForEachSkippedEntry :=
  match iteration.outcome with
  | .error (.failed code message) => some { index := iteration.itemContext.index, code, message }
  | _ => none

theorem index_of_skippedEntryOf {iteration : ForEachIteration} {entry : ForEachSkippedEntry}
    (h : skippedEntryOf iteration = some entry) : entry.index = iteration.itemContext.index := by
  unfold skippedEntryOf at h
  split at h
  · exact (Option.some.inj h) ▸ rfl
  · exact absurd h (by simp)

variable {config : ForEachConfig} {executeBody : Value → Effect ρ Value}

/-- Iteration `k` from index `i` on has index `i + k` and item `k` of what was left. -/
theorem itemContext_forEachIterations (array : List Value) (i : Nat) (context : IterationContext ρ)
    (k : Nat) (iteration : ForEachIteration)
    (hk : (forEachIterations config executeBody array i context)[k]? = some iteration) :
    iteration.itemContext.index = i + k ∧ array[k]? = some iteration.itemContext.item := by
  induction array generalizing i context k with
  | nil => simp [forEachIterations] at hk
  | cons item array ih =>
    unfold forEachIterations at hk
    cases k with
    | zero =>
      obtain rfl := Option.some.inj hk
      exact ⟨rfl, rfl⟩
    | succ k =>
      rw [List.getElem?_cons_succ] at hk
      split at hk
      · simp at hk
      · have h := ih (i + 1) _ k hk
        exact ⟨by omega, h.2⟩

/-- The entries are strictly increasing, whatever iterations were launched. -/
theorem increasing_skippedEntries (array : List Value) (i : Nat) (context : IterationContext ρ) :
    (((forEachIterations config executeBody array i context).filterMap skippedEntryOf).map
      (·.index)).Pairwise (· < ·) := by
  rw [List.pairwise_map, List.pairwise_filterMap, List.pairwise_iff_getElem]
  intro j k hj hk hlt entry hentry entry' hentry'
  have hindex := itemContext_forEachIterations array i context j _ (List.getElem?_eq_getElem hj)
  have hindex' := itemContext_forEachIterations array i context k _ (List.getElem?_eq_getElem hk)
  rw [index_of_skippedEntryOf hentry, index_of_skippedEntryOf hentry', hindex.1, hindex'.1]
  omega

/-- What the loop of a ForEach gives on the iterations it launched. -/
def ForEachLoopSpec (config : ForEachConfig) (array : List Value) (items : List Value)
    (skipped : List ForEachSkippedEntry) (iterations : List ForEachIteration) :
    Except BodyError ForEachExecutionResult → Prop
  | .ok result =>
    (config.collectResults = true → result.items = items ++ iterations.map slot ∧
      result.skipped = skipped ++ iterations.filterMap skippedEntryOf) ∧
    result.skippedCount = result.skipped.length ∧
    iterations.length = array.length ∧
    ∀ iteration ∈ iterations, stops config.errorPolicy iteration.outcome = false
  | .error error =>
    ∃ before iteration, iterations = before ++ [iteration] ∧ iteration.outcome = .error error ∧
      stops config.errorPolicy iteration.outcome = true ∧
      ∀ iteration ∈ before, stops config.errorPolicy iteration.outcome = false

/-- An iteration that does not end the loop, in front of the others. -/
theorem ForEachLoopSpec.cons {array items items' : List Value}
    {skipped skipped' : List ForEachSkippedEntry} {iterations : List ForEachIteration}
    {result : Except BodyError ForEachExecutionResult} (item : Value) (iteration : ForEachIteration)
    (h : ForEachLoopSpec config array items' skipped' iterations result)
    (hgoes : stops config.errorPolicy iteration.outcome = false)
    (hitems : config.collectResults = true → items' = items ++ [slot iteration])
    (hskipped : config.collectResults = true →
      skipped' = skipped ++ (skippedEntryOf iteration).toList) :
    ForEachLoopSpec config (item :: array) items skipped (iteration :: iterations) result := by
  cases result with
  | ok result =>
    have hcollected := h.1
    refine ⟨fun hcollect => ?_, h.2.1, ?_, ?_⟩
    · rw [(hcollected hcollect).1, (hcollected hcollect).2, hitems hcollect, hskipped hcollect]
      refine ⟨by simp, ?_⟩
      cases hentry : skippedEntryOf iteration with
      | none => simp [hentry]
      | some entry => simp [hentry]
    · simp [h.2.2.1]
    · simpa [hgoes] using h.2.2.2
  | error error =>
    obtain ⟨before, last, rfl, hlast, hstops, hbefore⟩ := h
    exact ⟨iteration :: before, last, rfl, hlast, hstops, by simpa [hgoes] using hbefore⟩

theorem ForEachLoopSpec.last {array items : List Value} {skipped : List ForEachSkippedEntry}
    {itemContext : ItemContext} {error : BodyError}
    (hstops : stops config.errorPolicy (.error error) = true) :
    ForEachLoopSpec config array items skipped [⟨itemContext, .error error⟩] (.error error) :=
  ⟨[], _, rfl, rfl, hstops, by simp⟩

/-- **The loop of a ForEach** returns the slots and entries of its iterations, or throws the outcome
that ended it. -/
theorem forEachLoop_spec (array : List Value) (i : Nat) (items : List Value)
    (skipped : List ForEachSkippedEntry) (context : IterationContext ρ) :
    ForEachLoopSpec config array items skipped (forEachIterations config executeBody array i context)
      (forEachLoop config executeBody array i items skipped context).1 := by
  induction array generalizing i items skipped context with
  | nil => exact ⟨fun _ => by simp [forEachIterations], rfl, rfl, by simp [forEachIterations]⟩
  | cons item array ih =>
    unfold forEachLoop forEachIterations
    obtain ⟨outcome, after⟩ :=
      executeBody item { context with itemContext := some (config.itemContext item i) }
    cases outcome with
    | ok output =>
      refine (ih (i + 1) _ skipped after).cons item ⟨config.itemContext item i, .ok output⟩ rfl
        (fun hcollect => ?_) fun _ => ?_
      · exact if_pos hcollect
      · exact (List.append_nil skipped).symm
    | error error =>
      cases error with
      | cancelled message => exact ForEachLoopSpec.last rfl
      | failed code message =>
        let iteration : ForEachIteration :=
          ⟨config.itemContext item i, .error (.failed code message)⟩
        -- both lenient policies take this branch
        have hskips (hgoes : stops config.errorPolicy iteration.outcome = false) :
            ForEachLoopSpec config (item :: array) items skipped
              (iteration :: forEachIterations config executeBody array (i + 1) after)
              (if config.collectResults then
                forEachLoop config executeBody array (i + 1) (items ++ [.null])
                  (skipped ++ [{ index := i, code, message }]) after
              else forEachLoop config executeBody array (i + 1) items skipped after).1 := by
          cases hcollect : config.collectResults with
          | true =>
            exact (ih (i + 1) _ _ after).cons item iteration hgoes (fun _ => rfl) fun _ => rfl
          | false =>
            refine (ih (i + 1) items skipped after).cons item iteration hgoes ?_ ?_
            · exact fun h => absurd h (by simp [hcollect])
            · exact fun h => absurd h (by simp [hcollect])
        cases hpolicy : config.errorPolicy with
        | stop => exact ForEachLoopSpec.last (decide_eq_true hpolicy)
        | skip => exact hskips (by simp [stops, hpolicy, iteration])
        | «continue» => exact hskips (by simp [stops, hpolicy, iteration])

/-- **ForEach** with any array, body and policy, called in the context `before`. -/
structure ForEachContract (config : ForEachConfig) (iterations : List ForEachIteration)
    (before : IterationContext ρ) (result : Except BodyError ForEachExecutionResult)
    (after : IterationContext ρ) : Prop where
  /-- On every exit. -/
  restored : after.itemContext = before.itemContext
  /-- Iteration `k` runs on item `k` of the array. -/
  inOrder : ∀ (k : Nat) iteration, iterations[k]? = some iteration →
    iteration.itemContext.index = k ∧ config.array[k]? = some iteration.itemContext.item
  slots : ∀ collected, result = .ok collected → config.collectResults = true →
    collected.items = iterations.map slot ∧ iterations.length = config.array.length
  /-- The slot of an iteration is listed exactly when the iteration failed. -/
  listed : ∀ collected, result = .ok collected → config.collectResults = true →
    ∀ (k : Nat) iteration, iterations[k]? = some iteration →
      (k ∈ collected.skipped.map (·.index) ↔ ∃ error, iteration.outcome = .error error)
  increasing : ∀ collected, result = .ok collected → config.collectResults = true →
    (collected.skipped.map (·.index)).Pairwise (· < ·)
  counted : ∀ collected, result = .ok collected →
    collected.skippedCount = collected.skipped.length
  /-- A cancelled iteration is the last one, and its error is thrown. -/
  rethrown : ∀ iteration ∈ iterations, ∀ message, iteration.outcome = .error (.cancelled message) →
    result = .error (.cancelled message)
  /-- What is thrown comes from the iteration launched last. -/
  thrown : ∀ error, result = .error error → ∃ iteration, iterations.getLast? = some iteration ∧
    iteration.outcome = .error error

theorem index_mem_skipped_iff {array : List Value} {i : Nat} {context : IterationContext ρ}
    (hgoes : ∀ iteration ∈ forEachIterations config executeBody array i context,
      stops config.errorPolicy iteration.outcome = false)
    (k : Nat) (iteration : ForEachIteration)
    (hk : (forEachIterations config executeBody array i context)[k]? = some iteration) :
    i + k ∈ ((forEachIterations config executeBody array i context).filterMap skippedEntryOf).map
        (·.index) ↔
      ∃ error, iteration.outcome = .error error := by
  have hindex := (itemContext_forEachIterations array i context k iteration hk).1
  constructor
  · intro hmem
    obtain ⟨entry, hentry, hentryIndex⟩ := List.mem_map.mp hmem
    obtain ⟨listed, hlisted, hof⟩ := List.mem_filterMap.mp hentry
    -- the iteration that was listed is the one at this index
    obtain ⟨j, hj⟩ := List.mem_iff_getElem?.mp hlisted
    have hjindex := (itemContext_forEachIterations array i context j listed hj).1
    rw [index_of_skippedEntryOf hof, hjindex] at hentryIndex
    obtain rfl : j = k := by omega
    obtain rfl : listed = iteration := Option.some.inj (hj.symm.trans hk)
    unfold skippedEntryOf at hof
    split at hof
    · exact ⟨_, ‹_›⟩
    · exact absurd hof (by simp)
  · rintro ⟨error, herror⟩
    have hmem := List.mem_of_getElem? hk
    cases error with
    | cancelled message => exact absurd (hgoes iteration hmem) (by simp [herror, stops])
    | failed code message =>
      refine List.mem_map.mpr ⟨{ index := iteration.itemContext.index, code, message },
        List.mem_filterMap.mpr ⟨iteration, hmem, by simp [skippedEntryOf, herror]⟩, hindex⟩

variable (config executeBody) in
/-- **The contract of ForEach.** -/
theorem forEachExecute_contract (context : IterationContext ρ) :
    ForEachContract config (forEachIterations config executeBody config.array 0 context) context
      (forEachExecute config executeBody context).1 (forEachExecute config executeBody context).2 := by
  have hspec : ForEachLoopSpec config config.array [] []
      (forEachIterations config executeBody config.array 0 context)
      (forEachExecute config executeBody context).1 := forEachLoop_spec config.array 0 [] [] context
  have hinOrder := @itemContext_forEachIterations _ config executeBody config.array 0 context
  refine {
    restored := rfl
    inOrder := fun k iteration hk => by simpa using hinOrder k iteration hk
    slots := fun collected hresult hcollect => ?_
    listed := fun collected hresult hcollect k iteration hk => ?_
    increasing := fun collected hresult hcollect => ?_
    counted := fun collected hresult => ?_
    rethrown := fun iteration hmem message houtcome => ?_
    thrown := fun error hresult => ?_ }
  · rw [hresult] at hspec
    exact ⟨(hspec.1 hcollect).1, hspec.2.2.1⟩
  · rw [hresult] at hspec
    rw [(hspec.1 hcollect).2]
    simpa using index_mem_skipped_iff hspec.2.2.2 k iteration hk
  · rw [hresult] at hspec
    rw [(hspec.1 hcollect).2]
    exact increasing_skippedEntries config.array 0 context
  · rw [hresult] at hspec
    exact hspec.2.1
  · have hstops : stops config.errorPolicy iteration.outcome = true := by rw [houtcome]; rfl
    cases hresult : (forEachExecute config executeBody context).1 with
    | ok collected =>
      rw [hresult] at hspec
      exact absurd hstops (by simp [hspec.2.2.2 iteration hmem])
    | error error =>
      rw [hresult] at hspec
      obtain ⟨before, last, hiterations, hlast, -, hbefore⟩ := hspec
      rw [hiterations] at hmem
      rcases List.mem_append.mp hmem with hmem | hmem
      · exact absurd hstops (by simp [hbefore iteration hmem])
      · obtain rfl := List.mem_singleton.mp hmem
        obtain rfl : error = .cancelled message := Except.error.inj (hlast.symm.trans houtcome)
        rfl
  · rw [hresult] at hspec
    obtain ⟨before, last, hiterations, hlast, -, -⟩ := hspec
    exact ⟨last, by simp [hiterations], hlast⟩

/-! ## 5. What the turns of a Loop came to -/

/-- History: a turn of a Loop, with its break condition when the body returned. -/
structure LoopTurn where
  loopContext : LoopContext
  outcome : Except BodyError (Value × Except BodyError Bool)

/-- The turns that a Loop makes, in their order. -/
def loopTurns (config : LoopConfig ρ) (executeBody : Value → Effect ρ Value) :
    Nat → Nat → Value → IterationContext ρ → List LoopTurn
  | 0, _, _, _ => []
  | turns + 1, i, previousOutput, context =>
    if (i : Rat) < config.count then
      match executeBody previousOutput { context with loopContext := some (config.loopContext i) } with
      | (.error error, _) => [{ loopContext := config.loopContext i, outcome := .error error }]
      | (.ok output, context) =>
        { loopContext := config.loopContext i, outcome := .ok (output, config.breaks context) } ::
          match config.breaks context with
          | .ok false => loopTurns config executeBody turns (i + 1) output context
          | .ok true | .error _ => []
    else []

/-- The turns of `LoopExecutor.execute`. -/
def loopExecuteTurns (config : LoopConfig ρ) (executeBody : Value → Effect ρ Value)
    (context : IterationContext ρ) : List LoopTurn :=
  if config.maxIterations.getD defaultMaxIterations < config.count then []
  else loopTurns config executeBody (turnsOf config.count) 0 .undefined context

def LoopTurn.GoesOn (turn : LoopTurn) : Prop := ∃ output, turn.outcome = .ok (output, .ok false)

def LoopTurn.Breaks (turn : LoopTurn) : Prop := ∃ output, turn.outcome = .ok (output, .ok true)

def LoopTurn.Throws (turn : LoopTurn) (error : BodyError) : Prop :=
  turn.outcome = .error error ∨ ∃ output, turn.outcome = .ok (output, .error error)

/-- The iteration that a turn adds when its body returns. -/
def LoopTurn.iteration? (turn : LoopTurn) : Option (Nat × Value) :=
  match turn.outcome with
  | .ok (output, _) => some (turn.loopContext.index, output)
  | .error _ => none

theorem LoopTurn.Throws.not_breaks {turn : LoopTurn} {error : BodyError} (h : turn.Throws error) :
    ¬ turn.Breaks := by
  rintro ⟨output, hbreaks⟩
  rcases h with hthrows | ⟨output', hthrows⟩
  · rw [hthrows] at hbreaks
    exact absurd hbreaks (by simp)
  · rw [hthrows] at hbreaks
    exact absurd hbreaks (by simp)

theorem LoopTurn.GoesOn.not_breaks {turn : LoopTurn} (h : turn.GoesOn) : ¬ turn.Breaks := by
  rintro ⟨output, hbreaks⟩
  obtain ⟨output', hgoes⟩ := h
  rw [hgoes] at hbreaks
  exact absurd hbreaks (by simp)

/-- What the loop of a Loop gives on the turns it made, with so many of them planned. -/
def LoopLoopSpec (maxIterations : Rat) (planned : Nat) (results : List LoopIterationResult)
    (turns : List LoopTurn) : Except BodyError LoopExecutionResult → Prop
  | .ok result =>
    result.iterations.map (fun iteration => some (iteration.index, iteration.output)) =
      results.map (fun iteration => some (iteration.index, iteration.output)) ++
        turns.map LoopTurn.iteration? ∧
    ((turns.length = planned ∧ (∀ turn ∈ turns, turn.GoesOn) ∧ result.exitReason =
        if maxIterations ≤ (results.length + turns.length : Nat) then .maxIterations
        else .completed) ∨
      result.exitReason = .break ∧
        ∃ before turn, turns = before ++ [turn] ∧ turn.Breaks ∧ ∀ turn ∈ before, turn.GoesOn)
  | .error error =>
    ∃ before turn, turns = before ++ [turn] ∧ turn.Throws error ∧ ∀ turn ∈ before, turn.GoesOn

/-- A turn after which the loop goes on, in front of the others. -/
theorem LoopLoopSpec.cons {maxIterations : Rat} {planned : Nat}
    {results : List LoopIterationResult} {turns : List LoopTurn}
    {result : Except BodyError LoopExecutionResult} {loopContext : LoopContext} {output : Value}
    (h : LoopLoopSpec maxIterations planned
      (results ++ [{ index := loopContext.index, output }]) turns result) :
    LoopLoopSpec maxIterations (planned + 1) results
      ({ loopContext, outcome := .ok (output, .ok false) } :: turns) result := by
  have hgoes : LoopTurn.GoesOn { loopContext, outcome := .ok (output, .ok false) } := ⟨output, rfl⟩
  cases result with
  | ok result =>
    refine ⟨?_, ?_⟩
    · rw [h.1]
      simp [LoopTurn.iteration?]
    · rcases h.2 with ⟨hlength, hall, hreason⟩ | ⟨hreason, before, turn, rfl, hbreaks, hbefore⟩
      · refine .inl ⟨by simp [hlength], by simpa [hgoes] using hall, ?_⟩
        rw [hreason]
        congr 3
        simp
        omega
      · exact .inr ⟨hreason, _ :: before, turn, rfl, hbreaks, by simpa [hgoes] using hbefore⟩
  | error error =>
    obtain ⟨before, turn, rfl, hthrows, hbefore⟩ := h
    exact ⟨_ :: before, turn, rfl, hthrows, by simpa [hgoes] using hbefore⟩

variable {config : LoopConfig ρ}

/-- **The loop of a Loop** whose count does not exceed the maximum. -/
theorem loopLoop_spec {maxIterations : Rat} (hcount : config.count ≤ maxIterations)
    (turns i : Nat) (hturns : i + turns = turnsOf config.count) (previousOutput : Value)
    (results : List LoopIterationResult) (hresults : results.length = i)
    (context : IterationContext ρ) :
    LoopLoopSpec maxIterations turns results
      (loopTurns config executeBody turns i previousOutput context)
      (loopLoop config maxIterations executeBody turns i previousOutput results context).1 := by
  induction turns generalizing i previousOutput results context with
  | zero => exact ⟨by simp [loopTurns, finishLoop], .inl ⟨rfl, by simp [loopTurns], rfl⟩⟩
  | succ turns ih =>
    have hlt : (i : Rat) < config.count := Nat.lt_ceil.mp (by rw [turnsOf] at hturns; omega)
    unfold loopLoop loopTurns
    rw [if_pos hlt, if_pos hlt, if_neg (by linarith)]
    obtain ⟨outcome, after⟩ :=
      executeBody previousOutput { context with loopContext := some (config.loopContext i) }
    cases outcome with
    | error error => exact ⟨[], _, rfl, .inl rfl, by simp⟩
    | ok output =>
      dsimp only
      cases hbreaks : config.breaks after with
      | error error => exact ⟨[], _, rfl, .inr ⟨output, rfl⟩, by simp⟩
      | ok broke =>
        cases broke with
        | true =>
          refine ⟨by simp [LoopTurn.iteration?, LoopConfig.loopContext], .inr ⟨rfl, [], _, rfl, ⟨output, rfl⟩, by simp⟩⟩
        | false =>
          exact (ih (i + 1) (by omega) output _ (by simp [hresults]) after).cons

/-- Turn `k` from index `i` on has index `i + k`. -/
theorem loopContext_loopTurns (turns i : Nat) (previousOutput : Value)
    (context : IterationContext ρ) (k : Nat) (turn : LoopTurn)
    (hk : (loopTurns config executeBody turns i previousOutput context)[k]? = some turn) :
    turn.loopContext.index = i + k := by
  induction turns generalizing i previousOutput context k with
  | zero => simp [loopTurns] at hk
  | succ turns ih =>
    unfold loopTurns at hk
    split at hk
    · split at hk
      · cases k with
        | zero => exact (Option.some.inj hk) ▸ rfl
        | succ k => simp at hk
      · cases k with
        | zero => exact (Option.some.inj hk) ▸ rfl
        | succ k =>
          rw [List.getElem?_cons_succ] at hk
          split at hk
          · have h := ih (i + 1) _ _ k hk
            omega
          · simp at hk
          · simp at hk
    · simp at hk

theorem length_loopTurns (turns i : Nat) (previousOutput : Value) (context : IterationContext ρ) :
    (loopTurns config executeBody turns i previousOutput context).length ≤ turns := by
  induction turns generalizing i previousOutput context with
  | zero => exact Nat.le_refl 0
  | succ turns ih =>
    unfold loopTurns
    split
    · split
      · simp
      · split
        · exact Nat.succ_le_succ (ih _ _ _)
        · simp
        · simp
    · simp

/-- **Loop** with any count, maximum, break condition and body, called in the context `before`. -/
structure LoopContract (config : LoopConfig ρ) (turns : List LoopTurn)
    (before : IterationContext ρ) (result : Except BodyError LoopExecutionResult)
    (after : IterationContext ρ) : Prop where
  /-- On every exit. -/
  restored : after.loopContext = before.loopContext
  inOrder : ∀ (k : Nat) turn, turns[k]? = some turn → turn.loopContext.index = k
  bounded :
    turns.length ≤ turnsOf (min config.count (config.maxIterations.getD defaultMaxIterations))
  /-- The output of every turn, in order. -/
  collected : ∀ collected, result = .ok collected →
    collected.iterations.map (fun iteration => some (iteration.index, iteration.output)) =
      turns.map LoopTurn.iteration?
  /-- A turn whose break condition held is the last one, and the loop says so. -/
  breaks : ∀ turn ∈ turns, turn.Breaks →
    ∃ collected, result = .ok collected ∧ collected.exitReason = .break
  broke : ∀ collected, result = .ok collected → collected.exitReason = .break →
    ∃ turn, turns.getLast? = some turn ∧ turn.Breaks
  /-- Without a break every turn that the count allows was made. -/
  ran : ∀ collected, result = .ok collected → collected.exitReason ≠ .break →
    turns.length = turnsOf config.count ∧
      (collected.exitReason = .maxIterations ↔
        config.maxIterations.getD defaultMaxIterations ≤ turns.length)
  /-- What is thrown comes from the turn made last, or from a count above the maximum. -/
  thrown : ∀ error, result = .error error →
    config.maxIterations.getD defaultMaxIterations < config.count ∧ turns = [] ∨
      ∃ turn, turns.getLast? = some turn ∧ turn.Throws error

variable (config executeBody) in
/-- **The contract of Loop.** -/
theorem loopExecute_contract (context : IterationContext ρ) :
    LoopContract config (loopExecuteTurns config executeBody context) context
      (loopExecute config executeBody context).1 (loopExecute config executeBody context).2 := by
  by_cases hcount : config.maxIterations.getD defaultMaxIterations < config.count
  · unfold loopExecute loopExecuteTurns
    simp only [if_pos hcount]
    exact {
      restored := rfl
      inOrder := by simp
      bounded := by simp
      collected := by simp
      breaks := by simp
      broke := by simp
      ran := by simp
      thrown := fun _ _ => .inl ⟨hcount, rfl⟩ }
  have hle : config.count ≤ config.maxIterations.getD defaultMaxIterations := not_lt.mp hcount
  have hturns : loopExecuteTurns config executeBody context =
      loopTurns config executeBody (turnsOf config.count) 0 .undefined context := if_neg hcount
  have hspec : LoopLoopSpec (config.maxIterations.getD defaultMaxIterations)
      (turnsOf config.count) [] (loopExecuteTurns config executeBody context)
      (loopExecute config executeBody context).1 := by
    rw [hturns]
    unfold loopExecute
    simp only [if_neg hcount]
    exact loopLoop_spec hle _ 0 (Nat.zero_add _) .undefined [] rfl context
  have hafter : (loopExecute config executeBody context).2.loopContext = context.loopContext := by
    unfold loopExecute
    simp only [if_neg hcount]
  refine {
    restored := hafter
    inOrder := fun k turn hk => ?_
    bounded := ?_
    collected := fun collected hresult => ?_
    breaks := fun turn hmem hbreaks => ?_
    broke := fun collected hresult hbreak => ?_
    ran := fun collected hresult hbreak => ?_
    thrown := fun error hresult => ?_ }
  · rw [hturns] at hk
    simpa using loopContext_loopTurns _ 0 _ context k turn hk
  · rw [min_eq_left hle, hturns]
    exact length_loopTurns _ 0 _ context
  · rw [hresult] at hspec
    simpa using hspec.1
  · cases hresult : (loopExecute config executeBody context).1 with
    | ok collected =>
      rw [hresult] at hspec
      rcases hspec.2 with ⟨-, hall, -⟩ | ⟨hreason, -⟩
      · exact absurd hbreaks (hall turn hmem).not_breaks
      · exact ⟨collected, rfl, hreason⟩
    | error error =>
      rw [hresult] at hspec
      obtain ⟨before, last, hbefore, hthrows, hall⟩ := hspec
      rw [hbefore] at hmem
      rcases List.mem_append.mp hmem with hmem | hmem
      · exact absurd hbreaks (hall turn hmem).not_breaks
      · obtain rfl := List.mem_singleton.mp hmem
        exact absurd hbreaks hthrows.not_breaks
  · rw [hresult] at hspec
    rcases hspec.2 with ⟨-, -, hreason⟩ | ⟨-, before, turn, hbefore, hbreaks, -⟩
    · rw [hreason] at hbreak
      split at hbreak <;> exact absurd hbreak (by simp)
    · exact ⟨turn, by simp [hbefore], hbreaks⟩
  · rw [hresult] at hspec
    rcases hspec.2 with ⟨hlength, -, hreason⟩ | ⟨hreason, -⟩
    · refine ⟨hlength, ?_⟩
      rw [hreason]
      split <;> simp_all
    · exact absurd hreason hbreak
  · rw [hresult] at hspec
    obtain ⟨before, turn, hbefore, hthrows, -⟩ := hspec
    exact .inr ⟨turn, by simp [hbefore], hthrows⟩

/-! ## 6. Containers in containers -/

/-- Running leaves the variables of both kinds of container as they were. -/
def KeepsVariables (run : Effect ρ Value) : Prop :=
  ∀ context, (run context).2.itemContext = context.itemContext ∧
    (run context).2.loopContext = context.loopContext

/-- A node that is no container: it does not write these variables. -/
def PlainNode (ρ : Type) := { run : Value → Effect ρ Value // ∀ input, KeepsVariables (run input) }

/-- A body, with the containers in it.  A container reads its config off the context at its turn. -/
inductive BodyTree (ρ : Type)
  | node (plain : PlainNode ρ)
  | andThen (first second : BodyTree ρ)
  | forEach (config : Value → IterationContext ρ → ForEachConfig) (body : BodyTree ρ)
      (output : ForEachExecutionResult → Value)
  | loop (config : Value → IterationContext ρ → LoopConfig ρ) (body : BodyTree ρ)
      (output : LoopExecutionResult → Value)

def BodyTree.run : BodyTree ρ → Value → Effect ρ Value
  | .node plain, input, context => plain.1 input context
  | .andThen first second, input, context =>
    match first.run input context with
    | (.ok output, context) => second.run output context
    | (.error error, context) => (.error error, context)
  | .forEach config body output, input, context =>
    let (result, context) := forEachExecute (config input context) body.run context
    (result.map output, context)
  | .loop config body output, input, context =>
    let (result, context) := loopExecute (config input context) body.run context
    (result.map output, context)

theorem forEachLoop_loopContext {config : ForEachConfig}
    (hbody : ∀ input, KeepsVariables (executeBody input)) (array : List Value) (i : Nat)
    (items : List Value) (skipped : List ForEachSkippedEntry) (context : IterationContext ρ) :
    (forEachLoop config executeBody array i items skipped context).2.loopContext =
      context.loopContext := by
  induction array generalizing i items skipped context with
  | nil => rfl
  | cons item array ih =>
    unfold forEachLoop
    have hkeeps := (hbody item { context with itemContext := some (config.itemContext item i) }).2
    revert hkeeps
    obtain ⟨outcome, after⟩ :=
      executeBody item { context with itemContext := some (config.itemContext item i) }
    intro hkeeps
    cases outcome with
    | ok output => exact (ih _ _ _ after).trans hkeeps
    | error error =>
      cases error with
      | cancelled message => exact hkeeps
      | failed code message =>
        have hskips : (if config.collectResults then
              forEachLoop config executeBody array (i + 1) (items ++ [.null])
                (skipped ++ [{ index := i, code, message }]) after
            else forEachLoop config executeBody array (i + 1) items skipped after).2.loopContext =
            context.loopContext := by
          split
          · exact (ih _ _ _ after).trans hkeeps
          · exact (ih _ _ _ after).trans hkeeps
        cases config.errorPolicy with
        | stop => exact hkeeps
        | skip => exact hskips
        | «continue» => exact hskips

theorem loopLoop_itemContext {maxIterations : Rat}
    (hbody : ∀ input, KeepsVariables (executeBody input)) (turns i : Nat) (previousOutput : Value)
    (results : List LoopIterationResult) (context : IterationContext ρ) :
    (loopLoop config maxIterations executeBody turns i previousOutput results
      context).2.itemContext = context.itemContext := by
  induction turns generalizing i previousOutput results context with
  | zero => rfl
  | succ turns ih =>
    unfold loopLoop
    split
    · split
      · rfl
      · have hkeeps :=
          (hbody previousOutput { context with loopContext := some (config.loopContext i) }).1
        revert hkeeps
        obtain ⟨outcome, after⟩ :=
          executeBody previousOutput { context with loopContext := some (config.loopContext i) }
        intro hkeeps
        cases outcome with
        | error error => exact hkeeps
        | ok output =>
          dsimp only
          split
          · exact hkeeps
          · exact hkeeps
          · exact (ih _ _ _ after).trans hkeeps
    · rfl

/-- **No variable of an inner iteration outlives its container**, however they are nested. -/
theorem BodyTree.keepsVariables (body : BodyTree ρ) (input : Value) :
    KeepsVariables (body.run input) := by
  induction body generalizing input with
  | node plain => exact plain.2 input
  | andThen first second ihFirst ihSecond =>
    intro context
    have hfirst := ihFirst input context
    unfold BodyTree.run
    revert hfirst
    obtain ⟨outcome, after⟩ := first.run input context
    intro hfirst
    cases outcome with
    | ok output =>
      have hsecond := ihSecond output after
      exact ⟨hsecond.1.trans hfirst.1, hsecond.2.trans hfirst.2⟩
    | error error => exact hfirst
  | forEach config body output ih =>
    intro context
    exact ⟨rfl, forEachLoop_loopContext ih _ 0 [] [] context⟩
  | loop config body output ih =>
    intro context
    refine ⟨?_, (loopExecute_contract body.run (config input context) context).restored⟩
    show (loopExecute (config input context) body.run context).2.itemContext = _
    unfold loopExecute
    dsimp only
    split
    · rfl
    · exact loopLoop_itemContext ih _ 0 _ [] context

/-! ## 7. The containers of a run -/

section Runs

variable (env : BodyEnvironment) (containerNode : Graph.Node String) (plan : ContainerBodyPlan)

/-- A body of `runContainerInner`, with the outputs of the run as the rest of the context; it reads
its index off its own variables. -/
def containerBody (item : Value) : Effect ContainerState Value := fun context =>
  let index := (context.itemContext.map (·.index)).getD 0
  let iteration := context.rest.iterate env containerNode plan index item
  (iteration.outcome, { context with rest := context.rest.record iteration })

/-- ForEach and Map of a run are this executor on that body. -/
theorem foreachExecute_eq_forEachLoop (config : ForEachConfig) (hcollect : config.collectResults = true)
    (array : List Value) (i : Nat) (items : List Value) (skipped : List ForEachSkippedEntry)
    (context : IterationContext ContainerState) :
    foreachExecute env containerNode plan config.errorPolicy array i context.rest ⟨items, skipped⟩ =
      ((forEachLoop config (containerBody env containerNode plan) array i items skipped
          context).2.rest,
        ((forEachLoop config (containerBody env containerNode plan) array i items skipped
          context).1.map fun result =>
            (⟨result.items, result.skipped⟩ : Engine.ForEachExecutionResult)).mapError .body) := by
  induction array generalizing i items skipped context with
  | nil => rfl
  | cons item array ih =>
    unfold foreachExecute forEachLoop
    let after : IterationContext ContainerState := { context with
      itemContext := some (config.itemContext item i)
      rest := context.rest.record (context.rest.iterate env containerNode plan i item) }
    have hrun : containerBody env containerNode plan item
          { context with itemContext := some (config.itemContext item i) } =
        ((context.rest.iterate env containerNode plan i item).outcome, after) := rfl
    rw [hrun]
    dsimp only
    cases (context.rest.iterate env containerNode plan i item).outcome with
    | ok output =>
      dsimp only
      rw [if_pos hcollect]
      exact ih (i + 1) (items ++ [output]) skipped after
    | error error =>
      cases error with
      | cancelled message => rfl
      | failed code message =>
        cases hpolicy : config.errorPolicy with
        | stop => rfl
        | skip =>
          dsimp only
          rw [if_pos hcollect, ← hpolicy]
          exact ih (i + 1) (items ++ [.null]) (skipped ++ [{ index := i, code, message }]) after
        | «continue» =>
          dsimp only
          rw [if_pos hcollect, ← hpolicy]
          exact ih (i + 1) (items ++ [.null]) (skipped ++ [{ index := i, code, message }]) after

end Runs

/-- **ForEach and Loop keep their contracts**, and no variable leaves the container it belongs to. -/
theorem executors_contract :
    (∀ (config : ForEachConfig) (executeBody : Value → Effect ρ Value)
        (context : IterationContext ρ),
      ForEachContract config (forEachIterations config executeBody config.array 0 context) context
        (forEachExecute config executeBody context).1
        (forEachExecute config executeBody context).2) ∧
      (∀ (config : LoopConfig ρ) (executeBody : Value → Effect ρ Value)
          (context : IterationContext ρ),
        LoopContract config (loopExecuteTurns config executeBody context) context
          (loopExecute config executeBody context).1 (loopExecute config executeBody context).2) ∧
      ∀ (body : BodyTree ρ) (input : Value), KeepsVariables (body.run input) :=
  ⟨forEachExecute_contract, fun config executeBody => loopExecute_contract executeBody config,
    BodyTree.keepsVariables⟩

/-- A body may return null itself, and a count that is no integer is rounded up. -/
theorem executors_contract_null :
    (forEachExecute { array := [.null] } (fun item context => (.ok item, context))
        ({ rest := () } : IterationContext Unit)).1 =
          .ok { items := [.null], skipped := [], skippedCount := 0 } ∧
      (loopExecuteTurns { count := 5 / 2 } (fun _ context => (.ok .null, context))
        ({ rest := () } : IterationContext Unit)).length = 3 ∧
      min (5 / 2) defaultMaxIterations < 3 :=
  ⟨rfl, by decide +kernel, by decide +kernel⟩

end Clemvion.Engine.Executors
