import Clemvion.Engine.Rehydration

/-!
# RestoreLoss — when a restored entry is the one the engine held

The row keeps the whole envelope `{ config, output, … }`, so a successor of a restored node
receives the envelope, and the port selection is gone with the flattening.  An object never holds
its own stored form, hence no output can hide the difference.
-/

open Clemvion.Js Clemvion.Js.Value Clemvion.Graph Clemvion.Execution

namespace Clemvion.Engine

/-! ## 1. The stored envelope -/

namespace HandlerReturn

variable (r : HandlerReturn)

theorem nodup_fields : (r.fields.map Prod.fst).Nodup := by
  simp [fields]

/-- What the row keeps under each key. -/
theorem lookup_stored (key : String) :
    (jsonFields r.fields).lookup key = (r.fields.lookup key).bind storedProperty :=
  lookup_jsonFields r.nodup_fields

/-- The envelope: the config echo and, unless it is undefined, the output. -/
def Envelope (fields : List (String × Value)) : Prop :=
  ("config", jsonRoundTrip (.obj r.config)) ∈ fields ∧
    (r.output ≠ .undefined → ("output", jsonRoundTrip r.output) ∈ fields)

theorem strip_stored : ∃ fields,
    stripControlFields { value := jsonRoundTrip r.toValue } = .obj fields ∧ r.Envelope fields := by
  refine ⟨(jsonFields r.fields).filter fun field => field.1 ∉ controlFields, rfl, ?_, ?_⟩
  · have hmem : ("config", Value.obj r.config) ∈ r.fields := by simp [fields]
    have hkept : decide ("config" ∉ controlFields) = true := by decide
    exact List.mem_filter.mpr ⟨mem_jsonFields hmem (by simp), hkept⟩
  · intro hundef
    have hmem : ("output", r.output) ∈ r.fields := by simp [fields]
    have hkept : decide ("output" ∉ controlFields) = true := by decide
    exact List.mem_filter.mpr ⟨mem_jsonFields hmem hundef, hkept⟩

theorem stored_not_filtered (sourcePort : String) :
    isPortFiltered (jsonRoundTrip r.toValue) sourcePort = false := by
  rw [isPortFiltered_eq]
  show isFilteredBy ((jsonFields r.fields).lookup "_selectedPort") sourcePort = false
  rw [lookup_stored]
  simp [fields, lookup_cons_ite, isFilteredBy]

/-! ## 2. No entry the engine holds carries the envelope -/

theorem mem_of_mem_selection {fields selected : List (String × Value)} {key : String} {v : Value}
    (hselected : (applyPortSelection { value := .obj fields }).value = .obj selected)
    (hmem : (key, v) ∈ selected) (hkey : key ≠ "_selectedPort" ∧ key ≠ "data") :
    (key, v) ∈ fields ∨ ∃ data, ("data", Value.obj data) ∈ fields ∧ (key, v) ∈ data := by
  by_cases hselects : SelectsPort fields
  · by_cases hdata : ∃ data, (Value.obj fields).field "data" = .obj data
    · obtain ⟨data, hdata⟩ := hdata
      rw [applyPortSelection_of_object hselects hdata] at hselected
      cases hselected
      obtain hmem | hextra := mem_spread ((mem_setKey hmem).resolve_right fun h => hkey.1 h.1)
      · exact .inr ⟨data, mem_of_field hdata (by simp), hmem⟩
      · exact .inl (List.mem_of_mem_filter hextra)
    · rw [applyPortSelection_of_bare hselects (by simpa using hdata)] at hselected
      cases hselected
      have hset := (mem_setKey hmem).resolve_right fun h => hkey.1 h.1
      have hextra := (mem_setKey hset).resolve_right fun h => hkey.2 h.1
      exact .inl (List.mem_of_mem_filter hextra)
  · rw [applyPortSelection_of_not hselects] at hselected
    cases hselected
    exact .inl hmem

theorem mem_objectBase {output : List (String × Value)} {key : String} {v : Value}
    (hmem : (key, v) ∈ r.objectBase output)
    (hkey : key ∉ controlFields ∧ key ≠ "data" ∧ key ≠ "_retryState") : (key, v) ∈ output := by
  have hne : key ≠ "status" ∧ key ≠ "port" ∧ key ≠ "_resumeState" := by
    refine ⟨?_, ?_, ?_⟩ <;> (rintro rfl; exact hkey.1 (by decide))
  have hfill : ∀ {base : List (String × Value)} {key' : String} {w : Value},
      (key, v) ∈ fillDefined base key' w → key ≠ key' → (key, v) ∈ base := by
    intro base key' w h hkey'
    unfold fillDefined at h
    split_ifs at h
    · exact (mem_setDefined h).resolve_right fun heq => hkey' heq.1
    · exact h
  have hport := hfill (hfill hmem hkey.2.2) hne.2.2
  unfold withPort at hport
  dsimp only at hport
  have hstatus : (key, v) ∈ setDefined output "status" r.statusValue := by
    split_ifs at hport
    · exact hport
    · have hset := (mem_setKey hport).resolve_right fun heq => hkey.2.1 heq.1
      exact (mem_setKey hset).resolve_right fun heq => hne.2.1 heq.1
    · exact (mem_setKey hport).resolve_right fun heq => hne.2.1 heq.1
  exact (mem_setDefined hstatus).resolve_right fun heq => hne.1 heq.1

/-- An object under `data` comes from the output, or is the output. -/
theorem data_mem_objectBase {output data : List (String × Value)}
    (hmem : ("data", Value.obj data) ∈ r.objectBase output) :
    ("data", Value.obj data) ∈ output ∨ data = output := by
  have hfill : ∀ {base : List (String × Value)} {key' : String} {w : Value},
      ("data", Value.obj data) ∈ fillDefined base key' w → "data" ≠ key' →
        ("data", Value.obj data) ∈ base := by
    intro base key' w h hkey'
    unfold fillDefined at h
    split_ifs at h
    · exact (mem_setDefined h).resolve_right fun heq => hkey' heq.1
    · exact h
  have hport := hfill (hfill hmem (by decide)) (by decide)
  unfold withPort at hport
  dsimp only at hport
  split_ifs at hport
  · exact .inl ((mem_setDefined hport).resolve_right fun heq => absurd heq.1 (by decide))
  · obtain hset | ⟨-, hdata⟩ := mem_setKey hport
    · have hstatus := (mem_setKey hset).resolve_right fun heq => absurd heq.1 (by decide)
      exact .inl ((mem_setDefined hstatus).resolve_right fun heq => absurd heq.1 (by decide))
    · cases hdata
      exact .inr rfl
  · have hstatus := (mem_setKey hport).resolve_right fun heq => absurd heq.1 (by decide)
    exact .inl ((mem_setDefined hstatus).resolve_right fun heq => absurd heq.1 (by decide))

/-- The stripped form of an unmarked object output holds only what the object held. -/
theorem mem_of_mem_strip {fields stripped : List (String × Value)} {key : String} {v : Value}
    (hstrip : stripControlFields (applyPortSelection { value := .obj fields }) = .obj stripped)
    (hmem : (key, v) ∈ stripped) (hkey : key ≠ "_selectedPort" ∧ key ≠ "data") :
    (key, v) ∈ fields ∨ ∃ data, ("data", Value.obj data) ∈ fields ∧ (key, v) ∈ data := by
  obtain ⟨selected, hselected, hunwrapped⟩ : ∃ selected,
      (applyPortSelection { value := .obj fields }).value = .obj selected ∧
        (applyPortSelection { value := .obj fields }).wrapped = false := by
    by_cases hselects : SelectsPort fields
    · by_cases hdata : ∃ data, (Value.obj fields).field "data" = .obj data
      · obtain ⟨data, hdata⟩ := hdata
        rw [applyPortSelection_of_object hselects hdata]
        exact ⟨_, rfl, rfl⟩
      · rw [applyPortSelection_of_bare hselects (by simpa using hdata)]
        exact ⟨_, rfl, rfl⟩
    · rw [applyPortSelection_of_not hselects]
      exact ⟨_, rfl, rfl⟩
  unfold stripControlFields at hstrip
  rw [hunwrapped, hselected] at hstrip
  cases hstrip
  exact mem_of_mem_selection hselected (List.mem_of_mem_filter hmem) hkey

theorem strip_flat_of_envelope (hobj : ∀ fields, r.output ≠ .obj fields)
    (hflat : r.flat = applyPortSelection { value := .obj r.envelope, wrapped := true }) :
    stripControlFields r.flat = r.output := by
  obtain ⟨fields, hfields, hdata, -, -⟩ := r.flat_of_envelope hobj
  rw [hflat, hfields]
  exact hdata

/-- The flat form of anything but an object: the marked envelope, the output as it is, or the
config echo. -/
theorem flat_of_not_object (hobj : ∀ fields, r.output ≠ .obj fields) :
    ((r.output = .undefined ∨ r.output = .null) → r.NullFits) ∧
        (r.flat = applyPortSelection { value := .obj r.envelope, wrapped := true } ∨
          r.flat = { value := r.output }) ∨
      (r.output = .undefined ∨ r.output = .null) ∧ ¬ r.NullFits ∧
        r.flat = applyPortSelection { value := .obj r.configEcho } := by
  have hselect : applyPortSelection { value := r.output } = { value := r.output } := by
    cases hv : r.output with
    | obj fields => exact absurd hv (hobj fields)
    | _ => rfl
  by_cases hnullish : r.output = .undefined ∨ r.output = .null
  · have hflat := r.flat_of_nullish hnullish
    by_cases hsingle : r.SinglePortOnly
    · rw [r.flatOfNullish_of_singlePortOnly hsingle] at hflat
      exact .inl ⟨fun _ => .inl hsingle, .inl hflat⟩
    · rw [r.flatOfNullish_of_not hsingle] at hflat
      by_cases hecho : r.HasEcho
      · rw [if_pos hecho] at hflat
        exact .inr ⟨hnullish, fun h => h.elim hsingle fun hno => hno hecho, hflat⟩
      · rw [if_neg hecho, hselect] at hflat
        exact .inl ⟨fun _ => .inr hecho, .inr hflat⟩
  · have hbareOutput : r.BareOutput :=
      ⟨fun h => hnullish (.inl h), fun h => hnullish (.inr h), hobj⟩
    have hflat : r.flat = applyPortSelection (toEngineFlatShape r.adapted) := rfl
    rw [r.toEngineFlatShape_of_bare hbareOutput] at hflat
    refine .inl ⟨fun h => absurd h hnullish, ?_⟩
    by_cases hcontrol : r.hasControl = true
    · rw [if_pos hcontrol] at hflat
      exact .inl hflat
    · rw [if_neg hcontrol, hselect] at hflat
      exact .inr hflat

/-- Anything but an object arrives bare, or as the config echo. -/
theorem strip_flat_of_not_object (hobj : ∀ fields, r.output ≠ .obj fields) :
    stripControlFields r.flat = r.output ∨
      r.flat = applyPortSelection { value := .obj r.configEcho } := by
  obtain ⟨-, henvelope | hbare⟩ | ⟨-, -, hecho⟩ := r.flat_of_not_object hobj
  · exact .inl (r.strip_flat_of_envelope hobj henvelope)
  · left
    rw [hbare]
    cases hv : r.output with
    | obj fields => exact absurd hv (hobj fields)
    | _ => rfl
  · exact .inr hecho

/-- The flat form of a return never carries the envelope of that return. -/
theorem flat_not_envelope {stripped : List (String × Value)}
    (hstrip : stripControlFields r.flat = .obj stripped) : ¬ r.Envelope stripped := by
  rintro ⟨hconfig, houtputMem⟩
  by_cases hobj : ∃ output, r.output = .obj output
  · obtain ⟨output, houtput⟩ := hobj
    rw [flat_eq_applyPortSelection houtput] at hstrip
    have hmem := houtputMem (by simp [houtput])
    rw [houtput] at hmem
    have hne : jsonRoundTrip (.obj output) ≠ .undefined := by simp
    have hown : ("output", jsonRoundTrip (.obj output)) ∉ output := by
      intro h
      have hlt := jsonSize_lt_of_mem h hne
      simp at hlt
    obtain hbase | ⟨data, hdata, hinner⟩ := mem_of_mem_strip hstrip hmem (by decide)
    · exact hown (r.mem_objectBase hbase (by decide))
    · obtain hnested | rfl := r.data_mem_objectBase hdata
      · have h₁ := jsonSize_lt_of_mem hinner hne
        have h₂ := jsonSize_lt_of_mem hnested (by simp)
        rw [jsonSize_jsonRoundTrip] at h₁
        omega
      · exact hown hinner
  · have hobj' : ∀ fields, r.output ≠ .obj fields := fun fields h => hobj ⟨fields, h⟩
    obtain hbare | hecho := r.strip_flat_of_not_object hobj'
    · rw [hbare] at hstrip
      exact hobj' stripped hstrip
    · rw [hecho] at hstrip
      have hne : jsonRoundTrip (.obj r.config) ≠ .undefined := by simp
      obtain hmem | ⟨data, hdata, hinner⟩ := mem_of_mem_strip hstrip hconfig (by decide)
      · have hlt := jsonSize_lt_of_mem (r.mem_configEcho hmem (by decide)) hne
        simp at hlt
      · have h₁ := jsonSize_lt_of_mem hinner hne
        have h₂ := jsonSize_lt_of_mem (r.mem_configEcho hdata (by decide)) (by simp)
        rw [jsonSize_jsonRoundTrip] at h₁
        omega

/-! ## 3. With an outgoing edge the restore shows -/

variable {r}

/-- No run output has a key `config`. -/
theorem config_not_mem_output (run : NodeRun) {output : List (String × Value)}
    (houtput : run.output = some output) (v : Value) : ("config", v) ∉ output := by
  cases run with
  | plain => cases houtput
  | foreach result =>
    cases houtput
    unfold foreachOutput
    dsimp only
    split_ifs <;> simp
  | map result =>
    cases houtput
    simp [mapOutput]
  | loop result =>
    cases houtput
    simp [loopOutput]
  | parallel branches skipped metadata =>
    cases houtput
    unfold parallelOutput
    dsimp only
    split_ifs <;> simp

theorem liveEntry_executed (run : NodeRun) : (r.liveEntry run).executed = true := by
  cases run <;> rfl

theorem liveEntry_flat (run : NodeRun) : (r.liveEntry run).flat =
    match run, run.output with
    | .parallel _ _ _, some output =>
      { value := .obj (spread [("_selectedPort", .str "done")] (.obj output)) }
    | _, some output => { value := .obj output }
    | _, none => r.flat := by
  cases run <;> rfl

/-- Whatever the kind of the node, its live entry does not carry the envelope. -/
theorem live_not_envelope {run : NodeRun} {stripped : List (String × Value)}
    (hstrip : stripControlFields (r.liveEntry run).flat = .obj stripped) :
    ¬ r.Envelope stripped := by
  rw [liveEntry_flat] at hstrip
  cases run with
  | plain => exact r.flat_not_envelope hstrip
  | foreach result =>
    cases hstrip
    exact fun h => config_not_mem_output (.foreach result) rfl _ (List.mem_of_mem_filter h.1)
  | map result =>
    cases hstrip
    exact fun h => config_not_mem_output (.map result) rfl _ (List.mem_of_mem_filter h.1)
  | loop result =>
    cases hstrip
    exact fun h => config_not_mem_output (.loop result) rfl _ (List.mem_of_mem_filter h.1)
  | parallel branches skipped metadata =>
    cases hstrip
    intro h
    obtain hmem | hmem := mem_spread (List.mem_of_mem_filter h.1)
    · simp at hmem
    · exact config_not_mem_output (.parallel branches skipped metadata) rfl _ hmem

variable (r)

/-- The entry that a COMPLETED row gives back. -/
def storedEntry : NodeEntry where
  executed := true
  flat := { value := jsonRoundTrip r.toValue }
  structured := some (deriveStructured { value := jsonRoundTrip r.toValue })

/-- The entry of a node that has no row to restore. -/
def absentEntry : NodeEntry where
  executed := false
  flat := { value := .undefined }
  structured := none

variable {r} {nodeId : String} {edges : List (GraphEdge String)}

/-- A successor behind an open port, when no other node has executed. -/
theorem inputOf_executed (entry : NodeEntry) (hexecuted : entry.executed = true)
    {edge : GraphEdge String} (hedge : edge ∈ edges) (hsource : edge.sourceNodeId = nodeId)
    (hopen : isPortFiltered entry.flat.value edge.sourcePort = false) (workflowInput : Value) :
    entry.inputOf nodeId edge.targetNodeId edges .none workflowInput =
      if (edges.filter fun e => e.targetNodeId = edge.targetNodeId).length = 1 then
        stripControlFields entry.flat
      else .obj [(nodeId, stripControlFields entry.flat)] := by
  have hdeliver : ∀ e : GraphEdge String, deliver (insert nodeId RunOutputs.none.executedNodes)
      (Function.update RunOutputs.none.nodeOutputCache nodeId entry.flat) e =
        if e.sourceNodeId = nodeId then
          if isPortFiltered entry.flat.value e.sourcePort then .withheld
          else .handed (stripControlFields entry.flat)
        else .absent := by
    intro e
    unfold deliver
    by_cases he : e.sourceNodeId = nodeId
    · simp [he]
    · simp [he, RunOutputs.none]
  unfold NodeEntry.inputOf gatherNodeInput
  rw [if_pos hexecuted]
  apply inputFrom_only
  · intro e _
    rw [hdeliver]
    by_cases he : e.sourceNodeId = nodeId
    · by_cases hfiltered : isPortFiltered entry.flat.value e.sourcePort = true
      · simp [he, hfiltered]
      · simp [he, hfiltered]
    · simp [he]
  · refine ⟨edge, List.mem_filter.mpr ⟨hedge, by simp⟩, ?_⟩
    rw [hdeliver, if_pos hsource, hopen]
    rfl

theorem inputOf_absent (targetId : String) (workflowInput : Value) :
    absentEntry.inputOf nodeId targetId edges .none workflowInput = workflowInput := by
  unfold NodeEntry.inputOf gatherNodeInput
  apply inputFrom_absent
  intro edge _
  simp [deliver, absentEntry, RunOutputs.none]

/-- An outgoing edge always shows the restore: its target receives the envelope, or nothing. -/
theorem no_edge_of_lossless {run : NodeRun} {restored : NodeEntry}
    (hrestored : restored = r.storedEntry ∨ restored = absentEntry)
    (h : LosslessRestore nodeId edges (r.liveEntry run) restored) :
    ∀ edge ∈ edges, edge.sourceNodeId ≠ nodeId := by
  intro edge hedge hsource
  have hfilter := h.filter edge hedge hsource
  have hinput := h.input edge hedge hsource .none
  have hrestoredOpen : isPortFiltered restored.flat.value edge.sourcePort = false := by
    obtain rfl | rfl := hrestored
    · exact r.stored_not_filtered edge.sourcePort
    · rfl
  rw [hrestoredOpen] at hfilter
  have hlive := inputOf_executed _ (liveEntry_executed run) hedge hsource hfilter
  obtain rfl | rfl := hrestored
  · have hstored := inputOf_executed r.storedEntry rfl hedge hsource hrestoredOpen
    have hsame : stripControlFields (r.liveEntry run).flat =
        stripControlFields r.storedEntry.flat := by
      have heq := hinput .undefined
      rw [hlive, hstored] at heq
      split_ifs at heq
      · exact heq
      · simpa using heq
    obtain ⟨fields, hstrip, henvelope⟩ := r.strip_stored
    exact live_not_envelope (hsame.trans hstrip) henvelope
  · have hundef := hinput .undefined
    have hnull := hinput .null
    rw [hlive, inputOf_absent] at hundef hnull
    rw [hundef] at hnull
    cases hnull

/-! ## 4. Without one, `$node` tells them apart -/

variable (r)

/-- The config echo of a null output reads as a null output itself. -/
def EchoReadsNull : Prop :=
  let echo := (applyPortSelection { value := .obj r.configEcho }).value
  isCanonicalHandlerOutput echo ∧ echo.field "output" = .null

/-- The keys that the flattening of an object output sets or drops. -/
def Overwrites (output : List (String × Value)) (key : String) : Prop :=
  key = "status" ∧ r.status ≠ none ∨ key = "_selectedPort" ∧ r.port ≠ none ∨
    key = "port" ∧ r.port ≠ none ∧ (Value.obj output).field "data" ≠ .undefined

/-- The flattening leaves an object output what its stored form is. -/
structure ObjectKept (output : List (String × Value)) : Prop where
  plain : ¬ isCanonicalHandlerOutput (jsonRoundTrip (.obj output))
  stored : ∀ key, ¬ r.Overwrites output key → output.lookup key = (jsonFields output).lookup key
  status : r.status ≠ none → (jsonFields output).lookup "status" = some r.statusValue
  resume : r.resumeState ≠ none → (Value.obj output).field "_resumeState" ≠ .undefined
  retry : r.retryState ≠ none → (Value.obj output).field "_retryState" ≠ .undefined
  unselected : r.port = none → ¬ SelectsPort output
  selected : r.port ≠ none → (jsonFields output).lookup "_selectedPort" = some r.portValue ∧
    ∀ data, (Value.obj output).field "data" ≠ .obj data
  port : r.port ≠ none → (Value.obj output).field "data" ≠ .undefined →
    (jsonFields output).lookup "port" = none

/-- What `$node` reads survives: a container or parallel output equals the stored output of its
handler; a plain output has a JSON form and is its own flat form. -/
def OutputKept (run : NodeRun) : Prop :=
  match run.output with
  | some output => SameProperties (.obj output) (jsonRoundTrip r.output)
  | none =>
    match r.output with
    | .undefined => False
    | .null => r.NullFits ∨ r.EchoReadsNull
    | .obj output => r.ObjectKept output
    | output => jsonRoundTrip output = output

theorem storedEntry_nodeOutput : r.storedEntry.nodeOutput =
    if r.output = .undefined then some (jsonRoundTrip r.toValue)
    else some (jsonRoundTrip r.output) := by
  have hconfig : (jsonFields r.fields).lookup "config" = some (jsonRoundTrip (.obj r.config)) := by
    rw [lookup_stored]
    simp [fields, storedProperty]
  have houtput : (jsonFields r.fields).lookup "output" = storedProperty r.output := by
    rw [lookup_stored]
    simp [fields, lookup_cons_ite]
  have hvalue : jsonRoundTrip r.toValue = .obj (jsonFields r.fields) := rfl
  have hne : jsonRoundTrip r.toValue ≠ .undefined := by simp [toValue]
  unfold NodeEntry.nodeOutput storedEntry
  dsimp only
  rw [if_neg hne]
  unfold deriveStructured isCanonicalHandlerOutput
  dsimp only
  rw [hvalue, hasField_eq_isSome, hasField_eq_isSome, hconfig, houtput]
  by_cases hundef : r.output = .undefined
  · rw [if_pos hundef, hundef]
    rfl
  · rw [if_neg hundef, storedProperty, if_neg hundef]
    show some ((Value.obj (jsonFields r.fields)).field "output") = _
    rw [field_eq_getD, houtput, storedProperty, if_neg hundef]
    rfl

theorem liveEntry_nodeOutput_of_run {run : NodeRun} {output : List (String × Value)}
    (houtput : run.output = some output) : (r.liveEntry run).nodeOutput = some (.obj output) := by
  have hconfig : (Value.obj output).hasField "config" = false := by
    rw [hasField_eq_isSome]
    cases hlookup : output.lookup "config" with
    | none => rfl
    | some v => exact absurd (mem_of_lookup hlookup) (config_not_mem_output run houtput v)
  have hderived : (deriveStructured { value := .obj output }).output = .obj output := by
    unfold deriveStructured isCanonicalHandlerOutput
    dsimp only
    rw [hconfig]
    rfl
  cases run with
  | plain => cases houtput
  | parallel branches skipped metadata =>
    cases houtput
    rfl
  | foreach result =>
    cases houtput
    exact congrArg some hderived
  | map result =>
    cases houtput
    exact congrArg some hderived
  | loop result =>
    cases houtput
    exact congrArg some hderived

/-! ### Object outputs -/

section Object

variable {r} {output : List (String × Value)}

theorem lookup_objectBase_kept
    (hresume : r.resumeState ≠ none → (Value.obj output).field "_resumeState" ≠ .undefined)
    (hretry : r.retryState ≠ none → (Value.obj output).field "_retryState" ≠ .undefined)
    (key : String) : (r.objectBase output).lookup key =
      if key = "status" ∧ r.status ≠ none then some r.statusValue
      else if key = "port" ∧ r.port ≠ none then some r.portValue
      else if key = "data" ∧ r.port ≠ none ∧ (Value.obj output).field "data" = .undefined then
        some (.obj output)
      else output.lookup key := by
  have hres : ¬ (key = "_resumeState" ∧ r.resumeState ≠ none ∧
      (Value.obj output).field "_resumeState" = .undefined) := fun h => hresume h.2.1 h.2.2
  have hret : ¬ (key = "_retryState" ∧ r.retryState ≠ none ∧
      (Value.obj output).field "_retryState" = .undefined) := fun h => hretry h.2.1 h.2.2
  rw [lookup_objectBase, if_neg hres, if_neg hret]

theorem lookup_of_objectBase {key : String} (h : (r.objectBase output).lookup key = none) :
    output.lookup key = none := by
  rw [lookup_objectBase] at h
  split_ifs at h
  exact h

/-- A state that the flattening adds is not in the stored output. -/
theorem not_added {key : String} {v : Value} (houtput : r.output = .obj output)
    (hundef : (Value.obj output).field key = .undefined) :
    (jsonFields output).lookup key ≠ some v := by
  rw [lookup_jsonFields_of_undefined (r.output_keys output houtput) hundef]
  simp

theorem kept_of_not_selects (houtput : r.output = .obj output) (hport : r.port = none)
    (hselects : ¬ SelectsPort output)
    (hplain : ¬ isCanonicalHandlerOutput (jsonRoundTrip (.obj output))) :
    (∀ key, (r.objectBase output).lookup key = (jsonFields output).lookup key) ↔
      r.ObjectKept output := by
  constructor
  · intro h
    have hresume : r.resumeState ≠ none →
        (Value.obj output).field "_resumeState" ≠ .undefined := by
      intro hne hundef
      apply not_added (v := r.resumeStateValue) houtput hundef
      rw [← h, lookup_objectBase]
      simp [hne, hundef]
    have hretry : r.retryState ≠ none → (Value.obj output).field "_retryState" ≠ .undefined := by
      intro hne hundef
      apply not_added (v := r.retryStateValue) houtput hundef
      rw [← h, lookup_objectBase]
      simp [hne, hundef]
    refine { plain := hplain, stored := ?_, status := ?_, resume := hresume, retry := hretry
             unselected := fun _ => hselects, selected := fun hne => absurd hport hne
             port := fun hne => absurd hport hne }
    · intro key hkey
      rw [← h, lookup_objectBase_kept hresume hretry, if_neg fun hs => hkey (.inl hs)]
      simp [hport]
    · intro hne
      rw [← h, lookup_objectBase_kept hresume hretry, if_pos ⟨rfl, hne⟩]
  · intro h key
    rw [lookup_objectBase_kept h.resume h.retry]
    by_cases hstatus : key = "status" ∧ r.status ≠ none
    · rw [if_pos hstatus, hstatus.1, h.status hstatus.2]
    · rw [if_neg hstatus, ← h.stored key (by simp [Overwrites, hport, hstatus])]
      simp [hport]

/-- An object under `data` is replaced by its own properties, which do not contain it. -/
theorem not_same_of_data_object (houtput : r.output = .obj output)
    {fields data : List (String × Value)} (hdata : (Value.obj output).field "data" = .obj data)
    (hlookup : fields.lookup "data" = data.lookup "data") :
    ¬ ∀ key, fields.lookup key = (jsonFields output).lookup key := by
  intro h
  have hstored : (jsonFields output).lookup "data" = some (jsonRoundTrip (.obj data)) := by
    have hmem := mem_of_field hdata (by simp)
    rw [lookup_jsonFields (r.output_keys output houtput),
      lookup_eq_some_of_mem (r.output_keys output houtput) hmem]
    rfl
  have hinner := h "data"
  rw [hlookup, hstored] at hinner
  have hlt := jsonSize_lt_of_mem (mem_of_lookup hinner) (by simp)
  simp at hlt

/-- A port that nobody declared is dropped, and its place is taken by a selection that no stored
output has. -/
theorem not_same_of_selects (houtput : r.output = .obj output) (hport : r.port = none)
    {fields : List (String × Value)}
    (hselected : fields.lookup "_selectedPort" =
      some ((Value.obj (r.objectBase output)).field "port"))
    (hdropped : fields.lookup "port" = none) :
    ¬ ∀ key, fields.lookup key = (jsonFields output).lookup key := by
  intro h
  have hnodup := r.output_keys output houtput
  have hbase : (Value.obj (r.objectBase output)).field "port" = (Value.obj output).field "port" := by
    rw [field_eq_getD, lookup_objectBase]
    simp [hport, field_eq_getD]
  have hundef : (Value.obj output).field "port" = .undefined := by
    have hstored := h "port"
    rw [hdropped, lookup_jsonFields hnodup] at hstored
    rw [field_eq_getD]
    cases hlookup : output.lookup "port" with
    | none => rfl
    | some v =>
      rw [hlookup, Option.bind_some, storedProperty] at hstored
      by_contra hne
      have hv : v ≠ .undefined := hne
      rw [if_neg hv] at hstored
      cases hstored
  have hstored : (jsonFields output).lookup "_selectedPort" = some .undefined := by
    rw [← h, hselected, hbase, hundef]
  exact lookup_jsonFields_ne_undefined hnodup hstored

theorem kept_of_selected (houtput : r.output = .obj output) (hport : r.port ≠ none)
    (hdata : ∀ data, (Value.obj output).field "data" ≠ .obj data)
    (hplain : ¬ isCanonicalHandlerOutput (jsonRoundTrip (.obj output)))
    {fields : List (String × Value)}
    (hselected : fields.lookup "_selectedPort" = some r.portValue)
    (hportKey : fields.lookup "port" =
      if (Value.obj output).field "data" = .undefined then output.lookup "port" else none)
    (hdataKey : fields.lookup "data" = output.lookup "data")
    (hrest : ∀ key, key ≠ "_selectedPort" → key ≠ "port" → key ≠ "data" →
      fields.lookup key = (r.objectBase output).lookup key) :
    (∀ key, fields.lookup key = (jsonFields output).lookup key) ↔ r.ObjectKept output := by
  constructor
  · intro h
    have hresume : r.resumeState ≠ none →
        (Value.obj output).field "_resumeState" ≠ .undefined := by
      intro hne hundef
      apply not_added (v := r.resumeStateValue) houtput hundef
      rw [← h, hrest _ (by decide) (by decide) (by decide), lookup_objectBase]
      simp [hne, hundef]
    have hretry : r.retryState ≠ none → (Value.obj output).field "_retryState" ≠ .undefined := by
      intro hne hundef
      apply not_added (v := r.retryStateValue) houtput hundef
      rw [← h, hrest _ (by decide) (by decide) (by decide), lookup_objectBase]
      simp [hne, hundef]
    refine { plain := hplain, stored := ?_, status := ?_, resume := hresume, retry := hretry
             unselected := fun hnone => absurd hnone hport, selected := fun _ => ⟨?_, hdata⟩
             port := ?_ }
    · intro key hkey
      have hne : key ≠ "_selectedPort" := fun heq => hkey (.inr (.inl ⟨heq, hport⟩))
      rw [← h]
      by_cases hportKey' : key = "port"
      · subst hportKey'
        have hundef : (Value.obj output).field "data" = .undefined := by
          by_contra hundef
          exact hkey (.inr (.inr ⟨rfl, hport, hundef⟩))
        rw [hportKey, if_pos hundef]
      · by_cases hdataKey' : key = "data"
        · rw [hdataKey', hdataKey]
        · rw [hrest key hne hportKey' hdataKey', lookup_objectBase_kept hresume hretry,
            if_neg fun hs => hkey (.inl hs)]
          simp [hportKey', hdataKey']
    · intro hne
      rw [← h, hrest _ (by decide) (by decide) (by decide),
        lookup_objectBase_kept hresume hretry, if_pos ⟨rfl, hne⟩]
    · rw [← h, hselected]
    · intro _ hne
      rw [← h, hportKey, if_neg hne]
  · intro h key
    by_cases hsel : key = "_selectedPort"
    · rw [hsel, hselected, (h.selected hport).1]
    · by_cases hportKey' : key = "port"
      · rw [hportKey', hportKey]
        split_ifs with hundef
        · exact h.stored "port" (by simp [Overwrites, hundef])
        · exact (h.port hport hundef).symm
      · by_cases hdataKey' : key = "data"
        · rw [hdataKey', hdataKey]
          exact h.stored "data" (by simp [Overwrites])
        · rw [hrest key hsel hportKey' hdataKey', lookup_objectBase_kept h.resume h.retry]
          by_cases hstatus : key = "status" ∧ r.status ≠ none
          · rw [if_pos hstatus, hstatus.1, h.status hstatus.2]
          · rw [if_neg hstatus, if_neg fun hp => hportKey' hp.1, if_neg fun hd => hdataKey' hd.1]
            exact h.stored key (by simp [Overwrites, hstatus, hsel, hportKey'])

/-- The flat form of an object output has the stored properties exactly when the output is
kept. -/
theorem flat_same_iff (houtput : r.output = .obj output)
    (hplain : ¬ isCanonicalHandlerOutput (jsonRoundTrip (.obj output))) :
    ∃ fields, r.flat = { value := .obj fields } ∧
      ((∀ key, fields.lookup key = (jsonFields output).lookup key) ↔ r.ObjectKept output) := by
  have hbaseData : (Value.obj (r.objectBase output)).field "data" =
      if r.port ≠ none ∧ (Value.obj output).field "data" = .undefined then .obj output
      else (Value.obj output).field "data" := field_data_objectBase
  by_cases hselects : r.port ≠ none ∨ SelectsPort output
  · by_cases hobject : ∃ data, (Value.obj output).field "data" = .obj data
    · -- an object under `data` is spread in its place
      obtain ⟨data, hdata⟩ := hobject
      have hbase : (Value.obj (r.objectBase output)).field "data" = .obj data := by
        rw [hbaseData, hdata]
        simp
      obtain ⟨fields, hflat, hlookup⟩ := flat_of_data_object houtput hselects hbase
      have hinner : fields.lookup "data" = data.lookup "data" := by
        rw [hlookup]
        rfl
      have hne := not_same_of_data_object houtput hdata hinner
      refine ⟨fields, hflat, iff_of_false hne fun hkept => ?_⟩
      by_cases hport : r.port = none
      · exact hkept.unselected hport (hselects.resolve_left (not_not.mpr hport))
      · exact (hkept.selected hport).2 data hdata
    · have hdata : ∀ data, (Value.obj output).field "data" ≠ .obj data := by simpa using hobject
      by_cases hport : r.port = none
      · have hbare : ∀ data, (Value.obj (r.objectBase output)).field "data" ≠ .obj data := by
          rw [hbaseData, if_neg fun h => h.1 hport]
          exact hdata
        obtain ⟨fields, hflat, hlookup⟩ := flat_of_data_bare houtput hselects hbare
        have hselected : fields.lookup "_selectedPort" =
            some ((Value.obj (r.objectBase output)).field "port") := by
          rw [hlookup]
          rfl
        have hdropped : fields.lookup "port" = none := by
          rw [hlookup]
          rfl
        have hne := not_same_of_selects houtput hport hselected hdropped
        refine ⟨fields, hflat, iff_of_false hne fun hkept => ?_⟩
        exact hkept.unselected hport (hselects.resolve_left (not_not.mpr hport))
      · by_cases hundef : (Value.obj output).field "data" = .undefined
        · -- the synthesised `data` is the output itself
          rw [if_pos ⟨hport, hundef⟩] at hbaseData
          obtain ⟨fields, hflat, hlookup⟩ := flat_of_data_object houtput hselects hbaseData
          refine ⟨fields, hflat, kept_of_selected houtput hport hdata hplain ?_ ?_ ?_ ?_⟩
          · rw [hlookup, if_pos rfl, field_port_objectBase hport]
          · rw [hlookup, if_pos hundef]
            rfl
          · rw [hlookup]
            rfl
          · intro key hsel hp hd
            rw [hlookup, if_neg hsel, if_neg fun h => h.elim hp hd]
            cases hbase : (r.objectBase output).lookup key with
            | none =>
              rw [lookup_of_objectBase hbase]
              rfl
            | some v => rfl
        · rw [if_neg fun h => hundef h.2] at hbaseData
          obtain ⟨fields, hflat, hlookup⟩ := flat_of_data_bare houtput hselects
            (fun data => hbaseData ▸ hdata data)
          refine ⟨fields, hflat, kept_of_selected houtput hport hdata hplain ?_ ?_ ?_ ?_⟩
          · rw [hlookup, if_pos rfl, field_port_objectBase hport]
          · rw [hlookup, if_neg hundef]
            rfl
          · rw [hlookup, if_neg (by decide), if_pos rfl, hbaseData, field_eq_getD]
            rw [field_eq_getD] at hundef
            cases hvalue : output.lookup "data" with
            | none => simp [hvalue] at hundef
            | some v => rfl
          · intro key hsel hp hd
            rw [hlookup, if_neg hsel, if_neg hd, if_neg hp]
  · have hport : r.port = none := by
      by_contra hne
      exact hselects (.inl hne)
    have hselects' : ¬ SelectsPort output := fun h => hselects (.inr h)
    exact ⟨_, flat_of_not_selects houtput hport hselects',
      kept_of_not_selects houtput hport hselects' hplain⟩

theorem sameProperties_obj_iff {v : Value} {fields : List (String × Value)} :
    SameProperties v (.obj fields) ↔
      ∃ fields', v = .obj fields' ∧ ∀ key, fields'.lookup key = fields.lookup key := by
  cases v with
  | obj fields' => simp [SameProperties]
  | _ => simp [SameProperties]

/-- An object inside the flat form is smaller than the output, so it does not read like it. -/
theorem field_output_not_same (houtput : r.output = .obj output) {fields : List (String × Value)}
    (hflat : r.flat = { value := .obj fields }) :
    ¬ SameProperties ((Value.obj fields).field "output") (.obj (jsonFields output)) := by
  rw [sameProperties_obj_iff]
  rintro ⟨inner, hinner, hsame⟩
  have hnodup := r.output_keys output houtput
  -- a property of the output is stored inside `inner`
  have hlt : ∀ key v, (key, v) ∈ output → v ≠ .undefined →
      jsonSize v < jsonSize (.obj inner) := by
    intro key v hmem hv
    have hlookup := hsame key
    rw [lookup_jsonFields hnodup, lookup_eq_some_of_mem hnodup hmem, Option.bind_some,
      storedProperty, if_neg hv] at hlookup
    have hsize := jsonSize_lt_of_mem (mem_of_lookup hlookup) (by simpa using hv)
    rwa [jsonSize_jsonRoundTrip] at hsize
  have hselected : (applyPortSelection { value := .obj (r.objectBase output) }).value =
      .obj fields := by
    rw [← flat_eq_applyPortSelection houtput, hflat]
  have hmem := mem_of_field hinner (by simp)
  have hself : ("output", Value.obj inner) ∉ output := by
    intro h
    exact absurd (hlt _ _ h (by simp)) (lt_irrefl _)
  obtain hbase | ⟨data, hdata, hnested⟩ := mem_of_mem_selection hselected hmem (by decide)
  · exact hself (r.mem_objectBase hbase (by decide))
  · obtain houter | rfl := r.data_mem_objectBase hdata
    · have h₁ := jsonSize_lt_of_mem hnested (by simp)
      have h₂ := hlt _ _ houter (by simp)
      omega
    · exact hself hnested

theorem canonical_congr {fields fields' : List (String × Value)}
    (h : ∀ key, fields.lookup key = fields'.lookup key) :
    isCanonicalHandlerOutput (.obj fields) = isCanonicalHandlerOutput (.obj fields') := by
  unfold isCanonicalHandlerOutput
  simp only [hasField_eq_isSome, h]

theorem derived_output_of_canonical {fields : List (String × Value)}
    (h : isCanonicalHandlerOutput (.obj fields) = true) :
    (deriveStructured { value := .obj fields }).output = (Value.obj fields).field "output" := by
  unfold deriveStructured
  rw [if_pos h]
  rfl

theorem derived_output_of_not_canonical {fields : List (String × Value)}
    (h : ¬ isCanonicalHandlerOutput (.obj fields) = true) :
    (deriveStructured { value := .obj fields }).output = .obj fields := by
  unfold deriveStructured
  rw [if_neg h]
  rfl

theorem derived_same_iff_objectKept (houtput : r.output = .obj output) :
    SameProperties (deriveStructured r.flat).output (.obj (jsonFields output)) ↔
      r.ObjectKept output := by
  by_cases hplain : isCanonicalHandlerOutput (jsonRoundTrip (.obj output)) = true
  · refine iff_of_false ?_ fun hkept => hkept.plain hplain
    obtain ⟨fields, hflat, -, -⟩ := exists_flat_fields houtput
    rw [hflat]
    by_cases hcanonical : isCanonicalHandlerOutput (.obj fields) = true
    · rw [derived_output_of_canonical hcanonical]
      exact field_output_not_same houtput hflat
    · rw [derived_output_of_not_canonical hcanonical]
      intro hsame
      exact hcanonical ((canonical_congr hsame).trans hplain)
  · obtain ⟨fields, hflat, hiff⟩ := flat_same_iff houtput hplain
    rw [hflat]
    by_cases hcanonical : isCanonicalHandlerOutput (.obj fields) = true
    · rw [derived_output_of_canonical hcanonical]
      refine iff_of_false (field_output_not_same houtput hflat) fun hkept => ?_
      exact hplain ((canonical_congr (hiff.mpr hkept)).symm.trans hcanonical)
    · rw [derived_output_of_not_canonical hcanonical]
      exact hiff

end Object

/-! ### Other outputs -/

theorem executedEntry_nodeOutput : r.executedEntry.nodeOutput =
    if r.flat.value = .undefined then none else some (deriveStructured r.flat).output := rfl

theorem nodeOutput_of_envelope (hobj : ∀ fields, r.output ≠ .obj fields)
    (hflat : r.flat = applyPortSelection { value := .obj r.envelope, wrapped := true }) :
    r.executedEntry.nodeOutput = some r.output := by
  obtain ⟨fields, hfields, hdata, -, hconfig⟩ := r.flat_of_envelope hobj
  have hcanonical : isCanonicalHandlerOutput (.obj fields) = false := by
    unfold isCanonicalHandlerOutput
    rw [hasField_eq_isSome, hconfig]
    rfl
  rw [executedEntry_nodeOutput, hflat, hfields]
  unfold deriveStructured
  dsimp only
  rw [if_neg (by simp), hcanonical]
  show some ((Value.obj fields).field "data") = _
  rw [hdata]

theorem nodeOutput_of_bare (hobj : ∀ fields, r.output ≠ .obj fields)
    (hflat : r.flat = { value := r.output }) :
    r.executedEntry.nodeOutput = if r.output = .undefined then none else some r.output := by
  rw [executedEntry_nodeOutput, hflat]
  cases hv : r.output with
  | obj fields => exact absurd hv (hobj fields)
  | _ => rfl

/-- The config echo as `$node` reads it. -/
theorem nodeOutput_of_echo
    (hflat : r.flat = applyPortSelection { value := .obj r.configEcho }) :
    ∃ fields, (applyPortSelection { value := .obj r.configEcho }).value = .obj fields ∧
      r.executedEntry.nodeOutput =
        if isCanonicalHandlerOutput (.obj fields) then some ((Value.obj fields).field "output")
        else some (.obj fields) := by
  obtain ⟨fields, hvalue⟩ : ∃ fields,
      applyPortSelection { value := .obj r.configEcho } = { value := .obj fields } := by
    by_cases hselects : SelectsPort r.configEcho
    · by_cases hdata : ∃ data, (Value.obj r.configEcho).field "data" = .obj data
      · obtain ⟨data, hdata⟩ := hdata
        exact ⟨_, applyPortSelection_of_object hselects hdata⟩
      · exact ⟨_, applyPortSelection_of_bare hselects (by simpa using hdata)⟩
    · exact ⟨_, applyPortSelection_of_not hselects⟩
  refine ⟨fields, by rw [hvalue], ?_⟩
  rw [executedEntry_nodeOutput, hflat, hvalue, if_neg (by simp)]
  split_ifs with hcanonical
  · rw [derived_output_of_canonical hcanonical]
  · rw [derived_output_of_not_canonical hcanonical]

/-- An undefined output leaves no trace in the row, and the envelope comes back in its place. -/
theorem not_same_of_undefined (hundef : r.output = .undefined) :
    ¬ SameOutput r.executedEntry.nodeOutput (some (jsonRoundTrip r.toValue)) := by
  have hobj : ∀ fields, r.output ≠ .obj fields := by simp [hundef]
  have hconfig : (jsonFields r.fields).lookup "config" = some (jsonRoundTrip (.obj r.config)) := by
    rw [lookup_stored]
    simp [fields, storedProperty]
  have hsmall : ∀ {inner : List (String × Value)},
      ("config", jsonRoundTrip (.obj r.config)) ∈ inner →
        jsonSize (.obj r.config) < jsonSize (.obj inner) := by
    intro inner hmem
    have hlt := jsonSize_lt_of_mem hmem (by simp)
    rwa [jsonSize_jsonRoundTrip] at hlt
  obtain ⟨-, henvelope | hbare⟩ | ⟨-, -, hecho⟩ := r.flat_of_not_object hobj
  · rw [r.nodeOutput_of_envelope hobj henvelope, hundef]
    simp [SameOutput, SameProperties, toValue, jsonRoundTrip]
  · rw [r.nodeOutput_of_bare hobj hbare, hundef]
    simp [SameOutput]
  · obtain ⟨selected, hselected, hread⟩ := r.nodeOutput_of_echo hecho
    rw [hread]
    have hmem : ∀ {key v}, (key, v) ∈ selected → key = "config" ∨ key = "output" →
        v ≠ .undefined → jsonSize v < jsonSize (.obj r.config) := by
      intro key v hmem hkey hv
      have hne : key ≠ "_selectedPort" ∧ key ≠ "data" := by
        obtain rfl | rfl := hkey <;> decide
      have hcontrol : key ∉ controlFields := by
        obtain rfl | rfl := hkey <;> decide
      obtain hbase | ⟨data, hdata, hnested⟩ := mem_of_mem_selection hselected hmem hne
      · exact jsonSize_lt_of_mem (r.mem_configEcho hbase hcontrol) hv
      · have h₁ := jsonSize_lt_of_mem hnested hv
        have h₂ := jsonSize_lt_of_mem (r.mem_configEcho hdata (by decide)) (by simp)
        omega
    split_ifs with hcanonical
    · show ¬ SameProperties ((Value.obj selected).field "output") (.obj (jsonFields r.fields))
      rw [sameProperties_obj_iff]
      rintro ⟨inner, hinner, hsame⟩
      have hinnerSmall := hmem (mem_of_field hinner (by simp)) (.inr rfl) (by simp)
      have hconfigSmall := hsmall (mem_of_lookup ((hsame "config").trans hconfig))
      omega
    · show ¬ SameProperties (.obj selected) (.obj (jsonFields r.fields))
      intro hsame
      have hown := hmem (mem_of_lookup ((hsame "config").trans hconfig)) (.inl rfl) (by simp)
      simp at hown

theorem executed_same_iff :
    SameOutput r.executedEntry.nodeOutput r.storedEntry.nodeOutput ↔ r.OutputKept .plain := by
  rw [storedEntry_nodeOutput]
  unfold OutputKept NodeRun.output
  dsimp only
  cases houtput : r.output with
  | undefined =>
    rw [if_pos rfl]
    exact iff_of_false (r.not_same_of_undefined houtput) id
  | null =>
    have hobj : ∀ fields, r.output ≠ .obj fields := by simp [houtput]
    rw [if_neg (by simp)]
    obtain ⟨hfits, hflat⟩ | ⟨-, hfits, hecho⟩ := r.flat_of_not_object hobj
    · refine iff_of_true ?_ (.inl (hfits (.inr houtput)))
      obtain henvelope | hbare := hflat
      · rw [r.nodeOutput_of_envelope hobj henvelope, houtput]
        rfl
      · rw [r.nodeOutput_of_bare hobj hbare, houtput]
        rfl
    · obtain ⟨selected, hselected, hread⟩ := r.nodeOutput_of_echo hecho
      rw [hread]
      unfold EchoReadsNull
      dsimp only
      rw [hselected]
      split_ifs with hcanonical
      · show SameProperties ((Value.obj selected).field "output") .null ↔ _
        rw [sameProperties_of_not_object (by simp)]
        simp [hfits, hcanonical]
      · simp [SameOutput, SameProperties, jsonRoundTrip, hfits, hcanonical]
  | obj output =>
    rw [if_neg (by simp)]
    obtain ⟨fields, hflat, -, -⟩ := exists_flat_fields houtput
    have hread : r.executedEntry.nodeOutput = some (deriveStructured r.flat).output := by
      rw [executedEntry_nodeOutput, hflat, if_neg (by simp)]
    rw [hread]
    exact derived_same_iff_objectKept houtput
  | bool _ | num _ | str _ | arr _ =>
    have hobj : ∀ fields, r.output ≠ .obj fields := by simp [houtput]
    have hread : r.executedEntry.nodeOutput = some r.output := by
      obtain ⟨-, henvelope | hbare⟩ | ⟨hnullish, -, -⟩ := r.flat_of_not_object hobj
      · exact r.nodeOutput_of_envelope hobj henvelope
      · rw [r.nodeOutput_of_bare hobj hbare, if_neg (by simp [houtput])]
      · simp [houtput] at hnullish
    rw [hread, houtput, if_neg (by simp)]
    rw [sameOutput_some, sameProperties_of_not_object (jsonRoundTrip_ne_obj (by simp))]
    exact eq_comm

theorem live_same_iff (run : NodeRun) :
    SameOutput (r.liveEntry run).nodeOutput r.storedEntry.nodeOutput ↔ r.OutputKept run := by
  cases houtput : run.output with
  | none =>
    cases run with
    | plain => exact r.executed_same_iff
    | _ => cases houtput
  | some output =>
    rw [r.liveEntry_nodeOutput_of_run houtput, storedEntry_nodeOutput]
    unfold OutputKept
    rw [houtput]
    show _ ↔ SameProperties (.obj output) (jsonRoundTrip r.output)
    split_ifs with hundef
    · -- the stored envelope has a config, the run output has none
      refine iff_of_false ?_ (by simp [hundef, SameProperties, jsonRoundTrip])
      intro hsame
      have hconfig : (jsonFields r.fields).lookup "config" =
          some (jsonRoundTrip (.obj r.config)) := by
        rw [lookup_stored]
        simp [fields, storedProperty]
      have hmem := mem_of_lookup ((hsame "config").trans hconfig)
      exact config_not_mem_output run houtput _ hmem
    · rfl

/-- An entry that reads as nothing belongs to a node that neither waits nor failed. -/
theorem completed_of_no_output (run : NodeRun) (startedAt : Nat) (nodeId : String)
    (h : (r.liveEntry run).nodeOutput = none) :
    (r.persistedRow nodeId startedAt).status = .completed := by
  cases houtput : run.output with
  | some output =>
    rw [r.liveEntry_nodeOutput_of_run houtput] at h
    cases h
  | none =>
    have hplain : run = .plain := by
      cases run with
      | plain => rfl
      | _ => cases houtput
    subst hplain
    have hundef : r.flat.value = .undefined := by
      by_contra hne
      have hread : r.executedEntry.nodeOutput = none := h
      rw [executedEntry_nodeOutput, if_neg hne] at hread
      cases hread
    have herror : isErrorPortRouted r.flat = false := by
      unfold isErrorPortRouted
      rw [hundef]
      rfl
    have hstatus : r.status = none := by
      by_cases hobj : ∃ output, r.output = .obj output
      · obtain ⟨output, houtput⟩ := hobj
        obtain ⟨fields, hflat, -, -⟩ := exists_flat_fields houtput
        rw [hflat] at hundef
        cases hundef
      · have hobj' : ∀ fields, r.output ≠ .obj fields := fun fields h => hobj ⟨fields, h⟩
        obtain ⟨hfits, henvelope | hbare⟩ | ⟨-, -, hecho⟩ := r.flat_of_not_object hobj'
        · obtain ⟨fields, hfields, -, -, -⟩ := r.flat_of_envelope hobj'
          rw [henvelope, hfields] at hundef
          cases hundef
        · rw [hbare] at hundef
          obtain hsingle | hecho := hfits (.inl hundef)
          · exact hsingle.2.1
          · by_contra hne
            exact hecho (.inr (.inr (.inl hne)))
        · obtain ⟨fields, hfields, -⟩ := r.nodeOutput_of_echo hecho
          rw [hecho, hfields] at hundef
          cases hundef
    unfold persistedRow isBlocking
    simp [hstatus, herror]

/-! ## 5. The restore -/

theorem restored_entry (nodeId : String) (startedAt : Nat) (logs : List String)
    (rows : List NodeExecutionRow) (waitingNodeExec : Option NodeExecutionRow)
    (hlog : nodeId ∈ logs) (hrow : r.persistedRow nodeId startedAt ∈ rows)
    (honly : ∀ row ∈ rows, row.nodeId = nodeId → row = r.persistedRow nodeId startedAt)
    (hwaiting : ∀ row, waitingNodeExec = some row → row.nodeId ≠ nodeId) :
    (rehydrateContext logs rows waitingNodeExec).entry nodeId =
      if (r.persistedRow nodeId startedAt).status = .completed then r.storedEntry
      else absentEntry :=
  rehydrateContext_entry hlog hrow honly hwaiting rfl

/-- A restore is lossless exactly for a node without outgoing edges whose row is COMPLETED and
whose output reads like its stored form. -/
theorem rehydrateContext_lossless_iff (run : NodeRun) (nodeId : String) (startedAt : Nat)
    (edges : List (GraphEdge String)) (logs : List String) (rows : List NodeExecutionRow)
    (waitingNodeExec : Option NodeExecutionRow) (hlog : nodeId ∈ logs)
    (hrow : r.persistedRow nodeId startedAt ∈ rows)
    (honly : ∀ row ∈ rows, row.nodeId = nodeId → row = r.persistedRow nodeId startedAt)
    (hwaiting : ∀ row, waitingNodeExec = some row → row.nodeId ≠ nodeId) :
    LosslessRestore nodeId edges (r.liveEntry run)
        ((rehydrateContext logs rows waitingNodeExec).entry nodeId) ↔
      (∀ edge ∈ edges, edge.sourceNodeId ≠ nodeId) ∧
        (r.persistedRow nodeId startedAt).status = .completed ∧ r.OutputKept run := by
  rw [r.restored_entry nodeId startedAt logs rows waitingNodeExec hlog hrow honly hwaiting]
  constructor
  · intro h
    have hedges := no_edge_of_lossless (by split_ifs <;> simp) h
    have hcompleted : (r.persistedRow nodeId startedAt).status = .completed := by
      by_contra hne
      have hnode := h.node
      rw [if_neg hne] at hnode
      apply hne
      apply r.completed_of_no_output run startedAt nodeId
      cases hread : (r.liveEntry run).nodeOutput with
      | none => rfl
      | some v =>
        rw [hread] at hnode
        cases hnode
    refine ⟨hedges, hcompleted, ?_⟩
    rw [if_pos hcompleted] at h
    exact (r.live_same_iff run).mp h.node
  · rintro ⟨hedges, hcompleted, hkept⟩
    rw [if_pos hcompleted]
    exact {
      filter := fun edge hedge hsource => absurd hsource (hedges edge hedge)
      input := fun edge hedge hsource => absurd hsource (hedges edge hedge)
      node := (r.live_same_iff run).mpr hkept }

/-- A handler that answers `{ x: true }` and declares nothing else. -/
def plainReturn : HandlerReturn where
  config := []
  output := .obj [("x", .bool true)]
  output_keys := by
    intro fields h
    cases h
    decide

theorem plainReturn_completed : (plainReturn.persistedRow "a" 0).status = .completed := by
  decide

/-- Its entry survives the restore as long as nothing follows the node. -/
theorem plainReturn_lossless : LosslessRestore "a" [] (plainReturn.liveEntry .plain)
    ((rehydrateContext ["a"] [plainReturn.persistedRow "a" 0] none).entry "a") := by
  apply (rehydrateContext_lossless_iff plainReturn .plain "a" 0 [] ["a"]
    [plainReturn.persistedRow "a" 0] none (by simp) (by simp) (by simp) (by simp)).mpr
  refine ⟨by simp, plainReturn_completed, ?_⟩
  exact {
    plain := by decide
    stored := fun key _ => rfl
    status := fun h => absurd rfl h
    resume := fun h => absurd rfl h
    retry := fun h => absurd rfl h
    unselected := fun _ => by decide
    selected := fun h => absurd rfl h
    port := fun h => absurd rfl h }

/-- With a successor behind it the restored entry hands on `{ config, output }`. -/
theorem plainReturn_lossy : ¬ LosslessRestore "a" [⟨"a", "out", "b", "in"⟩]
    (plainReturn.liveEntry .plain)
    ((rehydrateContext ["a"] [plainReturn.persistedRow "a" 0] none).entry "a") := by
  have hentry := plainReturn.restored_entry "a" 0 ["a"] [plainReturn.persistedRow "a" 0] none
    (by simp) (by simp) (by simp) (by simp)
  rw [if_pos plainReturn_completed] at hentry
  intro h
  have hedge := no_edge_of_lossless (r := plainReturn) (.inl hentry) h
  exact hedge _ List.mem_cons_self rfl

end HandlerReturn

end Clemvion.Engine
