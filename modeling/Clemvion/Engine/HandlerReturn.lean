import Clemvion.Js.Properties
import Clemvion.Engine.GatherInput

/-!
# HandlerReturn — the flat form of what a handler returns

A handler returns a `NodeHandlerOutput`; `HandlerReturn` is that type, with the optional fields
as options.  The flat cache entry of the node is `applyPortSelection (toEngineFlatShape …)` of it,
read here key by key.
-/

open Clemvion.Js Clemvion.Js.Value Clemvion.Graph

namespace Clemvion.Engine

/-- `port?: string | string[]`. -/
inductive DeclaredPort
  | single (port : String)
  | several (ports : List String)
  deriving DecidableEq

def DeclaredPort.toValue : DeclaredPort → Value
  | .single port => .str port
  | .several ports => .arr (ports.map Value.str)

structure HandlerReturn where
  config : List (String × Value)
  output : Value
  metadata : Option (List (String × Value)) := none
  port : Option DeclaredPort := none
  status : Option String := none
  resumeState : Option (List (String × Value)) := none
  retryState : Option (List (String × Value)) := none
  /-- The keys of an object are distinct. -/
  output_keys : ∀ fields, output = .obj fields → (fields.map Prod.fst).Nodup

namespace HandlerReturn

/-- An absent optional property reads as `undefined`. -/
def optional {α : Type} (toValue : α → Value) (field : Option α) : Value :=
  (field.map toValue).getD .undefined

@[simp] theorem optional_eq_undefined_iff {α : Type} {toValue : α → Value} {field : Option α}
    (hvalue : ∀ a, toValue a ≠ .undefined) : optional toValue field = .undefined ↔ field = none := by
  cases field with
  | none => simp [optional]
  | some a => simp [optional, hvalue a]

variable (r : HandlerReturn)

def portValue : Value := optional DeclaredPort.toValue r.port
def statusValue : Value := optional Value.str r.status
def resumeStateValue : Value := optional Value.obj r.resumeState
def retryStateValue : Value := optional Value.obj r.retryState

/-- The object the handler returns. -/
def fields : List (String × Value) :=
  [("config", .obj r.config), ("output", r.output), ("meta", optional Value.obj r.metadata),
    ("port", r.portValue), ("status", r.statusValue), ("_resumeState", r.resumeStateValue),
    ("_retryState", r.retryStateValue)]

def toValue : Value := .obj r.fields

def adapted : NodeHandlerOutput where
  config := .obj r.config
  output := r.output
  metadata := optional Value.obj r.metadata
  port := r.portValue
  status := r.statusValue
  resumeState := r.resumeStateValue
  retryState := r.retryStateValue

theorem adaptHandlerReturn_toValue : adaptHandlerReturn r.toValue = .ok r.adapted := by
  simp [adaptHandlerReturn, isCanonicalHandlerOutput, toValue, fields, Value.hasField, Value.field,
    Value.lookup_cons_ite, nullish, adapted]

/-- The entry that `executeNode` writes into the flat cache. -/
def flat : FlatValue := applyPortSelection (toEngineFlatShape r.adapted)

theorem toValue_port_ne_undefined (port : DeclaredPort) : port.toValue ≠ .undefined := by
  cases port <;> simp [DeclaredPort.toValue]

@[simp] theorem portValue_eq_undefined_iff : r.portValue = .undefined ↔ r.port = none :=
  optional_eq_undefined_iff toValue_port_ne_undefined

@[simp] theorem statusValue_eq_undefined_iff : r.statusValue = .undefined ↔ r.status = none :=
  optional_eq_undefined_iff (by simp)

@[simp] theorem resumeStateValue_eq_undefined_iff :
    r.resumeStateValue = .undefined ↔ r.resumeState = none :=
  optional_eq_undefined_iff (by simp)

@[simp] theorem retryStateValue_eq_undefined_iff :
    r.retryStateValue = .undefined ↔ r.retryState = none :=
  optional_eq_undefined_iff (by simp)

end HandlerReturn

/-! ## 1. Reading what the flattening writes -/

theorem lookup_setDefined {fields : List (String × Value)} {key key' : String} {v : Value} :
    (setDefined fields key v).lookup key' =
      if key' = key ∧ v ≠ .undefined then some v else fields.lookup key' := by
  unfold setDefined
  by_cases hv : v = .undefined
  · rw [if_pos hv, if_neg fun h => h.2 hv]
  · rw [if_neg hv, lookup_setKey]
    simp [hv]

theorem nodup_setDefined {fields : List (String × Value)} {key : String} {v : Value}
    (hnodup : (fields.map Prod.fst).Nodup) : ((setDefined fields key v).map Prod.fst).Nodup := by
  unfold setDefined
  split_ifs
  · exact hnodup
  · exact nodup_setKey hnodup

theorem mem_setDefined {fields : List (String × Value)} {key key' : String} {v w : Value}
    (h : (key', w) ∈ setDefined fields key v) : (key', w) ∈ fields ∨ key' = key ∧ w = v := by
  unfold setDefined at h
  split_ifs at h
  · exact .inl h
  · exact mem_setKey h

theorem field_eq_getD (fields : List (String × Value)) (key : String) :
    (Value.obj fields).field key = (fields.lookup key).getD .undefined := rfl

theorem hasField_eq_isSome (fields : List (String × Value)) (key : String) :
    (Value.obj fields).hasField key = (fields.lookup key).isSome := rfl

/-- The properties that `applyPortSelection` takes over beside `data`. -/
def selectionExtra (fields : List (String × Value)) : List (String × Value) :=
  fields.filter fun field => field.1 ≠ "port" && field.1 ≠ "data"

theorem lookup_selectionExtra {fields : List (String × Value)} {key : String} :
    (selectionExtra fields).lookup key =
      if key = "port" ∨ key = "data" then none else fields.lookup key := by
  have hfilter : (fields.filter fun field => field.1 ≠ "port" && field.1 ≠ "data").lookup key =
      if (key ≠ "port" && key ≠ "data") then fields.lookup key else none :=
    lookup_filter_keys fun key => key ≠ "port" && key ≠ "data"
  unfold selectionExtra
  rw [hfilter]
  by_cases hport : key = "port" <;> by_cases hdata : key = "data" <;> simp [hport, hdata]

/-! ## 2. Port selection -/

/-- What `isPortFiltered` looks at. -/
def selectedPort : Value → Option Value
  | .obj fields => fields.lookup "_selectedPort"
  | _ => none

theorem selectedPort_obj (fields : List (String × Value)) :
    selectedPort (.obj fields) = fields.lookup "_selectedPort" := rfl

/-- The answer of `isPortFiltered` to a selection. -/
def isFilteredBy (selection : Option Value) (sourcePort : String) : Bool :=
  match selection with
  | none => false
  | some (.arr ports) => !ports.isEmpty && !(Value.str sourcePort ∈ ports)
  | some port => Value.str sourcePort ≠ port

theorem isPortFiltered_eq (v : Value) (sourcePort : String) :
    isPortFiltered v sourcePort = isFilteredBy (selectedPort v) sourcePort := by
  cases v with
  | obj fields =>
    show _ = isFilteredBy (fields.lookup "_selectedPort") sourcePort
    unfold isPortFiltered
    rw [hasField_eq_isSome, field_eq_getD]
    cases hselected : fields.lookup "_selectedPort" with
    | none => rfl
    | some port => cases port <;> rfl
  | _ => rfl

/-- `'port' in output && 'data' in output`. -/
def SelectsPort (fields : List (String × Value)) : Prop :=
  (fields.lookup "port").isSome ∧ (fields.lookup "data").isSome

instance (fields : List (String × Value)) : Decidable (SelectsPort fields) :=
  inferInstanceAs (Decidable (_ ∧ _))

section Selection

variable {fields base : List (String × Value)} {wrapped : Bool}

theorem applyPortSelection_of_not (h : ¬ SelectsPort fields) :
    applyPortSelection { value := .obj fields, wrapped } = { value := .obj fields, wrapped } := by
  unfold applyPortSelection
  dsimp only
  rw [if_neg]
  simpa [hasField_eq_isSome, SelectsPort] using h

theorem applyPortSelection_of_object (h : SelectsPort fields)
    (hdata : (Value.obj fields).field "data" = .obj base) :
    applyPortSelection { value := .obj fields, wrapped } =
      { value := .obj (setKey (spread base (.obj (selectionExtra fields))) "_selectedPort"
          ((Value.obj fields).field "port")) } := by
  unfold applyPortSelection
  dsimp only
  rw [if_pos (by simpa [hasField_eq_isSome, SelectsPort] using h), hdata]
  rfl

theorem applyPortSelection_of_bare (h : SelectsPort fields)
    (hdata : ∀ base, (Value.obj fields).field "data" ≠ .obj base) :
    applyPortSelection { value := .obj fields, wrapped } =
      { value := .obj (setKey (setKey (selectionExtra fields) "data"
          ((Value.obj fields).field "data")) "_selectedPort" ((Value.obj fields).field "port"))
        wrapped } := by
  unfold applyPortSelection
  dsimp only
  rw [if_pos (by simpa [hasField_eq_isSome, SelectsPort] using h)]
  cases hv : (Value.obj fields).field "data" with
  | obj base => exact absurd hv (hdata base)
  | _ => rfl

end Selection

/-! ## 3. Arrays and primitive outputs -/

namespace HandlerReturn

variable (r : HandlerReturn)

/-- An array or primitive output. -/
def BareOutput : Prop :=
  r.output ≠ .undefined ∧ r.output ≠ .null ∧ ∀ fields, r.output ≠ .obj fields

/-- `adapted.port || adapted.status || adapted._resumeState`. -/
def hasControl : Bool :=
  r.portValue.truthy || r.statusValue.truthy || r.resumeStateValue.truthy

/-- The envelope around an array or primitive output. -/
def envelope : List (String × Value) :=
  setDefined (setDefined (setDefined [("data", r.output)] "port" r.portValue) "status"
    r.statusValue) "_resumeState" r.resumeStateValue

theorem toEngineFlatShape_of_bare (h : r.BareOutput) :
    toEngineFlatShape r.adapted =
      if r.hasControl then { value := .obj r.envelope, wrapped := true }
      else { value := r.output } := by
  obtain ⟨hundef, hnull, hobj⟩ := h
  have houtput : r.adapted.output = r.output := rfl
  unfold toEngineFlatShape
  cases hv : r.output with
  | undefined => exact absurd hv hundef
  | null => exact absurd hv hnull
  | obj fields => exact absurd hv (hobj fields)
  | bool _ | num _ | str _ | arr _ =>
    rw [houtput, hv]
    dsimp only
    unfold flatOfBare hasControl envelope
    rw [houtput, hv]
    rfl

theorem lookup_envelope (key : String) :
    r.envelope.lookup key =
      if key = "_resumeState" ∧ r.resumeStateValue ≠ .undefined then some r.resumeStateValue
      else if key = "status" ∧ r.statusValue ≠ .undefined then some r.statusValue
      else if key = "port" ∧ r.portValue ≠ .undefined then some r.portValue
      else if key = "data" then some r.output else none := by
  unfold envelope
  rw [lookup_setDefined, lookup_setDefined, lookup_setDefined, lookup_cons_ite]
  rfl

theorem selectsPort_envelope : SelectsPort r.envelope ↔ r.port ≠ none := by
  unfold SelectsPort
  rw [lookup_envelope, lookup_envelope]
  by_cases hport : r.port = none <;> simp [hport]

theorem field_data_envelope : (Value.obj r.envelope).field "data" = r.output := by
  rw [field_eq_getD, lookup_envelope]
  simp

theorem field_port_envelope (h : r.port ≠ none) :
    (Value.obj r.envelope).field "port" = r.portValue := by
  rw [field_eq_getD, lookup_envelope]
  simp [h]

/-- An enveloped output keeps its mark, its data and the declared port, and gains no config. -/
theorem flat_of_envelope (hobj : ∀ fields, r.output ≠ .obj fields) :
    ∃ fields, applyPortSelection { value := .obj r.envelope, wrapped := true } =
        { value := .obj fields, wrapped := true } ∧
      (Value.obj fields).field "data" = r.output ∧
      selectedPort (.obj fields) = r.port.map DeclaredPort.toValue ∧
      fields.lookup "config" = none := by
  have hconfig : r.envelope.lookup "config" = none := by
    rw [lookup_envelope]
    simp
  by_cases hport : r.port = none
  · refine ⟨r.envelope, applyPortSelection_of_not ?_, r.field_data_envelope, ?_, hconfig⟩
    · rw [selectsPort_envelope]
      simpa using hport
    · rw [selectedPort_obj, lookup_envelope, hport]
      simp
  · refine ⟨_, applyPortSelection_of_bare (r.selectsPort_envelope.mpr hport) ?_, ?_, ?_, ?_⟩
    · rw [field_data_envelope]
      exact hobj
    · rw [field_eq_getD, lookup_setKey, lookup_setKey, field_data_envelope]
      simp
    · rw [selectedPort_obj, lookup_setKey, if_pos rfl, r.field_port_envelope hport]
      cases hvalue : r.port with
      | none => exact absurd hvalue hport
      | some port =>
        unfold portValue
        rw [hvalue]
        rfl
    · rw [lookup_setKey, lookup_setKey, lookup_selectionExtra]
      simpa using hconfig

/-! ## 4. Null and undefined outputs -/

/-- One port is selected and nothing else is declared. -/
def SinglePortOnly : Prop :=
  (∃ port, r.port = some (.single port)) ∧ r.status = none ∧ r.resumeState = none

/-- The config echo that stands in for a null output. -/
def configEcho : List (String × Value) :=
  setDefined (setDefined (setDefined (spread [] (.obj r.config)) "port" r.portValue) "status"
    r.statusValue) "_resumeState" r.resumeStateValue

/-- Something to echo. -/
def HasEcho : Prop :=
  r.config ≠ [] ∨ r.port ≠ none ∨ r.status ≠ none ∨ r.resumeState ≠ none

instance : Decidable r.HasEcho := inferInstanceAs (Decidable (_ ∨ _))

theorem envelope_of_singlePortOnly (h : r.SinglePortOnly) :
    r.envelope = [("data", r.output), ("port", r.portValue)] := by
  obtain ⟨⟨port, hport⟩, hstatus, hresume⟩ := h
  have hportValue : r.portValue ≠ .undefined := by simp [hport]
  unfold envelope setDefined
  rw [if_neg hportValue, if_pos (r.statusValue_eq_undefined_iff.mpr hstatus),
    if_pos (r.resumeStateValue_eq_undefined_iff.mpr hresume)]
  rfl

theorem flatOfNullish_of_singlePortOnly (h : r.SinglePortOnly) :
    flatOfNullish r.adapted = { value := .obj r.envelope, wrapped := true } := by
  rw [r.envelope_of_singlePortOnly h]
  obtain ⟨⟨port, hport⟩, hstatus, hresume⟩ := h
  have hportValue : r.adapted.port = .str port := by
    show r.portValue = _
    rw [portValue, hport]
    rfl
  have hstatusValue : r.adapted.status = .undefined := r.statusValue_eq_undefined_iff.mpr hstatus
  have hresumeValue : r.adapted.resumeState = .undefined :=
    r.resumeStateValue_eq_undefined_iff.mpr hresume
  unfold flatOfNullish
  rw [hportValue, hstatusValue, hresumeValue]
  rw [show r.portValue = .str port from hportValue]
  rfl

theorem flatOfNullish_of_not (h : ¬ r.SinglePortOnly) :
    flatOfNullish r.adapted =
      if r.HasEcho then { value := .obj r.configEcho } else { value := r.output } := by
  have hconfig : (r.adapted.config ≠ .null ∧ r.adapted.config ≠ .undefined ∧
      r.adapted.config.ownFields ≠ []) ↔ r.config ≠ [] := by
    simp [adapted, ownFields]
  have hspread : (if r.config ≠ [] then spread [] r.adapted.config else []) =
      spread [] (.obj r.config) := by
    split_ifs with hne
    · rfl
    · rw [not_not.mp hne]
      rfl
  have hecho : (r.config ≠ [] ∨ (r.portValue ≠ .undefined ∨ r.statusValue ≠ .undefined) ∨
      r.resumeStateValue ≠ .undefined) ↔ r.HasEcho := by
    simp [HasEcho, or_assoc]
  unfold flatOfNullish
  split
  · next port hport hstatus hresume =>
    refine absurd ⟨?_, r.statusValue_eq_undefined_iff.mp hstatus,
      r.resumeStateValue_eq_undefined_iff.mp hresume⟩ h
    have hvalue : r.portValue = .str port := hport
    unfold portValue optional at hvalue
    cases hdeclared : r.port with
    | none => rw [hdeclared] at hvalue; cases hvalue
    | some declared =>
      cases declared with
      | single port => exact ⟨port, rfl⟩
      | several ports => rw [hdeclared] at hvalue; cases hvalue
  · dsimp only
    simp only [hconfig, hspread]
    show (if r.config ≠ [] ∨ (r.portValue ≠ .undefined ∨ r.statusValue ≠ .undefined) ∨
      r.resumeStateValue ≠ .undefined then _ else _) = _
    simp only [hecho]
    rfl

theorem mem_configEcho {key : String} {v : Value} (h : (key, v) ∈ r.configEcho)
    (hkey : key ∉ controlFields) : (key, v) ∈ r.config := by
  have hne : key ≠ "port" ∧ key ≠ "status" ∧ key ≠ "_resumeState" := by
    refine ⟨?_, ?_, ?_⟩ <;> (rintro rfl; exact hkey (by decide))
  have hresume := (mem_setDefined h).resolve_right fun heq => hne.2.2 heq.1
  have hstatus := (mem_setDefined hresume).resolve_right fun heq => hne.2.1 heq.1
  have hport := (mem_setDefined hstatus).resolve_right fun heq => hne.1 heq.1
  exact (mem_spread hport).resolve_left (by simp)

/-! ## 5. Object outputs -/

variable (output : List (String × Value))

/-- `if (base[key] === undefined) base[key] = v`, for a declared `v`. -/
def fillDefined (base : List (String × Value)) (key : String) (v : Value) :
    List (String × Value) :=
  if (Value.obj base).field key = .undefined then setDefined base key v else base

/-- The declared port, and the `data` that `applyPortSelection` expects beside it. -/
def withPort (base : List (String × Value)) : List (String × Value) :=
  if r.portValue = .undefined then base
  else
    let base := setKey base "port" r.portValue
    if (Value.obj base).field "data" = .undefined then setKey base "data" (.obj output) else base

/-- The flat form of an object output before the port selection. -/
def objectBase : List (String × Value) :=
  fillDefined (fillDefined (r.withPort output (setDefined output "status" r.statusValue))
    "_resumeState" r.resumeStateValue) "_retryState" r.retryStateValue

theorem toEngineFlatShape_of_object {r : HandlerReturn} {output : List (String × Value)}
    (h : r.output = .obj output) :
    toEngineFlatShape r.adapted = { value := .obj (r.objectBase output) } := by
  have houtput : r.adapted.output = .obj output := h
  unfold toEngineFlatShape
  rw [houtput]
  rfl

theorem lookup_fillDefined {base : List (String × Value)} {key key' : String} {v : Value} :
    (fillDefined base key v).lookup key' =
      if key' = key ∧ (Value.obj base).field key = .undefined ∧ v ≠ .undefined then some v
      else base.lookup key' := by
  unfold fillDefined
  by_cases hundef : (Value.obj base).field key = .undefined
  · rw [if_pos hundef, lookup_setDefined]
    simp [hundef]
  · rw [if_neg hundef, if_neg fun h => hundef h.2.1]

theorem lookup_withPort {base : List (String × Value)} {key : String} :
    (r.withPort output base).lookup key =
      if r.port = none then base.lookup key
      else if key = "data" ∧ (Value.obj base).field "data" = .undefined then some (.obj output)
      else if key = "port" then some r.portValue
      else base.lookup key := by
  unfold withPort
  by_cases hport : r.port = none
  · rw [if_pos (r.portValue_eq_undefined_iff.mpr hport), if_pos hport]
  · have hdata : (Value.obj (setKey base "port" r.portValue)).field "data" =
        (Value.obj base).field "data" := by
      rw [field_eq_getD, lookup_setKey, if_neg (by decide)]
      rfl
    rw [if_neg (by simpa using hport), if_neg hport]
    dsimp only
    rw [hdata]
    by_cases hundef : (Value.obj base).field "data" = .undefined
    · rw [if_pos hundef, lookup_setKey, lookup_setKey]
      simp [hundef]
    · rw [if_neg hundef, lookup_setKey]
      simp [hundef]

/-- What each key of the flat form holds before the port selection. -/
theorem lookup_objectBase (key : String) :
    (r.objectBase output).lookup key =
      if key = "status" ∧ r.status ≠ none then some r.statusValue
      else if key = "port" ∧ r.port ≠ none then some r.portValue
      else if key = "data" ∧ r.port ≠ none ∧ (Value.obj output).field "data" = .undefined then
        some (.obj output)
      else if key = "_resumeState" ∧ r.resumeState ≠ none ∧
          (Value.obj output).field "_resumeState" = .undefined then some r.resumeStateValue
      else if key = "_retryState" ∧ r.retryState ≠ none ∧
          (Value.obj output).field "_retryState" = .undefined then some r.retryStateValue
      else output.lookup key := by
  have hkeys : key = "status" ∨ key = "port" ∨ key = "data" ∨ key = "_resumeState" ∨
      key = "_retryState" ∨ (key ≠ "status" ∧ key ≠ "port" ∧ key ≠ "data" ∧
        key ≠ "_resumeState" ∧ key ≠ "_retryState") := by tauto
  unfold objectBase
  simp only [lookup_fillDefined, lookup_withPort, lookup_setDefined, field_eq_getD, ne_eq,
    statusValue_eq_undefined_iff, resumeStateValue_eq_undefined_iff,
    retryStateValue_eq_undefined_iff]
  rcases hkeys with rfl | rfl | rfl | rfl | rfl | ⟨h₁, h₂, h₃, h₄, h₅⟩
  · by_cases hport : r.port = none <;> simp [hport]
  · by_cases hport : r.port = none <;> simp [hport]
  · by_cases hport : r.port = none <;> simp [hport]
  · by_cases hport : r.port = none <;> simp [hport, and_comm]
  · by_cases hport : r.port = none <;> simp [hport, and_comm]
  · by_cases hport : r.port = none <;> simp [hport, h₁, h₂, h₃, h₄, h₅]

theorem nodup_objectBase {output : List (String × Value)}
    (hnodup : (output.map Prod.fst).Nodup) : ((r.objectBase output).map Prod.fst).Nodup := by
  have hfill : ∀ {base : List (String × Value)} {key : String} {v : Value},
      (base.map Prod.fst).Nodup → ((fillDefined base key v).map Prod.fst).Nodup := by
    intro base key v hbase
    unfold fillDefined
    split_ifs
    · exact nodup_setDefined hbase
    · exact hbase
  have hport : ∀ {base : List (String × Value)}, (base.map Prod.fst).Nodup →
      ((r.withPort output base).map Prod.fst).Nodup := by
    intro base hbase
    unfold withPort
    dsimp only
    split_ifs
    · exact hbase
    · exact nodup_setKey (nodup_setKey hbase)
    · exact nodup_setKey hbase
  exact hfill (hfill (hport (nodup_setDefined hnodup)))

theorem selectsPort_objectBase :
    SelectsPort (r.objectBase output) ↔ r.port ≠ none ∨ SelectsPort output := by
  unfold SelectsPort
  rw [lookup_objectBase, lookup_objectBase]
  by_cases hport : r.port = none
  · simp [hport]
  · by_cases hdata : (Value.obj output).field "data" = .undefined
    · simp [hport, hdata]
    · have hsome : (output.lookup "data").isSome := by
        rw [field_eq_getD] at hdata
        cases hlookup : output.lookup "data" with
        | none => simp [hlookup] at hdata
        | some v => rfl
      simp [hport, hdata, hsome]

section Flat

variable {r output} (h : r.output = .obj output)

include h

theorem flat_eq_applyPortSelection :
    r.flat = applyPortSelection { value := .obj (r.objectBase output) } := by
  unfold flat
  rw [toEngineFlatShape_of_object h]

/-- No port is selected. -/
theorem flat_of_not_selects (hport : r.port = none) (hselects : ¬ SelectsPort output) :
    r.flat = { value := .obj (r.objectBase output) } := by
  rw [flat_eq_applyPortSelection h]
  apply applyPortSelection_of_not
  rw [selectsPort_objectBase]
  simp [hport, hselects]

/-- The `data` of the flat form is an object and is spread. -/
theorem flat_of_data_object (hselects : r.port ≠ none ∨ SelectsPort output)
    {data : List (String × Value)}
    (hdata : (Value.obj (r.objectBase output)).field "data" = .obj data) :
    ∃ fields, r.flat = { value := .obj fields } ∧ ∀ key, fields.lookup key =
      if key = "_selectedPort" then some ((Value.obj (r.objectBase output)).field "port")
      else if key = "port" ∨ key = "data" then data.lookup key
      else ((r.objectBase output).lookup key).or (data.lookup key) := by
  have hextra : ((selectionExtra (r.objectBase output)).map Prod.fst).Nodup :=
    nodup_filter_keys (r.nodup_objectBase (r.output_keys output h)) _
  have hbase := (r.selectsPort_objectBase output).mpr hselects
  refine ⟨_, (flat_eq_applyPortSelection h).trans (applyPortSelection_of_object hbase hdata), ?_⟩
  · intro key
    rw [lookup_setKey, lookup_spread hextra, lookup_selectionExtra]
    split_ifs <;> rfl

/-- The `data` of the flat form is kept. -/
theorem flat_of_data_bare (hselects : r.port ≠ none ∨ SelectsPort output)
    (hdata : ∀ data, (Value.obj (r.objectBase output)).field "data" ≠ .obj data) :
    ∃ fields, r.flat = { value := .obj fields } ∧ ∀ key, fields.lookup key =
      if key = "_selectedPort" then some ((Value.obj (r.objectBase output)).field "port")
      else if key = "data" then some ((Value.obj (r.objectBase output)).field "data")
      else if key = "port" then none
      else (r.objectBase output).lookup key := by
  have hbase := (r.selectsPort_objectBase output).mpr hselects
  refine ⟨_, (flat_eq_applyPortSelection h).trans (applyPortSelection_of_bare hbase hdata), ?_⟩
  · intro key
    rw [lookup_setKey, lookup_setKey, lookup_selectionExtra]
    by_cases hkey : key = "data" <;> simp [hkey]

end Flat

end HandlerReturn

end Clemvion.Engine
