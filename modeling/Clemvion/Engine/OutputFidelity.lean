import Clemvion.Engine.HandlerReturn

/-!
# OutputFidelity — what a successor sees of a handler's return

The return goes through `adaptHandlerReturn`, `toEngineFlatShape` and `applyPortSelection` into
the flat cache, and out of it through `isPortFiltered` and `gatherNodeInput`.  It arrives as
declared unless its output looks like something the engine built itself.
-/

open Clemvion.Js Clemvion.Js.Value Clemvion.Graph

namespace Clemvion.Engine

/-- Equal, up to the order of an object's properties. -/
def SameProperties : Value → Value → Prop
  | .obj fields, .obj fields' => ∀ key, fields.lookup key = fields'.lookup key
  | v, w => v = w

theorem sameProperties_refl (v : Value) : SameProperties v v := by
  cases v <;> simp [SameProperties]

theorem sameProperties_of_not_object {v w : Value} (hw : ∀ fields, w ≠ .obj fields) :
    SameProperties v w ↔ v = w := by
  cases v with
  | obj fields =>
    cases w with
    | obj fields' => exact absurd rfl (hw fields')
    | _ => rfl
  | _ => rfl

/-- The properties that survive `stripControlFields`. -/
theorem lookup_stripped {fields : List (String × Value)} {key : String} :
    (fields.filter fun field => field.1 ∉ controlFields).lookup key =
      if key ∈ controlFields then none else fields.lookup key := by
  rw [lookup_filter_keys fun key => decide (key ∉ controlFields)]
  by_cases hkey : key ∈ controlFields <;> simp [hkey]

namespace HandlerReturn

variable (r : HandlerReturn)

/-- Routing follows the declared port, and a successor behind an open port whose only edge this is
receives the declared output. -/
structure Faithful : Prop where
  routing : ∀ sourcePort, isPortFiltered r.flat.value sourcePort =
    isFilteredBy (r.port.map DeclaredPort.toValue) sourcePort
  payload : ∀ (edge : GraphEdge String) (edges : List (GraphEdge String))
    (executedNodes : Finset String) (nodeOutputCache : OutputCache String) (workflowInput : Value),
    (edges.filter fun e => e.targetNodeId = edge.targetNodeId) = [edge] →
      edge.sourceNodeId ∈ executedNodes → nodeOutputCache edge.sourceNodeId = r.flat →
        isFilteredBy (r.port.map DeclaredPort.toValue) edge.sourcePort = false →
          SameProperties (gatherNodeInput edge.targetNodeId edges executedNodes nodeOutputCache
            workflowInput) r.output

/-- A null output is carried when a single port is all that is declared, or nothing at all. -/
def NullFits : Prop := r.SinglePortOnly ∨ ¬ r.HasEcho

/-- An object output is carried when none of its keys is a control field, no declared port meets
an object under its key `data`, and no retry state has to be added to it. -/
structure ObjectFits (output : List (String × Value)) : Prop where
  control : ∀ key ∈ controlFields, output.lookup key = none
  data : r.port ≠ none → ∀ data, (Value.obj output).field "data" ≠ .obj data
  retry : r.retryState ≠ none → (Value.obj output).field "_retryState" ≠ .undefined

/-- An array or primitive output is carried unless the declared port is the empty string and
nothing else calls for an envelope. -/
def BareFits : Prop := r.hasControl = true ∨ r.port = none

def Fits : Prop :=
  match r.output with
  | .undefined | .null => r.NullFits
  | .obj output => r.ObjectFits output
  | _ => r.BareFits

/-! ## 1. One successor -/

/-- Some edge is behind an open port. -/
theorem exists_open_port (port : Option DeclaredPort) :
    ∃ sourcePort, isFilteredBy (port.map DeclaredPort.toValue) sourcePort = false := by
  cases port with
  | none => exact ⟨"", rfl⟩
  | some port =>
    cases port with
    | single port => exact ⟨port, by simp [isFilteredBy, DeclaredPort.toValue]⟩
    | several ports =>
      cases ports with
      | nil => exact ⟨"", rfl⟩
      | cons port ports => exact ⟨port, by simp [isFilteredBy, DeclaredPort.toValue]⟩

theorem faithful_iff : r.Faithful ↔
    (∀ sourcePort, isPortFiltered r.flat.value sourcePort =
      isFilteredBy (r.port.map DeclaredPort.toValue) sourcePort) ∧
    SameProperties (stripControlFields r.flat) r.output := by
  constructor
  · intro h
    refine ⟨h.routing, ?_⟩
    obtain ⟨sourcePort, hopen⟩ := exists_open_port r.port
    have hpayload := h.payload ⟨"source", sourcePort, "target", "in"⟩
      [⟨"source", sourcePort, "target", "in"⟩] {"source"} (fun _ => r.flat) .undefined
      (by simp) (by simp) rfl hopen
    have hgather : gatherNodeInput "target" [⟨"source", sourcePort, "target", "in"⟩] {"source"}
        (fun _ => r.flat) .undefined = stripControlFields r.flat := by
      simp [gatherNodeInput, inputFrom, deliver, h.routing, hopen]
    rwa [hgather] at hpayload
  · rintro ⟨hrouting, hpayload⟩
    refine { routing := hrouting, payload := ?_ }
    intro edge edges executedNodes nodeOutputCache workflowInput honly hexecuted hcache hopen
    have hgather : gatherNodeInput edge.targetNodeId edges executedNodes nodeOutputCache
        workflowInput = stripControlFields r.flat := by
      unfold gatherNodeInput
      rw [honly]
      simp [inputFrom, deliver, hexecuted, hcache, hrouting, hopen]
    rwa [hgather]

/-! ## 2. Null, array and primitive outputs -/

theorem isFilteredBy_single (port : String) : isFilteredBy (some (.str port)) (port ++ "'") := by
  have hne : port ++ "'" ≠ port := by
    intro h
    have hlength := congrArg String.length h
    simp at hlength
  simp [isFilteredBy, hne]

theorem faithful_of_envelope (hobj : ∀ fields, r.output ≠ .obj fields)
    (hflat : r.flat = applyPortSelection { value := .obj r.envelope, wrapped := true }) :
    r.Faithful := by
  obtain ⟨fields, hfields, hdata, hselected, -⟩ := r.flat_of_envelope hobj
  rw [faithful_iff, hflat, hfields]
  constructor
  · intro sourcePort
    rw [isPortFiltered_eq, hselected]
  · show SameProperties ((Value.obj fields).field "data") r.output
    rw [hdata]
    exact sameProperties_refl _

theorem hasControl_of_port {port : DeclaredPort} (hport : r.port = some port)
    (hcontrol : r.hasControl = false) : port = .single "" := by
  have htruthy : port.toValue.truthy = false := by
    unfold hasControl portValue at hcontrol
    rw [hport] at hcontrol
    simp only [Bool.or_eq_false_iff] at hcontrol
    exact hcontrol.1.1
  cases port with
  | single port => simpa [DeclaredPort.toValue, Value.truthy] using htruthy
  | several ports => simp [DeclaredPort.toValue, Value.truthy] at htruthy

theorem faithful_iff_of_bare (hbare : r.BareOutput) : r.Faithful ↔ r.BareFits := by
  have hshape := r.toEngineFlatShape_of_bare hbare
  obtain ⟨hundef, hnull, hobj⟩ := hbare
  by_cases hcontrol : r.hasControl = true
  · refine ⟨fun _ => .inl hcontrol, fun _ => r.faithful_of_envelope hobj ?_⟩
    unfold flat
    rw [hshape, if_pos hcontrol]
  · have hflat : r.flat = { value := r.output } := by
      unfold flat
      rw [hshape, if_neg hcontrol]
      cases hv : r.output with
      | obj fields => exact absurd hv (hobj fields)
      | _ => rfl
    have hselected : selectedPort r.output = none := by
      cases hv : r.output with
      | obj fields => exact absurd hv (hobj fields)
      | _ => rfl
    have hstrip : stripControlFields r.flat = r.output := by
      rw [hflat]
      cases hv : r.output with
      | obj fields => exact absurd hv (hobj fields)
      | _ => rfl
    rw [faithful_iff, hstrip, hflat]
    constructor
    · rintro ⟨hrouting, -⟩
      right
      cases hport : r.port with
      | none => rfl
      | some port =>
        -- the declared port selects nothing, since only truthy ports are written
        have hempty := r.hasControl_of_port hport (by simpa using hcontrol)
        have hfiltered := hrouting ("" ++ "'")
        rw [isPortFiltered_eq, hselected, hport, hempty] at hfiltered
        have hdeclared := isFilteredBy_single ""
        rw [Option.map_some, DeclaredPort.toValue, hdeclared] at hfiltered
        cases hfiltered
    · rintro (hcontrol' | hport)
      · exact absurd hcontrol' hcontrol
      · refine ⟨fun sourcePort => ?_, sameProperties_refl _⟩
        rw [isPortFiltered_eq, hselected, hport]
        rfl

theorem flat_of_nullish (hnullish : r.output = .undefined ∨ r.output = .null) :
    r.flat = applyPortSelection (flatOfNullish r.adapted) := by
  have houtput : r.adapted.output = r.output := rfl
  unfold flat toEngineFlatShape
  rw [houtput]
  obtain hv | hv := hnullish <;> rw [hv]

/-- An unmarked object stays one. -/
theorem strip_selection_object (fields : List (String × Value)) :
    ∃ stripped, stripControlFields (applyPortSelection { value := .obj fields }) =
      .obj stripped := by
  by_cases hselects : SelectsPort fields
  · by_cases hdata : ∃ data, (Value.obj fields).field "data" = .obj data
    · obtain ⟨data, hdata⟩ := hdata
      rw [applyPortSelection_of_object hselects hdata]
      exact ⟨_, rfl⟩
    · rw [applyPortSelection_of_bare hselects (by simpa using hdata)]
      exact ⟨_, rfl⟩
  · rw [applyPortSelection_of_not hselects]
    exact ⟨_, rfl⟩

theorem faithful_iff_of_nullish (hnullish : r.output = .undefined ∨ r.output = .null) :
    r.Faithful ↔ r.NullFits := by
  have hobj : ∀ fields, r.output ≠ .obj fields := by
    intro fields hv
    obtain h | h := hnullish <;> rw [hv] at h <;> cases h
  have hflat := r.flat_of_nullish hnullish
  by_cases hsingle : r.SinglePortOnly
  · refine ⟨fun _ => .inl hsingle, fun _ => r.faithful_of_envelope hobj ?_⟩
    rw [hflat, r.flatOfNullish_of_singlePortOnly hsingle]
  · rw [r.flatOfNullish_of_not hsingle] at hflat
    by_cases hecho : r.HasEcho
    · rw [if_pos hecho] at hflat
      -- the config echo takes the place of the null output
      refine iff_of_false ?_ (by simp [NullFits, hsingle, hecho])
      rw [faithful_iff, hflat]
      rintro ⟨-, hpayload⟩
      obtain ⟨stripped, hstripped⟩ := strip_selection_object r.configEcho
      rw [hstripped, sameProperties_of_not_object hobj] at hpayload
      exact hobj stripped hpayload.symm
    · rw [if_neg hecho] at hflat
      refine iff_of_true ?_ (.inr hecho)
      have hport : r.port = none := by
        by_contra hne
        exact hecho (.inr (.inl hne))
      rw [faithful_iff, hflat, hport]
      obtain hv | hv := hnullish <;> rw [hv] <;> exact ⟨fun _ => rfl, rfl⟩

/-! ## 3. Object outputs -/

section Object

variable {r} {output : List (String × Value)}

theorem ObjectFits.lookup_objectBase (h : r.ObjectFits output) {key : String}
    (hkey : key ∉ controlFields) (hdata : key ≠ "data") :
    (r.objectBase output).lookup key = output.lookup key := by
  have hne : key ≠ "status" ∧ key ≠ "port" ∧ key ≠ "_resumeState" := by
    refine ⟨?_, ?_, ?_⟩ <;> (rintro rfl; exact hkey (by decide))
  rw [HandlerReturn.lookup_objectBase]
  rw [if_neg fun h => hne.1 h.1, if_neg fun h => hne.2.1 h.1, if_neg fun h => hdata h.1,
    if_neg fun h => hne.2.2 h.1, if_neg fun hretry => h.retry hretry.2.1 hretry.2.2]

theorem field_data_objectBase : (Value.obj (r.objectBase output)).field "data" =
    if r.port ≠ none ∧ (Value.obj output).field "data" = .undefined then .obj output
    else (Value.obj output).field "data" := by
  rw [field_eq_getD, HandlerReturn.lookup_objectBase]
  by_cases hport : r.port ≠ none ∧ (Value.obj output).field "data" = .undefined
  · simp [hport]
  · rw [if_neg (by simp), if_neg (by simp), if_neg fun h => hport h.2, if_neg (by simp),
      if_neg (by simp), if_neg hport]
    rfl

theorem field_port_objectBase (hport : r.port ≠ none) :
    (Value.obj (r.objectBase output)).field "port" = r.portValue := by
  rw [field_eq_getD, HandlerReturn.lookup_objectBase]
  simp [hport]

theorem portValue_eq (hport : r.port ≠ none) :
    some r.portValue = r.port.map DeclaredPort.toValue := by
  unfold portValue
  cases hvalue : r.port with
  | none => exact absurd hvalue hport
  | some port => rfl

theorem faithful_of_lookup {fields : List (String × Value)} (houtput : r.output = .obj output)
    (hflat : r.flat = { value := .obj fields })
    (hselected : fields.lookup "_selectedPort" = r.port.map DeclaredPort.toValue)
    (hpayload : ∀ key, (if key ∈ controlFields then none else fields.lookup key) =
      output.lookup key) : r.Faithful := by
  rw [faithful_iff, hflat, houtput]
  constructor
  · intro sourcePort
    rw [isPortFiltered_eq, selectedPort_obj, hselected]
  · show ∀ key, (fields.filter fun field => field.1 ∉ controlFields).lookup key = output.lookup key
    intro key
    rw [lookup_stripped]
    exact hpayload key

theorem faithful_of_objectFits (houtput : r.output = .obj output) (h : r.ObjectFits output) :
    r.Faithful := by
  have hcontrol : ∀ key, key ∈ controlFields → none = output.lookup key :=
    fun key hkey => (h.control key hkey).symm
  by_cases hport : r.port = none
  · have hselects : ¬ SelectsPort output := by
      rintro ⟨hsome, -⟩
      rw [h.control "port" (by decide)] at hsome
      cases hsome
    have hbase : ∀ key, key ∉ controlFields →
        (r.objectBase output).lookup key = output.lookup key := by
      intro key hkey
      by_cases hdata : key = "data"
      · subst hdata
        rw [HandlerReturn.lookup_objectBase]
        simp [hport]
      · exact h.lookup_objectBase hkey hdata
    apply faithful_of_lookup houtput (flat_of_not_selects houtput hport hselects)
    · rw [hport, HandlerReturn.lookup_objectBase]
      simpa using h.control "_selectedPort" (by decide)
    · intro key
      split_ifs with hkey
      · exact hcontrol key hkey
      · exact hbase key hkey
  · have hdata : (Value.obj (r.objectBase output)).field "data" =
        if r.port ≠ none ∧ (Value.obj output).field "data" = .undefined then .obj output
        else (Value.obj output).field "data" := field_data_objectBase
    by_cases hundef : (Value.obj output).field "data" = .undefined
    · -- the synthesised `data` is the output itself, spread over itself
      rw [if_pos ⟨hport, hundef⟩] at hdata
      obtain ⟨fields, hflat, hlookup⟩ := flat_of_data_object houtput (.inl hport) hdata
      apply faithful_of_lookup houtput hflat
      · rw [hlookup, if_pos rfl, field_port_objectBase hport, portValue_eq hport]
      · intro key
        split_ifs with hkey
        · exact hcontrol key hkey
        · have hselected : key ≠ "_selectedPort" := by
            rintro rfl
            exact hkey (by decide)
          rw [hlookup, if_neg hselected]
          split_ifs with hportdata
          · rfl
          · rw [h.lookup_objectBase hkey fun heq => hportdata (.inr heq)]
            cases output.lookup key <;> rfl
    · rw [if_neg fun hboth => hundef hboth.2] at hdata
      obtain ⟨fields, hflat, hlookup⟩ := flat_of_data_bare houtput (.inl hport)
        (fun data => hdata ▸ h.data hport data)
      apply faithful_of_lookup houtput hflat
      · rw [hlookup, if_pos rfl, field_port_objectBase hport, portValue_eq hport]
      · intro key
        split_ifs with hkey
        · exact hcontrol key hkey
        · have hne : key ≠ "_selectedPort" ∧ key ≠ "port" := by
            refine ⟨?_, ?_⟩ <;> (rintro rfl; exact hkey (by decide))
          rw [hlookup, if_neg hne.1]
          by_cases hkeydata : key = "data"
          · rw [if_pos hkeydata, hkeydata, hdata, field_eq_getD]
            rw [field_eq_getD] at hundef
            cases hvalue : output.lookup "data" with
            | none => simp [hvalue] at hundef
            | some v => rfl
          · rw [if_neg hkeydata, if_neg hne.2]
            exact h.lookup_objectBase hkey hkeydata

/-- The flat form of an object output is an object, which holds a retry state that the output
lacks, and the properties of an object under `data` in place of that object. -/
theorem exists_flat_fields (houtput : r.output = .obj output) :
    ∃ fields, r.flat = { value := .obj fields } ∧
      (r.retryState ≠ none → (Value.obj output).field "_retryState" = .undefined →
        fields.lookup "_retryState" = some r.retryStateValue) ∧
      (r.port ≠ none → ∀ data, (Value.obj output).field "data" = .obj data →
        fields.lookup "data" = data.lookup "data") := by
  have hretry : r.retryState ≠ none → (Value.obj output).field "_retryState" = .undefined →
      (r.objectBase output).lookup "_retryState" = some r.retryStateValue := by
    intro hne hundef
    rw [HandlerReturn.lookup_objectBase]
    simp [hne, hundef]
  have hbasedata : ∀ data, (Value.obj output).field "data" = .obj data →
      (Value.obj (r.objectBase output)).field "data" = .obj data := by
    intro data hdata
    rw [field_data_objectBase, hdata]
    simp
  by_cases hselects : r.port ≠ none ∨ SelectsPort output
  · by_cases hdata : ∃ data, (Value.obj (r.objectBase output)).field "data" = .obj data
    · obtain ⟨data, hdata⟩ := hdata
      obtain ⟨fields, hflat, hlookup⟩ := flat_of_data_object houtput hselects hdata
      refine ⟨fields, hflat, ?_, ?_⟩
      · intro hne hundef
        rw [hlookup, if_neg (by decide), if_neg (by decide), hretry hne hundef]
        rfl
      · intro _ data' hdata'
        rw [hbasedata data' hdata'] at hdata
        cases hdata
        rw [hlookup, if_neg (by decide), if_pos (by decide)]
    · have hbare : ∀ data, (Value.obj (r.objectBase output)).field "data" ≠ .obj data := by
        simpa using hdata
      obtain ⟨fields, hflat, hlookup⟩ := flat_of_data_bare houtput hselects hbare
      refine ⟨fields, hflat, ?_, ?_⟩
      · intro hne hundef
        rw [hlookup, if_neg (by decide), if_neg (by decide), if_neg (by decide), hretry hne hundef]
      · intro _ data hdata
        exact absurd (hbasedata data hdata) (hbare data)
  · have hport : r.port = none := by
      by_contra hne
      exact hselects (.inl hne)
    refine ⟨_, flat_of_not_selects houtput hport fun h => hselects (.inr h), hretry, ?_⟩
    exact fun hne => absurd hport hne

theorem objectFits_of_faithful (houtput : r.output = .obj output) (h : r.Faithful) :
    r.ObjectFits output := by
  obtain ⟨fields, hflat, hretry, hdata⟩ := exists_flat_fields houtput
  have hpayload : ∀ key, (if key ∈ controlFields then none else fields.lookup key) =
      output.lookup key := by
    have hsame := (r.faithful_iff.mp h).2
    rw [hflat, houtput] at hsame
    intro key
    rw [← lookup_stripped]
    exact hsame key
  refine { control := ?_, data := ?_, retry := ?_ }
  · intro key hkey
    rw [← hpayload key, if_pos hkey]
  · intro hport data hvalue
    have hinner := hpayload "data"
    rw [if_neg (by decide), hdata hport data hvalue] at hinner
    have hmem : ("data", Value.obj data) ∈ data := by
      apply mem_of_field _ (by simp)
      rw [field_eq_getD, hinner]
      exact hvalue
    exact absurd (sizeOf_lt_of_mem_fields hmem) (lt_irrefl _)
  · intro hne hundef
    have hkept := hpayload "_retryState"
    rw [if_neg (by decide), hretry hne hundef] at hkept
    rw [field_eq_getD, ← hkept] at hundef
    exact hne (r.retryStateValue_eq_undefined_iff.mp hundef)

end Object

/-! ## 4. Every return -/

theorem faithful_of_fits (h : r.Fits) : r.Faithful := by
  unfold Fits at h
  cases houtput : r.output with
  | undefined =>
    rw [houtput] at h
    exact (r.faithful_iff_of_nullish (.inl houtput)).mpr h
  | null =>
    rw [houtput] at h
    exact (r.faithful_iff_of_nullish (.inr houtput)).mpr h
  | obj output =>
    rw [houtput] at h
    exact faithful_of_objectFits houtput h
  | bool _ | num _ | str _ | arr _ =>
    rw [houtput] at h
    exact (r.faithful_iff_of_bare (by simp [BareOutput, houtput])).mpr h

/-- Of an object output the successor never receives a control field. -/
theorem strip_flat_of_object {output : List (String × Value)} (houtput : r.output = .obj output) :
    ∃ fields, stripControlFields r.flat = .obj fields ∧
      ∀ key ∈ controlFields, fields.lookup key = none := by
  obtain ⟨fields, hflat, -, -⟩ := exists_flat_fields houtput
  refine ⟨fields.filter fun field => field.1 ∉ controlFields, by rw [hflat]; rfl, ?_⟩
  intro key hkey
  rw [lookup_stripped, if_pos hkey]

/-- Of a null output with more declared than one port it receives the echoed config. -/
theorem strip_flat_of_echo (hnullish : r.output = .undefined ∨ r.output = .null)
    (hfits : ¬ r.NullFits) (hselects : ¬ SelectsPort r.configEcho) :
    stripControlFields r.flat =
      .obj (r.configEcho.filter fun field => field.1 ∉ controlFields) := by
  obtain ⟨hsingle, hecho⟩ := not_or.mp hfits
  rw [r.flat_of_nullish hnullish, r.flatOfNullish_of_not hsingle, if_pos (not_not.mp hecho),
    applyPortSelection_of_not hselects]
  rfl

end HandlerReturn

end Clemvion.Engine
