import Clemvion.Egress.CredentialMasking
import Clemvion.Egress.TriggerParameters

/-!
# MaskedResubmission — a masked value does not come back as an input

The masker leaves a marker in the place of what it hides, and the scan of a manual run looks for
markers.  Both walk over values on their own.  They agree on every place of the values themselves,
and on those inside the text of an object or array parameter, which is parsed before the second
scan.
-/

open Clemvion.Js Clemvion.Js.Value

namespace Clemvion.Egress

/-! ## 1. Where markers are -/

/-- A marker stands at some place of the value. -/
inductive MarkedInPlace : Value → Prop
  | leaf {v : Value} (hmarker : isMaskedMarker v = true) : MarkedInPlace v
  | item {items : List Value} {v : Value} (hmem : v ∈ items) (hv : MarkedInPlace v) :
      MarkedInPlace (.arr items)
  | property {fields : List (String × Value)} {key : String} {v : Value}
      (hmem : (key, v) ∈ fields) (hv : MarkedInPlace v) : MarkedInPlace (.obj fields)

/-- A marker stands at some place of the value or of what the texts in it parse to. -/
inductive HoldsMarker : Value → Prop
  | leaf {v : Value} (hmarker : isMaskedMarker v = true) : HoldsMarker v
  | item {items : List Value} {v : Value} (hmem : v ∈ items) (hv : HoldsMarker v) :
      HoldsMarker (.arr items)
  | property {fields : List (String × Value)} {key : String} {v : Value}
      (hmem : (key, v) ∈ fields) (hv : HoldsMarker v) : HoldsMarker (.obj fields)
  | text {s : String} {parsed : Value} (hparse : JsonText.parse s = some parsed)
      (hv : HoldsMarker parsed) : HoldsMarker (.str s)

theorem MarkedInPlace.holdsMarker {v : Value} (h : MarkedInPlace v) : HoldsMarker v := by
  induction h with
  | leaf hmarker => exact .leaf hmarker
  | item hmem _ ih => exact .item hmem ih
  | property hmem _ ih => exact .property hmem ih

/-- A leaf or a subtree of the first value is a marker in the second one. -/
inductive ReplacedInPlace : Value → Value → Prop
  | here {v v' : Value} (hmarker : isMaskedMarker v' = true) (hne : v ≠ v') : ReplacedInPlace v v'
  | item {items items' : List Value} {v v' : Value} (hmem : (v, v') ∈ items.zip items')
      (hv : ReplacedInPlace v v') : ReplacedInPlace (.arr items) (.arr items')
  | property {fields fields' : List (String × Value)} {key key' : String} {v v' : Value}
      (hmem : ((key, v), (key', v')) ∈ fields.zip fields') (hv : ReplacedInPlace v v') :
      ReplacedInPlace (.obj fields) (.obj fields')

theorem ReplacedInPlace.marked {v v' : Value} (h : ReplacedInPlace v v') : MarkedInPlace v' := by
  induction h with
  | here hmarker _ => exact .leaf hmarker
  | item hmem _ ih => exact .item (List.of_mem_zip hmem).2 ih
  | property hmem _ ih => exact .property (List.of_mem_zip hmem).2 ih

/-- Both values are texts of containers, and the replacement is inside. -/
def ReplacedInText (v v' : Value) : Prop :=
  ∃ s s' parsed parsed', v = .str s ∧ v' = .str s' ∧ textValue s = some parsed ∧
    textValue s' = some parsed' ∧ ReplacedInPlace parsed parsed'

/-! ## 2. The scan sees what the masker leaves -/

theorem hasMaskedLeaf_of_marker (levels : Nat) {v : Value} (h : isMaskedMarker v = true) :
    hasMaskedLeaf levels v = true := by
  cases v with
  | str s => cases levels <;> exact h
  | _ => cases h

theorem markedInPlace_of_hasMaskedLeaf {levels : Nat} {v : Value}
    (h : hasMaskedLeaf levels v = true) : MarkedInPlace v := by
  induction levels generalizing v with
  | zero => exact .leaf h
  | succ levels ih =>
    cases v with
    | arr items =>
      obtain ⟨item, hmem, hitem⟩ := List.any_eq_true.mp h
      exact .item hmem (ih hitem)
    | obj fields =>
      obtain ⟨field, hmem, hfield⟩ := List.any_eq_true.mp h
      exact .property hmem (ih hfield)
    | _ => exact .leaf h

/-- What is under the name of a credential is a marker; the rest is walked. -/
theorem redactProperty_cases (redact : Value → Value) (key : String) (v : Value) :
    isMaskedMarker (redactProperty [] redact key v) = true ∨
      redactProperty [] redact key v = redact v := by
  rw [redactProperty_nil]
  split
  · split
    case isTrue hmarker => exact .inl hmarker
    case isFalse => exact .inl rfl
  · exact .inr rfl

/-- What the masker makes of a leaf. -/
theorem hasMaskedLeaf_of_leaf (levels : Nat) {v : Value} (hleaf : v.isObject = false)
    (h : MarkedInPlace v) : hasMaskedLeaf levels v = true := by
  cases h with
  | leaf hmarker => exact hasMaskedLeaf_of_marker levels hmarker
  | item _ _ => cases hleaf
  | property _ _ => cases hleaf

/-- No container is left at the last level of the masker, so a scan with as many levels finds
every marker. -/
theorem hasMaskedLeaf_deepRedactCore {levels scanned : Nat} (hlevels : levels ≤ scanned) {v : Value}
    (h : MarkedInPlace (deepRedactCore levels [] v)) :
    hasMaskedLeaf scanned (deepRedactCore levels [] v) = true := by
  induction levels generalizing scanned v with
  | zero => exact hasMaskedLeaf_of_leaf scanned (by cases v <;> rfl) h
  | succ levels ih =>
    cases scanned with
    | zero => omega
    | succ scanned =>
      have hbelow : levels ≤ scanned := by omega
      cases v with
      | arr items =>
        show (items.map (deepRedactCore levels [])).any (hasMaskedLeaf scanned) = true
        cases h with
        | leaf hmarker => cases hmarker
        | item hmem hv =>
          obtain ⟨source, -, rfl⟩ := List.mem_map.mp hmem
          exact List.any_eq_true.mpr ⟨_, hmem, ih hbelow hv⟩
      | obj fields =>
        show (fields.map fun field => (field.1, redactProperty [] (deepRedactCore levels [])
          field.1 field.2)).any (fun field => hasMaskedLeaf scanned field.2) = true
        cases h with
        | leaf hmarker => cases hmarker
        | property hmem hv =>
          refine List.any_eq_true.mpr ⟨_, hmem, ?_⟩
          obtain ⟨source, -, heq⟩ := List.mem_map.mp hmem
          obtain ⟨-, rfl⟩ := Prod.mk.inj heq
          obtain hmarker | hwalked := redactProperty_cases (deepRedactCore levels []) source.1 source.2
          · exact hasMaskedLeaf_of_marker scanned hmarker
          · rw [hwalked] at hv
            show hasMaskedLeaf scanned (redactProperty [] _ source.1 source.2) = true
            rw [hwalked]
            exact ih hbelow hv
      | _ => exact hasMaskedLeaf_of_leaf _ rfl h

/-! ## 3. Conversion makes no marker -/

theorem writeNumber_head (q : Rat) :
    ∃ c cs, JsonText.writeNumber (.finite q) = c :: cs ∧ (c = '-' ∨ c.isDigit = true) := by
  obtain ⟨c, cs, hdigits, hc⟩ := JsonText.writeScaled_head
    (q.num.natAbs * (10 ^ JsonText.decimalPlaces q / q.den)) (JsonText.decimalPlaces q)
  show ∃ c cs, (if q < 0 then '-' :: JsonText.writeScaled _ _ else JsonText.writeScaled _ _) =
    c :: cs ∧ _
  split
  · exact ⟨'-', _, rfl, .inl rfl⟩
  · exact ⟨c, cs, hdigits, .inr hc⟩

/-- No text of a JSON value goes on like `[REDACTED]` behind its bracket. -/
theorem writeValue_head_ne (v : Value) (rest : List Char) :
    (JsonText.writeValue v ++ rest).head? ≠ some 'R' := by
  cases v with
  | num n =>
    cases n with
    | finite q =>
      obtain ⟨c, cs, hwrite, hc⟩ := writeNumber_head q
      show (JsonText.writeNumber (.finite q) ++ rest).head? ≠ some 'R'
      rw [hwrite]
      intro heq
      rw [Option.some.inj heq] at hc
      exact absurd hc (by decide)
    | _ => exact fun heq => nomatch heq
  | bool b => cases b <;> exact fun heq => nomatch heq
  | str s => exact fun heq => absurd (Option.some.inj heq) (by decide)
  | arr items => exact fun heq => absurd (Option.some.inj heq) (by decide)
  | obj fields => exact fun heq => absurd (Option.some.inj heq) (by decide)
  | _ => exact fun heq => nomatch heq

theorem isMaskedMarker_eq_true_iff {s : String} : isMaskedMarker (.str s) = true ↔
    s = valueMaskMarker ∨ s = keyMaskMarker ∨ s = depthMaskMarker := by
  show decide (s ∈ maskedMarkers) = true ↔ _
  simp [maskedMarkers]

/-- A text is no marker when it starts otherwise. -/
theorem isMaskedMarker_ofList {cs : List Char} (hstar : cs.head? ≠ some '*')
    (hopen : cs.head? = some '[' → cs.tail.head? ≠ some 'R') :
    isMaskedMarker (.str (String.ofList cs)) = false := by
  rw [Bool.eq_false_iff]
  intro hmarker
  have hcases := isMaskedMarker_eq_true_iff.mp hmarker
  have hchars : cs = valueMaskMarker.toList ∨ cs = keyMaskMarker.toList ∨
      cs = depthMaskMarker.toList := by
    rcases hcases with h | h | h <;> simp [← h, String.toList_ofList]
  rcases hchars with rfl | rfl | rfl
  · exact hstar (by decide)
  · exact hopen (by decide) (by decide)
  · exact hopen (by decide) (by decide)

theorem isMaskedMarker_numberToString (n : Number) :
    isMaskedMarker (.str (numberToString n)) = false := by
  cases n with
  | finite q =>
    obtain ⟨c, cs, hwrite, hc⟩ := writeNumber_head q
    show isMaskedMarker (.str (String.ofList (JsonText.writeNumber (.finite q)))) = false
    rw [hwrite]
    apply isMaskedMarker_ofList
    · intro heq
      rw [Option.some.inj heq] at hc
      exact absurd hc (by decide)
    · intro heq
      rw [Option.some.inj heq] at hc
      exact absurd hc (by decide)
  | _ => decide

theorem isMaskedMarker_stringify {v : Value} (h : v.isObject = true) :
    isMaskedMarker (.str (JsonText.stringify v)) = false := by
  unfold JsonText.stringify
  cases v with
  | arr items =>
    apply isMaskedMarker_ofList
    · exact fun heq => absurd (Option.some.inj heq) (by decide)
    · intro _
      show (JsonText.writeItems items).head? ≠ some 'R'
      cases items with
      | nil => decide
      | cons item items =>
        rw [JsonText.writeItems_cons]
        exact writeValue_head_ne item _
  | obj fields =>
    apply isMaskedMarker_ofList
    · exact fun heq => absurd (Option.some.inj heq) (by decide)
    · exact fun heq => absurd (Option.some.inj heq) (by decide)
  | _ => cases h

theorem not_markedInPlace_leaf {v : Value} (hleaf : v.isObject = false)
    (hmarker : isMaskedMarker v = false) : ¬MarkedInPlace v := by
  intro h
  cases h with
  | leaf h =>
    rw [hmarker] at h
    cases h
  | item _ _ => cases hleaf
  | property _ _ => cases hleaf

/-- A converted value holds a marker only where the value did, or the text of it. -/
theorem holdsMarker_of_coerced (toNumber : Value → Number) {v : Value} {type : CoercibleType}
    (h : MarkedInPlace (coerceToType toNumber v type)) : HoldsMarker v := by
  unfold coerceToType at h
  split at h
  case h_1 => exact absurd h (not_markedInPlace_leaf rfl rfl)
  case h_2 => exact absurd h (not_markedInPlace_leaf rfl rfl)
  case h_3 =>
    split at h
    case h_1 => exact h.holdsMarker
    case h_2 =>
      -- a number shows no text
      split at h
      · exact absurd h (not_markedInPlace_leaf rfl rfl)
      · exact absurd h (not_markedInPlace_leaf rfl rfl)
    case h_3 => exact h.holdsMarker
    case h_4 => exact absurd h (not_markedInPlace_leaf rfl rfl)
    case h_5 => exact absurd h (not_markedInPlace_leaf rfl rfl)
    case h_6 => exact absurd h (not_markedInPlace_leaf rfl rfl)
    case h_7 =>
      split at h
      · split at h
        case h_1 hparse => exact .text hparse h.holdsMarker
        case h_2 => exact h.holdsMarker
      · exact h.holdsMarker
    case h_8 =>
      split at h
      · split at h
        case h_1 hparse =>
          split at h
          · exact .text hparse h.holdsMarker
          · exact h.holdsMarker
        case h_2 => exact h.holdsMarker
      · exact h.holdsMarker
    case h_9 => exact h.holdsMarker
    case h_10 => exact absurd h (not_markedInPlace_leaf rfl (isMaskedMarker_numberToString _))
    case h_11 =>
      split at h
      · exact absurd h (not_markedInPlace_leaf rfl (by decide))
      · exact absurd h (not_markedInPlace_leaf rfl (by decide))
    case h_12 _ hundef hnull _ _ hstr hnum hbool =>
      cases v with
      | undefined => exact absurd rfl hundef
      | null => exact absurd rfl hnull
      | bool b => exact absurd rfl (hbool b)
      | num n => exact absurd rfl (hnum n)
      | str s => exact absurd rfl (hstr s)
      | arr items => exact absurd h (not_markedInPlace_leaf rfl (isMaskedMarker_stringify rfl))
      | obj fields => exact absurd h (not_markedInPlace_leaf rfl (isMaskedMarker_stringify rfl))
    case h_13 => exact h.holdsMarker

/-! ## 4. What the loop over the schema leaves -/

section Resolution

variable (toNumber : Value → Number) (rawSource : Value)

/-- The value that a parameter resolves to is the conversion of what stands for it. -/
theorem of_resolveParameter_ok {parameter : TriggerParameterDefinition} {w : Value}
    (h : resolveParameter toNumber rawSource parameter = .ok w) :
    let effective := (submittedValue rawSource parameter).getD (defaultOf parameter)
    coerceToType toNumber effective parameter.type = w ∧
      isCoerceFailure parameter.type effective w = false := by
  unfold resolveParameter at h
  dsimp only at h ⊢
  split at h
  · cases h
  · split at h
    · cases h
    case isFalse hok =>
      have hw := Except.ok.inj h
      rw [hw] at hok
      exact ⟨hw, Bool.not_eq_true _ |>.mp hok⟩

def failures (parameters : List TriggerParameterDefinition) : List TriggerParameterValidationError :=
  parameters.filterMap fun parameter =>
    match resolveParameter toNumber rawSource parameter with
    | .error reason => some ⟨parameter.name, reason⟩
    | .ok _ => none

def assignments (parameters : List TriggerParameterDefinition) (fields : List (String × Value)) :
    List (String × Value) :=
  parameters.foldl (fun fields parameter =>
    match resolveParameter toNumber rawSource parameter with
    | .error _ => fields
    | .ok v => setKey fields parameter.name v) fields

theorem foldl_resolveRound (parameters : List TriggerParameterDefinition)
    (resolution : Resolution) : parameters.foldl (resolveRound toNumber rawSource) resolution =
      (resolution.1 ++ failures toNumber rawSource parameters,
        assignments toNumber rawSource parameters resolution.2) := by
  induction parameters generalizing resolution with
  | nil => simp [failures, assignments]
  | cons parameter parameters ih =>
    rw [List.foldl_cons, ih]
    unfold resolveRound failures assignments
    rw [List.filterMap_cons, List.foldl_cons]
    cases resolveParameter toNumber rawSource parameter with
    | error reason => simp
    | ok v => simp

/-- Resolving fails exactly when some parameter does. -/
theorem resolveTriggerParameters_eq (schema : ParameterSchema) :
    resolveTriggerParameters toNumber schema rawSource =
      if (failures toNumber rawSource (schema.getD [])).length > 0 then
        .error (failures toNumber rawSource (schema.getD []))
      else .ok (assignments toNumber rawSource (schema.getD []) []) := by
  unfold resolveTriggerParameters
  rw [foldl_resolveRound]
  rfl

/-- The errors of the loop are not those of the scan. -/
theorem reason_of_mem_failures {parameters : List TriggerParameterDefinition}
    {e : TriggerParameterValidationError} (h : e ∈ failures toNumber rawSource parameters) :
    e.reason ≠ .maskedValueResubmitted := by
  obtain ⟨parameter, -, heq⟩ := List.mem_filterMap.mp h
  split at heq
  case h_2 => cases heq
  case h_1 reason herror =>
    rw [← Option.some.inj heq]
    show reason ≠ _
    unfold resolveParameter at herror
    dsimp only at herror
    split at herror
    · rw [← Except.error.inj herror]
      decide
    · split at herror
      · rw [← Except.error.inj herror]
        decide
      · cases herror

theorem failures_eq_nil {parameters : List TriggerParameterDefinition}
    (h : ∀ parameter ∈ parameters, ∃ v, resolveParameter toNumber rawSource parameter = .ok v) :
    failures toNumber rawSource parameters = [] := by
  unfold failures
  rw [List.filterMap_eq_nil_iff]
  intro parameter hmem
  obtain ⟨v, hv⟩ := h parameter hmem
  rw [hv]

/-- Every assignment of the loop is the resolution of a parameter of that name. -/
theorem of_lookup_assignments {parameters : List TriggerParameterDefinition}
    {fields : List (String × Value)} {name : String} {v : Value}
    (h : (assignments toNumber rawSource parameters fields).lookup name = some v) :
    (∃ parameter ∈ parameters, parameter.name = name ∧
      resolveParameter toNumber rawSource parameter = .ok v) ∨ fields.lookup name = some v := by
  induction parameters generalizing fields with
  | nil => exact .inr h
  | cons parameter parameters ih =>
    unfold assignments at h
    rw [List.foldl_cons] at h
    obtain ⟨later, hmem, hname, hresolve⟩ | hearlier := ih h
    · exact .inl ⟨later, List.mem_cons_of_mem _ hmem, hname, hresolve⟩
    · cases hresolve : resolveParameter toNumber rawSource parameter with
      | error reason =>
        rw [hresolve] at hearlier
        exact .inr hearlier
      | ok w =>
        rw [hresolve] at hearlier
        dsimp only at hearlier
        rw [lookup_setKey] at hearlier
        split at hearlier
        case isTrue hname =>
          rw [Option.some.inj hearlier] at hresolve
          exact .inl ⟨parameter, List.mem_cons_self, hname.symm, hresolve⟩
        case isFalse => exact .inr hearlier

theorem lookup_assignments_of_ne {parameters : List TriggerParameterDefinition} {name : String}
    (h : ∀ parameter ∈ parameters, parameter.name ≠ name) (fields : List (String × Value)) :
    (assignments toNumber rawSource parameters fields).lookup name = fields.lookup name := by
  induction parameters generalizing fields with
  | nil => rfl
  | cons parameter parameters ih =>
    obtain ⟨hname, hrest⟩ := List.forall_mem_cons.mp h
    unfold assignments
    rw [List.foldl_cons]
    refine (ih hrest _).trans ?_
    split
    · rfl
    · rw [lookup_setKey, if_neg (Ne.symm hname)]

/-- The last parameter of its name, the one whose value is kept. -/
def Governs (parameters : List TriggerParameterDefinition)
    (parameter : TriggerParameterDefinition) : Prop :=
  ∃ before after, parameters = before ++ parameter :: after ∧
    ∀ later ∈ after, later.name ≠ parameter.name

theorem Governs.mem {parameters : List TriggerParameterDefinition}
    {parameter : TriggerParameterDefinition} (h : Governs parameters parameter) :
    parameter ∈ parameters := by
  obtain ⟨before, after, rfl, -⟩ := h
  simp

theorem lookup_assignments {parameters : List TriggerParameterDefinition}
    {parameter : TriggerParameterDefinition} (h : Governs parameters parameter) {v : Value}
    (hv : resolveParameter toNumber rawSource parameter = .ok v) (fields : List (String × Value)) :
    (assignments toNumber rawSource parameters fields).lookup parameter.name = some v := by
  obtain ⟨before, after, rfl, hafter⟩ := h
  unfold assignments
  rw [List.foldl_append, List.foldl_cons]
  refine (lookup_assignments_of_ne toNumber rawSource hafter _).trans ?_
  rw [hv]
  dsimp only
  rw [lookup_setKey, if_pos rfl]

end Resolution

/-! ## 5. Rejections -/

/-- Rejected for a marker. -/
def RejectedAsMasked {α : Type} (result : Except (List TriggerParameterValidationError) α) : Prop :=
  ∃ errors, result = .error errors ∧ ∃ e ∈ errors, e.reason = .maskedValueResubmitted

def Rejected {α : Type} (result : Except (List TriggerParameterValidationError) α) : Prop :=
  ∃ errors, result = .error errors

theorem mem_findMaskedResubmissions {schema : ParameterSchema} {raw fields : List (String × Value)}
    {e : TriggerParameterValidationError} :
    e ∈ findMaskedResubmissions schema (.obj raw) (.obj fields) ↔
      ∃ parameter ∈ schema.getD [], (raw.lookup parameter.name).isSome = true ∧
        hasMaskedLeaf maxRedactDepth ((Value.obj fields).field parameter.name) = true ∧
        e = ⟨parameter.name, .maskedValueResubmitted⟩ := by
  unfold findMaskedResubmissions
  simp only [List.mem_map, List.mem_filter, Bool.and_eq_true, and_assoc, @eq_comm _ e]

theorem reason_of_mem_findMaskedResubmissions {schema : ParameterSchema} {raw values : Value}
    {e : TriggerParameterValidationError} (h : e ∈ findMaskedResubmissions schema raw values) :
    e.reason = .maskedValueResubmitted := by
  unfold findMaskedResubmissions at h
  split at h
  case h_1 =>
    obtain ⟨parameter, -, rfl⟩ := List.mem_map.mp h
    rfl
  case h_2 => cases h

variable (toNumber : Value → Number) (schema : ParameterSchema)

/-- The scan of the submitted values comes first. -/
theorem rejectedAsMasked_of_raw {rawSource : Value} {e : TriggerParameterValidationError}
    (h : e ∈ findMaskedResubmissions schema rawSource rawSource) :
    RejectedAsMasked (resolveTriggerParametersRejectingMasked toNumber schema rawSource) := by
  unfold resolveTriggerParametersRejectingMasked
  dsimp only
  rw [if_pos (List.length_pos_of_mem h)]
  exact ⟨_, rfl, e, h, reason_of_mem_findMaskedResubmissions h⟩

/-- The scan of what was resolved, where everything resolves. -/
theorem rejectedAsMasked_of_resolved {rawSource : Value}
    (hall : ∀ parameter ∈ schema.getD [], ∃ v, resolveParameter toNumber rawSource parameter = .ok v)
    {e : TriggerParameterValidationError} (h : e ∈ findMaskedResubmissions schema rawSource
      (.obj (assignments toNumber rawSource (schema.getD []) []))) :
    RejectedAsMasked (resolveTriggerParametersRejectingMasked toNumber schema rawSource) := by
  unfold resolveTriggerParametersRejectingMasked
  dsimp only
  split
  case isTrue hraw =>
    obtain ⟨e', he'⟩ := List.exists_mem_of_length_pos hraw
    exact ⟨_, rfl, e', he', reason_of_mem_findMaskedResubmissions he'⟩
  case isFalse =>
    rw [resolveTriggerParameters_eq, failures_eq_nil toNumber rawSource hall]
    dsimp only [List.length_nil]
    rw [if_neg (Nat.lt_irrefl 0)]
    dsimp only
    rw [if_pos (List.length_pos_of_mem h)]
    exact ⟨_, rfl, e, h, reason_of_mem_findMaskedResubmissions h⟩

/-! ## 6. What a masked object brings back -/

/-- The parameters as a response shows them. -/
def shown (stored : List (String × Value)) : Value := deepRedactSecrets (.obj stored) 0

/-- What became of the stored value of a parameter. -/
def ShownAs (R : Value → Value → Prop) (stored : List (String × Value)) (name : String) : Prop :=
  ∃ v v', readRawValue (.obj stored) name = some v ∧ readRawValue (shown stored) name = some v' ∧
    R v v'

theorem readRawValue_shown (stored : List (String × Value)) (name : String) :
    readRawValue (shown stored) name = (stored.lookup name).map
      (redactProperty [] (deepRedactCore 9 []) name) :=
  lookup_map_redact (redactProperty [] (deepRedactCore 9 [])) name stored

/-- A replaced place of a declared parameter is found by the first scan. -/
theorem rejectedAsMasked_of_replacedInPlace {stored : List (String × Value)}
    {parameter : TriggerParameterDefinition} (hmem : parameter ∈ schema.getD [])
    (h : ShownAs ReplacedInPlace stored parameter.name) :
    RejectedAsMasked (resolveTriggerParametersRejectingMasked toNumber schema (shown stored)) := by
  obtain ⟨v, v', hv, hv', hreplaced⟩ := h
  have hlookup : stored.lookup parameter.name = some v := hv
  rw [readRawValue_shown, hlookup, Option.map_some] at hv'
  have hshown : v' = redactProperty [] (deepRedactCore 9 []) parameter.name v :=
    (Option.some.inj hv').symm
  have hscan : hasMaskedLeaf maxRedactDepth v' = true := by
    have hmarked := hreplaced.marked
    obtain hmarker | hwalked := redactProperty_cases (deepRedactCore 9 []) parameter.name v
    · rw [← hshown] at hmarker
      exact hasMaskedLeaf_of_marker _ hmarker
    · rw [hshown, hwalked] at hmarked ⊢
      exact hasMaskedLeaf_deepRedactCore (by decide) hmarked
  have hread : readRawValue (shown stored) parameter.name = some v' := by
    rw [readRawValue_shown, hlookup, hshown]
    rfl
  apply rejectedAsMasked_of_raw toNumber schema (e := ⟨parameter.name, .maskedValueResubmitted⟩)
  refine mem_findMaskedResubmissions.mpr ⟨parameter, hmem, ?_, ?_, rfl⟩
  · exact Option.isSome_iff_exists.mpr ⟨v', hread⟩
  · show hasMaskedLeaf maxRedactDepth ((readRawValue (shown stored) parameter.name).getD .undefined) = _
    rw [hread]
    exact hscan

theorem textValue_marker {s : String} (h : isMaskedMarker (.str s) = true) : textValue s = none := by
  have hnone : ∀ marker ∈ maskedMarkers, textValue marker = none := by decide +kernel
  exact hnone s (of_decide_eq_true h)

/-- A parameter that takes containers parses the text of one, or does not resolve. -/
theorem coerceToType_text {s : String} {parsed : Value} (htext : textValue s = some parsed)
    {type : CoercibleType} (htype : type = .object ∨ type = .array)
    (hok : isCoerceFailure type (.str s) (coerceToType toNumber (.str s) type) = false) :
    coerceToType toNumber (.str s) type = parsed := by
  have hparse := parse_of_textValue htext
  obtain rfl | rfl := htype
  · unfold coerceToType at hok ⊢
    dsimp only at hok ⊢
    split
    case isTrue hstarts =>
      rw [hparse]
      exact if_pos (isObject_of_textValue htext)
    case isFalse hstarts =>
      rw [if_neg hstarts] at hok
      cases hok
  · unfold coerceToType at hok ⊢
    dsimp only at hok ⊢
    split
    case isTrue hstarts =>
      rw [if_pos hstarts, hparse] at hok
      rw [hparse]
      cases parsed with
      | arr items => rfl
      | _ => cases hok
    case isFalse hstarts =>
      rw [if_neg hstarts] at hok
      cases hok

/-- A place inside the text of a parameter that takes containers is found by the second scan,
unless some parameter does not resolve. -/
theorem rejected_of_replacedInText {stored : List (String × Value)}
    {parameter : TriggerParameterDefinition} (hgoverns : Governs (schema.getD []) parameter)
    (htype : parameter.type = .object ∨ parameter.type = .array)
    (h : ShownAs ReplacedInText stored parameter.name)
    (hall : ∀ other ∈ schema.getD [], ∃ v, resolveParameter toNumber (shown stored) other = .ok v) :
    RejectedAsMasked (resolveTriggerParametersRejectingMasked toNumber schema (shown stored)) := by
  obtain ⟨v, v', hv, hv', s, s', parsed, parsed', rfl, rfl, htext, htext', hreplaced⟩ := h
  have hlookup : stored.lookup parameter.name = some (.str s) := hv
  have hshown := hv'
  rw [readRawValue_shown, hlookup, Option.map_some] at hshown
  -- the text was walked, and what it parses to with it
  have hparsed : parsed' = deepRedactCore 8 [] parsed := by
    obtain hmarker | hwalked := redactProperty_cases (deepRedactCore 9 []) parameter.name (.str s)
    · rw [Option.some.inj hshown] at hmarker
      rw [textValue_marker hmarker] at htext'
      cases htext'
    · rw [hwalked] at hshown
      have hstr : redactString (deepRedactCore 8 []) s = s' := Value.str.inj (Option.some.inj hshown)
      rw [← hstr, textValue_redactString htext] at htext'
      exact (Option.some.inj htext').symm
  obtain ⟨w, hw⟩ := hall parameter hgoverns.mem
  have hblank : isBlank (.str s') = false := by
    have hne : s' ≠ "" := by
      rintro rfl
      cases htext'
    simp [isBlank, hne]
  have hresolved : w = parsed' := by
    have hsubmitted : submittedValue (shown stored) parameter = some (.str s') := by
      unfold submittedValue
      rw [hv']
      dsimp only
      rw [hblank]
      rfl
    have hok := of_resolveParameter_ok toNumber (shown stored) hw
    rw [hsubmitted] at hok
    obtain ⟨rfl, hsuccess⟩ := hok
    exact coerceToType_text toNumber htext' htype hsuccess
  have hscan : hasMaskedLeaf maxRedactDepth w = true := by
    have hmarked := hreplaced.marked
    rw [hresolved, hparsed]
    rw [hparsed] at hmarked
    exact hasMaskedLeaf_deepRedactCore (by decide) hmarked
  apply rejectedAsMasked_of_resolved toNumber schema hall
    (e := ⟨parameter.name, .maskedValueResubmitted⟩)
  refine mem_findMaskedResubmissions.mpr ⟨parameter, hgoverns.mem, ?_, ?_, rfl⟩
  · exact Option.isSome_iff_exists.mpr ⟨_, hv'⟩
  · show hasMaskedLeaf maxRedactDepth (((assignments toNumber (shown stored) (schema.getD []) []).lookup
      parameter.name).getD .undefined) = true
    rw [lookup_assignments toNumber (shown stored) hgoverns hw]
    exact hscan

/-- Whatever does not resolve is rejected as well, for its own reason. -/
theorem rejected_of_failure {rawSource : Value} {parameter : TriggerParameterDefinition}
    (hmem : parameter ∈ schema.getD []) {reason : ValidationReason}
    (h : resolveParameter toNumber rawSource parameter = .error reason) :
    Rejected (resolveTriggerParametersRejectingMasked toNumber schema rawSource) := by
  unfold resolveTriggerParametersRejectingMasked
  dsimp only
  split
  · exact ⟨_, rfl⟩
  · have hfailure : (⟨parameter.name, reason⟩ : TriggerParameterValidationError) ∈
        failures toNumber rawSource (schema.getD []) := by
      unfold failures
      rw [List.mem_filterMap]
      exact ⟨parameter, hmem, by rw [h]⟩
    rw [resolveTriggerParameters_eq, if_pos (List.length_pos_of_mem hfailure)]
    exact ⟨_, rfl⟩

/-- The caller supplied no marker, and no blank value stands for a default with one. -/
def SuppliesNoMarker (submitted : Value) : Prop :=
  ∀ parameter ∈ schema.getD [], ∀ v, readRawValue submitted parameter.name = some v →
    ¬HoldsMarker v ∧ (isBlank v = true →
      hasMaskedLeaf maxRedactDepth (coerceToType toNumber (defaultOf parameter) parameter.type) = false)

theorem not_rejectedAsMasked {submitted : Value} (h : SuppliesNoMarker toNumber schema submitted) :
    ¬RejectedAsMasked (resolveTriggerParametersRejectingMasked toNumber schema submitted) := by
  have hraw : ¬(findMaskedResubmissions schema submitted submitted).length > 0 := by
    intro hpos
    obtain ⟨e, he⟩ := List.exists_mem_of_length_pos hpos
    cases submitted with
    | obj fields =>
      obtain ⟨parameter, hmem, hown, hscan, -⟩ := mem_findMaskedResubmissions.mp he
      obtain ⟨v, hv⟩ := Option.isSome_iff_exists.mp hown
      have hfield : (Value.obj fields).field parameter.name = v := by
        show (fields.lookup parameter.name).getD .undefined = v
        rw [hv]
        rfl
      rw [hfield] at hscan
      exact (h parameter hmem v hv).1 (markedInPlace_of_hasMaskedLeaf hscan).holdsMarker
    | _ => cases he
  unfold resolveTriggerParametersRejectingMasked
  dsimp only
  rw [if_neg hraw, resolveTriggerParameters_eq]
  split
  case h_1 errors hresult =>
    rintro ⟨errors', herrors, e, he, hreason⟩
    rw [← Except.error.inj herrors] at he
    split at hresult
    · rw [← Except.error.inj hresult] at he
      exact reason_of_mem_failures toNumber submitted he hreason
    · cases hresult
  case h_2 resolved hresult =>
    split at hresult
    · cases hresult
    · have hresolved := Except.ok.inj hresult
      have hhits : ¬(findMaskedResubmissions schema submitted (.obj resolved)).length > 0 := by
        intro hpos
        obtain ⟨e, he⟩ := List.exists_mem_of_length_pos hpos
        cases submitted with
        | obj fields =>
          obtain ⟨parameter, hmem, hown, hscan, -⟩ := mem_findMaskedResubmissions.mp he
          obtain ⟨v, hv⟩ := Option.isSome_iff_exists.mp hown
          cases hlookup : resolved.lookup parameter.name with
          | none =>
            have hfield : (Value.obj resolved).field parameter.name = .undefined := by
              show (resolved.lookup parameter.name).getD .undefined = _
              rw [hlookup]
              rfl
            rw [hfield] at hscan
            cases hscan
          | some w =>
            have hfield : (Value.obj resolved).field parameter.name = w := by
              show (resolved.lookup parameter.name).getD .undefined = _
              rw [hlookup]
              rfl
            rw [hfield] at hscan
            rw [← hresolved] at hlookup
            obtain ⟨other, hother, hname, hresolve⟩ | hempty :=
              of_lookup_assignments toNumber (.obj fields) hlookup
            · rw [← hname] at hv
              obtain ⟨hnone, hdefault⟩ := h other hother v hv
              have hread : readRawValue (.obj fields) other.name = some v := hv
              obtain ⟨hw, -⟩ := of_resolveParameter_ok toNumber (.obj fields) hresolve
              unfold submittedValue at hw
              rw [hread] at hw
              dsimp only at hw
              rw [← hw] at hscan
              cases hblank : isBlank v with
              | true =>
                rw [hblank] at hscan
                exact absurd (hdefault hblank) (by simpa using hscan)
              | false =>
                rw [hblank] at hscan
                exact hnone (holdsMarker_of_coerced toNumber (markedInPlace_of_hasMaskedLeaf hscan))
            · cases hempty
        | _ => cases he
      rw [if_neg hhits]
      rintro ⟨errors, herrors, -⟩
      cases herrors

/-- A masked value does not come back as an input: what masking replaced at a place of a declared
parameter is refused as masked, and so is what it replaced inside the text of a parameter that
takes containers unless the submission is refused for a parameter that does not resolve; a caller
without markers is never refused for one. -/
theorem resolveTriggerParametersRejectingMasked_spec :
    (∀ stored, ∀ parameter ∈ schema.getD [], ShownAs ReplacedInPlace stored parameter.name →
      RejectedAsMasked (resolveTriggerParametersRejectingMasked toNumber schema (shown stored))) ∧
    (∀ stored parameter, Governs (schema.getD []) parameter →
      parameter.type = .object ∨ parameter.type = .array →
      ShownAs ReplacedInText stored parameter.name →
      Rejected (resolveTriggerParametersRejectingMasked toNumber schema (shown stored)) ∧
        ((∀ other ∈ schema.getD [], ∃ v,
            resolveParameter toNumber (shown stored) other = .ok v) →
          RejectedAsMasked
            (resolveTriggerParametersRejectingMasked toNumber schema (shown stored)))) ∧
    ∀ submitted, SuppliesNoMarker toNumber schema submitted →
      ¬RejectedAsMasked (resolveTriggerParametersRejectingMasked toNumber schema submitted) := by
  refine ⟨fun stored parameter hmem h => rejectedAsMasked_of_replacedInPlace toNumber schema hmem h,
    fun stored parameter hgoverns htype h => ⟨?_, ?_⟩,
    fun submitted h => not_rejectedAsMasked toNumber schema h⟩
  · by_cases hall : ∀ other ∈ schema.getD [], ∃ v,
        resolveParameter toNumber (shown stored) other = .ok v
    · obtain ⟨errors, herrors, -⟩ := rejected_of_replacedInText toNumber schema hgoverns htype h hall
      exact ⟨errors, herrors⟩
    · push Not at hall
      obtain ⟨other, hmem, hfails⟩ := hall
      cases hresolve : resolveParameter toNumber (shown stored) other with
      | error reason => exact rejected_of_failure toNumber schema hmem hresolve
      | ok v => exact absurd hresolve (hfails v)
  · exact rejected_of_replacedInText toNumber schema hgoverns htype h

/-! ## 7. Runs -/

def optionalParameter (name : String) (type : CoercibleType) (defaultValue : Value) :
    TriggerParameterDefinition := ⟨name, type, false, defaultValue⟩

def keyObject : Value := .obj [("apiKey", .str "k")]

def maskedKeyObject : Value := .obj [("apiKey", .str valueMaskMarker)]

/-- `{"apiKey":"k"}`, as a text. -/
def keyText : String := "\x7b\"apiKey\":\"k\"\x7d"

def noNumber (_ : Value) : Number := .nan

theorem replacedInPlace_keyObject : ReplacedInPlace keyObject maskedKeyObject := by
  have hmem : (("apiKey", Value.str "k"), ("apiKey", Value.str valueMaskMarker)) ∈
      [("apiKey", Value.str "k")].zip [("apiKey", Value.str valueMaskMarker)] := List.mem_cons_self
  exact .property hmem (.here (by decide) (by decide))

theorem replacedInText_keyText :
    ReplacedInText (.str keyText) (.str (JsonText.stringify maskedKeyObject)) :=
  ⟨_, _, keyObject, maskedKeyObject, rfl, rfl, by decide +kernel, by decide +kernel,
    replacedInPlace_keyObject⟩

/-- A key in an object, and one in the text of an object parameter. -/
theorem resolveTriggerParametersRejectingMasked_keys :
    RejectedAsMasked (resolveTriggerParametersRejectingMasked noNumber
      (some [optionalParameter "headers" .object .undefined]) (shown [("headers", keyObject)])) ∧
    RejectedAsMasked (resolveTriggerParametersRejectingMasked noNumber
      (some [optionalParameter "headers" .object .undefined]) (shown [("headers", .str keyText)])) ∧
    ¬RejectedAsMasked (resolveTriggerParametersRejectingMasked noNumber
      (some [optionalParameter "d" .string (.str valueMaskMarker)]) (.obj [])) := by
  refine ⟨?_, ?_, ?_⟩
  · apply (resolveTriggerParametersRejectingMasked_spec noNumber _).1 _ _ List.mem_cons_self
    exact ⟨keyObject, maskedKeyObject, rfl, by decide +kernel, replacedInPlace_keyObject⟩
  · refine ((resolveTriggerParametersRejectingMasked_spec noNumber _).2.1 _
      (optionalParameter "headers" .object .undefined)
      ⟨[], [], rfl, fun _ hmem => absurd hmem List.not_mem_nil⟩ (.inl rfl) ?_).2 ?_
    · exact ⟨_, _, rfl, by decide +kernel, replacedInText_keyText⟩
    · intro other hmem
      rw [List.mem_singleton.mp hmem]
      exact ⟨maskedKeyObject, by decide +kernel⟩
  · apply (resolveTriggerParametersRejectingMasked_spec noNumber _).2.2
    intro parameter _ v hv
    cases hv

/-- A parameter that does not resolve is reported first; the text of a string parameter and a
blank value before a default with a marker go the other way. -/
theorem resolveTriggerParametersRejectingMasked_texts :
    (ShownAs ReplacedInText [("headers", .str keyText), ("n", .str "abc")] "headers" ∧
      resolveTriggerParametersRejectingMasked noNumber
        (some [optionalParameter "headers" .object .undefined,
          optionalParameter "n" .number .undefined])
        (shown [("headers", .str keyText), ("n", .str "abc")]) = .error [⟨"n", .coerceFailed⟩]) ∧
    (ShownAs ReplacedInText [("body", .str keyText)] "body" ∧
      resolveTriggerParametersRejectingMasked noNumber
        (some [optionalParameter "body" .string .undefined]) (shown [("body", .str keyText)]) =
          .ok [("body", .str (JsonText.stringify maskedKeyObject))]) ∧
    resolveTriggerParametersRejectingMasked noNumber
      (some [optionalParameter "d" .string (.str valueMaskMarker)]) (.obj [("d", .str "")]) =
        .error [⟨"d", .maskedValueResubmitted⟩] := by
  refine ⟨⟨⟨_, _, rfl, by decide +kernel, replacedInText_keyText⟩, by decide +kernel⟩,
    ⟨⟨_, _, rfl, by decide +kernel, replacedInText_keyText⟩, by decide +kernel⟩, by decide +kernel⟩

end Clemvion.Egress
