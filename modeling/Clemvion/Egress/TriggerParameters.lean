import Clemvion.Egress.SanitizeErrorMessage

/-!
# TriggerParameters — resolving what a caller submits for a manual run

A declared parameter takes the submitted value or its default, converted to the declared type.
The manual path looks for the markers that masking leaves behind, in the submitted values and
again in the resolved ones, and refuses them.  `Number(v)` belongs to the engine below.
-/

open Clemvion.Js Clemvion.Js.Value

namespace Clemvion.Egress

/-! ## 1. Definitions and errors -/

inductive CoercibleType
  | string | number | boolean | object | array
  deriving DecidableEq, Repr

structure TriggerParameterDefinition where
  name : String
  type : CoercibleType
  required : Bool
  defaultValue : Value

inductive ValidationReason
  | missingRequired | coerceFailed | invalidSchema | maskedValueResubmitted
  deriving DecidableEq, Repr

structure TriggerParameterValidationError where
  field : String
  reason : ValidationReason
  deriving DecidableEq, Repr

abbrev ParameterSchema := Option (List TriggerParameterDefinition)

/-! ## 2. Conversion to a type -/

/-- `n.toString()`, in plain decimal notation. -/
def numberToString : Number → String
  | .nan => "NaN"
  | .posInfinity => "Infinity"
  | .negInfinity => "-Infinity"
  | .finite q => String.ofList (JsonText.writeNumber (.finite q))

/-- `value.trim().startsWith(c)`. -/
def startsTrimmed (c : Char) (s : String) : Bool := (s.toList.dropWhile isJsSpace).head? = some c

section

variable (toNumber : Value → Number)

def coerceToType (value : Value) (type : CoercibleType) : Value :=
  match value with
  | .undefined | .null => .null
  | _ =>
    match type, value with
    | .number, .num n => .num n
    | .number, v => if toNumber v = .nan then .null else .num (toNumber v)
    | .boolean, .bool b => .bool b
    | .boolean, .str "true" => .bool true
    | .boolean, .str "false" => .bool false
    | .boolean, v => .bool v.truthy
    | .array, .str s =>
      if startsTrimmed '[' s then
        match JsonText.parse s with
        | some (.arr items) => .arr items
        | _ => .str s
      else .str s
    | .object, .str s =>
      if startsTrimmed '{' s then
        match JsonText.parse s with
        | some parsed => if parsed.isObject then parsed else .str s
        | none => .str s
      else .str s
    | .string, .str s => .str s
    | .string, .num n => .str (numberToString n)
    | .string, .bool b => .str (if b then "true" else "false")
    | .string, v => .str (JsonText.stringify v)
    | _, v => v

def isCoerceFailure (type : CoercibleType) (source coerced : Value) : Bool :=
  match source with
  | .undefined | .null => false
  | _ =>
    match type, coerced with
    | .number, .null => true
    | .object, .obj _ => false
    | .object, _ => true
    | .array, .arr _ => false
    | .array, _ => true
    | _, _ => false

/-! ## 3. Resolving -/

/-- The value that a record has of its own under a name. -/
def readRawValue (rawSource : Value) (name : String) : Option Value :=
  match rawSource with
  | .obj fields => fields.lookup name
  | _ => none

/-- A value that gives way to the default. -/
def isBlank (v : Value) : Bool := v = .undefined || v = .null || v = .str ""

/-- `def.defaultValue ?? null`. -/
def defaultOf (parameter : TriggerParameterDefinition) : Value :=
  if parameter.defaultValue = .undefined then .null else parameter.defaultValue

/-- The submitted value, unless the default stands in for it. -/
def submittedValue (rawSource : Value) (parameter : TriggerParameterDefinition) : Option Value :=
  match readRawValue rawSource parameter.name with
  | some v => if isBlank v then none else some v
  | none => none

/-- One pass of the loop over the schema. -/
def resolveParameter (rawSource : Value) (parameter : TriggerParameterDefinition) :
    Except ValidationReason Value :=
  let submitted := submittedValue rawSource parameter
  if submitted.isNone && parameter.required then .error .missingRequired
  else
    let effective := submitted.getD (defaultOf parameter)
    let coerced := coerceToType toNumber effective parameter.type
    if isCoerceFailure parameter.type effective coerced then .error .coerceFailed else .ok coerced

/-- The errors so far and the object built so far. -/
abbrev Resolution := List TriggerParameterValidationError × List (String × Value)

def resolveRound (rawSource : Value) (resolution : Resolution)
    (parameter : TriggerParameterDefinition) : Resolution :=
  match resolveParameter toNumber rawSource parameter with
  | .error reason => (resolution.1 ++ [⟨parameter.name, reason⟩], resolution.2)
  | .ok v => (resolution.1, setKey resolution.2 parameter.name v)

def resolveTriggerParameters (schema : ParameterSchema) (rawSource : Value) :
    Except (List TriggerParameterValidationError) (List (String × Value)) :=
  let (errors, resolved) := (schema.getD []).foldl (resolveRound toNumber rawSource) ([], [])
  if errors.length > 0 then .error errors else .ok resolved

/-! ## 4. Refusing masked values -/

/-- The scan with so many levels left; a marker at the last one is still seen. -/
def hasMaskedLeaf : Nat → Value → Bool
  | 0, v => isMaskedMarker v
  | levels + 1, .arr items => items.any (hasMaskedLeaf levels)
  | levels + 1, .obj fields => fields.any fun field => hasMaskedLeaf levels field.2
  | _ + 1, v => isMaskedMarker v

/-- The declared parameters of the raw source with a marker in `values`. -/
def findMaskedResubmissions (schema : ParameterSchema) (rawSource values : Value) :
    List TriggerParameterValidationError :=
  match rawSource, values with
  | .obj raw, .obj fields =>
    ((schema.getD []).filter fun parameter => (raw.lookup parameter.name).isSome &&
      hasMaskedLeaf maxRedactDepth ((Value.obj fields).field parameter.name)).map fun parameter =>
        ⟨parameter.name, .maskedValueResubmitted⟩
  | _, _ => []

def resolveTriggerParametersRejectingMasked (schema : ParameterSchema) (rawSource : Value) :
    Except (List TriggerParameterValidationError) (List (String × Value)) :=
  let rawHits := findMaskedResubmissions schema rawSource rawSource
  if rawHits.length > 0 then .error rawHits
  else
    match resolveTriggerParameters toNumber schema rawSource with
    | .error errors => .error errors
    | .ok resolved =>
      let hits := findMaskedResubmissions schema rawSource (.obj resolved)
      if hits.length > 0 then .error hits else .ok resolved

end

end Clemvion.Egress
