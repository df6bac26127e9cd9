import Clemvion.Js.Text
import Clemvion.Nodes.NestedValue

/-!
# TransformHandler — the operations of a Transform node

An operation either stores something and counts as applied, or finds nothing to work on and counts as
skipped.  `rename_field` is a read, a write and a deletion on one tree, in this order: where one of the
two paths leads through the other, the deletion takes away what was just written.
-/

open Clemvion.Js Clemvion.Library

namespace Clemvion.Nodes

/-! ## 1. Operations -/

inductive TransformOperation
  | renameField (fromPath toPath : String)
  | removeField (field : String)
  | setField (field : String) (value : Data)
  | typeConvert (field targetType : String)
  | stringOp (field operation : String) (args : Data)
  | mathOp (field operation : String) (operand : Option Number)
  | dateOp (field operation : String) (args : Data)
  | arrayFilter (field : String) (condition : Data)
  | arraySort (field : String) (sortBy : Option String) (order : String)
  | objectPick (field : Option String) (keys : List String)
  | objectOmit (field : Option String) (keys : List String)
  | other (type : String)

/-- What the handler takes from the language and from its libraries; `Date` is a valid date of `dayjs`. -/
structure TransformRuntime (Date : Type) where
  conv : Conversions
  /-- `String(value)`. -/
  toText : Data → Except JsError String
  numberText : Number → String
  /-- `JSON.parse`, where it does not throw. -/
  parseJson : String → Option Data
  stringify : Data → String
  trim : String → String
  toUpperCase : String → String
  toLowerCase : String → String
  /-- `str.replace(re, replacement)`, where the pattern is accepted. -/
  replaceRegex (pattern : Data) (all : Bool) (text : String) (replacement : Data) :
    Except JsError (Option String)
  replaceText (all : Bool) (text : String) (search replacement : Data) : Except JsError String
  split : String → String → List String
  join : Data → Data → Except JsError String
  add : Number → Number → Number
  subtract : Number → Number → Number
  multiply : Number → Number → Number
  divide : Number → Number → Number
  round : Number → Number
  ceil : Number → Number
  floor : Number → Number
  dayjs : Data → Option Date
  format : Date → Data → Except JsError String
  /-- `d.add(..)` or `d.subtract(..)`, then `toISOString()`. -/
  shift (forward : Bool) (d : Date) (amount : Number) (unit : String) : Except JsError String
  diff : Date → Date → String → Number
  evaluateCondition (item condition : Data) : Except JsError Bool
  localeCompare : String → String → Number

structure OpResult where
  data : Data
  applied : Bool

variable {Date : Type} (rt : TransformRuntime Date)

/-- `return { data, applied: false }`. -/
def skipped (data : Data) : Except JsError OpResult := .ok ⟨data, false⟩

/-- `setNestedValue(data, field, value); return { data, applied: true }`. -/
def stored (data : Data) (field : String) (value : Data) : Except JsError OpResult := do
  let data ← setNestedValue rt.conv data field value
  return ⟨data, true⟩

def renameField (data : Data) (fromPath toPath : String) : Except JsError OpResult :=
  if !hasNestedValue rt.conv data fromPath then skipped data
  else do
    let value := getNestedValue data fromPath
    let data ← setNestedValue rt.conv data toPath value
    return ⟨delNestedValue rt.conv data fromPath, true⟩

def removeField (data : Data) (field : String) : Except JsError OpResult :=
  if !hasNestedValue rt.conv data field then skipped data
  else .ok ⟨delNestedValue rt.conv data field, true⟩

def Data.isArray : Data → Bool
  | .arr _ _ => true
  | _ => false

def Data.isPlainObject : Data → Bool
  | .obj _ => true
  | _ => false

/-- `Boolean(value)`. -/
def Data.truthy : Data → Bool
  | .undefined | .null => false
  | .bool b => b
  | .num n => n ≠ .finite 0 && n ≠ .nan
  | .str s => s ≠ ""
  | _ => true

/-- The array or object that a text is parsed to. -/
def parsedAs (wanted : Data → Bool) (value : Data) : Option Data :=
  match value with
  | .str text => (rt.parseJson text).bind fun parsed => if wanted parsed then some parsed else none
  | _ => none

def convertTo (data : Data) (field : String) (value : Data) (wanted : Data → Bool) :
    Except JsError OpResult :=
  if wanted value then skipped data
  else
    match parsedAs rt wanted value with
    | some parsed => stored rt data field parsed
    | none => skipped data

def typeConvert (data : Data) (field targetType : String) : Except JsError OpResult :=
  if !hasNestedValue rt.conv data field then skipped data
  else
    let value := getNestedValue data field
    if targetType = "string" then do
      let text ← rt.toText value
      stored rt data field (.str text)
    else if targetType = "number" then do
      let n ← rt.conv.ofValue value
      stored rt data field (.num n)
    else if targetType = "boolean" then stored rt data field (.bool value.truthy)
    else if targetType = "array" then convertTo rt data field value Data.isArray
    else if targetType = "object" then convertTo rt data field value Data.isPlainObject
    else skipped data

/-- An array of the language from its elements. -/
def ofElements (items : List Data) : Data :=
  .arr items.length (items.zipIdx.map fun item => (toString item.2, item.1))

/-- The elements of an array; `none` for a hole. -/
def elements (length : Nat) (props : List (String × Data)) : List (Option Data) :=
  (List.range length).map fun i => props.lookup (toString i)

/-- `value`, where `applied` is set. -/
def stringValue (raw : Data) (operation : String) (args : Data) : Except JsError (Option Data) :=
  if operation = "trim" then do
    let text ← rt.toText raw
    return some (.str (rt.trim text))
  else if operation = "uppercase" then do
    let text ← rt.toText raw
    return some (.str (rt.toUpperCase text))
  else if operation = "lowercase" then do
    let text ← rt.toText raw
    return some (.str (rt.toLowerCase text))
  else if operation = "replace" then
    if !args.truthy then .ok none
    else do
      let text ← rt.toText raw
      let all := match args.read "all" with
        | .bool false => false
        | _ => true
      if (args.read "regex").truthy then
        let replaced ← rt.replaceRegex (args.read "search") all text (args.read "replacement")
        return replaced.map .str
      else
        let replaced ← rt.replaceText all text (args.read "search") (args.read "replacement")
        return some (.str replaced)
  else if operation = "split" then
    match args.read "separator" with
    | .str separator => do
      let text ← rt.toText raw
      return some (ofElements ((rt.split text separator).map .str))
    | _ => .ok none
  else if operation = "join" then
    if !raw.isArray then .ok none
    else do
      let separator := if (args.read "separator").isNullish then .str "," else args.read "separator"
      let text ← rt.join raw separator
      return some (.str text)
  else .ok none

def stringOp (data : Data) (field operation : String) (args : Data) : Except JsError OpResult :=
  if !hasNestedValue rt.conv data field then skipped data
  else do
    match ← stringValue rt (getNestedValue data field) operation args with
    | some value => stored rt data field value
    | none => skipped data

def mathValue (value : Number) (operation : String) (operand : Number) : Option Number :=
  if operation = "add" then some (rt.add value operand)
  else if operation = "subtract" then some (rt.subtract value operand)
  else if operation = "multiply" then some (rt.multiply value operand)
  else if operation = "divide" then if operand ≠ .finite 0 then some (rt.divide value operand) else none
  else if operation = "round" then some (rt.round value)
  else if operation = "ceil" then some (rt.ceil value)
  else if operation = "floor" then some (rt.floor value)
  else none

def mathOp (data : Data) (field operation : String) (operand : Option Number) : Except JsError OpResult :=
  if !hasNestedValue rt.conv data field then skipped data
  else do
    let value ← rt.conv.ofValue (getNestedValue data field)
    match mathValue rt value operation (operand.getD (.finite 0)) with
    | some value => stored rt data field (.num value)
    | none => skipped data

def DATE_UNITS : List String := ["years", "months", "days", "hours", "minutes", "seconds"]

/-- `args.unit`, when it is one of the units. -/
def dateUnit (args : Data) : Option String :=
  match args.read "unit" with
  | .str unit => if DATE_UNITS.contains unit then some unit else none
  | _ => none

def formatDate (data : Data) (field : String) (d : Date) (args : Data) : Except JsError OpResult :=
  if !(args.read "pattern").truthy then skipped data
  else do
    let text ← rt.format d (args.read "pattern")
    stored rt data field (.str text)

def shiftDate (data : Data) (field : String) (d : Date) (forward : Bool) (args : Data) :
    Except JsError OpResult :=
  match args.read "amount", dateUnit args with
  | .num amount, some unit => do
    let text ← rt.shift forward d amount unit
    stored rt data field (.str text)
  | _, _ => skipped data

/-- A path that is no text makes `getNestedValue` throw. -/
def diffDate (data : Data) (field : String) (d : Date) (args : Data) : Except JsError OpResult :=
  match dateUnit args with
  | none => skipped data
  | some unit =>
    if !(args.read "compareField").truthy then skipped data
    else
      match args.read "compareField" with
      | .str compareField =>
        match rt.dayjs (getNestedValue data compareField) with
        | some compare => stored rt data field (.num (rt.diff d compare unit))
        | none => skipped data
      | _ => .error .typeError

def dateOp (data : Data) (field operation : String) (args : Data) : Except JsError OpResult :=
  if !hasNestedValue rt.conv data field then skipped data
  else
    match rt.dayjs (getNestedValue data field) with
    | none => skipped data
    | some d =>
      if operation = "format" then formatDate rt data field d args
      else if operation = "add" then shiftDate rt data field d true args
      else if operation = "subtract" then shiftDate rt data field d false args
      else if operation = "diff" then diffDate rt data field d args
      else skipped data

/-- The holes of an array are passed over. -/
def arrayFilter (data : Data) (field : String) (condition : Data) : Except JsError OpResult :=
  match getNestedValue data field with
  | .arr length props => do
    let filtered ← ((elements length props).filterMap id).filterM fun item =>
      rt.evaluateCondition item condition
    stored rt data field (ofElements filtered)
  | _ => skipped data

def stringifyForSort : Data → String
  | .undefined | .null => ""
  | .str s => s
  | .num n => rt.numberText n
  | .bool b => if b then "true" else "false"
  | value => rt.stringify value

/-- The callback of `sort`. -/
def compareForSort (sortBy : Option String) (a b : Data) : Number :=
  let key := fun item => match sortBy with
    | some path => if path ≠ "" then getNestedValue item path else item
    | none => item
  match key a, key b with
  | .num x, .num y => rt.subtract x y
  | av, bv => rt.localeCompare (stringifyForSort rt av) (stringifyForSort rt bv)

def Data.isUndefined : Data → Bool
  | .undefined => true
  | _ => false

/-- Elements that are `undefined` go to the end without a comparison. -/
def arraySort (data : Data) (field : String) (sortBy : Option String) (order : String) :
    Except JsError OpResult :=
  match getNestedValue data field with
  | .arr length props =>
    let items := (elements length props).map (·.getD .undefined)
    let defined := (items.filter fun item => !item.isUndefined).mergeSort fun a b =>
      !Number.lt (.finite 0) (compareForSort rt sortBy a b)
    let sorted := defined ++ items.filter Data.isUndefined
    stored rt data field (ofElements (if order = "desc" then sorted.reverse else sorted))
  | _ => skipped data

/-- `key in v`. -/
def Data.hasProperty (v : Data) (key : String) : Bool :=
  (v.own key).isSome || (v.isArray && key = "length") || (v.inherited key).isSome

/-- An assignment to `__proto__` makes no property. -/
def pickKeys (src : Data) (keys : List String) : Data :=
  .obj (keys.foldl (fun picked key =>
    if src.hasProperty key && key ≠ "__proto__" then Nodes.setField picked key (src.read key) else picked) [])

def objectPick (data : Data) (field : Option String) (keys : List String) : Except JsError OpResult :=
  if field.getD "" = "" then
    if keys ≠ [] && !data.isContainer then .error .typeError else .ok ⟨pickKeys data keys, true⟩
  else
    match getNestedValue data (field.getD "") with
    | .obj fields => stored rt data (field.getD "") (pickKeys (.obj fields) keys)
    | _ => skipped data

/-- `omitKey`: an element of an array leaves a hole. -/
def omitKey (v : Data) (key : String) : Except JsError Data :=
  if BLOCKED_KEYS.contains key then .ok v
  else
    match v with
    | .obj fields => .ok (.obj (eraseField fields key))
    | .arr length props => if key = "length" then .error .typeError else .ok (.arr length (eraseField props key))
    | .str text =>
      if key = "length" || (arrayIndex key).any (· < utf16Length text) then .error .typeError else .ok v
    | .undefined | .null => .error .typeError
    | _ => .ok v

def objectOmit (data : Data) (field : Option String) (keys : List String) : Except JsError OpResult :=
  if field.getD "" = "" then do
    let data ← keys.foldlM omitKey data
    return ⟨data, true⟩
  else
    match getNestedValue data (field.getD "") with
    | .obj fields => do
      let src ← keys.foldlM omitKey (.obj fields)
      stored rt data (field.getD "") src
    | _ => skipped data

def applyOperation (data : Data) : TransformOperation → Except JsError OpResult
  | .renameField fromPath toPath => renameField rt data fromPath toPath
  | .removeField field => removeField rt data field
  | .setField field value => stored rt data field value
  | .typeConvert field targetType => typeConvert rt data field targetType
  | .stringOp field operation args => stringOp rt data field operation args
  | .mathOp field operation operand => mathOp rt data field operation operand
  | .dateOp field operation args => dateOp rt data field operation args
  | .arrayFilter field condition => arrayFilter rt data field condition
  | .arraySort field sortBy order => arraySort rt data field sortBy order
  | .objectPick field keys => objectPick rt data field keys
  | .objectOmit field keys => objectOmit rt data field keys
  | .other _ => skipped data

structure TransformOutput where
  output : Data
  operationsApplied : Nat
  operationsSkipped : Nat

/-- The loop of `execute`. -/
def applyOperations (state : TransformOutput) : List TransformOperation → Except JsError TransformOutput
  | [] => .ok state
  | op :: rest => do
    let result ← applyOperation rt state.output op
    applyOperations
      { output := result.data
        operationsApplied := if result.applied then state.operationsApplied + 1 else state.operationsApplied
        operationsSkipped := if result.applied then state.operationsSkipped else state.operationsSkipped + 1 }
      rest

/-- A clone of plain data is the same data. -/
def execute (input : Data) (operations : List TransformOperation) : Except JsError TransformOutput :=
  applyOperations rt ⟨input, 0, 0⟩ operations

/-! ## 2. Skipped operations and the counts -/

/-- If the result is a skipped operation, its data are the old ones. -/
def SkipKeeps (data : Data) (result : Except JsError OpResult) : Prop :=
  ∀ out, result = .ok ⟨out, false⟩ → out = data

namespace SkipKeeps

variable {data : Data}

theorem skipped (data : Data) : SkipKeeps data (skipped data) := by
  intro out h
  exact (OpResult.mk.inj (Except.ok.inj h)).1.symm

theorem applied (data after : Data) : SkipKeeps data (.ok ⟨after, true⟩) := by
  intro out h
  exact absurd (OpResult.mk.inj (Except.ok.inj h)).2 Bool.noConfusion

theorem error (data : Data) (e : JsError) : SkipKeeps data (.error e) := by
  intro out h
  cases h

theorem bind {α : Type} {first : Except JsError α} {rest : α → Except JsError OpResult}
    (h : ∀ a, SkipKeeps data (rest a)) : SkipKeeps data (first >>= rest) := by
  cases first with
  | error e => exact error data e
  | ok a => exact h a

theorem ite {c : Prop} [Decidable c] {a b : Except JsError OpResult} (ha : SkipKeeps data a)
    (hb : SkipKeeps data b) : SkipKeeps data (if c then a else b) := by
  by_cases hc : c
  · rwa [if_pos hc]
  · rwa [if_neg hc]

theorem stored (data : Data) (field : String) (value : Data) : SkipKeeps data (stored rt data field value) :=
  bind fun after => applied data after

end SkipKeeps

open SkipKeeps in
theorem convertTo_keeps (data : Data) (field : String) (value : Data) (wanted : Data → Bool) :
    SkipKeeps data (convertTo rt data field value wanted) := by
  refine ite (.skipped data) ?_
  cases parsedAs rt wanted value with
  | some parsed => exact .stored rt data field parsed
  | none => exact .skipped data

open SkipKeeps in
theorem dateOp_keeps (data : Data) (field operation : String) (args : Data) :
    SkipKeeps data (dateOp rt data field operation args) := by
  have hshift : ∀ d forward, SkipKeeps data (shiftDate rt data field d forward args) := by
    intro d forward
    unfold shiftDate
    split
    · exact bind fun text => .stored rt data field _
    · exact .skipped data
  refine ite (.skipped data) ?_
  cases rt.dayjs (getNestedValue data field) with
  | none => exact .skipped data
  | some d =>
    refine ite ?_ (ite (hshift d true) (ite (hshift d false) (ite ?_ (.skipped data))))
    · exact ite (.skipped data) (bind fun text => .stored rt data field _)
    · unfold diffDate
      cases dateUnit args with
      | none => exact .skipped data
      | some unit =>
        refine ite (.skipped data) ?_
        cases args.read "compareField" with
        | str compareField =>
          dsimp only
          cases rt.dayjs (getNestedValue data compareField) with
          | some compare => exact .stored rt data field _
          | none => exact .skipped data
        | _ => exact .error data _

open SkipKeeps in
/-- **A skipped operation** leaves the data exactly as they were. -/
theorem applyOperation_keeps (data : Data) (op : TransformOperation) :
    SkipKeeps data (applyOperation rt data op) := by
  cases op with
  | renameField fromPath toPath => exact ite (.skipped data) (bind fun after => .applied data _)
  | removeField field => exact ite (.skipped data) (.applied data _)
  | setField field value => exact .stored rt data field value
  | typeConvert field targetType =>
    refine ite (.skipped data) (ite ?_ (ite ?_ (ite ?_ (ite ?_ (ite ?_ (.skipped data))))))
    · exact bind fun text => .stored rt data field _
    · exact bind fun n => .stored rt data field _
    · exact .stored rt data field _
    · exact convertTo_keeps rt data field _ _
    · exact convertTo_keeps rt data field _ _
  | stringOp field operation args =>
    refine ite (.skipped data) (bind fun value => ?_)
    cases value with
    | some value => exact .stored rt data field value
    | none => exact .skipped data
  | mathOp field operation operand =>
    refine ite (.skipped data) (bind fun value => ?_)
    cases mathValue rt value operation (operand.getD (.finite 0)) with
    | some value => exact .stored rt data field _
    | none => exact .skipped data
  | dateOp field operation args => exact dateOp_keeps rt data field operation args
  | arrayFilter field condition =>
    show SkipKeeps data (arrayFilter rt data field condition)
    unfold arrayFilter
    cases getNestedValue data field with
    | arr length props => exact bind fun filtered => .stored rt data field _
    | _ => exact .skipped data
  | arraySort field sortBy order =>
    show SkipKeeps data (arraySort rt data field sortBy order)
    unfold arraySort
    cases getNestedValue data field with
    | arr length props => exact .stored rt data field _
    | _ => exact .skipped data
  | objectPick field keys =>
    refine ite (ite (.error data _) (.applied data _)) ?_
    cases getNestedValue data (field.getD "") with
    | obj fields => exact .stored rt data _ _
    | _ => exact .skipped data
  | objectOmit field keys =>
    refine ite (bind fun after => .applied data _) ?_
    cases getNestedValue data (field.getD "") with
    | obj fields => exact bind fun src => .stored rt data _ _
    | _ => exact .skipped data
  | other type => exact .skipped data

/-- Every operation is counted once. -/
theorem applyOperations_counts (operations : List TransformOperation) :
    ∀ state out, applyOperations rt state operations = .ok out →
      out.operationsApplied + out.operationsSkipped =
        state.operationsApplied + state.operationsSkipped + operations.length := by
  induction operations with
  | nil =>
    intro state out h
    rw [← Except.ok.inj h]
    rfl
  | cons op rest ih =>
    intro state out h
    rw [applyOperations] at h
    cases hop : applyOperation rt state.output op with
    | error e =>
      rw [hop] at h
      cases h
    | ok result =>
      rw [hop] at h
      have hrest := ih _ out h
      rw [hrest, List.length_cons]
      cases result.applied with
      | true =>
        simp only [if_true]
        omega
      | false =>
        simp only [Bool.false_eq_true, if_false]
        omega

/-! ## 3. Renaming -/

/-- Data as they come from JSON: nothing in them is `undefined` or a function. -/
def IsPlain (data : Data) : Prop :=
  ∀ r w, ownAt data r = some w → w ≠ .undefined ∧ ∀ name, w ≠ .function name

/-- What `rename_field` is to do with the value at `fromPath`. -/
def RenameLaw (data : Data) (fromPath toPath : String) : Prop :=
  ∃ out, renameField rt data fromPath toPath = .ok ⟨out, true⟩ ∧
    some (getNestedValue out toPath) = ownAt data (parsePath fromPath) ∧
    (Apart (parsePath fromPath) (parsePath toPath) → ownAt out (parsePath fromPath) = none ∧
      ∀ r, Apart r (parsePath fromPath) → Apart r (parsePath toPath) → ownAt out r = ownAt data r)

/-- The paths of a rename: from a field of an object that is there, not from an element of an array, to
    a slot. -/
structure Renames (data : Data) (fromPath toPath : String) : Prop where
  unblocked : Unblocked (parsePath fromPath) ∧ Unblocked (parsePath toPath)
  present : (ownAt data (parsePath fromPath)).isSome = true
  inObject : InObject data (parsePath fromPath)
  slot : Slot data (parsePath toPath)

theorem getNestedValue_eq {path : String} (hpath : parsePath path ≠ []) (v : Data) :
    getNestedValue v path = getKeys v (parsePath path) := by
  unfold getNestedValue
  cases hkeys : parsePath path with
  | nil => exact absurd hkeys hpath
  | cons key keys => cases v <;> rfl

theorem ne_nil_of_slot {v : Data} {keys : List String} (h : Slot v keys) : keys ≠ [] := by
  rintro rfl
  exact h

/-- The object that holds a field is still one after a write elsewhere. -/
theorem Stored.inObject {v value after : Data} {p q : List String} (h : Stored v q value after)
    (hobject : InObject v p) (hq : ¬ q <+: p) : InObject after p := by
  obtain ⟨hne, fields, hparent⟩ := hobject
  have hdrop : p.dropLast <+: p := List.dropLast_prefix p
  refine ⟨hne, ?_⟩
  by_cases habove : p.dropLast <+: q
  · refine h.object _ fields habove ?_ hparent
    rintro heq
    exact hq (heq ▸ hdrop)
  · have hapart : Apart p.dropLast q := ⟨habove, fun hbelow => hq (hbelow.trans hdrop)⟩
    exact ⟨fields, by rw [h.frame _ hapart, hparent]⟩

/-- The rename of a present field, as a write and a deletion. -/
theorem renameField_eq {data value after : Data} {fromPath toPath : String}
    (h : Renames data fromPath toPath) (hvalue : ownAt data (parsePath fromPath) = some value)
    (hafter : setKeys rt.conv data (parsePath toPath) value = .ok after) :
    renameField rt data fromPath toPath = .ok ⟨delKeys rt.conv after (parsePath fromPath), true⟩ := by
  have hhas : hasNestedValue rt.conv data fromPath = true :=
    hasKeys_of_ownAt h.unblocked.1 h.inObject hvalue
  have hread : getNestedValue data fromPath = value := by
    rw [getNestedValue_eq h.inObject.1, getKeys_of_ownAt h.unblocked.1 hvalue]
  rw [renameField, hhas, hread]
  simp only [Bool.not_true, Bool.false_eq_true, if_false, setNestedValue, hafter]
  rfl

/-- **Renaming.** The value is readable under its new name exactly when the new path does not lead
    through the old one and the value holds nothing at what is left of the old path. -/
theorem renameLaw_iff {data : Data} {fromPath toPath : String} (hplain : IsPlain data)
    (h : Renames data fromPath toPath) : RenameLaw rt data fromPath toPath ↔
      ¬ parsePath fromPath <+: parsePath toPath ∧
        ∀ s value, parsePath fromPath = parsePath toPath ++ s →
          ownAt data (parsePath fromPath) = some value → ¬ Removable rt.conv value s := by
  obtain ⟨value, hvalue⟩ := Option.isSome_iff_exists.mp h.present
  obtain ⟨after, hafter, hstored⟩ := setKeys_spec rt.conv h.unblocked.2 h.slot value
  have hrename := renameField_eq rt h hvalue hafter
  have hto := ne_nil_of_slot h.slot
  have hlaw : RenameLaw rt data fromPath toPath ↔
      getKeys (delKeys rt.conv after (parsePath fromPath)) (parsePath toPath) = value ∧
        (Apart (parsePath fromPath) (parsePath toPath) →
          ownAt (delKeys rt.conv after (parsePath fromPath)) (parsePath fromPath) = none ∧
          ∀ r, Apart r (parsePath fromPath) → Apart r (parsePath toPath) →
            ownAt (delKeys rt.conv after (parsePath fromPath)) r = ownAt data r) := by
    constructor
    · rintro ⟨out, hout, hread, hframe⟩
      rw [hrename] at hout
      obtain rfl := (OpResult.mk.inj (Except.ok.inj hout)).1
      rw [getNestedValue_eq hto, hvalue] at hread
      exact ⟨Option.some.inj hread, hframe⟩
    · rintro ⟨hread, hframe⟩
      refine ⟨_, hrename, ?_, hframe⟩
      rw [getNestedValue_eq hto, hvalue, hread]
  rw [hlaw]
  by_cases hunder : parsePath fromPath <+: parsePath toPath
  · -- the deletion takes the new place with it
    refine iff_of_false ?_ fun hcond => hcond.1 hunder
    rintro ⟨hread, -⟩
    obtain ⟨s, hs⟩ := hunder
    have hobject : InObject after (parsePath fromPath) := by
      obtain ⟨hne, fields, hparent⟩ := h.inObject
      have hdrop : (parsePath fromPath).dropLast <+: parsePath fromPath := List.dropLast_prefix _
      refine ⟨hne, hstored.object _ fields (hdrop.trans ⟨s, hs⟩) ?_ hparent⟩
      intro heq
      have hlength := congrArg List.length heq
      have hpos := List.length_pos_iff.mpr hne
      rw [← hs, List.length_dropLast, List.length_append] at hlength
      omega
    obtain ⟨-, -, hgone⟩ := delKeys_spec rt.conv h.unblocked.1 hobject
    have hplainValue := hplain _ _ hvalue
    rw [← hs] at hread
    rcases hgone s with hundefined | ⟨name, hfunction⟩
    · exact hplainValue.1 (hread.symm.trans hundefined)
    · exact hplainValue.2 name (hread.symm.trans hfunction)
  · by_cases hover : parsePath toPath <+: parsePath fromPath
    · -- the deletion reaches into the value at its new place
      obtain ⟨s, hs⟩ := hover
      have hne : s ≠ [] := by
        rintro rfl
        rw [List.append_nil] at hs
        exact hunder (hs ▸ List.prefix_rfl)
      have hnotApart : ¬ Apart (parsePath fromPath) (parsePath toPath) := fun hapart =>
        hapart.2 ⟨s, hs⟩
      rw [← hs, getKeys_delKeys_below h.unblocked.2 hstored.stored hne, delKeys_eq_self_iff, hs]
      constructor
      · rintro ⟨hnot, -⟩
        refine ⟨hunder, ?_⟩
        intro s' value' hs' hvalue'
        rw [hvalue] at hvalue'
        rw [← hs] at hs'
        rw [← Option.some.inj hvalue', ← List.append_cancel_left hs']
        exact hnot
      · rintro ⟨-, hnot⟩
        exact ⟨hnot s value hs.symm hvalue, fun hapart => absurd hapart hnotApart⟩
    · -- the two places are apart
      have hapart : Apart (parsePath fromPath) (parsePath toPath) := ⟨hunder, hover⟩
      obtain ⟨hgone, hframe, -⟩ :=
        delKeys_spec rt.conv h.unblocked.1 (hstored.inObject h.inObject hover)
      refine iff_of_true ⟨?_, fun _ => ⟨hgone, ?_⟩⟩ ⟨hunder, ?_⟩
      · refine getKeys_of_ownAt h.unblocked.2 ?_
        rw [hframe _ ⟨hover, hunder⟩]
        exact hstored.stored
      · intro r hr hr'
        rw [hframe r hr, hstored.frame r hr']
      · intro s value' hs
        exact absurd ⟨s, hs.symm⟩ hover

/-- **The laws of the Transform node.** -/
theorem transformLaws_iff {data : Data} {fromPath toPath : String} (hplain : IsPlain data)
    (h : Renames data fromPath toPath) :
    (RenameLaw rt data fromPath toPath ∧
        (∀ data op out, applyOperation rt data op = .ok ⟨out, false⟩ → out = data) ∧
        ∀ input operations out, execute rt input operations = .ok out →
          out.operationsApplied + out.operationsSkipped = operations.length) ↔
      ¬ parsePath fromPath <+: parsePath toPath ∧
        ∀ s value, parsePath fromPath = parsePath toPath ++ s →
          ownAt data (parsePath fromPath) = some value → ¬ Removable rt.conv value s := by
  rw [renameLaw_iff rt hplain h]
  refine and_iff_left ⟨fun data op out hout => applyOperation_keeps rt data op out hout, ?_⟩
  intro input operations out hout
  have hcounts := applyOperations_counts rt operations _ out hout
  rwa [Nat.add_zero, Nat.zero_add] at hcounts

/-- A runtime for data in which nothing has to be converted. -/
def noRuntime : TransformRuntime Empty where
  conv := ⟨fun _ => .nan, fun _ => .ok .nan⟩
  toText := fun _ => .error .typeError
  numberText := fun _ => ""
  parseJson := fun _ => none
  stringify := fun _ => ""
  trim := id
  toUpperCase := id
  toLowerCase := id
  replaceRegex := fun _ _ _ _ => .ok none
  replaceText := fun _ text _ _ => .ok text
  split := fun text _ => [text]
  join := fun _ _ => .error .typeError
  add := fun a _ => a
  subtract := fun a _ => a
  multiply := fun a _ => a
  divide := fun a _ => a
  round := id
  ceil := id
  floor := id
  dayjs := fun _ => none
  format := fun _ _ => .error .typeError
  shift := fun _ _ _ _ => .error .typeError
  diff := fun _ _ _ => .nan
  evaluateCondition := fun _ _ => .ok false
  localeCompare := fun _ _ => .finite 0

/-- `{ user: { name: "Kim" } }`. -/
def oneUser : Data := .obj [("user", .obj [("name", .str "Kim")])]

/-- `user` renamed to `user.profile`: the operation counts as applied and nothing is left. -/
theorem renameField_loses_value :
    renameField noRuntime oneUser "user" "user.profile" = .ok ⟨.obj [], true⟩ ∧
      getNestedValue (.obj []) "user.profile" = .undefined ∧
      ¬ RenameLaw noRuntime oneUser "user" "user.profile" := by
  have hfrom : parsePath "user" = ["user"] := by decide +kernel
  have hto : parsePath "user.profile" = ["user", "profile"] := by decide +kernel
  have hrename : renameField noRuntime oneUser "user" "user.profile" = .ok ⟨.obj [], true⟩ := by
    simp only [renameField, hasNestedValue, getNestedValue, setNestedValue, delNestedValue, hfrom, hto]
    rfl
  have hread : getNestedValue (.obj []) "user.profile" = .undefined := by
    rw [getNestedValue, hto]
    rfl
  refine ⟨hrename, hread, ?_⟩
  rintro ⟨out, hout, hvalue, -⟩
  rw [hrename] at hout
  obtain rfl := (OpResult.mk.inj (Except.ok.inj hout)).1
  rw [hread, hfrom] at hvalue
  cases hvalue

theorem isPlain_obj {fields : List (String × Data)}
    (h : ∀ key w, fields.lookup key = some w → IsPlain w) : IsPlain (.obj fields) := by
  intro r w hw
  cases r with
  | nil =>
    obtain rfl := Option.some.inj hw
    exact ⟨nofun, nofun⟩
  | cons key r =>
    obtain ⟨child, hown, hw⟩ := Option.bind_eq_some_iff.mp hw
    exact h key child hown r w hw

theorem isPlain_str (text : String) : IsPlain (.str text) := by
  intro r w hw
  cases r with
  | nil =>
    obtain rfl := Option.some.inj hw
    exact ⟨nofun, nofun⟩
  | cons key r => cases hw

theorem lookup_single {α : Type} {key key' : String} {v w : α} (h : [(key, v)].lookup key' = some w) :
    w = v := by
  rw [lookup_cons_eq] at h
  split at h
  · exact (Option.some.inj h).symm
  · cases h

theorem oneUser_plain : IsPlain oneUser := by
  refine isPlain_obj fun _ _ h => ?_
  rw [lookup_single h]
  refine isPlain_obj fun _ _ h => ?_
  rw [lookup_single h]
  exact isPlain_str "Kim"

/-- `user.name` renamed to `name` keeps all laws. -/
theorem transformLaws_oneUser :
    (RenameLaw noRuntime oneUser "user.name" "name" ∧
        (∀ data op out, applyOperation noRuntime data op = .ok ⟨out, false⟩ → out = data) ∧
        ∀ input operations out, execute noRuntime input operations = .ok out →
          out.operationsApplied + out.operationsSkipped = operations.length) ↔
      ¬ parsePath "user.name" <+: parsePath "name" ∧
        ∀ s value, parsePath "user.name" = parsePath "name" ++ s →
          ownAt oneUser (parsePath "user.name") = some value → ¬ Removable noRuntime.conv value s := by
  have hfrom : parsePath "user.name" = ["user", "name"] := by decide +kernel
  have hto : parsePath "name" = ["name"] := by decide +kernel
  refine transformLaws_iff noRuntime oneUser_plain ⟨?_, ?_, ?_, ?_⟩
  · rw [hfrom, hto]
    constructor <;> simp [Unblocked, BLOCKED_KEYS]
  · rw [hfrom]
    rfl
  · rw [hfrom]
    exact ⟨by decide, [("name", .str "Kim")], rfl⟩
  · rw [hto]
    exact True.intro

end Clemvion.Nodes
