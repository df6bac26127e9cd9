import Clemvion.Expression.Ast
import Clemvion.Js.JsonText
import Clemvion.Js.ParseFloat
import Clemvion.Js.Properties

/-!
# Operators — what the operators of the expression language do to values

Floating-point arithmetic, the conversions between numbers and text and the comparison of texts
by locale belong to the engine that runs the code, and are taken from a `Host`.
-/

open Clemvion.Js Clemvion.Js.Value

namespace Clemvion.Expression

/-! ## 1. The engine below -/

/-- What a built-in function throws. -/
inductive Thrown
  | expressionError (e : ExpressionError)
  | other (message : String)

structure Host where
  add : Number → Number → Number
  subtract : Number → Number → Number
  multiply : Number → Number → Number
  divide : Number → Number → Number
  remainder : Number → Number → Number
  /-- `Number(s)`. -/
  toNumber : String → Number
  /-- `String(n)`. -/
  numberText : Number → String
  /-- `JSON.stringify(v)` of an array or an object. -/
  jsonText : Value → String
  localeCompare : String → String → Number
  /-- `Date.now() - startTime`, at each reading of the world. -/
  elapsed : Nat → Number
  /-- The registry; a function may read the clock or a random number. -/
  getFunction : String → Option (Nat → List Value → Except Thrown Value)

def referenceError (message : String) : ExpressionError := ⟨.referenceError, message, none⟩

def typeError (message : String) : ExpressionError := ⟨.typeError, message, none⟩

def functionError (message : String) : ExpressionError := ⟨.functionError, message, none⟩

/-! ## 2. Types and conversions -/

/-- `v === null || v === undefined`. -/
def isNullish : Value → Bool
  | .null | .undefined => true
  | _ => false

def typeOf : Value → String
  | .undefined => "undefined"
  | .bool _ => "boolean"
  | .num _ => "number"
  | .str _ => "string"
  | .null | .arr _ | .obj _ => "object"

def ofBool (b : Bool) : Number := .finite (if b then 1 else 0)

def toBooleanValue : Value → Bool
  | .null | .undefined => false
  | .bool b => b
  | .num n => n ≠ .finite 0
  | .str s => s ≠ ""
  | .arr items => items.length > 0
  | .obj _ => true

section

variable (host : Host)

def toStringValue : Value → String
  | .null | .undefined => ""
  | .str s => s
  | .arr items => host.jsonText (.arr items)
  | .obj fields => host.jsonText (.obj fields)
  | .num n => host.numberText n
  | .bool b => if b then "true" else "false"

def tryToNumber : Value → Option Number
  | .num n => some n
  | .bool b => some (ofBool b)
  | .str s => if host.toNumber s ≠ .nan then some (host.toNumber s) else none
  | _ => none

def toNumberValue (value : Value) (operator : String) : Except ExpressionError Number :=
  match tryToNumber host value with
  | some n => .ok n
  | none => .error (typeError s!"Cannot apply '{operator}' operator to {typeOf value}")

/-! ## 3. Arithmetic -/

def evalPlus (left right : Value) : Value :=
  match left, right with
  | .str _, _ | _, .str _ => .str (toStringValue host left ++ toStringValue host right)
  | .num m, .num n => .num (host.add m n)
  | _, _ =>
    match tryToNumber host left, tryToNumber host right with
    | some m, some n => .num (host.add m n)
    | _, _ => .str (toStringValue host left ++ toStringValue host right)

def evalArithmetic (left right : Value) (op : Number → Number → Number) (symbol : String) :
    Except ExpressionError Value := do
  let m ← toNumberValue host left symbol
  let n ← toNumberValue host right symbol
  return .num (op m n)

end

/-! ## 4. Equality -/

mutual

/-- Objects are compared by what they hold.  Two that are the same object hold the same, so the
test `a === b` on them is left out: it would only matter for a `NaN` inside. -/
def deepEqual : Value → Value → Bool
  | .arr items, .arr items' => items.length = items'.length && deepEqualItems items items'
  | .obj fields, .obj fields' =>
    fields.length = fields'.length && deepEqualFields fields (.obj fields')
  | a, b => strictEquals a b

def deepEqualItems : List Value → List Value → Bool
  | [], _ => true
  | item :: items, items' =>
    deepEqual item (items'.headD .undefined) && deepEqualItems items items'.tail

/-- Every property of the left object against the one of that name in the right object. -/
def deepEqualFields : List (String × Value) → Value → Bool
  | [], _ => true
  | (key, value) :: fields, b => deepEqual value (b.field key) && deepEqualFields fields b

end

/-- A boolean is compared as a number. -/
def coerced : Value → Value
  | .bool b => .num (ofBool b)
  | v => v

/-- `==` on values of different types, neither of them `null` or `undefined`. -/
def equalAcrossTypes (host : Host) (left right : Value) : Bool :=
  match coerced left, coerced right with
  | .num m, .num n => strictEquals (.num m) (.num n)
  | .num m, .str s => host.toNumber s ≠ .nan && strictEquals (.num m) (.num (host.toNumber s))
  | .str s, .num n => host.toNumber s ≠ .nan && strictEquals (.num (host.toNumber s)) (.num n)
  | _, _ => false

def evalEquality (host : Host) (strictComparison : Bool) (left right : Value) : Bool :=
  if strictComparison then
    if typeOf left ≠ typeOf right then isNullish left && isNullish right
    else deepEqual left right
  else if isNullish left && isNullish right then true
  else if isNullish left || isNullish right then false
  else if typeOf left = typeOf right then deepEqual left right
  else equalAcrossTypes host left right

/-! ## 5. Order -/

def compareError (left right : Value) : ExpressionError :=
  typeError s!"Cannot compare {typeOf left} and {typeOf right}"

def evalComparison (host : Host) (left right : Value) (op : Number → Number → Bool) :
    Except ExpressionError Bool :=
  if isNullish left || isNullish right then .ok false
  else if typeOf left = "object" || typeOf right = "object" then
    .error (typeError "Cannot compare objects or arrays with relational operators")
  else
    match coerced left, coerced right with
    | .num m, .num n => .ok (op m n)
    | .str s, .num n =>
      if host.toNumber s ≠ .nan then .ok (op (host.toNumber s) n) else .error (compareError left right)
    | .num m, .str s =>
      if host.toNumber s ≠ .nan then .ok (op m (host.toNumber s)) else .error (compareError left right)
    | .str s, .str s' =>
      if host.toNumber s ≠ .nan && host.toNumber s' ≠ .nan then
        .ok (op (host.toNumber s) (host.toNumber s'))
      else .ok (op (host.localeCompare s s') (.finite 0))
    | _, _ => .error (compareError left right)

/-! ## 6. Access -/

/-- `items[n]`. -/
def arrayItem (items : List Value) : Number → Value
  | .finite q => if q.den = 1 && 0 ≤ q then items.getD q.num.toNat .undefined else .undefined
  | _ => .undefined

/-- `v[key]` by name; the positions of an array go by their decimal names. -/
def readProperty : Value → String → Value
  | .arr items, key =>
    if key = "length" then .num (.finite items.length)
    else ((items.zipIdx.find? fun item => toString item.2 = key).map Prod.fst).getD .undefined
  | v, key => v.field key

/-- `v ?? null`. -/
def orNull : Value → Value
  | .undefined => .null
  | v => v

/-- The property of a receiver that is there. -/
def memberOf (obj : Value) (property : String) : Except ExpressionError Value :=
  if obj.isObject then .ok (orNull (readProperty obj property))
  else .error (typeError s!"Cannot read property '{property}' of {typeOf obj}")

/-- The item of a receiver that is there. -/
def itemOf (host : Host) (obj index : Value) : Except ExpressionError Value :=
  match obj, index with
  | .arr items, .num n => .ok (orNull (arrayItem items n))
  | .arr _, _ => .error (typeError "Array index must be a number")
  | .obj fields, .str key => .ok (orNull (readProperty (.obj fields) key))
  | .obj fields, .num n => .ok (orNull (readProperty (.obj fields) (host.numberText n)))
  | .obj _, _ => .error (typeError "Object key must be a string or number")
  | _, _ => .error (typeError s!"Cannot index into {typeOf obj}")

/-- `String(v)` of `null` and `undefined`. -/
def nullishText : Value → String
  | .null => "null"
  | _ => "undefined"

/-! ## 7. A host to run examples on -/

/-- Exact arithmetic, an idle clock and an empty registry. -/
def exactHost : Host where
  add := exactly (· + ·)
  subtract := exactly (· - ·)
  multiply := exactly (· * ·)
  divide := exactly (· / ·)
  remainder := exactly fun p q => p - q * ((p.num * q.den).tdiv (q.num * p.den))
  toNumber := parseFloat
  numberText n := String.ofList (JsonText.writeNumber n)
  jsonText := JsonText.stringify
  localeCompare s t := .finite (if s < t then -1 else if s = t then 0 else 1)
  elapsed _ := .finite 0
  getFunction _ := none
where
  exactly (op : Rat → Rat → Rat) : Number → Number → Number
    | .finite p, .finite q => .finite (op p q)
    | _, _ => .nan

end Clemvion.Expression
