import Mathlib.Data.List.Basic
import Mathlib.Data.Rat.Defs

/-!
# Value — the JavaScript values that flow between nodes

Handler outputs, cache entries and expression results are `unknown` in the source: any plain
JavaScript value.  An object keeps its own properties in insertion order; a property may hold
`undefined`, which `in` sees and a read does not tell from an absent one.
-/

namespace Clemvion.Js

/-- A number, with `-0` identified with `0` as `===` does. -/
inductive Number
  | finite (q : Rat) | posInfinity | negInfinity | nan
  deriving DecidableEq

/-- `a < b`; false as soon as one side is `NaN`. -/
def Number.lt : Number → Number → Bool
  | .finite p, .finite q => p < q
  | .finite _, .posInfinity => true
  | .negInfinity, .finite _ => true
  | .negInfinity, .posInfinity => true
  | _, _ => false

/-- `a <= b`; false as soon as one side is `NaN`. -/
def Number.le (a b : Number) : Bool := a.lt b || (a = b && a ≠ .nan)

/-- `Number.isInteger(n)`. -/
def Number.isInteger : Number → Bool
  | .finite q => q.den = 1
  | _ => false

/-- `n + 1`, exact as it is below `2 ^ 53`. -/
def Number.succ : Number → Number
  | .finite q => .finite (q + 1)
  | n => n

inductive Value
  | undefined
  | null
  | bool (b : Bool)
  | num (n : Number)
  | str (s : String)
  | arr (items : List Value)
  | obj (fields : List (String × Value))

namespace Value

instance : Inhabited Value := ⟨.undefined⟩

/-! ## 1. Equality is decidable -/

mutual

def decEq : (a b : Value) → Decidable (a = b)
  | .undefined, b => by cases b <;> first | exact isTrue rfl | exact isFalse (by intro h; cases h)
  | .null, b => by cases b <;> first | exact isTrue rfl | exact isFalse (by intro h; cases h)
  | .bool x, b => by
    cases b with
    | bool y => exact decidable_of_iff (x = y) (by simp)
    | _ => exact isFalse (by intro h; cases h)
  | .num x, b => by
    cases b with
    | num y => exact decidable_of_iff (x = y) (by simp)
    | _ => exact isFalse (by intro h; cases h)
  | .str x, b => by
    cases b with
    | str y => exact decidable_of_iff (x = y) (by simp)
    | _ => exact isFalse (by intro h; cases h)
  | .arr xs, b => by
    cases b with
    | arr ys => exact @decidable_of_iff _ (xs = ys) (by simp) (decEqItems xs ys)
    | _ => exact isFalse (by intro h; cases h)
  | .obj fs, b => by
    cases b with
    | obj gs => exact @decidable_of_iff _ (fs = gs) (by simp) (decEqFields fs gs)
    | _ => exact isFalse (by intro h; cases h)

def decEqItems : (xs ys : List Value) → Decidable (xs = ys)
  | [], [] => isTrue rfl
  | [], _ :: _ => isFalse (by simp)
  | _ :: _, [] => isFalse (by simp)
  | x :: xs, y :: ys =>
    @decidable_of_iff _ (x = y ∧ xs = ys) (by simp)
      (@instDecidableAnd _ _ (decEq x y) (decEqItems xs ys))

def decEqFields : (fs gs : List (String × Value)) → Decidable (fs = gs)
  | [], [] => isTrue rfl
  | [], _ :: _ => isFalse (by simp)
  | _ :: _, [] => isFalse (by simp)
  | (k, x) :: fs, (l, y) :: gs =>
    @decidable_of_iff _ ((k = l ∧ x = y) ∧ fs = gs) (by simp)
      (@instDecidableAnd _ _ (@instDecidableAnd _ _ (inferInstanceAs (Decidable (k = l)))
        (decEq x y)) (decEqFields fs gs))

end

instance : DecidableEq Value := decEq

/-! ## 2. Own properties -/

/-- `v[key]`: `undefined` for an absent property and for a value without properties. -/
def field : Value → String → Value
  | .obj fields, key => (fields.lookup key).getD .undefined
  | _, _ => .undefined

/-- `key in v`, for a value that may not be an object. -/
def hasField : Value → String → Bool
  | .obj fields, key => (fields.lookup key).isSome
  | _, _ => false

/-- `typeof v === 'object'`, apart from `null`. -/
def isObject : Value → Bool
  | .arr _ | .obj _ => true
  | _ => false

/-! ## 3. Comparison and truth -/

/-- Truth in a condition. -/
def truthy : Value → Bool
  | .undefined | .null => false
  | .bool b => b
  | .num n => n ≠ .finite 0 && n ≠ .nan
  | .str s => s ≠ ""
  | .arr _ | .obj _ => true

/-- `a === b` for values that come from different calls: arrays and objects parsed apart are
different objects. -/
def strictEquals : Value → Value → Bool
  | .undefined, .undefined | .null, .null => true
  | .bool a, .bool b => a = b
  | .num a, .num b => a ≠ .nan && a = b
  | .str a, .str b => a = b
  | _, _ => false

theorem strictEquals_comm (a b : Value) : strictEquals a b = strictEquals b a := by
  cases a <;> cases b <;> simp only [strictEquals, eq_comm]
  -- the numbers remain: the `NaN` test looks at the left one only
  rename_i m n
  by_cases h : m = n
  · rw [h]
  · simp [h]

/-! ## 4. Building objects -/

/-- Set a property: in place when it exists, else at the end. -/
def setKey (fields : List (String × Value)) (key : String) (v : Value) : List (String × Value) :=
  if (fields.lookup key).isSome then
    fields.map fun field => if field.1 = key then (key, v) else field
  else fields ++ [(key, v)]

/-- `...(v !== undefined ? { key: v } : {})`. -/
def presentField (key : String) (v : Value) : List (String × Value) :=
  if v ≠ .undefined then [(key, v)] else []

/-- The own enumerable properties that `...v` copies. -/
def ownFields : Value → List (String × Value)
  | .obj fields => fields
  | .arr items => items.zipIdx.map fun item => (toString item.2, item.1)
  | .str s => s.toList.zipIdx.map fun c => (toString c.2, .str (String.singleton c.1))
  | _ => []

/-- `{ ...fields, ...v }`. -/
def spread (fields : List (String × Value)) (v : Value) : List (String × Value) :=
  (ownFields v).foldl (fun acc field => setKey acc field.1 field.2) fields

end Value

end Clemvion.Js
