import Mathlib.Algebra.GroupWithZero.Nat
import Mathlib.Algebra.Ring.Int.Defs
import Mathlib.Data.List.Infix
import Clemvion.Js.Value
import Clemvion.Library.Regex

/-!
# NestedValue — reading and writing along a path

The data of a Transform node is a tree of objects and arrays that is changed in place.  Here each
change gives a new tree; a part that stands in two places of the tree for a moment is two equal parts.
An array keeps its elements as properties under their index, so that an assignment past its end or to
a name leaves what it leaves in JavaScript: a hole, a longer array, a named property.
-/

open Clemvion.Js Clemvion.Library

namespace Clemvion.Nodes

/-! ## 1. Values and their properties -/

inductive Data
  | undefined
  | null
  | bool (b : Bool)
  | num (n : Number)
  | str (s : String)
  /-- A built-in function, as it is inherited from a prototype. -/
  | function (name : String)
  | arr (length : Nat) (props : List (String × Data))
  | obj (fields : List (String × Data))

inductive JsError
  | typeError | rangeError | thrown (message : String)

/-- `Number(..)` of a text and of a value. -/
structure Conversions where
  ofText : String → Number
  ofValue : Data → Except JsError Number

/-- `typeof v === 'object'`, apart from `null`. -/
def Data.isContainer : Data → Bool
  | .arr _ _ | .obj _ => true
  | _ => false

def Data.isNullish : Data → Bool
  | .undefined | .null => true
  | _ => false

section Fields

variable {α : Type}

/-- In place when the field exists, else at the end. -/
def setField (fields : List (String × α)) (key : String) (v : α) : List (String × α) :=
  if (fields.lookup key).isSome then
    fields.map fun field => if field.1 = key then (key, v) else field
  else fields ++ [(key, v)]

/-- The value of the field, where it stands. -/
def replaceField (fields : List (String × α)) (key : String) (v : α) : List (String × α) :=
  match fields with
  | [] => []
  | field :: rest => if field.1 = key then (key, v) :: rest else field :: replaceField rest key v

def eraseField (fields : List (String × α)) (key : String) : List (String × α) :=
  fields.filter fun field => field.1 ≠ key

end Fields

def objectPrototype : List String :=
  ["constructor", "__defineGetter__", "__defineSetter__", "hasOwnProperty", "__lookupGetter__",
    "__lookupSetter__", "isPrototypeOf", "propertyIsEnumerable", "toString", "valueOf",
    "toLocaleString"]

def arrayPrototype : List String :=
  ["at", "concat", "copyWithin", "fill", "find", "findIndex", "findLast", "findLastIndex",
    "lastIndexOf", "pop", "push", "reverse", "shift", "unshift", "slice", "sort", "splice", "includes",
    "indexOf", "join", "keys", "entries", "values", "forEach", "filter", "flat", "flatMap", "map",
    "every", "some", "reduce", "reduceRight", "toReversed", "toSorted", "toSpliced", "with"]

/-- An index of an array is written without leading zeros. -/
def arrayIndex (key : String) : Option Nat :=
  let cs := key.toList
  let n := Nat.ofDigitChars 10 cs 0
  if cs ≠ [] && cs.all Char.isDigit && (cs = ['0'] || cs.head? ≠ some '0') && n < 2 ^ 32 - 1 then some n
  else none

/-- The value of an own property, apart from the length of an array. -/
def Data.own : Data → String → Option Data
  | .obj fields, key => fields.lookup key
  | .arr _ props, key => if key = "length" then none else props.lookup key
  | _, _ => none

def Data.inherited : Data → String → Option Data
  | .obj _, key => if objectPrototype.contains key then some (.function key) else none
  | .arr _ _, key =>
    if arrayPrototype.contains key || objectPrototype.contains key then some (.function key) else none
  | _, _ => none

/-- `v[key]`. -/
def Data.read (v : Data) (key : String) : Data :=
  match v.own key with
  | some w => w
  | none =>
    match v with
    | .arr length _ => if key = "length" then .num (.finite length) else (v.inherited key).getD .undefined
    | _ => (v.inherited key).getD .undefined

/-- `v.length = w`: the elements from there on go. -/
def setLength (conv : Conversions) (props : List (String × Data)) (w : Data) : Except JsError Data := do
  match ← conv.ofValue w with
  | .finite q =>
    if q.den = 1 && 0 ≤ q.num && q.num < 2 ^ 32 then
      let length := q.num.toNat
      return .arr length (props.filter fun field => (arrayIndex field.1).all (· < length))
    else throw .rangeError
  | _ => throw .rangeError

/-- `v[key] = w`. -/
def Data.assign (conv : Conversions) (v : Data) (key : String) (w : Data) : Except JsError Data :=
  match v with
  | .obj fields => .ok (.obj (setField fields key w))
  | .arr length props =>
    if key = "length" then setLength conv props w
    else .ok (.arr (max length (((arrayIndex key).map (· + 1)).getD 0)) (setField props key w))
  | _ => .error .typeError

/-- The own property `key` of `v` after its value was changed to `w` in place. -/
def Data.withChild : Data → String → Data → Data
  | .obj fields, key, w => .obj (replaceField fields key w)
  | .arr length props, key, w => .arr length (replaceField props key w)
  | v, _, _ => v

/-! ## 2. Paths -/

/-- `replace(/\[(\w+)\]/g, '.$1')`; `pending` holds the word characters since an open bracket. -/
def normalizePath : Option (List Char) → List Char → List Char
  | none, [] => []
  | some word, [] => '[' :: word
  | none, c :: cs => if c = '[' then normalizePath (some []) cs else c :: normalizePath none cs
  | some word, c :: cs =>
    if Regex.isWordChar c then normalizePath (some (word ++ [c])) cs
    else if c = ']' && word ≠ [] then '.' :: word ++ normalizePath none cs
    else if c = '[' then '[' :: word ++ normalizePath (some []) cs
    else '[' :: word ++ c :: normalizePath none cs

def parsePath (path : String) : List String :=
  let normalized := normalizePath none path.toList
  ((normalized.splitOn '.').filter (· ≠ [])).map String.ofList

def BLOCKED_KEYS : List String := ["__proto__", "constructor", "prototype"]

/-- `const idx = Number(key)`, when it is an element of the array. -/
def elementIndex (conv : Conversions) (length : Nat) (key : String) : Option Nat :=
  match conv.ofText key with
  | .finite q => if q.den = 1 && 0 ≤ q.num && q.num < length then some q.num.toNat else none
  | _ => none

/-- The loop of `getNestedValue`. -/
def getKeys : Data → List String → Data
  | current, [] => current
  | current, key :: keys =>
    if !current.isContainer then .undefined
    else if BLOCKED_KEYS.contains key then .undefined
    else getKeys (current.read key) keys

def getNestedValue (v : Data) (path : String) : Data :=
  if v.isNullish then .undefined else getKeys v (parsePath path)

/-- The last key of a path. -/
def hasKey (conv : Conversions) (current : Data) (key : String) : Bool :=
  if BLOCKED_KEYS.contains key then false
  else
    match current with
    | .arr length _ => (elementIndex conv length key).isSome
    | .obj _ => (current.own key).isSome || (current.inherited key).isSome
    | _ => false

def hasKeys (conv : Conversions) : Data → List String → Bool
  | _, [] => false
  | current, [key] => hasKey conv current key
  | current, key :: keys =>
    if BLOCKED_KEYS.contains key then false
    else if !current.isContainer then false
    else hasKeys conv (current.read key) keys

def hasNestedValue (conv : Conversions) (v : Data) (path : String) : Bool :=
  hasKeys conv v (parsePath path)

/-- An object is made where the path leads through something else. -/
def setKeys (conv : Conversions) : Data → List String → Data → Except JsError Data
  | current, [], _ => .ok current
  | current, [key], value =>
    if BLOCKED_KEYS.contains key then .ok current else current.assign conv key value
  | current, key :: keys, value =>
    if BLOCKED_KEYS.contains key then .ok current
    else if (current.read key).isContainer then do
      let child ← setKeys conv (current.read key) keys value
      return current.withChild key child
    else do
      let child ← setKeys conv (.obj []) keys value
      current.assign conv key child

def setNestedValue (conv : Conversions) (v : Data) (path : String) (value : Data) : Except JsError Data :=
  setKeys conv v (parsePath path) value

/-- `splice(idx, 1)`: the later elements move down. -/
def splice (length : Nat) (props : List (String × Data)) (idx : Nat) : Data :=
  .arr (length - 1) (props.filterMap fun field =>
    match arrayIndex field.1 with
    | none => some field
    | some i => if i < idx then some field else if i = idx then none else some (toString (i - 1), field.2))

/-- The last key of a path. -/
def delKey (conv : Conversions) (current : Data) (key : String) : Data :=
  if BLOCKED_KEYS.contains key then current
  else
    match current with
    | .arr length props =>
      match elementIndex conv length key with
      | some idx => splice length props idx
      | none => current
    | .obj fields => .obj (eraseField fields key)
    | _ => current

def delKeys (conv : Conversions) : Data → List String → Data
  | current, [] => current
  | current, [key] => delKey conv current key
  | current, key :: keys =>
    if BLOCKED_KEYS.contains key then current
    else if (current.read key).isContainer then
      current.withChild key (delKeys conv (current.read key) keys)
    else current

def delNestedValue (conv : Conversions) (v : Data) (path : String) : Data :=
  delKeys conv v (parsePath path)

/-! ## 3. Positions -/

/-- What stands at a position: own properties only. -/
def ownAt : Data → List String → Option Data
  | v, [] => some v
  | v, key :: keys => (v.own key).bind fun w => ownAt w keys

/-- Neither path leads through the other. -/
def Apart (p q : List String) : Prop := ¬ p <+: q ∧ ¬ q <+: p

/-- A path that leads to a place where `setNestedValue` stores without overwriting anything on the way: a
    field of an object, there or not, or an element of an array. -/
def Slot : Data → List String → Prop
  | _, [] => False
  | .obj _, [_] => True
  | .arr length props, [key] => ((Data.arr length props).own key).isSome = true
  | v, key :: keys => (v.own key = none ∧ ∃ fields, v = .obj fields) ∨
      ∃ w, v.own key = some w ∧ w.isContainer = true ∧ Slot w keys

def Unblocked (keys : List String) : Prop := ∀ key ∈ keys, key ∉ BLOCKED_KEYS

section Lookup

variable {α : Type} {fields : List (String × α)} {key key' : String} {v : α}

theorem lookup_cons_eq (field : String × α) :
    (field :: fields).lookup key = if key = field.1 then some field.2 else fields.lookup key := by
  rw [List.lookup_cons]
  split_ifs with heq
  · rw [heq, beq_self_eq_true]
  · rw [beq_false_of_ne heq]

theorem lookup_setField :
    (setField fields key v).lookup key' = if key' = key then some v else fields.lookup key' := by
  have hreplace : ∀ rest : List (String × α),
      (rest.map fun field => if field.1 = key then (key, v) else field).lookup key' =
        if key' = key then (rest.lookup key).map fun _ => v else rest.lookup key' := by
    intro rest
    induction rest with
    | nil => simp
    | cons field rest ih =>
      rw [List.map_cons, lookup_cons_eq, ih, lookup_cons_eq, lookup_cons_eq]
      by_cases hfield : field.1 = key
      · by_cases hkey : key' = key <;> simp [hfield, hkey]
      · by_cases hkey : key' = key
        · simp [hfield, hkey, Ne.symm hfield]
        · simp [hfield, hkey]
  unfold setField
  split_ifs with hpresent hkey hkey
  · rw [hreplace, if_pos hkey]
    obtain ⟨w, hw⟩ := Option.isSome_iff_exists.mp hpresent
    rw [hw]
    rfl
  · rw [hreplace, if_neg hkey]
  · have habsent : fields.lookup key = none := Option.not_isSome_iff_eq_none.mp hpresent
    rw [List.lookup_append, hkey, habsent, lookup_cons_eq, if_pos rfl]
    rfl
  · rw [List.lookup_append, lookup_cons_eq, if_neg hkey]
    simp

theorem lookup_replaceField (h : (fields.lookup key).isSome = true) :
    (replaceField fields key v).lookup key' = if key' = key then some v else fields.lookup key' := by
  induction fields with
  | nil => cases h
  | cons field rest ih =>
    by_cases hfield : field.1 = key
    · rw [replaceField, if_pos hfield, lookup_cons_eq, lookup_cons_eq, hfield]
      by_cases hkey : key' = key
      · rw [if_pos hkey, if_pos hkey]
      · rw [if_neg hkey, if_neg hkey, if_neg hkey]
    · rw [lookup_cons_eq, if_neg fun heq => hfield heq.symm] at h
      rw [replaceField, if_neg hfield, lookup_cons_eq, lookup_cons_eq, ih h]
      by_cases hkey : key' = key
      · rw [if_neg fun heq => hfield (heq.symm.trans hkey), if_pos hkey, if_pos hkey]
      · rw [if_neg hkey, if_neg hkey]

theorem replaceField_same (h : fields.lookup key = some v) : replaceField fields key v = fields := by
  induction fields with
  | nil => rfl
  | cons field rest ih =>
    by_cases hfield : field.1 = key
    · rw [lookup_cons_eq, if_pos hfield.symm] at h
      rw [replaceField, if_pos hfield, ← Option.some.inj h, ← hfield]
    · rw [lookup_cons_eq, if_neg fun heq => hfield heq.symm] at h
      rw [replaceField, if_neg hfield, ih h]

theorem eraseField_absent (h : fields.lookup key = none) : eraseField fields key = fields := by
  refine List.filter_eq_self.mpr fun field hmem => ?_
  have hne : key ≠ field.1 := bne_iff_ne.mp (List.lookup_eq_none_iff.mp h field hmem)
  exact decide_eq_true hne.symm

theorem lookup_eraseField :
    (eraseField fields key).lookup key' = if key' = key then none else fields.lookup key' := by
  unfold eraseField
  induction fields with
  | nil => simp
  | cons field rest ih =>
    by_cases hfield : field.1 = key
    · rw [List.filter_cons_of_neg (by simpa using hfield), ih, lookup_cons_eq]
      by_cases hkey : key' = key
      · rw [if_pos hkey, if_pos hkey]
      · rw [if_neg hkey, if_neg hkey, if_neg fun heq => hkey (heq.trans hfield)]
    · rw [List.filter_cons_of_pos (by simpa using hfield), lookup_cons_eq, ih, lookup_cons_eq]
      by_cases hkey : key' = key
      · rw [if_pos hkey, if_neg fun heq => hfield (heq.symm.trans hkey), if_pos hkey]
      · rw [if_neg hkey, if_neg hkey]

end Lookup

variable {conv : Conversions} {v w x : Data} {key key' : String} {keys : List String}

theorem Data.isContainer_of_own (h : v.own key = some w) : v.isContainer = true := by
  cases v <;> first | rfl | cases h

theorem Data.read_of_own (h : v.own key = some w) : v.read key = w := by
  unfold Data.read
  rw [h]

/-- What an absent property reads as. -/
theorem Data.read_of_absent (fields : List (String × Data)) (h : fields.lookup key = none) :
    (Data.obj fields).read key = .undefined ∨ ∃ name, (Data.obj fields).read key = .function name := by
  have hown : (Data.obj fields).own key = none := h
  unfold Data.read
  rw [hown]
  simp only [Data.inherited]
  split
  · exact .inr ⟨key, rfl⟩
  · exact .inl rfl

theorem Data.own_assign (h : v.assign conv key w = .ok x) (hslot : (∃ fields, v = .obj fields) ∨
    (v.own key).isSome = true) (key' : String) :
    x.own key' = if key' = key then some w else v.own key' := by
  cases v with
  | obj fields =>
    obtain rfl := Except.ok.inj h
    exact lookup_setField
  | arr length props =>
    have hkey : key ≠ "length" := by
      rintro rfl
      rcases hslot with ⟨_, hobj⟩ | hown
      · cases hobj
      · simp [Data.own] at hown
    rw [Data.assign, if_neg hkey] at h
    obtain rfl := Except.ok.inj h
    simp only [Data.own, lookup_setField]
    by_cases hlength : key' = "length"
    · rw [if_pos hlength, if_pos hlength, if_neg fun heq => hkey (heq.symm.trans hlength)]
    · rw [if_neg hlength, if_neg hlength]
  | _ => cases h

theorem Data.own_withChild (h : (v.own key).isSome = true) (key' : String) :
    (v.withChild key w).own key' = if key' = key then some w else v.own key' := by
  cases v with
  | obj fields => exact lookup_replaceField h
  | arr length props =>
    have hkey : key ≠ "length" := by
      rintro rfl
      simp [Data.own] at h
    rw [Data.own, if_neg hkey] at h
    simp only [Data.withChild, Data.own, lookup_replaceField h]
    by_cases hlength : key' = "length"
    · rw [if_pos hlength, if_pos hlength, if_neg fun heq => hkey (heq.symm.trans hlength)]
    · rw [if_neg hlength, if_neg hlength]
  | _ => cases h

theorem Data.withChild_same (h : v.own key = some w) : v.withChild key w = v := by
  cases v with
  | obj fields => rw [Data.withChild, replaceField_same h]
  | arr length props =>
    have hkey : key ≠ "length" := by
      rintro rfl
      simp [Data.own] at h
    rw [Data.own, if_neg hkey] at h
    rw [Data.withChild, replaceField_same h]
  | _ => cases h

/-- A position is read as it stands. -/
theorem getKeys_of_ownAt (hblocked : Unblocked keys) (h : ownAt v keys = some w) : getKeys v keys = w := by
  induction keys generalizing v with
  | nil => exact Option.some.inj h
  | cons key keys ih =>
    obtain ⟨child, hown, hrest⟩ := Option.bind_eq_some_iff.mp h
    have hkey : BLOCKED_KEYS.contains key = false := by
      simpa using hblocked key List.mem_cons_self
    rw [getKeys, Data.isContainer_of_own hown, hkey, Data.read_of_own hown]
    exact ih (fun k hk => hblocked k (List.mem_cons_of_mem _ hk)) hrest

theorem Apart.cons (hne : key = key') {p q : List String} (h : Apart (key :: p) (key' :: q)) : Apart p q := by
  subst hne
  exact ⟨fun hp => h.1 (List.cons_prefix_cons.mpr ⟨rfl, hp⟩),
    fun hq => h.2 (List.cons_prefix_cons.mpr ⟨rfl, hq⟩)⟩

/-! ## 4. What a write leaves -/

/-- What `setNestedValue` does at a slot. -/
structure Stored (v : Data) (keys : List String) (value after : Data) : Prop where
  stored : ownAt after keys = some value
  frame : ∀ r, Apart r keys → ownAt after r = ownAt v r
  /-- The objects on the way stay objects. -/
  object : ∀ r fields, r <+: keys → r ≠ keys → ownAt v r = some (.obj fields) →
    ∃ fields', ownAt after r = some (.obj fields')

theorem Stored.of_child {after child child' : Data} {rest : List String} {value : Data}
    (hchild : Stored child rest value child')
    (hown : ∀ key', after.own key' = if key' = key then some child' else v.own key')
    (hold : v.own key = some child ∨ v.own key = none ∧ child = .obj [])
    (hkind : ∀ fields, v = .obj fields → ∃ fields', after = .obj fields') :
    Stored v (key :: rest) value after := by
  refine ⟨?_, ?_, ?_⟩
  · rw [ownAt, hown, if_pos rfl, Option.bind_some, hchild.stored]
  · intro r hapart
    cases r with
    | nil => exact absurd List.nil_prefix hapart.1
    | cons k r =>
      rw [ownAt, ownAt, hown]
      by_cases hk : k = key
      · rw [if_pos hk, Option.bind_some, hchild.frame r (hapart.cons hk), hk]
        rcases hold with hold | ⟨hold, rfl⟩
        · rw [hold, Option.bind_some]
        · rw [hold, Option.bind_none]
          cases r with
          | nil =>
            exact absurd (List.cons_prefix_cons.mpr ⟨hk, List.nil_prefix⟩) hapart.1
          | cons _ _ => rfl
      · rw [if_neg hk]
  · intro r fields hinitial hne hobj
    cases r with
    | nil =>
      obtain ⟨fields', rfl⟩ := hkind fields (Option.some.inj hobj)
      exact ⟨fields', rfl⟩
    | cons k r =>
      obtain ⟨rfl, hrestPrefix⟩ := List.cons_prefix_cons.mp hinitial
      rw [ownAt] at hobj ⊢
      rw [hown, if_pos rfl, Option.bind_some]
      rcases hold with hold | ⟨hold, -⟩
      · rw [hold, Option.bind_some] at hobj
        exact hchild.object r fields hrestPrefix (fun heq => hne (by rw [heq])) hobj
      · rw [hold, Option.bind_none] at hobj
        cases hobj

theorem Data.assign_object {fields : List (String × Data)} (h : (Data.obj fields).assign conv key w = .ok x) :
    ∃ fields', x = .obj fields' := by
  obtain rfl := Except.ok.inj h
  exact ⟨_, rfl⟩

variable (conv) in
theorem Data.exists_assign (hslot : (∃ fields, v = .obj fields) ∨ (v.own key).isSome = true) (w : Data) :
    ∃ x, v.assign conv key w = .ok x := by
  cases v with
  | obj fields => exact ⟨_, rfl⟩
  | arr length props =>
    have hkey : key ≠ "length" := by
      rintro rfl
      rcases hslot with ⟨_, hobj⟩ | hown
      · cases hobj
      · simp [Data.own] at hown
    exact ⟨_, by rw [Data.assign, if_neg hkey]⟩
  | _ =>
    rcases hslot with ⟨_, hobj⟩ | hown
    · cases hobj
    · cases hown

theorem slot_last (h : Slot v [key]) : (∃ fields, v = .obj fields) ∨ (v.own key).isSome = true := by
  cases v with
  | obj fields => exact .inl ⟨fields, rfl⟩
  | arr length props => exact .inr h
  | _ =>
    rcases h with ⟨-, _, hobj⟩ | ⟨_, hown, -⟩
    · cases hobj
    · cases hown

theorem slot_cons (hne : keys ≠ []) (h : Slot v (key :: keys)) :
    (v.own key = none ∧ ∃ fields, v = .obj fields) ∨
      ∃ w, v.own key = some w ∧ w.isContainer = true ∧ Slot w keys := by
  cases keys with
  | nil => exact absurd rfl hne
  | cons key' keys => cases v <;> exact h

theorem slot_empty_object (hne : keys ≠ []) : Slot (.obj []) keys := by
  match keys, hne with
  | [_], _ => exact True.intro
  | _ :: _ :: _, _ => exact .inl ⟨rfl, [], rfl⟩

theorem setKeys_cons (next : String) (value : Data) : setKeys conv v (key :: next :: keys) value =
    (if BLOCKED_KEYS.contains key then .ok v
    else if (v.read key).isContainer then do
      let child ← setKeys conv (v.read key) (next :: keys) value
      return v.withChild key child
    else do
      let child ← setKeys conv (.obj []) (next :: keys) value
      v.assign conv key child) := rfl

variable (conv) in
/-- **A write** at a slot stores the value there and leaves the positions apart from it. -/
theorem setKeys_spec (hblocked : Unblocked keys) (hslot : Slot v keys) (value : Data) :
    ∃ after, setKeys conv v keys value = .ok after ∧ Stored v keys value after := by
  induction keys generalizing v with
  | nil => exact hslot.elim
  | cons key keys ih =>
    have hkey : BLOCKED_KEYS.contains key = false := by
      simpa using hblocked key List.mem_cons_self
    have hrest : Unblocked keys := fun k hk => hblocked k (List.mem_cons_of_mem _ hk)
    cases keys with
    | nil =>
      have hlast := slot_last hslot
      obtain ⟨after, hafter⟩ := Data.exists_assign conv hlast value
      refine ⟨after, by rw [setKeys, hkey]; exact hafter, ?_⟩
      have hown := Data.own_assign hafter hlast
      refine ⟨by rw [ownAt, hown, if_pos rfl]; rfl, ?_, ?_⟩
      · intro r hapart
        cases r with
        | nil => exact absurd List.nil_prefix hapart.1
        | cons k r =>
          have hk : k ≠ key := fun heq =>
            hapart.2 (List.cons_prefix_cons.mpr ⟨heq.symm, List.nil_prefix⟩)
          rw [ownAt, ownAt, hown, if_neg hk]
      · intro r fields hinitial hne hobj
        cases r with
        | nil =>
          obtain rfl := Option.some.inj hobj
          obtain ⟨fields', rfl⟩ := Data.assign_object hafter
          exact ⟨fields', rfl⟩
        | cons k r =>
          obtain ⟨rfl, hnil⟩ := List.cons_prefix_cons.mp hinitial
          rw [List.prefix_nil.mp hnil] at hne
          exact absurd rfl hne
    | cons next keys =>
      have hne : next :: keys ≠ [] := List.cons_ne_nil _ _
      rcases slot_cons hne hslot with ⟨habsent, fields, rfl⟩ | ⟨child, hown, hcontainer, hchild⟩
      · -- the object is made; what the key inherits is no object
        obtain ⟨child', hset, hstored⟩ := ih hrest (slot_empty_object hne)
        have hread : ((Data.obj fields).read key).isContainer = false := by
          rcases Data.read_of_absent fields habsent with h | ⟨name, h⟩ <;> rw [h] <;> rfl
        refine ⟨.obj (setField fields key child'), ?_, ?_⟩
        · rw [setKeys_cons, hkey, hread]
          simp only [Bool.false_eq_true, if_false, hset]
          rfl
        · exact hstored.of_child (fun key' => lookup_setField) (.inr ⟨habsent, rfl⟩)
            fun _ _ => ⟨_, rfl⟩
      · obtain ⟨child', hset, hstored⟩ := ih hrest hchild
        refine ⟨v.withChild key child', ?_, ?_⟩
        · rw [setKeys_cons, hkey, Data.read_of_own hown, hcontainer]
          simp only [Bool.false_eq_true, if_false, if_true, hset]
          rfl
        · refine hstored.of_child (Data.own_withChild (by rw [hown]; rfl)) (.inl hown) ?_
          rintro fields rfl
          exact ⟨_, rfl⟩

/-! ## 5. What a deletion leaves -/

/-- The last key names something that `delNestedValue` takes away. -/
def RemovableKey (conv : Conversions) (v : Data) (key : String) : Prop :=
  key ∉ BLOCKED_KEYS ∧ ((∃ fields, v = .obj fields ∧ (fields.lookup key).isSome = true) ∨
    ∃ length props, v = .arr length props ∧ (elementIndex conv length key).isSome = true)

def Removable (conv : Conversions) : Data → List String → Prop
  | _, [] => False
  | v, [key] => RemovableKey conv v key
  | v, key :: keys => key ∉ BLOCKED_KEYS ∧ ∃ w, v.own key = some w ∧ Removable conv w keys

theorem delKeys_cons (next : String) : delKeys conv v (key :: next :: keys) =
    (if BLOCKED_KEYS.contains key then v
    else if (v.read key).isContainer then
      v.withChild key (delKeys conv (v.read key) (next :: keys))
    else v) := rfl

theorem Data.read_of_not_container (h : v.isContainer = false) : v.read key = .undefined := by
  cases v <;> first | rfl | cases h

theorem Data.own_of_read (h : (v.read key).isContainer = true) : ∃ w, v.own key = some w := by
  cases hown : v.own key with
  | some w => exact ⟨w, rfl⟩
  | none =>
    -- what is inherited is a function, and the length is a number
    unfold Data.read at h
    rw [hown] at h
    cases v with
    | arr length props =>
      simp only [Data.inherited] at h
      split at h
      · cases h
      · split at h <;> cases h
    | obj fields =>
      simp only [Data.inherited] at h
      split at h <;> cases h
    | _ => cases h

theorem delKey_leaf (h : v.isContainer = false) : delKey conv v key = v := by
  unfold delKey
  split
  · rfl
  · cases v <;> first | rfl | cases h

theorem delKeys_leaf (h : v.isContainer = false) : delKeys conv v keys = v := by
  match keys with
  | [] => rfl
  | [key] => exact delKey_leaf h
  | key :: next :: keys =>
    rw [delKeys_cons, Data.read_of_not_container h]
    simp [Data.isContainer]

theorem elementIndex_lt {length idx : Nat} (h : elementIndex conv length key = some idx) : 0 < length := by
  unfold elementIndex at h
  split at h
  · split at h
    · rename_i hrange
      simp only [Bool.and_eq_true, decide_eq_true_eq] at hrange
      omega
    · cases h
  · cases h

theorem delKey_obj {fields : List (String × Data)} (hkey : key ∉ BLOCKED_KEYS) :
    delKey conv (.obj fields) key = .obj (eraseField fields key) := by
  rw [delKey, if_neg (by simpa using hkey)]

theorem delKey_eq_self_iff (v : Data) (key : String) :
    delKey conv v key = v ↔ ¬ RemovableKey conv v key := by
  by_cases hblocked : key ∈ BLOCKED_KEYS
  · refine iff_of_true ?_ fun h => h.1 hblocked
    unfold delKey
    rw [if_pos (by simpa using hblocked)]
  · cases v with
    | obj fields =>
      rw [delKey_obj hblocked]
      cases hlookup : fields.lookup key with
      | none =>
        refine iff_of_true (by rw [eraseField_absent hlookup]) ?_
        rintro ⟨-, ⟨fields', heq, hsome⟩ | ⟨_, _, heq, -⟩⟩
        · rw [← Data.obj.inj heq, hlookup] at hsome
          cases hsome
        · cases heq
      | some w =>
        refine iff_of_false ?_ (not_not_intro ⟨hblocked, .inl ⟨fields, rfl, by rw [hlookup]; rfl⟩⟩)
        intro heq
        have hgone : (eraseField fields key).lookup key = none := by
          rw [lookup_eraseField, if_pos rfl]
        rw [Data.obj.inj heq, hlookup] at hgone
        cases hgone
    | arr length props =>
      rw [delKey, if_neg (by simpa using hblocked)]
      cases hidx : elementIndex conv length key with
      | none =>
        refine iff_of_true rfl ?_
        rintro ⟨-, ⟨_, heq, -⟩ | ⟨length', props', heq, hsome⟩⟩
        · cases heq
        · rw [← (Data.arr.inj heq).1, hidx] at hsome
          cases hsome
      | some idx =>
        refine iff_of_false ?_ (not_not_intro ⟨hblocked, .inr ⟨length, props, rfl, by rw [hidx]; rfl⟩⟩)
        intro heq
        have hlength : length - 1 = length := (Data.arr.inj heq).1
        have hpos := elementIndex_lt hidx
        omega
    | _ =>
      refine iff_of_true (delKey_leaf rfl) ?_
      rintro ⟨-, ⟨_, heq, -⟩ | ⟨_, _, heq, -⟩⟩ <;> cases heq

/-- **A deletion** changes nothing exactly when there is nothing to take away. -/
theorem delKeys_eq_self_iff (v : Data) (keys : List String) :
    delKeys conv v keys = v ↔ ¬ Removable conv v keys := by
  induction keys generalizing v with
  | nil => exact iff_of_true rfl fun h => h
  | cons key keys ih =>
    cases keys with
    | nil => exact delKey_eq_self_iff v key
    | cons next keys =>
      by_cases hblocked : key ∈ BLOCKED_KEYS
      · refine iff_of_true ?_ fun h => h.1 hblocked
        rw [delKeys_cons, if_pos (by simpa using hblocked)]
      · rw [delKeys_cons, if_neg (by simpa using hblocked)]
        cases hcontainer : (v.read key).isContainer with
        | true =>
          obtain ⟨w, hown⟩ := Data.own_of_read hcontainer
          rw [Data.read_of_own hown, if_pos rfl]
          constructor
          · rintro hsame ⟨-, w', hown', hremovable⟩
            obtain rfl := Option.some.inj (hown.symm.trans hown')
            have hsome : (v.own key).isSome = true := by rw [hown]; rfl
            have hchild := Data.own_withChild (w := delKeys conv w (next :: keys)) hsome key
            rw [hsame, if_pos rfl, hown] at hchild
            exact (ih w).mp (Option.some.inj hchild).symm hremovable
          · intro hnot
            have hsame := (ih w).mpr fun hremovable => hnot ⟨hblocked, w, hown, hremovable⟩
            rw [hsame, Data.withChild_same hown]
        | false =>
          refine iff_of_true rfl ?_
          rintro ⟨-, w, hown, hremovable⟩
          rw [Data.read_of_own hown] at hcontainer
          exact (ih w).mp (delKeys_leaf hcontainer) hremovable

/-- What is read at a place above the deleted one. -/
theorem getKeys_delKeys_below {q s : List String} (hblocked : Unblocked q) (h : ownAt v q = some w)
    (hs : s ≠ []) : getKeys (delKeys conv v (q ++ s)) q = delKeys conv w s := by
  induction q generalizing v with
  | nil =>
    obtain rfl := Option.some.inj h
    rfl
  | cons key q ih =>
    obtain ⟨child, hown, hrest⟩ := Option.bind_eq_some_iff.mp h
    have hkey : BLOCKED_KEYS.contains key = false := by
      simpa using hblocked key List.mem_cons_self
    have htail : Unblocked q := fun k hk => hblocked k (List.mem_cons_of_mem _ hk)
    obtain ⟨next, rest, hnext⟩ : ∃ next rest, q ++ s = next :: rest := by
      cases hqs : q ++ s with
      | nil => exact absurd (List.append_eq_nil_iff.mp hqs).2 hs
      | cons next rest => exact ⟨next, rest, rfl⟩
    rw [List.cons_append, hnext, delKeys_cons, hkey, Data.read_of_own hown]
    simp only [Bool.false_eq_true, if_false]
    cases hcontainer : child.isContainer with
    | true =>
      have hchild : (v.withChild key (delKeys conv child (next :: rest))).own key =
          some (delKeys conv child (next :: rest)) := by
        rw [Data.own_withChild (by rw [hown]; rfl), if_pos rfl]
      rw [if_pos rfl, getKeys, Data.isContainer_of_own hchild, hkey, Data.read_of_own hchild, ← hnext]
      exact ih htail hrest
    | false =>
      have hleaf : q = [] := by
        cases q with
        | nil => rfl
        | cons key' q =>
          obtain ⟨_, hown', -⟩ := Option.bind_eq_some_iff.mp hrest
          rw [Data.isContainer_of_own hown'] at hcontainer
          cases hcontainer
      subst hleaf
      obtain rfl := Option.some.inj hrest
      rw [if_neg Bool.false_ne_true, delKeys_leaf hcontainer]
      rw [getKeys, Data.isContainer_of_own hown, hkey, Data.read_of_own hown]
      rfl

/-- The path ends at a field of an object. -/
def InObject (v : Data) (keys : List String) : Prop :=
  keys ≠ [] ∧ ∃ fields, ownAt v keys.dropLast = some (.obj fields)

variable (conv) in
/-- **A deletion** of a field takes that position away and leaves the positions apart from it. -/
theorem delKeys_spec (hblocked : Unblocked keys) (hobject : InObject v keys) :
    ownAt (delKeys conv v keys) keys = none ∧
      (∀ r, Apart r keys → ownAt (delKeys conv v keys) r = ownAt v r) ∧
      ∀ s, getKeys (delKeys conv v keys) (keys ++ s) = .undefined ∨
        ∃ name, getKeys (delKeys conv v keys) (keys ++ s) = .function name := by
  induction keys generalizing v with
  | nil => exact absurd rfl hobject.1
  | cons key keys ih =>
    have hkey : BLOCKED_KEYS.contains key = false := by
      simpa using hblocked key List.mem_cons_self
    have htail : Unblocked keys := fun k hk => hblocked k (List.mem_cons_of_mem _ hk)
    obtain ⟨-, fields, hparent⟩ := hobject
    cases keys with
    | nil =>
      obtain rfl := Option.some.inj hparent
      have hgone : delKeys conv (.obj fields) [key] = .obj (eraseField fields key) := by
        rw [delKeys, delKey, hkey]
        rfl
      have habsent : (eraseField fields key).lookup key = none := by rw [lookup_eraseField, if_pos rfl]
      rw [hgone]
      refine ⟨?_, ?_, ?_⟩
      · rw [ownAt, Data.own, habsent, Option.bind_none]
      · intro r hapart
        cases r with
        | nil => exact absurd List.nil_prefix hapart.1
        | cons k r =>
          have hk : k ≠ key := fun heq =>
            hapart.2 (List.cons_prefix_cons.mpr ⟨heq.symm, List.nil_prefix⟩)
          rw [ownAt, ownAt, Data.own, Data.own, lookup_eraseField, if_neg hk]
      · intro s
        have hleaf : ∀ x : Data, x = .undefined ∨ (∃ name, x = .function name) →
            getKeys x s = .undefined ∨ ∃ name, getKeys x s = .function name := by
          rintro x (rfl | ⟨name, rfl⟩)
          · cases s <;> exact .inl rfl
          · cases s with
            | nil => exact .inr ⟨name, rfl⟩
            | cons _ _ => exact .inl rfl
        rw [List.cons_append, List.nil_append, getKeys, hkey]
        exact hleaf _ (Data.read_of_absent _ habsent)
    | cons next keys =>
      have hdrop : (key :: next :: keys).dropLast = key :: (next :: keys).dropLast := rfl
      rw [hdrop, ownAt] at hparent
      obtain ⟨child, hown, hrest⟩ := Option.bind_eq_some_iff.mp hparent
      have hcontainer : child.isContainer = true := by
        cases hlast : (next :: keys).dropLast with
        | nil =>
          rw [hlast] at hrest
          obtain rfl := Option.some.inj hrest
          rfl
        | cons key' rest =>
          rw [hlast, ownAt] at hrest
          obtain ⟨_, hown', -⟩ := Option.bind_eq_some_iff.mp hrest
          exact Data.isContainer_of_own hown'
      obtain ⟨hgone, hframe, hread⟩ := ih htail ⟨List.cons_ne_nil _ _, fields, hrest⟩
      have hafter : delKeys conv v (key :: next :: keys) =
          v.withChild key (delKeys conv child (next :: keys)) := by
        rw [delKeys_cons, hkey, Data.read_of_own hown, hcontainer]
        rfl
      have hsome : (v.own key).isSome = true := by rw [hown]; rfl
      rw [hafter]
      refine ⟨?_, ?_, ?_⟩
      · rw [ownAt, Data.own_withChild hsome, if_pos rfl, Option.bind_some]
        exact hgone
      · intro r hapart
        cases r with
        | nil => exact absurd List.nil_prefix hapart.1
        | cons k r =>
          rw [ownAt, ownAt, Data.own_withChild hsome]
          by_cases hk : k = key
          · rw [if_pos hk, Option.bind_some, hframe r (hapart.cons hk), hk, hown, Option.bind_some]
          · rw [if_neg hk]
      · intro s
        have hchild : (v.withChild key (delKeys conv child (next :: keys))).own key =
            some (delKeys conv child (next :: keys)) := by
          rw [Data.own_withChild hsome, if_pos rfl]
        rw [List.cons_append, getKeys, Data.isContainer_of_own hchild, hkey, Data.read_of_own hchild]
        exact hread s

/-- A field of an object is there for `hasNestedValue`. -/
theorem hasKeys_of_ownAt (hblocked : Unblocked keys) (hobject : InObject v keys) (h : ownAt v keys = some w) :
    hasKeys conv v keys = true := by
  induction keys generalizing v with
  | nil => exact absurd rfl hobject.1
  | cons key keys ih =>
    have hkey : BLOCKED_KEYS.contains key = false := by
      simpa using hblocked key List.mem_cons_self
    have htail : Unblocked keys := fun k hk => hblocked k (List.mem_cons_of_mem _ hk)
    obtain ⟨-, fields, hparent⟩ := hobject
    obtain ⟨child, hown, hchild⟩ := Option.bind_eq_some_iff.mp h
    cases keys with
    | nil =>
      obtain rfl := Option.some.inj hparent
      rw [hasKeys, hasKey, hkey]
      simp [hown]
    | cons next keys =>
      have hdrop : (key :: next :: keys).dropLast = key :: (next :: keys).dropLast := rfl
      rw [hdrop, ownAt, hown, Option.bind_some] at hparent
      have hstep : hasKeys conv v (key :: next :: keys) = hasKeys conv (v.read key) (next :: keys) := by
        show (if BLOCKED_KEYS.contains key then false
          else if !v.isContainer then false else hasKeys conv (v.read key) (next :: keys)) = _
        rw [hkey, Data.isContainer_of_own hown]
        rfl
      rw [hstep, Data.read_of_own hown]
      exact ih htail ⟨List.cons_ne_nil _ _, fields, hparent⟩ hchild

end Clemvion.Nodes
