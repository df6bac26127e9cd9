import Clemvion.Js.Value

/-!
# Json — what a JSON column keeps of a value

`JSON.stringify` followed by `JSON.parse`, which is what a value goes through on its way into a
`jsonb` column and back: properties that hold `undefined` disappear, `undefined` in an array and
the numbers without a JSON form become `null`.  The order of the properties, which `jsonb` does
not keep, is left alone.
-/

namespace Clemvion.Js.Value

mutual

/-- The value read back; a top-level `undefined` has no JSON form and stays. -/
def jsonRoundTrip : Value → Value
  | .undefined => .undefined
  | .null => .null
  | .bool b => .bool b
  | .num (.finite q) => .num (.finite q)
  | .num _ => .null
  | .str s => .str s
  | .arr items => .arr (jsonItems items)
  | .obj fields => .obj (jsonFields fields)

def jsonItems : List Value → List Value
  | [] => []
  | .undefined :: items => .null :: jsonItems items
  | item :: items => jsonRoundTrip item :: jsonItems items

def jsonFields : List (String × Value) → List (String × Value)
  | [] => []
  | (_, .undefined) :: fields => jsonFields fields
  | (key, v) :: fields => (key, jsonRoundTrip v) :: jsonFields fields

end

/-! ## 1. Equations -/

theorem jsonItems_cons (item : Value) (items : List Value) :
    jsonItems (item :: items) =
      (if item = .undefined then .null else jsonRoundTrip item) :: jsonItems items := by
  cases item <;> rfl

theorem jsonFields_cons (key : String) (v : Value) (fields : List (String × Value)) :
    jsonFields ((key, v) :: fields) =
      if v = .undefined then jsonFields fields else (key, jsonRoundTrip v) :: jsonFields fields := by
  cases v <;> rfl

@[simp] theorem jsonRoundTrip_eq_undefined_iff {v : Value} :
    jsonRoundTrip v = .undefined ↔ v = .undefined := by
  cases v with
  | num n => cases n <;> simp [jsonRoundTrip]
  | _ => simp [jsonRoundTrip]

theorem jsonRoundTrip_ne_obj {v : Value} (h : ∀ fields, v ≠ .obj fields)
    (fields : List (String × Value)) : jsonRoundTrip v ≠ .obj fields := by
  cases v with
  | obj fields' => exact absurd rfl (h fields')
  | num n => cases n <;> simp [jsonRoundTrip]
  | _ => simp [jsonRoundTrip]

/-- A property survives unless it holds `undefined`. -/
theorem mem_jsonFields {key : String} {v : Value} {fields : List (String × Value)}
    (hmem : (key, v) ∈ fields) (hv : v ≠ .undefined) :
    (key, jsonRoundTrip v) ∈ jsonFields fields := by
  induction fields with
  | nil => simp at hmem
  | cons field fields ih =>
    rw [jsonFields_cons]
    obtain rfl | hmem := List.mem_cons.mp hmem
    · rw [if_neg hv]
      exact List.mem_cons_self
    · split_ifs
      · exact ih hmem
      · exact List.mem_cons_of_mem _ (ih hmem)

theorem of_mem_jsonFields {key : String} {w : Value} {fields : List (String × Value)}
    (hmem : (key, w) ∈ jsonFields fields) :
    ∃ v, (key, v) ∈ fields ∧ v ≠ .undefined ∧ w = jsonRoundTrip v := by
  induction fields with
  | nil => cases hmem
  | cons field fields ih =>
    rw [jsonFields_cons] at hmem
    split_ifs at hmem with hundef
    · obtain ⟨v, hv, hne, heq⟩ := ih hmem
      exact ⟨v, List.mem_cons_of_mem _ hv, hne, heq⟩
    · obtain heq | hmem := List.mem_cons.mp hmem
      · cases heq
        exact ⟨field.2, List.mem_cons_self, hundef, rfl⟩
      · obtain ⟨v, hv, hne, heq⟩ := ih hmem
        exact ⟨v, List.mem_cons_of_mem _ hv, hne, heq⟩

/-! ## 2. Reading back twice -/

mutual

theorem jsonRoundTrip_idem : ∀ v, jsonRoundTrip (jsonRoundTrip v) = jsonRoundTrip v
  | .undefined | .null | .bool _ | .str _ => rfl
  | .num n => by cases n <;> rfl
  | .arr items => congrArg Value.arr (jsonItems_idem items)
  | .obj fields => congrArg Value.obj (jsonFields_idem fields)

theorem jsonItems_idem : ∀ items, jsonItems (jsonItems items) = jsonItems items
  | [] => rfl
  | item :: items => by
    have hitem := jsonRoundTrip_idem item
    have hitems := jsonItems_idem items
    rw [jsonItems_cons]
    split_ifs with hundef
    · rw [jsonItems_cons, hitems]
      rfl
    · rw [jsonItems_cons, if_neg (by simpa using hundef), hitem, hitems]

theorem jsonFields_idem : ∀ fields, jsonFields (jsonFields fields) = jsonFields fields
  | [] => rfl
  | (key, v) :: fields => by
    have hv := jsonRoundTrip_idem v
    have hfields := jsonFields_idem fields
    rw [jsonFields_cons]
    split_ifs with hundef
    · exact hfields
    · rw [jsonFields_cons, if_neg (by simpa using hundef), hv, hfields]

end

/-! ## 3. A value is not stored inside itself -/

theorem sizeOf_lt_of_mem_fields {key : String} {v : Value} {fields : List (String × Value)}
    (h : (key, v) ∈ fields) : sizeOf v < sizeOf (Value.obj fields) := by
  have hmem := List.sizeOf_lt_of_mem h
  have hpair : sizeOf (key, v) = 1 + sizeOf key + sizeOf v := rfl
  have hobj : sizeOf (Value.obj fields) = 1 + sizeOf fields := Value.obj.sizeOf_spec fields
  omega

/-- The size of the stored form. -/
noncomputable def jsonSize (v : Value) : Nat :=
  sizeOf (jsonRoundTrip v)

@[simp] theorem jsonSize_jsonRoundTrip (v : Value) : jsonSize (jsonRoundTrip v) = jsonSize v := by
  unfold jsonSize
  rw [jsonRoundTrip_idem]

/-- Every property is stored in less than its object: no object holds its own stored form. -/
theorem jsonSize_lt_of_mem {key : String} {v : Value} {fields : List (String × Value)}
    (h : (key, v) ∈ fields) (hv : v ≠ .undefined) : jsonSize v < jsonSize (.obj fields) :=
  sizeOf_lt_of_mem_fields (mem_jsonFields h hv)

end Clemvion.Js.Value
