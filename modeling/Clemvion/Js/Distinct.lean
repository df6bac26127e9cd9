import Clemvion.Js.Properties

/-!
# Distinct — values whose objects have distinct keys

Every JavaScript object does, so that every value that comes from outside does too, at any depth.
What is built from such values with `setKey`, spreads and filters is such a value again.
-/

namespace Clemvion.Js.Value

mutual

def distinctKeys : Value → Bool
  | .arr items => distinctItems items
  | .obj fields => decide (fields.map Prod.fst).Nodup && distinctFields fields
  | _ => true

def distinctItems : List Value → Bool
  | [] => true
  | item :: items => distinctKeys item && distinctItems items

def distinctFields : List (String × Value) → Bool
  | [] => true
  | (_, v) :: fields => distinctKeys v && distinctFields fields

end

variable {key : String} {v w : Value} {fields : List (String × Value)} {items : List Value}

/-- An object of its own: distinct keys, and so at any depth. -/
def DistinctObject (fields : List (String × Value)) : Prop := distinctKeys (.obj fields) = true

instance (fields : List (String × Value)) : Decidable (DistinctObject fields) :=
  inferInstanceAs (Decidable (distinctKeys (.obj fields) = true))

theorem distinctItems_iff : distinctItems items = true ↔ ∀ item ∈ items, distinctKeys item = true := by
  induction items with
  | nil => simp [distinctItems]
  | cons item items ih => simp [distinctItems, ih]

theorem distinctFields_iff :
    distinctFields fields = true ↔ ∀ field ∈ fields, distinctKeys field.2 = true := by
  induction fields with
  | nil => simp [distinctFields]
  | cons field fields ih => simp [distinctFields, ih]

theorem distinctObject_iff : DistinctObject fields ↔
    (fields.map Prod.fst).Nodup ∧ ∀ field ∈ fields, distinctKeys field.2 = true := by
  unfold DistinctObject
  rw [distinctKeys, Bool.and_eq_true, decide_eq_true_eq, distinctFields_iff]

theorem DistinctObject.nodup (h : DistinctObject fields) : (fields.map Prod.fst).Nodup :=
  (distinctObject_iff.mp h).1

theorem DistinctObject.nil : DistinctObject [] := rfl

theorem DistinctObject.of_mem (h : DistinctObject fields) (hmem : (key, v) ∈ fields) :
    distinctKeys v = true := (distinctObject_iff.mp h).2 _ hmem

theorem DistinctObject.setKey (h : DistinctObject fields) (hv : distinctKeys v = true) :
    DistinctObject (setKey fields key v) := by
  refine distinctObject_iff.mpr ⟨nodup_setKey h.nodup, fun field hmem => ?_⟩
  obtain hold | ⟨-, hnew⟩ := mem_setKey hmem
  · exact h.of_mem hold
  · rw [hnew]
    exact hv

theorem DistinctObject.filter (h : DistinctObject fields) (p : String × Value → Bool) :
    DistinctObject (fields.filter p) :=
  distinctObject_iff.mpr ⟨nodup_filter_keys h.nodup p, fun _ hmem =>
    h.of_mem (List.mem_of_mem_filter hmem)⟩

/-- What a spread copies, whatever object it is spread over. -/
theorem DistinctObject.spread (h : DistinctObject fields)
    (hv : ∀ field ∈ ownFields v, distinctKeys field.2 = true) : DistinctObject (spread fields v) := by
  unfold Value.spread
  revert hv
  induction ownFields v generalizing fields with
  | nil => exact fun _ => h
  | cons field rest ih =>
    intro hv
    exact ih (h.setKey (hv field List.mem_cons_self)) fun f hf => hv f (List.mem_cons_of_mem _ hf)

theorem distinctKeys_ownFields (h : distinctKeys v = true) :
    ∀ field ∈ ownFields v, distinctKeys field.2 = true := by
  cases v with
  | obj fields => exact fun field hmem => (distinctObject_iff.mp h).2 field hmem
  | arr items =>
    intro field hmem
    obtain ⟨⟨item, n⟩, hitem, rfl⟩ := List.mem_map.mp hmem
    exact distinctItems_iff.mp h item (List.fst_mem_of_mem_zipIdx hitem)
  | str s =>
    intro field hmem
    unfold ownFields at hmem
    obtain ⟨⟨c, n⟩, -, rfl⟩ := List.mem_map.mp hmem
    rfl
  | _ => exact fun field hmem => nomatch hmem

theorem distinctKeys_field (h : distinctKeys v = true) (key : String) :
    distinctKeys (v.field key) = true := by
  cases v with
  | obj fields =>
    show distinctKeys ((fields.lookup key).getD .undefined) = true
    cases hlookup : fields.lookup key with
    | none => rfl
    | some w => exact DistinctObject.of_mem h (mem_of_lookup hlookup)
  | _ => rfl

/-- A JSON column keeps the keys distinct. -/
theorem distinctKeys_jsonRoundTrip (v : Value) (h : distinctKeys v = true) :
    distinctKeys (jsonRoundTrip v) = true := by
  induction v using deepInduction with
  | leaf v hleaf =>
    cases v with
    | num n => cases n <;> rfl
    | arr items => cases hleaf
    | obj fields => cases hleaf
    | _ => rfl
  | arr items ih =>
    show distinctItems (jsonItems items) = true
    replace h := distinctItems_iff.mp h
    induction items with
    | nil => rfl
    | cons item items ihItems =>
      rw [jsonItems_cons, distinctItems, Bool.and_eq_true]
      refine ⟨?_, ihItems (fun i hi => ih i (List.mem_cons_of_mem _ hi))
        fun i hi => h i (List.mem_cons_of_mem _ hi)⟩
      split_ifs
      · rfl
      · exact ih item List.mem_cons_self (h item List.mem_cons_self)
  | obj fields ih =>
    refine distinctObject_iff.mpr ⟨nodup_jsonFields (DistinctObject.nodup h), fun field hmem => ?_⟩
    obtain ⟨w, hw, -, heq⟩ := of_mem_jsonFields hmem
    rw [heq]
    exact ih _ hw (DistinctObject.of_mem h hw)

end Clemvion.Js.Value
