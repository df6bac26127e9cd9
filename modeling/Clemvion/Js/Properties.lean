import Clemvion.Js.Json

/-!
# Properties — reading the objects that were built

What `setKey`, `spread`, a filter on the keys and a JSON column leave under each key.  Membership
needs nothing; a read by key needs the keys to be distinct, as those of a JavaScript object are.
-/

namespace Clemvion.Js.Value

variable {key key' : String} {v w : Value} {fields fields' : List (String × Value)}

/-! ## 1. Membership -/

theorem mem_setKey (h : (key', w) ∈ setKey fields key v) :
    (key', w) ∈ fields ∨ key' = key ∧ w = v := by
  unfold setKey at h
  split_ifs at h
  · obtain ⟨field, hfield, heq⟩ := List.mem_map.mp h
    split_ifs at heq with hkey
    · right
      exact ⟨(congrArg Prod.fst heq).symm, (congrArg Prod.snd heq).symm⟩
    · left
      rwa [heq] at hfield
  · obtain hold | hnew := List.mem_append.mp h
    · exact .inl hold
    · right
      have heq := List.mem_singleton.mp hnew
      exact ⟨congrArg Prod.fst heq, congrArg Prod.snd heq⟩

theorem mem_spread (h : (key, v) ∈ spread fields (.obj fields')) :
    (key, v) ∈ fields ∨ (key, v) ∈ fields' := by
  have hfold : ∀ (rest acc : List (String × Value)),
      (key, v) ∈ rest.foldl (fun acc field => setKey acc field.1 field.2) acc →
        (key, v) ∈ acc ∨ (key, v) ∈ rest := by
    intro rest
    induction rest with
    | nil => exact fun acc hmem => .inl hmem
    | cons field rest ih =>
      intro acc hmem
      obtain hacc | hrest := ih _ hmem
      · obtain hold | ⟨hkey, hv⟩ := mem_setKey hacc
        · exact .inl hold
        · right
          rw [hkey, hv]
          exact List.mem_cons_self
      · exact .inr (List.mem_cons_of_mem _ hrest)
  exact hfold fields' fields h

theorem mem_of_lookup (h : fields.lookup key = some v) : (key, v) ∈ fields := by
  obtain ⟨before, after, rfl, -⟩ := List.lookup_eq_some_iff.mp h
  simp

theorem mem_of_field (h : (Value.obj fields).field key = v) (hv : v ≠ .undefined) :
    (key, v) ∈ fields := by
  cases hlookup : fields.lookup key with
  | none =>
    have hundef : (Value.obj fields).field key = .undefined := by rw [field, hlookup]; rfl
    exact absurd (h.symm.trans hundef) hv
  | some w =>
    have hw : (Value.obj fields).field key = w := by rw [field, hlookup]; rfl
    rw [← h, hw]
    exact mem_of_lookup hlookup

/-! ## 2. Reading by key -/

theorem lookup_cons_ite (field : String × Value) :
    (field :: fields).lookup key = if key = field.1 then some field.2 else fields.lookup key := by
  rw [List.lookup_cons]
  split_ifs with heq
  · rw [heq, beq_self_eq_true]
  · rw [beq_false_of_ne heq]

theorem lookup_setKey :
    (setKey fields key v).lookup key' = if key' = key then some v else fields.lookup key' := by
  have hreplace : ∀ rest : List (String × Value),
      (rest.map fun field => if field.1 = key then (key, v) else field).lookup key' =
        if key' = key then (rest.lookup key).map fun _ => v else rest.lookup key' := by
    intro rest
    induction rest with
    | nil => simp
    | cons field rest ih =>
      rw [List.map_cons, lookup_cons_ite, ih, lookup_cons_ite, lookup_cons_ite]
      by_cases hfield : field.1 = key
      · by_cases hkey : key' = key <;> simp [hfield, hkey]
      · by_cases hkey : key' = key
        · simp [hfield, hkey, Ne.symm hfield]
        · simp [hfield, hkey]
  unfold setKey
  split_ifs with hpresent hkey hkey
  · rw [hreplace, if_pos hkey]
    obtain ⟨w, hw⟩ := Option.isSome_iff_exists.mp hpresent
    rw [hw]
    rfl
  · rw [hreplace, if_neg hkey]
  · have habsent : fields.lookup key = none := Option.not_isSome_iff_eq_none.mp hpresent
    rw [List.lookup_append, hkey, habsent, lookup_cons_ite, if_pos rfl]
    rfl
  · rw [List.lookup_append, lookup_cons_ite, if_neg hkey]
    simp

theorem lookup_setKey_self : (setKey fields key v).lookup key = some v := by
  rw [lookup_setKey, if_pos rfl]

theorem field_setKey :
    (Value.obj (setKey fields key v)).field key' =
      if key' = key then v else (Value.obj fields).field key' := by
  show ((setKey fields key v).lookup key').getD .undefined = _
  rw [lookup_setKey]
  split_ifs <;> rfl

theorem lookup_filter_keys (p : String → Bool) :
    (fields.filter fun field => p field.1).lookup key =
      if p key then fields.lookup key else none := by
  induction fields with
  | nil => simp
  | cons field fields ih =>
    rw [List.filter_cons, lookup_cons_ite]
    by_cases heq : key = field.1
    · rw [if_pos heq]
      by_cases hp : p field.1
      · rw [if_pos hp, lookup_cons_ite, if_pos heq, if_pos (heq ▸ hp)]
      · rw [if_neg hp, ih, if_neg (heq ▸ hp), if_neg (heq ▸ hp)]
    · rw [if_neg heq, ← ih]
      split_ifs
      · rw [lookup_cons_ite, if_neg heq]
      · rfl

theorem lookup_eq_none_of_not_mem (h : key ∉ fields.map Prod.fst) : fields.lookup key = none := by
  rw [List.lookup_eq_none_iff]
  intro field hmem
  apply bne_iff_ne.mpr
  rintro rfl
  exact h (List.mem_map_of_mem hmem)

/-- The later source of a spread wins. -/
theorem lookup_spread (hnodup : (fields'.map Prod.fst).Nodup) :
    (spread fields (.obj fields')).lookup key = (fields'.lookup key).or (fields.lookup key) := by
  show (fields'.foldl (fun acc field => setKey acc field.1 field.2) fields).lookup key = _
  induction fields' generalizing fields with
  | nil => rfl
  | cons field rest ih =>
    obtain ⟨hfresh, hrest⟩ := List.nodup_cons.mp hnodup
    rw [List.foldl_cons, ih hrest, lookup_setKey, lookup_cons_ite]
    split_ifs with heq
    · rw [heq, lookup_eq_none_of_not_mem hfresh]
      rfl
    · rfl

/-- What a JSON column keeps of a property. -/
def storedProperty (v : Value) : Option Value :=
  if v = .undefined then none else some (jsonRoundTrip v)

theorem lookup_jsonFields (hnodup : (fields.map Prod.fst).Nodup) :
    (jsonFields fields).lookup key = (fields.lookup key).bind storedProperty := by
  induction fields with
  | nil => rfl
  | cons field fields ih =>
    obtain ⟨hfresh, hrest⟩ := List.nodup_cons.mp hnodup
    rw [jsonFields_cons, lookup_cons_ite]
    by_cases heq : key = field.1
    · rw [if_pos heq, Option.bind_some, storedProperty]
      split_ifs
      · rw [ih hrest, heq, lookup_eq_none_of_not_mem hfresh]
        rfl
      · rw [lookup_cons_ite, if_pos heq]
    · rw [if_neg heq, ← ih hrest]
      split_ifs
      · rfl
      · rw [lookup_cons_ite, if_neg heq]

/-- A property read after a round trip is the round trip of the property. -/
theorem field_jsonRoundTrip (hnodup : (fields.map Prod.fst).Nodup) :
    (jsonRoundTrip (.obj fields)).field key = jsonRoundTrip ((Value.obj fields).field key) := by
  show ((jsonFields fields).lookup key).getD .undefined = jsonRoundTrip ((fields.lookup key).getD .undefined)
  rw [lookup_jsonFields hnodup]
  cases fields.lookup key with
  | none => rfl
  | some v =>
    rw [Option.bind_some, storedProperty]
    split_ifs with hundef
    · rw [Option.getD_some, hundef]
      rfl
    · rfl

theorem map_fst_jsonFields_sublist :
    ((jsonFields fields).map Prod.fst).Sublist (fields.map Prod.fst) := by
  induction fields with
  | nil => exact List.Sublist.refl _
  | cons field fields ih =>
    rw [jsonFields_cons]
    split_ifs
    · exact ih.cons _
    · exact ih.cons_cons _

theorem nodup_jsonFields (hnodup : (fields.map Prod.fst).Nodup) :
    ((jsonFields fields).map Prod.fst).Nodup := hnodup.sublist map_fst_jsonFields_sublist

theorem jsonFields_append :
    jsonFields (fields ++ fields') = jsonFields fields ++ jsonFields fields' := by
  induction fields with
  | nil => rfl
  | cons field fields ih =>
    rw [List.cons_append, jsonFields_cons, jsonFields_cons, ih]
    split_ifs <;> rfl

/-- Items that are all defined are read back one by one. -/
theorem jsonItems_eq_map {items : List Value} (h : ∀ item ∈ items, item ≠ .undefined) :
    jsonItems items = items.map jsonRoundTrip := by
  induction items with
  | nil => rfl
  | cons item items ih =>
    rw [jsonItems_cons, if_neg (h item List.mem_cons_self), List.map_cons,
      ih fun i hi => h i (List.mem_cons_of_mem _ hi)]

theorem lookup_eq_some_of_mem (hnodup : (fields.map Prod.fst).Nodup) (hmem : (key, v) ∈ fields) :
    fields.lookup key = some v := by
  induction fields with
  | nil => simp at hmem
  | cons field fields ih =>
    obtain ⟨hfresh, hrest⟩ := List.nodup_cons.mp hnodup
    rw [lookup_cons_ite]
    obtain rfl | hmem := List.mem_cons.mp hmem
    · rw [if_pos rfl]
    · have hne : key ≠ field.1 := by
        rintro rfl
        exact hfresh (List.mem_map.mpr ⟨_, hmem, rfl⟩)
      rw [if_neg hne]
      exact ih hrest hmem

theorem lookup_jsonFields_of_undefined (hnodup : (fields.map Prod.fst).Nodup)
    (h : (Value.obj fields).field key = .undefined) : (jsonFields fields).lookup key = none := by
  rw [lookup_jsonFields hnodup]
  rw [field] at h
  cases hlookup : fields.lookup key with
  | none => rfl
  | some v =>
    rw [hlookup] at h
    have hv : v = .undefined := h
    rw [Option.bind_some, storedProperty, if_pos hv]

theorem lookup_jsonFields_ne_undefined (hnodup : (fields.map Prod.fst).Nodup) :
    (jsonFields fields).lookup key ≠ some .undefined := by
  rw [lookup_jsonFields hnodup]
  cases fields.lookup key with
  | none => simp
  | some v =>
    rw [Option.bind_some, storedProperty]
    split_ifs with hv
    · simp
    · simpa using hv

/-! ## 3. Distinct keys -/

theorem nodup_setKey (hnodup : (fields.map Prod.fst).Nodup) :
    ((setKey fields key v).map Prod.fst).Nodup := by
  unfold setKey
  split_ifs with hpresent
  · have hkeys : (fields.map fun field => if field.1 = key then (key, v) else field).map Prod.fst =
        fields.map Prod.fst := by
      rw [List.map_map]
      apply List.map_congr_left
      intro field _
      by_cases heq : field.1 = key <;> simp [heq]
    rwa [hkeys]
  · have habsent : key ∉ fields.map Prod.fst := by
      intro hmem
      obtain ⟨field, hfield, rfl⟩ := List.mem_map.mp hmem
      have hnone := Option.not_isSome_iff_eq_none.mp hpresent
      have hne := List.lookup_eq_none_iff.mp hnone field hfield
      simp at hne
    rw [List.map_append, List.nodup_append]
    refine ⟨hnodup, by simp, ?_⟩
    rintro k hk k' hk' rfl
    rw [List.map_singleton, List.mem_singleton] at hk'
    rw [hk'] at hk
    exact habsent hk

theorem nodup_filter_keys (hnodup : (fields.map Prod.fst).Nodup) (p : String × Value → Bool) :
    ((fields.filter p).map Prod.fst).Nodup :=
  hnodup.sublist (List.filter_sublist.map _)

theorem nodup_spread (hnodup : (fields.map Prod.fst).Nodup) :
    ((spread fields v).map Prod.fst).Nodup := by
  unfold spread
  induction ownFields v generalizing fields with
  | nil => exact hnodup
  | cons field rest ih => exact ih (nodup_setKey hnodup)

theorem nodup_spread_nil : ((spread [] v).map Prod.fst).Nodup := nodup_spread (by simp)

/-! ## 4. Induction -/

/-- A value from the values it holds. -/
theorem deepInduction {P : Value → Prop} (leaf : ∀ v, v.isObject = false → P v)
    (arr : ∀ items, (∀ item ∈ items, P item) → P (.arr items))
    (obj : ∀ fields : List (String × Value), (∀ field ∈ fields, P field.2) → P (.obj fields))
    (v : Value) : P v := by
  refine @Value.rec P (fun items => ∀ item ∈ items, P item)
    (fun fields => ∀ field ∈ fields, P field.2) (fun field => P field.2)
    (leaf _ rfl) (leaf _ rfl) (fun _ => leaf _ rfl) (fun _ => leaf _ rfl) (fun _ => leaf _ rfl)
    arr obj ?_ ?_ ?_ ?_ ?_ v
  · exact fun item h => nomatch h
  · exact fun item items hitem hitems => List.forall_mem_cons.mpr ⟨hitem, hitems⟩
  · exact fun field h => nomatch h
  · exact fun field fields hfield hfields => List.forall_mem_cons.mpr ⟨hfield, hfields⟩
  · exact fun _ _ h => h

end Clemvion.Js.Value
