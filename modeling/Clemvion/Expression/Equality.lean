import Clemvion.Expression.Operators

/-!
# Equality — which laws `==` obeys

Objects are compared with as many keys on either side and key by key from the left, where an
absent key of the right object reads as `undefined`.  So a key that holds `undefined` on the left
may stand for any other key on the right, and symmetry and transitivity fail just there.
-/

open Clemvion.Js Clemvion.Js.Value

namespace Clemvion.Expression

/-! ## 1. Values to compare -/

mutual

/-- No number in the value is `NaN`. -/
def NoNan : Value → Prop
  | .num n => n ≠ .nan
  | .arr items => NoNanItems items
  | .obj fields => NoNanFields fields
  | _ => True

def NoNanItems : List Value → Prop
  | [] => True
  | item :: items => NoNan item ∧ NoNanItems items

def NoNanFields : List (String × Value) → Prop
  | [] => True
  | (_, v) :: fields => NoNan v ∧ NoNanFields fields

end

/-- A runtime value without `NaN`; the keys of an object are distinct. -/
structure Comparable (v : Value) : Prop where
  noNan : NoNan v
  distinct : JsonText.DistinctKeys v

mutual

/-- Every field that `b` defines `a` defines too, wherever the two have an object at the same
place. -/
def answers : Value → Value → Bool
  | .arr items, .arr items' => answersItems items items'
  | .obj fields, .obj fields' => answersFields fields (.obj fields')
  | _, _ => true

def answersItems : List Value → List Value → Bool
  | item :: items, item' :: items' => answers item item' && answersItems items items'
  | _, _ => true

def answersFields : List (String × Value) → Value → Bool
  | [], _ => true
  | (key, value) :: fields, a =>
    (value = .undefined || (a.field key ≠ .undefined && answers value (a.field key))) &&
      answersFields fields a

end

mutual

/-- No field that `a` holds as `undefined` is defined in `c`, wherever the two have an object at
the same place. -/
def staysUndefined : Value → Value → Bool
  | .arr items, .arr items' => staysUndefinedItems items items'
  | .obj fields, .obj fields' => staysUndefinedFields fields (.obj fields')
  | _, _ => true

def staysUndefinedItems : List Value → List Value → Bool
  | item :: items, item' :: items' =>
    staysUndefined item item' && staysUndefinedItems items items'
  | _, _ => true

def staysUndefinedFields : List (String × Value) → Value → Bool
  | [], _ => true
  | (key, value) :: fields, c =>
    (if value = .undefined then c.field key = .undefined else staysUndefined value (c.field key)) &&
      staysUndefinedFields fields c

end

/-! ## 2. What they say of arrays and objects -/

variable {items items' : List Value} {fields fields' : List (String × Value)} {a b c : Value}

theorem noNanItems_iff : NoNanItems items ↔ ∀ item ∈ items, NoNan item := by
  induction items with
  | nil => simp [NoNanItems]
  | cons item items ih =>
    rw [List.forall_mem_cons, ← ih]
    rfl

theorem noNanFields_iff : NoNanFields fields ↔ ∀ field ∈ fields, NoNan field.2 := by
  induction fields with
  | nil => simp [NoNanFields]
  | cons field fields ih =>
    rw [List.forall_mem_cons, ← ih]
    rfl

theorem Comparable.item (h : Comparable (.arr items)) {item : Value} (hitem : item ∈ items) :
    Comparable item where
  noNan := noNanItems_iff.mp h.noNan item hitem
  distinct := JsonText.areDistinct_iff.mp h.distinct item hitem

theorem Comparable.keys (h : Comparable (.obj fields)) : (fields.map Prod.fst).Nodup := h.distinct.1

theorem Comparable.value (h : Comparable (.obj fields)) {field : String × Value}
    (hfield : field ∈ fields) : Comparable field.2 where
  noNan := noNanFields_iff.mp h.noNan field hfield
  distinct := JsonText.fieldsAreDistinct_iff.mp h.distinct.2 field hfield

/-- A field of an object reads as what it holds. -/
theorem Comparable.field (h : Comparable (.obj fields)) {field : String × Value}
    (hfield : field ∈ fields) : (Value.obj fields).field field.1 = field.2 := by
  show (fields.lookup field.1).getD .undefined = field.2
  rw [lookup_eq_some_of_mem h.keys hfield]
  rfl

/-- What an object defines is one of its fields. -/
theorem mem_of_defined {key : String} (h : (Value.obj fields).field key ≠ .undefined) :
    (key, (Value.obj fields).field key) ∈ fields :=
  mem_of_field rfl h

theorem deepEqual_arr : deepEqual (.arr items) (.arr items') = true ↔
    List.Forall₂ (fun a b => deepEqual a b = true) items items' := by
  show (decide (items.length = items'.length) && deepEqualItems items items') = true ↔ _
  rw [Bool.and_eq_true, decide_eq_true_eq]
  induction items generalizing items' with
  | nil =>
    cases items' with
    | nil => simp [deepEqualItems]
    | cons item' items' => simp
  | cons item items ih =>
    cases items' with
    | nil => simp
    | cons item' items' =>
      rw [List.forall₂_cons, ← ih]
      show items.length + 1 = items'.length + 1 ∧
        (deepEqual item item' && deepEqualItems items items') = true ↔ _
      rw [Bool.and_eq_true, Nat.add_right_cancel_iff]
      exact and_left_comm

theorem deepEqualFields_iff : deepEqualFields fields b = true ↔
    ∀ field ∈ fields, deepEqual field.2 (b.field field.1) = true := by
  induction fields with
  | nil => simp [deepEqualFields]
  | cons field fields ih =>
    rw [List.forall_mem_cons, ← ih, ← Bool.and_eq_true]
    rfl

theorem deepEqual_obj : deepEqual (.obj fields) (.obj fields') = true ↔
    fields.length = fields'.length ∧
      ∀ field ∈ fields, deepEqual field.2 ((Value.obj fields').field field.1) = true := by
  show (decide (fields.length = fields'.length) && deepEqualFields fields (.obj fields')) = true ↔ _
  rw [Bool.and_eq_true, decide_eq_true_eq, deepEqualFields_iff]

theorem answersFields_iff : answersFields fields a = true ↔ ∀ field ∈ fields,
    field.2 ≠ .undefined → a.field field.1 ≠ .undefined ∧
      answers field.2 (a.field field.1) = true := by
  induction fields with
  | nil => simp [answersFields]
  | cons field fields ih =>
    rw [List.forall_mem_cons, ← ih]
    show ((_ || _) && answersFields fields a) = true ↔ _
    rw [Bool.and_eq_true, Bool.or_eq_true, Bool.and_eq_true, decide_eq_true_eq, decide_eq_true_eq,
      Classical.or_iff_not_imp_left]

theorem staysUndefinedFields_iff : staysUndefinedFields fields c = true ↔ ∀ field ∈ fields,
    if field.2 = .undefined then c.field field.1 = .undefined
    else staysUndefined field.2 (c.field field.1) = true := by
  induction fields with
  | nil => simp [staysUndefinedFields]
  | cons field fields ih =>
    rw [List.forall_mem_cons, ← ih]
    show ((if field.2 = .undefined then decide (c.field field.1 = .undefined)
      else staysUndefined field.2 (c.field field.1)) && staysUndefinedFields fields c) = true ↔ _
    rw [Bool.and_eq_true]
    split_ifs
    · rw [decide_eq_true_eq]
    · exact Iff.rfl

/-- Only `undefined` equals `undefined`. -/
theorem eq_undefined_of_deepEqual (h : deepEqual .undefined b = true) : b = .undefined := by
  cases b <;> first | rfl | cases h

theorem eq_undefined_of_deepEqual' (h : deepEqual a .undefined = true) : a = .undefined := by
  cases a <;> first | rfl | cases h

/-! ## 3. Structural comparison -/

theorem deepEqual_refl (ha : Comparable a) : deepEqual a a = true := by
  induction a using deepInduction with
  | leaf v hleaf =>
    cases v with
    | num n =>
      have hn : n ≠ .nan := ha.noNan
      show (decide (n ≠ .nan) && decide (n = n)) = true
      rw [decide_eq_true hn, decide_eq_true rfl]
      rfl
    | undefined => rfl
    | null => rfl
    | bool b => exact decide_eq_true rfl
    | str s => exact decide_eq_true rfl
    | arr items => cases hleaf
    | obj fields => cases hleaf
  | arr items ih =>
    rw [deepEqual_arr, List.forall₂_same]
    exact fun item hitem => ih item hitem (ha.item hitem)
  | obj fields ih =>
    refine deepEqual_obj.mpr ⟨rfl, fun field hfield => ?_⟩
    rw [ha.field hfield]
    exact ih field hfield (ha.value hfield)

/-- Against a leaf the comparison is `===`. -/
theorem deepEqual_leaf (hb : b.isObject = false) : deepEqual a b = strictEquals a b := by
  cases a <;> cases b <;> first | rfl | cases hb

theorem deepEqual_leaf' (ha : a.isObject = false) : deepEqual a b = strictEquals a b := by
  cases a <;> cases b <;> first | rfl | cases ha

/-- **Symmetry.** What equals `b` is equalled by `b` just if it answers every field of `b`. -/
theorem deepEqual_symm_iff (ha : Comparable a) (hb : Comparable b) (h : deepEqual a b = true) :
    deepEqual b a = true ↔ answers b a = true := by
  induction b using deepInduction generalizing a with
  | leaf v hleaf =>
    have hanswers : answers v a = true := by
      cases v <;> first | rfl | cases hleaf
    have hflip : deepEqual v a = deepEqual a v := by
      rw [deepEqual_leaf' hleaf, deepEqual_leaf hleaf, strictEquals_comm]
    exact iff_of_true (hflip.trans h) hanswers
  | arr items' ih =>
    cases a with
    | arr items =>
      rw [deepEqual_arr] at h ⊢
      show _ ↔ answersItems items' items = true
      induction h with
      | nil => exact iff_of_true .nil rfl
      | @cons item item' items items' hitem hitems ih' =>
        rw [List.forall₂_cons, ih item' List.mem_cons_self (ha.item List.mem_cons_self)
          (hb.item List.mem_cons_self) hitem]
        show _ ↔ (answers item' item && answersItems items' items) = true
        rw [Bool.and_eq_true]
        refine and_congr_right fun _ => ih' ?_ ?_ ?_
        · exact fun i hi => ih i (List.mem_cons_of_mem _ hi)
        · exact ⟨hb.noNan.2, hb.distinct.2⟩
        · exact ⟨ha.noNan.2, ha.distinct.2⟩
    | _ => cases h
  | obj fields' ih =>
    cases a with
    | obj fields =>
      obtain ⟨hlength, hleft⟩ := deepEqual_obj.mp h
      -- a key that the left object defines is equal on the right
      have hback : ∀ field ∈ fields', (Value.obj fields).field field.1 ≠ .undefined →
          deepEqual ((Value.obj fields).field field.1) field.2 = true ∧
            Comparable ((Value.obj fields).field field.1) := by
        intro field hfield hdefined
        have hmem := mem_of_defined hdefined
        have heq := hleft _ hmem
        rw [hb.field hfield] at heq
        exact ⟨heq, ha.value hmem⟩
      rw [deepEqual_obj]
      show _ ↔ answersFields fields' (.obj fields) = true
      rw [answersFields_iff]
      constructor
      · rintro ⟨-, hright⟩ field hfield hdefined
        have hanswered : (Value.obj fields).field field.1 ≠ .undefined := by
          intro hundefined
          have heq := hright field hfield
          rw [hundefined] at heq
          exact hdefined (eq_undefined_of_deepEqual' heq)
        obtain ⟨heq, hcomparable⟩ := hback field hfield hanswered
        exact ⟨hanswered, (ih field hfield hcomparable (hb.value hfield) heq).mp
          (hright field hfield)⟩
      · intro hanswers
        refine ⟨hlength.symm, fun field hfield => ?_⟩
        by_cases hundefined : field.2 = .undefined
        · -- the left object cannot define what the right one holds as `undefined`
          have hleftUndefined : (Value.obj fields).field field.1 = .undefined := by
            by_contra hdefined
            have heq := (hback field hfield hdefined).1
            rw [hundefined] at heq
            exact hdefined (eq_undefined_of_deepEqual' heq)
          rw [hundefined, hleftUndefined]
          rfl
        · obtain ⟨hanswered, hnested⟩ := hanswers field hfield hundefined
          obtain ⟨heq, hcomparable⟩ := hback field hfield hanswered
          exact (ih field hfield hcomparable (hb.value hfield) heq).mpr hnested
    | _ => cases h

/-- Leaves that are equal are the same. -/
theorem eq_of_deepEqual_leaf (ha : a.isObject = false) (h : deepEqual a b = true) : a = b := by
  cases a with
  | arr items => cases ha
  | obj fields => cases ha
  | num m =>
    cases b with
    | num n =>
      have hboth : (decide (m ≠ .nan) && decide (m = n)) = true := h
      rw [Bool.and_eq_true, decide_eq_true_eq] at hboth
      rw [of_decide_eq_true hboth.2]
    | _ => cases h
  | bool x =>
    cases b with
    | bool y => rw [of_decide_eq_true (show decide (x = y) = true from h)]
    | _ => cases h
  | str x =>
    cases b with
    | str y => rw [of_decide_eq_true (show decide (x = y) = true from h)]
    | _ => cases h
  | undefined => exact (eq_undefined_of_deepEqual h).symm
  | null => cases b <;> first | rfl | cases h

/-- **Transitivity.** Through `b`, `a` equals `c` just if what `a` holds as `undefined` is
undefined in `c`. -/
theorem deepEqual_trans_iff (ha : Comparable a) (hb : Comparable b) (h : deepEqual a b = true)
    (h' : deepEqual b c = true) : deepEqual a c = true ↔ staysUndefined a c = true := by
  induction a using deepInduction generalizing b c with
  | leaf v hleaf =>
    have hstays : staysUndefined v c = true := by
      cases v <;> first | rfl | cases hleaf
    rw [eq_of_deepEqual_leaf hleaf h]
    exact iff_of_true h' (eq_of_deepEqual_leaf hleaf h ▸ hstays)
  | arr items ih =>
    cases b with
    | arr items' =>
      cases c with
      | arr items'' =>
        rw [deepEqual_arr] at h h' ⊢
        show _ ↔ staysUndefinedItems items items'' = true
        induction h generalizing items'' with
        | nil =>
          cases h'
          exact iff_of_true .nil rfl
        | @cons item item' items items' hitem hitems ih' =>
          cases h' with
          | @cons _ item'' _ items'' hitem' hitems' =>
            rw [List.forall₂_cons, ih item List.mem_cons_self (ha.item List.mem_cons_self)
              (hb.item List.mem_cons_self) hitem hitem']
            show _ ↔ (staysUndefined item item'' && staysUndefinedItems items items'') = true
            rw [Bool.and_eq_true]
            refine and_congr_right fun _ => ih' ?_ ?_ ?_ items'' hitems'
            · exact fun i hi => ih i (List.mem_cons_of_mem _ hi)
            · exact ⟨ha.noNan.2, ha.distinct.2⟩
            · exact ⟨hb.noNan.2, hb.distinct.2⟩
      | _ => cases h'
    | _ => cases h
  | obj fields ih =>
    cases b with
    | obj fields' =>
      cases c with
      | obj fields'' =>
        obtain ⟨hlength, hleft⟩ := deepEqual_obj.mp h
        obtain ⟨hlength', hright⟩ := deepEqual_obj.mp h'
        rw [deepEqual_obj]
        show _ ↔ staysUndefinedFields fields (.obj fields'') = true
        rw [staysUndefinedFields_iff, and_iff_right (hlength.trans hlength')]
        refine forall_congr' fun field => forall_congr' fun hfield => ?_
        split_ifs with hundefined
        · rw [hundefined]
          exact ⟨eq_undefined_of_deepEqual, fun hc => by rw [hc]; rfl⟩
        · -- the middle object defines the key, so it is equal on either side of it
          have hmiddle : (Value.obj fields').field field.1 ≠ .undefined := by
            intro hnone
            have heq := hleft field hfield
            rw [hnone] at heq
            exact hundefined (eq_undefined_of_deepEqual' heq)
          have hmem := mem_of_defined hmiddle
          exact ih field hfield (ha.value hfield) (hb.value hmem) (hleft field hfield)
            (hright _ hmem)
      | _ => cases h'
    | _ => cases h

/-! ## 4. Where nothing is undefined -/

mutual

/-- No object of the value has a field that holds `undefined`. -/
def Defined : Value → Prop
  | .arr items => DefinedItems items
  | .obj fields => DefinedFields fields
  | _ => True

def DefinedItems : List Value → Prop
  | [] => True
  | item :: items => Defined item ∧ DefinedItems items

def DefinedFields : List (String × Value) → Prop
  | [] => True
  | (_, v) :: fields => (v ≠ .undefined ∧ Defined v) ∧ DefinedFields fields

end

theorem definedFields_iff :
    DefinedFields fields ↔ ∀ field ∈ fields, field.2 ≠ .undefined ∧ Defined field.2 := by
  induction fields with
  | nil => simp [DefinedFields]
  | cons field fields ih =>
    rw [List.forall_mem_cons, ← ih]
    rfl

/-- The fields of the left object being as many as those on the right, and each of them there,
none is left over on the right. -/
theorem mem_keys_of_deepEqual (ha : Comparable (.obj fields)) (hdefined : DefinedFields fields)
    (h : deepEqual (.obj fields) (.obj fields') = true) {key : String}
    (hkey : key ∈ fields'.map Prod.fst) : key ∈ fields.map Prod.fst := by
  obtain ⟨hlength, hleft⟩ := deepEqual_obj.mp h
  have hsub : fields.map Prod.fst ⊆ fields'.map Prod.fst := by
    intro key hkey
    obtain ⟨field, hfield, rfl⟩ := List.mem_map.mp hkey
    have hthere : (Value.obj fields').field field.1 ≠ .undefined := by
      intro hnone
      have heq := hleft field hfield
      rw [hnone] at heq
      exact (definedFields_iff.mp hdefined field hfield).1 (eq_undefined_of_deepEqual' heq)
    exact List.mem_map.mpr ⟨_, mem_of_defined hthere, rfl⟩
  have hperm := (List.subperm_of_subset ha.keys hsub).perm_of_length_le (by
    rw [List.length_map, List.length_map]
    omega)
  exact hperm.mem_iff.mpr hkey

theorem answers_of_defined (ha : Comparable a) (hb : Comparable b) (hda : Defined a)
    (h : deepEqual a b = true) : answers b a = true := by
  induction b using deepInduction generalizing a with
  | leaf v hleaf => cases v <;> first | rfl | cases hleaf
  | arr items' ih =>
    cases a with
    | arr items =>
      rw [deepEqual_arr] at h
      show answersItems items' items = true
      induction h with
      | nil => rfl
      | @cons item item' items items' hitem hitems ih' =>
        show (answers item' item && answersItems items' items) = true
        rw [ih item' List.mem_cons_self (ha.item List.mem_cons_self)
          (hb.item List.mem_cons_self) hda.1 hitem, Bool.true_and]
        refine ih' ?_ ?_ ?_ hda.2
        · exact fun i hi => ih i (List.mem_cons_of_mem _ hi)
        · exact ⟨hb.noNan.2, hb.distinct.2⟩
        · exact ⟨ha.noNan.2, ha.distinct.2⟩
    | _ => cases h
  | obj fields' ih =>
    cases a with
    | obj fields =>
      show answersFields fields' (.obj fields) = true
      refine answersFields_iff.mpr fun field hfield _ => ?_
      have hkey := mem_keys_of_deepEqual ha hda h (List.mem_map_of_mem hfield)
      obtain ⟨mine, hmine, hsame⟩ := List.mem_map.mp hkey
      obtain ⟨hdefined, hnested⟩ := definedFields_iff.mp hda mine hmine
      rw [← hsame, ha.field hmine]
      have heq := (deepEqual_obj.mp h).2 mine hmine
      rw [hsame, hb.field hfield] at heq
      exact ⟨hdefined, ih field hfield (ha.value hmine) (hb.value hfield) hnested heq⟩
    | _ => cases h

theorem staysUndefined_of_defined (ha : Defined a) : staysUndefined a c = true := by
  induction a using deepInduction generalizing c with
  | leaf v hleaf => cases v <;> first | rfl | cases hleaf
  | arr items ih =>
    cases c with
    | arr items' =>
      show staysUndefinedItems items items' = true
      induction items generalizing items' with
      | nil => cases items' <;> rfl
      | cons item items ih' =>
        cases items' with
        | nil => rfl
        | cons item' items' =>
          show (staysUndefined item item' && staysUndefinedItems items items') = true
          rw [ih item List.mem_cons_self ha.1, Bool.true_and]
          exact ih' (fun i hi => ih i (List.mem_cons_of_mem _ hi)) ha.2 items'
    | _ => rfl
  | obj fields ih =>
    cases c with
    | obj fields' =>
      refine staysUndefinedFields_iff.mpr fun field hfield => ?_
      obtain ⟨hdefined, hnested⟩ := definedFields_iff.mp ha field hfield
      rw [if_neg hdefined]
      exact ih field hfield hnested
    | _ => rfl

/-! ## 5. The operator -/

variable {host : Host} {strict : Bool}

theorem typeOf_eq_of_deepEqual (h : deepEqual a b = true) : typeOf a = typeOf b := by
  cases a <;> cases b <;> first | rfl | cases h

theorem isNullish_eq_of_deepEqual (h : deepEqual a b = true) : isNullish a = isNullish b := by
  cases a <;> cases b <;> first | rfl | cases h

theorem deepEqual_of_isNullish (ha : isNullish a = true) (hb : isNullish b = true)
    (htype : typeOf a = typeOf b) : deepEqual a b = true := by
  have hcases : ∀ v, isNullish v = true → v = .undefined ∨ v = .null := by
    intro v hv
    cases v <;> first | exact .inl rfl | exact .inr rfl | cases hv
  obtain rfl | rfl := hcases a ha <;> obtain rfl | rfl := hcases b hb
  · rfl
  · exact absurd htype (by decide)
  · exact absurd htype (by decide)
  · rfl

theorem evalEquality_strict_iff : evalEquality host true a b = true ↔
    (isNullish a = true ∧ isNullish b = true) ∨ deepEqual a b = true := by
  unfold evalEquality
  rw [if_pos rfl]
  split_ifs with htype
  · rw [Bool.and_eq_true, or_iff_left fun h => htype (typeOf_eq_of_deepEqual h)]
  · have hsame : typeOf a = typeOf b := not_not.mp htype
    exact ⟨.inr, fun h => h.elim (fun hn => deepEqual_of_isNullish hn.1 hn.2 hsame) id⟩

theorem evalEquality_loose_iff : evalEquality host false a b = true ↔
    (isNullish a = true ∧ isNullish b = true) ∨ (isNullish a = false ∧ isNullish b = false) ∧
      (deepEqual a b = true ∨ typeOf a ≠ typeOf b ∧ equalAcrossTypes host a b = true) := by
  unfold evalEquality
  rw [if_neg Bool.false_ne_true]
  cases ha : isNullish a <;> cases hb : isNullish b
  · simp only [Bool.and_self, Bool.or_self, Bool.false_eq_true, if_false]
    split_ifs with htype
    · simp [htype]
    · have hno : ¬ deepEqual a b = true := fun h => htype (typeOf_eq_of_deepEqual h)
      simp [htype, hno]
  · simp
  · simp
  · simp

theorem answers_of_typeOf_ne (h : typeOf a ≠ typeOf b) : answers b a = true := by
  cases a <;> cases b <;> first | rfl | exact absurd rfl h

theorem answers_of_isNullish (h : isNullish b = true) : answers b a = true := by
  cases b <;> first | rfl | cases h

theorem equalAcrossTypes_comm (h : equalAcrossTypes host a b = true) :
    equalAcrossTypes host b a = true := by
  unfold equalAcrossTypes at h ⊢
  cases ha : coerced a <;> cases hb : coerced b <;> simp only [ha, hb] at h ⊢ <;>
    first | rwa [strictEquals_comm] | cases h

/-- Where no object of `a` holds `undefined`, strict equality with `a` is symmetric and leads on. -/
theorem evalEquality_of_defined (host : Host) (ha : Comparable a) (hb : Comparable b)
    (hdefined : Defined a) (h : evalEquality host true a b = true) :
    evalEquality host true b a = true ∧
      (evalEquality host true b c = true → evalEquality host true a c = true) := by
  simp only [evalEquality_strict_iff] at h ⊢
  obtain ⟨hna, hnb⟩ | heq := h
  · refine ⟨.inl ⟨hnb, hna⟩, fun h' => .inl ⟨hna, ?_⟩⟩
    obtain hnull | heq' := h'
    · exact hnull.2
    · rw [← isNullish_eq_of_deepEqual heq', hnb]
  · have hback : deepEqual b a = true :=
      (deepEqual_symm_iff ha hb heq).mpr (answers_of_defined ha hb hdefined heq)
    refine ⟨.inr hback, fun h' => ?_⟩
    obtain ⟨hnb, hnc⟩ | heq' := h'
    · exact .inl ⟨(isNullish_eq_of_deepEqual heq).trans hnb, hnc⟩
    · exact .inr ((deepEqual_trans_iff ha hb heq heq').mpr (staysUndefined_of_defined hdefined))

/-! ## 6. A key that holds `undefined` -/

def blankX : Value := .obj [("x", .undefined)]
def blankY : Value := .obj [("y", .undefined)]
def fiveX : Value := .obj [("x", .num (.finite 5))]

theorem comparable_blankX : Comparable blankX := ⟨⟨trivial, trivial⟩, by decide, trivial, trivial⟩
theorem comparable_blankY : Comparable blankY := ⟨⟨trivial, trivial⟩, by decide, trivial, trivial⟩
theorem comparable_fiveX : Comparable fiveX :=
  ⟨⟨(fun h => nomatch h), trivial⟩, by decide, trivial, trivial⟩

end Clemvion.Expression
