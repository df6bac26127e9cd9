import Mathlib.Data.List.Nodup

/-!
# KeyedMap — insertion-ordered maps whose values know their key

The JavaScript `Map` from `x.id` to `x`: at most one value for each key, iteration in insertion
order, and `set` on a present key replaces the value where it stands.
-/

namespace Clemvion.Library

variable {α κ : Type} [DecidableEq κ]

structure KeyedMap (key : α → κ) where
  values : List α
  nodup : (values.map key).Nodup

namespace KeyedMap

variable {key : α → κ}

/-! ## 1. Operations -/

def empty : KeyedMap key := ⟨[], List.nodup_nil⟩

def get? (m : KeyedMap key) (k : κ) : Option α := m.values.find? fun x => key x = k

def has (m : KeyedMap key) (k : κ) : Bool := (m.get? k).isSome

/-- `x` in the place of the value with the same key. -/
def replaceAt (key : α → κ) (x : α) (l : List α) : List α :=
  l.map fun y => if key y = key x then x else y

theorem map_key_replaceAt (x : α) (l : List α) : (replaceAt key x l).map key = l.map key := by
  unfold replaceAt
  rw [List.map_map]
  apply List.map_congr_left
  intro y _
  show key (if key y = key x then x else y) = key y
  split
  · rename_i h
    exact h.symm
  · rfl

private theorem nodup_append_new {l : List α} (hl : (l.map key).Nodup) {x : α}
    (hx : l.find? (fun y => key y = key x) = none) : ((l ++ [x]).map key).Nodup := by
  rw [List.find?_eq_none] at hx
  rw [List.map_append]
  apply List.Nodup.append hl (List.nodup_singleton _)
  intro k hk hk'
  obtain ⟨y, hy, rfl⟩ := List.mem_map.mp hk
  have hkey : key y = key x := by simpa using hk'
  exact hx y hy (by simpa using hkey)

def set (m : KeyedMap key) (x : α) : KeyedMap key :=
  match h : m.get? (key x) with
  | some _ => ⟨replaceAt key x m.values, by rw [map_key_replaceAt]; exact m.nodup⟩
  | none => ⟨m.values ++ [x], nodup_append_new m.nodup h⟩

def delete (m : KeyedMap key) (k : κ) : KeyedMap key where
  values := m.values.filter fun x => key x ≠ k
  nodup := m.nodup.sublist (List.Sublist.map key List.filter_sublist)

def filter (m : KeyedMap key) (p : α → Bool) : KeyedMap key where
  values := m.values.filter p
  nodup := m.nodup.sublist (List.Sublist.map key List.filter_sublist)

/-- `f` of every value; it leaves the keys. -/
def mapValues (m : KeyedMap key) (f : α → α) (hf : ∀ x, key (f x) = key x) : KeyedMap key where
  values := m.values.map f
  nodup := by
    have hkeys : key ∘ f = key := funext hf
    rw [List.map_map, hkeys]
    exact m.nodup

/-- `new Map(xs.map((x) => [key(x), x]))`. -/
def ofList (xs : List α) : KeyedMap key := xs.foldl set empty

/-! ## 2. Lookup -/

variable {m : KeyedMap key} {k : κ} {x y : α}

theorem get?_eq_some_iff : m.get? k = some x ↔ x ∈ m.values ∧ key x = k := by
  unfold get?
  constructor
  · intro h
    exact ⟨List.mem_of_find?_eq_some h, by simpa using List.find?_some h⟩
  · rintro ⟨hx, rfl⟩
    cases h : m.values.find? fun y => key y = key x with
    | none =>
      rw [List.find?_eq_none] at h
      exact absurd (decide_eq_true rfl) (h x hx)
    | some y =>
      have hkey : key y = key x := by simpa using List.find?_some h
      rw [List.inj_on_of_nodup_map m.nodup (List.mem_of_find?_eq_some h) hx hkey]

theorem get?_eq_none_iff : m.get? k = none ↔ ∀ x ∈ m.values, key x ≠ k := by
  unfold get?
  rw [List.find?_eq_none]
  simp

theorem has_iff : m.has k = true ↔ ∃ x ∈ m.values, key x = k := by
  unfold has
  cases h : m.get? k with
  | none =>
    rw [get?_eq_none_iff] at h
    simpa using h
  | some x =>
    obtain ⟨hx, hkey⟩ := get?_eq_some_iff.mp h
    simpa using ⟨x, hx, hkey⟩

omit [DecidableEq κ] in
/-- Values with one key are one value. -/
theorem eq_of_key_eq (hx : x ∈ m.values) (hy : y ∈ m.values) (hkey : key x = key y) : x = y :=
  List.inj_on_of_nodup_map m.nodup hx hy hkey

/-! ## 3. What `set` and `delete` leave -/

theorem values_set_new (h : m.get? (key x) = none) : (m.set x).values = m.values ++ [x] := by
  unfold set
  split
  · rename_i h'
    rw [h] at h'
    cases h'
  · rfl

theorem values_set_present (h : m.get? (key x) = some y) :
    (m.set x).values = replaceAt key x m.values := by
  unfold set
  split
  · rfl
  · rename_i h'
    rw [h] at h'
    cases h'

theorem mem_set : y ∈ (m.set x).values ↔ y = x ∨ y ∈ m.values ∧ key y ≠ key x := by
  cases h : m.get? (key x) with
  | none =>
    rw [values_set_new h, List.mem_append, List.mem_singleton, or_comm]
    rw [get?_eq_none_iff] at h
    constructor
    · rintro (rfl | hy)
      · exact .inl rfl
      · exact .inr ⟨hy, h y hy⟩
    · rintro (rfl | ⟨hy, -⟩)
      · exact .inl rfl
      · exact .inr hy
  | some z =>
    obtain ⟨hz, hkey⟩ := get?_eq_some_iff.mp h
    rw [values_set_present h, replaceAt, List.mem_map]
    constructor
    · rintro ⟨w, hw, rfl⟩
      by_cases hwx : key w = key x
      · rw [if_pos hwx]
        exact .inl rfl
      · rw [if_neg hwx]
        exact .inr ⟨hw, hwx⟩
    · rintro (rfl | ⟨hy, hne⟩)
      · exact ⟨z, hz, if_pos hkey⟩
      · exact ⟨y, hy, if_neg hne⟩

theorem mem_delete : y ∈ (m.delete k).values ↔ y ∈ m.values ∧ key y ≠ k := by
  simp [delete]

omit [DecidableEq κ] in
theorem mem_filter {p : α → Bool} : y ∈ (m.filter p).values ↔ y ∈ m.values ∧ p y = true :=
  List.mem_filter

omit [DecidableEq κ] in
theorem mem_mapValues {f : α → α} (hf : ∀ x, key (f x) = key x) :
    y ∈ (m.mapValues f hf).values ↔ ∃ x ∈ m.values, f x = y :=
  List.mem_map

theorem mem_foldl_delete {ks : List κ} :
    y ∈ (ks.foldl delete m).values ↔ y ∈ m.values ∧ key y ∉ ks := by
  induction ks generalizing m with
  | nil => simp
  | cons k ks ih =>
    rw [List.foldl_cons, ih, mem_delete, List.mem_cons, not_or, and_assoc]

theorem get?_set_self : (m.set x).get? (key x) = some x :=
  get?_eq_some_iff.mpr ⟨mem_set.mpr (.inl rfl), rfl⟩

/-- Setting a value changes nothing exactly when it is there. -/
theorem values_set_eq_iff : (m.set x).values = m.values ↔ m.get? (key x) = some x := by
  constructor
  · intro h
    rw [get?_eq_some_iff, ← h]
    exact ⟨mem_set.mpr (.inl rfl), rfl⟩
  · intro h
    rw [values_set_present h]
    conv_rhs => rw [← List.map_id m.values]
    apply List.map_congr_left
    intro y hy
    split
    · rename_i hkey
      exact (eq_of_key_eq hy (get?_eq_some_iff.mp h).1 hkey).symm
    · rfl

theorem get?_set_of_ne (hne : k ≠ key x) : (m.set x).get? k = m.get? k := by
  apply Option.ext
  intro y
  rw [get?_eq_some_iff, get?_eq_some_iff, mem_set]
  constructor
  · rintro ⟨rfl | ⟨hy, -⟩, hkey⟩
    · exact absurd hkey.symm hne
    · exact ⟨hy, hkey⟩
  · rintro ⟨hy, hkey⟩
    exact ⟨.inr ⟨hy, fun h => hne (hkey.symm.trans h)⟩, hkey⟩

theorem get?_delete_of_ne {k' : κ} (hne : k' ≠ k) : (m.delete k).get? k' = m.get? k' := by
  apply Option.ext
  intro y
  rw [get?_eq_some_iff, get?_eq_some_iff, mem_delete]
  constructor
  · rintro ⟨⟨hy, -⟩, hkey⟩
    exact ⟨hy, hkey⟩
  · rintro ⟨hy, hkey⟩
    exact ⟨⟨hy, fun h => hne (hkey.symm.trans h)⟩, hkey⟩

end KeyedMap

end Clemvion.Library
