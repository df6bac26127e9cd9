import Clemvion.Nodes.ButtonNames

/-!
# ButtonNamespace — the button ids of a whole node

The buttons of a node stand in up to three places of its config, and every one is an output port of
the node under its id.  Within one array a made-up id is new; between the arrays nothing keeps a
made-up id away from the ids of the others.
-/

open Clemvion.Js Clemvion.Js.Value Clemvion.Library

namespace Clemvion.Nodes

/-! ## 1. Where the buttons of a config are -/

structure ButtonArray where
  fallbackPrefix : Nat → String
  buttons : List Value

def arrayAt (v : Value) (key : String) (fallbackPrefix : Nat → String) : List ButtonArray :=
  match v.field key with
  | .arr buttons => [⟨fallbackPrefix, buttons⟩]
  | _ => []

def itemArrays (config : Value) : List ButtonArray :=
  match config.field "items" with
  | .arr items => items.zipIdx.flatMap fun item => arrayAt item.1 "buttons" (itemsBtnFallback item.2)
  | _ => []

/-- The button arrays of a config, each with the names of its positions. -/
def buttonArrays (config : Value) : List ButtonArray :=
  arrayAt config "buttons" btnFallback ++ arrayAt config "itemButtons" itemBtnFallback ++ itemArrays config

/-- The button at an array of the config and a place in it. -/
def buttonAt (config : Value) (pos : Nat × Nat) : Option Value :=
  (buttonArrays config)[pos.1]?.bind fun array => array.buttons[pos.2]?

/-- An array of the language has fewer than `2 ^ 32` elements. -/
structure ArraysFit (config : Value) : Prop where
  buttons : ∀ array ∈ buttonArrays config, array.buttons.length < 2 ^ 32
  items : ∀ items, config.field "items" = .arr items → items.length < 2 ^ 32

/-! ## 2. What normalisation is for -/

def buttonKeys : List String := ["buttons", "itemButtons", "items"]

structure KeepsItem (item item' : Value) : Prop where
  fields : otherFields ["buttons"] item' = otherFields ["buttons"] item
  buttons : (∀ buttons, item.field "buttons" ≠ .arr buttons) → item' = item

structure Normalizes (toLowerCase : String → String) (config out : Value) : Prop where
  /-- The same buttons stand in the same places. -/
  places : ∀ pos, (buttonAt out pos).isSome = (buttonAt config pos).isSome
  button : ∀ pos b b', buttonAt config pos = some b → buttonAt out pos = some b' → KeepsButton b b'
  /-- A made-up id is the id of no other button of the node. -/
  distinct : ∀ pos pos', pos ≠ pos' → ∀ b b' c', buttonAt config pos = some b → explicitId b = none →
    buttonAt out pos = some b' → buttonAt out pos' = some c' → b'.field "id" ≠ c'.field "id"
  fields : otherFields buttonKeys out = otherFields buttonKeys config
  noArray : ∀ key ∈ buttonKeys, (∀ values, config.field key ≠ .arr values) →
    out.field key = config.field key
  items : ∀ items, config.field "items" = .arr items →
    ∃ items', out.field "items" = .arr items' ∧ List.Forall₂ KeepsItem items items'
  stable : normalizeNodeButtonIds toLowerCase out = out

/-- The ids that an array has when it is looked at alone. -/
def ButtonArray.Named (toLowerCase : String → String) (array : ButtonArray) (names : List String) : Prop :=
  Names toLowerCase array.fallbackPrefix 0 (array.buttons.filterMap explicitId) array.buttons names

/-- No button without a usable id has, in its own array, a name that a button of another array has in
    that one. -/
def NoSharedNames (toLowerCase : String → String) (config : Value) : Prop :=
  ∀ (p q : Nat) (array array' : ButtonArray) (names names' : List String), p ≠ q →
    (buttonArrays config)[p]? = some array → (buttonArrays config)[q]? = some array' →
    array.Named toLowerCase names → array'.Named toLowerCase names' →
    ∀ (i : Nat) (b : Value) (id : String), array.buttons[i]? = some b → explicitId b = none →
      names[i]? = some id → id ∉ names'

/-! ## 3. What normalisation writes -/

variable (toLowerCase : String → String)

def normalizedArray (array : ButtonArray) : ButtonArray where
  fallbackPrefix := array.fallbackPrefix
  buttons := (normalizeButtonsArray toLowerCase array.buttons array.fallbackPrefix).buttons

/-- What `config.buttons` or `config.itemButtons` becomes. -/
def normalizedValue (fallbackPrefix : Nat → String) : Value → Value
  | .arr buttons => .arr (normalizeButtonsArray toLowerCase buttons fallbackPrefix).buttons
  | v => v

/-- What `config.items` becomes. -/
def normalizedItems : Value → Value
  | .arr items => .arr (items.zipIdx.map fun item => (normalizeItem toLowerCase item.2 item.1).item)
  | v => v

/-- The config as the copy has it so far. -/
def current (fields : List (String × Value)) (next : Option (List (String × Value))) : Value :=
  .obj (next.getD fields)

/-- One assignment to the copy. -/
structure Assigns (key : String) (v before after : Value) : Prop where
  written : after.field key = v
  read : ∀ key', key' ≠ key → after.field key' = before.field key'
  fields : otherFields buttonKeys after = otherFields buttonKeys before

variable (fields : List (String × Value)) (next : Option (List (String × Value)))

theorem assignCopy_assigns {key : String} (hkey : key ∈ buttonKeys) (v : Value) :
    Assigns key v (current fields next) (current fields (assignCopy (.obj fields) next key v)) := by
  have hset : current fields (assignCopy (.obj fields) next key v) =
      .obj (setKey (next.getD fields) key v) := rfl
  rw [hset]
  refine ⟨by rw [field_setKey, if_pos rfl], ?_, otherFields_setKey hkey _ v⟩
  intro key' hne
  rw [field_setKey, if_neg hne]
  rfl

theorem assigns_refl {key : String} {v config : Value} (h : config.field key = v) :
    Assigns key v config config := ⟨h, fun _ _ => rfl, rfl⟩

theorem normalizeButtonsArray_unchanged (buttons : List Value) (fallbackPrefix : Nat → String)
    (h : (normalizeButtonsArray toLowerCase buttons fallbackPrefix).changed = false) :
    (normalizeButtonsArray toLowerCase buttons fallbackPrefix).buttons = buttons :=
  normalizeButtonsFrom_unchanged toLowerCase buttons 0 _ h

theorem normalizeField_assigns {key : String} (hkey : key ∈ buttonKeys) (fallbackPrefix : Nat → String)
    (hread : (current fields next).field key = (Value.obj fields).field key) :
    Assigns key (normalizedValue toLowerCase fallbackPrefix ((Value.obj fields).field key))
      (current fields next)
      (current fields (normalizeField toLowerCase (.obj fields) key fallbackPrefix next)) := by
  unfold normalizeField
  cases hvalue : (Value.obj fields).field key with
  | arr buttons =>
    cases hchanged : (normalizeButtonsArray toLowerCase buttons fallbackPrefix).changed with
    | true => simpa only [hchanged, if_true, normalizedValue] using
      assignCopy_assigns fields next hkey _
    | false =>
      simp only [hchanged, Bool.false_eq_true, if_false, normalizedValue,
        normalizeButtonsArray_unchanged toLowerCase _ _ hchanged]
      exact assigns_refl (hread.trans hvalue)
  | _ => exact assigns_refl (hread.trans hvalue)

theorem normalizeItem_unchanged (i : Nat) (item : Value)
    (h : (normalizeItem toLowerCase i item).changed = false) :
    (normalizeItem toLowerCase i item).item = item := by
  unfold normalizeItem at h ⊢
  cases hvalue : item.field "buttons" with
  | arr buttons =>
    cases hchanged : (normalizeButtonsArray toLowerCase buttons (itemsBtnFallback i)).changed with
    | true => simp [hvalue, hchanged] at h
    | false => simp [hchanged]
  | _ => rfl

theorem normalizeItems_assigns
    (hread : (current fields next).field "items" = (Value.obj fields).field "items") :
    Assigns "items" (normalizedItems toLowerCase ((Value.obj fields).field "items"))
      (current fields next)
      (current fields (normalizeItems toLowerCase (.obj fields) next)) := by
  unfold normalizeItems
  cases hvalue : (Value.obj fields).field "items" with
  | arr items =>
    have hitems : (items.zipIdx.map fun item => normalizeItem toLowerCase item.2 item.1).map (·.item) =
        items.zipIdx.map fun item => (normalizeItem toLowerCase item.2 item.1).item := by
      rw [List.map_map]
      rfl
    cases hchanged : (items.zipIdx.map fun item => normalizeItem toLowerCase item.2 item.1).any (·.changed) with
    | true =>
      simp only [hchanged, if_true, normalizedItems, hitems]
      exact assignCopy_assigns fields next (by decide) _
    | false =>
      have hsame : (items.zipIdx.map fun item => (normalizeItem toLowerCase item.2 item.1).item) = items := by
        rw [List.any_eq_false] at hchanged
        have hkeep : (items.zipIdx.map fun item => (normalizeItem toLowerCase item.2 item.1).item) =
            items.zipIdx.map (·.1) := by
          refine List.map_congr_left fun item hmem => normalizeItem_unchanged toLowerCase _ _ ?_
          simpa using hchanged _ (List.mem_map_of_mem hmem)
        rw [hkeep]
        exact List.zipIdx_map_fst 0 items
      simp only [hchanged, Bool.false_eq_true, if_false, normalizedItems, hsame]
      exact assigns_refl (hread.trans hvalue)
  | _ => exact assigns_refl (hread.trans hvalue)

theorem normalizeNodeButtonIds_obj (fields : List (String × Value)) :
    normalizeNodeButtonIds toLowerCase (.obj fields) = current fields
      (normalizeItems toLowerCase (.obj fields) (normalizeField toLowerCase (.obj fields) "itemButtons"
        itemBtnFallback (normalizeField toLowerCase (.obj fields) "buttons" btnFallback none))) := by
  have hcopy : ∀ next : Option (List (String × Value)),
      (next.map Value.obj).getD (.obj fields) = current fields next := by
    intro next
    cases next <;> rfl
  rw [← hcopy]
  rfl

/-- **The result**, read by key. -/
theorem normalizeNodeButtonIds_read (config : Value) :
    (normalizeNodeButtonIds toLowerCase config).field "buttons" =
        normalizedValue toLowerCase btnFallback (config.field "buttons") ∧
      (normalizeNodeButtonIds toLowerCase config).field "itemButtons" =
        normalizedValue toLowerCase itemBtnFallback (config.field "itemButtons") ∧
      (normalizeNodeButtonIds toLowerCase config).field "items" =
        normalizedItems toLowerCase (config.field "items") ∧
      otherFields buttonKeys (normalizeNodeButtonIds toLowerCase config) =
        otherFields buttonKeys config := by
  cases config with
  | obj fields =>
    have hbuttons := normalizeField_assigns toLowerCase fields none
      (show "buttons" ∈ buttonKeys by decide) btnFallback rfl
    have hitemButtons := normalizeField_assigns toLowerCase fields _
      (show "itemButtons" ∈ buttonKeys by decide) itemBtnFallback (hbuttons.read _ (by decide))
    have hitems := normalizeItems_assigns toLowerCase fields _
      ((hitemButtons.read _ (by decide)).trans (hbuttons.read _ (by decide)))
    rw [normalizeNodeButtonIds_obj]
    refine ⟨?_, ?_, hitems.written, ?_⟩
    · rw [hitems.read _ (by decide), hitemButtons.read _ (by decide), hbuttons.written]
    · rw [hitems.read _ (by decide), hitemButtons.written]
    · rw [hitems.fields, hitemButtons.fields, hbuttons.fields]
      rfl
  | arr items => exact ⟨rfl, rfl, rfl, rfl⟩
  | _ => exact ⟨rfl, rfl, rfl, rfl⟩

theorem normalizeItem_read (i : Nat) (item : Value) :
    (normalizeItem toLowerCase i item).item.field "buttons" =
      normalizedValue toLowerCase (itemsBtnFallback i) (item.field "buttons") := by
  unfold normalizeItem
  cases hvalue : item.field "buttons" with
  | arr buttons =>
    cases hchanged : (normalizeButtonsArray toLowerCase buttons (itemsBtnFallback i)).changed with
    | true =>
      simp only [hchanged, if_true, normalizedValue]
      rw [field_setKey, if_pos rfl]
    | false =>
      simp only [hchanged, Bool.false_eq_true, if_false, normalizedValue,
        normalizeButtonsArray_unchanged toLowerCase _ _ hchanged, hvalue]
  | _ => exact hvalue

theorem normalizeItem_keeps (i : Nat) (item : Value) :
    KeepsItem item (normalizeItem toLowerCase i item).item := by
  unfold normalizeItem
  cases hvalue : item.field "buttons" with
  | arr buttons =>
    cases hchanged : (normalizeButtonsArray toLowerCase buttons (itemsBtnFallback i)).changed with
    | true =>
      simp only [hchanged, if_true]
      exact ⟨otherFields_setKey (by decide) item.ownFields _, fun hno => absurd hvalue (hno buttons)⟩
    | false =>
      simp only [hchanged, Bool.false_eq_true, if_false]
      exact ⟨rfl, fun _ => rfl⟩
  | _ => exact ⟨rfl, fun _ => rfl⟩

theorem arrayAt_normalized {config out : Value} {key : String} {fallbackPrefix : Nat → String}
    (h : out.field key = normalizedValue toLowerCase fallbackPrefix (config.field key)) :
    arrayAt out key fallbackPrefix = (arrayAt config key fallbackPrefix).map (normalizedArray toLowerCase) := by
  unfold arrayAt
  rw [h]
  cases config.field key <;> rfl

theorem zipIdx_map_zipIdx {α β : Type} (f : α × Nat → β) (l : List α) :
    ∀ n, ((l.zipIdx n).map f).zipIdx n = (l.zipIdx n).map fun p => (f p, p.2) := by
  induction l with
  | nil => exact fun _ => rfl
  | cons a l ih =>
    intro n
    rw [List.zipIdx_cons, List.map_cons, List.zipIdx_cons, ih, List.map_cons]

/-- **Every array** of the node is treated by itself, in its place. -/
theorem buttonArrays_normalized (config : Value) :
    buttonArrays (normalizeNodeButtonIds toLowerCase config) =
      (buttonArrays config).map (normalizedArray toLowerCase) := by
  obtain ⟨hbuttons, hitemButtons, hitems, -⟩ := normalizeNodeButtonIds_read toLowerCase config
  have hitemArrays : itemArrays (normalizeNodeButtonIds toLowerCase config) =
      (itemArrays config).map (normalizedArray toLowerCase) := by
    unfold itemArrays
    rw [hitems]
    cases config.field "items" with
    | arr items =>
      simp only [normalizedItems]
      rw [zipIdx_map_zipIdx, List.flatMap_map, List.map_flatMap]
      refine List.flatMap_congr fun item _ => ?_
      exact arrayAt_normalized toLowerCase (normalizeItem_read toLowerCase item.2 item.1)
    | _ => rfl
  rw [buttonArrays, buttonArrays, arrayAt_normalized toLowerCase hbuttons,
    arrayAt_normalized toLowerCase hitemButtons, hitemArrays, List.map_append, List.map_append]

/-! ## 4. The names of the positions are port ids -/

theorem length_toDigits_of_index {i : Nat} (h : i < 2 ^ 32) : (Nat.toDigits 10 i).length ≤ 10 :=
  (Nat.length_toDigits_le_iff (by decide) (by decide)).mpr (Nat.lt_trans h (by decide))

theorem isPortIdSlug_numbered {before : String} (hall : before.toList.all isPortIdChar = true)
    (hlength : before.toList.length ≤ 54) {i : Nat} (hi : i < 2 ^ 32) :
    isPortIdSlug (before ++ toString i) = true := by
  have hlist : (before ++ toString i).toList = before.toList ++ Nat.toDigits 10 i := by simp
  have hchars := List.all_eq_true.mp hall
  have hdigits := length_toDigits_of_index hi
  have hpos : 0 < (Nat.toDigits 10 i).length := Nat.length_toDigits_pos
  refine isPortIdSlug_iff.mpr ?_
  rw [hlist, List.length_append]
  refine ⟨by omega, by omega, ?_⟩
  intro c hc
  rcases List.mem_append.mp hc with hc | hc
  · exact hchars c hc
  · exact isPortIdChar_of_mem_toDigits hc

theorem itemsBtnFallback_valid {i j : Nat} (hi : i < 2 ^ 32) (hj : j < 2 ^ 32) :
    isPortIdSlug (itemsBtnFallback i j) = true := by
  have hlist : ("items_" ++ toString i ++ "_btn_").toList =
      "items_".toList ++ (Nat.toDigits 10 i ++ "_btn_".toList) := by simp
  have hdigits := length_toDigits_of_index hi
  have hleftChars : ∀ c ∈ "items_".toList, isPortIdChar c = true :=
    List.all_eq_true.mp (by decide)
  have hrightChars : ∀ c ∈ "_btn_".toList, isPortIdChar c = true :=
    List.all_eq_true.mp (by decide)
  refine isPortIdSlug_numbered ?_ ?_ hj
  · rw [hlist, List.all_eq_true]
    intro c hc
    rcases List.mem_append.mp hc with hc | hc
    · exact hleftChars c hc
    · rcases List.mem_append.mp hc with hc | hc
      · exact isPortIdChar_of_mem_toDigits hc
      · exact hrightChars c hc
  · rw [hlist, List.length_append, List.length_append]
    have hleft : "items_".toList.length = 6 := by decide
    have hright : "_btn_".toList.length = 5 := by decide
    omega

theorem fallbackPrefix_valid {config : Value} (hfit : ArraysFit config) {array : ButtonArray}
    (harray : array ∈ buttonArrays config) {i : Nat} (hi : i < 2 ^ 32) :
    isPortIdSlug (array.fallbackPrefix i) = true := by
  have hone : ∀ {v : Value} {key : String} {fallbackPrefix : Nat → String},
      array ∈ arrayAt v key fallbackPrefix → array.fallbackPrefix = fallbackPrefix := by
    intro v key fallbackPrefix hmem
    unfold arrayAt at hmem
    cases hvalue : v.field key with
    | arr buttons =>
      rw [hvalue] at hmem
      rw [List.mem_singleton.mp hmem]
    | _ => simp [hvalue] at hmem
  rcases List.mem_append.mp harray with hmem | hmem
  · rcases List.mem_append.mp hmem with hmem | hmem
    · rw [hone hmem]
      exact isPortIdSlug_numbered (by decide) (by decide) hi
    · rw [hone hmem]
      exact isPortIdSlug_numbered (by decide) (by decide) hi
  · unfold itemArrays at hmem
    cases hitems : config.field "items" with
    | arr items =>
      simp only [hitems] at hmem
      obtain ⟨item, hitem, hmem⟩ := List.mem_flatMap.mp hmem
      rw [hone hmem]
      refine itemsBtnFallback_valid (Nat.lt_trans ?_ (hfit.items items hitems)) hi
      exact (List.getElem?_eq_some_iff.mp (List.mem_zipIdx_iff_getElem?.mp hitem)).1
    | _ => simp [hitems] at hmem

/-! ## 5. When the ids of a node are apart -/

variable {config : Value}

/-- What one array of the node becomes. -/
theorem normalizedArray_spec (hfit : ArraysFit config) {array : ButtonArray}
    (harray : array ∈ buttonArrays config) : ∃ names, array.Named toLowerCase names ∧
      (normalizedArray toLowerCase array).buttons.map (·.field "id") = names.map .str ∧
      List.Forall₂ KeepsButton array.buttons (normalizedArray toLowerCase array).buttons := by
  have hlength := hfit.buttons array harray
  have htaken : (array.buttons.filterMap explicitId).length ≤ array.buttons.length :=
    List.length_filterMap_le _ _
  exact normalizeButtonsFrom_spec toLowerCase
    (fun i hi => fallbackPrefix_valid hfit harray hi) array.buttons 0 _ (by omega) (by omega)

theorem buttonAt_normalized (pos : Nat × Nat) :
    buttonAt (normalizeNodeButtonIds toLowerCase config) pos =
      (buttonArrays config)[pos.1]?.bind fun array =>
        (normalizedArray toLowerCase array).buttons[pos.2]? := by
  rw [buttonAt, buttonArrays_normalized, List.getElem?_map]
  cases (buttonArrays config)[pos.1]? <;> rfl

theorem forall₂_getElem? {α β : Type} {r : α → β → Prop} {l : List α} {l' : List β}
    (h : List.Forall₂ r l l') {i : Nat} {a : α} {b : β} (ha : l[i]? = some a) (hb : l'[i]? = some b) :
    r a b := by
  induction h generalizing i with
  | nil => simp at ha
  | cons hhead _ ih =>
    cases i with
    | zero =>
      obtain rfl := Option.some.inj ha
      obtain rfl := Option.some.inj hb
      exact hhead
    | succ i => exact ih ha hb

theorem forall₂_zipIdx_map {α β : Type} {r : α → β → Prop} (f : α × Nat → β) (h : ∀ a i, r a (f (a, i)))
    (l : List α) : ∀ n, List.Forall₂ r l ((l.zipIdx n).map f) := by
  induction l with
  | nil => exact fun _ => .nil
  | cons a l ih =>
    intro n
    rw [List.zipIdx_cons, List.map_cons]
    exact .cons (h a n) (ih (n + 1))

/-- The id that stands at a place afterwards is the name of that place in its array. -/
theorem id_of_buttonAt {array : ButtonArray} {names : List String} {pos : Nat × Nat} {b' : Value}
    (harray : (buttonArrays config)[pos.1]? = some array)
    (hids : (normalizedArray toLowerCase array).buttons.map (·.field "id") = names.map .str)
    (hb' : buttonAt (normalizeNodeButtonIds toLowerCase config) pos = some b') :
    ∃ id, names[pos.2]? = some id ∧ b'.field "id" = .str id := by
  rw [buttonAt_normalized, harray] at hb'
  have hread := congrArg (fun ids : List Value => ids[pos.2]?) hids
  simp only [List.getElem?_map] at hread
  have hb'' : (normalizedArray toLowerCase array).buttons[pos.2]? = some b' := hb'
  rw [hb'', Option.map_some] at hread
  cases hname : names[pos.2]? with
  | none => simp [hname] at hread
  | some id =>
    rw [hname, Option.map_some] at hread
    exact ⟨id, rfl, Option.some.inj hread⟩

/-- And the other way round. -/
theorem buttonAt_of_name (pos : Nat × Nat) {array : ButtonArray} {names : List String} {id : String}
    (harray : (buttonArrays config)[pos.1]? = some array)
    (hids : (normalizedArray toLowerCase array).buttons.map (·.field "id") = names.map .str)
    (hname : names[pos.2]? = some id) :
    ∃ b', buttonAt (normalizeNodeButtonIds toLowerCase config) pos = some b' ∧
      b'.field "id" = .str id := by
  have hread := congrArg (fun ids : List Value => ids[pos.2]?) hids
  simp only [List.getElem?_map, hname, Option.map_some] at hread
  cases hb' : (normalizedArray toLowerCase array).buttons[pos.2]? with
  | none => simp [hb'] at hread
  | some b' =>
    rw [hb', Option.map_some] at hread
    refine ⟨b', ?_, Option.some.inj hread⟩
    rw [buttonAt_normalized, harray]
    exact hb'

theorem explicitId_reserved (array : ButtonArray) :
    ∀ b ∈ array.buttons, ∀ id, explicitId b = some id → id ∈ array.buttons.filterMap explicitId :=
  fun b hb _ hid => List.mem_filterMap.mpr ⟨b, hb, hid⟩

/-- Made-up ids are apart in the whole node when no array takes a name of another. -/
theorem distinct_of_noSharedNames (hfit : ArraysFit config) (h : NoSharedNames toLowerCase config)
    (pos pos' : Nat × Nat) (hne : pos ≠ pos') (b b' c' : Value) (hb : buttonAt config pos = some b)
    (hid : explicitId b = none)
    (hb' : buttonAt (normalizeNodeButtonIds toLowerCase config) pos = some b')
    (hc' : buttonAt (normalizeNodeButtonIds toLowerCase config) pos' = some c') :
    b'.field "id" ≠ c'.field "id" := by
  obtain ⟨p, i⟩ := pos
  obtain ⟨q, j⟩ := pos'
  obtain ⟨array, harray, hbutton⟩ := Option.bind_eq_some_iff.mp hb
  obtain ⟨array', harray', -⟩ :=
    Option.bind_eq_some_iff.mp ((buttonAt_normalized toLowerCase (q, j)).symm.trans hc')
  obtain ⟨names, hnames, hids, -⟩ :=
    normalizedArray_spec toLowerCase hfit (List.mem_of_getElem? harray)
  obtain ⟨names', hnames', hids', -⟩ :=
    normalizedArray_spec toLowerCase hfit (List.mem_of_getElem? harray')
  obtain ⟨id, hname, hfield⟩ := id_of_buttonAt toLowerCase harray hids hb'
  obtain ⟨id', hname', hfield'⟩ := id_of_buttonAt toLowerCase harray' hids' hc'
  rw [hfield, hfield']
  intro heq
  obtain rfl := Value.str.inj heq
  by_cases hpq : p = q
  · subst hpq
    obtain rfl := Option.some.inj (harray.symm.trans harray')
    obtain rfl := hnames.unique hnames'
    have hij : i ≠ j := fun hij => hne (by rw [hij])
    exact hnames.named_ne (explicitId_reserved array) hij hbutton hid hname hname' rfl
  · exact h p q array array' names names' hpq harray harray' hnames hnames' i b id hbutton hid hname
      (List.mem_of_getElem? hname')

/-- A config whose buttons all have a slug for an id is left alone. -/
theorem normalizeNodeButtonIds_stable (config : Value)
    (hvalid : ∀ array ∈ buttonArrays config, ∀ b ∈ array.buttons,
      ∃ id, b.field "id" = .str id ∧ isPortIdSlug id = true) :
    normalizeNodeButtonIds toLowerCase config = config := by
  have harrayAt : ∀ {v : Value} {key : String} {fallbackPrefix : Nat → String} {buttons : List Value},
      v.field key = .arr buttons →
      (∀ array ∈ arrayAt v key fallbackPrefix, array ∈ buttonArrays config) →
      (normalizeButtonsArray toLowerCase buttons fallbackPrefix).changed = false := by
    intro v key fallbackPrefix buttons hvalue hsub
    refine normalizeButtonsFrom_stable toLowerCase buttons ?_ 0 _
    refine hvalid ⟨fallbackPrefix, buttons⟩ (hsub _ ?_)
    simp [arrayAt, hvalue]
  have hfield : ∀ {key : String} {fallbackPrefix : Nat → String} (next : Option (List (String × Value))),
      (∀ array ∈ arrayAt config key fallbackPrefix, array ∈ buttonArrays config) →
      normalizeField toLowerCase config key fallbackPrefix next = next := by
    intro key fallbackPrefix next hsub
    unfold normalizeField
    cases hvalue : config.field key with
    | arr buttons => simp [harrayAt hvalue hsub]
    | _ => rfl
  have hitems : ∀ next : Option (List (String × Value)),
      normalizeItems toLowerCase config next = next := by
    intro next
    unfold normalizeItems
    cases hvalue : config.field "items" with
    | arr items =>
      have hunchanged : (items.zipIdx.map fun item => normalizeItem toLowerCase item.2 item.1).any
          (·.changed) = false := by
        rw [List.any_eq_false]
        intro out hout
        obtain ⟨item, hmem, rfl⟩ := List.mem_map.mp hout
        unfold normalizeItem
        cases hbuttons : item.1.field "buttons" with
        | arr buttons =>
          have hsub : ∀ array ∈ arrayAt item.1 "buttons" (itemsBtnFallback item.2),
              array ∈ buttonArrays config := by
            intro array harray
            refine List.mem_append_right _ ?_
            simp only [itemArrays, hvalue]
            exact List.mem_flatMap.mpr ⟨item, hmem, harray⟩
          simp [harrayAt hbuttons hsub]
        | _ => simp
      simp [hunchanged]
    | _ => rfl
  unfold normalizeNodeButtonIds
  dsimp only
  rw [hfield none fun array h => List.mem_append_left _ (List.mem_append_left _ h),
    hfield none fun array h => List.mem_append_left _ (List.mem_append_right _ h), hitems]
  simp

/-- **The button ids of a node.** Normalisation does everything it is for exactly when no made-up id is
    a name of another array. -/
theorem normalizes_iff (config : Value) (hfit : ArraysFit config) :
    Normalizes toLowerCase config (normalizeNodeButtonIds toLowerCase config) ↔
      NoSharedNames toLowerCase config := by
  obtain ⟨hbuttons, hitemButtons, hitems, hfields⟩ := normalizeNodeButtonIds_read toLowerCase config
  constructor
  · intro h p q array array' names names' hpq harray harray' hnames hnames' i b id hbutton hid hname
      hshared
    obtain ⟨j, hj⟩ := List.getElem?_of_mem hshared
    obtain ⟨names₀, hnames₀, hids, -⟩ :=
      normalizedArray_spec toLowerCase hfit (List.mem_of_getElem? harray)
    obtain rfl := hnames₀.unique hnames
    obtain ⟨names₀', hnames₀', hids', -⟩ :=
      normalizedArray_spec toLowerCase hfit (List.mem_of_getElem? harray')
    obtain rfl := hnames₀'.unique hnames'
    obtain ⟨b', hb', hfield⟩ := buttonAt_of_name toLowerCase (p, i) harray hids hname
    obtain ⟨c', hc', hfield'⟩ := buttonAt_of_name toLowerCase (q, j) harray' hids' hj
    refine h.distinct (p, i) (q, j) (fun heq => hpq (congrArg Prod.fst heq)) b b' c' ?_ hid hb' hc'
      (hfield.trans hfield'.symm)
    rw [buttonAt, harray]
    exact hbutton
  · intro h
    have hkeeps : ∀ pos b b', buttonAt config pos = some b →
        buttonAt (normalizeNodeButtonIds toLowerCase config) pos = some b' → KeepsButton b b' := by
      intro pos b b' hb hb'
      obtain ⟨array, harray, hbutton⟩ := Option.bind_eq_some_iff.mp hb
      obtain ⟨-, -, -, hall⟩ := normalizedArray_spec toLowerCase hfit (List.mem_of_getElem? harray)
      rw [buttonAt_normalized, harray] at hb'
      exact forall₂_getElem? hall hbutton hb'
    refine ⟨?_, hkeeps, distinct_of_noSharedNames toLowerCase hfit h, hfields, ?_, ?_, ?_⟩
    · intro pos
      rw [buttonAt_normalized, buttonAt]
      cases harray : (buttonArrays config)[pos.1]? with
      | none => rfl
      | some array =>
        obtain ⟨-, -, -, hall⟩ := normalizedArray_spec toLowerCase hfit (List.mem_of_getElem? harray)
        rw [Bool.eq_iff_iff]
        simp [hall.length_eq]
    · intro key hkey hno
      have hvalue : ∀ fallbackPrefix, normalizedValue toLowerCase fallbackPrefix (config.field key) =
          config.field key := by
        intro fallbackPrefix
        cases hvalue : config.field key with
        | arr values => exact absurd hvalue (hno values)
        | _ => rfl
      have hitemsValue : normalizedItems toLowerCase (config.field key) = config.field key := by
        cases hvalue : config.field key with
        | arr values => exact absurd hvalue (hno values)
        | _ => rfl
      simp only [buttonKeys, List.mem_cons, List.not_mem_nil, or_false] at hkey
      rcases hkey with rfl | rfl | rfl
      · rw [hbuttons, hvalue]
      · rw [hitemButtons, hvalue]
      · rw [hitems, hitemsValue]
    · intro items hvalue
      rw [hvalue] at hitems
      refine ⟨_, hitems, forall₂_zipIdx_map _ ?_ items 0⟩
      exact fun item i => normalizeItem_keeps toLowerCase i item
    · refine normalizeNodeButtonIds_stable toLowerCase _ ?_
      intro array' harray' b' hb'
      rw [buttonArrays_normalized] at harray'
      obtain ⟨array, harray, rfl⟩ := List.mem_map.mp harray'
      obtain ⟨-, -, -, hall⟩ := normalizedArray_spec toLowerCase hfit harray
      obtain ⟨i, hi⟩ := List.getElem?_of_mem hb'
      have hlt : i < array.buttons.length := by
        rw [hall.length_eq]
        exact (List.getElem?_eq_some_iff.mp hi).1
      exact (forall₂_getElem? hall (List.getElem?_eq_getElem hlt) hi).valid

/-- A node with one button below all items and one for each item, labelled alike, without ids. -/
def twoSubmits : Value :=
  .obj [("buttons", .arr [.obj [("label", .str "Submit"), ("type", .str "port")]]),
    ("itemButtons", .arr [.obj [("label", .str "Submit"), ("type", .str "port")]])]

theorem twoSubmits_fit : ArraysFit twoSubmits := by
  refine ⟨?_, fun items h => by cases h⟩
  intro array harray
  have hlength : ∀ array ∈ buttonArrays twoSubmits, array.buttons.length = 1 := by
    intro array harray
    rcases List.mem_cons.mp harray with rfl | harray
    · rfl
    · rw [List.mem_singleton.mp harray]
      rfl
  rw [hlength array harray]
  decide

/-- Both buttons get the id `submit`: one output port for the two. -/
theorem twoSubmits_share_id :
    (buttonAt (normalizeNodeButtonIds String.toLower twoSubmits) (0, 0)).map (·.field "id") =
        some (.str "submit") ∧
      (buttonAt (normalizeNodeButtonIds String.toLower twoSubmits) (1, 0)).map (·.field "id") =
        some (.str "submit") ∧
      ¬ Normalizes String.toLower twoSubmits (normalizeNodeButtonIds String.toLower twoSubmits) := by
  have hfirst : (buttonAt (normalizeNodeButtonIds String.toLower twoSubmits) (0, 0)).map (·.field "id") =
      some (.str "submit") := by decide +kernel
  have hsecond : (buttonAt (normalizeNodeButtonIds String.toLower twoSubmits) (1, 0)).map (·.field "id") =
      some (.str "submit") := by decide +kernel
  refine ⟨hfirst, hsecond, ?_⟩
  intro h
  obtain ⟨b', hb', hid⟩ := Option.map_eq_some_iff.mp hfirst
  obtain ⟨c', hc', hid'⟩ := Option.map_eq_some_iff.mp hsecond
  exact h.distinct (0, 0) (1, 0) (by decide) _ b' c' rfl (by decide +kernel) hb' hc' (hid.trans hid'.symm)

/-- The condition at a node: it fails there, as the ids do. -/
theorem normalizes_iff_twoSubmits :
    Normalizes String.toLower twoSubmits (normalizeNodeButtonIds String.toLower twoSubmits) ↔
      NoSharedNames String.toLower twoSubmits :=
  normalizes_iff String.toLower twoSubmits twoSubmits_fit

end Clemvion.Nodes
