import Clemvion.Nodes.ButtonSlug

/-!
# ButtonNames — the ids that one array of buttons ends up with

The ids that are made up are described without the program: each is the first form of its seed,
numbered 1, 2, 3, …, that no usable id of the array and no earlier made-up id has.  This fixes the
ids of an array from its buttons.
-/

open Clemvion.Js Clemvion.Js.Value Clemvion.Library

namespace Clemvion.Nodes

/-! ## 1. The first free form of a seed -/

def numberedSlug (seed : String) (n : Nat) : String := if n = 1 then seed else suffixed seed n

/-- `id` is the first numbered form of `seed` that is not used. -/
def FirstFree (seed : String) (used : List String) (id : String) : Prop :=
  ∃ n, 1 ≤ n ∧ id = numberedSlug seed n ∧ id ∉ used ∧ ∀ m, 1 ≤ m → m < n → numberedSlug seed m ∈ used

theorem numberedSlug_of_two_le {seed : String} {n : Nat} (h : 2 ≤ n) :
    numberedSlug seed n = suffixed seed n := if_neg (by omega)

theorem firstFree_suffixed (base : String) (taken : List String) :
    2 ≤ firstFree (suffixed base) taken 2 ∧ firstFree (suffixed base) taken 2 ≤ 2 + taken.length ∧
      suffixed base (firstFree (suffixed base) taken 2) ∉ taken ∧
      ∀ m, 2 ≤ m → m < firstFree (suffixed base) taken 2 → suffixed base m ∈ taken :=
  firstFree_spec (fun _ _ _ _ => suffixed_injective base) taken

/-- `uniqueSlug` finds it. -/
theorem uniqueSlug_firstFree (base : String) (taken : List String) :
    FirstFree base taken (uniqueSlug base taken) := by
  unfold uniqueSlug
  by_cases hbase : base ∈ taken
  · rw [if_neg (not_not_intro hbase)]
    obtain ⟨hle, -, hfree, hbelow⟩ := firstFree_suffixed base taken
    refine ⟨_, by omega, (numberedSlug_of_two_le hle).symm, hfree, ?_⟩
    intro m hm hlt
    by_cases hone : m = 1
    · rw [numberedSlug, if_pos hone]
      exact hbase
    · rw [numberedSlug_of_two_le (by omega)]
      exact hbelow m (by omega) hlt
  · rw [if_pos hbase]
    exact ⟨1, Nat.le_refl _, rfl, hbase, fun m hm hlt => absurd hm (by omega)⟩

theorem FirstFree.unique {seed : String} {used : List String} {id id' : String}
    (h : FirstFree seed used id) (h' : FirstFree seed used id') : id = id' := by
  obtain ⟨n, hn, rfl, hfree, hbelow⟩ := h
  obtain ⟨n', hn', rfl, hfree', hbelow'⟩ := h'
  rcases Nat.lt_trichotomy n n' with hlt | rfl | hlt
  · exact absurd (hbelow' n hn hlt) hfree
  · rfl
  · exact absurd (hbelow n' hn' hlt) hfree'

theorem FirstFree.notMem {seed : String} {used : List String} {id : String}
    (h : FirstFree seed used id) : id ∉ used := by
  obtain ⟨_, -, -, hfree, -⟩ := h
  exact hfree

theorem uniqueSlug_valid {base : String} (hbase : isPortIdSlug base = true) {taken : List String}
    (htaken : taken.length + 2 < 10 ^ 60) : isPortIdSlug (uniqueSlug base taken) = true := by
  unfold uniqueSlug
  split
  · exact hbase
  · obtain ⟨-, hle, -, -⟩ := firstFree_suffixed base taken
    exact suffixed_valid hbase (by omega)

/-! ## 2. The ids of an array -/

/-- The ids of the buttons from position `i` on, when the ids in `used` are used up. -/
inductive Names (toLowerCase : String → String) (fallbackPrefix : Nat → String) :
    Nat → List String → List Value → List String → Prop
  | nil (i : Nat) (used : List String) : Names toLowerCase fallbackPrefix i used [] []
  | kept {i : Nat} {used : List String} {b : Value} {rest : List Value} {id : String}
      {names : List String} (hid : explicitId b = some id)
      (htail : Names toLowerCase fallbackPrefix (i + 1) used rest names) :
      Names toLowerCase fallbackPrefix i used (b :: rest) (id :: names)
  | named {i : Nat} {used : List String} {b : Value} {rest : List Value} {id : String}
      {names : List String} (hid : explicitId b = none)
      (hfree : FirstFree (slugSeed toLowerCase (fallbackPrefix i) b) used id)
      (htail : Names toLowerCase fallbackPrefix (i + 1) (id :: used) rest names) :
      Names toLowerCase fallbackPrefix i used (b :: rest) (id :: names)

namespace Names

variable {toLowerCase : String → String} {fallbackPrefix : Nat → String} {i : Nat} {used : List String}
  {buttons : List Value} {names : List String}

theorem length_eq (h : Names toLowerCase fallbackPrefix i used buttons names) :
    names.length = buttons.length := by
  induction h with
  | nil => rfl
  | kept _ _ ih => rw [List.length_cons, List.length_cons, ih]
  | named _ _ _ ih => rw [List.length_cons, List.length_cons, ih]

theorem unique {names' : List String} (h : Names toLowerCase fallbackPrefix i used buttons names)
    (h' : Names toLowerCase fallbackPrefix i used buttons names') : names = names' := by
  induction h generalizing names' with
  | nil =>
    cases h'
    rfl
  | kept hid _ ih =>
    cases h' with
    | kept hid' htail' =>
      rw [hid] at hid'
      rw [Option.some.inj hid', ih htail']
    | named hid' _ _ =>
      rw [hid] at hid'
      cases hid'
  | named hid hfree _ ih =>
    cases h' with
    | kept hid' _ =>
      rw [hid] at hid'
      cases hid'
    | named _ hfree' htail' =>
      obtain rfl := hfree.unique hfree'
      rw [ih htail']

/-- A usable id is kept. -/
theorem kept_at (h : Names toLowerCase fallbackPrefix i used buttons names) {k : Nat} {b : Value}
    {id : String} (hb : buttons[k]? = some b) (hid : explicitId b = some id) : names[k]? = some id := by
  induction h generalizing k with
  | nil => simp at hb
  | kept hid' _ ih =>
    cases k with
    | zero =>
      obtain rfl := Option.some.inj hb
      rw [hid] at hid'
      exact hid'.symm
    | succ k => exact ih hb
  | named hid' _ _ ih =>
    cases k with
    | zero =>
      obtain rfl := Option.some.inj hb
      rw [hid] at hid'
      cases hid'
    | succ k => exact ih hb

/-- A made-up id was not used before. -/
theorem named_notMem (h : Names toLowerCase fallbackPrefix i used buttons names) {k : Nat} {b : Value}
    {id : String} (hb : buttons[k]? = some b) (hid : explicitId b = none) (hname : names[k]? = some id) :
    id ∉ used := by
  induction h generalizing k with
  | nil => simp at hb
  | kept hid' _ ih =>
    cases k with
    | zero =>
      obtain rfl := Option.some.inj hb
      rw [hid] at hid'
      cases hid'
    | succ k => exact ih hb hname
  | named _ hfree _ ih =>
    cases k with
    | zero =>
      obtain rfl := Option.some.inj hname
      exact hfree.notMem
    | succ k =>
      intro hmem
      exact ih hb hname (List.mem_cons_of_mem _ hmem)

/-- **Within an array** a made-up id is the id of one button only. -/
theorem named_ne (h : Names toLowerCase fallbackPrefix i used buttons names)
    (hreserved : ∀ b ∈ buttons, ∀ id, explicitId b = some id → id ∈ used) {k l : Nat} (hne : k ≠ l)
    {b : Value} {id id' : String} (hb : buttons[k]? = some b) (hid : explicitId b = none)
    (hname : names[k]? = some id) (hname' : names[l]? = some id') : id ≠ id' := by
  induction h generalizing k l with
  | nil => simp at hb
  | @kept i used c rest e names hid' htail ih =>
    have hrest : ∀ b ∈ rest, ∀ id, explicitId b = some id → id ∈ used := fun b hmem =>
      hreserved b (List.mem_cons_of_mem _ hmem)
    cases k with
    | zero =>
      obtain rfl := Option.some.inj hb
      rw [hid] at hid'
      cases hid'
    | succ k =>
      cases l with
      | zero =>
        obtain rfl := Option.some.inj hname'
        have hused := hreserved c List.mem_cons_self _ hid'
        exact (ne_of_mem_of_not_mem hused (htail.named_notMem hb hid hname)).symm
      | succ l => exact ih hrest (by omega) hb hname hname'
  | @named i used c rest e names hid' hfree htail ih =>
    have hrest : ∀ b ∈ rest, ∀ id, explicitId b = some id → id ∈ e :: used := fun b hmem id hid =>
      List.mem_cons_of_mem _ (hreserved b (List.mem_cons_of_mem _ hmem) id hid)
    cases k with
    | zero =>
      obtain rfl := Option.some.inj hname
      cases l with
      | zero => exact absurd rfl hne
      | succ l =>
        -- the later button has a usable id, which was reserved, or a made-up one, which came after
        have hlater : l < rest.length := by
          rw [← htail.length_eq]
          exact Nat.lt_of_succ_lt_succ (List.getElem?_eq_some_iff.mp hname').1
        obtain ⟨c', hc'⟩ : ∃ c', rest[l]? = some c' := ⟨_, List.getElem?_eq_getElem hlater⟩
        cases hexplicit : explicitId c' with
        | some e' =>
          have hsame := htail.kept_at hc' hexplicit
          rw [List.getElem?_cons_succ] at hname'
          rw [hsame] at hname'
          obtain rfl := Option.some.inj hname'
          have hused := hreserved c' (List.mem_cons_of_mem _ (List.mem_of_getElem? hc')) _ hexplicit
          exact (ne_of_mem_of_not_mem hused hfree.notMem).symm
        | none =>
          have hfresh := htail.named_notMem hc' hexplicit hname'
          rintro rfl
          exact hfresh List.mem_cons_self
    | succ k =>
      cases l with
      | zero =>
        obtain rfl := Option.some.inj hname'
        have hfresh := htail.named_notMem hb hid hname
        rintro rfl
        exact hfresh List.mem_cons_self
      | succ l => exact ih hrest (by omega) hb hname hname'

end Names

/-! ## 3. What the program makes of an array -/

/-- The own properties of a value that are not named in `keys`. -/
def otherFields (keys : List String) (v : Value) : List (String × Value) :=
  v.ownFields.filter fun field => field.1 ∉ keys

theorem filter_overwrite {keys : List String} {key : String} (hkey : key ∈ keys)
    (fields : List (String × Value)) (v : Value) :
    (fields.map fun field => if field.1 = key then (key, v) else field).filter
      (fun field => field.1 ∉ keys) = fields.filter fun field => field.1 ∉ keys := by
  induction fields with
  | nil => rfl
  | cons field rest ih =>
    by_cases hfield : field.1 = key
    · rw [List.map_cons, if_pos hfield, List.filter_cons_of_neg (by simpa using hkey),
        List.filter_cons_of_neg (by simpa [hfield] using hkey), ih]
    · rw [List.map_cons, if_neg hfield, List.filter_cons, List.filter_cons, ih]

theorem otherFields_setKey {keys : List String} {key : String} (hkey : key ∈ keys)
    (fields : List (String × Value)) (v : Value) :
    otherFields keys (.obj (setKey fields key v)) = otherFields keys (.obj fields) := by
  simp only [otherFields, ownFields, setKey]
  split
  · exact filter_overwrite hkey fields v
  · rw [List.filter_append, List.filter_cons_of_neg (by simpa using hkey), List.filter_nil,
      List.append_nil]

/-- What becomes of one button. -/
structure KeepsButton (b b' : Value) : Prop where
  valid : ∃ id, b'.field "id" = .str id ∧ isPortIdSlug id = true
  kept : ∀ id, explicitId b = some id → b'.field "id" = .str id
  fields : b.isObject = true → b'.isObject = true ∧ otherFields ["id"] b' = otherFields ["id"] b
  /-- An entry that is no object is replaced by one that has nothing but an id. -/
  entry : b.isObject = false → otherFields ["id"] b' = []

theorem isObject_of_explicitId {b : Value} {id : String} (h : explicitId b = some id) :
    ∃ fields, b = .obj fields := by
  cases b with
  | obj fields => exact ⟨fields, rfl⟩
  | _ => cases h

theorem isPortIdSlug_of_explicitId {b : Value} {id : String} (h : explicitId b = some id) :
    isPortIdSlug id = true := by
  unfold explicitId at h
  cases hid : b.field "id" with
  | str s =>
    rw [hid] at h
    by_cases hvalid : isValidStablePortId (.str s) = true
    · simp only [hvalid, if_true, Option.some.injEq] at h
      rw [isValidStablePortId, Bool.and_eq_true] at hvalid
      exact h ▸ hvalid.2
    · simp [hvalid] at h
  | _ => simp [hid] at h

theorem explicitId_of_slug {b : Value} {id : String} (hid : b.field "id" = .str id)
    (hslug : isPortIdSlug id = true) : explicitId b = some id := by
  simp only [explicitId, hid, isValidStablePortId_of_slug hslug, if_true, trim_of_slug hslug]

theorem slugSeed_of_not_object (toLowerCase : String → String) (fallback : String) {b : Value}
    (h : b.isObject = false) : slugSeed toLowerCase fallback b = fallback := by
  cases b <;> first | rfl | cases h

variable (toLowerCase : String → String) {fallback : String} (taken : List String) {b : Value}

variable (fallback) in
/-- A button with a usable id. -/
theorem normalizeButton_kept {id : String} (hid : explicitId b = some id) :
    (normalizeButton toLowerCase fallback taken b).taken = taken ∧
      (normalizeButton toLowerCase fallback taken b).button.field "id" = .str id ∧
      KeepsButton b (normalizeButton toLowerCase fallback taken b).button := by
  obtain ⟨fields, rfl⟩ := isObject_of_explicitId hid
  have hslug := isPortIdSlug_of_explicitId hid
  simp only [normalizeButton, isObject, Bool.not_true, Bool.false_eq_true, if_false, hid]
  by_cases hsame : Value.str id = (Value.obj fields).field "id"
  · rw [if_neg (not_not_intro hsame)]
    refine ⟨rfl, hsame.symm, ⟨id, hsame.symm, hslug⟩, ?_, fun hobj => ⟨hobj, rfl⟩, ?_⟩
    · intro id' hid'
      rw [hid] at hid'
      rw [← hsame, Option.some.inj hid']
    · exact fun hno => absurd hno (by simp [isObject])
  · rw [if_pos hsame]
    have hfield : (Value.obj (setKey fields "id" (.str id))).field "id" = .str id := by
      rw [field_setKey, if_pos rfl]
    refine ⟨rfl, hfield, ⟨id, hfield, hslug⟩, ?_, ?_, ?_⟩
    · intro id' hid'
      rw [hid] at hid'
      rw [← Option.some.inj hid']
      exact hfield
    · exact fun _ => ⟨rfl, otherFields_setKey (by decide) fields (.str id)⟩
    · exact fun hno => absurd hno (by simp [isObject])

/-- A button that gets an id. -/
theorem normalizeButton_named (hid : explicitId b = none) (hfallback : isPortIdSlug fallback = true)
    (htaken : taken.length + 2 < 10 ^ 60) : ∃ id,
      FirstFree (slugSeed toLowerCase fallback b) taken id ∧
      (normalizeButton toLowerCase fallback taken b).taken = id :: taken ∧
      (normalizeButton toLowerCase fallback taken b).button.field "id" = .str id ∧
      KeepsButton b (normalizeButton toLowerCase fallback taken b).button := by
  refine ⟨uniqueSlug (slugSeed toLowerCase fallback b) taken, uniqueSlug_firstFree _ _, ?_⟩
  have hslug := uniqueSlug_valid (slugSeed_valid toLowerCase hfallback b) htaken
  cases hobj : b.isObject with
  | false =>
    simp only [normalizeButton, hobj, Bool.not_false, if_true,
      slugSeed_of_not_object toLowerCase fallback hobj] at hslug ⊢
    refine ⟨trivial, rfl, ⟨_, rfl, hslug⟩, fun id hid' => ?_, fun hyes => ?_, fun _ => rfl⟩
    · rw [hid] at hid'
      cases hid'
    · rw [hobj] at hyes
      cases hyes
  | true =>
    simp only [normalizeButton, hobj, Bool.not_true, Bool.false_eq_true, if_false, hid]
    have hfield : (Value.obj (setKey b.ownFields "id"
        (.str (uniqueSlug (slugSeed toLowerCase fallback b) taken)))).field "id" =
        .str (uniqueSlug (slugSeed toLowerCase fallback b) taken) := by
      rw [field_setKey, if_pos rfl]
    refine ⟨trivial, hfield, ⟨_, hfield, hslug⟩, fun id hid' => ?_, fun _ => ⟨rfl, ?_⟩, fun hno => ?_⟩
    · rw [hid] at hid'
      cases hid'
    · exact otherFields_setKey (by decide) b.ownFields _
    · rw [hobj] at hno
      cases hno

/-- **One array.** Its ids are the names of its buttons, and each button is kept. -/
theorem normalizeButtonsFrom_spec {fallbackPrefix : Nat → String}
    (hinitial : ∀ i < 2 ^ 32, isPortIdSlug (fallbackPrefix i) = true) (buttons : List Value) :
    ∀ i taken, i + buttons.length ≤ 2 ^ 32 → taken.length ≤ 2 ^ 32 + i →
      ∃ names, Names toLowerCase fallbackPrefix i taken buttons names ∧
        (normalizeButtonsFrom toLowerCase fallbackPrefix i taken buttons).buttons.map (·.field "id") =
          names.map .str ∧
        List.Forall₂ KeepsButton buttons
          (normalizeButtonsFrom toLowerCase fallbackPrefix i taken buttons).buttons := by
  induction buttons with
  | nil => exact fun i taken _ _ => ⟨[], .nil i taken, rfl, .nil⟩
  | cons b rest ih =>
    intro i taken hlength htaken
    rw [List.length_cons] at hlength
    cases hid : explicitId b with
    | some id =>
      obtain ⟨hsame, hfield, hkeeps⟩ :=
        normalizeButton_kept toLowerCase (fallbackPrefix i) taken hid
      obtain ⟨names, hnames, hids, hall⟩ := ih (i + 1) taken (by omega) (by omega)
      refine ⟨id :: names, .kept hid hnames, ?_, ?_⟩
      · simp only [normalizeButtonsFrom, List.map_cons, hsame, hfield, hids]
      · simp only [normalizeButtonsFrom, hsame]
        exact .cons hkeeps hall
    | none =>
      obtain ⟨id, hfree, hnew, hfield, hkeeps⟩ := normalizeButton_named toLowerCase taken hid
        (hinitial i (by omega)) (by omega)
      obtain ⟨names, hnames, hids, hall⟩ :=
        ih (i + 1) (id :: taken) (by omega) (by rw [List.length_cons]; omega)
      refine ⟨id :: names, .named hid hfree hnames, ?_, ?_⟩
      · simp only [normalizeButtonsFrom, List.map_cons, hnew, hfield, hids]
      · simp only [normalizeButtonsFrom, hnew]
        exact .cons hkeeps hall

/-- An array that is reported unchanged is unchanged. -/
theorem normalizeButtonsFrom_unchanged {fallbackPrefix : Nat → String} (buttons : List Value) :
    ∀ i taken, (normalizeButtonsFrom toLowerCase fallbackPrefix i taken buttons).changed = false →
      (normalizeButtonsFrom toLowerCase fallbackPrefix i taken buttons).buttons = buttons := by
  have hbutton : ∀ fallback taken b, (normalizeButton toLowerCase fallback taken b).changed = false →
      (normalizeButton toLowerCase fallback taken b).button = b := by
    intro fallback taken b h
    unfold normalizeButton at h ⊢
    cases hobj : b.isObject with
    | false => simp [hobj] at h
    | true =>
      cases hid : explicitId b with
      | none => simp [hobj, hid] at h
      | some id =>
        by_cases hsame : Value.str id = b.field "id"
        · simp [hsame]
        · simp [hobj, hid, hsame] at h
  induction buttons with
  | nil => exact fun _ _ _ => rfl
  | cons b rest ih =>
    intro i taken h
    simp only [normalizeButtonsFrom, Bool.or_eq_false_iff] at h ⊢
    rw [hbutton _ _ _ h.1, ih _ _ h.2]

/-- **Stability.** An array whose buttons all have a slug for an id is left alone. -/
theorem normalizeButtonsFrom_stable {fallbackPrefix : Nat → String} (buttons : List Value)
    (hvalid : ∀ b ∈ buttons, ∃ id, b.field "id" = .str id ∧ isPortIdSlug id = true) :
    ∀ i taken, (normalizeButtonsFrom toLowerCase fallbackPrefix i taken buttons).changed = false := by
  induction buttons with
  | nil => exact fun _ _ => rfl
  | cons b rest ih =>
    intro i taken
    obtain ⟨id, hfield, hslug⟩ := hvalid b List.mem_cons_self
    have hid := explicitId_of_slug hfield hslug
    have hobj : b.isObject = true := by
      obtain ⟨fields, rfl⟩ := isObject_of_explicitId hid
      rfl
    have hhead : (normalizeButton toLowerCase (fallbackPrefix i) taken b).changed = false := by
      simp [normalizeButton, hobj, hid, hfield]
    simp only [normalizeButtonsFrom, hhead, Bool.false_or]
    exact ih (fun b' hb' => hvalid b' (List.mem_cons_of_mem _ hb')) _ _

end Clemvion.Nodes
