import Clemvion.Js.Properties
import Clemvion.Js.Text
import Clemvion.Library.NumberedNames

/-!
# ButtonSlug — stable ids for the buttons of a presentation node

A button that comes without a usable id gets a slug of its label, or else a name made of its
position; a number is appended while the name is taken.  What is taken is known per array only.

A JavaScript `Set` of ids is a list here, since only membership is asked for.
-/

open Clemvion.Js Clemvion.Js.Value Clemvion.Library

namespace Clemvion.Nodes

/-! ## 1. Port ids -/

def isPortIdChar (c : Char) : Bool := c.isAlphanum || c = '_' || c = '-'

/-- `PORT_ID_SLUG_REGEX`. -/
def isPortIdSlug (id : String) : Bool :=
  1 ≤ id.toList.length && id.toList.length ≤ 64 && id.toList.all isPortIdChar

def isValidStablePortId : Value → Bool
  | .str id => trim id ≠ "" && isPortIdSlug (trim id)
  | _ => false

/-! ## 2. Slugs -/

/-- `replace(/[^a-zA-Z0-9]+/g, '-')`; `inRun` after the dash of a run was written. -/
def replaceNonAlnum (inRun : Bool) : List Char → List Char
  | [] => []
  | c :: cs =>
    if c.isAlphanum then c :: replaceNonAlnum false cs
    else if inRun then replaceNonAlnum true cs
    else '-' :: replaceNonAlnum true cs

/-- `replace(/^-+|-+$/g, '')`. -/
def trimDashes (cs : List Char) : List Char :=
  ((cs.dropWhile (· = '-')).reverse.dropWhile (· = '-')).reverse

def labelToSlug (toLowerCase : String → String) (label : String) : String :=
  let lowered := toLowerCase label
  let replaced := replaceNonAlnum false lowered.toList
  let trimmed := trimDashes replaced
  sliceUnits (String.ofList trimmed) 64

/-- `candidate` for the number `n`: the base gives way to the suffix. -/
def suffixed (base : String) (n : Nat) : String :=
  let suffix := "-" ++ toString n
  let headroom := 64 - utf16Length suffix
  if utf16Length base ≤ headroom then base ++ suffix else sliceUnits base headroom ++ suffix

def uniqueSlug (base : String) (taken : List String) : String :=
  if base ∉ taken then base else suffixed base (firstFree (suffixed base) taken 2)

/-! ## 3. One array of buttons -/

/-- The usable id that an entry comes with, trimmed. -/
def explicitId (b : Value) : Option String :=
  match b.field "id" with
  | .str id => if isValidStablePortId (.str id) then some (trim id) else none
  | _ => none

/-- What a missing id is made of: the slug of the label, or the name of the position. -/
def slugSeed (toLowerCase : String → String) (fallback : String) (b : Value) : String :=
  let labelSlug := match b.field "label" with
    | .str label => labelToSlug toLowerCase label
    | _ => ""
  if labelSlug ≠ "" then labelSlug else fallback

structure ButtonStep where
  button : Value
  taken : List String
  changed : Bool

/-- The callback of `buttons.map`. -/
def normalizeButton (toLowerCase : String → String) (fallback : String) (taken : List String)
    (b : Value) : ButtonStep :=
  if !b.isObject then
    let candidate := uniqueSlug fallback taken
    ⟨.obj [("id", .str candidate)], candidate :: taken, true⟩
  else
    match explicitId b with
    | some trimmed =>
      if .str trimmed ≠ b.field "id" then ⟨.obj (setKey b.ownFields "id" (.str trimmed)), taken, true⟩
      else ⟨b, taken, false⟩
    | none =>
      let candidate := uniqueSlug (slugSeed toLowerCase fallback b) taken
      ⟨.obj (setKey b.ownFields "id" (.str candidate)), candidate :: taken, true⟩

structure NormalizedButtons where
  buttons : List Value
  changed : Bool

def normalizeButtonsFrom (toLowerCase : String → String) (fallbackPrefix : Nat → String) (i : Nat)
    (taken : List String) : List Value → NormalizedButtons
  | [] => ⟨[], false⟩
  | b :: rest =>
    let step := normalizeButton toLowerCase (fallbackPrefix i) taken b
    let out := normalizeButtonsFrom toLowerCase fallbackPrefix (i + 1) step.taken rest
    ⟨step.button :: out.buttons, step.changed || out.changed⟩

/-- The usable ids are reserved before any id is made up. -/
def normalizeButtonsArray (toLowerCase : String → String) (buttons : List Value)
    (fallbackPrefix : Nat → String) : NormalizedButtons :=
  normalizeButtonsFrom toLowerCase fallbackPrefix 0 (buttons.filterMap explicitId) buttons

/-! ## 4. The buttons of a node -/

/-- `ensureCopy().key = v`. -/
def assignCopy (config : Value) (next : Option (List (String × Value))) (key : String) (v : Value) :
    Option (List (String × Value)) :=
  some (setKey (next.getD config.ownFields) key v)

/-- `config.buttons` and `config.itemButtons`. -/
def normalizeField (toLowerCase : String → String) (config : Value) (key : String)
    (fallbackPrefix : Nat → String) (next : Option (List (String × Value))) :
    Option (List (String × Value)) :=
  match config.field key with
  | .arr buttons =>
    let out := normalizeButtonsArray toLowerCase buttons fallbackPrefix
    if out.changed then assignCopy config next key (.arr out.buttons) else next
  | _ => next

def btnFallback (i : Nat) : String := "btn_" ++ toString i

def itemBtnFallback (i : Nat) : String := "itemBtn_" ++ toString i

def itemsBtnFallback (i j : Nat) : String := "items_" ++ toString i ++ "_btn_" ++ toString j

structure NormalizedItem where
  item : Value
  changed : Bool

/-- The callback of `config.items.map`. -/
def normalizeItem (toLowerCase : String → String) (i : Nat) (item : Value) : NormalizedItem :=
  match item.field "buttons" with
  | .arr buttons =>
    let out := normalizeButtonsArray toLowerCase buttons (itemsBtnFallback i)
    if out.changed then ⟨.obj (setKey item.ownFields "buttons" (.arr out.buttons)), true⟩ else ⟨item, false⟩
  | _ => ⟨item, false⟩

def normalizeItems (toLowerCase : String → String) (config : Value)
    (next : Option (List (String × Value))) : Option (List (String × Value)) :=
  match config.field "items" with
  | .arr items =>
    let out := items.zipIdx.map fun item => normalizeItem toLowerCase item.2 item.1
    if out.any (·.changed) then assignCopy config next "items" (.arr (out.map (·.item))) else next
  | _ => next

def normalizeNodeButtonIds (toLowerCase : String → String) (config : Value) : Value :=
  if !config.isObject then config
  else
    let next := normalizeField toLowerCase config "buttons" btnFallback none
    let next := normalizeField toLowerCase config "itemButtons" itemBtnFallback next
    let next := normalizeItems toLowerCase config next
    (next.map .obj).getD config

/-! ## 5. Slugs are port ids -/

theorem isPortIdSlug_iff {id : String} : isPortIdSlug id = true ↔
    1 ≤ id.toList.length ∧ id.toList.length ≤ 64 ∧ ∀ c ∈ id.toList, isPortIdChar c = true := by
  simp only [isPortIdSlug, Bool.and_eq_true, decide_eq_true_eq, List.all_eq_true, and_assoc]

theorem isPortIdChar_visible {c : Char} (h : isPortIdChar c = true) : 33 ≤ c.toNat ∧ c.toNat ≤ 126 := by
  simp only [isPortIdChar, Bool.or_eq_true, decide_eq_true_eq] at h
  rcases h with (halphanum | rfl) | rfl
  · have hclasses : (c.isUpper || c.isLower || c.isDigit) = true := halphanum
    rw [Bool.or_eq_true, Bool.or_eq_true] at hclasses
    rcases hclasses with (hupper | hlower) | hdigit
    · have hrange : 65 ≤ c.toNat ∧ c.toNat ≤ 90 := of_decide_eq_true hupper
      omega
    · have hbounds := Bool.and_eq_true_iff.mp hlower
      have hrange : 97 ≤ c.toNat ∧ c.toNat ≤ 122 :=
        ⟨of_decide_eq_true hbounds.1, of_decide_eq_true hbounds.2⟩
      omega
    · have hbounds := Bool.and_eq_true_iff.mp hdigit
      have hrange : 48 ≤ c.toNat ∧ c.toNat ≤ 57 :=
        ⟨of_decide_eq_true hbounds.1, of_decide_eq_true hbounds.2⟩
      omega
  · decide
  · decide

theorem utf16Width_of_isPortIdChar {c : Char} (h : isPortIdChar c = true) : utf16Width c = 1 := by
  have hvisible := isPortIdChar_visible h
  have hlow : c.val < 0x10000 := by
    show c.val.toNat < _
    have : c.val.toNat ≤ 126 := hvisible.2
    exact Nat.lt_of_le_of_lt this (by decide)
  rw [utf16Width, if_pos hlow]

theorem utf16Length_of_slugChars {s : String} (h : ∀ c ∈ s.toList, isPortIdChar c = true) :
    utf16Length s = s.toList.length := by
  have hwidths : s.toList.map utf16Width = s.toList.map fun _ => 1 :=
    List.map_congr_left fun c hc => utf16Width_of_isPortIdChar (h c hc)
  rw [utf16Length, hwidths]
  simp

/-- The cut keeps characters, at most as many as it has code units. -/
theorem takeUnits_spec (cs : List Char) :
    ∀ n, takeUnits n cs <+: cs ∧ (takeUnits n cs).length ≤ n := by
  induction cs with
  | nil => exact fun n => ⟨List.nil_prefix, Nat.zero_le n⟩
  | cons c cs ih =>
    intro n
    have hwidth : 1 ≤ utf16Width c := by
      unfold utf16Width
      split <;> omega
    by_cases hfits : utf16Width c ≤ n
    · obtain ⟨hinitial, hlength⟩ := ih (n - utf16Width c)
      rw [takeUnits, if_pos hfits]
      exact ⟨List.cons_prefix_cons.mpr ⟨rfl, hinitial⟩, by rw [List.length_cons]; omega⟩
    · rw [takeUnits, if_neg hfits]
      exact ⟨List.nil_prefix, Nat.zero_le n⟩

theorem replaceNonAlnum_chars (cs : List Char) :
    ∀ inRun, ∀ c ∈ replaceNonAlnum inRun cs, isPortIdChar c = true := by
  have hdash : isPortIdChar '-' = true := by decide
  induction cs with
  | nil => exact fun _ c hc => absurd hc List.not_mem_nil
  | cons d cs ih =>
    intro inRun c hc
    rw [replaceNonAlnum] at hc
    by_cases halnum : d.isAlphanum = true
    · rw [if_pos halnum] at hc
      rcases List.mem_cons.mp hc with rfl | hc
      · simp [isPortIdChar, halnum]
      · exact ih false c hc
    · rw [if_neg halnum] at hc
      cases inRun with
      | true => exact ih true c hc
      | false =>
        rcases List.mem_cons.mp hc with rfl | hc
        · exact hdash
        · exact ih true c hc

theorem trimDashes_sublist (cs : List Char) : (trimDashes cs).Sublist cs := by
  have hback : ((cs.dropWhile (· = '-')).reverse.dropWhile (· = '-')).reverse.Sublist
      (cs.dropWhile (· = '-')) := by
    have := (List.dropWhile_sublist (l := (cs.dropWhile (· = '-')).reverse) (p := (· = '-'))).reverse
    rwa [List.reverse_reverse] at this
  exact hback.trans (List.dropWhile_sublist _)

theorem labelToSlug_spec (toLowerCase : String → String) (label : String) :
    (labelToSlug toLowerCase label).toList.length ≤ 64 ∧
      ∀ c ∈ (labelToSlug toLowerCase label).toList, isPortIdChar c = true := by
  obtain ⟨hinitial, hlength⟩ :=
    takeUnits_spec (trimDashes (replaceNonAlnum false (toLowerCase label).toList)) 64
  simp only [labelToSlug, sliceUnits, String.toList_ofList]
  refine ⟨hlength, ?_⟩
  intro c hc
  exact replaceNonAlnum_chars _ false c ((trimDashes_sublist _).subset (hinitial.subset hc))

theorem slugSeed_valid (toLowerCase : String → String) {fallback : String}
    (hfallback : isPortIdSlug fallback = true) (b : Value) :
    isPortIdSlug (slugSeed toLowerCase fallback b) = true := by
  unfold slugSeed
  cases b.field "label" with
  | str label =>
    by_cases hempty : labelToSlug toLowerCase label = ""
    · simpa [hempty] using hfallback
    · obtain ⟨hlength, hchars⟩ := labelToSlug_spec toLowerCase label
      have hpos : 1 ≤ (labelToSlug toLowerCase label).toList.length := by
        rcases Nat.eq_zero_or_pos (labelToSlug toLowerCase label).toList.length with hzero | hpos
        · exact absurd (String.toList_inj.mp (List.length_eq_zero_iff.mp hzero)) hempty
        · exact hpos
      simpa [hempty] using isPortIdSlug_iff.mpr ⟨hpos, hlength, hchars⟩
  | _ => simpa using hfallback

theorem toList_suffix (n : Nat) : ("-" ++ toString n).toList = '-' :: Nat.toDigits 10 n := by
  simp

theorem isPortIdChar_of_mem_toDigits {n : Nat} {c : Char} (h : c ∈ Nat.toDigits 10 n) :
    isPortIdChar c = true := by
  have hdigit := Nat.isDigit_of_mem_toDigits (by decide) (by decide) h
  simp [isPortIdChar, Char.isAlphanum, hdigit]

/-- The suffix stands whole at the end. -/
theorem suffixed_eq (base : String) (n : Nat) : ∃ kept, kept <+: base.toList ∧
    (kept.length ≤ 64 - utf16Length ("-" ++ toString n) ∨ kept = base.toList ∧
      utf16Length base ≤ 64 - utf16Length ("-" ++ toString n)) ∧
    (suffixed base n).toList = kept ++ '-' :: Nat.toDigits 10 n := by
  by_cases hfits : utf16Length base ≤ 64 - utf16Length ("-" ++ toString n)
  · refine ⟨base.toList, List.prefix_rfl, .inr ⟨rfl, hfits⟩, ?_⟩
    rw [suffixed]
    simp only [hfits, if_true]
    rw [String.toList_append, toList_suffix]
  · obtain ⟨hinitial, hlength⟩ :=
      takeUnits_spec base.toList (64 - utf16Length ("-" ++ toString n))
    refine ⟨_, hinitial, .inl hlength, ?_⟩
    rw [suffixed]
    simp only [hfits, if_false]
    rw [String.toList_append, toList_suffix, sliceUnits, String.toList_ofList]

theorem suffixed_injective (base : String) {m n : Nat} (h : suffixed base m = suffixed base n) : m = n := by
  obtain ⟨kept, -, -, hm⟩ := suffixed_eq base m
  obtain ⟨kept', -, -, hn⟩ := suffixed_eq base n
  rw [h, hn] at hm
  have hdash := sep_notMem_toDigits (show Char.isDigit '-' = false by decide)
  exact toDigits_injective (append_sep_inj (hdash n) (hdash m) hm).2.symm

theorem suffixed_valid {base : String} (hbase : isPortIdSlug base = true) {n : Nat} (hn : n < 10 ^ 60) :
    isPortIdSlug (suffixed base n) = true := by
  obtain ⟨-, hlong, hchars⟩ := isPortIdSlug_iff.mp hbase
  have hdigits : (Nat.toDigits 10 n).length ≤ 60 :=
    (Nat.length_toDigits_le_iff (by decide) (by decide)).mpr hn
  have hsuffix : utf16Length ("-" ++ toString n) = 1 + (Nat.toDigits 10 n).length := by
    rw [utf16Length_of_slugChars, toList_suffix, List.length_cons, Nat.add_comm]
    intro c hc
    rw [toList_suffix] at hc
    rcases List.mem_cons.mp hc with rfl | hc
    · decide
    · exact isPortIdChar_of_mem_toDigits hc
  obtain ⟨kept, hinitial, hlength, heq⟩ := suffixed_eq base n
  have hkept : kept.length ≤ 64 - utf16Length ("-" ++ toString n) := by
    rcases hlength with hlength | ⟨rfl, hfits⟩
    · exact hlength
    · rwa [utf16Length_of_slugChars hchars] at hfits
  refine isPortIdSlug_iff.mpr ?_
  rw [heq]
  simp only [List.length_append, List.length_cons]
  refine ⟨by omega, by omega, ?_⟩
  intro c hc
  rcases List.mem_append.mp hc with hc | hc
  · exact hchars c (hinitial.subset hc)
  · rcases List.mem_cons.mp hc with rfl | hc
    · decide
    · exact isPortIdChar_of_mem_toDigits hc

theorem trim_of_slug {id : String} (h : isPortIdSlug id = true) : trim id = id := by
  obtain ⟨-, -, hchars⟩ := isPortIdSlug_iff.mp h
  have hspace : ∀ c ∈ id.toList, isJsSpace c = false := fun c hc =>
    isJsSpace_of_visible (isPortIdChar_visible (hchars c hc))
  have hkeep : ∀ cs : List Char, (∀ c ∈ cs, isJsSpace c = false) → cs.dropWhile isJsSpace = cs := by
    intro cs hcs
    cases cs with
    | nil => rfl
    | cons c cs => rw [List.dropWhile_cons_of_neg (by simp [hcs c List.mem_cons_self])]
  rw [trim, hkeep _ hspace, hkeep _ fun c hc => hspace c (List.mem_reverse.mp hc), List.reverse_reverse,
    String.ofList_toList]

theorem isValidStablePortId_of_slug {id : String} (h : isPortIdSlug id = true) :
    isValidStablePortId (.str id) = true := by
  have hne : id ≠ "" := by
    rintro rfl
    exact absurd h (by decide)
  rw [isValidStablePortId, trim_of_slug h]
  simp [h, hne]

end Clemvion.Nodes
