import Clemvion.Js.JsonText
import Clemvion.Library.Utf8

/-!
# TruncateOutput — caps on what a node outputs

`truncateArrayForOutput` keeps elements while the bytes of the array's JSON text stay within a
limit; `capString` cuts a text at a byte and drops what is left of a character there.
-/

open Clemvion.Js Clemvion.Js.JsonText Clemvion.Library

namespace Clemvion.Egress

/-! ## 1. Arrays -/

structure TruncatedArray (α : Type) where
  value : List α
  truncated : Bool
  originalLength : Nat
  deriving DecidableEq

variable {α : Type}

/-- `Buffer.byteLength(s, 'utf8')`. -/
def byteLength (s : List Char) : Nat := (utf8 s).length

/-- The loop: what is still to be looked at, `runningBytes` and `kept`.  `stringify` is `none` where
    `JSON.stringify` throws or gives `undefined`. -/
def keepElements (stringify : α → Option (List Char)) (maxBytes : Nat) : List α → Nat → Nat → Nat
  | [], _, kept => kept
  | x :: rest, runningBytes, kept =>
    match stringify x with
    | none => kept
    | some serialized =>
      let projected := runningBytes + byteLength serialized + (if kept = 0 then 0 else 1)
      if projected > maxBytes then kept else keepElements stringify maxBytes rest projected (kept + 1)

def truncateArrayForOutput (stringify : α → Option (List Char)) (arr : List α) (maxBytes : Nat) : TruncatedArray α :=
  if arr.length = 0 then ⟨arr, false, arr.length⟩
  else
    let kept := keepElements stringify maxBytes arr 2 0
    if kept = arr.length then ⟨arr, false, arr.length⟩ else ⟨arr.take kept, true, arr.length⟩

/-- The JSON text of an array, from the texts of its elements. -/
def arrayText (texts : List (List Char)) : List Char := '[' :: [','].intercalate texts ++ [']']

/-! ## 2. Texts -/

structure TruncatedText where
  value : List Char
  truncated : Bool
  deriving DecidableEq

/-- `capString`; the last line is `decoded.replace(/\uFFFD+$/, '')`. -/
def capString (input : List Char) (maxBytes : Nat) : TruncatedText :=
  let buf := utf8 input
  if buf.length ≤ maxBytes then ⟨input, false⟩
  else
    let sliced := buf.take maxBytes
    let decoded := decodeUtf8 none sliced
    ⟨decoded.rdropWhile (· = replacementChar), true⟩

/-! ## 3. The longest array that fits -/

theorem byteLength_append (s t : List Char) : byteLength (s ++ t) = byteLength s + byteLength t := by
  unfold byteLength
  rw [utf8_append, List.length_append]

theorem byteLength_intercalate_append (texts : List (List Char)) (t : List Char) :
    byteLength ([','].intercalate (texts ++ [t])) =
      byteLength ([','].intercalate texts) + byteLength t + (if texts.length = 0 then 0 else 1) := by
  have hcomma : byteLength [','] = 1 := by decide
  induction texts with
  | nil => simp [byteLength]
  | cons x rest ih =>
    rw [if_neg (by simp)]
    cases rest with
    | nil =>
      rw [List.singleton_append, List.intercalate_cons_cons, List.intercalate_singleton, List.intercalate_singleton,
        byteLength_append, byteLength_append, hcomma]
      omega
    | cons y rest =>
      rw [if_neg (by simp)] at ih
      rw [List.cons_append, List.cons_append, List.intercalate_cons_cons, List.intercalate_cons_cons,
        byteLength_append, byteLength_append (x ++ [',']), ← List.cons_append, ih]
      omega

/-- One more element takes its own bytes and, behind another one, a comma. -/
theorem byteLength_arrayText_append (texts : List (List Char)) (t : List Char) :
    byteLength (arrayText (texts ++ [t])) =
      byteLength (arrayText texts) + byteLength t + (if texts.length = 0 then 0 else 1) := by
  have hbrackets : ∀ s, byteLength ('[' :: s ++ [']']) = 2 + byteLength s := by
    intro s
    rw [← List.singleton_append, byteLength_append, byteLength_append, show byteLength ['['] = 1 by decide,
      show byteLength [']'] = 1 by decide]
    omega
  unfold arrayText
  rw [hbrackets, hbrackets, byteLength_intercalate_append]
  omega

/-- More elements take more bytes. -/
theorem byteLength_arrayText_mono (texts more : List (List Char)) :
    byteLength (arrayText texts) ≤ byteLength (arrayText (texts ++ more)) := by
  induction more generalizing texts with
  | nil => rw [List.append_nil]
  | cons t more ih =>
    have hstep := byteLength_arrayText_append texts t
    have hrest := ih (texts ++ [t])
    rw [List.append_assoc, List.singleton_append] at hrest
    omega

/-- The loop over the rest of an array: it stops in front of the first element that does not fit. -/
theorem keepElements_spec (text : α → List Char) (maxBytes : Nat) (done rest : List α) :
    ∃ more next, keepElements (fun x => some (text x)) maxBytes rest
          (byteLength (arrayText (done.map text))) done.length = (done ++ more).length ∧
      rest = more ++ next ∧
      (more ≠ [] → byteLength (arrayText ((done ++ more).map text)) ≤ maxBytes) ∧
      ∀ x tail, next = x :: tail → maxBytes < byteLength (arrayText ((done ++ more ++ [x]).map text)) := by
  induction rest generalizing done with
  | nil => exact ⟨[], [], by simp [keepElements], rfl, fun h => absurd rfl h, fun x tail h => by cases h⟩
  | cons x rest ih =>
    have hstep := byteLength_arrayText_append (done.map text) (text x)
    rw [← List.map_singleton (f := text), ← List.map_append, List.length_map] at hstep
    rw [keepElements]
    simp only [← hstep]
    by_cases hfull : byteLength (arrayText ((done ++ [x]).map text)) > maxBytes
    · refine ⟨[], x :: rest, ?_, rfl, fun h => absurd rfl h, ?_⟩
      · rw [if_pos hfull, List.append_nil]
      · intro y tail hy
        obtain ⟨rfl, -⟩ := List.cons.inj hy
        rw [List.append_nil]
        exact hfull
    · obtain ⟨more, next, hrun, hrest, hfits, hnext⟩ := ih (done ++ [x])
      rw [List.length_append, List.length_singleton] at hrun
      rw [if_neg hfull, hrun]
      refine ⟨x :: more, next, by simp, by rw [hrest]; rfl, fun _ => ?_, ?_⟩
      · rw [show done ++ x :: more = done ++ [x] ++ more by simp]
        by_cases hmore : more = []
        · rw [hmore, List.append_nil]
          omega
        · exact hfits hmore
      · intro y tail hy
        rw [show done ++ x :: more = done ++ [x] ++ more by simp]
        exact hnext y tail hy

/-- The value is the longest part of the array, from its start, whose text is within the limit; it is
    empty when not even the text of the empty array is. -/
structure KeepsLongest (text : α → List Char) (arr : List α) (maxBytes : Nat) (result : TruncatedArray α) : Prop where
  start : result.value = arr.take result.value.length
  total : result.originalLength = arr.length
  flag : result.truncated = true ↔ result.value.length < arr.length
  fits : 2 ≤ maxBytes → byteLength (arrayText (result.value.map text)) ≤ maxBytes
  nothing : maxBytes < 2 → result.value = []
  longest : ∀ n, result.value.length < n → n ≤ arr.length → maxBytes < byteLength (arrayText ((arr.take n).map text))

theorem two_le_byteLength_arrayText (texts : List (List Char)) : 2 ≤ byteLength (arrayText texts) := by
  have := byteLength_arrayText_mono [] texts
  rw [List.nil_append, show byteLength (arrayText []) = 2 by decide] at this
  exact this

theorem keepsLongest_truncate (text : α → List Char) (arr : List α) (maxBytes : Nat) :
    KeepsLongest text arr maxBytes (truncateArrayForOutput (fun x => some (text x)) arr maxBytes) := by
  obtain ⟨kept, next, hrun, harr, hfits, hnext⟩ := keepElements_spec text maxBytes [] arr
  rw [List.nil_append] at hrun hfits
  simp only [List.nil_append] at hnext
  have hempty : byteLength (arrayText (([] : List α).map text)) = 2 := by
    rw [List.map_nil]
    decide
  rw [hempty] at hrun
  have htake : arr.take kept.length = kept := by rw [harr, List.take_left]
  have hresult : truncateArrayForOutput (fun x => some (text x)) arr maxBytes =
      ⟨kept, decide (kept.length < arr.length), arr.length⟩ := by
    have hlength : arr.length = kept.length + next.length := by rw [harr, List.length_append]
    unfold truncateArrayForOutput
    by_cases hnil : arr.length = 0
    · have hkept : kept = [] := List.eq_nil_of_length_eq_zero (by omega)
      rw [if_pos hnil, List.eq_nil_of_length_eq_zero hnil, hkept]
      rfl
    · rw [if_neg hnil]
      simp only [List.length_nil] at hrun
      simp only [hrun]
      by_cases hall : kept.length = arr.length
      · rw [if_pos hall, decide_eq_false (by omega), ← htake, hall, List.take_length]
      · rw [if_neg hall, decide_eq_true (by omega), htake]
  rw [hresult]
  refine ⟨htake.symm, rfl, decide_eq_true_iff, ?_, ?_, ?_⟩
  · intro hmax
    by_cases hkept : kept = []
    · rw [hkept, hempty]
      exact hmax
    · exact hfits hkept
  · intro hmax
    by_contra hkept
    have := two_le_byteLength_arrayText (kept.map text)
    have := hfits hkept
    omega
  · intro n hn hle
    replace hn : kept.length < n := hn
    cases next with
    | nil =>
      rw [harr, List.append_nil] at hle
      omega
    | cons x tail =>
      -- a longer part holds the element that does not fit
      have hmore : ∃ more, arr.take n = kept ++ [x] ++ more := by
        refine ⟨tail.take (n - kept.length - 1), ?_⟩
        rw [harr, List.take_append, List.take_of_length_le (by omega)]
        obtain ⟨k, hk⟩ : ∃ k, n - kept.length = k + 1 := ⟨n - kept.length - 1, by omega⟩
        rw [hk, List.take_succ_cons, List.append_assoc]
        rfl
      obtain ⟨more, hmore⟩ := hmore
      rw [hmore, List.map_append]
      exact Nat.lt_of_lt_of_le (hnext x tail rfl) (byteLength_arrayText_mono _ _)

/-! ## 4. The text in front of the cut -/

/-- The characters that fit, without replacement characters at their end; the text itself when it
    fits. -/
structure CutsAtCharacter (input : List Char) (maxBytes : Nat) (result : TruncatedText) : Prop where
  start : result.value <+: input
  fits : byteLength result.value ≤ maxBytes
  whole : byteLength input ≤ maxBytes → result = ⟨input, false⟩
  dropped : maxBytes < byteLength input →
    ∃ kept next rest, input = kept ++ next :: rest ∧ byteLength kept ≤ maxBytes ∧
      maxBytes < byteLength (kept ++ [next]) ∧ result = ⟨kept.rdropWhile (· = replacementChar), true⟩

theorem rdropWhile_append_of_all {p : Char → Bool} {s tail : List Char} (h : ∀ c ∈ tail, p c = true) :
    (s ++ tail).rdropWhile p = s.rdropWhile p := by
  unfold List.rdropWhile
  rw [List.reverse_append, List.dropWhile_append_of_pos]
  intro c hc
  exact h c (List.mem_reverse.mp hc)

theorem cutsAtCharacter_capString (input : List Char) (maxBytes : Nat) :
    CutsAtCharacter input maxBytes (capString input maxBytes) := by
  unfold capString
  by_cases hfits : (utf8 input).length ≤ maxBytes
  · simp only [if_pos hfits]
    exact ⟨List.prefix_refl _, hfits, fun _ => rfl, fun hlong => absurd hfits (Nat.not_le_of_lt hlong)⟩
  · obtain ⟨kept, next, rest, hinput, hkept, hnext, tail, hdecode, htail⟩ := exists_cut (Nat.lt_of_not_le hfits)
    have hvalue : (decodeUtf8 none ((utf8 input).take maxBytes)).rdropWhile (· = replacementChar) =
        kept.rdropWhile (· = replacementChar) := by
      rw [hdecode]
      exact rdropWhile_append_of_all fun c hc => decide_eq_true (htail c hc)
    have hstart : kept.rdropWhile (· = replacementChar) <+: kept := List.rdropWhile_prefix _ _
    simp only [if_neg hfits, hvalue]
    refine ⟨?_, ?_, fun hwhole => absurd hwhole hfits, fun _ => ⟨kept, next, rest, hinput, hkept, hnext, rfl⟩⟩
    · rw [hinput]
      exact hstart.trans (List.prefix_append _ _)
    · obtain ⟨more, hmore⟩ := hstart
      have hlength := byteLength_append (kept.rdropWhile (· = replacementChar)) more
      rw [hmore] at hlength
      exact Nat.le_trans (by show byteLength (kept.rdropWhile _) ≤ byteLength kept; omega) hkept

/-- **Truncation.**  An array keeps the longest part that fits, a text the characters that fit. -/
theorem truncateOutput_spec (text : α → List Char) (arr : List α) (input : List Char) (maxBytes : Nat) :
    KeepsLongest text arr maxBytes (truncateArrayForOutput (fun x => some (text x)) arr maxBytes) ∧
      CutsAtCharacter input maxBytes (capString input maxBytes) :=
  ⟨keepsLongest_truncate text arr maxBytes, cutsAtCharacter_capString input maxBytes⟩

/-- Not even the empty array is within a limit of one byte. -/
theorem truncateArrayForOutput_small :
    ¬ ∀ (arr : List Value) (maxBytes : Nat), byteLength (writeValue
        (.arr (truncateArrayForOutput (fun x => some (writeValue x)) arr maxBytes).value)) ≤ maxBytes := by
  intro h
  exact absurd (h [.null] 1) (by decide)

end Clemvion.Egress
