import Mathlib.Algebra.GroupWithZero.Nat
import Mathlib.Data.List.Basic

/-!
# Text — the length of a JavaScript string

A JavaScript string is measured and cut in UTF-16 code units: a character outside the basic plane
counts twice.  White space is what `trimStart` and `\s` take it to be.
-/

namespace Clemvion.Js

/-- White space and line ends, `\s` in a regular expression. -/
def isJsSpace (c : Char) : Bool :=
  c = ' ' || (9 ≤ c.toNat && c.toNat ≤ 13) || c.toNat = 0xA0 || c.toNat = 0x1680 ||
    (0x2000 ≤ c.toNat && c.toNat ≤ 0x200A) || c.toNat = 0x2028 || c.toNat = 0x2029 ||
    c.toNat = 0x202F || c.toNat = 0x205F || c.toNat = 0x3000 || c.toNat = 0xFEFF

theorem isJsSpace_of_visible {c : Char} (h : 33 ≤ c.toNat ∧ c.toNat ≤ 126) :
    isJsSpace c = false := by
  have hspace : c ≠ ' ' := by
    rintro rfl
    exact absurd h (by decide)
  unfold isJsSpace
  simp only [Bool.or_eq_false_iff, Bool.and_eq_false_iff, decide_eq_false_iff_not]
  refine ⟨⟨⟨⟨⟨⟨⟨⟨⟨⟨hspace, ?_⟩, ?_⟩, ?_⟩, ?_⟩, ?_⟩, ?_⟩, ?_⟩, ?_⟩, ?_⟩, ?_⟩ <;> omega

theorem isJsSpace_of_isDigit {c : Char} (h : c.isDigit = true) : isJsSpace c = false := by
  simp only [Char.isDigit, Bool.and_eq_true, decide_eq_true_eq] at h
  have hrange : 48 ≤ c.toNat ∧ c.toNat ≤ 57 := h
  exact isJsSpace_of_visible (by omega)

/-- `s.trim()`. -/
def trim (s : String) : String :=
  String.ofList (((s.toList.dropWhile isJsSpace).reverse.dropWhile isJsSpace).reverse)

/-- The code units of one character. -/
def utf16Width (c : Char) : Nat := if c.val < 0x10000 then 1 else 2

/-- `s.length`. -/
def utf16Length (s : String) : Nat := (s.toList.map utf16Width).sum

/-- A string as JavaScript keeps it; half of a pair may stand alone. -/
abbrev Utf16 := List UInt16

/-- The code units of a string. -/
def codeUnits (s : String) : Utf16 :=
  s.toList.flatMap fun c =>
    if c.val < 0x10000 then [c.val.toUInt16]
    else [(0xD800 + (c.val - 0x10000) / 0x400).toUInt16, (0xDC00 + (c.val - 0x10000) % 0x400).toUInt16]

/-- `s < t`. -/
def lessThan (s t : String) : Bool := codeUnits s < codeUnits t

/-- The characters that fit in the first `n` code units. -/
def takeUnits : Nat → List Char → List Char
  | _, [] => []
  | n, c :: cs => if utf16Width c ≤ n then c :: takeUnits (n - utf16Width c) cs else []

/-- `s.slice(0, n)`; a pair cut in half is left out. -/
def sliceUnits (s : String) (n : Nat) : String := String.ofList (takeUnits n s.toList)

end Clemvion.Js
