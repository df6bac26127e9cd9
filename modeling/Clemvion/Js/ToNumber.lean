import Clemvion.Js.ParseFloat
import Clemvion.Js.Trimming

/-!
# ToNumber — `Number` of a text

The whole text has to be a number, apart from the spaces around it; nothing at all is zero.  The
number is read exactly: a numeral with more digits than a double holds is not rounded.
-/

namespace Clemvion.Js

def Number.isFinite : Number → Bool
  | .finite _ => true
  | _ => false

/-- Digits to a base other than ten. -/
def ofRadixDigits (base : Nat) (digits : List Char) : Number :=
  match digits.mapM JsonText.hexValue with
  | some (value :: values) =>
    if (value :: values).all (· < base) then
      .finite ((value :: values).foldl (fun n digit => n * base + digit) 0 : Nat)
    else .nan
  | _ => .nan

def ofDecimal (cs : List Char) : Number :=
  if cs = "Infinity".toList then .posInfinity
  else
    let whole := cs.takeWhile Char.isDigit
    let (fraction, rest) :=
      match cs.dropWhile Char.isDigit with
      | '.' :: rest => (rest.takeWhile Char.isDigit, rest.dropWhile Char.isDigit)
      | rest => ([], rest)
    match JsonText.readExponent rest with
    | some (exponent, []) =>
      if whole = [] ∧ fraction = [] then .nan
      else .finite ((Nat.ofDigitChars 10 (whole ++ fraction) 0 : Rat) *
        (10 : Rat) ^ (exponent - fraction.length))
    | _ => .nan

/-- `Number(s)` -/
def toNumber (s : String) : Number :=
  match trimText s.toList with
  | [] => .finite 0
  | '-' :: rest => (ofDecimal rest).neg
  | '+' :: rest => ofDecimal rest
  | '0' :: c :: rest =>
    if c = 'x' ∨ c = 'X' then ofRadixDigits 16 rest
    else if c = 'o' ∨ c = 'O' then ofRadixDigits 8 rest
    else if c = 'b' ∨ c = 'B' then ofRadixDigits 2 rest
    else ofDecimal ('0' :: c :: rest)
  | cs => ofDecimal cs

theorem toNumber_empty : toNumber "" = .finite 0 := rfl

theorem ofDecimal_toDigits (n : Nat) : ofDecimal (Nat.toDigits 10 n) = .finite n := by
  have hdigits : ∀ c ∈ Nat.toDigits 10 n, c.isDigit = true := fun _ => JsonText.isDigit_of_mem_toDigits
  have htake : (Nat.toDigits 10 n).takeWhile Char.isDigit = Nat.toDigits 10 n :=
    List.takeWhile_eq_self_iff.mpr hdigits
  have hdrop : (Nat.toDigits 10 n).dropWhile Char.isDigit = [] :=
    List.dropWhile_eq_nil_iff.mpr hdigits
  have hinfinity : Nat.toDigits 10 n ≠ "Infinity".toList := by
    intro heq
    have hletter := hdigits 'I' (by rw [heq]; decide)
    exact absurd hletter (by decide)
  unfold ofDecimal
  rw [if_neg hinfinity]
  simp only [htake, hdrop, List.append_nil, Nat.toDigits_ne_nil, false_and, if_false,
    JsonText.readExponent]
  rw [Nat.ofDigitChars_ten_toDigits]
  simp

theorem solid_toDigits (n : Nat) : Library.Solid isJsSpace (Nat.toDigits 10 n) :=
  Library.Solid.of_forall Nat.toDigits_ne_nil fun _ hc =>
    isJsSpace_of_isDigit (JsonText.isDigit_of_mem_toDigits hc)

/-- A numeral is read as the number it was written for. -/
theorem toNumber_toDigits (n : Nat) :
    toNumber (String.ofList (Nat.toDigits 10 n)) = .finite n := by
  have hdigits : ∀ c ∈ Nat.toDigits 10 n, c.isDigit = true := fun _ => JsonText.isDigit_of_mem_toDigits
  have htrim := trimText_of_solid (solid_toDigits n)
  have hother : ∀ c rest, Nat.toDigits 10 n = c :: rest → c.isDigit = true := fun c rest hcons =>
    hdigits c (by rw [hcons]; exact List.mem_cons_self)
  have hdecimal := ofDecimal_toDigits n
  -- there is no sign, and what follows a leading zero is a digit and not the letter of a base
  unfold toNumber
  rw [String.toList_ofList, htrim]
  split
  case h_1 hnil => exact absurd hnil Nat.toDigits_ne_nil
  case h_2 rest hcons => exact absurd (hother '-' rest hcons) (by decide)
  case h_3 rest hcons => exact absurd (hother '+' rest hcons) (by decide)
  case h_4 c rest hcons =>
    have hc : c.isDigit = true := hdigits c (by
      rw [hcons]
      exact List.mem_cons_of_mem _ List.mem_cons_self)
    have hletter : ∀ d : Char, d.isDigit = false → c ≠ d := by
      rintro d hd rfl
      rw [hc] at hd
      cases hd
    rw [if_neg (not_or.mpr ⟨hletter _ (by decide), hletter _ (by decide)⟩),
      if_neg (not_or.mpr ⟨hletter _ (by decide), hletter _ (by decide)⟩),
      if_neg (not_or.mpr ⟨hletter _ (by decide), hletter _ (by decide)⟩), ← hcons]
    exact hdecimal
  case h_5 => exact hdecimal

end Clemvion.Js
