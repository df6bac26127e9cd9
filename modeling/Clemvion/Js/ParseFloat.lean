import Clemvion.Js.JsonText
import Clemvion.Js.Text
import Mathlib.Data.List.TakeWhile

/-!
# ParseFloat — `parseFloat`

The longest beginning of a text that is a number in decimal notation, read exactly: a numeral with
more digits than a double holds is not rounded.
-/

namespace Clemvion.Js

def Number.neg : Number → Number
  | .finite q => .finite (-q)
  | .posInfinity => .negInfinity
  | .negInfinity => .posInfinity
  | .nan => .nan

def parseFloatUnsigned (cs : List Char) : Number :=
  let whole := cs.takeWhile Char.isDigit
  let (fraction, rest) :=
    match cs.dropWhile Char.isDigit with
    | '.' :: rest => (rest.takeWhile Char.isDigit, rest.dropWhile Char.isDigit)
    | rest => ([], rest)
  if whole = [] ∧ fraction = [] then
    if "Infinity".toList.isPrefixOf cs then .posInfinity else .nan
  else
    let exponent := ((JsonText.readExponent rest).map Prod.fst).getD 0
    .finite ((Nat.ofDigitChars 10 (whole ++ fraction) 0 : Rat) *
      (10 : Rat) ^ (exponent - fraction.length))

def parseFloat (s : String) : Number :=
  match s.toList.dropWhile isJsSpace with
  | '-' :: rest => Number.neg (parseFloatUnsigned rest)
  | '+' :: rest => parseFloatUnsigned rest
  | cs => parseFloatUnsigned cs

/-- A numeral without a point is read as the number it was written for. -/
theorem parseFloat_toDigits (n : Nat) :
    parseFloat (String.ofList (Nat.toDigits 10 n)) = .finite n := by
  have hdigits : ∀ c ∈ Nat.toDigits 10 n, c.isDigit = true := fun _ => JsonText.isDigit_of_mem_toDigits
  have htake : (Nat.toDigits 10 n).takeWhile Char.isDigit = Nat.toDigits 10 n :=
    List.takeWhile_eq_self_iff.mpr hdigits
  have hdrop : (Nat.toDigits 10 n).dropWhile Char.isDigit = [] :=
    List.dropWhile_eq_nil_iff.mpr hdigits
  have hunsigned : parseFloatUnsigned (Nat.toDigits 10 n) = .finite n := by
    unfold parseFloatUnsigned
    simp only [htake, hdrop, List.append_nil, Nat.toDigits_ne_nil, false_and, if_false]
    rw [Nat.ofDigitChars_ten_toDigits]
    simp [JsonText.readExponent]
  obtain ⟨c, rest, hcons⟩ := List.exists_cons_of_ne_nil (Nat.toDigits_ne_nil (b := 10) (n := n))
  have hc : c.isDigit = true := hdigits c (by rw [hcons]; exact List.mem_cons_self)
  have hspaces : (Nat.toDigits 10 n).dropWhile isJsSpace = Nat.toDigits 10 n := by
    rw [hcons, List.dropWhile_cons, isJsSpace_of_isDigit hc]
    rfl
  unfold parseFloat
  rw [String.toList_ofList, hspaces]
  split
  case h_1 heq =>
    rw [hcons] at heq
    rw [(List.cons.inj heq).1] at hc
    exact absurd hc (by decide)
  case h_2 heq =>
    rw [hcons] at heq
    rw [(List.cons.inj heq).1] at hc
    exact absurd hc (by decide)
  case h_3 => exact hunsigned

end Clemvion.Js
