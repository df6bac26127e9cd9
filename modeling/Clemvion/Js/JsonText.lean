import Clemvion.Js.Properties
import Mathlib.Tactic.Ring
import Mathlib.Data.Rat.Lemmas
import Mathlib.Data.Nat.Cast.Field
import Mathlib.Algebra.Order.Ring.Rat
import Mathlib.Data.Nat.Factorization.Basic
import Mathlib.Tactic.FieldSimp

/-!
# JsonText — `JSON.parse` and `JSON.stringify`

Reading a text has two parts: its members in the order they are written, repeated keys included,
and the value `JSON.parse` makes of them, where the last member of a key wins.  A number is its
exact value and is written in full; half a surrogate pair reads as the replacement character.
-/

namespace Clemvion.Js

namespace JsonText

/-! ## 1. Strings -/

def isSpace (c : Char) : Bool := c = ' ' || c = '\t' || c = '\n' || c = '\r'

def skipSpace (cs : List Char) : List Char := cs.dropWhile isSpace

def hexValue (c : Char) : Option Nat :=
  if c.isDigit then some (c.toNat - '0'.toNat)
  else if 'a' ≤ c && c ≤ 'f' then some (c.toNat - 'a'.toNat + 10)
  else if 'A' ≤ c && c ≤ 'F' then some (c.toNat - 'A'.toNat + 10)
  else none

/-- What `\c` stands for, `\u` apart. -/
def simpleEscape : Char → Option Nat
  | '"' => some '"'.toNat
  | '\\' => some '\\'.toNat
  | '/' => some '/'.toNat
  | 'b' => some 8
  | 'f' => some 12
  | 'n' => some 10
  | 'r' => some 13
  | 't' => some 9
  | _ => none

/-- The codes of a string up to its closing quote; those of `\u` are UTF-16 units. -/
def readCodes : List Char → Option (List Nat × List Char)
  | [] => none
  | '"' :: rest => some ([], rest)
  | '\\' :: 'u' :: a :: b :: c :: d :: rest => do
    let code := 4096 * (← hexValue a) + 256 * (← hexValue b) + 16 * (← hexValue c) + (← hexValue d)
    let (codes, rest) ← readCodes rest
    return (code :: codes, rest)
  | '\\' :: c :: rest => do
    let code ← simpleEscape c
    let (codes, rest) ← readCodes rest
    return (code :: codes, rest)
  | c :: rest => do
    if c.toNat < 32 then none
    else if c = '\\' then none
    else
      let (codes, rest) ← readCodes rest
      return (c.toNat :: codes, rest)

def isHighSurrogate (code : Nat) : Bool := 0xD800 ≤ code && code < 0xDC00

def isLowSurrogate (code : Nat) : Bool := 0xDC00 ≤ code && code < 0xE000

def ofCode (code : Nat) : Char :=
  if isHighSurrogate code || isLowSurrogate code then '\uFFFD' else Char.ofNat code

/-- The characters of the codes, with surrogate pairs joined. -/
def joinCodes : List Nat → List Char
  | [] => []
  | [code] => [ofCode code]
  | high :: low :: rest =>
    if isHighSurrogate high && isLowSurrogate low then
      Char.ofNat (0x10000 + 0x400 * (high - 0xD800) + (low - 0xDC00)) :: joinCodes rest
    else ofCode high :: joinCodes (low :: rest)

def readString (cs : List Char) : Option (String × List Char) :=
  (readCodes cs).map fun (codes, rest) => (String.ofList (joinCodes codes), rest)

/-- `\uXXXX` for the control characters without a short form. -/
def escapeChar (c : Char) : List Char :=
  match c with
  | '"' => ['\\', '"']
  | '\\' => ['\\', '\\']
  | '\n' => ['\\', 'n']
  | '\r' => ['\\', 'r']
  | '\t' => ['\\', 't']
  | c =>
    if c.toNat = 8 then ['\\', 'b']
    else if c.toNat = 12 then ['\\', 'f']
    else if c.toNat < 32 then
      ['\\', 'u', '0', '0', Nat.digitChar (c.toNat / 16), Nat.digitChar (c.toNat % 16)]
    else [c]

def writeString (s : String) : List Char := '"' :: s.toList.flatMap escapeChar ++ ['"']

/-! ## 2. Numbers -/

def readDigits (cs : List Char) : Option (List Char × List Char) :=
  if cs.takeWhile Char.isDigit = [] then none
  else some (cs.takeWhile Char.isDigit, cs.dropWhile Char.isDigit)

/-- The digits before the point, without a leading zero. -/
def readWhole (cs : List Char) : Option (List Char × List Char) := do
  let (digits, rest) ← readDigits cs
  if digits.head? = some '0' ∧ digits.length ≠ 1 then none else return (digits, rest)

def readFraction : List Char → Option (List Char × List Char)
  | '.' :: rest => readDigits rest
  | cs => some ([], cs)

def readExponent : List Char → Option (Int × List Char)
  | c :: rest =>
    if c = 'e' ∨ c = 'E' then
      match rest with
      | '-' :: rest => do
        let (digits, rest) ← readDigits rest
        return (-(Nat.ofDigitChars 10 digits 0 : Int), rest)
      | '+' :: rest => do
        let (digits, rest) ← readDigits rest
        return ((Nat.ofDigitChars 10 digits 0 : Int), rest)
      | rest => do
        let (digits, rest) ← readDigits rest
        return ((Nat.ofDigitChars 10 digits 0 : Int), rest)
    else some (0, c :: rest)
  | [] => some (0, [])

def readUnsigned (cs : List Char) : Option (Rat × List Char) := do
  let (whole, rest) ← readWhole cs
  let (fraction, rest) ← readFraction rest
  let (exponent, rest) ← readExponent rest
  return ((Nat.ofDigitChars 10 (whole ++ fraction) 0 : Rat) *
    (10 : Rat) ^ (exponent - fraction.length), rest)

def readNumber : List Char → Option (Rat × List Char)
  | '-' :: rest => (readUnsigned rest).map fun (q, rest) => (-q, rest)
  | cs => readUnsigned cs

/-- The places behind the point that the number needs. -/
def decimalPlaces (q : Rat) : Nat :=
  ((List.range (q.den + 1)).find? fun places => q.den ∣ 10 ^ places).getD 0

/-- `n / 10 ^ places` in decimal notation. -/
def writeScaled (n places : Nat) : List Char :=
  let whole := Nat.toDigits 10 (n / 10 ^ places)
  if places = 0 then whole
  else
    let fraction := Nat.toDigits 10 (n % 10 ^ places)
    whole ++ '.' :: (List.replicate (places - fraction.length) '0' ++ fraction)

def writeNumber : Number → List Char
  | .finite q =>
    let places := decimalPlaces q
    let digits := writeScaled (q.num.natAbs * (10 ^ places / q.den)) places
    if q < 0 then '-' :: digits else digits
  | _ => "null".toList

/-! ## 3. Values -/

mutual

/-- A value and what follows it; an object keeps every member of the text. -/
def readValue : Nat → List Char → Option (Value × List Char)
  | 0, _ => none
  | fuel + 1, cs =>
    match skipSpace cs with
    | '"' :: rest => (readString rest).map fun (s, rest) => (.str s, rest)
    | '[' :: rest =>
      match skipSpace rest with
      | ']' :: rest => some (.arr [], rest)
      | rest => (readItems fuel rest).map fun (items, rest) => (.arr items, rest)
    | '{' :: rest =>
      match skipSpace rest with
      | '}' :: rest => some (.obj [], rest)
      | rest => (readMembers fuel rest).map fun (fields, rest) => (.obj fields, rest)
    | 't' :: 'r' :: 'u' :: 'e' :: rest => some (.bool true, rest)
    | 'f' :: 'a' :: 'l' :: 's' :: 'e' :: rest => some (.bool false, rest)
    | 'n' :: 'u' :: 'l' :: 'l' :: rest => some (.null, rest)
    | cs => (readNumber cs).map fun (q, rest) => (.num (.finite q), rest)

def readItems : Nat → List Char → Option (List Value × List Char)
  | 0, _ => none
  | fuel + 1, cs =>
    match readValue fuel cs with
    | none => none
    | some (item, rest) =>
      match skipSpace rest with
      | ',' :: rest => (readItems fuel rest).map fun (items, rest) => (item :: items, rest)
      | ']' :: rest => some ([item], rest)
      | _ => none

def readMembers : Nat → List Char → Option (List (String × Value) × List Char)
  | 0, _ => none
  | fuel + 1, cs =>
    match skipSpace cs with
    | '"' :: rest =>
      match readString rest with
      | none => none
      | some (key, rest) =>
        match skipSpace rest with
        | ':' :: rest =>
          match readValue fuel rest with
          | none => none
          | some (v, rest) =>
            match skipSpace rest with
            | ',' :: rest =>
              (readMembers fuel rest).map fun (fields, rest) => ((key, v) :: fields, rest)
            | '}' :: rest => some ([(key, v)], rest)
            | _ => none
        | _ => none
    | _ => none

end

/-- The members of a JSON text as they are written. -/
def membersOf (s : String) : Option Value :=
  match readValue (2 * s.toList.length + 2) s.toList with
  | some (v, rest) => if skipSpace rest = [] then some v else none
  | none => none

mutual

/-- The last member of a key wins, at the place of the first. -/
def lastWins : Value → Value
  | .arr items => .arr (lastWinsItems items)
  | .obj fields => .obj (lastWinsFields [] fields)
  | v => v

def lastWinsItems : List Value → List Value
  | [] => []
  | item :: items => lastWins item :: lastWinsItems items

def lastWinsFields (acc : List (String × Value)) : List (String × Value) → List (String × Value)
  | [] => acc
  | (key, v) :: fields => lastWinsFields (Value.setKey acc key (lastWins v)) fields

end

/-- `JSON.parse(s)`, `none` where it throws. -/
def parse (s : String) : Option Value := (membersOf s).map lastWins

mutual

/-- `undefined` has no JSON text; inside of an array it is written as `null`. -/
def writeValue : Value → List Char
  | .undefined | .null => "null".toList
  | .bool true => "true".toList
  | .bool false => "false".toList
  | .num n => writeNumber n
  | .str s => writeString s
  | .arr items => '[' :: writeItems items
  | .obj fields => '{' :: writeFields true fields

def writeItems : List Value → List Char
  | [] => [']']
  | [item] => writeValue item ++ [']']
  | item :: items => writeValue item ++ ',' :: writeItems items

def writeFields (first : Bool) : List (String × Value) → List Char
  | [] => ['}']
  | (_, .undefined) :: fields => writeFields first fields
  | (key, v) :: fields =>
    (if first then [] else [',']) ++ writeString key ++ ':' :: writeValue v ++
      writeFields false fields

end

/-- `JSON.stringify(v)` of a value other than `undefined`. -/
def stringify (v : Value) : String := String.ofList (writeValue v)

/-! ## 4. What was written is read back -/

section Strings

theorem hexValue_digitChar : ∀ n < 16, hexValue (Nat.digitChar n) = some n := by decide

theorem readCodes_escapeChar (c : Char) (rest : List Char) :
    readCodes (escapeChar c ++ rest) =
      (readCodes rest).map fun (codes, rest) => (c.toNat :: codes, rest) := by
  have hshort : ∀ d code, simpleEscape d = some code → d ≠ 'u' →
      readCodes ('\\' :: d :: rest) =
        (readCodes rest).map fun (codes, rest) => (code :: codes, rest) := by
    intro d code hd hu
    rw [readCodes]
    · rw [hd]
      cases readCodes rest <;> rfl
    · rintro _ _ _ _ _ h
      exact fun _ => hu h
  unfold escapeChar
  split
  · exact hshort '"' _ rfl (by decide)
  · exact hshort '\\' _ rfl (by decide)
  · exact hshort 'n' _ rfl (by decide)
  · exact hshort 'r' _ rfl (by decide)
  · exact hshort 't' _ rfl (by decide)
  rename_i hquote hback _ _ _
  split
  case isTrue h8 =>
    rw [h8]
    exact hshort 'b' _ rfl (by decide)
  split
  case isTrue h12 =>
    rw [h12]
    exact hshort 'f' _ rfl (by decide)
  split
  case isTrue h32 =>
    show readCodes ('\\' :: 'u' :: '0' :: '0' :: Nat.digitChar (c.toNat / 16) ::
      Nat.digitChar (c.toNat % 16) :: rest) = _
    have hzero : hexValue '0' = some 0 := by decide
    have hcode : 4096 * 0 + 256 * 0 + 16 * (c.toNat / 16) + c.toNat % 16 = c.toNat := by omega
    rw [readCodes, hzero, hexValue_digitChar (c.toNat / 16) (by omega),
      hexValue_digitChar (c.toNat % 16) (by omega)]
    dsimp only [bind, Option.bind]
    rw [hcode]
    cases readCodes rest <;> rfl
  case isFalse h32 =>
    show readCodes (c :: rest) = _
    rw [readCodes]
    · rw [if_neg h32, if_neg hback]
      cases readCodes rest <;> rfl
    · exact hquote
    · exact fun _ _ _ _ _ h => absurd h hback
    · exact fun _ _ h => absurd h hback

theorem isSurrogate_toNat (c : Char) :
    isHighSurrogate c.toNat = false ∧ isLowSurrogate c.toNat = false := by
  have hvalid : c.toNat < 0xd800 ∨ 0xdfff < c.toNat ∧ c.toNat < 0x110000 := c.valid
  unfold isHighSurrogate isLowSurrogate
  simp only [Bool.and_eq_false_iff, decide_eq_false_iff_not]
  omega

theorem ofCode_toNat (c : Char) : ofCode c.toNat = c := by
  obtain ⟨hhigh, hlow⟩ := isSurrogate_toNat c
  unfold ofCode
  rw [hhigh, hlow]
  exact Char.ofNat_toNat c

theorem joinCodes_map_toNat (cs : List Char) : joinCodes (cs.map Char.toNat) = cs := by
  induction cs with
  | nil => rfl
  | cons c cs ih =>
    cases cs with
    | nil =>
      show [ofCode c.toNat] = [c]
      rw [ofCode_toNat]
    | cons d cs =>
      show (if isHighSurrogate c.toNat && isLowSurrogate d.toNat then _
        else ofCode c.toNat :: joinCodes ((d :: cs).map Char.toNat)) = c :: d :: cs
      rw [(isSurrogate_toNat c).1, ih, ofCode_toNat]
      rfl

theorem readString_write (s : String) (rest : List Char) :
    readString (s.toList.flatMap escapeChar ++ '"' :: rest) = some (s, rest) := by
  have hcodes : ∀ cs : List Char,
      readCodes (cs.flatMap escapeChar ++ '"' :: rest) = some (cs.map Char.toNat, rest) := by
    intro cs
    induction cs with
    | nil => rfl
    | cons c cs ih =>
      rw [List.flatMap_cons, List.append_assoc, readCodes_escapeChar, ih]
      rfl
  unfold readString
  rw [hcodes, Option.map_some]
  dsimp only
  rw [joinCodes_map_toNat, String.ofList_toList]

end Strings

section Numbers

/-- Nothing of what follows would go on with a number. -/
def EndsNumber (rest : List Char) : Prop :=
  ∀ c ∈ rest.head?, c.isDigit = false ∧ c ≠ '.' ∧ c ≠ 'e' ∧ c ≠ 'E'

theorem takeWhile_digits {digits rest : List Char} (hdigits : ∀ c ∈ digits, c.isDigit = true)
    (hrest : ∀ c ∈ rest.head?, c.isDigit = false) :
    (digits ++ rest).takeWhile Char.isDigit = digits ∧
      (digits ++ rest).dropWhile Char.isDigit = rest := by
  induction digits with
  | nil =>
    cases rest with
    | nil => exact ⟨rfl, rfl⟩
    | cons c rest => simp [hrest c rfl]
  | cons c digits ih =>
    have hc := hdigits c List.mem_cons_self
    obtain ⟨htake, hdrop⟩ := ih fun d hd => hdigits d (List.mem_cons_of_mem c hd)
    simp [hc, htake, hdrop]

theorem readDigits_append {digits rest : List Char} (hne : digits ≠ [])
    (hdigits : ∀ c ∈ digits, c.isDigit = true) (hrest : ∀ c ∈ rest.head?, c.isDigit = false) :
    readDigits (digits ++ rest) = some (digits, rest) := by
  obtain ⟨htake, hdrop⟩ := takeWhile_digits hdigits hrest
  unfold readDigits
  rw [htake, hdrop, if_neg hne]

theorem isDigit_of_mem_toDigits {n : Nat} {c : Char} (h : c ∈ Nat.toDigits 10 n) :
    c.isDigit = true :=
  Nat.isDigit_of_mem_toDigits (by decide) (by decide) h

theorem ofDigitChars_lt {digits : List Char} (h : ∀ c ∈ digits, c.isDigit = true) :
    Nat.ofDigitChars 10 digits 0 < 10 ^ digits.length := by
  induction digits with
  | nil => simp
  | cons c digits ih =>
    have hrest := ih fun d hd => h d (List.mem_cons_of_mem c hd)
    have hc : c.toNat - '0'.toNat < 10 := by
      have hdigit := h c List.mem_cons_self
      simp only [Char.isDigit, Bool.and_eq_true, decide_eq_true_eq] at hdigit
      have hle : c.toNat ≤ 57 := hdigit.2
      show c.toNat - 48 < 10
      omega
    rw [Nat.ofDigitChars_cons, Nat.ofDigitChars_eq_ofDigitChars_zero, List.length_cons, pow_succ,
      Nat.mul_zero, Nat.zero_add]
    have hmul : 10 ^ digits.length * (c.toNat - '0'.toNat) ≤ 10 ^ digits.length * 9 :=
      Nat.mul_le_mul_left _ (by omega)
    omega

/-- A number has no leading zero, unless it is zero. -/
theorem head_toDigits (n : Nat) :
    ¬((Nat.toDigits 10 n).head? = some '0' ∧ (Nat.toDigits 10 n).length ≠ 1) := by
  rintro ⟨hhead, hlength⟩
  cases hdigits : Nat.toDigits 10 n with
  | nil => exact Nat.toDigits_ne_nil hdigits
  | cons c rest =>
    rw [hdigits] at hhead hlength
    have hc : c = '0' := Option.some.inj hhead
    have hpos : 0 < rest.length := by
      rw [List.length_cons] at hlength
      omega
    have hvalue : n = Nat.ofDigitChars 10 rest 0 := by
      have hall : Nat.ofDigitChars 10 (Nat.toDigits 10 n) 0 = n := Nat.ofDigitChars_ten_toDigits
      rw [hdigits, hc, Nat.ofDigitChars_cons] at hall
      exact hall.symm
    have hlt : n < 10 ^ rest.length := by
      rw [hvalue]
      apply ofDigitChars_lt
      intro d hd
      apply isDigit_of_mem_toDigits (n := n)
      rw [hdigits]
      exact List.mem_cons_of_mem c hd
    have hle := (Nat.length_toDigits_le_iff (by decide) hpos).mpr hlt
    rw [hdigits, List.length_cons] at hle
    omega

theorem EndsNumber.no_digit {rest : List Char} (h : EndsNumber rest) :
    ∀ c ∈ rest.head?, c.isDigit = false := fun c hc => (h c hc).1

theorem readWhole_toDigits (n : Nat) {rest : List Char}
    (hrest : ∀ c ∈ rest.head?, c.isDigit = false) :
    readWhole (Nat.toDigits 10 n ++ rest) = some (Nat.toDigits 10 n, rest) := by
  unfold readWhole
  rw [readDigits_append Nat.toDigits_ne_nil (fun _ => isDigit_of_mem_toDigits) hrest]
  exact if_neg (head_toDigits n)

theorem readFraction_end {rest : List Char} (hrest : EndsNumber rest) :
    readFraction rest = some ([], rest) := by
  cases rest with
  | nil => rfl
  | cons c rest =>
    unfold readFraction
    split
    case h_1 heq => exact absurd (List.cons.inj heq).1 (hrest c rfl).2.1
    case h_2 => rfl

theorem readExponent_end {rest : List Char} (hrest : EndsNumber rest) :
    readExponent rest = some (0, rest) := by
  cases rest with
  | nil => rfl
  | cons c rest =>
    obtain ⟨-, -, he, hE⟩ := hrest c rfl
    exact if_neg (not_or.mpr ⟨he, hE⟩)

theorem readUnsigned_writeScaled (n places : Nat) {rest : List Char} (hrest : EndsNumber rest) :
    readUnsigned (writeScaled n places ++ rest) = some ((n : Rat) / 10 ^ places, rest) := by
  unfold readUnsigned writeScaled
  dsimp only
  split
  case isTrue hzero =>
    rw [readWhole_toDigits _ hrest.no_digit]
    dsimp only [bind, Option.bind]
    rw [readFraction_end hrest]
    dsimp only
    rw [readExponent_end hrest, hzero]
    simp
  case isFalse hplaces =>
    generalize hfraction : List.replicate (places - (Nat.toDigits 10 (n % 10 ^ places)).length) '0' ++
      Nat.toDigits 10 (n % 10 ^ places) = fraction
    have hpos : 0 < places := Nat.pos_of_ne_zero hplaces
    have hmod : n % 10 ^ places < 10 ^ places := Nat.mod_lt _ (Nat.pow_pos (by decide))
    have hlength : fraction.length = places := by
      have hle := (Nat.length_toDigits_le_iff (by decide) hpos).mpr hmod
      rw [← hfraction, List.length_append, List.length_replicate]
      omega
    have hdigits : ∀ c ∈ fraction, c.isDigit = true := by
      intro c hc
      rw [← hfraction] at hc
      rcases List.mem_append.mp hc with hzero | hdigit
      · rw [List.eq_of_mem_replicate hzero]
        decide
      · exact isDigit_of_mem_toDigits hdigit
    have hvalue : Nat.ofDigitChars 10 (Nat.toDigits 10 (n / 10 ^ places) ++ fraction) 0 = n := by
      rw [Nat.ofDigitChars_append, Nat.ofDigitChars_ten_toDigits,
        Nat.ofDigitChars_eq_ofDigitChars_zero, hlength, ← hfraction, Nat.ofDigitChars_append,
        Nat.ofDigitChars_replicate_zero, Nat.mul_zero, Nat.ofDigitChars_ten_toDigits]
      exact Nat.div_add_mod n (10 ^ places)
    have hne : fraction ≠ [] := by
      rintro rfl
      exact hplaces hlength.symm
    rw [List.append_assoc, List.cons_append,
      readWhole_toDigits _ (fun c hc => by rw [← Option.some.inj hc]; decide)]
    have hread : readFraction ('.' :: (fraction ++ rest)) = some (fraction, rest) :=
      readDigits_append hne hdigits hrest.no_digit
    dsimp only [bind, Option.bind]
    rw [hread]
    dsimp only
    rw [readExponent_end hrest, hvalue, hlength]
    dsimp only [pure]
    rw [zero_sub, zpow_neg, zpow_natCast, div_eq_mul_inv]

/-- The numbers with a finite decimal notation: all that JSON can write. -/
def IsDecimal (q : Rat) : Prop := ∃ places, q.den ∣ 10 ^ places

/-- As many places as the denominator is large are enough. -/
theorem dvd_ten_pow_self {d places : Nat} (hd : d ≠ 0) (h : d ∣ 10 ^ places) : d ∣ 10 ^ d := by
  rw [← Nat.factorization_le_iff_dvd hd (Nat.pow_pos (by decide)).ne']
  intro p
  rw [Nat.factorization_pow, Finsupp.smul_apply, smul_eq_mul]
  by_cases hp : d.factorization p = 0
  · rw [hp]
    exact Nat.zero_le _
  · have hprime : p.Prime := by
      by_contra hnot
      exact hp (Nat.factorization_eq_zero_of_not_prime d hnot)
    have hten : p ∣ 10 :=
      hprime.dvd_of_dvd_pow ((Nat.dvd_of_factorization_pos hp).trans h)
    have hpos : 0 < (10 : Nat).factorization p :=
      hprime.factorization_pos_of_dvd (by decide) hten
    have hlt := Nat.factorization_lt p hd
    calc d.factorization p ≤ d * 1 := by omega
      _ ≤ d * (10 : Nat).factorization p := Nat.mul_le_mul_left d hpos

theorem den_dvd_decimalPlaces {q : Rat} (h : IsDecimal q) : q.den ∣ 10 ^ decimalPlaces q := by
  obtain ⟨places, hplaces⟩ := h
  have hself := dvd_ten_pow_self q.den_nz hplaces
  unfold decimalPlaces
  cases hfind : (List.range (q.den + 1)).find? fun places => q.den ∣ 10 ^ places with
  | none =>
    have hnone := List.find?_eq_none.mp hfind q.den (List.mem_range.mpr (by omega))
    exact absurd (decide_eq_true hself) hnone
  | some found =>
    have hfound := List.find?_some hfind
    exact of_decide_eq_true hfound

theorem writeScaled_div {q : Rat} {places : Nat} (h : q.den ∣ 10 ^ places) :
    ((q.num.natAbs * (10 ^ places / q.den) : Nat) : Rat) / 10 ^ places = q.num.natAbs / q.den := by
  have hden : (q.den : Rat) ≠ 0 := by exact_mod_cast q.den_nz
  have hten : (10 : Rat) ^ places ≠ 0 := pow_ne_zero places (by decide)
  rw [Nat.cast_mul, Nat.cast_div h hden]
  push_cast
  field_simp

theorem writeScaled_head (n places : Nat) :
    ∃ c cs, writeScaled n places = c :: cs ∧ c.isDigit = true := by
  cases hdigits : Nat.toDigits 10 (n / 10 ^ places) with
  | nil => exact absurd hdigits Nat.toDigits_ne_nil
  | cons c cs =>
    have hc : c ∈ Nat.toDigits 10 (n / 10 ^ places) := by
      rw [hdigits]
      exact List.mem_cons_self
    unfold writeScaled
    dsimp only
    rw [hdigits]
    split
    · exact ⟨c, _, rfl, isDigit_of_mem_toDigits hc⟩
    · exact ⟨c, _, rfl, isDigit_of_mem_toDigits hc⟩

theorem readNumber_write {q : Rat} (h : IsDecimal q) {rest : List Char} (hrest : EndsNumber rest) :
    readNumber (writeNumber (.finite q) ++ rest) = some (q, rest) := by
  have hread := readUnsigned_writeScaled
    (q.num.natAbs * (10 ^ decimalPlaces q / q.den)) (decimalPlaces q) hrest
  rw [writeScaled_div (den_dvd_decimalPlaces h)] at hread
  unfold writeNumber
  dsimp only
  split
  case isTrue hneg =>
    show (readUnsigned (writeScaled _ _ ++ rest)).map _ = some (q, rest)
    have hint : (q.num.natAbs : Int) = -q.num := by
      have hlt := Rat.num_neg.mpr hneg
      omega
    have hnum : (q.num.natAbs : Rat) = -q.num := by
      have hcast := congrArg (fun n : Int => (n : Rat)) hint
      rwa [Int.cast_natCast, Int.cast_neg] at hcast
    rw [hread, Option.map_some, hnum]
    dsimp only
    rw [neg_div, neg_neg, Rat.num_div_den]
  case isFalse hnonneg =>
    have hint : (q.num.natAbs : Int) = q.num := by
      have hle := Rat.num_nonneg.mpr (not_lt.mp hnonneg)
      omega
    have hnum : (q.num.natAbs : Rat) = q.num := by
      have hcast := congrArg (fun n : Int => (n : Rat)) hint
      rwa [Int.cast_natCast] at hcast
    rw [hnum, Rat.num_div_den] at hread
    obtain ⟨c, cs, hdigits, hc⟩ := writeScaled_head
      (q.num.natAbs * (10 ^ decimalPlaces q / q.den)) (decimalPlaces q)
    rw [hdigits] at hread ⊢
    unfold readNumber
    split
    case h_1 heq =>
      rw [(List.cons.inj heq).1] at hc
      exact absurd hc (by decide)
    case h_2 => exact hread

end Numbers

section Values

mutual

/-- The values that a JSON text can stand for. -/
def IsJson : Value → Prop
  | .undefined => False
  | .null | .bool _ | .str _ => True
  | .num (.finite q) => IsDecimal q
  | .num _ => False
  | .arr items => AreJson items
  | .obj fields => FieldsAreJson fields

def AreJson : List Value → Prop
  | [] => True
  | item :: items => IsJson item ∧ AreJson items

def FieldsAreJson : List (String × Value) → Prop
  | [] => True
  | (_, v) :: fields => IsJson v ∧ FieldsAreJson fields

end

theorem IsJson.ne_undefined {v : Value} (h : IsJson v) : v ≠ .undefined := by
  rintro rfl
  exact h

mutual

/-- The fuel that reading the written value takes. -/
def weight : Value → Nat
  | .arr items => 1 + weightItems items
  | .obj fields => 1 + weightFields fields
  | _ => 1

def weightItems : List Value → Nat
  | [] => 0
  | item :: items => 1 + weight item + weightItems items

def weightFields : List (String × Value) → Nat
  | [] => 0
  | (_, v) :: fields => 1 + weight v + weightFields fields

end

theorem skipSpace_cons {c : Char} (h : isSpace c = false) (cs : List Char) :
    skipSpace (c :: cs) = c :: cs := by
  unfold skipSpace
  rw [List.dropWhile_cons, h]
  rfl

theorem skipSpace_append {space : List Char} (h : ∀ c ∈ space, isSpace c = true) (cs : List Char) :
    skipSpace (space ++ cs) = skipSpace cs := by
  unfold skipSpace
  induction space with
  | nil => rfl
  | cons c space ih =>
    rw [List.cons_append, List.dropWhile_cons_of_pos (h c (List.mem_cons_self ..)),
      ih fun d hd => h d (List.mem_cons_of_mem _ hd)]

theorem skipSpace_stop {space tail : List Char} {c : Char} (hspace : ∀ d ∈ space, isSpace d = true)
    (hc : isSpace c = false) : skipSpace (space ++ c :: tail) = c :: tail := by
  rw [skipSpace_append hspace, skipSpace_cons hc]

theorem isSpace_of_isDigit {c : Char} (h : c.isDigit = true) : isSpace c = false := by
  rw [Bool.eq_false_iff]
  intro hspace
  have hcases : ((c = ' ' ∨ c = '\t') ∨ c = '\n') ∨ c = '\r' := by
    simpa [isSpace] using hspace
  rcases hcases with ((rfl | rfl) | rfl) | rfl <;> exact absurd h (by decide)

theorem endsNumber_cons {c : Char} (rest : List Char) (h : c = ',' ∨ c = ']' ∨ c = '}') :
    EndsNumber (c :: rest) := by
  intro d hd
  rw [← Option.some.inj hd]
  rcases h with rfl | rfl | rfl <;> decide

theorem writeItems_cons (item : Value) (items : List Value) :
    writeItems (item :: items) = writeValue item ++
      match items with
      | [] => [']']
      | _ => ',' :: writeItems items := by
  cases items <;> rfl

theorem writeFields_cons (first : Bool) {key : String} {v : Value} (h : v ≠ .undefined)
    (fields : List (String × Value)) :
    writeFields first ((key, v) :: fields) =
      (if first then [] else [',']) ++ writeString key ++ ':' :: writeValue v ++
        writeFields false fields := by
  cases v with
  | undefined => exact absurd rfl h
  | _ => rfl

/-- Written values start with a character that is neither space nor a closing bracket. -/
theorem writeValue_head {v : Value} (h : IsJson v) :
    ∃ c cs, writeValue v = c :: cs ∧ isSpace c = false ∧ c ≠ ']' := by
  have hword : ∀ c cs, isSpace c = false → c ≠ ']' → writeValue v = c :: cs →
      ∃ c cs, writeValue v = c :: cs ∧ isSpace c = false ∧ c ≠ ']' :=
    fun c cs hspace hclose heq => ⟨c, cs, heq, hspace, hclose⟩
  cases v with
  | undefined => exact absurd h id
  | null => exact hword 'n' _ (by decide) (by decide) rfl
  | bool b => cases b with
    | true => exact hword 't' _ (by decide) (by decide) rfl
    | false => exact hword 'f' _ (by decide) (by decide) rfl
  | str s => exact hword '"' _ (by decide) (by decide) rfl
  | arr items => exact hword '[' _ (by decide) (by decide) rfl
  | obj fields => exact hword '{' _ (by decide) (by decide) rfl
  | num n =>
    cases n with
    | finite q =>
      obtain ⟨c, cs, hdigits, hc⟩ := writeScaled_head
        (q.num.natAbs * (10 ^ decimalPlaces q / q.den)) (decimalPlaces q)
      by_cases hneg : q < 0
      · apply hword '-' (c :: cs) (by decide) (by decide)
        show (if q < 0 then '-' :: writeScaled _ _ else writeScaled _ _) = _
        rw [if_pos hneg, hdigits]
      · apply hword c cs
        · exact isSpace_of_isDigit hc
        · rintro rfl
          exact absurd hc (by decide)
        · show (if q < 0 then '-' :: writeScaled _ _ else writeScaled _ _) = _
          rw [if_neg hneg, hdigits]
    | posInfinity => exact absurd h id
    | negInfinity => exact absurd h id
    | nan => exact absurd h id

theorem readValue_array (fuel : Nat) {c : Char} (cs : List Char) (hspace : isSpace c = false)
    (hclose : c ≠ ']') : readValue (fuel + 1) ('[' :: c :: cs) =
      (readItems fuel (c :: cs)).map fun (items, rest) => (.arr items, rest) := by
  show (match skipSpace (c :: cs) with
    | ']' :: rest => some (Value.arr [], rest)
    | rest => (readItems fuel rest).map fun (items, rest) => (Value.arr items, rest)) = _
  rw [skipSpace_cons hspace]
  split
  case h_1 heq => exact absurd (List.cons.inj heq).1 hclose
  case h_2 => rfl

section Brackets

variable {space : List Char} (hspace : ∀ c ∈ space, isSpace c = true) (fuel : Nat)

include hspace in
theorem readValue_array_spaces (cs : List Char) :
    readValue (fuel + 1) ('[' :: (space ++ cs)) = readValue (fuel + 1) ('[' :: cs) := by
  show (match skipSpace (space ++ cs) with
    | ']' :: rest => some (Value.arr [], rest)
    | rest => (readItems fuel rest).map fun (items, rest) => (.arr items, rest)) = _
  rewrite [skipSpace_append hspace]
  rfl

include hspace in
theorem readValue_object_spaces (cs : List Char) :
    readValue (fuel + 1) ('{' :: (space ++ cs)) = readValue (fuel + 1) ('{' :: cs) := by
  show (match skipSpace (space ++ cs) with
    | '}' :: rest => some (Value.obj [], rest)
    | rest => (readMembers fuel rest).map fun (fields, rest) => (.obj fields, rest)) = _
  rewrite [skipSpace_append hspace]
  rfl

theorem readValue_object {c : Char} (cs : List Char) (hc : isSpace c = false) (hclose : c ≠ '}') :
    readValue (fuel + 1) ('{' :: c :: cs) =
      (readMembers fuel (c :: cs)).map fun (fields, rest) => (.obj fields, rest) := by
  show (match skipSpace (c :: cs) with
    | '}' :: rest => some (Value.obj [], rest)
    | rest => (readMembers fuel rest).map fun (fields, rest) => (Value.obj fields, rest)) = _
  rw [skipSpace_cons hc]
  split
  case h_1 heq => exact absurd (List.cons.inj heq).1 hclose
  case h_2 => rfl

/-- An object is empty, or its members are read. -/
theorem readValue_object_cases {fuel : Nat} {cs rest : List Char} {fields : List (String × Value)}
    (h : readValue (fuel + 1) ('{' :: cs) = some (.obj fields, rest)) :
    fields = [] ∨ readMembers fuel (skipSpace cs) = some (fields, rest) := by
  have hobject : (match skipSpace cs with
      | '}' :: rest => some (Value.obj [], rest)
      | rest => (readMembers fuel rest).map fun (fields, rest) => (.obj fields, rest)) =
        some (.obj fields, rest) := h
  split at hobject
  case h_1 => exact .inl (Value.obj.inj (Prod.mk.inj (Option.some.inj hobject)).1).symm
  case h_2 =>
    obtain ⟨⟨fields', rest'⟩, hmembers, heq⟩ := Option.map_eq_some_iff.mp hobject
    obtain ⟨hfields, rfl⟩ := Prod.mk.inj heq
    rw [Value.obj.inj hfields] at hmembers
    exact .inr hmembers

end Brackets

section Members

variable {fuel : Nat} {space₁ body space₂ text : List Char} {key : String} {v : Value}

/-- The text of a member up to its value. -/
def memberStart (space₁ body space₂ : List Char) (rest : List Char) : List Char :=
  space₁ ++ '"' :: (body ++ '"' :: (space₂ ++ ':' :: rest))

theorem readMembers_start {rest : List Char} (hspace₁ : ∀ d ∈ space₁, isSpace d = true)
    (hkey : ∀ rest, readString (body ++ '"' :: rest) = some (key, rest))
    (hspace₂ : ∀ d ∈ space₂, isSpace d = true)
    (hvalue : readValue fuel (text ++ rest) = some (v, rest)) :
    readMembers (fuel + 1) (memberStart space₁ body space₂ (text ++ rest)) =
      match skipSpace rest with
      | ',' :: rest => (readMembers fuel rest).map fun (fields, rest) => ((key, v) :: fields, rest)
      | '}' :: rest => some ([(key, v)], rest)
      | _ => none := by
  unfold memberStart
  rw [readMembers, skipSpace_stop hspace₁ (by decide)]
  show (match readString (body ++ '"' :: (space₂ ++ ':' :: (text ++ rest))) with
    | none => none
    | some (key, rest) => _) = _
  rw [hkey]
  dsimp only
  rw [skipSpace_stop hspace₂ (by decide)]
  show (match readValue fuel (text ++ rest) with
    | none => none
    | some (v, rest) => _) = _
  rewrite [hvalue]
  rfl

end Members

theorem readValue_number {fuel : Nat} {q : Rat} (h : IsDecimal q) {rest : List Char}
    (hrest : EndsNumber rest) :
    readValue (fuel + 1) (writeNumber (.finite q) ++ rest) = some (.num (.finite q), rest) := by
  have hread := readNumber_write h hrest
  obtain ⟨c, cs, hdigits, hc⟩ := writeScaled_head
    (q.num.natAbs * (10 ^ decimalPlaces q / q.den)) (decimalPlaces q)
  have hhead : ∃ d ds, writeNumber (.finite q) ++ rest = d :: ds ∧ (d = '-' ∨ d.isDigit = true) := by
    show ∃ d ds, (if q < 0 then '-' :: writeScaled _ _ else writeScaled _ _) ++ rest = d :: ds ∧ _
    split
    · exact ⟨'-', _, rfl, Or.inl rfl⟩
    · rw [hdigits]
      exact ⟨c, _, rfl, Or.inr hc⟩
  obtain ⟨d, ds, heq, hd⟩ := hhead
  rw [heq] at hread ⊢
  have hspace : isSpace d = false := by
    rcases hd with rfl | hd
    · decide
    · exact isSpace_of_isDigit hd
  rw [readValue, skipSpace_cons hspace]
  split
  case h_7 => rw [hread]; rfl
  all_goals
    rename_i hmatch
    rw [(List.cons.inj hmatch).1] at hd
    exact absurd hd (by decide)

mutual

theorem readValue_write : ∀ (v : Value) (fuel : Nat) (rest : List Char), IsJson v →
    weight v ≤ fuel → EndsNumber rest → readValue fuel (writeValue v ++ rest) = some (v, rest)
  | .undefined, _, _, h, _, _ => absurd h id
  | .null, fuel, rest, _, hfuel, _ => by
    obtain ⟨fuel, rfl⟩ := Nat.exists_eq_succ_of_ne_zero (Nat.one_le_iff_ne_zero.mp hfuel)
    rfl
  | .bool b, fuel, rest, _, hfuel, _ => by
    obtain ⟨fuel, rfl⟩ := Nat.exists_eq_succ_of_ne_zero (Nat.one_le_iff_ne_zero.mp hfuel)
    cases b <;> rfl
  | .num n, fuel, rest, h, hfuel, hrest => by
    obtain ⟨fuel, rfl⟩ := Nat.exists_eq_succ_of_ne_zero (Nat.one_le_iff_ne_zero.mp hfuel)
    cases n with
    | finite q => exact readValue_number h hrest
    | posInfinity => exact absurd h id
    | negInfinity => exact absurd h id
    | nan => exact absurd h id
  | .str s, fuel, rest, _, hfuel, _ => by
    obtain ⟨fuel, rfl⟩ := Nat.exists_eq_succ_of_ne_zero (Nat.one_le_iff_ne_zero.mp hfuel)
    show (readString (s.toList.flatMap escapeChar ++ ['"'] ++ rest)).map _ = _
    rw [List.append_assoc, List.singleton_append, readString_write]
    rfl
  | .arr [], fuel, rest, _, hfuel, _ => by
    obtain ⟨fuel, rfl⟩ := Nat.exists_eq_succ_of_ne_zero (Nat.one_le_iff_ne_zero.mp hfuel)
    rfl
  | .arr (item :: items), fuel, rest, h, hfuel, _ => by
    have hweight : 1 + weightItems (item :: items) ≤ fuel := hfuel
    obtain ⟨fuel, rfl⟩ := Nat.exists_eq_succ_of_ne_zero (by omega : fuel ≠ 0)
    obtain ⟨c, cs, hhead, hspace, hclose⟩ := writeValue_head h.1
    have hitems := readItems_write (item :: items) fuel rest (List.cons_ne_nil _ _) h (by omega)
    show readValue (fuel + 1) ('[' :: (writeItems (item :: items) ++ rest)) = _
    rw [writeItems_cons, hhead, List.cons_append, List.cons_append] at hitems ⊢
    rw [readValue_array fuel _ hspace hclose, hitems]
    rfl
  | .obj [], fuel, rest, _, hfuel, _ => by
    obtain ⟨fuel, rfl⟩ := Nat.exists_eq_succ_of_ne_zero (Nat.one_le_iff_ne_zero.mp hfuel)
    rfl
  | .obj ((key, v) :: fields), fuel, rest, h, hfuel, _ => by
    have hweight : 1 + weightFields ((key, v) :: fields) ≤ fuel := hfuel
    obtain ⟨fuel, rfl⟩ := Nat.exists_eq_succ_of_ne_zero (by omega : fuel ≠ 0)
    have hfields := readMembers_write ((key, v) :: fields) fuel rest (List.cons_ne_nil _ _) h
      (by omega)
    have hhead : writeFields true ((key, v) :: fields) ++ rest =
        '"' :: (writeFields true ((key, v) :: fields) ++ rest).tail := by
      rw [writeFields_cons true (h.1.ne_undefined)]
      rfl
    show readValue (fuel + 1) ('{' :: (writeFields true ((key, v) :: fields) ++ rest)) = _
    rw [hhead] at hfields ⊢
    show (readMembers fuel ('"' :: _)).map _ = _
    rw [hfields]
    rfl

theorem readItems_write : ∀ (items : List Value) (fuel : Nat) (rest : List Char), items ≠ [] →
    AreJson items → weightItems items ≤ fuel →
      readItems fuel (writeItems items ++ rest) = some (items, rest)
  | [], _, _, h, _, _ => absurd rfl h
  | item :: items, fuel, rest, _, hjson, hfuel => by
    have hweight : 1 + weight item + weightItems items ≤ fuel := hfuel
    obtain ⟨fuel, rfl⟩ := Nat.exists_eq_succ_of_ne_zero (by omega : fuel ≠ 0)
    rw [writeItems_cons, List.append_assoc, readItems]
    cases items with
    | nil =>
      have hitem := readValue_write item fuel (']' :: rest) hjson.1 (by omega)
        (endsNumber_cons rest (Or.inr (Or.inl rfl)))
      dsimp only [List.cons_append, List.nil_append]
      rw [hitem]
      rfl
    | cons next items =>
      have hitem := readValue_write item fuel (',' :: (writeItems (next :: items) ++ rest)) hjson.1
        (by omega) (endsNumber_cons _ (Or.inl rfl))
      have hitems := readItems_write (next :: items) fuel rest (List.cons_ne_nil _ _) hjson.2
        (by omega)
      dsimp only [List.cons_append]
      rw [hitem]
      show (readItems fuel (writeItems (next :: items) ++ rest)).map _ = _
      rw [hitems]
      rfl

theorem readMembers_write : ∀ (fields : List (String × Value)) (fuel : Nat) (rest : List Char),
    fields ≠ [] → FieldsAreJson fields → weightFields fields ≤ fuel →
      readMembers fuel (writeFields true fields ++ rest) = some (fields, rest)
  | [], _, _, h, _, _ => absurd rfl h
  | (key, v) :: fields, fuel, rest, _, hjson, hfuel => by
    have hweight : 1 + weight v + weightFields fields ≤ fuel := hfuel
    obtain ⟨fuel, rfl⟩ := Nat.exists_eq_succ_of_ne_zero (by omega : fuel ≠ 0)
    have htext : writeFields true ((key, v) :: fields) ++ rest =
        '"' :: (key.toList.flatMap escapeChar ++
          '"' :: ':' :: (writeValue v ++ (writeFields false fields ++ rest))) := by
      rw [writeFields_cons true hjson.1.ne_undefined]
      simp [writeString]
    rw [htext]
    show (match readString (key.toList.flatMap escapeChar ++
        '"' :: ':' :: (writeValue v ++ (writeFields false fields ++ rest))) with
      | none => none
      | some (key, rest) => _) = _
    rw [readString_write]
    cases fields with
    | nil =>
      have hv := readValue_write v fuel ('}' :: rest) hjson.1 (by omega)
        (endsNumber_cons rest (Or.inr (Or.inr rfl)))
      show (match readValue fuel (writeValue v ++ '}' :: rest) with
        | none => none
        | some (v, rest) => _) = _
      rw [hv]
      rfl
    | cons field fields =>
      have hv := readValue_write v fuel (',' :: (writeFields true (field :: fields) ++ rest))
        hjson.1 (by omega) (endsNumber_cons _ (Or.inl rfl))
      have hfields := readMembers_write (field :: fields) fuel rest (List.cons_ne_nil _ _)
        hjson.2 (by omega)
      have hcomma : writeFields false (field :: fields) =
          ',' :: writeFields true (field :: fields) := by
        rw [writeFields_cons false hjson.2.1.ne_undefined,
          writeFields_cons true hjson.2.1.ne_undefined]
        rfl
      rw [hcomma]
      show (match readValue fuel (writeValue v ++
          ',' :: (writeFields true (field :: fields) ++ rest)) with
        | none => none
        | some (v, rest) => _) = _
      rw [hv]
      show (readMembers fuel (writeFields true (field :: fields) ++ rest)).map _ = _
      rw [hfields]
      rfl

end

mutual

theorem weight_le : ∀ v, IsJson v → weight v ≤ 2 * (writeValue v).length
  | .undefined, h => absurd h id
  | .null, _ | .bool true, _ | .bool false, _ => by decide
  | .num n, h => by
    obtain ⟨c, cs, hhead, -⟩ := writeValue_head h
    rw [hhead, List.length_cons]
    show 1 ≤ _
    omega
  | .str s, _ => by
    show 1 ≤ 2 * (writeString s).length
    rw [writeString, List.cons_append, List.length_cons]
    omega
  | .arr items, h => by
    have hitems := weightItems_le items h
    show 1 + weightItems items ≤ 2 * ('[' :: writeItems items).length
    rw [List.length_cons]
    omega
  | .obj fields, h => by
    have hfields := weightFields_le true fields h
    show 1 + weightFields fields ≤ 2 * ('{' :: writeFields true fields).length
    rw [List.length_cons]
    omega

theorem weightItems_le : ∀ items, AreJson items → weightItems items ≤ 2 * (writeItems items).length
  | [], _ => by decide
  | item :: items, h => by
    have hitem := weight_le item h.1
    have hitems := weightItems_le items h.2
    show 1 + weight item + weightItems items ≤ _
    rw [writeItems_cons, List.length_append]
    cases items with
    | nil =>
      show 1 + weight item + 0 ≤ 2 * ((writeValue item).length + 1)
      omega
    | cons next items =>
      rw [List.length_cons]
      omega

theorem weightFields_le (first : Bool) : ∀ fields, FieldsAreJson fields →
    weightFields fields ≤ 2 * (writeFields first fields).length
  | [], _ => Nat.zero_le _
  | (key, v) :: fields, h => by
    have hv := weight_le v h.1
    have hfields := weightFields_le false fields h.2
    show 1 + weight v + weightFields fields ≤ _
    rw [writeFields_cons first h.1.ne_undefined]
    simp only [List.length_append, List.length_cons]
    omega

end

/-- `JSON.stringify` writes a text whose members are those of the value. -/
theorem membersOf_stringify {v : Value} (h : IsJson v) : membersOf (stringify v) = some v := by
  have hread := readValue_write v (2 * (writeValue v).length + 2) [] h
    ((weight_le v h).trans (by omega)) (fun c hc => absurd hc (by simp))
  unfold membersOf stringify
  rw [String.toList_ofList]
  rw [List.append_nil] at hread
  rw [hread]
  rfl

/-! ## 5. What is read can be written -/

theorem isDecimal_neg {q : Rat} (h : IsDecimal q) : IsDecimal (-q) := by
  unfold IsDecimal
  rwa [Rat.neg_den]

theorem isDecimal_scaled (n : Nat) (exponent : Int) : IsDecimal ((n : Rat) * 10 ^ exponent) := by
  cases exponent with
  | ofNat places =>
    refine ⟨0, ?_⟩
    have hint : (n : Rat) * 10 ^ (Int.ofNat places) = ((n * 10 ^ places : Nat) : Rat) := by
      push_cast
      rw [Int.ofNat_eq_natCast, zpow_natCast]
    rw [hint, Rat.den_natCast]
    exact Nat.one_dvd _
  | negSucc places =>
    refine ⟨places + 1, ?_⟩
    have hdiv : (n : Rat) * 10 ^ (Int.negSucc places) = Rat.divInt n ((10 ^ (places + 1) : Nat)) := by
      rw [zpow_negSucc, Rat.divInt_eq_div]
      push_cast
      rw [div_eq_mul_inv]
    rw [hdiv]
    exact_mod_cast Rat.den_dvd n ((10 ^ (places + 1) : Nat) : Int)

theorem isDecimal_of_readUnsigned {cs rest : List Char} {q : Rat}
    (h : readUnsigned cs = some (q, rest)) : IsDecimal q := by
  unfold readUnsigned at h
  obtain ⟨⟨whole, rest₁⟩, -, h⟩ := Option.bind_eq_some_iff.mp h
  obtain ⟨⟨fraction, rest₂⟩, -, h⟩ := Option.bind_eq_some_iff.mp h
  obtain ⟨⟨exponent, rest₃⟩, -, h⟩ := Option.bind_eq_some_iff.mp h
  have hvalue : some (_, rest₃) = some (q, rest) := h
  obtain ⟨rfl, -⟩ := Prod.mk.inj (Option.some.inj hvalue)
  exact isDecimal_scaled _ _

theorem isDecimal_of_readNumber {cs rest : List Char} {q : Rat}
    (h : readNumber cs = some (q, rest)) : IsDecimal q := by
  unfold readNumber at h
  split at h
  case h_1 =>
    obtain ⟨⟨q', rest'⟩, hread, heq⟩ := Option.map_eq_some_iff.mp h
    obtain ⟨rfl, -⟩ := Prod.mk.inj heq
    exact isDecimal_neg (isDecimal_of_readUnsigned hread)
  case h_2 => exact isDecimal_of_readUnsigned h

/-- A number starts with a digit or its sign. -/
theorem head_of_readNumber {cs rest : List Char} {q : Rat} (h : readNumber cs = some (q, rest)) :
    ∃ c cs', cs = c :: cs' ∧ (c = '-' ∨ c.isDigit = true) := by
  unfold readNumber at h
  split at h
  case h_1 rest' => exact ⟨'-', rest', rfl, Or.inl rfl⟩
  case h_2 =>
    unfold readUnsigned readWhole at h
    obtain ⟨_, hwhole, -⟩ := Option.bind_eq_some_iff.mp h
    obtain ⟨_, hdigits, -⟩ := Option.bind_eq_some_iff.mp hwhole
    unfold readDigits at hdigits
    split at hdigits
    case isTrue => cases hdigits
    case isFalse hne =>
      cases cs with
      | nil => exact absurd rfl hne
      | cons c cs' =>
        by_cases hc : c.isDigit = true
        · exact ⟨c, cs', rfl, Or.inr hc⟩
        · rw [List.takeWhile_cons, if_neg hc] at hne
          exact absurd rfl hne

/-- Every reader yields values of JSON; the three are one induction on the fuel. -/
theorem isJson_of_read (fuel : Nat) :
    (∀ cs v rest, readValue fuel cs = some (v, rest) → IsJson v) ∧
      (∀ cs items rest, readItems fuel cs = some (items, rest) → AreJson items) ∧
      (∀ cs fields rest, readMembers fuel cs = some (fields, rest) → FieldsAreJson fields) := by
  induction fuel with
  | zero =>
    refine ⟨?_, ?_, ?_⟩ <;>
      · intro _ _ _ h
        cases h
  | succ fuel ih =>
    obtain ⟨ihValue, ihItems, ihMembers⟩ := ih
    refine ⟨fun cs v rest h => ?_, fun cs items rest h => ?_, fun cs fields rest h => ?_⟩
    · rw [readValue] at h
      split at h
      case h_1 =>
        obtain ⟨_, -, heq⟩ := Option.map_eq_some_iff.mp h
        obtain ⟨rfl, -⟩ := Prod.mk.inj heq
        exact trivial
      case h_2 =>
        split at h
        · obtain ⟨rfl, -⟩ := Prod.mk.inj (Option.some.inj h)
          exact trivial
        · obtain ⟨⟨items, rest'⟩, hread, heq⟩ := Option.map_eq_some_iff.mp h
          obtain ⟨rfl, -⟩ := Prod.mk.inj heq
          exact ihItems _ _ _ hread
      case h_3 =>
        split at h
        · obtain ⟨rfl, -⟩ := Prod.mk.inj (Option.some.inj h)
          exact trivial
        · obtain ⟨⟨fields, rest'⟩, hread, heq⟩ := Option.map_eq_some_iff.mp h
          obtain ⟨rfl, -⟩ := Prod.mk.inj heq
          exact ihMembers _ _ _ hread
      case h_7 =>
        obtain ⟨⟨q, rest'⟩, hread, heq⟩ := Option.map_eq_some_iff.mp h
        obtain ⟨rfl, -⟩ := Prod.mk.inj heq
        exact isDecimal_of_readNumber hread
      all_goals
        obtain ⟨rfl, -⟩ := Prod.mk.inj (Option.some.inj h)
        exact trivial
    · rw [readItems] at h
      split at h
      · cases h
      · rename_i item rest' hitem
        split at h
        · obtain ⟨⟨items', rest''⟩, hread, heq⟩ := Option.map_eq_some_iff.mp h
          obtain ⟨rfl, -⟩ := Prod.mk.inj heq
          exact ⟨ihValue _ _ _ hitem, ihItems _ _ _ hread⟩
        · obtain ⟨rfl, -⟩ := Prod.mk.inj (Option.some.inj h)
          exact ⟨ihValue _ _ _ hitem, trivial⟩
        · cases h
    · rw [readMembers] at h
      split at h
      · split at h
        · cases h
        · split at h
          · split at h
            · cases h
            · rename_i v rest' hv
              split at h
              · obtain ⟨⟨fields', rest''⟩, hread, heq⟩ := Option.map_eq_some_iff.mp h
                obtain ⟨rfl, -⟩ := Prod.mk.inj heq
                exact ⟨ihValue _ _ _ hv, ihMembers _ _ _ hread⟩
              · obtain ⟨rfl, -⟩ := Prod.mk.inj (Option.some.inj h)
                exact ⟨ihValue _ _ _ hv, trivial⟩
              · cases h
          · cases h
      · cases h

theorem isJson_of_membersOf {s : String} {v : Value} (h : membersOf s = some v) : IsJson v := by
  unfold membersOf at h
  split at h
  case h_1 v' rest hread =>
    split at h
    · rw [← Option.some.inj h]
      exact (isJson_of_read _).1 _ _ _ hread
    · cases h
  case h_2 => cases h

/-! ## 6. Distinct keys -/

theorem areJson_iff {items : List Value} : AreJson items ↔ ∀ item ∈ items, IsJson item := by
  induction items with
  | nil => simp [AreJson]
  | cons item items ih =>
    rw [List.forall_mem_cons, ← ih]
    rfl

theorem fieldsAreJson_iff {fields : List (String × Value)} :
    FieldsAreJson fields ↔ ∀ field ∈ fields, IsJson field.2 := by
  induction fields with
  | nil => simp [FieldsAreJson]
  | cons field fields ih =>
    rw [List.forall_mem_cons, ← ih]
    rfl

mutual

/-- No object of the value has a key twice. -/
def DistinctKeys : Value → Prop
  | .arr items => AreDistinct items
  | .obj fields => (fields.map Prod.fst).Nodup ∧ FieldsAreDistinct fields
  | _ => True

def AreDistinct : List Value → Prop
  | [] => True
  | item :: items => DistinctKeys item ∧ AreDistinct items

def FieldsAreDistinct : List (String × Value) → Prop
  | [] => True
  | (_, v) :: fields => DistinctKeys v ∧ FieldsAreDistinct fields

end

theorem areDistinct_iff {items : List Value} :
    AreDistinct items ↔ ∀ item ∈ items, DistinctKeys item := by
  induction items with
  | nil => simp [AreDistinct]
  | cons item items ih =>
    rw [List.forall_mem_cons, ← ih]
    rfl

theorem fieldsAreDistinct_iff {fields : List (String × Value)} :
    FieldsAreDistinct fields ↔ ∀ field ∈ fields, DistinctKeys field.2 := by
  induction fields with
  | nil => simp [FieldsAreDistinct]
  | cons field fields ih =>
    rw [List.forall_mem_cons, ← ih]
    rfl

/-- What a property holds after the last member has won is what some member held. -/
theorem mem_lastWinsFields {acc fields : List (String × Value)} {field : String × Value}
    (h : field ∈ lastWinsFields acc fields) :
    field ∈ acc ∨ ∃ member ∈ fields, field.2 = lastWins member.2 := by
  induction fields generalizing acc with
  | nil => exact Or.inl h
  | cons member fields ih =>
    rcases ih h with hacc | ⟨later, hlater, heq⟩
    · rcases Value.mem_setKey hacc with hold | ⟨-, hnew⟩
      · exact Or.inl hold
      · exact Or.inr ⟨member, List.mem_cons_self, hnew⟩
    · exact Or.inr ⟨later, List.mem_cons_of_mem member hlater, heq⟩

theorem nodup_lastWinsFields {acc : List (String × Value)} (h : (acc.map Prod.fst).Nodup)
    (fields : List (String × Value)) : ((lastWinsFields acc fields).map Prod.fst).Nodup := by
  induction fields generalizing acc with
  | nil => exact h
  | cons member fields ih => exact ih (Value.nodup_setKey h)

mutual

theorem lastWins_spec : ∀ v, IsJson v → IsJson (lastWins v) ∧ DistinctKeys (lastWins v)
  | .undefined, h => absurd h id
  | .null, _ | .bool _, _ | .str _, _ => ⟨trivial, trivial⟩
  | .num _, h => ⟨h, trivial⟩
  | .arr items, h => by
    have hitems := lastWinsItems_spec items h
    exact ⟨areJson_iff.mpr fun item hmem => (hitems item hmem).1,
      areDistinct_iff.mpr fun item hmem => (hitems item hmem).2⟩
  | .obj fields, h => by
    have hmembers := lastWinsMembers_spec fields h
    have hfields : ∀ field ∈ lastWinsFields [] fields,
        IsJson field.2 ∧ DistinctKeys field.2 := by
      intro field hmem
      rcases mem_lastWinsFields hmem with hnil | ⟨member, hmember, heq⟩
      · exact absurd hnil List.not_mem_nil
      · rw [heq]
        exact hmembers member hmember
    refine ⟨fieldsAreJson_iff.mpr fun field hmem => (hfields field hmem).1, ?_,
      fieldsAreDistinct_iff.mpr fun field hmem => (hfields field hmem).2⟩
    exact nodup_lastWinsFields (by simp) fields

theorem lastWinsItems_spec : ∀ items, AreJson items →
    ∀ item ∈ lastWinsItems items, IsJson item ∧ DistinctKeys item
  | [], _, _, hmem => absurd hmem List.not_mem_nil
  | first :: items, h, item, hmem => by
    rcases List.mem_cons.mp hmem with rfl | hmem
    · exact lastWins_spec first h.1
    · exact lastWinsItems_spec items h.2 item hmem

theorem lastWinsMembers_spec : ∀ fields, FieldsAreJson fields →
    ∀ member ∈ fields, IsJson (lastWins member.2) ∧ DistinctKeys (lastWins member.2)
  | [], _, _, hmem => absurd hmem List.not_mem_nil
  | (key, v) :: fields, h, member, hmem => by
    rcases List.mem_cons.mp hmem with rfl | hmem
    · exact lastWins_spec v h.1
    · exact lastWinsMembers_spec fields h.2 member hmem

end

mutual

theorem lastWins_of_distinctKeys : ∀ v, DistinctKeys v → lastWins v = v
  | .undefined, _ | .null, _ | .bool _, _ | .num _, _ | .str _, _ => rfl
  | .arr items, h => congrArg Value.arr (lastWinsItems_of_distinct items h)
  | .obj fields, h =>
    congrArg Value.obj (lastWinsFields_of_distinct [] fields (by simpa using h.1) h.2)

theorem lastWinsItems_of_distinct : ∀ items, AreDistinct items → lastWinsItems items = items
  | [], _ => rfl
  | item :: items, h => by
    show lastWins item :: lastWinsItems items = item :: items
    rw [lastWins_of_distinctKeys item h.1, lastWinsItems_of_distinct items h.2]

theorem lastWinsFields_of_distinct : ∀ acc fields, ((acc ++ fields).map Prod.fst).Nodup →
    FieldsAreDistinct fields → lastWinsFields acc fields = acc ++ fields
  | acc, [], _, _ => (List.append_nil acc).symm
  | acc, (key, v) :: fields, hnodup, h => by
    have habsent : key ∉ acc.map Prod.fst := by
      rw [List.map_append, List.nodup_append] at hnodup
      intro hmem
      exact hnodup.2.2 key hmem key List.mem_cons_self rfl
    have hset : Value.setKey acc key (lastWins v) = acc ++ [(key, v)] := by
      unfold Value.setKey
      rw [Value.lookup_eq_none_of_not_mem habsent, lastWins_of_distinctKeys v h.1]
      rfl
    show lastWinsFields (Value.setKey acc key (lastWins v)) fields = acc ++ (key, v) :: fields
    rw [hset, lastWinsFields_of_distinct (acc ++ [(key, v)]) fields (by simpa using hnodup) h.2]
    simp

end

theorem parse_spec {s : String} {v : Value} (h : parse s = some v) :
    IsJson v ∧ DistinctKeys v := by
  obtain ⟨members, hmembers, rfl⟩ := Option.map_eq_some_iff.mp h
  exact lastWins_spec members (isJson_of_membersOf hmembers)

/-- `JSON.parse(JSON.stringify(v))` is `v`. -/
theorem parse_stringify {v : Value} (hjson : IsJson v) (hkeys : DistinctKeys v) :
    parse (stringify v) = some v := by
  unfold parse
  rw [membersOf_stringify hjson, Option.map_some, lastWins_of_distinctKeys v hkeys]

/-! ## 7. What is not JSON is written as what it is read back as -/

theorem jsonRoundTrip_of_isJson (v : Value) : IsJson v → v.jsonRoundTrip = v := by
  induction v using Value.deepInduction with
  | leaf v hleaf =>
    intro h
    cases v with
    | undefined => exact absurd h id
    | num n =>
      cases n with
      | finite q => rfl
      | _ => exact absurd h id
    | arr items => cases hleaf
    | obj fields => cases hleaf
    | _ => rfl
  | arr items ih =>
    intro h
    have hitems := areJson_iff.mp h
    show Value.arr (Value.jsonItems items) = .arr items
    rw [Value.jsonItems_eq_map fun item hitem => (hitems item hitem).ne_undefined]
    exact congrArg Value.arr
      ((List.map_congr_left fun item hitem => ih item hitem (hitems item hitem)).trans
        (List.map_id items))
  | obj fields ih =>
    intro h
    refine congrArg Value.obj ?_
    induction fields with
    | nil => rfl
    | cons field fields hrest =>
      obtain ⟨hfield, hfields⟩ := h
      rw [Value.jsonFields_cons, if_neg hfield.ne_undefined,
        ih field List.mem_cons_self hfield,
        hrest (fun f hf => ih f (List.mem_cons_of_mem _ hf)) hfields]

mutual

theorem writeValue_jsonRoundTrip : ∀ v, writeValue v.jsonRoundTrip = writeValue v
  | .undefined | .null | .bool _ | .str _ => rfl
  | .num n => by cases n <;> rfl
  | .arr items => congrArg ('[' :: ·) (writeItems_jsonItems items)
  | .obj fields => congrArg ('{' :: ·) (writeFields_jsonFields true fields)

theorem writeItems_jsonItems : ∀ items, writeItems (Value.jsonItems items) = writeItems items
  | [] => rfl
  | item :: items => by
    have hitem : writeValue (if item = .undefined then .null else item.jsonRoundTrip) =
        writeValue item := by
      split_ifs with hundef
      · rw [hundef]
        rfl
      · exact writeValue_jsonRoundTrip item
    rw [Value.jsonItems_cons, writeItems_cons, writeItems_cons, hitem,
      writeItems_jsonItems items]
    cases items with
    | nil => rfl
    | cons next items =>
      rw [Value.jsonItems_cons]

theorem writeFields_jsonFields (first : Bool) :
    ∀ fields, writeFields first (Value.jsonFields fields) = writeFields first fields
  | [] => rfl
  | (key, v) :: fields => by
    rw [Value.jsonFields_cons]
    split_ifs with hundef
    · rw [hundef]
      exact writeFields_jsonFields first fields
    · rw [writeFields_cons first hundef, writeFields_cons first (by simpa using hundef),
        writeValue_jsonRoundTrip v, writeFields_jsonFields false fields]

end

/-- A value that has a JSON text from which it can be read. -/
def HasText (v : Value) : Prop := IsJson v.jsonRoundTrip ∧ DistinctKeys v.jsonRoundTrip

theorem HasText.of_parse {s : String} {v : Value} (h : parse s = some v) : HasText v := by
  have hv := parse_spec h
  unfold HasText
  rwa [jsonRoundTrip_of_isJson v hv.1]

theorem parse_stringify_of_hasText {v : Value} (h : HasText v) :
    parse (stringify v) = some v.jsonRoundTrip := by
  have hwritten : stringify v = stringify v.jsonRoundTrip :=
    congrArg String.ofList (writeValue_jsonRoundTrip v).symm
  rw [hwritten, parse_stringify h.1 h.2]

end Values

end JsonText

end Clemvion.Js
