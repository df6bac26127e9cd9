import Clemvion.Js.JsonText
import Mathlib.Data.List.TakeWhile

/-!
# JsonNesting — the text of a value

A reader takes a piece of text off the front, and would take the same piece in front of another
rest.  Outside of its string literals, the braces of the piece are balanced.
-/

namespace Clemvion.Js.JsonText

/-! ## 1. Nested texts -/

/-- What may stand between two quotes. -/
inductive Quoted : List Char → Prop
  | nil : Quoted []
  | plain {c : Char} {text : List Char} : c ≠ '"' → c ≠ '\\' → Quoted text → Quoted (c :: text)
  | escape {c : Char} {text : List Char} : Quoted text → Quoted ('\\' :: c :: text)

/-- Outside of string literals, every brace has its partner. -/
inductive Nested : List Char → Prop
  | nil : Nested []
  | plain {c : Char} {text : List Char} :
      c ≠ '"' → c ≠ '{' → c ≠ '}' → Nested text → Nested (c :: text)
  | literal {body text : List Char} :
      Quoted body → Nested text → Nested ('"' :: (body ++ '"' :: text))
  | braces {inner text : List Char} :
      Nested inner → Nested text → Nested ('{' :: (inner ++ '}' :: text))

theorem Nested.append {text more : List Char} (h : Nested text) (hmore : Nested more) :
    Nested (text ++ more) := by
  induction h with
  | nil => exact hmore
  | plain hquote hopen hclose _ ih => exact .plain hquote hopen hclose ih
  | @literal body text hbody _ ih =>
    rw [List.cons_append, List.append_assoc, List.cons_append]
    exact .literal hbody ih
  | @braces inner text hinner _ _ ih =>
    rw [List.cons_append, List.append_assoc, List.cons_append]
    exact .braces hinner ih

theorem Nested.of_forall {text : List Char}
    (h : ∀ c ∈ text, c ≠ '"' ∧ c ≠ '{' ∧ c ≠ '}') : Nested text := by
  induction text with
  | nil => exact .nil
  | cons c text ih =>
    obtain ⟨hquote, hopen, hclose⟩ := h c (List.mem_cons_self ..)
    exact .plain hquote hopen hclose (ih fun d hd => h d (List.mem_cons_of_mem _ hd))

theorem Nested.spaces {space : List Char} (h : ∀ c ∈ space, isSpace c = true) : Nested space := by
  refine .of_forall fun c hc => ?_
  have hspace := h c hc
  refine ⟨?_, ?_, ?_⟩ <;>
    · rintro rfl
      exact absurd hspace (by decide)

theorem skipSpace_spec (cs : List Char) :
    ∃ space, (∀ c ∈ space, isSpace c = true) ∧ cs = space ++ skipSpace cs :=
  ⟨cs.takeWhile isSpace, fun _ hc => List.mem_takeWhile_imp hc, (List.takeWhile_append_dropWhile ..).symm⟩

/-! ## 2. What a reader takes -/

/-- A rest that a reader leaves alone as it does the other. -/
def Follows (rest rest' : List Char) : Prop := rest'.head? = rest.head? ∨ EndsNumber rest'

theorem Follows.refl (rest : List Char) : Follows rest rest := .inl rfl

theorem Follows.append {rest rest' : List Char} (h : Follows rest rest') (text : List Char) :
    Follows (text ++ rest) (text ++ rest') := by
  cases text with
  | nil => exact h
  | cons c text => exact .inl rfl

theorem Follows.head (space : List Char) (c : Char) (tail tail' : List Char) :
    Follows (space ++ c :: tail) (space ++ c :: tail') := by
  cases space <;> exact .inl rfl

/-- The reader takes this text, and would take it in front of other rests. -/
def Takes {α : Type} (read : List Char → Option (α × List Char)) (a : α) (text rest : List Char) :
    Prop :=
  ∀ rest', Follows rest rest' → read (text ++ rest') = some (a, rest')

def IsNumberChar (c : Char) : Prop := c.isDigit = true ∨ c = '-' ∨ c = '+' ∨ c = '.' ∨ c = 'e' ∨ c = 'E'

theorem Nested.number {text : List Char} (h : ∀ c ∈ text, IsNumberChar c) : Nested text := by
  refine .of_forall fun c hc => ?_
  have hnumber := h c hc
  refine ⟨?_, ?_, ?_⟩ <;>
    · rintro rfl
      exact absurd hnumber (by unfold IsNumberChar; decide)

section Numbers

variable {cs rest : List Char}

theorem readDigits_spec {digits : List Char} (h : readDigits cs = some (digits, rest)) :
    digits ≠ [] ∧ (∀ c ∈ digits, c.isDigit = true) ∧ cs = digits ++ rest ∧
      Takes readDigits digits digits rest := by
  unfold readDigits at h
  split_ifs at h with hne
  obtain ⟨rfl, rfl⟩ := Prod.mk.inj (Option.some.inj h)
  have hdigits : ∀ c ∈ cs.takeWhile Char.isDigit, c.isDigit = true := fun _ hc => List.mem_takeWhile_imp hc
  refine ⟨hne, hdigits, (List.takeWhile_append_dropWhile ..).symm, ?_⟩
  intro rest' hfollows
  refine readDigits_append hne hdigits ?_
  rcases hfollows with hhead | hends
  · intro c hc
    rw [hhead] at hc
    have hstop := List.head?_dropWhile_not Char.isDigit cs
    rw [Option.mem_def.mp hc] at hstop
    simpa using hstop
  · exact hends.no_digit

theorem readWhole_spec {digits : List Char} (h : readWhole cs = some (digits, rest)) :
    digits ≠ [] ∧ (∀ c ∈ digits, c.isDigit = true) ∧ cs = digits ++ rest ∧
      Takes readWhole digits digits rest := by
  unfold readWhole at h
  obtain ⟨⟨digits', rest'⟩, hdigits, h⟩ := Option.bind_eq_some_iff.mp h
  dsimp only at h
  split_ifs at h with hzero
  obtain ⟨rfl, rfl⟩ := Prod.mk.inj (Option.some.inj h)
  obtain ⟨hne, hall, heq, htakes⟩ := readDigits_spec hdigits
  refine ⟨hne, hall, heq, fun rest'' hfollows => ?_⟩
  unfold readWhole
  rw [htakes rest'' hfollows]
  exact if_neg hzero

theorem readFraction_spec {fraction : List Char} (h : readFraction cs = some (fraction, rest)) :
    ∃ text, (∀ c ∈ text, IsNumberChar c) ∧ cs = text ++ rest ∧ Takes readFraction fraction text rest := by
  unfold readFraction at h
  split at h
  case h_1 cs' =>
    obtain ⟨-, hall, heq, htakes⟩ := readDigits_spec h
    refine ⟨'.' :: fraction, ?_, by rw [heq]; rfl, fun rest' hfollows => htakes rest' hfollows⟩
    intro c hc
    rcases List.mem_cons.mp hc with rfl | hc
    · exact .inr (.inr (.inr (.inl rfl)))
    · exact .inl (hall c hc)
  case h_2 hdot =>
    obtain ⟨rfl, rfl⟩ := Prod.mk.inj (Option.some.inj h)
    refine ⟨[], by simp, rfl, fun rest' hfollows => ?_⟩
    rw [List.nil_append]
    unfold readFraction
    split
    case h_1 tail =>
      -- a rest with a point would be one that the reader did not stop at
      rcases hfollows with hhead | hends
      · obtain ⟨rest, rfl⟩ : ∃ rest, cs = '.' :: rest := by
          cases cs with
          | nil => cases hhead
          | cons c cs => exact ⟨cs, by rw [Option.some.inj hhead]⟩
        exact absurd rfl (hdot rest)
      · exact absurd rfl (hends '.' rfl).2.1
    case h_2 => rfl

theorem readExponent_spec {exponent : Int} (h : readExponent cs = some (exponent, rest)) :
    ∃ text, (∀ c ∈ text, IsNumberChar c) ∧ cs = text ++ rest ∧
      Takes readExponent exponent text rest := by
  have he : ∀ c, c = 'e' ∨ c = 'E' → IsNumberChar c := fun c hc =>
    .inr (.inr (.inr (.inr hc)))
  unfold readExponent at h
  -- with a sign, or with digits at once
  split at h
  case h_1 c cs' =>
    split_ifs at h with hc
    · split at h
      case h_1 cs' =>
        obtain ⟨⟨digits, rest'⟩, hdigits, h⟩ := Option.bind_eq_some_iff.mp h
        obtain ⟨rfl, rfl⟩ := Prod.mk.inj (Option.some.inj h)
        obtain ⟨-, hall, rfl, htakes⟩ := readDigits_spec hdigits
        refine ⟨c :: '-' :: digits, ?_, rfl, fun rest'' hfollows => ?_⟩
        · rintro d (_ | ⟨_, _ | ⟨_, hd⟩⟩)
          · exact he c hc
          · exact .inr (.inl rfl)
          · exact .inl (hall d hd)
        · have hread := htakes rest'' hfollows
          show (if c = 'e' ∨ c = 'E' then (readDigits (digits ++ rest'')).bind _ else _) = _
          rw [if_pos hc, hread]
          rfl
      case h_2 cs' =>
        obtain ⟨⟨digits, rest'⟩, hdigits, h⟩ := Option.bind_eq_some_iff.mp h
        obtain ⟨rfl, rfl⟩ := Prod.mk.inj (Option.some.inj h)
        obtain ⟨-, hall, rfl, htakes⟩ := readDigits_spec hdigits
        refine ⟨c :: '+' :: digits, ?_, rfl, fun rest'' hfollows => ?_⟩
        · rintro d (_ | ⟨_, _ | ⟨_, hd⟩⟩)
          · exact he c hc
          · exact .inr (.inr (.inl rfl))
          · exact .inl (hall d hd)
        · have hread := htakes rest'' hfollows
          show (if c = 'e' ∨ c = 'E' then (readDigits (digits ++ rest'')).bind _ else _) = _
          rw [if_pos hc, hread]
          rfl
      case h_3 =>
        obtain ⟨⟨digits, rest'⟩, hdigits, h⟩ := Option.bind_eq_some_iff.mp h
        obtain ⟨rfl, rfl⟩ := Prod.mk.inj (Option.some.inj h)
        obtain ⟨hne, hall, rfl, htakes⟩ := readDigits_spec hdigits
        refine ⟨c :: digits, ?_, rfl, fun rest'' hfollows => ?_⟩
        · rintro d (_ | ⟨_, hd⟩)
          · exact he c hc
          · exact .inl (hall d hd)
        · have hread := htakes rest'' hfollows
          obtain ⟨d, digits, rfl⟩ := List.exists_cons_of_ne_nil hne
          have hd := hall d (List.mem_cons_self ..)
          show readExponent (c :: d :: (digits ++ rest'')) = _
          unfold readExponent
          dsimp only
          rw [if_pos hc]
          split
          case h_1 heq =>
            rw [(List.cons.inj heq).1] at hd
            exact absurd hd (by decide)
          case h_2 heq =>
            rw [(List.cons.inj heq).1] at hd
            exact absurd hd (by decide)
          case h_3 =>
            rw [← List.cons_append, hread]
            rfl
    · obtain ⟨rfl, rfl⟩ := Prod.mk.inj (Option.some.inj h)
      refine ⟨[], by simp, rfl, fun rest' hfollows => ?_⟩
      rcases hfollows with hhead | hends
      · cases rest' with
        | nil => cases hhead
        | cons d rest' =>
          have hd : d = c := Option.some.inj hhead
          unfold readExponent
          dsimp only [List.nil_append]
          rw [hd, if_neg hc]
      · exact readExponent_end hends
  case h_2 =>
    obtain ⟨rfl, rfl⟩ := Prod.mk.inj (Option.some.inj h)
    refine ⟨[], by simp, rfl, fun rest' hfollows => ?_⟩
    rcases hfollows with hhead | hends
    · rw [List.head?_eq_none_iff.mp hhead]
      rfl
    · exact readExponent_end hends

theorem readUnsigned_spec {q : Rat} (h : readUnsigned cs = some (q, rest)) :
    ∃ c text, c.isDigit = true ∧ (∀ d ∈ c :: text, IsNumberChar d) ∧ cs = c :: text ++ rest ∧
      Takes readUnsigned q (c :: text) rest := by
  unfold readUnsigned at h
  obtain ⟨⟨whole, rest₁⟩, hwhole, h⟩ := Option.bind_eq_some_iff.mp h
  obtain ⟨⟨fraction, rest₂⟩, hfraction, h⟩ := Option.bind_eq_some_iff.mp h
  obtain ⟨⟨exponent, rest₃⟩, hexponent, h⟩ := Option.bind_eq_some_iff.mp h
  obtain ⟨rfl, rfl⟩ := Prod.mk.inj (Option.some.inj h)
  obtain ⟨hne, hdigits, rfl, htakes₁⟩ := readWhole_spec hwhole
  obtain ⟨text₂, htext₂, rfl, htakes₂⟩ := readFraction_spec hfraction
  obtain ⟨text₃, htext₃, rfl, htakes₃⟩ := readExponent_spec hexponent
  obtain ⟨c, whole, rfl⟩ := List.exists_cons_of_ne_nil hne
  refine ⟨c, whole ++ (text₂ ++ text₃), hdigits c (List.mem_cons_self ..), ?_, by simp, ?_⟩
  · intro d hd
    rw [← List.cons_append, List.mem_append, List.mem_append] at hd
    rcases hd with hd | hd | hd
    · exact .inl (hdigits d hd)
    · exact htext₂ d hd
    · exact htext₃ d hd
  · intro rest' hfollows
    -- each part is read in front of the texts of the later parts
    have hthird := htakes₃ rest' hfollows
    have hsecond := htakes₂ (text₃ ++ rest') (hfollows.append text₃)
    have hfirst := htakes₁ (text₂ ++ (text₃ ++ rest')) ((hfollows.append text₃).append text₂)
    have htext : c :: (whole ++ (text₂ ++ text₃)) ++ rest' =
        c :: whole ++ (text₂ ++ (text₃ ++ rest')) := by simp
    unfold readUnsigned
    rw [htext, hfirst]
    dsimp only [bind, Option.bind]
    rw [hsecond]
    dsimp only
    rw [hthird]
    rfl

theorem readNumber_spec {q : Rat} (h : readNumber cs = some (q, rest)) :
    ∃ text, (∀ c ∈ text, IsNumberChar c) ∧ cs = text ++ rest ∧ Takes readNumber q text rest := by
  unfold readNumber at h
  split at h
  case h_1 cs' =>
    obtain ⟨⟨q', rest'⟩, hread, heq⟩ := Option.map_eq_some_iff.mp h
    obtain ⟨rfl, rfl⟩ := Prod.mk.inj heq
    obtain ⟨c, text, -, htext, rfl, htakes⟩ := readUnsigned_spec hread
    refine ⟨'-' :: c :: text, ?_, rfl, fun rest'' hfollows => ?_⟩
    · rintro d (_ | ⟨_, hd⟩)
      · exact .inr (.inl rfl)
      · exact htext d hd
    · show (readUnsigned (c :: text ++ rest'')).map _ = _
      rw [htakes rest'' hfollows]
      rfl
  case h_2 =>
    obtain ⟨c, text, hdigit, htext, rfl, htakes⟩ := readUnsigned_spec h
    refine ⟨c :: text, htext, rfl, fun rest' hfollows => ?_⟩
    have hread := htakes rest' hfollows
    rw [List.cons_append] at hread ⊢
    unfold readNumber
    split
    case h_1 heq =>
      rw [(List.cons.inj heq).1] at hdigit
      exact absurd hdigit (by decide)
    case h_2 => exact hread

end Numbers

section Strings

variable {cs rest : List Char}

theorem plain_of_hexValue {c : Char} {n : Nat} (h : hexValue c = some n) : c ≠ '"' ∧ c ≠ '\\' := by
  constructor <;>
    · rintro rfl
      cases h

/-- The body of a string literal ends at the first quote that is not escaped. -/
theorem readCodes_spec {codes : List Nat} (h : readCodes cs = some (codes, rest)) :
    ∃ body, Quoted body ∧ cs = body ++ '"' :: rest ∧
      ∀ rest', readCodes (body ++ '"' :: rest') = some (codes, rest') := by
  induction cs using readCodes.induct generalizing codes with
  | case1 => rw [readCodes] at h; cases h
  | case2 tail =>
    rw [readCodes] at h
    obtain ⟨rfl, rfl⟩ := Prod.mk.inj (Option.some.inj h)
    exact ⟨[], .nil, rfl, fun rest' => by rw [List.nil_append, readCodes]⟩
  | case3 x y z w tail ih =>
    rw [readCodes] at h
    obtain ⟨a, ha, h⟩ := Option.bind_eq_some_iff.mp h
    obtain ⟨b, hb, h⟩ := Option.bind_eq_some_iff.mp h
    obtain ⟨c, hc, h⟩ := Option.bind_eq_some_iff.mp h
    obtain ⟨d, hd, h⟩ := Option.bind_eq_some_iff.mp h
    obtain ⟨⟨codes', rest'⟩, hcodes, h⟩ := Option.bind_eq_some_iff.mp h
    obtain ⟨rfl, rfl⟩ := Prod.mk.inj (Option.some.inj h)
    obtain ⟨body, hbody, rfl, htakes⟩ := ih hcodes
    refine ⟨'\\' :: 'u' :: x :: y :: z :: w :: body, ?_, rfl, fun rest'' => ?_⟩
    -- hexadecimal digits are no quotes
    · have hx := plain_of_hexValue ha
      have hy := plain_of_hexValue hb
      have hz := plain_of_hexValue hc
      have hw := plain_of_hexValue hd
      exact .escape (.plain hx.1 hx.2 (.plain hy.1 hy.2 (.plain hz.1 hz.2 (.plain hw.1 hw.2 hbody))))
    · show readCodes ('\\' :: 'u' :: x :: y :: z :: w :: (body ++ '"' :: rest'')) = _
      rw [readCodes, ha, hb, hc, hd, htakes rest'']
      rfl
  | case4 c tail hunicode ih =>
    rw [readCodes.eq_4 _ _ hunicode] at h
    obtain ⟨code, hcode, h⟩ := Option.bind_eq_some_iff.mp h
    obtain ⟨⟨codes', rest'⟩, hcodes, h⟩ := Option.bind_eq_some_iff.mp h
    obtain ⟨rfl, rfl⟩ := Prod.mk.inj (Option.some.inj h)
    obtain ⟨body, hbody, rfl, htakes⟩ := ih hcodes
    -- `\u` without four digits has been refused, so the escape is a short one
    have hu : c ≠ 'u' := by
      rintro rfl
      cases hcode
    refine ⟨'\\' :: c :: body, .escape hbody, rfl, fun rest'' => ?_⟩
    show readCodes ('\\' :: c :: (body ++ '"' :: rest'')) = _
    rw [readCodes.eq_4 _ _ fun _ _ _ _ _ heq => absurd heq hu, hcode, htakes rest'']
    rfl
  | case5 c tail hquote hunicode hescape hcontrol =>
    rw [readCodes.eq_5 _ _ hquote hunicode hescape, if_pos hcontrol] at h
    cases h
  | case6 tail hquote hunicode hescape hcontrol =>
    rw [readCodes.eq_5 _ _ hquote hunicode hescape, if_neg hcontrol, if_pos rfl] at h
    cases h
  | case7 c tail hquote hunicode hescape hcontrol hback ih =>
    rw [readCodes.eq_5 _ _ hquote hunicode hescape, if_neg hcontrol, if_neg hback] at h
    obtain ⟨⟨codes', rest'⟩, hcodes, h⟩ := Option.bind_eq_some_iff.mp h
    obtain ⟨rfl, rfl⟩ := Prod.mk.inj (Option.some.inj h)
    obtain ⟨body, hbody, rfl, htakes⟩ := ih hcodes
    refine ⟨c :: body, .plain hquote hback hbody, rfl, fun rest'' => ?_⟩
    show readCodes (c :: (body ++ '"' :: rest'')) = _
    rw [readCodes.eq_5 _ _ hquote (fun _ _ _ _ _ heq => absurd heq hback) fun _ _ heq => absurd heq hback,
      if_neg hcontrol, if_neg hback, htakes rest'']
    rfl

theorem readString_spec {value : String} (h : readString cs = some (value, rest)) :
    ∃ body, Quoted body ∧ cs = body ++ '"' :: rest ∧
      ∀ rest', readString (body ++ '"' :: rest') = some (value, rest') := by
  unfold readString at h
  obtain ⟨⟨codes, rest'⟩, hcodes, heq⟩ := Option.map_eq_some_iff.mp h
  obtain ⟨rfl, rfl⟩ := Prod.mk.inj heq
  obtain ⟨body, hbody, rfl, htakes⟩ := readCodes_spec hcodes
  refine ⟨body, hbody, rfl, fun rest'' => ?_⟩
  unfold readString
  rw [htakes rest'']
  rfl

end Strings

/-! ## 3. Values -/

/-- What `Takes` says, with fuel for the length of the text. -/
def Reads {α : Type} (read : Nat → List Char → Option (α × List Char)) (a : α)
    (text rest : List Char) : Prop :=
  ∀ fuel, 2 * text.length ≤ fuel → Takes (read fuel) a text rest

theorem isSpace_of_skipSpace {cs rest : List Char} {c : Char} (h : skipSpace cs = c :: rest) :
    isSpace c = false := by
  have hstop := List.head?_dropWhile_not isSpace cs
  have hhead : (cs.dropWhile isSpace).head? = some c := congrArg List.head? h
  rw [hhead] at hstop
  simpa using hstop

theorem readValue_spaces {space : List Char} (h : ∀ c ∈ space, isSpace c = true) (fuel : Nat)
    (cs : List Char) : readValue fuel (space ++ cs) = readValue fuel cs := by
  cases fuel with
  | zero => rfl
  | succ fuel => rw [readValue, readValue, skipSpace_append h]

theorem Reads.spaces {space text rest : List Char} {v : Value} (h : Reads readValue v text rest)
    (hspace : ∀ c ∈ space, isSpace c = true) : Reads readValue v (space ++ text) rest := by
  intro fuel hfuel rest' hfollows
  rw [List.length_append] at hfuel
  rw [List.append_assoc, readValue_spaces hspace]
  exact h fuel (by omega) rest' hfollows

theorem readValue_of_readNumber {cs rest : List Char} {q : Rat}
    (h : readNumber cs = some (q, rest)) (fuel : Nat) :
    readValue (fuel + 1) cs = some (.num (.finite q), rest) := by
  obtain ⟨c, cs', rfl, hc⟩ := head_of_readNumber h
  have hspace : isSpace c = false := by
    rcases hc with rfl | hc
    · decide
    · exact isSpace_of_isDigit hc
  rw [readValue, skipSpace_cons hspace]
  split
  case h_7 => rw [h]; rfl
  all_goals
    rename_i heq
    rw [(List.cons.inj heq).1] at hc
    exact absurd hc (by decide)

section Items

variable {fuel : Nat} {text space tail : List Char} {item : Value}

theorem readItems_next (hspace : ∀ d ∈ space, isSpace d = true)
    (hitem : readValue fuel (text ++ (space ++ ',' :: tail)) = some (item, space ++ ',' :: tail)) :
    readItems (fuel + 1) (text ++ (space ++ ',' :: tail)) =
      (readItems fuel tail).map fun (items, rest) => (item :: items, rest) := by
  rw [readItems, hitem]
  dsimp only
  rw [skipSpace_stop hspace (by decide)]
  rfl

theorem readItems_last (hspace : ∀ d ∈ space, isSpace d = true)
    (hitem : readValue fuel (text ++ (space ++ ']' :: tail)) = some (item, space ++ ']' :: tail)) :
    readItems (fuel + 1) (text ++ (space ++ ']' :: tail)) = some ([item], tail) := by
  rw [readItems, hitem]
  dsimp only
  rw [skipSpace_stop hspace (by decide)]
  rfl

end Items

/-- What the three readers take at this fuel. -/
structure ReadSpec (fuel : Nat) : Prop where
  value : ∀ {cs v rest}, readValue fuel cs = some (v, rest) →
    ∃ text, cs = text ++ rest ∧ Nested text ∧ Reads readValue v text rest
  items : ∀ {cs items rest}, readItems fuel cs = some (items, rest) →
    ∃ text, cs = text ++ rest ∧ Nested text ∧ Reads readItems items text rest
  members : ∀ {cs fields rest}, readMembers fuel cs = some (fields, rest) →
    ∃ inner, cs = inner ++ '}' :: rest ∧ Nested inner ∧
      Reads readMembers fields (inner ++ ['}']) rest

section Steps

variable {fuel : Nat} {cs rest : List Char}

theorem array_spec (ih : ReadSpec fuel) {v : Value}
    (h : readValue (fuel + 1) ('[' :: cs) = some (v, rest)) :
    ∃ text, '[' :: cs = text ++ rest ∧ Nested text ∧ Reads readValue v text rest := by
  obtain ⟨space, hspace, hcs⟩ := skipSpace_spec cs
  have hopen : ∀ {text}, Nested text → Nested ('[' :: (space ++ text)) := fun htext =>
    .plain (by decide) (by decide) (by decide) ((Nested.spaces hspace).append htext)
  rw [hcs, readValue_array_spaces hspace] at h
  -- the array ends at once, or its items begin
  cases hskip : skipSpace cs with
  | nil =>
    rw [hskip] at h
    obtain ⟨⟨items, rest'⟩, hitems, -⟩ := Option.map_eq_some_iff.mp
      (show (readItems fuel []).map (fun (items, rest) => (Value.arr items, rest)) = some (v, rest) from h)
    obtain ⟨text, htext, -, hreads⟩ := ih.items hitems
    obtain rfl := (List.append_eq_nil_iff.mp htext.symm).1
    cases hreads 0 (Nat.le_refl 0) rest' (.refl rest')
  | cons c tail =>
    rw [hskip] at h hcs
    have hc := isSpace_of_skipSpace hskip
    by_cases hclose : c = ']'
    · subst hclose
      obtain ⟨rfl, rfl⟩ := Prod.mk.inj (Option.some.inj h)
      refine ⟨'[' :: (space ++ [']']), by rw [hcs]; simp, hopen (.plain (by decide) (by decide) (by decide) .nil), ?_⟩
      intro fuel' hfuel rest' hfollows
      obtain ⟨fuel', rfl⟩ := Nat.exists_eq_succ_of_ne_zero (by simp at hfuel; omega : fuel' ≠ 0)
      rw [List.cons_append, List.append_assoc, readValue_array_spaces hspace]
      rfl
    · rw [readValue_array fuel tail hc hclose] at h
      obtain ⟨⟨items, rest'⟩, hitems, heq⟩ := Option.map_eq_some_iff.mp h
      obtain ⟨rfl, rfl⟩ := Prod.mk.inj heq
      obtain ⟨text, htext, hnested, hreads⟩ := ih.items hitems
      -- without fuel nothing is read, so the items have a text
      obtain ⟨d, text, rfl⟩ : ∃ d text', text = d :: text' := by
        refine List.exists_cons_of_ne_nil ?_
        rintro rfl
        cases hreads 0 (Nat.le_refl 0) rest' (.refl rest')
      obtain ⟨rfl, rfl⟩ := List.cons.inj htext
      refine ⟨'[' :: (space ++ c :: text), by rw [hcs]; simp, hopen hnested, ?_⟩
      intro fuel' hfuel rest'' hfollows
      rw [List.length_cons, List.length_append] at hfuel
      obtain ⟨fuel', rfl⟩ := Nat.exists_eq_succ_of_ne_zero (by omega : fuel' ≠ 0)
      rw [List.cons_append, List.append_assoc, readValue_array_spaces hspace, List.cons_append,
        readValue_array fuel' _ hc hclose, ← List.cons_append,
        hreads fuel' (by omega) rest'' hfollows]
      rfl

theorem object_spec (ih : ReadSpec fuel) {v : Value}
    (h : readValue (fuel + 1) ('{' :: cs) = some (v, rest)) :
    ∃ inner, cs = inner ++ '}' :: rest ∧ Nested inner ∧
      Reads readValue v ('{' :: (inner ++ ['}'])) rest := by
  obtain ⟨space, hspace, hcs⟩ := skipSpace_spec cs
  rw [hcs, readValue_object_spaces hspace] at h
  -- as for an array, with members
  cases hskip : skipSpace cs with
  | nil =>
    rw [hskip] at h
    cases fuel <;> cases h
  | cons c tail =>
    rw [hskip] at h hcs
    have hc := isSpace_of_skipSpace hskip
    by_cases hclose : c = '}'
    · subst hclose
      obtain ⟨rfl, rfl⟩ := Prod.mk.inj (Option.some.inj h)
      refine ⟨space, hcs, .spaces hspace, fun fuel' hfuel rest' hfollows => ?_⟩
      obtain ⟨fuel', rfl⟩ := Nat.exists_eq_succ_of_ne_zero (by simp at hfuel; omega : fuel' ≠ 0)
      rw [List.cons_append, List.append_assoc, readValue_object_spaces hspace]
      rfl
    · rw [readValue_object fuel tail hc hclose] at h
      obtain ⟨⟨fields, rest'⟩, hfields, heq⟩ := Option.map_eq_some_iff.mp h
      obtain ⟨rfl, rfl⟩ := Prod.mk.inj heq
      obtain ⟨inner, hinner, hnested, hreads⟩ := ih.members hfields
      obtain ⟨d, inner, rfl⟩ : ∃ d inner', inner = d :: inner' := by
        refine List.exists_cons_of_ne_nil ?_
        rintro rfl
        exact hclose (List.cons.inj hinner).1
      obtain ⟨rfl, rfl⟩ := List.cons.inj hinner
      refine ⟨space ++ c :: inner, by rw [hcs]; simp, (Nested.spaces hspace).append hnested, ?_⟩
      intro fuel' hfuel rest'' hfollows
      simp only [List.length_cons, List.length_append, List.length_nil] at hfuel
      obtain ⟨fuel', rfl⟩ := Nat.exists_eq_succ_of_ne_zero (by omega : fuel' ≠ 0)
      have hmembers := hreads fuel' (by simp; omega) rest'' hfollows
      have htext : '{' :: (space ++ c :: inner ++ ['}']) ++ rest'' =
          '{' :: (space ++ c :: (inner ++ ['}'] ++ rest'')) := by simp
      rw [htext, readValue_object_spaces hspace, readValue_object fuel' _ hc hclose,
        ← List.cons_append, ← List.cons_append, hmembers]
      rfl

theorem value_spec (ih : ReadSpec fuel) {v : Value} (h : readValue (fuel + 1) cs = some (v, rest)) :
    ∃ text, cs = text ++ rest ∧ Nested text ∧ Reads readValue v text rest := by
  obtain ⟨space, hspace, hcs⟩ := skipSpace_spec cs
  rw [hcs, readValue_spaces hspace] at h
  -- spaces in front change neither the text's nesting nor what is read
  suffices hvalue : ∃ text, skipSpace cs = text ++ rest ∧ Nested text ∧ Reads readValue v text rest by
    obtain ⟨text, htext, hnested, hreads⟩ := hvalue
    refine ⟨space ++ text, ?_, (Nested.spaces hspace).append hnested, hreads.spaces hspace⟩
    rw [List.append_assoc, ← htext, ← hcs]
  have hword : ∀ (word tail : List Char) (v : Value), word ≠ [] → Nested word →
      (∀ fuel rest, readValue (fuel + 1) (word ++ rest) = some (v, rest)) →
      ∃ text, word ++ tail = text ++ tail ∧ Nested text ∧ Reads readValue v text tail := by
    intro word tail v hne hnested hread
    refine ⟨word, rfl, hnested, fun fuel' hfuel rest' hfollows => ?_⟩
    have hlength := List.length_pos_iff.mpr hne
    obtain ⟨fuel', rfl⟩ := Nat.exists_eq_succ_of_ne_zero (by omega : fuel' ≠ 0)
    exact hread fuel' rest'
  generalize hskip : skipSpace cs = cs' at h
  have hidem : skipSpace cs' = cs' := by
    cases cs' with
    | nil => rfl
    | cons c tail => exact skipSpace_cons (isSpace_of_skipSpace hskip) tail
  -- one case for each way a value can begin
  have hread := h
  rw [readValue, hidem] at hread
  split at hread
  case h_1 tail =>
    obtain ⟨⟨value, rest'⟩, hstring, heq⟩ := Option.map_eq_some_iff.mp hread
    obtain ⟨rfl, rfl⟩ := Prod.mk.inj heq
    obtain ⟨body, hbody, rfl, htakes⟩ := readString_spec hstring
    refine ⟨'"' :: (body ++ ['"']), by simp, .literal hbody .nil, fun fuel' hfuel rest'' hfollows => ?_⟩
    obtain ⟨fuel', rfl⟩ := Nat.exists_eq_succ_of_ne_zero (by simp at hfuel; omega : fuel' ≠ 0)
    show (readString (body ++ ['"'] ++ rest'')).map _ = _
    rw [List.append_assoc, List.singleton_append, htakes rest'']
    rfl
  case h_2 tail => exact array_spec ih h
  case h_3 tail =>
    obtain ⟨inner, rfl, hnested, hreads⟩ := object_spec ih h
    exact ⟨'{' :: (inner ++ ['}']), by simp, .braces hnested .nil, hreads⟩
  case h_4 tail =>
    obtain ⟨rfl, rfl⟩ := Prod.mk.inj (Option.some.inj hread)
    exact hword ['t', 'r', 'u', 'e'] _ _ (by simp) (.of_forall (by simp)) fun _ _ => rfl
  case h_5 tail =>
    obtain ⟨rfl, rfl⟩ := Prod.mk.inj (Option.some.inj hread)
    exact hword ['f', 'a', 'l', 's', 'e'] _ _ (by simp) (.of_forall (by simp)) fun _ _ => rfl
  case h_6 tail =>
    obtain ⟨rfl, rfl⟩ := Prod.mk.inj (Option.some.inj hread)
    exact hword ['n', 'u', 'l', 'l'] _ _ (by simp) (.of_forall (by simp)) fun _ _ => rfl
  case h_7 =>
    obtain ⟨⟨q, rest'⟩, hnumber, heq⟩ := Option.map_eq_some_iff.mp hread
    obtain ⟨rfl, rfl⟩ := Prod.mk.inj heq
    obtain ⟨text, htext, rfl, htakes⟩ := readNumber_spec hnumber
    refine ⟨text, rfl, .number htext, fun fuel' hfuel rest'' hfollows => ?_⟩
    have hne : text ≠ [] := by
      rintro rfl
      obtain ⟨c, cs', hcons, -⟩ := head_of_readNumber (htakes [] (.inr fun c hc => by cases hc))
      cases hcons
    have hlength := List.length_pos_iff.mpr hne
    obtain ⟨fuel', rfl⟩ := Nat.exists_eq_succ_of_ne_zero (by omega : fuel' ≠ 0)
    exact readValue_of_readNumber (htakes rest'' hfollows) fuel'

theorem items_spec (ih : ReadSpec fuel) {items : List Value}
    (h : readItems (fuel + 1) cs = some (items, rest)) :
    ∃ text, cs = text ++ rest ∧ Nested text ∧ Reads readItems items text rest := by
  rw [readItems] at h
  cases hitem : readValue fuel cs with
  | none =>
    rw [hitem] at h
    cases h
  | some found =>
    obtain ⟨item, rest₁⟩ := found
    rw [hitem] at h
    obtain ⟨text, rfl, hnested, hreads⟩ := ih.value hitem
    obtain ⟨space, hspace, hrest⟩ := skipSpace_spec rest₁
    have hstop : ∀ {c more}, c ≠ '"' → c ≠ '{' → c ≠ '}' → Nested more →
        Nested (text ++ (space ++ c :: more)) := fun hquote hopen hclose hmore =>
      hnested.append ((Nested.spaces hspace).append (.plain hquote hopen hclose hmore))
    dsimp only at h
    split at h
    case h_1 tail heq =>
      rw [heq] at hrest
      obtain ⟨⟨items', rest'⟩, hitems, heq⟩ := Option.map_eq_some_iff.mp h
      obtain ⟨rfl, rfl⟩ := Prod.mk.inj heq
      obtain ⟨more, rfl, hmore, htakes⟩ := ih.items hitems
      refine ⟨text ++ (space ++ ',' :: more), by rw [hrest]; simp,
        hstop (by decide) (by decide) (by decide) hmore, fun fuel' hfuel rest'' hfollows => ?_⟩
      simp only [List.length_append, List.length_cons] at hfuel
      obtain ⟨fuel', rfl⟩ := Nat.exists_eq_succ_of_ne_zero (by omega : fuel' ≠ 0)
      have hvalue := hreads fuel' (by omega) (space ++ ',' :: (more ++ rest''))
        (hrest ▸ .head space ',' _ _)
      rw [List.append_assoc, List.append_assoc, List.cons_append, readItems_next hspace hvalue,
        htakes fuel' (by omega) rest'' hfollows]
      rfl
    case h_2 tail heq =>
      rw [heq] at hrest
      obtain ⟨rfl, rfl⟩ := Prod.mk.inj (Option.some.inj h)
      refine ⟨text ++ (space ++ [']']), by rw [hrest]; simp,
        hstop (by decide) (by decide) (by decide) .nil, fun fuel' hfuel rest'' hfollows => ?_⟩
      simp only [List.length_append, List.length_cons] at hfuel
      obtain ⟨fuel', rfl⟩ := Nat.exists_eq_succ_of_ne_zero (by omega : fuel' ≠ 0)
      have hvalue := hreads fuel' (by omega) (space ++ ']' :: rest'') (hrest ▸ .head space ']' _ _)
      rw [List.append_assoc, List.append_assoc, List.singleton_append]
      exact readItems_last hspace hvalue
    case h_3 => cases h

theorem members_spec (ih : ReadSpec fuel) {fields : List (String × Value)}
    (h : readMembers (fuel + 1) cs = some (fields, rest)) :
    ∃ inner, cs = inner ++ '}' :: rest ∧ Nested inner ∧
      Reads readMembers fields (inner ++ ['}']) rest := by
  rw [readMembers] at h
  obtain ⟨space₁, hspace₁, hcs⟩ := skipSpace_spec cs
  split at h
  case h_2 => cases h
  case h_1 after hquote =>
  rw [hquote] at hcs
  -- a key, a colon, a value, and then a comma or the closing brace
  cases hkey : readString after with
  | none =>
    rw [hkey] at h
    cases h
  | some found =>
    obtain ⟨key, rest₁⟩ := found
    rw [hkey] at h
    obtain ⟨body, hbody, rfl, htakes⟩ := readString_spec hkey
    obtain ⟨space₂, hspace₂, hrest₁⟩ := skipSpace_spec rest₁
    dsimp only at h
    split at h
    case h_2 => cases h
    case h_1 after₂ hcolon =>
    rw [hcolon] at hrest₁
    cases hvalue : readValue fuel after₂ with
    | none =>
      rw [hvalue] at h
      cases h
    | some found =>
      obtain ⟨v, rest₂⟩ := found
      rw [hvalue] at h
      obtain ⟨text, rfl, hnested, hreads⟩ := ih.value hvalue
      obtain ⟨space₃, hspace₃, hrest₂⟩ := skipSpace_spec rest₂
      have hstart : ∀ {more}, Nested more → Nested (memberStart space₁ body space₂ (text ++ (space₃ ++ more))) :=
        fun hmore => (Nested.spaces hspace₁).append (.literal hbody ((Nested.spaces hspace₂).append
          (.plain (by decide) (by decide) (by decide)
            (hnested.append ((Nested.spaces hspace₃).append hmore)))))
      dsimp only at h
      split at h
      case h_1 tail heq =>
        rw [heq] at hrest₂
        obtain ⟨⟨fields', rest'⟩, hfields, heq⟩ := Option.map_eq_some_iff.mp h
        obtain ⟨rfl, rfl⟩ := Prod.mk.inj heq
        obtain ⟨inner, rfl, hinner, htakes'⟩ := ih.members hfields
        refine ⟨memberStart space₁ body space₂ (text ++ (space₃ ++ ',' :: inner)), ?_,
          hstart (.plain (by decide) (by decide) (by decide) hinner), fun fuel' hfuel rest'' hfollows => ?_⟩
        · rw [hcs, hrest₁, hrest₂]
          simp [memberStart]
        · simp only [memberStart, List.length_append, List.length_cons, List.length_nil] at hfuel
          obtain ⟨fuel', rfl⟩ := Nat.exists_eq_succ_of_ne_zero (by omega : fuel' ≠ 0)
          have hvalue' := hreads fuel' (by omega) (space₃ ++ ',' :: (inner ++ ['}'] ++ rest''))
            (hrest₂ ▸ .head space₃ ',' _ _)
          have hmembers := htakes' fuel' (by simp; omega) rest'' hfollows
          have htext : memberStart space₁ body space₂ (text ++ (space₃ ++ ',' :: inner)) ++ ['}'] ++ rest'' =
              memberStart space₁ body space₂ (text ++ (space₃ ++ ',' :: (inner ++ ['}'] ++ rest''))) := by
            simp [memberStart]
          rw [htext, readMembers_start hspace₁ htakes hspace₂ hvalue', skipSpace_stop hspace₃ (by decide)]
          show (readMembers fuel' (inner ++ ['}'] ++ rest'')).map _ = _
          rw [hmembers]
          rfl
      case h_2 tail heq =>
        rw [heq] at hrest₂
        obtain ⟨rfl, rfl⟩ := Prod.mk.inj (Option.some.inj h)
        refine ⟨memberStart space₁ body space₂ (text ++ (space₃ ++ [])), ?_, hstart .nil,
          fun fuel' hfuel rest'' hfollows => ?_⟩
        · rw [hcs, hrest₁, hrest₂]
          simp [memberStart]
        · simp only [memberStart, List.length_append, List.length_cons, List.length_nil] at hfuel
          obtain ⟨fuel', rfl⟩ := Nat.exists_eq_succ_of_ne_zero (by omega : fuel' ≠ 0)
          have hvalue' := hreads fuel' (by omega) (space₃ ++ '}' :: rest'') (hrest₂ ▸ .head space₃ '}' _ _)
          have htext : memberStart space₁ body space₂ (text ++ (space₃ ++ [])) ++ ['}'] ++ rest'' =
              memberStart space₁ body space₂ (text ++ (space₃ ++ '}' :: rest'')) := by
            simp [memberStart]
          rw [htext, readMembers_start hspace₁ htakes hspace₂ hvalue', skipSpace_stop hspace₃ (by decide)]
          rfl
      case h_3 => cases h

end Steps

/-- Every reader takes a nested text, and takes it in front of any rest that fits. -/
theorem readSpec (fuel : Nat) : ReadSpec fuel := by
  -- the readers call each other with less fuel
  induction fuel with
  | zero => exact ⟨fun h => (by cases h), fun h => (by cases h), fun h => (by cases h)⟩
  | succ fuel ih => exact ⟨value_spec ih, items_spec ih, members_spec ih⟩

/-! ## 4. Texts of objects -/

theorem brace_of_readValue {fuel : Nat} {cs rest : List Char} {fields : List (String × Value)}
    (h : readValue fuel cs = some (.obj fields, rest)) : ∃ tail, skipSpace cs = '{' :: tail := by
  cases fuel with
  | zero => cases h
  | succ fuel =>
    rw [readValue] at h
    split at h
    case h_3 tail heq => exact ⟨tail, heq⟩
    case h_2 =>
      split at h
      · cases h
      · obtain ⟨_, -, heq⟩ := Option.map_eq_some_iff.mp h
        cases heq
    case h_1 =>
      obtain ⟨_, -, heq⟩ := Option.map_eq_some_iff.mp h
      cases heq
    case h_7 =>
      obtain ⟨_, -, heq⟩ := Option.map_eq_some_iff.mp h
      cases heq
    all_goals cases h

theorem membersOf_object {s : String} {members : List (String × Value)}
    (h : membersOf s = some (.obj members)) :
    ∃ before inner after, s.toList = before ++ '{' :: (inner ++ '}' :: after) ∧
      (∀ c ∈ before, isSpace c = true) ∧ (∀ c ∈ after, isSpace c = true) ∧ Nested inner ∧
      membersOf (String.ofList ('{' :: (inner ++ ['}']))) = some (.obj members) := by
  unfold membersOf at h
  split at h
  case h_2 => cases h
  case h_1 v rest hread =>
  split_ifs at h with hrest
  obtain rfl : v = .obj members := Option.some.inj h
  have hafter : ∀ c ∈ rest, isSpace c = true := List.dropWhile_eq_nil_iff.mp hrest
  obtain ⟨before, hbefore, hs⟩ := skipSpace_spec s.toList
  obtain ⟨tail, htail⟩ := brace_of_readValue hread
  rw [htail] at hs
  rw [hs, readValue_spaces hbefore] at hread
  obtain ⟨inner, rfl, hnested, hreads⟩ := object_spec (readSpec _) hread
  refine ⟨before, inner, rest, hs, hbefore, hafter, hnested, ?_⟩
  -- the braces alone are read with the fuel of their own length
  have hobject := hreads (2 * ('{' :: (inner ++ ['}'])).length + 2) (by omega) []
    (.inr fun c hc => by cases hc)
  rw [List.append_nil] at hobject
  unfold membersOf
  rw [String.toList_ofList, hobject]
  rfl

theorem members_of_lastWins {v : Value} {fields : List (String × Value)} (h : lastWins v = .obj fields) :
    ∃ members, v = .obj members := by
  cases v with
  | obj members => exact ⟨members, rfl⟩
  | _ => cases h

/-- **The text of an object.** It goes from a brace to the brace that closes it, with spaces
around, and is read without them as it is read with them. -/
theorem parse_object {s : String} {fields : List (String × Value)}
    (h : parse s = some (.obj fields)) :
    ∃ before inner after, s.toList = before ++ '{' :: (inner ++ '}' :: after) ∧
      (∀ c ∈ before, isSpace c = true) ∧ (∀ c ∈ after, isSpace c = true) ∧ Nested inner ∧
      parse (String.ofList ('{' :: (inner ++ ['}']))) = some (.obj fields) := by
  obtain ⟨v, hv, hfields⟩ := Option.map_eq_some_iff.mp h
  obtain ⟨members, rfl⟩ := members_of_lastWins hfields
  obtain ⟨before, inner, after, hs, hbefore, hafter, hnested, hmembers⟩ := membersOf_object hv
  refine ⟨before, inner, after, hs, hbefore, hafter, hnested, ?_⟩
  unfold parse
  rw [hmembers, Option.map_some, hfields]

theorem quote_of_readMembers {fuel : Nat} {cs rest : List Char} {fields : List (String × Value)}
    (h : readMembers fuel cs = some (fields, rest)) : '"' ∈ cs := by
  cases fuel with
  | zero => cases h
  | succ fuel =>
    rw [readMembers] at h
    split at h
    case h_2 => cases h
    case h_1 heq =>
      have hmem : '"' ∈ skipSpace cs := by
        rw [heq]
        exact List.mem_cons_self ..
      exact (List.dropWhile_sublist isSpace).subset hmem

/-- Without quotes there are no members. -/
theorem parse_unquoted {s : String} {fields : List (String × Value)} (hquote : '"' ∉ s.toList)
    (h : parse s = some (.obj fields)) : fields = [] := by
  obtain ⟨v, hv, hfields⟩ := Option.map_eq_some_iff.mp h
  obtain ⟨members, rfl⟩ := members_of_lastWins hfields
  suffices hmembers : members = [] by
    subst hmembers
    exact (Value.obj.inj hfields).symm
  unfold membersOf at hv
  split at hv
  case h_2 => cases hv
  case h_1 v rest hread =>
  split_ifs at hv
  obtain rfl : v = .obj members := Option.some.inj hv
  obtain ⟨before, hbefore, hs⟩ := skipSpace_spec s.toList
  obtain ⟨tail, htail⟩ := brace_of_readValue hread
  rw [htail] at hs
  rw [hs, readValue_spaces hbefore] at hread
  rcases readValue_object_cases hread with hnil | hmembers
  · exact hnil
  · have hmem := (List.dropWhile_sublist isSpace).subset (quote_of_readMembers hmembers)
    exact absurd (by rw [hs]; simp [hmem]) hquote

end Clemvion.Js.JsonText
