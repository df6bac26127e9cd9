import Clemvion.Expression.Printer
import Clemvion.Js.JsonText

/-!
# Spelling — printed lexemes are scanned back

`Scans d lexemes d'` says that the tokenizer, in an expression with `d` open braces, reads the
spelled lexemes as those tokens and goes on with `d'` open braces, whatever follows after a space.
It composes along the list, so a printed tree scans by induction on the tree.
-/

open Clemvion.Js Clemvion.Library

namespace Clemvion.Expression

/-! ## 1. One lexeme -/

section Strings

variable (quote : Quote)

theorem escapedCharacter_quote : escapedCharacter quote.character = quote.character := by
  cases quote <;> rfl

theorem readStringFrom_plain {quote c : Char} (rest : List Char) (hslash : c ≠ '\\')
    (hquote : c ≠ quote) :
    readStringFrom quote (c :: rest) = (readStringFrom quote rest).map (c :: ·) := by
  rw [readStringFrom, if_neg hquote]
  intro next after hc
  exact absurd hc hslash

theorem skipPastStringEnd_plain {quote c : Char} (rest : List Char) (hslash : c ≠ '\\')
    (hquote : c ≠ quote) : skipPastStringEnd quote (c :: rest) = skipPastStringEnd quote rest := by
  rw [skipPastStringEnd, if_neg hquote]
  intro next after hc
  exact absurd hc hslash

theorem quote_ne_slash : quote.character ≠ '\\' := by cases quote <;> decide

/-- What the decoder makes of an escaped character, and how far the skipper goes. -/
theorem read_escapeCharacter (c : Char) (rest : List Char) :
    readStringFrom quote.character (escapeCharacter quote.character c ++ rest) =
        (readStringFrom quote.character rest).map (c :: ·) ∧
      skipPastStringEnd quote.character (escapeCharacter quote.character c ++ rest) =
        skipPastStringEnd quote.character rest := by
  unfold escapeCharacter
  split_ifs with hslash hquote hnewline htab hreturn
  · rw [hslash]
    exact ⟨rfl, rfl⟩
  · rw [hquote]
    show (readStringFrom quote.character rest).map (escapedCharacter quote.character :: ·) = _ ∧ _
    rw [escapedCharacter_quote]
    exact ⟨rfl, rfl⟩
  · rw [hnewline]
    exact ⟨rfl, rfl⟩
  · rw [htab]
    exact ⟨rfl, rfl⟩
  · rw [hreturn]
    exact ⟨rfl, rfl⟩
  · exact ⟨readStringFrom_plain rest hslash hquote, skipPastStringEnd_plain rest hslash hquote⟩

theorem read_escaped (value rest : List Char) :
    readStringFrom quote.character
          (value.flatMap (escapeCharacter quote.character) ++ quote.character :: rest) = some value ∧
      skipPastStringEnd quote.character
          (value.flatMap (escapeCharacter quote.character) ++ quote.character :: rest) = rest := by
  induction value with
  | nil =>
    have hread : readStringFrom quote.character (quote.character :: rest) = some [] := by
      rw [readStringFrom, if_pos rfl]
      intro next after hc
      exact absurd hc (quote_ne_slash quote)
    have hskip : skipPastStringEnd quote.character (quote.character :: rest) = rest := by
      rw [skipPastStringEnd, if_pos rfl]
      intro next after hc
      exact absurd hc (quote_ne_slash quote)
    exact ⟨hread, hskip⟩
  | cons c value ih =>
    obtain ⟨hread, hskip⟩ := read_escapeCharacter quote c
      (value.flatMap (escapeCharacter quote.character) ++ quote.character :: rest)
    rw [List.flatMap_cons, List.append_assoc, hread, hskip, ih.1, ih.2]
    exact ⟨rfl, rfl⟩

end Strings

/-- The lexeme is spelled the way its type asks for. -/
def Lexeme.WellSpelled (lexeme : Lexeme) : Prop :=
  match lexeme.type with
  | .string => True
  | .number => lexeme.value.toList ≠ [] ∧ ∀ c ∈ lexeme.value.toList, c.isDigit = true
  | .boolean => lexeme.value = "true" ∨ lexeme.value = "false"
  | .identifier => isIdentifierName lexeme.value = true
  | .text | .exprStart | .exprEnd | .eof => False
  | type => some lexeme.value = type.spelling

theorem twoCharacterOperator_eq_none {c : Char} (d : Char) (h : c ∉ "=!<>&|?".toList) :
    twoCharacterOperator c d = none := by
  unfold twoCharacterOperator
  split
  all_goals first | rfl | exact absurd (by decide) h

theorem singleCharacterToken_eq_none {c : Char} (h : c ∉ "+-*/%!<>?:.,()[]\x7b".toList) :
    singleCharacterToken c = none := by
  unfold singleCharacterToken
  split
  all_goals first | rfl | exact absurd (by decide) h

/-- A number, a string or a name starts with the character. -/
def startsWord (c : Char) : Bool :=
  c.isDigit || c = '"' || c = '\'' || c = '$' || isIdentStart c

theorem no_operator_of_startsWord {c : Char} (h : startsWord c = true) (rest : List Char) :
    rest.head?.bind (twoCharacterOperator c) = none := by
  have hnone : "=!<>&|?".toList.all (fun d => !startsWord d) = true := by decide
  have hc : c ∉ "=!<>&|?".toList := by
    intro hmem
    have hc := List.all_eq_true.mp hnone c hmem
    rw [h] at hc
    cases hc
  cases rest with
  | nil => rfl
  | cons d rest => exact twoCharacterOperator_eq_none d hc

theorem no_delimiter_of_startsWord {c : Char} (h : startsWord c = true) :
    singleCharacterToken c = none := by
  have hnone : "+-*/%!<>?:.,()[]\x7b".toList.all (fun d => !startsWord d) = true := by decide
  apply singleCharacterToken_eq_none
  intro hmem
  have hc := List.all_eq_true.mp hnone c hmem
  rw [h] at hc
  cases hc

/-- A word is read by what it starts with. -/
theorem readExpressionToken_word {c : Char} (h : startsWord c = true) (rest : List Char)
    (pos : Nat) : readExpressionToken (c :: rest) pos =
      if c.isDigit then .ok (readNumber (c :: rest) pos)
      else if c = '"' ∨ c = '\'' then readString c rest pos
      else readIdentifier (c :: rest) pos := by
  unfold readExpressionToken
  dsimp only
  rw [no_operator_of_startsWord h, no_delimiter_of_startsWord h]
  dsimp only
  split_ifs with hdigit hquote hident
  · rfl
  · rfl
  · rfl
  · simp [startsWord, hdigit, not_or.mp hquote, not_or.mp hident] at h

theorem exists_cons_of_head? {c : Char} {rest : List Char} (h : rest.head? = some c) :
    ∃ after, rest = c :: after := List.head?_eq_some_iff.mp h

theorem readExpressionToken_number {digits rest : List Char} (hne : digits ≠ [])
    (hdigits : ∀ c ∈ digits, c.isDigit = true) (hrest : rest.head? = some ' ') (pos : Nat) :
    readExpressionToken (digits ++ rest) pos = .ok ⟨.number, String.ofList digits, pos⟩ := by
  obtain ⟨after, rfl⟩ := exists_cons_of_head? hrest
  have htake : (digits ++ ' ' :: after).takeWhile Char.isDigit = digits := by
    rw [List.takeWhile_append_of_pos hdigits]
    simp
  have hdrop : (digits ++ ' ' :: after).dropWhile Char.isDigit = ' ' :: after := by
    rw [List.dropWhile_append_of_pos hdigits]
    rfl
  have hnumber : readNumber (digits ++ ' ' :: after) pos = ⟨.number, String.ofList digits, pos⟩ := by
    unfold readNumber
    rw [htake, hdrop]
    simp
  cases digits with
  | nil => exact absurd rfl hne
  | cons c digits =>
    have hc : c.isDigit = true := hdigits c List.mem_cons_self
    rw [List.cons_append] at hnumber ⊢
    rw [readExpressionToken_word (by simp [startsWord, hc]), if_pos hc, hnumber]

theorem readExpressionToken_string (quote : Quote) (value rest : List Char) (pos : Nat) :
    readExpressionToken (quote.character :: (value.flatMap (escapeCharacter quote.character) ++
        quote.character :: rest)) pos = .ok ⟨.string, String.ofList value, pos⟩ := by
  have hstart : startsWord quote.character = true := by cases quote <;> decide
  have hdigit : quote.character.isDigit = false := by cases quote <;> decide
  have hquote : quote.character = '"' ∨ quote.character = '\'' := by cases quote <;> decide
  rw [readExpressionToken_word hstart, hdigit, if_neg Bool.false_ne_true, if_pos hquote]
  unfold readString
  rw [(read_escaped quote value rest).1]

/-- The longest name that starts the input is the name itself, in front of a space. -/
theorem identifierCharacters_append {c : Char} {characters rest : List Char}
    (hstart : isIdentStart c = true) (hparts : ∀ d ∈ characters, isIdentPart d = true)
    (hrest : rest.head? = some ' ') :
    identifierCharacters (c :: (characters ++ rest)) = c :: characters := by
  obtain ⟨after, rfl⟩ := exists_cons_of_head? hrest
  have htake : (characters ++ ' ' :: after).takeWhile isIdentPart = characters := by
    rw [List.takeWhile_append_of_pos hparts]
    have hspace : isIdentPart ' ' = false := by decide
    simp [hspace]
  show (if isIdentStart c = true then c :: _ else []) = _
  rw [if_pos hstart, htake]

theorem toNat_of_isIdentStart {c : Char} (h : isIdentStart c = true) :
    65 ≤ c.toNat ∧ c.toNat ≤ 122 := by
  unfold isIdentStart at h
  rw [Bool.or_eq_true, Bool.or_eq_true, decide_eq_true_eq] at h
  rcases h with (h | h) | rfl
  · have hlower := Bool.and_eq_true_iff.mp h
    have hrange : 97 ≤ c.toNat ∧ c.toNat ≤ 122 :=
      ⟨of_decide_eq_true hlower.1, of_decide_eq_true hlower.2⟩
    omega
  · have hrange : 65 ≤ c.toNat ∧ c.toNat ≤ 90 := of_decide_eq_true h
    omega
  · decide

theorem isDigit_of_isIdentStart {c : Char} (h : isIdentStart c = true) : c.isDigit = false := by
  have hrange := toNat_of_isIdentStart h
  rw [Bool.eq_false_iff]
  intro hdigit
  simp only [Char.isDigit, Bool.and_eq_true, decide_eq_true_eq] at hdigit
  have hle : c.toNat ≤ 57 := hdigit.2
  omega

theorem isJsSpace_of_isIdentStart {c : Char} (h : isIdentStart c = true) : isJsSpace c = false := by
  have hrange := toNat_of_isIdentStart h
  exact isJsSpace_of_visible (by omega)

/-- A name, with or without `$`, is read as far as it goes. -/
theorem readExpressionToken_name {name rest : List Char} (hrest : rest.head? = some ' ') (pos : Nat)
    (hname : ∃ c characters, (name = c :: characters ∨ name = '$' :: c :: characters) ∧
      isIdentStart c = true ∧ ∀ d ∈ characters, isIdentPart d = true) :
    readExpressionToken (name ++ rest) pos = .ok (keywordOrIdentifier (String.ofList name) pos) := by
  obtain ⟨c, characters, hform, hstart, hparts⟩ := hname
  have hread := identifierCharacters_append hstart hparts hrest
  have hdigit := isDigit_of_isIdentStart hstart
  have hquote : ¬(c = '"' ∨ c = '\'') := by
    rintro (rfl | rfl) <;> exact absurd hstart (by decide)
  have hdollar : c ≠ '$' := by
    rintro rfl
    exact absurd hstart (by decide)
  rcases hform with rfl | rfl
  · rw [List.cons_append, readExpressionToken_word (by simp [startsWord, hstart]), hdigit,
      if_neg Bool.false_ne_true, if_neg hquote]
    unfold readIdentifier
    split
    case h_1 heq => exact absurd (List.cons.inj heq).1 hdollar
    case h_2 => rw [hread]
  · rw [List.cons_append, List.cons_append, readExpressionToken_word (by decide),
      if_neg (by decide), if_neg (by decide)]
    show (if identifierCharacters (c :: (characters ++ rest)) = [] then _ else _) = _
    rw [hread, if_neg (List.cons_ne_nil _ _)]

theorem name_of_isIdentifierName {name : String} (h : isIdentifierName name = true) :
    (∃ c characters, (name.toList = c :: characters ∨ name.toList = '$' :: c :: characters) ∧
      isIdentStart c = true ∧ ∀ d ∈ characters, isIdentPart d = true) ∧
      ∀ pos, keywordOrIdentifier name pos = ⟨.identifier, name, pos⟩ := by
  unfold isIdentifierName at h
  simp only [Bool.and_eq_true, decide_eq_true_eq] at h
  obtain ⟨⟨⟨hform, htrue⟩, hfalse⟩, hnull⟩ := h
  constructor
  · split at hform
    case h_2 => cases hform
    case h_1 c characters heq =>
      rw [Bool.and_eq_true, List.all_eq_true] at hform
      refine ⟨c, characters, ?_, hform.1, hform.2⟩
      split at heq
      case h_1 hname => exact Or.inr (by rw [hname, heq])
      case h_2 => exact Or.inl heq
  · intro pos
    unfold keywordOrIdentifier
    rw [if_neg (not_or.mpr ⟨htrue, hfalse⟩), if_neg hnull]

theorem readExpressionToken_keyword {word : String} {type : TokenType} {rest : List Char}
    (hrest : rest.head? = some ' ') (pos : Nat)
    (hword : (word = "true" ∨ word = "false") ∧ type = .boolean ∨ word = "null" ∧ type = .null) :
    readExpressionToken (word.toList ++ rest) pos = .ok ⟨type, word, pos⟩ := by
  rcases hword with ⟨rfl | rfl, rfl⟩ | ⟨rfl, rfl⟩
  · exact readExpressionToken_name hrest pos ⟨'t', "rue".toList, Or.inl rfl, by decide,
      List.all_eq_true.mp (by decide)⟩
  · exact readExpressionToken_name hrest pos ⟨'f', "alse".toList, Or.inl rfl, by decide,
      List.all_eq_true.mp (by decide)⟩
  · exact readExpressionToken_name hrest pos ⟨'n', "ull".toList, Or.inl rfl, by decide,
      List.all_eq_true.mp (by decide)⟩

/-- Scanning the spelled lexeme in front of a space gives it back. -/
structure Reads (quote : Quote) (lexeme : Lexeme) (rest : List Char) : Prop where
  head : ∃ c, (lexeme.spelled quote).head? = some c ∧ isJsSpace c = false ∧ c ≠ '}'
  token : ∀ pos, readExpressionToken (lexeme.spelled quote ++ rest) pos =
    .ok ⟨lexeme.type, lexeme.value, pos⟩

theorem Reads.of_value {quote : Quote} {lexeme : Lexeme} {rest : List Char}
    (htype : lexeme.type ≠ .string)
    (hhead : ∃ c, lexeme.value.toList.head? = some c ∧ isJsSpace c = false ∧ c ≠ '}')
    (htoken : ∀ pos, readExpressionToken (lexeme.value.toList ++ rest) pos =
      .ok ⟨lexeme.type, lexeme.value, pos⟩) : Reads quote lexeme rest := by
  have hspelled : lexeme.spelled quote = lexeme.value.toList := if_neg htype
  exact ⟨by rwa [hspelled], by rwa [hspelled]⟩

theorem reads_lexeme (quote : Quote) {lexeme : Lexeme} {rest : List Char}
    (h : lexeme.WellSpelled) (hbrace : lexeme.type ≠ .rBrace) (hrest : rest.head? = some ' ') :
    Reads quote lexeme rest := by
  obtain ⟨type, value⟩ := lexeme
  cases type with
  | string =>
    have hspelled : Lexeme.spelled quote ⟨.string, value⟩ ++ rest =
        quote.character :: (value.toList.flatMap (escapeCharacter quote.character) ++
          quote.character :: rest) := by simp [Lexeme.spelled]
    refine ⟨⟨quote.character, rfl, ?_, ?_⟩, fun pos => ?_⟩
    · cases quote <;> decide
    · cases quote <;> decide
    · rw [hspelled, readExpressionToken_string, String.ofList_toList]
  | number =>
    obtain ⟨hne, hdigits⟩ : value.toList ≠ [] ∧ ∀ c ∈ value.toList, c.isDigit = true := h
    obtain ⟨c, digits, hcons⟩ := List.exists_cons_of_ne_nil hne
    have hc : c.isDigit = true := hdigits c (by rw [hcons]; exact List.mem_cons_self)
    apply Reads.of_value (by simp)
    · refine ⟨c, by rw [hcons]; rfl, isJsSpace_of_isDigit hc, ?_⟩
      rintro rfl
      exact absurd hc (by decide)
    · intro pos
      rw [readExpressionToken_number hne hdigits hrest, String.ofList_toList]
  | boolean =>
    have hvalue : value = "true" ∨ value = "false" := h
    apply Reads.of_value (by simp)
    · rcases hvalue with rfl | rfl
      · exact ⟨'t', rfl, by decide, by decide⟩
      · exact ⟨'f', rfl, by decide, by decide⟩
    · exact fun pos => readExpressionToken_keyword hrest pos (Or.inl ⟨hvalue, rfl⟩)
  | null =>
    have hvalue : value = "null" := Option.some.inj h
    apply Reads.of_value (by simp)
    · rw [hvalue]
      exact ⟨'n', rfl, by decide, by decide⟩
    · exact fun pos => readExpressionToken_keyword hrest pos (Or.inr ⟨hvalue, rfl⟩)
  | identifier =>
    obtain ⟨⟨c, characters, hform, hstart, hparts⟩, hidentifier⟩ := name_of_isIdentifierName h
    apply Reads.of_value (by simp)
    · rcases hform with hform | hform
      · refine ⟨c, by rw [hform]; rfl, isJsSpace_of_isIdentStart hstart, ?_⟩
        rintro rfl
        exact absurd hstart (by decide)
      · exact ⟨'$', by rw [hform]; rfl, by decide, by decide⟩
    · intro pos
      rw [readExpressionToken_name hrest pos ⟨c, characters, hform, hstart, hparts⟩,
        String.ofList_toList, hidentifier]
  | rBrace => exact absurd rfl hbrace
  | text => cases h
  | exprStart => cases h
  | exprEnd => cases h
  | eof => cases h
  -- operators and delimiters: the space behind them decides every test
  | _ =>
    obtain ⟨after, rfl⟩ := exists_cons_of_head? hrest
    obtain rfl := Option.some.inj h
    exact Reads.of_value (by simp) ⟨_, rfl, by decide, by decide⟩ fun pos => rfl

/-! ## 2. The loop over the spelled lexemes -/

def depthAfter (braceDepth : Nat) : TokenType → Nat
  | .lBrace => braceDepth + 1
  | .rBrace => braceDepth - 1
  | _ => braceDepth

theorem depthAfter_of_ne (braceDepth : Nat) {type : TokenType} (h : type ≠ .rBrace) :
    depthAfter braceDepth type = if type = .lBrace then braceDepth + 1 else braceDepth := by
  cases type <;> first | rfl | exact absurd rfl h

theorem afterToken_spelled (quote : Quote) (lexeme : Lexeme) (pos : Int) (rest : List Char) :
    afterToken ⟨lexeme.type, lexeme.value, pos⟩ (lexeme.spelled quote ++ rest) = rest := by
  unfold afterToken Lexeme.spelled
  by_cases htype : lexeme.type = .string
  · rw [if_pos htype, if_pos htype]
    have hskip := (read_escaped quote lexeme.value.toList rest).2
    simpa using hskip
  · rw [if_neg htype, if_neg htype]
    exact List.drop_left

/-- One round on a spelled lexeme pushes it and follows the braces. -/
theorem run_lexeme (quote : Quote) (length : Nat) {lexeme : Lexeme} {rest : List Char}
    {braceDepth : Nat} (h : lexeme.WellSpelled) (hbrace : lexeme.type = .rBrace → 0 < braceDepth)
    (hrest : rest.head? = some ' ') : ∃ pos : Nat,
      (tokenizeFrom length ⟨true, braceDepth⟩).run (' ' :: (lexeme.spelled quote ++ rest)) =
        push ⟨lexeme.type, lexeme.value, pos⟩
          (tokenizeFrom length ⟨true, depthAfter braceDepth lexeme.type⟩) rest := by
  rw [tokenizeFrom_eq]
  by_cases htype : lexeme.type = .rBrace
  · obtain ⟨type, value⟩ := lexeme
    obtain rfl : type = .rBrace := htype
    obtain rfl : value = "\x7d" := Option.some.inj h
    obtain ⟨after, rfl⟩ := exists_cons_of_head? hrest
    refine ⟨length - (('}' :: ' ' :: after).map utf16Width).sum, ?_⟩
    show scan length (tokenizeFrom length) ⟨true, braceDepth⟩ (' ' :: '}' :: ' ' :: after) = _
    have hskip : skipWhitespace (' ' :: '}' :: ' ' :: after) = '}' :: ' ' :: after := rfl
    unfold scan
    dsimp only
    rw [if_pos rfl, hskip]
    dsimp only
    rw [if_neg (by simp), if_pos ⟨rfl, hbrace rfl⟩]
    rfl
  · obtain ⟨⟨c, hhead, hspace, hc⟩, htoken⟩ := reads_lexeme quote h htype hrest
    obtain ⟨cs, hcs⟩ := exists_cons_of_head? hhead
    have hskip : skipWhitespace (' ' :: (lexeme.spelled quote ++ rest)) = c :: (cs ++ rest) := by
      rw [hcs]
      unfold skipWhitespace
      rw [List.dropWhile_cons, if_pos (by decide), List.cons_append, List.dropWhile_cons, hspace]
      rfl
    have hafter := fun pos => afterToken_spelled quote lexeme pos rest
    rw [hcs, List.cons_append] at htoken hafter
    refine ⟨length - ((c :: (cs ++ rest)).map utf16Width).sum, ?_⟩
    show scan length (tokenizeFrom length) ⟨true, braceDepth⟩ (' ' :: (lexeme.spelled quote ++ rest)) = _
    unfold scan
    dsimp only
    rw [if_pos rfl, hskip]
    dsimp only
    rw [if_neg (fun hand => hc hand.1), if_neg (fun hand => hc hand.1), htoken]
    show push _ (tokenizeFrom length ⟨true, _⟩) (afterToken ⟨lexeme.type, lexeme.value, _⟩ _) = _
    rw [hafter, depthAfter_of_ne braceDepth htype]

/-! ## 3. Lists of lexemes -/

/-- In an expression with `d` open braces the spelled lexemes are scanned as tokens, and leave
`d'` braces open. -/
def Scans (quote : Quote) (d : Nat) (lexemes : List Lexeme) (d' : Nat) : Prop :=
  ∀ length rest, rest.head? = some ' ' → ∃ tokens : List Token, tokens.map Token.lexeme = lexemes ∧
    (tokenizeFrom length ⟨true, d⟩).run (spell quote lexemes ++ rest) =
      ((tokenizeFrom length ⟨true, d'⟩).run rest).map fun result => (tokens ++ result.1, result.2)

theorem Scans.nil (quote : Quote) (d : Nat) : Scans quote d [] d := by
  intro length rest _
  refine ⟨[], rfl, ?_⟩
  show (tokenizeFrom length ⟨true, d⟩).run rest = _
  cases (tokenizeFrom length ⟨true, d⟩).run rest <;> rfl

theorem head_spell_append {quote : Quote} {lexemes : List Lexeme} {rest : List Char}
    (h : rest.head? = some ' ') : (spell quote lexemes ++ rest).head? = some ' ' := by
  cases lexemes with
  | nil => exact h
  | cons lexeme lexemes => rfl

variable {quote : Quote} {d d' d'' : Nat} {lexemes lexemes' : List Lexeme}

theorem Scans.append (h : Scans quote d lexemes d') (h' : Scans quote d' lexemes' d'') :
    Scans quote d (lexemes ++ lexemes') d'' := by
  intro length rest hrest
  obtain ⟨tokens, htokens, hrun⟩ := h length (spell quote lexemes' ++ rest) (head_spell_append hrest)
  obtain ⟨tokens', htokens', hrun'⟩ := h' length rest hrest
  refine ⟨tokens ++ tokens', by rw [List.map_append, htokens, htokens'], ?_⟩
  unfold spell at hrun hrun' ⊢
  rw [List.flatMap_append, List.append_assoc, hrun, hrun']
  cases (tokenizeFrom length ⟨true, d''⟩).run rest with
  | error e => rfl
  | ok result => exact congrArg Except.ok (Prod.ext (List.append_assoc _ _ _).symm rfl)

theorem Scans.lexeme {lexeme : Lexeme} (h : lexeme.WellSpelled)
    (hbrace : lexeme.type = .rBrace → 0 < d) :
    Scans quote d [lexeme] (depthAfter d lexeme.type) := by
  intro length rest hrest
  obtain ⟨pos, hrun⟩ := run_lexeme quote length h hbrace hrest
  refine ⟨[⟨lexeme.type, lexeme.value, pos⟩], rfl, ?_⟩
  have hspell : spell quote [lexeme] ++ rest = ' ' :: (lexeme.spelled quote ++ rest) := by
    simp [spell]
  rw [hspell, hrun]
  rfl

/-- The lexemes leave as many braces open as there were. -/
def Balanced (quote : Quote) (lexemes : List Lexeme) : Prop := ∀ d, Scans quote d lexemes d

theorem Balanced.append (h : Balanced quote lexemes) (h' : Balanced quote lexemes') :
    Balanced quote (lexemes ++ lexemes') := fun d => (h d).append (h' d)

/-- A well-spelled lexeme other than a brace. -/
def Lexeme.IsPlain (lexeme : Lexeme) : Prop :=
  lexeme.WellSpelled ∧ lexeme.type ≠ .lBrace ∧ lexeme.type ≠ .rBrace

theorem balanced_lexeme {lexeme : Lexeme} (h : lexeme.IsPlain) : Balanced quote [lexeme] := by
  intro d
  have hscan : Scans quote d [lexeme] (depthAfter d lexeme.type) :=
    Scans.lexeme h.1 fun htype => absurd htype h.2.2
  rwa [depthAfter_of_ne d h.2.2, if_neg h.2.1] at hscan

theorem Balanced.cons {lexeme : Lexeme} (h : Balanced quote lexemes') (hlexeme : lexeme.IsPlain) :
    Balanced quote (lexeme :: lexemes') := (balanced_lexeme hlexeme).append h

theorem Balanced.braces (h : Balanced quote lexemes) :
    Balanced quote (fixed .lBrace :: (lexemes ++ [fixed .rBrace])) := by
  intro d
  have hopen : Scans quote d [fixed .lBrace] (d + 1) := Scans.lexeme rfl fun htype => nomatch htype
  have hclose : Scans quote (d + 1) [fixed .rBrace] d :=
    Scans.lexeme rfl fun _ => Nat.succ_pos d
  exact hopen.append ((h (d + 1)).append hclose)

theorem Balanced.flatMap_comma {lists : List (List Lexeme)}
    (h : ∀ lexemes ∈ lists, Balanced quote lexemes) :
    Balanced quote (lists.flatMap (fixed .comma :: ·)) := by
  induction lists with
  | nil => exact fun d => Scans.nil quote d
  | cons first rest ih =>
    rw [List.flatMap_cons]
    have hcomma : (fixed .comma).IsPlain := ⟨rfl, by decide, by decide⟩
    have hfirst := (h first List.mem_cons_self).cons hcomma
    exact hfirst.append (ih fun lexemes hmem => h lexemes (List.mem_cons_of_mem first hmem))

theorem Balanced.commaSeparated {lists : List (List Lexeme)}
    (h : ∀ lexemes ∈ lists, Balanced quote lexemes) : Balanced quote (commaSeparated lists) := by
  cases lists with
  | nil => exact fun d => Scans.nil quote d
  | cons first rest =>
    exact (h first List.mem_cons_self).append
      (flatMap_comma fun lexemes hmem => h lexemes (List.mem_cons_of_mem first hmem))

theorem Balanced.between {first last : Lexeme} (h : Balanced quote lexemes) (hfirst : first.IsPlain)
    (hlast : last.IsPlain) : Balanced quote (first :: (lexemes ++ [last])) :=
  (h.append (balanced_lexeme hlast)).cons hfirst

theorem Balanced.atLevel (level : Nat) (node : ASTNode) (h : Balanced quote lexemes) :
    Balanced quote (atLevel level node lexemes) := by
  unfold Expression.atLevel
  split
  · exact h.between ⟨rfl, by decide, by decide⟩ ⟨rfl, by decide, by decide⟩
  · exact h

/-! ## 4. Printed trees -/

theorem isPlain_printKey (bareKeys : Bool) (key : String) : (printKey bareKeys key).IsPlain := by
  unfold printKey
  split
  case isTrue h => exact ⟨(Bool.and_eq_true_iff.mp h).2, by simp, by simp⟩
  case isFalse => exact ⟨trivial, by simp, by simp⟩

theorem isPlain_numeral (n : Nat) : Lexeme.IsPlain ⟨.number, numeral (.finite n)⟩ := by
  have hdigits : (numeral (.finite n)).toList = Nat.toDigits 10 n := String.toList_ofList
  refine ⟨?_, by simp, by simp⟩
  show (numeral (.finite n)).toList ≠ [] ∧ ∀ c ∈ (numeral (.finite n)).toList, c.isDigit = true
  rw [hdigits]
  exact ⟨Nat.toDigits_ne_nil, fun c hc => JsonText.isDigit_of_mem_toDigits hc⟩

theorem isPlain_binary (operator : BinaryOperator) : (fixed operator.token).IsPlain := by
  cases operator <;> exact ⟨rfl, by decide, by decide⟩

theorem isPlain_unary (operator : UnaryOperator) : (fixed operator.token).IsPlain := by
  cases operator <;> exact ⟨rfl, by decide, by decide⟩

variable (quote : Quote) (bareKeys : Bool)

mutual

theorem balanced_print : ∀ node, Printable node → Balanced quote (print bareKeys node)
  | .numberLiteral value, h => by
    obtain ⟨n, rfl⟩ : ∃ n : Nat, value = .finite n := h
    exact balanced_lexeme (isPlain_numeral n)
  | .stringLiteral value, _ => balanced_lexeme ⟨trivial, by simp, by simp⟩
  | .booleanLiteral value, _ => by
    cases value with
    | true => exact balanced_lexeme ⟨Or.inl rfl, by simp, by simp⟩
    | false => exact balanced_lexeme ⟨Or.inr rfl, by simp, by simp⟩
  | .nullLiteral, _ => balanced_lexeme ⟨rfl, by decide, by decide⟩
  | .identifier name, h => balanced_lexeme ⟨h, by simp, by simp⟩
  | .memberExpression object property _, h => by
    have hproperty : Balanced quote [⟨.identifier, property⟩] :=
      balanced_lexeme ⟨h.2.1, by simp, by simp⟩
    have hdot : (fixed .dot).IsPlain := ⟨rfl, by decide, by decide⟩
    exact ((balanced_print object h.1).atLevel 8 object).append (hproperty.cons hdot)
  | .indexExpression object index _, h =>
    ((balanced_print object h.1).atLevel 8 object).append
      ((balanced_print index h.2.1).between ⟨rfl, by decide, by decide⟩ ⟨rfl, by decide, by decide⟩)
  | .callExpression callee args _, h =>
    ((balanced_print callee h.1).atLevel 8 callee).append
      ((Balanced.commaSeparated (balanced_printAll args h.2.1)).between ⟨rfl, by decide, by decide⟩
        ⟨rfl, by decide, by decide⟩)
  | .unaryExpression operator operand, h =>
    ((balanced_print operand h).atLevel 7 operand).cons (isPlain_unary operator)
  | .binaryExpression operator left right, h =>
    ((balanced_print left h.1).atLevel _ left).append
      (((balanced_print right h.2).atLevel _ right).cons (isPlain_binary operator))
  | .ternaryExpression condition consequent alternate, h => by
    have hquestion : (fixed .question).IsPlain := ⟨rfl, by decide, by decide⟩
    have hcolon : (fixed .colon).IsPlain := ⟨rfl, by decide, by decide⟩
    have hbranches := (balanced_print consequent h.2.1).append
      ((balanced_print alternate h.2.2).cons hcolon)
    exact ((balanced_print condition h.1).atLevel 1 condition).append (hbranches.cons hquestion)
  | .arrayLiteral elements, h =>
    (Balanced.commaSeparated (balanced_printAll elements h)).between ⟨rfl, by decide, by decide⟩
      ⟨rfl, by decide, by decide⟩
  | .objectLiteral properties, h =>
    (Balanced.commaSeparated (balanced_printProperties properties h)).braces
  | .templateLiteral _, h => h.elim
  | .chainExpression _, h => h.elim

theorem balanced_printAll : ∀ nodes, ArePrintable nodes →
    ∀ lexemes ∈ printAll bareKeys nodes, Balanced quote lexemes
  | [], _ => fun _ hmem => nomatch hmem
  | node :: nodes, h => by
    intro lexemes hmem
    rcases List.mem_cons.mp hmem with rfl | hmem
    · exact balanced_print node h.1
    · exact balanced_printAll nodes h.2 lexemes hmem

theorem balanced_printProperties : ∀ properties, PropertiesArePrintable properties →
    ∀ lexemes ∈ printProperties bareKeys properties, Balanced quote lexemes
  | [], _ => fun _ hmem => nomatch hmem
  | (key, value) :: properties, h => by
    intro lexemes hmem
    rcases List.mem_cons.mp hmem with rfl | hmem
    · have hcolon : (fixed .colon).IsPlain := ⟨rfl, by decide, by decide⟩
      exact ((balanced_print value h.1).cons hcolon).cons (isPlain_printKey bareKeys key)
    · exact balanced_printProperties properties h.2 lexemes hmem

end

/-- The end of the expression and of the template. -/
theorem run_exprEnd (length : Nat) : ∃ tokens : List Token,
    tokens.map Token.lexeme = [fixed .exprEnd, fixed .eof] ∧
      (tokenizeFrom length ⟨true, 0⟩).run [' ', '}', '}'] = .ok (tokens, []) := by
  have hend : (tokenizeFrom length ⟨false, 0⟩).run [] = .ok ([⟨.eof, "", (length : Nat)⟩], []) := by
    rw [tokenizeFrom_eq]
    rfl
  refine ⟨[⟨.exprEnd, "\x7d\x7d", (length - 2 : Nat)⟩, ⟨.eof, "", (length : Nat)⟩], rfl, ?_⟩
  rw [tokenizeFrom_eq]
  show push _ (tokenizeFrom length ⟨false, 0⟩) [] = _
  unfold push
  rw [hend]
  rfl

/-- A template that is short enough is scanned as the lexemes it was printed from. -/
theorem tokenize_sourceText (style : PrintStyle) {node : ASTNode} (h : Printable node)
    (hlength : utf16Length (sourceText style node) ≤ maxExpressionLength) :
    ∃ tokens : List Token, tokens.map Token.lexeme =
        fixed .exprStart :: (print style.bareKeys node ++ [fixed .exprEnd, fixed .eof]) ∧
      tokenize (sourceText style node) = .ok tokens := by
  let length := utf16Length (sourceText style node)
  let spelled := spell style.quote (print style.bareKeys node) ++ [' ', '}', '}']
  obtain ⟨pos, hstart⟩ : ∃ pos : Nat, (tokenizeFrom length ⟨false, 0⟩).run ('{' :: '{' :: spelled) =
      push ⟨.exprStart, "\x7b\x7b", pos⟩ (tokenizeFrom length ⟨true, 0⟩) spelled := by
    rw [tokenizeFrom_eq]
    exact ⟨_, rfl⟩
  obtain ⟨tokens, htokens, hrun⟩ := balanced_print style.quote style.bareKeys node h 0 length
    [' ', '}', '}'] rfl
  obtain ⟨last, hlast, hend⟩ := run_exprEnd length
  refine ⟨⟨.exprStart, "\x7b\x7b", pos⟩ :: (tokens ++ last), ?_, ?_⟩
  · rw [List.map_cons, List.map_append, htokens, hlast]
    rfl
  · have htext : (sourceText style node).toList = '{' :: '{' :: spelled := String.toList_ofList
    unfold tokenize
    rw [if_neg (Nat.not_lt.mpr hlength), htext]
    show ((tokenizeFrom length ⟨false, 0⟩).run ('{' :: '{' :: spelled)).map Prod.fst = _
    rw [hstart]
    unfold push
    rw [hrun, hend]
    rfl

end Clemvion.Expression
