import Clemvion.Expression.Ast
import Clemvion.Js.Text
import Clemvion.Library.Descent

/-!
# Tokenizer — from template text to tokens

`tokenize` is a loop in two modes, text and expression; in an expression a count of open braces
decides whether `}}` ends the expression or two object literals.  Positions are counted in
code units, as the source does.
-/

open Clemvion.Js Clemvion.Library

namespace Clemvion.Expression

/-! ## 1. Tokens of an expression -/

def maxExpressionLength : Nat := 10000

def skipWhitespace (input : List Char) : List Char := input.dropWhile isJsSpace

def isIdentStart (c : Char) : Bool := c.isLower || c.isUpper || c = '_'

def isIdentPart (c : Char) : Bool := isIdentStart c || c.isDigit

def twoCharacterOperator : Char → Char → Option TokenType
  | '=', '=' => some .eq
  | '!', '=' => some .neq
  | '<', '=' => some .lte
  | '>', '=' => some .gte
  | '&', '&' => some .and
  | '|', '|' => some .or
  | '?', '.' => some .questionDot
  | _, _ => none

def singleCharacterToken : Char → Option TokenType
  | '+' => some .plus
  | '-' => some .minus
  | '*' => some .star
  | '/' => some .slash
  | '%' => some .percent
  | '!' => some .bang
  | '<' => some .lt
  | '>' => some .gt
  | '?' => some .question
  | ':' => some .colon
  | '.' => some .dot
  | ',' => some .comma
  | '(' => some .lParen
  | ')' => some .rParen
  | '[' => some .lBracket
  | ']' => some .rBracket
  | '{' => some .lBrace
  | _ => none

def readNumber (input : List Char) (pos : Nat) : Token :=
  let digits := input.takeWhile Char.isDigit
  let fraction :=
    match input.dropWhile Char.isDigit with
    | '.' :: c :: rest => if c.isDigit then '.' :: (c :: rest).takeWhile Char.isDigit else []
    | _ => []
  ⟨.number, String.ofList (digits ++ fraction), pos⟩

def escapedCharacter : Char → Char
  | 'n' => '\n'
  | 't' => '\t'
  | 'r' => '\r'
  | c => c

/-- The text up to the closing quote, decoded; `none` when there is no closing quote. -/
def readStringFrom (quote : Char) : List Char → Option (List Char)
  | [] => none
  | '\\' :: next :: rest => (readStringFrom quote rest).map (escapedCharacter next :: ·)
  | c :: rest => if c = quote then some [] else (readStringFrom quote rest).map (c :: ·)

def readString (quote : Char) (rest : List Char) (pos : Nat) : Except ExpressionError Token :=
  match readStringFrom quote rest with
  | some value => .ok ⟨.string, String.ofList value, pos⟩
  | none => .error (syntaxErrorAt "Unterminated string literal" pos)

/-- What follows the closing quote. -/
def skipPastStringEnd (quote : Char) : List Char → List Char
  | [] => []
  | '\\' :: _ :: rest => skipPastStringEnd quote rest
  | c :: rest => if c = quote then rest else skipPastStringEnd quote rest

def keywordOrIdentifier (value : String) (pos : Nat) : Token :=
  if value = "true" ∨ value = "false" then ⟨.boolean, value, pos⟩
  else if value = "null" then ⟨.null, value, pos⟩
  else ⟨.identifier, value, pos⟩

/-- The longest beginning that is an identifier without `$`. -/
def identifierCharacters : List Char → List Char
  | [] => []
  | c :: rest => if isIdentStart c then c :: rest.takeWhile isIdentPart else []

def readIdentifier (input : List Char) (pos : Nat) : Except ExpressionError Token :=
  match input with
  | '$' :: rest =>
    if identifierCharacters rest = [] then
      .error (syntaxErrorAt "Expected identifier after '$'" pos)
    else .ok (keywordOrIdentifier (String.ofList ('$' :: identifierCharacters rest)) pos)
  | input => .ok (keywordOrIdentifier (String.ofList (identifierCharacters input)) pos)

def readExpressionToken (input : List Char) (pos : Nat) : Except ExpressionError Token :=
  match input with
  | [] => .error (syntaxErrorAt "Unexpected character: 'undefined'" pos)
  | c :: rest =>
    match rest.head?.bind (twoCharacterOperator c) with
    | some type => .ok ⟨type, String.ofList (c :: rest.take 1), pos⟩
    | none =>
      match singleCharacterToken c with
      | some type => .ok ⟨type, String.singleton c, pos⟩
      | none =>
        if c.isDigit then .ok (readNumber input pos)
        else if c = '"' ∨ c = '\'' then readString c rest pos
        else if c = '$' ∨ isIdentStart c then readIdentifier input pos
        else .error (syntaxErrorAt (s!"Unexpected character: '{c}'") pos)

/-! ## 2. Segments of a template -/

/-- The text up to `{{` or the end, with escaped openings decoded, and what follows. -/
def readText : List Char → List Char × List Char
  | [] => ([], [])
  | '\\' :: '{' :: '{' :: rest =>
    let (text, after) := readText rest
    ('{' :: '{' :: text, after)
  | '{' :: '{' :: rest => ([], '{' :: '{' :: rest)
  | c :: rest =>
    let (text, after) := readText rest
    (c :: text, after)

/-- The next segment and what follows it. -/
def readTemplateSegment (input : List Char) (pos : Nat) : Option (Token × List Char) :=
  match input with
  | '\\' :: '{' :: '{' :: rest => some (⟨.text, "\x7b\x7b", pos⟩, rest)
  | '{' :: '{' :: rest => some (⟨.exprStart, "\x7b\x7b", pos⟩, rest)
  | input =>
    if (readText input).1 ≠ [] then
      some (⟨.text, String.ofList (readText input).1, pos⟩, (readText input).2)
    else none

/-! ## 3. The loop -/

/-- What the loop carries besides the rest of the input. -/
structure Scan where
  inExpression : Bool
  braceDepth : Nat

abbrev Scanner := Parser Char ExpressionError (List Token)

/-- Push the token and go on with what follows. -/
def push (token : Token) (next : Scanner) (rest : List Char) :
    Except ExpressionError (List Token × List Char) :=
  (next.run rest).map fun (tokens, rest) => (token :: tokens, rest)

def unterminated (pos : Nat) : ExpressionError :=
  syntaxErrorAt "Unterminated expression, expected \x7d\x7d" pos

/-- The input after a token that was read from it. -/
def afterToken (token : Token) (input : List Char) : List Char :=
  if token.type = .string then
    match input with
    | quote :: rest => skipPastStringEnd quote rest
    | [] => []
  else input.drop token.value.toList.length

/-- One round of the loop on an input of so many code units. -/
def scan (length : Nat) (self : Scan → Scanner) (state : Scan) : Scanner := fun input =>
  let position := fun rest => length - (rest.map utf16Width).sum
  if state.inExpression then
    let input := skipWhitespace input
    match input with
    | [] => .error (unterminated (position input))
    | c :: rest =>
      if c = '}' ∧ rest.head? = some '}' ∧ state.braceDepth = 0 then
        push ⟨.exprEnd, "\x7d\x7d", position input⟩ (self { state with inExpression := false })
          (rest.drop 1)
      else if c = '}' ∧ 0 < state.braceDepth then
        push ⟨.rBrace, "\x7d", position input⟩
          (self { state with braceDepth := state.braceDepth - 1 }) rest
      else do
        let token ← readExpressionToken input (position input)
        let braceDepth := if token.type = .lBrace then state.braceDepth + 1 else state.braceDepth
        push token (self { state with braceDepth }) (afterToken token input)
  else
    match input with
    | [] => .ok ([⟨.eof, "", position input⟩], [])
    | _ :: rest =>
      match readTemplateSegment input (position input) with
      | some (token, next) =>
        push token (self { state with inExpression := token.type = .exprStart }) next
      | none => (self state).run rest

/-- The loop of `tokenize` on an input of so many code units. -/
def tokenizeFrom (length : Nat) : Scan → Scanner := recursive (scan length)

def tokenize (input : String) : Except ExpressionError (List Token) :=
  if utf16Length input > maxExpressionLength then
    .error ⟨.syntaxError, s!"Expression exceeds maximum length of {maxExpressionLength} characters",
      none⟩
  else
    ((tokenizeFrom (utf16Length input) ⟨false, 0⟩).run input.toList).map Prod.fst

/-! ## 4. Every round takes something off the input -/

theorem length_skipPastStringEnd_le (quote : Char) (input : List Char) :
    (skipPastStringEnd quote input).length ≤ input.length := by
  induction input using skipPastStringEnd.induct quote with
  | case1 => exact Nat.le_refl 0
  | case2 next rest ih =>
    show (skipPastStringEnd quote rest).length ≤ _
    simp only [List.length_cons]
    omega
  | case3 rest _ =>
    rw [skipPastStringEnd]
    all_goals simp_all
  | case4 c rest _ hne ih =>
    rw [skipPastStringEnd]
    all_goals simp_all
    omega

theorem keywordOrIdentifier_value (value : String) (pos : Nat) :
    (keywordOrIdentifier value pos).value = value := by
  unfold keywordOrIdentifier
  split_ifs <;> rfl

theorem ofList_cons_ne_empty (c : Char) (cs : List Char) : String.ofList (c :: cs) ≠ "" := by
  intro h
  have hlists := congrArg String.toList h
  rw [String.toList_ofList] at hlists
  cases hlists

/-- A token other than a string has a value, as long as what was read. -/
theorem value_of_readExpressionToken {input : List Char} {pos : Nat} {token : Token}
    (h : readExpressionToken input pos = .ok token) (htype : token.type ≠ .string) :
    token.value ≠ "" := by
  cases input with
  | nil => cases h
  | cons c rest =>
    unfold readExpressionToken at h
    dsimp only at h
    split at h
    · rw [← Except.ok.inj h]
      exact ofList_cons_ne_empty c _
    · split at h
      · rw [← Except.ok.inj h]
        exact ofList_cons_ne_empty c []
      · split_ifs at h with hdigit hquote hident
        · rw [← Except.ok.inj h]
          unfold readNumber
          rw [List.takeWhile_cons, if_pos hdigit]
          exact ofList_cons_ne_empty c _
        · unfold readString at h
          split at h
          · rw [← Except.ok.inj h] at htype
            exact absurd rfl htype
          · cases h
        · unfold readIdentifier at h
          split at h
          case h_1 =>
            split_ifs at h
            rw [← Except.ok.inj h, keywordOrIdentifier_value]
            exact ofList_cons_ne_empty _ _
          case h_2 hdollar =>
            have hstart : isIdentStart c = true := by
              rcases hident with rfl | hstart
              · exact absurd rfl (hdollar rest)
              · exact hstart
            rw [← Except.ok.inj h, keywordOrIdentifier_value, identifierCharacters, if_pos hstart]
            exact ofList_cons_ne_empty _ _

theorem length_afterToken_lt {input : List Char} {pos : Nat} {token : Token}
    (h : readExpressionToken input pos = .ok token) :
    (afterToken token input).length < input.length := by
  cases input with
  | nil => cases h
  | cons c rest =>
    unfold afterToken
    by_cases htype : token.type = .string
    · rw [if_pos htype, List.length_cons]
      exact Nat.lt_succ_of_le (length_skipPastStringEnd_le c rest)
    · have hvalue : token.value.toList.length ≠ 0 := by
        intro hzero
        have hempty : token.value = "" :=
          String.toList_inj.mp (List.eq_nil_of_length_eq_zero hzero)
        exact value_of_readExpressionToken h htype hempty
      rw [if_neg htype, List.length_drop, List.length_cons]
      omega

theorem length_readText_le (input : List Char) : (readText input).2.length ≤ input.length := by
  induction input using readText.induct with
  | case1 => exact Nat.le_refl 0
  | case2 rest ih =>
    show (readText rest).2.length ≤ _
    simp only [List.length_cons]
    omega
  | case3 rest => exact Nat.le_refl _
  | case4 c rest hescaped hopen ih =>
    rw [readText]
    · show (readText rest).2.length ≤ _
      simp only [List.length_cons]
      omega
    all_goals assumption

theorem length_readTemplateSegment_lt {input next : List Char} {pos : Nat} {token : Token}
    (h : readTemplateSegment input pos = some (token, next)) : next.length < input.length := by
  unfold readTemplateSegment at h
  split at h
  case h_1 rest =>
    rw [← (Prod.mk.inj (Option.some.inj h)).2]
    simp only [List.length_cons]
    omega
  case h_2 rest =>
    rw [← (Prod.mk.inj (Option.some.inj h)).2]
    simp only [List.length_cons]
    omega
  case h_3 hescaped hopen =>
    split at h
    case isFalse => cases h
    case isTrue htext =>
      rw [← (Prod.mk.inj (Option.some.inj h)).2]
      cases input with
      | nil => exact absurd rfl htext
      | cons c rest =>
        have hle := length_readText_le rest
        rw [readText]
        · show (readText rest).2.length < _
          simp only [List.length_cons]
          omega
        · intro rest' hc hrest
          exact hescaped rest' (by rw [hc, hrest])
        · intro rest' hc hrest
          exact hopen rest' (by rw [hc, hrest])

theorem length_skipWhitespace_le (input : List Char) :
    (skipWhitespace input).length ≤ input.length := (List.dropWhile_suffix isJsSpace).length_le

theorem tracksOn_push {token : Token} {p q : Scanner} {input rest : List Char}
    (h : TracksOn 0 p q rest) (hlength : rest.length ≤ input.length) :
    push token p rest = push token q rest ∧
      ∀ tokens after, push token q rest = .ok (tokens, after) → after.length + 0 ≤ input.length := by
  obtain ⟨hsame, hshort⟩ := h
  unfold push
  rw [hsame]
  refine ⟨rfl, fun tokens after hrun => ?_⟩
  cases hq : q.run rest with
  | error e =>
    rw [hq] at hrun
    cases hrun
  | ok result =>
    rw [hq] at hrun
    have hafter : result.2 = after := (Prod.mk.inj (Except.ok.inj hrun)).2
    rw [← hafter]
    have := hshort result.1 result.2 hq
    omega

/-- The loop goes on with less input in every round. -/
theorem guarded_scan (length n : Nat) : Guarded 0 n (scan length) (scan length) := by
  intro m _ p q h state input hlength
  have hnext : ∀ (token : Token) (state' : Scan) (rest : List Char), rest.length < input.length →
      push token (p state') rest = push token (q state') rest ∧
        ∀ tokens after, push token (q state') rest = .ok (tokens, after) →
          after.length + 0 ≤ input.length := fun token state' rest hrest =>
    tracksOn_push (h state' rest (by omega)) (Nat.le_of_lt hrest)
  show scan length p state input = scan length q state input ∧ ∀ a rest,
    scan length q state input = .ok (a, rest) → rest.length + 0 ≤ input.length
  unfold scan
  dsimp only
  by_cases hmode : state.inExpression = true
  · rw [if_pos hmode, if_pos hmode]
    have hskip := length_skipWhitespace_le input
    cases hinput : skipWhitespace input with
    | nil =>
      refine ⟨rfl, fun tokens after hrun => ?_⟩
      cases hrun
    | cons c rest =>
      rw [hinput, List.length_cons] at hskip
      dsimp only
      split_ifs with hend hbrace
      · exact hnext _ _ _ (by rw [List.length_drop]; omega)
      · exact hnext _ _ _ (by omega)
      · cases hread : readExpressionToken (c :: rest) _ with
        | error e =>
          refine ⟨rfl, fun tokens after hrun => ?_⟩
          cases hrun
        | ok token =>
          have hafter := length_afterToken_lt hread
          rw [List.length_cons] at hafter
          exact hnext token _ _ (by omega)
  · rw [if_neg hmode, if_neg hmode]
    cases input with
    | nil =>
      refine ⟨rfl, fun tokens after hrun => ?_⟩
      rw [← (Prod.mk.inj (Except.ok.inj hrun)).2]
      exact Nat.le_refl 0
    | cons c rest =>
      dsimp only
      cases hread : readTemplateSegment (c :: rest) _ with
      | none =>
        obtain ⟨hsame, hshort⟩ := h state rest (by rw [List.length_cons] at hlength; omega)
        refine ⟨hsame, fun tokens after hrun => ?_⟩
        have := hshort tokens after hrun
        rw [List.length_cons]
        omega
      | some segment => exact hnext segment.1 _ _ (length_readTemplateSegment_lt hread)

theorem tokenizeFrom_eq (length : Nat) (state : Scan) :
    tokenizeFrom length state = scan length (tokenizeFrom length) state :=
  recursive_eq (guarded_scan length) state

end Clemvion.Expression
