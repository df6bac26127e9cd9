import Clemvion.Expression.ParserProgress
import Clemvion.Expression.Tokenizer

/-!
# Positions — where a token stands changes no tree

A token carries the place it was read at, for the errors alone.  Tokens of one type and value
parse alike wherever they stand, and the tokenizer reads a text alike wherever it starts.
-/

open Clemvion.Js Clemvion.Library

namespace Clemvion.Expression

/-- The same token, perhaps at another place. -/
structure Token.Same (token token' : Token) : Prop where
  type : token.type = token'.type
  value : token.value = token'.value

/-- Tokens that are the same give the same. -/
abbrev Blind {α β : Type} (S : α → β → Prop) (p : TokenParser α) (q : TokenParser β) : Prop :=
  Respects Token.Same S p q

variable {α β : Type} {S : α → β → Prop}

/-! ## 1. Reading a token -/

theorem Token.Same.refl (token : Token) : token.Same token := ⟨rfl, rfl⟩

theorem blind_current : Blind Token.Same current current := by
  intro tokens tokens' h
  refine ⟨?_, h⟩
  cases h with
  | nil => exact .refl endToken
  | cons hfirst _ => exact hfirst

theorem blind_advance : Blind Token.Same advance advance := by
  intro tokens tokens' h
  cases h with
  | nil => exact ⟨.refl endToken, .nil⟩
  | cons hfirst hrest => exact ⟨hfirst, hrest⟩

/-- What is done with a token may rest on its type and its value. -/
theorem blind_current_bind {f : Token → TokenParser α} {g : Token → TokenParser β}
    (h : ∀ token token', token.Same token' → Blind S (f token) (g token')) :
    Blind S (current >>= f) (current >>= g) := blind_current.bind h

theorem blind_advance_bind {f : Token → TokenParser α} {g : Token → TokenParser β}
    (h : ∀ token token', token.Same token' → Blind S (f token) (g token')) :
    Blind S (advance >>= f) (advance >>= g) := blind_advance.bind h

theorem blind_matchType (type : TokenType) : Blind Eq (matchType type) (matchType type) := by
  refine blind_current_bind fun token token' hsame => ?_
  rw [hsame.type]
  split
  · exact blind_advance_bind fun _ _ _ => respects_pure rfl
  · exact respects_pure rfl

theorem blind_matchType_bind (type : TokenType) {p q : TokenParser α} {p' q' : TokenParser β}
    (hp : Blind S p p') (hq : Blind S q q') :
    Blind S (matchType type >>= fun found => if found = true then p else q)
      (matchType type >>= fun found => if found = true then p' else q') := by
  refine (blind_matchType type).bind fun found found' hfound => ?_
  rw [hfound]
  split
  · exact hp
  · exact hq

theorem blind_expect_bind (type : TokenType) (message : String) {f : Token → TokenParser α}
    {g : Token → TokenParser β}
    (h : ∀ token token', token.Same token' → Blind S (f token) (g token')) :
    Blind S (expect type message >>= f) (expect type message >>= g) := by
  have hexpect : Blind Token.Same (expect type message) (expect type message) := by
    refine blind_current_bind fun token token' hsame => ?_
    rw [hsame.type]
    split
    · exact respects_throw _ _
    · exact blind_advance
  exact hexpect.bind h

/-! ## 2. The rules of the grammar -/

section Grammar

variable {p q : TokenParser ASTNode}

theorem blind_parseItems {item item' : TokenParser α} (close : Option TokenType)
    (h : Blind Eq item item') (items : List α) :
    Blind Eq (parseItems item close items) (parseItems item' close items) := by
  refine respects_recursive Eq (fun self self' hself items items' hitems => ?_) rfl
  subst hitems
  refine blind_matchType_bind .comma (blind_current_bind fun token token' hsame => ?_)
    (respects_pure rfl)
  rw [hsame.type]
  split
  · exact respects_pure rfl
  · refine h.bind fun next next' hnext => ?_
    rw [hnext]
    exact hself _ _ rfl

theorem blind_parseArgList (h : Blind Eq p q) : Blind Eq (parseArgList p) (parseArgList q) := by
  refine blind_current_bind fun token token' hsame => ?_
  rw [hsame.type]
  split
  · exact respects_pure rfl
  · refine h.bind fun first first' hfirst => ?_
    rw [hfirst]
    exact blind_parseItems none h [first']

theorem blind_parseItemsUntil {item item' : TokenParser α} (close : TokenType) (h : Blind Eq item item') :
    Blind Eq (parseItemsUntil item close) (parseItemsUntil item' close) := by
  refine blind_current_bind fun token token' hsame => ?_
  rw [hsame.type]
  split
  · refine h.bind fun first first' hfirst => ?_
    rw [hfirst]
    exact blind_parseItems (some close) h [first']
  · exact respects_pure rfl

theorem blind_parseArrayLiteral (h : Blind Eq p q) :
    Blind Eq (parseArrayLiteral p) (parseArrayLiteral q) := by
  refine blind_expect_bind _ _ fun _ _ _ => ?_
  refine (blind_parseItemsUntil .rBracket h).bind fun elements elements' helements => ?_
  rw [helements]
  exact blind_expect_bind _ _ fun _ _ _ => respects_pure rfl

theorem blind_parseObjectProperty (h : Blind Eq p q) :
    Blind Eq (parseObjectProperty p) (parseObjectProperty q) := by
  refine blind_current_bind fun token token' hsame => ?_
  rw [hsame.type, hsame.value]
  split
  · refine blind_advance_bind fun _ _ _ => ?_
    refine blind_expect_bind _ _ fun _ _ _ => ?_
    refine h.bind fun value value' hvalue => ?_
    rw [hvalue]
    exact respects_pure rfl
  · exact respects_throw _ _

theorem blind_parseObjectLiteral (h : Blind Eq p q) :
    Blind Eq (parseObjectLiteral p) (parseObjectLiteral q) := by
  refine blind_expect_bind _ _ fun _ _ _ => ?_
  refine (blind_parseItemsUntil .rBrace (blind_parseObjectProperty h)).bind
    fun properties properties' hproperties => ?_
  rw [hproperties]
  exact blind_expect_bind _ _ fun _ _ _ => respects_pure rfl

theorem blind_parsePrimary (h : Blind Eq p q) : Blind Eq (parsePrimary p) (parsePrimary q) := by
  refine blind_current_bind fun token token' hsame => ?_
  rw [hsame.type, hsame.value]
  split
  case h_6 =>
    refine blind_advance_bind fun _ _ _ => h.bind fun node node' hnode => ?_
    rw [hnode]
    exact blind_expect_bind _ _ fun _ _ _ => respects_pure rfl
  case h_7 => exact blind_parseArrayLiteral h
  case h_8 => exact blind_parseObjectLiteral h
  case h_9 => exact respects_throw _ _
  all_goals exact blind_advance_bind fun _ _ _ => respects_pure rfl

theorem blind_parseIndex (h : Blind Eq p q) : Blind Eq (parseIndex p) (parseIndex q) := by
  refine h.bind fun index index' hindex => ?_
  rw [hindex]
  exact blind_expect_bind _ _ fun _ _ _ => respects_pure rfl

theorem blind_parseArgs (h : Blind Eq p q) : Blind Eq (parseArgs p) (parseArgs q) := by
  refine (blind_parseArgList h).bind fun args args' hargs => ?_
  rw [hargs]
  exact blind_expect_bind _ _ fun _ _ _ => respects_pure rfl

theorem blind_parseOptionalLink (node : ASTNode) (h : Blind Eq p q) :
    Blind Eq (parseOptionalLink p node) (parseOptionalLink q node) := by
  refine blind_current_bind fun next next' hsame => ?_
  rw [hsame.type]
  split
  · refine blind_advance_bind fun _ _ _ => (blind_parseIndex h).bind fun index index' hindex => ?_
    rw [hindex]
    exact respects_pure rfl
  · split
    · refine blind_advance_bind fun _ _ _ => (blind_parseArgs h).bind fun args args' hargs => ?_
      rw [hargs]
      exact respects_pure rfl
    · refine blind_expect_bind _ _ fun property property' hproperty => ?_
      rw [hproperty.value]
      exact respects_pure rfl

theorem blind_parseLinks (h : Blind Eq p q) (chain : ASTNode × Bool) :
    Blind Eq (parseLinks p chain) (parseLinks q chain) := by
  refine respects_recursive Eq (fun self self' hself chain chain' hchain => ?_) rfl
  subst hchain
  refine blind_matchType_bind .questionDot ?_ (blind_matchType_bind .dot ?_
    (blind_matchType_bind .lBracket ?_ (blind_matchType_bind .lParen ?_ (respects_pure rfl))))
  · refine (blind_parseOptionalLink chain.1 h).bind fun node node' hnode => ?_
    rw [hnode]
    exact hself _ _ rfl
  · refine blind_expect_bind _ _ fun property property' hproperty => ?_
    rw [hproperty.value]
    exact hself _ _ rfl
  · refine (blind_parseIndex h).bind fun index index' hindex => ?_
    rw [hindex]
    exact hself _ _ rfl
  · refine (blind_parseArgs h).bind fun args args' hargs => ?_
    rw [hargs]
    exact hself _ _ rfl

theorem blind_parsePostfix (h : Blind Eq p q) : Blind Eq (parsePostfix p) (parsePostfix q) := by
  refine (blind_parsePrimary h).bind fun node node' hnode => ?_
  rw [hnode]
  refine (blind_parseLinks h (node', false)).bind fun chain chain' hchain => ?_
  rw [hchain]
  exact respects_pure rfl

theorem blind_parseUnary (h : Blind Eq p q) : Blind Eq (parseUnary p) (parseUnary q) := by
  refine respects_recursive (fun _ _ => True) (fun self self' hself _ _ _ => ?_) trivial
  refine blind_matchType_bind .bang ?_ (blind_matchType_bind .minus ?_ (blind_parsePostfix h))
  · refine (hself () () trivial).bind fun operand operand' hoperand => ?_
    rw [hoperand]
    exact respects_pure rfl
  · refine (hself () () trivial).bind fun operand operand' hoperand => ?_
    rw [hoperand]
    exact respects_pure rfl

theorem blind_parseBinary (operatorOf : TokenType → Option BinaryOperator) (h : Blind Eq p q) :
    Blind Eq (parseBinary operatorOf p) (parseBinary operatorOf q) := by
  refine h.bind fun node node' hnode => ?_
  rw [hnode]
  refine respects_recursive Eq (fun self self' hself node node' hnode => ?_) rfl
  subst hnode
  refine blind_current_bind fun token token' hsame => ?_
  rw [hsame.type]
  split
  · refine blind_advance_bind fun _ _ _ => h.bind fun right right' hright => ?_
    rw [hright]
    exact hself _ _ rfl
  · exact respects_pure rfl

theorem blind_parseTernary (h : Blind Eq p q) : Blind Eq (parseTernary p) (parseTernary q) := by
  have hor : Blind Eq (parseOr p) (parseOr q) :=
    blind_parseBinary _ (blind_parseBinary _ (blind_parseBinary _ (blind_parseBinary _
      (blind_parseBinary _ (blind_parseBinary _ (blind_parseUnary h))))))
  refine hor.bind fun node node' hnode => ?_
  rw [hnode]
  refine blind_matchType_bind .question ?_ (respects_pure rfl)
  refine h.bind fun consequent consequent' hconsequent => ?_
  rw [hconsequent]
  refine blind_expect_bind _ _ fun _ _ _ => ?_
  refine h.bind fun alternate alternate' halternate => ?_
  rw [halternate]
  exact respects_pure rfl

end Grammar

theorem blind_parseExpression : Blind Eq parseExpression parseExpression := by
  refine respects_recursive (fun _ _ => True) (fun self self' hself _ _ _ => ?_) trivial
  show Blind Eq (parseTernary (self ())) (parseTernary (self' ()))
  exact blind_parseTernary (hself () () trivial)

/-- What was read before stands before what is read. -/
theorem blind_parseParts (before parts : Parts) :
    Blind (fun found found' => found' = before ++ found) (parseParts parts)
      (parseParts (before ++ parts)) := by
  refine respects_recursive (fun parts parts' => parts' = before ++ parts)
    (fun self self' hself parts parts' hparts => ?_) rfl
  subst hparts
  refine blind_current_bind fun token token' hsame => ?_
  rw [hsame.type, hsame.value]
  split
  · exact respects_pure rfl
  · exact blind_advance_bind fun _ _ _ => hself _ _ (List.append_assoc _ _ _)
  · refine blind_advance_bind fun _ _ _ => blind_parseExpression.bind fun node node' hnode => ?_
    rw [hnode]
    exact blind_expect_bind _ _ fun _ _ _ => hself _ _ (List.append_assoc _ _ _)
  · exact respects_throw _ _

/-! ## 3. The tokenizer -/

/-- The same token, or a failure, of both. -/
def SameRead : Except ExpressionError Token → Except ExpressionError Token → Prop
  | .ok token, .ok token' => token.Same token'
  | .error _, .error _ => True
  | _, _ => False

theorem sameRead_readExpressionToken (input : List Char) (pos pos' : Nat) :
    SameRead (readExpressionToken input pos) (readExpressionToken input pos') := by
  have hkeyword : ∀ value, (keywordOrIdentifier value pos).Same (keywordOrIdentifier value pos') := by
    intro value
    unfold keywordOrIdentifier
    split_ifs <;> exact ⟨rfl, rfl⟩
  cases input with
  | nil => exact trivial
  | cons c rest =>
    unfold readExpressionToken
    dsimp only
    split
    · exact ⟨rfl, rfl⟩
    · split
      · exact ⟨rfl, rfl⟩
      · split_ifs
        · exact ⟨rfl, rfl⟩
        · unfold readString
          split
          · exact ⟨rfl, rfl⟩
          · exact trivial
        · unfold readIdentifier
          split
          · split_ifs
            · exact trivial
            · exact hkeyword _
          · exact hkeyword _
        · exact trivial

theorem afterToken_eq {token token' : Token} (h : token.Same token') (input : List Char) :
    afterToken token input = afterToken token' input := by
  unfold afterToken
  rw [h.type, h.value]

/-- Scanners that read the same tokens, at whatever places. -/
abbrev SameScan (p q : Scanner) : Prop := Respects Eq (List.Forall₂ Token.Same) p q

/-- The same tokens from one text. -/
abbrev SameTokens (x y : Except ExpressionError (List Token × List Char)) : Prop :=
  Corresponds Eq (List.Forall₂ Token.Same) x y

theorem SameScan.run {p q : Scanner} (h : SameScan p q) (input : List Char) :
    SameTokens (p.run input) (q.run input) := h input input (List.forall₂_eq_eq_eq ▸ rfl)

theorem sameTokens_push {token token' : Token} (htoken : token.Same token') {p q : Scanner}
    (h : SameScan p q) (rest : List Char) : SameTokens (push token p rest) (push token' q rest) := by
  have hrest := h.run rest
  unfold push
  cases hp : p.run rest with
  | error e =>
    cases hq : q.run rest with
    | error e' => trivial
    | ok result =>
      rw [hp, hq] at hrest
      exact hrest.elim
  | ok result =>
    cases hq : q.run rest with
    | error e' =>
      rw [hp, hq] at hrest
      exact hrest.elim
    | ok result' =>
      rw [hp, hq] at hrest
      exact ⟨.cons htoken hrest.1, hrest.2⟩

theorem sameTokens_bind {x y : Except ExpressionError Token} (h : SameRead x y)
    {f g : Token → Except ExpressionError (List Token × List Char)}
    (hfg : ∀ token token', token.Same token' → SameTokens (f token) (g token')) :
    SameTokens (x >>= f) (y >>= g) := by
  cases x with
  | error e =>
    cases y with
    | error e' => trivial
    | ok token' => exact h.elim
  | ok token =>
    cases y with
    | error e' => exact h.elim
    | ok token' => exact hfg token token' h

theorem readTemplateSegment_none (input : List Char) (pos pos' : Nat)
    (h : readTemplateSegment input pos = none) : readTemplateSegment input pos' = none := by
  unfold readTemplateSegment at h ⊢
  split at h
  · cases h
  · cases h
  · split_ifs at h with htext
    rw [if_neg htext]

theorem readTemplateSegment_some {input next : List Char} {pos : Nat} {token : Token} (pos' : Nat)
    (h : readTemplateSegment input pos = some (token, next)) :
    readTemplateSegment input pos' = some (⟨token.type, token.value, pos'⟩, next) := by
  unfold readTemplateSegment at h ⊢
  split at h
  · cases h
    rfl
  · cases h
    rfl
  · split_ifs at h with htext
    cases h
    rw [if_pos htext]

/-- **The length of the whole text moves the tokens and nothing else.** -/
theorem sameScan_tokenizeFrom (length length' : Nat) (state : Scan) :
    SameScan (tokenizeFrom length state) (tokenizeFrom length' state) := by
  refine respects_recursive Eq (fun self self' hself state state' hstate => ?_) rfl
  subst hstate
  intro input input' hinput
  obtain rfl : input = input' := by simpa using hinput
  show SameTokens (scan length self state input) (scan length' self' state input)
  unfold scan
  dsimp only
  split_ifs
  · split
    · trivial
    · rename_i c rest _
      split_ifs
      · refine sameTokens_push ?_ (hself _ _ rfl) _
        exact ⟨rfl, rfl⟩
      · refine sameTokens_push ?_ (hself _ _ rfl) _
        exact ⟨rfl, rfl⟩
      · refine sameTokens_bind (sameRead_readExpressionToken _ _ _) fun token token' hsame => ?_
        rw [afterToken_eq hsame, hsame.type]
        exact sameTokens_push hsame (hself _ _ rfl) _
  · cases input with
    | nil => exact ⟨.cons ⟨rfl, rfl⟩ .nil, .nil⟩
    | cons c rest =>
      dsimp only
      cases hsegment : readTemplateSegment (c :: rest) (length - ((c :: rest).map utf16Width).sum) with
      | none =>
        rw [readTemplateSegment_none _ _ (length' - ((c :: rest).map utf16Width).sum) hsegment]
        exact SameScan.run (hself state state rfl) rest
      | some segment =>
        rw [readTemplateSegment_some (length' - ((c :: rest).map utf16Width).sum) hsegment]
        refine sameTokens_push ?_ (hself _ _ rfl) _
        exact ⟨rfl, rfl⟩

end Clemvion.Expression
