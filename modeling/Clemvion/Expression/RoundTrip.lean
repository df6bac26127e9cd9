import Clemvion.Expression.ParserProgress
import Clemvion.Expression.Spelling
import Mathlib.Tactic.IntervalCases

/-!
# RoundTrip — a printed tree is parsed back

The parser of a level of the precedence ladder reads a tree printed for that level and goes on as
if it had just built that tree (`Parses`).  For the left-associative levels this is what an
induction along the left spine needs; where the next token continues no level, it says that the
tree comes back.
-/

open Clemvion.Js Clemvion.Library

namespace Clemvion.Expression

/-! ## 1. Lexemes in their places -/

section Places

variable (positions : Nat → Int)

/-- The tokens of the lexemes, the first one being the `start`-th of the whole. -/
def place (start : Nat) : List Lexeme → List Token
  | [] => []
  | lexeme :: lexemes => ⟨lexeme.type, lexeme.value, positions start⟩ :: place (start + 1) lexemes

theorem place_append (start : Nat) (lexemes lexemes' : List Lexeme) :
    place positions start (lexemes ++ lexemes') =
      place positions start lexemes ++ place positions (start + lexemes.length) lexemes' := by
  induction lexemes generalizing start with
  | nil => rfl
  | cons lexeme lexemes ih =>
    have hstart : start + 1 + lexemes.length = start + (lexemes.length + 1) := by omega
    rw [List.cons_append, place, place, ih, List.cons_append, hstart]
    rfl

theorem exists_place (tokens : List Token) :
    ∃ positions, tokens = place positions 0 (tokens.map Token.lexeme) := by
  have hplace : ∀ before after : List Token,
      place (fun i => ((before ++ after).getD i ⟨.eof, "", 0⟩).position) before.length
        (after.map Token.lexeme) = after := by
    intro before after
    induction after generalizing before with
    | nil => rfl
    | cons token after ih =>
      have hrest := ih (before ++ [token])
      rw [List.append_assoc, List.singleton_append, List.length_append] at hrest
      rw [List.map_cons, place]
      refine congrArg₂ List.cons ?_ hrest
      have hget : (before ++ token :: after).getD before.length ⟨.eof, "", 0⟩ = token := by simp
      rw [hget]
      rfl
  exact ⟨_, (hplace [] tokens).symm⟩

end Places

/-! ## 2. The levels of the ladder -/

/-- The level that a token continues. -/
def tokenLevel : TokenType → Option Nat
  | .question => some 0
  | .or => some 1
  | .and => some 2
  | .eq | .neq => some 3
  | .lt | .gt | .lte | .gte => some 4
  | .plus | .minus => some 5
  | .star | .slash | .percent => some 6
  | .questionDot | .dot | .lBracket | .lParen => some 8
  | _ => none

/-- What follows continues no level from this one on. -/
def Stops (level : Nat) (rest : List Token) : Prop :=
  ∀ token ∈ rest.head?, ∀ l ∈ tokenLevel token.type, l < level

theorem Stops.mono {level level' : Nat} {rest : List Token} (h : Stops level rest)
    (hle : level ≤ level') : Stops level' rest :=
  fun token htoken l hl => Nat.lt_of_lt_of_le (h token htoken l hl) hle

theorem stops_cons {level : Nat} {token : Token} (rest : List Token)
    (h : ∀ l ∈ tokenLevel token.type, l < level) : Stops level (token :: rest) := by
  intro token' htoken
  rw [← Option.some.inj htoken]
  exact h

/-- No token is above the postfix chains. -/
theorem stops_nine (rest : List Token) : Stops 9 rest := by
  intro token _ l hl
  unfold tokenLevel at hl
  split at hl <;> cases hl <;> decide

def operatorsAt : Nat → TokenType → Option BinaryOperator
  | 1 => orOperator
  | 2 => andOperator
  | 3 => equalityOperator
  | 4 => comparisonOperator
  | 5 => additionOperator
  | 6 => multiplicationOperator
  | _ => fun _ => none

def parseAt : Nat → TokenParser ASTNode
  | 0 => parseTernary parseExpression
  | 1 => parseOr parseExpression
  | 2 => parseAnd parseExpression
  | 3 => parseEquality parseExpression
  | 4 => parseComparison parseExpression
  | 5 => parseAddition parseExpression
  | 6 => parseMultiplication parseExpression
  | 7 => parseUnary parseExpression
  | _ => parsePostfix parseExpression

/-- How the parser of a level goes on with the tree it has built. -/
def continueAt (level : Nat) (node : ASTNode) : TokenParser ASTNode :=
  if level = 0 ∨ level = 7 then pure node
  else if level < 7 then parseOperands (operatorsAt level) (parseAt (level + 1)) node
  else do
    let chain ← parseLinks parseExpression (node, false)
    return if chain.2 then .chainExpression chain.1 else chain.1

theorem parseAt_binary {level : Nat} (hpos : 0 < level) (hlt : level < 7) :
    parseAt level = parseBinary (operatorsAt level) (parseAt (level + 1)) := by
  interval_cases level <;> rfl

theorem continueAt_binary {level : Nat} (hpos : 0 < level) (hlt : level < 7) (node : ASTNode) :
    continueAt level node = parseOperands (operatorsAt level) (parseAt (level + 1)) node := by
  unfold continueAt
  rw [if_neg (by omega), if_pos hlt]

theorem operatorsAt_eof (level : Nat) : operatorsAt level .eof = none := by
  unfold operatorsAt
  split <;> rfl

theorem tokenLevel_of_operatorsAt {level : Nat} {type : TokenType} {operator : BinaryOperator}
    (h : operatorsAt level type = some operator) : tokenLevel type = some level := by
  unfold operatorsAt at h
  split at h <;> cases type <;> first | rfl | cases h

theorem operatorsAt_token (operator : BinaryOperator) :
    operatorsAt operator.level operator.token = some operator := by
  cases operator <;> rfl

theorem level_pos (operator : BinaryOperator) : 0 < operator.level ∧ operator.level < 7 := by
  cases operator <;> decide

theorem tracks_parseAt (level n : Nat) : Tracks 0 n (parseAt level) (parseAt level) := by
  have hexpression := tracks_parseExpression (n - 1)
  have hunary : Tracks 0 n (parseAt 7) (parseAt 7) := (guarded_unaryRound hexpression).tracks ()
  have hmultiplication : Tracks 0 n (parseAt 6) (parseAt 6) := tracks_parseBinary rfl hunary
  have haddition : Tracks 0 n (parseAt 5) (parseAt 5) := tracks_parseBinary rfl hmultiplication
  have hcomparison : Tracks 0 n (parseAt 4) (parseAt 4) := tracks_parseBinary rfl haddition
  have hequality : Tracks 0 n (parseAt 3) (parseAt 3) := tracks_parseBinary rfl hcomparison
  have hand : Tracks 0 n (parseAt 2) (parseAt 2) := tracks_parseBinary rfl hequality
  have hor : Tracks 0 n (parseAt 1) (parseAt 1) := tracks_parseBinary rfl hand
  match level with
  | 0 => exact tracks_parseTernary hexpression
  | 1 => exact hor
  | 2 => exact hand
  | 3 => exact hequality
  | 4 => exact hcomparison
  | 5 => exact haddition
  | 6 => exact hmultiplication
  | 7 => exact hunary
  | _ + 8 => exact tracks_parsePostfix hexpression

theorem parseOperands_level (level : Nat) (node : ASTNode) :
    parseOperands (operatorsAt level) (parseAt (level + 1)) node =
      operandsRound (operatorsAt level) (parseAt (level + 1))
        (parseOperands (operatorsAt level) (parseAt (level + 1))) node :=
  parseOperands_eq (operatorsAt_eof level) (fun n => tracks_parseAt (level + 1) n) node

/-! ## 3. Where a level stops -/

theorem run_parseOperands_stop {level : Nat} {rest : List Token} (h : Stops level rest)
    (node : ASTNode) :
    (parseOperands (operatorsAt level) (parseAt (level + 1)) node).run rest = .ok (node, rest) := by
  rw [parseOperands_level]
  unfold operandsRound
  cases rest with
  | nil =>
    rw [run_current_nil]
    rw [show operatorsAt level endToken.type = none from operatorsAt_eof level]
    rfl
  | cons token rest =>
    rw [run_current_cons]
    have hnone : operatorsAt level token.type = none := by
      cases hoperator : operatorsAt level token.type with
      | none => rfl
      | some operator =>
        exact absurd (h token rfl level (tokenLevel_of_operatorsAt hoperator)) (Nat.lt_irrefl level)
    rw [hnone]
    rfl

theorem run_parseLinks_stop {rest : List Token} (h : Stops 8 rest) (chain : ASTNode × Bool) :
    (parseLinks parseExpression chain).run rest = .ok (chain, rest) := by
  rw [parseLinks_eq]
  unfold linksRound
  cases rest with
  | nil => rfl
  | cons token rest =>
    have hne : ∀ type, tokenLevel type = some 8 → token.type ≠ type := by
      intro type hlevel htype
      rw [← htype] at hlevel
      exact absurd (h token rfl 8 hlevel) (Nat.lt_irrefl 8)
    rw [run_matchType_of_ne _ _ (hne _ rfl)]
    show (matchType .dot >>= _).run _ = _
    rw [run_matchType_of_ne _ _ (hne _ rfl)]
    show (matchType .lBracket >>= _).run _ = _
    rw [run_matchType_of_ne _ _ (hne _ rfl)]
    show (matchType .lParen >>= _).run _ = _
    rw [run_matchType_of_ne _ _ (hne _ rfl)]
    rfl

/-- Where nothing continues the level, the tree that was built is the result. -/
theorem run_continueAt_stop {level : Nat} {rest : List Token} (hlevel : level ≤ 8)
    (h : Stops level rest) (node : ASTNode) : (continueAt level node).run rest = .ok (node, rest) := by
  unfold continueAt
  split_ifs with hleaf hbinary
  · rfl
  · exact run_parseOperands_stop h node
  · have hchain : level = 8 := by omega
    rw [hchain] at h
    rw [run_bind_ok (run_parseLinks_stop h _)]
    rfl

/-! ## 4. The first lexeme of a printed tree -/

/-- A primary expression starts with such a token. -/
def startsPrimary : TokenType → Bool
  | .number | .string | .boolean | .null | .identifier | .lParen | .lBracket | .lBrace => true
  | _ => false

def startsUnary (type : TokenType) : Bool := type = .bang || type = .minus

/-- What stands where a level is asked for starts like a primary expression, or, below the
postfix chains, with a unary operator. -/
def StartsAt (level : Nat) (lexemes : List Lexeme) : Prop :=
  ∃ first rest, lexemes = first :: rest ∧
    (startsPrimary first.type = true ∨ level < 8 ∧ startsUnary first.type = true)

theorem StartsAt.append {level level' : Nat} {lexemes : List Lexeme} (h : StartsAt level lexemes)
    (hlevel : level' < 8 ∨ level' = level) (lexemes' : List Lexeme) :
    StartsAt level' (lexemes ++ lexemes') := by
  obtain ⟨first, rest, rfl, hfirst⟩ := h
  refine ⟨first, rest ++ lexemes', rfl, ?_⟩
  rcases hfirst with hprimary | ⟨hlt, hunary⟩
  · exact Or.inl hprimary
  · exact Or.inr ⟨by omega, hunary⟩

theorem StartsAt.atLevel {node : ASTNode} {lexemes : List Lexeme} (h : StartsAt node.level lexemes)
    (level : Nat) : StartsAt level (atLevel level node lexemes) := by
  unfold Expression.atLevel
  split
  case isTrue => exact ⟨_, _, rfl, Or.inl rfl⟩
  case isFalse hlevel =>
    obtain ⟨first, rest, rfl, hfirst⟩ := h
    refine ⟨first, rest, rfl, ?_⟩
    rcases hfirst with hprimary | ⟨hlt, hunary⟩
    · exact Or.inl hprimary
    · exact Or.inr ⟨by omega, hunary⟩

theorem startsAt_print (bareKeys : Bool) (node : ASTNode) (h : Printable node) :
    StartsAt node.level (print bareKeys node) := by
  cases node with
  | memberExpression object _ _ =>
    exact ((startsAt_print bareKeys object h.1).atLevel 8).append (Or.inr rfl) _
  | indexExpression object _ _ =>
    exact ((startsAt_print bareKeys object h.1).atLevel 8).append (Or.inr rfl) _
  | callExpression callee _ _ =>
    exact ((startsAt_print bareKeys callee h.1).atLevel 8).append (Or.inr rfl) _
  | unaryExpression operator _ =>
    refine ⟨_, _, rfl, Or.inr ⟨(by decide : 7 < 8), ?_⟩⟩
    cases operator <;> rfl
  | binaryExpression operator left _ =>
    have hlevel := (level_pos operator).2
    exact ((startsAt_print bareKeys left h.1).atLevel operator.level).append
      (Or.inl (show operator.level < 8 by omega)) _
  | ternaryExpression condition _ _ =>
    exact ((startsAt_print bareKeys condition h.1).atLevel 1).append
      (Or.inl (show 0 < 8 by decide)) _
  | templateLiteral _ => exact h.elim
  | chainExpression _ => exact h.elim
  | _ => exact ⟨_, _, rfl, Or.inl rfl⟩

def isCloser : TokenType → Bool
  | .rParen | .rBracket | .rBrace => true
  | _ => false

theorem StartsAt.not_closer {level : Nat} {lexemes : List Lexeme} (h : StartsAt level lexemes) :
    ∃ first rest, lexemes = first :: rest ∧ isCloser first.type = false := by
  obtain ⟨first, rest, hcons, hfirst⟩ := h
  refine ⟨first, rest, hcons, ?_⟩
  cases htype : first.type <;> rw [htype] at hfirst <;> simp_all [startsPrimary, startsUnary, isCloser]

/-! ## 5. From level to level -/

section Levels

variable (positions : Nat → Int) (bareKeys : Bool)

/-- Before this level the parser of `level` does not go on by itself. -/
def stopLevel (level : Nat) : Nat := if level = 0 ∨ level = 7 then level else level + 1

/-- The parser of the level reads the printed tree, and goes on as if it had just built it. -/
def Parses (level : Nat) (node : ASTNode) : Prop :=
  ∀ start rest, Stops (stopLevel level) rest →
    (parseAt level).run (place positions start (atLevel level node (print bareKeys node)) ++ rest) =
      (continueAt level node).run rest

variable {positions bareKeys} {node : ASTNode} {level : Nat}

/-- Where nothing continues the level, the printed tree comes back. -/
theorem Parses.run (h : Parses positions bareKeys level node) (hlevel : level ≤ 8) (start : Nat)
    {rest : List Token} (hrest : Stops level rest) :
    (parseAt level).run (place positions start (atLevel level node (print bareKeys node)) ++ rest) =
      .ok (node, rest) := by
  have hstop : Stops (stopLevel level) rest := by
    apply hrest.mono
    unfold stopLevel
    split_ifs <;> omega
  rw [h start rest hstop, run_continueAt_stop hlevel hrest]

theorem atLevel_succ (lexemes : List Lexeme) (hne : node.level ≠ level) :
    atLevel level node lexemes = atLevel (level + 1) node lexemes := by
  unfold atLevel
  by_cases hlevel : node.level < level
  · rw [if_pos hlevel, if_pos (by omega)]
  · rw [if_neg hlevel, if_neg (by omega)]

/-- A tree of another level is read by the level above first. -/
theorem Parses.descend (h : Parses positions bareKeys (level + 1) node) (hprintable : Printable node)
    (hlevel : level < 8) (hne : node.level ≠ level) : Parses positions bareKeys level node := by
  intro start rest hrest
  rw [atLevel_succ _ hne]
  have hstops : Stops (level + 1) rest := by
    apply hrest.mono
    unfold stopLevel
    split_ifs <;> omega
  have habove := h.run (by omega) start hstops
  by_cases hternary : level = 0
  · subst hternary
    have hzero : Stops 0 rest := hrest
    have hor : (parseOr parseExpression).run _ = _ := habove
    show (parseOr parseExpression >>= _).run _ = _
    rw [run_bind_ok hor]
    cases rest with
    | nil => rfl
    | cons token rest =>
      have htype : token.type ≠ .question := by
        intro htype
        exact absurd (hzero token rfl 0 (by rw [htype]; rfl)) (Nat.lt_irrefl 0)
      rw [run_matchType_of_ne _ _ htype]
      rfl
  · by_cases hunary : level = 7
    · subst hunary
      obtain ⟨first, more, hcons, hfirst⟩ := (startsAt_print bareKeys node hprintable).atLevel 8
      have hprimary : startsPrimary first.type = true := by
        rcases hfirst with hprimary | ⟨hlt, -⟩
        · exact hprimary
        · exact absurd hlt (Nat.lt_irrefl 8)
      have hchain : (parsePostfix parseExpression).run _ = _ := habove
      show (parseUnary parseExpression).run _ = _
      rw [parseUnary_eq]
      unfold unaryRound
      rw [hcons, place, List.cons_append] at hchain ⊢
      have hne : ∀ type, startsPrimary type = false → first.type ≠ type := by
        intro type hstarts htype
        rw [htype, hstarts] at hprimary
        cases hprimary
      rw [run_matchType_of_ne _ _ (hne .bang rfl)]
      show (matchType .minus >>= _).run _ = _
      rw [run_matchType_of_ne _ _ (hne .minus rfl)]
      exact hchain
    · rw [parseAt_binary (by omega) (by omega), continueAt_binary (by omega) (by omega)]
      unfold parseBinary
      rw [run_bind_ok habove]

theorem Parses.descend_to {level' : Nat} (h : Parses positions bareKeys level node)
    (hprintable : Printable node) (hlevel : level ≤ 8) (hle : level' ≤ level)
    (hne : ∀ l, level' ≤ l → l < level → node.level ≠ l) : Parses positions bareKeys level' node := by
  induction level with
  | zero => rwa [Nat.le_zero.mp hle]
  | succ level ih =>
    by_cases heq : level' = level + 1
    · rwa [heq]
    · have hbelow := h.descend hprintable (by omega) (hne level (by omega) (Nat.lt_succ_self level))
      exact ih hbelow (by omega) (by omega) fun l hl hlt => hne l hl (by omega)

theorem Parses.run_expression (h : Parses positions bareKeys 0 node) (start : Nat)
    {rest : List Token} (hrest : Stops 0 rest) :
    parseExpression.run (place positions start (print bareKeys node) ++ rest) = .ok (node, rest) := by
  rw [parseExpression_eq]
  exact h.run (Nat.zero_le 8) start hrest

theorem run_parsePostfix {tokens rest : List Token}
    (h : (parsePrimary parseExpression).run tokens = .ok (node, rest)) :
    (parseAt 8).run tokens = (continueAt 8 node).run rest := by
  show (parsePrimary parseExpression >>= _).run tokens = _
  rw [run_bind_ok h]
  rfl

/-- In parentheses a tree of any level is a primary expression. -/
theorem Parses.parens (h : Parses positions bareKeys 0 node) (hlevel : node.level < 8) :
    Parses positions bareKeys 8 node := by
  intro start rest _
  have hparens : atLevel 8 node (print bareKeys node) =
      fixed .lParen :: (print bareKeys node ++ [fixed .rParen]) := if_pos hlevel
  rw [hparens, place, place_append, List.cons_append, List.append_assoc]
  apply run_parsePostfix
  unfold parsePrimary
  rw [run_current_cons]
  show (advance >>= _).run _ = _
  have hclose : Stops 0 (place positions (start + 1 + (print bareKeys node).length)
      [fixed .rParen] ++ rest) := stops_cons rest fun l hl => nomatch hl
  rw [run_advance_cons, run_bind_ok (h.run_expression (start + 1) hclose)]
  rfl

/-- A tree that its own level reads is read by every level. -/
theorem Parses.all (hprintable : Printable node) (hle : node.level ≤ 8)
    (h : Parses positions bareKeys node.level node) (level : Nat) (hlevel : level ≤ 8) :
    Parses positions bareKeys level node := by
  by_cases hbelow : level ≤ node.level
  · exact h.descend_to hprintable hle hbelow fun l _ hlt => by omega
  · have hbottom := h.descend_to hprintable hle (Nat.zero_le _) fun l _ hlt => by omega
    have htop := hbottom.parens (by omega)
    exact htop.descend_to hprintable (Nat.le_refl 8) hlevel fun l hl _ => by omega

/-! ## 6. Postfix chains and operators -/

theorem run_parseLinks_dot (object : ASTNode) (value property : String) (pos pos' : Int)
    (rest : List Token) : (parseLinks parseExpression (object, false)).run
        (⟨.dot, value, pos⟩ :: ⟨.identifier, property, pos'⟩ :: rest) =
      (parseLinks parseExpression (.memberExpression object property false, false)).run rest := by
  rw [parseLinks_eq]
  rfl

theorem run_parseLinks_index (object : ASTNode) {index : ASTNode} {tokens rest : List Token}
    {token : Token} (htype : token.type = .lBracket)
    (h : (parseIndex parseExpression).run tokens = .ok (index, rest)) :
    (parseLinks parseExpression (object, false)).run (token :: tokens) =
      (parseLinks parseExpression (.indexExpression object index false, false)).run rest := by
  rw [parseLinks_eq]
  unfold linksRound
  rw [run_matchType_of_ne _ _ (by rw [htype]; decide)]
  show (matchType .dot >>= _).run _ = _
  rw [run_matchType_of_ne _ _ (by rw [htype]; decide)]
  show (matchType .lBracket >>= _).run _ = _
  rw [run_matchType_of_eq _ _ htype]
  show (parseIndex parseExpression >>= _).run tokens = _
  rw [run_bind_ok h]

theorem run_parseLinks_call (callee : ASTNode) {args : List ASTNode} {tokens rest : List Token}
    {token : Token} (htype : token.type = .lParen)
    (h : (parseArgs parseExpression).run tokens = .ok (args, rest)) :
    (parseLinks parseExpression (callee, false)).run (token :: tokens) =
      (parseLinks parseExpression (.callExpression callee args false, false)).run rest := by
  rw [parseLinks_eq]
  unfold linksRound
  rw [run_matchType_of_ne _ _ (by rw [htype]; decide)]
  show (matchType .dot >>= _).run _ = _
  rw [run_matchType_of_ne _ _ (by rw [htype]; decide)]
  show (matchType .lBracket >>= _).run _ = _
  rw [run_matchType_of_ne _ _ (by rw [htype]; decide)]
  show (matchType .lParen >>= _).run _ = _
  rw [run_matchType_of_eq _ _ htype]
  show (parseArgs parseExpression >>= _).run tokens = _
  rw [run_bind_ok h]

/-- A longer chain is read by way of the shorter one. -/
theorem Parses.link {object : ASTNode} (h : Parses positions bareKeys 8 object)
    {link : List Lexeme} (hprint : print bareKeys node =
      atLevel 8 object (print bareKeys object) ++ link) (hlevel : node.level = 8)
    (hlink : ∀ start rest, (parseLinks parseExpression (object, false)).run
        (place positions start link ++ rest) = (parseLinks parseExpression (node, false)).run rest) :
    Parses positions bareKeys 8 node := by
  intro start rest _
  have hraw : atLevel 8 node (print bareKeys node) = print bareKeys node :=
    if_neg (by omega)
  rw [hraw, hprint, place_append, List.append_assoc, h start _ (stops_nine _)]
  show (parseLinks parseExpression (object, false) >>= _).run _ = (parseLinks _ _ >>= _).run rest
  rw [StateT.run_bind, hlink, StateT.run_bind]

theorem run_parseUnary {operator : UnaryOperator} {operand : ASTNode} {tokens rest : List Token}
    {token : Token} (htype : token.type = operator.token)
    (h : (parseUnary parseExpression).run tokens = .ok (operand, rest)) :
    (parseUnary parseExpression).run (token :: tokens) =
      .ok (.unaryExpression operator operand, rest) := by
  rw [parseUnary_eq]
  unfold unaryRound
  cases operator with
  | not =>
    have hbang : token.type = .bang := htype
    rw [run_matchType_of_eq _ _ hbang]
    show (parseUnary parseExpression >>= _).run _ = _
    rw [run_bind_ok h]
    rfl
  | negate =>
    have hminus : token.type = .minus := htype
    rw [run_matchType_of_ne _ _ (by rw [hminus]; decide)]
    show (matchType .minus >>= _).run _ = _
    rw [run_matchType_of_eq _ _ hminus]
    show (parseUnary parseExpression >>= _).run _ = _
    rw [run_bind_ok h]
    rfl

theorem parses_unary {operator : UnaryOperator} {operand : ASTNode}
    (h : Parses positions bareKeys 7 operand) :
    Parses positions bareKeys 7 (.unaryExpression operator operand) := by
  intro start rest hrest
  show (parseUnary parseExpression).run (place positions start
    (fixed operator.token :: atLevel 7 operand (print bareKeys operand)) ++ rest) = _
  rw [place, List.cons_append]
  exact run_parseUnary rfl (h.run (by decide) (start + 1) hrest)

/-- The operator and the right operand, behind a tree of the operator's level. -/
theorem run_parseOperands {operator : BinaryOperator} {left right : ASTNode}
    {tokens rest : List Token} {token : Token} (htype : token.type = operator.token)
    (h : (parseAt (operator.level + 1)).run tokens = .ok (right, rest)) :
    (continueAt operator.level left).run (token :: tokens) =
      (continueAt operator.level (.binaryExpression operator left right)).run rest := by
  obtain ⟨hpos, hlt⟩ := level_pos operator
  rw [continueAt_binary hpos hlt, continueAt_binary hpos hlt, parseOperands_level]
  unfold operandsRound
  rw [run_current_cons, htype, operatorsAt_token]
  dsimp only
  rw [run_advance_cons, run_bind_ok h]

theorem run_parseTernary {condition consequent alternate : ASTNode}
    {tokens tokens' tokens'' rest : List Token} {question colon : Token}
    (hquestion : question.type = .question) (hcolon : colon.type = .colon)
    (hcondition : (parseAt 1).run tokens = .ok (condition, question :: tokens'))
    (hconsequent : parseExpression.run tokens' = .ok (consequent, colon :: tokens''))
    (halternate : parseExpression.run tokens'' = .ok (alternate, rest)) :
    (parseAt 0).run tokens = .ok (.ternaryExpression condition consequent alternate, rest) := by
  show (parseAt 1 >>= _).run tokens = _
  rw [run_bind_ok hcondition]
  show (matchType .question >>= _).run _ = _
  rw [run_matchType_of_eq _ _ hquestion]
  show (parseExpression >>= _).run _ = _
  rw [run_bind_ok hconsequent, run_expect_cons _ _ _ hcolon, run_bind_ok halternate]
  rfl

theorem stops_of_level {level l : Nat} {token : Token} (rest : List Token)
    (h : tokenLevel token.type = some l) (hlt : l < level) : Stops level (token :: rest) := by
  apply stops_cons
  intro l' hl
  rwa [← Option.some.inj (h.symm.trans hl)]

/-- A token that continues no level. -/
theorem stops_of_none {token : Token} (rest : List Token) (h : tokenLevel token.type = none) :
    Stops 0 (token :: rest) := by
  apply stops_cons
  intro l hl
  rw [h] at hl
  cases hl

theorem parses_binary {operator : BinaryOperator} {left right : ASTNode}
    (hleft : Parses positions bareKeys operator.level left)
    (hright : Parses positions bareKeys (operator.level + 1) right) :
    Parses positions bareKeys operator.level (.binaryExpression operator left right) := by
  intro start rest hrest
  obtain ⟨hpos, hlt⟩ := level_pos operator
  have hstop : stopLevel operator.level = operator.level + 1 := if_neg (by omega)
  have hraw : atLevel operator.level (.binaryExpression operator left right)
      (print bareKeys (.binaryExpression operator left right)) =
      atLevel operator.level left (print bareKeys left) ++
        fixed operator.token :: atLevel (operator.level + 1) right (print bareKeys right) :=
    if_neg (Nat.lt_irrefl operator.level)
  rw [hstop] at hrest
  rw [hraw, place_append, List.append_assoc, hleft start, place, List.cons_append]
  · exact run_parseOperands rfl (hright.run (by omega) _ hrest)
  · rw [hstop, place, List.cons_append]
    exact stops_of_level _ (tokenLevel_of_operatorsAt (operatorsAt_token operator))
      (Nat.lt_succ_self operator.level)

theorem parses_ternary {condition consequent alternate : ASTNode}
    (hcondition : Parses positions bareKeys 1 condition)
    (hconsequent : Parses positions bareKeys 0 consequent)
    (halternate : Parses positions bareKeys 0 alternate) :
    Parses positions bareKeys 0 (.ternaryExpression condition consequent alternate) := by
  intro start rest hrest
  have hraw : atLevel 0 (.ternaryExpression condition consequent alternate)
      (print bareKeys (.ternaryExpression condition consequent alternate)) =
      atLevel 1 condition (print bareKeys condition) ++ fixed .question ::
        (print bareKeys consequent ++ fixed .colon :: print bareKeys alternate) :=
    if_neg (Nat.lt_irrefl 0)
  rw [hraw, place_append, List.append_assoc, place, place_append, place, List.cons_append,
    List.append_assoc, List.cons_append]
  exact run_parseTernary (by rfl) (by rfl) (hcondition.run (by decide) start
      (stops_of_level _ (by rfl) Nat.zero_lt_one))
    (hconsequent.run_expression _ (stops_of_none _ (by rfl)))
    (halternate.run_expression _ hrest)

/-! ## 7. Lists of items -/

variable (positions) in
/-- The parser of an item reads the lexemes of the value, in front of a comma or a closer. -/
def ItemParses {α : Type} (item : TokenParser α) (value : α) (lexemes : List Lexeme) : Prop :=
  (∃ first rest, lexemes = first :: rest ∧ isCloser first.type = false) ∧
    ∀ start rest, Stops 0 rest → item.run (place positions start lexemes ++ rest) = .ok (value, rest)

section Items

variable {α : Type} {item : TokenParser α} {values : List α} {lists : List (List Lexeme)}

theorem tokenLevel_of_isCloser {type : TokenType} (h : isCloser type = true) :
    tokenLevel type = none := by
  cases type <;> first | rfl | cases h

variable (positions) in
/-- Behind an item there is a comma or the closer. -/
theorem stops_items (start : Nat) (lists : List (List Lexeme)) {token : Token} (rest : List Token)
    (h : isCloser token.type = true) :
    Stops 0 (place positions start (lists.flatMap (fixed .comma :: ·)) ++ token :: rest) := by
  cases lists with
  | nil => exact stops_of_none rest (tokenLevel_of_isCloser h)
  | cons first lists => exact stops_of_none _ rfl

theorem run_parseItems (htracks : ∀ n, Tracks 0 n item item) {close : Option TokenType}
    (hclose : ∀ type, close = some type → isCloser type = true)
    (h : List.Forall₂ (ItemParses positions item) values lists) (items : List α) (start : Nat)
    {token : Token} (rest : List Token) (htoken : isCloser token.type = true) :
    (parseItems item close items).run
        (place positions start (lists.flatMap (fixed .comma :: ·)) ++ token :: rest) =
      .ok (items ++ values, token :: rest) := by
  induction h generalizing items start with
  | nil =>
    have hcomma : token.type ≠ .comma := by
      intro htype
      rw [htype] at htoken
      cases htoken
    rw [parseItems_eq htracks, List.append_nil]
    show (matchType .comma >>= _).run (token :: rest) = _
    rw [run_matchType_of_ne _ _ hcomma]
    rfl
  | @cons value lexemes values lists hitem hitems ih =>
    obtain ⟨⟨first, more, rfl, hfirst⟩, hrun⟩ := hitem
    rw [parseItems_eq htracks, List.flatMap_cons, List.cons_append, place, place_append,
      List.cons_append, List.append_assoc]
    unfold itemsRound
    rw [run_matchType_of_eq _ _ (by rfl)]
    have hitem := hrun (start + 1) _ (stops_items positions (start + 1 + (first :: more).length)
      lists rest htoken)
    rw [place, List.cons_append] at hitem ⊢
    show (current >>= _).run _ = _
    rw [run_current_cons, if_neg (by
      intro heq
      rw [hclose _ heq] at hfirst
      cases hfirst)]
    rw [run_bind_ok hitem, ih]
    rw [List.append_assoc]
    rfl

theorem run_parseItemsUntil (htracks : ∀ n, Tracks 0 n item item)
    (h : List.Forall₂ (ItemParses positions item) values lists) (start : Nat) {token : Token}
    (rest : List Token) {close : TokenType} (hclose : token.type = close)
    (hcloser : isCloser close = true) : (parseItemsUntil item close).run
        (place positions start (commaSeparated lists) ++ token :: rest) =
      .ok (values, token :: rest) := by
  have htoken : isCloser token.type = true := by rwa [hclose]
  unfold parseItemsUntil
  cases h with
  | nil =>
    show (current >>= _).run (token :: rest) = _
    rw [run_current_cons, if_neg (not_not.mpr hclose)]
    rfl
  | @cons value lexemes values lists hitem hitems =>
    obtain ⟨⟨first, more, rfl, hfirst⟩, hrun⟩ := hitem
    have hitem := hrun start _ (stops_items positions (start + (first :: more).length)
      lists rest htoken)
    unfold commaSeparated
    rw [place_append, List.append_assoc]
    rw [place, List.cons_append] at hitem ⊢
    have hne : first.type ≠ close := by
      intro heq
      rw [heq, hcloser] at hfirst
      cases hfirst
    rw [run_current_cons, if_pos hne, run_bind_ok hitem]
    exact run_parseItems htracks (fun type heq => by rwa [← Option.some.inj heq]) hitems [value] _
      rest htoken

theorem run_parseArgList {args : List ASTNode}
    (h : List.Forall₂ (ItemParses positions parseExpression) args lists) (start : Nat)
    {token : Token} (rest : List Token) (htoken : token.type = .rParen) :
    (parseArgList parseExpression).run
        (place positions start (commaSeparated lists) ++ token :: rest) =
      .ok (args, token :: rest) := by
  have hcloser : isCloser token.type = true := by rw [htoken]; rfl
  unfold parseArgList
  cases h with
  | nil =>
    show (current >>= _).run (token :: rest) = _
    rw [run_current_cons, if_pos htoken]
    rfl
  | @cons value lexemes values lists hitem hitems =>
    obtain ⟨⟨first, more, rfl, hfirst⟩, hrun⟩ := hitem
    have hitem := hrun start _ (stops_items positions (start + (first :: more).length)
      lists rest hcloser)
    unfold commaSeparated
    rw [place_append, List.append_assoc]
    rw [place, List.cons_append] at hitem ⊢
    have hne : first.type ≠ .rParen := by
      intro heq
      rw [heq] at hfirst
      cases hfirst
    rw [run_current_cons, if_neg hne, run_bind_ok hitem]
    exact run_parseItems tracks_parseExpression (by simp) hitems [value] _
      rest hcloser

end Items

theorem itemParses_expression (hprintable : Printable node) (h : Parses positions bareKeys 0 node) :
    ItemParses positions parseExpression node (print bareKeys node) :=
  ⟨(startsAt_print bareKeys node hprintable).not_closer, fun start _ => h.run_expression start⟩

theorem itemParses_property (key : String) (h : Parses positions bareKeys 0 node) :
    ItemParses positions (parseObjectProperty parseExpression) (key, node)
      (printKey bareKeys key :: fixed .colon :: print bareKeys node) := by
  have hkey : (printKey bareKeys key).value = key ∧ ((printKey bareKeys key).type = .string ∨
      (printKey bareKeys key).type = .identifier) := by
    unfold printKey
    split
    · exact ⟨rfl, Or.inr rfl⟩
    · exact ⟨rfl, Or.inl rfl⟩
  refine ⟨⟨_, _, rfl, ?_⟩, fun start rest hrest => ?_⟩
  · rcases hkey.2 with htype | htype <;> rw [htype] <;> rfl
  · rw [place, place, List.cons_append, List.cons_append]
    unfold parseObjectProperty
    rw [run_current_cons, if_pos hkey.2, run_advance_cons, run_expect_cons _ _ _ (by rfl),
      run_bind_ok (h.run_expression (start + 1 + 1) hrest), hkey.1]
    rfl

/-! ## 8. Every printed tree -/

theorem level_le (node : ASTNode) : node.level ≤ 8 := by
  cases node with
  | binaryExpression operator left right =>
    have hlevel := (level_pos operator).2
    show operator.level ≤ 8
    omega
  | unaryExpression operator operand => exact Nat.le_succ 7
  | ternaryExpression condition consequent alternate => exact Nat.zero_le 8
  | _ => exact Nat.le_refl 8

/-- A primary expression of one token. -/
theorem parses_token (hlevel : node.level = 8) {lexeme : Lexeme} (hprint : print bareKeys node = [lexeme])
    (hrun : ∀ pos rest, (parsePrimary parseExpression).run (⟨lexeme.type, lexeme.value, pos⟩ :: rest) =
      .ok (node, rest)) : Parses positions bareKeys 8 node := by
  intro start rest _
  have hraw : atLevel 8 node (print bareKeys node) = [lexeme] := by
    rw [atLevel, if_neg (by omega), hprint]
  rw [hraw]
  exact run_parsePostfix (hrun (positions start) rest)

theorem run_parsePrimary_array {token : Token} (tokens : List Token)
    (htype : token.type = .lBracket) : (parsePrimary parseExpression).run (token :: tokens) =
      (parseArrayLiteral parseExpression).run (token :: tokens) := by
  unfold parsePrimary
  rw [run_current_cons]
  simp only [htype]

theorem run_parsePrimary_object {token : Token} (tokens : List Token)
    (htype : token.type = .lBrace) : (parsePrimary parseExpression).run (token :: tokens) =
      (parseObjectLiteral parseExpression).run (token :: tokens) := by
  unfold parsePrimary
  rw [run_current_cons]
  simp only [htype]

theorem parses_array {elements : List ASTNode}
    (h : List.Forall₂ (ItemParses positions parseExpression) elements (printAll bareKeys elements)) :
    Parses positions bareKeys 8 (.arrayLiteral elements) := by
  intro start rest _
  show (parseAt 8).run (place positions start (fixed .lBracket ::
    (commaSeparated (printAll bareKeys elements) ++ [fixed .rBracket])) ++ rest) = _
  rw [place, place_append, List.cons_append, List.append_assoc]
  apply run_parsePostfix
  rw [run_parsePrimary_array _ (by rfl)]
  unfold parseArrayLiteral
  rw [run_expect_cons _ _ _ (by rfl), place, List.cons_append,
    run_bind_ok (run_parseItemsUntil tracks_parseExpression h _ _ (by rfl) rfl),
    run_expect_cons _ _ _ (by rfl)]
  rfl

theorem parses_object {properties : List (String × ASTNode)}
    (h : List.Forall₂ (ItemParses positions (parseObjectProperty parseExpression)) properties
      (printProperties bareKeys properties)) :
    Parses positions bareKeys 8 (.objectLiteral properties) := by
  intro start rest _
  show (parseAt 8).run (place positions start (fixed .lBrace ::
    (commaSeparated (printProperties bareKeys properties) ++ [fixed .rBrace])) ++ rest) = _
  rw [place, place_append, List.cons_append, List.append_assoc]
  apply run_parsePostfix
  rw [run_parsePrimary_object _ (by rfl)]
  unfold parseObjectLiteral
  have hitems := run_parseItemsUntil
    (fun n => tracks_parseObjectProperty (tracks_parseExpression n)) h
  rw [run_expect_cons _ _ _ (by rfl), place, List.cons_append,
    run_bind_ok (hitems _ _ (by rfl) rfl), run_expect_cons _ _ _ (by rfl)]
  rfl

theorem parses_index {object index : ASTNode} (hobject : Parses positions bareKeys 8 object)
    (hindex : Parses positions bareKeys 0 index) :
    Parses positions bareKeys 8 (.indexExpression object index false) := by
  apply hobject.link rfl rfl
  intro start rest
  rw [place, place_append, List.cons_append, List.append_assoc, place, List.cons_append]
  apply run_parseLinks_index _ (by rfl)
  unfold parseIndex
  rw [run_bind_ok (hindex.run_expression _ (stops_of_none _ (by rfl))),
    run_expect_cons _ _ _ (by rfl)]
  rfl

theorem parses_call {callee : ASTNode} {args : List ASTNode}
    (hcallee : Parses positions bareKeys 8 callee)
    (hargs : List.Forall₂ (ItemParses positions parseExpression) args (printAll bareKeys args)) :
    Parses positions bareKeys 8 (.callExpression callee args false) := by
  apply hcallee.link rfl rfl
  intro start rest
  rw [place, place_append, List.cons_append, List.append_assoc, place, List.cons_append]
  apply run_parseLinks_call _ (by rfl)
  unfold parseArgs
  rw [run_bind_ok (run_parseArgList hargs _ _ (by rfl)), run_expect_cons _ _ _ (by rfl)]
  rfl

theorem parseFloat_numeral (n : Nat) : parseFloat (numeral (.finite n)) = .finite n :=
  parseFloat_toDigits n

variable (positions bareKeys)

mutual

theorem parses_print : ∀ node, Printable node →
    ∀ level, level ≤ 8 → Parses positions bareKeys level node
  | .numberLiteral value, h => by
    have hvalue : ∃ n : Nat, value = .finite n := h
    obtain ⟨n, rfl⟩ := hvalue
    apply Parses.all h (Nat.le_refl 8)
    apply parses_token rfl rfl
    intro pos rest
    exact congrArg (fun number => Except.ok (ASTNode.numberLiteral number, rest)) (parseFloat_numeral n)
  | .stringLiteral value, h =>
    Parses.all h (Nat.le_refl 8) (parses_token rfl rfl fun _ _ => rfl)
  | .booleanLiteral value, h => by
    apply Parses.all h (Nat.le_refl 8)
    apply parses_token rfl rfl
    cases value <;> exact fun _ _ => rfl
  | .nullLiteral, h => Parses.all h (Nat.le_refl 8) (parses_token rfl rfl fun _ _ => rfl)
  | .identifier name, h => Parses.all h (Nat.le_refl 8) (parses_token rfl rfl fun _ _ => rfl)
  | .memberExpression object property optional, h => by
    have hoptional : optional = false := h.2.2
    subst hoptional
    apply Parses.all h (Nat.le_refl 8)
    apply (parses_print object h.1 8 (Nat.le_refl 8)).link rfl rfl
    exact fun start rest => run_parseLinks_dot object _ property _ _ rest
  | .indexExpression object index optional, h => by
    have hoptional : optional = false := h.2.2
    subst hoptional
    apply Parses.all h (Nat.le_refl 8)
    exact parses_index (parses_print object h.1 8 (Nat.le_refl 8))
      (parses_print index h.2.1 0 (Nat.zero_le 8))
  | .callExpression callee args optional, h => by
    have hoptional : optional = false := h.2.2
    subst hoptional
    apply Parses.all h (Nat.le_refl 8)
    exact parses_call (parses_print callee h.1 8 (Nat.le_refl 8)) (parses_printAll args h.2.1)
  | .unaryExpression operator operand, h => by
    apply Parses.all h (level_le _)
    exact parses_unary (parses_print operand h 7 (by decide))
  | .binaryExpression operator left right, h => by
    have hlevel := (level_pos operator).2
    apply Parses.all h (level_le _)
    exact parses_binary (parses_print left h.1 _ (by omega)) (parses_print right h.2 _ (by omega))
  | .ternaryExpression condition consequent alternate, h => by
    apply Parses.all h (level_le _)
    exact parses_ternary (parses_print condition h.1 1 (by decide))
      (parses_print consequent h.2.1 0 (by decide)) (parses_print alternate h.2.2 0 (by decide))
  | .arrayLiteral elements, h => by
    apply Parses.all h (Nat.le_refl 8)
    exact parses_array (parses_printAll elements h)
  | .objectLiteral properties, h => by
    apply Parses.all h (Nat.le_refl 8)
    exact parses_object (parses_printProperties properties h)
  | .templateLiteral _, h => h.elim
  | .chainExpression _, h => h.elim

theorem parses_printAll : ∀ nodes, ArePrintable nodes →
    List.Forall₂ (ItemParses positions parseExpression) nodes (printAll bareKeys nodes)
  | [], _ => .nil
  | node :: nodes, h =>
    .cons (itemParses_expression h.1 (parses_print node h.1 0 (Nat.zero_le 8)))
      (parses_printAll nodes h.2)

theorem parses_printProperties : ∀ properties, PropertiesArePrintable properties →
    List.Forall₂ (ItemParses positions (parseObjectProperty parseExpression)) properties
      (printProperties bareKeys properties)
  | [], _ => .nil
  | (key, value) :: properties, h =>
    .cons (itemParses_property key (parses_print value h.1 0 (Nat.zero_le 8)))
      (parses_printProperties properties h.2)

end

end Levels

theorem run_parseParts_expression {node : ASTNode} {tokens : List Token} {start stop last : Token}
    (hstart : start.type = .exprStart) (hstop : stop.type = .exprEnd) (hlast : last.type = .eof)
    (h : parseExpression.run tokens = .ok (node, [stop, last])) :
    (parseParts []).run (start :: tokens) = .ok ([.inr node], [last]) := by
  have hend : (parseParts [.inr node]).run [last] = .ok ([.inr node], [last]) := by
    rw [parseParts_eq]
    unfold partsRound
    rw [run_current_cons]
    simp only [hlast]
    rfl
  rw [parseParts_eq]
  unfold partsRound
  rw [run_current_cons]
  simp only [hstart]
  rw [run_advance_cons, run_bind_ok h, run_expect_cons _ _ _ hstop]
  exact hend

theorem run_parseParts_print (bareKeys : Bool) {node : ASTNode} (h : Printable node)
    {tokens : List Token} (htokens : tokens.map Token.lexeme =
      fixed .exprStart :: (print bareKeys node ++ [fixed .exprEnd, fixed .eof])) :
    ∃ last, (parseParts []).run tokens = .ok ([.inr node], [last]) := by
  obtain ⟨positions, hplace⟩ := exists_place tokens
  have hnode := parses_print positions bareKeys node h 0 (Nat.zero_le 8)
  rw [htokens, place, place_append] at hplace
  rw [hplace]
  exact ⟨_, run_parseParts_expression (by rfl) (by rfl) (by rfl)
    (hnode.run_expression _ (stops_of_none _ (by rfl)))⟩

/-- A template of one expression is parsed as that expression. -/
theorem parse_print (bareKeys : Bool) {node : ASTNode} (h : Printable node) {tokens : List Token}
    (htokens : tokens.map Token.lexeme =
      fixed .exprStart :: (print bareKeys node ++ [fixed .exprEnd, fixed .eof])) :
    parse tokens = .ok node := by
  obtain ⟨last, hparts⟩ := run_parseParts_print bareKeys h htokens
  unfold parse
  rw [hparts]
  rfl

/-! ## 9. The round trip -/

/-- A printed tree comes back as long as the tokenizer accepts the length of the text. -/
theorem parse_tokenize_sourceText (style : PrintStyle) {node : ASTNode} (h : Printable node) :
    (tokenize (sourceText style node) >>= parse) =
      if utf16Length (sourceText style node) ≤ maxExpressionLength then .ok node
      else .error ⟨.syntaxError,
        "Expression exceeds maximum length of 10000 characters", none⟩ := by
  by_cases hlength : utf16Length (sourceText style node) ≤ maxExpressionLength
  · obtain ⟨tokens, htokens, htokenize⟩ := tokenize_sourceText style h hlength
    rw [if_pos hlength, htokenize]
    exact parse_print style.bareKeys h htokens
  · rw [if_neg hlength]
    unfold tokenize
    rw [if_pos (Nat.lt_of_not_le hlength)]
    rfl

/-- `- a . b ( [ "}}" ] ) * { k : { } }`. -/
def nestedTree : ASTNode :=
  .binaryExpression .times
    (.unaryExpression .negate (.callExpression
      (.memberExpression (.identifier "a") "b" false) [.arrayLiteral [.stringLiteral "\x7d\x7d"]] false))
    (.objectLiteral [("k", .objectLiteral [])])

theorem parse_tokenize_nestedTree :
    (tokenize (sourceText ⟨.double, true⟩ nestedTree) >>= parse) = .ok nestedTree := by
  have hprintable : Printable nestedTree := by
    simp [nestedTree, Printable, ArePrintable, PropertiesArePrintable]
    decide
  rw [parse_tokenize_sourceText ⟨.double, true⟩ hprintable, if_pos (by decide +kernel)]

/-- A name of so many letters and one more. -/
def longName (n : Nat) : String := String.ofList ('a' :: List.replicate n 'a')

theorem printable_longName (n : Nat) : Printable (.identifier (longName n)) := by
  have hlist : (longName n).toList = 'a' :: List.replicate n 'a' := String.toList_ofList
  have hhead : ∀ word : String, word.toList.head? ≠ some 'a' → longName n ≠ word := by
    rintro word hword rfl
    rw [hlist] at hword
    exact hword rfl
  have hparts : (List.replicate n 'a').all isIdentPart = true := by
    rw [List.all_eq_true]
    intro c hc
    rw [List.eq_of_mem_replicate hc]
    decide
  show isIdentifierName (longName n) = true
  unfold isIdentifierName
  rw [hlist]
  simp [hparts, hhead "true" (by decide), hhead "false" (by decide), hhead "null" (by decide)]
  decide

theorem length_longName (style : PrintStyle) (n : Nat) :
    n + 1 < utf16Length (sourceText style (.identifier (longName n))) := by
  have hspelled : Lexeme.spelled style.quote ⟨.identifier, longName n⟩ = 'a' :: List.replicate n 'a' :=
    String.toList_ofList
  unfold utf16Length sourceText
  rw [String.toList_ofList]
  simp [print, spell, hspelled]
  have hwidth : utf16Width 'a' = 1 ∧ utf16Width '{' = 1 := by decide
  rw [hwidth.1, hwidth.2]
  omega

/-- A name of ten thousand letters is an expression that the tokenizer refuses to read. -/
theorem parse_tokenize_longName : Printable (.identifier (longName 9999)) ∧
    (tokenize (sourceText ⟨.double, true⟩ (.identifier (longName 9999))) >>= parse) ≠
      .ok (.identifier (longName 9999)) := by
  refine ⟨printable_longName 9999, ?_⟩
  have hlength : maxExpressionLength < utf16Length (sourceText ⟨.double, true⟩
      (.identifier (longName 9999))) := length_longName ⟨.double, true⟩ 9999
  unfold tokenize
  rw [if_pos hlength]
  exact fun heq => nomatch heq

end Clemvion.Expression
