import Clemvion.Expression.Ast
import Clemvion.Js.ParseFloat
import Clemvion.Library.Descent

/-!
# Parser — from tokens to a syntax tree

One function for each level of the precedence ladder.  They call each other through
`parseExpression`, which every rule below takes as the parameter `expression`; the loops of the
source are recursions of their own.
-/

open Clemvion.Js Clemvion.Library

namespace Clemvion.Expression

/-! ## 1. The token at hand -/

abbrev TokenParser := Parser Token ExpressionError

/-- What stands for a token behind the end of the list. -/
def endToken : Token := ⟨.eof, "", -1⟩

def current : TokenParser Token := do return (← get).headD endToken

def advance : TokenParser Token := do
  let token ← current
  modify List.tail
  return token

def matchType (type : TokenType) : TokenParser Bool := do
  if (← current).type = type then
    let _ ← advance
    return true
  else return false

def expect (type : TokenType) (message : String) : TokenParser Token := do
  let token ← current
  if token.type ≠ type then
    throw (syntaxErrorAt s!"{message}, got {token.type.name} ('{token.value}')" token.position)
  else advance

/-! ## 2. Primary expressions -/

section Grammar

variable (expression : TokenParser ASTNode)

/-- One round of a loop over commas; before `close`, a comma may end the list. -/
def itemsRound {α : Type} (item : TokenParser α) (close : Option TokenType)
    (self : List α → TokenParser (List α)) (items : List α) : TokenParser (List α) := do
  if ← matchType .comma then
    let token ← current
    if close = some token.type then return items
    else
      let next ← item
      self (items ++ [next])
  else return items

/-- The items after the first one. -/
def parseItems {α : Type} (item : TokenParser α) (close : Option TokenType) :
    List α → TokenParser (List α) := recursive (itemsRound item close)

def parseArgList : TokenParser (List ASTNode) := do
  let token ← current
  if token.type = .rParen then return []
  else
    let first ← expression
    parseItems expression none [first]

/-- The items up to `close`. -/
def parseItemsUntil {α : Type} (item : TokenParser α) (close : TokenType) :
    TokenParser (List α) := do
  let token ← current
  if token.type ≠ close then
    let first ← item
    parseItems item (some close) [first]
  else return []

def parseArrayLiteral : TokenParser ASTNode := do
  let _ ← expect .lBracket "Expected ["
  let elements ← parseItemsUntil expression .rBracket
  let _ ← expect .rBracket "Expected ]"
  return .arrayLiteral elements

def parseObjectProperty : TokenParser (String × ASTNode) := do
  let token ← current
  if token.type = .string ∨ token.type = .identifier then
    let _ ← advance
    let _ ← expect .colon "Expected : after object key"
    let value ← expression
    return (token.value, value)
  else throw (syntaxErrorAt "Expected string or identifier as object key" token.position)

def parseObjectLiteral : TokenParser ASTNode := do
  let _ ← expect .lBrace "Expected \x7b"
  let properties ← parseItemsUntil (parseObjectProperty expression) .rBrace
  let _ ← expect .rBrace "Expected \x7d"
  return .objectLiteral properties

def parsePrimary : TokenParser ASTNode := do
  let token ← current
  match token.type with
  | .number => do
    let _ ← advance
    return .numberLiteral (parseFloat token.value)
  | .string => do
    let _ ← advance
    return .stringLiteral token.value
  | .boolean => do
    let _ ← advance
    return .booleanLiteral (token.value = "true")
  | .null => do
    let _ ← advance
    return .nullLiteral
  | .identifier => do
    let _ ← advance
    return .identifier token.value
  | .lParen => do
    let _ ← advance
    let node ← expression
    let _ ← expect .rParen "Expected )"
    return node
  | .lBracket => parseArrayLiteral expression
  | .lBrace => parseObjectLiteral expression
  | _ => throw (syntaxErrorAt s!"Unexpected token: {token.type.name} ('{token.value}')" token.position)

/-! ## 3. Postfix chains -/

/-- The index and its closing bracket. -/
def parseIndex : TokenParser ASTNode := do
  let index ← expression
  let _ ← expect .rBracket "Expected ]"
  return index

/-- The arguments and their closing parenthesis. -/
def parseArgs : TokenParser (List ASTNode) := do
  let args ← parseArgList expression
  let _ ← expect .rParen "Expected )"
  return args

/-- The access behind a `?.`. -/
def parseOptionalLink (node : ASTNode) : TokenParser ASTNode := do
  let next ← current
  if next.type = .lBracket then
    let _ ← advance
    let index ← parseIndex expression
    return .indexExpression node index true
  else if next.type = .lParen then
    let _ ← advance
    let args ← parseArgs expression
    return .callExpression node args true
  else
    let property ← expect .identifier "Expected property name, \"[\", or \"(\" after ?."
    return .memberExpression node property.value true

/-- One round of the loop of `parsePostfix`: the chain read so far and whether a `?.` was in it. -/
def linksRound (self : ASTNode × Bool → TokenParser (ASTNode × Bool)) (chain : ASTNode × Bool) :
    TokenParser (ASTNode × Bool) := do
  if ← matchType .questionDot then
    let node ← parseOptionalLink expression chain.1
    self (node, true)
  else if ← matchType .dot then
    let property ← expect .identifier "Expected property name after ."
    self (.memberExpression chain.1 property.value false, chain.2)
  else if ← matchType .lBracket then
    let index ← parseIndex expression
    self (.indexExpression chain.1 index false, chain.2)
  else if ← matchType .lParen then
    let args ← parseArgs expression
    self (.callExpression chain.1 args false, chain.2)
  else return chain

def parseLinks : ASTNode × Bool → TokenParser (ASTNode × Bool) := recursive (linksRound expression)

def parsePostfix : TokenParser ASTNode := do
  let node ← parsePrimary expression
  let chain ← parseLinks expression (node, false)
  return if chain.2 then .chainExpression chain.1 else chain.1

/-! ## 4. Operators -/

def unaryRound (self : Unit → TokenParser ASTNode) (_ : Unit) : TokenParser ASTNode := do
  if ← matchType .bang then
    let operand ← self ()
    return .unaryExpression .not operand
  else if ← matchType .minus then
    let operand ← self ()
    return .unaryExpression .negate operand
  else parsePostfix expression

def parseUnary : TokenParser ASTNode := recursive (unaryRound expression) ()

/-- One round of the loop of a level of left-associative operators. -/
def operandsRound (operatorOf : TokenType → Option BinaryOperator) (operand : TokenParser ASTNode)
    (self : ASTNode → TokenParser ASTNode) (node : ASTNode) : TokenParser ASTNode := do
  let token ← current
  match operatorOf token.type with
  | some operator => do
    let _ ← advance
    let right ← operand
    self (.binaryExpression operator node right)
  | none => return node

def parseOperands (operatorOf : TokenType → Option BinaryOperator) (operand : TokenParser ASTNode) :
    ASTNode → TokenParser ASTNode := recursive (operandsRound operatorOf operand)

def parseBinary (operatorOf : TokenType → Option BinaryOperator) (operand : TokenParser ASTNode) :
    TokenParser ASTNode := do
  let node ← operand
  parseOperands operatorOf operand node

def multiplicationOperator : TokenType → Option BinaryOperator
  | .star => some .times
  | .slash => some .divide
  | .percent => some .modulo
  | _ => none

def additionOperator : TokenType → Option BinaryOperator
  | .plus => some .plus
  | .minus => some .minus
  | _ => none

def comparisonOperator : TokenType → Option BinaryOperator
  | .lt => some .less
  | .gt => some .greater
  | .lte => some .lessOrEqual
  | .gte => some .greaterOrEqual
  | _ => none

def equalityOperator : TokenType → Option BinaryOperator
  | .eq => some .equal
  | .neq => some .notEqual
  | _ => none

def andOperator : TokenType → Option BinaryOperator
  | .and => some .and
  | _ => none

def orOperator : TokenType → Option BinaryOperator
  | .or => some .or
  | _ => none

def parseMultiplication : TokenParser ASTNode :=
  parseBinary multiplicationOperator (parseUnary expression)

def parseAddition : TokenParser ASTNode :=
  parseBinary additionOperator (parseMultiplication expression)

def parseComparison : TokenParser ASTNode :=
  parseBinary comparisonOperator (parseAddition expression)

def parseEquality : TokenParser ASTNode :=
  parseBinary equalityOperator (parseComparison expression)

def parseAnd : TokenParser ASTNode := parseBinary andOperator (parseEquality expression)

def parseOr : TokenParser ASTNode := parseBinary orOperator (parseAnd expression)

def parseTernary : TokenParser ASTNode := do
  let node ← parseOr expression
  if ← matchType .question then
    let consequent ← expression
    let _ ← expect .colon "Expected : in ternary expression"
    let alternate ← expression
    return .ternaryExpression node consequent alternate
  else return node

end Grammar

def expressionRound (self : Unit → TokenParser ASTNode) (_ : Unit) : TokenParser ASTNode :=
  parseTernary (self ())

def parseExpression : TokenParser ASTNode := recursive expressionRound ()

/-! ## 5. Templates -/

abbrev Parts := List (String ⊕ ASTNode)

def partsRound (self : Parts → TokenParser Parts) (parts : Parts) : TokenParser Parts := do
  let token ← current
  match token.type with
  | .eof => return parts
  | .text => do
    let _ ← advance
    self (parts ++ [.inl token.value])
  | .exprStart => do
    let _ ← advance
    let node ← parseExpression
    let _ ← expect .exprEnd "Expected \x7d\x7d"
    self (parts ++ [.inr node])
  | _ => throw (syntaxErrorAt s!"Unexpected token: {token.type.name}" token.position)

def parseParts : Parts → TokenParser Parts := recursive partsRound

/-- A template of one expression is that expression. -/
def ofParts : Parts → ASTNode
  | [.inr node] => node
  | [] => .stringLiteral ""
  | parts => .templateLiteral parts

def parse (tokens : List Token) : Except ExpressionError ASTNode :=
  ((parseParts []).run tokens).map fun result => ofParts result.1

end Clemvion.Expression
