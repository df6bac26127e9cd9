import Clemvion.Js.Value

/-!
# Ast — tokens, errors and syntax trees of the expression language
-/

open Clemvion.Js

namespace Clemvion.Expression

/-! ## 1. Tokens -/

inductive TokenType
  | number | string | boolean | null
  | identifier
  | plus | minus | star | slash | percent | bang | eq | neq | lt | gt | lte | gte | and | or
  | question | questionDot | colon
  | dot | comma | lParen | rParen | lBracket | rBracket | lBrace | rBrace
  | text | exprStart | exprEnd
  | eof
  deriving DecidableEq, Repr

/-- The name that error messages give to a type. -/
def TokenType.name : TokenType → String
  | .number => "Number" | .string => "String" | .boolean => "Boolean" | .null => "Null"
  | .identifier => "Identifier"
  | .plus => "Plus" | .minus => "Minus" | .star => "Star" | .slash => "Slash"
  | .percent => "Percent" | .bang => "Bang" | .eq => "Eq" | .neq => "Neq" | .lt => "Lt"
  | .gt => "Gt" | .lte => "Lte" | .gte => "Gte" | .and => "And" | .or => "Or"
  | .question => "Question" | .questionDot => "QuestionDot" | .colon => "Colon"
  | .dot => "Dot" | .comma => "Comma" | .lParen => "LParen" | .rParen => "RParen"
  | .lBracket => "LBracket" | .rBracket => "RBracket" | .lBrace => "LBrace" | .rBrace => "RBrace"
  | .text => "Text" | .exprStart => "ExprStart" | .exprEnd => "ExprEnd"
  | .eof => "EOF"

structure Token where
  type : TokenType
  value : String
  position : Int
  deriving DecidableEq, Repr

/-! ## 2. Errors -/

inductive ErrorCode
  | syntaxError | referenceError | typeError | functionError | timeout | depthExceeded
  deriving DecidableEq, Repr, Inhabited

structure ExpressionError where
  code : ErrorCode
  message : String
  position : Option Int
  deriving DecidableEq, Repr, Inhabited

/-- `new SyntaxError(message, position)`. -/
def syntaxErrorAt (message : String) (position : Int) : ExpressionError :=
  ⟨.syntaxError, message, some position⟩

/-! ## 3. Syntax trees -/

inductive UnaryOperator
  | not | negate
  deriving DecidableEq, Repr

inductive BinaryOperator
  | plus | minus | times | divide | modulo | equal | notEqual | less | greater | lessOrEqual
  | greaterOrEqual | and | or
  deriving DecidableEq, Repr

inductive ASTNode
  | numberLiteral (value : Number)
  | stringLiteral (value : String)
  | booleanLiteral (value : Bool)
  | nullLiteral
  | identifier (name : String)
  | memberExpression (object : ASTNode) (property : String) (optional : Bool)
  | indexExpression (object index : ASTNode) (optional : Bool)
  | callExpression (callee : ASTNode) (args : List ASTNode) (optional : Bool)
  | unaryExpression (operator : UnaryOperator) (operand : ASTNode)
  | binaryExpression (operator : BinaryOperator) (left right : ASTNode)
  | ternaryExpression (condition consequent alternate : ASTNode)
  | arrayLiteral (elements : List ASTNode)
  | objectLiteral (properties : List (String × ASTNode))
  /-- A part is a text or an expression. -/
  | templateLiteral (parts : List (String ⊕ ASTNode))
  /-- A postfix chain with at least one `?.`. -/
  | chainExpression (expression : ASTNode)

end Clemvion.Expression
