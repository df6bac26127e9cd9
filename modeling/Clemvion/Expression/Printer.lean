import Clemvion.Expression.Tokenizer
import Mathlib.Data.List.Flatten

/-!
# Printer — a syntax tree as the text of a template

The inverse of tokenizer and parser on the trees that an expression without `?.` can have.  A
tree is printed as lexemes, the tokens without their places, with parentheses where the precedence
ladder asks for them; the lexemes are spelled with a space before each.
-/

open Clemvion.Js Clemvion.Library

namespace Clemvion.Expression

/-! ## 1. Lexemes -/

/-- A token without its place. -/
structure Lexeme where
  type : TokenType
  value : String
  deriving DecidableEq, Repr

def Token.lexeme (token : Token) : Lexeme := ⟨token.type, token.value⟩

/-- The one spelling of a type of tokens that has only one. -/
def TokenType.spelling : TokenType → Option String
  | .null => some "null"
  | .plus => some "+" | .minus => some "-" | .star => some "*" | .slash => some "/"
  | .percent => some "%" | .bang => some "!" | .eq => some "==" | .neq => some "!="
  | .lt => some "<" | .gt => some ">" | .lte => some "<=" | .gte => some ">="
  | .and => some "&&" | .or => some "||"
  | .question => some "?" | .questionDot => some "?." | .colon => some ":"
  | .dot => some "." | .comma => some "," | .lParen => some "(" | .rParen => some ")"
  | .lBracket => some "[" | .rBracket => some "]"
  | .lBrace => some "\x7b" | .rBrace => some "\x7d"
  | .exprStart => some "\x7b\x7b" | .exprEnd => some "\x7d\x7d"
  | .number | .string | .boolean | .identifier | .text | .eof => none

def fixed (type : TokenType) : Lexeme := ⟨type, type.spelling.getD ""⟩

inductive Quote
  | single | double
  deriving DecidableEq

def Quote.character : Quote → Char
  | .single => '\''
  | .double => '"'

/-- What the printer may choose: the quotes, and keys without quotes where they are identifiers. -/
structure PrintStyle where
  quote : Quote
  bareKeys : Bool

/-- The inverse of the decoding in `readString`. -/
def escapeCharacter (quote c : Char) : List Char :=
  if c = '\\' then ['\\', '\\']
  else if c = quote then ['\\', quote]
  else if c = '\n' then ['\\', 'n']
  else if c = '\t' then ['\\', 't']
  else if c = '\r' then ['\\', 'r']
  else [c]

def Lexeme.spelled (quote : Quote) (lexeme : Lexeme) : List Char :=
  if lexeme.type = .string then
    quote.character :: lexeme.value.toList.flatMap (escapeCharacter quote.character) ++
      [quote.character]
  else lexeme.value.toList

/-! ## 2. Trees that can be printed -/

/-- An optional `$`, a letter or underscore, then letters, underscores and digits; no keyword. -/
def isIdentifierName (name : String) : Bool :=
  let characters :=
    match name.toList with
    | '$' :: rest => rest
    | characters => characters
  (match characters with
    | c :: rest => isIdentStart c && rest.all isIdentPart
    | [] => false) &&
  name ≠ "true" && name ≠ "false" && name ≠ "null"

mutual

/-- No template, no `?.`, and names and numbers that have a spelling. -/
def Printable : ASTNode → Prop
  | .numberLiteral value => ∃ n : Nat, value = .finite n
  | .stringLiteral _ | .booleanLiteral _ | .nullLiteral => True
  | .identifier name => isIdentifierName name = true
  | .memberExpression object property optional =>
    Printable object ∧ isIdentifierName property = true ∧ optional = false
  | .indexExpression object index optional =>
    Printable object ∧ Printable index ∧ optional = false
  | .callExpression callee args optional =>
    Printable callee ∧ ArePrintable args ∧ optional = false
  | .unaryExpression _ operand => Printable operand
  | .binaryExpression _ left right => Printable left ∧ Printable right
  | .ternaryExpression condition consequent alternate =>
    Printable condition ∧ Printable consequent ∧ Printable alternate
  | .arrayLiteral elements => ArePrintable elements
  | .objectLiteral properties => PropertiesArePrintable properties
  | .templateLiteral _ | .chainExpression _ => False

def ArePrintable : List ASTNode → Prop
  | [] => True
  | node :: nodes => Printable node ∧ ArePrintable nodes

def PropertiesArePrintable : List (String × ASTNode) → Prop
  | [] => True
  | (_, value) :: properties => Printable value ∧ PropertiesArePrintable properties

end

/-! ## 3. Printing -/

def BinaryOperator.token : BinaryOperator → TokenType
  | .plus => .plus
  | .minus => .minus
  | .times => .star
  | .divide => .slash
  | .modulo => .percent
  | .equal => .eq
  | .notEqual => .neq
  | .less => .lt
  | .greater => .gt
  | .lessOrEqual => .lte
  | .greaterOrEqual => .gte
  | .and => .and
  | .or => .or

def UnaryOperator.token : UnaryOperator → TokenType
  | .not => .bang
  | .negate => .minus

/-- The rung of the precedence ladder, from the ternary at 0 to the postfix chains at 8. -/
def BinaryOperator.level : BinaryOperator → Nat
  | .or => 1
  | .and => 2
  | .equal | .notEqual => 3
  | .less | .greater | .lessOrEqual | .greaterOrEqual => 4
  | .plus | .minus => 5
  | .times | .divide | .modulo => 6

def ASTNode.level : ASTNode → Nat
  | .ternaryExpression _ _ _ => 0
  | .binaryExpression operator _ _ => operator.level
  | .unaryExpression _ _ => 7
  | _ => 8

/-- An operand where only a tree of at least this level may stand without parentheses. -/
def atLevel (level : Nat) (node : ASTNode) (printed : List Lexeme) : List Lexeme :=
  if node.level < level then fixed .lParen :: printed ++ [fixed .rParen] else printed

def commaSeparated : List (List Lexeme) → List Lexeme
  | [] => []
  | first :: rest => first ++ rest.flatMap (fixed .comma :: ·)

def numeral : Number → String
  | .finite q => String.ofList (Nat.toDigits 10 q.num.toNat)
  | _ => ""

def printKey (bareKeys : Bool) (key : String) : Lexeme :=
  if bareKeys && isIdentifierName key then ⟨.identifier, key⟩ else ⟨.string, key⟩

mutual

def print (bareKeys : Bool) : ASTNode → List Lexeme
  | .numberLiteral value => [⟨.number, numeral value⟩]
  | .stringLiteral value => [⟨.string, value⟩]
  | .booleanLiteral value => [⟨.boolean, if value then "true" else "false"⟩]
  | .nullLiteral => [fixed .null]
  | .identifier name => [⟨.identifier, name⟩]
  | .memberExpression object property _ =>
    atLevel 8 object (print bareKeys object) ++ [fixed .dot, ⟨.identifier, property⟩]
  | .indexExpression object index _ =>
    atLevel 8 object (print bareKeys object) ++
      fixed .lBracket :: (print bareKeys index ++ [fixed .rBracket])
  | .callExpression callee args _ =>
    atLevel 8 callee (print bareKeys callee) ++
      fixed .lParen :: (commaSeparated (printAll bareKeys args) ++ [fixed .rParen])
  | .unaryExpression operator operand =>
    fixed operator.token :: atLevel 7 operand (print bareKeys operand)
  | .binaryExpression operator left right =>
    atLevel operator.level left (print bareKeys left) ++
      fixed operator.token :: atLevel (operator.level + 1) right (print bareKeys right)
  | .ternaryExpression condition consequent alternate =>
    atLevel 1 condition (print bareKeys condition) ++ fixed .question ::
      (print bareKeys consequent ++ fixed .colon :: print bareKeys alternate)
  | .arrayLiteral elements =>
    fixed .lBracket :: (commaSeparated (printAll bareKeys elements) ++ [fixed .rBracket])
  | .objectLiteral properties =>
    fixed .lBrace :: (commaSeparated (printProperties bareKeys properties) ++ [fixed .rBrace])
  | .templateLiteral _ | .chainExpression _ => []

def printAll (bareKeys : Bool) : List ASTNode → List (List Lexeme)
  | [] => []
  | node :: nodes => print bareKeys node :: printAll bareKeys nodes

def printProperties (bareKeys : Bool) : List (String × ASTNode) → List (List Lexeme)
  | [] => []
  | (key, value) :: properties =>
    (printKey bareKeys key :: fixed .colon :: print bareKeys value) ::
      printProperties bareKeys properties

end

/-- Every lexeme with a space before it. -/
def spell (quote : Quote) (lexemes : List Lexeme) : List Char :=
  lexemes.flatMap fun lexeme => ' ' :: lexeme.spelled quote

/-- The template of one expression: `{{ `, the tokens separated by spaces, ` }}`. -/
def sourceText (style : PrintStyle) (node : ASTNode) : String :=
  String.ofList ('{' :: '{' :: (spell style.quote (print style.bareKeys node) ++ [' ', '}', '}']))

end Clemvion.Expression
