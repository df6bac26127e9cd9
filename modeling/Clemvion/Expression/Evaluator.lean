import Clemvion.Expression.Operators
import Clemvion.Js.Text

/-!
# Evaluator — walking a syntax tree

An evaluation reads the world a number of times (the clock at every limit check, and whatever a
built-in function reads), and may end in an exception.  `ShortCircuitSignal` travels in the same
channel as the errors.  The depth, which the source counts up and down again in a `finally`, is
handed down.
-/

open Clemvion.Js Clemvion.Js.Value

namespace Clemvion.Expression

/-! ## 1. Effects -/

/-- What is thrown through the frames of an evaluation. -/
inductive Abrupt
  | shortCircuitSignal
  | error (e : ExpressionError)

/-- An operation that may fail; the state counts the readings of the world. -/
abbrev Effect := ExceptT ExpressionError (StateM Nat)

abbrev Evaluation := ExceptT Abrupt (StateM Nat)

def raising {α : Type} (x : Effect α) : Evaluation α :=
  ExceptT.mk do
    match ← x.run with
    | .ok a => return .ok a
    | .error e => return .error (.error e)

def ofExcept {α : Type} : Except ExpressionError α → Effect α
  | .ok a => return a
  | .error e => throw e

/-! ## 2. The evaluator and its limits -/

structure EvalOptions where
  strictComparison : Option Bool
  timeout : Option Number
  maxDepth : Option Number

structure Evaluator where
  context : String → Option Value
  strictComparison : Bool
  timeout : Number
  maxDepth : Number

def defaultTimeout : Number := .finite 100
def defaultMaxDepth : Number := .finite 100
def maxStringResult : Nat := 1048576

def newEvaluator (context : String → Option Value) (options : EvalOptions) : Evaluator where
  context
  strictComparison := options.strictComparison.getD false
  timeout := options.timeout.getD defaultTimeout
  maxDepth := options.maxDepth.getD defaultMaxDepth

section

variable (host : Host)

/-- The number of this reading of the world. -/
def readWorld : Effect Nat := do
  let n ← get
  set (n + 1)
  return n

def checkLimits (evaluator : Evaluator) (depth : Nat) : Effect Unit := do
  if evaluator.maxDepth.le (.finite depth) then
    throw ⟨.depthExceeded,
      s!"Expression depth exceeded maximum of {host.numberText evaluator.maxDepth}", none⟩
  let n ← readWorld
  if evaluator.timeout.lt (host.elapsed n) then
    throw ⟨.timeout,
      s!"Expression evaluation exceeded timeout of {host.numberText evaluator.timeout}ms", none⟩

/-! ## 3. The leaves -/

def evaluateIdentifier (evaluator : Evaluator) (name : String) : Except ExpressionError Value :=
  if name.toList.head? = some '$' then
    match evaluator.context name with
    | some v => .ok v
    | none => .error (referenceError s!"Undefined variable: {name}")
  else if (host.getFunction name).isSome then .ok (.str name)
  else
    match evaluator.context name with
    | some v => .ok v
    | none => .error (referenceError s!"Undefined variable: {name}")

/-- The call of a function that the registry knows. -/
def callFunction (name : String) (fn : Nat → List Value → Except Thrown Value)
    (args : List Value) : Effect Value := do
  let n ← readWorld
  match fn n args with
  | .ok v => return v
  | .error (.expressionError e) => throw e
  | .error (.other message) => throw (functionError s!"Error in function {name}: {message}")

def unnamedCall : ExpressionError := functionError "Only named function calls are supported"

def applyUnary (operator : UnaryOperator) (operand : Value) : Except ExpressionError Value :=
  match operator, operand with
  | .not, v => .ok (.bool !toBooleanValue v)
  | .negate, .num n => .ok (.num n.neg)
  | .negate, v => .error (typeError s!"Cannot negate {typeOf v}")

def applyBinary (evaluator : Evaluator) (operator : BinaryOperator) (left right : Value) :
    Except ExpressionError Value :=
  match operator with
  | .plus => .ok (evalPlus host left right)
  | .minus => evalArithmetic host left right host.subtract "-"
  | .times => evalArithmetic host left right host.multiply "*"
  | .divide => evalArithmetic host left right host.divide "/"
  | .modulo => evalArithmetic host left right host.remainder "%"
  | .equal => .ok (.bool (evalEquality host evaluator.strictComparison left right))
  | .notEqual => .ok (.bool !evalEquality host evaluator.strictComparison left right)
  | .less => (evalComparison host left right fun a b => a.lt b).map .bool
  | .greater => (evalComparison host left right fun a b => b.lt a).map .bool
  | .lessOrEqual => (evalComparison host left right fun a b => a.le b).map .bool
  | .greaterOrEqual => (evalComparison host left right fun a b => b.le a).map .bool
  -- the two that decide on the left operand never come here
  | .and | .or => .ok right

/-- Whether `&&` and `||` are done with the left operand. -/
def decidedByLeft (operator : BinaryOperator) (left : Value) : Bool :=
  match operator with
  | .and => !toBooleanValue left
  | .or => toBooleanValue left
  | _ => false

def joinParts (texts : List String) : Except ExpressionError Value :=
  let result := String.join texts
  if utf16Length result > maxStringResult then
    .error (typeError s!"String result exceeds maximum size of {maxStringResult} bytes")
  else .ok (.str result)

/-! ## 4. The walk -/

variable (evaluator : Evaluator)

/-- One frame of `evaluate`: the limits, then the node one level deeper. -/
def entering (depth : Nat) (node : Nat → Evaluation Value) : Evaluation Value := do
  raising (checkLimits host evaluator depth)
  node (depth + 1)

mutual

def evaluateNode : ASTNode → Nat → Evaluation Value
  | .numberLiteral value, _ => return .num value
  | .stringLiteral value, _ => return .str value
  | .booleanLiteral value, _ => return .bool value
  | .nullLiteral, _ => return .null
  | .identifier name, _ => raising (ofExcept (evaluateIdentifier host evaluator name))
  | .memberExpression object property optional, depth => do
    let obj ← entering host evaluator depth (evaluateNode object)
    if isNullish obj then
      if optional then throw .shortCircuitSignal
      else throw (.error (referenceError s!"Cannot read property '{property}' of {nullishText obj}"))
    else raising (ofExcept (memberOf obj property))
  | .indexExpression object index optional, depth => do
    let obj ← entering host evaluator depth (evaluateNode object)
    if isNullish obj then
      if optional then throw .shortCircuitSignal
      else throw (.error (referenceError s!"Cannot index into {nullishText obj}"))
    else
      let item ← entering host evaluator depth (evaluateNode index)
      raising (ofExcept (itemOf host obj item))
  | .callExpression callee args optional, depth =>
    match callee with
    | .identifier name =>
      match host.getFunction name with
      | none =>
        if optional then throw .shortCircuitSignal
        else throw (.error (functionError s!"Unknown function: {name}"))
      | some fn => do
        let values ← evaluateAll args depth
        raising (callFunction name fn values)
    | _ => throw (.error unnamedCall)
  | .chainExpression expression, depth =>
    tryCatch (entering host evaluator depth (evaluateNode expression)) fun e =>
      match e with
      | .shortCircuitSignal => return .null
      | .error e => throw (.error e)
  | .unaryExpression operator operand, depth => do
    let v ← entering host evaluator depth (evaluateNode operand)
    raising (ofExcept (applyUnary operator v))
  | .binaryExpression operator left right, depth => do
    let l ← entering host evaluator depth (evaluateNode left)
    if decidedByLeft operator l then return l
    else
      let r ← entering host evaluator depth (evaluateNode right)
      raising (ofExcept (applyBinary host evaluator operator l r))
  | .ternaryExpression condition consequent alternate, depth => do
    let c ← entering host evaluator depth (evaluateNode condition)
    if toBooleanValue c then entering host evaluator depth (evaluateNode consequent)
    else entering host evaluator depth (evaluateNode alternate)
  | .arrayLiteral elements, depth => do
    let items ← evaluateAll elements depth
    return .arr items
  | .objectLiteral properties, depth => do
    let fields ← evaluateProperties properties [] depth
    return .obj fields
  | .templateLiteral parts, depth => do
    let texts ← evaluateParts parts depth
    raising (ofExcept (joinParts texts))

/-- `nodes.map((n) => this.evaluate(n))`. -/
def evaluateAll : List ASTNode → Nat → Evaluation (List Value)
  | [], _ => return []
  | node :: nodes, depth => do
    let v ← entering host evaluator depth (evaluateNode node)
    let vs ← evaluateAll nodes depth
    return v :: vs

def evaluateProperties : List (String × ASTNode) → List (String × Value) → Nat →
    Evaluation (List (String × Value))
  | [], fields, _ => return fields
  | (key, value) :: properties, fields, depth => do
    let v ← entering host evaluator depth (evaluateNode value)
    evaluateProperties properties (setKey fields key v) depth

def evaluateParts : List (String ⊕ ASTNode) → Nat → Evaluation (List String)
  | [], _ => return []
  | .inl text :: parts, depth => do
    let texts ← evaluateParts parts depth
    return text :: texts
  | .inr node :: parts, depth => do
    let v ← entering host evaluator depth (evaluateNode node)
    let texts ← evaluateParts parts depth
    return toStringValue host v :: texts

end

/-- `evaluator.evaluate(node)` at the root. -/
def evaluate (node : ASTNode) : Evaluation Value := entering host evaluator 0 (evaluateNode host evaluator node)

end

end Clemvion.Expression
