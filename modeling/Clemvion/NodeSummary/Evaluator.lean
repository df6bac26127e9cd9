import Clemvion.Js.JsonText
import Clemvion.Js.Trimming
import Mathlib.Data.List.DropRight

/-!
# Evaluator — the rules that warn about a node

A rule is a small expression over the configuration of a node.  There is no parser: the text is
cut at `||` and `&&`, and what is left is searched for a comparison.  The conversions between
numbers and texts are those of the language.
-/

open Clemvion.Js

namespace Clemvion.NodeSummary

abbrev Text := List Char

structure Conversions where
  /-- `Number(text)` -/
  number : String → Number
  /-- `String(n)` -/
  text : Number → String

/-! ## 1. Values -/

def lengthOf : Value → Option Value
  | .arr items => some (.num (.finite items.length))
  | .str s => some (.num (.finite (utf16Length s)))
  | _ => none

def getPathParts : Value → List Text → Value
  | cursor, [] => cursor
  | cursor, part :: parts =>
    if cursor = .undefined ∨ cursor = .null then .undefined
    -- a length ends the path, whatever follows
    else if part = "length".toList then (lengthOf cursor).getD .undefined
    else if cursor.isObject then
      getPathParts ((cursor.ownFields.lookup (String.ofList part)).getD .undefined) parts
    else .undefined

def getPath (config : Value) (path : Text) : Value := getPathParts config (path.splitOn '.')

variable (conv : Conversions)

def stringify : Value → String
  | .undefined | .null => ""
  | .str s => s
  | .num n => conv.text n
  | .bool b => if b then "true" else "false"
  | v => JsonText.stringify v

/-- `/^length\(\s*([^)]+?)\s*\)$/` -/
def callMatch (trimmed : Text) : Option Text :=
  if "length(".toList <+: trimmed then
    let rest := trimmed.drop "length(".toList.length
    if rest.getLast? = some ')' ∧ ')' ∉ rest.dropLast then
      match rest.dropLast.dropWhile isJsSpace with
      -- the path needs one character, if only a space
      | [] => rest.dropLast.getLast?.map fun c => [c]
      | path => some (path.rdropWhile isJsSpace)
    else none
  else none

/-- `/^-?\d+(\.\d+)?$/` -/
def isNumeric (trimmed : Text) : Bool :=
  let body := match trimmed with
    | '-' :: body => body
    | body => body
  body.takeWhile Char.isDigit ≠ [] &&
    match body.dropWhile Char.isDigit with
    | [] => true
    | '.' :: fraction => fraction ≠ [] && fraction.all Char.isDigit
    | _ => false

/-- A number is written with digits, a point and a sign. -/
theorem mem_of_isNumeric {digits : Text} (h : isNumeric digits = true) :
    digits ≠ [] ∧ ∀ c ∈ digits, c = '-' ∨ c = '.' ∨ c.isDigit = true := by
  have hbody : ∀ body : Text, (body.takeWhile Char.isDigit ≠ [] &&
      match body.dropWhile Char.isDigit with
      | [] => true
      | '.' :: fraction => fraction ≠ [] && fraction.all Char.isDigit
      | _ => false) = true →
      body ≠ [] ∧ ∀ c ∈ body, c = '.' ∨ c.isDigit = true := by
    intro body hbody
    rw [Bool.and_eq_true, decide_eq_true_eq] at hbody
    obtain ⟨hwhole, hrest⟩ := hbody
    refine ⟨fun hnil => hwhole (by rw [hnil]; rfl), fun c hc => ?_⟩
    rw [← List.takeWhile_append_dropWhile (p := Char.isDigit) (l := body)] at hc
    rcases List.mem_append.mp hc with hc | hc
    · exact .inr (List.mem_takeWhile_imp hc)
    · split at hrest
      case h_1 heq => rw [heq] at hc; cases hc
      case h_2 fraction heq =>
        rw [heq] at hc
        rw [Bool.and_eq_true] at hrest
        rcases List.mem_cons.mp hc with rfl | hc
        · exact .inl rfl
        · exact .inr (List.all_eq_true.mp hrest.2 c hc)
      case h_3 => cases hrest
  unfold isNumeric at h
  dsimp only at h
  split at h
  case h_1 body =>
    obtain ⟨-, hchars⟩ := hbody body h
    refine ⟨List.cons_ne_nil _ _, fun c hc => ?_⟩
    rcases List.mem_cons.mp hc with rfl | hc
    · exact .inl rfl
    · exact .inr (hchars c hc)
  case h_2 body hsign =>
    obtain ⟨hne, hchars⟩ := hbody digits h
    exact ⟨hne, fun c hc => .inr (hchars c hc)⟩

def resolveOperand (operand : Text) (config : Value) : Value :=
  let trimmed := trimText operand
  match callMatch trimmed with
  | some path => (lengthOf (getPath config path)).getD (.num (.finite 0))
  | none =>
    if isNumeric trimmed then .num (conv.number (String.ofList trimmed))
    else if trimmed = "true".toList then .bool true
    else if trimmed = "false".toList then .bool false
    else if trimmed = "null".toList then .null
    else getPath config trimmed

def isFinite : Number → Bool
  | .finite _ => true
  | _ => false

def toNumber : Value → Number
  | .num n => n
  | .str s =>
    if trim s ≠ "" then
      let n := conv.number s
      if isFinite n then n else .nan
    else .nan
  | _ => .nan

def isTruthy : Value → Bool
  | .undefined | .null => false
  | .str s => s ≠ ""
  | .arr items => items ≠ []
  | .num n => n ≠ .finite 0
  | .bool b => b
  | .obj _ => true

/-! ## 2. Comparisons -/

inductive ComparisonOperator
  | eq | ne | ge | le | gt | lt
  deriving DecidableEq, Repr

def ComparisonOperator.text : ComparisonOperator → Text
  | .eq => ['=', '=']
  | .ne => ['!', '=']
  | .ge => ['>', '=']
  | .le => ['<', '=']
  | .gt => ['>']
  | .lt => ['<']

def COMPARISON_OPERATORS : List ComparisonOperator := [.eq, .ne, .ge, .le, .gt, .lt]

/-- The operator that the text begins with. -/
def operatorAt (text : Text) : Option ComparisonOperator :=
  COMPARISON_OPERATORS.find? fun op => op.text <+: text

def findFrom : Text → Int → Nat → Option (ComparisonOperator × Nat)
  | [], _, _ => none
  | ch :: rest, depth, i =>
    if ch = '(' then findFrom rest (depth + 1) (i + 1)
    else if ch = ')' then findFrom rest (depth - 1) (i + 1)
    else if depth = 0 then
      match operatorAt (ch :: rest) with
      | some op => some (op, i)
      | none => findFrom rest depth (i + 1)
    else findFrom rest depth (i + 1)

def findComparison (expr : Text) : Option (ComparisonOperator × Nat) := findFrom expr 0 0

/-- The `switch` on the operator. -/
def compare (op : ComparisonOperator) (lhs : Value) (rawRhs : Text) : Bool :=
  let a := toNumber conv lhs
  let b := conv.number (String.ofList rawRhs)
  match op with
  | .eq => stringify conv lhs = String.ofList rawRhs
  | .ne => stringify conv lhs ≠ String.ofList rawRhs
  | .gt => isFinite a && isFinite b && b.lt a
  | .lt => isFinite a && isFinite b && a.lt b
  | .ge => isFinite a && isFinite b && b.le a
  | .le => isFinite a && isFinite b && a.le b

/-! ## 3. Expressions -/

variable (config : Value)

def evaluateAtom (expr : Text) : Bool :=
  let trimmed := trimText expr
  if _h : trimmed = [] then false
  else if ['!'] <+: trimmed then !evaluateAtom (trimmed.drop 1)
  else
    match findComparison trimmed with
    | some (op, index) =>
      let rawLhs := trimText (trimmed.take index)
      let rawRhs := trimText (trimmed.drop (index + op.text.length))
      if rawLhs = [] then false else compare conv op (resolveOperand conv rawLhs config) rawRhs
    | none => isTruthy (resolveOperand conv trimmed config)
  termination_by expr.length
  decreasing_by
    have hle := length_trimText_le expr
    have hpos : 0 < (trimText expr).length := List.length_pos_of_ne_nil _h
    show ((trimText expr).drop 1).length < expr.length
    rw [List.length_drop]
    omega

/-- `skip` counts the characters of a separator that was just cut out. -/
def splitFrom (sep : Text) : Text → Int → Text → Nat → List Text
  | [], _, piece, _ => [piece]
  | _ :: rest, depth, piece, skip + 1 => splitFrom sep rest depth piece skip
  | ch :: rest, depth, piece, 0 =>
    if ch = '(' then splitFrom sep rest (depth + 1) (piece ++ [ch]) 0
    else if ch = ')' then splitFrom sep rest (depth - 1) (piece ++ [ch]) 0
    else if depth = 0 ∧ sep <+: ch :: rest then
      piece :: splitFrom sep rest depth [] (sep.length - 1)
    else splitFrom sep rest depth (piece ++ [ch]) 0

def splitTopLevel (expr sep : Text) : List Text := splitFrom sep expr 0 [] 0

def evaluateAnd (orBranch : Text) : Bool :=
  (splitTopLevel orBranch "&&".toList).all fun atom => evaluateAtom conv config atom

def evaluateOr (trimmed : Text) : Bool :=
  (splitTopLevel trimmed "||".toList).any fun orBranch => evaluateAnd conv config orBranch

def evaluateWhen (expr : String) : Bool :=
  let trimmed := trimText expr.toList
  if trimmed = [] then false else evaluateOr conv config trimmed

end Clemvion.NodeSummary
