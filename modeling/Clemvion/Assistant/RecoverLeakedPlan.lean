import Clemvion.Js.JsonText
import Clemvion.Library.TakeThrough

/-!
# RecoverLeakedPlan — a plan in the text of the assistant

The model is to call `propose_plan` and sometimes writes the call's JSON into its text instead.
The text is searched for a block in braces that parses to an object of the call's shape.
-/

open Clemvion.Js Clemvion.Library

namespace Clemvion.Assistant

abbrev Text := List Char

/-! ## 1. The shape of a plan -/

/-- `Record<string, unknown>` -/
abbrev Record := List (String × Value)

def PLAN_STEP_ACTIONS : List String :=
  ["add_node", "update_node", "remove_node", "add_edge", "remove_edge", "note"]

def isString : Value → Bool
  | .str _ => true
  | _ => false

def isNonEmptyString : Value → Bool
  | .str s => s.length ≠ 0
  | _ => false

/-- The checks on one step. -/
def isPlanStepShape (step : Value) : Bool :=
  match step with
  | .obj s =>
    isNonEmptyString ((Value.obj s).field "id") &&
      (match (Value.obj s).field "action" with
        | .str action => PLAN_STEP_ACTIONS.contains action
        | _ => false) &&
      isString ((Value.obj s).field "description")
  | _ => false

def isProposePlanShape (o : Record) : Bool :=
  isNonEmptyString ((Value.obj o).field "title") &&
    (match (Value.obj o).field "steps" with
      | .arr steps => steps.length ≠ 0 && steps.all isPlanStepShape
      | _ => false) &&
    (match (Value.obj o).field "summary" with
      | .undefined => true
      | summary => isString summary) &&
    (match (Value.obj o).field "openQuestions" with
      | .undefined => true
      | .arr questions => questions.all isString
      | _ => false)

/-! ## 2. The search -/

structure BraceScan where
  depth : Int := 0
  inString : Bool := false
  escape : Bool := false

/-- One turn of the loop; `none` at the brace that is looked for. -/
def scanChar (scan : BraceScan) (c : Char) : Option BraceScan :=
  if scan.escape then some { scan with escape := false }
  else if scan.inString then
    if c = '\\' then some { scan with escape := true }
    else if c = '"' then some { scan with inString := false }
    else some scan
  else if c = '"' then some { scan with inString := true }
  else if c = '{' then some { scan with depth := scan.depth + 1 }
  else if c = '}' then
    if scan.depth - 1 = 0 then none else some { scan with depth := scan.depth - 1 }
  else some scan

/-- `s.slice(start, end + 1)` for the brace at `end`, and what follows it. -/
def findMatchingBrace (s : Text) : Option (Text × Text) := takeThrough scanChar {} s

def tryParseObject (s : Text) : Option Record :=
  match JsonText.parse (String.ofList s) with
  | some (.obj r) => some r
  | _ => none

structure RecoveredPlan where
  args : Record
  matched : String
  deriving DecidableEq

def planOf (candidate : Text) : Option RecoveredPlan :=
  match tryParseObject candidate with
  | some parsed =>
    if isProposePlanShape parsed then some { args := parsed, matched := String.ofList candidate }
    else none
  | none => none

/-- The loop, on the rest of the text. -/
def scanForPlan (text : Text) : Option RecoveredPlan :=
  match text with
  | [] => none
  | c :: rest =>
    if c ≠ '{' then scanForPlan rest
    else
      match _h : findMatchingBrace (c :: rest) with
      | none => none
      | some (candidate, after) =>
        match planOf candidate with
        | some found => some found
        | none => scanForPlan after
  termination_by text.length
  decreasing_by
    · exact Nat.lt_succ_self _
    · obtain ⟨htext, hne⟩ := takeThrough_parts _h
      have hlength := congrArg List.length htext
      have hpos := List.length_pos_iff.mpr hne
      rw [List.length_append] at hlength
      omega

/-- `text.includes(key)` for both keys that every plan has. -/
def hasSignature (text : Text) : Prop :=
  "\"title\"".toList <:+: text ∧ "\"steps\"".toList <:+: text

instance (text : Text) : Decidable (hasSignature text) := inferInstanceAs (Decidable (_ ∧ _))

def recoverLeakedPlan (text : String) : Option RecoveredPlan :=
  if text = "" then none
  else if ¬hasSignature text.toList then none
  else scanForPlan text.toList

end Clemvion.Assistant
