import Clemvion.Library.Trimming
import Clemvion.NodeSummary.Evaluator

/-!
# RuleGrammar — what a warning rule says

A rule is an `||` of `&&`s of atoms.  Its syntax has a meaning of its own, and texts: every way of
writing it down with spaces around the operators.  Where two operators meet, the longer one and
the one further left is read.
-/

open Clemvion.Js Clemvion.Library

namespace Clemvion.NodeSummary

/-! ## 1. Syntax and meaning -/

inductive Operand
  | path (segments : List Text)
  | length (segments : List Text)
  | number (digits : Text)
  | bool (b : Bool)
  | null

inductive Atom
  | not (atom : Atom)
  | compared (operand : Operand) (op : ComparisonOperator) (literal : Text)
  | bare (operand : Operand)

/-- The branches of an `||`, each with the atoms of an `&&`. -/
abbrev Rule := List (List Atom)

section Meaning

variable (conv : Conversions) (config : Value)

def Operand.value : Operand → Value
  | .path segments => getPathParts config segments
  | .length segments => (lengthOf (getPathParts config segments)).getD (.num (.finite 0))
  | .number digits => .num (conv.number (String.ofList digits))
  | .bool b => .bool b
  | .null => .null

def Atom.holds : Atom → Bool
  | .not atom => !atom.holds
  | .compared operand op literal => compare conv op (operand.value conv config) literal
  | .bare operand => isTruthy (operand.value conv config)

def Rule.holds (rule : Rule) : Bool :=
  rule.any fun branch => branch.all fun atom => atom.holds conv config

end Meaning

/-! ## 2. Texts -/

def Blank (text : Text) : Prop := ∀ c ∈ text, isJsSpace c = true

/-- A character of a path: neither a space nor a sign of the grammar. -/
def isPathChar (c : Char) : Bool :=
  !isJsSpace c && c ∉ ['.', '(', ')', '!', '=', '<', '>', '|', '&']

def pathText (segments : List Text) : Text := ['.'].intercalate segments

/-- The segments of a path; they do not contain a dot, and there is something written. -/
def IsPath (segments : List Text) : Prop :=
  (∀ segment ∈ segments, ∀ c ∈ segment, isPathChar c = true) ∧ pathText segments ≠ []

def KEYWORDS : List Text := ["true".toList, "false".toList, "null".toList]

inductive OperandText : Operand → Text → Prop
  /-- A number and a keyword are read as such and not as paths. -/
  | path {segments : List Text} : IsPath segments → isNumeric (pathText segments) = false →
      pathText segments ∉ KEYWORDS → OperandText (.path segments) (pathText segments)
  | length {segments : List Text} {before after : Text} : IsPath segments → Blank before →
      Blank after → OperandText (.length segments)
        ("length(".toList ++ before ++ pathText segments ++ after ++ [')'])
  | number {digits : Text} : isNumeric digits = true → OperandText (.number digits) digits
  | bool (b : Bool) : OperandText (.bool b) (if b then "true".toList else "false".toList)
  | null : OperandText .null "null".toList

/-- A literal text, without the spaces around it; it may be empty. -/
structure IsLiteral (literal : Text) : Prop where
  trimmed : literal = [] ∨ Solid isJsSpace literal
  parens : '(' ∉ literal ∧ ')' ∉ literal
  or : ¬ "||".toList <:+: literal
  and : ¬ "&&".toList <:+: literal

/-- `>` and `<` directly before `=` are read as `>=` and `<=`. -/
def Apart (op : ComparisonOperator) (rest : Text) : Prop :=
  (op = .gt ∨ op = .lt) → ∀ more, rest ≠ '=' :: more

inductive AtomText : Atom → Text → Prop
  | not {atom : Atom} {space text : Text} : Blank space → AtomText atom text →
      AtomText (.not atom) ('!' :: (space ++ text))
  | compared {operand : Operand} {op : ComparisonOperator} {literal text before after : Text} :
      OperandText operand text → Blank before → Blank after → (literal = [] → after = []) →
      IsLiteral literal → Apart op (after ++ literal) →
      AtomText (.compared operand op literal) (text ++ before ++ op.text ++ after ++ literal)
  | bare {operand : Operand} {text : Text} : OperandText operand text → AtomText (.bare operand) text

/-- The text does not end in the character, unless a space follows. -/
def Parted (c : Char) (text space : Text) : Prop := space = [] → ∀ front, text ≠ front ++ [c]

inductive BranchText : List Atom → Text → Prop
  | atom {atom : Atom} {text : Text} : AtomText atom text → BranchText [atom] text
  | and {atom : Atom} {atoms : List Atom} {text before after more : Text} : AtomText atom text →
      Blank before → Blank after → Parted '&' text before → BranchText atoms more →
      BranchText (atom :: atoms) (text ++ before ++ "&&".toList ++ (after ++ more))

inductive RuleText : Rule → Text → Prop
  | branch {branch : List Atom} {text : Text} : BranchText branch text → RuleText [branch] text
  | or {branch : List Atom} {branches : Rule} {text before after more : Text} :
      BranchText branch text → Blank before → Blank after → Parted '|' text before →
      RuleText branches more →
      RuleText (branch :: branches) (text ++ before ++ "||".toList ++ (after ++ more))

/-- A text of the rule, with spaces around it. -/
def IsTextOf (rule : Rule) (expr : String) : Prop :=
  ∃ before text after, Blank before ∧ Blank after ∧ RuleText rule text ∧
    expr.toList = before ++ text ++ after

/-! ## 3. Where a text begins and ends -/

/-- The characters of a path are path characters and dots. -/
theorem mem_pathText {segments : List Text}
    (h : ∀ segment ∈ segments, ∀ c ∈ segment, isPathChar c = true) {c : Char}
    (hc : c ∈ pathText segments) : isPathChar c = true ∨ c = '.' := by
  unfold pathText at hc
  induction segments with
  | nil => simp at hc
  | cons segment segments ih =>
    cases segments with
    | nil =>
      rw [List.intercalate_singleton] at hc
      exact .inl (h segment (List.mem_cons_self ..) c hc)
    | cons next segments =>
      rw [List.intercalate_cons_cons, List.mem_append, List.mem_append] at hc
      rcases hc with (hc | hc) | hc
      · exact .inl (h segment (List.mem_cons_self ..) c hc)
      · exact .inr (List.mem_singleton.mp hc)
      · exact ih (fun s hs => h s (List.mem_cons_of_mem _ hs)) hc

/-- A character that stands in an operand outside of the brackets. -/
def isOperandChar (c : Char) : Bool :=
  !isJsSpace c && c ∉ ['(', ')', '!', '=', '<', '>', '|', '&']

theorem isOperandChar_of_isPathChar {c : Char} (h : isPathChar c = true) :
    isOperandChar c = true := by
  unfold isPathChar at h
  unfold isOperandChar
  simp only [Bool.and_eq_true, decide_eq_true_eq, List.mem_cons, not_or] at h ⊢
  exact ⟨h.1, h.2.2⟩

theorem isOperandChar_of_isDigit {c : Char} (h : c.isDigit = true) : isOperandChar c = true := by
  have hrange : 48 ≤ c.toNat ∧ c.toNat ≤ 57 := by
    have hval := h
    simp only [Char.isDigit, Bool.and_eq_true, decide_eq_true_eq] at hval
    exact hval
  have hother : ∀ d : Char, d.toNat < 48 ∨ 57 < d.toNat → c ≠ d := by
    rintro d hd rfl
    omega
  unfold isOperandChar
  simp only [isJsSpace_of_isDigit h, Bool.not_false, Bool.true_and, decide_eq_true_eq, List.mem_cons,
    List.not_mem_nil, or_false, not_or]
  refine ⟨?_, ?_, ?_, ?_, ?_, ?_, ?_, ?_⟩
  all_goals exact hother _ (by decide)

theorem isOperandChar_of_mem_pathText {segments : List Text} (h : IsPath segments) :
    ∀ c ∈ pathText segments, isOperandChar c = true := by
  intro c hc
  rcases mem_pathText h.1 hc with hpath | rfl
  · exact isOperandChar_of_isPathChar hpath
  · decide

theorem parens_notMem {text : Text} (h : ∀ c ∈ text, isOperandChar c = true ∨ isJsSpace c = true) :
    '(' ∉ text ∧ ')' ∉ text := by
  have hparens : ∀ c : Char, isOperandChar c = false → isJsSpace c = false → c ∉ text := by
    intro c hoperand hspace hc
    rcases h c hc with htrue | htrue
    · rw [hoperand] at htrue
      cases htrue
    · rw [hspace] at htrue
      cases htrue
  exact ⟨hparens '(' (by decide) (by decide), hparens ')' (by decide) (by decide)⟩

/-- A plain operand, or the call of `length`. -/
theorem OperandText.shape {operand : Operand} {text : Text} (h : OperandText operand text) :
    (text ≠ [] ∧ ∀ c ∈ text, isOperandChar c = true) ∨
      ∃ inner, text = "length(".toList ++ inner ++ [')'] ∧ '(' ∉ inner ∧ ')' ∉ inner := by
  cases h with
  | path hpath => exact .inl ⟨hpath.2, isOperandChar_of_mem_pathText hpath⟩
  | @length segments before after hpath hbefore hafter =>
    refine .inr ⟨before ++ pathText segments ++ after, by simp, ?_⟩
    refine parens_notMem fun c hc => ?_
    rcases List.mem_append.mp hc with hc | hc
    · rcases List.mem_append.mp hc with hc | hc
      · exact .inr (hbefore c hc)
      · exact .inl (isOperandChar_of_mem_pathText hpath c hc)
    · exact .inr (hafter c hc)
  | number hdigits =>
    obtain ⟨hne, hchars⟩ := mem_of_isNumeric hdigits
    refine .inl ⟨hne, fun c hc => ?_⟩
    rcases hchars c hc with rfl | rfl | hdigit
    · decide
    · decide
    · exact isOperandChar_of_isDigit hdigit
  | bool b => cases b <;> exact .inl ⟨by decide, List.all_eq_true.mp (by decide)⟩
  | null => exact .inl ⟨by decide, List.all_eq_true.mp (by decide)⟩

theorem isJsSpace_of_isOperandChar {c : Char} (h : isOperandChar c = true) :
    isJsSpace c = false := by
  unfold isOperandChar at h
  rw [Bool.and_eq_true] at h
  simpa using h.1

theorem OperandText.solid {operand : Operand} {text : Text} (h : OperandText operand text) :
    Solid isJsSpace text ∧ ∀ rest, text ≠ '!' :: rest := by
  rcases h.shape with ⟨hne, hchars⟩ | ⟨inner, rfl, -⟩
  · refine ⟨Solid.of_forall hne fun c hc => isJsSpace_of_isOperandChar (hchars c hc), ?_⟩
    rintro rest rfl
    exact absurd (hchars '!' (List.mem_cons_self ..)) (by decide)
  · refine ⟨⟨⟨'l', "ength(".toList ++ inner ++ [')'], rfl, by decide⟩,
      ⟨"length(".toList ++ inner, ')', rfl, by decide⟩⟩, ?_⟩
    rintro rest heq
    cases heq

theorem solid_operator (op : ComparisonOperator) : Solid isJsSpace op.text := by
  cases op <;> exact Solid.of_all (by decide) (by decide)

theorem AtomText.solid {atom : Atom} {text : Text} (h : AtomText atom text) :
    Solid isJsSpace text := by
  induction h with
  | not hspace _ ih =>
    have hsign : Solid isJsSpace ['!'] := Solid.of_all (by decide) (by decide)
    exact hsign.append ih _
  | @compared operand op literal text before after hoperand hbefore hafter hnone hliteral =>
    have hleft := hoperand.solid.1.append (solid_operator op) before
    rcases hliteral.trimmed with rfl | hsolid
    · rw [hnone rfl, List.append_nil, List.append_nil]
      exact hleft
    · exact hleft.append hsolid after
  | bare hoperand => exact hoperand.solid.1

theorem BranchText.solid {atoms : List Atom} {text : Text} (h : BranchText atoms text) :
    Solid isJsSpace text := by
  induction h with
  | atom hatom => exact hatom.solid
  | @and atom atoms text before after more hatom hbefore hafter hparted hmore ih =>
    have hsign : Solid isJsSpace "&&".toList := Solid.of_all (by decide) (by decide)
    have hall := (hatom.solid.append hsign before).append ih after
    rwa [List.append_assoc _ after more] at hall

theorem RuleText.solid {rule : Rule} {text : Text} (h : RuleText rule text) :
    Solid isJsSpace text := by
  induction h with
  | branch hbranch => exact hbranch.solid
  | @or branch branches text before after more hbranch hbefore hafter hparted hmore ih =>
    have hsign : Solid isJsSpace "||".toList := Solid.of_all (by decide) (by decide)
    have hall := (hbranch.solid.append hsign before).append ih after
    rwa [List.append_assoc _ after more] at hall

end Clemvion.NodeSummary
