import Clemvion.Expression.ParserProgress

/-!
# ChainShape — where the parser leaves optional links

`parsePostfix` puts a frame around a chain in which it read a `?.`.  So an optional link only ever
stands on the spine of a chain, with nothing but links between it and the frame; this is the
invariant of every rule of the grammar.
-/

open Clemvion.Library

namespace Clemvion.Expression

/-! ## 1. Optional links stand on the spine of a chain -/

mutual

/-- Every optional link stands on the spine of a chain: `inChain` says that the node does. -/
def LinksInChains (inChain : Bool) : ASTNode → Prop
  | .numberLiteral _ | .stringLiteral _ | .booleanLiteral _ | .nullLiteral | .identifier _ => True
  | .memberExpression object _ optional =>
    (optional = true → inChain = true) ∧ LinksInChains inChain object
  | .indexExpression object index optional =>
    (optional = true → inChain = true) ∧ LinksInChains inChain object ∧ LinksInChains false index
  | .callExpression callee args optional =>
    (optional = true → inChain = true) ∧ LinksInChains inChain callee ∧ AllInChains args
  | .chainExpression expression => LinksInChains true expression
  | .unaryExpression _ operand => LinksInChains false operand
  | .binaryExpression _ left right => LinksInChains false left ∧ LinksInChains false right
  | .ternaryExpression condition consequent alternate =>
    LinksInChains false condition ∧ LinksInChains false consequent ∧ LinksInChains false alternate
  | .arrayLiteral elements => AllInChains elements
  | .objectLiteral properties => PropertiesInChains properties
  | .templateLiteral parts => PartsInChains parts

def AllInChains : List ASTNode → Prop
  | [] => True
  | node :: nodes => LinksInChains false node ∧ AllInChains nodes

def PropertiesInChains : List (String × ASTNode) → Prop
  | [] => True
  | (_, value) :: properties => LinksInChains false value ∧ PropertiesInChains properties

def PartsInChains : List (String ⊕ ASTNode) → Prop
  | [] => True
  | .inl _ :: parts => PartsInChains parts
  | .inr node :: parts => LinksInChains false node ∧ PartsInChains parts

end

theorem allInChains_iff {nodes : List ASTNode} :
    AllInChains nodes ↔ ∀ node ∈ nodes, LinksInChains false node := by
  induction nodes with
  | nil => simp [AllInChains]
  | cons node nodes ih => simp [AllInChains, ih]

theorem propertiesInChains_iff {properties : List (String × ASTNode)} :
    PropertiesInChains properties ↔ ∀ property ∈ properties, LinksInChains false property.2 := by
  induction properties with
  | nil => simp [PropertiesInChains]
  | cons property properties ih => simp [PropertiesInChains, ih]

theorem partsInChains_append {parts parts' : List (String ⊕ ASTNode)} :
    PartsInChains (parts ++ parts') ↔ PartsInChains parts ∧ PartsInChains parts' := by
  induction parts with
  | nil => simp [PartsInChains]
  | cons part parts ih => cases part <;> simp [PartsInChains, ih, and_assoc]

/-- What is right outside a chain is right inside one. -/
theorem LinksInChains.inside : ∀ {node : ASTNode} {inChain : Bool}, LinksInChains false node →
    LinksInChains inChain node
  | .memberExpression _ _ _, _, ⟨hoptional, hobject⟩ =>
    ⟨fun h => absurd (hoptional h) (by decide), hobject.inside⟩
  | .indexExpression _ _ _, _, ⟨hoptional, hobject, hindex⟩ =>
    ⟨fun h => absurd (hoptional h) (by decide), hobject.inside, hindex⟩
  | .callExpression _ _ _, _, ⟨hoptional, hcallee, hargs⟩ =>
    ⟨fun h => absurd (hoptional h) (by decide), hcallee.inside, hargs⟩
  | .numberLiteral _, _, h | .stringLiteral _, _, h | .booleanLiteral _, _, h | .nullLiteral, _, h
  | .identifier _, _, h | .chainExpression _, _, h | .unaryExpression _ _, _, h
  | .binaryExpression _ _ _, _, h | .ternaryExpression _ _ _, _, h | .arrayLiteral _, _, h
  | .objectLiteral _, _, h | .templateLiteral _, _, h => h

/-! ## 2. The trees that the parser returns -/

section Parsed

variable {α : Type} {item expression : TokenParser α}

theorem yields_parseItems {P : α → Prop} (close : Option TokenType) (hitem : Yields P item)
    {items : List α} (hitems : ∀ a ∈ items, P a) :
    Yields (fun result => ∀ a ∈ result, P a) (parseItems item close items) := by
  -- the items so far are right when the round starts
  have hrounds : ∀ items, Yields (fun result => (∀ a ∈ items, P a) → ∀ a ∈ result, P a)
      (parseItems item close items) := by
    apply yields_recursive
    intro self hself items
    unfold itemsRound
    refine yields_bind _ fun found => ?_
    split
    · refine yields_bind _ fun token => ?_
      split
      · exact yields_pure fun h => h
      · refine hitem.bind fun next hnext => ?_
        intro tokens result rest hrun hitems
        apply hself (items ++ [next]) tokens result rest hrun
        intro a ha
        obtain ha | ha := List.mem_append.mp ha
        · exact hitems a ha
        · rw [List.mem_singleton.mp ha]
          exact hnext
    · exact yields_pure fun h => h
  exact fun tokens result rest hrun => hrounds items tokens result rest hrun hitems

theorem yields_parseItemsUntil {P : α → Prop} (close : TokenType) (hitem : Yields P item) :
    Yields (fun result => ∀ a ∈ result, P a) (parseItemsUntil item close) := by
  unfold parseItemsUntil
  refine yields_bind _ fun token => ?_
  split
  · refine hitem.bind fun first hfirst => ?_
    apply yields_parseItems _ hitem
    intro a ha
    rw [List.mem_singleton.mp ha]
    exact hfirst
  · apply yields_pure
    intro a ha
    cases ha

end Parsed

section Grammar

variable {expression : TokenParser ASTNode} (h : Yields (LinksInChains false) expression)
include h

theorem yields_parseArgs : Yields AllInChains (parseArgs expression) := by
  unfold parseArgs
  have hlist : Yields (fun result => ∀ a ∈ result, LinksInChains false a)
      (parseArgList expression) := by
    unfold parseArgList
    refine yields_bind _ fun token => ?_
    split
    · apply yields_pure
      intro a ha
      cases ha
    · refine h.bind fun first hfirst => ?_
      apply yields_parseItems _ h
      intro a ha
      rw [List.mem_singleton.mp ha]
      exact hfirst
  refine hlist.bind fun args hargs => ?_
  refine yields_bind _ fun _ => ?_
  exact yields_pure (allInChains_iff.mpr hargs)

theorem yields_parseIndex : Yields (LinksInChains false) (parseIndex expression) := by
  unfold parseIndex
  refine h.bind fun index hindex => ?_
  refine yields_bind _ fun _ => ?_
  exact yields_pure hindex

theorem yields_parseObjectProperty :
    Yields (fun property => LinksInChains false property.2) (parseObjectProperty expression) := by
  unfold parseObjectProperty
  refine yields_bind _ fun token => ?_
  split
  · refine yields_bind _ fun _ => ?_
    refine yields_bind _ fun _ => ?_
    refine h.bind fun value hvalue => ?_
    exact yields_pure hvalue
  · exact yields_throw _

theorem yields_parsePrimary : Yields (LinksInChains false) (parsePrimary expression) := by
  unfold parsePrimary
  refine yields_bind _ fun token => ?_
  split
  case h_6 =>
    refine yields_bind _ fun _ => ?_
    refine h.bind fun node hnode => ?_
    refine yields_bind _ fun _ => ?_
    exact yields_pure hnode
  case h_7 =>
    unfold parseArrayLiteral
    refine yields_bind _ fun _ => ?_
    refine (yields_parseItemsUntil _ h).bind fun elements helements => ?_
    refine yields_bind _ fun _ => ?_
    exact yields_pure (allInChains_iff.mpr helements)
  case h_8 =>
    unfold parseObjectLiteral
    refine yields_bind _ fun _ => ?_
    refine (yields_parseItemsUntil _ (yields_parseObjectProperty h)).bind fun properties hproperties => ?_
    refine yields_bind _ fun _ => ?_
    exact yields_pure (propertiesInChains_iff.mpr hproperties)
  case h_9 => exact yields_throw _
  all_goals
    refine yields_bind _ fun _ => ?_
    exact yields_pure trivial

/-- The chain read so far, with the flag that says whether it needs a frame. -/
def ChainInChains (chain : ASTNode × Bool) : Prop := LinksInChains chain.2 chain.1

omit h in
theorem ChainInChains.optional {chain : ASTNode × Bool} (hchain : ChainInChains chain) :
    LinksInChains true chain.1 := by
  unfold ChainInChains at hchain
  cases hflag : chain.2 with
  | false =>
    rw [hflag] at hchain
    exact hchain.inside
  | true => rwa [hflag] at hchain

theorem yields_parseOptionalLink {node : ASTNode} (hnode : LinksInChains true node) :
    Yields (LinksInChains true) (parseOptionalLink expression node) := by
  unfold parseOptionalLink
  refine yields_bind _ fun next => ?_
  split
  · refine yields_bind _ fun _ => ?_
    refine (yields_parseIndex h).bind fun index hindex => ?_
    exact yields_pure ⟨fun _ => rfl, hnode, hindex⟩
  · split
    · refine yields_bind _ fun _ => ?_
      refine (yields_parseArgs h).bind fun args hargs => ?_
      exact yields_pure ⟨fun _ => rfl, hnode, hargs⟩
    · refine yields_bind _ fun property => ?_
      exact yields_pure ⟨fun _ => rfl, hnode⟩

/-- One round keeps the chain right, and `?.` raises the flag. -/
theorem yields_linksRound {self : ASTNode × Bool → TokenParser (ASTNode × Bool)}
    (hself : ∀ chain, Yields (fun result => ChainInChains chain → ChainInChains result) (self chain))
    (chain : ASTNode × Bool) :
    Yields (fun result => ChainInChains chain → ChainInChains result)
      (linksRound expression self chain) := by
  have hplain : ∀ {node : ASTNode}, (ChainInChains chain → LinksInChains chain.2 node) →
      Yields (fun result => ChainInChains chain → ChainInChains result) (self (node, chain.2)) :=
    fun hnode tokens result rest hrun hchain => hself _ tokens result rest hrun (hnode hchain)
  have hnone : (false = true → chain.2 = true) := fun h => absurd h (by decide)
  unfold linksRound
  refine yields_bind _ fun found => ?_
  split
  · intro tokens result rest hrun hchain
    refine Yields.bind (Q := ChainInChains) (yields_parseOptionalLink h hchain.optional)
      (fun node hnode => ?_) tokens result rest hrun
    exact fun tokens result rest hrun => hself (node, true) tokens result rest hrun hnode
  · refine yields_bind _ fun found => ?_
    split
    · refine yields_bind _ fun property => ?_
      exact hplain fun hchain => ⟨hnone, hchain⟩
    · refine yields_bind _ fun found => ?_
      split
      · refine (yields_parseIndex h).bind fun index hindex => ?_
        exact hplain fun hchain => ⟨hnone, hchain, hindex⟩
      · refine yields_bind _ fun found => ?_
        split
        · refine (yields_parseArgs h).bind fun args hargs => ?_
          exact hplain fun hchain => ⟨hnone, hchain, hargs⟩
        · exact yields_pure fun hchain => hchain

theorem yields_parsePostfix : Yields (LinksInChains false) (parsePostfix expression) := by
  unfold parsePostfix
  refine (yields_parsePrimary h).bind fun node hnode => ?_
  have hlinks : Yields ChainInChains (parseLinks expression (node, false)) := by
    intro tokens result rest hrun
    exact yields_recursive (fun self hself => yields_linksRound h hself) (node, false) tokens result
      rest hrun hnode
  refine hlinks.bind fun chain hchain => ?_
  apply yields_pure
  unfold ChainInChains at hchain
  split
  case isTrue hflag => rwa [hflag] at hchain
  case isFalse hflag => rwa [Bool.not_eq_true chain.2 |>.mp hflag] at hchain

theorem yields_parseUnary : Yields (LinksInChains false) (parseUnary expression) := by
  apply yields_recursive (P := fun _ => LinksInChains false)
  intro self hself _
  unfold unaryRound
  refine yields_bind _ fun found => ?_
  split
  · refine (hself ()).bind fun operand hoperand => ?_
    exact yields_pure hoperand
  · refine yields_bind _ fun found => ?_
    split
    · refine (hself ()).bind fun operand hoperand => ?_
      exact yields_pure hoperand
    · exact yields_parsePostfix h

omit h in
theorem yields_parseBinary (operatorOf : TokenType → Option BinaryOperator)
    {operand : TokenParser ASTNode} (h : Yields (LinksInChains false) operand) :
    Yields (LinksInChains false) (parseBinary operatorOf operand) := by
  have hoperands : ∀ node, Yields (fun result => LinksInChains false node → LinksInChains false result)
      (parseOperands operatorOf operand node) := by
    apply yields_recursive
    intro self hself node
    unfold operandsRound
    refine yields_bind _ fun token => ?_
    split
    · refine yields_bind _ fun _ => ?_
      refine h.bind fun right hright => ?_
      intro tokens result rest hrun hnode
      exact hself _ tokens result rest hrun ⟨hnode, hright⟩
    · exact yields_pure fun hnode => hnode
  unfold parseBinary
  refine h.bind fun node hnode => ?_
  intro tokens result rest hrun
  exact hoperands node tokens result rest hrun hnode

theorem yields_parseTernary : Yields (LinksInChains false) (parseTernary expression) := by
  have hor : Yields (LinksInChains false) (parseOr expression) :=
    yields_parseBinary _ (yields_parseBinary _ (yields_parseBinary _ (yields_parseBinary _
      (yields_parseBinary _ (yields_parseBinary _ (yields_parseUnary h))))))
  unfold parseTernary
  refine hor.bind fun node hnode => ?_
  refine yields_bind _ fun found => ?_
  split
  · refine h.bind fun consequent hconsequent => ?_
    refine yields_bind _ fun _ => ?_
    refine h.bind fun alternate halternate => ?_
    exact yields_pure ⟨hnode, hconsequent, halternate⟩
  · exact yields_pure hnode

end Grammar

theorem yields_parseExpression : Yields (LinksInChains false) parseExpression :=
  yields_recursive (P := fun _ => LinksInChains false)
    (fun _ hself _ => yields_parseTernary (hself ())) ()

theorem yields_parseParts {parts : Parts} (hparts : PartsInChains parts) :
    Yields PartsInChains (parseParts parts) := by
  have hrounds : ∀ parts, Yields (fun result => PartsInChains parts → PartsInChains result)
      (parseParts parts) := by
    apply yields_recursive
    intro self hself parts
    unfold partsRound
    refine yields_bind _ fun token => ?_
    split
    · exact yields_pure fun h => h
    · refine yields_bind _ fun _ => ?_
      intro tokens result rest hrun hparts
      exact hself _ tokens result rest hrun (partsInChains_append.mpr ⟨hparts, trivial⟩)
    · refine yields_bind _ fun _ => ?_
      refine yields_parseExpression.bind fun node hnode => ?_
      refine yields_bind _ fun _ => ?_
      intro tokens result rest hrun hparts
      exact hself _ tokens result rest hrun (partsInChains_append.mpr ⟨hparts, hnode, trivial⟩)
    · exact yields_throw _
  exact fun tokens result rest hrun => hrounds parts tokens result rest hrun hparts

/-- The parser puts every optional link under the frame of its own chain. -/
theorem linksInChains_of_parse {tokens : List Token} {node : ASTNode} (h : parse tokens = .ok node) :
    LinksInChains false node := by
  unfold parse at h
  cases hrun : (parseParts []).run tokens with
  | error e =>
    rw [hrun] at h
    cases h
  | ok result =>
    rw [hrun] at h
    have hempty : PartsInChains [] := trivial
    have hparts : PartsInChains result.1 := yields_parseParts hempty tokens result.1 result.2 hrun
    have hnode : ofParts result.1 = node := Except.ok.inj h
    rw [← hnode]
    unfold ofParts
    split
    case h_1 node heq =>
      rw [heq] at hparts
      exact hparts.1
    case h_2 => trivial
    case h_3 => exact hparts

end Clemvion.Expression
