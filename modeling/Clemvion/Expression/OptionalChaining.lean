import Clemvion.Expression.ChainShape
import Clemvion.Expression.Evaluator

/-!
# OptionalChaining — a chain that ends early is `null`

The source ends a chain with an exception that the frame of the chain catches.  The reference
reads a chain link by link instead: `none` says that an optional link has ended it, every further
link passes `none` on, and at the border of the chain it becomes `null`.  The two agree on every
tree that the parser returns, because an optional link only ever stands on the spine of a chain.
-/

open Clemvion.Js Clemvion.Js.Value

namespace Clemvion.Expression

/-! ## 1. The reference -/

section Reference

variable (host : Host) (evaluator : Evaluator)

def framed {α : Type} (depth : Nat) (node : Nat → Effect α) : Effect α := do
  checkLimits host evaluator depth
  node (depth + 1)

/-- The border of a chain. -/
def whole (x : Effect (Option Value)) : Effect Value := do return (← x).getD .null

/-- One link of a chain: what the part on its left has come to, and the access when it is there. -/
def link (optional : Bool) (missing : Value → ExpressionError) (access : Value → Effect Value) :
    Option Value → Effect (Option Value)
  | none => return none
  | some v =>
    if isNullish v then
      if optional then return none
      else throw (missing v)
    else do
      let w ← access v
      return some w

mutual

/-- The value of a node; `none` only for a link whose chain has ended. -/
def refer : ASTNode → Nat → Effect (Option Value)
  | .numberLiteral value, _ => return some (.num value)
  | .stringLiteral value, _ => return some (.str value)
  | .booleanLiteral value, _ => return some (.bool value)
  | .nullLiteral, _ => return some .null
  | .identifier name, _ => do
    let v ← ofExcept (evaluateIdentifier host evaluator name)
    return some v
  | .memberExpression object property optional, depth => do
    let receiver ← framed host evaluator depth (refer object)
    link optional (fun v => referenceError s!"Cannot read property '{property}' of {nullishText v}")
      (fun obj => ofExcept (memberOf obj property)) receiver
  | .indexExpression object index optional, depth => do
    let receiver ← framed host evaluator depth (refer object)
    link optional (fun v => referenceError s!"Cannot index into {nullishText v}")
      (fun obj => do
        let item ← whole (framed host evaluator depth (refer index))
        ofExcept (itemOf host obj item)) receiver
  | .callExpression callee args optional, depth =>
    match callee with
    | .identifier name =>
      -- the receiver of a call is the function that the name stands for
      match host.getFunction name with
      | none =>
        if optional then return none
        else throw (functionError s!"Unknown function: {name}")
      | some fn => do
        let values ← referAll args depth
        let v ← callFunction name fn values
        return some v
    | _ => throw unnamedCall
  | .chainExpression expression, depth => do
    let v ← whole (framed host evaluator depth (refer expression))
    return some v
  | .unaryExpression operator operand, depth => do
    let v ← whole (framed host evaluator depth (refer operand))
    let w ← ofExcept (applyUnary operator v)
    return some w
  | .binaryExpression operator left right, depth => do
    let l ← whole (framed host evaluator depth (refer left))
    if decidedByLeft operator l then return some l
    else
      let r ← whole (framed host evaluator depth (refer right))
      let v ← ofExcept (applyBinary host evaluator operator l r)
      return some v
  | .ternaryExpression condition consequent alternate, depth => do
    let c ← whole (framed host evaluator depth (refer condition))
    if toBooleanValue c then
      let v ← whole (framed host evaluator depth (refer consequent))
      return some v
    else
      let v ← whole (framed host evaluator depth (refer alternate))
      return some v
  | .arrayLiteral elements, depth => do
    let items ← referAll elements depth
    return some (.arr items)
  | .objectLiteral properties, depth => do
    let fields ← referProperties properties [] depth
    return some (.obj fields)
  | .templateLiteral parts, depth => do
    let texts ← referParts parts depth
    let v ← ofExcept (joinParts texts)
    return some v

def referAll : List ASTNode → Nat → Effect (List Value)
  | [], _ => return []
  | node :: nodes, depth => do
    let v ← whole (framed host evaluator depth (refer node))
    let vs ← referAll nodes depth
    return v :: vs

def referProperties : List (String × ASTNode) → List (String × Value) → Nat →
    Effect (List (String × Value))
  | [], fields, _ => return fields
  | (key, value) :: properties, fields, depth => do
    let v ← whole (framed host evaluator depth (refer value))
    referProperties properties (setKey fields key v) depth

def referParts : List (String ⊕ ASTNode) → Nat → Effect (List String)
  | [], _ => return []
  | .inl text :: parts, depth => do
    let texts ← referParts parts depth
    return text :: texts
  | .inr node :: parts, depth => do
    let v ← whole (framed host evaluator depth (refer node))
    let texts ← referParts parts depth
    return toStringValue host v :: texts

end

/-- The value of the tree at the root. -/
def reference (node : ASTNode) : Effect Value :=
  whole (framed host evaluator 0 (refer host evaluator node))

end Reference

/-! ## 2. Effects and evaluations -/

section Effects

variable {α β : Type}

theorem raising_bind (x : Effect α) (f : α → Effect β) :
    raising (x >>= f) = raising x >>= fun a => raising (f a) := by
  funext n
  show raising (ExceptT.bind x f) n = ExceptT.bind (raising x) (fun a => raising (f a)) n
  unfold raising ExceptT.bind ExceptT.mk ExceptT.run
  simp only [bind, StateT.bind, pure]
  cases h : x n with
  | mk result m => cases result <;> rfl

/-- An error is no signal. -/
theorem raising_ne_signal (x : Effect α) (n : Nat) :
    ((raising x).run.run n).1 ≠ .error .shortCircuitSignal := by
  show (raising x n).1 ≠ _
  unfold raising ExceptT.mk ExceptT.run
  simp only [bind, StateT.bind, pure]
  cases h : x n with
  | mk result m => cases result <;> exact fun heq => nomatch heq

/-- An ended chain as the exception that the source throws. -/
def signalling (x : Effect (Option Value)) : Evaluation Value := do
  match ← raising x with
  | some v => return v
  | none => throw .shortCircuitSignal

theorem signalling_bind (x : Effect α) (f : α → Effect (Option Value)) :
    signalling (x >>= f) = raising x >>= fun a => signalling (f a) := by
  unfold signalling
  rw [raising_bind, bind_assoc]

theorem signalling_some (x : Effect Value) :
    signalling (do let v ← x; return some v) = raising x := by
  rw [signalling_bind]
  exact bind_pure (raising x)

/-- What goes on behind a link: nothing once the chain has ended. -/
theorem signalling_follow (x : Effect (Option Value)) {f : Value → Evaluation Value}
    {g : Option Value → Effect (Option Value)} (hnone : g none = pure none)
    (hsome : ∀ v, f v = signalling (g (some v))) : signalling x >>= f = signalling (x >>= g) := by
  rw [signalling_bind]
  unfold signalling
  rw [bind_assoc]
  congr
  funext receiver
  cases receiver with
  | none => rw [hnone]; rfl
  | some v => exact hsome v

/-- The frame of a chain takes the signal back. -/
theorem tryCatch_signalling (x : Effect (Option Value)) :
    (tryCatch (signalling x) fun e =>
      match e with
      | .shortCircuitSignal => return .null
      | .error e => throw (.error e)) = raising (whole x) := by
  funext n
  unfold whole
  rw [raising_bind]
  have hraising : ∃ result m, raising x n = (result, m) ∧ result ≠ .error .shortCircuitSignal :=
    ⟨_, _, rfl, raising_ne_signal x n⟩
  obtain ⟨result, m, hrun, hresult⟩ := hraising
  show (ExceptT.tryCatch (ExceptT.bind (raising x) _) _) n = ExceptT.bind (raising x) _ n
  unfold ExceptT.tryCatch ExceptT.bind ExceptT.mk
  simp only [bind, StateT.bind, hrun]
  cases result with
  | ok receiver => cases receiver <;> rfl
  | error e =>
    cases e with
    | shortCircuitSignal => exact absurd rfl hresult
    | error e => rfl

/-- No chain is left open. -/
def Complete (x : Effect (Option Value)) : Prop := ∃ y : Effect Value, x = do let v ← y; return some v

theorem complete_some (y : Effect Value) : Complete (do let v ← y; return some v) := ⟨y, rfl⟩

theorem complete_pure (v : Value) : Complete (pure (some v)) := ⟨pure v, rfl⟩

theorem complete_throw (e : ExpressionError) : Complete (throw e) := ⟨throw e, rfl⟩

theorem complete_bind (x : Effect α) {f : α → Effect (Option Value)} (h : ∀ a, Complete (f a)) :
    Complete (x >>= f) := by
  choose g hg using h
  refine ⟨x >>= g, ?_⟩
  rw [bind_assoc]
  exact congrArg (x >>= ·) (funext hg)

theorem Complete.bind {x : Effect (Option Value)} (hx : Complete x)
    {f : Option Value → Effect (Option Value)} (h : ∀ v, Complete (f (some v))) :
    Complete (x >>= f) := by
  obtain ⟨y, rfl⟩ := hx
  rw [bind_assoc]
  apply complete_bind
  intro v
  rw [pure_bind]
  exact h v

theorem Complete.signalling {x : Effect (Option Value)} (hx : Complete x) :
    signalling x = raising (whole x) := by
  obtain ⟨y, rfl⟩ := hx
  rw [signalling_some]
  unfold whole
  rw [bind_assoc]
  exact congrArg raising (bind_pure y).symm

end Effects

/-! ## 3. Outside a chain nothing is left open -/

variable (host : Host) (evaluator : Evaluator)

theorem complete_framed {node : Nat → Effect (Option Value)} (h : ∀ depth, Complete (node depth))
    (depth : Nat) : Complete (framed host evaluator depth node) :=
  complete_bind _ fun _ => h (depth + 1)

theorem complete_link {missing : Value → ExpressionError} {access : Value → Effect Value} (v : Value) :
    Complete (link false missing access (some v)) := by
  show Complete (if isNullish v then throw (missing v) else do let w ← access v; return some w)
  split
  · exact complete_throw _
  · exact complete_some _

theorem complete_refer : ∀ (node : ASTNode) (depth : Nat), LinksInChains false node →
    Complete (refer host evaluator node depth)
  | .numberLiteral _, _, _ | .stringLiteral _, _, _ | .booleanLiteral _, _, _
  | .nullLiteral, _, _ => complete_pure _
  | .identifier _, _, _ => complete_some _
  | .memberExpression object _ optional, depth, ⟨hoptional, hobject⟩ => by
    cases optional with
    | true => exact absurd (hoptional rfl) (by decide)
    | false =>
      have hreceiver := complete_framed host evaluator
        (fun depth => complete_refer object depth hobject) depth
      exact hreceiver.bind complete_link
  | .indexExpression object _ optional, depth, ⟨hoptional, hobject, _⟩ => by
    cases optional with
    | true => exact absurd (hoptional rfl) (by decide)
    | false =>
      have hreceiver := complete_framed host evaluator
        (fun depth => complete_refer object depth hobject) depth
      exact hreceiver.bind complete_link
  | .callExpression callee args optional, depth, ⟨hoptional, _, _⟩ => by
    cases optional with
    | true => exact absurd (hoptional rfl) (by decide)
    | false =>
      unfold refer
      split
      · split
        · exact complete_throw _
        · exact complete_bind _ fun _ => complete_some _
      · exact complete_throw _
  | .chainExpression _, _, _ => complete_some _
  | .unaryExpression _ _, _, _ => complete_bind _ fun _ => complete_some _
  | .binaryExpression operator left right, depth, _ => by
    unfold refer
    apply complete_bind
    intro l
    split
    · exact complete_pure _
    · exact complete_bind _ fun _ => complete_some _
  | .ternaryExpression _ _ _, _, _ => by
    unfold refer
    apply complete_bind
    intro c
    split
    · exact complete_some _
    · exact complete_some _
  | .arrayLiteral _, _, _ | .objectLiteral _, _, _ => complete_bind _ fun _ => complete_pure _
  | .templateLiteral _, _, _ => complete_bind _ fun _ => complete_some _

/-! ## 4. The evaluator computes the reference -/

theorem entering_signalling (depth : Nat) (node : Nat → Effect (Option Value)) :
    entering host evaluator depth (fun depth => signalling (node depth)) =
      signalling (framed host evaluator depth node) :=
  (signalling_bind _ _).symm

/-- One link: the exceptions of the source against `none`. -/
theorem signalling_link (optional : Bool) (missing : Value → ExpressionError)
    (access : Value → Effect Value) (v : Value) :
    signalling (link optional missing access (some v)) =
      if isNullish v then
        if optional then throw .shortCircuitSignal
        else throw (.error (missing v))
      else raising (access v) := by
  show signalling (if isNullish v then if optional then pure none else throw (missing v)
    else do let w ← access v; return some w) = _
  split
  · split <;> rfl
  · exact signalling_some (access v)

section Operands

variable {host evaluator}

/-- A node at the border of a chain. -/
theorem entering_operand {node : ASTNode}
    (hnode : ∀ depth, evaluateNode host evaluator node depth = signalling (refer host evaluator node depth))
    (hlinks : LinksInChains false node) (depth : Nat) :
    entering host evaluator depth (evaluateNode host evaluator node) =
      raising (whole (framed host evaluator depth (refer host evaluator node))) := by
  rw [funext hnode, entering_signalling]
  exact (complete_framed host evaluator (fun depth => complete_refer host evaluator node depth hlinks)
    depth).signalling

end Operands

mutual

theorem evaluateNode_eq : ∀ {inChain : Bool} (node : ASTNode) (depth : Nat),
    LinksInChains inChain node →
    evaluateNode host evaluator node depth = signalling (refer host evaluator node depth)
  | _, .numberLiteral _, _, _ | _, .stringLiteral _, _, _ | _, .booleanLiteral _, _, _
  | _, .nullLiteral, _, _ => rfl
  | _, .identifier name, depth, _ => (signalling_some _).symm
  | _, .memberExpression object property optional, depth, ⟨_, hobject⟩ => by
    unfold evaluateNode refer
    rw [funext fun depth => evaluateNode_eq object depth hobject, entering_signalling]
    apply signalling_follow
    · rfl
    · intro obj
      rw [signalling_link]
  | _, .indexExpression object index optional, depth, ⟨_, hobject, hindex⟩ => by
    unfold evaluateNode refer
    rw [funext fun depth => evaluateNode_eq object depth hobject, entering_signalling]
    apply signalling_follow
    · rfl
    · intro obj
      rw [signalling_link, raising_bind,
        entering_operand (fun depth => evaluateNode_eq index depth hindex) hindex]
  | _, .callExpression callee args optional, depth, ⟨_, _, hargs⟩ => by
    unfold evaluateNode refer
    cases callee with
    | identifier name =>
      cases hfn : host.getFunction name with
      | none =>
        simp only [hfn]
        cases optional <;> rfl
      | some fn =>
        simp only [hfn]
        rw [evaluateAll_eq args depth hargs, signalling_bind]
        congr
        funext values
        exact (signalling_some _).symm
    | _ => rfl
  | _, .chainExpression expression, depth, hexpression => by
    unfold evaluateNode refer
    rw [funext fun depth => evaluateNode_eq expression depth hexpression, entering_signalling,
      signalling_some]
    exact tryCatch_signalling _
  | _, .unaryExpression operator operand, depth, hoperand => by
    unfold evaluateNode refer
    rw [entering_operand (fun depth => evaluateNode_eq operand depth hoperand) hoperand,
      signalling_bind]
    congr
    funext v
    exact (signalling_some _).symm
  | _, .binaryExpression operator left right, depth, ⟨hleft, hright⟩ => by
    unfold evaluateNode refer
    rw [entering_operand (fun depth => evaluateNode_eq left depth hleft) hleft, signalling_bind]
    congr
    funext l
    split
    · rfl
    · rw [entering_operand (fun depth => evaluateNode_eq right depth hright) hright,
        signalling_bind]
      congr
      funext r
      exact (signalling_some _).symm
  | _, .ternaryExpression condition consequent alternate, depth, ⟨hcondition, hconsequent, halternate⟩ => by
    unfold evaluateNode refer
    rw [entering_operand (fun depth => evaluateNode_eq condition depth hcondition) hcondition,
      signalling_bind]
    congr
    funext c
    split
    · rw [signalling_some]
      exact entering_operand (fun depth => evaluateNode_eq consequent depth hconsequent) hconsequent _
    · rw [signalling_some]
      exact entering_operand (fun depth => evaluateNode_eq alternate depth halternate) halternate _
  | _, .arrayLiteral elements, depth, helements => by
    unfold evaluateNode refer
    rw [evaluateAll_eq elements depth helements, signalling_bind]
    rfl
  | _, .objectLiteral properties, depth, hproperties => by
    unfold evaluateNode refer
    rw [evaluateProperties_eq properties [] depth hproperties, signalling_bind]
    rfl
  | _, .templateLiteral parts, depth, hparts => by
    unfold evaluateNode refer
    rw [evaluateParts_eq parts depth hparts, signalling_bind]
    congr
    funext texts
    exact (signalling_some _).symm

theorem evaluateAll_eq : ∀ (nodes : List ASTNode) (depth : Nat), AllInChains nodes →
    evaluateAll host evaluator nodes depth = raising (referAll host evaluator nodes depth)
  | [], _, _ => rfl
  | node :: nodes, depth, ⟨hnode, hnodes⟩ => by
    unfold evaluateAll referAll
    rw [entering_operand (fun depth => evaluateNode_eq node depth hnode) hnode,
      evaluateAll_eq nodes depth hnodes, raising_bind]
    congr
    funext v
    rw [raising_bind]
    rfl

theorem evaluateProperties_eq : ∀ (properties : List (String × ASTNode))
    (fields : List (String × Value)) (depth : Nat), PropertiesInChains properties →
    evaluateProperties host evaluator properties fields depth =
      raising (referProperties host evaluator properties fields depth)
  | [], _, _, _ => rfl
  | (key, value) :: properties, fields, depth, ⟨hvalue, hproperties⟩ => by
    unfold evaluateProperties referProperties
    rw [entering_operand (fun depth => evaluateNode_eq value depth hvalue) hvalue, raising_bind]
    congr
    funext v
    exact evaluateProperties_eq properties _ depth hproperties

theorem evaluateParts_eq : ∀ (parts : List (String ⊕ ASTNode)) (depth : Nat), PartsInChains parts →
    evaluateParts host evaluator parts depth = raising (referParts host evaluator parts depth)
  | [], _, _ => rfl
  | .inl text :: parts, depth, hparts => by
    unfold evaluateParts referParts
    rw [evaluateParts_eq parts depth hparts, raising_bind]
    rfl
  | .inr node :: parts, depth, ⟨hnode, hparts⟩ => by
    unfold evaluateParts referParts
    rw [entering_operand (fun depth => evaluateNode_eq node depth hnode) hnode,
      evaluateParts_eq parts depth hparts, raising_bind]
    congr
    funext v
    rw [raising_bind]
    rfl

end

/-- A context with `$x` alone, which is `null`. -/
def nullX : Evaluator :=
  newEvaluator (fun name => if name = "$x" then some .null else none) ⟨none, none, none⟩

/-- The tokens of `$x?.b` and what follows it in the same chain. -/
def chainTokens (rest : List Token) : List Token :=
  [⟨.exprStart, "\x7b\x7b", 0⟩, ⟨.identifier, "$x", 3⟩, ⟨.questionDot, "?.", 5⟩,
    ⟨.identifier, "b", 7⟩] ++ rest ++ [⟨.exprEnd, "\x7d\x7d", 12⟩, ⟨.eof, "", 14⟩]

def optionalB : ASTNode := .memberExpression (.identifier "$x") "b" true

/-- `$x?.b[1]`. -/
def indexTokens : List Token :=
  chainTokens [⟨.lBracket, "[", 8⟩, ⟨.number, "1", 9⟩, ⟨.rBracket, "]", 10⟩]

def indexChain : ASTNode :=
  .chainExpression (.indexExpression optionalB (.numberLiteral (parseFloat "1")) false)

/-- `$x?.b()`. -/
def callTokens : List Token := chainTokens [⟨.lParen, "(", 8⟩, ⟨.rParen, ")", 9⟩]

def callChain : ASTNode := .chainExpression (.callExpression optionalB [] false)

end Clemvion.Expression
