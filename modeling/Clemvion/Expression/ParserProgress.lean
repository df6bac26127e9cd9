import Clemvion.Expression.Parser

/-!
# ParserProgress — the rules of the parser are equations

Every rule calls `parseExpression`, and every loop goes round, only behind a token that was taken
off the list.  So the recursions are fixed points, and the rest of the development rewrites with
the equations of section 3 alone.
-/

open Clemvion.Library

namespace Clemvion.Expression

variable {α : Type} {k n : Nat}

/-! ## 1. Reading a token -/

section Tokens

variable {token : Token} {tokens : List Token} {f g : Token → TokenParser α}

theorem run_current_cons (f : Token → TokenParser α) (token : Token) (tokens : List Token) :
    (current >>= f).run (token :: tokens) = (f token).run (token :: tokens) := rfl

theorem run_current_nil (f : Token → TokenParser α) :
    (current >>= f).run [] = (f endToken).run [] := rfl

theorem run_advance_cons (f : Token → TokenParser α) (token : Token) (tokens : List Token) :
    (advance >>= f).run (token :: tokens) = (f token).run tokens := rfl

theorem run_matchType_cons (f : Bool → TokenParser α) (type : TokenType) (token : Token)
    (tokens : List Token) : (matchType type >>= f).run (token :: tokens) =
      if token.type = type then (f true).run tokens else (f false).run (token :: tokens) := by
  unfold matchType
  rw [bind_assoc, run_current_cons]
  split <;> rfl

theorem run_matchType_of_eq (f : Bool → TokenParser α) {type : TokenType} {token : Token}
    (tokens : List Token) (h : token.type = type) :
    (matchType type >>= f).run (token :: tokens) = (f true).run tokens := by
  rw [run_matchType_cons, if_pos h]

theorem run_matchType_of_ne (f : Bool → TokenParser α) {type : TokenType} {token : Token}
    (tokens : List Token) (h : token.type ≠ type) :
    (matchType type >>= f).run (token :: tokens) = (f false).run (token :: tokens) := by
  rw [run_matchType_cons, if_neg h]

theorem run_matchType_nil (f : Bool → TokenParser α) {type : TokenType} (h : type ≠ .eof) :
    (matchType type >>= f).run [] = (f false).run [] := by
  unfold matchType
  rw [bind_assoc, run_current_nil, if_neg (show endToken.type ≠ type from Ne.symm h)]
  rfl

theorem run_expect_cons (f : Token → TokenParser α) {type : TokenType} (message : String)
    {token : Token} (tokens : List Token) (h : token.type = type) :
    (expect type message >>= f).run (token :: tokens) = (f token).run tokens := by
  unfold expect
  rw [bind_assoc, run_current_cons, if_neg (not_not.mpr h)]
  rfl

theorem tracks_current (n : Nat) : Tracks 0 n current current := by
  intro tokens _
  refine ⟨rfl, fun token rest hrun => ?_⟩
  rw [← (Prod.mk.inj (Except.ok.inj hrun)).2]
  exact Nat.le_refl _

theorem tracks_advance (n : Nat) : Tracks 0 n advance advance := by
  intro tokens _
  refine ⟨rfl, fun token rest hrun => ?_⟩
  have hrest : tokens.tail = rest := (Prod.mk.inj (Except.ok.inj hrun)).2
  rw [← hrest, List.length_tail]
  omega

/-- A branch behind a token that was there runs on a shorter list. -/
theorem tracks_matchType {p p' q q' : TokenParser α} {type : TokenType} (h : type ≠ .eof)
    (hp : Tracks 0 (n - 1) p p') (hq : Tracks 0 n q q') :
    Tracks 0 n (matchType type >>= fun found => if found = true then p else q)
      (matchType type >>= fun found => if found = true then p' else q') := by
  intro tokens hlength
  unfold TracksOn
  cases tokens with
  | nil =>
    rw [run_matchType_nil _ h, run_matchType_nil _ h]
    exact hq [] hlength
  | cons token tokens =>
    rw [run_matchType_cons, run_matchType_cons]
    split
    · rw [List.length_cons] at hlength
      obtain ⟨hsame, hshort⟩ := hp tokens (by omega)
      refine ⟨hsame, fun a rest hrun => ?_⟩
      have := hshort a rest hrun
      rw [List.length_cons]
      omega
    · exact hq (token :: tokens) hlength

theorem tracks_expect {type : TokenType} (h : type ≠ .eof) (message : String) (n : Nat) :
    Tracks 1 n (expect type message) (expect type message) := by
  intro tokens _
  refine ⟨rfl, fun token rest hrun => ?_⟩
  cases tokens with
  | nil =>
    unfold expect at hrun
    rw [run_current_nil, if_pos (show endToken.type ≠ type from Ne.symm h)] at hrun
    cases hrun
  | cons first tokens =>
    unfold expect at hrun
    rw [run_current_cons] at hrun
    split at hrun
    · cases hrun
    · rw [← (Prod.mk.inj (Except.ok.inj hrun)).2]
      exact Nat.le_refl _

/-- What follows an expected token runs on a shorter list. -/
theorem tracks_expect_bind {type : TokenType} (h : type ≠ .eof) (message : String)
    (hfg : ∀ token, Tracks 0 (n - 1) (f token) (g token)) :
    Tracks 0 n (expect type message >>= f) (expect type message >>= g) :=
  ((tracks_expect h message n).bind hfg).mono (Nat.zero_le _) (Nat.le_refl n)

theorem tracksOn_advance (h : TracksOn 0 (f token) (g token) tokens) :
    TracksOn 0 (advance >>= f) (advance >>= g) (token :: tokens) := by
  obtain ⟨hsame, hshort⟩ := h
  refine ⟨hsame, fun a rest hrun => ?_⟩
  have := hshort a rest hrun
  rw [List.length_cons]
  omega

end Tokens

/-! ## 2. Every rule takes tokens off the list before it recurs -/

theorem guarded_itemsRound {item item' : TokenParser α} (close : Option TokenType)
    (h : Tracks 0 n item item') :
    Guarded 0 n (itemsRound item close) (itemsRound item' close) := by
  intro m hm p q hself items
  apply tracks_matchType (by decide)
  · apply Tracks.seq (tracks_current _)
    intro token
    split
    · exact tracks_pure _ _
    · apply Tracks.seq (h.mono (Nat.le_refl 0) (by omega))
      exact fun next => hself _
  · exact tracks_pure _ _

theorem tracks_parseItems {item item' : TokenParser α} (close : Option TokenType)
    (h : Tracks 0 n item item') (items : List α) :
    Tracks 0 n (parseItems item close items) (parseItems item' close items) :=
  (guarded_itemsRound close h).tracks items

variable {p q : TokenParser ASTNode}

theorem tracks_parseArgList (h : Tracks 0 n p q) : Tracks 0 n (parseArgList p) (parseArgList q) := by
  apply Tracks.seq (tracks_current n)
  intro token
  split
  · exact tracks_pure _ _
  · exact h.seq fun first => tracks_parseItems _ h _

theorem tracks_parseItemsUntil {item item' : TokenParser α} (close : TokenType)
    (h : Tracks 0 n item item') :
    Tracks 0 n (parseItemsUntil item close) (parseItemsUntil item' close) := by
  apply Tracks.seq (tracks_current n)
  intro token
  split
  · exact h.seq fun first => tracks_parseItems _ h _
  · exact tracks_pure _ _

theorem tracks_parseArrayLiteral (h : Tracks 0 (n - 1) p q) :
    Tracks 0 n (parseArrayLiteral p) (parseArrayLiteral q) := by
  apply tracks_expect_bind (by decide)
  intro _
  apply (tracks_parseItemsUntil _ h).seq
  intro elements
  apply tracks_expect_bind (by decide)
  exact fun _ => tracks_pure _ _

theorem tracks_parseObjectProperty (h : Tracks 0 n p q) :
    Tracks 0 n (parseObjectProperty p) (parseObjectProperty q) := by
  apply Tracks.seq (tracks_current n)
  intro token
  split
  · apply Tracks.seq (tracks_advance n)
    intro _
    apply tracks_expect_bind (by decide)
    intro _
    exact (h.mono (Nat.le_refl 0) (by omega)).seq fun value => tracks_pure _ _
  · exact tracks_throw 0 n _

theorem tracks_parseObjectLiteral (h : Tracks 0 (n - 1) p q) :
    Tracks 0 n (parseObjectLiteral p) (parseObjectLiteral q) := by
  apply tracks_expect_bind (by decide)
  intro _
  apply (tracks_parseItemsUntil _ (tracks_parseObjectProperty h)).seq
  intro properties
  apply tracks_expect_bind (by decide)
  exact fun _ => tracks_pure _ _

theorem tracks_parsePrimary (h : Tracks 0 (n - 1) p q) :
    Tracks 0 n (parsePrimary p) (parsePrimary q) := by
  intro tokens hlength
  cases tokens with
  | nil => exact tracksOn_throw 0 _ []
  | cons token tokens =>
    rw [List.length_cons] at hlength
    unfold TracksOn parsePrimary
    rw [run_current_cons, run_current_cons]
    show TracksOn 0 _ _ (token :: tokens)
    split
    case h_6 =>
      apply tracksOn_advance
      apply h.seq _ tokens (by omega)
      intro node
      apply tracks_expect_bind (by decide)
      exact fun _ => tracks_pure _ _
    case h_7 => exact tracks_parseArrayLiteral h (token :: tokens) (by rw [List.length_cons]; omega)
    case h_8 => exact tracks_parseObjectLiteral h (token :: tokens) (by rw [List.length_cons]; omega)
    case h_9 => exact tracksOn_throw 0 _ _
    all_goals exact tracksOn_advance (tracksOn_pure _ tokens)

theorem tracks_parseIndex (h : Tracks 0 n p q) : Tracks 0 n (parseIndex p) (parseIndex q) := by
  apply h.seq
  intro index
  apply tracks_expect_bind (by decide)
  exact fun _ => tracks_pure _ _

theorem tracks_parseArgs (h : Tracks 0 n p q) : Tracks 0 n (parseArgs p) (parseArgs q) := by
  apply (tracks_parseArgList h).seq
  intro args
  apply tracks_expect_bind (by decide)
  exact fun _ => tracks_pure _ _

theorem tracks_parseOptionalLink (node : ASTNode) (h : Tracks 0 n p q) :
    Tracks 0 n (parseOptionalLink p node) (parseOptionalLink q node) := by
  apply Tracks.seq (tracks_current n)
  intro next
  split
  · apply Tracks.seq (tracks_advance n)
    exact fun _ => (tracks_parseIndex h).seq fun index => tracks_pure _ _
  · split
    · apply Tracks.seq (tracks_advance n)
      exact fun _ => (tracks_parseArgs h).seq fun args => tracks_pure _ _
    · apply tracks_expect_bind (by decide)
      exact fun property => tracks_pure _ _

theorem guarded_linksRound (h : Tracks 0 (n - 1) p q) :
    Guarded 0 n (linksRound p) (linksRound q) := by
  intro m hm self self' hself chain
  have hm' := h.mono (Nat.le_refl 0) (show m ≤ n - 1 by omega)
  apply tracks_matchType (by decide)
  · exact (tracks_parseOptionalLink chain.1 hm').seq fun node => hself _
  · apply tracks_matchType (by decide)
    · apply tracks_expect_bind (by decide)
      exact fun property => (hself _).mono (Nat.le_refl 0) (by omega)
    · apply tracks_matchType (by decide)
      · exact (tracks_parseIndex hm').seq fun index => hself _
      · apply tracks_matchType (by decide)
        · exact (tracks_parseArgs hm').seq fun args => hself _
        · exact tracks_pure _ _

theorem tracks_parsePostfix (h : Tracks 0 (n - 1) p q) :
    Tracks 0 n (parsePostfix p) (parsePostfix q) := by
  apply (tracks_parsePrimary h).seq
  intro node
  exact ((guarded_linksRound h).tracks _).seq fun chain => tracks_pure _ _

theorem guarded_unaryRound (h : Tracks 0 (n - 1) p q) :
    Guarded 0 n (unaryRound p) (unaryRound q) := by
  intro m hm self self' hself _
  apply tracks_matchType (by decide)
  · exact (hself ()).seq fun operand => tracks_pure _ _
  · apply tracks_matchType (by decide)
    · exact (hself ()).seq fun operand => tracks_pure _ _
    · exact tracks_parsePostfix (h.mono (Nat.le_refl 0) (by omega))

theorem guarded_operandsRound {operatorOf : TokenType → Option BinaryOperator}
    (hend : operatorOf .eof = none) (h : Tracks 0 (n - 1) p q) :
    Guarded 0 n (operandsRound operatorOf p) (operandsRound operatorOf q) := by
  intro m hm self self' hself node tokens hlength
  cases tokens with
  | nil =>
    unfold TracksOn operandsRound
    rw [run_current_nil, run_current_nil]
    rw [show operatorOf endToken.type = none from hend]
    exact tracksOn_pure node []
  | cons token tokens =>
    rw [List.length_cons] at hlength
    unfold TracksOn operandsRound
    rw [run_current_cons, run_current_cons]
    show TracksOn 0 _ _ (token :: tokens)
    split
    · apply tracksOn_advance
      exact (h.mono (Nat.le_refl 0) (show m ≤ n - 1 by omega)).seq (fun right => hself _) tokens
        (by omega)
    · exact tracksOn_pure node _

theorem tracks_parseBinary {operatorOf : TokenType → Option BinaryOperator}
    (hend : operatorOf .eof = none) (h : Tracks 0 n p q) :
    Tracks 0 n (parseBinary operatorOf p) (parseBinary operatorOf q) :=
  h.seq fun node =>
    (guarded_operandsRound hend (h.mono (Nat.le_refl 0) (Nat.sub_le n 1))).tracks node

theorem tracks_parseTernary (h : Tracks 0 (n - 1) p q) :
    Tracks 0 n (parseTernary p) (parseTernary q) := by
  have hor : Tracks 0 n (parseOr p) (parseOr q) :=
    tracks_parseBinary rfl (tracks_parseBinary rfl (tracks_parseBinary rfl (tracks_parseBinary rfl
      (tracks_parseBinary rfl (tracks_parseBinary rfl ((guarded_unaryRound h).tracks ()))))))
  apply hor.seq
  intro node
  apply tracks_matchType (by decide)
  · apply h.seq
    intro consequent
    apply tracks_expect_bind (by decide)
    intro _
    exact (h.mono (Nat.le_refl 0) (by omega)).seq fun alternate => tracks_pure _ _
  · exact tracks_pure _ _

theorem guarded_expressionRound (n : Nat) : Guarded 0 n expressionRound expressionRound :=
  fun m _ _ _ hself _ => tracks_parseTernary (n := m + 1) (hself ())

theorem tracks_parseExpression (n : Nat) : Tracks 0 n parseExpression parseExpression :=
  (guarded_expressionRound n).tracks ()

theorem guarded_partsRound (n : Nat) : Guarded 0 n partsRound partsRound := by
  intro m hm self self' hself parts tokens hlength
  cases tokens with
  | nil => exact tracksOn_pure parts []
  | cons token tokens =>
    rw [List.length_cons] at hlength
    unfold TracksOn partsRound
    rw [run_current_cons, run_current_cons]
    show TracksOn 0 _ _ (token :: tokens)
    split
    · exact tracksOn_pure parts _
    · exact tracksOn_advance (hself _ tokens (by omega))
    · apply tracksOn_advance
      refine (tracks_parseExpression m).seq (fun node => ?_) tokens (by omega)
      apply tracks_expect_bind (by decide)
      exact fun _ => (hself _).mono (Nat.le_refl 0) (by omega)
    · exact tracksOn_throw 0 _ _

/-! ## 3. The equations -/

theorem parseExpression_eq : parseExpression = parseTernary parseExpression :=
  recursive_eq guarded_expressionRound ()

theorem parseItems_eq {item : TokenParser α} (h : ∀ n, Tracks 0 n item item)
    (close : Option TokenType) (items : List α) :
    parseItems item close items = itemsRound item close (parseItems item close) items :=
  recursive_eq (fun n => guarded_itemsRound close (h n)) items

theorem parseLinks_eq (chain : ASTNode × Bool) : parseLinks parseExpression chain =
    linksRound parseExpression (parseLinks parseExpression) chain :=
  recursive_eq (fun n => guarded_linksRound (tracks_parseExpression (n - 1))) chain

theorem parseUnary_eq : parseUnary parseExpression =
    unaryRound parseExpression (fun _ => parseUnary parseExpression) () :=
  recursive_eq (fun n => guarded_unaryRound (tracks_parseExpression (n - 1))) ()

theorem parseOperands_eq {operatorOf : TokenType → Option BinaryOperator} {operand : TokenParser ASTNode}
    (hend : operatorOf .eof = none) (h : ∀ n, Tracks 0 n operand operand) (node : ASTNode) :
    parseOperands operatorOf operand node =
      operandsRound operatorOf operand (parseOperands operatorOf operand) node :=
  recursive_eq (fun n => guarded_operandsRound hend (h (n - 1))) node

theorem parseParts_eq (parts : Parts) : parseParts parts = partsRound parseParts parts :=
  recursive_eq guarded_partsRound parts

end Clemvion.Expression
