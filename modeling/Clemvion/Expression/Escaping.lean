import Clemvion.Expression.Evaluator
import Clemvion.Expression.Positions
import Clemvion.Expression.RoundTrip

/-!
# Escaping — literal text in a template

`{{` opens an expression, `\{{` stands for the two braces.  The tokenizer knows the escape in two
places, at the start of a segment and inside a text; whichever of them reads it, the escaped text
comes back, and a template that follows it is read as it would be alone.
-/

open Clemvion.Js Clemvion.Js.Value Clemvion.Library

namespace Clemvion.Expression

/-! ## 1. Escaping -/

/-- Every `{{`, from left to right, with a backslash before it. -/
def escapeBraces : List Char → List Char
  | '{' :: '{' :: rest => '\\' :: '{' :: '{' :: escapeBraces rest
  | c :: rest => c :: escapeBraces rest
  | [] => []

def escapeText (s : String) : String := String.ofList (escapeBraces s.toList)

/-- What follows the text is nothing, or opens an expression that the end of the text leaves alone. -/
def Separates (text rest : List Char) : Prop :=
  rest = [] ∨ (∃ after, rest = '{' :: '{' :: after) ∧
    text.getLast? ≠ some '\\' ∧ text.getLast? ≠ some '{'

theorem Separates.tail {c : Char} {text rest : List Char} (h : Separates (c :: text) rest) :
    Separates text rest := by
  rcases h with hend | ⟨hopen, hslash, hbrace⟩
  · exact .inl hend
  · cases text with
    | nil => exact .inr ⟨hopen, by decide, by decide⟩
    | cons d text =>
      rw [List.getLast?_cons_cons] at hslash hbrace
      exact .inr ⟨hopen, hslash, hbrace⟩

theorem Separates.last {c : Char} {rest : List Char} (h : Separates [c] rest) (hne : rest ≠ []) :
    c ≠ '\\' ∧ c ≠ '{' := by
  rcases h with hend | ⟨_, hslash, hbrace⟩
  · exact absurd hend hne
  · refine ⟨?_, ?_⟩
    · rintro rfl
      exact hslash rfl
    · rintro rfl
      exact hbrace rfl

theorem escapeBraces_cons {c : Char} {text : List Char}
    (h : ∀ rest, c = '{' → text ≠ '{' :: rest) :
    escapeBraces (c :: text) = c :: escapeBraces text := by
  rw [escapeBraces]
  intro rest hc htext
  exact h rest hc htext

/-- An escaped text shows a brace first only where the text itself does. -/
theorem head_escapeBraces {text rest after : List Char}
    (h : escapeBraces text ++ rest = '{' :: after) :
    text = [] ∨ ∃ text', text = '{' :: text' ∧ escapeBraces text = '{' :: escapeBraces text' := by
  induction text using escapeBraces.induct with
  | case1 text _ =>
    rw [escapeBraces] at h
    cases h
  | case2 c text hplain _ =>
    rw [escapeBraces_cons (fun rest hc htext => hplain rest hc htext)] at h ⊢
    have hc : c = '{' := (List.cons.inj h).1
    exact .inr ⟨text, by rw [hc], by rw [hc]⟩
  | case3 => exact .inl rfl

/-- Neither the escape nor the opening stands at the front. -/
structure Plain (input : List Char) : Prop where
  notEscaped : ∀ rest, input ≠ '\\' :: '{' :: '{' :: rest
  notOpen : ∀ rest, input ≠ '{' :: '{' :: rest

/-- Where the text has no pair of braces, the escaped text has neither form in front. -/
theorem plain_escapeBraces {c : Char} {text rest : List Char}
    (hplain : ∀ after, c = '{' → text ≠ '{' :: after) (h : Separates (c :: text) rest) :
    Plain (c :: (escapeBraces text ++ rest)) := by
  refine ⟨fun after heq => ?_, fun after heq => ?_⟩
  · obtain ⟨hc, htail⟩ := List.cons.inj heq
    rcases head_escapeBraces htail with rfl | ⟨text', rfl, hescaped⟩
    · have hne : rest ≠ [] := by
        rintro rfl
        cases htail
      exact (h.last hne).1 hc
    · rw [hescaped, List.cons_append] at htail
      rcases head_escapeBraces (List.cons.inj htail).2 with rfl | ⟨text'', rfl, _⟩
      · have hne : rest ≠ [] := by
          rintro rfl
          cases htail
        exact (h.tail.last hne).2 rfl
      · -- a pair of braces in the text would have been escaped
        rw [escapeBraces] at hescaped
        cases hescaped
  · obtain ⟨hc, htail⟩ := List.cons.inj heq
    rcases head_escapeBraces htail with rfl | ⟨text', rfl, _⟩
    · have hne : rest ≠ [] := by
        rintro rfl
        cases htail
      exact (h.last hne).2 hc
    · exact hplain text' hc rfl

/-! ## 2. Reading it back -/

theorem readText_plain {c : Char} {rest : List Char} (h : Plain (c :: rest)) :
    readText (c :: rest) = (c :: (readText rest).1, (readText rest).2) := by
  rw [readText]
  · rintro after rfl rfl
    exact h.notEscaped after rfl
  · rintro after rfl rfl
    exact h.notOpen after rfl

/-- **The text comes back, up to what follows it.** -/
theorem readText_escapeBraces (text rest : List Char) (h : Separates text rest) :
    readText (escapeBraces text ++ rest) = (text, rest) := by
  induction text using escapeBraces.induct with
  | case1 text ih =>
    rw [escapeBraces, List.cons_append, List.cons_append, List.cons_append, readText,
      ih h.tail.tail]
  | case2 c text hplain ih =>
    have hfront := plain_escapeBraces hplain h
    rw [escapeBraces_cons hplain, List.cons_append, readText_plain hfront, ih h.tail]
  | case3 =>
    rcases h with rfl | ⟨⟨after, rfl⟩, _⟩
    · rfl
    · rfl

theorem readTemplateSegment_plain {input : List Char} (h : Plain input) (pos : Nat) :
    readTemplateSegment input pos =
      if (readText input).1 ≠ [] then
        some (⟨.text, String.ofList (readText input).1, pos⟩, (readText input).2)
      else none := by
  unfold readTemplateSegment
  split
  · exact absurd rfl (h.notEscaped _)
  · exact absurd rfl (h.notOpen _)
  · rfl

/-- A text segment is pushed and the scan goes on behind it. -/
theorem run_text (length : Nat) (input next : List Char) (value : String)
    (h : ∀ pos, readTemplateSegment input pos = some (⟨.text, value, pos⟩, next)) :
    ∃ pos : Nat, (tokenizeFrom length ⟨false, 0⟩).run input =
      push ⟨.text, value, pos⟩ (tokenizeFrom length ⟨false, 0⟩) next := by
  cases input with
  | nil => exact nomatch h 0
  | cons c rest =>
    refine ⟨length - ((c :: rest).map utf16Width).sum, ?_⟩
    refine (congrFun (tokenizeFrom_eq length ⟨false, 0⟩) (c :: rest)).trans ?_
    unfold scan
    simp only [Bool.false_eq_true, if_false, h]
    rfl

/-- The tokens in front of those that follow. -/
def prepend (texts : List Token) (x : Except ExpressionError (List Token × List Char)) :
    Except ExpressionError (List Token × List Char) :=
  x.map fun (tokens, rest) => (texts ++ tokens, rest)

theorem push_prepend (token : Token) (texts : List Token) (next : Scanner) {input rest : List Char}
    (h : next.run input = prepend texts (next.run rest)) :
    push token next input = prepend (token :: texts) (next.run rest) := by
  unfold push
  rw [h]
  unfold prepend
  cases next.run rest with
  | error e => rfl
  | ok result => rfl

/-- An escaped text is scanned as tokens of text that say what the text says. -/
theorem tokenizeFrom_escapeBraces (length : Nat) (text rest : List Char) (h : Separates text rest) :
    ∃ texts : List Token, (∀ token ∈ texts, token.type = .text) ∧
      texts.flatMap (fun token => token.value.toList) = text ∧
      (tokenizeFrom length ⟨false, 0⟩).run (escapeBraces text ++ rest) =
        prepend texts ((tokenizeFrom length ⟨false, 0⟩).run rest) := by
  induction text using escapeBraces.induct with
  | case1 text ih =>
    -- the escape in front is a segment of its own
    obtain ⟨texts, htype, hvalue, hrun⟩ := ih h.tail.tail
    obtain ⟨pos, hsegment⟩ := run_text length ('\\' :: '{' :: '{' :: (escapeBraces text ++ rest))
      (escapeBraces text ++ rest) "\x7b\x7b" fun _ => rfl
    refine ⟨⟨.text, "\x7b\x7b", pos⟩ :: texts, ?_, ?_, ?_⟩
    · intro token htoken
      rcases List.mem_cons.mp htoken with rfl | htoken
      · rfl
      · exact htype token htoken
    · have hbraces : "\x7b\x7b".toList = ['{', '{'] := by decide
      rw [List.flatMap_cons, hvalue, hbraces]
      rfl
    · rw [escapeBraces]
      exact hsegment.trans (push_prepend _ _ _ hrun)
  | case2 c text hplain _ =>
    -- any other text is one segment, to its end
    have hfront : Plain (c :: (escapeBraces text ++ rest)) := plain_escapeBraces hplain h
    have hread : readText (c :: (escapeBraces text ++ rest)) = (c :: text, rest) := by
      have hall := readText_escapeBraces (c :: text) rest h
      rwa [escapeBraces_cons hplain] at hall
    obtain ⟨pos, hsegment⟩ := run_text length (c :: (escapeBraces text ++ rest)) rest
      (String.ofList (c :: text)) fun pos => by
        rw [readTemplateSegment_plain hfront, hread, if_pos (List.cons_ne_nil c text)]
    refine ⟨[⟨.text, String.ofList (c :: text), pos⟩], ?_, ?_, ?_⟩
    · intro token htoken
      rw [List.mem_singleton.mp htoken]
    · rw [List.flatMap_cons, List.flatMap_nil, List.append_nil, String.toList_ofList]
    · rw [escapeBraces_cons hplain]
      exact hsegment
  | case3 =>
    refine ⟨[], fun _ htoken => absurd htoken List.not_mem_nil, rfl, ?_⟩
    show (tokenizeFrom length ⟨false, 0⟩).run rest = _
    unfold prepend
    cases (tokenizeFrom length ⟨false, 0⟩).run rest with
    | error e => rfl
    | ok result => rfl

/-! ## 3. Parsing -/

/-- The parts of a template. -/
def templateParts (template : String) : Except ExpressionError Parts := do
  let tokens ← tokenize template
  let result ← (parseParts []).run tokens
  return result.1

theorem templateParts_eq_ok {template : String} {parts : Parts}
    (h : templateParts template = .ok parts) : ∃ tokens rest, tokenize template = .ok tokens ∧
      (parseParts []).run tokens = .ok (parts, rest) := by
  unfold templateParts at h
  cases htokens : tokenize template with
  | error e =>
    rw [htokens] at h
    cases h
  | ok tokens =>
    rw [htokens] at h
    cases hparts : (parseParts []).run tokens with
    | error e =>
      have herror : (parseParts []).run tokens >>= (fun result => pure result.1) = .ok parts := h
      rw [hparts] at herror
      cases herror
    | ok result =>
      have hok : (parseParts []).run tokens >>= (fun result => pure result.1) = .ok parts := h
      rw [hparts] at hok
      obtain rfl : result.1 = parts := Except.ok.inj hok
      exact ⟨tokens, result.2, rfl, hparts⟩

/-- Tokens of text become parts of text. -/
theorem run_parseParts_texts (texts tokens : List Token) (before : Parts)
    (h : ∀ token ∈ texts, token.type = .text) :
    (parseParts before).run (texts ++ tokens) =
      (parseParts (before ++ texts.map fun token => .inl token.value)).run tokens := by
  induction texts generalizing before with
  | nil => rw [List.nil_append, List.map_nil, List.append_nil]
  | cons token texts ih =>
    have htype : token.type = .text := h token List.mem_cons_self
    rw [List.cons_append, parseParts_eq before]
    unfold partsRound
    rw [run_current_cons]
    simp only [htype]
    rw [run_advance_cons, ih _ fun t ht => h t (List.mem_cons_of_mem _ ht), List.map_cons,
      List.append_assoc]
    rfl

/-- The tokens of a text that stands alone, behind the tokens that were read before it. -/
theorem run_parseParts_same {tokens tokens' rest : List Token} {parts : Parts}
    (hsame : List.Forall₂ Token.Same tokens tokens') (before : Parts)
    (h : (parseParts []).run tokens = .ok (parts, rest)) :
    ∃ rest', (parseParts before).run tokens' = .ok (before ++ parts, rest') := by
  have hblind := blind_parseParts before [] tokens tokens' hsame
  rw [List.append_nil, h] at hblind
  cases hrun : (parseParts before).run tokens' with
  | error e =>
    rw [hrun] at hblind
    exact hblind.elim
  | ok result =>
    rw [hrun] at hblind
    exact ⟨result.2, by rw [← hblind.1]⟩

theorem toList_escapeText_append (s tail : String) :
    (escapeText s ++ tail).toList = escapeBraces s.toList ++ tail.toList := by
  rw [String.toList_append, escapeText, String.toList_ofList]

/-- **A text in front of a template.** The parts of the template stay what they were. -/
theorem templateParts_escapeText {s tail : String} {parts : Parts}
    (hseparates : Separates s.toList tail.toList)
    (hlength : utf16Length (escapeText s ++ tail) ≤ maxExpressionLength)
    (h : templateParts tail = .ok parts) : ∃ texts : List String, String.join texts = s ∧
      templateParts (escapeText s ++ tail) = .ok (texts.map .inl ++ parts) := by
  obtain ⟨tokens, rest, htokenize, hparse⟩ := templateParts_eq_ok h
  unfold tokenize at htokenize
  split_ifs at htokenize
  cases halone : (tokenizeFrom (utf16Length tail) ⟨false, 0⟩).run tail.toList with
  | error e =>
    rw [halone] at htokenize
    cases htokenize
  | ok scanned =>
    rw [halone] at htokenize
    obtain rfl : scanned.1 = tokens := Except.ok.inj htokenize
    obtain ⟨texts, htype, hvalue, hrun⟩ := tokenizeFrom_escapeBraces
      (utf16Length (escapeText s ++ tail)) s.toList tail.toList hseparates
    have hscan := (sameScan_tokenizeFrom (utf16Length tail) (utf16Length (escapeText s ++ tail))
      ⟨false, 0⟩).run tail.toList
    rw [halone] at hscan
    cases hbehind : (tokenizeFrom (utf16Length (escapeText s ++ tail)) ⟨false, 0⟩).run tail.toList with
    | error e =>
      rw [hbehind] at hscan
      exact hscan.elim
    | ok scanned' =>
      rw [hbehind] at hscan hrun
      obtain ⟨rest', hparse'⟩ := run_parseParts_same hscan.1
        (texts.map fun token => .inl token.value) hparse
      refine ⟨texts.map Token.value, ?_, ?_⟩
      · rw [← String.toList_inj, String.toList_join, ← hvalue, List.flatMap_map]
      · have htokens : tokenize (escapeText s ++ tail) = .ok (texts ++ scanned'.1) := by
          unfold tokenize
          rw [if_neg (Nat.not_lt.mpr hlength), toList_escapeText_append, hrun]
          rfl
        unfold templateParts
        rw [htokens]
        show (parseParts []).run (texts ++ scanned'.1) >>= (fun result => pure result.1) = _
        rw [run_parseParts_texts texts scanned'.1 [] htype, List.nil_append, hparse', List.map_map]
        rfl

/-! ## 4. Evaluating -/

/-- `evaluate(template, context, options)`. -/
def evaluateTemplate (host : Host) (template : String) (context : String → Option Value)
    (options : EvalOptions) : Evaluation Value := do
  let tokens ← raising (ofExcept (tokenize template))
  let ast ← raising (ofExcept (parse tokens))
  evaluate host (newEvaluator context options) ast

/-- What an evaluation comes to, with the number of the next reading of the world. -/
def outcome {α : Type} (x : Evaluation α) (n : Nat) : Except Abrupt α × Nat := x.run.run n

section Evaluating

variable (host : Host) (evaluator : Evaluator)

/-- The limits are not reached at this depth and this reading of the clock. -/
def WithinLimits (depth n : Nat) : Prop :=
  evaluator.maxDepth.le (.finite depth) = false ∧ evaluator.timeout.lt (host.elapsed n) = false

variable {host evaluator}

theorem outcome_bind {α β : Type} {x : Evaluation α} {n n' : Nat} {a : α}
    (h : outcome x n = (.ok a, n')) (f : α → Evaluation β) :
    outcome (x >>= f) n = outcome (f a) n' := by
  have hx : x.run.run n = (.ok a, n') := h
  show (x >>= f).run.run n = (f a).run.run n'
  simp only [ExceptT.run_bind, StateT.run_bind, hx]
  rfl

theorem outcome_raising {α : Type} {x : Effect α} {n n' : Nat} {a : α}
    (h : x.run.run n = (.ok a, n')) : outcome (raising x) n = (.ok a, n') := by
  unfold outcome raising
  rw [ExceptT.run_mk, StateT.run_bind, h]
  rfl

theorem outcome_entering {depth n : Nat} (h : WithinLimits host evaluator depth n)
    (node : Nat → Evaluation Value) :
    outcome (entering host evaluator depth node) n = outcome (node (depth + 1)) (n + 1) := by
  have hlimits : outcome (raising (checkLimits host evaluator depth)) n = (.ok (), n + 1) := by
    have hcheck : (checkLimits host evaluator depth).run.run n = (.ok (), n + 1) := by
      unfold checkLimits
      rw [if_neg (by rw [h.1]; exact Bool.false_ne_true)]
      show (if evaluator.timeout.lt (host.elapsed n) = true then _ else _ : Effect Unit).run.run (n + 1) = _
      rw [if_neg (by rw [h.2]; exact Bool.false_ne_true)]
      rfl
    exact outcome_raising hcheck
  exact outcome_bind hlimits fun _ => node (depth + 1)

/-- The texts of a template stand before whatever the other parts come to. -/
theorem evaluateParts_texts (texts : List String) (parts : Parts) (depth : Nat) :
    evaluateParts host evaluator (texts.map .inl ++ parts) depth = do
      let rest ← evaluateParts host evaluator parts depth
      return texts ++ rest := by
  induction texts with
  | nil => exact (bind_pure _).symm
  | cons text texts ih =>
    rw [List.map_cons, List.cons_append, evaluateParts, ih, bind_assoc]
    simp only [pure_bind, List.cons_append]

theorem outcome_evaluateTemplate {template : String} {parts : Parts}
    (h : templateParts template = .ok parts) (context : String → Option Value) (options : EvalOptions)
    (n : Nat) : outcome (evaluateTemplate host template context options) n =
      outcome (evaluate host (newEvaluator context options) (ofParts parts)) n := by
  obtain ⟨tokens, rest, htokenize, hparts⟩ := templateParts_eq_ok h
  have hparse : parse tokens = .ok (ofParts parts) := by
    unfold parse
    rw [hparts]
    rfl
  unfold evaluateTemplate
  rw [htokenize, outcome_bind (outcome_raising (by rfl)), hparse,
    outcome_bind (outcome_raising (by rfl))]

theorem ofParts_texts {texts : List String} {s : String} (hjoin : String.join texts = s) (hs : s ≠ "")
    (parts : Parts) : ofParts (texts.map .inl ++ parts) = .templateLiteral (texts.map .inl ++ parts) := by
  cases texts with
  | nil => exact absurd hjoin.symm hs
  | cons text texts => rfl

theorem outcome_joinParts {texts : List String} (h : utf16Length (String.join texts) ≤ maxStringResult)
    (n : Nat) :
    outcome (raising (ofExcept (joinParts texts))) n = (.ok (.str (String.join texts)), n) := by
  unfold joinParts
  rw [if_neg (Nat.not_lt.mpr h)]
  rfl

/-- The texts alone. -/
theorem outcome_texts {texts : List String} (h : utf16Length (String.join texts) ≤ maxStringResult)
    (depth n : Nat) :
    outcome (evaluateNode host evaluator (.templateLiteral (texts.map .inl)) depth) n =
      (.ok (.str (String.join texts)), n) := by
  have hparts : outcome (evaluateParts host evaluator (texts.map .inl) depth) n = (.ok texts, n) := by
    have hall := @evaluateParts_texts host evaluator texts [] depth
    rw [List.append_nil] at hall
    rw [hall]
    show (Except.ok (texts ++ []), n) = _
    rw [List.append_nil]
  rw [evaluateNode, outcome_bind hparts]
  exact outcome_joinParts h n

/-- The texts, and one expression that comes to a string. -/
theorem outcome_texts_expression {texts : List String} {node : ASTNode} {v : String} {depth n n' : Nat}
    (hnode : outcome (entering host evaluator depth (evaluateNode host evaluator node)) n =
      (.ok (.str v), n'))
    (h : utf16Length (String.join texts ++ v) ≤ maxStringResult) :
    outcome (evaluateNode host evaluator (.templateLiteral (texts.map .inl ++ [.inr node])) depth) n =
      (.ok (.str (String.join texts ++ v)), n') := by
  have hjoin : String.join (texts ++ [v]) = String.join texts ++ v := by
    rw [String.join_append, String.join_cons, String.join_nil, String.append_empty]
  have hrest : outcome (evaluateParts host evaluator [.inr node] depth) n = (.ok [v], n') := by
    rw [evaluateParts, outcome_bind hnode]
    rfl
  have hparts : outcome (evaluateParts host evaluator (texts.map .inl ++ [.inr node]) depth) n =
      (.ok (texts ++ [v]), n') := by
    rw [evaluateParts_texts, outcome_bind hrest]
    rfl
  rw [evaluateNode, outcome_bind hparts, ← hjoin]
  exact outcome_joinParts (by rwa [hjoin]) n'

end Evaluating

/-! ## 5. The length of an escaped text -/

theorem utf16Width_le (c : Char) : utf16Width c ≤ 2 := by
  unfold utf16Width
  split_ifs <;> omega

theorem sum_width_le (cs : List Char) : (cs.map utf16Width).sum ≤ 2 * cs.length := by
  induction cs with
  | nil => exact Nat.zero_le _
  | cons c cs ih =>
    have hwidth := utf16Width_le c
    rw [List.map_cons, List.sum_cons, List.length_cons]
    omega

theorem sum_width_escapeBraces_le (text : List Char) :
    ((escapeBraces text).map utf16Width).sum ≤ 2 * text.length := by
  induction text using escapeBraces.induct with
  | case1 text ih =>
    have hslash : utf16Width '\\' = 1 := by decide
    have hbrace : utf16Width '{' = 1 := by decide
    rw [escapeBraces]
    simp only [List.map_cons, List.sum_cons, List.length_cons, hslash, hbrace]
    omega
  | case2 c text hplain ih =>
    have hwidth := utf16Width_le c
    rw [escapeBraces_cons hplain, List.map_cons, List.sum_cons, List.length_cons]
    omega
  | case3 => exact Nat.zero_le _

/-! ## 6. Escaped text in a template -/

/-- How much deeper an expression stands behind this text, and how many limit checks later. -/
def level (s : String) : Nat := if s = "" then 0 else 1

/-- The template of an expression. -/
def braced (expression : String) : String := "\x7b\x7b " ++ expression ++ " \x7d\x7d"

theorem toList_braced (expression : String) :
    ∃ after, (braced expression).toList = '{' :: '{' :: after := by
  refine ⟨' ' :: (expression.toList ++ " \x7d\x7d".toList), ?_⟩
  unfold braced
  rw [String.toList_append, String.toList_append]
  rfl

theorem templateParts_empty : templateParts "" = .ok [] := by
  have hscan : tokenize "" = .ok [⟨.eof, "", 0⟩] := by rfl
  unfold templateParts
  rw [hscan]
  show (parseParts []).run [⟨.eof, "", 0⟩] >>= (fun result => pure result.1) = .ok []
  rw [parseParts_eq]
  rfl

theorem evaluate_escapeText_alone (host : Host) (context : String → Option Value)
    (options : EvalOptions) (s : String) (n : Nat) (hlength : s.length ≤ 5000)
    (hlimits : WithinLimits host (newEvaluator context options) 0 n) :
    outcome (evaluateTemplate host (escapeText s) context options) n = (.ok (.str s), n + 1) := by
  have hchars : s.toList.length ≤ 5000 := hlength
  have hescaped : utf16Length (escapeText s ++ "") ≤ maxExpressionLength := by
    have hwidth := sum_width_escapeBraces_le s.toList
    unfold utf16Length maxExpressionLength
    rw [toList_escapeText_append, String.toList_empty, List.append_nil]
    omega
  have hresult : utf16Length s ≤ maxStringResult := by
    have hwidth := sum_width_le s.toList
    unfold utf16Length maxStringResult
    omega
  by_cases hs : s = ""
  · subst hs
    have hempty : escapeText "" = "" := rfl
    rw [hempty, outcome_evaluateTemplate templateParts_empty]
    exact outcome_entering hlimits _
  · obtain ⟨texts, hjoin, hparts⟩ :=
      templateParts_escapeText (.inl rfl) hescaped templateParts_empty
    rw [String.append_empty, List.append_nil] at hparts
    rw [outcome_evaluateTemplate hparts]
    unfold evaluate
    rw [outcome_entering hlimits]
    have hliteral := ofParts_texts hjoin hs []
    rw [List.append_nil] at hliteral
    rw [hliteral, outcome_texts (by rwa [hjoin]), hjoin]

theorem evaluate_escapeText_expression (host : Host) (context : String → Option Value)
    (options : EvalOptions) (s expression v : String) (node : ASTNode) (n n' : Nat)
    (hslash : s.toList.getLast? ≠ some '\\') (hbrace : s.toList.getLast? ≠ some '{')
    (hparts : templateParts (braced expression) = .ok [.inr node])
    (hlength : utf16Length (escapeText s ++ braced expression) ≤ maxExpressionLength)
    (hresult : s = "" ∨ utf16Length (s ++ v) ≤ maxStringResult)
    (hlimits : s = "" ∨ WithinLimits host (newEvaluator context options) 0 n)
    (hnode : outcome (entering host (newEvaluator context options) (level s)
      (evaluateNode host (newEvaluator context options) node)) (n + level s) = (.ok (.str v), n')) :
    outcome (evaluateTemplate host (escapeText s ++ braced expression) context options) n =
      (.ok (.str (s ++ v)), n') := by
  by_cases hs : s = ""
  · subst hs
    have hempty : escapeText "" = "" := rfl
    rw [hempty, String.empty_append, String.empty_append, outcome_evaluateTemplate hparts]
    exact hnode
  · obtain ⟨texts, hjoin, htemplate⟩ :=
      templateParts_escapeText (.inr ⟨toList_braced expression, hslash, hbrace⟩)
      hlength hparts
    rw [outcome_evaluateTemplate htemplate]
    unfold evaluate
    rw [outcome_entering (hlimits.resolve_left hs), ofParts_texts hjoin hs]
    have hlevel : level s = 1 := if_neg hs
    rw [hlevel] at hnode
    rw [outcome_texts_expression hnode (by rw [hjoin]; exact hresult.resolve_left hs), hjoin]

/-- **Escaping.** A text of at most 5000 characters comes back from its escaped form, and in front
of an expression it is joined to the string that the expression comes to there, within the lengths
of a template and of a result. -/
theorem evaluateTemplate_escapeText (host : Host) (context : String → Option Value)
    (options : EvalOptions) :
    (∀ s n, s.length ≤ 5000 → WithinLimits host (newEvaluator context options) 0 n →
      outcome (evaluateTemplate host (escapeText s) context options) n = (.ok (.str s), n + 1)) ∧
    (∀ s expression v node n n', s.toList.getLast? ≠ some '\\' → s.toList.getLast? ≠ some '{' →
      templateParts (braced expression) = .ok [.inr node] →
      utf16Length (escapeText s ++ braced expression) ≤ maxExpressionLength →
      s = "" ∨ utf16Length (s ++ v) ≤ maxStringResult →
      s = "" ∨ WithinLimits host (newEvaluator context options) 0 n →
      outcome (entering host (newEvaluator context options) (level s)
        (evaluateNode host (newEvaluator context options) node)) (n + level s) = (.ok (.str v), n') →
      outcome (evaluateTemplate host (escapeText s ++ braced expression) context options) n =
        (.ok (.str (s ++ v)), n')) := by
  refine ⟨evaluate_escapeText_alone host context options, ?_⟩
  intro s expression v node n n' hslash hbrace hparts hlength hresult hlimits hnode
  exact evaluate_escapeText_expression host context options s expression v node n n' hslash hbrace
    hparts hlength hresult hlimits hnode

/-! ## 7. The limits of a template -/

section Limits

variable {host : Host} {evaluator : Evaluator}

theorem outcome_bind_error {α β : Type} {x : Evaluation α} {n n' : Nat} {e : Abrupt}
    (h : outcome x n = (.error e, n')) (f : α → Evaluation β) :
    outcome (x >>= f) n = (.error e, n') := by
  have hx : x.run.run n = (.error e, n') := h
  show (x >>= f).run.run n = _
  simp only [ExceptT.run_bind, StateT.run_bind, hx]
  rfl

theorem outcome_entering_error {depth n : Nat} (h : ¬ WithinLimits host evaluator depth n)
    (node : Nat → Evaluation Value) :
    ∃ e n', outcome (entering host evaluator depth node) n = (.error e, n') := by
  have hcheck : ∃ e n', (checkLimits host evaluator depth).run.run n = (.error e, n') := by
    unfold checkLimits
    by_cases hdepth : evaluator.maxDepth.le (.finite depth) = true
    · rw [if_pos hdepth]
      exact ⟨_, _, rfl⟩
    · have htimeout : evaluator.timeout.lt (host.elapsed n) = true := by
        by_contra hne
        exact h ⟨Bool.eq_false_iff.mpr hdepth, Bool.eq_false_iff.mpr hne⟩
      rw [if_neg hdepth]
      show ∃ e n', (if evaluator.timeout.lt (host.elapsed n) = true then _ else _ : Effect Unit).run.run
        (n + 1) = (.error e, n')
      rw [if_pos htimeout]
      exact ⟨_, _, rfl⟩
  obtain ⟨e, n', hrun⟩ := hcheck
  refine ⟨.error e, n', outcome_bind_error ?_ _⟩
  unfold outcome raising
  rw [ExceptT.run_mk, StateT.run_bind, hrun]
  rfl

theorem outcome_texts_error (texts : List String) {node : ASTNode} {depth n : Nat}
    (h : ¬ WithinLimits host evaluator depth n) : ∃ e n',
      outcome (evaluateNode host evaluator (.templateLiteral (texts.map .inl ++ [.inr node])) depth) n =
        (.error e, n') := by
  obtain ⟨e, n', hnode⟩ := outcome_entering_error h (evaluateNode host evaluator node)
  refine ⟨e, n', ?_⟩
  rw [evaluateNode, evaluateParts_texts, evaluateParts]
  exact outcome_bind_error (outcome_bind_error (outcome_bind_error hnode _) _) _

end Limits

/-- The literal that says this string. -/
def literal (v : String) : String := String.ofList (Lexeme.spelled .double ⟨.string, v⟩)

theorem braced_literal (v : String) :
    braced (literal v) = sourceText ⟨.double, false⟩ (.stringLiteral v) := by
  rw [← String.toList_inj]
  unfold braced literal sourceText
  rw [String.toList_append, String.toList_append, String.toList_ofList, String.toList_ofList]
  simp [print, spell]

theorem templateParts_literal {v : String} (h : utf16Length (braced (literal v)) ≤ maxExpressionLength) :
    templateParts (braced (literal v)) = .ok [.inr (.stringLiteral v)] := by
  rw [braced_literal] at h ⊢
  obtain ⟨tokens, hlexemes, htokenize⟩ :=
    tokenize_sourceText ⟨.double, false⟩ (show Printable (.stringLiteral v) from trivial) h
  obtain ⟨last, hparts⟩ :=
    run_parseParts_print false (show Printable (.stringLiteral v) from trivial) hlexemes
  unfold templateParts
  rw [htokenize]
  show (parseParts []).run tokens >>= (fun result => pure result.1) = _
  rw [hparts]
  rfl

/-- What is said of a text and an expression that comes to a string. -/
def Concatenates (host : Host) (options : EvalOptions) (s expression v : String) : Prop :=
  (outcome (evaluateTemplate host (braced expression) (fun _ => none) options) 0).1 = .ok (.str v) →
    (outcome (evaluateTemplate host (escapeText s ++ braced expression) (fun _ => none) options) 0).1 =
      .ok (.str (s ++ v))

theorem outcome_literal {host : Host} {options : EvalOptions} {v : String}
    (h : utf16Length (braced (literal v)) ≤ maxExpressionLength)
    (hlimits : WithinLimits host (newEvaluator (fun _ => none) options) 0 0) :
    (outcome (evaluateTemplate host (braced (literal v)) (fun _ => none) options) 0).1 =
      .ok (.str v) := by
  rw [outcome_evaluateTemplate (templateParts_literal h)]
  show (outcome (entering host (newEvaluator (fun _ => none) options) 0
    (evaluateNode host (newEvaluator (fun _ => none) options) (.stringLiteral v))) 0).1 = _
  rw [outcome_entering hlimits]
  rfl

/-- Behind a text, the expression is evaluated a level deeper and a reading of the clock later. -/
theorem not_concatenates_of_limits {host : Host} {options : EvalOptions} {s v : String} (hs : s ≠ "")
    (hslash : s.toList.getLast? ≠ some '\\') (hbrace : s.toList.getLast? ≠ some '{')
    (hlength : utf16Length (escapeText s ++ braced (literal v)) ≤ maxExpressionLength)
    (halone : utf16Length (braced (literal v)) ≤ maxExpressionLength)
    (hroot : WithinLimits host (newEvaluator (fun _ => none) options) 0 0)
    (hinside : ¬ WithinLimits host (newEvaluator (fun _ => none) options) 1 1) :
    ¬ Concatenates host options s (literal v) v := by
  intro hconcatenates
  obtain ⟨texts, hjoin, htemplate⟩ := templateParts_escapeText
    (.inr ⟨toList_braced (literal v), hslash, hbrace⟩) hlength (templateParts_literal halone)
  have hrun := hconcatenates (outcome_literal halone hroot)
  rw [outcome_evaluateTemplate htemplate, ofParts_texts hjoin hs] at hrun
  unfold evaluate at hrun
  rw [outcome_entering hroot] at hrun
  obtain ⟨e, n', herror⟩ := outcome_texts_error texts hinside
  rw [herror] at hrun
  cases hrun

/-- The text `aaa…a`. -/
def letters (n : Nat) : String := String.ofList (List.replicate n 'a')

theorem toList_letters (n : Nat) : (letters n).toList = List.replicate n 'a' := String.toList_ofList

theorem escapeText_letters (n : Nat) : escapeText (letters n) = letters n := by
  have hplain : escapeBraces (List.replicate n 'a') = List.replicate n 'a' := by
    induction n with
    | zero => rfl
    | succ n ih =>
      rw [List.replicate_succ, escapeBraces_cons (fun _ hc => absurd hc (by decide)), ih]
  unfold escapeText
  rw [toList_letters, hplain]
  rfl

theorem utf16Length_braced_letters (n : Nat) : utf16Length (braced (literal (letters n))) = n + 8 := by
  have hplain : (List.replicate n 'a').flatMap (escapeCharacter '"') = List.replicate n 'a' := by
    induction n with
    | zero => rfl
    | succ n ih =>
      rw [List.replicate_succ, List.flatMap_cons, ih]
      rfl
  have hliteral : (literal (letters n)).toList = '"' :: List.replicate n 'a' ++ ['"'] := by
    refine String.toList_ofList.trans ?_
    show '"' :: (letters n).toList.flatMap (escapeCharacter '"') ++ ['"'] = _
    rw [toList_letters, hplain]
  have hwidth : utf16Width 'a' = 1 ∧ utf16Width '"' = 1 := by decide
  have hopen : ("\x7b\x7b ".toList.map utf16Width).sum = 3 := by decide
  have hclose : (" \x7d\x7d".toList.map utf16Width).sum = 3 := by decide
  unfold utf16Length braced
  rw [String.toList_append, String.toList_append, hliteral]
  simp only [List.map_append, List.sum_append, List.map_cons, List.sum_cons, List.map_replicate,
    List.sum_replicate, hwidth.1, hwidth.2, hopen, hclose, List.map_nil, List.sum_nil, smul_eq_mul]
  omega

/-- An escaped pair of braces, and a letter before an expression. -/
theorem evaluateTemplate_escapeText_braces :
    outcome (evaluateTemplate exactHost (escapeText "\x7b\x7ba") (fun _ => none) ⟨none, none, none⟩) 0 =
        (.ok (.str "\x7b\x7ba"), 1) ∧
      outcome (evaluateTemplate exactHost (escapeText "a" ++ braced (literal "b")) (fun _ => none)
        ⟨none, none, none⟩) 0 = (.ok (.str "ab"), 2) := by
  have hroot : WithinLimits exactHost (newEvaluator (fun _ => none) ⟨none, none, none⟩) 0 0 :=
    ⟨by decide, by decide⟩
  have hinside : WithinLimits exactHost (newEvaluator (fun _ => none) ⟨none, none, none⟩) 1 1 :=
    ⟨by decide, by decide⟩
  have h := evaluateTemplate_escapeText exactHost (fun _ => none) ⟨none, none, none⟩
  exact ⟨h.1 "\x7b\x7ba" 0 (by decide) hroot,
    h.2 "a" (literal "b") "b" (.stringLiteral "b") 0 2 (by decide) (by decide)
      (templateParts_literal (by decide)) (by decide) (.inr (by decide)) (.inr hroot)
      (outcome_entering hinside _)⟩

/-- A host whose clock jumps past the timeout after its first reading. -/
def lateHost : Host := { exactHost with elapsed := fun n => if n = 0 then .finite 0 else .finite 1000 }

/-- Two texts of 5000 characters make no template; and an expression that stands behind a text may
reach the depth or the time that it stays within alone. -/
theorem evaluateTemplate_escapeText_limits :
    ¬ Concatenates exactHost ⟨none, none, none⟩ (letters 5000) (literal (letters 5000))
        (letters 5000) ∧
      ¬ Concatenates exactHost ⟨none, none, some (.finite 1)⟩ "a" (literal "b") "b" ∧
      ¬ Concatenates lateHost ⟨none, none, none⟩ "a" (literal "b") "b" ∧
      (letters 5000).length = 5000 ∧ (letters 5000).toList.getLast? = some 'a' := by
  have hb : utf16Length (braced (literal "b")) ≤ maxExpressionLength := by decide
  have hab : utf16Length (escapeText "a" ++ braced (literal "b")) ≤ maxExpressionLength := by decide
  refine ⟨fun hconcatenates => ?_, ?_, ?_, ?_, ?_⟩
  · have halone := utf16Length_braced_letters 5000
    have hlong : utf16Length (letters 5000 ++ braced (literal (letters 5000))) > maxExpressionLength := by
      have hletters : utf16Length (letters 5000) = 5000 := by
        have hwidth : utf16Width 'a' = 1 := by decide
        unfold utf16Length
        rw [toList_letters, List.map_replicate, List.sum_replicate, hwidth]
        rfl
      unfold utf16Length at halone hletters ⊢
      rw [String.toList_append, List.map_append, List.sum_append, halone, hletters]
      decide
    have hrun := hconcatenates (outcome_literal (by rw [halone]; decide) ⟨by decide, by decide⟩)
    rw [escapeText_letters] at hrun
    unfold evaluateTemplate tokenize at hrun
    rw [if_pos hlong] at hrun
    cases hrun
  · exact not_concatenates_of_limits (by decide) (by decide) (by decide) hab hb
      ⟨by decide, by decide⟩ (fun h => absurd h.1 (by decide))
  · exact not_concatenates_of_limits (by decide) (by decide) (by decide) hab hb
      ⟨by decide, by decide⟩ (fun h => absurd h.2 (by decide))
  · show (letters 5000).toList.length = 5000
    rw [toList_letters, List.length_replicate]
  · rw [toList_letters]
    exact List.getLast?_replicate ..

end Clemvion.Expression
