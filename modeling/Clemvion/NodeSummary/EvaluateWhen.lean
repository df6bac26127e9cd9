import Clemvion.NodeSummary.RuleGrammar

/-!
# EvaluateWhen — the evaluator and the grammar

The scans of the evaluator pass over everything that is not the sign they look for, and so find
the operators of the grammar.
-/

open Clemvion.Js Clemvion.Library

namespace Clemvion.NodeSummary

/-! ## 1. Scans -/

/-- A scan goes over the text, with `rest` behind it, and never stops at the top level. -/
def Passes (stop : Text → Bool) (rest : Text) : Int → Text → Int → Prop
  | depth, [], depth' => depth = depth'
  | depth, ch :: text, depth' =>
    if ch = '(' then Passes stop rest (depth + 1) text depth'
    else if ch = ')' then Passes stop rest (depth - 1) text depth'
    else (depth = 0 → stop (ch :: (text ++ rest)) = false) ∧ Passes stop rest depth text depth'

variable {stop : Text → Bool} {rest text text' : Text} {depth depth' depth'' : Int}

theorem Passes.append (h : Passes stop (text' ++ rest) depth text depth')
    (h' : Passes stop rest depth' text' depth'') : Passes stop rest depth (text ++ text') depth'' := by
  induction text generalizing depth with
  | nil =>
    obtain rfl : depth = depth' := h
    exact h'
  | cons ch text ih =>
    rw [Passes] at h
    rw [List.cons_append, Passes]
    split_ifs at h ⊢ with hopen hclose
    · exact ih h
    · exact ih h
    -- at the top level the scan looks at all that follows, the second text included
    · rw [List.append_assoc]
      exact ⟨h.1, ih h.2⟩

/-- Text without brackets, none of whose characters the scan looks for. -/
theorem passes_plain (hparens : '(' ∉ text ∧ ')' ∉ text)
    (hstop : ∀ c ∈ text, ∀ more, stop (c :: more) = false) : Passes stop rest depth text depth := by
  induction text with
  | nil => rfl
  | cons ch text ih =>
    have hopen : ch ≠ '(' := (List.ne_of_not_mem_cons hparens.1).symm
    have hclose : ch ≠ ')' := (List.ne_of_not_mem_cons hparens.2).symm
    rw [Passes, if_neg hopen, if_neg hclose]
    refine ⟨fun _ => hstop ch (List.mem_cons_self ..) _, ih ⟨?_, ?_⟩ ?_⟩
    · exact fun h => hparens.1 (List.mem_cons_of_mem _ h)
    · exact fun h => hparens.2 (List.mem_cons_of_mem _ h)
    · exact fun c hc => hstop c (List.mem_cons_of_mem _ hc)

/-- Inside of brackets nothing is looked for. -/
theorem passes_inside (hparens : '(' ∉ text ∧ ')' ∉ text) (hdepth : depth ≠ 0) :
    Passes stop rest depth text depth := by
  induction text with
  | nil => rfl
  | cons ch text ih =>
    have hopen : ch ≠ '(' := (List.ne_of_not_mem_cons hparens.1).symm
    have hclose : ch ≠ ')' := (List.ne_of_not_mem_cons hparens.2).symm
    rw [Passes, if_neg hopen, if_neg hclose]
    refine ⟨fun h => absurd h hdepth, ih ⟨?_, ?_⟩⟩
    · exact fun h => hparens.1 (List.mem_cons_of_mem _ h)
    · exact fun h => hparens.2 (List.mem_cons_of_mem _ h)

/-- The scan looks for none of the characters of operands and spaces. -/
def Quiet (stop : Text → Bool) : Prop :=
  ∀ c, isOperandChar c = true ∨ isJsSpace c = true → ∀ more, stop (c :: more) = false

theorem Quiet.passes_blank (h : Quiet stop) (hblank : Blank text) :
    Passes stop rest depth text depth :=
  passes_plain (parens_notMem fun c hc => .inr (hblank c hc)) fun c hc => h c (.inr (hblank c hc))

theorem Quiet.passes_operand (h : Quiet stop) {operand : Operand} (ht : OperandText operand text) :
    Passes stop rest 0 text 0 := by
  -- a path or a word has no brackets; the brackets of `length` hide what is inside
  rcases ht.shape with ⟨-, hchars⟩ | ⟨inner, rfl, hparens⟩
  · exact passes_plain (parens_notMem fun c hc => .inl (hchars c hc)) fun c hc =>
      h c (.inl (hchars c hc))
  · have hname : ∀ more, Passes stop more 0 "length(".toList 1 := by
      intro more
      have hletters : ∀ c ∈ "length".toList, isOperandChar c = true :=
        List.all_eq_true.mp (by decide)
      have hplain : Passes stop (['('] ++ more) 0 "length".toList 0 :=
        passes_plain (by decide) fun c hc => h c (.inl (hletters c hc))
      exact hplain.append rfl
    exact ((hname _).append (passes_inside hparens (by omega))).append rfl

/-! ## 2. Finding the operator -/

/-- The test of `findComparison`. -/
def stopsAtOperator (text : Text) : Bool := (operatorAt text).isSome

theorem operatorAt_eq_none {c : Char} (h : c ∉ ['=', '!', '>', '<']) (more : Text) :
    operatorAt (c :: more) = none := by
  have hfirst : ∀ op : ComparisonOperator, ∃ d ∈ ['=', '!', '>', '<'], ∃ tail, op.text = d :: tail := by
    intro op
    cases op
    all_goals exact ⟨_, by decide, _, rfl⟩
  refine List.find?_eq_none.mpr fun op _ => ?_
  obtain ⟨d, hd, tail, htail⟩ := hfirst op
  rw [htail, decide_eq_true_eq, List.cons_prefix_cons]
  rintro ⟨rfl, -⟩
  exact h hd

theorem notMem_of_isOperandChar {c : Char} (h : isOperandChar c = true ∨ isJsSpace c = true) :
    c ∉ ['=', '!', '>', '<', '|', '&'] := by
  have hsign : ['=', '!', '>', '<', '|', '&'].all (fun d => !isOperandChar d && !isJsSpace d) = true := by
    decide
  intro hc
  obtain ⟨hoperand, hspace⟩ : isOperandChar c = false ∧ isJsSpace c = false := by
    simpa using List.all_eq_true.mp hsign c hc
  rw [hoperand, hspace] at h
  rcases h with h | h <;> cases h

theorem quiet_stopsAtOperator : Quiet stopsAtOperator := by
  intro c hc more
  have hnone := notMem_of_isOperandChar hc
  unfold stopsAtOperator
  rw [operatorAt_eq_none]
  · rfl
  · exact fun h => hnone (by
      simp only [List.mem_cons, List.not_mem_nil, or_false] at h ⊢
      tauto)

theorem findFrom_of_passes (h : Passes stopsAtOperator rest depth text depth') (i : Nat) :
    findFrom (text ++ rest) depth i = findFrom rest depth' (i + text.length) := by
  induction text generalizing depth i with
  | nil =>
    obtain rfl : depth = depth' := h
    rfl
  | cons ch text ih =>
    rw [Passes] at h
    rw [List.cons_append, findFrom, List.length_cons, show i + (text.length + 1) = i + 1 + text.length by omega]
    split_ifs at h ⊢ with hopen hclose hdepth
    · exact ih h _
    · exact ih h _
    · have hnone : operatorAt (ch :: (text ++ rest)) = none := by
        simpa [stopsAtOperator] using h.1 hdepth
      rw [hnone]
      exact ih h.2 _
    · exact ih h.2 _

/-- The longest operator is found. -/
theorem operatorAt_append {op : ComparisonOperator} (h : Apart op rest) :
    operatorAt (op.text ++ rest) = some op := by
  have hlonger : ∀ c : Char, (∀ more, rest ≠ '=' :: more) → ¬ [c, '='] <+: c :: rest := by
    intro c hrest hprefix
    obtain ⟨more, hmore⟩ := (List.cons_prefix_cons.mp hprefix).2
    exact hrest more hmore.symm
  -- the two-character operators stand first in the list, so only `>` and `<` can be cut short
  unfold operatorAt COMPARISON_OPERATORS
  cases op with
  | eq => simp [ComparisonOperator.text]
  | ne => simp [ComparisonOperator.text]
  | ge => simp [ComparisonOperator.text]
  | le => simp [ComparisonOperator.text]
  | gt =>
    have hge := hlonger '>' (h (.inl rfl))
    simpa [ComparisonOperator.text] using hge
  | lt =>
    have hle := hlonger '<' (h (.inr rfl))
    simpa [ComparisonOperator.text] using hle

theorem findComparison_compared {operand : Operand} {op : ComparisonOperator} {before : Text}
    (ht : OperandText operand text) (hbefore : Blank before) (h : Apart op rest) :
    findComparison (text ++ before ++ (op.text ++ rest)) = some (op, (text ++ before).length) := by
  have hpasses : Passes stopsAtOperator (op.text ++ rest) 0 (text ++ before) 0 :=
    (quiet_stopsAtOperator.passes_operand ht).append (quiet_stopsAtOperator.passes_blank hbefore)
  obtain ⟨c, tail, htail, hopen, hclose⟩ :
      ∃ c tail, op.text = c :: tail ∧ c ≠ '(' ∧ c ≠ ')' := by
    cases op
    all_goals exact ⟨_, _, rfl, by decide, by decide⟩
  have hoperator := operatorAt_append h
  unfold findComparison
  rw [findFrom_of_passes hpasses, Nat.zero_add]
  rw [htail, List.cons_append] at hoperator ⊢
  rw [findFrom, if_neg hopen, if_neg hclose, if_pos rfl, hoperator]

theorem findComparison_bare {operand : Operand} (ht : OperandText operand text) :
    findComparison text = none := by
  have hpasses : Passes stopsAtOperator [] 0 text 0 := quiet_stopsAtOperator.passes_operand ht
  have hfind := findFrom_of_passes hpasses 0
  rw [List.append_nil] at hfind
  exact hfind

/-! ## 3. Cutting -/

def stopsAt (sep text : Text) : Bool := sep <+: text

theorem quiet_stopsAt {c : Char} (hc : c = '|' ∨ c = '&') : Quiet (stopsAt [c, c]) := by
  intro d hd more
  have hnone := notMem_of_isOperandChar hd
  unfold stopsAt
  rw [decide_eq_false_iff_not, List.cons_prefix_cons]
  rintro ⟨rfl, -⟩
  rcases hc with rfl | rfl <;> exact hnone (by decide)

theorem splitFrom_of_passes {sep : Text} (h : Passes (stopsAt sep) rest depth text depth')
    (piece : Text) : splitFrom sep (text ++ rest) depth piece 0 =
      splitFrom sep rest depth' (piece ++ text) 0 := by
  induction text generalizing depth piece with
  | nil =>
    obtain rfl : depth = depth' := h
    rw [List.nil_append, List.append_nil]
  | cons ch text ih =>
    rw [Passes] at h
    have hpiece : piece ++ ch :: text = piece ++ [ch] ++ text := by simp
    rw [List.cons_append, splitFrom, hpiece]
    split_ifs at h ⊢ with hopen hclose hcut
    · exact ih h _
    · exact ih h _
    · have hstop : stopsAt sep (ch :: (text ++ rest)) = true := decide_eq_true hcut.2
      rw [h.1 hcut.1] at hstop
      cases hstop
    · exact ih h.2 _

theorem splitTopLevel_whole {sep : Text} (h : Passes (stopsAt sep) [] 0 text 0) :
    splitTopLevel text sep = [text] := by
  have hsplit := splitFrom_of_passes h []
  rw [List.append_nil] at hsplit
  exact hsplit

theorem splitTopLevel_cut {c : Char} (hc : c = '|' ∨ c = '&') {more : Text}
    (h : Passes (stopsAt [c, c]) ([c, c] ++ more) 0 text 0) :
    splitTopLevel (text ++ ([c, c] ++ more)) [c, c] = text :: splitTopLevel more [c, c] := by
  have hplain : c ≠ '(' ∧ c ≠ ')' := by
    rcases hc with rfl | rfl <;> decide
  unfold splitTopLevel
  rw [splitFrom_of_passes h, List.cons_append, splitFrom, if_neg hplain.1, if_neg hplain.2,
    if_pos ⟨rfl, List.prefix_append [c, c] more⟩]
  rfl

/-- A literal is not cut, also where the sign follows. -/
theorem passes_literal {c : Char} {literal : Text} (hparens : '(' ∉ literal ∧ ')' ∉ literal)
    (hsign : ¬ [c, c] <:+: literal)
    (hend : ∀ front, literal = front ++ [c] → ∀ more, rest ≠ c :: more) :
    Passes (stopsAt [c, c]) rest 0 literal 0 := by
  induction literal with
  | nil => rfl
  | cons ch literal ih =>
    have hopen : ch ≠ '(' := (List.ne_of_not_mem_cons hparens.1).symm
    have hclose : ch ≠ ')' := (List.ne_of_not_mem_cons hparens.2).symm
    rw [Passes, if_neg hopen, if_neg hclose]
    refine ⟨fun _ => ?_, ih ⟨?_, ?_⟩ ?_ ?_⟩
    · unfold stopsAt
      rw [decide_eq_false_iff_not, List.cons_prefix_cons]
      rintro ⟨rfl, more, hmore⟩
      -- the sign may begin with the last character of the literal
      cases literal with
      | nil => exact hend [] rfl more hmore.symm
      | cons d literal =>
        obtain ⟨rfl, -⟩ := List.cons.inj hmore
        exact hsign ⟨[], literal, rfl⟩
    · exact fun h => hparens.1 (List.mem_cons_of_mem _ h)
    · exact fun h => hparens.2 (List.mem_cons_of_mem _ h)
    · exact fun h => hsign (h.trans (List.suffix_cons ch literal).isInfix)
    · rintro front rfl
      exact hend (ch :: front) rfl

theorem AtomText.passes {atom : Atom} (h : AtomText atom text) {c : Char} (hc : c = '|' ∨ c = '&')
    (hend : ∀ front, text = front ++ [c] → ∀ more, rest ≠ c :: more) :
    Passes (stopsAt [c, c]) rest 0 text 0 := by
  have hquiet := quiet_stopsAt hc
  -- no operator begins with `|` or `&`
  have hsigns : ∀ sign ∈ ['=', '!', '>', '<'], ∀ more, stopsAt [c, c] (sign :: more) = false := by
    intro sign hsign more
    unfold stopsAt
    rw [decide_eq_false_iff_not, List.cons_prefix_cons]
    rintro ⟨rfl, -⟩
    rcases hc with rfl | rfl <;> exact absurd hsign (by decide)
  induction h with
  | @not atom space text hspace _ ih =>
    have hnot : Passes (stopsAt [c, c]) (space ++ text ++ rest) 0 ['!'] 0 :=
      passes_plain (by decide) fun d hd => hsigns d (by rw [List.mem_singleton.mp hd]; decide)
    have hinner := ih fun front hfront => hend ('!' :: (space ++ front)) (by simp [hfront])
    exact hnot.append ((hquiet.passes_blank hspace).append hinner)
  | @compared operand op literal text before after hoperand hbefore hafter _ hliteral _ =>
    have hoperator : ∀ more, Passes (stopsAt [c, c]) more 0 op.text 0 := by
      intro more
      have hchars : op.text.all (· ∈ ['=', '!', '>', '<']) = true := by cases op <;> decide
      refine passes_plain ?_ fun d hd => hsigns d ?_
      · cases op <;> decide
      · exact of_decide_eq_true (List.all_eq_true.mp hchars d hd)
    have hsign : ¬ [c, c] <:+: literal := by
      rcases hc with rfl | rfl
      · exact hliteral.or
      · exact hliteral.and
    have hlast : Passes (stopsAt [c, c]) rest 0 literal 0 :=
      passes_literal hliteral.parens hsign fun front hfront =>
        hend (text ++ before ++ op.text ++ after ++ front) (by simp [hfront])
    exact ((((hquiet.passes_operand hoperand).append (hquiet.passes_blank hbefore)).append
      (hoperator _)).append (hquiet.passes_blank hafter)).append hlast
  | bare hoperand => exact hquiet.passes_operand hoperand

/-- Spaces, or what comes instead of them, do not begin with the sign. -/
theorem blank_append_ne {c : Char} (hc : c = '|' ∨ c = '&') {before more : Text}
    (hbefore : Blank before) (hmore : before = [] → ∀ tail, more ≠ c :: tail) (tail : Text) :
    before ++ more ≠ c :: tail := by
  cases before with
  | nil => exact hmore rfl tail
  | cons d before =>
    intro heq
    obtain ⟨rfl, -⟩ := List.cons.inj heq
    have hspace := hbefore d (List.mem_cons_self ..)
    rcases hc with rfl | rfl <;> exact absurd hspace (by decide)

theorem Parted.not_cons {c : Char} {before : Text} (h : Parted c text before) (hc : c = '|' ∨ c = '&')
    (hbefore : Blank before) (more : Text) :
    ∀ front, text = front ++ [c] → ∀ tail, before ++ more ≠ c :: tail :=
  fun front hfront => blank_append_ne hc hbefore fun hnil => absurd hfront (h hnil front)

theorem BranchText.passes {atoms : List Atom} (h : BranchText atoms text)
    (hend : ∀ front, text = front ++ ['|'] → ∀ more, rest ≠ '|' :: more) :
    Passes (stopsAt ['|', '|']) rest 0 text 0 := by
  have hquiet : Quiet (stopsAt ['|', '|']) := quiet_stopsAt (.inl rfl)
  induction h with
  | atom hatom => exact hatom.passes (.inl rfl) hend
  | @and atom atoms text before after more hatom hbefore hafter _ _ ih =>
    have hand : ∀ behind, Passes (stopsAt ['|', '|']) behind 0 "&&".toList 0 := by
      intro behind
      refine passes_plain (by decide) fun c hc tail => ?_
      obtain rfl : c = '&' := by simpa using hc
      rfl
    have hfirst : Passes (stopsAt ['|', '|']) (before ++ ("&&".toList ++ (after ++ more ++ rest))) 0 text 0 :=
      hatom.passes (.inl rfl) fun _ _ => blank_append_ne (.inl rfl) hbefore fun _ tail heq => by cases heq
    have hmore := ih fun front hfront =>
      hend (text ++ before ++ "&&".toList ++ (after ++ front)) (by simp [hfront])
    have hlast : Passes (stopsAt ['|', '|']) rest 0 (after ++ more) 0 :=
      (hquiet.passes_blank hafter).append hmore
    -- atom, spaces, `&&`, and the atoms behind it
    refine Passes.append ?_ hlast
    refine Passes.append ?_ (hand _)
    refine Passes.append ?_ (hquiet.passes_blank hbefore)
    exact hfirst

/-! ## 4. Operands -/

/-- Without a bracket there is no call. -/
theorem callMatch_eq_none (h : '(' ∉ text) : callMatch text = none := by
  unfold callMatch
  rw [if_neg]
  rintro ⟨more, rfl⟩
  exact h (List.mem_append_left _ (by decide))

theorem splitOn_pathText {segments : List Text} (h : IsPath segments) :
    (pathText segments).splitOn '.' = segments := by
  refine List.splitOn_intercalate '.' (fun segment hsegment hdot => ?_) ?_
  · exact absurd (h.1 segment hsegment '.' hdot) (by decide)
  · rintro rfl
    exact h.2 rfl

theorem getPath_pathText {segments : List Text} (h : IsPath segments) (config : Value) :
    getPath config (pathText segments) = getPathParts config segments := by
  unfold getPath
  rw [splitOn_pathText h]

theorem callMatch_length {segments : List Text} (h : IsPath segments) {before after : Text}
    (hbefore : Blank before) (hafter : Blank after) :
    callMatch ("length(".toList ++ before ++ pathText segments ++ after ++ [')']) =
      some (pathText segments) := by
  have hsolid : Solid isJsSpace (pathText segments) := Solid.of_forall h.2 fun c hc =>
    isJsSpace_of_isOperandChar (isOperandChar_of_mem_pathText h c hc)
  have hinner : ')' ∉ before ++ pathText segments ++ after := by
    refine (parens_notMem fun c hc => ?_).2
    rcases List.mem_append.mp hc with hc | hc
    · rcases List.mem_append.mp hc with hc | hc
      · exact .inr (hbefore c hc)
      · exact .inl (isOperandChar_of_mem_pathText h c hc)
    · exact .inr (hafter c hc)
  have hdrop : ("length(".toList ++ before ++ pathText segments ++ after ++ [')']).drop
      "length(".toList.length = before ++ pathText segments ++ after ++ [')'] := by
    rw [List.append_assoc, List.append_assoc, List.append_assoc, List.drop_left,
      List.append_assoc, List.append_assoc]
  have hstart : (before ++ pathText segments ++ after).dropWhile isJsSpace =
      pathText segments ++ after := by
    obtain ⟨c, more, hcons, hc⟩ := hsolid.first
    rw [List.append_assoc, dropWhile_margin hbefore, hcons]
    exact List.dropWhile_cons_of_neg (by simp [hc])
  -- the closing bracket is the last character, and the only one
  unfold callMatch
  rw [if_pos ⟨before ++ pathText segments ++ after ++ [')'], by simp⟩]
  dsimp only
  rw [hdrop, List.dropLast_concat, List.getLast?_concat, if_pos ⟨rfl, hinner⟩, hstart]
  split
  case h_1 hnil => exact absurd (List.append_eq_nil_iff.mp hnil).1 h.2
  case h_2 => rw [rdropWhile_margin hafter, hsolid.rdropWhile]

theorem resolveOperand_of_text (conv : Conversions) {operand : Operand} (h : OperandText operand text)
    (config : Value) : resolveOperand conv text config = operand.value conv config := by
  unfold resolveOperand
  dsimp only
  rw [trimText_of_solid h.solid.1]
  -- the tests of the source in their order: call, number, keyword, path
  cases h with
  | @path segments hpath hnumber hkeyword =>
    obtain ⟨htrue, hfalse, hnull⟩ : pathText segments ≠ "true".toList ∧
        pathText segments ≠ "false".toList ∧ pathText segments ≠ "null".toList := by
      simpa only [KEYWORDS, List.mem_cons, List.not_mem_nil, or_false, not_or] using hkeyword
    have hparens := (parens_notMem fun c hc => .inl (isOperandChar_of_mem_pathText hpath c hc)).1
    rw [callMatch_eq_none hparens]
    dsimp only
    rw [hnumber, if_neg Bool.false_ne_true, if_neg htrue, if_neg hfalse, if_neg hnull,
      getPath_pathText hpath]
    rfl
  | length hpath hbefore hafter =>
    rw [callMatch_length hpath hbefore hafter]
    dsimp only
    rw [getPath_pathText hpath]
    rfl
  | number hdigits =>
    obtain ⟨-, hchars⟩ := mem_of_isNumeric hdigits
    have hparens : '(' ∉ text := by
      intro hc
      rcases hchars _ hc with h | h | h
      · cases h
      · cases h
      · exact absurd h (by decide)
    rw [callMatch_eq_none hparens]
    dsimp only
    rw [if_pos hdigits]
    rfl
  | bool b => cases b <;> rfl
  | null => rfl

/-! ## 5. The value of a rule -/

variable (conv : Conversions) (config : Value)

/-- An atom that is not negated. -/
def evaluatePlain (trimmed : Text) : Bool :=
  match findComparison trimmed with
  | some (op, index) =>
    let rawLhs := trimText (trimmed.take index)
    let rawRhs := trimText (trimmed.drop (index + op.text.length))
    if rawLhs = [] then false else compare conv op (resolveOperand conv rawLhs config) rawRhs
  | none => isTruthy (resolveOperand conv trimmed config)

theorem not_prefix_iff {trimmed : Text} : ['!'] <+: trimmed ↔ ∃ more, trimmed = '!' :: more := by
  refine ⟨fun ⟨more, hmore⟩ => ⟨more, hmore.symm⟩, ?_⟩
  rintro ⟨more, rfl⟩
  exact List.prefix_append ['!'] more

theorem evaluateAtom_not {expr more : Text} (h : trimText expr = '!' :: more) :
    evaluateAtom conv config expr = !evaluateAtom conv config more := by
  rw [evaluateAtom]
  dsimp only
  rw [h, dif_neg (List.cons_ne_nil _ _), if_pos (not_prefix_iff.mpr ⟨more, rfl⟩)]
  rfl

theorem evaluateAtom_plain {expr : Text} (hne : trimText expr ≠ [])
    (h : ∀ more, trimText expr ≠ '!' :: more) :
    evaluateAtom conv config expr = evaluatePlain conv config (trimText expr) := by
  have hnot : ¬ ['!'] <+: trimText expr := fun hstart => by
    obtain ⟨more, hmore⟩ := not_prefix_iff.mp hstart
    exact h more hmore
  rw [evaluateAtom]
  dsimp only
  rw [dif_neg hne, if_neg hnot]
  unfold evaluatePlain
  cases findComparison (trimText expr) with
  | none => rfl
  | some found => rfl

theorem evaluatePlain_compared {operand : Operand} {op : ComparisonOperator}
    {literal before after : Text} (hoperand : OperandText operand text) (hbefore : Blank before)
    (hafter : Blank after) (hliteral : IsLiteral literal) (hapart : Apart op (after ++ literal)) :
    evaluatePlain conv config (text ++ before ++ op.text ++ after ++ literal) =
      (Atom.compared operand op literal).holds conv config := by
  have hlist : text ++ before ++ op.text ++ after ++ literal =
      text ++ before ++ (op.text ++ (after ++ literal)) := by simp
  have hsolid := hoperand.solid.1
  have hleft : trimText (text ++ before) = text := trimText_margins hsolid [] before nofun hbefore
  have hright : trimText (after ++ literal) = literal := by
    rcases hliteral.trimmed with rfl | hsolid
    · rw [List.append_nil, trimText_blank hafter]
    · have hmargins := trimText_margins hsolid after [] hafter nofun
      rwa [List.append_nil] at hmargins
  have hdrop : (text ++ before ++ (op.text ++ (after ++ literal))).drop
      ((text ++ before).length + op.text.length) = after ++ literal := by
    rw [← List.append_assoc, ← List.length_append, List.drop_left]
  -- the operator is found behind the operand, and both sides are trimmed
  rw [hlist]
  unfold evaluatePlain
  rw [findComparison_compared hoperand hbefore hapart]
  dsimp only
  rw [List.take_left, hleft, if_neg hsolid.ne_nil, hdrop, hright,
    resolveOperand_of_text conv hoperand config]
  rfl

/-- An atom has its value, with any spaces around it. -/
theorem evaluateAtom_of_text {atom : Atom} (h : AtomText atom text) (before after : Text)
    (hbefore : Blank before) (hafter : Blank after) :
    evaluateAtom conv config (before ++ text ++ after) = atom.holds conv config := by
  -- along the negations; a comparison does not begin with one
  induction h generalizing before after with
  | @not atom space text hspace hatom ih =>
    have htrim := trimText_margins (AtomText.not hspace hatom).solid before after hbefore hafter
    have hinner := ih space [] hspace nofun
    rw [List.append_nil] at hinner
    rw [evaluateAtom_not conv config htrim, hinner]
    rfl
  | @compared operand op literal text before' after' hoperand hbefore' hafter' hnone hliteral hapart =>
    have htrim := trimText_margins
      (AtomText.compared hoperand hbefore' hafter' hnone hliteral hapart).solid before after hbefore hafter
    have hhead : ∀ more, text ++ before' ++ op.text ++ after' ++ literal ≠ '!' :: more := by
      obtain ⟨c, rest, rfl, -⟩ := hoperand.solid.1.first
      intro more heq
      exact hoperand.solid.2 rest (by rw [(List.cons.inj heq).1])
    have hne : text ++ before' ++ op.text ++ after' ++ literal ≠ [] :=
      (AtomText.compared hoperand hbefore' hafter' hnone hliteral hapart).solid.ne_nil
    rw [evaluateAtom_plain conv config (by rwa [htrim]) (by rwa [htrim]), htrim,
      evaluatePlain_compared conv config hoperand hbefore' hafter' hliteral hapart]
  | @bare operand text hoperand =>
    have htrim := trimText_margins hoperand.solid.1 before after hbefore hafter
    rw [evaluateAtom_plain conv config (by rw [htrim]; exact hoperand.solid.1.ne_nil)
      (by rw [htrim]; exact hoperand.solid.2), htrim]
    unfold evaluatePlain
    rw [findComparison_bare hoperand]
    dsimp only
    rw [resolveOperand_of_text conv hoperand config]
    rfl

/-- The spaces around a text do not stop a scan. -/
theorem Quiet.passes_margins (h : Quiet stop) (before after : Text) (hbefore : Blank before)
    (hafter : Blank after) (ht : Passes stop (after ++ rest) 0 text 0) :
    Passes stop rest 0 (before ++ text ++ after) 0 :=
  ((h.passes_blank hbefore).append ht).append (h.passes_blank hafter)

theorem evaluateAnd_of_text {atoms : List Atom} (h : BranchText atoms text) (before after : Text)
    (hbefore : Blank before) (hafter : Blank after) :
    evaluateAnd conv config (before ++ text ++ after) =
      atoms.all fun atom => atom.holds conv config := by
  have hquiet : Quiet (stopsAt ['&', '&']) := quiet_stopsAt (.inr rfl)
  unfold evaluateAnd
  rw [show "&&".toList = ['&', '&'] from rfl]
  induction h generalizing before with
  | @atom atom text hatom =>
    have hend : ∀ front, text = front ++ ['&'] → ∀ more, after ++ [] ≠ '&' :: more := fun _ _ =>
      blank_append_ne (.inr rfl) hafter fun _ _ => List.cons_ne_nil _ _ |>.symm
    rw [splitTopLevel_whole (hquiet.passes_margins before after hbefore hafter (hatom.passes (.inr rfl) hend))]
    simp only [List.all_cons, List.all_nil, evaluateAtom_of_text conv config hatom before after hbefore hafter]
  | @and atom atoms text before' after' more hatom hbefore' hafter' hparted _ ih =>
    have hlist : before ++ (text ++ before' ++ "&&".toList ++ (after' ++ more)) ++ after =
        before ++ text ++ before' ++ (['&', '&'] ++ (after' ++ more ++ after)) := by
      rw [show "&&".toList = ['&', '&'] from rfl]
      simp only [List.append_assoc]
    have hpasses := hquiet.passes_margins before before' hbefore hbefore'
      (hatom.passes (.inr rfl) (hparted.not_cons (.inr rfl) hbefore'
        (['&', '&'] ++ (after' ++ more ++ after))))
    rw [hlist, splitTopLevel_cut (.inr rfl) hpasses, List.all_cons, ih after' hafter',
      evaluateAtom_of_text conv config hatom before before' hbefore hbefore', List.all_cons]

theorem evaluateOr_of_text {rule : Rule} (h : RuleText rule text) (before : Text)
    (hbefore : Blank before) :
    evaluateOr conv config (before ++ text) = rule.holds conv config := by
  have hquiet : Quiet (stopsAt ['|', '|']) := quiet_stopsAt (.inl rfl)
  unfold evaluateOr Rule.holds
  rw [show "||".toList = ['|', '|'] from rfl]
  -- each `||` cuts one branch off, and none cuts inside of a branch
  induction h generalizing before with
  | @branch branch text hbranch =>
    have hpasses := hquiet.passes_margins before [] hbefore nofun
      (hbranch.passes fun _ _ tail => (List.cons_ne_nil _ tail).symm)
    have hvalue := evaluateAnd_of_text conv config hbranch before [] hbefore nofun
    rw [List.append_nil] at hpasses hvalue
    rw [splitTopLevel_whole hpasses]
    simp only [List.any_cons, List.any_nil, hvalue]
  | @or branch branches text before' after' more hbranch hbefore' hafter' hparted _ ih =>
    have hlist : before ++ (text ++ before' ++ "||".toList ++ (after' ++ more)) =
        before ++ text ++ before' ++ (['|', '|'] ++ (after' ++ more)) := by
      rw [show "||".toList = ['|', '|'] from rfl]
      simp only [List.append_assoc]
    have hpasses := hquiet.passes_margins before before' hbefore hbefore'
      (hbranch.passes (hparted.not_cons (.inl rfl) hbefore' (['|', '|'] ++ (after' ++ more))))
    rw [hlist, splitTopLevel_cut (.inl rfl) hpasses, List.any_cons, ih after' hafter',
      evaluateAnd_of_text conv config hbranch before before' hbefore hbefore', List.any_cons]

theorem evaluateWhen_of_text {rule : Rule} {expr : String} (h : IsTextOf rule expr) :
    evaluateWhen conv config expr = rule.holds conv config := by
  obtain ⟨before, text, after, hbefore, hafter, htext, hexpr⟩ := h
  unfold evaluateWhen
  dsimp only
  rw [hexpr, trimText_margins htext.solid before after hbefore hafter, if_neg htext.solid.ne_nil]
  exact evaluateOr_of_text conv config htext [] nofun

/-! ## 6. A comparison without a left-hand side -/

/-- The signs of negation in front, and what is behind them. -/
def stripNegations (expr : Text) : Nat × Text :=
  let trimmed := trimText expr
  if _h : ['!'] <+: trimmed then (stripNegations (trimmed.drop 1)).map (· + 1) id
  else (0, trimmed)
  termination_by expr.length
  decreasing_by
    have hle := length_trimText_le expr
    have hpos : 1 ≤ (trimText expr).length := _h.length_le
    show ((trimText expr).drop 1).length < expr.length
    rw [List.length_drop]
    omega

/-- The atom, or what it negates, begins with its comparison. -/
inductive EmptyLeft : Text → Prop
  | here {expr rest : Text} {op : ComparisonOperator} : trimText expr = op.text ++ rest → EmptyLeft expr
  | not {expr rest : Text} : trimText expr = '!' :: rest → EmptyLeft rest → EmptyLeft expr

/-- A text that begins with a lone `=` is a path, or is compared once more. -/
def loneEqualHolds (text : Text) : Bool :=
  match findComparison text with
  | some (op, index) =>
    compare conv op (getPath config (trimText (text.take index)))
      (trimText (text.drop (index + op.text.length)))
  | none => isTruthy (getPath config text)

/-- An even number of negations, that of `!=` included; or an odd one, where what follows a lone `=`
happens to be true. -/
def CountsFalse (atom : Text) : Prop :=
  (stripNegations atom).1 % 2 = 0 ↔
    ¬ (operatorAt (stripNegations atom).2 = none ∧
      loneEqualHolds conv config (stripNegations atom).2 = true)

theorem stripNegations_not {expr more : Text} (h : trimText expr = '!' :: more) :
    stripNegations expr = ((stripNegations more).1 + 1, (stripNegations more).2) := by
  rw [stripNegations]
  rw [h, dif_pos (not_prefix_iff.mpr ⟨more, rfl⟩)]
  rfl

theorem stripNegations_plain {expr : Text} (h : ∀ more, trimText expr ≠ '!' :: more) :
    stripNegations expr = (0, trimText expr) := by
  have hnot : ¬ ['!'] <+: trimText expr := fun hstart => by
    obtain ⟨more, hmore⟩ := not_prefix_iff.mp hstart
    exact h more hmore
  rw [stripNegations]
  rw [dif_neg hnot]

theorem trimText_cons {c : Char} (hc : isJsSpace c = false) (text : Text) :
    trimText (c :: text) = (c :: text).rdropWhile isJsSpace := by
  rw [trimText_eq]
  unfold trimBoth
  rw [List.dropWhile_cons_of_neg (by simp [hc])]

/-- A visible first character stays. -/
theorem exists_trimText_cons {c : Char} (hc : isJsSpace c = false) (text : Text) :
    ∃ more, trimText (c :: text) = c :: more := by
  rw [trimText_cons hc]
  obtain ⟨tail, htail⟩ := List.rdropWhile_prefix isJsSpace (l := c :: text)
  cases hfront : (c :: text).rdropWhile isJsSpace with
  | nil =>
    have hspace := List.rdropWhile_eq_nil_iff.mp hfront c (List.mem_cons_self ..)
    rw [hc] at hspace
    cases hspace
  | cons d more =>
    rw [hfront] at htail
    obtain ⟨rfl, -⟩ := List.cons.inj htail
    exact ⟨more, rfl⟩

/-- What was trimmed once is trimmed. -/
theorem trimText_again {expr more : Text} {c : Char} (hc : isJsSpace c = false)
    (h : trimText expr = c :: more) : trimText (c :: more) = c :: more := by
  rw [trimText_cons hc, ← h, trimText_eq]
  exact List.rdropWhile_idempotent ..

theorem operatorAt_ne_none (op : ComparisonOperator) (rest : Text) :
    operatorAt (op.text ++ rest) ≠ none := by
  intro hnone
  have hall := List.find?_eq_none.mp hnone op (by cases op <;> decide)
  exact hall (decide_eq_true (List.prefix_append _ _))

/-- A comparison sign, apart from the one that may be a negation. -/
def IsSign (c : Char) : Prop := c = '=' ∨ c = '>' ∨ c = '<'

theorem IsSign.visible {c : Char} (h : IsSign c) : isJsSpace c = false ∧ c ≠ '!' := by
  rcases h with rfl | rfl | rfl <;> decide

/-- What is left behind the negations begins with a sign, and with an operator if that is not `=`. -/
theorem EmptyLeft.spec {atom : Text} (h : EmptyLeft atom) : ∃ c more,
    (stripNegations atom).2 = c :: more ∧ IsSign c ∧ (operatorAt (c :: more) = none → c = '=') ∧
      trimText (c :: more) = c :: more ∧
      evaluateAtom conv config atom =
        (decide ((stripNegations atom).1 % 2 = 1) ^^ evaluatePlain conv config (c :: more)) := by
  induction h with
  | @here expr rest op htrim =>
    -- every operator but `!=` begins with a sign that is not a negation
    have hplain : ∀ (c : Char) (more : Text), IsSign c → op.text ++ rest = c :: more → ∃ c more,
        (stripNegations expr).2 = c :: more ∧ IsSign c ∧ (operatorAt (c :: more) = none → c = '=') ∧
          trimText (c :: more) = c :: more ∧ evaluateAtom conv config expr =
            (decide ((stripNegations expr).1 % 2 = 1) ^^ evaluatePlain conv config (c :: more)) := by
      intro c more hc hmore
      have htext : trimText expr = c :: more := htrim.trans hmore
      have hnot : ∀ tail, trimText expr ≠ '!' :: tail := by
        intro tail heq
        exact hc.visible.2 (List.cons.inj (htext.symm.trans heq)).1
      refine ⟨c, more, ?_, hc, fun hnone => ?_, trimText_again hc.visible.1 htext, ?_⟩
      · rw [stripNegations_plain hnot, htext]
      · rw [← hmore] at hnone
        exact absurd hnone (operatorAt_ne_none op rest)
      · rw [stripNegations_plain hnot, evaluateAtom_plain conv config (by rw [htext]; simp) hnot, htext]
        simp
    cases op with
    | eq => exact hplain '=' ('=' :: rest) (.inl rfl) rfl
    | ge => exact hplain '>' ('=' :: rest) (.inr (.inl rfl)) rfl
    | le => exact hplain '<' ('=' :: rest) (.inr (.inr rfl)) rfl
    | gt => exact hplain '>' rest (.inr (.inl rfl)) rfl
    | lt => exact hplain '<' rest (.inr (.inr rfl)) rfl
    | ne =>
      -- the first sign is read as a negation, and a lone `=` remains
      have htext : trimText expr = '!' :: '=' :: rest := htrim
      have hvisible : isJsSpace '=' = false := by decide
      obtain ⟨more, hmore⟩ := exists_trimText_cons hvisible rest
      have hnot : ∀ tail, trimText ('=' :: rest) ≠ '!' :: tail := by
        intro tail heq
        rw [hmore] at heq
        cases heq
      refine ⟨'=', more, ?_, .inl rfl, fun _ => rfl, trimText_again hvisible hmore, ?_⟩
      · rw [stripNegations_not htext, stripNegations_plain hnot, hmore]
      · rw [stripNegations_not htext, stripNegations_plain hnot, evaluateAtom_not conv config htext,
          evaluateAtom_plain conv config (by rw [hmore]; simp) hnot, hmore]
        simp
  | @not expr rest htrim _ ih =>
    obtain ⟨c, more, hcore, hc, hlone, htext, hvalue⟩ := ih
    refine ⟨c, more, ?_, hc, hlone, htext, ?_⟩
    · rw [stripNegations_not htrim]
      exact hcore
    · have hparity : decide (((stripNegations rest).1 + 1) % 2 = 1) =
          !decide ((stripNegations rest).1 % 2 = 1) := by
        rw [Bool.eq_iff_iff, Bool.not_eq_true', decide_eq_true_eq, decide_eq_false_iff_not]
        omega
      rw [stripNegations_not htrim, evaluateAtom_not conv config htrim, hvalue, hparity,
        Bool.not_xor]

theorem findFrom_ge {text : Text} {depth : Int} {i index : Nat} {op : ComparisonOperator}
    (h : findFrom text depth i = some (op, index)) : i ≤ index := by
  induction text generalizing depth i with
  | nil => cases h
  | cons ch text ih =>
    have hlater : ∀ {depth : Int}, findFrom text depth (i + 1) = some (op, index) → i ≤ index :=
      fun hrest => by
        have := ih hrest
        omega
    rw [findFrom] at h
    -- the index only grows
    split_ifs at h with hopen hclose hdepth
    · exact hlater h
    · exact hlater h
    · split at h
      case h_1 => exact (congrArg Prod.snd (Option.some.inj h)).le
      case h_2 => exact hlater h
    · exact hlater h

theorem resolveOperand_equal {more : Text} (h : trimText ('=' :: more) = '=' :: more) :
    resolveOperand conv ('=' :: more) config = getPath config ('=' :: more) := by
  have hcall : callMatch ('=' :: more) = none := by
    unfold callMatch
    rw [if_neg]
    rintro ⟨tail, htail⟩
    cases htail
  have hnumber : isNumeric ('=' :: more) = false := by
    unfold isNumeric
    rfl
  unfold resolveOperand
  dsimp only
  rw [h, hcall]
  dsimp only
  rw [hnumber, if_neg Bool.false_ne_true, if_neg, if_neg, if_neg]
  all_goals
    intro heq
    cases heq

/-- Behind the negations an operator makes the comparison false; without one there is a path. -/
theorem evaluatePlain_sign {c : Char} {more : Text} (hc : IsSign c)
    (hlone : operatorAt (c :: more) = none → c = '=') (htrim : trimText (c :: more) = c :: more) :
    evaluatePlain conv config (c :: more) = true ↔
      operatorAt (c :: more) = none ∧ loneEqualHolds conv config (c :: more) = true := by
  have hopen : c ≠ '(' ∧ c ≠ ')' := by
    rcases hc with rfl | rfl | rfl <;> decide
  -- an operator at the start leaves nothing on its left
  cases hoperator : operatorAt (c :: more) with
  | some op =>
    have hfind : findComparison (c :: more) = some (op, 0) := by
      unfold findComparison
      rw [findFrom, if_neg hopen.1, if_neg hopen.2, if_pos rfl, hoperator]
    have hempty : trimText [] = [] := trimText_blank nofun
    unfold evaluatePlain
    rw [hfind]
    dsimp only
    rw [List.take_zero, if_pos hempty]
    simp
  | none =>
    obtain rfl := hlone hoperator
    -- a lone `=` belongs to the path of the left-hand side, which is then not empty
    have hvalue : evaluatePlain conv config ('=' :: more) = loneEqualHolds conv config ('=' :: more) := by
      unfold evaluatePlain loneEqualHolds
      cases hfind : findComparison ('=' :: more) with
      | none =>
        dsimp only
        rw [resolveOperand_equal conv config htrim]
      | some found =>
        obtain ⟨op, index⟩ := found
        unfold findComparison at hfind
        rw [findFrom, if_neg hopen.1, if_neg hopen.2, if_pos rfl, hoperator] at hfind
        obtain ⟨i, rfl⟩ : ∃ i, index = i + 1 := ⟨index - 1, by have := findFrom_ge hfind; omega⟩
        have hvisible : isJsSpace '=' = false := by decide
        obtain ⟨left, hleft⟩ := exists_trimText_cons hvisible (more.take i)
        dsimp only
        rw [List.take_succ_cons, hleft, if_neg (List.cons_ne_nil _ _),
          resolveOperand_equal conv config (trimText_again hvisible hleft)]
    rw [hvalue]
    simp

theorem EmptyLeft.evaluateAtom_iff {atom : Text} (h : EmptyLeft atom) :
    evaluateAtom conv config atom = false ↔ CountsFalse conv config atom := by
  obtain ⟨c, more, hcore, hc, hlone, htrim, hvalue⟩ := h.spec conv config
  have hplain := evaluatePlain_sign conv config hc hlone htrim
  unfold CountsFalse
  rw [hcore, hvalue, ← hplain]
  have hparity : (stripNegations atom).1 % 2 = 0 ↔ ¬ (stripNegations atom).1 % 2 = 1 := by omega
  rw [hparity]
  cases evaluatePlain conv config (c :: more) with
  | false => simp
  | true => simp

/-! ## 7. The warning rules -/

/-- The atoms of all branches. -/
def atoms (expr : String) : List Text :=
  (splitTopLevel (trimText expr.toList) "||".toList).flatMap fun orBranch =>
    splitTopLevel orBranch "&&".toList

section Examples

def sampleConversions : Conversions :=
  { number := fun text => if isNumeric text.toList then .finite (Nat.ofDigitChars 10 text.toList 0) else .nan
    text := fun n => String.ofList (JsonText.writeNumber n) }

def carousel : Value := .obj [("mode", .str "dynamic"), ("items", .arr [])]

def mode : Operand := .path ["mode".toList]

theorem mode_text : OperandText mode "mode".toList :=
  .path ⟨List.forall_mem_singleton.mpr (List.all_eq_true.mp (by decide)), by decide⟩ (by decide) (by decide)

end Examples

end Clemvion.NodeSummary
