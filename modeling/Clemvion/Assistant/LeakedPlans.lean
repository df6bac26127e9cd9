import Clemvion.Assistant.RecoverLeakedPlan
import Clemvion.Js.JsonNesting
import Clemvion.Library.Framing
import Clemvion.Library.Trimming

/-!
# LeakedPlans — which plan is found

The search tries the outermost blocks in braces one after the other.  The text of a plan is such a
block, whatever stands in its strings, and what comes before it is passed over.
-/

open Clemvion.Js Clemvion.Library

namespace Clemvion.Assistant

/-! ## 1. Blocks -/

/-- The next block in braces. -/
def nextBlock : Text → Option (Text × Text)
  | [] => none
  | c :: rest => if c ≠ '{' then nextBlock rest else findMatchingBrace (c :: rest)

theorem nextBlock_cons {c : Char} (hc : c ≠ '{') (rest : Text) :
    nextBlock (c :: rest) = nextBlock rest := if_pos hc

theorem nextBlock_brace (rest : Text) : nextBlock ('{' :: rest) = findMatchingBrace ('{' :: rest) :=
  if_neg (by decide)

/-- What has no opening brace is passed over. -/
theorem nextBlock_skip {left : Text} (h : '{' ∉ left) (rest : Text) :
    nextBlock (left ++ rest) = nextBlock rest := by
  induction left with
  | nil => rfl
  | cons c left ih =>
    obtain ⟨hc, hleft⟩ := not_or.mp (fun hmem => h (List.mem_cons.mpr hmem))
    rw [List.cons_append, nextBlock_cons (Ne.symm hc), ih hleft]

theorem nextBlock_eq_some_iff {text block rest : Text} :
    nextBlock text = some (block, rest) ↔
      ∃ left right, '{' ∉ left ∧ text = left ++ '{' :: right ∧
        findMatchingBrace ('{' :: right) = some (block, rest) := by
  constructor
  · intro h
    induction text with
    | nil => cases h
    | cons c text ih =>
      by_cases hc : c = '{'
      · subst hc
        rw [nextBlock_brace] at h
        exact ⟨[], text, List.not_mem_nil, rfl, h⟩
      · rw [nextBlock_cons hc] at h
        obtain ⟨left, right, hleft, rfl, hblock⟩ := ih h
        refine ⟨c :: left, right, fun hmem => ?_, rfl, hblock⟩
        rcases List.mem_cons.mp hmem with heq | hmem
        · exact hc heq.symm
        · exact hleft hmem
  · rintro ⟨left, right, hleft, rfl, hblock⟩
    rw [nextBlock_skip hleft, nextBlock_brace, hblock]

theorem nextBlock_parts {text block rest : Text} (h : nextBlock text = some (block, rest)) :
    ∃ left, '{' ∉ left ∧ text = left ++ (block ++ rest) ∧ block ≠ [] := by
  obtain ⟨left, right, hleft, rfl, hblock⟩ := nextBlock_eq_some_iff.mp h
  obtain ⟨hparts, hne⟩ := takeThrough_parts hblock
  exact ⟨left, hleft, by rw [hparts], hne⟩

def blocks : Framer Char Text where
  cut := nextBlock
  shorter := by
    intro text block rest h
    obtain ⟨left, -, rfl, hne⟩ := nextBlock_parts h
    have hpos := List.length_pos_iff.mpr hne
    simp only [List.length_append]
    omega
  append := by
    intro text block rest h more
    obtain ⟨left, right, hleft, rfl, hblock⟩ := nextBlock_eq_some_iff.mp h
    exact nextBlock_eq_some_iff.mpr ⟨left, right ++ more, hleft, by simp, takeThrough_append hblock more⟩

/-- The loop tries the blocks in their order. -/
theorem scanForPlan_eq (text : Text) : scanForPlan text = (blocks.all text).1.findSome? planOf := by
  induction hlength : text.length using Nat.strong_induction_on generalizing text with
  | _ n ih =>
    -- the loop moves by a character or by a block; both leave less text
    cases text with
    | nil =>
      rw [scanForPlan, Framer.all_of_none (show blocks.cut [] = none from rfl)]
      rfl
    | cons c text =>
      rw [scanForPlan]
      by_cases hc : c = '{'
      · subst hc
        rw [if_neg (by decide)]
        split
        case h_1 hnone =>
          rw [Framer.all_of_none (show blocks.cut ('{' :: text) = none from
            (nextBlock_brace text).trans hnone)]
          rfl
        case h_2 block rest hsome =>
          have hcut : blocks.cut ('{' :: text) = some (block, rest) := (nextBlock_brace text).trans hsome
          rw [Framer.all_of_some hcut, List.findSome?_cons,
            ← ih rest.length (hlength ▸ blocks.shorter hcut) rest rfl]
          cases planOf block <;> rfl
      · have hall : (blocks.all (c :: text)).1 = (blocks.all text).1 := by
          have hcut : blocks.cut (c :: text) = blocks.cut text := nextBlock_cons hc text
          cases hnext : blocks.cut text with
          | none => rw [Framer.all_of_none hnext, Framer.all_of_none (hcut.trans hnext)]
          | some found => rw [Framer.all_of_some hnext, Framer.all_of_some (hcut.trans hnext)]
        rw [if_pos hc, hall]
        exact ih text.length (by rw [← hlength]; exact Nat.lt_succ_self _) text rfl

/-- A block starts with its brace. -/
theorem blocks_brace (text : Text) : ∀ block ∈ (blocks.all text).1, block.head? = some '{' := by
  refine Framer.frames_of (F := blocks) (P := fun _ => True) ?_ trivial
  intro xs block rest _ hcut
  refine ⟨?_, trivial⟩
  obtain ⟨left, right, -, rfl, hblock⟩ := nextBlock_eq_some_iff.mp hcut
  obtain ⟨hparts, hne⟩ := takeThrough_parts hblock
  obtain ⟨c, block, rfl⟩ := List.exists_cons_of_ne_nil hne
  rw [← (List.cons.inj hparts).1]
  rfl

theorem blocks_within (text : Text) : ∀ block ∈ (blocks.all text).1, block <:+: text := by
  refine Framer.frames_of (F := blocks) (P := fun rest => rest <:+ text) ?_ (List.suffix_refl text)
  intro xs block rest hsuffix hcut
  obtain ⟨left, -, rfl, -⟩ := nextBlock_parts hcut
  have hblock : block <:+: left ++ (block ++ rest) := ⟨left, rest, by simp⟩
  have hrest : rest <:+ left ++ (block ++ rest) := ⟨left ++ block, by simp⟩
  exact ⟨hblock.trans hsuffix.isInfix, hrest.trans hsuffix⟩

/-! ## 2. The matching brace -/

/-- Outside of strings, at this depth. -/
def atDepth (depth : Int) : BraceScan := { depth }

variable {depth : Int}

theorem scanChar_plain {c : Char} (hquote : c ≠ '"') (hopen : c ≠ '{') (hclose : c ≠ '}') :
    scanChar (atDepth depth) c = some (atDepth depth) := by
  simp [scanChar, atDepth, hquote, hopen, hclose]

theorem scanChar_open : scanChar (atDepth depth) '{' = some (atDepth (depth + 1)) := rfl

theorem scanChar_close (h : 1 < depth) : scanChar (atDepth depth) '}' = some (atDepth (depth - 1)) := by
  have hne : depth - 1 ≠ 0 := by omega
  show (if depth - 1 = 0 then none else some (atDepth (depth - 1))) = _
  rw [if_neg hne]

/-- Inside of a string. -/
def inLiteral (depth : Int) : BraceScan := { depth, inString := true }

/-- The inside of a string is passed over. -/
theorem scans_quoted {body : Text} (h : JsonText.Quoted body) :
    Scans scanChar (inLiteral depth) body (inLiteral depth) := by
  induction h with
  | nil => exact .nil
  | plain hquote hback _ ih =>
    refine ih.cons ?_
    simp [scanChar, inLiteral, hquote, hback]
  | escape _ ih =>
    have hback : scanChar (inLiteral depth) '\\' = some { inLiteral depth with escape := true } := rfl
    exact Scans.cons (Scans.cons ih rfl) hback

/-- A nested text inside of braces is passed over. -/
theorem scans_nested {text : Text} (h : JsonText.Nested text) (hdepth : 0 < depth) :
    Scans scanChar (atDepth depth) text (atDepth depth) := by
  induction h generalizing depth with
  | nil => exact .nil
  | plain hquote hopen hclose _ ih => exact (ih hdepth).cons (scanChar_plain hquote hopen hclose)
  | literal hbody _ ih =>
    have hopen : scanChar (atDepth depth) '"' = some (inLiteral depth) := rfl
    have hclose : scanChar (inLiteral depth) '"' = some (atDepth depth) := rfl
    -- quote, inside, quote, and the rest at the same depth
    exact ((scans_quoted hbody).append ((ih hdepth).cons hclose)).cons hopen
  | braces _ _ ihInner ih =>
    -- the depth inside is at least 2, so its closing brace is not the last
    have hclose : scanChar (atDepth (depth + 1)) '}' = some (atDepth depth) := by
      rw [scanChar_close (by omega), Int.add_sub_cancel]
    exact ((ihInner (by omega)).append ((ih hdepth).cons hclose)).cons scanChar_open

theorem findMatchingBrace_nested {inner : Text} (h : JsonText.Nested inner) (rest : Text) :
    findMatchingBrace ('{' :: (inner ++ '}' :: rest)) = some ('{' :: (inner ++ ['}']), rest) := by
  have hopen : scanChar {} '{' = some (atDepth 1) := rfl
  have hscan := (scans_nested h (show (0 : Int) < 1 by decide)).cons hopen
  exact takeThrough_eq_some_iff.mpr ⟨'{' :: inner, '}', atDepth 1, rfl, rfl, hscan, rfl⟩

/-! ## 3. Balanced braces -/

/-- Every closing brace has its opening one before it, and none is left open. -/
structure Balanced (text : Text) : Prop where
  total : text.count '}' = text.count '{'
  starts : ∀ start, start <+: text → start.count '}' ≤ start.count '{'

/-- Without strings, the depth is the number of braces that are open. -/
theorem scans_unquoted {text : Text} {scan : BraceScan} (hquote : '"' ∉ text) (hdepth : 0 < depth)
    (h : Scans scanChar (atDepth depth) text scan) :
    scan = atDepth (depth + text.count '{' - text.count '}') ∧ 0 < scan.depth := by
  induction text generalizing depth with
  | nil =>
    obtain rfl := scans_nil_iff.mp h
    refine ⟨?_, hdepth⟩
    simp
  | cons c text ih =>
    obtain ⟨hc, htext⟩ := not_or.mp (fun hmem => hquote (List.mem_cons.mpr hmem))
    obtain ⟨next, hnext, hrest⟩ := scans_cons_iff.mp h
    by_cases hopen : c = '{'
    · subst hopen
      obtain rfl := Option.some.inj hnext
      obtain ⟨heq, hpos⟩ := ih htext (by omega : 0 < depth + 1) hrest
      refine ⟨?_, hpos⟩
      rw [heq, List.count_cons_self, List.count_cons_of_ne (by decide)]
      congr 1
      push_cast
      omega
    · by_cases hclose : c = '}'
      · subst hclose
        -- at depth 1 the scan would have stopped here
        have hdeep : 1 < depth := by
          by_contra hle
          obtain rfl : depth = 1 := by omega
          cases hnext
        rw [scanChar_close hdeep] at hnext
        obtain rfl := Option.some.inj hnext
        obtain ⟨heq, hpos⟩ := ih htext (by omega : 0 < depth - 1) hrest
        refine ⟨?_, hpos⟩
        rw [heq, List.count_cons_self, List.count_cons_of_ne (by decide)]
        congr 1
        push_cast
        omega
      · rw [scanChar_plain (Ne.symm hc) hopen hclose] at hnext
        obtain rfl := Option.some.inj hnext
        rw [List.count_cons_of_ne hopen, List.count_cons_of_ne hclose]
        exact ih htext hdepth hrest

theorem stop_of_scanChar {c : Char} (h : scanChar (atDepth depth) c = none) :
    c = '}' ∧ depth = 1 := by
  unfold scanChar atDepth at h
  dsimp only at h
  rw [if_neg Bool.false_ne_true, if_neg Bool.false_ne_true] at h
  split_ifs at h with hquote hopen hclose hdepth
  exact ⟨hclose, by omega⟩

/-- A block is a text in braces that are balanced. -/
theorem counts_of_block {right block rest : Text} (hquote : '"' ∉ right)
    (h : findMatchingBrace ('{' :: right) = some (block, rest)) :
    '{' :: right = block ++ rest ∧ block.count '{' = block.count '}' := by
  obtain ⟨front, c, scan, rfl, htext, hscan, hstop⟩ := takeThrough_eq_some_iff.mp h
  refine ⟨by rw [htext]; simp, ?_⟩
  -- the scan does not stop at its first brace
  cases front with
  | nil =>
    obtain rfl := scans_nil_iff.mp hscan
    obtain ⟨rfl, -⟩ := List.cons.inj htext
    cases hstop
  | cons d front =>
    obtain ⟨rfl, rfl⟩ := List.cons.inj htext
    obtain ⟨next, hnext, hscan⟩ := scans_cons_iff.mp hscan
    obtain rfl : atDepth 1 = next := Option.some.inj hnext
    have hfront : '"' ∉ front := fun hmem => hquote (List.mem_append_left _ hmem)
    obtain ⟨rfl, -⟩ := scans_unquoted hfront (by decide) hscan
    obtain ⟨rfl, hdepth⟩ := stop_of_scanChar hstop
    have hlast : ['}'].count '{' = 0 := by decide
    rw [List.cons_append, List.count_cons_self, List.count_cons_of_ne (by decide), List.count_append,
      List.count_append, List.count_singleton_self, hlast]
    omega

theorem Balanced.no_close {left right : Text} (h : Balanced (left ++ right)) (hleft : '{' ∉ left) :
    left.count '}' = 0 := by
  have hstart := h.starts left (List.prefix_append left right)
  rw [List.count_eq_zero.mpr hleft] at hstart
  omega

/-- Behind a block the text is still balanced. -/
theorem Balanced.rest {text block rest : Text} (h : Balanced text) (hquote : '"' ∉ text)
    (hblock : nextBlock text = some (block, rest)) : Balanced rest := by
  obtain ⟨left, right, hleft, rfl, hmatch⟩ := nextBlock_eq_some_iff.mp hblock
  have hright : '"' ∉ right := fun hmem => hquote (by simp [hmem])
  obtain ⟨hparts, hcounts⟩ := counts_of_block hright hmatch
  have hzero := h.no_close hleft
  have hopen := List.count_eq_zero.mpr hleft
  rw [hparts] at h
  refine ⟨?_, fun start hstart => ?_⟩
  · have htotal := h.total
    simp only [List.count_append] at htotal
    omega
  · obtain ⟨more, rfl⟩ := hstart
    have hprefix := h.starts (left ++ (block ++ start)) ⟨more, by simp⟩
    simp only [List.count_append] at hprefix
    omega

/-- A balanced text without blocks has no opening brace. -/
theorem Balanced.no_open {text : Text} (h : Balanced text) (hquote : '"' ∉ text)
    (hnone : nextBlock text = none) : '{' ∉ text := by
  intro hmem
  -- from the first opening brace on, the scan never comes back to depth 0
  obtain ⟨left, right, rfl, hleft⟩ := List.eq_append_cons_of_mem hmem
  rw [nextBlock_skip hleft, nextBlock_brace] at hnone
  obtain ⟨scan, hscan⟩ := takeThrough_eq_none hnone
  obtain ⟨next, hnext, hscan⟩ := scans_cons_iff.mp hscan
  obtain rfl : atDepth 1 = next := Option.some.inj hnext
  have hright : '"' ∉ right := fun hmem => hquote (by simp [hmem])
  obtain ⟨rfl, hpos⟩ := scans_unquoted hright (by decide) hscan
  have hdepth : 0 < 1 + (right.count '{' : Int) - right.count '}' := hpos
  have hzero := h.no_close hleft
  have hopen := List.count_eq_zero.mpr hleft
  have htotal := h.total
  rw [List.count_append, List.count_append, List.count_cons_self, List.count_cons_of_ne (by decide)] at htotal
  omega

/-- All blocks are cut off a balanced text, and no opening brace is left. -/
theorem Balanced.no_open_left {text : Text} (h : Balanced text) (hquote : '"' ∉ text) :
    '{' ∉ (blocks.all text).2 := by
  have hrest : Balanced (blocks.all text).2 ∧ '"' ∉ (blocks.all text).2 := by
    refine Framer.rest_of (F := blocks) (P := fun rest => Balanced rest ∧ '"' ∉ rest) ?_ ⟨h, hquote⟩
    rintro xs block rest ⟨hbalanced, hxs⟩ hcut
    refine ⟨hbalanced.rest hxs hcut, fun hmem => hxs ?_⟩
    obtain ⟨left, -, rfl, -⟩ := nextBlock_parts hcut
    simp [hmem]
  exact hrest.1.no_open hrest.2 (Framer.cut_rest (F := blocks) text)

/-! ## 4. The plan that is found -/

/-- This text stands for this plan. -/
def IsPlanText (text : Text) (plan : Record) : Prop :=
  JsonText.parse (String.ofList text) = some (.obj plan) ∧ isProposePlanShape plan = true

theorem tryParseObject_eq_some_iff {text : Text} {plan : Record} :
    tryParseObject text = some plan ↔ JsonText.parse (String.ofList text) = some (.obj plan) := by
  unfold tryParseObject
  split
  case h_1 r heq => rw [heq, Option.some_inj, Option.some_inj, Value.obj.injEq]
  case h_2 hno =>
    constructor
    · intro h
      cases h
    · intro h
      exact absurd h (hno plan)

theorem planOf_eq_some_iff {text : Text} {found : RecoveredPlan} :
    planOf text = some found ↔
      IsPlanText text found.args ∧ found.matched = String.ofList text := by
  unfold planOf IsPlanText
  rw [← tryParseObject_eq_some_iff]
  cases hparse : tryParseObject text with
  | none => simp
  | some parsed =>
    dsimp only
    split_ifs with hshape
    · constructor
      · intro h
        rw [← Option.some.inj h]
        exact ⟨⟨rfl, hshape⟩, rfl⟩
      · rintro ⟨⟨hargs, -⟩, hmatched⟩
        obtain ⟨args, matched⟩ := found
        obtain rfl : parsed = args := Option.some.inj hargs
        obtain rfl : matched = String.ofList text := hmatched
        rfl
    · constructor
      · intro h
        cases h
      · rintro ⟨⟨hargs, htrue⟩, -⟩
        rw [← Option.some.inj hargs] at htrue
        exact absurd htrue hshape

/-- A plan has keys, and so its text has quotes. -/
theorem quote_of_isPlanText {text : Text} {plan : Record} (h : IsPlanText text plan) : '"' ∈ text := by
  by_contra hquote
  obtain ⟨hparse, hshape⟩ := h
  obtain rfl := JsonText.parse_unquoted (by rwa [String.toList_ofList]) hparse
  exact absurd hshape (by decide)

/-- What is found is one of the blocks. -/
theorem found_of_scanForPlan {text : Text} {found : RecoveredPlan} (h : scanForPlan text = some found) :
    found.matched.toList <:+: text ∧ found.matched.toList.head? = some '{' ∧
      IsPlanText found.matched.toList found.args := by
  rw [scanForPlan_eq] at h
  obtain ⟨block, hblock, hplan⟩ := List.exists_of_findSome?_eq_some h
  obtain ⟨hshape, hmatched⟩ := planOf_eq_some_iff.mp hplan
  rw [hmatched, String.toList_ofList]
  exact ⟨blocks_within text block hblock, blocks_brace text block hblock, hshape⟩

/-- What is balanced and has no quotes, and so no plan, is passed over; the plan behind it is found. -/
theorem scanForPlan_found {before space inner rest : Text} {found : RecoveredPlan}
    (hbalanced : Balanced before) (hquote : '"' ∉ before)
    (hspace : '{' ∉ space) (hnested : JsonText.Nested inner)
    (hfound : planOf ('{' :: (inner ++ ['}'])) = some found) :
    scanForPlan (before ++ (space ++ '{' :: (inner ++ '}' :: rest))) = some found := by
  -- the blocks of the text before come first, then this one
  have hnext : blocks.cut ((blocks.all before).2 ++ (space ++ '{' :: (inner ++ '}' :: rest))) =
      some ('{' :: (inner ++ ['}']), rest) := by
    show nextBlock _ = _
    rw [nextBlock_skip (hbalanced.no_open_left hquote), nextBlock_skip hspace, nextBlock_brace,
      findMatchingBrace_nested hnested]
  have hbefore : (blocks.all before).1.findSome? planOf = none := by
    rw [List.findSome?_eq_none_iff]
    intro block hblock
    cases hplan : planOf block with
    | none => rfl
    | some other =>
      have hmem := quote_of_isPlanText (planOf_eq_some_iff.mp hplan).1
      exact absurd ((blocks_within before block hblock).subset hmem) hquote
  rw [scanForPlan_eq, Framer.all_append, List.findSome?_append, hbefore, Option.none_or,
    Framer.all_of_some hnext, List.findSome?_cons, hfound]

section Examples

def samplePlan : Record :=
  [("title", .str "a"), ("steps", .arr [.obj [("id", .str "1"), ("action", .str "note"),
    ("description", .str "\x7d")]])]

def stepsText : String :=
  ",\"steps\":[\x7b\"id\":\"1\",\"action\":\"note\",\"description\":\"\x7d\"\x7d]\x7d"

def planText : String := "\x7b\"title\":\"a\"" ++ stepsText

/-- The same plan with a letter of a key as an escape. -/
def escapedPlanText : String := "\x7b\"\\u0074itle\":\"a\"" ++ stepsText

theorem isPlanText_planText : IsPlanText planText.toList samplePlan :=
  ⟨by decide +kernel, by decide +kernel⟩

theorem isPlanText_escapedPlanText : IsPlanText escapedPlanText.toList samplePlan :=
  ⟨by decide +kernel, by decide +kernel⟩

theorem isPlanText_spaced : IsPlanText (' ' :: planText.toList) samplePlan :=
  ⟨by decide +kernel, by decide +kernel⟩

end Examples

end Clemvion.Assistant
