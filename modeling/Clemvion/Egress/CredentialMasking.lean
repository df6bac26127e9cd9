import Clemvion.Egress.SanitizeErrorMessage

/-!
# CredentialMasking — which credentials the masking by key lets through

A credential is revealed by key wherever objects, arrays and the texts of JSON inside of strings
lead to one.  The walk sees what `JSON.parse` makes of a text, the reader of the result sees its
members; the two differ where a text is returned as it was written.
-/

open Clemvion.Js

namespace Clemvion.Egress

/-! ## 1. Credentials that can be read by key -/

/-- What may stand under the name of a credential. -/
def isMasked (v : Value) : Bool := v = .null || v = .str "" || isMaskedMarker v

/-- A credential can be read off the value, every member of a text of JSON counting. -/
inductive RevealsCredential : Value → Prop
  | stored {fields : List (String × Value)} {key : String} {v : Value}
      (hmem : (key, v) ∈ fields) (hkey : credentialKeyPattern.matchesWhole key = true)
      (hv : isMasked v = false) : RevealsCredential (.obj fields)
  | property {fields : List (String × Value)} {key : String} {v : Value}
      (hmem : (key, v) ∈ fields) (hv : RevealsCredential v) : RevealsCredential (.obj fields)
  | item {items : List Value} {v : Value} (hmem : v ∈ items) (hv : RevealsCredential v) :
      RevealsCredential (.arr items)
  | text {s : String} {members : Value} (hmembers : JsonText.membersOf s = some members)
      (hobject : members.isObject = true) (hv : RevealsCredential members) :
      RevealsCredential (.str s)

/-! ## 2. What the walk has to mask -/

/-- The value that a text is walked as. -/
def textValue (s : String) : Option Value :=
  if s ≠ "" && looksLikeJson s then JsonText.parse s else none

/-- There is nothing to mask within so many levels. -/
def Untouched : Nat → Value → Prop
  | 0, .str s => textValue s = none ∧ redactSecrets s = s
  | levels + 1, .str s =>
    match textValue s with
    | some parsed => Untouched levels parsed
    | none => redactSecrets s = s
  | 0, v => v.isObject = false
  | levels + 1, .arr items => ∀ item ∈ items, Untouched levels item
  | levels + 1, .obj fields => ∀ field ∈ fields,
      if holdsValue field.2 && credentialKeyPattern.matchesWhole field.1 then
        isMaskedMarker field.2 = true
      else Untouched levels field.2
  | _ + 1, _ => True

/-- The walk overlooks a credential: in a text that it returns as it was written because nothing
of what it parses to has to be masked, or in one that becomes JSON only by masking what is no
JSON. -/
def Overlooked : Nat → Value → Prop
  | 0, .str s => textValue s = none ∧ RevealsCredential (.str (redactSecrets s))
  | levels + 1, .str s =>
    match textValue s with
    | some parsed =>
      Untouched levels parsed ∧ RevealsCredential (.str s) ∨
        ¬Untouched levels parsed ∧ Overlooked levels parsed
    | none => RevealsCredential (.str (redactSecrets s))
  | levels + 1, .arr items => ∃ item ∈ items, Overlooked levels item
  | levels + 1, .obj fields => ∃ field ∈ fields,
      (holdsValue field.2 && credentialKeyPattern.matchesWhole field.1) = false ∧
        Overlooked levels field.2
  | _, _ => False

/-! ## 3. The walk over a text -/

/-- What the walk makes of a text, in terms of the value it is walked as. -/
theorem redactString_eq (redactParsed : Value → Value) (s : String) :
    redactString redactParsed s =
      match textValue s with
      | some parsed =>
        if redactParsed parsed = parsed then s else JsonText.stringify (redactParsed parsed)
      | none => redactSecrets s := by
  unfold redactString redactSecretsInJsonString textValue
  by_cases hlooks : looksLikeJson s = true
  · by_cases hempty : s = ""
    · rw [hempty] at hlooks
      exact absurd hlooks (by decide)
    · rw [if_pos hlooks, if_neg hempty, hlooks]
      simp only [hempty, ne_eq, not_false_eq_true, decide_true, Bool.and_self, if_true,
        Bool.not_true, Bool.false_eq_true, if_false]
      cases JsonText.parse s <;> rfl
  · rw [if_neg hlooks]
    simp [hlooks]

theorem parse_of_textValue {s : String} {parsed : Value} (h : textValue s = some parsed) :
    JsonText.parse s = some parsed := by
  unfold textValue at h
  split at h
  · exact h
  · cases h

theorem isJsSpace_of_isSpace {c : Char} (h : JsonText.isSpace c = true) : isJsSpace c = true := by
  have hcases : ((c = ' ' ∨ c = '\t') ∨ c = '\n') ∨ c = '\r' := by
    simpa [JsonText.isSpace] using h
  rcases hcases with ((rfl | rfl) | rfl) | rfl <;> decide

theorem dropWhile_skipSpace (cs : List Char) :
    (JsonText.skipSpace cs).dropWhile isJsSpace = cs.dropWhile isJsSpace := by
  induction cs with
  | nil => rfl
  | cons c cs ih =>
    by_cases hspace : JsonText.isSpace c = true
    · have hskip : JsonText.skipSpace (c :: cs) = JsonText.skipSpace cs := by
        simp [JsonText.skipSpace, hspace]
      rw [hskip, ih, List.dropWhile_cons, isJsSpace_of_isSpace hspace]
      rfl
    · rw [JsonText.skipSpace_cons (by simpa using hspace)]

/-- A text that opens like a container is read as one or not at all. -/
theorem isObject_of_readValue {fuel : Nat} {cs rest : List Char} {v : Value} {c : Char}
    (hc : c = '{' ∨ c = '[') (hhead : (cs.dropWhile isJsSpace).head? = some c)
    (h : JsonText.readValue fuel cs = some (v, rest)) : v.isObject = true := by
  have hother : ∀ d ds, JsonText.skipSpace cs = d :: ds → isJsSpace d = false →
      d ≠ '{' → d ≠ '[' → False := by
    intro d ds hskip hspace hbrace hbracket
    rw [← dropWhile_skipSpace, hskip, List.dropWhile_cons, hspace] at hhead
    have hdc : d = c := Option.some.inj hhead
    rcases hc with rfl | rfl
    · exact hbrace hdc
    · exact hbracket hdc
  cases fuel with
  | zero => cases h
  | succ fuel =>
    rw [JsonText.readValue] at h
    split at h
    case h_2 =>
      split at h
      · obtain ⟨rfl, -⟩ := Prod.mk.inj (Option.some.inj h)
        rfl
      · obtain ⟨_, -, heq⟩ := Option.map_eq_some_iff.mp h
        obtain ⟨rfl, -⟩ := Prod.mk.inj heq
        rfl
    case h_3 =>
      split at h
      · obtain ⟨rfl, -⟩ := Prod.mk.inj (Option.some.inj h)
        rfl
      · obtain ⟨_, -, heq⟩ := Option.map_eq_some_iff.mp h
        obtain ⟨rfl, -⟩ := Prod.mk.inj heq
        rfl
    case h_7 =>
      obtain ⟨⟨q, rest'⟩, hread, -⟩ := Option.map_eq_some_iff.mp h
      obtain ⟨d, ds, hskip, hd⟩ := JsonText.head_of_readNumber hread
      have hspace : isJsSpace d = false := by
        rcases hd with rfl | hdigit
        · decide
        · exact isJsSpace_of_isDigit hdigit
      have hplain : d ≠ '{' ∧ d ≠ '[' := by
        rcases hd with rfl | hdigit
        · decide
        · constructor <;>
            · rintro rfl
              exact absurd hdigit (by decide)
      exact absurd (hother d ds hskip hspace hplain.1 hplain.2) id
    all_goals
      rename_i hskip
      exact absurd (hother _ _ hskip (by decide) (by decide) (by decide)) id

theorem isObject_lastWins (v : Value) : (JsonText.lastWins v).isObject = v.isObject := by
  cases v <;> rfl

theorem isObject_of_textValue {s : String} {parsed : Value} (h : textValue s = some parsed) :
    parsed.isObject = true := by
  have hlooks : looksLikeJson s = true := by
    unfold textValue at h
    split at h
    case isTrue hcond => exact (Bool.and_eq_true_iff.mp hcond).2
    case isFalse => cases h
  obtain ⟨members, hmembers, rfl⟩ := Option.map_eq_some_iff.mp (parse_of_textValue h)
  rw [isObject_lastWins]
  unfold JsonText.membersOf at hmembers
  split at hmembers
  case h_2 => cases hmembers
  case h_1 v rest hread =>
    split at hmembers
    case isFalse => cases hmembers
    case isTrue =>
      rw [← Option.some.inj hmembers]
      unfold looksLikeJson at hlooks
      split at hlooks
      case h_1 c cs hdrop =>
        apply isObject_of_readValue (c := c) (by simpa using hlooks) _ hread
        rw [hdrop]
        rfl
      case h_2 => cases hlooks

/-- A container is written as a text that is walked as that container. -/
theorem textValue_stringify {v : Value} (hobject : v.isObject = true) (hjson : JsonText.IsJson v)
    (hkeys : JsonText.DistinctKeys v) : textValue (JsonText.stringify v) = some v := by
  have hparse := JsonText.parse_stringify hjson hkeys
  have hhead : ∃ c cs, (JsonText.stringify v).toList = c :: cs ∧ (c = '{' ∨ c = '[') := by
    unfold JsonText.stringify
    rw [String.toList_ofList]
    cases v with
    | arr items => exact ⟨'[', _, rfl, Or.inr rfl⟩
    | obj fields => exact ⟨'{', _, rfl, Or.inl rfl⟩
    | _ => cases hobject
  obtain ⟨c, cs, htext, hc⟩ := hhead
  have hlooks : looksLikeJson (JsonText.stringify v) = true := by
    unfold looksLikeJson
    rw [htext]
    rcases hc with rfl | rfl <;> rfl
  have hempty : JsonText.stringify v ≠ "" := by
    intro heq
    rw [heq] at htext
    cases htext
  unfold textValue
  rw [hlooks, if_pos (by simpa using hempty)]
  exact hparse

/-! ## 4. Well-formed values stay so -/

/-- The values of JSON. -/
def WellFormed (v : Value) : Prop := JsonText.IsJson v ∧ JsonText.DistinctKeys v

theorem wellFormed_arr {items : List Value} :
    WellFormed (.arr items) ↔ ∀ item ∈ items, WellFormed item := by
  unfold WellFormed
  show JsonText.AreJson items ∧ JsonText.AreDistinct items ↔ _
  rw [JsonText.areJson_iff, JsonText.areDistinct_iff]
  exact forall₂_and.symm

theorem wellFormed_obj {fields : List (String × Value)} : WellFormed (.obj fields) ↔
    (fields.map Prod.fst).Nodup ∧ ∀ field ∈ fields, WellFormed field.2 := by
  unfold WellFormed
  show JsonText.FieldsAreJson fields ∧ (fields.map Prod.fst).Nodup ∧
    JsonText.FieldsAreDistinct fields ↔ _
  rw [JsonText.fieldsAreJson_iff, JsonText.fieldsAreDistinct_iff, forall₂_and]
  tauto

theorem wellFormed_of_textValue {s : String} {parsed : Value} (h : textValue s = some parsed) :
    WellFormed parsed :=
  JsonText.parse_spec (parse_of_textValue h)

theorem wellFormed_deepRedactCore (levels : Nat) {v : Value} (h : WellFormed v) :
    WellFormed (deepRedactCore levels [] v) := by
  induction levels generalizing v with
  | zero =>
    cases v with
    | undefined => exact absurd h.1 id
    | num n => exact h
    | _ => exact ⟨trivial, trivial⟩
  | succ levels ih =>
    cases v with
    | undefined => exact absurd h.1 id
    | num n => exact h
    | null => exact h
    | bool b => exact h
    | str s => exact ⟨trivial, trivial⟩
    | arr items =>
      show WellFormed (.arr (items.map _))
      rw [wellFormed_arr] at h ⊢
      intro item hmem
      obtain ⟨source, hsource, rfl⟩ := List.mem_map.mp hmem
      exact ih (h source hsource)
    | obj fields =>
      show WellFormed (.obj (fields.map _))
      rw [wellFormed_obj] at h ⊢
      refine ⟨by simpa [List.map_map, Function.comp_def] using h.1, fun field hmem => ?_⟩
      obtain ⟨source, hsource, rfl⟩ := List.mem_map.mp hmem
      show WellFormed (redactProperty [] _ source.1 source.2)
      unfold redactProperty
      rw [if_neg List.not_mem_nil]
      split
      · split
        · exact h.2 source hsource
        · exact ⟨trivial, trivial⟩
      · exact ih (h.2 source hsource)

/-! ## 5. What is returned as it was -/

/-- A text is returned as it was written when what it parses to is. -/
theorem redactString_eq_self_iff {redactParsed : Value → Value} {s : String} {parsed : Value}
    (h : textValue s = some parsed) (hred : WellFormed (redactParsed parsed)) :
    redactString redactParsed s = s ↔ redactParsed parsed = parsed := by
  rw [redactString_eq, h]
  dsimp only
  split
  case isTrue heq => exact ⟨fun _ => heq, fun _ => rfl⟩
  case isFalse hne =>
    refine ⟨fun htext => ?_, fun heq => absurd heq hne⟩
    have hparse := JsonText.parse_stringify hred.1 hred.2
    rw [htext, parse_of_textValue h] at hparse
    exact (Option.some.inj hparse).symm

theorem maskContainer_of_textValue {s : String} {parsed : Value} (h : textValue s = some parsed) :
    maskContainer parsed = .str valueMaskMarker := by
  unfold maskContainer
  rw [if_pos (isObject_of_textValue h)]

theorem maskContainer_ne {s : String} {parsed : Value} (h : textValue s = some parsed) :
    maskContainer parsed ≠ parsed := by
  have hobject := isObject_of_textValue h
  rw [maskContainer_of_textValue h]
  rintro rfl
  cases hobject

theorem redactProperty_nil (redact : Value → Value) (key : String) (v : Value) :
    redactProperty [] redact key v =
      if holdsValue v && credentialKeyPattern.matchesWhole key then
        if isMaskedMarker v then v else .str valueMaskMarker
      else redact v := by
  unfold redactProperty
  rw [if_neg List.not_mem_nil]

theorem map_eq_self_iff {α : Type*} {f : α → α} {xs : List α} :
    xs.map f = xs ↔ ∀ x ∈ xs, f x = x := by
  have hid : xs.map f = xs.map id ↔ ∀ x ∈ xs, f x = id x := List.map_inj_left
  rwa [List.map_id] at hid

theorem deepRedactCore_eq_self_iff (levels : Nat) {v : Value} (h : WellFormed v) :
    deepRedactCore levels [] v = v ↔ Untouched levels v := by
  induction levels generalizing v with
  | zero =>
    cases v with
    | str s =>
      show Value.str (redactString maskContainer s) = .str s ↔ textValue s = none ∧ redactSecrets s = s
      rw [Value.str.injEq]
      cases htext : textValue s with
      | some parsed =>
        have hred : WellFormed (maskContainer parsed) := by
          rw [maskContainer_of_textValue htext]
          exact ⟨trivial, trivial⟩
        rw [redactString_eq_self_iff htext hred]
        simp [maskContainer_ne htext]
      | none =>
        rw [redactString_eq, htext]
        simp
    | arr items => exact ⟨fun heq => (nomatch heq), fun hleaf => (nomatch hleaf)⟩
    | obj fields => exact ⟨fun heq => (nomatch heq), fun hleaf => (nomatch hleaf)⟩
    | _ => exact ⟨fun _ => rfl, fun _ => rfl⟩
  | succ levels ih =>
    cases v with
    | str s =>
      show Value.str (redactString (deepRedactCore levels []) s) = .str s ↔ _
      rw [Value.str.injEq, Untouched]
      cases htext : textValue s with
      | some parsed =>
        have hparsed := wellFormed_of_textValue htext
        rw [redactString_eq_self_iff htext (wellFormed_deepRedactCore levels hparsed)]
        exact ih hparsed
      | none =>
        rw [redactString_eq, htext]
    | arr items =>
      rw [wellFormed_arr] at h
      show Value.arr (items.map _) = .arr items ↔ ∀ item ∈ items, Untouched levels item
      rw [Value.arr.injEq, map_eq_self_iff]
      exact forall₂_congr fun item hmem => ih (h item hmem)
    | obj fields =>
      rw [wellFormed_obj] at h
      show Value.obj (fields.map _) = .obj fields ↔ ∀ field ∈ fields, _
      rw [Value.obj.injEq, map_eq_self_iff]
      apply forall₂_congr
      intro field hmem
      rw [Prod.ext_iff, redactProperty_nil]
      dsimp only
      split
      · split
        case isTrue hmarker => simp [hmarker]
        case isFalse hmarker =>
          refine ⟨fun heq => ?_, fun hmarked => absurd hmarked hmarker⟩
          rw [← heq.2] at hmarker
          exact absurd rfl hmarker
      · rw [ih (h.2 field hmem)]
        exact and_iff_right rfl
    | _ => exact ⟨fun _ => trivial, fun _ => rfl⟩

/-! ## 6. What is revealed -/

/-- Reading a written container by key is reading the container. -/
theorem reveals_stringify_iff {v : Value} (hobject : v.isObject = true)
    (hjson : JsonText.IsJson v) :
    RevealsCredential (.str (JsonText.stringify v)) ↔ RevealsCredential v := by
  have hmembers := JsonText.membersOf_stringify hjson
  constructor
  · intro h
    cases h with
    | text hread _ hv =>
      rw [hmembers] at hread
      rw [Option.some.inj hread]
      exact hv
  · exact fun hv => .text hmembers hobject hv

/-- A text that is no container in JSON reveals nothing by key. -/
theorem not_reveals_str {s : String} (h : ∀ members, JsonText.membersOf s = some members →
    members.isObject = false) : ¬RevealsCredential (.str s) := by
  intro hv
  cases hv with
  | text hread hobject _ =>
    rw [h _ hread] at hobject
    cases hobject

theorem not_reveals_marker {v : Value} (h : isMaskedMarker v = true) : ¬RevealsCredential v := by
  have hnone : ∀ s ∈ maskedMarkers, (JsonText.membersOf s).isNone = true := by decide +kernel
  cases v with
  | str s =>
    apply not_reveals_str
    intro members hread
    have hmem : s ∈ maskedMarkers := of_decide_eq_true h
    have := hnone s hmem
    rw [hread] at this
    cases this
  | _ => cases h

theorem isMaskedMarker_valueMaskMarker : isMaskedMarker (.str valueMaskMarker) = true := by decide

/-- A text masked as a whole is a string in JSON, not a container. -/
theorem not_reveals_masked_text :
    ¬RevealsCredential (.str (JsonText.stringify (.str valueMaskMarker))) := by
  apply not_reveals_str
  intro members hread
  have hread' := JsonText.membersOf_stringify (v := .str valueMaskMarker) trivial
  rw [hread'] at hread
  rw [← Option.some.inj hread]
  rfl

theorem reveals_redactString_iff {redactParsed : Value → Value} {s : String} {parsed : Value}
    (h : textValue s = some parsed) : RevealsCredential (.str (redactString redactParsed s)) ↔
      redactParsed parsed = parsed ∧ RevealsCredential (.str s) ∨
        redactParsed parsed ≠ parsed ∧
          RevealsCredential (.str (JsonText.stringify (redactParsed parsed))) := by
  rw [redactString_eq, h]
  dsimp only
  split
  case isTrue heq => simp [heq]
  case isFalse hne => simp [hne]

theorem isObject_deepRedactCore_succ (levels : Nat) {v : Value} (h : v.isObject = true) :
    (deepRedactCore (levels + 1) [] v).isObject = true := by
  cases v with
  | arr items => rfl
  | obj fields => rfl
  | _ => cases h

theorem reveals_arr_iff {items : List Value} :
    RevealsCredential (.arr items) ↔ ∃ item ∈ items, RevealsCredential item := by
  constructor
  · intro h
    cases h with
    | item hmem hv => exact ⟨_, hmem, hv⟩
  · rintro ⟨item, hmem, hv⟩
    exact .item hmem hv

theorem reveals_obj_iff {fields : List (String × Value)} :
    RevealsCredential (.obj fields) ↔ ∃ field ∈ fields,
      credentialKeyPattern.matchesWhole field.1 = true ∧ isMasked field.2 = false ∨
        RevealsCredential field.2 := by
  constructor
  · intro h
    cases h with
    | stored hmem hkey hv => exact ⟨_, hmem, Or.inl ⟨hkey, hv⟩⟩
    | property hmem hv => exact ⟨_, hmem, Or.inr hv⟩
  · rintro ⟨field, hmem, ⟨hkey, hv⟩ | hv⟩
    · exact .stored hmem hkey hv
    · exact .property hmem hv

/-- A property shows its credential exactly when the walk below it overlooks one. -/
theorem reveals_redactProperty_iff {redact : Value → Value} (key : String) {v : Value}
    (hv : WellFormed v) (hnull : redact .null = .null) (hempty : redact (.str "") = .str "") :
    credentialKeyPattern.matchesWhole key = true ∧
          isMasked (redactProperty [] redact key v) = false ∨
        RevealsCredential (redactProperty [] redact key v) ↔
      (holdsValue v && credentialKeyPattern.matchesWhole key) = false ∧
        RevealsCredential (redact v) := by
  rw [redactProperty_nil]
  split
  case isTrue hholds =>
    have hmarker : isMaskedMarker (if isMaskedMarker v then v else .str valueMaskMarker) = true := by
      split
      · assumption
      · exact isMaskedMarker_valueMaskMarker
    have hmasked : isMasked (if isMaskedMarker v then v else .str valueMaskMarker) = true := by
      unfold isMasked
      rw [hmarker, Bool.or_true]
    simp [hmasked, not_reveals_marker hmarker, hholds]
  case isFalse hholds =>
    have hholds' := Bool.eq_false_iff.mpr hholds
    have hmasked : credentialKeyPattern.matchesWhole key = true → isMasked (redact v) = true := by
      intro hkey
      rw [hkey, Bool.and_true] at hholds'
      have hcases : v = .null ∨ v = .undefined ∨ v = .str "" := by
        by_contra hnone
        push Not at hnone
        simp [holdsValue, hnone] at hholds'
      rcases hcases with rfl | rfl | rfl
      · rw [hnull]
        rfl
      · exact absurd hv.1 id
      · rw [hempty]
        rfl
    rw [hholds']
    constructor
    · rintro (⟨hkey, hv'⟩ | hv')
      · rw [hmasked hkey] at hv'
        cases hv'
      · exact ⟨rfl, hv'⟩
    · exact fun hv' => Or.inr hv'.2

theorem redactString_empty (redactParsed : Value → Value) : redactString redactParsed "" = "" := by
  rw [redactString_eq]
  rfl

theorem deepRedactCore_null (levels : Nat) : deepRedactCore levels [] .null = .null := by
  cases levels <;> rfl

theorem deepRedactCore_empty (levels : Nat) : deepRedactCore levels [] (.str "") = .str "" := by
  cases levels <;> exact congrArg Value.str (redactString_empty _)

/-- The result reveals a credential by key exactly when the walk overlooks one. -/
theorem reveals_deepRedactCore_iff (levels : Nat) {v : Value} (h : WellFormed v) :
    RevealsCredential (deepRedactCore levels [] v) ↔ Overlooked levels v := by
  induction levels generalizing v with
  | zero =>
    cases v with
    | str s =>
      show RevealsCredential (.str (redactString maskContainer s)) ↔ textValue s = none ∧ _
      cases htext : textValue s with
      | some parsed =>
        rw [reveals_redactString_iff htext, maskContainer_of_textValue htext]
        have hne := maskContainer_ne htext
        rw [maskContainer_of_textValue htext] at hne
        simp [hne, not_reveals_masked_text]
      | none =>
        rw [redactString_eq, htext]
        simp
    | arr items => exact ⟨fun hv => not_reveals_marker isMaskedMarker_valueMaskMarker hv, False.elim⟩
    | obj fields => exact ⟨fun hv => not_reveals_marker isMaskedMarker_valueMaskMarker hv, False.elim⟩
    | _ => exact ⟨fun hv => (nomatch hv), False.elim⟩
  | succ levels ih =>
    cases v with
    | str s =>
      show RevealsCredential (.str (redactString (deepRedactCore levels []) s)) ↔ _
      rw [Overlooked]
      cases htext : textValue s with
      | some parsed =>
        have hparsed := wellFormed_of_textValue htext
        have hred := wellFormed_deepRedactCore levels hparsed
        have hbelow : RevealsCredential (.str (JsonText.stringify (deepRedactCore levels [] parsed))) ↔
            RevealsCredential (deepRedactCore levels [] parsed) := by
          cases levels with
          | zero =>
            have hmasked : deepRedactCore 0 [] parsed = .str valueMaskMarker := by
              have hobject := isObject_of_textValue htext
              cases parsed with
              | arr items => rfl
              | obj fields => rfl
              | _ => cases hobject
            rw [hmasked]
            exact iff_of_false not_reveals_masked_text
              (not_reveals_marker isMaskedMarker_valueMaskMarker)
          | succ levels =>
            exact reveals_stringify_iff
              (isObject_deepRedactCore_succ levels (isObject_of_textValue htext)) hred.1
        rw [reveals_redactString_iff htext, hbelow, ih hparsed, Ne,
          deepRedactCore_eq_self_iff levels hparsed]
      | none =>
        rw [redactString_eq, htext]
    | arr items =>
      rw [wellFormed_arr] at h
      show RevealsCredential (.arr (items.map _)) ↔ ∃ item ∈ items, Overlooked levels item
      rw [reveals_arr_iff]
      constructor
      · rintro ⟨_, hmem, hv⟩
        obtain ⟨item, hitem, rfl⟩ := List.mem_map.mp hmem
        exact ⟨item, hitem, (ih (h item hitem)).mp hv⟩
      · rintro ⟨item, hitem, hv⟩
        exact ⟨_, List.mem_map_of_mem hitem, (ih (h item hitem)).mpr hv⟩
    | obj fields =>
      rw [wellFormed_obj] at h
      show RevealsCredential (.obj (fields.map _)) ↔ ∃ field ∈ fields, _
      rw [reveals_obj_iff]
      have hproperty := fun (field : String × Value) (hmem : field ∈ fields) =>
        reveals_redactProperty_iff field.1 (h.2 field hmem) (deepRedactCore_null levels)
          (deepRedactCore_empty levels)
      constructor
      · rintro ⟨_, hmem, hv⟩
        obtain ⟨field, hfield, rfl⟩ := List.mem_map.mp hmem
        obtain ⟨hholds, hv'⟩ := (hproperty field hfield).mp hv
        exact ⟨field, hfield, hholds, (ih (h.2 field hfield)).mp hv'⟩
      · rintro ⟨field, hfield, hholds, hv⟩
        exact ⟨_, List.mem_map_of_mem hfield,
          (hproperty field hfield).mpr ⟨hholds, (ih (h.2 field hfield)).mpr hv⟩⟩
    | _ => exact ⟨fun hv => (nomatch hv), False.elim⟩

/-! ## 7. What stays -/

/-- A step from a value to one that it holds. -/
inductive PathStep where
  | property (key : String)
  | item (index : Nat)
  | text
  deriving DecidableEq

def valueBelow : PathStep → Value → Option Value
  | .property key, .obj fields => fields.lookup key
  | .item index, .arr items => items[index]?
  | .text, .str s => textValue s
  | _, _ => none

def valueAt : List PathStep → Value → Option Value
  | [], v => some v
  | step :: path, v => (valueBelow step v).bind (valueAt path)

/-- No step of the path leads to what stands under the name of a credential. -/
def AvoidsCredentials (path : List PathStep) : Prop :=
  ∀ key, .property key ∈ path → credentialKeyPattern.matchesWhole key = false

/-- Every leaf above the deepest level with nothing to mask in it stays where it is. -/
def KeepsLeaves (v result : Value) : Prop :=
  ∀ path leaf, path.length ≤ maxRedactDepth → AvoidsCredentials path →
    valueAt path v = some leaf → leaf.isObject = false →
    Untouched (maxRedactDepth - path.length) leaf → valueAt path result = some leaf

theorem lookup_map_redact (redact : String → Value → Value) (key : String)
    (fields : List (String × Value)) :
    (fields.map fun field => (field.1, redact field.1 field.2)).lookup key =
      (fields.lookup key).map (redact key) := by
  induction fields with
  | nil => rfl
  | cons field fields ih =>
    rw [List.map_cons, Value.lookup_cons_ite, Value.lookup_cons_ite, ih]
    by_cases hkey : key = field.1
    · rw [if_pos hkey, if_pos hkey, hkey]
      rfl
    · rw [if_neg hkey, if_neg hkey]

/-- A text that is walked as a value reads, afterwards, as the result of that walk. -/
theorem textValue_redactString {levels : Nat} {s : String} {parsed : Value}
    (h : textValue s = some parsed) :
    textValue (redactString (deepRedactCore (levels + 1) []) s) =
      some (deepRedactCore (levels + 1) [] parsed) := by
  rw [redactString_eq, h]
  dsimp only
  split
  case isTrue heq => rw [h, heq]
  case isFalse =>
    have hred := wellFormed_deepRedactCore (levels + 1) (wellFormed_of_textValue h)
    exact textValue_stringify (isObject_deepRedactCore_succ levels (isObject_of_textValue h))
      hred.1 hred.2

/-- A value with nothing to mask stays where the walk reaches it. -/
theorem valueAt_deepRedactCore {path : List PathStep} {levels : Nat} {v leaf : Value}
    (hv : WellFormed v) (hlength : path.length ≤ levels) (hpath : AvoidsCredentials path)
    (hat : valueAt path v = some leaf) (hleaf : Untouched (levels - path.length) leaf) :
    valueAt path (deepRedactCore levels [] v) = some leaf := by
  induction path generalizing levels v with
  | nil =>
    rw [← Option.some.inj hat] at hleaf ⊢
    exact congrArg some ((deepRedactCore_eq_self_iff levels hv).mpr hleaf)
  | cons step path ih =>
    have hlevels : ∃ below, levels = below + 1 :=
      Nat.exists_eq_succ_of_ne_zero (by simp only [List.length_cons] at hlength; omega)
    obtain ⟨levels, rfl⟩ := hlevels
    rw [List.length_cons, Nat.add_sub_add_right] at hleaf
    have hbelow : path.length ≤ levels := Nat.le_of_succ_le_succ hlength
    have havoids : AvoidsCredentials path := fun key hmem => hpath key (List.mem_cons_of_mem step hmem)
    obtain ⟨child, hchild, hrest⟩ := Option.bind_eq_some_iff.mp hat
    -- it is enough that the step leads to what the walk makes of the child
    suffices hstep : WellFormed child ∧ valueBelow step (deepRedactCore (levels + 1) [] v) =
        some (deepRedactCore levels [] child) by
      show (valueBelow step (deepRedactCore (levels + 1) [] v)).bind (valueAt path) = some leaf
      rw [hstep.2]
      exact ih hstep.1 hbelow havoids hrest hleaf
    cases step with
    | property key =>
      cases v with
      | obj fields =>
        have hkey : credentialKeyPattern.matchesWhole key = false :=
          hpath key List.mem_cons_self
        have hlookup : fields.lookup key = some child := hchild
        rw [wellFormed_obj] at hv
        refine ⟨hv.2 _ (Value.mem_of_lookup hlookup), ?_⟩
        show (fields.map fun field => (field.1,
          redactProperty [] (deepRedactCore levels []) field.1 field.2)).lookup key = _
        rw [lookup_map_redact (redactProperty [] (deepRedactCore levels [])), hlookup,
          Option.map_some, redactProperty_nil, hkey, Bool.and_false, if_neg Bool.false_ne_true]
      | _ => cases hchild
    | item index =>
      cases v with
      | arr items =>
        have hitem : items[index]? = some child := hchild
        rw [wellFormed_arr] at hv
        refine ⟨hv _ (List.mem_of_getElem? hitem), ?_⟩
        show (items.map (deepRedactCore levels []))[index]? = _
        rw [List.getElem?_map, hitem, Option.map_some]
      | _ => cases hchild
    | text =>
      cases v with
      | str s =>
        have htext : textValue s = some child := hchild
        refine ⟨wellFormed_of_textValue htext, ?_⟩
        show textValue (redactString (deepRedactCore levels []) s) = _
        cases levels with
        | succ levels => exact textValue_redactString htext
        | zero =>
          -- on the last level the container in the text would have to be the leaf
          have hnil : path = [] := List.eq_nil_of_length_eq_zero (by omega)
          subst hnil
          have hobject := isObject_of_textValue htext
          rw [Option.some.inj hrest] at hobject
          cases leaf with
          | arr items => cases hleaf
          | obj fields => cases hleaf
          | _ => cases hobject
      | _ => cases hchild

/-! ## 8. The masking by key -/

/-- Nothing is revealed by key and no leaf is lost. -/
def MasksByKey (v : Value) : Prop :=
  ¬RevealsCredential (deepRedactSecrets v 0) ∧ KeepsLeaves v (deepRedactSecrets v 0)

/-- The arguments of a tool call that name the password twice. -/
def repeatedPassword : String := "\x7b\"password\":\"hunter2\",\"password\":null\x7d"

end Clemvion.Egress
