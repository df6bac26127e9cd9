import Clemvion.Library.LastWrite
import Clemvion.Library.NumberedNames
import Mathlib.Data.List.Nodup
import Mathlib.Tactic.Common

/-!
# DisambiguateLabels — the keys under which `$node` lists the nodes

`buildDisambiguatedKeys` gives a label that occurs once to its node, and numbers the occurrences
of a repeated label: the first keeps the label, the `idx`-th gets `label#idx`.  The numbered names
live in the namespace of the labels themselves.
-/

open Clemvion.Library

namespace Clemvion.Expression

structure LabelEntry where
  id : String
  label : String
  deriving DecidableEq, Repr

/-! ## 1. The two loops -/

/-- `labelCounts`: an absent label reads as zero. -/
def countLabels (entries : List LabelEntry) : String → Nat :=
  entries.foldl (fun counts entry => Function.update counts entry.label (counts entry.label + 1))
    fun _ => 0

structure KeyState where
  labelIndices : String → Nat := fun _ => 0
  result : String → Option String := fun _ => none

/-- The name of the `idx`-th node of a repeated label. -/
def numbered (label : String) (idx : Nat) : String :=
  if idx = 1 then label else label ++ "#" ++ toString idx

def assignKey (labelCounts : String → Nat) (state : KeyState) (entry : LabelEntry) : KeyState :=
  if labelCounts entry.label = 1 then
    { state with result := write state.result (entry.id, entry.label) }
  else
    let idx := state.labelIndices entry.label + 1
    { labelIndices := Function.update state.labelIndices entry.label idx
      result := write state.result (entry.id, numbered entry.label idx) }

def buildDisambiguatedKeys (entries : List LabelEntry) : String → Option String :=
  (entries.foldl (assignKey (countLabels entries)) {}).result

/-! ## 2. The key of an entry, by its rank among the nodes of its label -/

/-- The ids of the entries with a label, in their order. -/
def bearers (entries : List LabelEntry) (label : String) : List String :=
  (entries.filter fun entry => entry.label = label).map LabelEntry.id

variable {entries seen rest : List LabelEntry} {e f : LabelEntry} {label label' : String}

theorem bearers_append :
    bearers (seen ++ rest) label = bearers seen label ++ bearers rest label := by
  simp [bearers]

theorem bearers_cons_self : bearers (e :: rest) e.label = e.id :: bearers rest e.label := by
  simp [bearers]

theorem bearers_cons_of_ne (h : e.label ≠ label) : bearers (e :: rest) label = bearers rest label := by
  simp [bearers, h]

theorem mem_bearers {id : String} :
    id ∈ bearers entries label ↔ ∃ e ∈ entries, e.label = label ∧ e.id = id := by
  simp [bearers, and_assoc]

theorem nodup_bearers (hids : (entries.map LabelEntry.id).Nodup) : (bearers entries label).Nodup :=
  hids.sublist (List.Sublist.map _ List.filter_sublist)

private theorem foldl_count (counts : String → Nat) :
    entries.foldl (fun counts entry =>
        Function.update counts entry.label (counts entry.label + 1)) counts label =
      counts label + (bearers entries label).length := by
  induction entries generalizing counts with
  | nil => simp [bearers]
  | cons e rest ih =>
    rw [List.foldl_cons, ih]
    by_cases h : e.label = label
    · subst h
      rw [bearers_cons_self, Function.update_self, List.length_cons]
      omega
    · rw [bearers_cons_of_ne h, Function.update_of_ne (Ne.symm h)]

theorem countLabels_eq : countLabels entries label = (bearers entries label).length := by
  unfold countLabels
  rw [foldl_count, Nat.zero_add]

/-- The position of an entry among those with its label, counted from one. -/
def rank (entries : List LabelEntry) (e : LabelEntry) : Nat :=
  (bearers entries e.label).idxOf e.id + 1

theorem rank_append (hids : ((seen ++ e :: rest).map LabelEntry.id).Nodup) :
    rank (seen ++ e :: rest) e = (bearers seen e.label).length + 1 := by
  have hseen : e.id ∉ bearers seen e.label := by
    intro hmem
    obtain ⟨f, hf, -, hid⟩ := mem_bearers.mp hmem
    rw [List.map_append, List.nodup_append] at hids
    exact hids.2.2 f.id (List.mem_map_of_mem hf) e.id (by simp) hid
  unfold rank
  rw [bearers_append, bearers_cons_self, List.idxOf_append_of_notMem hseen, List.idxOf_cons_self,
    Nat.add_zero]

/-- What the loop has done after a prefix of the entries: a label that occurs once is not
indexed, a repeated one has as its index the number of its entries seen. -/
structure AssignedUpTo (entries seen : List LabelEntry) (state : KeyState) : Prop where
  indices : ∀ label, (bearers entries label).length ≠ 1 →
    state.labelIndices label = (bearers seen label).length
  keys : ∀ e ∈ seen, state.result e.id = some (numbered e.label (rank entries e))

theorem assignKey_step {state : KeyState} (hentries : entries = seen ++ e :: rest)
    (hids : (entries.map LabelEntry.id).Nodup) (h : AssignedUpTo entries seen state) :
    AssignedUpTo entries (seen ++ [e]) (assignKey (countLabels entries) state e) := by
  have hrank : rank entries e = (bearers seen e.label).length + 1 := by
    rw [hentries] at hids ⊢
    exact rank_append hids
  have hfresh : ∀ f ∈ seen, f.id ≠ e.id := by
    intro f hf
    rw [hentries, List.map_append, List.nodup_append] at hids
    exact hids.2.2 f.id (List.mem_map_of_mem hf) e.id (by simp)
  -- Both branches write the same key: an entry alone with its label has rank one.
  have hresult : (assignKey (countLabels entries) state e).result =
      write state.result (e.id, numbered e.label (rank entries e)) := by
    unfold assignKey
    split
    · rename_i hone
      rw [countLabels_eq, hentries, bearers_append, bearers_cons_self, List.length_append,
        List.length_cons] at hone
      have hfirst : rank entries e = 1 := by
        rw [hrank]
        omega
      rw [hfirst]
      rfl
    · rename_i hmany
      rw [countLabels_eq] at hmany
      rw [h.indices e.label hmany, hrank]
  constructor
  · intro label hlabel
    by_cases he : e.label = label
    · subst he
      have hmany : countLabels entries e.label ≠ 1 := by
        rw [countLabels_eq]
        exact hlabel
      unfold assignKey
      rw [if_neg hmany, bearers_append, bearers_cons_self]
      show Function.update _ _ _ _ = _
      rw [Function.update_self, h.indices e.label hlabel]
      simp [bearers]
    · rw [bearers_append, bearers_cons_of_ne he]
      have hkeep : (assignKey (countLabels entries) state e).labelIndices label =
          state.labelIndices label := by
        unfold assignKey
        split
        · rfl
        · exact Function.update_of_ne (Ne.symm he) ..
      rw [hkeep, h.indices label hlabel]
      simp [bearers]
  · intro f hf
    rw [hresult]
    rcases List.mem_append.mp hf with hf | hf
    · rw [write_of_ne (hfresh f hf)]
      exact h.keys f hf
    · rw [List.mem_singleton.mp hf]
      exact write_same (e.id, _)

theorem assignKey_run {state : KeyState} (hentries : entries = seen ++ rest)
    (hids : (entries.map LabelEntry.id).Nodup) (h : AssignedUpTo entries seen state) :
    AssignedUpTo entries entries (rest.foldl (assignKey (countLabels entries)) state) := by
  induction rest generalizing seen state with
  | nil =>
    rw [List.append_nil] at hentries
    rw [hentries] at h ⊢
    exact h
  | cons e rest ih => exact ih (by simp [hentries]) (assignKey_step hentries hids h)

/-- **The key of an entry is its label, numbered by its rank.** -/
theorem buildDisambiguatedKeys_eq (hids : (entries.map LabelEntry.id).Nodup) (he : e ∈ entries) :
    buildDisambiguatedKeys entries e.id = some (numbered e.label (rank entries e)) := by
  have hstart : AssignedUpTo entries [] {} := ⟨fun _ _ => rfl, fun _ h => absurd h List.not_mem_nil⟩
  exact (assignKey_run (List.nil_append entries).symm hids hstart).keys e he

example : buildDisambiguatedKeys [⟨"a", "Code"⟩, ⟨"b", "If"⟩, ⟨"c", "Code"⟩] "c" = some "Code#2" := by
  decide

/-! ## 3. Names are determined by label and rank, up to the numbered labels -/

/-- The text after the last `#` is the number. -/
theorem hash_suffix_injective {m n : Nat}
    (h : label ++ "#" ++ toString m = label' ++ "#" ++ toString n) : label = label' ∧ m = n := by
  have hchars : label.toList ++ '#' :: Nat.toDigits 10 m = label'.toList ++ '#' :: Nat.toDigits 10 n := by
    have := congrArg String.toList h
    simpa using this
  have hhash := sep_notMem_toDigits (show Char.isDigit '#' = false by decide)
  obtain ⟨hlabel, hdigits⟩ := append_sep_inj (hhash m) (hhash n) hchars
  exact ⟨String.toList_inj.mp hlabel, toDigits_injective hdigits⟩

theorem numbered_one : numbered label 1 = label := rfl

theorem numbered_of_two_le {idx : Nat} (h : 2 ≤ idx) :
    numbered label idx = label ++ "#" ++ toString idx := if_neg (by omega)

theorem numbered_ne_self {idx : Nat} (h : 2 ≤ idx) : numbered label idx ≠ label := by
  rw [numbered_of_two_le h]
  intro heq
  have hlength := congrArg String.length heq
  simp only [String.length_append] at hlength
  have hhash : "#".length = 1 := rfl
  omega

/-- The ways two numbered names can be one: the same name twice, or a repeated label's numbered
name that is another label. -/
theorem numbered_eq_cases {m n : Nat} (hm : 1 ≤ m) (hn : 1 ≤ n)
    (h : numbered label m = numbered label' n) :
    label = label' ∧ m = n ∨ m = 1 ∧ 2 ≤ n ∧ label = numbered label' n ∨
      2 ≤ m ∧ n = 1 ∧ numbered label m = label' := by
  by_cases hm1 : m = 1
  · subst hm1
    by_cases hn1 : n = 1
    · subst hn1
      exact .inl ⟨h, rfl⟩
    · exact .inr (.inl ⟨rfl, by omega, h⟩)
  · by_cases hn1 : n = 1
    · subst hn1
      exact .inr (.inr ⟨by omega, rfl, h⟩)
    · rw [numbered_of_two_le (by omega), numbered_of_two_le (by omega)] at h
      exact .inl (hash_suffix_injective h)

/-! ## 4. When the names are free -/

/-- The `idx`-th name of a label is generated. -/
def Generated (entries : List LabelEntry) (label : String) (idx : Nat) : Prop :=
  1 ≤ idx ∧ idx ≤ (bearers entries label).length

/-- No numbered name of a repeated label is itself a label, and no generated name is the id of an
entry other than the one it is generated for. -/
structure NamesFree (entries : List LabelEntry) : Prop where
  labels : ∀ label idx, Generated entries label idx → 2 ≤ idx →
    ∀ e ∈ entries, e.label ≠ numbered label idx
  ids : ∀ label idx, Generated entries label idx →
    ∀ e ∈ entries, e.id = numbered label idx → (bearers entries label)[idx - 1]? = some e.id

theorem rank_pos : 1 ≤ rank entries e := Nat.le_add_left ..

theorem mem_bearers_self (he : e ∈ entries) : e.id ∈ bearers entries e.label :=
  mem_bearers.mpr ⟨e, he, rfl, rfl⟩

theorem generated_rank (he : e ∈ entries) : Generated entries e.label (rank entries e) :=
  ⟨rank_pos, List.idxOf_lt_length_of_mem (mem_bearers_self he)⟩

theorem getElem?_rank (he : e ∈ entries) :
    (bearers entries e.label)[rank entries e - 1]? = some e.id := by
  show (bearers entries e.label)[(bearers entries e.label).idxOf e.id]? = some e.id
  rw [List.getElem?_eq_getElem (List.idxOf_lt_length_of_mem (mem_bearers_self he)),
    List.getElem_idxOf]

theorem eq_of_id_eq (hids : (entries.map LabelEntry.id).Nodup) (he : e ∈ entries) (hf : f ∈ entries)
    (h : e.id = f.id) : e = f := List.inj_on_of_nodup_map hids he hf h

/-- The entry a generated name is made for. -/
theorem exists_of_generated {idx : Nat} (hids : (entries.map LabelEntry.id).Nodup)
    (h : Generated entries label idx) :
    ∃ e ∈ entries, e.label = label ∧ rank entries e = idx ∧
      (bearers entries label)[idx - 1]? = some e.id := by
  obtain ⟨hpos, hle⟩ := h
  have hlt : idx - 1 < (bearers entries label).length := by omega
  obtain ⟨e, he, hlabel, hid⟩ := mem_bearers.mp (List.getElem_mem hlt)
  have hrank : (bearers entries label).idxOf e.id = idx - 1 := by
    rw [hid]
    exact (nodup_bearers hids).idxOf_getElem _ hlt
  refine ⟨e, he, hlabel, ?_, ?_⟩
  · unfold rank
    rw [hlabel, hrank]
    omega
  · rw [List.getElem?_eq_getElem hlt, hid]

/-- Entries of one label and one rank are one entry. -/
theorem eq_of_rank_eq (hids : (entries.map LabelEntry.id).Nodup) (he : e ∈ entries)
    (hf : f ∈ entries) (hlabel : e.label = f.label) (hrank : rank entries e = rank entries f) :
    e = f := by
  have hid := getElem?_rank he
  rw [hlabel, hrank, getElem?_rank hf] at hid
  exact eq_of_id_eq hids he hf (Option.some.inj hid).symm

/-- The key `buildDisambiguatedKeys` assigns to an entry. -/
abbrev keyOf (entries : List LabelEntry) (e : LabelEntry) : String :=
  numbered e.label (rank entries e)

/-- The assigned keys are distinct, and none is the id of another entry. -/
structure KeysApart (entries : List LabelEntry) : Prop where
  keys : ∀ e ∈ entries, ∀ f ∈ entries,
    buildDisambiguatedKeys entries e.id = buildDisambiguatedKeys entries f.id → e.id = f.id
  ids : ∀ e ∈ entries, ∀ f ∈ entries,
    buildDisambiguatedKeys entries e.id = some f.id → e.id = f.id

variable (hids : (entries.map LabelEntry.id).Nodup)
include hids

theorem keyOf_injective (h : NamesFree entries) (he : e ∈ entries) (hf : f ∈ entries)
    (hkey : keyOf entries e = keyOf entries f) : e = f := by
  rcases numbered_eq_cases rank_pos rank_pos hkey with
    ⟨hlabel, hrank⟩ | ⟨-, htwo, hclash⟩ | ⟨htwo, -, hclash⟩
  · exact eq_of_rank_eq hids he hf hlabel hrank
  · exact absurd hclash (h.labels _ _ (generated_rank hf) htwo e he)
  · exact absurd hclash.symm (h.labels _ _ (generated_rank he) htwo f hf)

/-- The first entry of a label takes the label as its key. -/
theorem exists_keyOf_eq_label (he : e ∈ entries) :
    ∃ f ∈ entries, f.label = e.label ∧ keyOf entries f = e.label := by
  have hfirst : Generated entries e.label 1 :=
    ⟨Nat.le_refl 1, Nat.le_trans rank_pos (generated_rank he).2⟩
  obtain ⟨f, hf, hlabel, hrank, -⟩ := exists_of_generated hids hfirst
  exact ⟨f, hf, hlabel, by rw [keyOf, hrank, numbered_one, hlabel]⟩

/-- **The keys are apart exactly when the names are free.** -/
theorem keysApart_iff : KeysApart entries ↔ NamesFree entries := by
  constructor
  · intro h
    have hinj : ∀ e ∈ entries, ∀ f ∈ entries, keyOf entries e = keyOf entries f → e = f := by
      intro e he f hf hkey
      apply eq_of_id_eq hids he hf
      apply h.keys e he f hf
      rw [buildDisambiguatedKeys_eq hids he, buildDisambiguatedKeys_eq hids hf]
      exact congrArg some hkey
    constructor
    · intro label idx hgen htwo e he hclash
      obtain ⟨g, hg, hlabel, hrank, -⟩ := exists_of_generated hids hgen
      obtain ⟨f, hf, hflabel, hfkey⟩ := exists_keyOf_eq_label hids he
      have hsame : f = g := by
        apply hinj f hf g hg
        rw [hfkey, hclash, keyOf, hlabel, hrank]
      have hsuffix : numbered label idx ≠ label := numbered_ne_self htwo
      apply hsuffix
      rw [← hclash, ← hflabel, hsame, hlabel]
    · intro label idx hgen e he hid
      obtain ⟨g, hg, hlabel, hrank, hget⟩ := exists_of_generated hids hgen
      have hsame : g.id = e.id := by
        apply h.ids g hg e he
        rw [buildDisambiguatedKeys_eq hids hg, hlabel, hrank, hid]
      rw [hget, hsame]
  · intro h
    constructor
    · intro e he f hf hkey
      rw [buildDisambiguatedKeys_eq hids he, buildDisambiguatedKeys_eq hids hf] at hkey
      rw [keyOf_injective hids h he hf (Option.some.inj hkey)]
    · intro e he f hf hkey
      rw [buildDisambiguatedKeys_eq hids he] at hkey
      have hget := h.ids _ _ (generated_rank he) f hf (Option.some.inj hkey).symm
      rw [getElem?_rank he] at hget
      exact Option.some.inj hget

end Clemvion.Expression
