import Clemvion.KnowledgeBase.TextChunker
import Mathlib.Data.List.Infix

/-!
# ForcedCut — chunks that cover a text, and the cut by length

Chunks cover a text when they show it in order, each one behind an overlap with what was shown
before.  The cut by length covers its text and ends when the overlap is smaller than the size;
otherwise it goes round for ever.
-/

open Clemvion.Js Clemvion.Library

namespace Clemvion.KnowledgeBase

/-! ## 1. Chunks that cover a text -/

/-- The pieces show the text in order; each piece may repeat an end of what was shown before. -/
inductive Covers : List Utf16 → Utf16 → Prop
  | nil : Covers [] []
  | snoc {pieces : List Utf16} {shown overlap body : Utf16} :
      Covers pieces shown → overlap <:+ shown → Covers (pieces ++ [overlap ++ body]) (shown ++ body)

/-- The largest number of tokens in a chunk: the size, the overlap and the blank between them. -/
def ChunkOptions.limit (options : ChunkOptions) : Nat := options.chunkSize + options.chunkOverlap + 1

structure Sound (options : ChunkOptions) (chunks : List Chunk) (shown : Utf16) : Prop where
  covers : Covers (chunks.map fun chunk => visible chunk.content) shown
  indexes : chunks.map (·.index) = List.range chunks.length
  limits : ∀ chunk ∈ chunks, chunk.tokenCount ≤ options.limit ∧ estimateTokens chunk.content ≤ options.limit

/-- Every chunk shows something. -/
def AllShown (chunks : List Chunk) : Prop := ∀ chunk ∈ chunks, visible chunk.content ≠ []

theorem allShown_append {chunks more : List Chunk} :
    AllShown (chunks ++ more) ↔ AllShown chunks ∧ AllShown more := List.forall_mem_append

theorem allShown_singleton {chunk : Chunk} : AllShown [chunk] ↔ visible chunk.content ≠ [] := by
  simp [AllShown]

theorem sound_nil (options : ChunkOptions) : Sound options [] [] := ⟨.nil, rfl, by simp⟩

theorem length_trimUnits_le (s : Utf16) : (trimUnits s).length ≤ s.length := by
  unfold trimUnits
  rw [List.length_reverse]
  have h := (List.dropWhile_sublist isSpaceUnit (l := (s.dropWhile isSpaceUnit).reverse)).length_le
  have h' := (List.dropWhile_sublist isSpaceUnit (l := s)).length_le
  rw [List.length_reverse] at h
  omega

theorem estimateTokens_trimUnits_le (s : Utf16) : estimateTokens (trimUnits s) ≤ estimateTokens s := by
  have := length_trimUnits_le s
  unfold estimateTokens
  omega

theorem Sound.snoc {options : ChunkOptions} {chunks : List Chunk} {shown overlap body : Utf16} {chunk : Chunk}
    (h : Sound options chunks shown) (hcontent : visible chunk.content = overlap ++ body)
    (hoverlap : overlap <:+ shown) (hindex : chunk.index = chunks.length)
    (hlimit : chunk.tokenCount ≤ options.limit ∧ estimateTokens chunk.content ≤ options.limit) :
    Sound options (chunks ++ [chunk]) (shown ++ body) := by
  refine ⟨?_, ?_, ?_⟩
  · rw [List.map_append, List.map_singleton, hcontent]
    exact h.covers.snoc hoverlap
  · rw [List.map_append, h.indexes, List.map_singleton, hindex, List.length_append, List.length_singleton,
      List.range_succ]
  · intro other hother
    rcases List.mem_append.mp hother with hother | hother
    · exact h.limits other hother
    · rw [List.mem_singleton.mp hother]
      exact hlimit

/-- A chunk of overlap and content shows both. -/
theorem pushChunk_spec {options : ChunkOptions} {chunks : List Chunk} {shown content overlap : Utf16}
    (m : ChunkMetadata) (h : Sound options chunks shown) (hoverlap : visible overlap <:+ shown)
    (hcontent : content.length ≤ 3 * options.chunkSize) (hlength : overlap.length ≤ 3 * options.chunkOverlap) :
    Sound options (pushChunk chunks content overlap m) (shown ++ visible content) ∧
      ∃ chunk, pushChunk chunks content overlap m = chunks ++ [chunk] ∧
        visible chunk.content = visible overlap ++ visible content := by
  have htext : ∃ text, pushChunk chunks content overlap m =
      chunks ++ [⟨trimUnits text, chunks.length, estimateTokens text, m⟩] ∧
      visible text = visible overlap ++ visible content ∧ text.length ≤ overlap.length + content.length + 1 := by
    unfold pushChunk
    by_cases hnil : overlap = []
    · refine ⟨content, by simp [hnil], by simp [hnil], by omega⟩
    · refine ⟨overlap ++ 32 :: content, by simp [hnil], ?_, ?_⟩
      · rw [visible_append, visible_cons_space (by decide)]
      · rw [List.length_append, List.length_cons]
        omega
  obtain ⟨text, hpush, hvisible, hlen⟩ := htext
  have htokens : estimateTokens text ≤ options.limit := by
    unfold estimateTokens ChunkOptions.limit
    omega
  rw [hpush]
  refine ⟨h.snoc ?_ hoverlap rfl ⟨htokens, ?_⟩, _, rfl, ?_⟩
  · rw [visible_trimUnits, hvisible]
  · exact Nat.le_trans (estimateTokens_trimUnits_le text) htokens
  · rw [visible_trimUnits, hvisible]

/-! ## 2. The forced cut -/

theorem substring_eq {text : Utf16} {a b : Nat} (hab : a ≤ b) (hb : b ≤ text.length) :
    substring text a b = (text.take b).drop a := by
  unfold substring
  simp only [Int.toNat_natCast]
  rw [Nat.min_eq_left (Nat.le_trans hab hb), Nat.min_eq_left hb, Nat.max_eq_right hab, Nat.min_eq_left hab]

/-- A window of the text: what repeats the part before `e`, and what is new. -/
theorem window_split {text : Utf16} {a e b : Nat} (hae : a ≤ e) (heb : e ≤ b) :
    (text.take b).drop a = (text.take e).drop a ++ (text.take b).drop e ∧
      text.take b = text.take e ++ (text.take b).drop e ∧ (text.take e).drop a <:+ text.take e := by
  have htake : text.take b = text.take e ++ (text.take b).drop e := by
    conv_lhs => rw [← List.take_append_drop e (text.take b), List.take_take, Nat.min_eq_left heb]
  refine ⟨?_, htake, List.drop_suffix _ _⟩
  by_cases hlen : a ≤ (text.take e).length
  · conv_lhs => rw [htake]
    rw [List.drop_append_of_le_length hlen]
  · -- the text ends before `a`, so both windows are empty
    have hshort : text.length ≤ a := by
      rw [List.length_take] at hlen
      omega
    rw [List.drop_eq_nil_of_le (by rw [List.length_take]; omega),
      List.drop_eq_nil_of_le (by rw [List.length_take]; omega),
      List.drop_eq_nil_of_le (by rw [List.length_take]; omega), List.append_nil]

theorem visible_suffix {s t : Utf16} (h : s <:+ t) : visible s <:+ visible t := by
  obtain ⟨front, rfl⟩ := h
  rw [visible_append]
  exact List.suffix_append _ _

/-- Before a pass of the loop: the text is pushed up to `e`, and `start` lies at most the overlap
    behind it.  The chunks in front of the cut are `before`. -/
structure CutTo (options : ChunkOptions) (before : List Chunk) (shown text : Utf16) (s : ForceSplit) (e : Nat) :
    Prop where
  sound : Sound options s.chunks (shown ++ visible (text.take e))
  le : e ≤ text.length
  nonneg : 0 ≤ s.start
  start_le : s.start ≤ e
  reach : e ≤ s.start + options.chunkOverlap * 3
  grown : ∃ more, s.chunks = before ++ more ∧ AllShown more

/-- A window of the text is pushed when there is anything to see in it. -/
theorem CutTo.push {options : ChunkOptions} {before : List Chunk} {shown text : Utf16} {s : ForceSplit} {e a b : Nat}
    {m : ChunkMetadata} (h : CutTo options before shown text s e) (ha : a ≤ e) (heb : e ≤ b) (hb : b ≤ text.length)
    (hsize : b - a ≤ options.limit * 3) {content : Utf16} (hcontent : content = trimUnits (substring text a b)) :
    Sound options (if content ≠ [] then pushTrimmed s.chunks content m else s.chunks)
        (shown ++ visible (text.take b)) ∧
      ∃ more, (if content ≠ [] then pushTrimmed s.chunks content m else s.chunks) = before ++ more ∧
        AllShown more := by
  obtain ⟨hwindow, htake, hsuffix⟩ := @window_split text a e b ha heb
  have hvisible : visible content = visible ((text.take e).drop a) ++ visible ((text.take b).drop e) := by
    rw [hcontent, visible_trimUnits, substring_eq (Nat.le_trans ha heb) hb, hwindow, visible_append]
  have hshown : shown ++ visible (text.take b) =
      shown ++ visible (text.take e) ++ visible ((text.take b).drop e) := by
    rw [htake, visible_append, List.append_assoc, ← htake]
  have hlength : content.length ≤ b - a := by
    rw [hcontent]
    apply Nat.le_trans (length_trimUnits_le _)
    rw [substring_eq (Nat.le_trans ha heb) hb, List.length_drop, List.length_take]
    omega
  have htokens : estimateTokens content ≤ options.limit := by
    unfold estimateTokens
    omega
  obtain ⟨more, hmore, hall⟩ := h.grown
  rw [hshown]
  by_cases hnil : content = []
  · have hblank : visible ((text.take b).drop e) = [] := by
      rw [hnil, visible_nil] at hvisible
      exact (List.append_eq_nil_iff.mp hvisible.symm).2
    rw [if_neg (not_not.mpr hnil), hblank, List.append_nil]
    exact ⟨h.sound, more, hmore, hall⟩
  · rw [if_pos hnil]
    refine ⟨h.sound.snoc hvisible ?_ rfl ⟨htokens, htokens⟩,
      more ++ [⟨content, s.chunks.length, estimateTokens content, m⟩], ?_, ?_⟩
    · obtain ⟨front, hfront⟩ := visible_suffix hsuffix
      exact ⟨shown ++ front, by rw [← hfront, List.append_assoc]⟩
    · rw [← List.append_assoc, ← hmore]
      rfl
    · rw [allShown_append]
      refine ⟨hall, allShown_singleton.mpr ?_⟩
      intro hblank
      apply hnil
      rw [hcontent, visible_trimUnits] at hblank
      rw [hcontent, trimUnits_eq_nil_iff]
      exact hblank

/-- One pass cuts to the next end; it goes round again only from a later start, and it ends at the
    end of the text. -/
theorem CutTo.step {options : ChunkOptions} {before : List Chunk} {shown text : Utf16} {s : ForceSplit} {e : Nat}
    {m : ChunkMetadata} (h : CutTo options before shown text s e) (hoverlap : options.chunkOverlap < options.chunkSize)
    (hlong : 3 * options.chunkSize < text.length) (hstart : s.start < text.length) :
    ∃ e', CutTo options before shown text (forceSplitStep text options m s).1 e' ∧
      (((forceSplitStep text options m s).2 = none ∧ s.start < (forceSplitStep text options m s).1.start ∧
          (forceSplitStep text options m s).1.start < text.length) ∨
        ((forceSplitStep text options m s).2 = some () ∧ e' = text.length)) := by
  obtain ⟨a, ha⟩ := Int.eq_ofNat_of_zero_le h.nonneg
  have hle := h.start_le
  have hreach := h.reach
  have hlen := h.le
  obtain ⟨b, hb⟩ : ∃ b : Nat, min (s.start + options.chunkSize * 3) text.length = b := by
    refine ⟨min (a + options.chunkSize * 3) text.length, ?_⟩
    omega
  have hbound : b ≤ text.length ∧ e ≤ b ∧ b - a ≤ options.limit * 3 := by
    unfold ChunkOptions.limit
    omega
  obtain ⟨hsound, hgrown⟩ := h.push (m := m) (by omega) hbound.2.1 hbound.1 hbound.2.2
    (Eq.refl (trimUnits (substring text a b)))
  unfold forceSplitStep
  rw [if_pos hstart]
  simp only [hb]
  rw [ha] at *
  refine ⟨b, ⟨hsound, hbound.1, ?_, ?_, ?_, hgrown⟩, ?_⟩
  · show (0 : Int) ≤ b - options.chunkOverlap * 3
    omega
  · show (b - options.chunkOverlap * 3 : Int) ≤ b
    omega
  · show (b : Int) ≤ b - options.chunkOverlap * 3 + options.chunkOverlap * 3
    omega
  · show (_ ∧ (a : Int) < b - options.chunkOverlap * 3 ∧ (b - options.chunkOverlap * 3 : Int) < text.length) ∨
      (_ ∧ b = text.length)
    by_cases hend : b = text.length
    · rw [if_pos (by omega)]
      exact Or.inr ⟨rfl, hend⟩
    · rw [if_neg (by omega)]
      exact Or.inl ⟨rfl, by omega, by omega⟩

/-- What is left behind the loop is the overlap, pushed once more or not at all. -/
theorem CutTo.pushRemaining {options : ChunkOptions} {before : List Chunk} {shown text : Utf16} {s : ForceSplit}
    {m : ChunkMetadata} (h : CutTo options before shown text s text.length) :
    ∃ more, pushRemaining text m s = before ++ more ∧ Sound options (before ++ more) (shown ++ visible text) ∧
      AllShown more := by
  have hsound := h.sound
  rw [List.take_length] at hsound
  obtain ⟨more, hmore, hall⟩ := h.grown
  obtain ⟨a, ha⟩ := Int.eq_ofNat_of_zero_le h.nonneg
  have hle := h.start_le
  have hreach := h.reach
  obtain ⟨hpushed, hgrown⟩ := h.push (m := m) (by omega) (Nat.le_refl _)
    (Nat.le_refl _) (by unfold ChunkOptions.limit; omega) (Eq.refl (trimUnits (substring text a text.length)))
  rw [List.take_length] at hpushed
  unfold KnowledgeBase.pushRemaining
  by_cases hinside : s.start < text.length
  · rw [if_pos hinside]
    simp only [ha]
    by_cases hpush : trimUnits (substring text a text.length) ≠ [] ∧
        some (trimUnits (substring text a text.length)) ≠ s.chunks.getLast?.map (·.content)
    · rw [if_pos hpush]
      rw [if_pos hpush.1] at hpushed hgrown
      obtain ⟨more', hmore', hall'⟩ := hgrown
      rw [hmore'] at hpushed
      exact ⟨more', hmore', hpushed, hall'⟩
    · rw [if_neg hpush]
      exact ⟨more, hmore, hmore ▸ hsound, hall⟩
  · rw [if_neg hinside]
    exact ⟨more, hmore, hmore ▸ hsound, hall⟩

/-- **The forced cut ends** when the overlap is smaller than the size, and pushes all of the text. -/
theorem forceSplitAndPush_spec {options : ChunkOptions} {chunks : List Chunk} {shown text : Utf16} {m : ChunkMetadata}
    {fuel : Nat} (hsound : Sound options chunks shown) (hoverlap : options.chunkOverlap < options.chunkSize)
    (hlong : 3 * options.chunkSize < text.length) (hfuel : text.length < fuel) :
    ∃ more, forceSplitAndPush fuel chunks text options m = some (chunks ++ more) ∧
      Sound options (chunks ++ more) (shown ++ visible text) ∧ AllShown more := by
  have hinit : CutTo options chunks shown text ⟨chunks, 0⟩ 0 := by
    refine ⟨?_, Nat.zero_le _, Int.le_refl 0, Int.le_refl 0, ?_, [], (List.append_nil chunks).symm, by simp [AllShown]⟩
    · simpa using hsound
    · simp only
      omega
  obtain ⟨s, s', ended, -, ⟨⟨e, hcut⟩, hstart⟩, hlast, hrun⟩ := @runLoop_of_rank _ _
    (forceSplitStep text options m)
    (fun s => (∃ e, CutTo options chunks shown text s e) ∧ s.start < text.length) (fun s => (text.length - s.start).toNat)
    (by
      rintro s t ⟨⟨e, hcut⟩, hstart⟩ hstep
      obtain ⟨e', hcut', ⟨-, hlater, hinside⟩ | ⟨hdone, -⟩⟩ := hcut.step (m := m) hoverlap hlong hstart
      · rw [hstep] at hcut' hlater hinside
        exact ⟨⟨⟨e', hcut'⟩, hinside⟩, by simp only at hlater hinside ⊢; omega⟩
      · rw [hstep] at hdone
        cases hdone)
    fuel ⟨chunks, 0⟩ ⟨⟨0, hinit⟩, by simp only; omega⟩ (by simp only; omega)
  obtain ⟨e', hcut', ⟨hround, -, -⟩ | ⟨-, hend⟩⟩ := hcut.step (m := m) hoverlap hlong hstart
  · rw [hlast] at hround
    cases hround
  · rw [hlast, hend] at hcut'
    obtain ⟨more, hmore, hsound', hall⟩ := hcut'.pushRemaining (m := m)
    unfold forceSplitAndPush
    rw [hrun]
    exact ⟨more, congrArg some hmore, hsound', hall⟩

/-- **The forced cut never ends** when the overlap is not smaller than the size: the next start does
    not lie behind the last one. -/
theorem forceSplitAndPush_diverges {options : ChunkOptions} {text : Utf16} {m : ChunkMetadata}
    (hoverlap : options.chunkSize ≤ options.chunkOverlap) (hlong : 3 * options.chunkSize < text.length)
    (fuel : Nat) (chunks : List Chunk) : forceSplitAndPush fuel chunks text options m = none := by
  have hround : ∀ fuel (s : ForceSplit), s.start ≤ 0 →
      (runLoop (forceSplitStep text options m) fuel s).2 = none := by
    intro fuel
    induction fuel with
    | zero => exact fun s _ => rfl
    | succ fuel ih =>
      intro s hs
      have hstep : (forceSplitStep text options m s).2 = none ∧ (forceSplitStep text options m s).1.start ≤ 0 := by
        unfold forceSplitStep
        rw [if_pos (by omega)]
        have hmin : min (s.start + options.chunkSize * 3) text.length = s.start + options.chunkSize * 3 := by
          omega
        simp only [hmin]
        exact ⟨if_neg (by omega), by omega⟩
      rw [runLoop]
      rcases hres : forceSplitStep text options m s with ⟨s', _ | ended⟩
      · rw [hres] at hstep
        exact ih s' hstep.2
      · rw [hres] at hstep
        cases hstep.1
  unfold forceSplitAndPush
  have hnone := hround fuel ⟨chunks, 0⟩ (Int.le_refl 0)
  rcases hres : runLoop (forceSplitStep text options m) fuel ⟨chunks, 0⟩ with ⟨s, _ | ended⟩
  · rfl
  · rw [hres] at hnone
    cases hnone

end Clemvion.KnowledgeBase
