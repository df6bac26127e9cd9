import Clemvion.KnowledgeBase.ForcedCut

/-!
# ChunkCoverage — what the chunks of a text hold

A text falls into pieces: small paragraphs, and the sentences of large ones.  The two nested loops
pack the pieces one after the other; a chunk is blank when the packing pushes before it has anything
to push.
-/

open Clemvion.Js Clemvion.Library

namespace Clemvion.KnowledgeBase

/-! ## 1. The pieces of a text -/

theorem visible_flatMap_modifyHead (u : UInt16) {parts : List Utf16} (h : parts ≠ []) :
    (parts.modifyHead (u :: ·)).flatMap visible = visible [u] ++ parts.flatMap visible := by
  obtain ⟨first, rest, rfl⟩ := List.exists_cons_of_ne_nil h
  rw [List.modifyHead_cons, List.flatMap_cons, List.flatMap_cons, ← List.singleton_append, visible_append,
    List.append_assoc]

theorem splitRegex_ne_nil {matchLength : Option UInt16 → Utf16 → Nat} (prev : Option UInt16) (skip : Nat)
    (text : Utf16) : splitRegex matchLength prev skip text ≠ [] := by
  induction text generalizing prev skip with
  | nil => simp [splitRegex]
  | cons u rest ih =>
    cases skip with
    | succ skip => exact ih (some u) skip
    | zero =>
      rw [splitRegex]
      cases matchLength prev (u :: rest) with
      | zero =>
        obtain ⟨first, more, h⟩ := List.exists_cons_of_ne_nil (ih (some u) 0)
        simp [h]
      | succ n => simp

/-- A split at white space hides nothing. -/
theorem visible_splitRegex {matchLength : Option UInt16 → Utf16 → Nat}
    (hspace : ∀ prev (rest : Utf16), visible (rest.take (matchLength prev rest)) = []) (prev : Option UInt16) (skip : Nat)
    (text : Utf16) : (splitRegex matchLength prev skip text).flatMap visible = visible (text.drop skip) := by
  induction text generalizing prev skip with
  | nil => simp [splitRegex]
  | cons u rest ih =>
    cases skip with
    | succ skip => exact ih (some u) skip
    | zero =>
      have hmatch := hspace prev (u :: rest)
      rw [splitRegex, List.drop_zero]
      cases hlen : matchLength prev (u :: rest) with
      | zero =>
        show ((splitRegex matchLength (some u) 0 rest).modifyHead (u :: ·)).flatMap visible = _
        rw [visible_flatMap_modifyHead u (splitRegex_ne_nil _ _ _), ih, List.drop_zero, ← visible_append]
        rfl
      | succ n =>
        show visible [] ++ (splitRegex matchLength (some u) n rest).flatMap visible = _
        rw [visible_nil, List.nil_append, ih]
        rw [hlen] at hmatch
        conv_rhs => rw [← List.take_append_drop (n + 1) (u :: rest), visible_append, hmatch]
        rfl

theorem visible_filter_trimUnits (parts : List Utf16) :
    (parts.filter fun part => trimUnits part ≠ []).flatMap visible = parts.flatMap visible := by
  induction parts with
  | nil => rfl
  | cons part rest ih =>
    rw [List.filter_cons, List.flatMap_cons]
    by_cases h : visible part = []
    · rw [if_neg (by simp [trimUnits_eq_nil_iff, h]), ih, h, List.nil_append]
    · rw [if_pos (by simp [trimUnits_eq_nil_iff, h]), List.flatMap_cons, ih]

theorem visible_takeWhile_space {p : UInt16 → Bool} (hp : ∀ u, p u = true → isSpaceUnit u = true) (s : Utf16) :
    visible (s.take (s.takeWhile p).length) = [] := by
  rw [List.prefix_iff_eq_take.mp (List.takeWhile_prefix p) |>.symm, visible_eq_nil_iff]
  intro u hu
  exact hp u (List.mem_takeWhile_imp hu)

theorem visible_splitParagraphs (text : Utf16) : (splitParagraphs text).flatMap visible = visible text := by
  unfold splitParagraphs
  rw [visible_filter_trimUnits, visible_splitRegex]
  · rfl
  · intro prev rest
    unfold paragraphBreak
    by_cases h : 2 ≤ (rest.takeWhile (· = 10)).length
    · simp only [if_pos h]
      refine visible_takeWhile_space (fun u hu => ?_) rest
      rw [decide_eq_true_iff] at hu
      rw [hu]
      decide
    · simp only [if_neg h]
      rfl

theorem visible_splitSentences (text : Utf16) : (splitSentences text).flatMap visible = visible text := by
  unfold splitSentences
  rw [visible_filter_trimUnits, visible_splitRegex]
  · rfl
  · intro prev rest
    unfold sentenceBreak
    by_cases h : prev.any isSentenceEnd = true
    · rw [if_pos h]
      exact visible_takeWhile_space (fun u hu => hu) rest
    · rw [if_neg h]
      rfl

inductive PieceKind
  | paragraph
  | firstSentence
  | laterSentence
  deriving DecidableEq

/-- What the packing puts into a chunk at once. -/
structure Piece where
  kind : PieceKind
  text : Utf16
  deriving DecidableEq

/-- The sentences of a paragraph, the first one marked. -/
def sentencePieces : List Utf16 → List Piece
  | [] => []
  | s :: rest => ⟨.firstSentence, s⟩ :: rest.map (⟨.laterSentence, ·⟩)

def paragraphPieces (options : ChunkOptions) (paragraph : Utf16) : List Piece :=
  if estimateTokens paragraph > options.chunkSize then sentencePieces (splitSentences paragraph)
  else [⟨.paragraph, paragraph⟩]

def pieces (options : ChunkOptions) (text : Utf16) : List Piece :=
  (splitParagraphs text).flatMap (paragraphPieces options)

theorem visible_sentencePieces (sentences : List Utf16) :
    (sentencePieces sentences).flatMap (fun piece => visible piece.text) = sentences.flatMap visible := by
  cases sentences with
  | nil => rfl
  | cons s rest =>
    unfold sentencePieces
    rw [List.flatMap_cons, List.flatMap_cons, List.flatMap_map]

theorem visible_pieces (options : ChunkOptions) (text : Utf16) :
    (pieces options text).flatMap (fun piece => visible piece.text) = visible text := by
  have hparagraph : ∀ p, (paragraphPieces options p).flatMap (fun piece => visible piece.text) = visible p := by
    intro p
    unfold paragraphPieces
    by_cases h : estimateTokens p > options.chunkSize
    · rw [if_pos h, visible_sentencePieces, visible_splitSentences]
    · rw [if_neg h]
      simp
  unfold pieces
  rw [List.flatMap_assoc, ← visible_splitParagraphs]
  exact List.flatMap_congr fun p _ => hparagraph p

/-- No piece is blank. -/
theorem visible_ne_nil_of_mem_pieces {options : ChunkOptions} {text : Utf16} {piece : Piece}
    (h : piece ∈ pieces options text) : visible piece.text ≠ [] := by
  have hfiltered : ∀ {parts : List Utf16} {t : Utf16}, t ∈ parts.filter (fun part => trimUnits part ≠ []) →
      visible t ≠ [] := by
    intro parts t ht
    simpa [trimUnits_eq_nil_iff] using List.of_mem_filter ht
  obtain ⟨p, hp, hpiece⟩ := List.mem_flatMap.mp h
  unfold paragraphPieces at hpiece
  by_cases hlarge : estimateTokens p > options.chunkSize
  · rw [if_pos hlarge] at hpiece
    have hsentence : piece.text ∈ splitSentences p := by
      cases hsplit : splitSentences p with
      | nil =>
        rw [hsplit] at hpiece
        cases hpiece
      | cons s rest =>
        rw [hsplit] at hpiece
        rcases List.mem_cons.mp hpiece with rfl | hrest
        · simp
        · obtain ⟨s', hs', rfl⟩ := List.mem_map.mp hrest
          exact List.mem_cons_of_mem _ hs'
    exact hfiltered hsentence
  · rw [if_neg hlarge, List.mem_singleton] at hpiece
    rw [hpiece]
    exact hfiltered hp

/-! ## 2. Packing the pieces -/

/-- A piece is cut by length when it is too large for a chunk. -/
def Forced (options : ChunkOptions) (piece : Piece) : Prop := estimateTokens piece.text > options.chunkSize

instance (options : ChunkOptions) (piece : Piece) : Decidable (Forced options piece) :=
  inferInstanceAs (Decidable (_ > _))

/-- The packing of one piece; a first sentence closes the chunk in front of it. -/
def packPiece (fuel : Nat) (options : ChunkOptions) (m : ChunkMetadata) (s : Packing) (piece : Piece) : Option Packing :=
  match piece.kind with
  | .paragraph => packParagraph fuel options m s piece.text
  | .firstSentence =>
    packSentence fuel options m (if trimUnits s.currentChunk ≠ [] then s.flush options m [] else s) piece.text
  | .laterSentence => packSentence fuel options m s piece.text

theorem foldlM_sentencePieces {fuel : Nat} {options : ChunkOptions} {m : ChunkMetadata} {sentences : List Utf16}
    (h : sentences ≠ []) (s : Packing) :
    (sentencePieces sentences).foldlM (packPiece fuel options m) s =
      sentences.foldlM (packSentence fuel options m)
        (if trimUnits s.currentChunk ≠ [] then s.flush options m [] else s) := by
  obtain ⟨first, rest, rfl⟩ := List.exists_cons_of_ne_nil h
  unfold sentencePieces
  rw [List.foldlM_cons, List.foldlM_cons]
  congr 1
  funext s'
  rw [List.foldlM_map]
  rfl

/-- The two loops together pack the pieces one after the other. -/
theorem foldlM_packPiece {fuel : Nat} {options : ChunkOptions} {m : ChunkMetadata} {paragraphs : List Utf16}
    (h : ∀ p ∈ paragraphs, visible p ≠ []) (s : Packing) :
    paragraphs.foldlM (packParagraph fuel options m) s =
      (paragraphs.flatMap (paragraphPieces options)).foldlM (packPiece fuel options m) s := by
  induction paragraphs generalizing s with
  | nil => rfl
  | cons p rest ih =>
    rw [List.forall_mem_cons] at h
    have hone : (paragraphPieces options p).foldlM (packPiece fuel options m) s = packParagraph fuel options m s p := by
      unfold paragraphPieces
      by_cases hlarge : estimateTokens p > options.chunkSize
      · have hsentences : splitSentences p ≠ [] := by
          intro hnil
          have := visible_splitSentences p
          rw [hnil] at this
          exact h.1 this.symm
        rw [if_pos hlarge, foldlM_sentencePieces hsentences]
        unfold packParagraph
        rw [if_pos hlarge]
      · rw [if_neg hlarge, List.foldlM_cons]
        show (packParagraph fuel options m s p >>= fun s' => pure s') = _
        exact bind_pure _
    rw [List.foldlM_cons, List.flatMap_cons, List.foldlM_append, hone]
    congr 1
    funext s'
    exact ih h.2 s'

/-- The text that the open chunk ends with: the last piece, unless it was cut by length. -/
def carriedText (options : ChunkOptions) (last : Option Piece) : Option Utf16 :=
  (last.filter fun piece => ¬ Forced options piece).map (·.text)

/-- What is pushed and what stands in the open chunk are the text so far. -/
structure Filled (options : ChunkOptions) (shown : Utf16) (s : Packing) : Prop where
  sound : ∃ pushed, Sound options s.chunks pushed ∧ shown = pushed ++ visible s.currentChunk ∧
    visible s.overlapBuffer <:+ pushed
  current_le : s.currentChunk.length ≤ 3 * options.chunkSize
  overlap_le : s.overlapBuffer.length ≤ 3 * options.chunkOverlap
  current_shown : s.currentChunk ≠ [] → visible s.currentChunk ≠ []

/-- Between two pieces: the open chunk ends with `carried`, or there is none and no overlap. -/
structure Packed (options : ChunkOptions) (shown : Utf16) (carried : Option Utf16) (s : Packing) : Prop
    extends Filled options shown s where
  nothing : carried = none → s.currentChunk = [] ∧ s.overlapBuffer = []
  ends : ∀ t, carried = some t → visible t ≠ [] ∧ t <:+ s.currentChunk

theorem Packed.current_blank_iff {options : ChunkOptions} {shown : Utf16} {carried : Option Utf16} {s : Packing}
    (h : Packed options shown carried s) : visible s.currentChunk = [] ↔ carried = none := by
  constructor
  · intro hblank
    cases hcarried : carried with
    | none => rfl
    | some t =>
      obtain ⟨hshown, hsuffix⟩ := h.ends t hcarried
      have := visible_suffix hsuffix
      rw [hblank, List.suffix_nil] at this
      exact absurd this hshown
  · intro hcarried
    rw [(h.nothing hcarried).1, visible_nil]

theorem getOverlapText_spec (t : Utf16) (n : Nat) :
    (getOverlapText t n).length ≤ 3 * n ∧ getOverlapText t n <:+ t := by
  unfold getOverlapText
  by_cases hn : n ≤ 0
  · rw [if_pos hn]
    exact ⟨Nat.zero_le _, List.nil_suffix⟩
  · rw [if_neg hn]
    by_cases hlen : t.length ≤ n * 3
    · rw [if_pos hlen]
      exact ⟨by omega, List.suffix_refl t⟩
    · rw [if_neg hlen, List.length_drop]
      exact ⟨by omega, List.drop_suffix _ _⟩

/-- Whether the overlap shows anything is decided by the last piece of the chunk. -/
theorem visible_getOverlapText {t whole : Utf16} (n : Nat) (hshown : visible t ≠ []) (h : t <:+ whole) :
    visible (getOverlapText whole n) = [] ↔ visible (getOverlapText t n) = [] := by
  obtain ⟨front, rfl⟩ := h
  by_cases hn : n ≤ 0
  · unfold getOverlapText
    rw [if_pos hn, if_pos hn]
  have hall : ∀ s : Utf16, t <:+ s → visible s ≠ [] := by
    intro s hs hblank
    have := visible_suffix hs
    rw [hblank, List.suffix_nil] at this
    exact hshown this
  by_cases hshort : t.length ≤ n * 3
  · -- the piece fits into the overlap, so both overlaps show it
    have hleft : t <:+ getOverlapText (front ++ t) n := by
      unfold getOverlapText
      rw [if_neg hn]
      by_cases hlen : (front ++ t).length ≤ n * 3
      · rw [if_pos hlen]
        exact List.suffix_append front t
      · rw [if_neg hlen]
        rw [List.length_append] at hlen ⊢
        rw [List.drop_append_of_le_length (by omega)]
        exact List.suffix_append _ t
    have hright : getOverlapText t n = t := by
      unfold getOverlapText
      rw [if_neg hn, if_pos hshort]
    rw [hright]
    exact ⟨fun h => absurd h (hall _ hleft), fun h => absurd h hshown⟩
  · have hlen : ¬ (front ++ t).length ≤ n * 3 := by
      rw [List.length_append]
      omega
    unfold getOverlapText
    rw [if_neg hn, if_neg hn, if_neg hshort, if_neg hlen, List.length_append, List.drop_append,
      List.drop_eq_nil_of_le (by omega), List.nil_append, show front.length + t.length - n * 3 - front.length =
        t.length - n * 3 by omega]

theorem length_le_of_estimateTokens_le {t : Utf16} {n : Nat} (h : ¬ estimateTokens t > n) : t.length ≤ 3 * n := by
  unfold estimateTokens at h
  omega

/-- Flushing pushes the overlap and the open chunk. -/
theorem Filled.flush {options : ChunkOptions} {shown : Utf16} {s : Packing} {m : ChunkMetadata}
    (h : Filled options shown s) {next : Utf16} (hnext : next.length ≤ 3 * options.chunkSize)
    (hshown : next ≠ [] → visible next ≠ []) :
    Filled options (shown ++ visible next) (s.flush options m next) ∧
      ∃ chunk, (s.flush options m next).chunks = s.chunks ++ [chunk] ∧
        visible chunk.content = visible s.overlapBuffer ++ visible s.currentChunk := by
  obtain ⟨pushed, hsound, hparts, hoverlap⟩ := h.sound
  obtain ⟨hsound', chunk, hchunk, hcontent⟩ := pushChunk_spec m hsound hoverlap h.current_le h.overlap_le
  obtain ⟨hlength, hsuffix⟩ := getOverlapText_spec s.currentChunk options.chunkOverlap
  rw [← hparts] at hsound'
  refine ⟨⟨⟨shown, hsound', rfl, ?_⟩, hnext, hlength, hshown⟩, chunk, hchunk, hcontent⟩
  have hvisible := visible_suffix hsuffix
  exact hvisible.trans (by rw [hparts]; exact List.suffix_append _ _)

/-- A piece that is not cut: it joins the open chunk, or it starts the next one. -/
def Packing.place (s : Packing) (options : ChunkOptions) (m : ChunkMetadata) (separator piece : Utf16) : Packing :=
  if estimateTokens (s.currentChunk ++ separator ++ piece) > options.chunkSize then s.flush options m piece
  else { s with currentChunk := joinPiece s.currentChunk separator piece }

theorem Filled.place {options : ChunkOptions} {shown : Utf16} {s : Packing} (m : ChunkMetadata)
    (h : Filled options shown s) {separator piece : Utf16} (hseparator : visible separator = [])
    (hpiece : visible piece ≠ []) (hsize : ¬ estimateTokens piece > options.chunkSize) :
    Filled options (shown ++ visible piece) (s.place options m separator piece) ∧
      piece <:+ (s.place options m separator piece).currentChunk ∧
      ∃ more, (s.place options m separator piece).chunks = s.chunks ++ more ∧
        (AllShown more ↔ ¬ (visible s.currentChunk = [] ∧ visible s.overlapBuffer = [] ∧
          estimateTokens (separator ++ piece) > options.chunkSize)) := by
  unfold Packing.place
  by_cases hfull : estimateTokens (s.currentChunk ++ separator ++ piece) > options.chunkSize
  · rw [if_pos hfull]
    obtain ⟨hfilled, chunk, hchunk, hcontent⟩ :=
      h.flush (m := m) (length_le_of_estimateTokens_le hsize) (fun _ => hpiece)
    refine ⟨hfilled, List.suffix_refl piece, [chunk], hchunk, ?_⟩
    rw [allShown_singleton, hcontent, Ne, List.append_eq_nil_iff, not_iff_not]
    constructor
    · rintro ⟨hoverlap, hcurrent⟩
      -- a blank open chunk is empty, so the separator and the piece alone are too large
      have hnil : s.currentChunk = [] := by
        by_contra hne
        exact h.current_shown hne hcurrent
      rw [hnil, List.nil_append] at hfull
      exact ⟨hcurrent, hoverlap, hfull⟩
    · rintro ⟨hcurrent, hoverlap, -⟩
      exact ⟨hoverlap, hcurrent⟩
  · rw [if_neg hfull]
    obtain ⟨pushed, hsound, hparts, hoverlap⟩ := h.sound
    have hlength := length_le_of_estimateTokens_le hfull
    have hjoin : visible (joinPiece s.currentChunk separator piece) = visible s.currentChunk ++ visible piece ∧
        (joinPiece s.currentChunk separator piece).length ≤ 3 * options.chunkSize ∧
        piece <:+ joinPiece s.currentChunk separator piece := by
      unfold joinPiece
      by_cases hnil : s.currentChunk = []
      · rw [if_neg (not_not.mpr hnil), hnil, visible_nil, List.nil_append]
        exact ⟨rfl, length_le_of_estimateTokens_le hsize, List.suffix_refl piece⟩
      · rw [if_pos hnil, visible_append, visible_append, hseparator, List.append_nil]
        exact ⟨rfl, hlength, List.suffix_append _ _⟩
    refine ⟨⟨⟨pushed, hsound, ?_, hoverlap⟩, hjoin.2.1, h.overlap_le, fun _ => ?_⟩, hjoin.2.2, [], ?_, ?_⟩
    · rw [hparts, List.append_assoc]
      exact congrArg (pushed ++ ·) hjoin.1.symm
    · intro hblank
      rw [hjoin.1, List.append_eq_nil_iff] at hblank
      exact hpiece hblank.2
    · rw [List.append_nil]
    · refine iff_of_true (by simp [AllShown]) ?_
      rintro ⟨hcurrent, -, hlarge⟩
      have hnil : s.currentChunk = [] := by
        by_contra hne
        exact h.current_shown hne hcurrent
      rw [hnil, List.nil_append] at hfull
      exact hfull hlarge

theorem packSentence_of_small {fuel : Nat} {options : ChunkOptions} {m : ChunkMetadata} {sentence : Utf16}
    (h : ¬ estimateTokens sentence > options.chunkSize) (s : Packing) :
    packSentence fuel options m s sentence = some (s.place options m [32] sentence) := by
  unfold packSentence Packing.place
  rw [if_neg h, List.append_assoc, List.singleton_append]
  by_cases hfull : estimateTokens (s.currentChunk ++ 32 :: sentence) > options.chunkSize
  · rw [if_pos hfull, if_pos hfull]
  · rw [if_neg hfull, if_neg hfull]

theorem packParagraph_of_small {fuel : Nat} {options : ChunkOptions} {m : ChunkMetadata} {paragraph : Utf16}
    (h : ¬ estimateTokens paragraph > options.chunkSize) (s : Packing) :
    packParagraph fuel options m s paragraph = some (s.place options m [10, 10] paragraph) := by
  unfold packParagraph Packing.place
  rw [if_neg h]
  by_cases hfull : estimateTokens (s.currentChunk ++ [10, 10] ++ paragraph) > options.chunkSize
  · rw [if_pos hfull, if_pos hfull]
  · rw [if_neg hfull, if_neg hfull]

/-- A sentence that is cut: the open chunk is pushed in front of it, and nothing is carried over. -/
theorem packSentence_of_large {fuel : Nat} {options : ChunkOptions} {shown sentence : Utf16} {s : Packing}
    (m : ChunkMetadata) (h : Filled options shown s) (hlarge : estimateTokens sentence > options.chunkSize)
    (hoverlap : options.chunkOverlap < options.chunkSize) (hfuel : sentence.length < fuel) :
    ∃ s' more, packSentence fuel options m s sentence = some s' ∧
      Packed options (shown ++ visible sentence) none s' ∧ s'.chunks = s.chunks ++ more ∧ AllShown more := by
  have hlong : 3 * options.chunkSize < sentence.length := by
    unfold estimateTokens at hlarge
    omega
  unfold packSentence
  rw [if_pos hlarge]
  -- both cases hand sound chunks and an empty open chunk to the cut
  have hcut : ∃ chunks current front,
      (if trimUnits s.currentChunk ≠ [] then pushChunk s.chunks s.currentChunk s.overlapBuffer m else s.chunks) =
        chunks ∧
      (if trimUnits s.currentChunk ≠ [] then [] else s.currentChunk) = current ∧ current = [] ∧
      Sound options chunks shown ∧ chunks = s.chunks ++ front ∧ AllShown front := by
    obtain ⟨pushed, hsound, hparts, hsuffix⟩ := h.sound
    by_cases hcurrent : visible s.currentChunk = []
    · have hnil : s.currentChunk = [] := by
        by_contra hne
        exact h.current_shown hne hcurrent
      rw [hcurrent, List.append_nil] at hparts
      have htrim : ¬ trimUnits s.currentChunk ≠ [] := not_not.mpr (trimUnits_eq_nil_iff.mpr hcurrent)
      rw [if_neg htrim, if_neg htrim]
      exact ⟨s.chunks, s.currentChunk, [], rfl, rfl, hnil, hparts ▸ hsound, by simp, by simp [AllShown]⟩
    · have htrim : trimUnits s.currentChunk ≠ [] := fun hnil => hcurrent (trimUnits_eq_nil_iff.mp hnil)
      obtain ⟨hsound', chunk, hchunk, hcontent⟩ := pushChunk_spec m hsound hsuffix h.current_le h.overlap_le
      rw [if_pos htrim, if_pos htrim]
      refine ⟨_, [], [chunk], rfl, rfl, rfl, hparts ▸ hsound', hchunk, allShown_singleton.mpr ?_⟩
      rw [hcontent]
      exact fun hnil => hcurrent (List.append_eq_nil_iff.mp hnil).2
  obtain ⟨chunks, current, front, hchunks, hcurrent, hnil, hsound, hfront, hall⟩ := hcut
  obtain ⟨more, hmore, hsound', hall'⟩ := forceSplitAndPush_spec (m := m) hsound hoverlap hlong hfuel
  simp only [hchunks, hcurrent, hmore, hnil]
  refine ⟨_, front ++ more, rfl, ⟨⟨⟨_, hsound', ?_, List.nil_suffix⟩, Nat.zero_le _, Nat.zero_le _, ?_⟩, ?_, ?_⟩,
    ?_, allShown_append.mpr ⟨hall, hall'⟩⟩
  · rw [visible_nil, List.append_nil]
  · exact fun hne => absurd rfl hne
  · exact fun _ => ⟨rfl, rfl⟩
  · intro t ht
    cases ht
  · rw [hfront, List.append_assoc]

/-- Without a smaller overlap a large sentence is never packed. -/
theorem packSentence_diverges {options : ChunkOptions} {sentence : Utf16}
    (hlarge : estimateTokens sentence > options.chunkSize) (hoverlap : options.chunkSize ≤ options.chunkOverlap)
    (fuel : Nat) (m : ChunkMetadata) (s : Packing) : packSentence fuel options m s sentence = none := by
  have hlong : 3 * options.chunkSize < sentence.length := by
    unfold estimateTokens at hlarge
    omega
  unfold packSentence
  rw [if_pos hlarge]
  simp only [forceSplitAndPush_diverges hoverlap hlong]

/-! ## 3. Blank chunks -/

/-- The packing pushes before it has anything to push: the piece does not fit behind its separator,
    the open chunk is empty, and the overlap, if any, shows nothing. -/
def StartsBlank (options : ChunkOptions) (last : Option Piece) (piece : Piece) : Prop :=
  match piece.kind with
  | .paragraph => carriedText options last = none ∧ estimateTokens (10 :: 10 :: piece.text) > options.chunkSize
  | .firstSentence =>
    ¬ Forced options piece ∧ estimateTokens (32 :: piece.text) > options.chunkSize ∧
      ∀ t ∈ carriedText options last, trimUnits (getOverlapText t options.chunkOverlap) = []
  | .laterSentence =>
    ¬ Forced options piece ∧ carriedText options last = none ∧ estimateTokens (32 :: piece.text) > options.chunkSize

/-- No piece pushes a blank chunk, each looked at behind the piece before it. -/
def BlankFree (options : ChunkOptions) : Option Piece → List Piece → Prop
  | _, [] => True
  | last, piece :: rest => ¬ StartsBlank options last piece ∧ BlankFree options (some piece) rest

theorem carriedText_some_of_forced {options : ChunkOptions} {piece : Piece} (h : Forced options piece) :
    carriedText options (some piece) = none := by
  simp [carriedText, Option.filter, h]

theorem carriedText_some_of_not_forced {options : ChunkOptions} {piece : Piece} (h : ¬ Forced options piece) :
    carriedText options (some piece) = some piece.text := by
  simp [carriedText, Option.filter, h]

/-- A piece that is placed is carried over. -/
theorem Filled.packed_place {options : ChunkOptions} {shown : Utf16} {s : Packing} {piece : Piece}
    (hforced : ¬ Forced options piece) (h : Filled options (shown ++ visible piece.text) s)
    (hends : piece.text <:+ s.currentChunk) (hpiece : visible piece.text ≠ []) :
    Packed options (shown ++ visible piece.text) (carriedText options (some piece)) s := by
  rw [carriedText_some_of_not_forced hforced]
  refine ⟨h, ?_, ?_⟩
  · intro hnone
    cases hnone
  · intro t ht
    rw [← Option.some.inj ht]
    exact ⟨hpiece, hends⟩

/-- **One piece.**  It is packed and carried over, and the chunks it pushes all show something unless
    it starts behind a blank chunk. -/
theorem packPiece_spec {fuel : Nat} {options : ChunkOptions} {shown : Utf16} {last : Option Piece} {s : Packing}
    {piece : Piece} (m : ChunkMetadata) (h : Packed options shown (carriedText options last) s)
    (hpiece : visible piece.text ≠ []) (hkind : piece.kind = .paragraph → ¬ Forced options piece)
    (hends : Forced options piece → options.chunkOverlap < options.chunkSize) (hfuel : piece.text.length < fuel) :
    ∃ s' more, packPiece fuel options m s piece = some s' ∧
      Packed options (shown ++ visible piece.text) (carriedText options (some piece)) s' ∧
      s'.chunks = s.chunks ++ more ∧ (AllShown more ↔ ¬ StartsBlank options last piece) := by
  have hcurrent := h.current_blank_iff
  obtain ⟨kind, text⟩ := piece
  cases kind with
  | paragraph =>
    have hsmall := hkind rfl
    obtain ⟨hfilled, hsuffix, more, hmore, hall⟩ :=
      h.toFilled.place m (show visible [10, 10] = [] by decide) hpiece hsmall
    refine ⟨_, more, packParagraph_of_small hsmall s, hfilled.packed_place hsmall hsuffix hpiece, hmore, ?_⟩
    rw [hall, hcurrent]
    apply not_congr
    show _ ↔ carriedText options last = none ∧ _
    constructor
    · rintro ⟨hnone, -, hlarge⟩
      exact ⟨hnone, hlarge⟩
    · rintro ⟨hnone, hlarge⟩
      exact ⟨hnone, by rw [(h.nothing hnone).2, visible_nil], hlarge⟩
  | laterSentence =>
    by_cases hforced : Forced options ⟨.laterSentence, text⟩
    · obtain ⟨s', more, hpack, hpacked, hmore, hall⟩ :=
        packSentence_of_large m h.toFilled hforced (hends hforced) hfuel
      rw [carriedText_some_of_forced hforced]
      refine ⟨s', more, hpack, hpacked, hmore, iff_of_true hall ?_⟩
      exact fun hblank => hblank.1 hforced
    · obtain ⟨hfilled, hsuffix, more, hmore, hall⟩ :=
        h.toFilled.place m (show visible [32] = [] by decide) hpiece hforced
      refine ⟨_, more, packSentence_of_small hforced s, hfilled.packed_place hforced hsuffix hpiece, hmore, ?_⟩
      rw [hall, hcurrent]
      apply not_congr
      show _ ↔ ¬ Forced options _ ∧ carriedText options last = none ∧ _
      constructor
      · rintro ⟨hnone, -, hlarge⟩
        exact ⟨hforced, hnone, hlarge⟩
      · rintro ⟨-, hnone, hlarge⟩
        exact ⟨hnone, by rw [(h.nothing hnone).2, visible_nil], hlarge⟩
  | firstSentence =>
    -- the open chunk, when there is one, is pushed first and leaves its overlap
    have hflushed : ∃ s₁ front, (if trimUnits s.currentChunk ≠ [] then s.flush options m [] else s) = s₁ ∧
        Filled options shown s₁ ∧ s₁.chunks = s.chunks ++ front ∧ AllShown front ∧ s₁.currentChunk = [] ∧
        (visible s₁.overlapBuffer = [] ↔
          ∀ t ∈ carriedText options last, trimUnits (getOverlapText t options.chunkOverlap) = []) := by
      cases hcarried : carriedText options last with
      | none =>
        obtain ⟨hnil, hoverlap⟩ := h.nothing hcarried
        rw [hnil, if_neg (by simp [trimUnits])]
        refine ⟨s, [], rfl, h.toFilled, by simp, by simp [AllShown], hnil, ?_⟩
        simp [hoverlap]
      | some t =>
        obtain ⟨hshown, hsuffix⟩ := h.ends t hcarried
        have hvisible : visible s.currentChunk ≠ [] := by
          rw [Ne, hcurrent, hcarried]
          exact fun hnone => by cases hnone
        rw [if_pos (fun hnil => hvisible (trimUnits_eq_nil_iff.mp hnil))]
        obtain ⟨hfilled, chunk, hchunk, hcontent⟩ :=
          h.toFilled.flush (m := m) (show ([] : Utf16).length ≤ _ from Nat.zero_le _)
            (fun hne => absurd rfl hne)
        rw [visible_nil, List.append_nil] at hfilled
        refine ⟨_, [chunk], rfl, hfilled, hchunk, allShown_singleton.mpr ?_, rfl, ?_⟩
        · rw [hcontent]
          exact fun hnil => hvisible (List.append_eq_nil_iff.mp hnil).2
        · show visible (getOverlapText s.currentChunk options.chunkOverlap) = [] ↔ _
          rw [visible_getOverlapText _ hshown hsuffix, ← trimUnits_eq_nil_iff]
          simp
    obtain ⟨s₁, front, hs₁, hfilled₁, hfront, hallFront, hnil, hoverlap⟩ := hflushed
    unfold packPiece
    simp only [hs₁]
    by_cases hforced : Forced options ⟨.firstSentence, text⟩
    · obtain ⟨s', more, hpack, hpacked, hmore, hall⟩ :=
        packSentence_of_large m hfilled₁ hforced (hends hforced) hfuel
      rw [carriedText_some_of_forced hforced]
      refine ⟨s', front ++ more, hpack, hpacked, by rw [hmore, hfront, List.append_assoc], ?_⟩
      exact iff_of_true (allShown_append.mpr ⟨hallFront, hall⟩) (fun hblank => hblank.1 hforced)
    · obtain ⟨hfilled, hsuffix, more, hmore, hall⟩ :=
        hfilled₁.place m (show visible [32] = [] by decide) hpiece hforced
      refine ⟨_, front ++ more, packSentence_of_small hforced s₁, hfilled.packed_place hforced hsuffix hpiece,
        by rw [hmore, hfront, List.append_assoc], ?_⟩
      rw [allShown_append, and_iff_right hallFront, hall, hnil, hoverlap]
      apply not_congr
      show _ ↔ ¬ Forced options _ ∧ _ ∧ _
      constructor
      · rintro ⟨-, hblank, hlarge⟩
        exact ⟨hforced, hlarge, hblank⟩
      · rintro ⟨-, hlarge, hblank⟩
        exact ⟨visible_nil, hblank, hlarge⟩

theorem not_forced_of_paragraph {options : ChunkOptions} {text : Utf16} {piece : Piece}
    (h : piece ∈ pieces options text) (hkind : piece.kind = .paragraph) : ¬ Forced options piece := by
  obtain ⟨p, -, hpiece⟩ := List.mem_flatMap.mp h
  unfold paragraphPieces at hpiece
  by_cases hlarge : estimateTokens p > options.chunkSize
  · rw [if_pos hlarge] at hpiece
    cases hsplit : splitSentences p with
    | nil =>
      rw [hsplit] at hpiece
      cases hpiece
    | cons s rest =>
      rw [hsplit] at hpiece
      rcases List.mem_cons.mp hpiece with rfl | hrest
      · cases hkind
      · obtain ⟨s', -, rfl⟩ := List.mem_map.mp hrest
        cases hkind
  · rw [if_neg hlarge, List.mem_singleton] at hpiece
    rw [hpiece]
    exact hlarge

/-- The run over the pieces. -/
theorem foldlM_packPiece_spec {fuel : Nat} {options : ChunkOptions} (m : ChunkMetadata) {ps : List Piece}
    (hpieces : ∀ piece ∈ ps, visible piece.text ≠ [] ∧ (piece.kind = .paragraph → ¬ Forced options piece) ∧
      (Forced options piece → options.chunkOverlap < options.chunkSize) ∧ piece.text.length < fuel)
    {shown : Utf16} {last : Option Piece} {s : Packing} (h : Packed options shown (carriedText options last) s) :
    ∃ s' more carried, ps.foldlM (packPiece fuel options m) s = some s' ∧
      Packed options (shown ++ ps.flatMap fun piece => visible piece.text) carried s' ∧
      s'.chunks = s.chunks ++ more ∧ (AllShown more ↔ BlankFree options last ps) := by
  induction ps generalizing shown last s with
  | nil => exact ⟨s, [], _, rfl, by simpa using h, by simp, by simp [AllShown, BlankFree]⟩
  | cons piece rest ih =>
    rw [List.forall_mem_cons] at hpieces
    obtain ⟨⟨hvisible, hkind, hends, hfuel⟩, hrest⟩ := hpieces
    obtain ⟨s₁, front, hpack, hpacked, hfront, hallFront⟩ := packPiece_spec m h hvisible hkind hends hfuel
    obtain ⟨s', more, carried, hrun, hpacked', hmore, hall⟩ := ih hrest hpacked
    refine ⟨s', front ++ more, carried, ?_, ?_, ?_, ?_⟩
    · rw [List.foldlM_cons, hpack]
      exact hrun
    · rw [List.flatMap_cons, ← List.append_assoc]
      exact hpacked'
    · rw [hmore, hfront, List.append_assoc]
    · rw [allShown_append, hallFront, hall]
      rfl

/-! ## 4. The chunks of a text -/

theorem foldlM_eq_some_of_imp {α β : Type*} {f g : β → α → Option β}
    (h : ∀ s x s', f s x = some s' → g s x = some s') {l : List α} {s s' : β} (hl : l.foldlM f s = some s') :
    l.foldlM g s = some s' := by
  induction l generalizing s with
  | nil => exact hl
  | cons x rest ih =>
    rw [List.foldlM_cons] at hl ⊢
    obtain ⟨mid, hmid, hrest⟩ := Option.bind_eq_some_iff.mp hl
    exact Option.bind_eq_some_iff.mpr ⟨mid, h s x mid hmid, ih hrest⟩

/-- More passes do not change a result. -/
theorem packSentence_mono {fuel fuel' : Nat} {options : ChunkOptions} {m : ChunkMetadata} (hle : fuel ≤ fuel')
    (s : Packing) (sentence : Utf16) (s' : Packing) (h : packSentence fuel options m s sentence = some s') :
    packSentence fuel' options m s sentence = some s' := by
  unfold packSentence at h ⊢
  by_cases hlarge : estimateTokens sentence > options.chunkSize
  · rw [if_pos hlarge] at h ⊢
    simp only [forceSplitAndPush] at h ⊢
    generalize (if trimUnits s.currentChunk ≠ [] then pushChunk s.chunks s.currentChunk s.overlapBuffer m
      else s.chunks) = chunks at h ⊢
    rcases hrun : runLoop (forceSplitStep sentence options m) fuel ⟨chunks, 0⟩ with ⟨t, _ | ended⟩
    · rw [hrun] at h
      cases h
    · rw [hrun] at h
      rw [runLoop_stable hrun hle]
      exact h
  · rw [if_neg hlarge] at h ⊢
    exact h

theorem chunkText_mono {fuel fuel' : Nat} {text : Utf16} {options : ChunkOptions} {m : ChunkMetadata}
    {chunks : List Chunk} (hle : fuel ≤ fuel') (h : chunkText fuel text options m = some chunks) :
    chunkText fuel' text options m = some chunks := by
  have hparagraph : ∀ s p s', packParagraph fuel options m s p = some s' → packParagraph fuel' options m s p = some s' := by
    intro s p s' hp
    unfold packParagraph at hp ⊢
    by_cases hlarge : estimateTokens p > options.chunkSize
    · rw [if_pos hlarge] at hp ⊢
      exact foldlM_eq_some_of_imp (packSentence_mono hle) hp
    · rw [if_neg hlarge] at hp ⊢
      exact hp
  unfold chunkText at h ⊢
  by_cases hblank : trimUnits text = []
  · rw [if_pos hblank] at h ⊢
    exact h
  · rw [if_neg hblank] at h ⊢
    cases hrun : (splitParagraphs text).foldlM (packParagraph fuel options m) {} with
    | none =>
      rw [hrun] at h
      cases h
    | some s =>
      rw [hrun] at h
      rw [foldlM_eq_some_of_imp hparagraph hrun]
      exact h

/-- What the chunks of a text are expected to be. -/
structure WellChunked (options : ChunkOptions) (text : Utf16) (chunks : List Chunk) : Prop where
  shown : ∀ chunk ∈ chunks, trimUnits chunk.content ≠ []
  indexes : chunks.map (·.index) = List.range chunks.length
  limits : ∀ chunk ∈ chunks, chunk.tokenCount ≤ options.limit ∧ estimateTokens chunk.content ≤ options.limit
  covers : Covers (chunks.map fun chunk => visible chunk.content) (visible text)

theorem wellChunked_iff {options : ChunkOptions} {text : Utf16} {chunks : List Chunk}
    (h : Sound options chunks (visible text)) : WellChunked options text chunks ↔ AllShown chunks := by
  constructor
  · intro hwell chunk hchunk hblank
    exact hwell.shown chunk hchunk (trimUnits_eq_nil_iff.mpr hblank)
  · intro hall
    refine ⟨fun chunk hchunk hblank => hall chunk hchunk (trimUnits_eq_nil_iff.mp hblank), h.indexes, h.limits, h.covers⟩

theorem packParagraphs_eq (fuel : Nat) (options : ChunkOptions) (m : ChunkMetadata) (text : Utf16) (s : Packing) :
    (splitParagraphs text).foldlM (packParagraph fuel options m) s =
      (pieces options text).foldlM (packPiece fuel options m) s := by
  apply foldlM_packPiece
  intro p hp
  simpa [trimUnits_eq_nil_iff] using List.of_mem_filter hp

theorem exists_fuel (ps : List Piece) : ∃ n, ∀ piece ∈ ps, piece.text.length < n := by
  induction ps with
  | nil => exact ⟨0, by simp⟩
  | cons piece rest ih =>
    obtain ⟨n, hn⟩ := ih
    refine ⟨max n (piece.text.length + 1), List.forall_mem_cons.mpr ⟨by omega, fun other hother => ?_⟩⟩
    have := hn other hother
    omega

/-- With a smaller overlap, or without a cut by length, the text is chunked; the chunks are as
    expected unless a piece starts behind a blank one. -/
theorem chunkText_spec {fuel : Nat} {text : Utf16} {options : ChunkOptions} (m : ChunkMetadata)
    (hends : ∀ piece ∈ pieces options text, Forced options piece → options.chunkOverlap < options.chunkSize)
    (hfuel : ∀ piece ∈ pieces options text, piece.text.length < fuel) :
    ∃ chunks, chunkText fuel text options m = some chunks ∧
      (WellChunked options text chunks ↔ BlankFree options none (pieces options text)) := by
  by_cases hblank : trimUnits text = []
  · have hvisible := trimUnits_eq_nil_iff.mp hblank
    have hnone : pieces options text = [] := by
      cases hpieces : pieces options text with
      | nil => rfl
      | cons piece rest =>
        have hall := visible_pieces options text
        rw [hvisible, hpieces, List.flatMap_cons, List.append_eq_nil_iff] at hall
        exact absurd hall.1 (visible_ne_nil_of_mem_pieces (by rw [hpieces]; simp))
    refine ⟨[], if_pos hblank, ?_⟩
    rw [hnone]
    refine iff_of_true ⟨by simp, rfl, by simp, ?_⟩ trivial
    rw [hvisible]
    exact Covers.nil
  have hstart : Packed options [] (carriedText options none) {} := by
    refine ⟨⟨⟨[], sound_nil options, rfl, List.suffix_refl _⟩, Nat.zero_le _, Nat.zero_le _, fun hne => absurd rfl hne⟩,
      fun _ => ⟨rfl, rfl⟩, ?_⟩
    intro t ht
    cases ht
  obtain ⟨s, more, carried, hrun, hpacked, hmore, hall⟩ := @foldlM_packPiece_spec fuel options m
    (pieces options text) (fun piece hpiece => ⟨visible_ne_nil_of_mem_pieces hpiece,
      not_forced_of_paragraph hpiece, hends piece hpiece, hfuel piece hpiece⟩) _ _ _ hstart
  rw [List.nil_append, visible_pieces] at hpacked
  have hchunks : s.chunks = more := by rw [hmore]; rfl
  obtain ⟨pushed, hsound, hparts, hoverlap⟩ := hpacked.sound
  have hresult : ∃ chunks, (if trimUnits s.currentChunk ≠ [] then
        some (pushChunk s.chunks s.currentChunk s.overlapBuffer m) else some s.chunks) = some chunks ∧
      Sound options chunks (visible text) ∧ (AllShown chunks ↔ AllShown more) := by
    by_cases hcurrent : visible s.currentChunk = []
    · rw [if_neg (not_not.mpr (trimUnits_eq_nil_iff.mpr hcurrent))]
      rw [hcurrent, List.append_nil] at hparts
      exact ⟨s.chunks, rfl, hparts ▸ hsound, by rw [hchunks]⟩
    · rw [if_pos (fun hnil => hcurrent (trimUnits_eq_nil_iff.mp hnil))]
      obtain ⟨hsound', chunk, hchunk, hcontent⟩ :=
        pushChunk_spec m hsound hoverlap hpacked.current_le hpacked.overlap_le
      refine ⟨_, rfl, hparts ▸ hsound', ?_⟩
      rw [hchunk, allShown_append, hchunks]
      refine and_iff_left (allShown_singleton.mpr ?_)
      rw [hcontent]
      exact fun hnil => hcurrent (List.append_eq_nil_iff.mp hnil).2
  obtain ⟨chunks, hpush, hsound', hall'⟩ := hresult
  refine ⟨chunks, ?_, by rw [wellChunked_iff hsound', hall', hall]⟩
  unfold chunkText
  rw [if_neg hblank, packParagraphs_eq, hrun]
  exact hpush

theorem foldlM_eq_none_of_mem {α β : Type*} {f : β → α → Option β} {l : List α} {x : α} (hx : x ∈ l)
    (h : ∀ s, f s x = none) (s : β) : l.foldlM f s = none := by
  induction l generalizing s with
  | nil => cases hx
  | cons y rest ih =>
    rw [List.foldlM_cons]
    rcases List.mem_cons.mp hx with rfl | hx
    · rw [h]
      rfl
    · cases f s y with
      | none => rfl
      | some s' => exact ih hx s'

/-- A sentence that must be cut is never done when the overlap is not smaller than the size. -/
theorem chunkText_diverges {text : Utf16} {options : ChunkOptions} {piece : Piece} (hpiece : piece ∈ pieces options text)
    (hforced : Forced options piece) (hoverlap : options.chunkSize ≤ options.chunkOverlap) (fuel : Nat)
    (m : ChunkMetadata) : chunkText fuel text options m = none := by
  have hnone : ∀ s, packPiece fuel options m s piece = none := by
    intro s
    unfold packPiece
    cases hkind : piece.kind with
    | paragraph => exact absurd hforced (not_forced_of_paragraph hpiece hkind)
    | firstSentence => exact packSentence_diverges hforced hoverlap fuel m _
    | laterSentence => exact packSentence_diverges hforced hoverlap fuel m s
  have hvisible : ¬ trimUnits text = [] := by
    intro hblank
    have hall := visible_pieces options text
    rw [trimUnits_eq_nil_iff.mp hblank, List.flatMap_eq_nil_iff] at hall
    exact visible_ne_nil_of_mem_pieces hpiece (hall piece hpiece)
  unfold chunkText
  rw [if_neg hvisible, packParagraphs_eq, foldlM_eq_none_of_mem hpiece hnone]

/-- **Chunking.**  `chunkText` ends with chunks that show the whole text, none of them blank, numbered
    and within the limit, exactly when no sentence must be cut under an overlap that is not smaller
    than the size, and no piece starts behind a blank chunk. -/
theorem chunkText_wellChunked_iff (text : Utf16) (options : ChunkOptions) (m : ChunkMetadata) :
    (∃ passes chunks, (∀ fuel ≥ passes, chunkText fuel text options m = some chunks) ∧
        WellChunked options text chunks) ↔
      (∀ piece ∈ pieces options text, Forced options piece → options.chunkOverlap < options.chunkSize) ∧
        BlankFree options none (pieces options text) := by
  obtain ⟨n, hn⟩ := exists_fuel (pieces options text)
  constructor
  · rintro ⟨passes, chunks, hrun, hwell⟩
    have hends : ∀ piece ∈ pieces options text, Forced options piece → options.chunkOverlap < options.chunkSize := by
      intro piece hpiece hforced
      by_contra hoverlap
      have := chunkText_diverges hpiece hforced (Nat.le_of_not_lt hoverlap) passes m
      rw [hrun passes (Nat.le_refl _)] at this
      cases this
    refine ⟨hends, ?_⟩
    obtain ⟨chunks', hrun', hiff⟩ := @chunkText_spec (max n passes) text options m hends
      (fun piece hpiece => Nat.lt_of_lt_of_le (hn piece hpiece) (Nat.le_max_left _ _))
    rw [hrun _ (Nat.le_max_right _ _)] at hrun'
    rw [← hiff, ← Option.some.inj hrun']
    exact hwell
  · rintro ⟨hends, hblank⟩
    obtain ⟨chunks, hrun, hiff⟩ := chunkText_spec m hends hn
    exact ⟨n, chunks, fun fuel hfuel => chunkText_mono hfuel hrun, hiff.mpr hblank⟩

/-- A word of 301 letters with an overlap as large as the size never ends. -/
theorem chunkText_never_ends :
    ¬ ∀ (text : Utf16) (options : ChunkOptions) (m : ChunkMetadata),
        100 ≤ options.chunkSize → options.chunkSize ≤ 8000 → options.chunkOverlap ≤ 2000 →
          ∃ passes chunks, (∀ fuel ≥ passes, chunkText fuel text options m = some chunks) ∧
            WellChunked options text chunks := by
  intro h
  obtain ⟨passes, chunks, hrun, -⟩ :=
    h (List.replicate 301 120) ⟨100, 100⟩ {} (by decide) (by decide) (by decide)
  have hpieces : pieces ⟨100, 100⟩ (List.replicate 301 120) = [⟨.firstSentence, List.replicate 301 120⟩] := by
    decide +kernel
  have hnone := @chunkText_diverges (List.replicate 301 120) ⟨100, 100⟩
    ⟨.firstSentence, List.replicate 301 120⟩ (by rw [hpieces]; exact List.mem_singleton_self _)
    (by decide +kernel) (by decide) passes {}
  rw [hrun passes (Nat.le_refl _)] at hnone
  cases hnone

/-- A word of 300 letters stands behind a blank chunk. -/
example : (chunkText 0 (List.replicate 300 120) ⟨100, 0⟩).map (·.map (·.content.length)) = some [0, 300] := by
  decide +kernel

end Clemvion.KnowledgeBase
