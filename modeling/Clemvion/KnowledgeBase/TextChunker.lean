import Clemvion.Js.Text
import Clemvion.Library.Loop
import Mathlib.Data.List.TakeWhile

/-!
# TextChunker — a document cut into chunks

Paragraphs are packed into chunks of `chunkSize` tokens; a paragraph that is too large is packed
by sentences, and a sentence that is too large is cut by length.  Texts are lists of code units.
-/

open Clemvion.Js Clemvion.Library

namespace Clemvion.KnowledgeBase

/-! ## 1. Texts -/

/-- White space is in the basic plane, so one unit decides. -/
def isSpaceUnit (u : UInt16) : Bool := isJsSpace (Char.ofNat u.toNat)

/-- `s.trim()`. -/
def trimUnits (s : Utf16) : Utf16 :=
  ((s.dropWhile isSpaceUnit).reverse.dropWhile isSpaceUnit).reverse

/-- What a text shows: its units without the white space. -/
def visible (s : Utf16) : Utf16 := s.filter fun u => !isSpaceUnit u

@[simp] theorem visible_nil : visible [] = [] := rfl

@[simp] theorem visible_append (s t : Utf16) : visible (s ++ t) = visible s ++ visible t := List.filter_append ..

theorem visible_cons_space {u : UInt16} (h : isSpaceUnit u = true) (s : Utf16) : visible (u :: s) = visible s := by
  simp [visible, h]

theorem visible_eq_nil_iff {s : Utf16} : visible s = [] ↔ ∀ u ∈ s, isSpaceUnit u = true := by
  simp [visible]

theorem visible_dropWhile (s : Utf16) : visible (s.dropWhile isSpaceUnit) = visible s := by
  induction s with
  | nil => rfl
  | cons u s ih =>
    by_cases hu : isSpaceUnit u = true
    · rw [List.dropWhile_cons_of_pos hu, ih, visible_cons_space hu]
    · rw [List.dropWhile_cons_of_neg hu]

theorem visible_reverse (s : Utf16) : visible s.reverse = (visible s).reverse := List.filter_reverse ..

/-- Trimming hides nothing. -/
@[simp] theorem visible_trimUnits (s : Utf16) : visible (trimUnits s) = visible s := by
  unfold trimUnits
  rw [visible_reverse, visible_dropWhile, visible_reverse, visible_dropWhile, List.reverse_reverse]

theorem trimUnits_eq_nil_iff {s : Utf16} : trimUnits s = [] ↔ visible s = [] := by
  constructor
  · intro h
    rw [← visible_trimUnits, h, visible_nil]
  · intro h
    have hall : s.dropWhile isSpaceUnit = [] := List.dropWhile_eq_nil_iff.mpr (visible_eq_nil_iff.mp h)
    unfold trimUnits
    rw [hall]
    rfl

/-- `s.split(regex)` for a regex that never matches the empty string: `matchLength prev rest` is the
    length of the match at `rest` behind the unit `prev`, and 0 where there is none. -/
def splitRegex (matchLength : Option UInt16 → Utf16 → Nat) :
    Option UInt16 → Nat → Utf16 → List Utf16
  | _, _, [] => [[]]
  | _, skip + 1, u :: rest => splitRegex matchLength (some u) skip rest
  | prev, 0, u :: rest =>
    match matchLength prev (u :: rest) with
    | 0 => (splitRegex matchLength (some u) 0 rest).modifyHead (u :: ·)
    | n + 1 => [] :: splitRegex matchLength (some u) n rest

/-- `s.substring(start, end)`. -/
def substring (s : Utf16) (start «end» : Int) : Utf16 :=
  let a := min start.toNat s.length
  let b := min «end».toNat s.length
  (s.take (max a b)).drop (min a b)

/-! ## 2. Chunks -/

structure ChunkOptions where
  chunkSize : Nat
  chunkOverlap : Nat

structure ChunkMetadata where
  page : Option Nat := none
  «section» : Option String := none
  deriving DecidableEq

structure Chunk where
  content : Utf16
  index : Nat
  tokenCount : Nat
  metadata : ChunkMetadata
  deriving DecidableEq

/-- `Math.ceil(text.length / 3)`. -/
def estimateTokens (text : Utf16) : Nat := (text.length + 2) / 3

def pushChunk (chunks : List Chunk) (content overlap : Utf16) (baseMetadata : ChunkMetadata) : List Chunk :=
  let text := if overlap ≠ [] then overlap ++ 32 :: content else content
  chunks ++ [⟨trimUnits text, chunks.length, estimateTokens text, baseMetadata⟩]

def getOverlapText (text : Utf16) (overlapTokens : Nat) : Utf16 :=
  if overlapTokens ≤ 0 then []
  else if text.length ≤ overlapTokens * 3 then text
  else text.drop (text.length - overlapTokens * 3)

/-- `/\n\n+/` at `rest`. -/
def paragraphBreak (_ : Option UInt16) (rest : Utf16) : Nat :=
  let n := (rest.takeWhile (· = 10)).length
  if 2 ≤ n then n else 0

/-- `[.!?。！？]`. -/
def isSentenceEnd (u : UInt16) : Bool :=
  u = 0x2E || u = 0x21 || u = 0x3F || u = 0x3002 || u = 0xFF01 || u = 0xFF1F

/-- `/(?<=[.!?。！？])\s+/` at `rest`. -/
def sentenceBreak (prev : Option UInt16) (rest : Utf16) : Nat :=
  if prev.any isSentenceEnd then (rest.takeWhile isSpaceUnit).length else 0

def splitParagraphs (text : Utf16) : List Utf16 :=
  (splitRegex paragraphBreak none 0 text).filter fun p => trimUnits p ≠ []

def splitSentences (text : Utf16) : List Utf16 :=
  (splitRegex sentenceBreak none 0 text).filter fun s => trimUnits s ≠ []

/-! ## 3. Cutting by length -/

structure ForceSplit where
  chunks : List Chunk
  start : Int

/-- Push a piece of `text` as it is, when there is anything to see in it. -/
def pushTrimmed (chunks : List Chunk) (content : Utf16) (baseMetadata : ChunkMetadata) : List Chunk :=
  chunks ++ [⟨content, chunks.length, estimateTokens content, baseMetadata⟩]

/-- One pass of `while (start < text.length)`, with its `break`. -/
def forceSplitStep (text : Utf16) (options : ChunkOptions) (baseMetadata : ChunkMetadata) (s : ForceSplit) :
    ForceSplit × Option Unit :=
  if s.start < text.length then
    let «end» := min (s.start + options.chunkSize * 3) text.length
    let content := trimUnits (substring text s.start «end»)
    let chunks := if content ≠ [] then pushTrimmed s.chunks content baseMetadata else s.chunks
    let start := «end» - options.chunkOverlap * 3
    (⟨chunks, start⟩, if start ≥ text.length - options.chunkOverlap * 3 then some () else none)
  else (s, some ())

/-- What stands behind the loop: the remaining text, unless it repeats the last chunk. -/
def pushRemaining (text : Utf16) (baseMetadata : ChunkMetadata) (s : ForceSplit) : List Chunk :=
  if s.start < text.length then
    let remaining := trimUnits (substring text s.start text.length)
    if remaining ≠ [] ∧ some remaining ≠ s.chunks.getLast?.map (·.content) then
      pushTrimmed s.chunks remaining baseMetadata
    else s.chunks
  else s.chunks

/-- `none` when the loop has not ended within `fuel` passes. -/
def forceSplitAndPush (fuel : Nat) (chunks : List Chunk) (text : Utf16) (options : ChunkOptions)
    (baseMetadata : ChunkMetadata) : Option (List Chunk) :=
  match runLoop (forceSplitStep text options baseMetadata) fuel ⟨chunks, 0⟩ with
  | (s, some ()) => some (pushRemaining text baseMetadata s)
  | (_, none) => none

/-! ## 4. Packing -/

structure Packing where
  chunks : List Chunk := []
  currentChunk : Utf16 := []
  overlapBuffer : Utf16 := []

/-- Push the current chunk and keep its end as overlap. -/
def Packing.flush (s : Packing) (options : ChunkOptions) (baseMetadata : ChunkMetadata) (next : Utf16) : Packing :=
  { chunks := pushChunk s.chunks s.currentChunk s.overlapBuffer baseMetadata
    currentChunk := next
    overlapBuffer := getOverlapText s.currentChunk options.chunkOverlap }

/-- `currentChunk ? currentChunk + separator + piece : piece`. -/
def joinPiece (currentChunk separator piece : Utf16) : Utf16 :=
  if currentChunk ≠ [] then currentChunk ++ separator ++ piece else piece

/-- The body of the loop over the sentences of a paragraph. -/
def packSentence (fuel : Nat) (options : ChunkOptions) (baseMetadata : ChunkMetadata) (s : Packing)
    (sentence : Utf16) : Option Packing :=
  if estimateTokens sentence > options.chunkSize then
    let chunks := if trimUnits s.currentChunk ≠ [] then
        pushChunk s.chunks s.currentChunk s.overlapBuffer baseMetadata
      else s.chunks
    let currentChunk := if trimUnits s.currentChunk ≠ [] then [] else s.currentChunk
    match forceSplitAndPush fuel chunks sentence options baseMetadata with
    | some chunks => some ⟨chunks, currentChunk, []⟩
    | none => none
  else if estimateTokens (s.currentChunk ++ 32 :: sentence) > options.chunkSize then
    some (s.flush options baseMetadata sentence)
  else some { s with currentChunk := joinPiece s.currentChunk [32] sentence }

/-- The body of the loop over the paragraphs. -/
def packParagraph (fuel : Nat) (options : ChunkOptions) (baseMetadata : ChunkMetadata) (s : Packing)
    (paragraph : Utf16) : Option Packing :=
  if estimateTokens paragraph > options.chunkSize then
    let s := if trimUnits s.currentChunk ≠ [] then s.flush options baseMetadata [] else s
    (splitSentences paragraph).foldlM (packSentence fuel options baseMetadata) s
  else if estimateTokens (s.currentChunk ++ [10, 10] ++ paragraph) > options.chunkSize then
    some (s.flush options baseMetadata paragraph)
  else some { s with currentChunk := joinPiece s.currentChunk [10, 10] paragraph }

/-- `chunkText`; `none` when a forced cut has not ended within `fuel` passes. -/
def chunkText (fuel : Nat) (text : Utf16) (options : ChunkOptions) (baseMetadata : ChunkMetadata := {}) :
    Option (List Chunk) :=
  if trimUnits text = [] then some []
  else
    match (splitParagraphs text).foldlM (packParagraph fuel options baseMetadata) {} with
    | none => none
    | some s =>
      if trimUnits s.currentChunk ≠ [] then
        some (pushChunk s.chunks s.currentChunk s.overlapBuffer baseMetadata)
      else some s.chunks

end Clemvion.KnowledgeBase
