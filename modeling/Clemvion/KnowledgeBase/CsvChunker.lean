import Clemvion.KnowledgeBase.TextChunker
import Mathlib.Algebra.Order.Ring.Nat

/-!
# CsvChunker — the rows of a CSV file cut into chunks

`parseCsv` writes one line per record; `chunkCsv` takes the lines apart again and packs whole rows.
A line feed inside a cell makes two rows of one record.
-/

open Clemvion.Js

namespace Clemvion.KnowledgeBase

/-! ## 1. The parser and the chunker -/

/-- `xs.join(separator)`. -/
def joinUnits (separator : Utf16) : List Utf16 → Utf16
  | [] => []
  | [x] => x
  | x :: y :: rest => x ++ separator ++ joinUnits separator (y :: rest)

/-- `` `${h}: ${row[i] ?? ''}` `` for every column, joined by `', '`. -/
def recordText (headers row : List Utf16) : Utf16 :=
  joinUnits [44, 32] (headers.mapIdx fun i h => h ++ [58, 32] ++ row[i]?.getD [])

/-- The rows of the text, one for each record behind the first. -/
def recordTexts : List (List Utf16) → List Utf16
  | [] => []
  | headers :: rows => rows.map (recordText headers)

/-- `parseCsv` behind the library's `parse`. -/
def csvText (records : List (List Utf16)) : Utf16 := joinUnits [10] (recordTexts records)

structure RowPacking where
  chunks : List Chunk := []
  current : List Utf16 := []
  currentTokenCount : Nat := 0

/-- The chunks after `flush()`. -/
def RowPacking.flushed (s : RowPacking) : List Chunk :=
  if s.current = [] then s.chunks
  else s.chunks ++ [⟨joinUnits [10] s.current, s.chunks.length, estimateTokens (joinUnits [10] s.current), {}⟩]

def packRow (chunkSize : Int) (s : RowPacking) (row : Utf16) : RowPacking :=
  if s.current = [] then { s with current := [row], currentTokenCount := estimateTokens row }
  else if (s.currentTokenCount + estimateTokens row : Nat) > chunkSize then
    { chunks := s.flushed, current := [row], currentTokenCount := estimateTokens row }
  else
    { s with current := s.current ++ [row], currentTokenCount := s.currentTokenCount + estimateTokens row }

/-- `text.split('\n')` without the blank lines. -/
def textRows (text : Utf16) : List Utf16 := (text.splitOn 10).filter fun row => trimUnits row ≠ []

def chunkCsv (text : Utf16) (chunkSize : Int) : List Chunk :=
  if trimUnits text = [] then []
  else ((textRows text).foldl (packRow chunkSize) {}).flushed

/-! ## 2. Lines -/

theorem joinUnits_cons_cons (separator x y : Utf16) (rest : List Utf16) :
    joinUnits separator (x :: y :: rest) = x ++ separator ++ joinUnits separator (y :: rest) := rfl

/-- Joined lines come apart into the lines of each of them. -/
theorem splitOn_joinUnits {lines : List Utf16} (h : lines ≠ []) :
    (joinUnits [10] lines).splitOn 10 = lines.flatMap (List.splitOn 10) := by
  induction lines with
  | nil => exact absurd rfl h
  | cons x rest ih =>
    cases rest with
    | nil => simp [joinUnits]
    | cons y rest =>
      rw [joinUnits_cons_cons, List.append_assoc, List.singleton_append, List.splitOn_append_cons_self,
        ih (by simp)]
      rfl

/-- A line holds no line feed. -/
theorem notMem_of_mem_splitOn {text line : Utf16} (h : line ∈ text.splitOn 10) : (10 : UInt16) ∉ line := by
  induction text generalizing line with
  | nil =>
    rw [List.splitOn_nil, List.mem_singleton] at h
    simp [h]
  | cons u rest ih =>
    rw [List.splitOn_cons_eq_if_modifyHead] at h
    by_cases hu : u = 10
    · rw [if_pos (by simpa using hu)] at h
      rcases List.mem_cons.mp h with rfl | h
      · simp
      · exact ih h
    · rw [if_neg (by simpa using hu)] at h
      obtain ⟨first, more, hsplit⟩ := List.exists_cons_of_ne_nil (List.splitOn_ne_nil (10 : UInt16) rest)
      rw [hsplit, List.modifyHead_cons] at h
      rcases List.mem_cons.mp h with rfl | h
      · rw [List.mem_cons, not_or]
        exact ⟨fun heq => hu heq.symm, ih (by rw [hsplit]; simp)⟩
      · exact ih (by rw [hsplit]; simp [h])

theorem notMem_of_mem_textRows {text row : Utf16} (h : row ∈ textRows text) : (10 : UInt16) ∉ row :=
  notMem_of_mem_splitOn (List.mem_of_mem_filter h)

theorem visible_splitOn (text : Utf16) : (text.splitOn 10).flatMap visible = visible text := by
  induction text with
  | nil => rfl
  | cons u rest ih =>
    rw [List.splitOn_cons_eq_if_modifyHead]
    by_cases hu : u = 10
    · rw [if_pos (by simpa using hu), List.flatMap_cons, ih, hu, visible_nil, List.nil_append]
      exact (visible_cons_space (by decide) rest).symm
    · rw [if_neg (by simpa using hu)]
      obtain ⟨first, more, hsplit⟩ := List.exists_cons_of_ne_nil (List.splitOn_ne_nil (10 : UInt16) rest)
      rw [hsplit, List.flatMap_cons] at ih
      rw [hsplit, List.modifyHead_cons, List.flatMap_cons, ← List.singleton_append, visible_append,
        List.append_assoc, ih, ← visible_append]
      rfl

theorem textRows_of_blank {text : Utf16} (h : visible text = []) : textRows text = [] := by
  apply List.filter_eq_nil_iff.mpr
  intro line hline
  rw [← visible_splitOn, List.flatMap_eq_nil_iff] at h
  simp [trimUnits_eq_nil_iff.mpr (h line hline)]

theorem textRows_of_notMem {text : Utf16} (hvisible : visible text ≠ []) (h : (10 : UInt16) ∉ text) :
    textRows text = [text] := by
  unfold textRows
  rw [List.splitOn_eq_singleton h]
  simp [trimUnits_eq_nil_iff, hvisible]

theorem textRows_joinUnits (texts : List Utf16) : textRows (joinUnits [10] texts) = texts.flatMap textRows := by
  cases texts with
  | nil => exact textRows_of_blank rfl
  | cons x rest =>
    unfold textRows
    rw [splitOn_joinUnits (by simp), List.filter_flatMap]

/-! ## 3. Packing -/

def tokenSum (rows : List Utf16) : Nat := (rows.map estimateTokens).sum

/-- Rows that may stand in one chunk: a lone row, or rows that fit together. -/
def Fits (chunkSize : Int) (rows : List Utf16) : Prop := 1 < rows.length → (tokenSum rows : Int) ≤ chunkSize

/-- The rows packed so far stand in groups, one for each chunk, and in the open group. -/
structure PackedRows (chunkSize : Int) (rows : List Utf16) (s : RowPacking) (groups : List (List Utf16)) : Prop where
  contents : s.chunks.map (·.content) = groups.map (joinUnits [10])
  rows_eq : groups.flatten ++ s.current = rows
  groups_fit : ∀ group ∈ groups, group ≠ [] ∧ Fits chunkSize group
  current_fits : Fits chunkSize s.current
  count : s.current ≠ [] → s.currentTokenCount = tokenSum s.current

theorem fits_singleton (chunkSize : Int) (row : Utf16) : Fits chunkSize [row] := by
  intro h
  simp at h

/-- Flushing closes the open group. -/
theorem PackedRows.flushed {chunkSize : Int} {rows : List Utf16} {s : RowPacking} {groups : List (List Utf16)}
    (h : PackedRows chunkSize rows s groups) :
    ∃ closed : List (List Utf16), s.flushed.map (·.content) = closed.map (joinUnits [10]) ∧ closed.flatten = rows ∧
      ∀ group ∈ closed, group ≠ [] ∧ Fits chunkSize group := by
  unfold RowPacking.flushed
  by_cases hcurrent : s.current = []
  · rw [if_pos hcurrent]
    refine ⟨groups, h.contents, ?_, h.groups_fit⟩
    rw [← h.rows_eq, hcurrent, List.append_nil]
  · rw [if_neg hcurrent]
    refine ⟨groups ++ [s.current], ?_, ?_, ?_⟩
    · rw [List.map_append, h.contents, List.map_append]
      rfl
    · rw [List.flatten_append, ← h.rows_eq]
      simp
    · intro group hgroup
      rcases List.mem_append.mp hgroup with hgroup | hgroup
      · exact h.groups_fit group hgroup
      · rw [List.mem_singleton.mp hgroup]
        exact ⟨hcurrent, h.current_fits⟩

theorem PackedRows.packRow {chunkSize : Int} {rows : List Utf16} {s : RowPacking} {groups : List (List Utf16)}
    (h : PackedRows chunkSize rows s groups) (row : Utf16) :
    ∃ groups', PackedRows chunkSize (rows ++ [row]) (packRow chunkSize s row) groups' := by
  unfold KnowledgeBase.packRow
  by_cases hcurrent : s.current = []
  · rw [if_pos hcurrent]
    refine ⟨groups, h.contents, ?_, h.groups_fit, fits_singleton chunkSize row, fun _ => ?_⟩
    · rw [← h.rows_eq, hcurrent, List.append_nil]
    · simp [tokenSum]
  · rw [if_neg hcurrent]
    by_cases hfull : ((s.currentTokenCount + estimateTokens row : Nat) : Int) > chunkSize
    · rw [if_pos hfull]
      obtain ⟨closed, hcontents, hflat, hfit⟩ := h.flushed
      refine ⟨closed, hcontents, ?_, hfit, fits_singleton chunkSize row, fun _ => ?_⟩
      · rw [hflat]
      · simp [tokenSum]
    · rw [if_neg hfull]
      have hsum : tokenSum (s.current ++ [row]) = s.currentTokenCount + estimateTokens row := by
        rw [h.count hcurrent]
        simp [tokenSum]
      refine ⟨groups, h.contents, ?_, h.groups_fit, fun _ => ?_, fun _ => hsum.symm⟩
      · rw [← List.append_assoc, h.rows_eq]
      · rw [hsum]
        omega

/-- **Packing.**  The chunks are the rows in groups; a group of several rows fits. -/
theorem foldl_packRow (chunkSize : Int) (rows : List Utf16) :
    ∃ groups : List (List Utf16), (rows.foldl (packRow chunkSize) {}).flushed.map (·.content) = groups.map (joinUnits [10]) ∧
      groups.flatten = rows ∧ ∀ group ∈ groups, group ≠ [] ∧ Fits chunkSize group := by
  have hrun : ∀ rows done s groups, PackedRows chunkSize done s groups →
      ∃ groups', PackedRows chunkSize (done ++ rows) (rows.foldl (packRow chunkSize) s) groups' := by
    intro rows
    induction rows with
    | nil =>
      intro done s groups h
      exact ⟨groups, by simpa using h⟩
    | cons row rows ih =>
      intro done s groups h
      obtain ⟨groups', h'⟩ := h.packRow row
      obtain ⟨groups'', h''⟩ := ih _ _ _ h'
      exact ⟨groups'', by simpa using h''⟩
  have hstart : PackedRows chunkSize [] {} [] := ⟨rfl, rfl, by simp, by simp [Fits], by simp⟩
  obtain ⟨groups, h⟩ := hrun rows [] {} [] hstart
  exact h.flushed

/-! ## 4. Records -/

/-- The records that are not blank. -/
def visibleRecords (records : List (List Utf16)) : List Utf16 :=
  (recordTexts records).filter fun record => trimUnits record ≠ []

/-- The chunks hold whole records in order, several in one chunk only when they fit. -/
def KeepsRecords (records : List (List Utf16)) (chunkSize : Int) : Prop :=
  ∃ groups : List (List Utf16), (chunkCsv (csvText records) chunkSize).map (·.content) = groups.map (joinUnits [10]) ∧
    groups.flatten = visibleRecords records ∧ ∀ group ∈ groups, group ≠ [] ∧ Fits chunkSize group

/-- The lines of the chunks are the records, and the lines of a chunk fit. -/
def RowsAreRecords (records : List (List Utf16)) (chunkSize : Int) : Prop :=
  ((chunkCsv (csvText records) chunkSize).flatMap fun chunk => chunk.content.splitOn 10) = visibleRecords records ∧
    ∀ chunk ∈ chunkCsv (csvText records) chunkSize, Fits chunkSize (chunk.content.splitOn 10)

def NoLineFeed (records : List (List Utf16)) : Prop := ∀ record ∈ visibleRecords records, (10 : UInt16) ∉ record

theorem chunkCsv_eq (text : Utf16) (chunkSize : Int) :
    chunkCsv text chunkSize = ((textRows text).foldl (packRow chunkSize) {}).flushed := by
  unfold chunkCsv
  by_cases h : trimUnits text = []
  · rw [if_pos h, textRows_of_blank (trimUnits_eq_nil_iff.mp h)]
    rfl
  · rw [if_neg h]

/-- Without line feeds the rows of the text are the records. -/
theorem textRows_csvText {records : List (List Utf16)} (h : NoLineFeed records) :
    textRows (csvText records) = visibleRecords records := by
  unfold NoLineFeed visibleRecords at *
  unfold csvText
  rw [textRows_joinUnits]
  generalize recordTexts records = texts at h ⊢
  induction texts with
  | nil => rfl
  | cons record rest ih =>
    rw [List.flatMap_cons]
    rw [List.filter_cons] at h ⊢
    by_cases hvisible : visible record = []
    · have hblank : ¬ decide (trimUnits record ≠ []) = true := by
        simp [trimUnits_eq_nil_iff, hvisible]
      rw [if_neg hblank] at h ⊢
      rw [textRows_of_blank hvisible, List.nil_append, ih h]
    · have hshown : decide (trimUnits record ≠ []) = true := by
        simp [trimUnits_eq_nil_iff, hvisible]
      rw [if_pos hshown] at h ⊢
      rw [List.forall_mem_cons] at h
      rw [textRows_of_notMem hvisible h.1, ih h.2, List.singleton_append]

/-- The chunks of any text hold its rows, whatever the records were. -/
theorem flatMap_splitOn_chunkCsv (text : Utf16) (chunkSize : Int) :
    (chunkCsv text chunkSize).flatMap (fun chunk => chunk.content.splitOn 10) = textRows text ∧
      ∀ chunk ∈ chunkCsv text chunkSize, Fits chunkSize (chunk.content.splitOn 10) := by
  obtain ⟨groups, hcontents, hflat, hfit⟩ := foldl_packRow chunkSize (textRows text)
  rw [← chunkCsv_eq] at hcontents
  -- the lines of a group are its rows
  have hgroup : ∀ group ∈ groups, (joinUnits [10] group).splitOn 10 = group := by
    intro group hmem
    rw [splitOn_joinUnits (hfit group hmem).1]
    have hrows : ∀ row ∈ group, row.splitOn 10 = [row] := by
      intro row hrow
      apply List.splitOn_eq_singleton
      apply @notMem_of_mem_textRows text
      rw [← hflat]
      exact List.mem_flatten.mpr ⟨group, hmem, hrow⟩
    rw [List.flatMap_congr hrows, List.flatMap_singleton']
  constructor
  · calc (chunkCsv text chunkSize).flatMap (fun chunk => chunk.content.splitOn 10)
        = ((chunkCsv text chunkSize).map (·.content)).flatMap (List.splitOn 10) := (List.flatMap_map ..).symm
      _ = groups.flatMap fun group => (joinUnits [10] group).splitOn 10 := by rw [hcontents, List.flatMap_map]
      _ = groups.flatMap id := List.flatMap_congr hgroup
      _ = textRows text := by rw [List.flatMap_id, hflat]
  · intro chunk hchunk
    have hmem : chunk.content ∈ groups.map (joinUnits [10]) := by
      rw [← hcontents]
      exact List.mem_map_of_mem hchunk
    obtain ⟨group, hg, hcontent⟩ := List.mem_map.mp hmem
    rw [← hcontent, hgroup group hg]
    exact (hfit group hg).2

theorem rowsAreRecords_iff (records : List (List Utf16)) (chunkSize : Int) :
    RowsAreRecords records chunkSize ↔ NoLineFeed records := by
  unfold RowsAreRecords
  obtain ⟨hlines, hfit⟩ := flatMap_splitOn_chunkCsv (csvText records) chunkSize
  rw [hlines]
  constructor
  · rintro ⟨hrows, -⟩ record hrecord
    rw [← hrows] at hrecord
    exact notMem_of_mem_textRows hrecord
  · intro h
    exact ⟨textRows_csvText h, hfit⟩

theorem keepsRecords_of_noLineFeed {records : List (List Utf16)} (h : NoLineFeed records) (chunkSize : Int) :
    KeepsRecords records chunkSize := by
  unfold KeepsRecords
  rw [← textRows_csvText h, chunkCsv_eq]
  exact foldl_packRow chunkSize (textRows (csvText records))

theorem estimateTokens_pos {text : Utf16} (h : text ≠ []) : 0 < estimateTokens text := by
  have := List.length_pos_iff.mpr h
  unfold estimateTokens
  omega

/-- With one token to a chunk every group is a single row. -/
theorem flatten_of_fits_one {groups : List (List Utf16)}
    (hfit : ∀ group ∈ groups, group ≠ [] ∧ Fits 1 group) (hrows : ∀ row ∈ groups.flatten, row ≠ []) :
    groups.map (joinUnits [10]) = groups.flatten := by
  induction groups with
  | nil => rfl
  | cons group rest ih =>
    rw [List.flatten_cons, List.forall_mem_append] at hrows
    rw [List.forall_mem_cons] at hfit
    rw [List.map_cons, List.flatten_cons, ih hfit.2 hrows.2]
    cases group with
    | nil => exact absurd rfl hfit.1.1
    | cons x xs =>
      cases xs with
      | nil => rfl
      | cons y ys =>
        have hx := estimateTokens_pos (hrows.1 x (by simp))
        have hy := estimateTokens_pos (hrows.1 y (by simp))
        have hsum := hfit.1.2 (by simp)
        simp only [tokenSum, List.map_cons, List.sum_cons] at hsum
        omega

/-- **Records stay whole exactly when none holds a line feed**: as the lines of the chunks, for every
    chunk size; and as groups of records, when every chunk size is asked for. -/
theorem chunkCsv_keeps_records_iff (records : List (List Utf16)) :
    (∀ chunkSize, RowsAreRecords records chunkSize ↔ NoLineFeed records) ∧
      ((∀ chunkSize, KeepsRecords records chunkSize) ↔ NoLineFeed records) := by
  refine ⟨rowsAreRecords_iff records, ?_, keepsRecords_of_noLineFeed⟩
  intro h record hrecord
  obtain ⟨groups, hcontents, hflat, hfit⟩ := h 1
  obtain ⟨groups', hcontents', hflat', hfit'⟩ := foldl_packRow 1 (textRows (csvText records))
  have hrecords : groups.map (joinUnits [10]) = visibleRecords records := by
    rw [flatten_of_fits_one hfit, hflat]
    rw [hflat]
    intro row hrow hnil
    simpa [hnil, trimUnits] using List.of_mem_filter hrow
  have hrows : groups'.map (joinUnits [10]) = textRows (csvText records) := by
    rw [flatten_of_fits_one hfit', hflat']
    rw [hflat']
    intro row hrow hnil
    simpa [hnil, trimUnits] using List.of_mem_filter hrow
  rw [chunkCsv_eq, hcontents'] at hcontents
  apply @notMem_of_mem_textRows (csvText records)
  rw [← hrows, hcontents, hrecords]
  exact hrecord

/-- One column, and a cell of two lines that do not fit into one chunk of 100 tokens. -/
def twoLineCell : List (List Utf16) :=
  [[codeUnits "note"], [List.replicate 290 120 ++ 10 :: List.replicate 20 121]]

theorem chunkCsv_splits_twoLineCell :
    ¬ ∀ (records : List (List Utf16)) (chunkSize : Int), KeepsRecords records chunkSize := by
  intro h
  obtain ⟨groups, hcontents, hflat, hfit⟩ := h twoLineCell 100
  have hchunks : (chunkCsv (csvText twoLineCell) 100).length = 2 := by decide +kernel
  have hrecords : (visibleRecords twoLineCell).length = 1 := by decide +kernel
  have hgroups : groups.length = 2 := by
    have hlength := congrArg List.length hcontents
    rw [List.length_map, List.length_map, hchunks] at hlength
    exact hlength.symm
  rw [← hflat] at hrecords
  cases groups with
  | nil => simp at hgroups
  | cons g rest =>
    cases rest with
    | nil => simp at hgroups
    | cons g' rest =>
      have hg := List.length_pos_iff.mpr (hfit g (by simp)).1
      have hg' := List.length_pos_iff.mpr (hfit g' (by simp)).1
      rw [List.flatten_cons, List.flatten_cons, List.length_append, List.length_append] at hrecords
      omega

end Clemvion.KnowledgeBase
