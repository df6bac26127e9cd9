import Clemvion.Folders.FoldersService
import Clemvion.Library.Forest
import Mathlib.Data.List.Dedup

/-!
# FolderTree — the folders form trees of at most five levels

No request makes a cycle, a sixth level or a parent in another workspace, and none is refused for a
change that would have made neither.
-/

namespace Clemvion.Folders

open Common Library

variable {uuid : Type} [DecidableEq uuid] {rows : List (Folder uuid)} {f g folder : Folder uuid}
  {id workspaceId : uuid}

/-! ## 1. The invariant -/

def parentOf (rows : List (Folder uuid)) (id : uuid) : Option uuid :=
  (rows.find? fun folder => folder.id = id).bind Folder.parentId

structure FolderTree (rows : List (Folder uuid)) : Prop where
  ids : (rows.map Folder.id).Nodup
  parents : ∀ f ∈ rows, ∀ parentId, f.parentId = some parentId →
    ∃ g ∈ rows, g.id = parentId ∧ g.workspaceId = f.workspaceId
  levels : ∀ f ∈ rows, ∃ n ≤ maxNestingDepth, Level (parentOf rows) (some f.id) n

omit [DecidableEq uuid] in
theorem eq_of_id (h : (rows.map Folder.id).Nodup) (hf : f ∈ rows) (hg : g ∈ rows) (hid : f.id = g.id) :
    f = g := List.inj_on_of_nodup_map h hf hg hid

theorem find_of_mem (h : (rows.map Folder.id).Nodup) (hf : f ∈ rows) :
    rows.find? (fun folder => folder.id = f.id) = some f := by
  cases hfind : rows.find? fun folder => folder.id = f.id with
  | none => exact absurd (List.find?_eq_none.mp hfind f hf) (by simp)
  | some g =>
    have hid : g.id = f.id := by simpa using List.find?_some hfind
    rw [eq_of_id h (List.mem_of_find?_eq_some hfind) hf hid]

theorem parentOf_of_mem (h : (rows.map Folder.id).Nodup) (hf : f ∈ rows) :
    parentOf rows f.id = f.parentId := by
  unfold parentOf
  rw [find_of_mem h hf]
  rfl

theorem parentOf_of_not_mem (h : id ∉ rows.map Folder.id) : parentOf rows id = none := by
  have hfind : rows.find? (fun folder => folder.id = id) = none := by
    rw [List.find?_eq_none]
    intro f hf hid
    exact h (List.mem_map.mpr ⟨f, hf, by simpa using hid⟩)
  unfold parentOf
  rw [hfind]
  rfl

theorem mem_of_parentOf {parentId : uuid} (h : parentOf rows id = some parentId) :
    ∃ f ∈ rows, f.id = id ∧ f.parentId = some parentId := by
  unfold parentOf at h
  obtain ⟨f, hfind, hf⟩ := Option.bind_eq_some_iff.mp h
  exact ⟨f, List.mem_of_find?_eq_some hfind, by simpa using List.find?_some hfind, hf⟩

theorem findOne_eq_some_iff (h : (rows.map Folder.id).Nodup) :
    findOne rows id workspaceId = some f ↔ f ∈ rows ∧ f.id = id ∧ f.workspaceId = workspaceId := by
  unfold findOne
  constructor
  · intro hfind
    have hf := List.find?_some hfind
    rw [decide_eq_true_eq] at hf
    exact ⟨List.mem_of_find?_eq_some hfind, hf.1, hf.2⟩
  · rintro ⟨hf, rfl, rfl⟩
    cases hfind : rows.find? fun folder => folder.id = f.id ∧ folder.workspaceId = f.workspaceId with
    | none => exact absurd (List.find?_eq_none.mp hfind f hf) (by simp)
    | some g =>
      have hg := List.find?_some hfind
      rw [decide_eq_true_eq] at hg
      rw [eq_of_id h (List.mem_of_find?_eq_some hfind) hf hg.1]

theorem findOne_isSome_iff (h : (rows.map Folder.id).Nodup) :
    (findOne rows id workspaceId).isSome = true ↔
      ∃ f ∈ rows, f.id = id ∧ f.workspaceId = workspaceId := by
  constructor
  · intro hsome
    obtain ⟨f, hf⟩ := Option.isSome_iff_exists.mp hsome
    obtain ⟨hmem, hid, hws⟩ := (findOne_eq_some_iff h).mp hf
    exact ⟨f, hmem, hid, hws⟩
  · rintro ⟨f, hf⟩
    rw [(findOne_eq_some_iff h).mpr hf]
    rfl

/-- What stands above a folder is a folder of its workspace. -/
theorem FolderTree.above (h : FolderTree rows) {x : uuid} {k : Nat} (hf : f ∈ rows)
    (hx : Above (parentOf rows) x (some f.id) k) :
    ∃ g ∈ rows, g.id = x ∧ g.workspaceId = f.workspaceId := by
  induction k generalizing f with
  | zero =>
    cases hx
    exact ⟨f, hf, rfl, rfl⟩
  | succ k ih =>
    cases hx with
    | step hx =>
      obtain ⟨y, hy⟩ := hx.some_of
      rw [hy] at hx
      rw [parentOf_of_mem h.ids hf] at hy
      obtain ⟨g, hg, rfl, hws⟩ := h.parents f hf y hy
      obtain ⟨a, ha, hax, haws⟩ := ih hg hx
      exact ⟨a, ha, hax, haws.trans hws⟩

/-- What stands below a folder is a folder of its workspace. -/
theorem FolderTree.below (h : FolderTree rows) {x : uuid} {k : Nat} (hf : f ∈ rows)
    (hx : Above (parentOf rows) f.id (some x) k) :
    ∃ g ∈ rows, g.id = x ∧ g.workspaceId = f.workspaceId := by
  cases k with
  | zero =>
    cases hx
    exact ⟨f, hf, rfl, rfl⟩
  | succ k =>
    have hx' := hx
    cases hx with
    | step hparent =>
      obtain ⟨y, hy⟩ := hparent.some_of
      obtain ⟨g, hg, rfl, -⟩ := mem_of_parentOf hy
      obtain ⟨a, ha, hid, hws⟩ := h.above hg hx'
      rw [eq_of_id h.ids ha hf hid] at hws
      exact ⟨g, hg, rfl, hws.symm⟩

/-! ## 2. The depth -/

/-- Before every pass the visited folders are the ones below the current one. -/
structure DepthInv (rows : List (Folder uuid)) (workspaceId : uuid) (n : Nat) (s : DepthState uuid) :
    Prop where
  current : ∀ id ∈ s.currentId, ∃ f ∈ rows, f.id = id ∧ f.workspaceId = workspaceId
  level : ∃ m, Level (parentOf rows) s.currentId m ∧ s.depth + m = n
  visited : ∀ v ∈ s.visited, ∀ id ∈ s.currentId, ∃ k, Above (parentOf rows) id (some v) (k + 1)

theorem DepthInv.step (h : FolderTree rows) {n : Nat} (hn : n ≤ maxNestingDepth) {s : DepthState uuid}
    (hs : DepthInv rows workspaceId n s) :
    (s.currentId = none ∧ depthStep rows workspaceId s = (s, some n)) ∨
      ∃ t, depthStep rows workspaceId s = (t, none) ∧ DepthInv rows workspaceId n t ∧
        t.depth = s.depth + 1 ∧ s.depth < n := by
  obtain ⟨m, hm, hsum⟩ := hs.level
  cases hcurrent : s.currentId with
  | none =>
    rw [hcurrent] at hm
    cases hm
    refine .inl ⟨rfl, ?_⟩
    unfold depthStep
    rw [hcurrent]
    simp only [Prod.mk.injEq, Option.some.injEq, true_and]
    omega
  | some id =>
    obtain ⟨f, hf, rfl, rfl⟩ := hs.current id (by rw [hcurrent]; rfl)
    rw [hcurrent] at hm
    cases hm with
    | @node _ m hm =>
    -- the chain above is not a cycle, and shorter than the guard
    have hgo : ¬(f.id ∈ s.visited ∨ s.depth > maxNestingDepth + 1) := by
      rintro (hv | hdeep)
      · obtain ⟨k, hk⟩ := hs.visited f.id hv f.id (by rw [hcurrent]; rfl)
        exact absurd (hk.eq_zero (.node hm)) (by omega)
      · omega
    have hnext : (findOne rows f.id f.workspaceId).bind Folder.parentId = f.parentId := by
      rw [(findOne_eq_some_iff h.ids).mpr ⟨hf, rfl, rfl⟩]
      rfl
    refine .inr ⟨_, by unfold depthStep; rw [hcurrent]; exact if_neg hgo, ?_, rfl, by omega⟩
    rw [parentOf_of_mem h.ids hf] at hm
    refine ⟨fun id hid => ?_, ⟨m, ?_, by show s.depth + 1 + m = n; omega⟩, fun v hv id hid => ?_⟩
    · change id ∈ Option.bind _ _ at hid
      rw [hnext] at hid
      obtain ⟨g, hg, hgid, hws⟩ := h.parents f hf id hid
      exact ⟨g, hg, hgid, hws⟩
    · show Level (parentOf rows) (Option.bind _ _) m
      rw [hnext]
      exact hm
    · change id ∈ Option.bind _ _ at hid
      rw [hnext] at hid
      have hself : Above (parentOf rows) id (some f.id) 1 := by
        refine .step ?_
        rw [parentOf_of_mem h.ids hf, hid]
        exact .self
      obtain rfl | hv := List.mem_cons.mp hv
      · exact ⟨0, hself⟩
      · obtain ⟨k, hk⟩ := hs.visited v hv f.id (by rw [hcurrent]; rfl)
        exact ⟨k + 1, hk.trans hself⟩

/-- In a tree the depth is the level, and the guards of the loop play no part. -/
theorem FolderTree.getDepth_eq (h : FolderTree rows) {n : Nat} (hf : f ∈ rows)
    (hlevel : Level (parentOf rows) (some f.id) n) : getDepth rows f.id f.workspaceId = n := by
  have hn : n ≤ maxNestingDepth := by
    obtain ⟨m, hm, hlevel'⟩ := h.levels f hf
    rw [hlevel.unique hlevel']
    exact hm
  have hstart : DepthInv rows f.workspaceId n ⟨some f.id, [], 0⟩ := by
    refine ⟨fun id hid => ⟨f, hf, Option.some.inj hid, rfl⟩, ⟨n, hlevel, Nat.zero_add n⟩,
      fun v hv => nomatch hv⟩
  have hstep : ∀ s t, DepthInv rows f.workspaceId n s → depthStep rows f.workspaceId s = (t, none) →
      DepthInv rows f.workspaceId n t ∧ n - t.depth < n - s.depth := by
    intro s t hs hst
    obtain ⟨-, hstop⟩ | ⟨t', hgo, ht', hdepth, hlt⟩ := hs.step h hn
    · rw [hstop] at hst
      cases hst
    · rw [hgo, Prod.mk.injEq] at hst
      rw [← hst.1]
      exact ⟨ht', by omega⟩
  obtain ⟨t, u, e, -, ht, hend, hrun⟩ := runLoop_of_rank (fun s => n - s.depth) hstep
    (maxNestingDepth + 3) _ hstart (by show n - 0 < _; omega)
  unfold getDepth
  rw [hrun]
  obtain ⟨-, hstop⟩ | ⟨t', hgo, -⟩ := ht.step h hn
  · rw [hstop, Prod.mk.injEq] at hend
    rw [← hend.2]
    rfl
  · rw [hgo] at hend
    cases hend

/-! ## 3. The subtree -/

theorem mem_foldl_addChild (rootId : uuid) (children : List (Folder uuid)) (acc : List uuid × List uuid)
    (x : uuid) :
    (x ∈ (children.foldl (addChild rootId) acc).1 ↔
      x ∈ acc.1 ∨ (x ≠ rootId ∧ x ∈ children.map Folder.id)) ∧
    (x ∈ (children.foldl (addChild rootId) acc).2 ↔
      x ∈ acc.2 ∨ (x ≠ rootId ∧ x ∉ acc.1 ∧ x ∈ children.map Folder.id)) := by
  induction children generalizing acc with
  | nil => simp
  | cons child children ih =>
    rw [List.foldl_cons]
    obtain ⟨hids, hnext⟩ := ih (addChild rootId acc child)
    rw [hids, hnext]
    unfold addChild
    split_ifs with hnew
    · simp only [List.mem_append, List.map_cons, List.mem_cons, not_or]
      constructor
      · grind
      · grind
    · rw [not_and_not_right] at hnew
      simp only [List.map_cons, List.mem_cons]
      constructor
      · grind
      · grind

/-- After `h` passes: the folders `h` levels below the root wait, and those up to there are listed. -/
structure SubtreeInv (rows : List (Folder uuid)) (rootId : uuid) (s : Subtree uuid) : Prop where
  frontier : ∀ x, x ∈ s.frontier ↔ Above (parentOf rows) rootId (some x) s.height
  ids : ∀ x, x ∈ s.ids ↔ ∃ k < s.height, Above (parentOf rows) rootId (some x) (k + 1)
  full : ∀ k < s.height, ∃ x, Above (parentOf rows) rootId (some x) k

theorem FolderTree.mem_children (h : FolderTree rows) (hf : f ∈ rows) {frontier : List uuid} {k : Nat}
    (hfrontier : ∀ x, x ∈ frontier ↔ Above (parentOf rows) f.id (some x) k) (x : uuid) :
    x ∈ (rows.filter fun folder => folder.workspaceId = f.workspaceId ∧
        ∃ parentId ∈ frontier, folder.parentId = some parentId).map Folder.id ↔
      Above (parentOf rows) f.id (some x) (k + 1) := by
  simp only [List.mem_map, List.mem_filter, decide_eq_true_eq]
  constructor
  · rintro ⟨g, ⟨hg, -, parentId, hparent, hgp⟩, rfl⟩
    refine .step ?_
    rw [parentOf_of_mem h.ids hg, hgp]
    exact (hfrontier parentId).mp hparent
  · intro hx
    obtain ⟨g, hg, rfl, hws⟩ := h.below hf hx
    obtain ⟨-, hzero⟩ | ⟨l, hl, hx⟩ := above_some_iff.mp hx
    · exact absurd hzero (Nat.succ_ne_zero k)
    · obtain ⟨parentId, hparent⟩ := hx.some_of
      rw [hparent, ← Nat.succ.inj hl] at hx
      rw [parentOf_of_mem h.ids hg] at hparent
      exact ⟨g, ⟨hg, hws, parentId, (hfrontier parentId).mpr hx, hparent⟩, rfl⟩

theorem SubtreeInv.step (h : FolderTree rows) (hf : f ∈ rows) {s : Subtree uuid}
    (hs : SubtreeInv rows f.id s) (hgo : s.frontier ≠ []) :
    SubtreeInv rows f.id (subtreeStep rows f.id f.workspaceId s) := by
  obtain ⟨n, -, hn⟩ := h.levels f hf
  have hchildren := h.mem_children hf hs.frontier
  have hfound := fun x => mem_foldl_addChild f.id (rows.filter fun folder =>
    folder.workspaceId = f.workspaceId ∧ ∃ parentId ∈ s.frontier, folder.parentId = some parentId)
      (s.ids, []) x
  -- a folder one level further down is neither the root nor listed
  have hnew : ∀ x, Above (parentOf rows) f.id (some x) (s.height + 1) → x ≠ f.id ∧ x ∉ s.ids := by
    intro x hx
    refine ⟨?_, fun hmem => ?_⟩
    · rintro rfl
      exact absurd (hx.eq_zero hn) (Nat.succ_ne_zero _)
    · obtain ⟨k, hk, hx'⟩ := (hs.ids x).mp hmem
      have := hx.unique hx' (hn.of_above hx)
      omega
  refine ⟨fun x => ?_, fun x => ?_, fun k hk => ?_⟩
  · refine (hfound x).2.trans ?_
    show _ ↔ Above (parentOf rows) f.id (some x) (s.height + 1)
    rw [hchildren x]
    constructor
    · rintro (hx | ⟨-, -, hx⟩)
      · cases hx
      · exact hx
    · intro hx
      exact .inr ⟨(hnew x hx).1, (hnew x hx).2, hx⟩
  · refine (hfound x).1.trans ?_
    show _ ↔ ∃ k < s.height + 1, Above (parentOf rows) f.id (some x) (k + 1)
    rw [hchildren x, hs.ids x]
    constructor
    · rintro (⟨k, hk, hx⟩ | ⟨-, hx⟩)
      · exact ⟨k, by omega, hx⟩
      · exact ⟨s.height, by omega, hx⟩
    · rintro ⟨k, hk, hx⟩
      obtain hk | rfl := Nat.lt_succ_iff_lt_or_eq.mp hk
      · exact .inl ⟨k, hk, hx⟩
      · exact .inr ⟨(hnew x hx).1, hx⟩
  · obtain hk | rfl := Nat.lt_succ_iff_lt_or_eq.mp hk
    · exact hs.full k hk
    · obtain ⟨x, hx⟩ := List.exists_mem_of_ne_nil _ hgo
      exact ⟨x, (hs.frontier x).mp hx⟩

/-- In a tree the loop collects all descendants, and counts their levels. -/
theorem FolderTree.collectSubtree_spec (h : FolderTree rows) (hf : f ∈ rows) :
    (∀ x, x ∈ (collectSubtree rows f.id f.workspaceId).ids ↔
      ∃ k, Above (parentOf rows) f.id (some x) (k + 1)) ∧
    (∀ x k, Above (parentOf rows) f.id (some x) k →
      k < (collectSubtree rows f.id f.workspaceId).height) ∧
    ∃ x k, Above (parentOf rows) f.id (some x) k ∧
      (collectSubtree rows f.id f.workspaceId).height = k + 1 := by
  have hstart : SubtreeInv rows f.id ⟨[], [f.id], 0⟩ := by
    refine ⟨fun x => ?_, fun x => ?_, fun k hk => absurd hk (Nat.not_lt_zero k)⟩
    · rw [List.mem_singleton, above_some_iff]
      simp
    · simp
  have hstep : ∀ n s, (SubtreeInv rows f.id s ∧ n + s.height = maxNestingDepth + 1) →
      subtreeOpen s = true → ∃ m < n, SubtreeInv rows f.id (subtreeStep rows f.id f.workspaceId s) ∧
        m + (subtreeStep rows f.id f.workspaceId s).height = maxNestingDepth + 1 := by
    rintro n s ⟨hs, hn⟩ hopen
    unfold subtreeOpen at hopen
    simp only [Bool.and_eq_true, Bool.not_eq_true', List.isEmpty_eq_false_iff, decide_eq_true_eq]
      at hopen
    refine ⟨n - 1, by omega, hs.step h hf hopen.1, ?_⟩
    show n - 1 + (s.height + 1) = _
    omega
  obtain ⟨⟨n, hinv, -⟩, hclosed⟩ := whileLoop_spec
    (fun n s => SubtreeInv rows f.id s ∧ n + s.height = maxNestingDepth + 1) hstep
    (maxNestingDepth + 1) (maxNestingDepth + 1) ⟨[], [f.id], 0⟩ ⟨hstart, rfl⟩ le_rfl
  change SubtreeInv rows f.id (collectSubtree rows f.id f.workspaceId) at hinv
  change subtreeOpen (collectSubtree rows f.id f.workspaceId) = false at hclosed
  set r := collectSubtree rows f.id f.workspaceId with hr
  -- no folder stands that far below the root, so the loop has ended with an empty frontier
  have hend : ∀ x, ¬Above (parentOf rows) f.id (some x) r.height := by
    intro x hx
    have hmem := (hinv.frontier x).mpr hx
    obtain ⟨g, hg, rfl, -⟩ := h.below hf hx
    obtain ⟨n, hn, hlevel⟩ := h.levels g hg
    obtain ⟨m, hm, hsum⟩ := hx.level hlevel
    obtain ⟨l, rfl, -⟩ := level_some_iff.mp hm
    unfold subtreeOpen at hclosed
    simp only [Bool.and_eq_false_iff, Bool.not_eq_false', List.isEmpty_iff, decide_eq_false_iff_not]
      at hclosed
    obtain hempty | hhigh := hclosed
    · rw [hempty] at hmem
      cases hmem
    · omega
  have hlt : ∀ k x, Above (parentOf rows) f.id (some x) k → k < r.height := by
    intro k
    induction k with
    | zero =>
      intro x hx
      refine Nat.pos_of_ne_zero fun hzero => hend x ?_
      rwa [hzero]
    | succ k ih =>
      intro x hx
      obtain ⟨-, hzero⟩ | ⟨l, hl, hparent⟩ := above_some_iff.mp hx
      · exact absurd hzero (Nat.succ_ne_zero k)
      · obtain ⟨y, hy⟩ := hparent.some_of
        rw [hy, ← Nat.succ.inj hl] at hparent
        refine Nat.lt_of_le_of_ne (ih y hparent) fun heq => hend x ?_
        rwa [← heq]
  refine ⟨fun x => ?_, fun x k => hlt k x, ?_⟩
  · rw [hinv.ids x]
    constructor
    · rintro ⟨k, -, hx⟩
      exact ⟨k, hx⟩
    · rintro ⟨k, hx⟩
      exact ⟨k, (Nat.lt_succ_self k).trans (hlt (k + 1) x hx), hx⟩
  · have hpos : 0 < r.height := hlt 0 f.id .self
    obtain ⟨x, hx⟩ := hinv.full (r.height - 1) (by omega)
    exact ⟨x, r.height - 1, hx, by omega⟩

/-! ## 4. One folder under another parent -/

theorem map_id_replaceRow (rows : List (Folder uuid)) (folder : Folder uuid) :
    (replaceRow rows folder).map Folder.id = rows.map Folder.id := by
  unfold replaceRow
  rw [List.map_map]
  refine List.map_congr_left fun other _ => ?_
  show (if other.id = folder.id then folder else other).id = other.id
  split_ifs with hid
  · exact hid.symm
  · rfl

theorem mem_replaceRow_iff (hf : f ∈ rows) (hid : folder.id = f.id) :
    g ∈ replaceRow rows folder ↔ g = folder ∨ g ∈ rows ∧ g.id ≠ f.id := by
  unfold replaceRow
  rw [List.mem_map]
  constructor
  · rintro ⟨other, hother, rfl⟩
    split_ifs with hsame
    · exact .inl rfl
    · exact .inr ⟨hother, by rwa [← hid]⟩
  · rintro (rfl | ⟨hg, hne⟩)
    · exact ⟨f, hf, if_pos hid.symm⟩
    · exact ⟨g, hg, if_neg (by rwa [hid])⟩

theorem parentOf_replaceRow (h : (rows.map Folder.id).Nodup) (hf : f ∈ rows) (hid : folder.id = f.id) :
    parentOf (replaceRow rows folder) = Function.update (parentOf rows) f.id folder.parentId := by
  have hnodup : ((replaceRow rows folder).map Folder.id).Nodup := by rwa [map_id_replaceRow]
  funext x
  by_cases hx : x = f.id
  · rw [hx, Function.update_self, ← hid]
    exact parentOf_of_mem hnodup ((mem_replaceRow_iff hf hid).mpr (.inl rfl))
  · rw [Function.update_of_ne hx]
    by_cases hmem : x ∈ rows.map Folder.id
    · obtain ⟨g, hg, rfl⟩ := List.mem_map.mp hmem
      rw [parentOf_of_mem h hg]
      exact parentOf_of_mem hnodup ((mem_replaceRow_iff hf hid).mpr (.inr ⟨hg, hx⟩))
    · rw [parentOf_of_not_mem hmem, parentOf_of_not_mem (by rwa [map_id_replaceRow])]

/-- When a table stays a tree if one folder of it gets another parent. -/
structure Fits (rows : List (Folder uuid)) (f : Folder uuid) (parentId : uuid) : Prop where
  parent : ∃ g ∈ rows, g.id = parentId ∧ g.workspaceId = f.workspaceId
  outside : ∀ k, ¬Above (parentOf rows) f.id (some parentId) k
  depth : ∃ d, Level (parentOf rows) (some parentId) d ∧
    ∀ x k, Above (parentOf rows) f.id (some x) k → d + 1 + k ≤ maxNestingDepth

theorem FolderTree.replaceRow_of_fits (h : FolderTree rows) (hf : f ∈ rows) (hid : folder.id = f.id)
    (hws : folder.workspaceId = f.workspaceId)
    (hfits : folder.parentId = none ∨ ∃ p, folder.parentId = some p ∧ Fits rows f p) :
    FolderTree (replaceRow rows folder) := by
  refine ⟨by rw [map_id_replaceRow]; exact h.ids, fun g hg p hp => ?_, fun g hg => ?_⟩
  -- a folder of the old table, looked up in the new one
  · have hkept : ∀ g ∈ rows, ∃ g' ∈ replaceRow rows folder, g'.id = g.id ∧
        g'.workspaceId = g.workspaceId := by
      intro g hg
      by_cases hgf : g.id = f.id
      · rw [eq_of_id h.ids hg hf hgf]
        exact ⟨folder, (mem_replaceRow_iff hf hid).mpr (.inl rfl), hid, hws⟩
      · exact ⟨g, (mem_replaceRow_iff hf hid).mpr (.inr ⟨hg, hgf⟩), rfl, rfl⟩
    obtain rfl | ⟨hg, -⟩ := (mem_replaceRow_iff hf hid).mp hg
    · obtain hnone | ⟨q, hq, hfit⟩ := hfits
      · rw [hnone] at hp
        cases hp
      · rw [hq] at hp
        cases hp
        obtain ⟨parent, hparent, rfl, hpws⟩ := hfit.parent
        obtain ⟨g', hg', hgid, hgws⟩ := hkept parent hparent
        exact ⟨g', hg', hgid, by rw [hgws, hpws, hws]⟩
    · obtain ⟨parent, hparent, rfl, hpws⟩ := h.parents g hg p hp
      obtain ⟨g', hg', hgid, hgws⟩ := hkept parent hparent
      exact ⟨g', hg', hgid, by rw [hgws, hpws]⟩
  · obtain ⟨g₀, hg₀, hgid⟩ : ∃ g₀ ∈ rows, g₀.id = g.id := by
      obtain rfl | ⟨hg, -⟩ := (mem_replaceRow_iff hf hid).mp hg
      · exact ⟨f, hf, hid.symm⟩
      · exact ⟨g, hg, rfl⟩
    obtain ⟨n, hn, hlevel⟩ := h.levels g₀ hg₀
    rw [parentOf_replaceRow h.ids hf hid, ← hgid]
    by_cases hbelow : ∃ k, Above (parentOf rows) f.id (some g₀.id) k
    · obtain ⟨k, hk⟩ := hbelow
      obtain hnone | ⟨p, hp, hfit⟩ := hfits
      · -- the subtree of a new root only rises
        obtain ⟨m, hm, hsum⟩ := hk.level hlevel
        obtain ⟨l, rfl, -⟩ := level_some_iff.mp hm
        rw [hnone]
        exact ⟨0 + 1 + k, by omega, Level.move .nothing (fun _ habove => nomatch habove) hk hlevel⟩
      · obtain ⟨d, hd, hle⟩ := hfit.depth
        rw [hp]
        exact ⟨d + 1 + k, hle _ k hk, hd.move hfit.outside hk hlevel⟩
    · exact ⟨n, hn, hlevel.update_of_not_above _ fun k hk => hbelow ⟨k, hk⟩⟩

theorem FolderTree.fits_of_replaceRow (h : FolderTree rows) (hf : f ∈ rows) (hid : folder.id = f.id)
    (hws : folder.workspaceId = f.workspaceId) {p : uuid} (hp : folder.parentId = some p)
    (htree : FolderTree (replaceRow rows folder)) : Fits rows f p := by
  have hparent : ∃ g ∈ rows, g.id = p ∧ g.workspaceId = f.workspaceId := by
    obtain ⟨g, hg, hgid, hgws⟩ :=
      htree.parents folder ((mem_replaceRow_iff hf hid).mpr (.inl rfl)) p hp
    obtain rfl | ⟨hg, -⟩ := (mem_replaceRow_iff hf hid).mp hg
    · exact ⟨f, hf, hid.symm.trans hgid, rfl⟩
    · exact ⟨g, hg, hgid, hgws.trans hws⟩
  obtain ⟨parent, hmem, rfl, hpws⟩ := hparent
  obtain ⟨d, -, hd⟩ := h.levels parent hmem
  have hlevels := htree.levels
  rw [parentOf_replaceRow h.ids hf hid, hp] at hlevels
  have hout : ∀ k, ¬Above (parentOf rows) f.id (some parent.id) k := by
    intro k hk
    obtain ⟨n, -, hn⟩ := hlevels folder ((mem_replaceRow_iff hf hid).mpr (.inl rfl))
    rw [hid] at hn
    exact not_level_update hk hd ⟨n, hn⟩
  refine ⟨⟨parent, hmem, rfl, hpws⟩, hout, d, hd, fun x k hx => ?_⟩
  obtain ⟨g, hg, rfl, -⟩ := h.below hf hx
  obtain ⟨n, -, hn⟩ := h.levels g hg
  obtain ⟨g', hg', hgid⟩ : ∃ g' ∈ replaceRow rows folder, g'.id = g.id := by
    by_cases hgf : g.id = f.id
    · exact ⟨folder, (mem_replaceRow_iff hf hid).mpr (.inl rfl), hid.trans hgf.symm⟩
    · exact ⟨g, (mem_replaceRow_iff hf hid).mpr (.inr ⟨hg, hgf⟩), rfl⟩
  obtain ⟨m, hm, hlevel⟩ := hlevels g' hg'
  rw [hgid] at hlevel
  rw [(hd.move hout hx hn).unique hlevel]
  exact hm

/-! ## 5. What the requests check -/

theorem validateParentChange_cases (rows : List (Folder uuid)) (id workspaceId p : uuid) :
    (p ≠ id ∧ (findOne rows p workspaceId).isSome = true ∧
        p ∉ (collectSubtree rows id workspaceId).ids ∧
        getDepth rows p workspaceId + (collectSubtree rows id workspaceId).height ≤ maxNestingDepth) ∧
      validateParentChange rows id workspaceId (some p) = .ok () ∨
    ¬(p ≠ id ∧ (findOne rows p workspaceId).isSome = true ∧
        p ∉ (collectSubtree rows id workspaceId).ids ∧
        getDepth rows p workspaceId + (collectSubtree rows id workspaceId).height ≤ maxNestingDepth) ∧
      IsBadRequest (validateParentChange rows id workspaceId (some p)) := by
  simp only [validateParentChange, assertParentInWorkspace, throw, throwThe, MonadExceptOf.throw,
    bind, Except.bind, pure, Except.pure]
  by_cases hself : p = id
  · rw [if_pos hself]
    exact .inr ⟨fun hall => hall.1 hself, _, _, _, rfl⟩
  rw [if_neg hself]
  by_cases hfound : (findOne rows p workspaceId).isSome = true
  · rw [if_pos hfound]
    dsimp only
    by_cases hdesc : p ∈ (collectSubtree rows id workspaceId).ids
    · rw [if_pos hdesc]
      exact .inr ⟨fun hall => hall.2.2.1 hdesc, _, _, _, rfl⟩
    rw [if_neg hdesc]
    by_cases hdeep : getDepth rows p workspaceId + (collectSubtree rows id workspaceId).height >
        maxNestingDepth
    · rw [if_pos hdeep]
      exact .inr ⟨fun hall => absurd hall.2.2.2 (Nat.not_le.mpr hdeep), _, _, _, rfl⟩
    rw [if_neg hdeep]
    exact .inl ⟨⟨hself, hfound, hdesc, Nat.not_lt.mp hdeep⟩, rfl⟩
  · rw [if_neg hfound]
    exact .inr ⟨fun hall => hfound hall.2.1, _, _, _, rfl⟩

/-- What is checked before a folder is moved is just that the tree stays one. -/
theorem FolderTree.validateParentChange_spec (h : FolderTree rows) (hf : f ∈ rows) (p : uuid) :
    Fits rows f p ∧ validateParentChange rows f.id f.workspaceId (some p) = .ok () ∨
      ¬Fits rows f p ∧ IsBadRequest (validateParentChange rows f.id f.workspaceId (some p)) := by
  obtain ⟨hids, hlt, x, k, hx, hheight⟩ := h.collectSubtree_spec hf
  obtain ⟨⟨hself, hfound, hdesc, hdeep⟩, hok⟩ | ⟨hnot, hbad⟩ :=
    validateParentChange_cases rows f.id f.workspaceId p
  · refine .inl ⟨?_, hok⟩
    obtain ⟨parent, hparent, rfl, hws⟩ := (findOne_isSome_iff h.ids).mp hfound
    obtain ⟨d, -, hd⟩ := h.levels parent hparent
    have hdepth := h.getDepth_eq hparent hd
    rw [hws] at hdepth
    refine ⟨⟨parent, hparent, rfl, hws⟩, fun k hk => ?_, d, hd, fun x k hx => ?_⟩
    · cases k with
      | zero =>
        obtain ⟨heq, -⟩ | ⟨l, hl, -⟩ := above_some_iff.mp hk
        · exact hself heq
        · cases hl
      | succ k => exact hdesc ((hids parent.id).mpr ⟨k, hk⟩)
    · have := hlt x k hx
      omega
  · refine .inr ⟨fun hfits => hnot ?_, hbad⟩
    obtain ⟨parent, hparent, rfl, hws⟩ := hfits.parent
    obtain ⟨d, hd, hle⟩ := hfits.depth
    have hdepth := h.getDepth_eq hparent hd
    rw [hws] at hdepth
    refine ⟨fun heq => hfits.outside 0 ?_, (findOne_isSome_iff h.ids).mpr ⟨parent, hparent, rfl, hws⟩,
      fun hmem => ?_, ?_⟩
    · rw [heq]
      exact .self
    · obtain ⟨k, hk⟩ := (hids parent.id).mp hmem
      exact hfits.outside (k + 1) hk
    · have := hle x k hx
      omega

/-- A folder fits where it is. -/
theorem FolderTree.fits_parent (h : FolderTree rows) (hf : f ∈ rows) {p : uuid}
    (hp : f.parentId = some p) : Fits rows f p := by
  obtain ⟨parent, hparent, rfl, hws⟩ := h.parents f hf p hp
  obtain ⟨d, -, hd⟩ := h.levels parent hparent
  have hlevel : Level (parentOf rows) (some f.id) (d + 1) := by
    refine .node ?_
    rw [parentOf_of_mem h.ids hf, hp]
    exact hd
  refine ⟨⟨parent, hparent, rfl, hws⟩, fun k hk => ?_, d, hd, fun x k hx => ?_⟩
  · have habove : Above (parentOf rows) parent.id (some f.id) 1 := by
      refine .step ?_
      rw [parentOf_of_mem h.ids hf, hp]
      exact .self
    have := (hk.trans habove).eq_zero hd
    omega
  · obtain ⟨g, hg, rfl, -⟩ := h.below hf hx
    obtain ⟨n, hn, hlevel'⟩ := h.levels g hg
    rw [(hlevel.of_above hx).unique hlevel']
    exact hn

theorem saveFolder_not_badRequest (rows : List (Folder uuid)) (folder : Folder uuid) :
    ¬IsBadRequest (saveFolder rows folder) := by
  unfold saveFolder
  split_ifs
  · rintro ⟨_, _, _, h⟩
    cases h
  · rintro ⟨_, _, _, h⟩
    cases h
  · exact not_isBadRequest_ok _

/-- A PATCH of a folder goes to the table if the table stays a tree, and is refused otherwise. -/
theorem FolderTree.update_spec (h : FolderTree rows) (hfind : findOne rows id workspaceId = some f)
    (data : UpdateFolderDto uuid) :
    FolderTree (replaceRow rows (data.assign f)) ∧
        update rows id workspaceId data = saveFolder rows (data.assign f) ∨
      ¬FolderTree (replaceRow rows (data.assign f)) ∧ IsBadRequest (update rows id workspaceId data) := by
  obtain ⟨hf, rfl, rfl⟩ := (findOne_eq_some_iff h.ids).mp hfind
  -- the parent stays, or the folder becomes a root
  have hstays : (data.assign f).parentId = none ∨ (data.assign f).parentId = f.parentId →
      FolderTree (replaceRow rows (data.assign f)) := by
    intro hparent
    refine h.replaceRow_of_fits hf rfl rfl ?_
    obtain hnone | hsame := hparent
    · exact .inl hnone
    · cases hp : f.parentId with
      | none => exact .inl (hsame.trans hp)
      | some p => exact .inr ⟨p, hsame.trans hp, h.fits_parent hf hp⟩
  unfold update findById
  rw [hfind]
  simp only [bind, Except.bind]
  cases hdata : data.parentId with
  | none => exact .inl ⟨hstays (.inr (by simp [UpdateFolderDto.assign, hdata])), rfl⟩
  | some parentId =>
    have hassign : (data.assign f).parentId = parentId := by simp [UpdateFolderDto.assign, hdata]
    by_cases hsame : parentId = f.parentId
    · simp only [ne_eq, hsame, not_true_eq_false, if_false]
      exact .inl ⟨hstays (.inr (hassign.trans hsame)), trivial⟩
    · simp only [ne_eq, hsame, not_false_eq_true, if_true]
      cases parentId with
      | none => exact .inl ⟨hstays (.inl hassign), rfl⟩
      | some p =>
        obtain ⟨hfits, hok⟩ | ⟨hnot, hbad⟩ := h.validateParentChange_spec hf p
        · rw [hok]
          exact .inl ⟨h.replaceRow_of_fits hf rfl rfl (.inr ⟨p, hassign, hfits⟩), rfl⟩
        · obtain ⟨code, message, details, heq⟩ := hbad
          rw [heq]
          exact .inr ⟨fun htree => hnot (h.fits_of_replaceRow hf (show (data.assign f).id = f.id from rfl)
            rfl hassign htree),
            code, message, details, rfl⟩

/-! ## 6. New folders and removed ones -/

theorem parentOf_append (hnew : folder.id ∉ rows.map Folder.id) :
    parentOf (rows ++ [folder]) = Function.update (parentOf rows) folder.id folder.parentId := by
  have hnone : rows.find? (fun f => f.id = folder.id) = none := by
    rw [List.find?_eq_none]
    intro f hf hid
    exact hnew (List.mem_map.mpr ⟨f, hf, by simpa using hid⟩)
  funext x
  unfold parentOf
  rw [List.find?_append]
  by_cases hx : x = folder.id
  · subst hx
    rw [Function.update_self, hnone]
    simp
  · rw [Function.update_of_ne hx]
    have hlast : [folder].find? (fun f => f.id = x) = none := by simp [Ne.symm hx]
    rw [hlast, Option.or_none]

/-- A new folder stands above no other one. -/
theorem FolderTree.level_append (h : FolderTree rows) (hnew : folder.id ∉ rows.map Folder.id)
    (hf : f ∈ rows) {n : Nat} (hn : Level (parentOf rows) (some f.id) n) :
    Level (parentOf (rows ++ [folder])) (some f.id) n := by
  rw [parentOf_append hnew]
  refine hn.update_of_not_above _ fun k hk => ?_
  obtain ⟨g, hg, hid, -⟩ := h.above hf hk
  exact hnew (List.mem_map.mpr ⟨g, hg, hid⟩)

theorem FolderTree.append_iff (h : FolderTree rows) (hnew : folder.id ∉ rows.map Folder.id) :
    FolderTree (rows ++ [folder]) ↔ ∀ p, folder.parentId = some p →
      ∃ g ∈ rows, g.id = p ∧ g.workspaceId = folder.workspaceId ∧
        ∀ d, Level (parentOf rows) (some p) d → d < maxNestingDepth := by
  have hself : parentOf (rows ++ [folder]) folder.id = folder.parentId := by
    rw [parentOf_append hnew, Function.update_self]
  constructor
  · intro htree p hp
    have hmem : folder ∈ rows ++ [folder] := List.mem_append_right _ (List.mem_singleton.mpr rfl)
    obtain ⟨g, hg, rfl, hws⟩ := htree.parents folder hmem p hp
    obtain ⟨n, hn, hlevel⟩ := htree.levels folder hmem
    obtain ⟨l, rfl, hl⟩ := level_some_iff.mp hlevel
    rw [hself, hp] at hl
    obtain hg | hg := List.mem_append.mp hg
    · refine ⟨g, hg, rfl, hws, fun d hd => ?_⟩
      rw [(h.level_append hnew hg hd).unique hl]
      omega
    · -- a folder is not its own parent
      rw [List.mem_singleton.mp hg] at hl
      have := hl.unique hlevel
      omega
  · intro hparent
    have hids : ((rows ++ [folder]).map Folder.id).Nodup := by
      rw [List.map_append]
      refine List.Nodup.append h.ids (List.nodup_singleton _) ?_
      rw [List.map_singleton, List.disjoint_singleton]
      exact hnew
    refine ⟨hids, fun f hf p hp => ?_, fun f hf => ?_⟩
    · obtain hf | hf := List.mem_append.mp hf
      · obtain ⟨g, hg, hgp⟩ := h.parents f hf p hp
        exact ⟨g, List.mem_append_left _ hg, hgp⟩
      · rw [List.mem_singleton.mp hf] at hp ⊢
        obtain ⟨g, hg, hid, hws, -⟩ := hparent p hp
        exact ⟨g, List.mem_append_left _ hg, hid, hws⟩
    · obtain hf | hf := List.mem_append.mp hf
      · obtain ⟨n, hn, hlevel⟩ := h.levels f hf
        exact ⟨n, hn, h.level_append hnew hf hlevel⟩
      · rw [List.mem_singleton.mp hf]
        cases hp : folder.parentId with
        | none =>
          refine ⟨1, by decide, .node ?_⟩
          rw [hself, hp]
          exact .nothing
        | some p =>
          obtain ⟨g, hg, rfl, -, hlt⟩ := hparent p hp
          obtain ⟨d, -, hd⟩ := h.levels g hg
          refine ⟨d + 1, hlt d hd, .node ?_⟩
          rw [hself, hp]
          exact h.level_append hnew hg hd

theorem insertFolder_not_badRequest (rows : List (Folder uuid)) (folder : Folder uuid) :
    ¬IsBadRequest (insertFolder rows folder) := by
  unfold insertFolder
  split_ifs
  · rintro ⟨_, _, _, h⟩
    cases h
  · rintro ⟨_, _, _, h⟩
    cases h
  · rintro ⟨_, _, _, h⟩
    cases h
  · exact not_isBadRequest_ok _

theorem create_cases (rows : List (Folder uuid)) (id workspaceId : uuid) (data : CreateFolderDto uuid) :
    (∀ p, data.parentId = some (some p) → (findOne rows p workspaceId).isSome = true ∧
        getDepth rows p workspaceId < maxNestingDepth) ∧
      create rows id workspaceId data = insertFolder rows (data.folder id workspaceId) ∨
    ¬(∀ p, data.parentId = some (some p) → (findOne rows p workspaceId).isSome = true ∧
        getDepth rows p workspaceId < maxNestingDepth) ∧
      IsBadRequest (create rows id workspaceId data) := by
  unfold create
  simp only [assertParentInWorkspace, throw, throwThe, MonadExceptOf.throw, bind, Except.bind]
  match data.parentId with
  | none => exact .inl ⟨fun p hp => (nomatch hp), rfl⟩
  | some none => exact .inl ⟨fun p hp => (nomatch hp), rfl⟩
  | some (some p) =>
    by_cases hfound : (findOne rows p workspaceId).isSome = true
    · simp only [if_pos hfound]
      by_cases hdeep : getDepth rows p workspaceId ≥ maxNestingDepth
      · rw [if_pos hdeep]
        exact .inr ⟨fun hall => absurd (hall p rfl).2 (Nat.not_lt.mpr hdeep), _, _, _, rfl⟩
      · rw [if_neg hdeep]
        refine .inl ⟨fun q hq => ?_, rfl⟩
        rw [← Option.some.inj (Option.some.inj hq)]
        exact ⟨hfound, Nat.not_le.mp hdeep⟩
    · simp only [if_neg hfound]
      exact .inr ⟨fun hall => hfound (hall p rfl).1, _, _, _, rfl⟩

/-- A POST of a folder goes to the table if the table stays a tree, and is refused otherwise. -/
theorem FolderTree.create_spec (h : FolderTree rows) (workspaceId : uuid) (data : CreateFolderDto uuid)
    (hnew : id ∉ rows.map Folder.id) :
    FolderTree (rows ++ [data.folder id workspaceId]) ∧
        create rows id workspaceId data = insertFolder rows (data.folder id workspaceId) ∨
      ¬FolderTree (rows ++ [data.folder id workspaceId]) ∧
        IsBadRequest (create rows id workspaceId data) := by
  have hparent : ∀ p, (data.folder id workspaceId).parentId = some p ↔
      data.parentId = some (some p) := by
    intro p
    show data.parentId.getD none = some p ↔ _
    cases data.parentId with
    | none => simp
    | some parentId => simp
  rw [h.append_iff (show (data.folder id workspaceId).id ∉ _ from hnew)]
  obtain ⟨hcond, hinsert⟩ | ⟨hnot, hbad⟩ := create_cases rows id workspaceId data
  · refine .inl ⟨fun p hp => ?_, hinsert⟩
    obtain ⟨hfound, hdepth⟩ := hcond p ((hparent p).mp hp)
    obtain ⟨g, hg, rfl, rfl⟩ := (findOne_isSome_iff h.ids).mp hfound
    refine ⟨g, hg, rfl, rfl, fun d hd => ?_⟩
    rwa [h.getDepth_eq hg hd] at hdepth
  · refine .inr ⟨fun hall => hnot fun p hp => ?_, hbad⟩
    obtain ⟨g, hg, rfl, hws, hlt⟩ := hall p ((hparent p).mpr hp)
    change g.workspaceId = workspaceId at hws
    subst hws
    obtain ⟨d, -, hd⟩ := h.levels g hg
    rw [h.getDepth_eq hg hd]
    exact ⟨(findOne_isSome_iff h.ids).mpr ⟨g, hg, rfl, rfl⟩, hlt d hd⟩

/-- Folders may go if with each of them its children go. -/
theorem FolderTree.filter (h : FolderTree rows) (keep : Folder uuid → Bool)
    (hkeep : ∀ f ∈ rows, ∀ g ∈ rows, keep f = true → f.parentId = some g.id →
      g.workspaceId = f.workspaceId → keep g = true) : FolderTree (rows.filter keep) := by
  have hids : ((rows.filter keep).map Folder.id).Nodup :=
    h.ids.sublist (List.filter_sublist.map Folder.id)
  refine ⟨hids, fun f hf p hp => ?_, fun f hmem => ?_⟩
  · obtain ⟨hf, hkept⟩ := List.mem_filter.mp hf
    obtain ⟨g, hg, rfl, hws⟩ := h.parents f hf p hp
    exact ⟨g, List.mem_filter.mpr ⟨hg, hkeep f hf g hg hkept hp hws⟩, rfl, hws⟩
  · obtain ⟨hf, hkept⟩ := List.mem_filter.mp hmem
    obtain ⟨n, hn, hlevel⟩ := h.levels f hf
    refine ⟨n, hn, ?_⟩
    clear hn hmem
    -- up the chain every folder is kept
    induction n generalizing f with
    | zero => cases hlevel
    | succ n ih =>
      obtain ⟨l, hl, hlevel⟩ := level_some_iff.mp hlevel
      rw [← Nat.succ.inj hl] at hlevel
      refine .node ?_
      rw [parentOf_of_mem hids (List.mem_filter.mpr ⟨hf, hkept⟩)]
      rw [parentOf_of_mem h.ids hf] at hlevel
      cases hp : f.parentId with
      | none =>
        rw [hp] at hlevel
        cases hlevel
        exact .nothing
      | some p =>
        rw [hp] at hlevel
        obtain ⟨g, hg, rfl, hws⟩ := h.parents f hf p hp
        exact ih g hg (hkeep f hf g hg hkept hp hws) hlevel

theorem mem_deleteCascade_iff :
    g ∈ deleteCascade rows id ↔ g ∈ rows ∧
      ¬Relation.ReflTransGen (fun p c => c ∈ childIds rows p) id g.id := by
  have hcollect : g.id ∈ collect (childIds rows) _ [id] ↔ _ := mem_collect_iff
    (List.nodup_dedup (rows.filterMap Folder.parentId)) fun p hp => by
      unfold childIds
      rw [List.map_eq_nil_iff, List.filter_eq_nil_iff]
      intro f hf hparent
      refine hp (List.mem_dedup.mpr (List.mem_filterMap.mpr ⟨f, hf, ?_⟩))
      simpa using hparent
  unfold deleteCascade
  rw [List.mem_filter, decide_eq_true_eq, hcollect]
  simp

theorem FolderTree.deleteCascade (h : FolderTree rows) (id : uuid) :
    FolderTree (deleteCascade rows id) := by
  refine h.filter _ fun f hf g hg hkept hp _ => ?_
  have hstay : ∀ f ∈ rows, (decide (f.id ∉ collect (childIds rows) (rows.filterMap Folder.parentId).dedup
      [id]) = true) ↔ f ∈ Folders.deleteCascade rows id := fun f hf => by
    unfold Folders.deleteCascade
    rw [List.mem_filter]
    exact ⟨fun hd => ⟨hf, hd⟩, fun hd => hd.2⟩
  rw [hstay g hg, mem_deleteCascade_iff]
  rw [hstay f hf, mem_deleteCascade_iff] at hkept
  refine ⟨hg, fun hgone => hkept.2 (hgone.tail ?_)⟩
  unfold childIds
  exact List.mem_map.mpr ⟨f, List.mem_filter.mpr ⟨hf, by simpa using hp⟩, rfl⟩

/-! ## 7. Runs -/

/-- Every request keeps the tree. -/
theorem FolderTree.handle (h : FolderTree rows) (request : FolderRequest uuid)
    {rows' : List (Folder uuid)} (hok : handle rows request = .ok rows') : FolderTree rows' := by
  cases request with
  | create newId workspaceId data =>
    change create rows newId workspaceId data = .ok rows' at hok
    by_cases hnew : newId ∈ rows.map Folder.id
    · -- the primary key refuses the row, if nothing else has refused it
      obtain ⟨-, hinsert⟩ | ⟨-, hbad⟩ := create_cases rows newId workspaceId data
      · rw [hinsert] at hok
        unfold insertFolder at hok
        rw [if_pos (show (data.folder newId workspaceId).id ∈ _ from hnew)] at hok
        cases hok
      · rw [hok] at hbad
        exact absurd hbad (not_isBadRequest_ok _)
    · obtain ⟨htree, hinsert⟩ | ⟨-, hbad⟩ := h.create_spec workspaceId data hnew
      · rw [hinsert] at hok
        unfold insertFolder at hok
        split_ifs at hok
        cases hok
        exact htree
      · rw [hok] at hbad
        exact absurd hbad (not_isBadRequest_ok _)
  | update id workspaceId data =>
    change update rows id workspaceId data = .ok rows' at hok
    cases hfind : findOne rows id workspaceId with
    | none =>
      unfold update findById at hok
      rw [hfind] at hok
      cases hok
    | some f =>
      obtain ⟨htree, hsave⟩ | ⟨-, hbad⟩ := h.update_spec hfind data
      · rw [hsave] at hok
        unfold saveFolder at hok
        split_ifs at hok
        cases hok
        exact htree
      · rw [hok] at hbad
        exact absurd hbad (not_isBadRequest_ok _)
  | remove id workspaceId =>
    change remove rows id workspaceId = .ok rows' at hok
    unfold remove findById at hok
    cases hfind : findOne rows id workspaceId with
    | none =>
      rw [hfind] at hok
      cases hok
    | some f =>
      rw [hfind] at hok
      cases hok
      exact h.deleteCascade f.id
  | removeWorkspace workspaceId =>
    cases hok
    refine h.filter _ fun f _ g _ hkept _ hws => ?_
    rw [hws]
    exact hkept

theorem folderTree_nil : FolderTree ([] : List (Folder uuid)) :=
  ⟨List.nodup_nil, fun _ hf => (nomatch hf), fun _ hf => nomatch hf⟩

theorem folderTree_after (requests : List (FolderRequest uuid)) : FolderTree (tableAfter requests) := by
  have hrun : ∀ rows : List (Folder uuid), FolderTree rows →
      FolderTree (requests.foldl (fun rows request => (Folders.handle rows request).toOption.getD rows)
        rows) := by
    induction requests with
    | nil => exact fun rows h => h
    | cons request requests ih =>
      intro rows h
      refine ih _ ?_
      dsimp only
      cases hres : Folders.handle rows request with
      | error e => exact h
      | ok rows' => exact h.handle request hres
  exact hrun [] folderTree_nil

/-- No folder is above itself. -/
theorem FolderTree.acyclic (h : FolderTree rows) (hf : f ∈ rows) :
    ¬Relation.TransGen (fun p c => parentOf rows c = some p) f.id f.id := by
  intro hcycle
  obtain ⟨n, -, hlevel⟩ := h.levels f hf
  obtain ⟨c, hc, hpath⟩ := Relation.TransGen.head'_iff.mp hcycle
  obtain ⟨k, habove⟩ := exists_above_iff.mpr hpath
  have hparent : Above (parentOf rows) f.id (some c) 1 := by
    refine .step ?_
    rw [hc]
    exact .self
  have := (habove.trans hparent).eq_zero hlevel
  omega

example : update (tableAfter [.create 1 0 ⟨"a", none, none⟩, .create 2 0 ⟨"b", some (some 1), none⟩]) 1 0
      ⟨none, some (some 2), none⟩ =
    .error (validationError "A folder cannot be moved under its own descendant") := by rfl

end Clemvion.Folders
