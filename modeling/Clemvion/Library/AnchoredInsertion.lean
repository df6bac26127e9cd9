import Mathlib.Data.List.Basic
import Mathlib.Data.List.DropRight
import Mathlib.Data.List.TakeWhile

/-!
# AnchoredInsertion — rows sorted into a list, group by group

Rows belong to groups, and some rows are anchors.  A row is put in front of the first anchor of its
group, else behind the last row of its group, else at the end.  Many rows inserted one by one come
out group by group: seen from one group they stand together in the order in which they came.
-/

namespace Clemvion.Library

section Insert

variable {α κ : Type} [DecidableEq κ] (key : α → κ) (anchor : α → Bool)

def insertAnchored (x : α) : List α → List α
  | [] => [x]
  | y :: ys =>
    if key y = key x ∧ anchor y = true then x :: y :: ys
    else if key y = key x ∧ ∀ z ∈ ys, key z ≠ key x then y :: x :: ys
    else y :: insertAnchored x ys

/-- The rows are inserted one after the other. -/
def insertAllAnchored (xs ys : List α) : List α :=
  xs.foldl (fun ys x => insertAnchored key anchor x ys) ys

end Insert

variable {α κ : Type} [DecidableEq κ] {key : α → κ} {anchor : α → Bool}

/-! ## 1. What is in the list -/

variable (key anchor) in
theorem insertAnchored_perm (x : α) (ys : List α) :
    (insertAnchored key anchor x ys).Perm (x :: ys) := by
  induction ys with
  | nil => exact .refl _
  | cons y ys ih =>
    rw [insertAnchored]
    split_ifs with hfirst hlast
    · exact .refl _
    · exact .swap x y ys
    · exact (ih.cons y).trans (.swap x y ys)

variable (key anchor) in
theorem insertAllAnchored_perm (xs ys : List α) :
    (insertAllAnchored key anchor xs ys).Perm (xs ++ ys) := by
  induction xs generalizing ys with
  | nil => exact .refl _
  | cons x xs ih =>
    have hfirst := (insertAnchored_perm key anchor x ys).append_left xs
    exact (ih _).trans (hfirst.trans List.perm_middle)

variable (key anchor) in
/-- The other rows stay as they are. -/
theorem filter_insertAnchored_of_not {p : α → Bool} {x : α} (hx : p x = false) (ys : List α) :
    (insertAnchored key anchor x ys).filter p = ys.filter p := by
  induction ys with
  | nil => simp [insertAnchored, hx]
  | cons y ys ih =>
    rw [insertAnchored]
    split_ifs with hfirst hlast
    · simp [hx]
    · simp [List.filter_cons, hx]
    · simp [List.filter_cons, ih]

theorem filter_insertAllAnchored_of_not {p : α → Bool} {xs : List α} (hxs : ∀ x ∈ xs, p x = false)
    (ys : List α) : (insertAllAnchored key anchor xs ys).filter p = ys.filter p := by
  induction xs generalizing ys with
  | nil => rfl
  | cons x xs ih =>
    have hx := hxs x (List.mem_cons_self ..)
    rw [← filter_insertAnchored_of_not key anchor hx ys]
    exact ih (fun x' hx' => hxs x' (List.mem_cons_of_mem _ hx')) _

/-! ## 2. One group -/

/-- The rows of a group. -/
def group (key : α → κ) (k : κ) (ys : List α) : List α := ys.filter fun y => key y = k

/-- The rows of a group in front of its first anchor, and those from there on. -/
def beforeAnchor (key : α → κ) (anchor : α → Bool) (k : κ) (ys : List α) : List α :=
  (group key k ys).takeWhile fun y => !anchor y

def fromAnchor (key : α → κ) (anchor : α → Bool) (k : κ) (ys : List α) : List α :=
  (group key k ys).dropWhile fun y => !anchor y

theorem group_cons_self {y : α} {k : κ} (h : key y = k) (ys : List α) :
    group key k (y :: ys) = y :: group key k ys :=
  List.filter_cons_of_pos (by simpa using h)

theorem group_cons_of_ne {y : α} {k : κ} (h : key y ≠ k) (ys : List α) :
    group key k (y :: ys) = group key k ys :=
  List.filter_cons_of_neg (by simpa using h)

theorem group_eq_nil {k : κ} {ys : List α} (h : ∀ y ∈ ys, key y ≠ k) : group key k ys = [] := by
  refine List.filter_eq_nil_iff.mpr fun y hy => ?_
  simpa using h y hy

variable (key anchor) in
/-- In its group a row comes just before the first anchor. -/
theorem group_insertAnchored (x : α) (ys : List α) :
    group key (key x) (insertAnchored key anchor x ys) =
      beforeAnchor key anchor (key x) ys ++ x :: fromAnchor key anchor (key x) ys := by
  unfold beforeAnchor fromAnchor
  induction ys with
  | nil => exact group_cons_self rfl []
  | cons y ys ih =>
    rw [insertAnchored]
    split_ifs with hfirst hlast
    · obtain ⟨hkey, hanchor⟩ := hfirst
      rw [group_cons_self rfl, group_cons_self hkey, List.takeWhile_cons, List.dropWhile_cons]
      simp [hanchor]
    · obtain ⟨hkey, hrest⟩ := hlast
      have hanchor : anchor y = false := by
        by_contra htrue
        exact hfirst ⟨hkey, by simpa using htrue⟩
      rw [group_cons_self hkey, group_cons_self rfl, group_cons_self hkey, group_eq_nil hrest,
        List.takeWhile_cons, List.dropWhile_cons]
      simp [hanchor]
    · by_cases hkey : key y = key x
      · have hanchor : anchor y = false := by
          by_contra htrue
          exact hfirst ⟨hkey, by simpa using htrue⟩
        rw [group_cons_self hkey, group_cons_self hkey, ih, List.takeWhile_cons, List.dropWhile_cons]
        simp [hanchor]
      · rw [group_cons_of_ne hkey, group_cons_of_ne hkey, ih]

theorem group_insertAnchored_of_ne {x : α} {k : κ} (h : key x ≠ k) (ys : List α) :
    group key k (insertAnchored key anchor x ys) = group key k ys :=
  filter_insertAnchored_of_not key anchor (by simpa using h) ys

theorem takeWhile_dropWhile (p : α → Bool) (ys : List α) : (ys.dropWhile p).takeWhile p = [] := by
  induction ys with
  | nil => rfl
  | cons y ys ih =>
    by_cases hy : p y = true
    · rw [List.dropWhile_cons_of_pos hy, ih]
    · rw [List.dropWhile_cons_of_neg hy, List.takeWhile_cons_of_neg hy]

/-- Inserted rows that are no anchors stand together before the first anchor of their group, in the
order in which they came. -/
theorem group_insertAllAnchored {xs : List α} (hxs : ∀ x ∈ xs, anchor x = false) (k : κ)
    (ys : List α) : group key k (insertAllAnchored key anchor xs ys) =
      beforeAnchor key anchor k ys ++ group key k xs ++ fromAnchor key anchor k ys := by
  induction xs generalizing ys with
  | nil =>
    rw [show group key k ([] : List α) = [] from rfl, List.append_nil]
    exact (List.takeWhile_append_dropWhile).symm
  | cons x xs ih =>
    have hrest := ih (fun x' hx' => hxs x' (List.mem_cons_of_mem _ hx')) (insertAnchored key anchor x ys)
    have hstep : insertAllAnchored key anchor (x :: xs) ys =
        insertAllAnchored key anchor xs (insertAnchored key anchor x ys) := rfl
    rw [hstep, hrest]
    -- a row of the group joins those before the anchor; a row of another group is not seen
    by_cases hkey : key x = k
    · subst hkey
      have hbefore : ∀ y ∈ beforeAnchor key anchor (key x) ys, (!anchor y) = true := fun y hy =>
        List.mem_takeWhile_imp (p := fun y => !anchor y) hy
      have hfrom : (fromAnchor key anchor (key x) ys).takeWhile (fun y => !anchor y) = [] := by
        exact takeWhile_dropWhile _ _
      have hx : (!anchor x) = true := by rw [hxs x (List.mem_cons_self ..)]; rfl
      have hsplit := group_insertAnchored key anchor x ys
      rw [group_cons_self rfl]
      have hbefore' : beforeAnchor key anchor (key x) (insertAnchored key anchor x ys) =
          beforeAnchor key anchor (key x) ys ++ [x] := by
        rw [beforeAnchor, hsplit, List.takeWhile_append_of_pos hbefore,
          List.takeWhile_cons_of_pos (p := fun y => !anchor y) hx, hfrom]
      have hfrom' : fromAnchor key anchor (key x) (insertAnchored key anchor x ys) =
          fromAnchor key anchor (key x) ys := by
        rw [fromAnchor, hsplit, List.dropWhile_append_of_pos hbefore,
          List.dropWhile_cons_of_pos (p := fun y => !anchor y) hx]
        exact List.dropWhile_idempotent (fun y => !anchor y) _
      rw [hbefore', hfrom', List.append_assoc, List.append_assoc, List.append_assoc]
      rfl
    · rw [group_cons_of_ne hkey, beforeAnchor, fromAnchor, group_insertAnchored_of_ne hkey]
      rfl

/-- In front of a row of the middle part stands all of the first part and nothing of the last. -/
theorem filter_front {p : α → Bool} {x : α} {front back first middle last : List α}
    (h : front ++ x :: back = first ++ (middle ++ last)) (hx : p x = true)
    (hfirst : ∀ y ∈ first, p y = false) (hmiddle : ∀ y ∈ middle, p y = true)
    (hlast : ∀ y ∈ last, p y = false) : front.filter (fun y => !p y) = first := by
  induction first generalizing front with
  | nil =>
    rw [List.nil_append] at h
    -- `x` is not in the last part, where `p` fails
    rcases List.append_eq_append_iff.mp h with ⟨rest, hmid, -⟩ | ⟨rest, -, hend⟩
    · refine List.filter_eq_nil_iff.mpr fun y hy => ?_
      have hin : y ∈ middle := by
        rw [hmid]
        exact List.mem_append_left _ hy
      simp [hmiddle y hin]
    · have hin : x ∈ last := by
        rw [hend]
        exact List.mem_append_right _ (List.mem_cons_self ..)
      rw [hlast x hin] at hx
      cases hx
  | cons y first ih =>
    have hy := hfirst y (List.mem_cons_self ..)
    cases front with
    | nil =>
      obtain ⟨rfl, -⟩ := List.cons.inj h
      rw [hy] at hx
      cases hx
    | cons z front =>
      obtain ⟨rfl, htail⟩ := List.cons.inj h
      rw [List.filter_cons_of_pos (by simp [hy]),
        ih htail fun w hw => hfirst w (List.mem_cons_of_mem _ hw)]

/-! ## 3. The whole list -/

/-- The rows of the other groups. -/
def others (key : α → κ) (k : κ) (ys : List α) : List α := ys.filter fun y => key y ≠ k

/-- A front part is passed over, if it has no anchor of the group and the group goes on behind it. -/
theorem insertAnchored_append {x : α} {front ys : List α}
    (hfront : ∀ y ∈ front, key y = key x → anchor y = false)
    (hgoes : (∃ y ∈ front, key y = key x) → ∃ z ∈ ys, key z = key x) :
    insertAnchored key anchor x (front ++ ys) = front ++ insertAnchored key anchor x ys := by
  induction front with
  | nil => rfl
  | cons y front ih =>
    have hy := hfront y (List.mem_cons_self ..)
    have hrest := ih (fun z hz => hfront z (List.mem_cons_of_mem _ hz)) fun hex => by
      obtain ⟨z, hz, hkey⟩ := hex
      exact hgoes ⟨z, List.mem_cons_of_mem _ hz, hkey⟩
    rw [List.cons_append, insertAnchored, hrest, if_neg, if_neg]
    · rfl
    -- not the last row of the group, since the group goes on; and no anchor
    · rintro ⟨hkey, hnone⟩
      obtain ⟨z, hz, hzkey⟩ := hgoes ⟨y, List.mem_cons_self .., hkey⟩
      exact hnone z (List.mem_append_right _ hz) hzkey
    · rintro ⟨hkey, hanchor⟩
      rw [hy hkey] at hanchor
      cases hanchor

theorem insertAllAnchored_cons (x : α) (xs ys : List α) :
    insertAllAnchored key anchor (x :: xs) ys =
      insertAllAnchored key anchor xs (insertAnchored key anchor x ys) := rfl

theorem others_cons_self {x : α} {k : κ} (h : key x = k) (xs : List α) :
    others key k (x :: xs) = others key k xs :=
  List.filter_cons_of_neg (by simpa using h)

theorem others_cons_of_ne {x : α} {k : κ} (h : key x ≠ k) (xs : List α) :
    others key k (x :: xs) = x :: others key k xs :=
  List.filter_cons_of_pos (by simpa using h)

/-- The group of a first anchor: its rows come just before the anchor. -/
theorem insertAllAnchored_anchor {xs : List α} {y : α} (hxs : ∀ x ∈ xs, anchor x = false) (block : List α)
    (hblock : ∀ z ∈ block, key z = key y ∧ anchor z = false) (hy : anchor y = true) (ys : List α) :
    insertAllAnchored key anchor xs (block ++ y :: ys) = block ++ group key (key y) xs ++
      y :: insertAllAnchored key anchor (others key (key y) xs) ys := by
  induction xs generalizing block ys with
  | nil => rw [show group key (key y) ([] : List α) = [] from rfl, List.append_nil]; rfl
  | cons x xs ih =>
    have hrest : ∀ x' ∈ xs, anchor x' = false := fun x' hx' => hxs x' (List.mem_cons_of_mem _ hx')
    have hx := hxs x (List.mem_cons_self ..)
    rw [insertAllAnchored_cons]
    -- the block in front of the anchor takes up the rows of its group one by one
    by_cases hkey : key x = key y
    · have hstep : insertAnchored key anchor x (block ++ y :: ys) = (block ++ [x]) ++ y :: ys := by
        rw [insertAnchored_append (fun z hz _ => (hblock z hz).2)
            fun _ => ⟨y, List.mem_cons_self .., hkey.symm⟩,
          insertAnchored, if_pos ⟨hkey.symm, hy⟩, List.append_assoc]
        rfl
      have hblock' : ∀ z ∈ block ++ [x], key z = key y ∧ anchor z = false := by
        intro z hz
        rcases List.mem_append.mp hz with hold | hnew
        · exact hblock z hold
        · obtain rfl := List.mem_singleton.mp hnew
          exact ⟨hkey, hx⟩
      rw [hstep, ih hrest (block ++ [x]) hblock', group_cons_self hkey, others_cons_self hkey]
      simp only [List.append_assoc, List.cons_append, List.nil_append]
    · have hstep : insertAnchored key anchor x (block ++ y :: ys) =
          block ++ y :: insertAnchored key anchor x ys := by
        have hpass : ∀ z ∈ block ++ [y], key z ≠ key x := by
          intro z hz
          rcases List.mem_append.mp hz with hold | hnew
          · rw [(hblock z hold).1]
            exact Ne.symm hkey
          · rw [List.mem_singleton.mp hnew]
            exact Ne.symm hkey
        have hskip : insertAnchored key anchor x (block ++ [y] ++ ys) =
            block ++ [y] ++ insertAnchored key anchor x ys :=
          insertAnchored_append (fun z hz heq => absurd heq (hpass z hz))
            fun ⟨z, hz, heq⟩ => absurd heq (hpass z hz)
        rwa [List.append_assoc, List.append_assoc] at hskip
      rw [hstep, ih hrest block hblock, group_cons_of_ne hkey, others_cons_of_ne hkey,
        insertAllAnchored_cons]

/-- A group that ends here without an anchor: its rows come at its end. -/
theorem insertAllAnchored_last {xs : List α} {y : α} (hxs : ∀ x ∈ xs, anchor x = false) (block : List α)
    (hblock : ∀ z ∈ block, key z = key y ∧ anchor z = false) (hy : anchor y = false) {ys : List α}
    (hys : ∀ z ∈ ys, key z ≠ key y) :
    insertAllAnchored key anchor xs (y :: (block ++ ys)) = y :: (block ++ group key (key y) xs ++
      insertAllAnchored key anchor (others key (key y) xs) ys) := by
  induction xs generalizing block ys with
  | nil => rw [show group key (key y) ([] : List α) = [] from rfl, List.append_nil]; rfl
  | cons x xs ih =>
    have hrest : ∀ x' ∈ xs, anchor x' = false := fun x' hx' => hxs x' (List.mem_cons_of_mem _ hx')
    have hx := hxs x (List.mem_cons_self ..)
    have hall : ∀ z ∈ y :: block, key z = key y ∧ anchor z = false := by
      intro z hz
      rcases List.mem_cons.mp hz with rfl | hz
      · exact ⟨rfl, hy⟩
      · exact hblock z hz
    rw [insertAllAnchored_cons]
    by_cases hkey : key x = key y
    · have hstep : insertAnchored key anchor x (y :: (block ++ ys)) =
          y :: ((block ++ [x]) ++ ys) := by
        -- the last row of the block is the last of the group
        obtain ⟨front, last, hsplit⟩ : ∃ front last, y :: block = front ++ [last] :=
          ⟨_, _, (List.dropLast_append_getLast (List.cons_ne_nil y block)).symm⟩
        have hlast := hall last (by rw [hsplit]; exact List.mem_append_right _ (List.mem_singleton_self _))
        have hfront : ∀ z ∈ front, key z = key x → anchor z = false := fun z hz _ =>
          (hall z (by rw [hsplit]; exact List.mem_append_left _ hz)).2
        have hend : insertAnchored key anchor x (last :: ys) = last :: x :: ys := by
          rw [insertAnchored, if_neg, if_pos ⟨hlast.1.trans hkey.symm, fun z hz => by
            rw [hkey]; exact hys z hz⟩]
          rintro ⟨-, htrue⟩
          rw [hlast.2] at htrue
          cases htrue
        rw [← List.cons_append, hsplit, List.append_assoc, List.singleton_append,
          insertAnchored_append hfront fun _ => ⟨last, List.mem_cons_self .., hlast.1.trans hkey.symm⟩,
          hend, ← List.cons_append, ← List.cons_append, hsplit]
        simp only [List.append_assoc, List.cons_append, List.nil_append]
      have hblock' : ∀ z ∈ block ++ [x], key z = key y ∧ anchor z = false := by
        intro z hz
        rcases List.mem_append.mp hz with hold | hnew
        · exact hblock z hold
        · obtain rfl := List.mem_singleton.mp hnew
          exact ⟨hkey, hx⟩
      rw [hstep, ih hrest (block ++ [x]) hblock' hys, group_cons_self hkey, others_cons_self hkey]
      simp only [List.append_assoc, List.cons_append, List.nil_append]
    · have hpass : ∀ z ∈ y :: block, key z ≠ key x := by
        intro z hz
        rw [(hall z hz).1]
        exact Ne.symm hkey
      have hstep : insertAnchored key anchor x (y :: (block ++ ys)) =
          y :: (block ++ insertAnchored key anchor x ys) :=
        insertAnchored_append (fun z hz heq => absurd heq (hpass z hz))
          fun ⟨z, hz, heq⟩ => absurd heq (hpass z hz)
      have hys' : ∀ z ∈ insertAnchored key anchor x ys, key z ≠ key y := by
        intro z hz
        rcases List.mem_cons.mp ((insertAnchored_perm key anchor x ys).mem_iff.mp hz) with rfl | hz
        · exact hkey
        · exact hys z hz
      rw [hstep, ih hrest block hblock hys', group_cons_of_ne hkey, others_cons_of_ne hkey,
        insertAllAnchored_cons]

/-- A row whose group goes on behind it is passed over. -/
theorem insertAllAnchored_other {y : α} (hy : anchor y = false) (xs : List α) {ys : List α}
    (hys : ∃ z ∈ ys, key z = key y) :
    insertAllAnchored key anchor xs (y :: ys) = y :: insertAllAnchored key anchor xs ys := by
  induction xs generalizing ys with
  | nil => rfl
  | cons x xs ih =>
    have hstep : insertAnchored key anchor x (y :: ys) = y :: insertAnchored key anchor x ys := by
      show insertAnchored key anchor x ([y] ++ ys) = [y] ++ insertAnchored key anchor x ys
      refine insertAnchored_append (fun z hz _ => ?_) ?_
      · rw [List.mem_singleton.mp hz]
        exact hy
      · rintro ⟨z, hz, hkey⟩
        rw [List.mem_singleton.mp hz] at hkey
        rw [← hkey]
        exact hys
    obtain ⟨z, hz, hkey⟩ := hys
    rw [insertAllAnchored_cons, hstep, ih ⟨z,
      (insertAnchored_perm key anchor x ys).mem_iff.mpr (List.mem_cons_of_mem _ hz), hkey⟩, insertAllAnchored_cons]

/-! ## 4. Once more -/

variable {p : α → Bool}

/-- The rows of a group followed by all the others fall apart again. -/
theorem group_append_others {k : κ} {xs rest : List α} (hrest : rest.Perm (others key k xs)) :
    group key k (group key k xs ++ rest) = group key k xs ∧
      others key k (group key k xs ++ rest) = rest := by
  have hkeys : ∀ z ∈ rest, key z ≠ k := fun z hz => by
    simpa using List.of_mem_filter (hrest.mem_iff.mp hz)
  have hgroup : ∀ z ∈ group key k xs, key z = k := fun z hz => by
    simpa using List.of_mem_filter hz
  refine ⟨?_, ?_⟩
  · have hself : group key k (group key k xs) = group key k xs :=
      List.filter_eq_self.mpr fun z hz => by simpa using hgroup z hz
    have hnone : group key k rest = [] := group_eq_nil hkeys
    have happend : group key k (group key k xs ++ rest) =
        group key k (group key k xs) ++ group key k rest := List.filter_append ..
    rw [happend, hself, hnone, List.append_nil]
  · have hself : others key k rest = rest :=
      List.filter_eq_self.mpr fun z hz => by simpa using hkeys z hz
    have hnone : others key k (group key k xs) = [] :=
      List.filter_eq_nil_iff.mpr fun z hz => by simpa using hgroup z hz
    have happend : others key k (group key k xs ++ rest) =
        others key k (group key k xs) ++ others key k rest := List.filter_append ..
    rw [happend, hself, hnone, List.nil_append]

theorem insertAllAnchored_nil_again {xs : List α} (hxs : ∀ x ∈ xs, anchor x = false) :
    insertAllAnchored key anchor (insertAllAnchored key anchor xs []) [] =
      insertAllAnchored key anchor xs [] := by
  induction hlength : xs.length using Nat.strong_induction_on generalizing xs with
  | _ n ih =>
    -- the group of the first row stands first; the other groups are a shorter list
    cases xs with
    | nil => rfl
    | cons x xs =>
      have hx := hxs x (List.mem_cons_self ..)
      have hrest : ∀ x' ∈ xs, anchor x' = false := fun x' hx' => hxs x' (List.mem_cons_of_mem _ hx')
      have hothers : ∀ x' ∈ others key (key x) xs, anchor x' = false := fun x' hx' =>
        hrest x' (List.mem_of_mem_filter hx')
      have hlist : ∀ zs : List α, (∀ z ∈ zs, anchor z = false) →
          insertAllAnchored key anchor (x :: zs) [] = x :: (group key (key x) zs ++
            insertAllAnchored key anchor (others key (key x) zs) []) := fun zs hzs =>
        insertAllAnchored_last hzs [] (fun z hz => nomatch hz) hx fun z hz => nomatch hz
      have hperm : (insertAllAnchored key anchor (others key (key x) xs) []).Perm
          (others key (key x) xs) := by
        simpa using insertAllAnchored_perm key anchor (others key (key x) xs) []
      have hanchors : ∀ z ∈ group key (key x) xs ++
          insertAllAnchored key anchor (others key (key x) xs) [], anchor z = false := by
        intro z hz
        rcases List.mem_append.mp hz with hz | hz
        · exact hrest z (List.mem_of_mem_filter hz)
        · exact hothers z (hperm.mem_iff.mp hz)
      have hshort : (others key (key x) xs).length < n := by
        have := List.length_filter_le (fun y => decide (key y ≠ key x)) xs
        rw [← hlength]
        exact Nat.lt_succ_of_le this
      obtain ⟨hgroup, hother⟩ := group_append_others hperm
      rw [hlist xs hrest, hlist _ hanchors, hgroup, hother, ih _ hshort hothers rfl]

/-- Inserting what was inserted, in the order in which it stands, gives the same list. -/
theorem insertAllAnchored_again {p : α → Bool} {xs ys : List α}
    (hxs : ∀ x ∈ xs, anchor x = false ∧ p x = true) (hys : ∀ y ∈ ys, p y = false) :
    insertAllAnchored key anchor ((insertAllAnchored key anchor xs ys).filter p) ys =
      insertAllAnchored key anchor xs ys := by
  have hkept : ∀ xs ys : List α, (∀ x ∈ xs, anchor x = false ∧ p x = true) → (∀ y ∈ ys, p y = false) →
      ((insertAllAnchored key anchor xs ys).filter p).Perm xs := by
    intro xs ys hxs hys
    have hperm := (insertAllAnchored_perm key anchor xs ys).filter p
    have hself : xs.filter p = xs := List.filter_eq_self.mpr fun x hx => (hxs x hx).2
    have hnone : ys.filter p = [] := List.filter_eq_nil_iff.mpr fun y hy => by simp [hys y hy]
    rwa [List.filter_append, hself, hnone, List.append_nil] at hperm
  induction ys generalizing xs with
  | nil =>
    have hall : (insertAllAnchored key anchor xs []).filter p = insertAllAnchored key anchor xs [] := by
      refine List.filter_eq_self.mpr fun x hx => (hxs x ?_).2
      simpa using (insertAllAnchored_perm key anchor xs []).mem_iff.mp hx
    rw [hall]
    exact insertAllAnchored_nil_again fun x hx => (hxs x hx).1
  | cons y ys ih =>
    have hy := hys y (List.mem_cons_self ..)
    have hrest : ∀ z ∈ ys, p z = false := fun z hz => hys z (List.mem_cons_of_mem _ hz)
    have hanchors : ∀ x ∈ xs, anchor x = false := fun x hx => (hxs x hx).1
    have hothers : ∀ x ∈ others key (key y) xs, anchor x = false ∧ p x = true := fun x hx =>
      hxs x (List.mem_of_mem_filter hx)
    have hgroup : (group key (key y) xs).filter p = group key (key y) xs :=
      List.filter_eq_self.mpr fun x hx => (hxs x (List.mem_of_mem_filter hx)).2
    have hnoneLeft : ∀ z ∈ ([] : List α), key z = key y ∧ anchor z = false := fun z hz => nomatch hz
    have hperm := hkept _ ys hothers hrest
    obtain ⟨hsame, hother⟩ := group_append_others hperm
    have hagain : ∀ x ∈ group key (key y) xs ++
        (insertAllAnchored key anchor (others key (key y) xs) ys).filter p, anchor x = false := by
      intro x hx
      rcases List.mem_append.mp hx with hx | hx
      · exact hanchors x (List.mem_of_mem_filter hx)
      · exact (hothers x (hperm.mem_iff.mp hx)).1
    -- at each row of `ys`: an anchor, a row whose group goes on, or the last row of its group
    by_cases hanchor : anchor y = true
    · have hlist : ∀ zs : List α, (∀ z ∈ zs, anchor z = false) →
          insertAllAnchored key anchor zs (y :: ys) = group key (key y) zs ++
            y :: insertAllAnchored key anchor (others key (key y) zs) ys := fun zs hzs =>
        insertAllAnchored_anchor hzs [] hnoneLeft hanchor ys
      rw [hlist xs hanchors, List.filter_append, hgroup, List.filter_cons_of_neg (by simp [hy]),
        hlist _ hagain, hsame, hother, ih hothers hrest]
    · have hanchor : anchor y = false := by simpa using hanchor
      by_cases hgoes : ∃ z ∈ ys, key z = key y
      · rw [insertAllAnchored_other hanchor xs hgoes, List.filter_cons_of_neg (by simp [hy]),
          insertAllAnchored_other hanchor _ hgoes, ih hxs hrest]
      · have hends : ∀ z ∈ ys, key z ≠ key y := fun z hz heq => hgoes ⟨z, hz, heq⟩
        have hlist : ∀ zs : List α, (∀ z ∈ zs, anchor z = false) →
            insertAllAnchored key anchor zs (y :: ys) = y :: (group key (key y) zs ++
              insertAllAnchored key anchor (others key (key y) zs) ys) := fun zs hzs =>
          insertAllAnchored_last hzs [] hnoneLeft hanchor hends
        rw [hlist xs hanchors, List.filter_cons_of_neg (by simp [hy]), List.filter_append, hgroup,
          hlist _ hagain, hsame, hother, ih hothers hrest]

end Clemvion.Library
