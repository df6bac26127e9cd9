import Clemvion.Auth.AuthService

/-!
# TokenFamilies — what a statement does to the tokens

A row keeps all but its revocation, and that is never taken back.  From this and the fresh ids
each invariant of the tables follows, statement by statement.
-/

namespace Clemvion.Auth

open Clemvion.Library Database

/-! ## 1. Invariants -/

/-- The tables are as the services keep them. -/
structure Orderly (db : Database) : Prop where
  ids : ∀ t ∈ db.tokens.values, t.id < db.drawn
  families : ∀ t ∈ db.tokens.values, t.familyId < db.drawn
  hashes : ∀ t ∈ db.tokens.values, ∀ t' ∈ db.tokens.values, t.tokenHash = t'.tokenHash → t = t'
  users : ∀ t ∈ db.tokens.values, ∀ t' ∈ db.tokens.values,
    t.familyId = t'.familyId → t.userId = t'.userId
  oneOpen : ∀ t ∈ db.tokens.values, ∀ t' ∈ db.tokens.values,
    t.familyId = t'.familyId → t.isRevoked = false → t'.isRevoked = false → t = t'
  resetTokens : ∀ u ∈ db.users.values, ∀ u' ∈ db.users.values, ∀ tokenHash,
    u.passwordResetToken = some tokenHash → u'.passwordResetToken = some tokenHash → u = u'
  updates : ∀ u ∈ db.updates.values, u.id < db.drawn ∧ ∀ id ∈ u.rows, id < db.drawn

/-- The same row, no less revoked. -/
structure RefreshToken.Onward (t t' : RefreshToken) : Prop where
  id : t'.id = t.id
  tokenHash : t'.tokenHash = t.tokenHash
  userId : t'.userId = t.userId
  familyId : t'.familyId = t.familyId
  isRevoked : t.isRevoked = true → t'.isRevoked = true

/-- What lasts of the tables. -/
structure Later (db db' : Database) : Prop where
  drawn : db.drawn ≤ db'.drawn
  tokens : ∀ t ∈ db.tokens.values, ∃ t' ∈ db'.tokens.values, t.Onward t'
  resetTokens : ∀ u' ∈ db'.users.values, ∀ tokenHash, u'.passwordResetToken = some tokenHash →
    u' ∈ db.users.values
  updates : ∀ u ∈ db'.updates.values, u ∈ db.updates.values ∨ db.drawn ≤ u.id

/-- The UPDATE saw a token of the family when it began. -/
def Database.Covers (db : Database) (u : Update) (familyId : Id) : Prop :=
  ∃ t ∈ db.tokens.values, t.id ∈ u.rows ∧ t.familyId = familyId

/-- Criteria of a revocation: what they hold of one token they hold of every token of its family
that is not revoked. -/
structure Criteria.Sweeps (c : Criteria) : Prop where
  id : c.id = none
  expiresAfter : c.expiresAfter = none
  isRevoked : c.isRevoked ≠ some true

instance (c : Criteria) : Decidable c.Sweeps :=
  decidable_of_iff (c.id = none ∧ c.expiresAfter = none ∧ c.isRevoked ≠ some true)
    ⟨fun h => ⟨h.1, h.2.1, h.2.2⟩, fun h => ⟨h.1, h.2, h.3⟩⟩

instance (db : Database) (u : Update) (familyId : Id) : Decidable (db.Covers u familyId) :=
  inferInstanceAs (Decidable (∃ t ∈ db.tokens.values, t.id ∈ u.rows ∧ t.familyId = familyId))

/-- Every revocation under way has seen all there is to revoke of the families it covers. -/
def Swept (db : Database) : Prop :=
  ∀ u ∈ db.updates.values, u.criteria.Sweeps → ∀ familyId, db.Covers u familyId →
    ∀ t ∈ db.tokens.values, t.familyId = familyId → t.isRevoked = false → u.affects t = true

/-- No token of the family can be used again. -/
structure Closed (familyId : Id) (db : Database) : Prop where
  drawn : familyId < db.drawn
  revoked : ∀ t ∈ db.tokens.values, t.familyId = familyId → t.isRevoked = true

theorem RefreshToken.Onward.refl (t : RefreshToken) : t.Onward t := ⟨rfl, rfl, rfl, rfl, fun h => h⟩

theorem RefreshToken.Onward.trans {t t' t'' : RefreshToken} (h : t.Onward t') (h' : t'.Onward t'') :
    t.Onward t'' where
  id := h'.id.trans h.id
  tokenHash := h'.tokenHash.trans h.tokenHash
  userId := h'.userId.trans h.userId
  familyId := h'.familyId.trans h.familyId
  isRevoked hrevoked := h'.isRevoked (h.isRevoked hrevoked)

theorem Later.refl (db : Database) : Later db db where
  drawn := Nat.le_refl _
  tokens t ht := ⟨t, ht, .refl t⟩
  resetTokens _ hu _ _ := hu
  updates _ hu := .inl hu

theorem Later.trans {db db' db'' : Database} (h : Later db db') (h' : Later db' db'') :
    Later db db'' where
  drawn := Nat.le_trans h.drawn h'.drawn
  tokens t ht := by
    obtain ⟨t', ht', hon⟩ := h.tokens t ht
    obtain ⟨t'', ht'', hon'⟩ := h'.tokens t' ht'
    exact ⟨t'', ht'', hon.trans hon'⟩
  resetTokens u hu tokenHash htoken :=
    h.resetTokens u (h'.resetTokens u hu tokenHash htoken) tokenHash htoken
  updates u hu := by
    obtain hold | hnew := h'.updates u hu
    · exact h.updates u hold
    · exact .inr (Nat.le_trans h.drawn hnew)

/-! ## 2. An UPDATE -/

section

variable {db db' : Database} {runtime : Runtime} {u v : Update} {t : RefreshToken} {f : Id}

theorem setRevoked_onward : t.Onward (setRevoked u t) := by
  unfold setRevoked
  split_ifs
  · exact ⟨rfl, rfl, rfl, rfl, fun _ => rfl⟩
  · exact .refl t

theorem setRevoked_of_open (h : (setRevoked u t).isRevoked = false) : setRevoked u t = t := by
  unfold setRevoked at h ⊢
  split_ifs at h ⊢
  rfl

theorem isRevoked_setRevoked (h : u.affects t = true) : (setRevoked u t).isRevoked = true := by
  unfold setRevoked
  rw [if_pos h]

theorem mem_endUpdate : t ∈ (db.endUpdate u).2.tokens.values ↔
    ∃ s ∈ db.tokens.values, setRevoked u s = t :=
  KeyedMap.mem_mapValues (id_setRevoked u)

/-- A row that an UPDATE leaves open was there before. -/
theorem mem_of_open (ht : t ∈ (db.endUpdate u).2.tokens.values) (hopen : t.isRevoked = false) :
    t ∈ db.tokens.values := by
  obtain ⟨s, hs, rfl⟩ := mem_endUpdate.mp ht
  rw [setRevoked_of_open hopen]
  exact hs

theorem Orderly.endUpdate (h : Orderly db) : Orderly (db.endUpdate u).2 where
  ids t ht := by
    obtain ⟨s, hs, rfl⟩ := mem_endUpdate.mp ht
    rw [setRevoked_onward.id]
    exact h.ids s hs
  families t ht := by
    obtain ⟨s, hs, rfl⟩ := mem_endUpdate.mp ht
    rw [setRevoked_onward.familyId]
    exact h.families s hs
  hashes t ht t' ht' heq := by
    obtain ⟨s, hs, rfl⟩ := mem_endUpdate.mp ht
    obtain ⟨s', hs', rfl⟩ := mem_endUpdate.mp ht'
    rw [setRevoked_onward.tokenHash, setRevoked_onward.tokenHash] at heq
    rw [h.hashes s hs s' hs' heq]
  users t ht t' ht' heq := by
    obtain ⟨s, hs, rfl⟩ := mem_endUpdate.mp ht
    obtain ⟨s', hs', rfl⟩ := mem_endUpdate.mp ht'
    rw [setRevoked_onward.familyId, setRevoked_onward.familyId] at heq
    rw [setRevoked_onward.userId, setRevoked_onward.userId]
    exact h.users s hs s' hs' heq
  oneOpen t ht t' ht' heq hopen hopen' :=
    h.oneOpen t (mem_of_open ht hopen) t' (mem_of_open ht' hopen') heq hopen hopen'
  resetTokens := h.resetTokens
  updates v hv := h.updates v (KeyedMap.mem_delete.mp hv).1

theorem later_endUpdate : Later db (db.endUpdate u).2 where
  drawn := Nat.le_refl _
  tokens t ht := ⟨setRevoked u t, mem_endUpdate.mpr ⟨t, ht, rfl⟩, setRevoked_onward⟩
  resetTokens _ hu _ _ := hu
  updates _ hv := .inl (KeyedMap.mem_delete.mp hv).1

theorem covers_of_endUpdate (h : (db.endUpdate v).2.Covers u f) : db.Covers u f := by
  obtain ⟨t, ht, hrow, hfamily⟩ := h
  obtain ⟨s, hs, rfl⟩ := mem_endUpdate.mp ht
  rw [setRevoked_onward.id] at hrow
  rw [setRevoked_onward.familyId] at hfamily
  exact ⟨s, hs, hrow, hfamily⟩

theorem Swept.endUpdate (h : Swept db) : Swept (db.endUpdate v).2 := by
  intro u hu hsweeps f hcovers t ht hfamily hopen
  have hu' : u ∈ db.updates.values := (KeyedMap.mem_delete.mp hu).1
  exact h u hu' hsweeps f (covers_of_endUpdate hcovers) t (mem_of_open ht hopen) hfamily hopen

theorem Closed.endUpdate (h : Closed f db) : Closed f (db.endUpdate u).2 where
  drawn := h.drawn
  revoked t ht hfamily := by
    obtain ⟨s, hs, rfl⟩ := mem_endUpdate.mp ht
    rw [setRevoked_onward.familyId] at hfamily
    exact setRevoked_onward.isRevoked (h.revoked s hs hfamily)

/-- The end of a revocation closes the families that it covers. -/
theorem closed_endUpdate (h : Orderly db) (hswept : Swept db) (hu : u ∈ db.updates.values)
    (hsweeps : u.criteria.Sweeps) (hcovers : db.Covers u f) : Closed f (db.endUpdate u).2 where
  drawn := by
    obtain ⟨t, ht, -, hfamily⟩ := hcovers
    rw [← hfamily]
    exact h.families t ht
  revoked t ht hfamily := by
    obtain ⟨s, hs, rfl⟩ := mem_endUpdate.mp ht
    rw [setRevoked_onward.familyId] at hfamily
    cases hrevoked : s.isRevoked with
    | true => exact setRevoked_onward.isRevoked hrevoked
    | false => exact isRevoked_setRevoked (hswept u hu hsweeps f hcovers s hs hfamily hrevoked)

theorem mem_beginUpdate {c : Criteria} (h : Orderly db) :
    v ∈ (db.beginUpdate c).2.updates.values ↔
      v = ⟨db.drawn, c, (db.tokens.values.filter c.matches).map RefreshToken.id⟩ ∨
        v ∈ db.updates.values := by
  refine Iff.trans KeyedMap.mem_set (or_congr_right ⟨fun hv => hv.1, fun hv => ⟨hv, ?_⟩⟩)
  exact Nat.ne_of_lt (h.updates v hv).1

theorem Orderly.beginUpdate {c : Criteria} (h : Orderly db) : Orderly (db.beginUpdate c).2 where
  ids t ht := Nat.lt_succ_of_lt (h.ids t ht)
  families t ht := Nat.lt_succ_of_lt (h.families t ht)
  hashes := h.hashes
  users := h.users
  oneOpen := h.oneOpen
  resetTokens := h.resetTokens
  updates v hv := by
    obtain rfl | hold := (mem_beginUpdate h).mp hv
    · refine ⟨Nat.lt_succ_self _, fun id hid => ?_⟩
      obtain ⟨t, ht, rfl⟩ := List.mem_map.mp hid
      exact Nat.lt_succ_of_lt (h.ids t (List.mem_filter.mp ht).1)
    · obtain ⟨hid, hrows⟩ := h.updates v hold
      exact ⟨Nat.lt_succ_of_lt hid, fun id hrow => Nat.lt_succ_of_lt (hrows id hrow)⟩

theorem later_beginUpdate {c : Criteria} (h : Orderly db) : Later db (db.beginUpdate c).2 where
  drawn := Nat.le_succ _
  tokens t ht := ⟨t, ht, .refl t⟩
  resetTokens _ hu _ _ := hu
  updates v hv := by
    obtain rfl | hold := (mem_beginUpdate h).mp hv
    · exact .inr (Nat.le_refl _)
    · exact .inl hold

theorem Criteria.Sweeps.matches {c : Criteria} (h : c.Sweeps) {t t' : RefreshToken}
    (hmatches : c.matches t = true) (huser : t'.userId = t.userId)
    (hfamily : t'.familyId = t.familyId) (hopen : t'.isRevoked = false) :
    c.matches t' = true := by
  obtain ⟨id, userId, familyId, notFamilyId, isRevoked, expiresAfter⟩ := c
  obtain ⟨hid, hexpires, hnot⟩ := h
  cases hid
  cases hexpires
  unfold Criteria.matches at hmatches ⊢
  rw [huser, hfamily, hopen]
  have hrevoked : isRevoked.all (false = ·) = true := by
    cases isRevoked with
    | none => rfl
    | some b =>
      cases b with
      | false => rfl
      | true => exact absurd rfl hnot
  simp only [Bool.and_eq_true] at hmatches ⊢
  exact ⟨⟨hmatches.1.1, hrevoked⟩, rfl⟩

theorem Swept.beginUpdate {c : Criteria} (hinv : Orderly db) (h : Swept db) :
    Swept (db.beginUpdate c).2 := by
  intro u hu hsweeps f hcovers t ht hfamily hopen
  obtain rfl | hold := (mem_beginUpdate hinv).mp hu
  · -- one of the rows it saw is of the family, and so is `t`
    obtain ⟨s, hs, hrow, hs'⟩ := hcovers
    obtain ⟨s', hmem, hid⟩ := List.mem_map.mp hrow
    obtain ⟨hs'mem, hmatches⟩ := List.mem_filter.mp hmem
    obtain rfl : s' = s := KeyedMap.eq_of_key_eq hs'mem hs hid
    have hsame : t.familyId = s'.familyId := hfamily.trans hs'.symm
    have hmine : c.matches t = true :=
      hsweeps.matches hmatches (hinv.users t ht s' hs hsame) hsame hopen
    unfold Update.affects
    rw [Bool.and_eq_true, decide_eq_true_eq]
    exact ⟨List.mem_map.mpr ⟨t, List.mem_filter.mpr ⟨ht, hmine⟩, rfl⟩, hmine⟩
  · exact h u hold hsweeps f hcovers t ht hfamily hopen

/-! ## 3. An INSERT -/

theorem familyId_row_of_some {draft : Draft} (h : some f = draft.familyId) :
    (db.row runtime draft).familyId = f := by
  show draft.familyId.getD db.drawn = f
  rw [← h]
  rfl

theorem familyId_row_of_none {draft : Draft} (h : draft.familyId = none) :
    (db.row runtime draft).familyId = db.drawn := by
  show draft.familyId.getD db.drawn = db.drawn
  rw [h]
  rfl

theorem insertToken_eq_ok {draft : Draft} {token : String}
    (h : db.insertToken runtime draft = .ok (token, db')) :
    (∀ t ∈ db.tokens.values, t.tokenHash ≠ (db.row runtime draft).tokenHash) ∧
      db' = db.withRow runtime draft := by
  unfold insertToken at h
  split_ifs at h with htaken huser
  cases h
  refine ⟨fun t ht heq => htaken ?_, rfl⟩
  exact List.any_eq_true.mpr ⟨t, ht, decide_eq_true heq⟩

theorem mem_withRow {draft : Draft} (h : Orderly db) :
    t ∈ (db.withRow runtime draft).tokens.values ↔
      t = db.row runtime draft ∨ t ∈ db.tokens.values := by
  refine Iff.trans KeyedMap.mem_set (or_congr_right ⟨fun ht => ht.1, fun ht => ⟨ht, ?_⟩⟩)
  exact Nat.ne_of_lt (h.ids t ht)

theorem later_withRow {draft : Draft} (h : Orderly db) : Later db (db.withRow runtime draft) where
  drawn := Nat.le_succ _
  tokens t ht := ⟨t, (mem_withRow h).mpr (.inr ht), .refl t⟩
  resetTokens _ hu _ _ := hu
  updates _ hu := .inl hu

/-- A row goes in that no row before it can be taken for: of a user of the family, if that is not
new, and with no other row of it open. -/
theorem Orderly.withRow {draft : Draft} (h : Orderly db)
    (hnew : ∀ t ∈ db.tokens.values, t.tokenHash ≠ (db.row runtime draft).tokenHash)
    (hfamily : ∀ f, draft.familyId = some f → f < db.drawn)
    (hkin : ∀ t ∈ db.tokens.values, t.familyId = (db.row runtime draft).familyId →
      t.userId = draft.userId ∧ t.isRevoked = true) :
    Orderly (db.withRow runtime draft) where
  ids t ht := by
    obtain rfl | hold := (mem_withRow h).mp ht
    · exact Nat.lt_succ_self _
    · exact Nat.lt_succ_of_lt (h.ids t hold)
  families t ht := by
    obtain rfl | hold := (mem_withRow h).mp ht
    · show draft.familyId.getD db.drawn < db.drawn + 1
      cases hdraft : draft.familyId with
      | none => exact Nat.lt_succ_self _
      | some f => exact Nat.lt_succ_of_lt (hfamily f hdraft)
    · exact Nat.lt_succ_of_lt (h.families t hold)
  hashes t ht t' ht' heq := by
    obtain rfl | hold := (mem_withRow h).mp ht <;> obtain rfl | hold' := (mem_withRow h).mp ht'
    · rfl
    · exact absurd heq.symm (hnew t' hold')
    · exact absurd heq (hnew t hold)
    · exact h.hashes t hold t' hold' heq
  users t ht t' ht' heq := by
    obtain rfl | hold := (mem_withRow h).mp ht <;> obtain rfl | hold' := (mem_withRow h).mp ht'
    · rfl
    · exact (hkin t' hold' heq.symm).1.symm
    · exact (hkin t hold heq).1
    · exact h.users t hold t' hold' heq
  oneOpen t ht t' ht' heq hopen hopen' := by
    obtain rfl | hold := (mem_withRow h).mp ht <;> obtain rfl | hold' := (mem_withRow h).mp ht'
    · rfl
    · exact absurd hopen' (by rw [(hkin t' hold' heq.symm).2]; decide)
    · exact absurd hopen (by rw [(hkin t hold heq).2]; decide)
    · exact h.oneOpen t hold t' hold' heq hopen hopen'
  resetTokens := h.resetTokens
  updates v hv := by
    obtain ⟨hid, hrows⟩ := h.updates v hv
    exact ⟨Nat.lt_succ_of_lt hid, fun id hrow => Nat.lt_succ_of_lt (hrows id hrow)⟩

/-- No revocation under way covers the family of a row that goes in. -/
theorem Swept.withRow {draft : Draft} (hinv : Orderly db) (h : Swept db)
    (hfree : ∀ u ∈ db.updates.values, u.criteria.Sweeps →
      ¬ db.Covers u (db.row runtime draft).familyId) :
    Swept (db.withRow runtime draft) := by
  intro u hu hsweeps f hcovers t ht hfamily hopen
  -- the rows that the UPDATE saw are older than the one that goes in
  have hbefore : db.Covers u f := by
    obtain ⟨s, hs, hrow, hs'⟩ := hcovers
    obtain rfl | hold := (mem_withRow hinv).mp hs
    · exact absurd ((hinv.updates u hu).2 _ hrow) (Nat.lt_irrefl _)
    · exact ⟨s, hold, hrow, hs'⟩
  obtain rfl | hold := (mem_withRow hinv).mp ht
  · rw [← hfamily] at hbefore
    exact absurd hbefore (hfree u hu hsweeps)
  · exact h u hu hsweeps f hbefore t hold hfamily hopen

theorem Closed.withRow {draft : Draft} (hinv : Orderly db) (h : Closed f db)
    (hother : (db.row runtime draft).familyId ≠ f) :
    Closed f (db.withRow runtime draft) where
  drawn := Nat.lt_succ_of_lt h.drawn
  revoked t ht hfamily := by
    obtain rfl | hold := (mem_withRow hinv).mp ht
    · exact absurd hfamily hother
    · exact h.revoked t hold hfamily

/-! ## 4. The other writes -/

theorem mem_withPassword {user w : User} {passwordHash tokenHash : String}
    (hw : w ∈ (db.withPassword user passwordHash).users.values)
    (htoken : w.passwordResetToken = some tokenHash) : w ∈ db.users.values ∧ w.id ≠ user.id := by
  obtain rfl | hold := KeyedMap.mem_set.mp hw
  · cases htoken
  · exact hold

theorem Orderly.withPassword {user : User} {passwordHash : String} (h : Orderly db) :
    Orderly (db.withPassword user passwordHash) where
  ids := h.ids
  families := h.families
  hashes := h.hashes
  users := h.users
  oneOpen := h.oneOpen
  resetTokens w hw w' hw' tokenHash htoken htoken' :=
    h.resetTokens w (mem_withPassword hw htoken).1 w' (mem_withPassword hw' htoken').1 tokenHash
      htoken htoken'
  updates := h.updates

theorem later_withPassword {user : User} {passwordHash : String} :
    Later db (db.withPassword user passwordHash) where
  drawn := Nat.le_refl _
  tokens t ht := ⟨t, ht, .refl t⟩
  resetTokens _ hw _ htoken := (mem_withPassword hw htoken).1
  updates _ hu := .inl hu

theorem Orderly.dropUpdate (h : Orderly db) : Orderly (db.dropUpdate u) where
  ids := h.ids
  families := h.families
  hashes := h.hashes
  users := h.users
  oneOpen := h.oneOpen
  resetTokens := h.resetTokens
  updates v hv := h.updates v (KeyedMap.mem_delete.mp hv).1

theorem later_dropUpdate : Later db (db.dropUpdate u) where
  drawn := Nat.le_refl _
  tokens t ht := ⟨t, ht, .refl t⟩
  resetTokens _ hu _ _ := hu
  updates _ hv := .inl (KeyedMap.mem_delete.mp hv).1

theorem Swept.dropUpdate (h : Swept db) : Swept (db.dropUpdate v) :=
  fun u hu => h u (KeyedMap.mem_delete.mp hu).1

end

/-! ## 5. Statements -/

/-- What a statement leaves of the tables, one case for each of its ways. -/
inductive Effect (runtime : Runtime) (db : Database) : Statement → Database → Prop
  | reads {q} : Effect runtime db q db
  | begins {criteria} : Effect runtime db (.beginUpdate criteria) (db.beginUpdate criteria).2
  | revokes {u} (hu : u ∈ db.updates.values) :
      Effect runtime db (.commitRevocation u.id) (db.endUpdate u).2
  | fails {u draft} (hu : u ∈ db.updates.values) :
      Effect runtime db (.commitRotation u.id draft) (db.dropUpdate u)
  | rotates {u draft t} (hu : u ∈ db.updates.values) (ht : t ∈ db.tokens.values)
      (haffects : u.affects t = true)
      (hnew : ∀ s ∈ (db.endUpdate u).2.tokens.values,
        s.tokenHash ≠ ((db.endUpdate u).2.row runtime draft).tokenHash) :
      Effect runtime db (.commitRotation u.id draft) ((db.endUpdate u).2.withRow runtime draft)
  | inserts {draft} (hnew : ∀ s ∈ db.tokens.values,
        s.tokenHash ≠ (db.row runtime draft).tokenHash) :
      Effect runtime db (.insertToken draft) (db.withRow runtime draft)
  | setsPassword {user passwordHash} (huser : user ∈ db.users.values) :
      Effect runtime db (.setPassword user.id passwordHash) (db.withPassword user passwordHash)

section

variable {runtime : Runtime} {db db' : Database} {u : Update} {draft : Draft} {token : String}

/-- A refresh that succeeds affects a row. -/
theorem rotate_eq_ok (h : db.rotate runtime u draft = .ok (token, db')) :
    (∃ t ∈ db.tokens.values, u.affects t = true) ∧
      (∀ s ∈ (db.endUpdate u).2.tokens.values,
        s.tokenHash ≠ ((db.endUpdate u).2.row runtime draft).tokenHash) ∧
      db' = (db.endUpdate u).2.withRow runtime draft := by
  unfold Database.rotate at h
  split_ifs at h with hnone
  obtain ⟨t, ht⟩ := List.exists_mem_of_ne_nil _ (fun hnil => hnone (congrArg List.length hnil))
  obtain ⟨hmem, haffects⟩ := List.mem_filter.mp ht
  exact ⟨⟨t, hmem, haffects⟩, insertToken_eq_ok h⟩

theorem commitRotation_eq_ok {update : Id}
    (h : (db.commitRotation runtime update draft).1 = .ok token) :
    ∃ u ∈ db.updates.values, u.id = update ∧ (∃ t ∈ db.tokens.values, u.affects t = true) ∧
      (∀ s ∈ (db.endUpdate u).2.tokens.values,
        s.tokenHash ≠ ((db.endUpdate u).2.row runtime draft).tokenHash) ∧
      (db.commitRotation runtime update draft).2 = (db.endUpdate u).2.withRow runtime draft := by
  unfold Database.commitRotation at h ⊢
  cases hupdate : db.updates.get? update with
  | none =>
    rw [hupdate] at h
    cases h
  | some u =>
    obtain ⟨hu, hid⟩ := KeyedMap.get?_eq_some_iff.mp hupdate
    simp only [hupdate] at h ⊢
    cases hrotate : db.rotate runtime u draft with
    | error e =>
      rw [hrotate] at h
      cases h
    | ok result =>
      obtain ⟨token, db'⟩ := result
      obtain ⟨hrow, hnew, hdb⟩ := rotate_eq_ok hrotate
      exact ⟨u, hu, hid, hrow, hnew, hdb⟩

theorem effect_commitRotation (update : Id) : Effect runtime db (.commitRotation update draft)
    (db.commitRotation runtime update draft).2 := by
  cases hreply : (db.commitRotation runtime update draft).1 with
  | ok token =>
    obtain ⟨u, hu, rfl, ⟨t, ht, haffects⟩, hnew, hdb⟩ := commitRotation_eq_ok hreply
    rw [hdb]
    exact .rotates hu ht haffects hnew
  | error e =>
    unfold Database.commitRotation at hreply ⊢
    cases hupdate : db.updates.get? update with
    | none => exact .reads
    | some u =>
      obtain ⟨hu, rfl⟩ := KeyedMap.get?_eq_some_iff.mp hupdate
      simp only [hupdate] at hreply ⊢
      cases hrotate : db.rotate runtime u draft with
      | error e => exact .fails hu
      | ok result =>
        rw [hrotate] at hreply
        cases hreply

theorem effect_exec (runtime : Runtime) (q : Statement) (around : Surroundings) (db : Database) :
    Effect runtime db q (q.exec runtime around db).2 := by
  cases q with
  | beginUpdate criteria => exact .begins
  | commitRevocation update =>
    show Effect runtime db _ (db.commitRevocation update).2
    unfold Database.commitRevocation
    cases hupdate : db.updates.get? update with
    | none => exact .reads
    | some u =>
      obtain ⟨hu, rfl⟩ := KeyedMap.get?_eq_some_iff.mp hupdate
      exact .revokes hu
  | commitRotation update draft => exact effect_commitRotation update
  | insertToken draft =>
    show Effect runtime db _ (db.commit (db.insertToken runtime draft)).2
    cases hinsert : db.insertToken runtime draft with
    | error e => exact .reads
    | ok result =>
      obtain ⟨token, db'⟩ := result
      obtain ⟨hnew, hdb⟩ := insertToken_eq_ok hinsert
      show Effect runtime db _ db'
      rw [hdb]
      exact .inserts hnew
  | setPassword userId passwordHash =>
    show Effect runtime db _ (db.setPassword userId passwordHash)
    unfold Database.setPassword
    cases huser : db.users.get? userId with
    | none => exact .reads
    | some user =>
      obtain ⟨hmem, rfl⟩ := KeyedMap.get?_eq_some_iff.mp huser
      exact .setsPassword hmem
  | _ => exact .reads

end

/-! ## 6. What a statement rests on -/

/-- What a request has seen to before it runs the statement. -/
def Ready (runtime : Runtime) (r : Request) : Statement → Database → Prop
  | .commitRevocation update, db =>
    update < db.drawn ∧ ∀ u ∈ db.updates.values, u.id = update → u.criteria.Sweeps
  | .commitRotation update draft, db =>
    update < db.drawn ∧ ∃ refreshToken, r = .refresh refreshToken ∧ ∃ t ∈ db.tokens.values,
      t.tokenHash = runtime.hashToken refreshToken ∧ t.userId = draft.userId ∧
        some t.familyId = draft.familyId ∧
        ∀ u ∈ db.updates.values, u.id = update → ∀ s : RefreshToken, u.criteria.matches s = true →
          s.id = t.id ∧ s.isRevoked = false
  | .insertToken draft, _ => draft.familyId = none
  | .setPassword .., _ => ∃ token newPassword, r = .resetPassword token newPassword
  | _, _ => True

/-- No refresh commits inside a revocation that covers its family. -/
def Apart (_ : Request) : Statement → Database → Prop
  | .commitRotation update _, db =>
    ∀ u ∈ db.updates.values, u.id = update → ∀ t ∈ db.tokens.values, u.affects t = true →
      ∀ v ∈ db.updates.values, v.criteria.Sweeps → ¬ db.Covers v t.familyId
  | _, _ => True

instance decidableApart : ∀ r q db, Decidable (Apart r q db)
  | _, .commitRotation update _, db => inferInstanceAs (Decidable
      (∀ u ∈ db.updates.values, u.id = update → ∀ t ∈ db.tokens.values, u.affects t = true →
        ∀ v ∈ db.updates.values, v.criteria.Sweeps → ¬ db.Covers v t.familyId))
  | _, .clock, _ | _, .findToken _, _ | _, .findUnrevoked _, _ | _, .findOwned .., _
  | _, .findUser _, _ | _, .findUserByEmail _, _ | _, .findUserByResetToken _, _
  | _, .isLocked _, _ | _, .passkeyState _, _ | _, .verifyTotp .., _ | _, .beginUpdate _, _
  | _, .commitRevocation _, _ | _, .insertToken _, _ | _, .setPassword .., _ => isTrue trivial

/-- The reset token that the request comes with. -/
def Request.resetToken : Request → Option String
  | .resetPassword token _ => some token
  | _ => none

/-- The user whose password the statement sets. -/
def Statement.passwordOf : Statement → Option Id
  | .setPassword userId _ => some userId
  | _ => none

/-- A password reset saves its password while the user still has the token it came with. -/
def Unspent (runtime : Runtime) (r : Request) (q : Statement) (db : Database) : Prop :=
  ∀ token ∈ r.resetToken, ∀ userId ∈ q.passwordOf, ∃ user ∈ db.users.values,
    user.id = userId ∧ user.passwordResetToken = some (runtime.hashToken token)

instance (runtime : Runtime) (r : Request) (q : Statement) (db : Database) :
    Decidable (Unspent runtime r q db) :=
  inferInstanceAs (Decidable (∀ token ∈ r.resetToken, ∀ userId ∈ q.passwordOf,
    ∃ user ∈ db.users.values, user.id = userId ∧
      user.passwordResetToken = some (runtime.hashToken token)))

section

variable {runtime : Runtime} {r : Request} {q : Statement} {db db' : Database} {f : Id}

theorem Ready.later (h : Ready runtime r q db) (hlater : Later db db') :
    Ready runtime r q db' := by
  -- an UPDATE that is still there was there before
  have hkept : ∀ update, update < db.drawn → ∀ u ∈ db'.updates.values, u.id = update →
      u ∈ db.updates.values := by
    intro update hlt u hu hid
    obtain hold | hnew := hlater.updates u hu
    · exact hold
    · exact absurd hlt (Nat.not_lt.mpr (hid ▸ hnew))
  cases q with
  | commitRevocation update =>
    obtain ⟨hlt, hsweeps⟩ := h
    exact ⟨Nat.lt_of_lt_of_le hlt hlater.drawn,
      fun u hu hid => hsweeps u (hkept update hlt u hu hid) hid⟩
  | commitRotation update draft =>
    obtain ⟨hlt, refreshToken, hr, t, ht, hhash, huser, hfamily, hcriteria⟩ := h
    obtain ⟨t', ht', hon⟩ := hlater.tokens t ht
    refine ⟨Nat.lt_of_lt_of_le hlt hlater.drawn, refreshToken, hr, t', ht', ?_, ?_, ?_, ?_⟩
    · rw [hon.tokenHash, hhash]
    · rw [hon.userId, huser]
    · rw [hon.familyId, hfamily]
    · intro u hu hid s hs
      rw [hon.id]
      exact hcriteria u (hkept update hlt u hu hid) hid s hs
  | insertToken draft => exact h
  | setPassword => exact h
  | _ => trivial

/-- The row that a refresh affects is the one it was asked about. -/
theorem Ready.rotated {u : Update} {draft : Draft} {t : RefreshToken}
    (h : Ready runtime r (.commitRotation u.id draft) db) (hu : u ∈ db.updates.values)
    (ht : t ∈ db.tokens.values) (haffects : u.affects t = true) :
    (∃ refreshToken, r = .refresh refreshToken ∧ t.tokenHash = runtime.hashToken refreshToken) ∧
      t.userId = draft.userId ∧ some t.familyId = draft.familyId ∧ t.isRevoked = false := by
  obtain ⟨-, refreshToken, hr, s, hs, hhash, huser, hfamily, hcriteria⟩ := h
  have hmatches : u.criteria.matches t = true := by
    unfold Update.affects at haffects
    rw [Bool.and_eq_true] at haffects
    exact haffects.2
  obtain ⟨hid, hopen⟩ := hcriteria u hu rfl t hmatches
  obtain rfl : t = s := KeyedMap.eq_of_key_eq ht hs hid
  exact ⟨⟨refreshToken, hr, hhash⟩, huser, hfamily, hopen⟩

theorem Effect.orderly (h : Effect runtime db q db') (hinv : Orderly db)
    (hready : Ready runtime r q db) : Orderly db' := by
  cases h with
  | reads => exact hinv
  | begins => exact hinv.beginUpdate
  | revokes => exact hinv.endUpdate
  | fails => exact hinv.dropUpdate
  | @rotates u draft t hu ht haffects hnew =>
    obtain ⟨-, huser, hfamily, hopen⟩ := hready.rotated hu ht haffects
    refine hinv.endUpdate.withRow hnew ?_ ?_
    · intro f hf
      rw [← hfamily] at hf
      cases hf
      exact hinv.families t ht
    · intro s' hs' hsame
      obtain ⟨s, hs, rfl⟩ := mem_endUpdate.mp hs'
      rw [setRevoked_onward.familyId, familyId_row_of_some hfamily] at hsame
      refine ⟨?_, ?_⟩
      · rw [setRevoked_onward.userId, ← huser]
        exact hinv.users s hs t ht hsame
      · -- the one open row of the family is the one that is revoked here
        by_contra hstill
        have hs'open : (setRevoked u s).isRevoked = false := Bool.eq_false_iff.mpr hstill
        have hsopen : s.isRevoked = false := by
          rw [← setRevoked_of_open hs'open]
          exact hs'open
        obtain rfl : s = t := hinv.oneOpen s hs t ht hsame hsopen hopen
        exact hstill (isRevoked_setRevoked haffects)
  | inserts hnew =>
    refine hinv.withRow hnew ?_ ?_
    · intro f hf
      rw [show _ = none from hready] at hf
      cases hf
    · intro t ht hsame
      rw [familyId_row_of_none hready] at hsame
      exact absurd hsame (Nat.ne_of_lt (hinv.families t ht))
  | setsPassword => exact hinv.withPassword

theorem Effect.later (h : Effect runtime db q db') (hinv : Orderly db) : Later db db' := by
  cases h with
  | reads => exact .refl db
  | begins => exact later_beginUpdate hinv
  | revokes => exact later_endUpdate
  | fails => exact later_dropUpdate
  | rotates => exact later_endUpdate.trans (later_withRow hinv.endUpdate)
  | inserts => exact later_withRow hinv
  | setsPassword => exact later_withPassword

/-- A refresh that commits apart from every revocation of its family leaves none behind. -/
theorem Effect.swept (h : Effect runtime db q db') (hinv : Orderly db)
    (hready : Ready runtime r q db) (hapart : Apart r q db) (hswept : Swept db) : Swept db' := by
  cases h with
  | reads => exact hswept
  | begins => exact hswept.beginUpdate hinv
  | revokes => exact hswept.endUpdate
  | fails => exact hswept.dropUpdate
  | @rotates u draft t hu ht haffects hnew =>
    obtain ⟨-, -, hfamily, -⟩ := hready.rotated hu ht haffects
    refine hswept.endUpdate.withRow hinv.endUpdate fun v hv hsweeps hcovers => ?_
    rw [familyId_row_of_some hfamily] at hcovers
    exact hapart u hu rfl t ht haffects v (KeyedMap.mem_delete.mp hv).1 hsweeps
      (covers_of_endUpdate hcovers)
  | inserts =>
    refine hswept.withRow hinv fun v _ _ hcovers => ?_
    obtain ⟨t, ht, -, hfamily⟩ := hcovers
    rw [familyId_row_of_none hready] at hfamily
    exact absurd hfamily (Nat.ne_of_lt (hinv.families t ht))
  | setsPassword => exact hswept

/-- A closed family stays closed. -/
theorem Effect.closed (h : Effect runtime db q db') (hinv : Orderly db)
    (hready : Ready runtime r q db) (hclosed : Closed f db) : Closed f db' := by
  cases h with
  | reads => exact hclosed
  | begins => exact ⟨Nat.lt_succ_of_lt hclosed.drawn, hclosed.revoked⟩
  | revokes => exact hclosed.endUpdate
  | fails => exact ⟨hclosed.drawn, hclosed.revoked⟩
  | @rotates u draft t hu ht haffects hnew =>
    obtain ⟨-, -, hfamily, hopen⟩ := hready.rotated hu ht haffects
    refine hclosed.endUpdate.withRow hinv.endUpdate fun hsame => ?_
    rw [familyId_row_of_some hfamily] at hsame
    exact absurd (hclosed.revoked t ht hsame) (by rw [hopen]; decide)
  | inserts =>
    refine hclosed.withRow hinv fun hsame => ?_
    rw [familyId_row_of_none hready] at hsame
    exact absurd hclosed.drawn (hsame ▸ Nat.lt_irrefl _)
  | setsPassword => exact ⟨hclosed.drawn, hclosed.revoked⟩

end

end Clemvion.Auth
