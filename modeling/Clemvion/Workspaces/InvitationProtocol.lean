import Clemvion.Workspaces.Requests

/-!
# InvitationProtocol — what becomes of an invitation

Every row of the invitation table after a statement is one from before, one with a new token, a
consumed one or a new one.  What was consumed stays so, a token that was replaced is gone for
good, and an acceptance gives the role of the row it consumes, as long as a resend saves and an
acceptance consumes a row that is still as it was read.
-/

namespace Clemvion.Workspaces

open Clemvion.Library Program Service

/-! ## 1. Where the rows come from -/

/-- All ids and tokens in use were drawn, and no two rows have the same token. -/
structure Filed (db : Database) : Prop where
  ids : ∀ i ∈ db.invitations.values, i.id < db.drawn
  tokens : ∀ i ∈ db.invitations.values, i.token < db.drawn
  distinct : ∀ i ∈ db.invitations.values, ∀ j ∈ db.invitations.values, i.token = j.token → i = j

/-- Where a row comes from that is in `db'` once the statement `q` of request `r` has run. -/
inductive RowFrom (r : Request) (q : Statement) (db db' : Database) (i' : WorkspaceInvitation) :
    Prop
  | kept (hi : i' ∈ db.invitations.values)
  | renewed (i : WorkspaceInvitation) (hi : i ∈ db.invitations.values) (hid : i'.id = i.id)
      (hbefore : i.acceptedAt = none) (hafter : i'.acceptedAt = none) (htoken : i'.token = db.drawn)
      (hdrawn : db.drawn < db'.drawn)
      (hrole : i'.role ≠ i.role → i.role = .admin ∨ i'.role = .admin →
        ∃ workspaceId email role requesterId,
          q = .writeInvitation workspaceId email role requesterId .owner)
  | consumed (i : WorkspaceInvitation) (now workspaceId userId : Id)
      (hq : q = .applyAccept i.id workspaceId i.role userId) (hr : r.presented = some i.token)
      (hi : i ∈ db.invitations.values) (hbefore : i.acceptedAt = none)
      (hafter : i' = { i with acceptedAt := some now, acceptedBy := some userId })
  | created (hid : i'.id = db.drawn + 1) (htoken : i'.token = db.drawn)
      (hdrawn : db.drawn + 1 < db'.drawn)

/-- What a statement does to the invitations. -/
structure Posted (r : Request) (q : Statement) (db db' : Database) : Prop where
  drawn : db.drawn ≤ db'.drawn
  rows : ∀ i' ∈ db'.invitations.values, RowFrom r q db db' i'
  single : ∀ i' ∈ db'.invitations.values, ∀ j' ∈ db'.invitations.values,
    i'.token = db.drawn → j'.token = db.drawn → i' = j'

/-- What lasts: a drawn id that is not pending never is again, and a drawn token stays with its
row or is gone. -/
structure Onward (db db' : Database) : Prop where
  drawn : db.drawn ≤ db'.drawn
  pending : ∀ i' ∈ db'.invitations.values, i'.id < db.drawn → i'.acceptedAt = none →
    ∃ i ∈ db.invitations.values, i.id = i'.id ∧ i.acceptedAt = none
  tokens : ∀ i' ∈ db'.invitations.values, i'.token < db.drawn →
    ∃ i ∈ db.invitations.values, i.id = i'.id ∧ i.token = i'.token

section

variable {r : Request} {q : Statement} {db db' db'' : Database} {i i' : WorkspaceInvitation}

/-- A row after the statement with a token of before is a row of before, consumed or not. -/
theorem RowFrom.of_token (h : RowFrom r q db db' i') (htoken : i'.token < db.drawn) :
    ∃ i ∈ db.invitations.values, i.id = i'.id ∧ i.token = i'.token ∧
      (i'.acceptedAt = none → i.acceptedAt = none) := by
  cases h with
  | kept hi => exact ⟨i', hi, rfl, rfl, fun h => h⟩
  | renewed i hi hid hbefore hafter hnew =>
    rw [hnew] at htoken
    exact absurd htoken (Nat.lt_irrefl _)
  | consumed i now workspaceId userId hq hr hi hbefore hafter =>
    subst hafter
    exact ⟨i, hi, rfl, rfl, fun _ => hbefore⟩
  | created hid hnew =>
    rw [hnew] at htoken
    exact absurd htoken (Nat.lt_irrefl _)

theorem Posted.onward (h : Posted r q db db') : Onward db db' where
  drawn := h.drawn
  pending i' hi' hid hpending := by
    cases h.rows i' hi' with
    | kept hi => exact ⟨i', hi, rfl, hpending⟩
    | renewed i hi hsame hbefore => exact ⟨i, hi, hsame.symm, hbefore⟩
    | consumed i now workspaceId userId hq hr hi hbefore hafter => exact ⟨i, hi, by rw [hafter], hbefore⟩
    | created hnew =>
      rw [hnew] at hid
      exact absurd hid (by simp)
  tokens i' hi' htoken := by
    obtain ⟨i, hi, hid, hsame, -⟩ := (h.rows i' hi').of_token htoken
    exact ⟨i, hi, hid, hsame⟩

theorem Posted.filed (h : Posted r q db db') (hfiled : Filed db) : Filed db' := by
  have hbounds : ∀ i' ∈ db'.invitations.values, i'.id < db'.drawn ∧ i'.token < db'.drawn := by
    intro i' hi'
    cases h.rows i' hi' with
    | kept hi =>
      exact ⟨Nat.lt_of_lt_of_le (hfiled.ids i' hi) h.drawn,
        Nat.lt_of_lt_of_le (hfiled.tokens i' hi) h.drawn⟩
    | renewed i hi hid hbefore hafter htoken hdrawn =>
      rw [hid, htoken]
      exact ⟨Nat.lt_of_lt_of_le (hfiled.ids i hi) h.drawn, hdrawn⟩
    | consumed i now workspaceId userId hq hr hi hbefore hafter =>
      rw [hafter]
      exact ⟨Nat.lt_of_lt_of_le (hfiled.ids i hi) h.drawn,
        Nat.lt_of_lt_of_le (hfiled.tokens i hi) h.drawn⟩
    | created hid htoken hdrawn =>
      rw [hid, htoken]
      exact ⟨hdrawn, Nat.lt_of_succ_lt hdrawn⟩
  refine ⟨fun i' hi' => (hbounds i' hi').1, fun i' hi' => (hbounds i' hi').2, ?_⟩
  intro i' hi' j' hj' htoken
  -- two old tokens belong to one old row, and a new token to one new row
  by_cases hold : i'.token < db.drawn
  · obtain ⟨i, hi, hid, hisame, -⟩ := (h.rows i' hi').of_token hold
    obtain ⟨j, hj, hjd, hjsame, -⟩ := (h.rows j' hj').of_token (htoken ▸ hold)
    have heq := hfiled.distinct i hi j hj (hisame.trans (htoken.trans hjsame.symm))
    subst heq
    exact KeyedMap.eq_of_key_eq hi' hj' (hid.symm.trans hjd)
  · have hnew : ∀ k' ∈ db'.invitations.values, ¬ k'.token < db.drawn → k'.token = db.drawn := by
      intro k' hk' hnot
      cases h.rows k' hk' with
      | kept hk => exact absurd (hfiled.tokens k' hk) hnot
      | renewed k hk hid hbefore hafter hktoken => exact hktoken
      | consumed k now workspaceId userId hq hr hk hbefore hafter =>
        rw [hafter] at hnot
        exact absurd (hfiled.tokens k hk) hnot
      | created hid hktoken => exact hktoken
    exact h.single i' hi' j' hj' (hnew i' hi' hold) (hnew j' hj' (htoken ▸ hold))

theorem Onward.refl (db : Database) : Onward db db where
  drawn := Nat.le_refl _
  pending i' hi' _ hpending := ⟨i', hi', rfl, hpending⟩
  tokens i' hi' _ := ⟨i', hi', rfl, rfl⟩

theorem Onward.trans (h : Onward db db') (h' : Onward db' db'') : Onward db db'' where
  drawn := Nat.le_trans h.drawn h'.drawn
  pending i' hi' hid hpending := by
    obtain ⟨i, hi, hsame, hbefore⟩ := h'.pending i' hi' (Nat.lt_of_lt_of_le hid h.drawn) hpending
    rw [← hsame] at hid ⊢
    exact h.pending i hi hid hbefore
  tokens i' hi' htoken := by
    obtain ⟨i, hi, hid, hsame⟩ := h'.tokens i' hi' (Nat.lt_of_lt_of_le htoken h.drawn)
    rw [← hsame] at htoken
    rw [← hid, ← hsame]
    exact h.tokens i hi htoken

end

/-! ## 2. Every statement -/

/-- The loaded invitation that the statement saves, if it saves one. -/
def Statement.savedInvitation? : Statement → Option WorkspaceInvitation
  | .saveResent invitation _ => some invitation
  | _ => none

/-- The id and the role that the statement consumes an invitation under, if it does. -/
def Statement.consumed? : Statement → Option (Id × InvitationRole)
  | .applyAccept invitationId _ role _ => some (invitationId, role)
  | _ => none

/-- The row is pending and offers the role. -/
def Offers (role : InvitationRole) (i : WorkspaceInvitation) : Bool :=
  i.acceptedAt = none ∧ i.role = role

/-- A resend saves a row that is still pending and offers what it offered when it was read; a row
that an acceptance finds pending has the token presented and the role read. -/
def InvitationUnmoved (r : Request) (q : Statement) (db : Database) : Prop :=
  (∀ i ∈ q.savedInvitation?, ∃ row ∈ db.invitations.get? i.id, Offers i.role row = true) ∧
    ∀ read ∈ q.consumed?, ∀ row ∈ db.invitations.get? read.1, row.acceptedAt = none →
      r.presented = some row.token ∧ row.role = read.2

instance (r : Request) (q : Statement) (db : Database) : Decidable (InvitationUnmoved r q db) :=
  inferInstanceAs (Decidable
    ((∀ i ∈ q.savedInvitation?, ∃ row ∈ db.invitations.get? i.id, Offers i.role row = true) ∧
      ∀ read ∈ q.consumed?, ∀ row ∈ db.invitations.get? read.1, row.acceptedAt = none →
        r.presented = some row.token ∧ row.role = read.2))

section

variable {r : Request} {q : Statement} {db db' : Database} {i i' : WorkspaceInvitation}

/-- A statement that leaves invitations or takes them out. -/
private theorem posted_of_kept (hfiled : Filed db) (hdrawn : db.drawn ≤ db'.drawn)
    (hsub : ∀ i' ∈ db'.invitations.values, i' ∈ db.invitations.values) : Posted r q db db' where
  drawn := hdrawn
  rows i' hi' := .kept (hsub i' hi')
  single i' hi' _ _ hi := absurd hi (Nat.ne_of_lt (hfiled.tokens i' (hsub i' hi')))

/-- A statement that writes one row, which comes from where it should. -/
private theorem posted_of_set (hfiled : Filed db) {members : KeyedMap WorkspaceMember.id} {n : Nat}
    (hn : db.drawn ≤ n)
    (hrow : RowFrom r q db
      { db with members := members, invitations := db.invitations.set i', drawn := n } i') :
    Posted r q db
      { db with members := members, invitations := db.invitations.set i', drawn := n } where
  drawn := hn
  rows j hj := by
    obtain rfl | ⟨hold, -⟩ := KeyedMap.mem_set.mp hj
    · exact hrow
    · exact .kept hold
  single j hj k hk hjt hkt := by
    have hnew : ∀ j ∈ (db.invitations.set i').values, j.token = db.drawn → j = i' := by
      intro j hj ht
      obtain rfl | ⟨hold, -⟩ := KeyedMap.mem_set.mp hj
      · rfl
      · exact absurd ht (Nat.ne_of_lt (hfiled.tokens j hold))
    rw [hnew j hj hjt, hnew k hk hkt]

private theorem posted_writeInvitation (hfiled : Filed db) {now workspaceId requesterId : Id}
    {email : String} {role : InvitationRole} {requesterRole : WorkspaceRole}
    (hmay : mayChangeAdminRole requesterRole [role.asMember] = true)
    (h : db.writeInvitation now workspaceId email role requesterId requesterRole = .ok db') :
    Posted r (.writeInvitation workspaceId email role requesterId requesterRole) db db' := by
  obtain ⟨pending, hmem, -, hnew, hmayBefore, rfl⟩ | rfl := Database.writeInvitation_eq_ok h
  · refine posted_of_set hfiled (Nat.le_succ _) (.renewed pending hmem rfl hnew hnew rfl
      (Nat.lt_succ_self _) fun _ hadmin => ?_)
    -- neither role could be admin unless the requester is the owner
    have howner : requesterRole = .owner := by
      obtain hbefore | hafter := hadmin
      · rw [hbefore] at hmayBefore
        cases requesterRole <;> first | rfl | exact absurd hmayBefore (by decide)
      · have hrole : role = .admin := hafter
        rw [hrole] at hmay
        cases requesterRole <;> first | rfl | exact absurd hmay (by decide)
    rw [howner]
    exact ⟨_, _, _, _, rfl⟩
  · exact posted_of_set hfiled (Nat.le_add_right _ 2)
      (.created rfl rfl (Nat.lt_succ_self _))

private theorem posted_saveResent (hfiled : Filed db) {now requesterId : Id}
    (hpending : i.acceptedAt = none) (hok : InvitationUnmoved r (.saveResent i requesterId) db)
    (h : db.saveResent now i requesterId = .ok db') :
    Posted r (.saveResent i requesterId) db db' := by
  obtain ⟨row, hrow, hoffers⟩ := hok.1 i rfl
  obtain ⟨hmem, hid⟩ := KeyedMap.get?_eq_some_iff.mp hrow
  obtain ⟨hbefore, hrole⟩ := of_decide_eq_true hoffers
  rw [Database.saveResent_eq_ok h]
  exact posted_of_set hfiled (Nat.le_succ _) (.renewed row hmem hid.symm hbefore hpending rfl
    (Nat.lt_succ_self _) fun hchanged => absurd hrole.symm hchanged)

private theorem posted_applyAccept (hfiled : Filed db)
    {now invitationId workspaceId userId : Id} {role : InvitationRole}
    (hok : InvitationUnmoved r (.applyAccept invitationId workspaceId role userId) db)
    (h : db.applyAccept now invitationId workspaceId role userId = .ok db') :
    Posted r (.applyAccept invitationId workspaceId role userId) db db' := by
  obtain ⟨consumed, hconsumed, hjoin⟩ := Database.applyAccept_eq_ok h
  obtain ⟨row, hrow, rfl, hbefore, rfl⟩ := Database.consume_eq_ok hconsumed
  obtain ⟨hpresented, hrole⟩ :=
    hok.2 _ rfl row (KeyedMap.get?_eq_some_iff.mpr ⟨hrow, rfl⟩) hbefore
  have hq : Statement.applyAccept row.id workspaceId role userId =
      .applyAccept row.id workspaceId row.role userId := by rw [hrole]
  obtain rfl | ⟨-, rfl⟩ := Database.joinAs_eq_ok hjoin
  · exact posted_of_set hfiled (Nat.le_refl _)
      (.consumed row now workspaceId userId hq hpresented hrow hbefore rfl)
  · exact posted_of_set hfiled (Nat.le_succ _)
      (.consumed row now workspaceId userId hq hpresented hrow hbefore rfl)

theorem posted_exec (hfiled : Filed db) (hsends : r.Sends q) (hok : InvitationUnmoved r q db)
    (around : Surroundings) : Posted r q db (q.exec around db).2 := by
  have hrefl : Posted r q db db := posted_of_kept hfiled (Nat.le_refl _) fun _ h => h
  have hcommit : ∀ outcome : Except Failure Database,
      (∀ db', outcome = .ok db' → Posted r q db db') →
      Posted r q db (Statement.commit db outcome).2 := by
    rintro (e | db') h
    · exact hrefl
    · exact h db' rfl
  cases q with
  | findMember | findMemberById | findWorkspace | findInvitation | findInvitationByToken
  | lookupByEmail | findUser => exact hrefl
  | insertTeam => exact posted_of_kept hfiled (Nat.le_succ _) fun _ h => h
  | saveWorkspace => exact posted_of_kept hfiled (Nat.le_refl _) fun _ h => h
  | deleteWorkspace =>
    refine hcommit _ fun db' h => ?_
    obtain ⟨_, _, _, _, _, rfl⟩ := Database.deleteWorkspace_eq_ok h
    exact posted_of_kept hfiled (Nat.le_refl _) fun i hi => (KeyedMap.mem_filter.mp hi).1
  | insertMember workspaceId userId role =>
    refine hcommit _ fun db' h => ?_
    cases hrow : db.insertMember around.now workspaceId userId role with
    | error e =>
      rw [hrow] at h
      cases h
    | ok row =>
      rw [hrow, (Database.insertMember_eq_ok hrow).2] at h
      cases h
      exact posted_of_kept hfiled (Nat.le_succ _) fun _ h => h
  | updateMemberRole =>
    refine hcommit _ fun db' h => ?_
    obtain ⟨_, _, _, _, rfl⟩ := Database.updateMemberRole_eq_ok h
    exact posted_of_kept hfiled (Nat.le_refl _) fun _ h => h
  | deleteNonOwner memberId workspaceId =>
    show Posted _ _ db (db.deleteNonOwner memberId workspaceId).2
    obtain heq | ⟨_, _, _, heq⟩ := @Database.deleteNonOwner_cases db workspaceId memberId
    · rw [heq]
      exact hrefl
    · rw [heq]
      exact posted_of_kept hfiled (Nat.le_refl _) fun _ h => h
  | leaveWorkspace =>
    refine hcommit _ fun db' h => ?_
    obtain ⟨_, _, _, _, rfl⟩ := Database.leaveWorkspace_eq_ok h
    exact posted_of_kept hfiled (Nat.le_refl _) fun _ h => h
  | transferOwnership =>
    refine hcommit _ fun db' h => ?_
    obtain ⟨_, _, _, _, _, _, _, rfl⟩ := Database.transferOwnership_eq_ok h
    exact posted_of_kept hfiled (Nat.le_refl _) fun _ h => h
  | writeInvitation => exact hcommit _ fun db' h => posted_writeInvitation hfiled hsends.2 h
  | saveResent => exact hcommit _ fun db' h => posted_saveResent hfiled hsends.2 hok h
  | applyAccept => exact hcommit _ fun db' h => posted_applyAccept hfiled hok h
  | removeInvitation =>
    exact posted_of_kept hfiled (Nat.le_refl _) fun i hi => (KeyedMap.mem_delete.mp hi).1
  | pruneExpired =>
    exact posted_of_kept hfiled (Nat.le_refl _) fun i hi => (KeyedMap.mem_filter.mp hi).1

/-! ## 3. The outline -/

/-- The operations on invitations rest on nothing and owe nothing. -/
def invitationOutline : Outline Statement Request Database Empty where
  Inv := Filed
  later _ _ := True
  pre r q _ := r.Sends q
  claim _ := none
  owed _ _ := False

theorem invitationOutline_sound {runtime : Runtime} :
    invitationOutline.Sound (server runtime) InvitationUnmoved where
  refl _ := trivial
  trans _ _ _ _ _ := trivial
  keeps _ _ around _ hinv hpre hok := (posted_exec hinv hpre hok around).filed hinv
  proceeds _ _ _ _ _ _ _ := trivial
  undisturbed _ _ _ _ _ _ _ _ _ hpre' _ := hpre'

theorem invitationOutline_program (runtime : Runtime) (r : Request) (db : Database) :
    invitationOutline.Proves (server runtime) InvitationUnmoved r (r.program runtime)
      invitationOutline.Ends none db db := by
  have htriple : invitationOutline.Triple (server runtime) InvitationUnmoved r (fun _ => True)
      (r.program runtime) fun _ _ => True :=
    Outline.triple_of_only (fun _ _ => rfl) (fun _ _ hsends => hsends)
      (fun _ _ _ _ _ _ _ => ⟨nofun, nofun⟩) (fun _ _ _ h => h) invitationOutline_sound
      (only_program runtime r)
  exact htriple.proves trivial

end

/-! ## 4. The protocol -/

/-- The invitation is there and pending. -/
def Pending (db : Database) (id : Id) : Prop :=
  ∃ i ∈ db.invitations.get? id, i.acceptedAt = none

/-- The invitation is there and consumed. -/
def Consumed (db : Database) (id : Id) : Prop :=
  ∃ i ∈ db.invitations.get? id, i.acceptedAt ≠ none

instance (db : Database) (id : Id) : Decidable (Pending db id) :=
  inferInstanceAs (Decidable (∃ i ∈ db.invitations.get? id, _ = none))

instance (db : Database) (id : Id) : Decidable (Consumed db id) :=
  inferInstanceAs (Decidable (∃ i ∈ db.invitations.get? id, _ ≠ none))

/-- The step is an acceptance of invitation `id` that makes the member `m`. -/
def Joins (server : Server Statement Statement.Reply Failure Database Surroundings Request)
    (w : World) (e : Event Surroundings Request) (id : Id) (m : WorkspaceMember) : Prop :=
  ∃ n around call workspaceId role userId, e = .advance n around ∧ w.call? n = some call ∧
    call.statement = .applyAccept id workspaceId role userId ∧
    m ∉ w.store.members.values ∧ m ∈ (server.step w e).store.members.values

/-- What the protocol says of the step `e` that follows `events`, from the world `w` on. -/
structure Kept (server : Server Statement Statement.Reply Failure Database Surroundings Request)
    (w : World) (events : List (Event Surroundings Request)) (e : Event Surroundings Request) :
    Prop where
  /-- What was consumed never becomes pending again. -/
  consumed : ∀ id, Consumed w.store id → ¬ Pending (server.run w events).store id
  /-- An invitation makes one member at most: it is consumed by that. -/
  once : ∀ id m, Joins server (server.run w events) e id m →
    ¬ Consumed w.store id ∧ Consumed (server.step (server.run w events) e).store id
  /-- A request that presents a token which was replaced changes nothing. -/
  replaced : ∀ i ∈ w.store.invitations.values, ∀ i' ∈ (server.run w events).store.invitations.values,
    i'.id = i.id → i'.token ≠ i.token → ∀ n around call, e = .advance n around →
      (server.run w events).call? n = some call → call.request.presented = some i.token →
      (server.step (server.run w events) e).store = (server.run w events).store
  /-- The member gets the role that the invitation has when it is consumed. -/
  role : ∀ id m, Joins server (server.run w events) e id m →
    ∃ i ∈ (server.run w events).store.invitations.get? id, i.acceptedAt = none ∧
      m.role = i.role.asMember
  /-- Only an invitation by an owner makes a pending invitation one of an administrator, or one
  of an administrator something else. -/
  admin : ∀ i ∈ (server.run w events).store.invitations.values,
    ∀ i' ∈ (server.step (server.run w events) e).store.invitations.values, i'.id = i.id →
      i.acceptedAt = none → i'.acceptedAt = none → i'.role ≠ i.role →
      (i.role = .admin ∨ i'.role = .admin) →
      ∃ n around call workspaceId email role requesterId, e = .advance n around ∧
        (server.run w events).call? n = some call ∧
        (∃ email, call.request = .invite workspaceId email role requesterId) ∧
        call.statement = .writeInvitation workspaceId email role requesterId .owner

section

variable {runtime : Runtime} {r : Request} {q : Statement} {w : World} {db db' : Database}
  {i : WorkspaceInvitation} {id : Id} {e : Event Surroundings Request} {m : WorkspaceMember}

theorem pending_iff : Pending db id ↔ ∃ i ∈ db.invitations.values, i.id = id ∧ i.acceptedAt = none := by
  unfold Pending
  simp only [KeyedMap.get?_eq_some_iff, Option.mem_def, and_assoc]

theorem consumed_iff :
    Consumed db id ↔ ∃ i ∈ db.invitations.values, i.id = id ∧ i.acceptedAt ≠ none := by
  unfold Consumed
  simp only [KeyedMap.get?_eq_some_iff, Option.mem_def, and_assoc]

theorem Consumed.not_pending (h : Consumed db id) : ¬ Pending db id := by
  obtain ⟨i, hi, hused⟩ := h
  rintro ⟨j, hj, hnew⟩
  cases Option.some.inj (hi.symm.trans hj)
  exact hused hnew

/-- A drawn id that is not pending never is again. -/
theorem Onward.not_pending (h : Onward db db') (hdrawn : id < db.drawn) (hnot : ¬ Pending db id) :
    ¬ Pending db' id := by
  intro hpending
  obtain ⟨i', hi', rfl, hnew⟩ := pending_iff.mp hpending
  obtain ⟨i, hi, hid, hbefore⟩ := h.pending i' hi' hdrawn hnew
  exact hnot (pending_iff.mpr ⟨i, hi, hid, hbefore⟩)

/-- A request that presents a token no row holds has nothing to consume. -/
theorem exec_of_no_token (hsends : r.Sends q) {token : Id} (hpresented : r.presented = some token)
    (hok : InvitationUnmoved r q db) (hnone : ∀ i ∈ db.invitations.values, i.token ≠ token)
    (around : Surroundings) : (q.exec around db).2 = db := by
  have hcontra : r.presented ≠ none := by
    rw [hpresented]
    exact nofun
  cases q with
  | findMember | findMemberById | findWorkspace | findInvitation | findInvitationByToken
  | lookupByEmail | findUser => rfl
  | updateMemberRole | deleteNonOwner | leaveWorkspace | removeInvitation | pruneExpired =>
    exact absurd hsends hcontra
  | deleteWorkspace | transferOwnership => exact absurd hsends.2 hcontra
  | insertTeam =>
    obtain ⟨_, _, rfl⟩ := hsends
    cases hpresented
  | saveWorkspace =>
    obtain ⟨_, _, _, rfl⟩ | ⟨_, _, _, rfl⟩ := hsends <;> cases hpresented
  | insertMember =>
    obtain ⟨-, _, _, rfl⟩ | ⟨-, _, _, _, rfl⟩ := hsends <;> cases hpresented
  | writeInvitation =>
    obtain ⟨⟨_, rfl⟩, -⟩ := hsends
    cases hpresented
  | saveResent =>
    obtain ⟨⟨_, _, _, rfl⟩, -⟩ := hsends
    cases hpresented
  | applyAccept invitationId workspaceId role userId =>
    show (Statement.commit db
      (db.applyAccept around.now invitationId workspaceId role userId)).2 = db
    cases h : db.applyAccept around.now invitationId workspaceId role userId with
    | error e => rfl
    | ok db' =>
      -- a pending row would have the token presented
      obtain ⟨consumed, hconsumed, -⟩ := Database.applyAccept_eq_ok h
      obtain ⟨row, hrow, rfl, hbefore, -⟩ := Database.consume_eq_ok hconsumed
      have hsame := (hok.2 _ rfl row (KeyedMap.get?_eq_some_iff.mpr ⟨hrow, rfl⟩) hbefore).1
      rw [hpresented] at hsame
      exact absurd (Option.some.inj hsame).symm (hnone row hrow)

theorem step_store_of_call {n : Nat} {around : Surroundings}
    {call : Call Statement.Reply Failure Request} (hcall : w.call? n = some call) :
    ((server runtime).step w (.advance n around)).store =
      (call.statement.exec around w.store).2 := by
  rw [Server.step_advance hcall]
  rfl

/-- What an acceptance that makes a member consumes. -/
theorem joins_row (hok : Sends InvitationUnmoved w e) (h : Joins (server runtime) w e id m) :
    (∃ i ∈ w.store.invitations.get? id, i.acceptedAt = none ∧ m.role = i.role.asMember) ∧
      Consumed ((server runtime).step w e).store id := by
  obtain ⟨n, around, call, workspaceId, role, userId, rfl, hcall, hq, hnew, hmade⟩ := h
  have hmoved := hok call hcall
  rw [step_store_of_call hcall] at hmade ⊢
  rw [hq] at hmade hmoved ⊢
  change m ∈ (Statement.commit w.store
    (w.store.applyAccept around.now id workspaceId role userId)).2.members.values at hmade
  show _ ∧ Consumed (Statement.commit w.store
    (w.store.applyAccept around.now id workspaceId role userId)).2 id
  cases happly : w.store.applyAccept around.now id workspaceId role userId with
  | error e =>
    rw [happly] at hmade
    exact absurd hmade hnew
  | ok db' =>
    rw [happly] at hmade
    obtain ⟨consumed, hconsumed, hjoin⟩ := Database.applyAccept_eq_ok happly
    obtain ⟨row, hrow, rfl, hbefore, rfl⟩ := Database.consume_eq_ok hconsumed
    have hget := KeyedMap.get?_eq_some_iff.mpr ⟨hrow, rfl⟩
    have hrole := (hmoved.2 _ rfl row hget hbefore).2
    have hused : ∀ db'' : Database, db''.invitations = w.store.invitations.set
        { row with acceptedAt := some around.now, acceptedBy := some userId } →
        Consumed db'' row.id := by
      intro db'' heq
      refine ⟨{ row with acceptedAt := some around.now, acceptedBy := some userId }, ?_, nofun⟩
      rw [heq]
      exact KeyedMap.get?_set_self
    obtain rfl | ⟨-, rfl⟩ := Database.joinAs_eq_ok hjoin
    · exact absurd hmade hnew
    · refine ⟨⟨row, hget, hbefore, ?_⟩, hused _ rfl⟩
      obtain rfl | ⟨hold, -⟩ := KeyedMap.mem_set.mp hmade
      · rw [hrole]
      · exact absurd hold hnew

/-- Where a run starts: no request is half way, and ids and tokens were drawn. -/
structure FiledStart (w : World) : Prop where
  idle : w.Idle
  filed : Filed w.store

/-- **The invitation protocol.** While every resend saves a row that is still pending and offers
what it did when it was read, and every acceptance that finds its row pending finds the token
presented and the role read, the protocol is kept by every step of any interleaving. -/
theorem invitation_protocol_kept (hstart : FiledStart w)
    (before events : List (Event Surroundings Request)) (e : Event Surroundings Request)
    (hok : (server runtime).EachStep (Sends InvitationUnmoved) w (before ++ (events ++ [e]))) :
    Kept (server runtime) ((server runtime).run w before) events e := by
  obtain ⟨hbefore, hrest⟩ := Server.EachStep.append.mp hok
  obtain ⟨hevents, hlast, -⟩ := Server.EachStep.append.mp hrest
  have hprogram : ∀ r db, Filed db → invitationOutline.Proves (server runtime) InvitationUnmoved r
      (r.program runtime) invitationOutline.Ends none db db :=
    fun r db _ => invitationOutline_program runtime r db
  have hholds : invitationOutline.Holds (server runtime) InvitationUnmoved
      ((server runtime).run w before) :=
    (Outline.holds_of_idle hstart.idle hstart.filed fun c => c.elim).run invitationOutline_sound
      hprogram hbefore
  have hnow := hholds.run invitationOutline_sound hprogram hevents
  have honward : Onward ((server runtime).run w before).store
      ((server runtime).run ((server runtime).run w before) events).store :=
    hholds.relates Onward Onward.refl (fun _ _ _ => Onward.trans) invitationOutline_sound hprogram
      (fun _ _ around _ hinv hpre hok _ => (posted_exec hinv hpre hok around).onward) hevents hevents
  have hfiled : Filed ((server runtime).run w before).store := hholds.inv
  have hfiledNow : Filed ((server runtime).run ((server runtime).run w before) events).store :=
    hnow.inv
  have hused : ∀ id, Consumed ((server runtime).run w before).store id →
      ¬ Pending ((server runtime).run ((server runtime).run w before) events).store id := by
    intro id hconsumed
    obtain ⟨i, hi, rfl, -⟩ := consumed_iff.mp hconsumed
    exact honward.not_pending (hfiled.ids i hi) hconsumed.not_pending
  constructor
  · exact hused
  · intro id m hjoins
    obtain ⟨⟨i, hi, hnew, -⟩, hconsumed⟩ := joins_row hlast hjoins
    exact ⟨fun hbefore => hused id hbefore ⟨i, hi, hnew⟩, hconsumed⟩
  · intro i hi i' hi' hid htoken n around call he hcall hpresented
    subst he
    -- the row that held the token holds another, and no row has come to hold it since
    have hgone : ∀ j ∈ ((server runtime).run ((server runtime).run w before)
        events).store.invitations.values, j.token ≠ i.token := by
      intro j hj hsame
      obtain ⟨j₀, hj₀, hjid, hjtoken⟩ := honward.tokens j hj (hsame ▸ hfiled.tokens i hi)
      have heq := hfiled.distinct j₀ hj₀ i hi (hjtoken.trans hsame)
      rw [heq] at hjid
      have hrow := KeyedMap.eq_of_key_eq hj hi' (hjid.symm.trans hid.symm)
      rw [hrow] at hsame
      exact htoken hsame
    rw [step_store_of_call hcall]
    exact exec_of_no_token (hnow.pre n call hcall) hpresented (hlast call hcall) hgone around
  · intro id m hjoins
    exact (joins_row hlast hjoins).1
  · intro i hi i' hi' hid hbefore hafter hchanged hadmin
    have hunchanged : i' ∉ ((server runtime).run ((server runtime).run w before)
        events).store.invitations.values := by
      intro hold
      rw [KeyedMap.eq_of_key_eq hold hi hid] at hchanged
      exact hchanged rfl
    cases e with
    | submit request => exact absurd hi' hunchanged
    | advance n around =>
      cases hcall : World.call? ((server runtime).run ((server runtime).run w before) events) n with
      | none =>
        rw [Server.step_advance_of_none hcall] at hi'
        exact absurd hi' hunchanged
      | some call =>
        have hsends : call.request.Sends call.statement := hnow.pre n call hcall
        rw [step_store_of_call hcall] at hi'
        cases (posted_exec hfiledNow hsends (hlast call hcall) around).rows i' hi' with
        | kept hold => exact absurd hold hunchanged
        | renewed i₀ hi₀ hid₀ _ _ _ _ hrole =>
          have heq : i₀ = i := KeyedMap.eq_of_key_eq hi₀ hi (hid₀.symm.trans hid)
          rw [heq] at hrole
          obtain ⟨workspaceId, email, role, requesterId, hq⟩ := hrole hchanged hadmin
          rw [hq] at hsends
          exact ⟨n, around, call, workspaceId, email, role, requesterId, rfl, hcall, hsends.1, hq⟩
        | consumed i₀ now workspaceId userId hq hr hi₀ _ hmade =>
          rw [hmade] at hafter
          cases hafter
        | created hnew =>
          have hlt := hfiledNow.ids i hi
          rw [← hid, hnew] at hlt
          exact absurd hlt (by simp)

end

/-! ## 5. An invitation that comes back -/

/-- A team with an owner and a pending invitation. -/
def invitingTeam : World where
  store :=
    { workspaces := ⟨[⟨0, "Team", .team, 10, []⟩], by decide⟩
      members := ⟨[⟨1, 0, 10, .owner, none⟩], by decide⟩
      invitations := ⟨[⟨4, 0, "new@team", .editor, 5, some 10, 1000, none, none⟩], by decide⟩
      drawn := 20 }
  calls := []

theorem invitingTeam_start : FiledStart invitingTeam where
  idle := by decide
  filed := ⟨by decide, by decide, by decide⟩

/-- User 13 has the email of the invitation. -/
def newcomer : Surroundings := ⟨0, fun _ => some 13, fun _ => some "new@team"⟩

/-- An acceptance, with nobody in its way. -/
def plainAccept : List (Event Surroundings Request) :=
  [.submit (.accept 5 13), .advance 0 newcomer, .advance 0 newcomer, .advance 0 newcomer]

theorem invitation_protocol_kept_plainAccept :
    Kept (server plainRuntime) ((server plainRuntime).run invitingTeam []) plainAccept
      (.submit (.pruneExpired 0)) :=
  invitation_protocol_kept invitingTeam_start [] plainAccept (.submit (.pruneExpired 0))
    (by decide +kernel)

/-- The owner has read the invitation to send it again when it is accepted. -/
def acceptDuringResend : List (Event Surroundings Request) :=
  [.submit (.resend 0 4 10), .advance 0 newcomer, .advance 0 newcomer,
    .submit (.accept 5 13), .advance 1 newcomer, .advance 1 newcomer, .advance 1 newcomer]

/-- A resend that was overtaken by the acceptance makes the invitation pending again. -/
theorem resend_reopens_invitation :
    ¬ ∀ (runtime : Runtime) (w : World) (before events : List (Event Surroundings Request))
      (e : Event Surroundings Request), FiledStart w →
        Kept (server runtime) ((server runtime).run w before) events e := by
  intro h
  have hkept := h plainRuntime invitingTeam acceptDuringResend [.advance 0 newcomer]
    (.submit (.pruneExpired 0)) invitingTeam_start
  exact hkept.consumed 4 (by decide +kernel) (by decide +kernel)

end Clemvion.Workspaces
