import Clemvion.Workspaces.Ownership

/-!
# OwnershipRuns — team workspaces stay owned

The outline of every operation, and what follows for any interleaving of them: where no request
is half way every team workspace has its one owner, and only the owner changes who that is.  The
one way out is a rename or a change of settings that saves the workspace row it read before the
ownership was handed on, or before the workspace was deleted.
-/

namespace Clemvion.Workspaces

open Clemvion.Library Program Service

/-! ## 1. The outline -/

/-- The workspace a statement gives its owner to. -/
def claim : Statement → Option Id
  | .insertMember id _ .owner => some id
  | _ => none

theorem claim_eq_some {q : Statement} {id : Id} (h : claim q = some id) :
    ∃ user, q = .insertMember id user .owner := by
  unfold claim at h
  split at h
  · cases h
    exact ⟨_, rfl⟩
  · cases h

/-- What lasts: ids stay drawn, creations stay over, types stay the same. -/
structure Later (db db' : Database) : Prop where
  drawn : db.drawn ≤ db'.drawn
  established : ∀ id, Established db id → Established db' id
  type_eq : ∀ id type user, id < db.drawn → ownership db' id = some (type, user) →
    ∃ u, ownership db id = some (type, u)

def ownershipOutline : Outline Statement Request Database Id where
  Inv := Orderly
  later := Later
  pre r q db := r.Sends q ∧ Ready q db
  claim := claim
  owed id db := ¬ Right db id

section

variable {runtime : Runtime} {r r' : Request} {q q' : Statement} {db db' : Database}

theorem Effect.later (h : Effect r q db db') : Later db db' where
  drawn := h.drawn
  established _ hid := h.established hid
  type_eq id _ _ hid hafter := (h.change id).type_eq hid hafter

theorem Later.trans {db'' : Database} (h : Later db db') (h' : Later db' db'') : Later db db'' where
  drawn := Nat.le_trans h.drawn h'.drawn
  established id hid := h'.established id (h.established id hid)
  type_eq id type user hid hafter := by
    obtain ⟨u, hu⟩ := h'.type_eq id type user (Nat.lt_of_lt_of_le hid h.drawn) hafter
    exact h.type_eq id type u hid hu

/-- What a statement rests on is left to it by every other that does not claim the same. -/
theorem Effect.ready (h : Effect r q db db') (hnumbered : Numbered db)
    (hapart : ∀ id, claim q = some id → claim q' ≠ some id) (hready : Ready q' db) :
    Ready q' db' := by
  cases q' with
  | saveWorkspace ws =>
    refine ⟨Nat.lt_of_lt_of_le hready.1 h.drawn, fun type user hafter => ?_⟩
    obtain ⟨u, hu⟩ := (h.change ws.id).type_eq hready.1 hafter
    exact hready.2 type u hu
  | insertMember id user role =>
    change if role = .owner then _ else _ at hready
    show if role = .owner then _ else _
    split_ifs at hready ⊢ with hrole
    · subst hrole
      refine h.awaiting hnumbered (fun u hu => ?_) hready
      exact hapart id (by rw [hu]; rfl) rfl
    · exact h.established hready
  | writeInvitation => exact h.established hready
  | applyAccept => exact h.established hready
  | saveResent => exact h.established hready
  | _ => trivial

theorem ownershipOutline_sound :
    ownershipOutline.Sound (server runtime) OwnerUnmoved where
  refl _ := ⟨Nat.le_refl _, fun _ hid => hid, fun _ _ user _ hafter => ⟨user, hafter⟩⟩
  trans _ _ _ h h' := h.trans h'
  keeps _ _ around _ hinv hpre hok := (effect_exec hinv hpre.1 hpre.2 hok around).orderly hinv
  proceeds _ _ around _ hinv hpre hok := (effect_exec hinv hpre.1 hpre.2 hok around).later
  undisturbed _ _ around _ _ _ hinv hpre hok hpre' hapart :=
    ⟨hpre'.1, (effect_exec hinv hpre.1 hpre.2 hok around).ready hinv.numbered hapart hpre'.2⟩

/-! ## 2. The operations -/

/-- A statement that rests on nothing and breaks nothing. -/
def Bare : Statement → Prop
  | .insertTeam .. | .saveWorkspace _ | .insertMember .. | .writeInvitation .. | .saveResent ..
  | .applyAccept .. => False
  | _ => True

variable (runtime) in
/-- A triple about who owns what. -/
abbrev Owns {α : Type} (r : Request) (P : Database → Prop) (p : Service α)
    (Post : α → Database → Prop) : Prop :=
  ownershipOutline.Triple (server runtime) OwnerUnmoved r P p Post

/-- After any statement but the two of a creation nothing new is owed. -/
theorem handsOn_exec (hinv : Orderly db) (hpre : r.Sends q ∧ Ready q db)
    (hok : OwnerUnmoved r q db) (hteam : ∀ user name, q ≠ .insertTeam user name)
    (around : Surroundings) :
    ownershipOutline.HandsOn (claim q) db (q.exec around db).2 none where
  fresh c hc := nomatch hc
  owes c hwrong := by
    obtain ⟨hbefore, hq⟩ | ⟨-, user, name, hq⟩ :=
      (effect_exec hinv hpre.1 hpre.2 hok around).not_right hinv.numbered hwrong
    · refine .inl ⟨hbefore, fun hclaim => ?_⟩
      obtain ⟨user, heq⟩ := claim_eq_some hclaim
      exact hq user heq
    · exact absurd hq (hteam user name)

theorem owns_send {P : Database → Prop} {Post : q.Reply → Database → Prop} (hclaim : claim q = none)
    (hteam : ∀ user name, q ≠ .insertTeam user name) (hsends : r.Sends q)
    (hready : ∀ db, P db → Ready q db)
    (hpost : ∀ around db, Orderly db → Post (q.exec around db).1 (q.exec around db).2) :
    Owns runtime r P (send q) Post := by
  refine Outline.triple_send hclaim (fun db hP => ⟨hsends, hready db hP⟩)
    (fun around db hinv hpre hok => ?_) fun around _ db _ _ hinv _ _ => hpost around db hinv
  have hhands := handsOn_exec hinv hpre hok hteam around
  rw [hclaim] at hhands
  exact hhands

theorem owns_bare {α : Type} {F : Database → Prop} {p : Service α}
    (hp : p.Only fun q => r.Sends q ∧ Bare q) (hlasts : ∀ db db', Later db db' → F db → F db') :
    Owns runtime r F p fun _ => F := by
  have hclaim : ∀ q, r.Sends q ∧ Bare q → claim q = none := by
    rintro q ⟨-, hbare⟩
    cases q <;> first | rfl | cases hbare
  refine Outline.triple_of_only hclaim ?_ ?_ hlasts ownershipOutline_sound hp
  · rintro q db ⟨hsends, hbare⟩
    refine ⟨hsends, ?_⟩
    cases q <;> trivial
  · rintro q around db ⟨hsends, hbare⟩ hinv hpre hok
    have hhands := handsOn_exec hinv hpre hok (by rintro user name rfl; exact hbare) around
    rw [hclaim q ⟨hsends, hbare⟩] at hhands
    exact hhands

/-- The last statement of an operation. -/
theorem owns_last {α : Type} {P : Database → Prop} {p : Service (Except Failure α)}
    (h : Owns runtime r P p fun _ _ => True) :
    Owns runtime r P (orThrow p) fun _ _ => True :=
  Outline.Triple.bind h fun _ => Outline.triple_done fun _ _ _ _ => trivial

section

variable {workspaceId userId requesterId : Id}

/-- Whoever is a member is one of an established workspace. -/
theorem owns_getMemberRole :
    Owns runtime r (fun _ => True) (getMemberRole workspaceId userId)
      fun role db => role ≠ none → Established db workspaceId := by
  have hread : Owns runtime r (fun _ => True) (findMember workspaceId userId)
      fun member db => member ≠ none → Established db workspaceId := by
    apply owns_send (q := .findMember workspaceId userId) rfl (fun _ _ h => nomatch h) trivial
      fun _ _ => trivial
    intro around db hinv hsome
    obtain ⟨m, hm⟩ := Option.ne_none_iff_exists'.mp hsome
    obtain ⟨hmem, hin, -⟩ := Database.findMember_eq_some hm
    have hdrawn := hinv.numbered.memberships m hmem
    rw [hin] at hdrawn
    obtain hright | hnone := hinv.settled workspaceId
    · exact ⟨hdrawn, hright⟩
    · exact absurd hin (hnone m hmem)
  refine Outline.Triple.bind hread fun member => ?_
  refine Outline.triple_done fun role db hrole hestablished hsome => ?_
  cases hrole
  exact hestablished fun hnone => hsome (by rw [hnone]; rfl)

theorem owns_requireAdminRole :
    Owns runtime r (fun _ => True) (WorkspacesService.requireAdminRole workspaceId userId)
      fun _ db => Established db workspaceId := by
  refine Outline.Triple.bind owns_getMemberRole fun found => ?_
  refine Outline.Triple.bind Outline.triple_orReject fun role => ?_
  refine Outline.Triple.bind Outline.triple_require fun _ => ?_
  refine Outline.triple_done fun _ db _ h => ?_
  obtain ⟨⟨hestablished, hfound⟩, -⟩ := h
  exact hestablished (by rw [hfound]; exact fun h => nomatch h)

theorem owns_requireAdminRole' :
    Owns runtime r (fun _ => True) (WorkspaceInvitationsService.requireAdminRole workspaceId userId)
      fun _ db => Established db workspaceId := by
  refine Outline.Triple.bind owns_getMemberRole fun found => ?_
  refine Outline.triple_orReject.mono (fun _ h => h) fun role db h => ?_
  obtain ⟨hestablished, hfound⟩ := h
  refine hestablished fun hnone => ?_
  rw [hnone] at hfound
  cases hfound

/-- A workspace that was read keeps its id and its type until it is saved. -/
theorem owns_findWorkspace :
    Owns runtime r (fun _ => True) (findWorkspace workspaceId)
      fun found db => ∀ ws, found = some ws → Ready (.saveWorkspace ws) db := by
  apply owns_send (q := .findWorkspace workspaceId) rfl (fun _ _ h => nomatch h) trivial
    fun _ _ => trivial
  intro around db hinv ws hws
  obtain ⟨hmem, hid⟩ := KeyedMap.get?_eq_some_iff.mp hws
  refine ⟨hinv.numbered.workspaces ws hmem, fun type user hafter => ?_⟩
  have heq := (ownership_of_mem hmem).symm.trans hafter
  cases heq
  rfl

theorem owns_saveWorkspace {workspace ws : Workspace} (hid : ws.id = workspace.id)
    (htype : ws.type = workspace.type) (hsends : r.Sends (.saveWorkspace ws)) :
    Owns runtime r (fun db => Ready (.saveWorkspace workspace) db) (saveWorkspace ws)
      fun _ _ => True := by
  apply owns_send (q := .saveWorkspace ws) rfl (fun _ _ h => nomatch h) hsends
  · rintro db ⟨hdrawn, hsame⟩
    rw [← hid] at hdrawn hsame
    rw [← htype] at hsame
    exact ⟨hdrawn, hsame⟩
  · exact fun _ _ _ => trivial

theorem owns_assertAdmin : Owns runtime r (fun _ => True)
    (WorkspacesService.assertAdmin workspaceId userId) fun _ _ => True :=
  owns_bare (WorkspacesService.only_assertAdmin ⟨trivial, trivial⟩) fun _ _ _ h => h

theorem owns_renameWorkspace {name : String}
    (hr : r = .renameWorkspace workspaceId name requesterId) :
    Owns runtime r (fun _ => True)
      (WorkspacesService.renameWorkspace workspaceId name requesterId) fun _ _ => True := by
  refine Outline.Triple.bind owns_assertAdmin fun _ => ?_
  refine Outline.Triple.bind owns_findWorkspace fun found => ?_
  refine Outline.Triple.bind Outline.triple_orReject fun workspace => ?_
  refine (owns_saveWorkspace rfl rfl (.inl ⟨_, _, _, hr⟩)).mono (fun db h => ?_) fun _ _ h => h
  exact h.1 workspace h.2

theorem owns_updateWorkspaceSettings {dto : UpdateWorkspaceSettingsDto}
    (hr : r = .updateWorkspaceSettings workspaceId dto userId) :
    Owns runtime r (fun _ => True)
      (WorkspacesService.updateWorkspaceSettings runtime workspaceId dto userId)
      fun _ _ => True := by
  refine Outline.Triple.bind owns_assertAdmin fun _ => ?_
  refine Outline.Triple.bind owns_findWorkspace fun found => ?_
  refine Outline.Triple.bind Outline.triple_orReject fun workspace => ?_
  refine Outline.Triple.bind (Outline.triple_done fun _ db _ h => h) fun settings => ?_
  refine (owns_saveWorkspace rfl rfl (.inr ⟨_, _, _, hr⟩)).mono (fun db h => ?_) fun _ _ h => h
  exact h.1 workspace h.2

/-- Established for good. -/
theorem established_lasts (db db' : Database) (h : Later db db')
    (hid : Established db workspaceId) : Established db' workspaceId := h.established workspaceId hid

theorem owns_read {α : Type} {p : Service α} (hp : p.Only fun q => r.Sends q ∧ Bare q) :
    Owns runtime r (fun db => Established db workspaceId) p
      fun _ db => Established db workspaceId :=
  owns_bare hp established_lasts

theorem owns_addMemberByEmail {email : String} {role : WorkspaceRole}
    (hr : r = .addMemberByEmail workspaceId email role requesterId) :
    Owns runtime r (fun _ => True)
      (WorkspacesService.addMemberByEmail workspaceId email role requesterId)
      fun _ _ => True := by
  refine Outline.Triple.bind owns_requireAdminRole fun requesterRole => ?_
  refine Outline.Triple.bind (owns_read (only_assertWorkspaceType ⟨trivial, trivial⟩)) fun _ => ?_
  refine Outline.Triple.bind Outline.triple_require fun _ => ?_
  refine Outline.triple_of_pure fun hcheck => ?_
  have hrole : role ≠ .owner := of_decide_eq_true hcheck
  have hready : ∀ userId db, Established db workspaceId →
      Ready (.insertMember workspaceId userId role) db := by
    intro userId db hestablished
    show if role = .owner then _ else _
    rwa [if_neg hrole]
  have hclaim : ∀ userId, claim (.insertMember workspaceId userId role) = none := by
    intro userId
    cases role with
    | owner => exact absurd rfl hrole
    | _ => rfl
  refine Outline.Triple.bind (owns_read only_done) fun _ => ?_
  refine Outline.Triple.bind (owns_read (only_send ⟨trivial, trivial⟩)) fun found => ?_
  refine Outline.Triple.bind (owns_read only_orReject) fun userId => ?_
  refine Outline.Triple.bind (owns_read (only_send ⟨trivial, trivial⟩)) fun existing => ?_
  refine Outline.Triple.bind (owns_read only_require) fun _ => ?_
  exact owns_last (owns_send (hclaim userId) (fun _ _ h => nomatch h)
    (.inr ⟨hrole, _, _, _, hr⟩) (hready userId) fun _ _ _ => trivial)

theorem owns_invite {email : String} {role : InvitationRole}
    (hr : r = .invite workspaceId email role requesterId) :
    Owns runtime r (fun _ => True)
      (WorkspaceInvitationsService.invite runtime workspaceId email role requesterId)
      fun _ _ => True := by
  refine Outline.Triple.bind owns_requireAdminRole' fun requesterRole => ?_
  refine Outline.Triple.bind (owns_read (only_send ⟨trivial, trivial⟩)) fun found => ?_
  refine Outline.Triple.bind (owns_read only_orReject) fun workspace => ?_
  refine Outline.Triple.bind (owns_read only_require) fun _ => ?_
  have hcheck : Owns runtime r (fun db => Established db workspaceId)
      (.done (assertMayChangeAdminRole requesterRole [role.asMember])) fun _ db =>
        Established db workspaceId ∧ mayChangeAdminRole requesterRole [role.asMember] = true :=
    Outline.triple_done fun _ _ hmay h => ⟨h, mayChangeAdminRole_of_ok hmay⟩
  refine Outline.Triple.bind hcheck fun _ => Outline.triple_of_pure fun hmay => ?_
  refine Outline.Triple.bind (owns_read (only_send ⟨trivial, trivial⟩)) fun user => ?_
  refine Outline.Triple.bind (owns_read
    (WorkspaceInvitationsService.only_assertNotAMember fun _ => ⟨trivial, trivial⟩)) fun _ => ?_
  have hwrite : Owns runtime r (fun db => Established db workspaceId)
      (send (.writeInvitation workspaceId
        (WorkspaceInvitationsService.normalizeEmail runtime email) role requesterId requesterRole))
      fun _ _ => True :=
    owns_send rfl (fun _ _ h => nomatch h) ⟨⟨email, hr⟩, hmay⟩ (fun _ h => h) fun _ _ _ => trivial
  exact Outline.Triple.bind hwrite fun written => Outline.triple_done fun _ _ _ _ => trivial

/-- An invitation that was read is to an established workspace. -/
theorem owns_findInvitation {invitationId : Id} :
    Owns runtime r (fun _ => True) (findInvitation invitationId workspaceId)
      fun found db => ∀ i, found = some i → Established db i.workspaceId := by
  apply owns_send (q := .findInvitation invitationId workspaceId) rfl (fun _ _ h => nomatch h)
    trivial fun _ _ => trivial
  intro around db hinv i hi
  obtain ⟨hget, -⟩ := Option.filter_eq_some_iff.mp hi
  exact hinv.invited i (KeyedMap.get?_eq_some_iff.mp hget).1

theorem owns_findInvitationByToken {token : Id} :
    Owns runtime r (fun _ => True) (findInvitationByToken token)
      fun found db => ∀ i, found.1 = some i → Established db i.workspaceId := by
  apply owns_send (q := .findInvitationByToken token) rfl (fun _ _ h => nomatch h) trivial
    fun _ _ => trivial
  intro around db hinv i hi
  exact hinv.invited i (List.mem_of_find?_eq_some hi)

theorem owns_resend {invitationId : Id} (hr : r = .resend workspaceId invitationId requesterId) :
    Owns runtime r (fun _ => True)
      (WorkspaceInvitationsService.resend workspaceId invitationId requesterId)
      fun _ _ => True := by
  refine Outline.Triple.bind (owns_bare (WorkspaceInvitationsService.only_assertAdmin
    ⟨trivial, trivial⟩) fun _ _ _ h => h) fun _ => ?_
  refine Outline.Triple.bind owns_findInvitation fun found => ?_
  refine Outline.Triple.bind Outline.triple_orReject fun invitation => ?_
  refine Outline.Triple.bind Outline.triple_require fun _ => Outline.triple_of_pure fun hnew => ?_
  refine owns_last (owns_send rfl (fun _ _ h => nomatch h)
    ⟨⟨_, _, _, hr⟩, of_decide_eq_true hnew⟩ (fun db h => ?_) fun _ _ _ => trivial)
  exact h.1 invitation h.2

theorem owns_applyAccept {invitation : WorkspaceInvitation}
    (hr : ∃ token, r = .accept token userId ∨ r = .consumeForRegistration token userId) :
    Owns runtime r (fun db => Established db invitation.workspaceId)
      (orThrow (send (Q := Statement)
        (.applyAccept invitation.id invitation.workspaceId invitation.role userId)))
      fun _ _ => True :=
  owns_last (owns_send rfl (fun _ _ h => nomatch h) hr (fun _ h => h) fun _ _ _ => trivial)

/-- The invitation that passes the check is the one that was found. -/
theorem assertTokenUsable_eq_ok {now : Nat} {found : Option WorkspaceInvitation}
    {i : WorkspaceInvitation}
    (h : WorkspaceInvitationsService.assertTokenUsable now found = .ok i) :
    found = some i ∧ i.acceptedAt = none := by
  cases found with
  | none => cases h
  | some i' =>
    unfold WorkspaceInvitationsService.assertTokenUsable at h
    dsimp only at h
    split_ifs at h with hused hexpired
    cases h
    exact ⟨rfl, not_not.mp hused⟩

theorem owns_assertTokenUsable {found : Option WorkspaceInvitation} {now : Nat} :
    Owns runtime r (fun db => ∀ i, found = some i → Established db i.workspaceId)
      (.done (WorkspaceInvitationsService.assertTokenUsable now found))
      fun i db => Established db i.workspaceId :=
  Outline.triple_done fun i _ hi h => h i (assertTokenUsable_eq_ok hi).1

theorem owns_accept {token : Id} (hr : r = .accept token userId) :
    Owns runtime r (fun _ => True) (WorkspaceInvitationsService.accept runtime token userId)
      fun _ _ => True := by
  refine Outline.Triple.bind owns_findInvitationByToken fun found => ?_
  refine Outline.Triple.bind owns_assertTokenUsable fun invitation => ?_
  refine Outline.Triple.bind (owns_read (only_send ⟨trivial, trivial⟩)) fun user => ?_
  refine Outline.Triple.bind (owns_read only_orReject) fun email => ?_
  refine Outline.Triple.bind (owns_read only_require) fun _ => ?_
  exact owns_applyAccept ⟨token, .inl hr⟩

theorem owns_consumeForRegistration {token : Id} (hr : r = .consumeForRegistration token userId) :
    Owns runtime r (fun _ => True)
      (WorkspaceInvitationsService.consumeForRegistration token userId) fun _ _ => True := by
  refine Outline.Triple.bind owns_findInvitationByToken fun found => ?_
  refine Outline.Triple.bind owns_assertTokenUsable fun invitation => ?_
  exact owns_applyAccept ⟨token, .inr hr⟩

/-- A creation hands its debt from the first save to the second. -/
theorem owns_createTeam {name : String} (hr : r = .createTeam userId name) :
    Owns runtime r (fun _ => True) (WorkspacesService.createTeam userId name) fun _ _ => True := by
  refine Outline.Triple.bind Outline.triple_require fun _ => ?_
  intro held s s' hhands _
  refine ⟨⟨⟨⟨userId, name, hr⟩, trivial⟩, hhands⟩, fun around db _ hinv hpre hok => ?_⟩
  have heffect := effect_exec hinv hpre.1 hpre.2 hok around
  refine ⟨⟨⟨.inl ⟨rfl, userId, name, hr⟩, ?_⟩, ?_⟩, fun around' db' _ hinv' hpre' hok' => ?_⟩
  · exact awaiting_insertTeam hinv
  · constructor
    · intro id hid
      cases hid
      right
      intro r' q' hpre' hclaim
      obtain ⟨user, rfl⟩ := claim_eq_some hclaim
      have hwait : Awaiting db db.drawn user := hpre'.2
      exact absurd (hinv.numbered.lt_of_ownership hwait.named) (Nat.lt_irrefl _)
    · intro id hwrong
      obtain ⟨hbefore, -⟩ | ⟨hid, -⟩ := heffect.not_right hinv.numbered hwrong
      · exact .inl ⟨hbefore, fun h => nomatch h⟩
      · right
        rw [hid]
        rfl
  · have hhands' := handsOn_exec hinv' hpre' hok' (fun _ _ h => nomatch h) around'
    exact ⟨hhands', fun _ _ => trivial⟩

/-- The operations that write nothing but under a lock follow the outline by the statements they
send. -/
theorem owns_of_bare (hbare : ∀ q, r.Sends q → Bare q) :
    Owns runtime r (fun _ => True) (r.program runtime) fun _ _ => True :=
  owns_bare ((only_program runtime r).mono fun q hq => ⟨hq, hbare q hq⟩) fun _ _ _ h => h

end

theorem owns_program (r : Request) :
    Owns runtime r (fun _ => True) (r.program runtime) fun _ _ => True := by
  cases r with
  | createTeam => exact owns_createTeam rfl
  | addMemberByEmail => exact owns_addMemberByEmail rfl
  | renameWorkspace => exact owns_renameWorkspace rfl
  | updateWorkspaceSettings => exact owns_updateWorkspaceSettings rfl
  | invite => exact owns_invite rfl
  | resend => exact owns_resend rfl
  | accept => exact owns_accept rfl
  | consumeForRegistration => exact owns_consumeForRegistration rfl
  | updateMemberRole | removeMember | leaveWorkspace | transferOwnership | deleteWorkspace | revoke
  | pruneExpired =>
    refine owns_of_bare fun q hq => ?_
    cases q <;> first | trivial | simp [Request.Sends] at hq

end

/-! ## 3. Runs -/

/-- Where a run starts: no request is half way, ids in use were drawn, and teams are owned. -/
structure Start (w : World) : Prop where
  idle : w.Idle
  numbered : Numbered w.store
  owned : Owned w.store
  invited : ∀ i ∈ w.store.invitations.values, i.workspaceId < w.store.drawn

theorem Start.holds {runtime : Runtime} {w : World} (h : Start w) :
    ownershipOutline.Holds (server runtime) OwnerUnmoved w := by
  have hright := owned_iff.mp h.owned
  apply Outline.holds_of_idle h.idle
  · exact ⟨h.numbered, fun id => .inl (hright id), fun i hi => ⟨h.invited i hi, hright _⟩⟩
  · exact fun id hwrong => hwrong (hright id)

/-- **Team workspaces stay owned.** While every rename and every change of settings saves a
workspace row that still has the owner it was read with, the requests of any users, in any order
of their steps, leave every team workspace with one owner, whom it names, as soon as none of them
is half way; and only requests of the owner change who that is. -/
theorem team_workspaces_stay_owned {runtime : Runtime} {w : World} (hstart : Start w)
    (events last : List (Event Surroundings Request))
    (hok : (server runtime).EachStep (Sends OwnerUnmoved) w (events ++ last)) :
    (((server runtime).run w events).Idle → Owned ((server runtime).run w events).store) ∧
    ∀ id user, OwnedBy ((server runtime).run w events).store id user →
      (server runtime).EachStep (Sends fun r _ _ => r.requester ≠ some user)
        ((server runtime).run w events) last →
      OwnedBy ((server runtime).run w (events ++ last)).store id user := by
  obtain ⟨hbefore, hafter⟩ := Server.EachStep.append.mp hok
  have hprogram : ∀ r db, Orderly db → ownershipOutline.Proves (server runtime) OwnerUnmoved r
      (r.program runtime) ownershipOutline.Ends none db db :=
    fun r _ _ => (owns_program r).proves trivial
  have hholds := hstart.holds.run ownershipOutline_sound hprogram hbefore
  constructor
  · intro hidle
    rw [owned_iff]
    exact fun id => not_not.mp (hholds.settled hidle id)
  · intro id user howned hothers
    rw [Server.run_append]
    refine hholds.relates (fun db db' => OwnedBy db id user → OwnedBy db' id user)
      (fun _ h => h) (fun _ _ _ h h' => h' ∘ h) ownershipOutline_sound hprogram
      (fun r q around db hinv hpre hok hr => ?_) hafter hothers howned
    exact ((effect_exec hinv hpre.1 hpre.2 hok around).change id).ownedBy hinv.numbered hr

/-- A team of user 10, with an administrator and an editor, and nobody at work. -/
def quietTeam : World where
  store :=
    { workspaces := ⟨[⟨0, "Team", .team, 10, []⟩], List.nodup_singleton 0⟩
      members := ⟨[⟨1, 0, 10, .owner, none⟩, ⟨2, 0, 11, .admin, none⟩, ⟨3, 0, 12, .editor, none⟩],
        by decide⟩
      invitations := KeyedMap.empty
      drawn := 20 }
  calls := []

def noUsers : Surroundings := ⟨0, fun _ => none, fun _ => none⟩

theorem quietTeam_start : Start quietTeam where
  idle := by decide
  numbered := ⟨by decide, by decide, by decide⟩
  owned := by decide
  invited := by decide

/-- The owner hands the team on, and then the administrator renames it. -/
def renameAfterTransfer : List (Event Surroundings Request) :=
  [.submit (.transferOwnership 0 10 3), .advance 0 noUsers, .advance 0 noUsers,
    .submit (.renameWorkspace 0 "Crew" 11), .advance 1 noUsers, .advance 1 noUsers,
    .advance 1 noUsers]

theorem team_workspaces_stay_owned_quietTeam :
    (((server plainRuntime).run quietTeam renameAfterTransfer).Idle →
      Owned ((server plainRuntime).run quietTeam renameAfterTransfer).store) ∧
    ∀ id user, OwnedBy ((server plainRuntime).run quietTeam renameAfterTransfer).store id user →
      (server plainRuntime).EachStep (Sends fun r _ _ => r.requester ≠ some user)
        ((server plainRuntime).run quietTeam renameAfterTransfer) [] →
      OwnedBy ((server plainRuntime).run quietTeam (renameAfterTransfer ++ [])).store id user := by
  exact team_workspaces_stay_owned quietTeam_start renameAfterTransfer [] (by decide +kernel)

/-- The administrator reads the workspace, the owner hands it on, and the administrator saves. -/
def transferDuringRename : List (Event Surroundings Request) :=
  [.submit (.renameWorkspace 0 "Crew" 11), .advance 0 noUsers, .advance 0 noUsers,
    .submit (.transferOwnership 0 10 3), .advance 1 noUsers, .advance 1 noUsers,
    .advance 0 noUsers]

/-- A rename that was overtaken by a transfer leaves a team that names a member as its owner who
is not. -/
theorem rename_undoes_transfer :
    ¬ ∀ (runtime : Runtime) (w : World) (events : List (Event Surroundings Request)), Start w →
      ((server runtime).run w events).Idle → Owned ((server runtime).run w events).store := by
  intro h
  have howned := h plainRuntime quietTeam transferDuringRename quietTeam_start (by decide +kernel)
  exact absurd howned (by decide +kernel)

end Clemvion.Workspaces
