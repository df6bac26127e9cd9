import Clemvion.Workspaces.Tables

/-!
# Transactions — what one step does to the tables

A save outside a transaction, or a transaction that holds its rows locked.  A step that fails
leaves the tables as they were.  `save` of a loaded entity writes every field of it back, and
inserts the row again where it is gone.
-/

namespace Clemvion.Workspaces

open Clemvion.Library

namespace Database

variable (db : Database)

/-! ## 1. Workspaces -/

def workspaceNotFound : Failure :=
  .rejected ⟨.notFound, "WORKSPACE_NOT_FOUND", "워크스페이스를 찾을 수 없습니다."⟩

/-- The first save of `createTeam`. -/
def insertTeam (userId : Id) (name : String) : Workspace × Database :=
  (⟨db.drawn, name, .team, userId, []⟩,
    { db with
      workspaces := db.workspaces.set ⟨db.drawn, name, .team, userId, []⟩
      drawn := db.drawn + 1 })

/-- `workspaceRepository.save(workspace)` of an entity read before. -/
def saveWorkspace (workspace : Workspace) : Database :=
  { db with workspaces := db.workspaces.set workspace }

/-- The checks of `assertWorkspaceDeletable`, on what it read. -/
def assertWorkspaceDeletable (workspace : Option Workspace) (myMembership : Option WorkspaceMember) :
    Except Failure Workspace :=
  if myMembership.map WorkspaceMember.role ≠ some .owner then
    .error (.rejected ⟨.forbidden, "OWNER_REQUIRED", "워크스페이스 삭제는 owner만 가능합니다."⟩)
  else
    match workspace with
    | none => .error workspaceNotFound
    | some workspace =>
      if workspace.type = .personal then
        .error (.rejected
          ⟨.forbidden, "CANNOT_DELETE_PERSONAL", "개인 워크스페이스는 삭제할 수 없습니다."⟩)
      else .ok workspace

/-- The transaction of `deleteWorkspace`. -/
def deleteWorkspace (workspaceId requesterId : Id) : Except Failure Database :=
  match db.findWorkspace workspaceId with
  -- `parentPresence === 'absent'`: a concurrent delete came first
  | none => .error workspaceNotFound
  | some locked => do
    let workspace ← assertWorkspaceDeletable locked (db.findMember workspaceId requesterId)
    return { db with
      invitations := db.invitations.filter fun i => i.workspaceId ≠ workspaceId
      members := db.members.filter fun m => m.workspaceId ≠ workspaceId
      workspaces := db.workspaces.delete workspace.id }

/-! ## 2. Members -/

def memberNotFound : Failure :=
  .rejected ⟨.notFound, "MEMBER_NOT_FOUND", "멤버를 찾을 수 없습니다."⟩

/-- `memberRepository.save` of a new member, under the foreign key to the workspace and the
uniqueness of its user. -/
def insertMember (now : Nat) (workspaceId userId : Id) (role : WorkspaceRole) :
    Except Failure (WorkspaceMember × Database) :=
  if db.findWorkspace workspaceId = none then .error foreignKeyViolation
  else if db.findMember workspaceId userId ≠ none then .error uniqueViolation
  else
    .ok (⟨db.drawn, workspaceId, userId, role, some now⟩,
      { db with
        members := db.members.set ⟨db.drawn, workspaceId, userId, role, some now⟩
        drawn := db.drawn + 1 })

/-- The transaction of `updateMemberRole`: the member before and after. -/
def updateMemberRole (workspaceId memberId : Id) (role requesterRole : WorkspaceRole) :
    Except Failure Database :=
  match db.findMemberById memberId workspaceId with
  | none => .error memberNotFound
  | some member =>
    if member.role = .owner ∨ role = .owner then
      .error (.rejected
        ⟨.forbidden, "OWNER_ROLE_PROTECTED", "owner 역할은 별도 양도 흐름이 필요합니다."⟩)
    else do
      assertMayChangeAdminRole requesterRole [member.role, role]
      return { db with members := db.members.set { member with role := role } }

/-- `DELETE … WHERE id = $1 AND workspace_id = $2 AND role <> 'owner' RETURNING user_id`. -/
def deleteNonOwner (memberId workspaceId : Id) : Option Id × Database :=
  match db.findMemberById memberId workspaceId with
  | none => (none, db)
  | some member =>
    if member.role = .owner then (none, db)
    else (some member.userId, { db with members := db.members.delete member.id })

/-- The members with role owner. -/
def owners (workspaceId : Id) : List WorkspaceMember :=
  db.members.values.filter fun m => m.workspaceId = workspaceId ∧ m.role = .owner

/-- The transaction of `leaveWorkspace`. -/
def leaveWorkspace (workspaceId requesterId : Id) : Except Failure Database :=
  match db.findMember workspaceId requesterId with
  | none => .error (.rejected NOT_A_MEMBER)
  | some membership =>
    if membership.role = .owner ∧ (db.owners workspaceId).length ≤ 1 then
      .error (.rejected ⟨.forbidden, "SOLE_OWNER_CANNOT_LEAVE",
        "유일한 owner는 나갈 수 없습니다. 다른 멤버를 owner로 승격하거나 워크스페이스를 삭제해 주세요."⟩)
    else .ok { db with members := db.members.delete membership.id }

def ownerTransferRequired : Failure :=
  .rejected ⟨.forbidden, "OWNER_REQUIRED", "owner 이양은 현재 owner 만 수행할 수 있습니다."⟩

/-- The owner's member row, if the requester is the owner. -/
def ownMembership (workspaceId requesterId : Id) : Except Failure WorkspaceMember :=
  match db.findMember workspaceId requesterId with
  | none => .error ownerTransferRequired
  | some membership => if membership.role ≠ .owner then .error ownerTransferRequired else .ok membership

/-- The member row that is to be the owner's. -/
def transferTarget (workspaceId newOwnerMemberId : Id) (requesterMembership : WorkspaceMember) :
    Except Failure WorkspaceMember :=
  if newOwnerMemberId = requesterMembership.id then
    .error (.rejected
      ⟨.badRequest, "TARGET_IS_SELF", "본인을 새 owner 로 지정할 수 없습니다."⟩)
  else
    match db.findMemberById newOwnerMemberId workspaceId with
    | none =>
      .error (.rejected ⟨.notFound, "MEMBER_NOT_FOUND", "대상 멤버를 찾을 수 없습니다."⟩)
    | some target =>
      if target.role = .owner then
        .error (.rejected ⟨.conflict, "TARGET_ALREADY_OWNER", "대상이 이미 owner 입니다."⟩)
      else .ok target

/-- The transaction of `transferOwnership`. -/
def transferOwnership (workspaceId requesterId newOwnerMemberId : Id) : Except Failure Database :=
  match db.findWorkspace workspaceId with
  | none => .error workspaceNotFound
  | some workspace =>
    if workspace.type = .personal then
      .error (.rejected ⟨.forbidden, "CANNOT_TRANSFER_PERSONAL",
        "개인 워크스페이스는 owner 이양 대상이 아닙니다."⟩)
    else do
      let requesterMembership ← db.ownMembership workspaceId requesterId
      let targetMembership ← db.transferTarget workspaceId newOwnerMemberId requesterMembership
      return { db with
        members := (db.members.set { targetMembership with role := .owner }).set
          { requesterMembership with role := .admin }
        workspaces := db.workspaces.set { workspace with ownerId := targetMembership.userId } }

/-! ## 3. Invitations -/

/-- 7 days. -/
def INVITATION_TTL_MS : Nat := 7 * 24 * 60 * 60 * 1000

/-- Another row has the pending place of this one. -/
def pendingTaken (invitation : WorkspaceInvitation) : Bool :=
  invitation.acceptedAt = none ∧ ∃ other ∈ db.invitations.values, other.id ≠ invitation.id ∧
    other.workspaceId = invitation.workspaceId ∧ other.email = invitation.email ∧
    other.acceptedAt = none

/-- `invitationRepository.save(invitation)`, under the foreign key to the workspace and the
partial uniqueness of pending rows. -/
def saveInvitation (invitation : WorkspaceInvitation) : Except Failure Database :=
  if db.findWorkspace invitation.workspaceId = none then .error foreignKeyViolation
  else if db.pendingTaken invitation then .error uniqueViolation
  else .ok { db with invitations := db.invitations.set invitation }

/-- The row under a new token with a new expiry, sent by the requester. -/
def reissued (now : Nat) (invitation : WorkspaceInvitation) (requesterId : Id) :
    WorkspaceInvitation :=
  { invitation with
    token := db.drawn
    invitedBy := some requesterId
    expiresAt := now + INVITATION_TTL_MS }

/-- The write of `resend`, into an entity read before. -/
def saveResent (now : Nat) (invitation : WorkspaceInvitation) (requesterId : Id) :
    Except Failure Database :=
  saveInvitation { db with drawn := db.drawn + 1 } (db.reissued now invitation requesterId)

/-- The transaction of `invite`. -/
def writeInvitation (now : Nat) (workspaceId : Id) (email : String) (role : InvitationRole)
    (requesterId : Id) (requesterRole : WorkspaceRole) : Except Failure Database :=
  match db.findPending workspaceId email with
  | some pending => do
    assertMayChangeAdminRole requesterRole [pending.role.asMember]
    saveInvitation { db with drawn := db.drawn + 1 }
      { db.reissued now pending requesterId with role := role }
  | none =>
    saveInvitation { db with drawn := db.drawn + 2 }
      ⟨db.drawn + 1, workspaceId, email, role, db.drawn, some requesterId,
        now + INVITATION_TTL_MS, none, none⟩

def alreadyUsed : Failure :=
  .rejected ⟨.gone, "invitation_already_used", "이미 사용된 초대입니다."⟩

/-- `UPDATE … SET accepted_at = NOW(), accepted_by = … WHERE id = :id AND accepted_at IS NULL`. -/
def consume (now : Nat) (invitationId userId : Id) : Except Failure Database :=
  match db.invitations.get? invitationId with
  | none => .error alreadyUsed
  | some invitation =>
    if invitation.acceptedAt ≠ none then .error alreadyUsed
    else
      .ok { db with invitations :=
        db.invitations.set { invitation with acceptedAt := some now, acceptedBy := some userId } }

/-- The member row an acceptance leaves, unless the user is a member already. -/
def joinAs (now : Nat) (workspaceId userId : Id) (role : InvitationRole) :
    Except Failure Database :=
  match db.findMember workspaceId userId with
  | some _ => .ok db
  | none => (db.insertMember now workspaceId userId role.asMember).map Prod.snd

/-- `applyAccept`. -/
def applyAccept (now : Nat) (invitationId workspaceId : Id) (role : InvitationRole) (userId : Id) :
    Except Failure Database := do
  let consumed ← db.consume now invitationId userId
  consumed.joinAs now workspaceId userId role

/-- `DELETE … WHERE accepted_at IS NULL AND expires_at < $now`. -/
def pruneExpired (now : Nat) : Database :=
  { db with invitations := db.invitations.filter fun i =>
    ¬ (i.acceptedAt = none ∧ i.expiresAt < now) }

def removeInvitation (invitation : WorkspaceInvitation) : Database :=
  { db with invitations := db.invitations.delete invitation.id }

/-! ## 4. What each leaves when it succeeds -/

variable {db} {db' : Database} {now : Nat} {workspaceId userId memberId requesterId : Id}

theorem findMember_eq_some {m : WorkspaceMember} (h : db.findMember workspaceId userId = some m) :
    m ∈ db.members.values ∧ m.workspaceId = workspaceId ∧ m.userId = userId := by
  have hmem := List.mem_of_find?_eq_some h
  have hkeys : m.workspaceId = workspaceId ∧ m.userId = userId := by
    simpa using List.find?_some h
  exact ⟨hmem, hkeys⟩

theorem findMember_eq_none :
    db.findMember workspaceId userId = none ↔
      ∀ m ∈ db.members.values, m.workspaceId = workspaceId → m.userId ≠ userId := by
  unfold findMember
  rw [List.find?_eq_none]
  simp

theorem findMemberById_eq_some {m : WorkspaceMember}
    (h : db.findMemberById memberId workspaceId = some m) :
    m ∈ db.members.values ∧ m.id = memberId ∧ m.workspaceId = workspaceId := by
  obtain ⟨hget, hws⟩ := Option.filter_eq_some_iff.mp h
  obtain ⟨hmem, hid⟩ := KeyedMap.get?_eq_some_iff.mp hget
  exact ⟨hmem, hid, of_decide_eq_true hws⟩

theorem insertMember_eq_ok {role : WorkspaceRole} {row : WorkspaceMember × Database}
    (h : db.insertMember now workspaceId userId role = .ok row) :
    (db.findWorkspace workspaceId ≠ none ∧ db.findMember workspaceId userId = none) ∧
    row = (⟨db.drawn, workspaceId, userId, role, some now⟩,
      { db with
        members := db.members.set ⟨db.drawn, workspaceId, userId, role, some now⟩
        drawn := db.drawn + 1 }) := by
  unfold insertMember at h
  split_ifs at h with hws hmember
  cases h
  exact ⟨⟨hws, not_not.mp hmember⟩, rfl⟩

theorem updateMemberRole_eq_ok {role requesterRole : WorkspaceRole}
    (h : db.updateMemberRole workspaceId memberId role requesterRole = .ok db') :
    ∃ member ∈ db.members.values, member.role ≠ .owner ∧ role ≠ .owner ∧
      db' = { db with members := db.members.set { member with role := role } } := by
  unfold updateMemberRole at h
  cases hmember : db.findMemberById memberId workspaceId with
  | none =>
    rw [hmember] at h
    cases h
  | some member =>
    rw [hmember] at h
    dsimp only at h
    split_ifs at h with hprotected
    rw [not_or] at hprotected
    refine ⟨member, (findMemberById_eq_some hmember).1, hprotected.1, hprotected.2, ?_⟩
    cases hmay : assertMayChangeAdminRole requesterRole [member.role, role] with
    | error e =>
      rw [hmay] at h
      cases h
    | ok _ =>
      rw [hmay] at h
      cases h
      rfl

theorem deleteNonOwner_cases :
    (db.deleteNonOwner memberId workspaceId).2 = db ∨
    ∃ member ∈ db.members.values, member.role ≠ .owner ∧
      (db.deleteNonOwner memberId workspaceId).2 =
        { db with members := db.members.delete member.id } := by
  unfold deleteNonOwner
  cases hmember : db.findMemberById memberId workspaceId with
  | none => exact .inl rfl
  | some member =>
    dsimp only
    split_ifs with hrole
    · exact .inl rfl
    · exact .inr ⟨member, (findMemberById_eq_some hmember).1, hrole, rfl⟩

theorem leaveWorkspace_eq_ok (h : db.leaveWorkspace workspaceId requesterId = .ok db') :
    ∃ membership ∈ db.members.values, membership.workspaceId = workspaceId ∧
      (membership.role = .owner → 1 < (db.owners workspaceId).length) ∧
      db' = { db with members := db.members.delete membership.id } := by
  unfold leaveWorkspace at h
  cases hmember : db.findMember workspaceId requesterId with
  | none =>
    rw [hmember] at h
    cases h
  | some membership =>
    rw [hmember] at h
    dsimp only at h
    split_ifs at h with hsole
    cases h
    obtain ⟨hmem, hws, -⟩ := findMember_eq_some hmember
    refine ⟨membership, hmem, hws, fun hrole => ?_, rfl⟩
    by_contra hle
    exact hsole ⟨hrole, Nat.not_lt.mp hle⟩

theorem ownMembership_eq_ok {m : WorkspaceMember}
    (h : db.ownMembership workspaceId requesterId = .ok m) :
    m ∈ db.members.values ∧ m.workspaceId = workspaceId ∧ m.userId = requesterId ∧
      m.role = .owner := by
  unfold ownMembership at h
  cases hmember : db.findMember workspaceId requesterId with
  | none =>
    rw [hmember] at h
    cases h
  | some membership =>
    rw [hmember] at h
    dsimp only at h
    split_ifs at h with hrole
    cases h
    obtain ⟨hmem, hws, huser⟩ := findMember_eq_some hmember
    exact ⟨hmem, hws, huser, not_not.mp hrole⟩

theorem transferTarget_eq_ok {own target : WorkspaceMember} {newOwnerMemberId : Id}
    (h : db.transferTarget workspaceId newOwnerMemberId own = .ok target) :
    target ∈ db.members.values ∧ target.workspaceId = workspaceId ∧ target.id ≠ own.id ∧
      target.role ≠ .owner := by
  unfold transferTarget at h
  split_ifs at h with hself
  cases hmember : db.findMemberById newOwnerMemberId workspaceId with
  | none =>
    rw [hmember] at h
    cases h
  | some found =>
    rw [hmember] at h
    dsimp only at h
    split_ifs at h with hrole
    cases h
    obtain ⟨hmem, hid, hws⟩ := findMemberById_eq_some hmember
    exact ⟨hmem, hws, fun heq => hself (hid.symm.trans heq), hrole⟩

theorem transferOwnership_eq_ok {newOwnerMemberId : Id}
    (h : db.transferOwnership workspaceId requesterId newOwnerMemberId = .ok db') :
    ∃ workspace own target, db.findWorkspace workspaceId = some workspace ∧
      db.ownMembership workspaceId requesterId = .ok own ∧
      db.transferTarget workspaceId newOwnerMemberId own = .ok target ∧
      workspace.type = .team ∧
      db' = { db with
        members := (db.members.set { target with role := .owner }).set { own with role := .admin }
        workspaces := db.workspaces.set { workspace with ownerId := target.userId } } := by
  unfold transferOwnership at h
  cases hws : db.findWorkspace workspaceId with
  | none =>
    rw [hws] at h
    cases h
  | some workspace =>
    rw [hws] at h
    dsimp only at h
    split_ifs at h with htype
    have hteam : workspace.type = .team := by
      cases hkind : workspace.type with
      | personal => exact absurd hkind htype
      | team => rfl
    cases hown : db.ownMembership workspaceId requesterId with
    | error e =>
      rw [hown] at h
      cases h
    | ok own =>
      rw [hown] at h
      cases htarget : db.transferTarget workspaceId newOwnerMemberId own with
      | error e =>
        change (db.transferTarget _ _ own >>= _) = _ at h
        rw [htarget] at h
        cases h
      | ok target =>
        change (db.transferTarget _ _ own >>= _) = _ at h
        rw [htarget] at h
        cases h
        exact ⟨workspace, own, target, rfl, rfl, htarget, hteam, rfl⟩

theorem assertWorkspaceDeletable_eq_ok {workspace workspace' : Workspace}
    {myMembership : Option WorkspaceMember}
    (h : assertWorkspaceDeletable (some workspace) myMembership = .ok workspace') :
    workspace' = workspace ∧
      ∃ membership, myMembership = some membership ∧ membership.role = .owner := by
  unfold assertWorkspaceDeletable at h
  dsimp only at h
  split_ifs at h with hrole htype
  cases h
  obtain ⟨membership, hmember, howner⟩ := Option.map_eq_some_iff.mp (not_not.mp hrole)
  exact ⟨rfl, membership, hmember, howner⟩

theorem deleteWorkspace_eq_ok (h : db.deleteWorkspace workspaceId requesterId = .ok db') :
    ∃ membership ∈ db.members.values, membership.workspaceId = workspaceId ∧
      membership.userId = requesterId ∧ membership.role = .owner ∧
      db' = { db with
        invitations := db.invitations.filter fun i => i.workspaceId ≠ workspaceId
        members := db.members.filter fun m => m.workspaceId ≠ workspaceId
        workspaces := db.workspaces.delete workspaceId } := by
  unfold deleteWorkspace at h
  cases hws : db.findWorkspace workspaceId with
  | none =>
    rw [hws] at h
    cases h
  | some locked =>
    rw [hws] at h
    dsimp only at h
    obtain ⟨-, hid⟩ := KeyedMap.get?_eq_some_iff.mp hws
    cases hcheck : assertWorkspaceDeletable locked (db.findMember workspaceId requesterId) with
    | error e =>
      rw [hcheck] at h
      cases h
    | ok workspace =>
      rw [hcheck] at h
      cases h
      obtain ⟨rfl, membership, hmember, hrole⟩ := assertWorkspaceDeletable_eq_ok hcheck
      obtain ⟨hmem, hin, huser⟩ := findMember_eq_some hmember
      refine ⟨membership, hmem, hin, huser, hrole, ?_⟩
      rw [hid]

theorem saveInvitation_eq_ok {invitation : WorkspaceInvitation}
    (h : db.saveInvitation invitation = .ok db') :
    db' = { db with invitations := db.invitations.set invitation } := by
  unfold saveInvitation at h
  split_ifs at h
  cases h
  rfl

theorem saveResent_eq_ok {invitation : WorkspaceInvitation}
    (h : db.saveResent now invitation requesterId = .ok db') :
    db' = { db with
      invitations := db.invitations.set (db.reissued now invitation requesterId)
      drawn := db.drawn + 1 } :=
  saveInvitation_eq_ok h

theorem findPending_eq_some {email : String} {i : WorkspaceInvitation}
    (h : db.findPending workspaceId email = some i) :
    i ∈ db.invitations.values ∧ i.workspaceId = workspaceId ∧ i.acceptedAt = none := by
  have hmem := List.mem_of_find?_eq_some h
  have hkeys : i.workspaceId = workspaceId ∧ i.email = email ∧ i.acceptedAt = none := by
    simpa using List.find?_some h
  exact ⟨hmem, hkeys.1, hkeys.2.2⟩

/-- An invitation overwrites the pending row, if the requester may change its role, or is a row of
its own. -/
theorem writeInvitation_eq_ok {email : String} {role : InvitationRole}
    {requesterRole : WorkspaceRole}
    (h : db.writeInvitation now workspaceId email role requesterId requesterRole = .ok db') :
    (∃ pending ∈ db.invitations.values, pending.workspaceId = workspaceId ∧
      pending.acceptedAt = none ∧
      mayChangeAdminRole requesterRole [pending.role.asMember] = true ∧
      db' = { db with
        invitations := db.invitations.set { db.reissued now pending requesterId with role := role }
        drawn := db.drawn + 1 }) ∨
    db' = { db with
      invitations := db.invitations.set ⟨db.drawn + 1, workspaceId, email, role, db.drawn,
        some requesterId, now + INVITATION_TTL_MS, none, none⟩
      drawn := db.drawn + 2 } := by
  unfold writeInvitation at h
  cases hpending : db.findPending workspaceId email with
  | none =>
    rw [hpending] at h
    exact .inr (saveInvitation_eq_ok h)
  | some pending =>
    rw [hpending] at h
    change (assertMayChangeAdminRole requesterRole [pending.role.asMember] >>= _) = _ at h
    unfold assertMayChangeAdminRole at h
    split_ifs at h with hmay
    · obtain ⟨hmem, hws, hnew⟩ := findPending_eq_some hpending
      exact .inl ⟨pending, hmem, hws, hnew, hmay, saveInvitation_eq_ok h⟩
    · cases h

theorem consume_eq_ok {invitationId : Id} (h : db.consume now invitationId userId = .ok db') :
    ∃ i ∈ db.invitations.values, i.id = invitationId ∧ i.acceptedAt = none ∧
      db' = { db with invitations :=
        db.invitations.set { i with acceptedAt := some now, acceptedBy := some userId } } := by
  unfold consume at h
  cases hget : db.invitations.get? invitationId with
  | none =>
    rw [hget] at h
    cases h
  | some i =>
    rw [hget] at h
    dsimp only at h
    split_ifs at h with hnew
    cases h
    obtain ⟨hmem, hid⟩ := KeyedMap.get?_eq_some_iff.mp hget
    exact ⟨i, hmem, hid, not_not.mp hnew, rfl⟩

theorem joinAs_eq_ok {role : InvitationRole} (h : db.joinAs now workspaceId userId role = .ok db') :
    db' = db ∨ db.findMember workspaceId userId = none ∧
      db' = { db with
        members := db.members.set ⟨db.drawn, workspaceId, userId, role.asMember, some now⟩
        drawn := db.drawn + 1 } := by
  unfold joinAs at h
  cases hmember : db.findMember workspaceId userId with
  | some m =>
    rw [hmember] at h
    cases h
    exact .inl rfl
  | none =>
    rw [hmember] at h
    cases hrow : db.insertMember now workspaceId userId role.asMember with
    | error e =>
      rw [hrow] at h
      cases h
    | ok row =>
      rw [hrow] at h
      cases h
      rw [(insertMember_eq_ok hrow).2]
      exact .inr ⟨rfl, rfl⟩

theorem applyAccept_eq_ok {invitationId : Id} {role : InvitationRole}
    (h : db.applyAccept now invitationId workspaceId role userId = .ok db') :
    ∃ consumed, db.consume now invitationId userId = .ok consumed ∧
      consumed.joinAs now workspaceId userId role = .ok db' := by
  unfold applyAccept at h
  cases hconsumed : db.consume now invitationId userId with
  | error e =>
    rw [hconsumed] at h
    cases h
  | ok consumed =>
    rw [hconsumed] at h
    exact ⟨consumed, rfl, h⟩

end Database

end Clemvion.Workspaces
