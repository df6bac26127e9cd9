import Clemvion.Workspaces.WorkspacesService

/-!
# WorkspaceInvitationsService — the operations on invitations

Mails, notifications and audit records, and what is read only for them, are left out.
-/

namespace Clemvion.Workspaces.WorkspaceInvitationsService

open Clemvion.Js Clemvion.Library Program Database Service

/-! ## 1. Checks -/

def requireAdminRole (workspaceId userId : Id) : Service WorkspaceRole := do
  let role ← orReject (.rejected ⟨.forbidden, "admin_required", "Admin 이상의 권한이 필요합니다."⟩)
    ((← getMemberRole workspaceId userId).filter isAdminRole)
  return role

def assertAdmin (workspaceId userId : Id) : Service Unit := do
  let _ ← requireAdminRole workspaceId userId

/-- The invitation, if its token may be used at `now`. -/
def assertTokenUsable (now : Nat) : Option WorkspaceInvitation → Except Failure WorkspaceInvitation
  | none => .error (.rejected
      ⟨.notFound, "invitation_not_found", "초대 토큰이 유효하지 않습니다."⟩)
  | some invitation =>
    if invitation.acceptedAt ≠ none then .error alreadyUsed
    else if invitation.expiresAt < now then
      .error (.rejected ⟨.gone, "invitation_expired", "초대가 만료되었습니다."⟩)
    else .ok invitation

def normalizeEmail (runtime : Runtime) (email : String) : String := runtime.toLowerCase (trim email)

def invitationNotFound : Failure :=
  .rejected ⟨.notFound, "invitation_not_found", "초대를 찾을 수 없습니다."⟩

/-! ## 2. Issuing -/

/-- A unique violation of the transaction is reported as a concurrent invitation. -/
def asConflict : Except Failure Unit → Except Failure Unit
  | .ok () => .ok ()
  | .error e =>
    if e = uniqueViolation then
      .error (.rejected ⟨.conflict, "invitation_already_pending",
        "동일 이메일의 초대가 동시에 발송됐어요. 잠시 후 다시 시도해 주세요."⟩)
    else .error e

def assertNotAMember (workspaceId : Id) : Option Id → Service Unit
  | none => return ()
  | some userId => do
    let existing ← findMember workspaceId userId
    require existing.isNone (.rejected
      ⟨.conflict, "already_a_member", "이미 워크스페이스 멤버입니다."⟩)

def invite (runtime : Runtime) (workspaceId : Id) (email : String) (role : InvitationRole)
    (requesterId : Id) : Service Unit := do
  let requesterRole ← requireAdminRole workspaceId requesterId
  let workspace ← orReject (.rejected
    ⟨.notFound, "workspace_not_found", "워크스페이스를 찾을 수 없습니다."⟩)
    (← findWorkspace workspaceId)
  require (workspace.type = .team) (.rejected
    ⟨.forbidden, "workspace_type_mismatch", "팀 워크스페이스에서만 초대할 수 있습니다."⟩)
  .done (assertMayChangeAdminRole requesterRole [role.asMember])
  assertNotAMember workspaceId (← lookupByEmail email)
  let written ← send (Q := Statement) (.writeInvitation workspaceId (normalizeEmail runtime email)
    role requesterId requesterRole)
  .done (asConflict written)

def resend (workspaceId invitationId requesterId : Id) : Service Unit := do
  assertAdmin workspaceId requesterId
  let invitation ← orReject invitationNotFound (← findInvitation invitationId workspaceId)
  require (invitation.acceptedAt = none) (.rejected ⟨.conflict, "invitation_already_accepted",
    "이미 수락된 초대는 재발송할 수 없습니다."⟩)
  orThrow (send (Q := Statement) (.saveResent invitation requesterId))

/-! ## 3. Consuming -/

def accept (runtime : Runtime) (token userId : Id) : Service Unit := do
  let (found, now) ← findInvitationByToken token
  let invitation ← .done (assertTokenUsable now found)
  let email ← orReject (.rejected
    ⟨.notFound, "user_not_found", "사용자를 찾을 수 없습니다."⟩) (← findUser userId)
  require (runtime.toLowerCase email = invitation.email) (.rejected
    ⟨.badRequest, "invitation_email_mismatch", "초대 이메일과 로그인 이메일이 일치하지 않습니다."⟩)
  orThrow (send (Q := Statement)
    (.applyAccept invitation.id invitation.workspaceId invitation.role userId))

/-- Runs in the transaction of the registration; its read locks nothing. -/
def consumeForRegistration (token userId : Id) : Service Unit := do
  let (found, now) ← findInvitationByToken token
  let invitation ← .done (assertTokenUsable now found)
  orThrow (send (Q := Statement)
    (.applyAccept invitation.id invitation.workspaceId invitation.role userId))

/-! ## 4. Withdrawing -/

def revoke (workspaceId invitationId requesterId : Id) : Service Unit := do
  assertAdmin workspaceId requesterId
  let invitation ← orReject invitationNotFound (← findInvitation invitationId workspaceId)
  require (invitation.acceptedAt = none) (.rejected ⟨.conflict, "invitation_already_accepted",
    "이미 수락된 초대는 취소할 수 없습니다."⟩)
  send (Q := Statement) (.removeInvitation invitation)

def pruneExpired (now : Nat) : Service Unit := send (Q := Statement) (.pruneExpired now)

end Clemvion.Workspaces.WorkspaceInvitationsService
