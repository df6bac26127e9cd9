import Clemvion.Js.Value
import Clemvion.Library.KeyedMap

/-!
# Tables — workspaces, members and invitations

The rows the two workspace services read and write, and the queries they share.  Ids and tokens
are drawn one after the other from one supply, so that a new one differs from all before it.
-/

namespace Clemvion.Workspaces

open Clemvion.Js Clemvion.Library

/-! ## 1. Roles -/

inductive WorkspaceRole
  | owner | admin | editor | viewer
  deriving DecidableEq

/-- What an invitation can offer. -/
inductive InvitationRole
  | admin | editor | viewer
  deriving DecidableEq

def InvitationRole.asMember : InvitationRole → WorkspaceRole
  | .admin => .admin
  | .editor => .editor
  | .viewer => .viewer

def workspaceRoleLevel : WorkspaceRole → Nat
  | .viewer => 1
  | .editor => 2
  | .admin => 3
  | .owner => 4

def isAdminRole (role : WorkspaceRole) : Bool :=
  workspaceRoleLevel .admin ≤ workspaceRoleLevel role

inductive WorkspaceType
  | personal | team
  deriving DecidableEq

def WorkspaceType.text : WorkspaceType → String
  | .personal => "personal"
  | .team => "team"

/-! ## 2. Rejections -/

inductive HttpStatus
  | badRequest | forbidden | notFound | conflict | gone
  deriving DecidableEq

structure Rejection where
  status : HttpStatus
  code : String
  message : String
  deriving DecidableEq

/-- What a request ends with when it fails: a rejection, or a database error with its SQLSTATE. -/
inductive Failure
  | rejected (rejection : Rejection)
  | queryFailed (sqlState : String)
  deriving DecidableEq

def uniqueViolation : Failure := .queryFailed "23505"

def foreignKeyViolation : Failure := .queryFailed "23503"

def NOT_A_MEMBER : Rejection :=
  ⟨.forbidden, "NOT_A_MEMBER", "워크스페이스 멤버가 아닙니다."⟩

/-- `ROLE_REQUIRED.admin`. -/
def adminRequired : Rejection :=
  ⟨.forbidden, "ADMIN_REQUIRED", "Admin 이상의 권한이 필요합니다."⟩

def ADMIN_ROLE_CHANGE_REQUIRES_OWNER : Rejection :=
  ⟨.forbidden, "OWNER_REQUIRED", "관리자 역할은 소유자만 주거나 뺄 수 있습니다."⟩

/-- Whether the requester may make a change that touches these roles. -/
def mayChangeAdminRole (requesterRole : WorkspaceRole) (touchedRoles : List WorkspaceRole) :
    Bool :=
  ¬ (.admin ∈ touchedRoles ∧ workspaceRoleLevel requesterRole < workspaceRoleLevel .owner)

def assertMayChangeAdminRole (requesterRole : WorkspaceRole) (touchedRoles : List WorkspaceRole) :
    Except Failure Unit :=
  if mayChangeAdminRole requesterRole touchedRoles then .ok ()
  else .error (.rejected ADMIN_ROLE_CHANGE_REQUIRES_OWNER)

theorem mayChangeAdminRole_of_ok {requesterRole : WorkspaceRole} {touchedRoles : List WorkspaceRole}
    {u : Unit} (h : assertMayChangeAdminRole requesterRole touchedRoles = .ok u) :
    mayChangeAdminRole requesterRole touchedRoles = true := by
  unfold assertMayChangeAdminRole at h
  split_ifs at h with hmay
  exact hmay

/-! ## 3. Rows -/

abbrev Id := Nat

structure Workspace where
  id : Id
  name : String
  type : WorkspaceType
  ownerId : Id
  settings : List (String × Value)
  deriving DecidableEq

structure WorkspaceMember where
  id : Id
  workspaceId : Id
  userId : Id
  role : WorkspaceRole
  joinedAt : Option Nat
  deriving DecidableEq

structure WorkspaceInvitation where
  id : Id
  workspaceId : Id
  email : String
  role : InvitationRole
  token : Id
  invitedBy : Option Id
  expiresAt : Nat
  acceptedAt : Option Nat
  acceptedBy : Option Id
  deriving DecidableEq

/-- The three tables, and how many ids and tokens were drawn so far. -/
structure Database where
  workspaces : KeyedMap Workspace.id
  members : KeyedMap WorkspaceMember.id
  invitations : KeyedMap WorkspaceInvitation.id
  drawn : Nat

/-! ## 4. Queries -/

namespace Database

variable (db : Database)

/-- `memberRepository.findOne({ where: { workspaceId, userId } })`. -/
def findMember (workspaceId userId : Id) : Option WorkspaceMember :=
  db.members.values.find? fun m => m.workspaceId = workspaceId ∧ m.userId = userId

/-- `memberRepository.findOne({ where: { id, workspaceId } })`. -/
def findMemberById (memberId workspaceId : Id) : Option WorkspaceMember :=
  (db.members.get? memberId).filter fun m => m.workspaceId = workspaceId

def findWorkspace (workspaceId : Id) : Option Workspace := db.workspaces.get? workspaceId

def findInvitation (invitationId workspaceId : Id) : Option WorkspaceInvitation :=
  (db.invitations.get? invitationId).filter fun i => i.workspaceId = workspaceId

def findInvitationByToken (token : Id) : Option WorkspaceInvitation :=
  db.invitations.values.find? fun i => i.token = token

/-- The pending invitation of an email to a workspace. -/
def findPending (workspaceId : Id) (email : String) : Option WorkspaceInvitation :=
  db.invitations.values.find? fun i =>
    i.workspaceId = workspaceId ∧ i.email = email ∧ i.acceptedAt = none

end Database

end Clemvion.Workspaces
