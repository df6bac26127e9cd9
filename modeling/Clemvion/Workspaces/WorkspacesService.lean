import Clemvion.Js.Text
import Clemvion.Workspaces.Statements

/-!
# WorkspacesService — the operations on workspaces and their members

Every operation with its statements in the order of the source.  Audit records, the release of a
deleted workspace's triggers and the purge of personal integrations touch other tables.
-/

namespace Clemvion.Workspaces

open Clemvion.Js Clemvion.Library Program Database

/-- Functions of the runtime the services call. -/
structure Runtime where
  isValidIanaTimezone : String → Bool
  toLowerCase : String → String

structure UpdateWorkspaceSettingsDto where
  interactionAllowedOrigins : Option (List String)
  timezone : Option String
  maxConcurrentExecutions : Option Nat

namespace WorkspacesService

open Service

/-! ## 1. Authorization -/

def requireAdminRole (workspaceId userId : Id) : Service WorkspaceRole := do
  let role ← orReject (.rejected NOT_A_MEMBER) (← getMemberRole workspaceId userId)
  require (isAdminRole role) (.rejected adminRequired)
  return role

def assertAdmin (workspaceId userId : Id) : Service Unit := do
  let _ ← requireAdminRole workspaceId userId

def assertMembership (workspaceId userId : Id) : Service Unit := do
  let _ ← orReject (.rejected NOT_A_MEMBER) (← getMemberRole workspaceId userId)

def assertWorkspaceType (workspaceId : Id) (type : WorkspaceType) : Service Unit := do
  let workspace ← orReject workspaceNotFound (← findWorkspace workspaceId)
  require (workspace.type = type) (.rejected
    ⟨.forbidden, "WORKSPACE_TYPE_MISMATCH", type.text ++ " 워크스페이스에서만 가능한 동작입니다."⟩)

/-! ## 2. Workspaces -/

/-- The creator becomes the owner, by a second save. -/
def createTeam (userId : Id) (name : String) : Service Unit := do
  require (2 ≤ utf16Length (trim name)) (.rejected
    ⟨.badRequest, "WORKSPACE_NAME_INVALID", "워크스페이스 이름은 2자 이상이어야 합니다."⟩)
  let saved ← insertTeam userId (trim name)
  insertMember saved.id userId .owner

def renameWorkspace (workspaceId : Id) (name : String) (requesterId : Id) : Service Unit := do
  assertAdmin workspaceId requesterId
  let workspace ← orReject workspaceNotFound (← findWorkspace workspaceId)
  saveWorkspace { workspace with name := trim name }

/-- `o.replace(/\/$/, '')`. -/
def dropTrailingSlash (origin : String) : String :=
  if origin.toList.getLast? = some '/' then String.ofList origin.toList.dropLast else origin

def withOrigins (settings : List (String × Value)) : Option (List String) → List (String × Value)
  | none => settings
  | some origins =>
    Value.setKey settings "interactionAllowedOrigins"
      (.arr (origins.map fun o => .str (dropTrailingSlash o)))

/-- An empty timezone removes the setting. -/
def withTimezone (isValidIanaTimezone : String → Bool) (settings : List (String × Value)) :
    Option String → Except Failure (List (String × Value))
  | none => .ok settings
  | some timezone =>
    if trim timezone = "" then .ok (settings.filter fun field => field.1 ≠ "timezone")
    else if isValidIanaTimezone (trim timezone) then
      .ok (Value.setKey settings "timezone" (.str (trim timezone)))
    else
      .error (.rejected
        ⟨.badRequest, "INVALID_TIMEZONE", "유효하지 않은 타임존입니다: " ++ trim timezone⟩)

def withMaxConcurrent (settings : List (String × Value)) : Option Nat → List (String × Value)
  | none => settings
  | some cap => Value.setKey settings "maxConcurrentExecutions" (.num (.finite cap))

def nextSettings (isValidIanaTimezone : String → Bool) (settings : List (String × Value))
    (dto : UpdateWorkspaceSettingsDto) : Except Failure (List (String × Value)) := do
  let settings ← withTimezone isValidIanaTimezone
    (withOrigins settings dto.interactionAllowedOrigins) dto.timezone
  return withMaxConcurrent settings dto.maxConcurrentExecutions

def updateWorkspaceSettings (runtime : Runtime) (workspaceId : Id)
    (dto : UpdateWorkspaceSettingsDto) (userId : Id) : Service Unit := do
  assertAdmin workspaceId userId
  let workspace ← orReject workspaceNotFound (← findWorkspace workspaceId)
  let settings ← .done (nextSettings runtime.isValidIanaTimezone workspace.settings dto)
  saveWorkspace { workspace with settings := settings }

def deleteWorkspace (workspaceId requesterId : Id) : Service Unit := do
  let workspace ← findWorkspace workspaceId
  let myMembership ← findMember workspaceId requesterId
  let _ ← .done (assertWorkspaceDeletable workspace myMembership)
  orThrow (send (Q := Statement) (.deleteWorkspace workspaceId requesterId))

/-! ## 3. Members -/

def addMemberByEmail (workspaceId : Id) (email : String) (role : WorkspaceRole)
    (requesterId : Id) : Service Unit := do
  let requesterRole ← requireAdminRole workspaceId requesterId
  assertWorkspaceType workspaceId .team
  require (role ≠ .owner) (.rejected
    ⟨.forbidden, "CANNOT_ASSIGN_OWNER", "owner 역할은 직접 부여할 수 없습니다."⟩)
  .done (assertMayChangeAdminRole requesterRole [role])
  let userId ← orReject (.rejected
    ⟨.notFound, "USER_NOT_FOUND", "해당 이메일로 가입된 사용자가 없습니다."⟩) (← lookupByEmail email)
  let existing ← findMember workspaceId userId
  require existing.isNone (.rejected
    ⟨.conflict, "ALREADY_A_MEMBER", "이미 워크스페이스 멤버입니다."⟩)
  insertMember workspaceId userId role

def updateMemberRole (workspaceId memberId : Id) (role : WorkspaceRole) (requesterId : Id) :
    Service Unit := do
  let requesterRole ← requireAdminRole workspaceId requesterId
  orThrow (send (Q := Statement) (.updateMemberRole workspaceId memberId role requesterRole))

def leaveWorkspace (workspaceId requesterId : Id) : Service Unit := do
  assertMembership workspaceId requesterId
  let workspace ← orReject workspaceNotFound (← findWorkspace workspaceId)
  require (workspace.type ≠ .personal) (.rejected
    ⟨.forbidden, "CANNOT_LEAVE_PERSONAL", "개인 워크스페이스에서는 나갈 수 없습니다."⟩)
  orThrow (send (Q := Statement) (.leaveWorkspace workspaceId requesterId))

def transferOwnership (workspaceId requesterId newOwnerMemberId : Id) : Service Unit := do
  let requesterRole ← orReject (.rejected NOT_A_MEMBER) (← getMemberRole workspaceId requesterId)
  require (requesterRole = .owner) ownerTransferRequired
  orThrow (send (Q := Statement) (.transferOwnership workspaceId requesterId newOwnerMemberId))

def cannotRemoveOwner : Failure :=
  .rejected ⟨.forbidden, "CANNOT_REMOVE_OWNER", "owner는 제거할 수 없습니다."⟩

/-- The part of `removeMember` after the delegation of a member's own departure. -/
def removeOther (workspaceId : Id) (member : WorkspaceMember) (requesterRole : WorkspaceRole) :
    Service Unit := do
  require (isAdminRole requesterRole) (.rejected adminRequired)
  require (member.role ≠ .owner) cannotRemoveOwner
  match ← deleteNonOwner member.id workspaceId with
  | some _ => return ()
  | none =>
    -- nothing was deleted: the member is gone, or had become the owner
    let still ← findMemberById member.id workspaceId
    reject (if still.isSome then cannotRemoveOwner else memberNotFound)

def removeMember (workspaceId memberId requesterId : Id) : Service Unit := do
  let requesterRole ← orReject (.rejected NOT_A_MEMBER) (← getMemberRole workspaceId requesterId)
  let member ← orReject memberNotFound (← findMemberById memberId workspaceId)
  if member.userId = requesterId then leaveWorkspace workspaceId requesterId
  else removeOther workspaceId member requesterRole

end WorkspacesService

end Clemvion.Workspaces
