import Clemvion.Workspaces.WorkspaceInvitationsService

/-!
# Requests — what users ask of the two services

Every operation as a request.  `Sends` is what each lets run that writes who owns a workspace or
what an invitation offers.
-/

namespace Clemvion.Workspaces

open Clemvion.Js Clemvion.Library Program Service

inductive Request
  | createTeam (userId : Id) (name : String)
  | addMemberByEmail (workspaceId : Id) (email : String) (role : WorkspaceRole) (requesterId : Id)
  | updateMemberRole (workspaceId memberId : Id) (role : WorkspaceRole) (requesterId : Id)
  | removeMember (workspaceId memberId requesterId : Id)
  | leaveWorkspace (workspaceId requesterId : Id)
  | transferOwnership (workspaceId requesterId newOwnerMemberId : Id)
  | renameWorkspace (workspaceId : Id) (name : String) (requesterId : Id)
  | updateWorkspaceSettings (workspaceId : Id) (dto : UpdateWorkspaceSettingsDto) (userId : Id)
  | deleteWorkspace (workspaceId requesterId : Id)
  | invite (workspaceId : Id) (email : String) (role : InvitationRole) (requesterId : Id)
  | resend (workspaceId invitationId requesterId : Id)
  | accept (token userId : Id)
  | consumeForRegistration (token userId : Id)
  | revoke (workspaceId invitationId requesterId : Id)
  | pruneExpired (now : Nat)

namespace Request

def program (runtime : Runtime) : Request → Service Unit
  | .createTeam userId name => WorkspacesService.createTeam userId name
  | .addMemberByEmail workspaceId email role requesterId =>
    WorkspacesService.addMemberByEmail workspaceId email role requesterId
  | .updateMemberRole workspaceId memberId role requesterId =>
    WorkspacesService.updateMemberRole workspaceId memberId role requesterId
  | .removeMember workspaceId memberId requesterId =>
    WorkspacesService.removeMember workspaceId memberId requesterId
  | .leaveWorkspace workspaceId requesterId =>
    WorkspacesService.leaveWorkspace workspaceId requesterId
  | .transferOwnership workspaceId requesterId newOwnerMemberId =>
    WorkspacesService.transferOwnership workspaceId requesterId newOwnerMemberId
  | .renameWorkspace workspaceId name requesterId =>
    WorkspacesService.renameWorkspace workspaceId name requesterId
  | .updateWorkspaceSettings workspaceId dto userId =>
    WorkspacesService.updateWorkspaceSettings runtime workspaceId dto userId
  | .deleteWorkspace workspaceId requesterId =>
    WorkspacesService.deleteWorkspace workspaceId requesterId
  | .invite workspaceId email role requesterId =>
    WorkspaceInvitationsService.invite runtime workspaceId email role requesterId
  | .resend workspaceId invitationId requesterId =>
    WorkspaceInvitationsService.resend workspaceId invitationId requesterId
  | .accept token userId => WorkspaceInvitationsService.accept runtime token userId
  | .consumeForRegistration token userId =>
    WorkspaceInvitationsService.consumeForRegistration token userId
  | .revoke workspaceId invitationId requesterId =>
    WorkspaceInvitationsService.revoke workspaceId invitationId requesterId
  | .pruneExpired now => WorkspaceInvitationsService.pruneExpired now

/-- The user who asks; the clean-up of expired invitations has none. -/
def requester : Request → Option Id
  | .createTeam userId _ | .updateWorkspaceSettings _ _ userId | .accept _ userId
  | .consumeForRegistration _ userId => some userId
  | .addMemberByEmail _ _ _ requesterId | .updateMemberRole _ _ _ requesterId
  | .removeMember _ _ requesterId | .leaveWorkspace _ requesterId
  | .transferOwnership _ requesterId _ | .renameWorkspace _ _ requesterId
  | .deleteWorkspace _ requesterId | .invite _ _ _ requesterId | .resend _ _ requesterId
  | .revoke _ _ requesterId => some requesterId
  | .pruneExpired _ => none

/-- The token that the request presents, if it accepts an invitation. -/
def presented : Request → Option Id
  | .accept token _ | .consumeForRegistration token _ => some token
  | _ => none

end Request

/-- The two services over one database. -/
def server (runtime : Runtime) :
    Server Statement Statement.Reply Failure Database Surroundings Request where
  exec := Statement.exec
  program := Request.program runtime

/-- A runtime that takes any timezone and leaves letters as they are. -/
def plainRuntime : Runtime := ⟨fun _ => true, id⟩

/-- The tables, and the requests half way. -/
abbrev World := Clemvion.Library.World Statement.Reply Failure Database Request

/-! ## What a request lets run -/

/-- The statements that a request comes to, as far as they write owners or invitations. -/
def Request.Sends (r : Request) : Statement → Prop
  | .insertTeam .. => ∃ userId name, r = .createTeam userId name
  | .insertMember _ _ role =>
    (role = .owner ∧ ∃ userId name, r = .createTeam userId name) ∨
      (role ≠ .owner ∧ ∃ workspaceId email requesterId,
        r = .addMemberByEmail workspaceId email role requesterId)
  | .saveWorkspace _ =>
    (∃ workspaceId name requesterId, r = .renameWorkspace workspaceId name requesterId) ∨
      ∃ workspaceId dto userId, r = .updateWorkspaceSettings workspaceId dto userId
  | .transferOwnership _ requesterId _ | .deleteWorkspace _ requesterId =>
    r.requester = some requesterId ∧ r.presented = none
  | .updateMemberRole .. | .deleteNonOwner .. | .leaveWorkspace .. | .removeInvitation _
  | .pruneExpired _ => r.presented = none
  | .writeInvitation workspaceId _ role requesterId requesterRole =>
    (∃ email, r = .invite workspaceId email role requesterId) ∧
      mayChangeAdminRole requesterRole [role.asMember] = true
  | .saveResent invitation _ =>
    (∃ workspaceId invitationId requesterId, r = .resend workspaceId invitationId requesterId) ∧
      invitation.acceptedAt = none
  | .applyAccept _ _ _ userId =>
    ∃ token, r = .accept token userId ∨ r = .consumeForRegistration token userId
  | _ => True

section

variable {r : Request} {workspaceId userId : Id} {S : Statement → Prop}

theorem only_getMemberRole (h : S (.findMember workspaceId userId)) :
    (getMemberRole workspaceId userId).Only S :=
  Only.bind (only_send h) fun _ => only_done

theorem only_findWorkspace : (findWorkspace workspaceId).Only r.Sends := only_send trivial

theorem only_assertWorkspaceType {type : WorkspaceType} (h : S (.findWorkspace workspaceId)) :
    (WorkspacesService.assertWorkspaceType workspaceId type).Only S :=
  Only.bind (only_send h) fun _ => Only.bind only_orReject fun _ => only_require

theorem only_orThrow {α : Type} {p : Service (Except Failure α)} (h : p.Only r.Sends) :
    (orThrow p).Only r.Sends :=
  Only.bind h fun _ => only_done

namespace WorkspacesService

theorem only_requireAdminRole (h : S (.findMember workspaceId userId)) :
    (requireAdminRole workspaceId userId).Only S := by
  refine Only.bind (only_getMemberRole h) fun role => ?_
  refine Only.bind only_orReject fun role => ?_
  exact Only.bind only_require fun _ => only_done

theorem only_assertAdmin (h : S (.findMember workspaceId userId)) :
    (assertAdmin workspaceId userId).Only S :=
  Only.bind (only_requireAdminRole h) fun _ => only_done

theorem only_createTeam {name : String} (hr : r = .createTeam userId name) :
    (createTeam userId name).Only r.Sends := by
  have hteam : r.Sends (.insertTeam userId (trim name)) := ⟨userId, name, hr⟩
  have howner : ∀ id, r.Sends (.insertMember id userId .owner) :=
    fun _ => .inl ⟨rfl, userId, name, hr⟩
  unfold createTeam
  refine Only.bind only_require fun _ => ?_
  refine Only.bind (only_send hteam) fun saved => ?_
  exact only_orThrow (only_send (howner saved.id))

theorem only_renameWorkspace {name : String} (hr : r = .renameWorkspace workspaceId name userId) :
    (renameWorkspace workspaceId name userId).Only r.Sends := by
  refine Only.bind (only_assertAdmin trivial) fun _ => ?_
  refine Only.bind only_findWorkspace fun found => ?_
  refine Only.bind only_orReject fun workspace => ?_
  exact only_send (.inl ⟨_, _, _, hr⟩)

theorem only_updateWorkspaceSettings {runtime : Runtime} {dto : UpdateWorkspaceSettingsDto}
    (hr : r = .updateWorkspaceSettings workspaceId dto userId) :
    (updateWorkspaceSettings runtime workspaceId dto userId).Only r.Sends := by
  refine Only.bind (only_assertAdmin trivial) fun _ => ?_
  refine Only.bind only_findWorkspace fun found => ?_
  refine Only.bind only_orReject fun workspace => ?_
  refine Only.bind only_done fun settings => ?_
  exact only_send (.inr ⟨_, _, _, hr⟩)

theorem only_deleteWorkspace (hr : r = .deleteWorkspace workspaceId userId) :
    (deleteWorkspace workspaceId userId).Only r.Sends := by
  refine Only.bind only_findWorkspace fun workspace => ?_
  refine Only.bind (only_send trivial) fun myMembership => ?_
  refine Only.bind only_done fun _ => ?_
  exact only_orThrow (only_send ⟨by rw [hr]; rfl, by rw [hr]; rfl⟩)

theorem only_addMemberByEmail {email : String} {role : WorkspaceRole}
    (hr : r = .addMemberByEmail workspaceId email role userId) :
    (addMemberByEmail workspaceId email role userId).Only r.Sends := by
  refine Only.bind (only_requireAdminRole trivial) fun requesterRole => ?_
  refine Only.bind (only_assertWorkspaceType trivial) fun _ => ?_
  refine only_require_bind fun hrole => ?_
  have hnotOwner : role ≠ .owner := of_decide_eq_true hrole
  refine Only.bind only_done fun _ => ?_
  refine Only.bind (only_send trivial) fun found => ?_
  refine Only.bind only_orReject fun userId => ?_
  refine Only.bind (only_send trivial) fun existing => ?_
  refine Only.bind only_require fun _ => ?_
  exact only_orThrow (only_send (.inr ⟨hnotOwner, _, _, _, hr⟩))

theorem only_updateMemberRole {memberId : Id} {role : WorkspaceRole} (hr : r.presented = none) :
    (updateMemberRole workspaceId memberId role userId).Only r.Sends :=
  Only.bind (only_requireAdminRole trivial) fun _ => only_orThrow (only_send hr)

theorem only_leaveWorkspace (hr : r.presented = none) :
    (leaveWorkspace workspaceId userId).Only r.Sends := by
  refine Only.bind (Only.bind (only_getMemberRole trivial) fun _ => Only.bind only_orReject fun _ => only_done)
    fun _ => ?_
  refine Only.bind only_findWorkspace fun found => ?_
  refine Only.bind only_orReject fun workspace => ?_
  refine Only.bind only_require fun _ => ?_
  exact only_orThrow (only_send hr)

theorem only_transferOwnership {memberId : Id}
    (hr : r = .transferOwnership workspaceId userId memberId) :
    (transferOwnership workspaceId userId memberId).Only r.Sends := by
  refine Only.bind (only_getMemberRole trivial) fun role => ?_
  refine Only.bind only_orReject fun role => ?_
  refine Only.bind only_require fun _ => ?_
  exact only_orThrow (only_send ⟨by rw [hr]; rfl, by rw [hr]; rfl⟩)

theorem only_removeOther {member : WorkspaceMember} {role : WorkspaceRole}
    (hr : r.presented = none) : (removeOther workspaceId member role).Only r.Sends := by
  refine Only.bind only_require fun _ => ?_
  refine Only.bind only_require fun _ => ?_
  refine Only.bind (only_send hr) fun removed => ?_
  cases removed with
  | some _ => exact only_done
  | none => exact Only.bind (only_send trivial) fun still => only_done

theorem only_removeMember {memberId : Id} (hr : r.presented = none) :
    (removeMember workspaceId memberId userId).Only r.Sends := by
  refine Only.bind (only_getMemberRole trivial) fun role => ?_
  refine Only.bind only_orReject fun role => ?_
  refine Only.bind (only_send trivial) fun found => ?_
  refine Only.bind only_orReject fun member => ?_
  split_ifs
  · exact only_leaveWorkspace hr
  · exact only_removeOther hr

end WorkspacesService

namespace WorkspaceInvitationsService

theorem only_requireAdminRole (h : S (.findMember workspaceId userId)) :
    (requireAdminRole workspaceId userId).Only S :=
  Only.bind (only_getMemberRole h) fun _ => only_orReject

theorem only_assertAdmin (h : S (.findMember workspaceId userId)) :
    (assertAdmin workspaceId userId).Only S :=
  Only.bind (only_requireAdminRole h) fun _ => only_done

theorem only_assertNotAMember {user : Option Id} (h : ∀ userId, S (.findMember workspaceId userId)) :
    (assertNotAMember workspaceId user).Only S := by
  cases user with
  | none => exact only_done
  | some userId => exact Only.bind (only_send (h userId)) fun _ => only_require

theorem only_invite {runtime : Runtime} {email : String} {role : InvitationRole}
    (hr : r = .invite workspaceId email role userId) :
    (invite runtime workspaceId email role userId).Only r.Sends := by
  refine Only.bind (only_requireAdminRole trivial) fun requesterRole => ?_
  refine Only.bind only_findWorkspace fun found => ?_
  refine Only.bind only_orReject fun workspace => ?_
  refine Only.bind only_require fun _ => ?_
  refine only_done_bind fun _ hmay => ?_
  refine Only.bind (only_send trivial) fun user => ?_
  refine Only.bind (only_assertNotAMember fun _ => trivial) fun _ => ?_
  exact Only.bind (only_send ⟨⟨email, hr⟩, mayChangeAdminRole_of_ok hmay⟩) fun _ => only_done

theorem only_resend {invitationId : Id} (hr : r = .resend workspaceId invitationId userId) :
    (resend workspaceId invitationId userId).Only r.Sends := by
  refine Only.bind (only_assertAdmin trivial) fun _ => ?_
  refine Only.bind (only_send trivial) fun found => ?_
  refine Only.bind only_orReject fun invitation => ?_
  refine only_require_bind fun hpending => ?_
  exact only_orThrow (only_send ⟨⟨_, _, _, hr⟩, of_decide_eq_true hpending⟩)

theorem only_accept {runtime : Runtime} {token : Id} (hr : r = .accept token userId) :
    (accept runtime token userId).Only r.Sends := by
  refine Only.bind (only_send trivial) fun found => ?_
  refine Only.bind only_done fun invitation => ?_
  refine Only.bind (only_send trivial) fun user => ?_
  refine Only.bind only_orReject fun email => ?_
  refine Only.bind only_require fun _ => ?_
  exact only_orThrow (only_send ⟨token, .inl hr⟩)

theorem only_consumeForRegistration {token : Id} (hr : r = .consumeForRegistration token userId) :
    (consumeForRegistration token userId).Only r.Sends := by
  refine Only.bind (only_send trivial) fun found => ?_
  refine Only.bind only_done fun invitation => ?_
  exact only_orThrow (only_send ⟨token, .inr hr⟩)

theorem only_revoke {invitationId : Id} (hr : r.presented = none) :
    (revoke workspaceId invitationId userId).Only r.Sends := by
  refine Only.bind (only_assertAdmin trivial) fun _ => ?_
  refine Only.bind (only_send trivial) fun found => ?_
  refine Only.bind only_orReject fun invitation => ?_
  exact Only.bind only_require fun _ => only_send hr

end WorkspaceInvitationsService

end

/-- Every request keeps to the statements it sends. -/
theorem only_program (runtime : Runtime) (r : Request) : (r.program runtime).Only r.Sends := by
  cases r with
  | createTeam => exact WorkspacesService.only_createTeam rfl
  | addMemberByEmail => exact WorkspacesService.only_addMemberByEmail rfl
  | updateMemberRole => exact WorkspacesService.only_updateMemberRole rfl
  | removeMember => exact WorkspacesService.only_removeMember rfl
  | leaveWorkspace => exact WorkspacesService.only_leaveWorkspace rfl
  | transferOwnership => exact WorkspacesService.only_transferOwnership rfl
  | renameWorkspace => exact WorkspacesService.only_renameWorkspace rfl
  | updateWorkspaceSettings => exact WorkspacesService.only_updateWorkspaceSettings rfl
  | deleteWorkspace => exact WorkspacesService.only_deleteWorkspace rfl
  | invite => exact WorkspaceInvitationsService.only_invite rfl
  | resend => exact WorkspaceInvitationsService.only_resend rfl
  | accept => exact WorkspaceInvitationsService.only_accept rfl
  | consumeForRegistration => exact WorkspaceInvitationsService.only_consumeForRegistration rfl
  | revoke => exact WorkspaceInvitationsService.only_revoke rfl
  | pruneExpired => exact only_send rfl

end Clemvion.Workspaces
