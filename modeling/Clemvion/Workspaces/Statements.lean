import Clemvion.Library.Interleaving
import Clemvion.Workspaces.Transactions

/-!
# Statements — the steps the services are made of

A read outside a transaction, a save, or a whole transaction is one statement.  The clock and the
users come from outside.
-/

namespace Clemvion.Workspaces

open Clemvion.Library

/-- What a statement finds outside the three tables: the clock, and the users by email (those an
email names without doubt) and by id. -/
structure Surroundings where
  now : Nat
  lookupByEmail : String → Option Id
  findUser : Id → Option String

inductive Statement
  | findMember (workspaceId userId : Id)
  | findMemberById (memberId workspaceId : Id)
  | findWorkspace (workspaceId : Id)
  | findInvitation (invitationId workspaceId : Id)
  | findInvitationByToken (token : Id)
  | lookupByEmail (email : String)
  | findUser (userId : Id)
  | insertTeam (userId : Id) (name : String)
  | saveWorkspace (workspace : Workspace)
  | deleteWorkspace (workspaceId requesterId : Id)
  | insertMember (workspaceId userId : Id) (role : WorkspaceRole)
  | updateMemberRole (workspaceId memberId : Id) (role requesterRole : WorkspaceRole)
  | deleteNonOwner (memberId workspaceId : Id)
  | leaveWorkspace (workspaceId requesterId : Id)
  | transferOwnership (workspaceId requesterId newOwnerMemberId : Id)
  | writeInvitation (workspaceId : Id) (email : String) (role : InvitationRole) (requesterId : Id)
      (requesterRole : WorkspaceRole)
  | saveResent (invitation : WorkspaceInvitation) (requesterId : Id)
  | applyAccept (invitationId workspaceId : Id) (role : InvitationRole) (userId : Id)
  | removeInvitation (invitation : WorkspaceInvitation)
  | pruneExpired (now : Nat)

namespace Statement

/-- A token is looked up under the clock. -/
def Reply : Statement → Type
  | .findMember .. | .findMemberById .. => Option WorkspaceMember
  | .findWorkspace _ => Option Workspace
  | .findInvitation .. => Option WorkspaceInvitation
  | .findInvitationByToken _ => Option WorkspaceInvitation × Nat
  | .lookupByEmail _ => Option Id
  | .findUser _ => Option String
  | .insertTeam .. => Workspace
  | .saveWorkspace _ | .removeInvitation _ | .pruneExpired _ => Unit
  | .deleteNonOwner .. => Option Id
  | .insertMember .. | .deleteWorkspace .. | .updateMemberRole .. | .leaveWorkspace ..
  | .transferOwnership .. | .writeInvitation .. | .saveResent .. | .applyAccept .. =>
    Except Failure Unit

/-- A transaction that fails is rolled back. -/
def commit (db : Database) : Except Failure Database → Except Failure Unit × Database
  | .ok db' => (.ok (), db')
  | .error e => (.error e, db)

def exec : (q : Statement) → Surroundings → Database → q.Reply × Database
  | .findMember workspaceId userId, _, db => (db.findMember workspaceId userId, db)
  | .findMemberById memberId workspaceId, _, db => (db.findMemberById memberId workspaceId, db)
  | .findWorkspace workspaceId, _, db => (db.findWorkspace workspaceId, db)
  | .findInvitation invitationId workspaceId, _, db =>
    (db.findInvitation invitationId workspaceId, db)
  | .findInvitationByToken token, around, db => ((db.findInvitationByToken token, around.now), db)
  | .lookupByEmail email, around, db => (around.lookupByEmail email, db)
  | .findUser userId, around, db => (around.findUser userId, db)
  | .insertTeam userId name, _, db => db.insertTeam userId name
  | .saveWorkspace workspace, _, db => ((), db.saveWorkspace workspace)
  | .deleteWorkspace workspaceId requesterId, _, db =>
    commit db (db.deleteWorkspace workspaceId requesterId)
  | .insertMember workspaceId userId role, around, db =>
    commit db ((db.insertMember around.now workspaceId userId role).map Prod.snd)
  | .updateMemberRole workspaceId memberId role requesterRole, _, db =>
    commit db (db.updateMemberRole workspaceId memberId role requesterRole)
  | .deleteNonOwner memberId workspaceId, _, db => db.deleteNonOwner memberId workspaceId
  | .leaveWorkspace workspaceId requesterId, _, db =>
    commit db (db.leaveWorkspace workspaceId requesterId)
  | .transferOwnership workspaceId requesterId newOwnerMemberId, _, db =>
    commit db (db.transferOwnership workspaceId requesterId newOwnerMemberId)
  | .writeInvitation workspaceId email role requesterId requesterRole, around, db =>
    commit db (db.writeInvitation around.now workspaceId email role requesterId requesterRole)
  | .saveResent invitation requesterId, around, db =>
    commit db (db.saveResent around.now invitation requesterId)
  | .applyAccept invitationId workspaceId role userId, around, db =>
    commit db (db.applyAccept around.now invitationId workspaceId role userId)
  | .removeInvitation invitation, _, db => ((), db.removeInvitation invitation)
  | .pruneExpired now, _, db => ((), db.pruneExpired now)

end Statement

/-- An operation of one of the two services. -/
abbrev Service (α : Type) := Program Statement.Reply Failure α

namespace Service

open Program

/-- A transaction, with what it throws. -/
def orThrow {α : Type} (outcome : Service (Except Failure α)) : Service α := do
  .done (← outcome)

def findMember (workspaceId userId : Id) : Service (Option WorkspaceMember) :=
  send (Q := Statement) (.findMember workspaceId userId)

def getMemberRole (workspaceId userId : Id) : Service (Option WorkspaceRole) := do
  let member ← findMember workspaceId userId
  return member.map WorkspaceMember.role

def findMemberById (memberId workspaceId : Id) : Service (Option WorkspaceMember) :=
  send (Q := Statement) (.findMemberById memberId workspaceId)

def findWorkspace (workspaceId : Id) : Service (Option Workspace) :=
  send (Q := Statement) (.findWorkspace workspaceId)

def findInvitation (invitationId workspaceId : Id) : Service (Option WorkspaceInvitation) :=
  send (Q := Statement) (.findInvitation invitationId workspaceId)

def findInvitationByToken (token : Id) : Service (Option WorkspaceInvitation × Nat) :=
  send (Q := Statement) (.findInvitationByToken token)

def lookupByEmail (email : String) : Service (Option Id) :=
  send (Q := Statement) (.lookupByEmail email)

def findUser (userId : Id) : Service (Option String) := send (Q := Statement) (.findUser userId)

def insertTeam (userId : Id) (name : String) : Service Workspace :=
  send (Q := Statement) (.insertTeam userId name)

def saveWorkspace (workspace : Workspace) : Service Unit :=
  send (Q := Statement) (.saveWorkspace workspace)

def insertMember (workspaceId userId : Id) (role : WorkspaceRole) : Service Unit :=
  orThrow (send (Q := Statement) (.insertMember workspaceId userId role))

def deleteNonOwner (memberId workspaceId : Id) : Service (Option Id) :=
  send (Q := Statement) (.deleteNonOwner memberId workspaceId)

end Service

end Clemvion.Workspaces
