import Clemvion.Library.Interleaving
import Clemvion.Library.KeyedMap

/-!
# RefreshTokens — the tokens, the users, and the statements on them

Ids are drawn one after the other from one supply.  An UPDATE is two statements: it sees the rows
committed when it begins, and checks its criteria again on each of them when it has their locks.
-/

namespace Clemvion.Auth

open Clemvion.Library

/-! ## 1. Rejections -/

inductive HttpStatus
  | badRequest | unauthorized | forbidden | notFound | serviceUnavailable
  deriving DecidableEq

structure Detail where
  field : String
  message : String
  code : String
  deriving DecidableEq

structure Rejection where
  status : HttpStatus
  code : String
  message : Option String
  details : List Detail
  deriving DecidableEq

/-- What a request ends with when it fails: a rejection, or a database error with its SQLSTATE. -/
inductive Failure
  | rejected (rejection : Rejection)
  | queryFailed (sqlState : String)
  deriving DecidableEq

def reject (status : HttpStatus) (code message : String) : Failure :=
  .rejected ⟨status, code, some message, []⟩

def uniqueViolation : Failure := .queryFailed "23505"

def foreignKeyViolation : Failure := .queryFailed "23503"

/-! ## 2. Rows -/

abbrev Id := Nat

structure RefreshToken where
  id : Id
  userId : Id
  tokenHash : String
  familyId : Id
  isRevoked : Bool
  expiresAt : Nat
  rememberMe : Bool
  deriving DecidableEq

/-- Neither revoked nor expired. -/
def RefreshToken.isLive (t : RefreshToken) (now : Nat) : Prop :=
  t.isRevoked = false ∧ now < t.expiresAt

structure User where
  id : Id
  passwordHash : Option String
  emailVerified : Bool
  twoFactorEnabled : Bool
  passwordResetToken : Option String
  passwordResetExpiresAt : Option Nat
  deriving DecidableEq

/-- A `FindOptionsWhere`; what is not given is not asked for. -/
structure Criteria where
  id : Option Id := none
  userId : Option Id := none
  familyId : Option Id := none
  notFamilyId : Option Id := none
  isRevoked : Option Bool := none
  expiresAfter : Option Nat := none
  deriving DecidableEq

def Criteria.matches (c : Criteria) (t : RefreshToken) : Bool :=
  c.id.all (t.id = ·) && c.userId.all (t.userId = ·) && c.familyId.all (t.familyId = ·) &&
    c.notFamilyId.all (t.familyId ≠ ·) && c.isRevoked.all (t.isRevoked = ·) &&
    c.expiresAfter.all (· < t.expiresAt)

/-- An UPDATE under way, with the rows it saw when it began. -/
structure Update where
  id : Id
  criteria : Criteria
  rows : List Id
  deriving DecidableEq

/-- The rows that an UPDATE writes when it ends. -/
def Update.affects (u : Update) (t : RefreshToken) : Bool := t.id ∈ u.rows && u.criteria.matches t

/-- A row as it is given to the INSERT; without a family it begins one. -/
structure Draft where
  userId : Id
  familyId : Option Id
  expiresAt : Nat
  rememberMe : Bool
  deriving DecidableEq

structure Database where
  tokens : KeyedMap RefreshToken.id
  users : KeyedMap User.id
  updates : KeyedMap Update.id
  drawn : Nat

/-! ## 3. Writes -/

/-- What lies outside the repository. -/
structure Runtime where
  hashToken : String → String
  uuidv4 : Nat → String
  hashPassword : String → String
  comparePassword : String → String → Bool

namespace Database

variable (runtime : Runtime) (db : Database)

def beginUpdate (criteria : Criteria) : Id × Database :=
  (db.drawn, { db with
    updates := db.updates.set
      ⟨db.drawn, criteria, (db.tokens.values.filter criteria.matches).map RefreshToken.id⟩
    drawn := db.drawn + 1 })

def setRevoked (u : Update) (t : RefreshToken) : RefreshToken :=
  if u.affects t then { t with isRevoked := true } else t

theorem id_setRevoked (u : Update) (t : RefreshToken) : (setRevoked u t).id = t.id := by
  unfold setRevoked
  split_ifs <;> rfl

/-- `isRevoked: true` of what the UPDATE affects, and how many rows these are. -/
def endUpdate (u : Update) : Nat × Database :=
  ((db.tokens.values.filter u.affects).length, { db with
    tokens := db.tokens.mapValues (setRevoked u) (id_setRevoked u)
    updates := db.updates.delete u.id })

/-- The row that comes of `draft`, and the raw token whose hash it holds. -/
def row (draft : Draft) : RefreshToken where
  id := db.drawn
  userId := draft.userId
  tokenHash := runtime.hashToken (runtime.uuidv4 db.drawn)
  familyId := draft.familyId.getD db.drawn
  isRevoked := false
  expiresAt := draft.expiresAt
  rememberMe := draft.rememberMe

def withRow (draft : Draft) : Database :=
  { db with tokens := db.tokens.set (db.row runtime draft), drawn := db.drawn + 1 }

/-- The column of the hashes is unique, and the user is one. -/
def insertToken (draft : Draft) : Except Failure (String × Database) :=
  if db.tokens.values.any (·.tokenHash = (db.row runtime draft).tokenHash) then
    .error uniqueViolation
  else if ¬ db.users.has draft.userId then .error foreignKeyViolation
  else .ok (runtime.uuidv4 db.drawn, db.withRow runtime draft)

def tokenInvalid : Failure := reject .unauthorized "TOKEN_INVALID" "Invalid refresh token"

/-- The end of the transaction of a refresh: its UPDATE and its INSERT are committed together. -/
def rotate (u : Update) (draft : Draft) : Except Failure (String × Database) :=
  if (db.endUpdate u).1 = 0 then .error tokenInvalid
  else (db.endUpdate u).2.insertToken runtime draft

/-- The user with a new password, and with no reset token. -/
def withPassword (user : User) (passwordHash : String) : Database :=
  { db with users := db.users.set { user with
      passwordHash := some passwordHash
      passwordResetToken := none
      passwordResetExpiresAt := none } }

def setPassword (userId : Id) (passwordHash : String) : Database :=
  match db.users.get? userId with
  | none => db
  | some user => db.withPassword user passwordHash

/-- Without an UPDATE that was given up. -/
def dropUpdate (u : Update) : Database := { db with updates := db.updates.delete u.id }

/-- A transaction that fails is rolled back. -/
def commit : Except Failure (String × Database) → Except Failure String × Database
  | .ok (token, db') => (.ok token, db')
  | .error e => (.error e, db)

def commitRevocation (update : Id) : Nat × Database :=
  match db.updates.get? update with
  | none => (0, db)
  | some u => db.endUpdate u

def commitRotation (update : Id) (draft : Draft) : Except Failure String × Database :=
  match db.updates.get? update with
  | none => (.error tokenInvalid, db)
  | some u => (db.dropUpdate u).commit (db.rotate runtime u draft)

end Database

/-! ## 4. Statements -/

/-- Whether passkeys are switched on for a user that has some, and how many it has. -/
structure PasskeyState where
  active : Bool
  storedCount : Nat

/-- What a statement finds outside the two tables. -/
structure Surroundings where
  now : Nat
  lookupByEmail : String → Option Id
  isLocked : Id → Bool
  passkeyState : Id → PasskeyState
  verifyTotp : Id → String → Bool

inductive Statement
  | clock
  | findToken (tokenHash : String)
  | findUnrevoked (tokenHash : String)
  | findOwned (userId familyId : Id)
  | findUser (userId : Id)
  | findUserByEmail (email : String)
  | findUserByResetToken (tokenHash : String)
  | isLocked (userId : Id)
  | passkeyState (userId : Id)
  | verifyTotp (userId : Id) (code : String)
  | beginUpdate (criteria : Criteria)
  | commitRevocation (update : Id)
  | commitRotation (update : Id) (draft : Draft)
  | insertToken (draft : Draft)
  | setPassword (userId : Id) (passwordHash : String)

namespace Statement

/-- A token is found together with its user. -/
def Reply : Statement → Type
  | .clock => Nat
  | .findToken _ => Option (RefreshToken × Option User)
  | .findUnrevoked _ | .findOwned .. => Option RefreshToken
  | .findUser _ | .findUserByEmail _ | .findUserByResetToken _ => Option User
  | .isLocked _ | .verifyTotp .. => Bool
  | .passkeyState _ => PasskeyState
  | .beginUpdate _ => Id
  | .commitRevocation _ => Nat
  | .commitRotation .. | .insertToken _ => Except Failure String
  | .setPassword .. => Unit

variable (runtime : Runtime)

def exec : (q : Statement) → Surroundings → Database → q.Reply × Database
  | .clock, around, db => (around.now, db)
  | .findToken tokenHash, _, db =>
    ((db.tokens.values.find? (·.tokenHash = tokenHash)).map fun t => (t, db.users.get? t.userId),
      db)
  | .findUnrevoked tokenHash, _, db =>
    (db.tokens.values.find? fun t => t.tokenHash = tokenHash ∧ t.isRevoked = false, db)
  | .findOwned userId familyId, _, db =>
    (db.tokens.values.find? fun t => t.userId = userId ∧ t.familyId = familyId, db)
  | .findUser userId, _, db => (db.users.get? userId, db)
  | .findUserByEmail email, around, db => ((around.lookupByEmail email).bind db.users.get?, db)
  | .findUserByResetToken tokenHash, _, db =>
    (db.users.values.find? (·.passwordResetToken = some tokenHash), db)
  | .isLocked userId, around, db => (around.isLocked userId, db)
  | .passkeyState userId, around, db => (around.passkeyState userId, db)
  | .verifyTotp userId code, around, db => (around.verifyTotp userId code, db)
  | .beginUpdate criteria, _, db => db.beginUpdate criteria
  | .commitRevocation update, _, db => db.commitRevocation update
  | .commitRotation update draft, _, db => db.commitRotation runtime update draft
  | .insertToken draft, _, db => db.commit (db.insertToken runtime draft)
  | .setPassword userId passwordHash, _, db => ((), db.setPassword userId passwordHash)

end Statement

end Clemvion.Auth
