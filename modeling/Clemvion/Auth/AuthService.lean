import Clemvion.Auth.RefreshTokens
import Clemvion.Js.Text

/-!
# AuthService — sign-in, refresh, sign-out and the ending of sessions

`AuthService` and `SessionsService` as programs of statements.  The login history, the access
token with the workspace it names, and the device and address of a session are left out.
-/

namespace Clemvion.Auth

open Clemvion.Js Clemvion.Library Program

/-- An operation of one of the two services. -/
abbrev Service (α : Type) := Program Statement.Reply Failure α

namespace Service

def clock : Service Nat := send (Q := Statement) .clock

def findToken (tokenHash : String) : Service (Option (RefreshToken × Option User)) :=
  send (Q := Statement) (.findToken tokenHash)

def findUser (userId : Id) : Service (Option User) := send (Q := Statement) (.findUser userId)

/-- `refreshTokenRepository.update(criteria, { isRevoked: true })`, outside a transaction. -/
def revokeWhere (criteria : Criteria) : Service Nat := do
  let update ← send (Q := Statement) (.beginUpdate criteria)
  send (Q := Statement) (.commitRevocation update)

end Service

open Service

/-! ## 1. Passwords -/

/-- A string that is there and not empty. -/
def given (text : Option String) : Option String := text.filter (· ≠ "")

/-- How many of the four kinds of characters the password has. -/
def typesCount (password : String) : Nat :=
  [Char.isLower, Char.isUpper, Char.isDigit, fun c => ¬ c.isAlphanum].countP
    fun kind => password.toList.any kind

def validatePasswordStrength (password field : String) : Except Failure Unit :=
  if utf16Length password < 8 then
    .error (.rejected ⟨.badRequest, "VALIDATION_ERROR",
      some "Password must be at least 8 characters",
      [⟨field, "Minimum 8 characters required", "INVALID_FIELD"⟩]⟩)
  else if typesCount password < 3 then
    .error (.rejected ⟨.badRequest, "VALIDATION_ERROR", some
      "Password must contain at least 3 of: lowercase, uppercase, numbers, special characters",
      [⟨field, "Requires 3+ character types", "INVALID_FIELD"⟩]⟩)
  else .ok ()

/-! ## 2. SessionsService -/

def unauthenticated : Failure := .rejected ⟨.unauthorized, "UNAUTHENTICATED", none, []⟩

structure RevokeSessionDto where
  password : Option String
  totpCode : Option String

namespace SessionsService

variable (runtime : Runtime)

def resolveCurrentFamilyId (refreshToken : String) : Service (Option Id) :=
  if refreshToken = "" then return none
  else do
    let row ← send (Q := Statement) (.findUnrevoked (runtime.hashToken refreshToken))
    return row.map RefreshToken.familyId

def verifyReauth (user : User) (auth : RevokeSessionDto) : Service Unit := do
  require ((given user.passwordHash).isSome || user.twoFactorEnabled)
    (reject .forbidden "REAUTH_NOT_AVAILABLE"
      "이 작업을 하려면 먼저 비밀번호를 설정하거나 TOTP 를 켜야 해요.")
  match given user.passwordHash, given auth.password with
  | some passwordHash, some password =>
    require (runtime.comparePassword password passwordHash)
      (reject .unauthorized "PASSWORD_INVALID" "비밀번호가 일치하지 않아요.")
  | passwordHash, _ =>
    match user.twoFactorEnabled, given auth.totpCode with
    | true, some totpCode => do
      let userFull ← orReject unauthenticated (← findUser user.id)
      let ok ← send (Q := Statement) (.verifyTotp userFull.id totpCode)
      require ok (reject .unauthorized "TOTP_INVALID" "인증 코드가 올바르지 않아요.")
    | _, _ =>
      .done (.error (reject .badRequest "REAUTH_REQUIRED"
        (if passwordHash.isSome then "비밀번호 확인이 필요해요." else "2FA 코드 입력이 필요해요.")))

/-- The session that the request itself runs in is not ended so. -/
def assertNotCurrent (familyId : Id) (currentRefreshToken : Option String) : Service Unit :=
  match given currentRefreshToken with
  | none => return ()
  | some refreshToken => do
    let currentFamilyId ← resolveCurrentFamilyId runtime refreshToken
    require (currentFamilyId ≠ some familyId) (reject .badRequest "CANNOT_REVOKE_CURRENT_SESSION"
      "현재 세션은 강제 종료할 수 없어요. 로그아웃 버튼을 이용해 주세요.")

def revokeFamily (userId familyId : Id) (auth : RevokeSessionDto)
    (currentRefreshToken : Option String) : Service Unit := do
  let owned ← send (Q := Statement) (.findOwned userId familyId)
  require owned.isSome (reject .notFound "SESSION_NOT_FOUND" "해당 세션을 찾을 수 없어요.")
  assertNotCurrent runtime familyId currentRefreshToken
  let user ← orReject unauthenticated (← findUser userId)
  verifyReauth runtime user auth
  let _ ← revokeWhere { userId := some userId, familyId := some familyId }

def revokeOtherFamilies (userId : Id) (currentRefreshToken : String) (auth : RevokeSessionDto) :
    Service Nat := do
  let user ← orReject unauthenticated (← findUser userId)
  verifyReauth runtime user auth
  let currentFamilyId ← orReject (reject .badRequest "CURRENT_SESSION_REQUIRED"
    "현재 세션을 식별할 수 없어요. 다시 로그인 후 시도해 주세요.")
    (← resolveCurrentFamilyId runtime currentRefreshToken)
  revokeWhere
    { userId := some userId, isRevoked := some false, notFamilyId := some currentFamilyId }

def revokeAllFamilies (userId : Id) : Service Nat := do
  let _ ← orReject unauthenticated (← findUser userId)
  revokeWhere { userId := some userId, isRevoked := some false }

end SessionsService

/-! ## 3. AuthService -/

namespace AuthService

variable (runtime : Runtime)

def day : Nat := 24 * 60 * 60 * 1000

def refreshExpDays (rememberMe : Bool) : Nat := if rememberMe then 30 else 7

/-- Outside a transaction, and without a family given. -/
def generateTokens (user : User) (rememberMe : Bool) : Service Unit := do
  let now ← clock
  let inserted ← send (Q := Statement)
    (.insertToken ⟨user.id, none, now + refreshExpDays rememberMe * day, rememberMe⟩)
  let _ ← .done inserted

def loginFailed : Failure := reject .unauthorized "LOGIN_FAILED" "Invalid email or password"

/-- Of the failed and the successful attempts nothing is counted here. -/
def login (email password : String) (rememberMe : Bool) : Service Unit := do
  let user ← orReject loginFailed (← send (Q := Statement) (.findUserByEmail email))
  let locked ← send (Q := Statement) (.isLocked user.id)
  require (!locked)
    (reject .unauthorized "ACCOUNT_LOCKED" "Account locked. Try again in 10 minutes.")
  let passwordHash ← orReject loginFailed (given user.passwordHash)
  require (runtime.comparePassword password passwordHash) loginFailed
  require user.emailVerified (reject .unauthorized "EMAIL_VERIFICATION_REQUIRED"
    "Please verify your email before logging in")
  let passkeys ← send (Q := Statement) (.passkeyState user.id)
  if passkeys.active || user.twoFactorEnabled then return ()
  else do
    require (passkeys.storedCount = 0) (reject .serviceUnavailable "WEBAUTHN_DISABLED"
      "Passkey 로그인이 이 서버에서 꺼져 있어요. 관리자에게 문의해 주세요.")
    generateTokens user rememberMe

/-- `issueTokensForOauthUser` is the same. -/
def issueTokensAfterMfa (user : User) (rememberMe : Bool) : Service Unit :=
  generateTokens user rememberMe

def logout (refreshToken : String) : Service Unit := do
  match ← findToken (runtime.hashToken refreshToken) with
  | none => return ()
  | some (stored, _) =>
    let _ ← revokeWhere { familyId := some stored.familyId }

/-- The transaction of a refresh; what it inserts takes over the family and the login. -/
def rotate (stored : RefreshToken) (user : User) : Service Unit := do
  let now ← clock
  let update ← send (Q := Statement) (.beginUpdate
    { id := some stored.id, isRevoked := some false, expiresAfter := some now })
  let issued ← clock
  let rotated ← send (Q := Statement) (.commitRotation update ⟨user.id, some stored.familyId,
    issued + refreshExpDays stored.rememberMe * day, stored.rememberMe⟩)
  let _ ← .done rotated

def refresh (refreshToken : String) : Service Unit := do
  let (stored, owner) ← orReject Database.tokenInvalid
    (← findToken (runtime.hashToken refreshToken))
  if stored.isRevoked then do
    -- reuse detection
    let _ ← revokeWhere { familyId := some stored.familyId }
    .done (.error (reject .unauthorized "TOKEN_INVALID"
      "Refresh token reuse detected. All sessions revoked."))
  else do
    let now ← clock
    require (now ≤ stored.expiresAt)
      (reject .unauthorized "TOKEN_EXPIRED" "Refresh token expired")
    let user ← orReject Database.tokenInvalid owner
    rotate stored user

def resetPassword (token newPassword : String) : Service Unit := do
  .done (validatePasswordStrength newPassword "newPassword")
  let user ← orReject (reject .badRequest "VALIDATION_ERROR" "Invalid or expired reset token")
    (← send (Q := Statement) (.findUserByResetToken (runtime.hashToken token)))
  let now ← clock
  require (user.passwordResetExpiresAt.all (now ≤ ·))
    (reject .badRequest "VALIDATION_ERROR" "Reset token has expired")
  send (Q := Statement) (.setPassword user.id (runtime.hashPassword newPassword))
  let _ ← revokeWhere { userId := some user.id }

def rotateSessionAfterPasswordChange (userId : Id) : Service Unit := do
  let _ ← SessionsService.revokeAllFamilies userId
  let user ← orReject unauthenticated (← findUser userId)
  generateTokens user false

end AuthService

/-! ## 4. Requests -/

inductive Request
  | login (email password : String) (rememberMe : Bool)
  | issueTokensAfterMfa (user : User) (rememberMe : Bool)
  | logout (refreshToken : String)
  | refresh (refreshToken : String)
  | revokeFamily (userId familyId : Id) (auth : RevokeSessionDto)
      (currentRefreshToken : Option String)
  | revokeOtherFamilies (userId : Id) (currentRefreshToken : String) (auth : RevokeSessionDto)
  | resetPassword (token newPassword : String)
  | rotateSessionAfterPasswordChange (userId : Id)

def Request.program (runtime : Runtime) : Request → Service Unit
  | .login email password rememberMe => AuthService.login runtime email password rememberMe
  | .issueTokensAfterMfa user rememberMe => AuthService.issueTokensAfterMfa user rememberMe
  | .logout refreshToken => AuthService.logout runtime refreshToken
  | .refresh refreshToken => AuthService.refresh runtime refreshToken
  | .revokeFamily userId familyId auth currentRefreshToken =>
    SessionsService.revokeFamily runtime userId familyId auth currentRefreshToken
  | .revokeOtherFamilies userId currentRefreshToken auth => do
    let _ ← SessionsService.revokeOtherFamilies runtime userId currentRefreshToken auth
  | .resetPassword token newPassword => AuthService.resetPassword runtime token newPassword
  | .rotateSessionAfterPasswordChange userId =>
    AuthService.rotateSessionAfterPasswordChange userId

/-- The two services over one database. -/
def server (runtime : Runtime) :
    Server Statement Statement.Reply Failure Database Surroundings Request where
  exec := Statement.exec runtime
  program := Request.program runtime

/-- The tables, and the requests half way. -/
abbrev World := Clemvion.Library.World Statement.Reply Failure Database Request

end Clemvion.Auth
