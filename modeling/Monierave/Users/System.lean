import Monierave.ReadCommitted.Machine
import Monierave.Users.Profiles

/-! # Users and sessions as a system of transactions

The requests that concern a user and the calls of the store they make.
-/

namespace Monierave

open Relational ReadCommitted Prog

/-- The database transactions. A session is created for a caller that has checked
a password against the row `checked`, or by a direct call of the store. -/
inductive UserTx
  | getUser (username : String)
  | recordLoginFailure (env : Env) (username reason : String)
  | createExclusiveSession (env : Env) (arg : CreateSessionParams) (checked : Option User)
  | rotateRefreshToken (env : Env) (arg : RotateRefreshTokenTxParams)
  | revokeSession (env : Env) (arg : RevokeSessionTxParams)
  | revokeAllUserSessions (env : Env) (username reason eventType : String)
  | createUser (env : Env) (arg : CreateUserParams)
  | updateUser (env : Env) (arg : UpdateUserTxParams)
  | requestEmailVerification (env : Env) (username : String)
  | setEmailJobVerificationToken (arg : SetEmailJobVerificationTokenParams)
  | getEmailJobByVerificationTokenHash (hash : Bytes)
  | verifyUserEmail (env : Env) (arg : VerifyUserEmailTxParams)
  | processEmailDeliveryEvent (env : Env) (arg : ProcessEmailDeliveryEventParams)
  | disableExpiredPendingUser (now : Timestamp) (username : String)
  | disableExpiredPendingUsers (now : Timestamp)

inductive UserResponse
  | found (user : Option User)
  | session (session : Session)
  | rotation (rotation : Rotation)
  | created (result : CreateUserTxResult)
  | updated (result : UpdateUserTxResult)
  | requested (result : RequestEmailVerificationTxResult)
  | job (job : Option EmailJob)
  | user (user : User)
  | delivery (result : ProcessEmailDeliveryEventResult)
  | done

/-- `RecordLoginFailure`. -/
def recordLoginFailure (env : Env) (username reason : String) : Tx AuditLog :=
  createFinancialAudit env {
    entityType := .authenticationAttempt
    entityID := some (env.uuid 0)
    correlationID := some (env.uuid 0)
    eventType := "login_failed"
    actor := if username = "" then "anonymous" else username
    toState := "rejected"
    message := reason }

def UserTx.body : UserTx → Tx UserResponse
  | getUser username => do pure (.found (← call (Monierave.getUser username)))
  | recordLoginFailure env username reason => do
    let _ ← Monierave.recordLoginFailure env username reason
    pure .done
  | createExclusiveSession env arg _ => do pure (.session (← createExclusiveSessionTx env arg))
  | rotateRefreshToken env arg => do pure (.rotation (← rotateRefreshTokenTx env arg))
  | revokeSession env arg => do
    revokeSessionTx env arg
    pure .done
  | revokeAllUserSessions env username reason eventType => do
    revokeAllUserSessionsTx env username reason eventType
    pure .done
  | createUser env arg => do pure (.created (← createUserTx env arg))
  | updateUser env arg => do pure (.updated (← updateUserTx env arg))
  | requestEmailVerification env username => do
    pure (.requested (← requestEmailVerificationTx env username))
  | setEmailJobVerificationToken arg => do
    pure (.job (← call (Monierave.setEmailJobVerificationToken arg)))
  | getEmailJobByVerificationTokenHash hash => do
    pure (.job (← call (Monierave.getEmailJobByVerificationTokenHash hash)))
  | verifyUserEmail env arg => do pure (.user (← verifyUserEmailTx env arg))
  | processEmailDeliveryEvent env arg => do
    pure (.delivery (← processEmailDeliveryEventTx env arg))
  | disableExpiredPendingUser now username => do
    let _ ← call (Monierave.disableExpiredPendingUser now username)
    pure .done
  | disableExpiredPendingUsers now => do
    let _ ← Monierave.disableExpiredPendingUsers now
    pure .done

abbrev UserJob := Job UserTx UserResponse Err

def minPasswordRunes : Nat := 8

def maxPasswordBytes : Nat := 72

def validateNewPassword (password : String) : Except Err Unit :=
  if password.length < minPasswordRunes ∨ password.utf8ByteSize > maxPasswordBytes then
    .error .invalidPasswordLength
  else .ok ()

structure LoginUserRequest where
  username : String
  password : String

/-- `draw` holds the ids, token hashes and the expiry the handler draws for the
new session. -/
def loginUserJob (check : String → String → Bool) (req : LoginUserRequest)
    (draw : CreateSessionParams) (env auditEnv : Env) : UserJob :=
  match validateNewPassword req.password with
  | .error e => .done (.error e)
  | .ok () =>
    let username := Unicode.lower req.username
    let rejected (reason : String) : UserJob :=
      .tx (.recordLoginFailure auditEnv username reason) fun _ =>
        .done (.error .invalidCredentials)
    .tx (.getUser username) fun
      | .ok (.found none) => rejected "unknown_user"
      | .ok (.found (some user)) =>
        if check req.password user.hashedPassword then
          .tx (.createExclusiveSession env { draw with username := user.username } (some user))
            .done
        else rejected "invalid_password"
      | x => .done x

structure UpdateUserRequest where
  currentPassword : Option String
  password : Option String
  fullName : Option String
  email : Option String

def normalizeEmail (email : String) : String := Unicode.lower (trimSpace email)

namespace UpdateUserRequest

def emailChanged (req : UpdateUserRequest) (current : User) : Bool :=
  match req.email with
  | none => false
  | some email => !Unicode.equalFold (normalizeEmail email) current.email

def sensitive (req : UpdateUserRequest) (current : User) : Bool :=
  req.password.isSome || req.emailChanged current

/-- The arguments of the store call; `hash` is the hash of a new password. -/
def params (req : UpdateUserRequest) (username : String) (current : User)
    (hash : Option String) : UpdateUserTxParams :=
  let emailChanged := req.emailChanged current
  { username := username
    hashedPassword := hash
    fullName := req.fullName.map trimSpace
    email := req.email.map normalizeEmail
    revokeSessions := hash.isSome || emailChanged
    sessionRevocationReason :=
      if emailChanged then "email_changed" else if hash.isSome then "password_changed" else ""
    sessionAuditEvent :=
      if emailChanged then "sessions_revoked_email_change"
      else if hash.isSome then "sessions_revoked_password_change" else "" }

end UpdateUserRequest

/-- What the handler does once the password check is behind it. `newHash` is the
hash of the new password, or why it was not accepted. -/
def applyUpdateJob (req : UpdateUserRequest) (username : String) (current : User)
    (newHash : Except Err String) (env : Env) : UserJob :=
  match req.password with
  | none => .tx (.updateUser env (req.params username current none)) .done
  | some password =>
    match validateNewPassword password, newHash with
    | .error e, _ => .done (.error e)
    | .ok (), .error e => .done (.error e)
    | .ok (), .ok hash => .tx (.updateUser env (req.params username current (some hash))) .done

def updateUserJob (check : String → String → Bool) (username : String) (req : UpdateUserRequest)
    (newHash : Except Err String) (env : Env) : UserJob :=
  if req.fullName.any fun name => (trimSpace name).length < 1 || 100 < (trimSpace name).length then
    .done (.error .invalidFullName)
  else
    .tx (.getUser username) fun
      | .ok (.found none) => .done (.error .userNotFound)
      | .ok (.found (some current)) =>
        if req.sensitive current then
          match req.currentPassword with
          | none => .done (.error .currentPasswordRequired)
          | some password =>
            if check password current.hashedPassword then
              applyUpdateJob req username current newHash env
            else .done (.error .invalidCredentials)
        else applyUpdateJob req username current newHash env
      | x => .done x

/-- `confirmUserEmail`, for the hash of the token in the request. -/
def confirmUserEmailJob (tokenHash : Bytes) (clock : Timestamp) (env : Env) : UserJob :=
  .tx (.getEmailJobByVerificationTokenHash tokenHash) fun
    | .ok (.job none) => .done (.error .invalidToken)
    | .ok (.job (some job)) =>
      if job.tokenLive clock then
        .tx (.verifyUserEmail env ⟨job.username, job.recipient, job.id, tokenHash⟩) .done
      else .done (.error .expiredToken)
    | x => .done x

/-- Requests, and direct calls of the store. -/
inductive UserOp
  | loginUser (req : LoginUserRequest) (draw : CreateSessionParams) (env auditEnv : Env)
  | updateUser (username : String) (req : UpdateUserRequest) (newHash : Except Err String)
      (env : Env)
  | confirmUserEmail (tokenHash : Bytes) (clock : Timestamp) (env : Env)
  | createExclusiveSessionTx (arg : CreateSessionParams) (env : Env)
  | rotateRefreshTokenTx (arg : RotateRefreshTokenTxParams) (env : Env)
  | revokeSessionTx (arg : RevokeSessionTxParams) (env : Env)
  | revokeAllUserSessionsTx (username reason eventType : String) (env : Env)
  | createUserTx (arg : CreateUserParams) (env : Env)
  | updateUserTx (arg : UpdateUserTxParams) (env : Env)
  | requestEmailVerificationTx (username : String) (env : Env)
  | setEmailJobVerificationToken (arg : SetEmailJobVerificationTokenParams)
  | processEmailDeliveryEventTx (arg : ProcessEmailDeliveryEventParams) (env : Env)
  | disableExpiredPendingUser (now : Timestamp) (username : String)
  | disableExpiredPendingUsers (now : Timestamp)

def UserOp.job (check : String → String → Bool) : UserOp → UserJob
  | loginUser req draw env auditEnv => loginUserJob check req draw env auditEnv
  | updateUser username req newHash env => updateUserJob check username req newHash env
  | confirmUserEmail tokenHash clock env => confirmUserEmailJob tokenHash clock env
  | createExclusiveSessionTx arg env => .tx (.createExclusiveSession env arg none) .done
  | rotateRefreshTokenTx arg env =>
    .tx (.rotateRefreshToken env arg) fun
      | .ok (.rotation .reused) => .done (.error .refreshTokenReuse)
      | x => .done x
  | revokeSessionTx arg env => .tx (.revokeSession env arg) .done
  | revokeAllUserSessionsTx username reason eventType env =>
    .tx (.revokeAllUserSessions env username reason eventType) .done
  | createUserTx arg env => .tx (.createUser env arg) .done
  | updateUserTx arg env => .tx (.updateUser env arg) .done
  | requestEmailVerificationTx username env => .tx (.requestEmailVerification env username) .done
  | setEmailJobVerificationToken arg => .tx (.setEmailJobVerificationToken arg) .done
  | processEmailDeliveryEventTx arg env => .tx (.processEmailDeliveryEvent env arg) .done
  | disableExpiredPendingUser now username => .tx (.disableExpiredPendingUser now username) .done
  | disableExpiredPendingUsers now => .tx (.disableExpiredPendingUsers now) .done

def userSystem (check : String → String → Bool) :
    System Write DB LockKey Err UserTx UserResponse UserOp where
  body := UserTx.body
  job := UserOp.job check

abbrev UserState := State Write DB LockKey Err UserTx UserResponse UserOp

abbrev UserAction := Action Err UserOp

def userRun (check : String → String → Bool) (db₀ : DB) (acts : List UserAction) : UserState :=
  (userSystem check).run (State.init db₀) acts

theorem userRun_append (check : String → String → Bool) (db₀ : DB) (acts later : List UserAction) :
    userRun check db₀ (acts ++ later) = (userSystem check).run (userRun check db₀ acts) later :=
  (userSystem check).run_append _ _ _

theorem userRun_snoc (check : String → String → Bool) (db₀ : DB) (acts : List UserAction)
    (act : UserAction) :
    userRun check db₀ (acts ++ [act]) = (userSystem check).step (userRun check db₀ acts) act :=
  (userSystem check).run_snoc _ _ _

end Monierave
