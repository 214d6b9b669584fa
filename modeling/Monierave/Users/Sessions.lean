import Monierave.Banking.Support
import Monierave.Queries.Sessions
import Monierave.Queries.Users

/-! # Session transactions

A login replaces every session its user still has.
-/

namespace Monierave

open Relational ReadCommitted Prog

/-- `constantTimeHashEqual`. -/
def constantTimeHashEqual (expected actual : Bytes) : Bool :=
  expected.length == actual.length && expected == actual

theorem constantTimeHashEqual_iff {expected actual : Bytes} :
    constantTimeHashEqual expected actual = true ↔ expected = actual := by
  simp only [constantTimeHashEqual, Bool.and_eq_true, beq_iff_eq]
  exact ⟨fun h => h.2, fun h => ⟨by rw [h], h⟩⟩

def createSessionAudit (env : Env) (session : Session) (eventType actor fromState toState : String) :
    Tx AuditLog :=
  call (createAuditLog env.now {
    entityType := .session
    entityID := some session.id
    correlationID := some session.id
    eventType := eventType
    actor := actor
    fromState := textValue fromState
    toState := textValue toState
    message := none })

def revokeScannedSessions (now : Timestamp) (username : String) (reason : Option String) :
    List UUID → Tx (List Session)
  | [] => pure []
  | id :: ids => do
    let session ← call (revokeActiveSession now username reason id)
    let others ← revokeScannedSessions now username reason ids
    pure (session.toList ++ others)

def revokeAllUserSessions (now : Timestamp) (username : String) (reason : Option String) :
    Tx (List Session) := do
  let ids ← call (findActiveSessions username)
  revokeScannedSessions now username reason ids

def auditRevokedSessions (env : Env) (eventType : String) : List Session → Tx Unit
  | [] => pure ()
  | session :: sessions => do
    let _ ← createSessionAudit env session eventType "user" "active" "revoked"
    auditRevokedSessions env eventType sessions

def createExclusiveSessionTx (env : Env) (arg : CreateSessionParams) : Tx Session := do
  let _ ← fetch .noRows (getUserForUpdate arg.username)
  let replaced ← revokeAllUserSessions env.now arg.username (textValue "replaced_by_new_login")
  auditRevokedSessions env "session_replaced_by_login" replaced
  let result ← call (createSession env.now arg)
  let _ ← createSessionAudit env result "session_created" "user" "" "active"
  let _ ← createFinancialAudit env {
    entityType := .session
    entityID := some result.id
    correlationID := some result.id
    eventType := "login_succeeded"
    actor := result.username
    toState := "authenticated" }
  pure result

/-- `ValidateSession`, which reads the session without a lock. -/
def validateSession (clock : Timestamp) (id : UUID) (username : String)
    (deviceTokenHash : Bytes) : Tx Unit := do
  let session ← fetch .noRows (getSession id)
  refuse (session.username ≠ username) .sessionMismatch
  refuse (session.revoked = true) .sessionRevoked
  refuse (¬ clock < session.expiresAt) .sessionExpired
  refuse (¬ constantTimeHashEqual session.deviceTokenHash deviceTokenHash = true) .deviceMismatch

structure RotateRefreshTokenTxParams where
  sessionID : UUID
  username : String
  presentedTokenHash : Bytes
  presentedRefreshID : UUID
  presentedDeviceHash : Bytes
  newTokenHash : Bytes
  newRefreshID : UUID

/-- How a rotation ends that commits. -/
inductive Rotation
  | rotated (session : Session)
  | reused

def RotateRefreshTokenTxParams.matches (arg : RotateRefreshTokenTxParams) (s : Session) : Bool :=
  constantTimeHashEqual s.refreshTokenHash arg.presentedTokenHash &&
    s.refreshTokenID == arg.presentedRefreshID

def rotateRefreshTokenTx (env : Env) (arg : RotateRefreshTokenTxParams) : Tx Rotation := do
  let session ← fetch .noRows (getSessionForUpdate arg.sessionID)
  refuse (session.username ≠ arg.username) .sessionMismatch
  refuse (session.revoked = true) .sessionRevoked
  refuse (¬ env.clock < session.expiresAt) .sessionExpired
  refuse (¬ constantTimeHashEqual session.deviceTokenHash arg.presentedDeviceHash = true)
    .deviceMismatch
  if arg.matches session then do
    let result ← fetch .noRows
      (rotateSessionRefreshToken env.now arg.sessionID arg.newTokenHash arg.newRefreshID)
    let _ ← createSessionAudit env result "refresh_token_rotated" "user" "active" "active"
    pure (.rotated result)
  else do
    -- the revocation is committed, and the caller is told about the reuse all the same
    let _ ← fetch .noRows
      (revokeSession env.now arg.sessionID (textValue "refresh_token_reuse"))
    let _ ← createSessionAudit env session "refresh_token_reuse_detected" "security" "active"
      "revoked"
    pure .reused

structure RevokeSessionTxParams where
  id : UUID
  deviceTokenHash : Bytes
  reason : String
  actor : String

def revokeSessionTx (env : Env) (arg : RevokeSessionTxParams) : Tx Unit := do
  match ← call (getSessionForUpdate arg.id) with
  | none => pure ()
  | some current => do
    refuse (¬ constantTimeHashEqual current.deviceTokenHash arg.deviceTokenHash = true)
      .deviceMismatch
    match ← call (revokeSession env.now arg.id (textValue arg.reason)) with
    | none => pure ()
    | some session => do
      let _ ← createSessionAudit env session "session_logged_out" arg.actor "active" "revoked"
      pure ()

def revokeAllUserSessionsTx (env : Env) (username reason eventType : String) : Tx Unit := do
  let sessions ← revokeAllUserSessions env.now username (textValue reason)
  auditRevokedSessions env eventType sessions

end Monierave
