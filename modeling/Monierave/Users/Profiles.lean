import Monierave.Queries.Emails
import Monierave.Users.Sessions

/-! # User transactions

Registration, profile changes and the verification of email addresses.
-/

namespace Monierave

open Relational ReadCommitted Prog

def outboxEventTypeEmailReady : String := "email_job.ready"

/-- A verification email with its outbox event, with the `n`-th fresh UUID as the
id of the job and the next one as that of the event. -/
def createVerificationEmailJob (env : Env) (n : Nat) (username recipient : String) :
    Tx (EmailJob × OutboxEvent) := do
  let jobID := env.uuid n
  let job ← call (createEmailJob env.now {
    id := jobID
    username := username
    recipient := recipient
    payload := .verifyEmail })
  let event ← call (createOutboxEvent env.now {
    id := env.uuid (n + 1)
    emailJobID := jobID
    eventType := outboxEventTypeEmailReady
    correlationID := some jobID
    entityType := .emailJob
    entityID := some jobID })
  pure (job, event)

structure CreateUserTxResult where
  user : User
  job : EmailJob
  event : OutboxEvent

def createUserTx (env : Env) (arg : CreateUserParams) : Tx CreateUserTxResult := do
  let user ← call (createUser env.now arg)
  let (job, event) ← createVerificationEmailJob env 0 user.username user.email
  pure ⟨user, job, event⟩

structure UpdateUserTxParams extends UpdateUserParams where
  revokeSessions : Bool := false
  sessionRevocationReason : String := ""
  sessionAuditEvent : String := ""

structure UpdateUserTxResult where
  user : User
  emailChanged : Bool
  job : Option (EmailJob × OutboxEvent)

def requestVerificationIf (env : Env) (emailChanged : Bool) (user : User) :
    Tx (Option (EmailJob × OutboxEvent)) :=
  if emailChanged then do
    let job ← createVerificationEmailJob env 0 user.username user.email
    pure (some job)
  else pure none

def updateUserTx (env : Env) (arg : UpdateUserTxParams) : Tx UpdateUserTxResult := do
  let current ← fetch .noRows (getUser arg.username)
  let user ← fetch .noRows (updateUser env.now arg.toUpdateUserParams)
  let emailChanged := !Unicode.equalFold current.email user.email
  let job ← requestVerificationIf env emailChanged user
  if arg.revokeSessions then do
    let reason := if arg.sessionRevocationReason = "" then "security_profile_changed"
      else arg.sessionRevocationReason
    let auditEvent := if arg.sessionAuditEvent = "" then "sessions_revoked_security_profile_change"
      else arg.sessionAuditEvent
    let sessions ← revokeAllUserSessions env.now user.username (textValue reason)
    auditRevokedSessions env auditEvent sessions
    pure ⟨user, emailChanged, job⟩
  else pure ⟨user, emailChanged, job⟩

structure VerifyUserEmailTxParams where
  username : String
  email : String
  jobID : UUID
  tokenHash : Bytes

def verifyUserEmailTx (env : Env) (arg : VerifyUserEmailTxParams) : Tx User := do
  let job ← fetch .emailVerificationJobMismatch (getEmailJobForUpdate arg.jobID)
  refuse (job.username ≠ arg.username ∨ ¬ Unicode.equalFold job.recipient arg.email = true)
    .emailVerificationJobMismatch
  refuse (¬ job.tokenLive env.clock = true) .emailVerificationTokenExpired
  refuse (¬ constantTimeHashEqual job.tokenHash arg.tokenHash = true)
    .emailVerificationJobMismatch
  let user ← fetch .noRows (getUserForUpdate arg.username)
  refuse (¬ Unicode.equalFold user.email arg.email = true) .emailVerificationAddressStale
  refuse (user.accountStatus = .disabled) .registrationDisabled
  refuse (user.emailDeliverabilityStatus = .undeliverable) .emailAddressUndeliverable
  if user.accountStatus = .active ∧ user.emailVerifiedAt.isSome then pure user
  else do
    let result ← fetch .noRows (markUserEmailVerified env.now arg.username arg.email)
    let _ ← call (createAuditLog env.now {
      entityType := .emailJob
      entityID := some job.id
      correlationID := some job.id
      eventType := "email_verified"
      actor := "user"
      fromState := textValue user.accountStatus.text
      toState := textValue UserAccountStatus.active.text
      message := none })
    pure result

def emailVerificationRequestCooldown : Int := 60000000

structure RequestEmailVerificationTxResult where
  user : User
  job : EmailJob
  event : OutboxEvent

def requestEmailVerificationTx (env : Env) (username : String) :
    Tx RequestEmailVerificationTxResult := do
  let user ← fetch .noRows (getUserForUpdate username)
  refuse (user.emailVerifiedAt.isSome ∧ user.accountStatus = .active) .emailAlreadyVerified
  refuse (user.emailDeliverabilityStatus = .undeliverable) .emailAddressUndeliverable
  let latest ← call (getLatestEmailJobForCurrentAddress username)
  refuse (latest.any (fun j => decide (env.clock - j.createdAt < emailVerificationRequestCooldown))
    = true) .emailVerificationCooldown
  let result ← fetch .noRows (restartUserEmailVerification env.now username)
  let (job, event) ← createVerificationEmailJob env 0 result.username result.email
  pure ⟨result, job, event⟩

def disableScannedUsers (now : Timestamp) : List String → Tx Nat
  | [] => pure 0
  | username :: usernames => do
    let user ← call (disableExpiredPendingUser now username)
    let others ← disableScannedUsers now usernames
    pure (user.toList.length + others)

def disableExpiredPendingUsers (now : Timestamp) : Tx Nat := do
  let usernames ← call (findExpiredPendingUsers now)
  disableScannedUsers now usernames

structure ProcessEmailDeliveryEventParams where
  webhookID : String
  eventType : String
  providerMessageID : String
  jobID : Option UUID
  occurredAt : Timestamp
  deliveryStatus : Option EmailDeliveryStatus
  bounceType : String

structure ProcessEmailDeliveryEventResult where
  job : Option EmailJob
  duplicate : Bool := false
  jobMatched : Bool
  stateUpdated : Bool := false
  userStateUpdated : Bool := false

/-- The job a report is about: the one the provider's id belongs to, or the one
the report names, unless it went out under another id. -/
def findEmailJobForDeliveryEvent (arg : ProcessEmailDeliveryEventParams) :
    Tx (Option UUID × Option EmailJob) := do
  match ← call (getEmailJobByProviderMessageIDForUpdate arg.providerMessageID) with
  | some job => pure (some job.id, some job)
  | none =>
    match arg.jobID with
    | none => pure (none, none)
    | some id => do
      match ← call (getEmailJobForUpdate id) with
      | none => pure (some id, none)
      | some job =>
        if job.providerMessageID.any fun p => p != arg.providerMessageID then
          pure (some id, none)
        else pure (some job.id, some job)

namespace EmailDeliveryStatus

def recognized : EmailDeliveryStatus → Bool
  | pending => false
  | _ => true

def terminal : EmailDeliveryStatus → Bool
  | bounced | failed | suppressed | complained => true
  | _ => false

end EmailDeliveryStatus

/-- `canApplyEmailDeliveryTransition`. -/
def canApplyEmailDeliveryTransition (current next : EmailDeliveryStatus)
    (currentOccurredAt : Option Timestamp) (nextOccurredAt : Timestamp) : Bool :=
  if current = next then false
  else if currentOccurredAt.any fun at_ => !decide (at_ < nextOccurredAt) then false
  else
    match current with
    | .pending => next.recognized
    | .accepted => next == .delayed || next == .delivered || next.terminal
    | .delayed => next == .delivered || next.terminal
    | .delivered => next == .complained
    | _ => false

def permanentBounce (arg : ProcessEmailDeliveryEventParams) : Bool :=
  Unicode.equalFold arg.bounceType "permanent"

def userDeliverabilityForEvent (arg : ProcessEmailDeliveryEventParams) :
    Option EmailDeliverabilityStatus :=
  match arg.deliveryStatus with
  | some .delivered => some .deliverable
  | some .suppressed => some .undeliverable
  | some .complained => some .undeliverable
  | some .bounced => if permanentBounce arg then some .undeliverable else none
  | _ => none

def bounceTimestamp (arg : ProcessEmailDeliveryEventParams) : Option Timestamp :=
  if arg.deliveryStatus = some .bounced ∧ permanentBounce arg then some arg.occurredAt else none

def reportToUser (env : Env) (arg : ProcessEmailDeliveryEventParams) (job : EmailJob) : Tx Bool :=
  match userDeliverabilityForEvent arg with
  | none => pure false
  | some status => do
    let user ← call (updateCurrentUserEmailDeliverability env.now {
      username := job.username
      recipient := job.recipient
      deliverabilityStatus := status
      occurredAt := arg.occurredAt
      bouncedAt := bounceTimestamp arg })
    pure user.isSome

def processEmailDeliveryEventTx (env : Env) (arg : ProcessEmailDeliveryEventParams) :
    Tx ProcessEmailDeliveryEventResult := do
  let (jobID, matched) ← findEmailJobForDeliveryEvent arg
  let event ← call (createEmailDeliveryEvent
    ⟨arg.webhookID, jobID, arg.providerMessageID, arg.eventType, arg.occurredAt⟩)
  match event, matched, arg.deliveryStatus with
  | none, _, _ => pure { job := matched, jobMatched := matched.isSome, duplicate := true }
  | some _, none, _ => pure { job := matched, jobMatched := false }
  | some _, some _, none => pure { job := matched, jobMatched := true }
  | some _, some job, some status =>
    if canApplyEmailDeliveryTransition job.deliveryStatus status job.deliveryEventAt
        arg.occurredAt then do
      match ← call (updateEmailJobDelivery job.id arg.providerMessageID status arg.occurredAt) with
      | none => pure { job := none, jobMatched := true }
      | some updated => do
        let userStateUpdated ← reportToUser env arg job
        let _ ← call (createAuditLog env.now {
          entityType := .emailJob
          entityID := some job.id
          correlationID := some job.id
          eventType := arg.eventType
          actor := "resend_webhook"
          fromState := textValue job.deliveryStatus.text
          toState := textValue status.text
          message := none })
        pure {
          job := some updated
          jobMatched := true
          stateUpdated := true
          userStateUpdated := userStateUpdated }
    else pure { job := matched, jobMatched := true }

end Monierave
