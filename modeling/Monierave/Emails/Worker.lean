import Monierave.Emails.Calls

/-! # The email worker

`worker/task_send_verify_email.go` and the error handler of `worker/processor.go`.
-/

namespace Monierave

open Processes

structure TaskError where
  skipRetry : Bool
  text : String
  deriving DecidableEq

namespace TaskError

def skip (text : String) : TaskError := ⟨true, text ++ ": skip retry for the task"⟩

def retry (text : String) : TaskError := ⟨false, text⟩

end TaskError

/-- The JSON a task carries. -/
inductive TaskPayload
  | email (payload : PayloadSendEmail)
  | other (text : String)

structure Processor where
  parseUUID : String → Except String UUID
  queryEscape : String → String
  formatTime : Timestamp → String
  publicAPIURL : String
  emailVerificationDuration : Int
  /-- There is a maker of verification tokens. -/
  emailVerificationMaker : Bool

def trimRightSlashes (s : String) : String :=
  String.ofList (s.toList.reverse.dropWhile (· == '/')).reverse

def setMember (key value : String) (members : List (String × String)) : List (String × String) :=
  (key, value) :: members.filter fun m => m.1 ≠ key

/-- `json.Unmarshal` into a map; null gives an empty one. -/
def JobPayload.decode : JobPayload → Except String (List (String × String))
  | null => .ok []
  | object members => .ok members
  | other text => .error text

def safeEmailSendError (err : SendError) : String :=
  if err.permanent then "permanent email delivery failure" else "temporary email delivery failure"

namespace Processor

variable (p : Processor)

def withLink (value : String) (expiresAt : Timestamp) (members : List (String × String)) :
    JobPayload :=
  .object (setMember "verification_expires_at" (p.formatTime expiresAt)
    (setMember "verification_url"
      (trimRightSlashes p.publicAPIURL ++ "/users/verify-email?token=" ++ p.queryEscape value)
      members))

def verificationEmailPayload (job : EmailJobRow) (jobID : String) :
    Process (Except String JobPayload) :=
  if p.emailVerificationMaker then do
    match ← Process.createToken jobID with
    | .error err => pure (.error err)
    | .ok value => do
      match ← Process.hashToken value with
      | .error err => pure (.error err)
      | .ok tokenHash => do
        let expiresAt := job.createdAt + p.emailVerificationDuration
        match ← Process.setEmailJobVerificationToken job.id tokenHash expiresAt with
        | .error err => pure (.error ("persist verification token hash: " ++ err.text))
        | .ok _ =>
          match job.payload.decode with
          | .error err => pure (.error ("decode email job payload: " ++ err))
          | .ok members => pure (.ok (p.withLink value expiresAt members))
  else pure (.ok job.payload)

def sendEmailJob (job : EmailJobRow) (jobID : String) : Process (Except SendError String) :=
  if job.jobType = "" ∨ job.jobType = emailJobTypeVerifyEmail then do
    match ← p.verificationEmailPayload job jobID with
    | .error err => pure (.error ⟨true, "create verification email link: " ++ err⟩)
    | .ok payload =>
      Process.sendVerificationEmail ⟨jobID, job.username, job.recipient, payload⟩
  else if job.jobType = emailJobTypeFinancialNotification then
    Process.sendFinancialNotification ⟨jobID, job.username, job.recipient, job.payload⟩
  else pure (.error ⟨true, "unsupported email job type " ++ job.jobType⟩)

def sendFailed (jobID : UUID) (job : EmailJobRow) (sendErr : SendError) :
    Process (Option TaskError) := do
  let safeError := safeEmailSendError sendErr
  if sendErr.permanent ∨ job.maxAttempts ≤ job.attemptCount then
    match ← Process.markEmailJobDeadLetter jobID safeError with
    | .error err =>
      pure (some (.retry ("persist dead-letter state after send failure: " ++ err.text)))
    | .ok _ =>
      if sendErr.permanent then pure (some (.skip safeError))
      else pure (some (.retry "email delivery retries exhausted"))
  else
    match ← Process.markEmailJobRetrying jobID safeError with
    | .error err => pure (some (.retry ("persist retrying state after send failure: " ++ err.text)))
    | .ok _ => pure (some (.retry safeError))

/-- The attempt with the row that `StartEmailJobAttempt` has returned. -/
def attempt (jobID : UUID) (job : EmailJobRow) (jobIDText : String) :
    Process (Option TaskError) := do
  match ← p.sendEmailJob job jobIDText with
  | .error sendErr => sendFailed jobID job sendErr
  | .ok providerMessageID => do
    match ← Process.markEmailJobSent jobID providerMessageID with
    | .error err => pure (some (.retry ("persist sent email job: " ++ err.text)))
    | .ok _ => pure none

def processTaskSendEmail (task : TaskPayload) : Process (Option TaskError) :=
  match task with
  | .other _ => pure (some (.skip "failed to unmarshal payload"))
  | .email payload =>
    match p.parseUUID payload.jobID with
    | .error err => pure (some (.skip ("invalid email job ID: " ++ err)))
    | .ok jobID => do
      match ← Process.getEmailJob jobID with
      | .error .noRows => pure (some (.skip "email job does not exist"))
      | .error (.sql err) => pure (some (.retry ("get email job: " ++ err.text)))
      | .ok job =>
        if job.status = .sent then pure none
        else if job.status = .deadLetter then
          pure (some (.skip "email job is already dead-lettered"))
        else do
          match ← Process.startEmailJobAttempt jobID with
          | .error err => pure (some (.retry ("start email job attempt: " ++ err.text)))
          | .ok job => p.attempt jobID job payload.jobID

/-- `handleError`. The context may not know how often the task has been tried and how
often it may be. -/
def handleError (retried maxRetry : Option Nat) (task : TaskPayload) (taskErr : String) :
    Process Unit :=
  match retried, maxRetry with
  | some retried, some maxRetry =>
    if retried < maxRetry then pure ()
    else
      match task with
      | .other _ => pure ()
      | .email payload =>
        match p.parseUUID payload.jobID with
        | .error _ => pure ()
        | .ok jobID => do
          let _ ← Process.markEmailJobDeadLetter jobID taskErr
          pure ()
  | _, _ => pure ()

end Processor

end Monierave
