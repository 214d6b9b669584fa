import Monierave.Queries.Emails

/-! # Email jobs and outbox events on their way out

The two tables with the columns that the relay and the worker read, and what each of
their statements does to a row.
-/

namespace Monierave

open Relational

/-- The JSON in the payload column of a job: null, an object with the texts of its
members, or something else. -/
inductive JobPayload
  | null
  | object (members : List (String × String))
  | other (text : String)
  deriving DecidableEq

def emailJobTypeVerifyEmail : String := "verify_email"

def emailJobTypeFinancialNotification : String := "financial_notification"

structure EmailJobRow where
  id : UUID
  parentJobID : Option UUID
  jobType : String
  username : String
  recipient : String
  payload : JobPayload
  status : EmailJobStatus := .pending
  attemptCount : Nat := 0
  maxAttempts : Nat
  providerMessageID : Option String := none
  lastError : Option String := none
  createdAt : Timestamp
  sentAt : Option Timestamp := none
  deliveryStatus : EmailDeliveryStatus := .pending
  deliveryEventAt : Option Timestamp := none
  verificationToken : Option VerificationToken := none
  deriving DecidableEq

instance : Keyed EmailJobRow EmailJobKey where
  pk j := .id j.id
  keys j := .id j.id :: (j.providerMessageID.toList.map .providerMessageID ++
    j.verificationToken.toList.map fun t => .verificationTokenHash t.hash)

namespace EmailJobRow

variable {id : UUID} {j : EmailJobRow}

@[simp] theorem pk_eq : pk j = .id j.id := rfl

@[simp] theorem id_mem_keys : EmailJobKey.id id ∈ keys j ↔ id = j.id := by
  simp [keys]

theorem id_of_get {t : Table EmailJobRow} (h : t.get (.id id) = some j) : j.id = id :=
  (id_mem_keys.mp (Table.key_of_get h)).symm

theorem get_of_mem {t : Table EmailJobRow} (h : j ∈ t.rows) : t.get (.id j.id) = some j :=
  Table.get_pk h

/-! ## The statements of `email_job.sql` on the row they find

Where the condition of a statement does not hold, there is no row to update. -/

def markQueued (j : EmailJobRow) : EmailJobRow :=
  { j with status := if j.status = .pending then .queued else j.status }

def startAttempt (j : EmailJobRow) : Option EmailJobRow :=
  match j.status with
  | .pending | .queued | .processing | .retrying =>
    some { j with status := .processing, attemptCount := j.attemptCount + 1 }
  | .sent | .deadLetter => none

def markRetrying (lastError : String) (j : EmailJobRow) : Option EmailJobRow :=
  if j.status = .sent then none
  else some { j with status := .retrying, lastError := some lastError }

def markSent (now : Timestamp) (providerMessageID : String) (j : EmailJobRow) : EmailJobRow :=
  { j with
    status := .sent
    providerMessageID := some providerMessageID
    deliveryStatus := if j.deliveryEventAt.isNone then .accepted else j.deliveryStatus
    lastError := none
    sentAt := some now }

def markDeadLetter (lastError : String) (j : EmailJobRow) : Option EmailJobRow :=
  if j.status = .sent then none
  else some { j with status := .deadLetter, lastError := some lastError }

def setVerificationToken (hash : Bytes) (expiresAt : Timestamp) (j : EmailJobRow) :
    Except SqlError (Option EmailJobRow) :=
  if j.jobType = emailJobTypeVerifyEmail then
    (EmailJob.tokenColumns (some hash) (some expiresAt)).map fun token =>
      some { j with verificationToken := token }
  else .ok none

def setDelivery (providerMessageID : String) (status : EmailDeliveryStatus)
    (occurredAt : Timestamp) (j : EmailJobRow) : Option EmailJobRow :=
  if j.deliveryEventAt.all fun at_ => decide (at_ < occurredAt) then
    some { j with
      providerMessageID := some (j.providerMessageID.getD providerMessageID)
      deliveryStatus := status
      deliveryEventAt := some occurredAt }
  else none

/-- `DeleteExpiredSentEmailJobs` takes the row. -/
def expired (sentBefore : Timestamp) (j : EmailJobRow) : Bool :=
  j.status == .sent && j.sentAt.any fun at_ => decide (at_ < sentBefore)

end EmailJobRow

structure PayloadSendEmail where
  jobID : String
  eventID : String
  correlationID : String
  eventType : String
  deriving DecidableEq

/-- The JSON in the payload column of an outbox event. -/
inductive OutboxPayload
  | email (jobID eventID correlationID : String)
  | other (text : String)
  deriving DecidableEq

structure OutboxRow extends OutboxEvent where
  payload : OutboxPayload
  publishAttempts : Nat := 0
  availableAt : Timestamp
  claimedBy : Option String := none
  claimedUntil : Option Timestamp := none
  lastError : Option String := none
  publishedAt : Option Timestamp := none
  deriving DecidableEq

instance : Keyed OutboxRow OutboxEventKey where
  pk e := .id e.id
  keys e := [.id e.id, .emailJobID e.emailJobID]

namespace OutboxRow

variable {id : UUID} {e : OutboxRow}

@[simp] theorem id_mem_keys : OutboxEventKey.id id ∈ keys e ↔ id = e.id := by
  simp [keys]

theorem id_of_get {t : Table OutboxRow} (h : t.get (.id id) = some e) : e.id = id :=
  (id_mem_keys.mp (Table.key_of_get h)).symm

/-- The row is a candidate of `ClaimOutboxEvents`. -/
def claimable (now : Timestamp) (e : OutboxRow) : Bool :=
  decide (e.availableAt ≤ now) &&
    (e.status == .pending ||
      (e.status == .publishing && e.claimedUntil.any fun until_ => decide (until_ < now)))

def claim (claimedBy : String) (claimedUntil : Timestamp) (e : OutboxRow) : OutboxRow :=
  { e with
    status := .publishing
    claimedBy := some claimedBy
    claimedUntil := some claimedUntil
    publishAttempts := e.publishAttempts + 1 }

def markPublished (now : Timestamp) (e : OutboxRow) : OutboxRow :=
  { e with
    status := .published
    publishedAt := some now
    claimedBy := none
    claimedUntil := none
    lastError := none }

def release (availableAt : Timestamp) (lastError : String) (e : OutboxRow) : OutboxRow :=
  { e with
    status := .pending
    availableAt := availableAt
    claimedBy := none
    claimedUntil := none
    lastError := some lastError }

/-- `DeleteExpiredPublishedOutboxEvents` takes the row. -/
def expired (publishedBefore : Timestamp) (e : OutboxRow) : Bool :=
  e.status == .published && e.publishedAt.any fun at_ => decide (at_ < publishedBefore)

end OutboxRow

end Monierave
