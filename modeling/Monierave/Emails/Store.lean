import Monierave.Emails.Rows
import Monierave.Users.Profiles

/-! # What the relay and the worker share

The two tables, the ids of the tasks the queue knows, and the database clock.
-/

namespace Monierave

open Relational

inductive StoreError
  | noRows
  | sql (e : SqlError)
  deriving DecidableEq

def StoreError.text : StoreError → String
  | noRows => "no rows in result set"
  | sql e => e.text

structure SendError where
  permanent : Bool
  text : String
  deriving DecidableEq

structure EmailMessage where
  jobID : String
  username : String
  recipient : String
  payload : JobPayload
  deriving DecidableEq

structure MailCall where
  worker : Nat
  message : EmailMessage
  answer : Except SendError String

structure Attempt where
  worker : Nat
  job : EmailJobRow

/-- A process claims an event until a certain time, and later marks or releases it. -/
inductive LeaseEntry
  | claimed (worker : Nat) (id : UUID) (until_ : Timestamp)
  | settled (worker : Nat) (id : UUID)
  deriving DecidableEq

/-- `committed` pairs the ids of all outbox events there have been with those of their
jobs. `inProgress` holds the attempts whose outcome has not been recorded. The newest
entries come first. -/
structure Dispatch where
  now : Timestamp
  outbox : Table OutboxRow := ∅
  jobs : Table EmailJobRow := ∅
  queue : List String := []
  webhooks : List String := []
  accepted : List String := []
  committed : List (UUID × UUID) := []
  deletedEvents : List OutboxRow := []
  deletedJobs : List EmailJobRow := []
  leases : List LeaseEntry := []
  attempts : List Attempt := []
  inProgress : List (Nat × UUID) := []
  calls : List MailCall := []
  tokenFailures : List Nat := []

namespace Dispatch

/-- Which of the candidates it gets, and in which order, depends on what others have
locked at the moment; `picked` says so. -/
def claimOutboxEvents (w : Nat) (now : Timestamp) (picked : List UUID) (claimedBy : String)
    (claimedUntil : Timestamp) (batchSize : Nat) (s : Dispatch) :
    Dispatch × Except StoreError (List OutboxRow) :=
  let candidates := picked.filterMap fun id => (s.outbox.get (.id id)).filter (OutboxRow.claimable now)
  if picked.Nodup ∧ candidates.length ≤ batchSize then
    ({ s with
        outbox := s.outbox.revise
          (fun e => if e ∈ candidates then e.claim claimedBy claimedUntil else e)
          (by intro e; split <;> rfl)
        leases := candidates.map (fun e => .claimed w e.id claimedUntil) ++ s.leases },
      .ok (candidates.map (OutboxRow.claim claimedBy claimedUntil)))
  else (s, .ok [])

/-- An update of the event `id` by the process that has claimed it. -/
def settle (w : Nat) (id : UUID) (f : OutboxRow → OutboxRow) (hf : ∀ e, keys (f e) = keys e)
    (s : Dispatch) : Dispatch × Except StoreError OutboxRow :=
  match s.outbox.get (.id id) with
  | none => (s, .error .noRows)
  | some e =>
    ({ s with
        outbox := s.outbox.revise (fun e => if e.id = id then f e else e)
          (by intro e; split <;> simp [hf])
        leases := .settled w id :: s.leases },
      .ok (f e))

def markOutboxEventPublished (w : Nat) (now : Timestamp) (id : UUID) (s : Dispatch) :
    Dispatch × Except StoreError OutboxRow :=
  s.settle w id (OutboxRow.markPublished now) fun _ => rfl

def releaseOutboxEvent (w : Nat) (id : UUID) (availableAt : Timestamp) (lastError : String)
    (s : Dispatch) : Dispatch × Except StoreError OutboxRow :=
  s.settle w id (OutboxRow.release availableAt lastError) fun _ => rfl

def deleteExpiredPublishedOutboxEvents (publishedBefore : Timestamp) (s : Dispatch) :
    Dispatch × Except StoreError Nat :=
  let expired := s.outbox.rows.filter (OutboxRow.expired publishedBefore)
  ({ s with
      outbox := s.outbox.keep fun e => !e.expired publishedBefore
      deletedEvents := expired ++ s.deletedEvents },
    .ok expired.length)

def getEmailJob (id : UUID) (s : Dispatch) : Except StoreError EmailJobRow :=
  match s.jobs.get (.id id) with
  | none => .error .noRows
  | some j => .ok j

def updateEmailJob (id : UUID) (f : EmailJobRow → Except SqlError (Option EmailJobRow))
    (s : Dispatch) : Dispatch × Except StoreError EmailJobRow :=
  match s.jobs.get (.id id) with
  | none => (s, .error .noRows)
  | some j =>
    match f j with
    | .error e => (s, .error (.sql e))
    | .ok none => (s, .error .noRows)
    | .ok (some j') =>
      match s.jobs.clash j' with
      | some k => (s, .error (.sql (.uniqueViolation k.constraint)))
      | none => ({ s with jobs := s.jobs.update j' }, .ok j')

def markEmailJobQueued (id : UUID) (s : Dispatch) : Dispatch × Except StoreError EmailJobRow :=
  s.updateEmailJob id fun j => .ok (some j.markQueued)

def startEmailJobAttempt (w : Nat) (id : UUID) (s : Dispatch) :
    Dispatch × Except StoreError EmailJobRow :=
  match s.updateEmailJob id fun j => .ok j.startAttempt with
  | (s', .ok j) =>
    ({ s' with
        attempts := ⟨w, j⟩ :: s'.attempts
        inProgress := (w, id) :: s'.inProgress },
      .ok j)
  | x => x

def ended (w : Nat) (id : UUID) (x : Dispatch × Except StoreError EmailJobRow) :
    Dispatch × Except StoreError EmailJobRow :=
  match x with
  | (s, .ok j) => ({ s with inProgress := s.inProgress.filter (· ≠ (w, id)) }, .ok j)
  | x => x

def markEmailJobRetrying (w : Nat) (id : UUID) (lastError : String) (s : Dispatch) :
    Dispatch × Except StoreError EmailJobRow :=
  ended w id (s.updateEmailJob id fun j => .ok (j.markRetrying lastError))

def markEmailJobSent (w : Nat) (now : Timestamp) (id : UUID) (providerMessageID : String)
    (s : Dispatch) : Dispatch × Except StoreError EmailJobRow :=
  ended w id (s.updateEmailJob id fun j => .ok (some (j.markSent now providerMessageID)))

def markEmailJobDeadLetter (w : Nat) (id : UUID) (lastError : String) (s : Dispatch) :
    Dispatch × Except StoreError EmailJobRow :=
  ended w id (s.updateEmailJob id fun j => .ok (j.markDeadLetter lastError))

def setEmailJobVerificationToken (id : UUID) (hash : Bytes) (expiresAt : Timestamp) (s : Dispatch) :
    Dispatch × Except StoreError EmailJobRow :=
  s.updateEmailJob id (EmailJobRow.setVerificationToken hash expiresAt)

def deleteExpiredSentEmailJobs (sentBefore : Timestamp) (s : Dispatch) :
    Dispatch × Except StoreError Nat :=
  let expired := s.jobs.rows.filter (EmailJobRow.expired sentBefore)
  if s.outbox.rows.any fun e => expired.any fun j => j.id == e.emailJobID then
    (s, .error (.sql (.foreignKeyViolation "outbox_events_email_job_id_fkey")))
  else if s.jobs.rows.any fun j => !j.expired sentBefore &&
      j.parentJobID.any fun parent => expired.any fun j => j.id == parent then
    (s, .error (.sql (.foreignKeyViolation "email_jobs_parent_job_id_fkey")))
  else
    ({ s with
        jobs := s.jobs.keep fun j => !j.expired sentBefore
        deletedJobs := expired ++ s.deletedJobs },
      .ok expired.length)

/-- A job and its outbox event as a transaction of the store inserts them: a
registration, a change of address, a financial notification or a replay. -/
structure NewJob where
  jobID : UUID
  parentJobID : Option UUID := none
  jobType : String
  username : String
  recipient : String
  payload : JobPayload
  maxAttempts : Nat := 10
  eventID : UUID
  eventType : String
  payloadEventID : String := ""
  payloadCorrelationID : String := ""
  correlationID : UUID
  entityType : EntityType
  entityID : UUID

namespace NewJob

def row (now : Timestamp) (new : NewJob) : EmailJobRow where
  id := new.jobID
  parentJobID := new.parentJobID
  jobType := new.jobType
  username := new.username
  recipient := new.recipient
  payload := new.payload
  maxAttempts := new.maxAttempts
  createdAt := now

def event (now : Timestamp) (new : NewJob) : OutboxRow where
  id := new.eventID
  emailJobID := new.jobID
  eventType := new.eventType
  correlationID := new.correlationID
  entityType := new.entityType
  entityID := new.entityID
  status := .pending
  createdAt := now
  payload := .email new.jobID.text new.payloadEventID new.payloadCorrelationID
  availableAt := now

end NewJob

def create (new : NewJob) (s : Dispatch) : Dispatch :=
  if s.jobs.conflict (new.row s.now) = none ∧ s.outbox.conflict (new.event s.now) = none ∧
      (∀ p ∈ s.committed, p.1 ≠ new.eventID ∧ p.2 ≠ new.jobID) ∧ 0 < new.maxAttempts then
    { s with
      jobs := s.jobs.insert (new.row s.now)
      outbox := s.outbox.insert (new.event s.now)
      committed := (new.eventID, new.jobID) :: s.committed }
  else s

def NewJob.replay (original : EmailJobRow) (originalEvent : OutboxRow)
    (newJobID newEventID : UUID) : NewJob where
  jobID := newJobID
  parentJobID := some original.id
  jobType := original.jobType
  username := original.username
  recipient := original.recipient
  payload := original.payload
  maxAttempts := original.maxAttempts
  eventID := newEventID
  eventType := originalEvent.eventType
  correlationID := originalEvent.correlationID
  entityType := originalEvent.entityType
  entityID := originalEvent.entityID

/-- `ReplayEmailJobTx`, which draws the ids of the new job and its event. -/
def replayEmailJobTx (jobID newJobID newEventID : UUID) (s : Dispatch) : Dispatch :=
  match s.jobs.get (.id jobID) with
  | none => s
  | some original =>
    if original.status ≠ .deadLetter then s
    else
      match s.outbox.get (.emailJobID original.id) with
      | none => s
      | some originalEvent => s.create (.replay original originalEvent newJobID newEventID)

def findEmailJobForDeliveryEvent (arg : ProcessEmailDeliveryEventParams) (s : Dispatch) :
    Option EmailJobRow :=
  match s.jobs.get (.providerMessageID arg.providerMessageID) with
  | some job => some job
  | none =>
    match arg.jobID with
    | none => none
    | some id => (s.jobs.get (.id id)).filter fun job =>
      job.providerMessageID.all fun p => p == arg.providerMessageID

/-- `ProcessEmailDeliveryEventTx`, as far as it changes the job. -/
def processEmailDeliveryEventTx (arg : ProcessEmailDeliveryEventParams) (s : Dispatch) : Dispatch :=
  if arg.webhookID ∈ s.webhooks then s
  else
    let recorded := { s with webhooks := arg.webhookID :: s.webhooks }
    match s.findEmailJobForDeliveryEvent arg, arg.deliveryStatus with
    | some job, some status =>
      if canApplyEmailDeliveryTransition job.deliveryStatus status job.deliveryEventAt
          arg.occurredAt then
        match recorded.updateEmailJob job.id fun j =>
            .ok (j.setDelivery arg.providerMessageID status arg.occurredAt) with
        | (s', .ok _) => s'
        | (_, .error .noRows) => recorded
        | (_, .error (.sql _)) => s
      else recorded
    | _, _ => recorded

end Dispatch

end Monierave
