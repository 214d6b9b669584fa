import Monierave.Emails.Calls

/-! # The outbox relay

`worker/outbox_relay.go`.
-/

namespace Monierave

open Processes

structure RelayConfig where
  instanceID : String
  batchSize : Nat
  claimLease : Int
  taskTimeout : Int
  taskRetention : Int
  outboxRetention : Int
  emailRetention : Int

def queueCritical : String := "critical"

def queueDefault : String := "default"

def microsPerSecond : Nat := 1000000

def outboxRetryBase (attempt : Nat) : Nat :=
  min (2 ^ min attempt 8 * microsPerSecond) (5 * 60 * microsPerSecond)

def outboxRetryDelay (attempt : Nat) : Process Nat := do
  let base := outboxRetryBase attempt
  let jitter ← Process.random (base / 5 + 1)
  pure (base + jitter)

/-- `json.Unmarshal` into a `PayloadSendEmail`. The type of the event is not part of
what is stored. -/
def OutboxPayload.decode : OutboxPayload → Except String PayloadSendEmail
  | email jobID eventID correlationID => .ok ⟨jobID, eventID, correlationID, ""⟩
  | other text => .error text

namespace RelayConfig

variable (relay : RelayConfig)

def release (event : OutboxRow) (publishErr : String) : Process (Option String) := do
  let now ← Process.clock
  let delay ← outboxRetryDelay event.publishAttempts
  match ← Process.releaseOutboxEvent event.id (now + delay) publishErr with
  | .error err => pure (some ("release outbox event after " ++ publishErr ++ ": " ++ err.text))
  | .ok _ => pure (some publishErr)

def taskPayload (event : OutboxRow) (payload : PayloadSendEmail) : PayloadSendEmail :=
  { payload with
    eventID := if payload.eventID = "" then event.id.text else payload.eventID
    correlationID :=
      if payload.correlationID = "" then event.correlationID.text else payload.correlationID
    eventType := event.eventType }

def taskOptions (payload : PayloadSendEmail) (job : EmailJobRow) : TaskOptions where
  taskID := payload.jobID
  queue := if job.jobType = emailJobTypeVerifyEmail then queueCritical else queueDefault
  maxRetry := job.maxAttempts - 1
  timeout := relay.taskTimeout
  retention := relay.taskRetention

def markPublished (event : OutboxRow) : Process (Option String) := do
  match ← Process.markOutboxEventPublished event.id with
  | .error err => pure (some ("mark outbox event published: " ++ err.text))
  | .ok _ => do
    let _ ← Process.markEmailJobQueued event.emailJobID
    pure none

def publishEvent (event : OutboxRow) : Process (Option String) :=
  match event.payload.decode with
  | .error err => release event ("decode outbox payload: " ++ err)
  | .ok payload => do
    let payload := taskPayload event payload
    match ← Process.getEmailJob event.emailJobID with
    | .error err => release event ("load email job: " ++ err.text)
    | .ok job => do
      match ← Process.distributeTaskSendEmail payload (relay.taskOptions payload job) with
      | .error (.failed err) => release event err
      | .error .taskIDConflict => markPublished event
      | .ok () => markPublished event

def publishEvents : List OutboxRow → Process Unit
  | [] => pure ()
  | event :: events => do
    let _ ← relay.publishEvent event
    publishEvents events

def publishBatch : Process Unit := do
  let now ← Process.clock
  match ← Process.claimOutboxEvents relay.instanceID (now + relay.claimLease) relay.batchSize with
  | .error _ => pure ()
  | .ok events => relay.publishEvents events

/-- `cleanup`, as far as it concerns the two tables. -/
def cleanup : Process Unit := do
  let now ← Process.clock
  let _ ← Process.deleteExpiredPublishedOutboxEvents (now - relay.outboxRetention)
  let _ ← Process.deleteExpiredSentEmailJobs (now - relay.emailRetention)
  pure ()

/-- What the loop of the relay waits for. -/
inductive Tick
  | poll
  | cleanup

/-- `Run`, until the context is done. -/
def run : List Tick → Process Unit
  | [] => relay.publishBatch
  | .poll :: ticks => do
    relay.publishBatch
    run ticks
  | .cleanup :: ticks => do
    relay.publishBatch
    relay.cleanup
    run ticks

end RelayConfig

end Monierave
