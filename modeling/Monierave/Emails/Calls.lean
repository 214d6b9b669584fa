import Monierave.Emails.Store
import Monierave.Processes.Machine

/-! # The calls of the relay and the worker

Everything they do outside of their own memory: the statements they send to the
database, the tasks they hand to the queue, the token maker, the mailer, and the
clock and the random numbers of their machine.
-/

namespace Monierave

open Relational Processes

inductive DistributeError
  | taskIDConflict
  | failed (text : String)
  deriving DecidableEq

structure TaskOptions where
  taskID : String
  queue : String
  maxRetry : Int
  timeout : Int
  retention : Int

inductive Call
  | clock
  | random (bound : Nat)
  | claimOutboxEvents (claimedBy : String) (claimedUntil : Timestamp) (batchSize : Nat)
  | markOutboxEventPublished (id : UUID)
  | releaseOutboxEvent (id : UUID) (availableAt : Timestamp) (lastError : String)
  | deleteExpiredPublishedOutboxEvents (publishedBefore : Timestamp)
  | deleteExpiredSentEmailJobs (sentBefore : Timestamp)
  | getEmailJob (id : UUID)
  | markEmailJobQueued (id : UUID)
  | startEmailJobAttempt (id : UUID)
  | markEmailJobRetrying (id : UUID) (lastError : String)
  | markEmailJobSent (id : UUID) (providerMessageID : String)
  | markEmailJobDeadLetter (id : UUID) (lastError : String)
  | setEmailJobVerificationToken (id : UUID) (hash : Bytes) (expiresAt : Timestamp)
  | distributeTaskSendEmail (payload : PayloadSendEmail) (options : TaskOptions)
  | createToken (jobID : String)
  | hashToken (value : String)
  | sendVerificationEmail (message : EmailMessage)
  | sendFinancialNotification (message : EmailMessage)

@[reducible] def Call.Answer : Call → Type
  | clock => Timestamp
  | random _ => Nat
  | claimOutboxEvents _ _ _ => Except StoreError (List OutboxRow)
  | markOutboxEventPublished _ | releaseOutboxEvent _ _ _ => Except StoreError OutboxRow
  | deleteExpiredPublishedOutboxEvents _ | deleteExpiredSentEmailJobs _ => Except StoreError Nat
  | getEmailJob _ | markEmailJobQueued _ | startEmailJobAttempt _ | markEmailJobRetrying _ _
  | markEmailJobSent _ _ | markEmailJobDeadLetter _ _ | setEmailJobVerificationToken _ _ _ =>
    Except StoreError EmailJobRow
  | distributeTaskSendEmail _ _ => Except DistributeError Unit
  | createToken _ => Except String String
  | hashToken _ => Except String Bytes
  | sendVerificationEmail _ | sendFinancialNotification _ => Except SendError String

abbrev Process (α : Type) := Proc Call Call.Answer α

namespace Process

variable (id : UUID)

abbrev clock : Process Timestamp := Proc.ask Call.clock

abbrev random (bound : Nat) : Process Nat := Proc.ask (Call.random bound)

abbrev claimOutboxEvents (claimedBy : String) (claimedUntil : Timestamp) (batchSize : Nat) :
    Process (Except StoreError (List OutboxRow)) :=
  Proc.ask (Call.claimOutboxEvents claimedBy claimedUntil batchSize)

abbrev markOutboxEventPublished : Process (Except StoreError OutboxRow) :=
  Proc.ask (Call.markOutboxEventPublished id)

abbrev releaseOutboxEvent (availableAt : Timestamp) (lastError : String) :
    Process (Except StoreError OutboxRow) :=
  Proc.ask (Call.releaseOutboxEvent id availableAt lastError)

abbrev deleteExpiredPublishedOutboxEvents (publishedBefore : Timestamp) :
    Process (Except StoreError Nat) :=
  Proc.ask (Call.deleteExpiredPublishedOutboxEvents publishedBefore)

abbrev deleteExpiredSentEmailJobs (sentBefore : Timestamp) : Process (Except StoreError Nat) :=
  Proc.ask (Call.deleteExpiredSentEmailJobs sentBefore)

abbrev getEmailJob : Process (Except StoreError EmailJobRow) := Proc.ask (Call.getEmailJob id)

abbrev markEmailJobQueued : Process (Except StoreError EmailJobRow) :=
  Proc.ask (Call.markEmailJobQueued id)

abbrev startEmailJobAttempt : Process (Except StoreError EmailJobRow) :=
  Proc.ask (Call.startEmailJobAttempt id)

abbrev markEmailJobRetrying (lastError : String) : Process (Except StoreError EmailJobRow) :=
  Proc.ask (Call.markEmailJobRetrying id lastError)

abbrev markEmailJobSent (providerMessageID : String) : Process (Except StoreError EmailJobRow) :=
  Proc.ask (Call.markEmailJobSent id providerMessageID)

abbrev markEmailJobDeadLetter (lastError : String) : Process (Except StoreError EmailJobRow) :=
  Proc.ask (Call.markEmailJobDeadLetter id lastError)

abbrev setEmailJobVerificationToken (hash : Bytes) (expiresAt : Timestamp) :
    Process (Except StoreError EmailJobRow) :=
  Proc.ask (Call.setEmailJobVerificationToken id hash expiresAt)

abbrev distributeTaskSendEmail (payload : PayloadSendEmail) (options : TaskOptions) :
    Process (Except DistributeError Unit) :=
  Proc.ask (Call.distributeTaskSendEmail payload options)

abbrev createToken (jobID : String) : Process (Except String String) :=
  Proc.ask (Call.createToken jobID)

abbrev hashToken (value : String) : Process (Except String Bytes) := Proc.ask (Call.hashToken value)

abbrev sendVerificationEmail (message : EmailMessage) : Process (Except SendError String) :=
  Proc.ask (Call.sendVerificationEmail message)

abbrev sendFinancialNotification (message : EmailMessage) : Process (Except SendError String) :=
  Proc.ask (Call.sendFinancialNotification message)

end Process

/-- How a statement or a task fares: it is done, it fails, or it is done and the caller
is told that it failed. -/
inductive Fate
  | done
  | refused
  | lost
  deriving DecidableEq

/-- What the environment decides about a call. The transaction of a statement began
`lag` before the statement takes effect, and the clock of the caller's machine is
`skew` ahead of that of the database. -/
structure Choice where
  fate : Fate := .done
  error : String := ""
  lag : Nat := 0
  skew : Int := 0
  random : Nat := 0
  picked : List UUID := []
  token : Except String String := .ok ""
  hash : Except String Bytes := .ok []
  mail : Except SendError String := .ok ""

namespace Dispatch

variable {α : Type}

def statement (o : Choice) (s : Dispatch) (x : Dispatch × Except StoreError α) :
    Dispatch × Except StoreError α :=
  match o.fate with
  | .done => x
  | .refused => (s, .error (.sql (.connection o.error)))
  | .lost => (x.1, .error (.sql (.connection o.error)))

def distribute (o : Choice) (taskID : String) (s : Dispatch) :
    Dispatch × Except DistributeError Unit :=
  match o.fate with
  | .refused => (s, .error (.failed o.error))
  | .done =>
    if taskID ∈ s.queue then (s, .error .taskIDConflict)
    else ({ s with queue := taskID :: s.queue, accepted := taskID :: s.accepted }, .ok ())
  | .lost =>
    if taskID ∈ s.queue then (s, .error (.failed o.error))
    else ({ s with queue := taskID :: s.queue, accepted := taskID :: s.accepted },
      .error (.failed o.error))

def noteTokenFailure {ε : Type} (w : Nat) (x : Dispatch × Except ε α) : Dispatch × Except ε α :=
  match x.2 with
  | .ok _ => x
  | .error _ => ({ x.1 with tokenFailures := w :: x.1.tokenFailures }, x.2)

def send (w : Nat) (o : Choice) (message : EmailMessage) (s : Dispatch) :
    Dispatch × Except SendError String :=
  ({ s with calls := ⟨w, message, o.mail⟩ :: s.calls }, o.mail)

def serve (w : Nat) (o : Choice) : (c : Call) → Dispatch → Dispatch × c.Answer
  | .clock, s => (s, s.now + o.skew)
  | .random bound, s => (s, o.random % bound)
  | .claimOutboxEvents claimedBy claimedUntil batchSize, s =>
    statement o s (s.claimOutboxEvents w (s.now - o.lag) o.picked claimedBy claimedUntil batchSize)
  | .markOutboxEventPublished id, s =>
    statement o s (s.markOutboxEventPublished w (s.now - o.lag) id)
  | .releaseOutboxEvent id availableAt lastError, s =>
    statement o s (s.releaseOutboxEvent w id availableAt lastError)
  | .deleteExpiredPublishedOutboxEvents publishedBefore, s =>
    statement o s (s.deleteExpiredPublishedOutboxEvents publishedBefore)
  | .deleteExpiredSentEmailJobs sentBefore, s =>
    statement o s (s.deleteExpiredSentEmailJobs sentBefore)
  | .getEmailJob id, s => statement o s (s, s.getEmailJob id)
  | .markEmailJobQueued id, s => statement o s (s.markEmailJobQueued id)
  | .startEmailJobAttempt id, s => statement o s (s.startEmailJobAttempt w id)
  | .markEmailJobRetrying id lastError, s => statement o s (s.markEmailJobRetrying w id lastError)
  | .markEmailJobSent id providerMessageID, s =>
    statement o s (s.markEmailJobSent w (s.now - o.lag) id providerMessageID)
  | .markEmailJobDeadLetter id lastError, s =>
    statement o s (s.markEmailJobDeadLetter w id lastError)
  | .setEmailJobVerificationToken id hash expiresAt, s =>
    noteTokenFailure w (statement o s (s.setEmailJobVerificationToken id hash expiresAt))
  | .distributeTaskSendEmail _ options, s => s.distribute o options.taskID
  | .createToken _, s => noteTokenFailure w (s, o.token)
  | .hashToken _, s => noteTokenFailure w (s, o.hash)
  | .sendVerificationEmail message, s => s.send w o message
  | .sendFinancialNotification message, s => s.send w o message

end Dispatch

end Monierave
