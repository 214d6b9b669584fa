import Monierave.Auditing.Trails
import Monierave.Emails.Rows

/-! # The audit trails of email jobs and outbox events

The triggers `audit_email_job_changes` and `audit_domain_outbox_event_changes` write
the history of the two tables.
-/

namespace Monierave

open Auditing

/-- A value of `jsonb_build_object`. -/
inductive AuditValue
  | null
  | number (n : Nat)
  | text (s : String)
  | uuid (id : UUID)
  | time (t : Timestamp)
  | entity (t : EntityType)
  deriving DecidableEq

def AuditValue.ofText : Option String → AuditValue
  | none => null
  | some s => text s

def AuditValue.ofTime : Option Timestamp → AuditValue
  | none => null
  | some t => time t

structure AuditRow extends AuditLog where
  metadata : List (String × AuditValue) := []
  deriving DecidableEq

namespace AuditRow

def ends (row : AuditRow) : Option String × Option String := (row.fromState, row.toState)

def numberOf (eventTypes : List String) (key : String) (row : AuditRow) : Option Nat :=
  if row.eventType ∈ eventTypes then
    match row.metadata.lookup key with
    | some (.number n) => some n
    | _ => none
  else none

end AuditRow

namespace EmailJobRow

/-- The branch of the trigger for `INSERT`. -/
def auditInsert (now : Timestamp) (j : EmailJobRow) : AuditRow where
  entityType := .emailJob
  entityID := j.id
  correlationID := j.id
  eventType := if j.parentJobID.isNone then "email_job_created" else "email_job_replay_created"
  actor := if j.parentJobID.isNone then "api" else "operator_cli"
  fromState := none
  toState := some j.status.text
  message := none
  createdAt := now
  metadata :=
    match j.parentJobID with
    | none => []
    | some parent => [("parent_job_id", .uuid parent)]

/-- The entry about a change from `o` to `j`. -/
def auditChange (now : Timestamp) (o j : EmailJobRow) (eventType actor : String)
    (message : Option String) (metadata : List (String × AuditValue)) : AuditRow where
  entityType := .emailJob
  entityID := j.id
  correlationID := j.id
  eventType := eventType
  actor := actor
  fromState := some o.status.text
  toState := some j.status.text
  message := message
  createdAt := now
  metadata := metadata

def auditStatus (now : Timestamp) (o j : EmailJobRow) : AuditRow :=
  match j.status with
  | .queued => auditChange now o j "email_job_queued" "relay" none []
  | .retrying =>
    auditChange now o j "email_send_failed" "worker" j.lastError
      [("attempt", .number j.attemptCount)]
  | .sent =>
    auditChange now o j "email_sent" "worker" none
      [("attempt", .number j.attemptCount),
        ("provider_message_id", AuditValue.ofText j.providerMessageID)]
  | .deadLetter =>
    auditChange now o j "email_dead_lettered" "worker" j.lastError
      [("attempt", .number j.attemptCount)]
  | .pending | .processing => auditChange now o j "email_status_changed" "worker" none []

/-- The branch of the trigger for `UPDATE`. -/
def auditUpdate (now : Timestamp) (o j : EmailJobRow) : Option AuditRow :=
  if o.attemptCount < j.attemptCount ∧ j.status = .processing then
    some (auditChange now o j "email_attempt_started" "worker" none
      [("attempt", .number j.attemptCount), ("max_attempts", .number j.maxAttempts)])
  else if j.status ≠ o.status then some (auditStatus now o j)
  else none

end EmailJobRow

def emailJobAudit : Trigger Timestamp EmailJobRow AuditRow :=
  ⟨EmailJobRow.auditInsert, EmailJobRow.auditUpdate⟩

/-- The columns that `CreateEmailJob` sets. -/
structure EmailJobColumns where
  id : UUID
  parentJobID : Option UUID
  jobType : String
  username : String
  recipient : String
  payload : JobPayload
  maxAttempts : Nat

def EmailJobColumns.row (arg : EmailJobColumns) (now : Timestamp) : EmailJobRow where
  id := arg.id
  parentJobID := arg.parentJobID
  jobType := arg.jobType
  username := arg.username
  recipient := arg.recipient
  payload := arg.payload
  maxAttempts := arg.maxAttempts
  createdAt := now

/-- The updates of `email_job.sql`, with arguments that may be null. -/
inductive EmailJobUpdate
  | setEmailJobVerificationToken (hash : Option Bytes) (expiresAt : Option Timestamp)
  | markEmailJobQueued
  | startEmailJobAttempt
  | markEmailJobRetrying (lastError : Option String)
  | markEmailJobSent (providerMessageID : Option String)
  | updateEmailJobDelivery (providerMessageID : Option String) (status : EmailDeliveryStatus)
      (occurredAt : Option Timestamp)
  | markEmailJobDeadLetter (lastError : Option String)

namespace EmailJobUpdate

def isNewer (j : EmailJobRow) : Option Timestamp → Bool
  | none => j.deliveryEventAt.isNone
  | some occurredAt => j.deliveryEventAt.all fun at_ => decide (at_ < occurredAt)

def apply (now : Timestamp) (j : EmailJobRow) : EmailJobUpdate → Option EmailJobRow
  | setEmailJobVerificationToken hash expiresAt =>
    if j.jobType = emailJobTypeVerifyEmail then
      (EmailJob.tokenColumns hash expiresAt).toOption.map fun token =>
        { j with verificationToken := token }
    else none
  | markEmailJobQueued => some j.markQueued
  | startEmailJobAttempt => j.startAttempt
  | markEmailJobRetrying lastError =>
    if j.status = .sent then none
    else some { j with status := .retrying, lastError := lastError }
  | markEmailJobSent providerMessageID =>
    some { j with
      status := .sent
      providerMessageID := providerMessageID
      deliveryStatus := if j.deliveryEventAt.isNone then .accepted else j.deliveryStatus
      lastError := none
      sentAt := some now }
  | updateEmailJobDelivery providerMessageID status occurredAt =>
    if isNewer j occurredAt then
      some { j with
        providerMessageID := j.providerMessageID <|> providerMessageID
        deliveryStatus := status
        deliveryEventAt := occurredAt }
    else none
  | markEmailJobDeadLetter lastError =>
    if j.status = .sent then none
    else some { j with status := .deadLetter, lastError := lastError }

theorem apply_eq_some {now : Timestamp} {o j : EmailJobRow} {update : EmailJobUpdate}
    (h : update.apply now o = some j) :
    j.attemptCount = o.attemptCount ∨
      (j.attemptCount = o.attemptCount + 1 ∧ j.status = .processing) := by
  cases update with
  | setEmailJobVerificationToken hash expiresAt =>
    simp only [apply] at h
    split at h
    · obtain ⟨token, -, rfl⟩ := Option.map_eq_some_iff.mp h
      exact .inl rfl
    · cases h
  | markEmailJobQueued =>
    cases h
    exact .inl rfl
  | startEmailJobAttempt =>
    simp only [apply, EmailJobRow.startAttempt] at h
    split at h
    all_goals cases h
    all_goals exact .inr ⟨rfl, rfl⟩
  | markEmailJobRetrying lastError =>
    simp only [apply] at h
    split at h
    · cases h
    · cases h
      exact .inl rfl
  | markEmailJobSent providerMessageID =>
    cases h
    exact .inl rfl
  | updateEmailJobDelivery providerMessageID status occurredAt =>
    simp only [apply] at h
    split at h
    · cases h
      exact .inl rfl
    · cases h
  | markEmailJobDeadLetter lastError =>
    simp only [apply] at h
    split at h
    · cases h
    · cases h
      exact .inl rfl

end EmailJobUpdate

/-- A statement on the table, or a number of the audit log that goes to another table. -/
inductive EmailJobStatement
  | create (now : Timestamp) (arg : EmailJobColumns)
  | update (now : Timestamp) (id : UUID) (u : EmailJobUpdate)
  | elsewhere

def EmailJobStatement.statement : EmailJobStatement → Statement UUID EmailJobRow Timestamp
  | create now arg => .insert now arg.id (arg.row now)
  | update now id u => .update now id fun j => u.apply now j
  | elsewhere => .draw

def emailJobHistory (statements : List EmailJobStatement) : Audited UUID EmailJobRow AuditRow :=
  Audited.run emailJobAudit (statements.map EmailJobStatement.statement)

def AuditRow.startedAttempt (row : AuditRow) : Option Nat :=
  row.numberOf ["email_attempt_started"] "attempt"

namespace EmailJobRow

/-- A row that `CreateEmailJob` makes. -/
def IsNew (j : EmailJobRow) : Prop := ∃ arg now, j = EmailJobColumns.row arg now

def Changes (o j : EmailJobRow) : Prop := ∃ update now, EmailJobUpdate.apply now o update = some j

variable {now : Timestamp} {o j : EmailJobRow}

theorem auditStatus_ends : (auditStatus now o j).ends = (some o.status.text, some j.status.text) := by
  rw [auditStatus]
  split <;> rfl

theorem auditStatus_startedAttempt : (auditStatus now o j).startedAttempt = none := by
  rw [auditStatus]
  split <;> rfl

end EmailJobRow

open EmailJobRow in
theorem emailJobAudit_tellsState :
    TellsState emailJobAudit (fun j => j.status.text) AuditRow.ends "pending" IsNew Changes where
  inserted := by
    rintro time _ ⟨arg, now, rfl⟩
    exact ⟨rfl, rfl⟩
  silent time o j _ h := by
    simp only [emailJobAudit, auditUpdate] at h
    split at h
    · cases h
    · split at h
      · cases h
      · rename_i hstatus
        rw [Decidable.not_not.mp hstatus]
  updated time o j e _ h := by
    simp only [emailJobAudit, auditUpdate] at h
    split at h
    · cases h
      rfl
    · split at h
      · cases h
        exact auditStatus_ends
      · cases h

open EmailJobRow in
theorem emailJobAudit_tellsCount :
    TellsCount emailJobAudit EmailJobRow.attemptCount AuditRow.startedAttempt IsNew Changes where
  inserted := by
    rintro time _ ⟨arg, now, rfl⟩
    refine ⟨rfl, ?_⟩
    cases hparent : arg.parentJobID <;>
      simp [emailJobAudit, auditInsert, EmailJobColumns.row, hparent, AuditRow.startedAttempt,
        AuditRow.numberOf]
  updated := by
    rintro time o j ⟨update, now, h⟩
    rcases EmailJobUpdate.apply_eq_some h with hcount | ⟨hcount, hstatus⟩
    · refine .inl ⟨hcount, ?_⟩
      simp only [emailJobAudit, auditUpdate, hcount, lt_irrefl, false_and, if_false]
      split
      · exact auditStatus_startedAttempt
      · rfl
    · refine .inr ⟨hcount, ?_⟩
      have hstarted : o.attemptCount < j.attemptCount ∧ j.status = .processing :=
        ⟨hcount ▸ Nat.lt_succ_self _, hstatus⟩
      simp only [emailJobAudit, auditUpdate, if_pos hstarted]
      rfl

theorem EmailJobStatement.within (statement : EmailJobStatement) :
    statement.statement.Within EmailJobRow.IsNew EmailJobRow.Changes := by
  cases statement with
  | create now arg => exact ⟨arg, now, rfl⟩
  | update now id u => exact fun o j h => ⟨u, now, h⟩
  | elsewhere => trivial

namespace OutboxRow

/-- The branch of the trigger for `INSERT`. -/
def auditInsert (now : Timestamp) (e : OutboxRow) : AuditRow where
  entityType := .outboxEvent
  entityID := e.id
  correlationID := e.correlationID
  eventType := "outbox_event_created"
  actor := "application"
  fromState := none
  toState := some e.status.text
  message := none
  createdAt := now
  metadata :=
    [("event_type", .text e.eventType), ("email_job_id", .uuid e.emailJobID),
      ("source_entity_type", .entity e.entityType), ("source_entity_id", .uuid e.entityID)]

/-- The entry about a change from `o` to `e`. -/
def auditChange (now : Timestamp) (o e : OutboxRow) (eventType : String)
    (message : Option String) (metadata : List (String × AuditValue)) : AuditRow where
  entityType := .outboxEvent
  entityID := e.id
  correlationID := e.correlationID
  eventType := eventType
  actor := "relay"
  fromState := some o.status.text
  toState := some e.status.text
  message := message
  createdAt := now
  metadata := metadata

def auditStatus (now : Timestamp) (o e : OutboxRow) : AuditRow :=
  match e.status with
  | .pending =>
    auditChange now o e "outbox_publish_failed" e.lastError
      [("publish_attempt", .number e.publishAttempts), ("available_at", .time e.availableAt)]
  | .published =>
    auditChange now o e "outbox_event_published" none
      [("publish_attempt", .number e.publishAttempts)]
  | .publishing => auditChange now o e "outbox_status_changed" none []

/-- The branch of the trigger for `UPDATE`. -/
def auditUpdate (now : Timestamp) (o e : OutboxRow) : Option AuditRow :=
  if e.status = .publishing ∧ o.publishAttempts < e.publishAttempts then
    some (auditChange now o e
      (if o.status = .publishing then "outbox_event_reclaimed" else "outbox_event_claimed") none
      [("publish_attempt", .number e.publishAttempts),
        ("claimed_by", AuditValue.ofText e.claimedBy),
        ("claimed_until", AuditValue.ofTime e.claimedUntil)])
  else if e.status ≠ o.status then some (auditStatus now o e)
  else none

end OutboxRow

def outboxAudit : Trigger Timestamp OutboxRow AuditRow :=
  ⟨OutboxRow.auditInsert, OutboxRow.auditUpdate⟩

/-- The columns that `CreateOutboxEvent` sets. -/
structure OutboxColumns where
  id : UUID
  emailJobID : UUID
  eventType : String
  payload : OutboxPayload
  correlationID : UUID
  entityType : EntityType
  entityID : UUID

def OutboxColumns.row (arg : OutboxColumns) (now : Timestamp) : OutboxRow where
  id := arg.id
  emailJobID := arg.emailJobID
  eventType := arg.eventType
  correlationID := arg.correlationID
  entityType := arg.entityType
  entityID := arg.entityID
  status := .pending
  createdAt := now
  payload := arg.payload
  availableAt := now

/-- The updates of `outbox.sql`, with arguments that may be null. `ClaimOutboxEvents` updates
each of the rows it picks once, and the trigger fires for one row after the other. -/
inductive OutboxUpdate
  | claimOutboxEvent (claimedBy : Option String) (claimedUntil : Option Timestamp)
  | markOutboxEventPublished
  | releaseOutboxEvent (availableAt : Option Timestamp) (lastError : Option String)

namespace OutboxUpdate

def apply (now : Timestamp) (e : OutboxRow) : OutboxUpdate → Option OutboxRow
  | claimOutboxEvent claimedBy claimedUntil =>
    if e.claimable now then
      some { e with
        status := .publishing
        claimedBy := claimedBy
        claimedUntil := claimedUntil
        publishAttempts := e.publishAttempts + 1 }
    else none
  | markOutboxEventPublished => some (e.markPublished now)
  | releaseOutboxEvent availableAt lastError =>
    availableAt.map fun availableAt =>
      { e with
        status := .pending
        availableAt := availableAt
        claimedBy := none
        claimedUntil := none
        lastError := lastError }

theorem apply_eq_some {now : Timestamp} {o e : OutboxRow} {update : OutboxUpdate}
    (h : update.apply now o = some e) :
    e.publishAttempts = o.publishAttempts ∨
      (e.publishAttempts = o.publishAttempts + 1 ∧ e.status = .publishing) := by
  cases update with
  | claimOutboxEvent claimedBy claimedUntil =>
    simp only [apply] at h
    split at h
    · cases h
      exact .inr ⟨rfl, rfl⟩
    · cases h
  | markOutboxEventPublished =>
    cases h
    exact .inl rfl
  | releaseOutboxEvent availableAt lastError =>
    obtain ⟨availableAt, -, rfl⟩ := Option.map_eq_some_iff.mp h
    exact .inl rfl

end OutboxUpdate

/-- A statement on the table, or a number of the audit log that goes to another table. -/
inductive OutboxStatement
  | create (now : Timestamp) (arg : OutboxColumns)
  | update (now : Timestamp) (id : UUID) (u : OutboxUpdate)
  | elsewhere

def OutboxStatement.statement : OutboxStatement → Statement UUID OutboxRow Timestamp
  | create now arg => .insert now arg.id (arg.row now)
  | update now id u => .update now id fun e => u.apply now e
  | elsewhere => .draw

def outboxHistory (statements : List OutboxStatement) : Audited UUID OutboxRow AuditRow :=
  Audited.run outboxAudit (statements.map OutboxStatement.statement)

def AuditRow.claim (row : AuditRow) : Option Nat :=
  row.numberOf ["outbox_event_claimed", "outbox_event_reclaimed"] "publish_attempt"

namespace OutboxRow

/-- A row that `CreateOutboxEvent` makes. -/
def IsNew (e : OutboxRow) : Prop := ∃ arg now, e = OutboxColumns.row arg now

def Changes (o e : OutboxRow) : Prop := ∃ update now, OutboxUpdate.apply now o update = some e

variable {now : Timestamp} {o e : OutboxRow}

theorem auditStatus_ends : (auditStatus now o e).ends = (some o.status.text, some e.status.text) := by
  rw [auditStatus]
  split <;> rfl

theorem auditStatus_claim : (auditStatus now o e).claim = none := by
  rw [auditStatus]
  split <;> rfl

end OutboxRow

open OutboxRow in
theorem outboxAudit_tellsState :
    TellsState outboxAudit (fun e => e.status.text) AuditRow.ends "pending" IsNew Changes where
  inserted := by
    rintro time _ ⟨arg, now, rfl⟩
    exact ⟨rfl, rfl⟩
  silent time o e _ h := by
    simp only [outboxAudit, auditUpdate] at h
    split at h
    · cases h
    · split at h
      · cases h
      · rename_i hstatus
        rw [Decidable.not_not.mp hstatus]
  updated time o e row _ h := by
    simp only [outboxAudit, auditUpdate] at h
    split at h
    · cases h
      rfl
    · split at h
      · cases h
        exact auditStatus_ends
      · cases h

open OutboxRow in
theorem outboxAudit_tellsCount :
    TellsCount outboxAudit OutboxRow.publishAttempts AuditRow.claim IsNew Changes where
  inserted := by
    rintro time _ ⟨arg, now, rfl⟩
    exact ⟨rfl, rfl⟩
  updated := by
    rintro time o e ⟨update, now, h⟩
    rcases OutboxUpdate.apply_eq_some h with hcount | ⟨hcount, hstatus⟩
    · refine .inl ⟨hcount, ?_⟩
      simp only [outboxAudit, auditUpdate, hcount, lt_irrefl, and_false, if_false]
      split
      · exact auditStatus_claim
      · rfl
    · refine .inr ⟨hcount, ?_⟩
      have hclaimed : e.status = .publishing ∧ o.publishAttempts < e.publishAttempts :=
        ⟨hstatus, hcount ▸ Nat.lt_succ_self _⟩
      simp only [outboxAudit, auditUpdate, if_pos hclaimed]
      split <;> rfl

theorem OutboxStatement.within (statement : OutboxStatement) :
    statement.statement.Within OutboxRow.IsNew OutboxRow.Changes := by
  cases statement with
  | create now arg => exact ⟨arg, now, rfl⟩
  | update now id u => exact fun o e h => ⟨u, now, h⟩
  | elsewhere => trivial

/-- The entries about a job or an event, in the order of their numbers, lead from nowhere
to `pending` and on to the present status, and the attempts and claims they are about are
those from the first to the last, each once. -/
theorem auditTrails_replay (jobStatements : List EmailJobStatement)
    (eventStatements : List OutboxStatement) (id : UUID) :
    ((emailJobHistory jobStatements).log.Pairwise (fun a b => a.id < b.id) ∧
      ∀ job, (emailJobHistory jobStatements).rows id = some job →
        Replays "pending" job.status.text
          (((emailJobHistory jobStatements).trail id).map AuditRow.ends) ∧
        ((emailJobHistory jobStatements).trail id).filterMap AuditRow.startedAttempt =
          List.range' 1 job.attemptCount) ∧
    ((outboxHistory eventStatements).log.Pairwise (fun a b => a.id < b.id) ∧
      ∀ event, (outboxHistory eventStatements).rows id = some event →
        Replays "pending" event.status.text
          (((outboxHistory eventStatements).trail id).map AuditRow.ends) ∧
        ((outboxHistory eventStatements).trail id).filterMap AuditRow.claim =
          List.range' 1 event.publishAttempts) := by
  have hjobs : ∀ statement ∈ jobStatements.map EmailJobStatement.statement,
      statement.Within EmailJobRow.IsNew EmailJobRow.Changes :=
    List.forall_mem_map.mpr fun statement _ => statement.within
  have hevents : ∀ statement ∈ eventStatements.map OutboxStatement.statement,
      statement.Within OutboxRow.IsNew OutboxRow.Changes :=
    List.forall_mem_map.mpr fun statement _ => statement.within
  refine ⟨⟨(Audited.numbered_run _).sorted, fun job hjob => ⟨?_, ?_⟩⟩,
    (Audited.numbered_run _).sorted, fun event hevent => ⟨?_, ?_⟩⟩
  · exact emailJobAudit_tellsState.replays hjobs hjob
  · exact emailJobAudit_tellsCount.numbers hjobs hjob
  · exact outboxAudit_tellsState.replays hevents hevent
  · exact outboxAudit_tellsCount.numbers hevents hevent

def jobLife : List EmailJobStatement :=
  [.create 0 ⟨1, none, emailJobTypeVerifyEmail, "ada", "ada@example.com", .null, 10⟩, .elsewhere,
    .update 1 1 .markEmailJobQueued, .update 2 1 .startEmailJobAttempt,
    .update 3 1 (.markEmailJobRetrying none), .update 4 1 .startEmailJobAttempt,
    .update 5 1 (.updateEmailJobDelivery none .delayed (some 5)),
    .update 6 1 (.markEmailJobSent (some "m")), .update 7 1 .startEmailJobAttempt]

def eventLife : List OutboxStatement :=
  [.create 0 ⟨1, 1, "email", .other "", 1, .emailJob, 1⟩,
    .update 1 1 (.claimOutboxEvent (some "a") (some 5)),
    .update 3 1 (.claimOutboxEvent (some "b") (some 9)),
    .update 6 1 (.claimOutboxEvent (some "b") (some 9)),
    .update 7 1 .markOutboxEventPublished]

theorem auditTrails_replay_life :
    (∃ job, (emailJobHistory jobLife).rows 1 = some job ∧ job.status = .sent ∧
      ((emailJobHistory jobLife).trail 1).length = 6 ∧
      ((emailJobHistory jobLife).trail 1).filterMap AuditRow.startedAttempt =
        List.range' 1 job.attemptCount) ∧
    ∃ event, (outboxHistory eventLife).rows 1 = some event ∧ event.status = .published ∧
      ((outboxHistory eventLife).trail 1).length = 4 ∧
      ((outboxHistory eventLife).trail 1).filterMap AuditRow.claim =
        List.range' 1 event.publishAttempts := by
  have htrails := auditTrails_replay jobLife eventLife 1
  exact ⟨⟨_, rfl, rfl, by decide +kernel, (htrails.1.2 _ rfl).2⟩,
    _, rfl, rfl, by decide +kernel, (htrails.2.2 _ rfl).2⟩

end Monierave
