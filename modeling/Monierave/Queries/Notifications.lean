import Monierave.Queries.Accounts

/-! # Audit rows, email jobs and outbox events

The inserts every operation ends with.
-/

namespace Monierave

open Relational ReadCommitted

/-- `textValue`: the empty string is stored as null. -/
def textValue (value : String) : Option String := if value = "" then none else some value

def getUser (username : String) : Query (Option User) :=
  readOnly fun db => db.users.get (.username username)

structure CreateAuditLogParams where
  entityType : EntityType
  entityID : Option UUID
  correlationID : Option UUID
  eventType : String
  actor : String
  fromState : Option String
  toState : Option String
  message : Option String

def createAuditLog (now : Timestamp) (arg : CreateAuditLogParams) : Query AuditLog where
  exec _ _ :=
    match arg.entityID, arg.correlationID with
    | none, _ => .error (.sql (.notNullViolation "entity_id"))
    | some _, none => .error (.sql (.notNullViolation "correlation_id"))
    | some entityID, some correlationID =>
      let r : AuditLog := ⟨arg.entityType, entityID, correlationID, arg.eventType, arg.actor,
        arg.fromState, arg.toState, arg.message, now⟩
      .ok { result := r, writes := [.insertAuditLog r] }

theorem createAuditLog_ok {now : Timestamp} {arg : CreateAuditLogParams} {own : List Write}
    {db : DB} {eff : Answer AuditLog} (h : (createAuditLog now arg).exec own db = .ok eff) :
    eff = ⟨eff.result, [.insertAuditLog eff.result], []⟩ := by
  simp only [createAuditLog] at h
  split at h
  · cases h
  · cases h
  · cases h
    rfl

def audited {R : Type} (q : Query R) (audit : R → AuditLog) : Query R where
  waits := q.waits
  exec own db :=
    match q.exec own db with
    | .error e => .error e
    | .ok eff => .ok { eff with writes := eff.writes ++ [.insertAuditLog (audit eff.result)] }

theorem audited_ok {R : Type} {q : Query R} {audit : R → AuditLog} {own : List Write} {db : DB}
    {eff : Answer R} :
    (audited q audit).exec own db = .ok eff ↔ ∃ e, q.exec own db = .ok e ∧
      eff = { e with writes := e.writes ++ [.insertAuditLog (audit e.result)] } := by
  cases h : q.exec own db <;> simp [audited, h, eq_comm]

/-- The trigger `audit_email_job_changes` on an insert without a parent job. -/
def auditEmailJobInsert (now : Timestamp) (j : EmailJob) : AuditLog :=
  ⟨.emailJob, j.id, j.id, "email_job_created", "api", none, some j.status.text, none, now⟩

structure CreateEmailJobParams where
  id : UUID
  username : String
  recipient : String
  payload : EmailPayload

def newEmailJob (now : Timestamp) (arg : CreateEmailJobParams) : EmailJob where
  id := arg.id
  username := arg.username
  recipient := arg.recipient
  payload := arg.payload
  status := .pending
  createdAt := now

def createEmailJob (now : Timestamp) (arg : CreateEmailJobParams) : Query EmailJob :=
  audited
    (insertRow DB.emailJobs EmailJobKey.constraint (fun _ => none)
      (missingUser "email_jobs_username_fkey" arg.username) .insertEmailJob (newEmailJob now arg))
    (auditEmailJobInsert now)

/-- The trigger `audit_domain_outbox_event_changes` on an insert. -/
def auditOutboxEventInsert (now : Timestamp) (e : OutboxEvent) : AuditLog :=
  ⟨.outboxEvent, e.id, e.correlationID, "outbox_event_created", "application", none,
    some e.status.text, none, now⟩

structure CreateOutboxEventParams where
  id : UUID
  emailJobID : UUID
  eventType : String
  correlationID : Option UUID
  entityType : EntityType
  entityID : Option UUID

def CreateOutboxEventParams.violated (arg : CreateOutboxEventParams) : Option SqlError :=
  if arg.correlationID.isNone then some (.notNullViolation "correlation_id")
  else if arg.entityID.isNone then some (.notNullViolation "entity_id")
  else none

def newOutboxEvent (now : Timestamp) (arg : CreateOutboxEventParams) : OutboxEvent :=
  ⟨arg.id, arg.emailJobID, arg.eventType, arg.correlationID.getD 0, arg.entityType,
    arg.entityID.getD 0, .pending, now⟩

/-- The email job it references is always one inserted just before by the same
transaction. -/
def createOutboxEvent (now : Timestamp) (arg : CreateOutboxEventParams) : Query OutboxEvent :=
  audited
    (insertRow DB.outboxEvents OutboxEventKey.constraint (fun _ => arg.violated) (fun _ => none)
      .insertOutboxEvent (newOutboxEvent now arg))
    (auditOutboxEventInsert now)

end Monierave
