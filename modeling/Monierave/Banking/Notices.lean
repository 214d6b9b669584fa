import Monierave.Banking.Support
import Monierave.ReadCommitted.Ensures

/-! # What a transaction leaves word of

Beside the books a transaction writes audit rows and, for each customer it concerns,
an email job with its outbox event.
-/

namespace Monierave

open Relational ReadCommitted Prog

abbrev BankingPosition := Position Write DB LockKey

@[ext] structure Notices where
  audits : List AuditLog := []
  jobs : List EmailJob := []
  events : List OutboxEvent := []

namespace Notices

instance : Append Notices where
  append ns ns' := ⟨ns.audits ++ ns'.audits, ns.jobs ++ ns'.jobs, ns.events ++ ns'.events⟩

@[simp] theorem append_audits (ns ns' : Notices) : (ns ++ ns').audits = ns.audits ++ ns'.audits :=
  rfl

@[simp] theorem append_jobs (ns ns' : Notices) : (ns ++ ns').jobs = ns.jobs ++ ns'.jobs := rfl

@[simp] theorem append_events (ns ns' : Notices) : (ns ++ ns').events = ns.events ++ ns'.events :=
  rfl

theorem append_none (ns : Notices) : ns ++ ({} : Notices) = ns := by
  ext1 <;> simp

theorem append_assoc (ns ns' ns'' : Notices) : ns ++ ns' ++ ns'' = ns ++ (ns' ++ ns'') := by
  ext1 <;> simp

end Notices

/-- From the one database to the other the notices were added, and the users they
are addressed to stayed the same. -/
structure DB.Noted (db : DB) (ns : Notices) (db' : DB) : Prop where
  users : db'.users = db.users
  audits : db'.auditLogs = db.auditLogs ++ ns.audits
  jobs : db'.emailJobs.rows = db.emailJobs.rows ++ ns.jobs
  events : db'.outboxEvents.rows = db.outboxEvents.rows ++ ns.events

namespace DB.Noted

variable {db db' db'' : DB} {ns ns' : Notices}

theorem refl (db : DB) : db.Noted {} db := ⟨rfl, by simp, by simp, by simp⟩

theorem trans (h : db.Noted ns db') (h' : db'.Noted ns' db'') : db.Noted (ns ++ ns') db'' where
  users := h'.users.trans h.users
  audits := by simp [h'.audits, h.audits]
  jobs := by simp [h'.jobs, h.jobs]
  events := by simp [h'.events, h.events]

theorem silently (h : db.Noted {} db') (h' : db'.Noted ns db'') : db.Noted ns db'' :=
  ⟨h'.users.trans h.users, by simp [h'.audits, h.audits], by simp [h'.jobs, h.jobs],
    by simp [h'.events, h.events]⟩

theorem silent (h : db.Noted ns db') (h' : db'.Noted {} db'') : db.Noted ns db'' := by
  simpa only [Notices.append_none] using h.trans h'

end DB.Noted

def Write.isSilent : Write → Bool
  | insertUser _ => false
  | updateUser _ _ => false
  | insertEmailJob _ => false
  | updateEmailJob _ _ => false
  | insertOutboxEvent _ => false
  | insertAuditLog _ => false
  | _ => true

theorem noted_apply {w : Write} (h : w.isSilent = true) (db : DB) : db.Noted {} (w.apply db) := by
  have hrefl := DB.Noted.refl db
  cases w <;> first
    | exact ⟨rfl, hrefl.audits, hrefl.jobs, hrefl.events⟩
    | cases h

theorem noted_view {ws : List Write} (h : ∀ w ∈ ws, w.isSilent = true) (db : DB) :
    db.Noted {} (view ws db) := by
  induction ws generalizing db with
  | nil => exact .refl db
  | cons w ws ih =>
    have hw := noted_apply (h w List.mem_cons_self) db
    exact hw.silent (ih (fun w' hw' => h w' (List.mem_cons_of_mem w hw')) (w.apply db))

variable {s : BankingPosition}

/-- The row that `arg` asks for. -/
structure CreateAuditLogParams.Describes (arg : CreateAuditLogParams) (r : AuditLog) : Prop where
  entityType : r.entityType = arg.entityType
  entityID : arg.entityID = some r.entityID
  toState : r.toState = arg.toState

theorem createAuditLog_describes {now : Timestamp} {arg : CreateAuditLogParams} {own : List Write}
    {db : DB} {eff : Answer AuditLog} (h : (createAuditLog now arg).exec own db = .ok eff) :
    arg.Describes eff.result := by
  simp only [createAuditLog] at h
  split at h
  · cases h
  · cases h
  · rename_i entityID _ hentity _
    cases h
    exact ⟨rfl, hentity, rfl⟩

theorem noted_createAuditLog {now : Timestamp} {arg : CreateAuditLogParams} :
    Ensures (call (createAuditLog now arg)) s fun r s' =>
      arg.Describes r ∧ s.db.Noted { audits := [r] } s'.db := by
  apply Ensures.call
  intro eff hs
  refine ⟨createAuditLog_describes hs, ?_⟩
  rw [createAuditLog_ok hs]
  exact ⟨rfl, rfl, by simp [Write.apply], by simp [Write.apply]⟩

def notificationJob (env : Env) (n : Nat) (arg : FinancialNotificationParams) (user : User) :
    EmailJob :=
  newEmailJob env.now {
    id := env.uuid (n + 1)
    username := user.username
    recipient := user.email
    payload := .financialNotification {
      eventID := env.uuid n
      correlationID := arg.correlationID.getD 0
      eventType := arg.eventType
      reference := arg.reference
      amount := arg.amount
      currency := arg.currency
      direction := arg.direction
      occurredAt := if arg.occurredAt = zeroTime then env.clock else arg.occurredAt
      accountStatus := arg.accountStatus
      reason := arg.reason } }

def notificationEvent (env : Env) (n : Nat) (arg : FinancialNotificationParams) : OutboxEvent :=
  newOutboxEvent env.now {
    id := env.uuid n
    emailJobID := env.uuid (n + 1)
    eventType := arg.eventType
    correlationID := arg.correlationID
    entityType := arg.entityType
    entityID := arg.entityID }

def notificationNotices (env : Env) (n : Nat) (arg : FinancialNotificationParams) (user : User) :
    Notices where
  audits := [auditEmailJobInsert env.now (notificationJob env n arg user),
    auditOutboxEventInsert env.now (notificationEvent env n arg)]
  jobs := [notificationJob env n arg user]
  events := [notificationEvent env n arg]

theorem noted_createEmailJob {now : Timestamp} {arg : CreateEmailJobParams} :
    Ensures (call (createEmailJob now arg)) s fun _ s' =>
      s.db.Noted {
        audits := [auditEmailJobInsert now (newEmailJob now arg)]
        jobs := [newEmailJob now arg] } s'.db := by
  apply Ensures.call
  intro eff hs
  obtain ⟨e, he, rfl⟩ := audited_ok.mp hs
  obtain ⟨_, hconf, _, rfl⟩ := insertRow_ok.mp he
  exact ⟨rfl, rfl, Table.insert_rows hconf, by simp [Write.apply]⟩

theorem noted_createOutboxEvent {now : Timestamp} {arg : CreateOutboxEventParams} :
    Ensures (call (createOutboxEvent now arg)) s fun _ s' =>
      arg.entityID.isSome ∧ s.db.Noted {
        audits := [auditOutboxEventInsert now (newOutboxEvent now arg)]
        events := [newOutboxEvent now arg] } s'.db := by
  apply Ensures.call
  intro eff hs
  obtain ⟨e, he, rfl⟩ := audited_ok.mp hs
  obtain ⟨hviol, hconf, _, rfl⟩ := insertRow_ok.mp he
  refine ⟨?_, rfl, rfl, by simp [Write.apply], Table.insert_rows hconf⟩
  simp only [CreateOutboxEventParams.violated] at hviol
  split_ifs at hviol with _ hentity
  simpa [Option.isSome_iff_ne_none] using hentity

theorem noted_createFinancialNotification {env : Env} {n : Nat}
    {arg : FinancialNotificationParams} :
    Ensures (createFinancialNotification env n arg) s fun _ s' =>
      ∃ user, s.db.users.get (.username arg.username) = some user ∧ arg.entityID.isSome ∧
        s.db.Noted (notificationNotices env n arg user) s'.db := by
  apply Ensures.bind
  apply Ensures.fetch
  intro eff user hs huser
  obtain rfl := readOnly_ok.mp hs
  refine .bind (noted_createEmailJob.mono ?_)
  intro _ s₁ h₁
  refine .bind (noted_createOutboxEvent.mono ?_)
  rintro _ s₂ ⟨hentity, h₂⟩
  exact .ret ⟨user, huser, hentity, h₁.trans h₂⟩

end Monierave
