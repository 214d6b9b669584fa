import Monierave.Queries.Users

/-! # Queries on verification jobs and delivery reports

The statements of `email_job.sql` and `email_delivery_event.sql` that deal with
the verification of addresses and with what the email provider reports.
-/

namespace Monierave

open Relational ReadCommitted

namespace EmailJob

def rowLock (j : EmailJob) : LockKey := .emailJob (.id j.id)

def tokenLive (clock : Timestamp) (j : EmailJob) : Bool :=
  j.verificationToken.any fun t => decide (clock < t.expiresAt)

def tokenHash (j : EmailJob) : Bytes := (j.verificationToken.map VerificationToken.hash).getD []

end EmailJob

def getEmailJobByVerificationTokenHash (hash : Bytes) : Query (Option EmailJob) :=
  readOnly fun db => db.emailJobs.get (.verificationTokenHash hash)

def getEmailJobForUpdate (id : UUID) : Query (Option EmailJob) :=
  selectForUpdate (fun db => db.emailJobs.get (.id id)) EmailJob.rowLock

def getEmailJobByProviderMessageIDForUpdate (providerMessageID : String) :
    Query (Option EmailJob) :=
  selectForUpdate (fun db => db.emailJobs.get (.providerMessageID providerMessageID))
    EmailJob.rowLock

def EmailJob.latest (best : Option EmailJob) (j : EmailJob) : Option EmailJob :=
  match best with
  | none => some j
  | some b => if b.createdAt < j.createdAt then some j else some b

def getLatestEmailJobForCurrentAddress (username : String) : Query (Option EmailJob) :=
  readOnly fun db =>
    match db.users.get (.username username) with
    | none => none
    | some u => (db.emailJobs.rows.filter fun j => decide (j.username = username) &&
        Unicode.lower j.recipient == Unicode.lower u.email).foldl EmailJob.latest none

/-- An update of one email job by its id. Updates that keep the worker status add
nothing to the audit history. -/
def updateEmailJobRow (id : UUID) (f : EmailJob → Except SqlError (Option EmailJob)) :
    Query (Option EmailJob) :=
  updateRow DB.emailJobs (.id id) f (fun _ _ => none) EmailJobKey.constraint .updateEmailJob
    .emailJob

namespace EmailJob

def tokenColumns : Option Bytes → Option Timestamp → Except SqlError (Option VerificationToken)
  | none, none => .ok none
  | none, some _ => .error (.checkViolation "email_jobs_verification_token_pair_check")
  | some hash, expiresAt =>
    if hash.length ≠ 32 then
      .error (.checkViolation "email_jobs_verification_token_hash_length_check")
    else
      match expiresAt with
      | none => .error (.checkViolation "email_jobs_verification_token_pair_check")
      | some expiresAt => .ok (some ⟨hash, expiresAt⟩)

def setVerificationToken (hash : Option Bytes) (expiresAt : Option Timestamp) (j : EmailJob) :
    Except SqlError (Option EmailJob) :=
  if j.payload = .verifyEmail then
    (tokenColumns hash expiresAt).map fun token => some { j with verificationToken := token }
  else .ok none

/-- The delivery columns that are read again; the times and texts reported along
with the status are not. -/
def setDelivery (providerMessageID : String) (status : EmailDeliveryStatus)
    (occurredAt : Timestamp) (j : EmailJob) : Except SqlError (Option EmailJob) :=
  .ok (if j.deliveryEventAt.all fun at_ => decide (at_ < occurredAt) then
    some { j with
      providerMessageID := some (j.providerMessageID.getD providerMessageID)
      deliveryStatus := status
      deliveryEventAt := some occurredAt }
  else none)

def markSent (providerMessageID : String) (j : EmailJob) : EmailJob :=
  { j with
    status := .sent
    providerMessageID := some providerMessageID
    deliveryStatus := if j.deliveryEventAt.isNone then .accepted else j.deliveryStatus }

end EmailJob

/-- The trigger `audit_email_job_changes` on an update that leaves the job sent. -/
def auditEmailJobSent (now : Timestamp) : Write → List Write
  | .updateEmailJob o r =>
    if o.status = r.status then [.updateEmailJob o r]
    else [.updateEmailJob o r, .insertAuditLog ⟨.emailJob, r.id, r.id, "email_sent", "worker",
      some o.status.text, some r.status.text, none, now⟩]
  | w => [w]

structure SetEmailJobVerificationTokenParams where
  id : UUID
  verificationTokenHash : Option Bytes
  verificationTokenExpiresAt : Option Timestamp

def setEmailJobVerificationToken (arg : SetEmailJobVerificationTokenParams) :
    Query (Option EmailJob) :=
  updateEmailJobRow arg.id
    (EmailJob.setVerificationToken arg.verificationTokenHash arg.verificationTokenExpiresAt)

def updateEmailJobDelivery (id : UUID) (providerMessageID : String) (status : EmailDeliveryStatus)
    (occurredAt : Timestamp) : Query (Option EmailJob) :=
  updateEmailJobRow id (EmailJob.setDelivery providerMessageID status occurredAt)

def markEmailJobSent (now : Timestamp) (id : UUID) (providerMessageID : String) :
    Query (Option EmailJob) where
  waits := (updateEmailJobRow id fun j => .ok (some (j.markSent providerMessageID))).waits
  exec own db :=
    ((updateEmailJobRow id fun j => .ok (some (j.markSent providerMessageID))).exec own db).map
      fun eff => { eff with writes := eff.writes.flatMap (auditEmailJobSent now) }

/-- `INSERT ... ON CONFLICT (webhook_id) DO NOTHING`. -/
def createEmailDeliveryEvent (e : EmailDeliveryEvent) : Query (Option EmailDeliveryEvent) where
  waits _ := [.emailDeliveryEvent (.webhookID e.webhookID)]
  exec _ db :=
    match db.emailDeliveryEvents.get (.webhookID e.webhookID) with
    | some _ => .ok { result := none }
    | none => .ok { result := some e, writes := [.insertEmailDeliveryEvent e] }

theorem updateEmailJobRow_ok {id : UUID} {f : EmailJob → Except SqlError (Option EmailJob)}
    {own : List Write} {db : DB} {eff : Answer (Option EmailJob)}
    (h : (updateEmailJobRow id f).exec own db = .ok eff) :
    eff = ⟨none, [], []⟩ ∨
      ∃ o r, db.emailJobs.get (.id id) = some o ∧ f o = .ok (some r) ∧
        db.emailJobs.clash r = none ∧ eff = ⟨some r, [.updateEmailJob o r], []⟩ := by
  rcases updateRow_ok.mp h with ⟨_, rfl⟩ | ⟨o, r, hup, rfl⟩
  · exact Or.inl rfl
  · exact Or.inr ⟨o, r, hup.row, hup.new, hup.clash, rfl⟩

theorem createEmailDeliveryEvent_ok {e : EmailDeliveryEvent} {own : List Write} {db : DB}
    {eff : Answer (Option EmailDeliveryEvent)} :
    (createEmailDeliveryEvent e).exec own db = .ok eff ↔
      ((∃ o, db.emailDeliveryEvents.get (.webhookID e.webhookID) = some o) ∧
        eff = ⟨none, [], []⟩) ∨
      (db.emailDeliveryEvents.get (.webhookID e.webhookID) = none ∧
        eff = ⟨some e, [.insertEmailDeliveryEvent e], []⟩) := by
  cases h : db.emailDeliveryEvents.get (.webhookID e.webhookID) <;>
    simp [createEmailDeliveryEvent, h, eq_comm]

@[simp] theorem EmailJob.id_mem_keys {id : UUID} {j : EmailJob} :
    EmailJobKey.id id ∈ keys j ↔ id = j.id := by
  simp [keys]

end Monierave
