import Monierave.ReadCommitted.Program
import Monierave.Schema.Rows

/-! # Tables and row writes

The database as a whole, the writes its statements make and the keys they lock.
-/

namespace Monierave

open Relational ReadCommitted

structure Books where
  accounts : Table Account
  ledgerAccounts : Table LedgerAccount
  bankingTransactions : Table BankingTransaction
  ledgerPostings : Table LedgerPosting

structure DB extends Books where
  users : Table User
  sessions : Table Session
  idempotencyKeys : Table IdempotencyKey
  emailJobs : Table EmailJob
  outboxEvents : Table OutboxEvent
  emailDeliveryEvents : Table EmailDeliveryEvent
  beneficiaries : Table Beneficiary
  auditLogs : List AuditLog

inductive LockKey
  | user (k : UserKey)
  | session (k : SessionKey)
  | account (k : AccountKey)
  | ledgerAccount (k : LedgerAccountKey)
  | bankingTransaction (k : BankingTransactionKey)
  | ledgerPosting (k : LedgerPostingKey)
  | idempotencyKey (k : IdempotencyKeyKey)
  | emailJob (k : EmailJobKey)
  | outboxEvent (k : OutboxEventKey)
  | emailDeliveryEvent (k : EmailDeliveryEventKey)
  | beneficiary (k : BeneficiaryKey)
  deriving DecidableEq

/-- A row of any table with unique indexes. -/
inductive Row
  | user (r : User)
  | session (r : Session)
  | account (r : Account)
  | ledgerAccount (r : LedgerAccount)
  | bankingTransaction (r : BankingTransaction)
  | ledgerPosting (r : LedgerPosting)
  | idempotencyKey (r : IdempotencyKey)
  | emailJob (r : EmailJob)
  | outboxEvent (r : OutboxEvent)
  | emailDeliveryEvent (r : EmailDeliveryEvent)
  | beneficiary (r : Beneficiary)

namespace DB

def entry (db : DB) : LockKey → Option Row
  | .user k => (db.users.get k).map .user
  | .session k => (db.sessions.get k).map .session
  | .account k => (db.accounts.get k).map .account
  | .ledgerAccount k => (db.ledgerAccounts.get k).map .ledgerAccount
  | .bankingTransaction k => (db.bankingTransactions.get k).map .bankingTransaction
  | .ledgerPosting k => (db.ledgerPostings.get k).map .ledgerPosting
  | .idempotencyKey k => (db.idempotencyKeys.get k).map .idempotencyKey
  | .emailJob k => (db.emailJobs.get k).map .emailJob
  | .outboxEvent k => (db.outboxEvents.get k).map .outboxEvent
  | .emailDeliveryEvent k => (db.emailDeliveryEvents.get k).map .emailDeliveryEvent
  | .beneficiary k => (db.beneficiaries.get k).map .beneficiary

end DB

inductive Write
  | insertUser (r : User)
  | updateUser (o r : User)
  | insertSession (r : Session)
  | updateSession (o r : Session)
  | insertAccount (r : Account)
  | updateAccount (o r : Account)
  | insertLedgerAccount (r : LedgerAccount)
  | insertBankingTransaction (r : BankingTransaction)
  | updateBankingTransaction (o r : BankingTransaction)
  | insertLedgerPosting (r : LedgerPosting)
  | insertIdempotencyKey (r : IdempotencyKey)
  | updateIdempotencyKey (o r : IdempotencyKey)
  | deleteIdempotencyKey (o : IdempotencyKey)
  | insertEmailJob (r : EmailJob)
  | updateEmailJob (o r : EmailJob)
  | insertOutboxEvent (r : OutboxEvent)
  | insertEmailDeliveryEvent (r : EmailDeliveryEvent)
  | insertBeneficiary (r : Beneficiary)
  | insertAuditLog (r : AuditLog)
  deriving DecidableEq

namespace Write

def apply : Write → DB → DB
  | insertUser r, db => { db with users := db.users.insert r }
  | updateUser o r, db => { db with users := db.users.amend o r }
  | insertSession r, db => { db with sessions := db.sessions.insert r }
  | updateSession o r, db => { db with sessions := db.sessions.amend o r }
  | insertAccount r, db => { db with accounts := db.accounts.insert r }
  | updateAccount o r, db => { db with accounts := db.accounts.amend o r }
  | insertLedgerAccount r, db => { db with ledgerAccounts := db.ledgerAccounts.insert r }
  | insertBankingTransaction r, db =>
    { db with bankingTransactions := db.bankingTransactions.insert r }
  | updateBankingTransaction o r, db =>
    { db with bankingTransactions := db.bankingTransactions.amend o r }
  | insertLedgerPosting r, db => { db with ledgerPostings := db.ledgerPostings.insert r }
  | insertIdempotencyKey r, db => { db with idempotencyKeys := db.idempotencyKeys.insert r }
  | updateIdempotencyKey o r, db => { db with idempotencyKeys := db.idempotencyKeys.amend o r }
  | deleteIdempotencyKey o, db => { db with idempotencyKeys := db.idempotencyKeys.remove o }
  | insertEmailJob r, db => { db with emailJobs := db.emailJobs.insert r }
  | updateEmailJob o r, db => { db with emailJobs := db.emailJobs.amend o r }
  | insertOutboxEvent r, db => { db with outboxEvents := db.outboxEvents.insert r }
  | insertEmailDeliveryEvent r, db =>
    { db with emailDeliveryEvents := db.emailDeliveryEvents.insert r }
  | insertBeneficiary r, db => { db with beneficiaries := db.beneficiaries.insert r }
  | insertAuditLog r, db => { db with auditLogs := db.auditLogs ++ [r] }

/-- The entries a write holds. A posting also holds its transaction, which its
foreign key references. -/
def keys : Write → List LockKey
  | insertUser r => (Relational.keys r).map .user
  | updateUser o r => (Relational.keys o ++ Relational.keys r).map .user
  | insertSession r => (Relational.keys r).map .session
  | updateSession o r => (Relational.keys o ++ Relational.keys r).map .session
  | insertAccount r => (Relational.keys r).map .account
  | updateAccount o r => (Relational.keys o ++ Relational.keys r).map .account
  | insertLedgerAccount r => (Relational.keys r).map .ledgerAccount
  | insertBankingTransaction r => (Relational.keys r).map .bankingTransaction
  | updateBankingTransaction o r =>
    (Relational.keys o ++ Relational.keys r).map .bankingTransaction
  | insertLedgerPosting r =>
    .bankingTransaction (.id r.transactionID) :: (Relational.keys r).map .ledgerPosting
  | insertIdempotencyKey r => (Relational.keys r).map .idempotencyKey
  | updateIdempotencyKey o r => (Relational.keys o ++ Relational.keys r).map .idempotencyKey
  | deleteIdempotencyKey o => (Relational.keys o).map .idempotencyKey
  | insertEmailJob r => (Relational.keys r).map .emailJob
  | updateEmailJob o r => (Relational.keys o ++ Relational.keys r).map .emailJob
  | insertOutboxEvent r => (Relational.keys r).map .outboxEvent
  | insertEmailDeliveryEvent r => (Relational.keys r).map .emailDeliveryEvent
  | insertBeneficiary r => (Relational.keys r).map .beneficiary
  | insertAuditLog _ => []

end Write

instance : Storage Write DB LockKey where
  apply := Write.apply
  keys := Write.keys

@[simp] theorem apply_write (w : Write) (db : DB) : apply w db = w.apply db := rfl

@[simp] theorem storage_keys (w : Write) : Storage.keys w = w.keys := rfl

namespace DB

section Entries

variable {db db' : DB}

/-! Two databases agree on an entry exactly when the lookups answer alike. -/

@[simp] theorem entry_user {k : UserKey} :
    db.entry (.user k) = db'.entry (.user k) ↔ db.users.get k = db'.users.get k :=
  Option.map_inj_right fun _ _ h => by cases h; rfl

@[simp] theorem entry_session {k : SessionKey} :
    db.entry (.session k) = db'.entry (.session k) ↔ db.sessions.get k = db'.sessions.get k :=
  Option.map_inj_right fun _ _ h => by cases h; rfl

@[simp] theorem entry_account {k : AccountKey} :
    db.entry (.account k) = db'.entry (.account k) ↔ db.accounts.get k = db'.accounts.get k :=
  Option.map_inj_right fun _ _ h => by cases h; rfl

@[simp] theorem entry_ledgerAccount {k : LedgerAccountKey} :
    db.entry (.ledgerAccount k) = db'.entry (.ledgerAccount k) ↔
      db.ledgerAccounts.get k = db'.ledgerAccounts.get k :=
  Option.map_inj_right fun _ _ h => by cases h; rfl

@[simp] theorem entry_bankingTransaction {k : BankingTransactionKey} :
    db.entry (.bankingTransaction k) = db'.entry (.bankingTransaction k) ↔
      db.bankingTransactions.get k = db'.bankingTransactions.get k :=
  Option.map_inj_right fun _ _ h => by cases h; rfl

@[simp] theorem entry_ledgerPosting {k : LedgerPostingKey} :
    db.entry (.ledgerPosting k) = db'.entry (.ledgerPosting k) ↔
      db.ledgerPostings.get k = db'.ledgerPostings.get k :=
  Option.map_inj_right fun _ _ h => by cases h; rfl

@[simp] theorem entry_idempotencyKey {k : IdempotencyKeyKey} :
    db.entry (.idempotencyKey k) = db'.entry (.idempotencyKey k) ↔
      db.idempotencyKeys.get k = db'.idempotencyKeys.get k :=
  Option.map_inj_right fun _ _ h => by cases h; rfl

@[simp] theorem entry_emailJob {k : EmailJobKey} :
    db.entry (.emailJob k) = db'.entry (.emailJob k) ↔ db.emailJobs.get k = db'.emailJobs.get k :=
  Option.map_inj_right fun _ _ h => by cases h; rfl

@[simp] theorem entry_outboxEvent {k : OutboxEventKey} :
    db.entry (.outboxEvent k) = db'.entry (.outboxEvent k) ↔
      db.outboxEvents.get k = db'.outboxEvents.get k :=
  Option.map_inj_right fun _ _ h => by cases h; rfl

@[simp] theorem entry_emailDeliveryEvent {k : EmailDeliveryEventKey} :
    db.entry (.emailDeliveryEvent k) = db'.entry (.emailDeliveryEvent k) ↔
      db.emailDeliveryEvents.get k = db'.emailDeliveryEvents.get k :=
  Option.map_inj_right fun _ _ h => by cases h; rfl

@[simp] theorem entry_beneficiary {k : BeneficiaryKey} :
    db.entry (.beneficiary k) = db'.entry (.beneficiary k) ↔
      db.beneficiaries.get k = db'.beneficiaries.get k :=
  Option.map_inj_right fun _ _ h => by cases h; rfl

end Entries

theorem entry_apply_of_notMem {w : Write} {k : LockKey} (hk : k ∉ w.keys) (db : DB) :
    (w.apply db).entry k = db.entry k := by
  cases w <;> cases k <;> first
    | rfl
    | (simp only [Write.keys, List.mem_map, List.mem_append, not_exists, not_and, List.mem_cons,
        not_or] at hk
       simp only [entry, Write.apply]
       first
         | rw [Table.get_amend_of_notMem (fun h => hk _ (Or.inl h) rfl)
             (fun h => hk _ (Or.inr h) rfl)]
         | rw [Table.get_insert_of_notMem (fun h => hk _ h rfl)]
         | rw [Table.get_insert_of_notMem (fun h => hk.2 _ h rfl)]
         | rw [Table.get_remove_of_notMem (fun h => hk _ h rfl)])

theorem entry_view_of_notMem {ws : List Write} {k : LockKey} (hk : ∀ w ∈ ws, k ∉ w.keys)
    (db : DB) : (view ws db).entry k = db.entry k := by
  induction ws generalizing db with
  | nil => rfl
  | cons w ws ih =>
    rw [view_cons, ih (fun w' hw' => hk w' (List.mem_cons_of_mem w hw')), apply_write,
      entry_apply_of_notMem (hk w List.mem_cons_self)]

theorem entry_apply_congr {w : Write} {k : LockKey} {db db' : DB}
    (hw : ∀ j ∈ w.keys, db.entry j = db'.entry j) (hk : db.entry k = db'.entry k) :
    (w.apply db).entry k = (w.apply db').entry k := by
  cases w <;> cases k <;> first
    | exact hk
    | (simp only [Write.keys, List.forall_mem_map, List.mem_append, List.forall_mem_cons,
        entry_user, entry_session, entry_account, entry_ledgerAccount, entry_bankingTransaction,
        entry_ledgerPosting, entry_idempotencyKey, entry_emailJob, entry_outboxEvent,
        entry_emailDeliveryEvent, entry_beneficiary, Write.apply] at hw hk ⊢
       first
         | exact Table.get_amend_congr (fun j hj => hw j (Or.inr hj)) hk
         | exact Table.get_insert_congr hw hk
         | exact Table.get_insert_congr hw.2 hk
         | exact Table.get_remove_congr (hw _ (Keyed.pk_mem _)) hk)

end DB

end Monierave
