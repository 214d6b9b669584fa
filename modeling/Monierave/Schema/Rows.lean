import Monierave.Relational.Table
import Monierave.Unicode.CaseMapping

/-! # Rows of the Monierave database

One structure for each table, with the columns the modelled code reads or writes,
and the entries each row has in the unique indexes of its table, in the order the
indexes were created.
-/

namespace Monierave

open Relational

abbrev UUID := BitVec 128

-- Statements about every element of a list are decided along the list, never by going
-- through all identifiers.
instance (priority := 1100) decidableForallMem {α : Type*} {p : α → Prop} [DecidablePred p]
    (l : List α) : Decidable (∀ x ∈ l, p x) :=
  List.decidableBAll p l

def UUID.hex (id : UUID) : List Char :=
  (List.range 32).map fun i => Nat.digitChar (id.toNat / 16 ^ (31 - i) % 16)

def UUID.text (id : UUID) : String :=
  let h := id.hex
  String.ofList (h.take 8 ++ '-' :: (h.drop 8).take 4 ++ '-' :: (h.drop 12).take 4 ++
    '-' :: (h.drop 16).take 4 ++ '-' :: h.drop 20)

abbrev Timestamp := Int

abbrev Bytes := List UInt8

def microsPerDay : Int := 86400000000

/-! ## Accounts -/

/-- Account lifecycle state. Frozen accounts may receive funds but cannot send;
closed accounts cannot transact. -/
inductive FinancialAccountStatus
  | active
  | frozen
  | closed
  deriving DecidableEq, Repr

namespace FinancialAccountStatus

def text : FinancialAccountStatus → String
  | active => "active"
  | frozen => "frozen"
  | closed => "closed"

end FinancialAccountStatus

structure Account where
  id : Int64
  owner : String
  balance : Int64
  currency : String
  createdAt : Timestamp
  publicID : UUID
  status : FinancialAccountStatus
  updatedAt : Timestamp
  closedAt : Option Timestamp
  accountNumber : String
  deriving DecidableEq

inductive AccountKey
  | id (id : Int64)
  | ownerCurrency (owner currency : String)
  | publicID (publicID : UUID)
  | accountNumber (accountNumber : String)
  deriving DecidableEq

namespace AccountKey

def constraint : AccountKey → String
  | id _ => "accounts_pkey"
  | ownerCurrency _ _ => "accounts_owner_currency_idx"
  | publicID _ => "accounts_public_id_key"
  | accountNumber _ => "accounts_account_number_key"

end AccountKey

instance : Keyed Account AccountKey where
  pk a := .id a.id
  keys a := [.id a.id, .ownerCurrency a.owner a.currency, .publicID a.publicID,
    .accountNumber a.accountNumber]

/-! ## Beneficiaries -/

structure Beneficiary where
  id : UUID
  owner : String
  destinationAccountID : Int64
  nickname : String
  createdAt : Timestamp
  updatedAt : Timestamp
  deriving DecidableEq

inductive BeneficiaryKey
  | id (id : UUID)
  | ownerDestination (owner : String) (accountID : Int64)
  deriving DecidableEq

namespace BeneficiaryKey

def constraint : BeneficiaryKey → String
  | id _ => "beneficiaries_pkey"
  | ownerDestination _ _ => "beneficiaries_owner_destination_key"

end BeneficiaryKey

instance : Keyed Beneficiary BeneficiaryKey where
  pk b := .id b.id
  keys b := [.id b.id, .ownerDestination b.owner b.destinationAccountID]

/-! ## The ledger -/

/-- Who a ledger account stands for. The shape check of the table leaves these
two combinations of `kind`, `customer_account_id` and `code`. -/
inductive LedgerOwner
  | customer (accountID : Int64)
  | settlement (code : String)
  deriving DecidableEq

structure LedgerAccount where
  id : Int64
  owner : LedgerOwner
  currency : String
  deriving DecidableEq

namespace LedgerAccount

def customerAccountID (l : LedgerAccount) : Option Int64 :=
  match l.owner with
  | .customer accountID => some accountID
  | .settlement _ => none

end LedgerAccount

inductive LedgerAccountKey
  | id (id : Int64)
  | customerAccountID (accountID : Int64)
  | code (code : String)
  deriving DecidableEq

namespace LedgerAccountKey

def ofOwner : LedgerOwner → LedgerAccountKey
  | .customer accountID => customerAccountID accountID
  | .settlement text => code text

def constraint : LedgerAccountKey → String
  | id _ => "ledger_accounts_pkey"
  | customerAccountID _ => "ledger_accounts_customer_account_id_key"
  | code _ => "ledger_accounts_code_key"

end LedgerAccountKey

instance : Keyed LedgerAccount LedgerAccountKey where
  pk l := .id l.id
  keys l := [.id l.id, .ofOwner l.owner]
  pk_of_mem := by
    intro r s h
    rcases List.mem_cons.mp h with h | h
    · exact h.symm
    · rw [List.mem_singleton] at h
      cases ho : s.owner <;> rw [ho] at h <;> cases h

inductive BankingTransactionType
  | deposit
  | withdrawal
  | internalTransfer
  | reversal
  deriving DecidableEq, Repr

inductive BankingTransactionStatus
  | pending
  | posted
  | failed
  | reversed
  deriving DecidableEq, Repr

namespace BankingTransactionStatus

def text : BankingTransactionStatus → String
  | pending => "pending"
  | posted => "posted"
  | failed => "failed"
  | reversed => "reversed"

end BankingTransactionStatus

structure BankingTransaction where
  id : UUID
  reference : String
  transactionType : BankingTransactionType
  status : BankingTransactionStatus
  currency : String
  amount : Int64
  narration : String
  initiatedBy : String
  reversalOf : Option UUID
  createdAt : Timestamp
  postedAt : Option Timestamp
  failedAt : Option Timestamp
  reversedAt : Option Timestamp
  deriving DecidableEq

inductive BankingTransactionKey
  | id (id : UUID)
  | reference (reference : String)
  | reversalOf (original : UUID)
  deriving DecidableEq

namespace BankingTransactionKey

def constraint : BankingTransactionKey → String
  | id _ => "banking_transactions_pkey"
  | reference _ => "banking_transactions_reference_key"
  | reversalOf _ => "banking_transactions_reversal_of_key"

end BankingTransactionKey

instance : Keyed BankingTransaction BankingTransactionKey where
  pk t := .id t.id
  keys t := [.id t.id, .reference t.reference] ++ t.reversalOf.toList.map .reversalOf

structure LedgerPosting where
  transactionID : UUID
  ledgerAccountID : Int64
  amount : Int64
  createdAt : Timestamp
  deriving DecidableEq

inductive LedgerPostingKey
  | transactionAccount (transactionID : UUID) (ledgerAccountID : Int64)
  deriving DecidableEq

namespace LedgerPostingKey

def constraint : LedgerPostingKey → String
  | transactionAccount _ _ => "ledger_postings_transaction_account_key"

end LedgerPostingKey

instance : Keyed LedgerPosting LedgerPostingKey where
  pk p := .transactionAccount p.transactionID p.ledgerAccountID
  keys p := [.transactionAccount p.transactionID p.ledgerAccountID]

/-! ## Idempotency keys -/

/-- The committed result of a transfer as it is stored for replay: what
`json.Marshal` keeps of a `TransferTxResult`, whose `Replayed` field is not
part of its JSON form. -/
structure ResultSnapshot where
  transaction : BankingTransaction
  postings : List LedgerPosting
  fromAccount : Account
  toAccount : Account
  deriving DecidableEq

/-- Every row belongs to the one operation the table admits, `internal_transfer`. -/
structure IdempotencyKey where
  id : Int64
  username : String
  idempotencyKey : String
  requestHash : Bytes
  transactionID : Option UUID
  responseStatus : Option Int
  resultSnapshot : Option ResultSnapshot
  createdAt : Timestamp
  expiresAt : Timestamp
  deriving DecidableEq

inductive IdempotencyKeyKey
  | id (id : Int64)
  | ownerOperation (username idempotencyKey : String)
  deriving DecidableEq

namespace IdempotencyKeyKey

def constraint : IdempotencyKeyKey → String
  | id _ => "idempotency_keys_pkey"
  | ownerOperation _ _ => "idempotency_keys_owner_operation_key"

end IdempotencyKeyKey

instance : Keyed IdempotencyKey IdempotencyKeyKey where
  pk r := .id r.id
  keys r := [.id r.id, .ownerOperation r.username r.idempotencyKey]

/-! ## Users and sessions -/

inductive UserAccountStatus
  | pending
  | active
  | disabled
  deriving DecidableEq, Repr

namespace UserAccountStatus

def text : UserAccountStatus → String
  | pending => "pending"
  | active => "active"
  | disabled => "disabled"

end UserAccountStatus

inductive EmailDeliverabilityStatus
  | unknown
  | pending
  | deliverable
  | undeliverable
  deriving DecidableEq, Repr

structure User where
  username : String
  hashedPassword : String
  fullName : String
  email : String
  passwordChangedAt : Timestamp
  emailVerifiedAt : Option Timestamp
  emailDeliverabilityStatus : EmailDeliverabilityStatus
  emailDeliverabilityUpdatedAt : Option Timestamp
  emailBouncedAt : Option Timestamp
  accountStatus : UserAccountStatus
  registrationExpiresAt : Option Timestamp
  deriving DecidableEq

inductive UserKey
  | username (username : String)
  | emailLower (email : String)
  deriving DecidableEq

namespace UserKey

def constraint : UserKey → String
  | username _ => "users_pkey"
  | emailLower _ => "users_email_lower_idx"

end UserKey

/-- No two users have addresses that differ in case only. -/
instance : Keyed User UserKey where
  pk u := .username u.username
  keys u := [.username u.username, .emailLower (Unicode.lower u.email)]

structure Session where
  id : UUID
  username : String
  userAgent : String
  clientIp : String
  expiresAt : Timestamp
  createdAt : Timestamp
  refreshTokenHash : Bytes
  refreshTokenID : UUID
  lastRefreshedAt : Option Timestamp
  revokedAt : Option Timestamp
  revokedReason : Option String
  deviceTokenHash : Bytes
  deriving DecidableEq

inductive SessionKey
  | id (id : UUID)
  | refreshTokenHash (hash : Bytes)
  | deviceTokenHash (hash : Bytes)
  | oneActivePerUser (username : String)
  deriving DecidableEq

namespace SessionKey

def constraint : SessionKey → String
  | id _ => "sessions_pkey"
  | refreshTokenHash _ => "sessions_refresh_token_hash_idx"
  | deviceTokenHash _ => "sessions_device_token_hash_idx"
  | oneActivePerUser _ => "sessions_one_active_per_user_idx"

end SessionKey

/-- The index of active sessions covers the rows that are not revoked. -/
instance : Keyed Session SessionKey where
  pk s := .id s.id
  keys s := [.id s.id, .refreshTokenHash s.refreshTokenHash, .deviceTokenHash s.deviceTokenHash] ++
    (if s.revokedAt.isNone then [.oneActivePerUser s.username] else [])
  pk_of_mem := by
    intro r s h
    by_cases hs : s.revokedAt.isNone
    · simpa [hs, eq_comm] using h
    · simpa [hs, eq_comm] using h

/-! ## Audit history and notifications -/

inductive EntityType
  | account
  | bankingTransaction
  | transferAttempt
  | session
  | authenticationAttempt
  | emailJob
  | outboxEvent
  | reconciliation
  deriving DecidableEq, Repr

structure AuditLog where
  entityType : EntityType
  entityID : UUID
  correlationID : UUID
  eventType : String
  actor : String
  fromState : Option String
  toState : Option String
  message : Option String
  createdAt : Timestamp
  deriving DecidableEq

inductive Direction
  | incoming
  | outgoing
  deriving DecidableEq, Repr

def Direction.text : Direction → String
  | incoming => "incoming"
  | outgoing => "outgoing"

structure FinancialNotificationPayload where
  eventID : UUID
  correlationID : UUID
  eventType : String
  reference : String
  amount : Int64
  currency : String
  direction : Option Direction
  occurredAt : Timestamp
  accountStatus : Option FinancialAccountStatus
  reason : String
  deriving DecidableEq

inductive EmailPayload
  | financialNotification (payload : FinancialNotificationPayload)
  | verifyEmail
  deriving DecidableEq

inductive EmailJobStatus
  | pending
  | queued
  | processing
  | retrying
  | sent
  | deadLetter
  deriving DecidableEq, Repr

namespace EmailJobStatus

def text : EmailJobStatus → String
  | pending => "pending"
  | queued => "queued"
  | processing => "processing"
  | retrying => "retrying"
  | sent => "sent"
  | deadLetter => "dead_letter"

end EmailJobStatus

inductive EmailDeliveryStatus
  | pending
  | accepted
  | delivered
  | delayed
  | bounced
  | failed
  | suppressed
  | complained
  deriving DecidableEq, Repr

namespace EmailDeliveryStatus

def text : EmailDeliveryStatus → String
  | pending => "pending"
  | accepted => "accepted"
  | delivered => "delivered"
  | delayed => "delayed"
  | bounced => "bounced"
  | failed => "failed"
  | suppressed => "suppressed"
  | complained => "complained"

end EmailDeliveryStatus

structure VerificationToken where
  hash : Bytes
  expiresAt : Timestamp
  deriving DecidableEq

/-- The type of a job is that of its payload. The pair check of the table leaves
the hash of a verification token and its expiry either both null or both not. -/
structure EmailJob where
  id : UUID
  username : String
  recipient : String
  payload : EmailPayload
  status : EmailJobStatus
  createdAt : Timestamp
  providerMessageID : Option String := none
  deliveryStatus : EmailDeliveryStatus := .pending
  deliveryEventAt : Option Timestamp := none
  verificationToken : Option VerificationToken := none
  deriving DecidableEq

inductive EmailJobKey
  | id (id : UUID)
  | providerMessageID (providerMessageID : String)
  | verificationTokenHash (hash : Bytes)
  deriving DecidableEq

namespace EmailJobKey

def constraint : EmailJobKey → String
  | id _ => "email_jobs_pkey"
  | providerMessageID _ => "email_jobs_provider_message_id_idx"
  | verificationTokenHash _ => "email_jobs_verification_token_hash_idx"

end EmailJobKey

instance : Keyed EmailJob EmailJobKey where
  pk j := .id j.id
  keys j := .id j.id :: (j.providerMessageID.toList.map .providerMessageID ++
    j.verificationToken.toList.map fun t => .verificationTokenHash t.hash)

structure EmailDeliveryEvent where
  webhookID : String
  emailJobID : Option UUID
  providerMessageID : String
  eventType : String
  occurredAt : Timestamp
  deriving DecidableEq

inductive EmailDeliveryEventKey
  | webhookID (webhookID : String)
  deriving DecidableEq

instance : Keyed EmailDeliveryEvent EmailDeliveryEventKey where
  pk e := .webhookID e.webhookID
  keys e := [.webhookID e.webhookID]

inductive OutboxStatus
  | pending
  | publishing
  | published
  deriving DecidableEq, Repr

namespace OutboxStatus

def text : OutboxStatus → String
  | pending => "pending"
  | publishing => "publishing"
  | published => "published"

end OutboxStatus

structure OutboxEvent where
  id : UUID
  emailJobID : UUID
  eventType : String
  correlationID : UUID
  entityType : EntityType
  entityID : UUID
  status : OutboxStatus
  createdAt : Timestamp
  deriving DecidableEq

inductive OutboxEventKey
  | id (id : UUID)
  | emailJobID (emailJobID : UUID)
  deriving DecidableEq

namespace OutboxEventKey

def constraint : OutboxEventKey → String
  | id _ => "outbox_events_pkey"
  | emailJobID _ => "outbox_events_email_job_id_key"

end OutboxEventKey

instance : Keyed OutboxEvent OutboxEventKey where
  pk e := .id e.id
  keys e := [.id e.id, .emailJobID e.emailJobID]

end Monierave
