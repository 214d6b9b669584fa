import Monierave.Banking.Support
import Monierave.Queries.Idempotency

/-! # Money-moving transactions

Transfers between customers, with and without an idempotency key, deposits and
withdrawals: the transaction bodies of `transaction_tx.go`.
-/

namespace Monierave

open Relational ReadCommitted Prog

structure TransferTxParams where
  fromAccountPublicID : Option UUID
  toAccountNumber : String
  amount : Int64
  currency : String
  username : String
  narration : String
  correlationID : Option UUID
  deriving DecidableEq

structure TransferTxResult where
  transaction : BankingTransaction
  postings : List LedgerPosting
  fromAccount : Account
  toAccount : Account
  replayed : Bool
  deriving DecidableEq

structure MoneyMovementTxResult where
  transaction : BankingTransaction
  postings : List LedgerPosting
  account : Account
  auditLog : AuditLog
  deriving DecidableEq

structure PendingTransactionParams where
  transactionType : BankingTransactionType
  currency : String
  amount : Int64
  narration : String
  initiatedBy : String
  reversalOf : Option UUID := none

structure PostingParams where
  ledgerAccountID : Int64
  amount : Int64
  deriving DecidableEq

def usdPerTransferLimit : Int64 := 1000000
def usdDailyLimit : Int64 := 2500000
def eurPerTransferLimit : Int64 := 1000000
def eurDailyLimit : Int64 := 2500000

def transferLimits (currency : String) : Except Err (Int64 × Int64) :=
  if currency = "USD" then .ok (usdPerTransferLimit, usdDailyLimit)
  else if currency = "EUR" then .ok (eurPerTransferLimit, eurDailyLimit)
  else .error .currencyMismatch

/-! ## Building blocks -/

def newTransactionIdentity (id : UUID) : UUID × String :=
  (id, "TXN-" ++ String.ofList (id.hex.map Char.toUpper))

def createPostings (env : Env) (transactionID : UUID) : List PostingParams → Tx (List LedgerPosting)
  | [] => pure []
  | posting :: postings => do
    let value ← call (createLedgerPosting env.now transactionID posting.ledgerAccountID
      posting.amount)
    let created ← createPostings env transactionID postings
    pure (value :: created)

/-- A pending transaction with its postings. The total is an `int64` and wraps. -/
def createBalancedTransaction (env : Env) (arg : PendingTransactionParams)
    (postings : List PostingParams) : Tx (BankingTransaction × List LedgerPosting) := do
  refuse (arg.amount ≤ 0) (.other "amount must be positive")
  refuse (postings.length < 2) (.other "at least two postings are required")
  refuse (∃ p ∈ postings, p.amount = 0) (.other "posting amount cannot be zero")
  refuse (postings.foldl (fun total p => total + p.amount) 0 ≠ 0)
    (.other "postings must balance to zero")
  let identity := newTransactionIdentity (env.uuid 0)
  let transaction ← call (createBankingTransaction env.now {
    id := identity.1
    reference := identity.2
    transactionType := arg.transactionType
    currency := arg.currency
    amount := arg.amount
    narration := trimSpace arg.narration
    initiatedBy := arg.initiatedBy
    reversalOf := arg.reversalOf })
  let created ← createPostings env transaction.id postings
  pure (transaction, created)

def customerLedgerAccount (accountID : Int64) : Tx LedgerAccount :=
  fetch .noRows (getCustomerLedgerAccount accountID)

/-- Add to a balance; `missing` is what a refused update is reported as. -/
def addAccountBalance (env : Env) (accountID amount : Int64) (missing : Err) : Tx Account :=
  fetch missing (addAccountBalanceInternal env.now accountID amount)

def subtractAccountBalance (env : Env) (accountID amount : Int64) : Tx Account :=
  addAccountBalance env accountID (-amount) .insufficientBalance

def lockTransferAccounts (fromAccountID toAccountID : Int64) : Tx (Account × Account) := do
  let firstID := if fromAccountID > toAccountID then toAccountID else fromAccountID
  let secondID := if fromAccountID > toAccountID then fromAccountID else toAccountID
  let first ← fetch .noRows (getAccountForUpdate firstID)
  let second ← fetch .noRows (getAccountForUpdate secondID)
  pure (if first.id = fromAccountID then (first, second) else (second, first))

def loadAndLockTransferAccounts (fromPublicID : Option UUID) (toAccountNumber : String) :
    Tx (Account × Account) := do
  let fromAccount ← fetch .accountNotFound (getAccountByPublicID fromPublicID)
  let toAccount ← fetch .recipientNotFound (getAccountByAccountNumber toAccountNumber)
  refuse (fromAccount.id = toAccount.id) .sameAccount
  lockTransferAccounts fromAccount.id toAccount.id

/-! ## Transfers -/

def markPosted (env : Env) (id : UUID) : Tx BankingTransaction :=
  fetch .noRows (markBankingTransactionPosted env.now id)

def transferNotification (arg : TransferTxParams) (transaction : BankingTransaction)
    (username : String) (direction : Direction) : FinancialNotificationParams where
  username := username
  eventType := domainEventTransactionPosted
  entityType := .bankingTransaction
  entityID := some transaction.id
  correlationID := arg.correlationID
  reference := transaction.reference
  amount := transaction.amount
  currency := transaction.currency
  direction := some direction
  occurredAt := transaction.postedAt.getD zeroTime

def transferWithQueries (env : Env) (arg : TransferTxParams) : Tx TransferTxResult := do
  let (fromAccount, toAccount) ←
    loadAndLockTransferAccounts arg.fromAccountPublicID arg.toAccountNumber
  refuse (fromAccount.owner ≠ arg.username) .accountNotOwned
  refuse (fromAccount.currency ≠ arg.currency ∨ toAccount.currency ≠ arg.currency)
    .currencyMismatch
  refuse (fromAccount.status = .frozen) .accountFrozen
  refuse (fromAccount.status = .closed ∨ toAccount.status = .closed) .accountClosed
  let (perTransferLimit, dailyLimit) ← ofExcept (transferLimits arg.currency)
  refuse (arg.amount > perTransferLimit) .perTransferLimitExceeded
  let fromLedger ← customerLedgerAccount fromAccount.id
  let dailyTotal ← call (getDailyOutgoingTransferTotal env.now fromLedger.id)
  refuse (dailyTotal > dailyLimit - arg.amount) .dailyTransferLimitExceeded
  let toLedger ← customerLedgerAccount toAccount.id
  let (transaction, postings) ← createBalancedTransaction env {
      transactionType := .internalTransfer
      currency := arg.currency
      amount := arg.amount
      narration := arg.narration
      initiatedBy := arg.username }
    [⟨fromLedger.id, -arg.amount⟩, ⟨toLedger.id, arg.amount⟩]
  let _ ← createFinancialAudit env {
    entityType := .bankingTransaction
    entityID := some transaction.id
    correlationID := arg.correlationID
    eventType := "transfer_created"
    actor := arg.username
    toState := BankingTransactionStatus.text .pending }
  let fromUpdated ← subtractAccountBalance env fromAccount.id arg.amount
  let toUpdated ← addAccountBalance env toAccount.id arg.amount .noRows
  let posted ← markPosted env transaction.id
  let _ ← createFinancialAudit env {
    entityType := .bankingTransaction
    entityID := some posted.id
    correlationID := arg.correlationID
    eventType := "transfer_posted"
    actor := arg.username
    fromState := BankingTransactionStatus.text .pending
    toState := BankingTransactionStatus.text .posted }
  let _ ← createFinancialNotification env 1
    (transferNotification arg posted fromUpdated.owner .outgoing)
  let _ ← createFinancialNotification env 3
    (transferNotification arg posted toUpdated.owner .incoming)
  pure ⟨posted, postings, fromUpdated, toUpdated, false⟩

def transferTx (env : Env) (arg : TransferTxParams) : Tx TransferTxResult :=
  execTx (transferWithQueries env arg)

/-! ## Transfers with an idempotency key -/

structure IdempotentTransferTxParams extends TransferTxParams where
  idempotencyKey : String
  requestHash : Bytes
  deriving DecidableEq

def idempotencyResponseStatusCreated : Int := 201

def TransferTxResult.snapshot (r : TransferTxResult) : ResultSnapshot :=
  ⟨r.transaction, r.postings, r.fromAccount, r.toAccount⟩

def ResultSnapshot.replay (s : ResultSnapshot) : TransferTxResult :=
  ⟨s.transaction, s.postings, s.fromAccount, s.toAccount, true⟩

def replayTransfer (arg : IdempotentTransferTxParams) : Tx TransferTxResult := do
  let id ← fetch .noRows (findIdempotencyKey arg.username arg.idempotencyKey)
  let existing ← fetch .noRows (lockIdempotencyKey id)
  refuse (existing.requestHash ≠ arg.requestHash) .idempotencyConflict
  refuse (existing.transactionID = none) (.other "incomplete idempotency record")
  let snapshot ← found (.other "incomplete idempotency record") existing.resultSnapshot
  pure snapshot.replay

def recordTransfer (env : Env) (arg : IdempotentTransferTxParams) : Tx TransferTxResult := do
  let result ← transferWithQueries env arg.toTransferTxParams
  let _ ← fetch .noRows (completeIdempotencyKey {
    username := arg.username
    idempotencyKey := arg.idempotencyKey
    transactionID := result.transaction.id
    responseStatus := idempotencyResponseStatusCreated
    resultSnapshot := result.snapshot })
  pure result

def reserveKey (env : Env) (arg : IdempotentTransferTxParams) : Tx TransferTxResult := do
  match ← call (createIdempotencyKey env arg.username arg.idempotencyKey arg.requestHash) with
  | none => replayTransfer arg
  | some _ => recordTransfer env arg

def dropExpiredKey (env : Env) (arg : IdempotentTransferTxParams) : Option Int64 → Tx Unit
  | none => pure ()
  | some id => do
    let _ ← call (deleteIdempotencyKeyIf
      (IdempotencyKey.expiredUnder env.now arg.username arg.idempotencyKey) id)

def idempotentTransferTx (env : Env) (arg : IdempotentTransferTxParams) : Tx TransferTxResult :=
  execTx do
    let expired ← call (findExpiredIdempotencyKey env.now arg.username arg.idempotencyKey)
    dropExpiredKey env arg expired
    reserveKey env arg

/-! ## The record of a failed transfer -/

def transferFailureEvent (e : Err) : String :=
  if e.is .insufficientBalance then "transfer_rejected_insufficient_funds"
  else if e.is .perTransferLimitExceeded || e.is .dailyTransferLimitExceeded then
    "transfer_rejected_limit"
  else "transfer_failed"

def transferNotificationFailureReason (e : Err) : String :=
  if e.is .insufficientBalance then "Insufficient funds"
  else if e.is .perTransferLimitExceeded || e.is .dailyTransferLimitExceeded then
    "Transfer limit exceeded"
  else if e.is .accountFrozen then "The sending account is frozen"
  else if e.is .accountClosed then "An account involved in the transfer is closed"
  else "The transfer could not be completed"

def attemptReference (correlationID : Option UUID) : String :=
  "ATTEMPT-" ++ String.ofList ((correlationID.elim [] UUID.hex).map Char.toUpper)

def auditTransferFailureTx (env : Env) (arg : TransferTxParams) (transferErr : Err) : Tx Unit :=
  execTx do
    let _ ← createFinancialAudit env {
      entityType := .transferAttempt
      entityID := arg.correlationID
      correlationID := arg.correlationID
      eventType := transferFailureEvent transferErr
      actor := arg.username
      toState := "rejected"
      message := transferErr.text }
    let _ ← createFinancialNotification env 0 {
      username := arg.username
      eventType := domainEventTransactionFailed
      entityType := .transferAttempt
      entityID := arg.correlationID
      correlationID := arg.correlationID
      reference := attemptReference arg.correlationID
      amount := arg.amount
      currency := arg.currency
      direction := some .outgoing
      occurredAt := env.clock
      reason := transferNotificationFailureReason transferErr }
    pure ()

/-! ## Deposits and withdrawals -/

/-- The two kinds of movement between a customer and the settlement account. -/
inductive SettlementKind
  | deposit
  | withdrawal
  deriving DecidableEq

namespace SettlementKind

def transactionType : SettlementKind → BankingTransactionType
  | deposit => .deposit
  | withdrawal => .withdrawal

def direction : SettlementKind → Direction
  | deposit => .incoming
  | withdrawal => .outgoing

def postings (kind : SettlementKind) (settlementID customerID amount : Int64) :
    List PostingParams :=
  match kind with
  | deposit => [⟨settlementID, -amount⟩, ⟨customerID, amount⟩]
  | withdrawal => [⟨settlementID, amount⟩, ⟨customerID, -amount⟩]

end SettlementKind

def settleAccountBalance (env : Env) (kind : SettlementKind) (accountID amount : Int64) :
    Tx Account :=
  match kind with
  | .withdrawal => subtractAccountBalance env accountID amount
  | .deposit => addAccountBalance env accountID amount .noRows

structure SettlementMovementParams where
  accountPublicID : Option UUID
  amount : Int64
  narration : String
  actor : String
  correlationID : Option UUID
  deriving DecidableEq

def settlementMovementTx (env : Env) (kind : SettlementKind) (arg : SettlementMovementParams) :
    Tx MoneyMovementTxResult :=
  execTx do
    let located ← fetch .accountNotFound (getAccountByPublicID arg.accountPublicID)
    let account ← fetch .noRows (getAccountForUpdate located.id)
    refuse (account.status = .closed) .accountClosed
    refuse (kind = .withdrawal ∧ account.status = .frozen) .accountFrozen
    let customerLedger ← customerLedgerAccount account.id
    let settlementLedger ← fetch .noRows (getSettlementLedgerAccount account.currency)
    let (transaction, createdPostings) ← createBalancedTransaction env {
        transactionType := kind.transactionType
        currency := account.currency
        amount := arg.amount
        narration := arg.narration
        initiatedBy := arg.actor }
      (kind.postings settlementLedger.id customerLedger.id arg.amount)
    let _ ← createFinancialAudit env {
      entityType := .bankingTransaction
      entityID := some transaction.id
      correlationID := arg.correlationID
      eventType := "operator_transaction_created"
      actor := arg.actor
      toState := BankingTransactionStatus.text .pending }
    let updated ← settleAccountBalance env kind account.id arg.amount
    let posted ← markPosted env transaction.id
    let audit ← createFinancialAudit env {
      entityType := .bankingTransaction
      entityID := some posted.id
      correlationID := arg.correlationID
      eventType := "operator_transaction_posted"
      actor := arg.actor
      fromState := BankingTransactionStatus.text .pending
      toState := BankingTransactionStatus.text .posted }
    let _ ← createFinancialNotification env 1 {
      username := updated.owner
      eventType := domainEventTransactionPosted
      entityType := .bankingTransaction
      entityID := some posted.id
      correlationID := arg.correlationID
      reference := posted.reference
      amount := posted.amount
      currency := posted.currency
      direction := some kind.direction
      occurredAt := posted.postedAt.getD zeroTime }
    pure ⟨posted, createdPostings, updated, audit⟩

end Monierave
