import Mathlib.Data.List.Sort
import Monierave.Banking.Transfers

/-! # Operator actions and the account lifecycle

Freezing, unfreezing, closing and opening accounts and reversing transactions:
the transaction bodies of `operator_tx.go` and `account_tx.go`.
-/

namespace Monierave

open Relational ReadCommitted Prog

/-- The two statuses an operator may ask for are `active` and `frozen`; every
other text is refused like `closed`. -/
structure AccountStatusTxParams where
  accountPublicID : Option UUID
  targetStatus : FinancialAccountStatus
  actor : String
  reason : String
  correlationID : Option UUID
  deriving DecidableEq

structure AccountStatusTxResult where
  account : Account
  auditLog : AuditLog
  deriving DecidableEq

def validateOperatorAction (actor reason : String) (correlationID : Option UUID) :
    Except Err Unit :=
  if trimSpace actor = "" ∨ trimSpace reason = "" ∨ (trimSpace actor).length > 128 ∨
      (trimSpace reason).length > 500 ∨ correlationID.isNone then
    .error .invalidOperatorAction
  else .ok ()

def setAccountStatusTx (env : Env) (arg : AccountStatusTxParams) : Tx AccountStatusTxResult :=
  execTx do
    let account ← fetch .accountNotFound (getAccountByPublicIDForUpdate arg.accountPublicID)
    refuse (account.status = .closed) .accountClosed
    refuse (account.status = arg.targetStatus)
      (if arg.targetStatus = .frozen then .accountAlreadyFrozen else .accountAlreadyActive)
    let updated ← fetch .noRows (setAccountStatus env.now account.id arg.targetStatus)
    let audit ← createOperatorAudit env {
      entityType := .account
      entityID := some account.publicID
      correlationID := arg.correlationID
      eventType := if arg.targetStatus = .frozen then "account_frozen" else "account_unfrozen"
      actor := arg.actor
      fromState := account.status.text
      toState := updated.status.text
      reason := arg.reason }
    let _ ← createFinancialNotification env 0 {
      username := updated.owner
      eventType := if updated.status = .frozen then domainEventAccountFrozen
        else domainEventAccountUnfrozen
      entityType := .account
      entityID := some updated.publicID
      correlationID := arg.correlationID
      occurredAt := updated.updatedAt
      accountStatus := some updated.status
      reason := arg.reason }
    pure ⟨updated, audit⟩

structure ReverseTransactionTxParams where
  transactionID : Option UUID
  actor : String
  reason : String
  correlationID : Option UUID
  deriving DecidableEq

structure ReverseTransactionTxResult where
  original : BankingTransaction
  reversal : BankingTransaction
  postings : List LedgerPosting
  accounts : List Account
  auditLog : AuditLog
  deriving DecidableEq

namespace ReversalSourcePosting

def customerAccountID (p : ReversalSourcePosting) : Option Int64 :=
  match p.owner with
  | .customer accountID => some accountID
  | .settlement _ => none

def opposite (p : ReversalSourcePosting) : PostingParams := ⟨p.ledgerAccountID, -p.amount⟩

end ReversalSourcePosting

def orderedAccountIDs (accountIDs : List Int64) : List Int64 :=
  accountIDs.dedup.insertionSort (· ≤ ·)

def lockAccounts : List Int64 → Tx (List Account)
  | [] => pure []
  | accountID :: rest => do
    let account ← fetch .noRows (getAccountForUpdate accountID)
    let accounts ← lockAccounts rest
    pure (account :: accounts)

def lockAccountsForOperator (accountIDs : List Int64) : Tx (List Account × List Int64) := do
  let ordered := orderedAccountIDs accountIDs
  let accounts ← lockAccounts ordered
  pure (accounts, ordered)

structure ReversedAccount where
  account : Account
  direction : Direction

/-- Undo the effect of each customer posting on its account. The answer maps
account ids to the updated accounts, the latest update first. -/
def undoPostings (env : Env) :
    List ReversalSourcePosting → Tx (List (Int64 × ReversedAccount))
  | [] => pure []
  | posting :: rest =>
    match posting.owner with
    | .settlement _ => undoPostings env rest
    | .customer accountID => do
      let delta := -posting.amount
      let updated ← addAccountBalance env accountID (if delta < 0 then -(-delta) else delta)
        (if delta < 0 then .reversalInsufficientFunds else .noRows)
      let others ← undoPostings env rest
      pure (others ++ [(accountID,
        ⟨updated, if delta < 0 then .outgoing else .incoming⟩)])

/-- Notify the owners of the accounts in the given order, starting with the
`n`-th fresh UUID. -/
def notifyReversal (env : Env) (arg : ReverseTransactionTxParams)
    (original reversal : BankingTransaction) (updated : List (Int64 × ReversedAccount)) :
    Nat → List Int64 → Tx (List Account)
  | _, [] => pure []
  | n, accountID :: rest => do
    let entry ← found .noRows (updated.lookup accountID)
    let _ ← createFinancialNotification env n {
      username := entry.account.owner
      eventType := domainEventTransactionReversed
      entityType := .bankingTransaction
      entityID := some original.id
      correlationID := arg.correlationID
      reference := original.reference
      amount := original.amount
      currency := original.currency
      direction := some entry.direction
      occurredAt := reversal.postedAt.getD zeroTime
      reason := arg.reason }
    let accounts ← notifyReversal env arg original reversal updated (n + 2) rest
    pure (entry.account :: accounts)

def reverseTransactionTx (env : Env) (arg : ReverseTransactionTxParams) :
    Tx ReverseTransactionTxResult :=
  execTx do
    let original ← fetch .transactionNotFound (getBankingTransactionForUpdate arg.transactionID)
    refuse (original.transactionType = .reversal) .transactionNotReversible
    refuse (original.status = .reversed) .transactionAlreadyReversed
    refuse (original.status ≠ .posted) .transactionNotPosted
    let sourcePostings ← call (listReversalSourcePostings original.id)
    refuse (sourcePostings.length < 2) (.other "transaction has insufficient ledger postings")
    let (lockedAccounts, orderedIDs) ← lockAccountsForOperator
      (sourcePostings.filterMap ReversalSourcePosting.customerAccountID)
    refuse (∃ account ∈ lockedAccounts, account.status = .closed) .accountClosed
    let (reversal, postings) ← createBalancedTransaction env {
        transactionType := .reversal
        currency := original.currency
        amount := original.amount
        narration := "Reversal: " ++ trimSpace arg.reason
        initiatedBy := trimSpace arg.actor
        reversalOf := some original.id }
      (sourcePostings.map ReversalSourcePosting.opposite)
    let updatedAccounts ← undoPostings env sourcePostings
    let reversal ← markPosted env reversal.id
    let original ← fetch .noRows (markBankingTransactionReversed env.now original.id)
    let audit ← createOperatorAudit env {
      entityType := .bankingTransaction
      entityID := some original.id
      correlationID := arg.correlationID
      eventType := "transaction_reversed"
      actor := arg.actor
      fromState := BankingTransactionStatus.text .posted
      toState := BankingTransactionStatus.text .reversed
      reason := arg.reason }
    let accounts ← notifyReversal env arg original reversal updatedAccounts 1 orderedIDs
    pure ⟨original, reversal, postings, accounts, audit⟩

def auditOperatorFailure (env : Env) (arg : OperatorAuditParams) : Tx AuditLog :=
  createOperatorAudit env arg

structure CreateAccountTxParams where
  owner : String
  currency : String
  deriving DecidableEq

structure CloseAccountTxParams where
  publicID : Option UUID
  username : String
  deriving DecidableEq

def createAccountAttempt (env : Env) (arg : CreateAccountParams) : Tx Account :=
  execTx do
    let account ← call (createAccount env arg)
    let _ ← call (createCustomerLedgerAccount env account.id account.currency)
    let _ ← createFinancialAudit env {
      entityType := .account
      entityID := some account.publicID
      correlationID := some account.publicID
      eventType := "account_created"
      actor := account.owner
      toState := account.status.text }
    pure account

def closeAccountTx (env : Env) (arg : CloseAccountTxParams) : Tx Account :=
  execTx do
    let account ← fetch .accountNotFound (getAccountByPublicIDForUpdate arg.publicID)
    refuse (account.owner ≠ arg.username) .accountNotOwned
    refuse (account.status = .closed) .accountClosed
    refuse (account.balance ≠ 0) .accountBalanceNotZero
    let closed ← fetch .noRows (closeAccount env.now account.id)
    let _ ← createFinancialAudit env {
      entityType := .account
      entityID := some closed.publicID
      correlationID := some closed.publicID
      eventType := "account_closed"
      actor := arg.username
      fromState := account.status.text
      toState := closed.status.text }
    let _ ← createFinancialNotification env 0 {
      username := closed.owner
      eventType := domainEventAccountClosed
      entityType := .account
      entityID := some closed.publicID
      correlationID := some closed.publicID
      occurredAt := closed.updatedAt
      accountStatus := some closed.status }
    pure closed

end Monierave
