import Monierave.Queries.History

/-! # Reconciliation queries

The three statements of `reconciliation.sql`, and the count of
`operational_metrics.sql` that looks for the same defects.
-/

namespace Monierave

open Relational

namespace Books

def customerLedger (b : Books) (a : Account) : Option LedgerAccount :=
  b.ledgerAccounts.get (.customerAccountID a.id)

def postingTotal (ps : List LedgerPosting) : Int := (ps.map fun p => p.amount.toInt).sum

def ledgerBalance (b : Books) (a : Account) : Int :=
  ((b.customerLedger a).map fun l => postingTotal (b.postingsOn l.id)).getD 0

def postsFor (b : Books) (customerAccountID : Int64) (transactionID : UUID) : Bool :=
  (b.postingsOf transactionID).any fun p =>
    (b.ledgerAccounts.get (.id p.ledgerAccountID)).any
      fun l => l.customerAccountID = some customerAccountID

def reversalsOf (b : Books) (transactionID : UUID) : List BankingTransaction :=
  b.bankingTransactions.rows.filter fun t => t.reversalOf = some transactionID

end Books

def BankingTransaction.isSettled (t : BankingTransaction) : Bool :=
  t.status = .posted || t.status = .reversed

structure ListAccountReconciliationIssuesRow where
  accountPublicID : UUID
  currency : String
  cachedBalance : Int64
  customerLedgerAccountID : Option Int64
  ledgerBalance : Int64
  deriving DecidableEq

def Books.accountReconciliation (b : Books) (a : Account) :
    Except SqlError ListAccountReconciliationIssuesRow :=
  (bigint (b.ledgerBalance a)).map fun ledgerBalance =>
    ⟨a.publicID, a.currency, a.balance, (b.customerLedger a).map LedgerAccount.id, ledgerBalance⟩

def ListAccountReconciliationIssuesRow.isIssue (r : ListAccountReconciliationIssuesRow) : Bool :=
  r.customerLedgerAccountID = none || r.cachedBalance ≠ r.ledgerBalance

def listAccountReconciliationIssues (accountPublicID : Option UUID) (b : Books) :
    Except SqlError (List ListAccountReconciliationIssuesRow) :=
  ((orderBy (fun a => a.publicID.toNat) (b.accounts.rows.filter
    fun a => accountPublicID.all (a.publicID = ·))).mapM b.accountReconciliation).map
      fun rows => rows.filter (·.isIssue)

structure ListTransactionReconciliationIssuesRow where
  transactionID : UUID
  reference : String
  status : BankingTransactionStatus
  postingCount : Nat
  postingTotal : Int64
  deriving DecidableEq

def Books.transactionReconciliation (b : Books) (t : BankingTransaction) :
    Except SqlError ListTransactionReconciliationIssuesRow :=
  (bigint (Books.postingTotal (b.postingsOf t.id))).map fun postingTotal =>
    ⟨t.id, t.reference, t.status, (b.postingsOf t.id).length, postingTotal⟩

def ListTransactionReconciliationIssuesRow.isIssue (r : ListTransactionReconciliationIssuesRow) :
    Bool :=
  r.postingCount < 2 || r.postingTotal ≠ 0

def listTransactionReconciliationIssues (customerAccountID : Option Int64) (b : Books) :
    Except SqlError (List ListTransactionReconciliationIssuesRow) :=
  ((orderBy BankingTransaction.historyKey (b.bankingTransactions.rows.filter
    fun t => t.isSettled && customerAccountID.all (b.postsFor · t.id))).mapM
      b.transactionReconciliation).map fun rows => rows.filter (·.isIssue)

structure ListDuplicateReversalIssuesRow where
  originalTransactionID : UUID
  originalReference : String
  reversalCount : Nat
  deriving DecidableEq

def Books.duplicateReversal (b : Books) (t : BankingTransaction) : ListDuplicateReversalIssuesRow :=
  ⟨t.id, t.reference, (b.reversalsOf t.id).length⟩

def listDuplicateReversalIssues (customerAccountID : Option Int64) (b : Books) :
    List ListDuplicateReversalIssuesRow :=
  ((orderBy BankingTransaction.historyKey (b.bankingTransactions.rows.filter
    fun t => customerAccountID.all (b.postsFor · t.id))).map b.duplicateReversal).filter
      fun r => 1 < r.reversalCount

/-- The values of `reversal_of` that more than one transaction has. -/
def Books.duplicatedReversals (b : Books) : List UUID :=
  (b.bankingTransactions.rows.filterMap BankingTransaction.reversalOf).dedup.filter
    fun id => 1 < (b.reversalsOf id).length

/-- The column `reconciliation_drift`. -/
def reconciliationDrift (b : Books) : Except SqlError Nat := do
  let accounts ← b.accounts.rows.mapM b.accountReconciliation
  let transactions ← (b.bankingTransactions.rows.filter (·.isSettled)).mapM
    b.transactionReconciliation
  pure ((accounts.filter (·.isIssue)).length + (transactions.filter (·.isIssue)).length +
    b.duplicatedReversals.length)

end Monierave
