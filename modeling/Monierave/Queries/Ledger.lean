import Monierave.Queries.Accounts

/-! # Queries on the ledger

The statements of `ledger.sql` with the triggers of the ledger tables: postings
may only be added to pending transactions, a banking transaction changes only in
its status, and when a database transaction commits every banking transaction it
touched must balance.
-/

namespace Monierave

open Relational ReadCommitted

/-! ## Ledger accounts -/

def createCustomerLedgerAccount (env : Env) (customerAccountID : Int64) (currency : String) :
    Query LedgerAccount :=
  insertRow (·.ledgerAccounts) LedgerAccountKey.constraint (fun _ => none) (fun _ => none)
    .insertLedgerAccount ⟨env.serial 1, .customer customerAccountID, currency⟩

def getCustomerLedgerAccount (customerAccountID : Int64) : Query (Option LedgerAccount) :=
  readOnly fun db => db.ledgerAccounts.get (.customerAccountID customerAccountID)

def settlementCode (currency : String) : String := "settlement:" ++ currency

def getSettlementLedgerAccount (currency : String) : Query (Option LedgerAccount) :=
  readOnly fun db => db.ledgerAccounts.get (.code (settlementCode currency))

/-! ## Banking transactions -/

namespace BankingTransaction

/-- `banking_transactions_reversal_shape_check`. -/
def reversalShape (t : BankingTransaction) : Bool :=
  match t.transactionType, t.reversalOf with
  | .reversal, some original => original != t.id
  | .reversal, none => false
  | _, some _ => false
  | _, none => true

/-- `banking_transactions_status_timestamp_check`. -/
def statusTimestamps (t : BankingTransaction) : Bool :=
  match t.status with
  | .pending => t.postedAt.isNone && t.failedAt.isNone && t.reversedAt.isNone
  | .posted => t.postedAt.isSome && t.failedAt.isNone && t.reversedAt.isNone
  | .failed => t.postedAt.isNone && t.failedAt.isSome && t.reversedAt.isNone
  | .reversed => t.postedAt.isSome && t.failedAt.isNone && t.reversedAt.isSome

def violated (t : BankingTransaction) : Option SqlError :=
  if ¬ 0 < t.amount then some (.checkViolation "banking_transactions_amount_positive")
  else if ¬ t.reversalShape then
    some (.checkViolation "banking_transactions_reversal_shape_check")
  else if ¬ t.statusTimestamps then
    some (.checkViolation "banking_transactions_status_timestamp_check")
  else none

theorem violated_eq_none {t : BankingTransaction} :
    t.violated = none ↔ 0 < t.amount ∧ t.reversalShape ∧ t.statusTimestamps := by
  unfold violated
  split_ifs
  all_goals first
    | (simp only [true_iff]; tauto)
    | (simp only [false_iff]; tauto)

def sameDetails (o n : BankingTransaction) : Bool :=
  n.id == o.id && n.reference == o.reference && n.transactionType == o.transactionType &&
    n.currency == o.currency && n.amount == o.amount && n.narration == o.narration &&
    n.initiatedBy == o.initiatedBy && n.reversalOf == o.reversalOf && n.createdAt == o.createdAt

end BankingTransaction

/-- The trigger `protect_banking_transaction` on an update. -/
def protectBankingTransaction (o n : BankingTransaction) : Option SqlError :=
  if ¬ o.sameDetails n then
    some (.raised "banking transaction financial details are immutable")
  else if o.status = .pending ∧ n.status = .posted ∧ o.postedAt.isNone ∧ n.postedAt.isSome ∧
      n.failedAt.isNone ∧ n.reversedAt.isNone then none
  else if o.status = .pending ∧ n.status = .failed ∧ o.failedAt.isNone ∧ n.failedAt.isSome ∧
      n.postedAt.isNone ∧ n.reversedAt.isNone then none
  else if o.status = .posted ∧ n.status = .reversed ∧ o.reversedAt.isNone ∧ n.reversedAt.isSome ∧
      n.postedAt.isSome ∧ n.failedAt.isNone then none
  else some (.raised ("invalid banking transaction state transition from " ++ o.status.text ++
    " to " ++ n.status.text))

structure CreateBankingTransactionParams where
  id : UUID
  reference : String
  transactionType : BankingTransactionType
  currency : String
  amount : Int64
  narration : String
  initiatedBy : String
  reversalOf : Option UUID

def newBankingTransaction (now : Timestamp) (arg : CreateBankingTransactionParams) :
    BankingTransaction where
  id := arg.id
  reference := arg.reference
  transactionType := arg.transactionType
  status := .pending
  currency := arg.currency
  amount := arg.amount
  narration := arg.narration
  initiatedBy := arg.initiatedBy
  reversalOf := arg.reversalOf
  createdAt := now
  postedAt := none
  failedAt := none
  reversedAt := none

/-- `banking_transactions_reversal_of_fkey`. -/
def missingOriginal (reversalOf : Option UUID) (db : DB) : Option SqlError :=
  match reversalOf with
  | none => none
  | some original =>
    if (db.bankingTransactions.get (.id original)).isNone then
      some (.foreignKeyViolation "banking_transactions_reversal_of_fkey")
    else none

def createBankingTransaction (now : Timestamp) (arg : CreateBankingTransactionParams) :
    Query BankingTransaction :=
  insertRow (·.bankingTransactions) BankingTransactionKey.constraint
    (fun _ => (newBankingTransaction now arg).violated) (missingOriginal arg.reversalOf)
    .insertBankingTransaction (newBankingTransaction now arg)

def updateBankingTransactionRow (id : UUID)
    (f : BankingTransaction → Except SqlError (Option BankingTransaction)) :
    Query (Option BankingTransaction) :=
  updateRow (·.bankingTransactions) (.id id) f
    (fun o t => (protectBankingTransaction o t).or t.violated) BankingTransactionKey.constraint
    .updateBankingTransaction .bankingTransaction

def BankingTransaction.post (now : Timestamp) (t : BankingTransaction) :
    Except SqlError (Option BankingTransaction) :=
  .ok (if t.status = .pending then some { t with status := .posted, postedAt := some now }
    else none)

def markBankingTransactionPosted (now : Timestamp) (id : UUID) :
    Query (Option BankingTransaction) :=
  updateBankingTransactionRow id (BankingTransaction.post now)

def BankingTransaction.reverse (now : Timestamp) (t : BankingTransaction) :
    Except SqlError (Option BankingTransaction) :=
  .ok (if t.status = .posted then some { t with status := .reversed, reversedAt := some now }
    else none)

def markBankingTransactionReversed (now : Timestamp) (id : UUID) :
    Query (Option BankingTransaction) :=
  updateBankingTransactionRow id (BankingTransaction.reverse now)

theorem BankingTransaction.post_some {now : Timestamp} {o t : BankingTransaction}
    (h : o.post now = .ok (some t)) :
    o.status = .pending ∧ t = { o with status := .posted, postedAt := some now } := by
  unfold post at h
  by_cases hc : o.status = .pending
  · rw [if_pos hc] at h
    cases h
    exact ⟨hc, rfl⟩
  · rw [if_neg hc] at h
    cases h

theorem BankingTransaction.reverse_some {now : Timestamp} {o t : BankingTransaction}
    (h : o.reverse now = .ok (some t)) :
    o.status = .posted ∧ t = { o with status := .reversed, reversedAt := some now } := by
  unfold reverse at h
  by_cases hc : o.status = .posted
  · rw [if_pos hc] at h
    cases h
    exact ⟨hc, rfl⟩
  · rw [if_neg hc] at h
    cases h

def BankingTransaction.rowLock (t : BankingTransaction) : LockKey := .bankingTransaction (.id t.id)

def DB.bankingTransaction (db : DB) (id : Option UUID) : Option BankingTransaction :=
  id.bind fun id => db.bankingTransactions.get (.id id)

def getBankingTransactionForUpdate (id : Option UUID) : Query (Option BankingTransaction) :=
  selectForUpdate (fun db => db.bankingTransaction id) BankingTransaction.rowLock

/-! ## Postings -/

namespace Books

def postingsOf (b : Books) (transactionID : UUID) : List LedgerPosting :=
  b.ledgerPostings.rows.filter fun p => p.transactionID = transactionID

def postingsOn (b : Books) (ledgerAccountID : Int64) : List LedgerPosting :=
  b.ledgerPostings.rows.filter fun p => p.ledgerAccountID = ledgerAccountID

end Books

/-- The trigger `enforce_pending_transaction_posting` and the check of the
amount. -/
def postingViolated (p : LedgerPosting) (db : DB) : Option SqlError :=
  if (db.bankingTransactions.get (.id p.transactionID)).map BankingTransaction.status ≠
      some .pending then
    some (.raised "postings may only be added to pending transactions")
  else if p.amount = 0 then some (.checkViolation "ledger_postings_amount_nonzero")
  else none

/-- `ledger_postings_ledger_account_id_fkey`. -/
def missingLedgerAccount (ledgerAccountID : Int64) (db : DB) : Option SqlError :=
  if (db.ledgerAccounts.get (.id ledgerAccountID)).isNone then
    some (.foreignKeyViolation "ledger_postings_ledger_account_id_fkey")
  else none

theorem missingLedgerAccount_eq_none {id : Int64} {db : DB} :
    missingLedgerAccount id db = none ↔ ∃ l, db.ledgerAccounts.get (.id id) = some l := by
  unfold missingLedgerAccount
  cases db.ledgerAccounts.get (.id id) <;> simp

theorem postingViolated_eq_none {p : LedgerPosting} {db : DB} :
    postingViolated p db = none ↔
      (∃ t, db.bankingTransactions.get (.id p.transactionID) = some t ∧ t.status = .pending) ∧
        p.amount ≠ 0 := by
  unfold postingViolated
  cases db.bankingTransactions.get (.id p.transactionID) with
  | none => simp
  | some t =>
    by_cases ht : t.status = .pending <;> by_cases hp : p.amount = 0 <;> simp [ht, hp]

def createLedgerPosting (now : Timestamp) (transactionID : UUID)
    (ledgerAccountID amount : Int64) : Query LedgerPosting :=
  let p : LedgerPosting := ⟨transactionID, ledgerAccountID, amount, now⟩
  insertRow (·.ledgerPostings) LedgerPostingKey.constraint (postingViolated p)
    (missingLedgerAccount ledgerAccountID) .insertLedgerPosting p

/-- A posting of the transaction to be reversed with the owner of its ledger
account, from which the query reads the kind and the customer account. -/
structure ReversalSourcePosting where
  ledgerAccountID : Int64
  amount : Int64
  owner : LedgerOwner
  deriving DecidableEq

def Books.withLedger (b : Books) (p : LedgerPosting) : Option (LedgerPosting × LedgerAccount) :=
  (b.ledgerAccounts.get (.id p.ledgerAccountID)).map fun l => (p, l)

def listReversalSourcePostings (transactionID : UUID) : Query (List ReversalSourcePosting) :=
  readOnly fun db => ((db.postingsOf transactionID).filterMap db.withLedger).map fun (p, l) =>
    ⟨p.ledgerAccountID, p.amount, l.owner⟩

/-! ## The daily total -/

/-- `date_trunc('day', t AT TIME ZONE 'UTC') AT TIME ZONE 'UTC'`. -/
def startOfDay (t : Timestamp) : Timestamp := t - t % microsPerDay

namespace Books

def outgoing (b : Books) (since : Timestamp) (p : LedgerPosting) : Int :=
  match b.bankingTransactions.get (.id p.transactionID) with
  | none => 0
  | some t =>
    if p.amount < 0 ∧ t.transactionType = .internalTransfer ∧
        (t.status = .posted ∨ t.status = .reversed) ∧ since ≤ t.createdAt then
      t.amount.toInt
    else 0

def outgoingTransferTotal (b : Books) (ledgerAccountID : Int64) (since : Timestamp) : Int :=
  ((b.postingsOn ledgerAccountID).map (b.outgoing since)).sum

end Books

def getDailyOutgoingTransferTotal (now : Timestamp) (ledgerAccountID : Int64) : Query Int64 :=
  tryRead fun db => bigint (db.outgoingTransferTotal ledgerAccountID (startOfDay now))

/-! ## Balance of the touched transactions at commit -/

/-- The trigger `validate_banking_transaction_balance`. Its sums are assigned to
`bigint` variables and `abs` and `* 2` are computed in `bigint`; what does not
fit raises an error. -/
def validateBankingTransactionBalance (b : Books) (id : UUID) : Option SqlError :=
  match b.bankingTransactions.get (.id id) with
  | none => none
  | some t =>
    if t.status = .posted ∨ t.status = .reversed then
      let joined := (b.postingsOf id).filterMap b.withLedger
      let amounts := joined.map fun (p, _) => p.amount.toInt
      let absolute := amounts.map fun x => (x.natAbs : Int)
      let mismatches := (joined.filter fun (_, l) => l.currency ≠ t.currency).length
      if ¬ (fitsBigint amounts.sum ∧ (∀ x ∈ absolute, fitsBigint x) ∧
          fitsBigint absolute.sum ∧ fitsBigint (t.amount.toInt * 2)) then
        some .outOfRange
      else if joined.length < 2 ∨ amounts.sum ≠ 0 ∨ absolute.sum ≠ t.amount.toInt * 2 ∨
          mismatches ≠ 0 then
        some (.raised ("invalid ledger postings for transaction " ++ id.text ++ ": count " ++
          toString joined.length ++ ", total " ++ toString amounts.sum ++
          ", absolute total " ++ toString absolute.sum ++ ", currency mismatches " ++
          toString mismatches))
      else none
    else if t.status = .failed ∧ (b.postingsOf id).length ≠ 0 then
      some (.raised ("failed transaction " ++ id.text ++ " cannot retain postings"))
    else none

def Write.balancedTransaction : Write → Option UUID
  | .insertBankingTransaction r => some r.id
  | .updateBankingTransaction _ r => some r.id
  | .insertLedgerPosting r => some r.transactionID
  | _ => none

def deferredTriggers : Query Unit where
  exec own db :=
    match (own.filterMap Write.balancedTransaction).findSome?
        (validateBankingTransactionBalance db.toBooks) with
    | some e => .error (.sql e)
    | none => .ok { result := () }

theorem deferredTriggers_ok {own : List Write} {db : DB} {eff : Answer Unit} :
    deferredTriggers.exec own db = .ok eff ↔
      (∀ w ∈ own, ∀ id, w.balancedTransaction = some id →
        validateBankingTransactionBalance db.toBooks id = none) ∧ eff = ⟨(), [], []⟩ := by
  cases h : (own.filterMap Write.balancedTransaction).findSome?
      (validateBankingTransactionBalance db.toBooks) with
  | some e =>
    simp only [deferredTriggers, h, reduceCtorEq, false_iff, not_and]
    intro hall
    obtain ⟨id, hid, he⟩ := List.exists_of_findSome?_eq_some h
    obtain ⟨w, hw, hwid⟩ := List.mem_filterMap.mp hid
    rw [hall w hw id hwid] at he
    cases he
  | none =>
    have hall := List.findSome?_eq_none_iff.mp h
    simp only [deferredTriggers, h, Except.ok.injEq]
    constructor
    · rintro rfl
      exact ⟨fun w hw id hid => hall id (List.mem_filterMap.mpr ⟨w, hw, hid⟩), rfl⟩
    · rintro ⟨_, rfl⟩
      rfl

end Monierave
