import Mathlib.Algebra.Ring.Nat
import Mathlib.Data.List.Dedup
import Monierave.Banking.System
import Monierave.Queries.Reconciliation

/-! # Reconciliation

`Reconcile` compares the cached balances with the postings and looks for
transactions that do not balance.
-/

namespace Monierave

open Relational

inductive ReconciliationIssueType
  | missingLedgerAccount
  | balanceDrift
  | unbalancedTransaction
  | insufficientPostings
  | duplicateTransactionRev
  deriving DecidableEq, Repr

structure ReconciliationIssue where
  type : ReconciliationIssueType
  accountPublicID : Option UUID := none
  transactionID : Option UUID := none
  reference : String := ""
  currency : String := ""
  cachedBalance : Int64 := 0
  ledgerBalance : Int64 := 0
  postingCount : Nat := 0
  postingTotal : Int64 := 0
  duplicateReversalCount : Nat := 0
  deriving DecidableEq

structure ReconciliationParams where
  accountPublicID : Option UUID
  actor : String

structure ReconciliationReport where
  runID : UUID
  accountPublicID : Option UUID
  checkedAt : Timestamp
  consistent : Bool
  issues : List ReconciliationIssue
  auditLog : AuditLog

/-! ## From rows to issues -/

namespace ReconciliationIssue

def ofAccount (r : ListAccountReconciliationIssuesRow) : ReconciliationIssue where
  type := if r.customerLedgerAccountID = none then .missingLedgerAccount else .balanceDrift
  accountPublicID := some r.accountPublicID
  currency := r.currency
  cachedBalance := r.cachedBalance
  ledgerBalance := r.ledgerBalance

def ofTransaction (r : ListTransactionReconciliationIssuesRow) : List ReconciliationIssue :=
  (if r.postingCount < 2 then [{
      type := .insufficientPostings
      transactionID := some r.transactionID
      reference := r.reference
      postingCount := r.postingCount
      postingTotal := r.postingTotal }] else []) ++
    if r.postingTotal ≠ 0 then [{
      type := .unbalancedTransaction
      transactionID := some r.transactionID
      reference := r.reference
      postingCount := r.postingCount
      postingTotal := r.postingTotal }] else []

def ofReversal (r : ListDuplicateReversalIssuesRow) : ReconciliationIssue where
  type := .duplicateTransactionRev
  transactionID := some r.originalTransactionID
  reference := r.originalReference
  duplicateReversalCount := r.reversalCount

end ReconciliationIssue

def reconciliationState (consistent : Bool) : String :=
  if consistent then "consistent" else "drift_detected"

def reconciliationScope (accountPublicID : Option UUID) (db : DB) : Except Err (Option Account) :=
  match accountPublicID with
  | none => .ok none
  | some id =>
    match db.accounts.get (.publicID id) with
    | none => .error .accountNotFound
    | some a => .ok (some a)

def reconciliationIssues (scope : Option Account) (b : Books) :
    Except SqlError (List ReconciliationIssue) := do
  let accountIssues ← listAccountReconciliationIssues (scope.map Account.publicID) b
  let transactionIssues ← listTransactionReconciliationIssues (scope.map Account.id) b
  let reversalIssues := listDuplicateReversalIssues (scope.map Account.id) b
  pure (accountIssues.map ReconciliationIssue.ofAccount ++
    transactionIssues.flatMap ReconciliationIssue.ofTransaction ++
    reversalIssues.map ReconciliationIssue.ofReversal)

/-- `checkedAt` is the clock of the server and `now` that of the database. -/
def reconcile (runID : UUID) (checkedAt now : Timestamp) (arg : ReconciliationParams) (db : DB) :
    Except Err ReconciliationReport := do
  let scope ← reconciliationScope arg.accountPublicID db
  let issues ← (reconciliationIssues scope db.toBooks).mapError Err.sql
  let consistent := decide (issues.length = 0)
  let audit ← (createAuditLog now {
    entityType := .reconciliation
    entityID := some runID
    correlationID := some runID
    eventType := "reconciliation_completed"
    actor := arg.actor
    fromState := none
    toState := textValue (reconciliationState consistent)
    message := none }).exec [] db
  pure ⟨runID, arg.accountPublicID, checkedAt, consistent, issues, audit.result⟩

/-! ## What the queries find -/

namespace Books

variable {b : Books}

structure SumsFit (b : Books) : Prop where
  account : ∀ a ∈ b.accounts.rows, fitsBigint (b.ledgerBalance a)
  transaction : ∀ t ∈ b.bankingTransactions.rows, t.isSettled →
    fitsBigint (postingTotal (b.postingsOf t.id))

def accountRow (b : Books) (a : Account) : ListAccountReconciliationIssuesRow :=
  ⟨a.publicID, a.currency, a.balance, (b.customerLedger a).map LedgerAccount.id,
    Int64.ofInt (b.ledgerBalance a)⟩

def transactionRow (b : Books) (t : BankingTransaction) : ListTransactionReconciliationIssuesRow :=
  ⟨t.id, t.reference, t.status, (b.postingsOf t.id).length,
    Int64.ofInt (postingTotal (b.postingsOf t.id))⟩

theorem mapM_accountReconciliation {as : List Account}
    {rows : List ListAccountReconciliationIssuesRow} :
    as.mapM b.accountReconciliation = .ok rows ↔
      (∀ a ∈ as, fitsBigint (b.ledgerBalance a)) ∧ rows = as.map b.accountRow :=
  mapM_ok_iff fun _ _ => map_bigint_ok

theorem mapM_transactionReconciliation {ts : List BankingTransaction}
    {rows : List ListTransactionReconciliationIssuesRow} :
    ts.mapM b.transactionReconciliation = .ok rows ↔
      (∀ t ∈ ts, fitsBigint (postingTotal (b.postingsOf t.id))) ∧ rows = ts.map b.transactionRow :=
  mapM_ok_iff fun _ _ => map_bigint_ok

def accountsInOrder (b : Books) : List Account := orderBy (fun a => a.publicID.toNat) b.accounts.rows

def transactionsInOrder (b : Books) : List BankingTransaction :=
  orderBy BankingTransaction.historyKey b.bankingTransactions.rows

theorem distinctKeys_accounts (b : Books) :
    DistinctKeys (fun a => a.publicID.toNat) b.accounts.rows := by
  refine b.accounts.unique.imp fun {a a'} hne heq => ?_
  have hid : a.publicID = a'.publicID := BitVec.eq_of_toNat_eq heq
  exact hne (.publicID a.publicID) (by simp [keys]) (by simp [keys, hid])

theorem distinctKeys_transactions (b : Books) :
    DistinctKeys BankingTransaction.historyKey b.bankingTransactions.rows := by
  refine b.bankingTransactions.unique.imp fun {t t'} hne heq => ?_
  have hid : t.id = t'.id := BitVec.eq_of_toNat_eq (Prod.mk.inj (toLex.injective heq)).2
  exact hne (.id t.id) (by simp [keys]) (by simp [keys, hid])

def accountIssues (b : Books) (p : Account → Bool) : List ReconciliationIssue :=
  (((b.accountsInOrder.filter p).map b.accountRow).filter (·.isIssue)).map .ofAccount

def transactionIssues (b : Books) (p : BankingTransaction → Bool) : List ReconciliationIssue :=
  (((b.transactionsInOrder.filter fun t => t.isSettled && p t).map b.transactionRow).filter
    (·.isIssue)).flatMap ReconciliationIssue.ofTransaction

def reversalIssues (b : Books) (p : BankingTransaction → Bool) : List ReconciliationIssue :=
  (((b.transactionsInOrder.filter p).map b.duplicateReversal).filter
    fun r => 1 < r.reversalCount).map .ofReversal

end Books

section Scope

variable {b : Books} {scope : Option Account}

def inScope (scope : Option Account) (a : Account) : Bool := scope.all fun s => a.publicID = s.publicID

def Books.touchesScope (b : Books) (scope : Option Account) (t : BankingTransaction) : Bool :=
  scope.all fun s => b.postsFor s.id t.id

theorem map_filter_ok {ε α β : Type} {x : Except ε (List α)} {q : α → Bool} {p : Prop} {as : List β}
    {g : β → α} {ys : List α} (hx : ∀ zs, x = .ok zs ↔ p ∧ zs = as.map g) :
    x.map (fun zs => zs.filter q) = .ok ys ↔ p ∧ ys = (as.map g).filter q := by
  cases x with
  | error e =>
    have hnot : ¬ p := by
      intro hp
      cases (hx _).mpr ⟨hp, rfl⟩
    simp [Except.map, hnot]
  | ok zs =>
    obtain ⟨hp, rfl⟩ := (hx zs).mp rfl
    simp [Except.map, hp, eq_comm]

theorem listAccountReconciliationIssues_ok {rows : List ListAccountReconciliationIssuesRow} :
    listAccountReconciliationIssues (scope.map Account.publicID) b = .ok rows ↔
      (∀ a ∈ b.accounts.rows, inScope scope a → fitsBigint (b.ledgerBalance a)) ∧
      rows = ((b.accountsInOrder.filter (inScope scope)).map b.accountRow).filter (·.isIssue) := by
  have hscope : (fun a : Account => (scope.map Account.publicID).all (a.publicID = ·)) =
      inScope scope := by
    funext a
    cases scope <;> rfl
  rw [listAccountReconciliationIssues, hscope, orderBy_filter b.distinctKeys_accounts,
    ← Books.accountsInOrder, map_filter_ok fun _ => Books.mapM_accountReconciliation]
  refine and_congr ?_ Iff.rfl
  simp only [List.mem_filter, and_imp, Books.accountsInOrder, perm_orderBy.mem_iff]

theorem listTransactionReconciliationIssues_ok
    {rows : List ListTransactionReconciliationIssuesRow} :
    listTransactionReconciliationIssues (scope.map Account.id) b = .ok rows ↔
      (∀ t ∈ b.bankingTransactions.rows, t.isSettled → b.touchesScope scope t →
        fitsBigint (Books.postingTotal (b.postingsOf t.id))) ∧
      rows = ((b.transactionsInOrder.filter fun t => t.isSettled && b.touchesScope scope t).map
        b.transactionRow).filter (·.isIssue) := by
  have hscope : (fun t : BankingTransaction => t.isSettled &&
      (scope.map Account.id).all (b.postsFor · t.id)) =
        fun t => t.isSettled && b.touchesScope scope t := by
    funext t
    cases scope <;> rfl
  rw [listTransactionReconciliationIssues, hscope, orderBy_filter b.distinctKeys_transactions,
    ← Books.transactionsInOrder, map_filter_ok fun _ => Books.mapM_transactionReconciliation]
  refine and_congr ?_ Iff.rfl
  simp only [List.mem_filter, Bool.and_eq_true, and_imp, Books.transactionsInOrder,
    perm_orderBy.mem_iff]

theorem listDuplicateReversalIssues_eq :
    listDuplicateReversalIssues (scope.map Account.id) b =
      ((b.transactionsInOrder.filter (b.touchesScope scope)).map b.duplicateReversal).filter
        fun r => 1 < r.reversalCount := by
  have hscope : (fun t : BankingTransaction => (scope.map Account.id).all (b.postsFor · t.id)) =
      b.touchesScope scope := by
    funext t
    cases scope <;> rfl
  rw [listDuplicateReversalIssues, hscope, orderBy_filter b.distinctKeys_transactions,
    Books.transactionsInOrder]

theorem reconciliationIssues_ok {issues : List ReconciliationIssue} :
    reconciliationIssues scope b = .ok issues ↔
      ((∀ a ∈ b.accounts.rows, inScope scope a → fitsBigint (b.ledgerBalance a)) ∧
        ∀ t ∈ b.bankingTransactions.rows, t.isSettled → b.touchesScope scope t →
          fitsBigint (Books.postingTotal (b.postingsOf t.id))) ∧
      issues = b.accountIssues (inScope scope) ++ b.transactionIssues (b.touchesScope scope) ++
        b.reversalIssues (b.touchesScope scope) := by
  unfold reconciliationIssues
  rw [listDuplicateReversalIssues_eq]
  cases haccounts : listAccountReconciliationIssues (scope.map Account.publicID) b with
  | error e =>
    have hnot := mt (fun h => listAccountReconciliationIssues_ok.mpr ⟨h, rfl⟩)
      (by rw [haccounts]; nofun)
    simp [bind, Except.bind, hnot]
  | ok accounts =>
    obtain ⟨hfit, rfl⟩ := listAccountReconciliationIssues_ok.mp haccounts
    cases htransactions : listTransactionReconciliationIssues (scope.map Account.id) b with
    | error e =>
      have hnot := mt (fun h => listTransactionReconciliationIssues_ok.mpr ⟨h, rfl⟩)
        (by rw [htransactions]; nofun)
      simp only [bind, Except.bind, reduceCtorEq, false_iff]
      exact fun h => hnot h.1.2
    | ok transactions =>
      obtain ⟨hfit', rfl⟩ := listTransactionReconciliationIssues_ok.mp htransactions
      simp only [bind, Except.bind, pure, Except.pure, Except.ok.injEq]
      exact ⟨fun h => ⟨⟨hfit, hfit'⟩, h.symm⟩, fun h => h.2.symm⟩

theorem Books.SumsFit.issues (h : b.SumsFit) (scope : Option Account) :
    reconciliationIssues scope b = .ok (b.accountIssues (inScope scope) ++
      b.transactionIssues (b.touchesScope scope) ++ b.reversalIssues (b.touchesScope scope)) :=
  reconciliationIssues_ok.mpr ⟨⟨fun a ha _ => h.account a ha, fun t ht hs _ => h.transaction t ht hs⟩,
    rfl⟩

end Scope

variable {db : DB}

theorem reconcile_ok {runID : UUID} {checkedAt now : Timestamp} {arg : ReconciliationParams}
    {report : ReconciliationReport} (h : reconcile runID checkedAt now arg db = .ok report) :
    ∃ scope, reconciliationScope arg.accountPublicID db = .ok scope ∧
      reconciliationIssues scope db.toBooks = .ok report.issues ∧
      report.consistent = decide (report.issues.length = 0) := by
  unfold reconcile at h
  cases hscope : reconciliationScope arg.accountPublicID db with
  | error e => simp [hscope, bind, Except.bind] at h
  | ok scope =>
    cases hissues : reconciliationIssues scope db.toBooks with
    | error e => simp [hscope, hissues, bind, Except.bind, Except.mapError] at h
    | ok issues =>
      simp only [hscope, hissues, bind, Except.bind, Except.mapError, createAuditLog, pure,
        Except.pure, Except.ok.injEq] at h
      subst h
      exact ⟨scope, rfl, hissues, rfl⟩

theorem exists_reconcile (runID : UUID) (checkedAt now : Timestamp) (arg : ReconciliationParams)
    {scope : Option Account} {issues : List ReconciliationIssue}
    (hscope : reconciliationScope arg.accountPublicID db = .ok scope)
    (hissues : reconciliationIssues scope db.toBooks = .ok issues) :
    ∃ report, reconcile runID checkedAt now arg db = .ok report ∧ report.issues = issues ∧
      report.consistent = decide (issues.length = 0) := by
  unfold reconcile
  simp only [hscope, hissues, bind, Except.bind, Except.mapError, createAuditLog, pure, Except.pure]
  exact ⟨_, rfl, rfl, rfl⟩

/-! ## A run finds what there is to find -/

structure Books.InOrder (b : Books) : Prop where
  account : ∀ a ∈ b.accounts.rows, ∃ l ∈ b.ledgerAccounts.rows, l.owner = .customer a.id ∧
    a.balance.toInt = ((b.postingsOn l.id).map fun p => p.amount.toInt).sum
  settled : ∀ t ∈ b.bankingTransactions.rows, t.status = .posted ∨ t.status = .reversed →
    2 ≤ (b.postingsOf t.id).length ∧ ((b.postingsOf t.id).map fun p => p.amount.toInt).sum = 0
  reversals : ∀ t ∈ b.bankingTransactions.rows, (b.reversalsOf t.id).length ≤ 1

/-- The issue is about the account, or about a transaction with a posting on its ledger
account. -/
def ReconciliationIssue.concerns (b : Books) (a : Account) (issue : ReconciliationIssue) : Bool :=
  issue.accountPublicID = some a.publicID ||
    issue.transactionID.any fun id => (b.customerLedger a).any
      fun l => (b.postingsOn l.id).any fun p => p.transactionID = id

open ReconciliationIssue (concerns ofAccount ofTransaction ofReversal)

namespace Books

variable {b : Books}

variable {a : Account} {l : LedgerAccount} {t : BankingTransaction}
    {q : ReconciliationIssue → Bool} {p : BankingTransaction → Bool}

theorem customerLedger_eq_some :
    b.customerLedger a = some l ↔ l ∈ b.ledgerAccounts.rows ∧ l.owner = .customer a.id := by
  rw [customerLedger, Table.get_eq_some]
  refine and_congr Iff.rfl ?_
  cases howner : l.owner <;> simp [keys, howner, LedgerAccountKey.ofOwner, eq_comm]

theorem ledgerBalance_of_ledger (h : b.customerLedger a = some l) :
    b.ledgerBalance a = postingTotal (b.postingsOn l.id) := by
  simp [ledgerBalance, h]

theorem isIssue_accountRow (hfit : fitsBigint (b.ledgerBalance a)) :
    (b.accountRow a).isIssue = false ↔ ∃ l ∈ b.ledgerAccounts.rows, l.owner = .customer a.id ∧
      a.balance.toInt = postingTotal (b.postingsOn l.id) := by
  cases hl : b.customerLedger a with
  | none =>
    simp only [accountRow, ListAccountReconciliationIssuesRow.isIssue, hl]
    constructor
    · intro h
      simp at h
    · rintro ⟨l, hmem, howner, _⟩
      rw [customerLedger_eq_some.mpr ⟨hmem, howner⟩] at hl
      cases hl
  | some l =>
    rw [ledgerBalance_of_ledger hl] at hfit
    have hsum : a.balance = Int64.ofInt (postingTotal (b.postingsOn l.id)) ↔
        a.balance.toInt = postingTotal (b.postingsOn l.id) := by
      rw [← Int64.toInt_inj, toInt_ofInt_of_fits hfit]
    simp only [accountRow, ListAccountReconciliationIssuesRow.isIssue, hl, Option.map_some,
      reduceCtorEq, decide_false, Bool.false_or, decide_not, Bool.not_eq_false',
      decide_eq_true_eq, ledgerBalance_of_ledger hl, hsum]
    constructor
    · intro h
      exact ⟨l, (customerLedger_eq_some.mp hl).1, (customerLedger_eq_some.mp hl).2, h⟩
    · rintro ⟨l', hmem, howner, h⟩
      obtain rfl : l = l' := by
        rw [customerLedger_eq_some.mpr ⟨hmem, howner⟩] at hl
        exact (Option.some.inj hl).symm
      exact h

theorem transactionRow_total (hfit : fitsBigint (postingTotal (b.postingsOf t.id))) :
    (b.transactionRow t).postingTotal = 0 ↔ postingTotal (b.postingsOf t.id) = 0 := by
  rw [← Int64.toInt_inj, transactionRow, toInt_ofInt_of_fits hfit, Int64.toInt_zero]

theorem isIssue_transactionRow (hfit : fitsBigint (postingTotal (b.postingsOf t.id))) :
    (b.transactionRow t).isIssue = false ↔
      2 ≤ (b.postingsOf t.id).length ∧ postingTotal (b.postingsOf t.id) = 0 := by
  simp only [ListTransactionReconciliationIssuesRow.isIssue, Bool.or_eq_false_iff, ne_eq,
    decide_not, Bool.not_eq_false', decide_eq_true_eq, transactionRow_total hfit]
  exact and_congr (decide_eq_false_iff_not.trans not_lt) Iff.rfl

theorem isSettled_iff : t.isSettled = true ↔ t.status = .posted ∨ t.status = .reversed := by
  simp [BankingTransaction.isSettled]

theorem ofTransaction_eq_nil {r : ListTransactionReconciliationIssuesRow} :
    ofTransaction r = [] ↔ r.isIssue = false := by
  unfold ofTransaction ListTransactionReconciliationIssuesRow.isIssue
  by_cases hcount : r.postingCount < 2 <;> by_cases htotal : r.postingTotal = 0 <;>
    simp [hcount, htotal]

theorem issues_eq_nil (hfit : b.SumsFit) :
    b.accountIssues (inScope none) ++ b.transactionIssues (b.touchesScope none) ++
      b.reversalIssues (b.touchesScope none) = [] ↔ b.InOrder := by
  have haccounts : b.accountIssues (inScope none) = [] ↔ ∀ a ∈ b.accounts.rows,
      (b.accountRow a).isIssue = false := by
    simp [accountIssues, inScope, accountsInOrder, perm_orderBy.mem_iff]
  have htransactions : b.transactionIssues (b.touchesScope none) = [] ↔
      ∀ t ∈ b.bankingTransactions.rows, t.isSettled → (b.transactionRow t).isIssue = false := by
    simp only [transactionIssues, List.flatMap_eq_nil_iff, List.mem_filter, List.mem_map,
      ofTransaction_eq_nil, touchesScope, Option.all_none, Bool.and_true, transactionsInOrder,
      perm_orderBy.mem_iff]
    constructor
    · intro h t ht hs
      by_contra hissue
      have hrow := h (b.transactionRow t) ⟨⟨t, ⟨ht, hs⟩, rfl⟩, by simpa using hissue⟩
      exact hissue hrow
    · rintro h r ⟨⟨t, ⟨ht, hs⟩, rfl⟩, hissue⟩
      exact h t ht hs
  have hreversals : b.reversalIssues (b.touchesScope none) = [] ↔
      ∀ t ∈ b.bankingTransactions.rows, (b.reversalsOf t.id).length ≤ 1 := by
    simp [reversalIssues, touchesScope, transactionsInOrder, perm_orderBy.mem_iff,
      duplicateReversal]
  rw [List.append_eq_nil_iff, List.append_eq_nil_iff, haccounts, htransactions, hreversals]
  constructor
  · rintro ⟨⟨ha, ht⟩, hr⟩
    refine ⟨fun a hmem => (isIssue_accountRow (hfit.account a hmem)).mp (ha a hmem),
      fun t hmem hsettled => ?_, hr⟩
    have hs := isSettled_iff.mpr hsettled
    exact (isIssue_transactionRow (hfit.transaction t hmem hs)).mp (ht t hmem hs)
  · rintro ⟨ha, ht, hr⟩
    refine ⟨⟨fun a hmem => (isIssue_accountRow (hfit.account a hmem)).mpr (ha a hmem),
      fun t hmem hs => ?_⟩, hr⟩
    exact (isIssue_transactionRow (hfit.transaction t hmem hs)).mpr
      (ht t hmem (isSettled_iff.mp hs))

theorem postsFor_eq (a : Account) (id : UUID) : b.postsFor a.id id =
    (b.customerLedger a).any fun l => (b.postingsOn l.id).any fun p => p.transactionID = id := by
  rw [Bool.eq_iff_iff]
  simp only [postsFor, postingsOf, postingsOn, List.any_eq_true, List.mem_filter,
    Option.any_eq_true, decide_eq_true_eq]
  constructor
  · rintro ⟨p, ⟨hp, hid⟩, l, hl, howner⟩
    have howner' : l.owner = .customer a.id := by
      cases ho : l.owner <;> simp_all [LedgerAccount.customerAccountID]
    have hkey : l.id = p.ledgerAccountID := by
      have hk := Table.key_of_get hl
      cases ho : l.owner <;> simp_all [keys, LedgerAccountKey.ofOwner]
    exact ⟨l, customerLedger_eq_some.mpr ⟨Table.mem_of_get hl, howner'⟩, p, ⟨hp, hkey.symm⟩, hid⟩
  · rintro ⟨l, hl, p, ⟨hp, hon⟩, hid⟩
    obtain ⟨hmem, howner⟩ := customerLedger_eq_some.mp hl
    refine ⟨p, ⟨hp, hid⟩, l, ?_, by simp [LedgerAccount.customerAccountID, howner]⟩
    rw [hon]
    exact Table.get_pk hmem

theorem filter_accountIssues {p : Account → Bool} (h : ∀ a, q (.ofAccount (b.accountRow a)) = p a) :
    (b.accountIssues fun _ => true).filter q = b.accountIssues p := by
  unfold accountIssues
  induction b.accountsInOrder with
  | nil => rfl
  | cons a as ih =>
    cases hp : p a <;> cases hissue : (b.accountRow a).isIssue <;>
      simpa [List.filter_cons, h, hp, hissue] using ih

theorem filter_transactionIssues
    (h : ∀ t, ∀ issue ∈ ofTransaction (b.transactionRow t), q issue = p t) :
    (b.transactionIssues fun _ => true).filter q = b.transactionIssues p := by
  unfold transactionIssues
  induction b.transactionsInOrder with
  | nil => rfl
  | cons t ts ih =>
    have hall : (ofTransaction (b.transactionRow t)).filter q =
        if p t then ofTransaction (b.transactionRow t) else [] := by
      split_ifs with hp
      · exact List.filter_eq_self.mpr fun issue hi => (h t issue hi).trans hp
      · exact List.filter_eq_nil_iff.mpr fun issue hi => by rw [h t issue hi]; exact hp
    cases hsettled : t.isSettled <;> cases hissue : (b.transactionRow t).isIssue <;>
      cases hp : p t <;>
      simpa [List.filter_cons, List.filter_append, hsettled, hissue, hall, hp] using ih

theorem filter_reversalIssues (h : ∀ t, q (.ofReversal (b.duplicateReversal t)) = p t) :
    (b.reversalIssues fun _ => true).filter q = b.reversalIssues p := by
  unfold reversalIssues
  induction b.transactionsInOrder with
  | nil => rfl
  | cons t ts ih =>
    cases hp : p t <;> by_cases hissue : 1 < (b.duplicateReversal t).reversalCount <;>
      simpa [List.filter_cons, h, hp, hissue] using ih

theorem filter_issues (a : Account) :
    (b.accountIssues (inScope none) ++ b.transactionIssues (b.touchesScope none) ++
        b.reversalIssues (b.touchesScope none)).filter (concerns b a) =
      b.accountIssues (inScope (some a)) ++ b.transactionIssues (b.touchesScope (some a)) ++
        b.reversalIssues (b.touchesScope (some a)) := by
  rw [List.filter_append, List.filter_append]
  have haccounts := filter_accountIssues (b := b) (p := inScope (some a))
    (q := concerns b a) fun a' => by
      simp [concerns, ofAccount, accountRow, inScope]
  have htransactions := filter_transactionIssues (b := b) (p := b.touchesScope (some a))
    (q := concerns b a) fun t issue hissue => by
      have hfields : issue.accountPublicID = none ∧ issue.transactionID = some t.id := by
        simp only [ofTransaction, transactionRow, List.mem_append] at hissue
        rcases hissue with hissue | hissue <;> split_ifs at hissue <;>
          simp_all
      simp [concerns, hfields, touchesScope, postsFor_eq]
  have hreversals := filter_reversalIssues (b := b) (p := b.touchesScope (some a))
    (q := concerns b a) fun t => by
      simp [concerns, ofReversal, duplicateReversal,
        touchesScope, postsFor_eq]
  exact congrArg₂ _ (congrArg₂ _ haccounts htransactions) hreversals

end Books

theorem reconciliationScope_account {a : Account} (h : a ∈ db.accounts.rows) :
    reconciliationScope (some a.publicID) db = .ok (some a) := by
  have hget : db.accounts.get (.publicID a.publicID) = some a := Table.get_key h (by simp [keys])
  simp [reconciliationScope, hget]

/-- A run over everything reports that the books are consistent exactly if they are in order.
A run for one account reports the issues of a run over everything that concern it. -/
theorem reconcile_complete (db : DB) (hfit : db.SumsFit) (runID : UUID) (checkedAt now : Timestamp)
    (actor : String) :
    ∃ report, reconcile runID checkedAt now ⟨none, actor⟩ db = .ok report ∧
      (report.consistent = true ↔ db.InOrder) ∧
      ∀ a ∈ db.accounts.rows, ∀ runID' checkedAt' now' actor',
        ∃ report', reconcile runID' checkedAt' now' ⟨some a.publicID, actor'⟩ db = .ok report' ∧
          report'.issues = report.issues.filter (concerns db.toBooks a) := by
  obtain ⟨report, hreport, hissues, hconsistent⟩ :=
    exists_reconcile runID checkedAt now ⟨none, actor⟩ rfl (hfit.issues none)
  refine ⟨report, hreport, ?_, fun a ha runID' checkedAt' now' actor' => ?_⟩
  · rw [hconsistent, decide_eq_true_iff, List.length_eq_zero_iff]
    exact Books.issues_eq_nil hfit
  · obtain ⟨report', hreport', hissues', _⟩ :=
      exists_reconcile runID' checkedAt' now' ⟨some a.publicID, actor'⟩
        (reconciliationScope_account ha) (hfit.issues (some a))
    refine ⟨report', hreport', ?_⟩
    rw [hissues', hissues, Books.filter_issues]

def emptyAccount : Account :=
  ⟨2, "bob", 0, "USD", 0, 200, .active, 0, none, "0000000002"⟩

/-- A deposit of Alice without its second posting; the account of Bob is in order. -/
def halfDeposit : DB :=
  { DB.initial ∅ with
    accounts := ⟨[⟨1, "alice", 5, "USD", 0, 100, .active, 0, none, "0000000001"⟩, emptyAccount],
      by decide +kernel⟩
    ledgerAccounts := ⟨[⟨1, .customer 1, "USD"⟩, ⟨2, .customer 2, "USD"⟩], by decide⟩
    bankingTransactions := ⟨[⟨1, "DEP-1", .deposit, .posted, "USD", 5, "", "operator", none, 0,
      some 0, none, none⟩], by decide⟩
    ledgerPostings := ⟨[⟨1, 1, 5, 0⟩], by decide⟩ }

theorem halfDeposit_sumsFit : halfDeposit.SumsFit :=
  ⟨by decide +kernel, by decide +kernel⟩

theorem reconcile_halfDeposit :
    ∃ report report', reconcile 1 0 0 ⟨none, "operator"⟩ halfDeposit = .ok report ∧
      (report.consistent = true ↔ halfDeposit.InOrder) ∧
      reconcile 2 0 0 ⟨some 200, "operator"⟩ halfDeposit = .ok report' ∧
      report'.issues = report.issues.filter
        (concerns halfDeposit.toBooks emptyAccount) := by
  obtain ⟨report, hreport, hconsistent, hscoped⟩ :=
    reconcile_complete halfDeposit halfDeposit_sumsFit 1 0 0 "operator"
  obtain ⟨report', hreport', hissues⟩ := hscoped emptyAccount (by decide) 2 0 0 "operator"
  exact ⟨report, report', hreport, hconsistent, hreport', hissues⟩

/-! ## The metric -/

theorem sum_eq_length_iff {α : Type} {f : α → ℕ} {xs : List α} (h : ∀ x ∈ xs, 1 ≤ f x) :
    xs.length = (xs.map f).sum ↔ ∀ x ∈ xs, f x = 1 := by
  have hle : ∀ ys : List α, (∀ x ∈ ys, 1 ≤ f x) → ys.length ≤ (ys.map f).sum := by
    intro ys hys
    induction ys with
    | nil => simp
    | cons y ys ih =>
      rw [List.forall_mem_cons] at hys
      have hrest := ih hys.2
      simp only [List.length_cons, List.map_cons, List.sum_cons]
      omega
  induction xs with
  | nil => simp
  | cons x xs ih =>
    rw [List.forall_mem_cons] at h
    have hrest := hle xs h.2
    have hiff := ih h.2
    rw [List.forall_mem_cons, List.length_cons, List.map_cons, List.sum_cons]
    constructor
    · intro hlength
      exact ⟨by omega, hiff.mp (by omega)⟩
    · rintro ⟨hx, hxs⟩
      rw [hx, ← hiff.mpr hxs]
      omega

namespace Books

variable {b : Books}

theorem length_reversalsOf_le (b : Books) (id : UUID) : (b.reversalsOf id).length ≤ 1 := by
  have hpairwise : (b.reversalsOf id).Pairwise fun _ _ => False := by
    have hall : (b.reversalsOf id).Pairwise fun t t' => ∀ k ∈ keys t, k ∉ keys t' :=
      List.Pairwise.filter _ b.bankingTransactions.unique
    refine hall.imp_of_mem fun {t t'} ht ht' hne => ?_
    have ht : t.reversalOf = some id := of_decide_eq_true (List.mem_filter.mp ht).2
    have ht' : t'.reversalOf = some id := of_decide_eq_true (List.mem_filter.mp ht').2
    exact hne (.reversalOf id) (by simp [keys, ht]) (by simp [keys, ht'])
  match hlist : b.reversalsOf id with
  | [] => simp
  | [_] => simp
  | t :: t' :: rest =>
    rw [hlist] at hpairwise
    exact ((List.pairwise_cons.mp hpairwise).1 t' List.mem_cons_self).elim

theorem duplicatedReversals_eq_nil (b : Books) : b.duplicatedReversals = [] := by
  rw [duplicatedReversals, List.filter_eq_nil_iff]
  intro id _ h
  exact absurd (of_decide_eq_true h) (not_lt.mpr (b.length_reversalsOf_le id))

theorem reversalIssues_eq_nil (b : Books) (p : BankingTransaction → Bool) :
    b.reversalIssues p = [] := by
  rw [reversalIssues, List.map_eq_nil_iff, List.filter_eq_nil_iff]
  intro r hr h
  obtain ⟨t, _, rfl⟩ := List.mem_map.mp hr
  exact absurd (of_decide_eq_true h) (not_lt.mpr (b.length_reversalsOf_le t.id))

theorem reconciliationDrift_ok {n : ℕ} : reconciliationDrift b = .ok n ↔ b.SumsFit ∧
    n = ((b.accounts.rows.map b.accountRow).filter (·.isIssue)).length +
      (((b.bankingTransactions.rows.filter (·.isSettled)).map b.transactionRow).filter
        (·.isIssue)).length := by
  unfold reconciliationDrift
  rw [duplicatedReversals_eq_nil]
  cases haccounts : b.accounts.rows.mapM b.accountReconciliation with
  | error e =>
    simp only [bind, Except.bind, reduceCtorEq, false_iff]
    intro h
    rw [mapM_accountReconciliation.mpr ⟨h.1.account, rfl⟩] at haccounts
    cases haccounts
  | ok accounts =>
    obtain ⟨hfit, rfl⟩ := mapM_accountReconciliation.mp haccounts
    cases htransactions : (b.bankingTransactions.rows.filter (·.isSettled)).mapM
        b.transactionReconciliation with
    | error e =>
      simp only [bind, Except.bind, reduceCtorEq, false_iff]
      intro h
      rw [mapM_transactionReconciliation.mpr ⟨fun t ht => h.1.transaction t
        (List.mem_filter.mp ht).1 (List.mem_filter.mp ht).2, rfl⟩] at htransactions
      cases htransactions
    | ok transactions =>
      obtain ⟨hfit', rfl⟩ := mapM_transactionReconciliation.mp htransactions
      have hfits : b.SumsFit :=
        ⟨hfit, fun t ht hs => hfit' t (List.mem_filter.mpr ⟨ht, hs⟩)⟩
      simp [bind, Except.bind, pure, Except.pure, hfits, eq_comm]

theorem length_accountIssues (b : Books) : (b.accountIssues (inScope none)).length =
    ((b.accounts.rows.map b.accountRow).filter (·.isIssue)).length := by
  have hperm : ((b.accountsInOrder.filter (inScope none)).map b.accountRow).Perm
      (b.accounts.rows.map b.accountRow) := by
    have hall : b.accountsInOrder.filter (inScope none) = b.accountsInOrder :=
      List.filter_eq_self.mpr fun _ _ => rfl
    rw [hall]
    exact perm_orderBy.map _
  rw [accountIssues, List.length_map]
  exact (hperm.filter _).length_eq

theorem length_transactionIssues (b : Books) : (b.transactionIssues (b.touchesScope none)).length =
    ((((b.bankingTransactions.rows.filter (·.isSettled)).map b.transactionRow).filter
      (·.isIssue)).map fun r => (ofTransaction r).length).sum := by
  have hsettled : (fun t : BankingTransaction => t.isSettled && b.touchesScope none t) =
      (·.isSettled) := by
    funext t
    simp [touchesScope]
  rw [transactionIssues, hsettled, List.length_flatMap]
  exact ((((perm_orderBy.filter _).map _).filter _).map _).sum_eq

theorem length_ofTransaction {r : ListTransactionReconciliationIssuesRow} (h : r.isIssue = true) :
    1 ≤ (ofTransaction r).length ∧
      ((ofTransaction r).length = 1 ↔
        ¬ (r.postingCount < 2 ∧ r.postingTotal ≠ 0)) := by
  unfold ListTransactionReconciliationIssuesRow.isIssue at h
  unfold ofTransaction
  by_cases hcount : r.postingCount < 2 <;> by_cases htotal : r.postingTotal = 0 <;>
    simp_all

end Books

def Books.NoLonePosting (b : Books) : Prop :=
  ∀ t ∈ b.bankingTransactions.rows, t.status = .posted ∨ t.status = .reversed →
    (b.postingsOf t.id).length = 1 → Books.postingTotal (b.postingsOf t.id) = 0

/-- The metric and a run over everything fail together. If they do not fail, the metric is
the number of issues exactly if no settled transaction has a single posting of some
amount: for such a transaction there are two issues, and it is counted once. -/
theorem reconciliationDrift_eq_iff (db : DB) (runID : UUID) (checkedAt now : Timestamp)
    (actor : String) :
    ((∃ n, reconciliationDrift db.toBooks = .ok n) ↔
      ∃ report, reconcile runID checkedAt now ⟨none, actor⟩ db = .ok report) ∧
    ∀ n report, reconciliationDrift db.toBooks = .ok n →
      reconcile runID checkedAt now ⟨none, actor⟩ db = .ok report →
        (n = report.issues.length ↔ db.NoLonePosting) := by
  constructor
  · constructor
    · rintro ⟨n, hn⟩
      obtain ⟨hfit, _⟩ := Books.reconciliationDrift_ok.mp hn
      obtain ⟨report, hreport, _⟩ :=
        exists_reconcile runID checkedAt now ⟨none, actor⟩ rfl (hfit.issues none)
      exact ⟨report, hreport⟩
    · rintro ⟨report, hreport⟩
      obtain ⟨scope, hscope, hissues, _⟩ := reconcile_ok hreport
      cases hscope
      obtain ⟨⟨haccounts, htransactions⟩, _⟩ := reconciliationIssues_ok.mp hissues
      exact ⟨_, Books.reconciliationDrift_ok.mpr ⟨⟨fun a ha => haccounts a ha rfl,
        fun t ht hs => htransactions t ht hs rfl⟩, rfl⟩⟩
  · intro n report hn hreport
    obtain ⟨hfit, rfl⟩ := Books.reconciliationDrift_ok.mp hn
    obtain ⟨scope, hscope, hissues, _⟩ := reconcile_ok hreport
    cases hscope
    obtain ⟨_, hreported⟩ := reconciliationIssues_ok.mp hissues
    rw [hreported, Books.reversalIssues_eq_nil, List.append_nil, List.length_append,
      Books.length_accountIssues, Books.length_transactionIssues, Nat.add_left_cancel_iff,
      sum_eq_length_iff fun r hr => (Books.length_ofTransaction (List.mem_filter.mp hr).2).1]
    constructor
    · intro hone t ht hsettled hlone
      have hs := Books.isSettled_iff.mpr hsettled
      by_contra htotal
      have hissue : (db.transactionRow t).isIssue = true := by
        simp [Books.transactionRow, ListTransactionReconciliationIssuesRow.isIssue, hlone]
      have hrow := hone (db.transactionRow t) (List.mem_filter.mpr
        ⟨List.mem_map.mpr ⟨t, List.mem_filter.mpr ⟨ht, hs⟩, rfl⟩, hissue⟩)
      refine (Books.length_ofTransaction hissue).2.mp hrow ⟨by simp [Books.transactionRow, hlone], ?_⟩
      rwa [Ne, Books.transactionRow_total (hfit.transaction t ht hs)]
    · intro hlone r hr
      obtain ⟨hrow, hissue⟩ := List.mem_filter.mp hr
      obtain ⟨t, ht, rfl⟩ := List.mem_map.mp hrow
      obtain ⟨ht, hs⟩ := List.mem_filter.mp ht
      refine (Books.length_ofTransaction hissue).2.mpr ?_
      rintro ⟨hcount, htotal⟩
      rw [Ne, Books.transactionRow_total (hfit.transaction t ht hs)] at htotal
      have hcount : (db.postingsOf t.id).length < 2 := hcount
      rcases Nat.lt_succ_iff_lt_or_eq.mp hcount with hnone | hone
      · rw [List.length_eq_zero_iff.mp (Nat.lt_one_iff.mp hnone)] at htotal
        exact htotal rfl
      · exact htotal (hlone t ht (Books.isSettled_iff.mp hs) hone)

theorem halfDeposit_counted_once :
    (reconciliationDrift halfDeposit.toBooks).toOption = some 1 ∧
      (reconcile 1 0 0 ⟨none, "operator"⟩ halfDeposit).toOption.map (·.issues.length) = some 2 := by
  decide +kernel

end Monierave
