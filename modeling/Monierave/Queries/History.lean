import Mathlib.Data.Prod.Lex
import Monierave.Queries.Ledger
import Monierave.Relational.Window

/-! # Queries on the history of an account

The statements of `transaction_history.sql` behind the account history and the
account statement.
-/

namespace Monierave

open Relational

/-! ## What is posted on an account -/

def BankingTransaction.historyKey (t : BankingTransaction) : Int ×ₗ Nat :=
  toLex (t.createdAt, t.id.toNat)

def DB.targetLedger (db : DB) (accountPublicID : Option UUID) (username : String) :
    Option LedgerAccount :=
  ((accountPublicID.bind fun id => db.accounts.get (.publicID id)).filter
    fun a => a.owner = username).bind fun a => db.ledgerAccounts.get (.customerAccountID a.id)

structure Activity where
  posting : LedgerPosting
  transaction : BankingTransaction
  deriving DecidableEq

namespace Activity

def key (x : Activity) : Int ×ₗ Nat := x.transaction.historyKey

def signedAmount (x : Activity) : Int := x.posting.amount.toInt

end Activity

namespace Books

def withTransaction (b : Books) (p : LedgerPosting) : Option Activity :=
  (b.bankingTransactions.get (.id p.transactionID)).map fun t => ⟨p, t⟩

def activity (b : Books) (ledgerAccountID : Int64) : List Activity :=
  (b.postingsOn ledgerAccountID).filterMap b.withTransaction

/-- Who is on the other side of a posting. -/
inductive CounterpartyKind
  | customer
  | settlement
  deriving DecidableEq, Repr

def counterparty (b : Books) (p : LedgerPosting) : Option LedgerAccount :=
  ((b.postingsOf p.transactionID).filter
    fun other => other.ledgerAccountID ≠ p.ledgerAccountID).findSome?
      fun other => b.ledgerAccounts.get (.id other.ledgerAccountID)

def counterpartyKind (b : Books) (p : LedgerPosting) : Option CounterpartyKind :=
  (b.counterparty p).map fun l =>
    match l.owner with
    | .customer _ => .customer
    | .settlement _ => .settlement

def counterpartyName (b : Books) (p : LedgerPosting) : String :=
  match (b.counterparty p).map LedgerAccount.owner with
  | none => ""
  | some (.settlement _) => "Monierave"
  | some (.customer id) => ((b.accounts.get (.id id)).map Account.accountNumber).getD ""

end Books

/-! ## `ListOwnedAccountTransactions` -/

structure ListOwnedAccountTransactionsRow where
  id : UUID
  reference : String
  transactionType : BankingTransactionType
  status : BankingTransactionStatus
  currency : String
  amount : Int64
  narration : String
  createdAt : Timestamp
  postedAt : Option Timestamp
  signedAmount : Int64
  direction : Direction
  counterpartyKind : Option Books.CounterpartyKind
  counterparty : String
  balanceAfter : Int64
  deriving DecidableEq

structure ListOwnedAccountTransactionsParams where
  accountPublicID : Option UUID
  username : String
  fromTime : Option Timestamp
  toTime : Option Timestamp
  transactionType : Option BankingTransactionType
  transactionStatus : Option BankingTransactionStatus
  direction : Option Direction
  cursorCreatedAt : Option Timestamp
  cursorID : Option UUID
  pageLimit : Nat
  deriving DecidableEq

namespace ListOwnedAccountTransactionsRow

def key (r : ListOwnedAccountTransactionsRow) : Int ×ₗ Nat := toLex (r.createdAt, r.id.toNat)

/-- A row of `account_activity`, whose balance is the running sum `total`. -/
def ofActivity (b : Books) (x : Activity) (balanceAfter : Int64) :
    ListOwnedAccountTransactionsRow where
  id := x.transaction.id
  reference := x.transaction.reference
  transactionType := x.transaction.transactionType
  status := x.transaction.status
  currency := x.transaction.currency
  amount := x.transaction.amount
  narration := x.transaction.narration
  createdAt := x.transaction.createdAt
  postedAt := x.transaction.postedAt
  signedAmount := x.posting.amount
  direction := if 0 < x.posting.amount then .incoming else .outgoing
  counterpartyKind := b.counterpartyKind x.posting
  counterparty := b.counterpartyName x.posting
  balanceAfter := balanceAfter

def matchesFilters (arg : ListOwnedAccountTransactionsParams)
    (r : ListOwnedAccountTransactionsRow) : Bool :=
  arg.fromTime.all (· ≤ r.createdAt) && arg.toTime.all (r.createdAt < ·) &&
    arg.transactionType.all (r.transactionType = ·) &&
    arg.transactionStatus.all (r.status = ·) && arg.direction.all (r.direction = ·)

/-- The row comes after the cursor. A row comparison with a null id is decided by
the times alone, and not true where they are equal. -/
def afterCursor (arg : ListOwnedAccountTransactionsParams)
    (r : ListOwnedAccountTransactionsRow) : Bool :=
  match arg.cursorCreatedAt, arg.cursorID with
  | none, _ => true
  | some time, none => r.createdAt < time
  | some time, some id => r.key < toLex (time, id.toNat)

end ListOwnedAccountTransactionsRow

/-- All rows of `account_activity` with their running balance, or the error that
some running balance does not fit its type. -/
def Books.accountActivity (b : Books) (ledgerAccountID : Int64) :
    Except SqlError (List ListOwnedAccountTransactionsRow) :=
  (windowSums Activity.key Activity.signedAmount (b.activity ledgerAccountID)).mapM
    fun (x, total) => (bigint total).map (.ofActivity b x)

def listOwnedAccountTransactions (arg : ListOwnedAccountTransactionsParams) (db : DB) :
    Except SqlError (List ListOwnedAccountTransactionsRow) :=
  match db.targetLedger arg.accountPublicID arg.username with
  | none => .ok []
  | some ledger =>
    (db.accountActivity ledger.id).map fun rows =>
      (orderByDesc ListOwnedAccountTransactionsRow.key
        (rows.filter fun r => r.matchesFilters arg && r.afterCursor arg)).take arg.pageLimit

/-! ## `GetOwnedAccountStatementBalances` -/

structure GetOwnedAccountStatementBalancesRow where
  openingBalance : Int64
  closingBalance : Int64
  deriving DecidableEq

def sumWhere (rows : List Activity) (p : Activity → Bool) : Int :=
  ((rows.filter p).map Activity.signedAmount).sum

def getOwnedAccountStatementBalances (fromTime toTime : Option Timestamp)
    (accountPublicID : Option UUID) (username : String) (db : DB) :
    Except SqlError GetOwnedAccountStatementBalancesRow := do
  let rows := ((db.targetLedger accountPublicID username).map
    fun ledger => db.activity ledger.id).getD []
  let openingBalance ← bigint (sumWhere rows
    fun x => fromTime.any (x.transaction.createdAt < ·))
  let closingBalance ← bigint (sumWhere rows
    fun x => toTime.all (x.transaction.createdAt < ·))
  pure ⟨openingBalance, closingBalance⟩

/-! ## The running balance -/

namespace Books

variable {b : Books} {id : Int64}

theorem mem_activity {x : Activity} :
    x ∈ b.activity id ↔ x.posting ∈ b.ledgerPostings.rows ∧ x.posting.ledgerAccountID = id ∧
      b.bankingTransactions.get (.id x.posting.transactionID) = some x.transaction := by
  simp only [activity, postingsOn, withTransaction, List.mem_filterMap, List.mem_filter,
    decide_eq_true_eq, Option.map_eq_some_iff]
  constructor
  · rintro ⟨p, ⟨hp, hon⟩, t, ht, rfl⟩
    exact ⟨hp, hon, ht⟩
  · rintro ⟨hp, hon, ht⟩
    exact ⟨x.posting, ⟨hp, hon⟩, x.transaction, ht, rfl⟩

theorem transaction_id_of_get {k : UUID} {t : BankingTransaction}
    (h : b.bankingTransactions.get (.id k) = some t) : t.id = k := by
  have hk := Table.key_of_get h
  simpa [keys, eq_comm] using hk

theorem distinctKeys_activity (b : Books) (id : Int64) :
    DistinctKeys Activity.key (b.activity id) := by
  have hpostings : (b.postingsOn id).Pairwise fun p q => p.transactionID ≠ q.transactionID := by
    have hall : (b.postingsOn id).Pairwise fun p q => ∀ k ∈ keys p, k ∉ keys q :=
      List.Pairwise.filter _ b.ledgerPostings.unique
    refine List.Pairwise.imp_of_mem ?_ hall
    intro p q hp hq hne heq
    have hp' : p.ledgerAccountID = id := of_decide_eq_true (List.mem_filter.mp hp).2
    have hq' : q.ledgerAccountID = id := of_decide_eq_true (List.mem_filter.mp hq).2
    refine hne (.transactionAccount p.transactionID p.ledgerAccountID) (by simp [keys]) ?_
    simp [keys, heq, hp', hq']
  refine List.Pairwise.filterMap b.withTransaction ?_ hpostings
  intro p q hne x hx y hy hkey
  obtain ⟨t, ht, rfl⟩ := Option.map_eq_some_iff.mp hx
  obtain ⟨t', ht', rfl⟩ := Option.map_eq_some_iff.mp hy
  have hid : t.id.toNat = t'.id.toNat := (Prod.mk.inj (toLex.injective hkey)).2
  apply hne
  rw [← transaction_id_of_get ht, ← transaction_id_of_get ht']
  exact BitVec.eq_of_toNat_eq hid

def balanceUpTo (b : Books) (ledgerAccountID : Int64) (k : Int ×ₗ Nat) : Int :=
  sumUpTo Activity.key Activity.signedAmount (b.activity ledgerAccountID) k

end Books

theorem mapM_ok_iff {α β ε : Type} {f : α → Except ε β} {p : α → Prop} {g : α → β}
    (h : ∀ x y, f x = .ok y ↔ p x ∧ y = g x) {xs : List α} {ys : List β} :
    xs.mapM f = .ok ys ↔ (∀ x ∈ xs, p x) ∧ ys = xs.map g := by
  induction xs generalizing ys with
  | nil => simp [pure, Except.pure, eq_comm]
  | cons x xs ih =>
    rw [List.mapM_cons, List.forall_mem_cons, List.map_cons]
    cases hx : f x with
    | error e =>
      have hnot : ¬ p x := by
        intro hp
        rw [(h x (g x)).mpr ⟨hp, rfl⟩] at hx
        cases hx
      simp [bind, Except.bind, hnot]
    | ok y =>
      obtain ⟨hp, rfl⟩ := (h x y).mp hx
      cases hrest : xs.mapM f with
      | error e =>
        have hnot : ¬ ∀ x ∈ xs, p x := by
          intro hall
          rw [ih.mpr ⟨hall, rfl⟩] at hrest
          cases hrest
        simp [bind, Except.bind, hnot]
      | ok rest =>
        obtain ⟨hall, rfl⟩ := ih.mp hrest
        simpa [bind, Except.bind, pure, Except.pure, hp, eq_comm] using fun _ => hall

namespace Books

variable {b : Books} {id : Int64}

def historyRow (b : Books) (ledgerAccountID : Int64) (x : Activity) :
    ListOwnedAccountTransactionsRow :=
  .ofActivity b x (Int64.ofInt (b.balanceUpTo ledgerAccountID x.key))

theorem accountActivity_ok {rows : List ListOwnedAccountTransactionsRow} :
    b.accountActivity id = .ok rows ↔
      (∀ x ∈ b.activity id, fitsBigint (b.balanceUpTo id x.key)) ∧
        rows = (orderBy Activity.key (b.activity id)).map (b.historyRow id) := by
  have hrow : ∀ (x : Activity × Int) y,
      (bigint x.2).map (ListOwnedAccountTransactionsRow.ofActivity b x.1) = .ok y ↔
        fitsBigint x.2 ∧ y = .ofActivity b x.1 (Int64.ofInt x.2) := by
    exact fun x y => map_bigint_ok
  rw [accountActivity, mapM_ok_iff hrow, windowSums_eq (distinctKeys_activity b id),
    List.forall_mem_map, List.map_map]
  refine and_congr ?_ Iff.rfl
  exact forall_congr' fun x => imp_congr perm_orderBy.mem_iff Iff.rfl

theorem toInt_balanceAfter {x : Activity} (h : fitsBigint (b.balanceUpTo id x.key)) :
    (b.historyRow id x).balanceAfter.toInt = b.balanceUpTo id x.key :=
  toInt_ofInt_of_fits h

end Books

theorem mem_listOwnedAccountTransactions {arg : ListOwnedAccountTransactionsParams} {db : DB}
    {rows : List ListOwnedAccountTransactionsRow} {r : ListOwnedAccountTransactionsRow}
    (h : listOwnedAccountTransactions arg db = .ok rows) (hr : r ∈ rows) :
    ∃ ledger x, db.targetLedger arg.accountPublicID arg.username = some ledger ∧
      x ∈ db.activity ledger.id ∧ r = db.historyRow ledger.id x ∧
      fitsBigint (db.balanceUpTo ledger.id x.key) := by
  unfold listOwnedAccountTransactions at h
  cases hl : db.targetLedger arg.accountPublicID arg.username with
  | none =>
    rw [hl] at h
    cases h
    cases hr
  | some ledger =>
    simp only [hl] at h
    cases hall : db.accountActivity ledger.id with
    | error e => simp [hall, Except.map] at h
    | ok all =>
      simp only [hall, Except.map, Except.ok.injEq] at h
      subst h
      obtain ⟨hfit, rfl⟩ := Books.accountActivity_ok.mp hall
      have hmem := List.mem_of_mem_filter (perm_orderByDesc.mem_iff.mp (List.mem_of_mem_take hr))
      obtain ⟨x, hx, rfl⟩ := List.mem_map.mp hmem
      have hx' := perm_orderBy.mem_iff.mp hx
      exact ⟨ledger, x, rfl, hx', rfl, hfit x hx'⟩

end Monierave
