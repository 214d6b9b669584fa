import Monierave.Banking.Conservation
import Monierave.Banking.Triggers
import Monierave.Queries.History
import Monierave.Schema.Identifiers

/-! # The migration to the double-entry ledger

Migration 14 gives every account of the legacy model its ledger account and books
its balance as an opening deposit.
-/

namespace Monierave

open Relational Accounting
open LedgerAccountKey (ofOwner)

/-! ## The legacy accounts -/

structure LegacyAccount where
  id : Int64
  owner : String
  balance : Int64
  currency : String
  deriving DecidableEq

inductive LegacyAccountKey
  | id (id : Int64)
  deriving DecidableEq

instance : Keyed LegacyAccount LegacyAccountKey where
  pk a := .id a.id
  keys a := [.id a.id]

/-! ## The statements -/

/-- `INSERT` of the rows of a query. -/
def insertRows {R κ : Type} [Keyed R κ] [DecidableEq κ] (constraint : κ → String)
    (violated : R → Option SqlError) (t : Table R) : List R → Except SqlError (Table R)
  | [] => .ok t
  | r :: rows =>
    match violated r with
    | some e => .error e
    | none =>
      match t.conflict r with
      | some k => .error (.uniqueViolation (constraint k))
      | none => insertRows constraint violated (t.insert r) rows

def settlementLedgers (env : Env) : List LedgerAccount :=
  ["USD", "EUR"].zipIdx.map fun (currency, i) =>
    ⟨env.serial i, .settlement (settlementCode currency), currency⟩

def customerLedgers (env : Env) (accounts : Table LegacyAccount) : List LedgerAccount :=
  (accounts.rows.zipIdx 2).map fun (a, i) => ⟨env.serial i, .customer a.id, a.currency⟩

/-- `ledger_accounts_customer_account_id_fkey`. -/
def missingAccount (accounts : Table LegacyAccount) (l : LedgerAccount) : Option SqlError :=
  match l.customerAccountID with
  | none => none
  | some id =>
    if (accounts.get (.id id)).isNone then
      some (.foreignKeyViolation "ledger_accounts_customer_account_id_fkey")
    else none

/-- A row of the temporary table `account_opening_transactions`. -/
structure AccountOpeningTransaction where
  accountID : Int64
  transactionID : UUID
  balance : Int64
  currency : String
  owner : String

def LegacyAccount.opening (env : Env) (a : LegacyAccount) (i : Nat) :
    AccountOpeningTransaction where
  accountID := a.id
  transactionID := env.uuid i
  balance := a.balance
  currency := a.currency
  owner := a.owner

def accountOpeningTransactions (env : Env) (accounts : Table LegacyAccount) :
    List AccountOpeningTransaction :=
  (accounts.rows.filter fun a => 0 < a.balance).zipIdx.map fun (a, i) => a.opening env i

namespace AccountOpeningTransaction

def transaction (env : Env) (o : AccountOpeningTransaction) : BankingTransaction where
  id := o.transactionID
  reference := "MIG-" ++ String.ofList (o.transactionID.hex.map Char.toUpper)
  transactionType := .deposit
  status := .posted
  currency := o.currency
  amount := o.balance
  narration := "Opening balance migrated from the legacy account model"
  initiatedBy := "migration"
  reversalOf := none
  createdAt := env.now
  postedAt := some env.now
  failedAt := none
  reversedAt := none

end AccountOpeningTransaction

def openingViolated (t : BankingTransaction) : Option SqlError :=
  if ¬ 0 < t.amount then some (.checkViolation "banking_transactions_amount_positive")
  else if ¬ t.statusTimestamps then
    some (.checkViolation "banking_transactions_status_timestamp_check")
  else none

def customerPostings (env : Env) (ledgerAccounts : Table LedgerAccount)
    (opening : List AccountOpeningTransaction) : List LedgerPosting :=
  opening.flatMap fun o =>
    (ledgerAccounts.rows.filter fun l => l.customerAccountID = some o.accountID).map fun l =>
      ⟨o.transactionID, l.id, o.balance, env.now⟩

def LedgerAccount.code (l : LedgerAccount) : Option String :=
  match l.owner with
  | .customer _ => none
  | .settlement code => some code

/-- Those on the settlement ledger accounts. The negation is one of `bigint`. -/
def settlementPostings (env : Env) (ledgerAccounts : Table LedgerAccount)
    (opening : List AccountOpeningTransaction) : Except SqlError (List LedgerPosting) :=
  (opening.flatMap fun o =>
    (ledgerAccounts.rows.filter fun l => l.code = some (settlementCode o.currency)).map
      fun l => (o, l)).mapM fun (o, l) =>
    (bigint (-o.balance.toInt)).map fun amount => ⟨o.transactionID, l.id, amount, env.now⟩

def openingPostingViolated (ledgerAccounts : Table LedgerAccount)
    (bankingTransactions : Table BankingTransaction) (p : LedgerPosting) : Option SqlError :=
  if p.amount = 0 then some (.checkViolation "ledger_postings_amount_nonzero")
  else if (bankingTransactions.get (.id p.transactionID)).isNone then
    some (.foreignKeyViolation "ledger_postings_transaction_id_fkey")
  else if (ledgerAccounts.get (.id p.ledgerAccountID)).isNone then
    some (.foreignKeyViolation "ledger_postings_ledger_account_id_fkey")
  else none

structure LedgerTables where
  ledgerAccounts : Table LedgerAccount
  bankingTransactions : Table BankingTransaction
  ledgerPostings : Table LedgerPosting

def doubleEntryLedger (env : Env) (accounts : Table LegacyAccount) :
    Except SqlError LedgerTables := do
  let ledgerAccounts ← insertRows LedgerAccountKey.constraint (fun _ => none) ∅
    (settlementLedgers env)
  let ledgerAccounts ← insertRows LedgerAccountKey.constraint (missingAccount accounts)
    ledgerAccounts (customerLedgers env accounts)
  let opening := accountOpeningTransactions env accounts
  let bankingTransactions ← insertRows BankingTransactionKey.constraint openingViolated ∅
    (opening.map (·.transaction env))
  let debits ← settlementPostings env ledgerAccounts opening
  let ledgerPostings ← insertRows LedgerPostingKey.constraint
    (openingPostingViolated ledgerAccounts bankingTransactions) ∅
    (customerPostings env ledgerAccounts opening ++ debits)
  return ⟨ledgerAccounts, bankingTransactions, ledgerPostings⟩

def LedgerTables.into (s : LedgerTables) (db : DB) : DB :=
  { db with
    ledgerAccounts := s.ledgerAccounts
    bankingTransactions := s.bankingTransactions
    ledgerPostings := s.ledgerPostings }

/-- Each account has exactly one ledger account, in its currency, with its balance
posted there; the opening transactions balance and the settlement accounts lack what
the customers have. -/
structure Books.Opened (b : Books) (accounts : Table LegacyAccount) : Prop where
  customer : ∀ a ∈ accounts.rows, ∃! l, l ∈ b.ledgerAccounts.rows ∧ l.customerAccountID = some a.id
  balance : ∀ a ∈ accounts.rows, ∀ l ∈ b.ledgerAccounts.rows, l.customerAccountID = some a.id →
    l.currency = a.currency ∧ a.balance.toInt = b.ledgerSum l.id
  opening : ∀ t ∈ b.bankingTransactions.rows, t.status = .posted ∧
    (b.postingsOf t.id).length = 2 ∧
    ((b.postingsOf t.id).map fun p => p.amount.toInt).sum = 0 ∧
    ((b.postingsOf t.id).map fun p => (p.amount.toInt.natAbs : Int)).sum = 2 * t.amount.toInt
  settlement : ∀ currency, currency = "USD" ∨ currency = "EUR" →
    ∃! l, l ∈ b.ledgerAccounts.rows ∧ l.code = some (settlementCode currency)
  lacks : ∀ currency, ∀ l ∈ b.ledgerAccounts.rows, l.code = some (settlementCode currency) →
    l.currency = currency ∧
      b.ledgerSum l.id = -groupSum (·.currency) (·.balance.toInt) accounts.rows currency

/-- The serial ids and the UUIDs drawn for a migration of `n` accounts differ. -/
structure Env.DistinctDraws (env : Env) (n : Nat) : Prop where
  serial : ∀ i < n + 2, ∀ j < n + 2, env.serial i = env.serial j → i = j
  uuid : ∀ i < n, ∀ j < n, env.uuid i = env.uuid j → i = j

/-! ## Rows and draws -/

section Rows

variable {R κ : Type} [Keyed R κ] [DecidableEq κ] {constraint : κ → String}
  {violated : R → Option SqlError}

variable {t : Table R}

theorem exists_insertRows {rows : List R} (hviolated : ∀ r ∈ rows, violated r = none)
    (hunique : (t.rows ++ rows).Pairwise fun a b => ∀ k ∈ keys a, k ∉ keys b) :
    ∃ t', insertRows constraint violated t rows = .ok t' ∧ t'.rows = t.rows ++ rows := by
  induction rows generalizing t with
  | nil => exact ⟨t, rfl, (List.append_nil _).symm⟩
  | cons r rows ih =>
    rw [List.forall_mem_cons] at hviolated
    have hconflict : t.conflict r = none := by
      rw [Table.conflict_eq_none]
      intro k hk
      rw [Table.get_eq_none]
      intro a ha hka
      exact (List.pairwise_append.mp hunique).2.2 a ha r List.mem_cons_self k hka hk
    have hrows : (t.insert r).rows ++ rows = t.rows ++ r :: rows := by
      rw [Table.insert_rows hconflict, List.append_assoc, List.singleton_append]
    simp only [insertRows, hviolated.1, hconflict]
    rw [← hrows]
    exact ih hviolated.2 (hrows ▸ hunique)

theorem existsUnique_of_get {k : κ} {r : R} (h : t.get k = some r) :
    ∃! r', r' ∈ t.rows ∧ k ∈ keys r' := by
  refine ⟨r, Table.get_eq_some.mp h, ?_⟩
  intro r' hr'
  exact Option.some.inj ((Table.get_eq_some.mpr hr').symm.trans h)

omit [DecidableEq κ] in
theorem pairwise_zipIdx {α : Type} {rel : α → α → Prop} {l : List α} (h : l.Pairwise rel) (n : Nat) :
    (l.zipIdx n).Pairwise fun x y => rel x.1 y.1 ∧ x.2 < y.2 := by
  rw [List.pairwise_iff_getElem] at *
  intro i j hi hj hij
  rw [List.getElem_zipIdx, List.getElem_zipIdx]
  exact ⟨h i j _ _ hij, by omega⟩

end Rows

section Migration

variable {env : Env} {accounts : Table LegacyAccount}

/-! ## The ledger accounts -/

variable {l : LedgerAccount} {ledgers : Table LedgerAccount} {k : LedgerAccountKey}

theorem mem_settlementLedgers : l ∈ settlementLedgers env ↔
    l = ⟨env.serial 0, .settlement (settlementCode "USD"), "USD"⟩ ∨
      l = ⟨env.serial 1, .settlement (settlementCode "EUR"), "EUR"⟩ := by
  simp [settlementLedgers]

theorem mem_customerLedgers (h : l ∈ customerLedgers env accounts) :
    ∃ a ∈ accounts.rows, ∃ i < accounts.rows.length,
      l = ⟨env.serial (2 + i), .customer a.id, a.currency⟩ := by
  obtain ⟨⟨a, i⟩, hmem, rfl⟩ := List.mem_map.mp h
  obtain ⟨hle, hlt, ha⟩ := List.mem_zipIdx hmem
  refine ⟨a, ha ▸ List.getElem_mem _, i - 2, by omega, ?_⟩
  rw [Nat.add_sub_cancel' hle]

theorem exists_customerLedger (env : Env) {a : LegacyAccount} (ha : a ∈ accounts.rows) :
    ∃ id, ⟨id, .customer a.id, a.currency⟩ ∈ customerLedgers env accounts := by
  obtain ⟨i, hi, rfl⟩ := List.getElem_of_mem ha
  refine ⟨env.serial (2 + i), List.mem_map.mpr ⟨(accounts.rows[i], 2 + i), ?_, rfl⟩⟩
  exact List.mk_add_mem_zipIdx_iff_getElem?.mpr (List.getElem?_eq_getElem hi)

theorem unique_ledgerAccounts (hdraws : env.DistinctDraws accounts.rows.length) :
    (settlementLedgers env ++ customerLedgers env accounts).Pairwise
      fun a b => ∀ k ∈ keys a, k ∉ keys b := by
  have hserial : ∀ {i j}, i < j → j < accounts.rows.length + 2 → env.serial i ≠ env.serial j := by
    intro i j hij hj heq
    have := hdraws.serial i (by omega) j hj heq
    omega
  rw [List.pairwise_append]
  refine ⟨?_, ?_, ?_⟩
  · have hne := hserial (i := 0) (j := 1) (by omega) (by omega)
    simp [settlementLedgers, keys, ofOwner, settlementCode, hne]
  · rw [customerLedgers, List.pairwise_map]
    refine (pairwise_zipIdx accounts.unique 2).imp_of_mem ?_
    rintro ⟨a, i⟩ ⟨b, j⟩ ha hb ⟨hkeys, hij⟩
    obtain ⟨_, hj, _⟩ := List.mem_zipIdx hb
    have hne := hserial hij (by omega)
    have hid : a.id ≠ b.id := by simpa [keys] using hkeys
    simp [keys, ofOwner, hne, hid]
  · intro l hl l' hl'
    obtain ⟨a, _, i, hi, rfl⟩ := mem_customerLedgers hl'
    rcases mem_settlementLedgers.mp hl with rfl | rfl
    · have hne := hserial (i := 0) (j := 2 + i) (by omega) (by omega)
      simp [keys, ofOwner, hne]
    · have hne := hserial (i := 1) (j := 2 + i) (by omega) (by omega)
      simp [keys, ofOwner, hne]

section Ledgers

variable {ledgers : Table LedgerAccount}

variable {l : LedgerAccount}

theorem customerAccountID_eq_some {id : Int64} :
    l.customerAccountID = some id ↔ LedgerAccountKey.customerAccountID id ∈ keys l := by
  cases ho : l.owner <;>
    simp [LedgerAccount.customerAccountID, keys, ofOwner, ho, eq_comm]

theorem code_eq_some {code : String} :
    l.code = some code ↔ LedgerAccountKey.code code ∈ keys l := by
  cases ho : l.owner <;> simp [LedgerAccount.code, keys, ofOwner, ho, eq_comm]

variable (hrows : ledgers.rows = settlementLedgers env ++ customerLedgers env accounts)
include hrows

theorem get_customerLedger {a : LegacyAccount} (ha : a ∈ accounts.rows) :
    ∃ id, ledgers.get (.customerAccountID a.id) = some ⟨id, .customer a.id, a.currency⟩ := by
  obtain ⟨id, hid⟩ := exists_customerLedger env ha
  refine ⟨id, Table.get_key (hrows ▸ List.mem_append_right _ hid) ?_⟩
  simp [keys, ofOwner]

theorem get_settlementLedger {currency : String} (hc : currency = "USD" ∨ currency = "EUR") :
    ∃ id, ledgers.get (.code (settlementCode currency)) =
      some ⟨id, .settlement (settlementCode currency), currency⟩ := by
  have hmem : ∃ id, ⟨id, .settlement (settlementCode currency), currency⟩ ∈ settlementLedgers env := by
    rcases hc with rfl | rfl
    · exact ⟨_, mem_settlementLedgers.mpr (Or.inl rfl)⟩
    · exact ⟨_, mem_settlementLedgers.mpr (Or.inr rfl)⟩
  obtain ⟨id, hid⟩ := hmem
  refine ⟨id, Table.get_key (hrows ▸ List.mem_append_left _ hid) ?_⟩
  simp [keys, ofOwner]

end Ledgers

/-! ## The opening transactions -/

theorem mem_accountOpeningTransactions {o : AccountOpeningTransaction}
    (h : o ∈ accountOpeningTransactions env accounts) :
    ∃ a ∈ accounts.rows, 0 < a.balance ∧ ∃ i, o = a.opening env i := by
  obtain ⟨⟨a, i⟩, hmem, rfl⟩ := List.mem_map.mp h
  obtain ⟨ha, hpos⟩ := List.mem_filter.mp (List.fst_mem_of_mem_zipIdx hmem)
  exact ⟨a, ha, of_decide_eq_true hpos, i, rfl⟩

theorem distinct_accountOpeningTransactions (hdraws : env.DistinctDraws accounts.rows.length) :
    (accountOpeningTransactions env accounts).Pairwise
      fun o o' => o.transactionID ≠ o'.transactionID := by
  have hlength : (accounts.rows.filter fun a => 0 < a.balance).length ≤ accounts.rows.length :=
    List.length_filter_le _ _
  rw [accountOpeningTransactions, List.pairwise_map]
  refine (pairwise_zipIdx (accounts.unique.filter _) 0).imp_of_mem ?_
  rintro ⟨a, i⟩ ⟨b, j⟩ _ hb ⟨_, hij⟩ heq
  obtain ⟨_, hj, _⟩ := List.mem_zipIdx hb
  have := hdraws.uuid i (by omega) j (by omega) heq
  omega

theorem groupSum_opening {G : Type} [DecidableEq G] {group : AccountOpeningTransaction → G}
    {ofAccount : LegacyAccount → G} (hgroup : ∀ a i, group (a.opening env i) = ofAccount a)
    (hbalance : ∀ a ∈ accounts.rows, 0 ≤ a.balance) (g : G) :
    groupSum group (·.balance.toInt) (accountOpeningTransactions env accounts) g =
      groupSum ofAccount (·.balance.toInt) accounts.rows g := by
  have hzero : ∀ a ∈ accounts.rows, decide (0 < a.balance) = false → a.balance.toInt = 0 := by
    intro a ha hpos
    have hnonneg := hbalance a ha
    rw [Int64.le_iff_toInt_le, Int64.toInt_zero] at hnonneg
    rw [decide_eq_false_iff_not, Int64.lt_iff_toInt_lt, Int64.toInt_zero] at hpos
    omega
  calc groupSum group (·.balance.toInt) (accountOpeningTransactions env accounts) g
      = groupSum (fun x : LegacyAccount × Nat => ofAccount x.1) (fun x => x.1.balance.toInt)
          (accounts.rows.filter fun a => 0 < a.balance).zipIdx g := by
        rw [accountOpeningTransactions, groupSum_map]
        exact groupSum_congr (fun x _ => by rw [hgroup]) fun _ _ => rfl
    _ = groupSum ofAccount (·.balance.toInt)
          ((accounts.rows.filter fun a => 0 < a.balance).zipIdx.map Prod.fst) g := by
        rw [groupSum_map]
    _ = groupSum ofAccount (·.balance.toInt) (accounts.rows.filter fun a => 0 < a.balance) g := by
        rw [List.zipIdx_map_fst]
    _ = groupSum ofAccount (·.balance.toInt) accounts.rows g := groupSum_filter_of_zero hzero

/-! ## The postings -/

def ledgerFor (ledgers : Table LedgerAccount) (k : LedgerAccountKey) : Int64 :=
  ((ledgers.get k).map LedgerAccount.id).getD 0

theorem ledgerFor_eq (h : ledgers.get k = some l) : ledgerFor ledgers k = l.id := by
  simp [ledgerFor, h]

theorem eq_of_ledgerFor {k' : LedgerAccountKey} {l' : LedgerAccount} (hl : ledgers.get k = some l)
    (hl' : ledgers.get k' = some l') (h : ledgerFor ledgers k = l'.id) : l = l' := by
  rw [ledgerFor_eq hl] at h
  exact Table.pk_injOn (Table.mem_of_get hl) (Table.mem_of_get hl') (congrArg LedgerAccountKey.id h)

namespace AccountOpeningTransaction

def credit (env : Env) (ledgers : Table LedgerAccount) (o : AccountOpeningTransaction) :
    LedgerPosting :=
  ⟨o.transactionID, ledgerFor ledgers (.customerAccountID o.accountID), o.balance, env.now⟩

def debit (env : Env) (ledgers : Table LedgerAccount) (o : AccountOpeningTransaction) :
    LedgerPosting :=
  ⟨o.transactionID, ledgerFor ledgers (.code (settlementCode o.currency)), -o.balance, env.now⟩

structure Backed (ledgers : Table LedgerAccount) (o : AccountOpeningTransaction) : Prop where
  positive : 0 < o.balance.toInt
  customer : ∃ id, ledgers.get (.customerAccountID o.accountID) =
    some ⟨id, .customer o.accountID, o.currency⟩
  settlement : ∃ id, ledgers.get (.code (settlementCode o.currency)) =
    some ⟨id, .settlement (settlementCode o.currency), o.currency⟩

theorem Backed.toInt_neg {ledgers : Table LedgerAccount} {o : AccountOpeningTransaction}
    (h : o.Backed ledgers) : (-o.balance).toInt = -o.balance.toInt := by
  have hpos := h.positive
  exact toInt_neg_of_lt (by omega)

end AccountOpeningTransaction

open AccountOpeningTransaction (credit debit)

section Postings

variable {ledgers : Table LedgerAccount} {opening : List AccountOpeningTransaction}
  (hbacked : ∀ o ∈ opening, o.Backed ledgers)
include hbacked

theorem customerPostings_eq :
    customerPostings env ledgers opening = opening.map (·.credit env ledgers) := by
  rw [customerPostings, ← List.flatMap_pure_eq_map]
  apply List.flatMap_congr
  intro o ho
  obtain ⟨id, hid⟩ := (hbacked o ho).customer
  simp [customerAccountID_eq_some, Table.filter_key, hid, credit,
    ledgerFor_eq hid]

theorem settlementPostings_eq :
    settlementPostings env ledgers opening = .ok (opening.map (·.debit env ledgers)) := by
  have hjoin : (opening.flatMap fun o =>
      (ledgers.rows.filter fun l => l.code = some (settlementCode o.currency)).map
        fun l => (o, l)) =
      opening.flatMap fun o => (ledgers.get (.code (settlementCode o.currency))).toList.map
        fun l => (o, l) := by
    simp only [code_eq_some, Table.filter_key]
  rw [settlementPostings, hjoin, mapM_ok_iff fun _ _ => map_bigint_ok]
  constructor
  · rintro ⟨o, l⟩ hol
    obtain ⟨o', ho', hl⟩ := List.mem_flatMap.mp hol
    obtain ⟨l', _, heq⟩ := List.mem_map.mp hl
    cases heq
    rw [← (hbacked o ho').toInt_neg]
    exact fitsBigint_toInt _
  · rw [List.map_flatMap, ← List.flatMap_pure_eq_map]
    apply List.flatMap_congr
    intro o ho
    obtain ⟨id, hid⟩ := (hbacked o ho).settlement
    simp [hid, debit, ledgerFor_eq hid]

theorem ledgerFor_ne {o o' : AccountOpeningTransaction} (ho : o ∈ opening) (ho' : o' ∈ opening) :
    ledgerFor ledgers (.customerAccountID o.accountID) ≠
      ledgerFor ledgers (.code (settlementCode o'.currency)) := by
  obtain ⟨id, hid⟩ := (hbacked o ho).customer
  obtain ⟨id', hid'⟩ := (hbacked o' ho').settlement
  rw [ledgerFor_eq hid']
  intro heq
  cases eq_of_ledgerFor hid hid' heq

theorem unique_postings (hdistinct : opening.Pairwise fun o o' => o.transactionID ≠ o'.transactionID) :
    (opening.map (·.credit env ledgers) ++ opening.map (·.debit env ledgers)).Pairwise
      fun a b => ∀ k ∈ keys a, k ∉ keys b := by
  rw [List.pairwise_append, List.pairwise_map, List.pairwise_map]
  refine ⟨hdistinct.imp ?_, hdistinct.imp ?_, ?_⟩
  · intro o o' hne
    simp [keys, credit, hne]
  · intro o o' hne
    simp [keys, debit, hne]
  · intro p hp q hq
    obtain ⟨o, ho, rfl⟩ := List.mem_map.mp hp
    obtain ⟨o', ho', rfl⟩ := List.mem_map.mp hq
    simp [keys, credit, debit,
      ledgerFor_ne hbacked ho ho']

theorem openingPostingViolated_eq_none {transactions : Table BankingTransaction}
    (htransactions : transactions.rows = opening.map (·.transaction env)) {p : LedgerPosting}
    (hp : p ∈ opening.map (·.credit env ledgers) ++ opening.map (·.debit env ledgers)) :
    openingPostingViolated ledgers transactions p = none := by
  have htransaction : ∀ o ∈ opening,
      transactions.get (.id o.transactionID) = some (o.transaction env) := by
    intro o ho
    refine Table.get_pk (r := o.transaction env) ?_
    rw [htransactions]
    exact List.mem_map_of_mem ho
  have hid : ∀ {k : LedgerAccountKey} {l : LedgerAccount}, ledgers.get k = some l →
      ledgers.get (.id (ledgerFor ledgers k)) = some l := by
    intro k l hl
    rw [ledgerFor_eq hl]
    exact Table.get_pk (Table.mem_of_get hl)
  rcases List.mem_append.mp hp with hp | hp
  all_goals
    obtain ⟨o, ho, rfl⟩ := List.mem_map.mp hp
    have hpos := (hbacked o ho).positive
    have hneg := (hbacked o ho).toInt_neg
  · obtain ⟨id, hcustomer⟩ := (hbacked o ho).customer
    have hne : o.balance ≠ 0 := by
      intro hzero
      rw [hzero] at hpos
      cases hpos
    simp [openingPostingViolated, credit, htransaction o ho,
      hid hcustomer, hne]
  · obtain ⟨id, hsettlement⟩ := (hbacked o ho).settlement
    have hne : -o.balance ≠ 0 := by
      intro hzero
      rw [hzero, Int64.toInt_zero] at hneg
      omega
    simp only [openingPostingViolated, debit, htransaction o ho,
      hid hsettlement, hne, if_false, Option.isNone_some, Bool.false_eq_true]

end Postings

theorem unique_transactions {opening : List AccountOpeningTransaction}
    (hdistinct : opening.Pairwise fun o o' => o.transactionID ≠ o'.transactionID) :
    (opening.map (·.transaction env)).Pairwise fun a b => ∀ k ∈ keys a, k ∉ keys b := by
  rw [List.pairwise_map]
  refine hdistinct.imp ?_
  intro o o' hne
  have hreference : o.transactionID.hex.map Char.toUpper ≠ o'.transactionID.hex.map Char.toUpper :=
    fun heq => hne (UUID.upperHex_inj heq)
  simp [keys, AccountOpeningTransaction.transaction, hne, String.append_right_inj,
    String.ofList_inj, hreference]

/-! ## The migrated tables -/

theorem backed_opening
    (hrows : ledgers.rows = settlementLedgers env ++ customerLedgers env accounts)
    (hcurrency : ∀ a ∈ accounts.rows, a.currency = "USD" ∨ a.currency = "EUR") :
    ∀ o ∈ accountOpeningTransactions env accounts, o.Backed ledgers := by
  intro o ho
  obtain ⟨a, ha, hpos, i, rfl⟩ := mem_accountOpeningTransactions ho
  refine ⟨?_, get_customerLedger hrows ha, get_settlementLedger hrows (hcurrency a ha)⟩
  rwa [Int64.lt_iff_toInt_lt, Int64.toInt_zero] at hpos

structure LedgerTables.Migrated (s : LedgerTables) (env : Env) (accounts : Table LegacyAccount) :
    Prop where
  ledgerAccounts : s.ledgerAccounts.rows = settlementLedgers env ++ customerLedgers env accounts
  bankingTransactions : s.bankingTransactions.rows =
    (accountOpeningTransactions env accounts).map (·.transaction env)
  ledgerPostings : s.ledgerPostings.rows =
    (accountOpeningTransactions env accounts).map (·.credit env s.ledgerAccounts) ++
      (accountOpeningTransactions env accounts).map (·.debit env s.ledgerAccounts)

theorem doubleEntryLedger_ok (hcurrency : ∀ a ∈ accounts.rows, a.currency = "USD" ∨ a.currency = "EUR")
    (hdraws : env.DistinctDraws accounts.rows.length) :
    ∃ s, doubleEntryLedger env accounts = .ok s ∧ s.Migrated env accounts := by
  have hunique := unique_ledgerAccounts hdraws
  have hdistinct := distinct_accountOpeningTransactions hdraws
  obtain ⟨settlements, hsettlements, hfirst⟩ :
      ∃ t, insertRows LedgerAccountKey.constraint (fun _ => none) ∅ (settlementLedgers env) =
        .ok t ∧ t.rows = settlementLedgers env :=
    exists_insertRows (fun _ _ => rfl) (List.pairwise_append.mp hunique).1
  obtain ⟨ledgers, hledgers, hrows⟩ :
      ∃ t, insertRows LedgerAccountKey.constraint (missingAccount accounts) settlements
        (customerLedgers env accounts) = .ok t ∧
        t.rows = settlementLedgers env ++ customerLedgers env accounts := by
    rw [← hfirst] at hunique ⊢
    refine exists_insertRows ?_ hunique
    intro l hl
    obtain ⟨a, ha, i, _, rfl⟩ := mem_customerLedgers hl
    have hget : accounts.get (.id a.id) = some a := Table.get_pk ha
    simp [missingAccount, LedgerAccount.customerAccountID, hget]
  have hbacked := backed_opening hrows hcurrency
  obtain ⟨transactions, htransactions, htrows⟩ :
      ∃ t, insertRows BankingTransactionKey.constraint openingViolated ∅
        ((accountOpeningTransactions env accounts).map (·.transaction env)) = .ok t ∧
        t.rows = (accountOpeningTransactions env accounts).map (·.transaction env) := by
    refine exists_insertRows ?_ (unique_transactions hdistinct)
    intro t ht
    obtain ⟨o, ho, rfl⟩ := List.mem_map.mp ht
    have hpos : 0 < o.balance := by
      rw [Int64.lt_iff_toInt_lt, Int64.toInt_zero]
      exact (hbacked o ho).positive
    simp [openingViolated, AccountOpeningTransaction.transaction, hpos,
      BankingTransaction.statusTimestamps]
  obtain ⟨postings, hpostings, hprows⟩ :
      ∃ t, insertRows LedgerPostingKey.constraint (openingPostingViolated ledgers transactions) ∅
        ((accountOpeningTransactions env accounts).map (·.credit env ledgers) ++
          (accountOpeningTransactions env accounts).map (·.debit env ledgers)) = .ok t ∧
        t.rows = (accountOpeningTransactions env accounts).map (·.credit env ledgers) ++
          (accountOpeningTransactions env accounts).map (·.debit env ledgers) :=
    exists_insertRows (fun _ hp => openingPostingViolated_eq_none hbacked htrows hp)
      (unique_postings hbacked hdistinct)
  refine ⟨⟨ledgers, transactions, postings⟩, ?_, hrows, htrows, hprows⟩
  simp only [doubleEntryLedger, hsettlements, hledgers, htransactions,
    customerPostings_eq hbacked, settlementPostings_eq hbacked, hpostings, bind, Except.bind, pure,
    Except.pure]

/-! ## The invariants of the ledger -/

theorem filter_eq_singleton {α β : Type} [DecidableEq β] {f : α → β} {l : List α} {a : α}
    (h : l.Pairwise fun a b => f a ≠ f b) (ha : a ∈ l) : l.filter (fun b => f b = f a) = [a] := by
  induction l with
  | nil => cases ha
  | cons b l ih =>
    obtain ⟨hb, hl⟩ := List.pairwise_cons.mp h
    rcases List.mem_cons.mp ha with rfl | ha
    · have hrest : l.filter (fun b => f b = f a) = [] := by
        rw [List.filter_eq_nil_iff]
        intro b hmem hf
        exact hb b hmem (of_decide_eq_true hf).symm
      simp [hrest]
    · rw [List.filter_cons_of_neg (by simpa using hb a ha), ih hl ha]

namespace LedgerTables.Migrated

variable {s : LedgerTables} (h : s.Migrated env accounts)
  (hbalance : ∀ a ∈ accounts.rows, 0 ≤ a.balance)
  (hcurrency : ∀ a ∈ accounts.rows, a.currency = "USD" ∨ a.currency = "EUR")
  (hdraws : env.DistinctDraws accounts.rows.length)
include h

variable {l : LedgerAccount}

include hdraws in
theorem postingsOf_eq (db : DB) {o : AccountOpeningTransaction}
    (ho : o ∈ accountOpeningTransactions env accounts) :
    (s.into db).postingsOf o.transactionID =
      [o.credit env s.ledgerAccounts, o.debit env s.ledgerAccounts] := by
  have hone := filter_eq_singleton (distinct_accountOpeningTransactions hdraws) ho
  rw [Books.postingsOf, into, h.ledgerPostings, List.filter_append, List.filter_map,
    List.filter_map]
  simp only [Function.comp_def, credit, debit,
    hone, List.map_singleton, List.singleton_append]

include hcurrency

theorem ledgerSum_eq (db : DB) (id : Int64) : (s.into db).ledgerSum id =
      groupSum (fun o => ledgerFor s.ledgerAccounts (.customerAccountID o.accountID))
        (·.balance.toInt) (accountOpeningTransactions env accounts) id -
      groupSum (fun o => ledgerFor s.ledgerAccounts (.code (settlementCode o.currency)))
        (·.balance.toInt) (accountOpeningTransactions env accounts) id := by
  have hbacked := backed_opening h.ledgerAccounts hcurrency
  rw [Books.ledgerSum, into, h.ledgerPostings, groupSum_append, groupSum_map, groupSum_map,
    sub_eq_add_neg, ← groupSum_neg]
  exact congrArg _ (groupSum_congr (fun _ _ => Iff.rfl) fun o ho => (hbacked o ho).toInt_neg)

include hbalance in
theorem ledgerSum_customer (db : DB) {a : LegacyAccount} (ha : a ∈ accounts.rows)
    (hl : s.ledgerAccounts.get (.customerAccountID a.id) = some l) :
    (s.into db).ledgerSum l.id = a.balance.toInt := by
  have hbacked := backed_opening h.ledgerAccounts hcurrency
  have hkey := customerAccountID_eq_some.mpr (Table.key_of_get hl)
  have hcredits : ∀ o ∈ accountOpeningTransactions env accounts,
      ledgerFor s.ledgerAccounts (.customerAccountID o.accountID) = l.id ↔ o.accountID = a.id := by
    intro o ho
    obtain ⟨id, hid⟩ := (hbacked o ho).customer
    constructor
    · intro heq
      rw [← eq_of_ledgerFor hid hl heq] at hkey
      exact Option.some.inj hkey
    · intro heq
      rw [heq, ledgerFor_eq hl]
  have hdebits : ∀ o ∈ accountOpeningTransactions env accounts,
      ledgerFor s.ledgerAccounts (.code (settlementCode o.currency)) ≠ l.id := by
    intro o ho heq
    obtain ⟨id, hid⟩ := (hbacked o ho).settlement
    rw [← eq_of_ledgerFor hid hl heq] at hkey
    cases hkey
  have hself : accounts.rows.filter (fun a' => a'.id = a.id) = [a] := by
    have hget : accounts.get (.id a.id) = some a := Table.get_pk ha
    have := accounts.filter_key (.id a.id)
    rw [hget] at this
    simpa [keys, eq_comm] using this
  calc (s.into db).ledgerSum l.id
      = groupSum (·.accountID) (·.balance.toInt) (accountOpeningTransactions env accounts) a.id := by
        rw [h.ledgerSum_eq hcurrency, groupSum_eq_zero hdebits, sub_zero]
        exact groupSum_congr hcredits fun _ _ => rfl
    _ = groupSum (·.id) (·.balance.toInt) accounts.rows a.id :=
        groupSum_opening (fun _ _ => rfl) hbalance a.id
    _ = a.balance.toInt := by simp [groupSum, hself]

include hbalance in
theorem ledgerSum_settlement (db : DB) {currency : String}
    (hl : s.ledgerAccounts.get (.code (settlementCode currency)) = some l) :
    (s.into db).ledgerSum l.id =
      -groupSum (·.currency) (·.balance.toInt) accounts.rows currency := by
  have hbacked := backed_opening h.ledgerAccounts hcurrency
  have hkey := code_eq_some.mpr (Table.key_of_get hl)
  have hdebits : ∀ o ∈ accountOpeningTransactions env accounts,
      ledgerFor s.ledgerAccounts (.code (settlementCode o.currency)) = l.id ↔
        o.currency = currency := by
    intro o ho
    obtain ⟨id, hid⟩ := (hbacked o ho).settlement
    constructor
    · intro heq
      rw [← eq_of_ledgerFor hid hl heq] at hkey
      exact (String.append_right_inj _).mp (Option.some.inj hkey)
    · rintro rfl
      exact ledgerFor_eq hl
  have hcredits : ∀ o ∈ accountOpeningTransactions env accounts,
      ledgerFor s.ledgerAccounts (.customerAccountID o.accountID) ≠ l.id := by
    intro o ho heq
    obtain ⟨id, hid⟩ := (hbacked o ho).customer
    rw [← eq_of_ledgerFor hid hl heq] at hkey
    cases hkey
  have hopening : groupSum (·.currency) (·.balance.toInt)
      (accountOpeningTransactions env accounts) currency =
      groupSum (·.currency) (·.balance.toInt) accounts.rows currency :=
    groupSum_opening (fun _ _ => rfl) hbalance currency
  rw [h.ledgerSum_eq hcurrency, groupSum_eq_zero hcredits, zero_sub, ← hopening]
  exact congrArg _ (groupSum_congr hdebits fun _ _ => rfl)

include hdraws in
theorem balanced (db : DB) {t : BankingTransaction} (ht : t ∈ s.bankingTransactions.rows) :
    t.status = .posted ∧ ((s.into db).postingsOf t.id).length = 2 ∧
      (s.into db).Balanced t ((s.into db).postingsOf t.id) := by
  rw [h.bankingTransactions] at ht
  obtain ⟨o, ho, rfl⟩ := List.mem_map.mp ht
  have hbacked := backed_opening h.ledgerAccounts hcurrency o ho
  have hpos := hbacked.positive
  have hpostings := h.postingsOf_eq hdraws db ho
  have hledger : ∀ {k l}, s.ledgerAccounts.get k = some l →
      s.ledgerAccounts.get (.id (ledgerFor s.ledgerAccounts k)) = some l := by
    intro k l hl
    rw [ledgerFor_eq hl]
    exact Table.get_pk (Table.mem_of_get hl)
  refine ⟨rfl, ?_, ?_⟩
  · exact congrArg List.length hpostings
  · obtain ⟨id, hcustomer⟩ := hbacked.customer
    obtain ⟨id', hsettlement⟩ := hbacked.settlement
    rw [show (o.transaction env).id = o.transactionID from rfl, hpostings]
    refine Books.balanced_pair ?_ ?_ ?_
    · rw [List.forall_mem_cons, List.forall_mem_singleton]
      exact ⟨⟨_, hledger hcustomer, rfl⟩, _, hledger hsettlement, rfl⟩
    · exact Int.natAbs_of_nonneg hpos.le
    · exact (congrArg _ hbacked.toInt_neg).trans (add_neg_cancel _)

include hbalance hdraws in
theorem opened (db : DB) : (s.into db).Opened accounts where
  customer a ha := by
    obtain ⟨id, hid⟩ := get_customerLedger h.ledgerAccounts ha
    simp only [customerAccountID_eq_some]
    exact existsUnique_of_get hid
  balance a ha l hl hkey := by
    obtain ⟨id, hid⟩ := get_customerLedger h.ledgerAccounts ha
    have hget : s.ledgerAccounts.get (.customerAccountID a.id) = some l :=
      Table.get_key hl (customerAccountID_eq_some.mp hkey)
    refine ⟨?_, (h.ledgerSum_customer hbalance hcurrency db ha hget).symm⟩
    rw [hget] at hid
    cases hid
    rfl
  opening t ht := by
    obtain ⟨hstatus, hlength, hbal⟩ := h.balanced hcurrency hdraws db ht
    exact ⟨hstatus, hlength, hbal.total, hbal.volume⟩
  settlement currency hc := by
    obtain ⟨id, hid⟩ := get_settlementLedger h.ledgerAccounts hc
    simp only [code_eq_some]
    exact existsUnique_of_get hid
  lacks currency l hl hkey := by
    have hget : s.ledgerAccounts.get (.code (settlementCode currency)) = some l :=
      Table.get_key hl (code_eq_some.mp hkey)
    refine ⟨?_, h.ledgerSum_settlement hbalance hcurrency db hget⟩
    have hmem : l ∈ settlementLedgers env ++ customerLedgers env accounts := h.ledgerAccounts ▸ hl
    rcases List.mem_append.mp hmem with hmem | hmem
    · rcases mem_settlementLedgers.mp hmem with rfl | rfl
      · exact (String.append_right_inj _).mp (Option.some.inj hkey)
      · exact (String.append_right_inj _).mp (Option.some.inj hkey)
    · obtain ⟨a, _, i, _, rfl⟩ := mem_customerLedgers hmem
      cases hkey

include hdraws in
theorem sound (db : DB) : LedgerSound (s.into db) where
  settled t ht _ := by
    obtain ⟨_, _, hbal⟩ := h.balanced hcurrency hdraws db ht
    exact ⟨hbal.count, hbal.ledger, hbal.total, hbal.volume⟩
  failed t ht hfailed := by
    rw [(h.balanced hcurrency hdraws db ht).1] at hfailed
    cases hfailed

end LedgerTables.Migrated

/-- The migration of any legacy accounts succeeds and opens the books, whatever is in the
tables it does not write. What the triggers enforce holds from the start, and they
accept every opening transaction whose volume is a `bigint`. -/
theorem doubleEntryLedger_opens (env : Env) (accounts : Table LegacyAccount)
    (hbalance : ∀ a ∈ accounts.rows, 0 ≤ a.balance)
    (hcurrency : ∀ a ∈ accounts.rows, a.currency = "USD" ∨ a.currency = "EUR")
    (hdraws : env.DistinctDraws accounts.rows.length) :
    ∃ s, doubleEntryLedger env accounts = .ok s ∧ ∀ db : DB,
      (s.into db).Opened accounts ∧ LedgerSound (s.into db) ∧
      ∀ t ∈ s.bankingTransactions.rows, fitsBigint (t.amount.toInt * 2) →
        validateBankingTransactionBalance (s.into db).toBooks t.id = none := by
  obtain ⟨s, hs, h⟩ := doubleEntryLedger_ok hcurrency hdraws
  refine ⟨s, hs, fun db => ⟨h.opened hbalance hcurrency hdraws db, h.sound hcurrency hdraws db, ?_⟩⟩
  intro t ht hfits
  obtain ⟨hstatus, _, hbal⟩ := h.balanced hcurrency hdraws db ht
  exact Books.validate_of_balanced hbal (Table.get_pk ht) (Or.inl hstatus) hfits

def threeLegacyAccounts : Table LegacyAccount :=
  ⟨[⟨1, "alice", 500, "USD"⟩, ⟨2, "bob", 0, "EUR"⟩, ⟨4, "bob", 70, "USD"⟩], by decide⟩

theorem doubleEntryLedger_opens_three :
    ∃ s, doubleEntryLedger (.drawing 0 1) threeLegacyAccounts = .ok s ∧
      ∀ db : DB, (s.into db).Opened threeLegacyAccounts ∧ LedgerSound (s.into db) ∧
        ∀ t ∈ s.bankingTransactions.rows, fitsBigint (t.amount.toInt * 2) →
          validateBankingTransactionBalance (s.into db).toBooks t.id = none :=
  doubleEntryLedger_opens (.drawing 0 1) threeLegacyAccounts (by decide) (by decide)
    ⟨by decide, by decide⟩

end Migration

end Monierave
