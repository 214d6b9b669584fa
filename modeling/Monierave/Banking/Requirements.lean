import Mathlib.Algebra.Order.Group.Int
import Monierave.Banking.Books

/-! # What a transfer requires

The conditions on the tables and the request under which money may be sent from one
customer to another, said about accounts and transactions.
-/

namespace Monierave

open Relational Accounting

def singleLimit (currency : String) : Int :=
  match transferLimits currency with
  | .ok (limit, _) => limit.toInt
  | .error _ => 0

def dailyLimit (currency : String) : Int :=
  match transferLimits currency with
  | .ok (_, limit) => limit.toInt
  | .error _ => 0

section Limits

variable {currency : String} {perTransferLimit limit : Int64}

theorem singleLimit_of_ok (h : transferLimits currency = .ok (perTransferLimit, limit)) :
    singleLimit currency = perTransferLimit.toInt := by
  rw [singleLimit, h]

theorem dailyLimit_of_ok (h : transferLimits currency = .ok (perTransferLimit, limit)) :
    dailyLimit currency = limit.toInt := by
  rw [dailyLimit, h]

theorem dailyLimit_nonneg (currency : String) : 0 ≤ dailyLimit currency := by
  unfold dailyLimit transferLimits
  split_ifs <;> decide

theorem transferLimits_ok (h : transferLimits currency = .ok (perTransferLimit, limit)) :
    perTransferLimit.toInt = 1000000 ∧ limit.toInt = 2500000 := by
  unfold transferLimits at h
  split_ifs at h <;> cases h <;> decide

theorem exists_transferLimits :
    (∃ perTransferLimit limit, transferLimits currency = .ok (perTransferLimit, limit)) ↔
      currency = "USD" ∨ currency = "EUR" := by
  unfold transferLimits
  split_ifs <;> simp [*]

end Limits

namespace Books

variable {b : Books}

def takesFrom (b : Books) (accountID : Int64) (t : BankingTransaction) : Bool :=
  (b.postingsOf t.id).any fun p =>
    b.customerOf p.ledgerAccountID = some accountID ∧ p.amount < 0

/-- The transfers sent from a customer account since a point in time, those that
were reversed since among them. -/
def sentSince (b : Books) (accountID : Int64) (since : Timestamp) : Int :=
  (b.bankingTransactions.rows.map fun t =>
    if t.transactionType = .internalTransfer ∧ (t.status = .posted ∨ t.status = .reversed) ∧
        since ≤ t.createdAt ∧ b.takesFrom accountID t then
      t.amount.toInt
    else 0).sum

theorem filter_postingsOn (b : Books) (ledgerAccountID : Int64) (transactionID : UUID) :
    (b.postingsOn ledgerAccountID).filter (fun p => p.transactionID = transactionID) =
      (b.ledgerPostings.get (.transactionAccount transactionID ledgerAccountID)).toList := by
  rw [← Table.filter_key, postingsOn, List.filter_filter]
  apply List.filter_congr
  intro p _
  simp [keys, eq_comm]

theorem takesFrom_eq {accountID : Int64} {l : LedgerAccount}
    (hl : b.ledgerAccounts.get (.customerAccountID accountID) = some l) (t : BankingTransaction) :
    b.takesFrom accountID t =
      (b.ledgerPostings.get (.transactionAccount t.id l.id)).toList.any fun p => p.amount < 0 := by
  rw [takesFrom, ← filter_postingsOn, postingsOf, postingsOn,
    List.filter_filter, List.any_filter, List.any_filter]
  congr 1
  funext p
  simp only [customerOf_eq_some_iff hl]
  by_cases ht : p.transactionID = t.id <;> by_cases hp : p.ledgerAccountID = l.id <;> simp [ht, hp]

theorem outgoingTransferTotal_eq (hwf : b.WellFormed) {accountID : Int64} {l : LedgerAccount}
    (hl : b.ledgerAccounts.get (.customerAccountID accountID) = some l) (since : Timestamp) :
    b.outgoingTransferTotal l.id since = b.sentSince accountID since := by
  have hids : (b.bankingTransactions.rows.map (·.id)).Nodup := by
    rw [List.nodup_map_iff_inj_on b.bankingTransactions.nodup]
    intro t ht t' ht' hid
    exact Table.pk_injOn ht ht' (congrArg BankingTransactionKey.id hid)
  have hmem : ∀ p ∈ b.postingsOn l.id,
      p.transactionID ∈ b.bankingTransactions.rows.map (·.id) := by
    intro p hp
    obtain ⟨t, ht⟩ := hwf.transaction p (List.mem_of_mem_filter hp)
    have hid : t.id = p.transactionID := by simpa [keys, eq_comm] using Table.key_of_get ht
    exact List.mem_map.mpr ⟨t, Table.mem_of_get ht, hid⟩
  rw [outgoingTransferTotal, ← sum_groupSum hids hmem, List.map_map, sentSince]
  congr 1
  apply List.map_congr_left
  intro t ht
  -- at most one posting of the transaction is on the ledger account
  rw [Function.comp_apply, groupSum, filter_postingsOn, takesFrom_eq hl]
  cases hp : b.ledgerPostings.get (.transactionAccount t.id l.id) with
  | none => simp
  | some p =>
    have hid : p.transactionID = t.id := by
      have hkey := Table.key_of_get hp
      simp only [keys, List.mem_singleton, LedgerPostingKey.transactionAccount.injEq] at hkey
      exact hkey.1.symm
    have hget : b.bankingTransactions.get (.id p.transactionID) = some t := by
      rw [hid]
      exact Table.get_pk ht
    simp only [Option.toList_some, List.map_singleton, List.sum_singleton, outgoing, hget,
      List.any_cons, List.any_nil, Bool.or_false, decide_eq_true_eq]
    congr 1
    simp only [eq_iff_iff]
    tauto

end Books

/-- The transfer asked for may be made at the time `now`, from the account `source` to
the account `destination`. -/
structure TransferTxParams.Allowed (arg : TransferTxParams) (db : DB) (now : Timestamp)
    (source destination : Account) : Prop where
  sourceRow : db.accountByPublicID arg.fromAccountPublicID = some source
  owned : source.owner = arg.username
  active : source.status = .active
  destinationRow : db.accounts.get (.accountNumber arg.toAccountNumber) = some destination
  different : source.id ≠ destination.id
  notClosed : destination.status ≠ .closed
  sourceCurrency : source.currency = arg.currency
  destinationCurrency : destination.currency = arg.currency
  currency : arg.currency = "USD" ∨ arg.currency = "EUR"
  positive : 0 < arg.amount
  single : arg.amount.toInt ≤ singleLimit arg.currency
  daily : db.sentSince source.id (startOfDay now) + arg.amount.toInt ≤ dailyLimit arg.currency
  funds : arg.amount ≤ source.balance
  fits : destination.balance.toInt + arg.amount.toInt < 2 ^ 63

end Monierave
