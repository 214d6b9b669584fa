import Monierave.Banking.Balances

/-! # Closed and frozen accounts

A closed account stays closed, with nothing on it and nothing posted to it any more.
-/

namespace Monierave

open Relational Accounting

namespace Books

variable {b b' : Books}

variable {id : Int64} {l : LedgerAccount} {ps : List LedgerPosting}

theorem mem_moves {p : LedgerPosting} (hl : b.ledgerAccounts.get (.customerAccountID id) = some l)
    (hp : p ∈ ps) (hon : p.ledgerAccountID = l.id) : (id, p.amount) ∈ b.moves ps :=
  List.mem_filterMap.mpr ⟨p, hp, by rw [hon, customerOf_eq hl]; rfl⟩

/-- The account is closed, there is nothing on it and `ps` is all that was ever
posted to its ledger account `l`. -/
structure Retired (b : Books) (accountID : Int64) (l : LedgerAccount) (ps : List LedgerPosting) :
    Prop where
  account : ∃ a, b.accounts.get (.id accountID) = some a ∧ a.status = .closed ∧ a.balance = 0
  ledger : b.ledgerAccounts.get (.customerAccountID accountID) = some l
  postings : b.postingsOn l.id = ps

theorem Booking.retired {t : BankingTransaction} {ps₀ : List LedgerPosting}
    (booking : b.Booking t ps b') (h : b.Retired id l ps₀) : b'.Retired id l ps₀ := by
  obtain ⟨a, ha, hclosed, hzero⟩ := h.account
  refine ⟨?_, booking.ledgerAccounts ▸ h.ledger, ?_⟩
  · obtain ⟨a', ha', hrel⟩ := booking.credits.get ha
    have hbalance := hrel.balance
    rw [booking.movedTo_closed (Table.mem_of_get ha) hclosed, hzero] at hbalance
    exact ⟨a', ha', hrel.status.trans hclosed, Int64.toInt_inj.mp (by simpa using hbalance)⟩
  · have hnone : ps.filter (fun p => p.ledgerAccountID = l.id) = [] := by
      rw [List.filter_eq_nil_iff]
      intro p hp hon
      obtain ⟨a', ha', hopen⟩ :=
        booking.notClosed _ (mem_moves h.ledger hp (of_decide_eq_true hon))
      rw [ha] at ha'
      cases ha'
      exact hopen hclosed
    rw [postingsOn, booking.postings, List.filter_append, hnone, List.append_nil]
    exact h.postings

theorem Step.retired (hstep : b.Step b') (h : b.Retired id l ps) : b'.Retired id l ps := by
  cases hstep with
  | quiet => exact h
  | books booking _ => exact booking.retired h
  | opens ho =>
    obtain ⟨a, ha, hclosed⟩ := h.account
    exact ⟨⟨a, Table.get_insert_of_get ho.fresh ha, hclosed⟩,
      Table.get_insert_of_get ho.ledgerFresh h.ledger, h.postings⟩
  | restates hr =>
    obtain ⟨a, ha, hclosed, hzero⟩ := h.account
    obtain ⟨a', ha', hrel⟩ := hr.pointwise.get (fun _ _ hrel => hrel.keys) ha
    exact ⟨⟨a', ha', hrel.stays hclosed, hrel.balance.trans hzero⟩, h.ledger, h.postings⟩

theorem Step.debit_reversal (hstep : b.Step b') {a : Account}
    (ha : b.accounts.get (.id id) = some a) (hinactive : a.status ≠ .active)
    (hl : b.ledgerAccounts.get (.customerAccountID id) = some l) :
    ∃ ps, b'.ledgerPostings.rows = b.ledgerPostings.rows ++ ps ∧
      ∀ p ∈ ps, p.ledgerAccountID = l.id → p.amount < 0 →
        ∃ t, b'.bankingTransactions.get (.id p.transactionID) = some t ∧
          t.transactionType = .reversal := by
  cases hstep with
  | quiet => exact ⟨[], by simp, by simp⟩
  | opens _ => exact ⟨[], by simp, by simp⟩
  | restates _ => exact ⟨[], by simp, by simp⟩
  | books booking kind =>
    rename_i t ps
    refine ⟨ps, booking.postings, fun p hp hon hneg => ?_⟩
    have hactive : ¬ b.DebitsActive ps := by
      intro hdebits
      obtain ⟨a', ha', hactive⟩ := hdebits _ (mem_moves hl hp hon) hneg
      rw [ha] at ha'
      cases ha'
      exact hinactive hactive
    refine ⟨t, ?_, ?_⟩
    · rw [booking.belongs p hp]
      exact Table.get_pk (kind.mem_self booking.fresh)
    · cases kind with
      | settlement hk => exact absurd hk.debits hactive
      | transfer hk => exact absurd hk.debits hactive
      | reversal hk => exact hk.kind

end Books

/-- An account that is closed in a committed state is closed in every later one,
with nothing on it and the same postings on its ledger account; and what a step
of the run takes from the ledger account of a frozen account belongs to a
reversal. -/
theorem bankingRun_lifecycle (users : Table User) (acts : List BankingAction) :
    let b := (bankingRun users acts).db.toBooks
    ∀ a ∈ b.accounts.rows, ∃ l, b.ledgerAccounts.get (.customerAccountID a.id) = some l ∧
      (a.status = .closed → ∀ more,
        let b' := (bankingRun users (acts ++ more)).db.toBooks
        (∃ a', b'.accounts.get (.id a.id) = some a' ∧ a'.status = .closed ∧ a'.balance = 0) ∧
        b'.ledgerAccounts.get (.customerAccountID a.id) = some l ∧
        b'.postingsOn l.id = b.postingsOn l.id) ∧
      (a.status = .frozen → ∀ act,
        let b' := (bankingRun users (acts ++ [act])).db.toBooks
        ∃ ps, b'.ledgerPostings.rows = b.ledgerPostings.rows ++ ps ∧
          ∀ p ∈ ps, p.ledgerAccountID = l.id → p.amount < 0 →
            ∃ t, b'.bankingTransactions.get (.id p.transactionID) = some t ∧
              t.transactionType = .reversal) := by
  intro b a ha
  obtain ⟨l, hl, _⟩ := (bankingRun_owned users acts).ledger a ha
  have hself : b.accounts.get (.id a.id) = some a := Table.get_pk ha
  refine ⟨l, hl, ?_, ?_⟩
  · intro hclosed more b'
    have hzero := (bankingRun_reconciled users acts).closed a ha hclosed
    have hretired : b.Retired a.id l (b.postingsOn l.id) :=
      ⟨⟨a, hself, hclosed, hzero⟩, hl, rfl⟩
    have hlater := bankingRun_later (P := fun b => b.Retired a.id l _) hretired
      (fun _ _ _ h hstep => hstep.retired h) more
    exact ⟨hlater.account, hlater.ledger, hlater.postings⟩
  · intro hfrozen act
    refine (bankingRun_step users acts act).debit_reversal hself ?_ hl
    rw [hfrozen]
    decide

end Monierave
