import Monierave.Banking.Serial

/-! # Transfer limits

The check of a transfer counts the transfers committed so far that started since the
beginning of the day on which it started itself.
-/

namespace Monierave

open Relational Accounting

theorem startOfDay_le (t : Timestamp) : startOfDay t ≤ t := by
  have hnonneg : 0 ≤ t % microsPerDay := Int.emod_nonneg t (by decide)
  exact Int.sub_le_self t hnonneg

namespace Books

variable {b b' : Books}

def debits (b : Books) (ledgerAccountID : Int64) (t : BankingTransaction) : Bool :=
  (b.postingsOf t.id).any fun p => p.ledgerAccountID = ledgerAccountID ∧ p.amount < 0

/-- What a transaction adds to the transfers sent from a ledger account on the
day that starts at `day`. -/
def sentOn (b : Books) (ledgerAccountID : Int64) (day : Timestamp) (t : BankingTransaction) : Int :=
  if t.transactionType = .internalTransfer ∧ b.debits ledgerAccountID t ∧
      startOfDay t.createdAt = day then
    t.amount.toInt
  else 0

/-- The transfers sent from a ledger account that started on the day that starts
at `day`. -/
def sentDaily (b : Books) (ledgerAccountID : Int64) (day : Timestamp) : Int :=
  (b.bankingTransactions.rows.map (b.sentOn ledgerAccountID day)).sum

/-- The transfers of a day are counted by the query for the daily total and stay
within the limits. -/
structure Limited (b : Books) : Prop where
  counted : ∀ ledgerAccountID day,
    b.sentDaily ledgerAccountID day ≤ b.outgoingTransferTotal ledgerAccountID day
  daily : ∀ l ∈ b.ledgerAccounts.rows, ∀ day, b.sentDaily l.id day ≤ dailyLimit l.currency
  single : ∀ t ∈ b.bankingTransactions.rows, t.transactionType = .internalTransfer →
    ∃ perTransferLimit limit, transferLimits t.currency = .ok (perTransferLimit, limit) ∧
      t.amount ≤ perTransferLimit

section Booking

variable {t : BankingTransaction} {ps : List LedgerPosting} (booking : b.Booking t ps b')
  (kind : b.Kind t ps b')

include booking kind

theorem Kind.sentDaily_eq (ledgerAccountID : Int64) (day : Timestamp) :
    b'.sentDaily ledgerAccountID day =
      b.sentDaily ledgerAccountID day + b'.sentOn ledgerAccountID day t := by
  have hold : b.bankingTransactions.rows.map (b'.sentOn ledgerAccountID day) =
      b.bankingTransactions.rows.map (b.sentOn ledgerAccountID day) := by
    apply List.map_congr_left
    intro o ho
    rw [sentOn, sentOn, debits, debits, (Step.books booking kind).postingsOf_eq ho]
  rw [sentDaily, kind.sum_rows booking.fresh fun _ _ => rfl, hold, sentDaily]

theorem Kind.sentOn_cases (hwf : b.WellFormed) (ledgerAccountID : Int64) (day : Timestamp) :
    b'.sentOn ledgerAccountID day t = 0 ∨
      ∃ sender recipient, b.Transfers t sender recipient ps b' ∧ sender.id = ledgerAccountID ∧
        startOfDay t.createdAt = day ∧ b'.sentOn ledgerAccountID day t = t.amount.toInt := by
  unfold sentOn
  split_ifs with hcounts
  · right
    obtain ⟨htype, hdebits, hday⟩ := hcounts
    cases kind with
    | settlement h => rcases h.kind with h | h <;> rw [h] at htype <;> cases htype
    | reversal h =>
      rw [h.kind] at htype
      cases htype
    | transfer h =>
      rename_i sender recipient
      refine ⟨sender, recipient, h, ?_, hday, rfl⟩
      rw [debits, booking.postingsOf_self hwf, h.postings] at hdebits
      have hpos : ¬ t.amount < 0 := Int64.not_lt.mpr (Int64.le_of_lt booking.positive)
      simp only [PostingParams.posting, List.any_cons, List.any_nil, hpos, and_false,
        decide_false, Bool.or_false, decide_eq_true_eq] at hdebits
      exact hdebits.1
  · exact Or.inl rfl

theorem Kind.outgoingTransferTotal_eq (hwf : b.WellFormed) (ledgerAccountID : Int64)
    (since : Timestamp) :
    b'.outgoingTransferTotal ledgerAccountID since =
      b.outgoingTransferTotal ledgerAccountID since +
        groupSum (·.ledgerAccountID) (b'.outgoing since) ps ledgerAccountID := by
  have hold : (b.postingsOn ledgerAccountID).map (b'.outgoing since) =
      (b.postingsOn ledgerAccountID).map (b.outgoing since) := by
    apply List.map_congr_left
    intro p hp
    exact (Step.books booking kind).outgoing_eq hwf (List.mem_of_mem_filter hp) since
  rw [outgoingTransferTotal, postingsOn, booking.postings, List.filter_append, List.map_append,
    List.sum_append]
  exact congrArg (· + _) (congrArg List.sum hold)

theorem Kind.outgoing_eq (since : Timestamp) {p : LedgerPosting} (hp : p ∈ ps) :
    b'.outgoing since p = if p.amount < 0 ∧ t.transactionType = .internalTransfer ∧
      since ≤ t.createdAt then t.amount.toInt else 0 := by
  have hself : b'.bankingTransactions.get (.id t.id) = some t :=
    Table.get_pk (kind.mem_self booking.fresh)
  simp only [outgoing, booking.belongs p hp, hself, booking.posted, true_or, true_and]

theorem Kind.sentOn_le (hwf : b.WellFormed) (ledgerAccountID : Int64) (day : Timestamp) :
    b'.sentOn ledgerAccountID day t ≤
      groupSum (·.ledgerAccountID) (b'.outgoing day) ps ledgerAccountID := by
  have hpos : 0 < t.amount.toInt := by simpa using Int64.lt_iff_toInt_lt.mp booking.positive
  have hnonneg : ∀ p ∈ ps, 0 ≤ b'.outgoing day p := by
    intro p hp
    rw [kind.outgoing_eq booking day hp]
    split_ifs <;> omega
  rcases kind.sentOn_cases booking hwf ledgerAccountID day with hzero |
    ⟨sender, recipient, h, rfl, rfl, hsent⟩
  · rw [hzero]
    exact groupSum_nonneg hnonneg
  · have hdebit : -t.amount < 0 := by
      rw [Int64.lt_iff_toInt_lt, toInt_neg_of_lt (by omega)]
      simpa using hpos
    have hcount := kind.outgoing_eq booking (startOfDay t.createdAt)
      (p := PostingParams.posting t ⟨sender.id, -t.amount⟩) (by simp [h.postings])
    rw [if_pos ⟨hdebit, h.kind, startOfDay_le _⟩] at hcount
    rw [h.postings, List.forall_mem_cons] at hnonneg
    calc b'.sentOn sender.id (startOfDay t.createdAt) t
        = b'.outgoing (startOfDay t.createdAt) (PostingParams.posting t ⟨sender.id, -t.amount⟩) :=
          hsent.trans hcount.symm
      _ ≤ groupSum (·.ledgerAccountID) (b'.outgoing (startOfDay t.createdAt)) ps sender.id := by
          rw [h.postings, groupSum_cons]
          exact le_add_of_le_of_nonneg (Int.le_of_eq (if_pos rfl).symm)
            (groupSum_nonneg hnonneg.2)

end Booking

theorem WellFormed.outgoingTransferTotal_eq_zero (hwf : b.WellFormed) {id : Int64}
    (hid : b.ledgerAccounts.get (.id id) = none) (since : Timestamp) :
    b.outgoingTransferTotal id since = 0 := by
  rw [outgoingTransferTotal, hwf.postingsOn_eq_nil hid]
  rfl

theorem Step.limited (hstep : b.Step b') (hwf : b.WellFormed) (h : b.Limited) : b'.Limited := by
  cases hstep with
  | quiet => exact h
  | restates _ => exact ⟨h.counted, h.daily, h.single⟩
  | opens ho =>
    rename_i a l
    refine ⟨h.counted, ?_, h.single⟩
    intro l₀ hl₀ day
    rw [Table.insert_rows ho.ledgerFresh, List.mem_append, List.mem_singleton] at hl₀
    rcases hl₀ with hl₀ | rfl
    · exact h.daily l₀ hl₀ day
    · calc b.sentDaily l₀.id day ≤ b.outgoingTransferTotal l₀.id day := h.counted _ _
        _ = 0 := hwf.outgoingTransferTotal_eq_zero
            (Table.conflict_eq_none.mp ho.ledgerFresh _ (Keyed.pk_mem l₀)) day
        _ ≤ dailyLimit l₀.currency := dailyLimit_nonneg _
  | books booking kind =>
    rename_i t ps
    refine ⟨?_, ?_, ?_⟩
    · intro id day
      rw [kind.sentDaily_eq booking, kind.outgoingTransferTotal_eq booking hwf]
      exact add_le_add (h.counted id day) (kind.sentOn_le booking hwf id day)
    · intro l hl day
      rw [booking.ledgerAccounts] at hl
      rw [kind.sentDaily_eq booking]
      rcases kind.sentOn_cases booking hwf l.id day with hzero |
        ⟨sender, recipient, hk, hid, rfl, hsent⟩
      · rw [hzero, add_zero]
        exact h.daily l hl day
      · obtain ⟨_, limit, hlimits, _, hdaily⟩ := hk.limits
        have hcurrency : l.currency = t.currency := by
          obtain ⟨l', hl', hcurrency⟩ := booking.ledger
            (PostingParams.posting t ⟨sender.id, -t.amount⟩) (by simp [hk.postings])
          have hself : b.ledgerAccounts.get (.id l.id) = some l := Table.get_pk hl
          simp only [PostingParams.posting, hid, hself, Option.some.injEq] at hl'
          rw [hl', hcurrency]
        have hcounted := h.counted l.id (startOfDay t.createdAt)
        rw [hsent, hcurrency, dailyLimit_of_ok hlimits]
        rw [hid] at hdaily
        omega
    · intro t' ht' htype
      rcases (Step.books booking kind).mem_bankingTransactions ht' with
        ho | ⟨o, ho, time, _, _, rfl, _⟩ | ⟨ps', _, kind'⟩
      · exact h.single t' ho htype
      · exact h.single o ho htype
      · cases kind' with
        | settlement hk => rcases hk.kind with hk | hk <;> rw [hk] at htype <;> cases htype
        | reversal hk =>
          rw [hk.kind] at htype
          cases htype
        | transfer hk =>
          obtain ⟨perTransferLimit, limit, hlimits, hsingle, _⟩ := hk.limits
          exact ⟨perTransferLimit, limit, hlimits, hsingle⟩

theorem limited_initial (users : Table User) : (DB.initial users).Limited where
  counted _ _ := Int.le_refl 0
  daily l _ _ := dailyLimit_nonneg l.currency
  single t ht := by cases ht

end Books

/-- In every committed state the transfers sent from a ledger account that
started on one day stay within the daily limit of its currency, and every
transfer is within the limit for a single one. -/
theorem bankingRun_limits (users : Table User) (acts : List BankingAction) :
    let b := (bankingRun users acts).db.toBooks
    (∀ l ∈ b.ledgerAccounts.rows, ∀ day, b.sentDaily l.id day ≤ dailyLimit l.currency) ∧
    ∀ t ∈ b.bankingTransactions.rows, t.transactionType = .internalTransfer →
      ∃ perTransferLimit limit, transferLimits t.currency = .ok (perTransferLimit, limit) ∧
        t.amount ≤ perTransferLimit := by
  intro b
  have h : b.Limited := bankingRun_invariant users (Books.limited_initial users)
    (fun _ _ hwf h hstep => hstep.limited hwf h) acts
  exact ⟨h.daily, h.single⟩

end Monierave
