import Monierave.Banking.Conservation

/-! # Reversals

A transaction is reversed exactly if there is a reversal that refers to it, and
then the two cancel on every ledger account.
-/

namespace Monierave

open Relational Accounting

theorem toInt_neg_of_bounded {x : Int64} (h : ((-x).toInt.natAbs : Int) < 2 ^ 63) :
    (-x).toInt = -x.toInt := by
  apply toInt_neg_of_lt
  refine lt_of_le_of_ne x.le_toInt fun hmin => ?_
  have hx : x = Int64.minValue := Int64.toInt_inj.mp (hmin.symm.trans (by decide))
  subst hx
  revert h
  decide

namespace Books

variable {b b' : Books}

def entriesOf (b : Books) (id : UUID) : List (Int64 × Int) :=
  (b.postingsOf id).map fun p => (p.ledgerAccountID, p.amount.toInt)

def oppositeEntriesOf (b : Books) (id : UUID) : List (Int64 × Int) :=
  (b.postingsOf id).map fun p => (p.ledgerAccountID, -p.amount.toInt)

/-- `r` is the reversal of `t`, which is marked as reversed. -/
structure Undoes (b : Books) (r t : BankingTransaction) : Prop where
  kind : r.transactionType = .reversal
  reversed : t.status = .reversed
  notReversal : t.transactionType ≠ .reversal
  currency : r.currency = t.currency
  amount : r.amount = t.amount
  entries : b.entriesOf r.id = b.oppositeEntriesOf t.id

structure Paired (b : Books) : Prop where
  reversed : ∀ t ∈ b.bankingTransactions.rows, t.status = .reversed →
    ∃ r ∈ b.bankingTransactions.rows, r.reversalOf = some t.id
  reversal : ∀ r ∈ b.bankingTransactions.rows, ∀ id, r.reversalOf = some id →
    ∃ t, b.bankingTransactions.get (.id id) = some t ∧ b.Undoes r t

theorem Reverses.undoes {r original : BankingTransaction} {ps : List LedgerPosting} {time : Timestamp}
    (h : b.Reverses r original ps b') (booking : b.Booking r ps b') (hwf : b.WellFormed)
    (hpostings : b'.postingsOf original.id = b.postingsOf original.id) :
    b'.Undoes r (original.asReversed time) where
  kind := h.kind
  reversed := rfl
  notReversal := h.notReversal
  currency := h.currency
  amount := h.amount
  entries := by
    have hid : (original.asReversed time).id = original.id := rfl
    rw [entriesOf, oppositeEntriesOf, hid, booking.postingsOf_self hwf, hpostings, h.postings,
      List.map_map]
    apply List.map_congr_left
    intro p hp
    have hbounded := booking.bounded (p.undo r) (h.postings ▸ List.mem_map_of_mem hp)
    simp only [Function.comp_apply, LedgerPosting.undo, Prod.mk.injEq, true_and]
    exact toInt_neg_of_bounded hbounded

theorem Step.reversalOf (hstep : b.Step b') {r : BankingTransaction}
    (hr : r ∈ b.bankingTransactions.rows) :
    ∃ r' ∈ b'.bankingTransactions.rows, r'.reversalOf = r.reversalOf := by
  rcases hstep.bankingTransaction (Table.get_pk hr) with hr' | ⟨_, time, hr'⟩
  · exact ⟨r, Table.mem_of_get hr', rfl⟩
  · exact ⟨r.asReversed time, Table.mem_of_get hr', rfl⟩

theorem Undoes.of_step {r t : BankingTransaction} (h : b.Undoes r t) (hstep : b.Step b')
    (hr : r ∈ b.bankingTransactions.rows) (ht : t ∈ b.bankingTransactions.rows) :
    b'.Undoes r t where
  kind := h.kind
  reversed := h.reversed
  notReversal := h.notReversal
  currency := h.currency
  amount := h.amount
  entries := by
    have hentries := h.entries
    rw [entriesOf, oppositeEntriesOf] at hentries ⊢
    rwa [hstep.postingsOf_eq hr, hstep.postingsOf_eq ht]

theorem Step.paired (hstep : b.Step b') (hwf : b.WellFormed) (h : b.Paired) : b'.Paired := by
  -- a pair that was there stays, since a reversed transaction never changes again
  have hold : ∀ r ∈ b.bankingTransactions.rows, ∀ id, r.reversalOf = some id →
      ∃ t, b'.bankingTransactions.get (.id id) = some t ∧ b'.Undoes r t := by
    intro r hr id href
    obtain ⟨t, ht, hundoes⟩ := h.reversal r hr id href
    refine ⟨t, ?_, hundoes.of_step hstep hr (Table.mem_of_get ht)⟩
    rcases hstep.bankingTransaction ht with ht' | ⟨hposted, _⟩
    · exact ht'
    · rw [hundoes.reversed] at hposted
      cases hposted
  refine ⟨?_, ?_⟩
  · intro t ht hreversed
    rcases hstep.mem_bankingTransactions ht with
      ho | ⟨o, ho, time, r, ps, rfl, booking, hk⟩ | ⟨ps, booking, kind⟩
    · obtain ⟨r, hr, href⟩ := h.reversed t ho hreversed
      obtain ⟨r', hr', heq⟩ := hstep.reversalOf hr
      exact ⟨r', hr', heq.trans href⟩
    · exact ⟨r, (Kind.reversal hk).mem_self booking.fresh, hk.reversalOf⟩
    · rw [booking.posted] at hreversed
      cases hreversed
  · intro r hr id href
    rcases hstep.mem_bankingTransactions hr with
      ho | ⟨o, ho, time, _, _, rfl, _⟩ | ⟨ps, booking, kind⟩
    · exact hold r ho id href
    · obtain ⟨t, ht, hundoes⟩ := hold o ho id href
      exact ⟨t, ht, { hundoes with }⟩
    · cases kind with
      | settlement hk =>
        rw [hk.noOriginal] at href
        cases href
      | transfer hk =>
        rw [hk.noOriginal] at href
        cases href
      | reversal hk =>
        rename_i original
        rw [hk.reversalOf] at href
        cases href
        obtain ⟨time, hget⟩ := hk.get booking.fresh
        refine ⟨original.asReversed time, ?_, hk.undoes booking hwf
          (hstep.postingsOf_eq (Table.mem_of_get hk.row))⟩
        exact (hget _).trans (if_pos (Keyed.pk_mem original))

theorem eq_of_reversalOf {r r' : BankingTransaction} {id : UUID}
    (hr : r ∈ b.bankingTransactions.rows) (hr' : r' ∈ b.bankingTransactions.rows)
    (href : r.reversalOf = some id) (href' : r'.reversalOf = some id) : r' = r := by
  have hkey : BankingTransactionKey.reversalOf id ∈ keys r := by simp [keys, href]
  have hkey' : BankingTransactionKey.reversalOf id ∈ keys r' := by simp [keys, href']
  exact Table.eq_of_shared hr' hr hkey' hkey

theorem Paired.undoes (h : b.Paired) {r t : BankingTransaction}
    (hr : r ∈ b.bankingTransactions.rows) (ht : t ∈ b.bankingTransactions.rows)
    (href : r.reversalOf = some t.id) : b.Undoes r t := by
  obtain ⟨t', ht', hundoes⟩ := h.reversal r hr t.id href
  have hself : b.bankingTransactions.get (.id t.id) = some t := Table.get_pk ht
  rw [hself] at ht'
  cases ht'
  exact hundoes

theorem paired_initial (users : Table User) : (DB.initial users).Paired where
  reversed t ht := by cases ht
  reversal r hr := by cases hr

end Books

theorem bankingRun_paired (users : Table User) (acts : List BankingAction) :
    (bankingRun users acts).db.Paired :=
  bankingRun_invariant users (Books.paired_initial users)
    (fun _ _ hwf h hstep => hstep.paired hwf h) acts

/-- In every committed state a transaction is reversed exactly if one reversal
refers to it; that reversal is of the same amount and currency and its postings
are those of the transaction with the sign changed, so that the two cancel on
every ledger account; and no reversal is reversed. -/
theorem bankingRun_reversals (users : Table User) (acts : List BankingAction) :
    let b := (bankingRun users acts).db.toBooks
    (∀ t ∈ b.bankingTransactions.rows, t.status = .reversed ↔
      ∃! r, r ∈ b.bankingTransactions.rows ∧ r.transactionType = .reversal ∧
        r.reversalOf = some t.id) ∧
    (∀ t ∈ b.bankingTransactions.rows, ∀ r ∈ b.bankingTransactions.rows,
      r.reversalOf = some t.id →
        r.transactionType = .reversal ∧ r.currency = t.currency ∧ r.amount = t.amount ∧
        (b.postingsOf r.id).map (fun p => (p.ledgerAccountID, p.amount.toInt)) =
          (b.postingsOf t.id).map (fun p => (p.ledgerAccountID, -p.amount.toInt)) ∧
        ∀ ledgerAccountID,
          groupSum (·.ledgerAccountID) (·.amount.toInt) (b.postingsOf r.id) ledgerAccountID +
            groupSum (·.ledgerAccountID) (·.amount.toInt) (b.postingsOf t.id) ledgerAccountID = 0) ∧
    ∀ r ∈ b.bankingTransactions.rows, r.transactionType = .reversal → r.status ≠ .reversed := by
  intro b
  have h : b.Paired := bankingRun_paired users acts
  refine ⟨?_, ?_, ?_⟩
  · intro t ht
    constructor
    · intro hreversed
      obtain ⟨r, hr, href⟩ := h.reversed t ht hreversed
      refine ⟨r, ⟨hr, (h.undoes hr ht href).kind, href⟩, ?_⟩
      rintro r' ⟨hr', _, href'⟩
      exact Books.eq_of_reversalOf hr hr' href href'
    · rintro ⟨r, ⟨hr, _, href⟩, _⟩
      exact (h.undoes hr ht href).reversed
  · intro t ht r hr href
    have hundoes := h.undoes hr ht href
    exact ⟨hundoes.kind, hundoes.currency, hundoes.amount, hundoes.entries,
      fun _ => groupSum_add_opposite hundoes.entries⟩
  · intro r hr hkind hreversed
    obtain ⟨r', hr', href⟩ := h.reversed r hr hreversed
    exact (h.undoes hr' hr href).notReversal hkind

end Monierave
