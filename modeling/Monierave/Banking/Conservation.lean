import Monierave.Banking.Balances

/-! # Conservation of money

Every banking transaction balances, so in each currency what the customers have
is what the settlement account lacks, and only movements through the settlement
account change it.
-/

namespace Monierave

open Relational Accounting

namespace Books

variable {b b' : Books}

/-- Every transaction is posted or reversed and its postings balance; those of a
transfer are all on customers' ledger accounts. -/
structure Settled (b : Books) : Prop where
  status : ∀ t ∈ b.bankingTransactions.rows, t.status = .posted ∨ t.status = .reversed
  balanced : ∀ t ∈ b.bankingTransactions.rows, b.Balanced t (b.postingsOf t.id)
  customers : ∀ t ∈ b.bankingTransactions.rows, t.transactionType = .internalTransfer →
    ∀ p ∈ b.postingsOf t.id, (b.customerOf p.ledgerAccountID).isSome

variable {t : BankingTransaction} {ps : List LedgerPosting}

theorem Balanced.of_step {t' : BankingTransaction} (h : b.Balanced t ps) (hstep : b.Step b')
    (hcurrency : t'.currency = t.currency) (hamount : t'.amount = t.amount) :
    b'.Balanced t' ps where
  count := h.count
  ledger p hp := by
    obtain ⟨l, hl, hc⟩ := h.ledger p hp
    exact ⟨l, hstep.ledgerAccount hl, hc.trans hcurrency.symm⟩
  total := h.total
  volume := by rw [hamount, h.volume]
  bounded := h.bounded

theorem Step.customerOf_isSome (hstep : b.Step b') {id : Int64} (h : (b.customerOf id).isSome) :
    (b'.customerOf id).isSome := by
  obtain ⟨a, ha⟩ := Option.isSome_iff_exists.mp h
  obtain ⟨l, hl, ha⟩ := Option.bind_eq_some_iff.mp ha
  exact Option.isSome_iff_exists.mpr
    ⟨a, Option.bind_eq_some_iff.mpr ⟨l, hstep.ledgerAccount hl, ha⟩⟩

theorem Transfers.customers {sender recipient : LedgerAccount}
    (h : b.Transfers t sender recipient ps b') :
    ∀ p ∈ ps, (b.customerOf p.ledgerAccountID).isSome := by
  obtain ⟨a, ha⟩ := h.fromCustomer
  obtain ⟨a', ha'⟩ := h.toCustomer
  rw [h.postings, List.forall_mem_cons, List.forall_mem_singleton]
  simp [PostingParams.posting, customerOf_eq ha, customerOf_eq ha']

theorem Step.settled (hstep : b.Step b') (hwf : b.WellFormed) (h : b.Settled) : b'.Settled := by
  have hbalanced : ∀ o ∈ b.bankingTransactions.rows, b'.Balanced o (b'.postingsOf o.id) := by
    intro o ho
    rw [hstep.postingsOf_eq ho]
    exact (h.balanced o ho).of_step hstep rfl rfl
  have hcustomers : ∀ o ∈ b.bankingTransactions.rows, o.transactionType = .internalTransfer →
      ∀ p ∈ b'.postingsOf o.id, (b'.customerOf p.ledgerAccountID).isSome := by
    intro o ho htype p hp
    rw [hstep.postingsOf_eq ho] at hp
    exact hstep.customerOf_isSome (h.customers o ho htype p hp)
  refine ⟨?_, ?_, ?_⟩
  all_goals
    intro t ht
    rcases hstep.mem_bankingTransactions ht with
      ho | ⟨o, ho, time, _, _, rfl, _⟩ | ⟨ps, booking, kind⟩
  · exact h.status t ho
  · exact Or.inr rfl
  · exact Or.inl booking.posted
  · exact hbalanced t ho
  · exact (hbalanced o ho).of_step .quiet rfl rfl
  · rw [booking.postingsOf_self hwf]
    exact booking.toBalanced.of_step hstep rfl rfl
  · exact hcustomers t ho
  · exact hcustomers o ho
  · intro htype p hp
    rw [booking.postingsOf_self hwf] at hp
    cases kind with
    | settlement hk => rcases hk.kind with hk | hk <;> rw [hk] at htype <;> cases htype
    | reversal hk =>
      rw [hk.kind] at htype
      cases htype
    | transfer hk => exact hstep.customerOf_isSome (hk.customers p hp)

def customerTotal (b : Books) (currency : String) : Int :=
  groupSum (·.currency) (·.balance.toInt) b.accounts.rows currency

def settlementTotal (b : Books) (currency : String) : Int :=
  ((b.ledgerAccounts.get (.code (settlementCode currency))).map fun l => b.ledgerSum l.id).getD 0

section TrialBalance

variable (currency : String)

def inCurrency (b : Books) (p : LedgerPosting) : Bool :=
  (b.ledgerAccounts.get (.id p.ledgerAccountID)).any fun l => l.currency = currency

variable {p : LedgerPosting} {l : LedgerAccount}

theorem inCurrency_iff (hl : b.ledgerAccounts.get (.id p.ledgerAccountID) = some l) :
    b.inCurrency currency p = true ↔ l.currency = currency := by
  simp [inCurrency, hl]

theorem groupSum_inCurrency (hl : l ∈ b.ledgerAccounts.rows) (hcurrency : l.currency = currency) :
    groupSum (·.ledgerAccountID) (·.amount.toInt)
      (b.ledgerPostings.rows.filter (b.inCurrency currency)) l.id = b.ledgerSum l.id := by
  apply groupSum_filter
  intro p _ hp
  have hget : b.ledgerAccounts.get (.id p.ledgerAccountID) = some l := by
    rw [hp]
    exact Table.get_pk hl
  exact (inCurrency_iff currency hget).mpr hcurrency

theorem Settled.groupSum_transaction (h : b.Settled) {t : BankingTransaction}
    (ht : t ∈ b.bankingTransactions.rows) :
    groupSum (·.transactionID) (·.amount.toInt)
      (b.ledgerPostings.rows.filter (b.inCurrency currency)) t.id = 0 := by
  have hbal := h.balanced t ht
  have hin : ∀ p ∈ b.ledgerPostings.rows, p.transactionID = t.id →
      (b.inCurrency currency p = true ↔ t.currency = currency) := by
    intro p hp hpt
    obtain ⟨l, hl, hc⟩ := hbal.ledger p (List.mem_filter.mpr ⟨hp, decide_eq_true hpt⟩)
    rw [inCurrency_iff currency hl, hc]
  by_cases hc : t.currency = currency
  · rw [groupSum_filter fun p hp hpt => (hin p hp hpt).mpr hc]
    exact hbal.total
  · apply groupSum_eq_zero
    intro p hp hpt
    rw [List.mem_filter] at hp
    exact hc ((hin p hp.1 hpt).mp hp.2)

def ledgerID (b : Books) (a : Account) : Int64 :=
  ((b.ledgerAccounts.get (.customerAccountID a.id)).map LedgerAccount.id).getD 0

theorem ledgerID_eq {a : Account} (h : b.ledgerAccounts.get (.customerAccountID a.id) = some l) :
    b.ledgerID a = l.id := by
  simp [ledgerID, h]

def ledgerIDs (b : Books) : List Int64 :=
  (b.accounts.rows.filter fun a => a.currency = currency).map b.ledgerID ++
    (b.ledgerAccounts.get (.code (settlementCode currency))).toList.map LedgerAccount.id

theorem Owned.nodup_ledgerIDs (h : b.Owned) : (b.ledgerIDs currency).Nodup := by
  have hinj : ∀ a ∈ b.accounts.rows, ∀ a' ∈ b.accounts.rows, b.ledgerID a = b.ledgerID a' →
      a = a' := by
    intro a ha a' ha' heq
    obtain ⟨l, hl, _⟩ := h.ledger a ha
    obtain ⟨l', hl', _⟩ := h.ledger a' ha'
    rw [ledgerID_eq hl, ledgerID_eq hl'] at heq
    have hid : a.id = a'.id := by
      have := customerOf_eq hl
      rw [heq, customerOf_eq hl'] at this
      exact (Option.some.inj this).symm
    exact Table.pk_injOn ha ha' (congrArg AccountKey.id hid)
  refine List.Nodup.append ?_ ?_ ?_
  · refine List.Nodup.map_on ?_ (b.accounts.nodup.filter _)
    intro a ha a' ha' heq
    exact hinj a (List.mem_of_mem_filter ha) a' (List.mem_of_mem_filter ha') heq
  · cases b.ledgerAccounts.get (.code (settlementCode currency)) <;> simp
  · intro id hid hid'
    obtain ⟨a, ha, rfl⟩ := List.mem_map.mp hid
    obtain ⟨s, hs, hsid⟩ := List.mem_map.mp hid'
    obtain ⟨l, hl, _⟩ := h.ledger a (List.mem_of_mem_filter ha)
    have hnone := customerOf_settlement (Option.mem_toList.mp hs)
    rw [hsid, ledgerID_eq hl, customerOf_eq hl] at hnone
    cases hnone

theorem Owned.mem_ledgerIDs (h : b.Owned) (hwf : b.WellFormed)
    (hp : p ∈ b.ledgerPostings.rows.filter (b.inCurrency currency)) :
    p.ledgerAccountID ∈ b.ledgerIDs currency := by
  rw [List.mem_filter] at hp
  obtain ⟨l, hl⟩ := hwf.ledgerAccount p hp.1
  have hc := (inCurrency_iff currency hl).mp hp.2
  have hmem := Table.mem_of_get hl
  rw [← ledgerAccount_id_of_get hl, ledgerIDs, List.mem_append]
  cases ho : l.owner with
  | customer a =>
    left
    obtain ⟨acc, hacc⟩ := h.account l hmem a ho
    have hid : acc.id = a := by simpa [keys, eq_comm] using Table.key_of_get hacc
    have hget : b.ledgerAccounts.get (.customerAccountID acc.id) = some l := by
      apply Table.get_key hmem
      simp [keys, ho, LedgerAccountKey.ofOwner, hid]
    obtain ⟨l', hl', hcur⟩ := h.ledger acc (Table.mem_of_get hacc)
    rw [hget] at hl'
    cases hl'
    refine List.mem_map.mpr ⟨acc, List.mem_filter.mpr ⟨Table.mem_of_get hacc, ?_⟩,
      ledgerID_eq hget⟩
    exact decide_eq_true (hcur.symm.trans hc)
  | settlement code =>
    right
    have hcode := h.settlement l hmem code ho
    have hget : b.ledgerAccounts.get (.code (settlementCode currency)) = some l := by
      apply Table.get_key hmem
      simp [keys, ho, LedgerAccountKey.ofOwner, hcode, hc]
    simp [hget]

theorem Owned.settlement_currency (h : b.Owned)
    (hl : b.ledgerAccounts.get (.code (settlementCode currency)) = some l) :
    l.currency = currency := by
  have hk := Table.key_of_get hl
  cases ho : l.owner with
  | customer a => simp [keys, ho, LedgerAccountKey.ofOwner] at hk
  | settlement code =>
    have hcode : settlementCode currency = code := by
      simpa [keys, ho, LedgerAccountKey.ofOwner] using hk
    rw [h.settlement l (Table.mem_of_get hl) code ho] at hcode
    exact ((String.append_right_inj _).mp hcode).symm

theorem Settled.customerTotal_add (h : b.Settled) (hwf : b.WellFormed) (howned : b.Owned)
    (hrec : b.Reconciled) : b.customerTotal currency + b.settlementTotal currency = 0 := by
  have hnodup : (b.bankingTransactions.rows.map BankingTransaction.id).Nodup := by
    refine List.Nodup.map_on ?_ b.bankingTransactions.nodup
    intro t ht t' ht' heq
    exact Table.pk_injOn ht ht' (congrArg BankingTransactionKey.id heq)
  have htransaction : ∀ p ∈ b.ledgerPostings.rows.filter (b.inCurrency currency),
      p.transactionID ∈ b.bankingTransactions.rows.map BankingTransaction.id := by
    intro p hp
    obtain ⟨t, ht⟩ := hwf.transaction p (List.mem_of_mem_filter hp)
    refine List.mem_map.mpr ⟨t, Table.mem_of_get ht, ?_⟩
    simpa [keys, eq_comm] using Table.key_of_get ht
  have hbalanced : ∀ t ∈ b.bankingTransactions.rows.map BankingTransaction.id,
      groupSum (·.transactionID) (·.amount.toInt)
        (b.ledgerPostings.rows.filter (b.inCurrency currency)) t = 0 := by
    intro id hid
    obtain ⟨t, ht, rfl⟩ := List.mem_map.mp hid
    exact h.groupSum_transaction currency ht
  have hzero := trial_balance (howned.nodup_ledgerIDs currency) hnodup
    (fun p hp => howned.mem_ledgerIDs currency hwf hp) htransaction hbalanced
  rw [ledgerIDs, List.map_append, List.sum_append, List.map_map, List.map_map] at hzero
  rw [← hzero]
  congr 1
  · rw [customerTotal, groupSum]
    congr 1
    apply List.map_congr_left
    intro a ha
    rw [List.mem_filter, decide_eq_true_eq] at ha
    obtain ⟨l, hl, hc⟩ := howned.ledger a ha.1
    rw [Function.comp_apply, ledgerID_eq hl,
      groupSum_inCurrency currency (Table.mem_of_get hl) (hc.trans ha.2), hrec.balance a ha.1 l hl]
  · cases hs : b.ledgerAccounts.get (.code (settlementCode currency)) with
    | none => simp [settlementTotal, hs]
    | some l =>
      have hmem := Table.mem_of_get hs
      have hc : l.currency = currency := howned.settlement_currency _ hs
      simp [settlementTotal, hs, groupSum_inCurrency currency hmem hc]

end TrialBalance

def External (b : Books) (t : BankingTransaction) : Prop :=
  t.transactionType = .deposit ∨ t.transactionType = .withdrawal ∨
    (t.transactionType = .reversal ∧ ∃ o ∈ b.bankingTransactions.rows, t.reversalOf = some o.id ∧
      (o.transactionType = .deposit ∨ o.transactionType = .withdrawal))

theorem Step.settlementAccount (hstep : b.Step b') (code : String) :
    b'.ledgerAccounts.get (.code code) = b.ledgerAccounts.get (.code code) := by
  cases hstep with
  | quiet => rfl
  | restates h => rfl
  | books booking kind => rw [booking.ledgerAccounts]
  | opens h =>
    apply Table.get_insert_of_notMem
    simp [keys, h.owner, LedgerAccountKey.ofOwner]

theorem Step.settlementTotal_eq (hstep : b.Step b')
    (hrows : b'.ledgerPostings.rows = b.ledgerPostings.rows ++ ps)
    (hcustomers : ∀ p ∈ ps, (b.customerOf p.ledgerAccountID).isSome) (currency : String) :
    b'.settlementTotal currency = b.settlementTotal currency := by
  rw [settlementTotal, settlementTotal, hstep.settlementAccount]
  cases hl : b.ledgerAccounts.get (.code (settlementCode currency)) with
  | none => rfl
  | some l =>
    have hzero : groupSum (·.ledgerAccountID) (·.amount.toInt) ps l.id = 0 := by
      apply groupSum_eq_zero
      intro p hp heq
      have := hcustomers p hp
      rw [heq, customerOf_settlement hl] at this
      cases this
    simp only [Option.map_some, Option.getD_some, ledgerSum, hrows, groupSum_append, hzero,
      add_zero]

structure Conserving (b : Books) : Prop extends b.WellFormed, b.Owned, b.Reconciled, b.Settled

theorem Conserving.customerTotal_of_settlementTotal (h : b.Conserving) (h' : b'.Conserving)
    {currency : String} (heq : b'.settlementTotal currency = b.settlementTotal currency) :
    b'.customerTotal currency = b.customerTotal currency := by
  have hb := h.toSettled.customerTotal_add currency h.toWellFormed h.toOwned h.toReconciled
  have hb' := h'.toSettled.customerTotal_add currency h'.toWellFormed h'.toOwned h'.toReconciled
  omega

theorem Step.customerTotal_cases (hstep : b.Step b') (h : b.Conserving) (h' : b'.Conserving) :
    (∀ currency, b'.customerTotal currency = b.customerTotal currency) ∨
      ∃ t, b.External t ∧ ∀ t', (t' ∈ b'.bankingTransactions.rows ∧
        b.bankingTransactions.get (.id t'.id) = none) ↔ t' = t := by
  have hinternal : ∀ ps, b'.ledgerPostings.rows = b.ledgerPostings.rows ++ ps →
      (∀ p ∈ ps, (b.customerOf p.ledgerAccountID).isSome) →
        ∀ currency, b'.customerTotal currency = b.customerTotal currency :=
    fun ps hrows hcustomers currency =>
      h.customerTotal_of_settlementTotal h' (hstep.settlementTotal_eq hrows hcustomers currency)
  have hnew : ∀ t ps, b.Booking t ps b' → b.Kind t ps b' → ∀ t',
      (t' ∈ b'.bankingTransactions.rows ∧ b.bankingTransactions.get (.id t'.id) = none) ↔
        t' = t := by
    intro t ps booking kind t'
    constructor
    · rintro ⟨hmem, hnone⟩
      exact kind.eq_of_new booking.fresh hmem hnone
    · rintro rfl
      exact ⟨kind.mem_self booking.fresh,
        Table.conflict_eq_none.mp booking.fresh _ (Keyed.pk_mem t')⟩
  cases hstep with
  | quiet => exact Or.inl (hinternal [] (by simp) (by simp))
  | opens ho => exact Or.inl (hinternal [] (by simp) (by simp))
  | restates hr => exact Or.inl (hinternal [] (by simp) (by simp))
  | books booking kind =>
    rename_i t ps
    have hone := hnew t ps booking kind
    cases kind with
    | settlement hk => exact Or.inr ⟨t, hk.kind.elim Or.inl fun hw => Or.inr (Or.inl hw), hone⟩
    | transfer hk => exact Or.inl (hinternal ps booking.postings hk.customers)
    | reversal hk =>
      rename_i original
      have hmem := Table.mem_of_get hk.row
      cases htype : original.transactionType with
      | reversal => exact absurd htype hk.notReversal
      | deposit =>
        exact Or.inr ⟨t, Or.inr (Or.inr ⟨hk.kind, original, hmem, hk.reversalOf,
          Or.inl htype⟩), hone⟩
      | withdrawal =>
        exact Or.inr ⟨t, Or.inr (Or.inr ⟨hk.kind, original, hmem, hk.reversalOf,
          Or.inr htype⟩), hone⟩
      | internalTransfer =>
        refine Or.inl (hinternal ps booking.postings ?_)
        intro p hp
        rw [hk.postings] at hp
        obtain ⟨q, hq, rfl⟩ := List.mem_map.mp hp
        exact h.customers original hmem htype q hq

end Books

theorem bankingRun_conserving (users : Table User) (acts : List BankingAction) :
    (bankingRun users acts).db.Conserving := by
  have hsettled : (bankingRun users acts).db.Settled := by
    refine bankingRun_invariant users ⟨?_, ?_, ?_⟩ (fun _ _ hwf h hstep => hstep.settled hwf h) acts
    all_goals
      intro t ht
      cases ht
  exact ⟨bankingRun_wellFormed users acts, bankingRun_owned users acts,
    bankingRun_reconciled users acts, hsettled⟩

/-- In every committed state every banking transaction is posted or reversed and
its postings, at least two and all in its currency, add up to nothing and move
its amount from one side to the other; in each currency the customers have what
the settlement account lacks; and a step of the run leaves what the customers
have as it is, unless the one transaction it adds is a deposit, a withdrawal or
the reversal of one. -/
theorem bankingRun_conservation (users : Table User) (acts : List BankingAction)
    (act : BankingAction) :
    let b := (bankingRun users acts).db.toBooks
    let b' := (bankingRun users (acts ++ [act])).db.toBooks
    (∀ t ∈ b.bankingTransactions.rows,
      (t.status = .posted ∨ t.status = .reversed) ∧ 2 ≤ (b.postingsOf t.id).length ∧
      (∀ p ∈ b.postingsOf t.id, ∃ l, b.ledgerAccounts.get (.id p.ledgerAccountID) = some l ∧
        l.currency = t.currency) ∧
      ((b.postingsOf t.id).map fun p => p.amount.toInt).sum = 0 ∧
      ((b.postingsOf t.id).map fun p => (p.amount.toInt.natAbs : Int)).sum = 2 * t.amount.toInt) ∧
    (∀ currency, b.customerTotal currency + b.settlementTotal currency = 0) ∧
    ((∀ currency, b'.customerTotal currency = b.customerTotal currency) ∨
      ∃ t, b.External t ∧ ∀ t', (t' ∈ b'.bankingTransactions.rows ∧
        b.bankingTransactions.get (.id t'.id) = none) ↔ t' = t) := by
  intro b b'
  have h : b.Conserving := bankingRun_conserving users acts
  refine ⟨?_, ?_, ?_⟩
  · intro t ht
    have hbal := h.balanced t ht
    exact ⟨h.status t ht, hbal.count, hbal.ledger, hbal.total, hbal.volume⟩
  · intro currency
    exact h.toSettled.customerTotal_add currency h.toWellFormed h.toOwned h.toReconciled
  · exact (bankingRun_step users acts act).customerTotal_cases h
      (bankingRun_conserving users (acts ++ [act]))

end Monierave
