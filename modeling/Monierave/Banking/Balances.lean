import Monierave.Banking.Serial

/-! # Balances

Every account has its ledger account, and its balance is what was posted there.
-/

namespace Monierave

open Relational Accounting

namespace Books

variable {b b' : Books}

/-- Every account has its ledger account and every customer ledger account its
account, in the same currency; the other ledger accounts are the settlement
accounts. -/
structure Owned (b : Books) : Prop where
  ledger : ∀ a ∈ b.accounts.rows, ∃ l, b.ledgerAccounts.get (.customerAccountID a.id) = some l ∧
    l.currency = a.currency
  account : ∀ l ∈ b.ledgerAccounts.rows, ∀ id, l.owner = .customer id →
    ∃ a, b.accounts.get (.id id) = some a
  settlement : ∀ l ∈ b.ledgerAccounts.rows, ∀ code, l.owner = .settlement code →
    code = settlementCode l.currency

structure Restated (a a' : Account) : Prop where
  keys : Relational.keys a' = Relational.keys a
  balance : a'.balance = a.balance
  stays : a.status = .closed → a'.status = .closed
  closing : a'.status = .closed → a.status = .closed ∨ a.balance = 0

theorem Restates.pointwise {a a' : Account} (h : b.Restates a a') :
    Table.Pointwise Restated b.accounts (b.accounts.update a') := by
  have hrow : b.accounts.get (pk a') = some a := by
    have hid := (Account.keys_eq_iff.mp h.keys).1
    simpa only [pk, hid] using h.row
  refine Table.pointwise_update hrow h.keys.symm ?_ ?_
  · exact ⟨h.keys, h.balance, fun hc => absurd hc h.wasOpen, fun hc => Or.inr (h.closing hc)⟩
  · intro a₀ _ _
    exact ⟨rfl, rfl, id, Or.inl⟩

theorem owned_of_pointwise {rel : Account → Account → Prop} (h : b.Owned)
    (hl : b'.ledgerAccounts = b.ledgerAccounts) (ha : Table.Pointwise rel b.accounts b'.accounts)
    (hkeys : ∀ a a', rel a a' → keys a' = keys a) : b'.Owned where
  ledger a' ha' := by
    obtain ⟨a, hmem, hrel⟩ := ha.mem_right ha'
    obtain ⟨hid, ⟨_, hcur⟩, _⟩ := Account.keys_eq_iff.mp (hkeys a a' hrel)
    rw [hl, hid, hcur]
    exact h.ledger a hmem
  account l hmem id ho := by
    obtain ⟨a, hget⟩ := h.account l (hl ▸ hmem) id ho
    obtain ⟨a', hget', _⟩ := ha.get hkeys hget
    exact ⟨a', hget'⟩
  settlement l hmem := h.settlement l (hl ▸ hmem)

theorem Step.owned (hstep : b.Step b') (h : b.Owned) : b'.Owned := by
  cases hstep with
  | quiet => exact h
  | restates hr => exact owned_of_pointwise h rfl hr.pointwise fun _ _ hrel => hrel.keys
  | books booking _ =>
    exact owned_of_pointwise h booking.ledgerAccounts booking.credits fun _ _ hrel => hrel.keys
  | opens ho =>
    rename_i a l
    have hcustomer : LedgerAccountKey.customerAccountID a.id ∈ keys l := by
      simp [keys, ho.owner, LedgerAccountKey.ofOwner]
    refine ⟨?_, ?_, ?_⟩
    · intro a₀ ha₀
      rw [Table.insert_rows ho.fresh, List.mem_append, List.mem_singleton] at ha₀
      rcases ha₀ with ha₀ | rfl
      · obtain ⟨l₀, hl₀, hcur⟩ := h.ledger a₀ ha₀
        exact ⟨l₀, Table.get_insert_of_get ho.ledgerFresh hl₀, hcur⟩
      · exact ⟨l, Table.get_insert_self ho.ledgerFresh hcustomer, ho.currency⟩
    · intro l₀ hl₀ id hid
      rw [Table.insert_rows ho.ledgerFresh, List.mem_append, List.mem_singleton] at hl₀
      rcases hl₀ with hl₀ | rfl
      · obtain ⟨a₀, ha₀⟩ := h.account l₀ hl₀ id hid
        exact ⟨a₀, Table.get_insert_of_get ho.fresh ha₀⟩
      · rw [ho.owner] at hid
        cases hid
        exact ⟨a, Table.get_insert_self ho.fresh (Keyed.pk_mem a)⟩
    · intro l₀ hl₀ code hcode
      rw [Table.insert_rows ho.ledgerFresh, List.mem_append, List.mem_singleton] at hl₀
      rcases hl₀ with hl₀ | rfl
      · exact h.settlement l₀ hl₀ code hcode
      · rw [ho.owner] at hcode
        cases hcode

def ledgerSum (b : Books) (ledgerAccountID : Int64) : Int :=
  groupSum (·.ledgerAccountID) (·.amount.toInt) b.ledgerPostings.rows ledgerAccountID

structure Reconciled (b : Books) : Prop where
  balance : ∀ a ∈ b.accounts.rows, ∀ l,
    b.ledgerAccounts.get (.customerAccountID a.id) = some l → a.balance.toInt = b.ledgerSum l.id
  nonneg : ∀ a ∈ b.accounts.rows, 0 ≤ a.balance
  closed : ∀ a ∈ b.accounts.rows, a.status = .closed → a.balance = 0

theorem WellFormed.ledgerSum_eq_zero (h : b.WellFormed) {id : Int64}
    (hid : b.ledgerAccounts.get (.id id) = none) : b.ledgerSum id = 0 := by
  apply groupSum_eq_zero
  intro p hp heq
  obtain ⟨l, hl⟩ := h.ledgerAccount p hp
  rw [heq, hid] at hl
  cases hl

theorem Booking.ledgerSum_eq {t : BankingTransaction} {ps : List LedgerPosting}
    (h : b.Booking t ps b') (id : Int64) :
    b'.ledgerSum id = b.ledgerSum id + groupSum (·.ledgerAccountID) (·.amount.toInt) ps id := by
  rw [ledgerSum, h.postings, groupSum_append]
  rfl

theorem Booking.movedTo_closed {t : BankingTransaction} {ps : List LedgerPosting}
    (h : b.Booking t ps b') {a : Account} (ha : a ∈ b.accounts.rows)
    (hclosed : a.status = .closed) : movedTo (b.moves ps) a.id = 0 := by
  apply groupSum_eq_zero
  intro m hm heq
  obtain ⟨a', ha', hopen⟩ := h.notClosed m hm
  have hself : b.accounts.get (.id a.id) = some a := Table.get_pk ha
  rw [heq, hself] at ha'
  cases ha'
  exact hopen hclosed

theorem Step.reconciled (hstep : b.Step b') (hwf : b.WellFormed) (howned : b.Owned)
    (h : b.Reconciled) : b'.Reconciled := by
  cases hstep with
  | quiet => exact h
  | opens ho =>
    rename_i a l
    refine ⟨?_, ?_, ?_⟩
    · intro a₀ ha₀ l₀ hl₀
      rw [Table.insert_rows ho.fresh, List.mem_append, List.mem_singleton] at ha₀
      rcases ha₀ with ha₀ | rfl
      · obtain ⟨l₁, hl₁, _⟩ := howned.ledger a₀ ha₀
        rw [Table.get_insert_of_get ho.ledgerFresh hl₁] at hl₀
        cases hl₀
        exact h.balance a₀ ha₀ l₀ hl₁
      · have hkey : LedgerAccountKey.customerAccountID a₀.id ∈ keys l := by
          simp [keys, ho.owner, LedgerAccountKey.ofOwner]
        rw [Table.get_insert_self ho.ledgerFresh hkey] at hl₀
        cases hl₀
        have hzero := hwf.ledgerSum_eq_zero
          (Table.conflict_eq_none.mp ho.ledgerFresh _ (Keyed.pk_mem l))
        rw [ho.empty]
        exact hzero.symm
    · intro a₀ ha₀
      rw [Table.insert_rows ho.fresh, List.mem_append, List.mem_singleton] at ha₀
      rcases ha₀ with ha₀ | rfl
      · exact h.nonneg a₀ ha₀
      · rw [ho.empty]
        decide
    · intro a₀ ha₀ hclosed
      rw [Table.insert_rows ho.fresh, List.mem_append, List.mem_singleton] at ha₀
      rcases ha₀ with ha₀ | rfl
      · exact h.closed a₀ ha₀ hclosed
      · exact ho.empty
  | restates hr =>
    refine ⟨?_, ?_, ?_⟩
    all_goals
      intro a' ha'
      obtain ⟨a, ha, hrel⟩ := hr.pointwise.mem_right ha'
      rw [hrel.balance]
    · intro l hl
      rw [(Account.keys_eq_iff.mp hrel.keys).1] at hl
      exact h.balance a ha l hl
    · exact h.nonneg a ha
    · intro hclosed
      exact (hrel.closing hclosed).elim (h.closed a ha) fun hzero => hzero
  | books booking _ =>
    refine ⟨?_, ?_, ?_⟩
    all_goals
      intro a' ha'
      obtain ⟨a, ha, hrel⟩ := booking.credits.mem_right ha'
    · intro l hl
      rw [booking.ledgerAccounts, hrel.id_eq] at hl
      rw [hrel.balance, booking.ledgerSum_eq, h.balance a ha l hl, movedTo_moves hl]
    · exact hrel.nonneg (h.nonneg a ha)
    · intro hclosed
      rw [hrel.status] at hclosed
      have hbal := hrel.balance
      rw [booking.movedTo_closed ha hclosed, h.closed a ha hclosed] at hbal
      exact Int64.toInt_inj.mp (by simpa using hbal)

theorem owned_initial (users : Table User) : (DB.initial users).Owned where
  ledger a ha := by cases ha
  account l hl id ho := by
    simp only [DB.initial, settlementLedgerAccounts, List.mem_pair] at hl
    rcases hl with rfl | rfl <;> cases ho
  settlement l hl code ho := by
    simp only [DB.initial, settlementLedgerAccounts, List.mem_pair] at hl
    rcases hl with rfl | rfl <;> cases ho <;> rfl

theorem reconciled_initial (users : Table User) : (DB.initial users).Reconciled where
  balance a ha := by cases ha
  nonneg a ha := by cases ha
  closed a ha := by cases ha

end Books

theorem bankingRun_owned (users : Table User) (acts : List BankingAction) :
    (bankingRun users acts).db.Owned :=
  bankingRun_invariant users (Books.owned_initial users)
    (fun _ _ _ h hstep => hstep.owned h) acts

theorem bankingRun_reconciled (users : Table User) (acts : List BankingAction) :
    (bankingRun users acts).db.Reconciled := by
  refine (bankingRun_invariant (P := fun b => b.Owned ∧ b.Reconciled) users
    ⟨Books.owned_initial users, Books.reconciled_initial users⟩ ?_ acts).2
  rintro b b' hwf ⟨howned, h⟩ hstep
  exact ⟨hstep.owned howned, hstep.reconciled hwf howned h⟩

/-- In every committed state each account has exactly one ledger account, of its
currency, and its balance is the sum of the postings there, not negative and
within the range of its column. -/
theorem bankingRun_balances (users : Table User) (acts : List BankingAction) :
    let db := (bankingRun users acts).db
    ∀ a ∈ db.accounts.rows, ∃ l ∈ db.ledgerAccounts.rows,
      (∀ l' ∈ db.ledgerAccounts.rows, l'.owner = .customer a.id ↔ l' = l) ∧
      l.currency = a.currency ∧
      a.balance.toInt = ((db.postingsOn l.id).map fun p => p.amount.toInt).sum ∧
      0 ≤ a.balance.toInt ∧ a.balance.toInt < 2 ^ 63 := by
  intro db a ha
  have h := bankingRun_reconciled users acts
  obtain ⟨l, hl, hcurrency⟩ := (bankingRun_owned users acts).ledger a ha
  refine ⟨l, Table.mem_of_get hl, ?_, hcurrency, h.balance a ha l hl, ?_, a.balance.toInt_lt⟩
  · intro l' hl'
    constructor
    · intro howner
      have hkey : LedgerAccountKey.customerAccountID a.id ∈ keys l' := by
        simp [keys, howner, LedgerAccountKey.ofOwner]
      exact Table.eq_of_shared hl' (Table.mem_of_get hl) hkey (Table.key_of_get hl)
    · rintro rfl
      exact Books.owner_of_get hl
  · simpa using Int64.le_iff_toInt_le.mp (h.nonneg a ha)

end Monierave
