import Monierave.Accounting.Journal
import Monierave.Banking.Reliance

/-! # What the banking operations do to the books

The operations in bookkeeping terms: an account is opened, its status changes, or a
transaction is booked, which adds postings that balance and credits each account
with what they put on its ledger account.
-/

namespace Monierave

open Relational Accounting

theorem toInt_neg_of_lt {x : Int64} (h : -2 ^ 63 < x.toInt) : (-x).toInt = -x.toInt := by
  have hlt := x.toInt_lt
  rw [Int64.toInt_neg]
  exact Int.bmod_eq_of_le (by omega) (by omega)

theorem Account.keys_eq_iff {a b : Account} :
    keys a = keys b ↔ a.id = b.id ∧ (a.owner = b.owner ∧ a.currency = b.currency) ∧
      a.publicID = b.publicID ∧ a.accountNumber = b.accountNumber := by
  simp [keys]

/-- `a'` is the account `a` with `x` more on it. -/
structure Account.Credited (x : Int) (a a' : Account) : Prop where
  keys : Relational.keys a' = Relational.keys a
  status : a'.status = a.status
  balance : a'.balance.toInt = a.balance.toInt + x
  nonneg : 0 ≤ a.balance → 0 ≤ a'.balance

namespace Account.Credited

variable {x : Int} {a a' : Account}

theorem refl (a : Account) : a.Credited 0 a := ⟨rfl, rfl, by simp, fun h => h⟩

theorem trans {y : Int} {b c : Account} (h : a.Credited x b) (h' : b.Credited y c) :
    a.Credited (x + y) c where
  keys := h'.keys.trans h.keys
  status := h'.status.trans h.status
  balance := by rw [h'.balance, h.balance, Int.add_assoc]
  nonneg ha := h'.nonneg (h.nonneg ha)

theorem id_eq (h : a.Credited x a') : a'.id = a.id :=
  (Account.keys_eq_iff.mp h.keys).1

theorem owner_eq (h : a.Credited x a') : a'.owner = a.owner :=
  (Account.keys_eq_iff.mp h.keys).2.1.1

end Account.Credited

abbrev Move := Int64 × Int64

def movedTo (ms : List Move) (accountID : Int64) : Int :=
  groupSum Prod.fst (fun m => m.2.toInt) ms accountID

def Credits (ms : List Move) : Table Account → Table Account → Prop :=
  Table.Pointwise fun a a' => a.Credited (movedTo ms a.id) a'

theorem credits_nil (t : Table Account) : Credits [] t t :=
  Table.pointwise_refl fun a _ => Account.Credited.refl a

namespace Credits

variable {ms : List Move} {t t' : Table Account}

variable {k : AccountKey}

theorem update (h : Credits ms t t') {amount : Int64} {o r : Account}
    (ho : t'.get (.id r.id) = some o) (hr : o.Credited amount.toInt r) :
    Credits (ms ++ [(o.id, amount)]) t (t'.update r) := by
  have hone : Table.Pointwise (fun a a' => a.Credited (movedTo [(o.id, amount)] a.id) a')
      t' (t'.update r) := by
    refine Table.pointwise_update ho hr.keys.symm ?_ ?_
    · simpa [movedTo, groupSum_singleton] using hr
    · intro a _ hne
      have hid : o.id ≠ a.id := by
        intro heq
        exact hne (by simp only [pk, ← heq, hr.id_eq])
      simpa [movedTo, groupSum_singleton, hid] using Account.Credited.refl a
  refine Table.Pointwise.trans h hone ?_
  intro a b c hab hbc
  rw [hab.id_eq] at hbc
  simpa [movedTo, groupSum_append] using hab.trans hbc

theorem get (h : Credits ms t t') {a : Account} (ha : t.get k = some a) :
    ∃ a', t'.get k = some a' ∧ a.Credited (movedTo ms a.id) a' :=
  Table.Pointwise.get h (fun _ _ h => h.keys) ha

theorem get_before (h : Credits ms t t') {a' : Account} (ha' : t'.get k = some a') :
    ∃ a, t.get k = some a ∧ a.Credited (movedTo ms a.id) a' :=
  Table.Pointwise.get_before h (fun _ _ h => h.keys) ha'

end Credits

namespace Books

def customerOf (b : Books) (ledgerAccountID : Int64) : Option Int64 :=
  (b.ledgerAccounts.get (.id ledgerAccountID)).bind LedgerAccount.customerAccountID

variable {b : Books} {id a : Int64} {l : LedgerAccount} {ps : List LedgerPosting}
    {t : BankingTransaction}

theorem ledgerAccount_id_of_get (h : b.ledgerAccounts.get (.id id) = some l) : l.id = id := by
  have hk := Table.key_of_get h
  cases ho : l.owner <;> simpa [keys, ho, LedgerAccountKey.ofOwner, eq_comm] using hk

theorem owner_of_get (h : b.ledgerAccounts.get (.customerAccountID a) = some l) :
    l.owner = .customer a := by
  have hk := Table.key_of_get h
  simp only [keys, List.mem_cons, reduceCtorEq, List.not_mem_nil, or_false, false_or] at hk
  cases ho : l.owner with
  | settlement code => simp [ho, LedgerAccountKey.ofOwner] at hk
  | customer a' => simpa [ho, LedgerAccountKey.ofOwner, eq_comm] using hk

theorem customerOf_eq (h : b.ledgerAccounts.get (.customerAccountID a) = some l) :
    b.customerOf l.id = some a := by
  have hid : b.ledgerAccounts.get (.id l.id) = some l := Table.get_eq_of_key h (Keyed.pk_mem l)
  simp [customerOf, hid, LedgerAccount.customerAccountID, owner_of_get h]

theorem customerOf_settlement {code : String} (h : b.ledgerAccounts.get (.code code) = some l) :
    b.customerOf l.id = none := by
  have hid : b.ledgerAccounts.get (.id l.id) = some l := Table.get_eq_of_key h (Keyed.pk_mem l)
  have hk := Table.key_of_get h
  cases ho : l.owner with
  | settlement code => simp [customerOf, hid, LedgerAccount.customerAccountID, ho]
  | customer a => simp [keys, ho, LedgerAccountKey.ofOwner] at hk

def moves (b : Books) (ps : List LedgerPosting) : List Move :=
  ps.filterMap fun p => (b.customerOf p.ledgerAccountID).map fun a => (a, p.amount)

theorem get_of_customerOf (h : b.customerOf id = some a) :
    ∃ l, b.ledgerAccounts.get (.customerAccountID a) = some l ∧ l.id = id := by
  obtain ⟨l, hl, howner⟩ := Option.bind_eq_some_iff.mp h
  refine ⟨l, Table.get_eq_of_key hl ?_, ledgerAccount_id_of_get hl⟩
  cases ho : l.owner with
  | settlement code => simp [LedgerAccount.customerAccountID, ho] at howner
  | customer a' =>
    simp only [LedgerAccount.customerAccountID, ho, Option.some.injEq] at howner
    simp [keys, ho, howner, LedgerAccountKey.ofOwner]

theorem customerOf_eq_some_iff (h : b.ledgerAccounts.get (.customerAccountID a) = some l)
    (id : Int64) : b.customerOf id = some a ↔ id = l.id := by
  constructor
  · intro hid
    obtain ⟨l', hl', rfl⟩ := get_of_customerOf hid
    rw [h] at hl'
    rw [Option.some.inj hl']
  · rintro rfl
    exact customerOf_eq h

theorem customerOf_inj {id' : Int64} (h : b.customerOf id = some a)
    (h' : b.customerOf id' = some a) : id = id' := by
  obtain ⟨l, hl, rfl⟩ := get_of_customerOf h
  exact ((customerOf_eq_some_iff hl _).mp h').symm

theorem movedTo_moves (h : b.ledgerAccounts.get (.customerAccountID a) = some l)
    (ps : List LedgerPosting) :
    movedTo (b.moves ps) a = groupSum (·.ledgerAccountID) (·.amount.toInt) ps l.id := by
  induction ps with
  | nil => rfl
  | cons p ps ih =>
    have hcons : b.moves (p :: ps) =
        (b.customerOf p.ledgerAccountID).toList.map (fun a => (a, p.amount)) ++ b.moves ps := by
      cases hc : b.customerOf p.ledgerAccountID <;> simp [moves, hc]
    have hiff := customerOf_eq_some_iff h p.ledgerAccountID
    rw [hcons, movedTo, groupSum_append, groupSum_cons, ← ih, movedTo]
    congr 1
    by_cases hp : p.ledgerAccountID = l.id
    · rw [if_pos hp, hiff.mpr hp]
      simp [groupSum_cons]
    · rw [if_neg hp]
      apply groupSum_eq_zero
      intro m hm
      obtain ⟨a', ha', rfl⟩ := List.mem_map.mp hm
      rintro rfl
      exact hp (hiff.mp (Option.mem_toList.mp ha'))

/-- A transaction `t` is posted with the postings `ps`: the part that all kinds of
bookings share and that is settled before the balance is checked. -/
structure Posts (b : Books) (t : BankingTransaction) (ps : List LedgerPosting) (b' : Books) :
    Prop where
  fresh : b.bankingTransactions.conflict t = none
  posted : t.status = .posted
  positive : 0 < t.amount
  ledgerAccounts : b'.ledgerAccounts = b.ledgerAccounts
  postings : b'.ledgerPostings.rows = b.ledgerPostings.rows ++ ps
  belongs : ∀ p ∈ ps, p.transactionID = t.id
  credits : Credits (b.moves ps) b.accounts b'.accounts
  notClosed : ∀ m ∈ b.moves ps, ∃ a, b.accounts.get (.id m.1) = some a ∧ a.status ≠ .closed

theorem Posts.distinct {b' : Books} (h : b.Posts t ps b') : ((b.moves ps).map Prod.fst).Nodup := by
  have hunique := b'.ledgerPostings.unique
  rw [h.postings, List.pairwise_append] at hunique
  rw [moves, List.map_filterMap, List.Nodup, List.pairwise_filterMap]
  refine hunique.2.1.imp_of_mem ?_
  intro p q hp hq hpq x hx y hy hxy
  simp only [Option.map_map, Option.map_eq_some_iff, Function.comp_apply] at hx hy
  obtain ⟨a, ha, rfl⟩ := hx
  obtain ⟨a', ha', rfl⟩ := hy
  subst hxy
  have hkey := hpq _ (Keyed.pk_mem p)
  simp [pk, keys, customerOf_inj ha ha', h.belongs p hp, h.belongs q hq] at hkey

structure Balanced (b : Books) (t : BankingTransaction) (ps : List LedgerPosting) : Prop where
  count : 2 ≤ ps.length
  ledger : ∀ p ∈ ps, ∃ l, b.ledgerAccounts.get (.id p.ledgerAccountID) = some l ∧
    l.currency = t.currency
  total : (ps.map fun p => p.amount.toInt).sum = 0
  volume : (ps.map fun p => (p.amount.toInt.natAbs : Int)).sum = 2 * t.amount.toInt
  bounded : ∀ p ∈ ps, (p.amount.toInt.natAbs : Int) < 2 ^ 63

theorem balanced_pair {p q : LedgerPosting}
    (hledger : ∀ r ∈ [p, q], ∃ l, b.ledgerAccounts.get (.id r.ledgerAccountID) = some l ∧
      l.currency = t.currency) (hamount : (p.amount.toInt.natAbs : Int) = t.amount.toInt)
    (hopposite : p.amount.toInt + q.amount.toInt = 0) : b.Balanced t [p, q] where
  count := by simp
  ledger := hledger
  total := by simpa using hopposite
  volume := by
    simp only [List.map_cons, List.map_nil, List.sum_cons, List.sum_nil]
    omega
  bounded := by
    have hlt := t.amount.toInt_lt
    rw [List.forall_mem_cons, List.forall_mem_singleton]
    omega

theorem map_fst_withLedger
    (h : ∀ p ∈ ps, ∃ l, b.ledgerAccounts.get (.id p.ledgerAccountID) = some l) :
    (ps.filterMap b.withLedger).map Prod.fst = ps := by
  induction ps with
  | nil => rfl
  | cons p ps ih =>
    rw [List.forall_mem_cons] at h
    obtain ⟨⟨l, hl⟩, hrest⟩ := h
    simp [withLedger, hl, ih hrest]

theorem balanced_of_validate (hledger : ∀ p ∈ b.postingsOf t.id, ∃ l,
      b.ledgerAccounts.get (.id p.ledgerAccountID) = some l)
    (hrow : b.bankingTransactions.get (.id t.id) = some t)
    (hstatus : t.status = .posted ∨ t.status = .reversed)
    (hvalid : validateBankingTransactionBalance b t.id = none) :
    b.Balanced t (b.postingsOf t.id) := by
  have hjoin := map_fst_withLedger hledger
  have hmem : ∀ p ∈ b.postingsOf t.id, ∀ l, b.ledgerAccounts.get (.id p.ledgerAccountID) = some l →
      (p, l) ∈ (b.postingsOf t.id).filterMap b.withLedger := by
    intro p hp l hl
    exact List.mem_filterMap.mpr ⟨p, hp, by simp [withLedger, hl]⟩
  simp only [validateBankingTransactionBalance, hrow, if_pos hstatus] at hvalid
  split_ifs at hvalid with hfit hbad
  generalize (b.postingsOf t.id).filterMap b.withLedger = joined at hjoin hmem hfit hbad
  have hamounts : joined.map (fun x => x.1.amount.toInt) =
      (b.postingsOf t.id).map fun p => p.amount.toInt := by
    rw [← hjoin, List.map_map]
    rfl
  simp only [hamounts, List.map_map, not_or, not_not, not_lt, ne_eq, List.length_eq_zero_iff,
    List.filter_eq_nil_iff, decide_eq_true_eq] at hfit hbad
  obtain ⟨hcount, htotal, hvolume, hcurrency⟩ := hbad
  refine ⟨?_, ?_, htotal, ?_, ?_⟩
  · rw [← hjoin, List.length_map]
    exact hcount
  · intro p hp
    obtain ⟨l, hl⟩ := hledger p hp
    exact ⟨l, hl, hcurrency (p, l) (hmem p hp l hl)⟩
  · rw [Int.mul_comm]
    exact hvolume
  · intro p hp
    have := hfit.2.1 _ (List.mem_map_of_mem hp)
    exact (fitsBigint_iff.mp this).2

theorem validate_of_balanced (h : b.Balanced t (b.postingsOf t.id))
    (hrow : b.bankingTransactions.get (.id t.id) = some t)
    (hstatus : t.status = .posted ∨ t.status = .reversed)
    (hfits : fitsBigint (t.amount.toInt * 2)) :
    validateBankingTransactionBalance b t.id = none := by
  have hjoin := map_fst_withLedger fun p hp => (h.ledger p hp).imp fun _ hl => hl.1
  have hcurrency : ∀ x ∈ (b.postingsOf t.id).filterMap b.withLedger, x.2.currency = t.currency := by
    intro x hx
    obtain ⟨p, hp, hl⟩ := List.mem_filterMap.mp hx
    obtain ⟨l, hget, hc⟩ := h.ledger p hp
    rw [withLedger, hget] at hl
    cases hl
    exact hc
  simp only [validateBankingTransactionBalance, hrow, if_pos hstatus]
  generalize (b.postingsOf t.id).filterMap b.withLedger = joined at hjoin hcurrency
  have hamounts : joined.map (fun x => x.1.amount.toInt) =
      (b.postingsOf t.id).map fun p => p.amount.toInt := by
    rw [← hjoin, List.map_map]
    rfl
  have hlength : 2 ≤ joined.length := by
    rw [← List.length_map (f := Prod.fst), hjoin]
    exact h.count
  have hvolume := h.volume
  rw [mul_comm] at hvolume
  have hbounded : ∀ x ∈ (b.postingsOf t.id).map fun p => (p.amount.toInt.natAbs : Int),
      fitsBigint x := by
    intro x hx
    obtain ⟨p, hp, rfl⟩ := List.mem_map.mp hx
    have hlt := h.bounded p hp
    rw [fitsBigint_iff]
    omega
  have hmatch : joined.filter (fun x => x.2.currency ≠ t.currency) = [] := by
    simpa [List.filter_eq_nil_iff] using hcurrency
  simp only [hamounts, List.map_map, Function.comp_def, h.total, hvolume, hmatch]
  rw [if_neg (not_not.mpr ⟨by decide, hbounded, hfits, hfits⟩), if_neg (by simp; omega)]

structure Booking (b : Books) (t : BankingTransaction) (ps : List LedgerPosting) (b' : Books) :
    Prop extends Posts b t ps b', Balanced b t ps

def DebitsActive (b : Books) (ps : List LedgerPosting) : Prop :=
  ∀ m ∈ b.moves ps, m.2 < 0 → ∃ a, b.accounts.get (.id m.1) = some a ∧ a.status = .active

end Books

/-- The posting of a transaction that `p` asks for. -/
def PostingParams.posting (t : BankingTransaction) (p : PostingParams) : LedgerPosting :=
  ⟨t.id, p.ledgerAccountID, p.amount, t.createdAt⟩

def BankingTransaction.asReversed (now : Timestamp) (t : BankingTransaction) : BankingTransaction :=
  { t with status := .reversed, reversedAt := some now }

/-- The posting of `t` that undoes another one. -/
def LedgerPosting.undo (t : BankingTransaction) (p : LedgerPosting) : LedgerPosting :=
  ⟨t.id, p.ledgerAccountID, -p.amount, t.createdAt⟩

namespace Books

structure Settles (b : Books) (t : BankingTransaction) (ps : List LedgerPosting) (b' : Books) :
    Prop where
  kind : t.transactionType = .deposit ∨ t.transactionType = .withdrawal
  noOriginal : t.reversalOf = none
  debits : b.DebitsActive ps
  transactions : b'.bankingTransactions = b.bankingTransactions.insert t

structure Transfers (b : Books) (t : BankingTransaction) (sender recipient : LedgerAccount)
    (ps : List LedgerPosting) (b' : Books) : Prop where
  kind : t.transactionType = .internalTransfer
  noOriginal : t.reversalOf = none
  debits : b.DebitsActive ps
  transactions : b'.bankingTransactions = b.bankingTransactions.insert t
  fromCustomer : ∃ a, b.ledgerAccounts.get (.customerAccountID a) = some sender
  toCustomer : ∃ a, b.ledgerAccounts.get (.customerAccountID a) = some recipient
  postings : ps = [PostingParams.posting t ⟨sender.id, -t.amount⟩,
    PostingParams.posting t ⟨recipient.id, t.amount⟩]
  limits : ∃ perTransferLimit dailyLimit,
    transferLimits t.currency = .ok (perTransferLimit, dailyLimit) ∧
    t.amount ≤ perTransferLimit ∧
    b.outgoingTransferTotal sender.id (startOfDay t.createdAt) + t.amount.toInt ≤ dailyLimit.toInt

structure Reverses (b : Books) (t original : BankingTransaction) (ps : List LedgerPosting)
    (b' : Books) : Prop where
  kind : t.transactionType = .reversal
  reversalOf : t.reversalOf = some original.id
  row : b.bankingTransactions.get (.id original.id) = some original
  wasPosted : original.status = .posted
  notReversal : original.transactionType ≠ .reversal
  currency : t.currency = original.currency
  amount : t.amount = original.amount
  postings : ps = (b.postingsOf original.id).map (LedgerPosting.undo t)
  transactions : ∃ time, b'.bankingTransactions =
    (b.bankingTransactions.insert t).update (original.asReversed time)

inductive Kind (b : Books) (t : BankingTransaction) (ps : List LedgerPosting) (b' : Books) : Prop
  | settlement (h : b.Settles t ps b')
  | transfer {sender recipient : LedgerAccount} (h : b.Transfers t sender recipient ps b')
  | reversal {original : BankingTransaction} (h : b.Reverses t original ps b')

structure Opens (b : Books) (a : Account) (l : LedgerAccount) : Prop where
  fresh : b.accounts.conflict a = none
  ledgerFresh : b.ledgerAccounts.conflict l = none
  owner : l.owner = .customer a.id
  currency : l.currency = a.currency
  empty : a.balance = 0

structure Restates (b : Books) (a a' : Account) : Prop where
  row : b.accounts.get (.id a.id) = some a
  keys : Relational.keys a' = Relational.keys a
  balance : a'.balance = a.balance
  wasOpen : a.status ≠ .closed
  closing : a'.status = .closed → a.balance = 0

/-- What one committed transaction can do to the books. -/
inductive Step (b : Books) : Books → Prop
  | quiet : Step b b
  | opens {a : Account} {l : LedgerAccount} (h : b.Opens a l) :
      Step b { b with
        accounts := b.accounts.insert a
        ledgerAccounts := b.ledgerAccounts.insert l }
  | restates {a a' : Account} (h : b.Restates a a') :
      Step b { b with accounts := b.accounts.update a' }
  | books {b' : Books} {t : BankingTransaction} {ps : List LedgerPosting}
      (booking : b.Booking t ps b') (kind : b.Kind t ps b') : Step b b'

variable {b b' : Books}

variable {t o : BankingTransaction} {k : BankingTransactionKey} {ps : List LedgerPosting}

theorem get_of_fresh (hfresh : b.bankingTransactions.conflict t = none)
    (ho : b.bankingTransactions.get k = some o) : k ∉ keys t := by
  intro hmem
  rw [Table.conflict_eq_none.mp hfresh _ hmem] at ho
  cases ho

theorem Reverses.get {original : BankingTransaction} (h : b.Reverses t original ps b')
    (hfresh : b.bankingTransactions.conflict t = none) :
    ∃ time, ∀ k, b'.bankingTransactions.get k =
      if k ∈ keys original then some (original.asReversed time)
      else if k ∈ keys t then some t else b.bankingTransactions.get k := by
  obtain ⟨time, htable⟩ := h.transactions
  refine ⟨time, fun k => ?_⟩
  have hkeys : keys (original.asReversed time) = keys original := rfl
  rw [htable, Table.get_update_insert hfresh h.row hkeys, hkeys]

theorem Step.bankingTransaction (h : b.Step b') (ho : b.bankingTransactions.get k = some o) :
    b'.bankingTransactions.get k = some o ∨
      (o.status = .posted ∧ ∃ time, b'.bankingTransactions.get k = some (o.asReversed time)) := by
  cases h with
  | quiet => exact Or.inl ho
  | opens h => exact Or.inl ho
  | restates h => exact Or.inl ho
  | books booking kind =>
    have hmem := get_of_fresh booking.fresh ho
    cases kind with
    | settlement h =>
      rw [h.transactions, Table.get_insert_of_notMem hmem]
      exact Or.inl ho
    | transfer h =>
      rw [h.transactions, Table.get_insert_of_notMem hmem]
      exact Or.inl ho
    | reversal h =>
      obtain ⟨time, hget⟩ := h.get booking.fresh
      rw [hget, if_neg hmem]
      split_ifs with hk
      · have heq := Table.get_eq_of_key h.row hk
        rw [ho] at heq
        cases heq
        exact Or.inr ⟨h.wasPosted, time, rfl⟩
      · exact Or.inl ho

theorem Step.outgoing_eq (h : b.Step b') (hwf : b.WellFormed) {p : LedgerPosting}
    (hp : p ∈ b.ledgerPostings.rows) (since : Timestamp) :
    b'.outgoing since p = b.outgoing since p := by
  obtain ⟨o, ho⟩ := hwf.transaction p hp
  rcases h.bankingTransaction ho with ho' | ⟨hposted, time, ho'⟩
  · simp only [outgoing, ho, ho']
  · simp [outgoing, ho, ho', hposted, BankingTransaction.asReversed]

theorem Step.ledgerAccount (h : b.Step b') {k : LedgerAccountKey} {l : LedgerAccount}
    (hl : b.ledgerAccounts.get k = some l) : b'.ledgerAccounts.get k = some l := by
  cases h with
  | quiet => exact hl
  | opens h => exact Table.get_insert_of_get h.ledgerFresh hl
  | restates h => exact hl
  | books booking _ => rwa [booking.ledgerAccounts]

theorem postingsOf_fresh (hwf : b.WellFormed) (hfresh : b.bankingTransactions.conflict t = none)
    (hrows : b'.ledgerPostings.rows = b.ledgerPostings.rows ++ ps)
    (hbelongs : ∀ p ∈ ps, p.transactionID = t.id) : b'.postingsOf t.id = ps := by
  have hold : b.ledgerPostings.rows.filter (fun p => p.transactionID = t.id) = [] := by
    rw [List.filter_eq_nil_iff]
    intro p hp hpid
    obtain ⟨o, ho⟩ := hwf.transaction p hp
    rw [of_decide_eq_true hpid] at ho
    exact get_of_fresh hfresh ho (Keyed.pk_mem t)
  have hnew : ps.filter (fun p => p.transactionID = t.id) = ps :=
    List.filter_eq_self.mpr fun p hp => decide_eq_true (hbelongs p hp)
  rw [postingsOf, hrows, List.filter_append, hold, hnew, List.nil_append]

theorem Booking.postingsOf_self (h : b.Booking t ps b') (hwf : b.WellFormed) :
    b'.postingsOf t.id = ps :=
  postingsOf_fresh hwf h.fresh h.postings h.belongs

theorem Step.postingsOf_eq (h : b.Step b') (ho : o ∈ b.bankingTransactions.rows) :
    b'.postingsOf o.id = b.postingsOf o.id := by
  cases h with
  | quiet => rfl
  | opens h => rfl
  | restates h => rfl
  | books booking kind =>
    rename_i t ps
    have hnone : ps.filter (fun p => p.transactionID = o.id) = [] := by
      rw [List.filter_eq_nil_iff]
      intro p hp hpid
      have hself : b.bankingTransactions.get (.id o.id) = some o := Table.get_pk ho
      apply get_of_fresh booking.fresh hself
      rw [← of_decide_eq_true hpid, booking.belongs p hp]
      exact Keyed.pk_mem t
    rw [postingsOf, booking.postings, List.filter_append, hnone, List.append_nil]
    rfl

theorem Step.mem_bankingTransactions (h : b.Step b') (ht : t ∈ b'.bankingTransactions.rows) :
    t ∈ b.bankingTransactions.rows ∨
      (∃ o ∈ b.bankingTransactions.rows, ∃ time r ps,
        t = o.asReversed time ∧ b.Booking r ps b' ∧ b.Reverses r o ps b') ∨
      ∃ ps, b.Booking t ps b' ∧ b.Kind t ps b' := by
  cases h with
  | quiet => exact Or.inl ht
  | opens h => exact Or.inl ht
  | restates h => exact Or.inl ht
  | books booking kind =>
    rename_i t₀ ps
    have hinsert : t ∈ (b.bankingTransactions.insert t₀).rows →
        t ∈ b.bankingTransactions.rows ∨ ∃ ps, b.Booking t ps b' ∧ b.Kind t ps b' := by
      intro hmem
      rw [Table.insert_rows booking.fresh, List.mem_append, List.mem_singleton] at hmem
      rcases hmem with hmem | rfl
      · exact Or.inl hmem
      · exact Or.inr ⟨ps, booking, kind⟩
    cases kind with
    | settlement h => exact (hinsert (h.transactions ▸ ht)).imp_right Or.inr
    | transfer h => exact (hinsert (h.transactions ▸ ht)).imp_right Or.inr
    | reversal h =>
      rename_i original
      obtain ⟨time, htable⟩ := h.transactions
      have hold : (b.bankingTransactions.insert t₀).get (pk (original.asReversed time)) =
          some original := Table.get_insert_of_get booking.fresh h.row
      rw [htable, Table.mem_update (Table.clash_of_same_keys hold rfl) hold] at ht
      rcases ht with rfl | ⟨hmem, _⟩
      · exact Or.inr (Or.inl
          ⟨original, Table.mem_of_get h.row, time, t₀, ps, rfl, booking, h⟩)
      · exact (hinsert hmem).imp_right Or.inr

theorem Kind.eq_of_new {t' : BankingTransaction} (h : b.Kind t ps b')
    (hfresh : b.bankingTransactions.conflict t = none) (ht' : t' ∈ b'.bankingTransactions.rows)
    (hnew : b.bankingTransactions.get (.id t'.id) = none) : t' = t := by
  have hget : b'.bankingTransactions.get (.id t'.id) = some t' := Table.get_pk ht'
  have hinsert : (b.bankingTransactions.insert t).get (.id t'.id) = some t' → t' = t := by
    intro hget
    rw [Table.get_insert hfresh, hnew] at hget
    split_ifs at hget
    exact (Option.some.inj hget).symm
  cases h with
  | settlement h => exact hinsert (h.transactions ▸ hget)
  | transfer h => exact hinsert (h.transactions ▸ hget)
  | reversal h =>
    obtain ⟨time, hall⟩ := h.get hfresh
    rw [hall, hnew] at hget
    split_ifs at hget with hk
    · rw [Table.get_eq_of_key h.row hk] at hnew
      cases hnew
    · exact (Option.some.inj hget).symm

theorem Kind.mem_self (h : b.Kind t ps b') (hfresh : b.bankingTransactions.conflict t = none) :
    t ∈ b'.bankingTransactions.rows := by
  have hself : BankingTransactionKey.id t.id ∈ keys t := Keyed.pk_mem t
  have hinsert := Table.get_insert_self hfresh hself
  cases h with
  | settlement h => exact Table.mem_of_get (h.transactions ▸ hinsert)
  | transfer h => exact Table.mem_of_get (h.transactions ▸ hinsert)
  | reversal h =>
    obtain ⟨time, hall⟩ := h.get hfresh
    apply Table.mem_of_get (k := .id t.id)
    rw [hall, if_neg, if_pos hself]
    intro hk
    exact get_of_fresh hfresh (Table.get_eq_of_key h.row hk) hself

/-- A sum over the transactions grows by the one that is booked, if marking a
transaction as reversed makes no difference to it. -/
theorem Kind.sum_rows {f : BankingTransaction → Int} (h : b.Kind t ps b')
    (hfresh : b.bankingTransactions.conflict t = none)
    (hf : ∀ o time, f (BankingTransaction.asReversed time o) = f o) :
    (b'.bankingTransactions.rows.map f).sum = (b.bankingTransactions.rows.map f).sum + f t := by
  have hinsert : ((b.bankingTransactions.insert t).rows.map f).sum =
      (b.bankingTransactions.rows.map f).sum + f t := by
    simp [Table.insert_rows hfresh]
  cases h with
  | settlement h => rw [h.transactions, hinsert]
  | transfer h => rw [h.transactions, hinsert]
  | reversal h =>
    rename_i original
    obtain ⟨time, htable⟩ := h.transactions
    have hold : (b.bankingTransactions.insert t).get (pk (original.asReversed time)) =
        some original := Table.get_insert_of_get hfresh h.row
    have hsame : Table.Pointwise (fun o o' => f o' = f o) (b.bankingTransactions.insert t)
        b'.bankingTransactions := by
      rw [htable]
      exact Table.pointwise_update hold rfl (hf original time) fun _ _ _ => rfl
    rw [hsame.map_eq fun _ _ heq => heq, hinsert]

end Books

end Monierave
