import Monierave.Banking.Balances
import Monierave.Queries.History

/-! # The running balance of the account history

The history orders the transactions of an account by the time they were created,
which is when their database transaction began.
-/

namespace Monierave

open Relational Accounting

namespace Books

variable {b b' : Books} {id : Int64} {k : Int ×ₗ Nat}

/-- What a posting adds to the sum up to `k`. -/
def upTo (b : Books) (k : Int ×ₗ Nat) (p : LedgerPosting) : Int :=
  match b.bankingTransactions.get (.id p.transactionID) with
  | none => 0
  | some t => if t.historyKey ≤ k then p.amount.toInt else 0

variable {t : BankingTransaction} {p : LedgerPosting} {o : Account}

theorem balanceUpTo_eq (b : Books) (id : Int64) (k : Int ×ₗ Nat) :
    b.balanceUpTo id k = ((b.postingsOn id).map (b.upTo k)).sum := by
  rw [balanceUpTo, activity]
  induction b.postingsOn id with
  | nil => rfl
  | cons p ps ih =>
    cases ht : b.bankingTransactions.get (.id p.transactionID) with
    | none => simpa [withTransaction, upTo, ht] using ih
    | some t =>
      have hcons : (p :: ps).filterMap b.withTransaction =
          ⟨p, t⟩ :: ps.filterMap b.withTransaction := by simp [withTransaction, ht]
      rw [hcons, sumUpTo_cons, ih, List.map_cons, List.sum_cons]
      by_cases hle : t.historyKey ≤ k
      · simp [upTo, ht, hle, Activity.key, Activity.signedAmount]
      · simp [upTo, ht, hle, Activity.key]

theorem balanceUpTo_eq_ledgerSum
    (h : ∀ p ∈ b.postingsOn id, ∃ t, b.bankingTransactions.get (.id p.transactionID) = some t ∧
      t.historyKey ≤ k) : b.balanceUpTo id k = b.ledgerSum id := by
  rw [balanceUpTo_eq, ledgerSum, groupSum]
  congr 1
  apply List.map_congr_left
  intro p hp
  obtain ⟨t, ht, hle⟩ := h p hp
  simp [upTo, ht, hle]

theorem Step.historyKey (hstep : b.Step b') {j : UUID}
    (ht : b.bankingTransactions.get (.id j) = some t) :
    ∃ t', b'.bankingTransactions.get (.id j) = some t' ∧ t'.historyKey = t.historyKey := by
  rcases hstep.bankingTransaction ht with ht' | ⟨_, time, ht'⟩
  · exact ⟨t, ht', rfl⟩
  · exact ⟨_, ht', rfl⟩

theorem Step.upTo_eq (hstep : b.Step b') (hwf : b.WellFormed) (hp : p ∈ b.ledgerPostings.rows) :
    b'.upTo k p = b.upTo k p := by
  obtain ⟨t, ht⟩ := hwf.transaction p hp
  obtain ⟨t', ht', hkey⟩ := hstep.historyKey ht
  simp only [upTo, ht, ht', hkey]

theorem Step.postings (hstep : b.Step b') :
    ∃ ps, b'.ledgerPostings.rows = b.ledgerPostings.rows ++ ps ∧
      ∀ p ∈ ps, b.bankingTransactions.get (.id p.transactionID) = none ∧
        ∃ t, b'.bankingTransactions.get (.id p.transactionID) = some t := by
  cases hstep with
  | quiet => exact ⟨[], by simp, by simp⟩
  | opens _ => exact ⟨[], by simp, by simp⟩
  | restates _ => exact ⟨[], by simp, by simp⟩
  | books booking kind =>
    rename_i t ps
    refine ⟨ps, booking.postings, fun p hp => ?_⟩
    have hself : b'.bankingTransactions.get (.id t.id) = some t :=
      Table.get_pk (kind.mem_self booking.fresh)
    rw [booking.belongs p hp]
    exact ⟨Table.conflict_eq_none.mp booking.fresh _ (Keyed.pk_mem t), t, hself⟩

theorem Step.eq_of_new (hstep : b.Step b') {t' : BankingTransaction}
    (ht : t ∈ b'.bankingTransactions.rows) (hnew : b.bankingTransactions.get (.id t.id) = none)
    (ht' : t' ∈ b'.bankingTransactions.rows)
    (hnew' : b.bankingTransactions.get (.id t'.id) = none) : t = t' := by
  have habsurd : ∀ {t₀}, t₀ ∈ b.bankingTransactions.rows →
      b.bankingTransactions.get (.id t₀.id) ≠ none := by
    intro t₀ ht₀ hnone
    have hself : b.bankingTransactions.get (.id t₀.id) = some t₀ := Table.get_pk ht₀
    rw [hself] at hnone
    cases hnone
  cases hstep with
  | quiet => exact absurd hnew (habsurd ht)
  | opens _ => exact absurd hnew (habsurd ht)
  | restates _ => exact absurd hnew (habsurd ht)
  | books booking kind =>
    rw [kind.eq_of_new booking.fresh ht hnew, kind.eq_of_new booking.fresh ht' hnew']

def Touches (b : Books) (t : BankingTransaction) (ledgerAccountID : Int64) : Prop :=
  ∃ p ∈ b.postingsOf t.id, p.ledgerAccountID = ledgerAccountID

instance (b : Books) (t : BankingTransaction) (id : Int64) : Decidable (b.Touches t id) :=
  inferInstanceAs (Decidable (∃ p ∈ b.postingsOf t.id, p.ledgerAccountID = id))

/-- The transactions a step adds come later in the history than those that were
there on the same customer account. -/
def Chronological (b b' : Books) : Prop :=
  ∀ t ∈ b'.bankingTransactions.rows, b.bankingTransactions.get (.id t.id) = none →
    ∀ t' ∈ b.bankingTransactions.rows, ∀ l ∈ b'.ledgerAccounts.rows, l.customerAccountID ≠ none →
      b'.Touches t l.id → b.Touches t' l.id → t'.historyKey < t.historyKey

instance (b b' : Books) : Decidable (b.Chronological b') :=
  inferInstanceAs (Decidable (∀ t ∈ b'.bankingTransactions.rows,
    b.bankingTransactions.get (.id t.id) = none →
      ∀ t' ∈ b.bankingTransactions.rows, ∀ l ∈ b'.ledgerAccounts.rows, l.customerAccountID ≠ none →
        b'.Touches t l.id → b.Touches t' l.id → t'.historyKey < t.historyKey))

variable {l : LedgerAccount} {a : Int64}

theorem customerAccountID_of_get (hl : b.ledgerAccounts.get (.customerAccountID a) = some l) :
    l.customerAccountID ≠ none := by
  simp [LedgerAccount.customerAccountID, owner_of_get hl]

theorem mem_postingsOn :
    p ∈ b.postingsOn id ↔ p ∈ b.ledgerPostings.rows ∧ p.ledgerAccountID = id := by
  simp [postingsOn]

theorem touches_of_mem (hp : p ∈ b.ledgerPostings.rows) (hid : p.transactionID = t.id) :
    b.Touches t p.ledgerAccountID :=
  ⟨p, by simpa [postingsOf] using ⟨hp, hid⟩, rfl⟩

theorem Step.touches (hstep : b.Step b') (h : b.Touches t id) : b'.Touches t id := by
  obtain ⟨p, hp, hon⟩ := h
  obtain ⟨hmem, hid⟩ : p ∈ b.ledgerPostings.rows ∧ p.transactionID = t.id := by
    simpa [postingsOf] using hp
  subst hon
  refine touches_of_mem ?_ hid
  cases hstep with
  | quiet => exact hmem
  | opens _ => exact hmem
  | restates _ => exact hmem
  | books booking _ =>
    rw [booking.postings]
    exact List.mem_append_left _ hmem

theorem balanceUpTo_commit (hstep : b.Step b') (hwf : b.WellFormed) (hchron : b.Chronological b')
    (ht : t ∈ b'.bankingTransactions.rows) (hnew : b.bankingTransactions.get (.id t.id) = none)
    (hl : b'.ledgerAccounts.get (.customerAccountID a) = some l) (htouches : b'.Touches t l.id) :
    b'.balanceUpTo l.id t.historyKey = b'.ledgerSum l.id := by
  apply balanceUpTo_eq_ledgerSum
  intro p hp
  obtain ⟨hp', hon⟩ := mem_postingsOn.mp hp
  obtain ⟨ps, hrows, hps⟩ := hstep.postings
  rw [hrows, List.mem_append] at hp'
  rcases hp' with hold | hadded
  · -- a posting that was there belongs to an earlier transaction
    obtain ⟨t', ht'⟩ := hwf.transaction p hold
    obtain ⟨t'', ht'', hkey⟩ := hstep.historyKey ht'
    have htouches' : b.Touches t' l.id :=
      hon ▸ touches_of_mem hold (transaction_id_of_get ht').symm
    refine ⟨t'', ht'', ?_⟩
    rw [hkey]
    exact (hchron t ht hnew t' (Table.mem_of_get ht') l (Table.mem_of_get hl)
      (customerAccountID_of_get hl) htouches htouches').le
  · -- one that was added belongs to the transaction that was added
    obtain ⟨hfresh, t', ht'⟩ := hps p hadded
    rw [← transaction_id_of_get ht'] at hfresh
    have hsame := hstep.eq_of_new ht hnew (Table.mem_of_get ht') hfresh
    exact ⟨t', ht', hsame ▸ le_rfl⟩

theorem balanceUpTo_later (hstep : b.Step b') (hwf : b.WellFormed) (hchron : b.Chronological b')
    (ht : t ∈ b.bankingTransactions.rows)
    (hl : b.ledgerAccounts.get (.customerAccountID a) = some l) (htouches : b.Touches t l.id) :
    b'.balanceUpTo l.id t.historyKey = b.balanceUpTo l.id t.historyKey := by
  obtain ⟨ps, hrows, hps⟩ := hstep.postings
  have hsplit : b'.postingsOn l.id =
      b.postingsOn l.id ++ ps.filter fun p => p.ledgerAccountID = l.id := by
    rw [postingsOn, hrows, List.filter_append]
    rfl
  have hold : (b.postingsOn l.id).map (b'.upTo t.historyKey) =
      (b.postingsOn l.id).map (b.upTo t.historyKey) :=
    List.map_congr_left fun p hp => hstep.upTo_eq hwf (mem_postingsOn.mp hp).1
  have hadded : ((ps.filter fun p => p.ledgerAccountID = l.id).map
      (b'.upTo t.historyKey)).sum = 0 := by
    apply List.sum_eq_zero
    intro x hx
    obtain ⟨p, hp, rfl⟩ := List.mem_map.mp hx
    obtain ⟨hmem, hon⟩ := List.mem_filter.mp hp
    obtain ⟨hfresh, t', ht'⟩ := hps p hmem
    have hid := transaction_id_of_get ht'
    rw [← hid] at hfresh
    have hin : p ∈ b'.ledgerPostings.rows := hrows ▸ List.mem_append_right _ hmem
    have htouches' : b'.Touches t' l.id :=
      of_decide_eq_true hon ▸ touches_of_mem hin hid.symm
    have hlt := hchron t' (Table.mem_of_get ht') hfresh t ht l
      (Table.mem_of_get (hstep.ledgerAccount hl)) (customerAccountID_of_get hl) htouches' htouches
    simp [upTo, ht', not_le.mpr hlt]
  rw [balanceUpTo_eq, balanceUpTo_eq, hsplit, List.map_append, List.sum_append, hold, hadded,
    add_zero]

/-- What the history says of a transaction on the account `a`. -/
structure Recounts (b : Books) (t : BankingTransaction) (a : Int64) (l : LedgerAccount) (x : Int) :
    Prop where
  row : ∃ t', b.bankingTransactions.get (.id t.id) = some t' ∧ t'.historyKey = t.historyKey
  ledger : b.ledgerAccounts.get (.customerAccountID a) = some l
  touches : b.Touches t l.id
  balance : b.balanceUpTo l.id t.historyKey = x

theorem Step.recounts (hstep : b.Step b') (hwf : b.WellFormed) (hchron : b.Chronological b')
    {x : Int} (h : b.Recounts t a l x) : b'.Recounts t a l x := by
  obtain ⟨t', ht', hkey⟩ := h.row
  obtain ⟨t'', ht'', hkey'⟩ := hstep.historyKey ht'
  have hid := transaction_id_of_get ht'
  have htouches : b.Touches t' l.id := by
    rw [Touches, hid]
    exact h.touches
  have hlater := balanceUpTo_later hstep hwf hchron (Table.mem_of_get ht') h.ledger htouches
  refine ⟨⟨t'', ht'', hkey'.trans hkey⟩, hstep.ledgerAccount h.ledger, hstep.touches h.touches, ?_⟩
  rw [← hkey, hlater, hkey]
  exact h.balance

theorem Step.account (hstep : b.Step b') {j : AccountKey} (ho : b.accounts.get j = some o) :
    ∃ o', b'.accounts.get j = some o' ∧ keys o' = keys o := by
  cases hstep with
  | quiet => exact ⟨o, ho, rfl⟩
  | opens h => exact ⟨o, Table.get_insert_of_get h.fresh ho, rfl⟩
  | restates h =>
    obtain ⟨o', ho', hrel⟩ := h.pointwise.get (fun _ _ hrel => hrel.keys) ho
    exact ⟨o', ho', hrel.keys⟩
  | books booking _ =>
    obtain ⟨o', ho', hrel⟩ := booking.credits.get ho
    exact ⟨o', ho', hrel.keys⟩

/-- The transaction `t` is there and has the postings `ps`. -/
def HasPostings (b : Books) (t : BankingTransaction) (ps : List LedgerPosting) : Prop :=
  (∃ t', b.bankingTransactions.get (.id t.id) = some t') ∧ b.postingsOf t.id = ps

theorem Step.hasPostings (hstep : b.Step b') {ps : List LedgerPosting} (h : b.HasPostings t ps) :
    b'.HasPostings t ps := by
  obtain ⟨⟨t', ht'⟩, hps⟩ := h
  obtain ⟨t'', ht'', _⟩ := hstep.historyKey ht'
  refine ⟨⟨t'', ht''⟩, ?_⟩
  rw [← transaction_id_of_get ht', hstep.postingsOf_eq (Table.mem_of_get ht'),
    transaction_id_of_get ht', hps]

/-- The account `o` and its ledger account `l` can be found. -/
def HasAccount (b : Books) (o : Account) (l : LedgerAccount) : Prop :=
  (∃ o', b.accounts.get (.publicID o.publicID) = some o' ∧ keys o' = keys o) ∧
    b.ledgerAccounts.get (.customerAccountID o.id) = some l

theorem Step.hasAccount (hstep : b.Step b') (h : b.HasAccount o l) : b'.HasAccount o l := by
  obtain ⟨⟨o', ho', hkeys⟩, hl⟩ := h
  obtain ⟨o'', ho'', hkeys'⟩ := hstep.account ho'
  exact ⟨⟨o'', ho'', hkeys'.trans hkeys⟩, hstep.ledgerAccount hl⟩

end Books

variable {i : Nat}

theorem targetLedger_eq {db : DB} {o : Account} {l l' : LedgerAccount} {username : String}
    (h : db.HasAccount o l) (hl' : db.targetLedger (some o.publicID) username = some l') :
    l' = l := by
  obtain ⟨⟨o', ho', hkeys⟩, hl⟩ := h
  obtain ⟨a, ha, hget⟩ := Option.bind_eq_some_iff.mp hl'
  have ha' : db.accounts.get (.publicID o.publicID) = some a := (Option.filter_eq_some_iff.mp ha).1
  rw [ho'] at ha'
  cases ha'
  rw [(Account.keys_eq_iff.mp hkeys).1, hl] at hget
  exact (Option.some.inj hget).symm

/-- Every action of the run commits later in the history than what came before it
on the same customer account, if it commits anything. -/
def ChronologicalRun (users : Table User) (acts : List BankingAction) : Prop :=
  ∀ i < acts.length, (bankingRun users (acts.take i)).db.Chronological
    (bankingRun users (acts.take (i + 1))).db.toBooks

instance (users : Table User) (acts : List BankingAction) :
    Decidable (ChronologicalRun users acts) :=
  inferInstanceAs (Decidable (∀ i < acts.length, (bankingRun users (acts.take i)).db.Chronological
    (bankingRun users (acts.take (i + 1))).db.toBooks))

/-- The running balance the history reports for a transaction of the account `a`
is what the account held when the transaction committed, and not negative. -/
def HistoryTellsBalances (users : Table User) (acts : List BankingAction) : Prop :=
  ∀ i < acts.length,
    let b := (bankingRun users (acts.take i)).db
    let b' := (bankingRun users (acts.take (i + 1))).db
    ∀ t ∈ b'.bankingTransactions.rows, b.bankingTransactions.get (.id t.id) = none →
      ∀ a ∈ b'.accounts.rows, ∀ arg rows, arg.accountPublicID = some a.publicID →
        listOwnedAccountTransactions arg (bankingRun users acts).db = .ok rows →
          ∀ row ∈ rows, row.id = t.id → row.balanceAfter = a.balance ∧ 0 ≤ row.balanceAfter

variable {users : Table User} {acts : List BankingAction}

theorem bankingRun_step_take (hi : i < acts.length) :
    (bankingRun users (acts.take i)).db.toBooks.Step
      (bankingRun users (acts.take (i + 1))).db.toBooks := by
  rw [List.take_succ_eq_append_getElem hi]
  exact bankingRun_step users _ _

theorem bankingRun_from {P : Books → Prop} (hi : i ≤ acts.length)
    (h : P (bankingRun users (acts.take i)).db.toBooks)
    (hstep : ∀ j < acts.length, P (bankingRun users (acts.take j)).db.toBooks →
      P (bankingRun users (acts.take (j + 1))).db.toBooks) :
    P (bankingRun users acts).db.toBooks := by
  have hall : ∀ n, i + n ≤ acts.length → P (bankingRun users (acts.take (i + n))).db.toBooks := by
    intro n
    induction n with
    | zero => exact fun _ => h
    | succ n ih => exact fun hn => hstep (i + n) (by omega) (ih (by omega))
  have hend := hall (acts.length - i) (by omega)
  rwa [Nat.add_sub_cancel' hi, List.take_length] at hend

/-- In a run whose commits come in the order of the history, the history tells
the balances as they were. -/
theorem bankingRun_historyTellsBalances (users : Table User) (acts : List BankingAction)
    (h : ChronologicalRun users acts) : HistoryTellsBalances users acts := by
  intro i hi b b' t ht hnew a ha arg rows hpublic hrows row hrow hid
  obtain ⟨l, hl, _⟩ := (bankingRun_owned users (acts.take (i + 1))).ledger a ha
  obtain ⟨l', x, htarget, hx, rfl, hfit⟩ := mem_listOwnedAccountTransactions hrows hrow
  obtain ⟨hposting, hon, htransaction⟩ := Books.mem_activity.mp hx
  -- the query looks at the ledger account of `a`
  have hself : b'.accounts.get (.publicID a.publicID) = some a :=
    Table.get_key ha (by simp [keys])
  have haccount : b'.HasAccount a l := ⟨⟨a, hself, rfl⟩, hl⟩
  rw [hpublic] at htarget
  obtain rfl := targetLedger_eq (bankingRun_from (P := (Books.HasAccount · a l)) hi haccount
    fun j hj h => (bankingRun_step_take hj).hasAccount h) htarget
  -- and the posting it finds was made when `t` was committed
  have hself' : b'.bankingTransactions.get (.id t.id) = some t := Table.get_pk ht
  have hxid : x.posting.transactionID = t.id :=
    (Books.transaction_id_of_get htransaction).symm.trans hid
  have hpostings := (bankingRun_from (P := (Books.HasPostings · t (b'.postingsOf t.id))) hi
    ⟨⟨t, hself'⟩, rfl⟩ fun j hj h => (bankingRun_step_take hj).hasPostings h).2
  have htouches : b'.Touches t l'.id := by
    refine ⟨x.posting, ?_, hon⟩
    rw [← hpostings]
    exact List.mem_filter.mpr ⟨hposting, decide_eq_true hxid⟩
  have hcommit := Books.balanceUpTo_commit (bankingRun_step_take hi)
    (bankingRun_wellFormed users _) (h i hi) ht hnew hl htouches
  have hlater := bankingRun_from (P := (Books.Recounts · t a.id l' (b'.ledgerSum l'.id))) hi
    ⟨⟨t, hself', rfl⟩, hl, htouches, hcommit⟩ fun j hj hrec =>
      (bankingRun_step_take hj).recounts (bankingRun_wellFormed users _) (h j hj) hrec
  have hkey : x.key = t.historyKey := by
    obtain ⟨t', ht', hkey⟩ := hlater.row
    rw [hxid, ht'] at htransaction
    cases htransaction
    exact hkey
  have hreconciled := bankingRun_reconciled users (acts.take (i + 1))
  have hbalance := Books.toInt_balanceAfter hfit
  rw [hkey, hlater.balance, ← hreconciled.balance a ha l' hl] at hbalance
  rw [Int64.toInt_inj.mp hbalance]
  exact ⟨rfl, hreconciled.nonneg a ha⟩

def depositThenWithdrawal : List BankingAction :=
  openAccounts ++ uninterrupted 2 (depositForAlice 50 (.drawing 1 3)) ++
    uninterrupted 3 (withdrawalOfAlice 50 (.drawing 2 4))

theorem bankingRun_historyTellsBalances_depositThenWithdrawal :
    (bankingRun twoCustomers depositThenWithdrawal).db.bankingTransactions.rows.length = 2 ∧
      HistoryTellsBalances twoCustomers depositThenWithdrawal :=
  ⟨by decide +kernel, bankingRun_historyTellsBalances _ _ (by decide +kernel)⟩

def historyOfAlice : ListOwnedAccountTransactionsParams where
  accountPublicID := some 100
  username := "alice"
  fromTime := none
  toTime := none
  transactionType := none
  transactionStatus := none
  direction := none
  cursorCreatedAt := none
  cursorID := none
  pageLimit := 21

/-- A withdrawal that waits for a deposit is created before it and commits after
it: its running balance is reported as -50, when the account was empty. -/
theorem overtakenWithdrawal_misreported :
    let i := overtakenWithdrawal.length - 1
    let b := (bankingRun twoCustomers (overtakenWithdrawal.take i)).db
    let b' := (bankingRun twoCustomers (overtakenWithdrawal.take (i + 1))).db
    ∃ t ∈ b'.bankingTransactions.rows, b.bankingTransactions.get (.id t.id) = none ∧
      ∃ a ∈ b'.accounts.rows, historyOfAlice.accountPublicID = some a.publicID ∧ a.balance = 0 ∧
        ∃ row ∈ ((listOwnedAccountTransactions historyOfAlice
            (bankingRun twoCustomers overtakenWithdrawal).db).toOption.getD []),
          row.id = t.id ∧ row.balanceAfter = -50 := by
  decide +kernel

theorem not_historyTellsBalances_overtakenWithdrawal :
    ¬ HistoryTellsBalances twoCustomers overtakenWithdrawal := by
  intro h
  obtain ⟨t, ht, hnew, a, ha, hpublic, hzero, row, hrow, hid, hnegative⟩ :=
    overtakenWithdrawal_misreported
  have hlength : overtakenWithdrawal.length - 1 < overtakenWithdrawal.length := by decide +kernel
  cases hrows : listOwnedAccountTransactions historyOfAlice
      (bankingRun twoCustomers overtakenWithdrawal).db with
  | error e =>
      rw [hrows] at hrow
      cases hrow
  | ok rows =>
      rw [hrows] at hrow
      have hreport := h _ hlength t ht hnew a ha historyOfAlice rows hpublic hrows row hrow hid
      rw [hnegative] at hreport
      exact absurd hreport.2 (by decide)

end Monierave
