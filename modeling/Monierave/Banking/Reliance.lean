import Monierave.Banking.Transfers
import Monierave.ReadCommitted.Discipline

/-! # What a banking transaction can rely on

A banking transaction holds the rows it locked or wrote.
-/

namespace Monierave

open Relational ReadCommitted

namespace LockKey

/-- The keys of notifications. Nothing is ever read from these rows, their keys
only have to be free. -/
def isNotification : LockKey → Bool
  | emailJob _ => true
  | outboxEvent _ => true
  | _ => false

end LockKey

def Write.isNotification : Write → Bool
  | insertEmailJob _ => true
  | updateEmailJob _ _ => true
  | insertOutboxEvent _ => true
  | _ => false

namespace Books

structure WellFormed (b : Books) : Prop where
  ledgerAccount : ∀ p ∈ b.ledgerPostings.rows,
    ∃ l, b.ledgerAccounts.get (.id p.ledgerAccountID) = some l
  transaction : ∀ p ∈ b.ledgerPostings.rows,
    ∃ t, b.bankingTransactions.get (.id p.transactionID) = some t

theorem WellFormed.postingsOn_eq_nil {b : Books} (h : b.WellFormed) {id : Int64}
    (hid : b.ledgerAccounts.get (.id id) = none) : b.postingsOn id = [] := by
  rw [postingsOn, List.filter_eq_nil_iff]
  intro p hp hpid
  obtain ⟨l, hl⟩ := h.ledgerAccount p hp
  rw [of_decide_eq_true hpid, hid] at hl
  cases hl

end Books

/-- The writes of the banking operations where they may be made. An account keeps
its entries, and new rows are new. -/
def Write.valid : Write → DB → Prop
  | insertUser _, _ => False
  | updateUser _ _, _ => False
  | updateAccount o r, _ => Relational.keys r = Relational.keys o
  | insertLedgerAccount r, db => db.ledgerAccounts.conflict r = none
  | insertLedgerPosting r, db => db.ledgerPostings.conflict r = none ∧
      (∃ l, db.ledgerAccounts.get (.id r.ledgerAccountID) = some l) ∧
      ∃ t, db.bankingTransactions.get (.id r.transactionID) = some t
  | insertEmailJob r, db => db.emailJobs.conflict r = none
  | updateEmailJob _ _, _ => False
  | insertOutboxEvent r, db => db.outboxEvents.conflict r = none
  | _, _ => True

namespace DB

section Lasting

variable {w : Write} {db : DB}

theorem account_apply (hv : w.valid db) {k : AccountKey} {a : Account}
    (h : db.accounts.get k = some a) :
    ∃ a', (w.apply db).accounts.get k = some a' ∧ a'.id = a.id := by
  cases w with
  | insertAccount r =>
    by_cases hc : db.accounts.conflict r = none
    · refine ⟨a, ?_, rfl⟩
      have hk : k ∉ keys r := by
        intro hk
        rw [Table.conflict_eq_none.mp hc k hk] at h
        cases h
      simpa only [Write.apply, Table.get_insert_of_notMem hk] using h
    · exact ⟨a, by simpa only [Write.apply, Table.insert_of_conflict hc] using h, rfl⟩
  | updateAccount o r =>
    by_cases ho : db.accounts.get (pk r) = some o
    · simp only [Write.apply, Table.amend_eq ho, Table.get_update_same_keys ho hv.symm]
      by_cases hk : k ∈ keys r
      · rw [if_pos hk]
        refine ⟨r, rfl, ?_⟩
        have ha : a = o := by
          have := Table.get_key (Table.mem_of_get ho) (hv ▸ hk)
          rw [this] at h
          cases h
          rfl
        subst ha
        have hp := Table.pk_of_get ho
        injection hp with hp
        exact hp.symm
      · rw [if_neg hk]
        exact ⟨a, h, rfl⟩
    · exact ⟨a, by simpa only [Write.apply, Table.amend, if_neg ho] using h, rfl⟩
  | _ => exact ⟨a, h, rfl⟩

theorem ledgerAccount_apply (hv : w.valid db) {k : LedgerAccountKey} {l : LedgerAccount}
    (h : db.ledgerAccounts.get k = some l) : (w.apply db).ledgerAccounts.get k = some l := by
  cases w with
  | insertLedgerAccount r =>
    have hk : k ∉ keys r := by
      intro hk
      rw [Table.conflict_eq_none.mp hv k hk] at h
      cases h
    simpa only [Write.apply, Table.get_insert_of_notMem hk] using h
  | _ => exact h

theorem user_apply (hv : w.valid db) {k : UserKey} : (w.apply db).users.get k = db.users.get k := by
  cases w with
  | insertUser r => cases hv
  | updateUser o r => cases hv
  | _ => rfl

theorem bankingTransaction_apply {id : UUID} {t : BankingTransaction}
    (h : db.bankingTransactions.get (.id id) = some t) :
    ∃ t', (w.apply db).bankingTransactions.get (.id id) = some t' := by
  cases w with
  | insertBankingTransaction r =>
    refine ⟨t, ?_⟩
    by_cases hc : db.bankingTransactions.conflict r = none
    · have hk : BankingTransactionKey.id id ∉ keys r := by
        intro hk
        rw [Table.conflict_eq_none.mp hc _ hk] at h
        cases h
      simpa only [Write.apply, Table.get_insert_of_notMem hk] using h
    · simpa only [Write.apply, Table.insert_of_conflict hc] using h
  | updateBankingTransaction o r =>
    by_cases ho : db.bankingTransactions.get (pk r) = some o
    · by_cases hc : db.bankingTransactions.clash r = none
      · simp only [Write.apply, Table.amend_eq ho, Table.get_update hc ho]
        by_cases hk : BankingTransactionKey.id id ∈ keys r
        · exact ⟨r, if_pos hk⟩
        · rw [if_neg hk, if_neg]
          · exact ⟨t, h⟩
          · intro hko
            have hid : o.id = id := by simpa [keys, eq_comm] using hko
            have hp := Table.pk_of_get ho
            injection hp with hp
            exact hk (by simp [keys, ← hid, hp])
      · exact ⟨t, by simpa only [Write.apply, Table.amend_eq ho, Table.update_of_clash hc]
          using h⟩
    · exact ⟨t, by simpa only [Write.apply, Table.amend, if_neg ho] using h⟩
  | _ => exact ⟨t, h⟩

theorem ledgerPostings_apply (hv : w.valid db) {p : LedgerPosting}
    (hp : p ∈ (w.apply db).ledgerPostings.rows) :
    p ∈ db.ledgerPostings.rows ∨ w = .insertLedgerPosting p := by
  cases w with
  | insertLedgerPosting r =>
    simp only [Write.apply, Table.insert_rows hv.1, List.mem_append, List.mem_singleton] at hp
    rcases hp with hp | rfl
    · exact Or.inl hp
    · exact Or.inr rfl
  | _ => exact Or.inl hp

theorem wellFormed_apply (hwf : db.WellFormed) (hv : w.valid db) : (w.apply db).WellFormed where
  ledgerAccount := by
    intro p hp
    rcases ledgerPostings_apply hv hp with hp | rfl
    · obtain ⟨l, hl⟩ := hwf.ledgerAccount p hp
      exact ⟨l, ledgerAccount_apply hv hl⟩
    · exact hv.2.1
  transaction := by
    intro p hp
    rcases ledgerPostings_apply hv hp with hp | rfl
    · obtain ⟨t, ht⟩ := hwf.transaction p hp
      exact bankingTransaction_apply ht
    · exact hv.2.2

end Lasting

/-- `db'` agrees with `db` as far as a transaction that holds the keys `H` can
rely on. -/
structure Stable (H : LockKey → Prop) (db db' : DB) : Prop where
  entry : ∀ k, H k → k.isNotification = false → db.entry k = db'.entry k
  unused : ∀ k, H k → k.isNotification = true → db.entry k = none → db'.entry k = none
  postings : ∀ t, H (.bankingTransaction (.id t)) → db.postingsOf t = db'.postingsOf t
  activity : ∀ a l, H (.account (.id a)) →
    db.ledgerAccounts.get (.customerAccountID a) = some l →
      db.postingsOn l.id = db'.postingsOn l.id ∧
      ∀ p ∈ db.postingsOn l.id, ∀ since, db.outgoing since p = db'.outgoing since p
  account : ∀ k a, db.accounts.get k = some a →
    ∃ a', db'.accounts.get k = some a' ∧ a'.id = a.id
  ledgerAccount : ∀ k l, db.ledgerAccounts.get k = some l → db'.ledgerAccounts.get k = some l
  user : ∀ k u, db.users.get k = some u → db'.users.get k = some u

namespace Stable

variable {H : LockKey → Prop} {db db' : DB}

theorem getAccount (h : Stable H db db') {k : AccountKey} (hk : H (.account k)) :
    db.accounts.get k = db'.accounts.get k := entry_account.mp (h.entry _ hk rfl)

theorem getLedgerAccount (h : Stable H db db') {k : LedgerAccountKey}
    (hk : H (.ledgerAccount k)) : db.ledgerAccounts.get k = db'.ledgerAccounts.get k :=
  entry_ledgerAccount.mp (h.entry _ hk rfl)

theorem getBankingTransaction (h : Stable H db db') {k : BankingTransactionKey}
    (hk : H (.bankingTransaction k)) :
    db.bankingTransactions.get k = db'.bankingTransactions.get k :=
  entry_bankingTransaction.mp (h.entry _ hk rfl)

theorem getLedgerPosting (h : Stable H db db') {k : LedgerPostingKey}
    (hk : H (.ledgerPosting k)) : db.ledgerPostings.get k = db'.ledgerPostings.get k :=
  entry_ledgerPosting.mp (h.entry _ hk rfl)

theorem getIdempotencyKey (h : Stable H db db') {k : IdempotencyKeyKey}
    (hk : H (.idempotencyKey k)) : db.idempotencyKeys.get k = db'.idempotencyKeys.get k :=
  entry_idempotencyKey.mp (h.entry _ hk rfl)

end Stable

section Apply

variable {H : LockKey → Prop} {w : Write} {db db' : DB}

variable {k : LockKey} {since : Timestamp} {p : LedgerPosting} {l : LedgerAccount}

theorem isNotification_of_mem {w : Write} (hk : k ∈ w.keys) :
    k.isNotification = true ↔ w.isNotification = true := by
  cases w with
  | insertLedgerPosting r =>
    simp only [Write.keys, List.mem_cons, List.mem_map] at hk
    rcases hk with rfl | ⟨j, _, rfl⟩ <;> simp [LockKey.isNotification, Write.isNotification]
  | insertAuditLog r => simp [Write.keys] at hk
  | _ =>
    simp only [Write.keys, List.mem_map] at hk
    obtain ⟨j, _, rfl⟩ := hk
    simp [LockKey.isNotification, Write.isNotification]

theorem entry_apply_stable (hk : ∀ k ∈ w.keys, H k) (h : Stable H db db') (hHk : H k)
    (hn : k.isNotification = false) : (w.apply db).entry k = (w.apply db').entry k := by
  by_cases hmem : k ∈ w.keys
  · apply entry_apply_congr _ (h.entry k hHk hn)
    intro j hj
    apply h.entry j (hk j hj)
    -- all keys of one write are of one sort
    have hnw : ¬ w.isNotification = true := by
      rw [← isNotification_of_mem hmem, hn]
      exact Bool.false_ne_true
    rw [← isNotification_of_mem hj] at hnw
    simpa using hnw
  · rw [entry_apply_of_notMem hmem, entry_apply_of_notMem hmem]
    exact h.entry k hHk hn

theorem entry_unused_apply (hv : w.valid db) (h : Stable H db db') (hHk : H k)
    (hn : k.isNotification = true) (hfree : (w.apply db).entry k = none) :
    (w.apply db').entry k = none := by
  by_cases hmem : k ∈ w.keys
  · exfalso
    have hnw := (isNotification_of_mem hmem).mp hn
    cases w with
    | insertEmailJob r =>
      simp only [Write.keys, List.mem_map] at hmem
      obtain ⟨j, hj, rfl⟩ := hmem
      simp [entry, Write.apply, Table.get_insert hv, hj] at hfree
    | updateEmailJob o r => exact hv
    | insertOutboxEvent r =>
      simp only [Write.keys, List.mem_map] at hmem
      obtain ⟨j, hj, rfl⟩ := hmem
      simp [entry, Write.apply, Table.get_insert hv, hj] at hfree
    | _ => cases hnw
  · rw [entry_apply_of_notMem hmem] at hfree ⊢
    exact h.unused k hHk hn hfree

theorem ledgerPostings_rows_apply (w : Write) : ∃ added : List LedgerPosting,
    (∀ p ∈ added, w = .insertLedgerPosting p) ∧
    ∀ db, w.valid db → (w.apply db).ledgerPostings.rows = db.ledgerPostings.rows ++ added := by
  cases w with
  | insertLedgerPosting r =>
    refine ⟨[r], by simp, ?_⟩
    intro db hv
    exact Table.insert_rows hv.1
  | _ => exact ⟨[], by simp, fun db _ => by simp [Write.apply]⟩

theorem postingsOf_apply_congr (hv : w.valid db) (hv' : w.valid db') {t : UUID}
    (h : db.postingsOf t = db'.postingsOf t) :
    (w.apply db).postingsOf t = (w.apply db').postingsOf t := by
  obtain ⟨added, _, hrows⟩ := ledgerPostings_rows_apply w
  simp only [Books.postingsOf, hrows db hv, hrows db' hv', List.filter_append] at h ⊢
  rw [h]

theorem postingsOn_apply_congr (hv : w.valid db) (hv' : w.valid db') {l : Int64}
    (h : db.postingsOn l = db'.postingsOn l) :
    (w.apply db).postingsOn l = (w.apply db').postingsOn l := by
  obtain ⟨added, _, hrows⟩ := ledgerPostings_rows_apply w
  simp only [Books.postingsOn, hrows db hv, hrows db' hv', List.filter_append] at h ⊢
  rw [h]

theorem outgoing_congr (h : db.bankingTransactions.get (.id p.transactionID) =
      db'.bankingTransactions.get (.id p.transactionID)) :
    db.outgoing since p = db'.outgoing since p := by
  unfold Books.outgoing
  rw [h]

theorem outgoing_apply_congr (hk : ∀ k ∈ w.keys, H k) (h : Stable H db db')
    (hp : w = .insertLedgerPosting p ∨ db.outgoing since p = db'.outgoing since p) :
    (w.apply db).outgoing since p = (w.apply db').outgoing since p := by
  by_cases hmem : LockKey.bankingTransaction (.id p.transactionID) ∈ w.keys
  · exact outgoing_congr (entry_bankingTransaction.mp (entry_apply_stable hk h (hk _ hmem) rfl))
  · have hsame : ∀ d : DB, (w.apply d).outgoing since p = d.outgoing since p := fun d =>
      outgoing_congr (entry_bankingTransaction.mp (entry_apply_of_notMem hmem d))
    rw [hsame, hsame]
    rcases hp with rfl | hp
    · simp [Write.keys] at hmem
    · exact hp

theorem ledgerAccount_of_apply (hwf : db.WellFormed) (hv : w.valid db) {k : LedgerAccountKey}
    (h : (w.apply db).ledgerAccounts.get k = some l) :
    db.ledgerAccounts.get k = some l ∨ (w = .insertLedgerAccount l ∧ db.postingsOn l.id = []) := by
  cases w with
  | insertLedgerAccount r =>
    simp only [Write.apply, Table.get_insert hv] at h
    by_cases hk : k ∈ keys r
    · rw [if_pos hk] at h
      cases h
      exact Or.inr ⟨rfl, hwf.postingsOn_eq_nil
        (Table.conflict_eq_none.mp hv _ (Keyed.pk_mem l))⟩
    · rw [if_neg hk] at h
      exact Or.inl h
  | _ => exact Or.inl h

theorem activity_apply (hk : ∀ k ∈ w.keys, H k) (hwf : db.WellFormed) (hwf' : db'.WellFormed)
    (hv : w.valid db) (hv' : w.valid db') (h : Stable H db db') {a : Int64}
    (ha : H (.account (.id a)))
    (hl : (w.apply db).ledgerAccounts.get (.customerAccountID a) = some l) :
    (w.apply db).postingsOn l.id = (w.apply db').postingsOn l.id ∧
      ∀ p ∈ (w.apply db).postingsOn l.id, ∀ since,
        (w.apply db).outgoing since p = (w.apply db').outgoing since p := by
  rcases ledgerAccount_of_apply hwf hv hl with hl | ⟨rfl, hnil⟩
  · obtain ⟨hon, hout⟩ := h.activity a l ha hl
    refine ⟨postingsOn_apply_congr hv hv' hon, ?_⟩
    intro p hp since
    apply outgoing_apply_congr hk h
    simp only [Books.postingsOn, List.mem_filter] at hp hout
    rcases ledgerPostings_apply hv hp.1 with hold | hnew
    · exact Or.inr (hout p ⟨hold, hp.2⟩ since)
    · exact Or.inl hnew
  · have hnil' : db'.postingsOn l.id = [] :=
      hwf'.postingsOn_eq_nil (Table.conflict_eq_none.mp hv' _ (Keyed.pk_mem l))
    refine ⟨postingsOn_apply_congr hv hv' (hnil.trans hnil'.symm), ?_⟩
    intro p hp
    have : p ∈ db.postingsOn l.id := hp
    rw [hnil] at this
    cases this

theorem stable_apply (hk : ∀ k ∈ w.keys, H k) (hwf : db.WellFormed) (hwf' : db'.WellFormed)
    (hv : w.valid db) (hv' : w.valid db') (h : Stable H db db') :
    Stable H (w.apply db) (w.apply db') where
  entry k hHk hn := entry_apply_stable hk h hHk hn
  unused k hHk hn hfree := entry_unused_apply hv h hHk hn hfree
  postings t ht := postingsOf_apply_congr hv hv' (h.postings t ht)
  activity a l ha hl := activity_apply hk hwf hwf' hv hv' h ha hl
  account k a ha := by
    by_cases hmem : LockKey.account k ∈ w.keys
    · have := entry_account.mp (entry_apply_stable hk h (hk _ hmem) rfl)
      exact ⟨a, this ▸ ha, rfl⟩
    · have hsame : ∀ d : DB, (w.apply d).accounts.get k = d.accounts.get k := fun d =>
        entry_account.mp (entry_apply_of_notMem hmem d)
      rw [hsame] at ha ⊢
      exact h.account k a ha
  ledgerAccount k l hl := by
    by_cases hmem : LockKey.ledgerAccount k ∈ w.keys
    · have := entry_ledgerAccount.mp (entry_apply_stable hk h (hk _ hmem) rfl)
      exact this ▸ hl
    · have hsame : ∀ d : DB, (w.apply d).ledgerAccounts.get k = d.ledgerAccounts.get k := fun d =>
        entry_ledgerAccount.mp (entry_apply_of_notMem hmem d)
      rw [hsame] at hl ⊢
      exact h.ledgerAccount k l hl
  user k u hu := by
    rw [user_apply hv] at hu
    rw [user_apply hv']
    exact h.user k u hu

end Apply

end DB

def bankingReliance : Reliance Write DB LockKey where
  wf db := db.WellFormed
  valid := Write.valid
  stable := DB.Stable
  wf_apply := DB.wellFormed_apply
  stable_apply := DB.stable_apply

end Monierave
