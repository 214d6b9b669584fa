import Monierave.Banking.Reversals
import Monierave.Users.Profiles

/-! # The history of transactions and the word sent to customers

Every committed transaction makes one entry, so what the audit rows and the
notifications say about the banking transactions is an invariant of runs.
-/

namespace Monierave

open Relational Accounting ReadCommitted

namespace DB

variable {db : DB}

/-- Every transaction but a reversal is explained, and what the audit rows report as
posted is a transaction that is not a reversal. -/
structure Explained (db : DB) : Prop where
  explained : ∀ t ∈ db.bankingTransactions.rows, t.transactionType ≠ .reversal →
    ∃ a ∈ db.auditLogs, a.Explains t
  posted : ∀ a ∈ db.auditLogs, a.entityType = .bankingTransaction →
    a.toState = some (BankingTransactionStatus.text .posted) →
      ∃ t ∈ db.bankingTransactions.rows, t.id = a.entityID ∧ t.transactionType ≠ .reversal

theorem explained_initial (users : Table User) : (DB.initial users).Explained where
  explained t ht := by cases ht
  posted a ha := by cases ha

end DB

structure BankingTransaction.Becomes (t t' : BankingTransaction) : Prop where
  id : t'.id = t.id
  reference : t'.reference = t.reference
  transactionType : t'.transactionType = t.transactionType
  reversed : t.status = .reversed → t'.status = .reversed

theorem Books.Step.kept {b b' : Books} (h : b.Step b') {t : BankingTransaction}
    (ht : t ∈ b.bankingTransactions.rows) : ∃ t' ∈ b'.bankingTransactions.rows, t.Becomes t' := by
  rcases h.bankingTransaction (Table.get_pk ht) with ht' | ⟨_, time, ht'⟩
  · exact ⟨t, Table.mem_of_get ht', rfl, rfl, rfl, id⟩
  · exact ⟨t.asReversed time, Table.mem_of_get ht', rfl, rfl, rfl, fun _ => rfl⟩

section Explained

variable {db db' : DB} {t about : BankingTransaction} {eventType : String}
  {ps : List LedgerPosting} {ns : Notices}

theorem Records.explains (h : Records db t about eventType ps ns db') (hdb : db.Explained)
    (hstep : db.Step db'.toBooks) (habout : about.transactionType ≠ .reversal)
    (hrows : ∀ t' ∈ db'.bankingTransactions.rows, t'.transactionType ≠ .reversal →
      t' = about ∨ t' ∈ db.bankingTransactions.rows) : db'.Explained where
  explained t' ht' htype := by
    rw [h.noted.audits]
    rcases hrows t' ht' htype with rfl | hold
    · obtain ⟨a, ha, hexplains⟩ := h.explained
      exact ⟨a, List.mem_append_right _ ha, hexplains⟩
    · obtain ⟨a, ha, hexplains⟩ := hdb.explained t' hold htype
      exact ⟨a, List.mem_append_left _ ha, hexplains⟩
  posted a ha hentity hstate := by
    rw [h.noted.audits, List.mem_append] at ha
    rcases ha with ha | ha
    · obtain ⟨t₀, ht₀, hid, htype⟩ := hdb.posted a ha hentity hstate
      obtain ⟨t', ht', hbecomes⟩ := hstep.kept ht₀
      exact ⟨t', ht', hbecomes.id.trans hid, hbecomes.transactionType ▸ htype⟩
    · exact ⟨about, Table.mem_of_get h.row, (h.history a ha hentity).symm, habout⟩

theorem Entry.explained (h : Entry (·.toState = some "rejected") db db') (hdb : db.Explained) :
    db'.Explained := by
  have hstep := h.step
  have hinsert : ∀ {t : BankingTransaction}, db.bankingTransactions.conflict t = none →
      db'.bankingTransactions = db.bankingTransactions.insert t →
      ∀ t' ∈ db'.bankingTransactions.rows, t' = t ∨ t' ∈ db.bankingTransactions.rows := by
    intro t hfresh htable t' ht'
    rw [htable, Table.mem_insert hfresh] at ht'
    tauto
  cases h with
  | unmoved _ htable hn apart =>
    refine ⟨?_, ?_⟩
    · intro t ht htype
      obtain ⟨a, ha, hexplains⟩ := hdb.explained t (htable ▸ ht) htype
      exact ⟨a, hn.audits ▸ List.mem_append_left _ ha, hexplains⟩
    · intro a ha hentity hstate
      rw [htable]
      rw [hn.audits, List.mem_append] at ha
      rcases ha with ha | ha
      · exact hdb.posted a ha hentity hstate
      · have hrejected := apart.history a ha hentity
        rw [hstate] at hrejected
        simp [BankingTransactionStatus.text] at hrejected
  | settlement kind records =>
    refine records.explains hdb hstep ?_ fun t' ht' _ =>
      hinsert records.booking.fresh kind.transactions t' ht'
    rcases kind.kind with hk | hk <;> simp [hk]
  | transfer kind records =>
    exact records.explains hdb hstep (by simp [kind.kind]) fun t' ht' _ =>
      hinsert records.booking.fresh kind.transactions t' ht'
  | reversal kind records =>
    rename_i r original ps ns time
    refine records.explains hdb hstep kind.notReversal ?_
    intro t' ht' htype
    obtain ⟨time', htable⟩ := kind.transactions
    have hold : (db.bankingTransactions.insert r).get (pk (original.asReversed time')) =
        some original := Table.get_insert_of_get records.booking.fresh kind.row
    have hself := Table.get_pk ht'
    rw [htable, Table.mem_update (Table.clash_of_same_keys hold rfl) hold] at ht'
    rcases ht' with rfl | ⟨hmem, _⟩
    -- the row of the original is the one the audit row is about
    · exact Or.inl (Option.some.inj (hself.symm.trans records.row))
    · rw [Table.mem_insert records.booking.fresh] at hmem
      rcases hmem with hmem | rfl
      · exact Or.inr hmem
      · exact absurd kind.kind htype

end Explained

theorem bankingRun_explained (users : Table User) (acts : List BankingAction) :
    (bankingRun users acts).db.Explained := by
  induction acts using List.reverseRecOn with
  | nil => exact DB.explained_initial users
  | append_singleton acts a ih => exact (bankingRun_entry users acts a).explained ih

/-- In every committed state the audit history explains the status of exactly those
transactions that are not reversals: the operation that reverses a transaction
records what became of the original, and nothing under the id of the reversal. -/
theorem bankingRun_explains_iff (users : Table User) (acts : List BankingAction) :
    ∀ t ∈ (bankingRun users acts).db.bankingTransactions.rows,
      (∃ a ∈ (bankingRun users acts).db.auditLogs, a.entityType = .bankingTransaction ∧
        a.entityID = t.id ∧ a.toState = some t.status.text) ↔ t.transactionType ≠ .reversal := by
  intro t ht
  have hexplained := bankingRun_explained users acts
  constructor
  · rintro ⟨a, ha, hentity, hid, hstate⟩ htype
    have hnotReversed : t.status ≠ .reversed := by
      intro hreversed
      have hpaired := bankingRun_paired users acts
      obtain ⟨r, hr, href⟩ := hpaired.reversed t ht hreversed
      exact (hpaired.undoes hr ht href).notReversal htype
    have hposted := ((bankingRun_conserving users acts).status t ht).resolve_right hnotReversed
    rw [hposted] at hstate
    obtain ⟨t', ht', hid', htype'⟩ := hexplained.posted a ha hentity hstate
    have heq : t' = t := Table.pk_injOn ht' ht (congrArg BankingTransactionKey.id (hid'.trans hid))
    exact htype' (heq ▸ htype)
  · exact hexplained.explained t ht

def reversedDeposit : List BankingAction :=
  openAccounts ++ uninterrupted 2 (depositForAlice 50 (.drawing 1 3)) ++
    uninterrupted 3 (.reverseTransactionTx ⟨some 300, "operator", "mistake", some 1⟩
      (.drawing 2 4) (.drawing 2 5))

theorem reversal_unexplained :
    let db := (bankingRun twoCustomers reversedDeposit).db
    ∃ t ∈ db.bankingTransactions.rows, t.transactionType = .reversal ∧
      ¬ ∃ a ∈ db.auditLogs, a.entityType = .bankingTransaction ∧ a.entityID = t.id ∧
        a.toState = some t.status.text := by
  decide +kernel

theorem bankingRun_explains_iff_reversedDeposit :
    let db := (bankingRun twoCustomers reversedDeposit).db
    ∃ t ∈ db.bankingTransactions.rows,
      ((∃ a ∈ db.auditLogs, a.entityType = .bankingTransaction ∧ a.entityID = t.id ∧
        a.toState = some t.status.text) ↔ t.transactionType ≠ .reversal) := by
  have hne : (bankingRun twoCustomers reversedDeposit).db.bankingTransactions.rows ≠ [] := by
    decide +kernel
  obtain ⟨t, ht⟩ := List.exists_mem_of_ne_nil _ hne
  exact ⟨t, ht, bankingRun_explains_iff twoCustomers reversedDeposit t ht⟩

/-- Every job and event that tells of a movement is about a committed transaction, and
one that tells of a reversal is about a reversed one. -/
structure DB.Announced (db : DB) : Prop where
  jobs : ∀ j ∈ db.emailJobs.rows, ∀ n, j.payload = .financialNotification n →
    announcesMovement n.eventType = true → ∃ t ∈ db.bankingTransactions.rows,
      t.reference = n.reference ∧
        (n.eventType = domainEventTransactionReversed → t.status = .reversed)
  events : ∀ e ∈ db.outboxEvents.rows, e.announcesMovement = true →
    ∃ t ∈ db.bankingTransactions.rows, t.id = e.entityID ∧
      (e.eventType = domainEventTransactionReversed → t.status = .reversed)

section Notifications

variable {db db' : DB} {t about : BankingTransaction} {eventType : String}
  {ps : List LedgerPosting} {ns : Notices}

theorem movedTo_of_distinct {ms : List Move} (h : (ms.map Prod.fst).Nodup) {m : Move}
    (hm : m ∈ ms) : movedTo ms m.1 = m.2.toInt := by
  induction ms with
  | nil => cases hm
  | cons x ms ih =>
    rw [List.map_cons, List.nodup_cons] at h
    rw [movedTo, groupSum_cons]
    rcases List.mem_cons.mp hm with rfl | hm
    · rw [if_pos rfl, groupSum_eq_zero, add_zero]
      intro y hy heq
      exact h.1 (heq ▸ List.mem_map_of_mem hy)
    · have hne : x.1 ≠ m.1 := fun heq => h.1 (heq ▸ List.mem_map_of_mem hm)
      rw [if_neg hne, zero_add]
      exact ih h.2 hm

theorem Records.direction (h : Records db t about eventType ps ns db') {m : Move}
    (hm : m ∈ db.moves ps) {a : Account} (ha : db.accounts.get (.id m.1) = some a) :
    ∃ a', db'.accounts.get (.id m.1) = some a' ∧
      m.direction = if a.balance < a'.balance then .incoming else .outgoing := by
  obtain ⟨a', ha', hcred⟩ := h.booking.credits.get ha
  refine ⟨a', ha', ?_⟩
  have hid : a.id = m.1 := by simpa [keys, eq_comm] using Table.key_of_get ha
  have hbalance := hcred.balance
  rw [hid, movedTo_of_distinct h.booking.distinct hm] at hbalance
  have hne : m.2.toInt ≠ 0 := by
    obtain ⟨p, hp, hpm⟩ := List.mem_filterMap.mp hm
    obtain ⟨id, _, rfl⟩ := Option.map_eq_some_iff.mp hpm
    exact fun hzero => h.nonzero p hp (Int64.toInt_inj.mp hzero)
  have hiff : a.balance < a'.balance ↔ ¬ m.2 < 0 := by
    rw [Int64.lt_iff_toInt_lt, Int64.lt_iff_toInt_lt, hbalance]
    have hzero : (0 : Int64).toInt = 0 := rfl
    omega
  simp only [Move.direction, hiff]
  split_ifs <;> rfl

theorem DB.Announced.extend (hdb : db.Announced) (hstep : db.Step db'.toBooks)
    (hn : db.Noted ns db')
    (hjobs : ∀ j ∈ ns.jobs, ∀ n, j.payload = .financialNotification n →
      announcesMovement n.eventType = true → ∃ t ∈ db'.bankingTransactions.rows,
        t.reference = n.reference ∧
          (n.eventType = domainEventTransactionReversed → t.status = .reversed))
    (hevents : ∀ e ∈ ns.events, e.announcesMovement = true →
      ∃ t ∈ db'.bankingTransactions.rows, t.id = e.entityID ∧
        (e.eventType = domainEventTransactionReversed → t.status = .reversed)) :
    db'.Announced where
  jobs j hj n hn' hmove := by
    rw [hn.jobs, List.mem_append] at hj
    rcases hj with hj | hj
    · obtain ⟨t, ht, href, hrev⟩ := hdb.jobs j hj n hn' hmove
      obtain ⟨t', ht', hbecomes⟩ := hstep.kept ht
      exact ⟨t', ht', hbecomes.reference.trans href, fun he => hbecomes.reversed (hrev he)⟩
    · exact hjobs j hj n hn' hmove
  events e he hmove := by
    rw [hn.events, List.mem_append] at he
    rcases he with he | he
    · obtain ⟨t, ht, hid, hrev⟩ := hdb.events e he hmove
      obtain ⟨t', ht', hbecomes⟩ := hstep.kept ht
      exact ⟨t', ht', hbecomes.id.trans hid, fun he => hbecomes.reversed (hrev he)⟩
    · exact hevents e he hmove

theorem Entry.users {stray : AuditLog → Prop} (h : Entry stray db db') : db'.users = db.users := by
  cases h with
  | unmoved _ _ hn _ => exact hn.users
  | settlement _ records => exact records.noted.users
  | transfer _ records => exact records.noted.users
  | reversal _ records => exact records.noted.users

end Notifications

inductive CustomerTx
  | banking (t : BankingTx)
  | updateUser (env : Env) (arg : UpdateUserTxParams)

inductive CustomerOp
  | banking (op : BankingOp)
  | updateUserTx (arg : UpdateUserTxParams) (env : Env)

/-- What the change of a profile returns is left out. -/
def CustomerTx.body : CustomerTx → Tx Response
  | banking t => t.body
  | updateUser env arg => do
    let _ ← Monierave.updateUserTx env arg
    pure .recorded

def CustomerOp.job : CustomerOp → Job CustomerTx Response Err
  | banking op => op.job.map .banking
  | updateUserTx arg env => .tx (.updateUser env arg) .done

end Monierave
