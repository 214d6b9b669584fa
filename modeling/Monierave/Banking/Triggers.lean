import Mathlib.Logic.Relation
import Monierave.Banking.Effects

/-! # What the triggers of the ledger enforce

The constraints and triggers of the ledger tables bind every client of the database.
-/

namespace Monierave

open Relational ReadCommitted Prog

/-! ## Statements of any client -/

/-- What a statement does with one row. The new row of an update is arbitrary, as
is the choice of the rows. Values outside of the enumerations of the type and the
status are rejected by the checks on these columns and do not occur. -/
inductive RowChange
  | insertTransaction (t : BankingTransaction)
  | updateTransaction (id : UUID) (t : BankingTransaction)
  | deleteTransaction (id : UUID)
  | insertPosting (p : LedgerPosting)

namespace RowChange

def prog : RowChange → Tx Unit
  | insertTransaction t => do
    let _ ← call (insertRow (·.bankingTransactions) BankingTransactionKey.constraint
      (fun _ => t.violated) (fun _ => none) .insertBankingTransaction t)
  | updateTransaction id t => do
    let _ ← call (updateBankingTransactionRow id fun _ => .ok (some t))
  | deleteTransaction id => do
    let row ← call (readOnly fun db => db.bankingTransactions.get (.id id))
    refuse row.isSome
      (.sql (.raised "banking_transactions is append-only; DELETE is not allowed"))
  | insertPosting p => do
    let _ ← call (insertRow (·.ledgerPostings) LedgerPostingKey.constraint (postingViolated p)
      (fun _ => none) .insertLedgerPosting p)

def orphaned : RowChange → DB → Option SqlError
  | insertTransaction t => missingOriginal t.reversalOf
  | insertPosting p => missingLedgerAccount p.ledgerAccountID
  | _ => fun _ => none

end RowChange

/-- One statement. An `INSERT`, `UPDATE` or `DELETE` changes rows one after another,
with `ON CONFLICT` or `WITH` in more than one of these ways; an `UPDATE` or `DELETE`
on the postings is refused before it looks for rows. -/
inductive LedgerStatement
  | change (rows : List RowChange)
  | updatePostings
  | deletePostings

namespace LedgerStatement

def changeRows : List RowChange → Tx Unit
  | [] => pure ()
  | c :: rows => do
    c.prog
    changeRows rows

def prog : LedgerStatement → Tx Unit
  | change rows => do
    changeRows rows
    -- foreign keys are checked once all rows of the statement are in place
    call (tryRead fun db =>
      match rows.findSome? (·.orphaned db) with
      | some e => .error e
      | none => .ok ())
  | updatePostings => fail (.sql (.raised "ledger_postings is append-only; UPDATE is not allowed"))
  | deletePostings => fail (.sql (.raised "ledger_postings is append-only; DELETE is not allowed"))

def all : List LedgerStatement → Tx Unit
  | [] => pure ()
  | s :: statements => do
    s.prog
    all statements

end LedgerStatement

def ledgerTx (statements : List LedgerStatement) : Tx Unit := execTx (LedgerStatement.all statements)

def DB.afterLedgerTx (db : DB) (statements : List LedgerStatement) : DB :=
  match (ledgerTx statements).run [] db with
  | .error _ => db
  | .ok d => view d.writes db

def DB.afterLedgerTxs (db : DB) (txs : List (List LedgerStatement)) : DB :=
  txs.foldl DB.afterLedgerTx db

def DB.withoutTransactions (db : DB) : DB :=
  { db with bankingTransactions := ∅, ledgerPostings := ∅ }

/-! ## What they cannot undo -/

/-- The moves of the status. -/
inductive BankingTransactionStatus.Moves :
    BankingTransactionStatus → BankingTransactionStatus → Prop
  | post : Moves .pending .posted
  | fail : Moves .pending .failed
  | reverse : Moves .posted .reversed

/-- What is in the ledger at one time is still there at a later one: the postings as
they are, the transactions with another status at most. -/
structure LedgerKept (db db' : DB) : Prop where
  transactions : ∀ t ∈ db.bankingTransactions.rows, ∃ t' ∈ db'.bankingTransactions.rows,
    t.sameDetails t' ∧ Relation.ReflTransGen BankingTransactionStatus.Moves t.status t'.status
  postings : ∀ p ∈ db.ledgerPostings.rows, p ∈ db'.ledgerPostings.rows

structure LedgerSound (db : DB) : Prop where
  settled : ∀ t ∈ db.bankingTransactions.rows, t.status = .posted ∨ t.status = .reversed →
    2 ≤ (db.postingsOf t.id).length ∧
    (∀ p ∈ db.postingsOf t.id, ∃ l, db.ledgerAccounts.get (.id p.ledgerAccountID) = some l ∧
      l.currency = t.currency) ∧
    ((db.postingsOf t.id).map fun p => p.amount.toInt).sum = 0 ∧
    ((db.postingsOf t.id).map fun p => (p.amount.toInt.natAbs : Int)).sum = 2 * t.amount.toInt
  failed : ∀ t ∈ db.bankingTransactions.rows, t.status = .failed → db.postingsOf t.id = []

namespace BankingTransaction

theorem sameDetails_iff {o n : BankingTransaction} : o.sameDetails n ↔
    n.id = o.id ∧ n.reference = o.reference ∧ n.transactionType = o.transactionType ∧
      n.currency = o.currency ∧ n.amount = o.amount ∧ n.narration = o.narration ∧
      n.initiatedBy = o.initiatedBy ∧ n.reversalOf = o.reversalOf ∧ n.createdAt = o.createdAt := by
  simp [sameDetails, and_assoc]

theorem sameDetails_refl (t : BankingTransaction) : t.sameDetails t := by
  simp [sameDetails]

theorem sameDetails_trans {a b c : BankingTransaction} (hab : a.sameDetails b)
    (hbc : b.sameDetails c) : a.sameDetails c := by
  rw [sameDetails_iff] at *
  grind

end BankingTransaction

theorem moves_of_protect {o n : BankingTransaction} (h : protectBankingTransaction o n = none) :
    o.sameDetails n ∧ BankingTransactionStatus.Moves o.status n.status := by
  unfold protectBankingTransaction at h
  split_ifs at h with hdetails hpost hfail hreverse
  · exact ⟨by simpa using hdetails, by rw [hpost.1, hpost.2.1]; exact .post⟩
  · exact ⟨by simpa using hdetails, by rw [hfail.1, hfail.2.1]; exact .fail⟩
  · exact ⟨by simpa using hdetails, by rw [hreverse.1, hreverse.2.1]; exact .reverse⟩

namespace LedgerKept

theorem of_subset {db db' : DB} (h : db.bankingTransactions.rows ⊆ db'.bankingTransactions.rows)
    (h' : db.ledgerPostings.rows ⊆ db'.ledgerPostings.rows) : LedgerKept db db' :=
  ⟨fun t ht => ⟨t, h ht, t.sameDetails_refl, .refl⟩, fun _ hp => h' hp⟩

theorem refl (db : DB) : LedgerKept db db := of_subset (List.Subset.refl _) (List.Subset.refl _)

theorem trans {db db' db'' : DB} (h : LedgerKept db db') (h' : LedgerKept db' db'') :
    LedgerKept db db'' := by
  constructor
  · intro t ht
    obtain ⟨t', ht', hdetails, hstatus⟩ := h.transactions t ht
    obtain ⟨t'', ht'', hdetails', hstatus'⟩ := h'.transactions t' ht'
    exact ⟨t'', ht'', BankingTransaction.sameDetails_trans hdetails hdetails',
      hstatus.trans hstatus'⟩
  · exact fun p hp => h'.postings p (h.postings p hp)

end LedgerKept

/-! ## One write -/

/-- The writes that statements on the ledger can make. -/
inductive LedgerWrite (db : DB) : Write → Prop
  | insertTransaction {t : BankingTransaction} (h : db.bankingTransactions.conflict t = none) :
      LedgerWrite db (.insertBankingTransaction t)
  | updateTransaction {o t : BankingTransaction} (ho : db.bankingTransactions.get (.id t.id) = some o)
      (hclash : db.bankingTransactions.clash t = none) (h : protectBankingTransaction o t = none) :
      LedgerWrite db (.updateBankingTransaction o t)
  | insertPosting {p : LedgerPosting} (h : db.ledgerPostings.conflict p = none) :
      LedgerWrite db (.insertLedgerPosting p)

/-- How the ledger gets from one position of a transaction to a later one. The
transactions that no write of it concerns are as they were, and new postings are
among those the statements insert. -/
structure Advances (new : LedgerPosting → Prop) (s s' : BankingPosition) : Prop where
  own : ∀ w ∈ s.own, w ∈ s'.own
  ledgerAccounts : s'.db.ledgerAccounts = s.db.ledgerAccounts
  kept : LedgerKept s.db s'.db
  added : ∀ p ∈ s'.db.ledgerPostings.rows, p ∈ s.db.ledgerPostings.rows ∨ new p
  row : ∀ id, (∀ w ∈ s'.own, w.balancedTransaction ≠ some id) →
    s'.db.bankingTransactions.get (.id id) = s.db.bankingTransactions.get (.id id)
  untouched : ∀ id, (∀ w ∈ s'.own, w.balancedTransaction ≠ some id) →
    s'.db.postingsOf id = s.db.postingsOf id

namespace Advances

variable {new new' : LedgerPosting → Prop} {s s' s'' : BankingPosition}

theorem refl (new : LedgerPosting → Prop) (s : BankingPosition) : Advances new s s where
  own := fun _ hw => hw
  ledgerAccounts := rfl
  kept := .refl s.db
  added := fun _ hp => Or.inl hp
  row := fun _ _ => rfl
  untouched := fun _ _ => rfl

theorem trans (h : Advances new s s') (h' : Advances new s' s'') : Advances new s s'' where
  own := fun w hw => h'.own w (h.own w hw)
  ledgerAccounts := h'.ledgerAccounts.trans h.ledgerAccounts
  kept := h.kept.trans h'.kept
  added := by
    intro p hp
    rcases h'.added p hp with hp | hp
    · exact h.added p hp
    · exact Or.inr hp
  row := fun id hid => (h'.row id hid).trans (h.row id fun w hw => hid w (h'.own w hw))
  untouched := fun id hid =>
    (h'.untouched id hid).trans (h.untouched id fun w hw => hid w (h'.own w hw))

theorem mono (h : Advances new s s') (hnew : ∀ p, new p → new' p) : Advances new' s s' :=
  { h with added := fun p hp => (h.added p hp).imp id (hnew p) }

end Advances

theorem LedgerWrite.kept {db : DB} {w : Write} (h : LedgerWrite db w) :
    LedgerKept db (w.apply db) := by
  cases h with
  | @insertTransaction t h =>
    refine ⟨fun a ha => ⟨a, ?_, a.sameDetails_refl, .refl⟩, fun _ hp => hp⟩
    simp only [Write.apply, Table.insert_rows h]
    exact List.mem_append_left _ ha
  | @updateTransaction o t ho hclash h =>
    obtain ⟨hdetails, hmoves⟩ := moves_of_protect h
    refine ⟨fun a ha => ?_, fun _ hp => hp⟩
    simp only [Write.apply, Table.amend_eq ho, Table.mem_update hclash ho]
    by_cases hpk : pk a = pk t
    · have hget := Table.get_pk ha
      rw [hpk, show db.bankingTransactions.get (pk t) = some o from ho] at hget
      obtain rfl := Option.some.inj hget
      exact ⟨t, Or.inl rfl, hdetails, .single hmoves⟩
    · exact ⟨a, Or.inr ⟨ha, hpk⟩, a.sameDetails_refl, .refl⟩
  | @insertPosting p h =>
    refine ⟨fun a ha => ⟨a, ha, a.sameDetails_refl, .refl⟩, fun q hq => ?_⟩
    simp only [Write.apply, Table.insert_rows h]
    exact List.mem_append_left _ hq

theorem LedgerWrite.advances {s : BankingPosition} {w : Write} {ks : List LockKey}
    (h : LedgerWrite s.db w) :
    Advances (fun p => w = .insertLedgerPosting p) s (s.after [w] ks) where
  own := fun _ hw => List.mem_append_left _ hw
  ledgerAccounts := by cases h <;> rfl
  kept := h.kept
  added := by
    intro p hp
    cases h with
    | insertTransaction h => exact Or.inl hp
    | updateTransaction ho hclash h => exact Or.inl hp
    | @insertPosting q h =>
      simp only [Position.after_db, view_cons, view_nil, apply_write, Write.apply,
        Table.insert_rows h, List.mem_append, List.mem_singleton] at hp
      rcases hp with hp | rfl
      · exact Or.inl hp
      · exact Or.inr rfl
  row := by
    intro id hid
    have hw := hid w (List.mem_append_right _ List.mem_cons_self)
    refine DB.entry_bankingTransaction.mp (DB.entry_apply_of_notMem ?_ s.db)
    cases h with
    | insertTransaction h =>
      simp only [Write.balancedTransaction, ne_eq, Option.some.injEq] at hw
      simp [Write.keys, Relational.keys, Ne.symm hw]
    | @updateTransaction o t ho hclash h =>
      have ht : o.id = t.id := by simpa [Relational.keys, eq_comm] using Table.key_of_get ho
      simp only [Write.balancedTransaction, ne_eq, Option.some.injEq] at hw
      simp [Write.keys, Relational.keys, ht, Ne.symm hw]
    | insertPosting h =>
      simp only [Write.balancedTransaction, ne_eq, Option.some.injEq] at hw
      simp [Write.keys, Relational.keys, Ne.symm hw]
  untouched := by
    intro id hid
    have hw := hid w (List.mem_append_right _ List.mem_cons_self)
    cases h with
    | insertTransaction h => rfl
    | updateTransaction ho hclash h => rfl
    | @insertPosting q h =>
      simp only [Write.balancedTransaction, ne_eq, Option.some.injEq] at hw
      simp [Books.postingsOf, Write.apply, Table.insert_rows h, hw]

/-! ## Statements and transactions -/

theorem RowChange.ensures (c : RowChange) (s : BankingPosition) :
    Ensures c.prog s fun _ s' => Advances (fun p => c = .insertPosting p) s s' := by
  cases c with
  | insertTransaction t =>
    refine .bind (.call fun eff hs => .ret ?_)
    obtain ⟨_, hconf, _, rfl⟩ := insertRow_ok.mp hs
    exact (LedgerWrite.insertTransaction hconf).advances.mono fun _ h => by cases h
  | updateTransaction id t =>
    refine .bind (.call fun eff hs => .ret ?_)
    rcases updateRow_ok.mp hs with ⟨_, rfl⟩ | ⟨o, r, hu, rfl⟩
    · simpa [Effect.claims] using Advances.refl _ s
    · obtain rfl : t = r := by simpa using hu.new
      obtain ⟨hprotect, _⟩ := Option.or_eq_none_iff.mp hu.checked
      have hid : t.id = o.id := (BankingTransaction.sameDetails_iff.mp (moves_of_protect hprotect).1).1
      have ho : s.db.bankingTransactions.get (.id t.id) = some o := by
        rw [hid]
        exact Table.get_pk (Table.mem_of_get hu.row)
      exact (LedgerWrite.updateTransaction ho hu.clash hprotect).advances.mono
        fun _ h => by cases h
  | deleteTransaction id =>
    refine .bind (.call fun eff hs => .refuse fun _ => ?_)
    obtain rfl := readOnly_ok.mp hs
    simpa [Effect.claims] using Advances.refl _ s
  | insertPosting p =>
    refine .bind (.call fun eff hs => .ret ?_)
    obtain ⟨_, hconf, _, rfl⟩ := insertRow_ok.mp hs
    exact (LedgerWrite.insertPosting hconf).advances.mono fun _ h => by cases h; rfl

namespace LedgerStatement

theorem ensures_changeRows (rows : List RowChange) (s : BankingPosition) :
    Ensures (changeRows rows) s fun _ s' => Advances (fun p => .insertPosting p ∈ rows) s s' := by
  induction rows generalizing s with
  | nil => exact .ret (.refl _ s)
  | cons c rows ih =>
    refine .bind ((c.ensures s).mono fun _ s₁ h₁ => (ih s₁).mono fun _ s₂ h₂ => ?_)
    exact (h₁.mono fun p hp => by rw [hp]; exact List.mem_cons_self).trans
      (h₂.mono fun p hp => List.mem_cons_of_mem c hp)

theorem ensures_prog (st : LedgerStatement) (s : BankingPosition) :
    Ensures st.prog s fun _ s' => Advances
      (fun p => ∃ l, s.db.ledgerAccounts.get (.id p.ledgerAccountID) = some l) s s' := by
  cases st with
  | change rows =>
    refine .bind ((ensures_changeRows rows s).mono fun _ s₁ h => ?_)
    refine .call fun eff hs => ?_
    obtain ⟨_, hcheck, rfl⟩ := tryRead_ok.mp hs
    have hall : rows.findSome? (·.orphaned s₁.db) = none := by
      cases hfind : rows.findSome? (·.orphaned s₁.db) with
      | none => rfl
      | some e => simp [hfind] at hcheck
    have hs₁ : s₁.after [] (Effect.claims (⟨(), [], []⟩ : Answer Unit)) = s₁ := by
      simp [Effect.claims]
    rw [hs₁]
    refine h.mono fun p hp => ?_
    have hp := List.findSome?_eq_none_iff.mp hall _ hp
    rw [← h.ledgerAccounts]
    exact missingLedgerAccount_eq_none.mp hp
  | updatePostings => exact ⟨fun _ hd => by cases hd⟩
  | deletePostings => exact ⟨fun _ hd => by cases hd⟩

theorem ensures_all (statements : List LedgerStatement) (s : BankingPosition) :
    Ensures (all statements) s fun _ s' => Advances
      (fun p => ∃ l, s.db.ledgerAccounts.get (.id p.ledgerAccountID) = some l) s s' := by
  induction statements generalizing s with
  | nil => exact .ret (.refl _ s)
  | cons st statements ih =>
    refine .bind ((ensures_prog st s).mono fun _ s₁ h₁ => (ih s₁).mono fun _ s₂ h₂ => ?_)
    exact h₁.trans (h₂.mono fun p hp => by rwa [h₁.ledgerAccounts] at hp)

end LedgerStatement

/-! ## Committed states -/

structure LedgerValid (db : DB) : Prop where
  balance : ∀ id, validateBankingTransactionBalance db.toBooks id = none
  ledgerAccount : ∀ p ∈ db.ledgerPostings.rows, ∃ l,
    db.ledgerAccounts.get (.id p.ledgerAccountID) = some l

theorem Books.validate_congr {b b' : Books} {id : UUID}
    (hrow : b'.bankingTransactions.get (.id id) = b.bankingTransactions.get (.id id))
    (hpostings : b'.postingsOf id = b.postingsOf id)
    (hledger : b'.ledgerAccounts = b.ledgerAccounts) :
    validateBankingTransactionBalance b' id = validateBankingTransactionBalance b id := by
  have hjoin : b'.withLedger = b.withLedger := by
    funext p
    rw [withLedger, withLedger, hledger]
  unfold validateBankingTransactionBalance
  rw [hrow, hpostings, hjoin]

theorem LedgerValid.advance {db : DB} {s' : BankingPosition} (hvalid : LedgerValid db)
    (h : Advances (fun p => ∃ l, db.ledgerAccounts.get (.id p.ledgerAccountID) = some l)
      (.start db) s')
    (hacc : Accepted s') : LedgerValid s'.db := by
  constructor
  · intro id
    by_cases hid : ∃ w ∈ s'.own, w.balancedTransaction = some id
    · obtain ⟨w, hw, hwid⟩ := hid
      exact hacc w hw id hwid
    · have hid : ∀ w ∈ s'.own, w.balancedTransaction ≠ some id := by
        intro w hw hwid
        exact hid ⟨w, hw, hwid⟩
      rw [Books.validate_congr (h.row id hid) (h.untouched id hid) h.ledgerAccounts]
      exact hvalid.balance id
  · intro p hp
    rw [h.ledgerAccounts]
    rcases h.added p hp with hp | hp
    · exact hvalid.ledgerAccount p hp
    · exact hp

theorem DB.afterLedgerTx_step {db : DB} (hvalid : LedgerValid db)
    (statements : List LedgerStatement) :
    LedgerValid (db.afterLedgerTx statements) ∧ LedgerKept db (db.afterLedgerTx statements) := by
  have hens : Ensures (ledgerTx statements) (.start db) fun _ s' =>
      LedgerValid s'.db ∧ LedgerKept db s'.db :=
    ensures_execTx ((LedgerStatement.ensures_all statements (.start db)).mono
      fun _ _ h hacc => ⟨hvalid.advance h hacc, h.kept⟩)
  unfold afterLedgerTx
  split
  · exact ⟨hvalid, .refl db⟩
  · exact hens.of_run ‹_›

theorem DB.afterLedgerTxs_run {db : DB} (hvalid : LedgerValid db)
    (txs : List (List LedgerStatement)) :
    LedgerValid (db.afterLedgerTxs txs) ∧ LedgerKept db (db.afterLedgerTxs txs) := by
  induction txs generalizing db with
  | nil => exact ⟨hvalid, .refl db⟩
  | cons tx txs ih =>
    obtain ⟨hvalid₁, hkept₁⟩ := afterLedgerTx_step hvalid tx
    obtain ⟨hvalid₂, hkept₂⟩ := ih hvalid₁
    exact ⟨hvalid₂, hkept₁.trans hkept₂⟩

theorem LedgerValid.sound {db : DB} (h : LedgerValid db) : LedgerSound db := by
  constructor
  · intro t ht hstatus
    have hbal := Books.balanced_of_validate
      (fun p hp => h.ledgerAccount p (List.mem_filter.mp hp).1) (Table.get_pk ht) hstatus
      (h.balance t.id)
    exact ⟨hbal.count, hbal.ledger, hbal.total, hbal.volume⟩
  · intro t ht hstatus
    have hcheck := h.balance t.id
    have hget : db.bankingTransactions.get (.id t.id) = some t := Table.get_pk ht
    simp only [validateBankingTransactionBalance, hget, hstatus, reduceCtorEq, or_self, if_false,
      true_and] at hcheck
    by_contra hne
    rw [if_pos fun hlen => hne (List.length_eq_zero_iff.mp hlen)] at hcheck
    cases hcheck

theorem ledgerValid_withoutTransactions (db : DB) : LedgerValid db.withoutTransactions :=
  ⟨fun _ => rfl, fun _ hp => by cases hp⟩

/-- Whatever statements are issued, what is committed balances, and what was
committed before stays as it was but for the status, which only moves on. -/
theorem ledgerTriggers_sound (db : DB) (txs more : List (List LedgerStatement)) :
    LedgerSound (db.withoutTransactions.afterLedgerTxs (txs ++ more)) ∧
      LedgerKept (db.withoutTransactions.afterLedgerTxs txs)
        (db.withoutTransactions.afterLedgerTxs (txs ++ more)) := by
  have hvalid := (DB.afterLedgerTxs_run (ledgerValid_withoutTransactions db) txs).1
  obtain ⟨hvalid', hkept⟩ := DB.afterLedgerTxs_run hvalid more
  have happend : db.withoutTransactions.afterLedgerTxs (txs ++ more) =
      (db.withoutTransactions.afterLedgerTxs txs).afterLedgerTxs more := List.foldl_append
  rw [happend]
  exact ⟨hvalid'.sound, hkept⟩

end Monierave
