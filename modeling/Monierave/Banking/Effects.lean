import Monierave.Banking.Books
import Monierave.Banking.Notices
import Monierave.Banking.Operators

/-! # The effect of the statements on the books

One rule for each statement of the banking operations: what it finds in the books
and what it leaves there, and which notices it adds.
-/

namespace Monierave

open Relational ReadCommitted Prog

def Write.touchesBooks : Write → Bool
  | insertAccount _ => true
  | updateAccount _ _ => true
  | insertLedgerAccount _ => true
  | insertBankingTransaction _ => true
  | updateBankingTransaction _ _ => true
  | insertLedgerPosting _ => true
  | _ => false

variable {w : Write} {s s' s'' : BankingPosition} {e : Err} {id : Int64} {env : Env}
    {now : Timestamp} {n : Nat}

theorem toBooks_apply (h : w.touchesBooks = false) (db : DB) :
    (w.apply db).toBooks = db.toBooks := by
  cases w <;> first
    | rfl
    | cases h

theorem toBooks_view {ws : List Write} (h : ∀ w ∈ ws, w.touchesBooks = false) (db : DB) :
    (view ws db).toBooks = db.toBooks := by
  induction ws generalizing db with
  | nil => rfl
  | cons w ws ih =>
    rw [view_cons, ih (fun w' hw' => h w' (List.mem_cons_of_mem w hw')), apply_write,
      toBooks_apply (h w List.mem_cons_self)]

structure Quiet (s s' : BankingPosition) : Prop extends s.Extends s' where
  books : s'.db.toBooks = s.db.toBooks

theorem Quiet.refl (s : BankingPosition) : Quiet s s := ⟨.refl s, rfl⟩

theorem Quiet.trans (h : Quiet s s') (h' : Quiet s' s'') :
    Quiet s s'' := ⟨h.toExtends.trans h'.toExtends, h'.books.trans h.books⟩

structure Traceless (s s' : BankingPosition) : Prop extends Quiet s s' where
  noted : s.db.Noted {} s'.db

theorem Traceless.refl (s : BankingPosition) : Traceless s s := ⟨.refl s, .refl s.db⟩

theorem Traceless.trans (h : Traceless s s') (h' : Traceless s' s'') :
    Traceless s s'' := ⟨h.toQuiet.trans h'.toQuiet, h.noted.silent h'.noted⟩

structure Idle (s s' : BankingPosition) : Prop extends s.Extends s' where
  db : s'.db = s.db

theorem Idle.refl (s : BankingPosition) : Idle s s := ⟨.refl s, rfl⟩

theorem Idle.trans (h : Idle s s') (h' : Idle s' s'') :
    Idle s s'' := ⟨h.toExtends.trans h'.toExtends, h'.db.trans h.db⟩

theorem Idle.silent (h : Idle s s') : Traceless s s' :=
  ⟨⟨h.toExtends, by rw [h.db]⟩, by rw [h.db]; exact .refl s.db⟩

variable {s : BankingPosition} {α β : Type}

theorem ensures_read {f : DB → β} {Q : β → BankingPosition → Prop} (h : Q (f s.db) s) :
    Ensures (call (readOnly f)) s Q := by
  apply Ensures.call
  intro eff hs
  obtain rfl := readOnly_ok.mp hs
  simpa [Effect.claims] using h

theorem ensures_lookup {f : DB → Option β} {Q : β → BankingPosition → Prop}
    (h : ∀ a, f s.db = some a → Q a s) : Ensures (fetch e (readOnly f)) s Q := by
  apply Ensures.fetch
  intro eff a hs ha
  obtain rfl := readOnly_ok.mp hs
  simpa [Effect.claims] using h a ha

theorem ensures_tryRead {f : DB → Except SqlError β} {Q : β → BankingPosition → Prop}
    (h : ∀ b, f s.db = .ok b → Q b s) : Ensures (call (tryRead f)) s Q := by
  apply Ensures.call
  intro eff hs
  obtain ⟨b, hb, rfl⟩ := tryRead_ok.mp hs
  simpa [Effect.claims] using h b hb

theorem ensures_selectForUpdate {find : DB → Option β} {key : β → LockKey}
    {Q : β → BankingPosition → Prop}
    (h : ∀ a s', Idle s s' → find s.db = some a → key a ∈ s'.held → Q a s') :
    Ensures (fetch e (selectForUpdate find key)) s Q := by
  apply Ensures.fetch
  intro eff a hs ha
  obtain rfl := selectForUpdate_ok.mp hs
  refine h a _ ⟨s.extends_after _ _, rfl⟩ ha ?_
  dsimp only at ha
  simp [Effect.claims, ha]

theorem ensures_silent {q : Query β} {Q : β → BankingPosition → Prop}
    (hq : ∀ eff, q.exec s.own s.db = .ok eff →
      ∀ w ∈ eff.writes, w.touchesBooks = false ∧ w.isSilent = true)
    (h : ∀ a s', Traceless s s' → Q a s') : Ensures (call q) s Q := by
  apply Ensures.call
  intro eff hs
  exact h _ _ ⟨⟨s.extends_after _ _, toBooks_view (fun w hw => (hq eff hs w hw).1) s.db⟩,
    noted_view (fun w hw => (hq eff hs w hw).2) s.db⟩

section Rows

variable {R κ : Type} [Keyed R κ] [DecidableEq κ] {table : DB → Table R}

structure Wrote (w : Write) (s s' : BankingPosition) : Prop extends s.Extends s' where
  db : s'.db = w.apply s.db
  mem : w ∈ s'.own
  keys : ∀ k ∈ w.keys, k ∈ s'.held

variable {w : Write} {s s' : BankingPosition} {constraint : κ → String}
    {Q : R → BankingPosition → Prop}

theorem wrote_after (w : Write) (s : BankingPosition) (a : β) :
    Wrote w s (s.after [w] (Effect.mk a [w] [] : Answer β).claims) where
  toExtends := s.extends_after _ _
  db := rfl
  mem := by simp
  keys := by
    intro k hk
    simp [Effect.claims, hk]

theorem Wrote.quiet (h : Wrote w s s') (hw : w.touchesBooks = false) : Quiet s s' :=
  ⟨h.toExtends, by rw [h.db, toBooks_apply hw]⟩

theorem Wrote.noted (h : Wrote w s s') (hw : w.isSilent = true) : s.db.Noted {} s'.db := by
  rw [h.db]
  exact noted_apply hw s.db

theorem Wrote.silent (h : Wrote w s s') (hbooks : w.touchesBooks = false) (hw : w.isSilent = true) :
    Traceless s s' :=
  ⟨h.quiet hbooks, h.noted hw⟩

theorem ensures_insertRow {violated orphaned : DB → Option SqlError} {write : R → Write} {r : R}
    (h : ∀ s', Wrote (write r) s s' → violated s.db = none → (table s.db).conflict r = none →
      orphaned s.db = none → Q r s') :
    Ensures (call (insertRow table constraint violated orphaned write r)) s Q := by
  apply Ensures.call
  intro eff hs
  obtain ⟨hviol, hconf, horph, rfl⟩ := insertRow_ok.mp hs
  exact h _ (wrote_after _ s r) hviol hconf horph

theorem ensures_updateRow {k : κ} {f : R → Except SqlError (Option R)}
    {violated : R → R → Option SqlError} {write : R → R → Write} {lock : κ → LockKey} {e : Err}
    (h : ∀ o r s', Wrote (write o r) s s' → Updates table k f violated s.db o r → Q r s') :
    Ensures (fetch e (updateRow table k f violated constraint write lock)) s Q := by
  apply Ensures.fetch
  intro eff a hs ha
  rcases updateRow_ok.mp hs with ⟨_, rfl⟩ | ⟨o, r, hupd, rfl⟩
  · cases ha
  · obtain rfl : r = a := Option.some.inj ha
    exact h o r _ (wrote_after _ s (some r)) hupd

end Rows

theorem ensures_getAccountForUpdate {Q : Account → BankingPosition → Prop}
    (h : ∀ a s', Idle s s' → s.db.accounts.get (.id a.id) = some a → a.id = id → Q a s') :
    Ensures (fetch e (getAccountForUpdate id)) s Q := by
  apply ensures_selectForUpdate
  intro a s' hq ha _
  have hid : a.id = id := by simpa [keys, eq_comm] using Table.key_of_get ha
  exact h a s' hq (by rwa [hid]) hid

theorem ensures_getAccountByPublicIDForUpdate {publicID : Option UUID}
    {Q : Account → BankingPosition → Prop}
    (h : ∀ a s', Idle s s' → s.db.accounts.get (.id a.id) = some a → Q a s') :
    Ensures (fetch e (getAccountByPublicIDForUpdate publicID)) s Q := by
  apply ensures_selectForUpdate
  intro a s' hq ha _
  refine h a s' hq ?_
  cases publicID with
  | none => cases ha
  | some id => exact Table.get_eq_of_key ha (Keyed.pk_mem a)

theorem ensures_updateAccountRow {f : Account → Except SqlError (Option Account)}
    {Q : Account → BankingPosition → Prop} (hf : ∀ o r, f o = .ok (some r) → keys r = keys o)
    (h : ∀ o r s', s.Extends s' → s.db.accounts.get (.id o.id) = some o → o.id = id →
      f o = .ok (some r) →
      s'.db.toBooks = { s.db.toBooks with accounts := s.db.accounts.update r } →
      s.db.Noted {} s'.db → LockKey.account (.id o.id) ∈ s'.held → Q r s') :
    Ensures (fetch e (updateAccountRow id f)) s Q := by
  apply ensures_updateRow
  intro o r s' hw hupd
  have hkeys := hf o r hupd.new
  have hid : o.id = id := by simpa [keys, eq_comm] using Table.key_of_get hupd.row
  have hpk : r.id = id := (Account.keys_eq_iff.mp hkeys).1.trans hid
  have hrow : s.db.accounts.get (.id o.id) = some o := by
    rw [hid]
    exact hupd.row
  refine h o r s' hw.toExtends hrow hid hupd.new ?_ (hw.noted rfl) ?_
  · rw [hw.db]
    simp only [Write.apply]
    rw [Table.amend_eq (by simpa only [pk, hpk] using hupd.row)]
  · apply hw.keys
    simp [Write.keys, keys]

theorem ensures_addAccountBalance {amount : Int64} {Q : Account → BankingPosition → Prop}
    (h : ∀ o r s', s.Extends s' → s.db.accounts.get (.id o.id) = some o → o.id = id →
      o.Credited amount.toInt r → 0 ≤ r.balance →
      s'.db.toBooks = { s.db.toBooks with accounts := s.db.accounts.update r } →
      s.db.Noted {} s'.db → LockKey.account (.id o.id) ∈ s'.held → Q r s') :
    Ensures (addAccountBalance env id amount e) s Q := by
  refine ensures_updateAccountRow ?_ ?_
  · intro o r hr
    rw [(Account.addBalance_some hr).2.2]
    rfl
  · intro o r s' hext ho hid hr
    obtain ⟨hpos, hbal, heq⟩ := Account.addBalance_some hr
    refine h o r s' hext ho hid ⟨?_, ?_, hbal, fun _ => hpos⟩ hpos
    · rw [heq]
      rfl
    · rw [heq]

/-! ## Booking a transaction

The position of a transaction that has inserted the banking transaction `id` and
goes on to write its postings and to credit the accounts. -/

structure Drafted (s : BankingPosition) (id : UUID) (transactions : Table BankingTransaction)
    (ps : List LedgerPosting) (ms : List Move) (s' : BankingPosition) : Prop extends
    s.Extends s' where
  inserted : ∃ w ∈ s'.own, w.balancedTransaction = some id
  transactions : s'.db.bankingTransactions = transactions
  ledgerAccounts : s'.db.ledgerAccounts = s.db.ledgerAccounts
  postings : s'.db.ledgerPostings.rows = s.db.ledgerPostings.rows ++ ps
  ledger : ∀ p ∈ ps, ∃ l, s.db.ledgerAccounts.get (.id p.ledgerAccountID) = some l
  credits : Credits ms s.db.accounts s'.db.accounts
  locked : ∀ m ∈ ms, LockKey.account (.id m.1) ∈ s'.held

namespace Drafted

variable {id : UUID} {transactions transactions' : Table BankingTransaction}
  {ps : List LedgerPosting} {ms : List Move} {s' s'' : BankingPosition}

theorem inserted_of_extends (h : Drafted s id transactions ps ms s') (hext : s'.Extends s'') :
    ∃ w ∈ s''.own, w.balancedTransaction = some id := by
  obtain ⟨w, hw, hid⟩ := h.inserted
  exact ⟨w, hext.own w hw, hid⟩

theorem extend (h : Drafted s id transactions ps ms s') (hext : s'.Extends s'')
    (hbooks : s''.db.toBooks = { s'.db.toBooks with bankingTransactions := transactions' }) :
    Drafted s id transactions' ps ms s'' where
  toExtends := h.toExtends.trans hext
  inserted := h.inserted_of_extends hext
  transactions := by rw [hbooks]
  ledgerAccounts := by rw [hbooks, h.ledgerAccounts]
  postings := by rw [hbooks, h.postings]
  ledger := h.ledger
  credits := by
    rw [hbooks]
    exact h.credits
  locked m hm := hext.held _ (h.locked m hm)

theorem quiet (h : Drafted s id transactions ps ms s') (hq : Quiet s' s'') :
    Drafted s id transactions ps ms s'' := by
  refine h.extend hq.toExtends ?_
  rw [hq.books, ← h.transactions]

end Drafted

/-- A drafted transaction with the notices added since `s`. -/
structure Draft (s : BankingPosition) (id : UUID) (transactions : Table BankingTransaction)
    (ps : List LedgerPosting) (ms : List Move) (ns : Notices) (s' : BankingPosition) : Prop extends
    Drafted s id transactions ps ms s' where
  noted : s.db.Noted ns s'.db

namespace Draft

variable {id : UUID} {transactions : Table BankingTransaction}
  {ps : List LedgerPosting} {ms : List Move} {ns ns' : Notices} {s' s'' : BankingPosition}

variable {env : Env} {amount : Int64}

theorem notes (h : Draft s id transactions ps ms ns s') (hq : Quiet s' s'')
    (hn : s'.db.Noted ns' s''.db) : Draft s id transactions ps ms (ns ++ ns') s'' where
  toDrafted := h.toDrafted.quiet hq
  noted := h.noted.trans hn

theorem silent (h : Draft s id transactions ps ms ns s') (hs : Traceless s' s'') :
    Draft s id transactions ps ms ns s'' where
  toDrafted := h.toDrafted.quiet hs.toQuiet
  noted := h.noted.silent hs.noted

theorem addAccountBalance (h : Draft s id transactions ps ms ns s') {accountID : Int64} {e : Err}
    {Q : Account → BankingPosition → Prop}
    (hQ : ∀ a r s'', s.db.accounts.get (.id accountID) = some a →
      a.Credited (movedTo ms accountID + amount.toInt) r → 0 ≤ r.balance →
      Draft s id transactions ps (ms ++ [(accountID, amount)]) ns s'' → Q r s'') :
    Ensures (addAccountBalance env accountID amount e) s' Q := by
  apply ensures_addAccountBalance
  intro o r s'' hext ho hid hcred hnonneg hbooks hnoted hlock
  obtain ⟨a, ha, hao⟩ := h.credits.get_before ho
  have haccount : a.id = accountID := hao.id_eq.symm.trans hid
  refine hQ a r s'' (hid ▸ ha) (haccount ▸ hao.trans hcred) hnonneg ?_
  exact {
    noted := h.noted.silent hnoted
    toExtends := h.toExtends.trans hext
    inserted := h.inserted_of_extends hext
    transactions := by rw [hbooks, ← h.transactions]
    ledgerAccounts := by rw [hbooks, h.ledgerAccounts]
    postings := by rw [hbooks, h.postings]
    ledger := h.ledger
    credits := by
      rw [hbooks, ← hid]
      exact h.credits.update (by rwa [hcred.id_eq]) hcred
    locked := by
      intro m hm
      rcases List.mem_append.mp hm with hm | hm
      · exact hext.held _ (h.locked m hm)
      · rw [List.mem_singleton.mp hm, ← hid]
        exact hlock }

theorem createLedgerPosting (h : Draft s id transactions ps ms ns s') {now : Timestamp} {t : UUID}
    {l : Int64} {Q : LedgerPosting → BankingPosition → Prop}
    (hQ : ∀ s'', Draft s id transactions (ps ++ [⟨t, l, amount, now⟩]) ms ns s'' →
      Q ⟨t, l, amount, now⟩ s'') : Ensures (call (createLedgerPosting now t l amount)) s' Q := by
  apply ensures_insertRow
  intro s'' hw _ hconf horph
  obtain ⟨row, hrow⟩ := missingLedgerAccount_eq_none.mp horph
  apply hQ
  exact {
    noted := h.noted.silent (hw.noted rfl)
    toExtends := h.toExtends.trans hw.toExtends
    inserted := h.inserted_of_extends hw.toExtends
    transactions := by
      rw [hw.db]
      exact h.transactions
    ledgerAccounts := by
      rw [hw.db]
      exact h.ledgerAccounts
    postings := by
      rw [hw.db]
      simp only [Write.apply, Table.insert_rows hconf, h.postings, List.append_assoc]
    ledger := by
      intro p hp
      rcases List.mem_append.mp hp with hp | hp
      · exact h.ledger p hp
      · rw [List.mem_singleton.mp hp, ← h.ledgerAccounts]
        exact ⟨row, hrow⟩
    credits := by
      rw [hw.db]
      exact h.credits
    locked := fun m hm => hw.held _ (h.locked m hm) }

theorem createPostings (h : Draft s id transactions ps ms ns s') {t : BankingTransaction}
    {params : List PostingParams} (ht : t.createdAt = env.now)
    {Q : List LedgerPosting → BankingPosition → Prop}
    (hQ : ∀ s'', Draft s id transactions (ps ++ params.map (PostingParams.posting t)) ms ns s'' →
      Q (params.map (PostingParams.posting t)) s'') :
    Ensures (createPostings env t.id params) s' Q := by
  induction params generalizing ps s' Q with
  | nil => exact .ret (hQ s' (by simpa using h))
  | cons p params ih =>
    apply Ensures.bind
    apply h.createLedgerPosting
    intro s₁ h₁
    apply Ensures.bind
    apply ih h₁
    intro s₂ h₂
    apply Ensures.ret
    have hp : (⟨t.id, p.ledgerAccountID, p.amount, env.now⟩ : LedgerPosting) = p.posting t := by
      rw [PostingParams.posting, ht]
    rw [hp] at h₂ ⊢
    exact hQ s₂ (by simpa using h₂)

end Draft

/-- `t` is the row asked for by `arg`. -/
structure PendingTransactionParams.Describes (arg : PendingTransactionParams) (now : Timestamp)
    (t : BankingTransaction) : Prop where
  transactionType : t.transactionType = arg.transactionType
  currency : t.currency = arg.currency
  amount : t.amount = arg.amount
  reversalOf : t.reversalOf = arg.reversalOf
  createdAt : t.createdAt = now

theorem ensures_createBankingTransaction {arg : CreateBankingTransactionParams}
    {Q : BankingTransaction → BankingPosition → Prop}
    (h : ∀ s', s.db.bankingTransactions.conflict (newBankingTransaction now arg) = none →
      Draft s arg.id (s.db.bankingTransactions.insert (newBankingTransaction now arg)) [] [] {} s' →
      Q (newBankingTransaction now arg) s') :
    Ensures (call (createBankingTransaction now arg)) s Q := by
  apply ensures_insertRow
  intro s' hw _ hconf _
  refine h s' hconf {
    noted := hw.noted rfl
    toExtends := hw.toExtends
    inserted := ⟨_, hw.mem, rfl⟩
    transactions := by
      rw [hw.db]
      rfl
    ledgerAccounts := by
      rw [hw.db]
      rfl
    postings := by
      rw [hw.db]
      simp [Write.apply]
    ledger := by simp
    credits := by
      rw [hw.db]
      exact credits_nil _
    locked := by simp }

theorem ensures_createBalancedTransaction {arg : PendingTransactionParams}
    {params : List PostingParams}
    {Q : BankingTransaction × List LedgerPosting → BankingPosition → Prop}
    (h : ∀ t s', arg.Describes env.now t → s.db.bankingTransactions.conflict t = none →
      0 < arg.amount → (∀ p ∈ params, p.amount ≠ 0) →
      Draft s t.id (s.db.bankingTransactions.insert t) (params.map (PostingParams.posting t))
        [] {} s' →
      Q (t, params.map (PostingParams.posting t)) s') :
    Ensures (createBalancedTransaction env arg params) s Q := by
  refine .bind (.refuse fun hpos => ?_)
  refine .bind (.refuse fun _ => ?_)
  refine .bind (.refuse fun hzero => ?_)
  refine .bind (.refuse fun _ => ?_)
  apply Ensures.bind
  apply ensures_createBankingTransaction
  intro s₁ hconf h₁
  apply Ensures.bind
  apply h₁.createPostings rfl
  intro s₂ h₂
  exact .ret (h _ s₂ ⟨rfl, rfl, rfl, rfl, rfl⟩ hconf (by simpa using hpos)
    (by simpa using hzero) h₂)

theorem ensures_updateBankingTransactionRow {id : UUID}
    {f : BankingTransaction → Except SqlError (Option BankingTransaction)}
    {Q : BankingTransaction → BankingPosition → Prop}
    (hf : ∀ o r, f o = .ok (some r) → r.id = o.id)
    (h : ∀ o r s', s.Extends s' → s.db.bankingTransactions.get (.id id) = some o →
      f o = .ok (some r) →
      s'.db.toBooks = { s.db.toBooks with
        bankingTransactions := s.db.bankingTransactions.update r } →
      s.db.Noted {} s'.db → Q r s') : Ensures (fetch e (updateBankingTransactionRow id f)) s Q := by
  apply ensures_updateRow
  intro o r s' hw hupd
  have hid : o.id = id := by simpa [keys, eq_comm] using Table.key_of_get hupd.row
  refine h o r s' hw.toExtends hupd.row hupd.new ?_ (hw.noted rfl)
  rw [hw.db]
  simp only [Write.apply]
  rw [Table.amend_eq (by simpa only [pk, hf o r hupd.new, hid] using hupd.row)]

def BankingTransaction.asPosted (now : Timestamp) (t : BankingTransaction) : BankingTransaction :=
  { t with status := .posted, postedAt := some now }

theorem Draft.markPosted {t : BankingTransaction} {transactions : Table BankingTransaction}
    {ps : List LedgerPosting} {ms : List Move} {ns : Notices}
    {Q : BankingTransaction → BankingPosition → Prop}
    (h : Draft s t.id (transactions.insert t) ps ms ns s')
    (hfresh : transactions.conflict t = none)
    (hQ : ∀ s'', Draft s t.id (transactions.insert (t.asPosted env.now)) ps ms ns s'' →
      Q (t.asPosted env.now) s'') : Ensures (markPosted env t.id) s' Q := by
  refine ensures_updateBankingTransactionRow ?_ ?_
  · intro o r hr
    rw [(BankingTransaction.post_some hr).2]
  intro o r s'' hext ho hr hbooks hnoted
  obtain rfl : o = t := by
    have hself : BankingTransactionKey.id t.id ∈ keys t := Keyed.pk_mem t
    rw [h.transactions, Table.get_insert hfresh, if_pos hself] at ho
    exact (Option.some.inj ho).symm
  obtain rfl : r = o.asPosted env.now := (BankingTransaction.post_some hr).2
  apply hQ
  refine ⟨h.toDrafted.extend hext ?_, h.noted.silent hnoted⟩
  have hkeys : keys (o.asPosted env.now) = keys o := rfl
  rw [hbooks, h.transactions, Table.update_insert hfresh hkeys rfl]

def Write.isNotice : Write → Bool
  | insertAuditLog _ => true
  | insertEmailJob _ => true
  | insertOutboxEvent _ => true
  | _ => false

theorem Write.touchesBooks_of_isNotice (h : w.isNotice = true) : w.touchesBooks = false := by
  cases w <;> first
    | rfl
    | cases h

structure Notes (s s' : BankingPosition) : Prop extends Quiet s s' where
  notices : ∀ w ∈ s'.own, w ∈ s.own ∨ w.isNotice = true

theorem Notes.trans (h : Notes s s') (h' : Notes s' s'') :
    Notes s s'' where
  toQuiet := h.toQuiet.trans h'.toQuiet
  notices w hw := (h'.notices w hw).elim (h.notices w) Or.inr

theorem notes_call {q : Query β} {Q : β → BankingPosition → Prop}
    (hq : ∀ eff, q.exec s.own s.db = .ok eff → ∀ w ∈ eff.writes, w.isNotice = true)
    (h : ∀ a s', Notes s s' → Q a s') : Ensures (call q) s Q := by
  apply Ensures.call
  intro eff hs
  have hnotice := hq eff hs
  refine h _ _ ⟨⟨s.extends_after _ _, toBooks_view (fun w hw =>
    Write.touchesBooks_of_isNotice (hnotice w hw)) s.db⟩, ?_⟩
  intro w hw
  exact (List.mem_append.mp hw).imp id (hnotice w)

theorem notes_createAuditLog {arg : CreateAuditLogParams} {Q : AuditLog → BankingPosition → Prop}
    (h : ∀ r s', Notes s s' → Q r s') : Ensures (call (createAuditLog now arg)) s Q := by
  refine notes_call ?_ h
  intro eff hs w hw
  rw [createAuditLog_ok hs, List.mem_singleton] at hw
  rw [hw]
  rfl

theorem notes_notification {R κ : Type} [Keyed R κ] [DecidableEq κ] {table : DB → Table R}
    {constraint : κ → String} {violated orphaned : DB → Option SqlError} {write : R → Write}
    {audit : R → AuditLog} {r : R} {Q : R → BankingPosition → Prop}
    (hw : (write r).isNotice = true) (h : ∀ r s', Notes s s' → Q r s') :
    Ensures (call (audited (insertRow table constraint violated orphaned write r) audit)) s Q := by
  refine notes_call ?_ h
  intro eff hs w hmem
  obtain ⟨e, he, rfl⟩ := audited_ok.mp hs
  obtain ⟨_, _, _, rfl⟩ := insertRow_ok.mp he
  simp only [List.cons_append, List.nil_append, List.mem_cons, List.not_mem_nil, or_false] at hmem
  rcases hmem with rfl | rfl
  · exact hw
  · rfl

theorem notes_createFinancialNotification {arg : FinancialNotificationParams}
    {Q : EmailJob × OutboxEvent → BankingPosition → Prop} (h : ∀ r s', Notes s s' → Q r s') :
    Ensures (createFinancialNotification env n arg) s Q := by
  apply Ensures.bind
  apply ensures_lookup
  intro user _
  apply Ensures.bind
  refine notes_notification rfl ?_
  intro job s₁ h₁
  apply Ensures.bind
  refine notes_notification rfl ?_
  intro event s₂ h₂
  exact .ret (h _ s₂ (h₁.trans h₂))

theorem ensures_createAuditLog {arg : CreateAuditLogParams}
    {Q : AuditLog → BankingPosition → Prop}
    (h : ∀ r s', Quiet s s' → arg.Describes r → s.db.Noted { audits := [r] } s'.db → Q r s') :
    Ensures (call (createAuditLog now arg)) s Q := by
  have hquiet : Ensures (call (createAuditLog now arg)) s fun _ s' => Quiet s s' :=
    notes_createAuditLog fun _ _ hn => hn.toQuiet
  refine (hquiet.and noted_createAuditLog).mono ?_
  rintro r s' ⟨hq, hr, hn⟩
  exact h r s' hq hr hn

theorem ensures_createFinancialNotification {arg : FinancialNotificationParams}
    {Q : EmailJob × OutboxEvent → BankingPosition → Prop}
    (h : ∀ r s' user, Quiet s s' → s.db.users.get (.username arg.username) = some user →
      s.db.Noted (notificationNotices env n arg user) s'.db → Q r s') :
    Ensures (createFinancialNotification env n arg) s Q := by
  have hquiet : Ensures (createFinancialNotification env n arg) s fun _ s' => Quiet s s' :=
    notes_createFinancialNotification fun _ _ hn => hn.toQuiet
  refine (hquiet.and noted_createFinancialNotification).mono ?_
  rintro r s' ⟨hq, user, huser, _, hn⟩
  exact h r s' user hq huser hn

section DraftNotices

variable {id : UUID} {transactions : Table BankingTransaction} {ps : List LedgerPosting}
  {ms : List Move} {ns : Notices} {s' : BankingPosition}

theorem Draft.createAuditLog (h : Draft s id transactions ps ms ns s') {now : Timestamp}
    {arg : CreateAuditLogParams} {Q : AuditLog → BankingPosition → Prop}
    (hQ : ∀ r s'', arg.Describes r → Draft s id transactions ps ms (ns ++ { audits := [r] }) s'' →
      Q r s'') : Ensures (call (createAuditLog now arg)) s' Q :=
  ensures_createAuditLog fun r s'' hq hr hn => hQ r s'' hr (h.notes hq hn)

theorem Draft.createFinancialNotification (h : Draft s id transactions ps ms ns s') {env : Env}
    {n : Nat} {arg : FinancialNotificationParams}
    {Q : EmailJob × OutboxEvent → BankingPosition → Prop}
    (hQ : ∀ r s'' user, s.db.users.get (.username arg.username) = some user →
      Draft s id transactions ps ms (ns ++ notificationNotices env n arg user) s'' → Q r s'') :
    Ensures (createFinancialNotification env n arg) s' Q := by
  apply ensures_createFinancialNotification
  intro r s'' user hq huser hn
  rw [h.noted.users] at huser
  exact hQ r s'' user huser (h.notes hq hn)

end DraftNotices

def Accepted (s : BankingPosition) : Prop :=
  ∀ w ∈ s.own, ∀ id, w.balancedTransaction = some id →
    validateBankingTransactionBalance s.db.toBooks id = none

theorem ensures_execTx {fn : Tx α} {Q : α → BankingPosition → Prop}
    (h : Ensures fn s fun a s' => Accepted s' → Q a s') : Ensures (execTx fn) s Q := by
  refine .bind (h.mono ?_)
  intro a s' hQ
  apply Ensures.bind
  apply Ensures.call
  intro eff hs
  obtain ⟨hall, rfl⟩ := deferredTriggers_ok.mp hs
  apply Ensures.ret
  simpa [Effect.claims] using hQ hall

end Monierave
