import Mathlib.Data.List.Dedup
import Monierave.Banking.Movements

/-! # The banking transactions refine the bookkeeping steps

The operations on accounts and the reversal, and from all of them together: run
without interruption, every transaction that succeeds takes one bookkeeping step
and records it.
-/

namespace Monierave

open Relational ReadCommitted Prog

variable {s s' s'' : BankingPosition} {α : Type}

variable {ns : Notices} {ids : List Int64} {Q : List Account → BankingPosition → Prop} {id : UUID}
    {transactions : Table BankingTransaction} {ps : List LedgerPosting} {ms moves : List Move}
    {env : Env} {db : DB} {t about original : BankingTransaction} {n : Nat}

theorem Finishing.restates {a a' : Account} (h : s.db.Restates a a')
    (hbooks : s'.db.toBooks = { s.db.toBooks with accounts := s.db.accounts.update a' })
    (hn : s.db.Noted ns s'.db) (hns : ns.Apart fun _ => False) : Finishing s s' := by
  intro s'' hs _
  have hbooks' := hs.books.trans hbooks
  refine ⟨.unmoved ?_ (by rw [hbooks']) (hn.silent hs.noted) hns, ?_⟩
  · rw [hbooks']
    exact .restates h
  · intro _ _ _ _
    rw [hbooks']
    rfl

theorem refines_setAccountStatusTx (env : Env) (arg : AccountStatusTxParams) :
    Refines (setAccountStatusTx env arg) := by
  apply refines_execTx
  intro s hwf
  apply Ensures.bind
  apply ensures_getAccountByPublicIDForUpdate
  intro account s₁ hi₁ haccount
  refine .bind (.refuse fun hclosed => ?_)
  refine .bind (.refuse fun _ => ?_)
  apply Ensures.bind
  refine ensures_updateAccountRow ?_ ?_
  · intro o r hr
    rw [(Account.setStatus_some hr).2]
    rfl
  intro o r s₂ hext ho hid hr hbooks hn₂ _
  obtain ⟨htarget, heq⟩ := Account.setStatus_some hr
  obtain rfl : o = account := by
    rw [← hi₁.db, ← hid, ho] at haccount
    exact Option.some.inj haccount
  have hrestates : s₁.db.Restates o r := by
    refine ⟨ho, by rw [heq]; rfl, by rw [heq], hclosed, ?_⟩
    intro hr
    rw [heq] at hr
    simp only at hr
    rw [hr] at htarget
    simp at htarget
  apply Ensures.bind
  apply ensures_createAuditLog
  intro audit s₃ hq₃ haudit hn₃
  apply Ensures.bind
  apply ensures_createFinancialNotification
  intro _ s₄ user hq₄ _ hn₄
  apply Ensures.ret
  refine (Finishing.restates hrestates ((hq₃.trans hq₄).books.trans hbooks)
    ((hn₂.trans hn₃).trans hn₄) ?_).of_silent hi₁.silent
  refine (Notices.apart_none.append (Notices.apart_audit ?_)).append (Notices.apart_notification ?_)
  · rw [haudit.entityType]
    rintro ⟨⟩
  · dsimp only
    split_ifs <;> rfl

theorem refines_closeAccountTx (env : Env) (arg : CloseAccountTxParams) :
    Refines (closeAccountTx env arg) := by
  apply refines_execTx
  intro s hwf
  apply Ensures.bind
  apply ensures_getAccountByPublicIDForUpdate
  intro account s₁ hi₁ haccount
  refine .bind (.refuse fun _ => ?_)
  refine .bind (.refuse fun _ => ?_)
  refine .bind (.refuse fun _ => ?_)
  apply Ensures.bind
  refine ensures_updateAccountRow ?_ ?_
  · intro o r hr
    rw [(Account.close_some hr).2.2]
    rfl
  intro o r s₂ hext ho hid hr hbooks hn₂ _
  obtain ⟨hzero, hopen, heq⟩ := Account.close_some hr
  have hrestates : s₁.db.Restates o r :=
    ⟨ho, by rw [heq]; rfl, by rw [heq], hopen, fun _ => hzero⟩
  apply Ensures.bind
  apply ensures_createAuditLog
  intro audit s₃ hq₃ haudit hn₃
  apply Ensures.bind
  apply ensures_createFinancialNotification
  intro _ s₄ user hq₄ _ hn₄
  apply Ensures.ret
  refine (Finishing.restates hrestates ((hq₃.trans hq₄).books.trans hbooks)
    ((hn₂.trans hn₃).trans hn₄) ?_).of_silent hi₁.silent
  refine (Notices.apart_none.append (Notices.apart_audit ?_)).append
    (Notices.apart_notification rfl)
  rw [haudit.entityType]
  rintro ⟨⟩

theorem refines_createAccountAttempt (env : Env) (arg : CreateAccountParams) :
    Refines (createAccountAttempt env arg) := by
  apply refines_execTx
  intro s hwf
  apply Ensures.bind
  apply ensures_insertRow
  intro s₁ hw₁ _ hfresh _
  apply Ensures.bind
  apply ensures_insertRow
  intro s₂ hw₂ _ hledger _
  apply Ensures.bind
  apply ensures_createAuditLog
  intro audit s₃ hq₃ haudit hn₃
  apply Ensures.ret
  intro s'' hs _
  have hbooks : s''.db.toBooks = { s.db.toBooks with
      accounts := s.db.accounts.insert (newAccount env arg)
      ledgerAccounts := s.db.ledgerAccounts.insert
        ⟨env.serial 1, .customer (newAccount env arg).id, (newAccount env arg).currency⟩ } := by
    rw [(hq₃.trans hs.toQuiet).books, hw₂.db, hw₁.db]
    rfl
  rw [hw₁.db] at hledger
  have hn := (((hw₁.noted rfl).trans (hw₂.noted rfl)).trans hn₃).silent hs.noted
  refine ⟨.unmoved ?_ (by rw [hbooks]) hn ?_, ?_⟩
  · rw [hbooks]
    exact .opens ⟨hfresh, hledger, rfl, rfl, rfl⟩
  · refine (Notices.apart_none.append Notices.apart_none).append (Notices.apart_audit ?_)
    rw [haudit.entityType]
    rintro ⟨⟩
  · intro _ _ _ _
    rw [hbooks]
    rfl

theorem ensures_lockAccounts (h : ∀ accounts s', Idle s s' →
      (∀ id ∈ ids, ∃ a ∈ accounts, s.db.accounts.get (.id id) = some a) → Q accounts s') :
    Ensures (lockAccounts ids) s Q := by
  induction ids generalizing s Q with
  | nil => exact .ret (h [] s (.refl s) (by simp))
  | cons id ids ih =>
    apply Ensures.bind
    apply ensures_getAccountForUpdate
    intro account s₁ hi₁ haccount hid
    apply Ensures.bind
    apply ih
    intro accounts s₂ hi₂ hall
    apply Ensures.ret
    refine h _ s₂ (hi₁.trans hi₂) ?_
    rw [hi₁.db] at hall
    rw [List.forall_mem_cons]
    refine ⟨⟨account, List.mem_cons_self, hid ▸ haccount⟩, ?_⟩
    intro j hj
    obtain ⟨a, ha, hget⟩ := hall j hj
    exact ⟨a, List.mem_cons_of_mem _ ha, hget⟩

theorem neg_neg_of_lt (delta : Int64) : (if delta < 0 then -(-delta) else delta) = delta := by
  simp

def undoneMoves (source : List ReversalSourcePosting) : List Move :=
  source.filterMap fun p => p.customerAccountID.map fun a => (a, -p.amount)

/-- The entry of an account in the answer of `undoPostings` fits the move on it. -/
structure ReversedAccount.Fits (db : DB) (x : Int64 × ReversedAccount) (m : Move) : Prop where
  account : x.1 = m.1
  direction : x.2.direction = m.direction
  owner : ∃ a, db.accounts.get (.id m.1) = some a ∧ x.2.account.owner = a.owner

theorem Draft.undoPostings (h : Draft s id transactions ps ms ns s')
    {source : List ReversalSourcePosting}
    {Q : List (Int64 × ReversedAccount) → BankingPosition → Prop}
    (hQ : ∀ r s'', (∀ x ∈ r, ∃ m ∈ undoneMoves source, ReversedAccount.Fits s.db x m) →
      Draft s id transactions ps (ms ++ undoneMoves source) ns s'' → Q r s'') :
    Ensures (undoPostings env source) s' Q := by
  induction source generalizing ms s' Q with
  | nil => exact .ret (hQ [] s' (by simp) (by simpa [undoneMoves] using h))
  | cons p source ih =>
    unfold Monierave.undoPostings
    cases ho : p.owner with
    | settlement code =>
      have hmoves : undoneMoves (p :: source) = undoneMoves source := by
        simp [undoneMoves, ReversalSourcePosting.customerAccountID, ho]
      apply ih h
      intro r s'' hr h'
      rw [← hmoves] at hr h'
      exact hQ r s'' hr h'
    | customer accountID =>
      have hmoves : undoneMoves (p :: source) = (accountID, -p.amount) :: undoneMoves source := by
        simp [undoneMoves, ReversalSourcePosting.customerAccountID, ho]
      simp only [neg_neg_of_lt]
      apply Ensures.bind
      apply h.addAccountBalance
      intro a updated s₁ ha hcred _ h₁
      apply Ensures.bind
      apply ih h₁
      intro others s₂ hothers h₂
      apply Ensures.ret
      refine hQ _ s₂ ?_ ?_
      · rw [hmoves]
        intro x hx
        rcases List.mem_append.mp hx with hx | hx
        · obtain ⟨m, hm, hfits⟩ := hothers x hx
          exact ⟨m, List.mem_cons_of_mem _ hm, hfits⟩
        · rw [List.mem_singleton] at hx
          subst hx
          exact ⟨_, List.mem_cons_self, rfl, rfl, a, ha, hcred.owner_eq⟩
      · rw [hmoves]
        simpa using h₂

/-- The owners of the accounts `ids` are told of what `moves` put on them. -/
structure NotifiesAll (db : DB) (t about : BankingTransaction) (eventType : String)
    (moves : List Move) (ids : List Int64) (ns : Notices) : Prop where
  audits : ∀ a ∈ ns.audits, a.entityType ≠ .bankingTransaction
  mails : ∃ mails : List (Move × EmailJob × OutboxEvent), mails.map (·.1.1) = ids ∧
    ns.jobs = mails.map (·.2.1) ∧ ns.events = mails.map (·.2.2) ∧
      ∀ x ∈ mails, x.1 ∈ moves ∧ Told db t about eventType x.1 x.2.1 x.2.2

theorem NotifiesAll.announces {eventType : String}
    (h : NotifiesAll db t about eventType moves ids ns) (hids : ids.Nodup)
    (hmoves : (moves.map Prod.fst).Nodup) (hmem : ∀ m ∈ moves, m.1 ∈ ids) :
    Announces db t about eventType moves ns := by
  obtain ⟨mails, hmap, hjobs, hevents, htold⟩ := h.mails
  refine ⟨mails, ?_, hjobs, hevents, fun x hx => (htold x hx).2⟩
  have hmap : (mails.map (·.1)).map Prod.fst = ids := by
    rw [List.map_map]
    exact hmap
  have hnodup : (mails.map (·.1)).Nodup := List.Nodup.of_map Prod.fst (hmap ▸ hids)
  rw [List.perm_ext_iff_of_nodup hnodup (List.Nodup.of_map _ hmoves)]
  intro m
  constructor
  · intro hm
    obtain ⟨x, hx, rfl⟩ := List.mem_map.mp hm
    exact (htold x hx).1
  · intro hm
    have hid := hmem m hm
    rw [← hmap, List.mem_map] at hid
    obtain ⟨m', hm', heq⟩ := hid
    obtain ⟨x, hx, rfl⟩ := List.mem_map.mp hm'
    -- two moves on one account are the same move
    rw [← List.inj_on_of_nodup_map hmoves (htold x hx).1 hm heq]
    exact hm'

theorem NotifiesAll.cons {arg : FinancialNotificationParams} {user : User} {m : Move}
    (htold : Told db t about arg.eventType m (notificationJob env n arg user)
      (notificationEvent env n arg)) (hm : m ∈ moves)
    (h : NotifiesAll db t about arg.eventType moves ids ns) :
    NotifiesAll db t about arg.eventType moves (m.1 :: ids)
      (notificationNotices env n arg user ++ ns) := by
  obtain ⟨haudits, mails, hmap, hjobs, hevents, hall⟩ := h
  refine ⟨?_, (m, notificationJob env n arg user, notificationEvent env n arg) :: mails, ?_, ?_, ?_,
    List.forall_mem_cons.mpr ⟨⟨hm, htold⟩, hall⟩⟩
  · intro a ha
    rcases List.mem_append.mp ha with ha | ha
    · exact Notices.audits_notification a ha
    · exact haudits a ha
  · rw [List.map_cons, hmap]
  · rw [Notices.append_jobs, hjobs]
    rfl
  · rw [Notices.append_events, hevents]
    rfl

theorem Draft.notifyReversal (h : Draft s id transactions ps ms ns s')
    {arg : ReverseTransactionTxParams} {reversal : BankingTransaction}
    {updated : List (Int64 × ReversedAccount)}
    (hupdated : ∀ x ∈ updated, ∃ m ∈ moves, ReversedAccount.Fits s.db x m)
    (hamount : original.amount = t.amount) (hcurrency : original.currency = t.currency)
    (hQ : ∀ r s'' ns',
      NotifiesAll s.db t original domainEventTransactionReversed moves ids ns' →
      Draft s id transactions ps ms (ns ++ ns') s'' → Q r s'') :
    Ensures (notifyReversal env arg original reversal updated n ids) s' Q := by
  induction ids generalizing ns s' Q n with
  | nil =>
    refine .ret (hQ [] s' {} ⟨by simp, [], rfl, rfl, rfl, by simp⟩ ?_)
    rwa [Notices.append_none]
  | cons accountID ids ih =>
    refine .bind (.found fun entry hentry => ?_)
    obtain ⟨before, after, hsplit, _⟩ := List.lookup_eq_some_iff.mp hentry
    obtain ⟨m, hm, hfits⟩ := hupdated (accountID, entry) (by simp [hsplit])
    obtain ⟨a, ha, howner⟩ := hfits.owner
    apply Ensures.bind
    apply h.createFinancialNotification
    intro _ s₁ user huser h₁
    apply Ensures.bind
    apply ih h₁
    intro accounts s₂ ns' hns' h₂
    apply Ensures.ret
    rw [Notices.append_assoc] at h₂
    refine hQ _ s₂ _ ?_ h₂
    have hid : accountID = m.1 := hfits.account
    rw [hid]
    exact NotifiesAll.cons (told_notification ha howner huser rfl rfl rfl hamount hcurrency
      (congrArg some hfits.direction)) hm hns'

def Books.reversalSource (b : Books) (ps : List LedgerPosting) : List ReversalSourcePosting :=
  (ps.filterMap b.withLedger).map fun (p, l) => ⟨p.ledgerAccountID, p.amount, l.owner⟩

theorem reversalSource_cons {b : Books} {p : LedgerPosting} {l : LedgerAccount}
    (hl : b.ledgerAccounts.get (.id p.ledgerAccountID) = some l) (ps : List LedgerPosting) :
    b.reversalSource (p :: ps) = ⟨p.ledgerAccountID, p.amount, l.owner⟩ :: b.reversalSource ps := by
  simp [Books.reversalSource, Books.withLedger, hl]

theorem ensures_listReversalSourcePostings
    {Q : List ReversalSourcePosting → BankingPosition → Prop}
    (h : ∀ source, source = s.db.reversalSource (s.db.postingsOf id) → Q source s) :
    Ensures (call (listReversalSourcePostings id)) s Q :=
  ensures_read (h _ rfl)

section Source

variable {b : Books} {ps : List LedgerPosting} (t : BankingTransaction)
  (hledger : ∀ p ∈ ps, ∃ l, b.ledgerAccounts.get (.id p.ledgerAccountID) = some l)

include hledger

theorem map_opposite_reversalSource :
    ((b.reversalSource ps).map ReversalSourcePosting.opposite).map (PostingParams.posting t) =
      ps.map (LedgerPosting.undo t) := by
  induction ps with
  | nil => rfl
  | cons p ps ih =>
    rw [List.forall_mem_cons] at hledger
    obtain ⟨⟨l, hl⟩, hrest⟩ := hledger
    rw [reversalSource_cons hl, List.map_cons, List.map_cons, List.map_cons, ih hrest]
    rfl

theorem moves_undo :
    b.moves (ps.map (LedgerPosting.undo t)) = undoneMoves (b.reversalSource ps) := by
  unfold undoneMoves
  induction ps with
  | nil => rfl
  | cons p ps ih =>
    rw [List.forall_mem_cons] at hledger
    obtain ⟨⟨l, hl⟩, hrest⟩ := hledger
    have htail := ih hrest
    have hhead : b.customerOf p.ledgerAccountID = l.customerAccountID := by
      simp [Books.customerOf, hl]
    simp only [Books.moves] at htail
    rw [reversalSource_cons hl, List.map_cons, Books.moves, List.filterMap_cons,
      List.filterMap_cons, htail]
    simp only [LedgerPosting.undo, hhead]
    rfl

end Source

theorem ne_of_fresh (hfresh : transactions.conflict t = none)
    (hrow : transactions.get (.id original.id) = some original) : t.id ≠ original.id := by
  intro heq
  have hnone := Table.conflict_eq_none.mp hfresh _ (Keyed.pk_mem t)
  simp only [pk, heq, hrow, reduceCtorEq] at hnone

theorem Draft.records_reversal {now : Timestamp} (h : Draft s t.id
      ((s.db.bankingTransactions.insert (t.asPosted now)).update (original.asReversed now))
      ((s.db.postingsOf original.id).map (LedgerPosting.undo t))
      (s.db.moves ((s.db.postingsOf original.id).map (LedgerPosting.undo t))) ns s')
    (hwf : s.db.WellFormed) (hacc : Accepted s')
    (hfresh : s.db.bankingTransactions.conflict t = none) (hpos : 0 < t.amount)
    (hrow : s.db.bankingTransactions.get (.id original.id) = some original)
    (hnonzero : ∀ p ∈ (s.db.postingsOf original.id).map (LedgerPosting.undo t), p.amount ≠ 0)
    (hopen : ∀ m ∈ s.db.moves ((s.db.postingsOf original.id).map (LedgerPosting.undo t)),
      ∃ a, s.db.accounts.get (.id m.1) = some a ∧ a.status ≠ .closed)
    (hexplained : ∃ a ∈ ns.audits, a.Explains (original.asReversed now))
    (hhistory : ∀ a ∈ ns.audits, a.entityType = .bankingTransaction → a.entityID = original.id)
    (hannounces : ((s.db.moves ((s.db.postingsOf original.id).map (LedgerPosting.undo t))).map
        Prod.fst).Nodup →
      Announces s.db (t.asPosted now) (original.asReversed now) domainEventTransactionReversed
        (s.db.moves ((s.db.postingsOf original.id).map (LedgerPosting.undo t))) ns) :
    Records s.db (t.asPosted now) (original.asReversed now) domainEventTransactionReversed
      ((s.db.postingsOf original.id).map (LedgerPosting.undo t)) ns s'.db := by
  have hfresh' : s.db.bankingTransactions.conflict (t.asPosted now) = none := hfresh
  have hkeys : keys (original.asReversed now) = keys original := rfl
  have hne := ne_of_fresh hfresh hrow
  have hget : ((s.db.bankingTransactions.insert (t.asPosted now)).update
      (original.asReversed now)).get (.id (t.asPosted now).id) = some (t.asPosted now) := by
    rw [Table.get_update_insert hfresh' hrow hkeys, if_neg]
    · exact if_pos (Keyed.pk_mem (t.asPosted now))
    · simpa [keys, BankingTransaction.asPosted, BankingTransaction.asReversed] using hne
  have hbelongs : ∀ p ∈ (s.db.postingsOf original.id).map (LedgerPosting.undo t),
      p.transactionID = (t.asPosted now).id := by
    intro p hp
    obtain ⟨q, _, rfl⟩ := List.mem_map.mp hp
    rfl
  have hbooking := Drafted.booking (t := t.asPosted now) h.toDrafted hwf hacc hfresh' rfl hpos hget
    hbelongs hopen
  refine ⟨hbooking, hnonzero, h.noted, ?_, hexplained, hhistory, hannounces hbooking.distinct⟩
  rw [h.transactions, Table.get_update_insert hfresh' hrow hkeys]
  exact if_pos (Keyed.pk_mem (original.asReversed now))

theorem refines_reverseTransactionTx (env : Env) (arg : ReverseTransactionTxParams) :
    Refines (reverseTransactionTx env arg) := by
  apply refines_execTx
  intro s hwf
  apply Ensures.bind
  apply ensures_selectForUpdate
  intro original s₁ hi₁ horiginal _
  refine .bind (.refuse fun htype => ?_)
  refine .bind (.refuse fun _ => ?_)
  refine .bind (.refuse fun hposted => ?_)
  apply Ensures.bind
  apply ensures_listReversalSourcePostings
  intro source hsource
  refine .bind (.refuse fun _ => ?_)
  refine .bind (.bind ?_)
  apply ensures_lockAccounts
  intro locked s₂ hi₂ hlocked
  apply Ensures.ret
  refine .bind (.refuse fun hclosed => ?_)
  apply Ensures.bind
  apply ensures_createBalancedTransaction
  intro t s₃ hdesc hfresh hpos hnonzero h₃
  apply Ensures.bind
  apply h₃.undoPostings
  intro updated s₄ hupdated h₄
  apply Ensures.bind
  apply h₄.markPosted hfresh
  intro s₅ h₅
  apply Ensures.bind
  refine ensures_updateBankingTransactionRow ?_ ?_
  · intro o r hr
    rw [(BankingTransaction.reverse_some hr).2]
  intro o r s₆ hext ho hr hbooks hn₆
  have hrow : s₂.db.bankingTransactions.get (.id original.id) = some original := by
    rw [hi₂.db, hi₁.db]
    cases hid : arg.transactionID with
    | none => simp [DB.bankingTransaction, hid] at horiginal
    | some id =>
      simp only [DB.bankingTransaction, hid, Option.bind_some] at horiginal
      exact Table.get_eq_of_key horiginal (Keyed.pk_mem original)
  -- the row marked as reversed is the one that was locked
  have hne := ne_of_fresh hfresh hrow
  obtain rfl : o = original := by
    have hmem : BankingTransactionKey.id original.id ∉ keys (t.asPosted env.now) := by
      simpa [keys, BankingTransaction.asPosted, eq_comm] using hne
    rw [h₅.transactions, Table.get_insert_of_notMem hmem, hrow] at ho
    exact (Option.some.inj ho).symm
  obtain ⟨_, rfl⟩ := BankingTransaction.reverse_some hr
  have h₆ : Draft s₂ t.id _ _ _ _ s₆ :=
    ⟨h₅.toDrafted.extend hext (hbooks.trans (by rw [h₅.transactions])), h₅.noted.silent hn₆⟩
  apply Ensures.bind
  apply h₆.createAuditLog
  intro audit s₇ haudit h₇
  have hamount : (o.asReversed env.now).amount = (t.asPosted env.now).amount := hdesc.amount.symm
  have hcurrency : (o.asReversed env.now).currency = (t.asPosted env.now).currency :=
    hdesc.currency.symm
  apply Ensures.bind
  apply h₇.notifyReversal hupdated hamount hcurrency
  intro accounts s₈ ns hns h₈
  apply Ensures.ret
  intro s'' hs hacc
  refine Performs.of_silent (hi₁.trans hi₂).silent ?_
  have hwf₂ := (hi₁.trans hi₂).silent.wellFormed hwf
  have hledger : ∀ p ∈ s₂.db.postingsOf o.id, ∃ l,
      s₂.db.ledgerAccounts.get (.id p.ledgerAccountID) = some l :=
    fun p hp => hwf₂.ledgerAccount p (List.mem_of_mem_filter hp)
  rw [← hi₂.db] at hsource
  have hdraft := h₈.silent hs
  have hmoves : undoneMoves source =
      s₂.db.moves ((s₂.db.postingsOf o.id).map (LedgerPosting.undo t)) := by
    rw [hsource, moves_undo t hledger]
  have hordered : ∀ m ∈ undoneMoves source, m.1 ∈ orderedAccountIDs
      (source.filterMap ReversalSourcePosting.customerAccountID) := by
    intro m hm
    obtain ⟨q, hq, hqm⟩ := List.mem_filterMap.mp hm
    obtain ⟨id, hid, rfl⟩ := Option.map_eq_some_iff.mp hqm
    rw [orderedAccountIDs, List.mem_insertionSort, List.mem_dedup]
    exact List.mem_filterMap.mpr ⟨q, hq, hid⟩
  have hparams := map_opposite_reversalSource t hledger
  rw [← hsource] at hparams
  rw [hparams, List.nil_append, hmoves] at hdraft
  have hkind : s₂.db.Reverses (t.asPosted env.now) o
      ((s₂.db.postingsOf o.id).map (LedgerPosting.undo t)) s''.db.toBooks :=
    ⟨hdesc.transactionType, hdesc.reversalOf, hrow, not_not.mp hposted, htype, hdesc.currency,
      hdesc.amount, rfl, env.now, hdraft.transactions⟩
  refine ⟨.reversal hkind (hdraft.records_reversal hwf₂ hacc hfresh (hdesc.amount ▸ hpos) hrow ?_ ?_
    ⟨audit, by simp, haudit.explains rfl rfl rfl⟩ ?_ ?_), hdraft.activity rfl⟩
  · rw [← hparams]
    intro p hp
    obtain ⟨param, hparam, rfl⟩ := List.mem_map.mp hp
    exact hnonzero param hparam
  · intro m hm
    rw [← hmoves] at hm
    obtain ⟨a, ha, hget⟩ := hlocked m.1 (hordered m hm)
    rw [← hi₂.db] at hget
    exact ⟨a, hget, fun hc => hclosed ⟨a, ha, hc⟩⟩
  · intro a ha hatype
    rcases List.mem_append.mp ha with ha | ha
    · obtain rfl : a = audit := by simpa using ha
      exact Option.some.inj (haudit.entityID.symm.trans rfl)
    · exact absurd hatype (hns.audits a ha)
  · intro hdistinct
    rw [← hmoves] at hdistinct ⊢
    have hannounces := hns.announces ?_ hdistinct hordered
    · exact hannounces
    · exact (List.perm_insertionSort _ _).nodup_iff.mpr (List.nodup_dedup _)

theorem refines_auditTransferFailureTx (env : Env) (arg : TransferTxParams) (e : Err) :
    Refines (auditTransferFailureTx env arg e) := by
  apply refines_execTx
  intro s _
  apply Ensures.bind
  apply ensures_createAuditLog
  intro audit s₁ hq₁ haudit hn₁
  apply Ensures.bind
  apply ensures_createFinancialNotification
  intro _ s₂ user hq₂ _ hn₂
  apply Ensures.ret
  refine (hq₁.trans hq₂).finishing (hn₁.trans hn₂)
    ((Notices.apart_audit ?_).append (Notices.apart_notification rfl))
  rw [haudit.entityType]
  rintro ⟨⟩

theorem Refines.map {p : Tx α} (h : Refines p) {f : α → Response} :
    Refines (p >>= fun a => pure (f a)) := by
  intro s hwf
  refine .bind ((h s hwf).mono ?_)
  intro _ _ hp
  exact .ret hp

/-- The audit rows about banking transactions that a transaction adds without booking
anything: those of a failed reversal. -/
def BankingTx.stray : BankingTx → AuditLog → Prop
  | auditOperatorFailure _ arg, a => a.toState = textValue arg.toState
  | _, _ => False

theorem ensures_auditOperatorFailure (env : Env) (arg : OperatorAuditParams) :
    Ensures (auditOperatorFailure env arg) s fun _ s' =>
      Performs (BankingTx.auditOperatorFailure env arg).stray s s' := by
  apply ensures_createAuditLog
  intro audit s' hq haudit hn
  exact hq.performs hn (Notices.apart_audit fun _ => haudit.toState)

theorem performs_body (t : BankingTx) (hwf : s.db.WellFormed) :
    Ensures t.body s fun _ s' => Performs t.stray s s' := by
  cases t with
  | createAccount env arg => exact (refines_createAccountAttempt env arg).map s hwf
  | settlementMovement env kind arg => exact (refines_settlementMovementTx env kind arg).map s hwf
  | transfer env arg => exact (refines_transferTx env arg).map s hwf
  | idempotentTransfer env arg => exact (refines_idempotentTransferTx env arg).map s hwf
  | auditTransferFailure env arg e =>
    exact (refines_auditTransferFailureTx env arg e).map (f := fun _ => .recorded) s hwf
  | setAccountStatus env arg => exact (refines_setAccountStatusTx env arg).map s hwf
  | reverseTransaction env arg => exact (refines_reverseTransactionTx env arg).map s hwf
  | closeAccount env arg => exact (refines_closeAccountTx env arg).map s hwf
  | auditOperatorFailure env arg =>
    exact .bind ((ensures_auditOperatorFailure env arg).mono fun _ _ hp => .ret hp)

theorem body_performs {t : BankingTx} {d : Answer Response} (hwf : db.WellFormed)
    (hrun : t.body.run [] db = .ok d) :
    Performs t.stray (Position.start db) ⟨d.writes, view d.writes db, d.locks⟩ :=
  (performs_body t (s := Position.start db) hwf).of_run hrun

end Monierave
