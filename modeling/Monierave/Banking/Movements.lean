import Monierave.Banking.Effects
import Monierave.Banking.Entries
import Monierave.Banking.Requirements
import Monierave.Banking.System

/-! # Transfers, deposits and withdrawals take bookkeeping steps

Run without interruption, each of these transactions that succeeds takes one
bookkeeping step and records it, and it posts only to ledger accounts of customer
accounts it holds.
-/

namespace Monierave

open Relational Accounting ReadCommitted Prog

variable {s s' s'' : BankingPosition} {α : Type}

structure Performs (stray : AuditLog → Prop) (s s' : BankingPosition) : Prop where
  entry : Entry stray s.db s'.db
  activity : ∀ a l, LockKey.account (.id a) ∉ s'.held →
    s.db.ledgerAccounts.get (.customerAccountID a) = some l →
      s'.db.postingsOn l.id = s.db.postingsOn l.id

variable {stray : AuditLog → Prop}

variable {ns : Notices} {r : AuditLog} {t : BankingTransaction} {amount accountID : Int64}
    {env : Env} {arg : IdempotentTransferTxParams}

theorem Performs.step (h : Performs stray s s') : s.db.toBooks.Step s'.db.toBooks := h.entry.step

theorem Quiet.performs (h : Quiet s s') (hn : s.db.Noted ns s'.db) (hns : ns.Apart stray) :
    Performs stray s s' where
  entry := by
    refine .unmoved ?_ (by rw [h.books]) hn hns
    rw [h.books]
    exact .quiet
  activity _ _ _ _ := by rw [h.books]

namespace Drafted

variable {t : BankingTransaction} {transactions : Table BankingTransaction}
  {ps : List LedgerPosting}

theorem booking (h : Drafted s t.id transactions ps (s.db.moves ps) s') (hwf : s.db.WellFormed)
    (hacc : Accepted s') (hfresh : s.db.bankingTransactions.conflict t = none)
    (hposted : t.status = .posted) (hpos : 0 < t.amount)
    (hget : transactions.get (.id t.id) = some t) (hbelongs : ∀ p ∈ ps, p.transactionID = t.id)
    (hopen : ∀ m ∈ s.db.moves ps, ∃ a, s.db.accounts.get (.id m.1) = some a ∧
      a.status ≠ .closed) :
    s.db.Booking t ps s'.db.toBooks := by
  have hof := Books.postingsOf_fresh hwf hfresh h.postings hbelongs
  obtain ⟨w, hw, hwid⟩ := h.inserted
  have hbal : s'.db.Balanced t (s'.db.postingsOf t.id) := by
    refine Books.balanced_of_validate ?_ (h.transactions ▸ hget) (Or.inl hposted)
      (hacc w hw t.id hwid)
    rw [hof, h.ledgerAccounts]
    exact h.ledger
  rw [hof] at hbal
  refine ⟨⟨hfresh, hposted, hpos, h.ledgerAccounts, h.postings, hbelongs, h.credits, hopen⟩, ?_⟩
  exact { hbal with ledger := by rw [← h.ledgerAccounts]; exact hbal.ledger }

theorem activity (h : Drafted s t.id transactions ps (s.db.moves ps) s') {a : Int64}
    {l : LedgerAccount} (ha : LockKey.account (.id a) ∉ s'.held)
    (hl : s.db.ledgerAccounts.get (.customerAccountID a) = some l) :
    s'.db.postingsOn l.id = s.db.postingsOn l.id := by
  have hnew : ps.filter (fun p => p.ledgerAccountID = l.id) = [] := by
    rw [List.filter_eq_nil_iff]
    intro p hp hpl
    apply ha
    refine h.locked (a, p.amount) (List.mem_filterMap.mpr ⟨p, hp, ?_⟩)
    rw [of_decide_eq_true hpl, Books.customerOf_eq hl]
    rfl
  rw [Books.postingsOn, h.postings, List.filter_append, hnew, List.append_nil]
  rfl

end Drafted

namespace Draft

variable {t about : BankingTransaction} {eventType : String} {ms : List Move} {ns : Notices}

variable {transactions : Table BankingTransaction} {ps : List LedgerPosting}

theorem activity (h : Draft s t.id transactions ps ms ns s') (hmoves : s.db.moves ps = ms) :
    ∀ a l, LockKey.account (.id a) ∉ s'.held →
      s.db.ledgerAccounts.get (.customerAccountID a) = some l →
        s'.db.postingsOn l.id = s.db.postingsOn l.id := by
  subst hmoves
  exact fun _ _ => h.toDrafted.activity

theorem records (h : Draft s t.id transactions ps ms ns s') (hmoves : s.db.moves ps = ms)
    (hwf : s.db.WellFormed) (hacc : Accepted s')
    (hfresh : s.db.bankingTransactions.conflict t = none) (hposted : t.status = .posted)
    (hpos : 0 < t.amount) (hget : transactions.get (.id t.id) = some t)
    (hbelongs : ∀ p ∈ ps, p.transactionID = t.id) (hnonzero : ∀ p ∈ ps, p.amount ≠ 0)
    (hopen : ∀ m ∈ ms, ∃ a, s.db.accounts.get (.id m.1) = some a ∧ a.status ≠ .closed)
    (habout : transactions.get (.id about.id) = some about)
    (hexplained : ∃ a ∈ ns.audits, a.Explains about)
    (hhistory : ∀ a ∈ ns.audits, a.entityType = .bankingTransaction → a.entityID = about.id)
    (hannounces : Announces s.db t about eventType ms ns) :
    Records s.db t about eventType ps ns s'.db := by
  subst hmoves
  exact {
    booking := h.toDrafted.booking hwf hacc hfresh hposted hpos hget hbelongs hopen
    nonzero := hnonzero
    noted := h.noted
    row := h.transactions ▸ habout
    explained := hexplained
    history := hhistory
    announces := hannounces }

theorem records_insert {params : List PostingParams} {now : Timestamp}
    (h : Draft s t.id (s.db.bankingTransactions.insert (t.asPosted now))
      (params.map (PostingParams.posting t)) ms ns s')
    (hmoves : s.db.moves (params.map (PostingParams.posting t)) = ms) (hwf : s.db.WellFormed)
    (hacc : Accepted s') (hfresh : s.db.bankingTransactions.conflict t = none)
    (hpos : 0 < t.amount) (hnonzero : ∀ p ∈ params, p.amount ≠ 0)
    (hopen : ∀ m ∈ ms, ∃ a, s.db.accounts.get (.id m.1) = some a ∧ a.status ≠ .closed)
    (hexplained : ∃ a ∈ ns.audits, a.Explains (t.asPosted now))
    (hhistory : ∀ a ∈ ns.audits, a.entityType = .bankingTransaction → a.entityID = t.id)
    (hannounces : Announces s.db (t.asPosted now) (t.asPosted now) eventType ms ns) :
    Records s.db (t.asPosted now) (t.asPosted now) eventType (params.map (PostingParams.posting t))
      ns s'.db := by
  have hfresh' : s.db.bankingTransactions.conflict (t.asPosted now) = none := hfresh
  have hself : (s.db.bankingTransactions.insert (t.asPosted now)).get (.id (t.asPosted now).id) =
      some (t.asPosted now) := Table.get_insert_self hfresh' (Keyed.pk_mem (t.asPosted now))
  refine records (t := t.asPosted now) h hmoves hwf hacc hfresh' rfl hpos hself ?_ ?_ hopen hself
    hexplained hhistory hannounces
  · intro p hp
    obtain ⟨param, _, rfl⟩ := List.mem_map.mp hp
    rfl
  · intro p hp
    obtain ⟨param, hparam, rfl⟩ := List.mem_map.mp hp
    exact hnonzero param hparam

end Draft

theorem Performs.of_silent (hs : Traceless s s') (h : Performs stray s' s'') :
    Performs stray s s'' where
  entry := h.entry.of_quiet hs.books hs.noted
  activity a l ha hl := by
    rw [← hs.books] at hl ⊢
    exact h.activity a l ha hl

def Finishing (s s' : BankingPosition) : Prop :=
  ∀ s'', Traceless s' s'' → Accepted s'' → Performs (fun _ => False) s s''

theorem Finishing.of_silent (hs : Traceless s s') (h : Finishing s' s'') : Finishing s s'' :=
  fun s₃ hs₃ hacc => (h s₃ hs₃ hacc).of_silent hs

theorem Finishing.silent (h : Finishing s s') (hs : Traceless s' s'') : Finishing s s'' :=
  fun s₃ hs₃ hacc => h s₃ (hs.trans hs₃) hacc

theorem Quiet.wellFormed (hq : Quiet s s') (hwf : s.db.WellFormed) : s'.db.WellFormed := by
  rw [hq.books]
  exact hwf

theorem CreateAuditLogParams.Describes.explains {arg : CreateAuditLogParams} (h : arg.Describes r)
    (htype : arg.entityType = .bankingTransaction) (hid : arg.entityID = some t.id)
    (hstate : arg.toState = some t.status.text) : r.Explains t :=
  ⟨h.entityType.trans htype, Option.some.inj (h.entityID.symm.trans hid),
    h.toState.trans hstate⟩

theorem history_of_booking {created posted : CreateAuditLogParams} {r' : AuditLog} (ns : Notices)
    (hr : created.Describes r) (hid : created.entityID = some t.id) (hr' : posted.Describes r')
    (hid' : posted.entityID = some t.id)
    (hns : ∀ a ∈ ns.audits, a.entityType ≠ .bankingTransaction) :
    ∀ a ∈ r :: r' :: ns.audits, a.entityType = .bankingTransaction → a.entityID = t.id := by
  intro a ha htype
  simp only [List.mem_cons] at ha
  rcases ha with rfl | rfl | ha
  · exact Option.some.inj (hr.entityID.symm.trans hid)
  · exact Option.some.inj (hr'.entityID.symm.trans hid')
  · exact absurd htype (hns a ha)

theorem ensures_lockTransferAccounts {fromID toID : Int64}
    {Q : Account × Account → BankingPosition → Prop}
    (h : ∀ r s', Idle s s' → s'.db.accounts.get (.id r.1.id) = some r.1 → r.1.id = fromID →
      s'.db.accounts.get (.id r.2.id) = some r.2 → r.2.id = toID → Q r s') :
    Ensures (lockTransferAccounts fromID toID) s Q := by
  apply Ensures.bind
  apply ensures_getAccountForUpdate
  intro first s₁ hq₁ hfirst hfirstID
  apply Ensures.bind
  apply ensures_getAccountForUpdate
  intro second s₂ hq₂ hsecond hsecondID
  rw [← hq₁.db, ← hq₂.db] at hfirst
  rw [← hq₂.db] at hsecond
  apply Ensures.ret
  by_cases hid : first.id = fromID
  · rw [if_pos hid]
    refine h _ s₂ (hq₁.trans hq₂) hfirst hid hsecond ?_
    split_ifs at hfirstID hsecondID with hgt
    · rw [hsecondID, ← hid, hfirstID]
    · exact hsecondID
  · rw [if_neg hid]
    split_ifs at hfirstID hsecondID with hgt
    · exact h _ s₂ (hq₁.trans hq₂) hsecond hsecondID hfirst hfirstID
    · exact absurd hfirstID hid

theorem dailyTotal_le_iff {total limit : Int64} (hpos : 0 < amount)
    (hlimit : limit.toInt = 2500000) :
    ¬ total > limit - amount ↔ total.toInt + amount.toInt ≤ limit.toInt := by
  have hpos' : (0 : Int) < amount.toInt := by simpa using Int64.lt_iff_toInt_lt.mp hpos
  have hsub : (limit - amount).toInt = limit.toInt - amount.toInt := by
    rw [Int64.toInt_sub]
    have := amount.toInt_lt
    apply Int.bmod_eq_of_le <;> omega
  rw [gt_iff_lt, Int64.lt_iff_toInt_lt, hsub]
  omega

/-- A transfer was made for the first time, and answered with the transaction it
booked. -/
structure Transferred (s : BankingPosition) (r : TransferTxResult) (s' : BankingPosition) :
    Prop where
  finishing : Finishing s s'
  fresh : s.db.bankingTransactions.conflict r.transaction = none
  transactions : s'.db.bankingTransactions = s.db.bankingTransactions.insert r.transaction
  notReplayed : r.replayed = false

theorem ensures_transferWithQueries {arg : TransferTxParams}
    {Q : TransferTxResult → BankingPosition → Prop} (hwf : s.db.WellFormed)
    (hQ : ∀ r s', (∃ source destination, arg.Allowed s.db env.now source destination) →
      Transferred s r s' → Q r s') : Ensures (transferWithQueries env arg) s Q := by
  apply Ensures.bind
  apply Ensures.bind
  apply ensures_lookup
  intro located hlocated
  apply Ensures.bind
  apply ensures_lookup
  intro recipient hrecipient
  refine .bind (.refuse fun hdifferent => ?_)
  apply ensures_lockTransferAccounts
  rintro ⟨fromAccount, toAccount⟩ s₁ hi₁ hfrom hfromID hto htoID
  refine .bind (.refuse fun howned => ?_)
  refine .bind (.refuse fun hcurrency => ?_)
  refine .bind (.refuse fun hfrozen => ?_)
  refine .bind (.refuse fun hclosed => ?_)
  refine .bind (.ofExcept ?_)
  rintro ⟨perTransferLimit, dailyLimit⟩ hlimits
  refine .bind (.refuse fun hper => ?_)
  apply Ensures.bind
  apply ensures_lookup
  intro fromLedger hfromLedger
  apply Ensures.bind
  apply ensures_tryRead
  intro dailyTotal htotal
  refine .bind (.refuse fun hdaily => ?_)
  apply Ensures.bind
  apply ensures_lookup
  intro toLedger htoLedger
  apply Ensures.bind
  apply ensures_createBalancedTransaction
  intro t s₂ hdesc hfresh hpos hnonzero h₂
  apply Ensures.bind
  apply h₂.createAuditLog
  intro created s₃ hcreated h₃
  apply Ensures.bind
  apply h₃.addAccountBalance
  intro sender fromUpdated s₄ hsender hdebited hnonneg h₄
  apply Ensures.bind
  apply h₄.addAccountBalance
  intro receiver toUpdated s₅ hreceiver hcredited _ h₅
  apply Ensures.bind
  apply h₅.markPosted hfresh
  intro s₆ h₆
  apply Ensures.bind
  apply h₆.createAuditLog
  intro posted s₇ hposted h₇
  apply Ensures.bind
  apply h₇.createFinancialNotification
  intro _ s₈ fromUser hfromUser h₈
  apply Ensures.bind
  apply h₈.createFinancialNotification
  intro _ s₉ toUser htoUser h₉
  apply Ensures.ret
  rw [not_or] at hclosed
  have hactive : fromAccount.status = .active := by
    cases hs : fromAccount.status with
    | active => rfl
    | frozen => exact absurd hs hfrozen
    | closed => exact absurd hs hclosed.1
  have htotal' := (dailyTotal_le_iff hpos (transferLimits_ok hlimits).2).mp hdaily
  rw [bigint_ok.mp htotal] at htotal'
  have hbooks : s₁.db.toBooks = s.db.toBooks := hi₁.silent.books
  apply hQ
  · rw [hi₁.db] at hfrom hto hsender hreceiver hfromLedger htotal'
    obtain rfl : fromAccount = located := by
      have hrow : s.db.accounts.get (.id located.id) = some located := by
        obtain ⟨id, _, hget⟩ := Option.bind_eq_some_iff.mp hlocated
        exact Table.get_eq_of_key hget (Keyed.pk_mem located)
      rw [← hfromID, hfrom] at hrow
      exact Option.some.inj hrow
    obtain rfl : toAccount = recipient := by
      have hrow : s.db.accounts.get (.id recipient.id) = some recipient :=
        Table.get_eq_of_key hrecipient (Keyed.pk_mem recipient)
      rw [← htoID, hto] at hrow
      exact Option.some.inj hrow
    obtain rfl : sender = fromAccount := Option.some.inj (hsender.symm.trans hfrom)
    obtain rfl : receiver = toAccount := Option.some.inj (hreceiver.symm.trans hto)
    rw [not_or, not_not, not_not] at hcurrency
    refine ⟨sender, receiver, hlocated, not_not.mp howned, hactive, hrecipient, hdifferent,
      hclosed.2, hcurrency.1, hcurrency.2, exists_transferLimits.mp ⟨_, _, hlimits⟩, hpos, ?_, ?_,
      ?_, ?_⟩
    · rw [singleLimit_of_ok hlimits]
      exact Int64.le_iff_toInt_le.mp (Int64.not_lt.mp hper)
    · rw [dailyLimit_of_ok hlimits, ← Books.outgoingTransferTotal_eq hwf hfromLedger]
      exact htotal'
    · have hbalance := hdebited.balance
      have hpos' := Int64.lt_iff_toInt_lt.mp hpos
      have hnonneg' := Int64.le_iff_toInt_le.mp hnonneg
      simp only [movedTo, groupSum_nil, Int64.toInt_zero] at hbalance hpos' hnonneg'
      rw [toInt_neg_of_lt (by omega)] at hbalance
      rw [Int64.le_iff_toInt_le]
      omega
    · have hbalance := hcredited.balance
      have hbound := toUpdated.balance.toInt_lt
      simp only [movedTo, List.nil_append, groupSum_singleton, if_neg hdifferent] at hbalance
      omega
  refine ⟨?_, hbooks ▸ hfresh, hbooks ▸ h₉.transactions, rfl⟩
  intro s'' hs hacc
  refine Performs.of_silent hi₁.silent ?_
  have hdraft := h₉.silent hs
  have hmoves : s₁.db.moves ([⟨fromLedger.id, -arg.amount⟩, ⟨toLedger.id, arg.amount⟩].map
      (PostingParams.posting t)) = [(fromAccount.id, -arg.amount), (toAccount.id, arg.amount)] := by
    simp [Books.moves, PostingParams.posting, Books.customerOf_eq hfromLedger,
      Books.customerOf_eq htoLedger]
  have hamount : (t.asPosted env.now).amount = arg.amount := hdesc.amount
  have hcreatedAt : (t.asPosted env.now).createdAt = env.now := hdesc.createdAt
  have hkind : s₁.db.Transfers (t.asPosted env.now) fromLedger toLedger
      ([⟨fromLedger.id, -arg.amount⟩, ⟨toLedger.id, arg.amount⟩].map (PostingParams.posting t))
      s''.db.toBooks := by
    refine ⟨hdesc.transactionType, hdesc.reversalOf, ?_, hdraft.transactions, ⟨_, hfromLedger⟩,
      ⟨_, htoLedger⟩, ?_, perTransferLimit, dailyLimit, ?_, ?_, ?_⟩
    · intro m hm hneg
      rw [hmoves, List.mem_pair] at hm
      rcases hm with rfl | rfl
      · exact ⟨fromAccount, hfrom, hactive⟩
      · exact absurd (Int64.lt_trans hneg hpos) Int64.lt_irrefl
    · rw [hamount]
      rfl
    · rw [← hlimits]
      exact congrArg transferLimits hdesc.currency
    · rw [hamount]
      exact Int64.not_lt.mp hper
    · rw [hamount, hcreatedAt]
      exact htotal'
  refine ⟨.transfer hkind (hdraft.records_insert hmoves (hi₁.silent.wellFormed hwf) hacc hfresh
    (hdesc.amount ▸ hpos) hnonzero ?_ ⟨posted, by simp, hposted.explains rfl rfl rfl⟩ ?_ ?_),
    hdraft.activity hmoves⟩
  · simp [hfrom, hto, hclosed]
  · refine history_of_booking
      (notificationNotices env 1 _ fromUser ++ notificationNotices env 3 _ toUser)
      hcreated rfl hposted rfl ?_
    intro a ha
    rcases List.mem_append.mp ha with ha | ha
    · exact Notices.audits_notification a ha
    · exact Notices.audits_notification a ha
  · refine ⟨[((fromAccount.id, -arg.amount), _, _), ((toAccount.id, arg.amount), _, _)], .refl _,
      rfl, rfl, ?_⟩
    rw [List.forall_mem_cons, List.forall_mem_singleton]
    have hincoming : Move.direction (toAccount.id, arg.amount) = .incoming := direction_of_pos hpos
    have houtgoing : Move.direction (fromAccount.id, -arg.amount) = .outgoing :=
      direction_of_neg hpos
    exact ⟨told_notification hsender hdebited.owner_eq hfromUser rfl rfl rfl rfl rfl
        (congrArg some houtgoing.symm),
      told_notification hreceiver hcredited.owner_eq htoUser rfl rfl rfl rfl rfl
        (congrArg some hincoming.symm)⟩

def Refines (p : Tx α) : Prop :=
  ∀ s : BankingPosition, s.db.WellFormed →
    Ensures p s fun _ s' => Performs (fun _ => False) s s'

theorem refines_execTx {fn : Tx α}
    (h : ∀ s : BankingPosition, s.db.WellFormed → Ensures fn s fun _ s' => Finishing s s') :
    Refines (execTx fn) := by
  intro s hwf
  refine ensures_execTx ((h s hwf).mono ?_)
  intro _ s' hfin hacc
  exact hfin s' (.refl s') hacc

theorem Quiet.finishing (h : Quiet s s') (hn : s.db.Noted ns s'.db)
    (hns : ns.Apart fun _ => False) : Finishing s s' :=
  fun _ hs _ => (h.trans hs.toQuiet).performs (hn.silent hs.noted) hns

theorem Traceless.finishing (h : Traceless s s') : Finishing s s' :=
  h.toQuiet.finishing h.noted Notices.apart_none

theorem refines_transferTx (env : Env) (arg : TransferTxParams) : Refines (transferTx env arg) :=
  refines_execTx fun _ hwf => ensures_transferWithQueries hwf fun _ _ _ h => h.finishing

theorem ensures_dropExpiredKey {expired : Option Int64} {Q : Unit → BankingPosition → Prop}
    (h : ∀ s', Traceless s s' → Q () s') : Ensures (dropExpiredKey env arg expired) s Q := by
  cases expired with
  | none => exact .ret (h s (.refl s))
  | some id =>
    refine .bind (ensures_silent ?_ fun _ s' hs => .ret (h s' hs))
    intro eff hs w hw
    obtain rfl := deleteIdempotencyKeyIf_ok.mp hs
    obtain ⟨r, _, rfl⟩ := List.mem_map.mp hw
    exact ⟨rfl, rfl⟩

theorem ensures_createIdempotencyKey {username key : String} {requestHash : Bytes}
    {Q : Option IdempotencyKey → BankingPosition → Prop} (h : ∀ r s', Traceless s s' → Q r s') :
    Ensures (call (createIdempotencyKey env username key requestHash)) s Q := by
  refine ensures_silent ?_ h
  intro eff hs w hw
  rcases createIdempotencyKey_ok.mp hs with ⟨_, rfl⟩ | ⟨_, _, rfl⟩
  · cases hw
  · rw [List.mem_singleton.mp hw]
    exact ⟨rfl, rfl⟩

theorem ensures_replayTransfer : Ensures (replayTransfer arg) s fun _ s' => Idle s s' := by
  apply Ensures.bind
  apply ensures_lookup
  intro id _
  apply Ensures.bind
  apply Ensures.fetch
  intro eff existing hs _
  cases hs
  refine .bind (.refuse fun _ => ?_)
  refine .bind (.refuse fun _ => ?_)
  refine .bind (.found fun _ _ => ?_)
  exact .ret ⟨s.extends_after _ _, rfl⟩

theorem ensures_recordTransfer (hwf : s.db.WellFormed) :
    Ensures (recordTransfer env arg) s fun _ s' => Finishing s s' := by
  apply Ensures.bind
  apply ensures_transferWithQueries hwf
  intro result s₁ _ h₁
  apply Ensures.bind
  apply ensures_updateRow
  intro o r s₂ hw _
  exact .ret (h₁.finishing.silent (hw.silent rfl rfl))

theorem refines_idempotentTransferTx (env : Env) (arg : IdempotentTransferTxParams) :
    Refines (idempotentTransferTx env arg) := by
  apply refines_execTx
  intro s hwf
  apply Ensures.bind
  apply ensures_read
  apply Ensures.bind
  apply ensures_dropExpiredKey
  intro s₁ hs₁
  apply Ensures.bind
  apply ensures_createIdempotencyKey
  intro reserved s₂ hs₂
  have hs := hs₁.trans hs₂
  cases reserved with
  | none =>
    refine ensures_replayTransfer.mono ?_
    intro _ s₃ hi₃
    exact (hs.trans hi₃.silent).finishing
  | some r =>
    refine (ensures_recordTransfer (hs.wellFormed hwf)).mono ?_
    intro _ s₃ h₃
    exact h₃.of_silent hs

def SettlementKind.signed (kind : SettlementKind) (amount : Int64) : Int64 :=
  match kind with
  | deposit => amount
  | withdrawal => -amount

theorem SettlementKind.direction_signed (kind : SettlementKind) (h : 0 < amount) :
    Move.direction (accountID, kind.signed amount) = kind.direction := by
  cases kind with
  | deposit => exact direction_of_pos h
  | withdrawal => exact direction_of_neg h

theorem Draft.settleAccountBalance {id : UUID} {transactions : Table BankingTransaction}
    {ps : List LedgerPosting} {ms : List Move} (h : Draft s id transactions ps ms ns s')
    {kind : SettlementKind} {Q : Account → BankingPosition → Prop}
    (hQ : ∀ a r s'', s.db.accounts.get (.id accountID) = some a →
      a.Credited (movedTo ms accountID + (kind.signed amount).toInt) r → 0 ≤ r.balance →
      Draft s id transactions ps (ms ++ [(accountID, kind.signed amount)]) ns s'' → Q r s'') :
    Ensures (settleAccountBalance env kind accountID amount) s' Q := by
  cases kind with
  | deposit => exact h.addAccountBalance hQ
  | withdrawal => exact h.addAccountBalance hQ

theorem refines_settlementMovementTx (env : Env) (kind : SettlementKind)
    (arg : SettlementMovementParams) : Refines (settlementMovementTx env kind arg) := by
  apply refines_execTx
  intro s hwf
  apply Ensures.bind
  apply ensures_lookup
  intro located _
  apply Ensures.bind
  apply ensures_getAccountForUpdate
  intro account s₁ hi₁ haccount _
  refine .bind (.refuse fun hclosed => ?_)
  refine .bind (.refuse fun hfrozen => ?_)
  apply Ensures.bind
  apply ensures_lookup
  intro customerLedger hcustomer
  apply Ensures.bind
  apply ensures_lookup
  intro settlementLedger hsettlement
  apply Ensures.bind
  apply ensures_createBalancedTransaction
  intro t s₂ hdesc hfresh hpos hnonzero h₂
  apply Ensures.bind
  apply h₂.createAuditLog
  intro created s₃ hcreated h₃
  apply Ensures.bind
  apply h₃.settleAccountBalance
  intro customer updated s₄ hcustomerRow hcred _ h₄
  apply Ensures.bind
  apply h₄.markPosted hfresh
  intro s₅ h₅
  apply Ensures.bind
  apply h₅.createAuditLog
  intro posted s₆ hposted h₆
  apply Ensures.bind
  apply h₆.createFinancialNotification
  intro _ s₇ user huser h₇
  apply Ensures.ret
  intro s'' hs hacc
  refine Performs.of_silent hi₁.silent ?_
  have hdraft := h₇.silent hs
  have hmoves : s₁.db.moves ((kind.postings settlementLedger.id customerLedger.id arg.amount).map
      (PostingParams.posting t)) = [(account.id, kind.signed arg.amount)] := by
    cases kind <;> simp [Books.moves, PostingParams.posting, SettlementKind.postings,
      SettlementKind.signed, Books.customerOf_eq hcustomer, Books.customerOf_settlement hsettlement]
  rw [← hi₁.db] at haccount
  have hkind : s₁.db.Settles (t.asPosted env.now)
      ((kind.postings settlementLedger.id customerLedger.id arg.amount).map
        (PostingParams.posting t)) s''.db.toBooks := by
    refine ⟨?_, hdesc.reversalOf, ?_, hdraft.transactions⟩
    · rw [show (t.asPosted env.now).transactionType = kind.transactionType from
        hdesc.transactionType]
      cases kind <;> simp [SettlementKind.transactionType]
    · intro m hm hneg
      rw [hmoves, List.mem_singleton] at hm
      subst hm
      refine ⟨account, haccount, ?_⟩
      cases kind with
      | deposit => exact absurd (Int64.lt_trans hneg hpos) Int64.lt_irrefl
      | withdrawal =>
        cases hstatus : account.status with
        | active => rfl
        | frozen => exact absurd ⟨rfl, hstatus⟩ hfrozen
        | closed => exact absurd hstatus hclosed
  refine ⟨.settlement hkind (hdraft.records_insert hmoves (hi₁.silent.wellFormed hwf) hacc hfresh
    (hdesc.amount ▸ hpos) hnonzero ?_ ⟨posted, by simp, hposted.explains rfl rfl rfl⟩ ?_ ?_),
    hdraft.activity hmoves⟩
  · simp [haccount, hclosed]
  · exact history_of_booking (notificationNotices env 1 _ user) hcreated rfl hposted rfl
      Notices.audits_notification
  · refine ⟨[((account.id, kind.signed arg.amount), _, _)], .refl _, rfl, rfl, ?_⟩
    rw [List.forall_mem_singleton]
    have hdirection : Move.direction (account.id, kind.signed arg.amount) = kind.direction :=
      kind.direction_signed hpos
    exact told_notification hcustomerRow hcred.owner_eq huser rfl rfl rfl rfl rfl
      (congrArg some hdirection.symm)

end Monierave
