import Monierave.Banking.Operators
import Monierave.Banking.Reliance

/-! # The statements of the banking operations keep the locking discipline

One rule for each statement: what its transaction must hold or know for the
statement to have the same effect on every stable view, and what it holds and
knows afterwards.
-/

namespace Monierave

open Relational ReadCommitted Prog

abbrev BankingPoint := Point bankingReliance

variable {pt : BankingPoint} {α β : Type}

/-! ## Shapes of statements -/

section Shapes

variable {R κ : Type} [Keyed R κ] [DecidableEq κ]

/-- A table whose entries are locked under `lock`, so that a stable view finds
the same rows in it under the keys held. -/
structure Locked (table : DB → Table R) (lock : κ → LockKey) : Prop where
  get : ∀ {H : LockKey → Prop} {db db' : DB}, DB.Stable H db db' → ∀ {k}, H (lock k) →
    (table db).get k = (table db').get k

variable {table : DB → Table R} {lock : κ → LockKey} {constraint : κ → String}
    {Q : R → BankingPoint → Prop} {e : Err}

theorem locked_accounts : Locked (fun db => db.accounts) LockKey.account := ⟨fun h _ hk => h.getAccount hk⟩

theorem locked_ledgerAccounts : Locked (fun db => db.ledgerAccounts) LockKey.ledgerAccount :=
  ⟨fun h _ hk => h.getLedgerAccount hk⟩

theorem locked_bankingTransactions : Locked (fun db => db.bankingTransactions) LockKey.bankingTransaction :=
  ⟨fun h _ hk => h.getBankingTransaction hk⟩

theorem locked_ledgerPostings : Locked (fun db => db.ledgerPostings) LockKey.ledgerPosting :=
  ⟨fun h _ hk => h.getLedgerPosting hk⟩

theorem locked_idempotencyKeys : Locked DB.idempotencyKeys LockKey.idempotencyKey :=
  ⟨fun h _ hk => h.getIdempotencyKey hk⟩

theorem guarded_insertRow {violated orphaned : DB → Option SqlError} {write : R → Write} {r : R}
    (hlock : Locked table lock) (hkeys : ∀ k ∈ keys r, lock k ∈ (write r).keys)
    (hvalid : ∀ db, violated db = none → (table db).conflict r = none → orphaned db = none →
      (write r).valid db)
    (hfree : ∀ (H : LockKey → Prop) (db db' : DB), (∀ k ∈ pt.held ++ (write r).keys, H k) →
      DB.Stable H db db' → violated db = none → orphaned db = none →
        violated db' = none ∧ orphaned db' = none)
    (h : ∀ pt', pt.Grows pt' → (∀ k ∈ (write r).keys, k ∈ pt'.held) → Q r pt') :
    Guarded (call (insertRow table constraint violated orphaned write r)) pt Q := by
  apply Guarded.call
  intro db eff hwf hknown hs
  obtain ⟨hviol, hconf, horph, rfl⟩ := insertRow_ok.mp hs
  refine ⟨⟨hvalid db hviol hconf horph, trivial⟩, ?_, ?_⟩
  · apply h _ (pt.grows_next _)
    intro k hk
    simp [Effect.claims, hk]
  · intro H db' hH _ _ hst
    have hH' : ∀ k ∈ pt.held ++ (write r).keys, H k := by simpa [Effect.claims] using hH
    obtain ⟨hviol', horph'⟩ := hfree H db db' hH' hst hviol horph
    refine insertRow_ok.mpr ⟨hviol', ?_, horph', rfl⟩
    rw [← hconf]
    symm
    apply Table.conflict_congr
    intro k hk
    exact hlock.get hst (hH' _ (List.mem_append_right _ (hkeys k hk)))

theorem guarded_updateRow {k : κ} {f : R → Except SqlError (Option R)}
    {violated : R → R → Option SqlError} {write : R → R → Write} (hlock : Locked table lock)
    (hkeys : ∀ o r, (write o r).keys = (keys o ++ keys r).map lock)
    (hvalid : ∀ db o r, f o = .ok (some r) → (write o r).valid db)
    (h : ∀ o r pt', pt.Grows pt' → k ∈ keys o → f o = .ok (some r) → violated o r = none →
      (∀ j ∈ keys o ++ keys r, lock j ∈ pt'.held) → Q r pt') :
    Guarded (fetch e (updateRow table k f violated constraint write lock)) pt Q := by
  apply Guarded.fetch
  intro db eff hwf hknown hs
  rcases updateRow_ok.mp hs with ⟨_, rfl⟩ | ⟨o, r, hupd, rfl⟩
  · exact ⟨trivial, by simp⟩
  have hko : k ∈ keys o := Table.key_of_get hupd.row
  refine ⟨⟨hvalid db o r hupd.new, trivial⟩, ?_⟩
  intro a ha
  cases ha
  refine ⟨⟨pt.known, pt.lasting, hknown, ?_⟩, ?_⟩
  · apply h o r (pt.next _) (pt.grows_next _) hko hupd.new hupd.checked
    intro j hj
    simp only [Point.next_held, Effect.claims, List.nil_append, List.flatMap_cons,
      List.flatMap_nil, List.append_nil, storage_keys, hkeys]
    exact List.mem_append_right _ (List.mem_map_of_mem hj)
  · intro H db' hH _ hst
    have hget : ∀ j ∈ keys o ++ keys r, (table db).get j = (table db').get j := by
      intro j hj
      refine hlock.get hst (hH _ (List.mem_append_right _ ?_))
      simp only [Effect.claims, List.nil_append, List.flatMap_cons, List.flatMap_nil,
        List.append_nil, storage_keys, hkeys]
      exact List.mem_map_of_mem hj
    refine updateRow_ok.mpr (Or.inr ⟨o, r, ⟨?_, hupd.new, hupd.checked, ?_⟩, rfl⟩)
    · rw [← hget k (List.mem_append_left _ hko)]
      exact hupd.row
    · rw [← Table.clash_congr fun j hj => hget j (List.mem_append_right _ hj)]
      exact hupd.clash

theorem guarded_selectForUpdate {find : DB → Option R} {key : R → LockKey}
    (hfind : ∀ (H : LockKey → Prop) (db db' : DB) a, find db = some a → H (key a) →
      DB.Stable H db db' → find db' = some a)
    (h : ∀ db a pt', pt.Grows pt' → find db = some a → key a ∈ pt'.held → Q a pt') :
    Guarded (fetch e (selectForUpdate find key)) pt Q := by
  apply Guarded.fetch
  intro db eff hwf hknown hs
  obtain rfl := selectForUpdate_ok.mp hs
  refine ⟨trivial, ?_⟩
  intro a ha
  dsimp only at ha
  refine ⟨⟨pt.known, pt.lasting, hknown, ?_⟩, ?_⟩
  · apply h db a (pt.next _) (pt.grows_next _) ha
    simp [Effect.claims, ha]
  · intro H db' hH _ hst
    rw [selectForUpdate_ok, hfind H db db' a ha (hH _ (by simp [Effect.claims, ha])) hst, ha]

end Shapes

/-! ## Accounts -/

variable {e : Err} {f : Account → Tx β} {publicID : Option UUID} {id amount : Int64}
    {Q : Account → BankingPoint → Prop} {env : Env} {now : Timestamp} {t : UUID}
    {postings : List PostingParams} {H : LockKey → Prop} {db db' : DB}

theorem guarded_accountLookup {find : DB → Option Account} {Q : β → BankingPoint → Prop}
    (hfind : ∀ (H : LockKey → Prop) (db db' : DB) a, find db = some a → DB.Stable H db db' →
      ∃ a', find db' = some a' ∧ a'.id = a.id) (hf : ∀ a a', a'.id = a.id → f a' = f a)
    (h : ∀ a, Guarded (f a) pt Q) : Guarded (fetch e (readOnly find) >>= f) pt Q := by
  apply Guarded.fetch_bind
  intro db eff hwf hknown hs
  obtain rfl := readOnly_ok.mp hs
  refine ⟨trivial, ?_⟩
  intro a ha
  refine ⟨⟨pt.known, pt.lasting, hknown, by simpa [Effect.claims] using h a⟩, ?_⟩
  intro H db' _ _ hst
  obtain ⟨a', ha', hid⟩ := hfind H db db' a ha hst
  exact ⟨_, a', readOnly_ok.mpr rfl, ha', hf a a' hid, rfl, rfl⟩

theorem guarded_getAccountByPublicID {Q : β → BankingPoint → Prop}
    (hf : ∀ a a', a'.id = a.id → f a' = f a) (h : ∀ a, Guarded (f a) pt Q) :
    Guarded (fetch e (getAccountByPublicID publicID) >>= f) pt Q := by
  refine guarded_accountLookup ?_ hf h
  intro H db db' a ha hst
  cases publicID with
  | none => cases ha
  | some id => exact hst.account _ a ha

theorem guarded_getAccountByAccountNumber {number : String} {Q : β → BankingPoint → Prop}
    (hf : ∀ a a', a'.id = a.id → f a' = f a) (h : ∀ a, Guarded (f a) pt Q) :
    Guarded (fetch e (getAccountByAccountNumber number) >>= f) pt Q :=
  guarded_accountLookup (fun _ _ _ a ha hst => hst.account _ a ha) hf h

theorem guarded_getAccountForUpdate
    (h : ∀ a pt', pt.Grows pt' → a.id = id → LockKey.account (.id id) ∈ pt'.held → Q a pt') :
    Guarded (fetch e (getAccountForUpdate id)) pt Q := by
  have hid : ∀ {db : DB} {a}, db.accounts.get (.id id) = some a → a.id = id := by
    intro db a ha
    simpa [keys, eq_comm] using Table.key_of_get ha
  apply guarded_selectForUpdate
  · intro H db db' a ha hH hst
    rw [← hst.getAccount (by simpa [Account.rowLock, hid ha] using hH)]
    exact ha
  · intro db a pt' hg ha hheld
    exact h a pt' hg (hid ha) (by simpa [Account.rowLock, hid ha] using hheld)

theorem guarded_getAccountByPublicIDForUpdate
    (h : ∀ a pt', pt.Grows pt' → LockKey.account (.id a.id) ∈ pt'.held → Q a pt') :
    Guarded (fetch e (getAccountByPublicIDForUpdate publicID)) pt Q := by
  apply guarded_selectForUpdate
  · intro H db db' a ha hH hst
    cases publicID with
    | none => cases ha
    | some id =>
      have hrow : db'.accounts.get (.id a.id) = some a := by
        rw [← hst.getAccount hH]
        exact Table.get_eq_of_key ha (Keyed.pk_mem a)
      exact Table.get_eq_of_key hrow (Table.key_of_get ha)
  · intro db a pt' hg _ hheld
    exact h a pt' hg hheld

theorem guarded_updateAccountRow {f : Account → Except SqlError (Option Account)}
    (hf : ∀ o r, f o = .ok (some r) → keys r = keys o)
    (h : ∀ o r pt', pt.Grows pt' → f o = .ok (some r) → Q r pt') :
    Guarded (fetch e (updateAccountRow id f)) pt Q :=
  guarded_updateRow locked_accounts (fun _ _ => rfl) (fun _ o r hr => hf o r hr)
    (fun o r pt' hg _ hr _ _ => h o r pt' hg hr)

theorem steady_addAccountBalance : Steady bankingReliance (addAccountBalance env id amount e) := by
  intro pt
  refine guarded_updateAccountRow ?_ fun _ _ _ hg _ => hg
  intro o r hr
  rw [(Account.addBalance_some hr).2.2]
  rfl

/-! ## Ledger accounts -/

def HasLedger (accountID : Int64) (l : LedgerAccount) (db : DB) : Prop :=
  db.ledgerAccounts.get (.customerAccountID accountID) = some l

theorem lasting_hasLedger (accountID : Int64) (l : LedgerAccount) :
    bankingReliance.Lasting (HasLedger accountID l) :=
  fun _ hv h => DB.ledgerAccount_apply hv h

theorem guarded_customerLedgerAccount {Q : LedgerAccount → BankingPoint → Prop}
    (h : ∀ l pt', pt.Grows pt' → (∀ db, pt'.known db → HasLedger id l db) → Q l pt') :
    Guarded (customerLedgerAccount id) pt Q := by
  apply Guarded.fetch
  intro db eff hwf hknown hs
  obtain rfl := readOnly_ok.mp hs
  refine ⟨trivial, ?_⟩
  intro l hl
  refine ⟨⟨fun db => pt.known db ∧ HasLedger id l db,
    fun hwf hv h => ⟨pt.lasting hwf hv h.1, lasting_hasLedger id l hwf hv h.2⟩, ⟨hknown, hl⟩, ?_⟩, ?_⟩
  · apply h
    · exact ⟨by simp [Effect.claims], fun _ hdb => hdb.1⟩
    · exact fun _ hdb => hdb.2
  · intro H db' _ _ hst
    rw [getCustomerLedgerAccount, readOnly_ok, hst.ledgerAccount _ l hl]
    exact congrArg (Effect.mk · [] []) hl

theorem steady_customerLedgerAccount : Steady bankingReliance (customerLedgerAccount id) :=
  fun _ => guarded_customerLedgerAccount fun _ _ hg _ => hg

theorem steady_fetch_readOnly {f : DB → Option α}
    (h : ∀ {H db db' a}, bankingReliance.stable H db db' → f db = some a → f db' = some a) :
    Steady bankingReliance (fetch e (readOnly f)) := by
  intro pt
  apply Guarded.fetch
  intro db eff hwf hknown hs
  obtain rfl := readOnly_ok.mp hs
  refine ⟨trivial, ?_⟩
  intro a ha
  refine ⟨⟨pt.known, pt.lasting, hknown, pt.grows_next _⟩, ?_⟩
  intro H db' _ _ hst
  rw [readOnly_ok, h hst ha]
  exact congrArg (Effect.mk · [] []) ha

theorem steady_getSettlementLedgerAccount {currency : String} :
    Steady bankingReliance (fetch e (getSettlementLedgerAccount currency)) :=
  steady_fetch_readOnly fun hst hl => hst.ledgerAccount _ _ hl

theorem guarded_getDailyOutgoingTransferTotal {accountID : Int64} {l : LedgerAccount}
    {Q : Int64 → BankingPoint → Prop} (hheld : LockKey.account (.id accountID) ∈ pt.held)
    (hknown : ∀ db, pt.known db → HasLedger accountID l db)
    (h : ∀ total pt', pt.Grows pt' → Q total pt') :
    Guarded (call (getDailyOutgoingTransferTotal now l.id)) pt Q := by
  apply Guarded.call
  intro db eff hwf hdb hs
  obtain ⟨total, htotal, rfl⟩ := tryRead_ok.mp hs
  refine ⟨trivial, h total _ (pt.grows_next _), ?_⟩
  intro H db' hH _ _ hst
  refine tryRead_ok.mpr ⟨total, ?_, rfl⟩
  obtain ⟨hon, hout⟩ := hst.activity accountID l (hH _ (List.mem_append_left _ hheld))
    (hknown db hdb)
  rw [← htotal]
  simp only [Books.outgoingTransferTotal, ← hon]
  congr 2
  exact (List.map_congr_left fun p hp => hout p hp _).symm

/-! ## Banking transactions and postings -/

theorem guarded_createBankingTransaction {arg : CreateBankingTransactionParams}
    {Q : BankingTransaction → BankingPoint → Prop}
    (horiginal : ∀ o, arg.reversalOf = some o → LockKey.bankingTransaction (.id o) ∈ pt.held)
    (h : ∀ pt', pt.Grows pt' → Q (newBankingTransaction now arg) pt') :
    Guarded (call (createBankingTransaction now arg)) pt Q := by
  refine guarded_insertRow locked_bankingTransactions ?_ (fun _ _ _ _ => trivial) ?_
    (fun pt' hg _ => h pt' hg)
  · intro k hk
    exact List.mem_map_of_mem hk
  · intro H db db' hH hst hviol horph
    refine ⟨hviol, ?_⟩
    cases hr : arg.reversalOf with
    | none => rfl
    | some o =>
      have hget := hst.getBankingTransaction
        (hH _ (List.mem_append_left _ (horiginal o hr)))
      simpa only [missingOriginal, hr, hget] using horph

theorem steady_createLedgerPosting {l : Int64} :
    Steady bankingReliance (call (createLedgerPosting now t l amount)) := by
  intro pt
  refine guarded_insertRow locked_ledgerPostings ?_ ?_ ?_ (fun _ hg _ => hg)
  · intro k hk
    exact List.mem_cons_of_mem _ (List.mem_map_of_mem hk)
  · intro db hviol hconf horph
    obtain ⟨⟨row, hrow, _⟩, _⟩ := postingViolated_eq_none.mp hviol
    exact ⟨hconf, missingLedgerAccount_eq_none.mp horph, row, hrow⟩
  · intro H db db' hH hst hviol horph
    constructor
    · rw [postingViolated_eq_none] at hviol ⊢
      rwa [← hst.getBankingTransaction (hH _ (List.mem_append_right _ List.mem_cons_self))]
    · obtain ⟨row, hrow⟩ := missingLedgerAccount_eq_none.mp horph
      exact missingLedgerAccount_eq_none.mpr ⟨row, hst.ledgerAccount _ row hrow⟩

theorem steady_createPostings : Steady bankingReliance (createPostings env t postings) := by
  induction postings with
  | nil => exact .ret []
  | cons p ps ih => exact steady_createLedgerPosting.bind fun _ => ih.bind fun _ => .ret _

theorem guarded_createBalancedTransaction {arg : PendingTransactionParams}
    {Q : BankingTransaction × List LedgerPosting → BankingPoint → Prop}
    (horiginal : ∀ o, arg.reversalOf = some o → LockKey.bankingTransaction (.id o) ∈ pt.held)
    (h : ∀ r pt', pt.Grows pt' → Q r pt') :
    Guarded (createBalancedTransaction env arg postings) pt Q := by
  refine .bind (.refuse fun _ => ?_)
  refine .bind (.refuse fun _ => ?_)
  refine .bind (.refuse fun _ => ?_)
  refine .bind (.refuse fun _ => ?_)
  apply Guarded.bind
  apply guarded_createBankingTransaction horiginal
  intro pt₁ hg₁
  exact steady_createPostings.follow fun _ pt₂ hg₂ => h _ pt₂ (hg₁.trans hg₂)

theorem steady_createBalancedTransaction {arg : PendingTransactionParams}
    (hfirst : arg.reversalOf = none) :
    Steady bankingReliance (createBalancedTransaction env arg postings) := by
  intro pt
  refine guarded_createBalancedTransaction ?_ fun _ _ hg => hg
  intro o ho
  rw [hfirst] at ho
  cases ho

theorem steady_updateBankingTransactionRow {id : UUID}
    {f : BankingTransaction → Except SqlError (Option BankingTransaction)} :
    Steady bankingReliance (fetch e (updateBankingTransactionRow id f)) :=
  fun _ => guarded_updateRow locked_bankingTransactions (fun _ _ => rfl) (fun _ _ _ _ => trivial)
    (fun _ _ _ hg _ _ _ _ => hg)

theorem guarded_getBankingTransactionForUpdate {id : Option UUID}
    {Q : BankingTransaction → BankingPoint → Prop}
    (h : ∀ t pt', pt.Grows pt' → LockKey.bankingTransaction (.id t.id) ∈ pt'.held → Q t pt') :
    Guarded (fetch e (getBankingTransactionForUpdate id)) pt Q := by
  apply guarded_selectForUpdate
  · intro H db db' t ht hH hst
    cases id with
    | none => cases ht
    | some id =>
      have hid : t.id = id := by
        have := Table.key_of_get ht
        simpa [keys, eq_comm] using this
      have hget := hst.getBankingTransaction hH
      rw [hid] at hget
      simp only [DB.bankingTransaction, Option.bind_some] at ht ⊢
      rw [← hget]
      exact ht
  · intro db t pt' hg _ hheld
    exact h t pt' hg hheld

theorem DB.Stable.withLedger (h : DB.Stable H db db') (hwf : db.WellFormed)
    (ht : H (.bankingTransaction (.id t))) :
    (db.postingsOf t).filterMap db.withLedger = (db'.postingsOf t).filterMap db'.withLedger := by
  rw [← h.postings t ht]
  apply List.filterMap_congr
  intro p hp
  obtain ⟨l, hl⟩ := hwf.ledgerAccount p (List.mem_of_mem_filter hp)
  simp only [Books.withLedger, hl, h.ledgerAccount _ l hl]

theorem guarded_listReversalSourcePostings {Q : List ReversalSourcePosting → BankingPoint → Prop}
    (hheld : LockKey.bankingTransaction (.id t) ∈ pt.held)
    (h : ∀ source pt', pt.Grows pt' → Q source pt') :
    Guarded (call (listReversalSourcePostings t)) pt Q := by
  apply Guarded.call
  intro db eff hwf hknown hs
  obtain rfl := readOnly_ok.mp hs
  refine ⟨trivial, h _ _ (pt.grows_next _), ?_⟩
  intro H db' hH _ _ hst
  rw [listReversalSourcePostings, readOnly_ok,
    hst.withLedger hwf (hH _ (List.mem_append_left _ hheld))]

theorem DB.Stable.validate (h : DB.Stable H db db') (hwf : db.WellFormed)
    (ht : H (.bankingTransaction (.id t))) :
    validateBankingTransactionBalance db.toBooks t = validateBankingTransactionBalance db'.toBooks t := by
  unfold validateBankingTransactionBalance
  rw [← h.getBankingTransaction ht, ← h.withLedger hwf ht, ← h.postings t ht]

theorem Write.balancedTransaction_mem_keys {w : Write} (h : w.balancedTransaction = some t) :
    LockKey.bankingTransaction (.id t) ∈ w.keys := by
  cases w with
  | insertBankingTransaction r => cases h; simp [Write.keys, Relational.keys]
  | updateBankingTransaction o r => cases h; simp [Write.keys, Relational.keys]
  | insertLedgerPosting r => cases h; simp [Write.keys]
  | _ => cases h

theorem guarded_deferredTriggers {Q : Unit → BankingPoint → Prop}
    (h : ∀ pt', pt.Grows pt' → Q () pt') : Guarded (call deferredTriggers) pt Q := by
  apply Guarded.call
  intro db eff hwf hknown hs
  obtain ⟨hall, rfl⟩ := deferredTriggers_ok.mp hs
  refine ⟨trivial, h _ (pt.grows_next _), ?_⟩
  intro H db' _ hown _ hst
  refine deferredTriggers_ok.mpr ⟨?_, rfl⟩
  intro w hw t ht
  rw [← hst.validate hwf (hown w hw _ (Write.balancedTransaction_mem_keys ht))]
  exact hall w hw t ht

theorem guarded_execTx {fn : Tx α} {Q : α → BankingPoint → Prop}
    (h : Guarded fn pt fun a pt' => ∀ pt'', pt'.Grows pt'' → Q a pt'') :
    Guarded (execTx fn) pt Q := by
  refine .bind (h.mono ?_)
  intro a pt' hQ
  exact .bind (guarded_deferredTriggers hQ)

/-! ## Audit rows and notifications -/

theorem steady_createAuditLog {arg : CreateAuditLogParams} :
    Steady bankingReliance (call (createAuditLog now arg)) := by
  intro pt
  apply Guarded.call
  intro db eff hwf hknown hs
  have heff := createAuditLog_ok hs
  refine ⟨?_, pt.grows_next _, ?_⟩
  · rw [heff]
    exact ⟨trivial, trivial⟩
  · intro H db' _ _ _ _
    exact hs

theorem steady_notification {R κ : Type} [Keyed R κ] [DecidableEq κ] {table : DB → Table R}
    (lock : κ → LockKey) {constraint : κ → String} {violated orphaned : DB → Option SqlError}
    {write : R → Write} {audit : R → AuditLog} {r : R} (hlock : ∀ k, (lock k).isNotification = true)
    (hentry : ∀ (db : DB) k, db.entry (lock k) = none ↔ (table db).get k = none)
    (hkeys : ∀ k ∈ keys r, lock k ∈ (write r).keys)
    (hvalid : ∀ db, (table db).conflict r = none → (write r).valid db)
    (hfree : ∀ (H : LockKey → Prop) (db db' : DB), DB.Stable H db db' → violated db = none →
      orphaned db = none → violated db' = none ∧ orphaned db' = none) :
    Steady bankingReliance
      (call (audited (insertRow table constraint violated orphaned write r) audit)) := by
  intro pt
  apply Guarded.call
  intro db eff hwf hknown hs
  obtain ⟨e, he, rfl⟩ := audited_ok.mp hs
  obtain ⟨hviol, hconf, horph, rfl⟩ := insertRow_ok.mp he
  refine ⟨⟨hvalid db hconf, trivial, trivial⟩, pt.grows_next _, ?_⟩
  intro H db' hH _ _ hst
  obtain ⟨hviol', horph'⟩ := hfree H db db' hst hviol horph
  refine audited_ok.mpr ⟨_, insertRow_ok.mpr ⟨hviol', ?_, horph', rfl⟩, rfl⟩
  rw [Table.conflict_eq_none] at hconf ⊢
  intro k hk
  rw [← hentry]
  refine hst.unused _ (hH _ (List.mem_append_right _ ?_)) (hlock k) ((hentry db k).mpr (hconf k hk))
  simp [Effect.claims, hkeys k hk]

theorem missingUser_stable (hst : DB.Stable H db db') {constraint username : String}
    (h : missingUser constraint username db = none) :
    missingUser constraint username db' = none := by
  obtain ⟨u, hu⟩ := missingUser_eq_none.mp h
  exact missingUser_eq_none.mpr ⟨u, hst.user _ u hu⟩

theorem steady_createEmailJob {arg : CreateEmailJobParams} :
    Steady bankingReliance (call (createEmailJob now arg)) :=
  steady_notification .emailJob (fun _ => rfl) (fun _ _ => Option.map_eq_none_iff)
    (fun _ hk => List.mem_map_of_mem hk) (fun _ hc => hc)
    (fun _ _ _ hst _ horph => ⟨rfl, missingUser_stable hst horph⟩)

theorem steady_createOutboxEvent {arg : CreateOutboxEventParams} :
    Steady bankingReliance (call (createOutboxEvent now arg)) :=
  steady_notification .outboxEvent (fun _ => rfl)
    (fun _ _ => Option.map_eq_none_iff) (fun _ hk => List.mem_map_of_mem hk) (fun _ hc => hc)
    (fun _ _ _ _ hviol _ => ⟨hviol, rfl⟩)

theorem steady_getUser {username : String} :
    Steady bankingReliance (fetch e (getUser username)) :=
  steady_fetch_readOnly fun hst hu => hst.user _ _ hu

theorem steady_createFinancialNotification {n : Nat} {arg : FinancialNotificationParams} :
    Steady bankingReliance (createFinancialNotification env n arg) :=
  steady_getUser.bind fun _ => steady_createEmailJob.bind fun _ =>
    steady_createOutboxEvent.bind fun _ => .ret _

end Monierave
