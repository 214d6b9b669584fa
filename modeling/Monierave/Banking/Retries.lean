import Monierave.Banking.Serial
import Monierave.ReadCommitted.Frame

/-! # Transfers that may be retried

A call of `IdempotentTransferTx` reserves its key, transfers and records the
result under the key, all in one transaction.
-/

namespace Monierave

open Relational ReadCommitted Prog

def DB.withKeys (keys : Table IdempotencyKey) (db : DB) : DB := { db with idempotencyKeys := keys }

section Blind

variable {R κ X : Type} [Keyed R κ] [DecidableEq κ] {put : X → DB → DB}

variable {β : Type} {table : DB → Table R} {constraint : κ → String}

theorem blind_readOnly {f : DB → β} (h : ∀ x db, f (put x db) = f db) :
    (readOnly f).Blind put where
  same _ _ x db := by simp only [readOnly, h]
  spares own db eff hs := by
    obtain rfl := readOnly_ok.mp hs
    simp

theorem blind_tryRead {f : DB → Except SqlError β} (h : ∀ x db, f (put x db) = f db) :
    (tryRead f).Blind put where
  same _ _ x db := by simp only [tryRead, h]
  spares own db eff hs := by
    obtain ⟨b, _, rfl⟩ := tryRead_ok.mp hs
    simp

theorem blind_selectForUpdate {find : DB → Option β} {key : β → LockKey}
    (h : ∀ x db, find (put x db) = find db) :
    (selectForUpdate find key).Blind put where
  same _ _ x db := by simp only [selectForUpdate, h]
  spares own db eff hs := by
    obtain rfl := selectForUpdate_ok.mp hs
    simp

theorem blind_insertRow {violated orphaned : DB → Option SqlError} {write : R → Write} {r : R}
    (htable : ∀ x db, table (put x db) = table db)
    (hviolated : ∀ x db, violated (put x db) = violated db)
    (horphaned : ∀ x db, orphaned (put x db) = orphaned db) (hwrite : Spares put (write r)) :
    (insertRow table constraint violated orphaned write r).Blind put where
  same _ _ x db := by simp only [insertRow, htable, hviolated, horphaned]
  spares own db eff hs := by
    obtain ⟨_, _, _, rfl⟩ := insertRow_ok.mp hs
    simpa using hwrite

theorem blind_updateRow {k : κ} {f : R → Except SqlError (Option R)}
    {violated : R → R → Option SqlError} {write : R → R → Write} {lock : κ → LockKey}
    (htable : ∀ x db, table (put x db) = table db) (hwrite : ∀ o r, Spares put (write o r)) :
    (updateRow table k f violated constraint write lock).Blind put where
  same _ _ x db := by simp only [updateRow, htable]
  spares own db eff hs := by
    rcases updateRow_ok.mp hs with ⟨_, rfl⟩ | ⟨o, r, _, rfl⟩
    · simp
    · simpa using hwrite o r

theorem blind_audited {q : Query R} {audit : R → AuditLog} (h : q.Blind DB.withKeys) :
    (audited q audit).Blind DB.withKeys where
  same own own' ks db := by simp only [audited, h.same own own' ks db]
  spares own db eff hs w hw := by
    obtain ⟨e, he, rfl⟩ := audited_ok.mp hs
    rcases List.mem_append.mp hw with hw | hw
    · exact h.spares own db e he w hw
    · rw [List.mem_singleton.mp hw]
      exact fun _ _ => rfl

theorem blind_createAuditLog {now : Timestamp} {arg : CreateAuditLogParams} :
    (createAuditLog now arg).Blind DB.withKeys where
  same _ _ _ _ := rfl
  spares own db eff hs w hw := by
    rw [createAuditLog_ok hs, List.mem_singleton] at hw
    rw [hw]
    exact fun _ _ => rfl

end Blind

variable {d : Answer TransferTxResult}

theorem blind_createFinancialNotification (env : Env) (n : Nat)
    (arg : FinancialNotificationParams) :
    (createFinancialNotification env n arg).Blind DB.withKeys := by
  refine .bind (.fetch (blind_readOnly fun _ _ => rfl)) fun user => ?_
  refine .bind (.call (blind_audited (blind_insertRow (fun _ _ => rfl) (fun _ _ => rfl)
    (fun _ _ => rfl) fun _ _ => rfl))) fun job => ?_
  exact .bind (.call (blind_audited (blind_insertRow (fun _ _ => rfl) (fun _ _ => rfl)
    (fun _ _ => rfl) fun _ _ => rfl))) fun _ => trivial

theorem blind_createPostings (env : Env) (id : UUID) (ps : List PostingParams) :
    (createPostings env id ps).Blind DB.withKeys := by
  induction ps with
  | nil => trivial
  | cons p ps ih =>
    refine .bind (.call (blind_insertRow (fun _ _ => rfl) (fun _ _ => rfl)
      (fun _ _ => rfl) fun _ _ => rfl)) fun value => ?_
    exact ih.bind fun _ => trivial

theorem blind_createBalancedTransaction (env : Env) (arg : PendingTransactionParams)
    (ps : List PostingParams) : (createBalancedTransaction env arg ps).Blind DB.withKeys := by
  refine .bind Blind.refuse fun _ => .bind Blind.refuse fun _ =>
    Blind.bind Blind.refuse fun _ => .bind Blind.refuse fun _ => ?_
  refine .bind (.call (blind_insertRow (fun _ _ => rfl) (fun _ _ => rfl)
    (fun _ _ => rfl) fun _ _ => rfl)) fun transaction => ?_
  exact (blind_createPostings env _ ps).bind fun _ => trivial

theorem blind_getAccountForUpdate (id : Int64) :
    (fetch .noRows (getAccountForUpdate id)).Blind DB.withKeys :=
  Blind.fetch (blind_selectForUpdate fun _ _ => rfl)

theorem blind_loadAndLockTransferAccounts (fromPublicID : Option UUID) (toAccountNumber : String) :
    (loadAndLockTransferAccounts fromPublicID toAccountNumber).Blind DB.withKeys := by
  refine .bind (.fetch (blind_readOnly fun _ _ => rfl)) fun fromAccount => ?_
  refine .bind (.fetch (blind_readOnly fun _ _ => rfl)) fun toAccount => ?_
  refine .bind Blind.refuse fun _ => ?_
  refine .bind (blind_getAccountForUpdate _) fun first => ?_
  exact .bind (blind_getAccountForUpdate _) fun second => trivial

theorem blind_addAccountBalance (env : Env) (id amount : Int64) (e : Err) :
    (addAccountBalance env id amount e).Blind DB.withKeys :=
  Blind.fetch (blind_updateRow (fun _ _ => rfl) fun _ _ _ _ => rfl)

theorem blind_transferWithQueries (env : Env) (arg : TransferTxParams) :
    (transferWithQueries env arg).Blind DB.withKeys := by
  refine (blind_loadAndLockTransferAccounts _ _).bind fun accounts => ?_
  refine .bind Blind.refuse fun _ => .bind Blind.refuse fun _ =>
    Blind.bind Blind.refuse fun _ => .bind Blind.refuse fun _ => ?_
  refine .bind Blind.ofExcept fun limits => .bind Blind.refuse fun _ => ?_
  refine .bind (.fetch (blind_readOnly fun _ _ => rfl)) fun fromLedger => ?_
  refine .bind (.call (blind_tryRead fun _ _ => rfl)) fun dailyTotal => ?_
  refine .bind Blind.refuse fun _ => ?_
  refine .bind (.fetch (blind_readOnly fun _ _ => rfl)) fun toLedger => ?_
  refine (blind_createBalancedTransaction _ _ _).bind fun transaction => ?_
  refine .bind (.call blind_createAuditLog) fun _ => ?_
  refine (blind_addAccountBalance _ _ _ _).bind fun fromUpdated => ?_
  refine (blind_addAccountBalance _ _ _ _).bind fun toUpdated => ?_
  refine .bind (.fetch (blind_updateRow (fun _ _ => rfl) fun _ _ _ _ => rfl))
    fun posted => ?_
  refine .bind (.call blind_createAuditLog) fun _ => ?_
  refine (blind_createFinancialNotification _ _ _).bind fun _ => ?_
  exact (blind_createFinancialNotification _ _ _).bind fun _ => trivial

def DB.keyRow (db : DB) (username key : String) : Option IdempotencyKey :=
  db.idempotencyKeys.get (.ownerOperation username key)

def IdempotencyKey.completed (result : TransferTxResult) (r : IdempotencyKey) : IdempotencyKey :=
  { r with
    transactionID := some result.transaction.id
    responseStatus := some idempotencyResponseStatusCreated
    resultSnapshot := some result.snapshot }

def IdempotentTransferTxParams.reservation (env : Env) (arg : IdempotentTransferTxParams) :
    IdempotencyKey :=
  newIdempotencyKey env arg.username arg.idempotencyKey arg.requestHash

variable {s : BankingPosition} {env : Env} {arg : IdempotentTransferTxParams} {db : DB}

theorem ownerOperation_mem_reservation :
    IdempotencyKeyKey.ownerOperation arg.username arg.idempotencyKey ∈
      keys (arg.reservation env) := by
  simp [keys, IdempotentTransferTxParams.reservation, newIdempotencyKey]

structure Recorded (env : Env) (arg : IdempotentTransferTxParams) (s : BankingPosition)
    (r : TransferTxResult) (s' : BankingPosition) : Prop where
  notReplayed : r.replayed = false
  fresh : s.db.bankingTransactions.conflict r.transaction = none
  transactions : s'.db.bankingTransactions = s.db.bankingTransactions.insert r.transaction
  row : s'.db.keyRow arg.username arg.idempotencyKey = some ((arg.reservation env).completed r)

theorem ensures_transferWithQueries_keys {env : Env} {arg : TransferTxParams} :
    Ensures (transferWithQueries env arg) s fun _ s' =>
      s'.db.idempotencyKeys = s.db.idempotencyKeys := by
  refine ⟨fun d hd => ?_⟩
  have hspares := (blind_transferWithQueries env arg).run_spares hd
  have hput : view d.writes s.db = DB.withKeys s.db.idempotencyKeys (view d.writes s.db) :=
    view_put hspares s.db.idempotencyKeys s.db
  show (view d.writes s.db).idempotencyKeys = s.db.idempotencyKeys
  rw [hput]
  rfl

theorem ensures_recordTransfer_free (hwf : s.db.WellFormed) {keys : Table IdempotencyKey}
    (hconf : keys.conflict (arg.reservation env) = none)
    (hkeys : s.db.idempotencyKeys = keys.insert (arg.reservation env)) :
    Ensures (recordTransfer env arg) s fun r s' => Recorded env arg s r s' := by
  have hself := Table.get_insert_self hconf ownerOperation_mem_reservation
  refine .bind (((ensures_transferWithQueries hwf fun _ _ _ h => h).and
    ensures_transferWithQueries_keys).mono ?_)
  rintro r s₁ ⟨h₁, hkeys₁⟩
  rw [hkeys] at hkeys₁
  apply Ensures.bind
  apply ensures_updateRow
  intro o o' s₂ hw hupd
  have ho := hupd.row
  rw [hkeys₁, hself] at ho
  cases ho
  obtain rfl := (IdempotencyKey.complete_some hupd.new).2
  refine .ret ⟨h₁.notReplayed, h₁.fresh, ?_, ?_⟩
  · rw [hw.db]
    exact h₁.transactions
  · have hpk : s₁.db.idempotencyKeys.get (pk ((arg.reservation env).completed r)) =
        some (arg.reservation env) := by
      rw [hkeys₁]
      exact Table.get_insert_self hconf (Keyed.pk_mem (arg.reservation env))
    have hsame := Table.get_update_same_keys hpk rfl
      (IdempotencyKeyKey.ownerOperation arg.username arg.idempotencyKey)
    have hmem : IdempotencyKeyKey.ownerOperation arg.username arg.idempotencyKey ∈
        Relational.keys ((arg.reservation env).completed r) := ownerOperation_mem_reservation
    rw [if_pos hmem] at hsame
    rw [DB.keyRow, hw.db]
    exact (congrArg (Table.get · _) (Table.amend_eq hpk)).trans hsame

theorem ensures_idempotentTransferTx_free (hwf : s.db.WellFormed)
    (hfree : s.db.keyRow arg.username arg.idempotencyKey = none) :
    Ensures (idempotentTransferTx env arg) s fun r s' => Recorded env arg s r s' := by
  apply ensures_execTx
  apply Ensures.bind
  apply ensures_read
  have hscan : s.db.idempotencyKeys.get (.ownerOperation arg.username arg.idempotencyKey) = none :=
    hfree
  rw [hscan]
  refine .bind (.ret ?_)
  apply Ensures.bind
  apply Ensures.call
  intro eff hs
  rcases createIdempotencyKey_ok.mp hs with ⟨⟨r, hr⟩, _⟩ | ⟨hconf, _, rfl⟩
  · rw [hscan] at hr
    cases hr
  · refine Ensures.mono (ensures_recordTransfer_free ?_ hconf ?_) ?_
    · exact hwf
    · rfl
    · intro r s' h _
      exact ⟨h.notReplayed, h.fresh, h.transactions, h.row⟩

theorem completeIdempotencyKey_exec {keys : Table IdempotencyKey} (own : List Write)
    (hconf : keys.conflict (arg.reservation env) = none) (result : TransferTxResult) :
    (completeIdempotencyKey {
        username := arg.username
        idempotencyKey := arg.idempotencyKey
        transactionID := result.transaction.id
        responseStatus := idempotencyResponseStatusCreated
        resultSnapshot := result.snapshot }).exec own
          (DB.withKeys (keys.insert (arg.reservation env)) db) =
      .ok ⟨some ((arg.reservation env).completed result),
        [.updateIdempotencyKey (arg.reservation env) ((arg.reservation env).completed result)],
        []⟩ := by
  have hpk : (keys.insert (arg.reservation env)).get
      (pk ((arg.reservation env).completed result)) = some (arg.reservation env) :=
    Table.get_insert_self hconf (Keyed.pk_mem (arg.reservation env))
  refine updateRow_ok.mpr (Or.inr ⟨_, _, ⟨?_, rfl, rfl, ?_⟩, rfl⟩)
  · exact Table.get_insert_self hconf ownerOperation_mem_reservation
  · exact Table.clash_of_same_keys hpk rfl

theorem recordTransfer_run (hconf : db.idempotencyKeys.conflict (arg.reservation env) = none)
    (hrun : (transferWithQueries env arg.toTransferTxParams).run [] db = .ok d) :
    ∃ locks, (recordTransfer env arg).run [.insertIdempotencyKey (arg.reservation env)]
        (DB.withKeys (db.idempotencyKeys.insert (arg.reservation env)) db) =
      .ok ⟨d.result, d.writes ++ [.updateIdempotencyKey (arg.reservation env)
        ((arg.reservation env).completed d.result)], locks⟩ := by
  have hblind := blind_transferWithQueries env arg.toTransferTxParams
  let eff : Answer (Option IdempotencyKey) := ⟨some ((arg.reservation env).completed d.result),
    [.updateIdempotencyKey (arg.reservation env) ((arg.reservation env).completed d.result)], []⟩
  refine ⟨d.locks ++ eff.claims, run_bind_ok.mpr ⟨d, ⟨d.result, eff.writes, eff.claims⟩, ?_, ?_, rfl⟩⟩
  · rw [hblind.run_put [], hrun]
  · refine run_bind_ok.mpr ⟨⟨_, eff.writes, eff.claims⟩, ⟨d.result, [], []⟩,
      run_fetch_ok.mpr ⟨eff, _, ?_, rfl, rfl⟩, rfl, by simp⟩
    rw [view_put (hblind.run_spares hrun)]
    exact completeIdempotencyKey_exec _ hconf d.result

theorem idempotentTransferTx_of_transferTx
    (hfree : db.keyRow arg.username arg.idempotencyKey = none)
    (hconf : db.idempotencyKeys.conflict (arg.reservation env) = none)
    (huser : missingUser "idempotency_keys_username_fkey" arg.username db = none)
    (hrun : (transferTx env arg.toTransferTxParams).run [] db = .ok d) :
    ∃ d', (idempotentTransferTx env arg).run [] db = .ok d' ∧ d'.result = d.result := by
  obtain ⟨d₁, d₂, hd₁, hd₂, rfl⟩ := run_bind_ok.mp hrun
  obtain ⟨eff, rest, heff, hrest, rfl⟩ := run_stmt_ok.mp hd₂
  cases hrest
  obtain ⟨haccepted, rfl⟩ := deferredTriggers_ok.mp heff
  obtain ⟨locks, hrecord⟩ := recordTransfer_run hconf hd₁
  have hscan : (findExpiredIdempotencyKey env.now arg.username arg.idempotencyKey).exec [] db =
      .ok ⟨none, [], []⟩ := by
    rw [DB.keyRow] at hfree
    rw [findExpiredIdempotencyKey, readOnly_ok, hfree]
    rfl
  have hcreate : (createIdempotencyKey env arg.username arg.idempotencyKey arg.requestHash).exec []
      db = .ok ⟨some (arg.reservation env), [.insertIdempotencyKey (arg.reservation env)], []⟩ :=
    createIdempotencyKey_ok.mpr (Or.inr ⟨hconf, huser, rfl⟩)
  have hreserve : (reserveKey env arg).run [] db = .ok _ :=
    run_stmt_ok.mpr ⟨_, _, hcreate, hrecord, rfl⟩
  refine ⟨_, run_bind_ok.mpr ⟨_, ⟨d₁.result, [], []⟩, run_stmt_ok.mpr ⟨_, _, hscan, hreserve, rfl⟩,
    run_stmt_ok.mpr ⟨⟨(), [], []⟩, ⟨d₁.result, [], []⟩, ?_, rfl, rfl⟩, rfl⟩, rfl⟩
  -- the deferred triggers look at the books, which are the same as after the transfer alone
  have hbooks : (view ([.insertIdempotencyKey (arg.reservation env)] ++ (d₁.writes ++
      [.updateIdempotencyKey (arg.reservation env) ((arg.reservation env).completed d₁.result)]))
        db).toBooks = (view d₁.writes db).toBooks := by
    rw [view_append, view_append]
    exact toBooks_view_congr d₁.writes rfl
  refine deferredTriggers_ok.mpr ⟨?_, rfl⟩
  intro w hw id hid
  simp only [List.nil_append, List.mem_append, List.mem_singleton] at hw
  have hmem : w ∈ d₁.writes := by
    rcases hw with rfl | hw | rfl
    · cases hid
    · exact hw
    · cases hid
  simp only [List.nil_append]
  rw [hbooks]
  exact haccepted w (by simpa using hmem) id hid

end Monierave
