import Monierave.Banking.Locking
import Monierave.Banking.System
import Monierave.ReadCommitted.Serializability

/-! # The banking operations keep the locking discipline

Each operation first locks the accounts, or the transaction, it is about and
from then on reads nothing that could change under it.
-/

namespace Monierave

open Relational ReadCommitted Prog

variable {pt : BankingPoint} {α : Type}

variable {env : Env} {fn : Tx α} {id : Int64} {ids : List Int64}
    {arg : IdempotentTransferTxParams} {base : Tx Response → Prop} {expired : Option Int64}
    {db : DB} {d : Answer Response} {t : BankingTx} {p : Tx Response}

theorem guarded_lockTransferAccounts {fromID toID : Int64}
    {Q : Account × Account → BankingPoint → Prop}
    (h : ∀ r pt', pt.Grows pt' → r.1.id = fromID → LockKey.account (.id fromID) ∈ pt'.held →
      Q r pt') :
    Guarded (lockTransferAccounts fromID toID) pt Q := by
  apply Guarded.bind
  apply guarded_getAccountForUpdate
  intro first pt₁ hg₁ hfirst hheld₁
  apply Guarded.bind
  apply guarded_getAccountForUpdate
  intro second pt₂ hg₂ hsecond hheld₂
  by_cases hgt : fromID > toID
  · simp only [if_pos hgt] at hfirst hsecond hheld₁ hheld₂
    have hne : first.id ≠ fromID := by
      rw [hfirst]
      intro heq
      rw [heq] at hgt
      exact Int64.lt_irrefl hgt
    rw [if_neg hne]
    exact h _ pt₂ (hg₁.trans hg₂) hsecond hheld₂
  · simp only [if_neg hgt] at hfirst hsecond hheld₁ hheld₂
    rw [if_pos hfirst]
    exact h _ pt₂ (hg₁.trans hg₂) hfirst (hg₂.held _ hheld₁)

theorem guarded_loadAndLockTransferAccounts {publicID : Option UUID} {number : String}
    {Q : Account × Account → BankingPoint → Prop}
    (h : ∀ r pt', pt.Grows pt' → LockKey.account (.id r.1.id) ∈ pt'.held → Q r pt') :
    Guarded (loadAndLockTransferAccounts publicID number) pt Q := by
  apply guarded_getAccountByPublicID
  · intro a a' hid
    simp only [hid]
  intro fromAccount
  apply guarded_getAccountByAccountNumber
  · intro a a' hid
    simp only [hid]
  intro toAccount
  refine .bind (.refuse fun _ => ?_)
  apply guarded_lockTransferAccounts
  intro r pt' hg hid hheld
  exact h r pt' hg (hid ▸ hheld)

theorem steady_transferWithQueries {arg : TransferTxParams} :
    Steady bankingReliance (transferWithQueries env arg) := by
  intro pt
  apply Guarded.bind
  apply guarded_loadAndLockTransferAccounts
  rintro ⟨fromAccount, toAccount⟩ pt₁ hg₁ hheld
  refine .bind (.refuse fun _ => ?_)
  refine .bind (.refuse fun _ => ?_)
  refine .bind (.refuse fun _ => ?_)
  refine .bind (.refuse fun _ => ?_)
  refine .bind (.ofExcept ?_)
  rintro ⟨perTransferLimit, dailyLimit⟩ _
  refine .bind (.refuse fun _ => ?_)
  apply Guarded.bind
  apply guarded_customerLedgerAccount
  intro fromLedger pt₂ hg₂ hledger
  apply Guarded.bind
  apply guarded_getDailyOutgoingTransferTotal (hg₂.held _ hheld) hledger
  intro dailyTotal pt₃ hg₃
  refine .bind (.refuse fun _ => ?_)
  -- from here on nothing depends on what is held
  refine Guarded.mono (Steady.bind steady_customerLedgerAccount (fun toLedger => ?_) pt₃)
    fun _ _ hg => hg₁.trans (hg₂.trans (hg₃.trans hg))
  refine .bind (steady_createBalancedTransaction rfl) ?_
  rintro ⟨transaction, postings⟩
  refine steady_createAuditLog.bind fun _ => ?_
  refine steady_addAccountBalance.bind fun fromUpdated => ?_
  refine steady_addAccountBalance.bind fun toUpdated => ?_
  refine steady_updateBankingTransactionRow.bind fun posted => ?_
  refine steady_createAuditLog.bind fun _ => ?_
  refine steady_createFinancialNotification.bind fun _ => ?_
  exact steady_createFinancialNotification.bind fun _ => .ret _

abbrev Kept (p : Tx α) (pt : BankingPoint) : Prop := Guarded p pt fun _ _ => True

theorem kept_of_steady {p : Tx α} (h : Steady bankingReliance p) : Kept p pt :=
  (h pt).mono fun _ _ _ => trivial

theorem kept_execTx (h : Kept fn pt) : Kept (execTx fn) pt :=
  guarded_execTx (h.mono fun _ _ _ _ _ => trivial)

theorem kept_transferTx (env : Env) (arg : TransferTxParams) : Kept (transferTx env arg) pt :=
  kept_execTx (kept_of_steady steady_transferWithQueries)

theorem kept_auditTransferFailureTx (env : Env) (arg : TransferTxParams) (e : Err) :
    Kept (auditTransferFailureTx env arg e) pt :=
  kept_execTx (kept_of_steady (steady_createAuditLog.bind fun _ =>
    steady_createFinancialNotification.bind fun _ => .ret _))

theorem steady_settleAccountBalance {kind : SettlementKind} {amount : Int64} :
    Steady bankingReliance (settleAccountBalance env kind id amount) := by
  cases kind with
  | deposit => exact steady_addAccountBalance
  | withdrawal => exact steady_addAccountBalance

theorem kept_settlementMovementTx (env : Env) (kind : SettlementKind)
    (arg : SettlementMovementParams) : Kept (settlementMovementTx env kind arg) pt := by
  apply kept_execTx
  apply guarded_getAccountByPublicID
  · intro a a' hid
    simp only [hid]
  intro located
  apply Guarded.bind
  apply guarded_getAccountForUpdate
  intro account pt₁ _ _ _
  refine .bind (.refuse fun _ => ?_)
  refine .bind (.refuse fun _ => ?_)
  apply kept_of_steady
  refine steady_customerLedgerAccount.bind fun customerLedger => ?_
  refine steady_getSettlementLedgerAccount.bind fun settlementLedger => ?_
  refine .bind (steady_createBalancedTransaction rfl) ?_
  rintro ⟨transaction, postings⟩
  refine steady_createAuditLog.bind fun _ => ?_
  refine steady_settleAccountBalance.bind fun updated => ?_
  refine steady_updateBankingTransactionRow.bind fun posted => ?_
  refine steady_createAuditLog.bind fun audit => ?_
  exact steady_createFinancialNotification.bind fun _ => .ret _

theorem kept_setAccountStatusTx (env : Env) (arg : AccountStatusTxParams) :
    Kept (setAccountStatusTx env arg) pt := by
  apply kept_execTx
  apply Guarded.bind
  apply guarded_getAccountByPublicIDForUpdate
  intro account pt₁ _ _
  refine .bind (.refuse fun _ => ?_)
  refine .bind (.refuse fun _ => ?_)
  apply Guarded.bind
  apply guarded_updateAccountRow
  · intro o r hr
    rw [(Account.setStatus_some hr).2]
    rfl
  intro _ updated pt₂ _ _
  exact kept_of_steady (steady_createAuditLog.bind fun _ =>
    steady_createFinancialNotification.bind fun _ => .ret _)

theorem kept_closeAccountTx (env : Env) (arg : CloseAccountTxParams) :
    Kept (closeAccountTx env arg) pt := by
  apply kept_execTx
  apply Guarded.bind
  apply guarded_getAccountByPublicIDForUpdate
  intro account pt₁ _ _
  refine .bind (.refuse fun _ => ?_)
  refine .bind (.refuse fun _ => ?_)
  refine .bind (.refuse fun _ => ?_)
  apply Guarded.bind
  apply guarded_updateAccountRow
  · intro o r hr
    rw [(Account.close_some hr).2.2]
    rfl
  intro _ closed pt₂ _ _
  exact kept_of_steady (steady_createAuditLog.bind fun _ =>
    steady_createFinancialNotification.bind fun _ => .ret _)

theorem kept_createAccountAttempt (env : Env) (arg : CreateAccountParams) :
    Kept (createAccountAttempt env arg) pt := by
  apply kept_execTx
  apply Guarded.bind
  refine guarded_insertRow locked_accounts (fun _ hk => List.mem_map_of_mem hk)
    (fun _ _ _ _ => trivial)
    (fun _ _ _ _ hst hviol horph => ⟨hviol, missingUser_stable hst horph⟩) ?_
  intro pt₁ _ _
  apply Guarded.bind
  refine guarded_insertRow locked_ledgerAccounts (fun _ hk => List.mem_map_of_mem hk)
    (fun _ _ hconf _ => hconf) (fun _ _ _ _ _ _ _ => ⟨rfl, rfl⟩) ?_
  intro pt₂ _ _
  exact kept_of_steady (steady_createAuditLog.bind fun _ => .ret _)

theorem steady_lockAccounts : Steady bankingReliance (lockAccounts ids) := by
  induction ids with
  | nil => exact .ret []
  | cons id ids ih =>
    refine Steady.bind (fun pt => ?_) fun account => ih.bind fun accounts => .ret _
    exact guarded_getAccountForUpdate fun _ _ hg _ _ => hg

theorem steady_undoPostings {source : List ReversalSourcePosting} :
    Steady bankingReliance (undoPostings env source) := by
  induction source with
  | nil => exact .ret []
  | cons p ps ih =>
    unfold undoPostings
    cases p.owner with
    | settlement code => exact ih
    | customer id => exact steady_addAccountBalance.bind fun _ => ih.bind fun _ => .ret _

theorem steady_notifyReversal {arg : ReverseTransactionTxParams}
    {original reversal : BankingTransaction} {updated : List (Int64 × ReversedAccount)} {n : Nat} :
    Steady bankingReliance (notifyReversal env arg original reversal updated n ids) := by
  induction ids generalizing n with
  | nil => exact .ret []
  | cons id ids ih =>
    exact Steady.bind .found fun entry =>
      steady_createFinancialNotification.bind fun _ => ih.bind fun _ => .ret _

theorem kept_reverseTransactionTx (env : Env) (arg : ReverseTransactionTxParams) :
    Kept (reverseTransactionTx env arg) pt := by
  apply kept_execTx
  apply Guarded.bind
  apply guarded_getBankingTransactionForUpdate
  intro original pt₁ _ hheld
  refine .bind (.refuse fun _ => ?_)
  refine .bind (.refuse fun _ => ?_)
  refine .bind (.refuse fun _ => ?_)
  apply Guarded.bind
  apply guarded_listReversalSourcePostings hheld
  intro source pt₂ hg₂
  refine .bind (.refuse fun _ => ?_)
  refine .bind (steady_lockAccounts.follow fun locked pt₃ hg₃ => ?_)
  refine .bind (.refuse fun _ => ?_)
  apply Guarded.bind
  apply guarded_createBalancedTransaction
  · intro o ho
    cases ho
    exact hg₃.held _ (hg₂.held _ hheld)
  rintro ⟨reversal, postings⟩ pt₄ _
  apply kept_of_steady
  refine steady_undoPostings.bind fun updated => ?_
  refine steady_updateBankingTransactionRow.bind fun posted => ?_
  refine steady_updateBankingTransactionRow.bind fun reversed => ?_
  refine steady_createAuditLog.bind fun audit => ?_
  exact steady_notifyReversal.bind fun _ => .ret _

/-! ## Transfers with an idempotency key

The scan for an expired reservation takes no lock, so what it found may be gone
when the transaction goes on. What is left of the operation after the scan does
the same whatever the scan found, as long as it changes anything at all. -/

def answering (f : α → Response) (p : Tx α) : Tx Response := p >>= fun a => pure (f a)

def afterScan (env : Env) (arg : IdempotentTransferTxParams) (expired : Option Int64) :
    Tx Response :=
  answering .transfer (execTx do
    dropExpiredKey env arg expired
    reserveKey env arg)

theorem body_idempotentTransfer (env : Env) (arg : IdempotentTransferTxParams) :
    BankingTx.body (.idempotentTransfer env arg) =
      stmt (findExpiredIdempotencyKey env.now arg.username arg.idempotencyKey)
        (afterScan env arg) := rfl

theorem afterScan_some (env : Env) (arg : IdempotentTransferTxParams) (id : Int64) :
    afterScan env arg (some id) = stmt (deleteIdempotencyKeyIf
      (IdempotencyKey.expiredUnder env.now arg.username arg.idempotencyKey) id)
        fun _ => afterScan env arg none := rfl

def afterReserve (env : Env) (arg : IdempotentTransferTxParams) :
    Option IdempotencyKey → Tx Response
  | none => answering .transfer (execTx (replayTransfer arg))
  | some _ => answering .transfer (execTx (recordTransfer env arg))

theorem afterScan_none (env : Env) (arg : IdempotentTransferTxParams) :
    afterScan env arg none = stmt (createIdempotencyKey env arg.username arg.idempotencyKey
      arg.requestHash) (afterReserve env arg) := by
  have hk : ∀ x, afterReserve env arg x = answering .transfer (execTx (match x with
      | none => replayTransfer arg
      | some _ => recordTransfer env arg)) := by
    intro x
    cases x <;> rfl
  rw [show afterReserve env arg = _ from funext hk]
  rfl

theorem silent_replayTransfer (arg : IdempotentTransferTxParams) :
    (replayTransfer arg).Silent := by
  refine WritesOnly.bind (.fetch ?_) fun id => ?_
  · intro own db eff hs
    simp [readOnly_ok.mp hs]
  refine .bind (.fetch ?_) fun existing => ?_
  · intro own db eff hs
    cases hs
    simp
  exact .bind .refuse fun _ => .bind .refuse fun _ => .bind .found fun _ => .ret _

theorem silent_execTx (h : fn.Silent) : (execTx fn).Silent := by
  refine WritesOnly.bind h fun a => .bind (.call ?_) fun _ => .ret _
  intro own db eff hs
  obtain ⟨_, rfl⟩ := deferredTriggers_ok.mp hs
  simp

theorem silent_replay (env : Env) (arg : IdempotentTransferTxParams) :
    (afterReserve env arg none).Silent :=
  WritesOnly.bind (silent_execTx (silent_replayTransfer arg)) fun _ => .ret _

theorem kept_replayTransfer
    (hheld : LockKey.idempotencyKey (.ownerOperation arg.username arg.idempotencyKey) ∈ pt.held) :
    Kept (replayTransfer arg) pt := by
  apply Guarded.bind
  apply Guarded.fetch
  intro db eff hwf hknown hs
  obtain rfl := readOnly_ok.mp hs
  refine ⟨trivial, ?_⟩
  intro id hid
  refine ⟨⟨pt.known, pt.lasting, hknown, ?_⟩, ?_⟩
  · apply Guarded.bind
    apply Guarded.fetch
    intro db eff hwf hknown hs
    cases hs
    refine ⟨trivial, ?_⟩
    intro existing hex
    refine ⟨⟨_, pt.lasting, hknown, ?_⟩, ?_⟩
    · refine .bind (.refuse fun _ => ?_)
      refine .bind (.refuse fun _ => ?_)
      exact .bind (.found fun _ _ => trivial)
    · intro H db' hH _ hst
      have hid : existing.id = id := by
        simpa [keys, eq_comm] using Table.key_of_get hex
      have hget := hst.getIdempotencyKey (k := .id id) (hH _ (by
        dsimp only at hex
        simp [Effect.claims, hex, IdempotencyKey.rowLock, hid]))
      simp only [lockIdempotencyKey, ← hget]
  · intro H db' hH _ hst
    rw [findIdempotencyKey, readOnly_ok,
      ← hst.getIdempotencyKey (hH _ (List.mem_append_left _ hheld))]

theorem kept_recordTransfer (env : Env) (arg : IdempotentTransferTxParams) :
    Kept (recordTransfer env arg) pt := by
  refine steady_transferWithQueries.follow fun result pt₁ _ => ?_
  apply Guarded.bind
  refine guarded_updateRow locked_idempotencyKeys (fun _ _ => rfl) (fun _ _ _ _ => trivial) ?_
  intro _ _ _ _ _ _ _ _
  trivial

theorem kept_answering {f : α → Response} {p : Tx α} (h : Kept p pt) : Kept (answering f p) pt :=
  Guarded.bind (h.mono fun _ _ _ => trivial)

theorem robust_afterReserve {x : Option IdempotencyKey} (h : pt.own = [] ∨
      LockKey.idempotencyKey (.ownerOperation arg.username arg.idempotencyKey) ∈ pt.held) :
    Robust bankingReliance base (afterReserve env arg x) pt := by
  cases x with
  | some r => exact (kept_answering (kept_execTx (kept_recordTransfer env arg))).robust
  | none =>
    rcases h with hown | hheld
    · exact Robust.of_silent (silent_replay env arg) hown
    · exact (kept_answering (kept_execTx (kept_replayTransfer hheld))).robust

theorem robust_afterScan_none (h : pt.own = [] ∨
      LockKey.idempotencyKey (.ownerOperation arg.username arg.idempotencyKey) ∈ pt.held) :
    Robust bankingReliance base (afterScan env arg none) pt := by
  rw [afterScan_none]
  intro db eff hwf hknown hs
  rcases createIdempotencyKey_ok.mp hs with ⟨htaken, rfl⟩ | ⟨hconf, huser, rfl⟩
  · -- the key is taken
    refine ⟨trivial, ⟨pt.known, pt.lasting, hknown, robust_afterReserve ?_⟩, ?_⟩
    · simpa [Effect.claims] using h
    · rcases h with hown | hheld
      · exact Or.inr (Or.inl ⟨hown, rfl, silent_replay env arg⟩)
      · refine Or.inr (Or.inr (Or.inr (Repeats.of_same ?_)))
        intro H db' hH _ _ hst
        rw [createIdempotencyKey_ok]
        left
        rwa [← hst.getIdempotencyKey (hH _ (List.mem_append_left _ hheld)), and_iff_left rfl]
  · -- the key is ours
    refine ⟨⟨trivial, trivial⟩, ⟨pt.known, pt.lasting, hknown, robust_afterReserve ?_⟩, ?_⟩
    · right
      simp [Effect.claims, Write.keys, keys, newIdempotencyKey]
    · refine Or.inr (Or.inr (Or.inr (Repeats.of_same ?_)))
      intro H db' hH _ _ hst
      rw [createIdempotencyKey_ok]
      refine Or.inr ⟨?_, missingUser_stable hst huser, rfl⟩
      rw [← hconf]
      symm
      apply Table.conflict_congr
      intro k hk
      exact hst.getIdempotencyKey (hH _ (List.mem_append_right _ (by
        simp [Effect.claims, Write.keys, hk])))

def BankingTx.standIn (t : BankingTx) (p : Tx Response) : Prop :=
  p = t.body ∨ ∃ env arg expired, t = .idempotentTransfer env arg ∧ p = afterScan env arg expired

theorem robust_afterScan :
    Robust bankingReliance (BankingTx.standIn (.idempotentTransfer env arg))
      (afterScan env arg expired) (Point.start bankingReliance) := by
  cases expired with
  | none => exact robust_afterScan_none (Or.inl rfl)
  | some id =>
    rw [afterScan_some]
    intro db eff hwf hknown hs
    cases hrow : (db.idempotencyKeys.get (.id id)).filter
        (IdempotencyKey.expiredUnder env.now arg.username arg.idempotencyKey) with
    | none =>
      -- nothing to delete: go on as if the scan had found nothing
      obtain rfl := deleteIdempotencyKeyIf_ok.mp hs
      simp only [hrow, Option.toList_none, List.map_nil]
      refine ⟨trivial, ⟨_, (Point.start bankingReliance).lasting, trivial,
        robust_afterScan_none (Or.inl rfl)⟩, Or.inr (Or.inr (Or.inl ?_))⟩
      exact ⟨rfl, rfl, trivial, rfl, Or.inr ⟨env, arg, none, rfl, rfl⟩⟩
    | some r =>
      obtain rfl := deleteIdempotencyKeyIf_ok.mp hs
      obtain ⟨hget, hcond⟩ := Option.filter_eq_some_iff.mp hrow
      simp only [hrow, Option.toList_some, List.map_cons, List.map_nil]
      have hkey := (IdempotencyKey.expiredUnder_iff.mp hcond).1
      refine ⟨⟨trivial, trivial⟩, ⟨_, (Point.start bankingReliance).lasting, trivial,
        robust_afterScan_none (Or.inr ?_)⟩, Or.inr (Or.inr (Or.inr (Repeats.of_same ?_)))⟩
      · simpa [Effect.claims, Write.keys] using hkey
      · intro H db' hH _ _ hst
        rw [deleteIdempotencyKeyIf_ok, ← hst.getIdempotencyKey (k := .id id), hrow]
        · rfl
        · apply hH
          have := Table.key_of_get hget
          simpa [Effect.claims, Write.keys] using this

theorem afterScan_none_writes (h : (afterScan env arg none).run [] db = .ok d)
    {r : IdempotencyKey}
    (hr : db.idempotencyKeys.get (.ownerOperation arg.username arg.idempotencyKey) = some r) :
    d.writes = [] := by
  rw [afterScan_none] at h
  obtain ⟨eff, rest, hs, hk, rfl⟩ := run_stmt_ok.mp h
  rcases createIdempotencyKey_ok.mp hs with ⟨_, rfl⟩ | ⟨hconf, _, _⟩
  · exact (silent_replay env arg).run_writes hk
  · have := Table.conflict_eq_none.mp hconf (.ownerOperation arg.username arg.idempotencyKey)
      (by simp [keys, newIdempotencyKey])
    rw [hr] at this
    cases this

theorem afterScan_some_run (h : (afterScan env arg (some id)).run [] db = .ok d) :
    (∃ r, db.idempotencyKeys.get (.ownerOperation arg.username arg.idempotencyKey) = some r ∧
      r.expired env.now = true ∧ r.id = id) ∨
    (afterScan env arg none).run [] db = .ok d := by
  rw [afterScan_some] at h
  obtain ⟨eff, rest, hs, hk, rfl⟩ := run_stmt_ok.mp h
  obtain rfl := deleteIdempotencyKeyIf_ok.mp hs
  cases hrow : (db.idempotencyKeys.get (.id id)).filter
      (IdempotencyKey.expiredUnder env.now arg.username arg.idempotencyKey) with
  | none =>
    right
    simp only [hrow, Option.toList_none, List.map_nil] at hk ⊢
    simpa [Effect.claims] using hk
  | some r =>
    left
    obtain ⟨hget, hcond⟩ := Option.filter_eq_some_iff.mp hrow
    obtain ⟨hkey, hexp⟩ := IdempotencyKey.expiredUnder_iff.mp hcond
    refine ⟨r, Table.get_eq_of_key hget hkey, hexp, ?_⟩
    simpa [keys, eq_comm] using Table.key_of_get hget

theorem afterScan_run (h : (afterScan env arg expired).run [] db = .ok d) (hw : d.writes ≠ []) :
    (BankingTx.body (.idempotentTransfer env arg)).run [] db = .ok d := by
  rw [body_idempotentTransfer, run_stmt_ok]
  refine ⟨_, d, readOnly_ok.mpr rfl, ?_, by simp [Effect.claims]⟩
  -- the run of the operation after a scan that found nothing deletable
  have hnone : (afterScan env arg none).run [] db = .ok d →
      db.idempotencyKeys.get (.ownerOperation arg.username arg.idempotencyKey) = none := by
    intro hrun
    cases hget : db.idempotencyKeys.get (.ownerOperation arg.username arg.idempotencyKey) with
    | none => rfl
    | some r => exact absurd (afterScan_none_writes hrun hget) hw
  have hfresh : (afterScan env arg none).run [] db = .ok d → (afterScan env arg
      (((db.idempotencyKeys.get (.ownerOperation arg.username arg.idempotencyKey)).filter
        (IdempotencyKey.expired env.now)).map IdempotencyKey.id)).run [] db = .ok d := by
    intro hrun
    rw [hnone hrun]
    exact hrun
  simp only [List.nil_append, view_nil]
  cases expired with
  | none => exact hfresh h
  | some id =>
    rcases afterScan_some_run h with ⟨r, hr, hexp, rfl⟩ | hrun
    · simpa [hr, Option.filter, hexp] using h
    · exact hfresh hrun

theorem robust_body (t : BankingTx) :
    Robust bankingReliance t.standIn t.body (Point.start bankingReliance) := by
  cases t with
  | createAccount env arg => exact (kept_answering (kept_createAccountAttempt env arg)).robust
  | settlementMovement env kind arg =>
    exact (kept_answering (kept_settlementMovementTx env kind arg)).robust
  | transfer env arg => exact (kept_answering (kept_transferTx env arg)).robust
  | idempotentTransfer env arg =>
    rw [body_idempotentTransfer]
    intro db eff hwf hknown hs
    obtain rfl := readOnly_ok.mp hs
    refine ⟨trivial, ⟨_, (Point.start bankingReliance).lasting, trivial, robust_afterScan⟩,
      Or.inr (Or.inr (Or.inl ?_))⟩
    exact ⟨rfl, rfl, rfl, rfl, Or.inr ⟨env, arg, _, rfl, rfl⟩⟩
  | auditTransferFailure env arg e =>
    exact (kept_answering (kept_auditTransferFailureTx env arg e)).robust
  | setAccountStatus env arg => exact (kept_answering (kept_setAccountStatusTx env arg)).robust
  | reverseTransaction env arg =>
    exact (kept_answering (kept_reverseTransactionTx env arg)).robust
  | closeAccount env arg => exact (kept_answering (kept_closeAccountTx env arg)).robust
  | auditOperatorFailure env arg =>
    exact (kept_answering (f := fun _ => Response.recorded)
      (kept_of_steady steady_createAuditLog)).robust

theorem robust_standIn (h : t.standIn p) :
    Robust bankingReliance t.standIn p (Point.start bankingReliance) := by
  rcases h with rfl | ⟨env, arg, expired, rfl, rfl⟩
  · exact robust_body t
  · exact robust_afterScan

theorem standIn_run (h : t.standIn p) (hrun : p.run [] db = .ok d) (hw : d.writes ≠ []) :
    t.body.run [] db = .ok d := by
  rcases h with rfl | ⟨env, arg, expired, rfl, rfl⟩
  · exact hrun
  · exact afterScan_run hrun hw

end Monierave
