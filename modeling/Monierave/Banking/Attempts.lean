import Monierave.Banking.Notices
import Monierave.Banking.System
import Monierave.ReadCommitted.Confinement
import Monierave.ReadCommitted.Faults

/-! # The record of a failed attempt

A transfer that fails is recorded by a second transaction, which writes an audit row
of the rejected attempt and a notification for the customer.
-/

namespace Monierave

open Relational ReadCommitted Prog

/-! ## What is written for an attempt -/

/-- The audit row of a rejected attempt, or a part of the notification that a transfer
has failed. -/
def Write.rejectsAttempt : Write → Bool
  | .insertAuditLog r => r.entityType == .transferAttempt && r.toState == some "rejected"
  | .insertEmailJob j =>
    match j.payload with
    | .financialNotification p => p.eventType == domainEventTransactionFailed
    | .verifyEmail => false
  | .insertOutboxEvent e => e.eventType == domainEventTransactionFailed
  | _ => false

def Write.insertsTransaction : Write → Bool
  | .insertBankingTransaction _ => true
  | _ => false

namespace BankingTx

def ofAttempt : BankingTx → Prop
  | transfer .. => True
  | idempotentTransfer .. => True
  | auditTransferFailure .. => True
  | _ => False

def recordsFailure : BankingTx → Prop
  | auditTransferFailure .. => True
  | _ => False

def mayWrite : BankingTx → Write → Prop
  | transfer .., w => w.rejectsAttempt = false
  | idempotentTransfer .., w => w.rejectsAttempt = false
  | auditTransferFailure .., w => w.insertsTransaction = false
  | _, _ => True

end BankingTx

section Statements

variable {C : DB → Prop} {P : Write → Prop} {R κ : Type} [Keyed R κ] [DecidableEq κ]

variable {β : Type} {e : Err} {table : DB → Table R} {constraint : κ → String}
    {violated orphaned : DB → Option SqlError} {write : R → Write} {r : R}

theorem confined_read {f : DB → β} : (call (readOnly f)).Confined C P fun _ => True := by
  refine .call fun own db eff _ hs => ?_
  rw [readOnly_ok.mp hs]
  simp

theorem confined_fetch {f : DB → Option β} : (fetch e (readOnly f)).Confined C P fun _ => True := by
  refine .fetch fun own db eff _ hs => ?_
  rw [readOnly_ok.mp hs]
  simp

theorem confined_tryRead {f : DB → Except SqlError β} :
    (call (tryRead f)).Confined C P fun _ => True := by
  refine .call fun own db eff _ hs => ?_
  obtain ⟨b, _, rfl⟩ := tryRead_ok.mp hs
  simp

theorem confined_lock {find : DB → Option β} {key : β → LockKey} :
    (fetch e (selectForUpdate find key)).Confined C P fun _ => True := by
  refine .fetch fun own db eff _ hs => ?_
  rw [selectForUpdate_ok.mp hs]
  simp

theorem writes_insertRow {own : List Write} {db : DB} {eff : Answer R} (hP : P (write r))
    (h : (insertRow table constraint violated orphaned write r).exec own db = .ok eff) :
    ∀ w ∈ eff.writes, P w := by
  obtain ⟨_, _, _, rfl⟩ := insertRow_ok.mp h
  simpa using hP

theorem confined_insert (hP : P (write r)) :
    (call (insertRow table constraint violated orphaned write r)).Confined C P fun _ => True :=
  Confined.call fun _ _ _ _ hs => ⟨writes_insertRow hP hs, trivial⟩

theorem confined_update {k : κ} {f : R → Except SqlError (Option R)}
    {violated : R → R → Option SqlError} {write : R → R → Write} {lock : κ → LockKey}
    (hP : ∀ o r, P (write o r)) :
    (fetch e (updateRow table k f violated constraint write lock)).Confined C P
      fun _ => True := by
  refine .fetch fun own db eff _ hs => ⟨?_, fun _ _ => trivial⟩
  rcases updateRow_ok.mp hs with ⟨_, rfl⟩ | ⟨o, r, _, rfl⟩
  · simp
  · simpa using hP o r

theorem confined_audited {q : Query R} {audit : R → AuditLog}
    (hq : ∀ own db e, q.exec own db = .ok e → ∀ w ∈ e.writes, P w)
    (haudit : ∀ r, P (.insertAuditLog (audit r))) :
    (call (audited q audit)).Confined C P fun _ => True := by
  refine .call fun own db eff _ hs => ⟨?_, trivial⟩
  obtain ⟨e, he, rfl⟩ := audited_ok.mp hs
  refine List.forall_mem_append.mpr ⟨hq own db e he, ?_⟩
  simpa using haudit e.result

theorem confined_createAuditLog {now : Timestamp} {arg : CreateAuditLogParams}
    (hP : ∀ r : AuditLog, r.entityType = arg.entityType → P (.insertAuditLog r)) :
    (call (createAuditLog now arg)).Confined C P fun _ => True := by
  refine .call fun own db eff _ hs => ⟨?_, trivial⟩
  rw [createAuditLog_ok hs]
  simpa using hP _ (createAuditLog_describes hs).entityType

theorem confined_execTx {α : Type} {fn : Tx α} {Q : α → Prop} (h : fn.Confined C P Q) :
    (execTx fn).Confined C P Q := by
  refine h.bind fun a ha => .seq (.call fun own db eff _ hs => ?_) fun _ => ha
  obtain ⟨_, rfl⟩ := deferredTriggers_ok.mp hs
  simp

end Statements

/-! ## Parts of transactions -/

section Parts

variable {C : DB → Prop} {P : Write → Prop}

theorem confined_createFinancialNotification (env : Env) (n : Nat)
    (arg : FinancialNotificationParams)
    (hjob : ∀ user, P (.insertEmailJob (notificationJob env n arg user)))
    (hevent : ∀ e : OutboxEvent, e.eventType = arg.eventType → P (.insertOutboxEvent e))
    (haudit : ∀ r : AuditLog, r.entityType = .emailJob ∨ r.entityType = .outboxEvent →
      P (.insertAuditLog r)) :
    (createFinancialNotification env n arg).Confined C P fun _ => True := by
  refine .seq confined_fetch fun user => ?_
  refine .seq (confined_audited (fun _ _ _ he => writes_insertRow (hjob user) he)
    fun r => haudit _ (Or.inl rfl)) fun job => ?_
  exact .seq (confined_audited (fun _ _ _ he => writes_insertRow (hevent _ rfl) he)
    fun r => haudit _ (Or.inr rfl)) fun _ => trivial

theorem confined_createPostings (hP : ∀ r, P (.insertLedgerPosting r)) (env : Env) (id : UUID)
    (ps : List PostingParams) : (createPostings env id ps).Confined C P fun _ => True := by
  induction ps with
  | nil => trivial
  | cons p ps ih => exact .seq (confined_insert (hP _)) fun value => .seq ih fun _ => trivial

theorem confined_loadAndLockTransferAccounts (id : Option UUID) (number : String) :
    (loadAndLockTransferAccounts id number).Confined C P fun _ => True := by
  refine .seq confined_fetch fun a => .seq confined_fetch fun b => .guard fun _ => ?_
  exact .seq confined_lock fun _ => .seq confined_lock fun _ => trivial

theorem confined_createBalancedTransaction (env : Env)
    (htx : ∀ r, r.reference = (newTransactionIdentity (env.uuid 0)).2 →
      P (.insertBankingTransaction r))
    (hposting : ∀ r, P (.insertLedgerPosting r)) (arg : PendingTransactionParams)
    (ps : List PostingParams) :
    (createBalancedTransaction env arg ps).Confined C P fun _ => True := by
  refine .guard fun _ => .guard fun _ => .guard fun _ => .guard fun _ => ?_
  refine .seq (confined_insert (htx _ rfl)) fun t => ?_
  exact .seq (confined_createPostings hposting env _ ps) fun _ => trivial

/-- What a transfer writes besides its notifications, and what it needs to know of the posted
transaction for them. -/
structure TransferWrites (C : DB → Prop) (P : Write → Prop) (Posted : BankingTransaction → Prop)
    (env : Env) (arg : TransferTxParams) : Prop where
  transaction : ∀ r, r.reference = (newTransactionIdentity (env.uuid 0)).2 →
    P (.insertBankingTransaction r)
  posting : ∀ r, P (.insertLedgerPosting r)
  account : ∀ o r, P (.updateAccount o r)
  audit : ∀ r : AuditLog, r.entityType = .bankingTransaction → P (.insertAuditLog r)
  posted : ∀ id, (markPosted env id).Confined C P Posted
  notification : ∀ n t username direction, Posted t →
    (createFinancialNotification env n (transferNotification arg t username direction)).Confined
      C P fun _ => True

variable {Posted : BankingTransaction → Prop} {env : Env}

theorem TransferWrites.confined {arg : TransferTxParams} (h : TransferWrites C P Posted env arg) :
    (transferWithQueries env arg).Confined C P fun _ => True := by
  refine .seq (confined_loadAndLockTransferAccounts _ _) fun accounts => ?_
  refine .guard fun _ => .guard fun _ => .guard fun _ => .guard fun _ => ?_
  refine .seq WritesOnly.ofExcept.confined fun limits => .guard fun _ => ?_
  refine .seq confined_fetch fun fromLedger => .seq confined_tryRead fun dailyTotal => ?_
  refine .guard fun _ => .seq confined_fetch fun toLedger => ?_
  refine .seq (confined_createBalancedTransaction env h.transaction h.posting _ _) fun created => ?_
  refine .seq (confined_createAuditLog h.audit) fun _ => ?_
  refine .seq (confined_update h.account) fun fromUpdated => ?_
  refine .seq (confined_update h.account) fun toUpdated => ?_
  refine (h.posted _).bind fun posted hposted => ?_
  refine .seq (confined_createAuditLog h.audit) fun _ => ?_
  refine .seq (h.notification _ _ _ _ hposted) fun _ => ?_
  exact .seq (h.notification _ _ _ _ hposted) fun _ => trivial

theorem TransferWrites.confined_idempotent {arg : IdempotentTransferTxParams}
    (h : TransferWrites C P Posted env arg.toTransferTxParams)
    (hinsert : ∀ r, P (.insertIdempotencyKey r)) (hupdate : ∀ o r, P (.updateIdempotencyKey o r))
    (hdelete : ∀ o, P (.deleteIdempotencyKey o)) :
    (idempotentTransferTx env arg).Confined C P fun _ => True := by
  refine confined_execTx (.seq confined_read fun expired => .seq ?_ fun _ => ?_)
  · cases expired with
    | none => trivial
    | some id =>
      refine .seq (.call fun own db eff _ hs => ⟨fun w hw => ?_, trivial⟩)
        fun _ => trivial
      rw [deleteIdempotencyKeyIf_ok.mp hs] at hw
      obtain ⟨o, _, rfl⟩ := List.mem_map.mp hw
      exact hdelete o
  · refine .seq (.call fun own db eff _ hs => ⟨fun w hw => ?_, trivial⟩)
      fun reserved => ?_
    · rcases createIdempotencyKey_ok.mp hs with ⟨_, rfl⟩ | ⟨_, _, rfl⟩
      · cases hw
      · rw [List.mem_singleton.mp hw]
        exact hinsert _
    cases reserved with
    | none =>
      -- the call replays what is recorded
      refine .seq confined_fetch fun id => .seq (.fetch fun own db eff _ hs => ?_)
        fun existing => .guard fun _ => .guard fun _ =>
          .seq WritesOnly.found.confined fun _ => trivial
      cases hs
      simp
    | some r => exact .seq h.confined fun _ => .seq (confined_update hupdate) fun _ => trivial

end Parts

/-! ## A transfer does not record its own failure -/

theorem rejectsAttempt_auditLog {r : AuditLog} (h : r.entityType ≠ .transferAttempt) :
    Write.rejectsAttempt (.insertAuditLog r) = false := by
  simp [Write.rejectsAttempt, h]

theorem transferWrites_attempt (env : Env) (arg : TransferTxParams) :
    TransferWrites (fun _ => True) (fun w => w.rejectsAttempt = false) (fun _ => True) env arg where
  transaction _ _ := rfl
  posting _ := rfl
  account _ _ := rfl
  audit r hr := rejectsAttempt_auditLog (by simp [hr])
  posted _ := confined_update fun _ _ => rfl
  notification n t username direction _ := by
    have hposted : (domainEventTransactionPosted == domainEventTransactionFailed) = false := by
      decide
    refine confined_createFinancialNotification env n _ ?_ ?_ ?_
    · intro user
      simp [Write.rejectsAttempt, notificationJob, newEmailJob, transferNotification, hposted]
    · intro e he
      simp [Write.rejectsAttempt, he, transferNotification, hposted]
    · rintro r (hr | hr) <;> exact rejectsAttempt_auditLog (by simp [hr])

theorem writesOnly_body (t : BankingTx) : t.body.WritesOnly t.mayWrite := by
  cases t with
  | transfer env arg =>
    exact Confined.seq (confined_execTx (transferWrites_attempt env arg).confined)
      fun _ => trivial
  | idempotentTransfer env arg =>
    exact Confined.seq ((transferWrites_attempt env _).confined_idempotent (fun _ => rfl)
      (fun _ _ => rfl) fun _ => rfl) fun _ => trivial
  | auditTransferFailure env arg e =>
    -- the record of a failure inserts no banking transaction
    refine Confined.seq (confined_execTx (.seq (confined_createAuditLog fun _ _ => rfl)
      fun _ => .seq ?_ fun _ => trivial)) fun _ => trivial
    exact confined_createFinancialNotification _ _ _ (fun _ => rfl) (fun _ _ => rfl)
      fun _ _ => rfl
  | _ => exact WritesOnly.of_forall _ fun _ => trivial

/-! ## Runs -/

namespace BankingOp

def isAttempt : BankingOp → Bool
  | transferTx .. => true
  | idempotentTransferTx .. => true
  | _ => false

end BankingOp

abbrev BankingEvent := Event Err BankingOp

abbrev BankingCommit := Commit Write BankingTx

/-- The state after a list of events, some of which may be commits that are reported as
failed. -/
def bankingEvents (db₀ : DB) (evs : List BankingEvent) : BankingState :=
  bankingSystem.runEvents (State.init db₀) evs

def bankingCommits (db₀ : DB) (evs : List BankingEvent) : List BankingCommit :=
  bankingSystem.commits (State.init db₀) evs

/-- A failure record is written for the attempt of a worker only if the attempt did not
commit a banking transaction. -/
def RejectionsSound (w : Nat) (cs : List BankingCommit) : Prop :=
  (∃ c ∈ cs, c.worker = w ∧ ∃ x ∈ c.writes, x.rejectsAttempt = true) →
    ∀ c ∈ cs, c.worker = w → ∀ x ∈ c.writes, x.insertsTransaction = false

theorem once_recordingFailure (env : Env) (arg : TransferTxParams) (context : String)
    (x : Except Err Response) :
    (recordingFailure (.auditTransferFailure env arg) context x).Once BankingTx.ofAttempt
      BankingTx.recordsFailure := by
  cases x with
  | ok r => trivial
  | error e =>
    refine ⟨trivial, fun y _ => ?_, fun y => ?_⟩
    · cases y with
      | ok a => exact ⟨_, rfl⟩
      | error e' => exact ⟨_, rfl⟩
    · cases y with
      | ok a => trivial
      | error e' => trivial

theorem once_attempt (op : BankingOp) (h : op.isAttempt = true) :
    op.job.Once BankingTx.ofAttempt BankingTx.recordsFailure := by
  cases op with
  | transferTx arg fresh env auditEnv =>
    refine ⟨trivial, ?_, fun x => once_recordingFailure _ _ _ x⟩
    rintro _ (⟨a, rfl⟩ | h)
    · exact ⟨_, rfl⟩
    · exact h.elim
  | idempotentTransferTx arg fresh env auditEnv =>
    simp only [BankingOp.job]
    split
    · trivial
    · refine ⟨trivial, ?_, fun x => once_recordingFailure _ _ _ x⟩
      rintro _ (⟨a, rfl⟩ | h)
      · exact ⟨_, rfl⟩
      · exact h.elim
  | _ => cases h

theorem mayWrite_exclusive {t : BankingTx} (ht : t.ofAttempt) {x y : Write} (hx : t.mayWrite x)
    (hy : t.mayWrite y) (hrejects : x.rejectsAttempt = true) : y.insertsTransaction = false := by
  cases t with
  | transfer env arg =>
    rw [show x.rejectsAttempt = false from hx] at hrejects
    cases hrejects
  | idempotentTransfer env arg =>
    rw [show x.rejectsAttempt = false from hx] at hrejects
    cases hrejects
  | auditTransferFailure env arg e => exact hy
  | _ => exact ht.elim

/-- In every run in which the worker of a transfer attempt learns the outcome of the
transfer, a failure record is written for the attempt only if it did not commit a
banking transaction. -/
theorem bankingEvents_rejectionsSound (db₀ : DB) (evs : List BankingEvent) (w : Nat)
    (hop : ((bankingEvents db₀ evs).workers w).op?.any BankingOp.isAttempt = true)
    (hlost : bankingSystem.LosesOnly BankingTx.recordsFailure w db₀ evs) :
    RejectionsSound w (bankingCommits db₀ evs) := by
  have honce : System.CommitsOnce BankingTx.ofAttempt BankingTx.recordsFailure
      (fun op => op.isAttempt = true) w (bankingCommits db₀ evs)
      ((bankingEvents db₀ evs).workers w) :=
    System.commits_once once_attempt db₀ evs hlost
  have hwithin : ∀ c ∈ bankingCommits db₀ evs, ∀ x ∈ c.writes, c.tx.mayWrite x :=
    System.commits_within writesOnly_body db₀ evs
  have hcommits : System.commitsOf w (bankingCommits db₀ evs) = [] ∨
      ∃ c, System.commitsOf w (bankingCommits db₀ evs) = [c] ∧ c.tx.ofAttempt := by
    cases hw : (bankingEvents db₀ evs).workers w with
    | idle =>
        rw [hw] at hop
        cases hop
    | running op r =>
        rw [hw] at hop honce
        exact Or.inl (honce hop).1
    | finished op x =>
        rw [hw] at hop honce
        exact honce hop
  have hmem : ∀ c ∈ bankingCommits db₀ evs, c.worker = w →
      c ∈ System.commitsOf w (bankingCommits db₀ evs) := by
    intro c hc hcw
    simp [System.commitsOf, hc, hcw]
  rintro ⟨c, hc, hcw, x, hx, hrejects⟩ c' hc' hcw' y hy
  rcases hcommits with hnone | ⟨c₀, hone, hattempt⟩
  · have := hmem c hc hcw
    rw [hnone] at this
    cases this
  · have hc₀ : c = c₀ := by simpa [hone] using hmem c hc hcw
    have hc₀' : c' = c₀ := by simpa [hone] using hmem c' hc' hcw'
    rw [hc₀] at hc hx
    rw [hc₀'] at hy
    exact mayWrite_exclusive hattempt (hwithin c₀ hc x hx) (hwithin c₀ hc y hy) hrejects

/-! Alice pays Bob. The commit takes effect, but the connection is lost before the
store hears of it. -/

def lostConnection : Err := .other "unexpected EOF"

def alicePaysBob : BankingOp :=
  .transferTx ⟨some 100, "0000000002", 30, "USD", "alice", "", none⟩ 9 (.drawing 2 4) (.drawing 2 5)

def beforePayment : List BankingAction :=
  openAccounts ++ uninterrupted 2 (depositForAlice 100 (.drawing 1 3)) ++
    (.start 3 alicePaysBob :: List.replicate 24 (.exec 3))

def paymentWithLostConnection : List BankingEvent :=
  beforePayment.map .act ++ (.lostCommit 3 lostConnection :: (toCommit 3).map .act)

/-- Alice has no money, and her attempt is recorded. -/
def paymentWithoutFunds : List BankingEvent :=
  (openAccounts ++ .start 3 alicePaysBob :: toCommit 3).map .act

theorem bankingEvents_rejectionsSound_payment :
    ((bankingCommits (DB.initial twoCustomers) paymentWithoutFunds).any fun c =>
        c.worker == 3 && c.writes.any Write.rejectsAttempt) = true ∧
      RejectionsSound 3 (bankingCommits (DB.initial twoCustomers) paymentWithoutFunds) := by
  refine ⟨by decide +kernel, bankingEvents_rejectionsSound (DB.initial twoCustomers)
    paymentWithoutFunds 3 (by decide +kernel) ?_⟩
  intro pre e post heq
  have hlost : .lostCommit 3 e ∈ paymentWithoutFunds := by simp [heq]
  obtain ⟨a, _, ha⟩ := List.mem_map.mp hlost
  cases ha

/-- The money has moved, and the attempt is on record as rejected. -/
theorem not_rejectionsSound_lostConnection :
    ¬ RejectionsSound 3
      (bankingCommits (DB.initial twoCustomers) paymentWithLostConnection) := by
  have hevidence :
      ((bankingCommits (DB.initial twoCustomers) paymentWithLostConnection).any fun c =>
        c.worker == 3 && c.writes.any Write.rejectsAttempt) = true ∧
      ((bankingCommits (DB.initial twoCustomers) paymentWithLostConnection).any fun c =>
        c.worker == 3 && c.writes.any Write.insertsTransaction) = true := by
    decide +kernel
  simp only [List.any_eq_true, Bool.and_eq_true, beq_iff_eq] at hevidence
  obtain ⟨⟨c, hc, hcw, x, hx, hrejects⟩, c', hc', hcw', y, hy, hinserts⟩ := hevidence
  intro hsound
  rw [hsound ⟨c, hc, hcw, x, hx, hrejects⟩ c' hc' hcw' y hy] at hinserts
  cases hinserts

end Monierave
