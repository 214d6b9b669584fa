import Monierave.Banking.Attempts
import Monierave.Emails.Financial

/-! # Every notification can be sent

Whatever the banking operations write while they run side by side, the email jobs
among it have payloads to which the mailer has no objection.
-/

namespace Monierave

open Relational ReadCommitted Prog Coding

/-! ## The invariant -/

def EmailJob.Sendable (j : EmailJob) : Prop :=
  ∀ p, j.payload = .financialNotification p → p.record.Sendable

/-- Every banking transaction has a reference, and every email job that was not there at the
start can be sent. -/
structure DB.Announcing (old : List EmailJob) (db : DB) : Prop where
  references : ∀ t ∈ db.bankingTransactions.rows, t.reference ≠ ""
  jobs : ∀ j ∈ db.emailJobs.rows, j ∈ old ∨ j.Sendable

def Write.Announcing : Write → Prop
  | insertBankingTransaction t => t.reference ≠ ""
  | updateBankingTransaction _ t => t.reference ≠ ""
  | insertEmailJob j => j.Sendable
  | updateEmailJob _ _ => False
  | _ => True

variable {old : List EmailJob}

theorem announcing_apply (w : Write) (db : DB) (hw : w.Announcing) (h : db.Announcing old) :
    (apply w db).Announcing old := by
  cases w with
  | insertBankingTransaction t =>
    refine ⟨fun a ha => ?_, h.jobs⟩
    rcases Table.mem_of_mem_insert ha with ha | rfl
    · exact h.references a ha
    · exact hw
  | updateBankingTransaction o t =>
    refine ⟨fun a ha => ?_, h.jobs⟩
    rcases Table.mem_of_mem_amend ha with ha | rfl
    · exact h.references a ha
    · exact hw
  | insertEmailJob j =>
    refine ⟨h.references, fun a ha => ?_⟩
    rcases Table.mem_of_mem_insert ha with ha | rfl
    · exact h.jobs a ha
    · exact Or.inr hw
  | updateEmailJob o j => exact hw.elim
  | _ => exact ⟨h.references, h.jobs⟩

/-! ## Notifications -/

theorem newTransactionIdentity_reference_ne (id : UUID) : (newTransactionIdentity id).2 ≠ "" := by
  intro h
  simpa [newTransactionIdentity] using congrArg String.toList h

theorem attemptReference_ne (correlationID : Option UUID) : attemptReference correlationID ≠ "" := by
  intro h
  simpa [attemptReference] using congrArg String.toList h

/-- What is announced is one of the events the mailer knows, and that of a transaction has a
reference. -/
structure FinancialNotificationParams.Known (arg : FinancialNotificationParams) : Prop where
  event : (financialEventCopy arg.eventType).isSome = true
  reference : isTransactionEvent arg.eventType = true → arg.reference ≠ ""

theorem FinancialNotificationParams.Known.sendable {env : Env} {n : Nat}
    {arg : FinancialNotificationParams} (h : arg.Known) (hclock : env.clock ≠ zeroTime)
    (user : User) : (notificationJob env n arg user).Sendable := by
  intro p hp
  cases hp
  refine ⟨h.event, ?_, h.reference⟩
  -- a missing time is replaced by that of the clock
  have htime : (if arg.occurredAt = zeroTime then env.clock else arg.occurredAt) ≠ zeroTime := by
    split
    · exact hclock
    · assumption
  intro hzero
  have hnanos : 1000 * (if arg.occurredAt = zeroTime then env.clock else arg.occurredAt) =
      1000 * zeroTime := hzero
  exact htime (Int.eq_of_mul_eq_mul_left (by decide) hnanos)

abbrev KeepsAnnouncing (old : List EmailJob) {α : Type} (p : Tx α) (Q : α → Prop) : Prop :=
  p.Confined (DB.Announcing old) Write.Announcing Q

section Transactions

variable {env : Env} (hclock : env.clock ≠ zeroTime)

include hclock in
theorem announces_notification (n : Nat) {arg : FinancialNotificationParams} (h : arg.Known) :
    KeepsAnnouncing old (createFinancialNotification env n arg) fun _ => True :=
  confined_createFinancialNotification env n arg (h.sendable hclock) (fun _ _ => trivial)
    fun _ _ => trivial

/-! ## References -/

theorem announces_createBalancedTransaction (arg : PendingTransactionParams)
    (postings : List PostingParams) :
    KeepsAnnouncing old (createBalancedTransaction env arg postings) fun _ => True :=
  confined_createBalancedTransaction env
    (fun r hr => show r.reference ≠ "" from hr ▸ newTransactionIdentity_reference_ne _)
    (fun _ => trivial) arg postings

theorem announces_updateBankingTransactionRow {id : UUID} {e : Err}
    {f : BankingTransaction → Except SqlError (Option BankingTransaction)}
    (hf : ∀ o t, f o = .ok (some t) → t.reference = o.reference) :
    KeepsAnnouncing old (fetch e (updateBankingTransactionRow id f)) fun t => t.reference ≠ "" := by
  refine .fetch fun own db eff hdb hs => ?_
  rcases updateRow_ok.mp hs with ⟨_, rfl⟩ | ⟨o, t, hup, rfl⟩
  · exact ⟨by simp, fun a ha => by cases ha⟩
  · have href : t.reference ≠ "" := by
      rw [hf o t hup.new]
      exact hdb.references o (Table.mem_of_get hup.row)
    refine ⟨fun w hw => ?_, fun a ha => ?_⟩
    · rw [List.mem_singleton.mp hw]
      exact href
    · cases ha
      exact href

theorem announces_markPosted (id : UUID) :
    KeepsAnnouncing old (markPosted env id) fun t => t.reference ≠ "" :=
  announces_updateBankingTransactionRow fun _ _ h => by rw [(BankingTransaction.post_some h).2]

/-! ## The transactions -/

include hclock

theorem transferWrites_announcing (arg : TransferTxParams) :
    TransferWrites (DB.Announcing old) Write.Announcing (fun t => t.reference ≠ "") env arg where
  transaction r hr := show r.reference ≠ "" from hr ▸ newTransactionIdentity_reference_ne _
  posting _ := trivial
  account _ _ := trivial
  audit _ _ := trivial
  posted := announces_markPosted
  notification n _ _ _ ht := announces_notification hclock n ⟨rfl, fun _ => ht⟩

theorem announces_auditTransferFailureTx (arg : TransferTxParams) (e : Err) :
    KeepsAnnouncing old (auditTransferFailureTx env arg e) fun _ => True := by
  refine confined_execTx (.seq (confined_createAuditLog fun _ _ => trivial) fun _ => ?_)
  exact .seq (announces_notification hclock _ ⟨rfl, fun _ => attemptReference_ne _⟩)
    fun _ => trivial

theorem announces_settlementMovementTx (kind : SettlementKind) (arg : SettlementMovementParams) :
    KeepsAnnouncing old (settlementMovementTx env kind arg) fun _ => True := by
  refine confined_execTx (.seq confined_fetch fun located => .seq confined_lock fun account => ?_)
  refine .guard fun _ => .guard fun _ => .seq confined_fetch fun customerLedger => ?_
  refine .seq confined_fetch fun settlementLedger => ?_
  refine .seq (announces_createBalancedTransaction _ _) fun created => ?_
  refine .seq (confined_createAuditLog fun _ _ => trivial) fun _ => .seq ?_ fun updated => ?_
  · cases kind with
    | deposit => exact confined_update fun _ _ => trivial
    | withdrawal => exact confined_update fun _ _ => trivial
  refine (announces_markPosted _).bind fun posted hposted => ?_
  refine .seq (confined_createAuditLog fun _ _ => trivial) fun audit => ?_
  exact .seq (announces_notification hclock _ ⟨rfl, fun _ => hposted⟩) fun _ => trivial

theorem announces_setAccountStatusTx (arg : AccountStatusTxParams) :
    KeepsAnnouncing old (setAccountStatusTx env arg) fun _ => True := by
  refine confined_execTx (.seq confined_lock fun account => .guard fun _ => .guard fun _ => ?_)
  refine .seq (confined_update fun _ _ => trivial) fun updated => ?_
  refine .seq (confined_createAuditLog fun _ _ => trivial) fun audit => ?_
  refine .seq (announces_notification hclock _ ?_) fun _ => trivial
  -- neither of the two events is one of a transaction
  by_cases hfrozen : updated.status = .frozen
  · exact ⟨by simp only [if_pos hfrozen]; rfl, by simp only [if_pos hfrozen]; decide⟩
  · exact ⟨by simp only [if_neg hfrozen]; rfl, by simp only [if_neg hfrozen]; decide⟩

theorem announces_closeAccountTx (arg : CloseAccountTxParams) :
    KeepsAnnouncing old (closeAccountTx env arg) fun _ => True := by
  refine confined_execTx (.seq confined_lock fun account => ?_)
  refine .guard fun _ => .guard fun _ => .guard fun _ => ?_
  refine .seq (confined_update fun _ _ => trivial) fun closed => ?_
  refine .seq (confined_createAuditLog fun _ _ => trivial) fun _ => ?_
  refine .seq (announces_notification hclock _ ⟨rfl, fun h => ?_⟩) fun _ => trivial
  have hevent : isTransactionEvent domainEventAccountClosed = false := by decide
  rw [hevent] at h
  cases h

omit hclock in
theorem announces_createAccountAttempt (arg : CreateAccountParams) :
    KeepsAnnouncing old (createAccountAttempt env arg) fun _ => True := by
  refine confined_execTx (.seq (confined_insert trivial) fun account => ?_)
  refine .seq (confined_insert trivial) fun _ => ?_
  exact .seq (confined_createAuditLog fun _ _ => trivial) fun _ => trivial

omit hclock in
theorem announces_lockAccounts (ids : List Int64) :
    KeepsAnnouncing old (lockAccounts ids) fun _ => True := by
  induction ids with
  | nil => trivial
  | cons id ids ih => exact .seq confined_lock fun account => .seq ih fun _ => trivial

omit hclock in
theorem announces_undoPostings (postings : List ReversalSourcePosting) :
    KeepsAnnouncing old (undoPostings env postings) fun _ => True := by
  induction postings with
  | nil => trivial
  | cons posting rest ih =>
    unfold undoPostings
    cases posting.owner with
    | settlement text => exact ih
    | customer accountID =>
      exact .seq (confined_update fun _ _ => trivial) fun updated => .seq ih fun _ => trivial

theorem announces_notifyReversal (arg : ReverseTransactionTxParams) {original : BankingTransaction}
    (horiginal : original.reference ≠ "") (reversal : BankingTransaction)
    (updated : List (Int64 × ReversedAccount)) (n : Nat) (ids : List Int64) :
    KeepsAnnouncing old (notifyReversal env arg original reversal updated n ids) fun _ => True := by
  induction ids generalizing n with
  | nil => trivial
  | cons id ids ih =>
    refine .seq WritesOnly.found.confined fun entry => ?_
    refine .seq (announces_notification hclock n ⟨rfl, fun _ => horiginal⟩) fun _ => ?_
    exact .seq (ih (n + 2)) fun _ => trivial

theorem announces_reverseTransactionTx (arg : ReverseTransactionTxParams) :
    KeepsAnnouncing old (reverseTransactionTx env arg) fun _ => True := by
  refine confined_execTx (.seq confined_lock fun found => ?_)
  refine .guard fun _ => .guard fun _ => .guard fun _ => .seq confined_read fun postings => ?_
  refine .guard fun _ => .seq (.seq (announces_lockAccounts _) fun _ => trivial) fun locked => ?_
  refine .guard fun _ => .seq (announces_createBalancedTransaction _ _) fun created => ?_
  refine .seq (announces_undoPostings _) fun updated => ?_
  refine (announces_markPosted _).bind fun reversal _ => ?_
  refine (announces_updateBankingTransactionRow fun _ _ h => by
    rw [(BankingTransaction.reverse_some h).2]).bind fun original horiginal => ?_
  refine .seq (confined_createAuditLog fun _ _ => trivial) fun audit => ?_
  exact .seq (announces_notifyReversal hclock arg horiginal _ _ _ _) fun _ => trivial

end Transactions

/-! ## Runs -/

namespace BankingOp

/-- The clock of the process never shows the zero time, which stands for a missing one. -/
def Clocked : BankingOp → Prop
  | createAccountTx .. => True
  | depositTx _ _ env => env.clock ≠ zeroTime
  | withdrawTx _ _ env => env.clock ≠ zeroTime
  | transferTx _ _ env auditEnv => env.clock ≠ zeroTime ∧ auditEnv.clock ≠ zeroTime
  | idempotentTransferTx _ _ env auditEnv => env.clock ≠ zeroTime ∧ auditEnv.clock ≠ zeroTime
  | setAccountStatusTx _ env _ => env.clock ≠ zeroTime
  | reverseTransactionTx _ env _ => env.clock ≠ zeroTime
  | closeAccountTx _ env => env.clock ≠ zeroTime

end BankingOp

def BankingTx.Announcing (old : List EmailJob) (t : BankingTx) : Prop :=
  KeepsAnnouncing old t.body fun _ => True

theorem all_recordingFailure {P : BankingTx → Prop} {record : Err → BankingTx}
    (h : ∀ e, P (record e)) (context : String) (x : Except Err Response) :
    (recordingFailure record context x).All P := by
  cases x with
  | ok r => trivial
  | error e =>
    refine ⟨h e, fun y => ?_⟩
    cases y <;> trivial

theorem all_createAccountWithGeneratedNumber {P : BankingTx → Prop}
    (h : ∀ env arg, P (.createAccount env arg)) (arg : CreateAccountTxParams)
    (draw : Nat → AccountDraw) (left i : Nat) :
    (createAccountWithGeneratedNumber arg draw left i).All P := by
  induction left generalizing i with
  | zero => trivial
  | succ left ih =>
    unfold createAccountWithGeneratedNumber
    split
    · trivial
    · refine ⟨h _ _, fun x => ?_⟩
      cases x with
      | ok r => trivial
      | error e =>
        dsimp only
        split
        · exact ih (i + 1)
        · trivial

theorem all_operatorJob {P : BankingTx → Prop} {job : BankingJob} (h : job.All P)
    (actor reason : String) (correlationID : Option UUID) :
    (operatorJob actor reason correlationID job).All P := by
  unfold operatorJob
  split
  · trivial
  · exact h

theorem announcing_settlementJob {env : Env} (hclock : env.clock ≠ zeroTime)
    (kind : SettlementKind) (arg : SettlementMovementParams) (fresh : UUID) :
    (settlementJob kind arg fresh env).All (BankingTx.Announcing old) := by
  unfold settlementJob
  split
  · trivial
  · exact ⟨.seq (announces_settlementMovementTx hclock _ _) fun _ => trivial, fun _ => trivial⟩

theorem announcing_job {op : BankingOp} (h : op.Clocked) :
    op.job.All (BankingTx.Announcing old) := by
  -- the records of failures
  have htransfer : ∀ env arg e, env.clock ≠ zeroTime →
      (BankingTx.auditTransferFailure env arg e).Announcing old := fun _ _ _ hclock =>
    Confined.seq (announces_auditTransferFailureTx hclock _ _) fun _ => trivial
  have hoperator : ∀ env arg, (BankingTx.auditOperatorFailure env arg).Announcing old :=
    fun _ _ => Confined.seq (confined_createAuditLog fun _ _ => trivial) fun _ => trivial
  cases op with
  | createAccountTx arg draw =>
    refine all_createAccountWithGeneratedNumber (fun env arg => ?_) _ _ _ _
    exact Confined.seq (announces_createAccountAttempt arg) fun _ => trivial
  | depositTx arg fresh env => exact announcing_settlementJob h _ _ _
  | withdrawTx arg fresh env => exact announcing_settlementJob h _ _ _
  | transferTx arg fresh env auditEnv =>
    refine ⟨?_, all_recordingFailure (fun e => htransfer _ _ e h.2) _⟩
    exact Confined.seq (confined_execTx (transferWrites_announcing h.1 _).confined)
      fun _ => trivial
  | idempotentTransferTx arg fresh env auditEnv =>
    simp only [BankingOp.job]
    split
    · trivial
    · refine ⟨?_, all_recordingFailure (fun e => htransfer _ _ e h.2) _⟩
      exact Confined.seq ((transferWrites_announcing h.1 _).confined_idempotent
        (fun _ => trivial) (fun _ _ => trivial) fun _ => trivial) fun _ => trivial
  | setAccountStatusTx arg env auditEnv =>
    refine all_operatorJob ?_ _ _ _
    split
    · trivial
    · refine ⟨?_, all_recordingFailure (fun _ => hoperator _ _) _⟩
      exact Confined.seq (announces_setAccountStatusTx h arg) fun _ => trivial
  | reverseTransactionTx arg env auditEnv =>
    refine all_operatorJob ?_ _ _ _
    refine ⟨?_, all_recordingFailure (fun _ => hoperator _ _) _⟩
    exact Confined.seq (announces_reverseTransactionTx h arg) fun _ => trivial
  | closeAccountTx arg env =>
    exact ⟨Confined.seq (announces_closeAccountTx h arg) fun _ => trivial, fun _ => trivial⟩

theorem announcing_run {db₀ : DB} (hrefs : ∀ t ∈ db₀.bankingTransactions.rows, t.reference ≠ "")
    {acts : List BankingAction} (hclocks : ∀ w op, .start w op ∈ acts → op.Clocked) :
    (bankingSystem.run (State.init db₀) acts).db.Announcing db₀.emailJobs.rows :=
  bankingSystem.confined_run announcing_apply ⟨hrefs, fun _ hj => Or.inl hj⟩
    fun w op hstart => announcing_job (hclocks w op hstart)

/-- The message that a worker hands to the mailer for a job whose payload was stored as
`stored`. -/
def EmailJob.financialMessage (job : EmailJob) (stored : Object) : FinancialNotificationEmail where
  jobID := job.id.text
  username := job.username
  recipient := job.recipient
  payload := stored

/-- However the banking operations are interleaved, every financial notification they leave is
read by the mailer as it was written and goes to the provider, so that the mailer answers with
the id of an accepted request. -/
theorem financialNotifications_sent (mailer : ResendMailer) {db₀ : DB}
    (hrefs : ∀ t ∈ db₀.bankingTransactions.rows, t.reference ≠ "") {acts : List BankingAction}
    (hclocks : ∀ w op, .start w op ∈ acts → op.Clocked) {job : EmailJob}
    (hjob : job ∈ (bankingSystem.run (State.init db₀) acts).db.emailJobs.rows)
    (hnew : job ∉ db₀.emailJobs.rows) {p : FinancialNotificationPayload}
    (hp : job.payload = .financialNotification p) {written stored : Object}
    (hwritten : p.record.marshal = some written) (hstored : stored.Perm written)
    (hrecipient : mailer.parseAddress job.recipient = .ok ()) :
    FinancialPayload.unmarshal stored = some p.record ∧
      ∃ title summary, financialEventCopy p.eventType = some (title, summary) ∧
        ∀ id, id ≠ "" →
          mailer.sendWithOptions
              (financialRequest mailer (job.financialMessage stored) p.record title summary)
              ("financial-notification/" ++ job.id.text) = .accepted id →
            mailer.sendFinancialNotification (job.financialMessage stored) = .ok id := by
  have hsendable : p.record.Sendable := by
    rcases (announcing_run hrefs hclocks).jobs job hjob with hold | h
    · exact absurd hold hnew
    · exact h p hp
  have hread := FinancialPayload.unmarshal_marshal hwritten hstored
  obtain ⟨title, summary, hcopy, hsend⟩ := hsendable.sendFinancialNotification mailer
    (job.financialMessage stored) hrecipient hread
  refine ⟨hread, title, summary, hcopy, fun id hid haccepted => ?_⟩
  have hkey : (job.financialMessage stored).jobID = job.id.text := rfl
  rw [hsend, hkey, haccepted, ProviderAnswer.outcome, if_neg hid]

def acceptingMailer (id : String) : ResendMailer where
  sender := "bank@example.com"
  parseAddress s :=
    if s.toList.count '@' = 1 then .ok () else .error "mail: missing '@' or angle-addr"
  quote s := "\"" ++ s ++ "\""
  sendWithOptions _ _ := .accepted id

def announcedDeposit : List BankingAction :=
  openAccounts ++ uninterrupted 2 (depositForAlice 1250 (.drawing 0 3))

def announcedDepositPayload : FinancialNotificationPayload where
  eventID := 301
  correlationID := 0
  eventType := domainEventTransactionPosted
  reference := "TXN-0000000000000000000000000000012C"
  amount := 1250
  currency := "USD"
  direction := some .incoming
  occurredAt := 0
  accountStatus := none
  reason := ""

def announcedDepositJob : EmailJob :=
  newEmailJob 0 ⟨302, "alice", "alice@example.com", .financialNotification announcedDepositPayload⟩

/-- A deposit is announced, and its payload can be sent although it was stored the other way
round. -/
theorem financialNotifications_sent_deposit :
    ∃ written, announcedDepositPayload.record.marshal = some written ∧
      FinancialPayload.unmarshal written.reverse = some announcedDepositPayload.record ∧
      (acceptingMailer "1").sendFinancialNotification
        (announcedDepositJob.financialMessage written.reverse) = .ok "1" := by
  have hwritten : announcedDepositPayload.record.marshal =
      some (object (announcedDepositPayload.record.fields "1970-01-01T00:00:00Z".toList)) := by
    decide +kernel
  have hjob : announcedDepositJob ∈ (bankingSystem.run (State.init (DB.initial twoCustomers))
      announcedDeposit).db.emailJobs.rows := by
    decide +kernel
  have hclocks : ∀ w op, .start w op ∈ announcedDeposit → op.Clocked := by
    intro w op h
    simp only [announcedDeposit, openAccounts, uninterrupted, List.mem_append, List.mem_cons,
      List.mem_replicate, List.not_mem_nil, Action.start.injEq, reduceCtorEq, and_false,
      or_false] at h
    rcases h with (⟨_, rfl⟩ | ⟨_, rfl⟩) | ⟨_, rfl⟩
    · trivial
    · trivial
    · exact (by decide : (0 : Int) ≠ zeroTime)
  obtain ⟨hread, title, summary, _, hsent⟩ := financialNotifications_sent (acceptingMailer "1")
    (fun t ht => by cases ht) hclocks hjob (fun h => by cases h) rfl hwritten
    (List.reverse_perm _) rfl
  exact ⟨_, hwritten, hread, hsent "1" (by decide) rfl⟩

end Monierave
