import Monierave.Emails.Relay
import Monierave.Emails.Worker

/-! # Relays, workers and everything around them

The processes are relays, deliveries of email tasks and calls of the error handler,
any number of each.
-/

namespace Monierave

open Relational Processes

inductive EmailProcess
  | relay (config : RelayConfig) (ticks : List RelayConfig.Tick)
  | processTaskSendEmail (task : TaskPayload)
  | handleError (retried maxRetry : Option Nat) (task : TaskPayload) (taskErr : String)

inductive EmailEvent
  | tick (micros : Nat)
  | create (new : Dispatch.NewJob)
  | replayEmailJobTx (jobID newJobID newEventID : UUID)
  | processEmailDeliveryEventTx (arg : ProcessEmailDeliveryEventParams)
  | forgetTask (taskID : String)

def EmailProcess.body (p : Processor) : EmailProcess → Process (Option TaskError)
  | relay config ticks => do
    config.run ticks
    pure none
  | processTaskSendEmail task => p.processTaskSendEmail task
  | handleError retried maxRetry task taskErr => do
    p.handleError retried maxRetry task taskErr
    pure none

def EmailEvent.apply : EmailEvent → Dispatch → Dispatch
  | tick micros, s => { s with now := s.now + micros }
  | create new, s => s.create new
  | replayEmailJobTx jobID newJobID newEventID, s => s.replayEmailJobTx jobID newJobID newEventID
  | processEmailDeliveryEventTx arg, s => s.processEmailDeliveryEventTx arg
  | forgetTask taskID, s => { s with queue := s.queue.filter (· ≠ taskID) }

def emailSystem (p : Processor) :
    System Dispatch Call Call.Answer EmailProcess Choice EmailEvent (Option TaskError) where
  body := EmailProcess.body p
  serve := Dispatch.serve
  outside := EmailEvent.apply

abbrev EmailState := State Dispatch Call Call.Answer EmailProcess (Option TaskError)

abbrev EmailAction := Action EmailProcess Choice EmailEvent

def emailRun (p : Processor) (now : Timestamp) (acts : List EmailAction) : EmailState :=
  (emailSystem p).run (State.init { now := now }) acts

theorem emailRun_snoc (p : Processor) (now : Timestamp) (acts : List EmailAction)
    (act : EmailAction) :
    emailRun p now (acts ++ [act]) = (emailSystem p).step (emailRun p now acts) act :=
  (emailSystem p).run_snoc _ _ _

namespace Dispatch

variable {α : Type} {w : Nat} {o : Choice} {s : Dispatch} {id : UUID}

theorem statement_fst (o : Choice) (s : Dispatch) (x : Dispatch × Except StoreError α) :
    (statement o s x).1 = s ∨ (statement o s x).1 = x.1 := by
  unfold statement
  cases o.fate with
  | done => exact Or.inr rfl
  | refused => exact Or.inl rfl
  | lost => exact Or.inr rfl

theorem statement_ok {x : Dispatch × Except StoreError α} {a : α}
    (h : (statement o s x).2 = .ok a) : statement o s x = x := by
  unfold statement at h ⊢
  cases hfate : o.fate with
  | done => rfl
  | refused => simp [hfate] at h
  | lost => simp [hfate] at h

section Jobs

variable {f : EmailJobRow → Except SqlError (Option EmailJobRow)}

theorem updateEmailJob_cases (id : UUID) (f : EmailJobRow → Except SqlError (Option EmailJobRow))
    (s : Dispatch) : (∃ e, s.updateEmailJob id f = (s, .error e)) ∨
      ∃ j j', s.jobs.get (.id id) = some j ∧ f j = .ok (some j') ∧ s.jobs.clash j' = none ∧
        s.updateEmailJob id f = ({ s with jobs := s.jobs.update j' }, .ok j') := by
  unfold updateEmailJob
  cases hget : s.jobs.get (.id id) with
  | none => exact Or.inl ⟨_, rfl⟩
  | some j =>
    dsimp only
    cases hf : f j with
    | error e => exact Or.inl ⟨_, rfl⟩
    | ok new =>
      cases new with
      | none => exact Or.inl ⟨_, rfl⟩
      | some j' =>
        dsimp only
        cases hclash : s.jobs.clash j' with
        | some k => exact Or.inl ⟨_, rfl⟩
        | none => exact Or.inr ⟨j, j', rfl, hf, hclash, rfl⟩

theorem startEmailJobAttempt_cases (w : Nat) (id : UUID) (s : Dispatch) :
    (∃ e, s.startEmailJobAttempt w id = (s, .error e)) ∨
      ∃ j j', s.jobs.get (.id id) = some j ∧ j.startAttempt = some j' ∧ s.jobs.clash j' = none ∧
        s.startEmailJobAttempt w id =
          ({ s with
              jobs := s.jobs.update j'
              attempts := ⟨w, j'⟩ :: s.attempts
              inProgress := (w, id) :: s.inProgress }, .ok j') := by
  unfold startEmailJobAttempt
  rcases updateEmailJob_cases id (fun j => .ok j.startAttempt) s with
    ⟨e, he⟩ | ⟨j, j', hget, hf, hclash, hok⟩
  · rw [he]
    exact Or.inl ⟨e, rfl⟩
  · rw [hok]
    exact Or.inr ⟨j, j', hget, Except.ok.inj hf, hclash, rfl⟩

theorem ended_cases (w : Nat) (id : UUID) (f : EmailJobRow → Except SqlError (Option EmailJobRow))
    (s : Dispatch) : (∃ e, ended w id (s.updateEmailJob id f) = (s, .error e)) ∨
      ∃ j j', s.jobs.get (.id id) = some j ∧ f j = .ok (some j') ∧ s.jobs.clash j' = none ∧
        ended w id (s.updateEmailJob id f) =
          ({ s with
              jobs := s.jobs.update j'
              inProgress := s.inProgress.filter (· ≠ (w, id)) }, .ok j') := by
  rcases updateEmailJob_cases id f s with ⟨e, he⟩ | ⟨j, j', hget, hf, hclash, hok⟩
  · rw [he]
    exact Or.inl ⟨e, rfl⟩
  · rw [hok]
    exact Or.inr ⟨j, j', hget, hf, hclash, rfl⟩

theorem deleteExpiredSentEmailJobs_cases (sentBefore : Timestamp) (s : Dispatch) :
    (∃ e, s.deleteExpiredSentEmailJobs sentBefore = (s, .error e)) ∨
      (s.deleteExpiredSentEmailJobs sentBefore).1 =
        { s with
          jobs := s.jobs.keep fun j => !j.expired sentBefore
          deletedJobs := s.jobs.rows.filter (EmailJobRow.expired sentBefore) ++ s.deletedJobs } := by
  unfold deleteExpiredSentEmailJobs
  dsimp only
  split
  · exact Or.inl ⟨_, rfl⟩
  · split
    · exact Or.inl ⟨_, rfl⟩
    · exact Or.inr rfl

end Jobs

theorem settle_cases (w : Nat) (id : UUID) (f : OutboxRow → OutboxRow)
    (hf : ∀ e, keys (f e) = keys e) (s : Dispatch) :
    (∃ e, s.settle w id f hf = (s, .error e)) ∨
      ∃ e, s.outbox.get (.id id) = some e ∧ s.settle w id f hf =
        ({ s with
            outbox := s.outbox.revise (fun e => if e.id = id then f e else e)
              (by intro e; split <;> simp [hf])
            leases := .settled w id :: s.leases }, .ok (f e)) := by
  unfold settle
  cases hget : s.outbox.get (.id id) with
  | none => exact Or.inl ⟨_, rfl⟩
  | some e => exact Or.inr ⟨e, rfl, rfl⟩

/-- A call that gives a job a new version outside of an attempt's end. -/
inductive Edits : Call → EmailJobRow → EmailJobRow → Prop
  | queued (j : EmailJobRow) : Edits (.markEmailJobQueued j.id) j j.markQueued
  | token {j j' : EmailJobRow} {hash : Bytes} {expiresAt : Timestamp}
      (h : j.setVerificationToken hash expiresAt = .ok (some j')) :
      Edits (.setEmailJobVerificationToken j.id hash expiresAt) j j'

/-- A call that records how an attempt ended. -/
inductive Ends : Call → EmailJobRow → EmailJobRow → Prop
  | retrying {j j' : EmailJobRow} {lastError : String} (h : j.markRetrying lastError = some j') :
      Ends (.markEmailJobRetrying j.id lastError) j j'
  | sent (now : Timestamp) (providerMessageID : String) (j : EmailJobRow) :
      Ends (.markEmailJobSent j.id providerMessageID) j (j.markSent now providerMessageID)
  | deadLetter {j j' : EmailJobRow} {lastError : String} (h : j.markDeadLetter lastError = some j') :
      Ends (.markEmailJobDeadLetter j.id lastError) j j'

/-- A call that marks or releases an event. -/
inductive Settles : Call → UUID → (OutboxRow → OutboxRow) → Prop
  | published (now : Timestamp) (id : UUID) :
      Settles (.markOutboxEventPublished id) id (OutboxRow.markPublished now)
  | released (id : UUID) (availableAt : Timestamp) (lastError : String) :
      Settles (.releaseOutboxEvent id availableAt lastError) id
        (OutboxRow.release availableAt lastError)

/-- A call on behalf of a verification token. -/
inductive ForToken : Call → Prop
  | create (jobID : String) : ForToken (.createToken jobID)
  | hash (value : String) : ForToken (.hashToken value)
  | set (id : UUID) (hash : Bytes) (expiresAt : Timestamp) :
      ForToken (.setEmailJobVerificationToken id hash expiresAt)

inductive Sends : Call → EmailMessage → Prop
  | verification (message : EmailMessage) : Sends (.sendVerificationEmail message) message
  | notification (message : EmailMessage) : Sends (.sendFinancialNotification message) message

def candidates (now : Timestamp) (picked : List UUID) (s : Dispatch) : List OutboxRow :=
  picked.filterMap fun id => (s.outbox.get (.id id)).filter (OutboxRow.claimable now)

/-- Everything a call of the process `w` can do. -/
inductive Serves (w : Nat) (c : Call) (s : Dispatch) : Dispatch → Prop
  | same : Serves w c s s
  | claimed {now claimedUntil : Timestamp} {picked : List UUID} {claimedBy : String} {size : Nat}
      (hc : c = .claimOutboxEvents claimedBy claimedUntil size) (hnow : now ≤ s.now)
      (hpicked : picked.Nodup) :
      Serves w c s { s with
        outbox := s.outbox.revise
          (fun e => if e ∈ s.candidates now picked then e.claim claimedBy claimedUntil else e)
          (by intro e; split <;> rfl)
        leases := (s.candidates now picked).map (fun e => .claimed w e.id claimedUntil) ++ s.leases }
  | settled {id : UUID} {e : OutboxRow} {f : OutboxRow → OutboxRow} (hc : Settles c id f)
      (hget : s.outbox.get (.id id) = some e) (hf : ∀ e, keys (f e) = keys e) :
      Serves w c s { s with
        outbox := s.outbox.revise (fun e => if e.id = id then f e else e)
          (by intro e; split <;> simp [hf])
        leases := .settled w id :: s.leases }
  | deletedEvents {publishedBefore : Timestamp}
      (hc : c = .deleteExpiredPublishedOutboxEvents publishedBefore) :
      Serves w c s { s with
        outbox := s.outbox.keep fun e => !e.expired publishedBefore
        deletedEvents :=
          s.outbox.rows.filter (OutboxRow.expired publishedBefore) ++ s.deletedEvents }
  | deletedJobs {sentBefore : Timestamp} (hc : c = .deleteExpiredSentEmailJobs sentBefore) :
      Serves w c s { s with
        jobs := s.jobs.keep fun j => !j.expired sentBefore
        deletedJobs := s.jobs.rows.filter (EmailJobRow.expired sentBefore) ++ s.deletedJobs }
  | edited {j j' : EmailJobRow} {tokenFailures : List Nat} (hc : Edits c j j')
      (hget : s.jobs.get (.id j.id) = some j) (hclash : s.jobs.clash j' = none)
      (hfailures : tokenFailures = s.tokenFailures ∨ tokenFailures = w :: s.tokenFailures) :
      Serves w c s { s with jobs := s.jobs.update j', tokenFailures := tokenFailures }
  | started {j j' : EmailJobRow} (hc : c = .startEmailJobAttempt j.id)
      (hget : s.jobs.get (.id j.id) = some j) (hj' : j.startAttempt = some j')
      (hclash : s.jobs.clash j' = none) :
      Serves w c s { s with
        jobs := s.jobs.update j'
        attempts := ⟨w, j'⟩ :: s.attempts
        inProgress := (w, j.id) :: s.inProgress }
  | ended {j j' : EmailJobRow} (hc : Ends c j j') (hget : s.jobs.get (.id j.id) = some j)
      (hclash : s.jobs.clash j' = none) :
      Serves w c s { s with
        jobs := s.jobs.update j'
        inProgress := s.inProgress.filter (· ≠ (w, j.id)) }
  | accepted {payload : PayloadSendEmail} {options : TaskOptions}
      (hc : c = .distributeTaskSendEmail payload options) :
      Serves w c s { s with
        queue := options.taskID :: s.queue
        accepted := options.taskID :: s.accepted }
  | called {message : EmailMessage} (answer : Except SendError String) (hc : Sends c message) :
      Serves w c s { s with calls := ⟨w, message, answer⟩ :: s.calls }
  | tokenFailed (hc : ForToken c) : Serves w c s { s with tokenFailures := w :: s.tokenFailures }

theorem Serves.of_statement {c : Call} {x : Dispatch × Except StoreError α}
    (h : Serves w c s x.1) (o : Choice) : Serves w c s (statement o s x).1 := by
  rcases statement_fst o s x with hs | hx
  · rw [hs]
    exact .same
  · rw [hx]
    exact h

theorem serves_claim (w : Nat) {now : Timestamp} (picked : List UUID) (claimedBy : String)
    (claimedUntil : Timestamp) (size : Nat) (hnow : now ≤ s.now) :
    Serves w (.claimOutboxEvents claimedBy claimedUntil size) s
      (s.claimOutboxEvents w now picked claimedBy claimedUntil size).1 := by
  unfold claimOutboxEvents
  dsimp only
  split
  · rename_i h
    exact .claimed rfl hnow h.1
  · exact .same

theorem serves_settle (w : Nat) {c : Call} {id : UUID} {f : OutboxRow → OutboxRow}
    {hf : ∀ e, keys (f e) = keys e} (hc : Settles c id f) (s : Dispatch) :
    Serves w c s (s.settle w id f hf).1 := by
  rcases settle_cases w id f hf s with ⟨e, he⟩ | ⟨e, hget, he⟩
  · rw [he]
    exact .same
  · rw [he]
    exact .settled hc hget hf

theorem serves_end (w : Nat) {c : Call} {id : UUID}
    {f : EmailJobRow → Except SqlError (Option EmailJobRow)} (s : Dispatch)
    (hc : ∀ j j', j.id = id → f j = .ok (some j') → Ends c j j') :
    Serves w c s (Dispatch.ended w id (s.updateEmailJob id f)).1 := by
  rcases ended_cases w id f s with ⟨e, he⟩ | ⟨j, j', hget, hf, hclash, hok⟩
  · rw [he]
    exact .same
  · obtain rfl := EmailJobRow.id_of_get hget
    rw [hok]
    exact .ended (hc j j' rfl hf) hget hclash

theorem serve_serves (w : Nat) (o : Choice) (c : Call) (s : Dispatch) :
    Serves w c s (serve w o c s).1 := by
  have hlag : s.now - o.lag ≤ s.now := Int.sub_le_self _ (Int.natCast_nonneg _)
  cases c with
  | clock => exact .same
  | random bound => exact .same
  | claimOutboxEvents claimedBy claimedUntil size =>
    exact (serves_claim w o.picked claimedBy claimedUntil size hlag).of_statement o
  | markOutboxEventPublished id => exact (serves_settle w (.published _ id) s).of_statement o
  | releaseOutboxEvent id availableAt lastError =>
    exact (serves_settle w (.released id availableAt lastError) s).of_statement o
  | deleteExpiredPublishedOutboxEvents publishedBefore =>
    exact Serves.of_statement (.deletedEvents rfl) o
  | deleteExpiredSentEmailJobs sentBefore =>
    refine Serves.of_statement ?_ o
    rcases deleteExpiredSentEmailJobs_cases sentBefore s with ⟨e, he⟩ | he
    · rw [he]
      exact .same
    · rw [he]
      exact .deletedJobs rfl
  | getEmailJob id =>
    refine Serves.of_statement ?_ o
    exact .same
  | markEmailJobQueued id =>
    refine Serves.of_statement ?_ o
    unfold markEmailJobQueued
    rcases updateEmailJob_cases id (fun j => .ok (some j.markQueued)) s with
      ⟨e, he⟩ | ⟨j, j', hget, hf, hclash, hok⟩
    · rw [he]
      exact .same
    · obtain rfl := EmailJobRow.id_of_get hget
      cases hf
      rw [hok]
      exact .edited (.queued j) hget hclash (Or.inl rfl)
  | startEmailJobAttempt id =>
    refine Serves.of_statement ?_ o
    rcases startEmailJobAttempt_cases w id s with ⟨e, he⟩ | ⟨j, j', hget, hj', hclash, hok⟩
    · rw [he]
      exact .same
    · obtain rfl := EmailJobRow.id_of_get hget
      rw [hok]
      exact .started rfl hget hj' hclash
  | markEmailJobRetrying id lastError =>
    refine Serves.of_statement (serves_end w s fun j j' hid hf => ?_) o
    subst hid
    exact .retrying (Except.ok.inj hf)
  | markEmailJobSent id providerMessageID =>
    refine Serves.of_statement (serves_end w s fun j j' hid hf => ?_) o
    subst hid
    cases hf
    exact .sent _ providerMessageID j
  | markEmailJobDeadLetter id lastError =>
    refine Serves.of_statement (serves_end w s fun j j' hid hf => ?_) o
    subst hid
    exact .deadLetter (Except.ok.inj hf)
  | setEmailJobVerificationToken id hash expiresAt =>
    show Serves w _ s (noteTokenFailure w (statement o s
      (s.setEmailJobVerificationToken id hash expiresAt))).1
    have hcases := updateEmailJob_cases id (EmailJobRow.setVerificationToken hash expiresAt) s
    generalize hx : statement o s (s.setEmailJobVerificationToken id hash expiresAt) = x
    have hfst : x.1 = s ∨ ∃ j j', s.jobs.get (.id id) = some j ∧
        j.setVerificationToken hash expiresAt = .ok (some j') ∧ s.jobs.clash j' = none ∧
          x.1 = { s with jobs := s.jobs.update j' } := by
      rw [← hx]
      rcases statement_fst o s (s.setEmailJobVerificationToken id hash expiresAt) with hs | hs
      · exact Or.inl hs
      · rw [hs]
        rcases hcases with ⟨e, he⟩ | ⟨j, j', hget, hf, hclash, hok⟩
        · exact Or.inl (congrArg Prod.fst he)
        · exact Or.inr ⟨j, j', hget, hf, hclash, congrArg Prod.fst hok⟩
    unfold noteTokenFailure
    rcases hfst with hs | ⟨j, j', hget, hf, hclash, hs⟩
    · cases hx2 : x.2 with
      | ok a =>
        simp only [hs]
        exact .same
      | error e =>
        simp only [hs]
        exact .tokenFailed (.set id hash expiresAt)
    · obtain rfl := EmailJobRow.id_of_get hget
      cases hx2 : x.2 with
      | ok a =>
        simp only [hs]
        exact .edited (.token hf) hget hclash (Or.inl rfl)
      | error e =>
        simp only [hs]
        exact .edited (.token hf) hget hclash (Or.inr rfl)
  | distributeTaskSendEmail payload options =>
    show Serves w _ s (s.distribute o options.taskID).1
    unfold distribute
    cases o.fate with
    | refused => exact .same
    | done =>
      dsimp only
      split
      · exact .same
      · exact .accepted rfl
    | lost =>
      dsimp only
      split
      · exact .same
      · exact .accepted rfl
  | createToken jobID =>
    show Serves w _ s (noteTokenFailure w (s, o.token)).1
    unfold noteTokenFailure
    split
    · exact .same
    · exact .tokenFailed (.create jobID)
  | hashToken value =>
    show Serves w _ s (noteTokenFailure w (s, o.hash)).1
    unfold noteTokenFailure
    split
    · exact .same
    · exact .tokenFailed (.hash value)
  | sendVerificationEmail message => exact .called o.mail (.verification message)
  | sendFinancialNotification message => exact .called o.mail (.notification message)

inductive Happens (s : Dispatch) : Dispatch → Prop
  | same : Happens s s
  | tick (micros : Nat) : Happens s { s with now := s.now + micros }
  | forgot (taskID : String) : Happens s { s with queue := s.queue.filter (· ≠ taskID) }
  | created {new : NewJob} (hjob : s.jobs.conflict (new.row s.now) = none)
      (hevent : s.outbox.conflict (new.event s.now) = none)
      (hfresh : ∀ p ∈ s.committed, p.1 ≠ new.eventID ∧ p.2 ≠ new.jobID)
      (hmax : 0 < new.maxAttempts) :
      Happens s { s with
        jobs := s.jobs.insert (new.row s.now)
        outbox := s.outbox.insert (new.event s.now)
        committed := (new.eventID, new.jobID) :: s.committed }
  | recorded (webhookID : String) : Happens s { s with webhooks := webhookID :: s.webhooks }
  | reported {webhookID providerMessageID : String} {status : EmailDeliveryStatus}
      {occurredAt : Timestamp} {j j' : EmailJobRow} (hget : s.jobs.get (.id j.id) = some j)
      (hj' : j.setDelivery providerMessageID status occurredAt = some j')
      (hclash : s.jobs.clash j' = none) :
      Happens s { s with webhooks := webhookID :: s.webhooks, jobs := s.jobs.update j' }

theorem happens_create (new : NewJob) (s : Dispatch) : Happens s (s.create new) := by
  unfold create
  split
  · rename_i h
    exact .created h.1 h.2.1 h.2.2.1 h.2.2.2
  · exact .same

theorem happens_report (arg : ProcessEmailDeliveryEventParams) (s : Dispatch) :
    Happens s (s.processEmailDeliveryEventTx arg) := by
  unfold processEmailDeliveryEventTx
  split
  · exact .same
  · dsimp only
    split
    · split
      · rename_i job status _ _ _
        rcases updateEmailJob_cases job.id (fun j =>
            .ok (j.setDelivery arg.providerMessageID status arg.occurredAt))
            { s with webhooks := arg.webhookID :: s.webhooks } with
          ⟨e, he⟩ | ⟨j, j', hget, hf, hclash, hok⟩
        · rw [he]
          cases e with
          | noRows => exact .recorded _
          | sql e => exact .same
        · rw [hok]
          obtain hid := EmailJobRow.id_of_get hget
          rw [← hid] at hget
          exact .reported hget (Except.ok.inj hf) hclash
      · exact .recorded _
    · exact .recorded _

theorem apply_happens (v : EmailEvent) (s : Dispatch) : Happens s (v.apply s) := by
  cases v with
  | tick micros => exact .tick micros
  | create new => exact happens_create new s
  | replayEmailJobTx jobID newJobID newEventID =>
    show Happens s (s.replayEmailJobTx jobID newJobID newEventID)
    unfold replayEmailJobTx
    split
    · exact .same
    · split
      · exact .same
      · split
        · exact .same
        · exact happens_create _ s
  | processEmailDeliveryEventTx arg => exact happens_report arg s
  | forgetTask taskID => exact .forgot taskID

theorem moves_cases {p : Processor} {s s' : EmailState} {act : EmailAction}
    (h : (emailSystem p).Moves s act s') :
    (∃ w c, Serves w c s.shared s'.shared) ∨ Happens s.shared s'.shared := by
  cases h with
  | stay => exact Or.inr .same
  | start hw => exact Or.inr .same
  | call hact hw => exact Or.inl ⟨_, _, serve_serves _ _ _ _⟩
  | die hw => exact Or.inr .same
  | outside hact => exact Or.inr (apply_happens _ _)

end Dispatch

/-! ## A small installation

One job with its event, a relay and a worker that knows the job. -/

def firstJob : Dispatch.NewJob where
  jobID := 1
  jobType := emailJobTypeVerifyEmail
  username := "alice"
  recipient := "alice@example.com"
  payload := .object []
  eventID := 2
  eventType := "email_job.ready"
  correlationID := 1
  entityType := .emailJob
  entityID := 1

def firstTask : TaskPayload :=
  .email ⟨(1 : UUID).text, (2 : UUID).text, (1 : UUID).text, "email_job.ready"⟩

/-- A relay with the values that `NewOutboxRelay` puts in where there are none. -/
def defaultRelay (instanceID : String) : RelayConfig where
  instanceID := instanceID
  batchSize := 50
  claimLease := 30 * microsPerSecond
  taskTimeout := 30 * microsPerSecond
  taskRetention := 7 * microsPerDay
  outboxRetention := 7 * microsPerDay
  emailRetention := 90 * microsPerDay

def plainProcessor : Processor where
  parseUUID text := if text = (1 : UUID).text then .ok 1 else .error "invalid UUID"
  queryEscape text := text
  formatTime _ := ""
  publicAPIURL := "localhost/"
  emailVerificationDuration := 3600
  emailVerificationMaker := true

end Monierave
