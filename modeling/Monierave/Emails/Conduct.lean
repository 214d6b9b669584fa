import Mathlib.Data.List.Nodup
import Monierave.Emails.Rules

/-! # How relays and workers conduct themselves

The programs of the relay, the worker and the error handler meet the requirements of
`Emails.Rules`, whatever happens around them and however their calls are answered.
-/

namespace Monierave

open Relational Processes Dispatch

variable {p : Processor} {w : Nat} {j : EmailProcess} {s s' : Dispatch} {e : OutboxRow}

variable {c : Call} {Q : c.Answer → Dispatch → Prop} {id : UUID}

theorem meets_quiet (hl : c.onLease = false) (ha : c.onAttempt = false)
    (hreq : ∀ s', Around w s s' → Requires p w j c s')
    (hQ : ∀ o s' s'', Sound s' → Around w s s'' → Grows (serve w o c s').1 s'' →
      Q (serve w o c s').2 s'') : (emailDiscipline p).Meets w j (Proc.ask c) s Q := by
  refine .ask fun s' hs' hinv => ⟨hreq s' hs', fun o s'' hs'' _ => ?_⟩
  have hown : Around w s' (serve w o c s').1 := (serve_serves w o c s').around_self hl ha
  exact hQ o s' s'' hinv ((hs'.trans hown).trans hs'') hs''.toGrows

structure Holds (w : Nat) (e : OutboxRow) (s : Dispatch) : Prop where
  lease : (lease w e.id s.leases).isSome = true
  committed : (e.id, e.emailJobID) ∈ s.committed
  payload : ∃ eventID correlationID, e.payload = .email e.emailJobID.text eventID correlationID

/-- What the process keeps while it works on the event `id`. -/
structure After (w : Nat) (id : UUID) (s s' : Dispatch) : Prop extends Grows s s' where
  lease : ∀ i, i ≠ id → lease w i s'.leases = lease w i s.leases

theorem Dispatch.Around.after (h : Around w s s') (id : UUID) : After w id s s' :=
  ⟨h.toGrows, fun i _ => h.lease i⟩

theorem After.trans {s'' : Dispatch} (h : After w id s s') (h' : After w id s' s'') :
    After w id s s'' :=
  ⟨h.toGrows.trans h'.toGrows, fun i hi => (h'.lease i hi).trans (h.lease i hi)⟩

theorem Holds.of_after (h : Holds w e s) (hafter : After w id s s') (hne : e.id ≠ id) :
    Holds w e s' :=
  ⟨by rw [hafter.lease _ hne]; exact h.lease, hafter.committed h.committed, h.payload⟩

theorem Holds.around (h : Holds w e s) (ha : Around w s s') : Holds w e s' :=
  ⟨by rw [ha.lease]; exact h.lease, ha.committed h.committed, h.payload⟩

theorem Dispatch.Serves.after (h : Serves w c s s')
    (hc : c.onLease = true → ∀ i f, Settles c i f → i = id)
    (hclaim : ∀ a b n, c ≠ .claimOutboxEvents a b n) : After w id s s' := by
  refine ⟨h.grows, fun i hi => ?_⟩
  cases h with
  | claimed heq hnow hpicked => exact absurd heq (hclaim _ _ _)
  | settled hsettles hget hf =>
    refine lease_settled_of_ne _ (Or.inr ?_)
    have hlease : c.onLease = true := by cases hsettles <;> rfl
    rw [hc hlease _ _ hsettles]
    exact hi.symm
  | _ => rfl

theorem meets_settle (id : UUID) (hc : ∀ i f, Settles c i f → i = id)
    (hclaim : ∀ a b n, c ≠ .claimOutboxEvents a b n)
    (hreq : ∀ s', Around w s s' → Requires p w j c s') (hQ : ∀ a s', After w id s s' → Q a s') :
    (emailDiscipline p).Meets w j (Proc.ask c) s Q := by
  refine .ask fun s' hs' hinv => ⟨hreq s' hs', fun o s'' hs'' _ => hQ _ _ ?_⟩
  have hown : After w id s' (serve w o c s').1 := (serve_serves w o c s').after (fun _ => hc) hclaim
  exact ((hs'.after id).trans hown).trans (hs''.after id)

theorem meets_release (publishErr : String) (h : Holds w e s) :
    (emailDiscipline p).Meets w j (RelayConfig.release e publishErr) s fun _ s' =>
      After w e.id s s' := by
  unfold RelayConfig.release outboxRetryDelay
  refine .bind (meets_quiet rfl rfl (fun _ _ => trivial) fun _ _ s₁ _ h₁ _ => ?_)
  refine .bind (.bind
    (meets_quiet rfl rfl (fun _ _ => trivial) fun _ _ s₂ _ h₂ _ => ?_))
  refine .ret fun s₃ h₃ _ => ?_
  have haround : Around w s s₃ := (h₁.trans h₂).trans h₃
  refine .bind (meets_settle e.id ?_ (by simp) (fun s' hs' => ?_) ?_)
  · intro i f hs
    cases hs
    rfl
  · exact ((h.around haround).around hs').lease
  · intro a s₄ h₄
    have hafter : After w e.id s s₄ := (haround.after _).trans h₄
    cases a with
    | error err => exact .ret fun s' hs' _ => hafter.trans (hs'.after _)
    | ok r => exact .ret fun s' hs' _ => hafter.trans (hs'.after _)

theorem meets_markPublished (h : Holds w e s) (haccepted : e.emailJobID.text ∈ s.accepted) :
    (emailDiscipline p).Meets w j (RelayConfig.markPublished e) s fun _ s' => After w e.id s s' := by
  unfold RelayConfig.markPublished
  refine .bind (meets_settle e.id ?_ (by simp) (fun s' hs' => ?_) ?_)
  · intro i f hs
    cases hs
    rfl
  · exact ⟨(h.around hs').lease, e.emailJobID, hs'.committed h.committed, hs'.accepted haccepted⟩
  · intro a s₁ h₁
    cases a with
    | error err => exact .ret fun s' hs' _ => h₁.trans (hs'.after _)
    | ok r =>
      refine .bind (meets_quiet rfl rfl (fun _ _ => trivial)
        fun _ _ s₂ _ h₂ _ => ?_)
      exact .ret fun s' hs' _ => (h₁.trans (h₂.after _)).trans (hs'.after _)

theorem accepted_of_distribute (o : Choice) (payload : PayloadSendEmail) (options : TaskOptions)
    (hinv : Sound s)
    (h : ∀ err, (serve w o (.distributeTaskSendEmail payload options) s).2 ≠ .error (.failed err)) :
    options.taskID ∈ (serve w o (.distributeTaskSendEmail payload options) s).1.accepted := by
  simp only [serve, distribute] at h ⊢
  cases hfate : o.fate with
  | refused => simp [hfate] at h
  | done =>
    by_cases hmem : options.taskID ∈ s.queue
    · simpa [hmem] using hinv.queue hmem
    · simp [hmem]
  | lost =>
    by_cases hmem : options.taskID ∈ s.queue
    · simp [hfate, hmem] at h
    · simp [hmem]

theorem meets_publishEvent (relay : RelayConfig) (h : Holds w e s) :
    (emailDiscipline p).Meets w j (relay.publishEvent e) s fun _ s' => After w e.id s s' := by
  obtain ⟨eventID, correlationID, hpayload⟩ := h.payload
  simp only [RelayConfig.publishEvent, hpayload, OutboxPayload.decode]
  refine .bind (meets_quiet rfl rfl (fun _ _ => trivial) fun _ _ s₁ _ h₁ _ => ?_)
  generalize (serve w _ (.getEmailJob e.emailJobID) _).2 = job
  cases job with
  | error err => exact (meets_release _ (h.around h₁)).mono fun _ _ hs => (h₁.after _).trans hs
  | ok job =>
    refine .bind (meets_quiet rfl rfl (fun _ _ => trivial)
      fun o s' s₂ hinv h₂ hgrows => ?_)
    have haround : Around w s s₂ := h₁.trans h₂
    have haccepted := accepted_of_distribute (w := w) o
      (RelayConfig.taskPayload e ⟨e.emailJobID.text, eventID, correlationID, ""⟩)
      (relay.taskOptions
        (RelayConfig.taskPayload e ⟨e.emailJobID.text, eventID, correlationID, ""⟩) job) hinv
    generalize hans : (serve w o (.distributeTaskSendEmail _ _) s').2 = ans at haccepted ⊢
    have hpub : (∀ err, ans ≠ .error (.failed err)) →
        (emailDiscipline p).Meets w j (RelayConfig.markPublished e) s₂ fun _ s' =>
          After w e.id s s' := fun hne =>
      (meets_markPublished (h.around haround) (hgrows.accepted (haccepted hne))).mono
        fun _ _ hs => (haround.after _).trans hs
    match ans with
    | .ok () => exact hpub (by simp)
    | .error .taskIDConflict => exact hpub (by simp)
    | .error (.failed err) =>
      exact (meets_release _ (h.around haround)).mono fun _ _ hs => (haround.after _).trans hs

theorem meets_publishEvents (relay : RelayConfig) (events : List OutboxRow)
    (hdistinct : (events.map (·.id)).Nodup) (h : ∀ e ∈ events, Holds w e s) :
    (emailDiscipline p).Meets w j (relay.publishEvents events) s fun _ _ => True := by
  induction events generalizing s with
  | nil => exact .ret fun _ _ _ => trivial
  | cons e events ih =>
    rw [List.map_cons, List.nodup_cons] at hdistinct
    have hevent := meets_publishEvent (p := p) (j := j) relay (h e List.mem_cons_self)
    refine .bind (hevent.mono fun _ s' hafter => ?_)
    refine ih hdistinct.2 fun e' he' => (h e' (List.mem_cons_of_mem e he')).of_after hafter ?_
    intro heq
    exact hdistinct.1 (heq ▸ List.mem_map_of_mem he')

theorem holds_of_claim {o : Choice} {claimedBy : String} {claimedUntil : Timestamp} {size : Nat}
    {events : List OutboxRow} (hinv : Sound s)
    (h : (serve w o (.claimOutboxEvents claimedBy claimedUntil size) s).2 = .ok events) :
    (events.map (·.id)).Nodup ∧
      ∀ e ∈ events, Holds w e (serve w o (.claimOutboxEvents claimedBy claimedUntil size) s).1 := by
  have hdone := statement_ok h
  simp only [serve] at h ⊢
  rw [hdone] at h ⊢
  unfold claimOutboxEvents at h ⊢
  dsimp only at h ⊢
  split at h
  · rename_i hpicked
    obtain rfl := Except.ok.inj h
    rw [if_pos hpicked]
    constructor
    · rw [List.map_map, List.map_filterMap]
      refine List.Nodup.filterMap (fun id id' i hi hi' => ?_) hpicked.1
      simp only [Option.mem_def, Option.map_eq_some_iff, Option.filter_eq_some_iff] at hi hi'
      obtain ⟨e, ⟨hget, _⟩, rfl⟩ := hi
      obtain ⟨e', ⟨hget', _⟩, hid⟩ := hi'
      rw [← OutboxRow.id_of_get hget, ← OutboxRow.id_of_get hget']
      exact hid.symm
    · intro e' he'
      obtain ⟨e, he, rfl⟩ := List.mem_map.mp he'
      obtain ⟨id, _, hget⟩ := List.mem_filterMap.mp he
      have hmem : e ∈ s.outbox.rows := Table.mem_of_get (Option.filter_eq_some_iff.mp hget).1
      refine ⟨?_, hinv.committed e hmem, hinv.payload e hmem⟩
      simp only [lease_claimed]
      rw [if_pos ⟨trivial, e, he, rfl⟩]
      rfl
  · obtain rfl := Except.ok.inj h
    exact ⟨List.nodup_nil, by simp⟩

theorem meets_publishBatch (relay : RelayConfig) (s : Dispatch) :
    (emailDiscipline p).Meets w j relay.publishBatch s fun _ _ => True := by
  unfold RelayConfig.publishBatch
  refine .bind (meets_quiet rfl rfl (fun _ _ => trivial) fun _ _ s₁ _ _ _ => ?_)
  refine .bind (.ask fun s₂ _ hinv => ⟨trivial, fun o s₃ h₃ _ => ?_⟩)
  split
  · exact .ret fun _ _ _ => trivial
  · rename_i events hanswer
    obtain ⟨hdistinct, hclaimed⟩ := holds_of_claim hinv hanswer
    exact meets_publishEvents relay events hdistinct fun e he => (hclaimed e he).around h₃

theorem meets_cleanup (relay : RelayConfig) (s : Dispatch) :
    (emailDiscipline p).Meets w j relay.cleanup s fun _ _ => True := by
  unfold RelayConfig.cleanup
  refine .bind (meets_quiet rfl rfl (fun _ _ => trivial) fun _ _ _ _ _ _ => ?_)
  refine .bind (meets_quiet rfl rfl (fun _ _ => trivial) fun _ _ _ _ _ _ => ?_)
  refine .bind (meets_quiet rfl rfl (fun _ _ => trivial) fun _ _ _ _ _ _ => ?_)
  exact .ret fun _ _ _ => trivial

theorem meets_relay (relay : RelayConfig) (ticks : List RelayConfig.Tick) (s : Dispatch) :
    (emailDiscipline p).Meets w j (relay.run ticks) s fun _ _ => True := by
  induction ticks generalizing s with
  | nil => exact meets_publishBatch relay s
  | cons tick ticks ih =>
    cases tick with
    | poll => exact .bind ((meets_publishBatch relay s).mono fun _ s' _ => ih s')
    | cleanup =>
      refine .bind ((meets_publishBatch relay s).mono fun _ s₁ _ => ?_)
      exact .bind ((meets_cleanup relay s₁).mono fun _ s₂ _ => ih s₂)

structure Trying (p : Processor) (w : Nat) (jobID : UUID) (text : String) (job : EmailJobRow)
    (s : Dispatch) : Prop where
  inProgress : (w, jobID) ∈ s.inProgress
  attempt : ⟨w, job⟩ ∈ s.attempts
  id : job.id = jobID
  parse : p.parseUUID text = .ok jobID

section Attempts

variable {jobID : UUID} {text : String} {job : EmailJobRow}

variable {c : Call}

theorem Trying.around (h : Trying p w jobID text job s) (ha : Around w s s') :
    Trying p w jobID text job s' :=
  ⟨(ha.inProgress _).mpr h.inProgress, ha.attempts h.attempt, h.id, h.parse⟩

theorem noteTokenFailure_error {α ε : Type} (x : Dispatch × Except ε α) (err : ε)
    (h : (noteTokenFailure w x).2 = .error err) : w ∈ (noteTokenFailure w x).1.tokenFailures := by
  unfold noteTokenFailure at h ⊢
  split
  · rename_i hx
    simp [hx] at h
  · exact List.mem_cons_self

theorem meets_verificationEmailPayload (job : EmailJobRow) (text : String) (s : Dispatch) :
    (emailDiscipline p).Meets w j (p.verificationEmailPayload job text) s fun r s' =>
      Around w s s' ∧ ∀ err, r = .error err → w ∈ s'.tokenFailures ∨ job.Invalid := by
  unfold Processor.verificationEmailPayload
  split
  · refine .bind (meets_quiet rfl rfl (fun _ _ => trivial)
      fun o s' s₁ _ h₁ hgrows => ?_)
    have hnote := noteTokenFailure_error (w := w) (s', o.token)
    generalize hans : (serve w o (.createToken text) s').2 = ans
    cases ans with
    | error err =>
      refine .ret fun s'' hs'' _ => ⟨h₁.trans hs'', fun _ _ => Or.inl ?_⟩
      exact hs''.tokenFailures (hgrows.tokenFailures (hnote err hans))
    | ok value =>
      refine .bind (meets_quiet rfl rfl (fun _ _ => trivial)
        fun o s' s₂ _ h₂ hgrows => ?_)
      have hnote := noteTokenFailure_error (w := w) (s', o.hash)
      generalize hans : (serve w o (.hashToken value) s').2 = ans
      cases ans with
      | error err =>
        refine .ret fun s'' hs'' _ =>
          ⟨(h₁.trans h₂).trans hs'', fun _ _ => Or.inl ?_⟩
        exact hs''.tokenFailures (hgrows.tokenFailures (hnote err hans))
      | ok hash =>
        refine .bind (meets_quiet rfl rfl (fun _ _ => trivial)
          fun o s' s₃ _ h₃ hgrows => ?_)
        have haround : Around w s s₃ := (h₁.trans h₂).trans h₃
        have hnote := noteTokenFailure_error (w := w) (statement o s'
          (s'.setEmailJobVerificationToken job.id hash
            (job.createdAt + p.emailVerificationDuration)))
        generalize hans : (serve w o (.setEmailJobVerificationToken job.id hash _) s').2 = ans
        cases ans with
        | error err =>
          refine .ret fun s'' hs'' _ =>
            ⟨haround.trans hs'', fun _ _ => Or.inl ?_⟩
          exact hs''.tokenFailures (hgrows.tokenFailures (hnote err hans))
        | ok row =>
          cases hpayload : job.payload with
          | other text =>
            exact .ret fun s'' hs'' _ =>
              ⟨haround.trans hs'', fun _ _ => Or.inr (Or.inr ⟨text, hpayload⟩)⟩
          | null =>
            exact .ret fun s'' hs'' _ => ⟨haround.trans hs'', by simp⟩
          | object members =>
            exact .ret fun s'' hs'' _ => ⟨haround.trans hs'', by simp⟩
  · exact .ret fun s'' hs'' _ => ⟨hs'', by simp⟩

def Tried (p : Processor) (w : Nat) (j : EmailProcess) (jobID : UUID) (s : Dispatch) :
    Except SendError String → Prop
  | .ok providerMessageID => ∃ call ∈ s.calls,
      p.parseUUID call.message.jobID = .ok jobID ∧ call.answer = .ok providerMessageID
  | .error err => err.permanent = true → DeadLetterCause p w j jobID s ∨ w ∈ s.tokenFailures

theorem meets_send {message : EmailMessage} (hc : Sends c message)
    (hans : c.Answer = Except SendError String) (h : Trying p w jobID text job s)
    (hmessage : message.jobID = text) :
    (emailDiscipline p).Meets w j (Proc.ask c) s fun r s' =>
      Around w s s' ∧ Tried p w j jobID s' (hans ▸ r) := by
  have hcalled : ∀ o s', (serve w o c s').1.calls = ⟨w, message, o.mail⟩ :: s'.calls ∧
      hans ▸ (serve w o c s').2 = o.mail := by
    intro o s'
    cases hc <;> exact ⟨rfl, rfl⟩
  refine meets_quiet (by cases hc <;> rfl) (by cases hc <;> rfl) (fun s' hs' => ?_) ?_
  · have hstarted : ∃ a ∈ s'.attempts, a.worker = w ∧ p.parseUUID message.jobID = .ok a.job.id :=
      ⟨_, hs'.attempts h.attempt, rfl, by rw [hmessage, h.id]; exact h.parse⟩
    cases hc <;> exact hstarted
  · intro o s' s'' _ haround hgrows
    obtain ⟨hcalls, hmail⟩ := hcalled o s'
    refine ⟨haround, ?_⟩
    have hmem : ⟨w, message, o.mail⟩ ∈ s''.calls := hgrows.calls (hcalls ▸ List.mem_cons_self)
    have hparse : p.parseUUID message.jobID = .ok jobID := hmessage ▸ h.parse
    rw [hmail]
    cases hanswer : o.mail with
    | ok providerMessageID => exact ⟨_, hmem, hparse, hanswer⟩
    | error err => exact fun herr => Or.inl (.permanent hmem rfl hparse hanswer herr)

theorem meets_sendEmailJob (h : Trying p w jobID text job s) :
    (emailDiscipline p).Meets w j (p.sendEmailJob job text) s fun r s' =>
      Around w s s' ∧ Tried p w j jobID s' r := by
  unfold Processor.sendEmailJob
  split
  · refine .bind ((meets_verificationEmailPayload job text s).mono ?_)
    rintro r s₁ ⟨h₁, hfailed⟩
    cases r with
    | error err =>
      refine .ret fun s' hs' _ => ⟨h₁.trans hs', fun _ => ?_⟩
      rcases hfailed err rfl with htoken | hinvalid
      · exact Or.inr (hs'.tokenFailures htoken)
      · exact Or.inl (.invalid (hs'.attempts (h₁.attempts h.attempt)) rfl h.id hinvalid)
    | ok payload =>
      exact (meets_send (.verification _) rfl (h.around h₁) rfl).mono
        fun _ _ hs => ⟨h₁.trans hs.1, hs.2⟩
  · rename_i hverify
    split
    · exact meets_send (.notification _) rfl h rfl
    · rename_i hfinancial
      refine .ret fun s' hs' _ => ⟨hs', fun _ => Or.inl ?_⟩
      have hinvalid : job.Invalid :=
        Or.inl ⟨fun h => hverify (Or.inl h), fun h => hverify (Or.inr h), hfinancial⟩
      exact .invalid (hs'.attempts h.attempt) rfl h.id hinvalid

theorem meets_last {k : c.Answer → Process (Option TaskError)}
    (hreq : ∀ s', Around w s s' → Requires p w j c s') (hk : ∀ a, ∃ r, k a = pure r) :
    (emailDiscipline p).Meets w j (Proc.ask c >>= k) s fun _ _ => True := by
  refine .bind (.ask fun s' hs' _ =>
    ⟨hreq s' hs', fun o s'' hs'' _ => ?_⟩)
  obtain ⟨r, hr⟩ := hk ((emailSystem p).serve w o c s').2
  rw [hr]
  exact .ret fun _ _ _ => trivial

theorem meets_sendFailed {err : SendError} (h : Trying p w jobID text job s)
    (htried : Tried p w j jobID s (.error err)) :
    (emailDiscipline p).Meets w j (Processor.sendFailed jobID job err) s fun _ _ => True := by
  unfold Processor.sendFailed
  dsimp only
  split
  · rename_i hgivesUp
    refine meets_last (fun s' hs' => ?_) fun a => ?_
    · rcases hgivesUp with hpermanent | hlast
      · exact (htried hpermanent).imp (fun hcause => hcause.of_grows hs'.toGrows)
          fun htoken => hs'.tokenFailures htoken
      · exact Or.inl (.lastAttempt (hs'.attempts h.attempt) rfl h.id hlast)
    · cases a with
      | error e => exact ⟨_, rfl⟩
      | ok row =>
        dsimp only
        split <;> exact ⟨_, rfl⟩
  · refine meets_last (fun s' hs' => (h.around hs').inProgress) fun a => ?_
    cases a <;> exact ⟨_, rfl⟩

theorem meets_attempt (h : Trying p w jobID text job s) :
    (emailDiscipline p).Meets w j (p.attempt jobID job text) s fun _ _ => True := by
  unfold Processor.attempt
  refine .bind ((meets_sendEmailJob h).mono ?_)
  rintro r s₁ ⟨h₁, htried⟩
  cases r with
  | error err => exact meets_sendFailed (h.around h₁) htried
  | ok providerMessageID =>
    obtain ⟨call, hcall, hjob, hanswer⟩ := htried
    refine meets_last (fun s' hs' => ⟨call, hs'.calls hcall, hjob, hanswer⟩) fun a => ?_
    cases a <;> exact ⟨_, rfl⟩

theorem trying_of_start {o : Choice} (hparse : p.parseUUID text = .ok jobID)
    (h : (serve w o (.startEmailJobAttempt jobID) s).2 = .ok job) :
    Trying p w jobID text job (serve w o (.startEmailJobAttempt jobID) s).1 := by
  have hdone := statement_ok h
  simp only [serve] at h ⊢
  rw [hdone] at h ⊢
  rcases startEmailJobAttempt_cases w jobID s with ⟨e, he⟩ | ⟨j, j', hget, hj', hclash, hok⟩
  · simp [he] at h
  · rw [hok] at h ⊢
    obtain rfl := Except.ok.inj h
    have hid : j'.id = j.id := by
      unfold EmailJobRow.startAttempt at hj'
      split at hj' <;> cases hj' <;> rfl
    exact ⟨List.mem_cons_self, List.mem_cons_self, hid.trans (EmailJobRow.id_of_get hget), hparse⟩

theorem meets_processTaskSendEmail (task : TaskPayload) (s : Dispatch) :
    (emailDiscipline p).Meets w j (p.processTaskSendEmail task) s fun _ _ => True := by
  unfold Processor.processTaskSendEmail
  split
  · exact .ret fun _ _ _ => trivial
  · rename_i payload
    split
    · exact .ret fun _ _ _ => trivial
    · rename_i jobID hparse
      refine .bind (meets_quiet rfl rfl (fun _ _ => trivial)
        fun _ _ s₁ _ _ _ => ?_)
      split
      · exact .ret fun _ _ _ => trivial
      · exact .ret fun _ _ _ => trivial
      · split
        · exact .ret fun _ _ _ => trivial
        · split
          · exact .ret fun _ _ _ => trivial
          · refine .bind (.ask fun s₂ _ _ =>
              ⟨trivial, fun o s₃ h₃ _ => ?_⟩)
            split
            · exact .ret fun _ _ _ => trivial
            · rename_i job hstart
              exact meets_attempt ((trying_of_start hparse hstart).around h₃)

end Attempts

theorem meets_handleError (retried maxRetry : Option Nat) (task : TaskPayload) (taskErr : String)
    (s : Dispatch) :
    (emailDiscipline p).Meets w (.handleError retried maxRetry task taskErr)
      (p.handleError retried maxRetry task taskErr) s fun _ _ => True := by
  unfold Processor.handleError
  split
  · rename_i retried maxRetry
    split
    · exact .ret fun _ _ _ => trivial
    · rename_i hretried
      split
      · exact .ret fun _ _ _ => trivial
      · rename_i payload
        split
        · exact .ret fun _ _ _ => trivial
        · rename_i jobID hparse
          refine .bind (.ask fun s' _ _ =>
            ⟨Or.inl (.retriesExhausted rfl hparse (not_lt.mp hretried)), fun _ _ _ _ => ?_⟩)
          exact .ret fun _ _ _ => trivial
  · exact .ret fun _ _ _ => trivial

theorem emailDiscipline_kept (p : Processor) : (emailDiscipline p).Kept := by
  intro w j s _
  cases j with
  | relay config ticks =>
    refine .bind ((meets_relay config ticks s).mono fun _ _ _ => ?_)
    exact .ret fun _ _ _ => trivial
  | processTaskSendEmail task => exact meets_processTaskSendEmail task s
  | handleError retried maxRetry task taskErr =>
    refine .bind ((meets_handleError retried maxRetry task taskErr s).mono
      fun _ _ _ => ?_)
    exact .ret fun _ _ _ => trivial

end Monierave
