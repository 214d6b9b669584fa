import Monierave.Emails.Outbox

/-! # The life of an email job

What one step can do to one job, and what follows for jobs that have been sent: the
mailer has accepted the email, the job stays sent until its row expires, and no further
attempt begins.
-/

namespace Monierave

open Relational Processes

namespace EmailJobRow

variable {j j' : EmailJobRow}

theorem startAttempt_eq_some (h : j.startAttempt = some j') :
    j' = { j with status := .processing, attemptCount := j.attemptCount + 1 } ∧
      j.status ≠ .sent ∧ j.status ≠ .deadLetter := by
  unfold startAttempt at h
  cases hstatus : j.status <;> simp_all

theorem markRetrying_eq_some {lastError : String} (h : j.markRetrying lastError = some j') :
    j' = { j with status := .retrying, lastError := some lastError } ∧ j.status ≠ .sent := by
  unfold markRetrying at h
  split at h
  · cases h
  · rename_i hsent
    exact ⟨(Option.some.inj h).symm, hsent⟩

theorem markDeadLetter_eq_some {lastError : String} (h : j.markDeadLetter lastError = some j') :
    j' = { j with status := .deadLetter, lastError := some lastError } ∧ j.status ≠ .sent := by
  unfold markDeadLetter at h
  split at h
  · cases h
  · rename_i hsent
    exact ⟨(Option.some.inj h).symm, hsent⟩

theorem setVerificationToken_eq_ok {hash : Bytes} {expiresAt : Timestamp}
    (h : j.setVerificationToken hash expiresAt = .ok (some j')) :
    ∃ token, j' = { j with verificationToken := token } := by
  unfold setVerificationToken at h
  split at h
  · cases htoken : EmailJob.tokenColumns (some hash) (some expiresAt) with
    | error e => simp [htoken, Except.map] at h
    | ok token =>
      simp only [htoken, Except.map, Except.ok.injEq, Option.some.injEq] at h
      exact ⟨token, h.symm⟩
  · simp at h

theorem setDelivery_eq_some {providerMessageID : String} {status : EmailDeliveryStatus}
    {occurredAt : Timestamp} (h : j.setDelivery providerMessageID status occurredAt = some j') :
    j' = { j with
      providerMessageID := some (j.providerMessageID.getD providerMessageID)
      deliveryStatus := status
      deliveryEventAt := some occurredAt } := by
  unfold setDelivery at h
  split at h
  · exact (Option.some.inj h).symm
  · cases h

theorem sent_of_expired {sentBefore : Timestamp} (h : j.expired sentBefore = true) :
    j.status = .sent := by
  simp only [expired, Bool.and_eq_true, beq_iff_eq] at h
  exact h.1

end EmailJobRow

open EmailJobRow (startAttempt_eq_some markRetrying_eq_some markDeadLetter_eq_some
  setDelivery_eq_some id_of_get)

namespace Dispatch

variable {p : Processor} {w : Nat} {c : Call} {s s' : Dispatch} {id : UUID} {j j' : EmailJobRow}

/-! ## What a step does to one job -/

/-- What a call can do to a job. -/
inductive Changes (c : Call) (j : EmailJobRow) : EmailJobRow → Prop
  | same : Changes c j j
  | edited {j' : EmailJobRow} (h : Edits c j j') : Changes c j j'
  | started {j' : EmailJobRow} (hc : c = .startEmailJobAttempt j.id)
      (h : j.startAttempt = some j') : Changes c j j'
  | ended {j' : EmailJobRow} (h : Ends c j j') : Changes c j j'

theorem Edits.eq (h : Edits c j j') :
    (j' = j.markQueued) ∨ ∃ token, j' = { j with verificationToken := token } := by
  cases h with
  | queued => exact Or.inl rfl
  | token h => exact Or.inr (EmailJobRow.setVerificationToken_eq_ok h)

theorem Edits.id_eq (h : Edits c j j') : j'.id = j.id := by
  rcases h.eq with rfl | ⟨token, rfl⟩ <;> rfl

theorem Ends.id_eq (h : Ends c j j') : j'.id = j.id := by
  cases h with
  | retrying h => rw [(markRetrying_eq_some h).1]
  | sent now providerMessageID => rfl
  | deadLetter h => rw [(markDeadLetter_eq_some h).1]

theorem get_updated (hget : s.jobs.get (.id j.id) = some j) (hid : j'.id = j.id)
    (hclash : s.jobs.clash j' = none) (id : UUID) :
    (s.jobs.update j').get (.id id) = if id = j.id then some j' else s.jobs.get (.id id) := by
  have hold : s.jobs.get (pk j') = some j := by
    rw [EmailJobRow.pk_eq, hid]
    exact hget
  rw [Table.get_update hclash hold]
  by_cases heq : id = j.id
  · simp [heq, hid]
  · simp [heq, hid]

theorem Serves.job (h : Serves w c s s') (hget' : s'.jobs.get (.id id) = some j') :
    ∃ j, s.jobs.get (.id id) = some j ∧ Changes c j j' := by
  have hupdated : ∀ {i i' : EmailJobRow}, s.jobs.get (.id i.id) = some i → i'.id = i.id →
      s.jobs.clash i' = none → Changes c i i' → (s.jobs.update i').get (.id id) = some j' →
        ∃ j, s.jobs.get (.id id) = some j ∧ Changes c j j' := by
    intro i i' hget hid hclash hchanges hget'
    rw [get_updated hget hid hclash] at hget'
    split at hget'
    · rename_i heq
      obtain rfl := Option.some.inj hget'
      exact ⟨i, heq ▸ hget, hchanges⟩
    · exact ⟨j', hget', .same⟩
  cases h with
  | edited hc hget hclash hfailures => exact hupdated hget hc.id_eq hclash (.edited hc) hget'
  | started hc hget hj' hclash =>
    refine hupdated hget ?_ hclash (.started hc hj') hget'
    rw [(startAttempt_eq_some hj').1]
  | ended hc hget hclash => exact hupdated hget hc.id_eq hclash (.ended hc) hget'
  | deletedJobs hc =>
    rw [Table.get_keep, Option.filter_eq_some_iff] at hget'
    exact ⟨j', hget'.1, .same⟩
  | _ => exact ⟨j', hget', .same⟩

theorem Serves.job_stays (h : Serves w c s s') (hget : s.jobs.get (.id id) = some j) :
    (∃ j', s'.jobs.get (.id id) = some j') ∨
      s'.jobs.get (.id id) = none ∧ j ∈ s'.deletedJobs ∧ j.status = .sent := by
  have hupdated : ∀ {i i' : EmailJobRow}, s.jobs.get (.id i.id) = some i → i'.id = i.id →
      s.jobs.clash i' = none → ∃ j', (s.jobs.update i').get (.id id) = some j' := by
    intro i i' hi hid hclash
    rw [get_updated hi hid hclash]
    split
    · exact ⟨i', rfl⟩
    · exact ⟨j, hget⟩
  cases h with
  | edited hc hi hclash hfailures => exact Or.inl (hupdated hi hc.id_eq hclash)
  | started hc hi hj' hclash =>
    refine Or.inl (hupdated hi ?_ hclash)
    rw [(startAttempt_eq_some hj').1]
  | ended hc hi hclash => exact Or.inl (hupdated hi hc.id_eq hclash)
  | deletedJobs hc =>
    rename_i sentBefore
    rw [Table.get_keep, hget]
    cases hexpired : j.expired sentBefore with
    | false => exact Or.inl ⟨j, Option.filter_some_pos (by simp [hexpired])⟩
    | true =>
      refine Or.inr ⟨Option.filter_some_neg (by simp [hexpired]), ?_,
        EmailJobRow.sent_of_expired hexpired⟩
      exact List.mem_append_left _ (List.mem_filter.mpr ⟨Table.mem_of_get hget, hexpired⟩)
  | _ => exact Or.inl ⟨j, hget⟩

theorem Happens.job (h : Happens s s') (hget' : s'.jobs.get (.id id) = some j') :
    (∃ new : NewJob, j' = new.row s.now ∧ 0 < new.maxAttempts ∧
      (new.eventID, id) ∈ s'.committed ∧ ∀ q ∈ s.committed, q.2 ≠ id) ∨
    ∃ j, s.jobs.get (.id id) = some j ∧ (j' = j ∨ ∃ providerMessageID status occurredAt,
      j.setDelivery providerMessageID status occurredAt = some j') := by
  cases h with
  | created hjob hevent hfresh hmax =>
    rename_i new
    rw [Table.get_insert hjob] at hget'
    split at hget'
    · rename_i hkey
      obtain rfl := Option.some.inj hget'
      have hid : id = new.jobID := EmailJobRow.id_mem_keys.mp hkey
      refine Or.inl ⟨new, rfl, hmax, ?_, fun q hq => hid ▸ (hfresh q hq).2⟩
      rw [hid]
      exact List.mem_cons_self
    · exact Or.inr ⟨j', hget', Or.inl rfl⟩
  | reported hget hj' hclash =>
    have hid := congrArg EmailJobRow.id (setDelivery_eq_some hj')
    rw [get_updated hget hid hclash] at hget'
    split at hget'
    · rename_i heq
      obtain rfl := Option.some.inj hget'
      exact Or.inr ⟨_, heq ▸ hget, Or.inr ⟨_, _, _, hj'⟩⟩
    · exact Or.inr ⟨j', hget', Or.inl rfl⟩
  | _ => exact Or.inr ⟨j', hget', Or.inl rfl⟩

theorem Happens.job_stays (h : Happens s s') (hget : s.jobs.get (.id id) = some j) :
    ∃ j', s'.jobs.get (.id id) = some j' := by
  cases h with
  | created hjob hevent hfresh hmax => exact ⟨j, Table.get_insert_of_get hjob hget⟩
  | reported hi hj' hclash =>
    have hid := congrArg EmailJobRow.id (setDelivery_eq_some hj')
    rw [get_updated hi hid hclash]
    split
    · exact ⟨_, rfl⟩
    · exact ⟨j, hget⟩
  | _ => exact ⟨j, hget⟩

/-! ## Jobs and the ids they were created with -/

structure JobsSound (s : Dispatch) : Prop where
  committed : ∀ {id j}, s.jobs.get (.id id) = some j → ∃ eventID, (eventID, id) ∈ s.committed
  maxAttempts : ∀ {id j}, s.jobs.get (.id id) = some j → 0 < j.maxAttempts

theorem Changes.maxAttempts_eq (h : Changes c j j') : j'.maxAttempts = j.maxAttempts := by
  cases h with
  | same => rfl
  | edited h => rcases h.eq with rfl | ⟨token, rfl⟩ <;> rfl
  | started hc h => rw [(startAttempt_eq_some h).1]
  | ended h =>
    cases h with
    | retrying h => rw [(markRetrying_eq_some h).1]
    | sent now providerMessageID => rfl
    | deadLetter h => rw [(markDeadLetter_eq_some h).1]

theorem JobsSound.serves (h : JobsSound s) (hs : Serves w c s s') : JobsSound s' := by
  constructor
  · intro id j' hget'
    obtain ⟨j, hget, _⟩ := hs.job hget'
    rw [hs.committed_eq]
    exact h.committed hget
  · intro id j' hget'
    obtain ⟨j, hget, hchanges⟩ := hs.job hget'
    rw [hchanges.maxAttempts_eq]
    exact h.maxAttempts hget

theorem JobsSound.happens (h : JobsSound s) (hs : Happens s s') : JobsSound s' := by
  constructor
  · intro id j' hget'
    rcases hs.job hget' with ⟨new, _, _, hmem, _⟩ | ⟨j, hget, _⟩
    · exact ⟨_, hmem⟩
    · obtain ⟨eventID, hmem⟩ := h.committed hget
      exact ⟨eventID, hs.grows.committed hmem⟩
  · intro id j' hget'
    rcases hs.job hget' with ⟨new, rfl, hmax, _⟩ | ⟨j, hget, rfl | ⟨_, _, _, hj'⟩⟩
    · exact hmax
    · exact h.maxAttempts hget
    · have hmax := h.maxAttempts hget
      rwa [setDelivery_eq_some hj']

/-! ## Sent jobs -/

/-- A job is sent only after the mailer has accepted its email, and its provider id is
one the mailer has answered with. -/
def SentByMailer (p : Processor) (s : Dispatch) : Prop :=
  ∀ id j, s.jobs.get (.id id) = some j → j.status = .sent → ∃ call ∈ s.calls,
    p.parseUUID call.message.jobID = .ok id ∧ ∃ providerMessageID,
      j.providerMessageID = some providerMessageID ∧ call.answer = .ok providerMessageID

theorem SentByMailer.serves {pr : EmailProcess} (h : SentByMailer p s) (hs : Serves w c s s')
    (hreq : Requires p w pr c s) : SentByMailer p s' := by
  intro id j' hget' hsent
  obtain ⟨j, hget, hchanges⟩ := hs.job hget'
  -- unless the job has just been marked, it was sent before and has kept its provider id
  have hbefore : j.status = .sent → j'.providerMessageID = j.providerMessageID →
      ∃ call ∈ s'.calls, p.parseUUID call.message.jobID = .ok id ∧ ∃ providerMessageID,
        j'.providerMessageID = some providerMessageID ∧ call.answer = .ok providerMessageID := by
    intro hstatus hprovider
    obtain ⟨call, hcall, hjob, hanswer⟩ := h id j hget hstatus
    exact ⟨call, hs.grows.calls hcall, hjob, by rwa [hprovider]⟩
  cases hchanges with
  | same => exact hbefore hsent rfl
  | edited hedits =>
    rcases hedits.eq with rfl | ⟨token, rfl⟩
    · refine hbefore ?_ rfl
      simp only [EmailJobRow.markQueued] at hsent
      split at hsent
      · cases hsent
      · exact hsent
    · exact hbefore hsent rfl
  | started hc hstart =>
    rw [(startAttempt_eq_some hstart).1] at hsent
    cases hsent
  | ended hends =>
    cases hends with
    | retrying hretrying =>
      rw [(markRetrying_eq_some hretrying).1] at hsent
      cases hsent
    | sent now providerMessageID =>
      obtain ⟨call, hcall, hjob, hanswer⟩ := hreq
      rw [id_of_get hget] at hjob
      exact ⟨call, hs.grows.calls hcall, hjob, providerMessageID, rfl, hanswer⟩
    | deadLetter hdead =>
      rw [(markDeadLetter_eq_some hdead).1] at hsent
      cases hsent

theorem SentByMailer.happens (h : SentByMailer p s) (hs : Happens s s') : SentByMailer p s' := by
  intro id j' hget' hsent
  rcases hs.job hget' with ⟨new, rfl, _⟩ | ⟨j, hget, rfl | ⟨_, _, _, hj'⟩⟩
  · cases hsent
  · obtain ⟨call, hcall, hjob⟩ := h id j' hget hsent
    exact ⟨call, hs.grows.calls hcall, hjob⟩
  · rw [setDelivery_eq_some hj'] at hsent ⊢
    obtain ⟨call, hcall, hjob, providerMessageID, hprovider, hanswer⟩ := h id j hget hsent
    exact ⟨call, hs.grows.calls hcall, hjob, providerMessageID, by simp [hprovider], hanswer⟩

def CallsInAttempts (p : Processor) (s : Dispatch) : Prop :=
  ∀ call ∈ s.calls, ∃ a ∈ s.attempts, a.worker = call.worker ∧
    p.parseUUID call.message.jobID = .ok a.job.id

theorem CallsInAttempts.of_calls_eq (h : CallsInAttempts p s) (hcalls : s'.calls = s.calls)
    (hattempts : s.attempts ⊆ s'.attempts) : CallsInAttempts p s' := by
  intro call hcall
  rw [hcalls] at hcall
  obtain ⟨a, ha, hworker⟩ := h call hcall
  exact ⟨a, hattempts ha, hworker⟩

theorem CallsInAttempts.serves {pr : EmailProcess} (h : CallsInAttempts p s)
    (hs : Serves w c s s') (hreq : Requires p w pr c s) : CallsInAttempts p s' := by
  cases hs with
  | called answer hc =>
    intro call hcall
    rcases List.mem_cons.mp hcall with rfl | hold
    · obtain ⟨a, ha, hworker, hjob⟩ : ∃ a ∈ s.attempts, a.worker = w ∧
          p.parseUUID _ = .ok a.job.id := by
        cases hc <;> exact hreq
      exact ⟨a, ha, hworker, hjob⟩
    · exact h call hold
  | started hc hget hj' hclash => exact h.of_calls_eq rfl (List.subset_cons_self _ _)
  | _ => exact h.of_calls_eq rfl fun _ ha => ha

theorem CallsInAttempts.happens (h : CallsInAttempts p s) (hs : Happens s s') :
    CallsInAttempts p s' := by
  refine h.of_calls_eq ?_ hs.grows.attempts
  cases hs <;> rfl

def attemptsOf (id : UUID) (s : Dispatch) : List Attempt :=
  s.attempts.filter fun a => a.job.id = id

/-- The job was sent, and it is stored as such or was deleted as such; its attempts are
the ones in `attempts`. -/
structure StaysSent (id : UUID) (attempts : List Attempt) (s : Dispatch) : Prop where
  committed : ∃ eventID, (eventID, id) ∈ s.committed
  sent : (∃ j, s.jobs.get (.id id) = some j ∧ j.status = .sent) ∨
    s.jobs.get (.id id) = none ∧ ∃ j ∈ s.deletedJobs, j.id = id ∧ j.status = .sent
  attempts_eq : s.attemptsOf id = attempts

theorem Changes.sent (h : Changes c j j') (hsent : j.status = .sent) : j'.status = .sent := by
  cases h with
  | same => exact hsent
  | edited h =>
    rcases h.eq with rfl | ⟨token, rfl⟩
    · simp [EmailJobRow.markQueued, hsent]
    · exact hsent
  | started hc h => exact absurd hsent (startAttempt_eq_some h).2.1
  | ended h =>
    cases h with
    | retrying h => exact absurd hsent (markRetrying_eq_some h).2
    | sent now providerMessageID => rfl
    | deadLetter h => exact absurd hsent (markDeadLetter_eq_some h).2

theorem Serves.deletedJobs_subset (h : Serves w c s s') : s.deletedJobs ⊆ s'.deletedJobs := by
  cases h with
  | deletedJobs hc => exact List.subset_append_right _ _
  | _ => exact fun _ h => h

theorem Serves.attemptsOf_eq (h : Serves w c s s')
    (hstarted : ∀ j, s.jobs.get (.id id) = some j → j.startAttempt = none) :
    s'.attemptsOf id = s.attemptsOf id := by
  cases h with
  | started hc hget hj' hclash =>
    rename_i j j'
    have hid : j'.id = j.id := by rw [(startAttempt_eq_some hj').1]
    refine List.filter_cons_of_neg ?_
    simp only [decide_eq_true_eq, hid]
    rintro rfl
    rw [hstarted j hget] at hj'
    cases hj'
  | _ => rfl

theorem StaysSent.serves {attempts : List Attempt} (h : StaysSent id attempts s)
    (hs : Serves w c s s') : StaysSent id attempts s' := by
  refine ⟨by rw [hs.committed_eq]; exact h.committed, ?_, ?_⟩
  · rcases h.sent with ⟨j, hget, hsent⟩ | ⟨hnone, j, hmem, hj⟩
    · rcases hs.job_stays hget with ⟨j', hget'⟩ | ⟨hnone, hmem, hsent⟩
      · obtain ⟨j₀, hget₀, hchanges⟩ := hs.job hget'
        obtain rfl := Option.some.inj (hget.symm.trans hget₀)
        exact Or.inl ⟨j', hget', hchanges.sent hsent⟩
      · exact Or.inr ⟨hnone, j, hmem, id_of_get hget, hsent⟩
    · refine Or.inr ⟨?_, j, hs.deletedJobs_subset hmem, hj⟩
      rw [Option.eq_none_iff_forall_ne_some]
      intro j' hget'
      obtain ⟨j₀, hget₀, _⟩ := hs.job hget'
      rw [hnone] at hget₀
      cases hget₀
  · rw [hs.attemptsOf_eq fun j hget => ?_]
    · exact h.attempts_eq
    · rcases h.sent with ⟨j₀, hget₀, hsent⟩ | ⟨hnone, _⟩
      · obtain rfl := Option.some.inj (hget.symm.trans hget₀)
        simp [EmailJobRow.startAttempt, hsent]
      · rw [hnone] at hget
        cases hget

theorem StaysSent.happens {attempts : List Attempt} (h : StaysSent id attempts s)
    (hs : Happens s s') : StaysSent id attempts s' := by
  have hdeleted : s'.deletedJobs = s.deletedJobs := by cases hs <;> rfl
  have hattempts : s'.attempts = s.attempts := by cases hs <;> rfl
  obtain ⟨eventID, hcommitted⟩ := h.committed
  -- the id has been used, so it is not that of a new job
  have hold : ∀ j', s'.jobs.get (.id id) = some j' → ∃ j, s.jobs.get (.id id) = some j ∧
      j'.status = j.status := by
    intro j' hget'
    rcases hs.job hget' with ⟨_, _, _, _, hfresh⟩ | ⟨j, hget, rfl | ⟨_, _, _, hj'⟩⟩
    · exact absurd rfl (hfresh _ hcommitted)
    · exact ⟨j', hget, rfl⟩
    · exact ⟨j, hget, by rw [setDelivery_eq_some hj']⟩
  refine ⟨⟨eventID, hs.grows.committed hcommitted⟩, ?_, ?_⟩
  · rcases h.sent with ⟨j, hget, hsent⟩ | ⟨hnone, j, hmem, hj⟩
    · obtain ⟨j', hget'⟩ := hs.job_stays hget
      obtain ⟨j₀, hget₀, hstatus⟩ := hold j' hget'
      obtain rfl := Option.some.inj (hget.symm.trans hget₀)
      exact Or.inl ⟨j', hget', hstatus.trans hsent⟩
    · refine Or.inr ⟨?_, j, by rwa [hdeleted], hj⟩
      rw [Option.eq_none_iff_forall_ne_some]
      intro j' hget'
      obtain ⟨j₀, hget₀, _⟩ := hold j' hget'
      rw [hnone] at hget₀
      cases hget₀
  · rw [attemptsOf, hattempts]
    exact h.attempts_eq

end Dispatch

open Dispatch

section Runs

variable (p : Processor) (now : Timestamp)

theorem emailRun_jobsSound (acts : List EmailAction) : JobsSound (emailRun p now acts).shared :=
  (emailDiscipline_kept p).shared_induction (P := JobsSound) (emailDiscipline_initial p now)
    ⟨by simp, by simp⟩ (fun _ _ h => h.serves (serve_serves _ _ _ _))
    (fun h => h.happens (apply_happens _ _)) acts

theorem emailRun_sentByMailer (acts : List EmailAction) :
    SentByMailer p (emailRun p now acts).shared :=
  (emailDiscipline_kept p).shared_induction (P := SentByMailer p) (emailDiscipline_initial p now)
    (by simp [SentByMailer]) (fun _ hreq h => h.serves (serve_serves _ _ _ _) hreq)
    (fun h => h.happens (apply_happens _ _)) acts

theorem emailRun_callsInAttempts (acts : List EmailAction) :
    CallsInAttempts p (emailRun p now acts).shared :=
  (emailDiscipline_kept p).shared_induction (P := CallsInAttempts p) (emailDiscipline_initial p now)
    (by simp [CallsInAttempts]) (fun _ hreq h => h.serves (serve_serves _ _ _ _) hreq)
    (fun h => h.happens (apply_happens _ _)) acts

variable {p now}

theorem emailRun_staysSent {acts : List EmailAction} {id : UUID} {j : EmailJobRow}
    (hget : (emailRun p now acts).shared.jobs.get (.id id) = some j) (hsent : j.status = .sent)
    (acts' : List EmailAction) :
    StaysSent id ((emailRun p now acts).shared.attemptsOf id)
      (emailRun p now (acts ++ acts')).shared :=
  (emailDiscipline_kept p).shared_later (P := StaysSent id _) (emailDiscipline_initial p now) acts
    ⟨(emailRun_jobsSound p now acts).committed hget, Or.inl ⟨j, hget, hsent⟩, rfl⟩
    (fun _ _ h => h.serves (serve_serves _ _ _ _)) (fun h => h.happens (apply_happens _ _)) acts'

end Runs

/-- A sent job has been accepted by the mailer under its provider id. It stays sent until
its row expires, no attempt of it begins any more, and whoever still calls the mailer
for it had begun an attempt before. -/
theorem emailRun_sent (p : Processor) (now : Timestamp) (acts acts' : List EmailAction) (id : UUID)
    (j : EmailJobRow) (hget : (emailRun p now acts).shared.jobs.get (.id id) = some j)
    (hsent : j.status = .sent) :
    (∃ call ∈ (emailRun p now acts).shared.calls, p.parseUUID call.message.jobID = .ok id ∧
      ∃ providerMessageID, j.providerMessageID = some providerMessageID ∧
        call.answer = .ok providerMessageID) ∧
    ((∃ j', (emailRun p now (acts ++ acts')).shared.jobs.get (.id id) = some j' ∧
        j'.status = .sent) ∨
      (emailRun p now (acts ++ acts')).shared.jobs.get (.id id) = none ∧
        ∃ j' ∈ (emailRun p now (acts ++ acts')).shared.deletedJobs, j'.id = id ∧
          j'.status = .sent) ∧
    (emailRun p now (acts ++ acts')).shared.attemptsOf id =
      (emailRun p now acts).shared.attemptsOf id ∧
    (∀ call ∈ (emailRun p now (acts ++ acts')).shared.calls,
      p.parseUUID call.message.jobID = .ok id →
        ∃ a ∈ (emailRun p now acts).shared.attempts, a.worker = call.worker ∧ a.job.id = id) := by
  have hstays := emailRun_staysSent hget hsent acts'
  refine ⟨emailRun_sentByMailer p now acts id j hget hsent, hstays.sent, hstays.attempts_eq, ?_⟩
  intro call hcall hjob
  obtain ⟨a, ha, hworker, hjob'⟩ := emailRun_callsInAttempts p now (acts ++ acts') call hcall
  have hid : a.job.id = id := Except.ok.inj (hjob'.symm.trans hjob)
  have hmem : a ∈ (emailRun p now (acts ++ acts')).shared.attemptsOf id :=
    List.mem_filter.mpr ⟨ha, by simp [hid]⟩
  rw [hstays.attempts_eq] at hmem
  exact ⟨a, List.mem_of_mem_filter hmem, hworker, hid⟩

/-! ## Two deliveries of one task -/

def starts (w : Nat) : List EmailAction :=
  [.start w (.processTaskSendEmail firstTask), .call w {}, .call w {}]

def makesLink (w : Nat) : List EmailAction :=
  [.call w { token := .ok "token" }, .call w { hash := .ok (List.replicate 32 0) }, .call w {}]

def sentByFirst : List EmailAction :=
  .outside (.create firstJob) :: starts 0 ++ starts 1 ++ makesLink 0 ++ makesLink 1 ++
    [.call 0 { mail := .ok "first" }, .call 0 {}]

/-- The job is sent, and the other worker still sends the email once more. -/
theorem sent_twice :
    ((emailRun plainProcessor 0 sentByFirst).shared.jobs.get (.id 1)).map (·.status) =
        some .sent ∧
      ((emailRun plainProcessor 0 sentByFirst).shared.calls.map fun call =>
        (call.worker, call.message.jobID, call.answer.toOption)) =
          [(0, (1 : UUID).text, some "first")] ∧
      ((emailRun plainProcessor 0 (sentByFirst ++ [.call 1 { mail := .ok "second" }])).shared.calls.map
        fun call => (call.worker, call.message.jobID, call.answer.toOption)) =
          [(1, (1 : UUID).text, some "second"), (0, (1 : UUID).text, some "first")] := by
  refine ⟨?_, ?_, ?_⟩ <;> decide +kernel

theorem emailRun_sent_first :
    ∃ j, (emailRun plainProcessor 0 sentByFirst).shared.jobs.get (.id 1) = some j ∧
      j.status = .sent ∧
      (emailRun plainProcessor 0 (sentByFirst ++ [.call 1 { mail := .ok "second" }])).shared.attemptsOf
        1 = (emailRun plainProcessor 0 sentByFirst).shared.attemptsOf 1 := by
  obtain ⟨j, hget, hsent⟩ := Option.map_eq_some_iff.mp (by decide +kernel :
    ((emailRun plainProcessor 0 sentByFirst).shared.jobs.get (.id 1)).map (·.status) = some .sent)
  exact ⟨j, hget, hsent, (emailRun_sent plainProcessor 0 sentByFirst _ 1 j hget hsent).2.2.1⟩

end Monierave
