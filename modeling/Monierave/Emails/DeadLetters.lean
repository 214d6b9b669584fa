import Monierave.Emails.Jobs
import Monierave.Emails.Leases

/-! # Dead letters

A job is given up for a reason, it stays given up, and it can be replayed.
-/

namespace Monierave

open Relational Processes Dispatch

variable {p : Processor} {now : Timestamp} {w v : Nat} {c : Call} {id : UUID}
  {j j' : EmailJobRow}

theorem Dispatch.Changes.markDeadLetter (h : Changes c j j') (hdead' : j'.status = .deadLetter)
    (hdead : j.status ≠ .deadLetter) : ∃ lastError, c = .markEmailJobDeadLetter j.id lastError := by
  cases h with
  | same => exact absurd hdead' hdead
  | edited h =>
    rcases h.eq with rfl | ⟨token, rfl⟩
    · simp only [EmailJobRow.markQueued] at hdead'
      split at hdead'
      · cases hdead'
      · exact absurd hdead' hdead
    · exact absurd hdead' hdead
  | started hc h =>
    rw [(EmailJobRow.startAttempt_eq_some h).1] at hdead'
    cases hdead'
  | ended h =>
    cases h with
    | retrying h =>
      rw [(EmailJobRow.markRetrying_eq_some h).1] at hdead'
      cases hdead'
    | sent now providerMessageID => cases hdead'
    | deadLetter h => exact ⟨_, rfl⟩

/-- A step that gives up a job is a call of a process that has a cause for it, or for
which a call on behalf of a verification token has failed. -/
theorem gives_up {s s' : EmailState} {act : EmailAction} (hforce : (emailDiscipline p).InForce s)
    (hm : (emailSystem p).Moves s act s') (hget' : s'.shared.jobs.get (.id id) = some j')
    (hdead' : j'.status = .deadLetter)
    (hbefore : ∀ j, s.shared.jobs.get (.id id) = some j → j.status ≠ .deadLetter) :
    ∃ w o pr rest, act = .call w o ∧ s.slots w = .busy pr rest ∧
      (DeadLetterCause p w pr id s.shared ∨ w ∈ s.shared.tokenFailures) := by
  cases hm with
  | stay => exact absurd hdead' (hbefore j' hget')
  | start hw => exact absurd hdead' (hbefore j' hget')
  | die hw => exact absurd hdead' (hbefore j' hget')
  | call hact hw =>
    obtain ⟨j, hget, hchanges⟩ := (serve_serves _ _ _ _).job hget'
    obtain ⟨lastError, rfl⟩ := hchanges.markDeadLetter hdead' (hbefore j hget)
    have hreq := hforce.req hw
    rw [EmailJobRow.id_of_get hget] at hreq
    exact ⟨_, _, _, _, hact, hw, hreq⟩
  | outside hact =>
    rcases (apply_happens _ _).job hget' with ⟨new, rfl, _⟩ | ⟨j, hget, rfl | ⟨_, _, _, hj'⟩⟩
    · cases hdead'
    · exact absurd hdead' (hbefore j' hget)
    · rw [EmailJobRow.setDelivery_eq_some hj'] at hdead'
      exact absurd hdead' (hbefore j hget)

/-- A process for which no call on behalf of a token has failed, unless at the job's last
attempt, gives up a job only if the mailer called the error permanent, the job is invalid,
its last attempt has been made or the retries of its task are exhausted. -/
theorem emailRun_deadLetter_cause (p : Processor) (now : Timestamp) (acts : List EmailAction)
    (act : EmailAction) (id : UUID) (j' : EmailJobRow)
    (hget' : (emailRun p now (acts ++ [act])).shared.jobs.get (.id id) = some j')
    (hdead' : j'.status = .deadLetter)
    (hbefore : ∀ j, (emailRun p now acts).shared.jobs.get (.id id) = some j →
      j.status ≠ .deadLetter) :
    ∃ w o pr rest, act = .call w o ∧ (emailRun p now acts).slots w = .busy pr rest ∧
      ((w ∈ (emailRun p now acts).shared.tokenFailures →
          ∃ a ∈ (emailRun p now acts).shared.attempts, a.worker = w ∧ a.job.id = id ∧
            a.job.maxAttempts ≤ a.job.attemptCount) →
        DeadLetterCause p w pr id (emailRun p now acts).shared) := by
  rw [emailRun_snoc] at hget'
  obtain ⟨w, o, pr, rest, hact, hw, hcause⟩ :=
    gives_up ((emailDiscipline_kept p).inForce (emailDiscipline_initial p now) acts)
      ((emailSystem p).step_moves _ act) hget' hdead' hbefore
  refine ⟨w, o, pr, rest, hact, hw, fun hlast => ?_⟩
  rcases hcause with hcause | hfailed
  · exact hcause
  · obtain ⟨a, ha, hworker, hjob, hmax⟩ := hlast hfailed
    exact .lastAttempt ha hworker hjob hmax

def tokenNotStored : List EmailAction :=
  .outside (.create firstJob) :: starts 0 ++
    [.call 0 { token := .ok "token" }, .call 0 { hash := .ok (List.replicate 32 0) },
      .call 0 { fate := .refused, error := "connection reset" }]

/-- The job is given up after one attempt, and there is no cause for it. -/
theorem transient_failure_gives_up :
    ((emailRun plainProcessor 0 tokenNotStored).shared.jobs.get (.id 1)).map (·.status) =
        some .processing ∧
      ((emailRun plainProcessor 0 (tokenNotStored ++ [.call 0 {}])).shared.jobs.get (.id 1)).map
        (fun j => (j.status, j.attemptCount, j.maxAttempts)) = some (.deadLetter, 1, 10) ∧
      ¬ DeadLetterCause plainProcessor 0 (.processTaskSendEmail firstTask) 1
        (emailRun plainProcessor 0 tokenNotStored).shared := by
  refine ⟨by decide +kernel, by decide +kernel, ?_⟩
  have hattempts : ∀ a ∈ (emailRun plainProcessor 0 tokenNotStored).shared.attempts,
      a.job.jobType = emailJobTypeVerifyEmail ∧ a.job.payload = .object [] ∧
        a.job.attemptCount < a.job.maxAttempts := by
    decide +kernel
  intro hcause
  cases hcause with
  | permanent hcall hworker hjob hanswer herr =>
      have hnone : (emailRun plainProcessor 0 tokenNotStored).shared.calls = [] :=
        List.length_eq_zero_iff.mp (by decide +kernel)
      simp [hnone] at hcall
  | invalid ha hworker hjob hinvalid =>
      obtain ⟨htype, hpayload, _⟩ := hattempts _ ha
      rcases hinvalid with ⟨_, hne, _⟩ | ⟨text, htext⟩
      · exact hne htype
      · simp [hpayload] at htext
  | lastAttempt ha hworker hjob hlast => exact absurd (hattempts _ ha).2.2 (not_lt.mpr hlast)
  | retriesExhausted hj hjob hretried => cases hj

def refusedByMailer : List EmailAction :=
  .outside (.create firstJob) :: starts 0 ++ makesLink 0 ++
    [.call 0 { mail := .error ⟨true, "invalid recipient"⟩ }]

theorem emailRun_deadLetter_cause_refused :
    ∃ pr, DeadLetterCause plainProcessor 0 pr 1
      (emailRun plainProcessor 0 refusedByMailer).shared := by
  obtain ⟨j', hget', hdead'⟩ := Option.map_eq_some_iff.mp (by decide +kernel :
    ((emailRun plainProcessor 0 (refusedByMailer ++ [.call 0 {}])).shared.jobs.get (.id 1)).map
      (·.status) = some .deadLetter)
  obtain ⟨w, o, pr, rest, hact, _, hcause⟩ := emailRun_deadLetter_cause plainProcessor 0
    refusedByMailer (.call 0 {}) 1 j' hget' hdead' (by decide +kernel)
  cases hact
  exact ⟨pr, hcause (by decide +kernel)⟩

/-- If the step gives up a job, no other process that still has something to do is in an
attempt of it. -/
def GivesUpAlone (s s' : EmailState) : Prop :=
  ∀ j' ∈ s'.shared.jobs.rows, j'.status = .deadLetter →
    (∀ j ∈ s.shared.jobs.get (.id j'.id), j.status ≠ .deadLetter) →
    ∀ x ∈ s'.shared.inProgress, x.2 = j'.id → (s'.slots x.1).next?.isNone = true

instance (s s' : EmailState) : Decidable (GivesUpAlone s s') :=
  inferInstanceAs (Decidable (∀ j' ∈ s'.shared.jobs.rows, _ → _ → ∀ x ∈ _, _ → _))

def NoAttempts (s : EmailState) : Prop :=
  ∀ w id j, s.shared.jobs.get (.id id) = some j → j.status = .deadLetter →
    (w, id) ∈ s.shared.inProgress → (s.slots w).next? = none

theorem Dispatch.Serves.inProgress_of_mem {s s' : Dispatch} (h : Serves w c s s')
    (hmem : (v, id) ∈ s'.inProgress) : (v, id) ∈ s.inProgress ∨
      v = w ∧ ∃ j j', s.jobs.get (.id id) = some j ∧ j.startAttempt = some j' := by
  cases h with
  | started hc hget hj' hclash =>
    rcases List.mem_cons.mp hmem with heq | hold
    · obtain ⟨rfl, rfl⟩ := Prod.mk.inj heq
      exact Or.inr ⟨rfl, _, _, hget, hj'⟩
    · exact Or.inl hold
  | ended hc hget hclash => exact Or.inl (List.mem_of_mem_filter hmem)
  | _ => exact Or.inl hmem

theorem Dispatch.Happens.inProgress_eq {s s' : Dispatch} (h : Happens s s') :
    s'.inProgress = s.inProgress := by
  cases h <;> rfl

theorem NoAttempts.of_given_up {s s' : EmailState} {act : EmailAction} (h : NoAttempts s)
    (hforce : (emailDiscipline p).InForce s) (hm : (emailSystem p).Moves s act s') (hget : s.shared.jobs.get (.id id) = some j)
    (hdead : j.status = .deadLetter) (hmem : (v, id) ∈ s'.shared.inProgress) :
    (s'.slots v).next? = none := by
  cases hm with
  | stay => exact h v id j hget hdead hmem
  | start hw =>
    rename_i w pr
    have hv : v ≠ w := by
      rintro rfl
      exact hforce.fresh v hw id hmem
    simpa [State.setSlot, hv] using h v id j hget hdead hmem
  | call hact hw =>
    rename_i w o pr c k
    rcases (serve_serves _ _ _ _).inProgress_of_mem hmem with hold | ⟨_, j₀, j₁, hget₀, hstart⟩
    · have hnone := h v id j hget hdead hold
      have hv : v ≠ w := by
        rintro rfl
        rw [hw] at hnone
        cases hnone
      simpa [System.answer, hv] using hnone
    · obtain rfl := Option.some.inj (hget.symm.trans hget₀)
      exact absurd hdead (EmailJobRow.startAttempt_eq_some hstart).2.2
  | die hw =>
    rename_i w pr rest
    by_cases hv : v = w
    · subst hv
      simp [State.setSlot, Slot.next?]
    · simpa [State.setSlot, hv] using h v id j hget hdead hmem
  | outside hact =>
    refine h v id j hget hdead ?_
    rwa [← (apply_happens _ _).inProgress_eq]

theorem NoAttempts.moves {s s' : EmailState} {act : EmailAction} (h : NoAttempts s)
    (hforce : (emailDiscipline p).InForce s) (hm : (emailSystem p).Moves s act s')
    (halone : GivesUpAlone s s') : NoAttempts s' := by
  intro v id j' hget' hdead' hmem
  by_cases hbefore : ∀ j ∈ s.shared.jobs.get (.id id), j.status ≠ .deadLetter
  · rw [← EmailJobRow.id_of_get hget'] at hbefore hmem
    exact Option.isNone_iff_eq_none.mp
      (halone j' (Table.mem_of_get hget') hdead' hbefore _ hmem rfl)
  · simp only [not_forall, not_not] at hbefore
    obtain ⟨j, hget, hdead⟩ := hbefore
    exact h.of_given_up hforce hm hget hdead hmem

structure StaysGivenUp (id : UUID) (s : Dispatch) : Prop where
  committed : ∃ eventID, (eventID, id) ∈ s.committed
  status : ∀ j, s.jobs.get (.id id) = some j → j.status = .deadLetter ∨ j.status = .sent

theorem Dispatch.Changes.givenUp (h : Changes c j j')
    (hstatus : j.status = .deadLetter ∨ j.status = .sent)
    (hretrying : ∀ lastError, c = .markEmailJobRetrying j.id lastError → j.status ≠ .deadLetter) :
    j'.status = .deadLetter ∨ j'.status = .sent := by
  cases h with
  | same => exact hstatus
  | edited h =>
    rcases h.eq with rfl | ⟨token, rfl⟩
    · have hpending : j.status ≠ .pending := by
        rcases hstatus with h | h <;> simp [h]
      simpa [EmailJobRow.markQueued, hpending] using hstatus
    · exact hstatus
  | started hc h =>
    obtain ⟨_, hsent, hdead⟩ := EmailJobRow.startAttempt_eq_some h
    exact (hstatus.elim hdead hsent).elim
  | ended h =>
    cases h with
    | retrying h =>
      exact (hstatus.elim (hretrying _ rfl) (EmailJobRow.markRetrying_eq_some h).2).elim
    | sent now providerMessageID => exact Or.inr rfl
    | deadLetter h => exact Or.inl (by rw [(EmailJobRow.markDeadLetter_eq_some h).1])

theorem StaysGivenUp.moves {s s' : EmailState} {act : EmailAction} (h : StaysGivenUp id s.shared)
    (hforce : (emailDiscipline p).InForce s) (hno : NoAttempts s)
    (hm : (emailSystem p).Moves s act s') : StaysGivenUp id s'.shared := by
  obtain ⟨eventID, hcommitted⟩ := h.committed
  cases hm with
  | stay => exact h
  | start hw => exact h
  | die hw => exact h
  | call hact hw =>
    rename_i w o pr c k
    have hs := serve_serves w o c s.shared
    refine ⟨⟨eventID, hs.grows.committed hcommitted⟩, fun j' hget' => ?_⟩
    obtain ⟨j, hget, hchanges⟩ := hs.job hget'
    refine hchanges.givenUp (h.status j hget) fun lastError hc hdead => ?_
    -- whoever reports a failed attempt is in one
    subst hc
    have hreq : (w, j.id) ∈ s.shared.inProgress := hforce.req hw
    rw [EmailJobRow.id_of_get hget] at hreq
    have hnone := hno w id j hget hdead hreq
    rw [hw] at hnone
    cases hnone
  | outside hact =>
    rename_i event
    have hs := apply_happens event s.shared
    refine ⟨⟨eventID, hs.grows.committed hcommitted⟩, fun j' hget' => ?_⟩
    rcases hs.job hget' with ⟨_, _, _, _, hfresh⟩ | ⟨j, hget, rfl | ⟨_, _, _, hj'⟩⟩
    · exact absurd rfl (hfresh _ hcommitted)
    · exact h.status j' hget
    · rw [EmailJobRow.setDelivery_eq_some hj']
      exact h.status j hget

def RunGivesUpAlone (p : Processor) (now : Timestamp) (acts : List EmailAction) : Prop :=
  (emailSystem p).EveryStep GivesUpAlone (State.init { now := now }) acts

theorem emailRun_noAttempts {acts : List EmailAction} (halone : RunGivesUpAlone p now acts) :
    NoAttempts (emailRun p now acts) := by
  induction acts using List.reverseRecOn with
  | nil => simp [NoAttempts, emailRun, State.init]
  | append_singleton acts act ih =>
    have hlast := System.EveryStep.last halone
    rw [emailRun_snoc]
    exact (ih (System.EveryStep.left halone)).moves
      ((emailDiscipline_kept p).inForce (emailDiscipline_initial p now) acts)
      ((emailSystem p).step_moves _ act) hlast

/-- As long as jobs are given up only while no other attempt of them is under way, a job
that was given up never becomes pending, queued, processing or retrying again. -/
theorem emailRun_deadLetter_stays (p : Processor) (now : Timestamp) (acts acts' : List EmailAction)
    (halone : RunGivesUpAlone p now (acts ++ acts')) (id : UUID) (j j' : EmailJobRow)
    (hget : (emailRun p now acts).shared.jobs.get (.id id) = some j)
    (hdead : j.status = .deadLetter)
    (hget' : (emailRun p now (acts ++ acts')).shared.jobs.get (.id id) = some j') :
    j'.status = .deadLetter ∨ j'.status = .sent := by
  have hstays : StaysGivenUp id (emailRun p now (acts ++ acts')).shared := by
    clear hget'
    induction acts' using List.reverseRecOn with
    | nil =>
        rw [List.append_nil]
        refine ⟨(emailRun_jobsSound p now acts).committed hget, fun j₀ hget₀ => Or.inl ?_⟩
        rwa [← Option.some.inj (hget.symm.trans hget₀)]
    | append_singleton acts' act ih =>
        rw [← List.append_assoc] at halone ⊢
        have hpre : RunGivesUpAlone p now (acts ++ acts') := System.EveryStep.left halone
        rw [emailRun_snoc]
        exact (ih hpre).moves ((emailDiscipline_kept p).inForce (emailDiscipline_initial p now) _)
          (emailRun_noAttempts hpre) ((emailSystem p).step_moves _ act)
  exact hstays.status j' hget'

/-- Two workers are in an attempt of the job; the mailer refuses the email of the first
one for good, and the job is given up. -/
def givenUpByFirst : List EmailAction :=
  .outside (.create firstJob) :: starts 0 ++ starts 1 ++ makesLink 0 ++ makesLink 1 ++
    [.call 0 { mail := .error ⟨true, "invalid recipient"⟩ }, .call 0 {}]

/-- The mailer of the second one is not available, and the job is to be tried again. -/
theorem given_up_then_retrying :
    ((emailRun plainProcessor 0 givenUpByFirst).shared.jobs.get (.id 1)).map (·.status) =
        some .deadLetter ∧
      ((emailRun plainProcessor 0 (givenUpByFirst ++
        [.call 1 { mail := .error ⟨false, "unavailable"⟩ }, .call 1 {}])).shared.jobs.get
          (.id 1)).map (·.status) = some .retrying := by
  refine ⟨?_, ?_⟩ <;> decide +kernel

theorem emailRun_deadLetter_stays_refused :
    RunGivesUpAlone plainProcessor 0 (refusedByMailer ++ [.call 0 {}] ++ starts 1) ∧
      ∃ j j', (emailRun plainProcessor 0 (refusedByMailer ++ [.call 0 {}])).shared.jobs.get (.id 1) =
          some j ∧ j.status = .deadLetter ∧
        (emailRun plainProcessor 0 (refusedByMailer ++ [.call 0 {}] ++ starts 1)).shared.jobs.get
          (.id 1) = some j' ∧ (j'.status = .deadLetter ∨ j'.status = .sent) := by
  have halone : RunGivesUpAlone plainProcessor 0 (refusedByMailer ++ [.call 0 {}] ++ starts 1) :=
    .of_take (by decide +kernel)
  obtain ⟨j, hget, hdead⟩ := Option.map_eq_some_iff.mp (by decide +kernel :
    ((emailRun plainProcessor 0 (refusedByMailer ++ [.call 0 {}])).shared.jobs.get (.id 1)).map
      (·.status) = some .deadLetter)
  obtain ⟨j', hget'⟩ := Option.isSome_iff_exists.mp (by decide +kernel :
    ((emailRun plainProcessor 0 (refusedByMailer ++ [.call 0 {}] ++ starts 1)).shared.jobs.get
      (.id 1)).isSome = true)
  exact ⟨halone, j, j', hget, hdead, hget',
    emailRun_deadLetter_stays plainProcessor 0 _ _ halone 1 j j' hget hdead hget'⟩

/-- From `s` to `s'` exactly one job and one event have come: a pending job like the
original one and linked to it, and a pending event for it like that of the original. -/
structure Replayed (original : EmailJobRow) (s s' : Dispatch) : Prop where
  created : ∃ job event, s.jobs.conflict job = none ∧ s.outbox.conflict event = none ∧
    s'.jobs = s.jobs.insert job ∧ s'.outbox = s.outbox.insert event ∧
    job.status = .pending ∧ job.recipient = original.recipient ∧
    job.jobType = original.jobType ∧ job.payload = original.payload ∧
    job.parentJobID = some original.id ∧ event.emailJobID = job.id ∧ event.status = .pending ∧
    ∀ e, s.outbox.get (.emailJobID original.id) = some e → event.eventType = e.eventType ∧
      event.entityType = e.entityType ∧ event.entityID = e.entityID ∧
      event.correlationID = e.correlationID

theorem not_replayed_self (original : EmailJobRow) (s : Dispatch) : ¬ Replayed original s s := by
  rintro ⟨job, event, hjob, _, heq, _⟩
  have hmem : job ∈ (s.jobs.insert job).rows := (Table.mem_insert hjob).mpr (Or.inr rfl)
  rw [← heq] at hmem
  have hget := EmailJobRow.get_of_mem hmem
  rw [Table.conflict_eq_none.mp hjob (.id job.id) (by simp)] at hget
  cases hget

theorem create_of_fresh {s : Dispatch} (new : NewJob) (hsound : Sound s) (hjobs : JobsSound s)
    (hfresh : ∀ q ∈ s.committed, q.1 ≠ new.eventID ∧ q.2 ≠ new.jobID)
    (hmax : 0 < new.maxAttempts) :
    s.jobs.conflict (new.row s.now) = none ∧ s.outbox.conflict (new.event s.now) = none ∧
      s.create new = { s with
        jobs := s.jobs.insert (new.row s.now)
        outbox := s.outbox.insert (new.event s.now)
        committed := (new.eventID, new.jobID) :: s.committed } := by
  have hjob : s.jobs.conflict (new.row s.now) = none := by
    rw [Table.conflict_eq_none]
    intro k hk
    have hk : k = .id new.jobID := by simpa [keys, NewJob.row] using hk
    rw [hk, Option.eq_none_iff_forall_ne_some]
    intro j hget
    obtain ⟨eventID, hmem⟩ := hjobs.committed hget
    exact (hfresh _ hmem).2 rfl
  have hevent : s.outbox.conflict (new.event s.now) = none := by
    rw [Table.conflict_eq_none]
    intro k hk
    rw [Option.eq_none_iff_forall_ne_some]
    intro e hget
    have hmem := hsound.committed e (Table.mem_of_get hget)
    have hkey := Table.key_of_get hget
    have hk : k = .id new.eventID ∨ k = .emailJobID new.jobID := by
      simpa [keys, NewJob.event] using hk
    rcases hk with rfl | rfl
    · exact (hfresh _ hmem).1 (OutboxRow.id_mem_keys.mp hkey).symm
    · have hjobID : new.jobID = e.emailJobID := by simpa [keys] using hkey
      exact (hfresh _ hmem).2 hjobID.symm
  refine ⟨hjob, hevent, ?_⟩
  unfold create
  rw [if_pos ⟨hjob, hevent, hfresh, hmax⟩]

theorem replay_of_no_event {s : Dispatch} (hget : s.jobs.get (.id id) = some j)
    (hnone : s.outbox.get (.emailJobID id) = none) (newJobID newEventID : UUID) :
    s.replayEmailJobTx id newJobID newEventID = s := by
  simp [replayEmailJobTx, hget, EmailJobRow.id_of_get hget, hnone]

/-- A replay of a job that was given up succeeds if and only if the outbox event of the
job is still stored. -/
theorem emailRun_replay_iff (p : Processor) (now : Timestamp) (acts : List EmailAction)
    (id newJobID newEventID : UUID) (j : EmailJobRow)
    (hget : (emailRun p now acts).shared.jobs.get (.id id) = some j)
    (hdead : j.status = .deadLetter)
    (hfresh : ∀ q ∈ (emailRun p now acts).shared.committed, q.1 ≠ newEventID ∧ q.2 ≠ newJobID) :
    Replayed j (emailRun p now acts).shared
        ((emailRun p now acts).shared.replayEmailJobTx id newJobID newEventID) ↔
      ∃ e, (emailRun p now acts).shared.outbox.get (.emailJobID id) = some e := by
  have hid := EmailJobRow.id_of_get hget
  cases hevent : (emailRun p now acts).shared.outbox.get (.emailJobID id) with
  | none =>
      rw [replay_of_no_event hget hevent]
      simp [not_replayed_self]
  | some e =>
      refine ⟨fun _ => ⟨e, rfl⟩, fun _ => ?_⟩
      have hcreate : (emailRun p now acts).shared.replayEmailJobTx id newJobID newEventID =
          (emailRun p now acts).shared.create (.replay j e newJobID newEventID) := by
        simp [replayEmailJobTx, hget, hdead, hid, hevent]
      have hjobs := emailRun_jobsSound p now acts
      obtain ⟨hjob, hnew, hcreated⟩ := create_of_fresh (.replay j e newJobID newEventID)
        (emailRun_sound p now acts) hjobs hfresh (hjobs.maxAttempts hget)
      rw [hcreate, hcreated]
      refine ⟨_, _, hjob, hnew, rfl, rfl, rfl, rfl, rfl, rfl, rfl, rfl, rfl, fun e' he' => ?_⟩
      rw [hid, hevent] at he'
      obtain rfl := Option.some.inj he'
      exact ⟨rfl, rfl, rfl, rfl⟩

/-- The event is published, the mailer refuses the email for good, and a week later a
relay deletes the event. -/
def eventExpires : List EmailAction :=
  .outside (.create firstJob) :: claims 1 "a" ++ publishes 1 ++ starts 0 ++ makesLink 0 ++
    [.call 0 { mail := .error ⟨true, "invalid recipient"⟩ }, .call 0 {},
      seconds (8 * 24 * 3600), .start 2 (.relay (defaultRelay "a") [.cleanup]), .call 2 {}, .call 2 {},
      .call 2 {}, .call 2 {}]

/-- The job was given up and is still stored, and it cannot be replayed. -/
theorem given_up_not_replayable :
    ∃ j, (emailRun plainProcessor 0 eventExpires).shared.jobs.get (.id 1) = some j ∧
      j.status = .deadLetter ∧
      (∀ q ∈ (emailRun plainProcessor 0 eventExpires).shared.committed, q.1 ≠ 4 ∧ q.2 ≠ 3) ∧
      ¬ Replayed j (emailRun plainProcessor 0 eventExpires).shared
        ((emailRun plainProcessor 0 eventExpires).shared.replayEmailJobTx 1 3 4) := by
  obtain ⟨j, hget, hdead⟩ := Option.map_eq_some_iff.mp (by decide +kernel :
    ((emailRun plainProcessor 0 eventExpires).shared.jobs.get (.id 1)).map (·.status) =
      some .deadLetter)
  refine ⟨j, hget, hdead, by decide +kernel, ?_⟩
  have hnone : (emailRun plainProcessor 0 eventExpires).shared.outbox.get (.emailJobID 1) = none :=
    by decide +kernel
  rw [replay_of_no_event hget hnone]
  exact not_replayed_self j _

theorem emailRun_replay_iff_refused :
    ∃ j, (emailRun plainProcessor 0 (refusedByMailer ++ [.call 0 {}])).shared.jobs.get (.id 1) =
        some j ∧ j.status = .deadLetter ∧
      Replayed j (emailRun plainProcessor 0 (refusedByMailer ++ [.call 0 {}])).shared
        ((emailRun plainProcessor 0 (refusedByMailer ++ [.call 0 {}])).shared.replayEmailJobTx
          1 3 4) := by
  obtain ⟨j, hget, hdead⟩ := Option.map_eq_some_iff.mp (by decide +kernel :
    ((emailRun plainProcessor 0 (refusedByMailer ++ [.call 0 {}])).shared.jobs.get (.id 1)).map
      (·.status) = some .deadLetter)
  have hevent := Option.isSome_iff_exists.mp (by decide +kernel :
    ((emailRun plainProcessor 0 (refusedByMailer ++ [.call 0 {}])).shared.outbox.get
      (.emailJobID 1)).isSome = true)
  exact ⟨j, hget, hdead, (emailRun_replay_iff plainProcessor 0 _ 1 3 4 j hget hdead
    (by decide +kernel)).mpr hevent⟩

end Monierave
