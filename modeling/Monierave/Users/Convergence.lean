import Mathlib.Data.Finset.Insert
import Mathlib.Data.Fintype.Defs
import Monierave.Banking.System
import Monierave.Users.Delivery

/-! # The delivery status in the end

The provider's reports about one message come in any order and some of them more
than once, and the worker may record at any moment that the message was accepted.
-/

namespace Monierave

open Relational ReadCommitted Prog Timestamped

/-! ## Transitions -/

def mayFollow (current next : EmailDeliveryStatus) : Bool :=
  canApplyEmailDeliveryTransition current next none 0

theorem canApply_eq (current next : EmailDeliveryStatus) (at_ : Option Timestamp) (t : Timestamp) :
    canApplyEmailDeliveryTransition current next at_ t =
      (at_.all (fun at_ => decide (at_ < t)) && mayFollow current next) := by
  unfold mayFollow canApplyEmailDeliveryTransition
  by_cases hsame : current = next
  · simp [hsame]
  · cases at_ with
    | none => simp [hsame]
    | some at_ =>
      by_cases hlt : at_ < t
      · simp [hsame, hlt]
      · simp [hsame, hlt]

instance : Fintype EmailDeliveryStatus where
  elems := {.pending, .accepted, .delivered, .delayed, .bounced, .failed, .suppressed, .complained}
  complete s := by cases s <;> decide

theorem ordered_mayFollow : Ordered mayFollow .pending .accepted where
  trans {a b c} := by revert a b c; decide
  irrefl a := by revert a; decide
  preset {a} := by revert a; decide
  before {a} := by revert a; decide

def EmailJob.register (j : EmailJob) : Register EmailDeliveryStatus Timestamp :=
  ⟨j.deliveryStatus, j.deliveryEventAt⟩

theorem EmailJob.register_markSent (p : String) (j : EmailJob) :
    (j.markSent p).register = j.register.preset .accepted := by
  cases h : j.deliveryEventAt <;> simp [register, markSent, Register.preset, h]

namespace ProcessEmailDeliveryEventParams

def stamp (arg : ProviderReport) : Report EmailDeliveryStatus Timestamp :=
  ⟨arg.deliveryStatus.getD .pending, arg.occurredAt⟩

variable {arg : ProviderReport} {job : EmailJob} {status : EmailDeliveryStatus}

theorem newStatus_eq_some : arg.newStatus job = some status ↔
    arg.deliveryStatus = some status ∧ job.register.admits mayFollow arg.stamp = true := by
  rw [newStatus, Option.filter_eq_some_iff]
  refine and_congr_right fun h => ?_
  rw [canApply_eq]
  simp [Register.admits, EmailJob.register, stamp, h]

theorem register_reported (h : arg.newStatus job = some status) :
    (arg.reported job status).register = job.register.take mayFollow arg.stamp := by
  obtain ⟨hstatus, hadmits⟩ := newStatus_eq_some.mp h
  rw [Register.take_of_admits hadmits]
  simp [EmailJob.register, reported, stamp, hstatus]

theorem register_of_newStatus_none (h : arg.newStatus job = none)
    (hstatus : arg.deliveryStatus = some status) :
    job.register.take mayFollow arg.stamp = job.register := by
  apply Register.take_of_not_admits
  intro hadmits
  rw [newStatus_eq_some.mpr ⟨hstatus, hadmits⟩] at h
  cases h

end ProcessEmailDeliveryEventParams

open ProcessEmailDeliveryEventParams (stamp reported outcome register_reported register_of_newStatus_none
  deliver_of_recorded)

/-! ## Histories -/

/-- What the provider reports about one message: the times increase, and each status
is one the code lets follow the one before, starting from pending. -/
structure DeliveryHistory (es : List ProviderReport) : Prop where
  first : ∀ e ∈ es.head?, ∃ s, e.deliveryStatus = some s ∧
    canApplyEmailDeliveryTransition .pending s none e.occurredAt = true
  steps : es.IsChain fun e e' => e.occurredAt < e'.occurredAt ∧
    ∃ s s', e.deliveryStatus = some s ∧ e'.deliveryStatus = some s' ∧
      canApplyEmailDeliveryTransition s s' (some e.occurredAt) e'.occurredAt = true

variable {es done : List ProviderReport}

theorem DeliveryHistory.history (h : DeliveryHistory es) :
    History mayFollow .pending (es.map stamp) where
  first := by
    intro r hr
    rw [List.head?_map, Option.mem_map] at hr
    obtain ⟨e, he, rfl⟩ := hr
    obtain ⟨s, hs, hcan⟩ := h.first e he
    rw [canApply_eq] at hcan
    simpa [stamp, hs] using hcan
  steps := by
    rw [List.isChain_map]
    refine h.steps.imp ?_
    rintro e e' ⟨hlt, s, s', hs, hs', hcan⟩
    rw [canApply_eq, Bool.and_eq_true] at hcan
    exact ⟨hlt, by simpa [stamp, hs, hs'] using hcan.2⟩

theorem DeliveryHistory.status (h : DeliveryHistory es) {e : ProviderReport}
    (he : e ∈ es) : ∃ s, e.deliveryStatus = some s := by
  have hfollows := h.history.follows_start ordered_mayFollow (List.mem_map_of_mem he)
  cases hs : e.deliveryStatus with
  | some s => exact ⟨s, rfl⟩
  | none =>
    simp only [stamp, hs, Option.getD_none] at hfollows
    exact absurd hfollows (by decide)

/-! ## Deliveries -/

/-- One call of the store: a report comes in, or the worker records that the message
has been accepted. -/
inductive DeliveryStep
  | report (env : Env) (arg : ProviderReport)
  | markSent (now : Timestamp)

def DeliveryStep.apply (id : UUID) (p : String) : DeliveryStep → DB → DB
  | report env arg, db => db.deliver env arg
  | markSent now, db => db.markSent now id p

def DB.afterDeliveries (id : UUID) (p : String) (db : DB) (steps : List DeliveryStep) : DB :=
  steps.foldl (fun db step => step.apply id p db) db

theorem DB.afterDeliveries_snoc (id : UUID) (p : String) (db : DB) (steps : List DeliveryStep)
    (step : DeliveryStep) :
    db.afterDeliveries id p (steps ++ [step]) = step.apply id p (db.afterDeliveries id p steps) := by
  simp [DB.afterDeliveries]

/-- The job before the first report about it. No other job has the message's id, the
reports name the job as long as it has no id itself, no report has come in yet and
different reports have different webhook ids. The rows of the users satisfy the
checks of their table. -/
structure Awaits (db : DB) (job : EmailJob) (p : String)
    (es : List ProviderReport) : Prop where
  row : db.emailJobs.get (.id job.id) = some job
  pending : job.deliveryStatus = .pending
  never : job.deliveryEventAt = none
  only : ∀ j, db.emailJobs.get (.providerMessageID p) = some j → j.id = job.id
  message : ∀ e ∈ es, e.providerMessageID = p
  named : job.providerMessageID = some p ∨
    (job.providerMessageID = none ∧ ∀ e ∈ es, e.jobID = some job.id)
  fresh : ∀ e ∈ es, db.emailDeliveryEvents.get (.webhookID e.webhookID) = none
  distinct : ∀ e ∈ es, ∀ e' ∈ es, e.webhookID = e'.webhookID → e = e'
  users : ∀ u ∈ db.users.rows, u.violated = none

/-- Each report comes in at least once. Whatever else comes in repeats the webhook id
of a report that has come in before. -/
structure Delivers (es : List ProviderReport) (steps : List DeliveryStep) :
    Prop where
  all : ∀ e ∈ es, ∃ env, .report env e ∈ steps
  genuine : ∀ before env arg after, steps = before ++ .report env arg :: after →
    arg ∈ es ∨ ∃ env' e, .report env' e ∈ before ∧ e ∈ es ∧ e.webhookID = arg.webhookID

/-- The job after some of the reports, `done`, have come in. -/
structure Following (db : DB) (id : UUID) (p : String)
    (es done : List ProviderReport) : Prop where
  job : ∃ j, db.emailJobs.get (.id id) = some j ∧
    (j.providerMessageID = some p ∨ (j.providerMessageID = none ∧ ∀ e ∈ es, e.jobID = some id)) ∧
    Tracks .pending .accepted (es.map stamp)
      (done.map stamp) j.register
  only : ∀ j, db.emailJobs.get (.providerMessageID p) = some j → j.id = id
  recorded : ∀ e ∈ es, (db.emailDeliveryEvents.get (.webhookID e.webhookID)).isSome = true ↔
    e ∈ done
  users : ∀ u ∈ db.users.rows, u.violated = none

variable {db : DB} {job : EmailJob} {id : UUID} {p : String} {arg : ProviderReport}

theorem Awaits.following (h : Awaits db job p es) : Following db job.id p es [] where
  job := ⟨job, h.row, h.named, .unset (by simp [EmailJob.register, h.pending, h.never]) rfl⟩
  only := h.only
  recorded e he := by simp [h.fresh e he]
  users := h.users

theorem only_amend {j : EmailJob} {t : Table EmailJob} (j' : EmailJob) (hrow : t.get (.id j.id) = some j)
    (hid : j'.id = j.id) (hclash : t.clash j' = none)
    (honly : ∀ k, t.get (.providerMessageID p) = some k → k.id = j.id) :
    (t.amend j j').get (.id j.id) = some j' ∧
      ∀ k, (t.amend j j').get (.providerMessageID p) = some k → k.id = j.id := by
  have hpk : t.get (pk j') = some j := by
    show t.get (.id j'.id) = some j
    rw [hid]
    exact hrow
  constructor
  · have hget := Table.get_pk_amend (a := j') ⟨hpk, hclash⟩
    rw [if_pos rfl] at hget
    rw [← hid]
    exact hget
  · intro k hk
    rw [Table.amend_eq hpk] at hk
    obtain ⟨hmem, hkey⟩ := Table.get_eq_some.mp hk
    rcases (Table.mem_update hclash hpk).mp hmem with rfl | ⟨hmem, _⟩
    · exact hid
    · exact honly k (Table.get_key hmem hkey)

theorem Following.concerns (h : Following db id p es done) {j : EmailJob}
    (hrow : db.emailJobs.get (.id id) = some j)
    (hnamed : j.providerMessageID = some p ∨
      (j.providerMessageID = none ∧ ∀ e ∈ es, e.jobID = some id))
    (harg : arg ∈ es) (hp : arg.providerMessageID = p) : arg.Concerns db j := by
  have hid : j.id = id := EmailJob.id_of_get hrow
  subst hid hp
  exact ⟨hrow, h.only, hnamed.imp_right fun hn => ⟨hn.1, hn.2 arg harg⟩⟩

theorem Following.report (h : Following db id p es done) (hist : DeliveryHistory es)
    (hmsg : ∀ e ∈ es, e.providerMessageID = p)
    (hdistinct : ∀ e ∈ es, ∀ e' ∈ es, e.webhookID = e'.webhookID → e = e') (harg : arg ∈ es)
    (env : Env) : Following (db.deliver env arg) id p es (arg :: done) := by
  obtain ⟨j, hrow, hnamed, htracks⟩ := h.job
  obtain rfl : j.id = id := EmailJob.id_of_get hrow
  have hc := h.concerns hrow hnamed harg (hmsg arg harg)
  obtain ⟨status, hstatus⟩ := hist.status harg
  have hstamp : arg.stamp ∈ es.map stamp := List.mem_map_of_mem harg
  have hrecorded : ∀ e ∈ es, ((db.deliver env arg).emailDeliveryEvents.get
      (.webhookID e.webhookID)).isSome = true ↔ e ∈ arg :: done := by
    intro e he
    rw [hc.recorded_deliver h.users, h.recorded e he, List.mem_cons]
    exact or_congr_left ⟨fun hid => hdistinct e he arg harg hid, fun heq => heq ▸ rfl⟩
  have hjobs := hc.emailJobs_deliver h.users env
  cases hout : arg.outcome j db with
  | some new =>
    -- the report is taken over
    have hnew : arg.newStatus j = some new := by
      unfold outcome at hout
      split at hout
      · cases hout
      · exact hout
    simp only [hout] at hjobs
    obtain ⟨hrow', honly'⟩ := only_amend (arg.reported j new) hrow rfl (hc.clash new) h.only
    rw [← hjobs] at hrow' honly'
    refine ⟨⟨_, hrow', Or.inl ?_, ?_⟩, honly', hrecorded, hc.checked_deliver h.users env⟩
    · rcases hnamed with hp | ⟨hnone, _⟩
      · simp [reported, hp]
      · simp [reported, hnone, hmsg arg harg]
    · rw [register_reported hnew]
      exact htracks.take hist.history ordered_mayFollow hstamp
  | none =>
    simp only [hout] at hjobs
    have honly := h.only
    rw [← hjobs] at hrow honly
    refine ⟨⟨j, hrow, hnamed, ?_⟩, honly, hrecorded, hc.checked_deliver h.users env⟩
    cases hget : db.emailDeliveryEvents.get (.webhookID arg.webhookID) with
    | some e =>
      -- it is a repetition
      have hdone : arg ∈ done := (h.recorded arg harg).mp (by simp [hget])
      exact htracks.again (List.mem_map_of_mem hdone)
    | none =>
      have hnew : arg.newStatus j = none := by
        simpa [outcome, hget] using hout
      rw [← register_of_newStatus_none hnew hstatus]
      exact htracks.take hist.history ordered_mayFollow hstamp

theorem Following.markSent (h : Following db id p es done) (now : Timestamp) :
    Following (db.markSent now id p) id p es done := by
  obtain ⟨j, hrow, hnamed, htracks⟩ := h.job
  obtain rfl : j.id = id := EmailJob.id_of_get hrow
  have hclash : db.emailJobs.clash (j.markSent p) = none := by
    refine EmailJob.clash_of_keys hrow rfl h.only fun k hk => ?_
    simp only [keys, EmailJob.markSent, Option.toList_some, List.map_cons, List.map_nil,
      List.cons_append, List.nil_append, List.mem_cons, List.mem_append] at hk ⊢
    tauto
  obtain ⟨hrow', honly'⟩ := only_amend (j.markSent p) hrow rfl hclash h.only
  obtain ⟨hjobs, hevents, husers⟩ := DB.markSent_tables now hrow hclash
  rw [← hjobs] at hrow' honly'
  refine ⟨⟨_, hrow', Or.inl rfl, ?_⟩, honly', ?_, ?_⟩
  · rw [EmailJob.register_markSent]
    exact htracks.of_preset
  · rw [hevents]
    exact h.recorded
  · rw [husers]
    exact h.users

/-! ## The last report -/

theorem Awaits.following_deliveries {steps : List DeliveryStep} (h : Awaits db job p es)
    (hist : DeliveryHistory es)
    (hgenuine : ∀ before env arg after, steps = before ++ .report env arg :: after →
      arg ∈ es ∨ ∃ env' e, .report env' e ∈ before ∧ e ∈ es ∧ e.webhookID = arg.webhookID) :
    ∃ done, Following (db.afterDeliveries job.id p steps) job.id p es done ∧
      ∀ e ∈ es, (∃ env, .report env e ∈ steps) → e ∈ done := by
  induction steps using List.reverseRecOn with
  | nil => exact ⟨[], h.following, by simp⟩
  | append_singleton steps step ih =>
    obtain ⟨done, hfollow, hdone⟩ := ih fun before env arg after heq =>
      hgenuine before env arg (after ++ [step]) (by simp [heq])
    rw [DB.afterDeliveries_snoc]
    cases step with
    | markSent now =>
      refine ⟨done, hfollow.markSent now, fun e he => ?_⟩
      simpa using hdone e he
    | report env arg =>
      rcases hgenuine steps env arg [] rfl with harg | ⟨env', e, hmem, he, hid⟩
      · refine ⟨arg :: done, hfollow.report hist h.message h.distinct harg env, ?_⟩
        rintro e he ⟨env', hmem⟩
        rcases List.mem_append.mp hmem with hmem | hmem
        · exact List.mem_cons_of_mem arg (hdone e he ⟨env', hmem⟩)
        · cases List.mem_singleton.mp hmem
          exact List.mem_cons_self
      · -- the webhook id has been recorded
        have hrecorded := (hfollow.recorded e he).mpr (hdone e he ⟨env', hmem⟩)
        rw [hid] at hrecorded
        obtain ⟨event, hevent⟩ := Option.isSome_iff_exists.mp hrecorded
        refine ⟨done, ?_, ?_⟩
        · show Following (DB.deliver env arg (db.afterDeliveries job.id p steps)) job.id p es done
          rw [deliver_of_recorded hevent]
          exact hfollow
        · rintro e' he' ⟨env'', hmem'⟩
          rcases List.mem_append.mp hmem' with hmem' | hmem'
          · exact hdone e' he' ⟨env'', hmem'⟩
          · cases List.mem_singleton.mp hmem'
            rw [h.distinct _ he' e he hid.symm]
            exact hdone e he ⟨env', hmem⟩

/-- Once every report of a history has come in, in any order, with any repetitions and
with the acceptance recorded at any moment, the job has the status of the last
report. -/
theorem deliveries_converge (db : DB) (job : EmailJob) (p : String)
    (es : List ProviderReport) (last : ProviderReport)
    (steps : List DeliveryStep) (h : Awaits db job p es) (hist : DeliveryHistory es)
    (hlast : es.getLast? = some last) (hsteps : Delivers es steps) :
    ∃ j, (db.afterDeliveries job.id p steps).emailJobs.get (.id job.id) = some j ∧
      some j.deliveryStatus = last.deliveryStatus := by
  obtain ⟨done, hfollow, hdone⟩ := h.following_deliveries hist hsteps.genuine
  obtain ⟨j, hrow, _, htracks⟩ := hfollow.job
  refine ⟨j, hrow, ?_⟩
  have hmem : last ∈ es := List.mem_of_getLast? hlast
  have hall : ∀ r ∈ es.map stamp,
      r ∈ done.map stamp := by
    intro r hr
    obtain ⟨e, he, rfl⟩ := List.mem_map.mp hr
    exact List.mem_map_of_mem (hdone e he (hsteps.all e he))
  have hstatus := htracks.status hist.history ordered_mayFollow hall
    (e := last.stamp) (by rw [List.getLast?_map, hlast]; rfl)
  obtain ⟨s, hs⟩ := hist.status hmem
  rw [hs]
  simpa [EmailJob.register, stamp, hs] using hstatus

/-! A message is delayed and then delivered; the reports come in the other way round,
one of them twice, with the acceptance recorded in between. -/

def aliceJob : EmailJob where
  id := 7
  username := "alice"
  recipient := "alice@example.com"
  payload := .verifyEmail
  status := .processing
  createdAt := 0

def aliceAwaits : DB :=
  { DB.initial twoCustomers with emailJobs := ⟨[aliceJob], by decide⟩ }

def reportForAlice (webhookID : String) (status : EmailDeliveryStatus) (occurredAt : Timestamp) :
    ProviderReport :=
  ⟨webhookID, "email." ++ status.text, "message", some 7, occurredAt, some status, ""⟩

def delayedThenDelivered : List ProviderReport :=
  [reportForAlice "a" .delayed 1, reportForAlice "b" .delivered 2]

def deliveredFirst : List DeliveryStep :=
  [.report (.drawing 5 1) (reportForAlice "b" .delivered 2), .markSent 6,
    .report (.drawing 7 2) (reportForAlice "a" .delayed 1),
    .report (.drawing 8 3) (reportForAlice "b" .delivered 2)]

theorem deliveries_converge_deliveredFirst :
    ∃ j, (aliceAwaits.afterDeliveries 7 "message" deliveredFirst).emailJobs.get (.id 7) = some j ∧
      some j.deliveryStatus = some .delivered := by
  refine deliveries_converge aliceAwaits aliceJob "message" delayedThenDelivered
    (reportForAlice "b" .delivered 2) deliveredFirst ?_ ?_ rfl ?_
  · refine ⟨by decide, rfl, rfl, by decide, by decide, Or.inr ⟨rfl, by decide⟩, by decide, ?_,
      by decide⟩
    intro e he e' he' hid
    simp only [delayedThenDelivered, List.mem_cons, List.not_mem_nil, or_false] at he he'
    rcases he with rfl | rfl <;> rcases he' with rfl | rfl
    · rfl
    · exact absurd hid (by decide)
    · exact absurd hid (by decide)
    · rfl
  · refine ⟨?_, List.isChain_pair.mpr ⟨by decide, .delayed, .delivered, rfl, rfl, by decide⟩⟩
    rintro e he
    cases he
    exact ⟨.delayed, rfl, by decide⟩
  · refine ⟨?_, fun before env arg after hsteps => Or.inl ?_⟩
    · simp only [delayedThenDelivered, List.forall_mem_cons, List.not_mem_nil, IsEmpty.forall_iff,
        implies_true, and_true]
      exact ⟨⟨.drawing 7 2, by simp [deliveredFirst]⟩, ⟨.drawing 5 1, by simp [deliveredFirst]⟩⟩
    · have hmem : DeliveryStep.report env arg ∈ deliveredFirst := by simp [hsteps]
      simp only [deliveredFirst, List.mem_cons, DeliveryStep.report.injEq, reduceCtorEq,
        List.not_mem_nil, or_false, false_or] at hmem
      rcases hmem with ⟨_, rfl⟩ | ⟨_, rfl⟩ | ⟨_, rfl⟩ <;> simp [delayedThenDelivered]

end Monierave
