import Monierave.ReadCommitted.Alone
import Monierave.ReadCommitted.Ensures
import Monierave.Timestamped.Register
import Monierave.Users.Rules

/-! # Delivery reports, one after another

What a call of `ProcessEmailDeliveryEventTx` does to the tables when nobody else is
in the way: to the job it is about and to the row of that job's user.
-/

namespace Monierave

open Relational ReadCommitted Prog

abbrev ProviderReport := ProcessEmailDeliveryEventParams

def DB.deliver (env : Env) (arg : ProviderReport) (db : DB) : DB :=
  (processEmailDeliveryEventTx env arg).commit db

def DB.markSent (now : Timestamp) (id : UUID) (providerMessageID : String) (db : DB) : DB :=
  (call (markEmailJobSent now id providerMessageID)).commit db

theorem EmailJob.clash_of_keys {t : Table EmailJob} {j j' : EmailJob} {p : String}
    (hrow : t.get (.id j.id) = some j) (hid : j'.id = j.id)
    (honly : ∀ k, t.get (.providerMessageID p) = some k → k.id = j.id)
    (hkeys : ∀ k ∈ keys j', k ∈ keys j ∨ k = .providerMessageID p) : t.clash j' = none := by
  rw [Table.clash_eq_none]
  intro k hk a ha
  show EmailJobKey.id a.id = .id j'.id
  rw [hid]
  rcases hkeys k hk with hkey | rfl
  · rw [Table.get_eq_of_key hrow hkey] at ha
    rw [← Option.some.inj ha]
  · rw [honly a ha]

theorem DB.markSent_tables {db : DB} {j : EmailJob} {p : String} (now : Timestamp)
    (hrow : db.emailJobs.get (.id j.id) = some j)
    (hclash : db.emailJobs.clash (j.markSent p) = none) :
    (db.markSent now j.id p).emailJobs = db.emailJobs.amend j (j.markSent p) ∧
      (db.markSent now j.id p).emailDeliveryEvents = db.emailDeliveryEvents ∧
      (db.markSent now j.id p).users = db.users := by
  have hexec : (updateEmailJobRow j.id fun j => .ok (some (j.markSent p))).exec [] db =
      .ok ⟨some (j.markSent p), [.updateEmailJob j (j.markSent p)], []⟩ :=
    updateRow_ok.mpr (Or.inr ⟨j, _, ⟨hrow, rfl, rfl, hclash⟩, rfl⟩)
  have hruns : Runs (call (markEmailJobSent now j.id p)) [] db (some (j.markSent p))
      (auditEmailJobSent now (.updateEmailJob j (j.markSent p))) := by
    refine ⟨_, run_call_ok.mpr ⟨⟨_, auditEmailJobSent now (.updateEmailJob j (j.markSent p)), []⟩,
      ?_, rfl⟩⟩
    simp only [markEmailJobSent, hexec, Except.map, List.flatMap_singleton]
  rw [DB.markSent, hruns.commit_eq, auditEmailJobSent]
  by_cases hsame : j.status = (j.markSent p).status
  · rw [if_pos hsame]
    exact ⟨rfl, rfl, rfl⟩
  · rw [if_neg hsame]
    exact ⟨rfl, rfl, rfl⟩

theorem User.legit_report {db : DB} {username : String} {u : User}
    (h : db.users.get (.username username) = some u) (now : Timestamp)
    (arg : UpdateCurrentUserEmailDeliverabilityParams) :
    db.users.get (pk (u.report now arg)) = some u ∧ db.users.clash (u.report now arg) = none := by
  have hrow : db.users.get (pk (u.report now arg)) = some u := Table.get_pk (Table.mem_of_get h)
  exact ⟨hrow, Table.clash_of_same_keys hrow rfl⟩

namespace ProcessEmailDeliveryEventParams

variable (arg : ProviderReport)

/-- The report is about the job: no other job has the provider's id, and the job has
it, or has none yet and is named by the report. -/
structure Concerns (db : DB) (job : EmailJob) : Prop where
  row : db.emailJobs.get (.id job.id) = some job
  only : ∀ j, db.emailJobs.get (.providerMessageID arg.providerMessageID) = some j → j.id = job.id
  named : job.providerMessageID = some arg.providerMessageID ∨
    (job.providerMessageID = none ∧ arg.jobID = some job.id)

def newStatus (job : EmailJob) : Option EmailDeliveryStatus :=
  arg.deliveryStatus.filter fun status =>
    canApplyEmailDeliveryTransition job.deliveryStatus status job.deliveryEventAt arg.occurredAt

def reported (job : EmailJob) (status : EmailDeliveryStatus) : EmailJob :=
  { job with
    providerMessageID := some (job.providerMessageID.getD arg.providerMessageID)
    deliveryStatus := status
    deliveryEventAt := some arg.occurredAt }

def event (job : EmailJob) : EmailDeliveryEvent :=
  ⟨arg.webhookID, some job.id, arg.providerMessageID, arg.eventType, arg.occurredAt⟩

def userReport (job : EmailJob) (status : EmailDeliverabilityStatus) :
    UpdateCurrentUserEmailDeliverabilityParams :=
  ⟨job.username, job.recipient, status, arg.occurredAt, bounceTimestamp arg⟩

def userWrites (env : Env) (job : EmailJob) (db : DB) : List Write :=
  match userDeliverabilityForEvent arg, db.users.get (.username job.username) with
  | some status, some u =>
    if u.reportApplies (arg.userReport job status) then
      [.updateUser u (u.report env.now (arg.userReport job status))]
    else []
  | _, _ => []

def audit (env : Env) (job : EmailJob) (status : EmailDeliveryStatus) : AuditLog :=
  ⟨.emailJob, job.id, job.id, arg.eventType, "resend_webhook", textValue job.deliveryStatus.text,
    textValue status.text, none, env.now⟩

def writes (env : Env) (job : EmailJob) (db : DB) : List Write :=
  match db.emailDeliveryEvents.get (.webhookID arg.webhookID), arg.newStatus job with
  | some _, _ => []
  | none, none => [.insertEmailDeliveryEvent (arg.event job)]
  | none, some status =>
    .insertEmailDeliveryEvent (arg.event job) ::
      .updateEmailJob job (arg.reported job status) ::
        (arg.userWrites env job db ++ [.insertAuditLog (arg.audit env job status)])

variable {arg} {db : DB} {job : EmailJob}

theorem Concerns.get (h : arg.Concerns db job) :
    (db.emailJobs.get (.providerMessageID arg.providerMessageID) = some job) ∨
      (db.emailJobs.get (.providerMessageID arg.providerMessageID) = none ∧
        arg.jobID = some job.id ∧ job.providerMessageID = none) := by
  rcases h.named with hp | ⟨hnone, hid⟩
  · left
    exact Table.get_eq_of_key h.row (by simp [keys, hp])
  · right
    refine ⟨?_, hid, hnone⟩
    cases hget : db.emailJobs.get (.providerMessageID arg.providerMessageID) with
    | none => rfl
    | some j =>
      have hj : db.emailJobs.get (.id j.id) = some j := Table.get_pk (Table.mem_of_get hget)
      rw [h.only j hget, h.row] at hj
      obtain rfl := Option.some.inj hj
      have hkey := Table.key_of_get hget
      simp [keys, hnone] at hkey

theorem Concerns.runs_find (h : arg.Concerns db job) :
    Runs (findEmailJobForDeliveryEvent arg) [] db (some job.id, some job) [] := by
  rcases h.get with hget | ⟨hget, hid, hnone⟩
  · refine .bind_silent (.call (selectForUpdate_ok.mpr rfl)) ?_
    dsimp only
    rw [hget]
    exact .pure _
  · refine .bind_silent (.call (selectForUpdate_ok.mpr rfl)) ?_
    dsimp only
    rw [hget, hid]
    refine .bind_silent (.call (selectForUpdate_ok.mpr rfl)) ?_
    dsimp only
    rw [h.row]
    simp only [hnone, Option.any_none, Bool.false_eq_true, if_false]
    exact .pure _

theorem Concerns.clash (h : arg.Concerns db job) (status : EmailDeliveryStatus) :
    db.emailJobs.clash (arg.reported job status) = none := by
  refine EmailJob.clash_of_keys h.row rfl h.only fun k hk => ?_
  cases hp : job.providerMessageID with
  | none =>
    simp only [keys, reported, hp, Option.getD_none, Option.toList_some, List.map_cons,
      List.map_nil, List.cons_append, List.nil_append, List.mem_cons] at hk ⊢
    tauto
  | some p =>
    left
    simpa [keys, reported, hp] using hk

section Updates

variable {R κ : Type} [Keyed R κ] [DecidableEq κ] {table : DB → Table R} {k : κ}
  {g : R → Except SqlError (Option R)} {violated : R → R → Option SqlError}
  {constraint : κ → String} {write : R → R → Write} {lock : κ → LockKey} {own : List Write}

theorem runs_updateRow {o r : R} (h : Updates table k g violated db o r) :
    Runs (call (updateRow table k g violated constraint write lock)) own db (some r)
      [write o r] :=
  ⟨_, run_call_ok.mpr ⟨⟨some r, [write o r], []⟩, updateRow_ok.mpr (Or.inr ⟨o, r, h, rfl⟩), rfl⟩⟩

theorem runs_updateRow_none (h : ∀ o, (table db).get k = some o → g o = .ok none) :
    Runs (call (updateRow table k g violated constraint write lock)) own db none [] :=
  ⟨_, run_call_ok.mpr ⟨⟨none, [], []⟩, updateRow_ok.mpr (Or.inl ⟨h, rfl⟩), rfl⟩⟩

end Updates

theorem runs_reportToUser (arg : ProviderReport) (job : EmailJob) (db : DB)
    (husers : ∀ u ∈ db.users.rows, u.violated = none) (env : Env) (own : List Write) :
    ∃ b, Runs (reportToUser env arg job) own db b (arg.userWrites env job db) := by
  unfold reportToUser userWrites
  cases userDeliverabilityForEvent arg with
  | none => exact ⟨false, Runs.pure _⟩
  | some status =>
    cases hget : db.users.get (.username job.username) with
    | none => exact ⟨_, (runs_updateRow_none (by simp [hget])).bind_last (.pure _)⟩
    | some u =>
      dsimp only
      by_cases happlies : u.reportApplies (arg.userReport job status) = true
      · rw [if_pos happlies]
        refine ⟨_, (runs_updateRow ⟨hget, ?_, ?_, ?_⟩).bind_last (.pure _)⟩
        · exact congrArg Except.ok (if_pos happlies)
        · exact husers u (Table.mem_of_get hget)
        · exact (User.legit_report hget _ _).2
      · rw [if_neg happlies]
        refine ⟨_, (runs_updateRow_none fun o ho => ?_).bind_last (.pure _)⟩
        obtain rfl : u = o := Option.some.inj (hget.symm.trans ho)
        exact congrArg Except.ok (if_neg happlies)

theorem setDelivery_of_canApply {status : EmailDeliveryStatus}
    (h : canApplyEmailDeliveryTransition job.deliveryStatus status job.deliveryEventAt
      arg.occurredAt = true) :
    job.setDelivery arg.providerMessageID status arg.occurredAt =
      .ok (some (arg.reported job status)) := by
  have hnewer : job.deliveryEventAt.all (fun at_ => decide (at_ < arg.occurredAt)) = true := by
    unfold canApplyEmailDeliveryTransition at h
    cases hat : job.deliveryEventAt with
    | none => rfl
    | some at_ =>
      by_contra hstale
      simp only [Option.all_some, decide_eq_true_eq] at hstale
      simp [hat, hstale] at h
  rw [EmailJob.setDelivery, if_pos hnewer]
  rfl

theorem runs_createEmailDeliveryEvent (job : EmailJob) (own : List Write)
    (h : db.emailDeliveryEvents.get (.webhookID arg.webhookID) = none) :
    Runs (call (createEmailDeliveryEvent (arg.event job))) own db (some (arg.event job))
      [.insertEmailDeliveryEvent (arg.event job)] :=
  Runs.call (createEmailDeliveryEvent_ok.mpr (Or.inr ⟨h, rfl⟩))

theorem Concerns.runs_update (h : arg.Concerns db job) (own : List Write)
    {status : EmailDeliveryStatus}
    (happly : canApplyEmailDeliveryTransition job.deliveryStatus status job.deliveryEventAt
      arg.occurredAt = true) :
    Runs (call (updateEmailJobDelivery job.id arg.providerMessageID status arg.occurredAt)) own
      (view [Write.insertEmailDeliveryEvent (arg.event job)] db)
      (some (arg.reported job status)) [.updateEmailJob job (arg.reported job status)] :=
  runs_updateRow ⟨h.row, setDelivery_of_canApply happly, rfl, h.clash status⟩

theorem runs_audit (arg : ProviderReport) (env : Env) (job : EmailJob)
    (status : EmailDeliveryStatus) (own : List Write) (db : DB) :
    Runs (call (createAuditLog env.now {
      entityType := .emailJob
      entityID := some job.id
      correlationID := some job.id
      eventType := arg.eventType
      actor := "resend_webhook"
      fromState := textValue job.deliveryStatus.text
      toState := textValue status.text
      message := none })) own db (arg.audit env job status)
      [.insertAuditLog (arg.audit env job status)] :=
  ⟨_, rfl⟩

theorem Concerns.runs (h : arg.Concerns db job) (husers : ∀ u ∈ db.users.rows, u.violated = none)
    (env : Env) :
    ∃ a, Runs (processEmailDeliveryEventTx env arg) [] db a (arg.writes env job db) := by
  unfold processEmailDeliveryEventTx writes
  cases hget : db.emailDeliveryEvents.get (.webhookID arg.webhookID) with
  | some e =>
    exact ⟨_, h.runs_find.bind_silent (Runs.bind_silent
      (.call (createEmailDeliveryEvent_ok.mpr (Or.inl ⟨⟨e, hget⟩, rfl⟩))) (.pure _))⟩
  | none =>
    have hevent := runs_createEmailDeliveryEvent job [] hget
    cases hstatus : arg.deliveryStatus with
    | none =>
      -- an event that says nothing about the delivery is only recorded
      simp only [newStatus, hstatus, Option.filter_none]
      exact ⟨_, h.runs_find.bind_silent (hevent.bind_last (.pure _))⟩
    | some status =>
      by_cases happly : canApplyEmailDeliveryTransition job.deliveryStatus status
          job.deliveryEventAt arg.occurredAt = true
      · have hnew : arg.newStatus job = some status := by simp [newStatus, hstatus, happly]
        simp only [hnew]
        obtain ⟨b, huser⟩ := runs_reportToUser arg job (view
          [Write.updateEmailJob job (arg.reported job status)]
          (view [Write.insertEmailDeliveryEvent (arg.event job)] db)) husers env
          (([] ++ [.insertEmailDeliveryEvent (arg.event job)]) ++
            [.updateEmailJob job (arg.reported job status)])
        refine ⟨{
            job := some (arg.reported job status)
            jobMatched := true
            stateUpdated := true
            userStateUpdated := b },
          h.runs_find.bind_silent (hevent.bind ?_)⟩
        simp only [if_pos happly]
        exact (h.runs_update _ happly).bind
          (huser.bind ((runs_audit arg env job status _ _).bind_last (.pure _)))
      · have hnew : arg.newStatus job = none := by simp [newStatus, hstatus, happly]
        simp only [hnew]
        refine ⟨{ job := some job, jobMatched := true },
          h.runs_find.bind_silent (hevent.bind_last ?_)⟩
        simp only [if_neg happly]
        exact .pure _

theorem Concerns.deliver_eq (h : arg.Concerns db job)
    (husers : ∀ u ∈ db.users.rows, u.violated = none) (env : Env) :
    db.deliver env arg = view (arg.writes env job db) db := by
  obtain ⟨a, hruns⟩ := h.runs husers env
  exact hruns.commit_eq

theorem ensures_find (arg : ProviderReport) (db : DB) :
    Ensures (findEmailJobForDeliveryEvent arg) (.start db) fun _ s => s.own = [] ∧ s.db = db := by
  refine .bind (.call fun eff hs => ?_)
  obtain rfl := selectForUpdate_ok.mp hs
  dsimp only
  split
  · exact .ret ⟨rfl, rfl⟩
  · split
    · exact .ret ⟨rfl, rfl⟩
    · refine .bind (.call fun eff hs => ?_)
      obtain rfl := selectForUpdate_ok.mp hs
      dsimp only
      split
      · exact .ret ⟨rfl, rfl⟩
      · split
        · exact .ret ⟨rfl, rfl⟩
        · exact .ret ⟨rfl, rfl⟩

theorem deliver_of_recorded {e : EmailDeliveryEvent}
    (h : db.emailDeliveryEvents.get (.webhookID arg.webhookID) = some e) (env : Env) :
    db.deliver env arg = db := by
  have hens : Ensures (processEmailDeliveryEventTx env arg) (.start db) fun _ s => s.db = db := by
    refine .bind ((ensures_find arg db).mono ?_)
    rintro ⟨jobID, matched⟩ s ⟨_, hdb⟩
    refine .bind (.call fun eff hs => ?_)
    rw [hdb] at hs
    rcases createEmailDeliveryEvent_ok.mp hs with ⟨_, rfl⟩ | ⟨hnone, _⟩
    · exact .ret hdb
    · rw [h] at hnone
      cases hnone
  unfold DB.deliver commit
  split
  · exact hens.of_run ‹_›
  · rfl

def outcome (arg : ProviderReport) (job : EmailJob) (db : DB) :
    Option EmailDeliveryStatus :=
  match db.emailDeliveryEvents.get (.webhookID arg.webhookID) with
  | some _ => none
  | none => arg.newStatus job

section Tables

variable (h : arg.Concerns db job) (husers : ∀ u ∈ db.users.rows, u.violated = none) (env : Env)

include h husers

theorem Concerns.emailJobs_deliver : (db.deliver env arg).emailJobs =
    match arg.outcome job db with
    | none => db.emailJobs
    | some status => db.emailJobs.amend job (arg.reported job status) := by
  rw [h.deliver_eq husers, emailJobs_view]
  unfold writes outcome userWrites
  cases db.emailDeliveryEvents.get (.webhookID arg.webhookID) with
  | some e => rfl
  | none =>
    cases arg.newStatus job with
    | none => rfl
    | some status =>
      dsimp only
      split
      · split <;> rfl
      · rfl

theorem Concerns.emailDeliveryEvents_deliver : (db.deliver env arg).emailDeliveryEvents =
    match db.emailDeliveryEvents.get (.webhookID arg.webhookID) with
    | some _ => db.emailDeliveryEvents
    | none => db.emailDeliveryEvents.insert (arg.event job) := by
  rw [h.deliver_eq husers]
  unfold writes userWrites
  cases db.emailDeliveryEvents.get (.webhookID arg.webhookID) with
  | some e => rfl
  | none =>
    cases arg.newStatus job with
    | none => rfl
    | some status =>
      dsimp only
      split
      · split <;> rfl
      · rfl

theorem Concerns.users_deliver : (db.deliver env arg).users =
    match arg.outcome job db, userDeliverabilityForEvent arg,
      db.users.get (.username job.username) with
    | some _, some status, some u =>
      if u.reportApplies (arg.userReport job status) then
        db.users.update (u.report env.now (arg.userReport job status))
      else db.users
    | _, _, _ => db.users := by
  rw [h.deliver_eq husers]
  unfold writes outcome userWrites
  cases db.emailDeliveryEvents.get (.webhookID arg.webhookID) with
  | some e => rfl
  | none =>
    cases arg.newStatus job with
    | none => rfl
    | some status =>
      cases userDeliverabilityForEvent arg with
      | none => rfl
      | some status' =>
        cases hget : db.users.get (.username job.username) with
        | none => rfl
        | some u =>
          dsimp only
          by_cases happlies : u.reportApplies (arg.userReport job status') = true
          · rw [if_pos happlies, if_pos happlies]
            exact Table.amend_eq (User.legit_report hget _ _).1
          · rw [if_neg happlies, if_neg happlies]
            rfl

theorem Concerns.recorded_deliver (webhookID : String) :
    ((db.deliver env arg).emailDeliveryEvents.get (.webhookID webhookID)).isSome = true ↔
      webhookID = arg.webhookID ∨
        (db.emailDeliveryEvents.get (.webhookID webhookID)).isSome = true := by
  rw [h.emailDeliveryEvents_deliver husers]
  cases hget : db.emailDeliveryEvents.get (.webhookID arg.webhookID) with
  | some e =>
    constructor
    · exact Or.inr
    · rintro (rfl | hsome)
      · simp [hget]
      · exact hsome
  | none =>
    have hconf : db.emailDeliveryEvents.conflict (arg.event job) = none := by
      rw [Table.conflict_eq_none]
      intro k hk
      rw [List.mem_singleton.mp hk]
      exact hget
    have hkeys : EmailDeliveryEventKey.webhookID webhookID ∈ keys (arg.event job) ↔
        webhookID = arg.webhookID := by
      simp [keys, event]
    dsimp only
    rw [Table.get_insert hconf]
    by_cases hw : webhookID = arg.webhookID
    · rw [if_pos (hkeys.mpr hw)]
      simp [hw]
    · rw [if_neg (hkeys.not.mpr hw)]
      simp [hw]

theorem Concerns.checked_deliver : ∀ u ∈ (db.deliver env arg).users.rows, u.violated = none := by
  rw [h.users_deliver husers]
  split
  · rename_i u _ _ hget
    split
    · intro u' hu'
      obtain ⟨hrow, hclash⟩ := User.legit_report hget env.now (arg.userReport job _)
      rcases (Table.mem_update hclash hrow).mp hu' with rfl | ⟨hmem, _⟩
      · exact husers u (Table.mem_of_get hget)
      · exact husers u' hmem
    · exact husers
  · exact husers

end Tables

end ProcessEmailDeliveryEventParams

end Monierave
