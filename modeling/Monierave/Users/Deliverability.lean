import Monierave.Banking.System
import Monierave.Users.Delivery

/-! # What reports on several jobs make of a user's address

Each job of the user gets one report.
-/

namespace Monierave

open Relational ReadCommitted Prog Timestamped

def DB.deliverAll (db : DB) (order : List (Env × ProviderReport)) : DB :=
  order.foldl (fun db x => db.deliver x.1 x.2) db

@[simp] theorem DB.deliverAll_nil (db : DB) : db.deliverAll [] = db := rfl

@[simp] theorem DB.deliverAll_cons (db : DB) (x : Env × ProviderReport)
    (order : List (Env × ProviderReport)) :
    db.deliverAll (x :: order) = (db.deliver x.1 x.2).deliverAll order := rfl

def DB.deliverability (db : DB) (username : String) : Option EmailDeliverabilityStatus :=
  (db.users.get (.username username)).map User.emailDeliverabilityStatus

/-- Reports about different jobs of the user that went to the present address. They
have different webhook ids, messages and times, and none of them has come in yet.
The rows of the users satisfy the checks of their table. -/
structure Addressed (db : DB) (u : User) (job : ProviderReport → EmailJob)
    (es : List ProviderReport) : Prop where
  user : db.users.get (.username u.username) = some u
  concerns : ∀ e ∈ es, e.Concerns db (job e)
  owner : ∀ e ∈ es, (job e).username = u.username
  address : ∀ e ∈ es, Unicode.lower (job e).recipient = Unicode.lower u.email
  fresh : ∀ e ∈ es, db.emailDeliveryEvents.get (.webhookID e.webhookID) = none
  distinct : es.Pairwise fun e e' => (job e).id ≠ (job e').id ∧
    e.providerMessageID ≠ e'.providerMessageID ∧ e.webhookID ≠ e'.webhookID ∧
    e.occurredAt ≠ e'.occurredAt
  users : ∀ u ∈ db.users.rows, u.violated = none

def User.register (u : User) : Register EmailDeliverabilityStatus Timestamp :=
  ⟨u.emailDeliverabilityStatus, u.emailDeliverabilityUpdatedAt⟩

def ProcessEmailDeliveryEventParams.verdict (arg : ProviderReport)
    (job : EmailJob) : Option (Report EmailDeliverabilityStatus Timestamp) :=
  if (arg.newStatus job).isSome then
    (userDeliverabilityForEvent arg).map fun status => ⟨status, arg.occurredAt⟩
  else none

variable {db : DB} {u : User} {job : ProviderReport → EmailJob}
  {arg : ProviderReport} {es : List ProviderReport}

theorem ProcessEmailDeliveryEventParams.verdict_eq_some {j : EmailJob}
    {r : Report EmailDeliverabilityStatus Timestamp} :
    arg.verdict j = some r ↔ (arg.newStatus j).isSome = true ∧
      userDeliverabilityForEvent arg = some r.status ∧ arg.occurredAt = r.time := by
  unfold verdict
  by_cases hnew : (arg.newStatus j).isSome = true
  · rw [if_pos hnew]
    cases userDeliverabilityForEvent arg with
    | none => simp
    | some status =>
      obtain ⟨status', time⟩ := r
      simp [hnew]
  · simp [hnew]

open ProcessEmailDeliveryEventParams (verdict_eq_some reported outcome userReport)

theorem not_beq_undeliverable_or (a b : EmailDeliverabilityStatus) :
    (!a == .undeliverable || b == .undeliverable) = sticky .undeliverable a b := by
  cases a <;> cases b <;> rfl

theorem User.reportApplies_eq {u : User} {j : EmailJob} {status : EmailDeliverabilityStatus}
    (haddress : Unicode.lower j.recipient = Unicode.lower u.email) :
    u.reportApplies (arg.userReport j status) =
      u.register.admits (sticky .undeliverable) ⟨status, arg.occurredAt⟩ := by
  unfold User.reportApplies Register.admits User.register
  simp only [userReport, haddress, bne, not_beq_undeliverable_or]
  cases u.emailDeliverabilityUpdatedAt with
  | none => simp
  | some t => by_cases hlt : t < arg.occurredAt <;> simp [hlt]

theorem Addressed.user_deliver (h : Addressed db u job (arg :: es)) (env : Env) :
    ∃ u', (db.deliver env arg).users.get (.username u.username) = some u' ∧
      u'.username = u.username ∧ u'.email = u.email ∧
      u'.register = (arg.verdict (job arg)).elim u.register
        (u.register.take (sticky .undeliverable)) := by
  have hmem : arg ∈ arg :: es := List.mem_cons_self
  have hout : arg.outcome (job arg) db = arg.newStatus (job arg) := by
    simp [outcome, h.fresh arg hmem]
  rw [(h.concerns arg hmem).users_deliver h.users, hout, h.owner arg hmem, h.user]
  cases hnew : arg.newStatus (job arg) with
  | none => exact ⟨u, h.user, rfl, rfl, by simp [ProcessEmailDeliveryEventParams.verdict, hnew]⟩
  | some new =>
    cases hstatus : userDeliverabilityForEvent arg with
    | none =>
      exact ⟨u, h.user, rfl, rfl,
        by simp [ProcessEmailDeliveryEventParams.verdict, hnew, hstatus]⟩
    | some status =>
      have hverdict : arg.verdict (job arg) = some ⟨status, arg.occurredAt⟩ := by
        simp [ProcessEmailDeliveryEventParams.verdict, hnew, hstatus]
      have happlies : u.reportApplies (arg.userReport (job arg) status) =
          u.register.admits (sticky .undeliverable) ⟨status, arg.occurredAt⟩ :=
        User.reportApplies_eq (h.address arg hmem)
      rw [hverdict, Option.elim_some]
      dsimp only
      by_cases hadmits : u.register.admits (sticky .undeliverable)
          ⟨status, arg.occurredAt⟩ = true
      · rw [if_pos (happlies.trans hadmits), Register.take_of_admits hadmits]
        obtain ⟨hrow, hclash⟩ := User.legit_report h.user env.now (arg.userReport (job arg) status)
        refine ⟨u.report env.now (arg.userReport (job arg) status), ?_, rfl, rfl, rfl⟩
        rw [Table.get_update hclash hrow]
        exact if_pos (Keyed.pk_mem (u.report env.now (arg.userReport (job arg) status)))
      · rw [if_neg (happlies ▸ hadmits), Register.take_of_not_admits hadmits]
        exact ⟨u, h.user, rfl, rfl, rfl⟩

theorem ProcessEmailDeliveryEventParams.Concerns.deliver_other {j j' : EmailJob}
    {e : ProviderReport} (hc : arg.Concerns db j) (h : e.Concerns db j')
    (husers : ∀ u ∈ db.users.rows, u.violated = none) (hid : j'.id ≠ j.id)
    (hp : e.providerMessageID ≠ arg.providerMessageID) (env : Env) :
    e.Concerns (db.deliver env arg) j' := by
  have hjobs := hc.emailJobs_deliver husers env
  cases hout : arg.outcome j db with
  | none =>
    simp only [hout] at hjobs
    refine ⟨?_, ?_, h.named⟩ <;> rw [hjobs]
    · exact h.row
    · exact h.only
  | some status =>
    simp only [hout] at hjobs
    have hmessage : j.providerMessageID = none ∨
        j.providerMessageID = some arg.providerMessageID :=
      hc.named.symm.imp_left And.left
    refine ⟨?_, ?_, h.named⟩ <;> rw [hjobs, Table.get_amend_of_notMem]
    · exact h.row
    · simp [keys, hid]
    · simp [keys, reported, hid]
    · exact h.only
    · rcases hmessage with hnone | hsome
      · simp [keys, hnone]
      · simp [keys, hsome, hp]
    · rcases hmessage with hnone | hsome
      · simp [keys, reported, hnone, hp]
      · simp [keys, reported, hsome, hp]

theorem Addressed.deliver (h : Addressed db u job (arg :: es)) (env : Env) :
    ∃ u', Addressed (db.deliver env arg) u' job es ∧ u'.username = u.username ∧
      u'.register = (arg.verdict (job arg)).elim u.register
        (u.register.take (sticky .undeliverable)) := by
  obtain ⟨u', hrow, hname, hemail, hregister⟩ := h.user_deliver env
  have hc := h.concerns arg List.mem_cons_self
  obtain ⟨hothers, hdistinct⟩ := List.pairwise_cons.mp h.distinct
  refine ⟨u', ⟨?_, ?_, ?_, ?_, ?_, hdistinct, hc.checked_deliver h.users env⟩, hname, hregister⟩
  · rw [hname]
    exact hrow
  · intro e he
    obtain ⟨hid, hp, _⟩ := hothers e he
    exact hc.deliver_other (h.concerns e (List.mem_cons_of_mem arg he)) h.users hid.symm hp.symm env
  · intro e he
    rw [hname]
    exact h.owner e (List.mem_cons_of_mem arg he)
  · intro e he
    rw [hemail]
    exact h.address e (List.mem_cons_of_mem arg he)
  · intro e he
    obtain ⟨_, _, hwebhook, _⟩ := hothers e he
    rw [← Option.not_isSome_iff_eq_none, hc.recorded_deliver h.users]
    rintro (heq | hsome)
    · exact hwebhook heq.symm
    · rw [h.fresh e (List.mem_cons_of_mem arg he)] at hsome
      cases hsome

def verdicts (job : ProviderReport → EmailJob)
    (es : List ProviderReport) : List (Report EmailDeliverabilityStatus Timestamp) :=
  es.filterMap fun e => e.verdict (job e)

theorem mem_verdicts {r : Report EmailDeliverabilityStatus Timestamp} :
    r ∈ verdicts job es ↔ ∃ e ∈ es, e.verdict (job e) = some r :=
  List.mem_filterMap

theorem Addressed.deliverability {order : List (Env × ProviderReport)}
    (h : Addressed db u job (order.map Prod.snd)) :
    (db.deliverAll order).deliverability u.username =
      some (arrive .undeliverable u.register (verdicts job (order.map Prod.snd))).status := by
  induction order generalizing db u with
  | nil =>
    simp only [DB.deliverAll_nil, DB.deliverability, h.user]
    rfl
  | cons x order ih =>
    obtain ⟨u', h', hname, hregister⟩ := h.deliver x.1
    rw [DB.deliverAll_cons, ← hname, ih h', hregister]
    cases hverdict : x.2.verdict (job x.2) with
    | none => simp [verdicts, hverdict]
    | some r => simp [verdicts, hverdict]

theorem Addressed.perm {es' : List ProviderReport} (h : Addressed db u job es)
    (hperm : es'.Perm es) : Addressed db u job es' where
  user := h.user
  concerns e he := h.concerns e (hperm.mem_iff.mp he)
  owner e he := h.owner e (hperm.mem_iff.mp he)
  address e he := h.address e (hperm.mem_iff.mp he)
  fresh e he := h.fresh e (hperm.mem_iff.mp he)
  distinct := hperm.symm.pairwise h.distinct fun ⟨hid, hp, hw, ht⟩ =>
    ⟨hid.symm, hp.symm, hw.symm, ht.symm⟩
  users := h.users

def OrderIrrelevant (db : DB) (username : String) (es : List ProviderReport) :
    Prop :=
  ∀ order order' : List (Env × ProviderReport), (order.map Prod.snd).Perm es →
    (order'.map Prod.snd).Perm es →
      (db.deliverAll order).deliverability username = (db.deliverAll order').deliverability username

def NeverMissed (db : DB) (username : String) (es : List ProviderReport) : Prop :=
  (∃ e ∈ es, userDeliverabilityForEvent e = some .undeliverable) →
    ∀ order : List (Env × ProviderReport), (order.map Prod.snd).Perm es →
      (db.deliverAll order).deliverability username = some .undeliverable

/-- A report that the address does not work, which its job takes over, is newer than
what the user's row holds and than every report of a delivery that its job takes
over. -/
def LatestUndeliverable (u : User) (job : ProviderReport → EmailJob)
    (es : List ProviderReport) : Prop :=
  ∃ e ∈ es, userDeliverabilityForEvent e = some .undeliverable ∧
    (e.newStatus (job e)).isSome = true ∧
    (∀ t, u.emailDeliverabilityUpdatedAt = some t → t < e.occurredAt) ∧
    ∀ d ∈ es, (d.newStatus (job d)).isSome = true →
      userDeliverabilityForEvent d = some .deliverable → d.occurredAt < e.occurredAt

theorem userDeliverabilityForEvent_cases (arg : ProviderReport) :
    userDeliverabilityForEvent arg = none ∨ userDeliverabilityForEvent arg = some .deliverable ∨
      userDeliverabilityForEvent arg = some .undeliverable := by
  unfold userDeliverabilityForEvent
  split <;> simp

theorem latestUndeliverable_iff :
    LatestUndeliverable u job es ↔ LastWord .undeliverable u.register (verdicts job es) := by
  constructor
  · rintro ⟨e, he, hstatus, hnew, hfresh, hlast⟩
    refine ⟨⟨.undeliverable, e.occurredAt⟩, mem_verdicts.mpr ⟨e, he, ?_⟩, rfl, hfresh, ?_⟩
    · exact verdict_eq_some.mpr ⟨hnew, hstatus, rfl⟩
    · intro r hr hne
      obtain ⟨d, hd, hverdict⟩ := mem_verdicts.mp hr
      obtain ⟨hnew', hstatus', htime⟩ := verdict_eq_some.mp hverdict
      rw [← htime]
      refine hlast d hd hnew' ?_
      rcases userDeliverabilityForEvent_cases d with hnone | hdel | hundel
      · rw [hnone] at hstatus'
        cases hstatus'
      · exact hdel
      · rw [hundel] at hstatus'
        exact absurd (Option.some.inj hstatus').symm hne
  · rintro ⟨r, hr, hz, hfresh, hlast⟩
    obtain ⟨e, he, hverdict⟩ := mem_verdicts.mp hr
    obtain ⟨hnew, hstatus, htime⟩ := verdict_eq_some.mp hverdict
    rw [hz] at hstatus
    refine ⟨e, he, hstatus, hnew, ?_, fun d hd hnew' hstatus' => ?_⟩
    · rw [htime]
      exact hfresh
    · rw [htime]
      refine hlast ⟨.deliverable, d.occurredAt⟩ (mem_verdicts.mpr ⟨d, hd, ?_⟩) (by simp)
      exact verdict_eq_some.mpr ⟨hnew', hstatus', rfl⟩

section Orders

variable {order : List (Env × ProviderReport)}
  {es' : List ProviderReport}

theorem Addressed.final (h : Addressed db u job es) (hperm : (order.map Prod.snd).Perm es) :
    (db.deliverAll order).deliverability u.username =
      some (arrive .undeliverable u.register (verdicts job (order.map Prod.snd))).status :=
  (h.perm hperm).deliverability

theorem mem_verdicts_perm (hperm : es'.Perm es) (r : Report EmailDeliverabilityStatus Timestamp) :
    r ∈ verdicts job es' ↔ r ∈ verdicts job es :=
  (hperm.filterMap _).mem_iff

theorem Addressed.latest_of_neverMissed (h : Addressed db u job es)
    (hu : u.emailDeliverabilityStatus ≠ .undeliverable)
    (hsome : ∃ e ∈ es, userDeliverabilityForEvent e = some .undeliverable)
    (hnever : NeverMissed db u.username es) : LatestUndeliverable u job es := by
  by_contra hlast
  rw [latestUndeliverable_iff] at hlast
  have hlist : ∀ es', es'.Perm es →
      (arrive .undeliverable u.register (verdicts job es')).status = .undeliverable := by
    intro es' hperm
    have hmap : (es'.map fun e => (Env.drawing 0 0, e)).map Prod.snd = es' := by
      simp [Function.comp_def]
    have hstatus := hnever hsome (es'.map fun e => (Env.drawing 0 0, e)) (by rwa [hmap])
    rw [h.final (by rwa [hmap]), hmap] at hstatus
    exact Option.some.inj hstatus
  rcases exists_order_ne hu hlast with hne | ⟨m, hm, hne⟩
  · exact hne _ (fun _ he => he) (hlist es (List.Perm.refl es))
  · -- the report of `m` comes in first
    obtain ⟨e, he, hverdict⟩ := mem_verdicts.mp hm
    obtain ⟨before, after, rfl⟩ := List.append_of_mem he
    have hperm : (e :: (before ++ after)).Perm (before ++ e :: after) := List.perm_middle.symm
    have hcons : verdicts job (e :: (before ++ after)) = m :: verdicts job (before ++ after) :=
      List.filterMap_cons_some hverdict
    have hstatus := hlist _ hperm
    rw [hcons] at hstatus
    refine hne (verdicts job (before ++ after)) (fun r hr => ?_) hstatus
    rw [← mem_verdicts_perm hperm, hcons]
    exact List.mem_cons_of_mem m hr

theorem Addressed.undeliverable (h : Addressed db u job es) (hperm : (order.map Prod.snd).Perm es)
    (hcond : u.emailDeliverabilityStatus = .undeliverable ∨ LatestUndeliverable u job es) :
    (db.deliverAll order).deliverability u.username = some .undeliverable := by
  rw [h.final hperm]
  rcases hcond with hu | hlast
  · rw [arrive_of_status hu]
  · obtain ⟨r, hr, hz, hfresh, hnewest⟩ := latestUndeliverable_iff.mp hlast
    rw [arrive_of_lastWord ⟨r, (mem_verdicts_perm hperm r).mpr hr, hz, hfresh,
      fun d hd => hnewest d ((mem_verdicts_perm hperm d).mp hd)⟩]

theorem Addressed.final_of_none (h : Addressed db u job es)
    (hperm : (order.map Prod.snd).Perm es) (hu : u.emailDeliverabilityStatus ≠ .undeliverable)
    (hnone : ∀ e ∈ es, userDeliverabilityForEvent e ≠ some .undeliverable) :
    (db.deliverAll order).deliverability u.username =
      some (arrive .undeliverable u.register (verdicts job es)).status := by
  have hz : ∀ r ∈ verdicts job es, r.status ≠ .undeliverable := by
    intro r hr hz
    obtain ⟨e, he, hverdict⟩ := mem_verdicts.mp hr
    obtain ⟨_, hstatus, _⟩ := verdict_eq_some.mp hverdict
    exact hnone e he (hz ▸ hstatus)
  have htimes : (verdicts job es).Pairwise fun a b => a.time ≠ b.time := by
    refine List.Pairwise.filterMap _ (fun e e' hne r hr r' hr' => ?_) h.distinct
    obtain ⟨_, _, htime⟩ := verdict_eq_some.mp hr
    obtain ⟨_, _, htime'⟩ := verdict_eq_some.mp hr'
    rw [← htime, ← htime']
    exact hne.2.2.2
  rw [h.final hperm, arrive_status_congr hu hz htimes (mem_verdicts_perm hperm)]

end Orders

/-- The order does not matter, and no report that the address does not work is lost,
exactly if the row of the user already says so, no report does, or the last word of
the reports does. In every other case there are reports of both kinds, and it depends
on which of them comes in first whether the address counts as working. -/
theorem deliverability_orderIrrelevant_iff (db : DB) (u : User)
    (job : ProviderReport → EmailJob) (es : List ProviderReport)
    (h : Addressed db u job es) :
    (OrderIrrelevant db u.username es ∧ NeverMissed db u.username es) ↔
      u.emailDeliverabilityStatus = .undeliverable ∨
        (∀ e ∈ es, userDeliverabilityForEvent e ≠ some .undeliverable) ∨
        LatestUndeliverable u job es := by
  constructor
  · rintro ⟨_, hnever⟩
    by_cases hu : u.emailDeliverabilityStatus = .undeliverable
    · exact Or.inl hu
    · by_cases hsome : ∃ e ∈ es, userDeliverabilityForEvent e = some .undeliverable
      · exact Or.inr (Or.inr (h.latest_of_neverMissed hu hsome hnever))
      · exact Or.inr (Or.inl fun e he hstatus => hsome ⟨e, he, hstatus⟩)
  · intro hcond
    by_cases hund : u.emailDeliverabilityStatus = .undeliverable ∨ LatestUndeliverable u job es
    · constructor
      · intro order order' hperm hperm'
        rw [h.undeliverable hperm hund, h.undeliverable hperm' hund]
      · intro _ order hperm
        exact h.undeliverable hperm hund
    · rw [not_or] at hund
      have hnone := (hcond.resolve_left hund.1).resolve_right hund.2
      refine ⟨?_, fun ⟨e, he, hstatus⟩ => absurd hstatus (hnone e he)⟩
      intro order order' hperm hperm'
      rw [h.final_of_none hperm hund.1 hnone, h.final_of_none hperm' hund.1 hnone]

/-! A message to the address bounces for good, and a later one is delivered. -/

def aliceMessage (id : UUID) : EmailJob where
  id := id
  username := "alice"
  recipient := "alice@example.com"
  payload := .verifyEmail
  status := .sent
  createdAt := 0

def aliceTwoMessages : DB :=
  { DB.initial twoCustomers with emailJobs := ⟨[aliceMessage 1, aliceMessage 2], by decide⟩ }

def bounceOfFirst : ProviderReport :=
  ⟨"a", "email.bounced", "first", some 1, 1, some .bounced, "Permanent"⟩

def deliveryOfSecond : ProviderReport :=
  ⟨"b", "email.delivered", "second", some 2, 2, some .delivered, ""⟩

/-- The same two reports leave the address undeliverable or deliverable. -/
theorem bounce_then_delivery_ne :
    (aliceTwoMessages.deliverAll
        [(.drawing 5 1, bounceOfFirst), (.drawing 6 2, deliveryOfSecond)]).deliverability "alice" =
      some .undeliverable ∧
    (aliceTwoMessages.deliverAll
        [(.drawing 5 1, deliveryOfSecond), (.drawing 6 2, bounceOfFirst)]).deliverability "alice" =
      some .deliverable := by
  decide +kernel

/-- With a bounce that is newer than the delivery the order does not matter. -/
theorem deliverability_orderIrrelevant_lateBounce :
    OrderIrrelevant aliceTwoMessages "alice"
        [{ bounceOfFirst with occurredAt := 3 }, deliveryOfSecond] ∧
      NeverMissed aliceTwoMessages "alice"
        [{ bounceOfFirst with occurredAt := 3 }, deliveryOfSecond] := by
  refine (deliverability_orderIrrelevant_iff aliceTwoMessages (customer "alice")
    (fun e => aliceMessage (e.jobID.getD 0)) _ ?_).mpr (Or.inr (Or.inr ?_))
  · refine ⟨by decide, ?_, by decide, by decide, by decide, ?_, by decide⟩
    rotate_left
    · simp [bounceOfFirst, deliveryOfSecond, aliceMessage]
    intro e he
    simp only [List.mem_cons, List.not_mem_nil, or_false] at he
    rcases he with rfl | rfl
    · exact ⟨by decide, by decide, Or.inr ⟨rfl, rfl⟩⟩
    · exact ⟨by decide, by decide, Or.inr ⟨rfl, rfl⟩⟩
  · exact ⟨{ bounceOfFirst with occurredAt := 3 }, List.mem_cons_self, by decide +kernel, by decide,
      by decide, by decide +kernel⟩

end Monierave
