import Monierave.Emails.Conduct

/-! # No outbox event is lost

An event that has been committed waits until a relay can claim it, or it has been
published after the queue accepted its task.
-/

namespace Monierave

open Relational Processes

def OutboxRow.Waiting (e : OutboxRow) : Prop :=
  e.status = .pending ∨ e.status = .publishing ∧ e.claimedUntil.isSome = true

theorem OutboxRow.Waiting.claimable {e : OutboxRow} (h : e.Waiting) {now : Timestamp}
    (havailable : e.availableAt ≤ now) (hclaim : ∀ until_ ∈ e.claimedUntil, until_ < now) :
    e.claimable now = true := by
  unfold OutboxRow.claimable
  rcases h with hpending | ⟨hpublishing, hsome⟩
  · simp [havailable, hpending]
  · obtain ⟨until_, huntil⟩ := Option.isSome_iff_exists.mp hsome
    simp [havailable, hpublishing, huntil, hclaim until_ huntil]

theorem OutboxRow.not_published_of_claimable {e : OutboxRow} {now : Timestamp}
    (h : e.claimable now = true) : e.status ≠ .published := by
  intro hpublished
  simp [OutboxRow.claimable, hpublished] at h

namespace Dispatch

variable {p : Processor} {w : Nat} {j : EmailProcess} {c : Call} {s s' : Dispatch}
  {id jobID : UUID} {e : OutboxRow}

theorem claimable_of_mem_candidates {now : Timestamp} {picked : List UUID}
    (h : e ∈ s.candidates now picked) : e.claimable now = true := by
  obtain ⟨id, _, hget⟩ := List.mem_filterMap.mp h
  exact (Option.filter_eq_some_iff.mp hget).2

def Known (accepted : List String) (jobID : UUID) (e : OutboxRow) : Prop :=
  e.Waiting ∨ e.status = .published ∧ jobID.text ∈ accepted

/-- Where the event with this id is. Only a published one is ever deleted. -/
inductive Accounted (s : Dispatch) (id jobID : UUID) : Prop
  | stored {e : OutboxRow} (hget : s.outbox.get (.id id) = some e)
      (hknown : Known s.accepted jobID e)
  | deleted {e : OutboxRow} (hmem : e ∈ s.deletedEvents) (hid : e.id = id)
      (hpublished : e.status = .published) (haccepted : jobID.text ∈ s.accepted)

theorem Known.mono {accepted accepted' : List String} (h : Known accepted jobID e)
    (hsub : accepted ⊆ accepted') : Known accepted' jobID e :=
  h.imp_right fun hpub => ⟨hpub.1, hsub hpub.2⟩

theorem Accounted.of_unchanged (h : s.Accounted id jobID) (houtbox : s'.outbox = s.outbox)
    (hdeleted : s'.deletedEvents = s.deletedEvents) (haccepted : s.accepted ⊆ s'.accepted) :
    s'.Accounted id jobID := by
  cases h with
  | stored hget hknown => exact .stored (houtbox ▸ hget) (hknown.mono haccepted)
  | deleted hmem hid hpublished hacc =>
    exact .deleted (hdeleted ▸ hmem) hid hpublished (haccepted hacc)

theorem Accounted.of_revise {f : OutboxRow → OutboxRow} (h : s.Accounted id jobID)
    (houtbox : s'.outbox.get (.id id) = (s.outbox.get (.id id)).map f)
    (hdeleted : s'.deletedEvents = s.deletedEvents) (haccepted : s'.accepted = s.accepted)
    (hrow : ∀ e, e.id = id → Known s.accepted jobID e → Known s.accepted jobID (f e)) :
    s'.Accounted id jobID := by
  cases h with
  | stored hget hknown =>
    refine .stored (e := f _) ?_ (haccepted ▸ hrow _ (OutboxRow.id_of_get hget) hknown)
    rw [houtbox, hget]
    rfl
  | deleted hmem hid hpublished hacc =>
    exact .deleted (hdeleted ▸ hmem) hid hpublished (haccepted ▸ hacc)

theorem Accounted.serves (h : s.Accounted id jobID) (hs : Serves w c s s')
    (hreq : c = .markOutboxEventPublished id → jobID.text ∈ s.accepted) : s'.Accounted id jobID := by
  cases hs with
  | claimed hc hnow hpicked =>
    refine h.of_revise (Table.get_revise _ _ (by intro e; split <;> rfl) _) rfl rfl
      fun e _ hknown => ?_
    split
    · exact Or.inl (Or.inr ⟨rfl, rfl⟩)
    · exact hknown
  | settled hc hget hf =>
    refine h.of_revise (Table.get_revise _ _ (by intro e; split <;> simp [hf]) _) rfl rfl
      fun e hid hknown => ?_
    split
    · rename_i heq
      cases hc with
      | published now => exact Or.inr ⟨rfl, hreq (by rw [← heq, hid])⟩
      | released availableAt lastError => exact Or.inl (Or.inl rfl)
    · exact hknown
  | deletedEvents hc =>
    rename_i publishedBefore
    cases h with
    | stored hget hknown =>
      rename_i e
      cases hexpired : e.expired publishedBefore with
      | false =>
        refine .stored (e := e) ?_ hknown
        rw [Table.get_keep, hget]
        exact Option.filter_some_pos (by simp [hexpired])
      | true =>
        have hstatus : e.status = .published := by
          simp only [OutboxRow.expired, Bool.and_eq_true, beq_iff_eq] at hexpired
          exact hexpired.1
        have haccepted : jobID.text ∈ s.accepted := by
          rcases hknown with (hst | ⟨hst, _⟩) | ⟨_, hacc⟩
          · simp [hst] at hstatus
          · simp [hst] at hstatus
          · exact hacc
        refine .deleted (e := e) ?_ (OutboxRow.id_of_get hget) hstatus haccepted
        exact List.mem_append_left _ (List.mem_filter.mpr ⟨Table.mem_of_get hget, hexpired⟩)
    | deleted hmem hid hpublished hacc =>
      exact .deleted (List.mem_append_right _ hmem) hid hpublished hacc
  | accepted hc => exact h.of_unchanged rfl rfl (List.subset_cons_self _ _)
  | _ => exact h.of_unchanged rfl rfl fun _ h => h

theorem Accounted.happens (h : s.Accounted id jobID) (hs : Happens s s') :
    s'.Accounted id jobID := by
  cases hs with
  | created hjob hevent hfresh hmax =>
    cases h with
    | stored hget hknown => exact .stored (Table.get_insert_of_get hevent hget) hknown
    | deleted hmem hid hpublished hacc => exact .deleted hmem hid hpublished hacc
  | _ => exact h.of_unchanged rfl rfl fun _ h => h

structure NothingLost (s : Dispatch) : Prop where
  job : ∀ {id jobID jobID'}, (id, jobID) ∈ s.committed → (id, jobID') ∈ s.committed →
    jobID' = jobID
  accounted : ∀ {id jobID}, (id, jobID) ∈ s.committed → s.Accounted id jobID

theorem Serves.committed_eq (h : Serves w c s s') : s'.committed = s.committed := by
  cases h <;> rfl

theorem NothingLost.serves (h : NothingLost s) (hs : Serves w c s s')
    (hreq : Requires p w j c s) : NothingLost s' := by
  constructor
  · intro id jobID jobID'
    rw [hs.committed_eq]
    exact h.job
  · intro id jobID hmem
    rw [hs.committed_eq] at hmem
    refine (h.accounted hmem).serves hs fun hc => ?_
    subst hc
    obtain ⟨_, jobID', hcommitted, haccepted⟩ := hreq
    exact h.job hmem hcommitted ▸ haccepted

theorem NothingLost.happens (h : NothingLost s) (hs : Happens s s') : NothingLost s' := by
  cases hs with
  | created hjob hevent hfresh hmax =>
    have hcreated := Happens.created hjob hevent hfresh hmax
    constructor
    · intro id jobID jobID' hmem hmem'
      rcases List.mem_cons.mp hmem with heq | hold
      · rcases List.mem_cons.mp hmem' with heq' | hold'
        · rw [Prod.mk.injEq] at heq heq'
          rw [heq.2, heq'.2]
        · exact absurd (congrArg Prod.fst heq) (hfresh _ hold').1
      · rcases List.mem_cons.mp hmem' with heq' | hold'
        · exact absurd (congrArg Prod.fst heq') (hfresh _ hold).1
        · exact h.job hold hold'
    · intro id jobID hmem
      rcases List.mem_cons.mp hmem with heq | hold
      · obtain ⟨rfl, rfl⟩ := Prod.mk.inj heq
        refine .stored (Table.get_insert_self hevent (by simp [NewJob.event])) ?_
        exact Or.inl (Or.inl rfl)
      · exact (h.accounted hold).happens hcreated
  | _ =>
    refine ⟨fun hmem => h.job hmem, fun hmem => ?_⟩
    exact (h.accounted hmem).of_unchanged rfl rfl fun _ h => h

end Dispatch

open Dispatch

theorem emailRun_nothingLost (p : Processor) (now : Timestamp) (acts : List EmailAction) :
    NothingLost (emailRun p now acts).shared :=
  (emailDiscipline_kept p).shared_induction (P := NothingLost) (emailDiscipline_initial p now) ⟨by simp, by simp⟩
    (fun _ hreq h => h.serves (serve_serves _ _ _ _) hreq) (fun h => h.happens (apply_happens _ _))
    acts

theorem emailRun_sound (p : Processor) (now : Timestamp) (acts : List EmailAction) :
    Sound (emailRun p now acts).shared :=
  ((emailDiscipline_kept p).inForce (emailDiscipline_initial p now) acts).inv

theorem emailRun_grows (p : Processor) (now : Timestamp) (acts acts' : List EmailAction) :
    Grows (emailRun p now acts).shared (emailRun p now (acts ++ acts')).shared :=
  (emailDiscipline_kept p).shared_later (P := Grows (emailRun p now acts).shared) (emailDiscipline_initial p now)
    acts (Grows.refl _) (fun _ _ h => h.trans (serve_serves _ _ _ _).grows)
    (fun h => h.trans (apply_happens _ _).grows) acts'

/-- The event is stored and waits, so that a relay can claim it once it is available and
its last claim has expired; or it is published, or was deleted as a published one, and
the queue has accepted a task for its job. -/
def NotLost (s : Dispatch) (e : OutboxRow) : Prop :=
  (∃ e', s.outbox.get (.id e.id) = some e' ∧ e'.Waiting ∧
    ∀ later, e'.availableAt ≤ later → (∀ until_ ∈ e'.claimedUntil, until_ < later) →
      e'.claimable later = true) ∨
  (∃ e', (s.outbox.get (.id e.id) = some e' ∨ e' ∈ s.deletedEvents ∧ e'.id = e.id) ∧
    e'.status = .published ∧ e.emailJobID.text ∈ s.accepted)

/-- Whatever relays and workers do, in any order and with any failures, no event that has
once been in the outbox is lost. -/
theorem emailRun_notLost (p : Processor) (now : Timestamp) (acts acts' : List EmailAction)
    (e : OutboxRow) (he : e ∈ (emailRun p now acts).shared.outbox.rows) :
    NotLost (emailRun p now (acts ++ acts')).shared e := by
  have hcommitted : (e.id, e.emailJobID) ∈ (emailRun p now (acts ++ acts')).shared.committed :=
    (emailRun_grows p now acts acts').committed ((emailRun_sound p now acts).committed e he)
  cases (emailRun_nothingLost p now (acts ++ acts')).accounted hcommitted with
  | stored hget hknown =>
      rcases hknown with hwaiting | ⟨hpublished, haccepted⟩
      · exact Or.inl ⟨_, hget, hwaiting, fun later havailable hclaim =>
          hwaiting.claimable havailable hclaim⟩
      · exact Or.inr ⟨_, Or.inl hget, hpublished, haccepted⟩
  | deleted hmem hid hpublished haccepted =>
      exact Or.inr ⟨_, Or.inr ⟨hmem, hid⟩, hpublished, haccepted⟩

def relayDies : List EmailAction :=
  [.start 0 (.relay (defaultRelay "a") []), .call 0 {}, .call 0 { picked := [2] }, .call 0 {},
    .call 0 {}, .die 0]

theorem emailRun_notLost_relayDies :
    (emailRun plainProcessor 0 ([.outside (.create firstJob)] ++ relayDies)).shared.accepted =
        [(1 : UUID).text] ∧
      NotLost (emailRun plainProcessor 0 ([.outside (.create firstJob)] ++ relayDies)).shared
        (firstJob.event 0) :=
  ⟨by decide +kernel, emailRun_notLost _ _ _ _ _ (by decide +kernel)⟩

end Monierave
