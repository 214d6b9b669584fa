import Monierave.Emails.System

/-! # What relays and workers may count on

Nothing that has happened is forgotten, and the claims and attempts of a process are
its own business.
-/

namespace Monierave

open Relational Processes

namespace Dispatch

def lease (w : Nat) (id : UUID) : List LeaseEntry → Option Timestamp
  | [] => none
  | .claimed v i until_ :: es => if v = w ∧ i = id then some until_ else lease w id es
  | .settled v i :: es => if v = w ∧ i = id then none else lease w id es

theorem lease_claimed (w v : Nat) (id : UUID) (until_ : Timestamp) (rows : List OutboxRow)
    (es : List LeaseEntry) :
    lease w id (rows.map (fun e => .claimed v e.id until_) ++ es) =
      if v = w ∧ ∃ e ∈ rows, e.id = id then some until_ else lease w id es := by
  induction rows with
  | nil => simp
  | cons e rows ih =>
    simp only [List.map_cons, List.cons_append, lease, ih, List.mem_cons, exists_eq_or_imp]
    by_cases hv : v = w
    · by_cases hid : e.id = id <;> simp [hv, hid]
    · simp [hv]

theorem lease_settled_of_ne {w v : Nat} {id i : UUID} (es : List LeaseEntry)
    (h : v ≠ w ∨ i ≠ id) : lease w id (.settled v i :: es) = lease w id es := by
  rw [lease, if_neg]
  rintro ⟨rfl, rfl⟩
  exact h.elim (fun h => h rfl) fun h => h rfl

structure Grows (s s' : Dispatch) : Prop where
  accepted : s.accepted ⊆ s'.accepted
  committed : s.committed ⊆ s'.committed
  attempts : s.attempts ⊆ s'.attempts
  calls : s.calls ⊆ s'.calls
  tokenFailures : s.tokenFailures ⊆ s'.tokenFailures

theorem Grows.refl (s : Dispatch) : Grows s s :=
  ⟨fun _ h => h, fun _ h => h, fun _ h => h, fun _ h => h, fun _ h => h⟩

theorem Grows.trans {s s' s'' : Dispatch} (h : Grows s s') (h' : Grows s' s'') : Grows s s'' :=
  ⟨List.Subset.trans h.accepted h'.accepted, List.Subset.trans h.committed h'.committed,
    List.Subset.trans h.attempts h'.attempts, List.Subset.trans h.calls h'.calls,
    List.Subset.trans h.tokenFailures h'.tokenFailures⟩

/-- What happens around the process `w`: its claims and attempts stay as they are. -/
structure Around (w : Nat) (s s' : Dispatch) : Prop extends Grows s s' where
  lease : ∀ id, lease w id s'.leases = lease w id s.leases
  inProgress : ∀ id, (w, id) ∈ s'.inProgress ↔ (w, id) ∈ s.inProgress

theorem Around.refl (w : Nat) (s : Dispatch) : Around w s s :=
  ⟨Grows.refl s, fun _ => rfl, fun _ => Iff.rfl⟩

theorem Around.trans {w : Nat} {s s' s'' : Dispatch} (h : Around w s s') (h' : Around w s' s'') :
    Around w s s'' :=
  ⟨h.toGrows.trans h'.toGrows, fun id => (h'.lease id).trans (h.lease id),
    fun id => (h'.inProgress id).trans (h.inProgress id)⟩

variable {w v : Nat} {c : Call} {s s' : Dispatch}

theorem Serves.grows (h : Serves w c s s') : Grows s s' := by
  cases h with
  | edited hc hget hclash hfailures =>
    refine ⟨fun _ h => h, fun _ h => h, fun _ h => h, fun _ h => h, ?_⟩
    rcases hfailures with rfl | rfl
    · exact fun _ h => h
    · exact List.subset_cons_self _ _
  | _ => constructor <;> simp

theorem Happens.grows (h : Happens s s') : Grows s s' := by
  cases h <;> constructor <;> simp

theorem Serves.around_other (h : Serves v c s s') (hne : v ≠ w) : Around w s s' := by
  refine ⟨h.grows, fun id => ?_, fun id => ?_⟩
  · cases h with
    | claimed hc hnow hpicked => exact (lease_claimed w v id _ _ _).trans (if_neg fun h => hne h.1)
    | settled hc hget hf => exact lease_settled_of_ne _ (Or.inl hne)
    | _ => rfl
  · cases h with
    | started hc hget hj' hclash => simp [hne.symm]
    | ended hc hget hclash => simp [hne.symm]
    | _ => rfl

theorem Happens.around (h : Happens s s') (w : Nat) : Around w s s' := by
  refine ⟨h.grows, fun id => ?_, fun id => ?_⟩
  · cases h <;> rfl
  · cases h <;> rfl

end Dispatch

def Call.onLease : Call → Bool
  | claimOutboxEvents _ _ _ | markOutboxEventPublished _ | releaseOutboxEvent _ _ _ => true
  | _ => false

def Call.onAttempt : Call → Bool
  | startEmailJobAttempt _ | markEmailJobRetrying _ _ | markEmailJobSent _ _
  | markEmailJobDeadLetter _ _ => true
  | _ => false

namespace Dispatch

variable {w : Nat} {c : Call} {s s' : Dispatch}

theorem Serves.leases_eq (h : Serves w c s s') (hc : c.onLease = false) : s'.leases = s.leases := by
  cases h with
  | claimed hclaim hnow hpicked =>
    subst hclaim
    cases hc
  | settled hsettle hget hf => cases hsettle <;> cases hc
  | _ => rfl

theorem Serves.inProgress_eq (h : Serves w c s s') (hc : c.onAttempt = false) :
    s'.inProgress = s.inProgress := by
  cases h with
  | started hstart hget hj' hclash =>
    subst hstart
    cases hc
  | ended hend hget hclash => cases hend <;> cases hc
  | _ => rfl

theorem Serves.around_self (h : Serves w c s s') (hl : c.onLease = false)
    (ha : c.onAttempt = false) : Around w s s' :=
  ⟨h.grows, fun id => by rw [h.leases_eq hl], fun id => by rw [h.inProgress_eq ha]⟩

/-- Every stored event was committed for its job and names it; the queue knows only
tasks it has accepted. -/
structure Sound (s : Dispatch) : Prop where
  committed : ∀ e ∈ s.outbox.rows, (e.id, e.emailJobID) ∈ s.committed
  payload : ∀ e ∈ s.outbox.rows, ∃ eventID correlationID,
    e.payload = .email e.emailJobID.text eventID correlationID
  queue : s.queue ⊆ s.accepted

theorem Sound.init (now : Timestamp) : Sound { now := now } :=
  ⟨by simp, by simp, by simp⟩

structure SameEvent (e e' : OutboxRow) : Prop where
  id : e'.id = e.id
  emailJobID : e'.emailJobID = e.emailJobID
  payload : e'.payload = e.payload

theorem Settles.sameEvent {id : UUID} {f : OutboxRow → OutboxRow} (h : Settles c id f)
    (e : OutboxRow) : SameEvent e (f e) := by
  cases h <;> exact ⟨rfl, rfl, rfl⟩

theorem Sound.of_events {f : OutboxRow → OutboxRow} (h : Sound s)
    (hsame : ∀ e, SameEvent e (f e)) (hrows : s'.outbox.rows = s.outbox.rows.map f)
    (hcommitted : s'.committed = s.committed) (hqueue : s'.queue ⊆ s'.accepted) : Sound s' := by
  refine ⟨?_, ?_, hqueue⟩
  · intro e he
    rw [hrows] at he
    obtain ⟨o, ho, rfl⟩ := List.mem_map.mp he
    rw [hcommitted, (hsame o).id, (hsame o).emailJobID]
    exact h.committed o ho
  · intro e he
    rw [hrows] at he
    obtain ⟨o, ho, rfl⟩ := List.mem_map.mp he
    rw [(hsame o).payload, (hsame o).emailJobID]
    exact h.payload o ho

theorem Sound.serves (h : Sound s) (hs : Serves w c s s') : Sound s' := by
  cases hs with
  | claimed hc hnow hpicked =>
    refine h.of_events (fun e => ?_) rfl rfl h.queue
    split <;> exact ⟨rfl, rfl, rfl⟩
  | settled hc hget hf =>
    refine h.of_events (fun e => ?_) rfl rfl h.queue
    split
    · exact hc.sameEvent e
    · exact ⟨rfl, rfl, rfl⟩
  | deletedEvents hc =>
    exact ⟨fun e he => h.committed e (List.mem_of_mem_filter he),
      fun e he => h.payload e (List.mem_of_mem_filter he), h.queue⟩
  | accepted hc => exact ⟨h.committed, h.payload, List.cons_subset_cons _ h.queue⟩
  | _ => exact ⟨h.committed, h.payload, h.queue⟩

theorem Sound.happens (h : Sound s) (hs : Happens s s') : Sound s' := by
  cases hs with
  | created hjob hevent hfresh hmax =>
    refine ⟨?_, ?_, h.queue⟩
    · intro e he
      rcases (Table.mem_insert hevent).mp he with he | rfl
      · exact List.mem_cons_of_mem _ (h.committed e he)
      · exact List.mem_cons_self
    · intro e he
      rcases (Table.mem_insert hevent).mp he with he | rfl
      · exact h.payload e he
      · exact ⟨_, _, rfl⟩
  | forgot taskID =>
    exact ⟨h.committed, h.payload, fun t ht => h.queue (List.mem_of_mem_filter ht)⟩
  | _ => exact ⟨h.committed, h.payload, h.queue⟩

end Dispatch

/-- The worker can do nothing with the job: its type is unknown, or its payload is not
an object. -/
def EmailJobRow.Invalid (j : EmailJobRow) : Prop :=
  (j.jobType ≠ "" ∧ j.jobType ≠ emailJobTypeVerifyEmail ∧
    j.jobType ≠ emailJobTypeFinancialNotification) ∨ ∃ text, j.payload = .other text

/-- Why the process `w`, which runs `j`, may give up the job `id`: the mailer called the
error permanent, the job is invalid, its last attempt has been made, or the queue has
no retries left for the task. -/
inductive DeadLetterCause (p : Processor) (w : Nat) (j : EmailProcess) (id : UUID) (s : Dispatch) :
    Prop
  | permanent {call : MailCall} {err : SendError} (hcall : call ∈ s.calls)
      (hworker : call.worker = w) (hjob : p.parseUUID call.message.jobID = .ok id)
      (hanswer : call.answer = .error err) (herr : err.permanent = true)
  | invalid {a : Attempt} (ha : a ∈ s.attempts) (hworker : a.worker = w) (hjob : a.job.id = id)
      (hinvalid : a.job.Invalid)
  | lastAttempt {a : Attempt} (ha : a ∈ s.attempts) (hworker : a.worker = w)
      (hjob : a.job.id = id) (hlast : a.job.maxAttempts ≤ a.job.attemptCount)
  | retriesExhausted {retried maxRetry : Nat} {payload : PayloadSendEmail} {taskErr : String}
      (hj : j = .handleError (some retried) (some maxRetry) (.email payload) taskErr)
      (hjob : p.parseUUID payload.jobID = .ok id) (hretried : maxRetry ≤ retried)

theorem DeadLetterCause.of_grows {p : Processor} {w : Nat} {j : EmailProcess} {id : UUID}
    {s s' : Dispatch} (h : DeadLetterCause p w j id s) (hgrows : s.Grows s') :
    DeadLetterCause p w j id s' := by
  cases h with
  | permanent hcall hworker hjob hanswer herr =>
    exact .permanent (hgrows.calls hcall) hworker hjob hanswer herr
  | invalid ha hworker hjob hinvalid => exact .invalid (hgrows.attempts ha) hworker hjob hinvalid
  | lastAttempt ha hworker hjob hlast => exact .lastAttempt (hgrows.attempts ha) hworker hjob hlast
  | retriesExhausted hj hjob hretried => exact .retriesExhausted hj hjob hretried

/-- What the process `w` knows when it makes the call. -/
def Requires (p : Processor) (w : Nat) (j : EmailProcess) : Call → Dispatch → Prop
  | .markOutboxEventPublished id, s => (Dispatch.lease w id s.leases).isSome = true ∧
      ∃ jobID, (id, jobID) ∈ s.committed ∧ jobID.text ∈ s.accepted
  | .releaseOutboxEvent id _ _, s => (Dispatch.lease w id s.leases).isSome = true
  | .markEmailJobRetrying id _, s => (w, id) ∈ s.inProgress
  | .markEmailJobSent id providerMessageID, s => ∃ call ∈ s.calls,
      p.parseUUID call.message.jobID = .ok id ∧ call.answer = .ok providerMessageID
  | .markEmailJobDeadLetter id _, s => DeadLetterCause p w j id s ∨ w ∈ s.tokenFailures
  | .sendVerificationEmail message, s | .sendFinancialNotification message, s =>
    ∃ a ∈ s.attempts, a.worker = w ∧ p.parseUUID message.jobID = .ok a.job.id
  | _, _ => True

def emailDiscipline (p : Processor) : Discipline (emailSystem p) where
  inv := Dispatch.Sound
  req := Requires p
  rely := Dispatch.Around
  fresh w s := ∀ id, (w, id) ∉ s.inProgress
  refl := Dispatch.Around.refl
  trans := Dispatch.Around.trans
  others hne _ := (Dispatch.serve_serves _ _ _ _).around_other hne
  around := (Dispatch.apply_happens _ _).around _
  fresh_rely h ha id hmem := h id ((ha.inProgress id).mp hmem)
  inv_serve h _ := h.serves (Dispatch.serve_serves _ _ _ _)
  inv_outside h := h.happens (Dispatch.apply_happens _ _)

theorem emailDiscipline_initial (p : Processor) (now : Timestamp) :
    (emailDiscipline p).Initial { now := now } :=
  ⟨Dispatch.Sound.init now, fun _ _ => List.not_mem_nil⟩

end Monierave
