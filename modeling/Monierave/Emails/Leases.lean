import Monierave.Emails.Outbox

/-! # Claims that expire

A relay claims an event for a limited time, but neither `MarkOutboxEventPublished`
nor `ReleaseOutboxEvent` looks at who has claimed it.
-/

namespace Monierave

open Relational Processes

namespace Dispatch

variable {w v : Nat} {c : Call} {s s' : Dispatch}
  {id : UUID} {until_ : Timestamp} {e : OutboxRow}

def latestClaimant (id : UUID) : List LeaseEntry → Option Nat
  | [] => none
  | .claimed w i _ :: es => if i = id then some w else latestClaimant id es
  | .settled _ _ :: es => latestClaimant id es

theorem latestClaimant_claimed (w : Nat) (id : UUID) (until_ : Timestamp) (rows : List OutboxRow)
    (es : List LeaseEntry) :
    latestClaimant id (rows.map (fun e => .claimed w e.id until_) ++ es) =
      if ∃ e ∈ rows, e.id = id then some w else latestClaimant id es := by
  induction rows with
  | nil => simp
  | cons e rows ih =>
    simp only [List.map_cons, List.cons_append, latestClaimant, ih, List.mem_cons,
      exists_eq_or_imp]
    by_cases hid : e.id = id <;> simp [hid]

def HoldsClaim (s : Dispatch) (w : Nat) (id : UUID) : Prop :=
  ∃ until_, lease w id s.leases = some until_ ∧ s.now ≤ until_

def ClaimsAgree (s : Dispatch) : Prop :=
  ∀ w id until_, lease w id s.leases = some until_ → s.now ≤ until_ →
    latestClaimant id s.leases = some w ∧
      ∃ e, s.outbox.get (.id id) = some e ∧ e.status = .publishing ∧ e.claimedUntil = some until_

theorem ClaimsAgree.unique (h : ClaimsAgree s) (hw : s.HoldsClaim w id) (hv : s.HoldsClaim v id) :
    w = v := by
  obtain ⟨_, hlease, hnow⟩ := hw
  obtain ⟨_, hlease', hnow'⟩ := hv
  exact Option.some.inj ((h w id _ hlease hnow).1.symm.trans (h v id _ hlease' hnow').1)

def InTime (s s' : Dispatch) : Prop :=
  ∀ w id, s'.leases = .settled w id :: s.leases → s.HoldsClaim w id

def settledBy (s s' : Dispatch) : Option (Nat × UUID) :=
  match s'.leases with
  | .settled w id :: es => if es = s.leases then some (w, id) else none
  | _ => none

theorem settledBy_eq_some : settledBy s s' = some (w, id) ↔
    s'.leases = .settled w id :: s.leases := by
  unfold settledBy
  split
  · rename_i v i es heq
    rw [heq]
    by_cases hes : es = s.leases
    · simp [hes]
    · simp [hes]
  · rename_i hne
    constructor
    · intro h
      cases h
    · intro h
      exact absurd h (hne w id s.leases)

instance (s : Dispatch) (w : Nat) (id : UUID) : Decidable (s.HoldsClaim w id) :=
  decidable_of_iff ((lease w id s.leases).any (fun until_ => decide (s.now ≤ until_)) = true) <| by
    simp [HoldsClaim, Option.any_eq_true]

instance (s s' : Dispatch) : Decidable (InTime s s') :=
  decidable_of_iff (∀ x ∈ settledBy s s', s.HoldsClaim x.1 x.2) <| by
    simp [InTime, settledBy_eq_some]

theorem ClaimsAgree.of_unchanged (h : ClaimsAgree s) (hleases : s'.leases = s.leases)
    (hnow : s.now ≤ s'.now) (houtbox : ∀ id e, s.outbox.get (.id id) = some e →
      e.status = .publishing → s'.outbox.get (.id id) = some e) : ClaimsAgree s' := by
  intro w id until_ hlease hlate
  rw [hleases] at hlease ⊢
  obtain ⟨hlatest, e, hget, hstatus, hclaim⟩ := h w id until_ hlease (hnow.trans hlate)
  exact ⟨hlatest, e, houtbox id e hget hstatus, hstatus, hclaim⟩

theorem ClaimsAgree.not_candidate (h : ClaimsAgree s) {now : Timestamp} {picked : List UUID}
    (hnow : now ≤ s.now) (he : e ∈ s.candidates now picked) : ¬ s.HoldsClaim w e.id := by
  rintro ⟨until_, hlease, hlate⟩
  obtain ⟨_, e', hget', hstatus, hclaim⟩ := h w e.id until_ hlease hlate
  obtain ⟨id, _, hfilter⟩ := List.mem_filterMap.mp he
  obtain ⟨hget, hclaimable⟩ := Option.filter_eq_some_iff.mp hfilter
  rw [← OutboxRow.id_of_get hget] at hget
  obtain rfl := Option.some.inj (hget.symm.trans hget')
  simp only [OutboxRow.claimable, hstatus, hclaim, Bool.and_eq_true, Bool.or_eq_true,
    Option.any_some, decide_eq_true_eq, beq_iff_eq] at hclaimable
  obtain ⟨_, hpending | ⟨_, hexpired⟩⟩ := hclaimable
  · cases hpending
  · exact absurd (hexpired.trans_le hnow) (not_lt.mpr hlate)

theorem ClaimsAgree.serves (h : ClaimsAgree s) (hs : Serves w c s s') (htime : InTime s s') :
    ClaimsAgree s' := by
  cases hs with
  | claimed hc hnow hpicked =>
    rename_i now claimedUntil picked claimedBy size
    intro v id until_ hlease hlate
    dsimp only at hlease hlate ⊢
    rw [lease_claimed] at hlease
    rw [latestClaimant_claimed, Table.get_revise _ _ (by intro e; split <;> rfl)]
    by_cases hid : ∃ e ∈ s.candidates now picked, e.id = id
    · obtain ⟨e, he, rfl⟩ := hid
      by_cases hwv : w = v
      · subst hwv
        rw [if_pos ⟨rfl, e, he, rfl⟩, Option.some.injEq] at hlease
        subst hlease
        obtain ⟨id, _, hfilter⟩ := List.mem_filterMap.mp he
        have hget := (Option.filter_eq_some_iff.mp hfilter).1
        rw [← OutboxRow.id_of_get hget] at hget
        refine ⟨if_pos ⟨e, he, rfl⟩, e.claim claimedBy claimedUntil, ?_, rfl, rfl⟩
        rw [hget, Option.map_some, if_pos he]
      · rw [if_neg fun h => hwv h.1] at hlease
        exact absurd ⟨until_, hlease, hlate⟩ (h.not_candidate hnow he)
    · rw [if_neg fun h => hid h.2] at hlease
      obtain ⟨hlatest, e, hget, hstatus, hclaim⟩ := h v id until_ hlease hlate
      refine ⟨by rw [if_neg hid]; exact hlatest, e, ?_, hstatus, hclaim⟩
      rw [hget, Option.map_some, if_neg]
      exact fun he => hid ⟨e, he, OutboxRow.id_of_get hget⟩
  | settled hc hget hf =>
    rename_i id e f
    have hholds := htime w id rfl
    intro v i until_ hlease hlate
    dsimp only at hlease hlate ⊢
    have hne : ¬ (w = v ∧ id = i) := by
      rintro ⟨rfl, rfl⟩
      simp [lease] at hlease
    rw [lease, if_neg hne] at hlease
    have hid : i ≠ id := by
      rintro rfl
      exact hne ⟨h.unique hholds ⟨until_, hlease, hlate⟩, rfl⟩
    obtain ⟨hlatest, e', hget', hstatus, hclaim⟩ := h v i until_ hlease hlate
    refine ⟨hlatest, e', ?_, hstatus, hclaim⟩
    rw [Table.get_revise _ _ (by intro e; split <;> simp [hf]), hget', Option.map_some, if_neg]
    rwa [OutboxRow.id_of_get hget']
  | deletedEvents hc =>
    refine h.of_unchanged rfl le_rfl fun id e hget hstatus => ?_
    rw [Table.get_keep, hget]
    exact Option.filter_some_pos (by simp [OutboxRow.expired, hstatus])
  | _ => exact h.of_unchanged rfl le_rfl fun _ _ hget _ => hget

theorem ClaimsAgree.happens (h : ClaimsAgree s) (hs : Happens s s') : ClaimsAgree s' := by
  cases hs with
  | tick micros => exact h.of_unchanged rfl (by simp) fun _ _ hget _ => hget
  | created hjob hevent hfresh hmax =>
    exact h.of_unchanged rfl le_rfl fun _ _ hget _ => Table.get_insert_of_get hevent hget
  | _ => exact h.of_unchanged rfl le_rfl fun _ _ hget _ => hget

structure Settled (s : Dispatch) (id : UUID) : Prop where
  published : ∀ e, s.outbox.get (.id id) = some e → e.status = .published
  committed : ∃ jobID, (id, jobID) ∈ s.committed

theorem Settled.of_unchanged (h : s.Settled id) (hcommitted : s.committed ⊆ s'.committed)
    (houtbox : ∀ e', s'.outbox.get (.id id) = some e' →
      ∃ e, s.outbox.get (.id id) = some e ∧ e'.status = e.status) : s'.Settled id := by
  refine ⟨fun e' hget' => ?_, h.committed.imp fun _ hmem => hcommitted hmem⟩
  obtain ⟨e, hget, hstatus⟩ := houtbox e' hget'
  exact hstatus.trans (h.published e hget)

theorem Settled.serves (h : s.Settled id) (hagree : ClaimsAgree s) (hs : Serves w c s s')
    (htime : InTime s s') : s'.Settled id := by
  cases hs with
  | claimed hc hnow hpicked =>
    refine h.of_unchanged (fun _ h => h) fun e' hget' => ?_
    rw [Table.get_revise _ _ (by intro e; split <;> rfl), Option.map_eq_some_iff] at hget'
    obtain ⟨e, hget, rfl⟩ := hget'
    refine ⟨e, hget, ?_⟩
    split
    · rename_i hmem
      exact absurd (h.published e hget)
        (OutboxRow.not_published_of_claimable (claimable_of_mem_candidates hmem))
    · rfl
  | settled hc hrow hf =>
    rename_i i row f
    obtain ⟨until_, hlease, hlate⟩ := htime w i rfl
    obtain ⟨_, e₀, hget₀, hstatus, _⟩ := hagree w i until_ hlease hlate
    refine h.of_unchanged (fun _ h => h) fun e' hget' => ?_
    rw [Table.get_revise _ _ (by intro e; split <;> simp [hf]), Option.map_eq_some_iff] at hget'
    obtain ⟨e₁, hget₁, rfl⟩ := hget'
    refine ⟨e₁, hget₁, ?_⟩
    split
    · rename_i hid
      -- the row is being published by the holder of the claim, so it is not published yet
      rw [OutboxRow.id_of_get hget₁] at hid
      rw [hid] at hget₁
      have hpublished : e₀.status = .published := by
        rw [← Option.some.inj (hget₁.symm.trans hget₀)]
        exact h.published e₁ (hid ▸ hget₁)
      exact absurd (hstatus.symm.trans hpublished) (by decide)
    · rfl
  | deletedEvents hc =>
    refine h.of_unchanged (fun _ h => h) fun e' hget' => ?_
    rw [Table.get_keep, Option.filter_eq_some_iff] at hget'
    exact ⟨e', hget'.1, rfl⟩
  | _ => exact h.of_unchanged (fun _ h => h) fun e' hget' => ⟨e', hget', rfl⟩

theorem Settled.happens (h : s.Settled id) (hs : Happens s s') : s'.Settled id := by
  cases hs with
  | created hjob hevent hfresh hmax =>
    refine h.of_unchanged (List.subset_cons_self _ _) fun e' hget' => ⟨e', ?_, rfl⟩
    rw [Table.get_insert hevent] at hget'
    split at hget'
    · rename_i hkey
      obtain ⟨jobID, hmem⟩ := h.committed
      exact absurd (OutboxRow.id_mem_keys.mp hkey) (hfresh _ hmem).1
    · exact hget'
  | _ => exact h.of_unchanged (fun _ h => h) fun e' hget' => ⟨e', hget', rfl⟩

end Dispatch

open Dispatch

def RunInTime (p : Processor) (now : Timestamp) (acts : List EmailAction) : Prop :=
  (emailSystem p).EveryStep (fun s s' => InTime s.shared s'.shared) (State.init { now := now }) acts

section Runs

variable {p : Processor} {now : Timestamp} {acts acts' : List EmailAction}

theorem emailRun_claimsAgree (htime : RunInTime p now acts) :
    ClaimsAgree (emailRun p now acts).shared := by
  induction acts using List.reverseRecOn with
  | nil => simp [ClaimsAgree, emailRun, State.init, lease]
  | append_singleton acts act ih =>
    have hlast := System.EveryStep.last htime
    rw [emailRun_snoc]
    rcases moves_cases ((emailSystem p).step_moves (emailRun p now acts) act) with ⟨w, c, hs⟩ | hs
    · exact (ih (System.EveryStep.left htime)).serves hs hlast
    · exact (ih (System.EveryStep.left htime)).happens hs

theorem emailRun_settled {id : UUID} (h : (emailRun p now acts).shared.Settled id)
    (htime : RunInTime p now (acts ++ acts')) :
    (emailRun p now (acts ++ acts')).shared.Settled id := by
  induction acts' using List.reverseRecOn with
  | nil => rwa [List.append_nil]
  | append_singleton acts' act ih =>
    rw [← List.append_assoc] at htime ⊢
    have hlast := System.EveryStep.last htime
    rw [emailRun_snoc]
    rcases moves_cases ((emailSystem p).step_moves (emailRun p now (acts ++ acts')) act) with
      ⟨w, c, hs⟩ | hs
    · exact (ih (System.EveryStep.left htime)).serves (emailRun_claimsAgree (System.EveryStep.left htime)) hs hlast
    · exact (ih (System.EveryStep.left htime)).happens hs

/-- As long as no relay marks or releases an event after its claim has expired: it is
always the relay with the latest claim that does so, no two relays hold claims on one
event at the same time, and a published event stays published until it is deleted. -/
theorem emailRun_claims_exclusive (p : Processor) (now : Timestamp) (acts : List EmailAction)
    (htime : RunInTime p now acts) :
    (∀ pre act post w id, acts = pre ++ act :: post →
      (emailRun p now (pre ++ [act])).shared.leases =
        .settled w id :: (emailRun p now pre).shared.leases →
      latestClaimant id (emailRun p now pre).shared.leases = some w) ∧
    (∀ pre post id w v, acts = pre ++ post → (emailRun p now pre).shared.HoldsClaim w id →
      (emailRun p now pre).shared.HoldsClaim v id → w = v) ∧
    (∀ pre mid post id e e', acts = pre ++ mid ++ post →
      (emailRun p now pre).shared.outbox.get (.id id) = some e → e.status = .published →
      (emailRun p now (pre ++ mid)).shared.outbox.get (.id id) = some e' →
      e'.status = .published) := by
  refine ⟨?_, ?_, ?_⟩
  · intro pre act post w id heq hsettled
    subst heq
    obtain ⟨until_, hlease, hlate⟩ := htime pre act post rfl w id hsettled
    exact (emailRun_claimsAgree (System.EveryStep.left htime) w id until_ hlease hlate).1
  · intro pre post id w v heq hw hv
    subst heq
    exact (emailRun_claimsAgree (System.EveryStep.left htime)).unique hw hv
  · intro pre mid post id e e' heq hget hpublished hget'
    subst heq
    have hsettled : (emailRun p now pre).shared.Settled id := by
      refine ⟨fun e₁ hget₁ => ?_, e.emailJobID, ?_⟩
      · rwa [← Option.some.inj (hget.symm.trans hget₁)]
      · have hcommitted := (emailRun_sound p now pre).committed e (Table.mem_of_get hget)
        rwa [OutboxRow.id_of_get hget] at hcommitted
    exact (emailRun_settled hsettled (System.EveryStep.left htime)).published e' hget'

end Runs

/-! ## A relay that is late

The relay 0 claims the event and is held up for 31 seconds. The relay 1 claims the event
anew. Then the relay 0 cannot reach the queue and releases the event, which the relay 2
claims and publishes; at last the relay 1 cannot reach the queue and releases it once
more. -/

def claims (w : Nat) (instanceID : String) : List EmailAction :=
  [.start w (.relay (defaultRelay instanceID) []), .call w {}, .call w { picked := [2] }]

def failsToPublish (w : Nat) : List EmailAction :=
  [.call w {}, .call w { fate := .refused, error := "timeout" }, .call w {}, .call w {}]

def publishes (w : Nat) : List EmailAction :=
  [.call w {}, .call w {}, .call w {}]

def seconds (n : Nat) : EmailAction := .outside (.tick (n * microsPerSecond))

def heldUp : List EmailAction :=
  .outside (.create firstJob) :: claims 0 "a" ++ [seconds 31] ++ claims 1 "b" ++ failsToPublish 0

def claimedTwice : List EmailAction :=
  heldUp ++ [.call 0 {}] ++ [seconds 3] ++ claims 2 "c"

def publishedAndReleased : List EmailAction :=
  claimedTwice ++ publishes 2 ++ failsToPublish 1 ++ [.call 1 {}]

/-- The late relay releases the event though another one has claimed it since; then two
relays hold claims on it at the same time; and after it was published it is pending
again. -/
theorem late_relay_interferes :
    ((emailRun plainProcessor 0 (heldUp ++ [.call 0 {}])).shared.leases =
        .settled 0 2 :: (emailRun plainProcessor 0 heldUp).shared.leases ∧
      latestClaimant 2 (emailRun plainProcessor 0 heldUp).shared.leases = some 1) ∧
    ((emailRun plainProcessor 0 claimedTwice).shared.HoldsClaim 1 2 ∧
      (emailRun plainProcessor 0 claimedTwice).shared.HoldsClaim 2 2) ∧
    (((emailRun plainProcessor 0 (claimedTwice ++ publishes 2)).shared.outbox.get (.id 2)).map
        (·.status) = some .published ∧
      ((emailRun plainProcessor 0 publishedAndReleased).shared.outbox.get (.id 2)).map
        (·.status) = some .pending) := by
  refine ⟨⟨?_, ?_⟩, ⟨?_, ?_⟩, ?_, ?_⟩ <;> decide +kernel

/-- The claim of one relay expires, and another one claims the event and publishes it. -/
def promptRelay : List EmailAction :=
  .outside (.create firstJob) :: claims 0 "a" ++ [seconds 31] ++ claims 1 "b" ++ publishes 1

theorem emailRun_claims_exclusive_prompt :
    RunInTime plainProcessor 0 promptRelay ∧
    (∀ pre post id w v, promptRelay = pre ++ post →
      (emailRun plainProcessor 0 pre).shared.HoldsClaim w id →
      (emailRun plainProcessor 0 pre).shared.HoldsClaim v id → w = v) := by
  have htime : RunInTime plainProcessor 0 promptRelay := .of_take (by decide +kernel)
  exact ⟨htime, (emailRun_claims_exclusive plainProcessor 0 promptRelay htime).2.1⟩

end Monierave
