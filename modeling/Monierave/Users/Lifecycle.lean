import Monierave.Banking.System
import Monierave.Users.Store

/-! # The life of an account

Account status, verification and deadline of a user say the same thing in three
columns, and an undeliverable address is given up only for another one.
-/

namespace Monierave

open Relational ReadCommitted Prog

structure User.Settled (u : User) : Prop where
  active_iff : u.accountStatus = .active ↔ u.emailVerifiedAt.isSome = true
  verified_iff : u.emailVerifiedAt.isSome = true ↔ u.registrationExpiresAt = none
  undeliverable : u.emailDeliverabilityStatus = .undeliverable → u.accountStatus ≠ .active

def UserTx.changesEmail (t : UserTx) (u : User) : Prop :=
  ∃ env arg, t = .updateUser env arg ∧ arg.username = u.username ∧ u.emailChanges arg.email = true

variable {t : UserTx} {o r u : User}

theorem User.settled_newUser (now : Timestamp) (arg : CreateUserParams) :
    (newUser now arg).Settled :=
  ⟨by simp [newUser], by simp [newUser], by simp [newUser]⟩

/-- A row in order stays in order. What the transaction has checked is still so
after its change. -/
def UserTx.Settles (t : UserTx) (o r : User) : Prop :=
  o.Settled ∧ t.checked o → r.Settled ∧ t.checked r

def UserTx.Holds (t : UserTx) (o r : User) : Prop :=
  t.checked o ∧ o.emailDeliverabilityStatus = .undeliverable →
    (t.checked r ∧ r.emailDeliverabilityStatus = .undeliverable ∧ r.username = o.username ∧
      Unicode.lower r.email = Unicode.lower o.email) ∨ t.changesEmail o

theorem UserTx.Holds.refl (t : UserTx) (u : User) : t.Holds u u :=
  fun h => Or.inl ⟨h.1, h.2, rfl, rfl⟩

theorem User.emailChanges_congr (hemail : Unicode.lower r.email = Unicode.lower o.email)
    (email : Option String) : r.emailChanges email = o.emailChanges email := by
  cases email with
  | none => rfl
  | some email => simp [User.emailChanges, hemail]

theorem UserTx.Holds.trans (h : t.Holds o r) (h' : t.Holds r u) : t.Holds o u := by
  intro ho
  rcases h ho with ⟨hcr, hr, hname, hemail⟩ | hchange
  · rcases h' ⟨hcr, hr⟩ with ⟨hcu, hu, hname', hemail'⟩ | ⟨env, arg, ht, harg, hchange⟩
    · exact Or.inl ⟨hcu, hu, hname'.trans hname, hemail'.trans hemail⟩
    · refine Or.inr ⟨env, arg, ht, harg.trans hname, ?_⟩
      rwa [User.emailChanges_congr hemail] at hchange
  · exact Or.inr hchange

theorem User.settled_update {now : Timestamp} {arg : UpdateUserParams} (h : o.Settled) :
    (o.update now arg).Settled := by
  by_cases hchange : o.emailChanges arg.email = true
  · constructor <;> simp [User.update, hchange]
  · constructor
    · simpa [User.update, hchange] using h.active_iff
    · simpa [User.update, hchange] using h.verified_iff
    · simpa [User.update, hchange] using h.undeliverable

theorem User.settled_report {now : Timestamp} {arg : UpdateCurrentUserEmailDeliverabilityParams}
    (h : o.Settled) : (o.report now arg).Settled := by
  by_cases hlost : arg.deliverabilityStatus = .undeliverable
  · constructor <;> simp [User.report, hlost]
  · constructor
    · simpa [User.report, hlost] using h.active_iff
    · simpa [User.report, hlost] using h.verified_iff
    · simp [User.report, hlost]

theorem User.settled_restartVerification {now : Timestamp} (h : o.Settled)
    (hactive : ¬ (o.emailVerifiedAt.isSome = true ∧ o.accountStatus = .active)) :
    (o.restartVerification now).Settled := by
  have hverified : ¬ o.emailVerifiedAt.isSome = true :=
    fun hv => hactive ⟨hv, h.active_iff.mpr hv⟩
  constructor
  · simp [User.restartVerification]
  · by_cases hdisabled : o.accountStatus = .disabled
    · simp [User.restartVerification, hdisabled]
    · simpa [User.restartVerification, hdisabled] using fun hn => hverified (h.verified_iff.mpr hn)
  · simp [User.restartVerification]

theorem User.settled_disable {now : Timestamp} (h : o.Settled)
    (hover : o.registrationOver now = true) : o.disable.Settled := by
  have hpending : o.accountStatus = .pending := by
    have := hover
    simp only [User.registrationOver, Bool.and_eq_true, beq_iff_eq] at this
    exact this.1
  have hverified : ¬ o.emailVerifiedAt.isSome = true := by
    rw [← h.active_iff, hpending]
    simp
  constructor
  · simpa [User.disable] using hverified
  · simpa [User.disable] using h.verified_iff
  · simp [User.disable]

theorem UserTx.changes.settles (h : t.changes o r) (hguard : t.guarded o r) : t.Settles o r := by
  rintro ⟨ho, hchecked⟩
  cases t with
  | updateUser env arg =>
    obtain ⟨_, rfl⟩ := h
    exact ⟨User.settled_update ho, trivial⟩
  | requestEmailVerification env username =>
    obtain rfl := h
    exact ⟨User.settled_restartVerification ho (hchecked hguard).1,
      fun _ => ⟨by simp [User.restartVerification], by simp [User.restartVerification]⟩⟩
  | verifyUserEmail env arg =>
    obtain ⟨_, _, rfl⟩ := h
    exact ⟨⟨by simp [User.markVerified], by simp [User.markVerified],
      by simp [User.markVerified]⟩, fun _ => by simp [User.markVerified]⟩
  | processEmailDeliveryEvent env arg =>
    obtain ⟨_, rfl⟩ := h
    exact ⟨User.settled_report ho, trivial⟩
  | disableExpiredPendingUser now username =>
    obtain rfl := h
    exact ⟨User.settled_disable ho hguard, trivial⟩
  | disableExpiredPendingUsers now =>
    obtain rfl := h
    exact ⟨User.settled_disable ho hguard, trivial⟩
  | _ => exact h.elim

theorem UserTx.changes.holds (h : t.changes o r) (hguard : t.guarded o r) : t.Holds o r := by
  rintro ⟨hchecked, hlost⟩
  cases t with
  | updateUser env arg =>
    obtain ⟨hname, rfl⟩ := h
    by_cases hchange : o.emailChanges arg.email = true
    · exact Or.inr ⟨env, arg, rfl, hname.symm, hchange⟩
    · left
      refine ⟨trivial, by simpa [User.update, hchange] using hlost, rfl, ?_⟩
      cases hemail : arg.email with
      | none => simp [User.update, hemail]
      | some email => simpa [User.update, hemail, User.emailChanges] using hchange
  | requestEmailVerification env username => exact absurd hlost (hchecked hguard).2
  | verifyUserEmail env arg => exact absurd hlost (hchecked h.1)
  | processEmailDeliveryEvent env arg =>
    -- the guard of the statement lets an undeliverable address be reported only again
    obtain ⟨arg', happlies, rfl⟩ := hguard
    simp only [User.reportApplies, Bool.and_eq_true, hlost] at happlies
    have hagain : arg'.deliverabilityStatus = .undeliverable := by simpa using happlies.2
    exact Or.inl ⟨trivial, hagain, rfl, rfl⟩
  | disableExpiredPendingUser now username =>
    obtain rfl := h
    exact Or.inl ⟨trivial, hlost, rfl, rfl⟩
  | disableExpiredPendingUsers now =>
    obtain rfl := h
    exact Or.inl ⟨trivial, hlost, rfl, rfl⟩
  | _ => exact h.elim

variable {a : UserResponse} {ws : List Write} {held : List LockKey} {db : DB}

theorem UserTx.Commits.settled (h : t.Commits a ws held db)
    (hu : u ∈ (view ws db).users.rows)
    (hbefore : ∀ o ∈ db.users.rows, o.username = u.username → o.Settled) : u.Settled := by
  rw [users_view] at hu
  rcases Table.origin_of_mem_edit (Q := t.Settles) (fun _ h => h) (fun hab hbc h => hbc (hab h))
    (users_legits h.legit) hu
    (fun o r hr _ => UserTx.changes.settles (h.post.1 (.updateUser o r) (by simpa using hr))
      (h.guarded o r (by simpa using hr))) with ⟨o, ho, hpk, hsettles⟩ | ⟨o, ho, _, hsettles⟩
  · exact (hsettles ⟨hbefore o ho (UserKey.username.inj hpk), h.checked o ho⟩).1
  · obtain ⟨env, arg, rfl, rfl⟩ := h.post.1 (.insertUser o) (by simpa using ho)
    exact (hsettles ⟨User.settled_newUser env.now arg, trivial⟩).1

theorem UserTx.Commits.holds (h : t.Commits a ws held db) (hu : u ∈ db.users.rows)
    (hlost : u.emailDeliverabilityStatus = .undeliverable) :
    (∃ u' ∈ (view ws db).users.rows, u'.username = u.username ∧
        u'.emailDeliverabilityStatus = .undeliverable) ∨ t.changesEmail u := by
  obtain ⟨u', hu', hholds⟩ := Table.get_edit_of_get (Holds.refl t) (fun h h' => h.trans h')
    (users_legits h.legit) hu
    (fun o r hr _ => UserTx.changes.holds (h.post.1 (.updateUser o r) (by simpa using hr))
      (h.guarded o r (by simpa using hr)))
  rcases hholds ⟨h.checked u hu, hlost⟩ with ⟨_, hlost', hname, _⟩ | hchange
  · refine Or.inl ⟨u', ?_, hname, hlost'⟩
    rw [users_view]
    exact Table.mem_of_get hu'
  · exact Or.inr hchange

/-- The action commits an `UpdateUserTx` that changes the stored address of the
user. -/
def ChangesEmail (s : UserStoreState) (act : UserStoreAction) (username : String) : Prop :=
  ∃ w op r a u, act = .commit w ∧ s.workers w = .running op r ∧ r.rest = .ret a ∧
    s.db.users.get (.username username) = some u ∧ r.tx.changesEmail u

/-- From the state after `acts` on, throughout `later`, the address of the user has
been undeliverable and no verification has been requested for it. -/
def StaysUndeliverable (db₀ : DB) (acts later : List UserStoreAction) (username : String) : Prop :=
  (∃ u ∈ (userStoreRun db₀ (acts ++ later)).db.users.rows, u.username = username ∧
    u.emailDeliverabilityStatus = .undeliverable) ∧
  ∃ new, (userStoreRun db₀ (acts ++ later)).log = (userStoreRun db₀ acts).log ++ new ∧
    ∀ env a, (UserTx.requestEmailVerification env username, a) ∉ new

variable {db₀ : DB} {acts later : List UserStoreAction} {act : UserStoreAction}

theorem userStoreRun_settled (db₀ : DB) (acts : List UserStoreAction) (u : User)
    (hu : u ∈ (userStoreRun db₀ acts).db.users.rows)
    (hnew : db₀.users.get (.username u.username) = none) : u.Settled := by
  induction acts using List.reverseRecOn generalizing u with
  | nil =>
    have hget : db₀.users.get (.username u.username) = some u := Table.get_pk hu
    rw [hnew] at hget
    cases hget
  | append_singleton acts act ih =>
    cases userStoreRun_progress db₀ acts act with
    | quiet hdb _ => exact ih u (hdb ▸ hu) hnew
    | commit _ _ _ hcommit hdb _ =>
      rw [hdb] at hu
      exact hcommit.settled hu fun o ho hname => ih o ho (hname ▸ hnew)

theorem StaysUndeliverable.snoc {username : String}
    (h : StaysUndeliverable db₀ acts later username)
    (hact : ¬ ChangesEmail (userStoreRun db₀ (acts ++ later)) act username) :
    StaysUndeliverable db₀ acts (later ++ [act]) username := by
  obtain ⟨⟨u, hu, rfl, hlost⟩, new, hlog, hnone⟩ := h
  unfold StaysUndeliverable
  rw [← List.append_assoc]
  cases userStoreRun_progress db₀ (acts ++ later) act with
  | quiet hdb hlog' =>
    rw [hdb, hlog']
    exact ⟨⟨u, hu, rfl, hlost⟩, new, hlog, hnone⟩
  | commit hcommitAct hw hr hcommit hdb hlog' =>
    rename_i w op r a
    rw [hdb, hlog', hlog]
    refine ⟨?_, new ++ [(r.tx, a)], by simp, fun env a' hmem => ?_⟩
    · rcases hcommit.holds hu hlost with hstays | hchange
      · exact hstays
      · exact absurd ⟨w, op, r, a, u, hcommitAct, hw, hr, Table.get_pk hu, hchange⟩ hact
    · rcases List.mem_append.mp hmem with hmem | hmem
      · exact hnone env a' hmem
      · have hchecked := hcommit.checked u hu
        rw [← (Prod.mk.inj (List.mem_singleton.mp hmem)).1] at hchecked
        exact (hchecked rfl).2 hlost

/-- Of every user that has registered in the run, account status, verification and
deadline agree in every reached state, nobody with an undeliverable address is
active, and an undeliverable address stays so, with no verification requested for
it, until the address is changed. -/
theorem userStoreRun_lifecycle (db₀ : DB) (acts : List UserStoreAction) (u : User)
    (hu : u ∈ (userStoreRun db₀ acts).db.users.rows)
    (hnew : db₀.users.get (.username u.username) = none) :
    u.Settled ∧ (u.emailDeliverabilityStatus = .undeliverable → ∀ later : List UserStoreAction,
      (∀ acts₁ act acts₂, later = acts₁ ++ act :: acts₂ →
        ¬ ChangesEmail (userStoreRun db₀ (acts ++ acts₁)) act u.username) →
      StaysUndeliverable db₀ acts later u.username) := by
  refine ⟨userStoreRun_settled db₀ acts u hu hnew, fun hlost later hsame => ?_⟩
  induction later using List.reverseRecOn with
  | nil => exact ⟨⟨u, by simpa using hu, rfl, hlost⟩, [], by simp, by simp⟩
  | append_singleton later act ih =>
      refine (ih fun acts₁ act' acts₂ heq => ?_).snoc (hsame later act [] (by simp))
      exact hsame acts₁ act' (acts₂ ++ [act]) (by simp [heq])

/-! Alice registers, the provider reports a complaint about her address, and she asks
for another verification in vain. -/

def aliceComplains : List UserStoreAction :=
  uninterrupted 0 (.createUser (.drawing 1 1) ⟨"alice", "hash", "Alice", "alice@example.com"⟩) ++
    uninterrupted 1 (.processEmailDeliveryEvent (.drawing 5 2)
      ⟨"webhook", "email.complained", "message", some 100, 5, some .complained, ""⟩)

def asksForVerification : List UserStoreAction :=
  .start 2 (.requestEmailVerification (.drawing 9 3) "alice") :: List.replicate 5 (.exec 2)

def aliceUndeliverable : User :=
  { newUser 1 ⟨"alice", "hash", "Alice", "alice@example.com"⟩ with
    emailDeliverabilityStatus := .undeliverable
    emailDeliverabilityUpdatedAt := some 5
    registrationExpiresAt := some (5 + registrationWindow) }

theorem userStoreRun_lifecycle_aliceComplains :
    aliceUndeliverable ∈ (userStoreRun (DB.initial ∅) aliceComplains).db.users.rows ∧
      aliceUndeliverable.Settled ∧
      StaysUndeliverable (DB.initial ∅) aliceComplains asksForVerification "alice" := by
  have hmem : aliceUndeliverable ∈ (userStoreRun (DB.initial ∅) aliceComplains).db.users.rows := by
    decide +kernel
  obtain ⟨hsettled, hstays⟩ := userStoreRun_lifecycle (DB.initial ∅) aliceComplains aliceUndeliverable
    hmem rfl
  refine ⟨hmem, hsettled, hstays rfl asksForVerification ?_⟩
  rintro acts₁ act acts₂ heq ⟨w, _, _, _, _, rfl, _⟩
  have hcommit : .commit w ∈ asksForVerification := by simp [heq]
  simp [asksForVerification] at hcommit

end Monierave
