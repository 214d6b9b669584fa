import Monierave.ReadCommitted.Trace
import Monierave.Users.Contracts

/-! # The calls of the store beside each other

Any of the transactions on users, called with any arguments.
-/

namespace Monierave

open Relational ReadCommitted Prog

def userStoreSystem : System Write DB LockKey Err UserTx UserResponse UserTx where
  body := UserTx.body
  job t := .tx t .done

abbrev UserStoreState := State Write DB LockKey Err UserTx UserResponse UserTx

abbrev UserStoreAction := Action Err UserTx

def userStoreRun (db₀ : DB) (acts : List UserStoreAction) : UserStoreState :=
  userStoreSystem.run (State.init db₀) acts

variable {username : String} {u : User} {env : Env}

theorem userStoreRun_snoc (db₀ : DB) (acts : List UserStoreAction) (act : UserStoreAction) :
    userStoreRun db₀ (acts ++ [act]) = userStoreSystem.step (userStoreRun db₀ acts) act :=
  userStoreSystem.run_snoc _ _ _

def UserTx.checked : UserTx → User → Prop
  | requestEmailVerification _ username, u => u.username = username →
      ¬ (u.emailVerifiedAt.isSome = true ∧ u.accountStatus = .active) ∧
        u.emailDeliverabilityStatus ≠ .undeliverable
  | verifyUserEmail _ arg, u => u.username = arg.username →
      u.emailDeliverabilityStatus ≠ .undeliverable
  | _, _ => True

variable {t : UserTx} {f : UserFooting}

theorem User.eq_of_get {db : DB} {user : User}
    (hget : db.users.get (.username username) = some user) (hu : u ∈ db.users.rows)
    (hname : u.username = username) : u = user := by
  have hget' : db.users.get (.username u.username) = some u := Table.get_pk hu
  rw [hname, hget] at hget'
  exact (Option.some.inj hget').symm

theorem secured_checked_requestEmailVerification (ht : t = .requestEmailVerification env username) :
    Secured (requestEmailVerificationTx env username) (Footing.start userCovenant) fun _ f =>
      ∀ db, f.Admits db → ∀ u ∈ db.users.rows, t.checked u := by
  apply Secured.bind
  apply secured_lockUser (lawful_start t) rfl
  intro user f₁ hf₁ _ _ hknown
  apply Secured.bind
  apply Secured.refuse
  intro hverified
  apply Secured.bind
  apply Secured.refuse
  intro hdeliverable
  apply Routine.continues hf₁
  · intro _ f₂ _ hgrow db hadm u hu
    rw [ht]
    intro hname
    rw [User.eq_of_get (hknown db (hgrow.known db hadm.known)) hu hname]
    exact ⟨hverified, hdeliverable⟩
  · refine .bind (.call fun _ _ _ => lawful_readOnly) fun latest => .bind .refuse fun _ =>
      .bind (.fetch fun _ _ _ => ?_) fun _ =>
      .bind (fun _ _ hf hQ => secured_createVerificationEmailJob hf hQ) fun _ => .pure _
    apply lawful_updateUserRow
    intro o r _ hr
    obtain rfl := Option.some.inj hr
    exact ⟨rfl, by rw [ht]; rfl⟩

theorem secured_checked_verifyUserEmail {arg : VerifyUserEmailTxParams}
    (ht : t = .verifyUserEmail env arg) :
    Secured (verifyUserEmailTx env arg) (Footing.start userCovenant) fun _ f =>
      ∀ db, f.Admits db → ∀ u ∈ db.users.rows, t.checked u := by
  apply Secured.bind
  apply secured_lockEmailJob (lawful_start t) rfl
  intro job f₁ hf₁ hown _
  refine .bind (.refuse fun _ => .bind (.refuse fun _ =>
    Secured.bind (.refuse fun _ => .bind ?_)))
  apply secured_lockUser hf₁ hown
  intro user f₂ hf₂ _ _ hknown
  refine .bind (.refuse fun _ => .bind (.refuse fun _ =>
    Secured.bind (.refuse fun hdeliverable => ?_)))
  have hchecked : ∀ f', f₂.Grows f' → ∀ db, f'.Admits db → ∀ u ∈ db.users.rows, t.checked u := by
    intro f' hgrow db hadm u hu
    rw [ht]
    intro hname
    rw [User.eq_of_get (hknown db (hgrow.known db hadm.known)) hu hname]
    exact hdeliverable
  by_cases hverified : user.accountStatus = .active ∧ user.emailVerifiedAt.isSome
  · rw [if_pos hverified]
    exact hchecked f₂ (.refl f₂)
  · rw [if_neg hverified]
    apply Secured.bind
    apply secured_fetch hf₂
    · intro own db eff
      apply lawful_updateUserRow
      intro o r ho hr
      split at hr
      · rename_i hemail
        obtain rfl := Option.some.inj hr
        exact ⟨rfl, by rw [ht]; exact ⟨ho, hemail, rfl⟩⟩
      · cases hr
    intro result f₃ hf₃ hgrow₃
    apply Secured.bind
    apply secured_createAuditLog hf₃
    intro _ f₄ _ hgrow₄ _
    exact hchecked f₄ (hgrow₃.trans hgrow₄)

theorem secured_checked (t : UserTx) :
    Secured t.body (Footing.start userCovenant) fun _ f =>
      ∀ db, f.Admits db → ∀ u ∈ db.users.rows, t.checked u := by
  cases t with
  | requestEmailVerification env username =>
    exact .bind ((secured_checked_requestEmailVerification rfl).mono fun _ _ h => h)
  | verifyUserEmail env arg =>
    exact .bind ((secured_checked_verifyUserEmail rfl).mono fun _ _ h => h)
  | _ => exact (secured_body _).mono fun _ _ _ _ _ _ _ => trivial

def userStoreContract : Contract userStoreSystem :=
  Contract.refine
    { toCovenant := userCovenant
      post := UserTx.post
      secured := secured_body
      guarantee := (userContract fun _ _ => true).guarantee }
    (fun t _ _ _ db => ∀ u ∈ db.users.rows, t.checked u) secured_checked

theorem userStoreRun_kept (db₀ : DB) (acts : List UserStoreAction) :
    userStoreContract.Kept (userStoreRun db₀ acts) :=
  userStoreContract.kept_run db₀ acts

def UserTx.guarded : UserTx → User → User → Prop
  | requestEmailVerification _ username, o, _ => o.username = username
  | processEmailDeliveryEvent env _, o, r =>
    ∃ arg, o.reportApplies arg = true ∧ r = o.report env.now arg
  | disableExpiredPendingUser now _, o, _ => o.registrationOver now = true
  | disableExpiredPendingUsers now, o, _ => o.registrationOver now = true
  | _, _, _ => True

def UserTx.admits (t : UserTx) (w : Write) : Prop := ∀ o r, w = .updateUser o r → t.guarded o r

section WritesOnly

variable {own : List Write} {db : DB}

variable {username : String} {eff : Answer (Option User)} {α : Type} {now : Timestamp} {env : Env}
    {arg : ProcessEmailDeliveryEventParams}

theorem admits_updateUserRow {g : User → Option User}
    (hg : ∀ o r, o.username = username → g o = some r → t.guarded o r)
    (h : (updateUserRow username g).exec own db = .ok eff) : ∀ w ∈ eff.writes, t.admits w := by
  rcases updateUserRow_ok h with ⟨rfl, _⟩ | ⟨o, r, hget, hr, _, _, rfl⟩
  · simp
  · rintro w hw o' r' rfl
    cases List.mem_singleton.mp hw
    exact hg o r (User.username_of_get hget) hr

theorem admits_readOnly {g : DB → α} {eff : Answer α} (h : (readOnly g).exec own db = .ok eff) :
    ∀ w ∈ eff.writes, t.admits w := by
  simp [readOnly_ok.mp h]

theorem admits_selectForUpdate {find : DB → Option α} {key : α → LockKey}
    {eff : Answer (Option α)} (h : (selectForUpdate find key).exec own db = .ok eff) :
    ∀ w ∈ eff.writes, t.admits w := by
  simp [selectForUpdate_ok.mp h]

theorem admits_createAuditLog {arg : CreateAuditLogParams} {eff : Answer AuditLog}
    (h : (createAuditLog now arg).exec own db = .ok eff) : ∀ w ∈ eff.writes, t.admits w := by
  rw [createAuditLog_ok h]
  simp [UserTx.admits]

theorem admits_audited {R : Type} {q : Query R} {audit : R → AuditLog} {eff : Answer R}
    (hq : ∀ e, q.exec own db = .ok e → ∀ w ∈ e.writes, t.admits w)
    (h : (audited q audit).exec own db = .ok eff) : ∀ w ∈ eff.writes, t.admits w := by
  obtain ⟨e, he, rfl⟩ := audited_ok.mp h
  intro w hw
  rcases List.mem_append.mp hw with hw | hw
  · exact hq e he w hw
  · rw [List.mem_singleton.mp hw]
    simp [UserTx.admits]

theorem writesOnly_createVerificationEmailJob {n : Nat} {recipient : String} :
    (createVerificationEmailJob env n username recipient).WritesOnly t.admits := by
  refine .bind (.call fun _ _ _ => admits_audited fun e he => ?_) fun _ =>
    .bind (.call fun _ _ _ => admits_audited fun e he => ?_) fun _ => .ret _
  · obtain ⟨_, _, _, rfl⟩ := insertRow_ok.mp he
    simp [UserTx.admits]
  · obtain ⟨_, _, _, rfl⟩ := insertRow_ok.mp he
    simp [UserTx.admits]

theorem writesOnly_requestEmailVerificationTx :
    (requestEmailVerificationTx env username).WritesOnly
      (UserTx.requestEmailVerification env username).admits := by
  refine .bind (.fetch fun _ _ _ => admits_selectForUpdate) fun user => .bind .refuse fun _ =>
    .bind .refuse fun _ => .bind (.call fun _ _ _ => admits_readOnly) fun latest =>
    .bind .refuse fun _ => .bind (.fetch fun _ _ _ => ?_) fun _ =>
    .bind writesOnly_createVerificationEmailJob fun _ => .ret _
  exact admits_updateUserRow fun _ _ hname _ => hname

theorem writesOnly_findEmailJobForDeliveryEvent :
    (findEmailJobForDeliveryEvent arg).WritesOnly t.admits := by
  refine .bind (.call fun _ _ _ => admits_selectForUpdate) fun job => ?_
  cases job with
  | some job => exact .ret _
  | none =>
    cases arg.jobID with
    | none => exact .ret _
    | some id =>
      refine .bind (.call fun _ _ _ => admits_selectForUpdate) fun job => ?_
      cases job with
      | none => exact .ret _
      | some job => exact .ite (.ret _) (.ret _)

theorem writesOnly_reportToUser {arg' : ProcessEmailDeliveryEventParams} {job : EmailJob} :
    (reportToUser env arg job).WritesOnly
      (UserTx.processEmailDeliveryEvent env arg').admits := by
  unfold reportToUser
  cases userDeliverabilityForEvent arg with
  | none => exact .ret _
  | some status =>
    refine .bind (.call fun _ _ _ => admits_updateUserRow fun o r _ hr => ?_) fun _ => .ret _
    by_cases happlies : o.reportApplies ⟨job.username, job.recipient, status, arg.occurredAt,
        bounceTimestamp arg⟩ = true
    · rw [if_pos happlies] at hr
      exact ⟨_, happlies, (Option.some.inj hr).symm⟩
    · rw [if_neg happlies] at hr
      cases hr

theorem writesOnly_processEmailDeliveryEventTx :
    (processEmailDeliveryEventTx env arg).WritesOnly
      (UserTx.processEmailDeliveryEvent env arg).admits := by
  refine .bind writesOnly_findEmailJobForDeliveryEvent fun ⟨jobID, matched⟩ =>
    .bind (.call fun _ _ _ hs => ?_) fun event => ?_
  · rcases createEmailDeliveryEvent_ok.mp hs with ⟨_, rfl⟩ | ⟨_, rfl⟩ <;> simp [UserTx.admits]
  cases event with
  | none => exact .ret _
  | some event =>
    cases matched with
    | none => exact .ret _
    | some job =>
      cases hstatus : arg.deliveryStatus with
      | none => exact .ret _
      | some status =>
        refine .ite (.bind (.call fun _ _ _ hs => ?_) fun updated => ?_) (.ret _)
        · rcases updateEmailJobRow_ok hs with rfl | ⟨_, _, _, _, _, rfl⟩ <;>
            simp [UserTx.admits]
        · cases updated with
          | none => exact .ret _
          | some updated =>
            exact .bind writesOnly_reportToUser fun _ =>
              .bind (.call fun _ _ _ => admits_createAuditLog) fun _ => .ret _

theorem admits_disableExpiredPendingUser
    (ht : ∀ o r, o.registrationOver now = true → t.guarded o r)
    (h : (disableExpiredPendingUser now username).exec own db = .ok eff) :
    ∀ w ∈ eff.writes, t.admits w := by
  refine admits_updateUserRow (fun o r _ hr => ht o r ?_) h
  by_contra hover
  rw [if_neg hover] at hr
  cases hr

theorem writesOnly_disableExpiredPendingUsers
    (ht : ∀ o r, o.registrationOver now = true → t.guarded o r) :
    (disableExpiredPendingUsers now).WritesOnly t.admits := by
  refine .bind (.call fun _ _ _ => admits_readOnly) fun usernames => ?_
  induction usernames with
  | nil => exact .ret 0
  | cons username usernames ih =>
    exact .bind (.call fun _ _ _ => admits_disableExpiredPendingUser ht) fun _ =>
      .bind ih fun _ => .ret _

end WritesOnly

theorem writesOnly_userTx (t : UserTx) : t.body.WritesOnly t.admits := by
  cases t with
  | requestEmailVerification env username =>
    exact .bind writesOnly_requestEmailVerificationTx fun _ => .ret _
  | processEmailDeliveryEvent env arg =>
    exact .bind writesOnly_processEmailDeliveryEventTx fun _ => .ret _
  | disableExpiredPendingUser now username =>
    exact .bind (.call fun _ _ _ => admits_disableExpiredPendingUser fun _ _ h => h) fun _ =>
      .ret _
  | disableExpiredPendingUsers now =>
    exact .bind (writesOnly_disableExpiredPendingUsers fun _ _ h => h) fun _ => .ret _
  | _ => exact .of_forall _ fun _ _ _ _ => trivial

structure UserTx.Commits (t : UserTx) (a : UserResponse) (ws : List Write) (held : List LockKey)
    (db : DB) : Prop where
  post : t.post a ws held db
  checked : ∀ u ∈ db.users.rows, t.checked u
  guarded : ∀ o r, .updateUser o r ∈ ws → t.guarded o r
  legit : userCovenant.LegitAll ws db

/-- An action leaves tables and log alone, or it commits a transaction. -/
inductive StoreProgress (s : UserStoreState) (act : UserStoreAction) (s' : UserStoreState) : Prop
  | quiet (hdb : s'.db = s.db) (hlog : s'.log = s.log)
  | commit {w : Nat} {op : UserTx} {r : Running Write DB LockKey Err UserTx UserResponse}
      {a : UserResponse} (hact : act = .commit w) (hw : s.workers w = .running op r)
      (hr : r.rest = .ret a) (hcommit : r.tx.Commits a r.own r.held s.db)
      (hdb : s'.db = view r.own s.db) (hlog : s'.log = s.log ++ [(r.tx, a)])

theorem userStoreRun_commits {db₀ : DB} {acts : List UserStoreAction} {w : Nat} {op : UserTx}
    {r : Running Write DB LockKey Err UserTx UserResponse} {a : UserResponse}
    (hw : (userStoreRun db₀ acts).workers w = .running op r) (hr : r.rest = .ret a) :
    r.tx.Commits a r.own r.held (userStoreRun db₀ acts).db := by
  obtain ⟨⟨hpost, hchecked⟩, hlegit⟩ := ((userStoreRun_kept db₀ acts).inForce w op r hw).post _ hr
  have hadmits := ((userStoreSystem.comesTo_run db₀ acts w op r hw).writes (writesOnly_userTx r.tx)).1
  exact ⟨hpost, hchecked, fun o r' hmem => hadmits _ hmem o r' rfl, hlegit⟩

theorem userStoreRun_progress (db₀ : DB) (acts : List UserStoreAction) (act : UserStoreAction) :
    StoreProgress (userStoreRun db₀ acts) act (userStoreRun db₀ (acts ++ [act])) := by
  rw [userStoreRun_snoc]
  cases (userStoreRun_kept db₀ acts).progress _ (userStoreSystem.step_moves _ act) with
  | quiet hdb hlog => exact .quiet hdb hlog
  | commit hw hpost hlegit hs' hlog hr hact =>
    exact .commit hact hw hr (userStoreRun_commits hw hr) (by rw [hs']; rfl) hlog

end Monierave
