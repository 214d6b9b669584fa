import Monierave.Users.Addresses
import Monierave.Users.Store

/-! # Changes of the address and their verification jobs

`UpdateUserTx` decides about the verification job from a row it has read without a
lock, and by another comparison than the statement that changes the row.
-/

namespace Monierave

open Relational ReadCommitted Prog

def CreatesVerificationJob (db db' : DB) (user : User) : Prop :=
  ∃ j e, db'.emailJobs.rows = db.emailJobs.rows ++ [j] ∧
    db'.outboxEvents.rows = db.outboxEvents.rows ++ [e] ∧ j.payload = .verifyEmail ∧
    j.username = user.username ∧ j.recipient = user.email ∧ e.emailJobID = j.id

def CreatesNoJob (db db' : DB) : Prop :=
  db'.emailJobs.rows = db.emailJobs.rows ∧ db'.outboxEvents.rows = db.outboxEvents.rows

def JobFollowsAddress (db db' : DB) (changes : Bool) (user : User) : Prop :=
  if changes then CreatesVerificationJob db db' user else CreatesNoJob db db'

def Write.outboxEventEdit : Write → Option (Edit OutboxEvent)
  | .insertOutboxEvent r => some (.insert r)
  | _ => none

section Tables

variable {ws : List Write} {db : DB}

theorem outboxEvents_view :
    (view ws db).outboxEvents = db.outboxEvents.edit (ws.filterMap Write.outboxEventEdit) :=
  table_view (fun w _ => by cases w <;> rfl) ws db

theorem outboxEvents_legits (h : userCovenant.LegitAll ws db) :
    Table.Legits (ws.filterMap Write.outboxEventEdit) db.outboxEvents :=
  table_legits (fun w _ => by cases w <;> rfl)
    (fun w _ hw => by cases w <;> first | exact ⟨hw, trivial⟩ | trivial) h

end Tables

def Write.aside (w : Write) : Prop :=
  w.userEdit = none ∧ w.emailJobEdit = none ∧ w.outboxEventEdit = none

theorem writesOnly_revokeAllUserSessions {now : Timestamp} {username : String}
    {reason : Option String} :
    (revokeAllUserSessions now username reason).WritesOnly Write.aside := by
  refine .bind (.call fun _ _ _ hs => by simp [readOnly_ok.mp hs]) fun ids => ?_
  induction ids with
  | nil => exact .ret _
  | cons id ids ih =>
    refine .bind (.call fun _ _ _ hs => ?_) fun _ => .bind ih fun _ => .ret _
    rcases updateSessionRow_ok hs with ⟨rfl, _⟩ | ⟨o, r, _, _, _, rfl⟩
    · simp
    · simp [Write.aside, Write.userEdit, Write.emailJobEdit, Write.outboxEventEdit]

theorem writesOnly_auditRevokedSessions {env : Env} {eventType : String} {sessions : List Session} :
    (auditRevokedSessions env eventType sessions).WritesOnly Write.aside := by
  induction sessions with
  | nil => exact .ret _
  | cons session sessions ih =>
    refine .bind (.call fun _ _ _ hs => ?_) fun _ => ih
    rw [createAuditLog_ok hs]
    simp [Write.aside, Write.userEdit, Write.emailJobEdit, Write.outboxEventEdit]

def verificationJob (env : Env) (user : User) : EmailJob :=
  newEmailJob env.now ⟨env.uuid 0, user.username, user.email, .verifyEmail⟩

def verificationEvent (env : Env) : OutboxEvent :=
  newOutboxEvent env.now ⟨env.uuid 1, env.uuid 0, outboxEventTypeEmailReady, some (env.uuid 0),
    .emailJob, some (env.uuid 0)⟩

def jobWrites (env : Env) (emailChanged : Bool) (user : User) : List Write :=
  if emailChanged then
    [.insertEmailJob (verificationJob env user),
      .insertAuditLog (auditEmailJobInsert env.now (verificationJob env user)),
      .insertOutboxEvent (verificationEvent env),
      .insertAuditLog (auditOutboxEventInsert env.now (verificationEvent env))]
  else []

variable {own : List Write}

theorem through_requestVerificationIf {env : Env} {emailChanged : Bool} {user : User}
    {Q : Option (EmailJob × OutboxEvent) → List Write → Prop}
    (hQ : ∀ job, Q job (own ++ jobWrites env emailChanged user)) :
    Through (requestVerificationIf env emailChanged user) own Q := by
  cases emailChanged with
  | false => simpa [jobWrites, requestVerificationIf] using hQ none
  | true =>
    refine .bind (.bind (.call fun db eff hs => ?_))
    obtain ⟨eff₁, hs₁, rfl⟩ := audited_ok.mp hs
    obtain ⟨_, _, _, rfl⟩ := insertRow_ok.mp hs₁
    refine .bind (.call fun db' eff' hs' => ?_)
    obtain ⟨eff₂, hs₂, rfl⟩ := audited_ok.mp hs'
    obtain ⟨_, _, _, rfl⟩ := insertRow_ok.mp hs₂
    simpa [jobWrites, verificationJob, verificationEvent, newOutboxEvent, newEmailJob]
      using hQ (some (verificationJob env user, verificationEvent env))

/-- What an `UpdateUserTx` has done when it returns: `current` is the row it read and
`o` the one it replaced. -/
structure UpdateUserTxParams.Done (arg : UpdateUserTxParams) (env : Env) (a : UpdateUserTxResult)
    (own : List Write) (current o : User) : Prop where
  replaced : o.username = arg.username
  user : a.user = o.update env.now arg.toUpdateUserParams
  emailChanged : a.emailChanged = !Unicode.equalFold current.email a.user.email
  writes : ∃ rest, own = .updateUser o a.user :: (jobWrites env a.emailChanged a.user ++ rest) ∧
    ∀ w ∈ rest, w.aside

/-- The first statement reads the user's row, and the rest goes on from the row read. -/
theorem updateUser_reads (env : Env) (arg : UpdateUserTxParams) :
    ∃ k, (UserTx.updateUser env arg).body = .stmt (getUser arg.username) k ∧
      ∀ current, Through (k (some current)) [] fun a own =>
        ∃ result o, a = .updated result ∧ arg.Done env result own current o := by
  refine ⟨_, rfl, fun current => .bind (.bind (Through.ret_iff.mpr ?_))⟩
  refine .bind (.fetch fun db eff user hs huser => ?_)
  rcases updateUserRow_ok hs with ⟨rfl, _⟩ | ⟨o, r, hget, hr, _, _, rfl⟩
  · cases huser
  · obtain rfl := Option.some.inj hr
    obtain rfl := Option.some.inj huser
    have hname : o.username = arg.username := User.username_of_get hget
    refine .bind (through_requestVerificationIf fun job => ?_)
    by_cases hrevoke : arg.revokeSessions = true
    · rw [if_pos hrevoke]
      refine .bind (writesOnly_revokeAllUserSessions.through.mono ?_)
      rintro sessions _ ⟨ws, rfl, hws⟩
      refine .bind (writesOnly_auditRevokedSessions.through.mono ?_)
      rintro _ _ ⟨ws', rfl, hws'⟩
      exact ⟨_, o, rfl, hname, rfl, rfl, ws ++ ws', by simp,
        fun w hw => (List.mem_append.mp hw).elim (hws w) (hws' w)⟩
    · rw [if_neg hrevoke]
      exact ⟨_, o, rfl, hname, rfl, rfl, [], by simp, by simp⟩

section Commit

variable {env : Env} {user : User} {rest : List Write}

theorem filterMap_aside {R : Type} {edit : Write → Option (Edit R)}
    (h : ∀ w ∈ rest, edit w = none) : rest.filterMap edit = [] :=
  List.filterMap_eq_nil_iff.mpr h

theorem jobFollowsAddress_writes {db : DB} {o : User} {emailChanged : Bool}
    (hrest : ∀ w ∈ rest, w.aside)
    (hlegit : userCovenant.LegitAll
      (.updateUser o user :: (jobWrites env emailChanged user ++ rest)) db) :
    JobFollowsAddress db (view (.updateUser o user :: (jobWrites env emailChanged user ++ rest)) db)
      emailChanged user := by
  have hjobs := emailJobs_legits hlegit
  have hevents := outboxEvents_legits hlegit
  unfold JobFollowsAddress CreatesVerificationJob CreatesNoJob
  rw [emailJobs_view, outboxEvents_view]
  cases emailChanged with
  | false =>
    simp [jobWrites, List.filterMap_cons, Write.emailJobEdit, Write.outboxEventEdit,
      filterMap_aside fun w hw => (hrest w hw).2.1, filterMap_aside fun w hw => (hrest w hw).2.2]
  | true =>
    simp only [jobWrites, if_true, List.cons_append, List.nil_append, List.filterMap_cons,
      Write.emailJobEdit, Write.outboxEventEdit, filterMap_aside fun w hw => (hrest w hw).2.1,
      filterMap_aside fun w hw => (hrest w hw).2.2] at hjobs hevents ⊢
    exact ⟨verificationJob env user, verificationEvent env, Table.insert_rows hjobs.1,
      Table.insert_rows hevents.1, rfl, rfl, rfl, rfl⟩

end Commit

/-- `EqualFold` on the row that was read and `lower` on the row that is replaced give the
same answer if the address is the same in both and no character tells the two
comparisons apart. -/
theorem emailChanged_eq {arg : UpdateUserTxParams} {env : Env} {current o : User}
    (hkept : o.email = current.email)
    (hcase : ∀ email, arg.email = some email → Unicode.dottedI ∉ email.toList ∧
      CaseUnambiguous email current.email) :
    (!Unicode.equalFold current.email (o.update env.now arg.toUpdateUserParams).email) =
      o.emailChanges arg.email := by
  cases hemail : arg.email with
  | none =>
    have hsame : Unicode.equalFold current.email current.email = true :=
      Unicode.equalFold_iff.mpr rfl
    simp [User.update, User.emailChanges, hemail, hkept, hsame]
  | some email =>
    obtain ⟨hclean, hcase⟩ := hcase email hemail
    have hagree := (Unicode.equalFold_iff_lower hclean).mpr hcase
    rw [Bool.not_eq_eq_eq_not, Bool.eq_iff_iff]
    simpa [User.update, User.emailChanges, hemail, hkept, Unicode.equalFold_comm current.email]
      using hagree

/-- An `UpdateUserTx` starts, reads the row `current`, goes on beside other calls and is
about to commit, with the row `o` stored. If the stored address is still the one it
read, and `EqualFold` and `lower` do not tell the two addresses apart differently, it
creates a verification job exactly if it changes the address. -/
theorem userStoreRun_jobFollowsAddress (db₀ : DB) (before after : List UserStoreAction) (w : Nat)
    (env : Env) (arg : UpdateUserTxParams) (a : UserResponse) (current o : User)
    (hstart : (userStoreRun db₀ before).workers w =
      userStoreSystem.enter (.updateUser env arg) (.tx (.updateUser env arg) .done))
    (hread : (userStoreRun db₀ before).db.users.get (.username arg.username) = some current)
    (hready : ((userStoreRun db₀ (before ++ .exec w :: after)).workers w).ready =
      some (.updateUser env arg, a))
    (hstored : (userStoreRun db₀ (before ++ .exec w :: after)).db.users.get
      (.username arg.username) = some o)
    (hkept : o.email = current.email)
    (hcase : ∀ email, arg.email = some email → Unicode.dottedI ∉ email.toList ∧
      CaseUnambiguous email current.email) :
    let s := userStoreRun db₀ (before ++ .exec w :: after)
    let s' := userStoreRun db₀ (before ++ .exec w :: after ++ [.commit w])
    ∃ result, a = .updated result ∧ result.user = o.update env.now arg.toUpdateUserParams ∧
      s'.db.users.get (.username arg.username) = some result.user ∧
      JobFollowsAddress s.db s'.db (o.emailChanges arg.email) result.user := by
  intro s s'
  obtain ⟨k, hbody, hthrough⟩ := updateUser_reads env arg
  obtain ⟨op, r, hw, hr, htx⟩ := Worker.ready_iff.mp hready
  have hreads : (userStoreRun db₀ (before ++ [.exec w])).workers w = .running (.updateUser env arg)
      ⟨.updateUser env arg, k (some current), [], [], .done⟩ := by
    have hrest : userStoreSystem.body (.updateUser env arg) = .stmt (getUser arg.username) k := hbody
    rw [userStoreRun_snoc, System.step, hstart, System.enter, hrest]
    simp [System.execAt, getUser, readOnly, hread, State.free, Effect.claims, State.advance,
      State.setWorker]
  have hcontinues : System.Continues (k (some current)) w s := by
    have hrun : s = userStoreSystem.run (userStoreRun db₀ (before ++ [.exec w])) after := by
      simp [s, userStoreRun, System.run]
    rw [hrun]
    refine userStoreSystem.run_induction ?_ (fun _ _ _ => System.continues_moves) after
    exact Or.inl ⟨_, _, hreads, fun x => ⟨x, rfl⟩, .start⟩
  rcases hcontinues with ⟨op', r', hw', _, hcomes⟩ | ⟨_, _, hw'⟩
  · cases hw.symm.trans hw'
    rw [hr] at hcomes
    obtain ⟨result, o', rfl, hname, huser, hchanged, rest, hown, hrest⟩ :=
      Through.ret_iff.mp (hcomes.through (hthrough current))
    have hafter : s'.db = view r.own s.db := by
      have hstep : s' = userStoreSystem.step s (.commit w) := userStoreRun_snoc ..
      rw [hstep, System.step, hw]
      simp only [System.commitAt, hr]
      rfl
    have hlegit := (userStoreRun_commits hw hr).legit
    rw [hown] at hlegit
    have hkey : pk result.user = UserKey.username arg.username := by rw [huser, ← hname]; rfl
    obtain rfl : o' = o := by
      have hget := hlegit.1.1
      rw [hkey] at hget
      exact Option.some.inj (hget.symm.trans hstored)
    refine ⟨result, rfl, huser, ?_, ?_⟩
    · rw [hafter, hown, users_view]
      have hnone : (jobWrites env result.emailChanged result.user).filterMap Write.userEdit = [] := by
        unfold jobWrites
        split <;> rfl
      simp only [List.filterMap_cons, Write.userEdit, List.filterMap_append, hnone,
        filterMap_aside fun w hw => (hrest w hw).1, List.append_nil, Table.edit_cons, Table.edit_nil,
        Edit.apply]
      rw [← hkey, Table.get_pk_amend hlegit.1]
      exact if_pos rfl
    · rw [hafter, hown, ← emailChanged_eq hkept hcase, ← huser, ← hchanged]
      exact jobFollowsAddress_writes hrest hlegit
  · cases hw.symm.trans hw'

/-! Alice's address is changed while another call, which sets it back, has already
read her row. -/

def alice : User := { customer "alice" with email := "alice@one" }

def aliceOnly : DB := DB.initial ⟨[alice], by decide⟩

def setEmail (email : String) (env : Env) : UserTx :=
  .updateUser env { username := "alice", email := some email }

def overtakenUpdate : List UserStoreAction :=
  [.start 0 (setEmail "alice@one" (.drawing 10 1)), .exec 0] ++
    uninterrupted 1 (setEmail "alice@two" (.drawing 20 2)) ++ [.exec 0]

theorem overtakenUpdate_no_job :
    ((userStoreRun aliceOnly overtakenUpdate).db.users.get (.username "alice")).any
        (fun o => o.emailChanges (some "alice@one")) = true ∧
      ((userStoreRun aliceOnly (overtakenUpdate ++ [.commit 0])).db.users.get (.username "alice")).map
        (fun u => (u.email, u.accountStatus, u.emailVerifiedAt)) =
          some ("alice@one", .pending, none) ∧
      ∀ user, ¬ JobFollowsAddress (userStoreRun aliceOnly overtakenUpdate).db
        (userStoreRun aliceOnly (overtakenUpdate ++ [.commit 0])).db true user := by
  refine ⟨by decide +kernel, by decide +kernel, fun user => ?_⟩
  have hsame : (userStoreRun aliceOnly (overtakenUpdate ++ [.commit 0])).db.emailJobs.rows =
      (userStoreRun aliceOnly overtakenUpdate).db.emailJobs.rows := by decide +kernel
  rintro ⟨j, e, hjobs, _⟩
  rw [hsame] at hjobs
  simpa using congrArg List.length hjobs

def aliceRenamed : User :=
  alice.update 20 { username := "alice", fullName := some "Alice" }

def aliceMoved : User := aliceRenamed.update 10 { username := "alice", email := some "alice@two" }

/-- Alice's name is changed between the read and the update of her address. -/
def renamedMeanwhile : List UserStoreAction :=
  uninterrupted 1 (.updateUser (.drawing 20 2) { username := "alice", fullName := some "Alice" }) ++
    [.exec 0, .exec 0, .exec 0]

theorem userStoreRun_jobFollowsAddress_renamed :
    let acts := [.start 0 (setEmail "alice@two" (.drawing 10 1))] ++ .exec 0 :: renamedMeanwhile
    JobFollowsAddress (userStoreRun aliceOnly acts).db (userStoreRun aliceOnly (acts ++ [.commit 0])).db
      true aliceMoved := by
  obtain ⟨result, hresult, _, _, hfollows⟩ := userStoreRun_jobFollowsAddress aliceOnly
    [.start 0 (setEmail "alice@two" (.drawing 10 1))] renamedMeanwhile 0 (.drawing 10 1)
    { username := "alice", email := some "alice@two" }
    (.updated ⟨aliceMoved, true, some (verificationJob (.drawing 10 1) aliceMoved,
      verificationEvent (.drawing 10 1))⟩) alice aliceRenamed rfl
    (by decide +kernel) rfl (by decide +kernel) rfl
    (by
      rintro _ ⟨rfl⟩
      unfold CaseUnambiguous
      decide +kernel)
  cases hresult
  have hchanges : aliceRenamed.emailChanges (some "alice@two") = true := by decide +kernel
  rwa [hchanges] at hfollows

end Monierave
