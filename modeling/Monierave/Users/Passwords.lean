import Monierave.Banking.System
import Monierave.Users.Exclusivity
import Monierave.Users.Requests

/-! # Password changes and sessions

A password change revokes the sessions its user has at that moment.
-/

namespace Monierave

open Relational ReadCommitted Prog

def DB.hashOf (db : DB) (username : String) : Option String :=
  (db.users.get (.username username)).map User.hashedPassword

/-- The hash a committed login has checked the password against, if it is the login
that began the session. -/
def checkedBy (id : UUID) : UserTx × UserResponse → Option String
  | (.createExclusiveSession _ _ (some user), .session s) =>
    if s.id = id then some user.hashedPassword else none
  | _ => none

/-- The hash of the password a session was authenticated with. Of a session from
before the log it is taken to be the one its user had at the start. -/
def authenticatedWith (db₀ : DB) (log : UserLog) (x : Session) : Option String :=
  (log.findSome? (checkedBy x.id)).or (db₀.hashOf x.username)

/-- Every session that is not revoked was authenticated with the password its user
has. -/
def OldPasswordsUseless (db₀ db : DB) (log : UserLog) : Prop :=
  ∀ x ∈ db.sessions.rows, x.revoked = false →
    authenticatedWith db₀ log x = db.hashOf x.username

variable {t : UserTx} {a : UserResponse} {ws : List Write} {held : List LockKey} {db db₀ : DB}
  {log : UserLog}

variable {username : String} {op : UserOp} {x : Session} {env : Env} {id : UUID}
    {arg : CreateSessionParams} {w : Nat}

theorem hashOf_view (hlegit : userCovenant.LegitAll ws db) (hins : ∀ r, .insertUser r ∉ ws)
    (hkeep : ∀ o r, .updateUser o r ∈ ws → r.username = username →
      r.hashedPassword = o.hashedPassword) : (view ws db).hashOf username = db.hashOf username := by
  have hes := users_legits hlegit
  unfold DB.hashOf
  rw [users_view]
  cases hget : db.users.get (.username username) with
  | some o =>
    obtain rfl := User.username_of_get hget
    obtain ⟨u, hu, hhash⟩ := Table.get_edit_of_get
      (Q := fun o r : User => r.hashedPassword = o.hashedPassword) (fun _ => rfl)
      (fun hab hbc => hbc.trans hab) hes (Table.mem_of_get hget)
      (fun o r hmem hpk => hkeep o r (by simpa using hmem) (UserKey.username.inj hpk))
    have hu' : (db.users.edit (ws.filterMap Write.userEdit)).get (.username o.username) = some u := hu
    rw [hu', Option.map_some, Option.map_some, hhash]
  | none =>
    cases hget' : (db.users.edit (ws.filterMap Write.userEdit)).get (.username username) with
    | none => rfl
    | some u =>
      -- nobody has been registered under the name
      exfalso
      obtain rfl := User.username_mem_keys.mp (Table.key_of_get hget')
      rcases Table.origin_of_mem_edit (Q := fun _ _ => True) (fun _ => trivial)
        (fun _ _ => trivial) hes (Table.mem_of_get hget') (fun _ _ _ _ => trivial) with
        ⟨o, ho, hpk, _⟩ | ⟨o, ho, _⟩
      · have hsome := Table.get_pk ho
        rw [hpk] at hsome
        cases hget.symm.trans hsome
      · exact hins o (by simpa using ho)

/-- The transactions of logins and profile changes. A change of the password revokes
the sessions. -/
def UserTx.ofProfileRequest : UserTx → Prop
  | getUser _ => True
  | recordLoginFailure _ _ _ => True
  | createExclusiveSession _ _ checked => checked.isSome = true
  | updateUser _ arg => arg.hashedPassword.isSome = true → arg.revokeSessions = true
  | _ => False

def UserOp.isProfileRequest : UserOp → Bool
  | loginUser .. => true
  | updateUser .. => true
  | _ => false

theorem UserOp.runs.ofProfileRequest {check : String → String → Bool} (h : op.runs check t)
    (hop : op.isProfileRequest = true) : t.ofProfileRequest := by
  cases op with
  | loginUser req draw env auditEnv =>
    rcases h with rfl | ⟨reason, rfl⟩ | ⟨user, _, rfl⟩
    · trivial
    · trivial
    · rfl
  | updateUser username req newHash env =>
    rcases h with rfl | ⟨current, hash, rfl⟩
    · trivial
    · intro hhash
      simp only [UpdateUserRequest.params] at hhash ⊢
      rw [hhash, Bool.true_or]
  | _ => cases hop

theorem UserTx.post.hashOf (ht : t.ofProfileRequest) (hpost : t.post a ws held db)
    (hlegit : userCovenant.LegitAll ws db)
    (hsame : ∀ env arg, t = .updateUser env arg → arg.username = username →
      arg.hashedPassword = none) : (view ws db).hashOf username = db.hashOf username := by
  apply hashOf_view hlegit
  · intro r hr
    obtain ⟨env, arg, rfl, _⟩ := hpost.1 _ hr
    exact ht
  · intro o r hmem hname
    have hchange : t.changes o r := hpost.1 _ hmem
    cases t with
    | updateUser env arg =>
      obtain ⟨ho, rfl⟩ := hchange
      simp only [User.update, hsame env arg rfl (ho.symm.trans hname), Option.getD_none]
    | getUser _ | recordLoginFailure _ _ _ | createExclusiveSession _ _ _ => exact hchange.elim
    | _ => exact ht.elim

theorem revoked_of_update (hallow : ∀ w ∈ ws, t.allows w) (hlegit : userCovenant.LegitAll ws db)
    {o r : Session} (hmem : .updateSession o r ∈ ws) (hr : r.revoked = true)
    (hx : x ∈ (view ws db).sessions.rows) (hid : x.id = r.id) : x.revoked = true := by
  have hr' : Edit.amend o r ∈ ws.filterMap Write.sessionEdit := by simpa using hmem
  obtain ⟨y, hy, hrev⟩ := Table.get_edit_of_amend
    (Q := fun o r : Session => o.revoked = true → r.revoked = true) (fun _ h => h)
    (fun hab hbc h => hbc (hab h)) (sessions_legits hlegit) hr' (by
      intro o' r' hmem' _ ho'
      obtain ⟨hact, _⟩ := hallow (.updateSession o' r') (by simpa using hmem')
      rw [ho'] at hact
      cases hact)
  have hxget : (view ws db).sessions.get (.id x.id) = some x := Table.get_pk hx
  rw [sessions_view, hid] at hxget
  have hxy : some x = some y := hxget.symm.trans hy
  obtain rfl := Option.some.inj hxy
  exact hrev hr

theorem not_active_of_covered {arg : UpdateUserTxParams}
    (hpost : (UserTx.updateUser env arg).post a ws held db) (hlegit : userCovenant.LegitAll ws db)
    (hrevoke : arg.revokeSessions = true) (hx : x ∈ (view ws db).sessions.rows) :
    x.activeFor arg.username = false := by
  by_contra hact
  rw [Bool.not_eq_false] at hact
  rcases active_of_view hpost.1 hlegit hx hact with ⟨s, hs, hid, hsact⟩ | ⟨r, hr, _⟩
  · rcases hpost.2.2 hrevoke s hs hsact with h | ⟨r, hr⟩
    · cases h
    · obtain ⟨_, ⟨now, reason, rfl⟩ | ⟨env', arg', heq, _⟩⟩ := hpost.1 _ hr
      · have hrev := revoked_of_update hpost.1 hlegit hr rfl hx hid.symm
        rw [(Session.activeFor_iff.mp hact).2] at hrev
        cases hrev
      · cases heq
  · obtain ⟨env', arg', checked, heq, _⟩ := hpost.1 _ hr
    cases heq

def LoginsStand (db : DB) (log : UserLog) : Prop :=
  ∀ id hash, log.findSome? (checkedBy id) = some hash → ∃ x, db.sessions.get (.id id) = some x

theorem get_session_view (hlegit : userCovenant.LegitAll ws db)
    (hx : db.sessions.get (.id id) = some x) :
    ∃ y, (view ws db).sessions.get (.id id) = some y := by
  obtain rfl := Session.id_of_get hx
  obtain ⟨y, hy, _⟩ := Table.get_edit_of_get (Q := fun _ _ => True) (fun _ => trivial)
    (fun _ _ => trivial) (sessions_legits hlegit) (Table.mem_of_get hx) (fun _ _ _ _ => trivial)
  exact ⟨y, by rw [sessions_view]; exact hy⟩

theorem get_eq_none_of_login {checked : Option User}
    (hpost : (UserTx.createExclusiveSession env arg checked).post a ws held db)
    (hlegit : userCovenant.LegitAll ws db) : db.sessions.get (.id arg.id) = none := by
  obtain ⟨ws₁, _, hlegit₁, hconf, _⟩ := sessions_of_login hpost hlegit
  cases hget : db.sessions.get (.id arg.id) with
  | none => rfl
  | some x =>
    obtain ⟨y, hy⟩ := get_session_view hlegit₁ hget
    have hnone := Table.conflict_eq_none.mp hconf (.id arg.id) (Keyed.pk_mem (newSession env.now arg))
    rw [hy] at hnone
    cases hnone

theorem checkedBy_eq_none
    (h : ∀ env arg checked, t = .createExclusiveSession env arg checked → arg.id ≠ id)
    (hpost : t.post a ws held db) : checkedBy id (t, a) = none := by
  unfold checkedBy
  split
  · rename_i env arg user s heq
    cases heq
    have ha : UserResponse.session s = .session (newSession env.now arg) := hpost.2.1
    cases ha
    exact if_neg (h env arg _ rfl)
  · rfl

theorem LoginsStand.commit (h : LoginsStand db log) (hpost : t.post a ws held db)
    (hlegit : userCovenant.LegitAll ws db) : LoginsStand (view ws db) (log ++ [(t, a)]) := by
  intro id hash hfind
  rw [List.findSome?_append] at hfind
  by_cases hlogin : ∃ env arg checked, t = .createExclusiveSession env arg checked ∧ arg.id = id
  · obtain ⟨env, arg, checked, rfl, rfl⟩ := hlogin
    obtain ⟨ws₁, _, _, _, hrows⟩ := sessions_of_login hpost hlegit
    have hnew : newSession env.now arg ∈ (view ws db).sessions.rows := by
      rw [hrows]
      exact List.mem_append_right _ (List.mem_singleton_self _)
    exact ⟨_, Table.get_key hnew (Keyed.pk_mem _)⟩
  · have hnone := checkedBy_eq_none
      (fun env arg checked ht hid => hlogin ⟨env, arg, checked, ht, hid⟩) hpost
    simp only [List.findSome?_cons, hnone, List.findSome?_nil, Option.or_none] at hfind
    obtain ⟨x, hx⟩ := h id hash hfind
    exact get_session_view hlegit hx

theorem authenticatedWith_login {user : User} (hstand : LoginsStand db log)
    (hpost : (UserTx.createExclusiveSession env arg (some user)).post a ws held db)
    (hlegit : userCovenant.LegitAll ws db) :
    authenticatedWith db₀ (log ++ [(.createExclusiveSession env arg (some user), a)])
      (newSession env.now arg) = some user.hashedPassword := by
  have hnone : log.findSome? (checkedBy arg.id) = none := by
    cases hfind : log.findSome? (checkedBy arg.id) with
    | none => rfl
    | some hash =>
      obtain ⟨x, hx⟩ := hstand _ _ hfind
      rw [get_eq_none_of_login hpost hlegit] at hx
      cases hx
  have ha : a = .session (newSession env.now arg) := hpost.2.1
  subst ha
  unfold authenticatedWith
  rw [List.findSome?_append]
  simp [newSession, hnone, checkedBy]

theorem authenticatedWith_older {y : Session} (hpost : t.post a ws held db)
    (hlegit : userCovenant.LegitAll ws db) (hx : x ∈ db.sessions.rows) (hid : x.id = y.id)
    (hname : x.username = y.username) :
    authenticatedWith db₀ (log ++ [(t, a)]) y = authenticatedWith db₀ log x := by
  have hnone : checkedBy y.id (t, a) = none := by
    refine checkedBy_eq_none ?_ hpost
    rintro env arg checked rfl harg
    have hget := get_eq_none_of_login hpost hlegit
    rw [harg, ← hid, show db.sessions.get (.id x.id) = some x from Table.get_pk hx] at hget
    cases hget
  unfold authenticatedWith
  rw [List.findSome?_append, hid, hname]
  simp [hnone]

theorem OldPasswordsUseless.commit (h : OldPasswordsUseless db₀ db log)
    (hstand : LoginsStand db log) (ht : t.ofProfileRequest) (hpost : t.post a ws held db)
    (hlegit : userCovenant.LegitAll ws db)
    (hcurrent : ∀ env arg user, t = .createExclusiveSession env arg (some user) →
      db.hashOf arg.username = some user.hashedPassword) :
    OldPasswordsUseless db₀ (view ws db) (log ++ [(t, a)]) := by
  intro y hy hyrev
  have hyact : y.activeFor y.username = true := Session.activeFor_iff.mpr ⟨rfl, hyrev⟩
  by_cases hlogin : ∃ env arg user, t = .createExclusiveSession env arg (some user) ∧
      arg.username = y.username
  · obtain ⟨env, arg, user, rfl, hname⟩ := hlogin
    obtain rfl := active_of_login hpost hlegit hy (hname ▸ hyact)
    have hsame : (view ws db).hashOf arg.username = db.hashOf arg.username :=
      hpost.hashOf ht hlegit fun _ _ heq => by cases heq
    rw [authenticatedWith_login hstand hpost hlegit]
    exact (hsame.trans (hcurrent env arg user rfl)).symm
  · rcases active_of_view hpost.1 hlegit hy hyact with ⟨x, hx, hid, hxact⟩ | ⟨r, hr, _, hname⟩
    · obtain ⟨hname, hxrev⟩ := Session.activeFor_iff.mp hxact
      -- a new password would have cost the user the session
      have hkept : ∀ env arg, t = .updateUser env arg → arg.username = y.username →
          arg.hashedPassword = none := by
        rintro env arg rfl harg
        cases hhash : arg.hashedPassword with
        | none => rfl
        | some hash =>
          have hnot := not_active_of_covered hpost hlegit (ht (by rw [hhash]; rfl)) hy
          rw [harg, hyact] at hnot
          cases hnot
      rw [authenticatedWith_older hpost hlegit hx hid hname, h x hx hxrev, hname,
        hpost.hashOf ht hlegit hkept]
    · obtain ⟨env, arg, checked, rfl, rfl⟩ := hpost.1 _ hr
      obtain ⟨user, rfl⟩ := Option.isSome_iff_exists.mp ht
      exact absurd ⟨env, arg, user, rfl, hname⟩ hlogin

/-- If the worker commits a login now, the password it has checked is still the
user's. -/
def LoginCurrent (s : UserState) (w : Nat) : Prop :=
  ∀ op r a env arg user, s.workers w = .running op r → r.rest = .ret a →
    r.tx = .createExclusiveSession env arg (some user) →
      s.db.hashOf arg.username = some user.hashedPassword

variable {check : String → String → Bool} {acts : List UserAction}

theorem ofProfileRequest_of_running {r : Running Write DB LockKey Err UserTx UserResponse}
    (hreq : ∀ w op, .start w op ∈ acts → op.isProfileRequest = true)
    (hw : (userRun check db₀ acts).workers w = .running op r) : r.tx.ofProfileRequest := by
  have hop : ((userRun check db₀ acts).workers w).op? = some op := by
    rw [hw]
    rfl
  exact (runs_of_running hw).ofProfileRequest (hreq w op ((userSystem check).op_run hop))

theorem loginsStand_run (check : String → String → Bool) (db₀ : DB) (acts : List UserAction) :
    LoginsStand (userRun check db₀ acts).db (userRun check db₀ acts).log :=
  ((userContract check).kept_init db₀).log_induction _
    (P := LoginsStand) (fun _ _ h => by cases h)
    (fun h hpost hlegit => h.commit hpost hlegit) acts

theorem oldPasswordsUseless_run
    (hreq : ∀ w op, .start w op ∈ acts → op.isProfileRequest = true)
    (hcurrent : ∀ acts' w, acts' ++ [.commit w] <+: acts →
      LoginCurrent (userRun check db₀ acts') w) :
    OldPasswordsUseless db₀ (userRun check db₀ acts).db (userRun check db₀ acts).log := by
  induction acts using List.reverseRecOn with
  | nil => exact fun x _ _ => rfl
  | append_singleton acts act ih =>
    have ih := ih (fun w op h => hreq w op (List.mem_append_left _ h))
      (fun acts' w h => hcurrent acts' w (h.trans (List.prefix_append _ _)))
    rw [userRun_snoc]
    cases (userRun_kept check db₀ acts).progress _ ((userSystem check).step_moves _ act) with
    | quiet hdb hlog =>
      rw [hdb, hlog]
      exact ih
    | commit hw hpost hlegit hs' hlog hr hact =>
      subst hact
      rw [hlog, hs']
      apply ih.commit (loginsStand_run check db₀ acts) _ hpost hlegit
      · intro env arg user htx
        exact hcurrent acts _ (List.prefix_refl _) _ _ _ env arg user hw hr htx
      · exact ofProfileRequest_of_running
          (fun w op h => hreq w op (List.mem_append_left _ h)) hw

theorem loginCurrent_of_useless (hreq : ∀ w op, .start w op ∈ acts → op.isProfileRequest = true)
    (h : OldPasswordsUseless db₀ (userRun check db₀ (acts ++ [.commit w])).db
      (userRun check db₀ (acts ++ [.commit w])).log) : LoginCurrent (userRun check db₀ acts) w := by
  intro op r a env arg user hw hr htx
  obtain ⟨hpost, hlegit⟩ := ((userRun_kept check db₀ acts).inForce w op r hw).post _ hr
  have hreqtx := ofProfileRequest_of_running hreq hw
  rw [htx] at hpost hreqtx
  have hstep : userRun check db₀ (acts ++ [.commit w]) =
      (userSystem check).publish (userRun check db₀ acts) w op r a := by
    rw [userRun_snoc]
    simp only [System.step, hw, System.commitAt, hr]
  obtain ⟨ws₁, _, _, _, hrows⟩ := sessions_of_login hpost hlegit
  have hnew : newSession env.now arg ∈ (view r.own (userRun check db₀ acts).db).sessions.rows := by
    rw [hrows]
    exact List.mem_append_right _ (List.mem_singleton_self _)
  have hown : r.own.isEmpty = false := by
    obtain ⟨_, _, _, ws₂, x, y, hws⟩ := hpost
    rw [hws]
    simp
  rw [hstep] at h
  have hauth := h (newSession env.now arg) hnew rfl
  simp only [System.publish, hown, htx, Bool.false_eq_true, if_false] at hauth
  rw [authenticatedWith_login (loginsStand_run check db₀ acts) hpost hlegit] at hauth
  have hsame : (view r.own (userRun check db₀ acts).db).hashOf arg.username =
      (userRun check db₀ acts).db.hashOf arg.username :=
    hpost.hashOf hreqtx hlegit fun _ _ heq => by cases heq
  exact (hauth.trans hsame).symm

/-- In a run of logins and profile changes, no session is ever left unrevoked that was
authenticated with an old password, exactly if every login that commits has checked
the password its user has at that moment. -/
theorem userRun_oldPasswordsUseless (check : String → String → Bool) (db₀ : DB)
    (acts : List UserAction) (hreq : ∀ w op, .start w op ∈ acts → op.isProfileRequest = true) :
    (∀ acts', acts' <+: acts →
      OldPasswordsUseless db₀ (userRun check db₀ acts').db (userRun check db₀ acts').log) ↔
    ∀ acts' w, acts' ++ [.commit w] <+: acts → LoginCurrent (userRun check db₀ acts') w := by
  have hreq' : ∀ acts', acts' <+: acts → ∀ w op, .start w op ∈ acts' →
      op.isProfileRequest = true :=
    fun acts' hpre w op hop => hreq w op (hpre.subset hop)
  constructor
  · intro h acts' w hpre
    exact loginCurrent_of_useless (hreq' acts' ((List.prefix_append _ _).trans hpre)) (h _ hpre)
  · intro h acts' hpre
    exact oldPasswordsUseless_run (hreq' acts' hpre) fun acts'' w hpre' => h acts'' w (hpre'.trans hpre)

/-! Alice logs in and changes her password at the same time. The login checks the
first password, the change replaces it and revokes what sessions there are, and then
the login begins its session. -/

def aliceWithPassword : Table User :=
  ⟨[{ customer "alice" with hashedPassword := "first password" }], by decide +kernel⟩

def aliceLogin : UserOp :=
  .loginUser ⟨"alice", "first password"⟩ ⟨1, "", [1], 11, [9], "", "", 100⟩ (.drawing 1 1)
    (.drawing 1 2)

def alicePasswordChange : UserOp :=
  .updateUser "alice" ⟨some "first password", some "second password", none, none⟩
    (.ok "second password") (.drawing 2 3)

def lateLogin : List UserAction :=
  [.start 0 aliceLogin, .exec 0, .commit 0, .start 1 alicePasswordChange, .exec 1, .commit 1] ++
    (toCommit 1 ++ toCommit 0)

theorem isProfileRequest_lateLogin :
    ∀ w op, .start w op ∈ lateLogin → op.isProfileRequest = true := by
  intro w op h
  simp only [lateLogin, toCommit, List.mem_append, List.mem_cons, List.mem_replicate, List.not_mem_nil,
    Action.start.injEq, reduceCtorEq, and_false, false_or, or_false] at h
  rcases h with ⟨_, rfl⟩ | ⟨_, rfl⟩
  · rfl
  · rfl

theorem userRun_oldPasswordsUseless_lateLogin :
    (∀ acts', acts' <+: lateLogin → OldPasswordsUseless (DB.initial aliceWithPassword)
      (userRun (· == ·) (DB.initial aliceWithPassword) acts').db
      (userRun (· == ·) (DB.initial aliceWithPassword) acts').log) ↔
    ∀ acts' w, acts' ++ [.commit w] <+: lateLogin →
      LoginCurrent (userRun (· == ·) (DB.initial aliceWithPassword) acts') w :=
  userRun_oldPasswordsUseless (· == ·) (DB.initial aliceWithPassword) lateLogin
    isProfileRequest_lateLogin

/-- The session of the late login is active, though the first password is gone. -/
theorem not_oldPasswordsUseless_lateLogin :
    ¬ OldPasswordsUseless (DB.initial aliceWithPassword)
      (userRun (· == ·) (DB.initial aliceWithPassword) lateLogin).db
      (userRun (· == ·) (DB.initial aliceWithPassword) lateLogin).log := by
  intro h
  have hsession : newSession 1 ⟨1, "alice", [1], 11, [9], "", "", 100⟩ ∈
      (userRun (· == ·) (DB.initial aliceWithPassword) lateLogin).db.sessions.rows := by
    decide +kernel
  have hauth := h _ hsession rfl
  revert hauth
  decide +kernel

end Monierave
