import Monierave.Banking.System
import Monierave.Users.Contracts
import Monierave.Users.Requests

/-! # Verified addresses

A user is active with a verified address only if somebody has presented the token
of a job for that address, and the address has not changed since.
-/

namespace Monierave

open Relational ReadCommitted Prog

def User.verified (u : User) : Bool := decide (u.accountStatus = .active) && u.emailVerifiedAt.isSome

variable {t : UserTx} {o r : User}

variable {now : Timestamp} {u o : User} {w : Nat} {op : UserOp}

theorem User.verified_newUser (now : Timestamp) (arg : CreateUserParams) :
    (newUser now arg).verified = false := rfl

theorem User.lower_email_update {arg : UpdateUserParams} (h : (u.update now arg).verified = true) :
    u.verified = true ∧ Unicode.lower (u.update now arg).email = Unicode.lower u.email := by
  have hsame : u.emailChanges arg.email = false := by
    by_contra hchange
    rw [Bool.not_eq_false] at hchange
    simp [User.verified, User.update, hchange] at h
  refine ⟨by simpa [User.verified, User.update, hsame] using h, ?_⟩
  cases hemail : arg.email with
  | none => simp [User.update, hemail]
  | some email =>
    rw [hemail] at hsame
    simpa [User.update, hemail, User.emailChanges] using hsame

theorem User.verified_report {arg : UpdateCurrentUserEmailDeliverabilityParams}
    (h : (u.report now arg).verified = true) : u.verified = true := by
  by_cases hlost : arg.deliverabilityStatus = .undeliverable
  · simp [User.verified, User.report, hlost] at h
  · simpa [User.verified, User.report, hlost] using h

/-- What a transaction did to a user's row: if the address is verified now, it was
before and is the same, or the transaction has verified it. -/
structure UserTx.Grants (t : UserTx) (o r : User) : Prop where
  username : r.username = o.username
  verified : r.verified = true →
    (o.verified = true ∧ Unicode.lower r.email = Unicode.lower o.email) ∨
    ∃ env arg, t = .verifyUserEmail env arg ∧ r.username = arg.username ∧
      Unicode.lower r.email = Unicode.lower arg.email

theorem UserTx.Grants.refl (t : UserTx) (u : User) : t.Grants u u :=
  ⟨rfl, fun h => Or.inl ⟨h, rfl⟩⟩

theorem UserTx.Grants.trans (h : t.Grants o r) (h' : t.Grants r u) : t.Grants o u := by
  refine ⟨h'.username.trans h.username, fun hu => ?_⟩
  rcases h'.verified hu with ⟨hr, hemail⟩ | hnow
  · rcases h.verified hr with ⟨ho, hemail'⟩ | ⟨env, arg, ht, hname, hemail'⟩
    · exact Or.inl ⟨ho, hemail.trans hemail'⟩
    · exact Or.inr ⟨env, arg, ht, h'.username.trans hname, hemail.trans hemail'⟩
  · exact Or.inr hnow

theorem UserTx.changes.grants (h : t.changes o r) : t.Grants o r := by
  cases t with
  | updateUser env arg =>
    obtain ⟨_, rfl⟩ := h
    exact ⟨rfl, fun hr => Or.inl (User.lower_email_update hr)⟩
  | requestEmailVerification env username =>
    obtain rfl := h
    exact ⟨rfl, fun hr => by simp [User.verified, User.restartVerification] at hr⟩
  | verifyUserEmail env arg =>
    obtain ⟨hname, hemail, rfl⟩ := h
    exact ⟨rfl, fun _ => Or.inr ⟨env, arg, rfl, hname, hemail⟩⟩
  | processEmailDeliveryEvent env arg =>
    obtain ⟨arg', rfl⟩ := h
    exact ⟨rfl, fun hr => Or.inl ⟨User.verified_report hr, rfl⟩⟩
  | disableExpiredPendingUser now username =>
    obtain rfl := h
    exact ⟨rfl, fun hr => by simp [User.verified, User.disable] at hr⟩
  | disableExpiredPendingUsers now =>
    obtain rfl := h
    exact ⟨rfl, fun hr => by simp [User.verified, User.disable] at hr⟩
  | _ => exact h.elim

variable {a : UserResponse} {ws : List Write} {held : List LockKey} {db : DB}

theorem UserTx.post.verified (hpost : t.post a ws held db) (hlegit : userCovenant.LegitAll ws db)
    (hu : (view ws db).users.get (.username u.username) = some u) (hver : u.verified = true) :
    (∃ o, db.users.get (.username u.username) = some o ∧ o.verified = true ∧
        Unicode.lower u.email = Unicode.lower o.email) ∨
      ∃ env arg, t = .verifyUserEmail env arg ∧ u.username = arg.username ∧
        Unicode.lower u.email = Unicode.lower arg.email := by
  have hmem := Table.mem_of_get hu
  rw [users_view] at hmem
  rcases Table.origin_of_mem_edit (Q := t.Grants) (Grants.refl t) (fun h h' => h.trans h')
    (users_legits hlegit) hmem
    (fun o r hr _ => UserTx.changes.grants (hpost.1 (.updateUser o r) (by simpa using hr))) with
    ⟨o, ho, hpk, hgrants⟩ | ⟨o, ho, hpk, hgrants⟩
  · rcases hgrants.verified hver with ⟨hover, hemail⟩ | hnow
    · have hget : db.users.get (pk u) = some o := hpk ▸ Table.get_pk ho
      exact Or.inl ⟨o, hget, hover, hemail⟩
    · exact Or.inr hnow
  · -- a new user is not verified
    obtain ⟨env, arg, rfl, rfl⟩ := hpost.1 (.insertUser o) (by simpa using ho)
    rcases hgrants.verified hver with ⟨hover, _⟩ | ⟨env', arg', heq, _⟩
    · rw [User.verified_newUser] at hover
      cases hover
    · cases heq

/-- Every verification in progress is for a job in the table: its arguments are the
job's user and recipient. -/
def Presented (s : UserState) : Prop :=
  ∀ w op r, s.workers w = .running op r → ∀ env arg, r.tx = .verifyUserEmail env arg →
    ∃ job : EmailJob, job.StandsIn s.db ∧ arg = ⟨job.username, job.recipient, job.id, arg.tokenHash⟩

variable {check : String → String → Bool} {s s' : UserState} {act : UserAction}

theorem Presented.setWorker (h : Presented s) (s₀ : UserState) {j : UserJob}
    (hs₀ : s₀.workers = s.workers)
    (hdb : ∀ job : EmailJob, job.StandsIn s.db → job.StandsIn s₀.db)
    (hj : ∀ env arg n, j = .tx (.verifyUserEmail env arg) n → ∃ job : EmailJob,
      job.StandsIn s₀.db ∧ arg = ⟨job.username, job.recipient, job.id, arg.tokenHash⟩) :
    Presented (s₀.setWorker w ((userSystem check).enter op j)) := by
  refine (userSystem check).running_setWorker s₀ hs₀ ?_ ?_
  · intro v op' r hv env arg htx
    obtain ⟨job, hstands, harg⟩ := h v op' r hv env arg htx
    exact ⟨job, hdb job hstands, harg⟩
  · intro r hr env arg htx
    cases j with
    | done x => cases hr
    | tx t next =>
      cases hr
      exact hj env arg next (by rw [← htx])

theorem presented_moves (h : Presented s) (hkept : (userContract check).Kept s)
    (hled : (userSystem check).Led s) (hm : (userSystem check).Moves s act s') : Presented s' := by
  cases hm with
  | stay => exact h
  | start hact hw =>
    exact h.setWorker s rfl (fun _ hjob => hjob) fun env arg n hj =>
      absurd hj job_ne_verifyUserEmail
  | advance hw hr hq hwait hfree =>
    have hown := h _ _ _ hw
    exact System.running_advance h hown
  | rollback e hw =>
    rename_i w op r
    refine h.setWorker (s.release w) rfl (fun _ hjob => hjob) fun env arg n hj => ?_
    obtain ⟨_, _, _, hx, _⟩ := leads_verifyUserEmail (hled w op r hw) hj
    cases hx
  | commit hw hr hact =>
    rename_i w op r a
    obtain ⟨hpost, hlegit⟩ := (hkept.inForce w op r hw).post _ hr
    have hstands : ∀ job : EmailJob, job.StandsIn s.db → job.StandsIn (view r.own s.db) :=
      fun job hjob => hjob.view hpost.1 hlegit
    refine h.setWorker { s.release w with db := view r.own s.db, log := _ } rfl hstands
      fun env arg n hj => ?_
    -- the lookup has found the job in the table
    obtain ⟨hash, job, htx, hx, harg⟩ := leads_verifyUserEmail (hled w op r hw) hj
    rw [htx] at hpost
    obtain rfl := Except.ok.inj hx
    exact ⟨job, hstands job (hpost.2 job rfl), by rw [harg]⟩

theorem userRun_presented (check : String → String → Bool) (db₀ : DB) (acts : List UserAction) :
    Presented (userRun check db₀ acts) :=
  (userRun_kept check db₀ []).run_induction _ ((userSystem check).led_run db₀ [])
    (fun _ _ _ hw => by cases hw) (fun hkept hled h hm => presented_moves h hkept hled hm) acts

/-- If the worker commits now, it verifies the address of the user: there is a job of
the user, to that address, whose token has not expired and is the one presented. -/
def VerifiesAt (s : UserState) (w : Nat) (username email : String) : Prop :=
  ∃ op r a env arg, s.workers w = .running op r ∧ r.rest = .ret a ∧
    r.tx = .verifyUserEmail env arg ∧ ∃ job token, s.db.emailJobs.get (.id arg.jobID) = some job ∧
      job.username = username ∧ Unicode.lower job.recipient = Unicode.lower email ∧
      job.verificationToken = some token ∧ env.clock < token.expiresAt ∧ token.hash = arg.tokenHash

def DB.addressOf (db : DB) (username : String) : Option String :=
  (db.users.get (.username username)).map fun u => Unicode.lower u.email

/-- The address has stayed the same from the end of `acts₁` on, throughout `acts₂`. -/
def AddressKept (check : String → String → Bool) (db₀ : DB) (acts₁ acts₂ : List UserAction)
    (u : User) : Prop :=
  ∀ acts, acts <+: acts₂ →
    (userRun check db₀ (acts₁ ++ acts)).db.addressOf u.username = some (Unicode.lower u.email)

/-- Since the address changed for the last time it has been verified. A user who was
verified at the start and has kept the address since needs no verification. -/
def VerifiedSince (check : String → String → Bool) (db₀ : DB) (acts : List UserAction)
    (u : User) : Prop :=
  (∃ acts₁ w acts₂, acts = acts₁ ++ [.commit w] ++ acts₂ ∧
    VerifiesAt (userRun check db₀ acts₁) w u.username u.email ∧
    AddressKept check db₀ (acts₁ ++ [.commit w]) acts₂ u) ∨
  ((∃ u₀, db₀.users.get (.username u.username) = some u₀ ∧ u₀.verified = true) ∧
    AddressKept check db₀ [] acts u)

variable {db₀ : DB} {acts acts₁ acts₂ : List UserAction}

theorem AddressKept.snoc (h : AddressKept check db₀ acts₁ acts₂ o)
    (hname : o.username = u.username) (hemail : Unicode.lower u.email = Unicode.lower o.email)
    (hu : (userRun check db₀ (acts₁ ++ (acts₂ ++ [act]))).db.users.get (.username u.username) =
      some u) : AddressKept check db₀ acts₁ (acts₂ ++ [act]) u := by
  intro acts hpre
  rcases List.prefix_concat_iff.mp hpre with rfl | hpre
  · rw [DB.addressOf, hu]
    rfl
  · rw [← hname, hemail]
    exact h acts hpre

theorem VerifiedSince.snoc (h : VerifiedSince check db₀ acts o) (hname : o.username = u.username)
    (hemail : Unicode.lower u.email = Unicode.lower o.email)
    (hu : (userRun check db₀ (acts ++ [act])).db.users.get (.username u.username) = some u) :
    VerifiedSince check db₀ (acts ++ [act]) u := by
  rcases h with ⟨acts₁, w, acts₂, rfl, hver, hkept⟩ | ⟨⟨u₀, hu₀, hver⟩, hkept⟩
  · left
    refine ⟨acts₁, w, acts₂ ++ [act], by simp, ?_, hkept.snoc hname hemail (by simpa using hu)⟩
    obtain ⟨op, r, a, env, arg, hw, hr, htx, job, token, hjob, huser, hrec, hrest⟩ := hver
    exact ⟨op, r, a, env, arg, hw, hr, htx, job, token, hjob, huser.trans hname,
      hrec.trans hemail.symm, hrest⟩
  · exact Or.inr ⟨⟨u₀, hname ▸ hu₀, hver⟩, hkept.snoc hname hemail hu⟩

theorem verifiesAt_of_commit {r : Running Write DB LockKey Err UserTx UserResponse} {env : Env}
    {arg : VerifyUserEmailTxParams} {email : String}
    (hw : (userRun check db₀ acts).workers w = .running op r) (hr : r.rest = .ret a)
    (htx : r.tx = .verifyUserEmail env arg)
    (hemail : Unicode.lower email = Unicode.lower arg.email) :
    VerifiesAt (userRun check db₀ acts) w arg.username email := by
  obtain ⟨hpost, _⟩ := ((userRun_kept check db₀ acts).inForce w op r hw).post _ hr
  rw [htx] at hpost
  obtain ⟨job, hjob, huser, _, token, htoken, hexp, hhash⟩ := hpost.2
  obtain ⟨job', ⟨job'', hjob'', _, hrec⟩, harg⟩ := userRun_presented check db₀ acts w op r hw env arg htx
  have hsame : job'' = job := by
    rw [harg] at hjob
    exact Option.some.inj (hjob''.symm.trans hjob)
  have hrecipient : job.recipient = arg.email := by
    rw [← hsame, hrec, harg]
  exact ⟨op, r, a, env, arg, hw, hr, htx, job, token, hjob, huser,
    by rw [hrecipient, hemail], htoken, hexp, hhash⟩

/-- Whenever a user is active with a verified address, that address has been verified
with the token of a job since it changed for the last time. -/
theorem userRun_verifiedSince (check : String → String → Bool) (db₀ : DB) (acts : List UserAction)
    (u : User) (hmem : u ∈ (userRun check db₀ acts).db.users.rows) (hver : u.verified = true) :
    VerifiedSince check db₀ acts u := by
  induction acts using List.reverseRecOn generalizing u with
  | nil =>
      have hu : u ∈ db₀.users.rows := hmem
      refine Or.inr ⟨⟨u, Table.get_pk hu, hver⟩, ?_⟩
      intro acts hpre
      obtain rfl := List.prefix_nil.mp hpre
      have hget : db₀.users.get (.username u.username) = some u := Table.get_pk hu
      simp [DB.addressOf, userRun, State.init, hget]
  | append_singleton acts act ih =>
      have hu : (userRun check db₀ (acts ++ [act])).db.users.get (.username u.username) = some u :=
        Table.get_pk hmem
      have hstep := userRun_snoc check db₀ acts act
      cases (userRun_kept check db₀ acts).progress _ ((userSystem check).step_moves _ act) with
      | quiet hdb hlog =>
          rw [hstep, hdb] at hmem
          exact (ih u hmem hver).snoc rfl rfl hu
      | commit hw hpost hlegit hs' hlog hr hact =>
          rename_i w op r a
          subst hact
          have hview : (view r.own (userRun check db₀ acts).db).users.get (.username u.username) =
            some u := by
              rw [hstep, hs'] at hu
              exact hu
          rcases hpost.verified hlegit hview hver with
            ⟨o, ho, hover, hemail⟩ | ⟨env, arg, htx, hname, hemail⟩
          · exact (ih o (Table.mem_of_get ho) hover).snoc (User.username_of_get ho) hemail hu
          · refine Or.inl ⟨acts, _, [], by simp, hname ▸ verifiesAt_of_commit hw hr htx hemail, ?_⟩
            intro acts' hpre
            obtain rfl := List.prefix_nil.mp hpre
            rw [List.append_nil, DB.addressOf, hu]
            rfl

/-! Alice registers, a token is stored for the job, and she confirms her address. -/

def aliceTokenHash : Bytes := List.replicate 32 7

def aliceRegisters : List UserAction :=
  uninterrupted 0 (.createUserTx ⟨"alice", "hash", "Alice", "alice@example.com"⟩ (.drawing 1 1)) ++
    (uninterrupted 1 (.setEmailJobVerificationToken ⟨100, some aliceTokenHash, some 50⟩) ++
      ([.start 2 (.confirmUserEmail aliceTokenHash 10 (.drawing 10 2)), .exec 2, .commit 2] ++
        toCommit 2))

def aliceVerified : User :=
  (newUser 1 ⟨"alice", "hash", "Alice", "alice@example.com"⟩).markVerified 10

theorem userRun_verifiedSince_aliceRegisters :
    VerifiedSince (· == ·) (DB.initial ∅) aliceRegisters aliceVerified :=
  userRun_verifiedSince (· == ·) (DB.initial ∅) aliceRegisters aliceVerified (by decide +kernel) rfl

end Monierave
