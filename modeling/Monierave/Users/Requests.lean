import Monierave.Users.System

/-! # The transactions of a request

Which transactions each request may come to, and with which arguments.
-/

namespace Monierave

open ReadCommitted

/-- The transactions of a request or a call. What a request has read before is
whatever the store may have answered. -/
def UserOp.runs (check : String → String → Bool) : UserOp → UserTx → Prop
  | loginUser req draw env auditEnv, t =>
    t = .getUser (Unicode.lower req.username) ∨
    (∃ reason, t = .recordLoginFailure auditEnv (Unicode.lower req.username) reason) ∨
    ∃ user, check req.password user.hashedPassword = true ∧
      t = .createExclusiveSession env { draw with username := user.username } (some user)
  | updateUser username req _ env, t =>
    t = .getUser username ∨ ∃ current hash, t = .updateUser env (req.params username current hash)
  | confirmUserEmail tokenHash _ env, t =>
    t = .getEmailJobByVerificationTokenHash tokenHash ∨
    ∃ job : EmailJob, t = .verifyUserEmail env ⟨job.username, job.recipient, job.id, tokenHash⟩
  | createExclusiveSessionTx arg env, t => t = .createExclusiveSession env arg none
  | rotateRefreshTokenTx arg env, t => t = .rotateRefreshToken env arg
  | revokeSessionTx arg env, t => t = .revokeSession env arg
  | revokeAllUserSessionsTx username reason eventType env, t =>
    t = .revokeAllUserSessions env username reason eventType
  | createUserTx arg env, t => t = .createUser env arg
  | updateUserTx arg env, t => t = .updateUser env arg
  | requestEmailVerificationTx username env, t => t = .requestEmailVerification env username
  | setEmailJobVerificationToken arg, t => t = .setEmailJobVerificationToken arg
  | processEmailDeliveryEventTx arg env, t => t = .processEmailDeliveryEvent env arg
  | disableExpiredPendingUser now username, t => t = .disableExpiredPendingUser now username
  | disableExpiredPendingUsers now, t => t = .disableExpiredPendingUsers now

variable {check : String → String → Bool}

variable {op : UserOp} {env : Env} {next n : Except Err UserResponse → UserJob}
    {arg : VerifyUserEmailTxParams}

theorem loginUserJob_all (req : LoginUserRequest) (draw : CreateSessionParams) (env auditEnv : Env) :
    (loginUserJob check req draw env auditEnv).All
      ((UserOp.loginUser req draw env auditEnv).runs check) := by
  unfold loginUserJob
  cases validateNewPassword req.password with
  | error e => trivial
  | ok _ =>
    refine ⟨Or.inl rfl, fun x => ?_⟩
    dsimp only
    split
    · exact ⟨Or.inr (Or.inl ⟨_, rfl⟩), fun _ => trivial⟩
    · rename_i user
      split_ifs with hcheck
      · exact ⟨Or.inr (Or.inr ⟨user, hcheck, rfl⟩), fun _ => trivial⟩
      · exact ⟨Or.inr (Or.inl ⟨_, rfl⟩), fun _ => trivial⟩
    · trivial

theorem applyUpdateJob_all (req : UpdateUserRequest) (username : String) (current : User)
    (newHash : Except Err String) (env : Env) :
    (applyUpdateJob req username current newHash env).All
      ((UserOp.updateUser username req newHash env).runs check) := by
  unfold applyUpdateJob
  split
  · exact ⟨Or.inr ⟨current, none, rfl⟩, fun _ => trivial⟩
  · split
    · trivial
    · trivial
    · exact ⟨Or.inr ⟨current, some _, rfl⟩, fun _ => trivial⟩

theorem updateUserJob_all (username : String) (req : UpdateUserRequest)
    (newHash : Except Err String) (env : Env) :
    (updateUserJob check username req newHash env).All
      ((UserOp.updateUser username req newHash env).runs check) := by
  unfold updateUserJob
  split_ifs
  · trivial
  · refine ⟨Or.inl rfl, fun x => ?_⟩
    dsimp only
    split
    · trivial
    · split_ifs
      · split
        · trivial
        · split_ifs
          · exact applyUpdateJob_all req username _ newHash env
          · trivial
      · exact applyUpdateJob_all req username _ newHash env
    · trivial

theorem confirmUserEmailJob_all (tokenHash : Bytes) (clock : Timestamp) (env : Env) :
    (confirmUserEmailJob tokenHash clock env).All
      ((UserOp.confirmUserEmail tokenHash clock env).runs check) := by
  unfold confirmUserEmailJob
  refine ⟨Or.inl rfl, fun x => ?_⟩
  dsimp only
  split
  · trivial
  · rename_i job
    split_ifs
    · exact ⟨Or.inr ⟨job, rfl⟩, fun _ => trivial⟩
    · trivial
  · trivial

theorem UserOp.job_all (op : UserOp) : (op.job check).All (op.runs check) := by
  cases op with
  | loginUser req draw env auditEnv => exact loginUserJob_all req draw env auditEnv
  | updateUser username req newHash env => exact updateUserJob_all username req newHash env
  | confirmUserEmail tokenHash clock env => exact confirmUserEmailJob_all tokenHash clock env
  | rotateRefreshTokenTx arg env =>
    refine ⟨rfl, fun x => ?_⟩
    dsimp only
    split
    · trivial
    · trivial
  | _ => exact ⟨rfl, fun _ => trivial⟩

theorem runs_of_running {db₀ : DB} {acts : List UserAction} {w : Nat}
    {r : Running Write DB LockKey Err UserTx UserResponse}
    (hw : (userRun check db₀ acts).workers w = .running op r) : op.runs check r.tx :=
  ((userSystem check).led_run db₀ acts w op r hw).of_all op.job_all

theorem leads_rotateRefreshToken {arg : RotateRefreshTokenTxParams}
    (h : (op.job check).Leads (.rotateRefreshToken env arg) next) :
    op = .rotateRefreshTokenTx arg env ∧ ∀ x, ∃ y, next x = .done y := by
  have hruns := h.of_all op.job_all
  cases op with
  | rotateRefreshTokenTx arg' env' =>
    cases hruns
    refine ⟨rfl, fun x => ?_⟩
    cases h with
    | here t next =>
      dsimp only
      split
      · exact ⟨_, rfl⟩
      · exact ⟨_, rfl⟩
    | later y h =>
      dsimp only at h
      split at h
      · cases h
      · cases h
  | loginUser req draw env' auditEnv => simp [UserOp.runs] at hruns
  | updateUser username req newHash env' => simp [UserOp.runs] at hruns
  | confirmUserEmail tokenHash clock env' => simp [UserOp.runs] at hruns
  | _ => cases hruns

theorem leads_verifyUserEmail {t : UserTx} {x : Except Err UserResponse}
    (h : (op.job check).Leads t next) (hnext : next x = .tx (.verifyUserEmail env arg) n) :
    ∃ hash job, t = .getEmailJobByVerificationTokenHash hash ∧ x = .ok (.job (some job)) ∧
      arg = ⟨job.username, job.recipient, job.id, hash⟩ := by
  have hlater : (next x).Leads (.verifyUserEmail env arg) n := hnext ▸ .here _ _
  have hruns := (h.trans hlater).of_all op.job_all
  cases op with
  | confirmUserEmail tokenHash clock env' =>
    cases h with
    | here t next =>
      dsimp only at hnext
      split at hnext
      · cases hnext
      · rename_i job
        split_ifs at hnext
        cases hnext
        exact ⟨tokenHash, job, rfl, rfl, rfl⟩
      · cases hnext
    | later y h =>
      -- the verification itself is the last transaction
      dsimp only at h
      split at h
      · cases h
      · split_ifs at h
        · cases h with
          | here t next => cases hnext
          | later z h => cases h
        · cases h
      · cases h
  | loginUser req draw env' auditEnv => simp [UserOp.runs] at hruns
  | updateUser username req newHash env' => simp [UserOp.runs] at hruns
  | _ => cases hruns

theorem job_ne_verifyUserEmail : op.job check ≠ .tx (.verifyUserEmail env arg) n := by
  intro h
  cases op with
  | loginUser req draw env' auditEnv =>
    simp only [UserOp.job, loginUserJob] at h
    cases hv : validateNewPassword req.password with
    | error e => simp [hv] at h
    | ok _ => simp [hv] at h
  | updateUser username req newHash env' =>
    simp only [UserOp.job, updateUserJob] at h
    split_ifs at h
    cases h
  | _ => cases h

end Monierave
