import Monierave.Users.Rules

/-! # The contracts of the transactions on users

What holds of each transaction at the moment it commits: which rows it replaces
and, where its caller depends on it, what the rows it had locked say.
-/

namespace Monierave

open Relational ReadCommitted Prog

variable {t : UserTx} {f : UserFooting}

def RotateRefreshTokenTxParams.Committed (arg : RotateRefreshTokenTxParams) (env : Env)
    (a : UserResponse) (ws : List Write) (db : DB) : Prop :=
  ∃ o, db.sessions.get (.id arg.sessionID) = some o ∧ o.username = arg.username ∧
    o.revoked = false ∧ env.clock < o.expiresAt ∧ o.deviceTokenHash = arg.presentedDeviceHash ∧
    ((arg.matches o = true ∧
        a = .rotation (.rotated (o.rotate env.now arg.newTokenHash arg.newRefreshID)) ∧
        ∃ x, ws = [.updateSession o (o.rotate env.now arg.newTokenHash arg.newRefreshID),
          .insertAuditLog x]) ∨
      (arg.matches o = false ∧ a = .rotation .reused ∧
        ∃ reason x, ws = [.updateSession o (o.revoke env.now reason), .insertAuditLog x]))

def VerifyUserEmailTxParams.Shown (arg : VerifyUserEmailTxParams) (clock : Timestamp) (db : DB) :
    Prop :=
  ∃ job, db.emailJobs.get (.id arg.jobID) = some job ∧ job.username = arg.username ∧
    Unicode.equalFold job.recipient arg.email = true ∧
    ∃ token, job.verificationToken = some token ∧ clock < token.expiresAt ∧
      token.hash = arg.tokenHash

/-- What a caller learns from a transaction that commits, beyond the kind of its
writes. -/
def UserTx.outcome : UserTx → UserResponse → List Write → List LockKey → DB → Prop
  | createExclusiveSession env arg _, a, ws, held, _ =>
    a = .session (newSession env.now arg) ∧ .user (.username arg.username) ∈ held ∧
      ∃ ws₁ x y, ws = ws₁ ++ [.insertSession (newSession env.now arg), .insertAuditLog x,
        .insertAuditLog y]
  | rotateRefreshToken env arg, a, ws, _, db => arg.Committed env a ws db
  | updateUser env arg, _, ws, _, db =>
    (∃ o, .updateUser o (o.update env.now arg.toUpdateUserParams) ∈ ws ∧
      o.username = arg.username) ∧
    (arg.revokeSessions = true → Covered arg.username [] ws db)
  | getEmailJobByVerificationTokenHash _, a, _, _, db =>
    ∀ j, a = .job (some j) → j.StandsIn db
  | verifyUserEmail env arg, _, _, _, db => arg.Shown env.clock db
  | _, _, _, _, _ => True

def UserTx.post (t : UserTx) (a : UserResponse) (ws : List Write) (held : List LockKey) (db : DB) :
    Prop :=
  (∀ w ∈ ws, t.allows w) ∧ t.outcome a ws held db

variable {env : Env} {r : Session} {username : String} {now : Timestamp} {db : DB}
    {arg : ProcessEmailDeliveryEventParams}

theorem Routine.secured {α : Type} {p : Tx α} (hp : Routine t p) {g : α → UserResponse}
    (hout : ∀ a ws held db, t.outcome a ws held db) :
    Secured (p >>= fun a => Pure.pure (g a)) (Footing.start userCovenant) fun a f =>
      ∀ db, f.Admits db → t.post a f.own f.held db := by
  apply Secured.bind
  apply hp _ _ (lawful_start t)
  intro a f hf _ db _
  exact ⟨hf.allows, hout _ _ _ _⟩

theorem secured_createExclusiveSession {arg : CreateSessionParams} {checked : Option User}
    (ht : t = .createExclusiveSession env arg checked) :
    Secured (createExclusiveSessionTx env arg) (Footing.start userCovenant) fun a f =>
      ∀ db, f.Admits db → t.post (.session a) f.own f.held db := by
  apply Secured.bind
  apply secured_lockUser (lawful_start t) rfl
  intro _ f₀ hf₀ _ hlock _
  apply Secured.bind
  apply secured_revokeAllUserSessions (L := False) hf₀ False.elim
  intro replaced f₁ hf₁ hgrow₁ _
  apply Secured.bind
  apply secured_auditRevokedSessions hf₁
  intro f₂ hf₂ hgrow₂
  apply Secured.bind
  apply Secured.call
  intro db₂ eff₂ _ hs₂
  obtain ⟨_, hconf, _, heff₂⟩ := insertRow_ok.mp hs₂
  have hf₃ : Lawful t (f₂.next eff₂) := hf₂.next (by
    simp only [heff₂, List.mem_singleton, forall_eq]
    exact ⟨env, arg, checked, ht, rfl⟩)
  refine ⟨by rw [heff₂]; exact ⟨hconf, trivial⟩, ?_⟩
  apply Secured.bind
  apply secured_createAuditLog hf₃
  intro x f₄ hf₄ hgrow₄ hown₄
  apply Secured.bind
  apply secured_createAuditLog hf₄
  intro y f₅ hf₅ hgrow₅ hown₅ db₅ _
  refine ⟨hf₅.allows, ?_⟩
  rw [ht]
  refine ⟨by rw [heff₂], ?_, f₂.own, x, y, ?_⟩
  · exact ((((hgrow₁.trans hgrow₂).trans (f₂.grows_next eff₂)).trans hgrow₄).trans hgrow₅).held _
      hlock
  · rw [hown₅, hown₄, Footing.next_own, heff₂, List.append_assoc, List.append_assoc]
    rfl

theorem secured_updateLockedSession {e : Err} {id : UUID} {g : Session → Option Session}
    {o : Session} (hf : Lawful t f) (hown : f.own = [])
    (hknown : ∀ db, f.known db → db.sessions.get (.id id) = some o) (hg : g o = some r)
    (hallow : t.allows (.updateSession o r)) {Q : Session → UserFooting → Prop}
    (hQ : ∀ f', Lawful t f' → f.Grows f' → f'.own = [.updateSession o r] → Q r f') :
    Secured (fetch e (updateSessionRow id g)) f Q := by
  apply Secured.fetch
  intro db eff hadm hs
  rw [hown] at hs
  rcases updateSessionRow_ok hs with ⟨_, hnone⟩ | ⟨o', r', ho', hr', hclash, heff⟩
  · have := hnone o (hknown db hadm.known)
    rw [hg] at this
    cases this
  · have ho : o' = o := by
      have := hknown db hadm.known
      rw [view_nil] at ho'
      rw [ho'] at this
      exact Option.some.inj this
    subst ho
    rw [hg] at hr'
    obtain rfl := Option.some.inj hr'
    have hpk : db.sessions.get (pk r) = some o' := by
      show db.sessions.get (.id r.id) = some o'
      rw [(UserTx.allows_updateSession hallow).1]
      exact Table.get_eq_of_key ho' (Keyed.pk_mem o')
    refine ⟨?_, ?_⟩
    · rw [heff, hown]
      exact ⟨⟨hpk, hclash⟩, trivial⟩
    · intro a ha
      rw [heff] at ha
      obtain rfl := Option.some.inj ha
      apply hQ _ (hf.next _) (f.grows_next eff)
      · rw [Footing.next_own, hown, heff]
        rfl
      · simpa [heff] using hallow

theorem secured_rotateRefreshToken {arg : RotateRefreshTokenTxParams}
    (ht : t = .rotateRefreshToken env arg) :
    Secured (rotateRefreshTokenTx env arg) (Footing.start userCovenant) fun a f =>
      ∀ db, f.Admits db → t.post (.rotation a) f.own f.held db := by
  apply Secured.bind
  apply secured_lockSession (lawful_start t) rfl
  intro o f₁ hf₁ hown hknown
  apply Secured.bind
  apply Secured.refuse
  intro hname
  apply Secured.bind
  apply Secured.refuse
  intro hrev
  apply Secured.bind
  apply Secured.refuse
  intro hexp
  apply Secured.bind
  apply Secured.refuse
  intro hdev
  have hname' : o.username = arg.username := not_not.mp hname
  have hrev' : o.revoked = false := by simpa using hrev
  have hexp' : env.clock < o.expiresAt := not_not.mp hexp
  have hdev' : o.deviceTokenHash = arg.presentedDeviceHash :=
    constantTimeHashEqual_iff.mp (not_not.mp hdev)
  by_cases hmatch : arg.matches o = true
  · rw [if_pos hmatch]
    apply Secured.bind
    refine secured_updateLockedSession (r := o.rotate env.now arg.newTokenHash arg.newRefreshID)
      hf₁ hown hknown rfl ⟨hrev', Or.inr ⟨env, arg, ht, rfl⟩⟩ ?_
    intro f₂ hf₂ hgrow₂ hown₂
    apply Secured.bind
    apply secured_createAuditLog hf₂
    intro x f₃ hf₃ hgrow₃ hown₃ db hadm
    rw [hown₂] at hown₃
    refine ⟨hf₃.allows, ?_⟩
    rw [ht]
    exact ⟨o, hknown db (hgrow₂.known db (hgrow₃.known db hadm.known)), hname', hrev', hexp', hdev',
      Or.inl ⟨hmatch, rfl, x, hown₃⟩⟩
  · rw [if_neg hmatch]
    apply Secured.bind
    refine secured_updateLockedSession hf₁ hown hknown (by rw [hrev']; rfl)
      ⟨hrev', Or.inl ⟨env.now, textValue "refresh_token_reuse", rfl⟩⟩ ?_
    intro f₂ hf₂ hgrow₂ hown₂
    apply Secured.bind
    apply secured_createAuditLog hf₂
    intro x f₃ hf₃ hgrow₃ hown₃ db hadm
    rw [hown₂] at hown₃
    refine ⟨hf₃.allows, ?_⟩
    rw [ht]
    exact ⟨o, hknown db (hgrow₂.known db (hgrow₃.known db hadm.known)), hname', hrev', hexp', hdev',
      Or.inr ⟨by simpa using hmatch, rfl, _, x, hown₃⟩⟩

theorem routine_createVerificationEmailJob {n : Nat} {recipient : String} :
    Routine t (createVerificationEmailJob env n username recipient) :=
  fun _ _ hf hQ => secured_createVerificationEmailJob hf hQ

theorem revokeSession_allows {reason : Option String} {o : Session}
    (h : (if o.revoked then none else some (o.revoke now reason)) = some r) :
    t.allows (.updateSession o r) := by
  by_cases hrev : o.revoked = true
  · rw [if_pos hrev] at h
    cases h
  · rw [if_neg hrev] at h
    cases h
    exact ⟨by simpa using hrev, Or.inl ⟨now, reason, rfl⟩⟩

theorem routine_revokeSessionTx {arg : RevokeSessionTxParams} :
    Routine t (revokeSessionTx env arg) := by
  refine .bind (.call fun _ _ _ => lawful_selectForUpdate) fun current => ?_
  cases current with
  | none => exact .pure ()
  | some current =>
    refine .bind .refuse fun _ => .bind (.call fun _ _ _ => ?_) fun session => ?_
    · exact lawful_updateSessionRow fun _ _ => revokeSession_allows
    · cases session with
      | none => exact .pure ()
      | some session =>
        exact .bind (.call fun _ _ _ => lawful_createAuditLog) fun _ => .pure ()

theorem routine_revokeAllUserSessionsTx {reason eventType : String} :
    Routine t (revokeAllUserSessionsTx env username reason eventType) := by
  refine .bind ?_ fun sessions f _ hf hQ => secured_auditRevokedSessions hf (hQ ())
  intro f Q hf hQ
  exact secured_revokeAllUserSessions (L := False) hf False.elim fun a f' hf' hgrow _ =>
    hQ a f' hf' hgrow

theorem routine_createUserTx {arg : CreateUserParams} (ht : t = .createUser env arg) :
    Routine t (createUserTx env arg) := by
  refine .bind (.call ?_) fun user => .bind routine_createVerificationEmailJob fun _ => .pure _
  intro own db eff hs
  obtain ⟨_, hconf, _, rfl⟩ := insertRow_ok.mp hs
  refine ⟨⟨hconf, trivial⟩, ?_⟩
  simp only [List.mem_singleton, forall_eq]
  exact ⟨env, arg, ht, rfl⟩

theorem routine_requestEmailVerificationTx (ht : t = .requestEmailVerification env username) :
    Routine t (requestEmailVerificationTx env username) := by
  refine .bind (.fetch fun _ _ _ => lawful_selectForUpdate) fun user => .bind .refuse fun _ =>
    .bind .refuse fun _ => .bind (.call fun _ _ _ => lawful_readOnly) fun latest =>
    .bind .refuse fun _ => .bind (.fetch fun _ _ _ => ?_) fun _ =>
    .bind routine_createVerificationEmailJob fun _ => .pure _
  apply lawful_updateUserRow
  intro o r _ hr
  obtain rfl := Option.some.inj hr
  exact ⟨rfl, by rw [ht]; rfl⟩

theorem lawful_disableExpiredPendingUser {own : List Write} {eff : Answer (Option User)}
    (ht : ∀ o r, r = o.disable → t.changes o r)
    (hs : (disableExpiredPendingUser now username).exec own db = .ok eff) :
    t.Permits eff.writes db := by
  apply lawful_updateUserRow _ hs
  intro o r _ hr
  by_cases hover : o.registrationOver now = true
  · rw [if_pos hover] at hr
    obtain rfl := Option.some.inj hr
    exact ⟨rfl, ht o _ rfl⟩
  · rw [if_neg hover] at hr
    cases hr

theorem routine_disableExpiredPendingUsers (ht : ∀ o r, r = o.disable → t.changes o r) :
    Routine t (disableExpiredPendingUsers now) := by
  refine .bind (.call fun _ _ _ => lawful_readOnly) fun usernames => ?_
  induction usernames with
  | nil => exact .pure 0
  | cons username usernames ih =>
    exact .bind (.call fun _ _ _ => lawful_disableExpiredPendingUser ht) fun _ =>
      .bind ih fun _ => .pure _

theorem setVerificationToken_allows {hash : Option Bytes} {expiresAt : Option Timestamp}
    {o r : EmailJob} (h : o.setVerificationToken hash expiresAt = .ok (some r)) :
    t.allows (.updateEmailJob o r) := by
  unfold EmailJob.setVerificationToken at h
  by_cases hp : o.payload = .verifyEmail
  · rw [if_pos hp] at h
    cases htok : EmailJob.tokenColumns hash expiresAt with
    | error e => simp [htok, Except.map] at h
    | ok token =>
      simp only [htok, Except.map, Except.ok.injEq, Option.some.injEq] at h
      subst h
      exact ⟨rfl, rfl, rfl⟩
  · rw [if_neg hp] at h
    cases h

theorem setDelivery_allows {providerMessageID : String} {status : EmailDeliveryStatus}
    {occurredAt : Timestamp} {o r : EmailJob}
    (h : o.setDelivery providerMessageID status occurredAt = .ok (some r)) :
    t.allows (.updateEmailJob o r) := by
  unfold EmailJob.setDelivery at h
  split at h
  · simp only [Except.ok.injEq, Option.some.injEq] at h
    subst h
    exact ⟨rfl, rfl, rfl⟩
  · cases h

theorem routine_findEmailJobForDeliveryEvent : Routine t (findEmailJobForDeliveryEvent arg) := by
  refine .bind (.call fun _ _ _ => lawful_selectForUpdate) fun job => ?_
  cases job with
  | some job => exact .pure _
  | none =>
    cases arg.jobID with
    | none => exact .pure _
    | some id =>
      refine .bind (.call fun _ _ _ => lawful_selectForUpdate) fun job => ?_
      cases job with
      | none => exact .pure _
      | some job => exact .ite (.pure _) (.pure _)

theorem routine_reportToUser {arg' : ProcessEmailDeliveryEventParams} {job : EmailJob}
    (ht : t = .processEmailDeliveryEvent env arg') : Routine t (reportToUser env arg job) := by
  unfold reportToUser
  cases userDeliverabilityForEvent arg with
  | none => exact .pure _
  | some status =>
    refine .bind (.call fun _ _ _ => ?_) fun _ => .pure _
    apply lawful_updateUserRow
    intro o r _ hr
    split at hr
    · obtain rfl := Option.some.inj hr
      exact ⟨rfl, by rw [ht]; exact ⟨_, rfl⟩⟩
    · cases hr

theorem routine_processEmailDeliveryEventTx (ht : t = .processEmailDeliveryEvent env arg) :
    Routine t (processEmailDeliveryEventTx env arg) := by
  refine .bind routine_findEmailJobForDeliveryEvent fun found => ?_
  obtain ⟨jobID, matched⟩ := found
  refine .bind (.call fun _ _ _ => lawful_createEmailDeliveryEvent) fun event => ?_
  cases event with
  | none => exact .pure _
  | some event =>
    cases matched with
    | none => exact .pure _
    | some job =>
      cases hstatus : arg.deliveryStatus with
      | none => exact .pure _
      | some status =>
        refine .ite (.bind (.call fun _ _ _ => ?_) fun updated => ?_) (.pure _)
        · exact lawful_updateEmailJobRow fun _ _ => setDelivery_allows
        · cases updated with
          | none => exact .pure _
          | some updated =>
            exact .bind (routine_reportToUser ht) fun _ =>
              .bind (.call fun _ _ _ => lawful_createAuditLog) fun _ => .pure _

theorem secured_updateUser {arg : UpdateUserTxParams} (ht : t = .updateUser env arg) :
    Secured (updateUserTx env arg) (Footing.start userCovenant) fun a f =>
      ∀ db, f.Admits db → t.post (.updated a) f.own f.held db := by
  apply Secured.bind
  apply secured_fetch (lawful_start t) (fun _ _ _ => lawful_readOnly)
  intro current f₁ hf₁ _
  apply Secured.bind
  apply Secured.fetch
  intro db₁ eff hadm hs
  obtain ⟨hlegit, hallow⟩ := lawful_updateUserRow (t := t) (by
    intro o r ho hr
    obtain rfl := Option.some.inj hr
    exact ⟨rfl, by rw [ht]; exact ⟨ho, rfl⟩⟩) hs
  refine ⟨hlegit, ?_⟩
  intro user huser
  have hf₂ := hf₁.next hallow
  -- the new version of the row has been written under the user's name
  obtain ⟨o, hname, hwrite, hrow⟩ : ∃ o : User, o.username = arg.username ∧
      .updateUser o (o.update env.now arg.toUpdateUserParams) ∈ (f₁.next eff).own ∧
      user = o.update env.now arg.toUpdateUserParams := by
    rcases updateUserRow_ok hs with ⟨rfl, _⟩ | ⟨o, r, hget, hr, _, _, rfl⟩
    · cases huser
    · obtain rfl := Option.some.inj hr
      obtain rfl := Option.some.inj huser
      exact ⟨o, User.username_of_get hget, by simp, rfl⟩
  have huname : user.username = arg.username := by rw [hrow]; exact hname
  have hlock : LockKey.user (.username user.username) ∈ (f₁.next eff).held := by
    apply hf₂.holds _ hwrite
    rw [hrow]
    exact List.mem_map.mpr ⟨.username o.username, List.mem_append_left _ (Keyed.pk_mem o), rfl⟩
  apply Secured.bind
  apply secured_requestVerificationIf hf₂
  intro job f₃ hf₃ hgrow₃
  by_cases hrevoke : arg.revokeSessions = true
  · simp only [if_pos hrevoke]
    apply Secured.bind
    apply secured_revokeAllUserSessions (L := True) hf₃ fun _ => hgrow₃.held _ hlock
    intro sessions f₄ hf₄ hgrow₄ hdone
    apply Secured.bind
    apply secured_auditRevokedSessions hf₄
    intro f₅ hf₅ hgrow₅ db hadm'
    refine ⟨hf₅.allows, ?_⟩
    rw [ht]
    refine ⟨⟨o, hgrow₅.own _ (hgrow₄.own _ (hgrow₃.own _ hwrite)), hname⟩, ?_⟩
    intro _ s hmem hact
    rcases hdone trivial db (hgrow₅.known db hadm'.known) s hmem (huname ▸ hact) with h | ⟨r, hr⟩
    · exact Or.inl h
    · exact Or.inr ⟨r, hgrow₅.own _ hr⟩
  · simp only [if_neg hrevoke]
    intro db _
    refine ⟨hf₃.allows, ?_⟩
    rw [ht]
    exact ⟨⟨o, hgrow₃.own _ hwrite, hname⟩, fun h => absurd h hrevoke⟩

theorem EmailJob.token_of_live {clock : Timestamp} {j : EmailJob} (h : j.tokenLive clock = true)
    {hash : Bytes} (hhash : constantTimeHashEqual j.tokenHash hash = true) :
    ∃ token, j.verificationToken = some token ∧ clock < token.expiresAt ∧ token.hash = hash := by
  unfold tokenLive at h
  have hhash' := constantTimeHashEqual_iff.mp hhash
  unfold tokenHash at hhash'
  cases htok : j.verificationToken with
  | none => simp [htok] at h
  | some token =>
    simp only [htok, Option.any_some, decide_eq_true_eq] at h
    simp only [htok, Option.map_some, Option.getD_some] at hhash'
    exact ⟨token, rfl, h, hhash'⟩

theorem secured_verifyUserEmail {arg : VerifyUserEmailTxParams}
    (ht : t = .verifyUserEmail env arg) :
    Secured (verifyUserEmailTx env arg) (Footing.start userCovenant) fun a f =>
      ∀ db, f.Admits db → t.post (.user a) f.own f.held db := by
  apply Secured.bind
  apply secured_lockEmailJob (lawful_start t) rfl
  intro job f₁ hf₁ hown hknown
  apply Secured.bind
  apply Secured.refuse
  intro hjob
  apply Secured.bind
  apply Secured.refuse
  intro hlive
  apply Secured.bind
  apply Secured.refuse
  intro hhash
  have hshown : ∀ f', f₁.Grows f' → ∀ db, f'.known db → arg.Shown env.clock db := by
    intro f' hgrow db hdb
    simp only [not_or, not_not] at hjob hlive hhash
    exact ⟨job, hknown db (hgrow.known db hdb), hjob.1, hjob.2,
      EmailJob.token_of_live hlive hhash⟩
  have hdone : ∀ (user : User) f', Lawful t f' → f₁.Grows f' →
      ∀ db, f'.Admits db → t.post (.user user) f'.own f'.held db := by
    intro user f' hf' hgrow db hadm
    refine ⟨hf'.allows, ?_⟩
    rw [ht]
    exact hshown f' hgrow db hadm.known
  apply Secured.bind
  apply secured_lockUser hf₁ hown
  intro user f₂ hf₂ hgrow₂ _ _
  apply Secured.bind
  apply Secured.refuse
  intro _
  apply Secured.bind
  apply Secured.refuse
  intro _
  apply Secured.bind
  apply Secured.refuse
  intro _
  by_cases hverified : user.accountStatus = .active ∧ user.emailVerifiedAt.isSome
  · rw [if_pos hverified]
    exact hdone user f₂ hf₂ hgrow₂
  · rw [if_neg hverified]
    refine Routine.continues hf₂ (fun result f₃ hf₃ hgrow₃ =>
      hdone result f₃ hf₃ (hgrow₂.trans hgrow₃)) ?_
    refine .bind (.fetch fun _ _ _ => ?_) fun _ =>
      .bind (.call fun _ _ _ => lawful_createAuditLog) fun _ => .pure _
    apply lawful_updateUserRow
    intro o r ho hr
    split at hr
    · rename_i hemail
      obtain rfl := Option.some.inj hr
      exact ⟨rfl, by rw [ht]; exact ⟨ho, hemail, rfl⟩⟩
    · cases hr

theorem secured_getEmailJobByVerificationTokenHash {hash : Bytes}
    (ht : t = .getEmailJobByVerificationTokenHash hash) :
    Secured (call (getEmailJobByVerificationTokenHash hash)) (Footing.start userCovenant) fun a f =>
      ∀ db, f.Admits db → t.post (.job a) f.own f.held db := by
  apply Secured.call_learn
  intro db eff _ hs
  have heff := readOnly_ok.mp hs
  refine ⟨by simp [heff, Covenant.LegitAll],
    fun db => ∀ j, eff.result = some j → j.StandsIn db, ?_, ?_, ?_⟩
  · intro db db' h hrely j hj
    exact hrely.jobs j (h j hj)
  · intro j hj
    rw [heff] at hj
    exact ⟨j, Table.get_pk (Table.mem_of_get hj), rfl, rfl⟩
  · intro db' hadm
    refine ⟨by simp [heff], ?_⟩
    rw [ht]
    intro j hj
    exact hadm.known.2 j (by simpa using hj)

theorem secured_body (t : UserTx) :
    Secured t.body (Footing.start userCovenant) fun a f =>
      ∀ db, f.Admits db → t.post a f.own f.held db := by
  cases t with
  | getUser username =>
    exact Routine.secured (.call fun _ _ _ => lawful_readOnly) fun _ _ _ _ => trivial
  | recordLoginFailure env username reason =>
    exact Routine.secured (.call fun _ _ _ => lawful_createAuditLog) fun _ _ _ _ => trivial
  | createExclusiveSession env arg checked =>
    exact .bind ((secured_createExclusiveSession rfl).mono fun _ _ h => h)
  | rotateRefreshToken env arg =>
    exact .bind ((secured_rotateRefreshToken rfl).mono fun _ _ h => h)
  | revokeSession env arg =>
    exact Routine.secured routine_revokeSessionTx fun _ _ _ _ => trivial
  | revokeAllUserSessions env username reason eventType =>
    exact Routine.secured routine_revokeAllUserSessionsTx fun _ _ _ _ => trivial
  | createUser env arg =>
    exact Routine.secured (routine_createUserTx rfl) fun _ _ _ _ => trivial
  | updateUser env arg => exact .bind ((secured_updateUser rfl).mono fun _ _ h => h)
  | requestEmailVerification env username =>
    exact Routine.secured (routine_requestEmailVerificationTx rfl) fun _ _ _ _ => trivial
  | setEmailJobVerificationToken arg =>
    exact Routine.secured (.call fun _ _ _ => lawful_updateEmailJobRow fun _ _ =>
      setVerificationToken_allows) fun _ _ _ _ => trivial
  | getEmailJobByVerificationTokenHash hash =>
    exact .bind (secured_getEmailJobByVerificationTokenHash rfl)
  | verifyUserEmail env arg =>
    exact .bind ((secured_verifyUserEmail rfl).mono fun _ _ h => h)
  | processEmailDeliveryEvent env arg =>
    exact Routine.secured (routine_processEmailDeliveryEventTx rfl) fun _ _ _ _ => trivial
  | disableExpiredPendingUser now username =>
    exact Routine.secured (t := .disableExpiredPendingUser now username)
      (.call fun _ _ _ => lawful_disableExpiredPendingUser fun _ _ h => h) fun _ _ _ _ => trivial
  | disableExpiredPendingUsers now =>
    exact Routine.secured (t := .disableExpiredPendingUsers now)
      (routine_disableExpiredPendingUsers fun _ _ h => h) fun _ _ _ _ => trivial

theorem UserTx.post.user_held {a : UserResponse} {ws : List Write} {held : List LockKey}
    (h : t.post a ws held db) (hr : .insertSession r ∈ ws) :
    LockKey.user (.username r.username) ∈ held := by
  obtain ⟨env, arg, checked, rfl, rfl⟩ := h.1 _ hr
  exact h.2.2.1

def userContract (check : String → String → Bool) : Contract (userSystem check) where
  toCovenant := userCovenant
  post := UserTx.post
  secured := secured_body
  guarantee {t a ws held db} hpost hlegit others hdis howns := by
    have hkeys : ∀ k ∈ others, ∀ w ∈ ws, k ∉ w.keys :=
      fun k hk w hw hmem => hdis k (howns w hw k hmem) hk
    refine ⟨fun k hk => (DB.entry_view_of_notMem (hkeys k hk) db).symm, ?_,
      fun j hj => hj.view hpost.1 hlegit⟩
    intro username hu s' hs' hact
    rcases active_of_view hpost.1 hlegit hs' hact with h | ⟨r, hr, _, hname⟩
    · exact h
    · exact absurd hu (hdis _ (hname ▸ hpost.user_held hr))

theorem userRun_kept (check : String → String → Bool) (db₀ : DB) (acts : List UserAction) :
    (userContract check).Kept (userRun check db₀ acts) :=
  (userContract check).kept_run db₀ acts

end Monierave
