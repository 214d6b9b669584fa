import Monierave.Banking.System
import Monierave.ReadCommitted.Alone
import Monierave.Users.Exclusivity
import Monierave.Users.Requests

/-! # Refresh tokens

Every rotation hands out a new token and takes the old one out of use.
-/

namespace Monierave

open Relational ReadCommitted Prog

structure RefreshToken where
  hash : Bytes
  id : UUID
  deriving DecidableEq

def Session.refreshToken (s : Session) : RefreshToken := ⟨s.refreshTokenHash, s.refreshTokenID⟩

namespace RotateRefreshTokenTxParams

variable {arg : RotateRefreshTokenTxParams} {o : Session}

def presented (arg : RotateRefreshTokenTxParams) : RefreshToken :=
  ⟨arg.presentedTokenHash, arg.presentedRefreshID⟩

def issued (arg : RotateRefreshTokenTxParams) : RefreshToken :=
  ⟨arg.newTokenHash, arg.newRefreshID⟩

theorem matches_iff : arg.matches o = true ↔ o.refreshToken = arg.presented := by
  simp [RotateRefreshTokenTxParams.matches, constantTimeHashEqual_iff, Session.refreshToken,
    presented]

/-- The call is by the session's user from the session's device, and the session
is active. -/
structure Entitled (arg : RotateRefreshTokenTxParams) (clock : Timestamp) (o : Session) : Prop where
  username : o.username = arg.username
  unrevoked : o.revoked = false
  unexpired : clock < o.expiresAt
  device : o.deviceTokenHash = arg.presentedDeviceHash

end RotateRefreshTokenTxParams

def acceptedBy (id : UUID) : UserTx × UserResponse → Option RefreshToken
  | (.rotateRefreshToken _ arg, .rotation (.rotated _)) =>
    if arg.sessionID = id then some arg.presented else none
  | _ => none

def accepted (id : UUID) (log : UserLog) : List RefreshToken := log.filterMap (acceptedBy id)

variable {id : UUID} {o o' : Session} {act : UserAction} {env : Env}
    {arg : RotateRefreshTokenTxParams} {w : Nat}

theorem accepted_snoc {log : UserLog} {x : UserTx × UserResponse} :
    accepted id (log ++ [x]) = accepted id log ++ (acceptedBy id x).toList := by
  cases h : acceptedBy id x with
  | none => simp [accepted, h]
  | some token => simp [accepted, h]

theorem acceptedBy_eq_none {t : UserTx} {a : UserResponse}
    (h : ∀ env arg, t = .rotateRefreshToken env arg → arg.sessionID ≠ id) :
    acceptedBy id (t, a) = none := by
  unfold acceptedBy
  split
  · rename_i heq
    cases heq
    rw [if_neg (h _ _ rfl)]
  · rfl

variable {t : UserTx} {a : UserResponse} {ws : List Write} {held : List LockKey} {db : DB}

theorem refreshToken_view (hlegit : userCovenant.LegitAll ws db)
    (ho : db.sessions.get (.id id) = some o)
    (hkeep : ∀ o r, .updateSession o r ∈ ws → r.id = id → r.refreshToken = o.refreshToken) :
    ∃ o', (view ws db).sessions.get (.id id) = some o' ∧ o'.refreshToken = o.refreshToken := by
  obtain rfl := Session.id_of_get ho
  rw [sessions_view]
  refine Table.get_edit_of_get (Q := fun o r : Session => r.refreshToken = o.refreshToken)
    (fun _ => rfl) (fun hab hbc => hbc.trans hab) (sessions_legits hlegit) (Table.mem_of_get ho) ?_
  intro o₁ r hmem hpk
  exact hkeep o₁ r (by simpa using hmem) (SessionKey.id.inj hpk)

theorem UserTx.post.refreshToken (hpost : t.post a ws held db)
    (hlegit : userCovenant.LegitAll ws db) (ho : db.sessions.get (.id id) = some o)
    (hother : ∀ env arg, t = .rotateRefreshToken env arg → arg.sessionID ≠ id) :
    ∃ o', (view ws db).sessions.get (.id id) = some o' ∧ o'.refreshToken = o.refreshToken := by
  apply refreshToken_view hlegit ho
  intro o₁ r hmem hid
  obtain ⟨_, ⟨now, reason, rfl⟩ | ⟨env, arg, rfl, rfl⟩⟩ := hpost.1 _ hmem
  · rfl
  · -- the only row a rotation replaces is the one it was called for
    obtain ⟨o₂, ho₂, _, _, _, _, ⟨_, _, x, hws⟩ | ⟨_, _, reason, x, hws⟩⟩ := hpost.2
    · rw [hws] at hmem
      simp only [List.mem_cons, Write.updateSession.injEq, reduceCtorEq, List.not_mem_nil,
        or_self, or_false] at hmem
      rw [hmem.2] at hid
      exact absurd ((Session.id_of_get ho₂).symm.trans hid) (hother env arg rfl)
    · rw [hws] at hmem
      simp only [List.mem_cons, Write.updateSession.injEq, reduceCtorEq, List.not_mem_nil,
        or_self, or_false] at hmem
      rw [hmem.2] at hid
      exact absurd ((Session.id_of_get ho₂).symm.trans hid) (hother env arg rfl)

/-- No two calls on the session issue the same token, and none issues the one the
session has. -/
structure FreshTokens (x : Session) (acts : List UserAction) : Prop where
  initial : ∀ {w arg env}, .start w (.rotateRefreshTokenTx arg env) ∈ acts →
    arg.sessionID = x.id → arg.issued ≠ x.refreshToken
  distinct : ∀ {w w' arg arg' env env'}, .start w (.rotateRefreshTokenTx arg env) ∈ acts →
    .start w' (.rotateRefreshTokenTx arg' env') ∈ acts → arg.sessionID = x.id →
    arg'.sessionID = x.id → w ≠ w' → arg.issued ≠ arg'.issued

/-- Since the log was `log₀` and the session was `x`, the rotations of the session
were the calls `chain`, each by a worker of its own: each had accepted the token
that was issued by the one before it. -/
structure TokenChain (x : Session) (log₀ : UserLog) (s : UserState) (log : UserLog)
    (chain : List (Nat × RotateRefreshTokenTxParams)) (o : Session) : Prop where
  since : s.log = log₀ ++ log
  row : s.db.sessions.get (.id x.id) = some o
  tokens : accepted x.id log ++ [o.refreshToken] = x.refreshToken :: chain.map (·.2.issued)
  calls : ∀ c ∈ chain, c.2.sessionID = x.id ∧
    ∃ env res, s.workers c.1 = .finished (.rotateRefreshTokenTx c.2 env) res
  workers : (chain.map Prod.fst).Nodup

def Chained (x : Session) (log₀ : UserLog) (s : UserState) : Prop :=
  ∃ log chain o, TokenChain x log₀ s log chain o

variable {check : String → String → Bool} {x o : Session} {log₀ log : UserLog} {s s' : UserState}
  {chain : List (Nat × RotateRefreshTokenTxParams)}

theorem TokenChain.keep (h : TokenChain x log₀ s log chain o)
    (hm : (userSystem check).Moves s act s') {log' : UserLog} (hlog : s'.log = log₀ ++ log')
    (hacc : accepted x.id log' = accepted x.id log)
    (ho' : s'.db.sessions.get (.id x.id) = some o') (htok : o'.refreshToken = o.refreshToken) :
    TokenChain x log₀ s' log' chain o' where
  since := hlog
  row := ho'
  tokens := by
    rw [hacc, htok]
    exact h.tokens
  calls c hc := by
    obtain ⟨hid, env, res, hw⟩ := h.calls c hc
    exact ⟨hid, env, res, (userSystem check).finished_moves hm hw⟩
  workers := h.workers

theorem acceptedBy_rotated {r : Session} (hid : arg.sessionID = id) :
    acceptedBy id (.rotateRefreshToken env arg, .rotation (.rotated r)) = some arg.presented :=
  if_pos hid

theorem TokenChain.rotate (h : TokenChain x log₀ s log chain o)
    {r : Running Write DB LockKey Err UserTx UserResponse}
    (hm : (userSystem check).Moves s act s') (hid : arg.sessionID = x.id)
    (hw : s.workers w = .running (.rotateRefreshTokenTx arg env) r)
    (hw' : ∃ res, s'.workers w = .finished (.rotateRefreshTokenTx arg env) res)
    (hmatch : arg.matches o = true)
    (hlog : s'.log = s.log ++ [(.rotateRefreshToken env arg, .rotation (.rotated o'))])
    (ho' : s'.db.sessions.get (.id x.id) = some o') (htok : o'.refreshToken = arg.issued) :
    TokenChain x log₀ s' (log ++ [(.rotateRefreshToken env arg, .rotation (.rotated o'))])
      (chain ++ [(w, arg)]) o' where
  since := by rw [hlog, h.since, List.append_assoc]
  row := ho'
  tokens := by
    have htokens := h.tokens
    rw [RotateRefreshTokenTxParams.matches_iff.mp hmatch] at htokens
    rw [accepted_snoc, acceptedBy_rotated hid, htok, Option.toList_some, htokens, List.map_append]
    rfl
  calls c hc := by
    rcases List.mem_append.mp hc with hc | hc
    · obtain ⟨hid, env, res, hw⟩ := h.calls c hc
      exact ⟨hid, env, res, (userSystem check).finished_moves hm hw⟩
    · obtain rfl := List.mem_singleton.mp hc
      exact ⟨hid, env, hw'⟩
  workers := by
    rw [List.map_append]
    refine List.nodup_append.mpr ⟨h.workers, List.pairwise_singleton _ w, ?_⟩
    intro v hv w' hw' hvw
    obtain ⟨c, hc, rfl⟩ := List.mem_map.mp hv
    obtain ⟨_, env', res, hfin⟩ := h.calls c hc
    rw [hvw, List.mem_singleton.mp hw', hw] at hfin
    cases hfin

theorem view_updateSession {r : Session} {x : AuditLog} (hid : r.id = o.id)
    (hlegit : userCovenant.LegitAll [.updateSession o r, .insertAuditLog x] db) :
    (view [Write.updateSession o r, .insertAuditLog x] db).sessions.get (.id o.id) = some r := by
  show (db.sessions.amend o r).get (.id o.id) = some r
  rw [← hid]
  exact (Table.get_pk_amend hlegit.1).trans (if_pos rfl)

theorem chained_moves (h : Chained x log₀ s) (hkept : (userContract check).Kept s)
    (hled : (userSystem check).Led s) (hm : (userSystem check).Moves s act s') :
    Chained x log₀ s' := by
  obtain ⟨log, chain, o, h⟩ := h
  cases hkept.progress _ hm with
  | quiet hdb hlog =>
    exact ⟨log, chain, o, h.keep hm (hlog.trans h.since) rfl (hdb ▸ h.row) rfl⟩
  | commit hw hpost hlegit hs' hlog hr hact =>
    rename_i w op r a
    have hdb : s'.db = view r.own s.db := by rw [hs']; rfl
    by_cases hrot : ∃ env arg, r.tx = .rotateRefreshToken env arg ∧ arg.sessionID = x.id
    · obtain ⟨env, arg, htx, hid⟩ := hrot
      have hleads := hled w op r hw
      rw [htx] at hleads
      obtain ⟨rfl, hnext⟩ := leads_rotateRefreshToken hleads
      have hpost' : arg.Committed env a r.own s.db := by
        have := hpost.2
        rw [htx] at this
        exact this
      obtain ⟨o', ho', _, _, _, _, hend⟩ := hpost'
      rw [hid, h.row] at ho'
      obtain rfl := Option.some.inj ho'
      have hoid := Session.id_of_get h.row
      rw [htx] at hlog
      rcases hend with ⟨hmatch, rfl, y, hws⟩ | ⟨_, rfl, reason, y, hws⟩
      · refine ⟨_, _, _, h.rotate hm hid hw ?_ hmatch hlog ?_ rfl⟩
        · obtain ⟨res, hres⟩ := hnext (.ok (.rotation (.rotated
            (o.rotate env.now arg.newTokenHash arg.newRefreshID))))
          exact ⟨res, by simp [hs', System.publish, State.setWorker, hres, System.enter]⟩
        · rw [hdb, hws, ← hoid]
          exact view_updateSession rfl (hws ▸ hlegit)
      · refine ⟨_, chain, o.revoke env.now reason, h.keep hm (hlog.trans (by rw [h.since, List.append_assoc])) ?_ ?_ ?_⟩
        · rw [accepted_snoc]
          exact List.append_nil _
        · rw [hdb, hws, ← hoid]
          exact view_updateSession rfl (hws ▸ hlegit)
        · rfl
    · have hother : ∀ env arg, r.tx = .rotateRefreshToken env arg → arg.sessionID ≠ x.id :=
        fun env arg htx hid => hrot ⟨env, arg, htx, hid⟩
      obtain ⟨o', ho', htok⟩ := hpost.refreshToken hlegit h.row hother
      refine ⟨_, chain, o', h.keep hm (hlog.trans (by rw [h.since, List.append_assoc])) ?_
        (hdb ▸ ho') htok⟩
      rw [accepted_snoc, acceptedBy_eq_none hother]
      exact List.append_nil _

variable {db₀ : DB} {acts₀ acts : List UserAction}

theorem chained_run (hx : x ∈ (userRun check db₀ acts₀).db.sessions.rows) (acts : List UserAction) :
    Chained x (userRun check db₀ acts₀).log (userRun check db₀ (acts₀ ++ acts)) := by
  have hstart : Chained x (userRun check db₀ acts₀).log (userRun check db₀ acts₀) :=
    ⟨[], [], x, by simp, Table.get_pk hx, rfl, by simp, List.nodup_nil⟩
  rw [userRun_append]
  exact (userRun_kept check db₀ acts₀).run_induction _ ((userSystem check).led_run db₀ acts₀) hstart
    (fun hkept hled h hm => chained_moves h hkept hled hm) acts

theorem TokenChain.nodup (h : TokenChain x log₀ (userRun check db₀ acts) log chain o)
    (hfresh : FreshTokens x acts) : (accepted x.id log ++ [o.refreshToken]).Nodup := by
  have hstarted : ∀ c ∈ chain, c.2.sessionID = x.id ∧
      ∃ env, .start c.1 (.rotateRefreshTokenTx c.2 env) ∈ acts := by
    intro c hc
    obtain ⟨hid, env, res, hw⟩ := h.calls c hc
    have hop : ((userRun check db₀ acts).workers c.1).op? =
        some (.rotateRefreshTokenTx c.2 env) := by
      rw [hw]
      rfl
    exact ⟨hid, env, (userSystem check).op_run hop⟩
  rw [h.tokens, List.nodup_cons, List.mem_map]
  constructor
  · rintro ⟨c, hc, heq⟩
    obtain ⟨hid, env, hstart⟩ := hstarted c hc
    exact hfresh.initial hstart hid heq
  · have hne : chain.Pairwise fun c c' => c.1 ≠ c'.1 := List.pairwise_map.mp h.workers
    refine List.pairwise_map.mpr (hne.imp_of_mem ?_)
    intro c c' hc hc' hww
    obtain ⟨hid, env, hstart⟩ := hstarted c hc
    obtain ⟨hid', env', hstart'⟩ := hstarted c' hc'
    exact hfresh.distinct hstart hstart' hid hid' hww

theorem RotateRefreshTokenTxParams.Committed.entitled (h : arg.Committed env a ws db)
    (ho : db.sessions.get (.id arg.sessionID) = some o) : arg.Entitled env.clock o := by
  obtain ⟨o', ho', husername, hrev, hexp, hdev, _⟩ := h
  rw [ho] at ho'
  obtain rfl := Option.some.inj ho'
  exact ⟨husername, hrev, hexp, hdev⟩

theorem rotateRefreshTokenTx_reused (ho : db.sessions.get (.id arg.sessionID) = some o)
    (hent : arg.Entitled env.clock o) (hne : arg.presented ≠ o.refreshToken) :
    ∃ d, (rotateRefreshTokenTx env arg).run [] db = .ok d ∧ d.result = .reused ∧
      ∃ y, d.writes = [.updateSession o (o.revoke env.now (textValue "refresh_token_reuse")),
        .insertAuditLog y] := by
  have hmatch : arg.matches o = false := by
    rw [← Bool.not_eq_true, RotateRefreshTokenTxParams.matches_iff]
    exact Ne.symm hne
  have hexp : ¬ o.expiresAt ≤ env.clock := not_le.mpr hent.unexpired
  have hdev := constantTimeHashEqual_iff.mpr hent.device
  have hpk : db.sessions.get (pk (o.revoke env.now (textValue "refresh_token_reuse"))) = some o :=
    Table.get_eq_of_key ho (Keyed.pk_mem o)
  have hclash := Table.clash_of_keys_subset hpk Session.keys_revoke
  have hupdate : (revokeSession env.now arg.sessionID (textValue "refresh_token_reuse")).exec [] db =
      .ok ⟨some (o.revoke env.now (textValue "refresh_token_reuse")),
        [.updateSession o (o.revoke env.now (textValue "refresh_token_reuse"))], []⟩ :=
    updateRow_ok.mpr (Or.inr ⟨o, _, ⟨ho, by simp [hent.unrevoked], rfl, hclash⟩, rfl⟩)
  simp [rotateRefreshTokenTx, fetch, Prog.found, Prog.refuse, Prog.run, call, getSessionForUpdate,
    selectForUpdate, ho, hent.username, hent.unrevoked, hexp, hdev, hmatch, hupdate,
    createSessionAudit, createAuditLog]

theorem call_reused (hw : s.workers w = .idle) (hfree : ∀ k, s.locks k = none)
    (ho : s.db.sessions.get (.id arg.sessionID) = some o) (hent : arg.Entitled env.clock o)
    (hne : arg.presented ≠ o.refreshToken) :
    ∃ n, let s' := (userSystem check).run s (.start w (.rotateRefreshTokenTx arg env) ::
        (List.replicate n (.exec w) ++ [.commit w]))
      s'.workers w = .finished (.rotateRefreshTokenTx arg env) (.error .refreshTokenReuse) ∧
        ∃ o', s'.db.sessions.get (.id arg.sessionID) = some o' ∧ o'.revoked = true := by
  obtain ⟨d, hrun, hres, y, hwrites⟩ := rotateRefreshTokenTx_reused ho hent hne
  have hbody : (UserTx.rotateRefreshToken env arg).body.run [] s.db =
      .ok ⟨.rotation d.result, d.writes ++ [], d.locks ++ []⟩ :=
    run_bind_ok.mpr ⟨d, _, hrun, rfl, rfl⟩
  have hjob : (userSystem check).job (.rotateRefreshTokenTx arg env) =
      .tx (.rotateRefreshToken env arg) _ := rfl
  obtain ⟨n, hdb, hworker⟩ := (userSystem check).run_start_alone hjob hw hfree hbody
  refine ⟨n, ?_⟩
  refine ⟨?_, o.revoke env.now (textValue "refresh_token_reuse"), ?_, rfl⟩
  · rw [hworker, hres]
    rfl
  · have hpk : s.db.sessions.get (pk (o.revoke env.now (textValue "refresh_token_reuse"))) =
        some o := Table.get_eq_of_key ho (Keyed.pk_mem o)
    have hlegit : userCovenant.LegitAll
        [.updateSession o (o.revoke env.now (textValue "refresh_token_reuse")), .insertAuditLog y]
        s.db :=
      ⟨⟨hpk, Table.clash_of_keys_subset hpk Session.keys_revoke⟩, trivial, trivial⟩
    rw [hdb, List.append_nil, hwrites, ← Session.id_of_get ho]
    exact view_updateSession rfl hlegit

/-- What holds of a session that was `x` after the actions `acts₀`, when the actions
`acts` have followed. -/
structure RotationsSafe (check : String → String → Bool) (db₀ : DB) (acts₀ acts : List UserAction)
    (x : Session) (s : UserState) (log : UserLog) : Prop where
  since : s.log = (userRun check db₀ acts₀).log ++ log
  /-- No token is accepted twice. -/
  once : (accepted x.id log).Nodup
  /-- Who commits with a token that has been accepted before has revoked the session, -/
  reused : ∀ {w op r a env arg}, s.workers w = .running op r → r.rest = .ret a →
    r.tx = .rotateRefreshToken env arg → arg.sessionID = x.id →
    arg.presented ∈ accepted x.id log → a = .rotation .reused ∧
      ∃ o, ((userSystem check).step s (.commit w)).db.sessions.get (.id x.id) = some o ∧
        o.revoked = true
  /-- and a call that is entitled to the session does commit if it is not blocked. -/
  caught : ∀ {w env arg o}, s.workers w = .idle → (∀ k, s.locks k = none) →
    arg.sessionID = x.id → s.db.sessions.get (.id x.id) = some o → arg.Entitled env.clock o →
    arg.presented ∈ accepted x.id log →
    ∃ n, let s' := userRun check db₀ (acts₀ ++ acts ++ .start w (.rotateRefreshTokenTx arg env) ::
        (List.replicate n (.exec w) ++ [.commit w]))
      s'.workers w = .finished (.rotateRefreshTokenTx arg env) (.error .refreshTokenReuse) ∧
        ∃ o', s'.db.sessions.get (.id x.id) = some o' ∧ o'.revoked = true
  /-- Once the session is revoked no call on it commits any more. -/
  ended : ∀ {o}, s.db.sessions.get (.id x.id) = some o → o.revoked = true → ∀ later,
    o.Rests s.log (userRun check db₀ (acts₀ ++ acts ++ later)).db
      (userRun check db₀ (acts₀ ++ acts ++ later)).log
  /-- A call that is not entitled to the session changes nothing. -/
  untouched : ∀ {w op r env arg o}, s.workers w = .running op r →
    r.tx = .rotateRefreshToken env arg → s.db.sessions.get (.id arg.sessionID) = some o →
    ¬ arg.Entitled env.clock o → ((userSystem check).step s (.commit w)).db = s.db

theorem committed_of_running (hkept : (userContract check).Kept s) {op : UserOp}
    {r : Running Write DB LockKey Err UserTx UserResponse} (hw : s.workers w = .running op r)
    (hr : r.rest = .ret a) (htx : r.tx = .rotateRefreshToken env arg) :
    arg.Committed env a r.own s.db ∧ userCovenant.LegitAll r.own s.db ∧
      ((userSystem check).step s (.commit w)).db = view r.own s.db := by
  obtain ⟨hpost, hlegit⟩ := (hkept.inForce w op r hw).post _ hr
  rw [htx] at hpost
  refine ⟨hpost.2, hlegit, ?_⟩
  simp only [System.step, hw, System.commitAt, hr]
  rfl

/-- Every token is accepted at most once, a token that is presented again costs the
session, and calls without a right to the session do nothing to it. -/
theorem userRun_rotationsSafe (check : String → String → Bool) (db₀ : DB)
    (acts₀ acts : List UserAction) (x : Session)
    (hx : x ∈ (userRun check db₀ acts₀).db.sessions.rows)
    (hfresh : FreshTokens x (acts₀ ++ acts)) :
    ∃ log, RotationsSafe check db₀ acts₀ acts x (userRun check db₀ (acts₀ ++ acts)) log := by
  obtain ⟨log, chain, o, h⟩ := chained_run hx acts
  have hkept := userRun_kept check db₀ (acts₀ ++ acts)
  have hnodup := h.nodup hfresh
  -- a token that has been accepted is not the one in the row
  have hold : ∀ {arg : RotateRefreshTokenTxParams}, arg.presented ∈ accepted x.id log →
      arg.presented ≠ o.refreshToken := by
    intro arg hmem heq
    exact (List.nodup_append.mp hnodup).2.2 _ hmem _ (List.mem_singleton_self _) heq
  refine ⟨log, h.since, (List.nodup_append.mp hnodup).1, ?_, ?_, ?_, ?_⟩
  · intro w op r a env arg hw hr htx hid hmem
    obtain ⟨⟨o', ho', _, _, _, _, hend⟩, hlegit, hdb⟩ := committed_of_running hkept hw hr htx
    rw [hid, h.row] at ho'
    obtain rfl := Option.some.inj ho'
    rcases hend with ⟨hmatch, _⟩ | ⟨_, ha, reason, y, hws⟩
    · exact absurd (RotateRefreshTokenTxParams.matches_iff.mp hmatch).symm (hold hmem)
    · refine ⟨ha, o.revoke env.now reason, ?_, rfl⟩
      rw [hdb, hws, ← Session.id_of_get h.row]
      exact view_updateSession rfl (hws ▸ hlegit)
  · intro w env arg o' hw hfree hid ho' hent hmem
    rw [h.row] at ho'
    obtain rfl := Option.some.inj ho'
    simp only [userRun_append check db₀ (acts₀ ++ acts)]
    rw [← hid]
    exact call_reused hw hfree (hid ▸ h.row) hent (hold hmem)
  · intro o' ho' hrev later
    rw [userRun_append check db₀ (acts₀ ++ acts)]
    exact Session.rests_run hkept (Table.mem_of_get ho') hrev later
  · intro w op r env arg o' hw htx ho' hnot
    cases hr : r.rest with
    | ret a =>
        obtain ⟨hcom, _⟩ := committed_of_running hkept hw hr htx
        exact absurd (hcom.entitled ho') hnot
    | fail e => simp [System.step, hw, System.commitAt, hr]
    | stmt q k => simp [System.step, hw, System.commitAt, hr]

/-! Alice logs in and rotates her token, and then somebody presents the old one. -/

def aliceSession : CreateSessionParams := ⟨1, "alice", [1], 11, [9], "", "", 100⟩

def aliceLogsIn : List UserAction :=
  uninterrupted 0 (.createExclusiveSessionTx aliceSession (.drawing 1 1))

def firstTokenRotation (hash : UInt8) (id : UUID) : RotateRefreshTokenTxParams :=
  ⟨1, "alice", [1], 11, [9], [hash], id⟩

def firstTokenTwice : List UserAction :=
  uninterrupted 1 (.rotateRefreshTokenTx (firstTokenRotation 2 12) (.drawing 2 2)) ++
    uninterrupted 2 (.rotateRefreshTokenTx (firstTokenRotation 3 13) (.drawing 3 3))

theorem freshTokens_firstTokenTwice :
    FreshTokens (newSession 1 aliceSession) (aliceLogsIn ++ firstTokenTwice) := by
  have hstarts : ∀ {w arg env}, .start w (.rotateRefreshTokenTx arg env) ∈
      aliceLogsIn ++ firstTokenTwice → (w = 1 ∧ arg = firstTokenRotation 2 12) ∨
        (w = 2 ∧ arg = firstTokenRotation 3 13) := by
    intro w arg env h
    simp only [aliceLogsIn, firstTokenTwice, uninterrupted, List.mem_append, List.mem_cons,
      List.mem_replicate, List.not_mem_nil, Action.start.injEq, UserOp.rotateRefreshTokenTx.injEq,
      reduceCtorEq, and_false, false_or, or_false] at h
    rcases h with ⟨hw, harg, _⟩ | ⟨hw, harg, _⟩
    · exact Or.inl ⟨hw, harg⟩
    · exact Or.inr ⟨hw, harg⟩
  constructor
  · intro w arg env h _
    rcases hstarts h with ⟨_, rfl⟩ | ⟨_, rfl⟩
    · decide
    · decide
  · intro w w' arg arg' env env' h h' _ _ hne
    rcases hstarts h with ⟨rfl, rfl⟩ | ⟨rfl, rfl⟩ <;> rcases hstarts h' with ⟨rfl, rfl⟩ | ⟨rfl, rfl⟩
    · exact absurd rfl hne
    · decide
    · decide
    · exact absurd rfl hne

theorem userRun_rotationsSafe_firstTokenTwice :
    ∃ log, RotationsSafe (· == ·) (DB.initial twoCustomers) aliceLogsIn firstTokenTwice
      (newSession 1 aliceSession)
      (userRun (· == ·) (DB.initial twoCustomers) (aliceLogsIn ++ firstTokenTwice)) log :=
  userRun_rotationsSafe _ _ _ _ _ (by decide +kernel) freshTokens_firstTokenTwice

end Monierave
