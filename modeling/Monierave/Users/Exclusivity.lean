import Monierave.Users.Contracts

/-! # One session for each user

A user has at most one active session, the one its last login has begun.
-/

namespace Monierave

open Relational ReadCommitted Prog

abbrev UserLog := List (UserTx × UserResponse)

def loginOf (username : String) : UserTx × UserResponse → Option UUID
  | (.createExclusiveSession _ arg _, .session s) =>
    if arg.username = username then some s.id else none
  | _ => none

def lastLogin (username : String) (log : UserLog) : Option UUID :=
  (log.filterMap (loginOf username)).getLast?

variable {username : String} {log : UserLog} {x : Session}

theorem lastLogin_snoc {x : UserTx × UserResponse} :
    lastLogin username (log ++ [x]) = (loginOf username x).or (lastLogin username log) := by
  unfold lastLogin
  cases h : loginOf username x with
  | none => simp [h]
  | some id => simp [h]

variable {t : UserTx} {a : UserResponse} {ws : List Write} {held : List LockKey} {db : DB}

theorem Session.eq_of_activeFor {y : Session} (hx : x ∈ db.sessions.rows)
    (hy : y ∈ db.sessions.rows) (hxact : x.activeFor username = true)
    (hyact : y.activeFor username = true) : x = y :=
  Table.eq_of_shared hx hy (mem_keys_of_activeFor hxact) (mem_keys_of_activeFor hyact)

theorem not_activeFor_of_conflict {r : Session} (hr : r.revoked = false)
    (h : db.sessions.conflict r = none) (hx : x ∈ db.sessions.rows) :
    x.activeFor r.username = false := by
  by_contra hact
  rw [Bool.not_eq_false] at hact
  have hkey := Session.mem_keys_of_activeFor (Session.activeFor_iff.mpr ⟨rfl, hr⟩)
  have hnone := Table.conflict_eq_none.mp h _ hkey
  exact Table.get_eq_none.mp hnone x hx (Session.mem_keys_of_activeFor hact)

variable {env : Env} {arg : CreateSessionParams} {checked : Option User}

theorem sessions_of_login
    (hpost : (UserTx.createExclusiveSession env arg checked).post a ws held db)
    (hlegit : userCovenant.LegitAll ws db) :
    ∃ ws₁, (∀ w ∈ ws₁, w ∈ ws) ∧ userCovenant.LegitAll ws₁ db ∧
      (view ws₁ db).sessions.conflict (newSession env.now arg) = none ∧
      (view ws db).sessions.rows = (view ws₁ db).sessions.rows ++ [newSession env.now arg] := by
  obtain ⟨_, _, _, ws₁, x, y, rfl⟩ := hpost
  obtain ⟨hlegit₁, hconf, _⟩ := Covenant.legitAll_append.mp hlegit
  refine ⟨ws₁, fun w hw => List.mem_append_left _ hw, hlegit₁, hconf, ?_⟩
  rw [view_append]
  exact Table.insert_rows hconf

theorem active_of_login
    (hpost : (UserTx.createExclusiveSession env arg checked).post a ws held db)
    (hlegit : userCovenant.LegitAll ws db) (hx : x ∈ (view ws db).sessions.rows)
    (hact : x.activeFor arg.username = true) : x = newSession env.now arg := by
  obtain ⟨ws₁, _, _, hconf, hrows⟩ := sessions_of_login hpost hlegit
  rw [hrows, List.mem_append, List.mem_singleton] at hx
  rcases hx with hx | hx
  · -- before the insertion the user had no active session
    have hnot : x.activeFor arg.username = false := not_activeFor_of_conflict rfl hconf hx
    rw [hact] at hnot
    cases hnot
  · exact hx

/-- The active session of the user is the one of its last login, or there has been
no login and it was active from the start. -/
def FromLastLogin (db₀ db : DB) (log : UserLog) : Prop :=
  ∀ username, ∀ x ∈ db.sessions.rows, x.activeFor username = true →
    lastLogin username log = some x.id ∨
      (lastLogin username log = none ∧
        ∃ y ∈ db₀.sessions.rows, y.id = x.id ∧ y.activeFor username = true)

theorem loginOf_eq_none
    (h : ∀ env arg checked, t = .createExclusiveSession env arg checked → arg.username ≠ username) :
    loginOf username (t, a) = none := by
  unfold loginOf
  split
  · rename_i heq
    cases heq
    rw [if_neg (h _ _ _ rfl)]
  · rfl

theorem FromLastLogin.commit {db₀ : DB} (h : FromLastLogin db₀ db log)
    (hpost : t.post a ws held db) (hlegit : userCovenant.LegitAll ws db) :
    FromLastLogin db₀ (view ws db) (log ++ [(t, a)]) := by
  intro username x hx hact
  rw [lastLogin_snoc]
  by_cases hlogin : ∃ env arg checked, t = .createExclusiveSession env arg checked ∧
      arg.username = username
  · obtain ⟨env, arg, checked, rfl, rfl⟩ := hlogin
    have hid := active_of_login hpost hlegit hx hact
    have ha : a = .session (newSession env.now arg) := hpost.2.1
    left
    simp [ha, loginOf, hid]
  · have hother : ∀ env arg checked, t = .createExclusiveSession env arg checked →
        arg.username ≠ username :=
      fun env arg checked ht hu => hlogin ⟨env, arg, checked, ht, hu⟩
    rw [loginOf_eq_none hother, Option.none_or]
    rcases active_of_view hpost.1 hlegit hx hact with ⟨s, hs, hid, hsact⟩ | ⟨r, hr, _, hname⟩
    · rw [← hid]
      exact h username s hs hsact
    · obtain ⟨env, arg, checked, ht, rfl⟩ := hpost.1 _ hr
      exact absurd hname (hother env arg checked ht)

theorem validateSession_revoked (hx : x ∈ db.sessions.rows) (hrev : x.revoked = true)
    (clock : Timestamp) (username : String) (hash : Bytes) {d : Answer Unit} :
    (validateSession clock x.id username hash).run [] db ≠ .ok d := by
  intro h
  obtain ⟨d₁, d₂, hget, hrest, _⟩ := run_bind_ok.mp h
  obtain ⟨eff, s, hs, hres, rfl⟩ := run_fetch_ok.mp hget
  rw [readOnly_ok.mp hs] at hres
  have hsx : some x = some s := (Table.get_pk hx).symm.trans hres
  obtain rfl := Option.some.inj hsx
  obtain ⟨_, hrest⟩ := run_refuse_bind_ok.mp hrest
  exact (run_refuse_bind_ok.mp hrest).1 hrev

theorem rotate_ne_of_revoked {env : Env} {arg : RotateRefreshTokenTxParams}
    (hpost : (UserTx.rotateRefreshToken env arg).post a ws held db) (hx : x ∈ db.sessions.rows)
    (hrev : x.revoked = true) : arg.sessionID ≠ x.id := by
  intro hid
  obtain ⟨o, ho, _, hact, _⟩ := hpost.2
  have hxo : some x = some o := by
    rw [← ho, hid]
    exact (Table.get_pk hx).symm
  obtain rfl := Option.some.inj hxo
  rw [hrev] at hact
  cases hact

/-- Since the log was `log₀` the session's row has not changed, and no rotation of
the session has been committed. -/
def Session.Rests (x : Session) (log₀ : UserLog) (db : DB) (log : UserLog) : Prop :=
  x ∈ db.sessions.rows ∧ ∃ log', log = log₀ ++ log' ∧
    ∀ env arg a, (.rotateRefreshToken env arg, a) ∈ log' → arg.sessionID ≠ x.id

theorem Session.Rests.commit {log₀ : UserLog} (h : x.Rests log₀ db log) (hrev : x.revoked = true)
    (hpost : t.post a ws held db) (hlegit : userCovenant.LegitAll ws db) :
    x.Rests log₀ (view ws db) (log ++ [(t, a)]) := by
  obtain ⟨hmem, log', rfl, hrot⟩ := h
  refine ⟨revoked_view hpost.1 hlegit hmem hrev, log' ++ [(t, a)], by simp, ?_⟩
  intro env arg a' hin
  rcases List.mem_append.mp hin with hin | hin
  · exact hrot env arg a' hin
  · cases List.mem_singleton.mp hin
    exact rotate_ne_of_revoked hpost hmem hrev

theorem Session.rests_run {check : String → String → Bool} {s : UserState}
    (hs : (userContract check).Kept s) (hx : x ∈ s.db.sessions.rows) (hrev : x.revoked = true)
    (acts : List UserAction) :
    x.Rests s.log ((userSystem check).run s acts).db ((userSystem check).run s acts).log := by
  have hstart : x.Rests s.log s.db s.log := ⟨hx, [], by simp, by simp⟩
  exact hs.log_induction _ hstart (fun h hpost hlegit => h.commit hrev hpost hlegit) acts

/-- The session is over: from the state `s` to `s'` nothing has happened to it, and
it is not accepted. -/
structure Session.Ended (x : Session) (s s' : UserState) : Prop where
  rests : x.Rests s.log s'.db s'.log
  refused : ∀ clock username hash d,
    (validateSession clock x.id username hash).run [] s'.db ≠ .ok d

structure SessionsExclusive (check : String → String → Bool) (db₀ : DB) (acts : List UserAction) :
    Prop where
  unique : ∀ username, ∀ x ∈ (userRun check db₀ acts).db.sessions.rows,
    ∀ y ∈ (userRun check db₀ acts).db.sessions.rows,
      x.activeFor username = true → y.activeFor username = true → x = y
  lastLogin : FromLastLogin db₀ (userRun check db₀ acts).db (userRun check db₀ acts).log
  ended : ∀ x ∈ (userRun check db₀ acts).db.sessions.rows, x.revoked = true → ∀ later,
    x.Ended (userRun check db₀ acts) (userRun check db₀ (acts ++ later))

/-- In every state of every run each user has at most one active session, that of
the user's last login, and revoked sessions are over for good. -/
theorem userRun_sessionsExclusive (check : String → String → Bool) (db₀ : DB)
    (acts : List UserAction) : SessionsExclusive check db₀ acts := by
  refine ⟨?_, ?_, ?_⟩
  · intro username x hx y hy hxact hyact
    exact Session.eq_of_activeFor hx hy hxact hyact
  · have hstart : FromLastLogin db₀ db₀ [] :=
      fun username x hx hact => Or.inr ⟨rfl, x, hx, rfl, hact⟩
    exact ((userContract check).kept_init db₀).log_induction _ hstart
      (fun h hpost hlegit => h.commit hpost hlegit) acts
  · intro x hx hrev later
    rw [userRun_append]
    have hrests := Session.rests_run (userRun_kept check db₀ acts) hx hrev later
    exact ⟨hrests, fun clock username hash d => validateSession_revoked hrests.1 hrev clock username
      hash⟩

end Monierave
