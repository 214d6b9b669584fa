import Monierave.Queries.Accounts

/-! # Queries on sessions

The statements of `session.sql`.
-/

namespace Monierave

open Relational ReadCommitted

structure CreateSessionParams where
  id : UUID
  username : String
  refreshTokenHash : Bytes
  refreshTokenID : UUID
  deviceTokenHash : Bytes
  userAgent : String
  clientIp : String
  expiresAt : Timestamp

def newSession (now : Timestamp) (arg : CreateSessionParams) : Session where
  id := arg.id
  username := arg.username
  userAgent := arg.userAgent
  clientIp := arg.clientIp
  expiresAt := arg.expiresAt
  createdAt := now
  refreshTokenHash := arg.refreshTokenHash
  refreshTokenID := arg.refreshTokenID
  lastRefreshedAt := none
  revokedAt := none
  revokedReason := none
  deviceTokenHash := arg.deviceTokenHash

def createSession (now : Timestamp) (arg : CreateSessionParams) : Query Session :=
  insertRow DB.sessions SessionKey.constraint (fun _ => none)
    (missingUser "sessions_username_fkey" arg.username) .insertSession (newSession now arg)

def getSession (id : UUID) : Query (Option Session) := readOnly fun db => db.sessions.get (.id id)

def Session.rowLock (s : Session) : LockKey := .session (.id s.id)

def getSessionForUpdate (id : UUID) : Query (Option Session) :=
  selectForUpdate (fun db => db.sessions.get (.id id)) Session.rowLock

def updateSessionRow (id : UUID) (f : Session → Option Session) : Query (Option Session) :=
  updateRow DB.sessions (.id id) (fun s => .ok (f s)) (fun _ _ => none) SessionKey.constraint
    .updateSession .session

namespace Session

def rotate (now : Timestamp) (hash : Bytes) (refreshTokenID : UUID) (s : Session) : Session :=
  { s with
    refreshTokenHash := hash
    refreshTokenID := refreshTokenID
    lastRefreshedAt := some now }

def revoke (now : Timestamp) (reason : Option String) (s : Session) : Session :=
  { s with
    revokedAt := some (s.revokedAt.getD now)
    revokedReason := s.revokedReason <|> reason }

def revoked (s : Session) : Bool := s.revokedAt.isSome

def activeFor (username : String) (s : Session) : Bool :=
  decide (s.username = username) && !s.revoked

end Session

def rotateSessionRefreshToken (now : Timestamp) (id : UUID) (hash : Bytes)
    (refreshTokenID : UUID) : Query (Option Session) :=
  updateSessionRow id fun s => some (s.rotate now hash refreshTokenID)

def revokeSession (now : Timestamp) (id : UUID) (reason : Option String) :
    Query (Option Session) :=
  updateSessionRow id fun s => if s.revoked then none else some (s.revoke now reason)

/-- The sessions the scan of `RevokeAllUserSessions` finds. -/
def findActiveSessions (username : String) : Query (List UUID) :=
  readOnly fun db => (db.sessions.rows.filter (Session.activeFor username)).map Session.id

def revokeActiveSession (now : Timestamp) (username : String) (reason : Option String)
    (id : UUID) : Query (Option Session) :=
  updateSessionRow id fun s => if s.activeFor username then some (s.revoke now reason) else none

namespace Session

theorem activeFor_iff {username : String} {s : Session} :
    s.activeFor username = true ↔ s.username = username ∧ s.revoked = false := by
  simp [activeFor]

@[simp] theorem id_mem_keys {id : UUID} {s : Session} : SessionKey.id id ∈ keys s ↔ id = s.id := by
  by_cases hs : s.revokedAt.isNone
  · simp [keys, hs]
  · simp [keys, hs]

theorem keys_revoke {now : Timestamp} {reason : Option String} {s : Session} :
    ∀ k ∈ keys (s.revoke now reason), k ∈ keys s := by
  intro k hk
  exact List.mem_append_left _ (by simpa [keys, revoke] using hk)

theorem mem_keys_of_activeFor {username : String} {s : Session} (h : s.activeFor username = true) :
    SessionKey.oneActivePerUser username ∈ keys s := by
  obtain ⟨rfl, hr⟩ := activeFor_iff.mp h
  have hnone : s.revokedAt.isNone = true := by
    simpa [revoked] using hr
  simp [keys, hnone]

end Session

theorem updateSessionRow_ok {id : UUID} {f : Session → Option Session} {own : List Write} {db : DB}
    {eff : Answer (Option Session)} (h : (updateSessionRow id f).exec own db = .ok eff) :
    (eff = ⟨none, [], []⟩ ∧ ∀ o, db.sessions.get (.id id) = some o → f o = none) ∨
      ∃ o r, db.sessions.get (.id id) = some o ∧ f o = some r ∧ db.sessions.clash r = none ∧
        eff = ⟨some r, [.updateSession o r], []⟩ := by
  rcases updateRow_ok.mp h with ⟨hnone, rfl⟩ | ⟨o, r, hup, rfl⟩
  · exact Or.inl ⟨rfl, fun o ho => by simpa using hnone o ho⟩
  · exact Or.inr ⟨o, r, hup.row, by simpa using hup.new, hup.clash, rfl⟩

end Monierave
