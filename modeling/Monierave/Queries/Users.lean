import Monierave.Queries.Notifications

/-! # Queries on users

The statements of `user.sql`.
-/

namespace Monierave

open Relational ReadCommitted

/-- `btrim`, which removes blanks only. -/
def btrim (s : String) : String :=
  let blank : Char → Bool := fun c => c == ' '
  .ofList ((s.toList.dropWhile blank).reverse.dropWhile blank).reverse

def User.violated (u : User) : Option SqlError :=
  if ¬ (3 ≤ u.email.length ∧ u.email.length ≤ 254) then
    some (.checkViolation "users_email_length_check")
  else if ¬ (1 ≤ (btrim u.fullName).length ∧ (btrim u.fullName).length ≤ 100) then
    some (.checkViolation "users_full_name_length_check")
  else if ¬ (3 ≤ u.username.length ∧ u.username.length ≤ 32) then
    some (.checkViolation "users_username_length_check")
  else none

/-- `interval '7 days'`. -/
def registrationWindow : Int := 7 * microsPerDay

/-- `0001-01-01 00:00:00Z`, the default of `password_changed_at`. -/
def passwordNeverChanged : Timestamp := -62135596800000000

structure CreateUserParams where
  username : String
  hashedPassword : String
  fullName : String
  email : String

def newUser (now : Timestamp) (arg : CreateUserParams) : User where
  username := arg.username
  hashedPassword := arg.hashedPassword
  fullName := arg.fullName
  email := arg.email
  passwordChangedAt := passwordNeverChanged
  emailVerifiedAt := none
  emailDeliverabilityStatus := .pending
  emailDeliverabilityUpdatedAt := none
  emailBouncedAt := none
  accountStatus := .pending
  registrationExpiresAt := some (now + registrationWindow)

def createUser (now : Timestamp) (arg : CreateUserParams) : Query User :=
  insertRow DB.users UserKey.constraint (fun _ => (newUser now arg).violated) (fun _ => none)
    .insertUser (newUser now arg)

def User.rowLock (u : User) : LockKey := .user (.username u.username)

def getUserForUpdate (username : String) : Query (Option User) :=
  selectForUpdate (fun db => db.users.get (.username username)) User.rowLock

def updateUserRow (username : String) (f : User → Option User) : Query (Option User) :=
  updateRow DB.users (.username username) (fun u => .ok (f u)) (fun _ u => u.violated)
    UserKey.constraint .updateUser .user

structure UpdateUserParams where
  username : String
  hashedPassword : Option String := none
  fullName : Option String := none
  email : Option String := none

namespace User

/-- `lower(new) <> lower(email)`, for a new address that is not null. -/
def emailChanges (u : User) (email : Option String) : Bool :=
  match email with
  | none => false
  | some email => Unicode.lower email != Unicode.lower u.email

def update (now : Timestamp) (arg : UpdateUserParams) (u : User) : User :=
  let changes := u.emailChanges arg.email
  { u with
    hashedPassword := arg.hashedPassword.getD u.hashedPassword
    fullName := arg.fullName.getD u.fullName
    email := arg.email.getD u.email
    emailVerifiedAt := if changes then none else u.emailVerifiedAt
    emailDeliverabilityStatus := if changes then .pending else u.emailDeliverabilityStatus
    emailDeliverabilityUpdatedAt := if changes then none else u.emailDeliverabilityUpdatedAt
    emailBouncedAt := if changes then none else u.emailBouncedAt
    accountStatus := if changes then .pending else u.accountStatus
    registrationExpiresAt := if changes then some (now + registrationWindow)
      else u.registrationExpiresAt
    passwordChangedAt := if arg.hashedPassword.isSome then now else u.passwordChangedAt }

end User

def updateUser (now : Timestamp) (arg : UpdateUserParams) : Query (Option User) :=
  updateUserRow arg.username fun u => some (u.update now arg)

structure UpdateCurrentUserEmailDeliverabilityParams where
  username : String
  recipient : String
  deliverabilityStatus : EmailDeliverabilityStatus
  occurredAt : Timestamp
  bouncedAt : Option Timestamp

namespace User

def reportApplies (arg : UpdateCurrentUserEmailDeliverabilityParams) (u : User) : Bool :=
  Unicode.lower u.email == Unicode.lower arg.recipient &&
    (match u.emailDeliverabilityUpdatedAt with
      | none => true
      | some at_ => decide (at_ < arg.occurredAt)) &&
    (u.emailDeliverabilityStatus != .undeliverable || arg.deliverabilityStatus == .undeliverable)

def report (now : Timestamp) (arg : UpdateCurrentUserEmailDeliverabilityParams) (u : User) :
    User :=
  let lost := arg.deliverabilityStatus = .undeliverable
  { u with
    emailDeliverabilityStatus := arg.deliverabilityStatus
    emailDeliverabilityUpdatedAt := some arg.occurredAt
    emailBouncedAt :=
      if arg.bouncedAt.isSome then arg.bouncedAt
      else if arg.deliverabilityStatus = .deliverable then none
      else u.emailBouncedAt
    emailVerifiedAt := if lost then none else u.emailVerifiedAt
    accountStatus := if lost then .pending else u.accountStatus
    registrationExpiresAt := if lost then some (now + registrationWindow)
      else u.registrationExpiresAt }

def markVerified (now : Timestamp) (u : User) : User :=
  { u with
    emailVerifiedAt := some (u.emailVerifiedAt.getD now)
    emailDeliverabilityStatus := .deliverable
    emailDeliverabilityUpdatedAt := some now
    emailBouncedAt := none
    accountStatus := .active
    registrationExpiresAt := none }

def restartVerification (now : Timestamp) (u : User) : User :=
  { u with
    accountStatus := .pending
    registrationExpiresAt := if u.accountStatus = .disabled then some (now + registrationWindow)
      else u.registrationExpiresAt
    emailVerifiedAt := none
    emailDeliverabilityStatus := .pending
    emailDeliverabilityUpdatedAt := none
    emailBouncedAt := none }

def registrationOver (now : Timestamp) (u : User) : Bool :=
  u.accountStatus == .pending && u.registrationExpiresAt.any fun at_ => decide (at_ ≤ now)

def disable (u : User) : User := { u with accountStatus := .disabled }

end User

def updateCurrentUserEmailDeliverability (now : Timestamp)
    (arg : UpdateCurrentUserEmailDeliverabilityParams) : Query (Option User) :=
  updateUserRow arg.username fun u => if u.reportApplies arg then some (u.report now arg) else none

def markUserEmailVerified (now : Timestamp) (username email : String) : Query (Option User) :=
  updateUserRow username fun u =>
    if Unicode.lower u.email = Unicode.lower email then some (u.markVerified now) else none

def restartUserEmailVerification (now : Timestamp) (username : String) : Query (Option User) :=
  updateUserRow username fun u => some (u.restartVerification now)

def disableExpiredPendingUser (now : Timestamp) (username : String) : Query (Option User) :=
  updateUserRow username fun u => if u.registrationOver now then some u.disable else none

/-- The users the scan of `DisableExpiredPendingUsers` finds. -/
def findExpiredPendingUsers (now : Timestamp) : Query (List String) :=
  readOnly fun db => (db.users.rows.filter (User.registrationOver now)).map User.username

theorem updateUserRow_ok {username : String} {f : User → Option User} {own : List Write} {db : DB}
    {eff : Answer (Option User)} (h : (updateUserRow username f).exec own db = .ok eff) :
    (eff = ⟨none, [], []⟩ ∧ ∀ o, db.users.get (.username username) = some o → f o = none) ∨
      ∃ o r, db.users.get (.username username) = some o ∧ f o = some r ∧ r.violated = none ∧
        db.users.clash r = none ∧ eff = ⟨some r, [.updateUser o r], []⟩ := by
  rcases updateRow_ok.mp h with ⟨hnone, rfl⟩ | ⟨o, r, hup, rfl⟩
  · exact Or.inl ⟨rfl, fun o ho => by simpa using hnone o ho⟩
  · exact Or.inr ⟨o, r, hup.row, by simpa using hup.new, hup.checked, hup.clash, rfl⟩

@[simp] theorem User.username_mem_keys {username : String} {u : User} :
    UserKey.username username ∈ keys u ↔ username = u.username := by
  simp [keys]

end Monierave
