import Monierave.Schema.Database

/-! # Errors and the shapes of SQL statements

The statements of this database come in a few shapes: a plain read, a locking read
of one row, an insert and an update of one row.
-/

namespace Monierave

open Relational ReadCommitted

inductive SqlError
  | uniqueViolation (constraint : String)
  | checkViolation (constraint : String)
  | foreignKeyViolation (constraint : String)
  | notNullViolation (column : String)
  | outOfRange
  | raised (message : String)
  | connection (message : String)
  deriving DecidableEq, Repr

namespace SqlError

def text : SqlError → String
  | uniqueViolation c => "duplicate key value violates unique constraint " ++ c
  | checkViolation c => "new row violates check constraint " ++ c
  | foreignKeyViolation c => "insert or update violates foreign key constraint " ++ c
  | notNullViolation c => "null value violates not-null constraint of column " ++ c
  | outOfRange => "bigint out of range"
  | raised message => message
  | connection message => message

end SqlError

/-- The errors of the store and of the handlers that call it, and those of the
database and its driver. -/
inductive Err
  | accountNotFound
  | accountNotOwned
  | accountBalanceNotZero
  | accountFrozen
  | accountClosed
  | currencyMismatch
  | sameAccount
  | insufficientBalance
  | recipientNotFound
  | idempotencyConflict
  | invalidIdempotencyKey
  | perTransferLimitExceeded
  | dailyTransferLimitExceeded
  | invalidOperatorAction
  | accountAlreadyFrozen
  | accountAlreadyActive
  | transactionNotFound
  | transactionNotPosted
  | transactionAlreadyReversed
  | transactionNotReversible
  | reversalInsufficientFunds
  | beneficiaryAlreadyExists
  | sessionExpired
  | sessionRevoked
  | sessionMismatch
  | deviceMismatch
  | refreshTokenReuse
  | emailAlreadyVerified
  | emailVerificationCooldown
  | emailVerificationJobMismatch
  | emailVerificationAddressStale
  | emailVerificationTokenExpired
  | emailAddressUndeliverable
  | registrationDisabled
  | invalidCredentials
  | userNotFound
  | currentPasswordRequired
  | invalidFullName
  | invalidPasswordLength
  | invalidToken
  | expiredToken
  | noRows
  | sql (e : SqlError)
  | other (message : String)
  | wrapped (context : String) (e : Err)
  | joined (first second : Err)
  deriving DecidableEq, Repr

namespace Err

def text : Err → String
  | accountNotFound => "account not found"
  | accountNotOwned => "account does not belong to user"
  | accountBalanceNotZero => "account balance must be zero before closure"
  | accountFrozen => "account is frozen"
  | accountClosed => "account is closed"
  | currencyMismatch => "account currency mismatch"
  | sameAccount => "source and destination accounts must differ"
  | insufficientBalance => "insufficient balance"
  | recipientNotFound => "recipient not found"
  | idempotencyConflict => "idempotency key was already used with a different request"
  | invalidIdempotencyKey => "invalid idempotency key"
  | perTransferLimitExceeded => "per-transfer limit exceeded"
  | dailyTransferLimitExceeded => "daily transfer limit exceeded"
  | invalidOperatorAction => "valid operator actor, reason, and correlation ID are required"
  | accountAlreadyFrozen => "account is already frozen"
  | accountAlreadyActive => "account is already active"
  | transactionNotFound => "transaction not found"
  | transactionNotPosted => "only posted transactions can be reversed"
  | transactionAlreadyReversed => "transaction has already been reversed"
  | transactionNotReversible => "reversal transactions cannot be reversed"
  | reversalInsufficientFunds => "insufficient funds to reverse transaction"
  | beneficiaryAlreadyExists => "beneficiary already exists"
  | sessionExpired => "session expired"
  | sessionRevoked => "session revoked"
  | sessionMismatch => "session does not match token"
  | deviceMismatch => "session device does not match"
  | refreshTokenReuse => "refresh token reuse detected"
  | emailAlreadyVerified => "email is already verified"
  | emailVerificationCooldown => "wait before requesting another verification email"
  | emailVerificationJobMismatch => "verification token does not match the email job"
  | emailVerificationAddressStale => "verification token is for an old email address"
  | emailVerificationTokenExpired => "verification token expired"
  | emailAddressUndeliverable =>
    "change the undeliverable email address before requesting another verification email"
  | registrationDisabled => "registration is disabled"
  | invalidCredentials => "invalid username or password"
  | userNotFound => "user not found"
  | currentPasswordRequired =>
    "current password is required for this security-sensitive change"
  | invalidFullName => "full name must be 1-100 characters after trimming"
  | invalidPasswordLength => "password must be at least 8 characters and at most 72 bytes"
  | invalidToken => "invalid token"
  | expiredToken => "expired token"
  | noRows => "no rows in result set"
  | sql e => e.text
  | other message => message
  | wrapped context e => context ++ ": " ++ e.text
  | joined first second => first.text ++ "\n" ++ second.text

/-- `errors.Is`: an error joined to another is both, a wrapped one is still
itself. -/
def is : Err → Err → Bool
  | joined first second, target => first.is target || second.is target
  | wrapped _ e, target => e.is target
  | e, target => decide (e = target)

end Err

abbrev Query := Stmt Write DB LockKey Err

abbrev Tx := Prog Write DB LockKey Err

abbrev Answer := Effect Write LockKey

/-- What one database transaction takes from outside the tables: `now()`, which
is fixed when the transaction starts, the clock and the random UUIDs of the
process that issues it, and the serial values its inserts draw. -/
structure Env where
  now : Timestamp
  clock : Timestamp
  uuid : Nat → UUID
  serial : Nat → Int64

def readOnly {β : Type} (f : DB → β) : Query β where
  exec _ db := .ok { result := f db }

variable {β : Type} {own : List Write} {db : DB} {eff : Answer β} {x : Int}

theorem readOnly_ok {f : DB → β} : (readOnly f).exec own db = .ok eff ↔ eff = ⟨f db, [], []⟩ := by
  simp [readOnly, eq_comm]

def tryRead {β : Type} (f : DB → Except SqlError β) : Query β where
  exec _ db :=
    match f db with
    | .error e => .error (.sql e)
    | .ok b => .ok { result := b }

theorem tryRead_ok {f : DB → Except SqlError β} :
    (tryRead f).exec own db = .ok eff ↔ ∃ b, f db = .ok b ∧ eff = ⟨b, [], []⟩ := by
  cases h : f db <;> simp [tryRead, h, eq_comm]

/-- `SELECT ... FOR [NO KEY] UPDATE` of at most one row: waits for the row it
finds and keeps it locked. -/
def selectForUpdate {β : Type} (find : DB → Option β) (key : β → LockKey) :
    Query (Option β) where
  waits db := (find db).toList.map key
  exec _ db := .ok { result := find db, locks := (find db).toList.map key }

theorem selectForUpdate_ok {find : DB → Option β} {key : β → LockKey} {eff : Answer (Option β)} :
    (selectForUpdate find key).exec own db = .ok eff ↔
      eff = ⟨find db, [], (find db).toList.map key⟩ := by
  simp [selectForUpdate, eq_comm]

section Rows

variable {R κ : Type} [Keyed R κ] [DecidableEq κ]

/-- `INSERT` of a row, rejected when it violates a check, a unique index or a
foreign key, in this order. -/
def insertRow (table : DB → Table R) (constraint : κ → String)
    (violated orphaned : DB → Option SqlError) (write : R → Write) (r : R) : Query R where
  waits _ := (write r).keys
  exec _ db :=
    match violated db, (table db).conflict r, orphaned db with
    | some e, _, _ => .error (.sql e)
    | none, some k, _ => .error (.sql (.uniqueViolation (constraint k)))
    | none, none, some e => .error (.sql e)
    | none, none, none => .ok { result := r, writes := [write r] }

variable {table : DB → Table R} {constraint : κ → String} {own : List Write} {db : DB}

theorem insertRow_ok {violated orphaned : DB → Option SqlError} {write : R → Write} {r : R}
    {eff : Answer R} :
    (insertRow table constraint violated orphaned write r).exec own db = .ok eff ↔
      violated db = none ∧ (table db).conflict r = none ∧ orphaned db = none ∧
        eff = ⟨r, [write r], []⟩ := by
  cases h₁ : violated db <;> cases h₂ : (table db).conflict r <;> cases h₃ : orphaned db <;>
    simp [insertRow, h₁, h₂, h₃, eq_comm]

/-- `UPDATE ... WHERE key = k RETURNING *`. The new version of the row is
computed by `f`, which answers none where the other conditions of the statement
do not hold of the old version. -/
def updateRow (table : DB → Table R) (k : κ) (f : R → Except SqlError (Option R))
    (violated : R → R → Option SqlError) (constraint : κ → String) (write : R → R → Write)
    (lock : κ → LockKey) : Query (Option R) where
  waits db :=
    match (table db).get k with
    | none => []
    | some o =>
      match f o with
      | .ok none => []
      | _ => [lock (pk o)]
  exec _ db :=
    match (table db).get k with
    | none => .ok { result := none }
    | some o =>
      match f o with
      | .error e => .error (.sql e)
      | .ok none => .ok { result := none }
      | .ok (some r) =>
        match violated o r, (table db).clash r with
        | some e, _ => .error (.sql e)
        | none, some j => .error (.sql (.uniqueViolation (constraint j)))
        | none, none => .ok { result := some r, writes := [write o r] }

structure Updates (table : DB → Table R) (k : κ) (f : R → Except SqlError (Option R))
    (violated : R → R → Option SqlError) (db : DB) (o r : R) : Prop where
  row : (table db).get k = some o
  new : f o = .ok (some r)
  checked : violated o r = none
  clash : (table db).clash r = none

theorem updateRow_ok {k : κ} {f : R → Except SqlError (Option R)}
    {violated : R → R → Option SqlError} {write : R → R → Write} {lock : κ → LockKey}
    {eff : Answer (Option R)} :
    (updateRow table k f violated constraint write lock).exec own db = .ok eff ↔
      ((∀ o, (table db).get k = some o → f o = .ok none) ∧ eff = ⟨none, [], []⟩) ∨
        ∃ o r, Updates table k f violated db o r ∧ eff = ⟨some r, [write o r], []⟩ := by
  cases hg : (table db).get k with
  | none =>
    simp only [updateRow, hg, Except.ok.injEq]
    constructor
    · rintro rfl
      exact Or.inl ⟨by simp, rfl⟩
    · rintro (⟨_, rfl⟩ | ⟨o, r, h, _⟩)
      · rfl
      · rw [h.row] at hg
        cases hg
  | some o =>
    cases hf : f o with
    | error e =>
      simp only [updateRow, hg, hf, reduceCtorEq, false_iff]
      rintro (⟨h, _⟩ | ⟨o', r, h, _⟩)
      · have := h o rfl
        rw [hf] at this
        cases this
      · have hrow := h.row
        rw [hg] at hrow
        cases hrow
        rw [h.new] at hf
        cases hf
    | ok x =>
      cases x with
      | none =>
        simp only [updateRow, hg, hf, Except.ok.injEq]
        constructor
        · rintro rfl
          exact Or.inl ⟨by simpa using hf, rfl⟩
        · rintro (⟨_, rfl⟩ | ⟨o', r, h, _⟩)
          · rfl
          · have hrow := h.row
            rw [hg] at hrow
            cases hrow
            rw [h.new] at hf
            cases hf
      | some r =>
        simp only [updateRow, hg, hf]
        constructor
        · intro h
          cases hv : violated o r with
          | some e => simp [hv] at h
          | none =>
            cases hc : (table db).clash r with
            | some j => simp [hv, hc] at h
            | none =>
              simp only [hv, hc, Except.ok.injEq] at h
              exact Or.inr ⟨o, r, ⟨hg, hf, hv, hc⟩, h.symm⟩
        · rintro (⟨h, _⟩ | ⟨o', r', h, rfl⟩)
          · have := h o rfl
            rw [hf] at this
            cases this
          · have hrow := h.row
            rw [hg] at hrow
            cases hrow
            have hnew := h.new
            rw [hf] at hnew
            cases hnew
            simp [h.checked, h.clash]

end Rows

def fitsBigint (x : Int) : Bool := decide (Int64.minValue.toInt ≤ x ∧ x ≤ Int64.maxValue.toInt)

/-- The value as a `bigint`, or the error that it does not fit. -/
def bigint (x : Int) : Except SqlError Int64 :=
  if fitsBigint x then .ok (Int64.ofInt x) else .error .outOfRange

theorem fitsBigint_iff : fitsBigint x ↔ -2 ^ 63 ≤ x ∧ x < 2 ^ 63 := by
  simp only [fitsBigint, Int64.toInt_minValue, Int64.toInt_maxValue, decide_eq_true_eq]
  omega

theorem fitsBigint_toInt (x : Int64) : fitsBigint x.toInt := by
  rw [fitsBigint_iff]
  exact ⟨x.le_toInt, x.toInt_lt⟩

theorem bigint_ok {y : Int64} : bigint x = .ok y ↔ y.toInt = x := by
  unfold bigint
  constructor
  · intro h
    split at h
    · rename_i hx
      cases h
      rw [fitsBigint_iff] at hx
      exact Int64.toInt_ofInt_of_le (by omega) (by omega)
    · cases h
  · rintro rfl
    rw [if_pos (fitsBigint_toInt y), Int64.ofInt_toInt]

theorem map_bigint_ok {α : Type} {f : Int64 → α} {y : α} :
    (bigint x).map f = .ok y ↔ fitsBigint x ∧ y = f (Int64.ofInt x) := by
  by_cases hfit : fitsBigint x
  · simp [bigint, hfit, Except.map, eq_comm]
  · simp [bigint, hfit, Except.map]

theorem toInt_ofInt_of_fits (h : fitsBigint x) : (Int64.ofInt x).toInt = x := by
  rw [fitsBigint_iff] at h
  exact Int64.toInt_ofInt_of_le (by omega) (by omega)

end Monierave
