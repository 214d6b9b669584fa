import Monierave.Schema.Statements

/-! # Queries on accounts

The statements of `account.sql` that the account and money-moving transactions
issue.
-/

namespace Monierave

open Relational ReadCommitted

/-- `account_number ~ '^[0-9]{10}$'`. -/
def isAccountNumber (s : String) : Bool := s.length == 10 && s.toList.all Char.isDigit

namespace Account

def violated (a : Account) : Option SqlError :=
  if ¬ isAccountNumber a.accountNumber then
    some (.checkViolation "accounts_account_number_format_check")
  else if ¬ 0 ≤ a.balance then
    some (.checkViolation "accounts_balance_non_negative")
  else if ¬ ((a.status = .closed ∧ a.closedAt.isSome ∧ a.balance = 0) ∨
      (a.status ≠ .closed ∧ a.closedAt.isNone)) then
    some (.checkViolation "accounts_closed_at_check")
  else none

theorem violated_eq_none {a : Account} :
    a.violated = none ↔ isAccountNumber a.accountNumber ∧ 0 ≤ a.balance ∧
      ((a.status = .closed ∧ a.closedAt.isSome ∧ a.balance = 0) ∨
        (a.status ≠ .closed ∧ a.closedAt.isNone)) := by
  unfold violated
  split_ifs
  all_goals first
    | (simp only [true_iff]; tauto)
    | (simp only [false_iff]; tauto)

end Account

structure CreateAccountParams where
  owner : String
  currency : String
  accountNumber : String
  deriving DecidableEq

def newAccount (env : Env) (arg : CreateAccountParams) : Account where
  id := env.serial 0
  owner := arg.owner
  balance := 0
  currency := arg.currency
  createdAt := env.now
  publicID := env.uuid 0
  status := .active
  updatedAt := env.now
  closedAt := none
  accountNumber := arg.accountNumber

/-- The foreign key of a column that references `users`. -/
def missingUser (constraint username : String) (db : DB) : Option SqlError :=
  if (db.users.get (.username username)).isNone then some (.foreignKeyViolation constraint)
  else none

theorem missingUser_eq_none {constraint username : String} {db : DB} :
    missingUser constraint username db = none ↔ ∃ u, db.users.get (.username username) = some u := by
  unfold missingUser
  cases db.users.get (.username username) <;> simp

def createAccount (env : Env) (arg : CreateAccountParams) : Query Account :=
  insertRow (·.accounts) AccountKey.constraint (fun _ => (newAccount env arg).violated)
    (missingUser "accounts_owner_fkey" arg.owner) .insertAccount (newAccount env arg)

def DB.accountByPublicID (db : DB) (publicID : Option UUID) : Option Account :=
  publicID.bind fun id => db.accounts.get (.publicID id)

def getAccountByPublicID (publicID : Option UUID) : Query (Option Account) :=
  readOnly fun db => db.accountByPublicID publicID

def getAccountByAccountNumber (accountNumber : String) : Query (Option Account) :=
  readOnly fun db => db.accounts.get (.accountNumber accountNumber)

def Account.rowLock (a : Account) : LockKey := .account (.id a.id)

def getAccountForUpdate (id : Int64) : Query (Option Account) :=
  selectForUpdate (fun db => db.accounts.get (.id id)) Account.rowLock

def getAccountByPublicIDForUpdate (publicID : Option UUID) : Query (Option Account) :=
  selectForUpdate (fun db => db.accountByPublicID publicID) Account.rowLock

def updateAccountRow (id : Int64) (f : Account → Except SqlError (Option Account)) :
    Query (Option Account) :=
  updateRow (·.accounts) (.id id) f (fun _ a => a.violated) AccountKey.constraint .updateAccount
    .account

/-- The sum is computed in `bigint` and fails when it does not fit; a negative
sum is no match. -/
def Account.addBalance (now : Timestamp) (amount : Int64) (a : Account) :
    Except SqlError (Option Account) :=
  match bigint (a.balance.toInt + amount.toInt) with
  | .error e => .error e
  | .ok balance =>
    .ok (if 0 ≤ balance then some { a with balance := balance, updatedAt := now } else none)

def addAccountBalanceInternal (now : Timestamp) (id amount : Int64) : Query (Option Account) :=
  updateAccountRow id (Account.addBalance now amount)

def Account.close (now : Timestamp) (a : Account) : Except SqlError (Option Account) :=
  .ok (if a.balance = 0 ∧ a.status ≠ .closed then
    some { a with status := .closed, closedAt := some now, updatedAt := now } else none)

def closeAccount (now : Timestamp) (id : Int64) : Query (Option Account) :=
  updateAccountRow id (Account.close now)

def Account.setStatus (now : Timestamp) (status : FinancialAccountStatus) (a : Account) :
    Except SqlError (Option Account) :=
  .ok (if status = .active ∨ status = .frozen then
    some { a with status := status, closedAt := none, updatedAt := now } else none)

def setAccountStatus (now : Timestamp) (id : Int64) (status : FinancialAccountStatus) :
    Query (Option Account) :=
  updateAccountRow id (Account.setStatus now status)

theorem Account.addBalance_some {now : Timestamp} {amount : Int64} {o a : Account}
    (h : o.addBalance now amount = .ok (some a)) :
    0 ≤ a.balance ∧ a.balance.toInt = o.balance.toInt + amount.toInt ∧
      a = { o with balance := a.balance, updatedAt := now } := by
  unfold addBalance at h
  cases hb : bigint (o.balance.toInt + amount.toInt) with
  | error e => simp [hb] at h
  | ok balance =>
    by_cases hpos : 0 ≤ balance
    · simp only [hb, if_pos hpos, Except.ok.injEq, Option.some.injEq] at h
      subst h
      exact ⟨hpos, bigint_ok.mp hb, rfl⟩
    · simp [hb, hpos] at h

theorem Account.close_some {now : Timestamp} {o a : Account} (h : o.close now = .ok (some a)) :
    o.balance = 0 ∧ o.status ≠ .closed ∧
      a = { o with status := .closed, closedAt := some now, updatedAt := now } := by
  unfold close at h
  by_cases hc : o.balance = 0 ∧ o.status ≠ .closed
  · rw [if_pos hc] at h
    cases h
    exact ⟨hc.1, hc.2, rfl⟩
  · rw [if_neg hc] at h
    cases h

theorem Account.setStatus_some {now : Timestamp} {status : FinancialAccountStatus}
    {o a : Account} (h : o.setStatus now status = .ok (some a)) :
    (status = .active ∨ status = .frozen) ∧
      a = { o with status := status, closedAt := none, updatedAt := now } := by
  unfold setStatus at h
  by_cases hc : status = .active ∨ status = .frozen
  · rw [if_pos hc] at h
    cases h
    exact ⟨hc, rfl⟩
  · rw [if_neg hc] at h
    cases h

end Monierave
