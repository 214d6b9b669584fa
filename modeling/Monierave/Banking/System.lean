import Monierave.Banking.Beneficiaries
import Monierave.Banking.Operators
import Monierave.ReadCommitted.Machine

/-! # The banking operations as a system of transactions

A call of the store is a sequence of database transactions: the operation itself
and, when a transfer or an operator action fails, the record of its failure.
-/

namespace Monierave

open Relational ReadCommitted Prog

/-- The database transactions of the banking operations, each with what it takes
from outside the tables. -/
inductive BankingTx
  | createAccount (env : Env) (arg : CreateAccountParams)
  | settlementMovement (env : Env) (kind : SettlementKind) (arg : SettlementMovementParams)
  | transfer (env : Env) (arg : TransferTxParams)
  | idempotentTransfer (env : Env) (arg : IdempotentTransferTxParams)
  | auditTransferFailure (env : Env) (arg : TransferTxParams) (transferErr : Err)
  | setAccountStatus (env : Env) (arg : AccountStatusTxParams)
  | reverseTransaction (env : Env) (arg : ReverseTransactionTxParams)
  | closeAccount (env : Env) (arg : CloseAccountTxParams)
  | auditOperatorFailure (env : Env) (arg : OperatorAuditParams)

inductive Response
  | account (account : Account)
  | movement (result : MoneyMovementTxResult)
  | transfer (result : TransferTxResult)
  | accountStatus (result : AccountStatusTxResult)
  | reversal (result : ReverseTransactionTxResult)
  | recorded
  | deleted (rows : Nat)
  | beneficiary (result : CreateBeneficiaryTxResult)

namespace BankingTx

def isFailureRecord : BankingTx → Bool
  | auditTransferFailure .. => true
  | auditOperatorFailure .. => true
  | _ => false

def body : BankingTx → Tx Response
  | createAccount env arg => do pure (.account (← createAccountAttempt env arg))
  | settlementMovement env kind arg => do pure (.movement (← settlementMovementTx env kind arg))
  | transfer env arg => do pure (.transfer (← transferTx env arg))
  | idempotentTransfer env arg => do pure (.transfer (← idempotentTransferTx env arg))
  | auditTransferFailure env arg e => do
    auditTransferFailureTx env arg e
    pure .recorded
  | setAccountStatus env arg => do pure (.accountStatus (← setAccountStatusTx env arg))
  | reverseTransaction env arg => do pure (.reversal (← reverseTransactionTx env arg))
  | closeAccount env arg => do pure (.account (← closeAccountTx env arg))
  | auditOperatorFailure env arg => do
    let _ ← Monierave.auditOperatorFailure env arg
    pure .recorded

end BankingTx

abbrev BankingJob := Job BankingTx Response Err

def generateAccountNumber (value : Fin (10 ^ 10)) : String :=
  String.ofList ((Nat.toDigits 10 value).leftpad 10 '0')

def isAccountNumberCollision : Err → Bool
  | .sql (.uniqueViolation c) => c == "accounts_account_number_key"
  | _ => false

def accountNumberGenerationAttempts : Nat := 5

structure AccountDraw where
  number : Except Err (Fin (10 ^ 10))
  env : Env

/-- The attempts that are left, the next one being the `i`-th. -/
def createAccountWithGeneratedNumber (arg : CreateAccountTxParams) (draw : Nat → AccountDraw) :
    (left i : Nat) → BankingJob
  | 0, _ => .done (.error (.other ("generate unique account number after " ++
      toString accountNumberGenerationAttempts ++ " attempts")))
  | left + 1, i =>
    match (draw i).number with
    | .error e => .done (.error e)
    | .ok value =>
      .tx (.createAccount (draw i).env ⟨arg.owner, arg.currency, generateAccountNumber value⟩)
        fun
        | .ok r => .done (.ok r)
        | .error e =>
          if isAccountNumberCollision e then
            createAccountWithGeneratedNumber arg draw left (i + 1)
          else .done (.error e)

/-- Calls of the store. `fresh` is the UUID drawn when no correlation id is given,
`auditEnv` belongs to the transaction that records a failure. -/
inductive BankingOp
  | createAccountTx (arg : CreateAccountTxParams) (draw : Nat → AccountDraw)
  | depositTx (arg : SettlementMovementParams) (fresh : UUID) (env : Env)
  | withdrawTx (arg : SettlementMovementParams) (fresh : UUID) (env : Env)
  | transferTx (arg : TransferTxParams) (fresh : UUID) (env auditEnv : Env)
  | idempotentTransferTx (arg : IdempotentTransferTxParams) (fresh : UUID) (env auditEnv : Env)
  | setAccountStatusTx (arg : AccountStatusTxParams) (env auditEnv : Env)
  | reverseTransactionTx (arg : ReverseTransactionTxParams) (env auditEnv : Env)
  | closeAccountTx (arg : CloseAccountTxParams) (env : Env)

/-- Record the failure `e`, if the operation failed, and report it. -/
def recordingFailure (record : Err → BankingTx) (context : String) :
    Except Err Response → BankingJob
  | .ok r => .done (.ok r)
  | .error e => .tx (record e) fun
      | .ok _ => .done (.error e)
      | .error auditErr => .done (.error (.joined e (.wrapped context auditErr)))

def settlementJob (kind : SettlementKind) (arg : SettlementMovementParams) (fresh : UUID)
    (env : Env) : BankingJob :=
  if arg.amount ≤ 0 then .done (.error (.other "amount must be positive"))
  else .tx (.settlementMovement env kind { arg with
    actor := if arg.actor = "" then "operator_cli" else arg.actor
    correlationID := auditCorrelation fresh arg.correlationID }) .done

def operatorJob (actor reason : String) (correlationID : Option UUID) (job : BankingJob) :
    BankingJob :=
  match validateOperatorAction actor reason correlationID with
  | .error e => .done (.error e)
  | .ok () => job

namespace BankingOp

def job : BankingOp → BankingJob
  | createAccountTx arg draw =>
    createAccountWithGeneratedNumber arg draw accountNumberGenerationAttempts 0
  | depositTx arg fresh env => settlementJob .deposit arg fresh env
  | withdrawTx arg fresh env => settlementJob .withdrawal arg fresh env
  | transferTx arg fresh env auditEnv =>
    let arg := { arg with correlationID := auditCorrelation fresh arg.correlationID }
    .tx (.transfer env arg) (recordingFailure (.auditTransferFailure auditEnv arg)
      "record transfer failure audit")
  | idempotentTransferTx arg fresh env auditEnv =>
    if arg.idempotencyKey = "" ∨ arg.idempotencyKey.utf8ByteSize > 128 ∨
        arg.requestHash.length ≠ 32 then
      .done (.error .invalidIdempotencyKey)
    else
      let arg := { arg with correlationID := auditCorrelation fresh arg.correlationID }
      .tx (.idempotentTransfer env arg)
        (recordingFailure (.auditTransferFailure auditEnv arg.toTransferTxParams)
          "record transfer failure audit")
  | setAccountStatusTx arg env auditEnv =>
    operatorJob arg.actor arg.reason arg.correlationID
      (if arg.targetStatus ≠ .frozen ∧ arg.targetStatus ≠ .active then
        .done (.error (.other "invalid account target status"))
      else .tx (.setAccountStatus env arg) (recordingFailure
        (fun _ => .auditOperatorFailure auditEnv {
          entityType := .account
          entityID := arg.accountPublicID
          correlationID := arg.correlationID
          eventType := "account_status_change_failed"
          actor := arg.actor
          toState := "rejected"
          reason := arg.reason }) "record operator failure audit"))
  | reverseTransactionTx arg env auditEnv =>
    operatorJob arg.actor arg.reason arg.correlationID
      (.tx (.reverseTransaction env arg) (recordingFailure
        (fun _ => .auditOperatorFailure auditEnv {
          entityType := .bankingTransaction
          entityID := arg.transactionID
          correlationID := arg.correlationID
          eventType := "transaction_reversal_failed"
          actor := arg.actor
          toState := "rejected"
          reason := arg.reason }) "record operator failure audit"))
  | closeAccountTx arg env => .tx (.closeAccount env arg) .done

end BankingOp

def bankingSystem : System Write DB LockKey Err BankingTx Response BankingOp where
  body := BankingTx.body
  job := BankingOp.job

abbrev BankingState := State Write DB LockKey Err BankingTx Response BankingOp

abbrev BankingAction := Action Err BankingOp

def settlementLedgerAccounts : Table LedgerAccount where
  rows := [⟨1, .settlement (settlementCode "USD"), "USD"⟩,
    ⟨2, .settlement (settlementCode "EUR"), "EUR"⟩]
  unique := by
    simp [keys, LedgerAccountKey.ofOwner, settlementCode]

def DB.initial (users : Table User) : DB where
  users := users
  sessions := ∅
  accounts := ∅
  ledgerAccounts := settlementLedgerAccounts
  bankingTransactions := ∅
  ledgerPostings := ∅
  idempotencyKeys := ∅
  emailJobs := ∅
  outboxEvents := ∅
  emailDeliveryEvents := ∅
  beneficiaries := ∅
  auditLogs := []

def bankingRun (users : Table User) (acts : List BankingAction) : BankingState :=
  bankingSystem.run (State.init (DB.initial users)) acts

/-! ## Two customers

Concrete runs start from a bank in which Alice and Bob have a dollar account each,
with the public ids 100 and 200.
-/

def customer (username : String) : User where
  username := username
  hashedPassword := ""
  fullName := username
  email := username ++ "@example.com"
  passwordChangedAt := 0
  emailVerifiedAt := some 0
  emailDeliverabilityStatus := .deliverable
  emailDeliverabilityUpdatedAt := none
  emailBouncedAt := none
  accountStatus := .active
  registrationExpiresAt := none

def twoCustomers : Table User := ⟨[customer "alice", customer "bob"], by decide +kernel⟩

/-- A transaction that starts at `now` and draws its ids from a block of a hundred. -/
def Env.drawing (now : Timestamp) (block : Nat) : Env where
  now := now
  clock := now
  uuid i := BitVec.ofNat 128 (100 * block + i)
  serial i := Int64.ofNat (100 * block + i)

def toCommit {Op : Type} (w : Nat) : List (Action Err Op) :=
  List.replicate 20 (.exec w) ++ [.commit w]

/-- Worker `w` performs an operation of one transaction while nobody else moves. -/
def uninterrupted {Op : Type} (w : Nat) (op : Op) : List (Action Err Op) :=
  .start w op :: List.replicate 20 (.exec w) ++ [.commit w]

def openAccounts : List BankingAction :=
  uninterrupted 0 (.createAccountTx ⟨"alice", "USD"⟩ fun _ => ⟨.ok 1, .drawing 0 1⟩) ++
    uninterrupted 1 (.createAccountTx ⟨"bob", "USD"⟩ fun _ => ⟨.ok 2, .drawing 0 2⟩)

def depositForAlice (amount : Int64) (env : Env) : BankingOp :=
  .depositTx ⟨some 100, amount, "", "", none⟩ 0 env

def withdrawalOfAlice (amount : Int64) (env : Env) : BankingOp :=
  .withdrawTx ⟨some 100, amount, "", "", none⟩ 0 env

end Monierave
