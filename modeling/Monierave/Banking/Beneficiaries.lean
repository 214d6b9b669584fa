import Monierave.Banking.Support

/-! # Beneficiaries

Saving the destination of transfers under a name: `CreateBeneficiary` of
`beneficiary.sql` and the transaction body of `beneficiary_tx.go`.
-/

namespace Monierave

open Relational ReadCommitted Prog

structure CreateBeneficiaryParams where
  owner : String
  destinationAccountID : Int64
  nickname : String

/-- `beneficiaries_nickname_check`; `btrim` takes off spaces only. -/
def Beneficiary.violated (b : Beneficiary) : Option SqlError :=
  if 1 ≤ b.nickname.length ∧ b.nickname.length ≤ 50 ∧ b.nickname.toList.head? ≠ some ' ' ∧
      b.nickname.toList.getLast? ≠ some ' ' then none
  else some (.checkViolation "beneficiaries_nickname_check")

def newBeneficiary (env : Env) (arg : CreateBeneficiaryParams) : Beneficiary where
  id := env.uuid 0
  owner := arg.owner
  destinationAccountID := arg.destinationAccountID
  nickname := arg.nickname
  createdAt := env.now
  updatedAt := env.now

def Beneficiary.orphaned (b : Beneficiary) (db : DB) : Option SqlError :=
  (missingUser "beneficiaries_owner_fkey" b.owner db).or
    (if (db.accounts.get (.id b.destinationAccountID)).isNone then
      some (.foreignKeyViolation "beneficiaries_destination_account_id_fkey")
    else none)

def createBeneficiary (env : Env) (arg : CreateBeneficiaryParams) : Query Beneficiary :=
  insertRow DB.beneficiaries BeneficiaryKey.constraint
    (fun _ => (newBeneficiary env arg).violated) (newBeneficiary env arg).orphaned
    .insertBeneficiary (newBeneficiary env arg)

def beneficiaryError : Err → Err
  | .sql (.uniqueViolation c) =>
    if c = "beneficiaries_owner_destination_key" then .beneficiaryAlreadyExists
    else .sql (.uniqueViolation c)
  | e => e

def insertBeneficiary (env : Env) (arg : CreateBeneficiaryParams) : Query Beneficiary where
  waits := (createBeneficiary env arg).waits
  exec own db := ((createBeneficiary env arg).exec own db).mapError beneficiaryError

structure CreateBeneficiaryTxParams where
  owner : String
  destinationAccountNumber : String
  nickname : String

structure CreateBeneficiaryTxResult where
  beneficiary : Beneficiary
  destinationAccount : Account

def createBeneficiaryTx (env : Env) (arg : CreateBeneficiaryTxParams) :
    Tx CreateBeneficiaryTxResult :=
  execTx do
    let located ← fetch .accountNotFound (getAccountByAccountNumber arg.destinationAccountNumber)
    let account ← fetch .noRows (getAccountForUpdate located.id)
    refuse (account.status = .closed) .accountClosed
    let beneficiary ← call (insertBeneficiary env ⟨arg.owner, account.id, arg.nickname⟩)
    pure ⟨beneficiary, account⟩

end Monierave
