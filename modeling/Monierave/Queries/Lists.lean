import Mathlib.Data.Prod.Lex
import Monierave.Queries.Accounts
import Monierave.Relational.Pages

/-! # Queries on a user's accounts and beneficiaries

The statements `ListAccount` and `ListOwnedBeneficiaries`, which take a page of their
ordered rows by its position.
-/

namespace Monierave

open Relational

/-- `LIMIT` and `OFFSET`, which a statement refuses if they are negative. -/
def limitOffset {R : Type} (limit offset : Int32) (rows : List R) : Except SqlError (List R) :=
  if offset < 0 then .error (.raised "OFFSET must not be negative")
  else if limit < 0 then .error (.raised "LIMIT must not be negative")
  else .ok ((rows.drop offset.toNatClampNeg).take limit.toNatClampNeg)

structure ListAccountParams where
  owner : String
  limit : Int32
  offset : Int32

def Account.listKey (a : Account) : Int ×ₗ Int := toLex (a.createdAt, a.id.toInt)

def DB.ownedAccounts (db : DB) (owner : String) : List Account :=
  orderBy Account.listKey (db.accounts.rows.filter fun a => a.owner = owner)

def listAccount (arg : ListAccountParams) (db : DB) : Except SqlError (List Account) :=
  limitOffset arg.limit arg.offset (db.ownedAccounts arg.owner)

structure ListOwnedBeneficiariesParams where
  owner : String
  limit : Int32
  offset : Int32

structure ListOwnedBeneficiariesRow where
  id : UUID
  nickname : String
  destinationAccountNumber : String
  currency : String
  destinationAccountStatus : FinancialAccountStatus
  createdAt : Timestamp
  updatedAt : Timestamp
  deriving DecidableEq

namespace ListOwnedBeneficiariesRow

def key (r : ListOwnedBeneficiariesRow) : Int ×ₗ Nat := toLex (r.createdAt, r.id.toNat)

def ofBeneficiary (db : DB) (b : Beneficiary) : Option ListOwnedBeneficiariesRow :=
  (db.accounts.get (.id b.destinationAccountID)).map fun a =>
    { id := b.id
      nickname := b.nickname
      destinationAccountNumber := a.accountNumber
      currency := a.currency
      destinationAccountStatus := a.status
      createdAt := b.createdAt
      updatedAt := b.updatedAt }

end ListOwnedBeneficiariesRow

def DB.ownedBeneficiaries (db : DB) (owner : String) : List ListOwnedBeneficiariesRow :=
  orderByDesc ListOwnedBeneficiariesRow.key
    ((db.beneficiaries.rows.filter fun b => b.owner = owner).filterMap
      (ListOwnedBeneficiariesRow.ofBeneficiary db))

def listOwnedBeneficiaries (arg : ListOwnedBeneficiariesParams) (db : DB) :
    Except SqlError (List ListOwnedBeneficiariesRow) :=
  limitOffset arg.limit arg.offset (db.ownedBeneficiaries arg.owner)

end Monierave
