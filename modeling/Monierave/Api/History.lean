import Mathlib.Logic.Equiv.Nat
import Monierave.Api.Replies
import Monierave.Banking.Triggers
import Monierave.Coding.Base64
import Monierave.Queries.History
import Monierave.Relational.Pages

/-! # Account history and account statement

The handlers `listAccountTransactions` and `getAccountStatement`.
-/

namespace Monierave

open Relational Coding

structure Time where
  nanos : Int
  deriving DecidableEq

namespace Time

def timestamp (t : Time) : Timestamp := t.nanos / 1000

def ofTimestamp (t : Timestamp) : Time := ⟨t * 1000⟩

def zero : Time := ⟨-62135596800 * 10 ^ 9⟩

def addDay (t : Time) : Time := ⟨t.nanos + 86400 * 10 ^ 9⟩

def hasText (t : Time) : Bool :=
  decide (-62167219200 * 10 ^ 9 ≤ t.nanos) && decide (t.nanos < 253402300800 * 10 ^ 9)

@[simp] theorem timestamp_ofTimestamp (t : Timestamp) : (ofTimestamp t).timestamp = t := by
  simp [timestamp, ofTimestamp]

theorem timestamp_le {s t : Time} (h : s.nanos < t.nanos) : s.timestamp ≤ t.timestamp :=
  Int.ediv_le_ediv (by decide) h.le

end Time

/-- The library functions the handlers use: the parsers of UUIDs and of times, and the JSON
text of a cursor, in which a time has the offset of the server's zone. -/
structure HistoryLibrary where
  parseUUID : String → Option UUID
  parseDate : String → Option Time
  parseRFC3339 : String → Option Time
  marshal : Time → UUID → List UInt8
  unmarshal : List UInt8 → Option (Time × UUID)
  unmarshal_marshal : ∀ t id, t.hasText = true → unmarshal (marshal t id) = some (t, id)
  marshal_ne : ∀ t id, marshal t id ≠ []

section Cursors

variable (lib : HistoryLibrary)

def encodeTransactionCursor (createdAt : Time) (id : UUID) : Option String :=
  if createdAt.hasText then some (.ofList (Base64.encode (lib.marshal createdAt id))) else none

def decodeTransactionCursor (value : String) : Except ApiError (Option (Time × UUID)) :=
  if value = "" then .ok none
  else match (Base64.decode value.toList).bind lib.unmarshal with
  | none => .error .invalidCursor
  | some (createdAt, id) =>
    if createdAt = .zero ∨ id = 0 then .error .invalidCursor else .ok (some (createdAt, id))

def parseTransactionBoundary (value : String) (endOfDate : Bool) : Except ApiError (Option Time) :=
  if value = "" then .ok none
  else match lib.parseDate value with
  | some parsed => .ok (some (if endOfDate then parsed.addDay else parsed))
  | none =>
    match lib.parseRFC3339 value with
    | some parsed => .ok (some parsed)
    | none => .error .invalidDateRange

def parseTransactionDateRange (fromValue toValue : String) :
    Except ApiError (Option Time × Option Time) := do
  let fromTime ← parseTransactionBoundary lib fromValue false
  let toTime ← parseTransactionBoundary lib toValue true
  match fromTime, toTime with
  | some f, some t => if f.nanos < t.nanos then pure (fromTime, toTime) else .error .invalidDateRange
  | _, _ => pure (fromTime, toTime)

end Cursors

section Ranges

variable {lib : HistoryLibrary}

theorem parseTransactionBoundary_some {value : String} {endOfDate : Bool}
    {t : Time} (h : parseTransactionBoundary lib value endOfDate = .ok (some t)) : value ≠ "" := by
  rintro rfl
  cases h

theorem parseTransactionDateRange_some {fromValue toValue : String}
    {fromTime toTime : Time}
    (h : parseTransactionDateRange lib fromValue toValue = .ok (some fromTime, some toTime)) :
    parseTransactionBoundary lib fromValue false = .ok (some fromTime) ∧
      parseTransactionBoundary lib toValue true = .ok (some toTime) ∧
      fromTime.nanos < toTime.nanos := by
  unfold parseTransactionDateRange at h
  cases hfrom : parseTransactionBoundary lib fromValue false with
  | error e => simp [hfrom, bind, Except.bind] at h
  | ok f =>
    cases hto : parseTransactionBoundary lib toValue true with
    | error e => simp [hfrom, hto, bind, Except.bind] at h
    | ok t =>
      simp only [hfrom, hto, bind, Except.bind, pure, Except.pure] at h
      cases f with
      | none => cases h
      | some f =>
        cases t with
        | none => cases h
        | some t =>
          dsimp only at h
          split_ifs at h with hlt
          cases h
          exact ⟨rfl, rfl, hlt⟩

end Ranges

structure TransactionHistoryQuery where
  cursor : String
  pageSize : Int32
  fromValue : String
  toValue : String
  transactionType : String
  status : String
  direction : String
  deriving DecidableEq

def defaultTransactionPageSize : Int32 := 20

namespace TransactionHistoryQuery

def fieldMessage : String → String → String := BindingError.fieldMessage "transactionHistoryQuery"

/-- `omitempty,min=1,max=100` -/
def checkPageSize (value : Int32) : Option String :=
  if value = 0 then none
  else if value < 1 then some (fieldMessage "PageSize" "min")
  else if 100 < value then some (fieldMessage "PageSize" "max")
  else none

/-- `omitempty,oneof=..` -/
def checkOneOf (field : String) (values : List String) (value : String) : Option String :=
  if value = "" ∨ value ∈ values then none else some (fieldMessage field "oneof")

def validate (query : TransactionHistoryQuery) : Except BindingError TransactionHistoryQuery :=
  BindingError.validateRaw [checkPageSize query.pageSize,
    checkOneOf "Type" ["deposit", "withdrawal", "internal_transfer", "reversal"]
      query.transactionType,
    checkOneOf "Status" ["pending", "posted", "failed", "reversed"] query.status,
    checkOneOf "Direction" ["incoming", "outgoing"] query.direction] query

def withPageSize (query : TransactionHistoryQuery) : TransactionHistoryQuery :=
  if query.pageSize = 0 then { query with pageSize := defaultTransactionPageSize } else query

end TransactionHistoryQuery

def BankingTransactionType.text : BankingTransactionType → String
  | deposit => "deposit"
  | withdrawal => "withdrawal"
  | internalTransfer => "internal_transfer"
  | reversal => "reversal"

/-- The value that a text of the request stands for, and nothing for the empty text. The
texts have been checked to be among those of `values`. -/
def optionalText {α : Type} (values : List α) (text : α → String) (value : String) : Option α :=
  values.find? fun x => text x = value

def getOwnedAccountByPublicID (publicID : Option UUID) (owner : String) (db : DB) : Option Account :=
  (publicID.bind fun id => db.accounts.get (.publicID id)).filter fun a => a.owner = owner

section Handlers

variable {α : Type} (lib : HistoryLibrary) (username publicID : String)

def bindAccountPublicID : Except (Reply α) UUID :=
  if publicID = "" then .error (.errorResponse 400
    (.binding (BindingError.fieldMessage "accountURIRequest" "PublicID" "required")))
  else match lib.parseUUID publicID with
  | none => .error (.errorResponse 400 .invalidAccountID)
  | some id => .ok id

def historyParams (query : TransactionHistoryQuery) (accountPublicID : UUID)
    (range : Option Time × Option Time) (cursor : Option (Time × UUID)) :
    ListOwnedAccountTransactionsParams where
  accountPublicID := some accountPublicID
  username := username
  fromTime := range.1.map Time.timestamp
  toTime := range.2.map Time.timestamp
  transactionType := optionalText [.deposit, .withdrawal, .internalTransfer, .reversal]
    BankingTransactionType.text query.transactionType
  transactionStatus := optionalText [.pending, .posted, .failed, .reversed]
    BankingTransactionStatus.text query.status
  direction := optionalText [.incoming, .outgoing] Direction.text query.direction
  cursorCreatedAt := cursor.map fun c => c.1.timestamp
  cursorID := cursor.map Prod.snd
  pageLimit := (query.pageSize + 1).toNatClampNeg

/-- `query` is what the decoder makes of the query string. -/
def bindTransactionHistoryRequest (query : Except BindingError TransactionHistoryQuery) (db : DB) :
    Except (Reply α) (Account × TransactionHistoryQuery × ListOwnedAccountTransactionsParams) := do
  match query.bind TransactionHistoryQuery.validate with
  | .error e => .error e.reply
  | .ok query =>
    let query := query.withPageSize
    let id ← bindAccountPublicID lib publicID
    match parseTransactionDateRange lib query.fromValue query.toValue with
    | .error _ => .error (.errorResponse 400 .invalidDateRange)
    | .ok range =>
      match decodeTransactionCursor lib query.cursor with
      | .error _ => .error (.errorResponse 400 .invalidCursor)
      | .ok cursor =>
        match getOwnedAccountByPublicID (some id) username db with
        | none => .error (.errorResponse 404 .accountNotFound)
        | some account => .ok (account, query, historyParams username query id range cursor)

def transactionPage (rows : List ListOwnedAccountTransactionsRow) (pageSize : Int32) :
    Option (List ListOwnedAccountTransactionsRow × String) :=
  let hasNextPage := decide (pageSize.toNatClampNeg < rows.length)
  let shown := if hasNextPage then rows.take pageSize.toNatClampNeg else rows
  if !hasNextPage then some (shown, "")
  else match shown.getLast? with
  | none => some (shown, "")
  | some last =>
    (encodeTransactionCursor lib (.ofTimestamp last.createdAt) last.id).map fun c => (shown, c)

structure HistoryPage where
  account : Account
  rows : List ListOwnedAccountTransactionsRow
  nextCursor : String

def historyPage (query : Except BindingError TransactionHistoryQuery) (db : DB) :
    Except (Reply α) HistoryPage := do
  let (account, query, params) ← bindTransactionHistoryRequest lib username publicID query db
  match listOwnedAccountTransactions params db with
  | .error _ => .error (.errorResponse 500 .internalServer)
  | .ok rows =>
    match transactionPage lib rows query.pageSize with
    | none => .error (.errorResponse 500 .internalServer)
    | some (shown, nextCursor) => .ok ⟨account, shown, nextCursor⟩

structure StatementPage extends HistoryPage where
  fromTime : Option Timestamp
  toTime : Option Timestamp
  openingBalance : Int64
  closingBalance : Int64

def statementPage (query : Except BindingError TransactionHistoryQuery) (db : DB) :
    Except (Reply α) StatementPage := do
  let (account, query, params) ← bindTransactionHistoryRequest lib username publicID query db
  match listOwnedAccountTransactions params db with
  | .error _ => .error (.errorResponse 500 .internalServer)
  | .ok rows =>
    match getOwnedAccountStatementBalances params.fromTime params.toTime params.accountPublicID
        params.username db with
    | .error _ => .error (.errorResponse 500 .internalServer)
    | .ok balances =>
      match transactionPage lib rows query.pageSize with
      | none => .error (.errorResponse 500 .internalServer)
      | some (shown, nextCursor) => .ok {
          account := account
          rows := shown
          nextCursor := nextCursor
          fromTime := params.fromTime
          toTime := params.toTime
          openingBalance := balances.openingBalance
          closingBalance := balances.closingBalance }

end Handlers

structure TransactionResponse where
  id : String
  reference : String
  accountID : String
  transactionType : String
  status : String
  currency : String
  amount : Int64
  direction : String
  narration : String
  counterpartyType : String
  counterparty : String
  balanceAfter : Int64
  createdAt : Timestamp
  postedAt : Option Timestamp
  deriving DecidableEq

def publicCounterpartyType : Option Books.CounterpartyKind → String
  | none => ""
  | some .customer => "customer"
  | some .settlement => "system"

def transactionResponseFromList (accountPublicID : UUID) (row : ListOwnedAccountTransactionsRow) :
    TransactionResponse where
  id := row.id.text
  reference := row.reference
  accountID := accountPublicID.text
  transactionType := row.transactionType.text
  status := row.status.text
  currency := row.currency
  amount := row.amount
  direction := row.direction.text
  narration := row.narration
  counterpartyType := publicCounterpartyType row.counterpartyKind
  counterparty := row.counterparty
  balanceAfter := row.balanceAfter
  createdAt := row.createdAt
  postedAt := row.postedAt

def HistoryPage.transactions (page : HistoryPage) : List TransactionResponse :=
  page.rows.map (transactionResponseFromList page.account.publicID)

structure TransactionHistoryResponse where
  transactions : List TransactionResponse
  nextCursor : String
  deriving DecidableEq

structure AccountStatementResponse where
  accountID : String
  currency : String
  fromTime : Option Timestamp
  toTime : Option Timestamp
  openingBalance : Int64
  closingBalance : Int64
  transactions : List TransactionResponse
  nextCursor : String
  deriving DecidableEq

def listAccountTransactions (lib : HistoryLibrary) (username publicID : String)
    (query : Except BindingError TransactionHistoryQuery) (db : DB) :
    Reply TransactionHistoryResponse :=
  match historyPage lib username publicID query db with
  | .error reply => reply
  | .ok page => .success 200 ⟨page.transactions, page.nextCursor⟩

def getAccountStatement (lib : HistoryLibrary) (username publicID : String)
    (query : Except BindingError TransactionHistoryQuery) (db : DB) :
    Reply AccountStatementResponse :=
  match statementPage lib username publicID query db with
  | .error reply => reply
  | .ok page => .success 200 {
      accountID := page.account.publicID.text
      currency := page.account.currency
      fromTime := page.fromTime
      toTime := page.toTime
      openingBalance := page.openingBalance
      closingBalance := page.closingBalance
      transactions := page.transactions
      nextCursor := page.nextCursor }

end Monierave
