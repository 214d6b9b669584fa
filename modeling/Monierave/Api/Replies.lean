import Monierave.Schema.Statements

/-! # Replies of the HTTP handlers

Status, error code and message of a reply.
-/

namespace Monierave

/-- The errors of the handlers. -/
inductive ApiError
  | internalServer
  | accountNotFound
  | invalidAccountID
  | recipientNotFound
  | accountFrozen
  | accountClosed
  | currencyMismatch
  | insufficientBalance
  | sameAccount
  | transferFailed
  | idempotencyKeyRequired
  | invalidIdempotencyKey
  | idempotencyConflict
  | perTransferLimitExceeded
  | dailyTransferLimitExceeded
  | requestBodyTooLarge
  | invalidCursor
  | invalidDateRange
  | binding (message : String)
  deriving DecidableEq

namespace ApiError

def text : ApiError → String
  | internalServer => "internal server error"
  | accountNotFound => "account not found"
  | invalidAccountID => "invalid account ID"
  | recipientNotFound => "recipient not found"
  | accountFrozen => "source account is frozen"
  | accountClosed => "closed accounts cannot transact"
  | currencyMismatch => "account currency mismatch"
  | insufficientBalance => "insufficient balance"
  | sameAccount => "source and destination accounts must differ"
  | transferFailed => "transfer failed"
  | idempotencyKeyRequired => "Idempotency-Key header is required"
  | invalidIdempotencyKey =>
    "Idempotency-Key must be 1-128 characters using letters, numbers, '.', '_', ':', or '-'"
  | idempotencyConflict => "Idempotency-Key was already used with a different request"
  | perTransferLimitExceeded => "per-transfer limit exceeded"
  | dailyTransferLimitExceeded => "daily transfer limit exceeded"
  | requestBodyTooLarge => "request body exceeds 64 KiB"
  | invalidCursor => "invalid transaction cursor"
  | invalidDateRange => "invalid date range"
  | binding message => message

def isCodeChar (c : Char) : Bool := ('a' ≤ c && c ≤ 'z') || ('0' ≤ c && c ≤ '9')

/-- The code of an error that is not given one: the words of its message, in lower case
and joined by underscores. -/
def stableErrorCode (e : ApiError) : String :=
  if e = internalServer then "internal_error"
  else
    let words := (((Unicode.lower e.text).toList.splitOnP fun c => !isCodeChar c).filter
      (· ≠ [])).map String.ofList
    let value := "_".intercalate words
    if value = "" ∨ 64 < value.utf8ByteSize then "request_failed" else value

end ApiError

/-- A reply with a body, or with an error. -/
inductive Reply (α : Type)
  | success (status : Nat) (body : α)
  | failure (status : Nat) (code message : String)

namespace Reply

variable {α : Type}

def status : Reply α → Nat
  | success status _ => status
  | failure status _ _ => status

def code : Reply α → Option String
  | success _ _ => none
  | failure _ code _ => some code

def codedErrorResponse (status : Nat) (code : String) (e : ApiError) : Reply α :=
  failure status code e.text

def errorResponse (status : Nat) (e : ApiError) : Reply α :=
  codedErrorResponse status e.stableErrorCode e

def recipientNotFound : Reply α := codedErrorResponse 404 "recipient_not_found" .recipientNotFound

end Reply

/-- Why a request body was not accepted. -/
inductive BindingError
  | tooLarge
  | malformed (message : String)
  | invalid (messages : List String)

namespace BindingError

def reply {α : Type} : BindingError → Reply α
  | tooLarge => .codedErrorResponse 413 "request_body_too_large" .requestBodyTooLarge
  | malformed message => .errorResponse 400 (.binding message)
  | invalid messages => .errorResponse 400 (.binding (", ".intercalate messages))

def validate {ρ : Type} (complaints : List (Option String)) (req : ρ) : Except BindingError ρ :=
  match complaints.filterMap id with
  | [] => .ok req
  | messages => .error (.invalid messages)

def fieldMessage (record field tag : String) : String :=
  "Key: '" ++ record ++ "." ++ field ++ "' Error:Field validation for '" ++ field ++
    "' failed on the '" ++ tag ++ "' tag"

/-- The request, if none of the checks of its fields has a complaint. The complaints are
passed on as they are, one a line. -/
def validateRaw {ρ : Type} (complaints : List (Option String)) (req : ρ) : Except BindingError ρ :=
  match complaints.filterMap id with
  | [] => .ok req
  | messages => .error (.malformed ("\n".intercalate messages))

theorem validateRaw_ok {ρ : Type} {complaints : List (Option String)} {req req' : ρ} :
    validateRaw complaints req = .ok req' ↔ req' = req ∧ ∀ c ∈ complaints, c = none := by
  have hnone : complaints.filterMap id = [] ↔ ∀ c ∈ complaints, c = none :=
    List.filterMap_eq_nil_iff
  rw [← hnone, validateRaw]
  constructor
  · intro h
    split at h
    · next hnil =>
      cases h
      exact ⟨rfl, hnil⟩
    · cases h
  · rintro ⟨rfl, hnil⟩
    rw [hnil]

end BindingError

def isSupportedCurrency (currency : String) : Bool := currency == "USD" || currency == "EUR"

namespace Field

def required (field value : String) : Option String :=
  if value = "" then some (field ++ " is required") else none

/-- `required,gt=0` -/
def positive (field : String) (value : Int64) : Option String :=
  if value = 0 then some (field ++ " is required")
  else if value < 0 then some (field ++ " must be greater than 0")
  else none

/-- `required,currency` -/
def currency (field value : String) : Option String :=
  if value = "" then some (field ++ " is required")
  else if isSupportedCurrency value then none
  else some (field ++ " is not a supported currency")

/-- `omitempty,max=n` -/
def atMost (field : String) (n : Nat) (value : String) : Option String :=
  if n < value.length then some (field ++ " must be at most " ++ toString n) else none

end Field

end Monierave
