import Monierave.Queries.Ledger
import Monierave.Queries.Notifications

/-! # Audit rows and notifications of the banking operations

What every banking operation does besides moving money: it writes audit rows
and, for each customer concerned, an email job with its outbox event.
-/

namespace Monierave

open Relational ReadCommitted Prog

/-- `unicode.IsSpace`. -/
def isSpace (c : Char) : Bool :=
  let n := c.toNat
  (9 ≤ n && n ≤ 13) || (0x2000 ≤ n && n ≤ 0x200a) ||
    n ∈ [0x20, 0x85, 0xa0, 0x1680, 0x2028, 0x2029, 0x202f, 0x205f, 0x3000]

/-- `strings.TrimSpace`. -/
def trimSpace (s : String) : String :=
  String.ofList ((s.toList.dropWhile isSpace).reverse.dropWhile isSpace).reverse

def execTx {α : Type} (fn : Tx α) : Tx α := do
  let result ← fn
  call deferredTriggers
  pure result

def auditCorrelation (fresh : UUID) (value : Option UUID) : Option UUID := some (value.getD fresh)

structure FinancialAuditParams where
  entityType : EntityType
  entityID : Option UUID
  correlationID : Option UUID
  eventType : String
  actor : String
  fromState : String := ""
  toState : String := ""
  message : String := ""

def createFinancialAudit (env : Env) (arg : FinancialAuditParams) : Tx AuditLog :=
  call (createAuditLog env.now {
    entityType := arg.entityType
    entityID := arg.entityID
    correlationID := arg.correlationID
    eventType := arg.eventType
    actor := arg.actor
    fromState := textValue arg.fromState
    toState := textValue arg.toState
    message := textValue arg.message })

structure OperatorAuditParams where
  entityType : EntityType
  entityID : Option UUID
  correlationID : Option UUID
  eventType : String
  actor : String
  fromState : String := ""
  toState : String := ""
  reason : String

def createOperatorAudit (env : Env) (arg : OperatorAuditParams) : Tx AuditLog :=
  call (createAuditLog env.now {
    entityType := arg.entityType
    entityID := arg.entityID
    correlationID := arg.correlationID
    eventType := arg.eventType
    actor := trimSpace arg.actor
    fromState := textValue arg.fromState
    toState := textValue arg.toState
    message := some (trimSpace arg.reason) })

def domainEventTransactionPosted : String := "transaction.posted"
def domainEventTransactionFailed : String := "transaction.failed"
def domainEventTransactionReversed : String := "transaction.reversed"
def domainEventAccountFrozen : String := "account.frozen"
def domainEventAccountUnfrozen : String := "account.unfrozen"
def domainEventAccountClosed : String := "account.closed"

/-- The zero `time.Time`, 1 January of the year 1. -/
def zeroTime : Timestamp := -62135596800000000

structure FinancialNotificationParams where
  username : String
  eventType : String
  entityType : EntityType
  entityID : Option UUID
  correlationID : Option UUID
  reference : String := ""
  amount : Int64 := 0
  currency : String := ""
  direction : Option Direction := none
  occurredAt : Timestamp
  accountStatus : Option FinancialAccountStatus := none
  reason : String := ""

/-- The notification of one customer, with the `n`-th fresh UUID as its event id
and the next one as its job id. -/
def createFinancialNotification (env : Env) (n : Nat) (arg : FinancialNotificationParams) :
    Tx (EmailJob × OutboxEvent) := do
  let user ← fetch .noRows (getUser arg.username)
  let eventID := env.uuid n
  let jobID := env.uuid (n + 1)
  let job ← call (createEmailJob env.now {
    id := jobID
    username := user.username
    recipient := user.email
    payload := .financialNotification {
      eventID := eventID
      correlationID := arg.correlationID.getD 0
      eventType := arg.eventType
      reference := arg.reference
      amount := arg.amount
      currency := arg.currency
      direction := arg.direction
      occurredAt := if arg.occurredAt = zeroTime then env.clock else arg.occurredAt
      accountStatus := arg.accountStatus
      reason := arg.reason } })
  let event ← call (createOutboxEvent env.now {
    id := eventID
    emailJobID := jobID
    eventType := arg.eventType
    correlationID := arg.correlationID
    entityType := arg.entityType
    entityID := arg.entityID })
  pure (job, event)

end Monierave
