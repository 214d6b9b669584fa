import Monierave.Calendar.Rfc3339
import Monierave.Coding.Objects
import Monierave.Emails.Amounts
import Monierave.Emails.Store

/-! # Sending financial notifications

The payload that the store writes for a financial notification and the mailer that
reads it again: `financial_notification.go` on the one side and
`SendFinancialNotification` of `resend_mailer.go` on the other.
-/

namespace Monierave

open Coding

/-- The fields of a payload, which are those of the record that is written and of the record
that it is read into. The time is in nanoseconds. -/
structure FinancialPayload where
  eventID : String
  correlationID : String
  eventType : String
  reference : String
  amount : Int64
  currency : String
  direction : String
  occurredAt : Int
  accountStatus : String
  reason : String
  deriving DecidableEq

/-- The record that `createFinancialNotification` writes. -/
def FinancialNotificationPayload.record (p : FinancialNotificationPayload) : FinancialPayload where
  eventID := p.eventID.text
  correlationID := p.correlationID.text
  eventType := p.eventType
  reference := p.reference
  amount := p.amount
  currency := p.currency
  direction := p.direction.elim "" Direction.text
  occurredAt := 1000 * p.occurredAt
  accountStatus := p.accountStatus.elim "" FinancialAccountStatus.text
  reason := p.reason

/-- The zero `time.Time`, in nanoseconds. -/
def zeroInstant : Int := -62135596800000000000

def readTime (key : String) (o : Object) : Option Int :=
  match o.lookup key with
  | none | some .null => some zeroInstant
  | some (.string s) => Calendar.parse s.toList
  | some _ => none

namespace FinancialPayload

def fields (p : FinancialPayload) (occurredAt : List Char) : List (String × Option Value) :=
  [("event_id", some (.string p.eventID)),
    ("correlation_id", some (.string p.correlationID)),
    ("event_type", some (.string p.eventType)),
    ("reference", nonempty p.reference),
    ("amount", nonzero p.amount.toInt),
    ("currency", nonempty p.currency),
    ("direction", nonempty p.direction),
    ("occurred_at", some (.string (String.ofList occurredAt))),
    ("account_status", nonempty p.accountStatus),
    ("reason", nonempty p.reason)]

def marshal (p : FinancialPayload) : Option Object :=
  (Calendar.format p.occurredAt).map fun occurredAt => object (p.fields occurredAt)

def unmarshal (o : Object) : Option FinancialPayload := do
  let eventID ← readString "event_id" o
  let correlationID ← readString "correlation_id" o
  let eventType ← readString "event_type" o
  let reference ← readString "reference" o
  let amount ← readInt64 "amount" o
  let currency ← readString "currency" o
  let direction ← readString "direction" o
  let occurredAt ← readTime "occurred_at" o
  let accountStatus ← readString "account_status" o
  let reason ← readString "reason" o
  pure ⟨eventID, correlationID, eventType, reference, amount, currency, direction, occurredAt,
    accountStatus, reason⟩

theorem nodup_keys_fields (p : FinancialPayload) (occurredAt : List Char) :
    ((p.fields occurredAt).map Prod.fst).Nodup := by
  show ["event_id", "correlation_id", "event_type", "reference", "amount", "currency",
    "direction", "occurred_at", "account_status", "reason"].Nodup
  decide

theorem unmarshal_marshal {p : FinancialPayload} {written stored : Object}
    (hwritten : p.marshal = some written) (hstored : stored.Perm written) :
    unmarshal stored = some p := by
  obtain ⟨occurredAt, hformat, rfl⟩ := Option.map_eq_some_iff.mp hwritten
  have hfield : ∀ {key : String} {x : Option Value}, (key, x) ∈ p.fields occurredAt →
      stored.lookup key = x := lookup_of_perm_object (p.nodup_keys_fields occurredAt) hstored
  have hstring : ∀ key text, (key, some (.string text)) ∈ p.fields occurredAt →
      readString key stored = some text := fun _ _ h => readString_string (hfield h)
  have hnonempty : ∀ key text, (key, nonempty text) ∈ p.fields occurredAt →
      readString key stored = some text := fun _ _ h => readString_nonempty (hfield h)
  have hamount : readInt64 "amount" stored = some p.amount :=
    readInt64_nonzero (hfield (by simp [fields]))
  have htime : readTime "occurred_at" stored = some p.occurredAt := by
    have htext : stored.lookup "occurred_at" = some (.string (String.ofList occurredAt)) :=
      hfield (by simp [fields])
    simp only [readTime, htext, String.toList_ofList, Calendar.parse_format hformat]
  simp only [unmarshal, hamount, htime,
    hstring "event_id" p.eventID (by simp [fields]),
    hstring "correlation_id" p.correlationID (by simp [fields]),
    hstring "event_type" p.eventType (by simp [fields]),
    hnonempty "reference" p.reference (by simp [fields]),
    hnonempty "currency" p.currency (by simp [fields]),
    hnonempty "direction" p.direction (by simp [fields]),
    hnonempty "account_status" p.accountStatus (by simp [fields]),
    hnonempty "reason" p.reason (by simp [fields])]
  rfl

end FinancialPayload

def financialEventCopy (eventType : String) : Option (String × String) :=
  if eventType = "transaction.posted" then
    some ("Transaction posted", "a transaction was posted on your account.")
  else if eventType = "transaction.failed" then
    some ("Transaction failed", "a transaction could not be completed.")
  else if eventType = "transaction.reversed" then
    some ("Transaction reversed", "a transaction was reversed.")
  else if eventType = "account.frozen" then
    some ("Account frozen", "your account has been frozen.")
  else if eventType = "account.unfrozen" then
    some ("Account unfrozen", "your account has been unfrozen.")
  else if eventType = "account.closed" then
    some ("Account closed", "your account has been closed.")
  else none

structure FinancialTemplateData where
  username : String
  title : String
  summary : String
  reference : String
  amount : String
  direction : String
  occurredAt : String
  accountStatus : String
  reason : String

/-- What `html/template` puts for a character of a text. -/
def htmlEscapeChar (c : Char) : String :=
  if c = '\x00' then "\uFFFD"
  else if c = '\x22' then "&#34;"
  else if c = '&' then "&amp;"
  else if c = '\x27' then "&#39;"
  else if c = '+' then "&#43;"
  else if c = '<' then "&lt;"
  else if c = '>' then "&gt;"
  else c.toString

def htmlEscape (s : String) : String := String.join (s.toList.map htmlEscapeChar)

def ifPresent (s block : String) : String := if s = "" then "" else block

def financialHTMLRow (label style value : String) : String :=
  "<tr><td style=\"padding:8px 0;color:#5d655f;\">" ++ label ++
    "</td><td style=\"padding:8px 0;text-align:right;" ++ style ++ "\">" ++ htmlEscape value ++
    "</td></tr>"

def financialHTML (data : FinancialTemplateData) : String :=
  "<!doctype html>\n<html lang=\"en\">\n" ++
  "<body style=\"margin:0;background:#f4f1e8;color:#17211b;font-family:Georgia,serif;\">\n" ++
  "  <div style=\"max-width:600px;margin:0 auto;padding:40px 24px;\">\n" ++
  "    <div style=\"background:#fff;border:1px solid #d9d3c5;border-radius:16px;" ++
  "padding:36px;\">\n" ++
  "      <p style=\"margin:0 0 24px;color:#276749;font:700 13px/1.4 Arial,sans-serif;" ++
  "letter-spacing:0.12em;text-transform:uppercase;\">Monierave</p>\n" ++
  "      <h1 style=\"margin:0 0 16px;font-size:28px;line-height:1.2;\">" ++
  htmlEscape data.title ++ "</h1>\n" ++
  "      <p style=\"margin:0 0 24px;font-size:16px;line-height:1.7;\">Hello " ++
  htmlEscape data.username ++ ", " ++ htmlEscape data.summary ++ "</p>\n" ++
  "      <table role=\"presentation\" style=\"width:100%;border-collapse:collapse;" ++
  "font:14px/1.6 Arial,sans-serif;\">\n        " ++
  ifPresent data.reference (financialHTMLRow "Reference" "font-weight:700;" data.reference) ++
  "\n        " ++
  ifPresent data.amount (financialHTMLRow "Amount" "font-weight:700;" data.amount) ++
  "\n        " ++ ifPresent data.direction (financialHTMLRow "Direction" "" data.direction) ++
  "\n        " ++
  ifPresent data.accountStatus (financialHTMLRow "Account status" "" data.accountStatus) ++
  "\n        " ++ financialHTMLRow "Time" "" data.occurredAt ++ "\n      </table>\n      " ++
  ifPresent data.reason ("<p style=\"margin:24px 0 0;color:#5d655f;" ++
    "font:14px/1.6 Arial,sans-serif;\">Reason: " ++ htmlEscape data.reason ++ "</p>") ++
  "\n      <p style=\"margin:24px 0 0;color:#5d655f;font:14px/1.6 Arial,sans-serif;\">" ++
  "If you do not recognize this activity, contact support through the official Monierave " ++
  "application.</p>\n    </div>\n  </div>\n</body>\n</html>"

def financialText (data : FinancialTemplateData) : String :=
  data.title ++ "\n\nHello " ++ data.username ++ ", " ++ data.summary ++ "\n" ++
  ifPresent data.reference ("Reference: " ++ data.reference ++ "\n") ++
  ifPresent data.amount ("Amount: " ++ data.amount ++ "\n") ++
  ifPresent data.direction ("Direction: " ++ data.direction ++ "\n") ++
  ifPresent data.accountStatus ("Account status: " ++ data.accountStatus ++ "\n") ++
  "Time: " ++ data.occurredAt ++ "\n" ++
  ifPresent data.reason ("Reason: " ++ data.reason ++ "\n") ++
  "\nIf you do not recognize this activity, contact support through the official Monierave " ++
  "application.\n"

def renderFinancialEmail (data : FinancialTemplateData) : String × String :=
  (financialHTML data, financialText data)

/-- `time.RFC3339`, in whole seconds. -/
def rfc3339 (instant : Int) : String :=
  String.ofList ((Calendar.format (instant - instant % 1000000000)).getD [])

structure SendEmailRequest where
  sender : String
  recipients : List String
  subject : String
  html : String
  text : String
  tags : List (String × String)

/-- How the provider answers a request. -/
inductive ProviderAnswer
  | accepted (id : String)
  | noResponse
  | missingRequiredFields (cause : String)
  | failed (cause : String)

/-- The mailer with what it takes from outside: `mail.ParseAddress`, the quoted form of a
text and the provider, which gets a request with its idempotency key. -/
structure ResendMailer where
  sender : String
  parseAddress : String → Except String Unit
  quote : String → String
  sendWithOptions : SendEmailRequest → String → ProviderAnswer

structure FinancialNotificationEmail where
  jobID : String
  username : String
  recipient : String
  payload : Object

def newPermanentError (text : String) : SendError := ⟨true, text⟩

def isTransactionEvent (eventType : String) : Bool :=
  "transaction.".toList.isPrefixOf eventType.toList

def financialRequest (mailer : ResendMailer) (message : FinancialNotificationEmail)
    (payload : FinancialPayload) (title summary : String) : SendEmailRequest :=
  let bodies := renderFinancialEmail {
    username := message.username
    title := title
    summary := summary
    reference := payload.reference
    amount := formatFinancialAmount payload.amount payload.currency
    direction := payload.direction
    occurredAt := rfc3339 payload.occurredAt
    accountStatus := payload.accountStatus
    reason := payload.reason }
  { sender := mailer.sender
    recipients := [message.recipient]
    subject := "Monierave account activity: " ++ title
    html := bodies.1
    text := bodies.2
    tags := [
      ("category", payload.eventType.map fun c => if c = '.' then '_' else c),
      ("job_id", message.jobID),
      ("event_id", payload.eventID),
      ("correlation_id", payload.correlationID)] }

def ProviderAnswer.outcome : ProviderAnswer → Except SendError String
  | accepted id =>
    if id = "" then .error ⟨false, "Resend accepted email without returning a message ID"⟩
    else .ok id
  | noResponse => .error ⟨false, "Resend accepted email without returning a message ID"⟩
  | missingRequiredFields cause =>
    .error (newPermanentError ("Resend rejected email request: " ++ cause))
  | failed cause => .error ⟨false, "send financial notification with Resend: " ++ cause⟩

def ResendMailer.sendFinancialNotification (mailer : ResendMailer) (message : FinancialNotificationEmail) :
    Except SendError String := do
  match mailer.parseAddress message.recipient with
  | .error cause => throw (newPermanentError ("invalid recipient: " ++ cause))
  | .ok () => pure ()
  match FinancialPayload.unmarshal message.payload with
  | none => throw (newPermanentError "invalid financial notification payload")
  | some payload =>
    match financialEventCopy payload.eventType with
    | none => throw (newPermanentError
        ("unsupported financial event type " ++ mailer.quote payload.eventType))
    | some (title, summary) =>
      if payload.occurredAt = zeroInstant then
        throw (newPermanentError "financial notification occurred_at is required")
      if isTransactionEvent payload.eventType ∧ payload.reference = "" then
        throw (newPermanentError "financial transaction reference is required")
      (mailer.sendWithOptions (financialRequest mailer message payload title summary)
        ("financial-notification/" ++ message.jobID)).outcome

structure FinancialPayload.Sendable (p : FinancialPayload) : Prop where
  event : (financialEventCopy p.eventType).isSome = true
  occurredAt : p.occurredAt ≠ zeroInstant
  reference : isTransactionEvent p.eventType = true → p.reference ≠ ""

theorem FinancialPayload.Sendable.sendFinancialNotification (mailer : ResendMailer)
    (message : FinancialNotificationEmail) {p : FinancialPayload} (h : p.Sendable)
    (hrecipient : mailer.parseAddress message.recipient = .ok ())
    (hpayload : FinancialPayload.unmarshal message.payload = some p) :
    ∃ title summary, financialEventCopy p.eventType = some (title, summary) ∧
      mailer.sendFinancialNotification message =
        (mailer.sendWithOptions (financialRequest mailer message p title summary)
          ("financial-notification/" ++ message.jobID)).outcome := by
  obtain ⟨⟨title, summary⟩, hcopy⟩ := Option.isSome_iff_exists.mp h.event
  have hreference : ¬ (isTransactionEvent p.eventType = true ∧ p.reference = "") :=
    fun hboth => h.reference hboth.1 hboth.2
  refine ⟨title, summary, hcopy, ?_⟩
  simp only [ResendMailer.sendFinancialNotification, hrecipient, hpayload, hcopy,
    if_neg h.occurredAt, if_neg hreference]

end Monierave
