import Monierave.Banking.Books
import Monierave.Banking.Notices

/-! # What one committed transaction records

A bookkeeping step together with the word it leaves: the audit rows that explain
what became of a banking transaction, and the notifications of the customers whose
accounts it moved money on.
-/

namespace Monierave

open Relational

def AuditLog.Explains (a : AuditLog) (t : BankingTransaction) : Prop :=
  a.entityType = .bankingTransaction ∧ a.entityID = t.id ∧ a.toState = some t.status.text

instance (a : AuditLog) (t : BankingTransaction) : Decidable (a.Explains t) :=
  inferInstanceAs (Decidable (_ ∧ _ ∧ _))

def announcesMovement (eventType : String) : Bool :=
  eventType == domainEventTransactionPosted || eventType == domainEventTransactionReversed

def EmailJob.announcesMovement (j : EmailJob) : Bool :=
  match j.payload with
  | .financialNotification n => Monierave.announcesMovement n.eventType
  | .verifyEmail => false

def OutboxEvent.announcesMovement (e : OutboxEvent) : Bool :=
  Monierave.announcesMovement e.eventType

def Move.direction (m : Move) : Direction := if m.2 < 0 then .outgoing else .incoming

variable {accountID amount : Int64}

theorem direction_of_pos (h : 0 < amount) :
    Move.direction (accountID, amount) = .incoming :=
  if_neg (Int64.lt_asymm h)

theorem direction_of_neg (h : 0 < amount) : Move.direction (accountID, -amount) = .outgoing := by
  apply if_pos
  have hpos : (0 : Int) < amount.toInt := by simpa using Int64.lt_iff_toInt_lt.mp h
  rw [Int64.lt_iff_toInt_lt, toInt_neg_of_lt (by omega)]
  simpa using hpos

/-- The owner of the account of `m` is told of the transaction `t`. The notification
of a reversal is about the transaction that is reversed. -/
structure Told (db : DB) (t about : BankingTransaction) (eventType : String) (m : Move)
    (job : EmailJob) (event : OutboxEvent) : Prop where
  owner : ∃ a u, db.accounts.get (.id m.1) = some a ∧ db.users.get (.username a.owner) = some u ∧
    job.username = u.username ∧ job.recipient = u.email
  payload : ∃ n, job.payload = .financialNotification n ∧ n.eventID = event.id ∧
    n.eventType = event.eventType ∧ n.reference = about.reference ∧ n.amount = t.amount ∧
    n.currency = t.currency ∧ n.direction = some m.direction
  jobID : event.emailJobID = job.id
  eventType : event.eventType = eventType
  entity : event.entityType = .bankingTransaction ∧ event.entityID = about.id

theorem told_notification {db : DB} {t about : BankingTransaction} {m : Move} {env : Env} {n : Nat}
    {arg : FinancialNotificationParams} {a : Account} {user : User}
    (ha : db.accounts.get (.id m.1) = some a) (hname : arg.username = a.owner)
    (huser : db.users.get (.username arg.username) = some user)
    (hentity : arg.entityType = .bankingTransaction) (hid : arg.entityID = some about.id)
    (href : arg.reference = about.reference) (hamount : arg.amount = t.amount)
    (hcurrency : arg.currency = t.currency) (hdir : arg.direction = some m.direction) :
    Told db t about arg.eventType m (notificationJob env n arg user)
      (notificationEvent env n arg) where
  owner := ⟨a, user, ha, hname ▸ huser, rfl, rfl⟩
  payload := ⟨_, rfl, rfl, rfl, href, hamount, hcurrency, hdir⟩
  jobID := rfl
  eventType := rfl
  entity := ⟨hentity, by simp [notificationEvent, newOutboxEvent, hid]⟩

def Announces (db : DB) (t about : BankingTransaction) (eventType : String) (ms : List Move)
    (ns : Notices) : Prop :=
  ∃ mails : List (Move × EmailJob × OutboxEvent), (mails.map (·.1)).Perm ms ∧
    ns.jobs = mails.map (·.2.1) ∧ ns.events = mails.map (·.2.2) ∧
      ∀ x ∈ mails, Told db t about eventType x.1 x.2.1 x.2.2

/-- The transaction `t` is booked. What is recorded is about `about`: the transaction
itself, or the one it reverses. -/
structure Records (db : DB) (t about : BankingTransaction) (eventType : String)
    (ps : List LedgerPosting) (ns : Notices) (db' : DB) : Prop where
  booking : db.Booking t ps db'.toBooks
  nonzero : ∀ p ∈ ps, p.amount ≠ 0
  noted : db.Noted ns db'
  row : db'.bankingTransactions.get (.id about.id) = some about
  explained : ∃ a ∈ ns.audits, a.Explains about
  history : ∀ a ∈ ns.audits, a.entityType = .bankingTransaction → a.entityID = about.id
  announces : Announces db t about eventType (db.moves ps) ns

/-- Notices of something else than a movement of money. Those of the audit rows that
are about a banking transaction are `stray`. -/
structure Notices.Apart (stray : AuditLog → Prop) (ns : Notices) : Prop where
  history : ∀ a ∈ ns.audits, a.entityType = .bankingTransaction → stray a
  jobs : ∀ j ∈ ns.jobs, j.announcesMovement = false
  events : ∀ e ∈ ns.events, e.announcesMovement = false

/-- What one committed transaction does to the books and records. -/
inductive Entry (stray : AuditLog → Prop) (db db' : DB) : Prop
  | unmoved {ns : Notices} (step : db.Step db'.toBooks)
      (transactions : db'.bankingTransactions = db.bankingTransactions)
      (noted : db.Noted ns db') (apart : ns.Apart stray)
  | settlement {t : BankingTransaction} {ps : List LedgerPosting} {ns : Notices}
      (kind : db.Settles t ps db'.toBooks)
      (records : Records db t t domainEventTransactionPosted ps ns db')
  | transfer {t : BankingTransaction} {sender recipient : LedgerAccount}
      {ps : List LedgerPosting} {ns : Notices} (kind : db.Transfers t sender recipient ps db'.toBooks)
      (records : Records db t t domainEventTransactionPosted ps ns db')
  | reversal {t original : BankingTransaction} {ps : List LedgerPosting} {ns : Notices}
      {time : Timestamp} (kind : db.Reverses t original ps db'.toBooks)
      (records : Records db t (original.asReversed time) domainEventTransactionReversed ps ns db')

namespace Notices

variable {stray : AuditLog → Prop} {ns ns' : Notices}

variable {env : Env} {n : Nat} {arg : FinancialNotificationParams} {user : User}

theorem apart_none : ({} : Notices).Apart stray := ⟨by simp, by simp, by simp⟩

theorem Apart.append (h : ns.Apart stray) (h' : ns'.Apart stray) : (ns ++ ns').Apart stray where
  history a ha := (List.mem_append.mp ha).elim (h.history a) (h'.history a)
  jobs j hj := (List.mem_append.mp hj).elim (h.jobs j) (h'.jobs j)
  events e he := (List.mem_append.mp he).elim (h.events e) (h'.events e)

theorem apart_audit {a : AuditLog} (h : a.entityType = .bankingTransaction → stray a) :
    ({ audits := [a] } : Notices).Apart stray :=
  ⟨by simpa using h, by simp, by simp⟩

theorem audits_notification :
    ∀ a ∈ (notificationNotices env n arg user).audits, a.entityType ≠ .bankingTransaction := by
  simp [notificationNotices, auditEmailJobInsert, auditOutboxEventInsert]

theorem apart_notification (h : announcesMovement arg.eventType = false) :
    (notificationNotices env n arg user).Apart stray where
  history a ha htype := absurd htype (audits_notification a ha)
  jobs := by simpa [notificationNotices, notificationJob, newEmailJob,
    EmailJob.announcesMovement] using h
  events := by simpa [notificationNotices, notificationEvent, newOutboxEvent,
    OutboxEvent.announcesMovement] using h

end Notices

section Quiet

/-! A beginning that neither touches the books nor adds a notice does not count. -/

variable {db db' db'' : DB} {t about : BankingTransaction} {eventType : String}
  {ps : List LedgerPosting} {ns : Notices} (hbooks : db'.toBooks = db.toBooks)
  (hn : db.Noted {} db')

include hbooks hn

theorem Records.of_quiet (h : Records db' t about eventType ps ns db'') :
    Records db t about eventType ps ns db'' where
  booking := hbooks ▸ h.booking
  nonzero := h.nonzero
  noted := hn.silently h.noted
  row := h.row
  explained := h.explained
  history := h.history
  announces := by
    obtain ⟨mails, hperm, hjobs, hevents, htold⟩ := h.announces
    rw [hbooks] at hperm
    refine ⟨mails, hperm, hjobs, hevents, ?_⟩
    intro x hx
    obtain ⟨howner, hpayload, hjob, htype, hentity⟩ := htold x hx
    rw [hbooks, hn.users] at howner
    exact ⟨howner, hpayload, hjob, htype, hentity⟩

theorem Entry.of_quiet {stray : AuditLog → Prop} (h : Entry stray db' db'') :
    Entry stray db db'' := by
  cases h with
  | unmoved step transactions noted apart =>
    exact .unmoved (hbooks ▸ step) (transactions.trans (by rw [hbooks])) (hn.silently noted)
      apart
  | settlement kind records => exact .settlement (hbooks ▸ kind) (records.of_quiet hbooks hn)
  | transfer kind records => exact .transfer (hbooks ▸ kind) (records.of_quiet hbooks hn)
  | reversal kind records => exact .reversal (hbooks ▸ kind) (records.of_quiet hbooks hn)

end Quiet

namespace Entry

variable {db db' : DB} {stray stray' : AuditLog → Prop}

theorem mono (h : Entry stray db db') (hstray : ∀ a, stray a → stray' a) :
    Entry stray' db db' := by
  cases h with
  | unmoved step transactions noted apart =>
    exact .unmoved step transactions noted
      { apart with history := fun a ha htype => hstray a (apart.history a ha htype) }
  | settlement kind records => exact .settlement kind records
  | transfer kind records => exact .transfer kind records
  | reversal kind records => exact .reversal kind records

theorem step (h : Entry stray db db') : db.Step db'.toBooks := by
  cases h with
  | unmoved step _ _ _ => exact step
  | settlement kind records => exact .books records.booking (.settlement kind)
  | transfer kind records => exact .books records.booking (.transfer kind)
  | reversal kind records => exact .books records.booking (.reversal kind)

end Entry

end Monierave
