import Monierave.Api.Replies
import Monierave.Banking.Retries
import Monierave.ReadCommitted.Alone

/-! # Transfer requests

The handler `createTransfer`, and what its replies tell about accounts of other
users.
-/

namespace Monierave

open Relational ReadCommitted Prog

structure TransferRequest where
  fromAccountID : String
  toAccountNumber : String
  amount : Int64
  currency : String
  narration : String

def TransferRequest.validate (req : TransferRequest) : Except BindingError TransferRequest :=
  BindingError.validate [Field.required "from account i d" req.fromAccountID,
    Field.required "to account number" req.toAccountNumber, Field.positive "amount" req.amount,
    Field.currency "currency" req.currency, Field.atMost "narration" 255 req.narration] req

structure NormalizedTransfer where
  fromAccountID : String
  toAccountNumber : String
  amount : Int64
  currency : String
  narration : String

/-- The library functions the handler uses: the parser of UUIDs, and the SHA-256 hash of
the JSON text of a request. -/
structure TransferLibrary where
  parseUUID : String → Option UUID
  hash : NormalizedTransfer → Bytes
  hash_length : ∀ x, (hash x).length = 32

/-- `^[A-Za-z0-9][A-Za-z0-9._:-]{0,127}$` -/
def isIdempotencyKey (key : String) : Bool :=
  match key.toList with
  | [] => false
  | c :: cs => c.isAlphanum && decide (cs.length ≤ 127) &&
      cs.all fun c => c.isAlphanum || c == '.' || c == '_' || c == ':' || c == '-'

section Handler

variable (lib : TransferLibrary) (username : String) (correlationID : UUID)

def hashTransferRequest (req : TransferRequest) (fromPublicID : UUID) (toAccountNumber : String) :
    Bytes :=
  lib.hash {
    fromAccountID := fromPublicID.text
    toAccountNumber := toAccountNumber
    amount := req.amount
    currency := req.currency
    narration := trimSpace req.narration }

/-- The call of the store a request leads to, or the reply to a request that is not
accepted. `body` is what the JSON decoder makes of the body. -/
def transferParams (key : String) (body : Except BindingError TransferRequest) :
    Except (Reply Response) IdempotentTransferTxParams :=
  if key = "" then .error (.errorResponse 400 .idempotencyKeyRequired)
  else if !isIdempotencyKey key then .error (.errorResponse 400 .invalidIdempotencyKey)
  else match body.bind TransferRequest.validate with
  | .error e => .error e.reply
  | .ok req =>
    match lib.parseUUID req.fromAccountID with
    | none => .error (.errorResponse 400 .invalidAccountID)
    | some fromPublicID =>
      let toAccountNumber := trimSpace req.toAccountNumber
      if !isAccountNumber toAccountNumber then .error .recipientNotFound
      else .ok {
        fromAccountPublicID := some fromPublicID
        toAccountNumber := toAccountNumber
        amount := req.amount
        currency := req.currency
        username := username
        narration := trimSpace req.narration
        correlationID := some correlationID
        idempotencyKey := key
        requestHash := hashTransferRequest lib req fromPublicID toAccountNumber }

def transferErrors : List Err :=
  [.idempotencyConflict, .accountNotFound, .accountNotOwned, .recipientNotFound,
   .insufficientBalance, .currencyMismatch, .sameAccount, .accountFrozen, .accountClosed,
   .perTransferLimitExceeded, .dailyTransferLimitExceeded]

def accountNotFoundReply : Reply Response :=
  .codedErrorResponse 404 "account_not_found" .accountNotFound

/-- The reply to the outcome of `IdempotentTransferTx`. -/
def transferReply : Except Err Response → Reply Response
  | .ok result => .success 201 result
  | .error e =>
    if e.is .idempotencyConflict then
      .codedErrorResponse 409 "idempotency_conflict" .idempotencyConflict
    else if e.is .accountNotFound || e.is .accountNotOwned then accountNotFoundReply
    else if e.is .recipientNotFound then .recipientNotFound
    else if e.is .insufficientBalance then
      .codedErrorResponse 400 "insufficient_funds" .insufficientBalance
    else if e.is .currencyMismatch then
      .codedErrorResponse 400 "currency_mismatch" .currencyMismatch
    else if e.is .sameAccount then .codedErrorResponse 400 "same_account" .sameAccount
    else if e.is .accountFrozen then .codedErrorResponse 409 "account_frozen" .accountFrozen
    else if e.is .accountClosed then .codedErrorResponse 409 "account_closed" .accountClosed
    else if e.is .perTransferLimitExceeded then
      .codedErrorResponse 409 "per_transfer_limit_exceeded" .perTransferLimitExceeded
    else if e.is .dailyTransferLimitExceeded then
      .codedErrorResponse 409 "daily_transfer_limit_exceeded" .dailyTransferLimitExceeded
    else .errorResponse 500 .transferFailed

/-- The reply to a transfer request on the given tables. `env` and `auditEnv` belong to
the transaction of the transfer and to the one that records a failure. -/
def createTransfer (key : String) (body : Except BindingError TransferRequest) (env auditEnv : Env)
    (db : DB) : Reply Response :=
  match transferParams lib username correlationID key body with
  | .error reply => reply
  | .ok arg => transferReply
      ((BankingOp.idempotentTransferTx arg correlationID env auditEnv).job.serve BankingTx.body db).1

end Handler

structure AcceptedTransfer (lib : TransferLibrary) where
  username : String
  correlationID : UUID
  key : String
  req : TransferRequest
  fromPublicID : UUID
  key_ok : isIdempotencyKey key = true
  valid : req.validate = .ok req
  parsed : lib.parseUUID req.fromAccountID = some fromPublicID
  number_ok : isAccountNumber (trimSpace req.toAccountNumber) = true

namespace AcceptedTransfer

variable {lib : TransferLibrary} (r : AcceptedTransfer lib)

def arg : IdempotentTransferTxParams where
  fromAccountPublicID := some r.fromPublicID
  toAccountNumber := trimSpace r.req.toAccountNumber
  amount := r.req.amount
  currency := r.req.currency
  username := r.username
  narration := trimSpace r.req.narration
  correlationID := some r.correlationID
  idempotencyKey := r.key
  requestHash := hashTransferRequest lib r.req r.fromPublicID (trimSpace r.req.toAccountNumber)

theorem key_ne : r.key ≠ "" := by
  intro hempty
  have hkey := r.key_ok
  rw [hempty] at hkey
  cases hkey

end AcceptedTransfer

variable {lib : TransferLibrary} {username key : String} {correlationID : UUID}
    {body : Except BindingError TransferRequest} {arg : IdempotentTransferTxParams} {e : Err}
    {req : TransferRequest}

theorem createTransfer_run {env auditEnv : Env} {db : DB}
    (h : transferParams lib username correlationID key body = .ok arg) :
    ∃ acts x, (∀ act ∈ acts, act = .exec 0 ∨ act = .commit 0) ∧
      (bankingSystem.run (State.init db)
        (.start 0 (.idempotentTransferTx arg correlationID env auditEnv) :: acts)).workers 0 =
          .finished (.idempotentTransferTx arg correlationID env auditEnv) x ∧
      createTransfer lib username correlationID key body env auditEnv db = transferReply x := by
  let s := bankingSystem.step (State.init db)
    (.start 0 (.idempotentTransferTx arg correlationID env auditEnv))
  have hw : s.workers 0 = bankingSystem.enter (.idempotentTransferTx arg correlationID env auditEnv)
      (BankingOp.idempotentTransferTx arg correlationID env auditEnv).job := by
    simp [s, System.step, State.init, State.setWorker, bankingSystem]
  obtain ⟨acts, hacts, hfinished, _⟩ := bankingSystem.run_serve hw fun _ => rfl
  refine ⟨acts, _, hacts, hfinished, ?_⟩
  rw [createTransfer, h]
  rfl

def Err.Unlisted (e : Err) : Prop := ∀ t ∈ transferErrors, e.is t = false

theorem unlisted_sql (e : SqlError) : (Err.sql e).Unlisted := by
  simp [Err.Unlisted, transferErrors, Err.is]

theorem unlisted_noRows : Err.noRows.Unlisted := by
  simp [Err.Unlisted, transferErrors, Err.is]

section Raises

variable {R κ : Type} [Keyed R κ] [DecidableEq κ] {own : List Write} {db : DB} {e : Err}

theorem insertRow_error {table : DB → Table R} {constraint : κ → String}
    {violated orphaned : DB → Option SqlError} {write : R → Write} {r : R}
    (h : (insertRow table constraint violated orphaned write r).exec own db = .error e) :
    ∃ e', e = .sql e' := by
  simp only [insertRow] at h
  split at h <;> simp_all [eq_comm]

theorem audited_error {q : Query R} {audit : R → AuditLog}
    (h : (audited q audit).exec own db = .error e) : q.exec own db = .error e := by
  simp only [audited] at h
  split at h <;> simp_all

theorem createAuditLog_error {now : Timestamp} {arg : CreateAuditLogParams}
    (h : (createAuditLog now arg).exec own db = .error e) : ∃ e', e = .sql e' := by
  simp only [createAuditLog] at h
  split at h <;> simp_all [eq_comm]

theorem deferredTriggers_error (h : deferredTriggers.exec own db = .error e) :
    ∃ e', e = .sql e' := by
  simp only [deferredTriggers] at h
  split at h <;> simp_all [eq_comm]

end Raises

theorem raises_auditTransferFailureTx (env : Env) (arg : TransferTxParams) (e : Err) :
    (auditTransferFailureTx env arg e).Raises Err.Unlisted := by
  have hsql : ∀ {e : Err}, (∃ e', e = .sql e') → e.Unlisted := by
    rintro _ ⟨e', rfl⟩
    exact unlisted_sql e'
  refine .bind (.bind (.call fun own db e h => hsql (createAuditLog_error h))
    fun _ => ?_) fun _ => .bind (.call fun own db e h => hsql (deferredTriggers_error h))
      fun _ => trivial
  refine .bind ?_ fun _ => trivial
  refine .bind (.fetch unlisted_noRows fun own db e h => by cases h) fun user => ?_
  refine .bind (.call fun own db e h => hsql (insertRow_error (audited_error h)))
    fun job => ?_
  exact .bind (.call fun own db e h => hsql (insertRow_error (audited_error h)))
    fun _ => trivial

theorem transferReply_joined {a : Err} (context : String) (ha : a.Unlisted) :
    transferReply (.error (.joined e (.wrapped context a))) = transferReply (.error e) := by
  have his : ∀ t ∈ transferErrors, (Err.joined e (.wrapped context a)).is t = e.is t := by
    intro t ht
    simp [Err.is, ha t ht]
  simp only [transferErrors, List.forall_mem_cons] at his
  simp [transferReply, his]

theorem eq_of_validate {req' : TransferRequest} (h : req.validate = .ok req') : req' = req := by
  simp only [TransferRequest.validate, BindingError.validate] at h
  split at h
  · exact (Except.ok.inj h).symm
  · cases h

theorem transferParams_ok_iff :
    transferParams lib username correlationID key (.ok req) = .ok arg ↔
      ∃ r : AcceptedTransfer lib, r.username = username ∧ r.correlationID = correlationID ∧
        r.key = key ∧ r.req = req ∧ r.arg = arg := by
  constructor
  · intro h
    unfold transferParams at h
    split_ifs at h with hempty hkey
    split at h
    · cases h
    rename_i req' hvalid
    obtain rfl := eq_of_validate hvalid
    split at h
    · cases h
    rename_i fromPublicID hparsed
    dsimp only at h
    split_ifs at h with hnumber
    cases h
    exact ⟨⟨username, correlationID, key, _, fromPublicID, by simpa using hkey, hvalid, hparsed,
      by simpa using hnumber⟩, rfl, rfl, rfl, rfl, rfl⟩
  · rintro ⟨r, rfl, rfl, rfl, rfl, rfl⟩
    have hvalid : Except.bind (.ok r.req) TransferRequest.validate = .ok r.req := r.valid
    simp [transferParams, r.key_ne, r.key_ok, hvalid, r.parsed, r.number_ok, AcceptedTransfer.arg]

theorem utf8Size_of_isAlphanum {c : Char} (h : c.isAlphanum) : c.utf8Size = 1 := by
  have hZ : 'Z'.val.toNat = 90 := rfl
  have hz : 'z'.val.toNat = 122 := rfl
  have h9 : '9'.val.toNat = 57 := rfl
  have hbound : (127 : UInt32).toNat = 127 := rfl
  rw [Char.utf8Size_eq_one_iff, UInt32.le_iff_toNat_le, hbound]
  delta Char.isAlphanum Char.isAlpha Char.isUpper Char.isLower Char.isDigit at h
  simp only [Bool.or_eq_true, Bool.and_eq_true, decide_eq_true_eq, UInt32.le_iff_toNat_le] at h
  omega

theorem utf8Len_of_ascii {cs : List Char} (h : ∀ c ∈ cs, c.utf8Size = 1) :
    String.utf8Len cs = cs.length := by
  induction cs with
  | nil => rfl
  | cons c cs ih =>
    rw [List.forall_mem_cons] at h
    rw [String.utf8Len_cons, ih h.2, h.1, List.length_cons]

theorem utf8ByteSize_of_isIdempotencyKey (h : isIdempotencyKey key = true) :
    key.utf8ByteSize ≤ 128 := by
  have hsize : ∀ c : Char, (c.isAlphanum || c == '.' || c == '_' || c == ':' || c == '-') = true →
      c.utf8Size = 1 := by
    intro c hc
    simp only [Bool.or_eq_true, beq_iff_eq] at hc
    rcases hc with (((hc | rfl) | rfl) | rfl) | rfl
    · exact utf8Size_of_isAlphanum hc
    all_goals rfl
  rw [← String.ofList_toList (s := key), String.utf8ByteSize_ofList]
  unfold isIdempotencyKey at h
  cases hkey : key.toList with
  | nil => simp [String.utf8Len]
  | cons c cs =>
    simp only [hkey, Bool.and_eq_true, decide_eq_true_eq, List.all_eq_true] at h
    obtain ⟨⟨hc, hlength⟩, hrest⟩ := h
    rw [utf8Len_of_ascii, List.length_cons]
    · omega
    · rw [List.forall_mem_cons]
      exact ⟨utf8Size_of_isAlphanum hc, fun d hd => hsize d (hrest d hd)⟩

namespace AcceptedTransfer

variable {lib : TransferLibrary} (r : AcceptedTransfer lib) {env auditEnv : Env} {db : DB}

theorem arg_checked : ¬ (r.arg.idempotencyKey = "" ∨ r.arg.idempotencyKey.utf8ByteSize > 128 ∨
    r.arg.requestHash.length ≠ 32) := by
  have hsize := utf8ByteSize_of_isIdempotencyKey r.key_ok
  have hlength : r.arg.requestHash.length = 32 := lib.hash_length _
  simp only [not_or, not_not, not_lt, gt_iff_lt]
  exact ⟨r.key_ne, hsize, hlength⟩

theorem transferReply_serve :
    transferReply ((BankingOp.idempotentTransferTx r.arg r.correlationID env auditEnv).job.serve
        BankingTx.body db).1 =
      transferReply ((BankingTx.body (.idempotentTransfer env { r.arg with
        correlationID := auditCorrelation r.correlationID r.arg.correlationID })).answer [] db) := by
  have hkey := r.arg_checked
  generalize r.arg = arg at hkey
  generalize r.correlationID = correlationID
  simp only [BankingOp.job, if_neg hkey]
  generalize harg : { arg with correlationID := auditCorrelation correlationID arg.correlationID } =
    arg'
  have htransfer : arg'.toTransferTxParams = { arg.toTransferTxParams with
      correlationID := auditCorrelation correlationID arg.correlationID } := by
    rw [← harg]
  rw [← htransfer, Job.serve]
  cases hrun : (BankingTx.body (.idempotentTransfer env arg')).run [] db with
  | ok d =>
    rw [answer_ok hrun]
    rfl
  | error e =>
    rw [answer_error hrun]
    simp only [recordingFailure, Job.serve]
    cases haudit : (BankingTx.body (.auditTransferFailure auditEnv arg'.toTransferTxParams e)).run
        [] db with
    | ok d => rfl
    | error a =>
      have hraises : (BankingTx.body (.auditTransferFailure auditEnv arg'.toTransferTxParams
          e)).Raises Err.Unlisted :=
        (raises_auditTransferFailureTx _ _ _).bind fun _ => trivial
      exact transferReply_joined _ (hraises.of_run haudit)

end AcceptedTransfer

def DB.withBooks (books : Books) (db : DB) : DB := { db with toBooks := books }

/-- The account `a` of somebody else than `username` exists in `db'` and is missing in
`db`. The other accounts are the same, and so is everything outside the books. -/
structure AddsForeignAccount (username : String) (a : Account) (db db' : DB) : Prop where
  rest : db' = DB.withBooks db'.toBooks db
  missing : db.accounts.get (.publicID a.publicID) = none
  foreign : a.owner ≠ username
  accounts : ∀ b, b ∈ db'.accounts.rows ↔ b = a ∨ b ∈ db.accounts.rows

/-- A transfer of `username` under `key` reserves the key: no row under it is left that has
not expired, the user exists, and the number drawn for the new row is free. -/
structure DB.Reserves (env : Env) (username key : String) (db : DB) : Prop where
  user : ∃ u, db.users.get (.username username) = some u
  row : ∀ r, db.idempotencyKeys.get (.ownerOperation username key) = some r →
    r.expired env.now = true
  number : ∀ r, db.idempotencyKeys.get (.id (env.serial 2)) = some r →
    r.expiredUnder env.now username key = true

/-! ### Up to the lookup of the accounts -/

section Reservation

variable (env : Env) (arg : IdempotentTransferTxParams)

/-- The part of `IdempotentTransferTx` that deals with the key. -/
def reserveIdempotencyKey : Tx (Option IdempotencyKey) := do
  let expired ← call (findExpiredIdempotencyKey env.now arg.username arg.idempotencyKey)
  dropExpiredKey env arg expired
  call (createIdempotencyKey env arg.username arg.idempotencyKey arg.requestHash)

theorem body_eq_reserve : BankingTx.body (.idempotentTransfer env arg) =
    reserveIdempotencyKey env arg >>= afterReserve env arg := by
  rw [body_idempotentTransfer]
  show _ = stmt _ _
  congr 1
  funext expired
  cases expired with
  | none => exact afterScan_none env arg
  | some id =>
    rw [afterScan_some, afterScan_none]
    rfl

theorem blind_deleteIdempotencyKeyIf (cond : IdempotencyKey → Bool) (id : Int64) :
    (deleteIdempotencyKeyIf cond id).Blind DB.withBooks where
  same _ _ _ _ := rfl
  spares own db eff hs w hw := by
    rw [deleteIdempotencyKeyIf_ok.mp hs] at hw
    obtain ⟨o, _, rfl⟩ := List.mem_map.mp hw
    exact fun _ _ => rfl

theorem blind_createIdempotencyKey (username key : String) (requestHash : Bytes) :
    (createIdempotencyKey env username key requestHash).Blind DB.withBooks where
  same _ _ _ _ := rfl
  spares own db eff hs w hw := by
    rcases createIdempotencyKey_ok.mp hs with ⟨_, rfl⟩ | ⟨_, _, rfl⟩
    · cases hw
    · rw [List.mem_singleton.mp hw]
      exact fun _ _ => rfl

theorem blind_reserveIdempotencyKey : (reserveIdempotencyKey env arg).Blind DB.withBooks := by
  refine .bind (.call (blind_readOnly fun _ _ => rfl)) fun expired => ?_
  refine .bind ?_ fun _ => .call (blind_createIdempotencyKey env _ _ _)
  cases expired with
  | none => trivial
  | some id => exact .bind (.call (blind_deleteIdempotencyKeyIf _ _)) fun _ => trivial

theorem blind_replayTransfer : (replayTransfer arg).Blind DB.withBooks := by
  refine .bind (.fetch (blind_readOnly fun _ _ => rfl)) fun id => ?_
  refine .bind (.fetch ⟨fun _ _ _ _ => rfl, ?_⟩) fun existing => ?_
  · intro own db eff hs w hw
    cases hs
    cases hw
  · exact .bind Blind.refuse fun _ => .bind Blind.refuse fun _ =>
      Blind.bind Blind.found fun _ => trivial

theorem writesOnly_reserveIdempotencyKey : (reserveIdempotencyKey env arg).WritesOnly
    fun w => w.balancedTransaction = none ∧ Spares DB.withBooks w := by
  refine WritesOnly.bind (WritesOnly.call ?_) fun expired => ?_
  · intro own db eff hs
    rw [readOnly_ok.mp hs]
    simp
  refine WritesOnly.bind ?_ fun _ => WritesOnly.call ?_
  · cases expired with
    | none => exact WritesOnly.ret ()
    | some id =>
      refine WritesOnly.bind (WritesOnly.call ?_) fun _ => WritesOnly.ret ()
      intro own db eff hs w hw
      refine ⟨?_, (blind_deleteIdempotencyKeyIf _ _).spares own db eff hs w hw⟩
      rw [deleteIdempotencyKeyIf_ok.mp hs] at hw
      obtain ⟨o, _, rfl⟩ := List.mem_map.mp hw
      rfl
  · intro own db eff hs w hw
    refine ⟨?_, (blind_createIdempotencyKey env _ _ _).spares own db eff hs w hw⟩
    rcases createIdempotencyKey_ok.mp hs with ⟨_, rfl⟩ | ⟨_, _, rfl⟩
    · cases hw
    · rw [List.mem_singleton.mp hw]
      rfl

theorem creates_iff {own : List Write} {db : DB} :
    (∃ r, (call (createIdempotencyKey env arg.username arg.idempotencyKey arg.requestHash)).answer
        own db = .ok (some r)) ↔
      (∃ u, db.users.get (.username arg.username) = some u) ∧
        db.idempotencyKeys.get (.ownerOperation arg.username arg.idempotencyKey) = none ∧
        db.idempotencyKeys.get (.id (env.serial 2)) = none := by
  have hfree : db.idempotencyKeys.conflict (newIdempotencyKey env arg.username arg.idempotencyKey
      arg.requestHash) = none ↔
        db.idempotencyKeys.get (.id (env.serial 2)) = none ∧
        db.idempotencyKeys.get (.ownerOperation arg.username arg.idempotencyKey) = none := by
    simp [Table.conflict_eq_none, keys, newIdempotencyKey]
  rw [← missingUser_eq_none, and_comm (a := _ = none) (b := _ = none), ← hfree]
  constructor
  · rintro ⟨r, hr⟩
    cases hrun : (call (createIdempotencyKey env arg.username arg.idempotencyKey
        arg.requestHash)).run own db with
    | error e => simp [answer_error hrun] at hr
    | ok d =>
      rw [answer_ok hrun] at hr
      obtain ⟨eff, heff, rfl⟩ := run_call_ok.mp hrun
      rcases createIdempotencyKey_ok.mp heff with ⟨_, rfl⟩ | ⟨hconflict, huser, rfl⟩
      · cases hr
      · exact ⟨huser, hconflict⟩
  · rintro ⟨huser, hconflict⟩
    exact ⟨_, answer_ok (run_call_ok.mpr ⟨_, createIdempotencyKey_ok.mpr
      (Or.inr ⟨hconflict, huser, rfl⟩), rfl⟩)⟩

theorem reserves_iff {db : DB} :
    (∃ r, (reserveIdempotencyKey env arg).answer [] db = .ok (some r)) ↔
      db.Reserves env arg.username arg.idempotencyKey := by
  have hscan : (call (findExpiredIdempotencyKey env.now arg.username arg.idempotencyKey)).run [] db =
      .ok ⟨((db.idempotencyKeys.get (.ownerOperation arg.username arg.idempotencyKey)).filter
        (IdempotencyKey.expired env.now)).map IdempotencyKey.id, [], []⟩ := rfl
  -- a row that has expired under the key is the one the key names
  have hunder : ∀ {r : IdempotencyKey} {id : Int64}, db.idempotencyKeys.get (.id id) = some r →
      r.expiredUnder env.now arg.username arg.idempotencyKey = true →
      db.idempotencyKeys.get (.ownerOperation arg.username arg.idempotencyKey) = some r :=
    fun hr h => Table.get_eq_of_key hr (IdempotencyKey.expiredUnder_iff.mp h).1
  rw [reserveIdempotencyKey, answer_bind hscan]
  cases hrow : (db.idempotencyKeys.get (.ownerOperation arg.username arg.idempotencyKey)).filter
      (IdempotencyKey.expired env.now) with
  | none =>
    have hdrop : (dropExpiredKey env arg none).run [] db = .ok ⟨(), [], []⟩ := rfl
    rw [Option.map_none, List.append_nil, view_nil, answer_bind hdrop, creates_iff, view_nil]
    rw [Option.filter_eq_none_iff] at hrow
    constructor
    · rintro ⟨huser, hkey, hid⟩
      exact ⟨huser, by simp [hkey], by simp [hid]⟩
    · rintro ⟨huser, hexpired, hnumber⟩
      have hkey : db.idempotencyKeys.get (.ownerOperation arg.username arg.idempotencyKey) = none :=
        Option.eq_none_iff_forall_ne_some.mpr fun r hr => hrow r hr (hexpired r hr)
      refine ⟨huser, hkey, Option.eq_none_iff_forall_ne_some.mpr fun r hr => ?_⟩
      have := hunder hr (hnumber r hr)
      rw [hkey] at this
      cases this
  | some r =>
    obtain ⟨hr, hexpired⟩ := Option.filter_eq_some_iff.mp hrow
    have hself : db.idempotencyKeys.get (.id r.id) = some r :=
      Table.get_eq_of_key hr (Keyed.pk_mem r)
    have hr' := IdempotencyKey.expiredUnder_iff.mpr ⟨Table.key_of_get hr, hexpired⟩
    have hdrop : ∃ locks, (dropExpiredKey env arg (some r.id)).run [] db =
        .ok ⟨(), [.deleteIdempotencyKey r], locks⟩ := by
      simp [dropExpiredKey, run, deleteIdempotencyKeyIf, hself, Option.filter_some, hr']
    obtain ⟨locks, hdrop⟩ := hdrop
    rw [Option.map_some, List.append_nil, view_nil, answer_bind hdrop, creates_iff]
    show (∃ u, db.users.get _ = some u) ∧ (db.idempotencyKeys.remove r).get _ = none ∧
      (db.idempotencyKeys.remove r).get _ = none ↔ _
    rw [Table.get_remove_eq_none hself, Table.get_remove_eq_none hself]
    have hrow₁ : ∀ r₁, db.idempotencyKeys.get (.ownerOperation arg.username arg.idempotencyKey) =
        some r₁ → r₁ = r := fun r₁ hr₁ => Option.some.inj (hr₁.symm.trans hr)
    constructor
    · rintro ⟨huser, -, hid⟩
      exact ⟨huser, fun r₁ hr₁ => hrow₁ r₁ hr₁ ▸ hexpired, fun r₁ hr₁ => hid r₁ hr₁ ▸ hr'⟩
    · rintro ⟨huser, -, hnumber⟩
      exact ⟨huser, hrow₁, fun r₁ hr₁ => hrow₁ r₁ (hunder hr₁ (hnumber r₁ hr₁))⟩

end Reservation

/-! ### From the lookup on -/

section Lookup

variable {env : Env} {arg : IdempotentTransferTxParams} {own : List Write} {db : DB}
  {reserved : IdempotencyKey}

variable {e : Err}

theorem answer_replay (hown : ∀ w ∈ own, w.balancedTransaction = none) :
    (afterReserve env arg none).answer own db =
      ((replayTransfer arg).answer own db).map Response.transfer := by
  cases hrun : (replayTransfer arg).run own db with
  | error e =>
    rw [answer_error hrun]
    exact answer_bind_error (run_bind_error hrun)
  | ok d =>
    have hwrites : d.writes = [] := (silent_replayTransfer arg).run_writes hrun
    have htriggers : (call deferredTriggers).run (own ++ d.writes) (view d.writes db) =
        .ok ⟨(), [], []⟩ := by
      refine run_call_ok.mpr ⟨⟨(), [], []⟩, deferredTriggers_ok.mpr ⟨?_, rfl⟩, rfl⟩
      intro w hw id hid
      rw [hwrites, List.append_nil] at hw
      rw [hown w hw] at hid
      cases hid
    have hexec : (execTx (replayTransfer arg)).run own db =
        .ok ⟨d.result, d.writes ++ [], d.locks ++ []⟩ :=
      run_bind_ok.mpr ⟨d, ⟨d.result, [], []⟩, hrun,
        run_bind_ok.mpr ⟨_, ⟨d.result, [], []⟩, htriggers, rfl, rfl⟩, rfl⟩
    rw [answer_ok hrun, afterReserve, answering, answer_bind hexec]
    rfl

theorem answer_record_error
    (h : (transferWithQueries env arg.toTransferTxParams).run own db = .error e) :
    (afterReserve env arg (some reserved)).answer own db = .error e :=
  answer_bind_error (run_bind_error (run_bind_error h))

variable {publicID : UUID} {number : String} {a b : Account}

theorem load_missing (h : db.accounts.get (.publicID publicID) = none) :
    (loadAndLockTransferAccounts (some publicID) number).run own db = .error .accountNotFound := by
  simp [loadAndLockTransferAccounts, fetch, getAccountByPublicID, readOnly, run,
    DB.accountByPublicID, h, found]

theorem load_noRecipient (ha : db.accounts.get (.publicID publicID) = some a)
    (hnumber : db.accounts.get (.accountNumber number) = none) :
    (loadAndLockTransferAccounts (some publicID) number).run own db =
      .error .recipientNotFound := by
  simp [loadAndLockTransferAccounts, fetch, getAccountByPublicID, getAccountByAccountNumber,
    readOnly, run, DB.accountByPublicID, ha, hnumber, found]

theorem load_same (ha : db.accounts.get (.publicID publicID) = some a)
    (hnumber : db.accounts.get (.accountNumber number) = some b) (hid : a.id = b.id) :
    (loadAndLockTransferAccounts (some publicID) number).run own db = .error .sameAccount := by
  simp [loadAndLockTransferAccounts, fetch, getAccountByPublicID, getAccountByAccountNumber,
    readOnly, run, DB.accountByPublicID, ha, hnumber, found, refuse, hid]

theorem load_both (ha : db.accounts.get (.publicID publicID) = some a)
    (hnumber : db.accounts.get (.accountNumber number) = some b) (hid : a.id ≠ b.id) :
    ∃ d, (loadAndLockTransferAccounts (some publicID) number).run own db = .ok d ∧
      d.result = (a, b) := by
  have hida : db.accounts.get (.id a.id) = some a := Table.get_eq_of_key ha (Keyed.pk_mem a)
  have hidb : db.accounts.get (.id b.id) = some b := Table.get_eq_of_key hnumber (Keyed.pk_mem b)
  by_cases hlt : a.id > b.id
  · simp [loadAndLockTransferAccounts, lockTransferAccounts, fetch, getAccountByPublicID,
      getAccountByAccountNumber, getAccountForUpdate, selectForUpdate, readOnly, run,
      DB.accountByPublicID, ha, hnumber, found, refuse, hid, hlt, hida, hidb, Ne.symm hid]
  · simp [loadAndLockTransferAccounts, lockTransferAccounts, fetch, getAccountByPublicID,
      getAccountByAccountNumber, getAccountForUpdate, selectForUpdate, readOnly, run,
      DB.accountByPublicID, ha, hnumber, found, refuse, hid, hlt, hida, hidb]

theorem transfer_run_error {arg : TransferTxParams}
    (h : (loadAndLockTransferAccounts arg.fromAccountPublicID arg.toAccountNumber).run own db =
      .error e) : (transferWithQueries env arg).run own db = .error e :=
  run_bind_error h

theorem transfer_run_foreign {arg : TransferTxParams}
    (hfrom : arg.fromAccountPublicID = some publicID) (hto : arg.toAccountNumber = number)
    (ha : db.accounts.get (.publicID publicID) = some a)
    (hnumber : db.accounts.get (.accountNumber number) = some b) (hid : a.id ≠ b.id)
    (howner : a.owner ≠ arg.username) :
    (transferWithQueries env arg).run own db = .error .accountNotOwned := by
  obtain ⟨d, hload, hd⟩ := load_both ha hnumber hid
  have hload' : (loadAndLockTransferAccounts arg.fromAccountPublicID arg.toAccountNumber).run own
      db = .ok d := by
    rw [hfrom, hto]
    exact hload
  rw [transferWithQueries, run_bind hload', hd]
  simp [refuse, howner, Except.map]

end Lookup

/-! ### Replies -/

def Reply.Alike {α : Type} (r r' : Reply α) : Prop := r.status = r'.status ∧ r.code = r'.code

section Indistinguishable

variable {env : Env} {arg : IdempotentTransferTxParams} {own : List Write} {db db' : DB}
  {a : Account} {reserved : IdempotencyKey}

namespace AddsForeignAccount

theorem get_publicID (h : AddsForeignAccount arg.username a db db') :
    db'.accounts.get (.publicID a.publicID) = some a :=
  Table.get_key ((h.accounts a).mpr (Or.inl rfl)) (by simp [keys])

theorem recipient (h : AddsForeignAccount arg.username a db db') {b : Account}
    (hb : db.accounts.get (.accountNumber arg.toAccountNumber) = some b) :
    db'.accounts.get (.accountNumber arg.toAccountNumber) = some b ∧ a.id ≠ b.id := by
  have hb' : b ∈ db'.accounts.rows := (h.accounts b).mpr (Or.inr (Table.mem_of_get hb))
  refine ⟨Table.get_key hb' (Table.key_of_get hb), fun hid => ?_⟩
  have hab : db'.accounts.get (.id b.id) = some a :=
    Table.get_key ((h.accounts a).mpr (Or.inl rfl)) (by simp [keys, hid])
  obtain rfl : b = a := Option.some.inj ((Table.get_key hb' (Keyed.pk_mem b)).symm.trans hab)
  have hpublic := Table.get_key (Table.mem_of_get hb) (show .publicID b.publicID ∈ keys b by
    simp [keys])
  rw [h.missing] at hpublic
  cases hpublic

theorem no_recipient (h : AddsForeignAccount arg.username a db db')
    (hb : db.accounts.get (.accountNumber arg.toAccountNumber) = none) :
    db'.accounts.get (.accountNumber arg.toAccountNumber) = none ∨
      db'.accounts.get (.accountNumber arg.toAccountNumber) = some a := by
  cases hb' : db'.accounts.get (.accountNumber arg.toAccountNumber) with
  | none => exact Or.inl rfl
  | some b =>
    right
    rcases (h.accounts b).mp (Table.mem_of_get hb') with rfl | hmem
    · rfl
    · rw [Table.get_key hmem (Table.key_of_get hb')] at hb
      cases hb

/-- Once the key is reserved, a transfer from the foreign account is answered like one
from a missing account exactly if the recipient exists. -/
theorem record (h : AddsForeignAccount arg.username a db db')
    (hfrom : arg.fromAccountPublicID = some a.publicID) :
    (transferReply ((afterReserve env arg (some reserved)).answer own db')).Alike
        (transferReply ((afterReserve env arg (some reserved)).answer own db)) ↔
      (db.accounts.get (.accountNumber arg.toAccountNumber)).isSome := by
  have hmissing : (afterReserve env arg (some reserved)).answer own db = .error .accountNotFound :=
    answer_record_error (transfer_run_error (by rw [hfrom]; exact load_missing h.missing))
  rw [hmissing]
  cases hb : db.accounts.get (.accountNumber arg.toAccountNumber) with
  | some b =>
    obtain ⟨hb', hid⟩ := h.recipient hb
    rw [answer_record_error
      (transfer_run_foreign hfrom rfl h.get_publicID hb' hid h.foreign)]
    exact iff_of_true ⟨rfl, rfl⟩ rfl
  | none =>
    rcases h.no_recipient hb with hb' | hb'
    · rw [answer_record_error (transfer_run_error (by
        rw [hfrom]
        exact load_noRecipient h.get_publicID hb'))]
      exact iff_of_false (fun halike => absurd halike.2 (by decide)) (by simp)
    · rw [answer_record_error (transfer_run_error (by
        rw [hfrom]
        exact load_same h.get_publicID hb' rfl))]
      exact iff_of_false (fun halike => absurd halike.1 (by decide)) (by simp)

theorem call (h : AddsForeignAccount arg.username a db db')
    (hfrom : arg.fromAccountPublicID = some a.publicID) :
    (transferReply ((BankingTx.body (.idempotentTransfer env arg)).answer [] db')).Alike
        (transferReply ((BankingTx.body (.idempotentTransfer env arg)).answer [] db)) ↔
      (¬ db.Reserves env arg.username arg.idempotencyKey ∨
        (db.accounts.get (.accountNumber arg.toAccountNumber)).isSome) := by
  have hblind := blind_reserveIdempotencyKey env arg
  have hsame : (reserveIdempotencyKey env arg).run [] db' =
      (reserveIdempotencyKey env arg).run [] db := by
    rw [h.rest]
    exact hblind.run_put [] [] _ db
  rw [body_eq_reserve, ← reserves_iff]
  cases hrun : (reserveIdempotencyKey env arg).run [] db with
  | error e =>
    rw [answer_bind_error hrun, answer_bind_error (hsame.trans hrun), answer_error hrun]
    exact iff_of_true ⟨rfl, rfl⟩ (Or.inl (by simp))
  | ok d =>
    obtain ⟨hwrites, _⟩ := (writesOnly_reserveIdempotencyKey env arg).of_run hrun
    have hview : view d.writes db' = DB.withBooks db'.toBooks (view d.writes db) := by
      conv_lhs => rw [h.rest]
      exact view_put (fun w hw => (hwrites w hw).2) _ _
    have hbooks : (view d.writes db).toBooks = db.toBooks := by
      have hput : view d.writes db = DB.withBooks db.toBooks (view d.writes db) :=
        view_put (fun w hw => (hwrites w hw).2) db.toBooks db
      rw [hput]
      rfl
    rw [answer_bind hrun, answer_bind (hsame.trans hrun), answer_ok hrun, List.nil_append]
    cases hres : d.result with
    | none =>
      have hown : ∀ w ∈ d.writes, w.balancedTransaction = none := fun w hw => (hwrites w hw).1
      have hreplay : (replayTransfer arg).answer d.writes (view d.writes db') =
          (replayTransfer arg).answer d.writes (view d.writes db) := by
        rw [answer, hview, (blind_replayTransfer arg).run_put d.writes, answer]
      rw [answer_replay hown, answer_replay hown, hreplay]
      exact iff_of_true ⟨rfl, rfl⟩ (Or.inl (by simp))
    | some reserved =>
      have h' : AddsForeignAccount arg.username a (view d.writes db) (view d.writes db') := by
        have hbooks' : (view d.writes db').toBooks = db'.toBooks := by rw [hview]; rfl
        exact ⟨hview.trans (by rw [hbooks']), by rw [hbooks]; exact h.missing, h.foreign,
          by rw [hbooks, hbooks']; exact h.accounts⟩
      rw [h'.record hfrom, hbooks]
      simp

end AddsForeignAccount

end Indistinguishable

/-- A user asks for a transfer from an account that is missing in one state and belongs
to somebody else in the other. The two replies have the same status and the same
error code exactly if the request is refused as it stands, its idempotency key cannot
be reserved, or the recipient is an account of both states. -/
theorem createTransfer_alike_iff (lib : TransferLibrary) (username key : String)
    (correlationID : UUID) (req : TransferRequest) (env auditEnv : Env) {a : Account} {db db' : DB}
    (hid : lib.parseUUID req.fromAccountID = some a.publicID)
    (h : AddsForeignAccount username a db db') :
    (createTransfer lib username correlationID key (.ok req) env auditEnv db').Alike
        (createTransfer lib username correlationID key (.ok req) env auditEnv db) ↔
      ((∃ reply, transferParams lib username correlationID key (.ok req) = .error reply) ∨
        ¬ db.Reserves env username key ∨
        (db.accounts.get (.accountNumber (trimSpace req.toAccountNumber))).isSome) := by
  unfold createTransfer
  cases hparams : transferParams lib username correlationID key (.ok req) with
  | error reply => exact iff_of_true ⟨rfl, rfl⟩ (Or.inl ⟨reply, rfl⟩)
  | ok arg =>
    obtain ⟨r, rfl, rfl, rfl, rfl, rfl⟩ := transferParams_ok_iff.mp hparams
    have hfrom : r.arg.fromAccountPublicID = some a.publicID := r.parsed.symm.trans hid
    simp only [reduceCtorEq, exists_false, false_or]
    rw [r.transferReply_serve, r.transferReply_serve]
    exact AddsForeignAccount.call h hfrom

/-! Alice guesses the id of Bob's account and names a recipient that does not exist. -/

def bobsAccount : Account where
  id := 1
  publicID := 7
  owner := "bob"
  accountNumber := "0000000001"
  balance := 0
  currency := "USD"
  status := .active
  createdAt := 0
  updatedAt := 0
  closedAt := none

def withoutBobsAccount : DB := .initial twoCustomers

def withBobsAccount : DB := { withoutBobsAccount with
  accounts := ⟨[bobsAccount], by decide +kernel⟩
  ledgerAccounts := ⟨withoutBobsAccount.ledgerAccounts.rows ++ [⟨3, .customer 1, "USD"⟩],
    by decide +kernel⟩ }

def guessingLibrary : TransferLibrary where
  parseUUID text := if text = (7 : UUID).text then some 7 else none
  hash _ := List.replicate 32 0
  hash_length _ := rfl

def guess : TransferRequest :=
  ⟨"00000000-0000-0000-0000-000000000007", "0000000009", 1, "USD", ""⟩

def guessReply (db : DB) : Reply Response :=
  createTransfer guessingLibrary "alice" 1 "key" (.ok guess) (.drawing 1 1) (.drawing 1 2) db

theorem addsForeignAccount_bob :
    AddsForeignAccount "alice" bobsAccount withoutBobsAccount withBobsAccount where
  rest := rfl
  missing := rfl
  foreign := by decide
  accounts b := by simp [withBobsAccount, withoutBobsAccount, DB.initial]

theorem createTransfer_alike_iff_bob :
    (guessReply withBobsAccount).Alike (guessReply withoutBobsAccount) ↔
      ((∃ reply, transferParams guessingLibrary "alice" 1 "key" (.ok guess) = .error reply) ∨
        ¬ withoutBobsAccount.Reserves (.drawing 1 1) "alice" "key" ∨
        (withoutBobsAccount.accounts.get (.accountNumber (trimSpace "0000000009"))).isSome) :=
  createTransfer_alike_iff guessingLibrary "alice" "key" 1 guess (.drawing 1 1) (.drawing 1 2)
    (by decide +kernel) addsForeignAccount_bob

/-- The error code gives the account away. -/
theorem createTransfer_not_alike_bob :
    AddsForeignAccount "alice" bobsAccount withoutBobsAccount withBobsAccount ∧
    ((guessReply withoutBobsAccount).status, (guessReply withoutBobsAccount).code) =
      (404, some "account_not_found") ∧
    ((guessReply withBobsAccount).status, (guessReply withBobsAccount).code) =
      (404, some "recipient_not_found") :=
  ⟨addsForeignAccount_bob, by decide +kernel, by decide +kernel⟩

end Monierave
