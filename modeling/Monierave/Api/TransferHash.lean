import Monierave.Api.Transfers
import Monierave.Schema.Identifiers

/-! # What an idempotency key stands for

The hash kept with an idempotency key is computed from the JSON text of the
normalized request.
-/

namespace Monierave

open Relational ReadCommitted Prog Coding

/-! ## The bytes that are hashed -/

/-- What `json.Marshal` makes of the normalized request. -/
def NormalizedTransfer.json (t : NormalizedTransfer) : List Char :=
  "\x7b\"from_account_id\":".toList ++ (Json.quote t.fromAccountID ++
  (",\"to_account_number\":".toList ++ (Json.quote t.toAccountNumber ++
  (",\"amount\":".toList ++ (Json.decimal t.amount.toInt ++ (',' ::
  "\"currency\":".toList ++ (Json.quote t.currency ++
  (",\"narration\":".toList ++ (Json.quote t.narration ++ "\x7d".toList)))))))))

def utf8Bytes (s : String) : Bytes := s.toUTF8.data.toList

def NormalizedTransfer.payload (t : NormalizedTransfer) : Bytes := utf8Bytes (String.ofList t.json)

theorem utf8Bytes_injective : Function.Injective utf8Bytes := by
  intro s s' h
  exact String.toByteArray_inj.mp (ByteArray.ext (Array.toList_inj.mp h))

theorem values_inj {l₁ l₂ l₃ l₄ l₅ l₆ : List Char} {a a' b b' c c' d d' : String} {n n' : Int}
    (h : l₁ ++ (Json.quote a ++ (l₂ ++ (Json.quote b ++ (l₃ ++ (Json.decimal n ++ (',' ::
        l₄ ++ (Json.quote c ++ (l₅ ++ (Json.quote d ++ l₆))))))))) =
      l₁ ++ (Json.quote a' ++ (l₂ ++ (Json.quote b' ++ (l₃ ++ (Json.decimal n' ++ (',' ::
        l₄ ++ (Json.quote c' ++ (l₅ ++ (Json.quote d' ++ l₆)))))))))) :
    a = a' ∧ b = b' ∧ n = n' ∧ c = c' ∧ d = d' := by
  have hdecimal : ∀ {x y : List Char}, Json.decimal n ++ ',' :: x = Json.decimal n' ++ ',' :: y →
      n = n' ∧ x = y := by
    intro x y h
    refine Json.unambiguous_decimal (show Char.isDigit ',' = false by decide) (by decide) ?_
    simpa using h
  obtain ⟨ha, h⟩ := Json.unambiguous_quote (List.append_cancel_left h)
  obtain ⟨hb, h⟩ := Json.unambiguous_quote (List.append_cancel_left h)
  obtain ⟨hn, h⟩ := hdecimal (List.append_cancel_left h)
  obtain ⟨hc, h⟩ := Json.unambiguous_quote (List.append_cancel_left h)
  obtain ⟨hd, _⟩ := Json.unambiguous_quote (List.append_cancel_left h)
  exact ⟨ha, hb, hn, hc, hd⟩

theorem NormalizedTransfer.json_injective : Function.Injective NormalizedTransfer.json := by
  intro t t' h
  obtain ⟨hfrom, hto, hamount, hcurrency, hnarration⟩ := values_inj h
  cases t
  cases t'
  simp only [NormalizedTransfer.mk.injEq]
  exact ⟨hfrom, hto, Int64.toInt_inj.mp hamount, hcurrency, hnarration⟩

theorem NormalizedTransfer.payload_injective : Function.Injective NormalizedTransfer.payload := by
  intro t t' h
  exact json_injective (String.ofList_inj.mp (utf8Bytes_injective h))

/-- The library functions of the handler, given the parser of UUIDs and the hash of bytes. -/
def sha256Library (parseUUID : String → Option UUID) (sha256 : Bytes → Bytes)
    (hlength : ∀ x, (sha256 x).length = 32) : TransferLibrary where
  parseUUID := parseUUID
  hash t := sha256 t.payload
  hash_length _ := hlength _

section Taken

variable {env : Env} {arg : IdempotentTransferTxParams} {db : DB} {row : IdempotencyKey}

theorem answer_taken (hrow : db.keyRow arg.username arg.idempotencyKey = some row)
    (hlive : row.expired env.now = false) :
    (BankingTx.body (.idempotentTransfer env arg)).answer [] db =
      ((replayTransfer arg).answer [] db).map Response.transfer := by
  have hrow' : db.idempotencyKeys.get (.ownerOperation arg.username arg.idempotencyKey) = some row :=
    hrow
  have hreserve : (reserveIdempotencyKey env arg).run [] db = .ok ⟨none, [], []⟩ := by
    simp [reserveIdempotencyKey, call, run, findExpiredIdempotencyKey, readOnly, hrow', hlive,
      Option.filter_some, dropExpiredKey, createIdempotencyKey, Effect.claims]
  rw [body_eq_reserve, answer_bind hreserve]
  exact answer_replay (by simp)

theorem answer_replayTransfer (hrow : db.keyRow arg.username arg.idempotencyKey = some row)
    (hcomplete : row.transactionID ≠ none) {snapshot : ResultSnapshot}
    (hsnapshot : row.resultSnapshot = some snapshot) :
    (replayTransfer arg).answer [] db =
      if row.requestHash = arg.requestHash then .ok snapshot.replay
      else .error .idempotencyConflict := by
  have hrow' : db.idempotencyKeys.get (.ownerOperation arg.username arg.idempotencyKey) = some row :=
    hrow
  have hself : db.idempotencyKeys.get (.id row.id) = some row :=
    Table.get_eq_of_key hrow (Keyed.pk_mem row)
  by_cases hhash : row.requestHash = arg.requestHash
  · simp [replayTransfer, answer, fetch, run, findIdempotencyKey, lockIdempotencyKey, readOnly,
      hrow', hself, found, refuse, hhash, hcomplete, hsnapshot, Except.map]
  · simp [replayTransfer, answer, fetch, run, findIdempotencyKey, lockIdempotencyKey, readOnly,
      hrow', hself, found, refuse, hhash, Except.map]

end Taken

/-! ## Accepted requests -/

namespace AcceptedTransfer

variable {lib : TransferLibrary} (r : AcceptedTransfer lib)

def normalized : NormalizedTransfer where
  fromAccountID := r.fromPublicID.text
  toAccountNumber := trimSpace r.req.toAccountNumber
  amount := r.req.amount
  currency := r.req.currency
  narration := trimSpace r.req.narration

def Agrees (r r' : AcceptedTransfer lib) : Prop :=
  r.fromPublicID = r'.fromPublicID ∧
    trimSpace r.req.toAccountNumber = trimSpace r'.req.toAccountNumber ∧
    r.req.amount = r'.req.amount ∧ r.req.currency = r'.req.currency ∧
    trimSpace r.req.narration = trimSpace r'.req.narration

instance (r r' : AcceptedTransfer lib) : Decidable (r.Agrees r') :=
  inferInstanceAs (Decidable (_ ∧ _ ∧ _ ∧ _ ∧ _))

theorem transferParams_eq :
    transferParams lib r.username r.correlationID r.key (.ok r.req) = .ok r.arg :=
  transferParams_ok_iff.mpr ⟨r, rfl, rfl, rfl, rfl, rfl⟩

theorem createTransfer_taken {db : DB} {row : IdempotencyKey} {snapshot : ResultSnapshot}
    {env : Env} (auditEnv : Env) (hrow : db.keyRow r.username r.key = some row)
    (hlive : row.expired env.now = false) (hcomplete : row.transactionID ≠ none)
    (hsnapshot : row.resultSnapshot = some snapshot) :
    createTransfer lib r.username r.correlationID r.key (.ok r.req) env auditEnv db =
      if row.requestHash = r.arg.requestHash then .success 201 (.transfer snapshot.replay)
      else .codedErrorResponse 409 "idempotency_conflict" .idempotencyConflict := by
  simp only [createTransfer, r.transferParams_eq]
  rw [r.transferReply_serve, answer_taken hrow hlive, answer_replayTransfer hrow hcomplete hsnapshot]
  split_ifs <;> rfl

end AcceptedTransfer

/-- The hashed bytes of two accepted requests are the same exactly if the requests ask for
the same transfer. If the hash does not take one for the other, a key under which the
first is recorded is answered from the record for the same transfer, and refused for
any other. -/
theorem transferPayload_eq_iff (parseUUID : String → Option UUID) (sha256 : Bytes → Bytes)
    (hlength : ∀ x, (sha256 x).length = 32)
    (first again : AcceptedTransfer (sha256Library parseUUID sha256 hlength)) :
    (first.normalized.payload = again.normalized.payload ↔ first.Agrees again) ∧
    ((sha256 first.normalized.payload = sha256 again.normalized.payload →
        first.normalized.payload = again.normalized.payload) →
      again.username = first.username → again.key = first.key →
      ∀ (db : DB) (row : IdempotencyKey) (snapshot : ResultSnapshot) (env auditEnv : Env),
        db.keyRow first.username first.key = some row → row.expired env.now = false →
        row.requestHash = first.arg.requestHash → row.transactionID ≠ none →
        row.resultSnapshot = some snapshot →
        createTransfer (sha256Library parseUUID sha256 hlength) again.username
            again.correlationID again.key (.ok again.req) env auditEnv db =
          if first.Agrees again then .success 201 (.transfer snapshot.replay)
          else .codedErrorResponse 409 "idempotency_conflict" .idempotencyConflict) := by
  have hpayload : first.normalized.payload = again.normalized.payload ↔ first.Agrees again := by
    rw [NormalizedTransfer.payload_injective.eq_iff, AcceptedTransfer.normalized,
      AcceptedTransfer.normalized, NormalizedTransfer.mk.injEq, UUID.text_injective.eq_iff]
    rfl
  refine ⟨hpayload, ?_⟩
  intro hcollision husername hkey db row snapshot env auditEnv hrow hlive hhash hcomplete hsnapshot
  have hsame : row.requestHash = again.arg.requestHash ↔ first.Agrees again := by
    rw [hhash, ← hpayload]
    exact ⟨hcollision, fun heq => congrArg sha256 heq⟩
  rw [again.createTransfer_taken auditEnv (by rw [husername, hkey, hrow]) hlive hcomplete hsnapshot]
  simp only [hsame]

/-! ## Rent that is paid once -/

def lastBytes (bytes : Bytes) : Bytes := (bytes.reverse ++ List.replicate 32 0).take 32

theorem length_lastBytes (bytes : Bytes) : (lastBytes bytes).length = 32 := by
  simp [lastBytes]

def parseOneUUID (text : String) : Option UUID :=
  if text = "00000000-0000-0000-0000-0000000000a7" ∨
      text = "00000000-0000-0000-0000-0000000000A7" then some 0xa7 else none

abbrev oneAccountLibrary : TransferLibrary := sha256Library parseOneUUID lastBytes length_lastBytes

def requestOf (req : TransferRequest) (valid : req.validate = .ok req)
    (parsed : oneAccountLibrary.parseUUID req.fromAccountID = some 0xa7)
    (number_ok : isAccountNumber (trimSpace req.toAccountNumber) = true) :
    AcceptedTransfer oneAccountLibrary :=
  ⟨"alice", 1, "key", req, 0xa7, by decide, valid, parsed, number_ok⟩

def rent : AcceptedTransfer oneAccountLibrary :=
  requestOf ⟨"00000000-0000-0000-0000-0000000000a7", "0000000009", 5, "USD", "rent"⟩ rfl (by decide)
    (by decide +kernel)

def rentAgain : AcceptedTransfer oneAccountLibrary :=
  requestOf ⟨"00000000-0000-0000-0000-0000000000A7", " 0000000009", 5, "USD", " rent\n"⟩ rfl
    (by decide) (by decide +kernel)

def rentOfMay : AcceptedTransfer oneAccountLibrary :=
  requestOf ⟨"00000000-0000-0000-0000-0000000000a7", "0000000009", 5, "USD", "rent, May"⟩ rfl
    (by decide) (by decide +kernel)

def rentSnapshot : ResultSnapshot :=
  ⟨⟨1, "TXN-1", .internalTransfer, .posted, "USD", 5, "rent", "alice", none, 0, some 0, none, none⟩,
    [], bobsAccount, bobsAccount⟩

def rentRow : IdempotencyKey :=
  ⟨1, "alice", "key", rent.arg.requestHash, some 1, some 201, some rentSnapshot, 0, 86400000000⟩

def rentPaid : DB :=
  { DB.initial twoCustomers with idempotencyKeys := ⟨[rentRow], List.pairwise_singleton _ _⟩ }

theorem transferPayload_eq_iff_rent :
    createTransfer oneAccountLibrary "alice" 1 "key" (.ok rentAgain.req) (.drawing 1 1)
        (.drawing 1 2) rentPaid = .success 201 (.transfer rentSnapshot.replay) ∧
    createTransfer oneAccountLibrary "alice" 1 "key" (.ok rentOfMay.req) (.drawing 1 1)
        (.drawing 1 2) rentPaid =
      .codedErrorResponse 409 "idempotency_conflict" .idempotencyConflict := by
  have hsame : rent.Agrees rentAgain := by decide +kernel
  have hother : ¬ rent.Agrees rentOfMay := by decide +kernel
  have hhash : lastBytes rent.normalized.payload ≠ lastBytes rentOfMay.normalized.payload := by
    decide +kernel
  have hkept : rentRow.requestHash = rent.arg.requestHash := by simp only [rentRow]
  have hrow : rentPaid.keyRow rent.username rent.key = some rentRow := by decide +kernel
  obtain ⟨hpayload, hagain⟩ :=
    transferPayload_eq_iff parseOneUUID lastBytes length_lastBytes rent rentAgain
  obtain ⟨_, hmay⟩ := transferPayload_eq_iff parseOneUUID lastBytes length_lastBytes rent rentOfMay
  have hreplayed := hagain (fun _ => hpayload.mpr hsame) rfl rfl rentPaid rentRow rentSnapshot
    (.drawing 1 1) (.drawing 1 2) hrow rfl hkept (Option.some_ne_none _) rfl
  have hrefused := hmay (fun h => (hhash h).elim) rfl rfl rentPaid rentRow rentSnapshot
    (.drawing 1 1) (.drawing 1 2) hrow rfl hkept (Option.some_ne_none _) rfl
  rw [if_pos hsame] at hreplayed
  rw [if_neg hother] at hrefused
  exact ⟨hreplayed, hrefused⟩

end Monierave
