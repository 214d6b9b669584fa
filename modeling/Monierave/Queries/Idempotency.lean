import Monierave.Queries.Accounts

/-! # Queries on idempotency keys

A delete or a locking read that looks a row up by a condition works in two parts: it
picks the row from what is committed when it starts, waits for the row's lock, and
looks at the row again once it has the lock, since another transaction may have
deleted it meanwhile.
-/

namespace Monierave

open Relational ReadCommitted

def IdempotencyKey.expired (now : Timestamp) (r : IdempotencyKey) : Bool :=
  decide (r.expiresAt ≤ now)

variable {now : Timestamp} {r : IdempotencyKey} {own : List Write} {db : DB}
    {username key : String}

theorem IdempotencyKey.expired_eq_false : r.expired now = false ↔ now < r.expiresAt := by
  simp [expired]

/-- The expired row under a key, as the scan of `DeleteExpiredIdempotencyKey`
finds it. -/
def findExpiredIdempotencyKey (now : Timestamp) (username key : String) : Query (Option Int64) :=
  readOnly fun db => ((db.idempotencyKeys.get (.ownerOperation username key)).filter
    (IdempotencyKey.expired now)).map IdempotencyKey.id

/-- Delete a row that a scan found, if it is still there and the condition of the
statement still holds of it. The answer is the number of rows deleted. -/
def deleteIdempotencyKeyIf (cond : IdempotencyKey → Bool) (id : Int64) : Query Nat where
  waits _ := [.idempotencyKey (.id id)]
  exec _ db :=
    match (db.idempotencyKeys.get (.id id)).filter cond with
    | none => .ok { result := 0 }
    | some r => .ok { result := 1, writes := [.deleteIdempotencyKey r] }

theorem deleteIdempotencyKeyIf_ok {cond : IdempotencyKey → Bool} {id : Int64} {eff : Answer Nat} :
    (deleteIdempotencyKeyIf cond id).exec own db = .ok eff ↔
      eff = ⟨((db.idempotencyKeys.get (.id id)).filter cond).toList.length,
        ((db.idempotencyKeys.get (.id id)).filter cond).toList.map .deleteIdempotencyKey, []⟩ := by
  cases h : (db.idempotencyKeys.get (.id id)).filter cond <;>
    simp [deleteIdempotencyKeyIf, h, eq_comm]

/-- The condition of `DeleteExpiredIdempotencyKey`. -/
def IdempotencyKey.expiredUnder (now : Timestamp) (username key : String) (r : IdempotencyKey) :
    Bool :=
  r.username == username && r.idempotencyKey == key && r.expired now

theorem IdempotencyKey.expiredUnder_iff :
    r.expiredUnder now username key = true ↔
      .ownerOperation username key ∈ keys r ∧ r.expired now = true := by
  simp only [expiredUnder, keys, Bool.and_eq_true, beq_iff_eq, List.mem_cons, reduceCtorEq,
    List.not_mem_nil, IdempotencyKeyKey.ownerOperation.injEq, false_or, or_false]
  constructor
  · rintro ⟨⟨rfl, rfl⟩, hexp⟩
    exact ⟨⟨rfl, rfl⟩, hexp⟩
  · rintro ⟨⟨rfl, rfl⟩, hexp⟩
    exact ⟨⟨rfl, rfl⟩, hexp⟩

def newIdempotencyKey (env : Env) (username key : String) (requestHash : Bytes) :
    IdempotencyKey where
  id := env.serial 2
  username := username
  idempotencyKey := key
  requestHash := requestHash
  transactionID := none
  responseStatus := none
  resultSnapshot := none
  createdAt := env.now
  expiresAt := env.now + microsPerDay

/-- `INSERT ... ON CONFLICT (username, operation, idempotency_key) DO NOTHING`:
waits for a concurrent holder of the key, answers none if the key is taken. -/
def createIdempotencyKey (env : Env) (username key : String) (requestHash : Bytes) :
    Query (Option IdempotencyKey) where
  waits _ := [.idempotencyKey (.ownerOperation username key)]
  exec own db :=
    match db.idempotencyKeys.get (.ownerOperation username key) with
    | some _ => .ok { result := none }
    | none =>
      match (insertRow DB.idempotencyKeys IdempotencyKeyKey.constraint (fun _ => none)
          (missingUser "idempotency_keys_username_fkey" username) .insertIdempotencyKey
          (newIdempotencyKey env username key requestHash)).exec own db with
      | .error e => .error e
      | .ok eff => .ok { eff with result := some eff.result }

theorem createIdempotencyKey_ok {env : Env} {requestHash : Bytes}
    {eff : Answer (Option IdempotencyKey)} :
    (createIdempotencyKey env username key requestHash).exec own db = .ok eff ↔
      ((∃ r, db.idempotencyKeys.get (.ownerOperation username key) = some r) ∧
        eff = ⟨none, [], []⟩) ∨
      (db.idempotencyKeys.conflict (newIdempotencyKey env username key requestHash) = none ∧
        missingUser "idempotency_keys_username_fkey" username db = none ∧
        eff = ⟨some (newIdempotencyKey env username key requestHash),
          [.insertIdempotencyKey (newIdempotencyKey env username key requestHash)], []⟩) := by
  have hmem : IdempotencyKeyKey.ownerOperation username key ∈
      keys (newIdempotencyKey env username key requestHash) := by
    simp [keys, newIdempotencyKey]
  cases hg : db.idempotencyKeys.get (.ownerOperation username key) with
  | some r =>
    simp only [createIdempotencyKey, hg, Except.ok.injEq]
    constructor
    · rintro rfl
      exact Or.inl ⟨⟨r, rfl⟩, rfl⟩
    · rintro (⟨_, rfl⟩ | ⟨hc, _, _⟩)
      · rfl
      · have := Table.conflict_eq_none.mp hc _ hmem
        rw [hg] at this
        cases this
  | none =>
    constructor
    · intro h
      right
      cases hi : (insertRow DB.idempotencyKeys IdempotencyKeyKey.constraint (fun _ => none)
          (missingUser "idempotency_keys_username_fkey" username) .insertIdempotencyKey
          (newIdempotencyKey env username key requestHash)).exec own db with
      | error e => simp [createIdempotencyKey, hg, hi] at h
      | ok e =>
        simp only [createIdempotencyKey, hg, hi, Except.ok.injEq] at h
        obtain ⟨_, hc, hu, he⟩ := insertRow_ok.mp hi
        subst he h
        exact ⟨hc, hu, rfl⟩
    · rintro (⟨⟨r, hr⟩, _⟩ | ⟨hc, hu, rfl⟩)
      · cases hr
      · simp [createIdempotencyKey, hg, insertRow, hc, hu]

/-- The row under a key, as the scan of `GetIdempotencyKeyForUpdate` finds it. -/
def findIdempotencyKey (username key : String) : Query (Option Int64) :=
  readOnly fun db =>
    (db.idempotencyKeys.get (.ownerOperation username key)).map IdempotencyKey.id

def IdempotencyKey.rowLock (r : IdempotencyKey) : LockKey := .idempotencyKey (.id r.id)

def lockIdempotencyKey (id : Int64) : Query (Option IdempotencyKey) where
  waits _ := [.idempotencyKey (.id id)]
  exec _ db := .ok {
    result := db.idempotencyKeys.get (.id id)
    locks := (db.idempotencyKeys.get (.id id)).toList.map IdempotencyKey.rowLock }

/-- The completion check of the table. The length checks hold of every key the
store lets through. -/
def IdempotencyKey.violated (r : IdempotencyKey) : Option SqlError :=
  if r.transactionID.isSome = r.responseStatus.isSome ∧
      r.responseStatus.isSome = r.resultSnapshot.isSome then none
  else some (.checkViolation "idempotency_keys_completion_check")

structure CompleteIdempotencyKeyParams where
  username : String
  idempotencyKey : String
  transactionID : UUID
  responseStatus : Int
  resultSnapshot : ResultSnapshot

def IdempotencyKey.complete (arg : CompleteIdempotencyKeyParams) (r : IdempotencyKey) :
    Except SqlError (Option IdempotencyKey) :=
  .ok (if r.transactionID = none then some { r with
    transactionID := some arg.transactionID
    responseStatus := some arg.responseStatus
    resultSnapshot := some arg.resultSnapshot } else none)

def completeIdempotencyKey (arg : CompleteIdempotencyKeyParams) : Query (Option IdempotencyKey) :=
  updateRow DB.idempotencyKeys (.ownerOperation arg.username arg.idempotencyKey)
    (IdempotencyKey.complete arg) (fun _ r => r.violated) IdempotencyKeyKey.constraint
    .updateIdempotencyKey .idempotencyKey

theorem IdempotencyKey.complete_some {arg : CompleteIdempotencyKeyParams} {o : IdempotencyKey}
    (h : o.complete arg = .ok (some r)) :
    o.transactionID = none ∧ r = { o with
      transactionID := some arg.transactionID
      responseStatus := some arg.responseStatus
      resultSnapshot := some arg.resultSnapshot } := by
  unfold complete at h
  by_cases hc : o.transactionID = none
  · rw [if_pos hc] at h
    cases h
    exact ⟨hc, rfl⟩
  · rw [if_neg hc] at h
    cases h

/-- The expired rows, as the scan of `DeleteExpiredIdempotencyKeys` finds them. -/
def findExpiredIdempotencyKeys (now : Timestamp) : Query (List Int64) :=
  readOnly fun db =>
    (db.idempotencyKeys.rows.filter (IdempotencyKey.expired now)).map IdempotencyKey.id

end Monierave
