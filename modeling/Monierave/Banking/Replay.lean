import Monierave.Banking.Retries
import Monierave.Banking.Store

/-! # Calls with one key

What a call of `IdempotentTransferTx` does when it finds its key taken, what the
commits of calls and cleanups do to the row of a key, and which transactions they
consist of.
-/

namespace Monierave

open Relational ReadCommitted Prog

variable {env : Env} {arg : IdempotentTransferTxParams} {db : DB}

/-- The response is the result recorded in the row, and the request is the one
that was recorded. -/
def IdempotencyKey.Replays (row : IdempotencyKey) (arg : IdempotentTransferTxParams)
    (a : Response) : Prop :=
  row.requestHash = arg.requestHash ∧
    ∃ snapshot, row.resultSnapshot = some snapshot ∧ a = .transfer snapshot.replay

variable {row : IdempotencyKey} {d : Answer Response} {ws : List Write} {op : StoreOp}
    {t : StoreTx} {next : Except Err Response → Job StoreTx Response Err}
    {arg : IdempotentTransferTxParams} {fresh : UUID} {env auditEnv : Env}

theorem confined_replayTransfer :
    (replayTransfer arg).Confined
      (fun db => db.keyRow arg.username arg.idempotencyKey = some row) (fun _ => False)
      fun r => row.Replays arg (.transfer r) := by
  refine .bind (Q := fun id => id = row.id) (.fetch ?_) fun id hid => ?_
  · intro own db eff hrow hs
    obtain rfl := readOnly_ok.mp hs
    rw [DB.keyRow] at hrow
    simp [hrow, eq_comm]
  refine .bind (Q := fun existing => existing = row) (.fetch ?_)
    fun existing hexisting => ?_
  · intro own db eff hrow hs
    have hself : db.idempotencyKeys.get (.id row.id) = some row :=
      Table.get_eq_of_key hrow (Keyed.pk_mem row)
    cases hs
    simp [hid, hself, eq_comm]
  subst hexisting
  refine .bind Confined.refuse fun _ hhash => .bind Confined.refuse fun _ _ => ?_
  refine .bind Confined.found fun snapshot hsnapshot => ?_
  exact ⟨not_not.mp hhash, snapshot, hsnapshot, rfl⟩

theorem confined_replay (env : Env) :
    (afterReserve env arg none).Confined
      (fun db => db.keyRow arg.username arg.idempotencyKey = some row) (fun _ => False)
      (row.Replays arg) := by
  refine .bind (Q := fun r => row.Replays arg (.transfer r)) ?_ fun _ h => h
  refine confined_replayTransfer.bind fun r hr => ?_
  refine .bind (Q := fun _ => True) (.call ?_) fun _ _ => hr
  intro own db eff _ hs
  obtain ⟨_, rfl⟩ := deferredTriggers_ok.mp hs
  simp

/-- How far a call has come: it has written something, or it has not found out
about its key, or the key is taken and it is about to answer. -/
inductive Waiting (db : DB) (env : Env) (arg : IdempotentTransferTxParams) :
    Tx Response → List Write → Prop
  | start : Waiting db env arg (BankingTx.body (.idempotentTransfer env arg)) []
  | scanned : Waiting db env arg (afterScan env arg none) []
  | replaying {row : IdempotencyKey} {rest : Tx Response}
      (hrow : db.keyRow arg.username arg.idempotencyKey = some row)
      (hrest : rest.Confined (fun db => db.keyRow arg.username arg.idempotencyKey = some row)
        (fun _ => False) (row.Replays arg)) : Waiting db env arg rest []
  | writing {rest : Tx Response} {own : List Write} (hown : own ≠ []) : Waiting db env arg rest own

namespace Waiting

variable {rest : Tx Response} {own : List Write}

theorem advance {β : Type} {q : Query β} {k : β → Tx Response} {eff : Answer β}
    (h : Waiting db env arg rest own) (hrest : rest = .stmt q k)
    (hq : q.exec own (view own db) = .ok eff)
    (hlive : ∀ row, db.keyRow arg.username arg.idempotencyKey = some row →
      row.expired env.now = false) : Waiting db env arg (k eff.result) (own ++ eff.writes) := by
  cases h with
  | start =>
    rw [body_idempotentTransfer] at hrest
    cases hrest
    obtain rfl := readOnly_ok.mp hq
    have hnone : (db.keyRow arg.username arg.idempotencyKey).filter
        (IdempotencyKey.expired env.now) = none := by
      cases hrow : db.keyRow arg.username arg.idempotencyKey with
      | none => rfl
      | some row => simp [hlive row hrow]
    rw [DB.keyRow] at hnone
    simp only [view_nil, hnone, Option.map_none, List.append_nil]
    exact .scanned
  | scanned =>
    rw [afterScan_none] at hrest
    cases hrest
    rcases createIdempotencyKey_ok.mp hq with ⟨⟨row, hrow⟩, rfl⟩ | ⟨_, _, rfl⟩
    · exact .replaying hrow (confined_replay env)
    · exact .writing (by simp)
  | replaying hrow hconf =>
    subst hrest
    obtain ⟨hw, hk⟩ := hconf [] db eff hrow hq
    rw [List.eq_nil_iff_forall_not_mem.mpr hw]
    exact .replaying hrow hk
  | writing hown => exact .writing (by simp [hown])

theorem of_row {db' : DB} (h : Waiting db env arg rest own)
    (hrow : ∀ row, db.keyRow arg.username arg.idempotencyKey = some row →
      db'.keyRow arg.username arg.idempotencyKey = some row) : Waiting db' env arg rest own := by
  cases h with
  | start => exact .start
  | scanned => exact .scanned
  | replaying h hrest => exact .replaying (hrow _ h) hrest
  | writing hown => exact .writing hown

theorem replays {a : Response} (h : Waiting db env arg (.ret a) []) :
    ∃ row, db.keyRow arg.username arg.idempotencyKey = some row ∧ row.Replays arg a := by
  generalize hrest : (.ret a : Tx Response) = rest at h
  cases h with
  | start =>
    rw [body_idempotentTransfer] at hrest
    cases hrest
  | scanned =>
    rw [afterScan_none] at hrest
    cases hrest
  | replaying hrow hconf =>
    subst hrest
    exact ⟨_, hrow, hconf⟩
  | writing hown => exact absurd rfl hown

end Waiting

variable {u k : String}

theorem call_run_taken (hrow : db.keyRow arg.username arg.idempotencyKey = some row)
    (hlive : row.expired env.now = false)
    (hrun : (BankingTx.body (.idempotentTransfer env arg)).run [] db = .ok d) : d.writes = [] := by
  rw [body_idempotentTransfer] at hrun
  obtain ⟨eff, rest, hs, hk, rfl⟩ := run_stmt_ok.mp hrun
  obtain rfl := readOnly_ok.mp hs
  rw [DB.keyRow] at hrow
  simp only [hrow, Option.filter, hlive] at hk
  exact afterScan_none_writes hk hrow

theorem call_run_free (hwf : db.WellFormed)
    (hfree : db.keyRow arg.username arg.idempotencyKey = none)
    (hrun : (BankingTx.body (.idempotentTransfer env arg)).run [] db = .ok d) :
    ∃ r, d.result = .transfer r ∧
      Recorded env arg (.start db) r ⟨d.writes, view d.writes db, d.locks⟩ := by
  have hbody : Ensures (BankingTx.body (.idempotentTransfer env arg)) (.start db) fun a s' =>
      ∃ r, a = .transfer r ∧ Recorded env arg (.start db) r s' :=
    Ensures.bind ((ensures_idempotentTransferTx_free hwf hfree).mono fun r _ h =>
      Ensures.ret ⟨r, rfl, h⟩)
  exact hbody.of_run hrun

/-- A call that commits either answers with the recorded result and has written
nothing, or its key was free and it has transferred. -/
theorem call_commit {own : List Write} {held : List LockKey} {a : Response} (hwf : db.WellFormed)
    (hwait : Waiting db env arg (.ret a) own)
    (hrun : own ≠ [] →
      (BankingTx.body (.idempotentTransfer env arg)).run [] db = .ok ⟨a, own, held⟩)
    (hlive : ∀ row, db.keyRow arg.username arg.idempotencyKey = some row →
      row.expired env.now = false) :
    (own = [] ∧ ∃ row, db.keyRow arg.username arg.idempotencyKey = some row ∧
      row.Replays arg a) ∨
    (db.keyRow arg.username arg.idempotencyKey = none ∧ ∃ r, a = .transfer r ∧
      Recorded env arg (.start db) r ⟨own, view own db, held⟩) := by
  by_cases hown : own = []
  · subst hown
    exact Or.inl ⟨rfl, hwait.replays⟩
  · right
    cases hrow : db.keyRow arg.username arg.idempotencyKey with
    | some row => exact absurd (call_run_taken hrow (hlive row hrow) (hrun hown)) hown
    | none => exact ⟨rfl, call_run_free hwf hrow (hrun hown)⟩

theorem keyRow_notices (h : ∀ w ∈ ws, w.isNotice = true) (db : DB) :
    (view ws db).keyRow u k = db.keyRow u k := by
  induction ws generalizing db with
  | nil => rfl
  | cons w ws ih =>
    rw [List.forall_mem_cons] at h
    rw [view_cons, ih h.2]
    cases w with
    | insertAuditLog r => rfl
    | insertEmailJob r => rfl
    | insertOutboxEvent r => rfl
    | _ => cases h.1

theorem keyRow_deletes {now : Timestamp} (h : ∀ w ∈ ws, w.deletesExpired now)
    (hlive : ∀ row, db.keyRow u k = some row → row.expired now = false) :
    (view ws db).keyRow u k = db.keyRow u k := by
  induction ws generalizing db with
  | nil => rfl
  | cons w ws ih =>
    rw [List.forall_mem_cons] at h
    obtain ⟨o, rfl, hexpired⟩ := h.1
    have hsame : (Write.apply (.deleteIdempotencyKey o) db).keyRow u k = db.keyRow u k := by
      apply Table.get_remove_of_ne
      intro ho
      rw [hlive o ho] at hexpired
      cases hexpired
    rw [view_cons, apply_write, ih h.2, hsame]
    rw [hsame]
    exact hlive

/-- A call of `IdempotentTransferTx`. -/
abbrev StoreOp.call (arg : IdempotentTransferTxParams) (fresh : UUID) (env auditEnv : Env) :
    StoreOp := .banking (.idempotentTransferTx arg fresh env auditEnv)

def IdempotentTransferTxParams.correlated (fresh : UUID) (arg : IdempotentTransferTxParams) :
    IdempotentTransferTxParams :=
  { arg with correlationID := auditCorrelation fresh arg.correlationID }

def StoreOp.concerns (username key : String) : StoreOp → Prop
  | .banking (.idempotentTransferTx arg _ _ _) =>
    arg.username = username ∧ arg.idempotencyKey = key
  | .deleteExpiredIdempotencyKeys _ => True
  | .banking _ => False

/-- The transaction of the call or cleanup starts before `time`. -/
def StoreOp.startsBefore (time : Timestamp) : StoreOp → Prop
  | .banking (.idempotentTransferTx _ _ env _) => env.now < time
  | .deleteExpiredIdempotencyKeys now => now < time
  | .banking _ => True

/-- The transactions of calls and cleanups, and how they go on. -/
inductive Stage : StoreOp → StoreTx → (Except Err Response → Job StoreTx Response Err) → Prop
  | call (arg : IdempotentTransferTxParams) (fresh : UUID) (env auditEnv : Env)
      {next : Except Err Response → Job StoreTx Response Err}
      (hok : ∀ a, next (.ok a) = .done (.ok a)) (herror : ∀ e, ∃ t n, next (.error e) = .tx t n) :
      Stage (.call arg fresh env auditEnv)
        (.banking (.idempotentTransfer env (arg.correlated fresh))) next
  | failure {op : StoreOp} (env : Env) (arg : TransferTxParams) (e : Err)
      {next : Except Err Response → Job StoreTx Response Err}
      (hend : ∀ x, ∃ e, next x = .done (.error e)) :
      Stage op (.banking (.auditTransferFailure env arg e)) next
  | cleanup (now : Timestamp) :
      Stage (.deleteExpiredIdempotencyKeys now) (.deleteExpiredIdempotencyKeys now) .done

theorem stage_of_leads (hop : op.concerns u k) (h : (storeSystem.job op).Leads t next) :
    Stage op t next := by
  match op, hop with
  | .deleteExpiredIdempotencyKeys now, _ =>
    cases h with
    | here t next => exact .cleanup now
    | later x h => cases h
  | .banking (.idempotentTransferTx arg fresh env auditEnv), _ =>
    simp only [storeSystem, StoreOp.job, BankingOp.job] at h
    split_ifs at h with hinvalid
    · cases h
    · cases h with
      | here t next =>
        refine .call arg fresh env auditEnv (fun a => rfl) fun e => ⟨_, _, rfl⟩
      | later x h =>
        cases x with
        | ok a => cases h
        | error e =>
          cases h with
          | here t next =>
            refine .failure _ _ _ fun x => ?_
            cases x with
            | ok a => exact ⟨_, rfl⟩
            | error e' => exact ⟨_, rfl⟩
          | later x h =>
            cases x with
            | ok a => cases h
            | error e' => cases h

theorem Stage.rollback_ne (h : Stage op t next) (e : Err) (a : Response) :
    storeSystem.enter op (next (.error e)) ≠
      .finished (.call arg fresh env auditEnv) (.ok a) := by
  intro hfinished
  cases h with
  | call arg fresh env auditEnv hok herror =>
    obtain ⟨t, n, htx⟩ := herror e
    rw [htx] at hfinished
    cases hfinished
  | failure env arg e' hend =>
    obtain ⟨e', he⟩ := hend (.error e)
    rw [he] at hfinished
    cases hfinished
  | cleanup now => cases hfinished

theorem enter_job_ne (hop : op.concerns u k) (a : Response) :
    storeSystem.enter op (storeSystem.job op) ≠
      .finished (.call arg fresh env auditEnv) (.ok a) := by
  intro hfinished
  match op, hop with
  | .deleteExpiredIdempotencyKeys now, _ => cases hfinished
  | .banking (.idempotentTransferTx arg fresh env auditEnv), _ =>
    simp only [storeSystem, StoreOp.job, BankingOp.job] at hfinished
    split_ifs at hfinished
    · cases hfinished
    · cases hfinished

end Monierave
