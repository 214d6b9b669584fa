import Monierave.Banking.Serial

/-! # The banking operations beside the cleanup of idempotency keys

The relay deletes expired idempotency keys from time to time.
-/

namespace Monierave

open Relational ReadCommitted Prog

def deleteScannedKeys (now : Timestamp) : List Int64 → Tx Nat
  | [] => pure 0
  | id :: ids => do
    let deleted ← call (deleteIdempotencyKeyIf (IdempotencyKey.expired now) id)
    let others ← deleteScannedKeys now ids
    pure (deleted + others)

def deleteExpiredIdempotencyKeys (now : Timestamp) : Tx Nat := do
  let ids ← call (findExpiredIdempotencyKeys now)
  deleteScannedKeys now ids

inductive StoreTx
  | banking (t : BankingTx)
  | deleteExpiredIdempotencyKeys (now : Timestamp)

inductive StoreOp
  | banking (op : BankingOp)
  | deleteExpiredIdempotencyKeys (now : Timestamp)

def StoreTx.body : StoreTx → Tx Response
  | banking t => t.body
  | deleteExpiredIdempotencyKeys now => do
    pure (.deleted (← Monierave.deleteExpiredIdempotencyKeys now))

def StoreOp.job : StoreOp → Job StoreTx Response Err
  | banking op => op.job.map .banking
  | deleteExpiredIdempotencyKeys now => .tx (.deleteExpiredIdempotencyKeys now) .done

def storeSystem : System Write DB LockKey Err StoreTx Response StoreOp where
  body := StoreTx.body
  job := StoreOp.job

abbrev StoreState := State Write DB LockKey Err StoreTx Response StoreOp

abbrev StoreAction := Action Err StoreOp

def storeRun (db₀ : DB) (acts : List StoreAction) : StoreState :=
  storeSystem.run (State.init db₀) acts

/-- The write deletes a key that is expired at `now`. -/
def Write.deletesExpired (now : Timestamp) (w : Write) : Prop :=
  ∃ o, w = .deleteIdempotencyKey o ∧ o.expired now = true

theorem confined_deleteScannedKeys (now : Timestamp) (ids : List Int64) :
    (deleteScannedKeys now ids).Confined (fun _ => True) (Write.deletesExpired now)
      fun _ => True := by
  induction ids with
  | nil => trivial
  | cons id ids ih =>
    refine .bind (Q := fun _ => True) (.call ?_) fun _ _ =>
      ih.bind fun _ _ => trivial
    intro own db eff _ hs
    obtain rfl := deleteIdempotencyKeyIf_ok.mp hs
    refine ⟨?_, trivial⟩
    intro w hw
    obtain ⟨o, ho, rfl⟩ := List.mem_map.mp hw
    exact ⟨o, rfl, (Option.filter_eq_some_iff.mp (Option.mem_toList.mp ho)).2⟩

theorem confined_deleteExpiredIdempotencyKeys (now : Timestamp) :
    (StoreTx.body (.deleteExpiredIdempotencyKeys now)).Confined (fun _ => True)
      (Write.deletesExpired now) fun _ => True := by
  refine .bind (Q := fun _ => True) ?_ fun _ _ => trivial
  refine .bind (Q := fun _ => True) (.call ?_) fun ids _ =>
    confined_deleteScannedKeys now ids
  intro own db eff _ hs
  obtain rfl := readOnly_ok.mp hs
  exact ⟨by simp, trivial⟩

theorem toBooks_deletes {now : Timestamp} {ws : List Write} (h : ∀ w ∈ ws, w.deletesExpired now)
    (db : DB) : (view ws db).toBooks = db.toBooks := by
  apply toBooks_view
  intro w hw
  obtain ⟨o, rfl, _⟩ := h w hw
  rfl

theorem users_deletes {now : Timestamp} {ws : List Write} (h : ∀ w ∈ ws, w.deletesExpired now)
    (db : DB) : (view ws db).users = db.users := by
  induction ws generalizing db with
  | nil => rfl
  | cons w ws ih =>
    rw [List.forall_mem_cons] at h
    obtain ⟨o, rfl, _⟩ := h.1
    exact ih h.2 _

theorem stable_deletes {now : Timestamp} {ws : List Write} (h : ∀ w ∈ ws, w.deletesExpired now)
    {H : LockKey → Prop} (hH : ∀ w ∈ ws, ∀ k ∈ w.keys, ¬ H k) (db : DB) :
    DB.Stable H db (view ws db) := by
  have hbooks := toBooks_deletes h db
  have hentry : ∀ k, H k → (view ws db).entry k = db.entry k := fun k hk =>
    DB.entry_view_of_notMem (fun w hw hmem => hH w hw k hmem hk) db
  refine ⟨?_, ?_, ?_, ?_, ?_, ?_, ?_⟩
  · intro k hk _
    exact (hentry k hk).symm
  · intro k hk _ hnone
    rw [hentry k hk, hnone]
  · intro t _
    rw [hbooks]
  · intro a l _ _
    rw [hbooks]
    exact ⟨rfl, fun _ _ _ => rfl⟩
  · intro k a ha
    rw [hbooks]
    exact ⟨a, ha, rfl⟩
  · intro k l hl
    rw [hbooks]
    exact hl
  · intro k u hu
    rw [users_deletes h]
    exact hu

def StoreTx.standIn : StoreTx → Tx Response → Prop
  | banking t, p => t.standIn p
  | deleteExpiredIdempotencyKeys _, _ => False

def storeDiscipline : Discipline storeSystem where
  toReliance := bankingReliance
  inv db := db.WellFormed
  inv_wf h := h
  free
    | .banking _, _ => False
    | .deleteExpiredIdempotencyKeys now, w => w.deletesExpired now
  free_commit {t ws db} hfree hinv := by
    cases t with
    | banking t =>
      cases ws with
      | nil => exact ⟨hinv, fun _ _ => stable_refl _ db⟩
      | cons w ws => exact (hfree w List.mem_cons_self).elim
    | deleteExpiredIdempotencyKeys now =>
      refine ⟨?_, fun H hH => stable_deletes hfree hH db⟩
      rw [toBooks_deletes hfree]
      exact hinv
  base := StoreTx.standIn
  base_body
    | .banking _ => Or.inl (Or.inl rfl)
    | .deleteExpiredIdempotencyKeys now => Or.inr (confined_deleteExpiredIdempotencyKeys now)
  base_run {t p db d} hp hrun hw := by
    cases t with
    | banking t => exact standIn_run hp hrun hw
    | deleteExpiredIdempotencyKeys now => exact hp.elim
  robust {t p} hp := by
    cases t with
    | banking t => exact robust_standIn hp
    | deleteExpiredIdempotencyKeys now => exact hp.elim
  commit {t p db d} hp hinv hrun _ := by
    cases t with
    | banking t => exact ⟨commit_wellFormed hinv hrun, fun _ hH => commit_stable hinv hrun hH⟩
    | deleteExpiredIdempotencyKeys now => exact hp.elim

end Monierave
