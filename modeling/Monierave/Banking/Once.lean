import Mathlib.Data.List.Infix
import Monierave.Banking.Replay

/-! # One transfer for one key

Any number of calls with the same key run side by side, some of them failing, while
expired keys are cleaned up.
-/

namespace Monierave

open Relational ReadCommitted Prog

variable {env : Env} {arg : IdempotentTransferTxParams} {db : DB} {u k : String}

/-- The call of worker `w` has returned `a`. -/
def Succeeded (s : StoreState) (w : Nat) (arg : IdempotentTransferTxParams) (a : Response) : Prop :=
  ∃ fresh env auditEnv, s.workers w = .finished (.call arg fresh env auditEnv) (.ok a)

variable {w v : Nat} {arg' : IdempotentTransferTxParams} {a : Response}
    {x : Worker Write DB LockKey Err StoreTx Response StoreOp} {op : StoreOp}
    {r : Running Write DB LockKey Err StoreTx Response} {acts : List StoreAction}
    {row : IdempotencyKey}

theorem Succeeded.unique {s : StoreState} {arg : IdempotentTransferTxParams} {a' : Response}
    (h : Succeeded s w arg a) (h' : Succeeded s w arg' a') : arg = arg' ∧ a = a' := by
  obtain ⟨_, _, _, hw⟩ := h
  obtain ⟨_, _, _, hw'⟩ := h'
  rw [hw] at hw'
  cases hw'
  exact ⟨rfl, rfl⟩

/-- The row of the key and the banking transactions as the call of worker `w` has
left them, which transferred. -/
structure Claimed (db₀ : DB) (username key : String) (s : StoreState) (w : Nat)
    (arg : IdempotentTransferTxParams) (r : TransferTxResult) (row : IdempotencyKey) : Prop where
  keyRow : s.db.keyRow username key = some row
  transactionID : row.transactionID = some r.transaction.id
  requestHash : row.requestHash = arg.requestHash
  snapshot : row.resultSnapshot = some r.snapshot
  fresh : db₀.bankingTransactions.conflict r.transaction = none
  transactions : s.db.bankingTransactions = db₀.bankingTransactions.insert r.transaction
  notReplayed : r.replayed = false
  succeeded : Succeeded s w arg (.transfer r)
  others : ∀ v arg' a, Succeeded s v arg' a → v = w ∨ row.Replays arg' a

/-- Either no call has succeeded, or one has transferred and the others answer
with its result. -/
inductive Outcome (db₀ : DB) (username key : String) (s : StoreState) : Prop
  | unclaimed (hrow : s.db.keyRow username key = none)
      (htx : s.db.bankingTransactions = db₀.bankingTransactions)
      (hnone : ∀ w arg a, ¬ Succeeded s w arg a)
  | claimed {w : Nat} {arg : IdempotentTransferTxParams} {r : TransferTxResult}
      {row : IdempotencyKey} (h : Claimed db₀ username key s w arg r row)

variable {db₀ : DB} {s s' : StoreState} {act : StoreAction}

theorem Outcome.keep (h : Outcome db₀ u k s) (hrow : s'.db.keyRow u k = s.db.keyRow u k)
    (htx : s'.db.bankingTransactions = s.db.bankingTransactions)
    (hold : ∀ w arg a, Succeeded s w arg a → Succeeded s' w arg a)
    (hnew : ∀ w arg a, Succeeded s' w arg a →
      Succeeded s w arg a ∨ ∃ row, s.db.keyRow u k = some row ∧ row.Replays arg a) :
    Outcome db₀ u k s' := by
  cases h with
  | unclaimed hnone htx₀ hnot =>
    refine .unclaimed (hrow.trans hnone) (htx.trans htx₀) fun w arg a hs => ?_
    rcases hnew w arg a hs with hs | ⟨row, hsome, _⟩
    · exact hnot w arg a hs
    · rw [hnone] at hsome
      cases hsome
  | claimed h =>
    refine .claimed { h with
      keyRow := hrow.trans h.keyRow
      transactions := htx.trans h.transactions
      succeeded := hold _ _ _ h.succeeded
      others := ?_ }
    intro v arg' a hs
    rcases hnew v arg' a hs with hs | ⟨row, hsome, hreplays⟩
    · exact h.others v arg' a hs
    · rw [h.keyRow] at hsome
      cases hsome
      exact Or.inr hreplays

theorem succeeded_of_setWorker {s₀ : StoreState} (hs₀ : s₀.workers = s.workers)
    (hw : ∀ op y, s.workers w ≠ .finished op y) (h : Succeeded s v arg a) :
    Succeeded (s₀.setWorker w x) v arg a := by
  obtain ⟨fresh, env, auditEnv, hv⟩ := h
  have hvw : v ≠ w := by
    rintro rfl
    exact hw _ _ hv
  exact ⟨fresh, env, auditEnv, by simp [State.setWorker, Function.update_of_ne hvw, hs₀, hv]⟩

theorem setWorker_succeeded (s₀ : StoreState) (hs₀ : s₀.workers = s.workers)
    (h : Succeeded (s₀.setWorker w x) v arg a) :
    Succeeded s v arg a ∨
      (v = w ∧ ∃ fresh env auditEnv, x = .finished (.call arg fresh env auditEnv) (.ok a)) := by
  obtain ⟨fresh, env, auditEnv, hv⟩ := h
  by_cases hvw : v = w
  · subst hvw
    simp only [State.setWorker, Function.update_self] at hv
    exact Or.inr ⟨rfl, fresh, env, auditEnv, hv⟩
  · simp only [State.setWorker, Function.update_of_ne hvw, hs₀] at hv
    exact Or.inl ⟨fresh, env, auditEnv, hv⟩

theorem Outcome.setWorker (h : Outcome db₀ u k s) (s₀ : StoreState) (hdb : s₀.db = s.db)
    (hs₀ : s₀.workers = s.workers) (hw : ∀ op y, s.workers w ≠ .finished op y)
    (hx : ∀ arg fresh env auditEnv a, x ≠ .finished (.call arg fresh env auditEnv) (.ok a)) :
    Outcome db₀ u k (s₀.setWorker w x) := by
  refine h.keep (congrArg (DB.keyRow · u k) hdb) (congrArg (·.bankingTransactions) hdb)
    (fun v arg a => succeeded_of_setWorker hs₀ hw) ?_
  intro v arg a hs
  rcases setWorker_succeeded s₀ hs₀ hs with hs | ⟨_, fresh, env, auditEnv, hfinished⟩
  · exact Or.inl hs
  · exact absurd hfinished (hx arg fresh env auditEnv a)

structure Retried (db₀ : DB) (username key : String) (s : StoreState) : Prop where
  waiting : ∀ w op (r : Running Write DB LockKey Err StoreTx Response),
    s.workers w = .running op r → ∀ env arg, r.tx = .banking (.idempotentTransfer env arg) →
      Waiting s.db env arg r.rest r.own
  outcome : Outcome db₀ username key s

structure Timely (username key : String) (s : StoreState) : Prop where
  led : storeSystem.Led s
  concerns : ∀ w op, (s.workers w).op? = some op → op.concerns username key
  startsBefore : ∀ row, s.db.keyRow username key = some row →
    ∀ w op, (s.workers w).op? = some op → op.startsBefore row.expiresAt

theorem Timely.stage (h : Timely u k s) (hw : s.workers w = .running op r) :
    op.concerns u k ∧ Stage op r.tx r.next := by
  have hop := h.concerns w op (by rw [hw]; rfl)
  exact ⟨hop, stage_of_leads hop (h.led w op r hw)⟩

theorem waiting_enter {op' : StoreOp} {j : Job StoreTx Response Err}
    (h : storeSystem.enter op j = .running op' r)
    (htx : r.tx = .banking (.idempotentTransfer env arg)) : Waiting db env arg r.rest r.own := by
  cases j with
  | done x => cases h
  | tx t next =>
    cases h
    obtain rfl : t = _ := htx
    exact .start

/-- A commit brings no answer but a replayed one and leaves the row and the
banking transactions alone, or it is the transfer of a call that found the key
free. -/
theorem commit_answers (hord : storeDiscipline.Ordered db₀ s) (ht : Timely u k s)
    (h : Retried db₀ u k s) (hw : s.workers w = .running op r) (hr : r.rest = .ret a) :
    ((view r.own s.db).keyRow u k = s.db.keyRow u k ∧
      (view r.own s.db).bankingTransactions = s.db.bankingTransactions ∧
      ∀ arg fresh env auditEnv a', storeSystem.enter op (r.next (.ok a)) =
        .finished (.call arg fresh env auditEnv) (.ok a') →
          ∃ row, s.db.keyRow u k = some row ∧ row.Replays arg a') ∨
    (s.db.keyRow u k = none ∧ ∃ arg fresh env auditEnv result,
      storeSystem.enter op (r.next (.ok a)) =
        .finished (.call arg fresh env auditEnv) (.ok (.transfer result)) ∧
      arg.username = u ∧ arg.idempotencyKey = k ∧
      Recorded env (arg.correlated fresh) (.start s.db) result
        ⟨r.own, view r.own s.db, r.held⟩) := by
  obtain ⟨hop, hstage⟩ := ht.stage hw
  have hlive := fun row hrow => ht.startsBefore row hrow w op (by rw [hw]; rfl)
  have hwait := h.waiting w op r hw
  have hcommit := hord.commit_cases storeDiscipline db₀ hw hr
  obtain ⟨tx, rest, own, held, next⟩ := r
  cases hr
  dsimp only at hstage hwait hcommit ⊢
  cases hstage with
  | call arg fresh env auditEnv hok herror =>
    obtain ⟨rfl, rfl⟩ := hop
    have henter : storeSystem.enter (.call arg fresh env auditEnv) (next (.ok a)) =
        .finished (.call arg fresh env auditEnv) (.ok a) := by
      rw [hok]
      rfl
    have hrun : own ≠ [] → (BankingTx.body (.idempotentTransfer env (arg.correlated fresh))).run []
        s.db = .ok ⟨a, own, held⟩ := by
      intro hown
      rcases hcommit hown with ⟨_, _, hrun⟩ | hfree
      · exact hrun
      · obtain ⟨x, hx⟩ := List.exists_mem_of_ne_nil _ hown
        exact (hfree x hx).elim
    rcases call_commit hord.inv (hwait env _ rfl) hrun fun row hrow =>
      IdempotencyKey.expired_eq_false.mpr (hlive row hrow) with
      ⟨rfl, hreplays⟩ | ⟨hrow, result, rfl, hrec⟩
    · refine Or.inl ⟨rfl, rfl, fun _ _ _ _ _ ha' => ?_⟩
      rw [henter] at ha'
      cases ha'
      exact hreplays
    · exact Or.inr ⟨hrow, arg, fresh, env, auditEnv, result, henter, rfl, rfl, hrec⟩
  | failure env arg e hend =>
    left
    have hnotices : ∀ x ∈ own, x.isNotice = true := by
      by_cases hown : own = []
      · simp [hown]
      · rcases hcommit hown with ⟨_, _, hrun⟩ | hfree
        · exact failureRecord_notices (t := .auditTransferFailure env arg e) rfl hrun
        · exact fun x hx => (hfree x hx).elim
    refine ⟨keyRow_notices hnotices s.db, ?_, ?_⟩
    · exact congrArg Books.bankingTransactions
        (toBooks_view (fun x hx => Write.touchesBooks_of_isNotice (hnotices x hx)) s.db)
    · intro arg fresh env auditEnv a' ha'
      obtain ⟨e, he⟩ := hend (.ok a)
      rw [he] at ha'
      cases ha'
  | cleanup now =>
    left
    have hdeletes : ∀ x ∈ own, x.deletesExpired now := by
      by_cases hown : own = []
      · simp [hown]
      · rcases hcommit hown with ⟨_, hp, _⟩ | hfree
        · exact hp.elim
        · exact hfree
    refine ⟨keyRow_deletes hdeletes fun row hrow =>
      IdempotencyKey.expired_eq_false.mpr (hlive row hrow), ?_, fun _ _ _ _ _ ha' => by cases ha'⟩
    exact congrArg Books.bankingTransactions (toBooks_deletes hdeletes s.db)

theorem outcome_publish (hord : storeDiscipline.Ordered db₀ s) (ht : Timely u k s)
    (h : Retried db₀ u k s) (hw : s.workers w = .running op r) (hr : r.rest = .ret a) :
    Outcome db₀ u k (storeSystem.publish s w op r a) ∧
      ∀ row, s.db.keyRow u k = some row → (view r.own s.db).keyRow u k = some row := by
  have hne : ∀ op' y, s.workers w ≠ .finished op' y := by simp [hw]
  have hpublish : ∀ v arg a', Succeeded (storeSystem.publish s w op r a) v arg a' →
      Succeeded s v arg a' ∨ (v = w ∧ ∃ fresh env auditEnv,
        storeSystem.enter op (r.next (.ok a)) =
          .finished (.call arg fresh env auditEnv) (.ok a')) := by
    intro v arg a' hs
    exact setWorker_succeeded (s.release w) rfl hs
  rcases commit_answers hord ht h hw hr with
    ⟨hrow, htx, hanswers⟩ | ⟨hnone, arg, fresh, env, auditEnv, result, henter, rfl, rfl, hrec⟩
  · refine ⟨h.outcome.keep hrow htx (fun v arg a' => succeeded_of_setWorker rfl hne) ?_,
      fun row hsome => hrow.trans hsome⟩
    intro v arg a' hs
    rcases hpublish v arg a' hs with hs | ⟨rfl, fresh, env, auditEnv, henter⟩
    · exact Or.inl hs
    · exact Or.inr (hanswers arg fresh env auditEnv a' henter)
  · refine ⟨?_, fun row hsome => by rw [hnone] at hsome; cases hsome⟩
    cases h.outcome with
    | claimed hclaimed =>
      rw [hclaimed.keyRow] at hnone
      cases hnone
    | unclaimed _ htx hnot =>
      have hsucceeded : Succeeded (storeSystem.publish s w op r a) w arg (.transfer result) :=
        ⟨fresh, env, auditEnv, by simpa [System.publish, State.setWorker] using henter⟩
      refine .claimed ⟨hrec.row, rfl, ?_, rfl, ?_, ?_, hrec.notReplayed, hsucceeded, ?_⟩
      · rfl
      · rw [← htx]
        exact hrec.fresh
      · rw [← htx]
        exact hrec.transactions
      · intro v arg' a' hs
        rcases hpublish v arg' a' hs with hs | ⟨rfl, _⟩
        · exact absurd hs (hnot v arg' a')
        · exact Or.inl rfl

theorem Timely.not_expired (ht : Timely u k s) (hw : s.workers w = .running op r)
    (htx : r.tx = .banking (.idempotentTransfer env arg)) :
    arg.username = u ∧ arg.idempotencyKey = k ∧
      ∀ row, s.db.keyRow u k = some row → row.expired env.now = false := by
  obtain ⟨hop, hstage⟩ := ht.stage hw
  rw [htx] at hstage
  cases hstage with
  | call arg fresh env auditEnv hok herror =>
    refine ⟨hop.1, hop.2, fun row hrow => IdempotencyKey.expired_eq_false.mpr ?_⟩
    exact ht.startsBefore row hrow w _ (by rw [hw]; rfl)

theorem retried_moves (hord : storeDiscipline.Ordered db₀ s) (ht : Timely u k s)
    (hstart : ∀ w op, act = .start w op → op.concerns u k) (h : Retried db₀ u k s)
    (hm : storeSystem.Moves s act s') :
    Retried db₀ u k s' ∧ ∀ row, s.db.keyRow u k = some row → s'.db.keyRow u k = some row := by
  cases hm with
  | stay => exact ⟨h, fun _ hrow => hrow⟩
  | start hact hw =>
    refine ⟨⟨?_, ?_⟩, fun _ hrow => hrow⟩
    · exact storeSystem.running_setWorker s rfl h.waiting fun r hr env arg => waiting_enter hr
    · exact h.outcome.setWorker s rfl rfl (by simp [hw]) fun _ _ _ _ a =>
        enter_job_ne (hstart _ _ hact) a
  | advance hw hr hq hwait hfree =>
    rename_i w op r q next eff
    refine ⟨⟨?_, ?_⟩, fun _ hrow => hrow⟩
    · refine System.running_advance h.waiting fun env arg htx => ?_
      obtain ⟨rfl, rfl, hlive⟩ := ht.not_expired hw htx
      exact (h.waiting w op r hw env arg htx).advance hr hq hlive
    · exact h.outcome.setWorker (s.lock _ _) rfl rfl (by simp [hw]) fun _ _ _ _ _ hx => by cases hx
  | rollback e hw =>
    refine ⟨⟨?_, ?_⟩, fun _ hrow => hrow⟩
    · exact storeSystem.running_setWorker (s.release _) rfl h.waiting
        fun r hr env arg => waiting_enter hr
    · exact h.outcome.setWorker (s.release _) rfl rfl (by simp [hw]) fun _ _ _ _ a =>
        (ht.stage hw).2.rollback_ne e a
  | commit hw hr hact =>
    rename_i w op r a
    obtain ⟨hout, hrow⟩ := outcome_publish hord ht h hw hr
    refine ⟨⟨?_, hout⟩, hrow⟩
    have hwaiting : ∀ v op' r', s.workers v = .running op' r' → ∀ env arg,
        r'.tx = .banking (.idempotentTransfer env arg) →
          Waiting (view r.own s.db) env arg r'.rest r'.own := by
      intro v op' r' hv env arg htx
      obtain ⟨rfl, rfl, _⟩ := ht.not_expired hv htx
      exact (h.waiting v op' r' hv env arg htx).of_row hrow
    exact storeSystem.running_setWorker (s.release w) rfl hwaiting
      fun r hr env arg => waiting_enter hr

def firstKeyRow (db₀ : DB) (acts : List StoreAction) (username key : String) :
    Option IdempotencyKey :=
  acts.inits.findSome? fun part => (storeRun db₀ part).db.keyRow username key

theorem firstKeyRow_snoc (db₀ : DB) (acts : List StoreAction) (act : StoreAction) :
    firstKeyRow db₀ (acts ++ [act]) u k =
      (firstKeyRow db₀ acts u k).or ((storeRun db₀ (acts ++ [act])).db.keyRow u k) := by
  simp [firstKeyRow, List.inits_append, List.findSome?_append]

/-- All operations of the run are calls with the key or cleanups, and the first
row of the key outlives them. -/
structure RetriesOf (db₀ : DB) (username key : String) (acts : List StoreAction) : Prop where
  concerns : ∀ w op, .start w op ∈ acts → op.concerns username key
  startsBefore : ∀ row, firstKeyRow db₀ acts username key = some row →
    ∀ w op, .start w op ∈ acts → op.startsBefore row.expiresAt

theorem RetriesOf.init (h : RetriesOf db₀ u k (acts ++ [act])) :
    RetriesOf db₀ u k acts where
  concerns w op hmem := h.concerns w op (List.mem_append_left _ hmem)
  startsBefore row hrow w op hmem := by
    refine h.startsBefore row ?_ w op (List.mem_append_left _ hmem)
    rw [firstKeyRow_snoc, hrow]
    rfl

theorem retried_run (hwf : db₀.WellFormed) (hnone : db₀.keyRow u k = none)
    (h : RetriesOf db₀ u k acts) :
    Retried db₀ u k (storeRun db₀ acts) ∧
      firstKeyRow db₀ acts u k = (storeRun db₀ acts).db.keyRow u k := by
  induction acts using List.reverseRecOn with
  | nil =>
    refine ⟨⟨fun _ _ _ hw => (by cases hw), .unclaimed hnone rfl ?_⟩, by simp [firstKeyRow]⟩
    rintro w arg a ⟨_, _, _, hw⟩
    cases hw
  | append_singleton acts act ih =>
    obtain ⟨hret, hfirst⟩ := ih h.init
    have ht : Timely u k (storeRun db₀ acts) :=
      { led := storeSystem.led_run db₀ acts
        concerns := fun w op hop => h.init.concerns w op (storeSystem.op_run hop)
        startsBefore := fun row hrow w op hop =>
          h.init.startsBefore row (hfirst.trans hrow) w op (storeSystem.op_run hop) }
    have hmoves := storeSystem.step_moves (storeRun db₀ acts) act
    rw [storeRun, ← System.run_snoc] at hmoves
    obtain ⟨hret', hrow⟩ := retried_moves (storeDiscipline.ordered_run db₀ hwf acts) ht
      (fun w op hact => h.concerns w op (by simp [hact])) hret hmoves
    refine ⟨hret', ?_⟩
    rw [firstKeyRow_snoc, hfirst]
    cases hkey : (storeRun db₀ acts).db.keyRow u k with
    | none => rfl
    | some row => exact (hrow row hkey).symm

structure ExactlyOnce (db₀ : DB) (username key : String) (s : StoreState) : Prop where
  /-- at most one banking transaction is committed -/
  one : ∀ t ∈ s.db.bankingTransactions.rows, ∀ t' ∈ s.db.bankingTransactions.rows,
    t ∉ db₀.bankingTransactions.rows → t' ∉ db₀.bankingTransactions.rows → t = t'
  /-- every call that succeeds answers with a transfer, and it is that one -/
  answers : ∀ w arg a, Succeeded s w arg a → ∃ r, a = .transfer r ∧
    r.transaction ∈ s.db.bankingTransactions.rows ∧ r.transaction ∉ db₀.bankingTransactions.rows
  same : ∀ w arg r w' arg' r', Succeeded s w arg (.transfer r) →
    Succeeded s w' arg' (.transfer r') → r.snapshot = r'.snapshot
  /-- exactly one of them has made it -/
  original : (∃ w arg a, Succeeded s w arg a) →
    ∃! w, ∃ arg r, Succeeded s w arg (.transfer r) ∧ r.replayed = false
  /-- a call with another request does not succeed -/
  request : ∀ row, s.db.keyRow username key = some row →
    ∀ w arg a, Succeeded s w arg a → arg.requestHash = row.requestHash
  /-- only a call that succeeded leaves a row behind -/
  left : ∀ row, s.db.keyRow username key = some row →
    ∃ w arg r, Succeeded s w arg (.transfer r) ∧ row.transactionID = some r.transaction.id
  /-- and without a row a call succeeds if the transfer it asks for does -/
  free : s.db.keyRow username key = none → ∀ env (arg : IdempotentTransferTxParams) d,
    arg.username = username → arg.idempotencyKey = key →
    s.db.idempotencyKeys.get (.id (arg.reservation env).id) = none →
    (s.db.users.get (.username username)).isSome →
    (transferTx env arg.toTransferTxParams).run [] s.db = .ok d →
      ∃ d', (idempotentTransferTx env arg).run [] s.db = .ok d' ∧ d'.result = d.result

theorem call_succeeds_of_free (hfree : db.keyRow u k = none) (env : Env)
    (arg : IdempotentTransferTxParams) (d : Answer TransferTxResult) (hu : arg.username = u)
    (hk : arg.idempotencyKey = k)
    (hid : db.idempotencyKeys.get (.id (arg.reservation env).id) = none)
    (huser : (db.users.get (.username u)).isSome)
    (hrun : (transferTx env arg.toTransferTxParams).run [] db = .ok d) :
    ∃ d', (idempotentTransferTx env arg).run [] db = .ok d' ∧ d'.result = d.result := by
  subst hu hk
  refine idempotentTransferTx_of_transferTx hfree (Table.conflict_eq_none.mpr ?_)
    (missingUser_eq_none.mpr (Option.isSome_iff_exists.mp huser)) hrun
  intro j hj
  simp only [keys, List.mem_cons, List.not_mem_nil, or_false] at hj
  rcases hj with rfl | rfl
  · exact hid
  · exact hfree

theorem Claimed.answer {r : TransferTxResult} (h : Claimed db₀ u k s w arg r row)
    (hs : Succeeded s v arg' a) :
    arg'.requestHash = row.requestHash ∧ ∃ r', a = .transfer r' ∧ r'.snapshot = r.snapshot ∧
      (r'.replayed = false → v = w) := by
  rcases h.others v arg' a hs with rfl | ⟨hhash, snapshot, hsnapshot, rfl⟩
  · obtain ⟨rfl, rfl⟩ := hs.unique h.succeeded
    exact ⟨h.requestHash.symm, r, rfl, rfl, fun _ => rfl⟩
  · rw [h.snapshot] at hsnapshot
    cases hsnapshot
    exact ⟨hhash.symm, _, rfl, rfl, fun hfalse => by cases hfalse⟩

theorem Claimed.exactlyOnce {r : TransferTxResult} (h : Claimed db₀ u k s w arg r row) :
    ExactlyOnce db₀ u k s := by
  have hmem : ∀ t, t ∈ s.db.bankingTransactions.rows ↔
      t ∈ db₀.bankingTransactions.rows ∨ t = r.transaction := by
    intro t
    rw [h.transactions, Table.insert_rows h.fresh]
    simp
  have hnew : r.transaction ∉ db₀.bankingTransactions.rows := by
    intro hold
    have hnone := Table.conflict_eq_none.mp h.fresh _ (Keyed.pk_mem r.transaction)
    rw [Table.get_pk hold] at hnone
    cases hnone
  refine ⟨?_, ?_, ?_, ?_, ?_, ?_, ?_⟩
  · intro t ht t' ht' hold hold'
    rw [((hmem t).mp ht).resolve_left hold, ((hmem t').mp ht').resolve_left hold']
  · intro v arg' a hs
    obtain ⟨_, r', rfl, hsnapshot, _⟩ := h.answer hs
    have htransaction : r'.transaction = r.transaction := congrArg (·.transaction) hsnapshot
    exact ⟨r', rfl, (hmem _).mpr (Or.inr htransaction), htransaction ▸ hnew⟩
  · intro v arg₁ r₁ v' arg₂ r₂ h₁ h₂
    obtain ⟨_, _, ha₁, hs₁, _⟩ := h.answer h₁
    obtain ⟨_, _, ha₂, hs₂, _⟩ := h.answer h₂
    cases ha₁
    cases ha₂
    rw [hs₁, hs₂]
  · intro _
    refine ⟨w, ⟨arg, r, h.succeeded, h.notReplayed⟩, ?_⟩
    rintro v ⟨arg', r', hs, hreplayed⟩
    obtain ⟨_, _, ha, _, hv⟩ := h.answer hs
    cases ha
    exact hv hreplayed
  · intro row' hrow v arg' a hs
    rw [h.keyRow] at hrow
    cases hrow
    exact (h.answer hs).1
  · intro row' hrow
    rw [h.keyRow] at hrow
    cases hrow
    exact ⟨w, arg, r, h.succeeded, h.transactionID⟩
  · intro hnone
    rw [h.keyRow] at hnone
    cases hnone

theorem Outcome.exactlyOnce (h : Outcome db₀ u k s) : ExactlyOnce db₀ u k s := by
  cases h with
  | claimed h => exact h.exactlyOnce
  | unclaimed hrow htx hnone =>
    refine ⟨?_, ?_, ?_, ?_, ?_, ?_, fun _ => call_succeeds_of_free hrow⟩
    · intro t ht t' _ hold
      rw [htx] at ht
      exact absurd ht hold
    · exact fun w arg a hs => absurd hs (hnone w arg a)
    · exact fun w arg r _ _ _ hs => absurd hs (hnone w arg _)
    · rintro ⟨w, arg, a, hs⟩
      exact absurd hs (hnone w arg a)
    · exact fun _ _ w arg a hs => absurd hs (hnone w arg a)
    · intro row hsome
      rw [hrow] at hsome
      cases hsome

/-- However the calls with one key interleave with one another and with the
cleanup of expired keys, they move the money once. -/
theorem storeRun_exactlyOnce (db₀ : DB) (acts : List StoreAction) (username key : String)
    (hwf : db₀.WellFormed) (hnone : db₀.keyRow username key = none)
    (hacts : RetriesOf db₀ username key acts) :
    ExactlyOnce db₀ username key (storeRun db₀ acts) :=
  (retried_run hwf hnone hacts).1.outcome.exactlyOnce

def fundedBank : DB :=
  (bankingRun twoCustomers
    (openAccounts ++ uninterrupted 2 (depositForAlice 50 (.drawing 0 3)))).db

def payBob (env : Env) : StoreOp :=
  .call ⟨⟨some 100, "0000000002", 30, "USD", "alice", "", none⟩, "key", List.replicate 32 0⟩ 0 env
    env

def requestedTwice : List StoreAction :=
  [.start 0 (payBob (.drawing 10 4)), .start 1 (payBob (.drawing 10 5)), .exec 0, .exec 1] ++
    List.replicate 25 (.exec 0) ++
    [.exec 1, .start 2 (.deleteExpiredIdempotencyKeys 20), .exec 2, .commit 0, .commit 2] ++
    List.replicate 5 (.exec 1) ++ [.commit 1]

theorem retriesOf_requestedTwice : RetriesOf fundedBank "alice" "key" requestedTwice := by
  have hops : ∀ w op, Action.start w op ∈ requestedTwice →
      op = payBob (.drawing 10 4) ∨ op = payBob (.drawing 10 5) ∨
        op = .deleteExpiredIdempotencyKeys 20 := by
    intro w op hmem
    simp only [requestedTwice, List.cons_append, List.nil_append, List.mem_append, List.mem_cons,
      List.mem_replicate, reduceCtorEq, and_false, List.not_mem_nil, or_false, false_or,
      Action.start.injEq] at hmem
    tauto
  have hfirst : (firstKeyRow fundedBank requestedTwice "alice" "key").map (·.expiresAt) =
      some 86400000010 := by decide +kernel
  refine ⟨?_, ?_⟩
  · intro w op hmem
    rcases hops w op hmem with rfl | rfl | rfl
    · exact ⟨rfl, rfl⟩
    · exact ⟨rfl, rfl⟩
    · trivial
  · intro row hrow w op hmem
    rw [hrow] at hfirst
    have hexpires : row.expiresAt = 86400000010 := by simpa using hfirst
    rw [hexpires]
    rcases hops w op hmem with rfl | rfl | rfl
    · show (10 : Int) < 86400000010
      decide
    · show (10 : Int) < 86400000010
      decide
    · show (20 : Int) < 86400000010
      decide

/-- Both requests succeed and one transfer is made. -/
theorem storeRun_exactlyOnce_requestedTwice :
    (storeRun fundedBank requestedTwice).db.bankingTransactions.rows.length = 2 ∧
      ExactlyOnce fundedBank "alice" "key" (storeRun fundedBank requestedTwice) := by
  have hwf : fundedBank.WellFormed := by
    rw [fundedBank]
    exact bankingRun_wellFormed twoCustomers _
  have hnone : fundedBank.keyRow "alice" "key" = none := by decide +kernel
  refine ⟨by decide +kernel, ?_⟩
  exact storeRun_exactlyOnce fundedBank requestedTwice "alice" "key" hwf hnone
    retriesOf_requestedTwice

end Monierave
