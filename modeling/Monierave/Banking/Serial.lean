import Monierave.Banking.Refinement
import Monierave.Banking.Robust

/-! # The banking operations are serializable in commit order

The operations run at read committed and read many rows without a lock.
-/

namespace Monierave

open Relational ReadCommitted Prog

variable {db : DB} {ws : List Write}

variable {t : BankingTx} {d : Answer Response} {H : LockKey → Prop} {w : Write} {k : LockKey}
    {db db' : DB} {P : Books → Prop}

theorem postingsOf_view {t : UUID} (hv : bankingReliance.ValidAll ws db)
    (hk : ∀ w ∈ ws, LockKey.bankingTransaction (.id t) ∉ w.keys) :
    (view ws db).postingsOf t = db.postingsOf t := by
  induction ws generalizing db with
  | nil => rfl
  | cons w ws ih =>
    rw [List.forall_mem_cons] at hk
    rw [view_cons, ih hv.2 hk.2, apply_write]
    obtain ⟨added, hadded, hrows⟩ := DB.ledgerPostings_rows_apply w
    have hnone : added.filter (fun p => p.transactionID = t) = [] := by
      rw [List.filter_eq_nil_iff]
      intro p hp hpt
      apply hk.1
      rw [hadded p hp]
      simp [Write.keys, of_decide_eq_true hpt]
    rw [Books.postingsOf, hrows db hv.1, List.filter_append, hnone, List.append_nil]
    rfl

theorem commit_stable (hwf : db.WellFormed) (hrun : t.body.run [] db = .ok d)
    (hH : ∀ k ∈ d.locks, ¬ H k) : DB.Stable H db (view d.writes db) := by
  have hv := (robust_body t).validAll_of_run hwf hrun
  have hperf := body_performs hwf hrun
  have hkeys : ∀ k, H k → ∀ w ∈ d.writes, k ∉ w.keys :=
    fun k hk w hw hmem => hH k (run_keys hrun w hw k hmem) hk
  refine ⟨?_, ?_, ?_, ?_, ?_, ?_, ?_⟩
  · intro k hk _
    exact (DB.entry_view_of_notMem (hkeys k hk) db).symm
  · intro k hk _ hfree
    rw [DB.entry_view_of_notMem (hkeys k hk) db]
    exact hfree
  · intro id hid
    exact (postingsOf_view hv (hkeys _ hid)).symm
  · intro a l ha hl
    refine ⟨(hperf.activity a l (fun hmem => hH _ hmem ha) hl).symm, ?_⟩
    intro p hp since
    exact (hperf.step.outgoing_eq hwf (List.mem_of_mem_filter hp) since).symm
  · intro k a ha
    have hlast : bankingReliance.Lasting fun db => ∃ a', db.accounts.get k = some a' ∧
        a'.id = a.id := by
      intro w db _ hw ⟨a', ha', hid⟩
      obtain ⟨a'', ha'', hid'⟩ := DB.account_apply hw ha'
      exact ⟨a'', ha'', hid'.trans hid⟩
    exact hlast.view hwf hv ⟨a, ha, rfl⟩
  · intro k l hl
    have hlast : bankingReliance.Lasting fun db => db.ledgerAccounts.get k = some l :=
      fun _ hw h => DB.ledgerAccount_apply hw h
    exact hlast.view hwf hv hl
  · intro k u hu
    have hlast : bankingReliance.Lasting fun db => db.users.get k = some u := by
      intro w db _ hw h
      show (w.apply db).users.get k = some u
      rw [DB.user_apply hw, h]
    exact hlast.view hwf hv hu

theorem commit_wellFormed (hwf : db.WellFormed) (hrun : t.body.run [] db = .ok d) :
    (view d.writes db).WellFormed :=
  Reliance.wf_view (G := bankingReliance) hwf ((robust_body t).validAll_of_run hwf hrun)

theorem stable_refl (H : LockKey → Prop) (db : DB) : DB.Stable H db db where
  entry _ _ _ := rfl
  unused _ _ _ h := h
  postings _ _ := rfl
  activity _ _ _ _ := ⟨rfl, fun _ _ _ => rfl⟩
  account _ a ha := ⟨a, ha, rfl⟩
  ledgerAccount _ _ h := h
  user _ _ h := h

def bankingDiscipline : Discipline bankingSystem where
  toReliance := bankingReliance
  inv db := db.WellFormed
  inv_wf h := h
  free _ _ := False
  free_commit {_ ws db} hfree hinv := by
    cases ws with
    | nil => exact ⟨hinv, fun _ _ => stable_refl _ db⟩
    | cons w ws => exact (hfree w List.mem_cons_self).elim
  base := BankingTx.standIn
  base_body _ := Or.inl (Or.inl rfl)
  base_run := standIn_run
  robust := robust_standIn
  commit _ hinv hrun _ := ⟨commit_wellFormed hinv hrun, fun _ hH => commit_stable hinv hrun hH⟩

theorem wellFormed_initial (users : Table User) : (DB.initial users).WellFormed where
  ledgerAccount p hp := by cases hp
  transaction p hp := by cases hp

/-! ## Failure records

The record of a failed operation is a transaction of its own. It writes audit
rows and notifications only, so the operations do the same whether it was
committed or not. -/

theorem execTx_notes {α : Type} {fn : Tx α} {s : BankingPosition}
    (h : Ensures fn s fun _ s' => Notes s s') : Ensures (execTx fn) s fun _ s' => Notes s s' :=
  ensures_execTx (h.mono fun _ _ hn _ => hn)

theorem failureRecord_notices (ht : t.isFailureRecord = true) (hrun : t.body.run [] db = .ok d) :
    ∀ w ∈ d.writes, w.isNotice = true := by
  have hbody : Ensures t.body (.start db) fun _ s' => Notes (.start db) s' := by
    cases t with
    | auditTransferFailure env arg e =>
      refine .bind ((execTx_notes ?_).mono fun _ _ hn => .ret hn)
      apply Ensures.bind
      apply notes_createAuditLog
      intro _ s₁ h₁
      apply Ensures.bind
      apply notes_createFinancialNotification
      intro _ s₂ h₂
      exact .ret (h₁.trans h₂)
    | auditOperatorFailure env arg =>
      apply Ensures.bind
      apply notes_createAuditLog
      intro _ s₁ h₁
      exact .ret h₁
    | _ => cases ht
  intro w hw
  exact ((hbody.of_run hrun).notices w hw).resolve_left (by simp [Position.start])

theorem entry_notice (hw : w.isNotice = true) (hn : k.isNotification = false) (db : DB) :
    (w.apply db).entry k = db.entry k := by
  apply DB.entry_apply_of_notMem
  intro hmem
  have := DB.isNotification_of_mem hmem
  cases w with
  | insertAuditLog r => simp [Write.keys] at hmem
  | insertEmailJob r => simp [hn, Write.isNotification] at this
  | insertOutboxEvent r => simp [hn, Write.isNotification] at this
  | _ => cases hw

theorem unused_notice (hw : w.isNotice = true) (h : (w.apply db).entry k = none) :
    db.entry k = none := by
  have hinsert : ∀ {R κ : Type} [Keyed R κ] [DecidableEq κ] (t : Table R) (r : R) (j : κ),
      (t.insert r).get j = none → t.get j = none := by
    intro R κ _ _ t r j hj
    by_cases hc : t.conflict r = none
    · cases ho : t.get j with
      | none => rfl
      | some o =>
        rw [Table.get_insert_of_get hc ho] at hj
        cases hj
    · rwa [Table.insert_of_conflict hc] at hj
  cases w with
  | insertAuditLog r => exact h
  | insertEmailJob r =>
    cases k with
    | emailJob j =>
      rw [DB.entry, Option.map_eq_none_iff] at h ⊢
      exact hinsert _ _ _ h
    | _ => exact h
  | insertOutboxEvent r =>
    cases k with
    | outboxEvent j =>
      rw [DB.entry, Option.map_eq_none_iff] at h ⊢
      exact hinsert _ _ _ h
    | _ => exact h
  | _ => cases hw

theorem stable_notice (hw : w.isNotice = true) (h : DB.Stable H db db') :
    DB.Stable H (w.apply db) db' := by
  refine ⟨?_, ?_, ?_, ?_, ?_, ?_, ?_⟩
  · intro k hk hn
    rw [entry_notice hw hn]
    exact h.entry k hk hn
  · intro k hk hn hfree
    exact h.unused k hk hn (unused_notice hw hfree)
  · cases w <;> first
      | exact h.postings
      | cases hw
  · cases w <;> first
      | exact h.activity
      | cases hw
  · cases w <;> first
      | exact h.account
      | cases hw
  · cases w <;> first
      | exact h.ledgerAccount
      | cases hw
  · cases w <;> first
      | exact h.user
      | cases hw

theorem stable_notices {ws : List Write} (hw : ∀ w ∈ ws, w.isNotice = true)
    (h : DB.Stable H db db') : DB.Stable H (view ws db) db' := by
  induction ws generalizing db with
  | nil => exact h
  | cons w ws ih =>
    rw [List.forall_mem_cons] at hw
    exact ih hw.2 (stable_notice hw.1 h)

theorem toBooks_apply_congr (w : Write) (h : db.toBooks = db'.toBooks) :
    (w.apply db).toBooks = (w.apply db').toBooks := by
  cases w <;> first
    | exact h
    | simp only [Write.apply, h]

theorem toBooks_view_congr (ws : List Write) (h : db.toBooks = db'.toBooks) :
    (view ws db).toBooks = (view ws db').toBooks := by
  induction ws generalizing db db' with
  | nil => exact h
  | cons w ws ih => exact ih (toBooks_apply_congr w h)

def DB.execute (db : DB) (t : BankingTx) : Except Err (DB × Response) :=
  match t.body.run [] db with
  | .error e => .error e
  | .ok d => .ok (view d.writes db, d.result)

def DB.executeAll (db : DB) : List BankingTx → Except Err (DB × List Response)
  | [] => .ok (db, [])
  | t :: ts =>
    match db.execute t with
    | .error e => .error e
    | .ok (db', r) =>
      match db'.executeAll ts with
      | .error e => .error e
      | .ok (db'', rs) => .ok (db'', r :: rs)

theorem DB.executeAll_snoc {ts : List BankingTx} {rs : List Response}
    (h : db.executeAll ts = .ok (db', rs)) (hrun : t.body.run [] db' = .ok d) :
    db.executeAll (ts ++ [t]) = .ok (view d.writes db', rs ++ [d.result]) := by
  induction ts generalizing db rs with
  | nil =>
    cases h
    simp [executeAll, execute, hrun]
  | cons t₀ ts ih =>
    simp only [List.cons_append, executeAll] at h ⊢
    cases hx : db.execute t₀ with
    | error e => simp [hx] at h
    | ok x =>
      cases hy : x.1.executeAll ts with
      | error e => simp [hx, hy] at h
      | ok y =>
        simp only [hx, hy, Except.ok.injEq, Prod.mk.injEq] at h
        obtain ⟨rfl, rfl⟩ := h
        simp [ih hy]

theorem executeAll_of_serial {db₀ : DB} (h₀ : db₀.WellFormed) {log : List (BankingTx × Response)}
    (h : bankingDiscipline.Serial db₀ log db) :
    db.WellFormed ∧
      ∃ db', db₀.executeAll ((log.filter fun c => !c.1.isFailureRecord).map Prod.fst) =
          .ok (db', (log.filter fun c => !c.1.isFailureRecord).map Prod.snd) ∧
        db'.WellFormed ∧ DB.Stable (fun _ => True) db db' ∧ db.toBooks = db'.toBooks := by
  induction h with
  | nil => exact ⟨h₀, db₀, rfl, h₀, stable_refl _ db₀, rfl⟩
  | free h hfree hw ih =>
    obtain ⟨w, hmem⟩ := List.exists_mem_of_ne_nil _ hw
    exact (hfree w hmem).elim
  | snoc h hrun hw ih =>
    rename_i log mid t d
    obtain ⟨hwf, db', hexec, hwf', hst, hbooks⟩ := ih
    refine ⟨commit_wellFormed hwf hrun, ?_⟩
    cases ht : t.isFailureRecord with
    | true =>
      have hnotices := failureRecord_notices ht hrun
      refine ⟨db', by simpa [ht] using hexec, hwf', stable_notices hnotices hst, ?_⟩
      rw [toBooks_view fun w hw => Write.touchesBooks_of_isNotice (hnotices w hw), hbooks]
    | false =>
      have hrun' := bankingDiscipline.run_stable (Or.inl rfl) hwf hwf' hst hrun hw
      refine ⟨view d.writes db', ?_, commit_wellFormed hwf' hrun', ?_,
        toBooks_view_congr d.writes hbooks⟩
      · simpa [ht] using DB.executeAll_snoc hexec hrun'
      · exact Reliance.stable_view (G := bankingReliance) (fun _ _ _ _ => trivial) hwf hwf'
          ((robust_body t).validAll_of_run hwf hrun)
          ((robust_body t).validAll_of_run hwf' hrun') hst

/-- However the statements of the operations interleave, the accounts, banking
transactions and postings are those of the committed operations executed one
after another in commit order, each of them successfully and with the response
it gave. -/
theorem bankingSystem_serializable (db₀ : DB) (h₀ : db₀.WellFormed) (acts : List BankingAction) :
    let s := bankingSystem.run (State.init db₀) acts
    let committed := s.log.filter fun c => !c.1.isFailureRecord
    ∃ db, db₀.executeAll (committed.map Prod.fst) = .ok (db, committed.map Prod.snd) ∧
      db.accounts = s.db.accounts ∧ db.ledgerAccounts = s.db.ledgerAccounts ∧
      db.bankingTransactions = s.db.bankingTransactions ∧
      db.ledgerPostings = s.db.ledgerPostings := by
  intro s committed
  obtain ⟨_, db, hexec, _, _, hbooks⟩ :=
    executeAll_of_serial h₀ (bankingDiscipline.serial_run db₀ h₀ acts)
  exact ⟨db, hexec, congrArg Books.accounts hbooks.symm, congrArg Books.ledgerAccounts hbooks.symm,
    congrArg Books.bankingTransactions hbooks.symm, congrArg Books.ledgerPostings hbooks.symm⟩

def overtakenWithdrawal : List BankingAction :=
  openAccounts ++ [.start 2 (withdrawalOfAlice 50 (.drawing 1 3)), .exec 2] ++
    uninterrupted 3 (depositForAlice 50 (.drawing 2 4)) ++ List.replicate 20 (.exec 2) ++
      [.commit 2]

theorem bankingSystem_serializable_overtakenWithdrawal :
    (DB.initial twoCustomers).WellFormed ∧
      let s := bankingSystem.run (State.init (DB.initial twoCustomers)) overtakenWithdrawal
      let committed := s.log.filter fun c => !c.1.isFailureRecord
      ∃ db, (DB.initial twoCustomers).executeAll (committed.map Prod.fst) =
          .ok (db, committed.map Prod.snd) ∧
        db.accounts = s.db.accounts ∧ db.ledgerAccounts = s.db.ledgerAccounts ∧
        db.bankingTransactions = s.db.bankingTransactions ∧
        db.ledgerPostings = s.db.ledgerPostings :=
  ⟨wellFormed_initial twoCustomers, bankingSystem_serializable _ (wellFormed_initial twoCustomers) _⟩

def BankingTx.OnlyRejects (t : BankingTx) : Prop := ∀ a, t.stray a → a.toState = some "rejected"

theorem recordingFailure_onlyRejects {record : Err → BankingTx} {context : String}
    (h : ∀ e, (record e).OnlyRejects) (x : Except Err Response) :
    (recordingFailure record context x).All BankingTx.OnlyRejects := by
  cases x with
  | ok r => trivial
  | error e => exact ⟨h e, fun y => by cases y <;> trivial⟩

theorem settlementJob_onlyRejects (kind : SettlementKind) (arg : SettlementMovementParams)
    (fresh : UUID) (env : Env) :
    (settlementJob kind arg fresh env).All BankingTx.OnlyRejects := by
  unfold settlementJob
  by_cases hamount : arg.amount ≤ 0
  · rw [if_pos hamount]
    trivial
  · rw [if_neg hamount]
    exact ⟨fun _ h => h.elim, fun _ => trivial⟩

theorem operatorJob_onlyRejects {actor reason : String} {correlationID : Option UUID}
    {job : BankingJob} (h : job.All BankingTx.OnlyRejects) :
    (operatorJob actor reason correlationID job).All BankingTx.OnlyRejects := by
  unfold operatorJob
  cases validateOperatorAction actor reason correlationID with
  | error e => trivial
  | ok _ => exact h

theorem createAccount_onlyRejects (arg : CreateAccountTxParams) (draw : Nat → AccountDraw)
    (left i : Nat) :
    (createAccountWithGeneratedNumber arg draw left i).All BankingTx.OnlyRejects := by
  induction left generalizing i with
  | zero => trivial
  | succ left ih =>
    unfold createAccountWithGeneratedNumber
    cases (draw i).number with
    | error e => trivial
    | ok value =>
      refine ⟨fun _ h => h.elim, fun x => ?_⟩
      cases x with
      | ok r => trivial
      | error e =>
        dsimp only
        split_ifs
        · exact ih (i + 1)
        · trivial

theorem auditOperatorFailure_onlyRejects (env : Env) {arg : OperatorAuditParams}
    (h : arg.toState = "rejected") : (BankingTx.auditOperatorFailure env arg).OnlyRejects := by
  intro a ha
  rw [BankingTx.stray, h] at ha
  simpa [textValue] using ha

theorem BankingOp.job_onlyRejects (op : BankingOp) : op.job.All BankingTx.OnlyRejects := by
  cases op with
  | createAccountTx arg draw => exact createAccount_onlyRejects arg draw _ 0
  | depositTx arg fresh env => exact settlementJob_onlyRejects .deposit arg fresh env
  | withdrawTx arg fresh env => exact settlementJob_onlyRejects .withdrawal arg fresh env
  | transferTx arg fresh env auditEnv =>
    exact ⟨fun _ h => h.elim, recordingFailure_onlyRejects fun _ _ h => h.elim⟩
  | idempotentTransferTx arg fresh env auditEnv =>
    simp only [job]
    split_ifs
    · trivial
    · exact ⟨fun _ h => h.elim, recordingFailure_onlyRejects fun _ _ h => h.elim⟩
  | setAccountStatusTx arg env auditEnv =>
    simp only [job]
    refine operatorJob_onlyRejects ?_
    split_ifs
    · trivial
    · exact ⟨fun _ h => h.elim,
        recordingFailure_onlyRejects fun _ => auditOperatorFailure_onlyRejects auditEnv rfl⟩
  | reverseTransactionTx arg env auditEnv =>
    rw [job]
    refine operatorJob_onlyRejects ?_
    exact ⟨fun _ h => h.elim,
      recordingFailure_onlyRejects fun _ => auditOperatorFailure_onlyRejects auditEnv rfl⟩
  | closeAccountTx arg env => exact ⟨fun _ h => h.elim, fun _ => trivial⟩

theorem bankingSystem_entry {db₀ : DB} (h₀ : db₀.WellFormed) (acts : List BankingAction)
    (a : BankingAction) :
    Entry (·.toState = some "rejected") (bankingSystem.run (State.init db₀) acts).db
      (bankingSystem.run (State.init db₀) (acts ++ [a])).db := by
  rw [System.run_snoc]
  rcases bankingDiscipline.step_run _ h₀ acts a with
    hdb | ⟨op, t, next, d, hleads, hrun, hdb⟩ | ⟨t, ws, hfree, hw, _⟩
  · rw [hdb]
    exact .unmoved .quiet rfl (.refl _) Notices.apart_none
  · rw [hdb]
    exact (body_performs (bankingDiscipline.ordered_run _ h₀ acts).inv hrun).entry.mono
      (hleads.of_all op.job_onlyRejects)
  · obtain ⟨w, hmem⟩ := List.exists_mem_of_ne_nil ws hw
    exact (hfree w hmem).elim

theorem bankingRun_entry (users : Table User) (acts : List BankingAction) (a : BankingAction) :
    Entry (·.toState = some "rejected") (bankingRun users acts).db
      (bankingRun users (acts ++ [a])).db :=
  bankingSystem_entry (wellFormed_initial users) acts a

theorem bankingRun_step (users : Table User) (acts : List BankingAction) (a : BankingAction) :
    (bankingRun users acts).db.toBooks.Step (bankingRun users (acts ++ [a])).db.toBooks :=
  (bankingRun_entry users acts a).step

theorem bankingRun_wellFormed (users : Table User) (acts : List BankingAction) :
    (bankingRun users acts).db.WellFormed :=
  (bankingDiscipline.ordered_run _ (wellFormed_initial users) acts).inv

theorem bankingRun_invariant (users : Table User) (h0 : P (DB.initial users).toBooks)
    (hstep : ∀ b b', b.WellFormed → P b → b.Step b' → P b') (acts : List BankingAction) :
    P (bankingRun users acts).db.toBooks := by
  induction acts using List.reverseRecOn with
  | nil => exact h0
  | append_singleton acts a ih =>
    exact hstep _ _ (bankingRun_wellFormed users acts) ih (bankingRun_step users acts a)

theorem bankingRun_later {users : Table User} {acts : List BankingAction}
    (h : P (bankingRun users acts).db.toBooks)
    (hstep : ∀ b b', b.WellFormed → P b → b.Step b' → P b') (more : List BankingAction) :
    P (bankingRun users (acts ++ more)).db.toBooks := by
  induction more using List.reverseRecOn with
  | nil => simpa using h
  | append_singleton more a ih =>
    rw [← List.append_assoc]
    exact hstep _ _ (bankingRun_wellFormed users _) ih (bankingRun_step users _ a)

end Monierave
