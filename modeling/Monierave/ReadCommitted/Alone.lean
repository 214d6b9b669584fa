import Monierave.ReadCommitted.Machine

/-! # Nobody in the way

An operation that runs while no other transaction is in progress.
-/

namespace Monierave.ReadCommitted

variable {W DB K E T R Op : Type}

namespace Prog

variable [Storage W DB K] {α β : Type} {own : List W} {db : DB}

/-- An uninterrupted run of the program answers `a` and writes `ws`. -/
def Runs (p : Prog W DB K E α) (own : List W) (db : DB) (a : α) (ws : List W) : Prop :=
  ∃ ks, p.run own db = .ok ⟨a, ws, ks⟩

variable {p : Prog W DB K E α} {f : α → Prog W DB K E β} {a : α} {b : β} {ws ws' : List W} {e : E}

theorem Runs.pure (a : α) : Runs (Pure.pure a : Prog W DB K E α) own db a [] := ⟨[], rfl⟩

theorem Runs.bind (hp : Runs p own db a ws) (hf : Runs (f a) (own ++ ws) (view ws db) b ws') :
    Runs (p >>= f) own db b (ws ++ ws') := by
  obtain ⟨ks, hp⟩ := hp
  obtain ⟨ks', hf⟩ := hf
  exact ⟨ks ++ ks', run_bind_ok.mpr ⟨_, _, hp, hf, rfl⟩⟩

theorem Runs.of_eq (h : Runs p own db a ws) (hws : ws = ws') : Runs p own db a ws' := hws ▸ h

theorem Runs.bind_silent (hp : Runs p own db a []) (hf : Runs (f a) own db b ws) :
    Runs (p >>= f) own db b ws :=
  hp.bind (by simpa using hf)

theorem Runs.bind_last (hp : Runs p own db a ws) (hf : Runs (f a) (own ++ ws) (view ws db) b []) :
    Runs (p >>= f) own db b ws := by
  have h := hp.bind hf
  rwa [List.append_nil] at h

theorem Runs.call {s : Stmt W DB K E α} {eff : Effect W K α} (h : s.exec own db = .ok eff) :
    Runs (Prog.call s) own db eff.result eff.writes :=
  ⟨_, run_call_ok.mpr ⟨_, h, rfl⟩⟩

theorem Runs.fetch {s : Stmt W DB K E (Option α)} {eff : Effect W K (Option α)}
    (h : s.exec own db = .ok eff) (ha : eff.result = some a) :
    Runs (Prog.fetch e s) own db a eff.writes :=
  ⟨_, run_fetch_ok.mpr ⟨_, _, h, ha, rfl⟩⟩

theorem Runs.ofExcept {x : Except E α} (h : x = .ok a) :
    Runs (Prog.ofExcept x : Prog W DB K E α) own db a [] :=
  ⟨_, run_ofExcept_ok.mpr ⟨_, h, rfl⟩⟩

theorem Runs.refuse_bind {c : Prop} [Decidable c] {f : Unit → Prog W DB K E β} (hc : ¬ c)
    (hf : Runs (f ()) own db b ws) :
    Runs (Prog.refuse c e >>= f) own db b ws :=
  Runs.bind_silent ⟨[], run_refuse_ok.mpr ⟨hc, rfl⟩⟩ hf

/-- The tables a transaction leaves that runs alone. One that fails leaves nothing
behind. -/
def commit (p : Prog W DB K E α) (db : DB) : DB :=
  match p.run [] db with
  | .ok d => view d.writes db
  | .error _ => db

theorem Runs.commit_eq (h : Runs p [] db a ws) : p.commit db = view ws db := by
  obtain ⟨ks, h⟩ := h
  simp [commit, h]

end Prog

/-- The outcome of an operation whose transactions run uninterrupted, and the tables
it leaves. -/
def Job.serve [Storage W DB K] (body : T → Prog W DB K E R) : Job T R E → DB → Except E R × DB
  | .done x, db => (x, db)
  | .tx t next, db =>
    match (body t).run [] db with
    | .ok d => (next (.ok d.result)).serve body (view d.writes db)
    | .error e => (next (.error e)).serve body db

namespace System

variable (sys : System W DB K E T R Op) {w : Nat} {op : Op}

def Alone (w : Nat) (s : State W DB K E T R Op) : Prop := ∀ k v, s.locks k = some v → v = w

/-- The worker's transaction has come to its end: it is about to commit with the result
and the writes of `d`, or it has been rolled back. -/
def Ends (w : Nat) (op : Op) (r : Running W DB K E T R) (s : State W DB K E T R Op) :
    Except E (Effect W K R) → State W DB K E T R Op → Prop
  | .ok d, s' => ∃ held, s'.db = s.db ∧ Alone w s' ∧
      s'.workers w = .running op { r with
        rest := .ret d.result, own := r.own ++ d.writes, held := held }
  | .error e, s' => s'.db = s.db ∧ (∀ k, s'.locks k = none) ∧
      s'.workers w = sys.enter op (r.next (.error e))

variable {r : Running W DB K E T R} {s : State W DB K E T R Op} {d : Effect W K R}

theorem Alone.free (h : Alone w s) (ks : List K) : s.free w ks = true :=
  State.free_iff.mpr fun k _ v hv => h k v hv

theorem Alone.release (h : Alone w s) (k : K) : (s.release w).locks k = none := by
  simp only [State.release]
  split
  · rfl
  · rename_i hne
    cases hk : s.locks k with
    | none => rfl
    | some v => exact absurd (by rw [hk, h k v hk]) hne

theorem ends_rollback {e : E} (h : Alone w s) :
    sys.Ends w op r s (.error e) (sys.rollback s w op r e) :=
  ⟨rfl, fun k => h.release k, by simp [rollback, State.setWorker]⟩

variable [Storage W DB K] [DecidableEq K]

theorem Alone.advance {β : Type} {k : β → Prog W DB K E R} {eff : Effect W K β} (h : Alone w s) :
    Alone w (s.advance w op r k eff) := by
  intro k' v hv
  simp only [State.advance, State.setWorker, State.lock] at hv
  by_cases hmem : k' ∈ eff.claims
  · rw [if_pos hmem] at hv
    exact (Option.some.inj hv).symm
  · rw [if_neg hmem] at hv
    exact h k' v hv

theorem exec_alone {p : Prog W DB K E R} :
    ∀ {s : State W DB K E T R Op} {r : Running W DB K E T R},
      s.workers w = .running op r → r.rest = p → Alone w s →
      ∃ n, sys.Ends w op r s (p.run r.own (view r.own s.db))
        (sys.run s (List.replicate n (.exec w))) := by
  induction p with
  | ret a =>
    intro s r hw hr halone
    refine ⟨0, r.held, rfl, halone, ?_⟩
    rw [List.replicate_zero, run_nil, hw, List.append_nil, ← hr]
  | fail e =>
    intro s r hw hr halone
    have hstep : sys.step s (.exec w) = sys.rollback s w op r e := by
      simp [step, hw, execAt, hr]
    refine ⟨1, ?_⟩
    rw [List.replicate_one, run_cons, hstep]
    exact sys.ends_rollback halone
  | stmt q k ih =>
    intro s r hw hr halone
    cases hq : q.exec r.own (view r.own s.db) with
    | error e =>
      have hstep : sys.step s (.exec w) = sys.rollback s w op r e := by
        simp [step, hw, execAt, hr, hq, halone.free]
      refine ⟨1, ?_⟩
      rw [List.replicate_one, run_cons, hstep, Prog.run, hq]
      exact sys.ends_rollback halone
    | ok eff =>
      have hstep : sys.step s (.exec w) = s.advance w op r k eff := by
        simp [step, hw, execAt, hr, hq, halone.free]
      have hw' : (s.advance w op r k eff).workers w = .running op { r with
          rest := k eff.result
          own := r.own ++ eff.writes
          held := r.held ++ eff.claims } := by
        simp [State.advance, State.setWorker]
      obtain ⟨n, hn⟩ := ih eff.result hw' rfl halone.advance
      refine ⟨n + 1, ?_⟩
      rw [List.replicate_succ, run_cons, hstep, Prog.run, hq]
      dsimp only at hn ⊢
      rw [view_append] at hn
      have hdb : (s.advance w op r k eff).db = s.db := rfl
      rw [hdb] at hn
      cases hk : (k eff.result).run (r.own ++ eff.writes) (view eff.writes (view r.own s.db)) with
      | error e =>
        rw [hk] at hn
        exact hn
      | ok rest =>
        rw [hk] at hn
        obtain ⟨held, hdb', halone', hw''⟩ := hn
        exact ⟨held, hdb', halone', by rw [hw'', List.append_assoc]⟩

theorem run_alone (hw : s.workers w = .running op r) (halone : Alone w s)
    (hrun : r.rest.run r.own (view r.own s.db) = .ok d) :
    ∃ n, (sys.run s (List.replicate n (.exec w) ++ [.commit w])).db =
        view (r.own ++ d.writes) s.db ∧
      (∀ k, (sys.run s (List.replicate n (.exec w) ++ [.commit w])).locks k = none) ∧
      (sys.run s (List.replicate n (.exec w) ++ [.commit w])).workers w =
        sys.enter op (r.next (.ok d.result)) := by
  obtain ⟨n, hn⟩ := sys.exec_alone hw rfl halone
  rw [hrun] at hn
  obtain ⟨held, hdb, halone', hw'⟩ := hn
  have hcommit : sys.step (sys.run s (List.replicate n (.exec w))) (.commit w) =
      sys.publish (sys.run s (List.replicate n (.exec w))) w op { r with
        rest := .ret d.result, own := r.own ++ d.writes, held := held } d.result := by
    simp [step, hw', commitAt]
  refine ⟨n, ?_, ?_, ?_⟩
  · rw [run_snoc, hcommit, ← hdb]
    rfl
  · rw [run_snoc, hcommit]
    exact halone'.release
  · rw [run_snoc, hcommit]
    simp [publish, State.setWorker]

theorem run_start_alone {t : T} {next : Except E R → Job T R E} (hjob : sys.job op = .tx t next)
    (hw : s.workers w = .idle) (hfree : ∀ k, s.locks k = none)
    (hrun : (sys.body t).run [] s.db = .ok d) :
    ∃ n, (sys.run s (.start w op :: (List.replicate n (.exec w) ++ [.commit w]))).db =
        view d.writes s.db ∧
      (sys.run s (.start w op :: (List.replicate n (.exec w) ++ [.commit w]))).workers w =
        sys.enter op (next (.ok d.result)) := by
  have hstart : sys.step s (.start w op) =
      s.setWorker w (.running op ⟨t, sys.body t, [], [], next⟩) := by
    simp only [step, hw, hjob, enter]
  have hw' : (sys.step s (.start w op)).workers w = .running op ⟨t, sys.body t, [], [], next⟩ := by
    simp only [hstart, State.setWorker, Function.update_self]
  have halone : Alone w (sys.step s (.start w op)) := by
    intro k v hv
    rw [hstart] at hv
    simp only [State.setWorker, hfree k] at hv
    cases hv
  have hdb : (sys.step s (.start w op)).db = s.db := by
    rw [hstart]
    rfl
  obtain ⟨n, hdb', _, hworker⟩ := sys.run_alone hw' halone (by rw [hdb]; exact hrun)
  rw [hdb] at hdb'
  exact ⟨n, hdb', hworker⟩

/-- From a point where nothing is locked, the steps of its worker alone bring an
operation to the outcome of `Job.serve`. -/
theorem run_serve {j : Job T R E} : ∀ {s : State W DB K E T R Op},
    s.workers w = sys.enter op j → (∀ k, s.locks k = none) →
    ∃ acts, (∀ act ∈ acts, act = .exec w ∨ act = .commit w) ∧
      (sys.run s acts).workers w = .finished op (j.serve sys.body s.db).1 ∧
      (sys.run s acts).db = (j.serve sys.body s.db).2 := by
  induction j with
  | done x =>
    intro s hw hfree
    exact ⟨[], by simp, hw, rfl⟩
  | tx t next ih =>
    intro s hw hfree
    have halone : Alone w s := fun k v hv => by rw [hfree k] at hv; cases hv
    cases hrun : (sys.body t).run [] s.db with
    | ok d =>
      obtain ⟨n, hdb, hlocks, hw'⟩ := sys.run_alone hw halone hrun
      obtain ⟨acts, hacts, hfin, hend⟩ := ih (.ok d.result) hw' hlocks
      rw [hdb] at hfin hend
      refine ⟨List.replicate n (.exec w) ++ [.commit w] ++ acts, ?_, ?_, ?_⟩
      · intro act hact
        simp only [List.mem_append, List.mem_replicate, List.mem_singleton] at hact
        rcases hact with (⟨_, rfl⟩ | rfl) | hact
        · exact Or.inl rfl
        · exact Or.inr rfl
        · exact hacts act hact
      · rw [run_append, hfin]
        simp [Job.serve, hrun]
      · rw [run_append, hend]
        simp [Job.serve, hrun]
    | error e =>
      obtain ⟨n, hn⟩ := sys.exec_alone hw rfl halone
      rw [view_nil, hrun] at hn
      obtain ⟨hdb, hlocks, hw'⟩ := hn
      obtain ⟨acts, hacts, hfin, hend⟩ := ih (.error e) hw' hlocks
      rw [hdb] at hfin hend
      refine ⟨List.replicate n (.exec w) ++ acts, ?_, ?_, ?_⟩
      · intro act hact
        rcases List.mem_append.mp hact with hact | hact
        · exact Or.inl (List.eq_of_mem_replicate hact)
        · exact hacts act hact
      · rw [run_append, hfin]
        simp [Job.serve, hrun]
      · rw [run_append, hend]
        simp [Job.serve, hrun]

end System

end Monierave.ReadCommitted
