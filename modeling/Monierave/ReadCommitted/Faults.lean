import Monierave.ReadCommitted.Machine

/-! # Commits that are reported as failed

A client may be told that its commit failed although it took effect, for instance
when the connection is lost before the acknowledgement arrives.
-/

namespace Monierave.ReadCommitted

variable {W DB K E T R Op : Type}

/-- A step of the machine, or a commit that takes effect while the worker is told that
it failed with `e`. -/
inductive Event (E Op : Type)
  | act (a : Action E Op)
  | lostCommit (w : Nat) (e : E)

structure Commit (W T : Type) where
  worker : Nat
  tx : T
  writes : List W

/-- Every transaction is one of `P`, and nothing follows one that commits, nor one of `L`
whatever becomes of it. -/
def Job.Once (P L : T → Prop) : Job T R E → Prop
  | .done _ => True
  | .tx t next => P t ∧ (∀ x, (∃ a, x = .ok a) ∨ L t → ∃ y, next x = .done y) ∧
      ∀ x, (next x).Once P L

namespace System

variable {s : State W DB K E T R Op} {w : Nat}

def committing (s : State W DB K E T R Op) (w : Nat) : Option (Commit W T) :=
  match s.workers w with
  | .running _ r =>
    match r.rest with
    | .ret _ => some ⟨w, r.tx, r.own⟩
    | _ => none
  | _ => none

theorem committing_eq {op : Op} {r : Running W DB K E T R} {a : R}
    (hw : s.workers w = .running op r) (hr : r.rest = .ret a) :
    committing s w = some ⟨w, r.tx, r.own⟩ := by
  simp [committing, hw, hr]

theorem worker_of_committing {v : Nat} {c : Commit W T} (h : committing s v = some c) :
    c.worker = v ∧ ∃ op r a, s.workers v = .running op r ∧ r.rest = .ret a := by
  unfold committing at h
  split at h
  · split at h
    · rename_i r hv _ a hr
      cases h
      exact ⟨rfl, _, r, a, hv, hr⟩
    · cases h
  · cases h

variable [Storage W DB K] [DecidableEq K] (sys : System W DB K E T R Op)

def stepEvent (s : State W DB K E T R Op) : Event E Op → State W DB K E T R Op
  | .act a => sys.step s a
  | .lostCommit w e =>
    match s.workers w with
    | .running op r =>
      match r.rest with
      | .ret a => (sys.publish s w op r a).setWorker w (sys.enter op (r.next (.error e)))
      | _ => s
    | _ => s

def committed (s : State W DB K E T R Op) : Event E Op → Option (Commit W T)
  | .act (.commit w) => committing s w
  | .act _ => none
  | .lostCommit w _ => committing s w

def runEvents (s : State W DB K E T R Op) (evs : List (Event E Op)) : State W DB K E T R Op :=
  evs.foldl sys.stepEvent s

def commits : State W DB K E T R Op → List (Event E Op) → List (Commit W T)
  | _, [] => []
  | s, ev :: evs => (committed s ev).toList ++ commits (sys.stepEvent s ev) evs

theorem runEvents_snoc (s : State W DB K E T R Op) (evs : List (Event E Op)) (ev : Event E Op) :
    sys.runEvents s (evs ++ [ev]) = sys.stepEvent (sys.runEvents s evs) ev := by
  simp [runEvents]

theorem commits_snoc (s : State W DB K E T R Op) (evs : List (Event E Op)) (ev : Event E Op) :
    sys.commits s (evs ++ [ev]) =
      sys.commits s evs ++ (committed (sys.runEvents s evs) ev).toList := by
  induction evs generalizing s with
  | nil => simp [commits, runEvents]
  | cons a evs ih =>
    rw [List.cons_append, commits, commits, ih, List.append_assoc]
    rfl

/-- An event leaves a worker alone, starts an operation, goes on with the transaction in
progress, ends it without a commit, or commits it. -/
inductive Concerns (s : State W DB K E T R Op) (ev : Event E Op) (w : Nat) :
    State W DB K E T R Op → Prop
  | apart {s' : State W DB K E T R Op} (hw : s'.workers w = s.workers w)
      (hcommit : ∀ c, committed s ev = some c → c.worker ≠ w) : Concerns s ev w s'
  | start {s' : State W DB K E T R Op} {op : Op} (hidle : s.workers w = .idle)
      (hw : s'.workers w = sys.enter op (sys.job op)) (hcommit : committed s ev = none) :
      Concerns s ev w s'
  | advance {s' : State W DB K E T R Op} {β : Type} {op : Op} {r : Running W DB K E T R}
      {q : Stmt W DB K E β} {k : β → Prog W DB K E R} {eff : Effect W K β}
      (hrun : s.workers w = .running op r) (hr : r.rest = .stmt q k)
      (hq : q.exec r.own (view r.own s.db) = .ok eff)
      (hw : s'.workers w = .running op { r with
        rest := k eff.result
        own := r.own ++ eff.writes
        held := r.held ++ eff.claims }) (hcommit : committed s ev = none) : Concerns s ev w s'
  | rollback {s' : State W DB K E T R Op} {op : Op} {r : Running W DB K E T R} (e : E)
      (hrun : s.workers w = .running op r) (hw : s'.workers w = sys.enter op (r.next (.error e)))
      (hcommit : committed s ev = none) : Concerns s ev w s'
  | commit {s' : State W DB K E T R Op} {op : Op} {r : Running W DB K E T R} {a : R}
      (x : Except E R) (hrun : s.workers w = .running op r) (hr : r.rest = .ret a)
      (hw : s'.workers w = sys.enter op (r.next x))
      (hcommit : committed s ev = some ⟨w, r.tx, r.own⟩)
      (hx : x = .ok a ∨ ∃ e, ev = .lostCommit w e) : Concerns s ev w s'

variable {sys} {s' : State W DB K E T R Op}

theorem Moves.concerns {a : Action E Op} (hm : sys.Moves s a s') (ha : ∀ v, a ≠ .commit v) :
    sys.Concerns s (.act a) w s' := by
  have hnone : committed s (.act a) = none := by
    cases a with
    | commit v => exact absurd rfl (ha v)
    | start v op => rfl
    | exec v => rfl
    | abort v e => rfl
  have hapart : ∀ c, committed s (.act a) = some c → c.worker ≠ w := by
    rw [hnone]
    simp
  cases hm with
  | stay => exact .apart rfl hapart
  | @start v op hact hv =>
    by_cases hvw : w = v
    · subst hvw
      exact .start hv (Function.update_self ..) hnone
    · exact .apart (Function.update_of_ne hvw ..) hapart
  | @advance β v op r q k eff hv hr hq _ _ =>
    by_cases hvw : w = v
    · subst hvw
      exact .advance hv hr hq (Function.update_self ..) hnone
    · exact .apart (Function.update_of_ne hvw ..) hapart
  | @rollback v op r e hv =>
    by_cases hvw : w = v
    · subst hvw
      exact .rollback e hv (Function.update_self ..) hnone
    · exact .apart (Function.update_of_ne hvw ..) hapart
  | @commit v op r a hv hr hact => exact absurd hact (ha v)

variable (sys)

omit [DecidableEq K] in
theorem concerns_commit {ev : Event E Op} {v : Nat} (x : R → Except E R)
    (hcommitted : committed s ev = committing s v)
    (hx : ∀ a, x a = .ok a ∨ ∃ e, ev = .lostCommit v e)
    (hstep : ∀ op r a, s.workers v = .running op r → r.rest = .ret a →
      s'.workers = Function.update s.workers v (sys.enter op (r.next (x a))))
    (hstay : committing s v = none → s'.workers = s.workers) : sys.Concerns s ev w s' := by
  cases hc : committing s v with
  | none => exact .apart (by rw [hstay hc]) (by rw [hcommitted, hc]; simp)
  | some c =>
    obtain ⟨hcv, op, r, a, hv, hr⟩ := worker_of_committing hc
    by_cases hvw : w = v
    · subst hvw
      refine .commit (x a) hv hr ?_ (by rw [hcommitted, committing_eq hv hr]) (hx a)
      rw [hstep op r a hv hr, Function.update_self]
    · refine .apart (by rw [hstep op r a hv hr, Function.update_of_ne hvw]) ?_
      intro c' hc'
      rw [hcommitted, hc] at hc'
      rw [← Option.some.inj hc', hcv]
      exact Ne.symm hvw

theorem event_concerns (s : State W DB K E T R Op) (ev : Event E Op) (w : Nat) :
    sys.Concerns s ev w (sys.stepEvent s ev) := by
  cases ev with
  | act a =>
    by_cases ha : ∃ v, a = .commit v
    · obtain ⟨v, rfl⟩ := ha
      refine sys.concerns_commit .ok rfl (fun _ => Or.inl rfl) ?_ ?_
      · intro op r a hv hr
        simp [stepEvent, step, hv, commitAt, hr, publish, State.setWorker, State.release]
      · intro hnone
        simp only [stepEvent, step]
        cases hv : s.workers v with
        | idle => rfl
        | finished op x => rfl
        | running op r =>
          cases hr : r.rest with
          | ret a => simp [committing, hv, hr] at hnone
          | fail e => simp [commitAt, hr]
          | stmt q k => simp [commitAt, hr]
    · exact (sys.step_moves s a).concerns fun v hv => ha ⟨v, hv⟩
  | lostCommit v e =>
    refine sys.concerns_commit (fun _ => .error e) rfl (fun _ => Or.inr ⟨e, rfl⟩) ?_ ?_
    · intro op r a hv hr
      simp [stepEvent, hv, hr, publish, State.setWorker, State.release]
    · intro hnone
      simp only [stepEvent]
      cases hv : s.workers v with
      | idle => rfl
      | finished op x => rfl
      | running op r =>
        cases hr : r.rest with
        | ret a => simp [committing, hv, hr] at hnone
        | fail e => simp only [hr]
        | stmt q k => simp only [hr]

def commitsOf (w : Nat) (cs : List (Commit W T)) : List (Commit W T) :=
  cs.filter fun c => c.worker = w

/-- Of the commits of worker `w` only those of transactions of `L` are reported as failed. -/
def LosesOnly (L : T → Prop) (w : Nat) (db : DB) (evs : List (Event E Op)) : Prop :=
  ∀ pre e post, evs = pre ++ .lostCommit w e :: post →
    ∀ op r, (sys.runEvents (State.init db) pre).workers w = .running op r → L r.tx

def CommitsOnce (P L : T → Prop) (C : Op → Prop) (w : Nat) (cs : List (Commit W T)) :
    Worker W DB K E T R Op → Prop
  | .idle => commitsOf w cs = []
  | .running op r => C op → commitsOf w cs = [] ∧ (Job.tx r.tx r.next).Once P L
  | .finished op _ => C op → commitsOf w cs = [] ∨ ∃ c, commitsOf w cs = [c] ∧ P c.tx

variable {sys} {P L : T → Prop} {C : Op → Prop} {cs : List (Commit W T)} {op : Op}

omit [Storage W DB K] [DecidableEq K] in
theorem commitsOnce_enter {j : Job T R E} (hcs : C op → commitsOf w cs = []) (hj : C op → j.Once P L) :
    CommitsOnce P L C w cs (sys.enter op j) := by
  cases j with
  | done x => exact fun hop => Or.inl (hcs hop)
  | tx t next => exact fun hop => ⟨hcs hop, hj hop⟩

theorem commitsOnce_event {ev : Event E Op} (hops : ∀ op, C op → (sys.job op).Once P L)
    (hlost : ∀ e, ev = .lostCommit w e → ∀ op r, s.workers w = .running op r → L r.tx)
    (h : CommitsOnce P L C w cs (s.workers w)) :
    CommitsOnce P L C w (cs ++ (committed s ev).toList) ((sys.stepEvent s ev).workers w) := by
  cases sys.event_concerns s ev w with
  | apart hw hcommit =>
    have hsame : commitsOf w (cs ++ (committed s ev).toList) = commitsOf w cs := by
      have hnew : commitsOf w (committed s ev).toList = [] := by
        refine List.filter_eq_nil_iff.mpr fun c hc => ?_
        simpa using hcommit c (Option.mem_toList.mp hc)
      rw [commitsOf, List.filter_append, ← commitsOf, ← commitsOf, hnew, List.append_nil]
    rw [hw]
    cases hworker : s.workers w with
    | idle => simpa [hworker, CommitsOnce, hsame] using h
    | running op r => simpa [hworker, CommitsOnce, hsame] using h
    | finished op x => simpa [hworker, CommitsOnce, hsame] using h
  | start hidle hw hcommit =>
    rw [hw, hcommit]
    rw [hidle] at h
    have hnone : commitsOf w cs = [] := h
    exact commitsOnce_enter (fun _ => by simpa using hnone) fun hop => hops _ hop
  | advance hrun hr hq hw hcommit =>
    rw [hw, hcommit, Option.toList_none, List.append_nil]
    rw [hrun] at h
    exact h
  | rollback e hrun hw hcommit =>
    rw [hw, hcommit]
    rw [hrun] at h
    exact commitsOnce_enter (fun hop => by simpa using (h hop).1) fun hop => (h hop).2.2.2 _
  | @commit op r a x hrun hr hw hcommit hx =>
    rw [hw, hcommit]
    rw [hrun] at h
    have hlast : (∃ a, x = .ok a) ∨ L r.tx :=
      hx.imp (fun h => ⟨a, h⟩) fun ⟨e, he⟩ => hlost e he op r hrun
    by_cases hop : C op
    · obtain ⟨hnone, hP, hends, _⟩ := h hop
      obtain ⟨y, hy⟩ := hends x hlast
      rw [hy]
      refine fun _ => Or.inr ⟨⟨w, r.tx, r.own⟩, ?_, hP⟩
      simp only [commitsOf, List.filter_append] at hnone ⊢
      rw [hnone]
      simp
    · exact commitsOnce_enter (fun h => absurd h hop) fun h => absurd h hop

theorem commits_once (hops : ∀ op, C op → (sys.job op).Once P L) (db : DB)
    (evs : List (Event E Op)) (hlost : sys.LosesOnly L w db evs) :
    CommitsOnce P L C w (sys.commits (State.init db) evs)
      ((sys.runEvents (State.init db) evs).workers w) := by
  induction evs using List.reverseRecOn with
  | nil => exact rfl
  | append_singleton evs ev ih =>
    rw [runEvents_snoc, commits_snoc]
    refine commitsOnce_event hops (fun e he => hlost evs e [] (by rw [he])) (ih ?_)
    exact fun pre e post heq => hlost pre e (post ++ [ev]) (by simp [heq])

def WritesWithin (A : T → W → Prop) : Worker W DB K E T R Op → Prop
  | .running _ r => (∀ x ∈ r.own, A r.tx x) ∧
      r.rest.WritesOnly (A r.tx)
  | _ => True

variable {A : T → W → Prop}

omit [Storage W DB K] [DecidableEq K] in
theorem writesWithin_enter (hbody : ∀ t, (sys.body t).WritesOnly (A t))
    (j : Job T R E) : WritesWithin A (sys.enter op j) := by
  cases j with
  | done x => trivial
  | tx t next => exact ⟨by simp, hbody t⟩

theorem writesWithin_event (hbody : ∀ t, (sys.body t).WritesOnly (A t))
    {ev : Event E Op} (h : WritesWithin A (s.workers w)) :
    WritesWithin A ((sys.stepEvent s ev).workers w) := by
  cases sys.event_concerns s ev w with
  | apart hw hcommit => rwa [hw]
  | start hidle hw hcommit =>
    rw [hw]
    exact writesWithin_enter hbody _
  | advance hrun hr hq hw hcommit =>
    rw [hw]
    rw [hrun] at h
    obtain ⟨hown, hrest⟩ := h
    rw [hr] at hrest
    obtain ⟨hwrites, hk⟩ := hrest _ _ _ trivial hq
    exact ⟨List.forall_mem_append.mpr ⟨hown, hwrites⟩, hk⟩
  | rollback e hrun hw hcommit =>
    rw [hw]
    exact writesWithin_enter hbody _
  | commit x hrun hr hw hcommit hx =>
    rw [hw]
    exact writesWithin_enter hbody _

theorem writesWithin_run (hbody : ∀ t, (sys.body t).WritesOnly (A t))
    (db : DB) (evs : List (Event E Op)) (w : Nat) :
    WritesWithin A ((sys.runEvents (State.init db) evs).workers w) := by
  induction evs using List.reverseRecOn with
  | nil => trivial
  | append_singleton evs ev ih =>
    rw [runEvents_snoc]
    exact writesWithin_event hbody ih

theorem commits_within (hbody : ∀ t, (sys.body t).WritesOnly (A t))
    (db : DB) (evs : List (Event E Op)) :
    ∀ c ∈ sys.commits (State.init db) evs, ∀ x ∈ c.writes, A c.tx x := by
  induction evs using List.reverseRecOn with
  | nil => simp [commits]
  | append_singleton evs ev ih =>
    rw [commits_snoc]
    refine List.forall_mem_append.mpr ⟨ih, fun c hc => ?_⟩
    have hwithin := writesWithin_run hbody db evs c.worker
    cases sys.event_concerns (sys.runEvents (State.init db) evs) ev c.worker with
    | apart hw hcommit => exact absurd rfl (hcommit c (Option.mem_toList.mp hc))
    | start hidle hw hcommit => simp [hcommit] at hc
    | advance hrun hr hq hw hcommit => simp [hcommit] at hc
    | rollback e hrun hw hcommit => simp [hcommit] at hc
    | commit x hrun hr hw hcommit hx =>
      rw [hrun] at hwithin
      rw [hcommit] at hc
      rw [← Option.some.inj (Option.mem_toList.mp hc)]
      exact hwithin.1

end System

end Monierave.ReadCommitted
