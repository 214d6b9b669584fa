import Mathlib.Data.List.Induction
import Mathlib.Logic.Function.Basic
import Monierave.ReadCommitted.Program

/-! # Interleaved execution

Any number of workers run their transactions side by side, one statement at a time
and in any order.
-/

namespace Monierave.ReadCommitted

variable {W DB K E T R Op : Type}

/-- An operation as a sequence of transactions, each decided by the outcomes so
far. -/
inductive Job (T R E : Type) : Type
  | done (r : Except E R)
  | tx (t : T) (next : Except E R → Job T R E)

def Job.map {T' : Type} (f : T → T') : Job T R E → Job T' R E
  | .done r => .done r
  | .tx t next => .tx (f t) fun x => (next x).map f

/-- An operation may come to a transaction, and then go on with `next`. -/
inductive Job.Leads : Job T R E → T → (Except E R → Job T R E) → Prop
  | here (t : T) (next : Except E R → Job T R E) : Leads (.tx t next) t next
  | later {t t' : T} {next next' : Except E R → Job T R E} (x : Except E R)
      (h : Leads (next x) t' next') : Leads (.tx t next) t' next'

variable {j : Job T R E} {t : T} {next : Except E R → Job T R E}

theorem Job.Leads.trans {t' : T} {next' : Except E R → Job T R E} (h : j.Leads t next)
    {x : Except E R} (h' : (next x).Leads t' next') : j.Leads t' next' := by
  induction h with
  | here t next => exact .later x h'
  | later y h ih => exact .later y (ih h')

/-- Every transaction the operation may come to is one of `P`. -/
def Job.All (P : T → Prop) : Job T R E → Prop
  | .done _ => True
  | .tx t next => P t ∧ ∀ x, (next x).All P

theorem Job.Leads.of_all {P : T → Prop} (h : j.Leads t next) (hall : j.All P) : P t := by
  induction h with
  | here t next => exact hall.1
  | later x h ih => exact ih (hall.2 x)

structure System (W DB K E T R Op : Type) where
  body : T → Prog W DB K E R
  job : Op → Job T R E

structure Running (W DB K E T R : Type) where
  tx : T
  rest : Prog W DB K E R
  own : List W
  held : List K
  next : Except E R → Job T R E

inductive Worker (W DB K E T R Op : Type)
  | idle
  | running (op : Op) (r : Running W DB K E T R)
  | finished (op : Op) (result : Except E R)

def Worker.op? : Worker W DB K E T R Op → Option Op
  | .idle => none
  | .running op _ => some op
  | .finished op _ => some op

/-- `log` lists the transactions that committed a change, in commit order. -/
structure State (W DB K E T R Op : Type) where
  db : DB
  locks : K → Option Nat
  workers : Nat → Worker W DB K E T R Op
  log : List (T × R)

inductive Action (E Op : Type)
  | start (w : Nat) (op : Op)
  | exec (w : Nat)
  | commit (w : Nat)
  | abort (w : Nat) (e : E)

namespace System

variable (sys : System W DB K E T R Op)

def enter (op : Op) : Job T R E → Worker W DB K E T R Op
  | .done r => .finished op r
  | .tx t next => .running op ⟨t, sys.body t, [], [], next⟩

@[simp] theorem enter_op (op : Op) (j : Job T R E) : (sys.enter op j).op? = some op := by
  cases j <;> rfl

theorem enter_leads {op op' : Op} {r : Running W DB K E T R} (h : sys.enter op j = .running op' r) :
    op' = op ∧ j.Leads r.tx r.next := by
  cases j with
  | done x => cases h
  | tx t next =>
    cases h
    exact ⟨rfl, .here t next⟩

theorem own_of_enter {op op' : Op} {j : Job T R E} {r : Running W DB K E T R}
    (h : sys.enter op j = .running op' r) : r.own = [] := by
  cases j with
  | done x => cases h
  | tx t next =>
    cases h
    rfl

end System

namespace State

def init (db : DB) : State W DB K E T R Op := ⟨db, fun _ => none, fun _ => .idle, []⟩

/-- No worker other than `w` holds any of the keys. -/
def free (s : State W DB K E T R Op) (w : Nat) (ks : List K) : Bool :=
  ks.all fun k => match s.locks k with
    | none => true
    | some v => v == w

def setWorker (s : State W DB K E T R Op) (w : Nat) (x : Worker W DB K E T R Op) :
    State W DB K E T R Op :=
  { s with workers := Function.update s.workers w x }

def release (s : State W DB K E T R Op) (w : Nat) : State W DB K E T R Op :=
  { s with locks := fun k => if s.locks k = some w then none else s.locks k }

variable {s : State W DB K E T R Op} {w : Nat}

theorem free_iff {ks : List K} :
    s.free w ks = true ↔ ∀ k ∈ ks, ∀ v, s.locks k = some v → v = w := by
  simp only [free, List.all_eq_true]
  refine forall₂_congr fun k _ => ?_
  cases s.locks k with
  | none => simp
  | some v => simp

def Exclusive (s : State W DB K E T R Op) : Prop :=
  ∀ w op r, s.workers w = .running op r → ∀ k ∈ r.held, s.locks k = some w

theorem Exclusive.disjoint (h : s.Exclusive) {v : Nat} {op op' : Op} {r r' : Running W DB K E T R}
    (hw : s.workers w = .running op r) (hv : s.workers v = .running op' r') (hne : w ≠ v) :
    ∀ k ∈ r.held, k ∉ r'.held := by
  intro k hk hk'
  have h1 := h w op r hw k hk
  rw [h v op' r' hv k hk'] at h1
  exact hne (by simpa using h1.symm)

end State

namespace System

variable (sys : System W DB K E T R Op)

variable {op : Op} {s : State W DB K E T R Op}

theorem running_setWorker (s₀ : State W DB K E T R Op) {w : Nat} (hs₀ : s₀.workers = s.workers)
    {P : Op → Running W DB K E T R → Prop} (hrun : ∀ v op r, s.workers v = .running op r → P op r)
    (hj : ∀ r, sys.enter op j = .running op r → P op r) :
    ∀ v op' r, (s₀.setWorker w (sys.enter op j)).workers v = .running op' r → P op' r := by
  intro v op' r hv
  by_cases hvw : v = w
  · subst hvw
    simp only [State.setWorker, Function.update_self] at hv
    obtain ⟨rfl, _⟩ := sys.enter_leads hv
    exact hj r hv
  · simp only [State.setWorker, Function.update_of_ne hvw, hs₀] at hv
    exact hrun v op' r hv

theorem exclusive_init (db : DB) :
    (State.init db : State W DB K E T R Op).Exclusive := by
  intro w op r hw
  cases hw

theorem exclusive_leave {w : Nat} (h : s.Exclusive) (op : Op) (j : Job T R E) :
    ((s.release w).setWorker w (sys.enter op j)).Exclusive := by
  intro v op' r' hv k hk
  by_cases hvw : v = w
  · subst hvw
    simp only [State.setWorker, Function.update_self] at hv
    cases j with
    | done r => cases hv
    | tx t next =>
      cases hv
      simp at hk
  · simp only [State.setWorker, State.release, Function.update_of_ne hvw] at hv ⊢
    have := h v op' r' hv k hk
    rw [this, if_neg]
    simpa using hvw

end System

variable [Storage W DB K] [DecidableEq K]

namespace State

def lock (s : State W DB K E T R Op) (w : Nat) (ks : List K) : State W DB K E T R Op :=
  { s with locks := fun k => if k ∈ ks then some w else s.locks k }

/-- The state once worker `w` has evaluated a statement with effect `eff`. -/
def advance {β : Type} (s : State W DB K E T R Op) (w : Nat) (op : Op)
    (r : Running W DB K E T R) (k : β → Prog W DB K E R) (eff : Effect W K β) :
    State W DB K E T R Op :=
  (s.lock w eff.claims).setWorker w (.running op { r with
    rest := k eff.result
    own := r.own ++ eff.writes
    held := r.held ++ eff.claims })

def Owns (s : State W DB K E T R Op) : Prop :=
  ∀ w op r, s.workers w = .running op r → ∀ x ∈ r.own, ∀ k ∈ Storage.keys x, k ∈ r.held

end State

namespace System

variable (sys : System W DB K E T R Op)

def rollback (s : State W DB K E T R Op) (w : Nat) (op : Op) (r : Running W DB K E T R)
    (e : E) : State W DB K E T R Op :=
  (s.release w).setWorker w (sys.enter op (r.next (.error e)))

/-- Publish the transaction's writes. A transaction that wrote nothing leaves no
trace in the log. -/
def publish (s : State W DB K E T R Op) (w : Nat) (op : Op) (r : Running W DB K E T R)
    (a : R) : State W DB K E T R Op :=
  { (s.release w).setWorker w (sys.enter op (r.next (.ok a))) with
    db := view r.own s.db
    log := if r.own.isEmpty then s.log else s.log ++ [(r.tx, a)] }

def execAt (s : State W DB K E T R Op) (w : Nat) (op : Op) (r : Running W DB K E T R) :
    State W DB K E T R Op :=
  match r.rest with
  | .ret _ => s
  | .fail e => sys.rollback s w op r e
  | .stmt q k =>
    if s.free w (q.waits (view r.own s.db)) then
      match q.exec r.own (view r.own s.db) with
      | .error e => sys.rollback s w op r e
      | .ok eff => if s.free w eff.claims then s.advance w op r k eff else s
    else s

def commitAt (s : State W DB K E T R Op) (w : Nat) (op : Op) (r : Running W DB K E T R) :
    State W DB K E T R Op :=
  match r.rest with
  | .ret a => sys.publish s w op r a
  | _ => s

def step (s : State W DB K E T R Op) : Action E Op → State W DB K E T R Op
  | .start w op =>
    match s.workers w with
    | .idle => s.setWorker w (sys.enter op (sys.job op))
    | _ => s
  | .exec w =>
    match s.workers w with
    | .running op r => sys.execAt s w op r
    | _ => s
  | .commit w =>
    match s.workers w with
    | .running op r => sys.commitAt s w op r
    | _ => s
  | .abort w e =>
    match s.workers w with
    | .running op r => sys.rollback s w op r e
    | _ => s

def run (s : State W DB K E T R Op) (acts : List (Action E Op)) : State W DB K E T R Op :=
  acts.foldl sys.step s

variable {s : State W DB K E T R Op}

@[simp] theorem run_nil (s : State W DB K E T R Op) : sys.run s [] = s := rfl

theorem run_cons (s : State W DB K E T R Op) (a : Action E Op) (acts : List (Action E Op)) :
    sys.run s (a :: acts) = sys.run (sys.step s a) acts := rfl

theorem run_append (s : State W DB K E T R Op) (acts acts' : List (Action E Op)) :
    sys.run s (acts ++ acts') = sys.run (sys.run s acts) acts' := by
  simp [run, List.foldl_append]

theorem run_snoc (s : State W DB K E T R Op) (acts : List (Action E Op)) (a : Action E Op) :
    sys.run s (acts ++ [a]) = sys.step (sys.run s acts) a := by
  simp [run]

/-- The five things an action can amount to. -/
inductive Moves (s : State W DB K E T R Op) (act : Action E Op) : State W DB K E T R Op → Prop
  | stay : Moves s act s
  | start {w : Nat} {op : Op} (hact : act = .start w op) (hw : s.workers w = .idle) :
      Moves s act (s.setWorker w (sys.enter op (sys.job op)))
  | advance {β : Type} {w : Nat} {op : Op} {r : Running W DB K E T R} {q : Stmt W DB K E β}
      {k : β → Prog W DB K E R} {eff : Effect W K β} (hw : s.workers w = .running op r)
      (hr : r.rest = .stmt q k) (hq : q.exec r.own (view r.own s.db) = .ok eff)
      (hwait : s.free w (q.waits (view r.own s.db)) = true) (hfree : s.free w eff.claims = true) :
      Moves s act (s.advance w op r k eff)
  | rollback {w : Nat} {op : Op} {r : Running W DB K E T R} (e : E)
      (hw : s.workers w = .running op r) : Moves s act (sys.rollback s w op r e)
  | commit {w : Nat} {op : Op} {r : Running W DB K E T R} {a : R}
      (hw : s.workers w = .running op r) (hr : r.rest = .ret a) (hact : act = .commit w) :
      Moves s act (sys.publish s w op r a)

theorem execAt_moves {act : Action E Op} {w : Nat} {op : Op} {r : Running W DB K E T R}
    (hw : s.workers w = .running op r) : sys.Moves s act (sys.execAt s w op r) := by
  unfold execAt
  cases hr : r.rest with
  | ret a => exact .stay
  | fail e => exact .rollback e hw
  | stmt q k =>
    dsimp only
    by_cases hwait : s.free w (q.waits (view r.own s.db)) = true
    · rw [if_pos hwait]
      cases hq : q.exec r.own (view r.own s.db) with
      | error e => exact .rollback e hw
      | ok eff =>
        dsimp only
        by_cases hfree : s.free w eff.claims = true
        · rw [if_pos hfree]
          exact .advance hw hr hq hwait hfree
        · rw [if_neg hfree]
          exact .stay
    · rw [if_neg hwait]
      exact .stay

theorem step_moves (s : State W DB K E T R Op) (a : Action E Op) :
    sys.Moves s a (sys.step s a) := by
  cases a with
  | start w op =>
    cases hw : s.workers w with
    | idle => simpa [step, hw] using Moves.start rfl hw
    | running op' r => simpa [step, hw] using Moves.stay
    | finished op' r => simpa [step, hw] using Moves.stay
  | exec w =>
    cases hw : s.workers w with
    | idle => simpa [step, hw] using Moves.stay
    | running op r => simpa [step, hw] using sys.execAt_moves hw
    | finished op r => simpa [step, hw] using Moves.stay
  | commit w =>
    cases hw : s.workers w with
    | idle => simpa [step, hw] using Moves.stay
    | running op r =>
      cases hr : r.rest with
      | ret a => simpa [step, hw, commitAt, hr] using Moves.commit hw hr rfl
      | fail e => simpa [step, hw, commitAt, hr] using Moves.stay
      | stmt q k => simpa [step, hw, commitAt, hr] using Moves.stay
    | finished op r => simpa [step, hw] using Moves.stay
  | abort w e =>
    cases hw : s.workers w with
    | idle => simpa [step, hw] using Moves.stay
    | running op r => simpa [step, hw] using Moves.rollback e hw
    | finished op r => simpa [step, hw] using Moves.stay

theorem run_induction {P : State W DB K E T R Op → Prop} (h0 : P s)
    (hstep : ∀ s s' act, P s → sys.Moves s act s' → P s') (acts : List (Action E Op)) :
    P (sys.run s acts) := by
  induction acts generalizing s with
  | nil => exact h0
  | cons a acts ih => exact ih (hstep _ _ _ h0 (sys.step_moves s a))

variable {op : Op} {s s' : State W DB K E T R Op} {act : Action E Op} {v : Nat}

def Led (s : State W DB K E T R Op) : Prop :=
  ∀ w op r, s.workers w = .running op r → (sys.job op).Leads r.tx r.next

theorem running_advance {w : Nat} {r : Running W DB K E T R} {k : α → Prog W DB K E R}
    {eff : Effect W K α} {P : Op → Running W DB K E T R → Prop}
    (hrun : ∀ v op r, s.workers v = .running op r → P op r)
    (hw : P op { r with
      rest := k eff.result
      own := r.own ++ eff.writes
      held := r.held ++ eff.claims }) :
    ∀ v op' r', (s.advance w op r k eff).workers v = .running op' r' → P op' r' := by
  intro v op' r' hv
  by_cases hvw : v = w
  · subst hvw
    simp only [State.advance, State.setWorker, Function.update_self] at hv
    cases hv
    exact hw
  · simp only [State.advance, State.setWorker, Function.update_of_ne hvw] at hv
    exact hrun v op' r' hv

theorem led_moves (h : sys.Led s) (hm : sys.Moves s act s') : sys.Led s' := by
  cases hm with
  | stay => exact h
  | start hact hw =>
    exact sys.running_setWorker s rfl h fun r hr => (sys.enter_leads hr).2
  | advance hw hr hq hwait hfree =>
    have hown := h _ _ _ hw
    exact System.running_advance h hown
  | rollback e hw =>
    exact sys.running_setWorker (s.release _) rfl h fun r hr =>
      (h _ _ _ hw).trans (sys.enter_leads hr).2
  | commit hw hr hact =>
    exact sys.running_setWorker (s.release _) rfl h fun r hr =>
      (h _ _ _ hw).trans (sys.enter_leads hr).2

theorem led_run (db : DB) (acts : List (Action E Op)) :
    sys.Led (sys.run (State.init db) acts) :=
  sys.run_induction (fun _ _ _ hw => by cases hw) (fun _ _ _ => sys.led_moves) acts

theorem op_moves (hm : sys.Moves s act s') (h : (s'.workers v).op? = some op) :
    (s.workers v).op? = some op ∨ act = .start v op := by
  have hset : ∀ (s₀ : State W DB K E T R Op) w x, s₀.workers = s.workers →
      ((s₀.setWorker w x).workers v).op? = some op →
        (s.workers v).op? = some op ∨ (v = w ∧ x.op? = some op) := by
    intro s₀ w x hs₀ hv
    by_cases hvw : v = w
    · subst hvw
      simp only [State.setWorker, Function.update_self] at hv
      exact Or.inr ⟨rfl, hv⟩
    · simp only [State.setWorker, Function.update_of_ne hvw, hs₀] at hv
      exact Or.inl hv
  -- only a start gives a worker an operation, the other moves leave it with the one it has
  cases hm with
  | stay => exact Or.inl h
  | start hact hw =>
    rcases hset _ _ _ rfl h with h | ⟨rfl, hx⟩
    · exact Or.inl h
    · rw [enter_op] at hx
      cases hx
      exact Or.inr hact
  | advance hw hr hq hwait hfree =>
    rcases hset _ _ _ rfl h with h | ⟨rfl, hx⟩
    · exact Or.inl h
    · exact Or.inl (by rw [hw]; exact hx)
  | rollback e hw =>
    rcases hset _ _ _ rfl h with h | ⟨rfl, hx⟩
    · exact Or.inl h
    · rw [enter_op] at hx
      exact Or.inl (by rw [hw]; exact hx)
  | commit hw hr hact =>
    rcases hset _ _ _ rfl h with h | ⟨rfl, hx⟩
    · exact Or.inl h
    · rw [enter_op] at hx
      exact Or.inl (by rw [hw]; exact hx)

theorem finished_moves (hm : sys.Moves s act s') {x : Except E R}
    (h : s.workers v = .finished op x) : s'.workers v = .finished op x := by
  have hset : ∀ (s₀ : State W DB K E T R Op) w y, s₀.workers = s.workers →
      (∀ op x, s.workers w ≠ .finished op x) → (s₀.setWorker w y).workers v = .finished op x := by
    intro s₀ w y hs₀ hw
    have hvw : v ≠ w := fun hvw => hw op x (hvw ▸ h)
    simp only [State.setWorker, Function.update_of_ne hvw, hs₀]
    exact h
  cases hm with
  | stay => exact h
  | start hact hw => exact hset s _ _ rfl (by simp [hw])
  | advance hw hr hq hwait hfree => exact hset (s.lock _ _) _ _ rfl (by simp [hw])
  | rollback e hw => exact hset (s.release _) _ _ rfl (by simp [hw])
  | commit hw hr hact => exact hset (s.release _) _ _ rfl (by simp [hw])

theorem op_run {db : DB} {acts : List (Action E Op)}
    (h : ((sys.run (State.init db) acts).workers v).op? = some op) : .start v op ∈ acts := by
  induction acts using List.reverseRecOn with
  | nil => cases h
  | append_singleton acts act ih =>
    rw [run_snoc] at h
    rw [List.mem_append, List.mem_singleton]
    rcases sys.op_moves (sys.step_moves _ act) h with h | rfl
    · exact Or.inl (ih h)
    · exact Or.inr rfl

theorem exclusive_moves (h : s.Exclusive) (hm : sys.Moves s act s') : s'.Exclusive := by
  cases hm with
  | stay => exact h
  | start hact hw =>
    rename_i w op
    intro v op' r' hv k hk
    by_cases hvw : v = w
    · subst hvw
      simp only [State.setWorker, Function.update_self] at hv
      cases hj : sys.job op with
      | done r => rw [hj] at hv; cases hv
      | tx t next =>
        rw [hj] at hv
        cases hv
        simp at hk
    · simp only [State.setWorker, Function.update_of_ne hvw] at hv
      exact h v op' r' hv k hk
  | advance hw hr hq hwait hfree =>
    rename_i w op r q k eff
    intro v op' r' hv j hj
    by_cases hvw : v = w
    · subst hvw
      simp only [State.advance, State.setWorker, Function.update_self] at hv
      cases hv
      simp only [State.advance, State.setWorker, State.lock]
      by_cases hjc : j ∈ eff.claims
      · rw [if_pos hjc]
      · rw [if_neg hjc]
        rcases List.mem_append.mp hj with hj | hj
        · exact h v op r hw j hj
        · exact absurd hj hjc
    · simp only [State.advance, State.setWorker, State.lock, Function.update_of_ne hvw] at hv ⊢
      have hlock := h v op' r' hv j hj
      have hjc : j ∉ eff.claims := by
        intro hjc
        exact hvw (State.free_iff.mp hfree j hjc v hlock)
      rw [if_neg hjc]
      exact hlock
  | rollback e hw => exact sys.exclusive_leave h _ _
  | commit hw hr hact => exact sys.exclusive_leave h _ _

omit [DecidableEq K] in
theorem owns_init (db : DB) : (State.init db : State W DB K E T R Op).Owns := by
  intro w op r hw
  cases hw

theorem owns_moves (h : s.Owns) (hm : sys.Moves s act s') : s'.Owns := by
  have hfresh : ∀ op j r, sys.enter op j = .running op r →
      ∀ x ∈ r.own, ∀ k ∈ Storage.keys x, k ∈ r.held := by
    intro op j r hr x hx
    rw [sys.own_of_enter hr] at hx
    cases hx
  cases hm with
  | stay => exact h
  | start hact hw => exact sys.running_setWorker s rfl h (hfresh _ _)
  | advance hw hr hq hwait hfree =>
    refine System.running_advance h fun x hx j hj => ?_
    rcases List.mem_append.mp hx with hx | hx
    · exact List.mem_append_left _ (h _ _ _ hw x hx j hj)
    · apply List.mem_append_right
      simp only [Effect.claims, List.mem_append, List.mem_flatMap]
      exact Or.inr ⟨x, hx, hj⟩
  | rollback e hw => exact sys.running_setWorker (s.release _) rfl h (hfresh _ _)
  | commit hw hr hact => exact sys.running_setWorker (s.release _) rfl h (hfresh _ _)

end System

end Monierave.ReadCommitted
