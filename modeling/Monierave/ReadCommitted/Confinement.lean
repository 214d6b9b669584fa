import Monierave.ReadCommitted.Machine

/-! # Invariants kept by confined transactions

If every transaction, as long as it sees an invariant hold, writes only what keeps
the invariant, then the invariant holds of the committed tables after every run.
-/

namespace Monierave.ReadCommitted

variable {W DB K E T R Op : Type} {α : Type}

namespace Prog

variable {C C' : DB → Prop} {P : W → Prop} {Q Q' : α → Prop} {p : Prog W DB K E α}

theorem Confined.weaken (h : p.Confined C P Q) (hC : ∀ db, C' db → C db) (hQ : ∀ a, Q a → Q' a) :
    p.Confined C' P Q' := by
  induction p with
  | ret a => exact hQ a h
  | fail e => trivial
  | stmt s k ih =>
    intro own db eff hdb hs
    obtain ⟨hw, hk⟩ := h own db eff (hC db hdb) hs
    exact ⟨hw, ih eff.result hk⟩

theorem WritesOnly.confined (h : p.WritesOnly P) : p.Confined C P fun _ => True :=
  Confined.weaken h (fun _ _ => trivial) fun _ _ => trivial

end Prog

variable [Storage W DB K] {C : DB → Prop} {P : W → Prop}

theorem view_keeps (hkeeps : ∀ x db, P x → C db → C (apply x db)) {ws : List W} {db : DB}
    (hws : ∀ x ∈ ws, P x) (hdb : C db) : C (view ws db) := by
  induction ws generalizing db with
  | nil => exact hdb
  | cons x ws ih =>
    obtain ⟨hx, hws⟩ := List.forall_mem_cons.mp hws
    exact ih hws (hkeeps x db hx hdb)

namespace System

variable [DecidableEq K] (sys : System W DB K E T R Op)

/-- The invariant holds of what is committed, and the transactions in progress have written
and will write only what keeps it. -/
structure Keeping (C : DB → Prop) (P : W → Prop) (s : State W DB K E T R Op) : Prop where
  db : C s.db
  running : ∀ w op r, s.workers w = .running op r →
    (∀ x ∈ r.own, P x) ∧ r.rest.Confined C P fun _ => True

omit [Storage W DB K] [DecidableEq K] in
theorem rest_of_enter {op op' : Op} {j : Job T R E} {r : Running W DB K E T R}
    (h : sys.enter op j = .running op' r) : r.rest = sys.body r.tx := by
  cases j with
  | done x => cases h
  | tx t next =>
    cases h
    rfl

theorem keeping_moves (hkeeps : ∀ x db, P x → C db → C (apply x db))
    {s s' : State W DB K E T R Op} {act : Action E Op} (h : Keeping C P s)
    (hm : sys.Moves s act s')
    (hbody : ∀ w op r, s'.workers w = .running op r →
      (sys.body r.tx).Confined C P fun _ => True) : Keeping C P s' := by
  -- a transaction that has just begun has written nothing and has its whole body ahead
  have hfresh : ∀ w op j, s'.workers w = sys.enter op j → ∀ r, sys.enter op j = .running op r →
      (∀ x ∈ r.own, P x) ∧ r.rest.Confined C P fun _ => True := by
    intro w op j hw r hr
    refine ⟨by simp [sys.own_of_enter hr], ?_⟩
    rw [sys.rest_of_enter hr]
    exact hbody w op r (hw.trans hr)
  cases hm with
  | stay => exact h
  | start hact hw =>
    exact ⟨h.db, sys.running_setWorker s rfl h.running
      (hfresh _ _ _ (Function.update_self ..))⟩
  | advance hw hr hq hwait hfree =>
    obtain ⟨hown, hrest⟩ := h.running _ _ _ hw
    rw [hr] at hrest
    obtain ⟨hwrites, hk⟩ := hrest _ _ _ (view_keeps hkeeps hown h.db) hq
    exact ⟨h.db, System.running_advance h.running
      ⟨List.forall_mem_append.mpr ⟨hown, hwrites⟩, hk⟩⟩
  | rollback e hw =>
    exact ⟨h.db, sys.running_setWorker (s.release _) rfl h.running
      (hfresh _ _ _ (Function.update_self ..))⟩
  | commit hw hr hact =>
    exact ⟨view_keeps hkeeps (h.running _ _ _ hw).1 h.db,
      sys.running_setWorker (s.release _) rfl h.running
        (hfresh _ _ _ (Function.update_self ..))⟩

theorem keeping_run (hkeeps : ∀ x db, P x → C db → C (apply x db)) {db : DB} (hdb : C db)
    {acts : List (Action E Op)}
    (hops : ∀ w op, .start w op ∈ acts →
      (sys.job op).All fun t => (sys.body t).Confined C P fun _ => True) :
    Keeping C P (sys.run (State.init db) acts) := by
  induction acts using List.reverseRecOn with
  | nil => exact ⟨hdb, fun w op r hw => by cases hw⟩
  | append_singleton acts act ih =>
    have hbefore := ih fun w op hmem => hops w op (List.mem_append_left _ hmem)
    rw [run_snoc]
    refine sys.keeping_moves hkeeps hbefore (sys.step_moves _ act) fun w op r hw => ?_
    rw [← run_snoc] at hw
    have hop : ((sys.run (State.init db) (acts ++ [act])).workers w).op? = some op := by
      rw [hw]
      rfl
    exact (sys.led_run db _ w op r hw).of_all (hops w op (sys.op_run hop))

/-- The committed tables keep an invariant to which every transaction that an operation of the
run may come to is confined. -/
theorem confined_run (hkeeps : ∀ x db, P x → C db → C (apply x db)) {db : DB} (hdb : C db)
    {acts : List (Action E Op)}
    (hops : ∀ w op, .start w op ∈ acts →
      (sys.job op).All fun t => (sys.body t).Confined C P fun _ => True) :
    C (sys.run (State.init db) acts).db :=
  (sys.keeping_run hkeeps hdb hops).db

end System

end Monierave.ReadCommitted
