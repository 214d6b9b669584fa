import Monierave.ReadCommitted.Discipline
import Monierave.ReadCommitted.Machine

/-! # Commit-order serializability

Read committed does not serialize transactions by itself.
-/

namespace Monierave.ReadCommitted

variable {W DB K E T R Op β : Type} [Storage W DB K]

open Prog

/-- What has to be shown about the transactions of a system. `inv` holds of
every committed state; `base t` are the programs that may stand for transaction
`t`, their changing runs being runs of `t`. A transaction that makes only `free`
writes needs none. -/
structure Discipline (sys : System W DB K E T R Op) extends Reliance W DB K where
  inv : DB → Prop
  inv_wf : ∀ {db}, inv db → wf db
  free : T → W → Prop
  free_commit : ∀ {t ws db}, (∀ w ∈ ws, free t w) → inv db →
    inv (view ws db) ∧
      ∀ H : K → Prop, (∀ w ∈ ws, ∀ k ∈ Storage.keys w, ¬ H k) → stable H db (view ws db)
  base : T → Prog W DB K E R → Prop
  base_body : ∀ t, base t (sys.body t) ∨
    (sys.body t).Confined (fun _ => True) (free t) fun _ => True
  base_run : ∀ {t p db d}, base t p → p.run [] db = .ok d → d.writes ≠ [] →
    (sys.body t).run [] db = .ok d
  robust : ∀ {t p}, base t p → Robust toReliance (base t) p (Point.start toReliance)
  commit : ∀ {t p db d}, base t p → inv db → (sys.body t).run [] db = .ok d → d.writes ≠ [] →
    inv (view d.writes db) ∧
      ∀ H : K → Prop, (∀ k ∈ d.locks, ¬ H k) → stable H db (view d.writes db)

namespace Discipline

variable {sys : System W DB K E T R Op} (D : Discipline sys)

/-- Where a transaction is: harmless, or at a point that some program standing
for it reaches on the tables as they are now, or among those that make free
writes only. -/
def Placed (t : T) (db : DB) (q : Prog W DB K E R) (own : List W) (held : List K) : Prop :=
  Harmless q own ∨ (∃ p, D.base t p ∧ Reaches p db q own held) ∨
    ((∀ w ∈ own, D.free t w) ∧ q.Confined (fun _ => True) (D.free t) fun _ => True)

def Abreast (t : T) (H : K → Prop) (db db' : DB) (q : Prog W DB K E R) (own : List W)
    (held : List K) : Prop :=
  ∃ p, D.base t p ∧ Reaches p db q own held ∧ Reaches p db' q own held ∧
    D.stable H (view own db) (view own db')

variable {t : T} {H : K → Prop} {db db' : DB} {own : List W} {q : Prog W DB K E R}

theorem abreast_step {β : Type} {s : Stmt W DB K E β} {k : β → Prog W DB K E R} {held : List K}
    {eff : Effect W K β} (hwf : D.wf db) (hwf' : D.wf db') (hst : D.stable H db db')
    (h : D.Abreast t H db db' (stmt s k) own held) (hs : s.exec own (view own db) = .ok eff)
    (hH : ∀ j ∈ held ++ eff.claims, H j) :
    Harmless (k eff.result) (own ++ eff.writes) ∨
      D.Abreast t H db db' (k eff.result) (own ++ eff.writes) (held ++ eff.claims) := by
  obtain ⟨p, hp, hr, hr', hview⟩ := h
  obtain ⟨hown, F, hF, hknown, hrob⟩ := (D.robust hp).of_reaches hwf hr
  obtain ⟨hown', F', hF', hknown', hrob'⟩ := (D.robust hp).of_reaches hwf' hr'
  have hwfv := Reliance.wf_view hwf hown
  have hwfv' := Reliance.wf_view hwf' hown'
  obtain ⟨hvalid, _, hcase⟩ := hrob _ eff hwfv hknown hs
  rcases hcase with hfail | ⟨hnil, hw, hsil⟩ | ⟨hnil, hnil', hw, hc, hbase⟩ | hrep
  · exact Or.inl (Or.inl hfail)
  · exact Or.inl (Or.inr ⟨by simp only [hw, List.append_nil]; exact hnil, hsil⟩)
  · simp only at hnil hnil'
    subst hnil hnil'
    rw [hw, hc]
    exact Or.inr ⟨_, hbase, .start, .start, hst⟩
  · have hkeys : ∀ w ∈ own, ∀ j ∈ Storage.keys w, H j := fun w hw j hj =>
      hH j (List.mem_append_left _ (hr.keys w hw j hj))
    obtain ⟨eff', hs', hk, hw, hc⟩ := hrep H _ hH hkeys hwfv' hview
    have hvalid' := (hrob' _ eff' hwfv' hknown' hs').1
    rw [hw] at hvalid'
    have hnext := hr'.step hs'
    rw [hk, hw, hc] at hnext
    refine Or.inr ⟨p, hp, hr.step hs, hnext, ?_⟩
    rw [view_append, view_append]
    refine Reliance.stable_view ?_ hwfv hwfv' hvalid hvalid' hview
    intro w hw j hj
    refine hH j (List.mem_append_right _ ?_)
    simp only [Effect.claims, List.mem_append, List.mem_flatMap]
    exact Or.inr ⟨w, hw, hj⟩

/-- A change that keeps clear of the keys a program holds does not move it: a
program that stands for the same transaction would have come to the same point
on the new tables. -/
theorem reaches_stable {p : Prog W DB K E R} {held : List K} (hp : D.base t p)
    (h : Reaches p db q own held) (hH : ∀ k ∈ held, H k) (hwf : D.wf db) (hwf' : D.wf db')
    (hst : D.stable H db db') : Harmless q own ∨ ∃ p, D.base t p ∧ Reaches p db' q own held := by
  have hmain : Harmless q own ∨ D.Abreast t H db db' q own held := by
    induction h with
    | start => exact Or.inr ⟨p, hp, .start, .start, hst⟩
    | step h hs ih =>
      rcases ih (fun j hj => hH j (List.mem_append_left _ hj)) with hharm | habr
      · exact Or.inl (hharm.step hs)
      · exact D.abreast_step hwf hwf' hst habr hs hH
  rcases hmain with hharm | ⟨p', hp', _, hr', _⟩
  · exact Or.inl hharm
  · exact Or.inr ⟨p', hp', hr'⟩

theorem placed_stable {held : List K} (h : D.Placed t db q own held) (hH : ∀ k ∈ held, H k)
    (hwf : D.wf db) (hwf' : D.wf db') (hst : D.stable H db db') : D.Placed t db' q own held := by
  rcases h with h | ⟨p, hp, h⟩ | h
  · exact Or.inl h
  · exact (D.reaches_stable hp h hH hwf hwf' hst).imp_right Or.inl
  · exact Or.inr (Or.inr h)

theorem run_stable {d : Effect W K R} (hbase : D.base t (sys.body t)) (hwf : D.wf db)
    (hwf' : D.wf db') (hst : D.stable (fun _ => True) db db')
    (hrun : (sys.body t).run [] db = .ok d) (hw : d.writes ≠ []) :
    (sys.body t).run [] db' = .ok d := by
  have hreach : Reaches (sys.body t) db (ret d.result) d.writes d.locks := Reaches.of_run hrun
  rcases D.reaches_stable hbase hreach (fun _ _ => trivial) hwf hwf' hst with
    (⟨e, he⟩ | ⟨hnil, _⟩) | ⟨p, hp, hreach⟩
  · cases he
  · exact absurd hnil hw
  · exact D.base_run hp hreach.run_eq hw

/-- Committed transactions executed one after another, each to its end, except
for those that only make free writes. -/
inductive Serial (db : DB) : List (T × R) → DB → Prop
  | nil : Serial db [] db
  | snoc {log : List (T × R)} {mid : DB} {t : T} {d : Effect W K R} (h : Serial db log mid)
      (hrun : (sys.body t).run [] mid = .ok d) (hw : d.writes ≠ []) :
      Serial db (log ++ [(t, d.result)]) (view d.writes mid)
  | free {log : List (T × R)} {mid : DB} {t : T} {a : R} {ws : List W} (h : Serial db log mid)
      (hfree : ∀ w ∈ ws, D.free t w) (hw : ws ≠ []) : Serial db (log ++ [(t, a)]) (view ws mid)

section Invariant

variable (db₀ : DB)

structure Ordered (s : State W DB K E T R Op) : Prop where
  exclusive : s.Exclusive
  owns : s.Owns
  inv : D.inv s.db
  serial : D.Serial db₀ s.log s.db
  placed : ∀ w op r, s.workers w = .running op r → D.Placed r.tx s.db r.rest r.own r.held

variable {op : Op} {r : Running W DB K E T R} {s : State W DB K E T R Op} {w : Nat} {a : R}

theorem ordered_init (h0 : D.inv db₀) : D.Ordered db₀ (State.init db₀) where
  exclusive := System.exclusive_init db₀
  owns := System.owns_init db₀
  inv := h0
  serial := .nil
  placed := by
    intro w op r hw
    cases hw

theorem placed_body (t : T) (db : DB) : D.Placed t db (sys.body t) [] [] := by
  rcases D.base_body t with hbase | hfree
  · exact Or.inr (Or.inl ⟨_, hbase, .start⟩)
  · exact Or.inr (Or.inr ⟨by simp, hfree⟩)

theorem placed_enter {op' : Op} {j : Job T R E} {db : DB} (h : sys.enter op j = .running op' r) :
    D.Placed r.tx db r.rest r.own r.held := by
  cases j with
  | done x => cases h
  | tx t next =>
    cases h
    exact D.placed_body t db

/-- A commit that changes a table is an uninterrupted run of its transaction on
the tables as they were just before, or makes free writes only. -/
theorem Ordered.commit_cases (h : D.Ordered db₀ s) (hw : s.workers w = .running op r)
    (hr : r.rest = .ret a) (hown : r.own ≠ []) :
    (∃ p, D.base r.tx p ∧ (sys.body r.tx).run [] s.db = .ok ⟨a, r.own, r.held⟩) ∨
      ∀ x ∈ r.own, D.free r.tx x := by
  have hpl := h.placed w op r hw
  rw [hr] at hpl
  rcases hpl with (⟨e, he⟩ | ⟨hnil, _⟩) | ⟨p, hp, hreach⟩ | ⟨hfree, _⟩
  · cases he
  · exact absurd hnil hown
  · exact Or.inl ⟨p, hp, D.base_run hp hreach.run_eq hown⟩
  · exact Or.inr hfree

theorem placed_advance {t : T} {β : Type} {q : Stmt W DB K E β} {k : β → Prog W DB K E R}
    {own : List W} {held : List K} {eff : Effect W K β} (h : D.Placed t s.db (.stmt q k) own held)
    (hq : q.exec own (view own s.db) = .ok eff) :
    D.Placed t s.db (k eff.result) (own ++ eff.writes) (held ++ eff.claims) := by
  rcases h with hharm | ⟨p, hp, hreach⟩ | ⟨hfree, hconf⟩
  · exact Or.inl (hharm.step hq)
  · exact Or.inr (Or.inl ⟨p, hp, hreach.step hq⟩)
  · obtain ⟨hw, hk⟩ := hconf own _ eff trivial hq
    refine Or.inr (Or.inr ⟨?_, hk⟩)
    intro x hx
    exact (List.mem_append.mp hx).elim (hfree x) (hw x)

theorem Ordered.commit_inv (h : D.Ordered db₀ s) (hw : s.workers w = .running op r)
    (hr : r.rest = .ret a) (hown : r.own ≠ []) :
    D.inv (view r.own s.db) ∧
      ∀ H : K → Prop, (∀ k ∈ r.held, ¬ H k) → D.stable H s.db (view r.own s.db) := by
  rcases h.commit_cases D db₀ hw hr hown with ⟨p, hp, hrun⟩ | hfree
  · exact D.commit hp h.inv hrun hown
  · obtain ⟨hinv, hst⟩ := D.free_commit hfree h.inv
    refine ⟨hinv, fun H hH => hst H fun x hx k hk => hH k ?_⟩
    exact h.owns w op r hw x hx k hk

variable [DecidableEq K]

theorem ordered_moves {s' : State W DB K E T R Op} {act : Action E Op} (h : D.Ordered db₀ s)
    (hm : sys.Moves s act s') : D.Ordered db₀ s' := by
  have hex := sys.exclusive_moves h.exclusive hm
  have howns := sys.owns_moves h.owns hm
  cases hm with
  | stay => exact h
  | start hact hw =>
    exact ⟨hex, howns, h.inv, h.serial,
      sys.running_setWorker s rfl h.placed fun r hr => D.placed_enter hr⟩
  | advance hw hr hq hwait hfree =>
    have hpl := h.placed _ _ _ hw
    rw [hr] at hpl
    exact ⟨hex, howns, h.inv, h.serial,
      System.running_advance h.placed (D.placed_advance hpl hq)⟩
  | rollback e hw =>
    refine ⟨hex, howns, h.inv, h.serial, ?_⟩
    exact sys.running_setWorker (s.release _) rfl h.placed fun r hr => D.placed_enter hr
  | commit hw hr hact =>
    rename_i w op r a
    by_cases hown : r.own = []
    · have hdb : (sys.publish s w op r a).db = s.db := by simp [System.publish, hown]
      refine ⟨hex, howns, ?_, ?_, ?_⟩
      · rw [hdb]
        exact h.inv
      · simpa [System.publish, hown] using h.serial
      · rw [hdb]
        exact sys.running_setWorker (s.release w) rfl h.placed
          fun r hr => D.placed_enter hr
    · obtain ⟨hinv, hst⟩ := h.commit_inv D db₀ hw hr hown
      refine ⟨hex, howns, hinv, ?_, ?_⟩
      · have hne : r.own.isEmpty = false := by simpa using hown
        have hser : D.Serial db₀ (s.log ++ [(r.tx, a)]) (view r.own s.db) := by
          rcases h.commit_cases D db₀ hw hr hown with ⟨_, _, hrun⟩ | hfree
          · exact h.serial.snoc hrun hown
          · exact h.serial.free hfree hown
        simpa [System.publish, hne] using hser
      · intro v op' r' hv
        by_cases hvw : v = w
        · subst hvw
          simp only [System.publish, State.setWorker, Function.update_self] at hv
          exact D.placed_enter hv
        · simp only [System.publish, State.setWorker, State.release,
            Function.update_of_ne hvw] at hv
          have hdis := h.exclusive.disjoint hv hw hvw
          exact D.placed_stable (h.placed v op' r' hv) (fun j hj => hj) (D.inv_wf h.inv)
            (D.inv_wf hinv) (hst (· ∈ r'.held) fun j hj hj' => hdis j hj' hj)

theorem ordered_run (h0 : D.inv db₀) (acts : List (Action E Op)) :
    D.Ordered db₀ (sys.run (State.init db₀) acts) :=
  sys.run_induction (D.ordered_init db₀ h0) (fun _ _ _ => D.ordered_moves db₀) acts

theorem serial_run (h0 : D.inv db₀) (acts : List (Action E Op)) :
    D.Serial db₀ (sys.run (State.init db₀) acts).log (sys.run (State.init db₀) acts).db :=
  (D.ordered_run db₀ h0 acts).serial

/-- One action either leaves the tables alone, or is the uninterrupted run of one
transaction of some operation on them, or makes free writes. -/
theorem step_run (h0 : D.inv db₀) (acts : List (Action E Op)) (act : Action E Op) :
    let s := sys.run (State.init db₀) acts
    (sys.step s act).db = s.db ∨
      (∃ op t next d, (sys.job op).Leads t next ∧ (sys.body t).run [] s.db = .ok d ∧
        (sys.step s act).db = view d.writes s.db) ∨
      ∃ t ws, (∀ w ∈ ws, D.free t w) ∧ ws ≠ [] ∧ (sys.step s act).db = view ws s.db := by
  intro s
  have hord : D.Ordered db₀ s := D.ordered_run db₀ h0 acts
  have hm := sys.step_moves s act
  generalize sys.step s act = s' at hm
  cases hm with
  | stay => exact Or.inl rfl
  | start hact hw => exact Or.inl rfl
  | advance hw hr hq hwait hfree => exact Or.inl rfl
  | rollback e hw => exact Or.inl rfl
  | commit hw hr hact =>
    rename_i w op r a
    by_cases hown : r.own = []
    · left
      simp [System.publish, hown]
    · rcases hord.commit_cases D db₀ hw hr hown with ⟨_, _, hrun⟩ | hfree
      · exact Or.inr (Or.inl ⟨op, r.tx, r.next, _, sys.led_run db₀ acts w op r hw, hrun, rfl⟩)
      · exact Or.inr (Or.inr ⟨r.tx, r.own, hfree, hown, rfl⟩)

end Invariant

end Discipline

end Monierave.ReadCommitted
