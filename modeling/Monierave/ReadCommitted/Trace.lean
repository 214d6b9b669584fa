import Monierave.ReadCommitted.Machine

/-! # Where the answers of a transaction come from

A transaction that reads without a lock may find out later that the tables have
changed.
-/

namespace Monierave.ReadCommitted

variable {W DB K E T R Op α β : Type} [Storage W DB K]

namespace Prog

/-- Whatever tables the statements of the program are evaluated on, not always the same
ones, wherever it returns `Q` holds of its answer and of what it has written. -/
def Through : Prog W DB K E α → List W → (α → List W → Prop) → Prop
  | ret a, own, Q => Q a own
  | fail _, _, _ => True
  | stmt s k, own, Q => ∀ db eff, s.exec own (view own db) = .ok eff →
      Through (k eff.result) (own ++ eff.writes) Q

namespace Through

variable {own : List W}

variable {Q : α → List W → Prop} {p : Prog W DB K E α}

@[simp] theorem ret_iff {a : α} :
    Through (ret a : Prog W DB K E α) own Q ↔ Q a own := Iff.rfl

theorem bind {g : α → Prog W DB K E β} {Q : β → List W → Prop}
    (h : Through p own fun a own' => Through (g a) own' Q) : Through (p >>= g) own Q := by
  induction p generalizing own with
  | ret a => exact h
  | fail e => trivial
  | stmt s k ih => exact fun db eff hs => ih eff.result (h db eff hs)

theorem mono {Q' : α → List W → Prop} (h : Through p own Q)
    (hQ : ∀ a own', Q a own' → Q' a own') : Through p own Q' := by
  induction p generalizing own with
  | ret a => exact hQ a own h
  | fail e => trivial
  | stmt s k ih => exact fun db eff hs => ih eff.result (h db eff hs)

theorem call {s : Stmt W DB K E α} (h : ∀ db eff, s.exec own (view own db) = .ok eff →
      Q eff.result (own ++ eff.writes)) : Through (call s) own Q := h

theorem fetch {e : E} {s : Stmt W DB K E (Option α)}
    (h : ∀ db eff a, s.exec own (view own db) = .ok eff → eff.result = some a →
      Q a (own ++ eff.writes)) : Through (fetch e s) own Q := by
  intro db eff hs
  cases hr : eff.result with
  | none => trivial
  | some a => exact h db eff a hs hr

end Through

/-- What is left of a program and what it has written, after some of its statements
have been evaluated. -/
inductive ComesTo (p : Prog W DB K E α) : Prog W DB K E α → List W → Prop
  | start : ComesTo p p []
  | step {β : Type} {s : Stmt W DB K E β} {k : β → Prog W DB K E α} {own : List W} {db : DB}
      {eff : Effect W K β} (h : ComesTo p (stmt s k) own)
      (hs : s.exec own (view own db) = .ok eff) : ComesTo p (k eff.result) (own ++ eff.writes)

variable {p q : Prog W DB K E α} {own : List W}

theorem ComesTo.through {Q : α → List W → Prop} (h : ComesTo p q own)
    (hp : Through p [] Q) : Through q own Q := by
  induction h with
  | start => exact hp
  | step _ hs ih => exact ih _ _ hs

theorem WritesOnly.through {A : W → Prop} (hp : p.WritesOnly A) :
    Through p own fun _ own' => ∃ ws, own' = own ++ ws ∧ ∀ w ∈ ws, A w := by
  induction p generalizing own with
  | ret a => exact ⟨[], by simp, by simp⟩
  | fail e => trivial
  | stmt s k ih =>
    intro db eff hs
    obtain ⟨hw, hk⟩ := hp own _ eff trivial hs
    refine (ih eff.result hk).mono ?_
    rintro a _ ⟨ws, rfl, hws⟩
    exact ⟨eff.writes ++ ws, by simp, fun w hmem => (List.mem_append.mp hmem).elim (hw w) (hws w)⟩

theorem ComesTo.writes {A : W → Prop} (h : ComesTo p q own) (hp : p.WritesOnly A) :
    (∀ w ∈ own, A w) ∧ q.WritesOnly A := by
  induction h with
  | start => exact ⟨by simp, hp⟩
  | step _ hs ih =>
    obtain ⟨hw, hk⟩ := ih.2 _ _ _ trivial hs
    exact ⟨fun w hmem => (List.mem_append.mp hmem).elim (ih.1 w) (hw w), hk⟩

end Prog

def Worker.ready : Worker W DB K E T R Op → Option (T × R)
  | .running _ r =>
    match r.rest with
    | .ret a => some (r.tx, a)
    | _ => none
  | _ => none

omit [Storage W DB K] in
theorem Worker.ready_iff {x : Worker W DB K E T R Op} {t : T} {a : R} :
    x.ready = some (t, a) ↔ ∃ op r, x = .running op r ∧ r.rest = .ret a ∧ r.tx = t := by
  constructor
  · intro h
    cases x with
    | idle => cases h
    | finished op result => cases h
    | running op r =>
      unfold ready at h
      cases hr : r.rest with
      | ret b =>
        simp only [hr, Option.some.injEq, Prod.mk.injEq] at h
        exact ⟨op, r, rfl, by rw [hr, h.2], h.1⟩
      | fail e => simp [hr] at h
      | stmt s k => simp [hr] at h
  · rintro ⟨op, r, rfl, hr, rfl⟩
    simp [ready, hr]

variable [DecidableEq K] (sys : System W DB K E T R Op)

namespace System

variable {sys} {s s' : State W DB K E T R Op} {act : Action E Op}

omit [DecidableEq K] in
theorem comesTo_enter {op op' : Op} {j : Job T R E} {r : Running W DB K E T R}
    (h : sys.enter op j = .running op' r) : Prog.ComesTo (sys.body r.tx) r.rest r.own := by
  cases j with
  | done x => cases h
  | tx t next =>
    cases h
    exact .start

theorem comesTo_moves
    (h : ∀ w op r, s.workers w = .running op r → Prog.ComesTo (sys.body r.tx) r.rest r.own)
    (hm : sys.Moves s act s') :
    ∀ w op r, s'.workers w = .running op r → Prog.ComesTo (sys.body r.tx) r.rest r.own := by
  cases hm with
  | stay => exact h
  | start hact hw => exact sys.running_setWorker s rfl h fun r hr => comesTo_enter hr
  | advance hw hr hq hwait hfree =>
    have hcomes := h _ _ _ hw
    rw [hr] at hcomes
    exact System.running_advance h (hcomes.step hq)
  | rollback e hw =>
    exact sys.running_setWorker (s.release _) rfl h fun r hr => comesTo_enter hr
  | commit hw hr hact =>
    rename_i w op r a
    exact sys.running_setWorker { s.release w with db := view r.own s.db, log := _ } rfl h
      fun r hr => comesTo_enter hr

theorem comesTo_run (db₀ : DB) (acts : List (Action E Op)) : ∀ w op r,
    (sys.run (State.init db₀) acts).workers w = .running op r →
      Prog.ComesTo (sys.body r.tx) r.rest r.own :=
  sys.run_induction (fun w op r hw => by cases hw) (fun _ _ _ => comesTo_moves) acts

/-- Worker `w` is in the last transaction of its operation and has come to where it is
from `p`, or its operation has ended. -/
def Continues (p : Prog W DB K E R) (w : Nat) (s : State W DB K E T R Op) : Prop :=
  (∃ op r, s.workers w = .running op r ∧ (∀ x, ∃ y, r.next x = .done y) ∧
    p.ComesTo r.rest r.own) ∨ ∃ op x, s.workers w = .finished op x

theorem continues_moves {p : Prog W DB K E R} {w : Nat} (h : Continues p w s)
    (hm : sys.Moves s act s') : Continues p w s' := by
  have hother : ∀ {s₁ : State W DB K E T R Op}, s₁.workers w = s.workers w → Continues p w s₁ := by
    intro s₁ hsame
    unfold Continues
    rwa [hsame]
  have hends : ∀ {v op r x}, s.workers v = .running op r →
      ∀ s₁ : State W DB K E T R Op,
        s₁.workers = Function.update s.workers v (sys.enter op (r.next x)) → Continues p w s₁ := by
    intro v op r x hv s₁ hs₁
    by_cases hne : w = v
    · subst hne
      rcases h with ⟨op', r', hw, hlast, _⟩ | ⟨op', y, hw⟩
      · cases hv.symm.trans hw
        obtain ⟨y, hy⟩ := hlast x
        exact Or.inr ⟨op, y, by rw [hs₁, Function.update_self, hy, enter]⟩
      · cases hv.symm.trans hw
    · exact hother (by rw [hs₁, Function.update_of_ne hne])
  cases hm with
  | stay => exact h
  | start hact hv =>
    refine hother (Function.update_of_ne ?_ _ _)
    rintro rfl
    rcases h with ⟨op, r, hw, _⟩ | ⟨op, x, hw⟩ <;> cases hv.symm.trans hw
  | advance hv hr hq hwait hfree =>
    rename_i v op r q k eff
    by_cases hne : w = v
    · subst hne
      rcases h with ⟨op', r', hw, hlast, hcomes⟩ | ⟨op', y, hw⟩
      · cases hv.symm.trans hw
        rw [hr] at hcomes
        exact Or.inl ⟨_, _, Function.update_self .., hlast, hcomes.step hq⟩
      · cases hv.symm.trans hw
    · exact hother (Function.update_of_ne hne _ _)
  | rollback e hv => exact hends hv _ rfl
  | commit hv hr hact => exact hends hv _ rfl

end System

end Monierave.ReadCommitted
