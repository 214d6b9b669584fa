import Monierave.ReadCommitted.Program

/-! # Programs that have nothing to do with a part of the store

`put x db` is the store with one part of it replaced by `x`.
-/

namespace Monierave.ReadCommitted

variable {W DB K E X α β : Type} [Storage W DB K] {put : X → DB → DB}

def Spares (put : X → DB → DB) (w : W) : Prop := ∀ x db, apply w (put x db) = put x (apply w db)

theorem view_put {ws : List W} (h : ∀ w ∈ ws, Spares put w) (x : X) (db : DB) :
    view ws (put x db) = put x (view ws db) := by
  induction ws generalizing db with
  | nil => rfl
  | cons w ws ih =>
    rw [List.forall_mem_cons] at h
    rw [view_cons, view_cons, h.1, ih h.2]

/-- The statement looks neither at the part nor at the writes of its transaction
so far, and it writes elsewhere. -/
structure Stmt.Blind (put : X → DB → DB) (s : Stmt W DB K E β) : Prop where
  same : ∀ own own' x db, s.exec own' (put x db) = s.exec own db
  spares : ∀ own db eff, s.exec own db = .ok eff → ∀ w ∈ eff.writes, Spares put w

namespace Prog

def Blind (put : X → DB → DB) : Prog W DB K E α → Prop
  | ret _ => True
  | fail _ => True
  | stmt s k => s.Blind put ∧ ∀ b, (k b).Blind put

namespace Blind

theorem bind {p : Prog W DB K E α} {f : α → Prog W DB K E β} (hp : p.Blind put)
    (hf : ∀ a, (f a).Blind put) : (p >>= f).Blind put := by
  induction p with
  | ret a => exact hf a
  | fail e => trivial
  | stmt s k ih => exact ⟨hp.1, fun b => ih b (hp.2 b)⟩

theorem call {s : Stmt W DB K E α} (h : s.Blind put) : (Prog.call s).Blind put :=
  ⟨h, fun _ => trivial⟩

theorem found {e : E} {o : Option α} : (Prog.found e o : Prog W DB K E α).Blind put := by
  cases o <;> trivial

theorem fetch {e : E} {s : Stmt W DB K E (Option α)} (h : s.Blind put) :
    (Prog.fetch e s).Blind put := ⟨h, fun _ => found⟩

theorem refuse {c : Prop} [Decidable c] {e : E} :
    (Prog.refuse c e : Prog W DB K E Unit).Blind put := by
  unfold Prog.refuse
  split <;> trivial

theorem ofExcept {x : Except E α} : (Prog.ofExcept x : Prog W DB K E α).Blind put := by
  cases x <;> trivial

theorem run_spares {p : Prog W DB K E α} (h : p.Blind put) {own : List W} {db : DB}
    {d : Effect W K α} (hrun : p.run own db = .ok d) : ∀ w ∈ d.writes, Spares put w := by
  induction p generalizing own db d with
  | ret a =>
    cases hrun
    simp
  | fail e => cases hrun
  | stmt s k ih =>
    obtain ⟨eff, rest, hs, hk, rfl⟩ := run_stmt_ok.mp hrun
    intro w hw
    rcases List.mem_append.mp hw with hw | hw
    · exact h.1.spares own db eff hs w hw
    · exact ih eff.result (h.2 _) hk w hw

theorem run_put {p : Prog W DB K E α} (h : p.Blind put) (own own' : List W) (x : X) (db : DB) :
    p.run own' (put x db) = p.run own db := by
  induction p generalizing own own' db with
  | ret a => rfl
  | fail e => rfl
  | stmt s k ih =>
    simp only [run, h.1.same own own' x db]
    cases hs : s.exec own db with
    | error e => rfl
    | ok eff =>
      dsimp only
      rw [view_put (h.1.spares own db eff hs), ih eff.result (h.2 _) (own ++ eff.writes)]

end Blind

end Prog

end Monierave.ReadCommitted
