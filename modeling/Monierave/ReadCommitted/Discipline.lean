import Monierave.ReadCommitted.Program

/-! # A locking discipline for read-committed transactions

Read committed gives each statement the rows committed at that moment.
-/

namespace Monierave.ReadCommitted

variable {W DB K E R α β γ : Type} [Storage W DB K]

/-- What a transaction may rely on. `wf` holds of every view and is kept by the
writes that are `valid` where they are made. `stable H db db'` says that `db'`
agrees with `db` as far as somebody who holds the keys `H` can rely on. -/
structure Reliance (W DB K : Type) [Storage W DB K] where
  wf : DB → Prop
  valid : W → DB → Prop
  stable : (K → Prop) → DB → DB → Prop
  wf_apply : ∀ {w db}, wf db → valid w db → wf (apply w db)
  stable_apply : ∀ {H : K → Prop} {w db db'}, (∀ k ∈ Storage.keys w, H k) → wf db → wf db' →
    valid w db → valid w db' → stable H db db' → stable H (apply w db) (apply w db')

namespace Reliance

variable (G : Reliance W DB K)

def ValidAll : List W → DB → Prop
  | [], _ => True
  | w :: ws, db => G.valid w db ∧ ValidAll ws (apply w db)

def Lasting (F : DB → Prop) : Prop :=
  ∀ {w db}, G.wf db → G.valid w db → F db → F (apply w db)

variable {G}

variable {ws : List W} {db : DB}

theorem validAll_append {ws' : List W} (h : G.ValidAll ws db) (h' : G.ValidAll ws' (view ws db)) :
    G.ValidAll (ws ++ ws') db := by
  induction ws generalizing db with
  | nil => exact h'
  | cons w ws ih => exact ⟨h.1, ih h.2 h'⟩

theorem wf_view (hwf : G.wf db) (h : G.ValidAll ws db) : G.wf (view ws db) := by
  induction ws generalizing db with
  | nil => exact hwf
  | cons w ws ih => exact ih (G.wf_apply hwf h.1) h.2

theorem Lasting.view {F : DB → Prop} (hF : G.Lasting F) (hwf : G.wf db) (h : G.ValidAll ws db)
    (hdb : F db) : F (view ws db) := by
  induction ws generalizing db with
  | nil => exact hdb
  | cons w ws ih => exact ih (G.wf_apply hwf h.1) h.2 (hF hwf h.1 hdb)

theorem stable_view {H : K → Prop} {db' : DB} (hk : ∀ w ∈ ws, ∀ k ∈ Storage.keys w, H k)
    (hwf : G.wf db) (hwf' : G.wf db') (hv : G.ValidAll ws db) (hv' : G.ValidAll ws db')
    (h : G.stable H db db') :
    G.stable H (ReadCommitted.view ws db) (ReadCommitted.view ws db') := by
  induction ws generalizing db db' with
  | nil => exact h
  | cons w ws ih =>
    exact ih (fun w' hw' => hk w' (List.mem_cons_of_mem w hw')) (G.wf_apply hwf hv.1)
      (G.wf_apply hwf' hv'.1) hv.2 hv'.2
      (G.stable_apply (hk w List.mem_cons_self) hwf hwf' hv.1 hv'.1 h)

end Reliance

/-- Where a transaction is: its writes so far, the keys it holds, and what it has
learnt about its view that lasts. -/
structure Point (G : Reliance W DB K) where
  own : List W
  held : List K
  known : DB → Prop
  lasting : G.Lasting known

namespace Point

variable {G : Reliance W DB K}

def start (G : Reliance W DB K) : Point G := ⟨[], [], fun _ => True, fun _ _ h => h⟩

def next (pt : Point G) (eff : Effect W K β) : Point G :=
  ⟨pt.own ++ eff.writes, pt.held ++ eff.claims, pt.known, pt.lasting⟩

@[simp] theorem start_held : (start G).held = [] := rfl
@[simp] theorem next_held (pt : Point G) (eff : Effect W K β) :
    (pt.next eff).held = pt.held ++ eff.claims := rfl

structure Grows (pt pt' : Point G) : Prop where
  held : ∀ k ∈ pt.held, k ∈ pt'.held
  known : ∀ db, pt'.known db → pt.known db

theorem Grows.refl (pt : Point G) : pt.Grows pt := ⟨fun _ h => h, fun _ h => h⟩

theorem Grows.trans {pt pt' pt'' : Point G} (h : pt.Grows pt') (h' : pt'.Grows pt'') :
    pt.Grows pt'' :=
  ⟨fun k hk => h'.held k (h.held k hk), fun db hdb => h.known db (h'.known db hdb)⟩

theorem grows_next (pt : Point G) (eff : Effect W K β) : pt.Grows (pt.next eff) :=
  ⟨fun _ hk => List.mem_append_left _ hk, fun _ h => h⟩

end Point

namespace Prog

def SameMove (k : β → Prog W DB K E α) (eff eff' : Effect W K β) : Prop :=
  k eff'.result = k eff.result ∧ eff'.writes = eff.writes ∧ eff'.claims = eff.claims

/-- The statement has the same effect on every view that is stable for the keys
its transaction holds once it is done. -/
def Repeats (G : Reliance W DB K) (s : Stmt W DB K E β) (k : β → Prog W DB K E α)
    (own : List W) (held : List K) (db : DB) (eff : Effect W K β) : Prop :=
  ∀ (H : K → Prop) (db' : DB), (∀ j ∈ held ++ eff.claims, H j) →
    (∀ w ∈ own, ∀ j ∈ Storage.keys w, H j) → G.wf db' → G.stable H db db' →
      ∃ eff', s.exec own db' = .ok eff' ∧ SameMove k eff eff'

/-- The locking discipline, statement by statement. After each statement one of
four things must be known: the program is about to fail; it has written nothing
and never will; it holds nothing, and what is left of it may stand for the whole
(`base`); or the statement repeats. -/
def Robust (G : Reliance W DB K) (base : Prog W DB K E R → Prop) :
    Prog W DB K E R → Point G → Prop
  | ret _, _ => True
  | fail _, _ => True
  | stmt s k, pt => ∀ db eff, G.wf db → pt.known db → s.exec pt.own db = .ok eff →
      G.ValidAll eff.writes db ∧
      (∃ F, ∃ hF : G.Lasting F, F db ∧ Robust G base (k eff.result)
        ⟨pt.own ++ eff.writes, pt.held ++ eff.claims, F, hF⟩) ∧
      ((∃ e, k eff.result = fail e) ∨
        (pt.own = [] ∧ eff.writes = [] ∧ (k eff.result).Silent) ∨
        (pt.own = [] ∧ pt.held = [] ∧ eff.writes = [] ∧ eff.claims = [] ∧
          base (k eff.result)) ∨
        Repeats G s k pt.own pt.held db eff)

def Harmless (p : Prog W DB K E R) (own : List W) : Prop :=
  (∃ e, p = fail e) ∨ (own = [] ∧ p.Silent)

omit [Storage W DB K] in
theorem Harmless.step {s : Stmt W DB K E β} {k : β → Prog W DB K E R} {own : List W}
    {db : DB} {eff : Effect W K β} (h : Harmless (stmt s k) own)
    (hs : s.exec own db = .ok eff) : Harmless (k eff.result) (own ++ eff.writes) := by
  rcases h with ⟨e, he⟩ | ⟨hown, hsil⟩
  · cases he
  · obtain ⟨hw, hk⟩ := hsil.step hs
    exact Or.inr ⟨by rw [hown, hw]; rfl, hk⟩

section Robust

variable {G : Reliance W DB K} {base : Prog W DB K E R → Prop} {p q : Prog W DB K E R} {db : DB}
  {own : List W} {held : List K}

variable {e : E}

theorem Robust.of_reaches (hp : Robust G base p (Point.start G)) (hwf : G.wf db)
    (h : Reaches p db q own held) :
    G.ValidAll own db ∧ ∃ F, ∃ hF : G.Lasting F, F (view own db) ∧
      Robust G base q ⟨own, held, F, hF⟩ := by
  induction h with
  | start => exact ⟨trivial, fun _ => True, fun _ _ h => h, trivial, hp⟩
  | step h hs ih =>
    obtain ⟨hown, F, hF, hview, hrob⟩ := ih
    have hwfv := Reliance.wf_view hwf hown
    obtain ⟨hvalid, ⟨F', hF', hdb, hk⟩, _⟩ := hrob _ _ hwfv hview hs
    refine ⟨Reliance.validAll_append hown hvalid, F', hF', ?_, hk⟩
    rw [view_append]
    exact hF'.view hwfv hvalid hdb

theorem Robust.validAll_of_run (hp : Robust G base p (Point.start G)) (hwf : G.wf db)
    {d : Effect W K R} (hrun : p.run [] db = .ok d) : G.ValidAll d.writes db :=
  (hp.of_reaches hwf (Reaches.of_run hrun)).1

theorem Robust.of_silent {pt : Point G} (h : p.Silent) (hown : pt.own = []) :
    Robust G base p pt := by
  induction p generalizing pt with
  | ret a => trivial
  | fail e => trivial
  | stmt s k ih =>
    intro db eff hwf hknown hs
    obtain ⟨hw, hk⟩ := h.step hs
    refine ⟨by rw [hw]; trivial, ⟨pt.known, pt.lasting, hknown, ?_⟩,
      Or.inr (Or.inl ⟨hown, hw, hk⟩)⟩
    exact ih eff.result hk (by simp [hown, hw])

end Robust

/-! ## Parts of programs

`Guarded p pt Q`: started at the point `pt`, the program `p` repeats each of its
statements or fails after it, and wherever it returns `Q` holds of its answer
and of the point it has come to. -/

def Guarded {G : Reliance W DB K} :
    Prog W DB K E α → Point G → (α → Point G → Prop) → Prop
  | ret a, pt, Q => Q a pt
  | fail _, _, _ => True
  | stmt s k, pt, Q => ∀ db eff, G.wf db → pt.known db → s.exec pt.own db = .ok eff →
      G.ValidAll eff.writes db ∧
      (∃ F, ∃ hF : G.Lasting F, F db ∧ Guarded (k eff.result)
        ⟨pt.own ++ eff.writes, pt.held ++ eff.claims, F, hF⟩ Q) ∧
      ((∃ e, k eff.result = fail e) ∨ Repeats G s k pt.own pt.held db eff)

section Guarded

variable {G : Reliance W DB K} {pt : Point G}

variable {own : List W} {db : DB} {f : α → Prog W DB K E β} {Q : α → Point G → Prop} {e : E}
    {s : Stmt W DB K E (Option α)}

theorem Repeats.of_same {s : Stmt W DB K E β} {k : β → Prog W DB K E α} {held : List K}
    {eff : Effect W K β} (h : ∀ (H : K → Prop) (db' : DB), (∀ j ∈ held ++ eff.claims, H j) →
      (∀ w ∈ own, ∀ j ∈ Storage.keys w, H j) → G.wf db' → G.stable H db db' →
        s.exec own db' = .ok eff) : Repeats G s k own held db eff := by
  intro H db' hH hown hwf hst
  exact ⟨eff, h H db' hH hown hwf hst, rfl, rfl, rfl⟩

theorem Repeats.bind {s : Stmt W DB K E γ} {k : γ → Prog W DB K E α} {held : List K}
    {eff : Effect W K γ} (h : Repeats G s k own held db eff) :
    Repeats G s (fun b => k b >>= f) own held db eff := by
  intro H db' hH hown hwf hst
  obtain ⟨eff', hs, hk, hw, hc⟩ := h H db' hH hown hwf hst
  exact ⟨eff', hs, by simp only [hk], hw, hc⟩

theorem Guarded.bind {p : Prog W DB K E α} {Q : β → Point G → Prop}
    (h : Guarded p pt fun a pt' => Guarded (f a) pt' Q) : Guarded (p >>= f) pt Q := by
  induction p generalizing pt with
  | ret a => exact h
  | fail e => trivial
  | stmt s k ih =>
    intro db eff hwf hknown hs
    obtain ⟨hvalid, ⟨F, hF, hdb, hk⟩, hrep⟩ := h db eff hwf hknown hs
    refine ⟨hvalid, ⟨F, hF, hdb, ih eff.result hk⟩, ?_⟩
    rcases hrep with ⟨e, he⟩ | hrep
    · exact Or.inl ⟨e, by simp only [he]; rfl⟩
    · exact Or.inr hrep.bind

theorem Guarded.mono {p : Prog W DB K E α} {Q' : α → Point G → Prop} (h : Guarded p pt Q)
    (hQ : ∀ a pt', Q a pt' → Q' a pt') : Guarded p pt Q' := by
  induction p generalizing pt with
  | ret a => exact hQ a pt h
  | fail e => trivial
  | stmt s k ih =>
    intro db eff hwf hknown hs
    obtain ⟨hvalid, ⟨F, hF, hdb, hk⟩, hrep⟩ := h db eff hwf hknown hs
    exact ⟨hvalid, ⟨F, hF, hdb, ih eff.result hk⟩, hrep⟩

theorem Guarded.robust {base : Prog W DB K E R → Prop} {p : Prog W DB K E R}
    {Q : R → Point G → Prop} (h : Guarded p pt Q) : Robust G base p pt := by
  induction p generalizing pt with
  | ret a => trivial
  | fail e => trivial
  | stmt s k ih =>
    intro db eff hwf hknown hs
    obtain ⟨hvalid, ⟨F, hF, hdb, hk⟩, hrep⟩ := h db eff hwf hknown hs
    refine ⟨hvalid, ⟨F, hF, hdb, ih eff.result hk⟩, ?_⟩
    rcases hrep with hfail | hrep
    · exact Or.inl hfail
    · exact Or.inr (Or.inr (Or.inr hrep))

theorem Guarded.call {s : Stmt W DB K E α}
    (h : ∀ db eff, G.wf db → pt.known db → s.exec pt.own db = .ok eff →
      G.ValidAll eff.writes db ∧ Q eff.result (pt.next eff) ∧
      ∀ (H : K → Prop) (db' : DB), (∀ j ∈ pt.held ++ eff.claims, H j) →
        (∀ w ∈ pt.own, ∀ j ∈ Storage.keys w, H j) → G.wf db' → G.stable H db db' →
          s.exec pt.own db' = .ok eff) : Guarded (call s) pt Q := by
  intro db eff hwf hknown hs
  obtain ⟨hvalid, hQ, hsame⟩ := h db eff hwf hknown hs
  exact ⟨hvalid, ⟨pt.known, pt.lasting, hknown, hQ⟩, Or.inr (Repeats.of_same hsame)⟩

theorem Guarded.fetch_bind {Q : β → Point G → Prop}
    (h : ∀ db eff, G.wf db → pt.known db → s.exec pt.own db = .ok eff →
      G.ValidAll eff.writes db ∧ ∀ a, eff.result = some a →
        (∃ F, ∃ hF : G.Lasting F, F db ∧
          Guarded (f a) ⟨pt.own ++ eff.writes, pt.held ++ eff.claims, F, hF⟩ Q) ∧
        ∀ (H : K → Prop) (db' : DB), (∀ j ∈ pt.held ++ eff.claims, H j) →
          G.wf db' → G.stable H db db' →
            ∃ eff' a', s.exec pt.own db' = .ok eff' ∧ eff'.result = some a' ∧ f a' = f a ∧
              eff'.writes = eff.writes ∧ eff'.claims = eff.claims) :
    Guarded (fetch e s >>= f) pt Q := by
  intro db eff hwf hknown hs
  obtain ⟨hvalid, hsome⟩ := h db eff hwf hknown hs
  refine ⟨hvalid, ?_⟩
  simp only [Repeats, SameMove]
  cases hr : eff.result with
  | none => exact ⟨⟨pt.known, pt.lasting, hknown, trivial⟩, Or.inl ⟨e, rfl⟩⟩
  | some a =>
    obtain ⟨hnext, hrep⟩ := hsome a hr
    refine ⟨hnext, Or.inr ?_⟩
    intro H db' hH _ hwf' hst
    obtain ⟨eff', a', hs', hr', hf, hw, hc⟩ := hrep H db' hH hwf' hst
    refine ⟨eff', hs', ?_, hw, hc⟩
    rw [hr']
    exact hf

theorem Guarded.fetch (h : ∀ db eff, G.wf db → pt.known db → s.exec pt.own db = .ok eff →
      G.ValidAll eff.writes db ∧ ∀ a, eff.result = some a →
        (∃ F, ∃ hF : G.Lasting F, F db ∧
          Q a ⟨pt.own ++ eff.writes, pt.held ++ eff.claims, F, hF⟩) ∧
        ∀ (H : K → Prop) (db' : DB), (∀ j ∈ pt.held ++ eff.claims, H j) →
          G.wf db' → G.stable H db db' → s.exec pt.own db' = .ok eff) :
    Guarded (fetch e s) pt Q := by
  intro db eff hwf hknown hs
  obtain ⟨hvalid, hsome⟩ := h db eff hwf hknown hs
  refine ⟨hvalid, ?_⟩
  cases hr : eff.result with
  | none => exact ⟨⟨pt.known, pt.lasting, hknown, trivial⟩, Or.inl ⟨e, rfl⟩⟩
  | some a =>
    obtain ⟨hnext, hrep⟩ := hsome a hr
    refine ⟨hnext, Or.inr (Repeats.of_same ?_)⟩
    intro H db' hH _ hwf' hst
    exact hrep H db' hH hwf' hst

theorem Guarded.refuse {c : Prop} [Decidable c] {Q : Unit → Point G → Prop} (h : ¬ c → Q () pt) :
    Guarded (refuse c e) pt Q := by
  unfold Prog.refuse
  by_cases hc : c
  · rw [if_pos hc]
    trivial
  · rw [if_neg hc]
    exact h hc

theorem Guarded.found {o : Option α} (h : ∀ a, o = some a → Q a pt) : Guarded (found e o) pt Q := by
  cases o with
  | none => trivial
  | some a => exact h a rfl

theorem Guarded.ofExcept {x : Except E α} (h : ∀ a, x = .ok a → Q a pt) :
    Guarded (ofExcept x) pt Q := by
  cases x with
  | error e => trivial
  | ok a => exact h a rfl

variable (G) in
/-- Guarded wherever it is started, without giving up what is held or known. -/
def Steady (p : Prog W DB K E α) : Prop := ∀ pt : Point G, Guarded p pt fun _ pt' => pt.Grows pt'

namespace Steady

variable {p : Prog W DB K E α}

theorem ret (a : α) : Steady G (Prog.ret a : Prog W DB K E α) := Point.Grows.refl

theorem follow {Q : β → Point G → Prop} (hp : Steady G p)
    (h : ∀ a pt', pt.Grows pt' → Guarded (f a) pt' Q) : Guarded (p >>= f) pt Q :=
  .bind ((hp pt).mono h)

theorem bind (hp : Steady G p) (hf : ∀ a, Steady G (f a)) : Steady G (p >>= f) :=
  fun _ => hp.follow fun a pt₁ h₁ => (hf a pt₁).mono fun _ _ h₂ => h₁.trans h₂

theorem found {o : Option α} : Steady G (Prog.found e o : Prog W DB K E α) :=
  fun pt => .found fun _ _ => .refl pt

end Steady

end Guarded

end Prog

end Monierave.ReadCommitted
