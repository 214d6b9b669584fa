import Mathlib.Logic.Relation
import Mathlib.Order.Basic
import Monierave.ReadCommitted.Machine

/-! # Programs that are careful with their locks

Transactions that wait for each other in a circle wait forever.
-/

namespace Monierave.ReadCommitted

theorem acyclic_of_rank {V ρ : Type*} [Preorder ρ] {E : V → V → ρ → Prop}
    (hrise : ∀ a b c x y, E a b x → E b c y → x < y) (a : V) :
    ¬ Relation.TransGen (fun a b => ∃ x, E a b x) a a := by
  -- a path ends with an edge of at least the rank it starts with
  have hpath : ∀ b, Relation.TransGen (fun a b => ∃ x, E a b x) a b →
      ∃ c d x y, E a c x ∧ E d b y ∧ x ≤ y := by
    intro b h
    induction h with
    | single h =>
      obtain ⟨x, hx⟩ := h
      exact ⟨_, _, x, x, hx, hx, le_refl x⟩
    | tail _ h ih =>
      obtain ⟨c, d, x, y, hfirst, hlast, hxy⟩ := ih
      obtain ⟨z, hz⟩ := h
      exact ⟨c, _, x, z, hfirst, hz, hxy.trans (hrise _ _ _ _ _ hlast hz).le⟩
  intro h
  obtain ⟨c, d, x, y, hfirst, hlast, hxy⟩ := hpath a h
  exact (hrise _ _ _ _ _ hlast hfirst).not_ge hxy

variable {W DB K E T R Op α β : Type} [Storage W DB K]

structure Holding (W K : Type) where
  own : List W
  held : List K

/-- `entry db k` is what the tables hold under a key, `fact held db` what the holder of
`held` always finds in its view, and `asks` judges the next statement of a
transaction. -/
structure LockPolicy (W DB K E : Type) [Storage W DB K] where
  Entry : Type
  entry : DB → K → Entry
  fact : List K → DB → Prop
  asks : {β : Type} → Holding W K → DB → Stmt W DB K E β → Prop
  entry_congr : ∀ {w : W} {db db' : DB} {k : K}, (∀ j ∈ Storage.keys w, entry db j = entry db' j) →
    entry db k = entry db' k → entry (apply w db) k = entry (apply w db') k
  entry_other : ∀ {w : W} {k : K}, k ∉ Storage.keys w → ∀ db, entry (apply w db) k = entry db k
  fact_nil : ∀ db, fact [] db
  fact_congr : ∀ {held db db'}, (∀ k ∈ held, entry db k = entry db' k) → fact held db →
    fact held db'

namespace Holding

def next (h : Holding W K) (eff : Effect W K β) : Holding W K :=
  ⟨h.own ++ eff.writes, h.held ++ eff.claims⟩

@[simp] theorem next_own (h : Holding W K) (eff : Effect W K β) :
    (h.next eff).own = h.own ++ eff.writes := rfl

@[simp] theorem next_held (h : Holding W K) (eff : Effect W K β) :
    (h.next eff).held = h.held ++ eff.claims := rfl

def Grows (h h' : Holding W K) : Prop := ∀ k ∈ h.held, k ∈ h'.held

omit [Storage W DB K] in
theorem Grows.refl (h : Holding W K) : h.Grows h := fun _ hk => hk

omit [Storage W DB K] in
theorem Grows.trans {h h' h'' : Holding W K} (h₁ : h.Grows h') (h₂ : h'.Grows h'') : h.Grows h'' :=
  fun k hk => h₂ k (h₁ k hk)

theorem grows_next (h : Holding W K) (eff : Effect W K β) : h.Grows (h.next eff) :=
  fun _ hk => List.mem_append_left _ hk

end Holding

namespace Prog

/-- Started with `h`, every statement of the program is one the policy lets pass, and
wherever the program returns `Q` holds of its answer and of what it holds. -/
def Orderly (L : LockPolicy W DB K E) :
    Prog W DB K E α → Holding W K → (α → Holding W K → Prop) → Prop
  | ret a, h, Q => Q a h
  | fail _, _, _ => True
  | stmt s k, h, Q => ∀ db, L.fact h.held db → L.asks h db s ∧
      ∀ eff, s.exec h.own db = .ok eff →
        L.fact (h.next eff).held (view eff.writes db) ∧ Orderly L (k eff.result) (h.next eff) Q

namespace Orderly

variable {L : LockPolicy W DB K E} {h : Holding W K}

variable {p : Prog W DB K E α} {Q : α → Holding W K → Prop} {e : E}

theorem bind {g : α → Prog W DB K E β} {Q : β → Holding W K → Prop}
    (hp : Orderly L p h fun a h' => Orderly L (g a) h' Q) : Orderly L (p >>= g) h Q := by
  induction p generalizing h with
  | ret a => exact hp
  | fail e => trivial
  | stmt s k ih =>
    intro db hfact
    obtain ⟨hasks, hnext⟩ := hp db hfact
    exact ⟨hasks, fun eff hs => ⟨(hnext eff hs).1, ih eff.result (hnext eff hs).2⟩⟩

theorem mono {Q' : α → Holding W K → Prop} (hp : Orderly L p h Q) (hQ : ∀ a h', Q a h' → Q' a h') :
    Orderly L p h Q' := by
  induction p generalizing h with
  | ret a => exact hQ a h hp
  | fail e => trivial
  | stmt s k ih =>
    intro db hfact
    obtain ⟨hasks, hnext⟩ := hp db hfact
    exact ⟨hasks, fun eff hs => ⟨(hnext eff hs).1, ih eff.result (hnext eff hs).2⟩⟩

theorem call {s : Stmt W DB K E α}
    (hs : ∀ db, L.fact h.held db → L.asks h db s ∧ ∀ eff, s.exec h.own db = .ok eff →
      L.fact (h.next eff).held (view eff.writes db) ∧ Q eff.result (h.next eff)) :
    Orderly L (Prog.call s) h Q := hs

theorem fetch {s : Stmt W DB K E (Option α)}
    (hs : ∀ db, L.fact h.held db → L.asks h db s ∧ ∀ eff, s.exec h.own db = .ok eff →
      L.fact (h.next eff).held (view eff.writes db) ∧
        ∀ a, eff.result = some a → Q a (h.next eff)) : Orderly L (Prog.fetch e s) h Q := by
  intro db hfact
  obtain ⟨hasks, hnext⟩ := hs db hfact
  refine ⟨hasks, fun eff heff => ⟨(hnext eff heff).1, ?_⟩⟩
  cases hr : eff.result with
  | none => trivial
  | some a => exact (hnext eff heff).2 a hr

theorem refuse {c : Prop} [Decidable c] {Q : Unit → Holding W K → Prop} (hc : ¬ c → Q () h) :
    Orderly L (Prog.refuse c e : Prog W DB K E Unit) h Q := by
  unfold Prog.refuse
  by_cases hcond : c
  · rw [if_pos hcond]
    trivial
  · rw [if_neg hcond]
    exact hc hcond

theorem found {o : Option α} (ho : ∀ a, o = some a → Q a h) :
    Orderly L (Prog.found e o : Prog W DB K E α) h Q := by
  cases o with
  | none => trivial
  | some a => exact ho a rfl

theorem ofExcept {x : Except E α} (hx : ∀ a, x = .ok a → Q a h) :
    Orderly L (Prog.ofExcept x : Prog W DB K E α) h Q := by
  cases x with
  | error e => trivial
  | ok a => exact hx a rfl

end Orderly

end Prog

namespace LockPolicy

variable (L : LockPolicy W DB K E)

variable {ws : List W} {db : DB} {k : K} {r : Running W DB K E T R}

theorem entry_view_congr {db' : DB}
    (hw : ∀ w ∈ ws, ∀ j ∈ Storage.keys w, L.entry db j = L.entry db' j)
    (hk : L.entry db k = L.entry db' k) : L.entry (view ws db) k = L.entry (view ws db') k := by
  induction ws generalizing db db' with
  | nil => exact hk
  | cons w ws ih =>
    rw [List.forall_mem_cons] at hw
    refine ih ?_ (L.entry_congr hw.1 hk)
    intro w' hw' j hj
    exact L.entry_congr hw.1 (hw.2 w' hw' j hj)

theorem entry_view_other (hk : ∀ w ∈ ws, k ∉ Storage.keys w) (db : DB) :
    L.entry (view ws db) k = L.entry db k := by
  induction ws generalizing db with
  | nil => rfl
  | cons w ws ih =>
    rw [List.forall_mem_cons] at hk
    rw [view_cons, ih hk.2, L.entry_other hk.1]

def Follows (db : DB) (r : Running W DB K E T R) : Prop :=
  L.fact r.held (view r.own db) ∧ Prog.Orderly L r.rest ⟨r.own, r.held⟩ fun _ _ => True

theorem Follows.of_commit {r' : Running W DB K E T R} (h : L.Follows db r)
    (hown : ∀ x ∈ r.own, ∀ k ∈ Storage.keys x, k ∈ r.held)
    (hother : ∀ x ∈ r'.own, ∀ k ∈ Storage.keys x, k ∉ r.held) : L.Follows (view r'.own db) r := by
  have hheld : ∀ k ∈ r.held, L.entry (view r'.own db) k = L.entry db k := fun k hk =>
    L.entry_view_other (fun x hx hkx => hother x hx k hkx hk) db
  refine ⟨L.fact_congr (fun k hk => ?_) h.1, h.2⟩
  exact L.entry_view_congr (fun x hx j hj => (hheld j (hown x hx j hj)).symm) (hheld k hk).symm

variable {sys : System W DB K E T R Op}

theorem follows_enter (hbody : ∀ t, Prog.Orderly L (sys.body t) ⟨[], []⟩ fun _ _ => True)
    (db : DB) {op op' : Op} {j : Job T R E} (h : sys.enter op j = .running op' r) :
    L.Follows db r := by
  cases j with
  | done x => cases h
  | tx t next =>
    cases h
    exact ⟨L.fact_nil _, hbody t⟩

structure Observed (s : State W DB K E T R Op) : Prop where
  exclusive : s.Exclusive
  owns : s.Owns
  follows : ∀ w op r, s.workers w = .running op r → L.Follows s.db r

variable [DecidableEq K]

theorem observed_moves (hbody : ∀ t, Prog.Orderly L (sys.body t) ⟨[], []⟩ fun _ _ => True)
    {s s' : State W DB K E T R Op} {act : Action E Op} (h : L.Observed s)
    (hm : sys.Moves s act s') : L.Observed s' := by
  refine ⟨sys.exclusive_moves h.exclusive hm, sys.owns_moves h.owns hm, ?_⟩
  cases hm with
  | stay => exact h.follows
  | start hact hw =>
    exact sys.running_setWorker s rfl h.follows fun r hr => L.follows_enter hbody s.db hr
  | advance hw hr hq hwait hfree =>
    obtain ⟨hfact, hrest⟩ := h.follows _ _ _ hw
    rw [hr] at hrest
    obtain ⟨_, hnext⟩ := hrest _ hfact
    obtain ⟨hfact', hrest'⟩ := hnext _ hq
    exact System.running_advance h.follows ⟨by rw [view_append]; exact hfact', hrest'⟩
  | rollback e hw =>
    exact sys.running_setWorker (s.release _) rfl h.follows fun r hr =>
      L.follows_enter hbody s.db hr
  | @commit w op r a hw hr hact =>
    intro v op' r' hv
    by_cases hvw : v = w
    · subst hvw
      simp only [System.publish, State.setWorker, Function.update_self] at hv
      exact L.follows_enter hbody _ hv
    · simp only [System.publish, State.setWorker, State.release,
        Function.update_of_ne hvw] at hv
      refine (h.follows v op' r' hv).of_commit L (h.owns v op' r' hv) ?_
      intro x hx k hkx hk
      exact h.exclusive.disjoint hv hw hvw k hk (h.owns w op r hw x hx k hkx)

theorem observed_run (hbody : ∀ t, Prog.Orderly L (sys.body t) ⟨[], []⟩ fun _ _ => True) (db : DB)
    (acts : List (Action E Op)) : L.Observed (sys.run (State.init db) acts) :=
  sys.run_induction ⟨System.exclusive_init db, System.owns_init db, fun _ _ _ hw => by cases hw⟩
    (fun _ _ _ => L.observed_moves hbody) acts

end LockPolicy

end Monierave.ReadCommitted
