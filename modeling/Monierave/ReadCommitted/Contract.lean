import Monierave.ReadCommitted.Machine

/-! # Contracts between interleaved transactions

Not every set of transactions is serializable, but each transaction can still count
on something: what it knows about the tables stays true as long as the others can
only make changes it is prepared for.
-/

namespace Monierave.ReadCommitted

variable {W DB K E T R Op α β : Type} [Storage W DB K]

/-- What transactions can expect of each other. `entry db k` is what the tables
hold under a key. A write is `legit` where it takes effect, and whether it does
depends on its own keys only. `rely held db db'` is what the commit of another
transaction may do to the tables, as seen by the holder of `held`. -/
structure Covenant (W DB K : Type) [Storage W DB K] where
  Entry : Type
  entry : DB → K → Entry
  legit : W → DB → Prop
  rely : List K → DB → DB → Prop
  entry_congr : ∀ {w : W} {db db' : DB} {k : K}, (∀ j ∈ Storage.keys w, entry db j = entry db' j) →
    entry db k = entry db' k → entry (apply w db) k = entry (apply w db') k
  legit_congr : ∀ {w : W} {db db' : DB}, (∀ j ∈ Storage.keys w, entry db j = entry db' j) →
    legit w db → legit w db'
  rely_entry : ∀ {held db db'}, rely held db db' → ∀ k ∈ held, entry db k = entry db' k
  rely_mono : ∀ {held held' db db'}, (∀ k ∈ held, k ∈ held') → rely held' db db' →
    rely held db db'

namespace Covenant

variable (C : Covenant W DB K)

def LegitAll : List W → DB → Prop
  | [], _ => True
  | w :: ws, db => C.legit w db ∧ LegitAll ws (apply w db)

/-- A fact that the keys `held` protect. -/
def Protects (held : List K) (F : DB → Prop) : Prop :=
  ∀ db db', F db → C.rely held db db' → F db'

variable {C}

variable {ws : List W} {db : DB} {F : DB → Prop}

theorem legitAll_append {ws' : List W} :
    C.LegitAll (ws ++ ws') db ↔ C.LegitAll ws db ∧ C.LegitAll ws' (view ws db) := by
  induction ws generalizing db with
  | nil => simp [LegitAll]
  | cons w ws ih => simp [LegitAll, ih, and_assoc]

theorem legitAll_congr {db' : DB}
    (hk : ∀ w ∈ ws, ∀ j ∈ Storage.keys w, C.entry db j = C.entry db' j) (h : C.LegitAll ws db) :
    C.LegitAll ws db' := by
  induction ws generalizing db db' with
  | nil => trivial
  | cons w ws ih =>
    rw [List.forall_mem_cons] at hk
    refine ⟨C.legit_congr hk.1 h.1, ih ?_ h.2⟩
    intro w' hw' j hj
    exact C.entry_congr hk.1 (hk.2 w' hw' j hj)

theorem Protects.mono {held held' : List K} (h : C.Protects held F) (hsub : ∀ k ∈ held, k ∈ held') :
    C.Protects held' F :=
  fun db db' hF hrely => h db db' hF (C.rely_mono hsub hrely)

theorem Protects.and {held : List K} {G : DB → Prop} (hF : C.Protects held F)
    (hG : C.Protects held G) : C.Protects held fun db => F db ∧ G db :=
  fun db db' h hrely => ⟨hF db db' h.1 hrely, hG db db' h.2 hrely⟩

end Covenant

/-- Where a transaction is: its writes so far, the keys it holds, and what it
knows about the committed tables. -/
structure Footing (C : Covenant W DB K) where
  own : List W
  held : List K
  known : DB → Prop
  protected_ : C.Protects held known

namespace Footing

variable {C : Covenant W DB K}

def start (C : Covenant W DB K) : Footing C := ⟨[], [], fun _ => True, fun _ _ _ _ => trivial⟩

def next (f : Footing C) (eff : Effect W K β) : Footing C :=
  ⟨f.own ++ eff.writes, f.held ++ eff.claims, f.known,
    f.protected_.mono fun _ hk => List.mem_append_left _ hk⟩

def learn (f : Footing C) (F : DB → Prop) (hF : C.Protects f.held F) : Footing C :=
  ⟨f.own, f.held, fun db => f.known db ∧ F db, f.protected_.and hF⟩

@[simp] theorem start_own : (start C).own = [] := rfl
@[simp] theorem start_held : (start C).held = [] := rfl
@[simp] theorem next_own (f : Footing C) (eff : Effect W K β) :
    (f.next eff).own = f.own ++ eff.writes := rfl
@[simp] theorem next_held (f : Footing C) (eff : Effect W K β) :
    (f.next eff).held = f.held ++ eff.claims := rfl
@[simp] theorem next_known (f : Footing C) (eff : Effect W K β) :
    (f.next eff).known = f.known := rfl
@[simp] theorem learn_own (f : Footing C) (F : DB → Prop) (hF : C.Protects f.held F) :
    (f.learn F hF).own = f.own := rfl
@[simp] theorem learn_held (f : Footing C) (F : DB → Prop) (hF : C.Protects f.held F) :
    (f.learn F hF).held = f.held := rfl

structure Grows (f f' : Footing C) : Prop where
  own : ∀ w ∈ f.own, w ∈ f'.own
  held : ∀ k ∈ f.held, k ∈ f'.held
  known : ∀ db, f'.known db → f.known db

theorem Grows.refl (f : Footing C) : f.Grows f := ⟨fun _ h => h, fun _ h => h, fun _ h => h⟩

theorem Grows.trans {f f' f'' : Footing C} (h : f.Grows f') (h' : f'.Grows f'') : f.Grows f'' :=
  ⟨fun w hw => h'.own w (h.own w hw), fun k hk => h'.held k (h.held k hk),
    fun db hdb => h.known db (h'.known db hdb)⟩

theorem grows_next (f : Footing C) (eff : Effect W K β) : f.Grows (f.next eff) :=
  ⟨fun _ hw => List.mem_append_left _ hw, fun _ hk => List.mem_append_left _ hk, fun _ h => h⟩

theorem grows_learn (f : Footing C) (F : DB → Prop) (hF : C.Protects f.held F) :
    f.Grows (f.learn F hF) := ⟨fun _ h => h, fun _ h => h, fun _ h => h.1⟩

structure Admits (f : Footing C) (db : DB) : Prop where
  legit : C.LegitAll f.own db
  known : f.known db

end Footing

namespace Prog

variable {C : Covenant W DB K}

/-- Started on the footing `f`, every statement of the program makes legit writes
and leads to a footing its keys protect, and wherever the program returns `Q`
holds of its answer and of the footing it has come to. -/
def Secured : Prog W DB K E α → Footing C → (α → Footing C → Prop) → Prop
  | ret a, f, Q => Q a f
  | fail _, _, _ => True
  | stmt s k, f, Q => ∀ db eff, f.Admits db → s.exec f.own (view f.own db) = .ok eff →
      C.LegitAll eff.writes (view f.own db) ∧
      ∃ F, ∃ hF : C.Protects (f.held ++ eff.claims) F, F db ∧
        Secured (k eff.result) ⟨f.own ++ eff.writes, f.held ++ eff.claims, F, hF⟩ Q

namespace Secured

variable {f : Footing C}

variable {p : Prog W DB K E α} {Q : α → Footing C → Prop} {e : E}

theorem bind {g : α → Prog W DB K E β} {Q : β → Footing C → Prop}
    (h : Secured p f fun a f' => Secured (g a) f' Q) : Secured (p >>= g) f Q := by
  induction p generalizing f with
  | ret a => exact h
  | fail e => trivial
  | stmt s k ih =>
    intro db eff hdb hs
    obtain ⟨hlegit, F, hF, hFdb, hk⟩ := h db eff hdb hs
    exact ⟨hlegit, F, hF, hFdb, ih eff.result hk⟩

theorem mono {Q' : α → Footing C → Prop} (h : Secured p f Q) (hQ : ∀ a f', Q a f' → Q' a f') :
    Secured p f Q' := by
  induction p generalizing f with
  | ret a => exact hQ a f h
  | fail e => trivial
  | stmt s k ih =>
    intro db eff hdb hs
    obtain ⟨hlegit, F, hF, hFdb, hk⟩ := h db eff hdb hs
    exact ⟨hlegit, F, hF, hFdb, ih eff.result hk⟩

theorem and {Q₁ Q₂ : α → List W → List K → DB → Prop} {own : List W} {held : List K}
    {F F₁ F₂ : DB → Prop} {hF : C.Protects held F} {hF₁ : C.Protects held F₁}
    {hF₂ : C.Protects held F₂} (h₁ : Secured p (⟨own, held, F₁, hF₁⟩ : Footing C) fun a f =>
      ∀ db, f.Admits db → Q₁ a f.own f.held db)
    (h₂ : Secured p (⟨own, held, F₂, hF₂⟩ : Footing C) fun a f =>
      ∀ db, f.Admits db → Q₂ a f.own f.held db) (hknown : ∀ db, F db → F₁ db ∧ F₂ db) :
    Secured p (⟨own, held, F, hF⟩ : Footing C) fun a f =>
      ∀ db, f.Admits db → Q₁ a f.own f.held db ∧ Q₂ a f.own f.held db := by
  induction p generalizing own held F F₁ F₂ with
  | ret a =>
    intro db hadm
    obtain ⟨hk₁, hk₂⟩ := hknown db hadm.known
    exact ⟨h₁ db ⟨hadm.legit, hk₁⟩, h₂ db ⟨hadm.legit, hk₂⟩⟩
  | fail e => trivial
  | stmt s k ih =>
    intro db eff hadm hs
    obtain ⟨hk₁, hk₂⟩ := hknown db hadm.known
    obtain ⟨hlegit, G₁, hG₁, hdb₁, hrest₁⟩ := h₁ db eff ⟨hadm.legit, hk₁⟩ hs
    obtain ⟨_, G₂, hG₂, hdb₂, hrest₂⟩ := h₂ db eff ⟨hadm.legit, hk₂⟩ hs
    exact ⟨hlegit, _, hG₁.and hG₂, ⟨hdb₁, hdb₂⟩, ih eff.result hrest₁ hrest₂ fun _ h => h⟩

theorem call_learn {s : Stmt W DB K E α}
    (h : ∀ db eff, f.Admits db → s.exec f.own (view f.own db) = .ok eff →
      C.LegitAll eff.writes (view f.own db) ∧
      ∃ F, ∃ hF : C.Protects (f.next eff).held F, F db ∧ Q eff.result ((f.next eff).learn F hF)) :
    Secured (call s) f Q := by
  intro db eff hdb hs
  obtain ⟨hlegit, F, hF, hFdb, hQ⟩ := h db eff hdb hs
  exact ⟨hlegit, _, ((f.next eff).learn F hF).protected_, ⟨hdb.known, hFdb⟩, hQ⟩

theorem call {s : Stmt W DB K E α}
    (h : ∀ db eff, f.Admits db → s.exec f.own (view f.own db) = .ok eff →
      C.LegitAll eff.writes (view f.own db) ∧ Q eff.result (f.next eff)) :
    Secured (call s) f Q := by
  intro db eff hdb hs
  obtain ⟨hlegit, hQ⟩ := h db eff hdb hs
  exact ⟨hlegit, _, (f.next eff).protected_, hdb.known, hQ⟩

theorem fetch_learn {s : Stmt W DB K E (Option α)}
    (h : ∀ db eff, f.Admits db → s.exec f.own (view f.own db) = .ok eff →
      C.LegitAll eff.writes (view f.own db) ∧ ∀ a, eff.result = some a →
      ∃ F, ∃ hF : C.Protects (f.next eff).held F, F db ∧ Q a ((f.next eff).learn F hF)) :
    Secured (fetch e s) f Q := by
  intro db eff hdb hs
  obtain ⟨hlegit, hsome⟩ := h db eff hdb hs
  refine ⟨hlegit, ?_⟩
  cases hr : eff.result with
  | none => exact ⟨_, (f.next eff).protected_, hdb.known, trivial⟩
  | some a =>
    obtain ⟨F, hF, hFdb, hQ⟩ := hsome a hr
    exact ⟨_, ((f.next eff).learn F hF).protected_, ⟨hdb.known, hFdb⟩, hQ⟩

theorem fetch {s : Stmt W DB K E (Option α)}
    (h : ∀ db eff, f.Admits db → s.exec f.own (view f.own db) = .ok eff →
      C.LegitAll eff.writes (view f.own db) ∧ ∀ a, eff.result = some a → Q a (f.next eff)) :
    Secured (fetch e s) f Q := by
  intro db eff hdb hs
  obtain ⟨hlegit, hsome⟩ := h db eff hdb hs
  refine ⟨hlegit, _, (f.next eff).protected_, hdb.known, ?_⟩
  cases hr : eff.result with
  | none => trivial
  | some a => exact hsome a hr

theorem refuse {c : Prop} [Decidable c] {Q : Unit → Footing C → Prop} (h : ¬ c → Q () f) :
    Secured (Prog.refuse c e : Prog W DB K E Unit) f Q := by
  unfold Prog.refuse
  by_cases hc : c
  · rw [if_pos hc]
    trivial
  · rw [if_neg hc]
    exact h hc

end Secured

end Prog

/-- Every transaction keeps the covenant: it is secured from the start, and when
it commits, `post` holds of its answer, its writes, its keys and the tables, and
the others find only what they rely on. -/
structure Contract (sys : System W DB K E T R Op) extends Covenant W DB K where
  post : T → R → List W → List K → DB → Prop
  secured : ∀ t, Prog.Secured (sys.body t) (Footing.start toCovenant) fun a f =>
    ∀ db, f.Admits db → post t a f.own f.held db
  guarantee : ∀ {t a ws held db}, post t a ws held db →
    toCovenant.LegitAll ws db → ∀ others, (∀ k ∈ held, k ∉ others) →
      (∀ w ∈ ws, ∀ k ∈ Storage.keys w, k ∈ held) → rely others db (view ws db)

namespace Contract

variable {sys : System W DB K E T R Op} (C : Contract sys)

def refine (post : T → R → List W → List K → DB → Prop)
    (secured : ∀ t, Prog.Secured (sys.body t) (Footing.start C.toCovenant) fun a f =>
      ∀ db, f.Admits db → post t a f.own f.held db) : Contract sys where
  toCovenant := C.toCovenant
  post t a ws held db := C.post t a ws held db ∧ post t a ws held db
  secured t := (C.secured t).and (secured t) fun _ h => ⟨h, h⟩
  guarantee h := C.guarantee h.1

/-- The part of a transaction in progress that is left is secured on a footing
that admits the tables as they are. -/
def InForce (db : DB) (r : Running W DB K E T R) : Prop :=
  ∃ F, ∃ hF : C.toCovenant.Protects r.held F,
    (⟨r.own, r.held, F, hF⟩ : Footing C.toCovenant).Admits db ∧
    Prog.Secured r.rest (⟨r.own, r.held, F, hF⟩ : Footing C.toCovenant) fun a f =>
      ∀ db, f.Admits db → C.post r.tx a f.own f.held db

structure Kept [DecidableEq K] (s : State W DB K E T R Op) : Prop where
  exclusive : s.Exclusive
  owns : s.Owns
  inForce : ∀ w op r, s.workers w = .running op r → C.InForce s.db r

variable {db : DB} {r : Running W DB K E T R} {s s' : State W DB K E T R Op} {act : Action E Op}

theorem InForce.of_rely {db' : DB} (h : C.InForce db r)
    (howns : ∀ w ∈ r.own, ∀ k ∈ Storage.keys w, k ∈ r.held) (hrely : C.rely r.held db db') :
    C.InForce db' r := by
  obtain ⟨F, hF, hadm, hsec⟩ := h
  refine ⟨F, hF, ⟨?_, hF db db' hadm.known hrely⟩, hsec⟩
  apply Covenant.legitAll_congr _ hadm.legit
  intro w hw j hj
  exact C.rely_entry hrely j (howns w hw j hj)

theorem inForce_enter (db : DB) {op op' : Op} {j : Job T R E}
    (h : sys.enter op j = .running op' r) : C.InForce db r := by
  cases j with
  | done x => cases h
  | tx t next =>
    cases h
    exact ⟨fun _ => True, (Footing.start C.toCovenant).protected_, ⟨trivial, trivial⟩,
      C.secured t⟩

theorem InForce.step {β : Type} {q : Stmt W DB K E β} {k : β → Prog W DB K E R}
    {eff : Effect W K β} (h : C.InForce db r) (hr : r.rest = .stmt q k)
    (hq : q.exec r.own (view r.own db) = .ok eff) :
    C.InForce db { r with
      rest := k eff.result
      own := r.own ++ eff.writes
      held := r.held ++ eff.claims } := by
  obtain ⟨F, hF, hadm, hsec⟩ := h
  rw [hr] at hsec
  obtain ⟨hlegit, F', hF', hFdb, hk⟩ := hsec db eff hadm hq
  exact ⟨F', hF', ⟨Covenant.legitAll_append.mpr ⟨hadm.legit, hlegit⟩, hFdb⟩, hk⟩

theorem InForce.post {a : R} (h : C.InForce db r) (hr : r.rest = .ret a) :
    C.post r.tx a r.own r.held db ∧ C.toCovenant.LegitAll r.own db := by
  obtain ⟨F, hF, hadm, hsec⟩ := h
  rw [hr] at hsec
  exact ⟨hsec db hadm, hadm.legit⟩

variable [DecidableEq K]

theorem kept_moves (h : C.Kept s) (hm : sys.Moves s act s') : C.Kept s' := by
  have hexcl := sys.exclusive_moves h.exclusive hm
  have howns := sys.owns_moves h.owns hm
  cases hm with
  | stay => exact h
  | start hact hw =>
    refine ⟨hexcl, howns, ?_⟩
    exact sys.running_setWorker s rfl h.inForce fun r hr => C.inForce_enter _ hr
  | advance hw hr hq hwait hfree =>
    exact ⟨hexcl, howns, System.running_advance h.inForce ((h.inForce _ _ _ hw).step C hr hq)⟩
  | rollback e hw =>
    refine ⟨hexcl, howns, ?_⟩
    exact sys.running_setWorker (s.release _) rfl h.inForce fun r hr =>
      C.inForce_enter _ hr
  | commit hw hr hact =>
    rename_i w op r a
    obtain ⟨hpost, hlegit⟩ := (h.inForce w op r hw).post C hr
    have hrely : ∀ others, (∀ k ∈ r.held, k ∉ others) → C.rely others s.db (view r.own s.db) :=
      fun others hdis => C.guarantee hpost hlegit others hdis (h.owns w op r hw)
    refine ⟨hexcl, howns, ?_⟩
    intro v op' r' hv
    by_cases hvw : v = w
    · subst hvw
      simp only [System.publish, State.setWorker, Function.update_self] at hv
      exact C.inForce_enter _ hv
    · simp only [System.publish, State.setWorker, State.release,
        Function.update_of_ne hvw] at hv
      exact (h.inForce v op' r' hv).of_rely C (h.owns v op' r' hv)
        (hrely _ (h.exclusive.disjoint hw hv (Ne.symm hvw)))

theorem Kept.run (h : C.Kept s) (acts : List (Action E Op)) :
    C.Kept (sys.run s acts) :=
  sys.run_induction h (fun _ _ _ => C.kept_moves) acts

theorem kept_init (db : DB) : C.Kept (State.init db) :=
  ⟨System.exclusive_init db, System.owns_init db, fun _ _ _ hw => by cases hw⟩

theorem kept_run (db : DB) (acts : List (Action E Op)) :
    C.Kept (sys.run (State.init db) acts) :=
  (C.kept_init db).run C acts

/-- The two things a step can mean for the tables and the log. -/
inductive Progress (s : State W DB K E T R Op) (act : Action E Op) (s' : State W DB K E T R Op) :
    Prop
  | quiet (hdb : s'.db = s.db) (hlog : s'.log = s.log)
  | commit {w : Nat} {op : Op} {r : Running W DB K E T R} {a : R}
      (hw : s.workers w = .running op r) (hpost : C.post r.tx a r.own r.held s.db)
      (hlegit : C.toCovenant.LegitAll r.own s.db) (hs' : s' = sys.publish s w op r a)
      (hlog : s'.log = s.log ++ [(r.tx, a)]) (hr : r.rest = .ret a) (hact : act = .commit w)

theorem Kept.progress (h : C.Kept s) (hm : sys.Moves s act s') : C.Progress s act s' := by
  cases hm with
  | stay => exact .quiet rfl rfl
  | start hact hw => exact .quiet rfl rfl
  | advance hw hr hq hwait hfree => exact .quiet rfl rfl
  | rollback e hw => exact .quiet rfl rfl
  | commit hw hr hact =>
    rename_i w op r a
    obtain ⟨hpost, hlegit⟩ := (h.inForce w op r hw).post C hr
    cases hown : r.own with
    | nil => exact .quiet (by simp [System.publish, hown]) (by simp [System.publish, hown])
    | cons x xs => exact .commit hw hpost hlegit rfl (by simp [System.publish, hown]) hr hact

/-- What every move keeps, from states in which the contracts are kept and every
transaction belongs to its operation, holds after every run. -/
theorem Kept.run_induction {P : State W DB K E T R Op → Prop} (hkept : C.Kept s)
    (hled : sys.Led s) (h0 : P s)
    (hstep : ∀ {s s' act}, C.Kept s → sys.Led s → P s → sys.Moves s act s' → P s')
    (acts : List (Action E Op)) : P (sys.run s acts) := by
  have hall := sys.run_induction (P := fun s => C.Kept s ∧ sys.Led s ∧ P s) ⟨hkept, hled, h0⟩
    (fun _ _ _ ⟨hk, hl, hP⟩ hm => ⟨C.kept_moves hk hm, sys.led_moves hl hm, hstep hk hl hP hm⟩) acts
  exact hall.2.2

theorem Kept.log_induction {P : DB → List (T × R) → Prop} (h : C.Kept s) (h0 : P s.db s.log)
    (hstep : ∀ {db log t a ws held}, P db log → C.post t a ws held db →
      C.toCovenant.LegitAll ws db → P (view ws db) (log ++ [(t, a)])) (acts : List (Action E Op)) :
    P (sys.run s acts).db (sys.run s acts).log := by
  induction acts using List.reverseRecOn with
  | nil => exact h0
  | append_singleton acts act ih =>
    rw [System.run_snoc]
    cases (h.run C acts).progress C (sys.step_moves _ act) with
    | quiet hdb hlog =>
      rw [hdb, hlog]
      exact ih
    | commit hw hpost hlegit hs' hlog hr hact =>
      rw [hlog, hs']
      exact hstep ih hpost hlegit

end Contract

end Monierave.ReadCommitted
