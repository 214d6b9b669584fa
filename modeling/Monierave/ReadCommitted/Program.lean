import Mathlib.Data.List.Basic

/-! # Transaction programs over a read-committed store

A database transaction is a program that issues statements one at a time and decides
from each answer what to do next.
-/

namespace Monierave.ReadCommitted

variable {W DB K E α β γ : Type}

/-- What one statement, or a whole run, did: its answer, the rows it wrote and
the locks it asked for beyond those of its writes. -/
structure Effect (W K β : Type) where
  result : β
  writes : List W := []
  locks : List K := []

/-- One statement. `waits` are the keys it waits for before it is evaluated;
`exec` gets the transaction's own writes so far and its view. -/
structure Stmt (W DB K E β : Type) where
  waits : DB → List K := fun _ => []
  exec : List W → DB → Except E (Effect W K β)

/-- A transaction body. A statement that raises an error ends the transaction. -/
inductive Prog (W DB K E : Type) (α : Type) : Type 1
  | ret (a : α) : Prog W DB K E α
  | fail (e : E) : Prog W DB K E α
  | stmt {β : Type} (s : Stmt W DB K E β) (k : β → Prog W DB K E α) : Prog W DB K E α

namespace Prog

def bind : Prog W DB K E α → (α → Prog W DB K E β) → Prog W DB K E β
  | ret a, f => f a
  | fail e, _ => fail e
  | stmt s k, f => stmt s fun b => (k b).bind f

instance : Monad (Prog W DB K E) where
  pure := ret
  bind := bind

@[simp] theorem ret_bind (a : α) (f : α → Prog W DB K E β) : (ret a >>= f) = f a := rfl

@[simp] theorem pure_eq (a : α) : (pure a : Prog W DB K E α) = ret a := rfl

@[simp] theorem fail_bind (e : E) (f : α → Prog W DB K E β) : (fail e >>= f) = fail e := rfl

@[simp] theorem stmt_bind (s : Stmt W DB K E γ) (k : γ → Prog W DB K E α)
    (f : α → Prog W DB K E β) : (stmt s k >>= f) = stmt s fun b => k b >>= f := rfl

def call (s : Stmt W DB K E α) : Prog W DB K E α := stmt s ret

@[simp] theorem call_bind (s : Stmt W DB K E α) (f : α → Prog W DB K E β) :
    (call s >>= f) = stmt s f := rfl

/-- Give up with `e` when `c` holds. -/
def refuse (c : Prop) [Decidable c] (e : E) : Prog W DB K E Unit := if c then fail e else ret ()

def found (e : E) : Option α → Prog W DB K E α
  | some a => ret a
  | none => fail e

/-- Issue a statement that answers with a row or with none, which is reported as
`e`. -/
def fetch (e : E) (s : Stmt W DB K E (Option α)) : Prog W DB K E α := stmt s (found e)

def ofExcept : Except E α → Prog W DB K E α
  | .ok a => ret a
  | .error e => fail e

def Raises (P : E → Prop) : Prog W DB K E α → Prop
  | ret _ => True
  | fail e => P e
  | stmt s k => (∀ own db e, s.exec own db = .error e → P e) ∧ ∀ b, (k b).Raises P

namespace Raises

variable {P : E → Prop}

variable {p : Prog W DB K E α} {e : E}

theorem bind {f : α → Prog W DB K E β} (hp : p.Raises P) (hf : ∀ a, (f a).Raises P) :
    (p >>= f).Raises P := by
  induction p with
  | ret a => exact hf a
  | fail e => exact hp
  | stmt s k ih => exact ⟨hp.1, fun b => ih b (hp.2 b)⟩

theorem call {s : Stmt W DB K E α} (h : ∀ own db e, s.exec own db = .error e → P e) :
    (Prog.call s).Raises P :=
  ⟨h, fun _ => trivial⟩

theorem found (he : P e) {o : Option α} : (Prog.found e o : Prog W DB K E α).Raises P := by
  cases o with
  | none => exact he
  | some a => trivial

theorem fetch (he : P e) {s : Stmt W DB K E (Option α)}
    (h : ∀ own db e, s.exec own db = .error e → P e) : (Prog.fetch e s).Raises P :=
  ⟨h, fun _ => found he⟩

end Raises

/-- Whatever else changes under it, as long as `C` holds of its view the program
writes only what `P` allows and answers only what `Q` allows. -/
def Confined (C : DB → Prop) (P : W → Prop) (Q : α → Prop) : Prog W DB K E α → Prop
  | ret a => Q a
  | fail _ => True
  | stmt s k => ∀ own db eff, C db → s.exec own db = .ok eff →
      (∀ w ∈ eff.writes, P w) ∧ (k eff.result).Confined C P Q

namespace Confined

variable {C : DB → Prop} {P : W → Prop} {Q : α → Prop}

variable {p : Prog W DB K E α} {f : α → Prog W DB K E β} {Q' : β → Prop} {e : E} {c : Prop}

theorem bind (h : p.Confined C P Q) (hf : ∀ a, Q a → (f a).Confined C P Q') :
    (p >>= f).Confined C P Q' := by
  induction p with
  | ret a => exact hf a h
  | fail e => trivial
  | stmt s k ih =>
    intro own db eff hdb hs
    obtain ⟨hw, hk⟩ := h own db eff hdb hs
    exact ⟨hw, ih eff.result hk⟩

theorem call {s : Stmt W DB K E α}
    (h : ∀ own db eff, C db → s.exec own db = .ok eff → (∀ w ∈ eff.writes, P w) ∧ Q eff.result) :
    (Prog.call s).Confined C P Q := h

theorem fetch {s : Stmt W DB K E (Option α)} (h : ∀ own db eff, C db → s.exec own db = .ok eff →
      (∀ w ∈ eff.writes, P w) ∧ ∀ a, eff.result = some a → Q a) :
    (Prog.fetch e s).Confined C P Q := by
  intro own db eff hdb hs
  obtain ⟨hw, hQ⟩ := h own db eff hdb hs
  refine ⟨hw, ?_⟩
  cases hr : eff.result with
  | none => trivial
  | some a => exact hQ a hr

theorem refuse [Decidable c] :
    (Prog.refuse c e : Prog W DB K E Unit).Confined C P fun _ => ¬ c := by
  unfold Prog.refuse
  by_cases hc : c
  · rw [if_pos hc]
    trivial
  · rw [if_neg hc]
    exact hc

theorem found {o : Option α} :
    (Prog.found e o : Prog W DB K E α).Confined C P fun a => o = some a := by
  cases o with
  | none => trivial
  | some a => exact rfl

theorem seq (h : p.Confined C P fun _ => True) (hf : ∀ a, (f a).Confined C P Q') :
    (p >>= f).Confined C P Q' := h.bind fun a _ => hf a

theorem guard [Decidable c] {f : Unit → Prog W DB K E β} (hf : ¬ c → (f ()).Confined C P Q') :
    (Prog.refuse c e >>= f).Confined C P Q' :=
  refuse.bind fun _ => hf

end Confined

/-- The program writes only what `P` allows. -/
def WritesOnly (P : W → Prop) (p : Prog W DB K E α) : Prop :=
  p.Confined (fun _ => True) P fun _ => True

namespace WritesOnly

variable {P : W → Prop} {p : Prog W DB K E α} {e : E} {c : Prop}

theorem bind {f : α → Prog W DB K E β} (h : p.WritesOnly P)
    (hf : ∀ a, (f a).WritesOnly P) : (p >>= f).WritesOnly P :=
  Confined.bind h fun a _ => hf a

theorem ret (a : α) : (Prog.ret a : Prog W DB K E α).WritesOnly P := trivial

theorem call {s : Stmt W DB K E α}
    (h : ∀ own db eff, s.exec own db = .ok eff → ∀ w ∈ eff.writes, P w) :
    (Prog.call s).WritesOnly P :=
  Confined.call fun own db eff _ hs => ⟨h own db eff hs, trivial⟩

theorem fetch {s : Stmt W DB K E (Option α)}
    (h : ∀ own db eff, s.exec own db = .ok eff → ∀ w ∈ eff.writes, P w) :
    (Prog.fetch e s).WritesOnly P :=
  Confined.fetch fun own db eff _ hs => ⟨h own db eff hs, fun _ _ => trivial⟩

theorem refuse [Decidable c] : (Prog.refuse c e : Prog W DB K E Unit).WritesOnly P := by
  unfold Prog.refuse
  split <;> trivial

theorem ite [Decidable c] {q : Prog W DB K E α} (hp : p.WritesOnly P) (hq : q.WritesOnly P) :
    (if c then p else q).WritesOnly P := by
  split
  · exact hp
  · exact hq

theorem found {o : Option α} : (Prog.found e o : Prog W DB K E α).WritesOnly P := by
  cases o <;> trivial

theorem ofExcept {x : Except E α} : (Prog.ofExcept x : Prog W DB K E α).WritesOnly P := by
  cases x <;> trivial

theorem of_forall (p : Prog W DB K E α) (h : ∀ w, P w) : p.WritesOnly P := by
  induction p with
  | ret a => trivial
  | fail e => trivial
  | stmt s k ih => exact fun own db eff _ _ => ⟨fun w _ => h w, ih eff.result⟩

end WritesOnly

def Silent (p : Prog W DB K E α) : Prop := p.WritesOnly fun _ => False

theorem Silent.step {s : Stmt W DB K E β} {k : β → Prog W DB K E α} {own : List W} {db : DB}
    {eff : Effect W K β} (h : (stmt s k).Silent) (hs : s.exec own db = .ok eff) :
    eff.writes = [] ∧ (k eff.result).Silent :=
  ⟨List.eq_nil_iff_forall_not_mem.mpr (h own db eff trivial hs).1, (h own db eff trivial hs).2⟩

end Prog

/-- Row writes: what one does to the tables, and the rows and index entries its
transaction holds from then on. -/
class Storage (W : Type) (DB K : outParam Type) where
  apply : W → DB → DB
  keys : W → List K

export Storage (apply)

variable [Storage W DB K]

def view (ws : List W) (db : DB) : DB := ws.foldl (fun d w => apply w d) db

@[simp] theorem view_nil (db : DB) : view ([] : List W) db = db := rfl

@[simp] theorem view_cons (w : W) (ws : List W) (db : DB) :
    view (w :: ws) db = view ws (apply w db) := rfl

theorem view_append (ws ws' : List W) (db : DB) : view (ws ++ ws') db = view ws' (view ws db) := by
  simp [view, List.foldl_append]

def Effect.claims (eff : Effect W K β) : List K :=
  eff.locks ++ eff.writes.flatMap Storage.keys

namespace Prog

/-- Run to the end on a view. The result carries the writes in order and every
key held at the end. -/
def run : Prog W DB K E α → List W → DB → Except E (Effect W K α)
  | ret a, _, _ => .ok ⟨a, [], []⟩
  | fail e, _, _ => .error e
  | stmt s k, own, db =>
    match s.exec own db with
    | .error e => .error e
    | .ok eff =>
      match (k eff.result).run (own ++ eff.writes) (view eff.writes db) with
      | .error e => .error e
      | .ok rest => .ok ⟨rest.result, eff.writes ++ rest.writes, eff.claims ++ rest.locks⟩

variable {d : Effect W K α} {p q : Prog W DB K E α} {f : α → Prog W DB K E β} {e : E} {c : Prop}
  {own : List W} {db : DB}

@[simp] theorem run_ret (a : α) (own : List W) (db : DB) :
    (ret a : Prog W DB K E α).run own db = .ok ⟨a, [], []⟩ := rfl

@[simp] theorem run_fail (e : E) (own : List W) (db : DB) :
    (fail e : Prog W DB K E α).run own db = .error e := rfl

theorem run_stmt_ok {s : Stmt W DB K E β} {k : β → Prog W DB K E α} :
    (stmt s k).run own db = .ok d ↔
      ∃ eff rest, s.exec own db = .ok eff ∧
        (k eff.result).run (own ++ eff.writes) (view eff.writes db) = .ok rest ∧
        d = ⟨rest.result, eff.writes ++ rest.writes, eff.claims ++ rest.locks⟩ := by
  constructor
  · intro h
    cases hs : s.exec own db with
    | error e => simp [run, hs] at h
    | ok eff =>
      cases hk : (k eff.result).run (own ++ eff.writes) (view eff.writes db) with
      | error e => simp [run, hs, hk] at h
      | ok rest =>
        simp only [run, hs, hk, Except.ok.injEq] at h
        exact ⟨eff, rest, rfl, hk, h.symm⟩
  · rintro ⟨eff, rest, hs, hk, rfl⟩
    simp [run, hs, hk]

theorem run_stmt_error {s : Stmt W DB K E β} {k : β → Prog W DB K E α}
    (h : (stmt s k).run own db = .error e) :
    s.exec own db = .error e ∨ ∃ eff, s.exec own db = .ok eff ∧
      (k eff.result).run (own ++ eff.writes) (view eff.writes db) = .error e := by
  rw [run] at h
  split at h
  · cases h
    exact .inl ‹_›
  · split at h
    · cases h
      exact .inr ⟨_, ‹_›, ‹_›⟩
    · cases h

theorem run_call_ok {s : Stmt W DB K E α} :
    (call s).run own db = .ok d ↔
      ∃ eff, s.exec own db = .ok eff ∧ d = ⟨eff.result, eff.writes, eff.claims⟩ := by
  rw [call, run_stmt_ok]
  simp

theorem run_bind_error (h : p.run own db = .error e) : (p >>= f).run own db = .error e := by
  induction p generalizing own db with
  | ret a => cases h
  | fail e' =>
    cases h
    rfl
  | stmt s k ih =>
    rcases run_stmt_error h with hs | ⟨eff, hs, hk⟩
    · simp [run, hs]
    · simp [run, hs, ih _ hk]

theorem run_bind (h : p.run own db = .ok d) : (p >>= f).run own db =
      ((f d.result).run (own ++ d.writes) (view d.writes db)).map fun d₂ =>
        ⟨d₂.result, d.writes ++ d₂.writes, d.locks ++ d₂.locks⟩ := by
  induction p generalizing own db d with
  | ret a =>
    cases h
    cases hf : (f a).run own db <;> simp [hf, Except.map]
  | fail e => cases h
  | stmt s k ih =>
    obtain ⟨eff, rest, hs, hk, rfl⟩ := run_stmt_ok.mp h
    rw [stmt_bind, run, hs]
    simp only [ih _ hk, view_append, List.append_assoc]
    cases (f rest.result).run (own ++ (eff.writes ++ rest.writes))
      (view rest.writes (view eff.writes db)) <;> rfl

theorem run_bind_ok {d : Effect W K β} :
    (p >>= f).run own db = .ok d ↔
      ∃ d₁ d₂, p.run own db = .ok d₁ ∧
        (f d₁.result).run (own ++ d₁.writes) (view d₁.writes db) = .ok d₂ ∧
        d = ⟨d₂.result, d₁.writes ++ d₂.writes, d₁.locks ++ d₂.locks⟩ := by
  cases hp : p.run own db with
  | error e => simp [run_bind_error hp]
  | ok d₁ =>
    rw [run_bind hp]
    cases hf : (f d₁.result).run (own ++ d₁.writes) (view d₁.writes db) with
    | error e => simp [Except.map, hf]
    | ok d₂ => simp [Except.map, hf, eq_comm]

theorem run_refuse_ok [Decidable c] {d : Effect W K Unit} :
    (refuse c e : Prog W DB K E Unit).run own db = .ok d ↔ ¬ c ∧ d = ⟨(), [], []⟩ := by
  unfold refuse
  by_cases h : c
  · simp [h]
  · simp [h, eq_comm]

theorem run_found_ok {o : Option α} :
    (found e o : Prog W DB K E α).run own db = .ok d ↔ ∃ a, o = some a ∧ d = ⟨a, [], []⟩ := by
  cases o with
  | none => simp [found]
  | some a => simp [found, eq_comm]

theorem run_refuse_bind_ok [Decidable c] {f : Unit → Prog W DB K E α} :
    (refuse c e >>= f).run own db = .ok d ↔ ¬ c ∧ (f ()).run own db = .ok d := by
  unfold refuse
  by_cases h : c
  · simp [h]
  · simp [h]

theorem run_fetch_ok {s : Stmt W DB K E (Option α)} :
    (fetch e s).run own db = .ok d ↔
      ∃ eff a, s.exec own db = .ok eff ∧ eff.result = some a ∧
        d = ⟨a, eff.writes, eff.claims⟩ := by
  rw [fetch, run_stmt_ok]
  constructor
  · rintro ⟨eff, rest, hs, hk, rfl⟩
    obtain ⟨a, ha, rfl⟩ := run_found_ok.mp hk
    exact ⟨eff, a, hs, ha, by simp⟩
  · rintro ⟨eff, a, hs, ha, rfl⟩
    exact ⟨eff, ⟨a, [], []⟩, hs, run_found_ok.mpr ⟨a, ha, rfl⟩, by simp⟩

theorem run_ofExcept_ok {x : Except E α} :
    (ofExcept x : Prog W DB K E α).run own db = .ok d ↔ ∃ a, x = .ok a ∧ d = ⟨a, [], []⟩ := by
  cases x with
  | error e => simp [ofExcept]
  | ok a => simp [ofExcept, eq_comm]

def answer (p : Prog W DB K E α) (own : List W) (db : DB) : Except E α :=
  (p.run own db).map Effect.result

theorem answer_ok (h : p.run own db = .ok d) : p.answer own db = .ok d.result := by
  rw [answer, h, Except.map]

theorem answer_error (h : p.run own db = .error e) : p.answer own db = .error e := by
  rw [answer, h, Except.map]

theorem answer_bind_error (h : p.run own db = .error e) : (p >>= f).answer own db = .error e :=
  answer_error (run_bind_error h)

theorem answer_bind (h : p.run own db = .ok d) : (p >>= f).answer own db =
      (f d.result).answer (own ++ d.writes) (view d.writes db) := by
  rw [answer, run_bind h, answer]
  cases (f d.result).run (own ++ d.writes) (view d.writes db) <;> rfl

theorem Raises.of_run {P : E → Prop} (h : p.Raises P) (hrun : p.run own db = .error e) : P e := by
  induction p generalizing own db with
  | ret a => cases hrun
  | fail e' =>
    cases hrun
    exact h
  | stmt s k ih =>
    rcases run_stmt_error hrun with hs | ⟨eff, hs, hk⟩
    · exact h.1 own db e hs
    · exact ih eff.result (h.2 _) hk

theorem Confined.of_run {P : W → Prop} {Q : α → Prop} (h : p.Confined (fun _ => True) P Q)
    (hrun : p.run own db = .ok d) : (∀ w ∈ d.writes, P w) ∧ Q d.result := by
  induction p generalizing own db d with
  | ret a =>
    cases hrun
    exact ⟨by simp, h⟩
  | fail e => cases hrun
  | stmt s k ih =>
    obtain ⟨eff, rest, hs, hk, rfl⟩ := run_stmt_ok.mp hrun
    obtain ⟨hw, hrest⟩ := h own db eff trivial hs
    obtain ⟨hw', hQ⟩ := ih eff.result hrest hk
    exact ⟨List.forall_mem_append.mpr ⟨hw, hw'⟩, hQ⟩

theorem Silent.run_writes (h : p.Silent) (hrun : p.run own db = .ok d) : d.writes = [] :=
  List.eq_nil_iff_forall_not_mem.mpr (Confined.of_run h hrun).1

theorem run_keys (h : p.run own db = .ok d) :
    ∀ w ∈ d.writes, ∀ k ∈ Storage.keys w, k ∈ d.locks := by
  induction p generalizing own db d with
  | ret a =>
    cases h
    simp
  | fail e => cases h
  | stmt s k ih =>
    obtain ⟨eff, rest, hs, hk, rfl⟩ := run_stmt_ok.mp h
    intro w hw j hj
    rw [List.mem_append] at hw ⊢
    rcases hw with hw | hw
    · left
      simp only [Effect.claims, List.mem_append, List.mem_flatMap]
      exact Or.inr ⟨w, hw, hj⟩
    · exact Or.inr (ih eff.result hk w hw j hj)

/-! ## Partial execution

`Reaches p db q own held`: after some statements of `p`, all evaluated on the
committed tables `db` and the writes made on the way, the program `q` is left
to do. -/

inductive Reaches (p : Prog W DB K E α) (db : DB) : Prog W DB K E α → List W → List K → Prop
  | start : Reaches p db p [] []
  | step {β : Type} {s : Stmt W DB K E β} {k : β → Prog W DB K E α} {own : List W}
      {held : List K} {eff : Effect W K β} (h : Reaches p db (stmt s k) own held)
      (hs : s.exec own (view own db) = .ok eff) :
      Reaches p db (k eff.result) (own ++ eff.writes) (held ++ eff.claims)

theorem Reaches.run_rest {held : List K} (h : Reaches p db q own held)
    (hq : q.run own (view own db) = .ok d) :
    p.run [] db = .ok ⟨d.result, own ++ d.writes, held ++ d.locks⟩ := by
  induction h generalizing d with
  | start => simpa using hq
  | step h hs ih =>
    rename_i eff
    rw [view_append] at hq
    have := ih (run_stmt_ok.mpr ⟨eff, d, hs, hq, rfl⟩)
    simpa using this

theorem Reaches.run_eq {a : α} {held : List K} (h : Reaches p db (ret a) own held) :
    p.run [] db = .ok ⟨a, own, held⟩ := by
  simpa using h.run_rest (run_ret a own (view own db))

theorem Reaches.of_run_rest {held : List K} (h : Reaches p db q own held)
    (hq : q.run own (view own db) = .ok d) :
    Reaches p db (ret d.result) (own ++ d.writes) (held ++ d.locks) := by
  induction q generalizing own held d with
  | ret a =>
    cases hq
    simpa using h
  | fail e => cases hq
  | stmt s k ih =>
    obtain ⟨eff, rest, hs, hk, rfl⟩ := run_stmt_ok.mp hq
    have := ih eff.result (h.step hs) (by rw [view_append]; exact hk)
    simpa using this

theorem Reaches.of_run (h : p.run [] db = .ok d) :
    Reaches p db (ret d.result) d.writes d.locks := by
  simpa using Reaches.start.of_run_rest h

theorem Reaches.keys {held : List K} (h : Reaches p db q own held) :
    ∀ w ∈ own, ∀ k ∈ Storage.keys w, k ∈ held := by
  induction h with
  | start => simp
  | step h hs ih =>
    intro w hw k hk
    rw [List.mem_append] at hw ⊢
    rcases hw with hw | hw
    · exact Or.inl (ih w hw k hk)
    · right
      simp only [Effect.claims, List.mem_append, List.mem_flatMap]
      exact Or.inr ⟨w, hw, hk⟩

end Prog

end Monierave.ReadCommitted
