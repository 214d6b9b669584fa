import Mathlib.Data.List.Induction
import Mathlib.Logic.Function.Basic

/-! # Processes around a shared state

A process makes one call after another and goes on with what it is answered.
-/

namespace Monierave.Processes

variable {C : Type} {R : C → Type} {α β : Type}

/-- A process that ends with an `α`. The call `c` is answered with an `R c`. -/
inductive Proc (C : Type) (R : C → Type) (α : Type) : Type
  | ret (a : α)
  | call (c : C) (k : R c → Proc C R α)

namespace Proc

def bind : Proc C R α → (α → Proc C R β) → Proc C R β
  | ret a, f => f a
  | call c k, f => call c fun r => (k r).bind f

instance : Monad (Proc C R) where
  pure := ret
  bind := bind

@[simp] theorem pure_eq (a : α) : (pure a : Proc C R α) = ret a := rfl

@[simp] theorem ret_bind (a : α) (f : α → Proc C R β) : (ret a >>= f) = f a := rfl

@[simp] theorem call_bind (c : C) (k : R c → Proc C R α) (f : α → Proc C R β) :
    (call c k >>= f) = call c fun r => k r >>= f := rfl

def ask (c : C) : Proc C R (R c) := call c ret

def next? : Proc C R α → Option C
  | ret _ => none
  | call c _ => some c

end Proc

variable {S J O V : Type}

/-- `serve w o c s` is what the call `c` of the process `w` does to the shared state and
how it is answered if the choice is `o`; `outside` is what happens apart from the
processes. -/
structure System (S C : Type) (R : C → Type) (J O V α : Type) where
  body : J → Proc C R α
  serve : Nat → O → (c : C) → S → S × R c
  outside : V → S → S

inductive Slot (C : Type) (R : C → Type) (J α : Type)
  | idle
  | busy (j : J) (rest : Proc C R α)
  | dead (j : J)

def Slot.next? : Slot C R J α → Option C
  | busy _ rest => rest.next?
  | _ => none

structure State (S C : Type) (R : C → Type) (J α : Type) where
  shared : S
  slots : Nat → Slot C R J α

inductive Action (J O V : Type)
  | start (w : Nat) (j : J)
  | call (w : Nat) (o : O)
  | die (w : Nat)
  | outside (v : V)

namespace State

def init (s : S) : State S C R J α := ⟨s, fun _ => .idle⟩

def setSlot (s : State S C R J α) (w : Nat) (x : Slot C R J α) : State S C R J α :=
  { s with slots := Function.update s.slots w x }

@[simp] theorem setSlot_shared (s : State S C R J α) (w : Nat) (x : Slot C R J α) :
    (s.setSlot w x).shared = s.shared := rfl

end State

namespace System

variable (sys : System S C R J O V α)

/-- The state once the process `w` has made its call. -/
def answer (s : State S C R J α) (w : Nat) (o : O) (j : J) (c : C) (k : R c → Proc C R α) :
    State S C R J α :=
  { shared := (sys.serve w o c s.shared).1
    slots := Function.update s.slots w (.busy j (k (sys.serve w o c s.shared).2)) }

def step (s : State S C R J α) : Action J O V → State S C R J α
  | .start w j =>
    match s.slots w with
    | .idle => s.setSlot w (.busy j (sys.body j))
    | _ => s
  | .call w o =>
    match s.slots w with
    | .busy j (.call c k) => sys.answer s w o j c k
    | _ => s
  | .die w =>
    match s.slots w with
    | .busy j _ => s.setSlot w (.dead j)
    | _ => s
  | .outside v => { s with shared := sys.outside v s.shared }

def run (s : State S C R J α) (acts : List (Action J O V)) : State S C R J α :=
  acts.foldl sys.step s

@[simp] theorem run_nil (s : State S C R J α) : sys.run s [] = s := rfl

theorem run_snoc (s : State S C R J α) (acts : List (Action J O V)) (act : Action J O V) :
    sys.run s (acts ++ [act]) = sys.step (sys.run s acts) act := by
  simp [run]

/-- Every step of the run is within `rel`. -/
def EveryStep (rel : State S C R J α → State S C R J α → Prop) (s : State S C R J α)
    (acts : List (Action J O V)) : Prop :=
  ∀ pre act post, acts = pre ++ act :: post → rel (sys.run s pre) (sys.run s (pre ++ [act]))

section EveryStep

variable {sys} {rel : State S C R J α → State S C R J α → Prop} {s : State S C R J α}
  {acts acts' : List (Action J O V)}

theorem EveryStep.left (h : sys.EveryStep rel s (acts ++ acts')) : sys.EveryStep rel s acts := by
  intro pre act post heq
  exact h pre act (post ++ acts') (by rw [heq, List.append_assoc, List.cons_append])

theorem EveryStep.last {act : Action J O V} (h : sys.EveryStep rel s (acts ++ [act])) :
    rel (sys.run s acts) (sys.step (sys.run s acts) act) := by
  rw [← run_snoc]
  exact h acts act [] rfl

theorem EveryStep.of_take
    (h : ∀ n < acts.length, rel (sys.run s (acts.take n)) (sys.run s (acts.take (n + 1)))) :
    sys.EveryStep rel s acts := by
  intro pre act post heq
  have hpre : acts.take pre.length = pre := by simp [heq]
  have hact : acts.take (pre.length + 1) = pre ++ [act] := by
    rw [heq, List.take_length_add_append, List.take_succ_cons, List.take_zero]
  have hstep := h pre.length (by simp [heq])
  rwa [hpre, hact] at hstep

end EveryStep

/-- Everything a step can do. -/
inductive Moves (s : State S C R J α) (act : Action J O V) : State S C R J α → Prop
  | stay : Moves s act s
  | start {w : Nat} {j : J} (hw : s.slots w = .idle) :
      Moves s act (s.setSlot w (.busy j (sys.body j)))
  | call {w : Nat} {o : O} {j : J} {c : C} {k : R c → Proc C R α} (hact : act = .call w o)
      (hw : s.slots w = .busy j (.call c k)) : Moves s act (sys.answer s w o j c k)
  | die {w : Nat} {j : J} {rest : Proc C R α} (hw : s.slots w = .busy j rest) :
      Moves s act (s.setSlot w (.dead j))
  | outside {v : V} (hact : act = .outside v) :
      Moves s act { s with shared := sys.outside v s.shared }

theorem step_moves (s : State S C R J α) (act : Action J O V) :
    sys.Moves s act (sys.step s act) := by
  cases act with
  | start w j =>
    cases hw : s.slots w with
    | idle => simpa [step, hw] using Moves.start hw
    | busy j' rest => simpa [step, hw] using Moves.stay
    | dead j' => simpa [step, hw] using Moves.stay
  | call w o =>
    cases hw : s.slots w with
    | idle => simpa [step, hw] using Moves.stay
    | busy j rest =>
      cases rest with
      | ret a => simpa [step, hw] using Moves.stay
      | call c k => simpa [step, hw] using Moves.call rfl hw
    | dead j => simpa [step, hw] using Moves.stay
  | die w =>
    cases hw : s.slots w with
    | idle => simpa [step, hw] using Moves.stay
    | busy j rest => simpa [step, hw] using Moves.die hw
    | dead j => simpa [step, hw] using Moves.stay
  | outside v => exact .outside rfl

end System

/-- The rules between the processes of a system. A process `w` may only make a call for
which it meets the requirement; what the others do around it is within `rely w`, and
what all of them keep is `inv`. Before it starts, `fresh w` holds. -/
structure Discipline (sys : System S C R J O V α) where
  inv : S → Prop
  req : Nat → J → C → S → Prop
  rely : Nat → S → S → Prop
  fresh : Nat → S → Prop
  refl : ∀ w s, rely w s s
  trans : ∀ {w s s' s''}, rely w s s' → rely w s' s'' → rely w s s''
  others : ∀ {w v j o c s}, v ≠ w → req v j c s → rely w s (sys.serve v o c s).1
  around : ∀ {w v s}, rely w s (sys.outside v s)
  fresh_rely : ∀ {w s s'}, fresh w s → rely w s s' → fresh w s'
  inv_serve : ∀ {w j o c s}, inv s → req w j c s → inv (sys.serve w o c s).1
  inv_outside : ∀ {v s}, inv s → inv (sys.outside v s)

namespace Discipline

variable {sys : System S C R J O V α} (D : Discipline sys)

/-- From `s` on, whatever the others do and however the calls are answered, the process
meets the requirement of each of its calls, and `Q` holds where it ends. -/
def Meets (w : Nat) (j : J) : Proc C R β → S → (β → S → Prop) → Prop
  | .ret a, s, Q => ∀ s', D.rely w s s' → D.inv s' → Q a s'
  | .call c k, s, Q => ∀ s', D.rely w s s' → D.inv s' → D.req w j c s' ∧
      ∀ o, Meets w j (k (sys.serve w o c s').2) (sys.serve w o c s').1 Q

variable {D} {w : Nat} {j : J} {s s' : S}

namespace Meets

variable {p : Proc C R β} {Q : β → S → Prop}

theorem of_rely (h : D.Meets w j p s Q) (hrely : D.rely w s s') : D.Meets w j p s' Q := by
  cases p with
  | ret a => exact fun s'' hs'' => h s'' (D.trans hrely hs'')
  | call c k => exact fun s'' hs'' => h s'' (D.trans hrely hs'')

theorem mono {Q' : β → S → Prop} (h : D.Meets w j p s Q) (hQ : ∀ a s', Q a s' → Q' a s') :
    D.Meets w j p s Q' := by
  induction p generalizing s with
  | ret a => exact fun s' hs' hinv => hQ a s' (h s' hs' hinv)
  | call c k ih =>
    intro s' hs' hinv
    obtain ⟨hreq, hk⟩ := h s' hs' hinv
    exact ⟨hreq, fun o => ih _ (hk o)⟩

theorem bind {γ : Type} {f : β → Proc C R γ} {Q : γ → S → Prop}
    (h : D.Meets w j p s fun a s' => D.Meets w j (f a) s' Q) : D.Meets w j (p >>= f) s Q := by
  induction p generalizing s with
  | ret a =>
    -- what is left starts once the invariant is known to hold
    have hf : ∀ s', D.rely w s s' → D.inv s' → D.Meets w j (f a) s' Q := h
    show D.Meets w j (f a) s Q
    cases hp : f a with
    | ret b => exact fun s' hs' hinv => (hp ▸ hf s' hs' hinv) s' (D.refl w s') hinv
    | call c k => exact fun s' hs' hinv => (hp ▸ hf s' hs' hinv) s' (D.refl w s') hinv
  | call c k ih =>
    intro s' hs' hinv
    obtain ⟨hreq, hk⟩ := h s' hs' hinv
    exact ⟨hreq, fun o => ih _ (hk o)⟩

/-- The rule of one call: the requirement is met whatever the others do before, and the
claim about the answer holds whatever they do after. -/
theorem ask {c : C} {Q : R c → S → Prop}
    (h : ∀ s', D.rely w s s' → D.inv s' → D.req w j c s' ∧ ∀ o s'',
      D.rely w (sys.serve w o c s').1 s'' → D.inv s'' → Q (sys.serve w o c s').2 s'') :
    D.Meets w j (Proc.ask c) s Q := h

theorem ret {a : β} (h : ∀ s', D.rely w s s' → D.inv s' → Q a s') :
    D.Meets w j (.ret a : Proc C R β) s Q := h

end Meets

variable (D)

def Kept : Prop := ∀ w j s, D.fresh w s → D.Meets w j (sys.body j) s fun _ _ => True

structure Initial (s : S) : Prop where
  inv : D.inv s
  fresh : ∀ w, D.fresh w s

structure InForce (s : State S C R J α) : Prop where
  inv : D.inv s.shared
  fresh : ∀ w, s.slots w = .idle → D.fresh w s.shared
  meets : ∀ w j rest, s.slots w = .busy j rest → D.Meets w j rest s.shared fun _ _ => True

variable {D}

variable {s : State S C R J α}

theorem Initial.inForce {s : S} (h : D.Initial s) :
    D.InForce (State.init s : State S C R J α) :=
  ⟨h.inv, fun w _ => h.fresh w, fun _ _ _ hw => nomatch hw⟩

theorem InForce.setSlot {x : Slot C R J α} (h : D.InForce s) (hidle : x ≠ .idle)
    (hx : ∀ j rest, x = .busy j rest → D.Meets w j rest s.shared fun _ _ => True) :
    D.InForce (s.setSlot w x) := by
  refine ⟨h.inv, fun v hv => ?_, fun v j rest hv => ?_⟩
  · by_cases hvw : v = w
    · subst hvw
      simp only [State.setSlot, Function.update_self] at hv
      exact absurd hv hidle
    · simp only [State.setSlot, Function.update_of_ne hvw] at hv
      exact h.fresh v hv
  · by_cases hvw : v = w
    · subst hvw
      simp only [State.setSlot, Function.update_self] at hv
      exact hx j rest hv
    · simp only [State.setSlot, Function.update_of_ne hvw] at hv
      exact h.meets v j rest hv

theorem InForce.req {c : C} {k : R c → Proc C R α} (h : D.InForce s)
    (hw : s.slots w = .busy j (.call c k)) : D.req w j c s.shared :=
  (h.meets w j _ hw s.shared (D.refl w _) h.inv).1

theorem InForce.moves (hkept : D.Kept) {s' : State S C R J α} {act : Action J O V}
    (h : D.InForce s) (hm : sys.Moves s act s') : D.InForce s' := by
  cases hm with
  | stay => exact h
  | start hw =>
    refine h.setSlot (by simp) fun j rest hx => ?_
    cases hx
    exact hkept _ _ _ (h.fresh _ hw)
  | call hact hw =>
    rename_i w o j c k
    have hothers : ∀ v, v ≠ w → D.rely v s.shared (sys.serve w o c s.shared).1 := fun v hvw =>
      D.others (Ne.symm hvw) (h.req hw)
    refine ⟨D.inv_serve h.inv (h.req hw), fun v hv => ?_, fun v j' rest hv => ?_⟩
    · by_cases hvw : v = w
      · subst hvw
        simp [System.answer] at hv
      · simp only [System.answer, Function.update_of_ne hvw] at hv
        exact D.fresh_rely (h.fresh v hv) (hothers v hvw)
    · by_cases hvw : v = w
      · subst hvw
        simp only [System.answer, Function.update_self] at hv
        cases hv
        exact (h.meets v j _ hw s.shared (D.refl v _) h.inv).2 o
      · simp only [System.answer, Function.update_of_ne hvw] at hv
        exact (h.meets v j' rest hv).of_rely (hothers v hvw)
  | die hw => exact h.setSlot (by simp) fun j rest hx => nomatch hx
  | outside hact =>
    exact ⟨D.inv_outside h.inv, fun v hv => D.fresh_rely (h.fresh v hv) D.around,
      fun v j rest hv => (h.meets v j rest hv).of_rely D.around⟩

theorem Kept.inForce (hkept : D.Kept) {s : S} (hinit : D.Initial s)
    (acts : List (Action J O V)) : D.InForce (sys.run (State.init s) acts) := by
  induction acts using List.reverseRecOn with
  | nil => exact hinit.inForce
  | append_singleton acts act ih =>
    rw [System.run_snoc]
    exact ih.moves hkept (sys.step_moves _ act)

section Induction

variable {P : State S C R J α → Prop} {s : S}

/-- What holds at some time and is kept by every move, given that the calls meet their
requirements, holds from then on. -/
theorem Kept.later (hkept : D.Kept) (hinit : D.Initial s) (acts : List (Action J O V))
    (h0 : P (sys.run (State.init s) acts))
    (hstep : ∀ {s s' act}, D.InForce s → P s → sys.Moves s act s' → P s')
    (acts' : List (Action J O V)) : P (sys.run (State.init s) (acts ++ acts')) := by
  induction acts' using List.reverseRecOn with
  | nil => rwa [List.append_nil]
  | append_singleton acts' act ih =>
    rw [← List.append_assoc, System.run_snoc]
    exact hstep (hkept.inForce hinit _) ih (sys.step_moves _ act)

theorem Kept.shared_later (hkept : D.Kept) {P : S → Prop} (hinit : D.Initial s)
    (acts : List (Action J O V)) (h0 : P (sys.run (State.init s) acts).shared)
    (hserve : ∀ {w j o c s}, D.inv s → D.req w j c s → P s → P (sys.serve w o c s).1)
    (houtside : ∀ {v s}, P s → P (sys.outside v s)) (acts' : List (Action J O V)) :
    P (sys.run (State.init s) (acts ++ acts')).shared := by
  refine hkept.later (P := fun s => P s.shared) hinit acts h0 ?_ acts'
  intro s s' act hforce hP hm
  cases hm with
  | stay => exact hP
  | start hw => exact hP
  | call hact hw => exact hserve hforce.inv (hforce.req hw) hP
  | die hw => exact hP
  | outside hact => exact houtside hP

theorem Kept.shared_induction (hkept : D.Kept) {P : S → Prop} (hinit : D.Initial s) (h0 : P s)
    (hserve : ∀ {w j o c s}, D.inv s → D.req w j c s → P s → P (sys.serve w o c s).1)
    (houtside : ∀ {v s}, P s → P (sys.outside v s)) (acts : List (Action J O V)) :
    P (sys.run (State.init s) acts).shared :=
  hkept.shared_later hinit [] h0 hserve houtside acts

end Induction

end Discipline

end Monierave.Processes
