import Mathlib.Data.List.Chain
import Mathlib.Data.List.Induction
import Mathlib.Logic.Function.Basic

/-! # Audit trails written by row triggers

A table whose trigger appends an entry to a log for an inserted row, and for an
updated row if it has something to say about the change.
-/

namespace Monierave.Auditing

variable {κ ρ ε τ σ : Type}

structure Trigger (τ ρ ε : Type) where
  inserted : τ → ρ → ε
  updated : τ → ρ → ρ → Option ε

structure Entry (κ ε : Type) where
  id : Nat
  key : κ
  body : ε
  deriving DecidableEq

structure Audited (κ ρ ε : Type) where
  rows : κ → Option ρ
  log : List (Entry κ ε) := []
  nextID : Nat := 1

/-- A statement on the row with a key; `draw` stands for others that take a number. -/
inductive Statement (κ ρ τ : Type)
  | insert (time : τ) (k : κ) (r : ρ)
  | update (time : τ) (k : κ) (change : ρ → Option ρ)
  | draw

/-- The statement inserts rows that meet `starts`, or changes rows within `steps`. -/
def Statement.Within (starts : ρ → Prop) (steps : ρ → ρ → Prop) : Statement κ ρ τ → Prop
  | .insert _ _ r => starts r
  | .update _ _ change => ∀ o r, change o = some r → steps o r
  | .draw => True

namespace Audited

def empty : Audited κ ρ ε := { rows := fun _ => none }

def append (k : κ) (body : Option ε) (s : Audited κ ρ ε) : Audited κ ρ ε :=
  match body with
  | none => s
  | some e => { s with log := s.log ++ [⟨s.nextID, k, e⟩], nextID := s.nextID + 1 }

variable [DecidableEq κ] (T : Trigger τ ρ ε)

/-- An insertion fails if the row is there, and an update of a row that is not there or
does not meet its condition changes nothing. -/
def step (s : Audited κ ρ ε) : Statement κ ρ τ → Audited κ ρ ε
  | .insert time k r =>
    match s.rows k with
    | some _ => s
    | none => { s.append k (T.inserted time r) with rows := Function.update s.rows k (some r) }
  | .update time k change =>
    match s.rows k with
    | none => s
    | some o =>
      match change o with
      | none => s
      | some r => { s.append k (T.updated time o r) with rows := Function.update s.rows k (some r) }
  | .draw => { s with nextID := s.nextID + 1 }

def run (statements : List (Statement κ ρ τ)) : Audited κ ρ ε := statements.foldl (step T) empty

def trail (k : κ) (s : Audited κ ρ ε) : List ε :=
  (s.log.filter fun entry => entry.key = k).map Entry.body

variable {T} {s : Audited κ ρ ε} {k k' : κ} {body : Option ε}

theorem trail_append_self : (s.append k body).trail k = s.trail k ++ body.toList := by
  cases body <;> simp [append, trail]

theorem trail_append_of_ne (h : k' ≠ k) : (s.append k body).trail k' = s.trail k' := by
  cases body <;> simp [append, trail, h.symm]

structure Numbered (s : Audited κ ρ ε) : Prop where
  sorted : s.log.Pairwise fun a b => a.id < b.id
  below : ∀ entry ∈ s.log, entry.id < s.nextID

omit [DecidableEq κ] in
theorem Numbered.append (h : s.Numbered) : (s.append k body).Numbered := by
  cases body with
  | none => exact h
  | some e =>
    refine ⟨List.pairwise_append.mpr ⟨h.sorted, List.pairwise_singleton _ _, ?_⟩, ?_⟩
    · intro a ha b hb
      rw [List.mem_singleton.mp hb]
      exact h.below a ha
    · intro entry hentry
      rcases List.mem_append.mp hentry with hold | hnew
      · exact Nat.lt_succ_of_lt (h.below entry hold)
      · rw [List.mem_singleton.mp hnew]
        exact Nat.lt_succ_self _

theorem Numbered.step (h : s.Numbered) (statement : Statement κ ρ τ) :
    (step T s statement).Numbered := by
  cases statement with
  | insert time k r =>
    rw [Audited.step]
    split
    · exact h
    · exact ⟨h.append.sorted, h.append.below⟩
  | update time k change =>
    rw [Audited.step]
    split
    · exact h
    · split
      · exact h
      · exact ⟨h.append.sorted, h.append.below⟩
  | draw => exact ⟨h.sorted, fun entry hentry => Nat.lt_succ_of_lt (h.below entry hentry)⟩

theorem numbered_run (statements : List (Statement κ ρ τ)) : (run T statements).Numbered := by
  induction statements using List.reverseRecOn with
  | nil => exact ⟨List.Pairwise.nil, fun _ hentry => nomatch hentry⟩
  | append_singleton statements statement ih =>
    rw [run, List.foldl_append]
    exact ih.step statement

variable {P : ρ → List ε → Prop} {starts : ρ → Prop} {steps : ρ → ρ → Prop}

/-- There is no trail without a row, and `P` holds of a row with its trail. -/
structure Traced (P : ρ → List ε → Prop) (s : Audited κ ρ ε) : Prop where
  none : ∀ k, s.rows k = none → s.trail k = []
  some : ∀ k r, s.rows k = some r → P r (s.trail k)

theorem Traced.write (h : Traced P s) {r : ρ} (hP : P r (s.trail k ++ body.toList)) :
    Traced P { s.append k body with rows := Function.update s.rows k (.some r) } := by
  have hother : ∀ {k'}, k' ≠ k → Function.update s.rows k (.some r) k' = s.rows k' :=
    fun hk => Function.update_of_ne hk _ _
  refine ⟨fun k' hnone => ?_, fun k' r' hsome => ?_⟩
  · by_cases hk : k' = k
    · subst hk
      simp at hnone
    · exact (trail_append_of_ne hk).trans (h.none k' ((hother hk).symm.trans hnone))
  · by_cases hk : k' = k
    · subst hk
      simp only [Function.update_self, Option.some.injEq] at hsome
      subst hsome
      have htrail : (s.append k' body).trail k' = s.trail k' ++ body.toList := trail_append_self
      exact htrail ▸ hP
    · have htrail : (s.append k body).trail k' = s.trail k' := trail_append_of_ne hk
      exact htrail ▸ h.some k' r' ((hother hk).symm.trans hsome)

theorem Traced.step (hinsert : ∀ time r, starts r → P r [T.inserted time r])
    (hupdate : ∀ time o r es, steps o r → P o es → P r (es ++ (T.updated time o r).toList))
    (h : Traced P s) {statement : Statement κ ρ τ} (hwithin : statement.Within starts steps) :
    Traced P (step T s statement) := by
  cases statement with
  | insert time k r =>
    rw [Audited.step]
    split
    · exact h
    · rename_i hrow
      refine h.write ?_
      rw [h.none k hrow]
      exact hinsert time r hwithin
  | update time k change =>
    rw [Audited.step]
    split
    · exact h
    · rename_i o hrow
      split
      · exact h
      · rename_i r hchange
        exact h.write (hupdate time o r _ (hwithin o r hchange) (h.some k o hrow))
  | draw => exact ⟨h.none, h.some⟩

/-- What holds of a new row with its first entry and is kept by every change holds of a
row with its trail after any statements. -/
theorem traced_run (hinsert : ∀ time r, starts r → P r [T.inserted time r])
    (hupdate : ∀ time o r es, steps o r → P o es → P r (es ++ (T.updated time o r).toList))
    {statements : List (Statement κ ρ τ)}
    (hwithin : ∀ statement ∈ statements, statement.Within starts steps) :
    Traced P (run T statements) := by
  induction statements using List.reverseRecOn with
  | nil => exact ⟨fun _ _ => rfl, fun _ _ hsome => nomatch hsome⟩
  | append_singleton statements statement ih =>
    rw [List.forall_mem_append, List.forall_mem_singleton] at hwithin
    rw [run, List.foldl_append]
    exact (ih hwithin.1).step hinsert hupdate hwithin.2

end Audited

/-- Pairs of a state left and a state entered that lead from the initial state, entered
from none, to the present one. -/
structure Replays (initial present : σ) (moves : List (Option σ × Option σ)) : Prop where
  first : moves.head? = some (none, some initial)
  linked : moves.IsChain fun a b => b.1 = a.2
  last : moves.getLast?.map Prod.snd = some (some present)

namespace Replays

variable {initial present next : σ} {moves : List (Option σ × Option σ)}

theorem start : Replays initial initial [(none, some initial)] :=
  ⟨rfl, List.isChain_singleton _, rfl⟩

theorem snoc (h : Replays initial present moves) :
    Replays initial next (moves ++ [(some present, some next)]) := by
  refine ⟨?_, ?_, by simp⟩
  · rw [List.head?_append, h.first]
    rfl
  · refine List.isChain_append.mpr ⟨h.linked, List.isChain_singleton _, ?_⟩
    intro a ha b hb
    have hlast := h.last
    rw [Option.mem_def.mp ha] at hlast
    cases hb
    simpa using hlast.symm

end Replays

/-- An entry tells the state the row has left and the one it has entered, and there is one
whenever the state changes. -/
structure TellsState (T : Trigger τ ρ ε) (state : ρ → σ) (ends : ε → Option σ × Option σ)
    (initial : σ) (starts : ρ → Prop) (steps : ρ → ρ → Prop) : Prop where
  inserted : ∀ time r, starts r →
    state r = initial ∧ ends (T.inserted time r) = (none, some initial)
  silent : ∀ time o r, steps o r → T.updated time o r = none → state r = state o
  updated : ∀ time o r e, steps o r → T.updated time o r = some e →
    ends e = (some (state o), some (state r))

structure TellsCount (T : Trigger τ ρ ε) (count : ρ → Nat) (number : ε → Option Nat)
    (starts : ρ → Prop) (steps : ρ → ρ → Prop) : Prop where
  inserted : ∀ time r, starts r → count r = 0 ∧ number (T.inserted time r) = none
  updated : ∀ time o r, steps o r →
    (count r = count o ∧ (T.updated time o r).bind number = none) ∨
      (count r = count o + 1 ∧ (T.updated time o r).bind number = some (count r))

section Trails

variable [DecidableEq κ] {T : Trigger τ ρ ε} {starts : ρ → Prop} {steps : ρ → ρ → Prop}
  {statements : List (Statement κ ρ τ)} {k : κ} {r : ρ}

theorem TellsState.replays {state : ρ → σ} {ends : ε → Option σ × Option σ} {initial : σ}
    (h : TellsState T state ends initial starts steps)
    (hwithin : ∀ statement ∈ statements, statement.Within starts steps)
    (hrow : (Audited.run T statements).rows k = some r) :
    Replays initial (state r) (((Audited.run T statements).trail k).map ends) := by
  refine (Audited.traced_run (T := T) (P := fun r es => Replays initial (state r) (es.map ends))
    ?_ ?_ hwithin).some k r hrow
  · intro time r hr
    obtain ⟨hstate, hends⟩ := h.inserted time r hr
    rw [List.map_singleton, hstate, hends]
    exact .start
  · intro time o r es hstep hreplays
    cases hupdated : T.updated time o r with
    | none =>
      rw [Option.toList_none, List.append_nil, h.silent time o r hstep hupdated]
      exact hreplays
    | some e =>
      rw [Option.toList_some, List.map_append, List.map_singleton,
        h.updated time o r e hstep hupdated]
      exact hreplays.snoc

theorem TellsCount.numbers {count : ρ → Nat} {number : ε → Option Nat}
    (h : TellsCount T count number starts steps)
    (hwithin : ∀ statement ∈ statements, statement.Within starts steps)
    (hrow : (Audited.run T statements).rows k = some r) :
    ((Audited.run T statements).trail k).filterMap number = List.range' 1 (count r) := by
  refine (Audited.traced_run (T := T)
    (P := fun r es => es.filterMap number = List.range' 1 (count r)) ?_ ?_ hwithin).some k r hrow
  · intro time r hr
    obtain ⟨hcount, hnumber⟩ := h.inserted time r hr
    rw [hcount, List.filterMap_cons_none hnumber]
    rfl
  · intro time o r es hstep hnumbers
    have hnew : (T.updated time o r).toList.filterMap number =
        ((T.updated time o r).bind number).toList := by
      cases T.updated time o r with
      | none => rfl
      | some e => cases hnumber : number e <;> simp [hnumber]
    rw [List.filterMap_append, hnumbers, hnew]
    rcases h.updated time o r hstep with ⟨hcount, hnone⟩ | ⟨hcount, hsome⟩
    · rw [hnone, hcount, Option.toList_none, List.append_nil]
    · rw [hsome, hcount, Option.toList_some, List.range'_1_concat, Nat.add_comm 1]

end Trails

end Monierave.Auditing
