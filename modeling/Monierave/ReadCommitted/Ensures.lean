import Monierave.ReadCommitted.Program

/-! # Pre- and postconditions of transaction programs

What holds of the answer of an uninterrupted run and of the position it ends in,
with one rule for each construct of the program.
-/

namespace Monierave.ReadCommitted

variable {W DB K E α β : Type} [Storage W DB K]

structure Position (W DB K : Type) where
  own : List W
  db : DB
  held : List K

namespace Position

def start (db : DB) : Position W DB K := ⟨[], db, []⟩

/-- The position after a statement or a whole run, which took `locks` in all. -/
def after (s : Position W DB K) (writes : List W) (locks : List K) : Position W DB K :=
  ⟨s.own ++ writes, view writes s.db, s.held ++ locks⟩

@[simp] theorem after_own (s : Position W DB K) (ws : List W) (ks : List K) :
    (s.after ws ks).own = s.own ++ ws := rfl

@[simp] theorem after_db (s : Position W DB K) (ws : List W) (ks : List K) :
    (s.after ws ks).db = view ws s.db := rfl

@[simp] theorem after_held (s : Position W DB K) (ws : List W) (ks : List K) :
    (s.after ws ks).held = s.held ++ ks := rfl

@[simp] theorem after_nil (s : Position W DB K) : s.after [] [] = s := by
  simp [after]

theorem after_after (s : Position W DB K) (ws ws' : List W) (ks ks' : List K) :
    (s.after ws ks).after ws' ks' = s.after (ws ++ ws') (ks ++ ks') := by
  simp [after, view_append]

structure Extends (s s' : Position W DB K) : Prop where
  own : ∀ w ∈ s.own, w ∈ s'.own
  held : ∀ k ∈ s.held, k ∈ s'.held

omit [Storage W DB K] in
theorem Extends.refl (s : Position W DB K) : s.Extends s := ⟨fun _ h => h, fun _ h => h⟩

omit [Storage W DB K] in
theorem Extends.trans {s s' s'' : Position W DB K} (h : s.Extends s') (h' : s'.Extends s'') :
    s.Extends s'' :=
  ⟨fun w hw => h'.own w (h.own w hw), fun k hk => h'.held k (h.held k hk)⟩

theorem extends_after (s : Position W DB K) (ws : List W) (ks : List K) :
    s.Extends (s.after ws ks) :=
  ⟨fun _ h => List.mem_append_left _ h, fun _ h => List.mem_append_left _ h⟩

end Position

namespace Prog

/-- Every run of `p` from `s` that succeeds ends with an answer and in a position
of which `Q` holds. -/
structure Ensures (p : Prog W DB K E α) (s : Position W DB K) (Q : α → Position W DB K → Prop) :
    Prop where
  of_ok : ∀ d, p.run s.own s.db = .ok d → Q d.result (s.after d.writes d.locks)

namespace Ensures

variable {s : Position W DB K}

variable {p : Prog W DB K E α} {Q Q' : α → Position W DB K → Prop} {e : E}

theorem of_run {db : DB} (h : Ensures p (.start db) Q) {d : Effect W K α}
    (hrun : p.run [] db = .ok d) : Q d.result ⟨d.writes, view d.writes db, d.locks⟩ := by
  simpa [Position.after, Position.start] using h.of_ok d hrun

theorem ret {a : α} (h : Q a s) : Ensures (Prog.ret a : Prog W DB K E α) s Q := by
  refine ⟨fun d hd => ?_⟩
  cases hd
  simpa using h

theorem bind {f : α → Prog W DB K E β} {Q : β → Position W DB K → Prop}
    (h : Ensures p s fun a s' => Ensures (f a) s' Q) : Ensures (p >>= f) s Q := by
  refine ⟨fun d hd => ?_⟩
  obtain ⟨d₁, d₂, h₁, h₂, rfl⟩ := run_bind_ok.mp hd
  have := (h.of_ok d₁ h₁).of_ok d₂ h₂
  rwa [Position.after_after] at this

theorem mono (h : Ensures p s Q) (hQ : ∀ a s', Q a s' → Q' a s') : Ensures p s Q' :=
  ⟨fun d hd => hQ _ _ (h.of_ok d hd)⟩

theorem and (h : Ensures p s Q) (h' : Ensures p s Q') : Ensures p s fun a s' => Q a s' ∧ Q' a s' :=
  ⟨fun d hd => ⟨h.of_ok d hd, h'.of_ok d hd⟩⟩

theorem call {q : Stmt W DB K E α}
    (h : ∀ eff, q.exec s.own s.db = .ok eff → Q eff.result (s.after eff.writes eff.claims)) :
    Ensures (Prog.call q) s Q := by
  refine ⟨fun d hd => ?_⟩
  obtain ⟨eff, hs, rfl⟩ := run_call_ok.mp hd
  exact h eff hs

theorem fetch {q : Stmt W DB K E (Option α)}
    (h : ∀ eff a, q.exec s.own s.db = .ok eff → eff.result = some a →
      Q a (s.after eff.writes eff.claims)) : Ensures (Prog.fetch e q) s Q := by
  refine ⟨fun d hd => ?_⟩
  obtain ⟨eff, a, hs, ha, rfl⟩ := run_fetch_ok.mp hd
  exact h eff a hs ha

theorem refuse {c : Prop} [Decidable c] {Q : Unit → Position W DB K → Prop} (h : ¬ c → Q () s) :
    Ensures (Prog.refuse c e) s Q := by
  refine ⟨fun d hd => ?_⟩
  obtain ⟨hc, rfl⟩ := run_refuse_ok.mp hd
  simpa using h hc

theorem found {o : Option α} (h : ∀ a, o = some a → Q a s) : Ensures (Prog.found e o) s Q := by
  refine ⟨fun d hd => ?_⟩
  obtain ⟨a, ha, rfl⟩ := run_found_ok.mp hd
  simpa using h a ha

theorem ofExcept {x : Except E α} (h : ∀ a, x = .ok a → Q a s) : Ensures (Prog.ofExcept x) s Q := by
  refine ⟨fun d hd => ?_⟩
  obtain ⟨a, ha, rfl⟩ := run_ofExcept_ok.mp hd
  simpa using h a ha

end Ensures

end Prog

end Monierave.ReadCommitted
