import Mathlib.Data.List.Chain
import Mathlib.Data.List.MinMax
import Mathlib.Order.Defs.LinearOrder

/-! # Registers written by dated reports

A register holds a status and the time of the report it was taken from.
-/

namespace Monierave.Timestamped

variable {S T : Type} [LinearOrder T]

structure Report (S T : Type) where
  status : S
  time : T

structure Register (S T : Type) where
  status : S
  time : Option T

namespace Register

variable (follows : S → S → Bool)

def admits (r : Register S T) (e : Report S T) : Bool :=
  r.time.all (fun t => decide (t < e.time)) && follows r.status e.status

def take (r : Register S T) (e : Report S T) : Register S T :=
  if r.admits follows e then ⟨e.status, some e.time⟩ else r

def preset (z : S) (r : Register S T) : Register S T :=
  match r.time with
  | none => ⟨z, none⟩
  | some _ => r

variable {follows} {r : Register S T} {e : Report S T}

theorem admits_iff : r.admits follows e = true ↔
    (∀ t, r.time = some t → t < e.time) ∧ follows r.status e.status = true := by
  cases h : r.time <;> simp [admits, h]

theorem take_of_admits (h : r.admits follows e = true) : r.take follows e = ⟨e.status, some e.time⟩ :=
  if_pos h

theorem take_of_not_admits (h : ¬ r.admits follows e = true) : r.take follows e = r := if_neg h

end Register

section History

variable {follows : S → S → Bool} {start z : S} {es done : List (Report S T)}
  {r : Register S T} {e : Report S T}

/-- A history of changes from `start` on: the times increase and each status may
follow the one before. -/
structure History (follows : S → S → Bool) (start : S) (es : List (Report S T)) : Prop where
  first : ∀ e ∈ es.head?, follows start e.status = true
  steps : es.IsChain fun e e' => e.time < e'.time ∧ follows e.status e'.status = true

/-- What the statuses must satisfy. The status `z` to which a register may be preset
comes directly after `start` only, and whatever may follow `start` may follow `z`. -/
structure Ordered (follows : S → S → Bool) (start z : S) : Prop where
  trans : ∀ {a b c}, follows a b = true → follows b c = true → follows a c = true
  irrefl : ∀ a, ¬ follows a a = true
  preset : ∀ {a}, follows start a = true → a = z ∨ follows z a = true
  before : ∀ {a}, follows a z = true → a = start

theorem History.pairwise (h : History follows start es) (ho : Ordered follows start z) :
    es.Pairwise fun e e' => e.time < e'.time ∧ follows e.status e'.status = true := by
  have : IsTrans (Report S T) fun e e' => e.time < e'.time ∧ follows e.status e'.status = true :=
    ⟨fun _ _ _ hab hbc => ⟨hab.1.trans hbc.1, ho.trans hab.2 hbc.2⟩⟩
  exact h.steps.pairwise

theorem History.follows_start (h : History follows start es) (ho : Ordered follows start z)
    (he : e ∈ es) : follows start e.status = true := by
  have hpair := h.pairwise ho
  cases es with
  | nil => cases he
  | cons d es =>
    have hd := h.first d rfl
    rcases List.mem_cons.mp he with rfl | he
    · exact hd
    · exact ho.trans hd (List.rel_of_pairwise_cons hpair he).2

theorem History.compare (h : History follows start es) (ho : Ordered follows start z)
    {d : Report S T} (hd : d ∈ es) (he : e ∈ es) :
    d = e ∨ (d.time < e.time ∧ follows d.status e.status = true) ∨
      (e.time < d.time ∧ follows e.status d.status = true) := by
  have hpair := h.pairwise ho
  clear h
  induction es with
  | nil => cases hd
  | cons a es ih =>
    rw [List.pairwise_cons] at hpair
    rcases List.mem_cons.mp hd with rfl | hd'
    · rcases List.mem_cons.mp he with rfl | he'
      · exact Or.inl rfl
      · exact Or.inr (Or.inl (hpair.1 e he'))
    · rcases List.mem_cons.mp he with rfl | he'
      · exact Or.inr (Or.inr (hpair.1 d hd'))
      · exact ih hd' he' hpair.2

theorem History.follows_of_lt (h : History follows start es) (ho : Ordered follows start z)
    {d : Report S T} (hd : d ∈ es) (he : e ∈ es) (hlt : d.time < e.time) :
    follows d.status e.status = true := by
  rcases h.compare ho hd he with rfl | hde | hed
  · exact absurd hlt (lt_irrefl _)
  · exact hde.2
  · exact absurd (hlt.trans hed.1) (lt_irrefl _)

theorem History.lt_of_status (h : History follows start es) (ho : Ordered follows start z)
    {d : Report S T} (hd : d ∈ es) (he : e ∈ es) (hz : d.status = z) (hne : e.status ≠ z) :
    d.time < e.time := by
  rcases h.compare ho hd he with rfl | hde | hed
  · exact absurd hz hne
  · exact hde.1
  · -- what comes before `z` is the start, and the start does not follow itself
    have hbefore := hed.2
    rw [hz] at hbefore
    have hstart := h.follows_start ho he
    rw [ho.before hbefore] at hstart
    exact absurd hstart (ho.irrefl start)

/-- Where the register is once the reports `done` have arrived, in whatever order. -/
inductive Tracks (start z : S) (es done : List (Report S T)) (r : Register S T) : Prop
  | unset (hr : r = ⟨start, none⟩) (hdone : done = [])
  | preset (hr : r = ⟨z, none⟩) (hdone : ∀ d ∈ done, d ∈ es ∧ d.status = z)
  | taken (e : Report S T) (he : e ∈ es) (hr : r = ⟨e.status, some e.time⟩)
      (hdone : ∀ d ∈ done, d.time ≤ e.time)

theorem Tracks.take (h : Tracks start z es done r) (hist : History follows start es)
    (ho : Ordered follows start z) (he : e ∈ es) :
    Tracks start z es (e :: done) (r.take follows e) := by
  cases h with
  | unset hr hdone =>
    subst hr hdone
    rw [Register.take_of_admits (Register.admits_iff.mpr ⟨by simp, hist.follows_start ho he⟩)]
    exact .taken e he rfl (by simp)
  | preset hr hdone =>
    subst hr
    by_cases hz : e.status = z
    · rw [Register.take_of_not_admits]
      · exact .preset rfl (List.forall_mem_cons.mpr ⟨⟨he, hz⟩, hdone⟩)
      · rw [Register.admits_iff, hz]
        exact fun hadm => ho.irrefl z hadm.2
    · have hfollows := (ho.preset (hist.follows_start ho he)).resolve_left hz
      rw [Register.take_of_admits (Register.admits_iff.mpr ⟨by simp, hfollows⟩)]
      refine .taken e he rfl (List.forall_mem_cons.mpr ⟨le_refl _, fun d hd => ?_⟩)
      exact (hist.lt_of_status ho (hdone d hd).1 he (hdone d hd).2 hz).le
  | taken e₀ he₀ hr hdone =>
    subst hr
    by_cases hlt : e₀.time < e.time
    · have hfollows := hist.follows_of_lt ho he₀ he hlt
      rw [Register.take_of_admits (Register.admits_iff.mpr ⟨by simpa using hlt, hfollows⟩)]
      exact .taken e he rfl (List.forall_mem_cons.mpr
        ⟨le_refl _, fun d hd => (hdone d hd).trans hlt.le⟩)
    · rw [Register.take_of_not_admits]
      · exact .taken e₀ he₀ rfl (List.forall_mem_cons.mpr ⟨not_lt.mp hlt, hdone⟩)
      · rw [Register.admits_iff]
        exact fun hadm => hlt (hadm.1 _ rfl)

theorem Tracks.of_preset (h : Tracks start z es done r) : Tracks start z es done (r.preset z) := by
  cases h with
  | unset hr hdone =>
    subst hr hdone
    exact .preset rfl (by simp)
  | preset hr hdone =>
    subst hr
    exact .preset rfl hdone
  | taken e he hr hdone =>
    subst hr
    exact .taken e he rfl hdone

theorem Tracks.again (h : Tracks start z es done r) (he : e ∈ done) :
    Tracks start z es (e :: done) r := by
  cases h with
  | unset hr hdone =>
    subst hdone
    cases he
  | preset hr hdone => exact .preset hr (List.forall_mem_cons.mpr ⟨hdone e he, hdone⟩)
  | taken e₀ he₀ hr hdone => exact .taken e₀ he₀ hr (List.forall_mem_cons.mpr ⟨hdone e he, hdone⟩)

theorem Tracks.status (h : Tracks start z es done r) (hist : History follows start es)
    (ho : Ordered follows start z) (hall : ∀ e ∈ es, e ∈ done) (he : es.getLast? = some e) :
    r.status = e.status := by
  have hmem : e ∈ es := List.mem_of_getLast? he
  cases h with
  | unset hr hdone =>
    subst hdone
    cases hall e hmem
  | preset hr hdone =>
    subst hr
    exact (hdone e (hall e hmem)).2.symm
  | taken e₀ he₀ hr hdone =>
    subst hr
    -- nothing in a history comes after its last report
    have hlast : e₀.time ≤ e.time := by
      obtain ⟨before, rfl⟩ := List.getLast?_eq_some_iff.mp he
      rcases List.mem_append.mp he₀ with hbefore | hlast
      · exact ((List.pairwise_append.mp (hist.pairwise ho)).2.2 e₀ hbefore e (by simp)).1.le
      · rw [List.mem_singleton.mp hlast]
    rcases hist.compare ho he₀ hmem with rfl | hlt | hgt
    · rfl
    · exact absurd (hdone e (hall e hmem)) (not_le.mpr hlt.1)
    · exact absurd hlast (not_le.mpr hgt.1)

end History

/-! ## A status that is never given up

Any status may follow any other, except that nothing but `z` follows `z`. -/

section Sticky

variable [DecidableEq S] {z : S} {es : List (Report S T)} {r : Register S T} {e : Report S T}

def sticky (z a b : S) : Bool := decide (a ≠ z ∨ b = z)

def arrive (z : S) (r : Register S T) (es : List (Report S T)) : Register S T :=
  es.foldl (Register.take (sticky z)) r

def Report.fresh (e : Report S T) (r : Register S T) : Prop := ∀ t, r.time = some t → t < e.time

@[simp] theorem arrive_cons : arrive z r (e :: es) = arrive z (r.take (sticky z) e) es := rfl

theorem admits_sticky : r.admits (sticky z) e = true ↔ e.fresh r ∧ (r.status ≠ z ∨ e.status = z) := by
  simp [Register.admits_iff, sticky, Report.fresh]

theorem arrive_of_status (h : r.status = z) : (arrive z r es).status = z := by
  induction es generalizing r with
  | nil => exact h
  | cons e es ih =>
    apply ih
    by_cases hadm : r.admits (sticky z) e = true
    · rw [Register.take_of_admits hadm]
      exact (admits_sticky.mp hadm).2.resolve_left (not_not.mpr h)
    · rwa [Register.take_of_not_admits hadm]

/-- There is a fresh report of `z` after which no other status is reported. -/
def LastWord (z : S) (r : Register S T) (es : List (Report S T)) : Prop :=
  ∃ e ∈ es, e.status = z ∧ e.fresh r ∧ ∀ d ∈ es, d.status ≠ z → d.time < e.time

theorem arrive_of_lastWord (h : LastWord z r es) : (arrive z r es).status = z := by
  obtain ⟨e, he, hz, hfresh, hlast⟩ := h
  induction es generalizing r with
  | nil => cases he
  | cons d es ih =>
    rw [arrive_cons]
    by_cases hadm : r.admits (sticky z) d = true
    · rw [Register.take_of_admits hadm]
      by_cases hd : d.status = z
      · exact arrive_of_status hd
      · -- the report of `z` is still to come and is newer than this one
        have hlt := hlast d List.mem_cons_self hd
        have he' : e ∈ es := (List.mem_cons.mp he).resolve_left fun h => hd (h ▸ hz)
        refine ih he' ?_ fun d' hd' => hlast d' (List.mem_cons_of_mem d hd')
        intro t ht
        rw [← Option.some.inj ht]
        exact hlt
    · rw [Register.take_of_not_admits hadm]
      rcases List.mem_cons.mp he with rfl | he'
      · exact absurd (admits_sticky.mpr ⟨hfresh, Or.inr hz⟩) hadm
      · exact ih he' hfresh fun d' hd' => hlast d' (List.mem_cons_of_mem d hd')

theorem arrive_ne (hr : r.status ≠ z) (h : ∀ e ∈ es, e.status = z → ¬ e.fresh r) :
    (arrive z r es).status ≠ z := by
  induction es generalizing r with
  | nil => exact hr
  | cons d es ih =>
    rw [arrive_cons]
    by_cases hadm : r.admits (sticky z) d = true
    · rw [Register.take_of_admits hadm]
      have hfresh := (admits_sticky.mp hadm).1
      refine ih (fun hd => h d List.mem_cons_self hd hfresh) fun e he hz hfresh' => ?_
      refine h e (List.mem_cons_of_mem d he) hz fun t ht => ?_
      exact (hfresh t ht).trans (hfresh' d.time rfl)
    · rw [Register.take_of_not_admits hadm]
      exact ih hr fun e he => h e (List.mem_cons_of_mem d he)

/-- If the last word is not a report of `z`, then either no order ends with `z`, or
none that begins with a certain report. -/
theorem exists_order_ne (hr : r.status ≠ z) (h : ¬ LastWord z r es) :
    (∀ es', (∀ e ∈ es', e ∈ es) → (arrive z r es').status ≠ z) ∨
      ∃ m ∈ es, ∀ es', (∀ e ∈ es', e ∈ es) → (arrive z r (m :: es')).status ≠ z := by
  by_cases hfresh : ∃ e ∈ es, e.status = z ∧ e.fresh r
  · right
    obtain ⟨e₀, he₀, hz₀, hfresh₀⟩ := hfresh
    -- the newest report of another status
    have hother : ∀ e ∈ es, e.status = z → e.fresh r → ∃ d ∈ es, d.status ≠ z ∧ e.time ≤ d.time := by
      intro e he hz hf
      by_contra hnone
      refine h ⟨e, he, hz, hf, fun d hd hdz => ?_⟩
      by_contra hlt
      exact hnone ⟨d, hd, hdz, not_lt.mp hlt⟩
    obtain ⟨d₀, hd₀, hdz₀, hle₀⟩ := hother e₀ he₀ hz₀ hfresh₀
    have hmem₀ : d₀ ∈ es.filter fun d => decide (d.status ≠ z) := by simpa using ⟨hd₀, hdz₀⟩
    obtain ⟨m, hm⟩ : ∃ m, m ∈ (es.filter fun d => decide (d.status ≠ z)).argmax Report.time :=
      Option.ne_none_iff_exists'.mp fun hnone => by
        rw [List.argmax_eq_none] at hnone
        rw [hnone] at hmem₀
        cases hmem₀
    have hmax : ∀ d ∈ es, d.status ≠ z → d.time ≤ m.time := fun d hd hdz =>
      List.le_of_mem_argmax (by simpa using ⟨hd, hdz⟩) hm
    have hmes := List.argmax_mem hm
    rw [List.mem_filter, decide_eq_true_iff] at hmes
    refine ⟨m, hmes.1, fun es' hsub => ?_⟩
    have hmfresh : m.fresh r := fun t ht => (hfresh₀ t ht).trans_le (hle₀.trans (hmax d₀ hd₀ hdz₀))
    rw [arrive_cons, Register.take_of_admits (admits_sticky.mpr ⟨hmfresh, Or.inl hr⟩)]
    refine arrive_ne hmes.2 fun e he hz hf => ?_
    -- a fresh report of `z` would be newer than the newest other report
    have hfr : e.fresh r := fun t ht => (hmfresh t ht).trans (hf m.time rfl)
    obtain ⟨d, hd, hdz, hle⟩ := hother e (hsub e he) hz hfr
    exact absurd (hf m.time rfl) (not_lt.mpr (hle.trans (hmax d hd hdz)))
  · left
    intro es' hsub
    exact arrive_ne hr fun e he hz hf => hfresh ⟨e, hsub e he, hz, hf⟩

/-! Where `z` is not reported at all, the newest report counts. -/

theorem arrive_of_stale (h : ∀ e ∈ es, ¬ e.fresh r) : arrive z r es = r := by
  induction es with
  | nil => rfl
  | cons d es ih =>
    rw [List.forall_mem_cons] at h
    rw [arrive_cons, Register.take_of_not_admits, ih h.2]
    exact fun hadm => h.1 (admits_sticky.mp hadm).1

theorem arrive_of_newest {m : Report S T} (hr : r.status ≠ z) (hz : ∀ e ∈ es, e.status ≠ z)
    (hnewest : ∀ e ∈ es, e = m ∨ e.time < m.time)
    (h : (m ∈ es ∧ m.fresh r) ∨ r = ⟨m.status, some m.time⟩) :
    (arrive z r es).status = m.status := by
  induction es generalizing r with
  | nil =>
    rcases h with ⟨hm, _⟩ | rfl
    · cases hm
    · rfl
  | cons d es ih =>
    rw [List.forall_mem_cons] at hz hnewest
    rw [arrive_cons]
    by_cases hadm : r.admits (sticky z) d = true
    · rw [Register.take_of_admits hadm]
      refine ih hz.1 hz.2 hnewest.2 ?_
      rcases hnewest.1 with rfl | hlt
      · exact Or.inr rfl
      · rcases h with ⟨hm, _⟩ | rfl
        · refine Or.inl ⟨(List.mem_cons.mp hm).resolve_left ?_, ?_⟩
          · rintro rfl
            exact lt_irrefl _ hlt
          · intro t ht
            rwa [← Option.some.inj ht]
        · exact absurd ((admits_sticky.mp hadm).1 m.time rfl) (not_lt.mpr hlt.le)
    · rw [Register.take_of_not_admits hadm]
      refine ih hr hz.2 hnewest.2 ?_
      rcases h with ⟨hm, hfresh⟩ | hm
      · refine Or.inl ⟨(List.mem_cons.mp hm).resolve_left ?_, hfresh⟩
        rintro rfl
        exact hadm (admits_sticky.mpr ⟨hfresh, Or.inl hr⟩)
      · exact Or.inr hm

theorem arrive_status_congr {es' : List (Report S T)} (hr : r.status ≠ z)
    (hz : ∀ e ∈ es, e.status ≠ z) (htimes : es.Pairwise fun a b => a.time ≠ b.time)
    (hmem : ∀ e, e ∈ es' ↔ e ∈ es) : (arrive z r es').status = (arrive z r es).status := by
  have hz' : ∀ e ∈ es', e.status ≠ z := fun e he => hz e ((hmem e).mp he)
  cases hm : es.argmax Report.time with
  | none =>
    rw [List.argmax_eq_none] at hm
    have hm' : es' = [] := List.eq_nil_iff_forall_not_mem.mpr fun e he => by
      simpa [hm] using (hmem e).mp he
    rw [hm, hm']
  | some m =>
    have hmes := List.argmax_mem hm
    have hnewest : ∀ e ∈ es, e = m ∨ e.time < m.time := by
      intro e he
      rcases (List.le_of_mem_argmax he hm).lt_or_eq with hlt | heq
      · exact Or.inr hlt
      · left
        by_contra hne
        have : Std.Symm fun a b : Report S T => a.time ≠ b.time := ⟨fun _ _ h => h.symm⟩
        exact htimes.forall he hmes hne heq
    by_cases hfresh : m.fresh r
    · rw [arrive_of_newest hr hz hnewest (Or.inl ⟨hmes, hfresh⟩),
        arrive_of_newest hr hz' (fun e he => hnewest e ((hmem e).mp he))
          (Or.inl ⟨(hmem m).mpr hmes, hfresh⟩)]
    · -- the newest report is stale, so all of them are
      have hstale : ∀ e ∈ es, ¬ e.fresh r := by
        intro e he hf
        refine hfresh fun t ht => (hf t ht).trans_le (List.le_of_mem_argmax he hm)
      rw [arrive_of_stale hstale, arrive_of_stale fun e he => hstale e ((hmem e).mp he)]

end Sticky

end Monierave.Timestamped
