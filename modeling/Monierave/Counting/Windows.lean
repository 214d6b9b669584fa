import Mathlib.Algebra.Order.Group.Int
import Mathlib.Data.List.Basic

/-! # Counters that expire

A counter is started by a first hit, counts further hits and expires a fixed time
after the first one; the next hit starts it again.
-/

namespace Monierave.Counting

structure Counter where
  count : ℕ
  expiresAt : Int
  deriving DecidableEq

namespace Counter

def live (now : Int) (c : Option Counter) : Option Counter := c.filter (now < ·.expiresAt)

def hit (window now : Int) (c : Option Counter) : Counter :=
  match live now c with
  | some c => { c with count := c.count + 1 }
  | none => ⟨1, now + window⟩

@[simp] theorem live_none (now : Int) : live now none = none := rfl

theorem live_some_of_lt {now : Int} {c : Counter} (h : now < c.expiresAt) :
    live now (some c) = some c := by simp [live, Option.filter_some, h]

theorem live_some_of_le {now : Int} {c : Counter} (h : c.expiresAt ≤ now) :
    live now (some c) = none := by simp [live, Option.filter_some, Int.not_lt.mpr h]

theorem live_live {now later : Int} (h : now ≤ later) (c : Option Counter) :
    live later (live now c) = live later c := by
  cases c with
  | none => rfl
  | some c =>
    rcases lt_or_ge now c.expiresAt with hnow | hnow
    · rw [live_some_of_lt hnow]
    · rw [live_some_of_le hnow, live_some_of_le (hnow.trans h), live_none]

end Counter

open Counter

/-- One hit, as it is seen from outside: whether it started the counter, and whether it was
passed. -/
structure Hit where
  time : Int
  opened : Bool
  passed : Bool
  deriving DecidableEq

/-- The hits after a state of the counter, the times not decreasing. A hit may also be
turned away without being counted, and an expired counter may be dropped at any time. -/
inductive Logged (limit : ℕ) (window : Int) : Option Counter → List Hit → Prop
  | nil (c : Option Counter) : Logged limit window c []
  | counted {c : Option Counter} {log : List Hit} (t : Int) (hlater : ∀ h ∈ log, t ≤ h.time)
      (hrest : Logged limit window (some (hit window t c)) log) :
      Logged limit window c (⟨t, (live t c).isNone, decide ((hit window t c).count ≤ limit)⟩ :: log)
  | turnedAway {c : Option Counter} {log : List Hit} (t : Int) (hlater : ∀ h ∈ log, t ≤ h.time)
      (hrest : Logged limit window c log) : Logged limit window c (⟨t, false, false⟩ :: log)
  | dropped {c : Option Counter} {log : List Hit} (t : Int) (hlater : ∀ h ∈ log, t ≤ h.time)
      (hrest : Logged limit window (live t c) log) : Logged limit window c log

def passedBefore (t : Int) (log : List Hit) : ℕ := log.countP fun h => h.passed && h.time < t

def passedWithin (s t : Int) (log : List Hit) : ℕ :=
  log.countP fun h => h.passed && (s ≤ h.time && h.time < t)

theorem passedBefore_eq_zero {t : Int} {log : List Hit} (h : ∀ x ∈ log, t ≤ x.time) :
    passedBefore t log = 0 := by
  rw [passedBefore, List.countP_eq_zero]
  intro x hx
  simp [Int.not_lt.mpr (h x hx)]

theorem passedBefore_cons (t : Int) (x : Hit) (log : List Hit) :
    passedBefore t (x :: log) = passedBefore t log + if x.passed ∧ x.time < t then 1 else 0 := by
  rw [passedBefore, List.countP_cons, ← passedBefore]
  simp

theorem passedBefore_mono {s t : Int} (h : s ≤ t) (log : List Hit) :
    passedBefore s log ≤ passedBefore t log := by
  refine List.countP_mono_left fun x _ hx => ?_
  simp only [Bool.and_eq_true, decide_eq_true_eq] at hx ⊢
  exact ⟨hx.1, by omega⟩

namespace Logged

variable {limit : ℕ} {window : Int} {c : Counter} {o : Option Counter} {log : List Hit}

theorem passedBefore_expiresAt (h : Logged limit window (some c) log) :
    passedBefore c.expiresAt log ≤ limit - c.count := by
  generalize ho : some c = o at h
  induction h generalizing c with
  | nil => exact Nat.zero_le _
  | counted t hlater hrest ih =>
    subst ho
    rcases lt_or_ge t c.expiresAt with hlive | hexpired
    · have hhit : hit window t (some c) = { c with count := c.count + 1 } := by
        rw [hit, live_some_of_lt hlive]
      have hrest := ih rfl
      rw [hhit] at hrest
      rw [passedBefore_cons, hhit]
      dsimp only at hrest ⊢
      simp only [decide_eq_true_eq]
      split_ifs <;> omega
    · refine (passedBefore_eq_zero ?_).trans_le (Nat.zero_le _)
      exact List.forall_mem_cons.mpr ⟨hexpired, fun x hx => hexpired.trans (hlater x hx)⟩
  | turnedAway t hlater hrest ih => simpa [passedBefore_cons] using ih ho
  | dropped t hlater hrest ih =>
    subst ho
    rcases lt_or_ge t c.expiresAt with hlive | hexpired
    · exact ih (live_some_of_lt hlive).symm
    · refine (passedBefore_eq_zero ?_).trans_le (Nat.zero_le _)
      exact fun x hx => hexpired.trans (hlater x hx)

theorem passedBefore_start {t : Int} (hstart : live t o = none)
    (hrest : Logged limit window (some (hit window t o)) log) :
    passedBefore (t + window)
      (⟨t, true, decide ((hit window t o).count ≤ limit)⟩ :: log) ≤ limit := by
  have hhit : hit window t o = ⟨1, t + window⟩ := by rw [hit, hstart]
  rw [hhit] at hrest ⊢
  have hbound : passedBefore (t + window) log ≤ limit - 1 := hrest.passedBefore_expiresAt
  rw [passedBefore_cons]
  simp only [decide_eq_true_eq]
  split_ifs <;> omega

def remaining (limit : ℕ) : Option Counter → ℕ
  | some c => limit - c.count
  | none => 0

theorem remaining_live_le (t : Int) : remaining limit (live t o) ≤ remaining limit o := by
  cases o with
  | none => exact le_rfl
  | some c =>
    rcases lt_or_ge t c.expiresAt with hlive | hexpired
    · rw [live_some_of_lt hlive]
    · rw [live_some_of_le hexpired]
      exact Nat.zero_le _

theorem passedBefore_le (h : Logged limit window o log) {t : Int}
    (ht : ∀ x ∈ log, t ≤ x.time + window) :
    passedBefore t log ≤ remaining limit o + limit := by
  induction h with
  | nil => exact Nat.zero_le _
  | @counted o log t' hlater hrest ih =>
    rw [List.forall_mem_cons] at ht
    cases hlive : live t' o with
    | none =>
      have hwithin : t ≤ t' + window := ht.1
      rw [Option.isNone_none]
      refine (passedBefore_mono hwithin _).trans ((passedBefore_start hlive hrest).trans ?_)
      exact Nat.le_add_left _ _
    | some c =>
      have ho : o = some c := (Option.filter_eq_some_iff.mp hlive).1
      have hhit : hit window t' o = { c with count := c.count + 1 } := by rw [hit, hlive]
      have hrest := ih ht.2
      rw [hhit] at hrest ⊢
      rw [passedBefore_cons, ho]
      simp only [remaining, decide_eq_true_eq] at hrest ⊢
      split_ifs <;> omega
  | turnedAway t' hlater hrest ih =>
    rw [List.forall_mem_cons] at ht
    simpa [passedBefore_cons] using ih ht.2
  | dropped t' hlater hrest ih =>
    exact (ih ht).trans (Nat.add_le_add_right (remaining_live_le t') _)

theorem passedBefore_of_opened (h : Logged limit window o log) {pre post : List Hit} {x : Hit}
    (hlog : log = pre ++ x :: post) (hopened : x.opened = true) :
    passedBefore (x.time + window) (x :: post) ≤ limit := by
  induction h generalizing pre with
  | nil => simp at hlog
  | @counted o log t hlater hrest ih =>
    cases pre with
    | nil =>
      cases hlog
      have hnone : live t o = none := Option.isNone_iff_eq_none.mp hopened
      rw [hnone, Option.isNone_none]
      exact passedBefore_start hnone hrest
    | cons y pre =>
      cases hlog
      exact ih rfl
  | turnedAway t hlater hrest ih =>
    cases pre with
    | nil =>
      cases hlog
      cases hopened
    | cons y pre =>
      cases hlog
      exact ih rfl
  | dropped t hlater hrest ih => exact ih hlog

theorem passedWithin_le (h : Logged limit window o log) (s : Int) :
    passedWithin s (s + window) log ≤ 2 * limit := by
  have hlate : ∀ {o : Option Counter} {log : List Hit}, Logged limit window o log →
      (∀ x ∈ log, s ≤ x.time) → passedWithin s (s + window) log ≤ 2 * limit := by
    intro o log h hs
    have hsame : passedWithin s (s + window) log = passedBefore (s + window) log := by
      refine List.countP_congr fun x hx => ?_
      simp [hs x hx]
    have hbound := h.passedBefore_le (t := s + window) fun x hx => by
      have := hs x hx
      omega
    have hremaining : remaining limit o ≤ limit := by
      cases o with
      | none => exact Nat.zero_le _
      | some c => exact Nat.sub_le _ _
    omega
  induction h with
  | nil => exact Nat.zero_le _
  | @counted o log t hlater hrest ih =>
    rcases lt_or_ge t s with hearly | hfrom
    · rw [passedWithin, List.countP_cons_of_neg, ← passedWithin]
      · exact ih
      · simp [Int.not_le.mpr hearly]
    · refine hlate (Logged.counted t hlater hrest) ?_
      exact List.forall_mem_cons.mpr ⟨hfrom, fun x hx => hfrom.trans (hlater x hx)⟩
  | turnedAway t hlater hrest ih =>
    rw [passedWithin, List.countP_cons_of_neg (by simp), ← passedWithin]
    exact ih
  | dropped t hlater hrest ih => exact ih

end Logged

end Monierave.Counting
