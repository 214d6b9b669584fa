import Mathlib.Algebra.BigOperators.Group.List.Basic
import Mathlib.Algebra.Ring.Nat
import Mathlib.Tactic.Common

/-! # Days and dates

The Gregorian calendar, extended to the past: days are numbered from the first day
of a year that begins a cycle of 400 years, so that a leap year is the last of four
years, of a century or of a cycle.
-/

namespace Monierave.Calendar

/-- A year that comes last of four, unless it is the last of a century that is not the last
of a cycle. -/
def isLeap (year : Nat) : Bool :=
  (year + 1) % 4 = 0 && ((year + 1) % 100 ≠ 0 || (year + 1) % 400 = 0)

def monthLengths (leap : Bool) : List Nat :=
  [31, if leap then 29 else 28, 31, 30, 31, 30, 31, 31, 30, 31, 30, 31]

def daysToYear (year : Nat) : Nat := 365 * year + year / 4 - year / 100 + year / 400

structure Date where
  year : Nat
  month : Nat
  day : Nat
  deriving DecidableEq

namespace Date

def lengths (date : Date) : List Nat := monthLengths (isLeap date.year)

def isValid (date : Date) : Bool :=
  date.lengths[date.month]?.any fun length => decide (date.day < length)

theorem bounds_of_isValid {date : Date} (h : date.isValid = true) :
    date.month < 12 ∧ date.day < 31 := by
  rw [isValid, Option.any_eq_true] at h
  obtain ⟨length, hlength, hday⟩ := h
  have hmem : length ∈ date.lengths := List.mem_of_getElem? hlength
  have hall : ∀ leap, ∀ length ∈ monthLengths leap, length ≤ 31 := by decide
  exact ⟨(List.getElem?_eq_some_iff.mp hlength).1,
    Nat.lt_of_lt_of_le (of_decide_eq_true hday) (hall _ length hmem)⟩

def number (date : Date) : Nat :=
  daysToYear date.year + (date.lengths.take date.month).sum + date.day

end Date

def yearOf (n : Nat) : Nat × Nat :=
  let cycle := n / 146097
  let century := min (n % 146097 / 36524) 3
  let inCentury := n % 146097 - 36524 * century
  let inFour := inCentury % 1461
  let year := min (inFour / 365) 3
  (400 * cycle + 100 * century + 4 * (inCentury / 1461) + year, inFour - 365 * year)

def locate : List Nat → Nat → Nat × Nat
  | [], i => (0, i)
  | length :: lengths, i =>
    if i < length then (0, i)
    else ((locate lengths (i - length)).1 + 1, (locate lengths (i - length)).2)

def dateOf (n : Nat) : Date :=
  let yearDay := yearOf n
  let monthDay := locate (monthLengths (isLeap yearDay.1)) yearDay.2
  ⟨yearDay.1, monthDay.1, monthDay.2⟩

theorem locate_spec {lengths : List Nat} {i : Nat} (h : i < lengths.sum) :
    (∃ length, lengths[(locate lengths i).1]? = some length ∧ (locate lengths i).2 < length) ∧
      (lengths.take (locate lengths i).1).sum + (locate lengths i).2 = i := by
  induction lengths generalizing i with
  | nil => simp at h
  | cons length lengths ih =>
    rw [locate]
    split
    · rename_i hlt
      exact ⟨⟨length, rfl, hlt⟩, by simp⟩
    · rename_i hge
      rw [List.sum_cons] at h
      obtain ⟨hpart, hsum⟩ := ih (i := i - length) (by omega)
      refine ⟨by simpa using hpart, ?_⟩
      rw [List.take_succ_cons, List.sum_cons]
      omega

theorem sum_monthLengths (leap : Bool) : (monthLengths leap).sum = if leap then 366 else 365 := by
  cases leap <;> rfl

structure Place (cycle century four year : Nat) : Prop where
  century : century ≤ 3
  four : four ≤ 24
  year : year ≤ 3

theorem Place.daysToYear {c e f y : Nat} (h : Place c e f y) :
    daysToYear (400 * c + 100 * e + 4 * f + y) = 146097 * c + 36524 * e + 1461 * f + 365 * y := by
  obtain ⟨he, hf, hy⟩ := h
  have hfours : (400 * c + 100 * e + 4 * f + y) / 4 = 100 * c + 25 * e + f := by omega
  have hcenturies : (400 * c + 100 * e + 4 * f + y) / 100 = 4 * c + e := by omega
  have hcycles : (400 * c + 100 * e + 4 * f + y) / 400 = c := by omega
  rw [Calendar.daysToYear, hfours, hcenturies, hcycles]
  omega

theorem Place.isLeap_iff {c e f y : Nat} (h : Place c e f y) :
    isLeap (400 * c + 100 * e + 4 * f + y) = true ↔ y = 3 ∧ (f = 24 → e = 3) := by
  obtain ⟨he, hf, hy⟩ := h
  simp only [isLeap, Bool.and_eq_true, Bool.or_eq_true, decide_eq_true_eq]
  omega

theorem yearOf_spec (n : Nat) :
    daysToYear (yearOf n).1 + (yearOf n).2 = n ∧
      (yearOf n).2 < if isLeap (yearOf n).1 then 366 else 365 := by
  obtain ⟨c, hc⟩ : ∃ c, c = n / 146097 := ⟨_, rfl⟩
  obtain ⟨e, he⟩ : ∃ e, e = min (n % 146097 / 36524) 3 := ⟨_, rfl⟩
  obtain ⟨i, hi⟩ : ∃ i, i = n % 146097 - 36524 * e := ⟨_, rfl⟩
  obtain ⟨f, hf⟩ : ∃ f, f = i / 1461 := ⟨_, rfl⟩
  obtain ⟨y, hy⟩ : ∃ y, y = min (i % 1461 / 365) 3 := ⟨_, rfl⟩
  have hyear : yearOf n = (400 * c + 100 * e + 4 * f + y, i % 1461 - 365 * y) := by
    rw [yearOf, hc, hy, hf, hi, he]
  have hcentury : e ≤ 3 ∧ i + 36524 * e + 146097 * c = n ∧ i ≤ 36524 ∧ (i = 36524 → e = 3) := by
    omega
  obtain ⟨he3, hn, hi36524, hlast⟩ := hcentury
  have hplace : Place c e f y := ⟨he3, by omega, by omega⟩
  rw [hyear]
  refine ⟨?_, ?_⟩
  · rw [hplace.daysToYear]
    omega
  · have hleap := hplace.isLeap_iff
    split
    · omega
    · rename_i hnot
      rw [hleap] at hnot
      omega

theorem dateOf_spec (n : Nat) : (dateOf n).isValid = true ∧ (dateOf n).number = n := by
  obtain ⟨hnumber, hday⟩ := yearOf_spec n
  rw [← sum_monthLengths] at hday
  obtain ⟨⟨length, hlength, hlt⟩, hsum⟩ := locate_spec hday
  have hvalid : (dateOf n).isValid = true := by
    rw [Date.isValid, Date.lengths, dateOf, hlength]
    exact decide_eq_true hlt
  refine ⟨hvalid, ?_⟩
  rw [Date.number, Nat.add_assoc]
  exact (congrArg (daysToYear (yearOf n).1 + ·) hsum).trans hnumber

end Monierave.Calendar
