import Mathlib.Data.List.DropRight
import Monierave.Calendar.Dates

/-! # Instants as texts

The form of RFC 3339 for instants in UTC, with the nanoseconds that are not zero,
and the instants that such texts are read as.
-/

namespace Monierave.Calendar

def digits : Nat → Nat → List Char
  | 0, _ => []
  | width + 1, n => digits width (n / 10) ++ [Nat.digitChar (n % 10)]

def digitValue (c : Char) : Nat := c.toNat - '0'.toNat

def value (cs : List Char) : Nat := cs.foldl (fun n c => 10 * n + digitValue c) 0

theorem digitValue_digitChar : ∀ d < 10, digitValue (Nat.digitChar d) = d := by decide

theorem isDigit_digitChar : ∀ d < 10, (Nat.digitChar d).isDigit = true := by decide

@[simp] theorem length_digits (width n : Nat) : (digits width n).length = width := by
  induction width generalizing n with
  | zero => rfl
  | succ width ih => simp [digits, ih]

theorem isDigit_of_mem_digits {width n : Nat} {c : Char} (h : c ∈ digits width n) :
    c.isDigit = true := by
  induction width generalizing n with
  | zero => cases h
  | succ width ih =>
    rcases List.mem_append.mp h with h | h
    · exact ih h
    · rw [List.mem_singleton.mp h]
      exact isDigit_digitChar _ (Nat.mod_lt n (by decide))

theorem value_snoc (cs : List Char) (c : Char) : value (cs ++ [c]) = 10 * value cs + digitValue c := by
  simp [value]

theorem value_digits {width n : Nat} (h : n < 10 ^ width) : value (digits width n) = n := by
  induction width generalizing n with
  | zero =>
    have hn : n = 0 := by simpa using h
    simp [digits, value, hn]
  | succ width ih =>
    rw [digits, value_snoc, ih (by rw [Nat.pow_succ] at h; omega),
      digitValue_digitChar _ (Nat.mod_lt n (by decide))]
    omega

theorem value_append_zeros (cs : List Char) (k : Nat) :
    value (cs ++ List.replicate k '0') = value cs * 10 ^ k := by
  induction k with
  | zero => simp
  | succ k ih =>
    have hzero : digitValue '0' = 0 := rfl
    rw [List.replicate_succ', ← List.append_assoc, value_snoc, ih, hzero, Nat.add_zero,
      Nat.mul_left_comm, Nat.pow_succ']

def readNumber (width : Nat) (s : List Char) : Option (Nat × List Char) :=
  if width ≤ s.length ∧ (s.take width).all Char.isDigit then
    some (value (s.take width), s.drop width)
  else none

def readChar (c : Char) : List Char → Option (List Char)
  | [] => none
  | c' :: s => if c' = c then some s else none

def readFraction (s : List Char) : Nat × List Char :=
  match s with
  | '.' :: c :: rest =>
    if c.isDigit then
      let cs := ((c :: rest).takeWhile Char.isDigit).take 9
      (value cs * 10 ^ (9 - cs.length), (c :: rest).dropWhile Char.isDigit)
    else (0, s)
  | _ => (0, s)

theorem readNumber_digits {width n : Nat} (h : n < 10 ^ width) (rest : List Char) :
    readNumber width (digits width n ++ rest) = some (n, rest) := by
  have htake : (digits width n ++ rest).take width = digits width n :=
    List.take_left' (length_digits width n)
  have hdrop : (digits width n ++ rest).drop width = rest :=
    List.drop_left' (length_digits width n)
  have hcond : width ≤ (digits width n ++ rest).length ∧ (digits width n).all Char.isDigit = true :=
    ⟨by simp, List.all_eq_true.mpr fun c hc => isDigit_of_mem_digits hc⟩
  rw [readNumber, htake, hdrop, if_pos hcond, value_digits h]

@[simp] theorem readChar_cons (c : Char) (s : List Char) : readChar c (c :: s) = some s := by
  simp [readChar]

def fraction (nanos : Nat) : List Char :=
  if nanos = 0 then [] else '.' :: (digits 9 nanos).rdropWhile (· = '0')

theorem value_rdropWhile (cs : List Char) :
    value (cs.rdropWhile (· = '0')) * 10 ^ (cs.length - (cs.rdropWhile (· = '0')).length) =
      value cs := by
  have hsplit := List.rdropWhile_append_rtakeWhile (p := (· = '0')) (l := cs)
  have hzeros : cs.rtakeWhile (· = '0') = List.replicate (cs.rtakeWhile (· = '0')).length '0' :=
    List.eq_replicate_iff.mpr ⟨rfl, fun c hc => by simpa using List.mem_rtakeWhile_imp hc⟩
  have hlength := congrArg List.length hsplit
  rw [List.length_append] at hlength
  have hcount : cs.length - (cs.rdropWhile (· = '0')).length = (cs.rtakeWhile (· = '0')).length := by
    omega
  rw [hcount, ← value_append_zeros, ← hzeros, hsplit]

theorem readFraction_fraction {nanos : Nat} (h : nanos < 10 ^ 9) {c : Char} (hc : c.isDigit = false)
    (hdot : c ≠ '.') (rest : List Char) :
    readFraction (fraction nanos ++ c :: rest) = (nanos, c :: rest) := by
  by_cases hzero : nanos = 0
  · subst hzero
    rw [fraction, if_pos rfl, List.nil_append, readFraction]
    intro d ds heq
    cases heq
    exact hdot rfl
  · have hvalue := value_rdropWhile (digits 9 nanos)
    rw [value_digits h, length_digits] at hvalue
    rw [fraction, if_neg hzero]
    have hinit : (digits 9 nanos).rdropWhile (· = '0') <+: digits 9 nanos :=
      List.rdropWhile_prefix _ _
    have hlength := hinit.length_le
    rw [length_digits] at hlength
    have hdigits : ∀ d ∈ (digits 9 nanos).rdropWhile (· = '0'), d.isDigit = true := fun d hd =>
      isDigit_of_mem_digits (hinit.subset hd)
    generalize (digits 9 nanos).rdropWhile (· = '0') = ds at *
    cases ds with
    | nil =>
      rw [value, List.foldl_nil, Nat.zero_mul] at hvalue
      exact absurd hvalue.symm hzero
    | cons d ds =>
      have htake : (d :: ds ++ c :: rest).takeWhile Char.isDigit = d :: ds := by
        rw [List.takeWhile_append_of_pos hdigits, List.takeWhile_cons_of_neg (by simp [hc]),
          List.append_nil]
      have hdrop : (d :: ds ++ c :: rest).dropWhile Char.isDigit = c :: rest := by
        rw [List.dropWhile_append_of_pos hdigits, List.dropWhile_cons_of_neg (by simp [hc])]
      simp only [List.cons_append] at htake hdrop ⊢
      rw [readFraction, if_pos (hdigits d List.mem_cons_self), htake, hdrop,
        List.take_of_length_le hlength]
      exact congrArg (·, c :: rest) hvalue

def nanosPerSecond : Nat := 10 ^ 9

def nanosPerDay : Nat := 86400 * nanosPerSecond

def yearZero : Nat := 399

def unixEpoch : Nat := daysToYear (1970 + yearZero) * nanosPerDay

def dateTime (date : Date) (seconds : Nat) : List Char :=
  digits 4 (date.year - yearZero) ++ '-' :: (digits 2 (date.month + 1) ++
    '-' :: (digits 2 (date.day + 1) ++ 'T' :: (digits 2 (seconds / 3600) ++
      ':' :: (digits 2 (seconds / 60 % 60) ++ ':' :: digits 2 (seconds % 60)))))

def inRange (date : Date) : Bool :=
  yearZero ≤ date.year && date.year < 10000 + yearZero

def format (t : Int) : Option (List Char) :=
  if t + unixEpoch < 0 then none
  else
    let n := (t + unixEpoch).toNat
    let date := dateOf (n / nanosPerDay)
    let nanos := n % nanosPerDay
    if inRange date then
      some (dateTime date (nanos / nanosPerSecond) ++ (fraction (nanos % nanosPerSecond) ++ ['Z']))
    else none

def instant (date : Date) (seconds nanos : Nat) : Int :=
  Int.ofNat (date.number * nanosPerDay + seconds * nanosPerSecond + nanos) - Int.ofNat unixEpoch

def parse (s : List Char) : Option Int := do
  let (year, s) ← readNumber 4 s
  let s ← readChar '-' s
  let (month, s) ← readNumber 2 s
  let s ← readChar '-' s
  let (day, s) ← readNumber 2 s
  let s ← readChar 'T' s
  let (hour, s) ← readNumber 2 s
  let s ← readChar ':' s
  let (minute, s) ← readNumber 2 s
  let s ← readChar ':' s
  let (second, s) ← readNumber 2 s
  let (nanos, s) := readFraction s
  let s ← readChar 'Z' s
  let date : Date := ⟨year + yearZero, month - 1, day - 1⟩
  if s = [] ∧ 1 ≤ month ∧ 1 ≤ day ∧ date.isValid ∧ hour < 24 ∧ minute < 60 ∧ second < 60 then
    some (instant date (3600 * hour + 60 * minute + second) nanos)
  else none

theorem parse_dateTime {date : Date} (hvalid : date.isValid = true) (hrange : inRange date = true)
    {seconds nanos : Nat} (hseconds : seconds < 86400) (hnanos : nanos < nanosPerSecond) :
    parse (dateTime date seconds ++ (fraction nanos ++ ['Z'])) =
      some (instant date seconds nanos) := by
  obtain ⟨hmonth, hday⟩ := Date.bounds_of_isValid hvalid
  simp only [inRange, Bool.and_eq_true, decide_eq_true_eq] at hrange
  have hyear : date.year - yearZero < 10 ^ 4 := by omega
  have hmonth' : date.month + 1 < 10 ^ 2 := by omega
  have hday' : date.day + 1 < 10 ^ 2 := by omega
  have hhour : seconds / 3600 < 10 ^ 2 := by omega
  have hminute : seconds / 60 % 60 < 10 ^ 2 := by omega
  have hsecond : seconds % 60 < 10 ^ 2 := by omega
  have hdate : (⟨date.year - yearZero + yearZero, date.month + 1 - 1, date.day + 1 - 1⟩ : Date) =
      date := by
    rw [Nat.sub_add_cancel hrange.1, Nat.add_sub_cancel, Nat.add_sub_cancel]
  have htime : 3600 * (seconds / 3600) + 60 * (seconds / 60 % 60) + seconds % 60 = seconds := by
    omega
  have hfraction : readFraction (fraction nanos ++ ['Z']) = (nanos, ['Z']) :=
    readFraction_fraction hnanos rfl (by decide) []
  simp only [dateTime, List.append_assoc, List.cons_append, parse, readNumber_digits hyear,
    readNumber_digits hmonth', readNumber_digits hday', readNumber_digits hhour,
    readNumber_digits hminute, readNumber_digits hsecond, readChar_cons, hfraction, hdate, htime,
    Option.bind_eq_bind, Option.bind_some]
  rw [if_pos]
  exact ⟨trivial, by omega, by omega, hvalid, by omega, by omega, by omega⟩

theorem parse_format {t : Int} {s : List Char} (h : format t = some s) : parse s = some t := by
  rw [format] at h
  split at h
  · cases h
  · rename_i hpos
    simp only at h
    split at h
    · rename_i hrange
      cases h
      obtain ⟨hvalid, hnumber⟩ := dateOf_spec ((t + unixEpoch).toNat / nanosPerDay)
      have hn : ((t + unixEpoch).toNat : Int) = t + unixEpoch := Int.toNat_of_nonneg (by omega)
      generalize (t + unixEpoch).toNat = n at *
      have hseconds : n % nanosPerDay / nanosPerSecond < 86400 := by
        simp only [nanosPerDay, nanosPerSecond]
        omega
      rw [parse_dateTime hvalid hrange hseconds (Nat.mod_lt _ (by decide)), instant, hnumber]
      have hsum : n / nanosPerDay * nanosPerDay +
          n % nanosPerDay / nanosPerSecond * nanosPerSecond +
            n % nanosPerDay % nanosPerSecond = n := by
        simp only [nanosPerDay, nanosPerSecond]
        omega
      rw [hsum, Int.ofNat_eq_natCast, hn, Int.ofNat_eq_natCast, add_sub_cancel_right]
    · cases h

example : format 1767323045123456000 = some "2026-01-02T03:04:05.123456Z".toList := by
  decide +kernel

end Monierave.Calendar
