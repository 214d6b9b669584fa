import Mathlib.Algebra.Field.Rat
import Mathlib.Tactic.FieldSimp
import Mathlib.Tactic.Ring
import Monierave.Text.Patterns
import Monierave.Unicode.Utf16

/-! # Amounts typed in major units

The three functions on the amount field: what is typed is normalized, checked for a
message, and parsed to minor units.
-/

namespace Monierave.Frontend
open RegularExpression Text Unicode

def dot : UInt16 := 0x2e

def comma : UInt16 := 0x2c

/-- The class `[0-9]`. -/
def digits : List UInt16 := utf16 "0123456789".toList

/-- What `trim` removes: white space and line terminators. -/
def isWhiteSpace (u : UInt16) : Bool :=
  [0x09, 0x0a, 0x0b, 0x0c, 0x0d, 0x20, 0xa0, 0x1680, 0x2028, 0x2029, 0x202f, 0x205f, 0x3000,
    0xfeff].contains u || (0x2000 ≤ u && u ≤ 0x200a)

def trim (value : List UInt16) : List UInt16 := trimWhile isWhiteSpace value

/-- The number `BigInt` reads from digits. -/
def bigInt (s : List UInt16) : Nat := s.foldl (fun n u => 10 * n + (u.toNat - 0x30)) 0

def padEnd (s : List UInt16) (length : Nat) : List UInt16 :=
  s ++ List.replicate (length - s.length) 0x30

def maxSafeInteger : Nat := 2 ^ 53 - 1

def normalizeMajorAmountInput (value : List UInt16) (fractionDigits : Nat) : List UInt16 :=
  let numeric := (value.map fun u => if u = comma then dot else u).filter
    fun u => u ∈ digits ∨ u = dot
  match numeric.splitOn dot with
  | [] => []
  | [whole] => whole
  | whole :: fractionParts => whole ++ dot :: fractionParts.flatten.take fractionDigits

/-- The expression `^[0-9]+(?:\.([0-9]{1,d}))?$`, for at least one place. -/
def amountPattern (fractionDigits : Nat) : RegularExpression UInt16 :=
  oneOrMore (oneOf digits) * optional (char dot * between (oneOf digits) 1 fractionDigits)

def amountParts (normalized : List UInt16) : List UInt16 × List UInt16 :=
  let parts := normalized.splitOn dot
  (parts[0]?.getD [0x30], parts[1]?.getD [])

def parseMajorAmount (value : List UInt16) (fractionDigits : Nat) : Option Nat :=
  let normalized := trim value
  if (amountPattern fractionDigits).rmatch normalized then
    let (whole, fraction) := amountParts normalized
    let minor := bigInt whole * 10 ^ fractionDigits + bigInt (padEnd fraction fractionDigits)
    if minor ≤ 0 ∨ maxSafeInteger < minor then none else some minor
  else none

/-- If `Number(normalized) <= 0`, for digits with at most one dot: the nearest double is zero. -/
def numberIsZero (normalized : List UInt16) : Bool :=
  let (whole, fraction) := amountParts normalized
  bigInt (whole ++ fraction) * 2 ^ 1075 ≤ 10 ^ fraction.length

def majorAmountError (value : List UInt16) (fractionDigits : Nat) : Option String :=
  let normalized := trim value
  if normalized = [] then some "Enter the amount you want to send."
  else if ¬ (oneOrMore (oneOf (digits ++ [dot]))).rmatch normalized ∨
      2 < (normalized.splitOn dot).length then
    some "Enter numbers only, for example 25.00."
  else if fractionDigits < (amountParts normalized).2.length then
    some s!"Use no more than {fractionDigits} decimal places."
  else if ¬ (oneOrMore (oneOf digits) *
      optional (char dot * oneOrMore (oneOf digits))).rmatch normalized then
    some "Enter a complete amount, for example 25.00."
  else if parseMajorAmount normalized fractionDigits = none then
    if numberIsZero normalized then some "Enter an amount greater than 0."
    else some "This amount is too large."
  else none

def Digits (s : List UInt16) : Prop := ∀ u ∈ s, u ∈ digits

variable {s text whole fraction value : List UInt16} {d : Nat}

theorem dot_not_mem (h : Digits s) : dot ∉ s :=
  fun hdot => absurd (h dot hdot) (by decide)

structure AmountText (text whole fraction : List UInt16) : Prop where
  whole_ne : whole ≠ []
  whole_digits : Digits whole
  fraction_digits : Digits fraction
  text_eq : text = if fraction = [] then whole else whole ++ dot :: fraction

theorem splitOn_amountText (h : AmountText text whole fraction) :
    text.splitOn dot = if fraction = [] then [whole] else [whole, fraction] := by
  have hwhole := dot_not_mem h.whole_digits
  rw [h.text_eq]
  split_ifs
  · exact List.splitOn_eq_singleton hwhole
  · rw [List.splitOn_append_cons_self_of_not_mem hwhole,
      List.splitOn_eq_singleton (dot_not_mem h.fraction_digits)]

theorem amountParts_amountText (h : AmountText text whole fraction) :
    amountParts text = (whole, fraction) := by
  unfold amountParts
  rw [splitOn_amountText h]
  by_cases hfraction : fraction = []
  · simp [hfraction]
  · simp [hfraction]

theorem rmatch_iff_amountText {q : RegularExpression UInt16} {P : List UInt16 → Prop}
    (hq : ∀ s, s ∈ q.matches' ↔ s ≠ [] ∧ P s ∧ Digits s) (hnil : P []) :
    (oneOrMore (oneOf digits) * optional (char dot * q)).rmatch text = true ↔
      ∃ whole fraction, AmountText text whole fraction ∧ P fraction := by
  rw [rmatch_iff_matches', mem_separated]
  constructor
  · rintro (h | ⟨whole, hwhole, fraction, hfraction, rfl⟩)
    · obtain ⟨hne, hdigits⟩ := mem_oneOrMore_oneOf.mp h
      exact ⟨text, [], ⟨hne, hdigits, by simp [Digits], by simp⟩, hnil⟩
    · obtain ⟨hne, hdigits⟩ := mem_oneOrMore_oneOf.mp hwhole
      obtain ⟨hfne, hplaces, hfdigits⟩ := (hq fraction).mp hfraction
      exact ⟨whole, fraction, ⟨hne, hdigits, hfdigits, by simp [hfne]⟩, hplaces⟩
  · rintro ⟨whole, fraction, h, hplaces⟩
    have hwhole := mem_oneOrMore_oneOf.mpr ⟨h.whole_ne, h.whole_digits⟩
    by_cases hfraction : fraction = []
    · left
      rwa [h.text_eq, if_pos hfraction]
    · right
      refine ⟨whole, hwhole, fraction, ?_, by rw [h.text_eq, if_neg hfraction]⟩
      exact (hq fraction).mpr ⟨hfraction, hplaces, h.fraction_digits⟩

theorem amountPattern_iff (hd : 1 ≤ d) :
    (amountPattern d).rmatch text = true ↔
      ∃ whole fraction, AmountText text whole fraction ∧ fraction.length ≤ d :=
  rmatch_iff_amountText (fun _ => mem_between_oneOf hd) (Nat.zero_le d)

def amountValue (whole fraction : List UInt16) : ℚ :=
  bigInt whole + bigInt fraction / 10 ^ fraction.length

theorem bigInt_append_zeros (s : List UInt16) (n : Nat) :
    bigInt (s ++ List.replicate n 0x30) = bigInt s * 10 ^ n := by
  induction n with
  | zero => simp
  | succ n ih =>
    rw [List.replicate_succ', ← List.append_assoc, bigInt, List.foldl_append, ← bigInt, ih]
    show 10 * (bigInt s * 10 ^ n) + 0 = _
    ring

theorem minor_eq (whole : List UInt16) (h : fraction.length ≤ d) :
    ((bigInt whole * 10 ^ d + bigInt (padEnd fraction d) : Nat) : ℚ) =
      amountValue whole fraction * 10 ^ d := by
  have hpower : (10 : ℚ) ^ d = 10 ^ fraction.length * 10 ^ (d - fraction.length) := by
    rw [← pow_add, Nat.add_sub_cancel' h]
  have hten : (10 : ℚ) ^ fraction.length ≠ 0 := pow_ne_zero _ (by norm_num)
  rw [padEnd, bigInt_append_zeros, amountValue, add_mul]
  push_cast
  rw [div_mul_eq_mul_div, hpower]
  field_simp

theorem parseMajorAmount_amountText (hd : 1 ≤ d) (h : AmountText (trim value) whole fraction)
    (hlength : fraction.length ≤ d) (n : Nat) :
    parseMajorAmount value d = some n ↔
      amountValue whole fraction * 10 ^ d = n ∧ 1 ≤ n ∧ n ≤ maxSafeInteger := by
  have hmatch := (amountPattern_iff hd).mpr ⟨whole, fraction, h, hlength⟩
  rw [← minor_eq whole hlength, Nat.cast_inj]
  simp only [parseMajorAmount, hmatch, if_true, amountParts_amountText h]
  generalize bigInt whole * 10 ^ d + bigInt (padEnd fraction d) = minor
  split_ifs with hrange
  · constructor
    · intro h
      cases h
    · rintro ⟨rfl, h₁, h₂⟩
      omega
  · rw [Option.some.injEq]
    exact ⟨fun hn => ⟨hn, by omega, by omega⟩, And.left⟩

theorem parseMajorAmount_eq_some_iff (hd : 1 ≤ d) (n : Nat) :
    parseMajorAmount value d = some n ↔
      ∃ whole fraction, AmountText (trim value) whole fraction ∧ fraction.length ≤ d ∧
        amountValue whole fraction * 10 ^ d = n ∧ 1 ≤ n ∧ n ≤ maxSafeInteger := by
  constructor
  · intro h
    have hmatch : (amountPattern d).rmatch (trim value) = true := by
      by_contra hmatch
      simp [parseMajorAmount, hmatch] at h
    obtain ⟨whole, fraction, htext, hlength⟩ := (amountPattern_iff hd).mp hmatch
    exact ⟨whole, fraction, htext, hlength,
      (parseMajorAmount_amountText hd htext hlength n).mp h⟩
  · rintro ⟨whole, fraction, htext, hlength, hn⟩
    exact (parseMajorAmount_amountText hd htext hlength n).mpr hn

theorem amountText_of_isSome (hd : 1 ≤ d) (h : (parseMajorAmount value d).isSome) :
    ∃ whole fraction, AmountText (trim value) whole fraction ∧ fraction.length ≤ d := by
  obtain ⟨n, hn⟩ := Option.isSome_iff_exists.mp h
  obtain ⟨whole, fraction, htext, hlength, -⟩ := (parseMajorAmount_eq_some_iff hd n).mp hn
  exact ⟨whole, fraction, htext, hlength⟩

theorem parseMajorAmount_trim (value : List UInt16) (d : Nat) :
    parseMajorAmount (trim value) d = parseMajorAmount value d := by
  unfold parseMajorAmount
  rw [show trim (trim value) = trim value from trimWhile_trimWhile _ _]

theorem majorAmountError_eq_none_iff (hd : 1 ≤ d) :
    majorAmountError value d = none ↔ (parseMajorAmount value d).isSome := by
  rw [← parseMajorAmount_trim, ← Option.ne_none_iff_isSome]
  constructor
  · intro h
    unfold majorAmountError at h
    dsimp only at h
    split_ifs at h with _ _ _ _ hparse
    exact hparse
  · intro h
    rw [parseMajorAmount_trim, Option.ne_none_iff_isSome] at h
    obtain ⟨whole, fraction, htext, hlength⟩ := amountText_of_isSome hd h
    rw [← parseMajorAmount_trim, ← Option.ne_none_iff_isSome] at h
    have hne : trim value ≠ [] := by
      rw [htext.text_eq]
      split_ifs
      · exact htext.whole_ne
      · simp
    have hclass : (oneOrMore (oneOf (digits ++ [dot]))).rmatch (trim value) = true := by
      rw [rmatch_iff_matches', mem_oneOrMore_oneOf]
      refine ⟨hne, ?_⟩
      intro u hu
      have hwhole := htext.whole_digits u
      have hfraction := htext.fraction_digits u
      rw [htext.text_eq] at hu
      grind
    have hsplit : ¬ 2 < ((trim value).splitOn dot).length := by
      rw [splitOn_amountText htext]
      split_ifs <;> simp
    have hplaces : ¬ d < (amountParts (trim value)).2.length := by
      rw [amountParts_amountText htext]
      exact Nat.not_lt.mpr hlength
    have hcomplete : (oneOrMore (oneOf digits) *
        optional (char dot * oneOrMore (oneOf digits))).rmatch (trim value) = true := by
      refine (rmatch_iff_amountText (P := fun _ => True) ?_ trivial).mpr
        ⟨whole, fraction, htext, trivial⟩
      intro s
      rw [mem_oneOrMore_oneOf, true_and]
      rfl
    simp only [majorAmountError, hne, hclass, hsplit, hplaces, hcomplete, h, not_true_eq_false,
      or_self, if_false]

theorem numeric_eq_self (h : ∀ u ∈ s, u ∈ digits ∨ u = dot) :
    (s.map fun u => if u = comma then dot else u).filter (fun u => u ∈ digits ∨ u = dot) = s := by
  have hcomma : ∀ u ∈ s, (if u = comma then dot else u) = u := by
    intro u hu
    rw [if_neg]
    rintro rfl
    exact absurd (h comma hu) (by decide)
  rw [List.map_congr_left hcomma, List.map_id', List.filter_eq_self]
  exact fun u hu => decide_eq_true (h u hu)

theorem normalizeMajorAmountInput_whole (h : Digits s) (d : Nat) :
    normalizeMajorAmountInput s d = s := by
  unfold normalizeMajorAmountInput
  rw [numeric_eq_self fun u hu => Or.inl (h u hu)]
  dsimp only
  rw [List.splitOn_eq_singleton (dot_not_mem h)]

theorem normalizeMajorAmountInput_fraction (hwhole : Digits whole) (hfraction : Digits fraction)
    (d : Nat) :
    normalizeMajorAmountInput (whole ++ dot :: fraction) d = whole ++ dot :: fraction.take d := by
  have hself : ∀ u ∈ whole ++ dot :: fraction, u ∈ digits ∨ u = dot := by
    intro u hu
    have hwhole := hwhole u
    have hfraction := hfraction u
    grind
  unfold normalizeMajorAmountInput
  rw [numeric_eq_self hself]
  dsimp only
  rw [List.splitOn_append_cons_self_of_not_mem (dot_not_mem hwhole),
    List.splitOn_eq_singleton (dot_not_mem hfraction)]
  simp

theorem normalizeMajorAmountInput_cases (value : List UInt16) (d : Nat) :
    Digits (normalizeMajorAmountInput value d) ∨
      ∃ whole fraction, Digits whole ∧ Digits fraction ∧ fraction.length ≤ d ∧
        normalizeMajorAmountInput value d = whole ++ dot :: fraction := by
  unfold normalizeMajorAmountInput
  dsimp only
  generalize hnumeric : (value.map fun u => if u = comma then dot else u).filter
    (fun u => u ∈ digits ∨ u = dot) = numeric
  have hclass : ∀ u ∈ numeric, u ∈ digits ∨ u = dot := by
    rw [← hnumeric]
    exact fun u hu => of_decide_eq_true (List.mem_filter.mp hu).2
  have hparts : ∀ part ∈ numeric.splitOn dot, Digits part := by
    intro part hpart u hu
    obtain ⟨hmem, hne⟩ := mem_of_mem_splitOn hpart hu
    exact (hclass u hmem).resolve_right hne
  generalize numeric.splitOn dot = parts at hparts
  split
  · exact Or.inl (by simp [Digits])
  · exact Or.inl (hparts _ List.mem_cons_self)
  · next whole fractionParts _ =>
    refine Or.inr ⟨whole, fractionParts.flatten.take d, hparts _ List.mem_cons_self, ?_,
      List.length_take_le _ _, rfl⟩
    intro u hu
    obtain ⟨part, hpart, hupart⟩ := List.mem_flatten.mp (List.mem_of_mem_take hu)
    exact hparts part (List.mem_cons_of_mem _ hpart) u hupart

theorem normalizeMajorAmountInput_idem (value : List UInt16) (d : Nat) :
    normalizeMajorAmountInput (normalizeMajorAmountInput value d) d =
      normalizeMajorAmountInput value d := by
  rcases normalizeMajorAmountInput_cases value d with h | ⟨whole, fraction, hw, hf, hlength, h⟩
  · exact normalizeMajorAmountInput_whole h d
  · rw [h, normalizeMajorAmountInput_fraction hw hf, List.take_of_length_le hlength]

theorem normalizeMajorAmountInput_amountText (h : AmountText text whole fraction)
    (hlength : fraction.length ≤ d) : normalizeMajorAmountInput text d = text := by
  rw [h.text_eq]
  split_ifs
  · exact normalizeMajorAmountInput_whole h.whole_digits d
  · rw [normalizeMajorAmountInput_fraction h.whole_digits h.fraction_digits,
      List.take_of_length_le hlength]

/-- The parser takes exactly the texts of amounts in range and gives their exact value, a
message appears exactly for the others, and the field keeps what the parser takes. -/
theorem majorAmount_agree (value : List UInt16) {d : Nat} (hd : 1 ≤ d) :
    (∀ n, parseMajorAmount value d = some n ↔
        ∃ whole fraction, AmountText (trim value) whole fraction ∧ fraction.length ≤ d ∧
          amountValue whole fraction * 10 ^ d = n ∧ 1 ≤ n ∧ n ≤ 2 ^ 53 - 1) ∧
      (majorAmountError value d = none ↔ (parseMajorAmount value d).isSome) ∧
      normalizeMajorAmountInput (normalizeMajorAmountInput value d) d =
        normalizeMajorAmountInput value d ∧
      (trim value = value → (parseMajorAmount value d).isSome →
        normalizeMajorAmountInput value d = value) := by
  refine ⟨parseMajorAmount_eq_some_iff hd, majorAmountError_eq_none_iff hd,
    normalizeMajorAmountInput_idem value d, ?_⟩
  intro htrim h
  obtain ⟨whole, fraction, htext, hlength⟩ := amountText_of_isSome hd h
  rw [htrim] at htext
  exact normalizeMajorAmountInput_amountText htext hlength

theorem majorAmount_agree_cents :
    parseMajorAmount (utf16 " 0010.5 ".toList) 2 = some 1050 ∧
      majorAmountError (utf16 " 0010.5 ".toList) 2 = none ∧
      normalizeMajorAmountInput (utf16 "0010.5".toList) 2 = utf16 "0010.5".toList := by
  have hparsed : parseMajorAmount (utf16 " 0010.5 ".toList) 2 = some 1050 := by decide +kernel
  have hplain : (parseMajorAmount (utf16 "0010.5".toList) 2).isSome := by decide +kernel
  refine ⟨hparsed, ?_, ?_⟩
  · refine (majorAmount_agree (utf16 " 0010.5 ".toList) (d := 2) (by decide)).2.1.mpr ?_
    rw [hparsed]
    rfl
  · exact (majorAmount_agree (utf16 "0010.5".toList) (by decide)).2.2.2 (by decide +kernel) hplain

end Monierave.Frontend
