import Mathlib.Data.List.Basic
import Mathlib.Tactic.Common

/-! # Amounts in emails

`formatFinancialAmount` writes an amount in minor units with its currency, two
decimals and commas between groups of three digits.
-/

namespace Monierave

/-- The magnitude of an amount, as an unsigned number. The smallest amount has no negation. -/
def magnitude (amount : Int64) : UInt64 :=
  if amount < 0 then (-(amount + 1)).toUInt64 + 1 else amount.toUInt64

def insertComma (position : Nat) (digits : List Char) : List Char :=
  digits.take position ++ ',' :: digits.drop position

/-- The loop of `formatGroupedInteger`, from a position on that goes down by three. -/
def insertCommas : Nat → List Char → List Char
  | 0, digits => digits
  | position + 3, digits => insertCommas position (insertComma (position + 3) digits)
  | position, digits => insertComma position digits

def formatGroupedInteger (value : UInt64) : List Char :=
  let digits := Nat.toDigits 10 value.toNat
  insertCommas (digits.length - 3) digits

def formatFinancialAmount (amount : Int64) (currency : String) : String :=
  if currency = "" then ""
  else
    let major := formatGroupedInteger (magnitude amount / 100)
    let cents := (Nat.toDigits 10 (magnitude amount % 100).toNat).leftpad 2 '0'
    let formatted := currency.toList ++ ' ' :: (major ++ '.' :: cents)
    String.ofList (if amount < 0 then '-' :: formatted else formatted)

/-- Digits in groups of three, counted from the right, with a comma before each of them
that is not the first. -/
structure Grouped (text digits : List Char) : Prop where
  split : ∃ first groups, text = first ++ List.flatMap (',' :: ·) groups ∧
    digits = first ++ groups.flatten ∧ first ≠ [] ∧ first.length ≤ 3 ∧ ∀ g ∈ groups, g.length = 3

theorem Grouped.snoc {text front group digits : List Char} (h : Grouped text front)
    (hgroup : group.length = 3) (hdigits : front ++ group = digits) :
    Grouped (text ++ ',' :: group) digits := by
  obtain ⟨first, groups, rfl, rfl, hfirst, hlength, hgroups⟩ := h.split
  refine ⟨first, groups ++ [group], by simp, by simp [← hdigits], hfirst, hlength, ?_⟩
  intro g hg
  rcases List.mem_append.mp hg with hg | hg
  · exact hgroups g hg
  · rwa [List.mem_singleton.mp hg]

theorem insertComma_append (front rest : List Char) :
    insertComma front.length (front ++ rest) = front ++ ',' :: rest := by
  simp [insertComma]

theorem insertCommas_append (front rest : List Char) (hfront : front ≠ []) :
    ∃ text, Grouped text front ∧
      insertCommas front.length (front ++ rest) = text ++ ',' :: rest := by
  induction h : front.length using Nat.strongRecOn generalizing front rest with
  | ind n ih =>
    subst h
    have hpos := List.length_pos_of_ne_nil hfront
    by_cases hshort : front.length ≤ 3
    · refine ⟨front, ⟨front, [], by simp, by simp, hfront, hshort, by simp⟩, ?_⟩
      rw [← insertComma_append]
      have hlength : front.length = 1 ∨ front.length = 2 ∨ front.length = 3 := by omega
      rcases hlength with h | h | h <;> simp [h, insertCommas]
    · obtain ⟨k, hk⟩ : ∃ k, front.length = k + 3 := ⟨front.length - 3, by omega⟩
      -- the last three digits go to the rest
      have htake : (front.take k).length = k := List.length_take_of_le (by omega)
      have hdrop : (front.drop k).length = 3 := by rw [List.length_drop]; omega
      have hne : front.take k ≠ [] := List.ne_nil_of_length_pos (by omega)
      obtain ⟨text, htext, hcommas⟩ :=
        ih k (by omega) (front.take k) (front.drop k ++ ',' :: rest) hne htake
      refine ⟨_, htext.snoc hdrop (List.take_append_drop k front), ?_⟩
      have hsplit : front ++ ',' :: rest = front.take k ++ (front.drop k ++ ',' :: rest) := by
        rw [← List.append_assoc, List.take_append_drop]
      rw [hk, insertCommas, ← hk, insertComma_append, hsplit, hcommas]
      simp

theorem grouped_formatGroupedInteger (value : UInt64) :
    Grouped (formatGroupedInteger value) (Nat.toDigits 10 value.toNat) := by
  unfold formatGroupedInteger
  dsimp only
  have hne : Nat.toDigits 10 value.toNat ≠ [] := Nat.toDigits_ne_nil
  generalize Nat.toDigits 10 value.toNat = digits at hne
  by_cases hshort : digits.length ≤ 3
  · rw [Nat.sub_eq_zero_of_le hshort, insertCommas]
    exact ⟨digits, [], by simp, by simp, hne, hshort, by simp⟩
  · have hlength : (digits.take (digits.length - 3)).length = digits.length - 3 :=
      List.length_take_of_le (Nat.sub_le _ _)
    obtain ⟨text, htext, hcommas⟩ := insertCommas_append (digits.take (digits.length - 3))
      (digits.drop (digits.length - 3)) (List.ne_nil_of_length_pos (by omega))
    rw [hlength, List.take_append_drop] at hcommas
    rw [hcommas]
    exact htext.snoc (by rw [List.length_drop]; omega) (List.take_append_drop _ _)

theorem Grouped.filter {text digits : List Char} (h : Grouped text digits) {p : Char → Bool}
    (hdigits : ∀ c ∈ digits, p c = true) (hcomma : p ',' = false) : text.filter p = digits := by
  obtain ⟨first, groups, rfl, rfl, -, -, -⟩ := h.split
  have hgroups : ∀ g ∈ groups, ∀ c ∈ g, p c = true := fun g hg c hc =>
    hdigits c (List.mem_append_right _ (List.mem_flatten.mpr ⟨g, hg, hc⟩))
  have hfirst : first.filter p = first :=
    List.filter_eq_self.mpr fun c hc => hdigits c (List.mem_append_left _ hc)
  rw [List.filter_append, hfirst, List.append_cancel_left_eq]
  clear h hdigits hfirst
  induction groups with
  | nil => rfl
  | cons g groups ih =>
    rw [List.forall_mem_cons] at hgroups
    rw [List.flatMap_cons, List.filter_append, ih hgroups.2, List.flatten_cons,
      List.filter_cons_of_neg (by simp [hcomma]), List.filter_eq_self.mpr hgroups.1]

theorem toNat_magnitude (amount : Int64) : (magnitude amount).toNat = amount.toInt.natAbs := by
  have hleast := amount.le_toInt
  have hmost := amount.toInt_lt
  have hzero : (0 : Int64).toInt = 0 := by decide
  have hone : (1 : Int64).toInt = 1 := by decide
  unfold magnitude
  split_ifs with hneg
  · rw [Int64.lt_iff_toInt_lt, hzero] at hneg
    have hsucc : (amount + 1).toInt = amount.toInt + 1 := by
      rw [Int64.toInt_add, hone, Int.bmod_eq_of_le] <;> omega
    have hopposite : (-(amount + 1)).toInt = -(amount.toInt + 1) := by
      rw [Int64.toInt_neg, hsucc, Int.bmod_eq_of_le] <;> omega
    have hnonneg : 0 ≤ -(amount + 1) := by
      rw [Int64.le_iff_toInt_le, hzero, hopposite]
      omega
    rw [UInt64.toNat_add, Int64.toNat_toUInt64_of_le hnonneg, Int64.toNatClampNeg, hopposite]
    show (_ + 1) % 2 ^ 64 = _
    omega
  · rw [Int64.not_lt, Int64.le_iff_toInt_le, hzero] at hneg
    rw [Int64.toNat_toUInt64_of_le (by rwa [Int64.le_iff_toInt_le, hzero]), Int64.toNatClampNeg]
    omega

theorem head_toDigits {n : Nat} (h : n ≠ 0) : (Nat.toDigits 10 n).head? ≠ some '0' := by
  induction n using Nat.strongRecOn with
  | ind n ih =>
    by_cases hsmall : n < 10
    · rw [Nat.toDigits_of_lt_base hsmall]
      have hdigit : ∀ d < 10, d ≠ 0 → Nat.digitChar d ≠ '0' := by decide
      simpa using hdigit n hsmall h
    · rw [Nat.toDigits_of_base_le (by decide) (by omega), List.head?_append_of_ne_nil]
      · exact ih (n / 10) (by omega) (by omega)
      · exact Nat.toDigits_ne_nil

def twoDigits (n : Nat) : List Char :=
  [Nat.digitChar (n % 100 / 10), Nat.digitChar (n % 100 % 10)]

theorem leftpad_toDigits (n : Nat) : (Nat.toDigits 10 (n % 100)).leftpad 2 '0' = twoDigits n := by
  unfold twoDigits
  have hn : n % 100 < 100 := Nat.mod_lt _ (by decide)
  generalize n % 100 = m at hn ⊢
  by_cases hsmall : m < 10
  · rw [Nat.toDigits_of_lt_base hsmall, Nat.div_eq_of_lt hsmall, Nat.mod_eq_of_lt hsmall]
    rfl
  · rw [Nat.toDigits_of_base_le (by decide) (by omega), Nat.toDigits_of_lt_base (by omega)]
    rfl

theorem isDigit_of_mem_twoDigits {n : Nat} {c : Char} (h : c ∈ twoDigits n) :
    c.isDigit = true := by
  have hdigit : ∀ d < 10, (Nat.digitChar d).isDigit = true := by decide
  unfold twoDigits at h
  rcases List.mem_cons.mp h with rfl | h
  · exact hdigit _ (by omega)
  · rw [List.mem_singleton.mp h]
    exact hdigit _ (by omega)

theorem ofDigitChars_twoDigits (n : Nat) : Nat.ofDigitChars 10 (twoDigits n) (n / 100) = n := by
  have hdigit : ∀ d < 10, (Nat.digitChar d).toNat - '0'.toNat = d := by decide
  rw [twoDigits, Nat.ofDigitChars_cons, Nat.ofDigitChars_cons, Nat.ofDigitChars_nil,
    hdigit _ (by omega), hdigit _ (by omega)]
  omega

def readAmount (text : List Char) : Nat :=
  Nat.ofDigitChars 10 (text.filter fun c => c ≠ ',' ∧ c ≠ '.') 0

/-- A text of an amount: the sign, the currency, a space, the grouped major units without a
superfluous zero in front, a point and two digits. -/
structure AmountNotation (amount : Int64) (currency text major cents : List Char) : Prop where
  text_eq : text = (if amount < 0 then ['-'] else []) ++
    (currency ++ ' ' :: (major ++ '.' :: cents))
  grouped : ∃ digits, Grouped major digits ∧ (∀ c ∈ digits, c.isDigit = true) ∧
    (digits.head? = some '0' → digits = ['0'])
  cents_length : cents.length = 2
  cents_digits : ∀ c ∈ cents, c.isDigit = true
  value : readAmount (major ++ '.' :: cents) = amount.toInt.natAbs

theorem readAmount_format (value : UInt64) :
    readAmount (formatGroupedInteger (value / 100) ++ '.' :: twoDigits value.toNat) =
      value.toNat := by
  have hdigit : ∀ c : Char, c.isDigit = true → decide (c ≠ ',' ∧ c ≠ '.') = true := by
    intro c hc
    refine decide_eq_true ⟨?_, ?_⟩ <;>
    · rintro rfl
      exact absurd hc (by decide)
  have hmajor := (grouped_formatGroupedInteger (value / 100)).filter
    (fun c hc => hdigit c (Nat.isDigit_of_mem_toDigits (by decide) (by decide) hc)) (by decide)
  have hcents : (twoDigits value.toNat).filter (fun c => decide (c ≠ ',' ∧ c ≠ '.')) =
      twoDigits value.toNat :=
    List.filter_eq_self.mpr fun c hc => hdigit c (isDigit_of_mem_twoDigits hc)
  rw [readAmount, List.filter_append, hmajor, List.filter_cons_of_neg (by decide), hcents,
    Nat.ofDigitChars_append, Nat.ofDigitChars_ten_toDigits, UInt64.toNat_div]
  exact ofDigitChars_twoDigits value.toNat

theorem amountNotation_format (amount : Int64) {currency : String} (h : currency ≠ "") :
    ∃ major cents, AmountNotation amount currency.toList
      (formatFinancialAmount amount currency).toList major cents := by
  have hcents : (Nat.toDigits 10 (magnitude amount % 100).toNat).leftpad 2 '0' =
      twoDigits (magnitude amount).toNat := by
    rw [UInt64.toNat_mod]
    exact leftpad_toDigits _
  refine ⟨formatGroupedInteger (magnitude amount / 100), twoDigits (magnitude amount).toNat,
    ?_, ?_, rfl, fun c hc => isDigit_of_mem_twoDigits hc, ?_⟩
  · rw [formatFinancialAmount, if_neg h]
    dsimp only
    rw [String.toList_ofList, hcents]
    split_ifs <;> rfl
  · refine ⟨_, grouped_formatGroupedInteger _, ?_, ?_⟩
    · exact fun c hc => Nat.isDigit_of_mem_toDigits (by decide) (by decide) hc
    · intro hzero
      by_cases hvalue : (magnitude amount / 100).toNat = 0
      · rw [hvalue]
        rfl
      · exact absurd hzero (head_toDigits hvalue)
  · rw [readAmount_format, toNat_magnitude]

theorem sign_eq_of_append {currency t t' : List Char} {negative negative' : Prop}
    [Decidable negative] [Decidable negative']
    (h : (if negative then ['-'] else []) ++ (currency ++ ' ' :: t) =
      (if negative' then ['-'] else []) ++ (currency ++ ' ' :: t')) :
    (negative ↔ negative') ∧ t = t' := by
  have hmixed : ∀ {t t' : List Char}, '-' :: (currency ++ ' ' :: t) ≠ currency ++ ' ' :: t' := by
    intro t t' heq
    have hfront : '-' :: currency = currency ++ [' '] := by
      have hsplit : '-' :: currency ++ ' ' :: t = currency ++ [' '] ++ t' := by simpa using heq
      exact (List.append_inj hsplit (by simp)).1
    -- the two sides do not have the same number of spaces
    have hcount := congrArg (List.count ' ') hfront
    simp at hcount
  split_ifs at h with h₁ h₂ h₂
  · exact ⟨iff_of_true h₁ h₂, by simpa using h⟩
  · exact absurd h hmixed
  · exact absurd h.symm hmixed
  · exact ⟨iff_of_false h₁ h₂, by simpa using h⟩

/-- Every amount is written in this notation, and no other amount in the same way. -/
theorem formatFinancialAmount_exact (amount : Int64) {currency : String} (h : currency ≠ "") :
    (∃ major cents, AmountNotation amount currency.toList
        (formatFinancialAmount amount currency).toList major cents) ∧
      ∀ amount', formatFinancialAmount amount currency = formatFinancialAmount amount' currency →
        amount = amount' := by
  refine ⟨amountNotation_format amount h, ?_⟩
  intro amount' heq
  obtain ⟨major, cents, hformat⟩ := amountNotation_format amount h
  obtain ⟨major', cents', hformat'⟩ := amountNotation_format amount' h
  rw [← heq] at hformat'
  obtain ⟨hsign, htext⟩ := sign_eq_of_append (hformat.text_eq.symm.trans hformat'.text_eq)
  have habs : amount.toInt.natAbs = amount'.toInt.natAbs := by
    rw [← hformat.value, ← hformat'.value, htext]
  have hzero : (0 : Int64).toInt = 0 := by decide
  rw [Int64.lt_iff_toInt_lt, Int64.lt_iff_toInt_lt, hzero] at hsign
  rw [← Int64.toInt_inj]
  omega

theorem formatFinancialAmount_exact_least :
    formatFinancialAmount Int64.minValue "USD" = "-USD 92,233,720,368,547,758.08" ∧
      ∀ amount, formatFinancialAmount Int64.minValue "USD" = formatFinancialAmount amount "USD" →
        Int64.minValue = amount :=
  ⟨by decide +kernel, (formatFinancialAmount_exact Int64.minValue (by decide)).2⟩

end Monierave
