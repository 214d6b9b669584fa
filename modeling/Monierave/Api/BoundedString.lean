import Monierave.Unicode.Utf8

/-! # Strings cut to a number of bytes

A user agent goes to its keyed hash as valid UTF-8 of bounded size.
-/

namespace Monierave
open Unicode

/-- The loop of `boundedString`: from `end` down to the end of a valid prefix. -/
def cutEnd (value : List UInt8) : Nat → Nat
  | 0 => 0
  | e + 1 => if validUtf8 (value.take (e + 1)) then e + 1 else cutEnd value e

def boundedString (value : List UInt8) (maxBytes : Nat) : List UInt8 :=
  let value := toValidUtf8 value
  if value.length ≤ maxBytes then value else value.take (cutEnd value maxBytes)

theorem cutEnd_le (value : List UInt8) (e : Nat) : cutEnd value e ≤ e := by
  induction e with
  | zero => exact Nat.le_refl 0
  | succ e ih =>
    unfold cutEnd
    split_ifs
    · exact Nat.le_refl _
    · exact Nat.le_succ_of_le ih

theorem validUtf8_take_cutEnd (value : List UInt8) (e : Nat) :
    validUtf8 (value.take (cutEnd value e)) = true := by
  induction e with
  | zero => rfl
  | succ e ih =>
    unfold cutEnd
    split_ifs with hvalid
    · exact hvalid
    · exact ih

theorem le_cutEnd {value : List UInt8} {n e : Nat} (hn : n ≤ e)
    (hvalid : validUtf8 (value.take n) = true) : n ≤ cutEnd value e := by
  induction e with
  | zero => exact hn
  | succ e ih =>
    unfold cutEnd
    split_ifs with h
    · exact hn
    · refine ih (Nat.le_of_lt_succ (Nat.lt_of_le_of_ne hn ?_))
      rintro rfl
      exact h hvalid

/-- The result is the longest prefix of the sanitised string that is valid UTF-8 and has
at most so many bytes. -/
theorem boundedString_longest (value : List UInt8) (maxBytes : Nat) :
    (∃ cs, boundedString value maxBytes = utf8 cs) ∧
      (boundedString value maxBytes).length ≤ maxBytes ∧
      boundedString value maxBytes <+: toValidUtf8 value ∧
      (∀ cs, utf8 cs <+: toValidUtf8 value → (utf8 cs).length ≤ maxBytes →
        utf8 cs <+: boundedString value maxBytes) ∧
      ((toValidUtf8 value).length ≤ maxBytes →
        boundedString value maxBytes = toValidUtf8 value) := by
  have hsanitised := validUtf8_toValidUtf8 value
  unfold boundedString
  dsimp only
  generalize toValidUtf8 value = value at hsanitised ⊢
  split_ifs with hfits
  · exact ⟨validUtf8_iff.mp hsanitised, hfits, List.prefix_rfl, fun _ h _ => h, fun _ => rfl⟩
  · refine ⟨validUtf8_iff.mp (validUtf8_take_cutEnd value maxBytes), ?_, List.take_prefix _ _, ?_,
      fun h => absurd h hfits⟩
    · rw [List.length_take]
      exact Nat.le_trans (Nat.min_le_left _ _) (cutEnd_le value maxBytes)
    · intro cs hprefix hlength
      have htake := List.prefix_iff_eq_take.mp hprefix
      have hvalid : validUtf8 (value.take (utf8 cs).length) = true :=
        validUtf8_iff.mpr ⟨cs, htake.symm⟩
      rw [htake]
      exact List.take_prefix_take_left (le_cutEnd hlength hvalid)

theorem boundedString_of_validUtf8 {value : List UInt8} {maxBytes : Nat}
    (hvalid : validUtf8 value = true) (hfits : value.length ≤ maxBytes) :
    boundedString value maxBytes = value := by
  rw [boundedString, toValidUtf8_of_validUtf8 hvalid, if_pos hfits]

/-- Two bytes of a euro sign do not fit, and a stray byte is gone. -/
example : boundedString ([0x61, 0xff] ++ utf8 "€b".toList) 3 = utf8 "a".toList := by decide

end Monierave
