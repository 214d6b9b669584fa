import Monierave.Unicode.Utf8
import Monierave.Users.System

/-! # New passwords, in the browser and on the server

Both sides bound a password by the bytes of its encoding.
-/

namespace Monierave.Frontend
open Unicode

/-- What `encoder.encode` gives. -/
def encode (value : List UInt16) : List UInt8 := utf8 (scalarValues value)

def passwordSchema (value : List UInt16) : List String :=
  (if value.length < 8 then ["Password must contain at least 8 characters."] else []) ++
    if (encode value).length ≤ 72 then []
    else ["This password is too long. Use fewer characters."]

theorem length_scalarValues_le (us : List UInt16) : (scalarValues us).length ≤ us.length := by
  fun_induction scalarValues us with
  | case1 => exact Nat.le_refl _
  | case2 u => exact Nat.le_refl _
  | case3 u v us _ ih => exact Nat.succ_le_succ (Nat.le_succ_of_le ih)
  | case4 u v us _ ih => exact Nat.succ_le_succ ih

theorem length_utf8_le (cs : List Char) : (utf8 cs).length ≤ 4 * cs.length := by
  induction cs with
  | nil => exact Nat.le_refl 0
  | cons c cs ih =>
    have hsize := c.utf8Size_le_four
    rw [utf8, List.flatMap_cons, ← utf8, List.length_append, String.length_utf8EncodeChar,
      List.length_cons]
    omega

theorem byteSize_ofList (cs : List Char) : (String.ofList cs).utf8ByteSize = (utf8 cs).length := by
  rw [String.utf8ByteSize_ofList]
  induction cs with
  | nil => rfl
  | cons c cs ih =>
    rw [String.utf8Len_cons, ih, utf8, utf8, List.flatMap_cons, List.length_append,
      String.length_utf8EncodeChar, Nat.add_comm]

theorem passwordSchema_eq_nil_iff {value : List UInt16} :
    passwordSchema value = [] ↔ 8 ≤ value.length ∧ (encode value).length ≤ 72 := by
  simp [passwordSchema]

theorem validateNewPassword_ok_iff {cs : List Char} :
    validateNewPassword (String.ofList cs) = .ok () ↔ 8 ≤ cs.length ∧ (utf8 cs).length ≤ 72 := by
  rw [validateNewPassword, String.length_ofList, byteSize_ofList, minPasswordRunes,
    maxPasswordBytes]
  split_ifs with h
  · refine ⟨fun hok => (nomatch hok), ?_⟩
    omega
  · refine ⟨fun _ => ?_, fun _ => rfl⟩
    omega

/-- The two agree on a password unless it has fewer than eight runes but not fewer than
eight code units. -/
theorem passwordSchema_agrees_iff (value : List UInt16) :
    (passwordSchema value = [] ↔
        validateNewPassword (String.ofList (scalarValues value)) = .ok ()) ↔
      ¬ ((scalarValues value).length < 8 ∧ 8 ≤ value.length) := by
  have hunits := length_scalarValues_le value
  have hbytes := length_utf8_le (scalarValues value)
  rw [passwordSchema_eq_nil_iff, validateNewPassword_ok_iff, encode]
  omega

/-- Four runes of two code units each. -/
theorem passwordSchema_accepts_four :
    passwordSchema (utf16 "😀😀😀😀".toList) = [] ∧
      scalarValues (utf16 "😀😀😀😀".toList) = "😀😀😀😀".toList ∧
      validateNewPassword "😀😀😀😀" = .error .invalidPasswordLength := by
  decide +kernel

end Monierave.Frontend
