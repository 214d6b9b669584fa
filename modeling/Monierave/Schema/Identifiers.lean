import Monierave.Coding.Json
import Monierave.Schema.Rows

/-! # Texts of identifiers

A UUID is known from its hexadecimal digits, in either case, and from its text.
-/

namespace Monierave

open Coding

theorem toUpper_digitChar_inj :
    ∀ a < 16, ∀ b < 16, (Nat.digitChar a).toUpper = (Nat.digitChar b).toUpper → a = b := by
  decide

theorem eq_of_hexDigits {k n m : Nat} (hn : n < 16 ^ k) (hm : m < 16 ^ k)
    (h : ∀ i < k, n / 16 ^ i % 16 = m / 16 ^ i % 16) : n = m := by
  induction k generalizing n m with
  | zero => omega
  | succ k ih =>
    have hlast : n % 16 = m % 16 := by simpa using h 0 k.succ_pos
    have hrest : n / 16 = m / 16 := by
      refine ih (by omega) (by omega) ?_
      intro i hi
      have hdigit := h (i + 1) (by omega)
      rwa [pow_succ', ← Nat.div_div_eq_div_mul, ← Nat.div_div_eq_div_mul] at hdigit
    omega

namespace UUID

theorem eq_of_map_hex {f : Char → Char} {id id' : UUID}
    (hf : ∀ a < 16, ∀ b < 16, f (Nat.digitChar a) = f (Nat.digitChar b) → a = b)
    (h : id.hex.map f = id'.hex.map f) : id = id' := by
  apply BitVec.eq_of_toNat_eq
  refine eq_of_hexDigits (k := 32) (by omega) (by omega) ?_
  intro i hi
  rw [hex, hex, List.map_map, List.map_map, List.map_inj_left] at h
  have hdigit := h (31 - i) (List.mem_range.mpr (by omega))
  rw [Function.comp_apply, Function.comp_apply, show 31 - (31 - i) = i by omega] at hdigit
  exact hf _ (Nat.mod_lt _ (by decide)) _ (Nat.mod_lt _ (by decide)) hdigit

theorem hex_injective : Function.Injective hex := by
  intro id id' h
  refine eq_of_map_hex (f := fun c => c) ?_ (congrArg _ h)
  exact Json.digitChar_inj

theorem upperHex_inj {id id' : UUID} (h : id.hex.map Char.toUpper = id'.hex.map Char.toUpper) :
    id = id' :=
  eq_of_map_hex toUpper_digitChar_inj h

theorem filter_text (id : UUID) : id.text.toList.filter (· ≠ '-') = id.hex := by
  have hdigit : ∀ n < 16, Nat.digitChar n ≠ '-' := by decide
  have hhex : ∀ c ∈ id.hex, c ≠ '-' := by
    intro c hc
    obtain ⟨i, _, rfl⟩ := List.mem_map.mp hc
    exact hdigit _ (Nat.mod_lt _ (by decide))
  have hkeep : ∀ l : List Char, l.Sublist id.hex → l.filter (· ≠ '-') = l := by
    intro l hl
    rw [List.filter_eq_self]
    intro c hc
    simpa using hhex c (hl.subset hc)
  have htake : ∀ n, ((id.hex.drop n).take 4).filter (· ≠ '-') = (id.hex.drop n).take 4 :=
    fun n => hkeep _ ((List.take_sublist _ _).trans (List.drop_sublist _ _))
  calc id.text.toList.filter (· ≠ '-')
      = id.hex.take 8 ++ ((id.hex.drop 8).take 4 ++ ((id.hex.drop 12).take 4 ++
          ((id.hex.drop 16).take 4 ++ id.hex.drop 20))) := by
        have hhyphen : ∀ l : List Char, ('-' :: l).filter (· ≠ '-') = l.filter (· ≠ '-') :=
          fun _ => rfl
        simp only [text, String.toList_ofList, List.append_assoc, List.cons_append,
          List.filter_append, hhyphen, htake, hkeep _ (List.take_sublist 8 _),
          hkeep _ (List.drop_sublist 20 _)]
    _ = id.hex := by
        have hsplit : ∀ n, (id.hex.drop n).take 4 ++ id.hex.drop (n + 4) = id.hex.drop n := by
          intro n
          rw [← List.drop_drop, List.take_append_drop]
        rw [hsplit 16, hsplit 12, hsplit 8, List.take_append_drop]

theorem text_injective : Function.Injective text := by
  intro id id' h
  apply hex_injective
  rw [← filter_text, h, filter_text]

end UUID

end Monierave
