import Mathlib.Algebra.Order.Group.Int
import Mathlib.Data.List.Chain
import Mathlib.Data.List.Nodup
import Mathlib.Data.List.Sort
import Mathlib.Tactic.Ring

/-! # Periods of equal length

The line of time is cut into periods of one length, counted from an origin.
-/

namespace Monierave.Timestamped

def truncate (origin length t : Int) : Int := t - (t - origin) % length

/-- The values from `start` on in steps of `step` that do not exceed `stop`. -/
def generateSeries (start stop step : Int) : List Int :=
  (List.range ((stop - start) / step + 1).toNat).map fun i : Nat => start + i * step

variable {origin length start stop step s t x : Int}

theorem truncate_le (h : 0 < length) (t : Int) : truncate origin length t ≤ t :=
  Int.sub_le_self t (Int.emod_nonneg _ h.ne')

theorem lt_truncate_add (h : 0 < length) (t : Int) : t < truncate origin length t + length := by
  have hlt := Int.emod_lt_of_pos (t - origin) h
  unfold truncate
  omega

theorem truncate_sub_emod (t : Int) : (truncate origin length t - origin) % length = 0 := by
  have heq : truncate origin length t - origin = length * ((t - origin) / length) := by
    have hdiv := Int.mul_ediv_add_emod (t - origin) length
    unfold truncate
    omega
  rw [heq, Int.mul_emod_right]

theorem eq_of_overlap (h : 0 < length) (hs : (s - origin) % length = 0)
    (ht : (t - origin) % length = 0) (hst : s < t + length) (hts : t < s + length) : s = t := by
  obtain ⟨i, hi⟩ := Int.dvd_of_emod_eq_zero hs
  obtain ⟨j, hj⟩ := Int.dvd_of_emod_eq_zero ht
  have hij : length * (i - j) < length * 1 := by
    rw [Int.mul_sub]
    omega
  have hji : length * (j - i) < length * 1 := by
    rw [Int.mul_sub]
    omega
  have hi' := Int.lt_of_mul_lt_mul_left hij h.le
  have hj' := Int.lt_of_mul_lt_mul_left hji h.le
  have heq : i = j := by omega
  rw [heq] at hi
  omega

theorem truncate_eq_iff (h : 0 < length) (hs : (s - origin) % length = 0) (t : Int) :
    truncate origin length t = s ↔ s ≤ t ∧ t < s + length := by
  have hle : truncate origin length t ≤ t := truncate_le h t
  have hlt : t < truncate origin length t + length := lt_truncate_add h t
  constructor
  · rintro rfl
    exact ⟨hle, hlt⟩
  · rintro ⟨hst, hts⟩
    exact eq_of_overlap h (truncate_sub_emod t) hs (by omega) (by omega)

theorem truncate_mono (h : 0 < length) (hst : s ≤ t) :
    truncate origin length s ≤ truncate origin length t := by
  by_contra hlt
  have heq : truncate origin length s = truncate origin length t := by
    refine eq_of_overlap h (truncate_sub_emod s) (truncate_sub_emod t) ?_ ?_
    · have hle : truncate origin length s ≤ s := truncate_le h s
      have hlt : t < truncate origin length t + length := lt_truncate_add h t
      omega
    · omega
  omega

theorem mem_generateSeries (h : 0 < step) :
    x ∈ generateSeries start stop step ↔ start ≤ x ∧ x ≤ stop ∧ (x - start) % step = 0 := by
  simp only [generateSeries, List.mem_map, List.mem_range]
  constructor
  · rintro ⟨i, hi, rfl⟩
    have hi' : (i : Int) ≤ (stop - start) / step := by omega
    have hmul := (Int.le_ediv_iff_mul_le h).mp hi'
    have hnonneg : 0 ≤ (i : Int) * step := Int.mul_nonneg (by omega) h.le
    refine ⟨by omega, by omega, ?_⟩
    rw [add_sub_cancel_left, Int.mul_emod_left]
  · rintro ⟨hstart, hstop, hmod⟩
    obtain ⟨k, hk⟩ := Int.dvd_of_emod_eq_zero hmod
    have hk0 : 0 ≤ k := by
      by_contra hneg
      have : step * k < 0 := Int.mul_neg_of_pos_of_neg h (by omega)
      omega
    refine ⟨k.toNat, ?_, ?_⟩
    · have hle : k ≤ (stop - start) / step := by
        rw [Int.le_ediv_iff_mul_le h, Int.mul_comm]
        omega
      omega
    · rw [Int.toNat_of_nonneg hk0, Int.mul_comm]
      omega

theorem generateSeries_isChain (start stop step : Int) :
    (generateSeries start stop step).IsChain fun a b => b = a + step := by
  rw [List.isChain_iff_getElem]
  intro i hi
  simp only [generateSeries, List.getElem_map, List.getElem_range]
  push_cast
  ring

theorem generateSeries_pairwise (h : 0 < step) :
    (generateSeries start stop step).Pairwise (· < ·) := by
  rw [← List.isChain_iff_pairwise]
  refine (generateSeries_isChain start stop step).imp ?_
  intro a b hab
  omega

theorem generateSeries_nodup (h : 0 < step) : (generateSeries start stop step).Nodup :=
  (generateSeries_pairwise h).imp Int.ne_of_lt

theorem mem_generateSeries_truncate (h : 0 < length) :
    x ∈ generateSeries (truncate origin length s) (truncate origin length t) length ↔
      truncate origin length s ≤ x ∧ x ≤ truncate origin length t ∧ (x - origin) % length = 0 := by
  rw [mem_generateSeries h]
  have hmod : (x - truncate origin length s) % length = 0 ↔ (x - origin) % length = 0 := by
    have hs : length ∣ truncate origin length s - origin :=
      Int.dvd_of_emod_eq_zero (truncate_sub_emod s)
    rw [← Int.dvd_iff_emod_eq_zero, ← Int.dvd_iff_emod_eq_zero]
    have hsplit : x - origin =
        (x - truncate origin length s) + (truncate origin length s - origin) := by omega
    rw [hsplit]
    exact (Int.dvd_add_left hs).symm
  rw [hmod]

theorem truncate_mem_generateSeries (h : 0 < length) (hs : s ≤ x) (ht : x ≤ t) :
    truncate origin length x ∈
      generateSeries (truncate origin length s) (truncate origin length t) length :=
  (mem_generateSeries_truncate h).mpr
    ⟨truncate_mono h hs, truncate_mono h ht, truncate_sub_emod x⟩

end Monierave.Timestamped
