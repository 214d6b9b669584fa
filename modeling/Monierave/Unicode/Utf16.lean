import Mathlib.Data.List.Basic

/-! # Strings of UTF-16 code units

A string of code units need not be well formed.
-/

namespace Monierave.Unicode

def isHighSurrogate (u : UInt16) : Bool := 0xd800 ≤ u.toNat && u.toNat < 0xdc00

def isLowSurrogate (u : UInt16) : Bool := 0xdc00 ≤ u.toNat && u.toNat < 0xe000

def utf16Units (c : Char) : List UInt16 :=
  if c.toNat < 0x10000 then [.ofNat c.toNat]
  else [.ofNat (0xd800 + (c.toNat - 0x10000) / 0x400), .ofNat (0xdc00 + (c.toNat - 0x10000) % 0x400)]

def utf16 (cs : List Char) : List UInt16 := cs.flatMap utf16Units

def loneUnit (u : UInt16) : Char :=
  if isHighSurrogate u || isLowSurrogate u then '�' else .ofNat u.toNat

def pairUnits (u v : UInt16) : Char :=
  .ofNat (0x10000 + (u.toNat - 0xd800) * 0x400 + (v.toNat - 0xdc00))

def scalarValues : List UInt16 → List Char
  | [] => []
  | [u] => [loneUnit u]
  | u :: v :: us =>
    if isHighSurrogate u && isLowSurrogate v then pairUnits u v :: scalarValues us
    else loneUnit u :: scalarValues (v :: us)

theorem scalarValues_cons {u : UInt16} (h : isHighSurrogate u = false) (us : List UInt16) :
    scalarValues (u :: us) = loneUnit u :: scalarValues us := by
  cases us with
  | nil => rfl
  | cons v us => simp [scalarValues, h]

theorem scalarValues_pair {u v : UInt16} (hu : isHighSurrogate u) (hv : isLowSurrogate v)
    (us : List UInt16) : scalarValues (u :: v :: us) = pairUnits u v :: scalarValues us := by
  simp [scalarValues, hu, hv]

theorem toNat_lt_or_le (c : Char) : c.toNat < 0xd800 ∨ (0xe000 ≤ c.toNat ∧ c.toNat < 0x110000) := by
  rcases c.valid with h | ⟨h₁, h₂⟩
  · exact Or.inl h
  · exact Or.inr ⟨by have : 0xdfff < c.toNat := h₁; omega, h₂⟩

theorem scalarValues_utf16 (cs : List Char) : scalarValues (utf16 cs) = cs := by
  induction cs with
  | nil => rfl
  | cons c cs ih =>
    have hvalid := toNat_lt_or_le c
    rw [utf16, List.flatMap_cons, ← utf16, utf16Units]
    split_ifs with hsmall
    · have htoNat : (UInt16.ofNat c.toNat).toNat = c.toNat := by
        rw [UInt16.toNat_ofNat']
        omega
      have hhigh : isHighSurrogate (.ofNat c.toNat) = false := by
        simp only [isHighSurrogate, htoNat, Bool.and_eq_false_iff, decide_eq_false_iff_not]
        omega
      have hlow : isLowSurrogate (.ofNat c.toNat) = false := by
        simp only [isLowSurrogate, htoNat, Bool.and_eq_false_iff, decide_eq_false_iff_not]
        omega
      rw [List.singleton_append, scalarValues_cons hhigh, ih]
      simp [loneUnit, hhigh, hlow, htoNat]
    · have hfirst : (UInt16.ofNat (0xd800 + (c.toNat - 0x10000) / 0x400)).toNat =
          0xd800 + (c.toNat - 0x10000) / 0x400 := by
        rw [UInt16.toNat_ofNat']
        omega
      have hsecond : (UInt16.ofNat (0xdc00 + (c.toNat - 0x10000) % 0x400)).toNat =
          0xdc00 + (c.toNat - 0x10000) % 0x400 := by
        rw [UInt16.toNat_ofNat']
        omega
      have hpair : pairUnits (.ofNat (0xd800 + (c.toNat - 0x10000) / 0x400))
          (.ofNat (0xdc00 + (c.toNat - 0x10000) % 0x400)) = c := by
        have hvalue : 0x10000 + (0xd800 + (c.toNat - 0x10000) / 0x400 - 0xd800) * 0x400 +
            (0xdc00 + (c.toNat - 0x10000) % 0x400 - 0xdc00) = c.toNat := by omega
        rw [pairUnits, hfirst, hsecond, hvalue, Char.ofNat_toNat]
      rw [List.cons_append, List.singleton_append, scalarValues_pair, ih, hpair]
      · simp only [isHighSurrogate, hfirst, Bool.and_eq_true, decide_eq_true_eq]
        omega
      · simp only [isLowSurrogate, hsecond, Bool.and_eq_true, decide_eq_true_eq]
        omega

theorem toNat_ofNat_of_valid {n : Nat} (h : n.isValidChar) : (Char.ofNat n).toNat = n := by
  rw [Char.ofNat, dif_pos h]
  rfl

theorem ofNat_toNat_loneUnit {u : UInt16} (h : (loneUnit u).toNat < 0xd800) :
    UInt16.ofNat (loneUnit u).toNat = u := by
  have hu := u.toNat_lt
  unfold loneUnit at h ⊢
  split_ifs at h ⊢ with hsurrogate
  · exact absurd h (by decide)
  · have hvalid : u.toNat.isValidChar := by
      simp only [isHighSurrogate, isLowSurrogate, Bool.or_eq_true, Bool.and_eq_true,
        decide_eq_true_eq] at hsurrogate
      unfold Nat.isValidChar
      omega
    rw [toNat_ofNat_of_valid hvalid, UInt16.ofNat_toNat]

theorem le_toNat_pairUnits {u v : UInt16} (hu : isHighSurrogate u) (hv : isLowSurrogate v) :
    0x10000 ≤ (pairUnits u v).toNat := by
  simp only [isHighSurrogate, isLowSurrogate, Bool.and_eq_true, decide_eq_true_eq] at hu hv
  rw [pairUnits, toNat_ofNat_of_valid]
  · omega
  · unfold Nat.isValidChar
    omega

theorem unit_mem_of_mem_scalarValues {us : List UInt16} {c : Char} (hc : c.toNat < 0xd800)
    (h : c ∈ scalarValues us) : UInt16.ofNat c.toNat ∈ us := by
  fun_induction scalarValues us with
  | case1 => cases h
  | case2 u =>
    rw [List.mem_singleton] at h
    subst h
    rw [ofNat_toNat_loneUnit hc]
    exact List.mem_singleton_self u
  | case3 u v us hpair ih =>
    rw [Bool.and_eq_true] at hpair
    rcases List.mem_cons.mp h with h | h
    · have hlarge := le_toNat_pairUnits hpair.1 hpair.2
      rw [h] at hc
      omega
    · exact List.mem_cons_of_mem _ (List.mem_cons_of_mem _ (ih h))
  | case4 u v us _ ih =>
    rcases List.mem_cons.mp h with rfl | h
    · rw [ofNat_toNat_loneUnit hc]
      exact List.mem_cons_self
    · exact List.mem_cons_of_mem _ (ih h)

theorem mem_of_unit_mem_utf16 {u : UInt16} {cs : List Char} (hu : u.toNat < 0xd800)
    (h : u ∈ utf16 cs) : Char.ofNat u.toNat ∈ cs := by
  obtain ⟨c, hc, huc⟩ := List.mem_flatMap.mp h
  have hvalid := toNat_lt_or_le c
  unfold utf16Units at huc
  split_ifs at huc with hsmall
  · rw [List.mem_singleton] at huc
    subst huc
    have htoNat : (UInt16.ofNat c.toNat).toNat = c.toNat := by
      rw [UInt16.toNat_ofNat']
      omega
    rwa [htoNat, Char.ofNat_toNat]
  · -- both units of a pair are surrogates
    simp only [List.mem_cons, List.not_mem_nil, or_false] at huc
    rcases huc with rfl | rfl
    all_goals
      rw [UInt16.toNat_ofNat'] at hu
      omega

end Monierave.Unicode
