import Mathlib.Computability.RegularExpressions
import Mathlib.Data.List.DropRight

/-! # Character classes and their repetitions

Classes, repetitions with bounds and optional parts as regular expressions, and the lists
they match; and trimming and splitting, which go with patterns for whole inputs.
-/

namespace Monierave.Text
open RegularExpression

variable {α : Type*}

def oneOf (cs : List α) : RegularExpression α := cs.foldr (fun c p => char c + p) 0

def oneOrMore (p : RegularExpression α) : RegularExpression α := p * p.star

def optional (p : RegularExpression α) : RegularExpression α := p + 1

def between (p : RegularExpression α) (least most : Nat) : RegularExpression α :=
  p ^ least * optional p ^ (most - least)

variable {cs s : List α} {p q : RegularExpression α} {sep : α}

theorem mem_oneOf : s ∈ (oneOf cs).matches' ↔ ∃ c ∈ cs, s = [c] := by
  induction cs with
  | nil => simp [oneOf]
  | cons c cs ih =>
    have hcons : s ∈ (oneOf (c :: cs)).matches' ↔ s = [c] ∨ s ∈ (oneOf cs).matches' := Iff.rfl
    rw [hcons, ih]
    simp

theorem mem_optional :
    s ∈ (optional p).matches' ↔ s ∈ p.matches' ∨ s = [] := Iff.rfl

theorem mem_seq :
    s ∈ (p * q).matches' ↔ ∃ t ∈ p.matches', ∃ u ∈ q.matches', t ++ u = s := Language.mem_mul

theorem mem_star_oneOf : s ∈ (oneOf cs).star.matches' ↔ ∀ c ∈ s, c ∈ cs := by
  rw [matches'_star, Language.mem_kstar]
  constructor
  · rintro ⟨parts, rfl, hparts⟩ c hc
    obtain ⟨part, hpart, hcpart⟩ := List.mem_flatten.mp hc
    obtain ⟨d, hd, rfl⟩ := mem_oneOf.mp (hparts part hpart)
    rwa [List.mem_singleton.mp hcpart]
  · intro h
    refine ⟨s.map ([·]), by rw [← List.flatMap_def, List.flatMap_singleton'], ?_⟩
    intro part hpart
    obtain ⟨c, hc, rfl⟩ := List.mem_map.mp hpart
    exact mem_oneOf.mpr ⟨c, h c hc, rfl⟩

theorem mem_oneOrMore_oneOf : s ∈ (oneOrMore (oneOf cs)).matches' ↔ s ≠ [] ∧ ∀ c ∈ s, c ∈ cs := by
  rw [oneOrMore, mem_seq]
  constructor
  · rintro ⟨t, ht, u, hu, rfl⟩
    obtain ⟨c, hc, rfl⟩ := mem_oneOf.mp ht
    exact ⟨by simp, List.forall_mem_cons.mpr ⟨hc, mem_star_oneOf.mp hu⟩⟩
  · rintro ⟨hne, hs⟩
    obtain ⟨c, u, rfl⟩ := List.exists_cons_of_ne_nil hne
    rw [List.forall_mem_cons] at hs
    exact ⟨[c], mem_oneOf.mpr ⟨c, hs.1, rfl⟩, u, mem_star_oneOf.mpr hs.2, rfl⟩

theorem mem_optional_pow {n : Nat} :
    s ∈ (optional (oneOf cs) ^ n).matches' ↔ s.length ≤ n ∧ ∀ c ∈ s, c ∈ cs := by
  induction n generalizing s with
  | zero =>
    have hzero : s ∈ (optional (oneOf cs) ^ 0).matches' ↔ s = [] := Iff.rfl
    rw [hzero]
    grind
  | succ n ih =>
    rw [matches'_pow, pow_succ', ← matches'_pow, ← matches'_mul, mem_seq]
    constructor
    · rintro ⟨t, ht, u, hu, rfl⟩
      have hu := ih.mp hu
      rcases mem_optional.mp ht with ht | rfl
      · obtain ⟨c, hc, rfl⟩ := mem_oneOf.mp ht
        exact ⟨Nat.succ_le_succ hu.1, List.forall_mem_cons.mpr ⟨hc, hu.2⟩⟩
      · exact ⟨Nat.le_succ_of_le hu.1, hu.2⟩
    · rintro ⟨hlength, hs⟩
      cases s with
      | nil => exact ⟨[], mem_optional.mpr (Or.inr rfl), [], ih.mpr ⟨Nat.zero_le n, hs⟩, rfl⟩
      | cons c u =>
        rw [List.forall_mem_cons] at hs
        exact ⟨[c], mem_optional.mpr (Or.inl (mem_oneOf.mpr ⟨c, hs.1, rfl⟩)), u,
          ih.mpr ⟨Nat.le_of_succ_le_succ hlength, hs.2⟩, rfl⟩

theorem mem_between_oneOf {most : Nat} (hmost : 1 ≤ most) :
    s ∈ (between (oneOf cs) 1 most).matches' ↔
      s ≠ [] ∧ s.length ≤ most ∧ ∀ c ∈ s, c ∈ cs := by
  rw [between, mem_seq, matches'_pow, pow_one]
  constructor
  · rintro ⟨t, ht, u, hu, rfl⟩
    obtain ⟨c, hc, rfl⟩ := mem_oneOf.mp ht
    have hu := mem_optional_pow.mp hu
    refine ⟨by simp, ?_, List.forall_mem_cons.mpr ⟨hc, hu.2⟩⟩
    rw [List.singleton_append, List.length_cons]
    omega
  · rintro ⟨hne, hlength, hs⟩
    obtain ⟨c, u, rfl⟩ := List.exists_cons_of_ne_nil hne
    rw [List.forall_mem_cons] at hs
    rw [List.length_cons] at hlength
    exact ⟨[c], mem_oneOf.mpr ⟨c, hs.1, rfl⟩, u, mem_optional_pow.mpr ⟨by omega, hs.2⟩, rfl⟩

theorem mem_separated :
    s ∈ (p * optional (char sep * q)).matches' ↔
      s ∈ p.matches' ∨ ∃ t ∈ p.matches', ∃ u ∈ q.matches', s = t ++ sep :: u := by
  rw [mem_seq]
  constructor
  · rintro ⟨t, ht, v, hv, rfl⟩
    rcases mem_optional.mp hv with hv | rfl
    · obtain ⟨w, hw, u, hu, rfl⟩ := mem_seq.mp hv
      cases hw
      exact Or.inr ⟨t, ht, u, hu, rfl⟩
    · exact Or.inl (by rwa [List.append_nil])
  · rintro (hs | ⟨t, ht, u, hu, rfl⟩)
    · exact ⟨s, hs, [], mem_optional.mpr (Or.inr rfl), List.append_nil s⟩
    · exact ⟨t, ht, sep :: u, mem_optional.mpr (Or.inl (mem_seq.mpr ⟨[sep], rfl, u, hu, rfl⟩)), rfl⟩

def trimWhile (p : α → Bool) (s : List α) : List α := (s.dropWhile p).rdropWhile p

theorem trimWhile_trimWhile (p : α → Bool) (s : List α) :
    trimWhile p (trimWhile p s) = trimWhile p s := by
  have hhead : ∀ t : List α, (t.rdropWhile p) <+: t → t.dropWhile p = t →
      (t.rdropWhile p).dropWhile p = t.rdropWhile p := by
    intro t hinit ht
    rw [List.dropWhile_eq_self_iff] at ht ⊢
    intro hlength
    have := ht (hlength.trans_le hinit.length_le)
    rwa [hinit.getElem hlength]
  unfold trimWhile
  rw [hhead _ (List.rdropWhile_prefix p _) (List.dropWhile_idempotent p s),
    List.rdropWhile_idempotent]

theorem mem_of_mem_splitOn [DecidableEq α] {part : List α} (h : part ∈ s.splitOn sep) {x : α}
    (hx : x ∈ part) : x ∈ s ∧ x ≠ sep := by
  induction s generalizing part with
  | nil =>
    rw [List.splitOn_nil, List.mem_singleton] at h
    rw [h] at hx
    cases hx
  | cons y s ih =>
    obtain ⟨first, parts, hparts⟩ := List.exists_cons_of_ne_nil (List.splitOn_ne_nil sep s)
    rw [List.splitOn_cons_eq_if_modifyHead, hparts] at h
    rw [hparts] at ih
    have hrest : ∀ {part : List α}, part ∈ first :: parts → x ∈ part → x ∈ y :: s ∧ x ≠ sep :=
      fun hpart hx => (ih hpart hx).imp (List.mem_cons_of_mem y) id
    split_ifs at h with hy
    · rcases List.mem_cons.mp h with rfl | h
      · cases hx
      · exact hrest h hx
    · rcases List.mem_cons.mp h with rfl | h
      · rcases List.mem_cons.mp hx with rfl | hx
        · exact ⟨List.mem_cons_self, by simpa using hy⟩
        · exact hrest List.mem_cons_self hx
      · exact hrest (List.mem_cons_of_mem first h) hx

end Monierave.Text
