import Mathlib.Algebra.BigOperators.Group.List.Basic
import Mathlib.Algebra.Ring.Int.Defs
import Mathlib.Algebra.Order.BigOperators.Group.List
import Mathlib.Data.List.Nodup

/-! # Sums over a journal

A journal is a list of entries, each with an amount.
-/

namespace Monierave.Accounting

variable {P G H M : Type} [DecidableEq G] [DecidableEq H] [AddCommMonoid M]

/-- What the entries of group `g` add up to. -/
def groupSum (group : P → G) (amount : P → M) (ps : List P) (g : G) : M :=
  ((ps.filter fun p => group p = g).map amount).sum

variable {group : P → G} {amount : P → M} {ps ps' : List P} {g : G}

@[simp] theorem groupSum_nil : groupSum group amount [] g = 0 := rfl

theorem groupSum_cons (p : P) :
    groupSum group amount (p :: ps) g =
      (if group p = g then amount p else 0) + groupSum group amount ps g := by
  by_cases h : group p = g <;> simp [groupSum, h]

theorem groupSum_append :
    groupSum group amount (ps ++ ps') g = groupSum group amount ps g + groupSum group amount ps' g := by
  simp [groupSum]

theorem groupSum_singleton (p : P) :
    groupSum group amount [p] g = if group p = g then amount p else 0 := by
  simp [groupSum_cons]

theorem groupSum_eq_zero (h : ∀ p ∈ ps, group p ≠ g) : groupSum group amount ps g = 0 := by
  have : ps.filter (fun p => group p = g) = [] := by simpa [List.filter_eq_nil_iff] using h
  simp [groupSum, this]

theorem groupSum_nonneg [PartialOrder M] [IsOrderedAddMonoid M] (h : ∀ p ∈ ps, 0 ≤ amount p) :
    0 ≤ groupSum group amount ps g := by
  apply List.sum_nonneg
  intro x hx
  obtain ⟨p, hp, rfl⟩ := List.mem_map.mp hx
  exact h p (List.mem_of_mem_filter hp)

theorem groupSum_filter {q : P → Bool} (h : ∀ p ∈ ps, group p = g → q p = true) :
    groupSum group amount (ps.filter q) g = groupSum group amount ps g := by
  rw [groupSum, groupSum, List.filter_filter]
  congr 2
  apply List.filter_congr
  intro p hp
  by_cases hg : group p = g <;> simp [hg, h p hp]

theorem groupSum_filter_of_zero {q : P → Bool} (h : ∀ p ∈ ps, q p = false → amount p = 0) :
    groupSum group amount (ps.filter q) g = groupSum group amount ps g := by
  induction ps with
  | nil => rfl
  | cons p ps ih =>
    rw [List.forall_mem_cons] at h
    cases hq : q p with
    | true => rw [List.filter_cons_of_pos hq, groupSum_cons, groupSum_cons, ih h.2]
    | false =>
      rw [List.filter_cons_of_neg (by simp [hq]), groupSum_cons, ih h.2, h.1 hq, ite_self,
        zero_add]

theorem groupSum_map {Q : Type} (f : Q → P) (qs : List Q) :
    groupSum group amount (qs.map f) g = groupSum (fun q => group (f q)) (fun q => amount (f q)) qs g := by
  simp [groupSum, List.filter_map, Function.comp_def]

theorem groupSum_congr {group' : P → H} {amount' : P → M} {g' : H}
    (hgroup : ∀ p ∈ ps, group p = g ↔ group' p = g') (hamount : ∀ p ∈ ps, amount p = amount' p) :
    groupSum group amount ps g = groupSum group' amount' ps g' := by
  have hfilter : ps.filter (fun p => group p = g) = ps.filter fun p => group' p = g' := by
    apply List.filter_congr
    intro p hp
    simp [hgroup p hp]
  rw [groupSum, groupSum, hfilter]
  congr 1
  exact List.map_congr_left fun p hp => hamount p (List.mem_of_mem_filter hp)

theorem groupSum_neg {N : Type} [AddCommGroup N] {amount : P → N} :
    groupSum group (fun p => -amount p) ps g = -groupSum group amount ps g := by
  induction ps with
  | nil => simp
  | cons p ps ih =>
    rw [groupSum_cons, groupSum_cons, ih, neg_add]
    split_ifs <;> simp

theorem groupSum_add_opposite {N : Type} [AddCommGroup N] {amount : P → N} {ps qs : List P}
    (h : qs.map (fun q => (group q, amount q)) = ps.map fun p => (group p, -amount p)) :
    groupSum group amount qs g + groupSum group amount ps g = 0 := by
  induction ps generalizing qs with
  | nil =>
    have hnil : qs = [] := by simpa using h
    simp [hnil]
  | cons p ps ih =>
    cases qs with
    | nil => simp at h
    | cons q qs =>
      simp only [List.map_cons, List.cons.injEq, Prod.mk.injEq] at h
      obtain ⟨⟨hgroup, hamount⟩, hrest⟩ := h
      rw [groupSum_cons, groupSum_cons, hgroup, hamount, add_add_add_comm, ih hrest]
      split_ifs <;> simp

theorem sum_ite_group {gs : List G} (hn : gs.Nodup) {g₀ : G} (hg : g₀ ∈ gs) (x : M) :
    (gs.map fun g => if g₀ = g then x else 0).sum = x := by
  induction gs with
  | nil => cases hg
  | cons a gs ih =>
    rw [List.nodup_cons] at hn
    rw [List.map_cons, List.sum_cons]
    by_cases ha : g₀ = a
    · have hrest : (gs.map fun g => if g₀ = g then x else 0) = gs.map fun _ => 0 := by
        apply List.map_congr_left
        intro g hgs
        rw [if_neg]
        rintro rfl
        exact hn.1 (ha ▸ hgs)
      rw [if_pos ha, hrest]
      simp
    · rw [if_neg ha, ih hn.2 ((List.mem_cons.mp hg).resolve_left ha), zero_add]

theorem sum_groupSum {gs : List G} (hn : gs.Nodup) (h : ∀ p ∈ ps, group p ∈ gs) :
    (gs.map (groupSum group amount ps)).sum = (ps.map amount).sum := by
  induction ps with
  | nil =>
    apply List.sum_eq_zero
    simp
  | cons p ps ih =>
    rw [List.forall_mem_cons] at h
    have hsplit : gs.map (groupSum group amount (p :: ps)) =
        gs.map fun g => (if group p = g then amount p else 0) + groupSum group amount ps g :=
      List.map_congr_left fun g _ => groupSum_cons p
    rw [hsplit, List.sum_map_add, sum_ite_group hn h.1, ih h.2, List.map_cons, List.sum_cons]

/-- Trial balance: if the journal is made of transactions that each add up to
nothing, the balances of the accounts add up to nothing. -/
theorem trial_balance {account : P → G} {transaction : P → H} {accounts : List G}
    {transactions : List H} (haccounts : accounts.Nodup) (htransactions : transactions.Nodup)
    (haccount : ∀ p ∈ ps, account p ∈ accounts)
    (htransaction : ∀ p ∈ ps, transaction p ∈ transactions)
    (hbalanced : ∀ t ∈ transactions, groupSum transaction amount ps t = 0) :
    (accounts.map (groupSum account amount ps)).sum = 0 := by
  rw [sum_groupSum haccounts haccount, ← sum_groupSum htransactions htransaction]
  apply List.sum_eq_zero
  simpa using hbalanced

end Monierave.Accounting
