import Mathlib.Algebra.BigOperators.Group.List.Basic
import Mathlib.Algebra.Ring.Int.Defs
import Mathlib.Data.List.Sort

/-! # Ordered results and running sums

`ORDER BY` on a key that tells the rows apart, in both directions, and the window
sum `sum(..) OVER (ORDER BY key ROWS BETWEEN UNBOUNDED PRECEDING AND CURRENT ROW)`.
-/

namespace Monierave.Relational

variable {R K M : Type} {key : R → K} {rows rows' : List R}

def DistinctKeys (key : R → K) (rows : List R) : Prop := rows.Pairwise fun a b => key a ≠ key b

theorem DistinctKeys.perm (h : DistinctKeys key rows) (hp : rows'.Perm rows) :
    DistinctKeys key rows' :=
  (hp.pairwise_iff fun hne => hne.symm).mpr h

theorem DistinctKeys.filter (h : DistinctKeys key rows) (q : R → Bool) :
    DistinctKeys key (rows.filter q) :=
  List.Pairwise.filter q h

variable [LinearOrder K]

def orderBy (key : R → K) (rows : List R) : List R :=
  rows.insertionSort fun a b => key a ≤ key b

def orderByDesc (key : R → K) (rows : List R) : List R :=
  rows.insertionSort fun a b => key b ≤ key a

theorem perm_orderBy : (orderBy key rows).Perm rows := List.perm_insertionSort _ rows

theorem perm_orderByDesc : (orderByDesc key rows).Perm rows := List.perm_insertionSort _ rows

theorem ascending_orderBy (h : DistinctKeys key rows) :
    (orderBy key rows).Pairwise fun a b => key a < key b := by
  have : Std.Total fun (a b : R) => key a ≤ key b := ⟨fun a b => le_total (key a) (key b)⟩
  have : IsTrans R fun a b => key a ≤ key b := ⟨fun a b c => le_trans⟩
  have hsorted := List.pairwise_insertionSort (fun a b => key a ≤ key b) rows
  have hdistinct : (orderBy key rows).Pairwise fun a b => key a ≠ key b := h.perm perm_orderBy
  exact (hsorted.and hdistinct).imp fun hab => lt_of_le_of_ne hab.1 hab.2

theorem descending_orderByDesc (h : DistinctKeys key rows) :
    (orderByDesc key rows).Pairwise fun a b => key b < key a :=
  @ascending_orderBy R Kᵒᵈ (OrderDual.toDual ∘ key) rows _ h

theorem orderBy_filter (h : DistinctKeys key rows) (q : R → Bool) :
    orderBy key (rows.filter q) = (orderBy key rows).filter q := by
  have hantisymm : Std.Antisymm fun a b : R => key a < key b :=
    ⟨fun a b hab hba => absurd hab (not_lt.mpr hba.le)⟩
  refine List.Perm.eq_of_pairwise' (ascending_orderBy (h.filter q))
    ((ascending_orderBy h).filter q) ?_
  exact perm_orderBy.trans (perm_orderBy.filter q).symm

variable [AddCommMonoid M] {amount : R → M}

def runningSums (amount : R → M) : M → List R → List (R × M)
  | _, [] => []
  | total, r :: rows => (r, total + amount r) :: runningSums amount (total + amount r) rows

def windowSums (key : R → K) (amount : R → M) (rows : List R) : List (R × M) :=
  runningSums amount 0 (orderBy key rows)

/-- The sum over the rows whose key is at most `k`. -/
def sumUpTo (key : R → K) (amount : R → M) (rows : List R) (k : K) : M :=
  ((rows.filter fun r => key r ≤ k).map amount).sum

theorem sumUpTo_perm (h : rows'.Perm rows) (k : K) :
    sumUpTo key amount rows' k = sumUpTo key amount rows k :=
  ((h.filter _).map amount).sum_eq

theorem sumUpTo_cons (r : R) (k : K) :
    sumUpTo key amount (r :: rows) k =
      (if key r ≤ k then amount r else 0) + sumUpTo key amount rows k := by
  by_cases h : key r ≤ k
  · simp [sumUpTo, h]
  · simp [sumUpTo, h]

theorem sumUpTo_eq_zero {k : K} (h : ∀ r ∈ rows, k < key r) : sumUpTo key amount rows k = 0 := by
  have hnone : (rows.filter fun r => key r ≤ k) = [] := by
    rw [List.filter_eq_nil_iff]
    intro r hr hle
    exact absurd (of_decide_eq_true hle) (not_le.mpr (h r hr))
  simp [sumUpTo, hnone]

theorem sum_filter_or {p q s : R → Bool} (hs : ∀ r ∈ rows, s r = (q r || p r))
    (hdisjoint : ∀ r ∈ rows, q r = true → p r = false) :
    ((rows.filter s).map amount).sum =
      ((rows.filter q).map amount).sum + ((rows.filter p).map amount).sum := by
  induction rows with
  | nil => simp
  | cons r rows ih =>
    rw [List.forall_mem_cons] at hs hdisjoint
    have ih := ih hs.2 hdisjoint.2
    rw [List.filter_cons, List.filter_cons, List.filter_cons, hs.1]
    cases hq : q r with
    | true =>
      have hp : p r = false := hdisjoint.1 hq
      simp [hp, ih, add_assoc]
    | false =>
      cases hp : p r with
      | true => simp [ih, add_left_comm]
      | false => simp [ih]

/-- The rows `p` are a stretch of the order and the rows `q` are those before it. The sum
up to a row of the stretch is the sum over the rows before and the part of the stretch
up to the row. -/
theorem sumUpTo_stretch {p q : R → Bool} {pre post : List R} {z : R} (h : DistinctKeys key rows)
    (hbefore : ∀ y ∈ rows, ∀ z ∈ rows, q y = true → p z = true → key y < key z)
    (hclosed : ∀ y ∈ rows, ∀ z ∈ rows, p z = true → key y ≤ key z → q y = true ∨ p y = true)
    (hsplit : orderByDesc key (rows.filter p) = pre ++ z :: post) (amount : R → M) :
    sumUpTo key amount rows (key z) =
      ((rows.filter q).map amount).sum + ((z :: post).map amount).sum := by
  have hmem : z ∈ orderByDesc key (rows.filter p) := by simp [hsplit]
  have hz : z ∈ rows ∧ p z = true := List.mem_filter.mp (perm_orderByDesc.mem_iff.mp hmem)
  have hdesc := descending_orderByDesc (h.filter p)
  rw [hsplit, List.pairwise_append, List.pairwise_cons] at hdesc
  obtain ⟨_, ⟨hpost, _⟩, hpre⟩ := hdesc
  -- of the stretch, the rows up to `z` are `z` and what comes after it
  have hpart : (orderByDesc key (rows.filter p)).filter (fun r => key r ≤ key z) = z :: post := by
    have hnone : pre.filter (fun r => key r ≤ key z) = [] := by
      rw [List.filter_eq_nil_iff]
      intro r hr hle
      exact absurd (of_decide_eq_true hle) (not_le.mpr (hpre r hr z List.mem_cons_self))
    have hall : (z :: post).filter (fun r => key r ≤ key z) = z :: post := by
      rw [List.filter_eq_self]
      intro r hr
      rcases List.mem_cons.mp hr with rfl | hr
      · exact decide_eq_true le_rfl
      · exact decide_eq_true (hpost r hr).le
    rw [hsplit, List.filter_append, hnone, hall, List.nil_append]
  have hsum : ((rows.filter fun r => p r && decide (key r ≤ key z)).map amount).sum =
      ((z :: post).map amount).sum := by
    rw [← hpart]
    refine (((perm_orderByDesc.filter _).trans ?_).map amount).sum_eq.symm
    rw [List.filter_filter]
    exact List.Perm.of_eq (List.filter_congr fun r _ => Bool.and_comm _ _)
  rw [sumUpTo, ← hsum]
  apply sum_filter_or
  · intro y hy
    rw [Bool.eq_iff_iff]
    simp only [decide_eq_true_eq, Bool.or_eq_true, Bool.and_eq_true]
    constructor
    · intro hle
      rcases hclosed y hy z hz.1 hz.2 hle with hq | hp
      · exact Or.inl hq
      · exact Or.inr ⟨hp, hle⟩
    · rintro (hq | ⟨_, hle⟩)
      · exact (hbefore y hy z hz.1 hq hz.2).le
      · exact hle
  · intro y hy hq
    have hp : p y = false := by
      by_contra hp
      exact absurd (hbefore y hy y hy hq (by simpa using hp)) (lt_irrefl _)
    simp [hp]

theorem sum_lower_eq {p : R → Bool} (h : DistinctKeys key rows)
    (hlower : ∀ y ∈ rows, ∀ z ∈ rows, p z = true → key y ≤ key z → p y = true)
    (amount : R → M) : ((rows.filter p).map amount).sum = 0 ∨
      ∃ z ∈ rows, ((rows.filter p).map amount).sum = sumUpTo key amount rows (key z) := by
  have hsum : ((rows.filter p).map amount).sum =
      ((orderByDesc key (rows.filter p)).map amount).sum := (perm_orderByDesc.map amount).sum_eq.symm
  rw [hsum]
  cases hsorted : orderByDesc key (rows.filter p) with
  | nil => exact Or.inl rfl
  | cons z post =>
    have hmem : z ∈ orderByDesc key (rows.filter p) := by simp [hsorted]
    refine Or.inr ⟨z, List.mem_of_mem_filter (perm_orderByDesc.mem_iff.mp hmem), ?_⟩
    have hstretch := sumUpTo_stretch (q := fun _ => false) h (by simp)
      (fun y hy z hz hp hle => Or.inr (hlower y hy z hz hp hle))
      (hsorted.trans (List.nil_append _).symm) amount
    simpa using hstretch.symm

theorem runningSums_eq (total : M) (h : rows.Pairwise fun a b => key a < key b) :
    runningSums amount total rows =
      rows.map fun r => (r, total + sumUpTo key amount rows (key r)) := by
  induction rows generalizing total with
  | nil => rfl
  | cons r rows ih =>
    obtain ⟨hr, hrest⟩ := List.pairwise_cons.mp h
    have hself : sumUpTo key amount (r :: rows) (key r) = amount r := by
      rw [sumUpTo_cons, if_pos le_rfl, sumUpTo_eq_zero hr, add_zero]
    rw [runningSums, ih _ hrest, List.map_cons, hself]
    congr 1
    apply List.map_congr_left
    intro r' hr'
    rw [sumUpTo_cons, if_pos (hr r' hr').le, add_assoc]

theorem windowSums_eq (h : DistinctKeys key rows) :
    windowSums key amount rows =
      (orderBy key rows).map fun r => (r, sumUpTo key amount rows (key r)) := by
  rw [windowSums, runningSums_eq 0 (ascending_orderBy h)]
  apply List.map_congr_left
  intro r _
  rw [zero_add, sumUpTo_perm perm_orderBy]

end Monierave.Relational
