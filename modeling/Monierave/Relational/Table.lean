import Mathlib.Algebra.BigOperators.Group.List.Basic
import Mathlib.Algebra.Ring.Int.Defs
import Mathlib.Data.List.Find
import Mathlib.Data.List.Pairwise

/-! # Tables with unique indexes

A table is a list of rows in insertion order.
-/

namespace Monierave.Relational

/-- The index entries of a row. A partial unique index contributes an entry
only for the rows it covers. Entries of the primary index belong to no other
index, so an entry that is some row's primary key identifies that row. -/
class Keyed (R : Type) (κ : outParam Type) where
  pk : R → κ
  keys : R → List κ
  pk_mem : ∀ r, pk r ∈ keys r := by simp
  pk_of_mem : ∀ {r s}, pk r ∈ keys s → pk s = pk r := by
    intro r s h
    simpa [eq_comm] using h

export Keyed (pk keys)

variable {R κ : Type} [Keyed R κ]

structure Table (R : Type) {κ : Type} [Keyed R κ] where
  rows : List R
  unique : rows.Pairwise fun a b => ∀ k ∈ keys a, k ∉ keys b

namespace Table

def empty : Table R := ⟨[], .nil⟩

instance : EmptyCollection (Table R) := ⟨empty⟩

variable {t : Table R} {a b r o : R} {k j : κ}

@[simp] theorem empty_rows : (∅ : Table R).rows = [] := rfl

@[ext] theorem ext {t' : Table R} (h : t.rows = t'.rows) : t = t' := by
  cases t; cases t'; cases h; rfl

theorem eq_of_shared (ha : a ∈ t.rows) (hb : b ∈ t.rows) (hka : k ∈ keys a) (hkb : k ∈ keys b) :
    a = b := by
  by_contra hne
  have hs : Std.Symm fun a b : R => ∀ k ∈ keys a, k ∉ keys b :=
    ⟨fun _ _ h j hj hj' => h j hj' hj⟩
  exact t.unique.forall ha hb hne k hka hkb

theorem pk_injOn (ha : a ∈ t.rows) (hb : b ∈ t.rows) (h : pk a = pk b) : a = b :=
  eq_of_shared ha hb (Keyed.pk_mem a) (h ▸ Keyed.pk_mem b)

theorem nodup (t : Table R) : t.rows.Nodup := by
  refine List.Pairwise.imp ?_ t.unique
  rintro a b h rfl
  exact h _ (Keyed.pk_mem a) (Keyed.pk_mem a)

section Entries

variable [DecidableEq κ]

def get (t : Table R) (k : κ) : Option R := t.rows.find? fun r => decide (k ∈ keys r)

theorem get_eq_some : t.get k = some r ↔ r ∈ t.rows ∧ k ∈ keys r := by
  constructor
  · intro h
    exact ⟨List.mem_of_find?_eq_some h, by simpa using List.find?_some h⟩
  · rintro ⟨hr, hk⟩
    cases hf : t.get k with
    | none =>
      have := List.find?_eq_none.mp hf r hr
      simp [hk] at this
    | some r' =>
      have hm : r' ∈ t.rows := List.mem_of_find?_eq_some hf
      have hk' : k ∈ keys r' := by simpa using List.find?_some hf
      rw [eq_of_shared hr hm hk hk']

theorem get_eq_none : t.get k = none ↔ ∀ r ∈ t.rows, k ∉ keys r := by
  simp [get]

theorem mem_of_get (h : t.get k = some r) : r ∈ t.rows :=
  (get_eq_some.mp h).1

theorem key_of_get (h : t.get k = some r) : k ∈ keys r :=
  (get_eq_some.mp h).2

theorem get_key (hr : r ∈ t.rows) (hk : k ∈ keys r) :
    t.get k = some r := get_eq_some.mpr ⟨hr, hk⟩

theorem get_pk (hr : r ∈ t.rows) : t.get (pk r) = some r :=
  get_key hr (Keyed.pk_mem r)

@[simp] theorem get_empty (k : κ) : (∅ : Table R).get k = none := rfl

theorem get_eq_of_key (h : t.get k = some r) (hj : j ∈ keys r) :
    t.get j = some r := get_key (mem_of_get h) hj

theorem filter_key (t : Table R) (k : κ) :
    t.rows.filter (fun r => decide (k ∈ keys r)) = (t.get k).toList := by
  cases hg : t.get k with
  | none => simpa using get_eq_none.mp hg
  | some r =>
    have hnodup : (t.rows.filter fun r => decide (k ∈ keys r)).Nodup := t.nodup.filter _
    have hmem : ∀ a, a ∈ t.rows.filter (fun r => decide (k ∈ keys r)) ↔ a ∈ [r] := by
      intro a
      rw [List.mem_filter, decide_eq_true_eq, ← get_eq_some, hg, List.mem_singleton,
        Option.some.injEq, eq_comm]
    exact List.perm_singleton.mp ((List.perm_ext_iff_of_nodup hnodup (by simp)).mpr hmem)

/-! ## Insert -/

/-- The first entry of `r` that another row already occupies. -/
def conflict (t : Table R) (r : R) : Option κ := (keys r).find? fun k => (t.get k).isSome

theorem conflict_eq_none : t.conflict r = none ↔ ∀ k ∈ keys r, t.get k = none := by
  simp [conflict]

theorem unique_insert (h : t.conflict r = none) :
    (t.rows ++ [r]).Pairwise fun a b => ∀ k ∈ keys a, k ∉ keys b := by
  rw [List.pairwise_append]
  refine ⟨t.unique, List.pairwise_singleton _ _, ?_⟩
  intro a ha b hb k hk hkb
  rw [List.mem_singleton] at hb
  subst hb
  have := conflict_eq_none.mp h k hkb
  exact get_eq_none.mp this a ha hk

def insert (t : Table R) (r : R) : Table R :=
  if h : t.conflict r = none then ⟨t.rows ++ [r], unique_insert h⟩ else t

theorem insert_rows (h : t.conflict r = none) : (t.insert r).rows = t.rows ++ [r] := by
  simp [insert, h]

theorem mem_insert (h : t.conflict r = none) : a ∈ (t.insert r).rows ↔ a ∈ t.rows ∨ a = r := by
  simp [insert_rows h]

theorem insert_of_conflict (h : t.conflict r ≠ none) : t.insert r = t := by
  simp [insert, h]

theorem mem_of_mem_insert (h : a ∈ (t.insert r).rows) : a ∈ t.rows ∨ a = r := by
  by_cases hc : t.conflict r = none
  · exact (mem_insert hc).mp h
  · rw [insert_of_conflict hc] at h
    exact Or.inl h

theorem get_insert (h : t.conflict r = none) (k : κ) :
    (t.insert r).get k = if k ∈ keys r then some r else t.get k := by
  by_cases hk : k ∈ keys r
  · rw [if_pos hk, get_eq_some, insert_rows h]
    exact ⟨by simp, hk⟩
  · rw [if_neg hk]
    cases hg : t.get k with
    | none =>
      rw [get_eq_none, insert_rows h]
      intro a ha
      rcases List.mem_append.mp ha with ha | ha
      · exact get_eq_none.mp hg a ha
      · rw [List.mem_singleton] at ha
        exact ha ▸ hk
    | some a =>
      rw [get_eq_some, insert_rows h]
      exact ⟨by simp [mem_of_get hg], key_of_get hg⟩

theorem get_insert_of_notMem (hk : k ∉ keys r) : (t.insert r).get k = t.get k := by
  by_cases h : t.conflict r = none
  · rw [get_insert h, if_neg hk]
  · rw [insert_of_conflict h]

theorem get_insert_of_get (h : t.conflict r = none) (ho : t.get k = some o) :
    (t.insert r).get k = some o := by
  rw [get_insert_of_notMem, ho]
  intro hk
  rw [conflict_eq_none.mp h k hk] at ho
  cases ho

theorem get_insert_self (h : t.conflict r = none) (hk : k ∈ keys r) :
    (t.insert r).get k = some r := by
  rw [get_insert h, if_pos hk]

/-! ## Update -/

/-- The first entry of the new version `r` that belongs to some other row. -/
def clash (t : Table R) (r : R) : Option κ :=
  (keys r).find? fun k => (t.get k).any fun a => decide (pk a ≠ pk r)

theorem clash_eq_none : t.clash r = none ↔ ∀ k ∈ keys r, ∀ a, t.get k = some a → pk a = pk r := by
  simp [clash, Option.any_eq_true]

def replace (r a : R) : R := if pk a = pk r then r else a

theorem replace_of_eq (h : pk a = pk r) : replace r a = r := by simp [replace, h]

theorem replace_of_ne (h : pk a ≠ pk r) : replace r a = a := by simp [replace, h]

theorem unique_update (h : t.clash r = none) :
    (t.rows.map (replace r)).Pairwise fun a b => ∀ k ∈ keys a, k ∉ keys b := by
  rw [List.pairwise_map]
  have hc := clash_eq_none.mp h
  refine List.Pairwise.imp_of_mem ?_ t.unique
  intro a b ha hb hab k hk hkb
  by_cases h1 : pk a = pk r <;> by_cases h2 : pk b = pk r
  · exact hab _ (Keyed.pk_mem a) (by rw [h1, ← h2]; exact Keyed.pk_mem b)
  · rw [replace_of_eq h1] at hk
    rw [replace_of_ne h2] at hkb
    exact h2 (hc k hk b (get_key hb hkb))
  · rw [replace_of_ne h1] at hk
    rw [replace_of_eq h2] at hkb
    exact h1 (hc k hkb a (get_key ha hk))
  · rw [replace_of_ne h1] at hk
    rw [replace_of_ne h2] at hkb
    exact hab k hk hkb

/-- Write a new version of the row with `r`'s primary key. -/
def update (t : Table R) (r : R) : Table R :=
  if h : t.clash r = none then ⟨t.rows.map (replace r), unique_update h⟩ else t

theorem update_rows (h : t.clash r = none) : (t.update r).rows = t.rows.map (replace r) := by
  simp [update, h]

theorem update_of_clash (h : t.clash r ≠ none) : t.update r = t := by
  simp [update, h]

theorem pk_of_get (ho : t.get (pk r) = some o) : pk o = pk r :=
  Keyed.pk_of_mem (key_of_get ho)

theorem clash_of_keys_subset (ho : t.get (pk r) = some o) (hk : ∀ k ∈ keys r, k ∈ keys o) :
    t.clash r = none := by
  rw [clash_eq_none]
  intro k hkr a ha
  have : t.get k = some o := get_eq_of_key ho (hk k hkr)
  rw [this] at ha
  cases ha
  exact pk_of_get ho

theorem clash_of_same_keys (ho : t.get (pk r) = some o) (hk : keys o = keys r) : t.clash r = none :=
  clash_of_keys_subset ho fun _ hkr => hk ▸ hkr

theorem mem_update (h : t.clash r = none) (ho : t.get (pk r) = some o) :
    a ∈ (t.update r).rows ↔ a = r ∨ (a ∈ t.rows ∧ pk a ≠ pk r) := by
  rw [update_rows h, List.mem_map]
  constructor
  · rintro ⟨b, hb, rfl⟩
    by_cases hbr : pk b = pk r
    · exact Or.inl (replace_of_eq hbr)
    · rw [replace_of_ne hbr]
      exact Or.inr ⟨hb, hbr⟩
  · rintro (rfl | ⟨ha, hne⟩)
    · exact ⟨o, mem_of_get ho, replace_of_eq (pk_of_get ho)⟩
    · exact ⟨a, ha, replace_of_ne hne⟩

theorem get_update (h : t.clash r = none) (ho : t.get (pk r) = some o) (k : κ) :
    (t.update r).get k = if k ∈ keys r then some r else if k ∈ keys o then none else t.get k := by
  by_cases hk : k ∈ keys r
  · rw [if_pos hk, get_eq_some, mem_update h ho]
    exact ⟨Or.inl rfl, hk⟩
  rw [if_neg hk]
  by_cases hko : k ∈ keys o
  · rw [if_pos hko, get_eq_none]
    intro a ha hka
    rcases (mem_update h ho).mp ha with rfl | ⟨ha, hne⟩
    · exact hk hka
    · have := eq_of_shared ha (mem_of_get ho) hka hko
      exact hne (this ▸ pk_of_get ho)
  · rw [if_neg hko]
    cases hg : t.get k with
    | none =>
      rw [get_eq_none]
      intro a ha
      rcases (mem_update h ho).mp ha with rfl | ⟨ha, _⟩
      · exact hk
      · exact get_eq_none.mp hg a ha
    | some a =>
      rw [get_eq_some, mem_update h ho]
      refine ⟨Or.inr ⟨mem_of_get hg, ?_⟩, key_of_get hg⟩
      intro hpa
      have : a = o := pk_injOn (mem_of_get hg) (mem_of_get ho) (hpa.trans (pk_of_get ho).symm)
      exact hko (this ▸ key_of_get hg)

theorem get_update_same_keys (ho : t.get (pk r) = some o) (hk : keys o = keys r) (k : κ) :
    (t.update r).get k = if k ∈ keys r then some r else t.get k := by
  rw [get_update (clash_of_same_keys ho hk) ho, hk]
  by_cases h : k ∈ keys r
  · rw [if_pos h, if_pos h]
  · rw [if_neg h, if_neg h, if_neg h]

theorem update_of_absent (h : t.get (pk r) = none) : t.update r = t := by
  by_cases hc : t.clash r = none
  · apply ext
    rw [update_rows hc]
    calc
      t.rows.map (replace r) = t.rows.map id := by
        apply List.map_congr_left
        intro a ha
        apply replace_of_ne
        intro hpa
        exact get_eq_none.mp h a ha (hpa ▸ Keyed.pk_mem a)
      _ = t.rows := List.map_id _
  · exact update_of_clash hc

theorem get_update_of_notMem (hk : k ∉ keys r) (hold : ∀ o, t.get (pk r) = some o → k ∉ keys o) :
    (t.update r).get k = t.get k := by
  by_cases hc : t.clash r = none
  · cases ho : t.get (pk r) with
    | none => rw [update_of_absent ho]
    | some o => rw [get_update hc ho, if_neg hk, if_neg (hold o ho)]
  · rw [update_of_clash hc]

theorem update_insert {r' : R} (h : t.conflict r = none) (hk : keys r' = keys r)
    (hp : pk r' = pk r) : (t.insert r).update r' = t.insert r' := by
  have hget : (t.insert r).get (pk r') = some r := by
    rw [get_insert h, if_pos (hp ▸ Keyed.pk_mem r)]
  have h' : t.conflict r' = none := by
    rw [conflict_eq_none, hk]
    exact conflict_eq_none.mp h
  have hold : t.rows.map (replace r') = t.rows := by
    calc
      t.rows.map (replace r') = t.rows.map id := by
        apply List.map_congr_left
        intro a ha
        apply replace_of_ne
        intro hpa
        have hnone := conflict_eq_none.mp h' _ (Keyed.pk_mem r')
        exact get_eq_none.mp hnone a ha (hpa ▸ Keyed.pk_mem a)
      _ = t.rows := List.map_id _
  apply ext
  rw [update_rows (clash_of_same_keys hget hk.symm), insert_rows h, insert_rows h',
    List.map_append, hold]
  simp [replace_of_eq hp.symm]

theorem get_update_insert {o' : R} (h : t.conflict r = none) (ho : t.get (pk o) = some o)
    (hk : keys o' = keys o) (k : κ) :
    ((t.insert r).update o').get k =
      if k ∈ keys o' then some o' else if k ∈ keys r then some r else t.get k := by
  have hp : pk o' = pk o := (Keyed.pk_of_mem (hk ▸ Keyed.pk_mem o')).symm
  have hne : pk o ∉ keys r := by
    intro hmem
    rw [conflict_eq_none.mp h _ hmem] at ho
    cases ho
  have ho' : (t.insert r).get (pk o') = some o := by
    rw [hp, get_insert h, if_neg hne, ho]
  rw [get_update_same_keys ho' hk.symm, get_insert h]

/-! ## Delete -/

def delete (t : Table R) (k : κ) : Table R :=
  ⟨t.rows.filter fun r => decide (k ∉ keys r), t.unique.filter _⟩

theorem mem_delete : a ∈ (t.delete k).rows ↔ a ∈ t.rows ∧ k ∉ keys a := by
  simp [delete]

theorem get_delete_of_notMem (h : ∀ o, t.get k = some o → j ∉ keys o) :
    (t.delete k).get j = t.get j := by
  cases hg : t.get j with
  | none =>
    rw [get_eq_none]
    intro a ha
    exact get_eq_none.mp hg a (mem_delete.mp ha).1
  | some a =>
    rw [get_eq_some, mem_delete]
    refine ⟨⟨mem_of_get hg, ?_⟩, key_of_get hg⟩
    intro hk
    exact h a (get_key (mem_of_get hg) hk) (key_of_get hg)

theorem get_delete_self (ho : t.get k = some o) (hj : j ∈ keys o) : (t.delete k).get j = none := by
  rw [get_eq_none]
  intro a ha hja
  obtain ⟨ha, hk⟩ := mem_delete.mp ha
  exact hk (eq_of_shared ha (mem_of_get ho) hja hj ▸ key_of_get ho)

/-- Remove all rows that do not satisfy `p`. -/
def keep (t : Table R) (p : R → Bool) : Table R := ⟨t.rows.filter p, t.unique.filter _⟩

theorem get_keep (t : Table R) (p : R → Bool) (k : κ) : (t.keep p).get k = (t.get k).filter p := by
  cases hg : t.get k with
  | none =>
    rw [get_eq_none] at hg
    exact get_eq_none.mpr fun r hr => hg r (List.mem_of_mem_filter hr)
  | some r =>
    obtain ⟨hr, hk⟩ := get_eq_some.mp hg
    by_cases hp : p r = true
    · rw [Option.filter_some_pos hp, get_eq_some]
      exact ⟨List.mem_filter.mpr ⟨hr, hp⟩, hk⟩
    · rw [Option.filter_some_neg (Bool.not_eq_true _ ▸ hp), get_eq_none]
      intro a ha hka
      obtain ⟨ha, hpa⟩ := List.mem_filter.mp ha
      exact hp (eq_of_shared ha hr hka hk ▸ hpa)

def revise (t : Table R) (f : R → R) (hf : ∀ r, keys (f r) = keys r) : Table R :=
  ⟨t.rows.map f, List.pairwise_map.mpr (t.unique.imp fun h k hk => by
    rw [hf] at hk ⊢
    exact h k hk)⟩

theorem get_revise (t : Table R) (f : R → R) (hf : ∀ r, keys (f r) = keys r) (k : κ) :
    (t.revise f hf).get k = (t.get k).map f := by
  cases hg : t.get k with
  | none =>
    rw [get_eq_none] at hg
    refine get_eq_none.mpr fun r hr => ?_
    obtain ⟨a, ha, rfl⟩ := List.mem_map.mp hr
    rw [hf]
    exact hg a ha
  | some r =>
    obtain ⟨hr, hk⟩ := get_eq_some.mp hg
    exact get_eq_some.mpr ⟨List.mem_map_of_mem hr, by rwa [hf]⟩

/-! ## Writes that name the version they replace -/

section Versions

variable [DecidableEq R]

/-- Write the new version `r` over the version `o`; nothing happens if `o` is
not the present version. -/
def amend (t : Table R) (o r : R) : Table R := if t.get (pk r) = some o then t.update r else t

variable {t : Table R} {o r : R} {k : κ}

theorem amend_eq (h : t.get (pk r) = some o) : t.amend o r = t.update r :=
  if_pos h

theorem mem_of_mem_amend {a : R} (h : a ∈ (t.amend o r).rows) : a ∈ t.rows ∨ a = r := by
  by_cases ho : t.get (pk r) = some o
  · rw [amend_eq ho] at h
    by_cases hc : t.clash r = none
    · rcases (mem_update hc ho).mp h with rfl | ⟨ha, _⟩
      · exact Or.inr rfl
      · exact Or.inl ha
    · rw [update_of_clash hc] at h
      exact Or.inl h
  · rw [amend, if_neg ho] at h
    exact Or.inl h

/-- Delete the row `o`; nothing happens if `o` is not the present version. -/
def remove (t : Table R) (o : R) : Table R := if t.get (pk o) = some o then t.delete (pk o) else t

theorem remove_eq (h : t.get (pk o) = some o) :
    t.remove o = t.delete (pk o) := if_pos h

theorem get_amend_of_notMem (ho : k ∉ keys o) (hr : k ∉ keys r) :
    (t.amend o r).get k = t.get k := by
  unfold amend
  split
  · rename_i h
    apply get_update_of_notMem hr
    intro o' ho'
    rw [h] at ho'
    cases ho'
    exact ho
  · rfl

theorem get_remove_of_ne (hk : t.get k ≠ some o) : (t.remove o).get k = t.get k := by
  unfold remove
  split
  · rename_i h
    apply get_delete_of_notMem
    intro o' ho' hmem
    rw [h] at ho'
    cases ho'
    exact hk (get_eq_of_key h hmem)
  · rfl

theorem get_remove_eq_none (h : t.get (pk o) = some o) :
    (t.remove o).get k = none ↔ ∀ r, t.get k = some r → r = o := by
  by_cases hk : t.get k = some o
  · rw [remove_eq h, get_delete_self h (key_of_get hk)]
    simp [hk]
  · rw [get_remove_of_ne hk, Option.eq_none_iff_forall_ne_some]
    exact forall₂_congr fun r hr => iff_of_false not_false fun heq => hk (heq ▸ hr)

theorem get_remove_of_notMem (ho : k ∉ keys o) :
    (t.remove o).get k = t.get k :=
  get_remove_of_ne fun h => ho (key_of_get h)

end Versions

/-! ## Two tables that answer alike

A write has the same effect on the answers of two tables that agree on the
entries the write touches. -/

section Agreement

variable {t t' : Table R}

variable {r o : R} {k : κ}

theorem conflict_congr (h : ∀ j ∈ keys r, t.get j = t'.get j) : t.conflict r = t'.conflict r := by
  unfold conflict
  apply List.find?_congr
  intro j hj
  rw [h j hj]

theorem clash_congr (h : ∀ j ∈ keys r, t.get j = t'.get j) : t.clash r = t'.clash r := by
  unfold clash
  apply List.find?_congr
  intro j hj
  rw [h j hj]

theorem get_insert_congr (h : ∀ j ∈ keys r, t.get j = t'.get j) (hk : t.get k = t'.get k) :
    (t.insert r).get k = (t'.insert r).get k := by
  by_cases hc : t.conflict r = none
  · rw [get_insert hc, get_insert (conflict_congr h ▸ hc), hk]
  · rw [insert_of_conflict hc, insert_of_conflict (conflict_congr h ▸ hc), hk]

theorem get_update_congr (h : ∀ j ∈ keys r, t.get j = t'.get j) (hk : t.get k = t'.get k) :
    (t.update r).get k = (t'.update r).get k := by
  by_cases hc : t.clash r = none
  · have hpk := h _ (Keyed.pk_mem r)
    cases ho : t.get (pk r) with
    | none => rw [update_of_absent ho, update_of_absent (hpk ▸ ho), hk]
    | some o => rw [get_update hc ho, get_update (clash_congr h ▸ hc) (hpk ▸ ho), hk]
  · rw [update_of_clash hc, update_of_clash (clash_congr h ▸ hc), hk]

theorem get_delete_congr {j : κ} (h : t.get j = t'.get j) (hk : t.get k = t'.get k) :
    (t.delete j).get k = (t'.delete j).get k := by
  cases ho : t.get j with
  | none =>
    rw [get_delete_of_notMem (by simp [ho]), get_delete_of_notMem (by simp [← h, ho]), hk]
  | some o =>
    by_cases hko : k ∈ keys o
    · rw [get_delete_self ho hko, get_delete_self (h ▸ ho) hko]
    · rw [get_delete_of_notMem, get_delete_of_notMem, hk]
      · intro o' ho'
        rw [← h, ho] at ho'
        cases ho'
        exact hko
      · intro o' ho'
        rw [ho] at ho'
        cases ho'
        exact hko

variable [DecidableEq R]

theorem get_amend_congr (h : ∀ j ∈ keys r, t.get j = t'.get j) (hk : t.get k = t'.get k) :
    (t.amend o r).get k = (t'.amend o r).get k := by
  have hpk := h _ (Keyed.pk_mem r)
  unfold amend
  by_cases ho : t.get (pk r) = some o
  · rw [if_pos ho, if_pos (hpk ▸ ho)]
    exact get_update_congr h hk
  · rw [if_neg ho, if_neg (hpk ▸ ho)]
    exact hk

theorem get_remove_congr (h : t.get (pk o) = t'.get (pk o)) (hk : t.get k = t'.get k) :
    (t.remove o).get k = (t'.remove o).get k := by
  unfold remove
  by_cases ho : t.get (pk o) = some o
  · rw [if_pos ho, if_pos (h ▸ ho)]
    exact get_delete_congr h hk
  · rw [if_neg ho, if_neg (h ▸ ho)]
    exact hk

end Agreement

end Entries

/-! ## Row by row

How the rows of a table that was only updated relate to those it had before. -/

/-- The tables have the same rows up to `rel`. -/
def Pointwise (rel : R → R → Prop) (t t' : Table R) : Prop := List.Forall₂ rel t.rows t'.rows

section Pointwise

variable {rel rel' rel'' : R → R → Prop} {t t' t'' : Table R} {a a' : R}

theorem pointwise_refl (h : ∀ a ∈ t.rows, rel a a) : Pointwise rel t t :=
  List.forall₂_same.mpr h

theorem Pointwise.trans (h : Pointwise rel t t') (h' : Pointwise rel' t' t'')
    (hrel : ∀ a b c, rel a b → rel' b c → rel'' a c) : Pointwise rel'' t t'' := by
  unfold Pointwise at h h' ⊢
  generalize t.rows = l at h
  generalize t'.rows = l' at h h'
  generalize t''.rows = l'' at h'
  induction h generalizing l'' with
  | nil =>
    cases h'
    exact .nil
  | cons hab _ ih =>
    cases h' with
    | cons hbc htail => exact .cons (hrel _ _ _ hab hbc) (ih _ htail)

theorem Pointwise.mem_left (h : Pointwise rel t t') (ha : a ∈ t.rows) :
    ∃ a' ∈ t'.rows, rel a a' := by
  unfold Pointwise at h
  generalize t.rows = l at h ha
  generalize t'.rows = l' at h
  induction h with
  | nil => cases ha
  | cons hab _ ih =>
    rcases List.mem_cons.mp ha with rfl | ha
    · exact ⟨_, List.mem_cons_self, hab⟩
    · obtain ⟨a', ha', hrel⟩ := ih ha
      exact ⟨a', List.mem_cons_of_mem _ ha', hrel⟩

theorem Pointwise.mem_right (h : Pointwise rel t t') (ha' : a' ∈ t'.rows) :
    ∃ a ∈ t.rows, rel a a' := by
  have hflip : Pointwise (flip rel) t' t := List.Forall₂.flip h
  exact hflip.mem_left ha'

theorem Pointwise.map_eq {V : Type*} {f : R → V} (h : Pointwise rel t t')
    (hrel : ∀ a a', rel a a' → f a' = f a) : t'.rows.map f = t.rows.map f := by
  unfold Pointwise at h
  generalize t.rows = l at h
  generalize t'.rows = l' at h
  induction h with
  | nil => rfl
  | cons hab _ ih => rw [List.map_cons, List.map_cons, ih, hrel _ _ hab]

variable [DecidableEq κ]

theorem Pointwise.get (h : Pointwise rel t t') (hkeys : ∀ a a', rel a a' → keys a' = keys a)
    {k : κ} {a : R} (ha : t.get k = some a) : ∃ a', t'.get k = some a' ∧ rel a a' := by
  obtain ⟨a', ha', hrel⟩ := h.mem_left (mem_of_get ha)
  exact ⟨a', get_key ha' (hkeys a a' hrel ▸ key_of_get ha), hrel⟩

theorem Pointwise.get_before (h : Pointwise rel t t')
    (hkeys : ∀ a a', rel a a' → keys a' = keys a) {k : κ} {a' : R} (ha' : t'.get k = some a') :
    ∃ a, t.get k = some a ∧ rel a a' := by
  obtain ⟨a, ha, hrel⟩ := h.mem_right (mem_of_get ha')
  exact ⟨a, get_key ha (hkeys a a' hrel ▸ key_of_get ha'), hrel⟩

theorem pointwise_update {r o : R} (ho : t.get (pk r) = some o) (hk : keys o = keys r)
    (hrel : rel o r) (hrefl : ∀ a ∈ t.rows, pk a ≠ pk r → rel a a) :
    Pointwise rel t (t.update r) := by
  rw [Pointwise, update_rows (clash_of_same_keys ho hk), List.forall₂_map_right_iff,
    List.forall₂_same]
  intro a ha
  by_cases hp : pk a = pk r
  · rw [replace_of_eq hp, pk_injOn ha (mem_of_get ho) (hp.trans (pk_of_get ho).symm)]
    exact hrel
  · rw [replace_of_ne hp]
    exact hrefl a ha hp

end Pointwise

end Table

end Monierave.Relational
