import Mathlib.Data.List.AList

/-! # Finite maps

Maps with their number of entries, as association lists without duplicate keys: which
entries are left by a filter, and what insertion and removal do to the number.
-/

namespace Monierave.Collections

abbrev Map (κ β : Type) := AList fun _ : κ => β

namespace Map

variable {κ β : Type} {p : κ → β → Bool} {k : κ} {v : β} {m : Map κ β}

def size (m : Map κ β) : ℕ := m.entries.length

def keep (p : κ → β → Bool) (m : Map κ β) : Map κ β where
  entries := m.entries.filter fun e => p e.1 e.2
  nodupKeys := m.nodupKeys.sublist List.filter_sublist

theorem size_keep_le : size (keep p m) ≤ size m := List.length_filter_le _ _

variable [DecidableEq κ]

theorem lookup_keep : (keep p m).lookup k = (m.lookup k).filter (p k) := by
  refine Option.ext fun v => ?_
  rw [← Option.mem_def, AList.mem_lookup_iff, Option.filter_eq_some_iff, ← Option.mem_def,
    AList.mem_lookup_iff]
  exact List.mem_filter

theorem size_insert_of_mem (h : k ∈ m) : size (m.insert k v) = size m := by
  have hlength := List.length_erase_of_mem (AList.mem_keys.mp h)
  have hpos := List.length_pos_of_mem (AList.mem_keys.mp h)
  have hkeys := congrArg List.length (AList.keys_insert (b := v) (a := k) m)
  simp only [AList.keys, List.keys, List.length_map, List.length_cons] at hkeys hlength hpos
  rw [size, size]
  omega

theorem size_insert_le : size (m.insert k v) ≤ size m + 1 := by
  have hkeys := congrArg List.length (AList.keys_insert (b := v) (a := k) m)
  have hlength := List.length_erase_le (a := k) (l := m.keys)
  simp only [AList.keys, List.keys, List.length_map, List.length_cons] at hkeys hlength
  rw [size, size]
  omega

theorem size_erase_le : size (m.erase k) ≤ size m := (List.kerase_sublist k m.entries).length_le

theorem size_keep_erase_le : size (keep p (m.erase k)) ≤ size (keep p m) :=
  ((List.kerase_sublist k m.entries).filter _).length_le

end Map

end Monierave.Collections
