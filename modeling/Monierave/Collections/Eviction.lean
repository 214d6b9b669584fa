import Monierave.Collections.Maps

/-! # Maps with a list of their keys

A map that is bounded by evicting its oldest entries goes with a list of its keys,
in the order in which they were added.
-/

namespace Monierave.Collections

namespace Map

variable {κ β : Type} {m : Map κ β} {ks : List κ} {k k' : κ} {v : β} {bound : ℕ}

def Listed (m : Map κ β) (ks : List κ) : Prop := ks.Perm m.keys

namespace Listed

theorem nodup (h : Listed m ks) : ks.Nodup := h.nodup_iff.mpr m.keys_nodup

theorem mem_iff (h : Listed m ks) : k ∈ ks ↔ k ∈ m := List.Perm.mem_iff h

theorem length_eq (h : Listed m ks) : ks.length = size m := by
  rw [List.Perm.length_eq h, size, AList.keys, List.keys, List.length_map]

end Listed

variable [DecidableEq κ]

/-- Remove entries from the front of the list until the map is within the bound, or the
list is used up. -/
def evict (bound : ℕ) : Map κ β → List κ → Map κ β × List κ
  | m, [] => (m, [])
  | m, k :: ks => if bound < size m then evict bound (m.erase k) ks else (m, k :: ks)

def removeFirst (k : κ) (ks : List κ) : List κ := ks.erase k

namespace Listed

theorem erase (h : Listed m ks) (k : κ) : Listed (m.erase k) (removeFirst k ks) := by
  rw [Listed, AList.keys_erase, removeFirst]
  exact List.Perm.erase k h

theorem insert_of_mem (h : Listed m ks) (hk : k ∈ m) : Listed (m.insert k v) ks := by
  rw [Listed, AList.keys_insert]
  exact h.trans (List.perm_cons_erase (AList.mem_keys.mp hk))

theorem insert_of_notMem (h : Listed m ks) (hk : k ∉ m) :
    Listed (m.insert k v) (ks ++ [k]) := by
  rw [Listed, AList.keys_insert, List.erase_of_not_mem fun hmem => hk (AList.mem_keys.mpr hmem)]
  exact (List.perm_append_singleton k ks).trans (h.cons k)

theorem evict (h : Listed m ks) : Listed (evict bound m ks).1 (evict bound m ks).2 := by
  induction ks generalizing m with
  | nil => exact h
  | cons k ks ih =>
    rw [Map.evict]
    split
    · have hrest := h.erase k
      rw [removeFirst, List.erase_cons_head] at hrest
      exact ih hrest
    · exact h

theorem size_evict_le (h : Listed m ks) : size (Map.evict bound m ks).1 ≤ bound := by
  induction ks generalizing m with
  | nil =>
    -- a map without listed keys is empty
    rw [Map.evict, ← h.length_eq]
    exact Nat.zero_le bound
  | cons k ks ih =>
    rw [Map.evict]
    split
    · have hrest := h.erase k
      rw [removeFirst, List.erase_cons_head] at hrest
      exact ih hrest
    · rename_i hsize
      exact Nat.le_of_not_lt hsize

end Listed

theorem lookup_of_lookup_erase (h : (m.erase k').lookup k = some v) : m.lookup k = some v := by
  by_cases hk : k = k'
  · rw [hk, AList.lookup_erase] at h
    cases h
  · rwa [AList.lookup_erase_ne hk] at h

theorem lookup_of_lookup_evict (h : (evict bound m ks).1.lookup k = some v) :
    m.lookup k = some v := by
  induction ks generalizing m with
  | nil => exact h
  | cons k' ks ih =>
    rw [evict] at h
    split at h
    · exact lookup_of_lookup_erase (ih h)
    · exact h

end Map

end Monierave.Collections
