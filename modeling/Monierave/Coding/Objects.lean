import Mathlib.Data.List.Perm.Basic
import Mathlib.Data.List.Nodup
import Mathlib.Tactic.Common

/-! # JSON objects of plain members

Objects as they are written from the fields of a record, some of which are left out,
and read into the fields of another one.
-/

namespace Monierave.Coding

/-- A value that a plain member can have. -/
inductive Value
  | null
  | bool (b : Bool)
  | number (n : Int)
  | string (s : String)
  deriving DecidableEq

abbrev Object := List (String × Value)

def object (fields : List (String × Option Value)) : Object :=
  fields.filterMap fun field => field.2.map (field.1, ·)

def nonempty (s : String) : Option Value := if s = "" then none else some (.string s)

def nonzero (n : Int) : Option Value := if n = 0 then none else some (.number n)

/-! ## Reading

A member that is missing or null leaves a field as it is, which is empty. -/

def readString (key : String) (o : Object) : Option String :=
  match o.lookup key with
  | none | some .null => some ""
  | some (.string s) => some s
  | some _ => none

def readInt64 (key : String) (o : Object) : Option Int64 :=
  match o.lookup key with
  | none | some .null => some 0
  | some (.number n) => if Int64.minValue.toInt ≤ n ∧ n ≤ Int64.maxValue.toInt then
      some (Int64.ofInt n) else none
  | some _ => none

section Lookup

variable {stored : Object} {fields : List (String × Option Value)} {key : String}

theorem lookup_eq_some (hkeys : (stored.map Prod.fst).Nodup) {v : Value}
    (hmem : (key, v) ∈ stored) : stored.lookup key = some v := by
  induction stored with
  | nil => cases hmem
  | cons m rest ih =>
    rw [List.map_cons, List.nodup_cons] at hkeys
    rcases List.mem_cons.mp hmem with rfl | hmem
    · simp
    · have hne : key ≠ m.1 := fun h => hkeys.1 (h ▸ List.mem_map_of_mem hmem)
      rw [List.lookup_cons, beq_false_of_ne hne]
      exact ih hkeys.2 hmem

theorem mem_object {v : Value} : (key, v) ∈ object fields ↔ (key, some v) ∈ fields := by
  constructor
  · intro h
    obtain ⟨⟨k, x⟩, hmem, hx⟩ := List.mem_filterMap.mp h
    obtain ⟨v', rfl, hpair⟩ := Option.map_eq_some_iff.mp hx
    cases hpair
    exact hmem
  · intro h
    exact List.mem_filterMap.mpr ⟨(key, some v), h, rfl⟩

theorem keys_object_sublist (fields : List (String × Option Value)) :
    ((object fields).map Prod.fst).Sublist (fields.map Prod.fst) := by
  induction fields with
  | nil => exact List.Sublist.slnil
  | cons field rest ih =>
    obtain ⟨k, _ | v⟩ := field
    · exact ih.cons k
    · exact ih.cons_cons k

theorem lookup_of_perm_object (hkeys : (fields.map Prod.fst).Nodup)
    (hstored : stored.Perm (object fields)) {x : Option Value} (hfield : (key, x) ∈ fields) :
    stored.lookup key = x := by
  have hnodup : (stored.map Prod.fst).Nodup :=
    (hstored.map Prod.fst).nodup_iff.mpr (hkeys.sublist (keys_object_sublist fields))
  cases x with
  | some v => exact lookup_eq_some hnodup (hstored.mem_iff.mpr (mem_object.mpr hfield))
  | none =>
    -- A member under this key would come from a second field of that name.
    refine List.lookup_eq_none_iff.mpr fun m hm => ?_
    have hmem : (m.1, some m.2) ∈ fields := mem_object.mp (hstored.mem_iff.mp hm)
    refine bne_iff_ne.mpr fun hkey => ?_
    have heq := List.inj_on_of_nodup_map hkeys hfield hmem hkey
    cases congrArg Prod.snd heq

theorem readString_string {s : String} (h : stored.lookup key = some (.string s)) :
    readString key stored = some s := by
  simp only [readString, h]

theorem readString_nonempty {s : String} (h : stored.lookup key = nonempty s) :
    readString key stored = some s := by
  by_cases hs : s = ""
  · rw [nonempty, if_pos hs] at h
    simp only [readString, h, hs]
  · rw [nonempty, if_neg hs] at h
    exact readString_string h

theorem readInt64_nonzero {n : Int64} (h : stored.lookup key = nonzero n.toInt) :
    readInt64 key stored = some n := by
  by_cases hn : n.toInt = 0
  · rw [nonzero, if_pos hn] at h
    have hzero : n = 0 := Int64.toInt_inj.mp hn
    simp only [readInt64, h, hzero]
  · rw [nonzero, if_neg hn] at h
    have hrange : Int64.minValue.toInt ≤ n.toInt ∧ n.toInt ≤ Int64.maxValue.toInt :=
      ⟨Int64.minValue_le_toInt n, Int64.toInt_le n⟩
    simp only [readInt64, h, if_pos hrange, Int64.ofInt_toInt]

end Lookup

end Monierave.Coding
