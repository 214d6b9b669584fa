import Monierave.Relational.Table

/-! # Sequences of edits

What a sequence of inserts and updates does to a table, as long as each of them
takes effect: rows are not taken away, and a row at the end goes back to one at
the start or to one that was inserted, by the updates of that row in between.
-/

namespace Monierave.Relational

variable {R κ : Type} [Keyed R κ] [DecidableEq κ] [DecidableEq R]

/-- One change of a table. An update names the version of the row it replaces. -/
inductive Edit (R : Type)
  | insert (r : R)
  | amend (o r : R)

namespace Edit

def apply : Edit R → Table R → Table R
  | insert r, t => t.insert r
  | amend o r, t => t.amend o r

def Legit : Edit R → Table R → Prop
  | insert r, t => t.conflict r = none
  | amend o r, t => t.get (pk r) = some o ∧ t.clash r = none

end Edit

namespace Table

def edit (t : Table R) (es : List (Edit R)) : Table R := es.foldl (fun t e => e.apply t) t

def Legits : List (Edit R) → Table R → Prop
  | [], _ => True
  | e :: es, t => e.Legit t ∧ Legits es (e.apply t)

@[simp] theorem edit_nil (t : Table R) : t.edit [] = t := rfl

@[simp] theorem edit_cons (t : Table R) (e : Edit R) (es : List (Edit R)) :
    t.edit (e :: es) = (e.apply t).edit es := rfl

theorem edit_append (t : Table R) (es es' : List (Edit R)) :
    t.edit (es ++ es') = (t.edit es).edit es' := by
  simp [edit]

theorem legits_append {es es' : List (Edit R)} {t : Table R} :
    Legits (es ++ es') t ↔ Legits es t ∧ Legits es' (t.edit es) := by
  induction es generalizing t with
  | nil => simp [Legits]
  | cons e es ih => simp [Legits, ih, and_assoc]

theorem get_pk_amend {t : Table R} {o r a : R} (h : (Edit.amend o r).Legit t) :
    (t.amend o r).get (pk a) = if pk a = pk r then some r else t.get (pk a) := by
  have hpk : ∀ b : R, pk a ∈ keys b → pk a = pk b := fun b hb => (Keyed.pk_of_mem hb).symm
  rw [amend_eq h.1, get_update h.2 h.1]
  by_cases hr : pk a = pk r
  · rw [if_pos hr, if_pos (hr ▸ Keyed.pk_mem r)]
  · rw [if_neg hr, if_neg fun hb => hr (hpk r hb),
      if_neg fun hb => hr ((hpk o hb).trans (pk_of_get h.1))]

variable {t : Table R} {es : List (Edit R)}

theorem mem_edit_of_mem {a : R} (hes : Legits es t) (ha : a ∈ t.rows) :
    (∃ r, .amend a r ∈ es) ∨ a ∈ (t.edit es).rows := by
  induction es generalizing t with
  | nil => exact Or.inr ha
  | cons e es ih =>
    have hone : a ∈ (e.apply t).rows ∨ ∃ r, e = .amend a r := by
      cases e with
      | insert r =>
        left
        rw [Edit.apply, insert_rows hes.1]
        exact List.mem_append_left _ ha
      | amend o r =>
        by_cases hao : a = o
        · exact Or.inr ⟨r, by rw [hao]⟩
        · left
          rw [Edit.apply, amend_eq hes.1.1, mem_update hes.1.2 hes.1.1]
          refine Or.inr ⟨ha, fun hpk => hao ?_⟩
          have hget := get_pk ha
          rw [hpk, hes.1.1] at hget
          exact (Option.some.inj hget).symm
    rcases hone with hone | ⟨r, rfl⟩
    · rcases ih hes.2 hone with ⟨r, hr⟩ | hmem
      · exact Or.inl ⟨r, List.mem_cons_of_mem e hr⟩
      · exact Or.inr hmem
    · exact Or.inl ⟨r, List.mem_cons_self⟩

section Relation

variable {Q : R → R → Prop} (hrefl : ∀ a, Q a a) (htrans : ∀ {a b c}, Q a b → Q b c → Q a c)

include hrefl htrans

theorem get_edit_of_get {a : R} (hes : Legits es t) (ha : a ∈ t.rows)
    (hrel : ∀ o r, .amend o r ∈ es → pk r = pk a → Q o r) :
    ∃ b, (t.edit es).get (pk a) = some b ∧ Q a b := by
  induction es generalizing t a with
  | nil => exact ⟨a, get_pk ha, hrefl a⟩
  | cons e es ih =>
    have hone : ∃ b, (e.apply t).get (pk a) = some b ∧ Q a b := by
      cases e with
      | insert r => exact ⟨a, get_insert_of_get hes.1 (get_pk ha), hrefl a⟩
      | amend o r =>
        rw [Edit.apply, get_pk_amend hes.1]
        by_cases hpk : pk a = pk r
        · have hget := get_pk ha
          rw [hpk, hes.1.1] at hget
          obtain rfl := Option.some.inj hget
          exact ⟨r, if_pos hpk, hrel o r List.mem_cons_self hpk.symm⟩
        · exact ⟨a, by rw [if_neg hpk]; exact get_pk ha, hrefl a⟩
    obtain ⟨b, hb, hab⟩ := hone
    have hpk : pk b = pk a := pk_of_get hb
    obtain ⟨c, hc, hbc⟩ := ih hes.2 (mem_of_get hb) fun o r hmem hr =>
      hrel o r (List.mem_cons_of_mem e hmem) (hr.trans hpk)
    exact ⟨c, hpk ▸ hc, htrans hab hbc⟩

theorem origin_of_mem_edit {b : R} (hes : Legits es t) (hb : b ∈ (t.edit es).rows)
    (hrel : ∀ o r, .amend o r ∈ es → pk r = pk b → Q o r) :
    (∃ a ∈ t.rows, pk a = pk b ∧ Q a b) ∨ ∃ a, .insert a ∈ es ∧ pk a = pk b ∧ Q a b := by
  induction es generalizing t with
  | nil => exact Or.inl ⟨b, hb, rfl, hrefl b⟩
  | cons e es ih =>
    rcases ih hes.2 hb fun o r hmem => hrel o r (List.mem_cons_of_mem e hmem) with
      ⟨a, ha, hpk, hab⟩ | ⟨a, ha, hpk, hab⟩
    · cases e with
      | insert r =>
        rw [Edit.apply, insert_rows hes.1, List.mem_append, List.mem_singleton] at ha
        rcases ha with ha | rfl
        · exact Or.inl ⟨a, ha, hpk, hab⟩
        · exact Or.inr ⟨a, List.mem_cons_self, hpk, hab⟩
      | amend o r =>
        rw [Edit.apply, amend_eq hes.1.1, mem_update hes.1.2 hes.1.1] at ha
        rcases ha with rfl | ⟨ha, _⟩
        · exact Or.inl ⟨o, mem_of_get hes.1.1, (pk_of_get hes.1.1).trans hpk,
            htrans (hrel o a List.mem_cons_self hpk) hab⟩
        · exact Or.inl ⟨a, ha, hpk, hab⟩
    · exact Or.inr ⟨a, List.mem_cons_of_mem e ha, hpk, hab⟩

theorem get_edit_of_amend {o r : R} (hes : Legits es t) (hmem : .amend o r ∈ es)
    (hrel : ∀ o' r', .amend o' r' ∈ es → pk r' = pk r → Q o' r') :
    ∃ b, (t.edit es).get (pk r) = some b ∧ Q r b := by
  obtain ⟨es₁, es₂, rfl⟩ := List.append_of_mem hmem
  obtain ⟨_, hamend, hes₂⟩ := legits_append.mp hes
  rw [edit_append, edit_cons]
  refine get_edit_of_get hrefl htrans hes₂ ?_ fun o' r' hmem' =>
    hrel o' r' (List.mem_append_right _ (List.mem_cons_of_mem _ hmem'))
  rw [Edit.apply, amend_eq hamend.1, mem_update hamend.2 hamend.1]
  exact Or.inl rfl

end Relation

end Table

end Monierave.Relational
