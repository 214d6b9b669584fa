import Mathlib.Data.List.Basic
import Mathlib.Logic.Function.Basic

/-! # Encodings that can be read from the front

An encoding is unambiguous if the code of a value can be told from whatever follows
it.
-/

namespace Monierave.Coding

variable {α γ : Type}

def Unambiguous (enc : α → List γ) : Prop :=
  ∀ ⦃a b x y⦄, enc a ++ x = enc b ++ y → a = b ∧ x = y

theorem eq_of_append_cons {stop : γ} {l l' x y : List γ} (hl : stop ∉ l) (hl' : stop ∉ l')
    (h : l ++ stop :: x = l' ++ stop :: y) : l = l' ∧ x = y := by
  induction l generalizing l' with
  | nil =>
    cases l' with
    | nil => exact ⟨rfl, (List.cons.inj h).2⟩
    | cons c l' => exact absurd (List.cons.inj h).1 (List.ne_of_not_mem_cons hl')
  | cons c l ih =>
    cases l' with
    | nil => exact absurd (List.cons.inj h).1.symm (List.ne_of_not_mem_cons hl)
    | cons c' l' =>
      obtain ⟨hc, hrest⟩ := List.cons.inj h
      obtain ⟨htail, hxy⟩ := ih (List.not_mem_of_not_mem_cons hl)
        (List.not_mem_of_not_mem_cons hl') hrest
      exact ⟨by rw [hc, htail], hxy⟩

theorem unambiguous_terminated {enc : α → List γ} {stop : γ} (hinj : Function.Injective enc)
    (hstop : ∀ a, stop ∉ enc a) : Unambiguous fun a => enc a ++ [stop] := by
  intro a b x y h
  simp only [List.append_assoc, List.singleton_append] at h
  obtain ⟨hcode, hxy⟩ := eq_of_append_cons (hstop a) (hstop b) h
  exact ⟨hinj hcode, hxy⟩

namespace Unambiguous

variable {enc : α → List γ}

theorem listUntil (h : Unambiguous enc) {stop : γ} (hhead : ∀ a, ∃ c cs, enc a = c :: cs ∧ c ≠ stop) :
    Unambiguous fun as : List α => as.flatMap enc ++ [stop] := by
  intro as bs x y heq
  induction as generalizing bs with
  | nil =>
    cases bs with
    | nil => exact ⟨rfl, (List.cons.inj heq).2⟩
    | cons b bs =>
      obtain ⟨c, cs, hc, hne⟩ := hhead b
      simp only [List.flatMap_nil, List.flatMap_cons, hc, List.nil_append, List.cons_append,
        List.cons.injEq] at heq
      exact absurd heq.1.symm hne
  | cons a as ih =>
    cases bs with
    | nil =>
      obtain ⟨c, cs, hc, hne⟩ := hhead a
      simp only [List.flatMap_nil, List.flatMap_cons, hc, List.nil_append, List.cons_append,
        List.cons.injEq] at heq
      exact absurd heq.1 hne
    | cons b bs =>
      simp only [List.flatMap_cons, List.append_assoc] at heq ih
      obtain ⟨hab, hrest⟩ := h heq
      obtain ⟨hs, hxy⟩ := ih hrest
      exact ⟨by rw [hab, hs], hxy⟩

end Unambiguous

end Monierave.Coding
