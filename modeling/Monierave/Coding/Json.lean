import Mathlib.Data.Nat.Notation
import Mathlib.Tactic.Common
import Monierave.Coding.PrefixCode

/-! # JSON texts of strings and integers

Strings as an encoder writes them that also escapes what is special in HTML and the
two line separators of Unicode: seven characters have an escape of their own, the
others that are escaped are written with four hexadecimal digits.
-/

namespace Monierave.Coding.Json

def shortEscapes : List (Char × Char) :=
  [('"', '"'), ('\\', '\\'), ('\x08', 'b'), ('\x0c', 'f'), ('\n', 'n'), ('\r', 'r'), ('\t', 't')]

def shortEscape (c : Char) : Option Char :=
  (shortEscapes.find? fun e => e.1 = c).map Prod.snd

def hexDigits (n : Nat) : List Char :=
  [Nat.digitChar (n / 4096 % 16), Nat.digitChar (n / 256 % 16), Nat.digitChar (n / 16 % 16),
    Nat.digitChar (n % 16)]

def isEscaped (c : Char) : Bool :=
  c.toNat < 0x20 || c == '<' || c == '>' || c == '&' || c == '\u2028' || c == '\u2029'

def escapeChar (c : Char) : List Char :=
  match shortEscape c with
  | some letter => ['\\', letter]
  | none => if isEscaped c then '\\' :: 'u' :: hexDigits c.toNat else [c]

def quote (s : String) : List Char := '"' :: (s.toList.flatMap escapeChar ++ ['"'])

def decimal : Int → List Char
  | .ofNat n => Nat.toDigits 10 n
  | .negSucc n => '-' :: Nat.toDigits 10 (n + 1)

theorem digitChar_inj : ∀ a < 16, ∀ b < 16, Nat.digitChar a = Nat.digitChar b → a = b := by
  decide

theorem hexDigits_inj {n m : Nat} (hn : n < 65536) (hm : m < 65536)
    (h : hexDigits n = hexDigits m) : n = m := by
  simp only [hexDigits, List.cons.injEq, and_true] at h
  obtain ⟨h₁, h₂, h₃, h₄⟩ := h
  have hdigit : ∀ {a b : Nat}, Nat.digitChar (a % 16) = Nat.digitChar (b % 16) → a % 16 = b % 16 :=
    fun h => digitChar_inj _ (Nat.mod_lt _ (by decide)) _ (Nat.mod_lt _ (by decide)) h
  have := hdigit h₁
  have := hdigit h₂
  have := hdigit h₃
  have := hdigit h₄
  omega

theorem mem_shortEscapes {c letter : Char} (h : shortEscape c = some letter) :
    (c, letter) ∈ shortEscapes := by
  obtain ⟨e, he, rfl⟩ := Option.map_eq_some_iff.mp h
  have hc : e.1 = c := by simpa using List.find?_some he
  rw [← hc]
  exact List.mem_of_find?_eq_some he

theorem shortEscape_inj {c c' letter : Char} (h : shortEscape c = some letter)
    (h' : shortEscape c' = some letter) : c = c' := by
  have htable : ∀ e ∈ shortEscapes, ∀ e' ∈ shortEscapes, e.2 = e'.2 → e.1 = e'.1 := by decide
  exact htable _ (mem_shortEscapes h) _ (mem_shortEscapes h') rfl

theorem shortEscape_ne_u {c letter : Char} (h : shortEscape c = some letter) : letter ≠ 'u' := by
  have htable : ∀ e ∈ shortEscapes, e.2 ≠ 'u' := by decide
  exact htable _ (mem_shortEscapes h)

theorem toNat_lt_of_isEscaped {c : Char} (h : isEscaped c) : c.toNat < 65536 := by
  simp only [isEscaped, Bool.or_eq_true, decide_eq_true_eq, beq_iff_eq] at h
  rcases h with ((((h | rfl) | rfl) | rfl) | rfl) | rfl
  · omega
  all_goals decide

/-- The three forms of a character. -/
inductive Form (c : Char) : List Char → Prop
  | short {letter : Char} (h : shortEscape c = some letter) : Form c ['\\', letter]
  | hex (h : c.toNat < 65536) : Form c ('\\' :: 'u' :: hexDigits c.toNat)
  | plain (hquote : c ≠ '"') (hbackslash : c ≠ '\\') : Form c [c]

theorem form_escapeChar (c : Char) : Form c (escapeChar c) := by
  cases hs : shortEscape c with
  | some letter =>
    rw [escapeChar, hs]
    exact .short hs
  | none =>
    by_cases hesc : isEscaped c
    · simp only [escapeChar, hs, hesc, if_true]
      exact .hex (toNat_lt_of_isEscaped hesc)
    · simp only [escapeChar, hs, hesc, Bool.false_eq_true, if_false]
      refine .plain ?_ ?_
      · rintro rfl
        cases hs
      · rintro rfl
        cases hs

theorem unambiguous_escapeChar : Unambiguous escapeChar := by
  intro c c' x y h
  have hc := form_escapeChar c
  have hc' := form_escapeChar c'
  generalize escapeChar c = l at h hc
  generalize escapeChar c' = l' at h hc'
  cases hc with
  | short hs =>
    cases hc' with
    | short hs' =>
      simp only [List.cons_append, List.nil_append, List.cons.injEq, true_and] at h
      exact ⟨shortEscape_inj hs (h.1 ▸ hs'), h.2⟩
    | hex _ =>
      simp only [List.cons_append, List.nil_append, List.cons.injEq, true_and] at h
      exact absurd h.1 (shortEscape_ne_u hs)
    | plain _ hne => exact absurd (List.cons.inj h).1.symm hne
  | hex hlt =>
    cases hc' with
    | short hs' =>
      simp only [List.cons_append, List.nil_append, List.cons.injEq, true_and] at h
      exact absurd h.1.symm (shortEscape_ne_u hs')
    | hex hlt' =>
      simp only [List.cons_append, List.cons.injEq, true_and] at h
      obtain ⟨hdigits, hrest⟩ := List.append_inj h rfl
      exact ⟨Char.toNat_inj.mp (hexDigits_inj hlt hlt' hdigits), hrest⟩
    | plain _ hne => exact absurd (List.cons.inj h).1.symm hne
  | plain hquote hne =>
    cases hc' with
    | short _ => exact absurd (List.cons.inj h).1 hne
    | hex _ => exact absurd (List.cons.inj h).1 hne
    | plain _ _ => exact List.cons.inj h

theorem unambiguous_quote : Unambiguous quote := by
  have hhead : ∀ c, ∃ d ds, escapeChar c = d :: ds ∧ d ≠ '"' := by
    intro c
    have hc := form_escapeChar c
    generalize escapeChar c = l at hc
    cases hc with
    | short _ => exact ⟨_, _, rfl, by decide⟩
    | hex _ => exact ⟨_, _, rfl, by decide⟩
    | plain hquote _ => exact ⟨_, _, rfl, hquote⟩
  intro s s' x y h
  obtain ⟨hs, hxy⟩ := unambiguous_escapeChar.listUntil hhead (List.cons.inj h).2
  exact ⟨String.toList_inj.mp hs, hxy⟩

theorem isDigit_or_minus_of_mem_decimal {n : Int} {c : Char} (h : c ∈ decimal n) :
    c.isDigit ∨ c = '-' := by
  cases n with
  | ofNat n => exact Or.inl (Nat.isDigit_of_mem_toDigits (by decide) (by decide) h)
  | negSucc n =>
    rcases List.mem_cons.mp h with h | h
    · exact Or.inr h
    · exact Or.inl (Nat.isDigit_of_mem_toDigits (by decide) (by decide) h)

theorem toDigits_injective : Function.Injective (Nat.toDigits 10) := by
  intro n m h
  rw [← Nat.ofDigitChars_ten_toDigits (n := n), h, Nat.ofDigitChars_ten_toDigits]

theorem decimal_injective : Function.Injective decimal := by
  have hminus : ∀ n, '-' ∉ Nat.toDigits 10 n := by
    intro n hmem
    have := Nat.isDigit_of_mem_toDigits (by decide) (by decide) hmem
    cases this
  intro n m h
  cases n with
  | ofNat n =>
    cases m with
    | ofNat m => exact congrArg Int.ofNat (toDigits_injective h)
    | negSucc m =>
      refine absurd ?_ (hminus n)
      rw [show Nat.toDigits 10 n = decimal (.negSucc m) from h]
      exact List.mem_cons_self
  | negSucc n =>
    cases m with
    | ofNat m =>
      refine absurd ?_ (hminus m)
      rw [show Nat.toDigits 10 m = decimal (.negSucc n) from h.symm]
      exact List.mem_cons_self
    | negSucc m => exact congrArg Int.negSucc (Nat.succ.inj (toDigits_injective (List.cons.inj h).2))

theorem unambiguous_decimal {stop : Char} (hdigit : stop.isDigit = false) (hminus : stop ≠ '-') :
    Unambiguous fun n => decimal n ++ [stop] := by
  refine unambiguous_terminated decimal_injective ?_
  intro n hmem
  rcases isDigit_or_minus_of_mem_decimal hmem with h | h
  · rw [hdigit] at h
    cases h
  · exact hminus h

end Monierave.Coding.Json
