import Mathlib.Data.List.FinRange
import Mathlib.Tactic.Common

/-! # Base64 for URLs, without padding

A text is read without its line ends, and the bits beyond the last byte are ignored.
-/

namespace Monierave.Coding.Base64

def letter (n : Fin 64) : Char :=
  "ABCDEFGHIJKLMNOPQRSTUVWXYZabcdefghijklmnopqrstuvwxyz0123456789-_".toList.getD n 'A'

def sextets : List UInt8 → List (Fin 64)
  | [] => []
  | [a] => [.ofNat 64 (a.toNat / 4), .ofNat 64 (a.toNat * 16)]
  | [a, b] => [.ofNat 64 (a.toNat / 4), .ofNat 64 (a.toNat * 16 + b.toNat / 16),
      .ofNat 64 (b.toNat * 4)]
  | a :: b :: c :: bs => .ofNat 64 (a.toNat / 4) :: .ofNat 64 (a.toNat * 16 + b.toNat / 16) ::
      .ofNat 64 (b.toNat * 4 + c.toNat / 64) :: .ofNat 64 c.toNat :: sextets bs

def octets : List (Fin 64) → Option (List UInt8)
  | [] => some []
  | [_] => none
  | [i, j] => some [.ofNat (i * 4 + j / 16)]
  | [i, j, k] => some [.ofNat (i * 4 + j / 16), .ofNat (j * 16 + k / 4)]
  | i :: j :: k :: l :: ns => (octets ns).map fun bs =>
      .ofNat (i * 4 + j / 16) :: .ofNat (j * 16 + k / 4) :: .ofNat (k * 64 + l) :: bs

def encode (bs : List UInt8) : List Char := (sextets bs).map letter

def isLineEnd (c : Char) : Bool := c = '\r' || c = '\n'

def decode (s : List Char) : Option (List UInt8) :=
  ((s.filter fun c => !isLineEnd c).mapM fun c => (List.finRange 64).find? (letter · = c)).bind octets

theorem octets_sextets (bs : List UInt8) : octets (sextets bs) = some bs := by
  have hbyte : ∀ {n : Nat} {b : UInt8}, n % 256 = b.toNat → UInt8.ofNat n = b := by
    intro n b h
    rw [← UInt8.ofNat_mod_size, h, UInt8.ofNat_toNat]
  fun_induction sextets bs with
  | case1 => rfl
  | case2 a =>
    have ha := a.toNat_lt
    simp only [octets, Fin.val_ofNat]
    rw [hbyte (b := a) (by omega)]
  | case3 a b =>
    have ha := a.toNat_lt
    have hb := b.toNat_lt
    simp only [octets, Fin.val_ofNat]
    rw [hbyte (b := a) (by omega), hbyte (b := b) (by omega)]
  | case4 a b c bs ih =>
    have ha := a.toNat_lt
    have hb := b.toNat_lt
    have hc := c.toNat_lt
    simp only [octets, ih, Fin.val_ofNat, Option.map_some]
    rw [hbyte (b := a) (by omega), hbyte (b := b) (by omega), hbyte (b := c) (by omega)]

theorem decode_encode (bs : List UInt8) : decode (encode bs) = some bs := by
  have hletter : ∀ n, isLineEnd (letter n) = false ∧
      (List.finRange 64).find? (letter · = letter n) = some n := by decide +kernel
  have hread : ∀ ns : List (Fin 64), ((ns.map letter).filter fun c => !isLineEnd c).mapM
      (fun c => (List.finRange 64).find? (letter · = c)) = some ns := by
    intro ns
    induction ns with
    | nil => rfl
    | cons n ns ih => simp [hletter n, ih]
  rw [decode, encode, hread, Option.bind_some, octets_sextets]

theorem encode_ne_nil {bs : List UInt8} (h : bs ≠ []) : encode bs ≠ [] := by
  intro hnil
  have hdecode := decode_encode bs
  rw [hnil] at hdecode
  exact h (Option.some.inj hdecode).symm

end Monierave.Coding.Base64
