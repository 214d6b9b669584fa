import Monierave.Unicode.Utf16

/-! # Strings of bytes read as UTF-8

A string of bytes is read rune by rune.
-/

namespace Monierave.Unicode

def utf8 (cs : List Char) : List UInt8 := cs.flatMap String.utf8EncodeChar

def isTail (b : UInt8) : Bool := 0x80 ≤ b.toNat && b.toNat ≤ 0xbf

def startsOne : List UInt8 → Bool
  | a :: _ => a.toNat < 0x80
  | _ => false

def startsTwo : List UInt8 → Bool
  | a :: b :: _ => 0xc2 ≤ a.toNat && a.toNat ≤ 0xdf && isTail b
  | _ => false

def startsThree : List UInt8 → Bool
  | a :: b :: c :: _ =>
    0xe0 ≤ a.toNat && a.toNat ≤ 0xef && isTail b && isTail c &&
      (a.toNat ≠ 0xe0 || 0xa0 ≤ b.toNat) && (a.toNat ≠ 0xed || b.toNat ≤ 0x9f)
  | _ => false

def startsFour : List UInt8 → Bool
  | a :: b :: c :: d :: _ =>
    0xf0 ≤ a.toNat && a.toNat ≤ 0xf4 && isTail b && isTail c && isTail d &&
      (a.toNat ≠ 0xf0 || 0x90 ≤ b.toNat) && (a.toNat ≠ 0xf4 || b.toNat ≤ 0x8f)
  | _ => false

def runeSize (bs : List UInt8) : Option Nat :=
  if startsOne bs then some 1
  else if startsTwo bs then some 2
  else if startsThree bs then some 3
  else if startsFour bs then some 4
  else none

variable {n : Nat} {bs : List UInt8}

theorem uint8_toNat_ofNat (h : n < 256) : (UInt8.ofNat n).toNat = n := by
  rw [UInt8.toNat_ofNat']
  omega

theorem uint8_ofNat_eq {b : UInt8} (h : n = b.toNat) : UInt8.ofNat n = b := by
  rw [h, UInt8.ofNat_toNat]

theorem runeSize_two (h : startsTwo bs = true) : runeSize bs = some 2 := by
  have hone : startsOne bs = false := by
    unfold startsTwo at h
    split at h
    · simp only [Bool.and_eq_true, decide_eq_true_eq] at h
      simp only [startsOne, decide_eq_false_iff_not]
      omega
    · cases h
  simp [runeSize, hone, h]

theorem runeSize_three (h : startsThree bs = true) : runeSize bs = some 3 := by
  have hless : startsOne bs = false ∧ startsTwo bs = false := by
    unfold startsThree at h
    split at h
    · simp only [Bool.and_eq_true, decide_eq_true_eq] at h
      simp only [startsOne, startsTwo, Bool.and_eq_false_iff, decide_eq_false_iff_not]
      omega
    · cases h
  simp [runeSize, hless, h]

theorem runeSize_four (h : startsFour bs = true) : runeSize bs = some 4 := by
  have hless : startsOne bs = false ∧ startsTwo bs = false ∧ startsThree bs = false := by
    unfold startsFour at h
    split at h
    · simp only [Bool.and_eq_true, decide_eq_true_eq] at h
      simp only [startsOne, startsTwo, startsThree, Bool.and_eq_false_iff, decide_eq_false_iff_not]
      omega
    · cases h
  simp [runeSize, hless, h]

theorem runeSize_utf8EncodeChar (c : Char) (bs : List UInt8) :
    runeSize (String.utf8EncodeChar c ++ bs) = some (String.utf8EncodeChar c).length := by
  have hvalid := toNat_lt_or_le c
  unfold String.utf8EncodeChar
  change c.val.toNat < _ ∨ _ ≤ c.val.toNat ∧ c.val.toNat < _ at hvalid
  generalize c.val.toNat = v at hvalid ⊢
  dsimp only
  split_ifs with h₁ h₂ h₃
  · have hone : startsOne ([UInt8.ofNat v] ++ bs) = true := by
      simp (disch := omega) only [List.cons_append, startsOne, uint8_toNat_ofNat]
      simpa using by omega
    exact if_pos hone
  · refine runeSize_two ?_
    simp (disch := omega) only [List.cons_append, startsTwo, isTail, uint8_toNat_ofNat]
    simp
    omega
  · refine runeSize_three ?_
    simp (disch := omega) only [List.cons_append, startsThree, isTail, uint8_toNat_ofNat]
    simp
    omega
  · refine runeSize_four ?_
    simp (disch := omega) only [List.cons_append, startsFour, isTail, uint8_toNat_ofNat]
    simp
    omega

theorem exists_char_of_startsOne (h : startsOne bs = true) :
    ∃ c, bs = String.utf8EncodeChar c ++ bs.drop 1 ∧ (String.utf8EncodeChar c).length = 1 := by
  unfold startsOne at h
  split at h
  next a bs =>
    have ha := of_decide_eq_true h
    have hv : (Char.ofNat a.toNat).val.toNat = a.toNat :=
      toNat_ofNat_of_valid (by unfold Nat.isValidChar; omega)
    refine ⟨.ofNat a.toNat, ?_⟩
    unfold String.utf8EncodeChar
    rw [hv]
    simp (disch := omega) only [if_pos]
    rw [uint8_ofNat_eq rfl]
    exact ⟨rfl, rfl⟩
  next => cases h

theorem exists_char_of_startsTwo (h : startsTwo bs = true) :
    ∃ c, bs = String.utf8EncodeChar c ++ bs.drop 2 ∧ (String.utf8EncodeChar c).length = 2 := by
  unfold startsTwo at h
  split at h
  next a b bs =>
    simp only [isTail, Bool.and_eq_true, decide_eq_true_eq] at h
    generalize hvalue : (a.toNat - 0xc0) * 64 + (b.toNat - 0x80) = v
    have hv : (Char.ofNat v).val.toNat = v :=
      toNat_ofNat_of_valid (by unfold Nat.isValidChar; omega)
    refine ⟨.ofNat v, ?_⟩
    unfold String.utf8EncodeChar
    rw [hv]
    simp (disch := omega) only [if_pos, if_neg]
    rw [uint8_ofNat_eq (b := a) (by omega), uint8_ofNat_eq (b := b) (by omega)]
    exact ⟨rfl, rfl⟩
  next => cases h

theorem exists_char_of_startsThree (h : startsThree bs = true) :
    ∃ c, bs = String.utf8EncodeChar c ++ bs.drop 3 ∧ (String.utf8EncodeChar c).length = 3 := by
  unfold startsThree at h
  split at h
  next a b d bs =>
    simp only [isTail, ne_eq, Bool.and_eq_true, Bool.or_eq_true, decide_eq_true_eq] at h
    generalize hvalue :
      (a.toNat - 0xe0) * 4096 + (b.toNat - 0x80) * 64 + (d.toNat - 0x80) = v
    have hv : (Char.ofNat v).val.toNat = v :=
      toNat_ofNat_of_valid (by unfold Nat.isValidChar; omega)
    refine ⟨.ofNat v, ?_⟩
    unfold String.utf8EncodeChar
    rw [hv]
    simp (disch := omega) only [if_pos, if_neg]
    rw [uint8_ofNat_eq (b := a) (by omega), uint8_ofNat_eq (b := b) (by omega),
      uint8_ofNat_eq (b := d) (by omega)]
    exact ⟨rfl, rfl⟩
  next => cases h

theorem exists_char_of_startsFour (h : startsFour bs = true) :
    ∃ c, bs = String.utf8EncodeChar c ++ bs.drop 4 ∧ (String.utf8EncodeChar c).length = 4 := by
  unfold startsFour at h
  split at h
  next a b d e bs =>
    simp only [isTail, ne_eq, Bool.and_eq_true, Bool.or_eq_true, decide_eq_true_eq] at h
    generalize hvalue : (a.toNat - 0xf0) * 262144 + (b.toNat - 0x80) * 4096 +
      (d.toNat - 0x80) * 64 + (e.toNat - 0x80) = v
    have hv : (Char.ofNat v).val.toNat = v :=
      toNat_ofNat_of_valid (by unfold Nat.isValidChar; omega)
    refine ⟨.ofNat v, ?_⟩
    unfold String.utf8EncodeChar
    rw [hv]
    simp (disch := omega) only [if_neg]
    rw [uint8_ofNat_eq (b := a) (by omega), uint8_ofNat_eq (b := b) (by omega),
      uint8_ofNat_eq (b := d) (by omega), uint8_ofNat_eq (b := e) (by omega)]
    exact ⟨rfl, rfl⟩
  next => cases h

theorem exists_char_of_runeSize (h : runeSize bs = some n) :
    ∃ c, bs = String.utf8EncodeChar c ++ bs.drop n ∧ (String.utf8EncodeChar c).length = n := by
  unfold runeSize at h
  split_ifs at h with h₁ h₂ h₃ h₄ <;> cases h
  · exact exists_char_of_startsOne h₁
  · exact exists_char_of_startsTwo h₂
  · exact exists_char_of_startsThree h₃
  · exact exists_char_of_startsFour h₄

/-- One step of the reader: the bytes of a rune, or a byte that starts none. -/
inductive Piece
  | rune (bytes : List UInt8)
  | stray (b : UInt8)
  deriving DecidableEq

def Piece.isRune : Piece → Bool
  | .rune _ => true
  | .stray _ => false

def Piece.bytes : Piece → List UInt8
  | .rune bytes => bytes
  | .stray b => [b]

def piecesFrom : Nat → List UInt8 → List Piece
  | _, [] => []
  | k + 1, _ :: bs => piecesFrom k bs
  | 0, b :: bs =>
    match runeSize (b :: bs) with
    | some n => .rune ((b :: bs).take n) :: piecesFrom (n - 1) bs
    | none => .stray b :: piecesFrom 0 bs

def pieces (bs : List UInt8) : List Piece := piecesFrom 0 bs

def validUtf8 (bs : List UInt8) : Bool := (pieces bs).all Piece.isRune

def toValidUtf8 (bs : List UInt8) : List UInt8 :=
  ((pieces bs).filter Piece.isRune).flatMap Piece.bytes

theorem piecesFrom_eq (k : Nat) (bs : List UInt8) : piecesFrom k bs = pieces (bs.drop k) := by
  induction bs generalizing k with
  | nil => simp [pieces, piecesFrom]
  | cons b bs ih =>
    cases k with
    | zero => rfl
    | succ k => exact ih k

theorem utf8EncodeChar_ne_nil (c : Char) : String.utf8EncodeChar c ≠ [] := by
  have hsize := runeSize_utf8EncodeChar c []
  intro h
  rw [h] at hsize
  cases hsize

theorem pieces_char (c : Char) (bs : List UInt8) :
    pieces (String.utf8EncodeChar c ++ bs) = .rune (String.utf8EncodeChar c) :: pieces bs := by
  have hsize := runeSize_utf8EncodeChar c bs
  obtain ⟨b, rest, hchar⟩ := List.exists_cons_of_ne_nil (utf8EncodeChar_ne_nil c)
  rw [hchar, List.cons_append] at hsize ⊢
  rw [pieces, piecesFrom, hsize]
  dsimp only
  rw [piecesFrom_eq, List.length_cons, Nat.add_sub_cancel, List.drop_left, List.take_succ_cons,
    List.take_left]

theorem pieces_utf8_append (cs : List Char) (bs : List UInt8) :
    pieces (utf8 cs ++ bs) = cs.map (fun c => .rune (String.utf8EncodeChar c)) ++ pieces bs := by
  induction cs with
  | nil => rfl
  | cons c cs ih =>
    rw [utf8, List.flatMap_cons, ← utf8, List.append_assoc, pieces_char, ih]
    rfl

theorem pieces_utf8 (cs : List Char) :
    pieces (utf8 cs) = cs.map fun c => .rune (String.utf8EncodeChar c) := by
  simpa [pieces, piecesFrom] using pieces_utf8_append cs []

theorem pieces_cases (h : bs ≠ []) :
    (∃ c rest, bs = String.utf8EncodeChar c ++ rest) ∨
      ∃ b rest, bs = b :: rest ∧ pieces bs = .stray b :: pieces rest := by
  obtain ⟨b, rest, rfl⟩ := List.exists_cons_of_ne_nil h
  cases hsize : runeSize (b :: rest) with
  | some n =>
    obtain ⟨c, hc, -⟩ := exists_char_of_runeSize hsize
    exact Or.inl ⟨c, _, hc⟩
  | none => exact Or.inr ⟨b, rest, rfl, by simp [pieces, piecesFrom, hsize]⟩

theorem pieces_spec (bs : List UInt8) :
    (pieces bs).flatMap Piece.bytes = bs ∧
      ∀ piece ∈ pieces bs, piece.isRune → ∃ c, piece.bytes = String.utf8EncodeChar c := by
  induction h : bs.length using Nat.strongRecOn generalizing bs with
  | ind n ih =>
    subst h
    by_cases hne : bs = []
    · subst hne
      exact ⟨rfl, fun piece hpiece => by cases hpiece⟩
    rcases pieces_cases hne with ⟨c, rest, rfl⟩ | ⟨b, rest, rfl, hpieces⟩
    · have hlength := List.length_pos_of_ne_nil (utf8EncodeChar_ne_nil c)
      obtain ⟨hjoin, hrunes⟩ := ih rest.length (by rw [List.length_append]; omega) rest rfl
      rw [pieces_char]
      refine ⟨by rw [List.flatMap_cons, hjoin, Piece.bytes], ?_⟩
      intro piece hpiece hrune
      rcases List.mem_cons.mp hpiece with rfl | hpiece
      · exact ⟨c, rfl⟩
      · exact hrunes piece hpiece hrune
    · obtain ⟨hjoin, hrunes⟩ := ih rest.length (by simp) rest rfl
      rw [hpieces]
      refine ⟨by rw [List.flatMap_cons, hjoin, Piece.bytes, List.singleton_append], ?_⟩
      intro piece hpiece hrune
      rcases List.mem_cons.mp hpiece with rfl | hpiece
      · cases hrune
      · exact hrunes piece hpiece hrune

theorem exists_utf8_of_runes {ps : List Piece}
    (h : ∀ piece ∈ ps, ∃ c, piece.bytes = String.utf8EncodeChar c) :
    ∃ cs, ps.flatMap Piece.bytes = utf8 cs := by
  induction ps with
  | nil => exact ⟨[], rfl⟩
  | cons piece ps ih =>
    rw [List.forall_mem_cons] at h
    obtain ⟨c, hc⟩ := h.1
    obtain ⟨cs, hcs⟩ := ih h.2
    exact ⟨c :: cs, by rw [List.flatMap_cons, hc, hcs, utf8, utf8, List.flatMap_cons]⟩

theorem validUtf8_iff : validUtf8 bs = true ↔ ∃ cs, bs = utf8 cs := by
  constructor
  · intro h
    have hspec := pieces_spec bs
    obtain ⟨cs, hcs⟩ := exists_utf8_of_runes fun piece hpiece =>
      hspec.2 piece hpiece (List.all_eq_true.mp h piece hpiece)
    exact ⟨cs, hspec.1.symm.trans hcs⟩
  · rintro ⟨cs, rfl⟩
    simp [validUtf8, pieces_utf8, Piece.isRune]

theorem validUtf8_toValidUtf8 (bs : List UInt8) : validUtf8 (toValidUtf8 bs) = true := by
  rw [validUtf8_iff]
  refine exists_utf8_of_runes ?_
  intro piece hpiece
  obtain ⟨hmem, hrune⟩ := List.mem_filter.mp hpiece
  exact (pieces_spec bs).2 piece hmem hrune

theorem toValidUtf8_of_validUtf8 (h : validUtf8 bs = true) : toValidUtf8 bs = bs := by
  rw [toValidUtf8, List.filter_eq_self.mpr (List.all_eq_true.mp h), (pieces_spec bs).1]

end Monierave.Unicode
