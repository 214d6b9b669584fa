import Monierave.Unicode.CaseMapping

/-! # Which characters are equal up to case

`EqualFold` compares fold classes, `ToLower` maps to a lower-case letter.
-/

namespace Monierave.Unicode

/-! ## Looking up ranges -/

/-- Every number from `a` to `b` lies in a range of the list with the property. -/
def covers (P : CaseRange → Bool) : List CaseRange → Nat → Nat → Bool
  | [], a, b => b.blt a
  | r :: rs, a, b =>
    bif r.hi.blt a then covers P rs a b
    else r.lo.ble a && P r && (b.ble r.hi || covers P rs (r.hi + 1) b)

def rangeAt (rs : List CaseRange) (n : Nat) : Option CaseRange :=
  (rs.find? fun r => n ≤ r.hi).filter fun r => r.lo ≤ n

variable {P : CaseRange → Bool} {rs : List CaseRange} {n lo : Nat} {r : CaseRange} {s t : String}

theorem rangeAt_of_covers {a b : Nat} (h : covers P rs a b = true) (ha : a ≤ n) (hb : n ≤ b) :
    ∃ r, rangeAt rs n = some r ∧ P r = true := by
  induction rs generalizing a with
  | nil =>
    have : b < a := by simpa [covers, Nat.blt_eq] using h
    omega
  | cons r rs ih =>
    simp only [covers, Bool.cond_eq_ite, Nat.blt_eq] at h
    by_cases hr : r.hi < a
    · rw [if_pos hr] at h
      obtain ⟨r', hr', hP⟩ := ih h ha
      refine ⟨r', ?_, hP⟩
      have hskip : ¬ n ≤ r.hi := by omega
      simpa [rangeAt, List.find?_cons, hskip] using hr'
    · rw [if_neg hr] at h
      simp only [Bool.and_eq_true, Bool.or_eq_true, Nat.ble_eq] at h
      obtain ⟨⟨hlo, hP⟩, hrest⟩ := h
      by_cases hn : n ≤ r.hi
      · have hlo' : r.lo ≤ n := by omega
        exact ⟨r, by simp [rangeAt, hn, hlo'], hP⟩
      · obtain ⟨r', hr', hP'⟩ := ih (hrest.resolve_left (by omega)) (by omega)
        exact ⟨r', by simpa [rangeAt, List.find?_cons, hn] using hr', hP'⟩

theorem mem_of_rangeAt (h : rangeAt rs n = some r) : r ∈ rs ∧ r.lo ≤ n ∧ n ≤ r.hi := by
  obtain ⟨hfind, hlo⟩ := Option.filter_eq_some_iff.mp h
  exact ⟨List.mem_of_find?_eq_some hfind, by simpa using hlo, by simpa using List.find?_some hfind⟩

def lowerAt (n : Nat) : Nat :=
  match rangeAt caseRanges n with
  | none => n
  | some r => r.lower n

def upperAt (n : Nat) : Nat :=
  match rangeAt caseRanges n with
  | none => n
  | some r => r.upper n

/-! ## The regular ranges -/

/-- Lower-case letters `d` above their upper-case letters. -/
def CaseRange.isLower (d : Int) : CaseRange → Bool
  | shift _ _ up low => decide (up = -d) && decide (low = 0)
  | upperLower _ _ => false

/-- Upper-case letters `d` below their lower-case letters. -/
def CaseRange.isUpper (d : Int) : CaseRange → Bool
  | shift _ _ up low => decide (up = 0) && decide (low = d)
  | upperLower _ _ => false

def CaseRange.isPairs (lo hi : Nat) : CaseRange → Bool
  | shift _ _ _ _ => false
  | upperLower lo' hi' => lo' == lo && hi' == hi

/-- Moved by `d`, the numbers from `lo` to `hi` are characters that lie in ranges with
the property. -/
def movesTo (P : CaseRange → Bool) (lo hi : Nat) (d : Int) : Bool :=
  decide (0 ≤ lo + d) && covers P caseRanges (lo + d).toNat (hi + d).toNat &&
    decide (hi + d < 0xd800 ∨ (0xdfff < lo + d ∧ hi + d < 0x110000))

def CaseRange.regular : CaseRange → Bool
  | upperLower lo hi => movesTo (isPairs lo hi) lo hi 0 && decide ((hi - lo) % 2 = 1)
  | shift lo hi up low =>
    if low = 0 then movesTo (isUpper (-up)) lo hi up
    else decide (up = 0) && movesTo (isLower low) lo hi low

def irregular (n : Nat) : Bool := caseOrbit.any fun p => p.1 == n

def CaseRange.checked (r : CaseRange) : Bool :=
  r.regular || (List.range' r.lo (r.hi + 1 - r.lo)).all irregular

set_option maxRecDepth 4000 in
def checkedRanges : { rs : List CaseRange // rs = caseRanges ∧ rs.all CaseRange.checked = true } :=
  ⟨caseRanges, rfl, by decide +kernel⟩

theorem checked_of_mem (h : r ∈ caseRanges) : r.checked = true :=
  List.all_eq_true.mp checkedRanges.2.2 r (by rwa [checkedRanges.2.1])

structure Regular (n : Nat) : Prop where
  lower : lowerAt n ≠ n → lowerAt (lowerAt n) = lowerAt n ∧ upperAt (lowerAt n) = n
  upper : lowerAt n = n → lowerAt (upperAt n) = n
  lowerChar : lowerAt n ≠ n → (lowerAt n).isValidChar
  upperChar : lowerAt n = n → upperAt n ≠ n → (upperAt n).isValidChar

theorem lowerAt_eq (h : rangeAt caseRanges n = some r) : lowerAt n = r.lower n := by
  simp [lowerAt, h]

theorem upperAt_eq (h : rangeAt caseRanges n = some r) : upperAt n = r.upper n := by
  simp [upperAt, h]

theorem movesTo_spec {hi m : Nat} {d : Int} (h : movesTo P lo hi d = true) (hlo : lo ≤ n)
    (hhi : n ≤ hi) (hm : m = (n + d).toNat) :
    (m : Int) = n + d ∧ m.isValidChar ∧ ∃ r, rangeAt caseRanges m = some r ∧ P r = true := by
  simp only [movesTo, Bool.and_eq_true, decide_eq_true_eq] at h
  obtain ⟨⟨hnonneg, hcov⟩, hchars⟩ := h
  have hmd : (m : Int) = n + d := by omega
  refine ⟨hmd, ?_, rangeAt_of_covers hcov (by omega) (by omega)⟩
  unfold Nat.isValidChar
  omega

theorem regular_of_upper {hi : Nat} {low : Int} (hlow : low ≠ 0)
    (h : rangeAt caseRanges n = some (.shift lo hi 0 low))
    (hmove : movesTo (CaseRange.isLower low) lo hi low = true) : Regular n := by
  obtain ⟨_, hlo, hhi⟩ := mem_of_rangeAt h
  obtain ⟨hn, hchar, r, hr, hP⟩ := movesTo_spec hmove hlo hhi (lowerAt_eq h)
  cases r with
  | upperLower lo' hi' => cases hP
  | shift lo' hi' up' low' =>
    simp only [CaseRange.isLower, Bool.and_eq_true, decide_eq_true_eq] at hP
    obtain ⟨rfl, rfl⟩ := hP
    have hlower : lowerAt (lowerAt n) = (lowerAt n + 0 : Int).toNat := lowerAt_eq hr
    have hupper : upperAt (lowerAt n) = (lowerAt n + -low : Int).toNat := upperAt_eq hr
    have hmoved : lowerAt n ≠ n := by omega
    exact ⟨fun _ => ⟨by omega, by omega⟩, fun heq => absurd heq hmoved, fun _ => hchar,
      fun heq => absurd heq hmoved⟩

theorem regular_of_lower {hi : Nat} {up : Int}
    (h : rangeAt caseRanges n = some (.shift lo hi up 0))
    (hmove : movesTo (CaseRange.isUpper (-up)) lo hi up = true) : Regular n := by
  obtain ⟨_, hlo, hhi⟩ := mem_of_rangeAt h
  obtain ⟨hn, hchar, r, hr, hP⟩ := movesTo_spec hmove hlo hhi (upperAt_eq h)
  have hsame : lowerAt n = (n + 0 : Int).toNat := lowerAt_eq h
  cases r with
  | upperLower lo' hi' => cases hP
  | shift lo' hi' up' low' =>
    simp only [CaseRange.isUpper, Bool.and_eq_true, decide_eq_true_eq] at hP
    obtain ⟨rfl, rfl⟩ := hP
    have hlower : lowerAt (upperAt n) = (upperAt n + -up : Int).toNat := lowerAt_eq hr
    exact ⟨fun hne => absurd (by omega) hne, fun _ => by omega, fun hne => absurd (by omega) hne,
      fun _ _ => hchar⟩

theorem regular_of_pairs {hi : Nat} (h : rangeAt caseRanges n = some (.upperLower lo hi))
    (hmove : movesTo (CaseRange.isPairs lo hi) lo hi 0 = true) (hodd : (hi - lo) % 2 = 1) :
    Regular n := by
  obtain ⟨_, hlo, hhi⟩ := mem_of_rangeAt h
  simp only [CaseRange.lo, CaseRange.hi] at hlo hhi
  have hspec : ∀ m, lo ≤ m → m ≤ hi → m.isValidChar ∧
      lowerAt m = lo + ((m - lo) / 2 * 2 + 1) ∧ upperAt m = lo + (m - lo) / 2 * 2 := by
    intro m hlo hhi
    obtain ⟨_, hchar, r, hr, hP⟩ := movesTo_spec hmove hlo hhi (show m = (m + 0 : Int).toNat by omega)
    cases r with
    | shift lo' hi' up low => cases hP
    | upperLower lo' hi' =>
      simp only [CaseRange.isPairs, Bool.and_eq_true, beq_iff_eq] at hP
      obtain ⟨rfl, rfl⟩ := hP
      exact ⟨hchar, lowerAt_eq hr, upperAt_eq hr⟩
  obtain ⟨_, hlower, hupper⟩ := hspec n hlo hhi
  obtain ⟨hchar₁, hlower₁, hupper₁⟩ := hspec (lowerAt n) (by omega) (by omega)
  obtain ⟨hchar₂, hlower₂, _⟩ := hspec (upperAt n) (by omega) (by omega)
  exact ⟨fun _ => ⟨by omega, by omega⟩, fun _ => by omega, fun _ => hchar₁, fun _ _ => hchar₂⟩

theorem regular_of_not_irregular (h : irregular n = false) : Regular n := by
  cases hr : rangeAt caseRanges n with
  | none =>
    have hlower : lowerAt n = n := by simp [lowerAt, hr]
    have hupper : upperAt n = n := by simp [upperAt, hr]
    exact ⟨fun hne => absurd hlower hne, fun _ => by rw [hupper, hlower],
      fun hne => absurd hlower hne, fun _ hne => absurd hupper hne⟩
  | some r =>
    obtain ⟨hmem, hlo, hhi⟩ := mem_of_rangeAt hr
    rcases Bool.or_eq_true _ _ ▸ checked_of_mem hmem with hreg | hall
    · cases r with
      | upperLower lo hi =>
        simp only [CaseRange.regular, Bool.and_eq_true, decide_eq_true_eq] at hreg
        exact regular_of_pairs hr hreg.1 hreg.2
      | shift lo hi up low =>
        simp only [CaseRange.regular] at hreg
        by_cases hlow : low = 0
        · subst hlow
          exact regular_of_lower hr (by simpa using hreg)
        · simp only [hlow, if_false, Bool.and_eq_true, decide_eq_true_eq] at hreg
          obtain ⟨rfl, hmove⟩ := hreg
          exact regular_of_upper hlow hr hmove
    · -- the other ranges have only members of the listed classes
      have := List.all_eq_true.mp hall n (List.mem_range'_1.mpr (by omega))
      rw [h] at this
      cases this

/-! ## The fold class of a character -/

def lowerTwins : List (Nat × Nat) :=
  [(0x17f, 0x73), (0x3b9, 0x345), (0x3bc, 0xb5), (0x3c3, 0x3c2), (0x3d0, 0x3b2), (0x3d1, 0x3b8),
   (0x3d5, 0x3c6), (0x3d6, 0x3c0), (0x3f0, 0x3ba), (0x3f1, 0x3c1), (0x3f5, 0x3b5),
   (0x1c80, 0x432), (0x1c81, 0x434), (0x1c82, 0x43e), (0x1c83, 0x441), (0x1c84, 0x442),
   (0x1c85, 0x442), (0x1c86, 0x44a), (0x1c87, 0x463), (0x1e9b, 0x1e61), (0x1fbe, 0x345),
   (0xa64b, 0x1c88)]

def twin (c : Char) : Char :=
  match lowerTwins.find? fun p => p.1 == c.toNat with
  | some p => .ofNat p.2
  | none => c

def dottedI : Char := .ofNat 0x130

def foldRep (c : Char) : Char := if c = dottedI then c else twin (toLower c)

/-- What is computed of the listed classes, character by character. -/
@[mk_iff]
structure Listed (n : Nat) : Prop where
  lower : irregular (lowerAt n) = true ∨ upperAt (lowerAt n) ≠ n
  upper : irregular (upperAt n) = true ∨ lowerAt (upperAt n) ≠ n
  rep : foldRep (simpleFold (.ofNat n)) = foldRep (.ofNat n)
  listed : irregular (foldRep (.ofNat n)).toNat = true
  dotless : toLower (.ofNat n) ≠ dottedI
  equal : (caseOrbit.all fun q =>
    foldRep (.ofNat n) != foldRep (.ofNat q.1) || equalFoldChar (.ofNat n) (.ofNat q.1)) = true

instance (n : Nat) : Decidable (Listed n) := decidable_of_iff _ (listed_iff n).symm

def listedChars : { ps : List (Nat × Nat) // ps = caseOrbit ∧ ∀ p ∈ ps, Listed p.1 } :=
  ⟨caseOrbit, rfl, by decide +kernel⟩

theorem listed_of_irregular (h : irregular n = true) : Listed n := by
  obtain ⟨p, hp, hpn⟩ := List.any_eq_true.mp h
  exact beq_iff_eq.mp hpn ▸ listedChars.2.2 p (by rwa [listedChars.2.1])

/-- `simpleFold` outside the listed classes. -/
def foldAt (n : Nat) : Nat := if lowerAt n ≠ n then lowerAt n else upperAt n

section Regular

variable {n : Nat}

theorem irregular_lowerAt (h : irregular n = false) : irregular (lowerAt n) = false := by
  by_cases hsame : lowerAt n = n
  · rw [hsame, h]
  · -- a listed character whose upper-case letter is not listed does not come back
    by_contra hirr
    obtain ⟨hback, hupper⟩ := (regular_of_not_irregular h).lower hsame
    have hclosed := (listed_of_irregular (Bool.not_eq_false _ ▸ hirr)).upper
    simp [hupper, h] at hclosed

theorem irregular_upperAt (h : irregular n = false) (hlow : lowerAt n = n) :
    irregular (upperAt n) = false := by
  by_contra hirr
  have hclosed := (listed_of_irregular (Bool.not_eq_false _ ▸ hirr)).lower
  simp [(regular_of_not_irregular h).upper hlow, h] at hclosed

theorem irregular_foldAt (h : irregular n = false) : irregular (foldAt n) = false := by
  unfold foldAt
  split
  · exact irregular_lowerAt h
  · exact irregular_upperAt h (by simp_all)

theorem lowerAt_foldAt (h : irregular n = false) : lowerAt (foldAt n) = lowerAt n := by
  have hreg := regular_of_not_irregular h
  by_cases hsame : lowerAt n = n
  · simp [foldAt, hsame, hreg.upper hsame]
  · simp [foldAt, hsame, (hreg.lower hsame).1]

theorem foldAt_foldAt (h : irregular n = false) : foldAt (foldAt n) = n := by
  have hreg := regular_of_not_irregular h
  have hlower := lowerAt_foldAt h
  by_cases hsame : lowerAt n = n
  · have hfold : foldAt n = upperAt n := by simp [foldAt, hsame]
    rw [foldAt, hlower, hsame, hfold]
    by_cases hup : n = upperAt n
    · rw [if_neg (by simpa using hup), ← hup, ← hup]
    · rw [if_pos hup]
  · have hfold : foldAt n = lowerAt n := by simp [foldAt, hsame]
    rw [foldAt, hlower, hfold, if_neg (by simp), (hreg.lower hsame).2]

theorem eq_or_foldAt_of_lowerAt {m : Nat} (hn : irregular n = false) (hm : irregular m = false)
    (h : lowerAt n = lowerAt m) : n = m ∨ foldAt n = m := by
  have hregn := regular_of_not_irregular hn
  have hregm := regular_of_not_irregular hm
  by_cases hsn : lowerAt n = n
  · by_cases hsm : lowerAt m = m
    · exact .inl (by omega)
    · have := (hregm.lower hsm).2
      right
      rw [foldAt, if_neg (by simpa using hsn), ← this, ← h, hsn]
  · by_cases hsm : lowerAt m = m
    · right
      rw [foldAt, if_pos hsn, h, hsm]
    · left
      rw [← (hregn.lower hsn).2, ← (hregm.lower hsm).2, h]

end Regular

section Chars

variable {c : Char}

theorem toLower_eq : toLower c = .ofNat (lowerAt c.toNat) := by
  unfold toLower lowerAt caseRange? rangeAt
  cases (caseRanges.find? fun r => c.toNat ≤ r.hi).filter fun r => r.lo ≤ c.toNat with
  | none => rw [Char.ofNat_toNat]
  | some r => rfl

theorem toUpper_eq : toUpper c = .ofNat (upperAt c.toNat) := by
  unfold toUpper upperAt caseRange? rangeAt
  cases (caseRanges.find? fun r => c.toNat ≤ r.hi).filter fun r => r.lo ≤ c.toNat with
  | none => rw [Char.ofNat_toNat]
  | some r => rfl

theorem toNat_ofNat {n : Nat} (h : n.isValidChar) : (Char.ofNat n).toNat = n := by
  have hchar : Char.ofNat n = Char.ofNatAux n h := dif_pos h
  rw [hchar]
  rfl

theorem toNat_toLower (h : irregular c.toNat = false) : (toLower c).toNat = lowerAt c.toNat := by
  rw [toLower_eq]
  by_cases hsame : lowerAt c.toNat = c.toNat
  · rw [hsame, Char.ofNat_toNat]
  · exact toNat_ofNat ((regular_of_not_irregular h).lowerChar hsame)

theorem toNat_simpleFold (h : irregular c.toNat = false) :
    (simpleFold c).toNat = foldAt c.toNat := by
  have hfind : (caseOrbit.find? fun p => p.1 == c.toNat) = none := by
    simpa [irregular] using h
  have hlower : toLower c ≠ c ↔ lowerAt c.toNat ≠ c.toNat := by
    rw [ne_eq, ne_eq, ← Char.toNat_inj, toNat_toLower h]
  simp only [simpleFold, hfind, foldAt, hlower]
  by_cases hsame : lowerAt c.toNat = c.toNat
  · rw [if_neg (by simpa using hsame), if_neg (by simpa using hsame), toUpper_eq]
    by_cases hup : upperAt c.toNat = c.toNat
    · rw [hup, Char.ofNat_toNat]
    · exact toNat_ofNat ((regular_of_not_irregular h).upperChar hsame hup)
  · rw [if_pos hsame, if_pos hsame, toNat_toLower h]

theorem simpleFold_regular (h : irregular c.toNat = false) :
    irregular (simpleFold c).toNat = false ∧ simpleFold (simpleFold c) = c ∧
      toLower (simpleFold c) = toLower c := by
  have hnext : irregular (simpleFold c).toNat = false := by
    rw [toNat_simpleFold h]
    exact irregular_foldAt h
  refine ⟨hnext, ?_, ?_⟩
  · rw [← Char.toNat_inj, toNat_simpleFold hnext, toNat_simpleFold h, foldAt_foldAt h]
  · rw [← Char.toNat_inj, toNat_toLower hnext, toNat_simpleFold h, lowerAt_foldAt h,
      toNat_toLower h]

theorem eq_or_simpleFold {d : Char} (hc : irregular c.toNat = false)
    (hd : irregular d.toNat = false) (h : toLower c = toLower d) : c = d ∨ simpleFold c = d := by
  rw [← Char.toNat_inj, ← Char.toNat_inj, toNat_simpleFold hc]
  rw [← Char.toNat_inj, toNat_toLower hc, toNat_toLower hd] at h
  exact eq_or_foldAt_of_lowerAt hc hd h

theorem irregular_lowerTwins :
    (lowerTwins.all fun p => irregular p.1) = true := by
  decide +kernel

theorem simpleFold_ascii : ((List.range 128).all fun n =>
    decide (('A' ≤ Char.ofNat n ∧ Char.ofNat n ≤ 'Z') ↔
      (Char.ofNat n < simpleFold (.ofNat n) ∧ (simpleFold (.ofNat n)).toNat < 128)) &&
    (decide ('Z' < Char.ofNat n) || decide (Char.ofNat n < 'A') ||
      (simpleFold (.ofNat n)).toNat == n + 32)) = true := by
  decide +kernel

theorem foldRep_of_regular (h : irregular c.toNat = false) : foldRep c = toLower c := by
  have hdot : c ≠ dottedI := by
    rintro rfl
    exact absurd h (by decide +kernel)
  have hfind : (lowerTwins.find? fun p => p.1 == (toLower c).toNat) = none := by
    simp only [List.find?_eq_none, beq_iff_eq]
    intro p hp heq
    have hirr := List.all_eq_true.mp irregular_lowerTwins p hp
    rw [heq, toNat_toLower h, irregular_lowerAt h] at hirr
    cases hirr
  simp [foldRep, hdot, twin, hfind]

theorem foldRep_simpleFold : foldRep (simpleFold c) = foldRep c := by
  cases h : irregular c.toNat with
  | true =>
    simpa using (listed_of_irregular h).rep
  | false =>
    obtain ⟨hnext, _, hlower⟩ := simpleFold_regular h
    rw [foldRep_of_regular hnext, foldRep_of_regular h, hlower]

theorem irregular_foldRep : irregular (foldRep c).toNat = irregular c.toNat := by
  cases h : irregular c.toNat with
  | true => simpa using (listed_of_irregular h).listed
  | false => rw [foldRep_of_regular h, toNat_toLower h, irregular_lowerAt h]

end Chars

/-! ## Equality up to case -/

section Equality

variable {a b s t r : Char}

theorem foldRep_followFold (fuel : Nat) : foldRep (followFold s t fuel r) = foldRep r := by
  induction fuel generalizing r with
  | zero => rfl
  | succ fuel ih =>
    unfold followFold
    split
    · rw [ih, foldRep_simpleFold]
    · rfl

theorem ascii_iff (hlt : s < t) (ht : t.toNat < 128) :
    ('A' ≤ s ∧ s ≤ 'Z' ∧ t.toNat = s.toNat + 32) ↔ simpleFold s = t := by
  have hs : s.toNat < 128 := by
    have := UInt32.lt_iff_toNat_lt.mp (Char.lt_def.mp hlt)
    unfold Char.toNat at *
    omega
  have hcheck := List.all_eq_true.mp simpleFold_ascii s.toNat (List.mem_range.mpr hs)
  simp only [Char.ofNat_toNat, Bool.and_eq_true, Bool.or_eq_true, decide_eq_true_eq,
    beq_iff_eq] at hcheck
  obtain ⟨hiff, hnext⟩ := hcheck
  constructor
  · rintro ⟨hA, hZ, heq⟩
    rw [← Char.toNat_inj, heq]
    rcases hnext with (hnext | hnext) | hnext
    · exact absurd hZ (Char.not_le.mpr hnext)
    · exact absurd hA (Char.not_le.mpr hnext)
    · exact hnext
  · rintro rfl
    obtain ⟨hA, hZ⟩ := hiff.mpr ⟨hlt, ht⟩
    refine ⟨hA, hZ, ?_⟩
    rcases hnext with (hnext | hnext) | hnext
    · exact absurd hZ (Char.not_le.mpr hnext)
    · exact absurd hA (Char.not_le.mpr hnext)
    · exact hnext

theorem followFold_of_eq (h : simpleFold s = t) (fuel : Nat) :
    followFold s t fuel (simpleFold s) = t := by
  cases fuel with
  | zero => exact h
  | succ fuel => simp [followFold, h]

theorem equalFoldChar_of_simpleFold (hlt : s < t) (h : simpleFold s = t) :
    equalFoldChar s t = true := by
  have hmin : min s t = s := min_eq_left hlt.le
  have hmax : max s t = t := max_eq_right hlt.le
  simp only [equalFoldChar, hlt.ne, if_false, hmin, hmax]
  split
  · rename_i ht
    exact decide_eq_true ((ascii_iff hlt ht).mpr h)
  · rw [followFold_of_eq h, beq_self_eq_true]

theorem equalFoldChar_comm : equalFoldChar a b = equalFoldChar b a := by
  simp only [equalFoldChar, eq_comm (a := a), min_comm a, max_comm a]

theorem foldRep_of_equalFoldChar (h : equalFoldChar a b = true) : foldRep a = foldRep b := by
  wlog hle : a ≤ b generalizing a b
  · rw [equalFoldChar_comm] at h
    exact (this h (le_of_not_ge hle)).symm
  rcases hle.eq_or_lt with rfl | hlt
  · rfl
  · have hmin : min a b = a := min_eq_left hle
    have hmax : max a b = b := max_eq_right hle
    simp only [equalFoldChar, hlt.ne, if_false, hmin, hmax] at h
    split at h
    · rename_i hb
      rw [← (ascii_iff hlt hb).mp (of_decide_eq_true h), foldRep_simpleFold]
    · rw [← beq_iff_eq.mp h, foldRep_followFold, foldRep_simpleFold]

theorem equalFoldChar_of_foldRep (h : foldRep a = foldRep b) : equalFoldChar a b = true := by
  have hsame : irregular a.toNat = irregular b.toNat := by
    rw [← irregular_foldRep, h, irregular_foldRep]
  cases ha : irregular a.toNat with
  | true =>
    obtain ⟨q, hq, hqb⟩ := List.any_eq_true.mp (hsame ▸ ha : irregular b.toNat = true)
    have hpair := List.all_eq_true.mp (listed_of_irregular ha).equal q hq
    rw [beq_iff_eq.mp hqb, Char.ofNat_toNat, Char.ofNat_toNat] at hpair
    simpa [h] using hpair
  | false =>
    have hb : irregular b.toNat = false := hsame ▸ ha
    rw [foldRep_of_regular ha, foldRep_of_regular hb] at h
    rcases eq_or_simpleFold ha hb h with rfl | hfold
    · simp [equalFoldChar]
    · rcases lt_trichotomy a b with hlt | rfl | hlt
      · exact equalFoldChar_of_simpleFold hlt hfold
      · simp [equalFoldChar]
      · rw [equalFoldChar_comm]
        exact equalFoldChar_of_simpleFold hlt (by rw [← hfold, (simpleFold_regular ha).2.1])

theorem equalFoldChar_iff : equalFoldChar a b = true ↔ foldRep a = foldRep b :=
  ⟨foldRep_of_equalFoldChar, equalFoldChar_of_foldRep⟩

theorem equalFoldList_iff {as bs : List Char} :
    equalFoldList as bs = true ↔ as.map foldRep = bs.map foldRep := by
  induction as generalizing bs with
  | nil => cases bs <;> simp [equalFoldList]
  | cons a as ih =>
    cases bs with
    | nil => simp [equalFoldList]
    | cons b bs => simp [equalFoldList, equalFoldChar_iff, ih]

theorem equalFold_iff {s t : String} :
    equalFold s t = true ↔ s.toList.map foldRep = t.toList.map foldRep :=
  equalFoldList_iff

theorem equalFold_comm (s t : String) : equalFold s t = equalFold t s := by
  rw [Bool.eq_iff_iff, equalFold_iff, equalFold_iff, eq_comm]

theorem toLower_ne_dottedI : toLower a ≠ dottedI := by
  cases h : irregular a.toNat with
  | true => simpa using (listed_of_irregular h).dotless
  | false =>
    intro heq
    have hreg := irregular_lowerAt h
    rw [← toNat_toLower h, heq] at hreg
    exact absurd hreg (by decide +kernel)

theorem twin_ne_dottedI (h : a ≠ dottedI) : twin a ≠ dottedI := by
  unfold twin
  split
  · rename_i p hfind
    have hall : (lowerTwins.all fun p => Char.ofNat p.2 != dottedI) = true := by decide +kernel
    exact bne_iff_ne.mp (List.all_eq_true.mp hall p (List.mem_of_find?_eq_some hfind))
  · exact h

end Equality

theorem map_foldRep_iff {as bs : List Char} (has : dottedI ∉ as) :
    as.map foldRep = bs.map foldRep ↔
      dottedI ∉ bs ∧ as.map (twin ∘ toLower) = bs.map (twin ∘ toLower) := by
  induction as generalizing bs with
  | nil => cases bs <;> simp
  | cons a as ih =>
    obtain ⟨ha, has⟩ : dottedI ≠ a ∧ dottedI ∉ as := by simpa using has
    have hrep : foldRep a = twin (toLower a) := by simp [foldRep, ha.symm]
    cases bs with
    | nil => simp
    | cons b bs =>
      by_cases hb : b = dottedI
      · subst hb
        have hne : foldRep a ≠ foldRep dottedI := by
          rw [hrep, foldRep, if_pos rfl]
          exact twin_ne_dottedI toLower_ne_dottedI
        simp [hne]
      · have hrepb : foldRep b = twin (toLower b) := by simp [foldRep, hb]
        simp [hrep, hrepb, Ne.symm hb, ih has, and_left_comm]

def Twinned (s t : String) : Prop := (lower s).toList.map twin = (lower t).toList.map twin

instance (s t : String) : Decidable (Twinned s t) := inferInstanceAs (Decidable (_ = _))

theorem equalFold_iff_twinned (hs : dottedI ∉ s.toList) :
    equalFold s t = true ↔ dottedI ∉ t.toList ∧ Twinned s t := by
  rw [equalFold_iff, map_foldRep_iff hs]
  simp [Twinned, lower]

theorem dottedI_notMem_lower (s : String) : dottedI ∉ (lower s).toList := by
  intro h
  obtain ⟨a, _, ha⟩ := List.mem_map.mp (String.toList_ofList ▸ h)
  exact toLower_ne_dottedI ha

/-- Equality up to case and equality of the lower case differ at a capital I with a
dot, and where the lower-case letters are different ones of one fold class. -/
theorem equalFold_iff_lower (hs : dottedI ∉ s.toList) :
    (equalFold s t = true ↔ lower s = lower t) ↔
      (lower s = lower t → dottedI ∉ t.toList) ∧
        (dottedI ∉ t.toList → Twinned s t → lower s = lower t) := by
  rw [equalFold_iff_twinned hs]
  constructor
  · intro h
    exact ⟨fun heq => (h.mpr heq).1, fun hdot htwin => h.mp ⟨hdot, htwin⟩⟩
  · rintro ⟨hdotted, htwins⟩
    exact ⟨fun h => htwins h.1 h.2, fun heq => ⟨hdotted heq, by rw [Twinned, heq]⟩⟩

end Monierave.Unicode
