import Monierave.Api.Replies
import Monierave.Banking.System
import Monierave.Queries.Lists

/-! # Lists by page number

`listAccount` and `listBeneficiaries` turn a page number into an offset.
-/

namespace Monierave

open Relational

structure PageRequest where
  pageID : Int32
  pageSize : Int32
  deriving DecidableEq

namespace PageRequest

def offset (req : PageRequest) : Int32 := (req.pageID - 1) * req.pageSize

def rowsBefore (req : PageRequest) : Int := (req.pageID.toInt - 1) * req.pageSize.toInt

/-- A check of a number with a lower and possibly an upper bound. A zero counts as
missing. -/
def checkNumber (record field : String) (optional : Bool) (least : Int32) (most : Option Int32)
    (value : Int32) : Option String :=
  if value = 0 then
    if optional then none else some (BindingError.fieldMessage record field "required")
  else if value < least then some (BindingError.fieldMessage record field "min")
  else if most.any (· < value) then some (BindingError.fieldMessage record field "max")
  else none

/-- `required,min=1` and `required,min=5,max=100` -/
def validateListAccount (req : PageRequest) : Except BindingError PageRequest :=
  BindingError.validateRaw
    [checkNumber "listAccountRequest" "PageID" false 1 none req.pageID,
      checkNumber "listAccountRequest" "PageSize" false 5 (some 100) req.pageSize] req

/-- `omitempty,min=1` and `omitempty,min=1,max=100` -/
def validateListBeneficiary (req : PageRequest) : Except BindingError PageRequest :=
  BindingError.validateRaw
    [checkNumber "listBeneficiaryRequest" "PageID" true 1 none req.pageID,
      checkNumber "listBeneficiaryRequest" "PageSize" true 1 (some 100) req.pageSize] req

/-- The defaults of `listBeneficiaries`. -/
def withDefaults (req : PageRequest) : PageRequest where
  pageID := if req.pageID = 0 then 1 else req.pageID
  pageSize := if req.pageSize = 0 then 20 else req.pageSize

end PageRequest

section Handlers

variable {α : Type} (username : String)

/-- The accounts on a page. `query` is what the decoder makes of the query string. -/
def accountPage (query : Except BindingError PageRequest) (db : DB) :
    Except (Reply α) (List Account) :=
  match query.bind PageRequest.validateListAccount with
  | .error e => .error e.reply
  | .ok req =>
    match listAccount ⟨username, req.pageSize, req.offset⟩ db with
    | .error _ => .error (.errorResponse 500 .internalServer)
    | .ok accounts => .ok accounts

def beneficiaryPage (query : Except BindingError PageRequest) (db : DB) :
    Except (Reply α) (List ListOwnedBeneficiariesRow) :=
  match query.bind PageRequest.validateListBeneficiary with
  | .error e => .error e.reply
  | .ok req =>
    let req := req.withDefaults
    match listOwnedBeneficiaries ⟨username, req.pageSize, req.offset⟩ db with
    | .error _ => .error (.errorResponse 500 .internalServer)
    | .ok rows => .ok rows

end Handlers

namespace PageRequest

variable {req : PageRequest}

structure InRange (req : PageRequest) : Prop where
  pageID : 1 ≤ req.pageID.toInt
  pageSize : 1 ≤ req.pageSize.toInt
  pageSize_le : req.pageSize.toInt ≤ 100

theorem checkNumber_eq_none_iff {record field : String} {optional : Bool} {least : Int32}
    {most : Option Int32} {value : Int32} :
    checkNumber record field optional least most value = none ↔
      if value = 0 then optional = true else least ≤ value ∧ ∀ m ∈ most, value ≤ m := by
  unfold checkNumber
  by_cases hzero : value = 0
  · cases optional <;> simp [hzero]
  · rw [if_neg hzero, if_neg hzero]
    by_cases hmin : value < least
    · simp [hmin, Int32.not_le.mpr hmin]
    · cases most with
      | none => simp [hmin, Int32.not_lt.mp hmin]
      | some m =>
        by_cases hmax : m < value
        · simp [hmin, hmax, Int32.not_le.mpr hmax]
        · simp [hmin, hmax, Int32.not_lt.mp hmin, Int32.not_lt.mp hmax]

theorem validateListAccount_iff :
    req.validateListAccount = .ok req ↔
      1 ≤ req.pageID ∧ 5 ≤ req.pageSize ∧ req.pageSize ≤ 100 := by
  have hpositive : ∀ {least value : Int32}, 0 < least → least ≤ value → value ≠ 0 := by
    rintro least value hleast hvalue rfl
    exact Int32.not_le.mpr hleast hvalue
  rw [validateListAccount, BindingError.validateRaw_ok]
  simp only [List.forall_mem_cons, List.not_mem_nil, IsEmpty.forall_iff, implies_true,
    checkNumber_eq_none_iff, true_and, and_true]
  constructor
  · rintro ⟨hpage, hsize⟩
    split_ifs at hpage hsize
    exact ⟨hpage.1, hsize.1, hsize.2 100 rfl⟩
  · rintro ⟨hpage, hleast, hmost⟩
    rw [if_neg (hpositive (by decide) hpage), if_neg (hpositive (by decide) hleast)]
    exact ⟨⟨hpage, by simp⟩, hleast, by simpa using hmost⟩

theorem validateListBeneficiary_iff :
    req.validateListBeneficiary = .ok req ↔
      (req.pageID ≠ 0 → 1 ≤ req.pageID) ∧
        (req.pageSize ≠ 0 → 1 ≤ req.pageSize ∧ req.pageSize ≤ 100) := by
  rw [validateListBeneficiary, BindingError.validateRaw_ok]
  simp only [List.forall_mem_cons, List.not_mem_nil, IsEmpty.forall_iff, implies_true,
    checkNumber_eq_none_iff, true_and, and_true]
  by_cases hpage : req.pageID = 0 <;> by_cases hsize : req.pageSize = 0 <;> simp [hpage, hsize]

theorem inRange_iff : req.InRange ↔ 1 ≤ req.pageID ∧ 1 ≤ req.pageSize ∧ req.pageSize ≤ 100 := by
  simp only [Int32.le_iff_toInt_le]
  exact ⟨fun h => ⟨h.pageID, h.pageSize, h.pageSize_le⟩, fun h => ⟨h.1, h.2.1, h.2.2⟩⟩

theorem inRange_of_validateListAccount (h : req.validateListAccount = .ok req) : req.InRange := by
  obtain ⟨hpage, hleast, hmost⟩ := validateListAccount_iff.mp h
  exact inRange_iff.mpr ⟨hpage, Int32.le_trans (by decide) hleast, hmost⟩

theorem inRange_of_validateListBeneficiary (h : req.validateListBeneficiary = .ok req) :
    req.withDefaults.InRange := by
  obtain ⟨hpage, hsize⟩ := validateListBeneficiary_iff.mp h
  rw [inRange_iff, withDefaults]
  dsimp only
  constructor
  · split_ifs with hzero
    · exact Int32.le_refl 1
    · exact hpage hzero
  · split_ifs with hzero
    · decide
    · exact hsize hzero

theorem withDefaults_of_inRange (h : req.InRange) : req.withDefaults = req := by
  have hne : ∀ {value : Int32}, 1 ≤ value.toInt → value ≠ 0 := by
    rintro value hvalue rfl
    exact absurd hvalue (by decide)
  rw [withDefaults, if_neg (hne h.pageID), if_neg (hne h.pageSize)]

theorem offset_eq_iff (h : req.InRange) :
    req.offset.toInt = req.rowsBefore ↔ req.rowsBefore < 2 ^ 31 := by
  have hpage := h.pageID
  have hsize := h.pageSize
  have hid := Int32.toInt_lt req.pageID
  have hsub : (req.pageID - 1).toInt = req.pageID.toInt - 1 := by
    rw [Int32.toInt_sub]
    have hone : (1 : Int32).toInt = 1 := by decide
    rw [hone, Int.bmod_eq_of_le] <;> omega
  have hnonneg : 0 ≤ req.rowsBefore := Int.mul_nonneg (by omega) (by omega)
  rw [offset, Int32.toInt_mul, hsub, ← rowsBefore]
  constructor
  · intro heq
    have hlt := Int.bmod_lt (x := req.rowsBefore) (m := 2 ^ 32) (by decide)
    omega
  · intro hlt
    rw [Int.bmod_eq_of_le] <;> omega

theorem limitOffset_eq_slice {R : Type} (h : req.InRange) (hfits : req.rowsBefore < 2 ^ 31)
    (rows : List R) :
    limitOffset req.pageSize req.offset rows =
      .ok (slice req.pageSize.toNatClampNeg (req.pageID.toInt - 1).toNat rows) := by
  have hpage := h.pageID
  have hsize := h.pageSize
  have hoffset := (offset_eq_iff h).mpr hfits
  have hnonneg : 0 ≤ req.rowsBefore := Int.mul_nonneg (by omega) (by omega)
  have hclamp : req.offset.toNatClampNeg =
      (req.pageID.toInt - 1).toNat * req.pageSize.toNatClampNeg := by
    rw [Int32.toNatClampNeg, hoffset, rowsBefore, Int32.toNatClampNeg, Int.toNat_mul (by omega)
      (by omega)]
  have hzero : (0 : Int32).toInt = 0 := by decide
  rw [limitOffset, if_neg, if_neg, hclamp, slice]
  · rw [Int32.lt_iff_toInt_lt, hzero]
    omega
  · rw [Int32.lt_iff_toInt_lt, hzero, hoffset]
    omega

end PageRequest

section Pages

variable {α : Type} {username : String} {db : DB} {req : PageRequest}

open PageRequest

theorem accountPage_ok (h : req.validateListAccount = .ok req)
    (hfits : req.rowsBefore < 2 ^ 31) :
    accountPage (α := α) username (.ok req) db =
      .ok (slice req.pageSize.toNatClampNeg (req.pageID.toInt - 1).toNat
        (db.ownedAccounts username)) := by
  have hpage := limitOffset_eq_slice (inRange_of_validateListAccount h) hfits
    (db.ownedAccounts username)
  simp only [accountPage, Except.bind, h, listAccount, hpage]

theorem beneficiaryPage_ok (h : req.validateListBeneficiary = .ok req)
    (hfits : req.withDefaults.rowsBefore < 2 ^ 31) :
    beneficiaryPage (α := α) username (.ok req) db =
      .ok (slice req.withDefaults.pageSize.toNatClampNeg (req.withDefaults.pageID.toInt - 1).toNat
        (db.ownedBeneficiaries username)) := by
  have hpage := limitOffset_eq_slice (inRange_of_validateListBeneficiary h) hfits
    (db.ownedBeneficiaries username)
  simp only [beneficiaryPage, Except.bind, h, listOwnedBeneficiaries, hpage]

theorem rowsBefore_ofNat {size : Int32} {i : ℕ} (hi : i + 1 < 2 ^ 31) (hsize : 1 ≤ size.toInt) :
    (⟨.ofNat (i + 1), size⟩ : PageRequest).rowsBefore = (i * size.toNatClampNeg : ℕ) := by
  rw [rowsBefore, Int32.toInt_ofNat_of_lt hi, Int32.toNatClampNeg]
  push_cast
  rw [Int.add_sub_cancel, Int.toNat_of_nonneg (by omega)]

theorem page_bounds {size : Int32} {i k : ℕ} (hi : i < k) (hsize : 1 ≤ size.toInt)
    (hk : k * size.toNatClampNeg < 2 ^ 31) :
    (Int32.ofNat (i + 1)).toInt = (i + 1 : ℕ) ∧ 1 ≤ Int32.ofNat (i + 1) ∧
      (⟨.ofNat (i + 1), size⟩ : PageRequest).rowsBefore < 2 ^ 31 := by
  have hpos : 1 ≤ size.toNatClampNeg := by
    rw [Int32.toNatClampNeg]
    omega
  have hend : (i + 1) * size.toNatClampNeg ≤ k * size.toNatClampNeg := Nat.mul_le_mul_right _ hi
  have hnumber : i + 1 < 2 ^ 31 := by
    have := Nat.le_mul_of_pos_right (i + 1) hpos
    omega
  have htoInt := Int32.toInt_ofNat_of_lt hnumber
  refine ⟨htoInt, ?_, ?_⟩
  · rw [Int32.le_iff_toInt_le, htoInt]
    show (1 : Int) ≤ _
    omega
  · rw [rowsBefore_ofNat hnumber hsize]
    rw [Nat.succ_mul] at hend
    omega

end Pages

/-- The offset is exact exactly if the number of rows before the page is less than `2 ^ 31`.
As long as it is, the pages of one size are the slices of the ordered list, none left out
and none shown twice. -/
theorem listPages_exact_iff (α : Type) (username : String) (db : DB) :
    (∀ req : PageRequest, req.validateListAccount = .ok req →
        (req.offset.toInt = req.rowsBefore ↔ req.rowsBefore < 2 ^ 31)) ∧
      (∀ req : PageRequest, req.validateListBeneficiary = .ok req →
        (req.withDefaults.offset.toInt = req.withDefaults.rowsBefore ↔
          req.withDefaults.rowsBefore < 2 ^ 31)) ∧
      (∀ (size : Int32) (k : ℕ), 5 ≤ size → size ≤ 100 → k * size.toNatClampNeg < 2 ^ 31 →
        ∃ pages : ℕ → List Account,
          (∀ i < k, accountPage (α := α) username (.ok ⟨.ofNat (i + 1), size⟩) db =
            .ok (pages i)) ∧
          (List.range k).flatMap pages =
            (db.ownedAccounts username).take (k * size.toNatClampNeg)) ∧
      ∀ (size : Int32) (k : ℕ), 1 ≤ size → size ≤ 100 → k * size.toNatClampNeg < 2 ^ 31 →
        ∃ pages : ℕ → List ListOwnedBeneficiariesRow,
          (∀ i < k, beneficiaryPage (α := α) username (.ok ⟨.ofNat (i + 1), size⟩) db =
            .ok (pages i)) ∧
          (List.range k).flatMap pages =
            (db.ownedBeneficiaries username).take (k * size.toNatClampNeg) := by
  refine ⟨?_, ?_, ?_, ?_⟩
  · exact fun req h => PageRequest.offset_eq_iff (PageRequest.inRange_of_validateListAccount h)
  · exact fun req h => PageRequest.offset_eq_iff (PageRequest.inRange_of_validateListBeneficiary h)
  · intro size k hleast hmost hk
    refine ⟨fun i => slice size.toNatClampNeg i (db.ownedAccounts username), ?_,
      flatMap_slice _ _ _⟩
    intro i hi
    have hone : (1 : Int32) ≤ size := Int32.le_trans (by decide) hleast
    have hsize : 1 ≤ size.toInt := Int32.le_iff_toInt_le.mp hone
    obtain ⟨hnumber, hpage, hbefore⟩ := page_bounds hi hsize hk
    have hvalid : (⟨.ofNat (i + 1), size⟩ : PageRequest).validateListAccount = .ok _ :=
      PageRequest.validateListAccount_iff.mpr ⟨hpage, hleast, hmost⟩
    rw [accountPage_ok hvalid hbefore, hnumber]
    simp
  · intro size k hleast hmost hk
    refine ⟨fun i => slice size.toNatClampNeg i (db.ownedBeneficiaries username), ?_,
      flatMap_slice _ _ _⟩
    intro i hi
    have hsize : 1 ≤ size.toInt := Int32.le_iff_toInt_le.mp hleast
    obtain ⟨hnumber, hpage, hbefore⟩ := page_bounds hi hsize hk
    have hvalid : (⟨.ofNat (i + 1), size⟩ : PageRequest).validateListBeneficiary = .ok _ :=
      PageRequest.validateListBeneficiary_iff.mpr ⟨fun _ => hpage, fun _ => ⟨hleast, hmost⟩⟩
    have hdefaults : (⟨.ofNat (i + 1), size⟩ : PageRequest).withDefaults = ⟨.ofNat (i + 1), size⟩ :=
      PageRequest.withDefaults_of_inRange (PageRequest.inRange_iff.mpr ⟨hpage, hleast, hmost⟩)
    rw [beneficiaryPage_ok hvalid (by rwa [hdefaults]), hdefaults, hnumber]
    simp

def sarahsAccount : Account where
  id := 1
  publicID := 7
  owner := "sarah"
  accountNumber := "0000000001"
  balance := 0
  currency := "USD"
  status := .active
  createdAt := 0
  updatedAt := 0
  closedAt := none

def oneAccount : DB := { DB.initial ∅ with accounts := ⟨[sarahsAccount], by decide +kernel⟩ }

/-- The offset of a page far behind the list is zero again. -/
theorem accountPage_repeats :
    (⟨67108865, 64⟩ : PageRequest).validateListAccount = .ok ⟨67108865, 64⟩ ∧
      (⟨67108865, 64⟩ : PageRequest).rowsBefore = 2 ^ 32 ∧
      (⟨67108865, 64⟩ : PageRequest).offset.toInt = 0 ∧
      (accountPage (α := Unit) "sarah" (.ok ⟨1, 64⟩) oneAccount).toOption =
        some [sarahsAccount] ∧
      (accountPage (α := Unit) "sarah" (.ok ⟨67108865, 64⟩) oneAccount).toOption =
        some [sarahsAccount] := by
  refine ⟨PageRequest.validateListAccount_iff.mpr (by decide), by decide, by decide,
    by decide +kernel, by decide +kernel⟩

end Monierave
