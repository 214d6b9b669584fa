import Monierave.Api.Walks
import Monierave.Queries.MoneyMovement

/-! # Money in and out of an account

The request for what came in and went out of an account, day by day or week by week.
-/

namespace Monierave

open Relational Accounting Timestamped
open GetOwnedAccountMoneyMovementParams (periods_eq)

/-! ## The handler -/

structure MoneyMovementQuery where
  fromValue : String
  toValue : String
  interval : String
  deriving DecidableEq

namespace MoneyMovementQuery

def fieldMessage : String → String → String := BindingError.fieldMessage "moneyMovementQuery"

/-- `required` -/
def checkRequired (field value : String) : Option String :=
  if value = "" then some (fieldMessage field "required") else none

/-- `required,oneof=day week` -/
def checkInterval (value : String) : Option String :=
  if value = "" then some (fieldMessage "Interval" "required")
  else if value ∈ ["day", "week"] then none
  else some (fieldMessage "Interval" "oneof")

def validate (query : MoneyMovementQuery) : Except BindingError MoneyMovementQuery :=
  BindingError.validateRaw [checkRequired "From" query.fromValue, checkRequired "To" query.toValue,
    checkInterval query.interval] query

end MoneyMovementQuery

def maxMoneyMovementRange : Int := 366 * 24 * 3600 * 10 ^ 9

structure MoneyMovementBucketResponse where
  start : Timestamp
  incoming : Int64
  outgoing : Int64
  deriving DecidableEq

structure MoneyMovementResponse where
  accountID : String
  currency : String
  fromTime : Time
  toTime : Time
  interval : String
  moneyIn : Int64
  moneyOut : Int64
  buckets : List MoneyMovementBucketResponse
  deriving DecidableEq

/-- The totals are added up in `int64`. -/
def moneyMovementResponse (account : Account) (fromTime toTime : Time) (interval : String)
    (rows : List GetOwnedAccountMoneyMovementRow) : MoneyMovementResponse where
  accountID := account.publicID.text
  currency := account.currency
  fromTime := fromTime
  toTime := toTime
  interval := interval
  moneyIn := rows.foldl (fun total row => total + row.incoming) 0
  moneyOut := rows.foldl (fun total row => total + row.outgoing) 0
  buckets := rows.map fun row => ⟨row.bucketStart, row.incoming, row.outgoing⟩

/-- `query` is what the decoder makes of the query string. -/
def getAccountMoneyMovement (lib : HistoryLibrary) (username publicID : String)
    (query : Except BindingError MoneyMovementQuery) (db : DB) : Reply MoneyMovementResponse :=
  match query.bind MoneyMovementQuery.validate with
  | .error e => e.reply
  | .ok query =>
    match parseTransactionDateRange lib query.fromValue query.toValue with
    | .ok (some fromTime, some toTime) =>
      if toTime.nanos - fromTime.nanos > maxMoneyMovementRange then
        .errorResponse 400 .invalidDateRange
      else
        match bindAccountPublicID lib publicID with
        | .error reply => reply
        | .ok id =>
          match getOwnedAccountByPublicID (some id) username db with
          | none => .errorResponse 404 .accountNotFound
          | some account =>
            match getOwnedAccountMoneyMovement {
                accountPublicID := some id
                username := username
                bucketInterval := query.interval
                fromTime := fromTime.timestamp
                toTime := toTime.timestamp } db with
            | .error _ => .errorResponse 500 .internalServer
            | .ok rows => .success 200
                (moneyMovementResponse account fromTime toTime query.interval rows)
    | _ => .errorResponse 400 .invalidDateRange

/-! ## What was posted on an account -/

namespace Books

def movedBy (b : Books) (p : LedgerPosting) : Option (Timestamp × Int64) :=
  (b.bankingTransactions.get (.id p.transactionID)).bind fun t =>
    if t.status = .posted ∨ t.status = .reversed then t.postedAt.map fun time => (time, p.amount)
    else none

def accountPostings (b : Books) (accountID : Int64) : List LedgerPosting :=
  b.ledgerPostings.rows.filter fun p => b.customerOf p.ledgerAccountID = some accountID

/-- The time and amount of every posting of a posted or reversed transaction on a
customer account, from one time up to another. -/
def movedWithin (b : Books) (accountID : Int64) (fromTime toTime : Timestamp) :
    List (Timestamp × Int64) :=
  ((b.accountPostings accountID).filterMap b.movedBy).filter
    fun m => fromTime ≤ m.1 ∧ m.1 < toTime

end Books

def creditSum (ms : List (Timestamp × Int64)) : Int :=
  ((ms.filter fun m => 0 < m.2).map (·.2.toInt)).sum

def debitSum (ms : List (Timestamp × Int64)) : Int :=
  ((ms.filter fun m => m.2 < 0).map fun m => (m.2.toInt.natAbs : Int)).sum

section Sums

variable {ms : List (Timestamp × Int64)} (f : Timestamp → Timestamp)

theorem creditSum_nonneg (ms : List (Timestamp × Int64)) : 0 ≤ creditSum ms := by
  apply List.sum_nonneg
  intro x hx
  obtain ⟨m, hm, rfl⟩ := List.mem_map.mp hx
  have hpos : 0 < m.2 := of_decide_eq_true (List.mem_filter.mp hm).2
  have hpos' := Int64.lt_iff_toInt_lt.mp hpos
  rw [Int64.toInt_zero] at hpos'
  exact hpos'.le

theorem debitSum_nonneg (ms : List (Timestamp × Int64)) : 0 ≤ debitSum ms := by
  apply List.sum_nonneg
  intro x hx
  obtain ⟨m, _, rfl⟩ := List.mem_map.mp hx
  exact Int.natCast_nonneg _

theorem incomingSum_map (start : Timestamp) :
    incomingSum (ms.map fun m => (f m.1, m.2)) start = creditSum (ms.filter fun m => f m.1 = start) := by
  simp only [incomingSum, creditSum, List.filter_map, List.map_map, List.filter_filter]
  congr 2
  apply List.filter_congr
  intro m _
  simp [Bool.and_comm]

theorem natAbs_outgoingSum_map (start : Timestamp) :
    ((outgoingSum (ms.map fun m => (f m.1, m.2)) start).natAbs : Int) =
      debitSum (ms.filter fun m => f m.1 = start) := by
  have hsum : outgoingSum (ms.map fun m => (f m.1, m.2)) start =
      (((ms.filter fun m => f m.1 = start).filter fun m => m.2 < 0).map (·.2.toInt)).sum := by
    simp only [outgoingSum, List.filter_map, List.map_map, List.filter_filter]
    congr 2
    apply List.filter_congr
    intro m _
    simp [Bool.and_comm]
  have hopposite : debitSum (ms.filter fun m => f m.1 = start) +
      outgoingSum (ms.map fun m => (f m.1, m.2)) start = 0 := by
    rw [hsum, debitSum, ← List.sum_map_add]
    apply List.sum_eq_zero
    intro x hx
    obtain ⟨m, hm, rfl⟩ := List.mem_map.mp hx
    have hneg : m.2 < 0 := of_decide_eq_true (List.mem_filter.mp hm).2
    have hneg' := Int64.lt_iff_toInt_lt.mp hneg
    rw [Int64.toInt_zero] at hneg'
    omega
  have hnonneg := debitSum_nonneg (ms.filter fun m => f m.1 = start)
  omega

theorem sum_periods {starts : List Timestamp} (hn : starts.Nodup) (h : ∀ m ∈ ms, f m.1 ∈ starts)
    (counts : Timestamp × Int64 → Bool) (amount : Timestamp × Int64 → Int) :
    (starts.map fun start =>
      (((ms.filter fun m => f m.1 = start).filter counts).map amount).sum).sum =
        ((ms.filter counts).map amount).sum := by
  have hmem : ∀ m ∈ ms.filter counts, f m.1 ∈ starts := fun m hm => h m (List.mem_of_mem_filter hm)
  rw [← sum_groupSum hn hmem]
  congr 1
  apply List.map_congr_left
  intro start _
  rw [groupSum, List.filter_filter, List.filter_filter]
  congr 2
  apply List.filter_congr
  intro m _
  exact Bool.and_comm _ _

theorem toInt_foldl_add {α : Type} (rows : List α) (amount : α → Int64)
    (h : fitsBigint (rows.map fun r => (amount r).toInt).sum) :
    (rows.foldl (fun total r => total + amount r) 0).toInt =
      (rows.map fun r => (amount r).toInt).sum := by
  have hfold : ∀ total : Int64, rows.foldl (fun total r => total + amount r) total =
      Int64.ofInt (total.toInt + (rows.map fun r => (amount r).toInt).sum) := by
    clear h
    induction rows with
    | nil => simp
    | cons r rows ih =>
      intro total
      rw [List.foldl_cons, ih, List.map_cons, List.sum_cons, ← Int.add_assoc]
      simp only [Int64.ofInt_add, Int64.ofInt_toInt]
  rw [hfold, Int64.toInt_zero, Int.zero_add, toInt_ofInt_of_fits h]

end Sums

/-! ## Accepted requests -/

structure MoneyMovementRequest (lib : HistoryLibrary) where
  username : String
  publicID : String
  query : MoneyMovementQuery
  accountID : UUID
  fromTime : Time
  toTime : Time
  interval : BucketInterval
  publicID_ne : publicID ≠ ""
  parsed : lib.parseUUID publicID = some accountID
  range_ok : parseTransactionDateRange lib query.fromValue query.toValue =
    .ok (some fromTime, some toTime)
  range_le : toTime.nanos - fromTime.nanos ≤ maxMoneyMovementRange
  interval_eq : query.interval = interval.text

namespace MoneyMovementRequest

variable {lib : HistoryLibrary} (req : MoneyMovementRequest lib)

def params : GetOwnedAccountMoneyMovementParams where
  accountPublicID := some req.accountID
  username := req.username
  bucketInterval := req.query.interval
  fromTime := req.fromTime.timestamp
  toTime := req.toTime.timestamp

theorem interval_params : req.params.bucketInterval = req.interval.text := req.interval_eq

theorem validate_query : req.query.validate = .ok req.query := by
  obtain ⟨hfrom, hto, _⟩ := parseTransactionDateRange_some req.range_ok
  have hinterval : MoneyMovementQuery.checkInterval req.query.interval = none := by
    rw [req.interval_eq]
    cases req.interval <;> rfl
  simp [MoneyMovementQuery.validate, BindingError.validateRaw, MoneyMovementQuery.checkRequired,
    parseTransactionBoundary_some hfrom, parseTransactionBoundary_some hto, hinterval]

theorem reply_eq {db : DB} {account : Account} {rows : List GetOwnedAccountMoneyMovementRow}
    (howned : getOwnedAccountByPublicID (some req.accountID) req.username db = some account)
    (hrows : getOwnedAccountMoneyMovement req.params db = .ok rows) :
    getAccountMoneyMovement lib req.username req.publicID (.ok req.query) db =
      .success 200 (moneyMovementResponse account req.fromTime req.toTime req.query.interval
        rows) := by
  have hbind : bindAccountPublicID lib req.publicID =
      (.ok req.accountID : Except (Reply MoneyMovementResponse) UUID) := by
    simp [bindAccountPublicID, req.publicID_ne, req.parsed]
  have hrows' : getOwnedAccountMoneyMovement ⟨some req.accountID, req.username,
      req.query.interval, req.fromTime.timestamp, req.toTime.timestamp⟩ db = .ok rows := hrows
  have hquery : Except.bind (.ok req.query) MoneyMovementQuery.validate = .ok req.query :=
    req.validate_query
  simp only [getAccountMoneyMovement, hquery, req.range_ok, hbind, howned, hrows',
    if_neg (Int.not_lt.mpr req.range_le)]

/-- The movements the query joins are those of the account within the bounds, each
truncated to the start of its period. -/
theorem movement_eq {db : DB} {account : Account}
    (howned : getOwnedAccountByPublicID (some req.accountID) req.username db = some account) :
    req.params.movement db =
      (db.movedWithin account.id req.fromTime.timestamp req.toTime.timestamp).map fun m =>
        (truncate req.interval.origin req.interval.length m.1, m.2) := by
  have htarget : db.targetLedger req.params.accountPublicID req.params.username =
      db.ledgerAccounts.get (.customerAccountID account.id) := by
    calc
      _ = (getOwnedAccountByPublicID (some req.accountID) req.username db).bind
          fun a => db.ledgerAccounts.get (.customerAccountID a.id) := rfl
      _ = _ := by rw [howned, Option.bind_some]
  have hpostings : ((db.ledgerAccounts.get (.customerAccountID account.id)).map
      fun ledger => db.activity ledger.id).getD [] =
        (db.accountPostings account.id).filterMap db.withTransaction := by
    cases hl : db.ledgerAccounts.get (.customerAccountID account.id) with
    | none =>
      have hnone : db.accountPostings account.id = [] := by
        rw [Books.accountPostings, List.filter_eq_nil_iff]
        intro p _ hp
        obtain ⟨l, hl', _⟩ := Books.get_of_customerOf (of_decide_eq_true hp)
        rw [hl] at hl'
        cases hl'
      rw [hnone]
      rfl
    | some l =>
      have hsame : db.accountPostings account.id = db.postingsOn l.id := by
        apply List.filter_congr
        intro p _
        rw [decide_eq_decide]
        exact Books.customerOf_eq_some_iff hl _
      rw [hsame]
      rfl
  rw [GetOwnedAccountMoneyMovementParams.movement, htarget, hpostings, Books.movedWithin,
    List.filter_filterMap, List.map_filterMap, List.filterMap_filterMap]
  congr 1
  funext p
  simp only [Books.withTransaction, Books.movedBy]
  cases db.bankingTransactions.get (.id p.transactionID) with
  | none => rfl
  | some t =>
    simp only [Option.map_some, Option.bind_some,
      GetOwnedAccountMoneyMovementParams.dateTrunc_eq req.interval_params]
    by_cases hstatus : t.status = .posted ∨ t.status = .reversed
    · cases t.postedAt with
      | none => simp
      | some time =>
        by_cases hwithin : req.fromTime.timestamp ≤ time ∧ time < req.toTime.timestamp
        · simp [hstatus, hwithin, params, Option.filter_some]
        · simp [hstatus, hwithin, params, Option.filter_some]
    · simp [hstatus]

end MoneyMovementRequest

/-! ## The periods partition the movements -/

/-- The buckets of a reply are contiguous periods, every movement lies in exactly one of
them, and the sums are those of the movements that do. -/
structure MoneyMovementResponse.Partitions (r : MoneyMovementResponse) (interval : BucketInterval)
    (ms : List (Timestamp × Int64)) : Prop where
  increasing : (r.buckets.map (·.start)).Pairwise (· < ·)
  contiguous : (r.buckets.map (·.start)).IsChain fun a b => b = a + interval.length
  starts : ∀ b ∈ r.buckets, interval.Starts b.start
  counted : ∀ m ∈ ms, ∃! b, b ∈ r.buckets ∧ b.start ≤ m.1 ∧ m.1 < b.start + interval.length
  incoming : ∀ b ∈ r.buckets, b.incoming.toInt =
    creditSum (ms.filter fun m => b.start ≤ m.1 ∧ m.1 < b.start + interval.length)
  outgoing : ∀ b ∈ r.buckets, b.outgoing.toInt =
    debitSum (ms.filter fun m => b.start ≤ m.1 ∧ m.1 < b.start + interval.length)
  moneyIn : r.moneyIn.toInt = creditSum ms
  moneyOut : r.moneyOut.toInt = debitSum ms

namespace MoneyMovementRequest

variable {lib : HistoryLibrary} (req : MoneyMovementRequest lib) {ms : List (Timestamp × Int64)}

def startOf (t : Timestamp) : Timestamp := truncate req.interval.origin req.interval.length t

/-- The bucket of a period for the movements `ms`. -/
def row (ms : List (Timestamp × Int64)) (start : Timestamp) : GetOwnedAccountMoneyMovementRow where
  bucketStart := start
  incoming := Int64.ofInt (creditSum (ms.filter fun m => req.startOf m.1 = start))
  outgoing := Int64.ofInt (debitSum (ms.filter fun m => req.startOf m.1 = start))

theorem nodup_periods : req.params.periods.Nodup := by
  rw [periods_eq req.interval_params]
  exact generateSeries_nodup req.interval.length_pos

theorem increasing_periods : req.params.periods.Pairwise (· < ·) := by
  rw [periods_eq req.interval_params]
  exact generateSeries_pairwise req.interval.length_pos

theorem contiguous_periods : req.params.periods.IsChain fun a b => b = a + req.interval.length := by
  rw [periods_eq req.interval_params]
  exact generateSeries_isChain _ _ _

theorem startOf_mem_periods {t : Timestamp} (hfrom : req.fromTime.timestamp ≤ t)
    (hto : t < req.toTime.timestamp) : req.startOf t ∈ req.params.periods := by
  rw [periods_eq req.interval_params]
  exact truncate_mem_generateSeries req.interval.length_pos hfrom (Int.le_sub_one_of_lt hto)

theorem starts_of_mem_periods {start : Timestamp} (h : start ∈ req.params.periods) :
    req.interval.Starts start := by
  rw [periods_eq req.interval_params,
    mem_generateSeries_truncate req.interval.length_pos] at h
  exact h.2.2

theorem fits_period {amount : List (Timestamp × Int64) → Int} (hnonneg : ∀ ms, 0 ≤ amount ms)
    (hsum : (req.params.periods.map fun start =>
      amount (ms.filter fun m => req.startOf m.1 = start)).sum = amount ms)
    (hfits : fitsBigint (amount ms)) {start : Timestamp} (h : start ∈ req.params.periods) :
    fitsBigint (amount (ms.filter fun m => req.startOf m.1 = start)) := by
  have hle : amount (ms.filter fun m => req.startOf m.1 = start) ≤ amount ms := by
    rw [← hsum]
    refine List.single_le_sum ?_ _ (List.mem_map_of_mem h)
    intro x hx
    obtain ⟨start', _, rfl⟩ := List.mem_map.mp hx
    exact hnonneg _
  have := hnonneg (ms.filter fun m => req.startOf m.1 = start)
  rw [fitsBigint_iff] at hfits ⊢
  omega

theorem partitions_rows (account : Account)
    (hwithin : ∀ m ∈ ms, req.fromTime.timestamp ≤ m.1 ∧ m.1 < req.toTime.timestamp)
    (hcredit : fitsBigint (creditSum ms)) (hdebit : fitsBigint (debitSum ms)) :
    (moneyMovementResponse account req.fromTime req.toTime req.query.interval
      (req.params.periods.map (req.row ms))).Partitions req.interval ms := by
  have hmem : ∀ m ∈ ms, req.startOf m.1 ∈ req.params.periods :=
    fun m hm => req.startOf_mem_periods (hwithin m hm).1 (hwithin m hm).2
  have hsumCredit := sum_periods req.startOf req.nodup_periods hmem (fun m => 0 < m.2) (·.2.toInt)
  have hsumDebit := sum_periods req.startOf req.nodup_periods hmem (fun m => m.2 < 0)
    fun m => (m.2.toInt.natAbs : Int)
  have hcredits : ∀ start ∈ req.params.periods, (req.row ms start).incoming.toInt =
      creditSum (ms.filter fun m => req.startOf m.1 = start) :=
    fun start h => toInt_ofInt_of_fits (req.fits_period creditSum_nonneg hsumCredit hcredit h)
  have hdebits : ∀ start ∈ req.params.periods, (req.row ms start).outgoing.toInt =
      debitSum (ms.filter fun m => req.startOf m.1 = start) :=
    fun start h => toInt_ofInt_of_fits (req.fits_period debitSum_nonneg hsumDebit hdebit h)
  -- the movements truncated to a start are those that lie in the period
  have hperiod : ∀ start ∈ req.params.periods,
      (ms.filter fun m => req.startOf m.1 = start) =
        ms.filter fun m => start ≤ m.1 ∧ m.1 < start + req.interval.length := by
    intro start h
    apply List.filter_congr
    intro m _
    rw [decide_eq_decide]
    exact truncate_eq_iff req.interval.length_pos (req.starts_of_mem_periods h) m.1
  have hstarts : ((req.params.periods.map (req.row ms)).map
      fun row => (⟨row.bucketStart, row.incoming, row.outgoing⟩ : MoneyMovementBucketResponse)).map
        (·.start) = req.params.periods := by
    rw [List.map_map, List.map_map]
    exact List.map_id _
  have hbucket : ∀ b ∈ (req.params.periods.map (req.row ms)).map
      fun row => (⟨row.bucketStart, row.incoming, row.outgoing⟩ : MoneyMovementBucketResponse),
      b.start ∈ req.params.periods ∧ b.incoming = (req.row ms b.start).incoming ∧
        b.outgoing = (req.row ms b.start).outgoing := by
    intro b hb
    rw [List.map_map] at hb
    obtain ⟨start, hstart, rfl⟩ := List.mem_map.mp hb
    exact ⟨hstart, rfl, rfl⟩
  refine {
    increasing := ?_
    contiguous := ?_
    starts := fun b hb => req.starts_of_mem_periods (hbucket b hb).1
    counted := ?_
    incoming := ?_
    outgoing := ?_
    moneyIn := ?_
    moneyOut := ?_ }
  · exact (congrArg (List.Pairwise (· < ·)) hstarts).mpr req.increasing_periods
  · exact (congrArg (List.IsChain _) hstarts).mpr req.contiguous_periods
  · intro m hm
    refine ⟨⟨req.startOf m.1, (req.row ms (req.startOf m.1)).incoming,
      (req.row ms (req.startOf m.1)).outgoing⟩, ⟨?_, ?_, ?_⟩, ?_⟩
    · exact List.mem_map_of_mem (List.mem_map_of_mem (hmem m hm))
    · exact truncate_le req.interval.length_pos m.1
    · exact lt_truncate_add req.interval.length_pos m.1
    · rintro b ⟨hb, hle, hlt⟩
      obtain ⟨hstart, hin, hout⟩ := hbucket b hb
      have heq : req.startOf m.1 = b.start :=
        (truncate_eq_iff req.interval.length_pos (req.starts_of_mem_periods hstart) m.1).mpr
          ⟨hle, hlt⟩
      cases b
      simp only at heq hin hout
      rw [heq, hin, hout]
  · intro b hb
    obtain ⟨hstart, hin, _⟩ := hbucket b hb
    rw [hin, hcredits _ hstart, hperiod _ hstart]
  · intro b hb
    obtain ⟨hstart, _, hout⟩ := hbucket b hb
    rw [hout, hdebits _ hstart, hperiod _ hstart]
  · have htotal : ((req.params.periods.map (req.row ms)).map fun r => r.incoming.toInt).sum =
        creditSum ms := by
      rw [List.map_map, creditSum, ← hsumCredit]
      exact congrArg List.sum (List.map_congr_left hcredits)
    exact (toInt_foldl_add _ _ (htotal ▸ hcredit)).trans htotal
  · have htotal : ((req.params.periods.map (req.row ms)).map fun r => r.outgoing.toInt).sum =
        debitSum ms := by
      rw [List.map_map, debitSum, ← hsumDebit]
      exact congrArg List.sum (List.map_congr_left hdebits)
    exact (toInt_foldl_add _ _ (htotal ▸ hdebit)).trans htotal

theorem rows_eq {db : DB} {account : Account}
    (howned : getOwnedAccountByPublicID (some req.accountID) req.username db = some account)
    (hms : db.movedWithin account.id req.fromTime.timestamp req.toTime.timestamp = ms)
    (hcredit : fitsBigint (creditSum ms)) (hdebit : fitsBigint (debitSum ms)) :
    getOwnedAccountMoneyMovement req.params db = .ok (req.params.periods.map (req.row ms)) := by
  have hmem : ∀ m ∈ ms, req.startOf m.1 ∈ req.params.periods := by
    subst hms
    intro m hm
    have hwithin := of_decide_eq_true (List.mem_filter.mp hm).2
    exact req.startOf_mem_periods hwithin.1 hwithin.2
  have hmovement := req.movement_eq howned
  rw [hms] at hmovement
  have hin : ∀ start, incomingSum (req.params.movement db) start =
      creditSum (ms.filter fun m => req.startOf m.1 = start) := by
    intro start
    rw [hmovement]
    exact incomingSum_map req.startOf start
  have hout : ∀ start, ((outgoingSum (req.params.movement db) start).natAbs : Int) =
      debitSum (ms.filter fun m => req.startOf m.1 = start) := by
    intro start
    rw [hmovement]
    exact natAbs_outgoingSum_map req.startOf start
  rw [getOwnedAccountMoneyMovement_ok]
  simp only [hin, hout]
  refine ⟨fun start h => ⟨?_, ?_⟩, rfl⟩
  · exact req.fits_period creditSum_nonneg (sum_periods req.startOf req.nodup_periods hmem _ _)
      hcredit h
  · exact req.fits_period debitSum_nonneg (sum_periods req.startOf req.nodup_periods hmem _ _)
      hdebit h

end MoneyMovementRequest

/-- Every accepted request for an account of the user is answered, if what came in and
what went out within its bounds fits `bigint`, and the answer is right: its buckets are
contiguous days or weeks in their order, every posting of a posted or reversed
transaction on the account within the bounds lies in exactly one of them, and all sums
are those of these postings. The bounds are cut to whole microseconds. -/
theorem getAccountMoneyMovement_partitions {lib : HistoryLibrary} (req : MoneyMovementRequest lib)
    (db : DB) (account : Account)
    (howned : getOwnedAccountByPublicID (some req.accountID) req.username db = some account)
    (hcredit : fitsBigint (creditSum
      (db.movedWithin account.id req.fromTime.timestamp req.toTime.timestamp)))
    (hdebit : fitsBigint (debitSum
      (db.movedWithin account.id req.fromTime.timestamp req.toTime.timestamp))) :
    ∃ r, getAccountMoneyMovement lib req.username req.publicID (.ok req.query) db =
        .success 200 r ∧
      r.Partitions req.interval
        (db.movedWithin account.id req.fromTime.timestamp req.toTime.timestamp) := by
  refine ⟨_, req.reply_eq howned (req.rows_eq howned rfl hcredit hdebit),
    req.partitions_rows account ?_ hcredit hdebit⟩
  intro m hm
  exact of_decide_eq_true (List.mem_filter.mp hm).2

/-! ## Alice's movements -/

def dailyMovements (fromValue toValue : String) (fromTime toTime : Time)
    (hrange : parseTransactionDateRange unaryLibrary fromValue toValue =
      .ok (some fromTime, some toTime))
    (hle : toTime.nanos - fromTime.nanos ≤ maxMoneyMovementRange) :
    MoneyMovementRequest unaryLibrary where
  username := "alice"
  publicID := (100 : UUID).text
  query := ⟨fromValue, toValue, "day"⟩
  accountID := 100
  fromTime := fromTime
  toTime := toTime
  interval := .day
  publicID_ne := requestOfAlice.publicID_ne
  parsed := requestOfAlice.parsed
  range_ok := hrange
  range_le := hle
  interval_eq := rfl

/-- Three days, the first and the last of which are cut at noon. -/
def fromNoonToNoon : MoneyMovementRequest unaryLibrary :=
  dailyMovements "1970-01-01T12:00:00Z" "1970-01-03T12:00:00Z" ⟨43200 * 10 ^ 9⟩ ⟨216000 * 10 ^ 9⟩
    (by decide +kernel) (by decide)

def fromHalfMicrosecond : MoneyMovementRequest unaryLibrary :=
  dailyMovements "1970-01-01T00:00:00.0000015Z" "1970-01-02T00:00:00Z" ⟨1500⟩ ⟨86400 * 10 ^ 9⟩
    (by decide +kernel) (by decide)

def withinNoons : List (Timestamp × Int64) :=
  [(50000000000, -20), (100000000000, 30), (200000000000, 5)]

theorem getAccountMoneyMovement_partitions_alice :
    ∃ account r, getOwnedAccountByPublicID (some 100) "alice" (afterMovements 4) = some account ∧
      (afterMovements 4).movedWithin account.id 43200000000 216000000000 = withinNoons ∧
      getAccountMoneyMovement unaryLibrary "alice" (100 : UUID).text
        (.ok ⟨"1970-01-01T12:00:00Z", "1970-01-03T12:00:00Z", "day"⟩) (afterMovements 4) =
          .success 200 r ∧
      r.Partitions .day withinNoons := by
  obtain ⟨account, howned⟩ :
      ∃ account, getOwnedAccountByPublicID (some 100) "alice" (afterMovements 4) = some account :=
    owned_afterMovements 4 (by decide)
  have hmoved : (getOwnedAccountByPublicID (some 100) "alice" (afterMovements 4)).all fun a =>
      (afterMovements 4).movedWithin a.id 43200000000 216000000000 = withinNoons := by
    decide +kernel
  rw [howned, Option.all_some, decide_eq_true_eq] at hmoved
  have hwithin : (afterMovements 4).movedWithin account.id fromNoonToNoon.fromTime.timestamp
      fromNoonToNoon.toTime.timestamp = withinNoons := hmoved
  obtain ⟨r, hr, hpart⟩ := getAccountMoneyMovement_partitions fromNoonToNoon (afterMovements 4)
    account howned (by rw [hwithin]; decide) (by rw [hwithin]; decide)
  rw [hwithin] at hpart
  exact ⟨account, r, howned, hmoved, hr, hpart⟩

/-- Alice asks from half a microsecond after the deposit on, and the deposit is counted. -/
theorem getAccountMoneyMovement_before_from :
    ∃ account r, getOwnedAccountByPublicID (some 100) "alice" afterDeposit = some account ∧
      getAccountMoneyMovement unaryLibrary "alice" (100 : UUID).text
        (.ok ⟨"1970-01-01T00:00:00.0000015Z", "1970-01-02T00:00:00Z", "day"⟩) afterDeposit =
          .success 200 r ∧
      (∀ m ∈ (afterDeposit.accountPostings account.id).filterMap afterDeposit.movedBy,
        m.1 * 1000 < r.fromTime.nanos) ∧ r.moneyIn = 50 := by
  obtain ⟨account, howned⟩ :
      ∃ account, getOwnedAccountByPublicID (some 100) "alice" afterDeposit = some account :=
    Option.isSome_iff_exists.mp (by decide +kernel)
  have hearly : (getOwnedAccountByPublicID (some 100) "alice" afterDeposit).all fun a =>
      ((afterDeposit.accountPostings a.id).filterMap afterDeposit.movedBy).all
        fun m => m.1 * 1000 < 1500 := by decide +kernel
  rw [howned, Option.all_some, List.all_eq_true] at hearly
  have hrows : getOwnedAccountMoneyMovement fromHalfMicrosecond.params afterDeposit =
      .ok [⟨0, 50, 0⟩] := by decide +kernel
  refine ⟨account, _, howned, fromHalfMicrosecond.reply_eq howned hrows, ?_, rfl⟩
  exact fun m hm => of_decide_eq_true (hearly m hm)

end Monierave
