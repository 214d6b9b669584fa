import Monierave.Queries.History
import Monierave.Timestamped.Periods

/-! # Money in and out of an account by day or week

The last statement of `transaction_history.sql`.
-/

namespace Monierave

open Relational Timestamped

/-- `date_trunc('week', t)`: weeks start on Monday, and the first day of 1970 was a
Thursday. -/
def startOfWeek (t : Timestamp) : Timestamp := t - (t + 3 * microsPerDay) % (7 * microsPerDay)

structure GetOwnedAccountMoneyMovementParams where
  accountPublicID : Option UUID
  username : String
  bucketInterval : String
  fromTime : Timestamp
  toTime : Timestamp

structure GetOwnedAccountMoneyMovementRow where
  bucketStart : Timestamp
  incoming : Int64
  outgoing : Int64
  deriving DecidableEq

namespace GetOwnedAccountMoneyMovementParams

variable (arg : GetOwnedAccountMoneyMovementParams)

def dateTrunc (t : Timestamp) : Timestamp :=
  if arg.bucketInterval = "week" then startOfWeek t else startOfDay t

def step : Int := if arg.bucketInterval = "week" then 7 * microsPerDay else microsPerDay

/-- The common table expression `periods`. -/
def periods : List Timestamp :=
  generateSeries (arg.dateTrunc arg.fromTime) (arg.dateTrunc (arg.toTime - 1)) arg.step

/-- The common table expression `movement`: periods and amounts. A transaction that was
not posted has no time that could be compared. -/
def movement (db : DB) : List (Timestamp × Int64) :=
  (((db.targetLedger arg.accountPublicID arg.username).map
      fun ledger => db.activity ledger.id).getD []).filterMap fun x =>
    (x.transaction.postedAt.filter fun postedAt =>
      (x.transaction.status = .posted ∨ x.transaction.status = .reversed) ∧
        arg.fromTime ≤ postedAt ∧ postedAt < arg.toTime).map
      fun postedAt => (arg.dateTrunc postedAt, x.posting.amount)

end GetOwnedAccountMoneyMovementParams

/-- The amounts above zero and below zero of one period, added up. Without any the sum is
zero. -/
def incomingSum (movement : List (Timestamp × Int64)) (bucketStart : Timestamp) : Int :=
  ((movement.filter fun m => m.1 = bucketStart ∧ 0 < m.2).map (·.2.toInt)).sum

def outgoingSum (movement : List (Timestamp × Int64)) (bucketStart : Timestamp) : Int :=
  ((movement.filter fun m => m.1 = bucketStart ∧ m.2 < 0).map (·.2.toInt)).sum

def getOwnedAccountMoneyMovement (arg : GetOwnedAccountMoneyMovementParams) (db : DB) :
    Except SqlError (List GetOwnedAccountMoneyMovementRow) :=
  arg.periods.mapM fun bucketStart => do
    let incoming ← bigint (incomingSum (arg.movement db) bucketStart)
    let outgoing ← bigint (outgoingSum (arg.movement db) bucketStart).natAbs
    pure ⟨bucketStart, incoming, outgoing⟩

/-- The kinds of period. -/
inductive BucketInterval
  | day
  | week
  deriving DecidableEq

namespace BucketInterval

def text : BucketInterval → String
  | day => "day"
  | week => "week"

def length : BucketInterval → Int
  | day => microsPerDay
  | week => 7 * microsPerDay

def origin : BucketInterval → Int
  | day => 0
  | week => -(3 * microsPerDay)

/-- A period starts at `t`. -/
def Starts (interval : BucketInterval) (t : Timestamp) : Prop :=
  (t - interval.origin) % interval.length = 0

theorem length_pos (interval : BucketInterval) : 0 < interval.length := by
  cases interval <;> decide

end BucketInterval

namespace GetOwnedAccountMoneyMovementParams

variable {arg : GetOwnedAccountMoneyMovementParams} {interval : BucketInterval}

theorem dateTrunc_eq (h : arg.bucketInterval = interval.text) (t : Timestamp) :
    arg.dateTrunc t = truncate interval.origin interval.length t := by
  cases interval with
  | day =>
    simp [dateTrunc, h, BucketInterval.text, truncate, startOfDay, BucketInterval.origin,
      BucketInterval.length]
  | week =>
    simp [dateTrunc, h, BucketInterval.text, truncate, startOfWeek, BucketInterval.origin,
      BucketInterval.length]

theorem step_eq (h : arg.bucketInterval = interval.text) : arg.step = interval.length := by
  cases interval <;> simp [step, h, BucketInterval.text, BucketInterval.length]

theorem periods_eq (h : arg.bucketInterval = interval.text) :
    arg.periods = generateSeries (truncate interval.origin interval.length arg.fromTime)
      (truncate interval.origin interval.length (arg.toTime - 1)) interval.length := by
  rw [periods, dateTrunc_eq h, dateTrunc_eq h, step_eq h]

end GetOwnedAccountMoneyMovementParams

theorem getOwnedAccountMoneyMovement_ok {arg : GetOwnedAccountMoneyMovementParams} {db : DB}
    {rows : List GetOwnedAccountMoneyMovementRow} :
    getOwnedAccountMoneyMovement arg db = .ok rows ↔
      (∀ p ∈ arg.periods, fitsBigint (incomingSum (arg.movement db) p) ∧
        fitsBigint (outgoingSum (arg.movement db) p).natAbs) ∧
      rows = arg.periods.map fun p => ⟨p, Int64.ofInt (incomingSum (arg.movement db) p),
        Int64.ofInt (outgoingSum (arg.movement db) p).natAbs⟩ := by
  refine mapM_ok_iff ?_
  intro p row
  generalize ((outgoingSum (arg.movement db) p).natAbs : Int) = outgoing
  by_cases hin : fitsBigint (incomingSum (arg.movement db) p)
  · by_cases hout : fitsBigint outgoing
    · simp [bigint, hin, hout, bind, Except.bind, pure, Except.pure, eq_comm]
    · simp [bigint, hin, hout, bind, Except.bind]
  · simp [bigint, hin, bind, Except.bind]

end Monierave
