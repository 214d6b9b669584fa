import Mathlib.Data.List.Chain
import Monierave.Api.History
import Monierave.Banking.System
import Monierave.Calendar.Rfc3339

/-! # Walks over the pages of an account

What a client is shown who follows the cursors of the account history or of the account
statement from the first page to the last.
-/

namespace Monierave

open Relational Coding
open ListOwnedAccountTransactionsRow (key)

/-! ## The query behind a page -/

abbrev HistoryKey := Int ×ₗ Nat

abbrev HistoryRow := ListOwnedAccountTransactionsRow

def cursorKey (cursor : Option (Time × UUID)) : Option HistoryKey :=
  cursor.map fun c => toLex (c.1.timestamp, c.2.toNat)

namespace DB

def ledgerRows (ledgerAccountID : Int64) (db : DB) : List HistoryRow :=
  (orderBy Activity.key (db.activity ledgerAccountID)).map (db.historyRow ledgerAccountID)

def accountRows (publicID : Option UUID) (username : String) (db : DB) : List HistoryRow :=
  match db.targetLedger publicID username with
  | none => []
  | some ledger => db.ledgerRows ledger.id

def matchingRows (arg : ListOwnedAccountTransactionsParams) (db : DB) : List HistoryRow :=
  (db.accountRows arg.accountPublicID arg.username).filter (·.matchesFilters arg)

def BalancesFit (arg : ListOwnedAccountTransactionsParams) (db : DB) : Prop :=
  ∀ ledger, db.targetLedger arg.accountPublicID arg.username = some ledger →
    ∀ x ∈ db.activity ledger.id, fitsBigint (db.balanceUpTo ledger.id x.key)

end DB

variable {arg : ListOwnedAccountTransactionsParams} {db : DB} {opening closing : Int64}
    {r : HistoryRow}

theorem DB.distinctKeys_ledgerRows (db : DB) (id : Int64) :
    DistinctKeys key (db.ledgerRows id) :=
  List.Pairwise.map _ (fun _ _ hne => hne) ((db.distinctKeys_activity id).perm perm_orderBy)

theorem DB.distinctKeys_accountRows (publicID : Option UUID) (username : String) (db : DB) :
    DistinctKeys key (db.accountRows publicID username) := by
  unfold accountRows
  split
  · exact List.Pairwise.nil
  · exact db.distinctKeys_ledgerRows _

theorem listOwnedAccountTransactions_ok {rows : List HistoryRow}
    (cursor : Option (Time × UUID))
    (htime : arg.cursorCreatedAt = cursor.map fun c => c.1.timestamp)
    (hid : arg.cursorID = cursor.map Prod.snd) :
    listOwnedAccountTransactions arg db = .ok rows ↔ db.BalancesFit arg ∧
      rows = (remaining key (db.matchingRows arg) (cursorKey cursor)).take arg.pageLimit := by
  have hcursor : ∀ r : HistoryRow,
      r.afterCursor arg = (cursorKey cursor).all (r.key < ·) := by
    intro r
    unfold ListOwnedAccountTransactionsRow.afterCursor
    rw [htime, hid]
    cases cursor <;> rfl
  unfold listOwnedAccountTransactions DB.BalancesFit DB.matchingRows DB.accountRows
  cases hledger : db.targetLedger arg.accountPublicID arg.username with
  | none =>
    have hnil : remaining key [] (cursorKey cursor) = [] := rfl
    dsimp only
    rw [List.filter_nil, hnil, List.take_nil, Except.ok.injEq, eq_comm]
    exact ⟨fun h => ⟨nofun, h⟩, And.right⟩
  | some ledger =>
    have hrows : ∀ all : List HistoryRow,
        orderByDesc key (all.filter fun r => r.matchesFilters arg && r.afterCursor arg) =
        remaining key (all.filter (·.matchesFilters arg)) (cursorKey cursor) := by
      intro all
      rw [remaining, List.filter_filter]
      congr 1
      exact List.filter_congr fun r _ => by rw [hcursor, Bool.and_comm]
    simp only [Option.some.injEq, forall_eq', hrows]
    cases hall : db.accountActivity ledger.id with
    | error e =>
      have hnot : ¬ ∀ x ∈ db.activity ledger.id, fitsBigint (db.balanceUpTo ledger.id x.key) := by
        intro hfit
        rw [Books.accountActivity_ok.mpr ⟨hfit, rfl⟩] at hall
        cases hall
      simp [Except.map, hnot]
    | ok all =>
      obtain ⟨hfit, rfl⟩ := Books.accountActivity_ok.mp hall
      simp only [Except.map, Except.ok.injEq, eq_comm (b := rows)]
      exact ⟨fun h => ⟨hfit, h⟩, And.right⟩

section Cut

variable {lib : HistoryLibrary} {rows pre post : List HistoryRow} {r : HistoryRow} {pageSize : Int32}

theorem transactionPage_last (h : rows.length ≤ pageSize.toNatClampNeg) :
    transactionPage lib (rows.take (pageSize.toNatClampNeg + 1)) pageSize = some (rows, "") := by
  rw [List.take_of_length_le (by omega)]
  have hfits : ¬ pageSize.toNatClampNeg < rows.length := by omega
  simp [transactionPage, hfits]

theorem transactionPage_more (hlen : pre.length + 1 = pageSize.toNatClampNeg) (hpost : post ≠ []) :
    transactionPage lib ((pre ++ r :: post).take (pageSize.toNatClampNeg + 1)) pageSize =
      (encodeTransactionCursor lib (.ofTimestamp r.createdAt) r.id).map fun c => (pre ++ [r], c) := by
  obtain ⟨z, post, rfl⟩ := List.exists_cons_of_ne_nil hpost
  have htake : (pre ++ r :: z :: post).take (pageSize.toNatClampNeg + 1) = (pre ++ [r]) ++ [z] := by
    rw [show pre ++ r :: z :: post = ((pre ++ [r]) ++ [z]) ++ post by simp]
    exact List.take_left' (by simp; omega)
  have hshown : ((pre ++ [r]) ++ [z]).take pageSize.toNatClampNeg = pre ++ [r] :=
    List.take_left' (by simp; omega)
  have hnext : pageSize.toNatClampNeg < ((pre ++ [r]) ++ [z]).length := by simp; omega
  have hlast : (pre ++ [r]).getLast? = some r := by simp
  rw [htake, transactionPage]
  simp only [hnext, decide_true, if_true, hshown, Bool.not_true, Bool.false_eq_true, if_false, hlast]

end Cut

/-! ## Accepted requests -/

/-- A request for the pages of an account that passes the checks made before any table is
read. The cursor is not part of it. -/
structure HistoryRequest (lib : HistoryLibrary) where
  username : String
  publicID : String
  query : TransactionHistoryQuery
  accountID : UUID
  range : Option Time × Option Time
  publicID_ne : publicID ≠ ""
  parsed : lib.parseUUID publicID = some accountID
  valid : query.validate = .ok query
  range_ok : parseTransactionDateRange lib query.fromValue query.toValue = .ok range

theorem TransactionHistoryQuery.validate_ok {query query' : TransactionHistoryQuery} :
    query.validate = .ok query' ↔ query' = query ∧ checkPageSize query.pageSize = none ∧
      checkOneOf "Type" ["deposit", "withdrawal", "internal_transfer", "reversal"]
        query.transactionType = none ∧
      checkOneOf "Status" ["pending", "posted", "failed", "reversed"] query.status = none ∧
      checkOneOf "Direction" ["incoming", "outgoing"] query.direction = none := by
  rw [validate, BindingError.validateRaw_ok]
  simp only [List.forall_mem_cons, List.not_mem_nil, IsEmpty.forall_iff, implies_true, and_true]

namespace HistoryRequest

variable {lib : HistoryLibrary} (req : HistoryRequest lib)

def queryAt (cursor : String) : TransactionHistoryQuery := { req.query with cursor := cursor }

def pageSize : Int32 := req.query.withPageSize.pageSize

def params (cursor : Option (Time × UUID)) : ListOwnedAccountTransactionsParams :=
  historyParams req.username req.query.withPageSize req.accountID req.range cursor

def rows (db : DB) : List HistoryRow := db.matchingRows (req.params none)

def Owned (db : DB) : Prop :=
  ∃ a, getOwnedAccountByPublicID (some req.accountID) req.username db = some a

def historyPage (cursor : String) (db : DB) : Except (Reply TransactionHistoryResponse) HistoryPage :=
  Monierave.historyPage lib req.username req.publicID (.ok (req.queryAt cursor)) db

def statementPage (cursor : String) (db : DB) :
    Except (Reply AccountStatementResponse) StatementPage :=
  Monierave.statementPage lib req.username req.publicID (.ok (req.queryAt cursor)) db

variable {db : DB} {cursor : String}

theorem validate_queryAt (cursor : String) :
    (req.queryAt cursor).validate = .ok (req.queryAt cursor) := by
  have hvalid := TransactionHistoryQuery.validate_ok.mp req.valid
  exact TransactionHistoryQuery.validate_ok.mpr ⟨rfl, hvalid.2⟩

theorem withPageSize_queryAt (cursor : String) : (req.queryAt cursor).withPageSize =
    { req.query.withPageSize with cursor := cursor } := by
  unfold TransactionHistoryQuery.withPageSize queryAt
  dsimp only
  split <;> rfl

theorem pageSize_bounds : 1 ≤ req.pageSize ∧ req.pageSize ≤ 100 := by
  have hsize := (TransactionHistoryQuery.validate_ok.mp req.valid).2.1
  unfold TransactionHistoryQuery.checkPageSize at hsize
  unfold pageSize TransactionHistoryQuery.withPageSize
  split_ifs at hsize ⊢ with hzero hmin hmax
  · change 1 ≤ defaultTransactionPageSize ∧ defaultTransactionPageSize ≤ 100
    decide
  · exact ⟨Int32.not_lt.mp hmin, Int32.not_lt.mp hmax⟩

theorem toInt_pageSize_bounds : 1 ≤ req.pageSize.toInt ∧ req.pageSize.toInt ≤ 100 := by
  obtain ⟨hlower, hupper⟩ := req.pageSize_bounds
  exact ⟨Int32.le_iff_toInt_le.mp hlower, Int32.le_iff_toInt_le.mp hupper⟩

def pageLength : ℕ := req.pageSize.toNatClampNeg

theorem pageLength_pos : 0 < req.pageLength := by
  have hbounds := req.toInt_pageSize_bounds
  simp only [pageLength, Int32.toNatClampNeg]
  omega

theorem pageLimit_params (cursor : Option (Time × UUID)) :
    (req.params cursor).pageLimit = req.pageLength + 1 := by
  have hbounds := req.toInt_pageSize_bounds
  have hsucc : (req.pageSize + 1).toInt = req.pageSize.toInt + 1 := by
    rw [Int32.toInt_add]
    have hone : (1 : Int32).toInt = 1 := by decide
    rw [hone, Int.bmod_eq_of_le] <;> omega
  simp only [params, historyParams, pageLength, Int32.toNatClampNeg]
  rw [show req.query.withPageSize.pageSize = req.pageSize from rfl, hsucc]
  omega

theorem list_params_ok {cursor : Option (Time × UUID)}
    {rows : List HistoryRow} :
    listOwnedAccountTransactions (req.params cursor) db = .ok rows ↔
      db.BalancesFit (req.params none) ∧
      rows = (remaining key (req.rows db) (cursorKey cursor)).take (req.pageLength + 1) := by
  rw [listOwnedAccountTransactions_ok cursor rfl rfl, pageLimit_params]
  rfl

theorem bind_eq {α : Type} (cursor : String) (db : DB) :
    (bindTransactionHistoryRequest lib req.username req.publicID (.ok (req.queryAt cursor)) db :
        Except (Reply α) _) =
      match decodeTransactionCursor lib cursor with
      | .error _ => .error (.errorResponse 400 .invalidCursor)
      | .ok last =>
        match getOwnedAccountByPublicID (some req.accountID) req.username db with
        | none => .error (.errorResponse 404 .accountNotFound)
        | some account =>
          .ok (account, { req.query.withPageSize with cursor := cursor }, req.params last) := by
  have hrange : parseTransactionDateRange lib req.query.withPageSize.fromValue
      req.query.withPageSize.toValue = .ok req.range := by
    rw [← req.range_ok]
    unfold TransactionHistoryQuery.withPageSize
    split <;> rfl
  unfold bindTransactionHistoryRequest
  simp only [Except.bind, validate_queryAt, withPageSize_queryAt, bindAccountPublicID,
    req.publicID_ne, if_false, req.parsed, bind, hrange]
  rfl

theorem historyPage_ok {page : HistoryPage} :
    req.historyPage cursor db = .ok page ↔ ∃ last, decodeTransactionCursor lib cursor = .ok last ∧
      getOwnedAccountByPublicID (some req.accountID) req.username db = some page.account ∧
      db.BalancesFit (req.params none) ∧
      transactionPage lib ((remaining key (req.rows db)
        (cursorKey last)).take (req.pageLength + 1)) req.pageSize =
          some (page.rows, page.nextCursor) := by
  unfold historyPage Monierave.historyPage
  rw [bind_eq]
  cases hkey : decodeTransactionCursor lib cursor with
  | error e => simp [bind, Except.bind]
  | ok last =>
    simp only [Except.ok.injEq, exists_eq_left']
    cases haccount : getOwnedAccountByPublicID (some req.accountID) req.username db with
    | none => simp [bind, Except.bind]
    | some account =>
      simp only [bind, Except.bind, Option.some.injEq]
      cases hlist : listOwnedAccountTransactions (req.params last) db with
      | error e =>
        have hnot : ¬ db.BalancesFit (req.params none) := by
          intro hfit
          rw [req.list_params_ok.mpr ⟨hfit, rfl⟩] at hlist
          cases hlist
        simp [hnot]
      | ok rows =>
        obtain ⟨hfit, rfl⟩ := req.list_params_ok.mp hlist
        simp only [hfit, true_and]
        rw [show ({ req.query.withPageSize with cursor := cursor } :
          TransactionHistoryQuery).pageSize = req.pageSize from rfl]
        cases hpage : transactionPage lib ((remaining key
            (req.rows db) (cursorKey last)).take (req.pageLength + 1)) req.pageSize with
        | none => simp
        | some shown =>
          obtain ⟨shown, nextCursor⟩ := shown
          obtain ⟨account', rows', nextCursor'⟩ := page
          simp

theorem statementPage_ok {page : StatementPage} :
    req.statementPage cursor db = .ok page ↔ req.historyPage cursor db = .ok page.toHistoryPage ∧
      page.fromTime = (req.params none).fromTime ∧ page.toTime = (req.params none).toTime ∧
      getOwnedAccountStatementBalances page.fromTime page.toTime (some req.accountID) req.username
        db = .ok ⟨page.openingBalance, page.closingBalance⟩ := by
  unfold historyPage Monierave.historyPage statementPage Monierave.statementPage
  rw [bind_eq, bind_eq]
  cases hkey : decodeTransactionCursor lib cursor with
  | error e => simp [bind, Except.bind]
  | ok last =>
    cases haccount : getOwnedAccountByPublicID (some req.accountID) req.username db with
    | none => simp [bind, Except.bind]
    | some account =>
      simp only [bind, Except.bind]
      cases hlist : listOwnedAccountTransactions (req.params last) db with
      | error e => simp
      | ok rows =>
        obtain ⟨⟨account', rows', nextCursor'⟩, fromTime, toTime, opening, closing⟩ := page
        have hparams : (req.params last).fromTime = (req.params none).fromTime ∧
            (req.params last).toTime = (req.params none).toTime ∧
            (req.params last).accountPublicID = some req.accountID ∧
            (req.params last).username = req.username := ⟨rfl, rfl, rfl, rfl⟩
        simp only [hparams.1, hparams.2.1, hparams.2.2.1, hparams.2.2.2]
        cases hbalances : getOwnedAccountStatementBalances (req.params none).fromTime
            (req.params none).toTime (some req.accountID) req.username db with
        | error e =>
          simp only [reduceCtorEq, false_iff, not_and]
          rintro _ rfl rfl
          simp [hbalances]
        | ok balances =>
          obtain ⟨opening', closing'⟩ := balances
          cases hpage : transactionPage lib rows
              ({ req.query.withPageSize with cursor := cursor } :
                TransactionHistoryQuery).pageSize with
          | none => simp
          | some shown =>
            simp only [Except.ok.injEq, StatementPage.mk.injEq, HistoryPage.mk.injEq]
            constructor
            · rintro ⟨h, rfl, rfl, rfl, rfl⟩
              exact ⟨h, rfl, rfl, hbalances⟩
            · rintro ⟨h, rfl, rfl, hbalances'⟩
              rw [hbalances, Except.ok.injEq,
                GetOwnedAccountStatementBalancesRow.mk.injEq] at hbalances'
              exact ⟨h, rfl, rfl, hbalances'⟩

end HistoryRequest

/-! ## Requests that are not refused -/

structure ListOwnedAccountTransactionsRow.Presentable (r : HistoryRow) : Prop where
  id_ne : r.id ≠ 0
  hasText : (Time.ofTimestamp r.createdAt).hasText = true
  not_zero : Time.ofTimestamp r.createdAt ≠ .zero

namespace HistoryRequest

variable {lib : HistoryLibrary} (req : HistoryRequest lib)

structure Listable (db : DB) : Prop where
  fits : db.BalancesFit (req.params none)
  presentable : ∀ r ∈ req.rows db, r.Presentable

variable {c : String}

theorem decode_of_encode {r : HistoryRow}
    (h : encodeTransactionCursor lib (.ofTimestamp r.createdAt) r.id = some c) : c ≠ "" ∧
      ((∃ cursor, decodeTransactionCursor lib c = .ok cursor ∧ cursorKey cursor = some r.key) ∨
        (∃ e, decodeTransactionCursor lib c = .error e) ∧ ¬ r.Presentable) := by
  unfold encodeTransactionCursor at h
  split_ifs at h with htext
  obtain rfl := Option.some.inj h
  have hne : String.ofList (Base64.encode (lib.marshal (.ofTimestamp r.createdAt) r.id)) ≠ "" := by
    simpa using Base64.encode_ne_nil (lib.marshal_ne _ _)
  refine ⟨hne, ?_⟩
  unfold decodeTransactionCursor
  rw [if_neg hne, String.toList_ofList, Base64.decode_encode, Option.bind_some,
    lib.unmarshal_marshal _ _ htext]
  dsimp only
  split_ifs with hbad
  · refine Or.inr ⟨⟨_, rfl⟩, fun hr => ?_⟩
    rcases hbad with hzero | hnil
    · exact hr.not_zero hzero
    · exact hr.id_ne hnil
  · refine Or.inl ⟨_, rfl, ?_⟩
    simp [cursorKey, key]

variable {req}

theorem exists_historyPage {db : DB} (hlist : req.Listable db) (howned : req.Owned db)
    {cursor : Option (Time × UUID)} (hc : decodeTransactionCursor lib c = .ok cursor) :
    ∃ page, req.historyPage c db = .ok page := by
  obtain ⟨account, haccount⟩ := howned
  have hcut : ∃ shown, transactionPage lib ((remaining key
      (req.rows db) (cursorKey cursor)).take (req.pageLength + 1)) req.pageSize = some shown := by
    rcases PageWalk.step key (fun _ => req.rows db)
      req.pageLength_pos 0 (cursorKey cursor) with hlen | ⟨pre, r, post, hsplit, hlen, hpost⟩
    · exact ⟨_, transactionPage_last hlen⟩
    · have hr : r ∈ req.rows db := by
        refine (mem_remaining.mp (?_ : r ∈ remaining key _ (cursorKey cursor))).1
        simp [hsplit]
      rw [hsplit, pageLength, transactionPage_more hlen hpost, encodeTransactionCursor,
        if_pos (hlist.presentable r hr).hasText]
      exact ⟨_, rfl⟩
  obtain ⟨shown, hcut⟩ := hcut
  exact ⟨⟨account, shown.1, shown.2⟩, req.historyPage_ok.mpr ⟨cursor, hc, haccount, hlist.fits, hcut⟩⟩

variable (req)

/-! ## Following the cursors -/

/-- The text of a cursor stands for a key. It is refused only if it was made from a row that
is not presentable. -/
def Reads (states : ℕ → DB) (c : String) (k : Option HistoryKey) : Prop :=
  (∃ cursor, decodeTransactionCursor lib c = .ok cursor ∧ cursorKey cursor = k) ∨
    (∃ e, decodeTransactionCursor lib c = .error e) ∧ ∃ i, ¬ req.Listable (states i)

theorem reads_first (states : ℕ → DB) : req.Reads states "" none :=
  Or.inl ⟨none, by simp [decodeTransactionCursor], rfl⟩

end HistoryRequest

def HistoryPage.next (page : HistoryPage) : Option String :=
  if page.nextCursor = "" then none else some page.nextCursor

namespace HistoryRequest

variable {lib : HistoryLibrary} {req : HistoryRequest lib} {states : ℕ → DB}

theorem paginates_historyPage (req : HistoryRequest lib) (states : ℕ → DB) :
    Paginates (fun i c => req.historyPage c (states i)) HistoryPage.next HistoryPage.rows
      (req.Reads states) key req.pageLength
      fun i => req.rows (states i) := by
  -- a page that is shown was cut after the key that its cursor stands for
  have hcut : ∀ {i c k page}, req.Reads states c k → req.historyPage c (states i) = .ok page →
      transactionPage lib ((remaining key (req.rows (states i))
        k).take (req.pageLength + 1)) req.pageSize = some (page.rows, page.nextCursor) := by
    intro i c k page hc hpage
    obtain ⟨last, hkey, _, _, hcut⟩ := req.historyPage_ok.mp hpage
    rcases hc with ⟨cursor, hcursor, rfl⟩ | ⟨⟨e, he⟩, _⟩
    · rw [hkey] at hcursor
      cases hcursor
      exact hcut
    · rw [hkey] at he
      cases he
  have hlast : ∀ {i c k page}, req.Reads states c k → req.historyPage c (states i) = .ok page →
      (remaining key (req.rows (states i)) k).length ≤ req.pageLength →
      page.rows = remaining key (req.rows (states i)) k ∧
        page.nextCursor = "" := by
    intro i c k page hc hpage hlen
    have hpage' := hcut hc hpage
    rw [pageLength, transactionPage_last hlen, Option.some.injEq, Prod.mk.injEq] at hpage'
    exact ⟨hpage'.1.symm, hpage'.2.symm⟩
  have hmore : ∀ {i c k page pre r post}, req.Reads states c k →
      req.historyPage c (states i) = .ok page →
      remaining key (req.rows (states i)) k = pre ++ r :: post →
      pre.length + 1 = req.pageLength → post ≠ [] →
      page.rows = pre ++ [r] ∧
        encodeTransactionCursor lib (.ofTimestamp r.createdAt) r.id = some page.nextCursor := by
    intro i c k page pre r post hc hpage hsplit hlen hpost
    have hpage' := hcut hc hpage
    rw [hsplit, pageLength, transactionPage_more hlen hpost, Option.map_eq_some_iff] at hpage'
    obtain ⟨c', hc', heq⟩ := hpage'
    rw [Prod.mk.injEq] at heq
    exact ⟨heq.1.symm, by rw [hc', heq.2]⟩
  refine ⟨fun {i c k page} hc hpage => ?_, fun {i c k page} hc hpage hlen => ?_,
    fun {i c k page pre r post} hc hpage hsplit hlen hpost => ?_⟩
  · rcases PageWalk.step key (fun i => req.rows (states i))
      req.pageLength_pos i k with hlen | ⟨pre, r, post, hsplit, hlen, hpost⟩
    · rw [(hlast hc hpage hlen).1, List.take_of_length_le hlen]
    · have htake : ((pre ++ [r]) ++ post).take (pre.length + 1) = pre ++ [r] :=
        List.take_left' (by simp)
      rw [(hmore hc hpage hsplit hlen hpost).1, hsplit, ← hlen,
        List.append_cons pre r post, htake]
  · simp [HistoryPage.next, (hlast hc hpage hlen).2]
  · obtain ⟨_, hencode⟩ := hmore hc hpage hsplit hlen hpost
    obtain ⟨hne, hdecode⟩ := decode_of_encode hencode
    refine ⟨page.nextCursor, by simp [HistoryPage.next, hne], ?_⟩
    rcases hdecode with hok | ⟨herror, hnot⟩
    · exact Or.inl hok
    · refine Or.inr ⟨herror, i, fun hlist => hnot (hlist.presentable r ?_)⟩
      refine (mem_remaining.mp (?_ : r ∈ remaining key _ k)).1
      simp [hsplit]

theorem exists_historyPage_of_reads (hlist : ∀ i, req.Listable (states i))
    (howned : ∀ i, req.Owned (states i)) {i : ℕ} {c : String} {k : Option HistoryKey}
    (hc : req.Reads states c k) : ∃ page, req.historyPage c (states i) = .ok page := by
  rcases hc with ⟨cursor, hcursor, _⟩ | ⟨_, j, hnot⟩
  · exact exists_historyPage (hlist i) (howned i) hcursor
  · exact absurd (hlist j) hnot

theorem distinctKeys_rows (req : HistoryRequest lib) (db : DB) :
    DistinctKeys key (req.rows db) := (db.distinctKeys_accountRows _ _).filter _

end HistoryRequest

/-! ## Alice's history -/

def unaryLibrary : HistoryLibrary where
  parseUUID s := if s = (100 : UUID).text then some 100 else none
  parseDate s := (Calendar.parse (s.toList ++ "T00:00:00Z".toList)).map Time.mk
  parseRFC3339 s := (Calendar.parse s.toList).map Time.mk
  marshal t id := List.replicate (Nat.pair (Equiv.intEquivNat t.nanos) id.toNat + 1) 0
  unmarshal bs :=
    let n := (bs.length - 1).unpair
    some (⟨Equiv.intEquivNat.symm n.1⟩, BitVec.ofNat 128 n.2)
  unmarshal_marshal t id _ := by
    rw [List.length_replicate, Nat.add_sub_cancel, Nat.unpair_pair]
    simp
  marshal_ne t id := by simp

def requestOfAlice : HistoryRequest unaryLibrary where
  username := "alice"
  publicID := (100 : UUID).text
  query := ⟨"", 0, "", "", "", "", ""⟩
  accountID := 100
  range := (none, none)
  publicID_ne := by decide
  parsed := by simp [unaryLibrary]
  valid := TransactionHistoryQuery.validate_ok.mpr ⟨rfl, by decide⟩
  range_ok := rfl

/-- From noon of the first day to noon of the third, one row on a page. -/
def rowByRow : HistoryRequest unaryLibrary where
  __ := requestOfAlice
  query := ⟨"", 1, "1970-01-01T12:00:00Z", "1970-01-03T12:00:00Z", "", "", ""⟩
  range := (some ⟨43200 * 10 ^ 9⟩, some ⟨216000 * 10 ^ 9⟩)
  valid := TransactionHistoryQuery.validate_ok.mpr ⟨rfl, by decide⟩
  range_ok := by decide +kernel

def movementsOfAlice : List BankingOp :=
  [depositForAlice 50 (.drawing 1 3), withdrawalOfAlice 20 (.drawing 50000000000 4),
    depositForAlice 30 (.drawing 100000000000 5), depositForAlice 5 (.drawing 200000000000 6)]

def afterMovements (n : Nat) : DB :=
  (bankingRun twoCustomers
    (openAccounts ++ ((movementsOfAlice.take n).zipIdx 2).flatMap fun x => uninterrupted x.2 x.1)).db

def afterDeposit : DB := afterMovements 1

theorem owned_afterMovements : ∀ n ∈ [3, 4], rowByRow.Owned (afterMovements n) := by
  have hall : ∀ n ∈ [3, 4], (getOwnedAccountByPublicID (some 100) "alice"
      (afterMovements n)).isSome = true := by decide +kernel
  exact fun n hn => Option.isSome_iff_exists.mp (hall n hn)

theorem listable_afterMovements : ∀ n ∈ [3, 4], rowByRow.Listable (afterMovements n) := by
  intro n hn
  refine ⟨fun ledger hledger => ?_, fun r hr => ?_⟩
  · have hall : ∀ n ∈ [3, 4], (((afterMovements n).targetLedger (some 100) "alice").all fun ledger =>
        ((afterMovements n).activity ledger.id).all fun x =>
          fitsBigint ((afterMovements n).balanceUpTo ledger.id x.key)) = true := by decide +kernel
    have hledgers := hall n hn
    rw [show (afterMovements n).targetLedger (some 100) "alice" = some ledger from hledger]
      at hledgers
    simpa using hledgers
  · have hall : ∀ n ∈ [3, 4], ∀ r ∈ rowByRow.rows (afterMovements n), r.id ≠ 0 ∧
        (Time.ofTimestamp r.createdAt).hasText = true ∧ Time.ofTimestamp r.createdAt ≠ .zero := by
      decide +kernel
    obtain ⟨hid, htext, hzero⟩ := hall n hn r hr
    exact ⟨hid, htext, hzero⟩

/-! ## The statement of a fixed state -/

structure Reconciles (opening closing : Int64) (rows : List HistoryRow) : Prop where
  total : opening.toInt + (rows.map fun r => r.signedAmount.toInt).sum = closing.toInt
  newest : ∀ r, rows.head? = some r → r.balanceAfter = closing
  oldest : ∀ r, rows.getLast? = some r →
    r.balanceAfter.toInt = opening.toInt + r.signedAmount.toInt
  older : rows.IsChain fun r older =>
    r.balanceAfter.toInt = older.balanceAfter.toInt + r.signedAmount.toInt

theorem Reconciles.of_suffixes {rows : List HistoryRow}
    (htotal : opening.toInt + (rows.map fun r => r.signedAmount.toInt).sum = closing.toInt)
    (hsuffix : ∀ pre r post, rows = pre ++ r :: post → r.balanceAfter.toInt =
      opening.toInt + ((r :: post).map fun r => r.signedAmount.toInt).sum) :
    Reconciles opening closing rows where
  total := htotal
  newest r hr := by
    obtain ⟨post, rfl⟩ := List.head?_eq_some_iff.mp hr
    apply Int64.toInt_inj.mp
    rw [hsuffix [] r post rfl, htotal]
  oldest r hr := by
    obtain ⟨pre, rfl⟩ := List.getLast?_eq_some_iff.mp hr
    simpa using hsuffix pre r [] rfl
  older := by
    rw [List.isChain_iff_forall_rel_of_append_cons_cons]
    intro r older pre post hsplit
    have holder : rows = (pre ++ [r]) ++ older :: post := by rw [hsplit, List.append_cons]
    rw [hsuffix _ _ _ hsplit, hsuffix _ _ _ holder, List.map_cons, List.sum_cons]
    omega

namespace DB

variable {publicID : Option UUID} {username : String}

theorem sum_accountRows (p : HistoryRow → Bool) (q : Activity → Bool)
    (h : ∀ id x, p (db.historyRow id x) = q x) :
    (((db.accountRows publicID username).filter p).map fun r => r.signedAmount.toInt).sum =
      sumWhere (((db.targetLedger publicID username).map fun ledger =>
        db.activity ledger.id).getD []) q := by
  unfold accountRows
  cases db.targetLedger publicID username with
  | none => rfl
  | some ledger =>
    dsimp only [Option.map_some, Option.getD_some]
    rw [ledgerRows, List.filter_map, List.map_map, sumWhere]
    have hfilter : (orderBy Activity.key (db.activity ledger.id)).filter
        (p ∘ db.historyRow ledger.id) =
        (orderBy Activity.key (db.activity ledger.id)).filter q :=
      List.filter_congr fun x _ => h ledger.id x
    rw [hfilter]
    exact ((perm_orderBy.filter q).map Activity.signedAmount).sum_eq

theorem balanceAfter_accountRows (hfit : db.BalancesFit arg)
    (hr : r ∈ db.accountRows arg.accountPublicID arg.username) :
    r.balanceAfter.toInt = sumUpTo key (fun r => r.signedAmount.toInt)
      (db.accountRows arg.accountPublicID arg.username) r.key := by
  rw [sumUpTo, sum_accountRows _ (fun x => x.key ≤ r.key) fun _ _ => rfl]
  unfold accountRows at hr
  cases hledger : db.targetLedger arg.accountPublicID arg.username with
  | none => simp [hledger] at hr
  | some ledger =>
    rw [hledger] at hr
    obtain ⟨x, hx, rfl⟩ := List.mem_map.mp hr
    exact Books.toInt_balanceAfter (hfit ledger hledger x (perm_orderBy.mem_iff.mp hx))

end DB

def ListOwnedAccountTransactionsRow.inPeriod (fromTime toTime : Option Timestamp)
    (r : HistoryRow) : Bool :=
  fromTime.all (· ≤ r.createdAt) && toTime.all (r.createdAt < ·)

namespace ListOwnedAccountTransactionsRow

variable {r r' : HistoryRow} {fromTime toTime : Option Timestamp}

theorem key_lt_of_createdAt (h : r.createdAt < r'.createdAt) : r.key < r'.key :=
  Prod.Lex.toLex_lt_toLex.mpr (Or.inl h)

theorem createdAt_le_of_key (h : r.key ≤ r'.key) : r.createdAt ≤ r'.createdAt := by
  rcases Prod.Lex.toLex_le_toLex.mp h with hlt | ⟨heq, _⟩
  · exact hlt.le
  · exact heq.le

theorem inPeriod_iff : r.inPeriod fromTime toTime = true ↔
    (∀ f, fromTime = some f → f ≤ r.createdAt) ∧ ∀ t, toTime = some t → r.createdAt < t := by
  cases fromTime <;> cases toTime <;> simp [inPeriod]

end ListOwnedAccountTransactionsRow

open ListOwnedAccountTransactionsRow (inPeriod inPeriod_iff key_lt_of_createdAt createdAt_le_of_key)

theorem any_lt_iff {time : Option Timestamp} {created : Timestamp} :
    time.any (created < ·) = true ↔ ∃ f, time = some f ∧ created < f := by
  cases time <;> simp

/-- `rows` are those of `all` in the period, newest first, and the balances are the sums over
what comes before the period and over what comes before its end. -/
structure TellsPeriod (all rows : List HistoryRow)
    (fromTime toTime : Option Timestamp) (opening closing : Int64) : Prop where
  rows_eq : rows = orderByDesc key (all.filter (·.inPeriod fromTime toTime))
  opening_eq : opening.toInt =
    ((all.filter fun r => fromTime.any (r.createdAt < ·)).map fun r => r.signedAmount.toInt).sum
  closing_eq : closing.toInt =
    ((all.filter fun r => toTime.all (r.createdAt < ·)).map fun r => r.signedAmount.toInt).sum

theorem TellsPeriod.reconciles {all rows : List HistoryRow}
    {fromTime toTime : Option Timestamp} (h : TellsPeriod all rows fromTime toTime opening closing)
    (hkeys : DistinctKeys key all) (horder : ∀ f t, fromTime = some f → toTime = some t → f ≤ t)
    (hbalance : ∀ r ∈ all, r.balanceAfter.toInt =
      sumUpTo key (fun r => r.signedAmount.toInt) all r.key) : Reconciles opening closing rows := by
  obtain ⟨rfl, hopening, hclosing⟩ := h
  apply Reconciles.of_suffixes
  · rw [((perm_orderByDesc).map _).sum_eq, hopening, hclosing]
    symm
    apply sum_filter_or
    · intro r _
      rw [Bool.eq_iff_iff, Bool.or_eq_true, any_lt_iff, inPeriod_iff]
      cases fromTime <;> cases toTime <;> grind
    · intro r _ hq
      obtain ⟨f, rfl, hlt⟩ := any_lt_iff.mp hq
      have hnot : ¬ f ≤ r.createdAt := not_le.mpr hlt
      simp [inPeriod, hnot]
  · intro pre r post hsplit
    have hmem : r ∈ orderByDesc key (all.filter (·.inPeriod fromTime toTime)) := by simp [hsplit]
    rw [hbalance r (List.mem_of_mem_filter (perm_orderByDesc.mem_iff.mp hmem)), hopening]
    refine sumUpTo_stretch hkeys ?_ ?_ hsplit _
    · intro y _ z _ hy hz
      obtain ⟨f, hf, hlt⟩ := any_lt_iff.mp hy
      rw [inPeriod_iff] at hz
      exact key_lt_of_createdAt (lt_of_lt_of_le hlt (hz.1 f hf))
    · intro y _ z _ hz hle
      have hcreated := createdAt_le_of_key hle
      rw [inPeriod_iff] at hz ⊢
      rw [any_lt_iff]
      cases fromTime <;> grind

namespace HistoryRequest

variable {lib : HistoryLibrary} {req : HistoryRequest lib} {db : DB}

structure Unfiltered (req : HistoryRequest lib) : Prop where
  transactionType : req.query.transactionType = ""
  status : req.query.status = ""
  direction : req.query.direction = ""

variable {opening closing : Int64}

theorem withPageSize_fields (query : TransactionHistoryQuery) :
    query.withPageSize.transactionType = query.transactionType ∧
      query.withPageSize.status = query.status ∧
      query.withPageSize.direction = query.direction := by
  unfold TransactionHistoryQuery.withPageSize
  split <;> exact ⟨rfl, rfl, rfl⟩

theorem Unfiltered.matchesFilters (h : req.Unfiltered) (r : HistoryRow) :
    r.matchesFilters (req.params none) =
      r.inPeriod (req.params none).fromTime (req.params none).toTime := by
  obtain ⟨htype, hstatus, hdirection⟩ := withPageSize_fields req.query
  have hnone : (req.params none).transactionType = none ∧
      (req.params none).transactionStatus = none ∧ (req.params none).direction = none := by
    simp only [params, historyParams, htype, hstatus, hdirection, h.transactionType, h.status,
      h.direction]
    exact ⟨rfl, rfl, rfl⟩
  simp [ListOwnedAccountTransactionsRow.matchesFilters, inPeriod, hnone]

theorem range_le (req : HistoryRequest lib) {f t : Timestamp}
    (hf : (req.params none).fromTime = some f) (ht : (req.params none).toTime = some t) : f ≤ t := by
  have hrange := req.range_ok
  simp only [params, historyParams, Option.map_eq_some_iff] at hf ht
  obtain ⟨f, hf, rfl⟩ := hf
  obtain ⟨t, ht, rfl⟩ := ht
  rw [show req.range = (some f, some t) from Prod.ext hf ht] at hrange
  exact Time.timestamp_le (parseTransactionDateRange_some hrange).2.2

theorem getOwnedAccountStatementBalances_ok {fromTime toTime : Option Timestamp}
    {publicID : Option UUID} {username : String} :
    getOwnedAccountStatementBalances fromTime toTime publicID username db =
        .ok ⟨opening, closing⟩ ↔
      opening.toInt = sumWhere (((db.targetLedger publicID username).map
        fun ledger => db.activity ledger.id).getD [])
          (fun x => fromTime.any (x.transaction.createdAt < ·)) ∧
      closing.toInt = sumWhere (((db.targetLedger publicID username).map
        fun ledger => db.activity ledger.id).getD [])
          (fun x => toTime.all (x.transaction.createdAt < ·)) := by
  rw [← bigint_ok, ← bigint_ok]
  unfold getOwnedAccountStatementBalances
  simp only [bind, Except.bind, pure, Except.pure]
  cases bigint (sumWhere (((db.targetLedger publicID username).map
      fun ledger => db.activity ledger.id).getD [])
        fun x => fromTime.any (x.transaction.createdAt < ·)) with
  | error e => simp
  | ok x =>
    cases bigint (sumWhere (((db.targetLedger publicID username).map
        fun ledger => db.activity ledger.id).getD [])
          fun x => toTime.all (x.transaction.createdAt < ·)) with
    | error e => simp
    | ok y => simp

theorem fits_sumWhere {id : Int64} {p : Activity → Bool}
    (hfit : ∀ x ∈ db.activity id, fitsBigint (db.balanceUpTo id x.key))
    (hlower : ∀ y z : Activity, p z = true → y.transaction.createdAt ≤ z.transaction.createdAt →
      p y = true) : fitsBigint (sumWhere (db.activity id) p) := by
  have hkey : ∀ y z : Activity, y.key ≤ z.key →
      y.transaction.createdAt ≤ z.transaction.createdAt := by
    intro y z hle
    rcases Prod.Lex.toLex_le_toLex.mp hle with hlt | ⟨heq, _⟩
    · exact hlt.le
    · exact heq.le
  rcases sum_lower_eq (db.distinctKeys_activity id)
    (fun y _ z _ hz hle => hlower y z hz (hkey y z hle)) Activity.signedAmount with hzero | ⟨z, hz, hsum⟩
  · rw [sumWhere, hzero]
    decide
  · rw [sumWhere, hsum]
    exact hfit z hz

theorem exists_balances (hfit : db.BalancesFit (req.params none)) (fromTime toTime : Option Timestamp) :
    ∃ balances, getOwnedAccountStatementBalances fromTime toTime (some req.accountID) req.username
      db = .ok balances := by
  have hfits : ∀ p : Activity → Bool, (∀ y z : Activity, p z = true →
      y.transaction.createdAt ≤ z.transaction.createdAt → p y = true) →
      ∃ x : Int64, x.toInt = sumWhere (((db.targetLedger (some req.accountID) req.username).map
        fun ledger => db.activity ledger.id).getD []) p := by
    intro p hlower
    cases hledger : db.targetLedger (some req.accountID) req.username with
    | none => exact ⟨0, rfl⟩
    | some ledger =>
      have hfit' := fits_sumWhere (hfit ledger hledger) hlower
      rw [fitsBigint_iff] at hfit'
      exact ⟨Int64.ofInt (sumWhere (db.activity ledger.id) p),
        Int64.toInt_ofInt_of_le (by omega) (by omega)⟩
  obtain ⟨opening, hopening⟩ := hfits (fun x => fromTime.any (x.transaction.createdAt < ·)) (by
    intro y z hz hle
    obtain ⟨f, hf, hlt⟩ := any_lt_iff.mp hz
    exact any_lt_iff.mpr ⟨f, hf, lt_of_le_of_lt hle hlt⟩)
  obtain ⟨closing, hclosing⟩ := hfits (fun x => toTime.all (x.transaction.createdAt < ·)) (by
    intro y z hz hle
    cases toTime with
    | none => rfl
    | some t => exact decide_eq_true (lt_of_le_of_lt hle (of_decide_eq_true hz)))
  exact ⟨⟨opening, closing⟩, getOwnedAccountStatementBalances_ok.mpr ⟨hopening, hclosing⟩⟩

theorem tellsPeriod_rows (hunfiltered : req.Unfiltered)
    (hbalances : getOwnedAccountStatementBalances (req.params none).fromTime
      (req.params none).toTime (some req.accountID) req.username db = .ok ⟨opening, closing⟩) :
    TellsPeriod (db.accountRows (some req.accountID) req.username) (orderByDesc key (req.rows db))
      (req.params none).fromTime (req.params none).toTime opening closing := by
  obtain ⟨hopening, hclosing⟩ := getOwnedAccountStatementBalances_ok.mp hbalances
  refine ⟨congrArg (orderByDesc key) (List.filter_congr fun r _ => hunfiltered.matchesFilters r),
    ?_, ?_⟩
  · exact hopening.trans (DB.sum_accountRows _ _ fun _ _ => rfl).symm
  · exact hclosing.trans (DB.sum_accountRows _ _ fun _ _ => rfl).symm

/-- A client who follows the cursors of a statement without filters comes to its last page,
unless something in the tables is in the way of a page. The rows of all pages are those of
the account in the period, and on every page the balances are such that they add up. -/
theorem statementWalk_reconciles (req : HistoryRequest lib) (hunfiltered : req.Unfiltered) (db : DB)
    (howned : req.Owned db) :
    ∃ fuel, (∃ pages, follow (fun _ c => req.statementPage c db)
          (HistoryPage.next ∘ StatementPage.toHistoryPage) fuel 0 "" = some (.ok pages) ∧
        pages ≠ [] ∧ ∀ page ∈ pages,
          TellsPeriod (db.accountRows (some req.accountID) req.username)
            (pages.flatMap fun page => page.rows) (req.params none).fromTime
            (req.params none).toTime page.openingBalance page.closingBalance ∧
          Reconciles page.openingBalance page.closingBalance
            (pages.flatMap fun page => page.rows)) ∨
      (∃ reply, follow (fun _ c => req.statementPage c db)
          (HistoryPage.next ∘ StatementPage.toHistoryPage) fuel 0 "" = some (.error reply)) ∧
        ¬ req.Listable db := by
  obtain ⟨shown, hwalk⟩ := PageWalk.exists_walk req.pageLength_pos
    (fun _ => req.distinctKeys_rows db) (N := 0) (fun _ _ => rfl) 0 none
  have hpaginates := (req.paginates_historyPage fun _ => db).of_page
    StatementPage.toHistoryPage (fun _ c => req.statementPage c db)
    fun h => (req.statementPage_ok.mp h).1
  obtain ⟨fuel, ⟨pages, hpages, hshown⟩ | ⟨j, c, k, e, hc, herr, hfollow⟩⟩ :=
    hpaginates.follow_ends hwalk (req.reads_first _)
  · obtain ⟨hne, hanswers⟩ := follow_answers hpages
    have hflat : (pages.flatMap fun page => page.rows) =
        orderByDesc key (req.rows db) := by
      rw [← remaining_none, ← hwalk.flatten_eq (req.distinctKeys_rows db), ← hshown,
        List.flatMap_def]
      rfl
    refine ⟨fuel, Or.inl ⟨pages, hpages, hne, fun page hpage => ?_⟩⟩
    obtain ⟨i, c, hok⟩ := hanswers page hpage
    obtain ⟨hhistory, hfrom, hto, hbalances⟩ := req.statementPage_ok.mp hok
    obtain ⟨_, _, _, hfit, _⟩ := req.historyPage_ok.mp hhistory
    rw [hfrom, hto] at hbalances
    rw [hflat]
    have hperiod := tellsPeriod_rows hunfiltered hbalances
    refine ⟨hperiod, hperiod.reconciles (db.distinctKeys_accountRows _ _)
      (fun f t hf ht => req.range_le hf ht) ?_⟩
    exact fun r hr => DB.balanceAfter_accountRows hfit hr
  · refine ⟨fuel, Or.inr ⟨⟨e, hfollow⟩, fun hlist => ?_⟩⟩
    obtain ⟨page, hpage⟩ := exists_historyPage_of_reads (fun _ => hlist) (fun _ => howned)
      (i := j) hc
    obtain ⟨balances, hbalances⟩ := exists_balances hlist.fits (req.params none).fromTime
      (req.params none).toTime
    have hok : req.statementPage c db = .ok ⟨page, (req.params none).fromTime,
        (req.params none).toTime, balances.openingBalance, balances.closingBalance⟩ :=
      req.statementPage_ok.mpr ⟨hpage, rfl, rfl, hbalances⟩
    rw [herr] at hok
    cases hok

end HistoryRequest

theorem statementWalk_ofAlice :
    (rowByRow.pageLength = 1 ∧ (rowByRow.rows (afterMovements 4)).length = 3) ∧
    ∃ fuel pages, follow (fun _ c => rowByRow.statementPage c (afterMovements 4))
        (HistoryPage.next ∘ StatementPage.toHistoryPage) fuel 0 "" = some (.ok pages) ∧
      pages ≠ [] ∧ ∀ page ∈ pages,
        TellsPeriod ((afterMovements 4).accountRows (some 100) "alice")
          (pages.flatMap fun page => page.rows) (some 43200000000) (some 216000000000)
          page.openingBalance page.closingBalance ∧
        Reconciles page.openingBalance page.closingBalance
          (pages.flatMap fun page => page.rows) := by
  refine ⟨by decide +kernel, ?_⟩
  obtain ⟨fuel, ⟨pages, hpages⟩ | ⟨_, hnot⟩⟩ :=
    HistoryRequest.statementWalk_reconciles rowByRow ⟨rfl, rfl, rfl⟩ (afterMovements 4)
      (owned_afterMovements 4 (by decide))
  · exact ⟨fuel, pages, hpages⟩
  · exact absurd (listable_afterMovements 4 (by decide)) hnot

/-! ## The history while the tables change -/

theorem DB.mem_matchingRows (h : r ∈ db.matchingRows arg) :
    ∃ t ∈ db.bankingTransactions.rows, t.id = r.id ∧ t.createdAt = r.createdAt := by
  have hall := List.mem_of_mem_filter h
  unfold accountRows at hall
  split at hall
  · cases hall
  · obtain ⟨x, hx, rfl⟩ := List.mem_map.mp hall
    obtain ⟨_, _, hget⟩ := Books.mem_activity.mp (perm_orderBy.mem_iff.mp hx)
    exact ⟨x.transaction, Table.mem_of_get hget, rfl, rfl⟩

theorem LedgerKept.history_key {db' : DB} (h : LedgerKept db db')
    {arg' : ListOwnedAccountTransactionsParams} {r' : HistoryRow}
    (hr : r ∈ db.matchingRows arg) (hr' : r' ∈ db'.matchingRows arg') (hid : r.id = r'.id) :
    r.key = r'.key := by
  obtain ⟨t, ht, htid, htime⟩ := DB.mem_matchingRows hr
  obtain ⟨t', ht', htid', htime'⟩ := DB.mem_matchingRows hr'
  obtain ⟨t'', ht'', hdetails, _⟩ := h.transactions t ht
  rw [BankingTransaction.sameDetails_iff] at hdetails
  have hsame : pk t' = pk t'' := by
    simp only [pk, hdetails.1, htid, htid', hid]
  have heq : t' = t'' := by
    have hget := Table.get_pk ht'
    rw [hsame, Table.get_pk ht''] at hget
    exact (Option.some.inj hget).symm
  have htimes : r.createdAt = r'.createdAt := by
    rw [← htime, ← htime', heq]
    exact hdetails.2.2.2.2.2.2.2.2.symm
  rw [key, key, htimes, hid]

theorem ledgerKept_of_le {states : ℕ → DB} (h : ∀ i, LedgerKept (states i) (states (i + 1)))
    {i j : ℕ} (hij : i ≤ j) : LedgerKept (states i) (states j) := by
  induction j, hij using Nat.le_induction with
  | base => exact .refl _
  | succ j hij ih => exact ih.trans (h j)

namespace HistoryRequest

variable {lib : HistoryLibrary} {req : HistoryRequest lib} {states : ℕ → DB}

theorem history_key_eq (h : ∀ i, LedgerKept (states i) (states (i + 1))) {i j : ℕ}
    {r r' : HistoryRow} (hr : r ∈ req.rows (states i))
    (hr' : r' ∈ req.rows (states j)) (hid : r.id = r'.id) : r.key = r'.key := by
  rcases Nat.le_total i j with hij | hji
  · exact (ledgerKept_of_le h hij).history_key hr hr' hid
  · exact ((ledgerKept_of_le h hji).history_key hr' hr hid.symm).symm

/-- A client who follows the cursors of the history, while transactions are booked and
reversed, comes to the last page. The rows are shown in descending order, each of them is
a row of the account at the time of its page, no transaction is shown twice, and the
transactions that are there throughout are shown. -/
theorem historyWalk_complete (req : HistoryRequest lib) (states : ℕ → DB)
    (hkept : ∀ i, LedgerKept (states i) (states (i + 1)))
    (hrest : ∃ N, ∀ i, N ≤ i → req.rows (states i) = req.rows (states N))
    (howned : ∀ i, req.Owned (states i)) (hlist : ∀ i, req.Listable (states i)) :
    ∃ fuel pages, follow (fun i c => req.historyPage c (states i)) HistoryPage.next fuel 0 "" =
        some (.ok pages) ∧
      (pages.flatMap HistoryPage.rows).Pairwise (fun a b => b.key < a.key) ∧
      (∀ r ∈ pages.flatMap HistoryPage.rows, ∃ i < pages.length, r ∈ req.rows (states i)) ∧
      ((pages.flatMap HistoryPage.rows).map ListOwnedAccountTransactionsRow.id).Nodup ∧
      ∀ id, (∀ i < pages.length, ∃ r ∈ req.rows (states i), r.id = id) →
        ((pages.flatMap HistoryPage.rows).map ListOwnedAccountTransactionsRow.id).count id = 1 := by
  obtain ⟨N, hrest⟩ := hrest
  have hdistinct := fun i => req.distinctKeys_rows (states i)
  obtain ⟨shown, hwalk⟩ := PageWalk.exists_walk req.pageLength_pos hdistinct hrest 0 none
  obtain ⟨fuel, ⟨pages, hpages, hshown⟩ | ⟨j, c, k, e, hc, herr, _⟩⟩ :=
    (req.paginates_historyPage states).follow_ends hwalk (req.reads_first states)
  · have hflat : pages.flatMap HistoryPage.rows = shown.flatten := by
      rw [List.flatMap_def, hshown]
    have hlength : shown.length = pages.length := by rw [← hshown, List.length_map]
    have hdesc := hwalk.descending hdistinct
    have hmem : ∀ r ∈ shown.flatten, ∃ i < pages.length, r ∈ req.rows (states i) := by
      intro r hr
      obtain ⟨i, _, hi, hmem⟩ := hwalk.mem_rows hr
      exact ⟨i, by omega, hmem⟩
    have hnodup : (shown.flatten.map ListOwnedAccountTransactionsRow.id).Nodup := by
      rw [List.Nodup, List.pairwise_map]
      refine hdesc.imp_of_mem fun {a b} ha hb hlt hid => ?_
      obtain ⟨i, _, ha⟩ := hmem a ha
      obtain ⟨j, _, hb⟩ := hmem b hb
      exact absurd hlt (by rw [history_key_eq hkept ha hb hid]; exact lt_irrefl _)
    refine ⟨fuel, pages, hpages, ?_⟩
    rw [hflat]
    refine ⟨hdesc, hmem, hnodup, fun id hthere => ?_⟩
    -- the key of the transaction is the same in every state, so the walk does not miss it
    obtain ⟨r, hr, hid⟩ := hthere 0 (by
      rw [← hlength]
      cases hwalk <;> simp)
    obtain ⟨r', hr', hkey⟩ := hwalk.covers hdistinct (k := r.key) (fun j _ hj => by
      obtain ⟨r', hr', hid'⟩ := hthere j (by omega)
      exact ⟨r', hr', history_key_eq hkept hr' hr (hid'.trans hid.symm)⟩) nofun
    have hid' : r'.id = id := by
      rw [← hid]
      exact BitVec.eq_of_toNat_eq (Prod.mk.inj (toLex.injective hkey)).2
    exact List.count_eq_one_of_mem hnodup (List.mem_map.mpr ⟨r', hr', hid'⟩)
  · obtain ⟨page, hpage⟩ := exists_historyPage_of_reads hlist howned (i := j) hc
    rw [herr] at hpage
    cases hpage

end HistoryRequest

/-- A deposit of Alice is booked after the first page. -/
def betweenPages (i : ℕ) : DB := afterMovements (if i = 0 then 3 else 4)

theorem betweenPages_succ (i : ℕ) : betweenPages (i + 1) = afterMovements 4 := rfl

theorem historyWalk_ofAlice :
    (rowByRow.pageLength = 1 ∧ (rowByRow.rows (betweenPages 0)).length = 2 ∧
      (rowByRow.rows (betweenPages 1)).length = 3) ∧
    ∃ fuel pages, follow (fun i c => rowByRow.historyPage c (betweenPages i)) HistoryPage.next
        fuel 0 "" = some (.ok pages) ∧
      ∀ id ∈ [400, 500],
        ((pages.flatMap HistoryPage.rows).map ListOwnedAccountTransactionsRow.id).count id = 1 := by
  refine ⟨by decide +kernel, ?_⟩
  have hkept : ∀ i, LedgerKept (betweenPages i) (betweenPages (i + 1)) := by
    intro i
    cases i with
    | zero => exact .of_subset (by decide +kernel) (by decide +kernel)
    | succ i => exact .refl _
  have hrest : ∀ i, 1 ≤ i → rowByRow.rows (betweenPages i) = rowByRow.rows (betweenPages 1) := by
    intro i hi
    obtain ⟨i, rfl⟩ := Nat.exists_eq_add_of_le' hi
    rw [betweenPages_succ, betweenPages_succ]
  have hthere : ∀ i, ∀ id ∈ [400, 500], ∃ r ∈ rowByRow.rows (betweenPages i), r.id = id := by
    intro i
    cases i with
    | zero => decide +kernel
    | succ i =>
      rw [betweenPages_succ]
      decide +kernel
  have hmem : ∀ i, (if i = 0 then 3 else 4) ∈ [3, 4] := by
    intro i
    split <;> decide
  obtain ⟨fuel, pages, hpages, _, _, _, hall⟩ :=
    HistoryRequest.historyWalk_complete rowByRow betweenPages hkept ⟨1, hrest⟩
      (fun i => owned_afterMovements _ (hmem i)) fun i => listable_afterMovements _ (hmem i)
  exact ⟨fuel, pages, hpages, fun id hid => hall id fun i _ => hthere i id hid⟩

/-- A deposit that is created before a withdrawal and committed after it. In the order of
creation the account comes to hold more than its type can. -/
def overtakenDeposit : List BankingAction :=
  openAccounts ++ uninterrupted 2 (depositForAlice 4000000000000000000 (.drawing 1 3)) ++
    uninterrupted 3 (depositForAlice 4000000000000000000 (.drawing 2 4)) ++
    [.start 4 (depositForAlice 4000000000000000000 (.drawing 3 5))] ++
    uninterrupted 5 (withdrawalOfAlice 4000000000000000000 (.drawing 4 6)) ++ toCommit 4

/-- The history is refused, although the account is Alice's and nothing changes. -/
theorem overtakenDeposit_no_history :
    requestOfAlice.Owned (bankingRun twoCustomers overtakenDeposit).db ∧
      (listAccountTransactions unaryLibrary "alice" (100 : UUID).text (.ok requestOfAlice.query)
        (bankingRun twoCustomers overtakenDeposit).db).status = 500 ∧
      ∀ fuel pages, follow
        (fun _ c => requestOfAlice.historyPage c (bankingRun twoCustomers overtakenDeposit).db)
        HistoryPage.next fuel 0 "" ≠ some (.ok pages) := by
  refine ⟨Option.isSome_iff_exists.mp (by decide +kernel), by decide +kernel, ?_⟩
  intro fuel pages hfollow
  have hrefused : (requestOfAlice.historyPage ""
      (bankingRun twoCustomers overtakenDeposit).db).isOk = false := by decide +kernel
  cases fuel with
  | zero => cases hfollow
  | succ fuel =>
      rw [follow] at hfollow
      cases hpage : requestOfAlice.historyPage ""
          (bankingRun twoCustomers overtakenDeposit).db with
      | error reply => simp [hpage] at hfollow
      | ok page =>
          rw [hpage] at hrefused
          cases hrefused

end Monierave
