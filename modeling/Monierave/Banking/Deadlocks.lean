import Mathlib.Data.List.Dedup
import Mathlib.Data.Prod.Lex
import Monierave.Banking.System
import Monierave.ReadCommitted.LockOrder

/-! # No deadlocks

The banking operations lock rows of three tables: idempotency keys, banking
transactions and accounts, and accounts in the order of their ids.
-/

namespace Monierave

open Relational ReadCommitted Prog

/-! ## Who waits for whom -/

def LockKey.isFinancial : LockKey → Bool
  | .account _ => true
  | .bankingTransaction _ => true
  | .idempotencyKey _ => true
  | _ => false

def Write.inserted : Write → List LockKey
  | .insertAccount r => (Relational.keys r).map .account
  | .insertBankingTransaction r => (Relational.keys r).map .bankingTransaction
  | .insertIdempotencyKey r => (Relational.keys r).map .idempotencyKey
  | _ => []

/-- A plain `INSERT`. It waits for nobody who has merely locked a row: if a row with
one of its entries can be seen, it fails at once. -/
def IsInsert {β : Type} (q : Query β) : Prop :=
  ∃ (κ : Type) (_ : Keyed β κ) (_ : DecidableEq κ) (table : DB → Table β) (constraint : κ → String)
    (violated orphaned : DB → Option SqlError) (write : β → Write) (r : β),
    q = insertRow table constraint violated orphaned write r

section WaitsFor

variable {T R Op : Type}

/-- Worker `w` waits for worker `v`: for the lock of a row, or because it inserts a row
with an entry that a row has which `v` inserted and did not commit yet. -/
inductive WaitsFor (s : State Write DB LockKey Err T R Op) (w v : Nat) : Prop
  | row {β : Type} {op op' : Op} {r r' : Running Write DB LockKey Err T R} {q : Query β}
      {k : β → Prog Write DB LockKey Err R} {key : LockKey} (hne : w ≠ v)
      (hw : s.workers w = .running op r) (hr : r.rest = .stmt q k) (hq : ¬ IsInsert q)
      (hkey : key ∈ q.waits (view r.own s.db)) (hfin : key.isFinancial = true)
      (hv : s.workers v = .running op' r') (hheld : key ∈ r'.held)
  | insert {β : Type} {op op' : Op} {r r' : Running Write DB LockKey Err T R} {q : Query β}
      {k : β → Prog Write DB LockKey Err R} {eff : Answer β} {x y : Write} {key : LockKey}
      (hne : w ≠ v) (hw : s.workers w = .running op r) (hr : r.rest = .stmt q k)
      (heff : q.exec r.own (view r.own s.db) = .ok eff) (hx : x ∈ eff.writes)
      (hkey : key ∈ x.inserted) (hv : s.workers v = .running op' r') (hy : y ∈ r'.own)
      (hheld : key ∈ y.inserted)

end WaitsFor

/-! ## The order -/

def rowRank : LockKey → ℕ ×ₗ ℤ
  | .idempotencyKey _ => toLex (0, 0)
  | .bankingTransaction _ => toLex (2, 0)
  | .account (.id id) => toLex (3, id.toInt)
  | _ => toLex (3, 0)

def insertRank : LockKey → ℕ ×ₗ ℤ
  | .idempotencyKey _ => toLex (1, 0)
  | _ => toLex (4, 0)

theorem rank_lt {m n : ℕ} {x y : ℤ} (h : m < n) : toLex (m, x) < toLex (n, y) :=
  Prod.Lex.toLex_lt_toLex.mpr (Or.inl h)

abbrev BankingHolding := Holding Write LockKey

/-- All that is held ranks below `ρ`. -/
structure Clear (ρ : ℕ ×ₗ ℤ) (h : BankingHolding) : Prop where
  held : ∀ k ∈ h.held, k.isFinancial = true → rowRank k < ρ
  own : ∀ x ∈ h.own, ∀ k ∈ x.inserted, insertRank k < ρ

theorem clear_nil (ρ : ℕ ×ₗ ℤ) : Clear ρ ⟨[], []⟩ := ⟨by simp, by simp⟩

def CoversKeys (held : List LockKey) (db : DB) : Prop :=
  ∀ username key o, .idempotencyKey (.ownerOperation username key) ∈ held →
    db.idempotencyKeys.get (.ownerOperation username key) = some o → o.rowLock ∈ held

/-- A statement may ask for what its transaction holds, and otherwise only for what
ranks above everything its transaction holds. -/
def bankingPolicy : LockPolicy Write DB LockKey Err where
  Entry := Option Row
  entry := DB.entry
  fact := CoversKeys
  asks h db q :=
    (∀ k ∈ q.waits db, k.isFinancial = true → ¬ IsInsert q → k ∈ h.held ∨ Clear (rowRank k) h) ∧
      ∀ eff, q.exec h.own db = .ok eff → ∀ x ∈ eff.writes, ∀ k ∈ x.inserted, Clear (insertRank k) h
  entry_congr := DB.entry_apply_congr
  entry_other := DB.entry_apply_of_notMem
  fact_nil _ _ _ _ hk := by cases hk
  fact_congr hentry hfact username key o hk ho :=
    hfact username key o hk ((DB.entry_idempotencyKey.mp (hentry _ hk)).trans ho)

section Cycles

variable {T R Op : Type}

def WaitsAt (s : State Write DB LockKey Err T R Op) (w v : Nat) (ρ : ℕ ×ₗ ℤ) : Prop :=
  ∃ op op' r r', w ≠ v ∧ s.workers w = .running op r ∧ s.workers v = .running op' r' ∧
    Clear ρ ⟨r.own, r.held⟩ ∧
    ((∃ key ∈ r'.held, key.isFinancial = true ∧ rowRank key = ρ) ∨
      ∃ y ∈ r'.own, ∃ key ∈ y.inserted, insertRank key = ρ)

variable {s : State Write DB LockKey Err T R Op}

theorem WaitsFor.waitsAt (h : bankingPolicy.Observed s) {w v : Nat} (hwait : WaitsFor s w v) :
    ∃ ρ, WaitsAt s w v ρ := by
  cases hwait with
  | @row β op op' r r' q k key hne hw hr hq hkey hfin hv hheld =>
    obtain ⟨hfact, hrest⟩ := h.follows w op r hw
    rw [hr] at hrest
    obtain ⟨⟨hrow, _⟩, _⟩ := hrest _ hfact
    rcases hrow key hkey hfin hq with hown | hclear
    · exact absurd hheld (h.exclusive.disjoint hw hv hne key hown)
    · exact ⟨_, op, op', r, r', hne, hw, hv, hclear, Or.inl ⟨key, hheld, hfin, rfl⟩⟩
  | @insert β op op' r r' q k eff x y key hne hw hr heff hx hkey hv hy hheld =>
    obtain ⟨hfact, hrest⟩ := h.follows w op r hw
    rw [hr] at hrest
    obtain ⟨⟨_, hinsert⟩, _⟩ := hrest _ hfact
    exact ⟨_, op, op', r, r', hne, hw, hv, hinsert eff heff x hx key hkey,
      Or.inr ⟨y, hy, key, hheld, rfl⟩⟩

theorem WaitsAt.lt {a b c : Nat} {x y : ℕ ×ₗ ℤ} (hab : WaitsAt s a b x) (hbc : WaitsAt s b c y) :
    x < y := by
  obtain ⟨_, _, _, r', _, _, hb, _, hx⟩ := hab
  obtain ⟨_, _, r, _, _, hb', _, hclear, _⟩ := hbc
  rw [hb] at hb'
  cases hb'
  rcases hx with ⟨key, hkey, hfin, rfl⟩ | ⟨z, hz, key, hkey, rfl⟩
  · exact hclear.held key hkey hfin
  · exact hclear.own z hz key hkey

theorem not_cyclic (h : bankingPolicy.Observed s) (w : Nat) :
    ¬ Relation.TransGen (WaitsFor s) w w := by
  intro hcycle
  refine acyclic_of_rank (E := WaitsAt s) (fun _ _ _ _ _ => WaitsAt.lt) w ?_
  exact Relation.TransGen.mono (fun _ _ hwait => WaitsFor.waitsAt h hwait) w w hcycle

end Cycles

/-! ## Statements -/

section Statements

variable {α β : Type} {h : BankingHolding}

def Write.sparesKeys : Write → Bool
  | .insertIdempotencyKey _ => false
  | .updateIdempotencyKey _ _ => false
  | .deleteIdempotencyKey _ => false
  | _ => true

variable {x : Write} {q : Query β} {Q : α → BankingHolding → Prop} {e : Err}

theorem Write.idempotencyKeys_apply (hx : x.sparesKeys = true) (db : DB) :
    (x.apply db).idempotencyKeys = db.idempotencyKeys := by
  cases x <;> first | rfl | cases hx

theorem Write.notMem_keys_of_sparesKeys (hx : x.sparesKeys = true) (j : IdempotencyKeyKey) :
    LockKey.idempotencyKey j ∉ x.keys := by
  cases x <;> first | (simp [Write.keys]; done) | cases hx

theorem idempotencyKeys_view {ws : List Write} (hws : ∀ x ∈ ws, x.sparesKeys = true) (db : DB) :
    (view ws db).idempotencyKeys = db.idempotencyKeys := by
  induction ws generalizing db with
  | nil => rfl
  | cons x ws ih =>
    rw [List.forall_mem_cons] at hws
    rw [view_cons, ih hws.2]
    exact Write.idempotencyKeys_apply hws.1 db

structure SparesKeys (eff : Answer β) : Prop where
  writes : ∀ x ∈ eff.writes, x.sparesKeys = true
  locks : ∀ j, .idempotencyKey j ∉ eff.locks

theorem CoversKeys.next {db : DB} {eff : Answer β} (hfact : CoversKeys h.held db)
    (heff : SparesKeys eff) : CoversKeys (h.next eff).held (view eff.writes db) := by
  intro username key o hk ho
  rw [idempotencyKeys_view heff.writes] at ho
  have hold : .idempotencyKey (.ownerOperation username key) ∈ h.held := by
    rw [Holding.next_held, Effect.claims, List.mem_append, List.mem_append, List.mem_flatMap] at hk
    rcases hk with hk | hk | ⟨x, hx, hk⟩
    · exact hk
    · exact absurd hk (heff.locks _)
    · exact absurd hk (Write.notMem_keys_of_sparesKeys (heff.writes x hx) _)
  exact List.mem_append_left _ (hfact username key o hold ho)

/-- A statement that waits for no lock of the tables considered and inserts no row into
them. -/
structure Passes (q : Query β) : Prop where
  waits : ∀ db, ∀ k ∈ q.waits db, k.isFinancial = true → IsInsert q
  writes : ∀ own db eff, q.exec own db = .ok eff → ∀ x ∈ eff.writes, x.inserted = []
  spares : ∀ own db eff, q.exec own db = .ok eff → SparesKeys eff

theorem Passes.asks (hq : Passes q) (db : DB) : bankingPolicy.asks h db q := by
  refine ⟨fun k hk hfin hins => absurd (hq.waits db k hk hfin) hins, ?_⟩
  intro eff hs x hx k hk
  rw [hq.writes _ _ _ hs x hx] at hk
  cases hk

theorem orderly_pass {q : Query α} (hq : Passes q) (hQ : ∀ a h', h.Grows h' → Q a h') :
    Orderly bankingPolicy (call q) h Q := by
  apply Orderly.call
  intro db hfact
  refine ⟨hq.asks db, fun eff hs => ⟨CoversKeys.next hfact (hq.spares _ _ _ hs), ?_⟩⟩
  exact hQ _ _ (h.grows_next eff)

theorem orderly_readOnly {f : DB → α} (hQ : ∀ a, Q a h) :
    Orderly bankingPolicy (call (readOnly f)) h Q := by
  apply Orderly.call
  intro db hfact
  refine ⟨⟨by simp [readOnly], by simp [readOnly]⟩, fun eff hs => ?_⟩
  obtain rfl := readOnly_ok.mp hs
  refine ⟨?_, by simpa [Holding.next, Effect.claims] using hQ _⟩
  simpa [Holding.next, Effect.claims] using hfact

theorem orderly_fetch_readOnly {f : DB → Option α}
    (hQ : ∀ db a, CoversKeys h.held db → f db = some a → Q a h) :
    Orderly bankingPolicy (fetch e (readOnly f)) h Q := by
  apply Orderly.fetch
  intro db hfact
  refine ⟨⟨by simp [readOnly], by simp [readOnly]⟩, fun eff hs => ?_⟩
  obtain rfl := readOnly_ok.mp hs
  refine ⟨by simpa [Holding.next, Effect.claims] using hfact, fun a ha => ?_⟩
  simpa [Holding.next, Effect.claims] using hQ db a hfact ha

theorem orderly_selectForUpdate {find : DB → Option α} {key : α → LockKey}
    (hkey : ∀ a j, key a ≠ .idempotencyKey j)
    (hclear : ∀ db a, find db = some a → Clear (rowRank (key a)) h)
    (hQ : ∀ db a, find db = some a → Q a ⟨h.own, h.held ++ [key a]⟩) :
    Orderly bankingPolicy (fetch e (selectForUpdate find key)) h Q := by
  apply Orderly.fetch
  intro db hfact
  refine ⟨⟨?_, ?_⟩, fun eff hs => ?_⟩
  · intro k hk _ _
    obtain ⟨a, ha, rfl⟩ := List.mem_map.mp hk
    exact Or.inr (hclear db a (Option.mem_toList.mp ha))
  · intro eff hs x hx
    rw [selectForUpdate_ok.mp hs] at hx
    cases hx
  · obtain rfl := selectForUpdate_ok.mp hs
    refine ⟨CoversKeys.next hfact ⟨by simp, ?_⟩, fun a ha => ?_⟩
    · intro j hj
      obtain ⟨a, _, ha⟩ := List.mem_map.mp hj
      exact hkey a j ha
    · dsimp only at ha
      simpa [Holding.next, Effect.claims, ha] using hQ db a ha

section Rows

variable {R κ : Type} [Keyed R κ] [DecidableEq κ]

variable {table : DB → Table R} {constraint : κ → String} {Q : R → BankingHolding → Prop}
    {violated orphaned : DB → Option SqlError} {write : R → Write} {r : R}

theorem orderly_updateRow {k : κ} {f : R → Except SqlError (Option R)}
    {violated : R → R → Option SqlError} {write : R → R → Write} {lock : κ → LockKey} {e : Err}
    (hheld : ∀ db o, CoversKeys h.held db → (table db).get k = some o → lock (pk o) ∈ h.held)
    (hins : ∀ o r, (write o r).inserted = [])
    (hspare : ∀ db o r, CoversKeys h.held db → Updates table k f violated db o r →
      CoversKeys (h.held ++ (write o r).keys) ((write o r).apply db))
    (hQ : ∀ db o r h', Updates table k f violated db o r → h.Grows h' → Q r h') :
    Orderly bankingPolicy (fetch e (updateRow table k f violated constraint write lock)) h Q := by
  apply Orderly.fetch
  intro db hfact
  refine ⟨⟨?_, ?_⟩, fun eff hs => ?_⟩
  · intro j hj _ _
    left
    simp only [updateRow] at hj
    cases hg : (table db).get k with
    | none => simp [hg] at hj
    | some o =>
      rw [hg] at hj
      dsimp only at hj
      split at hj
      · cases hj
      · rw [List.mem_singleton.mp hj]
        exact hheld db o hfact hg
  · intro eff hs x hx j hj
    rcases updateRow_ok.mp hs with ⟨_, rfl⟩ | ⟨o, r, _, rfl⟩
    · cases hx
    · rw [List.mem_singleton.mp hx, hins] at hj
      cases hj
  · rcases updateRow_ok.mp hs with ⟨_, rfl⟩ | ⟨o, r, hupd, rfl⟩
    · exact ⟨CoversKeys.next hfact ⟨by simp, by simp⟩, by simp⟩
    · refine ⟨?_, fun a ha => ?_⟩
      · have := hspare db o r hfact hupd
        simpa [bankingPolicy, Holding.next, Effect.claims] using this
      · cases ha
        exact hQ db o _ _ hupd (h.grows_next _)

theorem coversKeys_write {db : DB} {x : Write} (hx : x.sparesKeys = true)
    (hfact : CoversKeys h.held db) : CoversKeys (h.held ++ x.keys) (x.apply db) := by
  have heff : SparesKeys (⟨(), [x], []⟩ : Answer Unit) := ⟨by simpa using hx, by simp⟩
  simpa [Holding.next, Effect.claims] using hfact.next heff

theorem orderly_insertRow (hspare : (write r).sparesKeys = true)
    (hclear : ∀ k ∈ (write r).inserted, Clear (insertRank k) h)
    (hQ : ∀ h', h.Grows h' → (∀ k ∈ (write r).keys, k ∈ h'.held) → Q r h') :
    Orderly bankingPolicy (call (insertRow table constraint violated orphaned write r)) h Q := by
  apply Orderly.call
  intro db hfact
  refine ⟨⟨?_, ?_⟩, fun eff hs => ?_⟩
  · intro k _ _ hins
    exact absurd ⟨κ, _, _, table, constraint, violated, orphaned, write, r, rfl⟩ hins
  · intro eff hs x hx k hk
    obtain ⟨_, _, _, rfl⟩ := insertRow_ok.mp hs
    rw [List.mem_singleton.mp hx] at hk
    exact hclear k hk
  · obtain ⟨_, _, _, rfl⟩ := insertRow_ok.mp hs
    refine ⟨CoversKeys.next hfact ⟨by simpa using hspare, by simp⟩, hQ _ (h.grows_next _) ?_⟩
    intro k hk
    simp [Effect.claims, hk]

theorem passes_insertRow (hspare : (write r).sparesKeys = true) (hins : (write r).inserted = []) :
    Passes (insertRow table constraint violated orphaned write r) where
  waits _ _ _ _ := ⟨κ, _, _, table, constraint, violated, orphaned, write, r, rfl⟩
  writes own db eff hs := by
    obtain ⟨_, _, _, rfl⟩ := insertRow_ok.mp hs
    simpa using hins
  spares own db eff hs := by
    obtain ⟨_, _, _, rfl⟩ := insertRow_ok.mp hs
    exact ⟨by simpa using hspare, by simp⟩

end Rows

theorem passes_tryRead {f : DB → Except SqlError β} : Passes (tryRead f) where
  waits db k hk := by cases hk
  writes own db eff hs := by
    obtain ⟨_, _, rfl⟩ := tryRead_ok.mp hs
    simp
  spares own db eff hs := by
    obtain ⟨_, _, rfl⟩ := tryRead_ok.mp hs
    exact ⟨by simp, by simp⟩

theorem orderly_tryRead {f : DB → Except SqlError α} (hQ : ∀ a, Q a h) :
    Orderly bankingPolicy (call (tryRead f)) h Q := by
  apply Orderly.call
  intro db hfact
  refine ⟨passes_tryRead.asks db, fun eff hs => ?_⟩
  obtain ⟨_, _, rfl⟩ := tryRead_ok.mp hs
  refine ⟨?_, by simpa [Holding.next, Effect.claims] using hQ _⟩
  simpa [Holding.next, Effect.claims] using hfact

theorem passes_deferredTriggers : Passes deferredTriggers where
  waits db k hk := by cases hk
  writes own db eff hs := by
    obtain ⟨_, rfl⟩ := deferredTriggers_ok.mp hs
    simp
  spares own db eff hs := by
    obtain ⟨_, rfl⟩ := deferredTriggers_ok.mp hs
    exact ⟨by simp, by simp⟩

theorem passes_createAuditLog (now : Timestamp) (arg : CreateAuditLogParams) :
    Passes (createAuditLog now arg) := by
  have hwrites : ∀ own db eff, (createAuditLog now arg).exec own db = .ok eff →
      ∃ r, eff = ⟨r, [.insertAuditLog r], []⟩ := by
    intro own db eff hs
    simp only [createAuditLog] at hs
    split at hs
    · cases hs
    · cases hs
    · cases hs
      exact ⟨_, rfl⟩
  refine ⟨fun db k hk => absurd hk List.not_mem_nil, ?_, ?_⟩
  · intro own db eff hs
    obtain ⟨r, rfl⟩ := hwrites own db eff hs
    simp [Write.inserted]
  · intro own db eff hs
    obtain ⟨r, rfl⟩ := hwrites own db eff hs
    exact ⟨by simp [Write.sparesKeys], by simp⟩

theorem passes_audited {audit : β → AuditLog} (hq : Passes q)
    (hwaits : ∀ db, ∀ k ∈ q.waits db, k.isFinancial = false) : Passes (audited q audit) where
  waits db k hk hfin := by
    rw [hwaits db k hk] at hfin
    cases hfin
  writes own db eff hs := by
    obtain ⟨e, he, rfl⟩ := audited_ok.mp hs
    exact List.forall_mem_append.mpr ⟨hq.writes _ _ _ he, by simp [Write.inserted]⟩
  spares own db eff hs := by
    obtain ⟨e, he, rfl⟩ := audited_ok.mp hs
    obtain ⟨hw, hl⟩ := hq.spares _ _ _ he
    exact ⟨List.forall_mem_append.mpr ⟨hw, by simp [Write.sparesKeys]⟩, hl⟩

end Statements

section Keys

variable {h : BankingHolding}

theorem orderly_deleteIdempotencyKeyIf {cond : IdempotencyKey → Bool} {id : Int64}
    {Q : Nat → BankingHolding → Prop} (hh : h = ⟨[], []⟩)
    (hQ : Q 0 ⟨[], []⟩)
    (hQ' : ∀ o h', cond o = true → (∀ k ∈ keys o, .idempotencyKey k ∈ h'.held) →
      Clear (toLex (1, 0)) h' → Q 1 h') :
    Orderly bankingPolicy (call (deleteIdempotencyKeyIf cond id)) h Q := by
  subst hh
  apply Orderly.call
  intro db hfact
  refine ⟨⟨?_, ?_⟩, fun eff hs => ?_⟩
  · intro k _ _ _
    exact Or.inr (clear_nil _)
  · intro eff hs x hx k hk
    rw [deleteIdempotencyKeyIf_ok.mp hs] at hx
    obtain ⟨o, _, rfl⟩ := List.mem_map.mp hx
    cases hk
  · obtain rfl := deleteIdempotencyKeyIf_ok.mp hs
    cases ho : (db.idempotencyKeys.get (.id id)).filter cond with
    | none =>
      refine ⟨?_, by simpa [Holding.next, Effect.claims] using hQ⟩
      simp [bankingPolicy, CoversKeys, Holding.next, Effect.claims]
    | some o =>
      obtain ⟨hget, hcond⟩ := Option.filter_eq_some_iff.mp ho
      have hrow : db.idempotencyKeys.get (pk o) = some o := Table.get_pk (Table.mem_of_get hget)
      refine ⟨?_, hQ' o _ hcond ?_ ⟨?_, ?_⟩⟩
      · -- the entries of the row are free once it is deleted
        intro username key r hk hr
        simp only [Holding.next, Effect.claims, Option.toList_some, List.map_cons, List.map_nil,
          List.flatMap_cons, List.flatMap_nil, List.append_nil, List.nil_append, storage_keys,
          Write.keys, List.mem_map, LockKey.idempotencyKey.injEq, exists_eq_right] at hk
        simp only [Option.toList_some, List.map_cons, List.map_nil, view_cons, view_nil,
          apply_write, Write.apply, Table.remove_eq hrow, Table.get_delete_self hrow hk] at hr
        cases hr
      · intro k hk
        simpa [Holding.next, Effect.claims, Write.keys] using hk
      · intro k hk _
        simp only [Holding.next, Effect.claims, Option.toList_some, List.map_cons, List.map_nil,
          List.flatMap_cons, List.flatMap_nil, List.append_nil, List.nil_append, storage_keys,
          Write.keys, List.mem_map] at hk
        obtain ⟨j, _, rfl⟩ := hk
        simp [rowRank, Prod.Lex.toLex_lt_toLex]
      · simp [Holding.next, Write.inserted]

theorem orderly_createIdempotencyKey {env : Env} {username key : String} {requestHash : Bytes}
    {Q : Option IdempotencyKey → BankingHolding → Prop}
    (hclear : Clear (toLex (1, 0)) h)
    (hheld : h = ⟨[], []⟩ ∨ .idempotencyKey (.ownerOperation username key) ∈ h.held)
    (hQ : Q none h)
    (hQ' : ∀ r h', .idempotencyKey (.ownerOperation username key) ∈ h'.held →
      Clear (toLex (2, 0)) h' → Q (some r) h') :
    Orderly bankingPolicy (call (createIdempotencyKey env username key requestHash)) h Q := by
  have hkeys : ∀ k, k ∈ (Write.insertIdempotencyKey
      (newIdempotencyKey env username key requestHash)).keys → ∃ j, k = .idempotencyKey j := by
    intro k hk
    obtain ⟨j, _, rfl⟩ := List.mem_map.mp hk
    exact ⟨j, rfl⟩
  apply Orderly.call
  intro db hfact
  refine ⟨⟨?_, ?_⟩, fun eff hs => ?_⟩
  · intro k hk _ _
    rw [createIdempotencyKey, List.mem_singleton] at hk
    rcases hheld with rfl | hheld
    · exact Or.inr (clear_nil _)
    · exact Or.inl (hk ▸ hheld)
  · intro eff hs x hx k hk
    rcases createIdempotencyKey_ok.mp hs with ⟨_, rfl⟩ | ⟨_, _, rfl⟩
    · cases hx
    · rw [List.mem_singleton.mp hx] at hk
      obtain ⟨j, rfl⟩ := hkeys k hk
      exact hclear
  · rcases createIdempotencyKey_ok.mp hs with ⟨_, rfl⟩ | ⟨hconf, _, rfl⟩
    · exact ⟨by simpa [Holding.next, Effect.claims] using hfact,
        by simpa [Holding.next, Effect.claims] using hQ⟩
    · refine ⟨?_, hQ' _ _ ?_ ⟨?_, ?_⟩⟩
      · -- the row found under a key is the new one or was there before
        intro username' key' o hk ho
        simp only [Holding.next, Effect.claims, List.flatMap_cons, List.flatMap_nil,
          List.append_nil, List.nil_append, storage_keys, List.mem_append, view_cons, view_nil,
          apply_write, Write.apply, Table.get_insert hconf] at hk ho ⊢
        split at ho
        · cases ho
          exact Or.inr (List.mem_map_of_mem (Keyed.pk_mem _))
        · rename_i hnot
          rcases hk with hk | hk
          · exact Or.inl (hfact _ _ o hk ho)
          · obtain ⟨j, hj, hj'⟩ := List.mem_map.mp hk
            cases hj'
            exact absurd hj hnot
      · simp [Holding.next, Effect.claims, Write.keys, Relational.keys, newIdempotencyKey]
      · intro k hk hfin
        rw [Holding.next_held, List.mem_append] at hk
        rcases hk with hk | hk
        · exact (hclear.held k hk hfin).trans (by simp [Prod.Lex.toLex_lt_toLex])
        · obtain ⟨j, rfl⟩ := hkeys k (by simpa [Effect.claims] using hk)
          simp [rowRank, Prod.Lex.toLex_lt_toLex]
      · intro x hx k hk
        rw [Holding.next_own, List.mem_append, List.mem_singleton] at hx
        rcases hx with hx | rfl
        · exact (hclear.own x hx k hk).trans (by simp [Prod.Lex.toLex_lt_toLex])
        · obtain ⟨j, rfl⟩ := hkeys k hk
          simp [insertRank, Prod.Lex.toLex_lt_toLex]

end Keys

/-! ## Building blocks -/

section Parts

variable {α : Type} {h : BankingHolding}

variable {env : Env} {n : Nat} {e : Err} {Q : Account → BankingHolding → Prop} {ρ : ℕ ×ₗ ℤ}
    {postings : List PostingParams} {ids : List Int64}

/-- From `h` on the program takes its locks in the order. -/
abbrev Ascends (p : Tx α) (h : BankingHolding) : Prop := Orderly bankingPolicy p h fun _ _ => True

theorem ascends_answer {β : Type} {p : Tx α} {f : α → β} (hp : Ascends p h) :
    Ascends (p >>= fun a => pure (f a)) h :=
  .bind (hp.mono fun _ _ _ => trivial)

theorem ascends_execTx {fn : Tx α} (hfn : Ascends fn h) : Ascends (execTx fn) h :=
  Orderly.bind (hfn.mono fun _ _ _ => .bind (orderly_pass passes_deferredTriggers
    fun _ _ _ => trivial))

theorem orderly_createFinancialNotification {arg : FinancialNotificationParams}
    {Q : EmailJob × OutboxEvent → BankingHolding → Prop} (hQ : ∀ a h', h.Grows h' → Q a h') :
    Orderly bankingPolicy (createFinancialNotification env n arg) h Q := by
  refine .bind (orderly_fetch_readOnly fun _ user _ _ => ?_)
  refine .bind (orderly_pass (passes_audited (passes_insertRow rfl rfl) ?_) fun job h₁ hg₁ => ?_)
  · intro db k hk
    obtain ⟨j, _, rfl⟩ := List.mem_map.mp hk
    rfl
  refine .bind (orderly_pass (passes_audited (passes_insertRow rfl rfl) ?_)
    fun event h₂ hg₂ => hQ _ _ (hg₁.trans hg₂))
  intro db k hk
  obtain ⟨j, _, rfl⟩ := List.mem_map.mp hk
  rfl

theorem orderly_updateAccountRow {id : Int64} {f : Account → Except SqlError (Option Account)}
    (hheld : .account (.id id) ∈ h.held) (hQ : ∀ a h', h.Grows h' → Q a h') :
    Orderly bankingPolicy (fetch e (updateAccountRow id f)) h Q := by
  refine orderly_updateRow ?_ (fun _ _ => rfl) (fun db o r hfact _ => coversKeys_write rfl hfact)
    fun _ _ r h' _ hg => hQ r h' hg
  intro db o _ ho
  have hid : o.id = id := by simpa [Relational.keys, eq_comm] using Table.key_of_get ho
  simpa [pk, hid] using hheld

theorem orderly_updateBankingTransactionRow {id : UUID}
    {f : BankingTransaction → Except SqlError (Option BankingTransaction)}
    {Q : BankingTransaction → BankingHolding → Prop}
    (hheld : .bankingTransaction (.id id) ∈ h.held) (hQ : ∀ a h', h.Grows h' → Q a h') :
    Orderly bankingPolicy (fetch e (updateBankingTransactionRow id f)) h Q := by
  refine orderly_updateRow ?_ (fun _ _ => rfl) (fun db o r hfact _ => coversKeys_write rfl hfact)
    fun _ _ r h' _ hg => hQ r h' hg
  intro db o _ ho
  have hid : o.id = id := by simpa [Relational.keys, eq_comm] using Table.key_of_get ho
  simpa [pk, hid] using hheld

theorem Clear.of_le {σ : ℕ ×ₗ ℤ} (hclear : Clear ρ h) (hle : ρ ≤ σ) : Clear σ h :=
  ⟨fun k hk hfin => (hclear.held k hk hfin).trans_le hle,
    fun x hx k hk => (hclear.own x hx k hk).trans_le hle⟩

theorem Clear.lock {k : LockKey} (hclear : Clear (rowRank k) h) (hlt : rowRank k < ρ) :
    Clear ρ ⟨h.own, h.held ++ [k]⟩ := by
  refine ⟨fun j hj hfin => ?_, fun x hx j hj => (hclear.own x hx j hj).trans hlt⟩
  rcases List.mem_append.mp hj with hj | hj
  · exact (hclear.held j hj hfin).trans hlt
  · rw [List.mem_singleton.mp hj]
    exact hlt

theorem orderly_getAccountForUpdate {id : Int64} (hclear : Clear (toLex (3, id.toInt)) h)
    (hQ : ∀ a, a.id = id → Q a ⟨h.own, h.held ++ [.account (.id id)]⟩) :
    Orderly bankingPolicy (fetch e (getAccountForUpdate id)) h Q := by
  have hid : ∀ (db : DB) a, db.accounts.get (.id id) = some a → a.id = id := fun db a ha => by
    simpa [Relational.keys, eq_comm] using Table.key_of_get ha
  refine orderly_selectForUpdate (fun _ _ => by simp [Account.rowLock]) ?_ ?_
  · intro db a ha
    simpa [Account.rowLock, rowRank, hid db a ha] using hclear
  · intro db a ha
    simpa [Account.rowLock, hid db a ha] using hQ a (hid db a ha)

theorem orderly_lockTransferAccounts {a b : Int64} {Q : Account × Account → BankingHolding → Prop}
    (hne : a ≠ b) (hclear : Clear (toLex (2, 0)) h)
    (hQ : ∀ x y h', h.Grows h' → Clear (toLex (4, 0)) h' →
      x.rowLock ∈ h'.held → y.rowLock ∈ h'.held → Q (x, y) h') :
    Orderly bankingPolicy (lockTransferAccounts a b) h Q := by
  have horder : (if a > b then b else a).toInt < (if a > b then a else b).toInt := by
    split
    · rename_i hgt
      exact Int64.lt_iff_toInt_lt.mp hgt
    · rename_i hgt
      rw [gt_iff_lt, Int64.lt_iff_toInt_lt, not_lt] at hgt
      exact lt_of_le_of_ne hgt fun heq => hne (Int64.toInt_inj.mp heq)
  refine .bind (orderly_getAccountForUpdate
    (hclear.of_le (rank_lt (by decide)).le) fun first hfirst => ?_)
  have hfirst' : Clear (toLex (3, (if a > b then a else b).toInt))
      ⟨h.own, h.held ++ [.account (.id (if a > b then b else a))]⟩ :=
    Clear.lock (hclear.of_le (rank_lt (by decide)).le)
      (Prod.Lex.toLex_lt_toLex.mpr (Or.inr ⟨rfl, horder⟩))
  refine .bind (orderly_getAccountForUpdate hfirst' fun second hsecond => ?_)
  have hsecond' : Clear (toLex (4, 0)) ⟨h.own, h.held ++
      [.account (.id (if a > b then b else a))] ++ [.account (.id (if a > b then a else b))]⟩ :=
    Clear.lock (k := .account (.id (if a > b then a else b))) hfirst' (rank_lt (by decide))
  have hf : first.rowLock ∈ h.held ++ [.account (.id (if a > b then b else a))] ++
      [.account (.id (if a > b then a else b))] := by
    simp [Account.rowLock, hfirst]
  have hs : second.rowLock ∈ h.held ++ [.account (.id (if a > b then b else a))] ++
      [.account (.id (if a > b then a else b))] := by
    simp [Account.rowLock, hsecond]
  have hg : h.Grows ⟨h.own, h.held ++ [.account (.id (if a > b then b else a))] ++
      [.account (.id (if a > b then a else b))]⟩ := by
    intro k hk
    exact List.mem_append_left _ (List.mem_append_left _ hk)
  show Q _ _
  split
  · exact hQ first second _ hg hsecond' hf hs
  · exact hQ second first _ hg hsecond' hs hf

theorem orderly_createPostings {id : UUID} {Q : List LedgerPosting → BankingHolding → Prop}
    (hQ : ∀ ps h', h.Grows h' → Q ps h') :
    Orderly bankingPolicy (createPostings env id postings) h Q := by
  induction postings generalizing h Q with
  | nil => exact hQ [] h (.refl h)
  | cons posting postings ih =>
    refine .bind (orderly_pass (passes_insertRow rfl rfl) fun value h₁ hg₁ => ?_)
    exact .bind (ih fun ps h₂ hg₂ => hQ _ _ (hg₁.trans hg₂))

theorem orderly_createBalancedTransaction {arg : PendingTransactionParams}
    {Q : BankingTransaction × List LedgerPosting → BankingHolding → Prop}
    (hclear : Clear (toLex (4, 0)) h)
    (hQ : ∀ t ps h', h.Grows h' → .bankingTransaction (.id t.id) ∈ h'.held → Q (t, ps) h') :
    Orderly bankingPolicy (createBalancedTransaction env arg postings) h Q := by
  refine .bind (.refuse fun _ => .bind (.refuse fun _ =>
    Orderly.bind (.refuse fun _ => .bind (.refuse fun _ => ?_))))
  refine .bind (orderly_insertRow rfl ?_ fun h₁ hg₁ hkeys => ?_)
  · intro k hk
    obtain ⟨j, _, rfl⟩ := List.mem_map.mp hk
    exact hclear
  refine .bind (orderly_createPostings fun ps h₂ hg₂ => hQ _ ps h₂ (hg₁.trans hg₂) ?_)
  exact hg₂ _ (hkeys _ (List.mem_map_of_mem (Keyed.pk_mem _)))

theorem orderly_lockAccounts {Q : List Account → BankingHolding → Prop}
    (hsorted : ids.Pairwise fun a b => a.toInt < b.toInt)
    (hclear : ∀ id ∈ ids, Clear (toLex (3, id.toInt)) h) (hclear' : Clear (toLex (4, 0)) h)
    (hQ : ∀ accounts h', h.Grows h' → Clear (toLex (4, 0)) h' →
      (∀ id ∈ ids, .account (.id id) ∈ h'.held) → Q accounts h') :
    Orderly bankingPolicy (lockAccounts ids) h Q := by
  induction ids generalizing h Q with
  | nil => exact hQ [] h (.refl h) hclear' (by simp)
  | cons id ids ih =>
    rw [List.pairwise_cons] at hsorted
    rw [List.forall_mem_cons] at hclear
    refine .bind (orderly_getAccountForUpdate hclear.1 fun account _ => ?_)
    refine .bind (ih hsorted.2 ?_ ?_ fun accounts h' hg hc hids => ?_)
    · intro j hj
      exact Clear.lock (k := .account (.id id)) hclear.1
        (Prod.Lex.toLex_lt_toLex.mpr (Or.inr ⟨rfl, hsorted.1 j hj⟩))
    · exact Clear.lock (k := .account (.id id)) hclear.1
        (rank_lt (by decide))
    · refine hQ _ h' (fun k hk => hg k (List.mem_append_left _ hk)) hc ?_
      rw [List.forall_mem_cons]
      exact ⟨hg _ (List.mem_append_right _ List.mem_cons_self), hids⟩

theorem orderly_undoPostings {postings : List ReversalSourcePosting}
    {Q : List (Int64 × ReversedAccount) → BankingHolding → Prop}
    (hheld : ∀ p ∈ postings, ∀ id, p.customerAccountID = some id → .account (.id id) ∈ h.held)
    (hQ : ∀ us h', h.Grows h' → Q us h') :
    Orderly bankingPolicy (undoPostings env postings) h Q := by
  induction postings generalizing h Q with
  | nil => exact hQ [] h (.refl h)
  | cons p postings ih =>
    rw [List.forall_mem_cons] at hheld
    unfold undoPostings
    cases hp : p.owner with
    | settlement code => exact ih hheld.2 hQ
    | customer id =>
      have hid : .account (.id id) ∈ h.held :=
        hheld.1 id (by simp [ReversalSourcePosting.customerAccountID, hp])
      refine .bind (orderly_updateAccountRow hid fun updated h₁ hg₁ => ?_)
      refine .bind (ih (fun q hq i hi => hg₁ _ (hheld.2 q hq i hi)) fun others h₂ hg₂ => ?_)
      exact hQ _ _ (hg₁.trans hg₂)

theorem ascends_notifyReversal {arg : ReverseTransactionTxParams}
    {original reversal : BankingTransaction} {updated : List (Int64 × ReversedAccount)} :
    Ascends (notifyReversal env arg original reversal updated n ids) h := by
  induction ids generalizing h n with
  | nil => trivial
  | cons id ids ih =>
    refine .bind (.found fun entry _ => ?_)
    refine .bind (orderly_createFinancialNotification fun _ h₁ _ => ?_)
    exact ascends_answer ih

end Parts

/-! ## Transactions -/

section Transactions

variable {h : BankingHolding}

variable {env : Env} {e : Err}

theorem orderly_transferWithQueries {arg : TransferTxParams}
    {Q : TransferTxResult → BankingHolding → Prop} (hclear : Clear (toLex (2, 0)) h)
    (hQ : ∀ r h', h.Grows h' → Q r h') :
    Orderly bankingPolicy (transferWithQueries env arg) h Q := by
  refine .bind (.bind (orderly_fetch_readOnly fun _ located _ _ => ?_))
  refine .bind (orderly_fetch_readOnly fun _ recipient _ _ => ?_)
  refine .bind (.refuse fun hne => ?_)
  refine orderly_lockTransferAccounts hne hclear fun a b h₁ hg₁ hclear₁ ha hb => ?_
  refine .bind (.refuse fun _ => .bind (.refuse fun _ =>
    Orderly.bind (.refuse fun _ => .bind (.refuse fun _ => ?_))))
  refine .bind (.ofExcept fun limits _ => .bind (.refuse fun _ => ?_))
  refine .bind (orderly_fetch_readOnly fun _ fromLedger _ _ => ?_)
  refine .bind (orderly_tryRead fun dailyTotal => ?_)
  refine .bind (.refuse fun _ => ?_)
  refine .bind (orderly_fetch_readOnly fun _ toLedger _ _ => ?_)
  refine .bind (orderly_createBalancedTransaction hclear₁ fun t ps h₂ hg₂ ht => ?_)
  refine .bind (orderly_pass (passes_createAuditLog _ _) fun _ h₃ hg₃ => ?_)
  refine .bind (orderly_updateAccountRow (hg₃ _ (hg₂ _ ha)) fun fromUpdated h₄ hg₄ => ?_)
  refine .bind (orderly_updateAccountRow (hg₄ _ (hg₃ _ (hg₂ _ hb)))
    fun toUpdated h₅ hg₅ => ?_)
  refine .bind (orderly_updateBankingTransactionRow (hg₅ _ (hg₄ _ (hg₃ _ ht)))
    fun posted h₆ hg₆ => ?_)
  refine .bind (orderly_pass (passes_createAuditLog _ _) fun _ h₇ hg₇ => ?_)
  refine .bind (orderly_createFinancialNotification fun _ h₈ hg₈ => ?_)
  refine .bind (orderly_createFinancialNotification fun _ h₉ hg₉ => hQ _ _ ?_)
  exact hg₁.trans (hg₂.trans (hg₃.trans (hg₄.trans (hg₅.trans (hg₆.trans (hg₇.trans
    (hg₈.trans hg₉)))))))

theorem ascends_replayTransfer {arg : IdempotentTransferTxParams}
    (hheld : h = ⟨[], []⟩ ∨
      .idempotencyKey (.ownerOperation arg.username arg.idempotencyKey) ∈ h.held) :
    Ascends (replayTransfer arg) h := by
  refine .bind (orderly_fetch_readOnly fun db id hfact hid => ?_)
  obtain ⟨o, ho, rfl⟩ := Option.map_eq_some_iff.mp hid
  -- the row found is held already, or nothing is
  have hrow : h = ⟨[], []⟩ ∨ o.rowLock ∈ h.held := hheld.imp id fun hk => hfact _ _ o hk ho
  refine .bind (.fetch fun db' hfact' => ⟨⟨?_, ?_⟩, fun eff hs => ⟨?_, ?_⟩⟩)
  · intro k hk _ _
    rw [lockIdempotencyKey, List.mem_singleton] at hk
    rcases hrow with rfl | hrow
    · exact Or.inr (clear_nil _)
    · exact Or.inl (hk ▸ hrow)
  · intro eff hs x hx
    cases hs
    cases hx
  · -- only the lock of a row is taken, no entry of a key
    cases hs
    intro username key r hk hr
    rw [Holding.next_held, List.mem_append] at hk
    rcases hk with hk | hk
    · exact List.mem_append_left _ (hfact' username key r hk hr)
    · simp [Effect.claims, IdempotencyKey.rowLock] at hk
  · intro existing _
    refine .bind (.refuse fun _ => .bind (.refuse fun _ => ?_))
    exact .bind (.found fun _ _ => trivial)

theorem ascends_completeIdempotencyKey {arg : CompleteIdempotencyKeyParams}
    (hheld : .idempotencyKey (.ownerOperation arg.username arg.idempotencyKey) ∈ h.held) :
    Ascends (fetch e (completeIdempotencyKey arg)) h := by
  refine orderly_updateRow ?_ (fun _ _ => rfl) ?_ fun _ _ _ _ _ _ => trivial
  · intro db o hfact ho
    exact hfact _ _ o hheld ho
  · intro db o r hfact hupd username key o' hk ho'
    obtain ⟨_, hr⟩ := IdempotencyKey.complete_some hupd.new
    have hkeys : keys o = keys r := by rw [hr]; rfl
    have hlock : r.rowLock = o.rowLock := by rw [hr]; rfl
    have hrow : db.idempotencyKeys.get (pk r) = some o := by
      rw [show pk r = pk o by rw [hr]; rfl]
      exact Table.get_pk (Table.mem_of_get hupd.row)
    simp only [Write.apply, Table.amend_eq hrow, Table.get_update_same_keys hrow hkeys] at ho'
    apply List.mem_append_left
    split at ho'
    · cases ho'
      rw [hlock]
      exact hfact _ _ o hheld hupd.row
    · rename_i hnot
      rcases List.mem_append.mp hk with hk | hk
      · exact hfact _ _ o' hk ho'
      · simp only [Write.keys, hkeys, List.mem_map, List.mem_append, or_self,
          LockKey.idempotencyKey.injEq, exists_eq_right] at hk
        exact absurd hk hnot

theorem ascends_idempotentTransferTx {arg : IdempotentTransferTxParams} :
    Ascends (idempotentTransferTx env arg) ⟨[], []⟩ := by
  -- what follows once an expired row is out of the way
  have hreserve : ∀ h : BankingHolding, Clear (toLex (1, 0)) h → (h = ⟨[], []⟩ ∨
      .idempotencyKey (.ownerOperation arg.username arg.idempotencyKey) ∈ h.held) →
      Ascends (reserveKey env arg) h := by
    intro h hclear hheld
    refine .bind (orderly_createIdempotencyKey hclear hheld ?_ fun r h' hkey hclear' => ?_)
    · exact ascends_replayTransfer hheld
    · refine .bind (orderly_transferWithQueries hclear' fun result h₁ hg₁ => ?_)
      exact ascends_answer (ascends_completeIdempotencyKey (hg₁ _ hkey))
  refine ascends_execTx (.bind (orderly_readOnly fun expired => .bind ?_))
  cases expired with
  | none => exact hreserve _ (clear_nil _) (Or.inl rfl)
  | some id =>
    refine .bind (orderly_deleteIdempotencyKeyIf rfl ?_ fun o h' hcond hkeys hclear => ?_)
    · exact hreserve _ (clear_nil _) (Or.inl rfl)
    · exact hreserve h' hclear
        (Or.inr (hkeys _ (IdempotencyKey.expiredUnder_iff.mp hcond).1))

theorem ascends_settlementMovementTx {kind : SettlementKind} {arg : SettlementMovementParams} :
    Ascends (settlementMovementTx env kind arg) ⟨[], []⟩ := by
  refine ascends_execTx (.bind (orderly_fetch_readOnly fun _ located _ _ => ?_))
  refine .bind (orderly_getAccountForUpdate (clear_nil _) fun account ha => ?_)
  refine .bind (.refuse fun _ => .bind (.refuse fun _ => ?_))
  refine .bind (orderly_fetch_readOnly fun _ customerLedger _ _ => ?_)
  refine .bind (orderly_fetch_readOnly fun _ settlementLedger _ _ => ?_)
  refine .bind (orderly_createBalancedTransaction
    (Clear.lock (clear_nil _) (rank_lt (by decide))) fun t ps h₁ hg₁ ht => ?_)
  refine .bind (orderly_pass (passes_createAuditLog _ _) fun _ h₂ hg₂ => ?_)
  have haccount : .account (.id account.id) ∈ h₂.held := by
    rw [ha]
    exact hg₂ _ (hg₁ _ (List.mem_append_right _ List.mem_cons_self))
  have hsettle : ∀ Q, (∀ a h', h₂.Grows h' → Q a h') →
      Orderly bankingPolicy (settleAccountBalance env kind account.id arg.amount) h₂ Q := by
    intro Q hQ
    cases kind with
    | deposit => exact orderly_updateAccountRow haccount hQ
    | withdrawal => exact orderly_updateAccountRow haccount hQ
  refine .bind (hsettle _ fun updated h₃ hg₃ => ?_)
  refine .bind (orderly_updateBankingTransactionRow (hg₃ _ (hg₂ _ ht))
    fun posted h₄ hg₄ => ?_)
  refine .bind (orderly_pass (passes_createAuditLog _ _) fun _ h₅ hg₅ => ?_)
  exact .bind (orderly_createFinancialNotification fun _ h₆ _ => trivial)

theorem orderly_getAccountByPublicIDForUpdate {publicID : Option UUID}
    {Q : Account → BankingHolding → Prop} (hclear : ∀ ρ, Clear ρ h)
    (hQ : ∀ a, Q a ⟨h.own, h.held ++ [a.rowLock]⟩) :
    Orderly bankingPolicy (fetch e (getAccountByPublicIDForUpdate publicID)) h Q :=
  orderly_selectForUpdate (fun _ _ => by simp [Account.rowLock]) (fun _ _ _ => hclear _)
    fun _ a _ => hQ a

theorem ascends_setAccountStatusTx {arg : AccountStatusTxParams} :
    Ascends (setAccountStatusTx env arg) ⟨[], []⟩ := by
  refine ascends_execTx (.bind (orderly_getAccountByPublicIDForUpdate clear_nil
    fun account => ?_))
  refine .bind (.refuse fun _ => .bind (.refuse fun _ => ?_))
  refine .bind (orderly_updateAccountRow (List.mem_append_right _ List.mem_cons_self)
    fun updated h₁ _ => ?_)
  refine .bind (orderly_pass (passes_createAuditLog _ _) fun _ h₂ _ => ?_)
  exact .bind (orderly_createFinancialNotification fun _ h₃ _ => trivial)

theorem ascends_closeAccountTx {arg : CloseAccountTxParams} :
    Ascends (closeAccountTx env arg) ⟨[], []⟩ := by
  refine ascends_execTx (.bind (orderly_getAccountByPublicIDForUpdate clear_nil
    fun account => ?_))
  refine .bind (.refuse fun _ => .bind (.refuse fun _ =>
    Orderly.bind (.refuse fun _ => ?_)))
  refine .bind (orderly_updateAccountRow (List.mem_append_right _ List.mem_cons_self)
    fun closed h₁ _ => ?_)
  refine .bind (orderly_pass (passes_createAuditLog _ _) fun _ h₂ _ => ?_)
  exact .bind (orderly_createFinancialNotification fun _ h₃ _ => trivial)

theorem orderedAccountIDs_pairwise (ids : List Int64) :
    (orderedAccountIDs ids).Pairwise fun a b => a.toInt < b.toInt := by
  have htotal : Std.Total fun a b : Int64 => a ≤ b := ⟨fun a b => by
    simp only [Int64.le_iff_toInt_le]
    exact Int.le_total _ _⟩
  have htrans : IsTrans Int64 fun a b => a ≤ b := ⟨fun a b c hab hbc => by
    rw [Int64.le_iff_toInt_le] at *
    exact hab.trans hbc⟩
  have hsorted : (orderedAccountIDs ids).Pairwise fun a b => a ≤ b :=
    List.pairwise_insertionSort _ _
  have hnodup : (orderedAccountIDs ids).Nodup :=
    (List.perm_insertionSort _ _).nodup_iff.mpr (List.nodup_dedup ids)
  refine (hsorted.and hnodup).imp fun {a b} h => ?_
  exact lt_of_le_of_ne (Int64.le_iff_toInt_le.mp h.1) fun heq => h.2 (Int64.toInt_inj.mp heq)

theorem ascends_reverseTransactionTx {arg : ReverseTransactionTxParams} :
    Ascends (reverseTransactionTx env arg) ⟨[], []⟩ := by
  refine ascends_execTx (.bind (orderly_selectForUpdate
    (fun _ _ => by simp [BankingTransaction.rowLock]) (fun _ _ _ => clear_nil _)
    fun _ original _ => ?_))
  have hclear : ∀ ρ, toLex (2, 0) < ρ → Clear ρ ⟨[], [] ++ [original.rowLock]⟩ := fun ρ hρ =>
    Clear.lock (clear_nil _) hρ
  refine .bind (.refuse fun _ => .bind (.refuse fun _ =>
    Orderly.bind (.refuse fun _ => ?_)))
  refine .bind (orderly_readOnly fun postings => ?_)
  refine .bind (.refuse fun _ => ?_)
  refine .bind (.bind (orderly_lockAccounts (orderedAccountIDs_pairwise _)
    (fun id _ => hclear _ (rank_lt (by decide))) (hclear _ (rank_lt (by decide)))
    fun accounts h₁ hg₁ hclear₁ hids => ?_))
  refine .bind (.refuse fun _ => ?_)
  refine .bind (orderly_createBalancedTransaction hclear₁ fun reversal ps h₂ hg₂ ht => ?_)
  refine .bind (orderly_undoPostings ?_ fun updated h₃ hg₃ => ?_)
  · intro p hp id hid
    refine hg₂ _ (hids id ?_)
    simp only [orderedAccountIDs, List.mem_insertionSort, List.mem_dedup, List.mem_filterMap]
    exact ⟨p, hp, hid⟩
  refine .bind (orderly_updateBankingTransactionRow (hg₃ _ ht) fun posted h₄ hg₄ => ?_)
  have horiginal : original.rowLock ∈ h₄.held :=
    hg₄ _ (hg₃ _ (hg₂ _ (hg₁ _ (List.mem_append_right _ List.mem_cons_self))))
  refine .bind (orderly_updateBankingTransactionRow horiginal fun reversed h₅ _ => ?_)
  refine .bind (orderly_pass (passes_createAuditLog _ _) fun _ h₆ _ => ?_)
  exact ascends_answer ascends_notifyReversal

theorem ascends_createAccountAttempt {arg : CreateAccountParams} :
    Ascends (createAccountAttempt env arg) ⟨[], []⟩ := by
  refine ascends_execTx (.bind (orderly_insertRow rfl (fun _ _ => clear_nil _)
    fun h₁ _ _ => ?_))
  refine .bind (orderly_pass (passes_insertRow rfl rfl) fun _ h₂ _ => ?_)
  exact .bind (orderly_pass (passes_createAuditLog _ _) fun _ h₃ _ => trivial)

theorem ascends_auditTransferFailureTx {arg : TransferTxParams} :
    Ascends (auditTransferFailureTx env arg e) ⟨[], []⟩ := by
  refine ascends_execTx (.bind (orderly_pass (passes_createAuditLog _ _) fun _ h₁ _ => ?_))
  exact .bind (orderly_createFinancialNotification fun _ h₂ _ => trivial)

theorem passes_insertBeneficiary (env : Env) (arg : CreateBeneficiaryParams) :
    Passes (insertBeneficiary env arg) := by
  have hexec : ∀ own db eff, (insertBeneficiary env arg).exec own db = .ok eff →
      (createBeneficiary env arg).exec own db = .ok eff := by
    intro own db eff hs
    simp only [insertBeneficiary] at hs
    cases hc : (createBeneficiary env arg).exec own db with
    | error e => simp [hc, Except.mapError] at hs
    | ok eff' => simpa [hc, Except.mapError] using hs
  have hpass : Passes (createBeneficiary env arg) := passes_insertRow rfl rfl
  refine ⟨?_, fun own db eff hs => hpass.writes _ _ _ (hexec own db eff hs),
    fun own db eff hs => hpass.spares _ _ _ (hexec own db eff hs)⟩
  intro db k hk hfin
  obtain ⟨j, _, rfl⟩ := List.mem_map.mp hk
  cases hfin

theorem ascends_createBeneficiaryTx {arg : CreateBeneficiaryTxParams} :
    Ascends (createBeneficiaryTx env arg) ⟨[], []⟩ := by
  refine ascends_execTx (.bind (orderly_fetch_readOnly fun _ located _ _ => ?_))
  refine .bind (orderly_getAccountForUpdate (clear_nil _) fun account _ => ?_)
  refine .bind (.refuse fun _ => ?_)
  exact .bind (orderly_pass (passes_insertBeneficiary _ _) fun _ h₁ _ => trivial)

theorem ascends_bankingTx (t : BankingTx) : Ascends t.body ⟨[], []⟩ := by
  cases t with
  | createAccount env arg => exact ascends_answer ascends_createAccountAttempt
  | settlementMovement env kind arg =>
    exact ascends_answer ascends_settlementMovementTx
  | transfer env arg =>
    refine .bind (Orderly.mono (ascends_execTx ?_) fun _ _ _ => trivial)
    exact orderly_transferWithQueries (clear_nil _) fun _ _ _ => trivial
  | idempotentTransfer env arg =>
    exact ascends_answer ascends_idempotentTransferTx
  | auditTransferFailure env arg e =>
    exact ascends_answer ascends_auditTransferFailureTx
  | setAccountStatus env arg =>
    exact ascends_answer ascends_setAccountStatusTx
  | reverseTransaction env arg =>
    exact ascends_answer ascends_reverseTransactionTx
  | closeAccount env arg => exact ascends_answer ascends_closeAccountTx
  | auditOperatorFailure env arg =>
    exact .bind (orderly_pass (passes_createAuditLog _ _) fun _ _ _ => trivial)

end Transactions

/-! ## Runs -/

/-- The transactions of the operations and of saving a beneficiary. -/
inductive LockingTx
  | banking (t : BankingTx)
  | createBeneficiary (env : Env) (arg : CreateBeneficiaryTxParams)

inductive LockingOp
  | banking (op : BankingOp)
  | createBeneficiaryTx (arg : CreateBeneficiaryTxParams) (env : Env)

def LockingTx.body : LockingTx → Tx Response
  | banking t => t.body
  | createBeneficiary env arg => do pure (.beneficiary (← Monierave.createBeneficiaryTx env arg))

def LockingOp.job : LockingOp → Job LockingTx Response Err
  | banking op => op.job.map .banking
  | createBeneficiaryTx arg env => .tx (.createBeneficiary env arg) .done

/-- All operations that lock rows of accounts, banking transactions and idempotency
keys. -/
def lockingSystem : System Write DB LockKey Err LockingTx Response LockingOp where
  body := LockingTx.body
  job := LockingOp.job

abbrev LockingAction := Action Err LockingOp

def lockingRun (db₀ : DB) (acts : List LockingAction) :
    State Write DB LockKey Err LockingTx Response LockingOp :=
  lockingSystem.run (State.init db₀) acts

theorem ascends_lockingTx (t : LockingTx) : Ascends t.body ⟨[], []⟩ := by
  cases t with
  | banking t => exact ascends_bankingTx t
  | createBeneficiary env arg =>
    exact ascends_answer ascends_createBeneficiaryTx

/-- However many operations run side by side and however their statements interleave,
no worker ever waits, directly or through others, for itself. -/
theorem lockingRun_no_deadlock (db₀ : DB) (acts : List LockingAction) (w : Nat) :
    ¬ Relation.TransGen (WaitsFor (lockingRun db₀ acts)) w w :=
  not_cyclic (bankingPolicy.observed_run ascends_lockingTx db₀ acts) w

end Monierave
