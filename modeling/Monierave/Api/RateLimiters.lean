import Monierave.Collections.Maps
import Monierave.Counting.Windows

/-! # The rate limiters

The shared limiter runs a script on a key of Redis that expires.
-/

namespace Monierave

open Collections Counting

/-- What `Allow` returns: its decision and the time until the window ends, or an error. -/
inductive AllowAnswer
  | answered (allowed : Bool) (retryAfter : Int)
  | failed (message : String)
  deriving DecidableEq

def AllowAnswer.decision : AllowAnswer → Except String Bool
  | answered allowed _ => .ok allowed
  | failed message => .error message

def AllowAnswer.allowed : AllowAnswer → Bool
  | answered allowed _ => allowed
  | failed _ => false

theorem AllowAnswer.allowed_of_decision {a : AllowAnswer} {b : Bool} (h : a.decision = .ok b) :
    a.allowed = b := by
  cases a <;> cases h
  rfl

def AllowAnswer.isAnswered : AllowAnswer → Bool
  | answered _ _ => true
  | failed _ => false

inductive RateCall
  | allow (key : String) (limit window : Int)
  | reset (key : String)
  deriving DecidableEq

structure TimedCall where
  now : Int
  call : RateCall
  deriving DecidableEq

abbrev MemoryRateLimitEntry := Counter

structure MemoryRateLimiter where
  entries : Map String MemoryRateLimitEntry
  maxEntries : ℕ

namespace MemoryRateLimiter

def invalidConfiguration : String := "invalid local rate-limit configuration"

def capacityReached : String := "local rate limiter capacity reached"

def isUnexpired (now : Int) (_ : String) (entry : MemoryRateLimitEntry) : Bool :=
  now < entry.expiresAt

def answer (now limit : Int) (entry : MemoryRateLimitEntry) : AllowAnswer :=
  .answered (entry.count ≤ limit) (max 0 (entry.expiresAt - now))

def removeExpired (now : Int) (entries : Map String MemoryRateLimitEntry) :
    Map String MemoryRateLimitEntry :=
  Map.keep (isUnexpired now) entries

def withoutExpired (now : Int) (key : String) (entries : Map String MemoryRateLimitEntry) :
    Map String MemoryRateLimitEntry :=
  match entries.lookup key with
  | some entry => if now < entry.expiresAt then entries else entries.erase key
  | none => entries

def allow (now : Int) (key : String) (limit window : Int) (limiter : MemoryRateLimiter) :
    MemoryRateLimiter × AllowAnswer :=
  if key = "" ∨ limit ≤ 0 ∨ window ≤ 0 then (limiter, .failed invalidConfiguration)
  else
    let entries := withoutExpired now key limiter.entries
    match entries.lookup key with
    | some entry =>
      let entry := { entry with count := entry.count + 1 }
      ({ limiter with entries := entries.insert key entry }, answer now limit entry)
    | none =>
      let entries := if limiter.maxEntries ≤ Map.size entries then removeExpired now entries
        else entries
      if limiter.maxEntries ≤ Map.size entries then
        ({ limiter with entries := entries }, .failed capacityReached)
      else
        let entry : MemoryRateLimitEntry := ⟨0 + 1, now + window⟩
        ({ limiter with entries := entries.insert key entry }, answer now limit entry)

def reset (key : String) (limiter : MemoryRateLimiter) : MemoryRateLimiter :=
  { limiter with entries := limiter.entries.erase key }

/-- A call, and the answer to an `Allow`. -/
def serve (limiter : MemoryRateLimiter) (c : TimedCall) : MemoryRateLimiter × Option AllowAnswer :=
  match c.call with
  | .allow key limit window =>
    let (limiter, answer) := limiter.allow c.now key limit window
    (limiter, some answer)
  | .reset key => (limiter.reset key, none)

def run (limiter : MemoryRateLimiter) (calls : List TimedCall) : MemoryRateLimiter :=
  calls.foldl (fun limiter c => (limiter.serve c).1) limiter

def answers : MemoryRateLimiter → List TimedCall → List (Option AllowAnswer)
  | _, [] => []
  | limiter, c :: calls => (limiter.serve c).2 :: answers (limiter.serve c).1 calls

/-! ### One call -/

variable {limiter : MemoryRateLimiter} (now : Int) (key : String) {other : String}
  {limit window : Int} (entries : Map String MemoryRateLimitEntry)
  {entries' : Map String MemoryRateLimitEntry}

def Kept (now : Int) (entries entries' : Map String MemoryRateLimitEntry) (key : String) : Prop :=
  entries'.lookup key = entries.lookup key ∨
    entries'.lookup key = Counter.live now (entries.lookup key)

theorem lookup_withoutExpired :
    (withoutExpired now key entries).lookup key = Counter.live now (entries.lookup key) := by
  unfold withoutExpired
  cases h : entries.lookup key with
  | none => rw [h]; rfl
  | some entry =>
    dsimp only
    split_ifs with hlive
    · rw [h, Counter.live_some_of_lt hlive]
    · rw [AList.lookup_erase, Counter.live_some_of_le (not_lt.mp hlive)]

variable {key} in
theorem lookup_withoutExpired_of_ne (h : other ≠ key) :
    (withoutExpired now key entries).lookup other = entries.lookup other := by
  unfold withoutExpired
  split
  · split_ifs
    · rfl
    · exact AList.lookup_erase_ne h
  · rfl

theorem lookup_removeExpired :
    (removeExpired now entries).lookup key = Counter.live now (entries.lookup key) :=
  Map.lookup_keep

/-- What a call of `Allow` can do. -/
inductive Allowed (limiter : MemoryRateLimiter) (now : Int) (key : String) (limit window : Int) :
    MemoryRateLimiter × AllowAnswer → Prop
  | invalid (h : key = "" ∨ limit ≤ 0 ∨ window ≤ 0) :
      Allowed limiter now key limit window (limiter, .failed invalidConfiguration)
  | full {entries : Map String MemoryRateLimitEntry}
      (hkept : ∀ k, Kept now limiter.entries entries k)
      (hsize : Map.size entries ≤ Map.size limiter.entries)
      (hfull : limiter.maxEntries ≤ Map.size (removeExpired now limiter.entries)) :
      Allowed limiter now key limit window
        ({ limiter with entries := entries }, .failed capacityReached)
  | counted {entries : Map String MemoryRateLimitEntry} {entry : MemoryRateLimitEntry}
      (hvalid : key ≠ "" ∧ 0 < limit ∧ 0 < window)
      (hentry : entry = Counter.hit window now (limiter.entries.lookup key))
      (hkept : ∀ k, k ≠ key → Kept now limiter.entries entries k)
      (hsize : Map.size (entries.insert key entry) ≤
        max limiter.maxEntries (Map.size limiter.entries)) :
      Allowed limiter now key limit window
        ({ limiter with entries := entries.insert key entry }, answer now limit entry)

theorem kept_withoutExpired (k : String) : Kept now entries (withoutExpired now key entries) k := by
  by_cases hk : k = key
  · subst hk
    exact Or.inr (lookup_withoutExpired now k entries)
  · exact Or.inl (lookup_withoutExpired_of_ne now entries hk)

variable {now key entries} in
theorem Kept.removeExpired (h : Kept now entries entries' key) :
    Kept now entries (removeExpired now entries') key := by
  refine Or.inr ?_
  rw [lookup_removeExpired]
  rcases h with h | h
  · rw [h]
  · rw [h, Counter.live_live le_rfl]

theorem size_withoutExpired_le : Map.size (withoutExpired now key entries) ≤ Map.size entries := by
  unfold withoutExpired
  split
  · split_ifs
    · exact le_rfl
    · exact Map.size_erase_le
  · exact le_rfl

theorem size_removeExpired_withoutExpired_le :
    Map.size (removeExpired now (withoutExpired now key entries)) ≤
      Map.size (removeExpired now entries) := by
  unfold withoutExpired
  split
  · split_ifs
    · exact le_rfl
    · exact Map.size_keep_erase_le
  · exact le_rfl

theorem allowed_allow (limiter : MemoryRateLimiter) (limit window : Int) :
    Allowed limiter now key limit window (limiter.allow now key limit window) := by
  have hlookup := lookup_withoutExpired now key limiter.entries
  have hkept := kept_withoutExpired now key limiter.entries
  have hsize := size_withoutExpired_le now key limiter.entries
  have hswept := size_removeExpired_withoutExpired_le now key limiter.entries
  unfold allow
  split_ifs with hvalid
  · exact .invalid hvalid
  have hvalid : key ≠ "" ∧ 0 < limit ∧ 0 < window := by
    simpa only [not_or, not_le] using hvalid
  dsimp only
  generalize withoutExpired now key limiter.entries = rest at hlookup hkept hsize hswept
  cases hlive : Counter.live now (limiter.entries.lookup key) with
  | some entry =>
    have hhit : Counter.hit window now (limiter.entries.lookup key) =
        { entry with count := entry.count + 1 } := by rw [Counter.hit, hlive]
    have hmem : key ∈ rest := AList.lookup_isSome.mp (by rw [hlookup, hlive]; rfl)
    rw [hlookup, hlive]
    refine .counted hvalid hhit.symm (fun k _ => hkept k) ?_
    rw [Map.size_insert_of_mem hmem]
    exact hsize.trans (le_max_right _ _)
  | none =>
    have hhit : Counter.hit window now (limiter.entries.lookup key) = ⟨0 + 1, now + window⟩ := by
      rw [Counter.hit, hlive]
    rw [hlookup, hlive]
    dsimp only
    by_cases hcapacity : limiter.maxEntries ≤ Map.size rest
    · rw [if_pos hcapacity]
      split_ifs with hfull
      · exact .full (fun k => (hkept k).removeExpired) (Map.size_keep_le.trans hsize)
          (hfull.trans hswept)
      · refine .counted hvalid hhit.symm (fun k _ => (hkept k).removeExpired) ?_
        have hinsert := Map.size_insert_le (k := key) (m := removeExpired now rest)
          (v := ⟨0 + 1, now + window⟩)
        omega
    · rw [if_neg hcapacity, if_neg hcapacity]
      refine .counted hvalid hhit.symm (fun k _ => hkept k) ?_
      have hinsert := Map.size_insert_le (k := key) (m := rest) (v := ⟨0 + 1, now + window⟩)
      omega

/-! ### The entries over a run -/

variable {now key entries} {c : TimedCall} {calls : List TimedCall}

theorem serve_allow : limiter.serve ⟨now, .allow key limit window⟩ =
    ((limiter.allow now key limit window).1, some (limiter.allow now key limit window).2) := rfl

theorem serve_reset : limiter.serve ⟨now, .reset key⟩ = (limiter.reset key, none) := rfl

def Bounded (limiter : MemoryRateLimiter) : Prop := Map.size limiter.entries ≤ limiter.maxEntries

theorem Bounded.serve (h : limiter.Bounded) (c : TimedCall) : (limiter.serve c).1.Bounded := by
  obtain ⟨now, call⟩ := c
  cases call with
  | allow key limit window =>
    rw [serve_allow]
    have hallow := allowed_allow now key limiter limit window
    generalize limiter.allow now key limit window = result at hallow
    cases hallow with
    | invalid => exact h
    | full _ hsize _ => exact hsize.trans h
    | counted _ _ _ hsize => exact hsize.trans (max_le le_rfl h)
  | reset key => exact Map.size_erase_le.trans h

theorem maxEntries_serve (limiter : MemoryRateLimiter) (c : TimedCall) :
    (limiter.serve c).1.maxEntries = limiter.maxEntries := by
  obtain ⟨now, call⟩ := c
  cases call with
  | allow key limit window =>
    rw [serve_allow]
    have hallow := allowed_allow now key limiter limit window
    generalize limiter.allow now key limit window = result at hallow
    cases hallow <;> rfl
  | reset key => rfl

theorem kept_allow_of_ne (hother : other ≠ key) :
    Kept now limiter.entries (limiter.allow now key limit window).1.entries other := by
  have hallow := allowed_allow now key limiter limit window
  generalize limiter.allow now key limit window = result at hallow
  cases hallow with
  | invalid => exact Or.inl rfl
  | full hkept _ _ => exact hkept other
  | counted _ _ hkept _ =>
    unfold Kept
    dsimp only
    rw [AList.lookup_insert_ne hother]
    exact hkept other hother

theorem lookup_serve (limiter : MemoryRateLimiter) (hreset : c.call ≠ .reset key) :
    Kept c.now limiter.entries (limiter.serve c).1.entries key ∨
      ∃ window, (limiter.serve c).1.entries.lookup key =
        some (Counter.hit window c.now (limiter.entries.lookup key)) := by
  obtain ⟨now, call⟩ := c
  cases call with
  | allow k limit window =>
    rw [serve_allow]
    by_cases hk : key = k
    · subst hk
      have hallow := allowed_allow now key limiter limit window
      generalize limiter.allow now key limit window = result at hallow
      cases hallow with
      | invalid => exact Or.inl (Or.inl rfl)
      | full hkept _ _ => exact Or.inl (hkept key)
      | counted _ hentry _ _ => exact Or.inr ⟨window, by rw [AList.lookup_insert, hentry]⟩
    · exact Or.inl (kept_allow_of_ne hk)
  | reset k =>
    have hk : key ≠ k := by
      rintro rfl
      exact hreset rfl
    exact Or.inl (Or.inl (AList.lookup_erase_ne hk))

theorem run_append (limiter : MemoryRateLimiter) (calls calls' : List TimedCall) :
    limiter.run (calls ++ calls') = (limiter.run calls).run calls' :=
  List.foldl_append

theorem bounded_run (h : limiter.Bounded) (calls : List TimedCall) : (limiter.run calls).Bounded := by
  induction calls generalizing limiter with
  | nil => exact h
  | cons c calls ih => exact ih (h.serve c)

theorem maxEntries_run (limiter : MemoryRateLimiter) (calls : List TimedCall) :
    (limiter.run calls).maxEntries = limiter.maxEntries := by
  induction calls generalizing limiter with
  | nil => rfl
  | cons c calls ih => exact (ih _).trans (maxEntries_serve limiter c)

/-! ### The calls of one key -/

/-- A call of `Allow` for a key, as its caller sees it, and whether it made a new entry. -/
def hitOf (key : String) (limiter : MemoryRateLimiter) (c : TimedCall) : Option Hit :=
  match c.call with
  | .allow k limit window =>
    if k = key then
      let answer := (limiter.allow c.now k limit window).2
      some ⟨c.now, answer.isAnswered && (Counter.live c.now (limiter.entries.lookup key)).isNone,
        answer.allowed⟩
    else none
  | .reset _ => none

/-- The calls of `Allow` for a key in a sequence of calls. -/
def hits (key : String) : MemoryRateLimiter → List TimedCall → List Hit
  | _, [] => []
  | limiter, c :: calls => (hitOf key limiter c).toList ++ hits key (limiter.serve c).1 calls

theorem time_of_mem_hits {h : Hit} (hmem : h ∈ hits key limiter calls) :
    ∃ c ∈ calls, h.time = c.now := by
  induction calls generalizing limiter with
  | nil => cases hmem
  | cons c calls ih =>
    rcases List.mem_append.mp hmem with hmem | hmem
    · refine ⟨c, List.mem_cons_self, ?_⟩
      unfold hitOf at hmem
      split at hmem
      · split_ifs at hmem
        · rw [Option.toList_some, List.mem_singleton] at hmem
          rw [hmem]
        · cases hmem
      · cases hmem
    · obtain ⟨c', hc', htime⟩ := ih hmem
      exact ⟨c', List.mem_cons_of_mem _ hc', htime⟩

theorem Kept.logged {n : ℕ} {log : List Hit} (h : Kept now entries entries' key)
    (hlater : ∀ x ∈ log, now ≤ x.time) (hlog : Logged n window (entries'.lookup key) log) :
    Logged n window (entries.lookup key) log := by
  rcases h with h | h
  · rwa [← h]
  · rw [h] at hlog
    exact .dropped now hlater hlog

structure Uses (key : String) (limit window : Int) (calls : List TimedCall) : Prop where
  allow : ∀ c ∈ calls, ∀ limit' window', c.call = .allow key limit' window' →
    limit' = limit ∧ window' = window
  reset : ∀ c ∈ calls, c.call ≠ .reset key

theorem Uses.tail (h : Uses key limit window (c :: calls)) : Uses key limit window calls :=
  ⟨fun c' hc' => h.allow c' (List.mem_cons_of_mem _ hc'),
    fun c' hc' => h.reset c' (List.mem_cons_of_mem _ hc')⟩

theorem logged_hits (huses : Uses key limit window calls)
    (hclock : calls.Pairwise fun c c' => c.now ≤ c'.now) :
    Logged limit.toNat window (limiter.entries.lookup key) (hits key limiter calls) := by
  induction calls generalizing limiter with
  | nil => exact .nil _
  | cons c calls ih =>
    obtain ⟨hlater, hclock⟩ := List.pairwise_cons.mp hclock
    have hlater : ∀ h ∈ hits key (limiter.serve c).1 calls, c.now ≤ h.time := by
      intro h hmem
      obtain ⟨c', hc', htime⟩ := time_of_mem_hits hmem
      rw [htime]
      exact hlater c' hc'
    have hrest : Logged limit.toNat window ((limiter.serve c).1.entries.lookup key)
        (hits key (limiter.serve c).1 calls) := ih huses.tail hclock
    obtain ⟨now, call⟩ := c
    rw [hits]
    cases call with
    | reset k =>
      have hk : key ≠ k := by
        rintro rfl
        exact huses.reset _ List.mem_cons_self rfl
      rw [serve_reset, reset, AList.lookup_erase_ne hk] at hrest
      exact hrest
    | allow k limit' window' =>
      by_cases hk : k = key
      · subst hk
        obtain ⟨rfl, rfl⟩ := huses.allow _ List.mem_cons_self _ _ rfl
        rw [serve_allow] at hrest hlater ⊢
        simp only [hitOf, if_true, Option.toList_some, List.singleton_append]
        have hallow := allowed_allow now k limiter limit' window'
        generalize limiter.allow now k limit' window' = result at hallow hrest hlater
        cases hallow with
        | invalid => exact .turnedAway now hlater hrest
        | full hkept _ _ => exact .turnedAway now hlater ((hkept k).logged hlater hrest)
        | counted hvalid hentry _ _ =>
          subst hentry
          rw [AList.lookup_insert] at hrest
          have hcount : ∀ n : ℕ, decide ((n : Int) ≤ limit') = decide (n ≤ limit'.toNat) := by
            intro n
            rw [decide_eq_decide]
            omega
          have hlog := Logged.counted (c := limiter.entries.lookup k) now hlater hrest
          rw [← hcount] at hlog
          exact hlog
      · have hnone : hitOf key limiter ⟨now, .allow k limit' window'⟩ = none := if_neg hk
        rw [hnone, Option.toList_none, List.nil_append]
        exact (kept_allow_of_ne fun h => hk h.symm).logged hlater hrest

/-! ### The bounds -/

theorem lookup_serve_unexpired {entry : MemoryRateLimitEntry}
    (hentry : limiter.entries.lookup key = some entry) (hlive : c.now < entry.expiresAt)
    (hreset : c.call ≠ .reset key) :
    ∃ entry', (limiter.serve c).1.entries.lookup key = some entry' ∧
      entry'.expiresAt = entry.expiresAt := by
  have hlive := Counter.live_some_of_lt hlive
  rcases lookup_serve limiter hreset with hkept | ⟨window, hhit⟩
  · refine ⟨entry, ?_, rfl⟩
    rcases hkept with h | h
    · rw [h, hentry]
    · rw [h, hentry, hlive]
  · rw [hentry, Counter.hit, hlive] at hhit
    exact ⟨_, hhit, rfl⟩

theorem size_of_capacityReached (h : limiter.Bounded)
    (hanswer : (limiter.serve c).2 = some (.failed capacityReached)) :
    Map.size (Map.keep (isUnexpired c.now) limiter.entries) = limiter.maxEntries := by
  obtain ⟨now, call⟩ := c
  cases call with
  | allow key limit window =>
    rw [serve_allow] at hanswer
    have hallow := allowed_allow now key limiter limit window
    generalize limiter.allow now key limit window = result at hallow hanswer
    cases hallow with
    | invalid =>
      have hne : invalidConfiguration ≠ capacityReached := by decide
      exact absurd (by simpa using hanswer) hne
    | full _ _ hfull => exact Nat.le_antisymm (Map.size_keep_le.trans h) hfull
    | counted => cases hanswer
  | reset key => cases hanswer

def empty (maxEntries : ℕ) : MemoryRateLimiter := ⟨∅, maxEntries⟩

theorem bounded_empty (maxEntries : ℕ) : (empty maxEntries).Bounded := Nat.zero_le _

end MemoryRateLimiter

open MemoryRateLimiter

/-- The limiter in memory over any sequence of calls. It never holds more entries than its
bound, an entry that has not expired goes only if its key is reset, and a call is turned
away only if as many such entries as the bound are there. For a key with one limit and one
window that is not reset, each new entry is followed by at most the limit of allowed calls
within the window, and no interval of the window's length has more than twice the limit. -/
theorem memoryRateLimiter_bounds (maxEntries : ℕ) {calls : List TimedCall}
    (hclock : calls.Pairwise fun c c' => c.now ≤ c'.now) :
    (∀ pre post, calls = pre ++ post →
        Map.size ((empty maxEntries).run pre).entries ≤ maxEntries) ∧
      (∀ pre c post, calls = pre ++ c :: post → ∀ key entry,
        ((empty maxEntries).run pre).entries.lookup key = some entry → c.now < entry.expiresAt →
          c.call ≠ .reset key → ∃ entry',
            ((empty maxEntries).run (pre ++ [c])).entries.lookup key = some entry' ∧
              entry'.expiresAt = entry.expiresAt) ∧
      (∀ pre c post, calls = pre ++ c :: post →
        (((empty maxEntries).run pre).serve c).2 = some (.failed capacityReached) →
          Map.size (Map.keep (isUnexpired c.now) ((empty maxEntries).run pre).entries) =
            maxEntries) ∧
      ∀ key limit window, Uses key limit window calls →
        (∀ pre h post, hits key (empty maxEntries) calls = pre ++ h :: post → h.opened = true →
          passedBefore (h.time + window) (h :: post) ≤ limit.toNat) ∧
        ∀ s, passedWithin s (s + window) (hits key (empty maxEntries) calls) ≤
          2 * limit.toNat := by
  have hbounded := bounded_run (bounded_empty maxEntries)
  have hmax : ∀ pre, ((empty maxEntries).run pre).maxEntries = maxEntries :=
    fun pre => maxEntries_run _ pre
  refine ⟨?_, ?_, ?_, ?_⟩
  · intro pre _ _
    exact (hbounded pre).trans_eq (hmax pre)
  · intro pre c _ _ key entry hentry hlive hreset
    rw [run_append]
    exact lookup_serve_unexpired hentry hlive hreset
  · intro pre c _ _ hanswer
    exact (size_of_capacityReached (hbounded pre) hanswer).trans (hmax pre)
  · intro key limit window huses
    have hlog : Logged limit.toNat window ((empty maxEntries).entries.lookup key)
        (hits key (empty maxEntries) calls) := logged_hits huses hclock
    exact ⟨fun pre h post hsplit hopened => hlog.passedBefore_of_opened hsplit hopened,
      hlog.passedWithin_le⟩

def burst : List TimedCall :=
  [0, 9, 9, 9, 10, 10, 10].map fun now => ⟨now, .allow "login" 2 10⟩

theorem memoryRateLimiter_bounds_burst :
    passedWithin 1 (1 + 10) (hits "login" (empty 1) burst) = 3 ∧
      passedWithin 1 (1 + 10) (hits "login" (empty 1) burst) ≤ 2 * Int.toNat 2 := by
  refine ⟨by decide +kernel, ?_⟩
  have hclock : burst.Pairwise fun c c' => c.now ≤ c'.now := by decide
  have huses : Uses "login" 2 10 burst := by
    refine ⟨?_, by decide⟩
    intro c hc limit window hcall
    obtain ⟨now, _, rfl⟩ := List.mem_map.mp hc
    cases hcall
    exact ⟨rfl, rfl⟩
  exact ((memoryRateLimiter_bounds 1 hclock).2.2.2 "login" 2 10 huses).2 1

structure RedisKey where
  value : ℕ
  expiresAt : Option Int
  deriving DecidableEq

abbrev Redis := String → Option RedisKey

namespace Redis

def get (now : Int) (name : String) (store : Redis) : Option RedisKey :=
  (store name).filter fun k => k.expiresAt.all (now < ·)

def set (name : String) (k : Option RedisKey) (store : Redis) : Redis :=
  Function.update store name k

/-- The command `INCR`: a new key starts at zero and does not expire. -/
def incr (now : Int) (name : String) (store : Redis) : Redis × ℕ :=
  match get now name store with
  | some k => (set name (some { k with value := k.value + 1 }) store, k.value + 1)
  | none => (set name (some ⟨1, none⟩) store, 1)

/-- The command `PEXPIRE`. A time that has passed deletes the key. -/
def pexpire (now : Int) (name : String) (millis : Int) (store : Redis) : Redis :=
  match get now name store with
  | some k =>
    if millis ≤ 0 then set name none store
    else set name (some { k with expiresAt := some (now + millis * 1000000) }) store
  | none => store

def del (name : String) (store : Redis) : Redis := set name none store

/-- The command `PTTL`: the whole milliseconds that are left to a key. -/
def pttl (now : Int) (name : String) (store : Redis) : Int :=
  match get now name store with
  | some k => k.expiresAt.elim (-1) fun expiresAt => (expiresAt - now) / 1000000
  | none => -2

/-- The script of `NewRedisRateLimiter`. -/
def rateScript (now : Int) (name : String) (millis limit : Int) (store : Redis) :
    Redis × ℕ × Int :=
  let (store, current) := incr now name store
  let store := if current = 1 then pexpire now name millis store else store
  let ttl := pttl now name store
  if (current : Int) > limit then (store, 0, ttl) else (store, 1, ttl)

def rateName (key : String) : String := "monierave:rate:" ++ key

def milliseconds (window : Int) : Int := window.tdiv 1000000

def allow (now : Int) (key : String) (limit window : Int) (store : Redis) : Redis × AllowAnswer :=
  let (store, result, ttl) := rateScript now (rateName key) (milliseconds window) limit store
  (store, .answered (result = 1) (max 0 ttl * 1000000))

def serve (store : Redis) (c : TimedCall) : Redis × Option AllowAnswer :=
  match c.call with
  | .allow key limit window =>
    let (store, answer) := allow c.now key limit window store
    (store, some answer)
  | .reset key => (del (rateName key) store, none)

def answers : Redis → List TimedCall → List (Option AllowAnswer)
  | _, [] => []
  | store, c :: calls => (serve store c).2 :: answers (serve store c).1 calls

def ofEntry (entry : MemoryRateLimitEntry) : RedisKey := ⟨entry.count, some entry.expiresAt⟩

theorem get_eq (now : Int) {name : String} {store : Redis} {entry : Option MemoryRateLimitEntry}
    (h : store name = entry.map ofEntry) :
    get now name store = (Counter.live now entry).map ofEntry := by
  cases entry with
  | none => rw [get, h]; rfl
  | some entry =>
    rw [get, h]
    simp only [Option.map_some, ofEntry, Counter.live, Option.filter_some, Option.all_some]
    split_ifs <;> rfl

theorem set_self (name : String) (k : Option RedisKey) (store : Redis) :
    set name k store name = k := Function.update_self _ _ _

theorem set_of_ne {name other : String} {k : Option RedisKey} {store : Redis} (h : other ≠ name) :
    set name k store other = store other := Function.update_of_ne h _ _

theorem ofEntry_injective : Function.Injective ofEntry := by
  rintro ⟨count, expiresAt⟩ ⟨count', expiresAt'⟩ h
  simpa [ofEntry] using h

theorem rateName_injective : Function.Injective rateName := by
  intro key key' h
  exact (String.append_right_inj _).mp h

theorem allow_of_ne {now limit window : Int} {key name : String} {store : Redis}
    (h : name ≠ rateName key) : (allow now key limit window store).1 name = store name := by
  have hincr : (incr now (rateName key) store).1 name = store name := by
    unfold incr
    split <;> exact set_of_ne h
  have hexpire : ∀ store₁ : Redis, pexpire now (rateName key) (milliseconds window) store₁ name =
      store₁ name := by
    intro store₁
    unfold pexpire
    cases get now (rateName key) store₁ with
    | none => rfl
    | some k => dsimp only; split <;> exact set_of_ne h
  unfold allow rateScript
  dsimp only
  split_ifs <;> simp [hexpire, hincr]

theorem allow_eq (now : Int) {key : String} (limit : Int) {millis : Int} {store : Redis}
    {entry : Option MemoryRateLimitEntry} (hmillis : 0 < millis)
    (h : store (rateName key) = entry.map ofEntry) (hcount : ∀ e ∈ entry, 1 ≤ e.count) :
    (allow now key limit (millis * 1000000) store).1 (rateName key) =
        some (ofEntry (Counter.hit (millis * 1000000) now entry)) ∧
      (allow now key limit (millis * 1000000) store).2.decision =
        .ok ((Counter.hit (millis * 1000000) now entry).count ≤ limit) := by
  have hwhole : milliseconds (millis * 1000000) = millis := by
    rw [milliseconds, Int.mul_tdiv_cancel _ (by decide)]
  have hanswer : ∀ (store : Redis) (ttl : Int) (current : ℕ),
      (if (current : Int) > limit then (store, 0, ttl) else (store, 1, ttl)) =
        (store, if (current : Int) > limit then 0 else 1, ttl) := by
    intro store ttl current
    split_ifs <;> rfl
  have hdecide : ∀ current : ℕ,
      decide ((if (current : Int) > limit then 0 else 1) = 1) = decide ((current : Int) ≤ limit) := by
    intro current
    rcases lt_or_ge limit (current : Int) with h | h
    · simp [h]
    · simp [h, not_lt.mpr h]
  have hget := get_eq now h
  cases hlive : Counter.live now entry with
  | some e =>
    have hentry : entry = some e := (Option.filter_eq_some_iff.mp hlive).1
    have hnotOne : ¬ e.count + 1 = 1 := by
      have := hcount e hentry
      omega
    rw [hlive, Option.map_some] at hget
    simp only [allow, rateScript, incr, hget, Counter.hit, hlive, ofEntry, hnotOne, if_false,
      hanswer, set_self, true_and]
    exact congrArg _ (hdecide (e.count + 1))
  | none =>
    rw [hlive, Option.map_none] at hget
    have hnew : get now (rateName key) (set (rateName key) (some ⟨1, none⟩) store) =
        some ⟨1, none⟩ := by
      rw [get, set_self]
      rfl
    simp only [allow, rateScript, incr, hget, Counter.hit, hlive, ofEntry, if_true, hanswer,
      pexpire, hnew, hwhole, not_le.mpr hmillis, if_false, set_self, true_and]
    exact congrArg _ (hdecide 1)

end Redis

structure Agrees (key : String) (limiter : MemoryRateLimiter) (store : Redis) : Prop where
  store_eq : store (Redis.rateName key) = (limiter.entries.lookup key).map Redis.ofEntry
  count : ∀ e ∈ limiter.entries.lookup key, 1 ≤ e.count

theorem one_le_hit_count (window now : Int) (c : Option Counter) :
    1 ≤ (Counter.hit window now c).count := by
  unfold Counter.hit
  split
  · exact Nat.le_add_left 1 _
  · exact le_rfl

def OnKey (key : String) (limit window : Int) (c : TimedCall) : Prop :=
  c.call = .allow key limit window ∨ c.call = .reset key

theorem agrees_serve {key : String} {limit millis : Int} (hkey : key ≠ "") (hlimit : 0 < limit)
    (hmillis : 0 < millis) {limiter : MemoryRateLimiter} {store : Redis}
    (hagrees : Agrees key limiter store) {c : TimedCall}
    (hcall : OnKey key limit (millis * 1000000) c)
    (hcapacity : (limiter.serve c).2 ≠ some (.failed capacityReached)) :
    (limiter.serve c).2.map AllowAnswer.decision =
        (Redis.serve store c).2.map AllowAnswer.decision ∧
      Agrees key (limiter.serve c).1 (Redis.serve store c).1 := by
  obtain ⟨now, call⟩ := c
  rcases hcall with hcall | hcall <;> cases hcall
  · obtain ⟨hstore, hanswer⟩ := Redis.allow_eq now limit hmillis hagrees.store_eq
      hagrees.count
    have hallow := allowed_allow now key limiter limit (millis * 1000000)
    rw [serve_allow] at hcapacity ⊢
    generalize limiter.allow now key limit (millis * 1000000) = result at hallow hcapacity
    cases hallow with
    | invalid h =>
      rcases h with h | h | h
      · exact absurd h hkey
      · omega
      · omega
    | full => exact absurd rfl hcapacity
    | counted _ hentry _ _ =>
      subst hentry
      refine ⟨?_, ?_, ?_⟩
      · exact congrArg some hanswer.symm
      · rw [AList.lookup_insert]
        exact hstore
      · rw [AList.lookup_insert]
        rintro e ⟨⟩
        exact one_le_hit_count _ _ _
  · refine ⟨rfl, ?_, ?_⟩
    · rw [serve_reset, MemoryRateLimiter.reset, AList.lookup_erase]
      exact Redis.set_self _ _ _
    · rw [serve_reset, MemoryRateLimiter.reset, AList.lookup_erase]
      rintro e ⟨⟩

/-- On a key that is not empty, both limiters decide the same calls alike, as
long as the one in memory does not run out of capacity. -/
theorem rateLimiters_agree {key : String} {limit millis : Int} (hkey : key ≠ "")
    (hlimit : 0 < limit) (hmillis : 0 < millis) {limiter : MemoryRateLimiter} {store : Redis}
    (hagrees : Agrees key limiter store) {calls : List TimedCall}
    (hcalls : ∀ c ∈ calls, OnKey key limit (millis * 1000000) c)
    (hcapacity : some (.failed capacityReached) ∉ limiter.answers calls) :
    (limiter.answers calls).map (Option.map AllowAnswer.decision) =
      (Redis.answers store calls).map (Option.map AllowAnswer.decision) := by
  induction calls generalizing limiter store with
  | nil => rfl
  | cons c calls ih =>
      rw [List.forall_mem_cons] at hcalls
      rw [MemoryRateLimiter.answers, List.mem_cons, not_or] at hcapacity
      obtain ⟨hanswer, hagrees⟩ :=
        agrees_serve hkey hlimit hmillis hagrees hcalls.1 (Ne.symm hcapacity.1)
      rw [MemoryRateLimiter.answers, Redis.answers, List.map_cons, List.map_cons, hanswer,
        ih hagrees hcalls.2 hcapacity.2]

def mixedCalls : List TimedCall :=
  [⟨0, .allow "login" 1 1000000⟩, ⟨5, .allow "login" 1 1000000⟩, ⟨6, .reset "login"⟩,
    ⟨7, .allow "login" 1 1000000⟩, ⟨1000006, .allow "login" 1 1000000⟩,
    ⟨1000007, .allow "login" 1 1000000⟩]

theorem rateLimiters_agree_mixed :
    (empty 1).answers mixedCalls =
        [some (.answered true 1000000), some (.answered false 999995), none,
          some (.answered true 1000000), some (.answered false 1), some (.answered true 1000000)] ∧
      ((empty 1).answers mixedCalls).map (Option.map AllowAnswer.decision) =
        (Redis.answers (fun _ => none) mixedCalls).map (Option.map AllowAnswer.decision) := by
  refine ⟨by decide +kernel, ?_⟩
  have hkey : "login" ≠ "" := by decide
  have hone : (0 : Int) < 1 := by decide
  have hcalls : ∀ c ∈ mixedCalls, OnKey "login" 1 (1 * 1000000) c := by
    unfold OnKey
    decide
  exact rateLimiters_agree hkey hone hone ⟨rfl, by simp [empty]⟩ hcalls (by decide +kernel)

/-- The empty key is an error in memory, and a key like any other on Redis. -/
theorem rateLimiters_differ_on_empty :
    (empty 1).answers [⟨0, .allow "" 1 1000000⟩] = [some (.failed invalidConfiguration)] ∧
      Redis.answers (fun _ => none) [⟨0, .allow "" 1 1000000⟩] = [some (.answered true 1000000)] := by
  decide +kernel

end Monierave
