import Mathlib.Data.List.TakeWhile
import Monierave.Collections.Eviction
import Monierave.Processes.Machine
import Monierave.Schema.Rows
import Monierave.Unicode.Utf8

/-! # The password breach checker

`HIBPPasswordBreachChecker` asks a remote service for the suffixes of all leaked
digests with a given prefix, and keeps the answers for a while in a bounded cache.
-/

namespace Monierave

open Collections Processes Unicode

/-! ## A line of the response -/

/-- The runes of `unicode.IsSpace`. -/
def spaceRunes : List Char :=
  ['\t', '\n', '\x0b', '\x0c', '\r', ' ', '\u0085', '\u00a0', '\u1680', '\u2000', '\u2001',
    '\u2002', '\u2003', '\u2004', '\u2005', '\u2006', '\u2007', '\u2008', '\u2009', '\u200a',
    '\u2028', '\u2029', '\u202f', '\u205f', '\u3000']

def isSpacePiece (piece : Piece) : Bool :=
  spaceRunes.any fun c => piece = .rune (String.utf8EncodeChar c)

/-- `strings.TrimSpace` on a string that need not be valid UTF-8. -/
def trimSpaceBytes (s : Bytes) : Bytes :=
  (((pieces s).dropWhile isSpacePiece).reverse.dropWhile isSpacePiece).reverse.flatMap Piece.bytes

/-- `strings.Cut` at the first colon. -/
def cutColon (s : Bytes) : Option (Bytes × Bytes) :=
  if 58 ∈ s then some (s.takeWhile (· != 58), (s.dropWhile (· != 58)).tail) else none

def isDigitByte (b : UInt8) : Bool := 48 ≤ b.toNat && b.toNat ≤ 57

def decimalValue (s : Bytes) : Nat := s.foldl (fun n b => 10 * n + (b.toNat - 48)) 0

/-- `strconv.ParseUint(s, 10, 64)`. -/
def parseUint (s : Bytes) : Option Nat :=
  if s ≠ [] ∧ s.all isDigitByte ∧ decimalValue s < 2 ^ 64 then some (decimalValue s) else none

inductive RangeError
  /-- The request cannot be made. -/
  | request
  /-- The text is `query HIBP password range`. -/
  | query
  /-- The text is `HIBP returned status`. -/
  | status (code : Int)
  /-- The text is `invalid HIBP range response`. -/
  | invalidResponse
  /-- The text is `invalid HIBP range count`. -/
  | invalidCount
  /-- The text is `read HIBP range response`. -/
  | read
  deriving DecidableEq

def readLine (line : Bytes) : Except RangeError (Bytes × Nat) :=
  match cutColon (trimSpaceBytes line) with
  | none => .error .invalidResponse
  | some (value, countValue) =>
    if value.length ≠ 35 then .error .invalidResponse
    else
      match parseUint countValue with
      | none => .error .invalidCount
      | some count => .ok (value, count)

/-- The line is a value of 35 bytes and a decimal number of 64 bits, with a colon between
them and perhaps white space around. -/
structure IsRangeLine (line value : Bytes) (count : Nat) : Prop where
  parts : ∃ countValue, trimSpaceBytes line = value ++ 58 :: countValue ∧ countValue ≠ [] ∧
    (∀ b ∈ countValue, isDigitByte b = true) ∧ decimalValue countValue = count
  colon : 58 ∉ value
  length : value.length = 35
  count_lt : count < 2 ^ 64

variable {s value line : Bytes} {count : Nat}

theorem cutColon_eq_some {rest : Bytes} (h : cutColon s = some (value, rest)) :
    s = value ++ 58 :: rest ∧ 58 ∉ value := by
  rw [cutColon] at h
  split at h
  · rename_i hmem
    cases h
    have hsplit := List.takeWhile_append_dropWhile (p := (· != 58)) (l := s)
    refine ⟨?_, fun hcolon => by simpa using List.mem_takeWhile_imp hcolon⟩
    cases hdrop : s.dropWhile (· != 58) with
    | nil =>
      have hall := List.dropWhile_eq_nil_iff.mp hdrop 58 hmem
      simp at hall
    | cons b rest =>
      have hb : b = 58 := by
        have hhead := List.head_dropWhile_not (· != 58) (l := s) (by simp [hdrop])
        simpa [hdrop] using hhead
      rw [hdrop, hb] at hsplit
      exact hsplit.symm
  · cases h

theorem parseUint_eq_some (h : parseUint s = some count) :
    s ≠ [] ∧ (∀ b ∈ s, isDigitByte b = true) ∧ decimalValue s = count ∧ count < 2 ^ 64 := by
  rw [parseUint] at h
  split at h
  · rename_i hs
    cases h
    exact ⟨hs.1, List.all_eq_true.mp hs.2.1, rfl, hs.2.2⟩
  · cases h

theorem isRangeLine_of_readLine (h : readLine line = .ok (value, count)) :
    IsRangeLine line value count := by
  rw [readLine] at h
  cases hcut : cutColon (trimSpaceBytes line) with
  | none => simp [hcut] at h
  | some cut =>
    obtain ⟨v, countValue⟩ := cut
    simp only [hcut] at h
    split at h
    · cases h
    · rename_i hlength
      cases hcount : parseUint countValue with
      | none => simp [hcount] at h
      | some n =>
        simp only [hcount, Except.ok.injEq, Prod.mk.injEq] at h
        obtain ⟨rfl, rfl⟩ := h
        obtain ⟨hline, hcolon⟩ := cutColon_eq_some hcut
        obtain ⟨hne, hdigits, hvalue, hlt⟩ := parseUint_eq_some hcount
        exact ⟨⟨countValue, hline, hne, hdigits, hvalue⟩, hcolon,
          Decidable.not_not.mp hlength, hlt⟩

/-! ## The response -/

/-- What the checker takes from the libraries: the SHA-1 sum, and upper case for a text
that is not ASCII. -/
structure HIBPLibrary where
  sha1 : Bytes → Vector UInt8 20
  upper : Bytes → Bytes

def upperByte (b : UInt8) : UInt8 := if 97 ≤ b ∧ b ≤ 122 then b - 32 else b

/-- `strings.ToUpper`. -/
def HIBPLibrary.toUpper (lib : HIBPLibrary) (s : Bytes) : Bytes :=
  if s.all (· < 128) then s.map upperByte else lib.upper s

/-- What the service does with a request. The body of a reply ends with an error if it is
`broken`, otherwise it is complete. -/
inductive Remote
  | unsent
  | unanswered
  | replied (status : Int) (body : Bytes) (broken : Bool)
  deriving DecidableEq

def textLines (body : Bytes) : List Bytes :=
  let lines := body.splitOn 10
  if lines.getLast? = some [] then lines.dropLast else lines

/-- The lines of a text are what stands before its newlines, and what stands after the last
newline unless that is empty. -/
theorem textLines_eq {lines : List Bytes} {rest : Bytes} (hlines : ∀ line ∈ lines, 10 ∉ line)
    (hrest : 10 ∉ rest) : textLines (lines.flatMap (· ++ [10]) ++ rest) =
      lines ++ if rest = [] then [] else [rest] := by
  have hsplit : (lines.flatMap (· ++ [10]) ++ rest).splitOn 10 = lines ++ [rest] := by
    induction lines with
    | nil => exact List.splitOn_eq_singleton hrest
    | cons line lines ih =>
      rw [List.forall_mem_cons] at hlines
      rw [List.flatMap_cons, List.append_assoc, List.append_assoc, List.singleton_append,
        List.splitOn_append_cons_self_of_not_mem hlines.1, ih hlines.2, List.cons_append]
  rw [textLines, hsplit]
  by_cases hempty : rest = [] <;> simp [hempty]

def maxTokenSize : Nat := 1 <<< 20

def fitsToken (line : Bytes) : Bool := line.length < maxTokenSize

def dropCR (line : Bytes) : Bytes :=
  if line.getLast? = some 13 then line.dropLast else line

def scanLines (body : Bytes) : List Bytes :=
  ((textLines body).takeWhile fitsToken).map dropCR

def scanFails (body : Bytes) (broken : Bool) : Bool :=
  broken || !(textLines body).all fitsToken

def readLines (lib : HIBPLibrary) (suffixes : List Bytes) :
    List Bytes → Except RangeError (List Bytes)
  | [] => .ok suffixes
  | line :: lines =>
    match readLine line with
    | .error err => .error err
    | .ok (value, count) =>
      readLines lib (if 0 < count then lib.toUpper value :: suffixes else suffixes) lines

def HIBPLibrary.fetch (lib : HIBPLibrary) : Remote → Except RangeError (List Bytes)
  | .unsent => .error .request
  | .unanswered => .error .query
  | .replied status body broken =>
    if status ≠ 200 then .error (.status status)
    else
      match readLines lib [] (scanLines body) with
      | .error err => .error err
      | .ok suffixes => if scanFails body broken then .error .read else .ok suffixes

/-- A complete response, every line of which is well formed, and none of which has the
suffix with a positive count. -/
def Clears (lib : HIBPLibrary) (suffix : Bytes) (remote : Remote) : Prop :=
  ∃ body, remote = .replied 200 body false ∧
    (∀ line ∈ textLines body, ∃ value count, IsRangeLine (dropCR line) value count) ∧
    ∀ line ∈ textLines body, ∀ value count, IsRangeLine (dropCR line) value count →
      0 < count → lib.toUpper value ≠ suffix

theorem IsRangeLine.unique {value' : Bytes} {count' : Nat} (h : IsRangeLine line value count)
    (h' : IsRangeLine line value' count') : value = value' ∧ count = count' := by
  obtain ⟨countValue, hline, -, -, hcount⟩ := h.parts
  obtain ⟨countValue', hline', -, -, hcount'⟩ := h'.parts
  obtain ⟨hvalue, hrest⟩ := List.append_inj (hline.symm.trans hline') (h.length.trans h'.length.symm)
  cases hrest
  exact ⟨hvalue, hcount.symm.trans hcount'⟩

section Fetch

variable {lib : HIBPLibrary} {suffixes seen : List Bytes} {suffix : Bytes}

theorem readLines_ok {lines : List Bytes} (h : readLines lib seen lines = .ok suffixes) :
    seen ⊆ suffixes ∧ ∀ line ∈ lines, ∃ value count, IsRangeLine line value count ∧
      (0 < count → lib.toUpper value ∈ suffixes) := by
  induction lines generalizing seen with
  | nil =>
    cases h
    exact ⟨List.Subset.refl _, by simp⟩
  | cons line lines ih =>
    rw [readLines] at h
    cases hline : readLine line with
    | error err => simp [hline] at h
    | ok parts =>
      obtain ⟨value, count⟩ := parts
      simp only [hline] at h
      obtain ⟨hseen, hlines⟩ := ih h
      refine ⟨fun s hs => hseen ?_, List.forall_mem_cons.mpr ⟨?_, hlines⟩⟩
      · split
        · exact List.mem_cons_of_mem _ hs
        · exact hs
      · refine ⟨value, count, isRangeLine_of_readLine hline, fun hcount => hseen ?_⟩
        rw [if_pos hcount]
        exact List.mem_cons_self

theorem scanLines_of_not_scanFails {body : Bytes} {broken : Bool}
    (h : ¬ scanFails body broken = true) :
    broken = false ∧ scanLines body = (textLines body).map dropCR := by
  simp only [scanFails, Bool.or_eq_true, not_or, Bool.not_eq_true, Bool.not_eq_false'] at h
  refine ⟨h.1, ?_⟩
  rw [scanLines, List.takeWhile_eq_self_iff.mpr (List.all_eq_true.mp h.2)]

theorem clears_of_fetch {remote : Remote} (h : lib.fetch remote = .ok suffixes)
    (hsuffix : suffix ∉ suffixes) : Clears lib suffix remote := by
  cases remote with
  | unsent => cases h
  | unanswered => cases h
  | replied status body broken =>
    rw [HIBPLibrary.fetch] at h
    split at h
    · cases h
    · rename_i hstatus
      cases hread : readLines lib [] (scanLines body) with
      | error err => simp [hread] at h
      | ok found =>
        simp only [hread] at h
        split at h
        · cases h
        · rename_i hscan
          cases h
          obtain ⟨rfl, hlines⟩ := scanLines_of_not_scanFails hscan
          have hall := (readLines_ok hread).2
          rw [hlines, List.forall_mem_map] at hall
          refine ⟨body, by rw [Decidable.not_not.mp hstatus], fun line hline => ?_,
            fun line hline value count hparts hcount hupper => hsuffix ?_⟩
          · obtain ⟨value, count, hparts, -⟩ := hall line hline
            exact ⟨value, count, hparts⟩
          · obtain ⟨value', count', hparts', hfound⟩ := hall line hline
            obtain ⟨rfl, rfl⟩ := hparts.unique hparts'
            exact hupper ▸ hfound hcount

end Fetch

/-! ## The cache -/

def hibpCacheSize : Nat := 1024

structure HIBPCacheEntry where
  suffixes : List Bytes
  expiresAt : Int

structure HIBPCache where
  entries : Map Bytes HIBPCacheEntry := ∅
  order : List Bytes := []

namespace HIBPCache

def removeFromOrder (pre : Bytes) (order : List Bytes) : List Bytes := Map.removeFirst pre order

def cached (now : Int) (pre : Bytes) (cache : HIBPCache) : HIBPCache × Option (List Bytes) :=
  match cache.entries.lookup pre with
  | none => (cache, none)
  | some entry =>
    if entry.expiresAt < now then
      (⟨cache.entries.erase pre, removeFromOrder pre cache.order⟩, none)
    else (cache, some entry.suffixes)

def store (now ttl : Int) (pre : Bytes) (suffixes : List Bytes) (cache : HIBPCache) :
    HIBPCache :=
  let order := if pre ∈ cache.entries then cache.order else cache.order ++ [pre]
  let entries := cache.entries.insert pre ⟨suffixes, now + ttl⟩
  let kept := Map.evict hibpCacheSize entries order
  ⟨kept.1, kept.2⟩

structure Tidy (cache : HIBPCache) : Prop where
  listed : Map.Listed cache.entries cache.order
  size_le : Map.size cache.entries ≤ hibpCacheSize

variable {cache : HIBPCache} {now ttl : Int} {pre p : Bytes} {suffixes : List Bytes}
  {entry : HIBPCacheEntry}

theorem tidy_empty : Tidy {} := ⟨List.Perm.refl _, Nat.zero_le _⟩

theorem Tidy.order_length_le (h : cache.Tidy) : cache.order.length ≤ hibpCacheSize :=
  h.listed.length_eq.trans_le h.size_le

theorem Tidy.cached (h : cache.Tidy) : (cache.cached now pre).1.Tidy := by
  rw [HIBPCache.cached]
  split
  · exact h
  · split
    · exact ⟨h.listed.erase pre, Map.size_erase_le.trans h.size_le⟩
    · exact h

theorem Tidy.store (h : cache.Tidy) : (cache.store now ttl pre suffixes).Tidy := by
  have hlisted : Map.Listed (cache.entries.insert pre ⟨suffixes, now + ttl⟩)
      (if pre ∈ cache.entries then cache.order else cache.order ++ [pre]) := by
    split
    · rename_i hmem
      exact h.listed.insert_of_mem hmem
    · rename_i hmem
      exact h.listed.insert_of_notMem hmem
  exact ⟨hlisted.evict, hlisted.size_evict_le⟩

theorem lookup_of_cached (h : (cache.cached now pre).2 = some suffixes) :
    ∃ entry, cache.entries.lookup pre = some entry ∧ entry.suffixes = suffixes ∧
      now ≤ entry.expiresAt := by
  rw [HIBPCache.cached] at h
  cases hentry : cache.entries.lookup pre with
  | none => simp [hentry] at h
  | some entry =>
    simp only [hentry] at h
    split at h
    · cases h
    · rename_i hlive
      cases h
      exact ⟨entry, rfl, rfl, not_lt.mp hlive⟩

theorem lookup_of_lookup_cached (h : (cache.cached now pre).1.entries.lookup p = some entry) :
    cache.entries.lookup p = some entry := by
  rw [HIBPCache.cached] at h
  split at h
  · exact h
  · split at h
    · exact Map.lookup_of_lookup_erase h
    · exact h

theorem lookup_of_lookup_store
    (h : (cache.store now ttl pre suffixes).entries.lookup p = some entry) :
    (p = pre ∧ entry = ⟨suffixes, now + ttl⟩) ∨ cache.entries.lookup p = some entry := by
  have hinsert := Map.lookup_of_lookup_evict h
  by_cases hp : p = pre
  · subst hp
    rw [AList.lookup_insert] at hinsert
    exact .inl ⟨rfl, (Option.some.inj hinsert).symm⟩
  · rw [AList.lookup_insert_ne hp] at hinsert
    exact .inr hinsert

end HIBPCache

/-! ## The calls -/

inductive BreachCall
  | cached (pre : Bytes)
  | fetch (pre : Bytes)
  | store (pre : Bytes) (suffixes : List Bytes)

abbrev BreachCall.Answer : BreachCall → Type
  | cached _ => Option (List Bytes)
  | fetch _ => Except RangeError (List Bytes)
  | store _ _ => Unit

abbrev BreachProcess (α : Type) := Proc BreachCall BreachCall.Answer α

/-- A digit of `%x`, in upper case. -/
def hexByte (n : Nat) : UInt8 := UInt8.ofNat (if n < 10 then 48 + n else 55 + n)

def HIBPLibrary.digest (lib : HIBPLibrary) (password : Bytes) : Bytes :=
  (lib.sha1 password).toList.flatMap fun b => [hexByte (b.toNat / 16), hexByte (b.toNat % 16)]

def HIBPLibrary.digestPrefix (lib : HIBPLibrary) (password : Bytes) : Bytes :=
  (lib.digest password).take 5

def HIBPLibrary.digestSuffix (lib : HIBPLibrary) (password : Bytes) : Bytes :=
  (lib.digest password).drop 5

section Calls

variable (lib : HIBPLibrary) (password : Bytes)

def verdict (suffixes : List Bytes) : Except RangeError Bool :=
  .ok (decide (lib.digestSuffix password ∈ suffixes))

def storeRange (suffixes : List Bytes) : BreachProcess (Except RangeError Bool) := do
  Proc.ask (BreachCall.store (lib.digestPrefix password) suffixes)
  pure (verdict lib password suffixes)

def fetchRange : BreachProcess (Except RangeError Bool) := do
  match ← Proc.ask (BreachCall.fetch (lib.digestPrefix password)) with
  | .error err => pure (.error err)
  | .ok suffixes => storeRange lib password suffixes

def isCompromised : BreachProcess (Except RangeError Bool) := do
  match ← Proc.ask (BreachCall.cached (lib.digestPrefix password)) with
  | some suffixes => pure (verdict lib password suffixes)
  | none => fetchRange lib password

end Calls

structure Receipt where
  worker : Nat
  pre : Bytes
  remote : Remote

structure Deposit where
  worker : Nat
  pre : Bytes
  time : Int

structure BreachDesk where
  now : Int
  cache : HIBPCache := {}
  received : List Receipt := []
  stored : List Deposit := []

namespace BreachDesk

def serve (lib : HIBPLibrary) (ttl : Int) (w : Nat) (remote : Remote) :
    (c : BreachCall) → BreachDesk → BreachDesk × c.Answer
  | .cached pre, s =>
    ({ s with cache := (s.cache.cached s.now pre).1 }, (s.cache.cached s.now pre).2)
  | .fetch pre, s =>
    ({ s with received := ⟨w, pre, remote⟩ :: s.received }, lib.fetch remote)
  | .store pre suffixes, s =>
    ({ s with
        cache := s.cache.store s.now ttl pre suffixes
        stored := ⟨w, pre, s.now⟩ :: s.stored },
      ())

end BreachDesk

def breachSystem (lib : HIBPLibrary) (ttl : Int) :
    System BreachDesk BreachCall BreachCall.Answer Bytes Remote Nat (Except RangeError Bool) where
  body := isCompromised lib
  serve := BreachDesk.serve lib ttl
  outside nanos s := { s with now := s.now + nanos }

abbrev BreachState := State BreachDesk BreachCall BreachCall.Answer Bytes (Except RangeError Bool)

abbrev BreachAction := Action Bytes Remote Nat

def breachRun (lib : HIBPLibrary) (ttl now : Int) (acts : List BreachAction) : BreachState :=
  (breachSystem lib ttl).run (State.init { now := now }) acts

/-- With its next step, the call `w` for the password returns the answer. -/
def Returns (lib : HIBPLibrary) (ttl : Int) (s : BreachState) (w : Nat) (remote : Remote)
    (password : Bytes) (answer : Except RangeError Bool) : Prop :=
  ∃ c k, s.slots w = .busy password (.call c k) ∧
    ((breachSystem lib ttl).step s (.call w remote)).slots w = .busy password (.ret answer)

/-! ## Where an answer comes from -/

namespace BreachDesk

variable {lib : HIBPLibrary} {ttl : Int} {w : Nat} {pre : Bytes} {suffixes : List Bytes}
  {s s' : BreachDesk}

/-- The call `w` has fetched the suffixes. -/
def Fetched (lib : HIBPLibrary) (s : BreachDesk) (w : Nat) (pre : Bytes)
    (suffixes : List Bytes) : Prop :=
  ∃ remote, ⟨w, pre, remote⟩ ∈ s.received ∧ lib.fetch remote = .ok suffixes

def Backed (lib : HIBPLibrary) (ttl : Int) (s : BreachDesk) (pre : Bytes)
    (entry : HIBPCacheEntry) : Prop :=
  ∃ v time, Fetched lib s v pre entry.suffixes ∧ ⟨v, pre, time⟩ ∈ s.stored ∧ time ≤ s.now ∧
    entry.expiresAt = time + ttl

/-- A response clears the password. This call has fetched it, or it was stored no longer
than the time to live ago. -/
def Cleared (lib : HIBPLibrary) (ttl : Int) (w : Nat) (password : Bytes) (s : BreachDesk) :
    Prop :=
  ∃ v remote, ⟨v, lib.digestPrefix password, remote⟩ ∈ s.received ∧
    Clears lib (lib.digestSuffix password) remote ∧
    (v = w ∨ ∃ time, ⟨v, lib.digestPrefix password, time⟩ ∈ s.stored ∧ time ≤ s.now ∧
      s.now ≤ time + ttl)

structure Sound (lib : HIBPLibrary) (ttl : Int) (s : BreachDesk) : Prop where
  tidy : s.cache.Tidy
  backed : ∀ pre entry, s.cache.entries.lookup pre = some entry → Backed lib ttl s pre entry

structure Grows (s s' : BreachDesk) : Prop where
  now : s.now ≤ s'.now
  received : s.received ⊆ s'.received
  stored : s.stored ⊆ s'.stored

variable {entry : HIBPCacheEntry} {password : Bytes}

theorem grows_serve (lib : HIBPLibrary) (ttl : Int) (w : Nat) (remote : Remote) (c : BreachCall)
    (s : BreachDesk) : Grows s (serve lib ttl w remote c s).1 := by
  cases c with
  | cached pre => exact ⟨le_refl _, List.Subset.refl _, List.Subset.refl _⟩
  | fetch pre => exact ⟨le_refl _, List.subset_cons_self _ _, List.Subset.refl _⟩
  | store pre suffixes => exact ⟨le_refl _, List.Subset.refl _, List.subset_cons_self _ _⟩

theorem grows_outside (lib : HIBPLibrary) (ttl : Int) (nanos : Nat) (s : BreachDesk) :
    Grows s ((breachSystem lib ttl).outside nanos s) :=
  ⟨Int.le_add_of_nonneg_right (Int.natCast_nonneg nanos), List.Subset.refl _,
    List.Subset.refl _⟩

theorem Fetched.grows (h : Fetched lib s w pre suffixes) (hgrows : Grows s s') :
    Fetched lib s' w pre suffixes := by
  obtain ⟨remote, hmem, hfetch⟩ := h
  exact ⟨remote, hgrows.received hmem, hfetch⟩

theorem Backed.grows (h : Backed lib ttl s pre entry) (hgrows : Grows s s') :
    Backed lib ttl s' pre entry := by
  obtain ⟨v, time, hfetched, hstored, htime, hexpires⟩ := h
  exact ⟨v, time, hfetched.grows hgrows, hgrows.stored hstored, htime.trans hgrows.now, hexpires⟩

theorem sound_init (now : Int) : Sound lib ttl { now := now } :=
  ⟨HIBPCache.tidy_empty, fun _ _ h => nomatch h⟩

theorem Sound.outside (h : Sound lib ttl s) (nanos : Nat) :
    Sound lib ttl ((breachSystem lib ttl).outside nanos s) :=
  ⟨h.tidy, fun pre entry hentry => (h.backed pre entry hentry).grows (grows_outside lib ttl nanos s)⟩

def MayAsk (lib : HIBPLibrary) (s : BreachDesk) (w : Nat) : BreachCall → Prop
  | .store pre suffixes => Fetched lib s w pre suffixes
  | _ => True

theorem Sound.serve (h : Sound lib ttl s) {remote : Remote} {c : BreachCall}
    (hask : MayAsk lib s w c) : Sound lib ttl (serve lib ttl w remote c s).1 := by
  have hgrows : Grows s (BreachDesk.serve lib ttl w remote c s).1 :=
    grows_serve lib ttl w remote c s
  cases c with
  | cached pre =>
    refine ⟨h.tidy.cached, fun p entry hentry => ?_⟩
    exact (h.backed p entry (HIBPCache.lookup_of_lookup_cached hentry)).grows hgrows
  | fetch pre => exact ⟨h.tidy, fun p entry hentry => (h.backed p entry hentry).grows hgrows⟩
  | store pre suffixes =>
    refine ⟨h.tidy.store, fun p entry hentry => ?_⟩
    rcases HIBPCache.lookup_of_lookup_store hentry with ⟨rfl, rfl⟩ | hentry
    · have hfetched : Fetched lib s w p suffixes := hask
      exact ⟨w, s.now, hfetched.grows hgrows, List.mem_cons_self, le_refl _, rfl⟩
    · exact (h.backed p entry hentry).grows hgrows

theorem Fetched.cleared (h : Fetched lib s w (lib.digestPrefix password) suffixes)
    (hsuffix : lib.digestSuffix password ∉ suffixes) : Cleared lib ttl w password s := by
  obtain ⟨remote, hmem, hfetch⟩ := h
  exact ⟨w, remote, hmem, clears_of_fetch hfetch hsuffix, .inl rfl⟩

theorem Backed.cleared (h : Backed lib ttl s (lib.digestPrefix password) entry)
    (hlive : s.now ≤ entry.expiresAt) (hsuffix : lib.digestSuffix password ∉ entry.suffixes) :
    Cleared lib ttl w password s := by
  obtain ⟨v, time, ⟨remote, hmem, hfetch⟩, hstored, htime, hexpires⟩ := h
  exact ⟨v, remote, hmem, clears_of_fetch hfetch hsuffix,
    .inr ⟨time, hstored, htime, hexpires ▸ hlive⟩⟩

end BreachDesk

/-! ## Every interleaving -/

section Runs

open BreachDesk

variable {lib : HIBPLibrary} {ttl : Int} {w : Nat} {password : Bytes} {s : BreachDesk}

/-- Where a call can be between two of its steps. -/
inductive BreachStage (lib : HIBPLibrary) (password : Bytes) (w : Nat) (s : BreachDesk) :
    BreachProcess (Except RangeError Bool) → Prop
  | start : BreachStage lib password w s (isCompromised lib password)
  | fetching : BreachStage lib password w s (fetchRange lib password)
  | storing {suffixes : List Bytes} (h : Fetched lib s w (lib.digestPrefix password) suffixes) :
      BreachStage lib password w s (storeRange lib password suffixes)
  | done (answer : Except RangeError Bool) : BreachStage lib password w s (.ret answer)

variable {c : BreachCall} {k : c.Answer → BreachProcess (Except RangeError Bool)}

theorem BreachStage.grows {rest : BreachProcess (Except RangeError Bool)} {s' : BreachDesk}
    (h : BreachStage lib password w s rest) (hgrows : Grows s s') : BreachStage lib password w s' rest := by
  cases h with
  | start => exact .start
  | fetching => exact .fetching
  | storing h => exact .storing (h.grows hgrows)
  | done answer => exact .done answer

theorem BreachStage.mayAsk (h : BreachStage lib password w s (.call c k)) : MayAsk lib s w c := by
  generalize hrest : Proc.call c k = rest at h
  cases h with
  | start => cases hrest; trivial
  | fetching => cases hrest; trivial
  | storing h => cases hrest; exact h
  | done answer => cases hrest

theorem notMem_of_verdict {suffixes : List Bytes}
    (h : (Proc.ret (verdict lib password suffixes) : BreachProcess (Except RangeError Bool)) =
      .ret (.ok false)) : lib.digestSuffix password ∉ suffixes := by
  simpa [verdict] using h

/-- The call goes on to another stage, and if it answers that the password is not
compromised, a response has cleared it. -/
theorem BreachStage.call (h : BreachStage lib password w s (.call c k)) (hsound : Sound lib ttl s)
    (remote : Remote) :
    BreachStage lib password w (serve lib ttl w remote c s).1 (k (serve lib ttl w remote c s).2) ∧
      (k (serve lib ttl w remote c s).2 = .ret (.ok false) →
        Cleared lib ttl w password (serve lib ttl w remote c s).1) := by
  generalize hrest : Proc.call c k = rest at h
  cases h with
  | start =>
    cases hrest
    cases hcached : (s.cache.cached s.now (lib.digestPrefix password)).2 with
    | none =>
      simp only [BreachDesk.serve, hcached]
      exact ⟨.fetching, fun hret => nomatch hret⟩
    | some suffixes =>
      simp only [BreachDesk.serve, hcached]
      refine ⟨.done _, fun hret => ?_⟩
      obtain ⟨entry, hentry, rfl, hlive⟩ := HIBPCache.lookup_of_cached hcached
      have hbacked : Backed lib ttl s (lib.digestPrefix password) entry :=
        hsound.backed _ _ hentry
      exact (hbacked.grows (grows_serve lib ttl w remote (.cached _) s)).cleared hlive
        (notMem_of_verdict hret)
  | fetching =>
    cases hrest
    cases hfetch : lib.fetch remote with
    | error err =>
      simp only [BreachDesk.serve, hfetch]
      exact ⟨.done _, fun hret => nomatch hret⟩
    | ok suffixes =>
      simp only [BreachDesk.serve, hfetch]
      exact ⟨.storing ⟨remote, List.mem_cons_self, hfetch⟩, fun hret => nomatch hret⟩
  | storing hfetched =>
    cases hrest
    refine ⟨.done _, fun hret => ?_⟩
    exact (hfetched.grows (grows_serve lib ttl w remote (.store _ _) s)).cleared (notMem_of_verdict hret)
  | done answer => cases hrest

structure Orderly (lib : HIBPLibrary) (ttl : Int) (s : BreachState) : Prop where
  sound : Sound lib ttl s.shared
  stage : ∀ w password rest, s.slots w = .busy password rest →
    BreachStage lib password w s.shared rest

theorem Orderly.setSlot {s : BreachState} (h : Orderly lib ttl s)
    {x : Slot BreachCall BreachCall.Answer Bytes (Except RangeError Bool)}
    (hx : ∀ password rest, x = .busy password rest → BreachStage lib password w s.shared rest) :
    Orderly lib ttl (s.setSlot w x) := by
  refine ⟨h.sound, fun v password rest hv => ?_⟩
  by_cases hvw : v = w
  · subst hvw
    simp only [State.setSlot, Function.update_self] at hv
    exact hx password rest hv
  · simp only [State.setSlot, Function.update_of_ne hvw] at hv
    exact h.stage v password rest hv

theorem Orderly.moves {s s' : BreachState} {act : BreachAction} (h : Orderly lib ttl s)
    (hm : (breachSystem lib ttl).Moves s act s') : Orderly lib ttl s' := by
  cases hm with
  | stay => exact h
  | start hw =>
    refine h.setSlot fun password rest hx => ?_
    cases hx
    exact .start
  | call hact hw =>
    rename_i w remote password c k
    have hstage := h.stage w password _ hw
    refine ⟨h.sound.serve hstage.mayAsk, fun v password' rest hv => ?_⟩
    by_cases hvw : v = w
    · subst hvw
      simp only [System.answer, Function.update_self] at hv
      cases hv
      exact (hstage.call h.sound remote).1
    · simp only [System.answer, Function.update_of_ne hvw] at hv
      exact (h.stage v password' rest hv).grows (grows_serve lib ttl w remote c _)
  | die hw => exact h.setSlot fun password rest hx => by cases hx
  | outside hact =>
    exact ⟨h.sound.outside _, fun v password rest hv =>
      (h.stage v password rest hv).grows (grows_outside lib ttl _ _)⟩

theorem orderly_breachRun (lib : HIBPLibrary) (ttl now : Int) (acts : List BreachAction) :
    Orderly lib ttl (breachRun lib ttl now acts) := by
  induction acts using List.reverseRecOn with
  | nil => exact ⟨sound_init now, fun _ _ _ hw => by cases hw⟩
  | append_singleton acts act ih =>
    rw [breachRun, System.run_snoc]
    exact ih.moves (System.step_moves _ _ act)

theorem Orderly.cleared {s : BreachState} (h : Orderly lib ttl s) {remote : Remote}
    (hreturns : Returns lib ttl s w remote password (.ok false)) :
    Cleared lib ttl w password ((breachSystem lib ttl).step s (.call w remote)).shared := by
  obtain ⟨c, k, hw, hanswer⟩ := hreturns
  have hstep : (breachSystem lib ttl).step s (.call w remote) =
      (breachSystem lib ttl).answer s w remote password c k := by
    rw [System.step, hw]
  rw [hstep] at hanswer ⊢
  simp only [System.answer, Function.update_self, Slot.busy.injEq, true_and] at hanswer
  exact ((h.stage w password _ hw).call h.sound remote).2 hanswer

end Runs

/-- Whatever the service does and however the calls interleave, the list of the cache has
each cached prefix once and at most `hibpCacheSize` of them, and a call only answers that
a password is not compromised on the strength of a complete and well formed response that
does not list it, which it has fetched itself or which was stored within the time to
live. -/
theorem isCompromised_failClosed (lib : HIBPLibrary) (ttl now : Int) (acts : List BreachAction) :
    ((breachRun lib ttl now acts).shared.cache.order.Nodup ∧
      (∀ pre, pre ∈ (breachRun lib ttl now acts).shared.cache.order ↔
        pre ∈ (breachRun lib ttl now acts).shared.cache.entries) ∧
      (breachRun lib ttl now acts).shared.cache.order.length ≤ hibpCacheSize) ∧
    ∀ w remote password,
      Returns lib ttl (breachRun lib ttl now acts) w remote password (.ok false) →
        BreachDesk.Cleared lib ttl w password
          (breachRun lib ttl now (acts ++ [.call w remote])).shared := by
  have horderly := orderly_breachRun lib ttl now acts
  have htidy := horderly.sound.tidy
  refine ⟨⟨htidy.listed.nodup, fun pre => htidy.listed.mem_iff, htidy.order_length_le⟩, ?_⟩
  intro w remote password hreturns
  rw [breachRun, System.run_snoc]
  exact horderly.cleared hreturns

def zeroLibrary : HIBPLibrary := ⟨fun _ => Vector.replicate 20 0, id⟩

def paddedRange : Remote :=
  .replied 200 (List.replicate 35 49 ++ [58, 53, 13, 10] ++ List.replicate 35 48 ++ [58, 48, 10])
    false

/-- One call fetches and stores a range, and another one is about to find it a little
later. -/
def twoChecks : List BreachAction :=
  [.start 0 [], .call 0 .unsent, .call 0 paddedRange, .call 0 .unsent, .outside 5, .start 1 []]

theorem isCompromised_failClosed_hit :
    Returns zeroLibrary 10 (breachRun zeroLibrary 10 0 twoChecks) 1 .unsent [] (.ok false) ∧
      BreachDesk.Cleared zeroLibrary 10 1 []
        (breachRun zeroLibrary 10 0 (twoChecks ++ [.call 1 .unsent])).shared := by
  have hreturns : Returns zeroLibrary 10 (breachRun zeroLibrary 10 0 twoChecks) 1 .unsent []
      (.ok false) := ⟨.cached _, _, rfl, rfl⟩
  exact ⟨hreturns, (isCompromised_failClosed zeroLibrary 10 0 twoChecks).2 1 .unsent [] hreturns⟩

end Monierave
