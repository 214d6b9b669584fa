import Mathlib.Data.List.Basic

/-! # References that start with a slash

The URL parser of the web on a reference that starts with a slash, against a base
with scheme `http` or `https`: tabs and newlines are taken out, a second slash
starts an authority, dot segments are resolved, empty segments are kept, and what is
not allowed in a component is percent-encoded.
-/

namespace Monierave.Web

inductive Scheme
  | http
  | https
  deriving DecidableEq

structure Origin where
  scheme : Scheme
  host : String
  port : Option Nat
  deriving DecidableEq

structure Url where
  origin : Origin
  path : List (List Char)
  query : Option (List Char)
  fragment : Option (List Char)
  deriving DecidableEq

/-- The parts of the parser that are not spelled out here: what an authority stands for,
and references that do not start with a slash. -/
structure Parser where
  authority : Scheme → List Char → Option Origin
  elsewhere : Origin → List Char → Option Url

/-! ## Percent-encoding -/

def c0ControlSet (c : Char) : Bool := c.toNat < 0x20 || 0x7e < c.toNat

def querySet (c : Char) : Bool :=
  c0ControlSet c || c == ' ' || c == '"' || c == '#' || c == '<' || c == '>'

def specialQuerySet (c : Char) : Bool := querySet c || c == '\x27'

def pathSet (c : Char) : Bool :=
  querySet c || c == '?' || c == '^' || c == '\x60' || c == '\x7b' || c == '\x7d'

def fragmentSet (c : Char) : Bool :=
  c0ControlSet c || c == ' ' || c == '"' || c == '<' || c == '>' || c == '\x60'

def hexDigit (n : Nat) : Char := (Nat.digitChar n).toUpper

def encodeByte (b : UInt8) : List Char :=
  ['%', hexDigit (b.toNat / 16), hexDigit (b.toNat % 16)]

def encodeChar (set : Char → Bool) (c : Char) : List Char :=
  if set c then (String.utf8EncodeChar c).flatMap encodeByte else [c]

def percentEncode (set : Char → Bool) (cs : List Char) : List Char := cs.flatMap (encodeChar set)

variable {set : Char → Bool} {cs buffer f input rest s : List Char} {c d : Char}
    {path ss : List (List Char)} {slash : Bool} {parser : Parser} {base : Origin} {url : Url}

theorem percentEncode_eq_self (h : ∀ c ∈ cs, set c = false) : percentEncode set cs = cs := by
  induction cs with
  | nil => rfl
  | cons c cs ih =>
    rw [List.forall_mem_cons] at h
    rw [percentEncode, List.flatMap_cons, ← percentEncode, ih h.2, encodeChar, h.1]
    rfl

def Stable (set : Char → Bool) : Prop := ∀ c ∈ '%' :: (List.range 16).map hexDigit, set c = false

theorem not_mem_set_of_mem_encodeChar (hset : Stable set) (h : d ∈ encodeChar set c) :
    set d = false := by
  have hdigit : ∀ n < 16, set (hexDigit n) = false := by
    intro n hn
    exact hset _ (List.mem_cons_of_mem _ (List.mem_map_of_mem (List.mem_range.mpr hn)))
  unfold encodeChar at h
  split_ifs at h with hc
  · obtain ⟨b, _, hd⟩ := List.mem_flatMap.mp h
    have hb := b.toNat_lt
    simp only [encodeByte, List.mem_cons, List.not_mem_nil, or_false] at hd
    rcases hd with rfl | rfl | rfl
    · exact hset _ List.mem_cons_self
    · exact hdigit _ (by omega)
    · exact hdigit _ (by omega)
  · rw [List.mem_singleton.mp h]
    simpa using hc

theorem not_mem_set_of_mem_percentEncode (hset : Stable set) (h : d ∈ percentEncode set cs) :
    set d = false := by
  obtain ⟨c, _, hd⟩ := List.mem_flatMap.mp h
  exact not_mem_set_of_mem_encodeChar hset hd

theorem stable_pathSet : Stable pathSet := by
  unfold Stable
  decide

theorem stable_specialQuerySet : Stable specialQuerySet := by
  unfold Stable
  decide

theorem stable_fragmentSet : Stable fragmentSet := by
  unfold Stable
  decide

theorem mem_of_mem_percentEncode (hd : d ∉ '%' :: (List.range 16).map hexDigit)
    (h : d ∈ percentEncode set cs) : d ∈ cs := by
  obtain ⟨c, hc, hdc⟩ := List.mem_flatMap.mp h
  unfold encodeChar at hdc
  split_ifs at hdc
  · obtain ⟨b, _, hd'⟩ := List.mem_flatMap.mp hdc
    have hb := b.toNat_lt
    refine absurd ?_ hd
    simp only [encodeByte, List.mem_cons, List.not_mem_nil, or_false] at hd'
    rcases hd' with rfl | rfl | rfl
    · exact List.mem_cons_self
    · exact List.mem_cons_of_mem _ (List.mem_map_of_mem (List.mem_range.mpr (by omega)))
    · exact List.mem_cons_of_mem _ (List.mem_map_of_mem (List.mem_range.mpr (by omega)))
  · rwa [List.mem_singleton.mp hdc]

/-! ## The path -/

def isSlash (c : Char) : Bool := c == '/' || c == '\\'

def isSingleDot (s : List Char) : Bool :=
  s.map Char.toLower == ".".toList || s.map Char.toLower == "%2e".toList

def isDoubleDot (s : List Char) : Bool :=
  s.map Char.toLower == "..".toList || s.map Char.toLower == ".%2e".toList ||
    s.map Char.toLower == "%2e.".toList || s.map Char.toLower == "%2e%2e".toList

def closeSegment (path : List (List Char)) (segment : List Char) (slash : Bool) :
    List (List Char) :=
  if isDoubleDot segment then
    if slash then path.dropLast else path.dropLast ++ [[]]
  else if isSingleDot segment then
    if slash then path else path ++ [[]]
  else path ++ [segment]

def pathState : List Char → List (List Char) → List Char → List (List Char) × List Char
  | [], path, buffer => (closeSegment path buffer false, [])
  | c :: cs, path, buffer =>
    if isSlash c then pathState cs (closeSegment path buffer true) []
    else if c = '?' ∨ c = '#' then (closeSegment path buffer false, c :: cs)
    else pathState cs path (buffer ++ encodeChar pathSet c)

def parseFragment : List Char → Option (List Char)
  | '#' :: cs => some (percentEncode fragmentSet cs)
  | _ => none

def parseQuery : List Char → Option (List Char) × Option (List Char)
  | '?' :: cs =>
    (some (percentEncode specialQuerySet (cs.takeWhile (· ≠ '#'))),
      parseFragment (cs.dropWhile (· ≠ '#')))
  | cs => (none, parseFragment cs)

def parsePath (origin : Origin) (cs : List Char) : Url :=
  let (path, rest) := pathState cs [] []
  let (query, fragment) := parseQuery rest
  ⟨origin, path, query, fragment⟩

/-! ## The reference -/

/-- Control characters and spaces around the input go, and so do tabs and newlines in it. -/
def prepare (input : List Char) : List Char :=
  let isC0OrSpace := fun c : Char => decide (c.toNat ≤ 0x20)
  ((input.dropWhile isC0OrSpace).reverse.dropWhile isC0OrSpace).reverse.filter
    fun c => c ≠ '\t' ∧ c ≠ '\n' ∧ c ≠ '\r'

def pathStart : List Char → List Char
  | c :: cs => if isSlash c then cs else c :: cs
  | [] => []

def endsAuthority (c : Char) : Bool := isSlash c || c == '?' || c == '#'

def parseAuthority (parser : Parser) (scheme : Scheme) (cs : List Char) : Option Url :=
  let cs := cs.dropWhile isSlash
  (parser.authority scheme (cs.takeWhile (!endsAuthority ·))).map fun origin =>
    parsePath origin (pathStart (cs.dropWhile (!endsAuthority ·)))

def parseSlash (parser : Parser) (base : Origin) : List Char → Option Url
  | c :: cs =>
    if isSlash c then parseAuthority parser base.scheme cs else some (parsePath base (c :: cs))
  | [] => some (parsePath base [])

def newUrl (parser : Parser) (base : Origin) (input : List Char) : Option Url :=
  match prepare input with
  | c :: cs =>
    if isSlash c then parseSlash parser base cs else parser.elsewhere base (c :: cs)
  | [] => parser.elsewhere base []

/-! ## The serializer -/

namespace Url

def pathname (url : Url) : List Char := url.path.flatMap ('/' :: ·)

def search (url : Url) : List Char :=
  match url.query with
  | some (c :: cs) => '?' :: c :: cs
  | _ => []

def hash (url : Url) : List Char :=
  match url.fragment with
  | some (c :: cs) => '#' :: c :: cs
  | _ => []

def reference (url : Url) : List Char := url.pathname ++ url.search ++ url.hash

def StartsDoubled (url : Url) : Prop := ∃ segment rest, url.path = [] :: segment :: rest

end Url

/-! ## The segments

What the path of a reference is can be told from its segments and how deep they lead. -/

/-- What the path is read from, after the first slash: after a second one an authority
stands before it. -/
def pathText : List Char → List Char
  | c :: cs =>
    if isSlash c then pathStart ((cs.dropWhile isSlash).dropWhile (!endsAuthority ·)) else c :: cs
  | [] => []

theorem newUrl_eq_parsePath (hslash : prepare input = '/' :: rest)
    (h : newUrl parser base input = some url) :
    ∃ origin, url = parsePath origin (pathText rest) := by
  have h' : parseSlash parser base rest = some url := by simpa [newUrl, hslash, isSlash] using h
  cases rest with
  | nil =>
    cases h'
    exact ⟨base, rfl⟩
  | cons c cs =>
    simp only [parseSlash] at h'
    rw [pathText]
    split_ifs at h' ⊢
    · obtain ⟨origin, _, rfl⟩ := Option.map_eq_some_iff.mp h'
      exact ⟨origin, rfl⟩
    · cases h'
      exact ⟨base, rfl⟩

def segments (cs : List Char) : List (List Char) :=
  ((cs.takeWhile fun c => !(c == '?' || c == '#')).splitOnP isSlash).map (percentEncode pathSet)

theorem segments_ne_nil (cs : List Char) : segments cs ≠ [] := by
  simp [segments, List.splitOnP_ne_nil]

theorem segments_slash (hslash : isSlash c = true) : segments (c :: cs) = [] :: segments cs := by
  have hend : ¬ (c = '?' ∨ c = '#') := by
    rintro (rfl | rfl) <;> cases hslash
  rw [segments, List.takeWhile_cons_of_pos (by simpa using hend), List.splitOnP_cons_eq_if_modifyHead,
    if_pos hslash]
  rfl

theorem segments_end (hend : c = '?' ∨ c = '#') : segments (c :: cs) = [[]] := by
  rcases hend with rfl | rfl <;> rfl

theorem segments_cons (hslash : isSlash c = false) (hend : ¬ (c = '?' ∨ c = '#')) :
    segments (c :: cs) = (segments cs).modifyHead (encodeChar pathSet c ++ ·) := by
  rw [segments, List.takeWhile_cons_of_pos (by simpa using hend),
    List.splitOnP_cons_eq_if_modifyHead, hslash, if_neg Bool.false_ne_true, segments]
  cases List.splitOnP isSlash _ <;> rfl

/-- A slash follows every segment but the last. -/
def resolve : List (List Char) → List (List Char) → List (List Char)
  | path, [] => path
  | path, s :: ss => resolve (closeSegment path s !ss.isEmpty) ss

theorem modifyHead_nil_append (ss : List (List Char)) : ss.modifyHead ([] ++ ·) = ss := by
  cases ss <;> rfl

theorem pathState_eq (cs : List Char) (path : List (List Char)) (buffer : List Char) :
    (pathState cs path buffer).1 = resolve path ((segments cs).modifyHead (buffer ++ ·)) := by
  fun_induction pathState cs path buffer with
  | case1 path buffer => simp [segments, percentEncode, resolve]
  | case2 c cs path buffer hslash ih =>
    rw [ih, segments_slash hslash, List.modifyHead_cons, List.append_nil, resolve,
      modifyHead_nil_append, List.isEmpty_eq_false_iff.mpr (segments_ne_nil cs)]
    rfl
  | case3 c cs path buffer _ hend => simp [segments_end hend, resolve]
  | case4 c cs path buffer hslash hend ih =>
    rw [ih, segments_cons (by simpa using hslash) hend, List.modifyHead_modifyHead]
    simp only [Function.comp_def, List.append_assoc]

def deeper (n : Nat) (segment : List Char) : Nat :=
  if isDoubleDot segment then n - 1 else if isSingleDot segment then n else n + 1

def depth (n : Nat) (segments : List (List Char)) : Nat := segments.foldl deeper n

/-- The segments never lead out of what is there before them. -/
def Within (n : Nat) (segments : List (List Char)) : Prop := ∀ p, p <+: segments → 0 < depth n p

/-- An empty segment stands where the path is empty, and what follows does not take it
away. -/
def Doubled (n : Nat) (segments : List (List Char)) : Prop :=
  ∃ before after, segments = before ++ [] :: after ∧ depth n before = 0 ∧ after ≠ [] ∧
    Within 1 after

theorem within_nil {n : Nat} : Within n [] ↔ 0 < n := by
  simp [Within, depth]

theorem within_cons {n : Nat} : Within n (s :: ss) ↔ 0 < n ∧ Within (deeper n s) ss := by
  constructor
  · intro h
    exact ⟨h [] List.nil_prefix, fun p hp => h (s :: p) (List.cons_prefix_cons.mpr ⟨rfl, hp⟩)⟩
  · rintro ⟨hn, h⟩ p hp
    rcases List.prefix_cons_iff.mp hp with rfl | ⟨q, rfl, hq⟩
    · exact hn
    · exact h q hq

theorem doubled_cons {n : Nat} : Doubled n (s :: ss) ↔
    (s = [] ∧ n = 0 ∧ ss ≠ [] ∧ Within 1 ss) ∨ Doubled (deeper n s) ss := by
  constructor
  · rintro ⟨before, after, h, hzero, hafter⟩
    rcases List.cons_eq_append_iff.mp h with ⟨rfl, h⟩ | ⟨before, rfl, rfl⟩
    · cases h
      exact Or.inl ⟨rfl, hzero, hafter⟩
    · exact Or.inr ⟨before, after, rfl, hzero, hafter⟩
  · rintro (⟨rfl, rfl, hafter⟩ | ⟨before, after, rfl, h⟩)
    · exact ⟨[], ss, rfl, rfl, hafter⟩
    · exact ⟨s :: before, after, rfl, h⟩

theorem not_doubled_singleton {n : Nat} : ¬ Doubled n [s] := by
  rw [doubled_cons]
  simp [Doubled]

theorem length_closeSegment (path : List (List Char)) (s : List Char) :
    (closeSegment path s true).length = deeper path.length s := by
  unfold closeSegment deeper
  split_ifs <;> simp_all

theorem head_closeSegment (path : List (List Char)) (s : List Char) :
    (closeSegment path s true).head? = some [] ↔
      (path.head? = some [] ∧ 0 < deeper path.length s) ∨ (path = [] ∧ s = []) := by
  by_cases hs : s = []
  · subst hs
    cases path <;> simp [closeSegment, deeper, isDoubleDot, isSingleDot]
  · simp only [closeSegment, deeper, if_true]
    cases path <;> split_ifs <;> simp [hs, List.head?_dropLast, and_comm]

theorem closeSegment_doubled (path : List (List Char)) (s : List Char) :
    (∃ t rest, closeSegment path s false = [] :: t :: rest) ↔
      path.head? = some [] ∧ Within path.length [s] := by
  rw [within_cons, within_nil]
  simp only [closeSegment, deeper, Bool.false_eq_true, if_false]
  match path with
  | [] => split_ifs <;> simp
  | [t] => split_ifs <;> simp
  | t :: u :: path =>
    have hsnoc : ∀ l : List (List Char), ∃ v rest, l ++ [[]] = v :: rest :=
      fun l => List.exists_cons_of_ne_nil (by simp)
    split_ifs <;> simp [hsnoc]

theorem resolve_doubled (hss : ss ≠ []) : (∃ t rest, resolve path ss = [] :: t :: rest) ↔
    (path.head? = some [] ∧ Within path.length ss) ∨ Doubled path.length ss := by
  induction ss generalizing path with
  | nil => exact absurd rfl hss
  | cons s ss ih =>
    cases ss with
    | nil =>
      rw [resolve, resolve, or_iff_left not_doubled_singleton]
      exact closeSegment_doubled path s
    | cons t ss =>
      have hpositive : Within (deeper path.length s) (t :: ss) → 0 < deeper path.length s :=
        fun h => (within_cons.mp h).1
      have hstart : path.head? = some [] → 0 < path.length := by cases path <;> simp
      have hempty : path = [] → s = [] → deeper path.length s = 1 := by
        rintro rfl rfl
        rfl
      rw [resolve, List.isEmpty_cons, Bool.not_false, ih (List.cons_ne_nil t ss),
        length_closeSegment, head_closeSegment, within_cons (s := s), doubled_cons (s := s)]
      grind

theorem startsDoubled_iff (hslash : prepare input = '/' :: rest)
    (h : newUrl parser base input = some url) :
    url.StartsDoubled ↔ Doubled 0 (segments (pathText rest)) := by
  obtain ⟨origin, rfl⟩ := newUrl_eq_parsePath hslash h
  have hpath : (parsePath origin (pathText rest)).path = resolve [] (segments (pathText rest)) := by
    rw [← modifyHead_nil_append (segments _)]
    exact pathState_eq _ _ _
  rw [Url.StartsDoubled, hpath, resolve_doubled (segments_ne_nil _)]
  simp

/-! ## What the parser leaves -/

def isPathChar (c : Char) : Bool := !pathSet c && !isSlash c

structure CleanSegment (s : List Char) : Prop where
  chars : ∀ c ∈ s, isPathChar c = true
  single : isSingleDot s = false
  double : isDoubleDot s = false

theorem cleanSegment_nil : CleanSegment [] := ⟨by simp, rfl, rfl⟩

structure Url.Clean (url : Url) : Prop where
  path_ne : url.path ≠ []
  path : ∀ s ∈ url.path, CleanSegment s
  query : ∀ q, url.query = some q → ∀ c ∈ q, specialQuerySet c = false
  fragment : ∀ f, url.fragment = some f → ∀ c ∈ f, fragmentSet c = false

theorem closeSegment_clean (hpath : ∀ s ∈ path, CleanSegment s)
    (hbuffer : ∀ c ∈ buffer, isPathChar c = true) :
    ∀ s ∈ closeSegment path buffer slash, CleanSegment s := by
  have hsnoc : ∀ {q : List (List Char)} {s : List Char}, (∀ s ∈ q, CleanSegment s) →
      CleanSegment s → ∀ t ∈ q ++ [s], CleanSegment t := by
    intro q s hq hs t ht
    rcases List.mem_append.mp ht with ht | ht
    · exact hq t ht
    · rwa [List.mem_singleton.mp ht]
  have hdrop : ∀ s ∈ path.dropLast, CleanSegment s :=
    fun s hs => hpath s ((List.dropLast_sublist path).subset hs)
  unfold closeSegment
  split_ifs with hdouble hslash hsingle hslash
  · exact hdrop
  · exact hsnoc hdrop cleanSegment_nil
  · exact hpath
  · exact hsnoc hpath cleanSegment_nil
  · exact hsnoc hpath ⟨hbuffer, by simpa using hsingle, by simpa using hdouble⟩

theorem closeSegment_ne_nil (path : List (List Char)) (buffer : List Char) :
    closeSegment path buffer false ≠ [] := by
  unfold closeSegment
  split_ifs <;> simp_all

theorem isPathChar_of_mem_encodeChar (hc : isSlash c = false) (h : d ∈ encodeChar pathSet c) :
    isPathChar d = true := by
  have hset := not_mem_set_of_mem_encodeChar stable_pathSet h
  have hslash : isSlash d = false := by
    by_contra hd
    have hd' : d = '/' ∨ d = '\\' := by simpa [isSlash, or_iff_not_imp_left] using hd
    have hmem : d ∈ percentEncode pathSet [c] := by simpa [percentEncode] using h
    have hdc : d ∈ [c] := by
      refine mem_of_mem_percentEncode ?_ hmem
      rcases hd' with rfl | rfl <;> decide
    rw [List.mem_singleton.mp hdc] at hd
    exact hd hc
  simp [isPathChar, hset, hslash]

theorem pathState_clean (cs : List Char) (hpath : ∀ s ∈ path, CleanSegment s)
    (hbuffer : ∀ c ∈ buffer, isPathChar c = true) :
    (pathState cs path buffer).1 ≠ [] ∧ ∀ s ∈ (pathState cs path buffer).1, CleanSegment s := by
  fun_induction pathState cs path buffer with
  | case1 path buffer => exact ⟨closeSegment_ne_nil _ _, closeSegment_clean hpath hbuffer⟩
  | case2 c cs path buffer _ ih =>
    exact ih (closeSegment_clean hpath hbuffer) fun d hd => by cases hd
  | case3 c cs path buffer _ _ => exact ⟨closeSegment_ne_nil _ _, closeSegment_clean hpath hbuffer⟩
  | case4 c cs path buffer hslash _ ih =>
    refine ih hpath ?_
    intro d hd
    rcases List.mem_append.mp hd with hd | hd
    · exact hbuffer d hd
    · exact isPathChar_of_mem_encodeChar (by simpa using hslash) hd

theorem parseFragment_clean (h : parseFragment cs = some f) : ∀ c ∈ f, fragmentSet c = false := by
  unfold parseFragment at h
  split at h
  · cases h
    exact fun c hc => not_mem_set_of_mem_percentEncode stable_fragmentSet hc
  · cases h

theorem parsePath_clean (origin : Origin) (cs : List Char) : (parsePath origin cs).Clean := by
  have hpath : (pathState cs [] []).1 ≠ [] ∧ ∀ s ∈ (pathState cs [] []).1, CleanSegment s :=
    pathState_clean cs (by simp) (by simp)
  refine ⟨hpath.1, hpath.2, ?_, ?_⟩
  · intro q hq
    simp only [parsePath, parseQuery] at hq
    split at hq
    · cases hq
      exact fun c hc => not_mem_set_of_mem_percentEncode stable_specialQuerySet hc
    · cases hq
  · intro f hf
    simp only [parsePath, parseQuery] at hf
    split at hf
    · exact parseFragment_clean hf
    · exact parseFragment_clean hf

theorem newUrl_clean (hslash : prepare input = '/' :: rest)
    (h : newUrl parser base input = some url) : url.Clean := by
  obtain ⟨origin, rfl⟩ := newUrl_eq_parsePath hslash h
  exact parsePath_clean _ _

/-! ## Where a backslash comes from -/

theorem pathState_suffix (cs : List Char) (path : List (List Char)) (buffer : List Char) :
    (pathState cs path buffer).2 <:+ cs := by
  fun_induction pathState cs path buffer with
  | case1 path buffer => exact List.suffix_rfl
  | case2 c cs path buffer _ ih => exact ih.trans (List.suffix_cons c cs)
  | case3 c cs path buffer _ _ => exact List.suffix_rfl
  | case4 c cs path buffer _ _ ih => exact ih.trans (List.suffix_cons c cs)

theorem backslash_mem_of_percentEncode (h : '\\' ∈ percentEncode set cs) : '\\' ∈ cs :=
  mem_of_mem_percentEncode (by decide) h

theorem backslash_mem_of_parseFragment (h : parseFragment cs = some f) (hf : '\\' ∈ f) :
    '\\' ∈ cs := by
  unfold parseFragment at h
  split at h
  · cases h
    exact List.mem_cons_of_mem _ (backslash_mem_of_percentEncode hf)
  · cases h

theorem backslash_mem_of_parseQuery (cs : List Char) :
    (∀ q, (parseQuery cs).1 = some q → '\\' ∈ q → '\\' ∈ cs) ∧
      ∀ f, (parseQuery cs).2 = some f → '\\' ∈ f → '\\' ∈ cs := by
  unfold parseQuery
  split
  · refine ⟨fun q hq hmem => ?_, fun f hf hmem => ?_⟩
    · cases hq
      have hquery := backslash_mem_of_percentEncode hmem
      exact List.mem_cons_of_mem _ (List.takeWhile_subset _ hquery)
    · have hfragment := backslash_mem_of_parseFragment hf hmem
      exact List.mem_cons_of_mem _ (List.dropWhile_subset _ hfragment)
  · exact ⟨fun q hq => absurd hq (by simp), fun f => backslash_mem_of_parseFragment⟩

/-- The segments of a path hold no backslash, and the query and the fragment only those of the
text. -/
theorem backslash_mem_of_parsePath {origin : Origin}
    (h : '\\' ∈ (parsePath origin cs).reference) : '\\' ∈ cs := by
  obtain ⟨hquery, hfragment⟩ := backslash_mem_of_parseQuery (pathState cs [] []).2
  rcases List.mem_append.mp h with h | h
  · rcases List.mem_append.mp h with h | h
    · obtain ⟨s, hs, hmem⟩ := List.mem_flatMap.mp h
      have hsegment : '\\' ∈ s := (List.mem_cons.mp hmem).resolve_left (by decide)
      have hclean := ((parsePath_clean origin cs).path s hs).chars _ hsegment
      exact absurd hclean (by decide)
    · unfold Url.search at h
      split at h
      next c q hq =>
        have hmem := (List.mem_cons.mp h).resolve_left (by decide)
        exact (pathState_suffix cs [] []).subset (hquery _ hq hmem)
      next => cases h
  · unfold Url.hash at h
    split at h
    next c f hf =>
      have hmem := (List.mem_cons.mp h).resolve_left (by decide)
      exact (pathState_suffix cs [] []).subset (hfragment _ hf hmem)
    next => cases h

theorem mem_of_mem_prepare (h : d ∈ prepare input) : d ∈ input := by
  simp only [prepare] at h
  have h := List.mem_reverse.mp (List.mem_filter.mp h).1
  exact List.dropWhile_subset _ (List.mem_reverse.mp (List.dropWhile_subset _ h))

theorem pathText_subset (cs : List Char) : pathText cs ⊆ cs := by
  have hstart : ∀ cs, pathStart cs ⊆ cs := by
    intro cs
    unfold pathStart
    split
    · split_ifs <;> simp
    · simp
  unfold pathText
  split
  · split_ifs
    · refine List.Subset.trans (hstart _) (List.subset_cons_of_subset _ ?_)
      exact List.Subset.trans (List.dropWhile_subset _) (List.dropWhile_subset _)
    · simp
  · simp

theorem backslash_mem_of_newUrl (hslash : prepare input = '/' :: rest)
    (h : newUrl parser base input = some url) (hmem : '\\' ∈ url.reference) : '\\' ∈ input := by
  obtain ⟨origin, rfl⟩ := newUrl_eq_parsePath hslash h
  have hrest := pathText_subset rest (backslash_mem_of_parsePath hmem)
  exact mem_of_mem_prepare (hslash ▸ List.mem_cons_of_mem _ hrest)

theorem prepare_slash (cs : List Char) : ∃ rest, prepare ('/' :: cs) = '/' :: rest := by
  simp only [prepare]
  rw [List.dropWhile_cons_of_neg (by decide), List.reverse_cons, List.dropWhile_append]
  split
  · exact ⟨[], by decide⟩
  · exact ⟨_, by rw [List.reverse_append, List.reverse_singleton, List.singleton_append,
      List.filter_cons_of_pos (by decide)]⟩

/-! ## Parsing what was serialized -/

def EndsPath : List Char → Prop
  | [] => True
  | c :: _ => c = '?' ∨ c = '#'

theorem encodeChar_of_isPathChar (h : isPathChar c = true) : encodeChar pathSet c = [c] := by
  simp only [isPathChar, Bool.and_eq_true, Bool.not_eq_true'] at h
  simp [encodeChar, h.1]

theorem not_end_of_isPathChar (h : isPathChar c = true) :
    isSlash c = false ∧ ¬ (c = '?' ∨ c = '#') := by
  simp only [isPathChar, Bool.and_eq_true, Bool.not_eq_true'] at h
  refine ⟨h.2, ?_⟩
  rintro (rfl | rfl)
  · exact absurd h.1 (by decide)
  · exact absurd h.1 (by decide)

theorem pathState_append (hs : ∀ c ∈ s, isPathChar c = true) (cs : List Char)
    (path : List (List Char)) (buffer : List Char) :
    pathState (s ++ cs) path buffer = pathState cs path (buffer ++ s) := by
  induction s generalizing buffer with
  | nil => simp
  | cons c s ih =>
    rw [List.forall_mem_cons] at hs
    obtain ⟨hslash, hend⟩ := not_end_of_isPathChar hs.1
    rw [List.cons_append, pathState, hslash, if_neg Bool.false_ne_true, if_neg hend,
      encodeChar_of_isPathChar hs.1, ih hs.2, List.append_assoc, List.singleton_append]

theorem closeSegment_of_clean (hs : CleanSegment s) (path : List (List Char)) (slash : Bool) :
    closeSegment path s slash = path ++ [s] := by
  simp [closeSegment, hs.single, hs.double]

theorem pathState_segments (hclean : ∀ t ∈ s :: ss, CleanSegment t) (hrest : EndsPath rest)
    (path : List (List Char)) :
    pathState (s ++ (ss.flatMap ('/' :: ·) ++ rest)) path [] = (path ++ s :: ss, rest) := by
  induction ss generalizing s path with
  | nil =>
    have hs := hclean s List.mem_cons_self
    rw [List.flatMap_nil, List.nil_append, pathState_append hs.chars, List.nil_append]
    cases rest with
    | nil => rw [pathState, closeSegment_of_clean hs]
    | cons c rest =>
      have hc : c = '?' ∨ c = '#' := hrest
      have hslash : isSlash c = false := by rcases hc with rfl | rfl <;> rfl
      rw [pathState, hslash, if_neg Bool.false_ne_true, if_pos hc, closeSegment_of_clean hs]
  | cons t ss ih =>
    rw [List.forall_mem_cons] at hclean
    rw [List.flatMap_cons, List.append_assoc, List.cons_append, pathState_append hclean.1.chars,
      List.nil_append, pathState, if_pos (by rfl), closeSegment_of_clean hclean.1, ih hclean.2,
      List.append_assoc, List.singleton_append]

theorem parseFragment_hash (hclean : url.Clean) :
    parseFragment url.hash = url.fragment.filter (· ≠ []) := by
  unfold Url.hash
  cases hf : url.fragment with
  | none => rfl
  | some f =>
    have hchars := hclean.fragment f hf
    cases f with
    | nil => rfl
    | cons c cs => simp [parseFragment, percentEncode_eq_self hchars, Option.filter_some]

theorem endsPath_hash (url : Url) : EndsPath url.hash := by
  unfold Url.hash
  split
  · exact Or.inr rfl
  · trivial

theorem span_hash (url : Url) :
    url.hash.takeWhile (· ≠ '#') = [] ∧ url.hash.dropWhile (· ≠ '#') = url.hash := by
  unfold Url.hash
  split <;> simp

theorem parseQuery_search (hclean : url.Clean) :
    parseQuery (url.search ++ url.hash) =
      (url.query.filter (· ≠ []), url.fragment.filter (· ≠ [])) := by
  have hhash := parseFragment_hash hclean
  have hnone : parseQuery url.hash = (none, url.fragment.filter (· ≠ [])) := by
    rw [← hhash]
    unfold Url.hash
    split <;> rfl
  unfold Url.search
  cases hq : url.query with
  | none => exact hnone
  | some q =>
    have hchars := hclean.query q hq
    cases q with
    | nil => exact hnone
    | cons c cs =>
      have hsign : ∀ d ∈ c :: cs, decide (d ≠ '#') = true := by
        intro d hd
        have hset := hchars d hd
        refine decide_eq_true ?_
        rintro rfl
        cases hset
      have htake : (c :: cs ++ url.hash).takeWhile (· ≠ '#') = c :: cs := by
        rw [List.takeWhile_append_of_pos hsign, (span_hash url).1, List.append_nil]
      have hdrop : (c :: cs ++ url.hash).dropWhile (· ≠ '#') = url.hash := by
        rw [List.dropWhile_append_of_pos hsign, (span_hash url).2]
      show (some (percentEncode specialQuerySet ((c :: cs ++ url.hash).takeWhile (· ≠ '#'))),
        parseFragment ((c :: cs ++ url.hash).dropWhile (· ≠ '#'))) = _
      rw [htake, hdrop, percentEncode_eq_self hchars, hhash]
      rfl

/-! ## The reference of a clean URL -/

def isVisible (c : Char) : Bool := 0x20 < c.toNat && c.toNat < 0x7f

theorem prepare_eq_self (h : ∀ c ∈ input, isVisible c = true) : prepare input = input := by
  have hlarge : ∀ c ∈ input, 0x20 < c.toNat := by
    intro c hc
    have := h c hc
    simp only [isVisible, Bool.and_eq_true, decide_eq_true_eq] at this
    exact this.1
  have hkeep : ∀ {l : List Char}, (∀ c ∈ l, 0x20 < c.toNat) →
      l.dropWhile (fun c => decide (c.toNat ≤ 0x20)) = l := by
    intro l hl
    cases l with
    | nil => rfl
    | cons c l =>
      have := hl c List.mem_cons_self
      rw [List.dropWhile_cons_of_neg]
      simpa using this
  have hfilter : input.filter (fun c => c ≠ '\t' ∧ c ≠ '\n' ∧ c ≠ '\r') = input := by
    rw [List.filter_eq_self]
    intro c hc
    have := hlarge c hc
    refine decide_eq_true ⟨?_, ?_, ?_⟩
    all_goals
      rintro rfl
      exact absurd this (by decide)
  have hreverse : ∀ c ∈ input.reverse, 0x20 < c.toNat :=
    fun c hc => hlarge c (List.mem_reverse.mp hc)
  simp only [prepare]
  rw [hkeep hlarge, hkeep hreverse, List.reverse_reverse, hfilter]

theorem isVisible_iff (c : Char) : isVisible c = true ↔ c0ControlSet c = false ∧ c ≠ ' ' := by
  have hspace : c = ' ' ↔ c.toNat = 0x20 := by
    rw [← Char.toNat_inj]
    rfl
  rw [ne_eq, hspace]
  simp only [isVisible, c0ControlSet, Bool.and_eq_true, decide_eq_true_eq, Bool.or_eq_false_iff,
    decide_eq_false_iff_not]
  omega

theorem isVisible_of_mem_reference (hclean : url.Clean) (h : c ∈ url.reference) :
    isVisible c = true := by
  rw [isVisible_iff]
  unfold Url.reference at h
  rcases List.mem_append.mp h with h | h
  · rcases List.mem_append.mp h with h | h
    · obtain ⟨s, hs, hc⟩ := List.mem_flatMap.mp h
      rcases List.mem_cons.mp hc with rfl | hc
      · decide
      · have := (hclean.path s hs).chars c hc
        simp only [isPathChar, pathSet, querySet, Bool.and_eq_true, Bool.not_eq_true',
          Bool.or_eq_false_iff, beq_eq_false_iff_ne] at this
        tauto
    · unfold Url.search at h
      split at h
      next d ds hq =>
        rcases List.mem_cons.mp h with rfl | hc
        · decide
        · have := hclean.query _ hq c hc
          simp only [specialQuerySet, querySet, Bool.or_eq_false_iff,
            beq_eq_false_iff_ne] at this
          tauto
      next => cases h
  · unfold Url.hash at h
    split at h
    next d ds hf =>
      rcases List.mem_cons.mp h with rfl | hc
      · decide
      · have := hclean.fragment _ hf c hc
        simp only [fragmentSet, Bool.or_eq_false_iff, beq_eq_false_iff_ne] at this
        tauto
    next => cases h

theorem endsPath_search (url : Url) : EndsPath (url.search ++ url.hash) := by
  unfold Url.search
  split
  · exact Or.inl rfl
  · exact endsPath_hash url

theorem reference_eq (h : url.path = s :: ss) :
    url.reference = '/' :: (s ++ (ss.flatMap ('/' :: ·) ++ (url.search ++ url.hash))) := by
  simp [Url.reference, Url.pathname, h]

theorem parsePath_reference (hclean : url.Clean) (base : Origin) (h : url.path = s :: ss) :
    parsePath base (s ++ (ss.flatMap ('/' :: ·) ++ (url.search ++ url.hash))) =
      { url with
        origin := base
        query := url.query.filter (· ≠ [])
        fragment := url.fragment.filter (· ≠ []) } := by
  have hsegments := pathState_segments (fun t ht => hclean.path t (h ▸ ht)) (endsPath_search url) []
  simp only [parsePath, hsegments, parseQuery_search hclean, List.nil_append, h]

/-- What stands after the first slash is not a second one, unless the path starts with an
empty segment and has another. -/
theorem isSlash_of_reference (hclean : url.Clean) (hdoubled : ¬ url.StartsDoubled)
    (h : url.path = s :: ss)
    (hc : s ++ (ss.flatMap ('/' :: ·) ++ (url.search ++ url.hash)) = c :: cs) :
    isSlash c = false := by
  cases s with
  | cons d s =>
    cases hc
    have hs := hclean.path (c :: s) (h ▸ List.mem_cons_self)
    exact (not_end_of_isPathChar (hs.chars c List.mem_cons_self)).1
  | nil =>
    cases ss with
    | cons t ss => exact absurd ⟨t, ss, h⟩ hdoubled
    | nil =>
      have hends := endsPath_search url
      rw [show url.search ++ url.hash = c :: cs from hc] at hends
      rcases hends with rfl | rfl <;> rfl

/-- A clean URL is read back from what follows its origin, unless that starts with two
slashes: against any base, and with that base's origin. -/
theorem newUrl_reference (hclean : url.Clean) (hdoubled : ¬ url.StartsDoubled) (parser : Parser)
    (base : Origin) :
    newUrl parser base url.reference = some { url with
      origin := base
      query := url.query.filter (· ≠ [])
      fragment := url.fragment.filter (· ≠ []) } := by
  have hprepare : prepare url.reference = url.reference :=
    prepare_eq_self fun c hc => isVisible_of_mem_reference hclean hc
  obtain ⟨s, ss, hpath⟩ := List.exists_cons_of_ne_nil hclean.path_ne
  have hparse := parsePath_reference hclean base hpath
  have hslash : ∀ c cs, s ++ (ss.flatMap ('/' :: ·) ++ (url.search ++ url.hash)) = c :: cs →
      isSlash c = false := fun _ _ => isSlash_of_reference hclean hdoubled hpath
  rw [newUrl, hprepare, reference_eq hpath]
  generalize s ++ (ss.flatMap ('/' :: ·) ++ (url.search ++ url.hash)) = rest at hparse hslash
  simp only [isSlash, beq_self_eq_true, Bool.true_or, if_true]
  cases rest with
  | nil => rw [parseSlash, hparse]
  | cons c cs => rw [parseSlash, hslash c cs rfl, if_neg Bool.false_ne_true, hparse]

theorem reference_of_read (url : Url) (base : Origin) :
    Url.reference { url with
      origin := base
      query := url.query.filter (· ≠ [])
      fragment := url.fragment.filter (· ≠ []) } = url.reference := by
  obtain ⟨origin, path, query, fragment⟩ := url
  have hsearch : ∀ q : Option (List Char), (match q.filter (· ≠ []) with
      | some (c :: cs) => '?' :: c :: cs
      | _ => []) = (match q with
      | some (c :: cs) => '?' :: c :: cs
      | _ => []) := by
    rintro (_ | _ | ⟨c, cs⟩) <;> rfl
  have hhash : ∀ f : Option (List Char), (match f.filter (· ≠ []) with
      | some (c :: cs) => '#' :: c :: cs
      | _ => []) = (match f with
      | some (c :: cs) => '#' :: c :: cs
      | _ => []) := by
    rintro (_ | _ | ⟨c, cs⟩) <;> rfl
  simp only [Url.reference, Url.pathname, Url.search, Url.hash]
  rw [hsearch, hhash]

end Monierave.Web
