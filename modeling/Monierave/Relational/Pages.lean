import Monierave.Relational.Window

/-! # Pages

A list is shown page by page.
-/

namespace Monierave.Relational

variable {R K : Type} [LinearOrder K] {key : R → K}

/-- The `i`-th page of `n` rows. -/
def slice (n i : ℕ) (rows : List R) : List R := (rows.drop (i * n)).take n

variable {rows : List R} {cursor : Option K} {r : R} {n i : ℕ}

theorem flatMap_slice (n k : ℕ) (rows : List R) :
    (List.range k).flatMap (fun i => slice n i rows) = rows.take (k * n) := by
  induction k with
  | zero => simp
  | succ k ih =>
    rw [List.range_succ, List.flatMap_append, ih, List.flatMap_singleton, slice, Nat.succ_mul,
      List.take_add]

def remaining (key : R → K) (rows : List R) (cursor : Option K) : List R :=
  orderByDesc key (rows.filter fun r => cursor.all (key r < ·))

@[simp] theorem remaining_none (key : R → K) (rows : List R) :
    remaining key rows none = orderByDesc key rows := by
  simp [remaining]

theorem mem_remaining :
    r ∈ remaining key rows cursor ↔ r ∈ rows ∧ ∀ k, cursor = some k → key r < k := by
  rw [remaining, perm_orderByDesc.mem_iff, List.mem_filter]
  cases cursor <;> simp

theorem descending_remaining (h : DistinctKeys key rows) (cursor : Option K) :
    (remaining key rows cursor).Pairwise fun a b => key b < key a :=
  descending_orderByDesc (h.filter _)

theorem remaining_after {pre post : List R} (h : DistinctKeys key rows)
    (hsplit : remaining key rows cursor = pre ++ r :: post) :
    remaining key rows (some (key r)) = post := by
  have hdesc := descending_remaining h cursor
  rw [hsplit, List.pairwise_append] at hdesc
  obtain ⟨_, hpost, hpre⟩ := hdesc
  rw [List.pairwise_cons] at hpost
  have hantisymm : Std.Antisymm fun a b : R => key b < key a :=
    ⟨fun a b hab hba => absurd hab (not_lt.mpr hba.le)⟩
  refine List.Perm.eq_of_pairwise' (descending_remaining h _) hpost.2 ?_
  refine (List.perm_ext_iff_of_nodup ?_ ?_).mpr fun a => ?_
  · exact (descending_remaining h _).imp fun hab heq => absurd hab (by rw [heq]; exact lt_irrefl _)
  · exact hpost.2.imp fun hab heq => absurd hab (by rw [heq]; exact lt_irrefl _)
  · rw [mem_remaining]
    constructor
    · rintro ⟨ha, hlt⟩
      have hlt := hlt _ rfl
      have hr : r ∈ remaining key rows cursor := by simp [hsplit]
      have ha' : a ∈ remaining key rows cursor :=
        mem_remaining.mpr ⟨ha, fun k hk => hlt.trans ((mem_remaining.mp hr).2 k hk)⟩
      rw [hsplit, List.mem_append, List.mem_cons] at ha'
      rcases ha' with ha' | rfl | ha'
      · exact absurd (hpre a ha' r List.mem_cons_self) (not_lt.mpr hlt.le)
      · exact absurd hlt (lt_irrefl _)
      · exact ha'
    · intro ha
      have ha' : a ∈ remaining key rows cursor := by simp [hsplit, ha]
      exact ⟨(mem_remaining.mp ha').1, fun k hk => by cases hk; exact hpost.1 a ha⟩

/-- A walk over pages of `n` rows, where the `i`-th page is taken from `rows i`. There is
a next page as long as there is more to show than fits the page. -/
inductive PageWalk (key : R → K) (n : ℕ) (rows : ℕ → List R) :
    ℕ → Option K → List (List R) → Prop
  | last {i : ℕ} {cursor : Option K} (h : (remaining key (rows i) cursor).length ≤ n) :
      PageWalk key n rows i cursor [remaining key (rows i) cursor]
  | more {i : ℕ} {cursor : Option K} {pre post : List R} {r : R} {pages : List (List R)}
      (hsplit : remaining key (rows i) cursor = pre ++ r :: post) (hlen : pre.length + 1 = n)
      (hpost : post ≠ []) (hrest : PageWalk key n rows (i + 1) (some (key r)) pages) :
      PageWalk key n rows i cursor ((pre ++ [r]) :: pages)

namespace PageWalk

variable {n : ℕ} {rows : ℕ → List R} {i : ℕ} {cursor : Option K} {pages : List (List R)}

theorem below_cursor (h : PageWalk key n rows i cursor pages) :
    ∀ r ∈ pages.flatten, ∀ k, cursor = some k → key r < k := by
  induction h with
  | last hlen =>
    intro r hr
    rw [List.flatten_singleton] at hr
    exact (mem_remaining.mp hr).2
  | @more i cursor pre post r pages hsplit hlen hpost hrest ih =>
    have hr : ∀ k, cursor = some k → key r < k :=
      (mem_remaining.mp (show r ∈ remaining key (rows i) cursor by simp [hsplit])).2
    intro a ha k hk
    rw [List.flatten_cons, List.mem_append] at ha
    rcases ha with ha | ha
    · refine (mem_remaining.mp (?_ : a ∈ remaining key (rows i) cursor)).2 k hk
      rw [hsplit]
      simp only [List.mem_append, List.mem_cons, List.not_mem_nil, or_false] at ha ⊢
      tauto
    · exact (ih a ha _ rfl).trans (hr k hk)

theorem descending (hrows : ∀ i, DistinctKeys key (rows i)) (h : PageWalk key n rows i cursor pages) :
    pages.flatten.Pairwise fun a b => key b < key a := by
  induction h with
  | last hlen =>
    rw [List.flatten_singleton]
    exact descending_remaining (hrows _) _
  | @more i cursor pre post r pages hsplit hlen hpost hrest ih =>
    have hdesc := descending_remaining (hrows i) cursor
    rw [hsplit, List.append_cons, List.pairwise_append] at hdesc
    rw [List.flatten_cons, List.pairwise_append]
    refine ⟨hdesc.1, ih, fun a ha b hb => ?_⟩
    have hb' : key b < key r := hrest.below_cursor b hb _ rfl
    rcases List.mem_append.mp ha with ha | ha
    · have hpre := List.pairwise_append.mp hdesc.1
      exact hb'.trans (hpre.2.2 a ha r List.mem_cons_self)
    · rw [List.mem_singleton.mp ha]
      exact hb'

theorem mem_rows (h : PageWalk key n rows i cursor pages) {r : R} (hr : r ∈ pages.flatten) :
    ∃ j, i ≤ j ∧ j < i + pages.length ∧ r ∈ rows j := by
  induction h with
  | last hlen =>
    rw [List.flatten_singleton] at hr
    exact ⟨_, le_refl _, by simp, (mem_remaining.mp hr).1⟩
  | @more i cursor pre post a pages hsplit hlen hpost hrest ih =>
    rw [List.flatten_cons, List.mem_append] at hr
    rcases hr with hr | hr
    · refine ⟨i, le_refl i, by simp, (mem_remaining.mp (?_ : r ∈ remaining key (rows i) cursor)).1⟩
      rw [hsplit]
      simp only [List.mem_append, List.mem_cons, List.not_mem_nil, or_false] at hr ⊢
      tauto
    · obtain ⟨j, hij, hj, hmem⟩ := ih hr
      exact ⟨j, by omega, by rw [List.length_cons]; omega, hmem⟩

theorem covers (hrows : ∀ i, DistinctKeys key (rows i)) (h : PageWalk key n rows i cursor pages) {k : K}
    (hk : ∀ j, i ≤ j → j < i + pages.length → ∃ r ∈ rows j, key r = k)
    (hcursor : ∀ c, cursor = some c → k < c) : ∃ r ∈ pages.flatten, key r = k := by
  induction h with
  | last hlen =>
    obtain ⟨r, hr, rfl⟩ := hk _ (le_refl _) (by simp)
    exact ⟨r, by rw [List.flatten_singleton]; exact mem_remaining.mpr ⟨hr, hcursor⟩, rfl⟩
  | @more i cursor pre post a pages hsplit hlen hpost hrest ih =>
    obtain ⟨r, hr, rfl⟩ := hk i (le_refl i) (by simp)
    have hmem : r ∈ remaining key (rows i) cursor := mem_remaining.mpr ⟨hr, hcursor⟩
    have hdesc := descending_remaining (hrows i) cursor
    rw [hsplit, List.append_cons] at hmem hdesc
    rw [List.flatten_cons]
    rcases List.mem_append.mp hmem with hmem | hmem
    · exact ⟨r, List.mem_append_left _ hmem, rfl⟩
    · -- it stands below the page, so it is left for the pages that follow
      have hlt : key r < key a :=
        (List.pairwise_append.mp hdesc).2.2 a (by simp) r hmem
      obtain ⟨r', hr', heq⟩ := ih (fun j hij hj => hk j (by omega) (by
        rw [List.length_cons]; omega)) fun c hc => by cases hc; exact hlt
      exact ⟨r', List.mem_append_right _ hr', heq⟩

theorem flatten_eq {rows₀ : List R} (hrows : DistinctKeys key rows₀)
    (h : PageWalk key n (fun _ => rows₀) i cursor pages) :
    pages.flatten = remaining key rows₀ cursor := by
  induction h with
  | last hlen => exact List.flatten_singleton
  | more hsplit hlen hpost hrest ih =>
    rw [List.flatten_cons, ih, remaining_after hrows hsplit, hsplit, ← List.append_cons]

theorem step (key : R → K) (rows : ℕ → List R) (hn : 0 < n) (i : ℕ) (cursor : Option K) :
    (remaining key (rows i) cursor).length ≤ n ∨
      ∃ pre r post, remaining key (rows i) cursor = pre ++ r :: post ∧ pre.length + 1 = n ∧
        post ≠ [] := by
  by_cases hlen : (remaining key (rows i) cursor).length ≤ n
  · exact Or.inl hlen
  · rw [not_le] at hlen
    refine Or.inr ⟨(remaining key (rows i) cursor).take (n - 1),
      (remaining key (rows i) cursor).get ⟨n - 1, by omega⟩,
      (remaining key (rows i) cursor).drop n, ?_, ?_, ?_⟩
    · have hdrop := List.drop_eq_getElem_cons (l := remaining key (rows i) cursor) (i := n - 1)
        (by omega)
      rw [show n - 1 + 1 = n by omega] at hdrop
      rw [List.get_eq_getElem, ← hdrop, List.take_append_drop]
    · rw [List.length_take]
      omega
    · intro hnil
      have := List.drop_eq_nil_iff.mp hnil
      omega

theorem exists_walk (hn : 0 < n) (hrows : ∀ i, DistinctKeys key (rows i)) {N : ℕ}
    (hrest : ∀ i, N ≤ i → rows i = rows N) (i : ℕ) (cursor : Option K) :
    ∃ pages, PageWalk key n rows i cursor pages := by
  -- from then on there is less to show after every page
  have hlate : ∀ m i cursor, N ≤ i → (remaining key (rows N) cursor).length ≤ m →
      ∃ pages, PageWalk key n rows i cursor pages := by
    intro m
    induction m with
    | zero =>
      intro i cursor hi hm
      exact ⟨_, .last (by rw [hrest i hi]; omega)⟩
    | succ m ih =>
      intro i cursor hi hm
      rcases step key rows hn i cursor with hlen | ⟨pre, r, post, hsplit, hlen, hpost⟩
      · exact ⟨_, .last hlen⟩
      · have hsplit' := hsplit
        rw [hrest i hi] at hsplit'
        obtain ⟨pages, hpages⟩ := ih (i + 1) (some (key r)) (by omega) (by
          rw [remaining_after (hrows N) hsplit']
          rw [hsplit'] at hm
          simp only [List.length_append, List.length_cons] at hm
          omega)
        exact ⟨_, .more hsplit hlen hpost hpages⟩
  have hearly : ∀ d i cursor, N ≤ i + d → ∃ pages, PageWalk key n rows i cursor pages := by
    intro d
    induction d with
    | zero => exact fun i cursor hi => hlate _ i cursor hi (le_refl _)
    | succ d ih =>
      intro i cursor hi
      rcases step key rows hn i cursor with hlen | ⟨pre, r, post, hsplit, hlen, hpost⟩
      · exact ⟨_, .last hlen⟩
      · obtain ⟨pages, hpages⟩ := ih (i + 1) (some (key r)) (by omega)
        exact ⟨_, .more hsplit hlen hpost hpages⟩
  exact hearly N i cursor (by omega)

end PageWalk

/-! ## Following the cursors

A client asks for a page, reads the cursor of the next one off the answer, and goes
on until there is none or a request is refused.
-/

variable {ε P C : Type}

/-- The pages a client comes to, starting with the request `i`; nothing if the requests
do not suffice. -/
def follow (request : ℕ → C → Except ε P) (next : P → Option C) :
    ℕ → ℕ → C → Option (Except ε (List P))
  | 0, _, _ => none
  | fuel + 1, i, c =>
    match request i c with
    | .error e => some (.error e)
    | .ok page =>
      match next page with
      | none => some (.ok [page])
      | some c' => (follow request next fuel (i + 1) c').map (Except.map (page :: ·))

/-- The requests are answered with keyset pages, where `reads c k` says that the text
`c` of a cursor stands for the key `k`. -/
structure Paginates (request : ℕ → C → Except ε P) (next : P → Option C) (shown : P → List R)
    (reads : C → Option K → Prop) (key : R → K) (n : ℕ) (rows : ℕ → List R) : Prop where
  shown : ∀ {i c k page}, reads c k → request i c = .ok page →
    shown page = (remaining key (rows i) k).take n
  last : ∀ {i c k page}, reads c k → request i c = .ok page →
    (remaining key (rows i) k).length ≤ n → next page = none
  more : ∀ {i c k page pre r post}, reads c k → request i c = .ok page →
    remaining key (rows i) k = pre ++ r :: post → pre.length + 1 = n → post ≠ [] →
      ∃ c', next page = some c' ∧ reads c' (some (key r))

theorem Paginates.of_page {Q : Type} {request : ℕ → C → Except ε P} {next : P → Option C}
    {shown : P → List R} {reads : C → Option K → Prop} {rows : ℕ → List R}
    (h : Paginates request next shown reads key n rows) {ε' : Type} (page : Q → P)
    (request' : ℕ → C → Except ε' Q)
    (hpage : ∀ {i c q}, request' i c = .ok q → request i c = .ok (page q)) :
    Paginates request' (next ∘ page) (shown ∘ page) reads key n rows where
  shown hc hq := h.shown hc (hpage hq)
  last hc hq hlen := h.last hc (hpage hq) hlen
  more hc hq hsplit hlen hpost := h.more hc (hpage hq) hsplit hlen hpost

theorem Paginates.follow_ends {request : ℕ → C → Except ε P} {next : P → Option C}
    {shown : P → List R} {reads : C → Option K → Prop} {rows : ℕ → List R}
    (h : Paginates request next shown reads key n rows) {k : Option K} {pages : List (List R)}
    (hwalk : PageWalk key n rows i k pages) {c : C} (hc : reads c k) :
    ∃ fuel, (∃ ps, follow request next fuel i c = some (.ok ps) ∧ ps.map shown = pages) ∨
      ∃ j c' k' e, reads c' k' ∧ request j c' = .error e ∧
        follow request next fuel i c = some (.error e) := by
  induction hwalk generalizing c with
  | @last i k hlen =>
    refine ⟨1, ?_⟩
    cases hreq : request i c with
    | error e => exact Or.inr ⟨i, c, k, e, hc, hreq, by simp [follow, hreq]⟩
    | ok page =>
      refine Or.inl ⟨[page], by simp [follow, hreq, h.last hc hreq hlen], ?_⟩
      rw [List.map_singleton, h.shown hc hreq, List.take_of_length_le hlen]
  | @more i k pre post r pages hsplit hlen hpost hrest ih =>
    cases hreq : request i c with
    | error e => exact ⟨1, Or.inr ⟨i, c, k, e, hc, hreq, by simp [follow, hreq]⟩⟩
    | ok page =>
      obtain ⟨c', hnext, hc'⟩ := h.more hc hreq hsplit hlen hpost
      obtain ⟨fuel, ⟨ps, hps, hshown⟩ | ⟨j, c'', k'', e, hc'', herr, hfollow⟩⟩ := ih hc'
      · refine ⟨fuel + 1, Or.inl ⟨page :: ps, by simp [follow, hreq, hnext, hps, Except.map], ?_⟩⟩
        rw [List.map_cons, h.shown hc hreq, hshown, hsplit, List.append_cons, ← hlen]
        congr 1
        exact List.take_left' (by simp)
      · exact ⟨fuel + 1, Or.inr ⟨j, c'', k'', e, hc'', herr, by
          simp [follow, hreq, hnext, hfollow, Except.map]⟩⟩

theorem follow_answers {request : ℕ → C → Except ε P} {next : P → Option C} {fuel : ℕ} {c : C}
    {ps : List P} (h : follow request next fuel i c = some (.ok ps)) :
    ps ≠ [] ∧ ∀ p ∈ ps, ∃ j c', request j c' = .ok p := by
  induction fuel generalizing i c ps with
  | zero => cases h
  | succ fuel ih =>
    rw [follow] at h
    cases hreq : request i c with
    | error e => simp [hreq] at h
    | ok page =>
      cases hnext : next page with
      | none =>
        simp only [hreq, hnext, Option.some.injEq, Except.ok.injEq] at h
        subst h
        exact ⟨List.cons_ne_nil _ _, fun p hp => ⟨i, c, by rw [List.mem_singleton.mp hp, hreq]⟩⟩
      | some c' =>
        simp only [hreq, hnext, Option.map_eq_some_iff] at h
        obtain ⟨x, hx, hmap⟩ := h
        cases x with
        | error e => cases hmap
        | ok rest =>
          obtain rfl : page :: rest = ps := Except.ok.inj hmap
          refine ⟨List.cons_ne_nil _ _, fun p hp => ?_⟩
          rcases List.mem_cons.mp hp with rfl | hp
          · exact ⟨i, c, hreq⟩
          · exact (ih hx).2 p hp

end Monierave.Relational
