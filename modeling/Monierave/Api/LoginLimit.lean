import Mathlib.Data.List.Nodup
import Monierave.Api.Login

/-! # How many passwords can be tried

As long as nothing fails that a request for a username needs, at most ten of the
requests in the first quarter of an hour get to compare a password.
-/

namespace Monierave

open Counting Processes LoginDesk

variable {check : String → String → Bool} {hash : String → String} {w : Nat}
  {req : LoginUserRequest} {s s' : LoginDesk} {key : String}

theorem meets_login {c : LoginCall} {Q : c.Answer → LoginDesk → Prop}
    (hreq : ∀ s', Grows s s' → LoginDesk.Requires w c s')
    (hQ : ∀ o s' s'', Grows s s' → Grows (serve check w o c s').1 s'' →
      Q (serve check w o c s').2 s'') :
    (loginDiscipline check hash).Meets w req (Proc.ask c) s Q := by
  refine .ask fun s' hs' _ => ⟨hreq s' hs'.1, fun o s'' hs'' _ => ?_⟩
  exact hQ o s' s'' hs'.1 hs''.1

/-- What is known when `authenticate` ends: the counter is deleted only after a success
or a failure. -/
def Concluded (w : Nat) (key : String) (reset : Bool) (s : LoginDesk) : Prop :=
  Admitted w key s ∧ (reset = true → Ended w s)

theorem meets_endWith {status : Nat} (h : Admitted w key s)
    (hstatus : status = 200 ∨ w ∈ s.failures) :
    (loginDiscipline check hash).Meets w req (endWith status) s (Concluded w key) := by
  refine .bind (meets_login (fun _ _ => trivial) fun o s' s'' h' h'' => ?_)
  have hgrows := serve_grows check w o (.reply status) s'
  have hended : Ended w (serve check w o (.reply status) s').1 := by
    rcases hstatus with rfl | hfailed
    · exact Or.inl List.mem_cons_self
    · exact Or.inr (hgrows.failures (h'.failures hfailed))
  refine .ret fun s₁ h₁ _ => ⟨?_, fun _ => (hended.mono h'').mono h₁.1⟩
  exact (((h.mono h').mono hgrows).mono h'').mono h₁.1

theorem meets_refuseCredentials (username reason : String) (h : Admitted w key s) :
    (loginDiscipline check hash).Meets w req (refuseCredentials username reason) s
      (Concluded w key) := by
  refine .bind (meets_login (fun _ _ => trivial) fun o s' s₁ h' h₁ => ?_)
  refine .bind (meets_login (fun _ _ => trivial) fun o' s'' s₂ h'' h₂ => ?_)
  have hgrows : Grows s s₂ :=
    ((h'.trans (serve_grows check w o _ s')).trans h₁).trans
      ((h''.trans (serve_grows check w o' _ s'')).trans h₂)
  exact .ret fun s₃ h₃ _ => ⟨(h.mono hgrows).mono h₃.1, by simp⟩

theorem meets_next {c : LoginCall} (hc : ∀ s, LoginDesk.Requires w c s)
    {k : c.Answer → LoginProcess Bool} (h : Admitted w key s)
    (hk : ∀ a s', Admitted w key s' → (c.fails a = true → w ∈ s'.failures) →
      (loginDiscipline check hash).Meets w req (k a) s' (Concluded w key)) :
    (loginDiscipline check hash).Meets w req (Proc.ask c >>= k) s (Concluded w key) := by
  refine .bind (meets_login (fun s' _ => hc s') fun o s' s₁ h' h₁ => hk _ _ ?_ ?_)
  · exact ((h.mono h').mono (serve_grows check w o c s')).mono h₁
  · exact fun hfails => h₁.failures (mem_failures hfails)

theorem meets_openSession (username : String) (h : Admitted w key s) :
    (loginDiscipline check hash).Meets w req (openSession username) s (Concluded w key) := by
  unfold openSession
  refine meets_next (fun _ => by trivial) h fun r₁ s₁ h₁ hfails₁ => ?_
  cases r₁ with
  | error e => exact meets_endWith h₁ (Or.inr (hfails₁ rfl))
  | ok u =>
    refine meets_next (fun _ => by trivial) h₁ fun r₂ s₂ h₂ hfails₂ => ?_
    cases r₂ with
    | error e => exact meets_endWith h₂ (Or.inr (hfails₂ rfl))
    | ok u =>
      refine meets_next (fun _ => by trivial) h₂ fun r₃ s₃ h₃ hfails₃ => ?_
      cases r₃ with
      | error e => exact meets_endWith h₃ (Or.inr (hfails₃ rfl))
      | ok u =>
        refine meets_next (fun _ => by trivial) h₃ fun r₄ s₄ h₄ hfails₄ => ?_
        cases r₄ with
        | error e => exact meets_endWith h₄ (Or.inr (hfails₄ rfl))
        | ok u => exact meets_endWith h₄ (Or.inl rfl)

theorem meets_authenticate (username password : String) (h : Admitted w key s) :
    (loginDiscipline check hash).Meets w req (authenticate username password) s
      (Concluded w key) := by
  unfold authenticate
  refine meets_next (fun _ => by trivial) h fun r s₁ h₁ hfails => ?_
  -- a password is compared only by a request that was let pass
  have hcompare : ∀ (hashed : String) (k : Bool → LoginProcess Bool),
      (∀ ok s', Admitted w key s' →
        (loginDiscipline check hash).Meets w req (k ok) s' (Concluded w key)) →
      (loginDiscipline check hash).Meets w req
        (LoginProcess.checkPassword password hashed >>= k) s₁ (Concluded w key) := by
    intro hashed k hk
    refine .bind (meets_login (fun s' hs' => ⟨key, h₁.mono hs'⟩)
      fun o s' s₂ h' h₂ => hk _ _ ?_)
    exact ((h₁.mono h').mono (serve_grows check w o _ s')).mono h₂
  match r with
  | .error .noRows => exact hcompare _ _ fun _ s' h' => meets_refuseCredentials _ _ h'
  | .error .failed => exact meets_endWith h₁ (Or.inr (hfails rfl))
  | .ok user =>
    refine hcompare _ _ fun ok s' h' => ?_
    cases ok with
    | true => exact meets_openSession _ h'
    | false => exact meets_refuseCredentials _ _ h'

theorem meets_allowRateLimitedRequest (key : String) (hfresh : ∀ a ∈ s.asked, a.worker ≠ w) :
    (loginDiscipline check hash).Meets w req
      (allowRateLimitedRequest key loginAccountLimit loginAccountWindow) s
      fun allowed s' => allowed = true → Admitted w key s' := by
  unfold allowRateLimitedRequest
  refine .bind (.ask fun s' hs' _ =>
    ⟨⟨rfl, rfl, fun a ha hw => hfresh a (hs'.2 a ha hw) hw⟩, fun o s₁ hs₁ _ => ?_⟩)
  split
  · rename_i hallowed
    refine .ret fun s₂ hs₂ _ _ => ?_
    have hadmitted : Admitted w key
        (serve check w o (.allow key loginAccountLimit loginAccountWindow) s').1 :=
      ⟨_, List.mem_cons_self, rfl, rfl, hallowed⟩
    exact (hadmitted.mono hs₁.1).mono hs₂.1
  · refine .bind (meets_login (fun _ _ => trivial) fun _ _ _ _ _ => ?_)
    exact .ret fun _ _ _ h => by simp at h

theorem loginDiscipline_kept (check : String → String → Bool) (hash : String → String) :
    (loginDiscipline check hash).Kept := by
  intro w req s hfresh
  show (loginDiscipline check hash).Meets w req (loginUser hash req) s fun _ _ => True
  have hreply : (loginDiscipline check hash).Meets w req (LoginProcess.reply 400) s
      fun _ _ => True := meets_login (fun _ _ => trivial) fun _ _ _ _ _ => trivial
  unfold loginUser
  split
  · split
    · exact hreply
    · refine .bind ((meets_allowRateLimitedRequest _ hfresh).mono ?_)
      intro allowed s₁ hadmitted
      split
      · rename_i hallowed
        refine .bind ((meets_authenticate _ _ (hadmitted hallowed)).mono ?_)
        rintro reset s₂ ⟨h₂, hended⟩
        split
        · rename_i hreset
          refine meets_login (fun s' hs' => ?_) fun _ _ _ _ _ => trivial
          exact ⟨h₂.mono hs', (hended hreset).mono hs'⟩
        · exact .ret fun _ _ _ => trivial
      · exact .ret fun _ _ _ => trivial
  · exact hreply

theorem loginDiscipline_initial (check : String → String → Bool) (hash : String → String)
    (now : Int) : (loginDiscipline check hash).Initial { now := now } :=
  ⟨⟨List.Pairwise.nil, by simp⟩, fun _ _ h => nomatch h⟩

namespace LoginDesk

def askedFor (key : String) (s : LoginDesk) : List Ask := s.asked.filter fun a => a.key = key

def allowedFrom (first : Ask) (key : String) (s : LoginDesk) : List Ask :=
  (s.askedFor key).filter fun a => a.at_ < first.at_ + loginAccountWindow ∧ a.allowed = true

/-- The counter has not been deleted: until it expires it says how often the limiter was
asked. -/
structure Counting (key : String) (s : LoginDesk) : Prop where
  counter : ∃ c : Option Counter, s.store (Redis.rateName key) = c.map Redis.ofEntry ∧
    ∀ e ∈ c, 1 ≤ e.count
  unasked : s.askedFor key = [] → s.store (Redis.rateName key) = none
  counted : ∀ first, (s.askedFor key).getLast? = some first → first.at_ ≤ s.now ∧
    (s.allowedFrom first key).length ≤ 10 ∧
    (s.now < first.at_ + loginAccountWindow → s.store (Redis.rateName key) =
      some (Redis.ofEntry ⟨(s.askedFor key).length, first.at_ + loginAccountWindow⟩))

theorem Counting.of_unchanged (h : Counting key s) (hasked : s'.askedFor key = s.askedFor key)
    (hstore : s'.store (Redis.rateName key) = s.store (Redis.rateName key))
    (hnow : s.now ≤ s'.now) : Counting key s' := by
  refine ⟨hstore ▸ h.counter, fun hnil => hstore.trans (h.unasked (hasked ▸ hnil)),
    fun first hfirst => ?_⟩
  rw [hasked] at hfirst
  obtain ⟨hpast, hle, hcounter⟩ := h.counted first hfirst
  refine ⟨hpast.trans hnow, ?_, fun hin => ?_⟩
  · rwa [allowedFrom, hasked]
  · rw [hstore, hasked]
    exact hcounter (hnow.trans_lt hin)

theorem Counting.allow (h : Counting key s) (w : Nat) :
    Counting key (s.allow w key loginAccountLimit loginAccountWindow).1 := by
  obtain ⟨c, hc, hpositive⟩ := h.counter
  obtain ⟨hstore, hanswer⟩ : _ ∧ _ :=
    Redis.allow_eq s.now loginAccountLimit (by decide : (0 : Int) < 15 * 60 * 1000) hc hpositive
  generalize hcounter : Counter.hit (15 * 60 * 1000 * 1000000) s.now c = counter at hstore hanswer
  have hasked : (s.allow w key loginAccountLimit loginAccountWindow).1.askedFor key =
      ⟨w, key, s.now, decide ((counter.count : Int) ≤ loginAccountLimit)⟩ :: s.askedFor key := by
    have hallow : (Redis.allow s.now key loginAccountLimit loginAccountWindow s.store).2.allowed =
        decide ((counter.count : Int) ≤ loginAccountLimit) := AllowAnswer.allowed_of_decision hanswer
    simp [askedFor, LoginDesk.allow, hallow]
  have hnow : (s.allow w key loginAccountLimit loginAccountWindow).1.now = s.now := rfl
  have hcount : 1 ≤ counter.count := hcounter ▸ one_le_hit_count _ _ _
  refine ⟨⟨some counter, hstore, by simpa using hcount⟩, fun hnil => by simp [hasked] at hnil,
    fun first hfirst => ?_⟩
  rw [hasked] at hfirst
  have hlimit : (counter.count : Int) ≤ loginAccountLimit ↔ counter.count ≤ 10 := Int.ofNat_le
  simp only [allowedFrom, hasked, hnow]
  by_cases hnil : s.askedFor key = []
  · -- the first question creates the counter
    rw [hnil, List.getLast?_singleton, Option.some.injEq] at hfirst
    subst hfirst
    have hnone : c = none := by
      rw [h.unasked hnil] at hc
      exact Option.map_eq_none_iff.mp hc.symm
    have hone : counter = ⟨1, s.now + loginAccountWindow⟩ := by
      rw [← hcounter, hnone]
      rfl
    refine ⟨le_rfl, ?_, fun _ => ?_⟩
    · rw [hnil]
      exact (List.length_filter_le _ _).trans (by simp)
    · rw [hnil]
      exact hstore.trans (by rw [hone]; rfl)
  · rw [List.getLast?_cons_of_ne_nil hnil] at hfirst
    obtain ⟨hpast, hle, hbefore⟩ := h.counted first hfirst
    have hcounted : s.now < first.at_ + loginAccountWindow →
        counter = ⟨(s.askedFor key).length + 1, first.at_ + loginAccountWindow⟩ := by
      intro hin
      have hsome : c = some ⟨(s.askedFor key).length, first.at_ + loginAccountWindow⟩ := by
        rw [hbefore hin] at hc
        obtain ⟨e, rfl, he⟩ := Option.map_eq_some_iff.mp hc.symm
        rw [Redis.ofEntry_injective he]
      rw [← hcounter, hsome, Counter.hit, Counter.live_some_of_lt hin]
    refine ⟨hpast, ?_, fun hin => ?_⟩
    · by_cases hin : s.now < first.at_ + loginAccountWindow
      · have hcount : counter.count = (s.askedFor key).length + 1 := by rw [hcounted hin]
        by_cases hallowed : counter.count ≤ 10
        · rw [List.filter_cons_of_pos (by simp [hin, hlimit, hallowed]), List.length_cons]
          have hfilter : (s.allowedFrom first key).length ≤ (s.askedFor key).length :=
            List.length_filter_le _ _
          rw [hcount] at hallowed
          exact (Nat.succ_le_succ hfilter).trans hallowed
        · rw [List.filter_cons_of_neg (by simp [hlimit, hallowed])]
          exact hle
      · rw [List.filter_cons_of_neg (by simp [hin])]
        exact hle
    · rw [List.length_cons, ← hcounted hin]
      exact hstore

def Broken (key : String) (s : LoginDesk) : Prop := ∃ w, Admitted w key s ∧ Ended w s

theorem Broken.mono (h : Broken key s) (hgrows : Grows s s') : Broken key s' := by
  obtain ⟨w, hadmitted, hended⟩ := h
  exact ⟨w, hadmitted.mono hgrows, hended.mono hgrows⟩

theorem Counting.serve {c : LoginCall} (h : Counting key s) (hreq : Requires w c s)
    (o : LoginChoice) :
    Broken key (serve check w o c s).1 ∨ Counting key (serve check w o c s).1 := by
  cases c with
  | allow k limit window =>
    obtain ⟨rfl, rfl, _⟩ := hreq
    by_cases hk : k = key
    · subst hk
      exact Or.inr (h.allow w)
    · refine Or.inr (h.of_unchanged ?_ ?_ le_rfl)
      · simp [LoginDesk.serve, answer, LoginDesk.allow, askedFor, hk]
      · exact Redis.allow_of_ne fun hname => hk (Redis.rateName_injective hname).symm
  | reset k =>
    by_cases hk : k = key
    · subst hk
      exact Or.inl ⟨w, hreq.1, hreq.2⟩
    · refine Or.inr (h.of_unchanged rfl ?_ le_rfl)
      exact Redis.set_of_ne fun hname => hk (Redis.rateName_injective hname).symm
  | _ => exact Or.inr (h.of_unchanged rfl rfl le_rfl)

end LoginDesk

theorem loginRun_counting (check : String → String → Bool) (hash : String → String) (now : Int)
    (acts : List LoginAction) (key : String) :
    Broken key (loginRun check hash now acts) ∨ Counting key (loginRun check hash now acts) := by
  refine (loginDiscipline_kept check hash).shared_induction
    (P := fun s => Broken key s ∨ Counting key s) (loginDiscipline_initial check hash now) ?_ ?_ ?_
    acts
  · exact Or.inr ⟨⟨none, rfl, by simp⟩, fun _ => rfl, by simp [askedFor]⟩
  · intro w j o c s _ hreq h
    rcases h with hbroken | hcounting
    · exact Or.inl (hbroken.mono (serve_grows check w o c s))
    · exact hcounting.serve hreq o
  · intro elapsed s h
    have hgrows : Grows s ((loginSystem check hash).outside elapsed s) :=
      ⟨by simp [loginSystem], fun _ h => h, fun _ h => h, fun _ h => h⟩
    exact h.imp (fun hbroken => hbroken.mono hgrows)
      fun hcounting => hcounting.of_unchanged rfl rfl hgrows.now

/-- If no request for a username succeeds, and for none of them the store (other than with no
such user), the token maker or the source of device secrets fails, at most ten of the
requests in the quarter of an hour from the first one on compare a password. -/
theorem loginRun_compared_le (check : String → String → Bool) (hash : String → String) (now : Int)
    (acts : List LoginAction) (username : String) (first : Ask)
    (hfirst : ((loginRun check hash now acts).askedFor (loginAccountKey hash username)).getLast? =
      some first)
    (hfailed : ∀ a ∈ (loginRun check hash now acts).askedFor (loginAccountKey hash username),
      (a.worker, 200) ∉ (loginRun check hash now acts).replies ∧
        a.worker ∉ (loginRun check hash now acts).failures) :
    (((loginRun check hash now acts).askedFor (loginAccountKey hash username)).filter fun a =>
      a.at_ < first.at_ + loginAccountWindow ∧
        a.worker ∈ (loginRun check hash now acts).compared).length ≤ 10 := by
  generalize hs : loginRun check hash now acts = s at hfirst hfailed ⊢
  have hsound : Sound s := hs ▸
    ((loginDiscipline_kept check hash).inForce (loginDiscipline_initial check hash now) acts).inv
  have hcounting : Counting (loginAccountKey hash username) s := by
    rcases loginRun_counting check hash now acts (loginAccountKey hash username) with
      ⟨w, ⟨a, ha, rfl, hkey, _⟩, hended⟩ | hcounting
    · rw [hs] at ha hended
      have hnot := hfailed a (List.mem_filter.mpr ⟨ha, by simp [hkey]⟩)
      exact absurd hended (not_or.mpr hnot)
    · rwa [hs] at hcounting
  -- a request that compares a password is one that was let pass
  have hallowed : ∀ a ∈ s.asked, a.worker ∈ s.compared → a.allowed = true := by
    intro a ha hcompared
    obtain ⟨key, b, hb, hworker, _, hb'⟩ := hsound.admitted _ hcompared
    have hdistinct : (s.asked.map Ask.worker).Nodup := List.pairwise_map.mpr hsound.once
    rwa [List.inj_on_of_nodup_map hdistinct hb ha hworker] at hb'
  have hfilter : ((s.askedFor (loginAccountKey hash username)).filter fun a =>
      a.at_ < first.at_ + loginAccountWindow ∧ a.worker ∈ s.compared) =
      (s.allowedFrom first (loginAccountKey hash username)).filter fun a =>
        a.worker ∈ s.compared := by
    rw [allowedFrom, List.filter_filter]
    refine List.filter_congr fun a ha => ?_
    have hcompared := hallowed a (List.mem_of_mem_filter ha)
    by_cases hmem : a.worker ∈ s.compared
    · simp [hmem, hcompared hmem]
    · simp [hmem]
  rw [hfilter]
  exact (List.length_filter_le _ _).trans (hcounting.counted first hfirst).2.1

/-! ## A store that fails once

A wrong password, a request for which the store is not available, and ten more wrong
passwords. -/

def passwordGuess : LoginUserRequest := ⟨"alice", "wrong password"⟩

def aliceAccount : User :=
  (newUser 0 ⟨"alice", "right password", "Alice", "alice@example.com"⟩).markVerified 0

def wrongGuess (w : Nat) : List LoginAction :=
  [.start w passwordGuess, .call w {}, .call w { user := .ok aliceAccount }, .call w {}, .call w {},
    .call w {}]

def storeFails (w : Nat) : List LoginAction :=
  [.start w passwordGuess, .call w {}, .call w { user := .error .failed }, .call w {}, .call w {}]

def elevenGuesses : List LoginAction :=
  wrongGuess 0 ++ storeFails 1 ++ (List.range 10).flatMap fun n => wrongGuess (n + 2)

def guessRun (acts : List LoginAction) : LoginDesk := loginRun (· == ·) id 0 acts

def firstGuess : Ask := ⟨0, loginAccountKey id "alice", 0, true⟩

/-- No login succeeds, all requests are made at the same time, and eleven of them compare
a password. -/
theorem eleven_compared :
    (∀ r ∈ (guessRun elevenGuesses).replies, r.2 ≠ 200) ∧
      ((guessRun elevenGuesses).askedFor (loginAccountKey id "alice")).getLast? =
        some firstGuess ∧
      (((guessRun elevenGuesses).askedFor (loginAccountKey id "alice")).filter fun a =>
        a.at_ < firstGuess.at_ + loginAccountWindow ∧
          a.worker ∈ (guessRun elevenGuesses).compared).length = 11 := by
  refine ⟨?_, ?_, ?_⟩ <;> decide +kernel

def elevenInARow : List LoginAction := (List.range 11).flatMap wrongGuess

theorem loginRun_compared_le_inARow :
    (((guessRun elevenInARow).askedFor (loginAccountKey id "alice")).filter fun a =>
      a.at_ < firstGuess.at_ + loginAccountWindow ∧
        a.worker ∈ (guessRun elevenInARow).compared).length ≤ 10 :=
  loginRun_compared_le (· == ·) id 0 elevenInARow "alice" firstGuess
    (by decide +kernel) (by decide +kernel)

end Monierave
