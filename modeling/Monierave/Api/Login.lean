import Monierave.Api.RateLimiters
import Monierave.Processes.Machine
import Monierave.Users.System

/-! # Logging in under the limit of an account

`loginUser` counts the requests for a username in a shared counter that expires
after a quarter of an hour, and refuses them once there are more than ten.
-/

namespace Monierave

open Processes

structure Ask where
  worker : Nat
  key : String
  at_ : Int
  allowed : Bool
  deriving DecidableEq

/-- The clock, in nanoseconds, the counters, and what has happened so far: who asked the
limiter, who compared a password, for whom the store, the token maker or the source of
device secrets failed, and which status codes were sent. The newest entries come
first. -/
structure LoginDesk where
  now : Int
  store : Redis := fun _ => none
  asked : List Ask := []
  compared : List Nat := []
  failures : List Nat := []
  replies : List (Nat × Nat) := []

inductive GetUserError
  | noRows
  | failed

inductive LoginCall
  | allow (key : String) (limit window : Int)
  | reset (key : String)
  | getUser (username : String)
  | checkPassword (password hashedPassword : String)
  | recordLoginFailure (username reason : String)
  | createRefreshToken (username : String)
  | createAccessToken (username : String)
  | newDeviceSecret
  | createExclusiveSessionTx (username : String)
  | reply (status : Nat)

@[reducible] def LoginCall.Answer : LoginCall → Type
  | allow _ _ _ | checkPassword _ _ => Bool
  | getUser _ => Except GetUserError User
  | recordLoginFailure _ _ | createRefreshToken _ | createAccessToken _ | newDeviceSecret
  | createExclusiveSessionTx _ => Except Unit Unit
  | reset _ | reply _ => Unit

abbrev LoginProcess (α : Type) := Proc LoginCall LoginCall.Answer α

namespace LoginProcess

abbrev allow (key : String) (limit window : Int) : LoginProcess Bool :=
  Proc.ask (LoginCall.allow key limit window)

abbrev reset (key : String) : LoginProcess Unit := Proc.ask (LoginCall.reset key)

abbrev getUser (username : String) : LoginProcess (Except GetUserError User) :=
  Proc.ask (LoginCall.getUser username)

abbrev checkPassword (password hashedPassword : String) : LoginProcess Bool :=
  Proc.ask (LoginCall.checkPassword password hashedPassword)

abbrev recordLoginFailure (username reason : String) : LoginProcess (Except Unit Unit) :=
  Proc.ask (LoginCall.recordLoginFailure username reason)

abbrev createRefreshToken (username : String) : LoginProcess (Except Unit Unit) :=
  Proc.ask (LoginCall.createRefreshToken username)

abbrev createAccessToken (username : String) : LoginProcess (Except Unit Unit) :=
  Proc.ask (LoginCall.createAccessToken username)

abbrev newDeviceSecret : LoginProcess (Except Unit Unit) := Proc.ask LoginCall.newDeviceSecret

abbrev createExclusiveSessionTx (username : String) : LoginProcess (Except Unit Unit) :=
  Proc.ask (LoginCall.createExclusiveSessionTx username)

abbrev reply (status : Nat) : LoginProcess Unit := Proc.ask (LoginCall.reply status)

end LoginProcess

def dummyPasswordHash : String :=
  "$2y$10$.YHQ0/Sslk.qBO8PUSiEyuvsGeHK9Mcjl4kEu2sW88rEcAp1WMFDK"

def LoginUserRequest.binds (req : LoginUserRequest) : Bool :=
  req.username.toList.all Char.isAlphanum && decide (3 ≤ req.username.length) &&
    decide (req.username.length ≤ 32) && req.password != ""

/-- `hash` stands for the hexadecimal text of the SHA-256 sum. -/
def privateRateLimitKey (hash : String → String) (value : String) : String :=
  hash (Unicode.lower (trimSpace value))

def loginAccountKey (hash : String → String) (username : String) : String :=
  "login_account" ++ ":" ++ privateRateLimitKey hash username

def loginAccountLimit : Int := 10

def loginAccountWindow : Int := 15 * 60 * 1000 * 1000000

def allowRateLimitedRequest (key : String) (limit window : Int) : LoginProcess Bool := do
  if ← LoginProcess.allow key limit window then pure true
  else do
    LoginProcess.reply 429
    pure false

def refuseCredentials (username reason : String) : LoginProcess Bool := do
  let _ ← LoginProcess.recordLoginFailure username reason
  LoginProcess.reply 401
  pure false

def endWith (status : Nat) : LoginProcess Bool := do
  LoginProcess.reply status
  pure true

def openSession (username : String) : LoginProcess Bool := do
  match ← LoginProcess.createRefreshToken username with
  | .error _ => endWith 500
  | .ok _ => do
    match ← LoginProcess.createAccessToken username with
    | .error _ => endWith 500
    | .ok _ => do
      match ← LoginProcess.newDeviceSecret with
      | .error _ => endWith 500
      | .ok _ => do
        match ← LoginProcess.createExclusiveSessionTx username with
        | .error _ => endWith 500
        | .ok _ => endWith 200

/-- What follows once the limiter has let the request pass. The answer says whether the
counter is to be deleted. -/
def authenticate (username password : String) : LoginProcess Bool := do
  match ← LoginProcess.getUser username with
  | .error .noRows => do
    let _ ← LoginProcess.checkPassword password dummyPasswordHash
    refuseCredentials username "unknown_user"
  | .error .failed => endWith 500
  | .ok user => do
    if ← LoginProcess.checkPassword password user.hashedPassword then openSession user.username
    else refuseCredentials username "invalid_password"

def loginUser (hash : String → String) (req : LoginUserRequest) : LoginProcess Unit :=
  if req.binds then
    match validateNewPassword req.password with
    | .error _ => LoginProcess.reply 400
    | .ok () => do
      let normalizedUsername := Unicode.lower req.username
      let accountRateKey := loginAccountKey hash normalizedUsername
      if ← allowRateLimitedRequest accountRateKey loginAccountLimit loginAccountWindow then do
        if ← authenticate normalizedUsername req.password then LoginProcess.reset accountRateKey
        else pure ()
      else pure ()
  else LoginProcess.reply 400

structure LoginChoice where
  user : Except GetUserError User := .error .noRows
  result : Except Unit Unit := .ok ()

/-- A failure that is not an answer to the request: of the store, other than that there is
no such user, of the token maker, or of the source of device secrets. -/
def LoginCall.fails : (c : LoginCall) → c.Answer → Bool
  | .getUser _, .error .failed => true
  | .createRefreshToken _, .error _ | .createAccessToken _, .error _ | .newDeviceSecret, .error _
  | .createExclusiveSessionTx _, .error _ => true
  | _, _ => false

namespace LoginDesk

def allow (w : Nat) (key : String) (limit window : Int) (s : LoginDesk) : LoginDesk × Bool :=
  let (store, answer) := Redis.allow s.now key limit window s.store
  ({ s with store := store, asked := ⟨w, key, s.now, answer.allowed⟩ :: s.asked }, answer.allowed)

def answer (check : String → String → Bool) (w : Nat) (o : LoginChoice) :
    (c : LoginCall) → LoginDesk → LoginDesk × c.Answer
  | .allow key limit window, s => s.allow w key limit window
  | .reset key, s => ({ s with store := Redis.del (Redis.rateName key) s.store }, ())
  | .getUser _, s => (s, o.user)
  | .checkPassword password hashedPassword, s =>
    ({ s with compared := w :: s.compared }, check password hashedPassword)
  | .recordLoginFailure _ _, s => (s, o.result)
  | .createRefreshToken _, s => (s, o.result)
  | .createAccessToken _, s => (s, o.result)
  | .newDeviceSecret, s => (s, o.result)
  | .createExclusiveSessionTx _, s => (s, o.result)
  | .reply status, s => ({ s with replies := (w, status) :: s.replies }, ())

def serve (check : String → String → Bool) (w : Nat) (o : LoginChoice) (c : LoginCall)
    (s : LoginDesk) : LoginDesk × c.Answer :=
  let (s, a) := s.answer check w o c
  ({ s with failures := (if c.fails a then [w] else []) ++ s.failures }, a)

end LoginDesk

def loginSystem (check : String → String → Bool) (hash : String → String) :
    System LoginDesk LoginCall LoginCall.Answer LoginUserRequest LoginChoice Nat Unit where
  body := loginUser hash
  serve := LoginDesk.serve check
  outside elapsed s := { s with now := s.now + elapsed }

abbrev LoginAction := Action LoginUserRequest LoginChoice Nat

def loginRun (check : String → String → Bool) (hash : String → String) (now : Int)
    (acts : List LoginAction) : LoginDesk :=
  ((loginSystem check hash).run (State.init { now := now }) acts).shared

namespace LoginDesk

variable {check : String → String → Bool} {w : Nat} {c : LoginCall} {s s' : LoginDesk}
  {key : String}

structure Grows (s s' : LoginDesk) : Prop where
  now : s.now ≤ s'.now
  asked : s.asked ⊆ s'.asked
  failures : s.failures ⊆ s'.failures
  replies : s.replies ⊆ s'.replies

theorem Grows.refl (s : LoginDesk) : Grows s s :=
  ⟨le_rfl, fun _ h => h, fun _ h => h, fun _ h => h⟩

theorem Grows.trans {s'' : LoginDesk} (h : Grows s s') (h' : Grows s' s'') : Grows s s'' :=
  ⟨h.now.trans h'.now, List.Subset.trans h.asked h'.asked,
    List.Subset.trans h.failures h'.failures, List.Subset.trans h.replies h'.replies⟩

theorem serve_grows (check : String → String → Bool) (w : Nat) (o : LoginChoice) (c : LoginCall)
    (s : LoginDesk) : Grows s (serve check w o c s).1 := by
  cases c <;> constructor <;> simp [serve, answer, allow]

theorem mem_failures {o : LoginChoice} (h : c.fails (serve check w o c s).2 = true) :
    w ∈ (serve check w o c s).1.failures := by
  simp only [serve] at h ⊢
  simp [h]

/-- The request `w` has asked for the key and was let pass. -/
def Admitted (w : Nat) (key : String) (s : LoginDesk) : Prop :=
  ∃ a ∈ s.asked, a.worker = w ∧ a.key = key ∧ a.allowed = true

theorem Admitted.mono (h : Admitted w key s) (hgrows : Grows s s') : Admitted w key s' := by
  obtain ⟨a, ha, hworker⟩ := h
  exact ⟨a, hgrows.asked ha, hworker⟩

/-- The request `w` has succeeded, or something it needed has failed. -/
def Ended (w : Nat) (s : LoginDesk) : Prop := (w, 200) ∈ s.replies ∨ w ∈ s.failures

theorem Ended.mono (h : Ended w s) (hgrows : Grows s s') : Ended w s' :=
  h.imp (fun h => hgrows.replies h) fun h => hgrows.failures h

def Requires (w : Nat) : LoginCall → LoginDesk → Prop
  | .allow _ limit window, s => limit = loginAccountLimit ∧ window = loginAccountWindow ∧
      ∀ a ∈ s.asked, a.worker ≠ w
  | .checkPassword _ _, s => ∃ key, Admitted w key s
  | .reset key, s => Admitted w key s ∧ Ended w s
  | _, _ => True

structure Sound (s : LoginDesk) : Prop where
  once : s.asked.Pairwise fun a b => a.worker ≠ b.worker
  admitted : ∀ w ∈ s.compared, ∃ key, Admitted w key s

theorem Sound.serve (h : Sound s) (hreq : Requires w c s) (check : String → String → Bool)
    (o : LoginChoice) : Sound (serve check w o c s).1 := by
  have hgrows := serve_grows check w o c s
  cases c with
  | allow key limit window =>
    refine ⟨List.pairwise_cons.mpr ⟨fun a ha => (hreq.2.2 a ha).symm, h.once⟩, fun v hv => ?_⟩
    obtain ⟨key', hadmitted⟩ := h.admitted v hv
    exact ⟨key', hadmitted.mono hgrows⟩
  | checkPassword password hashedPassword =>
    refine ⟨h.once, fun v hv => ?_⟩
    rcases List.mem_cons.mp hv with rfl | hv
    · exact hreq
    · exact h.admitted v hv
  | _ => exact ⟨h.once, h.admitted⟩

theorem Sound.tick (h : Sound s) (elapsed : Nat) : Sound { s with now := s.now + elapsed } :=
  ⟨h.once, h.admitted⟩

end LoginDesk

open LoginDesk

def loginDiscipline (check : String → String → Bool) (hash : String → String) :
    Discipline (loginSystem check hash) where
  inv := Sound
  req w _ := LoginDesk.Requires w
  rely w s s' := Grows s s' ∧ ∀ a ∈ s'.asked, a.worker = w → a ∈ s.asked
  fresh w s := ∀ a ∈ s.asked, a.worker ≠ w
  refl w s := ⟨Grows.refl s, fun _ h _ => h⟩
  trans h h' := ⟨h.1.trans h'.1, fun a ha hw => h.2 a (h'.2 a ha hw) hw⟩
  others {w v j o c s} hne _ := by
    refine ⟨serve_grows check v o c s, fun a ha hw => ?_⟩
    cases c with
    | allow key limit window =>
      rcases List.mem_cons.mp ha with rfl | ha
      · exact absurd hw hne
      · exact ha
    | _ => exact ha
  around :=
    ⟨⟨by simp [loginSystem], fun _ h => h, fun _ h => h, fun _ h => h⟩, fun _ h _ => h⟩
  fresh_rely hfresh hrely a ha hw := hfresh a (hrely.2 a ha hw) hw
  inv_serve h hreq := h.serve hreq _ _
  inv_outside h := h.tick _

end Monierave
