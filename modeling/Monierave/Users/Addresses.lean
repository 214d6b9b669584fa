import Monierave.Banking.System
import Monierave.Unicode.Folding
import Monierave.Users.System

/-! # Whether an address changes

A profile change with an address is judged three times.
-/

namespace Monierave

open Relational ReadCommitted Prog

structure AddressDecisions where
  handler : Bool
  store : Bool
  query : Bool
  deriving DecidableEq

namespace AddressDecisions

def Agree (d : AddressDecisions) : Prop := d.handler = d.store ∧ d.store = d.query

end AddressDecisions

section Decisions

variable (req : UpdateUserRequest) (username : String) (hash : Option String) (env : Env)
  (current : User)

/-- The judgements on a request of a user whose row is `current`. -/
def addressDecisions : AddressDecisions where
  handler := req.emailChanged current
  store := !Unicode.equalFold current.email
    (current.update env.now (req.params username current hash).toUpdateUserParams).email
  query := current.emailChanges (req.params username current hash).email

variable {req username hash env current} {own : List Write} {db : DB}
  {d : Effect Write LockKey UpdateUserTxResult}

/-- What follows from the judgements of the store and the query in a transaction that
goes through. -/
structure ActsOn (decisions : AddressDecisions) (result : UpdateUserTxResult) : Prop where
  emailChanged : result.emailChanged = decisions.store
  job : result.job.isSome = decisions.store
  unverified : decisions.query = true →
    result.user.emailVerifiedAt = none ∧ result.user.accountStatus = .pending

theorem requestVerificationIf_isSome {user : User} {emailChanged : Bool}
    {d : Effect Write LockKey (Option (EmailJob × OutboxEvent))}
    (h : (requestVerificationIf env emailChanged user).run own db = .ok d) :
    d.result.isSome = emailChanged := by
  cases emailChanged with
  | false =>
    cases h
    rfl
  | true =>
    obtain ⟨_, _, _, hjob, rfl⟩ := run_bind_ok.mp h
    cases hjob
    rfl

theorem updateUserTx_actsOn (hcurrent : db.users.get (.username username) = some current)
    (h : (updateUserTx env (req.params username current hash)).run own db = .ok d) :
    ActsOn (addressDecisions req username hash env current) d.result := by
  obtain ⟨d₁, _, hget, h₁, rfl⟩ := run_bind_ok.mp h
  obtain ⟨eff, o, hexec, ho, rfl⟩ := run_fetch_ok.mp hget
  obtain rfl := readOnly_ok.mp hexec
  obtain rfl : current = o := Option.some.inj (hcurrent.symm.trans ho)
  obtain ⟨d₂, _, hupdate, h₂, rfl⟩ := run_bind_ok.mp h₁
  obtain ⟨eff, user, hexec, huser, rfl⟩ := run_fetch_ok.mp hupdate
  rw [updateUser, updateUserRow, updateRow_ok] at hexec
  obtain ⟨_, rfl⟩ | ⟨o, r, hupdates, rfl⟩ := hexec
  · cases huser
  · obtain rfl : r = user := Option.some.inj huser
    obtain rfl : current = o := Option.some.inj (hcurrent.symm.trans hupdates.row)
    obtain rfl := Option.some.inj (Except.ok.inj hupdates.new)
    obtain ⟨d₃, _, hjob, h₃, rfl⟩ := run_bind_ok.mp h₂
    have hsome := requestVerificationIf_isSome hjob
    have hacts : ActsOn (addressDecisions req username hash env current)
        ⟨current.update env.now (req.params username current hash).toUpdateUserParams,
          (addressDecisions req username hash env current).store, d₃.result⟩ := by
      refine ⟨rfl, hsome, fun hquery => ?_⟩
      simp only [addressDecisions] at hquery
      exact ⟨by simp [User.update, hquery], by simp [User.update, hquery]⟩
    dsimp only at h₃
    split at h₃
    · obtain ⟨d₄, _, _, h₄, rfl⟩ := run_bind_ok.mp h₃
      obtain ⟨d₅, _, _, h₅, rfl⟩ := run_bind_ok.mp h₄
      cases h₅
      exact hacts
    · cases h₃
      exact hacts

/-- No character tells the two comparisons of an address apart: if the lower-case letters
are the same there is no capital I with a dot in the current address, and if they are
the same up to their fold classes they are the same. -/
def CaseUnambiguous (email current : String) : Prop :=
  (Unicode.lower email = Unicode.lower current → Unicode.dottedI ∉ current.toList) ∧
  (Unicode.dottedI ∉ current.toList → Unicode.Twinned email current →
    Unicode.lower email = Unicode.lower current)

theorem handler_eq_store : (addressDecisions req username hash env current).handler =
    (addressDecisions req username hash env current).store := by
  cases hemail : req.email with
  | none =>
    have hsame : Unicode.equalFold current.email current.email = true :=
      Unicode.equalFold_iff.mpr rfl
    simp [addressDecisions, UpdateUserRequest.emailChanged, UpdateUserRequest.params, User.update,
      hemail, hsame]
  | some email =>
    simp [addressDecisions, UpdateUserRequest.emailChanged, UpdateUserRequest.params, User.update,
      hemail, Unicode.equalFold_comm current.email]

theorem handler_eq_query_iff : (addressDecisions req username hash env current).handler =
      (addressDecisions req username hash env current).query ↔
    ∀ email, req.email = some email → CaseUnambiguous (normalizeEmail email) current.email := by
  cases hemail : req.email with
  | none =>
    simp [addressDecisions, UpdateUserRequest.emailChanged, UpdateUserRequest.params,
      User.emailChanges, hemail]
  | some email =>
    have hquery : (addressDecisions req username hash env current).query =
        !decide (Unicode.lower (normalizeEmail email) = Unicode.lower current.email) := by
      simp only [addressDecisions, UpdateUserRequest.params, hemail, Option.map_some,
        User.emailChanges]
      rfl
    have hhandler : (addressDecisions req username hash env current).handler =
        !Unicode.equalFold (normalizeEmail email) current.email := by
      simp [addressDecisions, UpdateUserRequest.emailChanged, hemail]
    have hclean : Unicode.dottedI ∉ (normalizeEmail email).toList :=
      Unicode.dottedI_notMem_lower _
    rw [hquery, hhandler, Bool.not_inj_iff, Bool.eq_iff_iff, decide_eq_true_eq,
      Unicode.equalFold_iff_lower hclean]
    simp [CaseUnambiguous]

end Decisions

/-- For every row and every request, the three judgements agree exactly if no character
of the two addresses tells the comparisons apart; they are the ones a transaction
that goes through acts on. -/
theorem addressDecisions_agree_iff (req : UpdateUserRequest) (username : String)
    (hash : Option String) (env : Env) (current : User) :
    ((addressDecisions req username hash env current).Agree ↔
      ∀ email, req.email = some email → CaseUnambiguous (normalizeEmail email) current.email) ∧
    ∀ own db d, db.users.get (.username username) = some current →
      (updateUserTx env (req.params username current hash)).run own db = .ok d →
      ActsOn (addressDecisions req username hash env current) d.result := by
  refine ⟨?_, fun own db d => updateUserTx_actsOn⟩
  rw [AddressDecisions.Agree, ← handler_eq_store, and_iff_right rfl]
  exact handler_eq_query_iff

/-! Sam replaces the first letter of the address by a long s, without a password. -/

def sam : User := { customer "sam" with email := "sam@example.com" }

def longS : UpdateUserRequest := ⟨none, none, none, some "\u017Fam@example.com"⟩

def samAlone : DB := .initial ⟨[sam], by decide +kernel⟩

theorem addressDecisions_agree_iff_longS :
    ((addressDecisions longS "sam" none (.drawing 1 1) sam).Agree ↔
      ∀ email, longS.email = some email → CaseUnambiguous (normalizeEmail email) sam.email) ∧
    ∃ d, (updateUserTx (.drawing 1 1) (longS.params "sam" sam none)).run [] samAlone = .ok d ∧
      ActsOn (addressDecisions longS "sam" none (.drawing 1 1) sam) d.result := by
  obtain ⟨hagree, hacts⟩ := addressDecisions_agree_iff longS "sam" none (.drawing 1 1) sam
  refine ⟨hagree, ?_⟩
  cases h : (updateUserTx (.drawing 1 1) (longS.params "sam" sam none)).run [] samAlone with
  | error e =>
      have hok : ((updateUserTx (.drawing 1 1) (longS.params "sam" sam none)).run []
          samAlone).isOk = true := by
        decide +kernel
      rw [h] at hok
      cases hok
  | ok d => exact ⟨d, rfl, hacts [] samAlone d (by decide +kernel) h⟩

def samWritesLongS : List UserAction :=
  [.start 0 (.updateUser "sam" longS (.ok "") (.drawing 1 1)), .exec 0, .commit 0] ++ toCommit 0

/-- Neither the handler nor the transaction sees a change, so no password is asked for
and no verification job is written; the query takes the verification away. -/
theorem addressDecisions_longS :
    addressDecisions longS "sam" none (.drawing 1 1) sam = ⟨false, false, true⟩ ∧
    (userRun (· == ·) samAlone samWritesLongS).db.users.rows =
      [sam.update 1 ⟨"sam", none, none, some "\u017Fam@example.com"⟩] ∧
    (sam.update 1 ⟨"sam", none, none, some "\u017Fam@example.com"⟩).accountStatus = .pending ∧
    (userRun (· == ·) samAlone samWritesLongS).db.emailJobs.rows =
      [] := by
  decide +kernel

end Monierave
