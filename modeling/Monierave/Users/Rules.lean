import Monierave.Users.Covenant

/-! # Rules for the statements on users

What the statements and the parts that several transactions share leave behind,
beside any other transactions.
-/

namespace Monierave

open Relational ReadCommitted Prog

structure Lawful (t : UserTx) (f : UserFooting) : Prop where
  allows : ∀ w ∈ f.own, t.allows w
  holds : ∀ w ∈ f.own, ∀ k ∈ w.keys, k ∈ f.held

/-- What a statement of the transaction may write. -/
structure UserTx.Permits (t : UserTx) (writes : List Write) (db : DB) : Prop where
  legit : userCovenant.LegitAll writes db
  allows : ∀ w ∈ writes, t.allows w

variable {t : UserTx} {f : UserFooting} {α : Type}

variable {now : Timestamp} {env : Env} {username : String} {reason : Option String} {id : UUID}
    {ids : List UUID} {L : Prop} {Q : List Session → UserFooting → Prop} {e : Err}

theorem lawful_start (t : UserTx) : Lawful t (Footing.start userCovenant) :=
  ⟨by simp, by simp⟩

theorem Lawful.next (h : Lawful t f) {eff : Answer α} (hw : ∀ w ∈ eff.writes, t.allows w) :
    Lawful t (f.next eff) := by
  constructor
  · intro w hmem
    rcases List.mem_append.mp hmem with hmem | hmem
    · exact h.allows w hmem
    · exact hw w hmem
  · intro w hmem k hk
    rw [Footing.next_held, List.mem_append]
    rcases List.mem_append.mp hmem with hmem | hmem
    · exact Or.inl (h.holds w hmem k hk)
    · right
      simp only [Effect.claims, List.mem_append, List.mem_flatMap]
      exact Or.inr ⟨w, hmem, hk⟩

theorem Lawful.learn (h : Lawful t f) (F : DB → Prop) (hF : userCovenant.Protects f.held F) :
    Lawful t (f.learn F hF) := ⟨h.allows, h.holds⟩

/-! ## The rules of the statements -/

section Statements

variable {Q : α → UserFooting → Prop}

variable {own : List Write} {db : DB} {now : Timestamp} {id : UUID} {username : String}

theorem secured_call {s : Query α} (hf : Lawful t f)
    (hs : ∀ own db eff, s.exec own db = .ok eff → t.Permits eff.writes db)
    (hQ : ∀ a f', Lawful t f' → f.Grows f' → Q a f') : Secured (call s) f Q := by
  apply Secured.call
  intro db eff _ hexec
  obtain ⟨hlegit, hallow⟩ := hs _ _ eff hexec
  exact ⟨hlegit, hQ _ _ (hf.next hallow) (f.grows_next eff)⟩

theorem secured_fetch {e : Err} {s : Query (Option α)} (hf : Lawful t f)
    (hs : ∀ own db eff, s.exec own db = .ok eff → t.Permits eff.writes db)
    (hQ : ∀ a f', Lawful t f' → f.Grows f' → Q a f') : Secured (fetch e s) f Q := by
  apply Secured.fetch
  intro db eff _ hexec
  obtain ⟨hlegit, hallow⟩ := hs _ _ eff hexec
  exact ⟨hlegit, fun a _ => hQ a _ (hf.next hallow) (f.grows_next eff)⟩

theorem lawful_readOnly {g : DB → α} {eff : Answer α} (h : (readOnly g).exec own db = .ok eff) :
    t.Permits eff.writes db := by
  obtain rfl := readOnly_ok.mp h
  exact ⟨trivial, by simp⟩

theorem lawful_selectForUpdate {find : DB → Option α} {key : α → LockKey}
    {eff : Answer (Option α)} (h : (selectForUpdate find key).exec own db = .ok eff) :
    t.Permits eff.writes db := by
  obtain rfl := selectForUpdate_ok.mp h
  exact ⟨trivial, by simp⟩

theorem lawful_createAuditLog {arg : CreateAuditLogParams} {eff : Answer AuditLog}
    (h : (createAuditLog now arg).exec own db = .ok eff) :
    t.Permits eff.writes db := by
  rw [createAuditLog_ok h]
  exact ⟨⟨trivial, trivial⟩, by simp [UserTx.allows]⟩

theorem lawful_createEmailJob {arg : CreateEmailJobParams} {eff : Answer EmailJob}
    (h : (createEmailJob now arg).exec own db = .ok eff) :
    t.Permits eff.writes db := by
  obtain ⟨eff', h', rfl⟩ := audited_ok.mp h
  obtain ⟨_, hconf, _, rfl⟩ := insertRow_ok.mp h'
  exact ⟨⟨hconf, trivial, trivial⟩, by simp [UserTx.allows, newEmailJob]⟩

theorem lawful_createOutboxEvent {arg : CreateOutboxEventParams} {eff : Answer OutboxEvent}
    (h : (createOutboxEvent now arg).exec own db = .ok eff) :
    t.Permits eff.writes db := by
  obtain ⟨eff', h', rfl⟩ := audited_ok.mp h
  obtain ⟨_, hconf, _, rfl⟩ := insertRow_ok.mp h'
  exact ⟨⟨hconf, trivial, trivial⟩, by simp [UserTx.allows]⟩

theorem lawful_createEmailDeliveryEvent {e : EmailDeliveryEvent}
    {eff : Answer (Option EmailDeliveryEvent)}
    (h : (createEmailDeliveryEvent e).exec own db = .ok eff) :
    t.Permits eff.writes db := by
  rcases createEmailDeliveryEvent_ok.mp h with ⟨_, rfl⟩ | ⟨hfree, rfl⟩
  · exact ⟨trivial, by simp⟩
  · have hconf : db.emailDeliveryEvents.conflict e = none := by
      rw [Table.conflict_eq_none]
      intro k hk
      rw [List.mem_singleton.mp hk]
      exact hfree
    exact ⟨⟨hconf, trivial⟩, by simp [UserTx.allows]⟩

theorem Session.id_of_get {s : Session} (h : db.sessions.get (.id id) = some s) : s.id = id :=
  (Session.id_mem_keys.mp (Table.key_of_get h)).symm

theorem EmailJob.id_of_get {j : EmailJob} (h : db.emailJobs.get (.id id) = some j) : j.id = id :=
  (EmailJob.id_mem_keys.mp (Table.key_of_get h)).symm

theorem User.username_of_get {u : User} (h : db.users.get (.username username) = some u) :
    u.username = username :=
  (User.username_mem_keys.mp (Table.key_of_get h)).symm

theorem lawful_updateUserRow {g : User → Option User} {eff : Answer (Option User)}
    (hg : ∀ o r, o.username = username → g o = some r →
      r.username = o.username ∧ t.changes o r)
    (h : (updateUserRow username g).exec own db = .ok eff) :
    t.Permits eff.writes db := by
  rcases updateUserRow_ok h with ⟨rfl, _⟩ | ⟨o, r, hget, hr, _, hclash, rfl⟩
  · exact ⟨trivial, by simp⟩
  · obtain ⟨hname, hchange⟩ := hg o r (User.username_of_get hget) hr
    have hpk : db.users.get (pk r) = some o := by
      show db.users.get (.username r.username) = some o
      rw [hname]
      exact Table.get_eq_of_key hget (Keyed.pk_mem o)
    exact ⟨⟨⟨hpk, hclash⟩, trivial⟩, by simpa [UserTx.allows] using hchange⟩

theorem lawful_updateSessionRow {g : Session → Option Session} {eff : Answer (Option Session)}
    (hg : ∀ o r, g o = some r → t.allows (.updateSession o r))
    (h : (updateSessionRow id g).exec own db = .ok eff) :
    t.Permits eff.writes db := by
  rcases updateSessionRow_ok h with ⟨rfl, _⟩ | ⟨o, r, hget, hr, hclash, rfl⟩
  · exact ⟨trivial, by simp⟩
  · have hallow := hg o r hr
    have hpk : db.sessions.get (pk r) = some o := by
      show db.sessions.get (.id r.id) = some o
      rw [(UserTx.allows_updateSession hallow).1]
      exact Table.get_eq_of_key hget (Keyed.pk_mem o)
    exact ⟨⟨⟨hpk, hclash⟩, trivial⟩, by simpa using hallow⟩

theorem lawful_updateEmailJobRow {g : EmailJob → Except SqlError (Option EmailJob)}
    {eff : Answer (Option EmailJob)}
    (hg : ∀ o r, g o = .ok (some r) → t.allows (.updateEmailJob o r))
    (h : (updateEmailJobRow id g).exec own db = .ok eff) :
    t.Permits eff.writes db := by
  rcases updateEmailJobRow_ok h with rfl | ⟨o, r, hget, hr, hclash, rfl⟩
  · exact ⟨trivial, by simp⟩
  · have hallow := hg o r hr
    have hpk : db.emailJobs.get (pk r) = some o := by
      show db.emailJobs.get (.id r.id) = some o
      rw [hallow.1]
      exact Table.get_eq_of_key hget (Keyed.pk_mem o)
    exact ⟨⟨⟨hpk, hclash⟩, trivial⟩, by simpa using hallow⟩

end Statements

/-! ## The rules of the parts -/

theorem secured_createAuditLog {arg : CreateAuditLogParams} {Q : AuditLog → UserFooting → Prop}
    (hf : Lawful t f)
    (hQ : ∀ x f', Lawful t f' → f.Grows f' → f'.own = f.own ++ [.insertAuditLog x] → Q x f') :
    Secured (call (createAuditLog now arg)) f Q := by
  apply Secured.call
  intro db eff _ hs
  obtain ⟨hlegit, hallow⟩ := lawful_createAuditLog (t := t) hs
  refine ⟨hlegit, hQ _ _ (hf.next hallow) (f.grows_next eff) ?_⟩
  have heff := createAuditLog_ok hs
  rw [Footing.next_own, heff]

theorem secured_auditRevokedSessions {eventType : String} {sessions : List Session}
    {Q : Unit → UserFooting → Prop} (hf : Lawful t f)
    (hQ : ∀ f', Lawful t f' → f.Grows f' → Q () f') :
    Secured (auditRevokedSessions env eventType sessions) f Q := by
  induction sessions generalizing f with
  | nil => exact hQ f hf (.refl f)
  | cons s sessions ih =>
    apply Secured.bind
    apply secured_createAuditLog hf
    intro _ f' hf' hgrow _
    exact ih hf' fun f'' hf'' hgrow' => hQ f'' hf'' (hgrow.trans hgrow')

theorem secured_createVerificationEmailJob {n : Nat} {recipient : String}
    {Q : EmailJob × OutboxEvent → UserFooting → Prop} (hf : Lawful t f)
    (hQ : ∀ a f', Lawful t f' → f.Grows f' → Q a f') :
    Secured (createVerificationEmailJob env n username recipient) f Q := by
  apply Secured.bind
  apply secured_call hf (fun _ _ _ => lawful_createEmailJob)
  intro job f₁ hf₁ hgrow₁
  apply Secured.bind
  apply secured_call hf₁ (fun _ _ _ => lawful_createOutboxEvent)
  intro event f₂ hf₂ hgrow₂
  exact hQ _ f₂ hf₂ (hgrow₁.trans hgrow₂)

theorem secured_requestVerificationIf {changed : Bool} {user : User}
    {Q : Option (EmailJob × OutboxEvent) → UserFooting → Prop} (hf : Lawful t f)
    (hQ : ∀ a f', Lawful t f' → f.Grows f' → Q a f') :
    Secured (requestVerificationIf env changed user) f Q := by
  unfold requestVerificationIf
  cases changed with
  | true =>
    apply Secured.bind
    apply secured_createVerificationEmailJob hf
    intro job f' hf' hgrow
    exact hQ _ f' hf' hgrow
  | false => exact hQ _ f hf (.refl f)

/-! ### Revoking every session of a user

Who holds the user's row while it revokes the sessions of the user has revoked
all of them at its commit. -/

/-- Every active session of the user is one of `ids` or has been revoked by this
transaction. -/
def Covered (username : String) (ids : List UUID) (own : List Write) (db : DB) : Prop :=
  ∀ s ∈ db.sessions.rows, s.activeFor username = true →
    s.id ∈ ids ∨ ∃ r, .updateSession s r ∈ own

theorem protects_covered (hf : Lawful t f) (hlock : LockKey.user (.username username) ∈ f.held)
    (ids : List UUID) : userCovenant.Protects f.held (Covered username ids f.own) := by
  intro db db' hcov hrely s' hs' hact'
  obtain ⟨s, hs, hid, hact⟩ := hrely.active username hlock s' hs' hact'
  rcases hcov s hs hact with hmem | ⟨r, hr⟩
  · exact Or.inl (hid ▸ hmem)
  · -- the row is held, so it is still the one that was revoked
    right
    have hkey : LockKey.session (.id s.id) ∈ f.held := by
      apply hf.holds _ hr
      exact List.mem_map.mpr ⟨.id s.id, List.mem_append_left _ (Keyed.pk_mem s), rfl⟩
    have hsame := DB.entry_session.mp (hrely.entry _ hkey)
    have hget : db.sessions.get (.id s.id) = some s := Table.get_pk hs
    have hget' : db'.sessions.get (.id s'.id) = some s' := Table.get_pk hs'
    rw [hsame, hid, hget'] at hget
    obtain rfl := Option.some.inj hget
    exact ⟨r, hr⟩

theorem revokeActive_allows {o r : Session}
    (h : (if o.activeFor username then some (o.revoke now reason) else none) = some r) :
    t.allows (.updateSession o r) := by
  by_cases hact : o.activeFor username = true
  · rw [if_pos hact] at h
    cases h
    exact ⟨(Session.activeFor_iff.mp hact).2, Or.inl ⟨now, reason, rfl⟩⟩
  · rw [if_neg hact] at h
    cases h

theorem covered_step {db : DB} {eff : Answer (Option Session)}
    (hlegit : userCovenant.LegitAll f.own db) (hcov : Covered username (id :: ids) f.own db)
    (hs : (revokeActiveSession now username reason id).exec f.own (view f.own db) = .ok eff) :
    Covered username ids (f.own ++ eff.writes) db := by
  intro s hmem hact
  rcases hcov s hmem hact with hid | ⟨r, hr⟩
  · rcases List.mem_cons.mp hid with hid | hid
    · rcases session_view hlegit hmem with ⟨r, hr⟩ | hview
      · exact Or.inr ⟨r, List.mem_append_left _ hr⟩
      · have hget : (view f.own db).sessions.get (.id id) = some s := hid ▸ Table.get_pk hview
        rcases updateSessionRow_ok hs with ⟨_, hnone⟩ | ⟨o, r, ho, _, _, rfl⟩
        · have := hnone s hget
          simp [hact] at this
        · rw [hget] at ho
          obtain rfl := Option.some.inj ho
          exact Or.inr ⟨r, by simp⟩
    · exact Or.inl hid
  · exact Or.inr ⟨r, List.mem_append_left _ hr⟩

theorem secured_revokeScannedSessions (hf : Lawful t f)
    (hlock : L → LockKey.user (.username username) ∈ f.held)
    (hcov : L → ∀ db, f.known db → Covered username ids f.own db)
    (hQ : ∀ a f', Lawful t f' → f.Grows f' →
      (L → ∀ db, f'.known db → Covered username [] f'.own db) → Q a f') :
    Secured (revokeScannedSessions now username reason ids) f Q := by
  induction ids generalizing f Q with
  | nil => exact hQ [] f hf (.refl f) hcov
  | cons id ids ih =>
    apply Secured.bind
    apply Secured.call_learn
    intro db eff hadm hs
    obtain ⟨hlegit, hallow⟩ := lawful_updateSessionRow (t := t)
      (fun _ _ => revokeActive_allows) hs
    have hlaw := hf.next hallow
    have hlock' : L → LockKey.user (.username username) ∈ (f.next eff).held :=
      fun hL => List.mem_append_left _ (hlock hL)
    refine ⟨hlegit, fun db => L → Covered username ids (f.next eff).own db, ?_, ?_, ?_⟩
    · intro db db' h hrely hL
      exact protects_covered hlaw (hlock' hL) ids db db' (h hL) hrely
    · exact fun hL => covered_step hadm.legit (hcov hL db hadm.known) hs
    · apply Secured.bind
      refine ih (hlaw.learn _ _) hlock' ?_ ?_
      · intro hL db' hknown
        exact hknown.2 hL
      · intro others f' hf' hgrow hdone
        exact hQ _ f' hf' (((f.grows_next eff).trans (Footing.grows_learn _ _ _)).trans hgrow)
          hdone

theorem secured_revokeAllUserSessions (hf : Lawful t f)
    (hlock : L → LockKey.user (.username username) ∈ f.held)
    (hQ : ∀ a f', Lawful t f' → f.Grows f' →
      (L → ∀ db, f'.known db → Covered username [] f'.own db) → Q a f') :
    Secured (revokeAllUserSessions now username reason) f Q := by
  apply Secured.bind
  apply Secured.call_learn
  intro db eff hadm hs
  have heff := readOnly_ok.mp hs
  have hown : (f.next eff).own = f.own := by simp [heff]
  have hlaw : Lawful t (f.next eff) := hf.next (by simp [heff])
  have hlock' : L → LockKey.user (.username username) ∈ (f.next eff).held :=
    fun hL => List.mem_append_left _ (hlock hL)
  refine ⟨by simp [heff, Covenant.LegitAll],
    fun db => L → Covered username eff.result (f.next eff).own db, ?_, ?_, ?_⟩
  · intro db₁ db₂ h hrely hL
    exact protects_covered hlaw (hlock' hL) eff.result db₁ db₂ (h hL) hrely
  · -- a session that is not in the view as it is committed has been replaced
    intro _ s hmem hact
    rw [hown]
    rcases session_view hadm.legit hmem with hr | hview
    · exact Or.inr hr
    · left
      rw [heff]
      exact List.mem_map.mpr ⟨s, List.mem_filter.mpr ⟨hview, hact⟩, rfl⟩
  · refine secured_revokeScannedSessions (L := L) (hlaw.learn _ _) hlock' ?_ ?_
    · intro hL db' hknown
      exact hknown.2 hL
    · intro a f' hf' hgrow hdone
      exact hQ a f' hf' (((f.grows_next eff).trans (Footing.grows_learn _ _ _)).trans hgrow) hdone

/-! ## Locking reads

At the start of a transaction the row is the committed one, and it stays so. -/

theorem secured_lock {R : Type} {find : DB → Option R} {key : R → LockKey}
    {Q : R → UserFooting → Prop} (hf : Lawful t f) (hown : f.own = [])
    (hstays : ∀ db db' o, find db = some o → db.entry (key o) = db'.entry (key o) →
      find db' = some o)
    (hQ : ∀ db o f', find db = some o → Lawful t f' → f.Grows f' → f'.own = [] →
      key o ∈ f'.held → (∀ db, f'.known db → find db = some o) → Q o f') :
    Secured (fetch e (selectForUpdate find key)) f Q := by
  apply Secured.fetch_learn
  intro db eff _ hs
  have heff := selectForUpdate_ok.mp hs
  refine ⟨by simp [heff, Covenant.LegitAll], ?_⟩
  intro o ho
  have hfind : find db = some o := by simpa [heff, hown] using ho
  have hlock : key o ∈ (f.next eff).held := by simp [heff, hown, hfind, Effect.claims]
  have hprotects : userCovenant.Protects (f.next eff).held fun db => find db = some o :=
    fun db db' h hrely => hstays db db' o h (hrely.entry _ hlock)
  refine ⟨_, hprotects, hfind, hQ db o _ hfind ?_ ?_ ?_ hlock fun db h => h.2⟩
  · exact (hf.next (by simp [heff])).learn _ _
  · exact (f.grows_next eff).trans (Footing.grows_learn _ _ _)
  · simp [heff, hown]

theorem secured_lockSession {Q : Session → UserFooting → Prop} (hf : Lawful t f)
    (hown : f.own = []) (hQ : ∀ o f', Lawful t f' → f'.own = [] →
      (∀ db, f'.known db → db.sessions.get (.id id) = some o) → Q o f') :
    Secured (fetch e (getSessionForUpdate id)) f Q := by
  refine secured_lock hf hown ?_ fun _ o f' _ hf' _ hown' _ => hQ o f' hf' hown'
  intro db db' o ho hentry
  rw [Session.rowLock, Session.id_of_get ho] at hentry
  rwa [← DB.entry_session.mp hentry]

theorem secured_lockEmailJob {Q : EmailJob → UserFooting → Prop} (hf : Lawful t f)
    (hown : f.own = []) (hQ : ∀ j f', Lawful t f' → f'.own = [] →
      (∀ db, f'.known db → db.emailJobs.get (.id id) = some j) → Q j f') :
    Secured (fetch e (getEmailJobForUpdate id)) f Q := by
  refine secured_lock hf hown ?_ fun _ j f' _ hf' _ hown' _ => hQ j f' hf' hown'
  intro db db' j hj hentry
  rw [EmailJob.rowLock, EmailJob.id_of_get hj] at hentry
  rwa [← DB.entry_emailJob.mp hentry]

theorem secured_lockUser {Q : User → UserFooting → Prop} (hf : Lawful t f) (hown : f.own = [])
    (hQ : ∀ u f', Lawful t f' → f.Grows f' → LockKey.user (.username username) ∈ f'.held →
      (∀ db, f'.known db → db.users.get (.username username) = some u) → Q u f') :
    Secured (fetch e (getUserForUpdate username)) f Q := by
  apply secured_lock hf hown
  · intro db db' u hu hentry
    rw [User.rowLock, User.username_of_get hu] at hentry
    rwa [← DB.entry_user.mp hentry]
  · intro db u f' hu hf' hgrow _ hlock
    rw [User.rowLock, User.username_of_get hu] at hlock
    exact hQ u f' hf' hgrow hlock

/-! ## Programs of which little is needed -/

def Routine (t : UserTx) (p : Tx α) : Prop :=
  ∀ (f : UserFooting) (Q : α → UserFooting → Prop), Lawful t f →
    (∀ a f', Lawful t f' → f.Grows f' → Q a f') → Secured p f Q

namespace Routine

variable {β : Type}

variable {p : Tx α} {e : Err} {c : Prop}

theorem continues {f : UserFooting} {Q : α → UserFooting → Prop} (hf : Lawful t f)
    (hQ : ∀ a f', Lawful t f' → f.Grows f' → Q a f') (hp : Routine t p) : Secured p f Q :=
  hp f Q hf hQ

theorem bind {g : α → Tx β} (hp : Routine t p) (hg : ∀ a, Routine t (g a)) :
    Routine t (p >>= g) := by
  intro f Q hf hQ
  apply Secured.bind
  apply hp f _ hf
  intro a f₁ hf₁ hgrow₁
  exact hg a f₁ Q hf₁ fun b f₂ hf₂ hgrow₂ => hQ b f₂ hf₂ (hgrow₁.trans hgrow₂)

theorem pure (a : α) : Routine t (Pure.pure a : Tx α) := fun f _ hf hQ => hQ a f hf (.refl f)

theorem call {s : Query α} (hs : ∀ own db eff, s.exec own db = .ok eff →
    t.Permits eff.writes db) :
    Routine t (Prog.call s) := fun _ _ hf hQ => secured_call hf hs hQ

theorem fetch {s : Query (Option α)} (hs : ∀ own db eff, s.exec own db = .ok eff →
    t.Permits eff.writes db) :
    Routine t (Prog.fetch e s) := fun _ _ hf hQ => secured_fetch hf hs hQ

theorem refuse [Decidable c] : Routine t (Prog.refuse c e) :=
  fun f _ hf hQ => .refuse fun _ => hQ () f hf (.refl f)

theorem ite [Decidable c] {q : Tx α} (hp : Routine t p) (hq : Routine t q) :
    Routine t (if c then p else q) := by
  by_cases hc : c
  · rwa [if_pos hc]
  · rwa [if_neg hc]

end Routine

end Monierave
