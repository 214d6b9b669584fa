import Monierave.ReadCommitted.Contract
import Monierave.Relational.Edits
import Monierave.Users.System

/-! # What the transactions on users expect of each other

A transaction keeps the rows it has locked or written.
-/

namespace Monierave

open Relational ReadCommitted Prog

/-- The write takes effect: a new row is new, and the row that is replaced is
there. The transactions on users touch no other table. -/
def Write.legit : Write → DB → Prop
  | insertUser r, db => db.users.conflict r = none
  | updateUser o r, db => db.users.get (pk r) = some o ∧ db.users.clash r = none
  | insertSession r, db => db.sessions.conflict r = none
  | updateSession o r, db => db.sessions.get (pk r) = some o ∧ db.sessions.clash r = none
  | insertEmailJob r, db => db.emailJobs.conflict r = none
  | updateEmailJob o r, db => db.emailJobs.get (pk r) = some o ∧ db.emailJobs.clash r = none
  | insertOutboxEvent r, db => db.outboxEvents.conflict r = none
  | insertEmailDeliveryEvent r, db => db.emailDeliveryEvents.conflict r = none
  | insertAuditLog _, _ => True
  | _, _ => False

variable {w : Write} {o r s : Session}

theorem Write.legit_congr {db db' : DB} (h : ∀ j ∈ w.keys, db.entry j = db'.entry j)
    (hw : w.legit db) : w.legit db' := by
  cases w with
  | insertUser r | insertSession r | insertEmailJob r | insertOutboxEvent r
  | insertEmailDeliveryEvent r =>
    simp only [Write.keys, List.forall_mem_map, DB.entry_user, DB.entry_session,
      DB.entry_emailJob, DB.entry_outboxEvent, DB.entry_emailDeliveryEvent] at h
    exact (Table.conflict_congr h).symm.trans hw
  | updateUser o r | updateSession o r | updateEmailJob o r =>
    simp only [Write.keys, List.forall_mem_map, DB.entry_user, DB.entry_session,
      DB.entry_emailJob, List.mem_append] at h
    refine ⟨?_, ?_⟩
    · rw [← h (pk r) (Or.inr (Keyed.pk_mem r))]
      exact hw.1
    · rw [← Table.clash_congr fun j hj => h j (Or.inr hj)]
      exact hw.2
  | insertAuditLog r => trivial
  | _ => exact hw.elim

/-- The job is in the table: under its id there is one of the same user and with the
same recipient. -/
def EmailJob.StandsIn (j : EmailJob) (db : DB) : Prop :=
  ∃ j', db.emailJobs.get (.id j.id) = some j' ∧ j'.username = j.username ∧
    j'.recipient = j.recipient

/-- What the holder of `held` finds changed by others. -/
structure DB.Undisturbed (held : List LockKey) (db db' : DB) : Prop where
  entry : ∀ k ∈ held, db.entry k = db'.entry k
  active : ∀ username, LockKey.user (.username username) ∈ held →
    ∀ s' ∈ db'.sessions.rows, s'.activeFor username = true →
      ∃ s ∈ db.sessions.rows, s.id = s'.id ∧ s.activeFor username = true
  jobs : ∀ j : EmailJob, j.StandsIn db → j.StandsIn db'

def userCovenant : Covenant Write DB LockKey where
  Entry := Option Row
  entry := DB.entry
  legit := Write.legit
  rely := DB.Undisturbed
  entry_congr := DB.entry_apply_congr
  legit_congr := Write.legit_congr
  rely_entry h := h.entry
  rely_mono hsub h := ⟨fun k hk => h.entry k (hsub k hk),
    fun username hu => h.active username (hsub _ hu), h.jobs⟩

abbrev UserFooting := Footing userCovenant

def UserTx.changes : UserTx → User → User → Prop
  | updateUser env arg, o, r => o.username = arg.username ∧
      r = o.update env.now arg.toUpdateUserParams
  | requestEmailVerification env _, o, r => r = o.restartVerification env.now
  | verifyUserEmail env arg, o, r => o.username = arg.username ∧
      Unicode.lower o.email = Unicode.lower arg.email ∧ r = o.markVerified env.now
  | processEmailDeliveryEvent env _, o, r => ∃ arg, r = o.report env.now arg
  | disableExpiredPendingUser _ _, o, r => r = o.disable
  | disableExpiredPendingUsers _, o, r => r = o.disable
  | _, _, _ => False

/-- The writes a transaction may make. Sessions are changed while they are active
only, and email jobs never change hands. -/
def UserTx.allows (t : UserTx) : Write → Prop
  | .insertUser r => ∃ env arg, t = .createUser env arg ∧ r = newUser env.now arg
  | .updateUser o r => t.changes o r
  | .insertSession r => ∃ env arg checked, t = .createExclusiveSession env arg checked ∧
      r = newSession env.now arg
  | .updateSession o r => o.revoked = false ∧ ((∃ now reason, r = o.revoke now reason) ∨
      ∃ env arg, t = .rotateRefreshToken env arg ∧
        r = o.rotate env.now arg.newTokenHash arg.newRefreshID)
  | .insertEmailJob r => r.verificationToken = none
  | .updateEmailJob o r => r.id = o.id ∧ r.username = o.username ∧ r.recipient = o.recipient
  | .insertOutboxEvent _ => True
  | .insertEmailDeliveryEvent _ => True
  | .insertAuditLog _ => True
  | _ => False

def Write.userEdit : Write → Option (Edit User)
  | .insertUser r => some (.insert r)
  | .updateUser o r => some (.amend o r)
  | _ => none

def Write.sessionEdit : Write → Option (Edit Session)
  | .insertSession r => some (.insert r)
  | .updateSession o r => some (.amend o r)
  | _ => none

def Write.emailJobEdit : Write → Option (Edit EmailJob)
  | .insertEmailJob r => some (.insert r)
  | .updateEmailJob o r => some (.amend o r)
  | _ => none

section Edits

variable {R κ : Type} [Keyed R κ] [DecidableEq κ] [DecidableEq R] {table : DB → Table R}
  {edit : Write → Option (Edit R)}

theorem table_view (hedit : ∀ w db, table (w.apply db) = (table db).edit (edit w).toList)
    (ws : List Write) (db : DB) : table (view ws db) = (table db).edit (ws.filterMap edit) := by
  induction ws generalizing db with
  | nil => rfl
  | cons w ws ih =>
    rw [view_cons, ih, apply_write, hedit, ← Table.edit_append, List.filterMap_cons]
    cases edit w <;> rfl

theorem table_legits (hedit : ∀ w db, table (w.apply db) = (table db).edit (edit w).toList)
    (hlegit : ∀ w db, w.legit db → Table.Legits (edit w).toList (table db)) {ws : List Write}
    {db : DB} (h : userCovenant.LegitAll ws db) : Table.Legits (ws.filterMap edit) (table db) := by
  induction ws generalizing db with
  | nil => trivial
  | cons w ws ih =>
    have hw := hlegit w db h.1
    have hws := ih h.2
    rw [apply_write, hedit] at hws
    have happ := Table.legits_append.mpr ⟨hw, hws⟩
    rw [List.filterMap_cons]
    cases hedit' : edit w with
    | none => simpa [hedit'] using happ
    | some e => simpa [hedit'] using happ

end Edits

variable {t : UserTx} {ws : List Write} {db : DB}

theorem users_view : (view ws db).users = db.users.edit (ws.filterMap Write.userEdit) :=
  table_view (fun w _ => by cases w <;> rfl) ws db

theorem users_legits (h : userCovenant.LegitAll ws db) :
    Table.Legits (ws.filterMap Write.userEdit) db.users :=
  table_legits (fun w _ => by cases w <;> rfl)
    (fun w _ hw => by cases w <;> first | exact ⟨hw, trivial⟩ | trivial) h

theorem sessions_view : (view ws db).sessions = db.sessions.edit (ws.filterMap Write.sessionEdit) :=
  table_view (fun w _ => by cases w <;> rfl) ws db

theorem sessions_legits (h : userCovenant.LegitAll ws db) :
    Table.Legits (ws.filterMap Write.sessionEdit) db.sessions :=
  table_legits (fun w _ => by cases w <;> rfl)
    (fun w _ hw => by cases w <;> first | exact ⟨hw, trivial⟩ | trivial) h

theorem emailJobs_view :
    (view ws db).emailJobs = db.emailJobs.edit (ws.filterMap Write.emailJobEdit) :=
  table_view (fun w _ => by cases w <;> rfl) ws db

theorem emailJobs_legits (h : userCovenant.LegitAll ws db) :
    Table.Legits (ws.filterMap Write.emailJobEdit) db.emailJobs :=
  table_legits (fun w _ => by cases w <;> rfl)
    (fun w _ hw => by cases w <;> first | exact ⟨hw, trivial⟩ | trivial) h

@[simp] theorem Write.userEdit_amend {o r : User} :
    w.userEdit = some (.amend o r) ↔ w = .updateUser o r := by
  cases w <;> simp [Write.userEdit]

@[simp] theorem Write.userEdit_insert {r : User} :
    w.userEdit = some (.insert r) ↔ w = .insertUser r := by
  cases w <;> simp [Write.userEdit]

@[simp] theorem Write.sessionEdit_amend :
    w.sessionEdit = some (.amend o r) ↔ w = .updateSession o r := by
  cases w <;> simp [Write.sessionEdit]

@[simp] theorem Write.sessionEdit_insert :
    w.sessionEdit = some (.insert r) ↔ w = .insertSession r := by
  cases w <;> simp [Write.sessionEdit]

@[simp] theorem Write.emailJobEdit_amend {o r : EmailJob} :
    w.emailJobEdit = some (.amend o r) ↔ w = .updateEmailJob o r := by
  cases w <;> simp [Write.emailJobEdit]

theorem UserTx.allows_updateSession (h : t.allows (.updateSession o r)) :
    r.id = o.id ∧ r.username = o.username ∧ (r.revoked = false → o.revoked = false) := by
  obtain ⟨ho, ⟨now, reason, rfl⟩ | ⟨env, arg, _, rfl⟩⟩ := h
  · exact ⟨rfl, rfl, fun _ => ho⟩
  · exact ⟨rfl, rfl, fun _ => ho⟩

theorem active_of_view (hallow : ∀ w ∈ ws, t.allows w) (hlegit : userCovenant.LegitAll ws db)
    {username : String} {s' : Session} (hs' : s' ∈ (view ws db).sessions.rows)
    (hact : s'.activeFor username = true) :
    (∃ s ∈ db.sessions.rows, s.id = s'.id ∧ s.activeFor username = true) ∨
      ∃ r, .insertSession r ∈ ws ∧ r.id = s'.id ∧ r.username = username := by
  rw [sessions_view] at hs'
  have horigin := Table.origin_of_mem_edit (Q := fun o r : Session => r.activeFor username = true →
    o.activeFor username = true) (fun _ h => h) (fun hab hbc h => hab (hbc h)) (sessions_legits hlegit)
    hs' ?_
  · rcases horigin with ⟨s, hs, hpk, hrel⟩ | ⟨r, hr, hpk, hrel⟩
    · exact Or.inl ⟨s, hs, SessionKey.id.inj hpk, hrel hact⟩
    · exact Or.inr ⟨r, by simpa using hr, SessionKey.id.inj hpk,
        (Session.activeFor_iff.mp (hrel hact)).1⟩
  · intro o r hmem _ hr
    obtain ⟨_, huser, hrev⟩ := UserTx.allows_updateSession (hallow (.updateSession o r) (by simpa using hmem))
    obtain ⟨hname, hactive⟩ := Session.activeFor_iff.mp hr
    exact Session.activeFor_iff.mpr ⟨huser ▸ hname, hrev hactive⟩

theorem session_view (hlegit : userCovenant.LegitAll ws db) (hs : s ∈ db.sessions.rows) :
    (∃ r, .updateSession s r ∈ ws) ∨ s ∈ (view ws db).sessions.rows := by
  rw [sessions_view]
  rcases Table.mem_edit_of_mem (sessions_legits hlegit) hs with ⟨r, hr⟩ | h
  · exact Or.inl ⟨r, by simpa using hr⟩
  · exact Or.inr h

theorem revoked_view (hallow : ∀ w ∈ ws, t.allows w) (hlegit : userCovenant.LegitAll ws db)
    (hs : s ∈ db.sessions.rows) (hrev : s.revoked = true) : s ∈ (view ws db).sessions.rows := by
  rcases session_view hlegit hs with ⟨r, hr⟩ | h
  · have hact := (hallow _ hr).1
    rw [hrev] at hact
    cases hact
  · exact h

theorem EmailJob.StandsIn.view {j : EmailJob} (h : j.StandsIn db) (hallow : ∀ w ∈ ws, t.allows w)
    (hlegit : userCovenant.LegitAll ws db) : j.StandsIn (view ws db) := by
  obtain ⟨j₁, hj₁, huser, hrec⟩ := h
  have hid : j.id = j₁.id := EmailJob.id_mem_keys.mp (Table.key_of_get hj₁)
  obtain ⟨j₂, hj₂, huser₂, hrec₂⟩ := Table.get_edit_of_get
    (Q := fun o r : EmailJob => r.username = o.username ∧ r.recipient = o.recipient)
    (fun _ => ⟨rfl, rfl⟩) (fun hab hbc => ⟨hbc.1.trans hab.1, hbc.2.trans hab.2⟩)
    (emailJobs_legits hlegit) (Table.mem_of_get hj₁)
    fun o r hmem _ => (hallow (.updateEmailJob o r) (by simpa using hmem)).2
  refine ⟨j₂, ?_, huser₂.trans huser, hrec₂.trans hrec⟩
  rw [emailJobs_view, hid]
  exact hj₂

end Monierave
