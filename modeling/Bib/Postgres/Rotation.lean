import Bib.Lib.Run
import Bib.Postgres.Roles

/-!
# Bib.Postgres.Rotation

**Rotation of the database credentials** (`Rotator.Rotate` of `postgres/credentials/rotation.go`), with the role
manager as its callback. `Rotate` creates the new roles, waits, drops the old ones and makes the new set
current. The new set has the role names of the old one, so the drop removes the roles just created, and the
superuser, who is created only if missing, keeps the old password (`current_accepted_iff`).
-/

namespace Bib.Postgres

open Bib.Domain Bib.Lib List

/-! ### The rotator -/

inductive RotationState
  | idle
  | preparing
  | transitioning
  | finalizing
  | complete
  | failed
  deriving DecidableEq

def RotationState.name : RotationState → String
  | idle => "idle"
  | preparing => "preparing"
  | transitioning => "transitioning"
  | finalizing => "finalizing"
  | complete => "complete"
  | failed => "failed"

/-- `RotationEvent`, without its times. -/
structure RotationEvent where
  state : RotationState
  (oldVersion newVersion : Int)
  (message error : String)

/-- The rotator with the manager's current set, the stored set and the database. -/
structure Rotator where
  (current saved : Option Credentials)
  state : RotationState
  events : List RotationEvent
  db : Database

/-- What happens around one call of `Rotate`: the clock and the random source `generate` reads, and the
errors of what it calls, if they fail. -/
structure RotateCall where
  now : Time
  entropy : Nat → Entropy
  (createRefused updatePoolError : Option String)
  /-- `ctx.Err()`, if the context ends during the grace period. -/
  cancelled : Option String
  (dropRefused saveError : Option String)

namespace Rotator

def setState (r : Rotator) (state : RotationState) : Rotator := { r with state }

def recordEvent (r : Rotator) (state : RotationState) (oldVersion newVersion : Int)
    (message error : String) : Rotator :=
  { r with events := r.events ++ [{ state, oldVersion, newVersion, message, error }] }

def failRotation (r : Rotator) (oldVersion newVersion : Int) (message error : String) : Rotator :=
  { r with
    state := .failed
    events := r.events ++ [{ state := .failed, oldVersion, newVersion, message, error }] }

end Rotator

/-- Set the status of every credential of a set. -/
def Credentials.mark (status : CredentialStatus) (creds : Credentials) : Credentials :=
  { creds with
    superuser := { creds.superuser with status }
    admin := { creds.admin with status }
    roles :=
      { rows := creds.roles.rows.map fun entry => (entry.1, { entry.2 with status })
        nodup := by
          rw [List.map_map]
          exact creds.roles.nodup } }

def markRetiring : Credentials → Credentials := Credentials.mark .retiring

def markExpired : Credentials → Credentials := Credentials.mark .expired

def generateNewCredentials (config : Config) (call : RotateCall) (old : Credentials) : Except String Credentials :=
  match generate config call.now call.entropy with
  | .error err => .error err
  | .ok creds => .ok { creds with version := old.version + 1 }

/-- The database after `DropRoles`, whose error is only recorded. -/
def afterDrop (call : RotateCall) (db : Database) (old : Credentials) : Database :=
  match dropRoles call.dropRefused db old with
  | .error _ => db
  | .ok db' => db'

/-- Steps 6 to 9 of `Rotate`: drop the old roles, save, switch over. The old set is shared with the
manager, so marking it shows in `Current` as long as that is the old set. -/
def finalize (call : RotateCall) (old new : Credentials) (r : Rotator) : Except String Unit × Rotator :=
  let r := r.setState .finalizing
  let r := r.recordEvent .finalizing old.version new.version "Dropping old PostgreSQL roles" ""
  let r :=
    match dropRoles call.dropRefused r.db old with
    | .error err =>
      r.recordEvent .finalizing old.version new.version
        "Warning: Failed to drop old roles (will retry later)" err
    | .ok _ => r
  let r := { r with db := afterDrop call r.db old, current := some (markExpired old) }
  match call.saveError with
  | some err => (.error err, r.failRotation old.version new.version "Failed to save new credentials" err)
  | none =>
    let r := { r with saved := some new, current := some new, state := .complete }
    (.ok (), r.recordEvent .complete old.version new.version
      "Credential rotation completed successfully" "")

/-- Steps 2 to 5 of `Rotate`: create the new roles, retire the old set, move the pool, wait. -/
def transition (config : Config) (call : RotateCall) (old new : Credentials) (r : Rotator) :
    Except String Unit × Rotator :=
  let r := r.setState .transitioning
  let r := r.recordEvent .transitioning old.version new.version "Creating new PostgreSQL roles" ""
  match createRoles call.createRefused r.db new with
  | .error err => (.error err, r.failRotation old.version new.version "Failed to create new roles" err)
  | .ok db =>
    let r := { r with db, current := some (markRetiring old) }
    match call.updatePoolError with
    | some err =>
      (.error err, r.failRotation old.version new.version "Failed to update connection pool" err)
    | none =>
      let r := r.recordEvent .transitioning old.version new.version
        ("Waiting for grace period (" ++ config.rotationGracePeriod ++ ")") ""
      match call.cancelled with
      | some err =>
        (.error err, r.failRotation old.version new.version "Context cancelled during grace period" err)
      | none => finalize call (markRetiring old) new r

def rotate (config : Config) (r : Rotator) (call : RotateCall) : Except String Unit × Rotator :=
  if r.state ≠ .idle ∧ r.state ≠ .complete ∧ r.state ≠ .failed then
    (.error ("rotation already in progress: " ++ r.state.name), r)
  else
    let r := r.setState .preparing
    match r.current with
    | none => (.error "no current credentials to rotate", r)
    | some old =>
      let r := r.recordEvent .preparing old.version (old.version + 1)
        "Generating new credentials" ""
      match generateNewCredentials config call old with
      | .error err =>
        (.error err,
          r.failRotation old.version (old.version + 1) "Failed to generate new credentials" err)
      | .ok new => transition config call old new r

def rotateStep (config : Config) (r : Rotator) (call : RotateCall) : Rotator :=
  (rotate config r call).2

/-! ### Acceptance -/

def Database.Accepts (db : Database) (cred : RoleCredential) : Prop :=
  db.get? cred.username = some cred.password

instance (db : Database) (cred : RoleCredential) : Decidable (db.Accepts cred) :=
  inferInstanceAs (Decidable (_ = _))

/-- The database accepts the superuser's, the admin's and every job role's credential. -/
def AcceptsAll (db : Database) (creds : Credentials) : Prop :=
  db.Accepts creds.superuser ∧ db.Accepts creds.admin ∧ ∀ entry ∈ creds.roles.rows, db.Accepts entry.2

instance (db : Database) (creds : Credentials) : Decidable (AcceptsAll db creds) :=
  inferInstanceAs (Decidable (_ ∧ _))

/-- The database accepts every credential of the current set. -/
def Rotator.CurrentAccepted (r : Rotator) : Prop := ∀ creds ∈ r.current, AcceptsAll r.db creds

instance (r : Rotator) : Decidable r.CurrentAccepted :=
  inferInstanceAs (Decidable (∀ creds ∈ r.current, AcceptsAll r.db creds))

/-- The superuser will log in with the password drawn for it: the role does not exist yet, or has
that very password. -/
def superuserSettled (config : Config) (r : Rotator) (call : RotateCall) : Bool :=
  match r.db.get? superuserName, call.entropy 0 with
  | none, _ => true
  | some pass, .ok read => pass == password config.passwordLength read
  | some _, .error _ => false

/-- `DropRoles` will fail, or the current set names none of the roles that `generate` makes
credentials for. It fails if it is refused, or if a job role of the current set is missing and is
not about to be created. -/
def dropSpares (r : Rotator) (call : RotateCall) : Bool :=
  match r.current with
  | none => true
  | some old =>
    call.dropRefused.isSome ||
    (old.roleKeys.any fun role => !generatedNames.contains role && !r.db.exists? role) ||
    ((droppedNames old).all fun name => !generatedNames.contains name)

/-- The condition under which a `Rotate` leaves credentials that all work. -/
def rotateOk (config : Config) (r : Rotator) (call : RotateCall) : Bool :=
  superuserSettled config r call && dropSpares r call

/-! ### One rotation -/

section Rotate

variable {config : Config} {r : Rotator} {call : RotateCall} {old new : Credentials}

@[simp] theorem roleKeys_mark (status : CredentialStatus) (creds : Credentials) :
    (creds.mark status).roleKeys = creds.roleKeys := by
  rw [Credentials.roleKeys, Credentials.mark, map_map]
  rfl

@[simp] theorem droppedNames_mark (status : CredentialStatus) (creds : Credentials) :
    droppedNames (creds.mark status) = droppedNames creds := by
  rw [droppedNames, roleKeys_mark]
  rfl

theorem dropRoles_mark (refused : Option String) (db : Database) (status : CredentialStatus)
    (creds : Credentials) : dropRoles refused db (creds.mark status) = dropRoles refused db creds := by
  rw [dropRoles, dropRoles, generateDropRolesSQL, generateDropRolesSQL, roleKeys_mark, droppedNames_mark]

theorem finalize_eq_ok (h : (finalize call old new r).1 = .ok ()) :
    (finalize call old new r).2.current = some new ∧
      (finalize call old new r).2.db = afterDrop call r.db old := by
  cases hs : call.saveError with
  | some err => simp [finalize, hs] at h
  | none =>
    cases hd : dropRoles call.dropRefused r.db old with
    | error err => simp [finalize, hs, hd, Rotator.recordEvent, Rotator.setState]
    | ok db => simp [finalize, hs, hd, Rotator.recordEvent, Rotator.setState]

theorem transition_eq_ok (h : (transition config call old new r).1 = .ok ()) :
    ∃ db, createRoles call.createRefused r.db new = .ok db ∧
      (transition config call old new r).2.current = some new ∧
      (transition config call old new r).2.db = afterDrop call db old := by
  unfold transition at h ⊢
  simp only [Rotator.setState, Rotator.recordEvent] at h ⊢
  split at h
  next => cases h
  next db hc =>
    split at h
    next => cases h
    next =>
      split at h
      next => cases h
      next =>
        obtain ⟨hcu, hdb⟩ := finalize_eq_ok h
        refine ⟨db, hc, hcu, ?_⟩
        rw [hdb, afterDrop, markRetiring, dropRoles_mark]
        rfl

/-- A `Rotate` that returns no error has created the roles of a new set, tried to drop those of the
old one, and made the new set current. -/
theorem rotate_eq_ok (h : (rotate config r call).1 = .ok ()) : ∃ old new db, r.current = some old ∧
      generateNewCredentials config call old = .ok new ∧
      createRoles call.createRefused r.db new = .ok db ∧
      (rotateStep config r call).current = some new ∧
      (rotateStep config r call).db = afterDrop call db old := by
  unfold rotateStep
  unfold rotate at h ⊢
  by_cases hb : r.state ≠ .idle ∧ r.state ≠ .complete ∧ r.state ≠ .failed
  · rw [if_pos hb] at h
    cases h
  · rw [if_neg hb] at h ⊢
    simp only [Rotator.setState, Rotator.recordEvent] at h ⊢
    split at h
    next => cases h
    next old hold =>
      split at h
      next => cases h
      next new hnew =>
        obtain ⟨db, hc, hcu, hdb⟩ := transition_eq_ok h
        exact ⟨old, new, db, hold, hnew, hc, hcu, hdb⟩

theorem generateNewCredentials_eq_ok (h : generateNewCredentials config call old = .ok new) :
    Generated new ∧ ∃ read, call.entropy 0 = .ok read ∧
      new.superuser.password = password config.passwordLength read := by
  unfold generateNewCredentials at h
  cases hg : generate config call.now call.entropy with
  | error err =>
    rw [hg] at h
    cases h
  | ok creds =>
    rw [hg] at h
    cases h
    obtain ⟨hc, hread⟩ := generate_eq_ok hg
    exact ⟨⟨hc.superuser, hc.admin, hc.roles, hc.username⟩, hread⟩

theorem forall_generatedNames {P : String → Prop} (hg : Generated new) :
    (∀ name ∈ generatedNames, P name) ↔
      P superuserName ∧ P roleAdmin ∧ ∀ entry ∈ new.roles.rows, P entry.1 := by
  rw [generatedNames, forall_mem_cons, forall_mem_cons]
  refine and_congr_right fun _ => and_congr_right fun _ => ?_
  constructor
  · intro h entry he
    exact h entry.1 ((hg.roles entry.1).mp (mem_map_of_mem he))
  · intro h name hn
    obtain ⟨entry, he, rfl⟩ := mem_map.mp ((hg.roles name).mpr hn)
    exact h entry he

theorem get?_afterDrop {db : Database} {name pass : String}
    (h : KeyMap.get? (afterDrop call db old) name = some pass) : db.get? name = some pass := by
  unfold afterDrop at h
  split at h
  next => exact h
  next db' hd =>
    rw [(dropRoles_eq_ok.mp hd).2.2, get?_foldl_delete] at h
    split at h
    · cases h
    · exact h

section Dropping

variable {db : Database} (hnew : ∀ name ∈ generatedNames, db.get? name ≠ none)
  (hother : ∀ name, name ∉ generatedNames → db.get? name = r.db.get? name)

include hnew hother

/-- A job role of the old set is missing now exactly if it was missing and is not a new one. -/
theorem roleMissing_iff :
    (old.roleKeys.any fun role => !generatedNames.contains role && !r.db.exists? role) = true ↔
      ¬ ∀ role ∈ old.roleKeys, db.get? role ≠ none := by
  simp only [any_eq_true, Bool.and_eq_true, Bool.not_eq_true', contains_eq_mem,
    decide_eq_true_eq, ← Bool.not_eq_true, exists?_eq_true_iff, not_not, not_forall]
  constructor
  · rintro ⟨role, hrole, hn, hnone⟩
    exact ⟨role, hrole, (hother role hn).trans hnone⟩
  · rintro ⟨role, hrole, hnone⟩
    have hn : role ∉ generatedNames := fun hn => hnew role hn hnone
    exact ⟨role, hrole, hn, (hother role hn).symm.trans hnone⟩

/-- The condition in terms of the database that the drop finds. -/
theorem dropSpares_eq_true_iff (hold : r.current = some old) : dropSpares r call = true ↔
      ¬ (call.dropRefused = none ∧ ∀ role ∈ old.roleKeys, db.get? role ≠ none) ∨
      ∀ name ∈ droppedNames old, name ∉ generatedNames := by
  simp only [dropSpares, hold]
  rw [Bool.or_eq_true, Bool.or_eq_true, roleMissing_iff hnew hother, not_and_or,
    Option.isSome_iff_ne_none]
  simp

theorem dropSpares_iff (hold : r.current = some old) : dropSpares r call = true ↔
      ∀ name ∈ generatedNames, KeyMap.get? (afterDrop call db old) name = db.get? name := by
  rw [dropSpares_eq_true_iff hnew hother hold]
  cases hdo : dropRoles call.dropRefused db old with
  | error err =>
    refine ⟨fun _ name _ => by rw [afterDrop, hdo], fun _ => .inl ?_⟩
    rintro ⟨hr, he⟩
    rw [dropRoles_eq_ok.mpr ⟨hr, he, rfl⟩] at hdo
    cases hdo
  | ok db' =>
    obtain ⟨hr, he, rfl⟩ := dropRoles_eq_ok.mp hdo
    have ha : ∀ name, KeyMap.get? (afterDrop call db old) name =
        if name ∈ droppedNames old then none else db.get? name := by
      intro name
      rw [afterDrop, hdo]
      exact get?_foldl_delete _ _
    constructor
    · rintro (hf | hd) name hn
      · exact absurd ⟨hr, he⟩ hf
      · rw [ha, if_neg fun hdr => hd name hdr hn]
    · intro hs
      refine .inr fun name hdr hn => ?_
      have hnone := hs name hn
      rw [ha, if_pos hdr] at hnone
      exact hnew name hn hnone.symm

end Dropping

theorem superuserSettled_iff {read : Nat → UInt8} (hread : call.entropy 0 = .ok read) :
    superuserSettled config r call = true ↔
      (r.db.get? superuserName).getD (password config.passwordLength read) =
        password config.passwordLength read := by
  unfold superuserSettled
  cases r.db.get? superuserName with
  | none => simp
  | some pass => simp [hread]

/-- A `Rotate` that returns no error leaves a set that the database accepts exactly under the
condition. -/
theorem currentAccepted_rotate_iff (h : (rotate config r call).1 = .ok ()) :
    (rotateStep config r call).CurrentAccepted ↔ rotateOk config r call = true := by
  obtain ⟨old, new, db, hold, hnew, hc, hcu, hdb⟩ := rotate_eq_ok h
  obtain ⟨hg, read, hread, hpa⟩ := generateNewCredentials_eq_ok hnew
  obtain ⟨hsu, had, hjo, hother⟩ := get?_createRoles hg hc
  have hp : ∀ name ∈ generatedNames, db.get? name ≠ none := by
    refine (forall_generatedNames hg).mpr ⟨?_, ?_, fun entry he => ?_⟩
    · simp [hsu]
    · simp [had]
    · simp [hjo entry he]
  have hac : (rotateStep config r call).CurrentAccepted ↔
      AcceptsAll (afterDrop call db old) new := by
    rw [Rotator.CurrentAccepted, hcu, hdb]
    simp
  rw [hac, rotateOk, Bool.and_eq_true, dropSpares_iff hp hother hold,
    forall_generatedNames hg, superuserSettled_iff hread, ← hpa, AcceptsAll]
  simp only [Database.Accepts, hg.superuser, hg.admin]
  constructor
  · rintro ⟨hs, ha, hj⟩
    have hold := get?_afterDrop hs
    rw [hsu] at hold
    refine ⟨Option.some.inj hold, hs.trans (get?_afterDrop hs).symm,
      ha.trans (get?_afterDrop ha).symm, fun entry he => ?_⟩
    have he' := hj entry he
    rw [hg.username entry he] at he'
    exact he'.trans (get?_afterDrop he').symm
  · rintro ⟨hse, hs, ha, hj⟩
    refine ⟨?_, ha.trans had, fun entry he => ?_⟩
    · rw [hs, hsu, hse]
    · rw [hg.username entry he, hj entry he, hjo entry he]

end Rotate

/-! ### Runs -/

/-- A run of rotations that all return no error, from a state in which every credential of the current
set is accepted: they stay accepted after every rotation exactly if every rotation meets the
condition. -/
theorem current_accepted_iff (config : Config) (r : Rotator) (calls : List RotateCall) (hstart : r.CurrentAccepted)
    (hok : Run.AllSteps (rotateStep config) (fun r call => (rotate config r call).1 = .ok ()) r calls) :
    (∀ done, done <+: calls → (done.foldl (rotateStep config) r).CurrentAccepted) ↔
      Run.AllSteps (rotateStep config) (fun r call => rotateOk config r call = true) r calls :=
  Run.forall_prefix_iff_of_legal Rotator.CurrentAccepted
    (fun _ _ h _ => currentAccepted_rotate_iff h) hstart hok

/-! ### A first rotation -/

/-- Passwords of two characters, printed from one byte. -/
def sampleConfig : Config :=
  { rotationInterval := 10, rotationGracePeriod := "5m0s", passwordLength := 2,
    encryptionMethod := .hybrid }

/-- The credential of the first generation with a given username. -/
def sampleCredential (username : String) : RoleCredential :=
  freshCredential sampleConfig 0 username "00"

/-- The first generation, for a superuser of the given name. -/
def sampleCredentials (superuser : String) : Credentials :=
  { version := 1, generatedAt := 0, expiresAt := 10, encryptionMethod := .hybrid
    superuser := sampleCredential superuser
    admin := sampleCredential roleAdmin
    roles := Table.empty.putAll (jobRoles.map fun role => (role, sampleCredential role)) }

/-- A node that runs on its first generation. -/
def sampleRotator (superuser : String) : Rotator :=
  { current := some (sampleCredentials superuser), saved := none, state := .idle, events := []
    db := Table.empty.putAll
      ((superuser :: roleAdmin :: jobRoles).map fun name => (name, "00")) }

/-- A rotation with new passwords; `refused` is the database's answer to the drop. -/
def sampleCall (refused : Option String) : RotateCall :=
  { now := 20, entropy := fun i => .ok fun _ => UInt8.ofNat (i + 1), createRefused := none
    updatePoolError := none, cancelled := none, dropRefused := refused, saveError := none }

/-- A database that had another superuser and refuses to drop roles accepts the second generation. -/
theorem current_accepted_iff_refused : (rotateStep sampleConfig (sampleRotator "postgres")
      (sampleCall (some "objects depend on it"))).CurrentAccepted :=
  (current_accepted_iff sampleConfig (sampleRotator "postgres")
    [sampleCall (some "objects depend on it")] (by decide +kernel)
    ⟨by decide +kernel, trivial⟩).mpr (by decide +kernel) _ prefix_rfl

/-- A node that generated its credentials itself is locked out by its first rotation: it returns no
error, the superuser still has the old password, and the other roles are gone. -/
theorem first_rotation_locks_out : (sampleRotator superuserName).CurrentAccepted ∧
      (rotate sampleConfig (sampleRotator superuserName) (sampleCall none)).1 = .ok () ∧
      ¬ (rotateStep sampleConfig (sampleRotator superuserName) (sampleCall none)).CurrentAccepted ∧
      (rotateStep sampleConfig (sampleRotator superuserName) (sampleCall none)).db.rows =
        [(superuserName, "00")] := by
  decide +kernel

/-! ### Rotations that fail -/

/-- A later `Rotate` is not refused as already in progress. -/
def RotationState.Free (state : RotationState) : Prop := state = .idle ∨ state = .complete ∨ state = .failed

/-- The status a failure after `CreateRoles` leaves on the old set, if there is such a failure. -/
def RotateCall.leaves (call : RotateCall) : Option CredentialStatus :=
  if call.updatePoolError.isSome ∨ call.cancelled.isSome then some .retiring
  else if call.saveError.isSome then some .expired
  else none

/-- There are credentials to rotate and no rotation is under way. If `CreateRoles` is reached and succeeds,
no later step fails, unless every credential has the status that the failure leaves. -/
def Rotator.FailsCleanly (config : Config) (r : Rotator) (call : RotateCall) : Prop :=
  r.state.Free ∧ ∃ old, r.current = some old ∧
    ∀ new db, generateNewCredentials config call old = .ok new →
      createRoles call.createRefused r.db new = .ok db → ∀ status ∈ call.leaves, old.mark status = old

theorem mark_mark (status status' : CredentialStatus) (creds : Credentials) :
    (creds.mark status').mark status = creds.mark status := by
  simp [Credentials.mark, Function.comp_def]

section Failing

variable {config : Config} {r : Rotator} {call : RotateCall} {old new : Credentials}

/-- A rotation that has created the new roles fails exactly if it leaves a status. -/
theorem transition_created {db : Database} (hc : createRoles call.createRefused r.db new = .ok db) :
    (call.leaves = none ∧ (transition config call old new r).1 = .ok ()) ∨
      ∃ status err, call.leaves = some status ∧ (transition config call old new r).1 = .error err ∧
        (transition config call old new r).2.current = some (old.mark status) ∧
        (transition config call old new r).2.state = .failed := by
  unfold transition RotateCall.leaves
  simp only [Rotator.setState, Rotator.recordEvent, hc]
  cases call.updatePoolError with
  | some err => exact .inr ⟨_, err, rfl, rfl, rfl, rfl⟩
  | none =>
    cases call.cancelled with
    | some err => exact .inr ⟨_, err, rfl, rfl, rfl, rfl⟩
    | none =>
      unfold finalize
      cases call.saveError with
      | some err => exact .inr ⟨_, err, rfl, rfl, congrArg some (mark_mark _ _ old), rfl⟩
      | none => exact .inl ⟨rfl, rfl⟩

theorem transition_keeps_iff (hr : r.current = some old) :
    (∀ err, (transition config call old new r).1 = .error err →
        (transition config call old new r).2.current = some old ∧
          (transition config call old new r).2.state.Free) ↔
      ∀ db, createRoles call.createRefused r.db new = .ok db →
        ∀ status ∈ call.leaves, old.mark status = old := by
  cases hc : createRoles call.createRefused r.db new with
  | error e =>
    refine iff_of_true (fun _ _ => ?_) fun _ h => nomatch h
    simp only [transition, Rotator.setState, Rotator.recordEvent, hc]
    exact ⟨hr, .inr (.inr rfl)⟩
  | ok db =>
    rcases @transition_created config r call old new db hc with
      ⟨hn, hok⟩ | ⟨status, err, hs, herr, hcur, hst⟩
    · simp [hn, hok]
    · simp [hs, herr, hcur, hst, RotationState.Free]

end Failing

/-- **A `Rotate` that returns an error can be repeated and has changed nothing exactly if it `FailsCleanly`.** The
old set is shared with the manager, so what was marked on it stays; and without credentials the state stays
`preparing`. -/
theorem failed_rotation_repeatable_iff (config : Config) (r : Rotator) (call : RotateCall) :
    (∀ err, (rotate config r call).1 = .error err → (rotate config r call).2.current = r.current ∧
        (rotate config r call).2.state.Free) ↔
      r.FailsCleanly config call := by
  unfold rotate Rotator.FailsCleanly
  by_cases hb : r.state ≠ .idle ∧ r.state ≠ .complete ∧ r.state ≠ .failed
  · have hbusy : ¬ r.state.Free := by simpa [RotationState.Free] using hb
    rw [if_pos hb]
    exact iff_of_false (fun h => hbusy (h _ rfl).2) fun h => hbusy h.1
  have hfree : r.state.Free := by
    tauto
  rw [if_neg hb]
  simp only [Rotator.setState, Rotator.recordEvent]
  cases hold : r.current with
  | none =>
    refine iff_of_false (fun h => ?_) fun ⟨_, old, h, _⟩ => nomatch h
    rcases (h _ rfl).2 with h | h | h <;> cases h
  | some old =>
    simp only [hfree, true_and, Option.some.injEq, exists_eq_left']
    cases hnew : generateNewCredentials config call old with
    | error e =>
      refine iff_of_true (fun _ _ => ?_) fun _ _ h => nomatch h
      exact ⟨rfl, Or.inr (Or.inr rfl)⟩
    | ok new =>
      refine (transition_keeps_iff rfl).trans ⟨fun h _ db hn => ?_, fun h db => h new db rfl⟩
      cases hn
      exact h db

/-- The pool cannot be moved: `Current` holds the old set with every credential retiring. -/
theorem failed_rotation_marks_current :
    let call := { sampleCall none with updatePoolError := some "refused" }
    (rotate sampleConfig (sampleRotator superuserName) call).1 = .error "refused" ∧
      (rotate sampleConfig (sampleRotator superuserName) call).2.current =
        some (markRetiring (sampleCredentials superuserName)) ∧
      markRetiring (sampleCredentials superuserName) ≠ sampleCredentials superuserName := by
  decide +kernel

end Bib.Postgres
