import Bib.Auth.Keys
import Mathlib.Data.List.Sort

/-!
# Bib.Auth.Service

**Users and sessions of the authentication service** (`internal/auth/service.go` over the SQLite
repositories). `Authenticate` finds or registers the user of a public key and opens a session.

Its storage calls are separate statements, and other requests may run between any two of them. So
`Authenticate` is given as a program counter and a step function, one storage call at a time.
-/

namespace Bib.Auth

open Bib.Domain Bib.Lib

/-! ### Storage -/

/-- `storage.SessionType`; the table admits no other. -/
inductive SessionType
  | ssh
  | grpc
  | api
  deriving DecidableEq

structure Session where
  (id userID : String)
  type : SessionType
  (clientIP clientAgent publicKeyFingerprint nodeID : String)
  startedAt : Time
  endedAt : Option Time
  lastActivityAt : Time
  metadata : KeyMap String String
  deriving DecidableEq

/-- The tables `users` and `sessions`. -/
structure AuthDb where
  users : Table User.id
  sessions : Table Session.id

inductive AuthError
  | userNotFound
  | userPending
  | userSuspended
  | autoRegDisabled
  | unauthorized
  | other (text : String)

def getByPublicKey (publicKey : Bytes) (db : AuthDb) : Option User :=
  db.users.rows.find? fun user => user.publicKey = publicKey && user.status ≠ .deleted

def isFirstUser (db : AuthDb) : Bool :=
  (db.users.rows.filter fun user => user.status ≠ .deleted).length = 0

/-- Two users violate a unique constraint of the table; an empty email is stored as null. -/
def clashes (user other : User) : Bool :=
  user.id = other.id || user.publicKey = other.publicKey ||
    user.publicKeyFingerprint = other.publicKeyFingerprint ||
    (user.email ≠ "" && user.email = other.email)

def createUser (user : User) (db : AuthDb) : Except String AuthDb :=
  match user.validate with
  | .error err => .error err.message
  | .ok () =>
    if db.users.rows.any (clashes user) then .error "user already exists"
    else .ok { db with users := db.users.put user }

/-- `UserRepository.Update`: the columns it sets, unless the user is not valid, does not exist, or the
email is taken. -/
def updateUser (now : Time) (user : User) (db : AuthDb) : AuthDb :=
  match user.validate, db.users.find? user.id with
  | .ok (), some row =>
    if db.users.rows.any (fun other => other.id ≠ user.id && user.email ≠ "" && other.email = user.email)
    then db
    else
      { db with
        users := db.users.put
          { row with
            name := user.name, email := user.email, status := user.status, role := user.role
            locale := user.locale, updatedAt := now, lastLoginAt := user.lastLoginAt } }
  | _, _ => db

def getUser (userID : String) (db : AuthDb) : Option User :=
  (db.users.find? userID).filter fun user => user.status ≠ .deleted

def emailTaken (user : User) (db : AuthDb) : Bool :=
  db.users.rows.any fun other => other.id ≠ user.id && user.email ≠ "" && other.email = user.email

def updateUserResult (user : User) (db : AuthDb) : Except AuthError Unit :=
  match user.validate with
  | .error err => .error (.other err.message)
  | .ok () =>
    if (db.users.find? user.id).isNone then .error .userNotFound
    else if emailTaken user db then
      .error (.other "failed to update user: UNIQUE constraint failed: users.email")
    else .ok ()

/-- `GetByUser`, without its order. -/
def activeSessions (userID : String) (db : AuthDb) : List Session :=
  db.sessions.rows.filter fun session => session.userID = userID && session.endedAt.isNone

/-- `ORDER BY started_at DESC`. -/
def StartedLater (formatTime : Time → String) (a b : Session) : Prop :=
  formatTime b.startedAt ≤ formatTime a.startedAt

instance (formatTime : Time → String) : DecidableRel (StartedLater formatTime) := fun a b =>
  inferInstanceAs (Decidable (formatTime b.startedAt ≤ formatTime a.startedAt))

def getByUser (formatTime : Time → String) (userID : String) (db : AuthDb) : List Session :=
  (activeSessions userID db).insertionSort (StartedLater formatTime)

/-- The last of `GetByUser`'s sessions. -/
def oldestSession (formatTime : Time → String) : List Session → Option Session
  | [] => none
  | session :: rest =>
    match oldestSession formatTime rest with
    | none => some session
    | some oldest =>
      some (if formatTime session.startedAt < formatTime oldest.startedAt then session else oldest)

def endSession (now : Time) (id : String) (db : AuthDb) : AuthDb :=
  match db.sessions.find? id with
  | none => db
  | some session =>
    if session.endedAt.isSome then db
    else
      { db with
        sessions := db.sessions.put { session with endedAt := some now, lastActivityAt := now } }

def Session.ended (now : Time) (session : Session) : Session :=
  if session.endedAt.isSome then session
  else { session with endedAt := some now, lastActivityAt := now }

def endAllForUser (now : Time) (userID : String) (db : AuthDb) : AuthDb :=
  { db with
    sessions := db.sessions.modify
      (fun session => if session.userID = userID then session.ended now else session)
      (fun session => by unfold Session.ended; split <;> [split; skip] <;> rfl) }

/-- `SessionRepository.Create`; the user has to exist. -/
def createSession (session : Session) (db : AuthDb) : Except String AuthDb :=
  if (db.sessions.find? session.id).isSome then
    .error "UNIQUE constraint failed: sessions.id"
  else if (db.users.find? session.userID).isNone then .error "FOREIGN KEY constraint failed"
  else .ok { db with sessions := db.sessions.put session }

/-! ### Authenticate -/

structure AuthConfig where
  (allowAutoRegistration requireEmail : Bool)
  defaultRole : String
  (sessionTimeout maxSessionsPerUser : Int)

structure AuthenticateRequest where
  publicKey : Bytes
  keyType : KeyType
  (name email locale : String)
  sessionType : SessionType
  (clientIP clientAgent : String)
  metadata : KeyMap String String

structure AuthenticateResult where
  user : User
  session : Session
  isNew : Bool

/-- What a step of `Authenticate` finds: the clock, an error of the storage call, and the bytes of the
random source for the session id. -/
structure StepInput where
  now : Time
  fault : Option String
  random : Option Bytes

inductive AuthPc
  | lookup
  /-- No user was found and one may be registered; `IsFirstUser` follows. -/
  | registering
  | creating (user : User)
  /-- There is a user; the status check and `Users().Update` follow. -/
  | identified (user : User) (isNew : Bool)
  /-- The session limit is looked at. -/
  | counting (user : User) (isNew : Bool) (now : Time)
  /-- The oldest session is ended. -/
  | ending (user : User) (isNew : Bool) (now : Time) (oldest : String)
  | opening (user : User) (isNew : Bool) (now : Time)
  | done (result : Except AuthError AuthenticateResult)

def checkUserStatus (user : User) : Except AuthError Unit :=
  match user.status with
  | .active => .ok ()
  | .pending => .error .userPending
  | .suspended => .error .userSuspended
  | .deleted => .error .userNotFound
  | .other _ => .error .unauthorized

/-- The user that registration makes, with the default role and the locale. -/
def registeredUser (sha256 : Bytes → Bytes) (cfg : AuthConfig) (now : Time)
    (req : AuthenticateRequest) (first : Bool) : User :=
  let user := newUser sha256 now req.publicKey req.keyType req.name req.email first
  let user :=
    if !first && cfg.defaultRole ≠ "" && (UserRole.ofText cfg.defaultRole).isValid then
      { user with role := UserRole.ofText cfg.defaultRole }
    else user
  if req.locale ≠ "" then { user with locale := req.locale } else user

def generateSessionID (input : StepInput) : String :=
  match input.random with
  | some bytes => hexEncode bytes
  | none => "session-" ++ toString input.now

/-- The user after `LastLoginAt` was set and `Update` has been called. -/
def loggedIn (now : Time) (user : User) : User :=
  let user := { user with lastLoginAt := some now }
  match user.validate with
  | .ok () => { user with updatedAt := now }
  | .error _ => user

def newSession (nodeID : String) (req : AuthenticateRequest) (user : User) (id : String) (now : Time) : Session :=
  { id, userID := user.id, type := req.sessionType, clientIP := req.clientIP
    clientAgent := req.clientAgent, publicKeyFingerprint := user.publicKeyFingerprint, nodeID
    startedAt := now, endedAt := none, lastActivityAt := now, metadata := req.metadata }

/-- The service: its settings, and the functions of the Go library it uses. -/
structure Service where
  cfg : AuthConfig
  nodeID : String
  sha256 : Bytes → Bytes
  /-- `t.UTC().Format(time.RFC3339Nano)`. -/
  formatTime : Time → String

def plainService : Service :=
  { cfg :=
      { allowAutoRegistration := true, requireEmail := false, defaultRole := "user"
        sessionTimeout := 0, maxSessionsPerUser := 0 }
    nodeID := "n", sha256 := fun bytes => bytes, formatTime := fun t => toString t }

def Service.step (service : Service) (req : AuthenticateRequest) (input : StepInput) (pc : AuthPc)
    (db : AuthDb) : AuthPc × AuthDb :=
  match pc with
  | .lookup =>
    match input.fault with
    | some err => (.done (.error (.other ("failed to lookup user: " ++ err))), db)
    | none =>
      match getByPublicKey req.publicKey db with
      | some user => (.identified user false, db)
      | none =>
        if !service.cfg.allowAutoRegistration then (.done (.error .autoRegDisabled), db)
        else if service.cfg.requireEmail && req.email = "" then
          (.done (.error (.other "email is required for registration")), db)
        else (.registering, db)
  | .registering =>
    match input.fault with
    | some err => (.done (.error (.other ("failed to check first user: " ++ err))), db)
    | none => (.creating (registeredUser service.sha256 service.cfg input.now req (isFirstUser db)), db)
  | .creating user =>
    match input.fault with
    | some err => (.done (.error (.other ("failed to create user: " ++ err))), db)
    | none =>
      match createUser user db with
      | .error err => (.done (.error (.other ("failed to create user: " ++ err))), db)
      | .ok db' => (.identified user true, db')
  | .identified user isNew =>
    match checkUserStatus user with
    | .error err => (.done (.error err), db)
    | .ok () =>
      let user' := { user with lastLoginAt := some input.now }
      -- an error of the update is dropped
      let db' := if input.fault.isSome then db else updateUser input.now user' db
      if service.cfg.maxSessionsPerUser > 0 then
        (.counting (loggedIn input.now user) isNew input.now, db')
      else (.opening (loggedIn input.now user) isNew input.now, db')
  | .counting user isNew now =>
    let active := activeSessions user.id db
    match input.fault, oldestSession service.formatTime active with
    | none, some oldest =>
      if service.cfg.maxSessionsPerUser ≤ active.length then (.ending user isNew now oldest.id, db)
      else (.opening user isNew now, db)
    | _, _ => (.opening user isNew now, db)
  | .ending user isNew now oldest =>
    (.opening user isNew now, if input.fault.isSome then db else endSession input.now oldest db)
  | .opening user isNew now =>
    let session := newSession service.nodeID req user (generateSessionID input) now
    match input.fault with
    | some err => (.done (.error (.other ("failed to create session: " ++ err))), db)
    | none =>
      match createSession session db with
      | .error err => (.done (.error (.other ("failed to create session: " ++ err))), db)
      | .ok db' => (.done (.ok { user, session, isNew }), db')
  | .done result => (.done result, db)

def AuthPc.user : AuthPc → Option User
  | .lookup | .registering | .done (.error _) => none
  | .creating user | .identified user _ | .counting user _ _ | .ending user _ _ _
  | .opening user _ _ => some user
  | .done (.ok result) => some result.user

variable {db : AuthDb}

theorem publicKey_of_getByPublicKey {publicKey : Bytes} {user : User}
    (h : getByPublicKey publicKey db = some user) : user.publicKey = publicKey := by
  have hf := List.find?_some h
  simp only [Bool.and_eq_true, decide_eq_true_eq] at hf
  exact hf.1

theorem publicKey_registeredUser (sha256 : Bytes → Bytes) (cfg : AuthConfig) (now : Time)
    (req : AuthenticateRequest) (first : Bool) :
    (registeredUser sha256 cfg now req first).publicKey = req.publicKey := by
  unfold registeredUser
  split <;> split <;> rfl

theorem publicKey_loggedIn (now : Time) (user : User) : (loggedIn now user).publicKey = user.publicKey := by
  unfold loggedIn
  dsimp only
  split <;> rfl

/-- A user that a step settles on is the one before, or has the public key of the request. -/
theorem publicKey_of_step {service : Service} {req : AuthenticateRequest} {input : StepInput}
    {pc : AuthPc} (hpc : ∀ user ∈ pc.user, user.publicKey = req.publicKey) :
    ∀ user ∈ (service.step req input pc db).1.user, user.publicKey = req.publicKey := by
  cases pc with
  | lookup =>
    simp only [Service.step]
    split
    next => simp [AuthPc.user]
    next =>
      split
      next user hf => simp [AuthPc.user, publicKey_of_getByPublicKey hf]
      next => split <;> [skip; split] <;> simp [AuthPc.user]
  | registering =>
    simp only [Service.step]
    split
    next => simp [AuthPc.user]
    next => simp [AuthPc.user, publicKey_registeredUser]
  | creating user =>
    simp only [Service.step]
    split
    next => simp [AuthPc.user]
    next =>
      split
      next => simp [AuthPc.user]
      next => exact hpc
  | identified user isNew =>
    have huser : user.publicKey = req.publicKey := hpc user rfl
    simp only [Service.step]
    split
    next => simp [AuthPc.user]
    next => split <;> simp [AuthPc.user, publicKey_loggedIn, huser]
  | counting user isNew now =>
    simp only [Service.step]
    split
    next => split <;> exact hpc
    next => exact hpc
  | opening user isNew now =>
    have huser : user.publicKey = req.publicKey := hpc user rfl
    simp only [Service.step]
    split
    next => simp [AuthPc.user]
    next => split <;> simp [AuthPc.user, huser]
  | _ => exact hpc

end Bib.Auth
