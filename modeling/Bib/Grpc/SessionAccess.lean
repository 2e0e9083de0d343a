import Bib.Auth.Sessions
import Bib.Grpc.Rbac

/-!
# Bib.Grpc.SessionAccess

**Who sees whose sessions** (`ListUserSessions` and `GetUserPreferences` of `grpc/services/user/server.go`,
`ListMySessions` of `grpc/services/auth/server.go`, behind the RBAC interceptor). The id of a session is the
token that a client authenticates with. `ListUserSessions` is marked as a method for one's own data, but nobody
looks at the mark (`sessions_private_iff`).
-/

namespace Bib.Grpc

open Bib.Domain Bib.Lib Bib.Auth List
open Table (empty)

/-! ### Storage -/

/-- `storage.UserPreferences`, without the times. -/
structure UserPreferences where
  (userID theme locale timezone dateFormat : String)
  (notificationsEnabled emailNotifications : Bool)
  custom : KeyMap String String

structure AccountDb extends AuthDb where
  preferences : Table UserPreferences.userID

/-- `UserPreferencesRepository.Get`, with defaults for a user who has none. -/
def getPreferences (userID : String) (db : AccountDb) : UserPreferences :=
  (db.preferences.find? userID).getD
    { userID, theme := "system", locale := "en", timezone := "UTC", dateFormat := "YYYY-MM-DD"
      notificationsEnabled := true, emailNotifications := false, custom := .empty }

/-! ### The handlers -/

structure SessionProto where
  (id userID : String)
  type : SessionType
  (clientIP clientAgent publicKeyFingerprint nodeID : String)
  (startedAt lastActivityAt : Time)
  endedAt : Option Time
  metadata : KeyMap String String

def sessionToProto (s : Session) : SessionProto :=
  { id := s.id, userID := s.userID, type := s.type, clientIP := s.clientIP
    clientAgent := s.clientAgent, publicKeyFingerprint := s.publicKeyFingerprint
    nodeID := s.nodeID, startedAt := s.startedAt, lastActivityAt := s.lastActivityAt
    endedAt := s.endedAt, metadata := s.metadata }

structure SessionInfo where
  id : String
  type : SessionType
  (clientIP clientAgent nodeID : String)
  startedAt : Time
  isCurrent : Bool
  (lastActivityAt expiresAt : Option Time)

def storageSessionToProto (session : Session) (isCurrent : Bool) : SessionInfo :=
  { id := session.id, type := session.type, clientIP := session.clientIP
    clientAgent := session.clientAgent, nodeID := session.nodeID, startedAt := session.startedAt
    isCurrent
    lastActivityAt := if session.lastActivityAt = zeroTime then none else some session.lastActivityAt
    expiresAt := session.endedAt }

inductive UserRequest
  | listUserSessions (userID : String)
  | listMySessions (includeExpired : Bool) (limit : Int)
  | getUserPreferences (userID : String)

inductive UserResponse
  | listUserSessions (sessions : List SessionProto)
  | listMySessions (sessions : List SessionInfo) (totalCount : Int)
  | getUserPreferences (preferences : UserPreferences)

def UserRequest.method : UserRequest → String
  | listUserSessions _ => "/bib.v1.services.UserService/ListUserSessions"
  | listMySessions _ _ => "/bib.v1.services.AuthService/ListMySessions"
  | getUserPreferences _ => "/bib.v1.services.UserService/GetUserPreferences"

/-- The user a request is about: the one it names, or the one who makes it. -/
def requestedUser (userID : String) (call : Call) : Except Status String :=
  if userID ≠ "" then .ok userID
  else
    match call.user with
    | none => .error { code := .unauthenticated, message := "not authenticated" }
    | some user => .ok user.id

def listUserSessions (service : Service) (userID : String) (call : Call) (db : AccountDb) :
    Except Status UserResponse :=
  match requestedUser userID call with
  | .error err => .error err
  | .ok userID =>
    .ok (.listUserSessions ((getByUser service.formatTime userID db.toAuthDb).map sessionToProto))

def getUserPreferences (userID : String) (call : Call) (db : AccountDb) : Except Status UserResponse :=
  match requestedUser userID call with
  | .error err => .error err
  | .ok userID => .ok (.getUserPreferences (getPreferences userID db))

/-- The part of `ExtractSessionToken` that strips the scheme. -/
def stripScheme (token : String) : String :=
  if token.length > 7 ∧ token.toList.take 7 = "Bearer ".toList then
    String.ofList (token.toList.drop 7)
  else token

def extractSessionToken (call : Call) : Except Status String :=
  match call.metadata with
  | none => .error { code := .unauthenticated, message := "missing metadata" }
  | some md =>
    match md.get "x-session-token" with
    | token :: _ => .ok token
    | [] =>
      match md.get "authorization" with
      | [] => .error { code := .unauthenticated, message := "missing session token" }
      | token :: _ => .ok (stripScheme token)

def sessionErrorText : SessionError → String
  | .sessionNotFound => "session not found"
  | .sessionExpired => "session has expired"
  | .storage => "failed to query session"

/-- `int32` of a length. -/
def int32OfLength (n : Nat) : Int := (Int32.ofNat n).toInt

def listMySessions (service : Service) (includeExpired : Bool) (limit : Int) (call : Call)
    (db : AccountDb) : Except Status UserResponse :=
  match extractSessionToken call with
  | .error err => .error err
  | .ok sessionID =>
    let input : SessionInput := { now := call.now, readFails := false, writeFails := false }
    match getSession service.cfg.sessionTimeout input sessionID db.toAuthDb with
    | (.error err, _) =>
      .error { code := .unauthenticated, message := "invalid session: " ++ sessionErrorText err }
    | (.ok session, db') =>
      let sessions := (getByUser service.formatTime session.userID db').filter fun sess =>
        sess.endedAt.isNone || includeExpired
      let protoSessions := sessions.map fun sess => storageSessionToProto sess (sess.id = sessionID)
      let protoSessions :=
        if limit > 0 ∧ limit < protoSessions.length then protoSessions.take limit.toNat
        else protoSessions
      .ok (.listMySessions protoSessions (int32OfLength protoSessions.length))

def handle (service : Service) (call : Call) (db : AccountDb) : UserRequest → Except Status UserResponse
  | .listUserSessions userID => listUserSessions service userID call db
  | .listMySessions includeExpired limit => listMySessions service includeExpired limit call db
  | .getUserPreferences userID => getUserPreferences userID call db

/-- A request on its way through the RBAC interceptor to its handler. -/
def respond (service : Service) (cfg : RBACConfig) (getUserFromToken : String → Except String User)
    (call : Call) (db : AccountDb) (req : UserRequest) : Except Status UserResponse :=
  match rbacCheck cfg getUserFromToken { call with method := req.method, user := none } with
  | .error err => .error err
  | .ok call' => handle service call' db req

/-! ### What a request depends on -/

/-- The databases differ only in sessions of users other than the given one. -/
structure SameForUser (userID : String) (db db' : AccountDb) : Prop where
  users : db.users = db'.users
  preferences : db.preferences = db'.preferences
  sessions : (db.sessions.rows.filter fun session => session.userID = userID) =
    db'.sessions.rows.filter fun session => session.userID = userID

def texts (call : Call) (req : UserRequest) : List String :=
  (call.metadata.getD []).flatMap Prod.snd ++
    match req with
    | .listUserSessions userID | .getUserPreferences userID => [userID]
    | .listMySessions _ _ => []

/-- The request contains no id of a session of another user. -/
def NoForeignID (userID : String) (call : Call) (req : UserRequest) (db : AccountDb) : Prop :=
  ∀ session ∈ db.sessions.rows, session.userID ≠ userID →
    ∀ text ∈ texts call req, ¬session.id.toList <:+: text.toList

/-- The request is about the user who makes it, or not about sessions of a named user. -/
def UserRequest.staysWith (user : User) : UserRequest → Bool
  | listUserSessions userID => userID = "" || userID = user.id
  | listMySessions _ _ | getUserPreferences _ => true

/-- The interceptor does not let the user pass. -/
def refused (cfg : RBACConfig) (user : User) (call : Call) : Bool :=
  cfg.enabled && (extractToken call = "" || !user.isActive)

variable {cfg : RBACConfig} {call : Call} {user : User} {service : Service} {db : AccountDb}
  {resolve : String → Except String User}

/-- What reaches the handler: nothing, or the call, with the user if the interceptor is enabled. -/
theorem rbacCheck_eq {getUserFromToken : String → Except String User} (req : UserRequest)
    (huser : getUserFromToken (extractToken call) = .ok user) :
    rbacCheck cfg getUserFromToken { call with method := req.method, user := none } =
      if !cfg.enabled then .ok { call with method := req.method, user := none }
      else if extractToken call = "" then
        .error { code := .unauthenticated, message := "missing authentication token" }
      else if !user.isActive then
        .error { code := .permissionDenied, message := "user account is not active" }
      else .ok { call with method := req.method, user := some user } := by
  have hp : methodPermissions.lookup req.method = some ownData := by
    cases req <;> simp only [UserRequest.method] <;> decide +kernel
  have ht : extractToken { call with method := req.method, user := none } = extractToken call := rfl
  unfold rbacCheck
  by_cases hen : cfg.enabled = true
  · by_cases he : extractToken call = ""
    · simp [hen, hp, ownData, anyUser, noAuth, extractAndValidateUser, ht, he]
    · simp [hen, hp, ownData, anyUser, noAuth, extractAndValidateUser, ht, he, huser]
  · simp [hen]

section

variable {userID : String} {db db' : AccountDb} {call : Call} {req : UserRequest}

theorem getByUser_eq_of_same (formatTime : Time → String) (h : SameForUser userID db db') :
    getByUser formatTime userID db.toAuthDb = getByUser formatTime userID db'.toAuthDb := by
  have ha : activeSessions userID db.toAuthDb = activeSessions userID db'.toAuthDb := by
    have hf := congrArg (filter fun session => session.endedAt.isNone) h.sessions
    simpa [activeSessions, Bool.and_comm] using hf
  unfold getByUser
  rw [ha]

variable {text id : String}

theorem userID_of_noForeignID {session : Session}
    (hf : NoForeignID userID call req db) (ht : text ∈ texts call req)
    (hp : session.id.toList <:+: text.toList) (hs : session ∈ db.sessions.rows) :
    session.userID = userID := by
  by_contra hne
  exact hf session hs hne text ht hp

/-- Sessions with an id that the request contains are the same in both databases. -/
theorem find?_eq_of_same (h : SameForUser userID db db')
    (hf : NoForeignID userID call req db) (hf' : NoForeignID userID call req db')
    (ht : text ∈ texts call req) (hp : id.toList <:+: text.toList) :
    db.sessions.find? id = db'.sessions.find? id := by
  ext session
  simp only [Table.find?_eq_some_iff]
  have hmem : session ∈ db.sessions.rows ∧ session.userID = userID ↔
      session ∈ db'.sessions.rows ∧ session.userID = userID := by
    simpa [mem_filter] using congrArg (session ∈ ·) h.sessions
  constructor
  · intro hs
    have hown := userID_of_noForeignID hf ht (hs.2 ▸ hp) hs.1
    exact ⟨(hmem.mp ⟨hs.1, hown⟩).1, hs.2⟩
  · intro hs
    have hown := userID_of_noForeignID hf' ht (hs.2 ▸ hp) hs.1
    exact ⟨(hmem.mpr ⟨hs.1, hown⟩).1, hs.2⟩

theorem mem_texts_of_get {md : Metadata} {key token : String} {tokens : List String}
    (hmd : call.metadata = some md) (hg : md.get key = token :: tokens) :
    token ∈ texts call req := by
  have hlo : md.lookup key = some (token :: tokens) := by
    unfold Metadata.get at hg
    cases hl : md.lookup key with
    | none => simp [hl] at hg
    | some values => rw [hl] at hg; exact congrArg some hg
  obtain ⟨before, after, hs, -⟩ := lookup_eq_some_iff.mp hlo
  refine mem_append_left _ (mem_flatMap.mpr ⟨(key, token :: tokens), ?_, mem_cons_self⟩)
  rw [hmd, hs]
  exact mem_append_right _ mem_cons_self

/-- The token that `ListMySessions` looks up is part of a text of the request. -/
theorem infix_of_extractSessionToken (h : extractSessionToken call = .ok id) :
    ∃ text ∈ texts call req, id.toList <:+: text.toList := by
  unfold extractSessionToken at h
  cases hmd : call.metadata with
  | none => rw [hmd] at h; cases h
  | some md =>
    simp only [hmd] at h
    cases hg : md.get "x-session-token" with
    | cons token tokens =>
      rw [hg] at h
      have hid : token = id := Except.ok.inj h
      exact ⟨token, mem_texts_of_get hmd hg, hid ▸ infix_rfl⟩
    | nil =>
      rw [hg] at h
      cases ha : md.get "authorization" with
      | nil => rw [ha] at h; cases h
      | cons token tokens =>
        rw [ha] at h
        have hid : stripScheme token = id := Except.ok.inj h
        refine ⟨token, mem_texts_of_get hmd ha, ?_⟩
        rw [← hid, stripScheme]
        split
        · rw [String.toList_ofList]
          exact (drop_suffix 7 _).isInfix
        · exact infix_rfl

theorem listMySessions_eq_of_same (service : Service) (includeExpired : Bool) (limit : Int)
    (call' : Call) (hcall : call'.metadata = call.metadata) (h : SameForUser userID db db')
    (hf : NoForeignID userID call req db) (hf' : NoForeignID userID call req db') :
    listMySessions service includeExpired limit call' db =
      listMySessions service includeExpired limit call' db' := by
  have ht : extractSessionToken call' = extractSessionToken call := by
    simp [extractSessionToken, hcall]
  unfold listMySessions
  rw [ht]
  cases hex : extractSessionToken call with
  | error err => rfl
  | ok id =>
    obtain ⟨text, hte, hp⟩ := infix_of_extractSessionToken hex
    have hfi := find?_eq_of_same h hf hf' hte hp
    simp only [getSession, Bool.false_eq_true, if_false, hfi]
    cases hs : db'.sessions.find? id with
    | none => rfl
    | some session =>
      have hown : session.userID = userID :=
        userID_of_noForeignID hf' hte (Table.key_of_find? hs ▸ hp)
          (Table.mem_of_find? hs)
      dsimp only
      by_cases he : session.endedAt.isSome = true
      · simp [he]
      · rw [if_neg he, if_neg he]
        by_cases hi : service.cfg.sessionTimeout > 0 ∧
            since call'.now session.lastActivityAt > service.cfg.sessionTimeout
        · simp [hi]
        · rw [if_neg hi, if_neg hi]
          dsimp only
          rw [hown, getByUser_eq_of_same service.formatTime h]

theorem handle_eq_of_same (service : Service) {user : User} {call' : Call}
    (hcall : call'.metadata = call.metadata) (hs : req.staysWith user = true)
    (huser : ∀ other, call'.user = some other → other = user) (h : SameForUser user.id db db')
    (hf : NoForeignID user.id call req db) (hf' : NoForeignID user.id call req db') :
    handle service call' db req = handle service call' db' req := by
  cases req with
  | listUserSessions userID =>
    have hr : ∀ id, requestedUser userID call' = .ok id → id = user.id := by
      intro id hid
      simp only [UserRequest.staysWith, Bool.or_eq_true, decide_eq_true_eq] at hs
      unfold requestedUser at hid
      split at hid
      next hne =>
        rw [← Except.ok.inj hid]
        exact hs.resolve_left hne
      · split at hid
        · cases hid
        next other hother => rw [← Except.ok.inj hid, huser other hother]
    simp only [handle, listUserSessions]
    cases hid : requestedUser userID call' with
    | error err => rfl
    | ok id =>
      dsimp only
      rw [hr id hid, getByUser_eq_of_same service.formatTime h]
  | listMySessions includeExpired limit =>
    exact listMySessions_eq_of_same service includeExpired limit call' hcall h hf hf'
  | getUserPreferences userID => simp [handle, getUserPreferences, getPreferences, h.preferences]

end

theorem respond_eq_of_staysWith
    {req : UserRequest} {db' : AccountDb} {resolve' : String → Except String User}
    (hr : refused cfg user call = true ∨ req.staysWith user = true)
    (huser : resolve (extractToken call) = .ok user)
    (hu' : resolve' (extractToken call) = .ok user) (h : SameForUser user.id db db')
    (hf : NoForeignID user.id call req db) (hf' : NoForeignID user.id call req db') :
    respond service cfg resolve call db req = respond service cfg resolve' call db' req := by
  unfold respond
  rw [rbacCheck_eq req huser, rbacCheck_eq req hu']
  cases he : cfg.enabled with
  | false =>
    have hs : req.staysWith user = true := hr.resolve_left (by simp [refused, he])
    exact handle_eq_of_same service rfl hs (fun other hother => by cases hother) h hf
      hf'
  | true =>
    by_cases ht : extractToken call = ""
    · simp [ht]
    · rw [if_neg ht]
      cases ha : user.isActive with
      | false => simp
      | true =>
        have hs : req.staysWith user = true := hr.resolve_left (by simp [refused, ht, ha])
        exact handle_eq_of_same service rfl hs (fun other hother => (Option.some.inj hother).symm)
          h hf hf'

def bareSession (id userID : String) : Session :=
  { id, userID, type := .grpc, clientIP := "", clientAgent := "", publicKeyFingerprint := ""
    nodeID := "", startedAt := 0, endedAt := none, lastActivityAt := 0, metadata := .empty }

def twoUsers (user : User) (userID : String) (sessions : Table Session.id) : AccountDb :=
  { users := (empty.put user).put { user with id := userID }
    sessions, preferences := .empty }

theorem exists_fresh_id (texts : List String) : ∃ id : String, ∀ text ∈ texts, ¬id.toList <:+: text.toList := by
  let all := (texts.map String.toList).flatten
  refine ⟨String.ofList (replicate (all.length + 1) 'x'), fun text ht hp => ?_⟩
  have hlen := hp.length_le
  have hall : text.toList.length ≤ all.length := (sublist_flatten_of_mem (mem_map_of_mem ht)).length_le
  rw [String.toList_ofList, length_replicate] at hlen
  omega

/-- The sessions of another user are listed to a user who asks for them. -/
theorem respond_listUserSessions
    {userID : String} (hp : refused cfg user call = false) (hne : userID ≠ "")
    (huser : resolve (extractToken call) = .ok user) :
    respond service cfg resolve call db (.listUserSessions userID) = .ok (.listUserSessions
        ((getByUser service.formatTime userID db.toAuthDb).map sessionToProto)) := by
  unfold respond
  rw [rbacCheck_eq _ huser]
  cases he : cfg.enabled with
  | false => simp [handle, listUserSessions, requestedUser, hne]
  | true =>
    simp only [refused, he, Bool.true_and, Bool.or_eq_false_iff, decide_eq_false_iff_not,
      Bool.not_eq_false'] at hp
    simp [hp.1, hp.2, handle, listUserSessions, requestedUser, hne]

/-- **A request of a user has an answer that does not depend on sessions of others exactly if** it is
refused, or names no other user whose sessions are to be listed. -/
theorem sessions_private_iff (service : Service) (cfg : RBACConfig) (user : User) (call : Call)
    (req : UserRequest) : (∀ db db' resolve resolve', resolve (extractToken call) = .ok user →
      resolve' (extractToken call) = .ok user → SameForUser user.id db db' →
      NoForeignID user.id call req db → NoForeignID user.id call req db' →
      respond service cfg resolve call db req = respond service cfg resolve' call db' req) ↔
    refused cfg user call = true ∨ req.staysWith user = true := by
  constructor
  · intro hsa
    by_contra hle
    rw [not_or, Bool.not_eq_true, Bool.not_eq_true] at hle
    obtain ⟨hp, hother⟩ := hle
    cases req with
    | listUserSessions userID =>
      simp only [UserRequest.staysWith, Bool.or_eq_false_iff, decide_eq_false_iff_not] at hother
      obtain ⟨hne, hother⟩ := hother
      obtain ⟨id, hfr⟩ := exists_fresh_id (texts call (.listUserSessions userID))
      -- the other user has a session in one database and none in the other
      let one : Table Session.id := empty.put (bareSession id userID)
      have hro : one.rows = [bareSession id userID] := rfl
      have heq := hsa (twoUsers user userID empty)
        (twoUsers user userID one) (fun _ => .ok user) (fun _ => .ok user) rfl rfl ⟨rfl, rfl, ?_⟩ ?_ ?_
      · rw [respond_listUserSessions hp hne rfl, respond_listUserSessions hp hne rfl] at heq
        have hli := UserResponse.listUserSessions.inj (Except.ok.inj heq)
        have hl := congrArg length hli
        simp [getByUser, activeSessions, twoUsers, hro, empty, bareSession] at hl
      · simp [twoUsers, hro, empty, bareSession, hother]
      · intro session hs
        cases hs
      · intro session hs _ text ht
        have hid : session = bareSession id userID := mem_singleton.mp hs
        rw [hid]
        exact hfr text ht
    | _ => cases hother
  · intro hr db db' resolve resolve' huser hu' h hf hf'
    exact respond_eq_of_staysWith hr huser hu' h hf hf'

def tokenCall : Call :=
  { method := "", metadata := some [("x-session-token", ["own"])], peer := none, user := none
    requestID := "", startTime := none, requestType := none, now := 0, duration := 0, freshID := ""
    operationID := "" }

def ordinaryUser : User :=
  { id := "u", publicKey := [], keyType := .ed25519, publicKeyFingerprint := "", name := "u"
    email := "", status := .active, role := .user, locale := "", createdAt := 0, updatedAt := 0
    lastLoginAt := none }

/-- Two databases that differ in a session of `v`. -/
def secretSession (present : Bool) : AccountDb :=
  twoUsers ordinaryUser "v"
    (if present then empty.put (bareSession "secret" "v") else empty)

/-- The user asks for the sessions of `v`, and is told the token of one. -/
theorem listUserSessions_discloses_token : ordinaryUser.isAdmin = false ∧
    SameForUser "u" (secretSession false) (secretSession true) ∧
    NoForeignID "u" tokenCall (.listUserSessions "v") (secretSession true) ∧
    respond plainService { enabled := true, bootstrapMode := false } (fun _ => .ok ordinaryUser)
        tokenCall (secretSession false) (.listUserSessions "v") = .ok (.listUserSessions []) ∧
    respond plainService { enabled := true, bootstrapMode := false } (fun _ => .ok ordinaryUser)
        tokenCall (secretSession true) (.listUserSessions "v") =
      .ok (.listUserSessions [sessionToProto (bareSession "secret" "v")]) := by
  have hp : refused { enabled := true, bootstrapMode := false } ordinaryUser tokenCall = false := by
    decide +kernel
  have hne : "v" ≠ "" := by decide
  refine ⟨by decide, ⟨rfl, rfl, by decide +kernel⟩, ?_, ?_, ?_⟩
  · unfold NoForeignID
    decide +kernel
  · exact respond_listUserSessions hp hne rfl
  · exact respond_listUserSessions hp hne rfl

end Bib.Grpc
