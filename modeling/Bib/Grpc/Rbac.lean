import Bib.Domain.User
import Bib.Grpc.AuditMiddleware
import Bib.Lib.Interceptor

/-!
# Bib.Grpc.Rbac

**Role-based access control** (`grpc/middleware/rbac.go`): a table of the methods with what each
requires, and an interceptor that looks a call up in it. Methods that are not in the table are denied.

`permitted` says what the interceptor is for, in terms of the table, the token and the user behind it;
`rbacCheck_isOk_iff` says that the interceptor lets exactly these calls pass.
-/

namespace Bib.Grpc

open Bib.Domain Bib.Lib
open Except (isOk)

/-! ### Calls -/

/-- Incoming metadata, with keys in lower case. -/
abbrev Metadata := List (String × List String)

/-- `md.Get`, for a key in lower case. -/
def Metadata.get (md : Metadata) (key : String) : List String := (md.lookup key).getD []

/-- A call on its way through the interceptors: its method, what its context holds, and the clock and
random values the interceptors read for it. -/
structure Call where
  method : String
  metadata : Option Metadata
  peer : Option String
  user : Option User
  /-- `RequestIDFromContext`; empty if the context has none. -/
  requestID : String
  startTime : Option Time
  requestType : Option String
  now : Time
  duration : Int
  (freshID operationID : String)

inductive Outcome (A : Type)
  | reply (response : A)
  | failed (err : CallError)
  | panicked (value : String)

def Outcome.denied {A : Type} (code : Code) (message : String) : Outcome A :=
  .failed (.status { code, message })

/-! ### Permissions -/

structure MethodPermission where
  requiresAuth : Bool
  /-- `none` for any authenticated user. -/
  requiredRole : Option UserRole
  (allowSelf allowBootstrap : Bool)
  deriving DecidableEq

def noAuth : MethodPermission :=
  { requiresAuth := false, requiredRole := none, allowSelf := false, allowBootstrap := false }

def anyUser : MethodPermission := { noAuth with requiresAuth := true }

def adminOnly : MethodPermission := { anyUser with requiredRole := some .admin }

def ownData : MethodPermission := { anyUser with allowSelf := true }

def ownDataOrBootstrap : MethodPermission := { ownData with allowBootstrap := true }

def methodPermissions : List (String × MethodPermission) :=
  methodsOf "HealthService"
      [("Check", noAuth), ("Watch", noAuth), ("GetStatus", noAuth), ("Ping", noAuth),
      ("GetNodeInfo", noAuth)] ++
    methodsOf "AuthService"
      [("Challenge", noAuth), ("VerifyChallenge", noAuth), ("GetAuthConfig", noAuth),
      ("GetPublicKeyInfo", noAuth), ("Logout", ownData), ("GetSession", ownData),
      ("RefreshSession", ownData), ("ValidateSession", noAuth), ("ListMySessions", ownData),
      ("RevokeAllSessions", ownData)] ++
    methodsOf "UserService"
      [("GetUser", adminOnly), ("GetUserByPublicKey", adminOnly), ("ListUsers", adminOnly),
      ("SearchUsers", adminOnly), ("CreateUser", adminOnly), ("UpdateUser", adminOnly),
      ("DeleteUser", adminOnly), ("SuspendUser", adminOnly), ("ActivateUser", adminOnly),
      ("SetUserRole", adminOnly), ("GetCurrentUser", ownDataOrBootstrap),
      ("UpdateCurrentUser", ownDataOrBootstrap), ("GetUserPreferences", ownData),
      ("UpdateUserPreferences", ownData), ("ListUserSessions", ownData),
      ("EndUserSession", ownData), ("EndAllUserSessions", adminOnly)] ++
    methodsOf "NodeService"
      [("GetNode", anyUser), ("ListNodes", anyUser), ("GetSelfNode", anyUser),
      ("ConnectPeer", adminOnly), ("DisconnectPeer", adminOnly), ("GetNetworkStats", anyUser),
      ("StreamNodeEvents", anyUser), ("GetPeerInfo", anyUser), ("ListConnectedPeers", anyUser),
      ("BanPeer", adminOnly), ("UnbanPeer", adminOnly), ("ListBannedPeers", adminOnly)] ++
    methodsOf "TopicService"
      [("CreateTopic", adminOnly), ("GetTopic", anyUser), ("ListTopics", anyUser),
      ("UpdateTopic", anyUser), ("DeleteTopic", anyUser), ("Subscribe", anyUser),
      ("Unsubscribe", anyUser), ("ListSubscriptions", anyUser), ("GetSubscription", anyUser),
      ("StreamTopicUpdates", anyUser), ("GetTopicStats", anyUser), ("SearchTopics", anyUser)] ++
    methodsOf "DatasetService"
      [("CreateDataset", anyUser), ("GetDataset", anyUser), ("ListDatasets", anyUser),
      ("UpdateDataset", anyUser), ("DeleteDataset", anyUser), ("UploadDataset", anyUser),
      ("DownloadDataset", anyUser), ("GetDatasetVersions", anyUser), ("GetVersion", anyUser),
      ("GetChunk", anyUser), ("VerifyDataset", anyUser), ("SearchDatasets", anyUser),
      ("GetDatasetStats", anyUser), ("CopyDataset", anyUser), ("StreamDatasetEvents", anyUser)] ++
    methodsOf "QueryService"
      [("Execute", anyUser), ("ExecuteStream", anyUser), ("ValidateQuery", anyUser),
      ("ExplainQuery", anyUser), ("ListFunctions", anyUser), ("GetQueryHistory", anyUser),
      ("SaveQuery", anyUser), ("ListSavedQueries", anyUser), ("DeleteSavedQuery", anyUser)] ++
    methodsOf "AdminService"
      [("GetConfig", adminOnly), ("UpdateConfig", adminOnly), ("GetMetrics", adminOnly),
      ("StreamLogs", adminOnly), ("GetAuditLogs", adminOnly), ("TriggerBackup", adminOnly),
      ("ListBackups", adminOnly), ("RestoreBackup", adminOnly), ("DeleteBackup", adminOnly),
      ("GetClusterStatus", adminOnly), ("TriggerSnapshot", adminOnly),
      ("TransferLeadership", adminOnly), ("Shutdown", adminOnly), ("GetSystemInfo", adminOnly),
      ("RunMaintenance", adminOnly)] ++
    methodsOf "JobService"
      [("CreateJob", anyUser), ("GetJob", anyUser), ("ListJobs", anyUser), ("CancelJob", anyUser),
      ("RetryJob", anyUser), ("StreamJobUpdates", anyUser)] ++
    methodsOf "BreakGlassService"
      [("InitiateBreakGlass", adminOnly), ("EndBreakGlass", adminOnly),
      ("GetBreakGlassStatus", adminOnly)]

structure RBACConfig where
  (enabled bootstrapMode : Bool)

/-! ### The interceptor -/

/-- The level of a role in `roleHierarchy`. -/
def roleLevel : UserRole → Option Nat
  | .admin => some 3
  | .user => some 2
  | .readonly => some 1
  | .other _ => none

def hasMinimumRole (userRole requiredRole : UserRole) : Bool :=
  match roleLevel userRole, roleLevel requiredRole with
  | some userLevel, some requiredLevel => userLevel ≥ requiredLevel
  | _, _ => false

/-- `strings.HasPrefix(strings.ToLower(token), "bearer ")`, and the rest of the token. -/
def stripBearer (token : String) : String :=
  let chars := token.toList
  if (chars.take 7).map Char.toLower = "bearer ".toList then String.ofList (chars.drop 7) else token

def extractToken (call : Call) : String :=
  match call.metadata with
  | none => ""
  | some md =>
    match md.get "x-session-token" with
    | token :: _ => token
    | [] =>
      match md.get "authorization" with
      | token :: _ => stripBearer token
      | [] => ""

def extractAndValidateUser (getUserFromToken : String → Except String User) (call : Call) : Except Status User :=
  let token := extractToken call
  if token = "" then .error { code := .unauthenticated, message := "missing authentication token" }
  else
    match getUserFromToken token with
    | .error err => .error { code := .unauthenticated, message := "invalid token: " ++ err }
    | .ok user => .ok user

/-- The body of `RBACInterceptor` up to the handler; `RBACStreamInterceptor` has the same. -/
def rbacCheck (cfg : RBACConfig) (getUserFromToken : String → Except String User) (call : Call) :
    Except Status Call :=
  if !cfg.enabled then .ok call
  else
    match methodPermissions.lookup call.method with
    | none => .error { code := .permissionDenied, message := "unknown method: " ++ call.method }
    | some perm =>
      if !perm.requiresAuth then .ok call
      else if cfg.bootstrapMode && perm.allowBootstrap then .ok call
      else
        match extractAndValidateUser getUserFromToken call with
        | .error err => .error err
        | .ok user =>
          if !user.isActive then
            .error { code := .permissionDenied, message := "user account is not active" }
          else
            match perm.requiredRole with
            | none => .ok { call with user := some user }
            | some role =>
              if !hasMinimumRole user.role role then
                .error
                  { code := .permissionDenied
                    message := "insufficient permissions: requires " ++ role.text ++ " role" }
              else .ok { call with user := some user }

def rbacInterceptor {S A : Type} (cfg : RBACConfig)
    (getUserFromToken : String → Except String User) : Interceptor Call S (Outcome A) where
  before call s :=
    match rbacCheck cfg getUserFromToken call with
    | .error err => (.error (.failed (.status err)), s)
    | .ok call' => (.ok call', s)
  after _ outcome s := (outcome, s)

/-! ### What the interceptor is for -/

/-- The token of the call resolves to an active user with at least the required role. -/
def userSuffices (getUserFromToken : String → Except String User) (requiredRole : Option UserRole)
    (call : Call) : Bool :=
  extractToken call ≠ "" &&
    match getUserFromToken (extractToken call) with
    | .error _ => false
    | .ok user => user.isActive && requiredRole.all fun role => hasMinimumRole user.role role

/-- The table lists the method, and it requires no authentication, or bootstrap access is allowed
for it, or the user behind the token suffices. -/
def permitted (cfg : RBACConfig) (getUserFromToken : String → Except String User) (call : Call) : Bool :=
  match methodPermissions.lookup call.method with
  | none => false
  | some perm =>
    !perm.requiresAuth || (cfg.bootstrapMode && perm.allowBootstrap) ||
      userSuffices getUserFromToken perm.requiredRole call

section

variable {cfg : RBACConfig} {getUserFromToken : String → Except String User}

theorem rbacCheck_isOk_iff (he : cfg.enabled = true) (call : Call) :
    (rbacCheck cfg getUserFromToken call).isOk = permitted cfg getUserFromToken call := by
  unfold rbacCheck permitted
  rw [he]
  cases methodPermissions.lookup call.method with
  | none => rfl
  | some perm =>
    by_cases hau : perm.requiresAuth
    · by_cases hb : (cfg.bootstrapMode && perm.allowBootstrap) = true
      · simp [hau, hb, isOk, Except.toBool]
      · simp only [extractAndValidateUser, userSuffices]
        by_cases ht : extractToken call = ""
        · simp [hau, hb, ht, isOk, Except.toBool]
        · cases hg : getUserFromToken (extractToken call) with
          | error err => simp [hau, hb, ht, isOk, Except.toBool]
          | ok user =>
            by_cases ha : user.isActive
            · cases perm.requiredRole with
              | none => simp [hau, hb, ht, ha, isOk, Except.toBool]
              | some role =>
                cases hrole : hasMinimumRole user.role role <;>
                  simp [hau, hb, ht, ha, hrole, isOk, Except.toBool]
            · simp [hau, hb, ht, ha, isOk, Except.toBool]
    · simp [hau, isOk, Except.toBool]

end

end Bib.Grpc
