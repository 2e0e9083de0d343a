import Bib.Grpc.Rbac

/-!
# Bib.Grpc.Server

**The interceptor chains of the gRPC server** (`grpc/server_lifecycle.go` and
`grpc/middleware/interceptors.go`). `NewServer` keeps the RBAC settings it is given, and builds its chains
without them: metrics, recovery, request id, logging, rate limiting and audit. Of these only rate limiting can
refuse a call (`reaches_only_if_permitted_iff`). The token bucket of `golang.org/x/time/rate` is a parameter.
-/

namespace Bib.Grpc

open Bib.Domain Bib.Lib Bib.Audit

/-! ### Configuration and state -/

structure RateLimitConfig where
  enabled : Bool
  requestsPerSecond : Rat
  burst : Int

/-- The part of `config.GRPCConfig` that decides about the interceptors. -/
structure GRPCConfig where
  (enabled metricsEnabled : Bool)
  rateLimit : RateLimitConfig

/-- `ServerConfig`, without transport, health and reflection. -/
structure ServerConfig where
  grpcConfig : GRPCConfig
  /-- The settings of the audit middleware, if there is one. -/
  auditMiddleware : Option AuditConfig
  rbacConfig : RBACConfig
  getUserFromToken : String → Except String User

/-- `Server`; `getUserFunc` is a field of it that is never set. -/
structure Server where
  cfg : GRPCConfig
  auditMiddleware : Option AuditConfig
  rbacConfig : RBACConfig
  getUserFunc : Option (String → Except String User)

/-- `rate.Limiter`: its states, and whether an event may happen at a given time. -/
structure TokenBucket (L : Type) where
  newLimiter : Rat → Int → L
  allow : Time → L → Bool × L

/-- `RateLimiter`, without the rate, which is part of the configuration. -/
structure RateLimiter (L : Type) where
  limiters : KeyMap String L
  lastCleanup : Time

structure Printed where
  shortID : List UInt8
  method : String
  peer : Option String
  code : Option Code
  duration : Option Int
  text : Option String

structure ChainState (L : Type) where
  limiter : RateLimiter L
  printed : List Printed
  headers : List (String × String)
  audit : AuditRepository

/-- The hash, the times and the texts of the audit log, and the token bucket. -/
structure Runtime (L : Type) where
  env : Env
  tools : Tools
  bucket : TokenBucket L

inductive CallKind
  | unary
  | stream

/-! ### The interceptors -/

section Interceptors

variable {L A : Type}

abbrev ServerInterceptor (L A : Type) := Interceptor Call (ChainState L) (Outcome A)

def Outcome.code : Outcome A → Code
  | reply _ => .ok
  | failed err => err.code
  | panicked _ => .unknown

def Outcome.error : Outcome A → Option CallError
  | reply _ => none
  | failed err => some err
  | panicked _ => none

def shortID (id : String) : List UInt8 := id.toUTF8.toList.take 8

/-- `grpcMetrics.UnaryServerInterceptor()` and `grpcMetrics.StreamServerInterceptor()`. -/
def metricsInterceptor : ServerInterceptor L A where
  before call s := (.ok call, s)
  after _ outcome s := (outcome, s)

/-- Recovery from panics. The request id is not in the context yet, since recovery is outside of it. -/
def recoveryInterceptor : ServerInterceptor L A where
  before call s := (.ok call, s)
  after call outcome s :=
    match outcome with
    | .panicked value =>
      (.denied .internal ("internal server error (request_id: " ++ call.requestID ++ ")"),
        { s with
          printed := s.printed ++
            [{ shortID := shortID call.requestID, method := call.method, peer := none, code := none
               duration := none, text := some value }] })
    | outcome => (outcome, s)

def recoveryUnaryInterceptor : ServerInterceptor L A := recoveryInterceptor

def recoveryStreamInterceptor : ServerInterceptor L A := recoveryInterceptor

def extractOrGenerateRequestID (call : Call) : String :=
  match call.metadata with
  | none => call.freshID
  | some md =>
    match md.get "x-request-id" with
    | id :: _ => if id ≠ "" then id else call.freshID
    | [] => call.freshID

/-- The request id goes into the context and the headers of the response. -/
def requestIDInterceptor : ServerInterceptor L A where
  before call s :=
    let requestID := extractOrGenerateRequestID call
    (.ok { call with requestID }, { s with headers := s.headers ++ [("x-request-id", requestID)] })
  after _ outcome s := (outcome, s)

def requestIDUnaryInterceptor : ServerInterceptor L A := requestIDInterceptor

def requestIDStreamInterceptor : ServerInterceptor L A := requestIDInterceptor

def getPeerAddress (call : Call) : String := call.peer.getD "unknown"

/-- One line per call. A panic passes through unlogged. -/
def loggingInterceptor : ServerInterceptor L A where
  before call s := (.ok { call with startTime := some call.now }, s)
  after call outcome s :=
    match outcome with
    | .panicked value => (.panicked value, s)
    | outcome =>
      let requestID := if call.requestID = "" then "unknown" else call.requestID
      (outcome,
        { s with
          printed := s.printed ++
            [{ shortID := shortID requestID, method := call.method
               peer := some (getPeerAddress call), code := some outcome.code
               duration := some call.duration, text := outcome.error.map CallError.text }] })

def loggingUnaryInterceptor : ServerInterceptor L A := loggingInterceptor

def loggingStreamInterceptor : ServerInterceptor L A := loggingInterceptor

def getRateLimitKey (call : Call) : String :=
  match call.user, call.peer with
  | some user, _ => "user:" ++ user.id
  | none, some addr => "ip:" ++ addr
  | none, none => "unknown"

def cleanupAge : Int := 600000000000

def RateLimiter.cleanup (now : Time) (rl : RateLimiter L) : RateLimiter L :=
  { limiters := if rl.limiters.rows.length > 10000 then Table.empty else rl.limiters
    lastCleanup := now }

def RateLimiter.allow (bucket : TokenBucket L) (cfg : RateLimitConfig) (now : Time) (key : String)
    (rl : RateLimiter L) : Bool × RateLimiter L :=
  let rl := if now - rl.lastCleanup > cleanupAge then rl.cleanup now else rl
  let limiter := (rl.limiters.get? key).getD (bucket.newLimiter cfg.requestsPerSecond cfg.burst)
  let (allowed, limiter') := bucket.allow now limiter
  (allowed, { rl with limiters := rl.limiters.set key limiter' })

/-- The only interceptor of the server that refuses calls. -/
def rateLimitInterceptor (bucket : TokenBucket L) (cfg : RateLimitConfig) : ServerInterceptor L A where
  before call s :=
    let (allowed, limiter) := s.limiter.allow bucket cfg call.now (getRateLimitKey call)
    if !allowed then (.error (.denied .resourceExhausted "rate limit exceeded"), { s with limiter })
    else (.ok call, { s with limiter })
  after _ outcome s := (outcome, s)

def rateLimitUnaryInterceptor (bucket : TokenBucket L) (cfg : RateLimitConfig) : ServerInterceptor L A :=
  rateLimitInterceptor bucket cfg

def rateLimitStreamInterceptor (bucket : TokenBucket L) (cfg : RateLimitConfig) : ServerInterceptor L A :=
  rateLimitInterceptor bucket cfg

/-- The common part of the two audit interceptors, which differ in the type of request they note. -/
def auditInterceptor (rt : Runtime L) (cfg : AuditConfig) (requestType : Call → Option String) :
    ServerInterceptor L A where
  before call s := (.ok call, s)
  after call outcome s :=
    match outcome with
    | .panicked value => (.panicked value, s)
    | outcome =>
      let intercepted : Intercepted :=
        { ctx := { user := call.user.map User.id, peer := call.peer }
          method := call.method
          requestType := requestType call
          error := outcome.error
          operationID := call.operationID
          duration := call.duration
          now := call.now + call.duration }
      (outcome,
        { s with
          audit := write rt.env rt.tools cfg s.audit
            (.intercepted (call.now + call.duration) intercepted) })

def auditUnaryInterceptor (rt : Runtime L) (cfg : AuditConfig) : ServerInterceptor L A :=
  auditInterceptor rt cfg Call.requestType

def auditStreamInterceptor (rt : Runtime L) (cfg : AuditConfig) : ServerInterceptor L A :=
  auditInterceptor rt cfg fun _ => none

/-! ### The server -/

/-- `NewServer`, as far as the interceptors go. -/
def newServer (config : ServerConfig) : Except String Server :=
  if !config.grpcConfig.enabled then .error "gRPC server is disabled in configuration"
  else
    .ok
      { cfg := config.grpcConfig
        auditMiddleware := config.auditMiddleware
        rbacConfig := config.rbacConfig
        getUserFunc := none }

def Server.buildUnaryInterceptors (server : Server) (rt : Runtime L) : List (ServerInterceptor L A) :=
  (if server.cfg.metricsEnabled then [metricsInterceptor] else []) ++
  [recoveryUnaryInterceptor, requestIDUnaryInterceptor, loggingUnaryInterceptor] ++
  (if server.cfg.rateLimit.enabled then
    [rateLimitUnaryInterceptor rt.bucket server.cfg.rateLimit] else []) ++
  (server.auditMiddleware.map (auditUnaryInterceptor rt)).toList

def Server.buildStreamInterceptors (server : Server) (rt : Runtime L) : List (ServerInterceptor L A) :=
  (if server.cfg.metricsEnabled then [metricsInterceptor] else []) ++
  [recoveryStreamInterceptor, requestIDStreamInterceptor, loggingStreamInterceptor] ++
  (if server.cfg.rateLimit.enabled then
    [rateLimitStreamInterceptor rt.bucket server.cfg.rateLimit] else []) ++
  (server.auditMiddleware.map (auditStreamInterceptor rt)).toList

/-- The chain for a kind of call. `createLocalServer` builds the same two. -/
def Server.interceptors (server : Server) (rt : Runtime L) : CallKind → List (ServerInterceptor L A)
  | .unary => server.buildUnaryInterceptors rt
  | .stream => server.buildStreamInterceptors rt

def Server.serve (server : Server) (rt : Runtime L) (kind : CallKind)
    (handler : Handler Call (ChainState L) (Outcome A)) (call : Call) (s : ChainState L) : Outcome A × ChainState L :=
  Interceptor.chain (server.interceptors rt kind) handler call s

/-- The call gets through to the service handler. -/
def Server.reaches (A : Type) (server : Server) (rt : Runtime L) (kind : CallKind) (call : Call)
    (s : ChainState L) : Bool :=
  (Interceptor.reach (server.interceptors (A := A) rt kind) call s).isSome

def rateLimited (rt : Runtime L) (cfg : RateLimitConfig) (call : Call) (s : ChainState L) : Bool :=
  cfg.enabled && !(s.limiter.allow rt.bucket cfg call.now (getRateLimitKey call)).1

end Interceptors

/-! ### Who gets through -/

section

variable {L A : Type} {server : Server} {rt : Runtime L}

def CallKind.requestType : CallKind → Call → Option String
  | unary => Call.requestType
  | stream => fun _ => none

theorem interceptors_eq (kind : CallKind) : server.interceptors (A := A) rt kind =
      (if server.cfg.metricsEnabled then [metricsInterceptor] else []) ++
      [recoveryInterceptor, requestIDInterceptor, loggingInterceptor] ++
      (if server.cfg.rateLimit.enabled then
        [rateLimitInterceptor rt.bucket server.cfg.rateLimit] else []) ++
      (server.auditMiddleware.map fun cfg => auditInterceptor rt cfg kind.requestType).toList := by
  cases kind <;> rfl

/-- `serve` calls the handler for the calls that get through, and for no others. -/
theorem serve_eq (kind : CallKind) (call : Call) (s : ChainState L) :
    server.reaches A rt kind call s = true ∧ (∃ call' s', ∃ out : Outcome A × ChainState L → _, ∀ handler,
        server.serve rt kind handler call s = out (handler call' s')) ∨
      server.reaches A rt kind call s = false ∧ ∃ outcome, ∀ handler : Handler Call _ (Outcome A),
        server.serve rt kind handler call s = outcome := by
  unfold Server.reaches
  rcases Interceptor.chain_eq (server.interceptors (A := A) rt kind) call s with ⟨p, hp, ho⟩ | ⟨hn, ho⟩
  · exact .inl ⟨by rw [hp]; rfl, p.1, p.2, ho⟩
  · exact .inr ⟨by rw [hn]; rfl, ho⟩

/-- A call gets through to the handler exactly if it is not over the rate limit. -/
theorem reaches_eq (kind : CallKind) (call : Call) (s : ChainState L) :
    server.reaches A rt kind call s = !rateLimited rt server.cfg.rateLimit call s := by
  have hl : ∀ rest : List (ServerInterceptor L A), (∀ call s, (Interceptor.reach rest call s).isSome) →
      ∀ call s, (Interceptor.reach (rateLimitInterceptor rt.bucket server.cfg.rateLimit :: rest)
        call s).isSome =
        (s.limiter.allow rt.bucket server.cfg.rateLimit call.now (getRateLimitKey call)).1 := by
    intro rest hrest call s
    simp only [Interceptor.reach, rateLimitInterceptor]
    cases (s.limiter.allow rt.bucket server.cfg.rateLimit call.now (getRateLimitKey call)).1 with
    | false => rfl
    | true => exact hrest _ _
  have ha : ∀ call s, (Interceptor.reach (server.auditMiddleware.map fun cfg =>
      auditInterceptor (A := A) rt cfg kind.requestType).toList call s).isSome := by
    intro call s
    cases server.auditMiddleware <;> rfl
  rw [Server.reaches, interceptors_eq, rateLimited]
  cases server.cfg.metricsEnabled <;> cases server.cfg.rateLimit.enabled
  · exact ha _ _
  · rw [Bool.true_and, Bool.not_not]
    exact hl _ ha _ _
  · exact ha _ _
  · rw [Bool.true_and, Bool.not_not]
    exact hl _ ha _ _

/-- "Only permitted calls reach the service handler" holds of the server that is built for the calls
that are permitted or over the rate limit, and for no others. -/
theorem reaches_only_if_permitted_iff (config : ServerConfig) (server : Server)
    (hserver : newServer config = .ok server) (rt : Runtime L) (kind : CallKind) (call : Call)
    (s : ChainState L) : (server.reaches A rt kind call s = true →
        permitted config.rbacConfig config.getUserFromToken call = true) ↔
      permitted config.rbacConfig config.getUserFromToken call = true ∨
        rateLimited rt config.grpcConfig.rateLimit call s = true := by
  have hc : server.cfg = config.grpcConfig := by
    unfold newServer at hserver
    split at hserver
    · cases hserver
    · cases hserver
      rfl
  rw [reaches_eq, hc]
  cases rateLimited rt config.grpcConfig.rateLimit call s <;> simp

end

/-! ### An anonymous shutdown -/

/-- A server with RBAC, without rate limit, metrics and audit. -/
def sampleConfig : ServerConfig :=
  { grpcConfig :=
      { enabled := true, metricsEnabled := false
        rateLimit := { enabled := false, requestsPerSecond := 1, burst := 1 } }
    auditMiddleware := none
    rbacConfig := { enabled := true, bootstrapMode := false }
    getUserFromToken := fun _ => .error "session not found" }

def sampleServer : Server :=
  { cfg := sampleConfig.grpcConfig, auditMiddleware := none, rbacConfig := sampleConfig.rbacConfig
    getUserFunc := none }

def anonymousCall (method : String) : Call :=
  { method, metadata := none, peer := some "10.0.0.9:5000", user := none, requestID := ""
    startTime := none, requestType := none, now := 0, duration := 1, freshID := "f", operationID := "o" }

def sampleRuntime : Runtime Unit :=
  { env := sampleEnv, tools := plainTools
    bucket := { newLimiter := fun _ _ => (), allow := fun _ _ => (true, ()) } }

def freshState : ChainState Unit :=
  { limiter := { limiters := .empty, lastCleanup := 0 }, printed := [], headers := []
    audit := new (.empty true) "n" }

theorem ping_reaches_permitted : newServer sampleConfig = .ok sampleServer ∧
      (sampleServer.reaches Unit sampleRuntime .unary
          (anonymousCall "/bib.v1.services.HealthService/Ping") freshState = true →
        permitted sampleConfig.rbacConfig sampleConfig.getUserFromToken
          (anonymousCall "/bib.v1.services.HealthService/Ping") = true) :=
  ⟨rfl, (reaches_only_if_permitted_iff sampleConfig sampleServer rfl sampleRuntime .unary
    (anonymousCall "/bib.v1.services.HealthService/Ping") freshState).mpr (.inl (by decide +kernel))⟩

/-- With RBAC enabled, a call without a token gets through to the handler that shuts the node down. -/
theorem anonymous_shutdown_reaches :
    newServer sampleConfig = .ok sampleServer ∧ sampleConfig.rbacConfig.enabled = true ∧
      sampleServer.reaches Unit sampleRuntime .unary
        (anonymousCall "/bib.v1.services.AdminService/Shutdown") freshState = true ∧
      permitted sampleConfig.rbacConfig sampleConfig.getUserFromToken
        (anonymousCall "/bib.v1.services.AdminService/Shutdown") = false := by
  refine ⟨rfl, rfl, ?_, by decide +kernel⟩
  rfl

end Bib.Grpc
