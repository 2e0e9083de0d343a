import Bib.Audit.Logger

/-!
# Bib.Grpc.AuditMiddleware

**The audit middleware of the gRPC server** (`grpc/middleware/audit.go`), which writes to the same table as
everybody else. It chains its entries itself and computes the hash of an entry from eight fields. `Log` keeps a
hash that is already there, and `VerifyChain` computes it from twelve fields, so the rows of the middleware are
linked, but do not verify (`verifyChain_mixed_iff`).
-/

namespace Bib.Grpc

open Bib.Lib Bib.Domain Bib.Audit

/-! ### Status codes -/

inductive Code
  | ok
  | canceled
  | unknown
  | invalidArgument
  | deadlineExceeded
  | notFound
  | alreadyExists
  | permissionDenied
  | resourceExhausted
  | failedPrecondition
  | aborted
  | outOfRange
  | unimplemented
  | internal
  | unavailable
  | dataLoss
  | unauthenticated
  deriving DecidableEq

def Code.name : Code → String
  | ok => "OK"
  | canceled => "Canceled"
  | unknown => "Unknown"
  | invalidArgument => "InvalidArgument"
  | deadlineExceeded => "DeadlineExceeded"
  | notFound => "NotFound"
  | alreadyExists => "AlreadyExists"
  | permissionDenied => "PermissionDenied"
  | resourceExhausted => "ResourceExhausted"
  | failedPrecondition => "FailedPrecondition"
  | aborted => "Aborted"
  | outOfRange => "OutOfRange"
  | unimplemented => "Unimplemented"
  | internal => "Internal"
  | unavailable => "Unavailable"
  | dataLoss => "DataLoss"
  | unauthenticated => "Unauthenticated"

structure Status where
  code : Code
  message : String

def Status.text (status : Status) : String :=
  "rpc error: code = " ++ status.code.name ++ " desc = " ++ status.message

inductive CallError
  | status (status : Status)
  | plain (text : String)

def CallError.text : CallError → String
  | status s => s.text
  | plain text => text

def CallError.code : CallError → Code
  | status s => s.code
  | plain _ => .unknown

/-! ### The middleware -/

structure AuditConfig where
  (enabled logFailedOperations : Bool)
  nodeID : String

/-- Methods of a service under their full names. -/
def methodsOf {A : Type} (service : String) (methods : List (String × A)) : List (String × A) :=
  methods.map fun method => ("/bib.v1.services." ++ service ++ "/" ++ method.1, method.2)

def mutationMethods : List (String × String) :=
  methodsOf "UserService"
      [("CreateUser", "CREATE"), ("UpdateUser", "UPDATE"), ("DeleteUser", "DELETE"),
      ("SuspendUser", "UPDATE"), ("ActivateUser", "UPDATE"), ("SetUserRole", "UPDATE"),
      ("UpdateCurrentUser", "UPDATE"), ("UpdateUserPreferences", "UPDATE"),
      ("EndUserSession", "DELETE"), ("EndAllUserSessions", "DELETE")] ++
    methodsOf "NodeService"
      [("ConnectPeer", "CREATE"), ("DisconnectPeer", "DELETE"), ("BanPeer", "CREATE"),
      ("UnbanPeer", "DELETE")] ++
    methodsOf "TopicService"
      [("CreateTopic", "CREATE"), ("UpdateTopic", "UPDATE"), ("DeleteTopic", "DELETE"),
      ("Subscribe", "CREATE"), ("Unsubscribe", "DELETE")] ++
    methodsOf "DatasetService"
      [("CreateDataset", "CREATE"), ("UpdateDataset", "UPDATE"), ("DeleteDataset", "DELETE"),
      ("UploadDataset", "CREATE")] ++
    methodsOf "AdminService"
      [("UpdateConfig", "UPDATE"), ("TriggerBackup", "CREATE"), ("Shutdown", "DDL")] ++
    methodsOf "JobService"
      [("CreateJob", "CREATE"), ("CancelJob", "UPDATE"), ("RetryJob", "UPDATE")] ++
    methodsOf "AuthService"
      [("Logout", "DELETE")] ++
    methodsOf "BreakGlassService"
      [("InitiateBreakGlass", "DDL"), ("EndBreakGlass", "DDL")]

/-- `strings.TrimSuffix`, on characters. -/
def trimSuffix (text ending : List Char) : List Char :=
  if ending.isSuffixOf text then text.take (text.length - ending.length) else text

/-- `extractResourceFromMethod`; both branches for the method name return the same. -/
def extractResourceFromMethod (method : String) : String :=
  match method.toList.splitOn '/' with
  | _ :: servicePart :: _ :: _ =>
    let service := (servicePart.splitOn '.').getLastD []
    String.ofList ((trimSuffix service "Service".toList).map Char.toLower)
  | _ => "unknown"

structure CallContext where
  (user peer : Option String)

def CallContext.actor (ctx : CallContext) : String := ctx.user.getD "anonymous"

def CallContext.clientIP (ctx : CallContext) : String := ctx.peer.getD ""

/-- The eight fields `calculateEntryHash` of the middleware hashes, from the first separator on. -/
def middlewareFields (entry : AuditEntry) : String :=
  "|" ++ entry.nodeID ++ "|" ++ entry.operationID ++ "|" ++ entry.action ++ "|" ++ entry.tableName
    ++ "|" ++ entry.actor ++ "|" ++ entry.prevHash ++ "|" ++ toString entry.durationMS

def middlewareHash (env : Env) (entry : AuditEntry) : String :=
  env.sha256Hex (env.formatTime entry.timestamp ++ middlewareFields entry)

structure MiddlewareEntry where
  timestamp : Time
  (operationID action tableName query queryHash : String)
  durationMS : Int
  (actor metadata : String)
  suspicious : Bool

/-- The entry the middleware passes to `Log`, with the hash of the last row and its own hash. -/
def MiddlewareEntry.complete (env : Env) (cfg : AuditConfig) (lastHash : String) (e : MiddlewareEntry) : AuditEntry :=
  let entry : AuditEntry :=
    { id := 0
      timestamp := e.timestamp
      nodeID := cfg.nodeID
      jobID := ""
      operationID := e.operationID
      roleUsed := "grpc"
      action := e.action
      tableName := e.tableName
      query := e.query
      queryHash := e.queryHash
      rowsAffected := 1
      durationMS := e.durationMS
      sourceComponent := "grpc"
      actor := e.actor
      metadata := e.metadata
      prevHash := lastHash
      entryHash := ""
      flags :=
        { breakGlass := false, rateLimited := false, suspicious := e.suspicious, alertTriggered := false } }
  { entry with entryHash := middlewareHash env entry }

/-- A call of `LogServiceAction`; the values of the details are JSON texts. -/
structure ServiceAction where
  ctx : CallContext
  (action resourceType resourceID : String)
  details : List (String × String)
  operationID : String
  now : Time

def ServiceAction.entry (env : Env) (tools : Tools) (call : ServiceAction) : MiddlewareEntry :=
  -- the details overwrite the keys set before
  let metadata := [("resource_id", tools.quote call.resourceID), ("client_ip", tools.quote call.ctx.clientIP)]
  let kept := metadata.filter fun pair => !call.details.any fun detail => detail.1 = pair.1
  { timestamp := call.now
    operationID := call.operationID
    action := call.action
    tableName := call.resourceType
    query := call.action ++ " " ++ call.resourceType
    queryHash := env.sha256Hex (call.action ++ call.resourceType)
    durationMS := 0
    actor := call.ctx.actor
    metadata := tools.marshalMap (kept ++ call.details)
    suspicious := false }

/-- A call that passes the interceptor, with the outcome of its handler. -/
structure Intercepted where
  ctx : CallContext
  method : String
  /-- The full name of the request message; streams have none. -/
  requestType : Option String
  error : Option CallError
  operationID : String
  duration : Int
  now : Time

def Intercepted.entry (env : Env) (tools : Tools) (action : String) (call : Intercepted) : MiddlewareEntry :=
  { timestamp := call.now
    operationID := call.operationID
    action
    tableName := extractResourceFromMethod call.method
    query := call.method
    queryHash := env.sha256Hex call.method
    durationMS := call.duration.tdiv 1000000
    actor := call.ctx.actor
    metadata := tools.marshalMap
      ([("method", tools.quote call.method), ("client_ip", tools.quote call.ctx.clientIP)]
        ++ (call.requestType.map fun name => ("request_type", tools.quote name)).toList
        ++ (call.error.map fun err =>
            [("error", tools.quote err.text), ("error_code", tools.quote err.code.name)]).getD [])
    suspicious := call.error.any fun err => err.code = .unauthenticated || err.code = .permissionDenied }

/-! ### Several writers -/

/-- What is written, and at what time `Log` is called. -/
inductive Writing
  | direct (now : Time) (entry : FreshEntry)
  | serviceAction (now : Time) (call : ServiceAction)
  | intercepted (now : Time) (call : Intercepted)

def Writing.middleware (env : Env) (tools : Tools) (cfg : AuditConfig) : Writing → Option (Time × MiddlewareEntry)
  | .direct _ _ => none
  | .serviceAction now call => if !cfg.enabled then none else some (now, call.entry env tools)
  | .intercepted now call =>
    if !cfg.enabled then none
    else
      match mutationMethods.lookup call.method with
      | none => none
      | some action =>
        if call.error.isNone || cfg.logFailedOperations then some (now, call.entry env tools action)
        else none

/-- The repository after something was written; errors of `Log` are dropped. -/
def write (env : Env) (tools : Tools) (cfg : AuditConfig) (repo : AuditRepository) (w : Writing) : AuditRepository :=
  match w with
  | .direct now entry => (log env now entry repo).2.2
  | w =>
    match w.middleware env tools cfg with
    | none => repo
    | some (now, e) => (log env now (e.complete env cfg (getLastHash repo)) repo).2.2

/-- The text the middleware hashes is the text `VerifyChain` is going to hash for the stored row. -/
def textsAgree (env : Env) (now : Time) (entry : AuditEntry) (repo : AuditRepository) : Bool :=
  let row := insertedRow env (prepare env now entry repo)
  env.formatTime entry.timestamp ++ middlewareFields entry =
    env.formatTime ((env.parseTime row.timestamp).getD zeroTime) ++
      hashedFields (prepare env now entry repo)

/-- The condition on what is written: a direct entry that is going to be stored has a time that reads
back, and an entry of the middleware is refused by the table, or the two texts agree. -/
def writeOk (env : Env) (tools : Tools) (cfg : AuditConfig) (repo : AuditRepository) (w : Writing) : Bool :=
  match w with
  | .direct now entry =>
    !decide (Insertable (insertedRow env (prepare env now entry repo)) repo.table) ||
      readable env (env.formatTime (prepare env now entry repo).timestamp)
  | w =>
    match w.middleware env tools cfg with
    | none => true
    | some (now, e) =>
      let entry := e.complete env cfg (getLastHash repo)
      !decide (Insertable (insertedRow env (prepare env now entry repo)) repo.table) ||
        textsAgree env now entry repo

/-! ### When the log verifies -/

def Verifies (env : Env) (repo : AuditRepository) : Prop :=
  HashChain.verify (fun row => (scanAuditEntry env row).prevHash) AuditRow.entryHash (rowIntact env) ""
    repo.table.rows = true

/-- The repository chains its entries and knows the hash of the last row. -/
structure ChainHead (repo : AuditRepository) : Prop where
  hashChain : repo.hashChain = true
  last : repo.lastHash = getLastHash repo

variable {env : Env} {tools : Tools} {cfg : AuditConfig} {repo : AuditRepository}

/-- Whatever is passed to `Log`, a row that is stored becomes the last one. -/
theorem chainHead_log (h : ChainHead repo) (now : Time) (entry : AuditEntry) :
    ChainHead (log env now entry repo).2.2 := by
  rcases log_appends env now entry h.hashChain with ⟨-, hs⟩ | ⟨-, hr, -, hlast, hc⟩
  · rw [hs]
    exact h
  · refine ⟨hc, ?_⟩
    rw [hlast, getLastHash_eq_tip, hr, HashChain.tip_concat]
    rfl

theorem chainHead_write (h : ChainHead repo) (w : Writing) : ChainHead (write env tools cfg repo w) := by
  cases w with
  | direct now entry => exact chainHead_log h now entry
  | _ =>
    simp only [write]
    split
    · exact h
    · exact chainHead_log h _ _

/-- A row that is stored has to be linked to the last row and to have the hash of its columns. -/
theorem verifies_log_iff (h : ChainHead repo) (now : Time) (entry : AuditEntry) :
    Verifies env (log env now entry repo).2.2 ↔ Verifies env repo ∧
      (Insertable (insertedRow env (prepare env now entry repo)) repo.table →
        (prepare env now entry repo).prevHash = getLastHash repo ∧
          rowIntact env (insertedRow env (prepare env now entry repo)) = true) := by
  rcases log_appends env now entry h.hashChain with ⟨hn, hs⟩ | ⟨hi, hr, -, -, -⟩
  · simp [hs, hn]
  · have hp : ∀ id, (scanAuditEntry env
        { insertedRow env (prepare env now entry repo) with id := id }).prevHash =
          (prepare env now entry repo).prevHash := fun id => by simp [scanAuditEntry, insertedRow]
    have hid : ∀ id, rowIntact env { insertedRow env (prepare env now entry repo) with id := id } =
        rowIntact env (insertedRow env (prepare env now entry repo)) := fun _ => rfl
    simp only [Verifies, HashChain.verify_eq_true_iff, hr, HashChain.linked_concat,
      List.forall_mem_append, List.forall_mem_singleton, hp, hid, getLastHash_eq_tip, hi]
    tauto

theorem verifies_direct_iff (hs : Function.Injective env.sha256Hex) {repo : AuditRepository}
    (h : ChainHead repo) (now : Time) (entry : FreshEntry) :
    Verifies env (write env tools cfg repo (.direct now entry)) ↔
      Verifies env repo ∧ writeOk env tools cfg repo (.direct now entry) = true := by
  have hp : (prepare env now entry repo).prevHash = getLastHash repo :=
    (prepare_fresh now entry h.hashChain).1.trans h.last
  have hi : rowIntact env (insertedRow env (prepare env now entry repo)) = true ↔
      readable env (env.formatTime (prepare env now entry repo).timestamp) = true :=
    (newRow_written env now entry h.hashChain).rowIntact_iff hs
  simp only [write, verifies_log_iff h, hp, hi, writeOk, Bool.or_eq_true, Bool.not_eq_true',
    decide_eq_false_iff_not, true_and]
  tauto

theorem prepare_of_hash {now : Time} {entry : AuditEntry}
    (h : entry.entryHash ≠ "") : prepare env now entry repo = withDefaults now entry repo := by
  have hh : (withDefaults now entry repo).entryHash ≠ "" := by
    rw [withDefaults_entryHash]
    exact h
  simp [prepare, hh]

theorem withDefaults_prevHash (now : Time) (entry : AuditEntry) (repo : AuditRepository) :
    (withDefaults now entry repo).prevHash = entry.prevHash := by
  unfold withDefaults
  dsimp only
  split <;> split <;> rfl

section

variable (hs : Function.Injective env.sha256Hex) {repo : AuditRepository}
include hs

/-- An entry with the hash of the middleware verifies exactly if the two texts agree. -/
theorem rowIntact_middleware_iff {now : Time} {entry : AuditEntry}
    (h : entry.entryHash = middlewareHash env entry) :
    rowIntact env (insertedRow env (prepare env now entry repo)) = true ↔
      textsAgree env now entry repo = true := by
  have hne : entry.entryHash ≠ "" := by
    rw [h]
    exact env.sha256Hex_ne _
  have hh : (prepare env now entry repo).entryHash = middlewareHash env entry := by
    rw [prepare_of_hash hne, withDefaults_entryHash, h]
  have hf : hashedFields (scanAuditEntry env (insertedRow env (prepare env now entry repo))) =
      hashedFields (prepare env now entry repo) := hashedFields_scan env _ 0
  have hsc : (scanAuditEntry env (insertedRow env (prepare env now entry repo))).entryHash =
      (prepare env now entry repo).entryHash := rfl
  simp only [rowIntact, textsAgree, decide_eq_true_eq, hsc, hh, middlewareHash, calculateEntryHash,
    hf, hs.eq_iff]
  rfl

theorem verifies_middleware_iff (h : ChainHead repo) (now : Time) (e : MiddlewareEntry) :
    Verifies env (log env now (e.complete env cfg (getLastHash repo)) repo).2.2 ↔ Verifies env repo ∧
      (!decide (Insertable (insertedRow env
          (prepare env now (e.complete env cfg (getLastHash repo)) repo)) repo.table) ||
        textsAgree env now (e.complete env cfg (getLastHash repo)) repo) = true := by
  have hh : (e.complete env cfg (getLastHash repo)).entryHash =
      middlewareHash env (e.complete env cfg (getLastHash repo)) := rfl
  have hne : (e.complete env cfg (getLastHash repo)).entryHash ≠ "" := by
    exact env.sha256Hex_ne _
  have hp : (prepare env now (e.complete env cfg (getLastHash repo)) repo).prevHash =
      getLastHash repo := by
    rw [prepare_of_hash hne, withDefaults_prevHash]
    rfl
  simp only [verifies_log_iff h, hp, rowIntact_middleware_iff hs hh, Bool.or_eq_true,
    Bool.not_eq_true', decide_eq_false_iff_not, true_and]
  tauto

theorem verifies_write_iff (h : ChainHead repo) (w : Writing) : Verifies env (write env tools cfg repo w) ↔
      Verifies env repo ∧ writeOk env tools cfg repo w = true := by
  cases w with
  | direct now entry => exact verifies_direct_iff hs h now entry
  | serviceAction now call =>
    simp only [write, writeOk]
    cases (Writing.serviceAction now call).middleware env tools cfg with
    | none => simp
    | some e => exact verifies_middleware_iff hs h e.1 e.2
  | intercepted now call =>
    simp only [write, writeOk]
    cases (Writing.intercepted now call).middleware env tools cfg with
    | none => simp
    | some e => exact verifies_middleware_iff hs h e.1 e.2

end

/-- The log of several writers verifies exactly when no row of the middleware was stored, apart from
rows for which the two texts agree, and the times of the other rows read back. -/
theorem verifyChain_mixed_iff (env : Env) (hsha : Function.Injective env.sha256Hex) (tools : Tools)
    (cfg : AuditConfig) (appendOnly : Bool) (nodeID : String) (writings : List Writing) :
    verifyChain env 1 (writings.foldl (write env tools cfg) (new (.empty appendOnly) nodeID)).table.seq
        (writings.foldl (write env tools cfg) (new (.empty appendOnly) nodeID)) = true ↔
      Run.AllSteps (write env tools cfg) (fun repo w => writeOk env tools cfg repo w = true)
        (new (.empty appendOnly) nodeID) writings := by
  have hs : ChainHead (new (.empty appendOnly) nodeID) := ⟨rfl, rfl⟩
  have hv : Verifies env (new (.empty appendOnly) nodeID) := rfl
  have hi : Verifies env (writings.foldl (write env tools cfg) (new (.empty appendOnly) nodeID)) ↔
      Verifies env (new (.empty appendOnly) nodeID) ∧
        Run.AllSteps (write env tools cfg) (fun repo w => writeOk env tools cfg repo w = true)
          (new (.empty appendOnly) nodeID) writings :=
    Run.good_iff_allSteps ChainHead (Verifies env) (fun _ => True) (fun _ w _ h => chainHead_write h w)
      (fun _ w _ h => verifies_write_iff hsha h w) hs fun _ _ => trivial
  rw [verifyChain, rowsBetween_all]
  exact hi.trans (and_iff_right hv)

def refusedWriting : List Writing :=
  [.direct 9 (sampleEntry 1),
    .serviceAction 2
      { ctx := ⟨none, none⟩, action := "CREATE", resourceType := "topic", resourceID := "id"
        details := [], operationID := "op", now := 2 }]

def defaultAuditConfig : AuditConfig := { enabled := true, logFailedOperations := true, nodeID := "" }

theorem verifyChain_mixed_iff_refused :
    verifyChain sampleEnv 1 (refusedWriting.foldl (write sampleEnv plainTools defaultAuditConfig)
          (new (.empty true) "n")).table.seq
        (refusedWriting.foldl (write sampleEnv plainTools defaultAuditConfig) (new (.empty true) "n")) =
          true ∧ (refusedWriting.foldl (write sampleEnv plainTools defaultAuditConfig)
        (new (.empty true) "n")).table.rows.length = 1 := by
  refine ⟨(verifyChain_mixed_iff sampleEnv sampleEnv_injective plainTools defaultAuditConfig true "n"
    refusedWriting).mpr ?_, ?_⟩
  · decide +kernel
  · decide +kernel

/-- A direct entry, and a topic that is updated through the server. -/
def updatedTopic : List Writing :=
  [.direct 9 (sampleEntry 1),
    .intercepted 2
      { ctx := ⟨some "alice", none⟩, method := "/bib.v1.services.TopicService/UpdateTopic"
        requestType := none, error := none, operationID := "op", duration := 3000000, now := 2 }]

/-- One update through the server, and the log no longer verifies. -/
theorem updatedTopic_breaks_chain :
    (updatedTopic.foldl (write sampleEnv plainTools defaultAuditConfig)
        (new (.empty true) "n")).table.rows.map AuditRow.tableName = [none, some "topic"] ∧
      verifyChain sampleEnv 1 (updatedTopic.foldl (write sampleEnv plainTools defaultAuditConfig)
          (new (.empty true) "n")).table.seq
        (updatedTopic.foldl (write sampleEnv plainTools defaultAuditConfig) (new (.empty true) "n")) =
          false := by
  decide +kernel

end Bib.Grpc
