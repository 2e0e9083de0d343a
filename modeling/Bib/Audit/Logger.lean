import Bib.Audit.Chain
import Mathlib.Data.List.Chain

/-!
# Bib.Audit.Logger

**The audit logger under concurrency** (`audit/logger.go`, `audit/types.go` and `LogQuery` of
`audit/middleware.go`). A call of `Log` or `LogEntry` gets its place in the hash chain inside the mutex, and its
row outside of it. So a call is two steps, and `waiting` holds the calls between them, the oldest first.

Rows and waiting calls together always form a chain; the rows alone do as long as calls persist in the order of
the mutex (`stored_rows_linear`). What is built on regular expressions and JSON is a parameter.
-/

namespace Bib.Audit

open Bib.Lib Bib.Domain List

/-! ### Entries -/

/-- What the logger calls to build an entry. -/
structure Tools where
  /-- `strings.ToUpper(strings.TrimSpace(query))`. -/
  normalize : String → String
  (extractTableName redactQueryText : String → String)
  /-- `redactArgs`, on the arguments as JSON texts. -/
  redactArgs : String → List String → List String
  hashQuery : String → String
  /-- `RedactMetadata`, on the JSON text. -/
  redactMetadata : String → String
  marshalMap : List (String × String) → String
  marshalArray : List String → String
  quote : String → String

def parseAction (tools : Tools) (query : String) : String :=
  let normalized := tools.normalize query
  if normalized.startsWith "SELECT" then "SELECT"
  else if normalized.startsWith "INSERT" then "INSERT"
  else if normalized.startsWith "UPDATE" then "UPDATE"
  else if normalized.startsWith "DELETE" then "DELETE"
  else if normalized.startsWith "CREATE" || normalized.startsWith "ALTER"
      || normalized.startsWith "DROP" || normalized.startsWith "TRUNCATE" then "DDL"
  else "OTHER"

/-- `CalculateHash`: the same text as in the repository. -/
def calculateHash (env : Env) (entry : AuditEntry) : String :=
  env.sha256Hex (env.formatTime entry.timestamp ++ hashedFields entry)

def setHashChain (env : Env) (prevHash : String) (entry : AuditEntry) : AuditEntry :=
  let entry := { entry with prevHash := prevHash }
  { entry with entryHash := calculateHash env entry }

/-- `QueryInfo`; the arguments are JSON texts. -/
structure QueryInfo where
  query : String
  args : List String
  startTime : Time
  (duration rowsAffected : Int)
  error : Option String

/-! ### The logger -/

/-- `Config`, as far as the chain depends on it. -/
structure LoggerConfig where
  (enabled hashChain : Bool)

/-- `Logger`, without its exporters. -/
structure Logger where
  config : LoggerConfig
  nodeID : String
  hashChain : Bool
  lastHash : String
  closed : Bool
  entryCount : Nat

def lastRowHash (rows : List AuditEntry) : String :=
  match rows.getLast? with
  | none => ""
  | some row => row.entryHash

/-- `NewLogger` on a repository with the given rows. -/
def newLogger (cfg : LoggerConfig) (nodeID : String) (rows : List AuditEntry) : Logger :=
  if !cfg.enabled then
    { config := { enabled := false, hashChain := false }, nodeID := "", hashChain := false
      lastHash := "", closed := true, entryCount := 0 }
  else
    { config := cfg, nodeID, hashChain := cfg.hashChain
      lastHash := if cfg.hashChain then lastRowHash rows else ""
      closed := false, entryCount := 0 }

def Logger.active (logger : Logger) : Bool := !logger.closed && logger.config.enabled

/-- The arguments of `Log`, with what the rate limiter and the alert detector say about the
entry. -/
structure LogCall where
  operationID : String
  info : QueryInfo
  (role source actor : String)
  /-- The reason, if the rate limiter refuses the entry. -/
  rateLimited : Option String
  /-- The alerts, as JSON texts. -/
  alerts : List String

/-- The metadata `createEntry` and `Log` collect. -/
def LogCall.metadata (tools : Tools) (call : LogCall) : List (String × String) :=
  let args := tools.redactArgs call.info.query call.info.args
  (if args = [] then [] else [("args", tools.marshalArray args)])
    ++ (call.info.error.map fun text => ("error", tools.quote text)).toList
    ++ (call.rateLimited.map fun text => ("rate_limit_reason", tools.quote text)).toList
    ++ (if call.alerts = [] then [] else [("alerts", tools.marshalArray call.alerts)])

/-- `createEntry`, and the flags `Log` sets before it takes the lock. -/
def createEntry (tools : Tools) (call : LogCall) (logger : Logger) : AuditEntry :=
  { id := 0
    timestamp := call.info.startTime
    nodeID := logger.nodeID
    jobID := ""
    operationID := call.operationID
    roleUsed := call.role
    action := parseAction tools call.info.query
    tableName := tools.extractTableName call.info.query
    query := tools.redactQueryText call.info.query
    queryHash := tools.hashQuery call.info.query
    rowsAffected := call.info.rowsAffected
    durationMS := call.info.duration.tdiv 1000000
    sourceComponent := call.source
    actor := call.actor
    metadata := tools.marshalMap (call.metadata tools)
    prevHash := ""
    entryHash := ""
    flags :=
      { breakGlass := false
        rateLimited := call.rateLimited.isSome
        suspicious := call.alerts ≠ []
        alertTriggered := call.alerts ≠ [] } }

/-- `LogQuery` of the pool middleware: the call of `Log` its goroutine makes. -/
def logQuery (now : Time) (operationID query : String) (args : List String) (startTime : Time)
    (rowsAffected : Int) (error : Option String) (role source actor : String)
    (rateLimited : Option String) (alerts : List String) : LogCall :=
  { operationID
    info := { query, args, startTime, duration := now - startTime, rowsAffected, error }
    role, source, actor, rateLimited, alerts }

structure EntryCall where
  now : Time
  operationID : String
  entry : AuditEntry

/-- The first part of `LogEntry`; a `nil` map is the text `null`. -/
def fillIn (tools : Tools) (call : EntryCall) (logger : Logger) : AuditEntry :=
  let entry := call.entry
  let entry := if entry.timestamp = zeroTime then { entry with timestamp := call.now } else entry
  let entry := if entry.nodeID = "" then { entry with nodeID := logger.nodeID } else entry
  let entry := if entry.operationID = "" then { entry with operationID := call.operationID } else entry
  if entry.metadata ≠ "null" then { entry with metadata := tools.redactMetadata entry.metadata }
  else entry

/-- The critical section of both. -/
def assignHash (env : Env) (entry : AuditEntry) (logger : Logger) : AuditEntry × Logger :=
  if logger.hashChain then
    let entry := setHashChain env logger.lastHash entry
    (entry, { logger with lastHash := entry.entryHash, entryCount := logger.entryCount + 1 })
  else
    ({ entry with entryHash := calculateHash env entry },
      { logger with entryCount := logger.entryCount + 1 })

/-! ### Interleavings -/

/-- The logger, the calls that have their hash but not their row, and the rows in the order of their
ids. -/
structure LogState where
  logger : Logger
  (waiting rows : List AuditEntry)

inductive LogEvent
  | log (call : LogCall)
  | logEntry (call : EntryCall)
  /-- The `n`-th of the waiting calls persists its entry. -/
  | persist (n : Nat)

def LogState.start (cfg : LoggerConfig) (nodeID : String) (rows : List AuditEntry) : LogState :=
  { logger := newLogger cfg nodeID rows, waiting := [], rows }

/-- A call gets its hash and goes on to the repository. -/
def LogState.assign (env : Env) (entry : AuditEntry) (s : LogState) : LogState :=
  if s.logger.active then
    { s with
      logger := (assignHash env entry s.logger).2
      waiting := s.waiting ++ [(assignHash env entry s.logger).1] }
  else s

def LogState.step (env : Env) (tools : Tools) (s : LogState) : LogEvent → LogState
  | .log call => s.assign env (createEntry tools call s.logger)
  | .logEntry call => s.assign env (fillIn tools call s.logger)
  | .persist n =>
    match s.waiting[n]? with
    | none => s
    | some entry => { s with waiting := s.waiting.eraseIdx n, rows := s.rows ++ [entry] }

open LogState (start step)

/-- Each row's previous hash is the hash of the row before it. -/
def Linear (rows : List AuditEntry) : Prop :=
  rows.IsChain fun row row' => row'.prevHash = row.entryHash

instance (rows : List AuditEntry) : Decidable (Linear rows) :=
  inferInstanceAs (Decidable (List.IsChain _ _))

/-- The condition on a step: an active logger keeps the chain, and a call persists only if it has
been waiting the longest. -/
def LogState.stepOk (s : LogState) : LogEvent → Bool
  | .log _ | .logEntry _ => s.logger.hashChain || !s.logger.active
  | .persist n => n = 0 || s.waiting.length ≤ n

/-- Rows and waiting calls form one chain, and the logger knows its end. -/
structure LogState.Chained (s : LogState) : Prop where
  linear : Linear (s.rows ++ s.waiting)
  last : s.logger.hashChain = true →
    ∀ entry ∈ (s.rows ++ s.waiting).getLast?, entry.entryHash = s.logger.lastHash

variable {env : Env} {tools : Tools}

theorem chained_start (cfg : LoggerConfig) (nodeID : String) {rows : List AuditEntry}
    (hr : Linear rows) : (start cfg nodeID rows).Chained := by
  refine ⟨by simpa [start] using hr, fun hch entry hen => ?_⟩
  have hlast : rows.getLast? = some entry := by simpa [start] using hen
  cases he : cfg.enabled with
  | false => simp [start, newLogger, he] at hch
  | true =>
    have hc : cfg.hashChain = true := by
      simpa [start, newLogger, he] using hch
    simp [start, newLogger, he, hc, lastRowHash, hlast]

variable {s : LogState}

/-- A call that passes the mutex of a chaining logger extends the chain. -/
theorem chained_assign (h : s.Chained) (entry : AuditEntry)
    (hok : (s.logger.hashChain || !s.logger.active) = true) : (s.assign env entry).Chained := by
  unfold LogState.assign
  split
  next ha =>
    have hc : s.logger.hashChain = true := by simpa [ha] using hok
    have has : assignHash env entry s.logger = (setHashChain env s.logger.lastHash entry,
          { s.logger with
            lastHash := (setHashChain env s.logger.lastHash entry).entryHash
            entryCount := s.logger.entryCount + 1 }) := by
      simp [assignHash, hc]
    have hp : (setHashChain env s.logger.lastHash entry).prevHash = s.logger.lastHash := rfl
    simp only [has]
    refine ⟨?_, fun _ last hlast => ?_⟩
    · show Linear (s.rows ++ (s.waiting ++ [_]))
      rw [Linear, ← append_assoc, isChain_append]
      refine ⟨h.linear, isChain_singleton _, fun last hlast next hn => ?_⟩
      obtain rfl : setHashChain env s.logger.lastHash entry = next := by simpa using hn
      rw [hp, h.last hc last hlast]
    · obtain rfl : setHashChain env s.logger.lastHash entry = last := by
        simpa [← append_assoc] using hlast
      rfl
  next => exact h

theorem chained_persist (h : s.Chained) (n : Nat)
    (hok : s.stepOk (.persist n) = true) : (s.step env tools (.persist n)).Chained := by
  simp only [LogState.stepOk, Bool.or_eq_true, decide_eq_true_eq] at hok
  rcases hok with rfl | hle
  · cases hw : s.waiting with
    | nil => simpa [step, hw] using h
    | cons entry rest =>
      -- the list the invariant is about stays the same
      have hs : s.rows ++ [entry] ++ rest = s.rows ++ s.waiting := by simp [hw]
      simp only [step, hw, getElem?_cons_zero, eraseIdx_cons_zero]
      refine ⟨?_, fun hc => ?_⟩
      · rw [hs]
        exact h.linear
      · rw [hs]
        exact h.last hc
  · simpa [step, getElem?_eq_none hle] using h

theorem chained_step (h : s.Chained) (event : LogEvent)
    (hok : s.stepOk event = true) : (s.step env tools event).Chained := by
  cases event with
  | persist n => exact chained_persist h n hok
  | _ => exact chained_assign h _ hok

/-- If every call persists in its turn, the stored rows form a chain in every state of the run. -/
theorem stored_rows_linear (env : Env) (tools : Tools) (cfg : LoggerConfig) (nodeID : String)
    (rows : List AuditEntry) (hrows : Linear rows) (events : List LogEvent)
    (hok : Run.AllSteps (LogState.step env tools) (fun s event => s.stepOk event = true)
      (LogState.start cfg nodeID rows) events) (n : Nat) :
    Linear ((events.take n).foldl (LogState.step env tools) (LogState.start cfg nodeID rows)).rows :=
  (isChain_append.mp (Run.invariant_of_allSteps LogState.Chained
    (fun _ event h hstep => chained_step h event hstep) (chained_start cfg nodeID hrows)
    hok n).linear).1

def plainTools : Tools :=
  { normalize := id, extractTableName := fun _ => "", redactQueryText := id
    redactArgs := fun _ args => args, hashQuery := id, redactMetadata := id
    marshalMap := fun _ => "", marshalArray := fun _ => "", quote := id }

def poolCall (operationID : String) : LogCall :=
  logQuery 7 operationID "SELECT 1" [] 5 1 none "bibd_query" "pool" "user" none []

def inTurn : List LogEvent := [.log (poolCall "a"), .log (poolCall "b"), .persist 0, .persist 0]

theorem stored_rows_linear_inTurn :
    Linear ((inTurn.take 4).foldl (LogState.step sampleEnv plainTools)
        (LogState.start ⟨true, true⟩ "n" [])).rows ∧
      ((inTurn.take 4).foldl (LogState.step sampleEnv plainTools)
        (LogState.start ⟨true, true⟩ "n" [])).rows.length = 2 := by
  refine ⟨stored_rows_linear sampleEnv plainTools ⟨true, true⟩ "n" [] ?_ inTurn ?_ 4, ?_⟩
  · exact isChain_nil
  · decide +kernel
  · decide +kernel

def overtaking : List LogEvent := [.log (poolCall "a"), .log (poolCall "b"), .persist 1, .persist 0]

/-- Two calls of one logger on an empty repository, and the stored rows are no chain. -/
theorem overtaking_breaks_chain : (overtaking.foldl (LogState.step sampleEnv plainTools)
        (LogState.start ⟨true, true⟩ "n" [])).rows.length = 2 ∧
      ¬ Linear (overtaking.foldl (LogState.step sampleEnv plainTools)
        (LogState.start ⟨true, true⟩ "n" [])).rows := by
  decide +kernel

/-! ### Calls that cannot persist -/

/-- A call of `Log` or `LogEntry` from its start to its end, and whether `repository.Log` stores the entry. -/
structure Attempt where
  call : LogCall ⊕ EntryCall
  stored : Bool

/-- The call passes the mutex; then its entry is stored or lost. -/
def LogState.attempt (env : Env) (tools : Tools) (s : LogState) (attempt : Attempt) : LogState :=
  let passed := s.step env tools (attempt.call.elim .log .logEntry)
  if attempt.stored then passed.step env tools (.persist 0) else { passed with waiting := [] }

/-- An entry that is stored finds the hash of the last row in the logger. -/
def LogState.attemptOk (s : LogState) (attempt : Attempt) : Prop :=
  attempt.stored = true → s.logger.active = true →
    ∀ row ∈ s.rows.getLast?, row.entryHash = s.logger.lastHash

instance (s : LogState) (attempt : Attempt) : Decidable (s.attemptOk attempt) :=
  inferInstanceAs (Decidable (_ → _ → _))

/-- No call is under way, and the logger chains what it logs. -/
def LogState.Idle (s : LogState) : Prop := s.waiting = [] ∧ (s.logger.active = true → s.logger.hashChain = true)

/-- What a call adds to the rows, and that it leaves none under way. -/
theorem attempt_eq (h : s.Idle) (attempt : Attempt) : (s.attempt env tools attempt).Idle ∧
    ((attempt.stored = true ∧ s.logger.active = true ∧ ∃ row : AuditEntry, row.prevHash = s.logger.lastHash ∧
        (s.attempt env tools attempt).rows = s.rows ++ [row]) ∨
      ¬ (attempt.stored = true ∧ s.logger.active = true) ∧ (s.attempt env tools attempt).rows = s.rows) := by
  obtain ⟨hw, hch⟩ := h
  obtain ⟨entry, he⟩ : ∃ entry, s.step env tools (attempt.call.elim .log .logEntry) = s.assign env entry := by
    cases attempt.call <;> exact ⟨_, rfl⟩
  simp only [LogState.attempt, he, LogState.assign]
  cases ha : s.logger.active with
  | false => cases attempt.stored <;> simp [LogState.Idle, step, hw, ha]
  | true =>
    have hc := hch ha
    cases attempt.stored with
    | false => simp [LogState.Idle, assignHash, hc]
    | true => simp [LogState.Idle, step, assignHash, hc, hw, setHashChain]

theorem linear_attempt_iff (h : s.Idle) (hl : Linear s.rows) (attempt : Attempt) :
    Linear (s.attempt env tools attempt).rows ↔ s.attemptOk attempt := by
  rcases (attempt_eq h attempt).2 with ⟨hs, ha, row, hp, hr⟩ | ⟨hn, hr⟩
  · rw [hr, Linear, isChain_append]
    simp only [Linear] at hl
    simp [LogState.attemptOk, hl, hs, ha, hp, eq_comm]
  · rw [hr]
    exact iff_of_true hl fun hs ha => absurd ⟨hs, ha⟩ hn

theorem chained_attempt (h : s.Idle ∧ s.Chained) {attempt : Attempt} (hs : attempt.stored = true) :
    (s.attempt env tools attempt).Idle ∧ (s.attempt env tools attempt).Chained := by
  refine ⟨(attempt_eq h.1 attempt).1, ?_⟩
  have hpass : s.stepOk (attempt.call.elim .log .logEntry) = true := by
    cases ha : s.logger.active with
    | false => cases attempt.call <;> simp [LogState.stepOk, ha]
    | true => cases attempt.call <;> simp [LogState.stepOk, h.1.2 ha]
  simp only [LogState.attempt, hs, if_true]
  exact chained_persist (chained_step h.2 _ hpass) 0 rfl

/-- The condition holds in every run in which no call that fails comes before one that is stored. -/
theorem attemptOk_of_stored_first (h : s.Idle ∧ s.Chained) {stored lost : List Attempt}
    (hs : ∀ attempt ∈ stored, attempt.stored = true) (hl : ∀ attempt ∈ lost, attempt.stored = false) :
    Run.AllSteps (LogState.attempt env tools) LogState.attemptOk s (stored ++ lost) := by
  induction stored generalizing s with
  | nil =>
    rw [nil_append]
    refine Run.allSteps_of_forall_split fun before attempt after hsplit hstored => ?_
    rw [hl attempt (hsplit ▸ mem_append_right before mem_cons_self)] at hstored
    cases hstored
  | cons attempt stored ih =>
    obtain ⟨hattempt, hrest⟩ := forall_mem_cons.mp hs
    refine ⟨fun _ hactive row hrow => ?_, ih (chained_attempt h hattempt) hrest⟩
    exact h.2.last (h.1.2 hactive) row (by rwa [h.1.1, append_nil])

/-- A call that fails leaves the hash of the lost entry behind, and the next entry is linked to it. -/
theorem lastHash_of_lost (h : s.Idle) (ha : s.logger.active = true) {attempt : Attempt}
    (hl : attempt.stored = false) : ∃ entry : AuditEntry, entry.prevHash = s.logger.lastHash ∧
      (s.attempt env tools attempt).logger.lastHash = calculateHash env entry := by
  have hc := h.2 ha
  cases hcall : attempt.call with
  | inl call =>
    refine ⟨{ createEntry tools call s.logger with prevHash := s.logger.lastHash }, rfl, ?_⟩
    simp [LogState.attempt, hl, hcall, step, LogState.assign, ha, assignHash, hc, setHashChain]
  | inr call =>
    refine ⟨{ fillIn tools call s.logger with prevHash := s.logger.lastHash }, rfl, ?_⟩
    simp [LogState.attempt, hl, hcall, step, LogState.assign, ha, assignHash, hc, setHashChain]

/-- **With calls that fail to persist, the rows stay a chain exactly if each entry that is stored finds the
hash of the last row in the logger.** A call that fails leaves the hash of an entry there that has no row. -/
theorem persist_failures_linear_iff (env : Env) (tools : Tools) (enabled : Bool) (nodeID : String)
    (rows : List AuditEntry) (hrows : Linear rows) (attempts : List Attempt) :
    (∀ done, done <+: attempts → Linear (done.foldl (LogState.attempt env tools)
        (LogState.start ⟨enabled, true⟩ nodeID rows)).rows) ↔
      Run.AllSteps (LogState.attempt env tools) LogState.attemptOk
        (LogState.start ⟨enabled, true⟩ nodeID rows) attempts := by
  refine Run.forall_prefix_iff_allSteps LogState.Idle (fun s => Linear s.rows)
    (fun _ attempt h => (attempt_eq h attempt).1) (fun _ attempt h hl => linear_attempt_iff h hl attempt)
    ⟨rfl, ?_⟩ hrows
  cases enabled with
  | false => exact fun h => nomatch h
  | true => exact fun _ => rfl

theorem persist_failures_linear_iff_none : Linear
    ([⟨.inl (poolCall "a"), true⟩, ⟨.inl (poolCall "b"), true⟩].foldl (LogState.attempt sampleEnv plainTools)
      (LogState.start ⟨true, true⟩ "n" [])).rows :=
  (persist_failures_linear_iff sampleEnv plainTools true "n" [] isChain_nil _).mpr (by decide +kernel) _
    prefix_rfl

/-- The second of three calls cannot persist, and the third row does not follow on the first. -/
theorem failed_persist_breaks_chain : ¬ Linear
    ([⟨.inl (poolCall "a"), true⟩, ⟨.inl (poolCall "b"), false⟩, ⟨.inl (poolCall "c"), true⟩].foldl
      (LogState.attempt sampleEnv plainTools) (LogState.start ⟨true, true⟩ "n" [])).rows := by
  decide +kernel

end Bib.Audit
