import Bib.Domain.Chunk

/-!
# Bib.Cluster.Storage

**The replicated tables of a cluster node** (`internal/cluster/storage.go`): join tokens, catalog, jobs and
configuration, with the upsert rules of the SQL statements and the getters. Columns that no statement reads are
left out; `created_at` only orders rows of equal priority, so results are compared up to order. A nil slice is
`none` where the difference to an empty one is visible.
-/

namespace Bib.Cluster

open Bib.Lib Bib.Domain

/-! ### Rows -/

structure JoinToken where
  (clusterName leaderAddr token : String)
  expiresAt : Time

structure JoinTokenRow where
  toJoinToken : JoinToken
  used : Bool

/-- `ReplicatedCatalogEntry`; also a row of `replicated_catalog`. -/
structure ReplicatedCatalogEntry where
  (topicID datasetID hash : String)
  (size chunkCount : Int)
  ownerPeerID : String
  updatedAt : Time
  deriving DecidableEq

/-- `ReplicatedJob`. `metadata` is `none` for a nil `json.RawMessage`, which the
database stores as `NULL`; the struct is also a row of `replicated_jobs`. -/
structure ReplicatedJob where
  (jobID jobType assignedNode status : String)
  priority : Int
  celExpression : String
  metadata : Option Bytes
  deriving DecidableEq

def ReplicatedCatalogEntry.pair (entry : ReplicatedCatalogEntry) : String × String :=
  (entry.topicID, entry.datasetID)

structure Storage where
  joinTokens : Table fun row : JoinTokenRow => row.toJoinToken.token
  catalog : Table ReplicatedCatalogEntry.pair
  jobs : Table ReplicatedJob.jobID
  config : KeyMap String Bytes

def Storage.fresh : Storage :=
  { joinTokens := .empty, catalog := .empty, jobs := .empty, config := .empty }

/-- What the driver does with a statement that violates no constraint. -/
inductive Io
  | ok
  | fails (message : String)

inductive StorageError
  | io (message : String)
  /-- `UNIQUE constraint failed`. -/
  | unique (column : String)
  /-- `NOT NULL constraint failed`. -/
  | notNull (column : String)
  /-- `Scan` of a `NULL` into a `json.RawMessage`. -/
  | scan (column : String)
  | invalidToken
  | tokenUsed
  | tokenExpired
  deriving DecidableEq

def StorageError.message : StorageError → String
  | io message => message
  | unique column => s!"UNIQUE constraint failed: {column}"
  | notNull column => s!"NOT NULL constraint failed: {column}"
  | scan column => s!"sql: Scan error on column {column}"
  | invalidToken => "invalid join token"
  | tokenUsed => "join token already used"
  | tokenExpired => "join token expired"

/-- Running a statement whose effect is `s`. -/
def Io.run (io : Io) (s : Storage) : Except StorageError Storage :=
  match io with
  | .ok => .ok s
  | .fails message => .error (.io message)

/-! ### Join tokens -/

/-- `StoreJoinToken`: a plain `INSERT`. -/
def storeJoinToken (io : Io) (token : JoinToken) (s : Storage) : Except StorageError Storage :=
  match s.joinTokens.find? token.token with
  | some _ => .error (.unique "join_tokens.token")
  | none => io.run { s with joinTokens := s.joinTokens.put { toJoinToken := token, used := false } }

/-- `ValidateJoinToken`: accept an unused, unexpired token and mark it used. -/
def validateJoinToken (io : Io) (now : Time) (token : String) (s : Storage) :
    Except StorageError (JoinToken × Storage) :=
  match s.joinTokens.find? token with
  | none => .error .invalidToken
  | some row =>
    if row.used then .error .tokenUsed
    else if row.toJoinToken.expiresAt < now then .error .tokenExpired
    else (io.run { s with joinTokens := s.joinTokens.put { row with used := true } }).map
      fun s' => (row.toJoinToken, s')

/-- `ValidateJoinToken` would accept the token. -/
def Accepts (now : Time) (s : Storage) (token : String) : Prop :=
  ∃ result, validateJoinToken .ok now token s = .ok result

theorem accepts_iff {now : Time} {s : Storage} {token : String} :
    Accepts now s token ↔ ∃ row, s.joinTokens.find? token = some row ∧ row.used = false ∧
      now ≤ row.toJoinToken.expiresAt := by
  unfold Accepts validateJoinToken
  cases s.joinTokens.find? token with
  | none => simp
  | some row =>
    by_cases hu : row.used = true
    · simp [hu]
    · by_cases he : row.toJoinToken.expiresAt < now
      · simp [hu, he]
      · have hle : now ≤ row.toJoinToken.expiresAt := Int.not_lt.mp he
        simp [hu, he, hle, Io.run, Except.map]

/-! ### Catalog -/

/-- `StoreCatalogEntry`: an upsert that takes every column from the new entry. -/
def storeCatalogEntry (io : Io) (entry : ReplicatedCatalogEntry) (s : Storage) : Except StorageError Storage :=
  io.run { s with catalog := s.catalog.put entry }

def getCatalogEntries (s : Storage) : List ReplicatedCatalogEntry := s.catalog.rows

/-! ### Jobs -/

/-- The row an upsert of `job` leaves: on a conflict `job_type` and `cel_expression` are
not in the `DO UPDATE SET` list and keep their old values. -/
def upsertedJob (existing : Option ReplicatedJob) (job : ReplicatedJob) : ReplicatedJob :=
  match existing with
  | none => job
  | some old => { job with jobType := old.jobType, celExpression := old.celExpression }

@[simp] theorem upsertedJob_jobID (existing : Option ReplicatedJob) (job : ReplicatedJob) :
    (upsertedJob existing job).jobID = job.jobID := by
  cases existing <;> rfl

def storeJob (io : Io) (job : ReplicatedJob) (s : Storage) : Except StorageError Storage :=
  io.run { s with jobs := s.jobs.put (upsertedJob (s.jobs.find? job.jobID) job) }

/-- The `WHERE` clause of `GetUnassignedJobs`. -/
def ReplicatedJob.unassigned (job : ReplicatedJob) : Bool :=
  job.status = "pending" && job.assignedNode = ""

/-- Scanning one row: a `NULL` does not fit into `json.RawMessage`. -/
def scanJob (row : ReplicatedJob) : Except StorageError ReplicatedJob :=
  match row.metadata with
  | none => .error (.scan "metadata")
  | some _ => .ok row

/-- `GetUnassignedJobs`, up to the order of the rows. -/
def getUnassignedJobs (s : Storage) : Except StorageError (List ReplicatedJob) :=
  (s.jobs.rows.filter ReplicatedJob.unassigned).mapM scanJob

/-! ### Configuration -/

/-- `StoreConfig`: the `value` column is `NOT NULL`. -/
def storeConfig (io : Io) (key : String) (value : Option Bytes) (s : Storage) : Except StorageError Storage :=
  match value with
  | none => .error (.notNull "replicated_config.value")
  | some value => io.run { s with config := s.config.set key value }

/-- `GetConfig`. A missing row reads as the nil slice, which has the content of an empty
one. -/
def getConfig (key : String) (s : Storage) : Bytes := (s.config.get? key).getD []

end Bib.Cluster
