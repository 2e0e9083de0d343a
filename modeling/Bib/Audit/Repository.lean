import Bib.Domain.Chunk
import Bib.Lib.HashChain

/-!
# Bib.Audit.Repository

**The SQLite audit log** (`sqlite/audit.go`, `sqlite/store.go` and the third migration): an append-only table
whose rows form a hash chain, and the repository that writes it. The head of the chain is in the field
`lastHash` of the repository, not in the table. SHA-256 and the text of times are parameters.
-/

namespace Bib.Audit

open Bib.Lib Bib.Domain List

structure Env where
  sha256Hex : String → String
  sha256Hex_ne : ∀ text, sha256Hex text ≠ ""
  /-- `t.UTC().Format(time.RFC3339Nano)`. -/
  formatTime : Time → String
  /-- `time.Parse(time.RFC3339Nano, text)`. -/
  parseTime : String → Option Time

structure AuditEntryFlags where
  (breakGlass rateLimited suspicious alertTriggered : Bool)

structure AuditEntry where
  id : Nat
  timestamp : Time
  (nodeID jobID operationID roleUsed action tableName query queryHash : String)
  (rowsAffected durationMS : Int)
  (sourceComponent actor : String)
  /-- The JSON text of the metadata. -/
  metadata : String
  (prevHash entryHash : String)
  flags : AuditEntryFlags

/-- The text `calculateEntryHash` hashes, from the first separator on. -/
def hashedFields (entry : AuditEntry) : String :=
  "|" ++ entry.nodeID ++ "|" ++ entry.operationID ++ "|" ++ entry.roleUsed ++ "|" ++ entry.action
    ++ "|" ++ entry.tableName ++ "|" ++ entry.sourceComponent ++ "|" ++ toString entry.rowsAffected
    ++ "|" ++ toString entry.durationMS ++ "|" ++ entry.prevHash ++ "|" ++ entry.jobID
    ++ "|" ++ entry.queryHash

def calculateEntryHash (env : Env) (entry : AuditEntry) : String :=
  env.sha256Hex (env.formatTime entry.timestamp ++ hashedFields entry)

/-! ### The table -/

structure AuditRow where
  id : Nat
  (timestamp nodeID : String)
  jobID : Option String
  (operationID roleUsed action : String)
  (tableName query queryHash : Option String)
  (rowsAffected durationMS : Int)
  sourceComponent : String
  actor : Option String
  metadata : String
  prevHash : Option String
  entryHash : String
  flags : AuditEntryFlags

def auditActions : List String := ["SELECT", "INSERT", "UPDATE", "DELETE", "DDL", "AUTH", "ADMIN"]

structure AuditRow.Checked (row : AuditRow) : Prop where
  action : row.action ∈ auditActions
  rowsAffected : 0 ≤ row.rowsAffected
  durationMS : 0 ≤ row.durationMS

instance (row : AuditRow) : Decidable row.Checked :=
  decidable_of_iff (row.action ∈ auditActions ∧ 0 ≤ row.rowsAffected ∧ 0 ≤ row.durationMS)
    ⟨fun h => ⟨h.1, h.2.1, h.2.2⟩, fun h => ⟨h.action, h.rowsAffected, h.durationMS⟩⟩

/-- `audit_log`, with its rows in the order of their ids. -/
structure AuditTable where
  /-- The triggers against updates and deletions are installed. -/
  appendOnly : Bool
  rows : List AuditRow
  /-- The largest id ever used, which `AUTOINCREMENT` keeps. -/
  seq : Nat
  ascending : rows.Pairwise fun row row' => row.id < row'.id
  ids : ∀ row ∈ rows, 0 < row.id ∧ row.id ≤ seq
  unique : (rows.map AuditRow.entryHash).Nodup
  checked : ∀ row ∈ rows, row.Checked

def AuditTable.empty (appendOnly : Bool) : AuditTable :=
  { appendOnly, rows := [], seq := 0, ascending := .nil
    ids := fun _ h => absurd h not_mem_nil
    unique := .nil
    checked := fun _ h => absurd h not_mem_nil }

structure Insertable (row : AuditRow) (table : AuditTable) : Prop where
  checked : row.Checked
  unique : ∀ old ∈ table.rows, old.entryHash ≠ row.entryHash

instance (row : AuditRow) (table : AuditTable) : Decidable (Insertable row table) :=
  decidable_of_iff (row.Checked ∧ ∀ old ∈ table.rows, old.entryHash ≠ row.entryHash)
    ⟨fun h => ⟨h.1, h.2⟩, fun h => ⟨h.checked, h.unique⟩⟩

def AuditTable.insert (table : AuditTable) (row : AuditRow) (h : Insertable row table) : AuditTable :=
  { table with
    rows := table.rows ++ [{ row with id := table.seq + 1 }]
    seq := table.seq + 1
    ascending := by
      rw [pairwise_append]
      refine ⟨table.ascending, pairwise_singleton _ _, fun old hold new hnew => ?_⟩
      rw [mem_singleton.mp hnew]
      exact Nat.lt_succ_of_le (table.ids old hold).2
    ids := by
      intro r hr
      rcases mem_append.mp hr with hold | hnew
      · exact ⟨(table.ids r hold).1, Nat.le_succ_of_le (table.ids r hold).2⟩
      · rw [mem_singleton.mp hnew]
        exact ⟨Nat.succ_pos _, Nat.le_refl _⟩
    unique := by
      rw [map_append, nodup_append]
      refine ⟨table.unique, nodup_singleton _, fun hash hold hash' hnew => ?_⟩
      obtain ⟨old, hmem, rfl⟩ := mem_map.mp hold
      rw [mem_singleton.mp hnew]
      exact h.unique old hmem
    checked := by
      intro r hr
      rcases mem_append.mp hr with hold | hnew
      · exact table.checked r hold
      · rw [mem_singleton.mp hnew]
        exact ⟨h.checked.action, h.checked.rowsAffected, h.checked.durationMS⟩ }

/-- Dropping the rows a condition holds for. -/
def AuditTable.deleteWhere (table : AuditTable) (doomed : AuditRow → Bool) : AuditTable :=
  { table with
    rows := table.rows.filter fun row => !doomed row
    ascending := table.ascending.sublist filter_sublist
    ids := fun row hrow => table.ids row (mem_filter.mp hrow).1
    unique := table.unique.sublist (filter_sublist.map _)
    checked := fun row hrow => table.checked row (mem_filter.mp hrow).1 }

/-! ### Columns -/

def nullStr (s : String) : Option String := if s = "" then none else some s

@[simp] theorem nullStr_getD (s : String) : (nullStr s).getD "" = s := by
  unfold nullStr
  split
  next h => simp [h]
  next => rfl

/-- The values `Log` inserts; the id is chosen by the table. -/
def insertedRow (env : Env) (entry : AuditEntry) : AuditRow :=
  { id := 0
    timestamp := env.formatTime entry.timestamp
    nodeID := entry.nodeID
    jobID := nullStr entry.jobID
    operationID := entry.operationID
    roleUsed := entry.roleUsed
    action := entry.action
    tableName := nullStr entry.tableName
    query := nullStr entry.query
    queryHash := nullStr entry.queryHash
    rowsAffected := entry.rowsAffected
    durationMS := entry.durationMS
    sourceComponent := entry.sourceComponent
    actor := nullStr entry.actor
    metadata := entry.metadata
    prevHash := nullStr entry.prevHash
    entryHash := entry.entryHash
    flags := entry.flags }

/-- `scanAuditEntry`; a time that cannot be parsed is left zero. -/
def scanAuditEntry (env : Env) (row : AuditRow) : AuditEntry :=
  { id := row.id
    timestamp := (env.parseTime row.timestamp).getD zeroTime
    nodeID := row.nodeID
    jobID := row.jobID.getD ""
    operationID := row.operationID
    roleUsed := row.roleUsed
    action := row.action
    tableName := row.tableName.getD ""
    query := row.query.getD ""
    queryHash := row.queryHash.getD ""
    rowsAffected := row.rowsAffected
    durationMS := row.durationMS
    sourceComponent := row.sourceComponent
    actor := row.actor.getD ""
    metadata := row.metadata
    prevHash := row.prevHash.getD ""
    entryHash := row.entryHash
    flags := row.flags }

/-! ### The repository -/

/-- `AuditRepository`, with the table it works on. -/
structure AuditRepository where
  table : AuditTable
  nodeID : String
  hashChain : Bool
  lastHash : String

/-- The audit repository `New` creates on an existing database. -/
def new (table : AuditTable) (nodeID : String) : AuditRepository :=
  { table, nodeID, hashChain := true, lastHash := "" }

inductive AuditError
  /-- A constraint of the table failed. -/
  | constraint
  /-- The trigger against deletions fired. -/
  | appendOnly

def AuditError.message : AuditError → String
  | constraint => "failed to log audit entry: constraint failed"
  | appendOnly => "failed to purge audit log: Audit log is append-only. Deletions are not permitted."

/-- The first part of `Log`: the defaults of an entry. -/
def withDefaults (now : Time) (entry : AuditEntry) (repo : AuditRepository) : AuditEntry :=
  let entry := if entry.timestamp = zeroTime then { entry with timestamp := now } else entry
  if entry.nodeID = "" then { entry with nodeID := repo.nodeID } else entry

def prepare (env : Env) (now : Time) (entry : AuditEntry) (repo : AuditRepository) : AuditEntry :=
  let entry := withDefaults now entry repo
  if repo.hashChain && entry.entryHash = "" then
    let entry := { entry with prevHash := repo.lastHash }
    { entry with entryHash := calculateEntryHash env entry }
  else entry

/-- `Log`: the entry is completed in any case, the repository only changes on success. -/
def log (env : Env) (now : Time) (entry : AuditEntry) (repo : AuditRepository) :
    Except AuditError Unit × AuditEntry × AuditRepository :=
  let entry := prepare env now entry repo
  if h : Insertable (insertedRow env entry) repo.table then
    let table := repo.table.insert (insertedRow env entry) h
    (.ok (), { entry with id := table.seq },
      { repo with table, lastHash := if repo.hashChain then entry.entryHash else repo.lastHash })
  else (.error .constraint, entry, repo)

/-- `Purge`: the number of deleted rows. -/
def purge (env : Env) (before : Time) (repo : AuditRepository) : Except AuditError Int × AuditRepository :=
  let doomed := fun row : AuditRow => decide (row.timestamp < env.formatTime before)
  if repo.table.appendOnly && repo.table.rows.any doomed then (.error .appendOnly, repo)
  else (.ok (repo.table.rows.countP doomed), { repo with table := repo.table.deleteWhere doomed })

def rowsBetween (lo hi : Int) (table : AuditTable) : List AuditRow :=
  table.rows.filter fun row => lo ≤ row.id && row.id ≤ hi

def rowIntact (env : Env) (row : AuditRow) : Bool :=
  (scanAuditEntry env row).entryHash = calculateEntryHash env (scanAuditEntry env row)

def verifyChain (env : Env) (lo hi : Int) (repo : AuditRepository) : Bool :=
  HashChain.verify (fun row => (scanAuditEntry env row).prevHash) AuditRow.entryHash (rowIntact env) ""
    (rowsBetween lo hi repo.table)

def getLastHash (repo : AuditRepository) : String :=
  match repo.table.rows.getLast? with
  | none => ""
  | some row => row.entryHash

end Bib.Audit
