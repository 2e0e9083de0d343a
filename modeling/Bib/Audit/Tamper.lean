import Bib.Audit.Chain

/-!
# Bib.Audit.Tamper

**What the hash chain protects.** Someone who can write to the database file can put anything the columns can
hold into a row. `StoredRow` is a row as the schema allows it, and `verifyStored` the loop of `VerifyChain` on
such rows. It reads twelve columns, not all of which are hashed (`verifyStored_withUnhashed`), and no secret
goes into the hashes (`verifyStored_forge`).
-/

namespace Bib.Audit

open Bib.Lib Bib.Domain List

/-! ### Rows as the schema allows them -/

/-- A row of `audit_log`, with `NULL` wherever the schema has no `NOT NULL`. -/
structure StoredRow where
  id : Nat
  (timestamp nodeID : String)
  jobID : Option String
  (operationID roleUsed action : String)
  (tableName query queryHash : Option String)
  (rowsAffected durationMS : Option Int)
  (sourceComponent actor metadata prevHash : Option String)
  entryHash : String
  (flagBreakGlass flagRateLimited flagSuspicious flagAlertTriggered : Option Int)
  deriving DecidableEq

def flagColumn (flag : Bool) : Option Int := some (if flag then 1 else 0)

/-- `Scan` into a `bool`: anything but 0 and 1 is an error. -/
def scanFlag : Option Int → Option Bool
  | some 0 => some false
  | some 1 => some true
  | _ => none

@[simp] theorem scanFlag_flagColumn (flag : Bool) : scanFlag (flagColumn flag) = some flag := by
  cases flag <;> rfl

def AuditRow.stored (row : AuditRow) : StoredRow :=
  { id := row.id
    timestamp := row.timestamp
    nodeID := row.nodeID
    jobID := row.jobID
    operationID := row.operationID
    roleUsed := row.roleUsed
    action := row.action
    tableName := row.tableName
    query := row.query
    queryHash := row.queryHash
    rowsAffected := some row.rowsAffected
    durationMS := some row.durationMS
    sourceComponent := some row.sourceComponent
    actor := row.actor
    metadata := some row.metadata
    prevHash := row.prevHash
    entryHash := row.entryHash
    flagBreakGlass := flagColumn row.flags.breakGlass
    flagRateLimited := flagColumn row.flags.rateLimited
    flagSuspicious := flagColumn row.flags.suspicious
    flagAlertTriggered := flagColumn row.flags.alertTriggered }

open AuditRow (stored)

/-- `scanAuditEntry`; a `NULL` where a plain Go type is expected is an error. -/
def scanStored (env : Env) (row : StoredRow) : Option AuditEntry := do
  let sourceComponent ← row.sourceComponent
  let metadata ← row.metadata
  let breakGlass ← scanFlag row.flagBreakGlass
  let rateLimited ← scanFlag row.flagRateLimited
  let suspicious ← scanFlag row.flagSuspicious
  let alertTriggered ← scanFlag row.flagAlertTriggered
  return {
    id := row.id
    timestamp := (env.parseTime row.timestamp).getD zeroTime
    nodeID := row.nodeID
    jobID := row.jobID.getD ""
    operationID := row.operationID
    roleUsed := row.roleUsed
    action := row.action
    tableName := row.tableName.getD ""
    query := row.query.getD ""
    queryHash := row.queryHash.getD ""
    rowsAffected := row.rowsAffected.getD 0
    durationMS := row.durationMS.getD 0
    sourceComponent
    actor := row.actor.getD ""
    metadata
    prevHash := row.prevHash.getD ""
    entryHash := row.entryHash
    flags := { breakGlass, rateLimited, suspicious, alertTriggered } }

def verifyStored (env : Env) (prevHash : String) : List StoredRow → Bool
  | [] => true
  | row :: rows =>
    match scanStored env row with
    | none => false
    | some entry =>
      if entry.prevHash ≠ prevHash then false
      else if entry.entryHash ≠ calculateEntryHash env entry then false
      else verifyStored env entry.entryHash rows

@[simp] theorem scanStored_stored (env : Env) (row : AuditRow) :
    scanStored env row.stored = some (scanAuditEntry env row) := by
  simp [scanStored, stored, scanAuditEntry]

/-- On rows that `Log` has written this is the loop the repository runs. -/
theorem verifyStored_map_stored (env : Env) (start : String) (rows : List AuditRow) :
    verifyStored env start (rows.map stored) =
      HashChain.verify (fun row => (scanAuditEntry env row).prevHash) AuditRow.entryHash
        (rowIntact env) start rows := by
  induction rows generalizing start with
  | nil => rfl
  | cons row rows ih =>
    have hh : (scanAuditEntry env row).entryHash = row.entryHash := rfl
    simp only [map_cons, verifyStored, scanStored_stored, HashChain.verify, rowIntact, hh, ih]
    by_cases h : row.entryHash = calculateEntryHash env (scanAuditEntry env row)
    · simp [h]
    · simp [h]

/-! ### Columns outside of the hash -/

/-- The row with other values in the columns that are not hashed. -/
def StoredRow.withUnhashed (row : StoredRow) (query actor : Option String) (metadata : String)
    (flags : AuditEntryFlags) : StoredRow :=
  { row with
    query, actor
    metadata := some metadata
    flagBreakGlass := flagColumn flags.breakGlass
    flagRateLimited := flagColumn flags.rateLimited
    flagSuspicious := flagColumn flags.suspicious
    flagAlertTriggered := flagColumn flags.alertTriggered }

/-- `VerifyChain` does not see the query, the actor, the metadata and the flags of any row. -/
theorem verifyStored_withUnhashed (env : Env) (query actor : AuditRow → Option String)
    (metadata : AuditRow → String) (flags : AuditRow → AuditEntryFlags) (start : String) (rows : List AuditRow) :
    verifyStored env start (rows.map fun row =>
        row.stored.withUnhashed (query row) (actor row) (metadata row) (flags row)) =
      verifyStored env start (rows.map stored) := by
  induction rows generalizing start with
  | nil => rfl
  | cons row rows ih =>
    have hscan : scanStored env
          (row.stored.withUnhashed (query row) (actor row) (metadata row) (flags row)) =
        some { scanAuditEntry env row with
          query := (query row).getD "", actor := (actor row).getD ""
          metadata := metadata row, flags := flags row } := by
      simp [scanStored, StoredRow.withUnhashed, stored, scanAuditEntry]
    simp only [map_cons, verifyStored, hscan, scanStored_stored, ih]
    rfl

/-! ### Sealing a log again -/

/-- The row with another query, linked to `start` and with the hash that goes with it. -/
def AuditRow.resealed (env : Env) (start : String) (row : AuditRow) : AuditRow :=
  let row : AuditRow :=
    { row with query := if row.query = none then some "" else none, prevHash := some start }
  { row with entryHash := calculateEntryHash env (scanAuditEntry env row) }

theorem rowIntact_resealed (env : Env) (start : String) (row : AuditRow) :
    rowIntact env (row.resealed env start) = true :=
  -- the hash itself is not among the hashed columns
  decide_eq_true rfl

def forge (env : Env) (start : String) : List AuditRow → List AuditRow
  | [] => []
  | row :: rows => row.resealed env start :: forge env (row.resealed env start).entryHash rows

theorem forge_ids (env : Env) (start : String) (rows : List AuditRow) :
    (forge env start rows).map AuditRow.id = rows.map AuditRow.id := by
  induction rows generalizing start with
  | nil => rfl
  | cons row rows ih =>
    simp only [forge, map_cons, ih]
    rfl

theorem verifyStored_forge (env : Env) (start : String) (rows : List AuditRow) :
    verifyStored env start ((forge env start rows).map stored) = true := by
  rw [verifyStored_map_stored]
  induction rows generalizing start with
  | nil => rfl
  | cons row rows ih =>
    have hp : (scanAuditEntry env (row.resealed env start)).prevHash = start := rfl
    simp [forge, HashChain.verify, rowIntact_resealed, hp, ih]

theorem forge_ne (env : Env) (start : String) {rows : List AuditRow} (h : rows ≠ []) :
    (forge env start rows).map stored ≠ rows.map stored := by
  cases rows with
  | nil => exact absurd rfl h
  | cons row rows =>
    intro heq
    have hq : (row.resealed env start).query = row.query := congrArg StoredRow.query (cons.inj heq).1
    cases hrow : row.query <;> simp [AuditRow.resealed, hrow] at hq

/-! ### Tamper evidence -/

structure Entering where
  now : Time
  entry : AuditEntry

def logAll (env : Env) (repo : AuditRepository) (entries : List Entering) : AuditRepository :=
  entries.foldl (fun repo call => (log env call.now call.entry repo).2.2) repo

/-- Whatever is done to the columns, a log that still verifies has not been altered. -/
def TamperEvident (env : Env) (repo : AuditRepository) : Prop :=
  ∀ altered : List StoredRow, altered.map StoredRow.id = repo.table.rows.map AuditRow.id →
    verifyStored env "" altered = true → altered = repo.table.rows.map stored

/-- A log that `Log` has written is tamper-evident only as long as nothing was stored. -/
theorem tamperEvident_iff (env : Env) (appendOnly : Bool) (nodeID : String) (entries : List Entering) :
    TamperEvident env (logAll env (new (.empty appendOnly) nodeID) entries) ↔
      (logAll env (new (.empty appendOnly) nodeID) entries).table.rows = [] := by
  generalize logAll env (new (.empty appendOnly) nodeID) entries = repo
  constructor
  · intro h
    by_contra hne
    have hids : ((forge env "" repo.table.rows).map AuditRow.stored).map StoredRow.id =
        repo.table.rows.map AuditRow.id := by
      rw [map_map]
      exact forge_ids env "" repo.table.rows
    exact forge_ne env "" hne (h _ hids (verifyStored_forge env "" _))
  · intro hr altered hids _
    rw [hr, map_nil, map_eq_nil_iff] at hids
    rw [hids, hr, map_nil]

def loggedOnce : AuditRepository :=
  logAll sampleEnv (new (.empty true) "n") [⟨9, (sampleEntry 1).val⟩]

def rewritten : List StoredRow :=
  loggedOnce.table.rows.map fun row =>
    row.stored.withUnhashed (some "DROP TABLE users") (some "mallory") "null" row.flags

/-- Another query and another actor in the only row of a log, and `VerifyChain` still says yes. -/
theorem rewritten_row_verifies : loggedOnce.table.rows.length = 1 ∧
      rewritten.map StoredRow.id = loggedOnce.table.rows.map AuditRow.id ∧
      rewritten ≠ loggedOnce.table.rows.map AuditRow.stored ∧
      rewritten.map StoredRow.entryHash = loggedOnce.table.rows.map AuditRow.entryHash ∧
      verifyStored sampleEnv "" rewritten = true := by
  decide +kernel

end Bib.Audit
