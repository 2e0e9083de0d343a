import Bib.Lib.Table
import Bib.Lib.Wal
import Mathlib.Data.List.Sort

/-!
# Bib.Backup.Sqlite

**Backups of a SQLite database** (`internal/storage/backup/manager.go`). The store runs the database with a
write-ahead log. `backupSQLite` copies the main file, and `restoreSQLite` copies it back over the main file,
which it has emptied before; neither looks at the log (`restore_round_trip_iff`). A copy may stop after any
number of pages. `cleanupOldBackups` deletes backups by their age and by their number (`cleanup_exact`).
-/

namespace Bib.Backup

open Bib.Lib Bib.Lib.Wal KeyMap

/-! ### Files and backups -/

inductive BackendType
  | postgres
  | sqlite
  deriving DecidableEq

/-- `BackupMetadata`: the fields that are read. -/
structure BackupMetadata where
  id : String
  timestamp : Int
  backend : BackendType
  (path integrityHash : String)
  deriving DecidableEq

/-- The database, the backup files by their paths, and the metadata files by the ids of the backups. -/
structure Disk (P : Type) where
  db : Db P
  files : KeyMap String (List P)
  metadata : KeyMap String BackupMetadata

/-- `io.Copy`: what arrives, and the error. -/
def copyFile {P : Type} (src : List P) : Option (Nat × String) → List P × Option String
  | none => (src, none)
  | some (n, err) => (src.take n, some err)

/-- What `Backup` meets: the id and the path made from the clock, and the errors of its steps. -/
structure BackupEnv where
  id : String
  now : Int
  path : String
  (openError createError : Option String)
  copyError : Option (Nat × String)
  (infoError verifyError metadataError : Option String)

structure RestoreEnv where
  (metadataError verifyError : Option String)
  dbExists : Bool
  (openError createError : Option String)
  copyError : Option (Nat × String)
  pgRestore : Except String Unit

structure RestoreOptions where
  backupID : String
  (verifyBefore force : Bool)

section

variable {P : Type} (hash : List P → String)

def verifyBackup (ioError : Option String) (metadata : BackupMetadata) (disk : Disk P) : Except String Unit :=
  match disk.files.get? metadata.path with
  | none => .error "backup file not found"
  | some file =>
    match ioError with
    | some err => .error ("failed to calculate hash: " ++ err)
    | none =>
      if hash file ≠ metadata.integrityHash then .error "integrity check failed: hash mismatch"
      else .ok ()

def backupSQLite (dbPath : String) (env : BackupEnv) (disk : Disk P) : Except String BackupMetadata × Disk P :=
  if dbPath = "" then (.error "SQLite database path not set", disk)
  else
    match env.openError, env.createError with
    | some err, _ => (.error ("failed to open source database: " ++ err), disk)
    | none, some err => (.error ("failed to create backup file: " ++ err), disk)
    | none, none =>
      let copied := copyFile disk.db.main env.copyError
      let disk := { disk with files := disk.files.set env.path copied.1 }
      match copied.2, env.infoError with
      | some err, _ => (.error ("failed to copy database: " ++ err), disk)
      | none, some err => (.error ("failed to calculate file info: " ++ err), disk)
      | none, none =>
        (.ok { id := env.id, timestamp := env.now, backend := .sqlite, path := env.path
               integrityHash := hash copied.1 }, disk)

/-- `Backup` on a SQLite database, up to the deletion of old backups. -/
def backup (verifyAfterBackup : Bool) (dbPath : String) (env : BackupEnv) (disk : Disk P) :
    Except String BackupMetadata × Disk P :=
  match backupSQLite hash dbPath env disk with
  | (.error err, disk) => (.error ("backup failed: " ++ err), disk)
  | (.ok metadata, disk) =>
    match if verifyAfterBackup then verifyBackup hash env.verifyError metadata disk else .ok () with
    | .error err => (.error ("backup verification failed: " ++ err), disk)
    | .ok () =>
      match env.metadataError with
      | some err => (.error ("failed to save metadata: " ++ err), disk)
      | none => (.ok metadata, { disk with metadata := disk.metadata.set metadata.id metadata })

def restoreSQLite (dbPath : String) (env : RestoreEnv) (metadata : BackupMetadata) (disk : Disk P) :
    Except String Unit × Disk P :=
  if dbPath = "" then (.error "SQLite database path not set", disk)
  else
    match disk.files.get? metadata.path, env.openError with
    | none, _ => (.error "failed to open backup file: no such file", disk)
    | some _, some err => (.error ("failed to open backup file: " ++ err), disk)
    | some file, none =>
      match env.createError with
      | some err => (.error ("failed to create database file: " ++ err), disk)
      | none =>
        -- `os.Create` empties the main file, and the log stays
        let copied := copyFile file env.copyError
        let disk := { disk with db := { disk.db with main := copied.1 } }
        match copied.2 with
        | some err => (.error ("failed to copy backup: " ++ err), disk)
        | none => (.ok (), disk)

/-- `RestoreWithOptions`: the backup is checked if that is asked for, and a database is not overwritten unless
forced. -/
def restoreWithOptions (dbPath : String) (opts : RestoreOptions) (env : RestoreEnv) (disk : Disk P) :
    Except String Unit × Disk P :=
  match disk.metadata.get? opts.backupID, env.metadataError with
  | none, _ => (.error "failed to load backup metadata: no such file", disk)
  | some _, some err => (.error ("failed to load backup metadata: " ++ err), disk)
  | some metadata, none =>
    match if opts.verifyBefore then verifyBackup hash env.verifyError metadata disk else .ok () with
    | .error err => (.error ("backup verification failed: " ++ err), disk)
    | .ok () =>
      if !opts.force && env.dbExists then
        (.error "database contains data; use --force to overwrite", disk)
      else
        match metadata.backend with
        | .postgres => (env.pgRestore, disk)
        | .sqlite => restoreSQLite dbPath env metadata disk

end

/-! ### What a backup leaves -/

section Backups

variable {P : Type} {hash : List P → String} {dbPath : String} {disk disk' : Disk P}
  {metadata : BackupMetadata} {env : BackupEnv}

/-- What a backup that succeeds leaves on the disk: a copy of the main file, and the metadata. -/
structure Saved (hash : List P → String) (main : List P) (metadata : BackupMetadata) (disk : Disk P) :
    Prop where
  backend : metadata.backend = .sqlite
  integrityHash : metadata.integrityHash = hash main
  file : disk.files.get? metadata.path = some main
  metadata : disk.metadata.get? metadata.id = some metadata

theorem backupSQLite_eq_ok (h : backupSQLite hash dbPath env disk = (.ok metadata, disk')) :
    dbPath ≠ "" ∧ metadata.backend = .sqlite ∧ metadata.integrityHash = hash disk.db.main ∧
      disk'.files.get? metadata.path = some disk.db.main := by
  unfold backupSQLite at h
  split at h
  next => cases h
  next hp =>
    split at h
    · cases h
    · cases h
    · dsimp only at h
      split at h
      next => cases h
      next => cases h
      next hc _ =>
        cases h
        cases hcopy : env.copyError with
        | some failed =>
          rw [hcopy] at hc
          cases hc
        | none => exact ⟨hp, rfl, rfl, by rw [get?_set, if_pos rfl]; rfl⟩

theorem backup_eq_ok {verifyAfterBackup : Bool}
    (h : backup hash verifyAfterBackup dbPath env disk = (.ok metadata, disk')) :
    dbPath ≠ "" ∧ Saved hash disk.db.main metadata disk' := by
  unfold backup at h
  split at h
  next => cases h
  next saved _ hb =>
    split at h
    next => cases h
    next =>
      split at h
      next => cases h
      next =>
        cases h
        obtain ⟨hp, hbackend, hhash, hfile⟩ := backupSQLite_eq_ok hb
        exact ⟨hp, hbackend, hhash, hfile, by rw [get?_set, if_pos rfl]⟩

end Backups

/-! ### What a restore does -/

/-- The restore gets as far as emptying the main file. -/
structure Overwrites {P : Type} (metadata : BackupMetadata) (verifyBefore : Bool) (env : RestoreEnv)
    (later : Disk P) : Prop where
  loaded : (later.metadata.get? metadata.id).isSome ∧ env.metadataError = none
  verified : verifyBefore → env.verifyError = none
  opened : (later.files.get? metadata.path).isSome ∧ env.openError = none
  created : env.createError = none

/-- The two files of the backup are as they were left by it, or have been deleted since. -/
structure KeptOrDeleted {P : Type} (metadata : BackupMetadata) (disk later : Disk P) : Prop where
  sameMetadata : ∀ found, later.metadata.get? metadata.id = some found →
    disk.metadata.get? metadata.id = some found
  sameFile : ∀ found, later.files.get? metadata.path = some found →
    disk.files.get? metadata.path = some found

section Restores

variable {P : Type} {hash : List P → String} {dbPath : String} {metadata : BackupMetadata} {file : List P}
  {disk later : Disk P} {verifyBefore : Bool} {env : RestoreEnv}

/-- A restore that overwrites leaves the pages that were copied, and succeeds if the copy does. -/
theorem restore_of_overwrites (hp : dbPath ≠ "") (hs : Saved hash file metadata disk)
    (hk : KeptOrDeleted metadata disk later) (h : Overwrites metadata verifyBefore env later) :
    restoreWithOptions hash dbPath { backupID := metadata.id, verifyBefore, force := true } env later =
      (match (copyFile file env.copyError).2 with
        | some err => .error ("failed to copy backup: " ++ err)
        | none => .ok (),
        { later with db := { later.db with main := (copyFile file env.copyError).1 } }) := by
  obtain ⟨found, hm⟩ := Option.isSome_iff_exists.mp h.loaded.1
  obtain ⟨content, hfi⟩ := Option.isSome_iff_exists.mp h.opened.1
  obtain rfl : found = metadata := Option.some.inj ((hk.sameMetadata found hm).symm.trans hs.metadata)
  obtain rfl : content = file := Option.some.inj ((hk.sameFile content hfi).symm.trans hs.file)
  have hverify : (if verifyBefore then verifyBackup hash env.verifyError found later else .ok ()) = .ok () := by
    cases verifyBefore with
    | false => rfl
    | true => simp [verifyBackup, hfi, h.verified rfl, hs.integrityHash]
  unfold restoreWithOptions restoreSQLite
  simp only [hm, h.loaded.2, hverify, Bool.not_true, Bool.false_and, Bool.false_eq_true, if_false,
    hs.backend, hp, hfi, h.opened.2, h.created]
  cases env.copyError <;> rfl

/-- Any other restore fails and changes nothing. -/
theorem restore_of_not_overwrites (dbPath : String) (hs : Saved hash file metadata disk)
    (hk : KeptOrDeleted metadata disk later) (h : ¬ Overwrites metadata verifyBefore env later) :
    ∃ err, restoreWithOptions hash dbPath { backupID := metadata.id, verifyBefore, force := true } env later =
      (.error err, later) := by
  unfold restoreWithOptions
  split
  next => exact ⟨_, rfl⟩
  next => exact ⟨_, rfl⟩
  next found hm hread =>
    obtain rfl : found = metadata := Option.some.inj ((hk.sameMetadata found hm).symm.trans hs.metadata)
    split
    next => exact ⟨_, rfl⟩
    next hverify =>
      simp only [Bool.not_true, Bool.false_and, Bool.false_eq_true, if_false, hs.backend]
      unfold restoreSQLite
      split
      · exact ⟨_, rfl⟩
      · split
        next => exact ⟨_, rfl⟩
        next => exact ⟨_, rfl⟩
        next content hfi ho =>
          split
          next => exact ⟨_, rfl⟩
          next hc =>
            refine absurd ⟨⟨by simp [hm], hread⟩, ?_, ⟨by simp [hfi], ho⟩, hc⟩ h
            intro hbe
            simp only [hbe, if_true, verifyBackup, hfi] at hverify
            split at hverify
            · cases hverify
            next hnone => exact hnone

end Restores

/-- The restore brings back the content of the time of the backup, or fails and leaves the content. -/
def RoundTrips {P : Type} (before : Db P) (later : Disk P) (result : Except String Unit × Disk P) : Prop :=
  (result.1 = .ok () → result.2.db.content = before.content) ∧
    ∀ err, result.1 = .error err → result.2.db.content = later.db.content

/-- **Backup and restore round-trip exactly if the log does not matter.** A restore that gets as far as
emptying the main file brings back the content of the backup if the log of the time of the restore
makes of the main file of the backup what the log of its own time made of it, and a copy that fails
leaves the content if it changes no page that the log does not have. -/
theorem restore_round_trip_iff {P : Type} (hash : List P → String) (verifyAfterBackup : Bool)
    (dbPath : String) (backupEnv : BackupEnv) (disk disk' : Disk P) (metadata : BackupMetadata)
    (hbackup : backup hash verifyAfterBackup dbPath backupEnv disk = (.ok metadata, disk'))
    (later : Disk P) (hkept : KeptOrDeleted metadata disk' later) (verifyBefore : Bool)
    (env : RestoreEnv) : RoundTrips disk.db later
        (restoreWithOptions hash dbPath { backupID := metadata.id, verifyBefore, force := true } env later) ↔
      (Overwrites metadata verifyBefore env later →
        (env.copyError = none → SameLog disk.db later.db.log) ∧
        ∀ n err, env.copyError = some (n, err) →
          SameMain later.db.log (disk.db.main.take n) later.db.main) := by
  obtain ⟨hp, hs⟩ := backup_eq_ok hbackup
  by_cases ho : Overwrites metadata verifyBefore env later
  · rw [restore_of_overwrites hp hs hkept ho]
    cases hcopy : env.copyError with
    | none =>
      simp only [RoundTrips, copyFile, ho, forall_const, reduceCtorEq, false_implies, and_true]
      exact content_log_iff disk.db later.db.log
    | some failed =>
      obtain ⟨n, err⟩ := failed
      have hm := content_main_iff later.db.log (disk.db.main.take n) later.db.main
      simp only [RoundTrips, copyFile, ho, forall_const, reduceCtorEq, false_implies, true_and,
        Option.some.injEq, Prod.mk.injEq]
      constructor
      · intro h n' err' hf
        obtain ⟨rfl, rfl⟩ := hf
        exact hm.mp (h _ rfl)
      · intro h _ _
        exact hm.mpr (h n err ⟨rfl, rfl⟩)
  · obtain ⟨err, hr⟩ := restore_of_not_overwrites dbPath hs hkept ho
    rw [hr]
    simp [RoundTrips, ho]

/-! ### A commit that is lost -/

section Lost

def plainBackup : BackupEnv :=
  { id := "1", now := 1, path := "node_1.db", openError := none, createError := none, copyError := none
    infoError := none, verifyError := none, metadataError := none }

def plainRestore : RestoreEnv :=
  { metadataError := none, verifyError := none, dbExists := true, openError := none, createError := none
    copyError := none, pgRestore := .ok () }

def committedDisk : Disk String :=
  { db := { main := ["v1"], log := some { frames := [(0, "v2")], size := 1 } }
    files := .empty, metadata := .empty }

def committedBackup : BackupMetadata :=
  { id := "1", timestamp := 1, backend := .sqlite, path := "node_1.db", integrityHash := "v1" }

/-- After the backup the database is written to and its log is reset. -/
def laterDisk : Disk String :=
  { (backup String.join true "bib.db" plainBackup committedDisk).2 with
    db := { main := ["v3"], log := none } }

theorem restore_round_trip_iff_committed : ¬ RoundTrips committedDisk.db laterDisk
      (restoreWithOptions String.join "bib.db" { backupID := "1", verifyBefore := true, force := true }
        plainRestore laterDisk) := by
  have hi := restore_round_trip_iff String.join true "bib.db" plainBackup committedDisk
    (backup String.join true "bib.db" plainBackup committedDisk).2 committedBackup (by rfl) laterDisk
    ⟨fun _ h => h, fun _ h => h⟩ true plainRestore
  intro h
  have hs := ((hi.mp h) ⟨by decide, fun _ => rfl, by decide, rfl⟩).1 rfl
  -- the log of the backup's time had a page that the main file did not have
  exact absurd (hs.older 0 (by decide) rfl "v2" rfl) (by decide)

/-- The backup is made while a commit is in the log only, and restored when the log is empty: the
restore succeeds, and the commit is lost. -/
theorem commit_lost :
    (backup String.join true "bib.db" plainBackup committedDisk).1 = .ok committedBackup ∧
      committedDisk.db.content = [some "v2"] ∧
      (restoreWithOptions String.join "bib.db" { backupID := "1", verifyBefore := true, force := true }
        plainRestore laterDisk).1 = .ok () ∧
      (restoreWithOptions String.join "bib.db" { backupID := "1", verifyBefore := true, force := true }
        plainRestore laterDisk).2.db.content = [some "v1"] := by
  refine ⟨?_, ?_, ?_, ?_⟩
  · decide +kernel
  · decide +kernel
  · decide +kernel
  · decide +kernel

end Lost

/-! ### Old backups -/

section Cleanup

open List

/-- `sort.Slice` by time, the newest first; it may leave backups of one time in any order. -/
structure NewestFirst where
  sort : List BackupMetadata → List BackupMetadata
  perm : ∀ backups, (sort backups).Perm backups
  sorted : ∀ backups, (sort backups).Pairwise fun a b => b.timestamp ≤ a.timestamp

variable {P : Type}

/-- The metadata files in the order of the directory. -/
def Disk.stored (disk : Disk P) : List BackupMetadata := disk.metadata.rows.map Prod.snd

/-- `List`. -/
def listBackups (order : NewestFirst) (disk : Disk P) : List BackupMetadata := order.sort disk.stored

def delete (backupID : String) (disk : Disk P) : Except String Unit × Disk P :=
  match disk.metadata.get? backupID with
  | none => (.error "failed to load backup metadata: no such file", disk)
  | some metadata =>
    -- a file that is gone already is no error
    (.ok (), { disk with files := disk.files.delete metadata.path
                         metadata := disk.metadata.delete backupID })

/-- `Delete` for one backup after another, up to the first error. -/
def deleteAll : List BackupMetadata → Disk P → Except String Unit × Disk P
  | [], disk => (.ok (), disk)
  | backup :: backups, disk =>
    match delete backup.id disk with
    | (.ok (), disk) => deleteAll backups disk
    | (.error err, disk) => (.error err, disk)

/-- Both loops, the one by age and the one by count, return at the first error. -/
def cleanupOldBackups (order : NewestFirst) (cutoff : Int) (maxBackups : Nat) (disk : Disk P) :
    Except String Unit × Disk P :=
  let backups := listBackups order disk
  deleteAll (backups.filter (·.timestamp < cutoff) ++ backups.drop maxBackups) disk

/-- The backups of the directory, each under its own id, as `saveMetadata` writes them. -/
def OwnIDs (disk : Disk P) : Prop := ∀ entry ∈ disk.metadata.rows, entry.2.id = entry.1

theorem OwnIDs.nodup {disk : Disk P} (h : OwnIDs disk) : (disk.stored.map BackupMetadata.id).Nodup := by
  have hkeys : disk.stored.map BackupMetadata.id = disk.metadata.rows.map Prod.fst := by
    rw [Disk.stored, map_map]
    exact map_congr_left h
  rw [hkeys]
  exact disk.metadata.nodup

theorem OwnIDs.mem_delete {disk : Disk P} (h : OwnIDs disk) (id : String) {other : BackupMetadata} :
    other ∈ (disk.metadata.delete id).rows.map Prod.snd ↔ other ∈ disk.stored ∧ other.id ≠ id := by
  simp only [KeyMap.delete, Table.erase, Disk.stored, mem_map, mem_filter, decide_eq_true_eq]
  constructor
  · rintro ⟨entry, ⟨hentry, hne⟩, rfl⟩
    exact ⟨⟨entry, hentry, rfl⟩, by rwa [h entry hentry]⟩
  · rintro ⟨⟨entry, hentry, rfl⟩, hne⟩
    exact ⟨entry, ⟨hentry, by rwa [← h entry hentry]⟩, rfl⟩

/-- A pass deletes the backups up to the first that is not there any more. -/
theorem deleteAll_split (backups : List BackupMetadata) {disk : Disk P} (h : OwnIDs disk) :
    ∃ done rest, backups = done ++ rest ∧
      (∀ b, b ∈ (deleteAll backups disk).2.stored ↔
        b ∈ disk.stored ∧ b.id ∉ done.map BackupMetadata.id) ∧
      ∀ b ∈ rest.head?, b ∈ disk.stored → b.id ∈ done.map BackupMetadata.id := by
  induction backups generalizing disk with
  | nil => exact ⟨[], [], by simp [deleteAll]⟩
  | cons a backups ih =>
    unfold deleteAll delete
    cases hg : disk.metadata.get? a.id with
    | none =>
      refine ⟨[], a :: backups, rfl, by simp, fun b hb hstored => ?_⟩
      obtain rfl : a = b := Option.some.inj hb
      obtain ⟨entry, hentry, rfl⟩ := mem_map.mp hstored
      rw [h entry hentry, get?_eq_some_iff.mpr hentry] at hg
      cases hg
    | some metadata =>
      dsimp only
      obtain ⟨done, rest, rfl, hkept, hstop⟩ := @ih
        { disk with files := disk.files.delete metadata.path, metadata := disk.metadata.delete a.id }
        fun entry hentry => h entry (mem_of_mem_filter hentry)
      refine ⟨a :: done, rest, rfl, fun b => ?_, fun b hb hstored => ?_⟩
      · rw [hkept, Disk.stored, h.mem_delete a.id, map_cons, mem_cons, not_or, and_assoc]
      · by_cases heq : b.id = a.id
        · exact heq ▸ mem_cons_self
        · exact mem_cons_of_mem _ (hstop b hb ((h.mem_delete a.id).mpr ⟨hstored, heq⟩))

/-- A backup at which the deletion stops because it is missing has been deleted by age, and so have all the older
ones after it. -/
theorem mem_done_of_stopped {backups done rest : List BackupMetadata} {b : BackupMetadata} {cutoff : Int}
    {maxBackups : Nat} (hn : backups.Nodup) (hsorted : backups.Pairwise fun a b => b.timestamp ≤ a.timestamp)
    (hsplit : backups.filter (·.timestamp < cutoff) ++ backups.drop maxBackups = done ++ b :: rest)
    (hb : b ∈ done) : ∀ other ∈ b :: rest, other ∈ done := by
  have hd : ∃ d, done = backups.filter (·.timestamp < cutoff) ++ d ∧
      backups.drop maxBackups = d ++ b :: rest := by
    rcases append_eq_append_iff.mp hsplit with hd | ⟨_ | ⟨x, d⟩, heq, hrest⟩
    · exact hd
    · exact ⟨[], by simpa using heq.symm, hrest.symm⟩
    · obtain ⟨rfl, -⟩ := cons.inj hrest
      have hno := hn.filter (·.timestamp < cutoff)
      rw [heq, nodup_append] at hno
      exact absurd rfl (hno.2.2 b hb b mem_cons_self)
  obtain ⟨d, rfl, hdrop⟩ := hd
  have hsub : (d ++ b :: rest) <+ backups := hdrop ▸ drop_sublist _ _
  have hbd : b ∉ d := fun hd => (nodup_append.mp (hn.sublist hsub)).2.2 b hd b mem_cons_self rfl
  have hlate := (mem_filter.mp ((mem_append.mp hb).resolve_right hbd)).2
  obtain ⟨hle, -⟩ := pairwise_cons.mp (pairwise_append.mp (hsorted.sublist hsub)).2.1
  intro other hother
  rcases mem_cons.mp hother with rfl | hother
  · exact hb
  · refine mem_append_left _ (mem_filter.mpr ⟨hsub.subset (by simp [hother]), ?_⟩)
    exact decide_eq_true (Int.lt_of_le_of_lt (hle other hother) (of_decide_eq_true hlate))

/-- **A cleanup keeps exactly the newest backups that are not too old**, whether it returns an error or not. -/
theorem cleanup_exact (order : NewestFirst) (cutoff : Int) (maxBackups : Nat) (disk : Disk P)
    (hids : OwnIDs disk) (backup : BackupMetadata) :
    backup ∈ (cleanupOldBackups order cutoff maxBackups disk).2.stored ↔
      backup ∈ (listBackups order disk).take maxBackups ∧ cutoff ≤ backup.timestamp := by
  have hmem : ∀ {b}, b ∈ listBackups order disk ↔ b ∈ disk.stored := (order.perm disk.stored).mem_iff
  have hsorted : (listBackups order disk).Pairwise fun a b => b.timestamp ≤ a.timestamp :=
    order.sorted disk.stored
  have hnid : ((listBackups order disk).map BackupMetadata.id).Nodup :=
    ((order.perm disk.stored).map BackupMetadata.id).nodup_iff.mpr hids.nodup
  rw [cleanupOldBackups]
  generalize listBackups order disk = backups at hmem hsorted hnid ⊢
  have hn : backups.Nodup := hnid.of_map
  let old := backups.filter (·.timestamp < cutoff)
  have hold : ∀ {b}, b ∈ old ↔ b ∈ backups ∧ b.timestamp < cutoff := by simp [old]
  obtain ⟨done, rest, hsplit, hkept, hstop⟩ := deleteAll_split (old ++ backups.drop maxBackups) hids
  have hall : ∀ {b}, b ∈ done ++ rest → b ∈ backups := by
    rw [← hsplit]
    exact fun hb => (mem_append.mp hb).elim mem_of_mem_filter mem_of_mem_drop
  have hdoneIDs : ∀ {b}, b ∈ backups → (b.id ∈ done.map BackupMetadata.id ↔ b ∈ done) := by
    refine fun hb => ⟨fun hid => ?_, mem_map_of_mem⟩
    obtain ⟨d, hd, heq⟩ := mem_map.mp hid
    rwa [inj_on_of_nodup_map hnid hb (hall (mem_append_left _ hd)) heq.symm]
  have hgone : ∀ b ∈ rest, b ∈ done := by
    cases rest with
    | nil => simp
    | cons b rest =>
      have hbackup : b ∈ backups := hall (by simp)
      exact mem_done_of_stopped hn hsorted hsplit ((hdoneIDs hbackup).mp (hstop b rfl (hmem.mp hbackup)))
  have hdone : backup ∈ done ↔ backup ∈ old ∨ backup ∈ backups.drop maxBackups := by
    rw [← mem_append, hsplit, mem_append]
    exact ⟨.inl, fun h => h.elim (fun h => h) (hgone backup)⟩
  have htake := take_append_drop maxBackups backups
  have hdisjoint := (nodup_append.mp (htake.symm ▸ hn)).2.2 backup
  have hcut : backup ∈ backups ↔ backup ∈ backups.take maxBackups ∨ backup ∈ backups.drop maxBackups := by
    rw [← mem_append, htake]
  have hstored := hkept backup
  rw [← hmem, and_congr_right fun hb => not_congr ((hdoneIDs hb).trans (hdone.trans (or_congr_left hold)))]
    at hstored
  rw [hstored]
  grind

/-- Insertion sort is such a sort. -/
def insertionNewestFirst : NewestFirst where
  sort backups := backups.insertionSort fun a b => b.timestamp ≤ a.timestamp
  perm backups := perm_insertionSort _ backups
  sorted backups := by
    have htotal : Std.Total fun a b : BackupMetadata => b.timestamp ≤ a.timestamp :=
      ⟨fun a b => Int.le_total b.timestamp a.timestamp⟩
    have htrans : IsTrans BackupMetadata fun a b => b.timestamp ≤ a.timestamp :=
      ⟨fun _ _ _ hab hbc => Int.le_trans hbc hab⟩
    exact pairwise_insertionSort _ backups

/-- Three backups, one of each day. -/
def threeBackups : Disk String :=
  let saved (id : String) (timestamp : Int) : BackupMetadata :=
    { id, timestamp, backend := .sqlite, path := "node_" ++ id ++ ".db", integrityHash := "v1" }
  { db := { main := ["v1"], log := none }, files := .empty
    metadata := set (set (set .empty "1" (saved "1" 1)) "2" (saved "2" 2)) "3" (saved "3" 3) }

/-- The oldest backup is deleted by its age, so that the pass by count, which is to delete the two
oldest, ends with the error that it is not there. -/
theorem cleanup_exact_three :
    let result := cleanupOldBackups insertionNewestFirst 2 1 threeBackups
    result.1 = .error "failed to load backup metadata: no such file" ∧
      ∀ backup, backup ∈ result.2.stored ↔
        backup ∈ (listBackups insertionNewestFirst threeBackups).take 1 ∧ 2 ≤ backup.timestamp :=
  ⟨by decide +kernel,
    cleanup_exact insertionNewestFirst 2 1 threeBackups (by unfold OwnIDs; decide)⟩


end Cleanup

end Bib.Backup
