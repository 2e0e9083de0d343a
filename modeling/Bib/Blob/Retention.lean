import Bib.Blob.Gc
import Bib.Lib.Run

/-!
# Bib.Blob.Retention

**How long a blob stays in the trash** (`Delete` in `blob/local.go`, `cleanupLocalTrash` in `blob/gc.go`).
Moving a blob to the trash is a rename, which keeps the modification time, and the cleanup goes by this time. A
run of either collector is a number of deletions and then a cleanup (`runMarkAndSweep_acts`,
`runReferenceCounting_acts`).
-/

namespace Bib.Blob

open Bib.Lib Bib.Domain KeyMap

inductive Act
  | put (nonce : Nonce) (hash : String) (data : Bytes) (metadata : Metadata)
  | delete (hash : String)
  | cleanup

structure TimedAct where
  time : Time
  act : Act

/-- A store, with the time at which each blob was written, and for the files in the trash this time and the
one at which they came there. The times are recorded only. -/
structure Dated where
  store : LocalStore
  written : KeyMap String Time
  trashed : KeyMap String (Time × Time)

def Dated.fresh : Dated := { store := .fresh, written := .empty, trashed := .empty }

section Histories

variable (cfg : LocalConfig) (codec : Codec) (gc : GCConfig)

/-- One act; a `Put` or a `Delete` that returns an error changes nothing. -/
def Dated.perform (h : Dated) (e : TimedAct) : Dated :=
  match e.act with
  | .put nonce hash data metadata =>
    match put cfg codec e.time nonce hash data metadata h.store with
    | .error _ => h
    | .ok store => { h with store, written := h.written.set hash e.time }
  | .delete hash =>
    match Blob.delete hash h.store with
    | .error _ => h
    | .ok store =>
      { h with
        store
        trashed := h.trashed.set hash ((h.written.get? hash).getD e.time, e.time) }
  | .cleanup => { h with store := cleanupTrash gc e.time h.store }

/-- A time and the retention period after it. -/
def retainedUntil (t : Time) : Time := t + gc.trashRetentionDays * 86400000000000

/-- A cleanup leaves every file in the trash that came there less than the retention period ago. -/
def Respected (h : Dated) (e : TimedAct) : Prop :=
  e.act = .cleanup → ∀ hash w t, (h.store.trash.get? hash).isSome → h.trashed.get? hash = some (w, t) →
    e.time < retainedUntil gc t → ((h.perform cfg codec gc e).store.trash.get? hash).isSome

/-- No file is in the trash at a cleanup whose blob was written more than the retention period ago, and
moved to the trash less than it. -/
def WrittenInTime (h : Dated) (e : TimedAct) : Prop :=
  e.act = .cleanup → ∀ hash w t, (h.store.trash.get? hash).isSome → h.trashed.get? hash = some (w, t) →
    e.time < retainedUntil gc t → e.time ≤ retainedUntil gc w

end Histories

variable {cfg : LocalConfig} {codec : Codec} {gc : GCConfig} {h : Dated} {e : TimedAct}

/-- A modification time is the time at which the blob was written, also in the trash. -/
structure KeepsModTime (h : Dated) : Prop where
  blobs : ∀ hash file, h.store.blobs.get? hash = some file → h.written.get? hash = some file.modTime
  trash : ∀ hash file, h.store.trash.get? hash = some file →
    ∃ t, h.trashed.get? hash = some (file.modTime, t)

variable {now : Time} {store store' : LocalStore} {hash : String}

theorem cleanupTrash_get? {file : BlobFile} :
    (cleanupTrash gc now store).trash.get? hash = some file ↔
      store.trash.get? hash = some file ∧ now ≤ retainedUntil gc file.modTime := by
  have ht : ¬ file.modTime < daysBefore now gc.trashRetentionDays ↔
      now ≤ retainedUntil gc file.modTime := by
    rw [Int.not_lt]
    exact ⟨Int.le_add_of_sub_right_le, Int.sub_right_le_of_le_add⟩
  rw [get?_eq_some_iff, get?_eq_some_iff, ← ht]
  simp [cleanupTrash]

theorem put_trash {nonce : Nonce} {data : Bytes} {metadata : Metadata}
    (hput : put cfg codec now nonce hash data metadata store = .ok store') : store'.trash = store.trash := by
  unfold put at hput
  cases hb : putBlob cfg codec now nonce hash data store with
  | error error =>
    rw [hb] at hput
    cases hput
  | ok stored =>
    rw [hb] at hput
    cases hput
    obtain ⟨-, -, content, -, rfl⟩ := putBlob_eq_ok.mp hb
    rfl

theorem removeMeta_trash (hash : String) (store : LocalStore) : (removeMeta hash store).trash = store.trash := by
  unfold removeMeta
  cases store.metas.get? hash with
  | none =>
    dsimp only
    split <;> rfl
  | some metadata =>
    dsimp only
    split <;> rfl

theorem delete_trash (hdelete : delete hash store = .ok store') :
    ∃ file, store.blobs.get? hash = some file ∧ store'.trash = store.trash.set hash file := by
  unfold delete at hdelete
  cases hb : removeBlob hash store with
  | error error =>
    rw [hb] at hdelete
    cases hdelete
  | ok stored =>
    rw [hb] at hdelete
    cases hdelete
    obtain ⟨-, file, hf, rfl⟩ := removeBlob_eq_ok.mp hb
    exact ⟨file, hf, removeMeta_trash _ _⟩

theorem keepsModTime_perform (hk : KeepsModTime h) : KeepsModTime (h.perform cfg codec gc e) := by
  obtain ⟨time, act⟩ := e
  cases act with
  | put nonce hash data metadata =>
    simp only [Dated.perform]
    cases hput : put cfg codec time nonce hash data metadata h.store with
    | error error => exact hk
    | ok store =>
      obtain ⟨-, -, content, -, hblobs, -⟩ := put_eq_ok hput
      constructor
      · intro hash' file hf
        have hf' : store.blobs.get? hash' = some file := hf
        rw [hblobs] at hf'
        rw [get?_set]
        split at hf'
        next heq =>
          cases hf'
          rw [if_pos heq]
        next hne =>
          rw [if_neg hne]
          exact hk.blobs hash' file hf'
      · intro hash' file hf
        refine hk.trash hash' file ?_
        rwa [← put_trash hput]
  | delete hash =>
    simp only [Dated.perform]
    cases hdelete : delete hash h.store with
    | error error => exact hk
    | ok store =>
      obtain ⟨moved, hm, ht⟩ := delete_trash hdelete
      constructor
      · intro hash' file hf
        have hf' : store.blobs.get? hash' = some file := hf
        rw [delete_get? hdelete] at hf'
        split at hf'
        · cases hf'
        · exact hk.blobs hash' file hf'
      · intro hash' file hf
        have hf' : store.trash.get? hash' = some file := hf
        rw [ht, get?_set] at hf'
        rw [get?_set]
        split at hf'
        next heq =>
          cases hf'
          rw [if_pos heq, hk.blobs hash moved hm]
          exact ⟨time, rfl⟩
        next hne =>
          rw [if_neg hne]
          exact hk.trash hash' file hf'
  | cleanup =>
    refine ⟨hk.blobs, fun hash file hf => ?_⟩
    exact hk.trash hash file (cleanupTrash_get?.mp hf).1

theorem respected_iff (hk : KeepsModTime h) : Respected cfg codec gc h e ↔ WrittenInTime gc h e := by
  refine imp_congr_right fun ha => ?_
  have hp : (h.perform cfg codec gc e).store = cleanupTrash gc e.time h.store := by
    rw [Dated.perform, ha]
  rw [hp]
  refine forall₃_congr fun hash w t => imp_congr_right fun hsome => ?_
  obtain ⟨file, hf⟩ := Option.isSome_iff_exists.mp hsome
  obtain ⟨t', ht⟩ := hk.trash hash file hf
  refine imp_congr_right fun he => imp_congr_right fun _ => ?_
  rw [ht] at he
  cases he
  rw [Option.isSome_iff_exists]
  constructor
  · intro hleft
    obtain ⟨file', hf'⟩ := hleft
    obtain ⟨hs, hti⟩ := cleanupTrash_get?.mp hf'
    rw [hf] at hs
    cases hs
    exact hti
  · exact fun hti => ⟨file, cleanupTrash_get?.mpr ⟨hf, hti⟩⟩

/-- **The retention period is respected in a history exactly if at each cleanup no file in the trash was written
more than the period ago that came there less than the period ago.** -/
theorem retention_respected_iff (cfg : LocalConfig) (codec : Codec) (gc : GCConfig) (acts : List TimedAct) :
    Run.AllSteps (Dated.perform cfg codec gc) (Respected cfg codec gc) .fresh acts ↔
      Run.AllSteps (Dated.perform cfg codec gc) (WrittenInTime gc) .fresh acts :=
  Run.allSteps_congr KeepsModTime (fun _ _ => respected_iff) (fun _ _ hk _ => keepsModTime_perform hk)
    ⟨nofun, nofun⟩

/-- **A file in the store or the trash is as old as its blob**, in every run of writes, deletions and cleanups. -/
theorem modTime_kept (cfg : LocalConfig) (codec : Codec) (gc : GCConfig) (acts : List TimedAct) :
    KeepsModTime (acts.foldl (Dated.perform cfg codec gc) .fresh) :=
  List.foldlRecOn acts _ ⟨nofun, nofun⟩ fun _ hk _ _ => keepsModTime_perform hk

/-! ### Runs of the collectors -/

def runActs (now : Time) (hashes : List String) : List TimedAct :=
  hashes.map (fun hash => ⟨now, .delete hash⟩) ++ [⟨now, .cleanup⟩]

theorem exists_runActs {S : Type} (cfg : LocalConfig) (codec : Codec) (gc : GCConfig) (now : Time)
    {sweep : S × LocalStore → BlobInfo → S × LocalStore}
    (hs : ∀ acc info, (sweep acc info).2 = acc.2 ∨ delete info.hash acc.2 = .ok (sweep acc info).2)
    (infos : List BlobInfo) (s : S) (h : Dated) :
    ∃ hashes, cleanupTrash gc now (infos.foldl sweep (s, h.store)).2 =
      ((runActs now hashes).foldl (Dated.perform cfg codec gc) h).store := by
  induction infos generalizing s h with
  | nil => exact ⟨[], rfl⟩
  | cons info infos ih =>
    rcases hs (s, h.store) info with hsa | hdelete
    · obtain ⟨hashes, hh⟩ := ih (sweep (s, h.store) info).1 h
      refine ⟨hashes, ?_⟩
      rw [← hh]
      exact congrArg (fun acc => cleanupTrash gc now (infos.foldl sweep acc).2) (Prod.ext rfl hsa)
    · have hn : (h.perform cfg codec gc ⟨now, .delete info.hash⟩).store = (sweep (s, h.store) info).2 := by
        simp only [Dated.perform, hdelete]
      obtain ⟨hashes, hh⟩ :=
        ih (sweep (s, h.store) info).1 (h.perform cfg codec gc ⟨now, .delete info.hash⟩)
      refine ⟨info.hash :: hashes, ?_⟩
      rw [hn] at hh
      exact hh

theorem runMarkAndSweep_acts (cfg : LocalConfig) (codec : Codec) (gc : GCConfig) {faults : DbFaults}
    (hl : faults.list = false) (now : Time) (db : Database) (h : Dated) :
    ∃ hashes, (runMarkAndSweep gc faults now { store := h.store, db }).2.store =
      ((runActs now hashes).foldl (Dated.perform cfg codec gc) h).store := by
  unfold runMarkAndSweep markReferencedBlobs
  rw [hl]
  refine exists_runActs cfg codec gc now ?_ (list h.store) _ h
  intro acc info
  unfold sweepOne
  split
  · exact .inl rfl
  · cases delete info.hash acc.2 with
    | error error => exact .inl rfl
    | ok store => exact .inr rfl

theorem runReferenceCounting_acts (cfg : LocalConfig) (codec : Codec) (gc : GCConfig) (now : Time)
    (db : Database) (h : Dated) :
    ∃ hashes, (runReferenceCounting gc now { store := h.store, db }).2.store =
      ((runActs now hashes).foldl (Dated.perform cfg codec gc) h).store := by
  refine exists_runActs cfg codec gc now ?_ (list h.store) _ h
  intro acc info
  unfold countOne
  cases getMetadata info.hash acc.2 with
  | error error => exact .inl rfl
  | ok metadata =>
    dsimp only
    split
    · exact .inl rfl
    · split
      · exact .inl rfl
      · cases delete info.hash acc.2 with
        | error error => exact .inl rfl
        | ok store => exact .inr rfl

def day100 : Time := 8640000000000000

def thirtyDays : GCConfig := { minAgeDays := 7, trashRetentionDays := 30 }

def writeSample : TimedAct := ⟨0, .put zeroNonce sampleHash [7] (newMetadata sampleChunk 1)⟩

/-- It is found to be garbage on day 100, and with a retention period of 30 days it is removed for good by the
same run. -/
theorem collected_blob_removed_at_once :
    (let h := Dated.fresh.perform sampleEnv.cfg plainCodec thirtyDays writeSample
     let sys := (runMarkAndSweep thirtyDays .none day100 { store := h.store, db := sampleDb.withoutChunks }).2
     (h.store.blobs.get? sampleHash).isSome ∧ sys.store.blobs.rows = [] ∧ sys.store.trash.rows = []) ∧
    ¬ Run.AllSteps (Dated.perform sampleEnv.cfg plainCodec thirtyDays)
      (Respected sampleEnv.cfg plainCodec thirtyDays) .fresh (writeSample :: runActs day100 [sampleHash]) := by
  refine ⟨by decide +kernel, ?_⟩
  intro hall
  have hc := hall.2.2.1 rfl sampleHash 0 day100 (by decide +kernel) (by decide +kernel) (by decide +kernel)
  exact absurd hc (by decide +kernel)

end Bib.Blob
