import Bib.Domain.Chunk

/-!
# Bib.Blob.Database

**The dataset tables the blob code works on** (`sqlite/datasets.go` and the initial
schema): datasets, their versions and the chunks of the versions.

A `Database` carries the constraints of the schema as fields: primary keys, the foreign
keys of versions and chunks, and `UNIQUE (version_id, chunk_index)`. Columns that no
modelled query reads are left out.
-/

namespace Bib.Blob

open Bib.Lib Bib.Domain Table

structure DatasetVersion where
  (id datasetID : String)

structure Database where
  datasets : List String
  versions : Table DatasetVersion.id
  chunks : Table Chunk.id
  datasetOfVersion : ∀ version ∈ versions.rows, version.datasetID ∈ datasets
  datasetOfChunk : ∀ chunk ∈ chunks.rows, chunk.datasetID ∈ datasets
  versionOfChunk : ∀ chunk ∈ chunks.rows, ∃ version ∈ versions.rows, version.id = chunk.versionID
  position : ∀ chunk ∈ chunks.rows, ∀ chunk' ∈ chunks.rows, chunk.versionID = chunk'.versionID →
    chunk.index = chunk'.index → chunk = chunk'

inductive DbError
  | invalid (error : ChunkError)
  /-- `storage.ErrAlreadyExists`: a `UNIQUE` or `FOREIGN KEY` constraint failed. -/
  | alreadyExists
  /-- A `CHECK` constraint failed. -/
  | check
  | notFound
  deriving DecidableEq

def DbError.message : DbError → String
  | invalid error => error.message
  | alreadyExists => "already exists"
  | check => "failed to create chunk: CHECK constraint failed"
  | notFound => "not found"

def Database.withoutChunks (db : Database) : Database :=
  { db with
    chunks := .empty
    datasetOfChunk := fun _ h => absurd h List.not_mem_nil
    versionOfChunk := fun _ h => absurd h List.not_mem_nil
    position := fun _ h => absurd h List.not_mem_nil }

/-! ### Queries -/

def listDatasets (db : Database) : List String := db.datasets

def listVersions (datasetID : String) (db : Database) : List DatasetVersion :=
  db.versions.rows.filter fun version => version.datasetID = datasetID

def listChunks (versionID : String) (db : Database) : List Chunk :=
  db.chunks.rows.filter fun chunk => chunk.versionID = versionID

variable {db db' : Database} {chunk : Chunk}

/-! ### Inserting a chunk -/

structure Insertable (chunk : Chunk) (db : Database) : Prop where
  id : db.chunks.find? chunk.id = none
  position : ∀ row ∈ db.chunks.rows, row.versionID = chunk.versionID → row.index ≠ chunk.index
  dataset : chunk.datasetID ∈ db.datasets
  version : ∃ version ∈ db.versions.rows, version.id = chunk.versionID

instance (chunk : Chunk) (db : Database) : Decidable (Insertable chunk db) :=
  decidable_of_iff
    (db.chunks.find? chunk.id = none ∧
      (∀ row ∈ db.chunks.rows, row.versionID = chunk.versionID → row.index ≠ chunk.index) ∧
      chunk.datasetID ∈ db.datasets ∧ ∃ version ∈ db.versions.rows, version.id = chunk.versionID)
    ⟨fun h => ⟨h.1, h.2.1, h.2.2.1, h.2.2.2⟩, fun h => ⟨h.id, h.position, h.dataset, h.version⟩⟩

/-- The `INSERT` itself; the content of a chunk is not a column. -/
def Database.insertChunk (db : Database) (chunk : Chunk) (h : Insertable chunk db) : Database :=
  { db with
    chunks := db.chunks.put { chunk with data := [] }
    datasetOfChunk := by
      intro row hrow
      rcases mem_put.mp hrow with rfl | ⟨hrow, -⟩
      · exact h.dataset
      · exact db.datasetOfChunk row hrow
    versionOfChunk := by
      intro row hrow
      rcases mem_put.mp hrow with rfl | ⟨hrow, -⟩
      · exact h.version
      · exact db.versionOfChunk row hrow
    position := by
      intro row hrow row' hrow' hversion hindex
      rcases mem_put.mp hrow with rfl | ⟨hrow, -⟩
      · rcases mem_put.mp hrow' with rfl | ⟨hrow', -⟩
        · rfl
        · exact absurd hindex.symm (h.position row' hrow' hversion.symm)
      · rcases mem_put.mp hrow' with rfl | ⟨hrow', -⟩
        · exact absurd hindex (h.position row hrow hversion)
        · exact db.position row hrow row' hrow' hversion hindex }

def createChunk (chunk : Chunk) (db : Database) : Except DbError Database :=
  match chunk.validate with
  | .error error => .error (.invalid error)
  | .ok () =>
    if h : Insertable chunk db then
      if chunk.size < 0 then .error .check else .ok (db.insertChunk chunk h)
    else .error .alreadyExists

theorem createChunk_eq_ok (h : createChunk chunk db = .ok db') :
    ∃ hi : Insertable chunk db, db' = db.insertChunk chunk hi := by
  unfold createChunk at h
  split at h
  · cases h
  · split at h
    next hi =>
      split at h
      · cases h
      · cases h
        exact ⟨hi, rfl⟩
    next => cases h

theorem mem_insertChunk (h : Insertable chunk db) {row : Chunk} :
    row ∈ (db.insertChunk chunk h).chunks.rows ↔
      row = { chunk with data := [] } ∨ row ∈ db.chunks.rows := by
  have hnew : ∀ row ∈ db.chunks.rows, row.id ≠ chunk.id := by
    intro row hrow hid
    have hf := mem_rows_iff.mp hrow
    rw [hid, h.id] at hf
    cases hf
  unfold Database.insertChunk
  rw [mem_put]
  exact or_congr_right ⟨And.left, fun hrow => ⟨hrow, hnew row hrow⟩⟩

/-! ### Changing a status -/

/-- Replacing the status of a row changes no constraint. -/
def Database.setStatus (db : Database) (row : Chunk) (hrow : row ∈ db.chunks.rows)
    (status : ChunkStatus) : Database :=
  have hold : ∀ chunk, chunk ∈ (db.chunks.put { row with status := status }).rows →
      ∃ old ∈ db.chunks.rows, chunk.id = old.id ∧ chunk.datasetID = old.datasetID ∧
        chunk.versionID = old.versionID ∧ chunk.index = old.index := by
    intro chunk hchunk
    rcases mem_put.mp hchunk with rfl | ⟨hchunk, -⟩
    · exact ⟨row, hrow, rfl, rfl, rfl, rfl⟩
    · exact ⟨chunk, hchunk, rfl, rfl, rfl, rfl⟩
  { db with
    chunks := db.chunks.put { row with status := status }
    datasetOfChunk := by
      intro chunk hchunk
      obtain ⟨old, hmem, -, hdataset, -, -⟩ := hold chunk hchunk
      exact hdataset ▸ db.datasetOfChunk old hmem
    versionOfChunk := by
      intro chunk hchunk
      obtain ⟨old, hmem, -, -, hversion, -⟩ := hold chunk hchunk
      exact hversion ▸ db.versionOfChunk old hmem
    position := by
      intro chunk hchunk chunk' hchunk' hversion hindex
      obtain ⟨old, hmem, hid, -, hv, hi⟩ := hold chunk hchunk
      obtain ⟨old', hmem', hid', -, hv', hi'⟩ := hold chunk' hchunk'
      have heq : old = old' := db.position old hmem old' hmem'
        (hv.symm.trans (hversion.trans hv')) (hi.symm.trans (hindex.trans hi'))
      exact eq_of_key_eq hchunk hchunk' (hid.trans (heq ▸ hid'.symm)) }

def updateChunkStatus (chunkID : String) (status : ChunkStatus) (db : Database) : Except DbError Database :=
  match h : db.chunks.find? chunkID with
  | none => .error .notFound
  | some row => .ok (db.setStatus row (mem_of_find? h) status)

theorem updateChunkStatus_rows {chunkID : String} {status : ChunkStatus}
    (h : updateChunkStatus chunkID status db = .ok db') (row : Chunk) (hrow : row ∈ db.chunks.rows) :
    ∃ row' ∈ db'.chunks.rows, row'.versionID = row.versionID ∧ row'.index = row.index ∧
      row'.hash = row.hash := by
  unfold updateChunkStatus at h
  split at h
  · cases h
  next old hold =>
    cases h
    by_cases hid : row.id = old.id
    · have heq : row = old := eq_of_key_eq hrow (mem_of_find? hold) hid
      exact ⟨{ old with status := status }, mem_put.mpr (.inl rfl), by rw [heq], by rw [heq],
        by rw [heq]⟩
    · exact ⟨row, mem_put.mpr (.inr ⟨hrow, hid⟩), rfl, rfl, rfl⟩

end Bib.Blob
