import Bib.Blob.Database
import Bib.Blob.LocalStore

/-!
# Bib.Blob.Ingestion

**Chunks between the blob store and the database** (`blob/ingestion.go`): `ingestChunk`,
`retrieveChunk` and `deleteChunk` on a store and a database, run without interruption.

The content hash `sha256Hex` is a parameter: nothing here depends on more than it being
a function. Audit calls only observe (their errors are dropped) and are left out.
-/

namespace Bib.Blob

open Bib.Lib Bib.Domain

structure Env where
  cfg : LocalConfig
  codec : Codec
  /-- `hex.EncodeToString(sha256.Sum256(data))`. -/
  sha256Hex : Bytes → String

structure System where
  store : LocalStore
  db : Database

inductive IngestError
  | hashMismatch (expected got : String)
  | checkExistence (error : BlobError)
  | storeBlob (error : BlobError)
  | storeChunk (error : DbError)
  | retrieve (error : BlobError)
  | metadata (error : BlobError)
  | deleteBlob (error : BlobError)
  | status (error : DbError)
  deriving DecidableEq

def IngestError.message : IngestError → String
  | hashMismatch expected got => s!"chunk hash mismatch: expected {expected}, got {got}"
  | checkExistence error => s!"failed to check blob existence: {error.message}"
  | storeBlob error => s!"failed to store blob: {error.message}"
  | storeChunk error => s!"failed to store chunk metadata: {error.message}"
  | retrieve error => s!"failed to retrieve blob: {error.message}"
  | metadata error => s!"failed to get blob metadata: {error.message}"
  | deleteBlob error => s!"failed to delete blob: {error.message}"
  | status error => error.message

def reference (chunk : Chunk) : Reference :=
  { datasetID := chunk.datasetID, versionID := chunk.versionID, chunkIndex := chunk.index }

def newMetadata (chunk : Chunk) (size : Int) : Metadata :=
  { hash := chunk.hash
    size := size
    createdAt := 0
    lastAccessed := 0
    accessCount := 0
    references := [reference chunk]
    compression := .none
    encryption := .none
    tags := []
    originalHash := "" }

def Metadata.addReference (metadata : Metadata) (ref : Reference) : Metadata :=
  if ref ∈ metadata.references then metadata
  else { metadata with references := metadata.references ++ [ref] }

def Metadata.removeReference (metadata : Metadata) (ref : Reference) : Metadata :=
  { metadata with references := metadata.references.filter (· ≠ ref) }

/-- The deduplicated branch of `IngestChunk`: failures to read the metadata are only
logged, and nothing is written if the reference is there already. -/
def addReference (hash : String) (ref : Reference) (store : LocalStore) : LocalStore :=
  match getMetadata hash store with
  | .error _ => store
  | .ok metadata =>
    if ref ∈ metadata.references then store
    else updateMetadata hash (metadata.addReference ref) store

def verifiedChunk (chunk : Chunk) (size : Int) : Chunk :=
  { chunk with size := size, status := .verified }

/-- The blob part of `IngestChunk`: store the blob, or add a reference to it. -/
def storeBlob (env : Env) (now : Time) (nonce : Nonce) (chunk : Chunk) (data : Bytes)
    (store : LocalStore) : Except IngestError LocalStore :=
  match existsBlob chunk.hash store with
  | .error error => .error (.checkExistence error)
  | .ok true => .ok (addReference chunk.hash (reference chunk) store)
  | .ok false =>
    match put env.cfg env.codec now nonce chunk.hash data (newMetadata chunk data.length) store with
    | .error error => .error (.storeBlob error)
    | .ok store => .ok store

def ingestChunk (env : Env) (now : Time) (nonce : Nonce) (chunk : Chunk) (data : Bytes)
    (sys : System) : Except IngestError Unit × System :=
  if env.sha256Hex data ≠ chunk.hash then
    (.error (.hashMismatch chunk.hash (env.sha256Hex data)), sys)
  else
    match storeBlob env now nonce chunk data sys.store with
    | .error error => (.error error, sys)
    | .ok store =>
      match createChunk (verifiedChunk chunk data.length) sys.db with
      | .error error => (.error (.storeChunk error), { sys with store })
      | .ok db => (.ok (), { store, db })

/-- `Ingestion.RetrieveChunk`, with the `Touch` it starts run to the end. -/
def retrieveChunk (env : Env) (now : Time) (chunk : Chunk) (sys : System) : Except IngestError Bytes × System :=
  match get env.cfg env.codec now chunk.hash sys.store with
  | (.error error, store) => (.error (.retrieve error), { sys with store })
  | (.ok data, store) => (.ok data, { sys with store })

def deleteChunk (chunk : Chunk) (sys : System) : Except IngestError Unit × System :=
  match getMetadata chunk.hash sys.store with
  | .error error => (.error (.metadata error), sys)
  | .ok metadata =>
    let updated := metadata.removeReference (reference chunk)
    let result : Except IngestError LocalStore :=
      if updated.references = [] then
        match delete chunk.hash sys.store with
        | .error error => .error (.deleteBlob error)
        | .ok store => .ok store
      else .ok (updateMetadata chunk.hash updated sys.store)
    match result with
    | .error error => (.error error, sys)
    | .ok store =>
      match updateChunkStatus chunk.id .failed sys.db with
      | .error error => (.error (.status error), { sys with store })
      | .ok db => (.ok (), { store, db })

/-! ### References -/

variable {metadata : Metadata} {ref ref' : Reference} {env : Env} {now : Time} {nonce : Nonce}
  {chunk : Chunk} {data : Bytes} {sys sys' : System}

theorem mem_addReference :
    ref' ∈ (metadata.addReference ref).references ↔ ref' = ref ∨ ref' ∈ metadata.references := by
  unfold Metadata.addReference
  split
  next h =>
    constructor
    · exact .inr
    · intro hmem
      rcases hmem with rfl | hmem
      · exact h
      · exact hmem
  next h => rw [List.mem_append, List.mem_singleton, or_comm]

theorem mem_removeReference : ref' ∈ (metadata.removeReference ref).references ↔
      ref' ∈ metadata.references ∧ ref' ≠ ref := by
  simp [Metadata.removeReference]

theorem addReference_spec {hash : String} (ref : Reference) {store : LocalStore}
    {metadata : Metadata} (h : getMetadata hash store = .ok metadata) :
    (addReference hash ref store).blobs = store.blobs ∧
      ∀ hash', (addReference hash ref store).metas.get? hash' =
        if hash' = hash then some (metadata.addReference ref) else store.metas.get? hash' := by
  unfold addReference
  rw [h]
  dsimp only
  split
  next hmem =>
    refine ⟨rfl, fun hash' => ?_⟩
    by_cases heq : hash' = hash
    · rw [if_pos heq, heq, (getMetadata_eq_ok.mp h).2, Metadata.addReference, if_pos hmem]
    · rw [if_neg heq]
  next hmem => exact ⟨rfl, updateMetadata_get? _ _ _⟩

/-! ### What successful calls did -/

theorem storeBlob_eq_ok {store store' : LocalStore} (h : storeBlob env now nonce chunk data store = .ok store') :
    (store.blobs.get? chunk.hash).isSome = true ∧
        store' = addReference chunk.hash (reference chunk) store ∨
      put env.cfg env.codec now nonce chunk.hash data (newMetadata chunk data.length) store =
        .ok store' := by
  unfold storeBlob at h
  split at h
  · cases h
  next hexists =>
    cases h
    exact .inl ⟨(existsBlob_eq_ok.mp hexists).2, rfl⟩
  next hexists =>
    split at h
    · cases h
    next stored hput =>
      cases h
      exact .inr hput

theorem ingestChunk_eq_ok (h : ingestChunk env now nonce chunk data sys = (.ok (), sys')) :
    env.sha256Hex data = chunk.hash ∧ ∃ store db,
      storeBlob env now nonce chunk data sys.store = .ok store ∧
      createChunk (verifiedChunk chunk data.length) sys.db = .ok db ∧ sys' = { store, db } := by
  unfold ingestChunk at h
  split at h
  · cases h
  next hs =>
    split at h
    · cases h
    next store hst =>
      split at h
      · cases h
      next db hdb =>
        cases h
        exact ⟨not_not.mp hs, store, db, hst, hdb, rfl⟩

theorem deleteChunk_eq_ok (h : deleteChunk chunk sys = (.ok (), sys')) :
    ∃ metadata store db, getMetadata chunk.hash sys.store = .ok metadata ∧
      ((metadata.removeReference (reference chunk)).references = [] ∧
          delete chunk.hash sys.store = .ok store ∨
        (metadata.removeReference (reference chunk)).references ≠ [] ∧
          store = updateMetadata chunk.hash (metadata.removeReference (reference chunk)) sys.store) ∧
      updateChunkStatus chunk.id .failed sys.db = .ok db ∧ sys' = { store, db } := by
  unfold deleteChunk at h
  split at h
  · cases h
  next metadata hm =>
    dsimp only at h
    split at h
    · cases h
    next store hr =>
      split at h
      · cases h
      next db hdb =>
        cases h
        refine ⟨metadata, store, db, hm, ?_, hdb, rfl⟩
        split at hr
        next hn =>
          split at hr
          · cases hr
          next store' hd =>
            cases hr
            exact .inl ⟨hn, hd⟩
        next hne =>
          cases hr
          exact .inr ⟨hne, rfl⟩

theorem retrieveChunk_snd : (retrieveChunk env now chunk sys).2 =
      { sys with store := (get env.cfg env.codec now chunk.hash sys.store).2 } := by
  unfold retrieveChunk
  split <;> simp_all

end Bib.Blob
