import Bib.Blob.RefCount
import Bib.Lib.Run

/-!
# Bib.Blob.IngestFaults

**Ingestion when calls fail.** `IngestChunk` is documented as "atomic handling of both blob storage and database
operations". Here every call it and `DeleteChunk` make may fail without effect (`Faults`); without faults both
are the functions of `Bib.Blob.Ingestion` (`ingestWith_noFaults`, `deleteWith_noFaults`).

Both change the blob store first and the database second, and nothing is undone, so what counts is whether the
database call succeeds (`ingestion_atomic_iff`).
-/

namespace Bib.Blob

open Bib.Lib Bib.Domain

/-! ### Calls that fail -/

/-- Which of the calls to the blob store and the database fail. -/
structure Faults where
  (existsFails putFails getMetadataFails updateMetadataFails deleteFails createChunkFails : Bool)
  updateStatusFails : Bool

def noFaults : Faults := ⟨false, false, false, false, false, false, false⟩

/-- Errors: those of the model without faults, and failures of the calls. -/
inductive FaultError
  | ordinary (error : IngestError)
  | checkExistence
  | storeBlob
  | metadata
  | updateMetadata
  | deleteBlob
  | storeChunk
  | status
  deriving DecidableEq

/-- The text in front of the cause; the last call of `DeleteChunk` passes its error on as it is. -/
def FaultError.message : FaultError → Option String
  | ordinary error => some error.message
  | checkExistence => some "failed to check blob existence"
  | storeBlob => some "failed to store blob"
  | metadata => some "failed to get blob metadata"
  | updateMetadata => some "failed to update blob metadata"
  | deleteBlob => some "failed to delete blob"
  | storeChunk => some "failed to store chunk metadata"
  | status => none

/-- The deduplicated branch of `IngestChunk`: failures are only logged. -/
def addReferenceWith (f : Faults) (hash : String) (ref : Reference) (store : LocalStore) : LocalStore :=
  if f.getMetadataFails then store
  else
    match getMetadata hash store with
    | .error _ => store
    | .ok metadata =>
      if ref ∈ metadata.references then store
      else if f.updateMetadataFails then store
      else updateMetadata hash (metadata.addReference ref) store

def storeBlobWith (f : Faults) (env : Env) (now : Time) (nonce : Nonce) (chunk : Chunk)
    (data : Bytes) (store : LocalStore) : Except FaultError LocalStore :=
  if f.existsFails then .error .checkExistence
  else
    match existsBlob chunk.hash store with
    | .error error => .error (.ordinary (.checkExistence error))
    | .ok true => .ok (addReferenceWith f chunk.hash (reference chunk) store)
    | .ok false =>
      if f.putFails then .error .storeBlob
      else
        match put env.cfg env.codec now nonce chunk.hash data (newMetadata chunk data.length)
            store with
        | .error error => .error (.ordinary (.storeBlob error))
        | .ok store => .ok store

def ingestWith (f : Faults) (env : Env) (now : Time) (nonce : Nonce) (chunk : Chunk)
    (data : Bytes) (sys : System) : Except FaultError Unit × System :=
  if env.sha256Hex data ≠ chunk.hash then
    (.error (.ordinary (.hashMismatch chunk.hash (env.sha256Hex data))), sys)
  else
    match storeBlobWith f env now nonce chunk data sys.store with
    | .error error => (.error error, sys)
    | .ok store =>
      if f.createChunkFails then (.error .storeChunk, { sys with store })
      else
        match createChunk (verifiedChunk chunk data.length) sys.db with
        | .error error => (.error (.ordinary (.storeChunk error)), { sys with store })
        | .ok db => (.ok (), { store, db })

/-- The blob part of `DeleteChunk`. -/
def dropReferenceWith (f : Faults) (chunk : Chunk) (store : LocalStore) : Except FaultError LocalStore :=
  if f.getMetadataFails then .error .metadata
  else
    match getMetadata chunk.hash store with
    | .error error => .error (.ordinary (.metadata error))
    | .ok metadata =>
      let updated := metadata.removeReference (reference chunk)
      if updated.references = [] then
        if f.deleteFails then .error .deleteBlob
        else
          match delete chunk.hash store with
          | .error error => .error (.ordinary (.deleteBlob error))
          | .ok store => .ok store
      else if f.updateMetadataFails then .error .updateMetadata
      else .ok (updateMetadata chunk.hash updated store)

def deleteWith (f : Faults) (chunk : Chunk) (sys : System) : Except FaultError Unit × System :=
  match dropReferenceWith f chunk sys.store with
  | .error error => (.error error, sys)
  | .ok store =>
    if f.updateStatusFails then (.error .status, { sys with store })
    else
      match updateChunkStatus chunk.id .failed sys.db with
      | .error error => (.error (.ordinary (.status error)), { sys with store })
      | .ok db => (.ok (), { store, db })

/-! ### Without faults -/

theorem storeBlobWith_noFaults (env : Env) (now : Time) (nonce : Nonce) (chunk : Chunk)
    (data : Bytes) (store : LocalStore) : storeBlobWith noFaults env now nonce chunk data store =
      (storeBlob env now nonce chunk data store).mapError .ordinary := by
  have ha : addReferenceWith noFaults chunk.hash (reference chunk) store =
      addReference chunk.hash (reference chunk) store := rfl
  simp only [storeBlobWith, storeBlob, ha]
  cases existsBlob chunk.hash store with
  | error error => rfl
  | ok found =>
    cases found with
    | true => rfl
    | false =>
      cases put env.cfg env.codec now nonce chunk.hash data (newMetadata chunk data.length) store <;>
        rfl

theorem ingestWith_noFaults (env : Env) (now : Time) (nonce : Nonce) (chunk : Chunk)
    (data : Bytes) (sys : System) : ingestWith noFaults env now nonce chunk data sys =
      ((ingestChunk env now nonce chunk data sys).1.mapError .ordinary,
        (ingestChunk env now nonce chunk data sys).2) := by
  simp only [ingestWith, ingestChunk, storeBlobWith_noFaults]
  split
  · rfl
  · cases storeBlob env now nonce chunk data sys.store with
    | error error => rfl
    | ok store =>
      cases createChunk (verifiedChunk chunk data.length) sys.db <;>
        simp [Except.mapError, noFaults]

theorem deleteWith_noFaults (chunk : Chunk) (sys : System) : deleteWith noFaults chunk sys =
      ((deleteChunk chunk sys).1.mapError .ordinary, (deleteChunk chunk sys).2) := by
  simp only [deleteWith, dropReferenceWith, deleteChunk, noFaults, Bool.false_eq_true, if_false]
  cases getMetadata chunk.hash sys.store with
  | error error => rfl
  | ok metadata =>
    by_cases hlast : (metadata.removeReference (reference chunk)).references = []
    · simp only [hlast, if_true]
      cases delete chunk.hash sys.store with
      | error error => rfl
      | ok store => cases updateChunkStatus chunk.id .failed sys.db <;> rfl
    · simp only [hlast, if_false]
      cases updateChunkStatus chunk.id .failed sys.db <;> rfl

/-! ### Runs -/

/-- A call with its inputs and the failures during it. -/
inductive IngestEvent
  | ingest (now : Time) (nonce : Nonce) (chunk : Chunk) (data : Bytes) (faults : Faults)
  | delete (chunk : Chunk) (faults : Faults)

def IngestEvent.perform (env : Env) (sys : System) : IngestEvent → Except FaultError Unit × System
  | .ingest now nonce chunk data faults => ingestWith faults env now nonce chunk data sys
  | .delete chunk faults => deleteWith faults chunk sys

def ingestStep (env : Env) (sys : System) (event : IngestEvent) : System := (event.perform env sys).2

def BlobsPresent (sys : System) : Prop :=
  ∀ row ∈ sys.db.chunks.rows, row.status = .verified → (sys.store.blobs.get? row.hash).isSome

structure SameStore (store store' : LocalStore) : Prop where
  blobs : ∀ hash, store'.blobs.get? hash = store.blobs.get? hash
  references : ∀ hash, (store'.metas.get? hash).map Metadata.references =
    (store.metas.get? hash).map Metadata.references

structure Unchanged (sys sys' : System) : Prop where
  rows : ∀ row, row.status = .verified → (row ∈ sys'.db.chunks.rows ↔ row ∈ sys.db.chunks.rows)
  store : SameStore sys.store sys'.store

/-- What is asked of a call: afterwards each verified row has its blob, and if the call returns an error
nothing has changed. -/
structure Atomic (env : Env) (sys : System) (event : IngestEvent) : Prop where
  present : BlobsPresent (ingestStep env sys event)
  unchanged : ∀ error, (event.perform env sys).1 = .error error →
    Unchanged sys (ingestStep env sys event)

/-! ### The condition -/

/-- `IngestChunk` changes the blob store: the blob is new and is put, or its reference is new and is
written. -/
def Stores (env : Env) (nonce : Nonce) (chunk : Chunk) (data : Bytes) (f : Faults) (store : LocalStore) : Prop :=
  f.existsFails = false ∧ isValidHash chunk.hash = true ∧
    (store.blobs.get? chunk.hash = none ∧ f.putFails = false ∧
        (∃ content, processData env.cfg env.codec nonce data = .ok content) ∨
      store.blobs.get? chunk.hash ≠ none ∧ f.getMetadataFails = false ∧
        f.updateMetadataFails = false ∧
        ∃ metadata, store.metas.get? chunk.hash = some metadata ∧ reference chunk ∉ metadata.references)

def Creatable (chunk : Chunk) (f : Faults) (db : Database) : Prop :=
  f.createChunkFails = false ∧ chunk.validate = .ok () ∧ Insertable chunk db

def Drops (chunk : Chunk) (f : Faults) (store : LocalStore) : Prop :=
  f.getMetadataFails = false ∧ f.deleteFails = false ∧ isValidHash chunk.hash = true ∧
    store.blobs.get? chunk.hash ≠ none ∧
    ∃ metadata, store.metas.get? chunk.hash = some metadata ∧
      ∀ ref ∈ metadata.references, ref = reference chunk

/-- `DeleteChunk` takes the reference of the chunk away and leaves others. -/
def Unlinks (chunk : Chunk) (f : Faults) (store : LocalStore) : Prop :=
  f.getMetadataFails = false ∧ f.updateMetadataFails = false ∧ isValidHash chunk.hash = true ∧
    ∃ metadata, store.metas.get? chunk.hash = some metadata ∧
      reference chunk ∈ metadata.references ∧ ∃ ref ∈ metadata.references, ref ≠ reference chunk

def Updatable (chunk : Chunk) (f : Faults) (db : Database) : Prop :=
  f.updateStatusFails = false ∧ db.chunks.find? chunk.id ≠ none

/-- The condition for a call: if it changes the blob store, its database call succeeds; and a blob that
it deletes belongs to no verified row but that of the chunk. -/
def Completes (env : Env) (sys : System) : IngestEvent → Prop
  | .ingest _ nonce chunk data f =>
    env.sha256Hex data = chunk.hash → Stores env nonce chunk data f sys.store → Creatable chunk f sys.db
  | .delete chunk f =>
    (Unlinks chunk f sys.store → Updatable chunk f sys.db) ∧
      (Drops chunk f sys.store → Updatable chunk f sys.db ∧
        ∀ row ∈ sys.db.chunks.rows, row.status = .verified → row.hash = chunk.hash → row.id = chunk.id)

/-! ### What the blob part of a call does -/

inductive StoreOutcome (stores : Prop) (hash : String) (store : LocalStore) :
    Except FaultError LocalStore → Prop
  | refused (error : FaultError) : ¬ stores → StoreOutcome stores hash store (.error error)
  | found : ¬ stores → (store.blobs.get? hash).isSome → StoreOutcome stores hash store (.ok store)
  | changed (store' : LocalStore) : stores → (store'.blobs.get? hash).isSome →
      (∀ hash', (store.blobs.get? hash').isSome → (store'.blobs.get? hash').isSome) →
      ¬ SameStore store store' → StoreOutcome stores hash store (.ok store')

section Store

variable {env : Env} {now : Time} {nonce : Nonce} {chunk : Chunk} {data : Bytes} {f : Faults}
  {store : LocalStore}

theorem addReference_ne (metadata : Metadata) {ref : Reference} (h : ref ∉ metadata.references) :
    (metadata.addReference ref).references ≠ metadata.references := by
  intro hs
  rw [← hs, mem_addReference] at h
  exact h (.inl rfl)

theorem not_sameStore_updateMetadata {hash : String} {metadata metadata' : Metadata}
    (hg : store.metas.get? hash = some metadata)
    (hne : metadata'.references ≠ metadata.references) :
    ¬ SameStore store (updateMetadata hash metadata' store) := by
  intro hs
  have hr := hs.references hash
  rw [updateMetadata_get?, if_pos rfl, hg] at hr
  exact hne (Option.some.inj hr)

theorem addReferenceWith_outcome (hexists : f.existsFails = false)
    (hvalid : isValidHash chunk.hash = true) (hsome : (store.blobs.get? chunk.hash).isSome) :
    StoreOutcome (Stores env nonce chunk data f store) chunk.hash store
      (.ok (addReferenceWith f chunk.hash (reference chunk) store)) := by
  have hp : store.blobs.get? chunk.hash ≠ none := Option.isSome_iff_ne_none.mp hsome
  have hstores : Stores env nonce chunk data f store ↔ f.getMetadataFails = false ∧
      f.updateMetadataFails = false ∧ ∃ metadata, store.metas.get? chunk.hash = some metadata ∧
        reference chunk ∉ metadata.references := by
    simp [Stores, hexists, hvalid, hp]
  rw [addReferenceWith]
  cases hread : f.getMetadataFails with
  | true => exact .found (by simp [hstores, hread]) hsome
  | false =>
    simp only [Bool.false_eq_true, if_false]
    cases hg : store.metas.get? chunk.hash with
    | none =>
      simp only [getMetadata, hvalid, if_true, hg]
      exact .found (by simp [hstores, hg]) hsome
    | some metadata =>
      simp only [getMetadata, hvalid, if_true, hg]
      split
      next hmem => exact .found (by simp [hstores, hg, hmem]) hsome
      next hmem =>
        cases hwrite : f.updateMetadataFails with
        | true => exact .found (by simp [hstores, hwrite]) hsome
        | false =>
          refine .changed _ (hstores.mpr ⟨hread, hwrite, metadata, hg, hmem⟩) hsome
            (fun hash' h => h) ?_
          exact not_sameStore_updateMetadata hg (addReference_ne metadata hmem)

theorem storeBlobWith_outcome (env : Env) (now : Time) (nonce : Nonce) (chunk : Chunk)
    (data : Bytes) (f : Faults) (store : LocalStore) :
    StoreOutcome (Stores env nonce chunk data f store) chunk.hash store
      (storeBlobWith f env now nonce chunk data store) := by
  rw [storeBlobWith]
  cases hexists : f.existsFails with
  | true => exact .refused _ (by simp [Stores, hexists])
  | false =>
    cases hvalid : isValidHash chunk.hash with
    | false =>
      simp only [existsBlob, hvalid, Bool.false_eq_true, if_false]
      exact .refused _ (by simp [Stores, hvalid])
    | true =>
      cases hfi : store.blobs.get? chunk.hash with
      | some file =>
        simp only [existsBlob, hvalid, if_true, hfi, Option.isSome_some]
        exact addReferenceWith_outcome hexists hvalid (by rw [hfi]; rfl)
      | none =>
        simp only [existsBlob, hvalid, if_true, hfi, Option.isSome_none]
        cases hf : f.putFails with
        | true => exact .refused _ (by simp [Stores, hfi, hf])
        | false =>
          cases hput : put env.cfg env.codec now nonce chunk.hash data
              (newMetadata chunk data.length) store with
          | error error =>
            refine .refused _ ?_
            rintro ⟨-, -, ⟨-, -, content, hc⟩ | ⟨hne, -⟩⟩
            · simp [put, putBlob, hvalid, hfi, hc] at hput
            · exact hne hfi
          | ok store' =>
            obtain ⟨-, -, content, hc, hblobs, -⟩ := put_eq_ok hput
            have hnew : store'.blobs.get? chunk.hash = some { content, modTime := now } := by
              rw [hblobs, if_pos rfl]
            refine .changed _ ⟨hexists, hvalid, .inl ⟨hfi, hf, content, hc⟩⟩
              (by rw [hnew]; rfl) ?_ ?_
            · intro hash' hsome
              rw [hblobs]
              split
              · rfl
              · exact hsome
            · intro hs
              have hold := hs.blobs chunk.hash
              rw [hnew, hfi] at hold
              cases hold

end Store

inductive DropOutcome (drops unlinks : Prop) (hash : String) (store : LocalStore) :
    Except FaultError LocalStore → Prop
  | refused (error : FaultError) : ¬ drops → ¬ unlinks →
      DropOutcome drops unlinks hash store (.error error)
  | kept (store' : LocalStore) : ¬ drops → ¬ unlinks → SameStore store store' →
      DropOutcome drops unlinks hash store (.ok store')
  | unlinked (store' : LocalStore) : ¬ drops → unlinks →
      (∀ hash', store'.blobs.get? hash' = store.blobs.get? hash') → ¬ SameStore store store' →
      DropOutcome drops unlinks hash store (.ok store')
  | dropped (store' : LocalStore) : drops → ¬ unlinks →
      (∀ hash', store'.blobs.get? hash' = if hash' = hash then none else store.blobs.get? hash') →
      ¬ SameStore store store' → DropOutcome drops unlinks hash store (.ok store')

section Drop

variable {chunk : Chunk} {f : Faults} {store : LocalStore} {metadata : Metadata}

theorem removeReference_eq_nil_iff (metadata : Metadata) (ref : Reference) :
    (metadata.removeReference ref).references = [] ↔ ∀ ref' ∈ metadata.references, ref' = ref := by
  simp [Metadata.removeReference, List.filter_eq_nil_iff]

theorem removeReference_eq_self_iff (metadata : Metadata) (ref : Reference) :
    (metadata.removeReference ref).references = metadata.references ↔
      ref ∉ metadata.references := by
  rw [Metadata.removeReference, List.filter_eq_self]
  constructor
  · intro hall hmem
    simpa using hall ref hmem
  · intro hmem ref' hr'
    refine decide_eq_true fun heq => ?_
    exact hmem (heq ▸ hr')

theorem drop_outcome (hread : f.getMetadataFails = false) (hvalid : isValidHash chunk.hash = true)
    (hg : store.metas.get? chunk.hash = some metadata)
    (hlast : ∀ ref ∈ metadata.references, ref = reference chunk) :
    DropOutcome (Drops chunk f store) (Unlinks chunk f store) chunk.hash store
      (if f.deleteFails then .error .deleteBlob
        else
          match delete chunk.hash store with
          | .error error => .error (.ordinary (.deleteBlob error))
          | .ok store => .ok store) := by
  have hdr : Drops chunk f store ↔
      f.deleteFails = false ∧ store.blobs.get? chunk.hash ≠ none := by
    simp only [Drops, hread, hvalid, hg, true_and, Option.some.injEq, exists_eq_left']
    tauto
  have hu : ¬ Unlinks chunk f store := by
    rintro ⟨-, -, -, metadata', hg', -, ref, hr, hne⟩
    rw [hg] at hg'
    cases hg'
    exact hne (hlast ref hr)
  cases hf : f.deleteFails with
  | true => exact .refused _ (by simp [hdr, hf]) hu
  | false =>
    have hok : (∃ store', delete chunk.hash store = .ok store') ↔
        isValidHash chunk.hash = true ∧ (store.blobs.get? chunk.hash).isSome = true :=
      delete_isOk_iff
    cases hdelete : delete chunk.hash store with
    | error error =>
      refine .refused _ ?_ hu
      intro hd
      obtain ⟨store', hs'⟩ := hok.mpr ⟨hvalid, Option.isSome_iff_ne_none.mpr (hdr.mp hd).2⟩
      rw [hdelete] at hs'
      cases hs'
    | ok store' =>
      have hsome := (hok.mp ⟨store', hdelete⟩).2
      have hne : store.blobs.get? chunk.hash ≠ none := Option.isSome_iff_ne_none.mp hsome
      refine .dropped _ (hdr.mpr ⟨hf, hne⟩) hu (delete_get? hdelete) ?_
      intro hsa
      have hold := hsa.blobs chunk.hash
      rw [delete_get? hdelete, if_pos rfl] at hold
      exact hne hold.symm

theorem dropReferenceWith_outcome (f : Faults) (chunk : Chunk) (store : LocalStore) :
    DropOutcome (Drops chunk f store) (Unlinks chunk f store) chunk.hash store
      (dropReferenceWith f chunk store) := by
  rw [dropReferenceWith]
  cases hread : f.getMetadataFails with
  | true => exact .refused _ (by simp [Drops, hread]) (by simp [Unlinks, hread])
  | false =>
    cases hvalid : isValidHash chunk.hash with
    | false =>
      simp only [getMetadata, hvalid, Bool.false_eq_true, if_false]
      exact .refused _ (by simp [Drops, hvalid]) (by simp [Unlinks, hvalid])
    | true =>
      cases hg : store.metas.get? chunk.hash with
      | none =>
        simp only [getMetadata, hvalid, if_true, hg]
        exact .refused _ (by simp [Drops, hg]) (by simp [Unlinks, hg])
      | some metadata =>
        simp only [getMetadata, hvalid, if_true, hg]
        by_cases hlast : (metadata.removeReference (reference chunk)).references = []
        · rw [if_pos hlast]
          exact drop_outcome hread hvalid hg ((removeReference_eq_nil_iff _ _).mp hlast)
        · rw [if_neg hlast]
          rw [removeReference_eq_nil_iff] at hlast
          have hd : ¬ Drops chunk f store := by
            rintro ⟨-, -, -, -, metadata', hg', hall⟩
            rw [hg] at hg'
            cases hg'
            exact hlast hall
          have hother : ∃ ref ∈ metadata.references, ref ≠ reference chunk := by
            simpa using hlast
          cases hwrite : f.updateMetadataFails with
          | true => exact .refused _ hd (by simp [Unlinks, hwrite])
          | false =>
            by_cases hmem : reference chunk ∈ metadata.references
            · refine .unlinked _ hd ⟨hread, hwrite, hvalid, metadata, hg, hmem, hother⟩
                (fun _ => rfl) (not_sameStore_updateMetadata hg ?_)
              rw [Ne, removeReference_eq_self_iff]
              exact not_not.mpr hmem
            · refine .kept _ hd ?_ ⟨fun _ => rfl, ?_⟩
              · rintro ⟨-, -, -, metadata', hg', hmem', -⟩
                rw [hg] at hg'
                cases hg'
                exact hmem hmem'
              · intro hash'
                rw [updateMetadata_get?]
                split
                next heq =>
                  rw [heq, hg, Option.map_some, Option.map_some,
                    (removeReference_eq_self_iff _ _).mpr hmem]
                · rfl

end Drop

/-! ### What the database part of a call does -/

section Rows

variable {chunk : Chunk} {db db' : Database}

theorem createChunk_verified_iff (size : Nat) :
    (∃ db', createChunk (verifiedChunk chunk size) db = .ok db') ↔
      chunk.validate = .ok () ∧ Insertable chunk db := by
  have hv : (verifiedChunk chunk size).validate = chunk.validate := rfl
  have hi : Insertable (verifiedChunk chunk size) db ↔ Insertable chunk db :=
    ⟨fun h => ⟨h.id, h.position, h.dataset, h.version⟩,
      fun h => ⟨h.id, h.position, h.dataset, h.version⟩⟩
  have hs : ¬ (verifiedChunk chunk size).size < 0 := Int.not_lt.mpr (Int.natCast_nonneg size)
  rw [createChunk, hv, ← hi]
  cases chunk.validate with
  | error error => simp
  | ok result =>
    by_cases hin : Insertable (verifiedChunk chunk size) db
    · simp [hin, hs]
    · simp [hin]

theorem verified_of_createChunk {size : Nat}
    (h : createChunk (verifiedChunk chunk size) db = .ok db') {row : Chunk}
    (hrow : row ∈ db'.chunks.rows) : row.hash = chunk.hash ∨ row ∈ db.chunks.rows := by
  obtain ⟨hi, rfl⟩ := createChunk_eq_ok h
  rcases (mem_insertChunk hi).mp hrow with rfl | hrow
  · exact .inl rfl
  · exact .inr hrow

theorem updateChunkStatus_isOk_iff (chunkID : String) (status : ChunkStatus) :
    (∃ db', updateChunkStatus chunkID status db = .ok db') ↔ db.chunks.find? chunkID ≠ none := by
  unfold updateChunkStatus
  split
  next hnone => simp [hnone]
  next row hf => simp [hf]

theorem verified_of_updateChunkStatus (h : updateChunkStatus chunk.id .failed db = .ok db')
    {row : Chunk} (hv : row.status = .verified) :
    row ∈ db'.chunks.rows ↔ row ∈ db.chunks.rows ∧ row.id ≠ chunk.id := by
  unfold updateChunkStatus at h
  split at h
  · cases h
  next old hold =>
    cases h
    have hid : old.id = chunk.id := Table.key_of_find? hold
    show row ∈ (db.chunks.put { old with status := .failed }).rows ↔ _
    rw [Table.mem_put]
    constructor
    · rintro (rfl | ⟨hrow, hne⟩)
      · cases hv
      · exact ⟨hrow, fun heq => hne (heq.trans hid.symm)⟩
    · rintro ⟨hrow, hne⟩
      exact .inr ⟨hrow, fun heq => hne (heq.trans hid)⟩

end Rows

/-! ### The condition is exact -/

section Exact

variable {env : Env} {sys : System}

theorem Unchanged.refl (sys : System) : Unchanged sys sys :=
  ⟨fun _ _ => Iff.rfl, ⟨fun _ => rfl, fun _ => rfl⟩⟩

variable {event : IngestEvent} {error : FaultError} {store : LocalStore} {chunk : Chunk} {f : Faults}
  {db : Database}

theorem atomic_iff_of_perform {result : Except FaultError Unit} {sys' : System}
    (h : event.perform env sys = (result, sys')) : Atomic env sys event ↔
      BlobsPresent sys' ∧ ∀ error, result = .error error → Unchanged sys sys' := by
  have hstep : ingestStep env sys event = sys' := by rw [ingestStep, h]
  constructor
  · rintro ⟨hp, hu⟩
    rw [hstep, h] at hu
    rw [hstep] at hp
    exact ⟨hp, hu⟩
  · rintro ⟨hp, hu⟩
    refine ⟨by rwa [hstep], ?_⟩
    rw [hstep, h]
    exact hu

theorem atomic_iff_of_ok {sys' : System} (h : event.perform env sys = (.ok (), sys')) :
    Atomic env sys event ↔ BlobsPresent sys' := by
  rw [atomic_iff_of_perform h]
  exact and_iff_left fun _ he => nomatch he

theorem atomic_of_refused (h : event.perform env sys = (.error error, sys)) (hs : BlobsPresent sys) :
    Atomic env sys event :=
  (atomic_iff_of_perform h).mpr ⟨hs, fun _ _ => .refl sys⟩

theorem not_atomic_of_halfway (h : event.perform env sys = (.error error, { sys with store }))
    (hc : ¬ SameStore sys.store store) : ¬ Atomic env sys event := by
  rw [atomic_iff_of_perform h]
  rintro ⟨-, hu⟩
  exact hc (hu error rfl).store

theorem ingest_perform {now : Time} {nonce : Nonce} {data : Bytes} (hs : env.sha256Hex data = chunk.hash)
    (hst : storeBlobWith f env now nonce chunk data sys.store = .ok store) :
    (Creatable chunk f sys.db ∧ ∃ db, createChunk (verifiedChunk chunk data.length) sys.db = .ok db ∧
        (IngestEvent.ingest now nonce chunk data f).perform env sys = (.ok (), { store, db })) ∨
      (¬ Creatable chunk f sys.db ∧ ∃ error,
        (IngestEvent.ingest now nonce chunk data f).perform env sys =
          (.error error, { sys with store })) := by
  have hi : (∃ db, createChunk (verifiedChunk chunk data.length) sys.db = .ok db) ↔ _ :=
    createChunk_verified_iff data.length
  simp only [IngestEvent.perform, ingestWith, hs, ne_eq, not_true_eq_false, if_false, hst]
  cases hf : f.createChunkFails with
  | true => exact .inr ⟨by simp [Creatable, hf], .storeChunk, rfl⟩
  | false =>
    rw [Creatable, hf, ← hi]
    cases hc : createChunk (verifiedChunk chunk data.length) sys.db with
    | error error => exact .inr ⟨by simp, .ordinary (.storeChunk error), rfl⟩
    | ok db => exact .inl ⟨⟨rfl, db, rfl⟩, db, rfl, rfl⟩

theorem blobsPresent_of_createChunk {size : Nat}
    (hs : BlobsPresent sys) (hsome : (store.blobs.get? chunk.hash).isSome)
    (hk : ∀ hash, (sys.store.blobs.get? hash).isSome → (store.blobs.get? hash).isSome)
    (hc : createChunk (verifiedChunk chunk size) sys.db = .ok db) : BlobsPresent { store, db } := by
  intro row hrow hv
  rcases verified_of_createChunk hc hrow with hh | hold
  · rw [hh]
    exact hsome
  · exact hk row.hash (hs row hold hv)

theorem atomic_ingest_iff (hsy : BlobsPresent sys) (now : Time) (nonce : Nonce) (chunk : Chunk)
    (data : Bytes) (f : Faults) : Atomic env sys (.ingest now nonce chunk data f) ↔
      Completes env sys (.ingest now nonce chunk data f) := by
  by_cases hs : env.sha256Hex data = chunk.hash
  · have ho := storeBlobWith_outcome env now nonce chunk data f sys.store
    simp only [Completes, hs, true_implies]
    generalize hr : storeBlobWith f env now nonce chunk data sys.store = result at ho
    cases ho with
    | refused error hn =>
      have hp : (IngestEvent.ingest now nonce chunk data f).perform env sys =
          (.error error, sys) := by
        simp [IngestEvent.perform, ingestWith, hs, hr]
      simp only [hn, false_implies, iff_true]
      exact atomic_of_refused hp hsy
    | found hn hsome =>
      simp only [hn, false_implies, iff_true]
      rcases ingest_perform hs hr with ⟨-, db, hce, hp⟩ | ⟨-, error, hp⟩
      · exact (atomic_iff_of_ok hp).mpr
          (blobsPresent_of_createChunk hsy hsome (fun _ h => h) hce)
      · exact atomic_of_refused hp hsy
    | changed store' hstores hsome hk hc =>
      simp only [hstores, true_implies]
      rcases ingest_perform hs hr with
        ⟨hcr, db, hce, hp⟩ | ⟨hn, error, hp⟩
      · simp only [hcr, iff_true]
        exact (atomic_iff_of_ok hp).mpr (blobsPresent_of_createChunk hsy hsome hk hce)
      · simp only [hn, iff_false]
        exact not_atomic_of_halfway hp hc
  · have hp : (IngestEvent.ingest now nonce chunk data f).perform env sys =
        (.error (.ordinary (.hashMismatch chunk.hash (env.sha256Hex data))), sys) := by
      simp [IngestEvent.perform, ingestWith, hs]
    simp only [Completes, hs, false_implies, iff_true]
    exact atomic_of_refused hp hsy

theorem delete_perform (hs : dropReferenceWith f chunk sys.store = .ok store) :
    (Updatable chunk f sys.db ∧ ∃ db, updateChunkStatus chunk.id .failed sys.db = .ok db ∧
        (IngestEvent.delete chunk f).perform env sys = (.ok (), { store, db })) ∨
      (¬ Updatable chunk f sys.db ∧ ∃ error,
        (IngestEvent.delete chunk f).perform env sys = (.error error, { sys with store })) := by
  have hi : (∃ db, updateChunkStatus chunk.id .failed sys.db = .ok db) ↔ _ :=
    updateChunkStatus_isOk_iff chunk.id .failed
  simp only [IngestEvent.perform, deleteWith, hs]
  cases hf : f.updateStatusFails with
  | true => exact .inr ⟨by simp [Updatable, hf], .status, rfl⟩
  | false =>
    rw [Updatable, hf, ← hi]
    cases hu : updateChunkStatus chunk.id .failed sys.db with
    | error error => exact .inr ⟨by simp, .ordinary (.status error), rfl⟩
    | ok db => exact .inl ⟨⟨rfl, db, rfl⟩, db, rfl, rfl⟩

/-- After a blob is deleted, each verified row has its blob exactly if no other row needed it. -/
theorem blobsPresent_of_dropped (hs : BlobsPresent sys) (hblobs : ∀ hash, store.blobs.get? hash =
      if hash = chunk.hash then none else sys.store.blobs.get? hash)
    (hu : updateChunkStatus chunk.id .failed sys.db = .ok db) :
    BlobsPresent { store, db } ↔ ∀ row ∈ sys.db.chunks.rows, row.status = .verified →
      row.hash = chunk.hash → row.id = chunk.id := by
  constructor
  · intro hp row hrow hv hh
    by_contra hid
    have hsome : (store.blobs.get? row.hash).isSome :=
      hp row ((verified_of_updateChunkStatus hu hv).mpr ⟨hrow, hid⟩) hv
    rw [hblobs, if_pos hh] at hsome
    cases hsome
  · intro hr row hrow hv
    obtain ⟨hold, hid⟩ := (verified_of_updateChunkStatus hu hv).mp hrow
    have hh : row.hash ≠ chunk.hash := fun hh => hid (hr row hold hv hh)
    rw [hblobs, if_neg hh]
    exact hs row hold hv

theorem blobsPresent_of_kept
    (hs : BlobsPresent sys) (hblobs : ∀ hash, store.blobs.get? hash = sys.store.blobs.get? hash)
    (hu : updateChunkStatus chunk.id .failed sys.db = .ok db) : BlobsPresent { store, db } := by
  intro row hrow hv
  obtain ⟨hold, -⟩ := (verified_of_updateChunkStatus hu hv).mp hrow
  rw [hblobs]
  exact hs row hold hv

theorem atomic_delete_iff (hs : BlobsPresent sys) (chunk : Chunk) (f : Faults) :
    Atomic env sys (.delete chunk f) ↔ Completes env sys (.delete chunk f) := by
  have ho := dropReferenceWith_outcome f chunk sys.store
  simp only [Completes]
  generalize hr : dropReferenceWith f chunk sys.store = result at ho
  cases ho with
  | refused error hd hu =>
    have hp : (IngestEvent.delete chunk f).perform env sys = (.error error, sys) := by
      simp [IngestEvent.perform, deleteWith, hr]
    simp only [hd, hu, false_implies, and_self, iff_true]
    exact atomic_of_refused hp hs
  | kept store' hd hu hsa =>
    simp only [hd, hu, false_implies, and_self, iff_true]
    rcases delete_perform hr with ⟨-, db, hud, hp⟩ | ⟨-, error, hp⟩
    · exact (atomic_iff_of_ok hp).mpr (blobsPresent_of_kept hs hsa.blobs hud)
    · rw [atomic_iff_of_perform hp]
      refine ⟨?_, fun _ _ => ⟨fun _ _ => Iff.rfl, hsa⟩⟩
      intro row hrow hv
      rw [hsa.blobs]
      exact hs row hrow hv
  | unlinked store' hd hu hblobs hc =>
    simp only [hd, hu, false_implies, true_implies, and_true]
    rcases delete_perform hr with ⟨hup, db, hud, hp⟩ | ⟨hn, error, hp⟩
    · simp only [hup, iff_true]
      exact (atomic_iff_of_ok hp).mpr (blobsPresent_of_kept hs hblobs hud)
    · simp only [hn, iff_false]
      exact not_atomic_of_halfway hp hc
  | dropped store' hd hu hblobs hc =>
    simp only [hd, hu, false_implies, true_implies, true_and]
    rcases delete_perform hr with ⟨hup, db, hud, hp⟩ | ⟨hn, error, hp⟩
    · simp only [hup, true_and]
      rw [atomic_iff_of_ok hp, blobsPresent_of_dropped hs hblobs hud]
    · simp only [hn, false_and, iff_false]
      exact not_atomic_of_halfway hp hc

theorem atomic_step_iff (hs : BlobsPresent sys) (event : IngestEvent) :
    Atomic env sys event ↔ Completes env sys event := by
  cases event with
  | ingest now nonce chunk data faults => exact atomic_ingest_iff hs now nonce chunk data faults
  | delete chunk faults => exact atomic_delete_iff hs chunk faults

end Exact

/-- In a run from a state in which each verified row has its blob, every call is atomic exactly if every
call meets its condition. -/
theorem ingestion_atomic_iff (env : Env) (sys : System) (hsys : BlobsPresent sys)
    (events : List IngestEvent) : Run.AllSteps (ingestStep env) (Atomic env) sys events ↔
      Run.AllSteps (ingestStep env) (Completes env) sys events :=
  Run.allSteps_congr BlobsPresent (fun _ event hsys => atomic_step_iff hsys event)
    (fun _ _ _ ha => ha.present) hsys

def emptySystem : System := { store := .fresh, db := sampleDb.withoutChunks }

theorem emptySystem_blobsPresent : BlobsPresent emptySystem := by
  intro row hrow
  cases hrow

theorem ingestion_atomic_iff_empty : BlobsPresent emptySystem ∧
    (Run.AllSteps (ingestStep sampleEnv) (Atomic sampleEnv) emptySystem
        [.ingest 1 zeroNonce sampleChunk [7] noFaults, .delete sampleChunk noFaults] ↔
      Run.AllSteps (ingestStep sampleEnv) (Completes sampleEnv) emptySystem
        [.ingest 1 zeroNonce sampleChunk [7] noFaults, .delete sampleChunk noFaults]) :=
  ⟨emptySystem_blobsPresent, ingestion_atomic_iff sampleEnv emptySystem emptySystem_blobsPresent _⟩

/-- The insertion of the row fails and the call returns an error, but the blob stays. And after a
reference that could not be written, deleting the first chunk takes the blob from the second. -/
theorem failed_call_leaves_blob : BlobsPresent emptySystem ∧
      (let failing := IngestEvent.ingest 1 zeroNonce sampleChunk [7]
        { noFaults with createChunkFails := true }
      (failing.perform sampleEnv emptySystem).1 = .error .storeChunk ∧
        emptySystem.store.blobs.get? sampleHash = none ∧
        ((ingestStep sampleEnv emptySystem failing).store.blobs.get? sampleHash).isSome = true) ∧
      ¬ BlobsPresent ([.ingest 1 zeroNonce sampleChunk [7] noFaults,
        .ingest 2 zeroNonce { sampleChunk with id := "c2", index := 1 } [7]
          { noFaults with updateMetadataFails := true },
        .delete sampleChunk noFaults].foldl (ingestStep sampleEnv) emptySystem) := by
  refine ⟨emptySystem_blobsPresent, ⟨by decide +kernel, rfl, by decide +kernel⟩, ?_⟩
  intro hp
  have hsome := hp { sampleChunk with id := "c2", index := 1 } (by decide +kernel) rfl
  revert hsome
  decide +kernel

end Bib.Blob
