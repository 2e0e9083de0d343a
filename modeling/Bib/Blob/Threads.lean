import Bib.Blob.Gc

/-!
# Bib.Blob.Threads

**The blob code under concurrency.** `IngestChunk`, `DeleteChunk`, `Touch` and a mark-and-sweep cycle are cut at
the file and database operations that other goroutines can see between: each is a thread with a program counter.
Nothing takes a lock: the mutex of `LocalStore` only guards its counters. What a thread has read is kept in its
program counter, and may be out of date when it is written back.
-/

namespace Bib.Blob

open Bib.Lib Bib.Domain List

/-! ### Ingesting -/

inductive IngestPc
  | start
  /-- The check found no blob; `Put` follows. -/
  | missing
  /-- `Put` has renamed the temporary file; its metadata follows. -/
  | blobWritten
  /-- The check found the blob; its metadata is read next. -/
  | found
  /-- The metadata was read without this chunk's reference; the update follows. -/
  | read (metadata : Metadata)
  | stored
  | done (result : Except IngestError Unit)

structure IngestThread where
  chunk : Chunk
  data : Bytes
  nonce : Nonce
  pc : IngestPc

def IngestThread.step (env : Env) (now : Time) (t : IngestThread) (sys : System) : IngestThread × System :=
  match t.pc with
  | .start =>
    if env.sha256Hex t.data ≠ t.chunk.hash then
      ({ t with pc := .done (.error (.hashMismatch t.chunk.hash (env.sha256Hex t.data))) }, sys)
    else
      match existsBlob t.chunk.hash sys.store with
      | .error error => ({ t with pc := .done (.error (.checkExistence error)) }, sys)
      | .ok true => ({ t with pc := .found }, sys)
      | .ok false => ({ t with pc := .missing }, sys)
  | .missing =>
    match putBlob env.cfg env.codec now t.nonce t.chunk.hash t.data sys.store with
    | .error error => ({ t with pc := .done (.error (.storeBlob error)) }, sys)
    | .ok store => ({ t with pc := .blobWritten }, { sys with store })
  | .blobWritten =>
    ({ t with pc := .stored },
      { sys with store := putMeta env.cfg now t.chunk.hash t.data.length
                  (newMetadata t.chunk t.data.length) sys.store })
  | .found =>
    match getMetadata t.chunk.hash sys.store with
    | .error _ => ({ t with pc := .stored }, sys)
    | .ok metadata =>
      if reference t.chunk ∈ metadata.references then ({ t with pc := .stored }, sys)
      else ({ t with pc := .read metadata }, sys)
  | .read metadata =>
    ({ t with pc := .stored },
      { sys with store := updateMetadata t.chunk.hash (metadata.addReference (reference t.chunk))
                  sys.store })
  | .stored =>
    match createChunk (verifiedChunk t.chunk t.data.length) sys.db with
    | .error error => ({ t with pc := .done (.error (.storeChunk error)) }, sys)
    | .ok db => ({ t with pc := .done (.ok ()) }, { sys with db })
  | .done _ => (t, sys)

/-! ### Deleting -/

inductive DeletePc
  | start
  /-- No other reference was read; the blob is moved to the trash next. -/
  | removing (metadata : Metadata)
  /-- The blob is in the trash; its metadata follows. -/
  | blobRemoved (metadata : Metadata)
  /-- Other references were read; the metadata is written next. -/
  | updating (metadata : Metadata)
  /-- The reference is gone; the status update follows. -/
  | unlinked
  | done (result : Except IngestError Unit)

structure DeleteThread where
  chunk : Chunk
  pc : DeletePc

def DeleteThread.step (t : DeleteThread) (sys : System) : DeleteThread × System :=
  match t.pc with
  | .start =>
    match getMetadata t.chunk.hash sys.store with
    | .error error => ({ t with pc := .done (.error (.metadata error)) }, sys)
    | .ok metadata =>
      if (metadata.removeReference (reference t.chunk)).references = [] then
        ({ t with pc := .removing metadata }, sys)
      else ({ t with pc := .updating metadata }, sys)
  | .removing metadata =>
    match removeBlob t.chunk.hash sys.store with
    | .error error => ({ t with pc := .done (.error (.deleteBlob error)) }, sys)
    | .ok store => ({ t with pc := .blobRemoved metadata }, { sys with store })
  | .blobRemoved _ =>
    ({ t with pc := .unlinked }, { sys with store := removeMeta t.chunk.hash sys.store })
  | .updating metadata =>
    ({ t with pc := .unlinked },
      { sys with store := updateMetadata t.chunk.hash
                  (metadata.removeReference (reference t.chunk)) sys.store })
  | .unlinked =>
    match updateChunkStatus t.chunk.id .failed sys.db with
    | .error error => ({ t with pc := .done (.error (.status error)) }, sys)
    | .ok db => ({ t with pc := .done (.ok ()) }, { sys with db })
  | .done _ => (t, sys)

/-! ### Touching -/

inductive TouchPc
  | start
  | read (metadata : Metadata)
  | done

structure TouchThread where
  hash : String
  pc : TouchPc

def TouchThread.step (now : Time) (t : TouchThread) (sys : System) : TouchThread × System :=
  match t.pc with
  | .start =>
    match getMetadata t.hash sys.store with
    | .error _ => ({ t with pc := .done }, sys)
    | .ok metadata => ({ t with pc := .read metadata }, sys)
  | .read metadata =>
    ({ t with pc := .done },
      { sys with store := updateMetadata t.hash (metadata.touched now) sys.store })
  | .done => (t, sys)

/-! ### Mark-and-sweep -/

inductive SweepPc
  | start
  /-- The referenced hashes have been collected; the blobs are listed next. -/
  | marked (referenced : List String)
  /-- The candidates not yet collected. -/
  | sweeping (candidates : List BlobInfo)
  /-- The blob of a candidate is in the trash, its metadata follows; the candidates after it. -/
  | blobRemoved (info : BlobInfo) (candidates : List BlobInfo)
  | done

structure SweepThread where
  gc : GCConfig
  faults : DbFaults
  pc : SweepPc

def sweepCandidates (gc : GCConfig) (now : Time) (referenced : List String) (infos : List BlobInfo) : List BlobInfo :=
  infos.filter fun info => !(info.hash ∈ referenced || daysBefore now gc.minAgeDays < info.createdAt)

def SweepThread.step (now : Time) (t : SweepThread) (sys : System) : SweepThread × System :=
  match t.pc with
  | .start =>
    match markReferencedBlobs t.faults sys.db with
    | none => ({ t with pc := .done }, sys)
    | some referenced => ({ t with pc := .marked referenced }, sys)
  | .marked referenced =>
    ({ t with pc := .sweeping (sweepCandidates t.gc now referenced (list sys.store)) }, sys)
  | .sweeping [] => ({ t with pc := .done }, { sys with store := cleanupTrash t.gc now sys.store })
  | .sweeping (info :: rest) =>
    match removeBlob info.hash sys.store with
    | .error _ => ({ t with pc := .sweeping rest }, sys)
    | .ok store => ({ t with pc := .blobRemoved info rest }, { sys with store })
  | .blobRemoved info rest =>
    ({ t with pc := .sweeping rest }, { sys with store := removeMeta info.hash sys.store })
  | .done => (t, sys)

/-! ### Interleavings -/

inductive Thread
  | ingest (t : IngestThread)
  | delete (t : DeleteThread)
  | touch (t : TouchThread)
  | sweep (t : SweepThread)

def Thread.step (env : Env) (now : Time) (thread : Thread) (sys : System) : Thread × System :=
  match thread with
  | .ingest t => ((t.step env now sys).map .ingest id)
  | .delete t => ((t.step sys).map .delete id)
  | .touch t => ((t.step now sys).map .touch id)
  | .sweep t => ((t.step now sys).map .sweep id)

structure World where
  sys : System
  threads : List Thread

/-- One scheduled step: which thread moves, and what the clock says. -/
structure Event where
  now : Time
  thread : Nat

/-- The scheduled thread makes one step; a thread that has finished stays as it is. -/
def World.step (env : Env) (w : World) (event : Event) : World :=
  match w.threads[event.thread]? with
  | none => w
  | some thread =>
    let (thread, sys) := thread.step env event.now w.sys
    { sys, threads := w.threads.set event.thread thread }

def World.run (env : Env) (w : World) (events : List Event) : World := events.foldl (World.step env) w

theorem World.step_rule (P : World → Prop) {env : Env} {w : World} {event : Event} (h : P w)
    (hstep : ∀ thread, w.threads[event.thread]? = some thread →
      P { sys := (thread.step env event.now w.sys).2
          threads := w.threads.set event.thread (thread.step env event.now w.sys).1 }) :
    P (w.step env event) := by
  unfold World.step
  cases hg : w.threads[event.thread]? with
  | none => exact h
  | some thread => exact hstep thread hg

theorem mem_set_cases {threads : List Thread} {i : Nat} {new u : Thread}
    (h : u ∈ threads.set i new) : u = new ∨ u ∈ threads := by
  rcases mem_or_eq_of_mem_set h with hmem | heq
  · exact .inr hmem
  · exact .inl heq

/-! ### Results of threads -/

/-- The chunk of a call of `IngestChunk` that returned nil. -/
def Thread.ingested : Thread → Option Chunk
  | .ingest t =>
    match t.pc with
    | .done (.ok ()) => some t.chunk
    | _ => none
  | _ => none

def Thread.finished : Thread → Bool
  | .ingest t => match t.pc with | .done _ => true | _ => false
  | .delete t => match t.pc with | .done _ => true | _ => false
  | .touch t => match t.pc with | .done => true | _ => false
  | .sweep t => match t.pc with | .done => true | _ => false

end Bib.Blob
