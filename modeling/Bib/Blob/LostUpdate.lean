import Bib.Blob.RefCount
import Bib.Blob.Threads
import Bib.Lib.Run

/-!
# Bib.Blob.LostUpdate

**Concurrent rewrites of one metadata file.** `Touch`, the deduplicated branch of `IngestChunk` and
`DeleteChunk` read the metadata of a blob, change it and write it back. Two more steps write without having
read: `Put` installs new metadata after its blob is visible, and an ingestion that finds no readable metadata
goes on without adding its reference.

`freshStep` asks that none of this meets a concurrent change, and that a `DeleteChunk` whose reference is gone
does not fail in its last step (`references_kept`). One step keeps what the disk
has (`Keeps`), and the invariant of runs follows from that alone.
-/

namespace Bib.Blob

open Bib.Lib Bib.Domain List

/-! ### References on disk -/

def diskReferences (store : LocalStore) (hash : String) : List Reference :=
  match store.metas.get? hash with
  | none => []
  | some metadata => metadata.references

theorem diskReferences_update (store : LocalStore) (hash : String) (metadata : Metadata)
    (hash' : String) : diskReferences (updateMetadata hash metadata store) hash' =
      if hash' = hash then metadata.references else diskReferences store hash' := by
  unfold diskReferences
  rw [updateMetadata_get?]
  by_cases heq : hash' = hash
  · simp [heq]
  · simp [heq]

theorem diskReferences_putMeta (cfg : LocalConfig) (now : Time) (hash : String) (size : Int)
    (metadata : Metadata) (store : LocalStore) (hash' : String) :
    diskReferences (putMeta cfg now hash size metadata store) hash' =
      if hash' = hash then metadata.references else diskReferences store hash' := by
  simp only [diskReferences, putMeta, updateMetadata, KeyMap.get?_set]
  by_cases heq : hash' = hash
  · simp [heq, completeMetadata]
  · simp [heq]

theorem diskReferences_removeMeta (store : LocalStore) (hash hash' : String) :
    diskReferences (removeMeta hash store) hash' =
      if hash' = hash then [] else diskReferences store hash' := by
  unfold diskReferences
  rw [(removeMeta_eq hash store).2.2]
  by_cases heq : hash' = hash
  · simp [heq]
  · simp [heq]

/-! ### Threads and the references they add or take away -/

/-- The chunk whose reference an ingestion has added, if it has not failed since. -/
def Thread.linked : Thread → Option Chunk
  | .ingest t =>
    match t.pc with
    | .stored | .done (.ok ()) => some t.chunk
    | _ => none
  | _ => none

/-- The hash and the reference that a call of `DeleteChunk` has taken away: it returned no error, or
only its status update is left. A call that returned an error has deleted nothing. -/
def Thread.unlinked : Thread → Option (String × Reference)
  | .delete t =>
    match t.pc with
    | .unlinked | .done (.ok ()) => some (t.chunk.hash, reference t.chunk)
    | _ => none
  | _ => none

theorem linked_of_ingested {u : Thread} {chunk : Chunk} (h : u.ingested = some chunk) : u.linked = some chunk := by
  unfold Thread.ingested at h
  split at h
  next t =>
    split at h
    next hpc =>
      simp only [Thread.linked, hpc]
      exact h
    next => cases h
  next => cases h

/-- The condition on a step: what is written back replaces nothing that was added since it was read,
and a `DeleteChunk` that has taken its reference away can update the status of its chunk. -/
def freshStep (w : World) (event : Event) : Bool :=
  match w.threads[event.thread]? with
  | some (.ingest t) =>
    match t.pc with
    -- the new metadata of a `Put` replaces none, or only this chunk's
    | .blobWritten => diskReferences w.sys.store t.chunk.hash ⊆ [reference t.chunk]
    -- a blob that was found has readable metadata
    | .found => (getMetadata t.chunk.hash w.sys.store).isOk
    | .read metadata => diskReferences w.sys.store t.chunk.hash ⊆ metadata.references
    | _ => true
  | some (.delete t) =>
    match t.pc with
    | .blobRemoved metadata | .updating metadata =>
      diskReferences w.sys.store t.chunk.hash ⊆ metadata.references
    | .unlinked => (updateChunkStatus t.chunk.id .failed w.sys.db).isOk
    | _ => true
  | some (.touch t) =>
    match t.pc with
    | .read metadata => diskReferences w.sys.store t.hash ⊆ metadata.references
    | _ => true
  | _ => true

/-- A step keeps the references on disk, but for the one it takes away, and an ingestion that
has added its reference has it on disk. -/
structure Keeps (sys sys' : System) (t t' : Thread) : Prop where
  disk : ∀ hash, ∀ ref ∈ diskReferences sys.store hash,
    ref ∈ diskReferences sys'.store hash ∨ t'.unlinked = some (hash, ref)
  linked : ∀ chunk, t'.linked = some chunk →
    t.linked = some chunk ∨ reference chunk ∈ diskReferences sys'.store chunk.hash
  unlinked : ∀ p, t.unlinked = some p → t'.unlinked = some p

/-! ### What one step keeps -/

section Keeps

variable {env : Env} {now : Time} {sys sys' : System} {t' t : Thread} {w : World} {event : Event}

theorem Keeps.quiet (hm : sys'.store.metas = sys.store.metas) (hl : t'.linked = none ∨ t'.linked = t.linked)
    (hu : t.unlinked = none ∨ t'.unlinked = t.unlinked) : Keeps sys sys' t t' := by
  have hd : ∀ hash, diskReferences sys'.store hash = diskReferences sys.store hash := by
    intro hash
    simp [diskReferences, hm]
  refine ⟨fun hash ref hr => .inl (hd hash ▸ hr), fun chunk hchunk => ?_, fun p hp => ?_⟩
  · rcases hl with hnone | hs
    · simp [hnone] at hchunk
    · exact .inl (hs ▸ hchunk)
  · rcases hu with hnone | hs
    · simp [hnone] at hp
    · exact hs ▸ hp

theorem Keeps.write {hash : String} {references : List Reference}
    (hd : ∀ hash', diskReferences sys'.store hash' =
      if hash' = hash then references else diskReferences sys.store hash')
    (hk : ∀ ref ∈ diskReferences sys.store hash, ref ∈ references ∨ t'.unlinked = some (hash, ref))
    (hl : ∀ chunk, t'.linked = some chunk → chunk.hash = hash ∧ reference chunk ∈ references)
    (hu : t.unlinked = none) : Keeps sys sys' t t' := by
  refine ⟨fun hash' ref hr => ?_, fun chunk hchunk => ?_, fun p hp => ?_⟩
  · rw [hd]
    by_cases heq : hash' = hash
    · rw [if_pos heq, heq]
      exact hk ref (heq ▸ hr)
    · rw [if_neg heq]
      exact .inl hr
  · obtain ⟨heq, hmem⟩ := hl chunk hchunk
    rw [hd, if_pos heq]
    exact .inr hmem
  · simp [hu] at hp

theorem ingest_keeps {t : IngestThread}
    (hg : w.threads[event.thread]? = some (.ingest t)) (hok : freshStep w event = true) :
    Keeps w.sys (t.step env now w.sys).2 (.ingest t) (.ingest (t.step env now w.sys).1) := by
  obtain ⟨chunk, data, nonce, pc⟩ := t
  simp only [freshStep, hg] at hok
  unfold IngestThread.step
  cases pc with
  | start =>
    dsimp only
    split
    · exact .quiet rfl (.inl rfl) (.inl rfl)
    · split <;> exact .quiet rfl (.inl rfl) (.inl rfl)
  | missing =>
    dsimp only
    split
    · exact .quiet rfl (.inl rfl) (.inl rfl)
    next store hput =>
      obtain ⟨-, -, content, -, rfl⟩ := putBlob_eq_ok.mp hput
      exact .quiet rfl (.inl rfl) (.inl rfl)
  | blobWritten =>
    refine .write (diskReferences_putMeta _ _ _ _ _ _) (fun ref hr => .inl ?_)
      (fun c hc => ?_) rfl
    · exact of_decide_eq_true hok hr
    · cases hc
      exact ⟨rfl, mem_singleton_self _⟩
  | found =>
    cases hm : getMetadata chunk.hash w.sys.store with
    | error error =>
      rw [hm] at hok
      cases hok
    | ok metadata =>
      dsimp only
      split
      next hmem =>
        refine ⟨fun _ _ hr => .inl hr, fun c hc => ?_, fun p hp => hp⟩
        cases hc
        simp [diskReferences, (getMetadata_eq_ok.mp hm).2, hmem]
      next => exact .quiet rfl (.inl rfl) (.inl rfl)
  | read metadata =>
    refine .write (diskReferences_update _ _ _) (fun ref hr => .inl ?_) (fun c hc => ?_) rfl
    · exact mem_addReference.mpr (.inr (of_decide_eq_true hok hr))
    · cases hc
      exact ⟨rfl, mem_addReference.mpr (.inl rfl)⟩
  | stored =>
    dsimp only
    split
    · exact .quiet rfl (.inl rfl) (.inl rfl)
    · exact .quiet rfl (.inr rfl) (.inl rfl)
  | done result => exact .quiet rfl (.inr rfl) (.inl rfl)

theorem touch_keeps {t : TouchThread}
    (hg : w.threads[event.thread]? = some (.touch t)) (hok : freshStep w event = true) :
    Keeps w.sys (t.step now w.sys).2 (.touch t) (.touch (t.step now w.sys).1) := by
  obtain ⟨hash, pc⟩ := t
  simp only [freshStep, hg] at hok
  unfold TouchThread.step
  cases pc with
  | start =>
    dsimp only
    split <;> exact .quiet rfl (.inl rfl) (.inl rfl)
  | read metadata =>
    refine .write (diskReferences_update _ _ _) (fun ref hr => .inl ?_) (fun c hc => ?_) rfl
    · exact of_decide_eq_true hok hr
    · cases hc
  | done => exact .quiet rfl (.inl rfl) (.inl rfl)

/-- A call of `DeleteChunk` that is going to remove the blob read no reference but its own. -/
def DeleteThread.Planned (t : DeleteThread) : Prop :=
  match t.pc with
  | .removing metadata | .blobRemoved metadata =>
    (metadata.removeReference (reference t.chunk)).references = []
  | _ => True

theorem delete_planned (t : DeleteThread) (sys : System) (h : t.Planned) : (t.step sys).1.Planned := by
  obtain ⟨chunk, pc⟩ := t
  unfold DeleteThread.step
  cases pc with
  | start =>
    dsimp only
    split
    · trivial
    · split
      next he => exact he
      next => trivial
  | removing metadata =>
    dsimp only
    split
    · trivial
    · exact h
  | unlinked =>
    dsimp only
    split <;> trivial
  | _ => trivial

theorem delete_keeps {t : DeleteThread}
    (hg : w.threads[event.thread]? = some (.delete t)) (hok : freshStep w event = true)
    (hp : t.Planned) : Keeps w.sys (t.step w.sys).2 (.delete t) (.delete (t.step w.sys).1) := by
  obtain ⟨chunk, pc⟩ := t
  simp only [freshStep, hg] at hok
  unfold DeleteThread.step
  cases pc with
  | start =>
    dsimp only
    split
    · exact .quiet rfl (.inl rfl) (.inl rfl)
    · split <;> exact .quiet rfl (.inl rfl) (.inl rfl)
  | removing metadata =>
    dsimp only
    split
    · exact .quiet rfl (.inl rfl) (.inl rfl)
    next store hb =>
      obtain ⟨-, file, -, rfl⟩ := removeBlob_eq_ok.mp hb
      exact .quiet rfl (.inl rfl) (.inl rfl)
  | blobRemoved metadata =>
    refine .write (diskReferences_removeMeta _ _) (fun ref hr => .inr ?_) (fun c hc => ?_) rfl
    · -- every reference on disk was read, and only this chunk's was
      have hmem : ref ∈ metadata.references := of_decide_eq_true hok hr
      have heq : ref = reference chunk := by
        by_contra hne
        have hleft := mem_removeReference.mpr ⟨hmem, hne⟩
        rw [show (metadata.removeReference (reference chunk)).references = [] from hp] at hleft
        cases hleft
      rw [heq]
      rfl
    · cases hc
  | updating metadata =>
    refine .write (diskReferences_update _ _ _) (fun ref hr => ?_) (fun c hc => ?_) rfl
    · by_cases heq : ref = reference chunk
      · rw [heq]
        exact .inr rfl
      · exact .inl (mem_removeReference.mpr ⟨of_decide_eq_true hok hr, heq⟩)
    · cases hc
  | unlinked =>
    cases hs : updateChunkStatus chunk.id .failed w.sys.db with
    | error error =>
      rw [hs] at hok
      cases hok
    | ok db => exact .quiet rfl (.inl rfl) (.inr rfl)
  | done result => exact .quiet rfl (.inl rfl) (.inr rfl)

end Keeps

/-! ### Runs -/

/-- No cycle runs, and every call of `DeleteChunk` is as planned. -/
def Thread.Planned : Thread → Prop
  | .delete t => t.Planned
  | .sweep _ => False
  | _ => True

/-- Every added reference is on disk, unless a call of `DeleteChunk` took it away. -/
structure RefInv (w : World) : Prop where
  planned : ∀ u ∈ w.threads, u.Planned
  linked : ∀ u ∈ w.threads, ∀ chunk, u.linked = some chunk →
    (∃ v ∈ w.threads, v.unlinked = some (chunk.hash, reference chunk)) ∨
      reference chunk ∈ diskReferences w.sys.store chunk.hash

theorem thread_keeps (env : Env) {w : World} {event : Event} {t : Thread}
    (hg : w.threads[event.thread]? = some t) (hok : freshStep w event = true) (hp : t.Planned) :
    (t.step env event.now w.sys).1.Planned ∧
      Keeps w.sys (t.step env event.now w.sys).2 t (t.step env event.now w.sys).1 := by
  cases t with
  | ingest t => exact ⟨trivial, ingest_keeps hg hok⟩
  | delete t => exact ⟨delete_planned t w.sys hp, delete_keeps hg hok hp⟩
  | touch t => exact ⟨trivial, touch_keeps hg hok⟩
  | sweep t => exact absurd hp id

theorem refInv_step {env : Env} {w : World} (h : RefInv w) {event : Event}
    (hok : freshStep w event = true) : RefInv (w.step env event) := by
  refine World.step_rule RefInv h fun t hg => ?_
  have ht : t ∈ w.threads := mem_of_getElem? hg
  obtain ⟨hp, hk⟩ := thread_keeps env hg hok (h.planned t ht)
  generalize t.step env event.now w.sys = result at hp hk ⊢
  obtain ⟨t', sys'⟩ := result
  have hnew : t' ∈ w.threads.set event.thread t' := List.mem_set (List.getElem?_eq_some_iff.mp hg).1 t'
  refine ⟨fun u hu => ?_, fun u hu chunk hchunk => ?_⟩
  · rcases mem_set_cases hu with rfl | hu
    · exact hp
    · exact h.planned u hu
  · -- the reference was on disk or taken away before, or the step has just added it
    have hb : reference chunk ∈ diskReferences sys'.store chunk.hash ∨
        (∃ v ∈ w.threads, v.unlinked = some (chunk.hash, reference chunk)) ∨
          reference chunk ∈ diskReferences w.sys.store chunk.hash := by
      rcases mem_set_cases hu with rfl | hold
      · rcases hk.linked chunk hchunk with hs | ha
        · exact .inr (h.linked t ht chunk hs)
        · exact .inl ha
      · exact .inr (h.linked u hold chunk hchunk)
    rcases hb with ha | ⟨v, hv, hgo⟩ | hd
    · exact .inr ha
    · obtain ⟨j, hj⟩ := mem_iff_getElem?.mp hv
      by_cases hi : event.thread = j
      · rw [← hi, hg] at hj
        cases hj
        exact .inl ⟨t', hnew, hk.unlinked _ hgo⟩
      · rw [← getElem?_set_ne hi] at hj
        exact .inl ⟨v, mem_of_getElem? hj, hgo⟩
    · rcases hk.disk chunk.hash _ hd with hke | hgo
      · exact .inr hke
      · exact .inl ⟨t', hnew, hgo⟩

inductive Call
  | ingest (chunk : Chunk) (data : Bytes) (nonce : Nonce)
  | delete (chunk : Chunk)
  | touch (hash : String)

def Call.thread : Call → Thread
  | .ingest chunk data nonce => .ingest ⟨chunk, data, nonce, .start⟩
  | .delete chunk => .delete ⟨chunk, .start⟩
  | .touch hash => .touch ⟨hash, .start⟩

def callWorld (calls : List Call) (sys : System) : World := { sys, threads := calls.map Call.thread }

theorem callWorld_refInv (calls : List Call) (sys : System) : RefInv (callWorld calls sys) := by
  refine ⟨fun u hu => ?_, fun u hu chunk hchunk => ?_⟩
  · obtain ⟨call, -, rfl⟩ := mem_map.mp hu
    cases call <;> trivial
  · obtain ⟨call, -, rfl⟩ := mem_map.mp hu
    cases call <;> cases hchunk

/-- In every state of a run in which no metadata is overwritten with out-of-date contents and no
`DeleteChunk` fails after it has taken its reference away, the references of the chunks ingested and
not deleted so far are on disk. -/
theorem references_kept (env : Env) (calls : List Call) (sys : System) (events : List Event)
    (hok : Run.AllSteps (World.step env) (fun w event => freshStep w event = true)
      (callWorld calls sys) events) (n : Nat) :
    ∀ u ∈ ((callWorld calls sys).run env (events.take n)).threads, ∀ chunk,
      u.ingested = some chunk → (∀ v ∈ ((callWorld calls sys).run env (events.take n)).threads,
        v.unlinked ≠ some (chunk.hash, reference chunk)) → reference chunk ∈
        diskReferences ((callWorld calls sys).run env (events.take n)).sys.store chunk.hash := by
  intro u hu chunk hi hk
  have hin := Run.invariant_of_allSteps RefInv (fun _ _ h hstep => refInv_step h hstep)
    (callWorld_refInv calls sys) hok n
  rcases hin.linked u hu chunk (linked_of_ingested hi) with ⟨v, hv, hg⟩ | hd
  · exact absurd hg (hk v hv)
  · exact hd

def secondChunk : Chunk := { sampleChunk with id := "c2", index := 1 }

/-- A `Touch` of the blob, the ingestion of a second chunk and the deletion of the first. -/
def sampleCalls : List Call :=
  [.touch sampleHash, .ingest secondChunk [7] zeroNonce, .delete sampleChunk]

/-- The ingestion checks, the touch runs, the ingestion goes on, the deletion runs. -/
def freshSchedule : List Event :=
  [⟨1, 1⟩, ⟨1, 0⟩, ⟨2, 0⟩, ⟨2, 1⟩, ⟨2, 1⟩, ⟨3, 1⟩, ⟨3, 2⟩, ⟨4, 2⟩, ⟨4, 2⟩]

theorem references_kept_sample :
    Run.AllSteps (World.step sampleEnv) (fun w event => freshStep w event = true)
        (callWorld sampleCalls ⟨sampleStore, sampleDb⟩) freshSchedule ∧
      reference secondChunk ∈ diskReferences ((callWorld sampleCalls ⟨sampleStore, sampleDb⟩).run
        sampleEnv (freshSchedule.take 9)).sys.store secondChunk.hash := by
  have hok : Run.AllSteps (World.step sampleEnv) (fun w event => freshStep w event = true)
      (callWorld sampleCalls ⟨sampleStore, sampleDb⟩) freshSchedule := by decide +kernel
  have hd : ∃ u ∈ ((callWorld sampleCalls ⟨sampleStore, sampleDb⟩).run sampleEnv
      (freshSchedule.take 9)).threads, u.ingested = some secondChunk := by decide +kernel
  have hk : ∀ v ∈ ((callWorld sampleCalls ⟨sampleStore, sampleDb⟩).run sampleEnv
      (freshSchedule.take 9)).threads,
      v.unlinked ≠ some (secondChunk.hash, reference secondChunk) := by decide +kernel
  obtain ⟨u, hu, hi⟩ := hd
  exact ⟨hok, references_kept _ _ _ _ hok 9 u hu secondChunk hi hk⟩

/-- The touch reads, the ingestion runs, the touch writes back what it read. -/
def staleSchedule : List Event :=
  [⟨1, 0⟩, ⟨2, 1⟩, ⟨2, 1⟩, ⟨2, 1⟩, ⟨2, 1⟩, ⟨3, 0⟩]

/-- Everything finishes, nothing is deleted, and the reference of the ingested chunk is lost. -/
theorem touch_loses_reference :
    let w := (callWorld [.touch sampleHash, .ingest secondChunk [7] zeroNonce]
      ⟨sampleStore, sampleDb⟩).run sampleEnv staleSchedule
    (∀ u ∈ w.threads, u.finished = true) ∧ (∃ u ∈ w.threads, u.ingested = some secondChunk) ∧
      (∀ v ∈ w.threads, v.unlinked = none) ∧
      reference secondChunk ∉ diskReferences w.sys.store secondChunk.hash := by
  decide +kernel

end Bib.Blob
