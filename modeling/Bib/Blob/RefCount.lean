import Bib.Blob.Gc

/-!
# Bib.Blob.RefCount

**Reference counting over whole runs.** A run is a list of `IngestChunk`, `RetrieveChunk`, `DeleteChunk` and
`runReferenceCounting` operations that all succeed, on stores that start empty.

The invariant (`Inv`) ties the store to the live chunks, those ingested and not deleted since. Two chunks with
one hash have one content because no two ingested contents collide (`CollisionFree`). An operation changes the
files of one hash only, so each proof is about that hash (`Holds`); the others are covered by `Holds.frame`.
-/

namespace Bib.Blob

open Bib.Lib Bib.Domain List

/-! ### Runs -/

inductive Operation
  | ingest (now : Time) (nonce : Nonce) (chunk : Chunk) (data : Bytes)
  | retrieve (now : Time) (chunk : Chunk)
  | delete (chunk : Chunk)
  | collect (gc : GCConfig) (now : Time)

def perform (env : Env) (sys : System) : Operation → Option System
  | .ingest now nonce chunk data =>
    match ingestChunk env now nonce chunk data sys with
    | (.ok (), sys) => some sys
    | (.error _, _) => none
  | .retrieve now chunk =>
    match retrieveChunk env now chunk sys with
    | (.ok _, sys) => some sys
    | (.error _, _) => none
  | .delete chunk =>
    match deleteChunk chunk sys with
    | (.ok (), sys) => some sys
    | (.error _, _) => none
  | .collect gc now => some (runReferenceCounting gc now sys).2

variable {env : Env} {sys sys' : System} {now : Time} {nonce : Nonce} {chunk : Chunk} {data : Bytes}

theorem perform_ingest (h : perform env sys (.ingest now nonce chunk data) = some sys') :
    ingestChunk env now nonce chunk data sys = (.ok (), sys') := by
  simp only [perform] at h
  split at h
  next hop => cases h; exact hop
  next => cases h

theorem perform_delete
    (h : perform env sys (.delete chunk) = some sys') : deleteChunk chunk sys = (.ok (), sys') := by
  simp only [perform] at h
  split at h
  next hop => cases h; exact hop
  next => cases h

theorem perform_retrieve (h : perform env sys (.retrieve now chunk) = some sys') :
    sys' = (retrieveChunk env now chunk sys).2 := by
  simp only [perform] at h
  split at h
  next hop => cases h; rw [hop]
  next => cases h

def run (env : Env) : List Operation → System → Option System
  | [], sys => some sys
  | op :: ops, sys => (perform env sys op).bind (run env ops)

/-- The same chunk: hash and (dataset, version, index) triple agree. -/
def SameChunk (chunk chunk' : Chunk) : Prop :=
  chunk.hash = chunk'.hash ∧ reference chunk = reference chunk'

instance (chunk chunk' : Chunk) : Decidable (SameChunk chunk chunk') :=
  inferInstanceAs (Decidable (_ ∧ _))

/-- The live chunks, with the bytes they were ingested with, after one operation. -/
def liveAfter (live : List (Chunk × Bytes)) : Operation → List (Chunk × Bytes)
  | .ingest _ _ chunk data => live ++ [(chunk, data)]
  | .retrieve _ _ => live
  | .delete chunk => live.filter fun p => ¬ SameChunk p.1 chunk
  | .collect _ _ => live

/-- The chunks ingested and not yet deleted in a run. -/
def liveChunks (ops : List Operation) : List (Chunk × Bytes) := ops.foldl liveAfter []

def contents (ops : List Operation) : List Bytes :=
  ops.filterMap fun
    | .ingest _ _ _ data => some data
    | _ => none

/-- No two of the contents have the same hash. -/
def CollisionFree (env : Env) (datas : List Bytes) : Prop :=
  ∀ d ∈ datas, ∀ d' ∈ datas, env.sha256Hex d = env.sha256Hex d' → d = d'

/-! ### The invariant -/

/-- What relates the files of one hash to the live chunks. -/
structure Holds (env : Env) (store : LocalStore) (live : List (Chunk × Bytes)) (hash : String) : Prop where
  /-- The blob is present exactly if a live chunk has the hash, and under a valid name. -/
  blob : (store.blobs.get? hash).isSome = true ↔ ∃ p ∈ live, p.1.hash = hash
  valid : (store.blobs.get? hash).isSome = true → isValidHash hash = true
  content : ∀ p ∈ live, p.1.hash = hash → ∀ file, store.blobs.get? hash = some file →
    readData env.cfg env.codec file.content = .ok p.2
  /-- A blob has metadata, whose references are those of the live chunks. -/
  metadata : (store.metas.get? hash).isSome = (store.blobs.get? hash).isSome
  references : ∀ metadata, store.metas.get? hash = some metadata →
    ∀ ref, ref ∈ metadata.references ↔ ∃ p ∈ live, p.1.hash = hash ∧ reference p.1 = ref

structure Inv (env : Env) (datas : List Bytes) (sys : System) (live : List (Chunk × Bytes)) : Prop where
  /-- Live chunks carry the hash of their content. -/
  hash : ∀ p ∈ live, env.sha256Hex p.2 = p.1.hash ∧ p.2 ∈ datas
  /-- Different live chunks sit at different positions, all of which have a row. -/
  nodup : (live.map fun p => (p.1.versionID, p.1.index)).Nodup
  row : ∀ p ∈ live, ∃ row ∈ sys.db.chunks.rows, row.versionID = p.1.versionID ∧ row.index = p.1.index
  holds : ∀ hash, Holds env sys.store live hash

variable {datas : List Bytes} {live : List (Chunk × Bytes)}

theorem inv_initial (env : Env) (datas : List Bytes) (db : Database) :
    Inv env datas { store := .fresh, db := db.withoutChunks } [] := by
  refine ⟨by simp, by simp, by simp, fun hash => ?_⟩
  constructor <;> simp [LocalStore.fresh]

theorem Inv.congr (h : Inv env datas sys live) (hblobs : sys'.store.blobs = sys.store.blobs)
    (hsome : ∀ hash, (sys'.store.metas.get? hash).isSome = (sys.store.metas.get? hash).isSome)
    (hr : ∀ hash metadata', sys'.store.metas.get? hash = some metadata' →
      ∃ metadata, sys.store.metas.get? hash = some metadata ∧ metadata'.references = metadata.references)
    (hdb : sys'.db = sys.db) : Inv env datas sys' live where
  hash := h.hash
  nodup := h.nodup
  row := by rw [hdb]; exact h.row
  holds hash :=
    { blob := by rw [hblobs]; exact (h.holds hash).blob
      valid := by rw [hblobs]; exact (h.holds hash).valid
      content := by rw [hblobs]; exact (h.holds hash).content
      metadata := by rw [hsome, hblobs, (h.holds hash).metadata]
      references := fun metadata' hg => by
        obtain ⟨metadata, hold, heq⟩ := hr hash metadata' hg
        rw [heq]
        exact (h.holds hash).references metadata hold }

theorem Inv.references_ne_nil (h : Inv env datas sys live) {hash : String} {metadata : Metadata}
    (hg : sys.store.metas.get? hash = some metadata) : metadata.references ≠ [] := by
  have hsome : (sys.store.blobs.get? hash).isSome = true := by
    rw [← (h.holds hash).metadata, hg]
    rfl
  obtain ⟨p, hp, hh⟩ := (h.holds hash).blob.mp hsome
  exact ne_nil_of_mem (((h.holds hash).references metadata hg _).mpr ⟨p, hp, hh, rfl⟩)

/-! ### Retrieving -/

theorem inv_touch (h : Inv env datas sys live) (now : Time) (hash : String) :
    Inv env datas { sys with store := (touch now hash sys.store).toOption.getD sys.store } live := by
  unfold touch
  cases hg : getMetadata hash sys.store with
  | error error => exact h
  | ok metadata =>
    have hm := (getMetadata_eq_ok.mp hg).2
    refine h.congr rfl (fun hash' => ?_) (fun hash' metadata' hg' => ?_) rfl
    · change ((updateMetadata hash (metadata.touched now) sys.store).metas.get? hash').isSome = _
      rw [updateMetadata_get?]
      split
      next heq => rw [heq, hm]; rfl
      next => rfl
    · change (updateMetadata hash (metadata.touched now) sys.store).metas.get? hash' =
        some metadata' at hg'
      rw [updateMetadata_get?] at hg'
      by_cases heq : hash' = hash
      · rw [if_pos heq] at hg'
        cases hg'
        exact ⟨metadata, heq ▸ hm, rfl⟩
      · rw [if_neg heq] at hg'
        exact ⟨metadata', hg', rfl⟩

theorem inv_get (h : Inv env datas sys live) (now : Time) (hash : String) :
    Inv env datas { sys with store := (get env.cfg env.codec now hash sys.store).2 } live := by
  unfold get
  split
  · exact h
  · exact h
  · exact inv_touch h now hash

theorem inv_retrieve (h : Inv env datas sys live) {now : Time} {chunk : Chunk}
    (hop : perform env sys (.retrieve now chunk) = some sys') : Inv env datas sys' live := by
  rw [perform_retrieve hop, retrieveChunk_snd]
  exact inv_get h now chunk.hash

theorem Inv.retrieve (h : Inv env datas sys live) {p : Chunk × Bytes} (hp : p ∈ live) (now : Time) :
    (retrieveChunk env now p.1 sys).1 = .ok p.2 := by
  have hh := h.holds p.1.hash
  have hsome := hh.blob.mpr ⟨p, hp, rfl⟩
  obtain ⟨file, hf⟩ := Option.isSome_iff_exists.mp hsome
  have hread : readBlob env.cfg env.codec p.1.hash sys.store = .ok p.2 := by
    unfold readBlob
    rw [if_pos (hh.valid hsome), hf]
    exact hh.content p hp rfl file hf
  unfold retrieveChunk get
  rw [hread]

/-! ### One hash at a time

Every operation changes the files of one hash, and the live chunks with that hash. -/

theorem Holds.frame {store store' : LocalStore} {live' : List (Chunk × Bytes)} {hash : String}
    (h : Holds env store live hash) (hb : store'.blobs.get? hash = store.blobs.get? hash)
    (hm : store'.metas.get? hash = store.metas.get? hash)
    (hl : ∀ p : Chunk × Bytes, p.1.hash = hash → (p ∈ live' ↔ p ∈ live)) :
    Holds env store' live' hash where
  blob := by
    rw [hb, h.blob]
    exact exists_congr fun p => and_congr_left fun hh => (hl p hh).symm
  valid := by rw [hb]; exact h.valid
  content p hp hh file hf := h.content p ((hl p hh).mp hp) hh file (hb.symm.trans hf)
  metadata := by rw [hb, hm, h.metadata]
  references metadata hg ref := by
    rw [h.references metadata (hm.symm.trans hg)]
    exact exists_congr fun p => and_congr_left fun hc => (hl p hc.1).symm

/-! ### Ingesting -/

section Ingest

theorem mem_ingest_of_ne {hash : String} (hne : hash ≠ chunk.hash) (p : Chunk × Bytes)
    (hh : p.1.hash = hash) : p ∈ live ++ [(chunk, data)] ↔ p ∈ live := by
  have hp : p ≠ (chunk, data) := by
    intro heq
    rw [heq] at hh
    exact hne hh.symm
  simp [hp]

theorem exists_ingest_iff {ref : Reference} :
    (∃ p ∈ live ++ [(chunk, data)], p.1.hash = chunk.hash ∧ reference p.1 = ref) ↔
      ref = reference chunk ∨ ∃ p ∈ live, p.1.hash = chunk.hash ∧ reference p.1 = ref := by
  simp only [mem_append, mem_singleton, or_and_right, exists_or, exists_eq_left, true_and]
  rw [or_comm, eq_comm]

variable (h : Inv env datas sys live) (hfr : CollisionFree env datas) (hdata : data ∈ datas)
  (hs : env.sha256Hex data = chunk.hash)

include h hfr hdata hs

/-- Without collisions, chunks with the hash of the ingested one have its content. -/
theorem Inv.eq_data {p : Chunk × Bytes} (hp : p ∈ live ++ [(chunk, data)]) (hh : p.1.hash = chunk.hash) :
    p.2 = data := by
  rcases mem_append.mp hp with hp | hp
  · obtain ⟨hps, hpd⟩ := h.hash p hp
    exact hfr p.2 hpd data hdata (hps.trans (hh.trans hs.symm))
  · cases mem_singleton.mp hp
    rfl

theorem holds_addReference (hf : (sys.store.blobs.get? chunk.hash).isSome = true) (hash : String) :
    Holds env (addReference chunk.hash (reference chunk) sys.store) (live ++ [(chunk, data)]) hash := by
  have hold := h.holds chunk.hash
  have hvalid := hold.valid hf
  have hso : (sys.store.metas.get? chunk.hash).isSome = true := by
    rw [hold.metadata, hf]
  obtain ⟨metadata, hme⟩ := Option.isSome_iff_exists.mp hso
  obtain ⟨hblobs, hm⟩ := addReference_spec (reference chunk) (getMetadata_eq_ok.mpr ⟨hvalid, hme⟩)
  by_cases heq : hash = chunk.hash
  · subst heq
    refine ⟨?_, fun _ => hvalid, fun p hp hh file hfi => ?_, ?_, fun metadata' hg ref => ?_⟩
    · rw [hblobs]
      exact iff_of_true hf ⟨(chunk, data), by simp, rfl⟩
    · -- what is read back is the content of a chunk that was live before
      obtain ⟨q, hq, hqh⟩ := hold.blob.mp hf
      rw [h.eq_data hfr hdata hs hp hh, ← h.eq_data hfr hdata hs (mem_append_left _ hq) hqh]
      rw [hblobs] at hfi
      exact hold.content q hq hqh file hfi
    · rw [hm, if_pos rfl, hblobs, hf]
      rfl
    · rw [hm, if_pos rfl] at hg
      cases hg
      rw [mem_addReference, hold.references metadata hme]
      exact exists_ingest_iff.symm
  · exact (h.holds hash).frame (by rw [hblobs]) (by rw [hm, if_neg heq]) (mem_ingest_of_ne heq)

theorem holds_put (hl : env.codec.Lawful) {store : LocalStore}
    (hput : put env.cfg env.codec now nonce chunk.hash data (newMetadata chunk data.length) sys.store =
      .ok store) (hash : String) : Holds env store (live ++ [(chunk, data)]) hash := by
  obtain ⟨hvalid, hnone, content, hc, hblobs, hm⟩ := put_eq_ok hput
  by_cases heq : hash = chunk.hash
  · subst heq
    refine ⟨?_, fun _ => hvalid, fun p hp hh file hf => ?_, ?_, fun metadata' hg ref => ?_⟩
    · rw [hblobs, if_pos rfl]
      exact iff_of_true rfl ⟨(chunk, data), by simp, rfl⟩
    · rw [hblobs, if_pos rfl] at hf
      cases hf
      rw [h.eq_data hfr hdata hs hp hh]
      exact readData_processData hl hc
    · rw [hm, if_pos rfl, hblobs, if_pos rfl]
      rfl
    · rw [hm, if_pos rfl] at hg
      cases hg
      have hno : ¬ ∃ p ∈ live, p.1.hash = chunk.hash ∧ reference p.1 = ref := by
        rintro ⟨p, hp, hh, -⟩
        have hsome := (h.holds chunk.hash).blob.mpr ⟨p, hp, hh⟩
        rw [hnone] at hsome
        cases hsome
      rw [exists_ingest_iff]
      simp only [hno, or_false]
      exact mem_singleton
  · exact (h.holds hash).frame (by rw [hblobs, if_neg heq]) (by rw [hm, if_neg heq])
      (mem_ingest_of_ne heq)

theorem holds_storeBlob (hl : env.codec.Lawful) {store : LocalStore}
    (hst : storeBlob env now nonce chunk data sys.store = .ok store) (hash : String) :
    Holds env store (live ++ [(chunk, data)]) hash := by
  rcases storeBlob_eq_ok hst with ⟨hf, rfl⟩ | hput
  · exact holds_addReference h hfr hdata hs hf hash
  · exact holds_put h hfr hdata hs hl hput hash

end Ingest

theorem inv_ingest (hl : env.codec.Lawful) (hf : CollisionFree env datas)
    (h : Inv env datas sys live) (hdata : data ∈ datas)
    (hop : perform env sys (.ingest now nonce chunk data) = some sys') :
    Inv env datas sys' (live ++ [(chunk, data)]) := by
  obtain ⟨hs, store, db, hst, hc, rfl⟩ := ingestChunk_eq_ok (perform_ingest hop)
  obtain ⟨hin, rfl⟩ := createChunk_eq_ok hc
  refine ⟨fun p hp => ?_, ?_, fun p hp => ?_, holds_storeBlob h hf hdata hs hl hst⟩
  · rcases mem_append.mp hp with hp | hp
    · exact h.hash p hp
    · cases mem_singleton.mp hp
      exact ⟨hs, hdata⟩
  · -- the row of a live chunk at this position would have made the insertion fail
    rw [map_append, nodup_append]
    refine ⟨h.nodup, by simp, fun a ha b hb hab => ?_⟩
    obtain ⟨p, hp, rfl⟩ := mem_map.mp ha
    cases mem_singleton.mp hb
    obtain ⟨row, hrow, hversion, hindex⟩ := h.row p hp
    obtain ⟨hv, hi⟩ := Prod.mk.inj hab
    exact hin.position row hrow (hversion.trans hv) (hindex.trans hi)
  · rcases mem_append.mp hp with hp | hp
    · obtain ⟨row, hrow, hpo⟩ := h.row p hp
      exact ⟨row, (mem_insertChunk hin).mpr (.inr hrow), hpo⟩
    · cases mem_singleton.mp hp
      exact ⟨_, (mem_insertChunk hin).mpr (.inl rfl), rfl, rfl⟩

/-! ### Deleting -/

section Delete

variable {metadata : Metadata}

theorem mem_liveAfter_delete {p : Chunk × Bytes} :
    p ∈ liveAfter live (.delete chunk) ↔ p ∈ live ∧ ¬ SameChunk p.1 chunk := by
  simp [liveAfter]

theorem mem_delete_of_ne {hash : String} (hne : hash ≠ chunk.hash) (p : Chunk × Bytes)
    (hh : p.1.hash = hash) : p ∈ liveAfter live (.delete chunk) ↔ p ∈ live := by
  rw [mem_liveAfter_delete]
  exact and_iff_left fun hs => hne (hh.symm.trans hs.1)

variable (h : Inv env datas sys live) (hme : sys.store.metas.get? chunk.hash = some metadata)

include h hme

theorem Inv.removeReference (ref : Reference) :
    ref ∈ (metadata.removeReference (reference chunk)).references ↔
      ∃ p ∈ liveAfter live (.delete chunk), p.1.hash = chunk.hash ∧ reference p.1 = ref := by
  rw [mem_removeReference, (h.holds _).references _ hme]
  constructor
  · rintro ⟨⟨p, hp, hh, hr⟩, hne⟩
    refine ⟨p, mem_liveAfter_delete.mpr ⟨hp, fun hs => hne ?_⟩, hh, hr⟩
    rw [← hr, hs.2]
  · rintro ⟨p, hp, hh, hr⟩
    obtain ⟨hp, hd⟩ := mem_liveAfter_delete.mp hp
    exact ⟨⟨p, hp, hh, hr⟩, fun heq => hd ⟨hh, hr.trans heq⟩⟩

theorem holds_delete_last (hn : (metadata.removeReference (reference chunk)).references = []) {store : LocalStore}
    (hd : delete chunk.hash sys.store = .ok store) (hash : String) :
    Holds env store (liveAfter live (.delete chunk)) hash := by
  have hblobs := delete_get? hd hash
  have hm := delete_metas_get? hd hash
  by_cases heq : hash = chunk.hash
  · rw [if_pos heq] at hblobs hm
    have hnone : ¬ ∃ p ∈ liveAfter live (.delete chunk), p.1.hash = hash := by
      rintro ⟨p, hp, hh⟩
      have hmem := (h.removeReference hme (reference p.1)).mpr ⟨p, hp, hh.trans heq, rfl⟩
      rw [hn] at hmem
      cases hmem
    refine ⟨?_, fun hsome => ?_, fun p hp hh => absurd ⟨p, hp, hh⟩ hnone, ?_, fun metadata' hg => ?_⟩
    · rw [hblobs]
      exact iff_of_false nofun hnone
    · rw [hblobs] at hsome
      cases hsome
    · rw [hblobs, hm]
      rfl
    · rw [hm] at hg
      cases hg
  · rw [if_neg heq] at hblobs hm
    exact (h.holds hash).frame hblobs hm (mem_delete_of_ne heq)

theorem holds_delete_shared (hne : (metadata.removeReference (reference chunk)).references ≠ []) (hash : String) :
    Holds env (updateMetadata chunk.hash (metadata.removeReference (reference chunk)) sys.store)
      (liveAfter live (.delete chunk)) hash := by
  have hm := updateMetadata_get? chunk.hash (metadata.removeReference (reference chunk)) sys.store hash
  by_cases heq : hash = chunk.hash
  · subst heq
    rw [if_pos rfl] at hm
    have hsome : (sys.store.blobs.get? chunk.hash).isSome = true := by
      rw [← (h.holds _).metadata, hme]
      rfl
    obtain ⟨ref, hr⟩ := exists_mem_of_ne_nil _ hne
    obtain ⟨q, hq, hqh, -⟩ := (h.removeReference hme ref).mp hr
    refine ⟨iff_of_true hsome ⟨q, hq, hqh⟩, fun _ => (h.holds _).valid hsome,
      fun p hp => (h.holds chunk.hash).content p (mem_liveAfter_delete.mp hp).1, ?_,
      fun metadata' hg => ?_⟩
    · rw [hm]
      exact hsome.symm
    · rw [hm] at hg
      cases hg
      exact h.removeReference hme
  · rw [if_neg heq] at hm
    exact (h.holds hash).frame rfl hm (mem_delete_of_ne heq)

end Delete

theorem inv_delete (h : Inv env datas sys live) (hop : perform env sys (.delete chunk) = some sys') :
    Inv env datas sys' (liveAfter live (.delete chunk)) := by
  obtain ⟨metadata, store, db, hg, hc, hs, rfl⟩ := deleteChunk_eq_ok (perform_delete hop)
  have hm := (getMetadata_eq_ok.mp hg).2
  have hl : ∀ p ∈ liveAfter live (.delete chunk), p ∈ live := fun p hp => (mem_liveAfter_delete.mp hp).1
  refine ⟨fun p hp => h.hash p (hl p hp), h.nodup.sublist (filter_sublist.map _), fun p hp => ?_,
    fun hash => ?_⟩
  · -- the row keeps its position, only its status changes
    obtain ⟨row, hrow, hversion, hindex⟩ := h.row p (hl p hp)
    obtain ⟨row', hrow', hv', hi', -⟩ := updateChunkStatus_rows hs row hrow
    exact ⟨row', hrow', hv'.trans hversion, hi'.trans hindex⟩
  · rcases hc with ⟨hn, hd⟩ | ⟨hne, rfl⟩
    · exact holds_delete_last h hm hn hd hash
    · exact holds_delete_shared h hm hne hash

/-! ### Collecting -/

/-- Under the invariant every blob is referenced, so a cycle collects nothing. -/
theorem foldl_countOne (h : Inv env datas sys live) {minAge : Time} (infos : List BlobInfo)
    (stats : GCStats) : (infos.foldl (countOne minAge) (stats, sys.store)).2 = sys.store := by
  induction infos generalizing stats with
  | nil => rfl
  | cons info infos ih =>
    have hone : (countOne minAge (stats, sys.store) info).2 = sys.store := by
      unfold countOne
      cases hg : getMetadata info.hash sys.store with
      | error error => rfl
      | ok metadata =>
        dsimp only
        rw [if_pos (h.references_ne_nil (getMetadata_eq_ok.mp hg).2)]
    have heq : countOne minAge (stats, sys.store) info =
        ((countOne minAge (stats, sys.store) info).1, sys.store) := Prod.ext rfl hone
    rw [foldl_cons, heq]
    exact ih _

theorem inv_collect (h : Inv env datas sys live) (gc : GCConfig) (now : Time) :
    Inv env datas (runReferenceCounting gc now sys).2 live := by
  have hs : (runReferenceCounting gc now sys).2 =
      { sys with store := cleanupTrash gc now sys.store } := by
    unfold runReferenceCounting
    dsimp only
    rw [foldl_countOne h]
  rw [hs]
  exact h.congr rfl (fun _ => rfl) (fun _ metadata' hg => ⟨metadata', hg, rfl⟩) rfl

/-! ### Whole runs -/

theorem inv_perform (hl : env.codec.Lawful) (hf : CollisionFree env datas)
    (h : Inv env datas sys live) {op : Operation} (hd : ∀ d ∈ contents [op], d ∈ datas)
    (hop : perform env sys op = some sys') : Inv env datas sys' (liveAfter live op) := by
  cases op with
  | ingest now nonce chunk data => exact inv_ingest hl hf h (hd data (by simp [contents])) hop
  | retrieve now chunk => exact inv_retrieve h hop
  | delete chunk => exact inv_delete h hop
  | collect gc now =>
    cases hop
    exact inv_collect h gc now

theorem inv_run (hl : env.codec.Lawful) (hf : CollisionFree env datas)
    (h : Inv env datas sys live) {ops : List Operation} (hda : ∀ d ∈ contents ops, d ∈ datas)
    (hr : run env ops sys = some sys') : Inv env datas sys' (ops.foldl liveAfter live) := by
  induction ops generalizing sys live with
  | nil => cases hr; exact h
  | cons op ops ih =>
    obtain ⟨middle, hop, hrest⟩ := Option.bind_eq_some_iff.mp hr
    have hs : contents (op :: ops) = contents [op] ++ contents ops := by
      unfold contents
      rw [← filterMap_append]
      rfl
    rw [hs] at hda
    refine ih (inv_perform hl hf h ?_ hop) ?_ hrest
    · exact fun d hd => hda d (mem_append_left _ hd)
    · exact fun d hd => hda d (mem_append_right _ hd)

/-- **Reference-count safety.** After every run of successful operations, each live chunk
is retrievable with exactly the bytes it was ingested with, a blob is in the store iff a
live chunk has its hash, and different live chunks have different positions. -/
theorem refcount_safe {env : Env} (hlawful : env.codec.Lawful) (db : Database) {ops : List Operation}
    {sys : System} (hfree : CollisionFree env (contents ops))
    (hrun : run env ops { store := .fresh, db := db.withoutChunks } = some sys) :
    (∀ p ∈ liveChunks ops, ∀ now, (retrieveChunk env now p.1 sys).1 = .ok p.2) ∧
      (∀ hash, (sys.store.blobs.get? hash).isSome = true ↔ ∃ p ∈ liveChunks ops, p.1.hash = hash) ∧
      ((liveChunks ops).map fun p => (p.1.versionID, p.1.index)).Nodup := by
  have h := inv_run hlawful hfree (inv_initial env (contents ops) db) (fun _ hd => hd) hrun
  exact ⟨fun p hp now => h.retrieve hp now, fun hash => (h.holds hash).blob, h.nodup⟩

/-- Two chunks with the same content; the first one is deleted again. -/
def sampleOps : List Operation :=
  [.ingest 1 zeroNonce sampleChunk [7],
   .ingest 2 zeroNonce { sampleChunk with id := "c2", index := 1 } [7],
   .delete sampleChunk,
   .retrieve 3 { sampleChunk with id := "c2", index := 1 },
   .collect { minAgeDays := 0, trashRetentionDays := 30 } 4]

theorem refcount_safe_sample : ∃ sys,
    run sampleEnv sampleOps { store := .fresh, db := sampleDb.withoutChunks } = some sys ∧
      liveChunks sampleOps = [({ sampleChunk with id := "c2", index := 1 }, [7])] ∧
      (∀ p ∈ liveChunks sampleOps, ∀ now, (retrieveChunk sampleEnv now p.1 sys).1 = .ok p.2) ∧
      (∀ hash, (sys.store.blobs.get? hash).isSome = true ↔ ∃ p ∈ liveChunks sampleOps, p.1.hash = hash) ∧
      ((liveChunks sampleOps).map fun p => (p.1.versionID, p.1.index)).Nodup := by
  have hsome : (run sampleEnv sampleOps { store := .fresh, db := sampleDb.withoutChunks }).isSome =
      true := by decide +kernel
  obtain ⟨sys, hr⟩ := Option.isSome_iff_exists.mp hsome
  have hf : CollisionFree sampleEnv (contents sampleOps) := by
    intro d hd d' hd' _
    have hall : ∀ d ∈ contents sampleOps, d = [7] := by decide
    rw [hall d hd, hall d' hd']
  exact ⟨sys, hr, by decide +kernel, refcount_safe plainCodec_lawful sampleDb hf hr⟩

end Bib.Blob
