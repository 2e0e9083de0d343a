import Bib.Blob.Ingestion

/-!
# Bib.Blob.Gc

**Garbage collection** (`blob/gc.go`): the mark-and-sweep and reference-counting collectors, and what the first
one may delete. Marking walks datasets, versions and chunks, and skips a dataset or version whose query fails
(`DbFaults`). `collected_iff` states exactly which blobs a cycle moves to the trash.
-/

namespace Bib.Blob

open Bib.Lib Bib.Domain List

/-- `GCConfig`: the fields the collector reads. -/
structure GCConfig where
  (minAgeDays trashRetentionDays : Int)

structure GCStats where
  (blobsScanned blobsMarked blobsCollected bytesFreed : Int)

/-- Which database queries fail during a cycle. -/
structure DbFaults where
  list : Bool
  (listVersions listChunks : String → Bool)

def DbFaults.none : DbFaults :=
  { list := false, listVersions := fun _ => false, listChunks := fun _ => false }

/-- `AddDate(0, 0, -days)` on a UTC time. -/
def daysBefore (now : Time) (days : Int) : Time := now - days * 86400000000000

/-! ### Marking -/

/-- The hashes of the chunks of one version, if `ListChunks` succeeds. -/
def markVersion (faults : DbFaults) (db : Database) (version : DatasetVersion) : List String :=
  if faults.listChunks version.id then []
  else (listChunks version.id db).map Chunk.hash

/-- The hashes of one dataset, if `ListVersions` succeeds. -/
def markDataset (faults : DbFaults) (db : Database) (datasetID : String) : List String :=
  if faults.listVersions datasetID then []
  else (listVersions datasetID db).flatMap (markVersion faults db)

/-- `markReferencedBlobs`: the keys of the returned map. -/
def markReferencedBlobs (faults : DbFaults) (db : Database) : Option (List String) :=
  if faults.list then none
  else some ((listDatasets db).flatMap (markDataset faults db))

/-- The collector reaches the row: neither of the two queries on its path fails. -/
def Reached (faults : DbFaults) (db : Database) (chunk : Chunk) : Prop :=
  ∃ version ∈ db.versions.rows, version.id = chunk.versionID ∧
    faults.listVersions version.datasetID = false ∧ faults.listChunks version.id = false

variable {faults : DbFaults} {hash : String}

/-- A hash is marked exactly when it is the hash of a row the collector reaches. -/
theorem mem_mark_iff {db : Database} : hash ∈ (listDatasets db).flatMap (markDataset faults db) ↔
      ∃ chunk ∈ db.chunks.rows, chunk.hash = hash ∧ Reached faults db chunk := by
  rw [mem_flatMap]
  constructor
  · rintro ⟨datasetID, -, hmem⟩
    unfold markDataset at hmem
    split at hmem
    · cases hmem
    next hv =>
      obtain ⟨version, hversion, hmem⟩ := mem_flatMap.mp hmem
      obtain ⟨hversion, hdataset⟩ := mem_filter.mp hversion
      unfold markVersion at hmem
      split at hmem
      · cases hmem
      next hc =>
        obtain ⟨chunk, hchunk, rfl⟩ := mem_map.mp hmem
        obtain ⟨hchunk, hid⟩ := mem_filter.mp hchunk
        refine ⟨chunk, hchunk, rfl, version, hversion, (of_decide_eq_true hid).symm, ?_, ?_⟩
        · rw [of_decide_eq_true hdataset]
          exact Bool.eq_false_iff.mpr hv
        · exact Bool.eq_false_iff.mpr hc
  · rintro ⟨chunk, hchunk, rfl, version, hversion, hid, hv, hc⟩
    refine ⟨version.datasetID, db.datasetOfVersion version hversion, ?_⟩
    unfold markDataset
    rw [if_neg (Bool.eq_false_iff.mp hv), mem_flatMap]
    refine ⟨version, mem_filter.mpr ⟨hversion, decide_eq_true rfl⟩, ?_⟩
    unfold markVersion
    rw [if_neg (Bool.eq_false_iff.mp hc)]
    exact mem_map_of_mem (mem_filter.mpr ⟨hchunk, decide_eq_true hid.symm⟩)

/-! ### Sweeping -/

/-- `cleanupTrash`: drop trash files older than the retention period. Metadata files in
the trash keep their own time, which no other function reads. -/
def cleanupTrash (gc : GCConfig) (now : Time) (store : LocalStore) : LocalStore :=
  { store with
    trash :=
      { rows := store.trash.rows.filter fun p =>
          ¬ p.2.modTime < daysBefore now gc.trashRetentionDays
        nodup := store.trash.nodup.sublist (List.filter_sublist.map Prod.fst) } }

/-- One candidate of the sweep: `collectBlob`, whose failure is only logged. -/
def sweepOne (skip : BlobInfo → Bool) (acc : GCStats × LocalStore) (info : BlobInfo) : GCStats × LocalStore :=
  if skip info then acc
  else
    match delete info.hash acc.2 with
    | .error _ => acc
    | .ok store =>
      ({ acc.1 with
          blobsCollected := acc.1.blobsCollected + 1
          bytesFreed := acc.1.bytesFreed + info.size }, store)

def runMarkAndSweep (gc : GCConfig) (faults : DbFaults) (now : Time) (sys : System) : Option GCStats × System :=
  match markReferencedBlobs faults sys.db with
  | none => (none, sys)
  | some referenced =>
    let infos := list sys.store
    let minAge := daysBefore now gc.minAgeDays
    let stats : GCStats :=
      { blobsScanned := infos.length
        blobsMarked := referenced.dedup.length
        blobsCollected := 0
        bytesFreed := 0 }
    let result := infos.foldl
      (sweepOne fun info => info.hash ∈ referenced || minAge < info.createdAt) (stats, sys.store)
    (some result.1, { sys with store := cleanupTrash gc now result.2 })

/-- One blob of the reference-counting collector: the metadata is read again. -/
def countOne (minAge : Time) (acc : GCStats × LocalStore) (info : BlobInfo) : GCStats × LocalStore :=
  match getMetadata info.hash acc.2 with
  | .error _ => acc
  | .ok metadata =>
    if metadata.references ≠ [] then
      ({ acc.1 with blobsMarked := acc.1.blobsMarked + 1 }, acc.2)
    else if minAge < metadata.createdAt then acc
    else
      match delete info.hash acc.2 with
      | .error _ => acc
      | .ok store =>
        ({ acc.1 with
            blobsCollected := acc.1.blobsCollected + 1
            bytesFreed := acc.1.bytesFreed + info.size }, store)

def runReferenceCounting (gc : GCConfig) (now : Time) (sys : System) : GCStats × System :=
  let infos := list sys.store
  let minAge := daysBefore now gc.minAgeDays
  let stats : GCStats :=
    { blobsScanned := infos.length, blobsMarked := 0, blobsCollected := 0, bytesFreed := 0 }
  let result := infos.foldl (countOne minAge) (stats, sys.store)
  (result.1, { sys with store := cleanupTrash gc now result.2 })

/-! ### Which blobs a sweep removes -/

/-- A sweep removes exactly the listed blobs it does not skip. -/
theorem sweep_get? {skip : BlobInfo → Bool} {infos : List BlobInfo} {acc : GCStats × LocalStore}
    (hvalid : ∀ info ∈ infos, isValidHash info.hash = true) (hash : String) :
    (infos.foldl (sweepOne skip) acc).2.blobs.get? hash =
      if ∃ info ∈ infos, info.hash = hash ∧ skip info = false then none
      else acc.2.blobs.get? hash := by
  induction infos generalizing acc with
  | nil => simp
  | cons info infos ih =>
    have hrest : ∀ i ∈ infos, isValidHash i.hash = true := fun i hi => hvalid i (mem_cons_of_mem info hi)
    -- one candidate
    have hone : (sweepOne skip acc info).2.blobs.get? hash =
        if info.hash = hash ∧ skip info = false then none else acc.2.blobs.get? hash := by
      unfold sweepOne
      cases hs : skip info with
      | true => simp
      | false =>
        cases hd : delete info.hash acc.2 with
        | ok store =>
          simp only [Bool.false_eq_true, if_false, and_true]
          rw [delete_get? hd]
          simp only [eq_comm]
        | error error =>
          simp only [Bool.false_eq_true, if_false, and_true]
          by_cases heq : info.hash = hash
          · rw [if_pos heq, ← heq]
            cases hg : acc.2.blobs.get? info.hash with
            | none => rfl
            | some file =>
              obtain ⟨store, hok⟩ := delete_isOk_iff.mpr
                ⟨hvalid info mem_cons_self, by rw [hg]; rfl⟩
              rw [hd] at hok
              cases hok
          · rw [if_neg heq]
    rw [foldl_cons, ih hrest, hone]
    by_cases hmem : ∃ i ∈ infos, i.hash = hash ∧ skip i = false
    · obtain ⟨i, hi, hc⟩ := hmem
      rw [if_pos ⟨i, hi, hc⟩, if_pos ⟨i, mem_cons_of_mem info hi, hc⟩]
    · rw [if_neg hmem]
      by_cases hh : info.hash = hash ∧ skip info = false
      · rw [if_pos hh, if_pos ⟨info, mem_cons_self, hh⟩]
      · rw [if_neg hh, if_neg]
        rintro ⟨i, hi, hc⟩
        rcases mem_cons.mp hi with rfl | hi
        · exact hh hc
        · exact hmem ⟨i, hi, hc⟩

/-! ### Safety of mark-and-sweep -/

/-- The cycle moves the blob to the trash. -/
def Collects (gc : GCConfig) (faults : DbFaults) (now : Time) (sys : System) (hash : String) : Prop :=
  (sys.store.blobs.get? hash).isSome = true ∧
    ((runMarkAndSweep gc faults now sys).2.store.blobs.get? hash).isSome = false

/-- Some chunk row of a dataset version has this hash. -/
def Referenced (db : Database) (hash : String) : Prop := ∃ chunk ∈ db.chunks.rows, chunk.hash = hash

/-- The blob is in the store with readable metadata and has reached the minimum age. -/
def Expired (gc : GCConfig) (now : Time) (store : LocalStore) (hash : String) : Prop :=
  (store.blobs.get? hash).isSome = true ∧
    ∃ metadata, getMetadata hash store = .ok metadata ∧ metadata.createdAt ≤ daysBefore now gc.minAgeDays

/-- **What a cycle collects**: expired blobs that no reached row refers to. -/
theorem collected_iff {gc : GCConfig} {now : Time} {sys : System} :
    Collects gc faults now sys hash ↔ faults.list = false ∧ Expired gc now sys.store hash ∧
      ¬ ∃ chunk ∈ sys.db.chunks.rows, chunk.hash = hash ∧ Reached faults sys.db chunk := by
  unfold Collects runMarkAndSweep markReferencedBlobs
  by_cases hl : faults.list = true
  · rw [if_pos hl]
    constructor
    · rintro ⟨hsome, hgo⟩
      rw [hsome] at hgo
      cases hgo
    · rintro ⟨hok, -⟩
      rw [hl] at hok
      cases hok
  · rw [if_neg hl]
    have hvalid : ∀ info ∈ list sys.store, isValidHash info.hash = true := by
      intro info hinfo
      obtain ⟨-, metadata, hg, -⟩ := mem_list.mp hinfo
      exact (getMetadata_eq_ok.mp hg).1
    dsimp only [cleanupTrash]
    rw [sweep_get? hvalid]
    have hc : (∃ info ∈ list sys.store, info.hash = hash ∧
        (decide (info.hash ∈ (listDatasets sys.db).flatMap (markDataset faults sys.db)) ||
          decide (daysBefore now gc.minAgeDays < info.createdAt)) = false) ↔
        Expired gc now sys.store hash ∧
          ¬ ∃ chunk ∈ sys.db.chunks.rows, chunk.hash = hash ∧ Reached faults sys.db chunk := by
      rw [← mem_mark_iff]
      constructor
      · rintro ⟨info, hinfo, rfl, hs⟩
        obtain ⟨hsome, metadata, hg, heq⟩ := mem_list.mp hinfo
        rw [Bool.or_eq_false_iff, decide_eq_false_iff_not, decide_eq_false_iff_not] at hs
        refine ⟨⟨hsome, metadata, hg, ?_⟩, hs.1⟩
        rw [heq] at hs
        exact Int.not_lt.mp hs.2
      · rintro ⟨⟨hsome, metadata, hg, ha⟩, hm⟩
        refine ⟨⟨hash, metadata.size, metadata.createdAt, metadata.lastAccessed, metadata.tags⟩,
          mem_list.mpr ⟨hsome, metadata, hg, rfl⟩, rfl, ?_⟩
        rw [Bool.or_eq_false_iff, decide_eq_false_iff_not, decide_eq_false_iff_not]
        exact ⟨hm, Int.not_lt.mpr ha⟩
    constructor
    · rintro ⟨hsome, hgo⟩
      refine ⟨Bool.eq_false_iff.mpr hl, hc.mp ?_⟩
      by_contra hno
      rw [if_neg hno, hsome] at hgo
      cases hgo
    · rintro ⟨-, he, hm⟩
      refine ⟨he.1, ?_⟩
      rw [if_pos (hc.mpr ⟨he, hm⟩)]
      rfl

/-- **Mark-and-sweep never deletes a referenced blob exactly when every expired blob that
some row refers to is also the blob of a row the collector reaches** (or the cycle stops
because the datasets cannot be listed). -/
theorem markAndSweep_safe_iff (gc : GCConfig) (faults : DbFaults) (now : Time) (sys : System) :
    (∀ hash, Collects gc faults now sys hash → ¬ Referenced sys.db hash) ↔
      faults.list = true ∨ ∀ chunk ∈ sys.db.chunks.rows, Expired gc now sys.store chunk.hash →
        ∃ chunk' ∈ sys.db.chunks.rows, chunk'.hash = chunk.hash ∧ Reached faults sys.db chunk' := by
  constructor
  · intro hs
    by_cases hl : faults.list = true
    · exact .inl hl
    · refine .inr fun chunk hchunk he => ?_
      by_contra hm
      exact hs chunk.hash
        (collected_iff.mpr ⟨Bool.eq_false_iff.mpr hl, he, hm⟩) ⟨chunk, hchunk, rfl⟩
  · rintro hco hash hc ⟨chunk, hchunk, rfl⟩
    obtain ⟨hl, he, hm⟩ := collected_iff.mp hc
    rcases hco with hf | hco
    · rw [hl] at hf
      cases hf
    · exact hm (hco chunk hchunk he)

def sampleHash : String := "0000000000000000000000000000000000000000000000000000000000000000"

def plainCodec : Codec :=
  { gzip := fun _ data => data, gunzip := some, zstd := fun _ data => data, unzstd := some
    gcmSeal := fun _ data => data, gcmOpen := fun _ data => some data }

theorem plainCodec_lawful : plainCodec.Lawful := ⟨fun _ _ => rfl, fun _ _ => rfl, fun _ _ => rfl⟩

def sampleEnv : Env :=
  { cfg := { compressionEnabled := false, algorithm := .none, level := 0, encryptionEnabled := false }
    codec := plainCodec
    sha256Hex := fun data => if data = [7] then sampleHash else "" }

def sampleChunk : Chunk :=
  { id := "c", datasetID := "d", versionID := "v", index := 0, hash := sampleHash, size := 1
    status := .verified, storagePath := "", data := [] }

def sampleDb : Database :=
  { datasets := ["d"]
    versions := { rows := [{ id := "v", datasetID := "d" }], nodup := by decide }
    chunks := { rows := [sampleChunk], nodup := by decide }
    datasetOfVersion := by decide
    datasetOfChunk := by decide
    versionOfChunk := by decide
    position := by decide }

def sampleStore : LocalStore :=
  { LocalStore.fresh with
    blobs := KeyMap.set .empty sampleHash { content := [7], modTime := 0 }
    metas := KeyMap.set .empty sampleHash (newMetadata sampleChunk 1) }

/-- One failed `ListVersions` query and the collector deletes the blob of a chunk row. -/
theorem markAndSweep_collects_referenced : Referenced sampleDb sampleHash ∧
      Collects { minAgeDays := 0, trashRetentionDays := 30 }
        { DbFaults.none with listVersions := fun datasetID => datasetID = "d" } 1
        { store := sampleStore, db := sampleDb } sampleHash := by
  refine ⟨⟨sampleChunk, by decide, rfl⟩, collected_iff.mpr ⟨rfl, ?_, ?_⟩⟩
  · exact ⟨by decide, newMetadata sampleChunk 1, by decide, by decide⟩
  · rintro ⟨chunk, -, -, version, hversion, -, hf, -⟩
    have hv : version = { id := "v", datasetID := "d" } := mem_singleton.mp hversion
    rw [hv] at hf
    exact absurd hf (by decide)

/-! ### Storage pressure -/

/-- `getLocalStoragePressure`, from the limit and the counter of the store; none is the panic of a division by
zero. -/
def getLocalStoragePressure (maxSizeGB totalSize : Int64) : Option Int64 :=
  if maxSizeGB = 0 then some 0
  else
    let maxBytes := maxSizeGB * 1024 * 1024 * 1024
    if maxBytes = 0 then none
    else
      let pressure := totalSize * 100 / maxBytes
      some (if pressure > 100 then 100 else pressure)

/-- An integer as 64 bits hold it. -/
def wrapped (n : Int) : Int := n.bmod (18446744073709551616)

/-- With a limit below 2³³ GB, the used bytes times 100 fit, or what is left of them is at least 100 times
the limit. With a greater one, what is left of the bytes beyond the whole limits is less than what is left
of the limit; and if a whole limit is used, both have one sign and what is left of the whole limits fits. -/
def PressureFits (maxSizeGB totalSize : Int) : Prop :=
  let limit := maxSizeGB * 1073741824
  let used := 100 * totalSize
  if maxSizeGB < 8589934592 then used < 9223372036854775808 ∨ 100 * limit ≤ wrapped used
  else
    let left := wrapped limit
    let rest := wrapped (used % limit)
    rest.natAbs < left.natAbs ∧ (limit ≤ used → 0 ≤ rest * left ∧
      -9223372036854775808 ≤ used / limit * left + rest ∧ used / limit * left + rest < 9223372036854775808)

theorem getLocalStoragePressure_eq (maxSizeGB totalSize : Int64) (h : 0 < maxSizeGB.toInt) :
    (getLocalStoragePressure maxSizeGB totalSize).map Int64.toInt =
      if wrapped (maxSizeGB.toInt * 1073741824) = 0 then none
      else some (min 100 ((wrapped (100 * totalSize.toInt)).tdiv (wrapped (maxSizeGB.toInt * 1073741824)))) := by
  have hm : (maxSizeGB * 1024 * 1024 * 1024).toInt = wrapped (maxSizeGB.toInt * 1073741824) := by
    simp [Int64.toInt_mul, wrapped, Int.mul_assoc]
  have hu : (totalSize * 100).toInt = wrapped (100 * totalSize.toInt) := by
    simp [Int64.toInt_mul, wrapped, Int.mul_comm]
  have hne : maxSizeGB ≠ 0 := by
    rintro rfl
    exact absurd h (by decide)
  have hz : maxSizeGB * 1024 * 1024 * 1024 = 0 ↔ wrapped (maxSizeGB.toInt * 1073741824) = 0 := by
    rw [← hm, ← Int64.toInt_inj]
    rfl
  -- the limit is a multiple of 2³⁰, so the quotient does not overflow
  have hone : maxSizeGB * 1024 * 1024 * 1024 ≠ -1 := by
    intro heq
    have hb : wrapped (maxSizeGB.toInt * 1073741824) = -1 := by rw [← hm, heq]; rfl
    rw [wrapped, Int.bmod_def] at hb
    omega
  rw [getLocalStoragePressure, if_neg hne]
  simp only [hz]
  split
  · rfl
  · have hq := Int64.toInt_div_of_ne_right (totalSize * 100) _ hone
    rw [hu, hm] at hq
    rw [← hq, Option.map_some]
    refine congrArg some ?_
    split
    next hg => exact (Int.min_eq_left (Int.le_of_lt (Int64.lt_iff_toInt_lt.mp hg))).symm
    next hg => exact (Int.min_eq_right (Int.not_lt.mp fun hc => hg (Int64.lt_iff_toInt_lt.mpr hc))).symm

theorem wrapped_spec (n : Int) : -9223372036854775808 ≤ wrapped n ∧ wrapped n < 9223372036854775808 ∧
    ∃ k, n = wrapped n + k * 18446744073709551616 := by
  refine ⟨Int.le_bmod (by decide), Int.bmod_lt (by decide), n.bdiv (18446744073709551616), ?_⟩
  rw [Int.mul_comm]
  exact (Int.bmod_add_bdiv n (18446744073709551616)).symm

/-- A quotient that is not negative, by the remainder it leaves: it is smaller than the divisor, and has its sign
unless the quotient is 0. -/
theorem tdiv_eq_iff {p l e : Int} (hl : l ≠ 0) (he : 0 ≤ e) :
    p.tdiv l = e ↔ (p - e * l).natAbs < l.natAbs ∧ (0 < e → 0 ≤ (p - e * l) * l) := by
  have hpos : ∀ {p l : Int}, 0 < l →
      (p.tdiv l = e ↔ (p - e * l).natAbs < l.natAbs ∧ (0 < e → 0 ≤ (p - e * l) * l)) := by
    intro p l hl
    rw [Int.mul_nonneg_iff_of_pos_right hl]
    rcases Int.le_total 0 p with hp | hp
    · have hlow := Int.le_ediv_iff_mul_le (a := e) (b := p) hl
      have hhigh := Int.ediv_lt_iff_lt_mul (a := p) (b := e + 1) hl
      rw [Int.add_mul, Int.one_mul] at hhigh
      rw [Int.tdiv_eq_ediv_of_nonneg hp]
      rcases Int.lt_or_eq_of_le he with hpos | rfl <;> omega
    · have hlow := Int.le_ediv_iff_mul_le (a := 1) (b := -p) hl
      have hle := Int.ediv_nonneg (a := -p) (b := l) (by omega) (by omega)
      have hmul := Int.mul_nonneg he (Int.le_of_lt hl)
      rw [← Int.neg_neg p, Int.neg_tdiv, Int.tdiv_eq_ediv_of_nonneg (by omega), Int.neg_neg]
      rcases Int.lt_or_eq_of_le he with hpos | rfl
      · have hmul := Int.mul_pos hpos hl
        omega
      · omega
  rcases Int.lt_or_gt_of_ne hl with hneg | hl
  · have h := hpos (p := -p) (l := -l) (by omega)
    have hsub : -p - e * -l = -(p - e * l) := by
      rw [Int.mul_neg]
      omega
    rwa [Int.neg_tdiv_neg, hsub, Int.natAbs_neg, Int.natAbs_neg, Int.neg_mul_neg] at h
  · exact hpos hl

section Limits

variable {m t : Int} (ht : 0 ≤ t) (hlt : t < 9223372036854775808)

include ht hlt

/-- A limit that fits: a product that has wrapped gives the right answer only if it still exceeds the limit. -/
theorem small_limit_iff (h : 0 < m) (hm : m < 8589934592) :
    min 100 ((wrapped (100 * t)).tdiv (m * 1073741824)) = min 100 (100 * t / (m * 1073741824)) ↔
      100 * t < 9223372036854775808 ∨ 100 * (m * 1073741824) ≤ wrapped (100 * t) := by
  obtain ⟨hl, hu, k, hk⟩ := wrapped_spec (100 * t)
  by_cases hf : 100 * t < 9223372036854775808
  · have hw : wrapped (100 * t) = 100 * t := by omega
    rw [hw, Int.tdiv_eq_ediv_of_nonneg (by omega)]
    exact iff_of_true rfl (.inl hf)
  generalize wrapped (100 * t) = u at hl hu hk
  generalize hn : m * 1073741824 = n
  rw [or_iff_right hf]
  constructor
  · intro heq
    by_contra hu'
    -- what is left is at least `2 * n` less than what it was
    have hq : u.tdiv n < 100 ∧ u.tdiv n < 100 * t / n := by
      rcases Int.le_total 0 u with h0 | h0
      · rw [Int.tdiv_eq_ediv_of_nonneg h0]
        refine ⟨Int.ediv_lt_of_lt_mul (by omega) (by omega), ?_⟩
        refine (Int.le_ediv_iff_mul_le (by omega)).mpr ?_
        have := Int.ediv_mul_le u (show n ≠ 0 by omega)
        rw [Int.add_mul]
        omega
      · have := Int.tdiv_nonneg (show 0 ≤ -u by omega) (show 0 ≤ n by omega)
        rw [Int.neg_tdiv] at this
        have := (Int.le_ediv_iff_mul_le (a := 1) (b := 100 * t) (show 0 < n by omega)).mpr (by omega)
        omega
    omega
  · intro hge
    have hq := (Int.le_ediv_iff_mul_le (a := 100) (b := u) (show 0 < n by omega)).mpr hge
    have ht := (Int.le_ediv_iff_mul_le (a := 100) (b := 100 * t) (show 0 < n by omega)).mpr (by omega)
    rw [Int.tdiv_eq_ediv_of_nonneg (by omega), Int.min_eq_left hq, Int.min_eq_left ht]

/-- A limit that has wrapped to `left`: fewer than 100 whole limits are used, so the quotient has to be their
number `e`. -/
theorem large_limit_iff (hm : ¬ m < 8589934592) {left e rest : Int} (hz : left ≠ 0)
    (hleft : wrapped (m * 1073741824) = left) (he : 100 * t / (m * 1073741824) = e)
    (hrest : wrapped (100 * t % (m * 1073741824)) = rest) :
    min 100 ((wrapped (100 * t)).tdiv left) = min 100 e ↔
      rest.natAbs < left.natAbs ∧ (m * 1073741824 ≤ 100 * t → 0 ≤ rest * left ∧
        -9223372036854775808 ≤ e * left + rest ∧ e * left + rest < 9223372036854775808) := by
  have hq : e < 100 := he ▸ Int.ediv_lt_of_lt_mul (by omega) (by omega)
  have hnonneg : 0 ≤ e := he ▸ Int.ediv_nonneg (by omega) (by omega)
  have hpos : 0 < e ↔ m * 1073741824 ≤ 100 * t := by
    rw [← he, ← Int.add_one_le_iff, Int.le_ediv_iff_mul_le (by omega), Int.zero_add, Int.one_mul]
  have hdiv := Int.ediv_mul_add_emod (100 * t) (m * 1073741824)
  obtain ⟨hl, hu, k, hk⟩ := wrapped_spec (100 * t)
  obtain ⟨hll, hlu, j, hj⟩ := wrapped_spec (m * 1073741824)
  obtain ⟨hrl, hru, i, hi⟩ := wrapped_spec (100 * t % (m * 1073741824))
  have hmin : ∀ q : Int, min 100 q = min 100 e ↔ q = e := by
    intro q
    omega
  rw [hmin, tdiv_eq_iff hz hnonneg, hpos]
  rw [hleft] at hll hlu hj
  rw [hrest] at hrl hru hi
  -- the remainder that the code leaves and the exact one differ by a multiple of 2⁶⁴
  rw [he, hi, hj, Int.mul_add, ← Int.mul_assoc] at hdiv
  have hsame : (wrapped (100 * t) - e * left).natAbs < left.natAbs → wrapped (100 * t) - e * left = rest := by
    omega
  constructor
  · rintro ⟨hsmall, hsign⟩
    have heq := hsame hsmall
    rw [heq] at hsmall hsign
    exact ⟨hsmall, fun hle => ⟨hsign hle, by omega, by omega⟩⟩
  · rintro ⟨hsmall, hfits⟩
    have heq : wrapped (100 * t) - e * left = rest := by
      by_cases hle : m * 1073741824 ≤ 100 * t
      · have := hfits hle
        omega
      · obtain rfl : e = 0 := by omega
        omega
    rw [heq]
    exact ⟨hsmall, fun hle => (hfits hle).1⟩

end Limits

/-- **The pressure is exact only without harmful overflows**; a limit of 2³⁴ GB is a division by zero. -/
theorem pressure_exact_iff (maxSizeGB totalSize : Int64) (h : 0 < maxSizeGB.toInt) (ht : 0 ≤ totalSize.toInt) :
    (getLocalStoragePressure maxSizeGB totalSize).map Int64.toInt =
        some (min 100 (100 * totalSize.toInt / (maxSizeGB.toInt * 1073741824))) ↔
      PressureFits maxSizeGB.toInt totalSize.toInt := by
  rw [getLocalStoragePressure_eq _ _ h, PressureFits]
  have hlt := totalSize.toInt_lt
  generalize maxSizeGB.toInt = m at h
  generalize totalSize.toInt = t at ht hlt
  by_cases hm : m < 8589934592
  · have hd : wrapped (m * 1073741824) = m * 1073741824 := Int.bmod_eq_of_le (by omega) (by omega)
    rw [if_pos hm, hd, if_neg (by omega), Option.some_inj]
    exact small_limit_iff ht hlt h hm
  · rw [if_neg hm]
    by_cases hz : wrapped (m * 1073741824) = 0
    · refine iff_of_false (by simp [hz]) fun hc => ?_
      rw [hz] at hc
      exact Nat.not_lt_zero _ hc.1
    · rw [if_neg hz, Option.some_inj]
      exact large_limit_iff ht hlt hm hz rfl rfl rfl

/-- Half of a limit of one GB is used. -/
theorem pressure_exact_half :
    (getLocalStoragePressure 1 536870912).map Int64.toInt = some (min 100 (100 * 536870912 / (1 * 1073741824))) :=
  (pressure_exact_iff 1 536870912 (by decide) (by decide)).mpr (by
    rw [PressureFits]
    exact .inl (by decide))

/-- With this limit the collector panics. -/
theorem pressure_panics : getLocalStoragePressure 17179869184 0 = none := by
  decide +kernel

end Bib.Blob
