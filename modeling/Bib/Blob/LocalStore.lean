import Bib.Domain.Chunk

/-!
# Bib.Blob.LocalStore

**The blob store on the local file system** (`blob/local.go`, `blob/compression.go`): blobs and their metadata
files, both keyed by hash, and the same two in the trash. `put` and `delete` are each two file operations, named
because other goroutines can run between them.

Compression and encryption are a parameter (`Codec`). File operations are taken to succeed, and metadata to read
back as written.
-/

namespace Bib.Blob

open Bib.Lib Bib.Domain KeyMap List

/-! ### Metadata -/

structure Reference where
  (datasetID versionID : String)
  chunkIndex : Int
  deriving DecidableEq

inductive Algorithm
  | gzip
  | zstd
  | none
  | other (name : String)
  deriving DecidableEq

inductive Encryption
  | none
  | aes256gcm
  deriving DecidableEq

structure Metadata where
  hash : String
  size : Int
  (createdAt lastAccessed : Time)
  accessCount : Int
  references : List Reference
  compression : Algorithm
  encryption : Encryption
  tags : List String
  originalHash : String
  deriving DecidableEq

structure BlobInfo where
  hash : String
  size : Int
  (createdAt lastAccessed : Time)
  tags : List String
  deriving DecidableEq

/-! ### Compression and encryption -/

inductive ZstdLevel
  | fastest
  | default
  | betterCompression
  | bestCompression

/-- A nonce of the size AES-GCM uses. -/
abbrev Nonce := { bytes : Bytes // bytes.length = 12 }

def zeroNonce : Nonce := ⟨replicate 12 0, rfl⟩

/-- The library functions behind the store, for a fixed encryption key. -/
structure Codec where
  gzip : Int → Bytes → Bytes
  gunzip : Bytes → Option Bytes
  zstd : ZstdLevel → Bytes → Bytes
  unzstd : Bytes → Option Bytes
  gcmSeal : Nonce → Bytes → Bytes
  gcmOpen : Nonce → Bytes → Option Bytes

structure Codec.Lawful (codec : Codec) : Prop where
  gunzip_gzip : ∀ level data, codec.gunzip (codec.gzip level data) = some data
  unzstd_zstd : ∀ level data, codec.unzstd (codec.zstd level data) = some data
  open_seal : ∀ nonce data, codec.gcmOpen nonce (codec.gcmSeal nonce data) = some data

/-- `LocalConfig`: the fields the store reads. -/
structure LocalConfig where
  compressionEnabled : Bool
  algorithm : Algorithm
  level : Int
  encryptionEnabled : Bool

inductive BlobError
  | invalidHash
  | alreadyExists (hash : String)
  | notFound (hash : String)
  | metadataNotFound (hash : String)
  | unsupportedAlgorithm (name : String)
  | decrypt
  | decompress
  deriving DecidableEq

def BlobError.message : BlobError → String
  | invalidHash => "invalid hash format"
  | alreadyExists hash => s!"blob already exists: {hash}"
  | notFound hash => s!"blob not found: {hash}"
  | metadataNotFound hash => s!"metadata not found: {hash}"
  | unsupportedAlgorithm name => s!"unsupported compression algorithm: {name}"
  | decrypt => "failed to decrypt data"
  | decompress => "failed to create decompression reader"

/-- `newCompressionWriter`, run over the whole data. -/
def compress (codec : Codec) (algorithm : Algorithm) (level : Int) (data : Bytes) : Except BlobError Bytes :=
  match algorithm with
  | .gzip =>
    -- `gzip.DefaultCompression` is -1 and `gzip.BestCompression` is 9
    .ok (codec.gzip (if level < -1 ∨ 9 < level then -1 else level) data)
  | .zstd =>
    let encoderLevel : ZstdLevel :=
      if level ≤ 3 then .fastest
      else if level ≤ 7 then .default
      else if level ≤ 15 then .betterCompression
      else .bestCompression
    .ok (codec.zstd encoderLevel data)
  | .none => .ok data
  | .other name => .error (.unsupportedAlgorithm name)

/-- `newDecompressionReader`, read to the end. -/
def decompress (codec : Codec) (algorithm : Algorithm) (data : Bytes) : Except BlobError Bytes :=
  match algorithm with
  | .gzip => (codec.gunzip data).elim (.error .decompress) .ok
  | .zstd => (codec.unzstd data).elim (.error .decompress) .ok
  | .none => .ok data
  | .other name => .error (.unsupportedAlgorithm name)

/-- `encryptData`: the nonce followed by the ciphertext. -/
def encryptData (codec : Codec) (nonce : Nonce) (plaintext : Bytes) : Bytes :=
  nonce.val ++ codec.gcmSeal nonce plaintext

def decryptData (codec : Codec) (ciphertext : Bytes) : Except BlobError Bytes :=
  if h : ciphertext.length < 12 then .error .decrypt
  else
    let nonce : Nonce := ⟨ciphertext.take 12, by rw [length_take]; omega⟩
    (codec.gcmOpen nonce (ciphertext.drop 12)).elim (.error .decrypt) .ok

def processData (cfg : LocalConfig) (codec : Codec) (nonce : Nonce) (data : Bytes) : Except BlobError Bytes :=
  match (if cfg.compressionEnabled then compress codec cfg.algorithm cfg.level data else .ok data) with
  | .error error => .error error
  | .ok data => .ok (if cfg.encryptionEnabled then encryptData codec nonce data else data)

def readData (cfg : LocalConfig) (codec : Codec) (content : Bytes) : Except BlobError Bytes :=
  match (if cfg.encryptionEnabled then decryptData codec content else .ok content) with
  | .error error => .error error
  | .ok content => if cfg.compressionEnabled then decompress codec cfg.algorithm content else .ok content

variable {codec : Codec} {cfg : LocalConfig} {hash : String} {metadata : Metadata} {now : Time}
  {nonce : Nonce} {data : Bytes}

theorem decompress_compress (h : codec.Lawful) {algorithm : Algorithm} {level : Int}
    {data compressed : Bytes} (hc : compress codec algorithm level data = .ok compressed) :
    decompress codec algorithm compressed = .ok data := by
  cases algorithm with
  | gzip => cases hc; simp [decompress, h.gunzip_gzip]
  | zstd => cases hc; simp [decompress, h.unzstd_zstd]
  | none => cases hc; rfl
  | other name => cases hc

theorem decryptData_encryptData (h : codec.Lawful) (nonce : Nonce) (data : Bytes) :
    decryptData codec (encryptData codec nonce data) = .ok data := by
  obtain ⟨bytes, hb⟩ := nonce
  have hlen : ¬ (bytes ++ codec.gcmSeal ⟨bytes, hb⟩ data).length < 12 := by
    rw [length_append]
    omega
  unfold decryptData encryptData
  rw [dif_neg hlen]
  simp only [← hb, take_left, drop_left]
  rw [h.open_seal]
  rfl

theorem readData_processData (h : codec.Lawful) {nonce : Nonce}
    {data content : Bytes} (hp : processData cfg codec nonce data = .ok content) :
    readData cfg codec content = .ok data := by
  unfold processData at hp
  cases hco : (if cfg.compressionEnabled = true then compress codec cfg.algorithm cfg.level data
      else .ok data) with
  | error error => rw [hco] at hp; cases hp
  | ok compressed =>
    rw [hco] at hp
    have hc : content =
        if cfg.encryptionEnabled = true then encryptData codec nonce compressed else compressed :=
      (Except.ok.inj hp).symm
    have hd : (if cfg.encryptionEnabled = true then decryptData codec content else .ok content) =
        .ok compressed := by
      rw [hc]
      split
      · exact decryptData_encryptData h nonce compressed
      · rfl
    unfold readData
    rw [hd]
    dsimp only
    by_cases hon : cfg.compressionEnabled = true
    · rw [if_pos hon] at hco ⊢
      exact decompress_compress h hco
    · rw [if_neg hon] at hco ⊢
      exact congrArg Except.ok (Except.ok.inj hco).symm

/-! ### The store -/

structure BlobFile where
  content : Bytes
  modTime : Time

structure Stats where
  (totalBlobs totalSize : Int)

/-- `LocalStore`: its directories and counters. -/
structure LocalStore where
  blobs : KeyMap String BlobFile
  metas : KeyMap String Metadata
  trash : KeyMap String BlobFile
  trashMetas : KeyMap String Metadata
  stats : Stats

def LocalStore.fresh : LocalStore :=
  { blobs := .empty, metas := .empty, trash := .empty, trashMetas := .empty
    stats := { totalBlobs := 0, totalSize := 0 } }

/-- `isValidHash`: 64 hexadecimal digits. -/
def isValidHash (hash : String) : Bool :=
  hash.toList.length = 64 && hash.toList.all fun c =>
    ('0' ≤ c && c ≤ '9') || ('a' ≤ c && c ≤ 'f') || ('A' ≤ c && c ≤ 'F')

def existsBlob (hash : String) (store : LocalStore) : Except BlobError Bool :=
  if isValidHash hash then .ok (store.blobs.get? hash).isSome else .error .invalidHash

def getMetadata (hash : String) (store : LocalStore) : Except BlobError Metadata :=
  if isValidHash hash then
    match store.metas.get? hash with
    | none => .error (.metadataNotFound hash)
    | some metadata => .ok metadata
  else .error .invalidHash

def updateMetadata (hash : String) (metadata : Metadata) (store : LocalStore) : LocalStore :=
  { store with metas := store.metas.set hash metadata }

/-- The first half of `Put`: everything up to the rename of the temporary file. -/
def putBlob (cfg : LocalConfig) (codec : Codec) (now : Time) (nonce : Nonce) (hash : String)
    (data : Bytes) (store : LocalStore) : Except BlobError LocalStore :=
  if isValidHash hash then
    match store.blobs.get? hash with
    | some _ => .error (.alreadyExists hash)
    | none =>
      match processData cfg codec nonce data with
      | .error error => .error error
      | .ok content =>
        .ok { store with blobs := store.blobs.set hash { content := content, modTime := now } }
  else .error .invalidHash

def completeMetadata (cfg : LocalConfig) (now : Time) (hash : String) (size : Int) (metadata : Metadata) : Metadata :=
  { metadata with
    hash := hash
    size := size
    createdAt := now
    lastAccessed := now
    accessCount := 0
    compression := if cfg.compressionEnabled then cfg.algorithm else .none
    encryption := if cfg.encryptionEnabled then .aes256gcm else .none }

/-- The second half of `Put`: write the metadata and count the blob. -/
def putMeta (cfg : LocalConfig) (now : Time) (hash : String) (size : Int) (metadata : Metadata)
    (store : LocalStore) : LocalStore :=
  { updateMetadata hash (completeMetadata cfg now hash size metadata) store with
    stats := { totalBlobs := store.stats.totalBlobs + 1, totalSize := store.stats.totalSize + size } }

def put (cfg : LocalConfig) (codec : Codec) (now : Time) (nonce : Nonce) (hash : String)
    (data : Bytes) (metadata : Metadata) (store : LocalStore) : Except BlobError LocalStore :=
  match putBlob cfg codec now nonce hash data store with
  | .error error => .error error
  | .ok store => .ok (putMeta cfg now hash data.length metadata store)

/-- `Get`, without the `Touch` it starts. -/
def readBlob (cfg : LocalConfig) (codec : Codec) (hash : String) (store : LocalStore) : Except BlobError Bytes :=
  if isValidHash hash then
    match store.blobs.get? hash with
    | none => .error (.notFound hash)
    | some file => readData cfg codec file.content
  else .error .invalidHash

def Metadata.touched (metadata : Metadata) (now : Time) : Metadata :=
  { metadata with lastAccessed := now, accessCount := metadata.accessCount + 1 }

def touch (now : Time) (hash : String) (store : LocalStore) : Except BlobError LocalStore :=
  match getMetadata hash store with
  | .error error => .error error
  | .ok metadata => .ok (updateMetadata hash (metadata.touched now) store)

/-- `Get`, with its `Touch` run to the end; the result of `Touch` is dropped. -/
def get (cfg : LocalConfig) (codec : Codec) (now : Time) (hash : String) (store : LocalStore) :
    Except BlobError Bytes × LocalStore :=
  match readBlob cfg codec hash store with
  | .error (.notFound hash) => (.error (.notFound hash), store)
  | .error .invalidHash => (.error .invalidHash, store)
  | result => (result, (touch now hash store).toOption.getD store)

/-- The first half of `Delete`: move the blob to the trash. -/
def removeBlob (hash : String) (store : LocalStore) : Except BlobError LocalStore :=
  if isValidHash hash then
    match store.blobs.get? hash with
    | none => .error (.notFound hash)
    | some file =>
      .ok { store with blobs := store.blobs.delete hash, trash := store.trash.set hash file }
  else .error .invalidHash

/-- The second half of `Delete`: move the metadata to the trash, if there is any, and
adjust the counters if it can still be read afterwards. -/
def removeMeta (hash : String) (store : LocalStore) : LocalStore :=
  let store :=
    match store.metas.get? hash with
    | none => store
    | some metadata =>
      { store with
        metas := store.metas.delete hash
        trashMetas := store.trashMetas.set hash metadata }
  match getMetadata hash store with
  | .error _ => store
  | .ok metadata =>
    { store with
      stats :=
        { totalBlobs := store.stats.totalBlobs - 1
          totalSize := store.stats.totalSize - metadata.size } }

def delete (hash : String) (store : LocalStore) : Except BlobError LocalStore :=
  match removeBlob hash store with
  | .error error => .error error
  | .ok store => .ok (removeMeta hash store)

/-- `List` with the empty prefix: the blobs whose metadata can be loaded. -/
def list (store : LocalStore) : List BlobInfo :=
  store.blobs.rows.filterMap fun p =>
    match getMetadata p.1 store with
    | .error _ => none
    | .ok metadata => some
        { hash := p.1
          size := metadata.size
          createdAt := metadata.createdAt
          lastAccessed := metadata.lastAccessed
          tags := metadata.tags }

/-! ### The store through its maps

One equation per operation; proofs about runs never unfold the operations again. -/

variable {store store' : LocalStore}

theorem existsBlob_eq_ok {found : Bool} : existsBlob hash store = .ok found ↔
      isValidHash hash = true ∧ (store.blobs.get? hash).isSome = found := by
  unfold existsBlob
  split <;> simp_all

theorem getMetadata_eq_ok : getMetadata hash store = .ok metadata ↔
      isValidHash hash = true ∧ store.metas.get? hash = some metadata := by
  unfold getMetadata
  cases store.metas.get? hash <;> split <;> simp_all

theorem putBlob_eq_ok : putBlob cfg codec now nonce hash data store = .ok store' ↔
      isValidHash hash = true ∧ store.blobs.get? hash = none ∧
        ∃ content, processData cfg codec nonce data = .ok content ∧
          store' = { store with blobs := store.blobs.set hash { content := content, modTime := now } } := by
  unfold putBlob
  by_cases hvalid : isValidHash hash = true
  · rw [if_pos hvalid]
    cases store.blobs.get? hash with
    | some file => simp
    | none =>
      cases processData cfg codec nonce data with
      | error error => simp
      | ok content => simp [hvalid, eq_comm]
  · simp [hvalid]

theorem removeBlob_eq_ok : removeBlob hash store = .ok store' ↔
      isValidHash hash = true ∧ ∃ file, store.blobs.get? hash = some file ∧ store' = { store with
          blobs := store.blobs.delete hash
          trash := store.trash.set hash file } := by
  unfold removeBlob
  by_cases hvalid : isValidHash hash = true
  · rw [if_pos hvalid]
    cases store.blobs.get? hash with
    | none => simp
    | some file => simp [hvalid, eq_comm]
  · simp [hvalid]

theorem updateMetadata_get? (hash : String) (metadata : Metadata) (store : LocalStore) (hash' : String) :
    (updateMetadata hash metadata store).metas.get? hash' =
      if hash' = hash then some metadata else store.metas.get? hash' :=
  get?_set _ _ _ _

theorem put_eq_ok (h : put cfg codec now nonce hash data metadata store = .ok store') :
    isValidHash hash = true ∧ store.blobs.get? hash = none ∧
      ∃ content, processData cfg codec nonce data = .ok content ∧
        (∀ hash', store'.blobs.get? hash' =
          if hash' = hash then some { content := content, modTime := now } else store.blobs.get? hash') ∧
        ∀ hash', store'.metas.get? hash' =
          if hash' = hash then some (completeMetadata cfg now hash data.length metadata)
          else store.metas.get? hash' := by
  unfold put at h
  cases hput : putBlob cfg codec now nonce hash data store with
  | error error => rw [hput] at h; cases h
  | ok stored =>
    rw [hput] at h
    cases h
    obtain ⟨hvalid, hnone, content, hc, rfl⟩ := putBlob_eq_ok.mp hput
    refine ⟨hvalid, hnone, content, hc, fun hash' => ?_, fun hash' => get?_set _ _ _ _⟩
    exact get?_set _ _ _ _

/-- After its metadata is moved away nothing is left to adjust the counters with. -/
theorem removeMeta_eq (hash : String) (store : LocalStore) :
    (removeMeta hash store).blobs = store.blobs ∧ (removeMeta hash store).stats = store.stats ∧
      ∀ hash', (removeMeta hash store).metas.get? hash' =
        if hash' = hash then none else store.metas.get? hash' := by
  have hnone : ∀ s : LocalStore, s.metas.get? hash = none → (match getMetadata hash s with
        | .error _ => s
        | .ok metadata => { s with
            stats := ⟨s.stats.totalBlobs - 1, s.stats.totalSize - metadata.size⟩ }) = s := by
    intro s hs
    cases hg : getMetadata hash s with
    | error error => rfl
    | ok metadata =>
      rw [(getMetadata_eq_ok.mp hg).2] at hs
      cases hs
  unfold removeMeta
  cases hm : store.metas.get? hash with
  | none =>
    rw [hnone store hm]
    refine ⟨rfl, rfl, fun hash' => ?_⟩
    by_cases heq : hash' = hash
    · rw [if_pos heq, heq, hm]
    · rw [if_neg heq]
  | some metadata =>
    have hd : ∀ hash', (store.metas.delete hash).get? hash' =
        if hash' = hash then none else store.metas.get? hash' := get?_delete _ _
    rw [hnone _ ((hd hash).trans (if_pos rfl))]
    exact ⟨rfl, rfl, hd⟩

theorem delete_get? (h : delete hash store = .ok store') (hash' : String) :
    store'.blobs.get? hash' = if hash' = hash then none else store.blobs.get? hash' := by
  unfold delete at h
  split at h
  · cases h
  next moved hm =>
    cases h
    obtain ⟨-, file, -, rfl⟩ := removeBlob_eq_ok.mp hm
    rw [(removeMeta_eq _ _).1]
    exact get?_delete _ _ _

theorem delete_metas_get? (h : delete hash store = .ok store') (hash' : String) :
    store'.metas.get? hash' = if hash' = hash then none else store.metas.get? hash' := by
  unfold delete at h
  split at h
  · cases h
  next moved hm =>
    cases h
    obtain ⟨-, file, -, rfl⟩ := removeBlob_eq_ok.mp hm
    exact (removeMeta_eq _ _).2.2 hash'

theorem delete_isOk_iff : (∃ store', delete hash store = .ok store') ↔
      isValidHash hash = true ∧ (store.blobs.get? hash).isSome = true := by
  unfold delete
  cases hm : removeBlob hash store with
  | ok moved =>
    obtain ⟨hvalid, file, hf, -⟩ := removeBlob_eq_ok.mp hm
    simp [hvalid, hf]
  | error error =>
    refine ⟨fun h => ?_, fun h => ?_⟩
    · obtain ⟨_, h⟩ := h
      cases h
    · obtain ⟨hvalid, hsome⟩ := h
      obtain ⟨file, hf⟩ := Option.isSome_iff_exists.mp hsome
      have hok := removeBlob_eq_ok.mpr ⟨hvalid, file, hf, rfl⟩
      rw [hm] at hok
      cases hok

theorem mem_list {info : BlobInfo} :
    info ∈ list store ↔ (store.blobs.get? info.hash).isSome = true ∧
      ∃ metadata, getMetadata info.hash store = .ok metadata ∧
        info = ⟨info.hash, metadata.size, metadata.createdAt, metadata.lastAccessed, metadata.tags⟩ := by
  unfold list
  rw [mem_filterMap]
  constructor
  · rintro ⟨⟨hash, file⟩, hmem, hinfo⟩
    cases hg : getMetadata hash store with
    | error error => rw [hg] at hinfo; cases hinfo
    | ok metadata =>
      rw [hg] at hinfo
      cases hinfo
      have hf := get?_eq_some_iff.mpr hmem
      exact ⟨by rw [hf]; rfl, metadata, hg, rfl⟩
  · rintro ⟨hsome, metadata, hg, hinfo⟩
    obtain ⟨file, hf⟩ := Option.isSome_iff_exists.mp hsome
    refine ⟨(info.hash, file), get?_eq_some_iff.mp hf, ?_⟩
    rw [hg, hinfo]

end Bib.Blob
