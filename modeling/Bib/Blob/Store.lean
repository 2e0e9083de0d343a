import Bib.Blob.Ingestion

/-!
# Bib.Blob.Store

**The interface of blob stores** (`Store` in `blob/types.go`): the calls the hybrid store makes,
with what each of them does to the bytes that a store holds. A call may also fail by itself;
its text is then part of the call's input. `localStore` is the local store as such a store.
-/

namespace Bib.Blob.Hybrid

open Bib.Lib Bib.Domain

/-- What a call to a store finds outside of it: the time, a nonce, and a failure. -/
structure Input where
  failure : Option String
  now : Time
  nonce : Nonce

inductive StoreError
  | failure (text : String)
  | blob (error : BlobError)
  deriving DecidableEq

def StoreError.message : StoreError → String
  | failure text => text
  | blob error => error.message

/-- The interface `Store`: the calls that `HybridStore` makes, and what those that succeed do to the
bytes that the store holds. -/
structure Store (σ : Type) where
  /-- The bytes that the store holds for a hash. -/
  copy : σ → String → Option Bytes
  put : Input → String → Bytes → Metadata → σ → Except StoreError σ
  get : Input → String → σ → Except StoreError Bytes × σ
  delete : Input → String → σ → Except StoreError σ
  existsBlob : Input → String → σ → Except StoreError Bool
  getMetadata : Input → String → σ → Except StoreError Metadata
  list : Input → σ → Except StoreError (List BlobInfo)
  totalSize : Input → σ → Except StoreError Int64
  copy_of_put : ∀ input hash data metadata store store',
    put input hash data metadata store = .ok store' → copy store hash = none
  copy_put : ∀ input hash data metadata store store',
    put input hash data metadata store = .ok store' → ∀ hash',
      copy store' hash' = if hash' = hash then some data else copy store hash'
  copy_of_get : ∀ input hash store data, (get input hash store).1 = .ok data →
    copy store hash = some data
  copy_get : ∀ input hash store hash', copy (get input hash store).2 hash' = copy store hash'
  copy_delete : ∀ input hash store store', delete input hash store = .ok store' → ∀ hash',
    copy store' hash' = if hash' = hash then none else copy store hash'
  copy_of_existsBlob : ∀ input hash store, existsBlob input hash store = .ok true →
    copy store hash ≠ none

/-! ### The local store -/

/-- Every file of the store can be read back. -/
def Readable (cfg : LocalConfig) (codec : Codec) (store : LocalStore) : Prop :=
  ∀ hash file, store.blobs.get? hash = some file →
    isValidHash hash = true ∧ ∃ data, readData cfg codec file.content = .ok data

abbrev ReadableStore (cfg : LocalConfig) (codec : Codec) :=
  { store : LocalStore // Readable cfg codec store }

section LocalStore

variable {cfg : LocalConfig} {codec : Codec}

theorem readable_fresh : Readable cfg codec .fresh := by
  intro hash file hf
  cases hf

theorem Readable.put (lawful : codec.Lawful) {now : Time} {nonce : Nonce} {hash : String}
    {data : Bytes} {metadata : Metadata} {store store' : LocalStore} (h : Readable cfg codec store)
    (hput : Blob.put cfg codec now nonce hash data metadata store = .ok store') :
    Readable cfg codec store' := by
  obtain ⟨hvalid, -, content, hc, hblobs, -⟩ := put_eq_ok hput
  intro hash' file hf
  rw [hblobs] at hf
  split at hf
  next heq =>
    cases hf
    exact ⟨heq ▸ hvalid, data, readData_processData lawful hc⟩
  · exact h hash' file hf

variable {hash : String} {store : LocalStore} {store' : ReadableStore cfg codec} {data : Bytes}
  {input : Input}

theorem Readable.delete {store' : LocalStore} (h : Readable cfg codec store)
    (hdelete : Blob.delete hash store = .ok store') : Readable cfg codec store' := by
  intro hash' file hf
  rw [delete_get? hdelete] at hf
  split at hf
  · cases hf
  · exact h hash' file hf

def localCopy (cfg : LocalConfig) (codec : Codec) (store : LocalStore) (hash : String) : Option Bytes :=
  (store.blobs.get? hash).bind fun file => (readData cfg codec file.content).toOption

theorem localCopy_eq_none_iff (h : Readable cfg codec store) (hash : String) :
    localCopy cfg codec store hash = none ↔ store.blobs.get? hash = none := by
  cases hf : store.blobs.get? hash with
  | none => simp [localCopy, hf]
  | some file =>
    obtain ⟨-, data, hdata⟩ := h hash file hf
    simp [localCopy, hf, hdata, Except.toOption]

theorem get_blobs (now : Time) (hash : String) (store : LocalStore) :
    (Blob.get cfg codec now hash store).2.blobs = store.blobs := by
  unfold Blob.get
  split
  · rfl
  · rfl
  · unfold touch
    cases Blob.getMetadata hash store <;> rfl

theorem localCopy_get (now : Time) (hash : String) (store : LocalStore) :
    localCopy cfg codec (Blob.get cfg codec now hash store).2 = localCopy cfg codec store := by
  funext hash'
  rw [localCopy, localCopy, get_blobs]

theorem localCopy_of_get {now : Time} (h : (Blob.get cfg codec now hash store).1 = .ok data) :
    localCopy cfg codec store hash = some data := by
  have hread : readBlob cfg codec hash store = .ok data := by
    unfold Blob.get at h
    split at h
    · cases h
    · cases h
    · exact h
  unfold readBlob at hread
  split at hread
  · split at hread
    · cases hread
    next file hf => simp [localCopy, hf, hread, Except.toOption]
  · cases hread

theorem localCopy_put (lawful : codec.Lawful) {now : Time} {nonce : Nonce} {hash : String}
    {data : Bytes} {metadata : Metadata} {store store' : LocalStore}
    (h : Blob.put cfg codec now nonce hash data metadata store = .ok store') (hash' : String) :
    localCopy cfg codec store' hash' =
      if hash' = hash then some data else localCopy cfg codec store hash' := by
  obtain ⟨-, -, content, hc, hblobs, -⟩ := put_eq_ok h
  rw [localCopy, hblobs]
  split
  · simp [readData_processData lawful hc, Except.toOption]
  · rfl

theorem localCopy_delete {store' : LocalStore}
    (h : Blob.delete hash store = .ok store') (hash' : String) : localCopy cfg codec store' hash' =
      if hash' = hash then none else localCopy cfg codec store hash' := by
  rw [localCopy, delete_get? h]
  split
  · rfl
  · rfl

/-- A failure of the call comes before everything else. -/
def orFail {α : Type} (input : Input) (result : Except BlobError α) : Except StoreError α :=
  match input.failure with
  | some text => .error (.failure text)
  | none => result.mapError .blob

theorem orFail_eq_ok {α : Type} {result : Except BlobError α} {a : α} :
    orFail input result = .ok a ↔ input.failure = none ∧ result = .ok a := by
  unfold orFail
  cases input.failure with
  | some text => simp
  | none => cases result <;> simp [Except.mapError]

def ReadableStore.put (lawful : codec.Lawful) (input : Input) (hash : String) (data : Bytes)
    (metadata : Metadata) (store : ReadableStore cfg codec) : Except BlobError (ReadableStore cfg codec) :=
  match h : Blob.put cfg codec input.now input.nonce hash data metadata store.val with
  | .error error => .error error
  | .ok store' => .ok ⟨store', store.property.put lawful h⟩

theorem ReadableStore.put_eq_ok {lawful : codec.Lawful}
    {metadata : Metadata} {store : ReadableStore cfg codec} :
    ReadableStore.put lawful input hash data metadata store = .ok store' ↔
      Blob.put cfg codec input.now input.nonce hash data metadata store.val = .ok store'.val := by
  unfold ReadableStore.put
  split
  next error he => simp [he]
  next stored hstored => simp [hstored, Subtype.ext_iff]

def ReadableStore.delete (hash : String) (store : ReadableStore cfg codec) :
    Except BlobError (ReadableStore cfg codec) :=
  match h : Blob.delete hash store.val with
  | .error error => .error error
  | .ok store' => .ok ⟨store', store.property.delete h⟩

theorem ReadableStore.delete_eq_ok {store : ReadableStore cfg codec} :
    ReadableStore.delete hash store = .ok store' ↔ Blob.delete hash store.val = .ok store'.val := by
  unfold ReadableStore.delete
  split
  next error he => simp [he]
  next left hleft => simp [hleft, Subtype.ext_iff]

theorem Readable.get (h : Readable cfg codec store) (now : Time) (hash : String) :
    Readable cfg codec (Blob.get cfg codec now hash store).2 := by
  intro hash' file hf
  rw [get_blobs] at hf
  exact h hash' file hf

def ReadableStore.get (input : Input) (hash : String) (store : ReadableStore cfg codec) :
    Except StoreError Bytes × ReadableStore cfg codec :=
  (orFail input (Blob.get cfg codec input.now hash store.val).1,
    if input.failure = none then
      ⟨(Blob.get cfg codec input.now hash store.val).2, store.property.get input.now hash⟩
    else store)

def localStore (cfg : LocalConfig) (codec : Codec) (lawful : codec.Lawful) : Store (ReadableStore cfg codec) where
  copy store hash := localCopy cfg codec store.val hash
  put input hash data metadata store :=
    orFail input (ReadableStore.put lawful input hash data metadata store)
  get := ReadableStore.get
  delete input hash store := orFail input (ReadableStore.delete hash store)
  existsBlob input hash store := orFail input (Blob.existsBlob hash store.val)
  getMetadata input hash store := orFail input (Blob.getMetadata hash store.val)
  list input store := orFail input (.ok (Blob.list store.val))
  totalSize input store := orFail input (.ok (.ofInt store.val.stats.totalSize))
  copy_of_put input hash data metadata store store' hput := by
    obtain ⟨-, hnone, -⟩ := put_eq_ok (ReadableStore.put_eq_ok.mp (orFail_eq_ok.mp hput).2)
    exact (localCopy_eq_none_iff store.property hash).mpr hnone
  copy_put input hash data metadata store store' hput hash' :=
    localCopy_put lawful (ReadableStore.put_eq_ok.mp (orFail_eq_ok.mp hput).2) hash'
  copy_of_get input hash store data h := localCopy_of_get (orFail_eq_ok.mp h).2
  copy_get input hash store hash' := by
    unfold ReadableStore.get
    split
    · exact congrFun (localCopy_get input.now hash store.val) hash'
    · rfl
  copy_delete input hash store store' hdelete hash' :=
    localCopy_delete (ReadableStore.delete_eq_ok.mp (orFail_eq_ok.mp hdelete).2) hash'
  copy_of_existsBlob input hash store hexists := by
    obtain ⟨-, hsome⟩ := existsBlob_eq_ok.mp (orFail_eq_ok.mp hexists).2
    rw [Ne, localCopy_eq_none_iff store.property]
    exact Option.isSome_iff_ne_none.mp hsome

end LocalStore

end Bib.Blob.Hybrid
