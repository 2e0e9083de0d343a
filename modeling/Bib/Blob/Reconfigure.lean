import Bib.Blob.LocalStore

/-!
# Bib.Blob.Reconfigure

**Blobs across a change of the configuration.** `Put` notes in the metadata of a blob how it was
compressed and encrypted, but `Get` does not look there: it decodes what it finds as the
configuration of the moment says. So a blob is read back only if the two configurations
encode alike (`stays_readable_iff`). The level of the compression plays no part, and
compression with the algorithm `none` is like none at all.
-/

namespace Bib.Blob

open Bib.Lib Bib.Domain

def LocalConfig.applied (cfg : LocalConfig) : Algorithm :=
  if cfg.compressionEnabled then cfg.algorithm else .none

def SameEncoding (c₁ c₂ : LocalConfig) : Prop :=
  c₁.encryptionEnabled = c₂.encryptionEnabled ∧ c₁.applied = c₂.applied

instance (c₁ c₂ : LocalConfig) : Decidable (SameEncoding c₁ c₂) :=
  inferInstanceAs (Decidable (_ ∧ _))

/-- `Put` compresses with an algorithm that there is. -/
def LocalConfig.supported (cfg : LocalConfig) : Bool :=
  match cfg.applied with
  | .gzip | .zstd | .none => true
  | .other _ => false

/-- What is stored under one configuration is returned under the other, if compression and encryption
can be undone. -/
def StaysReadable (c₁ c₂ : LocalConfig) : Prop :=
  ∀ codec : Codec, codec.Lawful → ∀ now nonce hash data metadata store store',
    put c₁ codec now nonce hash data metadata store = .ok store' →
    ∀ now', (get c₂ codec now' hash store').1 = .ok data

/-! ### Encoding and decoding -/

theorem compress_applied (cfg : LocalConfig) (codec : Codec) (data : Bytes) :
    (if cfg.compressionEnabled then compress codec cfg.algorithm cfg.level data else .ok data) =
      compress codec cfg.applied cfg.level data := by
  unfold LocalConfig.applied
  split <;> rfl

theorem decompress_applied (cfg : LocalConfig) (codec : Codec) (content : Bytes) :
    (if cfg.compressionEnabled then decompress codec cfg.algorithm content else .ok content) =
      decompress codec cfg.applied content := by
  unfold LocalConfig.applied
  split <;> rfl

variable {c₁ c₂ cfg : LocalConfig}

/-- Reading looks at what `SameEncoding` compares, and at nothing else. -/
theorem readData_congr (h : SameEncoding c₁ c₂) (codec : Codec)
    (content : Bytes) : readData c₁ codec content = readData c₂ codec content := by
  unfold readData
  rw [h.1]
  split
  · rfl
  · rw [decompress_applied, decompress_applied, h.2]

/-- `Get` right after a `Put` decodes what the `Put` has encoded. -/
theorem get_of_put {codec : Codec} {now : Time} {nonce : Nonce}
    {hash : String} {data : Bytes} {metadata : Metadata} {store store' : LocalStore}
    (h : put c₁ codec now nonce hash data metadata store = .ok store') (c₂ : LocalConfig)
    (now' : Time) : ∃ content, processData c₁ codec nonce data = .ok content ∧
      (get c₂ codec now' hash store').1 = readData c₂ codec content := by
  obtain ⟨hvalid, -, content, hc, hblobs, -⟩ := put_eq_ok h
  refine ⟨content, hc, ?_⟩
  have hread : readBlob c₂ codec hash store' = readData c₂ codec content := by
    unfold readBlob
    rw [if_pos hvalid, hblobs, if_pos rfl]
  unfold get
  split <;> simp_all

theorem staysReadable_of_sameEncoding (h : SameEncoding c₁ c₂) : StaysReadable c₁ c₂ := by
  intro codec hc now nonce hash data metadata store store' hput now'
  obtain ⟨content, hco, hg⟩ := get_of_put hput c₂ now'
  rw [hg, ← readData_congr h]
  exact readData_processData hc hco

theorem staysReadable_of_unsupported (h : c₁.supported = false) : StaysReadable c₁ c₂ := by
  intro codec hc now nonce hash data metadata store store' hput now'
  obtain ⟨content, hco, -⟩ := get_of_put hput c₂ now'
  unfold processData at hco
  rw [compress_applied] at hco
  unfold LocalConfig.supported at h
  cases ha : c₁.applied with
  | other name =>
    rw [ha] at hco
    cases hco
  | _ => rw [ha] at h; cases h

/-! ### Formats that can be told apart -/

/-- Formats that put a mark in front of the data. -/
def markedCodec : Codec where
  gzip _ data := 31 :: data
  gunzip
    | 31 :: data => some data
    | _ => none
  zstd _ data := 40 :: data
  unzstd
    | 40 :: data => some data
    | _ => none
  gcmSeal _ data := 7 :: data
  gcmOpen _
    | 7 :: data => some data
    | _ => none

theorem markedCodec_lawful : markedCodec.Lawful := ⟨fun _ _ => rfl, fun _ _ => rfl, fun _ _ => rfl⟩

def nullHash : String := String.ofList (List.replicate 64 '0')

def nullMetadata : Metadata :=
  { hash := "", size := 0, createdAt := 0, lastAccessed := 0, accessCount := 0, references := []
    compression := .none, encryption := .none, tags := [], originalHash := "" }

def mark : Algorithm → Bytes
  | .gzip => [31]
  | .zstd => [40]
  | .none | .other _ => []

theorem compress_mark (h : cfg.supported = true) :
    compress markedCodec cfg.applied cfg.level [] = .ok (mark cfg.applied) := by
  unfold LocalConfig.supported at h
  cases ha : cfg.applied with
  | other name => rw [ha] at h; cases h
  | _ => rfl

theorem decompress_mark (h : cfg.supported = true) {algorithm : Algorithm}
    (hne : cfg.applied ≠ algorithm) :
    decompress markedCodec algorithm (mark cfg.applied) ≠ .ok [] := by
  unfold LocalConfig.supported at h
  cases ha : cfg.applied with
  | gzip =>
    rw [ha] at hne
    cases algorithm with
    | gzip => exact absurd rfl hne
    | _ => exact nofun
  | zstd =>
    rw [ha] at hne
    cases algorithm with
    | zstd => exact absurd rfl hne
    | _ => exact nofun
  | none =>
    rw [ha] at hne
    cases algorithm with
    | none => exact absurd rfl hne
    | _ => exact nofun
  | other name => rw [ha] at h; cases h

/-- With these formats the empty blob is not read back where the configurations differ. -/
theorem exists_unreadable (hsupported : c₁.supported = true) (h : ¬SameEncoding c₁ c₂) :
    ∃ content, processData c₁ markedCodec zeroNonce [] = .ok content ∧
      readData c₂ markedCodec content ≠ .ok [] := by
  unfold processData readData
  rw [compress_applied, compress_mark hsupported]
  refine ⟨_, rfl, ?_⟩
  cases h₁ : c₁.encryptionEnabled with
  | false =>
    cases h₂ : c₂.encryptionEnabled with
    | false =>
      have hne : c₁.applied ≠ c₂.applied := fun heq => h ⟨h₁.trans h₂.symm, heq⟩
      simp only [Bool.false_eq_true, if_false, decompress_applied]
      exact decompress_mark hsupported hne
    | true =>
      simp only [Bool.false_eq_true, if_false, if_true]
      cases c₁.applied <;> exact nofun
  | true =>
    cases h₂ : c₂.encryptionEnabled with
    | false =>
      simp only [Bool.false_eq_true, if_false, if_true, decompress_applied]
      cases c₂.applied <;> exact nofun
    | true =>
      have hne : c₁.applied ≠ c₂.applied := fun heq => h ⟨h₁.trans h₂.symm, heq⟩
      simp only [if_true, decryptData_encryptData markedCodec_lawful, decompress_applied]
      exact decompress_mark hsupported hne

/-- **A blob stays readable across a change of the configuration exactly if** both configurations
encrypt or neither does, and both apply the same compression; or if nothing can be stored. -/
theorem stays_readable_iff (c₁ c₂ : LocalConfig) :
    StaysReadable c₁ c₂ ↔ c₁.supported = false ∨ SameEncoding c₁ c₂ := by
  constructor
  · intro h
    cases hsupported : c₁.supported with
    | false => exact .inl rfl
    | true =>
      refine .inr ?_
      by_contra hd
      obtain ⟨content, hc, hu⟩ := exists_unreadable hsupported hd
      obtain ⟨store, hput⟩ : ∃ store, put c₁ markedCodec 0 zeroNonce nullHash [] nullMetadata
          .fresh = .ok store := by
        unfold put putBlob
        rw [hc]
        exact ⟨_, rfl⟩
      obtain ⟨content', hc', hg⟩ := get_of_put hput c₂ 0
      rw [hc] at hc'
      cases hc'
      rw [h markedCodec markedCodec_lawful _ _ _ _ _ _ _ hput 0] at hg
      exact hu hg.symm
  · rintro (hun | hs)
    · exact staysReadable_of_unsupported hun
    · exact staysReadable_of_sameEncoding hs

def compressing (compressionEnabled : Bool) : LocalConfig :=
  { compressionEnabled, algorithm := .gzip, level := 6, encryptionEnabled := false }

/-- A blob that was stored with compression is returned compressed after compression is switched
off. -/
theorem compressed_blob_returned : markedCodec.Lawful ∧
      ∃ store, put (compressing true) markedCodec 0 zeroNonce nullHash [104, 105] nullMetadata
          .fresh = .ok store ∧
        (get (compressing false) markedCodec 0 nullHash store).1 = .ok [31, 104, 105] := by
  refine ⟨markedCodec_lawful, _, rfl, ?_⟩
  decide +kernel

end Bib.Blob
