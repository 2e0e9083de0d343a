import Bib.Domain.Chunk
import Bib.Shamir.Shares

/-!
# Bib.Encryption.Manager

**Encryption of fields and recovery of the key** (`encryption.go`, `keys.go` and `application.go` of
`internal/storage/postgres/encryption`). The key of the fields is derived from the master key once, by
`NewManager`, and kept in the cipher. `RecoverFromShares` replaces the master key and leaves the cipher as it is
(`recovery_restores_iff`). HKDF and AES-GCM are parameters (`FieldCrypto`).
-/

namespace Bib.Encryption

open Bib.Domain Bib.Shamir List

/-! ### The primitives -/

abbrev Key := { bytes : Bytes // bytes.length = 32 }

/-- A nonce of the size AES-GCM uses. -/
abbrev FieldNonce := { bytes : Bytes // bytes.length = 12 }

theorem length_fieldNonce {bytes : Bytes} (h : ¬ bytes.length < 12) : (bytes.take 12).length = 12 := by
  rw [length_take]
  omega

/-- HKDF with SHA-256 and the salt of the package, and AES-GCM. The cipher undoes what it did under
one key, and rejects what was done under another. -/
structure FieldCrypto where
  deriveKey : Bytes → String → Nat → Bytes
  /-- `aead.Seal` without additional data. -/
  gcmSeal : Key → FieldNonce → Bytes → Bytes
  /-- `aead.Open` without additional data. -/
  gcmOpen : Key → FieldNonce → Bytes → Option Bytes
  deriveKey_length : ∀ secret info size, (deriveKey secret info size).length = size
  open_seal : ∀ key nonce data, gcmOpen key nonce (gcmSeal key nonce data) = some data
  open_other : ∀ key key' nonce data, key ≠ key' → gcmOpen key' nonce (gcmSeal key nonce data) = none

/-! ### Configuration -/

inductive Method
  | none
  | luks
  | tde
  | application
  | hybrid
  | other (name : String)
  deriving DecidableEq

/-- `ApplicationConfig.Algorithm`; an empty one is the default. -/
inductive FieldAlgorithm
  | aes256gcm
  | unset
  | chacha20poly1305
  | other (name : String)

inductive RecoveryMethod
  | shamir
  | other (name : String)
  deriving DecidableEq

structure EncryptedField where
  table : String
  columns : List String

structure ApplicationConfig where
  algorithm : FieldAlgorithm
  encryptedFields : List EncryptedField

structure RecoveryConfig where
  method : RecoveryMethod
  shamir : ShamirConfig
  deriving DecidableEq

/-- `Config`; what only LUKS and TDE look at is left out. -/
structure Config where
  enabled : Bool
  method : Method
  application : ApplicationConfig
  recovery : RecoveryConfig

inductive EncryptionError
  | notSupported
  | notInitialized
  | invalidKey
  | decryptFailed
  | nonce
  | chachaNotImplemented
  | unsupportedAlgorithm (name : String)
  | shamirNotConfigured
  | shamir (error : ShamirError)
  deriving DecidableEq

def EncryptionError.message : EncryptionError → String
  | notSupported => "encryption method not supported on this platform"
  | notInitialized => "encryption not initialized"
  | invalidKey => "invalid encryption key"
  | decryptFailed => "decryption failed"
  | nonce => "failed to generate nonce"
  | chachaNotImplemented => "chacha20-poly1305 not implemented"
  | unsupportedAlgorithm name => s!"unsupported algorithm: {name}"
  | shamirNotConfigured => "Shamir's Secret Sharing not configured"
  | shamir error => error.message

/-! ### Keys -/

structure KeyManager where
  masterKey : Bytes
  config : RecoveryConfig
  shamir : Option ShamirConfig
  deriving DecidableEq

def newKeyManager (crypto : FieldCrypto) (identityKey : Bytes) (config : RecoveryConfig) :
    Except EncryptionError KeyManager :=
  if identityKey.length < 32 then .error .invalidKey
  else
    .ok
      { masterKey := crypto.deriveKey identityKey "bibd-master-encryption-key" 32
        config
        shamir := if config.method = .shamir then some config.shamir else none }

def KeyManager.recoverFromShares (shares : List Share) (km : KeyManager) : Except EncryptionError KeyManager :=
  match km.shamir with
  | none => .error .shamirNotConfigured
  | some config =>
    match recoverKey config shares with
    | .error error => .error (.shamir error)
    | .ok recoveredKey => .ok { km with masterKey := recoveredKey }

/-! ### The cipher of the fields -/

structure ApplicationEncryption where
  key : Key
  algorithm : FieldAlgorithm

def newApplicationEncryption (config : ApplicationConfig) (key : Bytes) :
    Except EncryptionError ApplicationEncryption :=
  if h : key.length < 32 then .error .invalidKey
  else
    match config.algorithm with
    | .aes256gcm | .unset =>
      .ok
        { key := ⟨key.take 32, by rw [List.length_take]; omega⟩
          algorithm := config.algorithm }
    | .chacha20poly1305 => .error .chachaNotImplemented
    | .other name => .error (.unsupportedAlgorithm name)

/-- `Encrypt`; without a nonce the random source has failed. -/
def ApplicationEncryption.encrypt (crypto : FieldCrypto) (nonce : Option FieldNonce)
    (plaintext : Bytes) (e : ApplicationEncryption) : Except EncryptionError Bytes :=
  if plaintext.length = 0 then .ok plaintext
  else
    match nonce with
    | none => .error .nonce
    | some nonce => .ok (nonce.val ++ crypto.gcmSeal e.key nonce plaintext)

def ApplicationEncryption.decrypt (crypto : FieldCrypto) (ciphertext : Bytes)
    (e : ApplicationEncryption) : Except EncryptionError Bytes :=
  if ciphertext.length = 0 then .ok ciphertext
  else if h : ciphertext.length < 12 then .error .decryptFailed
  else
    let nonce : FieldNonce := ⟨ciphertext.take 12, length_fieldNonce h⟩
    match crypto.gcmOpen e.key nonce (ciphertext.drop 12) with
    | none => .error .decryptFailed
    | some plaintext => .ok plaintext

/-! ### The manager -/

/-- `Manager`, without the encryption of volumes. -/
structure Manager where
  config : Config
  columnEncryption : Option ApplicationEncryption
  keyManager : Option KeyManager

/-- `NewManager`; `linux` says on which system. -/
def newManager (crypto : FieldCrypto) (linux : Bool) (cfg : Config) (identityKey : Bytes) :
    Except EncryptionError Manager :=
  if !cfg.enabled then .ok { config := cfg, columnEncryption := none, keyManager := none }
  else
    match newKeyManager crypto identityKey cfg.recovery with
    | .error error => .error error
    | .ok keyMgr =>
      match cfg.method with
      | .luks =>
        if linux then .ok { config := cfg, columnEncryption := none, keyManager := some keyMgr }
        else .error .notSupported
      | .application | .hybrid =>
        match newApplicationEncryption cfg.application
            (crypto.deriveKey keyMgr.masterKey "application-encryption" 32) with
        | .error error => .error error
        | .ok colEnc => .ok { config := cfg, columnEncryption := some colEnc, keyManager := some keyMgr }
      | .none | .tde | .other _ =>
        .ok { config := cfg, columnEncryption := none, keyManager := some keyMgr }

def Config.shouldEncrypt (cfg : Config) (table column : String) : Bool :=
  cfg.application.encryptedFields.any fun field => field.table = table && column ∈ field.columns

/-- What `EncryptField` and `DecryptField` share: the value goes through the cipher if there is one and
the field is listed. -/
def Manager.onField (table column : String) (value : Bytes)
    (apply : ApplicationEncryption → Except EncryptionError Bytes) (m : Manager) : Except EncryptionError Bytes :=
  match m.columnEncryption with
  | none => .ok value
  | some e =>
    if !m.config.enabled then .ok value
    else if !m.config.shouldEncrypt table column then .ok value
    else apply e

def Manager.encryptField (crypto : FieldCrypto) (nonce : Option FieldNonce)
    (table column : String) (value : Bytes) (m : Manager) : Except EncryptionError Bytes :=
  m.onField table column value fun e => e.encrypt crypto nonce value

def Manager.decryptField (crypto : FieldCrypto) (table column : String) (value : Bytes)
    (m : Manager) : Except EncryptionError Bytes :=
  m.onField table column value fun e => e.decrypt crypto value

def Manager.recoverFromShares (shares : List Share) (m : Manager) : Except EncryptionError Manager :=
  match m.keyManager with
  | none => .error .notInitialized
  | some km =>
    match km.recoverFromShares shares with
    | .error error => .error error
    | .ok km' => .ok { m with keyManager := some km' }

def Manager.masterKey (m : Manager) : Option Bytes := m.keyManager.map KeyManager.masterKey

/-! ### What a manager encrypts, and with which key -/

def Config.hasCipher (cfg : Config) : Bool :=
  cfg.enabled && (cfg.method = .application || cfg.method = .hybrid)

def Config.encrypts (cfg : Config) (table column : String) : Bool :=
  cfg.hasCipher && cfg.shouldEncrypt table column

def FieldCrypto.fieldKey (crypto : FieldCrypto) (identityKey : Bytes) : Key :=
  ⟨crypto.deriveKey (crypto.deriveKey identityKey "bibd-master-encryption-key" 32)
    "application-encryption" 32, crypto.deriveKey_length _ _ _⟩

/-- The cipher `NewManager` makes from an identity key. -/
def Config.cipher (crypto : FieldCrypto) (cfg : Config) (identityKey : Bytes) : ApplicationEncryption :=
  { key := crypto.fieldKey identityKey, algorithm := cfg.application.algorithm }

/-- The manager has the configuration, and the cipher that goes with the identity key. -/
structure Manager.WorksAs (crypto : FieldCrypto) (cfg : Config) (identityKey : Bytes)
    (m : Manager) : Prop where
  config_eq : m.config = cfg
  columnEncryption_eq :
    m.columnEncryption = if cfg.hasCipher then some (cfg.cipher crypto identityKey) else none

section Built

variable {crypto : FieldCrypto} {linux : Bool} {cfg : Config} {identityKey : Bytes} {m m' : Manager}

theorem newKeyManager_eq_ok {config : RecoveryConfig} {km : KeyManager}
    (h : newKeyManager crypto identityKey config = .ok km) :
    km.masterKey = crypto.deriveKey identityKey "bibd-master-encryption-key" 32 := by
  unfold newKeyManager at h
  split at h
  · cases h
  · cases h
    rfl

theorem newApplicationEncryption_eq_ok {e : ApplicationEncryption}
    (h : newApplicationEncryption cfg.application (crypto.fieldKey identityKey).val = .ok e) :
    e = cfg.cipher crypto identityKey := by
  -- the key has exactly the length that is cut off
  have ht : (crypto.fieldKey identityKey).val.take 32 = (crypto.fieldKey identityKey).val :=
    take_of_length_le (by rw [(crypto.fieldKey identityKey).property])
  unfold newApplicationEncryption at h
  split at h
  · cases h
  · split at h
    all_goals cases h
    all_goals simp [ht, Config.cipher]

theorem newManager_eq_ok (h : newManager crypto linux cfg identityKey = .ok m) :
    m.WorksAs crypto cfg identityKey := by
  unfold newManager at h
  cases he : cfg.enabled with
  | false =>
    simp only [he, Bool.not_false, if_true] at h
    cases h
    exact ⟨rfl, by simp [Config.hasCipher, he]⟩
  | true =>
    simp only [he, Bool.not_true, Bool.false_eq_true, if_false] at h
    split at h
    · cases h
    next keyMgr hk =>
      rw [newKeyManager_eq_ok hk] at h
      cases hm : cfg.method with
      | luks =>
        simp only [hm] at h
        split at h
        · cases h
          exact ⟨rfl, by simp [Config.hasCipher, hm]⟩
        · cases h
      | application | hybrid =>
        simp only [hm] at h
        split at h
        · cases h
        next colEnc hco =>
          have hc : colEnc = cfg.cipher crypto identityKey := newApplicationEncryption_eq_ok hco
          cases h
          exact ⟨rfl, by simp [Config.hasCipher, he, hm, hc]⟩
      | none | tde | other =>
        simp only [hm] at h
        cases h
        exact ⟨rfl, by simp [Config.hasCipher, hm]⟩

/-- Recovering the master key leaves the cipher as it is. -/
theorem recoverFromShares_eq_ok {shares : List Share} (h : m.recoverFromShares shares = .ok m')
    (hm : m.WorksAs crypto cfg identityKey) : m'.WorksAs crypto cfg identityKey := by
  unfold Manager.recoverFromShares at h
  split at h
  · cases h
  · split at h
    · cases h
    · cases h
      exact ⟨hm.config_eq, hm.columnEncryption_eq⟩

/-- A manager treats a field as its configuration says, with the cipher of its identity. -/
theorem Manager.WorksAs.onField_eq (hm : m.WorksAs crypto cfg identityKey) (table column : String) (value : Bytes)
    (apply : ApplicationEncryption → Except EncryptionError Bytes) :
    m.onField table column value apply =
      if cfg.encrypts table column then apply (cfg.cipher crypto identityKey) else .ok value := by
  unfold Manager.onField Config.encrypts
  rw [hm.columnEncryption_eq, hm.config_eq]
  cases hc : cfg.hasCipher with
  | false => simp
  | true =>
    have he : cfg.enabled = true := (Bool.and_eq_true_iff.mp hc).1
    cases cfg.shouldEncrypt table column <;> simp [he]

end Built

/-! ### One cipher reads what another wrote -/

section Ciphers

variable {crypto : FieldCrypto} {e e' : ApplicationEncryption}

theorem encrypt_some {value : Bytes} (hv : value ≠ []) (nonce : FieldNonce) :
    e.encrypt crypto (some nonce) value = .ok (nonce.val ++ crypto.gcmSeal e.key nonce value) := by
  unfold ApplicationEncryption.encrypt
  rw [if_neg (fun hlen => hv (length_eq_zero_iff.mp hlen))]

theorem decrypt_append (nonce : FieldNonce) (box : Bytes) : e.decrypt crypto (nonce.val ++ box) =
      match crypto.gcmOpen e.key nonce box with
      | none => .error .decryptFailed
      | some plaintext => .ok plaintext := by
  have hlen : (nonce.val ++ box).length = 12 + box.length := by
    rw [length_append, nonce.property]
  have ht : (nonce.val ++ box).take 12 = nonce.val := take_left' nonce.property
  have hd : (nonce.val ++ box).drop 12 = box := drop_left' nonce.property
  unfold ApplicationEncryption.decrypt
  rw [if_neg (by omega), dif_neg (by omega)]
  simp only [ht, hd]

/-- A cipher reads what another wrote when there was nothing to write or the keys agree. -/
theorem decrypts_iff (value : Bytes) :
    (∀ nonce ciphertext, e.encrypt crypto nonce value = .ok ciphertext →
        e'.decrypt crypto ciphertext = .ok value) ↔ value = [] ∨ e.key = e'.key := by
  constructor
  · intro hr
    by_contra hc
    obtain ⟨hv, hk⟩ := not_or.mp hc
    let nonce : FieldNonce := ⟨replicate 12 0, rfl⟩
    have hread := hr (some nonce) _ (encrypt_some hv nonce)
    rw [decrypt_append, crypto.open_other _ _ _ _ hk] at hread
    cases hread
  · intro hco nonce ciphertext hwrite
    by_cases hv : value = []
    · subst hv
      cases hwrite
      rfl
    · have hk : e.key = e'.key := hco.resolve_left hv
      cases nonce with
      | none => simp [ApplicationEncryption.encrypt, hv] at hwrite
      | some nonce =>
        rw [encrypt_some hv] at hwrite
        cases hwrite
        rw [decrypt_append, ← hk, crypto.open_seal]

end Ciphers

/-! ### Recovery -/

/-- `A` is a manager of the first identity, and `B'` one of the second after it recovered a master key
that is the one of `A`. -/
structure Recovered (crypto : FieldCrypto) (cfg : Config) (idA idB : Bytes) (A B' : Manager) :
    Prop where
  built : ∃ linux, newManager crypto linux cfg idA = .ok A
  /-- `NewManager` made a manager on which `RecoverFromShares` returned nil. -/
  recovered : ∃ linux B shares,
    newManager crypto linux cfg idB = .ok B ∧ B.recoverFromShares shares = .ok B'
  masterKey_eq : B'.masterKey = A.masterKey

/-- A manager that recovered the master key reads a field of the other one exactly when the field is
not encrypted, is empty, or both identities have the same key of the fields anyway: what was
recovered plays no part. -/
theorem recovery_restores_iff {crypto : FieldCrypto} {cfg : Config} {idA idB : Bytes}
    {A B' : Manager} (h : Recovered crypto cfg idA idB A B') (table column : String)
    (value : Bytes) :
    (∀ nonce ciphertext, A.encryptField crypto nonce table column value = .ok ciphertext →
        B'.decryptField crypto table column ciphertext = .ok value) ↔
      cfg.encrypts table column = false ∨ value = [] ∨
        crypto.fieldKey idA = crypto.fieldKey idB := by
  obtain ⟨linuxA, hA⟩ := h.built
  obtain ⟨linuxB, B, shares, hB, hr⟩ := h.recovered
  have hwo : A.WorksAs crypto cfg idA := newManager_eq_ok hA
  have hw : B'.WorksAs crypto cfg idB := recoverFromShares_eq_ok hr (newManager_eq_ok hB)
  simp only [Manager.encryptField, Manager.decryptField, hwo.onField_eq, hw.onField_eq]
  cases he : cfg.encrypts table column with
  | false =>
    simp only [Bool.false_eq_true, if_false, true_or, iff_true]
    intro nonce ciphertext hs
    exact hs.symm
  | true =>
    simp only [if_true, Bool.true_eq_false, false_or]
    exact decrypts_iff value

/-! ### A recovered key that opens nothing -/

/-- A cipher that writes its key in front of the text, and keys that are the first bytes of the
secret. -/
def plainCrypto : FieldCrypto where
  deriveKey secret _ size := (secret ++ List.replicate size 0).take size
  gcmSeal key _ data := key.val ++ data
  gcmOpen key _ box := if box.take 32 = key.val then some (box.drop 32) else none
  deriveKey_length secret _ size := by
    rw [List.length_take, List.length_append, List.length_replicate]
    omega
  open_seal key _ data := by
    rw [if_pos (List.take_left' key.property), List.drop_left' key.property]
  open_other key key' _ data hne := by
    rw [if_neg]
    rw [List.take_left' key.property]
    intro heq
    exact hne (Subtype.ext heq)

def contentConfig : Config where
  enabled := true
  method := .application
  application := { algorithm := .aes256gcm, encryptedFields := [⟨"datasets", ["content", "metadata"]⟩] }
  recovery := { method := .shamir, shamir := { totalShares := 2, threshold := 2, shareholderIDs := [] } }

def uniformKey (b : Byte) : Bytes := List.replicate 32 b

/-- The shares of a key of ones, drawn with a coefficient of ones. -/
def onesShares : List Share :=
  [⟨"share-1", 1, List.replicate 32 0, 0, 2, 2⟩, ⟨"share-2", 2, List.replicate 32 3, 0, 2, 2⟩]

/-- The manager of an identity key under `contentConfig`, with a given master key. -/
def contentManager (identity master : Byte) : Manager where
  config := contentConfig
  columnEncryption := some ⟨⟨uniformKey identity, rfl⟩, .aes256gcm⟩
  keyManager := some ⟨uniformKey master, contentConfig.recovery, some contentConfig.recovery.shamir⟩

theorem recoverKey_onesShares : recoverKey contentConfig.recovery.shamir onesShares = .ok (uniformKey 1) := by
  decide +kernel

theorem recovered_contentManager :
    Recovered plainCrypto contentConfig (uniformKey 1) (uniformKey 2) (contentManager 1 1)
      (contentManager 2 1) where
  built := ⟨true, rfl⟩
  recovered := by
    refine ⟨true, contentManager 2 2, onesShares, rfl, ?_⟩
    simp only [Manager.recoverFromShares, contentManager, KeyManager.recoverFromShares,
      recoverKey_onesShares]
  masterKey_eq := rfl

theorem recovery_restores_iff_unlisted : contentConfig.encrypts "topics" "name" = false ∧
      ∀ nonce ciphertext,
        (contentManager 1 1).encryptField plainCrypto nonce "topics" "name" [7] = .ok ciphertext →
        (contentManager 2 1).decryptField plainCrypto "topics" "name" ciphertext = .ok [7] :=
  ⟨by decide,
    (recovery_restores_iff recovered_contentManager "topics" "name" [7]).mpr (.inl (by decide))⟩

/-- The second manager has recovered the master key of the first and cannot read its field. -/
theorem recovered_key_opens_nothing :
    Recovered plainCrypto contentConfig (uniformKey 1) (uniformKey 2) (contentManager 1 1)
        (contentManager 2 1) ∧ ∃ nonce ciphertext,
        (contentManager 1 1).encryptField plainCrypto nonce "datasets" "content" [7] =
            .ok ciphertext ∧
          (contentManager 2 1).decryptField plainCrypto "datasets" "content" ciphertext =
            .error .decryptFailed :=
  ⟨recovered_contentManager, some ⟨replicate 12 0, rfl⟩, _, rfl, rfl⟩

/-! ### Too few distinct shares -/

/-- With a positive threshold `RecoverKey` fails exactly if the list is too short or the shares that are used
differ in length; it does not look at the indices. -/
theorem recoverKey_error_iff {config : ShamirConfig} {shares : List Share} (ht : 0 < config.threshold) :
    (∃ error, recoverKey config shares = .error error) ↔ (shares.length : Int) < config.threshold ∨
      ∃ share ∈ shares.take config.threshold.toNat, ∃ share' ∈ shares.take config.threshold.toNat,
        share.data.length ≠ share'.data.length := by
  unfold recoverKey
  by_cases hlen : (shares.length : Int) < config.threshold
  · simp [hlen]
  rw [if_neg hlen, if_neg (by omega)]
  cases hta : shares.take config.threshold.toNat with
  | nil =>
    have hl := congrArg length hta
    rw [length_take, length_nil] at hl
    omega
  | cons first rest =>
    dsimp only
    cases ha : (first :: rest).any fun share => decide (share.data.length ≠ first.data.length) with
    | true =>
      obtain ⟨share, hs, hne⟩ := any_eq_true.mp ha
      exact iff_of_true ⟨_, rfl⟩ (.inr ⟨share, hs, first, mem_cons_self, of_decide_eq_true hne⟩)
    | false =>
      refine iff_of_false (fun ⟨_, h⟩ => nomatch h) ?_
      rintro (h | ⟨share, hs, share', hs', hne⟩)
      · exact hlen h
      · have heq : ∀ s ∈ first :: rest, s.data.length = first.data.length := by simpa using ha
        exact hne ((heq share hs).trans (heq share' hs').symm)

/-- **Fewer distinct shares than the threshold are refused exactly if the list itself is too short**, or the
shares at its front differ in length. An error leaves the master key. -/
theorem few_shares_refused_iff (km : KeyManager) (config : ShamirConfig) (shares : List Share)
    (hkm : km.shamir = some config) (hfew : ((shares.map Share.index).dedup.length : Int) < config.threshold) :
    (∃ error, recoverKey config shares = .error error ∧
        km.recoverFromShares shares = .error (.shamir error)) ↔
      (shares.length : Int) < config.threshold ∨
        ∃ share ∈ shares.take config.threshold.toNat, ∃ share' ∈ shares.take config.threshold.toNat,
          share.data.length ≠ share'.data.length := by
  rw [← recoverKey_error_iff (by omega)]
  refine exists_congr fun error => and_iff_left_of_imp fun h => ?_
  simp only [KeyManager.recoverFromShares, hkm, h]

/-- Twice the same index where two shares are needed, once with the data cut short. -/
def unequalShares : List Share := [⟨"share-2", 2, uniformKey 3, 0, 2, 2⟩, ⟨"share-2", 2, [3], 0, 2, 2⟩]

theorem few_shares_refused_iff_unequal : ∃ error, recoverKey contentConfig.recovery.shamir unequalShares =
      .error error ∧ KeyManager.recoverFromShares unequalShares
        ⟨uniformKey 2, contentConfig.recovery, some contentConfig.recovery.shamir⟩ = .error (.shamir error) :=
  (few_shares_refused_iff _ contentConfig.recovery.shamir unequalShares rfl (by decide)).mpr
    (.inr ⟨_, mem_cons_self, _, mem_cons_of_mem _ mem_cons_self, by decide⟩)

/-- The second share twice where two shares are needed: the master key of twos becomes one of zeros. -/
theorem repeated_share_accepted :
    KeyManager.recoverFromShares [⟨"share-2", 2, uniformKey 3, 0, 2, 2⟩, ⟨"share-2", 2, uniformKey 3, 0, 2, 2⟩]
        ⟨uniformKey 2, contentConfig.recovery, some contentConfig.recovery.shamir⟩ =
      .ok ⟨uniformKey 0, contentConfig.recovery, some contentConfig.recovery.shamir⟩ := by
  decide +kernel

end Bib.Encryption
