import Bib.Encryption.ShareExport
import Bib.Lib.Frame
import Bib.Postgres.CredentialJson

/-!
# Bib.Postgres.CredentialStore

**The encrypted credentials file and what a start makes of it** (`encryption.go`, `storage.go` and
`Manager.Initialize` of `postgres/credentials`). Three formats share one file. The two simple ones are a letter,
a nonce and a sealed text; the hybrid one holds both of them. Only the hybrid encryptor looks at the letter: the
others fail on a file of another format (`Unforged`). A manager whose file cannot be loaded writes new
credentials over it.
-/

namespace Bib.Postgres

open Bib.Domain Bib.Lib Bib.Lib.Json Bib.Lib.Calendar List
open Bib.Encryption (SecretBox BoxKey BoxNonce)

/-! ### Ciphers -/

abbrev GcmNonce := { bytes : Bytes // bytes.length = 12 }

/-- AES-GCM: what is sealed is longer than the text by the tag, and the key opens it. -/
structure Gcm where
  sealGcm : Bytes → GcmNonce → Bytes → Bytes
  openGcm : Bytes → GcmNonce → Bytes → Option Bytes
  length_sealGcm : ∀ key nonce data, (sealGcm key nonce data).length = data.length + 16
  open_seal : ∀ key nonce data, openGcm key nonce (sealGcm key nonce data) = some data

/-- The ciphers and the functions that derive their keys. -/
structure Crypto where
  box : SecretBox
  gcm : Gcm
  sha512 : Bytes → { digest : Bytes // digest.length = 64 }
  /-- 32 bytes of HKDF-SHA256 for a secret, a salt and an info. -/
  hkdf : Bytes → Bytes → Bytes → Bytes

/-- The clamping of an X25519 key. -/
def clamp (digest : { digest : Bytes // digest.length = 64 }) : BoxKey :=
  ⟨((digest.val.take 32).modify 0 (· &&& 248)).modify 31 fun b => (b &&& 127) ||| 64, by
    simp [digest.property]⟩

/-- The encryptors; each has the keys of both ciphers here. -/
structure Encryptor where
  method : EncryptionMethod
  boxKey : BoxKey
  gcmKey : Bytes

def newEncryptor (crypto : Crypto) (method : EncryptionMethod) (identityKey : Bytes) : Except String Encryptor :=
  if identityKey.length < 32 then .error "invalid key length"
  else
    .ok
      { method
        boxKey := clamp (crypto.sha512 (identityKey.take 32))
        gcmKey := crypto.hkdf (identityKey.take 32) (utf8 "bibd-static-salt-v1")
          (utf8 "bibd-credential-encryption-v1") }

/-- What the random source gives for nonces, or its errors. -/
structure Nonces where
  gcm : Except String GcmNonce
  box : Except String BoxNonce

section Formats

variable (crypto : Crypto) (e : Encryptor)

def x25519Encrypt (nonces : Nonces) (plaintext : Bytes) : Except String Bytes :=
  match nonces.box with
  | .error err => .error ("failed to generate nonce: " ++ err)
  | .ok nonce => .ok (0x78 :: (nonce.val ++ crypto.box.sealBox e.boxKey nonce plaintext))

/-- `x25519Encryptor.Decrypt`; the letter is skipped. -/
def x25519Decrypt (ciphertext : Bytes) : Option Bytes :=
  if h : ciphertext.length < 1 + 24 + 16 then none
  else
    let data := ciphertext.drop 1
    crypto.box.openBox e.boxKey ⟨data.take 24, by simp [data]; omega⟩ (data.drop 24)

def hkdfEncrypt (nonces : Nonces) (plaintext : Bytes) : Except String Bytes :=
  match nonces.gcm with
  | .error err => .error ("failed to generate nonce: " ++ err)
  | .ok nonce => .ok (0x68 :: (nonce.val ++ crypto.gcm.sealGcm e.gcmKey nonce plaintext))

/-- `hkdfEncryptor.Decrypt`; the letter is skipped. -/
def hkdfDecrypt (ciphertext : Bytes) : Option Bytes :=
  if h : ciphertext.length < 1 + 12 + 16 then none
  else
    let data := ciphertext.drop 1
    crypto.gcm.openGcm e.gcmKey ⟨data.take 12, by simp [data]; omega⟩ (data.drop 12)

def hybridEncrypt (nonces : Nonces) (plaintext : Bytes) : Except String Bytes :=
  match hkdfEncrypt crypto e nonces plaintext with
  | .error err => .error err
  | .ok hkdfCiphertext =>
    match x25519Encrypt crypto e nonces plaintext with
    | .error err => .error err
    | .ok x25519Ciphertext =>
      .ok (0x48 :: (Frame.header hkdfCiphertext.length ++ (hkdfCiphertext ++ x25519Ciphertext)))

/-- `hybridDecrypt`: by its first byte a text is in two parts, of which either will do, or in one. -/
def hybridDecrypt (ciphertext : Bytes) : Option Bytes :=
  if ciphertext.length < 6 then none
  else
    match ciphertext with
    | 0x48 :: rest =>
      match Frame.readHeader rest with
      | none => none
      | some (hkdfLen, parts) =>
        if ciphertext.length < 5 + hkdfLen then none
        else (hkdfDecrypt crypto e (parts.take hkdfLen)).or (x25519Decrypt crypto e (parts.drop hkdfLen))
    | 0x68 :: _ => hkdfDecrypt crypto e ciphertext
    | 0x78 :: _ => x25519Decrypt crypto e ciphertext
    | _ => (hkdfDecrypt crypto e ciphertext).or (x25519Decrypt crypto e ciphertext)

def Encryptor.encrypt (nonces : Nonces) (plaintext : Bytes) : Except String Bytes :=
  match e.method with
  | .x25519 => x25519Encrypt crypto e nonces plaintext
  | .hkdf => hkdfEncrypt crypto e nonces plaintext
  | .hybrid => hybridEncrypt crypto e nonces plaintext

/-- `Encryptor.Decrypt`; all errors are `ErrDecryptionFailed`. -/
def Encryptor.decrypt (ciphertext : Bytes) : Option Bytes :=
  match e.method with
  | .x25519 => x25519Decrypt crypto e ciphertext
  | .hkdf => hkdfDecrypt crypto e ciphertext
  | .hybrid => hybridDecrypt crypto e ciphertext

end Formats

/-! ### The file -/

inductive LoadError
  | credentialsNotFound
  | read (err : String)
  | corruptedCredentials
  | decryption
  | unmarshal (err : DecodeError)

/-- `Storage.Load`; `readError` is an error of the file system on a file that exists. -/
def load (crypto : Crypto) (other : Leniency) (e : Encryptor) (readError : Option String) :
    Option Bytes → Except LoadError WireCredentials
  | none => .error .credentialsNotFound
  | some encrypted =>
    match readError with
    | some err => .error (.read err)
    | none =>
      if encrypted.length = 0 then .error .corruptedCredentials
      else
        match e.decrypt crypto encrypted with
        | none => .error .decryption
        | some plaintext =>
          match unmarshalCredentials other plaintext with
          | .error err => .error (.unmarshal err)
          | .ok creds => .ok creds

/-- What `Save` meets: the random source, and the errors of the file system. -/
structure SaveEnv where
  nonces : Nonces
  (writeError renameError : Option String)

/-- `Storage.Save`, with the file after it. The temporary file is not kept track of. -/
def save (crypto : Crypto) (e : Encryptor) (env : SaveEnv) (creds : WireCredentials)
    (file : Option Bytes) : Except String Unit × Option Bytes :=
  match creds.marshal with
  | none => (.error "failed to marshal credentials", file)
  | some plaintext =>
    match e.encrypt crypto env.nonces plaintext with
    | .error err => (.error ("failed to encrypt credentials: " ++ err), file)
    | .ok encrypted =>
      match env.writeError with
      | some err => (.error ("failed to write temp credentials file: " ++ err), file)
      | none =>
        match env.renameError with
        | some err => (.error ("failed to rename credentials file: " ++ err), file)
        | none => (.ok (), some encrypted)

/-! ### The manager -/

structure CredentialManager where
  config : Config
  encryptor : Encryptor

/-- `NewManager`, with a directory for the file. -/
def newManager (crypto : Crypto) (config : Config) (identityKey : Bytes) : Except String CredentialManager :=
  let config :=
    { config with passwordLength := if config.passwordLength < 32 then 64 else config.passwordLength }
  match newEncryptor crypto config.encryptionMethod identityKey with
  | .error err => .error ("failed to create encryptor: " ++ err)
  | .ok encryptor => .ok { config, encryptor }

structure StartEnv extends SaveEnv where
  readError : Option String
  now : Time
  entropy : Nat → Entropy

/-- `Initialize`: the credentials, and the file after it. -/
def initializeCredentials (crypto : Crypto) (other : Leniency) (m : CredentialManager)
    (env : StartEnv) (file : Option Bytes) : Except String WireCredentials × Option Bytes :=
  match load crypto other m.encryptor env.readError file with
  | .ok creds => (.ok creds, file)
  | .error _ =>
    match generate m.config env.now env.entropy with
    | .error err => (.error ("failed to generate credentials: " ++ err), file)
    | .ok creds =>
      match save crypto m.encryptor env.toSaveEnv creds.wire file with
      | (.error err, file) => (.error ("failed to save credentials: " ++ err), file)
      | (.ok (), file) => (.ok creds.wire, file)

/-! ### Opening what was sealed -/

section Opening

variable {crypto : Crypto} {e : Encryptor} {nonces : Nonces} {text ciphertext : Bytes}

theorem x25519Decrypt_encrypt (h : x25519Encrypt crypto e nonces text = .ok ciphertext) :
    x25519Decrypt crypto e ciphertext = some text ∧ ciphertext.head? = some 0x78 ∧
      ciphertext.length = text.length + 41 := by
  unfold x25519Encrypt at h
  split at h
  · cases h
  next nonce _ =>
    cases h
    have hn := nonce.property
    have hl : (0x78 :: (nonce.val ++ crypto.box.sealBox e.boxKey nonce text)).length =
        text.length + 41 := by
      simp only [length_cons, length_append, crypto.box.length_sealBox, hn]
      omega
    refine ⟨?_, rfl, hl⟩
    unfold x25519Decrypt
    rw [dif_neg (by omega)]
    simp [take_left' hn, drop_left' hn, crypto.box.open_seal]

theorem hkdfDecrypt_encrypt (h : hkdfEncrypt crypto e nonces text = .ok ciphertext) :
    hkdfDecrypt crypto e ciphertext = some text ∧ ciphertext.head? = some 0x68 ∧
      ciphertext.length = text.length + 29 := by
  unfold hkdfEncrypt at h
  split at h
  · cases h
  next nonce _ =>
    cases h
    have hn := nonce.property
    have hl : (0x68 :: (nonce.val ++ crypto.gcm.sealGcm e.gcmKey nonce text)).length =
        text.length + 29 := by
      simp only [length_cons, length_append, crypto.gcm.length_sealGcm, hn]
      omega
    refine ⟨?_, rfl, hl⟩
    unfold hkdfDecrypt
    rw [dif_neg (by omega)]
    simp [take_left' hn, drop_left' hn, crypto.gcm.open_seal]

theorem hybridEncrypt_eq_ok (h : hybridEncrypt crypto e nonces text = .ok ciphertext) :
    ∃ hkdfCiphertext x25519Ciphertext, hkdfEncrypt crypto e nonces text = .ok hkdfCiphertext ∧
      x25519Encrypt crypto e nonces text = .ok x25519Ciphertext ∧
      ciphertext = 0x48 :: (Frame.header hkdfCiphertext.length ++ (hkdfCiphertext ++ x25519Ciphertext)) := by
  unfold hybridEncrypt at h
  split at h
  · cases h
  next hkdfCiphertext hh =>
    split at h
    · cases h
    next x25519Ciphertext hb =>
      cases h
      exact ⟨hkdfCiphertext, x25519Ciphertext, hh, hb, rfl⟩

/-- `hybridEncryptor.Decrypt` of its own format; a length of `2³²` or more has wrapped. -/
theorem hybridDecrypt_hybrid (first second : Bytes) (hs : 1 ≤ first.length) :
    hybridDecrypt crypto e (0x48 :: (Frame.header first.length ++ (first ++ second))) =
      (hkdfDecrypt crypto e ((first ++ second).take (first.length % 4294967296))).or
        (x25519Decrypt crypto e ((first ++ second).drop (first.length % 4294967296))) := by
  have hl : ¬ (0x48 :: (Frame.header first.length ++ (first ++ second))).length <
      5 + first.length % 4294967296 := by
    simp only [length_cons, length_append, Frame.length_header]
    omega
  unfold hybridDecrypt
  rw [if_neg (by simp; omega)]
  simp only [Frame.readHeader_header, if_neg hl]

theorem hybridDecrypt_simple (hs : 6 ≤ ciphertext.length) :
    (ciphertext.head? = some 0x68 → hybridDecrypt crypto e ciphertext = hkdfDecrypt crypto e ciphertext) ∧
      (ciphertext.head? = some 0x78 →
        hybridDecrypt crypto e ciphertext = x25519Decrypt crypto e ciphertext) := by
  unfold hybridDecrypt
  rw [if_neg (by omega)]
  cases ciphertext with
  | nil => exact ⟨nofun, nofun⟩
  | cons b rest => constructor <;> rintro ⟨⟩ <;> rfl

end Opening

/-! ### Files of another method -/

/-- Nothing in the file opens but the text that was sealed, with a cipher that the writer uses. -/
structure Unforged (crypto : Crypto) (writer : Encryptor) (file text : Bytes) : Prop where
  gcm : ∀ nonce sealed opened, nonce.val ++ sealed <:+: file →
    crypto.gcm.openGcm writer.gcmKey nonce sealed = some opened →
      writer.method ≠ .x25519 ∧ sealed = crypto.gcm.sealGcm writer.gcmKey nonce text
  box : ∀ nonce sealed opened, nonce.val ++ sealed <:+: file →
    crypto.box.openBox writer.boxKey nonce sealed = some opened →
      writer.method ≠ .hkdf ∧ sealed = crypto.box.sealBox writer.boxKey nonce text

section Reading

variable {crypto : Crypto} {writer : Encryptor} {file text part : Bytes}

theorem Unforged.hkdfDecrypt_eq_none (h : Unforged crypto writer file text) (hp : part <:+: file)
    (hother : writer.method = .x25519 ∨ part.length ≠ text.length + 29) :
    hkdfDecrypt crypto writer part = none := by
  by_contra hne
  obtain ⟨opened, ho⟩ := Option.ne_none_iff_exists'.mp hne
  unfold hkdfDecrypt at ho
  split at ho
  next => cases ho
  next hlo =>
    have hi : (part.drop 1).take 12 ++ (part.drop 1).drop 12 <:+: file := by
      rw [take_append_drop]
      exact (drop_suffix 1 part).isInfix.trans hp
    obtain ⟨hm, hs⟩ := h.gcm ⟨(part.drop 1).take 12, by simp; omega⟩ _ opened hi ho
    have hl := congrArg length hs
    rw [crypto.gcm.length_sealGcm] at hl
    simp only [length_drop] at hl
    rcases hother with hx25519 | hsi
    · exact hm hx25519
    · omega

theorem Unforged.x25519Decrypt_eq_none (h : Unforged crypto writer file text) (hp : part <:+: file)
    (hother : writer.method = .hkdf ∨ part.length ≠ text.length + 41) :
    x25519Decrypt crypto writer part = none := by
  by_contra hne
  obtain ⟨opened, ho⟩ := Option.ne_none_iff_exists'.mp hne
  unfold x25519Decrypt at ho
  split at ho
  next => cases ho
  next hlo =>
    have hi : (part.drop 1).take 24 ++ (part.drop 1).drop 24 <:+: file := by
      rw [take_append_drop]
      exact (drop_suffix 1 part).isInfix.trans hp
    obtain ⟨hm, hs⟩ := h.box ⟨(part.drop 1).take 24, by simp; omega⟩ _ opened hi ho
    have hl := congrArg length hs
    rw [crypto.box.length_sealBox] at hl
    simp only [length_drop] at hl
    rcases hother with hh | hsi
    · exact hm hh
    · omega

/-- The reader has the method of the writer or the hybrid one, and in a hybrid file the length of the
first part has not wrapped. -/
def Readable (writer reader : EncryptionMethod) (size : Nat) : Prop :=
  (reader = writer ∨ reader = .hybrid) ∧ (writer = .hybrid → size + 29 < 4294967296)

variable {nonces : Nonces} {method : EncryptionMethod}

theorem decrypt_of_readable (hfi : writer.encrypt crypto nonces text = .ok file)
    (h : Readable writer.method method text.length) :
    ({ writer with method } : Encryptor).decrypt crypto file = some text := by
  obtain ⟨written, boxKey, gcmKey⟩ := writer
  cases written with
  | x25519 =>
    obtain ⟨ho, hh, hl⟩ := x25519Decrypt_encrypt hfi
    rcases h.1 with rfl | rfl
    · exact ho
    · exact ((hybridDecrypt_simple (by omega)).2 hh).trans ho
  | hkdf =>
    obtain ⟨ho, hh, hl⟩ := hkdfDecrypt_encrypt hfi
    rcases h.1 with rfl | rfl
    · exact ho
    · exact ((hybridDecrypt_simple (by omega)).1 hh).trans ho
  | hybrid =>
    obtain rfl : method = .hybrid := h.1.elim id id
    obtain ⟨first, second, hf, _, rfl⟩ := hybridEncrypt_eq_ok hfi
    obtain ⟨ho, _, hl⟩ := hkdfDecrypt_encrypt hf
    have hmo : first.length % 4294967296 = first.length := Nat.mod_eq_of_lt (hl ▸ h.2 rfl)
    refine (hybridDecrypt_hybrid first second (by omega)).trans ?_
    rw [hmo, take_left' rfl]
    rw [ho, Option.some_or]

theorem decrypt_of_not_readable
    (hfl : writer.encrypt crypto nonces text = .ok file) (hu : Unforged crypto writer file text)
    (h : ¬ Readable writer.method method text.length) :
    ({ writer with method } : Encryptor).decrypt crypto file = none := by
  unfold Encryptor.encrypt at hfl
  cases hwr : writer.method with
  | x25519 =>
    rw [hwr] at h
    cases method with
    | x25519 => exact absurd ⟨.inl rfl, by simp⟩ h
    | hkdf => exact hu.hkdfDecrypt_eq_none (infix_refl _) (.inl hwr)
    | hybrid => exact absurd ⟨.inr rfl, by simp⟩ h
  | hkdf =>
    rw [hwr] at h
    cases method with
    | x25519 => exact hu.x25519Decrypt_eq_none (infix_refl _) (.inl hwr)
    | hkdf => exact absurd ⟨.inl rfl, by simp⟩ h
    | hybrid => exact absurd ⟨.inr rfl, by simp⟩ h
  | hybrid =>
    rw [hwr] at h hfl
    obtain ⟨first, second, hf, hs, hp⟩ := hybridEncrypt_eq_ok hfl
    have hfi := (hkdfDecrypt_encrypt hf).2.2
    have hse := (x25519Decrypt_encrypt hs).2.2
    have hl : file.length = 5 + first.length + second.length := by
      simp only [hp, length_cons, length_append, Frame.length_header]
      omega
    cases method with
    | x25519 => exact hu.x25519Decrypt_eq_none (infix_refl _) (.inr (by omega))
    | hkdf => exact hu.hkdfDecrypt_eq_none (infix_refl _) (.inr (by omega))
    | hybrid =>
      -- the length of the first part has wrapped, so that neither part is cut where it ends
      have hw : ¬ text.length + 29 < 4294967296 := fun hlt => h ⟨.inl rfl, fun _ => hlt⟩
      have hpa : first ++ second <:+: file := by
        rw [hp]
        exact ((suffix_append _ _).trans (suffix_cons _ _)).isInfix
      have ht : hkdfDecrypt crypto writer ((first ++ second).take (first.length % 4294967296)) = none := by
        refine hu.hkdfDecrypt_eq_none (( take_prefix _ _).isInfix.trans hpa) (.inr ?_)
        simp only [length_take, length_append]
        omega
      have hd : x25519Decrypt crypto writer ((first ++ second).drop (first.length % 4294967296)) = none := by
        refine hu.x25519Decrypt_eq_none ((drop_suffix _ _).isInfix.trans hpa) (.inr ?_)
        simp only [length_drop, length_append]
        omega
      rw [hp]
      refine (hybridDecrypt_hybrid first second (by omega)).trans ?_
      show (hkdfDecrypt crypto writer _).or (x25519Decrypt crypto writer _) = none
      rw [ht, hd, Option.none_or]

end Reading

/-! ### The three codecs -/

/-- AES-GCM as ideal authenticated encryption on an altered segment: behind its letter the segment is
what was sealed, or it does not open. -/
def Authentic (crypto : Crypto) (e : Encryptor) (segment altered : Bytes) : Prop :=
  altered.drop 1 = segment.drop 1 ∨ hkdfDecrypt crypto e altered = none

/-- **What was encrypted is decrypted, and from a hybrid text also if the HKDF segment is altered.** -/
theorem codec_invertible (crypto : Crypto) (method : EncryptionMethod) (identityKey : Bytes) (e : Encryptor)
    (he : newEncryptor crypto method identityKey = .ok e) (gcm : GcmNonce) (box : BoxNonce) (text : Bytes)
    (hlen : text.length + 29 < 4294967296) :
    ∃ ciphertext, e.encrypt crypto ⟨.ok gcm, .ok box⟩ text = .ok ciphertext ∧
      e.decrypt crypto ciphertext = some text ∧
      (method = .hybrid → ∃ segment rest, hkdfEncrypt crypto e ⟨.ok gcm, .ok box⟩ text = .ok segment ∧
        ciphertext = 0x48 :: (Frame.header segment.length ++ (segment ++ rest)) ∧
        ∀ altered, altered.length = segment.length → Authentic crypto e segment altered →
          e.decrypt crypto (0x48 :: (Frame.header segment.length ++ (altered ++ rest))) = some text) := by
  obtain rfl : e.method = method := by
    unfold newEncryptor at he
    split at he
    · cases he
    · cases he
      rfl
  obtain ⟨ciphertext, hc⟩ : ∃ ciphertext, e.encrypt crypto ⟨.ok gcm, .ok box⟩ text = .ok ciphertext := by
    unfold Encryptor.encrypt
    cases e.method <;> exact ⟨_, rfl⟩
  refine ⟨ciphertext, hc, decrypt_of_readable hc ⟨.inl rfl, fun _ => hlen⟩, fun hm => ?_⟩
  rw [Encryptor.encrypt, hm] at hc
  obtain ⟨segment, rest, hs, hx, rfl⟩ := hybridEncrypt_eq_ok hc
  obtain ⟨ho, -, hl⟩ := hkdfDecrypt_encrypt hs
  refine ⟨segment, rest, hs, rfl, fun altered hal hau => ?_⟩
  have hmod : altered.length % 4294967296 = altered.length := Nat.mod_eq_of_lt (by omega)
  rw [Encryptor.decrypt, hm, ← hal]
  rw [hybridDecrypt_hybrid altered rest (by omega), hmod, take_left' rfl, drop_left' rfl]
  rcases hau with hd | hn
  · have heq : hkdfDecrypt crypto e altered = some text := by
      rw [← ho]
      simp [hkdfDecrypt, hal, hd]
    rw [heq, Option.some_or]
  · rw [hn, Option.none_or, (x25519Decrypt_encrypt hx).1]

/-! ### What can go wrong with new credentials -/

/-- The random source fails for a nonce that the method needs. -/
def Nonces.Fail (nonces : Nonces) : EncryptionMethod → Prop
  | .x25519 => ∃ err, nonces.box = .error err
  | .hkdf => ∃ err, nonces.gcm = .error err
  | .hybrid => (∃ err, nonces.gcm = .error err) ∨ ∃ err, nonces.box = .error err

/-- New credentials cannot be generated or saved: the random source fails for one of the seven
passwords or for a nonce, RFC 3339 has no text for the time or for the end of the interval, or
the file system refuses the temporary file or its renaming. -/
def StartEnv.Fails (m : CredentialManager) (env : StartEnv) : Prop :=
  (∃ i < 7, ∃ err, env.entropy i = .error err) ∨
    (format (utc env.now) = none ∨ format (utc (env.now + m.config.rotationInterval)) = none) ∨
    env.nonces.Fail m.encryptor.method ∨ env.writeError.isSome ∨ env.renameError.isSome

section Generating

variable {config : Config} {now : Time} {entropy : Nat → Entropy}

theorem generatePassword_isOk_iff (length : Nat) {read : Entropy} :
    (∃ pass, generatePassword length read = .ok pass) ↔ ∀ err, read ≠ .error err := by
  cases read <;> simp [generatePassword]

variable {roles : List DBRole} {acc : KeyMap DBRole RoleCredential}

theorem generateRoles_isOk_iff {i : Nat} :
    (∃ result, generateRoles config now entropy i roles acc = .ok result) ↔
      ∀ k < roles.length, ∀ err, entropy (i + k) ≠ .error err := by
  induction roles generalizing i acc with
  | nil => simp [generateRoles]
  | cons role roles ih =>
    cases hread : entropy i with
    | error err =>
      simp only [generateRoles, hread, generatePassword, reduceCtorEq, exists_false, false_iff]
      intro hall
      exact hall 0 (by simp) err hread
    | ok bytes =>
      simp only [generateRoles, hread, generatePassword]
      rw [ih]
      constructor
      · intro hall k hk err
        cases k with
        | zero => simp [hread]
        | succ k =>
          have hstep := hall k (by simpa using hk) err
          rwa [Nat.add_assoc, Nat.add_comm 1 k] at hstep
      · intro hall k hk err
        have hstep := hall (k + 1) (by simpa using hk) err
        rwa [Nat.add_assoc, Nat.add_comm 1 k]

theorem generate_isOk_iff :
    (∃ creds, generate config now entropy = .ok creds) ↔ ∀ i < 7, ∀ err, entropy i ≠ .error err := by
  unfold generate
  constructor
  · rintro ⟨creds, hg⟩ i hi err hread
    split at hg
    · cases hg
    next _ hs =>
      split at hg
      · cases hg
      next _ ha =>
        split at hg
        · cases hg
        next roles hr =>
          -- the reads 0 and 1 are for the superuser and the admin, the others for the job roles
          match i with
          | 0 => exact (generatePassword_isOk_iff _).mp ⟨_, hs⟩ err hread
          | 1 => exact (generatePassword_isOk_iff _).mp ⟨_, ha⟩ err hread
          | k + 2 =>
            refine generateRoles_isOk_iff.mp ⟨roles, hr⟩ k (by simp [jobRoles]; omega) err ?_
            rw [Nat.add_comm, hread]
  · intro hall
    obtain ⟨_, hs⟩ := (generatePassword_isOk_iff config.passwordLength).mpr (hall 0 (by decide))
    obtain ⟨_, ha⟩ := (generatePassword_isOk_iff config.passwordLength).mpr (hall 1 (by decide))
    obtain ⟨roles, hr⟩ : ∃ roles, generateRoles config now entropy 2 jobRoles Table.empty = .ok roles :=
      generateRoles_isOk_iff.mpr fun k hk => by
        rw [Nat.add_comm]
        exact hall (k + 2) (by simp [jobRoles] at hk; omega)
    rw [hs, ha, hr]
    exact ⟨_, rfl⟩

theorem generateRoles_dated {i : Nat} {result : KeyMap DBRole RoleCredential}
    (h : generateRoles config now entropy i roles acc = .ok result) (ha : ∀ entry ∈ acc.rows,
      entry.2.createdAt = now ∧ entry.2.expiresAt = now + config.rotationInterval) :
    ∀ entry ∈ result.rows,
      entry.2.createdAt = now ∧ entry.2.expiresAt = now + config.rotationInterval := by
  induction roles generalizing i acc with
  | nil =>
    cases h
    exact ha
  | cons role roles ih =>
    rw [generateRoles] at h
    split at h
    · cases h
    next pass _ =>
      refine ih h fun entry he => ?_
      rcases Table.mem_put.mp he with rfl | ⟨hold, -⟩
      · exact ⟨rfl, rfl⟩
      · exact ha entry hold

theorem generate_dated {creds : Credentials} (h : generate config now entropy = .ok creds) :
    creds.Dated now (now + config.rotationInterval) := by
  unfold generate at h
  split at h
  · cases h
  · split at h
    · cases h
    · split at h
      · cases h
      next roles hr =>
        cases h
        exact ⟨rfl, rfl, ⟨rfl, rfl⟩, ⟨rfl, rfl⟩, generateRoles_dated hr (by simp [Table.empty])⟩

end Generating

section Saving

variable {crypto : Crypto} {other : Leniency} {m : CredentialManager} {e : Encryptor} {nonces : Nonces}

theorem encrypt_isOk_iff {plaintext : Bytes} :
    (∃ file, e.encrypt crypto nonces plaintext = .ok file) ↔ ¬ nonces.Fail e.method := by
  obtain ⟨gcm, box⟩ := nonces
  unfold Encryptor.encrypt Nonces.Fail
  cases e.method with
  | x25519 => cases box <;> simp [x25519Encrypt]
  | hkdf => cases gcm <;> simp [hkdfEncrypt]
  | hybrid =>
    cases gcm with
    | error err => simp [hybridEncrypt, hkdfEncrypt]
    | ok nonce => cases box <;> simp [hybridEncrypt, hkdfEncrypt, x25519Encrypt]

/-- `Save` writes the encrypted text, or fails and leaves the file. -/
theorem save_eq (crypto : Crypto) (e : Encryptor) (env : SaveEnv) (creds : WireCredentials) (file : Option Bytes) :
    (∃ err, save crypto e env creds file = (.error err, file) ∧
        (creds.marshal = none ∨ env.nonces.Fail e.method ∨ env.writeError.isSome ∨ env.renameError.isSome)) ∨
      ∃ text encrypted, creds.marshal = some text ∧ e.encrypt crypto env.nonces text = .ok encrypted ∧
        env.writeError = none ∧ env.renameError = none ∧
        save crypto e env creds file = (.ok (), some encrypted) := by
  unfold save
  cases hm : creds.marshal with
  | none => exact .inl ⟨_, rfl, .inl rfl⟩
  | some text =>
    dsimp only
    cases he : e.encrypt crypto env.nonces text with
    | error err =>
      refine .inl ⟨_, rfl, .inr (.inl ?_)⟩
      by_contra hok
      obtain ⟨_, hf⟩ := encrypt_isOk_iff.mpr hok
      rw [he] at hf
      cases hf
    | ok encrypted =>
      cases hwrite : env.writeError with
      | some err => exact .inl ⟨_, rfl, .inr (.inr (.inl rfl))⟩
      | none =>
        cases hr : env.renameError with
        | some err => exact .inl ⟨_, rfl, .inr (.inr (.inr rfl))⟩
        | none => exact .inr ⟨text, encrypted, rfl, he, rfl, rfl, rfl⟩

theorem encrypt_ne_nil {text : Bytes} {file : Bytes}
    (h : e.encrypt crypto nonces text = .ok file) : file ≠ [] := by
  rintro rfl
  obtain ⟨method, boxKey, gcmKey⟩ := e
  cases method with
  | x25519 => cases (x25519Decrypt_encrypt h).2.1
  | hkdf => cases (hkdfDecrypt_encrypt h).2.1
  | hybrid =>
    obtain ⟨_, _, _, _, hp⟩ := hybridEncrypt_eq_ok h
    cases hp

/-- A start that cannot load the file writes new credentials over it, unless that fails. -/
theorem initialize_of_load_error {env : StartEnv} {content : Bytes} {err : LoadError}
    (hl : load crypto other m.encryptor env.readError (some content) = .error err) :
    (∃ message, initializeCredentials crypto other m env (some content) = (.error message, some content)) ↔
      env.Fails m := by
  unfold initializeCredentials
  rw [hl]
  cases hg : generate m.config env.now env.entropy with
  | error message =>
    refine ⟨fun _ => .inl ?_, fun _ => ⟨_, rfl⟩⟩
    by_contra hr
    obtain ⟨_, hok⟩ := generate_isOk_iff.mpr fun i hi err hread => hr ⟨i, hi, err, hread⟩
    rw [hg] at hok
    cases hok
  | ok creds =>
    have hr : ¬ ∃ i < 7, ∃ err, env.entropy i = .error err := by
      intro hread
      obtain ⟨i, hi, err, hread⟩ := hread
      exact generate_isOk_iff.mp ⟨creds, hg⟩ i hi err hread
    have hm : creds.wire.marshal = none ↔
        format (utc env.now) = none ∨ format (utc (env.now + m.config.rotationInterval)) = none := by
      rw [← Option.not_isSome_iff_eq_none, (generate_dated hg).marshal_isSome_iff, not_and_or,
        Option.not_isSome_iff_eq_none, Option.not_isSome_iff_eq_none]
    dsimp only
    rw [StartEnv.Fails, ← hm]
    rcases save_eq crypto m.encryptor env.toSaveEnv creds.wire (some content) with
      ⟨message, hs, hw⟩ | ⟨text, encrypted, ht, he, hwrite, hre, hs⟩
    · rw [hs]
      exact ⟨fun _ => .inr hw, fun _ => ⟨_, rfl⟩⟩
    · rw [hs]
      have hn : ¬ env.nonces.Fail m.encryptor.method := encrypt_isOk_iff.mp ⟨encrypted, he⟩
      simp [hr, ht, hn, hwrite, hre]

theorem newManager_eq_ok {config : Config} {identityKey : Bytes}
    (h : newManager crypto config identityKey = .ok m) : m.encryptor =
      { method := config.encryptionMethod
        boxKey := clamp (crypto.sha512 (identityKey.take 32))
        gcmKey := crypto.hkdf (identityKey.take 32) (utf8 "bibd-static-salt-v1")
          (utf8 "bibd-credential-encryption-v1") } := by
  unfold newManager newEncryptor at h
  dsimp only at h
  split at h
  next her => cases h
  next encryptor he =>
    cases h
    split at he
    · cases he
    · cases he
      rfl

end Saving

def brokenStart : StartEnv :=
  { nonces := ⟨.error "", .error ""⟩, writeError := none, renameError := none, readError := none, now := 0
    entropy := fun _ => .error "" }

/-- **What a start keeps.** Credentials that a manager has written come back exactly if the manager that
starts, with the same identity key, has the same method or the hybrid one, and in a hybrid file the
length of the first part has not wrapped. A file that cannot be loaded, whatever it holds, is left
with an error exactly if new credentials cannot be generated or saved; else it is overwritten. -/
theorem credentials_kept_iff (crypto : Crypto) (other : Leniency) (identityKey : Bytes)
    (writerConfig readerConfig : Config) (writer reader : CredentialManager)
    (hwriter : newManager crypto writerConfig identityKey = .ok writer)
    (hreader : newManager crypto readerConfig identityKey = .ok reader) :
    (∀ (creds : Credentials) (env : SaveEnv) (old : Option Bytes) (file text : Bytes),
      creds.wire.marshal = some text →
      save crypto writer.encryptor env creds.wire old = (.ok (), some file) →
      Unforged crypto writer.encryptor file text → ((∀ start : StartEnv, start.readError = none →
            initializeCredentials crypto other reader start (some file) = (.ok creds.wire, some file)) ↔
          Readable writerConfig.encryptionMethod readerConfig.encryptionMethod text.length)) ∧
    (∀ (content : Bytes) (start : StartEnv) (err : LoadError),
      load crypto other reader.encryptor start.readError (some content) = .error err →
        ((∃ message, initializeCredentials crypto other reader start (some content) =
            (.error message, some content)) ↔ start.Fails reader)) := by
  constructor
  · intro creds env old file text ht hsa hu
    have hm : writer.encryptor.method = writerConfig.encryptionMethod := by
      rw [newManager_eq_ok hwriter]
    have hkeys : reader.encryptor = { writer.encryptor with method := readerConfig.encryptionMethod } := by
      rw [newManager_eq_ok hwriter, newManager_eq_ok hreader]
    obtain ⟨_, hf, _⟩ | ⟨text', encrypted, ht', he, -, -, hs⟩ :=
      save_eq crypto writer.encryptor env creds.wire old
    · rw [hsa] at hf
      cases hf
    · rw [hsa] at hs
      cases hs
      rw [ht] at ht'
      cases ht'
      have hnil : ¬ file.length = 0 := fun h => encrypt_ne_nil he (length_eq_zero_iff.mp h)
      have hl := load.eq_def crypto other reader.encryptor none (some file)
      simp only [if_neg hnil] at hl
      rw [← hm]
      constructor
      · intro hall
        by_contra hn
        rw [hkeys, decrypt_of_not_readable he hu hn, ← hkeys] at hl
        have hst := hall brokenStart rfl
        have hread : load crypto other reader.encryptor brokenStart.readError (some file) =
            .error .decryption := hl
        unfold initializeCredentials at hst
        rw [hread] at hst
        cases hst
      · intro hr start hread
        rw [hkeys, decrypt_of_readable he hr, ← hkeys] at hl
        dsimp only at hl
        rw [unmarshalCredentials_marshal other ht] at hl
        unfold initializeCredentials
        rw [hread, hl]
  · intro content start err hl
    exact initialize_of_load_error hl

/-! ### A changed method -/

section Changed

def tagged (tag : UInt8) (data : Bytes) : Bytes := data ++ List.replicate 16 tag

def untagged (tag : UInt8) (sealed : Bytes) : Option Bytes :=
  if sealed.drop (sealed.length - 16) = List.replicate 16 tag then some (sealed.take (sealed.length - 16))
  else none

theorem untagged_tagged (tag : UInt8) (data : Bytes) : untagged tag (tagged tag data) = some data := by
  have hl : (tagged tag data).length - 16 = data.length := by simp [tagged]
  rw [untagged, hl, tagged, drop_left, take_left, if_pos rfl]

theorem mem_of_untagged {tag : UInt8} {sealed data : Bytes} (h : untagged tag sealed = some data) : tag ∈ sealed := by
  unfold untagged at h
  split at h
  next hd =>
    have hmem : tag ∈ sealed.drop (sealed.length - 16) := by
      rw [hd]
      simp
    exact mem_of_mem_drop hmem
  next => cases h

/-- A cipher that seals one text with a nonce in its own way, and all others with another tag. -/
def oneTextGcm (nonce₀ : GcmNonce) (text₀ : Bytes) : Gcm where
  sealGcm _ nonce data := if nonce = nonce₀ ∧ data = text₀ then tagged 1 data else tagged 7 data
  openGcm _ nonce sealed :=
    if nonce = nonce₀ ∧ sealed = tagged 1 text₀ then some text₀ else untagged 7 sealed
  length_sealGcm _ nonce data := by split <;> simp [tagged]
  open_seal _ nonce data := by
    by_cases hone : nonce = nonce₀ ∧ data = text₀
    · rw [if_pos hone, if_pos ⟨hone.1, by rw [hone.2]⟩, hone.2]
    · have hother : ¬ (nonce = nonce₀ ∧ tagged 7 data = tagged 1 text₀) := by
        intro h
        have hlast := congrArg List.getLast? h.2
        simp [tagged, List.getLast?_append] at hlast
      rw [if_neg hone, if_neg hother, untagged_tagged]

def storedCredentials : Credentials :=
  let role (username password : String) : RoleCredential :=
    { username, password, createdAt := 0, expiresAt := 604800000000000, status := .active }
  { version := 1, generatedAt := 0, expiresAt := 604800000000000, encryptionMethod := .hkdf
    superuser := role superuserName "0f0e", admin := role roleAdmin "1f1e"
    roles := jobRoles.foldl (fun roles name => roles.set name (role name "2f2e")) .empty }

def storedText : Bytes := (storedCredentials.wire.marshal).getD []

def sampleNonce : GcmNonce := ⟨List.replicate 12 2, rfl⟩

def sampleCrypto : Crypto where
  box :=
    { sealBox := fun _ _ data => tagged 7 data
      openBox := fun _ _ sealed => untagged 7 sealed
      length_sealBox := fun _ _ data => by simp [tagged]
      open_seal := fun _ _ data => untagged_tagged 7 data }
  gcm := oneTextGcm sampleNonce storedText
  sha512 _ := ⟨List.replicate 64 0, rfl⟩
  hkdf _ _ _ := []

def sampleKey : Bytes := List.replicate 64 5

def configWith (encryptionMethod : EncryptionMethod) : Config :=
  { rotationInterval := 604800000000000, rotationGracePeriod := "5m0s", passwordLength := 64
    encryptionMethod }

def managerWith (method : EncryptionMethod) : CredentialManager :=
  { config := configWith method
    encryptor := { method, boxKey := clamp ⟨List.replicate 64 0, rfl⟩, gcmKey := [] } }

def sampleStart : StartEnv :=
  { nonces := ⟨.ok sampleNonce, .ok ⟨List.replicate 24 3, rfl⟩⟩, writeError := none, renameError := none
    readError := none, now := 1000000000, entropy := fun i => .ok fun j => UInt8.ofNat (i + j) }

/-- The file that the manager with HKDF writes. -/
def storedFile : Bytes := 0x68 :: (sampleNonce.val ++ tagged 1 storedText)

theorem unforged_storedFile : Unforged sampleCrypto (managerWith .hkdf).encryptor storedFile storedText where
  gcm nonce sealed opened hi ho := by
    refine ⟨by decide, ?_⟩
    have ho : (if nonce = sampleNonce ∧ sealed = tagged 1 storedText then some storedText
        else untagged 7 sealed) = some opened := ho
    split at ho
    next hone =>
      show sealed = if nonce = sampleNonce ∧ storedText = storedText then tagged 1 storedText
        else tagged 7 storedText
      rw [if_pos ⟨hone.1, rfl⟩, hone.2]
    next =>
      have hmem : 7 ∈ storedFile := hi.subset (mem_append_right _ (mem_of_untagged ho))
      exact absurd hmem (by decide +kernel)
  box nonce sealed opened hi ho := by
    have hmem : 7 ∈ storedFile := hi.subset (mem_append_right _ (mem_of_untagged ho))
    exact absurd hmem (by decide +kernel)

/-- A start with another simple method does not bring them back. -/
theorem credentials_kept_iff_changed : ¬ ∀ start : StartEnv, start.readError = none →
      initializeCredentials sampleCrypto .strict (managerWith .x25519) start (some storedFile) =
        (.ok storedCredentials.wire, some storedFile) := by
  have hi := (credentials_kept_iff sampleCrypto .strict sampleKey (configWith .hkdf) (configWith .x25519)
    (managerWith .hkdf) (managerWith .x25519) (by rfl) (by rfl)).1 storedCredentials sampleStart.toSaveEnv none
    storedFile storedText (by decide +kernel) (by decide +kernel) unforged_storedFile
  rw [hi]
  intro h
  exact absurd h.1 (by decide)

/-- With a working random source and disk the start with another method returns other credentials and
overwrites the file. -/
theorem credentials_discarded :
    save sampleCrypto (managerWith .hkdf).encryptor sampleStart.toSaveEnv storedCredentials.wire none =
        (.ok (), some storedFile) ∧
      (initializeCredentials sampleCrypto .strict (managerWith .x25519) sampleStart (some storedFile)).1 ≠
        .ok storedCredentials.wire ∧
      (initializeCredentials sampleCrypto .strict (managerWith .x25519) sampleStart (some storedFile)).2 ≠
        some storedFile := by
  refine ⟨?_, ?_, ?_⟩
  · decide +kernel
  · decide +kernel
  · decide +kernel

/-- A text of two bytes with the hybrid method, read back also with zeros for the HKDF segment. -/
theorem codec_invertible_two : ∃ segment rest,
    (managerWith .hybrid).encryptor.encrypt sampleCrypto sampleStart.nonces [1, 2] =
        .ok (0x48 :: (Frame.header 31 ++ (segment ++ rest))) ∧
      ∀ first ∈ [segment, List.replicate 31 0], (managerWith .hybrid).encryptor.decrypt sampleCrypto
        (0x48 :: (Frame.header 31 ++ (first ++ rest))) = some [1, 2] := by
  obtain ⟨_, he, hd, hh⟩ := codec_invertible sampleCrypto .hybrid sampleKey
    (managerWith .hybrid).encryptor rfl sampleNonce ⟨List.replicate 24 3, rfl⟩ [1, 2] (by decide)
  obtain ⟨segment, rest, hs, rfl, halter⟩ := hh rfl
  have hl : segment.length = 31 := (hkdfDecrypt_encrypt hs).2.2
  rw [hl] at he hd halter
  refine ⟨segment, rest, he, forall_mem_cons.mpr ⟨hd, forall_mem_singleton.mpr ?_⟩⟩
  exact halter _ rfl (.inr (by decide +kernel))

end Changed

end Bib.Postgres
