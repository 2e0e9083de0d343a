import Bib.Domain.User

/-!
# Bib.Auth.Keys

**Public keys and signatures** (`internal/auth/keys.go`): the forms in which a client may send its
key, the canonical bytes they stand for, and the check of a signature.

The primitives of the Go library and of `golang.org/x/crypto/ssh` are parameters, collected in
`KeyTools`; nothing is assumed about them.
-/

namespace Bib.Auth

open Bib.Domain

/-- What `CryptoPublicKey` returns, with RSA keys of type `K`. -/
inductive CryptoKey (K : Type)
  | ed25519 (key : Bytes)
  | rsa (key : K)
  /-- Any other type, with its name. -/
  | other (typeName : String)

structure SshKey (K : Type) where
  /-- `CryptoPublicKey`, for the keys that have it. -/
  cryptoKey : Option (CryptoKey K)
  marshal : Bytes
  algorithm : String

/-- Keys and signatures of the Go library and `x/crypto/ssh`. -/
structure KeyTools (K : Type) where
  (parseAuthorizedKey parsePublicKey : Bytes → Except String (SshKey K))
  base64Decode : Bytes → Except String Bytes
  marshalPKIX : K → Except String Bytes
  /-- `x509.ParsePKIXPublicKey`; `none` for a key that is not RSA. -/
  parsePKIX : Bytes → Except String (Option K)
  sha256 : Bytes → Bytes
  /-- `ed25519.Verify`, of a key, a message and a signature. -/
  ed25519Verify : Bytes → Bytes → Bytes → Bool
  /-- `rsa.VerifyPKCS1v15`, of a key, a SHA-256 hash and a signature. -/
  verifyPKCS1v15 : K → Bytes → Bytes → Except String Unit
  /-- `ssh.Unmarshal` into a signature, of which only the blob is used. -/
  unmarshalSignature : Bytes → Except String Bytes

variable {K : Type}

/-! ### Parsing -/

def parseSSHPublicKey (tools : KeyTools K) (key : SshKey K) : Except String (Bytes × KeyType) :=
  match key.cryptoKey with
  | some (.ed25519 k) => .ok (k, .ed25519)
  | some (.rsa k) =>
    match tools.marshalPKIX k with
    | .error err => .error ("failed to marshal RSA public key: " ++ err)
    | .ok bytes => .ok (bytes, .rsa)
  | some (.other typeName) => .error ("unsupported key type: " ++ typeName)
  | none =>
    if key.algorithm = "ssh-ed25519" then
      -- the marshalled form ends with the 32 bytes of the key
      .ok (if key.marshal.length > 32 then key.marshal.drop (key.marshal.length - 32)
        else key.marshal, .ed25519)
    else if key.algorithm = "ssh-rsa" then .ok (key.marshal, .rsa)
    else .error ("unsupported SSH key type: " ++ key.algorithm)

def parseAuthorizedKey (tools : KeyTools K) (keyData : Bytes) : Except String (Bytes × KeyType) :=
  match tools.parseAuthorizedKey keyData with
  | .error err => .error ("failed to parse authorized key: " ++ err)
  | .ok key => parseSSHPublicKey tools key

def parsePublicKeyAuto (tools : KeyTools K) (keyData : Bytes) : Except String (Bytes × KeyType) :=
  if "ssh-".toUTF8.toList.isPrefixOf keyData || "ecdsa-".toUTF8.toList.isPrefixOf keyData then
    parseAuthorizedKey tools keyData
  else if keyData.length = 32 then .ok (keyData, .ed25519)
  else
    match tools.parsePublicKey keyData with
    | .ok key => parseSSHPublicKey tools key
    | .error _ =>
      match tools.base64Decode keyData with
      | .error _ => .error "unable to parse public key: unrecognized format"
      | .ok decoded =>
        match tools.parsePublicKey decoded with
        | .error _ => .error "unable to parse public key: unrecognized format"
        | .ok key => parseSSHPublicKey tools key

/-- `PublicKeyInfo`, without the fingerprints, the size and the printed form. -/
structure PublicKeyInfo where
  keyType : KeyType
  keyBytes : Bytes

def getPublicKeyInfo (tools : KeyTools K) (keyData : Bytes) : Except String PublicKeyInfo :=
  match parsePublicKeyAuto tools keyData with
  | .error err => .error err
  | .ok (keyBytes, keyType) => .ok { keyType, keyBytes }

/-! ### Signatures -/

def verifySignature (tools : KeyTools K) (keyBytes : Bytes) (keyType : KeyType)
    (message signature : Bytes) : Except String Unit :=
  match keyType with
  | .ed25519 =>
    if keyBytes.length ≠ 32 then
      .error ("invalid Ed25519 public key size: got " ++ toString keyBytes.length ++ ", want 32")
    else if !tools.ed25519Verify keyBytes message signature then
      .error "Ed25519 signature verification failed"
    else .ok ()
  | .rsa =>
    match tools.parsePKIX keyBytes with
    | .error err => .error ("failed to parse RSA public key: " ++ err)
    | .ok none => .error "key is not RSA"
    | .ok (some key) =>
      match tools.verifyPKCS1v15 key (tools.sha256 message) signature with
      | .error err => .error ("RSA signature verification failed: " ++ err)
      | .ok () => .ok ()
  | .other text => .error ("unsupported key type: " ++ text)

def verifySSHSignature (tools : KeyTools K) (keyBytes : Bytes) (keyType : KeyType)
    (message signature : Bytes) : Except String Unit :=
  match verifySignature tools keyBytes keyType message signature with
  | .ok () => .ok ()
  | .error _ =>
    match tools.unmarshalSignature signature with
    | .error _ => verifySignature tools keyBytes keyType message signature
    | .ok blob => verifySignature tools keyBytes keyType message blob

/-- `VerifySignature` accepts the signature itself, or the blob of the SSH signature it encodes. -/
def Accepts (tools : KeyTools K) (keyBytes : Bytes) (keyType : KeyType) (message signature : Bytes) : Prop :=
  verifySignature tools keyBytes keyType message signature = .ok () ∨
    ∃ blob, tools.unmarshalSignature signature = .ok blob ∧
      verifySignature tools keyBytes keyType message blob = .ok ()

theorem accepts_of_verifySSHSignature {tools : KeyTools K} {keyBytes : Bytes} {keyType : KeyType}
    {message signature : Bytes}
    (h : verifySSHSignature tools keyBytes keyType message signature = .ok ()) :
    Accepts tools keyBytes keyType message signature := by
  unfold verifySSHSignature at h
  split at h
  next hr => exact .inl hr
  next =>
    split at h
    next => exact .inl h
    next blob hb => exact .inr ⟨blob, hb, h⟩

end Bib.Auth
