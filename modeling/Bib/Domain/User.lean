import Bib.Domain.Chunk

/-!
# Bib.Domain.User

The user account (`internal/domain/user.go`). A user is identified by a public key: the id and the
fingerprint are computed from it.
-/

namespace Bib.Domain

/-- `UserStatus`, a string in the source. -/
inductive UserStatus
  | active
  | pending
  | suspended
  | deleted
  | other (text : String)
  deriving DecidableEq

def UserStatus.isValid : UserStatus → Bool
  | active | pending | suspended | deleted => true
  | other _ => false

/-- `UserRole`, a string in the source. -/
inductive UserRole
  | admin
  | user
  | readonly
  | other (text : String)
  deriving DecidableEq

def UserRole.ofText (text : String) : UserRole :=
  if text = "admin" then admin else if text = "user" then user
  else if text = "readonly" then readonly else other text

def UserRole.text : UserRole → String
  | admin => "admin"
  | user => "user"
  | readonly => "readonly"
  | other text => text

def UserRole.isValid : UserRole → Bool
  | admin | user | readonly => true
  | other _ => false

/-- `KeyType`, a string in the source. -/
inductive KeyType
  | ed25519
  | rsa
  | other (text : String)
  deriving DecidableEq

def KeyType.text : KeyType → String
  | ed25519 => "ed25519"
  | rsa => "rsa"
  | other text => text

/-- `User`, without the free-form metadata. -/
structure User where
  id : String
  publicKey : Bytes
  keyType : KeyType
  (publicKeyFingerprint name email : String)
  status : UserStatus
  role : UserRole
  locale : String
  (createdAt updatedAt : Time)
  lastLoginAt : Option Time

inductive UserError
  | invalidUserID
  | invalidPublicKey
  | invalidKeyType
  | invalidUserName
  | invalidUserStatus
  | invalidUserRole

def UserError.message : UserError → String
  | invalidUserID => "invalid user ID"
  | invalidPublicKey => "invalid public key"
  | invalidKeyType => "invalid key type"
  | invalidUserName => "invalid user name"
  | invalidUserStatus => "invalid user status"
  | invalidUserRole => "invalid user role"

def User.validate (u : User) : Except UserError Unit :=
  if u.id = "" then .error .invalidUserID
  else if u.publicKey.length = 0 then .error .invalidPublicKey
  else
    match u.keyType with
    | .other _ => .error .invalidKeyType
    | keyType =>
      if keyType = .ed25519 ∧ u.publicKey.length ≠ 32 then .error .invalidPublicKey
      else if keyType = .rsa ∧ u.publicKey.length < 64 then .error .invalidPublicKey
      else if u.name = "" then .error .invalidUserName
      else if !u.status.isValid then .error .invalidUserStatus
      else if !u.role.isValid then .error .invalidUserRole
      else .ok ()

def User.isAdmin (u : User) : Bool := u.role = .admin

def User.isActive (u : User) : Bool := u.status = .active

/-- `UserIDFromPublicKey`: the first 20 bytes of the hash of the key. -/
def userIDFromPublicKey (sha256 : Bytes → Bytes) (publicKey : Bytes) : String :=
  if publicKey.length = 0 then "" else hexEncode ((sha256 publicKey).take 20)

def publicKeyFingerprint (sha256 : Bytes → Bytes) (publicKey : Bytes) : String :=
  if publicKey.length = 0 then "" else hexEncode (sha256 publicKey)

def newUser (sha256 : Bytes → Bytes) (now : Time) (publicKey : Bytes) (keyType : KeyType)
    (name email : String) (isFirstUser : Bool) : User :=
  { id := userIDFromPublicKey sha256 publicKey
    publicKey
    keyType
    publicKeyFingerprint := publicKeyFingerprint sha256 publicKey
    name
    email
    status := .active
    role := if isFirstUser then .admin else .user
    locale := ""
    createdAt := now
    updatedAt := now
    lastLoginAt := none }

end Bib.Domain
