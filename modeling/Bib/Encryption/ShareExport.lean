import Bib.Domain.Chunk
import Bib.Lib.Json.Encoded

/-!
# Bib.Encryption.ShareExport

**Shares as portable texts** (`Share.Export`, `ImportShare`, `encryptForRecipient` and `decryptFromRecipient` in
`encryption/shamir.go`). A share is written as JSON, put into a box of NaCl and written in Base64. The key of
the box is the exclusive or of an ephemeral key and the public key of the recipient, and the ephemeral key
stands in front of the box. `golang.org/x/crypto/nacl/secretbox` is a parameter.
-/

namespace Bib.Encryption

open Bib.Domain Bib.Lib Bib.Lib.Json Bib.Lib.Calendar List
open Option (bind_some)

/-! ### Shares as JSON -/

/-- `Share` with Go's own types: strings are bytes, integers have 64 bits and a slice may be nil. -/
structure WireShare where
  id : Bytes
  index : Int64
  data : Option Bytes
  created : Stamp
  (threshold totalShares : Int64)
  deriving DecidableEq

/-- `Share{}`; the zero time is the beginning of the year 1. -/
def WireShare.zero : WireShare :=
  { id := [], index := 0, data := none, created := ⟨-62135596800000000000, 0⟩, threshold := 0
    totalShares := 0 }

/-- The members of a `Share`, with the text of its time. -/
def WireShare.members (s : WireShare) (created : Text) : List (Text × Text) :=
  [(quote (utf8 "id"), quote s.id), (quote (utf8 "index"), intText s.index.toInt),
    (quote (utf8 "data"), bytesText s.data), (quote (utf8 "created"), quoted created),
    (quote (utf8 "threshold"), intText s.threshold.toInt),
    (quote (utf8 "total_shares"), intText s.totalShares.toInt)]

/-- `json.Marshal` of a share; it fails if RFC 3339 has no text for the time. -/
def WireShare.marshal (s : WireShare) : Option Text :=
  (format s.created).map fun created => objectText (s.members created)

def shareFields (other : Leniency) : List (StructField WireShare) :=
  [stringField (utf8 "id") fun id s => { s with id },
    intField (utf8 "index") fun n s => { s with index := Int64.ofInt n },
    bytesField other (utf8 "data") WireShare.data fun data s => { s with data },
    timeField other (utf8 "created") fun created s => { s with created },
    intField (utf8 "threshold") fun n s => { s with threshold := Int64.ofInt n },
    intField (utf8 "total_shares") fun n s => { s with totalShares := Int64.ofInt n }]

/-! ### Boxes -/

abbrev BoxKey := { bytes : Bytes // bytes.length = 32 }

abbrev BoxNonce := { bytes : Bytes // bytes.length = 24 }

/-- `secretbox`: a box is longer than its content by the tag, and its key opens it. -/
structure SecretBox where
  sealBox : BoxKey → BoxNonce → Bytes → Bytes
  openBox : BoxKey → BoxNonce → Bytes → Option Bytes
  length_sealBox : ∀ key nonce data, (sealBox key nonce data).length = data.length + 16
  open_seal : ∀ key nonce data, openBox key nonce (sealBox key nonce data) = some data

/-- The ways in which exporting and importing fail. -/
inductive ShareError
  | marshal
  | invalidPublicKeyLength
  | random
  | base64
  | ciphertextTooShort
  | invalidPrivateKeyLength
  | recoveryFailed
  | unmarshal (error : DecodeError)

/-- The text of the error, up to the colon after which the library's own text follows. The error of the
random source is passed on as it is. -/
def ShareError.message : ShareError → Option String
  | marshal => some "failed to marshal share"
  | invalidPublicKeyLength => some "invalid public key length"
  | random => none
  | base64 => some "failed to decode share"
  | ciphertextTooShort => some "ciphertext too short"
  | invalidPrivateKeyLength => some "invalid private key length"
  | recoveryFailed => some "share recovery failed"
  | unmarshal _ => some "failed to unmarshal share"

/-- The loop that combines the first 32 bytes of both keys. -/
def sharedKey (ephemeral : BoxKey) (other : Bytes) : BoxKey :=
  ⟨List.ofFn fun i : Fin 32 => ephemeral.val.getD i 0 ^^^ other.getD i 0, by simp⟩

/-- `encryptForRecipient`; without a key or a nonce the random source has failed. -/
def encryptForRecipient (box : SecretBox) (ephemeralKey : Option BoxKey) (nonce : Option BoxNonce)
    (data publicKey : Bytes) : Except ShareError Bytes :=
  if publicKey.length < 32 then .error .invalidPublicKeyLength
  else
    match ephemeralKey, nonce with
    | some ephemeralKey, some nonce =>
      let encrypted := nonce.val ++ box.sealBox (sharedKey ephemeralKey publicKey) nonce data
      .ok (ephemeralKey.val ++ encrypted)
    | _, _ => .error .random

variable {data : Bytes}

theorem length_ephemeralPub (h : ¬ data.length < 32 + 24 + 16) : (data.take 32).length = 32 := by
  rw [length_take]
  omega

theorem length_boxNonce (h : ¬ data.length < 32 + 24 + 16) : ((data.drop 32).take 24).length = 24 := by
  rw [length_take, length_drop]
  omega

def decryptFromRecipient (box : SecretBox) (data privateKey : Bytes) : Except ShareError Bytes :=
  if hdata : data.length < 32 + 24 + 16 then .error .ciphertextTooShort
  else if privateKey.length < 32 then .error .invalidPrivateKeyLength
  else
    let ephemeralPub : BoxKey := ⟨data.take 32, length_ephemeralPub hdata⟩
    let ciphertext := data.drop 32
    let nonce : BoxNonce := ⟨ciphertext.take 24, length_boxNonce hdata⟩
    match box.openBox (sharedKey ephemeralPub privateKey) nonce (ciphertext.drop 24) with
    | none => .error .recoveryFailed
    | some plaintext => .ok plaintext

/-! ### Exporting and importing -/

def WireShare.exportShare (box : SecretBox) (ephemeralKey : Option BoxKey)
    (nonce : Option BoxNonce) (recipientPublicKey : Bytes) (s : WireShare) : Except ShareError Bytes :=
  match s.marshal with
  | none => .error .marshal
  | some data =>
    if 0 < recipientPublicKey.length then
      match encryptForRecipient box ephemeralKey nonce data recipientPublicKey with
      | .error error => .error error
      | .ok encrypted => .ok (Base64.encode encrypted)
    else .ok (Base64.encode data)

/-- The end of `ImportShare`. -/
def decodeShare (other : Leniency) (data : Bytes) : Except ShareError WireShare :=
  match unmarshal (shareFields other) .zero data with
  | .error error => .error (.unmarshal error)
  | .ok share => .ok share

def importShare (box : SecretBox) (other : Leniency) (encoded privateKey : Bytes) : Except ShareError WireShare :=
  match Base64.decode encoded with
  | none => .error .base64
  | some data =>
    if 0 < privateKey.length then
      match decryptFromRecipient box data privateKey with
      | .error error => .error error
      | .ok decrypted => decodeShare other decrypted
    else decodeShare other data

/-! ### A share is read back from its JSON -/

def WireShare.received (s : WireShare) : WireShare :=
  { s with id := toValid s.id, created := s.created.received }

section Json

variable {text : Text}

theorem WireShare.isMember_members {s : WireShare} (h : format s.created = some text) :
    ∀ m ∈ s.members text, IsMember 0 m := by
  intro m hm
  simp only [WireShare.members, mem_cons, not_mem_nil, or_false] at hm
  rcases hm with rfl | rfl | rfl | rfl | rfl | rfl
  · exact isMember_quote (isString_quote _).isValue
  · exact isMember_quote (isValue_intText 0 _)
  · exact isMember_quote (isValue_bytesText _)
  · exact isMember_quote (isValue_quoted_format h)
  · exact isMember_quote (isValue_intText 0 _)
  · exact isMember_quote (isValue_intText 0 _)

theorem WireShare.foldlM_members (other : Leniency) {s : WireShare}
    (h : format s.created = some text) :
    (s.members text).foldlM (setMember (shareFields other)) .zero = some s.received := by
  simp only [WireShare.members, foldlM_cons, foldlM_nil, Option.bind_eq_bind]
  rw [setMember_string (utf8 "id") (by decide) rfl, bind_some,
    setMember_int (utf8 "index") (by decide) rfl, bind_some,
    setMember_bytes other (utf8 "data") (by decide) rfl, bind_some,
    setMember_time other (utf8 "created") (by decide) rfl h, bind_some,
    setMember_int (utf8 "threshold") (by decide) rfl, bind_some,
    setMember_int (utf8 "total_shares") (by decide) rfl]
  simp only [Int64.ofInt_toInt]
  rfl

/-- **A share that has been written as JSON is read back.** -/
theorem decodeShare_marshal (other : Leniency) {s : WireShare} {data : Bytes}
    (h : s.marshal = some data) : decodeShare other data = .ok s.received := by
  obtain ⟨text, ht, rfl⟩ := Option.map_eq_some_iff.mp h
  rw [decodeShare, unmarshal_eq_ok (by decide) (WireShare.isMember_members ht)
    (WireShare.foldlM_members other ht)]

end Json

/-! ### What the text of an export gives away -/

structure Coins where
  ephemeralKey : BoxKey
  nonce : BoxNonce

/-- `Share.Export` with working random source. -/
def WireShare.exportWith (box : SecretBox) (coins : Coins) (pk : Bytes) (s : WireShare) : Except ShareError Bytes :=
  s.exportShare box (some coins.ephemeralKey) (some coins.nonce) pk

/-- The key of the box of an exported text: the first 32 bytes combined with the public key. -/
def exportedKey (pk text : Bytes) : Option BoxKey :=
  (Base64.decode text).bind fun data =>
    if h : 32 ≤ data.length then
      some (sharedKey ⟨data.take 32, by rw [List.length_take]; omega⟩ pk)
    else none

def exportedData (box : SecretBox) (pk text : Bytes) : Option Bytes :=
  (Base64.decode text).bind fun data => (decryptFromRecipient box data pk).toOption

/-- No function of the public key and the exported text gives the key of the box. -/
def KeyHidden (box : SecretBox) (pk : Bytes) : Prop :=
  ¬ ∃ find : Bytes → Bytes → Option BoxKey, ∀ (s : WireShare) coins text,
    s.exportWith box coins pk = .ok text → find pk text = some (sharedKey coins.ephemeralKey pk)

/-- No function of the public key and the exported text opens the box. -/
def BoxClosed (box : SecretBox) (pk : Bytes) : Prop :=
  ¬ ∃ read : Bytes → Bytes → Option Bytes, ∀ (s : WireShare) coins text,
    s.exportWith box coins pk = .ok text → read pk text = s.marshal

/-- For the same random bytes the exports of two shares differ at most in the content of boxes of one
length. -/
def SameOutside (box : SecretBox) (pk : Bytes) (s₁ s₂ : WireShare) : Prop :=
  ∀ coins, ∃ box₁ box₂, box₁.length = box₂.length ∧
    s₁.exportWith box coins pk =
      .ok (Base64.encode (coins.ephemeralKey.val ++ (coins.nonce.val ++ box₁))) ∧
    s₂.exportWith box coins pk =
      .ok (Base64.encode (coins.ephemeralKey.val ++ (coins.nonce.val ++ box₂)))

section Export

variable {box : SecretBox} {pk : Bytes} {s : WireShare}

def exportText (box : SecretBox) (coins : Coins) (pk data : Bytes) : Bytes :=
  Base64.encode (coins.ephemeralKey.val ++
    (coins.nonce.val ++ box.sealBox (sharedKey coins.ephemeralKey pk) coins.nonce data))

theorem exportWith_eq (hpk : 32 ≤ pk.length) {data : Bytes} (h : s.marshal = some data)
    (coins : Coins) : s.exportWith box coins pk = .ok (exportText box coins pk data) := by
  have hp : 0 < pk.length := Nat.lt_of_lt_of_le (by decide) hpk
  unfold WireShare.exportWith WireShare.exportShare
  rw [h]
  simp only [hp, if_true, encryptForRecipient, if_neg (Nat.not_lt.mpr hpk)]
  rfl

theorem exportWith_eq_ok (hpk : 32 ≤ pk.length) {coins : Coins} {text : Bytes}
    (h : s.exportWith box coins pk = .ok text) :
    ∃ data, s.marshal = some data ∧ text = exportText box coins pk data := by
  rcases Option.eq_none_or_eq_some s.marshal with hnone | ⟨data, hdata⟩
  · unfold WireShare.exportWith WireShare.exportShare at h
    rw [hnone] at h
    cases h
  · rw [exportWith_eq hpk hdata] at h
    exact ⟨data, hdata, (Except.ok.inj h).symm⟩

theorem exportedKey_exportText (coins : Coins) (pk data : Bytes) :
    exportedKey pk (exportText box coins pk data) = some (sharedKey coins.ephemeralKey pk) := by
  have ht : ∀ rest, (coins.ephemeralKey.val ++ rest).take 32 = coins.ephemeralKey.val :=
    fun rest => take_left' coins.ephemeralKey.property
  have hlen : ∀ rest, 32 ≤ (coins.ephemeralKey.val ++ rest).length := by
    intro rest
    rw [length_append, coins.ephemeralKey.property]
    omega
  simp only [exportedKey, exportText, Base64.decode_encode, bind_some, hlen, dif_pos, ht]

/-- The public key serves as the private key. -/
theorem decryptFromRecipient_public (hpk : 32 ≤ pk.length) (coins : Coins) (data : Bytes) :
    decryptFromRecipient box (coins.ephemeralKey.val ++ (coins.nonce.val ++
      box.sealBox (sharedKey coins.ephemeralKey pk) coins.nonce data)) pk = .ok data := by
  obtain ⟨⟨ephemeralKey, he⟩, ⟨nonce, hn⟩⟩ := coins
  have hl : ¬ pk.length < 32 := by omega
  have hlen : ¬ (ephemeralKey ++ (nonce ++ box.sealBox (sharedKey ⟨ephemeralKey, he⟩ pk)
      ⟨nonce, hn⟩ data)).length < 32 + 24 + 16 := by
    rw [length_append, length_append, box.length_sealBox]
    omega
  unfold decryptFromRecipient
  rw [dif_neg hlen, if_neg hl]
  simp [take_left' he, drop_left' he, take_left' hn, drop_left' hn, box.open_seal]

theorem exportedData_exportText (hpk : 32 ≤ pk.length) (coins : Coins) (data : Bytes) :
    exportedData box pk (exportText box coins pk data) = some data := by
  rw [exportedData, exportText, Base64.decode_encode, bind_some, decryptFromRecipient_public hpk]
  rfl

theorem importShare_exportText (other : Leniency) (hpk : 32 ≤ pk.length) {data : Bytes}
    (h : s.marshal = some data) (coins : Coins) :
    importShare box other (exportText box coins pk data) pk = .ok s.received := by
  have hp : 0 < pk.length := by omega
  simp [importShare, exportText, Base64.decode_encode, hp, decryptFromRecipient_public hpk,
    decodeShare_marshal other h]

end Export

/-- **An exported share is readable with the public key.** For every public key of at least 32 bytes:
outside of the box an export tells only how long the share is; but the key of the box can be computed
from the public key and the text, so one function opens all boxes, and `ImportShare` with the public
key returns every share that has been exported. -/
theorem export_readable_with_public_key (box : SecretBox) (other : Leniency) (pk : Bytes) (hpk : 32 ≤ pk.length) :
    (∀ (s₁ s₂ : WireShare) data₁ data₂, s₁.marshal = some data₁ → s₂.marshal = some data₂ →
        data₁.length = data₂.length → SameOutside box pk s₁ s₂) ∧
      ¬ KeyHidden box pk ∧ ¬ BoxClosed box pk ∧
      ∀ (s : WireShare) data coins, s.marshal = some data →
        ∃ text, s.exportWith box coins pk = .ok text ∧
          importShare box other text pk = .ok s.received := by
  refine ⟨?_, ?_, ?_, ?_⟩
  · intro s₁ s₂ data₁ data₂ h₁ h₂ hlen coins
    refine ⟨_, _, ?_, exportWith_eq hpk h₁ coins, exportWith_eq hpk h₂ coins⟩
    rw [box.length_sealBox, box.length_sealBox, hlen]
  · intro hh
    refine hh ⟨exportedKey, ?_⟩
    intro s coins text ht
    obtain ⟨data, -, rfl⟩ := exportWith_eq_ok hpk ht
    exact exportedKey_exportText coins pk data
  · intro hc
    refine hc ⟨exportedData box, ?_⟩
    intro s coins text ht
    obtain ⟨data, hdata, rfl⟩ := exportWith_eq_ok hpk ht
    rw [exportedData_exportText hpk, hdata]
  · intro s data coins hdata
    exact ⟨_, exportWith_eq hpk hdata coins, importShare_exportText other hpk hdata coins⟩

/-! ### A share that anyone reads -/

def glassBox : SecretBox where
  sealBox key _ data := key.val.take 16 ++ data
  openBox key _ box := if box.take 16 = key.val.take 16 then some (box.drop 16) else none
  length_sealBox key _ data := by
    rw [List.length_append, List.length_take, key.property]
    omega
  open_seal key _ data := by
    have hlen : (key.val.take 16).length = 16 := by
      rw [List.length_take, key.property]
      rfl
    rw [if_pos (List.take_left' hlen), List.drop_left' hlen]

/-- The first of two shares of the key `1`. -/
def aliceShare : WireShare :=
  { id := utf8 "alice", index := 1, data := some [1], created := ⟨0, 0⟩, threshold := 2
    totalShares := 2 }

def zeroCoins : Coins := ⟨⟨List.replicate 32 0, rfl⟩, ⟨List.replicate 24 0, rfl⟩⟩

def samplePk : Bytes := List.replicate 32 7

theorem export_readable_with_public_key_sample : ¬ KeyHidden glassBox samplePk ∧ ¬ BoxClosed glassBox samplePk :=
  have h := export_readable_with_public_key glassBox .strict samplePk (by decide)
  ⟨h.2.1, h.2.2.1⟩

/-- The export of a share for a public key is imported with the public key. -/
theorem import_with_public_key :
    ∃ text, aliceShare.exportWith glassBox zeroCoins samplePk = .ok text ∧
      importShare glassBox .strict text samplePk = .ok aliceShare := by
  have hf : format aliceShare.created = some aliceShare.created.text := if_pos (by decide)
  have hdata : aliceShare.marshal = some (objectText (aliceShare.members aliceShare.created.text)) :=
    congrArg (Option.map _) hf
  have hr : aliceShare.received = aliceShare := by decide
  refine ⟨_, exportWith_eq (by decide) hdata zeroCoins, ?_⟩
  rw [importShare_exportText .strict (by decide) hdata, hr]

end Bib.Encryption
