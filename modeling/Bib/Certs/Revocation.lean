import Bib.Certs.Certificate
import Bib.Lib.Run
import Mathlib.Data.List.Infix

/-!
# Bib.Certs.Revocation

**The revocation list** (`internal/certs/revocation.go`), in memory and in its file.

The list is keyed by fingerprints. `RevokeCert` takes the fingerprint of a certificate from its
PEM text, but `IsCertRevoked` reads the DER bytes of the certificate as if they were a PEM text:
there is no block in them, and the key that is looked up is empty. `recognised_iff` says in which
runs list and look-up agree. Lists that are exchanged converge (`lists_converge`).
-/

namespace Bib.Certs

open Bib.Domain Bib.Lib Table

/-! ### The list and its file -/

inductive RevocationReason
  | unspecified
  | keyCompromise
  | caCompromise
  | affiliationChanged
  | superseded
  | cessationOfOps
  | certificateHold
  | removeFromCRL
  | privilegeWithdrawn
  | aaCompromise
  | other (text : String)
  deriving DecidableEq

structure RevokedCertificate where
  (fingerprint serialHex subject : String)
  revokedAt : Time
  reason : RevocationReason
  revokedBy : String
  expiresAt : Time
  notes : String
  deriving DecidableEq

open RevokedCertificate (fingerprint)

/-- `RevocationList` in memory. -/
structure RevocationList where
  entries : Table fingerprint
  version : Nat

def RevocationList.empty : RevocationList := { entries := .empty, version := 0 }

inductive ListFile
  | absent
  | blank
  /-- The JSON of a `RevocationListData`. -/
  | data (version : Nat) (entries : List RevokedCertificate)
  | garbage (err : String)
  deriving DecidableEq

inductive SaveOutcome
  | written
  | mkdirFails (err : String)
  /-- `os.WriteFile` fails, and may have cut the file off. -/
  | writeFails (err : String) (left : Option ListFile)
  deriving DecidableEq

structure RevocationSystem where
  list : RevocationList
  file : ListFile

def RevocationSystem.save (sys : RevocationSystem) (outcome : SaveOutcome)
    (list : RevocationList) : Except String Unit × RevocationSystem :=
  match outcome with
  | .written => (.ok (), { list, file := .data list.version list.entries.rows })
  | .mkdirFails err => (.error ("failed to create directory: " ++ err), { sys with list })
  | .writeFails err left =>
    (.error ("failed to write revocation list: " ++ err), { list, file := left.getD sys.file })

def load : ListFile → Except String RevocationList
  | .absent | .blank => .ok .empty
  | .data version entries => .ok { entries := empty.putAll entries, version }
  | .garbage err => .error ("failed to unmarshal revocation list: " ++ err)

def RevocationList.with (list : RevocationList) (entries : Table fingerprint) : RevocationList :=
  { entries, version := (list.version + 1) % UInt64.size }

/-! ### The operations -/

def RevocationList.isRevoked (list : RevocationList) (fingerprint : String) : Bool :=
  (list.entries.find? fingerprint).isSome

/-- `CertFingerprint`; `cert.Raw` is read as a PEM text. -/
def CertCodec.certFingerprint (codec : CertCodec) (cert : X509) : String :=
  match codec.parseCertificate cert.raw with
  | .ok info => info.fingerprint
  | .error _ => ""

def RevocationList.isCertRevoked (list : RevocationList) (codec : CertCodec) (cert : X509) : Bool :=
  list.isRevoked (codec.certFingerprint cert)

def RevocationSystem.revoke (sys : RevocationSystem) (now : Time) (outcome : SaveOutcome)
    (entry : RevokedCertificate) : Except String Unit × RevocationSystem :=
  let entry := if entry.revokedAt = zeroTime then { entry with revokedAt := now } else entry
  sys.save outcome (sys.list.with (sys.list.entries.put entry))

def RevocationSystem.revokeCert (sys : RevocationSystem) (codec : CertCodec) (now : Time)
    (outcome : SaveOutcome) (certPEM : Bytes) (reason : RevocationReason)
    (revokedBy notes : String) : Except String Unit × RevocationSystem :=
  match codec.parseCertificate certPEM with
  | .error err => (.error ("failed to parse certificate: " ++ err), sys)
  | .ok cert =>
    sys.revoke now outcome
      { fingerprint := cert.fingerprint, serialHex := cert.serialHex, subject := cert.subject
        revokedAt := now, reason, revokedBy, expiresAt := cert.expiresAt, notes }

def RevocationSystem.remove (sys : RevocationSystem) (outcome : SaveOutcome)
    (fingerprint : String) : Except String Unit × RevocationSystem :=
  if !sys.list.isRevoked fingerprint then (.error "certificate not in revocation list", sys)
  else sys.save outcome (sys.list.with (sys.list.entries.erase fingerprint))

/-- `Prune`, with `cutoff` the time `olderThan` ago; also the number of entries that are gone. -/
def RevocationSystem.prune (sys : RevocationSystem) (outcome : SaveOutcome) (cutoff : Time) :
    Nat × Except String Unit × RevocationSystem :=
  let kept := sys.list.entries.filter fun entry => !(entry.expiresAt < cutoff)
  let pruned := sys.list.entries.rows.length - kept.rows.length
  (pruned, if pruned > 0 then sys.save outcome (sys.list.with kept) else (.ok (), sys))

def mergeEntries (entries : Table fingerprint) (remote : List RevokedCertificate) : Table fingerprint :=
  remote.foldl
    (fun entries entry =>
      if (entries.find? entry.fingerprint).isSome then entries else entries.put entry)
    entries

/-- `Merge`; also the number of new entries. -/
def RevocationSystem.merge (sys : RevocationSystem) (outcome : SaveOutcome)
    (remote : List RevokedCertificate) : Nat × Except String Unit × RevocationSystem :=
  let merged := mergeEntries sys.list.entries remote
  let added := merged.rows.length - sys.list.entries.rows.length
  (added, if added > 0 then sys.save outcome (sys.list.with merged) else (.ok (), sys))

def RevocationSystem.reload (sys : RevocationSystem) : Except String Unit × RevocationSystem :=
  match load sys.file with
  | .error err => (.error ("failed to load revocation list: " ++ err), sys)
  | .ok list => (.ok (), { sys with list })

inductive RevocationOp
  | revokeCert (now : Time) (outcome : SaveOutcome) (certPEM : Bytes) (reason : RevocationReason)
      (revokedBy notes : String)
  | remove (outcome : SaveOutcome) (fingerprint : String)
  | prune (outcome : SaveOutcome) (cutoff : Time)
  | merge (outcome : SaveOutcome) (remote : List RevokedCertificate)
  | reload
  deriving DecidableEq

/-- What an operation returns, and the list and its file after it. -/
def RevocationOp.perform (codec : CertCodec) (sys : RevocationSystem) :
    RevocationOp → Except String Unit × RevocationSystem
  | revokeCert now outcome certPEM reason revokedBy notes =>
    sys.revokeCert codec now outcome certPEM reason revokedBy notes
  | remove outcome fingerprint => sys.remove outcome fingerprint
  | prune outcome cutoff => (sys.prune outcome cutoff).2
  | merge outcome remote => (sys.merge outcome remote).2
  | reload => sys.reload

def revocationStep (codec : CertCodec) (sys : RevocationSystem) (op : RevocationOp) : RevocationSystem :=
  (op.perform codec sys).2

/-! ### What an operation does to the list -/

@[simp] theorem list_save (sys : RevocationSystem) (outcome : SaveOutcome) (list : RevocationList) :
    (sys.save outcome list).2.list = list := by
  cases outcome <;> rfl

theorem isRevoked_put (list : RevocationList) (entry : RevokedCertificate) (key : String) :
    (list.with (list.entries.put entry)).isRevoked key =
      (key = entry.fingerprint || list.isRevoked key) := by
  simp only [RevocationList.isRevoked, RevocationList.with, find?_put]
  by_cases hk : key = entry.fingerprint
  · simp [hk]
  · simp [hk]

theorem isRevoked_erase (list : RevocationList) (fingerprint key : String) :
    (list.with (list.entries.erase fingerprint)).isRevoked key =
      (list.isRevoked key && key ≠ fingerprint) := by
  simp only [RevocationList.isRevoked, RevocationList.with, find?_erase]
  by_cases hk : key = fingerprint
  · simp [hk]
  · simp [hk]

theorem isRevoked_filter (list : RevocationList) (p : RevokedCertificate → Bool) (key : String) :
    (list.with (list.entries.filter p)).isRevoked key = (list.entries.find? key).any p := by
  simp only [RevocationList.isRevoked, RevocationList.with, find?_filter]
  cases list.entries.find? key with
  | none => rfl
  | some entry => cases h : p entry <;> simp [Option.filter, h]

theorem mergeEntries_cons (entries : Table fingerprint) (entry : RevokedCertificate)
    (remote : List RevokedCertificate) : mergeEntries entries (entry :: remote) = mergeEntries
      (if (entries.find? entry.fingerprint).isSome then entries else entries.put entry) remote := rfl

theorem isSome_find?_mergeEntries (entries : Table fingerprint) (remote : List RevokedCertificate) (key : String) :
    ((mergeEntries entries remote).find? key).isSome =
      ((entries.find? key).isSome || remote.any fun entry => entry.fingerprint = key) := by
  induction remote generalizing entries with
  | nil => simp [mergeEntries]
  | cons entry remote ih =>
    rw [mergeEntries_cons, ih]
    by_cases hk : key = entry.fingerprint
    · subst hk
      split
      · simp [*]
      · simp [find?_put]
    · split
      · simp [Ne.symm hk]
      · simp [find?_put, hk, Ne.symm hk]

theorem mergeEntries_eq_or_lt (entries : Table fingerprint)
    (remote : List RevokedCertificate) : mergeEntries entries remote = entries ∨
      entries.rows.length < (mergeEntries entries remote).rows.length := by
  induction remote generalizing entries with
  | nil => exact .inl rfl
  | cons entry remote ih =>
    rw [mergeEntries_cons]
    cases hf : entries.find? entry.fingerprint with
    | some old => exact ih entries
    | none =>
      have hl := length_put_of_find?_eq_none hf
      rcases ih (entries.put entry) with hs | hlo
      · right
        simp only [Option.isSome_none, Bool.false_eq_true, if_false, hs]
        omega
      · right
        simp only [Option.isSome_none, Bool.false_eq_true, if_false]
        omega

theorem filter_eq_self_of_length (entries : Table fingerprint) (p : RevokedCertificate → Bool)
    (h : entries.rows.length ≤ (entries.filter p).rows.length) : entries.filter p = entries := by
  have hr : entries.rows.filter p = entries.rows :=
    List.filter_sublist.eq_of_length (Nat.le_antisymm (List.length_filter_le _ _) h)
  cases entries
  simp only [filter, mk.injEq]
  exact hr

/-- The operation puts an entry with this key into the list. -/
def RevocationOp.adds (codec : CertCodec) (key : String) : RevocationOp → Bool
  | revokeCert _ _ certPEM _ _ _ =>
    match codec.parseCertificate certPEM with
    | .error _ => false
    | .ok cert => key = cert.fingerprint
  | merge _ remote => remote.any fun entry => entry.fingerprint = key
  | remove _ _ | prune _ _ | reload => false

/-- The operation takes an entry with this key out of the list. -/
def RevocationOp.drops (list : RevocationList) (key : String) : RevocationOp → Bool
  | remove _ fingerprint => key = fingerprint
  | prune _ cutoff => (list.entries.find? key).any fun entry => entry.expiresAt < cutoff
  | revokeCert _ _ _ _ _ _ | merge _ _ | reload => false

open RevocationOp (adds drops perform)

theorem isRevoked_prune (sys : RevocationSystem) (outcome : SaveOutcome) (cutoff : Time)
    (key : String) : (sys.prune outcome cutoff).2.2.list.isRevoked key = (sys.list.isRevoked key &&
        !(sys.list.entries.find? key).any fun entry => entry.expiresAt < cutoff) := by
  have hk : (sys.list.isRevoked key &&
        !(sys.list.entries.find? key).any fun entry => entry.expiresAt < cutoff) =
      (sys.list.entries.find? key).any (fun entry => !(entry.expiresAt < cutoff)) := by
    unfold RevocationList.isRevoked
    cases sys.list.entries.find? key <;> simp
  rw [hk]
  simp only [RevocationSystem.prune]
  split
  · rw [list_save, isRevoked_filter]
  next hnone =>
    have hall : sys.list.entries.filter (fun entry => !(entry.expiresAt < cutoff)) =
        sys.list.entries := filter_eq_self_of_length _ _ (by omega)
    rw [← isRevoked_filter, hall]
    rfl

theorem isRevoked_merge (sys : RevocationSystem) (outcome : SaveOutcome)
    (remote : List RevokedCertificate) (key : String) :
    (sys.merge outcome remote).2.2.list.isRevoked key =
      (sys.list.isRevoked key || remote.any fun entry => entry.fingerprint = key) := by
  simp only [RevocationSystem.merge, RevocationList.isRevoked, ← isSome_find?_mergeEntries]
  split
  · rw [list_save]
    rfl
  next ha =>
    have hs : mergeEntries sys.list.entries remote = sys.list.entries :=
      (mergeEntries_eq_or_lt _ _).resolve_right (by omega)
    rw [hs]

variable {codec : CertCodec} {sys : RevocationSystem} {op : RevocationOp}

/-- An operation other than a reload adds keys and drops keys. -/
theorem isRevoked_step (hop : op ≠ .reload) (key : String) :
    (revocationStep codec sys op).list.isRevoked key =
      (op.adds codec key || (sys.list.isRevoked key && !op.drops sys.list key)) := by
  cases op with
  | reload => exact absurd rfl hop
  | revokeCert now outcome certPEM reason revokedBy notes =>
    simp only [revocationStep, perform, RevocationSystem.revokeCert, adds,
      drops, Bool.not_false, Bool.and_true]
    cases codec.parseCertificate certPEM with
    | error err => simp
    | ok cert =>
      simp only [RevocationSystem.revoke, list_save, isRevoked_put]
      split <;> rfl
  | remove outcome fingerprint =>
    simp only [revocationStep, perform, RevocationSystem.remove, adds, drops, Bool.false_or]
    cases hf : sys.list.isRevoked fingerprint with
    | true => simp [isRevoked_erase]
    | false =>
      by_cases hk : key = fingerprint
      · simp [hk, hf]
      · simp [hk]
  | prune outcome cutoff => exact isRevoked_prune sys outcome cutoff key
  | merge outcome remote =>
    simp only [adds, drops, Bool.not_false, Bool.and_true]
    rw [Bool.or_comm]
    exact isRevoked_merge sys outcome remote key

/-! ### Recognising a certificate -/

/-- The list says that the certificate is revoked exactly if it has an entry with the fingerprint of
the certificate. -/
def Recognised (codec : CertCodec) (cert : X509) (sys : RevocationSystem) : Prop :=
  sys.list.isCertRevoked codec cert = true ↔
    (sys.list.entries.find? (codec.fingerprint cert)).isSome = true

theorem recognised_iff_eq {cert : X509} : Recognised codec cert sys ↔
      sys.list.isRevoked (codec.certFingerprint cert) =
        sys.list.isRevoked (codec.fingerprint cert) :=
  Bool.eq_iff_iff.symm

/-- Whether the file has an entry with this key; `none` if it cannot be read. -/
def ListFile.holds (key : String) : ListFile → Option Bool
  | absent | blank => some false
  | data _ entries => some (entries.any fun entry => entry.fingerprint = key)
  | garbage _ => none

/-- `CertFingerprint` finds a PEM block in the DER bytes only if the marker of one is in them. -/
theorem certFingerprint_eq (codec : CertCodec) (cert : X509) : codec.certFingerprint cert =
    if beginMarker <:+: cert.raw then codec.certFingerprint cert else "" := by
  split_ifs with h
  · rfl
  · simp only [CertCodec.certFingerprint, CertCodec.parseCertificate, CertCodec.decode,
      codec.pemDecode_eq_none _ h]

/-- The condition on an operation: it does not tell the fingerprint of the certificate from the key
that is looked up for the certificate, which is empty for nearly all of them. -/
def recognisedStepOk (codec : CertCodec) (cert : X509) (sys : RevocationSystem) (op : RevocationOp) : Bool :=
  let key := if beginMarker <:+: cert.raw then codec.certFingerprint cert else ""
  let fingerprint := codec.fingerprint cert
  if op = .reload then sys.file.holds key = sys.file.holds fingerprint
  else if sys.list.isRevoked fingerprint then
    op.drops sys.list key = op.drops sys.list fingerprint
  else op.adds codec key = op.adds codec fingerprint

theorem isRevoked_reload (codec : CertCodec) (sys : RevocationSystem) (key : String) :
    (revocationStep codec sys .reload).list.isRevoked key =
      (sys.file.holds key).getD (sys.list.isRevoked key) := by
  simp only [revocationStep, perform, RevocationSystem.reload]
  cases sys.file with
  | data version entries =>
    simp only [load, RevocationList.isRevoked, ListFile.holds, Option.getD_some, isSome_find?_putAll]
    simp
  | _ => rfl

theorem drops_of_adds {list : RevocationList} {key : String}
    (h : op.adds codec key = true) (key' : String) : op.drops list key' = false := by
  cases op with
  | remove outcome fingerprint => cases h
  | prune outcome cutoff => cases h
  | reload => cases h
  | _ => rfl

theorem recognised_step_iff (codec : CertCodec) (cert : X509) (sys : RevocationSystem)
    (op : RevocationOp) (h : Recognised codec cert sys) :
    Recognised codec cert (revocationStep codec sys op) ↔
      recognisedStepOk codec cert sys op = true := by
  rw [recognised_iff_eq] at h ⊢
  unfold recognisedStepOk
  rw [← certFingerprint_eq]
  generalize codec.certFingerprint cert = key at h ⊢
  generalize codec.fingerprint cert = fingerprint at h ⊢
  by_cases hop : op = .reload
  · subst hop
    rw [isRevoked_reload, isRevoked_reload, h]
    cases sys.file <;> simp [ListFile.holds]
  · rw [isRevoked_step hop, isRevoked_step hop, h]
    simp only [if_neg hop]
    cases hr : sys.list.isRevoked fingerprint with
    | false => simp
    | true =>
      cases hk : op.adds codec key with
      | true => simp [drops_of_adds hk]
      | false =>
        cases hf : op.adds codec fingerprint with
        | true => simp [drops_of_adds hf]
        | false => simp

/-- **A certificate is recognised throughout a run exactly if** no operation of the run tells its
fingerprint from the key that is looked up for it. -/
theorem recognised_iff (codec : CertCodec) (cert : X509) (sys : RevocationSystem)
    (h : Recognised codec cert sys) (ops : List RevocationOp) :
    (∀ done, done <+: ops → Recognised codec cert (done.foldl (revocationStep codec) sys)) ↔
    Run.AllSteps (revocationStep codec) (fun sys op => recognisedStepOk codec cert sys op = true)
      sys ops :=
  Run.forall_prefix_iff_allSteps (fun _ => True) (Recognised codec cert) (fun _ _ _ => trivial)
    (fun sys op _ hs => recognised_step_iff codec cert sys op hs) trivial h

def sampleCert : X509 :=
  { raw := [1], subject := "", issuer := "", serialHex := "", notBefore := 0, notAfter := 0
    isCA := false }

def noRevocations : RevocationSystem := { list := .empty, file := .absent }

theorem recognised_other_revoked : Recognised plainCodec sampleCert noRevocations ∧ ∀ done,
      done <+: [.revokeCert 0 .written (plainPem [2]) .superseded "ann" "", .reload] →
      Recognised plainCodec sampleCert (done.foldl (revocationStep plainCodec) noRevocations) :=
  have h : Recognised plainCodec sampleCert noRevocations := recognised_iff_eq.mpr (by decide +kernel)
  ⟨h, (recognised_iff plainCodec sampleCert noRevocations h _).mpr (by decide +kernel)⟩

/-- The certificate itself is revoked: the list has its fingerprint, and does not recognise it. -/
theorem revoked_certificate_accepted :
    let sys := revocationStep plainCodec noRevocations
      (.revokeCert 0 .written (plainPem sampleCert.raw) .keyCompromise "ann" "")
    (sys.list.entries.find? (plainCodec.fingerprint sampleCert)).isSome = true ∧
      sys.list.isCertRevoked plainCodec sampleCert = false := by
  decide +kernel

/-! ### Exchanging lists -/

section Exchange

/-- A list whose file has what is in memory. -/
structure SavedList extends RevocationSystem where
  saved : load file = .ok list

/-- `NewRevocationList`: a list that has just loaded its file. -/
def SavedList.newRevocationList (file : ListFile) : Except String SavedList :=
  match h : load file with
  | .error err => .error ("failed to load revocation list: " ++ err)
  | .ok list => .ok { list, file, saved := h }

/-- `Merge` without write failures; the file is written only if an entry is new. -/
def SavedList.mergeSaved (l : SavedList) (remote : List RevokedCertificate) : SavedList where
  toRevocationSystem := (l.merge .written remote).2.2
  saved := by
    simp only [RevocationSystem.merge]
    split
    · simp [RevocationSystem.save, load, putAll_empty]
    · exact l.saved

variable {I : Type} [DecidableEq I]

/-- The first list merges the `Export` of the second. -/
def exchange (lists : I → SavedList) (pair : I × I) : I → SavedList :=
  Function.update lists pair.1 ((lists pair.1).mergeSaved (lists pair.2).list.entries.rows)

/-- Whose initial content has reached a list, directly or through others. -/
def receives (has : I → I → Prop) (pair : I × I) : I → I → Prop :=
  fun i j => has i j ∨ i = pair.1 ∧ has pair.2 j

theorem isRevoked_mergeSaved (l other : SavedList) (key : String) :
    (l.mergeSaved other.list.entries.rows).list.isRevoked key =
      (l.list.isRevoked key || other.list.isRevoked key) := by
  have hrows := isSome_find?_putAll (.empty : Table fingerprint) other.list.entries.rows key
  rw [putAll_empty, find?_empty, Option.isSome_none, Bool.false_or] at hrows
  rw [RevocationList.isRevoked.eq_def other.list, hrows]
  exact isRevoked_merge l.toRevocationSystem .written _ key

theorem isRevoked_exchanges (lists : I → SavedList) (exchanges : List (I × I)) (i : I) (key : String) :
    (exchanges.foldl exchange lists i).list.isRevoked key ↔
      ∃ j, exchanges.foldl receives Eq i j ∧ (lists j).list.isRevoked key := by
  induction exchanges using List.reverseRecOn generalizing i with
  | nil => simp
  | append_singleton exchanges pair ih =>
    simp only [List.foldl_append, List.foldl_cons, List.foldl_nil, exchange, receives]
    by_cases hi : i = pair.1
    · subst hi
      simp [isRevoked_mergeSaved, ih, or_and_right, exists_or]
    · simp [ih, hi]

/-- **Exchanged lists converge**: no merge takes a fingerprint away, lists that have received from all have the
fingerprints of all, and a reload changes nothing. -/
theorem lists_converge (lists : I → SavedList) (exchanges : List (I × I)) :
    let ends := exchanges.foldl exchange lists
    (∀ i key, (lists i).list.isRevoked key → (ends i).list.isRevoked key) ∧
      ((∀ i j, exchanges.foldl receives Eq i j) → ∀ i, (ends i).reload.2.list = (ends i).list ∧
        ∀ key, (ends i).list.isRevoked key ↔ ∃ j, (lists j).list.isRevoked key) := by
  refine ⟨fun i key h => ?_, fun hall i => ⟨?_, fun key => ?_⟩⟩
  · have hself : ∀ i, exchanges.foldl receives Eq i i :=
      Run.invariant (fun has : I → I → Prop => ∀ i, has i i) (fun _ => True) (fun _ _ _ h i => .inl (h i))
        (fun _ => rfl) fun _ _ => trivial
    exact (isRevoked_exchanges lists exchanges i key).mpr ⟨i, hself i, h⟩
  · rw [RevocationSystem.reload, SavedList.saved]
  · simp [isRevoked_exchanges, hall]

end Exchange

end Bib.Certs
