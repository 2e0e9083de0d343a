import Bib.Domain.Chunk

/-!
# Bib.Certs.Certificate

**Certificates as the program reads them** (`internal/certs/certs.go`). PEM and X.509 are
libraries: a `CertCodec` holds their functions, with what is known of them.

A fingerprint is the hash of the DER bytes of a certificate. `ParseCertificate` and
`ParseCertInfo` compute it for a PEM text.
-/

namespace Bib.Certs

open Bib.Domain

/-- `x509.Certificate`: what the program looks at. -/
structure X509 where
  raw : Bytes
  (subject issuer serialHex : String)
  (notBefore notAfter : Time)
  isCA : Bool

def beginMarker : Bytes := "-----BEGIN ".toList.map Char.toUInt8

/-- The functions of `encoding/pem`, `crypto/x509` and `crypto/sha256`. -/
structure CertCodec where
  /-- `pem.Decode`: the bytes of the first block. -/
  pemDecode : Bytes → Option Bytes
  parseDER : Bytes → Except String X509
  sha256 : Bytes → Bytes
  pemDecode_eq_none : ∀ data, ¬beginMarker <:+: data → pemDecode data = none

/-- `certs.Certificate`: what the revocation list takes from it. -/
structure Certificate where
  (fingerprint serialHex subject : String)
  expiresAt : Time

/-- `FingerprintFromCert`. -/
def CertCodec.fingerprint (codec : CertCodec) (cert : X509) : String :=
  hexEncode (codec.sha256 cert.raw)

/-- The first lines of `ParseCertificate` and `ParseCertInfo`. -/
def CertCodec.decode (codec : CertCodec) (certPEM : Bytes) : Except String X509 :=
  match codec.pemDecode certPEM with
  | none => .error "failed to decode PEM block"
  | some der =>
    match codec.parseDER der with
    | .error err => .error ("failed to parse certificate: " ++ err)
    | .ok cert => .ok cert

def CertCodec.parseCertificate (codec : CertCodec) (certPEM : Bytes) : Except String Certificate :=
  match codec.decode certPEM with
  | .error err => .error err
  | .ok cert =>
    .ok
      { fingerprint := codec.fingerprint cert, serialHex := cert.serialHex, subject := cert.subject
        expiresAt := cert.notAfter }

def plainPem (der : Bytes) : Bytes := beginMarker ++ der

/-- A codec for tests: a PEM text is the DER bytes after the marker, and all bytes are the DER bytes of
a certificate. -/
def plainCodec : CertCodec where
  pemDecode data := if beginMarker <+: data then some (data.drop beginMarker.length) else none
  parseDER der :=
    .ok
      { raw := der, subject := "", issuer := "", serialHex := "", notBefore := 0, notAfter := 0
        isCA := false }
  sha256 bytes := bytes
  pemDecode_eq_none _ h := if_neg fun hbegin => h hbegin.isInfix

end Bib.Certs
