import Bib.Lib.Table

/-!
# Bib.Domain.Chunk

The chunk of a dataset version (`internal/domain/dataset.go`): the record the blob
store, the database and the transfer code pass around.
-/

namespace Bib.Domain

abbrev Bytes := List UInt8

/-- Nanoseconds on the wall clock. -/
abbrev Time := Int

/-- The zero `time.Time`, midnight of January 1 of year 1. -/
def zeroTime : Time := -62135596800000000000

def hexDigit (n : Nat) : Char :=
  Char.ofNat (if n < 10 then '0'.toNat + n else 'a'.toNat + (n - 10))

def hexEncode (bytes : Bytes) : String :=
  String.ofList (bytes.flatMap fun b => [hexDigit (b.toNat / 16), hexDigit (b.toNat % 16)])

inductive ChunkStatus
  | pending
  | downloading
  | downloaded
  | verified
  | failed
  deriving DecidableEq

def ChunkStatus.text : ChunkStatus → String
  | pending => "pending"
  | downloading => "downloading"
  | downloaded => "downloaded"
  | verified => "verified"
  | failed => "failed"

structure Chunk where
  (id datasetID versionID : String)
  index : Int
  hash : String
  size : Int
  status : ChunkStatus
  storagePath : String
  /-- The content, only populated during transfer; it is not part of the JSON form. -/
  data : Bytes
  deriving DecidableEq

inductive ChunkError
  | invalidDatasetID
  | invalidChunkIndex
  | invalidHash
  deriving DecidableEq

def ChunkError.message : ChunkError → String
  | invalidDatasetID => "invalid dataset ID"
  | invalidChunkIndex => "invalid chunk index"
  | invalidHash => "invalid hash"

def Chunk.validate (c : Chunk) : Except ChunkError Unit :=
  if c.datasetID = "" then .error .invalidDatasetID
  else if c.index < 0 then .error .invalidChunkIndex
  else if c.hash = "" then .error .invalidHash
  else .ok ()

end Bib.Domain
