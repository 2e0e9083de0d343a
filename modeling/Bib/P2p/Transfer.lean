import Bib.Domain.Download

/-!
# Bib.P2p.Transfer

**Downloading a dataset from peers** (`p2p/transfer.go`): a download queues its missing chunks, a pool of
workers fetches and verifies them, and when all workers have returned the bitmap decides whether the download is
complete. A step of a worker is one pass of its loop, or one attempt of `downloadChunk`. The update of the
download record within it is not synchronised in the source, and is one step here.
-/

namespace Bib.P2p

open Bib.Lib Bib.Domain

/-- `TransferConfig`: the fields that decide what is downloaded. -/
structure TransferConfig where
  (maxConcurrentChunks maxRetries : Int)
  parallelPeers : Bool

def defaultTransferConfig : TransferConfig :=
  { maxConcurrentChunks := 4, maxRetries := 3, parallelPeers := true }

inductive TransferError
  | noPeers
  | fetch (text : String)
  | hashMismatch
  deriving DecidableEq

def TransferError.message : TransferError → String
  | noPeers => "no peers available"
  | fetch text => text
  | hashMismatch => "hash mismatch"

/-- What a chunk looks like after the transport. -/
inductive Delivery
  /-- `ProtocolClient.GetChunk`: the chunk comes as JSON, which leaves out `Data`. -/
  | withoutData
  /-- A transport that carries the whole chunk. -/
  | withData

def Delivery.decode : Delivery → Chunk → Chunk
  | withoutData, chunk => { chunk with data := [] }
  | withData, chunk => chunk

structure Env where
  cfg : TransferConfig
  delivery : Delivery
  sha256Hex : Bytes → String

/-- `verifyChunk` on the two fields it reads, with strings of either kind. -/
@[simp]
def verifyData {T : Type} [DecidableEq T] (sha256Hex : Bytes → T) (data : Bytes) (hash : T) : Bool :=
  if data.length = 0 then false else sha256Hex data = hash

def verifyChunk (sha256Hex : Bytes → String) (chunk : Chunk) : Bool :=
  verifyData sha256Hex chunk.data chunk.hash

/-- `selectPeer`; the empty string if there is none. -/
def selectPeer (cfg : TransferConfig) (peers : List String) (chunkIndex : Int) : String :=
  if peers.length = 0 then ""
  else if cfg.parallelPeers && peers.length > 1 then
    peers.getD (chunkIndex.tmod peers.length).toNat ""
  else peers.getD 0 ""

/-! ### State of a run -/

inductive Worker
  | idle
  | trying (chunkIndex : Int) (retry : Nat) (lastErr : Option TransferError)
  | exited
  deriving DecidableEq

inductive Phase
  | starting
  | working
  | ended
  deriving DecidableEq

/-- `activeDownload`, with the goroutines that work on it. -/
structure ActiveDownload where
  download : Download
  peers : List String
  phase : Phase
  work : List Int
  workers : List Worker
  cancelled : Bool
  chunkErrors : KeyMap Int TransferError
  /-- The chunks handed to the callback, with the index each was accepted for. -/
  received : List (Int × Chunk)

/-- The arguments of `StartDownload`, and the id it draws. -/
structure Request where
  (id datasetID hash : String)
  totalChunks : Int
  peers : List String

/-- `StartDownload` for a hash that is not being downloaded; `none` is the panic of `make` on a
negative length. -/
def startDownload (req : Request) : Option ActiveDownload :=
  let length := (req.totalChunks + 7).tdiv 8
  if length < 0 then none
  else some
    { download :=
        { id := req.id
          datasetID := req.datasetID
          datasetHash := req.hash
          totalChunks := req.totalChunks
          completedChunks := 0
          chunkBitmap := List.replicate length.toNat 0
          status := .active
          error := "" }
      peers := req.peers
      phase := .starting
      work := []
      workers := []
      cancelled := false
      chunkErrors := .empty
      received := [] }

/-! ### Steps -/

def completeDownload (ad : ActiveDownload) : ActiveDownload :=
  { ad with download := { ad.download with status := .completed } }

/-- The first part of `runDownload`: complete at once, or start the workers. -/
def begin (env : Env) (ad : ActiveDownload) : ActiveDownload :=
  let missing := ad.download.missingChunks
  if missing.length = 0 then { completeDownload ad with phase := .ended }
  else
    let workerCount :=
      if env.cfg.maxConcurrentChunks > missing.length then (missing.length : Int)
      else env.cfg.maxConcurrentChunks
    { ad with
      phase := .working
      work := missing
      workers := List.replicate workerCount.toNat .idle }

/-- How one pass of the loop of `downloadChunk` ends. -/
inductive Attempt
  | failed (error : TransferError)
  | again (error : TransferError)
  | accepted (chunk : Chunk)

/-- One pass of the loop of `downloadChunk`; `answer` is what the peer sends. -/
def attempt (env : Env) (peers : List String) (chunkIndex : Int) (answer : Except String Chunk) : Attempt :=
  if selectPeer env.cfg peers chunkIndex = "" then .failed .noPeers
  else
    match answer with
    | .error text => .again (.fetch text)
    | .ok sent =>
      let chunk := env.delivery.decode sent
      if !verifyChunk env.sha256Hex chunk then .again .hashMismatch else .accepted chunk

/-- One step of the worker at position `i`, which is in state `worker`. -/
def workerStep (env : Env) (i : Nat) (answer : Except String Chunk) (worker : Worker)
    (ad : ActiveDownload) : ActiveDownload :=
  match worker with
  | .idle =>
    match ad.work with
    | [] => { ad with workers := ad.workers.set i .exited }
    | chunkIndex :: work =>
      if ad.cancelled then { ad with work, workers := ad.workers.set i .exited }
      else { ad with work, workers := ad.workers.set i (.trying chunkIndex 0 none) }
  | .trying chunkIndex retry lastErr =>
    if retry < env.cfg.maxRetries then
      match attempt env ad.peers chunkIndex answer with
      | .failed error =>
        { ad with
          chunkErrors := ad.chunkErrors.set chunkIndex error
          workers := ad.workers.set i .idle }
      | .again error =>
        { ad with workers := ad.workers.set i (.trying chunkIndex (retry + 1) (some error)) }
      | .accepted chunk =>
        { ad with
          download := ad.download.setChunkCompleted chunkIndex
          received := ad.received ++ [(chunkIndex, chunk)]
          workers := ad.workers.set i .idle }
    else
      match lastErr with
      -- without a single attempt `downloadChunk` returns nil
      | none => { ad with workers := ad.workers.set i .idle }
      | some error =>
        { ad with
          chunkErrors := ad.chunkErrors.set chunkIndex error
          workers := ad.workers.set i .idle }
  | .exited => ad

/-- The error text of a failed download: that of the entry the map iteration yields first. -/
def failureText (chunkErrors : KeyMap Int TransferError) (pick : Nat) : String :=
  match chunkErrors.rows[pick]? with
  | none => ""
  | some (chunkIndex, error) => s!"chunk {chunkIndex}: {error.message}"

/-- The last part of `runDownload`, after all workers have returned. -/
def conclude (pick : Nat) (ad : ActiveDownload) : ActiveDownload :=
  if ad.download.isComplete then { completeDownload ad with phase := .ended }
  else if ad.cancelled then { ad with phase := .ended }
  else
    { ad with
      download := { ad.download with status := .failed, error := failureText ad.chunkErrors pick }
      phase := .ended }

inductive Event
  | begin
  /-- The worker makes a step; the answer is used if the step asks a peer. -/
  | work (i : Nat) (answer : Except String Chunk)
  /-- `PauseDownload`, if `pause` is set; otherwise `CancelDownload` or `Stop`. -/
  | cancel (pause : Bool)
  /-- All workers have returned; `pick` is the order of the error map. -/
  | conclude (pick : Nat)

/-- One event; an event that cannot happen now changes nothing. -/
def ActiveDownload.step (env : Env) (ad : ActiveDownload) (event : Event) : ActiveDownload :=
  match event with
  | .begin => if ad.phase = .starting then begin env ad else ad
  | .work i answer =>
    match ad.workers[i]? with
    | none => ad
    | some worker => workerStep env i answer worker ad
  | .cancel pause =>
    if pause then
      { ad with cancelled := true, download := { ad.download with status := .paused } }
    else { ad with cancelled := true }
  | .conclude pick =>
    if ad.phase = .working ∧ ∀ worker ∈ ad.workers, worker = .exited then conclude pick ad else ad

def ActiveDownload.run (env : Env) (ad : ActiveDownload) (events : List Event) : ActiveDownload :=
  events.foldl (ActiveDownload.step env) ad

/-! ### What was received -/

def ActiveDownload.chunkData (ad : ActiveDownload) (i : Int) : Bytes :=
  match ad.received.find? fun p => p.1 = i with
  | none => []
  | some (_, chunk) => chunk.data

def ActiveDownload.content (ad : ActiveDownload) : Bytes :=
  (List.range ad.download.totalChunks.toNat).flatMap fun (i : Nat) => ad.chunkData i

end Bib.P2p
