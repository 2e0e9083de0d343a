import Bib.Blob.Gc
import Bib.Blob.Store
import Bib.Lib.Calls

/-!
# Bib.Blob.Hybrid

**Blobs in two tiers** (`blob/hybrid.go`). `HybridStore` writes to a hot store, and `CoolDown`, `WarmUp` and the
tiering policies copy blobs between it and a cold store. Each is several calls to the two stores, any of which
may fail: a call is a value that says which call to a store comes next, and one step makes it. Counters that are
only logged are left out.
-/

namespace Bib.Blob.Hybrid

open Bib.Lib Bib.Domain

/-! ### The hybrid store -/

inductive Strategy
  | lru
  | age
  | manual
  | other (name : String)

/-- `TieringConfig`: the fields the policies read. -/
structure TieringConfig where
  enabled : Bool
  strategy : Strategy
  hotMaxSizeGB : Int64
  hotMaxAgeDays : Int

structure HybridStore (σ τ : Type) where
  cfg : TieringConfig
  hot : Store σ
  cold : Store τ

/-- The bytes the two tiers hold for a hash. -/
structure Copies where
  (hot cold : Option Bytes)
  deriving DecidableEq

structure Tiers (σ τ : Type) where
  hot : σ
  cold : τ

inductive HybridError
  | notFound (hash : String)
  | deleteBoth (hot cold : StoreError)
  | notInHot (hash : String)
  | copyToCold (error : StoreError)
  | deleteFromHot (error : StoreError)
  | notInCold (hash : String)
  | copyToHot (error : StoreError)
  | hotStats (error : StoreError)
  | listHot (error : StoreError)
  | unknownStrategy (name : String)
  deriving DecidableEq

def HybridError.message : HybridError → String
  | notFound hash => s!"blob not found in hot or cold tier: {hash}"
  | deleteBoth hot cold => s!"failed to delete from both tiers: hot={hot.message}, cold={cold.message}"
  | notInHot hash => s!"blob not in hot tier: {hash}"
  | copyToCold error => s!"failed to copy to cold tier: {error.message}"
  | deleteFromHot error => s!"failed to delete from hot tier: {error.message}"
  | notInCold hash => s!"blob not in cold tier: {hash}"
  | copyToHot error => s!"failed to copy to hot tier: {error.message}"
  | hotStats error => s!"failed to get hot tier stats: {error.message}"
  | listHot error => s!"failed to list hot blobs: {error.message}"
  | unknownStrategy name => s!"unknown tiering strategy: {name}"

/-- Where a `CoolDown` stands: the next call it makes to a store, with what it has read. -/
inductive Cool
  | hotExists
  | coldExists
  | hotGet
  | hotMetadata (data : Bytes)
  | coldPut (data : Bytes) (metadata : Metadata)
  | hotDelete
  | returned (result : Except HybridError Unit)
  deriving DecidableEq

inductive Warm
  | coldExists
  | hotExists
  | coldGet
  | coldMetadata (data : Bytes)
  | hotPut (data : Bytes) (metadata : Metadata)
  | returned (result : Except HybridError Unit)
  deriving DecidableEq

/-- A call of the hybrid store; a policy holds what it has listed and the `CoolDown` it is in. -/
inductive Call
  | put (hash : String) (data : Bytes) (metadata : Metadata)
  | stored (hash : String) (data : Bytes)
  | refused (hash : String) (error : StoreError)
  | getHot (hash : String)
  | getCold (hash : String)
  | read (hash : String) (result : Except HybridError Bytes)
  /-- `WarmUp`; `Get` starts one after it has returned the bytes of the cold tier. -/
  | warming (hash : String) (reader : Option Bytes) (warm : Warm)
  | cooling (hash : String) (cool : Cool)
  | deletingHot (hash : String)
  | deletingCold (hash : String) (hotError : Option StoreError)
  | deleted (hash : String) (result : Except HybridError Unit)
  | lruStats
  | lruList (bytesToFree : Int64)
  | lru (bytesToFree freedBytes : Int64) (blob : BlobInfo) (blobs : List BlobInfo) (cool : Cool)
  | ageList
  | age (cutoffTime : Time) (blob : BlobInfo) (blobs : List BlobInfo) (cool : Cool)
  | applied (result : Except HybridError Unit)
  deriving DecidableEq

inductive Request
  | put (hash : String) (data : Bytes) (metadata : Metadata)
  | get (hash : String)
  | delete (hash : String)
  | coolDown (hash : String)
  | warmUp (hash : String)
  | applyTieringPolicy

namespace HybridStore

variable {σ τ : Type} (s : HybridStore σ τ)

def coolStep (input : Input) (hash : String) (cool : Cool) (tiers : Tiers σ τ) : Cool × Tiers σ τ :=
  match cool with
  | .hotExists =>
    match s.hot.existsBlob input hash tiers.hot with
    | .ok true => (.coldExists, tiers)
    | _ => (.returned (.error (.notInHot hash)), tiers)
  | .coldExists =>
    match s.cold.existsBlob input hash tiers.cold with
    | .ok true => (.hotDelete, tiers)
    -- an error counts as absence
    | _ => (.hotGet, tiers)
  | .hotGet =>
    match s.hot.get input hash tiers.hot with
    | (.ok data, hot) => (.hotMetadata data, { tiers with hot })
    | (.error error, hot) => (.returned (.error (.copyToCold error)), { tiers with hot })
  | .hotMetadata data =>
    match s.hot.getMetadata input hash tiers.hot with
    | .ok metadata => (.coldPut data metadata, tiers)
    | .error error => (.returned (.error (.copyToCold error)), tiers)
  | .coldPut data metadata =>
    match s.cold.put input hash data metadata tiers.cold with
    | .ok cold => (.hotDelete, { tiers with cold })
    | .error error => (.returned (.error (.copyToCold error)), tiers)
  | .hotDelete =>
    match s.hot.delete input hash tiers.hot with
    | .ok hot => (.returned (.ok ()), { tiers with hot })
    | .error error => (.returned (.error (.deleteFromHot error)), tiers)
  | .returned result => (.returned result, tiers)

def warmStep (input : Input) (hash : String) (warm : Warm) (tiers : Tiers σ τ) : Warm × Tiers σ τ :=
  match warm with
  | .coldExists =>
    match s.cold.existsBlob input hash tiers.cold with
    | .ok true => (.hotExists, tiers)
    | _ => (.returned (.error (.notInCold hash)), tiers)
  | .hotExists =>
    match s.hot.existsBlob input hash tiers.hot with
    | .ok true => (.returned (.ok ()), tiers)
    | _ => (.coldGet, tiers)
  | .coldGet =>
    match s.cold.get input hash tiers.cold with
    | (.ok data, cold) => (.coldMetadata data, { tiers with cold })
    | (.error error, cold) => (.returned (.error (.copyToHot error)), { tiers with cold })
  | .coldMetadata data =>
    match s.cold.getMetadata input hash tiers.cold with
    | .ok metadata => (.hotPut data metadata, tiers)
    | .error error => (.returned (.error (.copyToHot error)), tiers)
  | .hotPut data metadata =>
    match s.hot.put input hash data metadata tiers.hot with
    | .ok hot => (.returned (.ok ()), { tiers with hot })
    | .error error => (.returned (.error (.copyToHot error)), tiers)
  | .returned result => (.returned result, tiers)

/-- The loop of `applyLRUPolicy`: the next blob is cooled down until enough is freed. -/
def lruNext (bytesToFree freedBytes : Int64) : List BlobInfo → Call
  | [] => .applied (.ok ())
  | blob :: blobs =>
    if bytesToFree ≤ freedBytes then .applied (.ok ())
    else .lru bytesToFree freedBytes blob blobs .hotExists

/-- The loop of `applyAgePolicy`: the next blob that is old enough is cooled down. -/
def ageNext (cutoffTime : Time) : List BlobInfo → Call
  | [] => .applied (.ok ())
  | blob :: blobs =>
    if blob.createdAt < cutoffTime then .age cutoffTime blob blobs .hotExists
    else ageNext cutoffTime blobs

def callStep (input : Input) (call : Call) (tiers : Tiers σ τ) : Call × Tiers σ τ :=
  match call with
  | .put hash data metadata =>
    match s.hot.put input hash data metadata tiers.hot with
    | .ok hot => (.stored hash data, { tiers with hot })
    | .error error => (.refused hash error, tiers)
  | .getHot hash =>
    match s.hot.get input hash tiers.hot with
    | (.ok data, hot) => (.read hash (.ok data), { tiers with hot })
    | (.error _, hot) => (.getCold hash, { tiers with hot })
  | .getCold hash =>
    match s.cold.get input hash tiers.cold with
    | (.ok data, cold) => (.warming hash (some data) .coldExists, { tiers with cold })
    | (.error _, cold) => (.read hash (.error (.notFound hash)), { tiers with cold })
  | .warming hash reader warm =>
    let next := s.warmStep input hash warm tiers
    (.warming hash reader next.1, next.2)
  | .cooling hash cool =>
    let next := s.coolStep input hash cool tiers
    (.cooling hash next.1, next.2)
  | .deletingHot hash =>
    match s.hot.delete input hash tiers.hot with
    | .ok hot => (.deletingCold hash none, { tiers with hot })
    | .error error => (.deletingCold hash (some error), tiers)
  | .deletingCold hash hotError =>
    match s.cold.delete input hash tiers.cold, hotError with
    | .ok cold, _ => (.deleted hash (.ok ()), { tiers with cold })
    | .error _, none => (.deleted hash (.ok ()), tiers)
    | .error coldError, some hotError => (.deleted hash (.error (.deleteBoth hotError coldError)), tiers)
  | .lruStats =>
    match s.hot.totalSize input tiers.hot with
    | .error error => (.applied (.error (.hotStats error)), tiers)
    | .ok totalSize =>
      let maxSizeBytes := s.cfg.hotMaxSizeGB * 1024 * 1024 * 1024
      if totalSize < maxSizeBytes then (.applied (.ok ()), tiers)
      else (.lruList (totalSize - maxSizeBytes), tiers)
  | .lruList bytesToFree =>
    match s.hot.list input tiers.hot with
    | .error error => (.applied (.error (.listHot error)), tiers)
    | .ok blobs => (lruNext bytesToFree 0 blobs, tiers)
  | .lru bytesToFree freedBytes blob blobs cool =>
    let next := s.coolStep input blob.hash cool tiers
    match next.1 with
    | .returned (.ok ()) => (lruNext bytesToFree (freedBytes + .ofInt blob.size) blobs, next.2)
    -- a failure is logged and the loop goes on
    | .returned (.error _) => (lruNext bytesToFree freedBytes blobs, next.2)
    | cool => (.lru bytesToFree freedBytes blob blobs cool, next.2)
  | .ageList =>
    match s.hot.list input tiers.hot with
    | .error error => (.applied (.error (.listHot error)), tiers)
    | .ok blobs => (ageNext (daysBefore input.now s.cfg.hotMaxAgeDays) blobs, tiers)
  | .age cutoffTime blob blobs cool =>
    let next := s.coolStep input blob.hash cool tiers
    match next.1 with
    | .returned _ => (ageNext cutoffTime blobs, next.2)
    | cool => (.age cutoffTime blob blobs cool, next.2)
  | .stored .. | .refused .. | .read .. | .deleted .. | .applied .. => (call, tiers)

/-- `ApplyTieringPolicy` up to its first call to a store. -/
def applyTieringPolicy : Call :=
  if s.cfg.enabled then
    match s.cfg.strategy with
    | .lru => .lruStats
    | .age => .ageList
    | .manual => .applied (.ok ())
    | .other name => .applied (.error (.unknownStrategy name))
  else .applied (.ok ())

/-- The hybrid store with calls that run at the same time. -/
def machine : Calls.Machine (Tiers σ τ) Request Call Input where
  init
    | .put hash data metadata => .put hash data metadata
    | .get hash => .getHot hash
    | .delete hash => .deletingHot hash
    | .coolDown hash => .cooling hash .hotExists
    | .warmUp hash => .warming hash none .coldExists
    | .applyTieringPolicy => s.applyTieringPolicy
  step := s.callStep

def copies (tiers : Tiers σ τ) (hash : String) : Copies :=
  { hot := s.hot.copy tiers.hot hash, cold := s.cold.copy tiers.cold hash }

end HybridStore

/-! ### What is asked -/

def Call.deletes : Call → Option String
  | .deletingHot hash | .deletingCold hash _ | .deleted hash _ => some hash
  | _ => none

def DeleteCalled (hash : String) (calls : List Call) : Prop :=
  ∃ call ∈ calls, call.deletes = some hash

section Property

variable {σ τ : Type} (s : HybridStore σ τ)

/-- Each blob whose `Put` has returned without error and on which `Delete` was not called is in a tier,
with its bytes. -/
def Kept (w : Calls.World (Tiers σ τ) Call) : Prop :=
  ∀ hash data, Call.stored hash data ∈ w.calls → ¬ DeleteCalled hash w.calls →
    (s.copies w.shared hash).hot = some data ∨ (s.copies w.shared hash).cold = some data

/-- A blob of the run: the tiers hold it at the start, or a `Put` brings it. -/
def Brought (tiers : Tiers σ τ) (events : List (Calls.Event Request Input)) (hash : String) (data : Bytes) : Prop :=
  (s.copies tiers hash).hot = some data ∨ (s.copies tiers hash).cold = some data ∨
    ∃ metadata, Calls.Event.start (.put hash data metadata) ∈ events

/-- The hash of every blob is the content hash of its bytes, as `IngestChunk` checks before it calls
`Put`, and no two of them collide. -/
structure ContentHashed (sha256Hex : Bytes → String) (tiers : Tiers σ τ)
    (events : List (Calls.Event Request Input)) : Prop where
  hash : ∀ hash data, Brought s tiers events hash data → sha256Hex data = hash
  collisionFree : ∀ hash hash' data data', Brought s tiers events hash data →
    Brought s tiers events hash' data' → sha256Hex data = sha256Hex data' → data = data'

end Property

end Bib.Blob.Hybrid
