import Bib.Cluster.Storage

/-!
# Bib.Cluster.Fsm

**The replicated state machine** (`internal/cluster/fsm.go`): three caches next to the database of the same
node. Commands are taken after JSON decoding: `malformed` stands for what does not decode, and `unknown` for a
type outside the eight constants. In a snapshot a `json.RawMessage` does not decode to itself (`marshalRaw`):
nil is written as `null`, and the text is compacted and HTML-escaped.
-/

namespace Bib.Cluster

open Bib.Lib Bib.Domain

/-! ### `json.RawMessage` through `json.Marshal` -/

def isSpace (c : UInt8) : Bool := c = 0x20 || c = 0x09 || c = 0x0a || c = 0x0d

/-- Dropping white space outside string literals. `inString` and `escaped` are the state
of the scanner: inside a literal, and right after a backslash there. -/
def dropSpaces : (inString escaped : Bool) → Bytes → Bytes
  | _, _, [] => []
  | false, _, c :: rest =>
    if isSpace c then dropSpaces false false rest
    else c :: dropSpaces (c = 0x22) false rest
  | true, true, c :: rest => c :: dropSpaces true false rest
  | true, false, c :: rest => c :: dropSpaces (c ≠ 0x22) (c = 0x5c) rest

/-- The six bytes of a `\u` escape with the given hexadecimal digits. -/
def unicodeEscape (a b c d : Char) : Bytes :=
  [0x5c, 0x75, a.toUInt8, b.toUInt8, c.toUInt8, d.toUInt8]

/-- HTML escaping: `<`, `>`, `&`, U+2028 and U+2029. -/
def escapeHTML : Bytes → Bytes
  | 0xe2 :: 0x80 :: 0xa8 :: rest => unicodeEscape '2' '0' '2' '8' ++ escapeHTML rest
  | 0xe2 :: 0x80 :: 0xa9 :: rest => unicodeEscape '2' '0' '2' '9' ++ escapeHTML rest
  | 0x3c :: rest => unicodeEscape '0' '0' '3' 'c' ++ escapeHTML rest
  | 0x3e :: rest => unicodeEscape '0' '0' '3' 'e' ++ escapeHTML rest
  | 0x26 :: rest => unicodeEscape '0' '0' '2' '6' ++ escapeHTML rest
  | c :: rest => c :: escapeHTML rest
  | [] => []

def nullText : Bytes := [0x6e, 0x75, 0x6c, 0x6c]

/-- `json.RawMessage` as `json.Marshal` writes it. -/
def marshalRaw : Option Bytes → Bytes
  | none => nullText
  | some raw => escapeHTML (dropSpaces false false raw)

/-! ### The state machine -/

/-- The in-memory caches of `FSM`. -/
structure FSM where
  /-- Keyed by `topicID/datasetID`. -/
  catalog : KeyMap String ReplicatedCatalogEntry
  jobs : KeyMap String ReplicatedJob
  config : KeyMap String Bytes

structure Node where
  fsm : FSM
  storage : Storage

/-- `NewFSM` on an empty database. -/
def Node.fresh : Node :=
  { fsm := { catalog := .empty, jobs := .empty, config := .empty }, storage := .fresh }

inductive Command
  | catalogUpdate (entry : ReplicatedCatalogEntry)
  | catalogDelete (topicID datasetID : String)
  | jobCreate (job : ReplicatedJob)
  | jobUpdate (job : ReplicatedJob)
  | jobAssign (jobID assignedNode : String)
  | configSet (key : String) (value : Option Bytes)
  | configDelete (key : String)
  | joinTokenCreate (token : JoinToken)
  | unknown (type : UInt8)
  | malformed (error : String)

inductive ApplyError
  | storage (error : StorageError)
  | unknownType (type : UInt8)
  | decode (error : String)
  deriving DecidableEq

def ApplyError.message : ApplyError → String
  | storage error => error.message
  | unknownType type => s!"unknown command type: {type}"
  | decode error => error

def catalogKey (topicID datasetID : String) : String := topicID ++ "/" ++ datasetID

def ReplicatedCatalogEntry.cacheKey (entry : ReplicatedCatalogEntry) : String :=
  catalogKey entry.topicID entry.datasetID

/-- Finish a command whose storage call returned `result`: on success continue with
`update` on the caches. -/
def Node.commit (node : Node) (result : Except StorageError Storage) (update : FSM → FSM) :
    Except ApplyError Unit × Node :=
  match result with
  | .error error => (.error (.storage error), node)
  | .ok storage => (.ok (), { fsm := update node.fsm, storage })

def applyCatalogUpdate (io : Io) (entry : ReplicatedCatalogEntry) (node : Node) : Except ApplyError Unit × Node :=
  node.commit (storeCatalogEntry io entry node.storage) fun fsm =>
    { fsm with catalog := fsm.catalog.set entry.cacheKey entry }

/-- `applyCatalogDelete`: only the cache is changed. -/
def applyCatalogDelete (topicID datasetID : String) (node : Node) : Except ApplyError Unit × Node :=
  (.ok (), { node with
    fsm := { node.fsm with catalog := node.fsm.catalog.delete (catalogKey topicID datasetID) } })

def applyJobUpdate (io : Io) (job : ReplicatedJob) (node : Node) : Except ApplyError Unit × Node :=
  node.commit (storeJob io job node.storage) fun fsm => { fsm with jobs := fsm.jobs.set job.jobID job }

/-- `applyJobAssign`: the cached job is changed before the storage call. -/
def applyJobAssign (io : Io) (jobID assignedNode : String) (node : Node) : Except ApplyError Unit × Node :=
  match node.fsm.jobs.get? jobID with
  | none => (.ok (), node)
  | some job =>
    let job := { job with assignedNode := assignedNode, status := "assigned" }
    let node := { node with fsm := { node.fsm with jobs := node.fsm.jobs.set jobID job } }
    node.commit (storeJob io job node.storage) id

def applyConfigSet (io : Io) (key : String) (value : Option Bytes) (node : Node) : Except ApplyError Unit × Node :=
  node.commit (storeConfig io key value node.storage) fun fsm =>
    { fsm with config := fsm.config.set key (value.getD []) }

/-- `applyConfigDelete`: only the cache is changed. -/
def applyConfigDelete (key : String) (node : Node) : Except ApplyError Unit × Node :=
  (.ok (), { node with fsm := { node.fsm with config := node.fsm.config.delete key } })

def applyJoinTokenCreate (io : Io) (token : JoinToken) (node : Node) : Except ApplyError Unit × Node :=
  node.commit (storeJoinToken io token node.storage) id

/-- `FSM.Apply`. A command makes at most one storage call; `io` is its fate. -/
def apply (io : Io) (command : Command) (node : Node) : Except ApplyError Unit × Node :=
  match command with
  | .catalogUpdate entry => applyCatalogUpdate io entry node
  | .catalogDelete topicID datasetID => applyCatalogDelete topicID datasetID node
  | .jobCreate job | .jobUpdate job => applyJobUpdate io job node
  | .jobAssign jobID assignedNode => applyJobAssign io jobID assignedNode node
  | .configSet key value => applyConfigSet io key value node
  | .configDelete key => applyConfigDelete key node
  | .joinTokenCreate token => applyJoinTokenCreate io token node
  | .unknown type => (.error (.unknownType type), node)
  | .malformed error => (.error (.decode error), node)

def step (node : Node) (command : Command) : Node := (apply .ok command node).2

def replay (commands : List Command) (node : Node) : Node := commands.foldl step node

/-! ### Snapshot and restore -/

def marshalJob (job : ReplicatedJob) : ReplicatedJob :=
  { job with metadata := some (marshalRaw job.metadata) }

/-- A snapshot document: three JSON objects, each a list of members in some order. -/
structure Snapshot where
  catalog : List (String × ReplicatedCatalogEntry)
  jobs : List (String × ReplicatedJob)
  config : List (String × Bytes)

def snapshot (fsm : FSM) : Snapshot :=
  { catalog := fsm.catalog.rows
    jobs := fsm.jobs.rows.map fun p => (p.1, marshalJob p.2)
    config := fsm.config.rows }

/-- Decoding a JSON object into a fresh map. -/
def unmarshalMap {V : Type} (members : List (String × V)) : KeyMap String V :=
  members.foldl (fun m p => m.set p.1 p.2) .empty

inductive RestoreCall
  | catalog (key : String)
  | job (key : String)
  | config (key : String)

/-- A `for` loop over a map that stops at the first error. -/
def storeAll {V : Type} (store : String → V → Storage → Except StorageError Storage) :
    List (String × V) → Storage → Except StorageError Unit × Storage
  | [], s => (.ok (), s)
  | (key, value) :: rest, s =>
    match store key value s with
    | .error error => (.error error, s)
    | .ok s => storeAll store rest s

/-- `FSM.Restore`: replace the caches, then store every cached value. The order in which
Go iterates over the maps is the order of the members of `snap`. -/
def restore (io : RestoreCall → Io) (snap : Snapshot) (node : Node) : Except StorageError Unit × Node :=
  let fsm : FSM :=
    { catalog := unmarshalMap snap.catalog
      jobs := unmarshalMap snap.jobs
      config := unmarshalMap snap.config }
  match storeAll (fun key entry => storeCatalogEntry (io (.catalog key)) entry) fsm.catalog.rows
      node.storage with
  | (.error error, s) => (.error error, { fsm, storage := s })
  | (.ok (), s) =>
    match storeAll (fun key job => storeJob (io (.job key)) job) fsm.jobs.rows s with
    | (.error error, s) => (.error error, { fsm, storage := s })
    | (.ok (), s) =>
      let (result, s) := storeAll (fun key value => storeConfig (io (.config key)) key (some value))
        fsm.config.rows s
      (result, { fsm, storage := s })

/-- Two documents with the same members: JSON objects and Go maps have no order. -/
structure Snapshot.Reordered (s t : Snapshot) : Prop where
  catalog : s.catalog.Perm t.catalog
  jobs : s.jobs.Perm t.jobs
  config : s.config.Perm t.config

end Bib.Cluster
