import Bib.Domain.Chunk
import Bib.Lib.Json.Struct
import Bib.Lib.Mirror
import Bib.Lib.Run
import Mathlib.Data.List.DropRight
import Mathlib.Data.List.Sort

/-!
# Bib.Certs.TrustStore

**The trust store** (`internal/certs/tofu.go`): the nodes whose certificates are trusted, in memory
and in a directory with a JSON file for each node.

In memory the nodes are keyed by their ids. The name of a file is the id with every byte other
than a letter, a digit, `-` and `_` replaced by `_`, so two ids may have one file, and
adding the second node overwrites the first one (`reload_same_iff`).
-/

namespace Bib.Certs

open Bib.Domain Bib.Lib Table

/-! ### Nodes and their files -/

inductive TrustMethod
  | tofu
  | manual
  | pinned
  | other (text : String)
  deriving DecidableEq

structure TrustedNode where
  (nodeID fingerprint : String)
  certificate : Bytes
  (firstSeen lastSeen : Time)
  (nodeAlias address : String)
  trustMethod : TrustMethod
  pinnedAt : Option Time
  verified : Bool
  notes : String
  deriving DecidableEq

inductive NodeFile
  | node (node : TrustedNode)
  | invalid

/-- A byte that a file name may have. -/
def isSafe (c : UInt8) : Bool :=
  (0x61 ≤ c && c ≤ 0x7a) || (0x41 ≤ c && c ≤ 0x5a) || (0x30 ≤ c && c ≤ 0x39) || c = 0x2d || c = 0x5f

/-- `sanitizeFilename`; the result has ASCII characters only. -/
def sanitizeFilename (s : String) : String :=
  String.ofList ((Json.utf8 s).map fun c => if isSafe c then Char.ofNat c.toNat else '_')

def nodePath (nodeID : String) : String := sanitizeFilename nodeID ++ ".json"

def ext (name : String) : String :=
  if '.' ∈ name.toList then String.ofList ('.' :: name.toList.rtakeWhile (· ≠ '.')) else ""

def readNode (name : String) : NodeFile → Option TrustedNode
  | .node node => if ext name = ".json" then some node else none
  | .invalid => none

/-- The files of the directory, by name; subdirectories are left out. -/
abbrev NodeFiles := KeyMap String NodeFile

/-- `os.ReadDir`, which sorts by name. -/
def readDir (files : NodeFiles) : List (String × NodeFile) :=
  files.rows.insertionSort fun file file' => file.1 ≤ file'.1

def loadNodes (files : NodeFiles) : Table TrustedNode.nodeID :=
  Mirror.load TrustedNode.nodeID readNode (readDir files)

/-! ### The store -/

structure TrustStore where
  nodes : Table TrustedNode.nodeID
  files : NodeFiles

/-- `NewTrustStore` on a directory that exists. -/
def newTrustStore (files : NodeFiles) : TrustStore := { nodes := loadNodes files, files }

inductive WriteOutcome
  | written
  /-- `json.MarshalIndent` fails: a time has no year between 0 and 9999. -/
  | marshalFails (err : String)
  | openFails (err : String)
  | writeFails (err : String)
  | closeFails (err : String)

def TrustStore.save (store : TrustStore) (outcome : WriteOutcome) (node : TrustedNode) :
    Except String Unit × TrustStore :=
  let put (file : NodeFile) : TrustStore :=
    { store with files := store.files.set (nodePath node.nodeID) file }
  match outcome with
  | .written => (.ok (), put (.node node))
  | .marshalFails err => (.error ("failed to marshal trust data: " ++ err), store)
  | .openFails err => (.error ("failed to write trust data: " ++ err), store)
  | .writeFails err => (.error ("failed to write trust data: " ++ err), put .invalid)
  | .closeFails err => (.error ("failed to write trust data: " ++ err), put (.node node))

def TrustStore.isTrusted (store : TrustStore) (nodeID fingerprint : String) : Except String Bool :=
  match store.nodes.find? nodeID with
  | none => .ok false
  | some node =>
    if node.fingerprint ≠ fingerprint then
      .error ("certificate fingerprint mismatch for node " ++ nodeID ++ ": expected " ++
        node.fingerprint ++ ", got " ++ fingerprint ++ " (possible MITM attack)")
    else .ok true

def TrustStore.dated (store : TrustStore) (now : Time) (node : TrustedNode) : TrustedNode :=
  let firstSeen :=
    match store.nodes.find? node.nodeID with
    | some existing => existing.firstSeen
    | none => if node.firstSeen = zeroTime then now else node.firstSeen
  let lastSeen := if node.lastSeen = zeroTime then now else node.lastSeen
  { node with firstSeen, lastSeen }

def TrustStore.put (store : TrustStore) (outcome : WriteOutcome) (node : TrustedNode) :
    Except String Unit × TrustStore :=
  { store with nodes := store.nodes.put node }.save outcome node

def TrustStore.add (store : TrustStore) (now : Time) (outcome : WriteOutcome) (node : TrustedNode) :
    Except String Unit × TrustStore :=
  store.put outcome (store.dated now node)

/-- What `UpdateLastSeen`, `Pin`, `Verify` and `SetAlias` have in common. -/
def TrustStore.change (store : TrustStore) (outcome : WriteOutcome) (nodeID : String)
    (f : TrustedNode → TrustedNode) : Except String Unit × TrustStore :=
  match store.nodes.find? nodeID with
  | none => (.error ("node " ++ nodeID ++ " not found"), store)
  | some node => store.put outcome (f node)

def TrustStore.updateLastSeen (store : TrustStore) (now : Time) (outcome : WriteOutcome)
    (nodeID : String) : Except String Unit × TrustStore :=
  store.change outcome nodeID fun node => { node with lastSeen := now }

def TrustStore.pin (store : TrustStore) (now : Time) (outcome : WriteOutcome) (nodeID : String) :
    Except String Unit × TrustStore :=
  store.change outcome nodeID fun node => { node with pinnedAt := some now, trustMethod := .pinned }

def TrustStore.verify (store : TrustStore) (outcome : WriteOutcome) (nodeID : String) :
    Except String Unit × TrustStore :=
  store.change outcome nodeID fun node => { node with verified := true }

def TrustStore.setAlias (store : TrustStore) (outcome : WriteOutcome) (nodeID newAlias : String) :
    Except String Unit × TrustStore :=
  store.change outcome nodeID fun node => { node with nodeAlias := newAlias }

/-- `Remove`; `fault` is an error of `os.Remove` other than a missing file. -/
def TrustStore.remove (store : TrustStore) (fault : Option String) (nodeID : String) :
    Except String Unit × TrustStore :=
  match store.nodes.find? nodeID with
  | none => (.error ("node " ++ nodeID ++ " not found"), store)
  | some _ =>
    let path := nodePath nodeID
    let rest := { store with nodes := store.nodes.erase nodeID }
    match store.files.get? path, fault with
    | none, _ => (.error ("remove " ++ path ++ ": no such file or directory"), rest)
    | some _, some err => (.error err, rest)
    | some _, none => (.ok (), { rest with files := store.files.delete path })

inductive TrustOp
  | add (now : Time) (outcome : WriteOutcome) (node : TrustedNode)
  | updateLastSeen (now : Time) (outcome : WriteOutcome) (nodeID : String)
  | remove (fault : Option String) (nodeID : String)
  | pin (now : Time) (outcome : WriteOutcome) (nodeID : String)
  | verify (outcome : WriteOutcome) (nodeID : String)
  | setAlias (outcome : WriteOutcome) (nodeID newAlias : String)

def TrustOp.perform (store : TrustStore) : TrustOp → Except String Unit × TrustStore
  | add now outcome node => store.add now outcome node
  | updateLastSeen now outcome nodeID => store.updateLastSeen now outcome nodeID
  | remove fault nodeID => store.remove fault nodeID
  | pin now outcome nodeID => store.pin now outcome nodeID
  | verify outcome nodeID => store.verify outcome nodeID
  | setAlias outcome nodeID newAlias => store.setAlias outcome nodeID newAlias

def trustStep (store : TrustStore) (op : TrustOp) : TrustStore := (op.perform store).2

def TrustOp.Succeeds (store : TrustStore) (op : TrustOp) : Prop := (op.perform store).1 = .ok ()

instance (store : TrustStore) (op : TrustOp) : Decidable (op.Succeeds store) :=
  inferInstanceAs (Decidable (_ = _))

/-- The condition on an operation: a node is added only if no other node of the store has its file
name. -/
def TrustOp.ownFile (store : TrustStore) : TrustOp → Bool
  | add _ _ node =>
    store.nodes.rows.all fun other =>
      sanitizeFilename other.nodeID ≠ sanitizeFilename node.nodeID || other.nodeID = node.nodeID
  | updateLastSeen _ _ _ | remove _ _ | pin _ _ _ | verify _ _ | setAlias _ _ _ => true

/-! ### What an operation does -/

theorem ext_nodePath (nodeID : String) : ext (nodePath nodeID) = ".json" := by
  have hc : (nodePath nodeID).toList =
      (sanitizeFilename nodeID).toList ++ ['.', 'j', 's', 'o', 'n'] := String.toList_append
  rw [ext, hc, List.rtakeWhile]
  simp

theorem readNode_nodePath (node : TrustedNode) : readNode (nodePath node.nodeID) (.node node) = some node :=
  if_pos (ext_nodePath node.nodeID)

theorem nodes_put (store : TrustStore) (outcome : WriteOutcome) (node : TrustedNode) :
    (store.put outcome node).2.nodes = store.nodes.put node := by
  cases outcome <;> rfl

theorem find?_remove (store : TrustStore) (fault : Option String) (nodeID other : String) :
    (store.remove fault nodeID).2.nodes.find? other =
      if other = nodeID then none else store.nodes.find? other := by
  rw [← find?_erase]
  unfold TrustStore.remove
  cases hf : store.nodes.find? nodeID with
  | none =>
    -- an unknown node is removed from nothing
    rw [find?_erase]
    by_cases hid : other = nodeID
    · simp [hid, hf]
    · simp [hid]
  | some node =>
    simp only
    cases store.files.get? (nodePath nodeID) with
    | none => rfl
    | some file => cases fault <;> rfl

variable {store : TrustStore} {outcome : WriteOutcome} {node : TrustedNode} {op : TrustOp}

theorem put_of_ok (h : (store.put outcome node).1 = .ok ()) : (store.put outcome node).2 =
      { nodes := store.nodes.put node
        files := store.files.set (nodePath node.nodeID) (.node node) } := by
  cases outcome with
  | written => rfl
  | _ => cases h

/-- What a successful operation does: a new node is put, a node of the store is put again with
other data, or a node is removed. -/
inductive Change (store : TrustStore) (op : TrustOp) : Prop
  | add (now : Time) (outcome : WriteOutcome) (node : TrustedNode)
      (hop : op = .add now outcome node)
      (hstep : trustStep store op =
        { nodes := store.nodes.put (store.dated now node)
          files := store.files.set (nodePath node.nodeID) (.node (store.dated now node)) })
  | put (node : TrustedNode) (hown : op.ownFile store = true)
      (hknown : (store.nodes.find? node.nodeID).isSome)
      (hstep : trustStep store op =
        { nodes := store.nodes.put node
          files := store.files.set (nodePath node.nodeID) (.node node) })
  | remove (nodeID : String) (hown : op.ownFile store = true)
      (hknown : (store.nodes.find? nodeID).isSome)
      (hstep : trustStep store op =
        { nodes := store.nodes.erase nodeID
          files := store.files.delete (nodePath nodeID) })

theorem Change.of_change
    {nodeID : String} {f : TrustedNode → TrustedNode}
    (hp : op.perform store = store.change outcome nodeID f)
    (hf : ∀ node, (f node).nodeID = node.nodeID)
    (hown : op.ownFile store = true) (h : op.Succeeds store) : Change store op := by
  unfold TrustOp.Succeeds at h
  rw [hp, TrustStore.change] at h
  cases hfi : store.nodes.find? nodeID with
  | none =>
    rw [hfi] at h
    cases h
  | some node =>
    rw [hfi] at h
    have hid : (f node).nodeID = nodeID := (hf node).trans (key_of_find? hfi)
    refine .put (f node) hown (by rw [hid, hfi]; rfl) ?_
    rw [trustStep, hp, TrustStore.change, hfi]
    exact put_of_ok h

theorem change_of_succeeds (h : op.Succeeds store) : Change store op := by
  cases op with
  | add now outcome node => exact .add now outcome node rfl (put_of_ok h)
  | remove fault nodeID =>
    simp only [TrustOp.Succeeds, TrustOp.perform, TrustStore.remove] at h
    cases hfi : store.nodes.find? nodeID with
    | none => simp [hfi] at h
    | some node =>
      cases hf : store.files.get? (nodePath nodeID) with
      | none => simp [hfi, hf] at h
      | some file =>
        cases fault with
        | some err => simp [hfi, hf] at h
        | none =>
          refine .remove nodeID rfl (by simp [hfi]) ?_
          simp [trustStep, TrustOp.perform, TrustStore.remove, hfi, hf]
  | _ => exact .of_change rfl (fun _ => rfl) rfl h

/-! ### Restarts -/

abbrev NamedFiles (files : NodeFiles) : Prop :=
  Mirror.Named TrustedNode.nodeID nodePath readNode files

/-- Two stores have the same nodes, with the same fingerprints and the same pins. -/
def SameTrust (nodes nodes' : Table TrustedNode.nodeID) : Prop :=
  ∀ nodeID, (nodes.find? nodeID).map (fun node => (node.fingerprint, node.pinnedAt)) =
    (nodes'.find? nodeID).map (fun node => (node.fingerprint, node.pinnedAt))

/-- A store that is loaded from the files has what the store has in memory. -/
def Survives (store : TrustStore) : Prop := SameTrust (loadNodes store.files) store.nodes

theorem survives_iff_mirrors (hn : NamedFiles store.files) : Survives store ↔
      Mirror.Mirrors nodePath readNode (fun node => (node.fingerprint, node.pinnedAt)) store.files
        store.nodes := by
  have hp : (readDir store.files).Perm store.files.rows := List.perm_insertionSort _ _
  refine forall_congr' fun nodeID => ?_
  rw [loadNodes, Mirror.find?_load hp hn]

theorem named_of_change (h : Change store op)
    (hn : NamedFiles store.files) : NamedFiles (trustStep store op).files := by
  have hput : ∀ node : TrustedNode,
      NamedFiles (store.files.set (nodePath node.nodeID) (.node node)) := fun node =>
    Mirror.named_set hn fun r hr => by
      rw [readNode_nodePath] at hr
      cases hr
      rfl
  cases h with
  | add now outcome node hop hstep =>
    rw [hstep]
    exact hput (store.dated now node)
  | put node hown hknown hstep =>
    rw [hstep]
    exact hput node
  | remove nodeID hown hknown hstep =>
    rw [hstep]
    exact Mirror.named_delete hn

theorem ownFile_add_iff {now : Time} : (TrustOp.add now outcome node).ownFile store = true ↔
      ∀ nodeID, (store.nodes.find? nodeID).isSome → nodePath nodeID = nodePath node.nodeID →
        nodeID = node.nodeID := by
  have hp : ∀ a b : String, nodePath a = nodePath b ↔ sanitizeFilename a = sanitizeFilename b :=
    fun a b => by simp [nodePath]
  simp only [TrustOp.ownFile, List.all_eq_true, Bool.or_eq_true, decide_eq_true_eq, hp]
  constructor
  · intro h nodeID hknown hn
    obtain ⟨other, hother⟩ := Option.isSome_iff_exists.mp hknown
    obtain rfl : other.nodeID = nodeID := key_of_find? hother
    exact (h other (mem_of_find? hother)).resolve_left fun hne => hne hn
  · intro h other hother
    by_cases hn : sanitizeFilename other.nodeID = sanitizeFilename node.nodeID
    · exact .inr (h _ (by rw [mem_rows_iff.mp hother]; rfl) hn)
    · exact .inl hn

/-- Files and memory stay in step exactly if a node that is added has a file of its own. -/
theorem survives_step_iff (hop : op.Succeeds store) (hn : NamedFiles store.files) (h : Survives store) :
    Survives (trustStep store op) ↔ op.ownFile store = true := by
  have hc := change_of_succeeds hop
  rw [survives_iff_mirrors (named_of_change hc hn)]
  rw [survives_iff_mirrors hn] at h
  cases hc with
  | add now outcome node ha hstep =>
    rw [hstep, ha, ownFile_add_iff]
    exact Mirror.mirrors_put_iff h (readNode_nodePath (store.dated now node))
  | put node hown hknown hstep =>
    rw [hstep, hown]
    refine ⟨fun _ => rfl, fun _ => ?_⟩
    exact (Mirror.mirrors_put_iff h (readNode_nodePath node)).mpr fun nodeID hno hna =>
      h.eq_of_name hno hknown hna
  | remove nodeID hown hknown hstep =>
    rw [hstep, hown]
    exact ⟨fun _ => rfl, fun _ => Mirror.mirrors_erase h hknown⟩

/-- **The trust store survives a restart at any time of a run exactly if** no node is added whose
file name is that of another node of the store. -/
theorem reload_same_iff (files : NodeFiles) (hnamed : NamedFiles files) (ops : List TrustOp)
    (hops : Run.AllSteps trustStep (fun store op => op.Succeeds store) (newTrustStore files) ops) :
    (∀ done, done <+: ops →
      let store := done.foldl trustStep (newTrustStore files)
      SameTrust (newTrustStore store.files).nodes store.nodes) ↔
    Run.AllSteps trustStep (fun store op => op.ownFile store = true) (newTrustStore files) ops := by
  have hl : Run.AllSteps trustStep (fun store op => NamedFiles store.files ∧ op.Succeeds store)
      (newTrustStore files) ops :=
    Run.allSteps_and_invariant (fun store _ hop hs =>
      named_of_change (change_of_succeeds hop) hs) hnamed hops
  exact Run.forall_prefix_iff_of_legal Survives
    (fun store op hstep hs => survives_step_iff hstep.2 hstep.1 hs) (fun _ => rfl) hl

def sampleNode (nodeID fingerprint : String) : TrustedNode :=
  { nodeID, fingerprint, certificate := [], firstSeen := zeroTime, lastSeen := zeroTime
    nodeAlias := "", address := "", trustMethod := .tofu, pinnedAt := none, verified := false
    notes := "" }

theorem reload_same_two_nodes : NamedFiles empty ∧
    Run.AllSteps trustStep (fun store op => op.Succeeds store) (newTrustStore empty)
      [.add 1 .written (sampleNode "a" "f"), .add 2 .written (sampleNode "b" "g"),
        .pin 3 .written "a", .remove none "b"] ∧
    ∀ done, done <+: [.add 1 .written (sampleNode "a" "f"), .add 2 .written (sampleNode "b" "g"),
        .pin 3 .written "a", .remove none "b"] →
      let store := done.foldl trustStep (newTrustStore empty)
      SameTrust (newTrustStore store.files).nodes store.nodes :=
  have hn : NamedFiles empty := fun _ _ _ hg => by cases hg
  have ho : Run.AllSteps trustStep (fun store op => op.Succeeds store) (newTrustStore empty)
      [.add 1 .written (sampleNode "a" "f"), .add 2 .written (sampleNode "b" "g"),
        .pin 3 .written "a", .remove none "b"] := by decide +kernel
  ⟨hn, ho, (reload_same_iff empty hn _ ho).mpr (by decide +kernel)⟩

/-- Two nodes whose ids differ in a `/` are added, and the first one is gone after a restart. -/
theorem restart_forgets_node :
    let ops : List TrustOp :=
      [.add 1 .written (sampleNode "a/b" "f"), .add 2 .written (sampleNode "a_b" "g")]
    let store := ops.foldl trustStep (newTrustStore empty)
    Run.AllSteps trustStep (fun store op => op.Succeeds store) (newTrustStore empty) ops ∧
      (store.nodes.find? "a/b").isSome = true ∧
      (newTrustStore store.files).nodes.find? "a/b" = none := by
  decide +kernel

end Bib.Certs
