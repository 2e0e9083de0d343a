import Bib.Cluster.Storage

/-!
# Bib.Cluster.Raft

**A Raft node** (`internal/cluster/raft.go`) with the hard state and the members it keeps in the
database (`internal/cluster/storage.go`).

The source calls the node a placeholder for a library: it takes no part in elections, so its term
is the one it has loaded or the one of `Bootstrap`, and the channel of configuration changes is
written but never read. Terms and indices come from columns of type `INTEGER`; nothing is added
to them here.
-/

namespace Bib.Cluster

open Bib.Lib Bib.Domain

/-! ### State -/

inductive NodeRole
  | voter
  | nonVoter
  deriving DecidableEq

inductive NodeState
  | follower
  | candidate
  | leader
  deriving DecidableEq

structure HardState where
  term : Nat
  vote : String
  commit : Nat

/-- `ClusterMember`: the fields that are read; also a row of `cluster_members`. -/
structure ClusterMember where
  (nodeID address : String)
  role : NodeRole

/-- The tables of the node: the row of `raft_state`, which `init` creates, and the members. -/
structure RaftStorage where
  hardState : HardState
  members : Table ClusterMember.nodeID

structure ConfChange where
  (nodeID address : String)
  (isAdd isVoter : Bool)

def confChangeCap : Nat := 16

/-- `RaftNode`; `confChangeCh` is what is in the channel. -/
structure RaftNode where
  state : NodeState
  leader : String
  (term commitIndex : Nat)
  members : KeyMap String String
  confChangeCh : List ConfChange
  room : confChangeCh.length ≤ confChangeCap

inductive RaftError
  | io (message : String)
  | alreadyBootstrapped
  | notLeader
  | confChangeFull

def RaftError.message : RaftError → String
  | io message => message
  | alreadyBootstrapped => "cluster already bootstrapped"
  | notLeader => "not the cluster leader"
  | confChangeFull => "configuration change channel full"

/-! ### Life cycle -/

/-- `loadState` of a new node, with what the driver does with its two queries. -/
def loadState (readState readMembers : Io) (s : RaftStorage) : Except RaftError RaftNode :=
  match readState, readMembers with
  | .fails message, _ => .error (.io message)
  | .ok, .fails message => .error (.io message)
  | .ok, .ok =>
    .ok {
      state := .follower
      leader := ""
      term := s.hardState.term
      commitIndex := s.hardState.commit
      members := s.members.rows.foldl (fun members m => members.set m.nodeID m.address) .empty
      confChangeCh := []
      room := Nat.zero_le _ }

def setHardState (io : Io) (state : HardState) (s : RaftStorage) : Except RaftError Unit × RaftStorage :=
  match io with
  | .fails message => (.error (.io message), s)
  | .ok => (.ok (), { s with hardState := state })

/-- `Shutdown`: the vote is not among the fields that are set. -/
def RaftNode.shutdown (io : Io) (node : RaftNode) (s : RaftStorage) : Except RaftError Unit × RaftStorage :=
  setHardState io { term := node.term, vote := "", commit := node.commitIndex } s

/-- The node that `Bootstrap` makes of itself before it writes anything. -/
def RaftNode.elected (nodeID address : String) (node : RaftNode) : RaftNode :=
  { node with
    members := node.members.set nodeID address, state := .leader, leader := nodeID, term := 1 }

/-- `Bootstrap`, with what the driver does with the member and with the state. -/
def RaftNode.bootstrap (add write : Io) (nodeID address : String) (node : RaftNode)
    (s : RaftStorage) : Except RaftError Unit × RaftNode × RaftStorage :=
  if node.members.rows ≠ [] then (.error .alreadyBootstrapped, node, s)
  else
    match add with
    | .fails message => (.error (.io message), node.elected nodeID address, s)
    | .ok =>
      let s := { s with members := s.members.put { nodeID, address, role := .voter } }
      let result := setHardState write { term := 1, vote := nodeID, commit := 0 } s
      (result.1, node.elected nodeID address, result.2)

/-! ### Configuration changes -/

/-- `RemoveNode`: the change is put into the channel if there is a place in it. -/
def RaftNode.removeNode (nodeID : String) (node : RaftNode) : Except RaftError Unit × RaftNode :=
  if node.state ≠ .leader then (.error .notLeader, node)
  else if hroom : node.confChangeCh.length < confChangeCap then
    (.ok (), { node with
      confChangeCh := node.confChangeCh ++ [{ nodeID, address := "", isAdd := false, isVoter := false }]
      room := by
        rw [List.length_append, List.length_singleton]
        exact hroom })
  else (.error .confChangeFull, node)

end Bib.Cluster
