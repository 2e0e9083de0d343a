import Bib.Cluster.Raft
import Bib.Lib.Run

/-!
# Bib.Cluster.Removal

**Removing nodes from a cluster** (`Cluster.RemoveNode` and `updateState` in `internal/cluster/cluster.go`).
`RemoveNode` counts the voters in a list that `updateState` brings up to date. The list only grows, and an
accepted removal is a change in a channel which nothing reads, so what bounds the removals is the room in the
channel (`voters_removed_iff`).
-/

namespace Bib.Cluster

open Bib.Lib List KeyMap Table

open ClusterMember (nodeID)

/-! ### The cluster manager -/

def minimumVoters : Nat := 3

/-- `Cluster`, the cluster manager: the state and the members as of the last `updateState`, and the node itself. -/
structure Manager where
  state : NodeState
  members : KeyMap String ClusterMember
  raft : RaftNode

inductive ClusterError
  | notLeader
  | nodeNotFound
  | minimumNodes
  | raft (err : RaftError)

def ClusterError.message : ClusterError → String
  | notLeader => "not the cluster leader"
  | nodeNotFound => "node not found"
  | minimumNodes => "minimum cluster size is 3 voting nodes"
  | raft err => err.message

def Manager.countVoters (c : Manager) : Nat :=
  (c.members.rows.filter fun m => m.2.role = .voter).length

def Manager.removeNode (nodeID : String) (c : Manager) : Except ClusterError Unit × Manager :=
  if c.state ≠ .leader then (.error .notLeader, c)
  else
    match c.members.get? nodeID with
    | none => (.error .nodeNotFound, c)
    | some member =>
      if member.role = .voter ∧ c.countVoters ≤ minimumVoters then (.error .minimumNodes, c)
      else
        let result := c.raft.removeNode nodeID
        (result.1.mapError .raft, { c with raft := result.2 })

def refresh (members : KeyMap String ClusterMember) (entry : String × String) : KeyMap String ClusterMember :=
  match members.get? entry.1 with
  | some m => members.set entry.1 { m with address := entry.2 }
  | none => members.set entry.1 { nodeID := entry.1, address := entry.2, role := .voter }

def Manager.updateState (c : Manager) : Manager :=
  { c with state := c.raft.state, members := c.raft.members.rows.foldl refresh c.members }

inductive ClusterEvent
  | removeNode (nodeID : String)
  | updateState

def Manager.step (c : Manager) : ClusterEvent → Manager
  | .removeNode nodeID => (c.removeNode nodeID).2
  | .updateState => c.updateState

/-- The node whose removal is accepted by an event. -/
def Manager.accepts (c : Manager) : ClusterEvent → List String
  | .removeNode nodeID =>
    match (c.removeNode nodeID).1 with
    | .ok _ => [nodeID]
    | .error _ => []
  | .updateState => []

def accepted : Manager → List ClusterEvent → List String
  | _, [] => []
  | c, event :: events => c.accepts event ++ accepted (c.step event) events

/-! ### The membership -/

section Spec

variable (rows : Table nodeID)

def voters : List ClusterMember := rows.rows.filter fun row => row.role = .voter

def votersAmong (nodes : List String) : Nat :=
  ((voters rows).filter fun row => row.nodeID ∈ nodes).length

/-- The manager belongs to the membership: the node knows its members, and those in the list have
the right role. -/
structure Tracks (c : Manager) : Prop where
  raft : ∀ id, (c.raft.members.get? id).isSome ↔ (rows.find? id).isSome
  cached : ∀ id m, c.members.get? id = some m → ∃ row, rows.find? id = some row ∧ row.role = m.role

/-- The members that count as voters from the next `updateState` on: the voters, and those that
are not in the list yet. -/
def counted (c : Manager) : List ClusterMember :=
  rows.rows.filter fun row => row.role = .voter ∨ c.members.get? row.nodeID = none

def Manager.places (c : Manager) : Nat := confChangeCap - c.raft.confChangeCh.length

/-- The node does not lead, too few members count as voters, or the channel is full before
too many are removed. -/
def RemovalsBounded (c : Manager) : Prop :=
  c.raft.state ≠ .leader ∨ (counted rows c).length ≤ minimumVoters ∨
    min (voters rows).length c.places ≤ (voters rows).length - minimumVoters

end Spec

/-! ### Roles in the list -/

def roleOf (members : KeyMap String ClusterMember) (id : String) : Option NodeRole :=
  (members.get? id).map ClusterMember.role

theorem roleOf_refresh (members : KeyMap String ClusterMember) (entry : String × String)
    (id : String) : roleOf (refresh members entry) id =
      if id = entry.1 then some ((roleOf members id).getD .voter) else roleOf members id := by
  rw [refresh]
  by_cases hid : id = entry.1
  · subst hid
    cases hg : members.get? entry.1 <;> simp [roleOf, hg, get?_set]
  · cases hg : members.get? entry.1 <;> simp [roleOf, hid, get?_set]

/-- A member that is in the list keeps its role; another one that the node knows gets the role of
a voter. -/
theorem roleOf_foldl_refresh (entries : List (String × String))
    (members : KeyMap String ClusterMember) (id : String) :
    roleOf (entries.foldl refresh members) id =
      if id ∈ entries.map Prod.fst then some ((roleOf members id).getD .voter)
      else roleOf members id := by
  induction entries generalizing members with
  | nil => simp
  | cons entry entries ih =>
    rw [foldl_cons, ih, roleOf_refresh, map_cons]
    by_cases hid : id = entry.1
    · simp [hid]
    · simp only [hid, if_false, mem_cons, false_or]

variable {c : Manager}

theorem roleOf_updateState {rows : Table nodeID}
    (h : ∀ id, (c.raft.members.get? id).isSome ↔ (rows.find? id).isSome) (id : String) :
    roleOf c.updateState.members id =
      if (rows.find? id).isSome then some ((roleOf c.members id).getD .voter)
      else roleOf c.members id := by
  have hknown : id ∈ c.raft.members.rows.map Prod.fst ↔ (rows.find? id).isSome := by
    rw [← h, mem_map]
    constructor
    · intro hmem
      obtain ⟨entry, he, rfl⟩ := hmem
      rw [get?_eq_some_iff.mpr he]
      rfl
    · intro hsome
      obtain ⟨address, ha⟩ := Option.isSome_iff_exists.mp hsome
      exact ⟨(id, address), get?_eq_some_iff.mp ha, rfl⟩
  rw [Manager.updateState, roleOf_foldl_refresh]
  simp [hknown]

theorem mem_votersInList {id : String} :
    id ∈ (c.members.rows.filter fun m => m.2.role = .voter).map Prod.fst ↔
      roleOf c.members id = some .voter := by
  rw [roleOf, Option.map_eq_some_iff, mem_map]
  constructor
  · intro h
    obtain ⟨entry, he, rfl⟩ := h
    obtain ⟨hmem, hrole⟩ := mem_filter.mp he
    exact ⟨entry.2, get?_eq_some_iff.mpr hmem, of_decide_eq_true hrole⟩
  · intro h
    obtain ⟨m, hg, hrole⟩ := h
    exact ⟨(id, m), mem_filter.mpr ⟨get?_eq_some_iff.mp hg, decide_eq_true hrole⟩, rfl⟩

/-! ### Runs -/

section Runs

variable {rows : Table nodeID} {start c : Manager}

/-- What a run keeps: the node's members and state; nothing leaves the list, and in it only those
have the role of a voter that count as voters from the first `updateState` on, the voters among
them. -/
structure Keeps (rows : Table nodeID) (start c : Manager) : Prop where
  state : c.raft.state = start.raft.state
  raft : ∀ id, (c.raft.members.get? id).isSome ↔ (rows.find? id).isSome
  grows : ∀ id, roleOf c.members id = none → start.members.get? id = none
  cached : ∀ id role, roleOf c.members id = some role → ∃ row, rows.find? id = some row ∧
    (row.role = .voter → role = .voter) ∧ (role = .voter → row ∈ counted rows start)

theorem keeps_start (h : Tracks rows start) : Keeps rows start start where
  state := rfl
  raft := h.raft
  grows := fun id hid => Option.map_eq_none_iff.mp hid
  cached := by
    intro id role hrole
    obtain ⟨m, hg, rfl⟩ := Option.map_eq_some_iff.mp hrole
    obtain ⟨row, hrow, heq⟩ := h.cached id m hg
    refine ⟨row, hrow, fun hv => by rw [← heq, hv], fun hv => ?_⟩
    rw [counted, mem_filter]
    refine ⟨mem_of_find? hrow, ?_⟩
    simp [heq, hv]

/-- What an accepted removal has found and what it leaves: the change is in the channel. -/
structure Removed (nodeID : String) (c c' : Manager) : Prop where
  leads : c.raft.state = .leader
  role : ∃ role, roleOf c.members nodeID = some role ∧ (role = .voter → minimumVoters < c.countVoters)
  members : c'.members = c.members
  state : c'.state = c.state
  raftState : c'.raft.state = c.raft.state
  raftMembers : c'.raft.members = c.raft.members
  queued : c'.raft.confChangeCh.length = c.raft.confChangeCh.length + 1

/-- `RemoveNode` refuses and changes nothing, or it accepts. -/
theorem removeNode_cases (nodeID : String) (c : Manager) :
    (∃ err, c.removeNode nodeID = (.error err, c)) ∨
      ∃ c', c.removeNode nodeID = (.ok (), c') ∧ Removed nodeID c c' := by
  unfold Manager.removeNode
  split
  · exact .inl ⟨_, rfl⟩
  cases hg : c.members.get? nodeID with
  | none => exact .inl ⟨_, rfl⟩
  | some member =>
    simp only
    split
    · exact .inl ⟨_, rfl⟩
    next hgu =>
      unfold RaftNode.removeNode
      split
      · exact .inl ⟨_, rfl⟩
      next hl =>
        split
        · refine .inr ⟨_, rfl, Decidable.not_not.mp hl, ⟨member.role, ?_, fun hv => ?_⟩,
            rfl, rfl, rfl, rfl, by simp⟩
          · simp [roleOf, hg]
          · exact Nat.lt_of_not_le fun hle => hgu ⟨hv, hle⟩
        · exact .inl ⟨_, rfl⟩

/-- A member is removed if the node leads, more than enough voters are in the list and there is room
in the channel. -/
theorem removeNode_eq_ok {nodeID : String} {role : NodeRole} (hs : c.state = .leader)
    (hl : c.raft.state = .leader) (hrole : roleOf c.members nodeID = some role)
    (hc : minimumVoters < c.countVoters) (hroom : 0 < c.places) :
    ∃ c', c.removeNode nodeID = (.ok (), c') := by
  obtain ⟨member, hg, -⟩ := Option.map_eq_some_iff.mp hrole
  have hgu : ¬ (member.role = .voter ∧ c.countVoters ≤ minimumVoters) := fun h => Nat.not_le_of_lt hc h.2
  have hle : c.raft.confChangeCh.length < confChangeCap := Nat.lt_of_sub_pos hroom
  unfold Manager.removeNode RaftNode.removeNode
  simp only [hs, hg, hl, ne_eq, not_true_eq_false, if_false, hgu, hle, dif_pos]
  exact ⟨_, rfl⟩

/-- There are never more voters in the list than count as voters. -/
theorem Keeps.countVoters_le (h : Keeps rows start c) : c.countVoters ≤ (counted rows start).length := by
  rw [Manager.countVoters, ← length_map (f := Prod.fst), ← length_map (f := nodeID)]
  refine (subperm_of_subset (c.members.nodup.sublist (filter_sublist.map _)) fun id hid => ?_).length_le
  obtain ⟨row, hrow, -, hc⟩ := h.cached id .voter (mem_votersInList.mp hid)
  rw [← key_of_find? hrow]
  exact mem_map_of_mem (hc rfl)

theorem Keeps.updateState (h : Keeps rows start c) : Keeps rows start c.updateState where
  state := h.state
  raft := h.raft
  grows := by
    intro id hid
    rw [roleOf_updateState h.raft] at hid
    split at hid
    · cases hid
    · exact h.grows id hid
  cached := by
    intro id role hrole
    rw [roleOf_updateState h.raft] at hrole
    cases hl : roleOf c.members id with
    | some role' =>
      rw [hl, Option.getD_some, ite_self] at hrole
      cases hrole
      exact h.cached id role hl
    | none =>
      rw [hl] at hrole
      split at hrole
      next hsome =>
        cases hrole
        obtain ⟨row, hrow⟩ := Option.isSome_iff_exists.mp hsome
        refine ⟨row, hrow, fun _ => rfl, fun _ => ?_⟩
        -- not in the list now, so not in the list at the start
        have hs := h.grows id hl
        rw [counted, mem_filter]
        refine ⟨mem_of_find? hrow, ?_⟩
        rw [key_of_find? hrow]
        simp [hs]
      · cases hrole

theorem Keeps.removed (h : Keeps rows start c) {nodeID : String} {c' : Manager}
    (hr : Removed nodeID c c') : Keeps rows start c' where
  state := hr.raftState.trans h.state
  raft := by
    rw [hr.raftMembers]
    exact h.raft
  grows := by
    rw [hr.members]
    exact h.grows
  cached := by
    rw [hr.members]
    exact h.cached

theorem Keeps.step (h : Keeps rows start c) (event : ClusterEvent) : Keeps rows start (c.step event) := by
  cases event with
  | updateState => exact h.updateState
  | removeNode nodeID =>
    rcases removeNode_cases nodeID c with ⟨err, hre⟩ | ⟨c', hre, hr⟩
    · rw [Manager.step, hre]
      exact h
    · rw [Manager.step, hre]
      exact h.removed hr

/-- Every accepted removal takes a place in the channel. -/
theorem length_accepted_le (c : Manager) (events : List ClusterEvent) : (accepted c events).length ≤ c.places := by
  induction events generalizing c with
  | nil => exact Nat.zero_le _
  | cons event events ih =>
    have hrest := ih (c.step event)
    rw [accepted, length_append]
    cases event with
    | updateState =>
      have hp : (c.step .updateState).places = c.places := rfl
      rw [hp] at hrest
      simpa [Manager.accepts] using hrest
    | removeNode nodeID =>
      rcases removeNode_cases nodeID c with ⟨err, hre⟩ | ⟨c', hre, hr⟩
      · simpa [Manager.accepts, Manager.step, hre] using hrest
      · have hroom := c'.raft.room
        have hq := hr.queued
        simp only [Manager.accepts, Manager.step, hre, Manager.places, length_singleton] at hrest ⊢
        omega

/-- A voter is removed only if the node leads and more than the minimum count as voters. -/
theorem Keeps.of_mem_accepted (h : Keeps rows start c) {events : List ClusterEvent} {id : String}
    (hid : id ∈ accepted c events) {row : ClusterMember} (hrow : rows.find? id = some row)
    (hv : row.role = .voter) :
    start.raft.state = .leader ∧ minimumVoters < (counted rows start).length := by
  induction events generalizing c with
  | nil => cases hid
  | cons event events ih =>
    rw [accepted, mem_append] at hid
    rcases hid with hid | hid
    · cases event with
      | updateState => cases hid
      | removeNode nodeID =>
        rcases removeNode_cases nodeID c with ⟨err, hre⟩ | ⟨c', hre, hr⟩
        · rw [Manager.accepts, hre] at hid
          cases hid
        · rw [Manager.accepts, hre] at hid
          obtain rfl := mem_singleton.mp hid
          obtain ⟨role, hrole, hc⟩ := hr.role
          obtain ⟨row', hrow', hv', -⟩ := h.cached id role hrole
          rw [hrow] at hrow'
          cases hrow'
          refine ⟨h.state.symm.trans hr.leads, ?_⟩
          exact Nat.lt_of_lt_of_le (hc (hv' hv)) h.countVoters_le
    · exact ih (h.step event) hid

theorem accepted_removals (ids : List String) (hs : c.state = .leader)
    (hl : c.raft.state = .leader) (hids : ∀ id ∈ ids, (roleOf c.members id).isSome)
    (hc : minimumVoters < c.countVoters) (hroom : ids.length ≤ c.places) :
    accepted c (ids.map .removeNode) = ids := by
  induction ids generalizing c with
  | nil => rfl
  | cons id ids ih =>
    obtain ⟨role, hrole⟩ := Option.isSome_iff_exists.mp (hids id mem_cons_self)
    have hp : 0 < c.places := Nat.lt_of_lt_of_le (Nat.succ_pos _) hroom
    obtain ⟨c', hre⟩ := removeNode_eq_ok hs hl hrole hc hp
    rcases removeNode_cases id c with ⟨err, hre'⟩ | ⟨c'', hre', hr⟩
    · rw [hre] at hre'
      cases hre'
    · rw [hre] at hre'
      cases hre'
      have hn : accepted c' (ids.map .removeNode) = ids := by
        refine ih (hr.state.trans hs) (hr.raftState.trans hl) ?_ ?_ ?_
        · rw [hr.members]
          exact fun id' hid' => hids id' (mem_cons_of_mem _ hid')
        · rwa [Manager.countVoters, hr.members]
        · have hq := hr.queued
          rw [Manager.places, length_cons] at hroom
          rw [Manager.places]
          omega
      rw [map_cons, accepted, Manager.accepts, Manager.step, hre]
      simp [hn]

end Runs

/-! ### The bound -/

section Bound

variable {rows : Table nodeID}

theorem votersAmong_le_length (nodes : List String) : votersAmong rows nodes ≤ nodes.length := by
  rw [votersAmong, ← length_map (f := nodeID)]
  have hn : (((voters rows).filter fun row => row.nodeID ∈ nodes).map nodeID).Nodup :=
    rows.nodup.sublist ((filter_sublist.trans filter_sublist).map nodeID)
  refine (subperm_of_subset hn fun id hid => ?_).length_le
  obtain ⟨row, hrow, rfl⟩ := mem_map.mp hid
  exact of_decide_eq_true (mem_filter.mp hrow).2

/-- From the first `updateState` on, all that count as voters are voters in the list. -/
theorem counted_le_countVoters {start : Manager} (h : Tracks rows start) :
    (counted rows start).length ≤ start.updateState.countVoters := by
  rw [Manager.countVoters, ← length_map (f := Prod.fst), ← length_map (f := nodeID)]
  refine (subperm_of_subset (rows.nodup.sublist (filter_sublist.map _)) fun id hid => ?_).length_le
  obtain ⟨row, hrow, rfl⟩ := mem_map.mp hid
  obtain ⟨hmem, hc⟩ := mem_filter.mp hrow
  have hf := mem_rows_iff.mp hmem
  rw [mem_votersInList, roleOf_updateState h.raft, hf, Option.isSome_some]
  cases hg : start.members.get? row.nodeID with
  | none => simp [roleOf, hg]
  | some m =>
    obtain ⟨row', hrow', hrole⟩ := h.cached row.nodeID m hg
    rw [hf] at hrow'
    cases hrow'
    simp only [hg, reduceCtorEq, or_false, decide_eq_true_eq] at hc
    simp [roleOf, hg, ← hrole, hc]

end Bound

def leading (nodes : List String) : Manager :=
  { state := .leader
    members := nodes.foldl (fun members id => members.set id ⟨id, "", .voter⟩) .empty
    raft :=
      { state := .leader, leader := "a", term := 1, commitIndex := 0
        members := nodes.foldl (fun members id => members.set id "") .empty
        confChangeCh := [], room := Nat.zero_le _ } }

def membership (nodes : List String) : Table nodeID :=
  nodes.foldl (fun rows id => rows.put ⟨id, "", .voter⟩) .empty

theorem tracks_leading : Tracks (membership ["a", "b", "c"]) (leading ["a", "b", "c"]) where
  raft := by
    intro id
    simp only [leading, membership, foldl_cons, foldl_nil, get?_set, find?_put, get?_empty]
    split_ifs <;> simp_all
  cached := by
    intro id m hg
    simp only [leading, membership, foldl_cons, foldl_nil, get?_set, find?_put, get?_empty] at hg ⊢
    split_ifs at hg ⊢ <;> simp_all

end Bib.Cluster
