import Bib.Cluster.Raft
import Bib.Lib.Run

/-!
# Bib.Cluster.HardState

**The vote of a term over restarts** (`loadState`, `Bootstrap` and `Shutdown` in `internal/cluster/raft.go`).
`Shutdown` writes the term without the vote, so a vote that is stored is gone after it (`vote_forgotten`). The
terms of a history are the one found at the beginning and the 1 of `Bootstrap`, which is never left.
-/

namespace Bib.Cluster

open Bib.Lib Bib.Lib.Run List

open RaftNode (bootstrap shutdown)

/-! ### Histories -/

inductive LifeEvent
  | start (readState readMembers : Io)
  | bootstrap (add write : Io) (nodeID address : String)
  | shutdown (write : Io)

/-- The storage, the node that was started last, and all hard states that have been persisted or
reloaded, in this order. -/
structure Life where
  store : RaftStorage
  node : Option RaftNode
  seen : List HardState

/-- Nothing has been started; what is in the storage has been persisted. -/
def Life.initial (store : RaftStorage) : Life :=
  { store, node := none, seen := [store.hardState] }

def Life.write (life : Life) (node : RaftNode) (result : Except RaftError Unit × RaftStorage) : Life :=
  { store := result.2
    node := some node
    seen := match result.1 with
      | .ok _ => life.seen ++ [result.2.hardState]
      | .error _ => life.seen }

/-- One call; without a node there is nothing to call. -/
def lifeStep (life : Life) : LifeEvent → Life
  | .start readState readMembers =>
    match loadState readState readMembers life.store with
    | .error _ => { life with node := none }
    | .ok node => { life with node := some node, seen := life.seen ++ [life.store.hardState] }
  | .bootstrap add write nodeID address =>
    match life.node with
    | none => life
    | some node =>
      let result := node.bootstrap add write nodeID address life.store
      life.write result.2.1 (result.1, result.2.2)
  | .shutdown write =>
    match life.node with
    | none => life
    | some node => life.write node (node.shutdown write life.store)

/-- A later hard state of the same term does not forget the vote. -/
def KeepsVote (earlier later : HardState) : Prop :=
  earlier.vote ≠ "" → earlier.term = later.term → later.vote = earlier.vote

/-- **No vote is forgotten** among the hard states that have been persisted or reloaded. -/
def Life.VotesKept (life : Life) : Prop := life.seen.Pairwise KeepsVote

instance (earlier later : HardState) : Decidable (KeepsVote earlier later) :=
  inferInstanceAs (Decidable (_ → _ → _))

instance (life : Life) : Decidable life.VotesKept :=
  inferInstanceAs (Decidable (life.seen.Pairwise KeepsVote))

/-- A write is harmless: `Shutdown` finds no vote in the term of the node, and `Bootstrap` none but
its own in term 1. -/
def WriteOk (life : Life) : LifeEvent → Prop
  | .shutdown .ok => ∀ node ∈ life.node,
      life.store.hardState.term = node.term → life.store.hardState.vote = ""
  | .bootstrap .ok .ok nodeID _ => ∀ node ∈ life.node, node.members.rows = [] →
      life.store.hardState.term = 1 → life.store.hardState.vote = "" ∨ life.store.hardState.vote = nodeID
  | _ => True

/-! ### One call -/

/-- What a call does: it writes no hard state and at most reads the one stored, or it writes one, and
is harmless if that one keeps the vote that is stored. -/
inductive LifeChange (life : Life) (event : LifeEvent) (life' : Life) : Prop
  | quiet (store : life'.store.hardState = life.store.hardState)
      (node : ∀ node ∈ life'.node, node.term = life.store.hardState.term ∨ node.term = 1)
      (seen : life'.seen = life.seen ∨ life'.seen = life.seen ++ [life.store.hardState])
      (ok : WriteOk life event)
  | written (state : HardState) (store : life'.store.hardState = state)
      (node : ∀ node ∈ life'.node, node.term = state.term)
      (seen : life'.seen = life.seen ++ [state])
      (term : state.term = life.store.hardState.term ∨ state.term = 1)
      (ok : WriteOk life event ↔ (life.store.hardState.term = state.term →
        life.store.hardState.vote = "" ∨ life.store.hardState.vote = state.vote))

/-- What holds before every call: the stored hard state is the last one seen, the node has its term
or 1, and if its term is not 1 it is the only term seen. -/
structure LifeInv (life : Life) : Prop where
  last : ∃ front, life.seen = front ++ [life.store.hardState]
  node : ∀ node ∈ life.node, node.term = life.store.hardState.term ∨ node.term = 1
  seen : ∀ state ∈ life.seen, state.term = life.store.hardState.term ∨ life.store.hardState.term = 1

section Step

variable {life life' : Life} {event : LifeEvent}

theorem lifeInv_initial (store : RaftStorage) : LifeInv (Life.initial store) where
  last := ⟨[], rfl⟩
  node := by simp [Life.initial]
  seen := by simp [Life.initial]

theorem lifeChange_start (readState readMembers : Io) :
    LifeChange life (.start readState readMembers) (lifeStep life (.start readState readMembers)) := by
  cases readState with
  | fails message => exact .quiet rfl (by simp [lifeStep, loadState]) (.inl rfl) trivial
  | ok =>
    cases readMembers with
    | fails message => exact .quiet rfl (by simp [lifeStep, loadState]) (.inl rfl) trivial
    | ok => exact .quiet rfl (by simp [lifeStep, loadState]) (.inr rfl) trivial

theorem lifeChange_shutdown (h : LifeInv life) (write : Io) :
    LifeChange life (.shutdown write) (lifeStep life (.shutdown write)) := by
  cases hn : life.node with
  | none =>
    have hstep : lifeStep life (.shutdown write) = life := by simp [lifeStep, hn]
    have hok : WriteOk life (.shutdown write) := by cases write <;> simp [WriteOk, hn]
    rw [hstep]
    exact .quiet rfl h.node (.inl rfl) hok
  | some node =>
    have ht := h.node node hn
    cases write with
    | fails message =>
      refine .quiet ?_ ?_ (.inl ?_) trivial <;>
        simp [lifeStep, hn, shutdown, setHardState, Life.write, ht]
    | ok =>
      refine .written { term := node.term, vote := "", commit := node.commitIndex } ?_ ?_ ?_ ht ?_
      · simp [lifeStep, hn, shutdown, setHardState, Life.write]
      · simp [lifeStep, hn, shutdown, setHardState, Life.write]
      · simp [lifeStep, hn, shutdown, setHardState, Life.write]
      · simp [WriteOk, hn]

theorem lifeChange_bootstrap (h : LifeInv life) (add write : Io) (nodeID address : String) :
    LifeChange life (.bootstrap add write nodeID address)
      (lifeStep life (.bootstrap add write nodeID address)) := by
  cases hn : life.node with
  | none =>
    have hstep : lifeStep life (.bootstrap add write nodeID address) = life := by
      simp [lifeStep, hn]
    have hok : WriteOk life (.bootstrap add write nodeID address) := by
      cases add <;> cases write <;> simp [WriteOk, hn]
    rw [hstep]
    exact .quiet rfl h.node (.inl rfl) hok
  | some node =>
    by_cases hm : node.members.rows = []
    · cases add with
      | fails message =>
        refine .quiet ?_ ?_ (.inl ?_) trivial <;>
          simp [lifeStep, hn, bootstrap, hm, RaftNode.elected, Life.write]
      | ok =>
        cases write with
        | fails message =>
          refine .quiet ?_ ?_ (.inl ?_) trivial <;>
            simp [lifeStep, hn, bootstrap, hm, RaftNode.elected, setHardState, Life.write]
        | ok =>
          refine .written { term := 1, vote := nodeID, commit := 0 } ?_ ?_ ?_ (.inr rfl) ?_
          · simp [lifeStep, hn, bootstrap, hm, setHardState, Life.write]
          · simp [lifeStep, hn, bootstrap, hm, RaftNode.elected, setHardState, Life.write]
          · simp [lifeStep, hn, bootstrap, hm, setHardState, Life.write]
          · simp [WriteOk, hn, hm]
    · have hok : WriteOk life (.bootstrap add write nodeID address) := by
        cases add <;> cases write <;> simp [WriteOk, hn, hm]
      have ht := h.node node hn
      refine .quiet ?_ ?_ (.inl ?_) hok <;>
        simp [lifeStep, hn, bootstrap, hm, Life.write, ht]

theorem lifeChange (h : LifeInv life) (event : LifeEvent) : LifeChange life event (lifeStep life event) := by
  cases event with
  | start readState readMembers => exact lifeChange_start readState readMembers
  | bootstrap add write nodeID address => exact lifeChange_bootstrap h add write nodeID address
  | shutdown write => exact lifeChange_shutdown h write

/-- A write leaves the term that is stored only for term 1. -/
theorem LifeInv.change (h : LifeInv life) (hc : LifeChange life event life') : LifeInv life' := by
  obtain ⟨front, hf⟩ := h.last
  cases hc with
  | quiet hst hn hse =>
    rcases hse with hse | hse
    · exact ⟨⟨front, by rw [hse, hst, hf]⟩, by rwa [hst], by
        rw [hse, hst]
        exact h.seen⟩
    · refine ⟨⟨life.seen, by rw [hse, hst]⟩, by rwa [hst], ?_⟩
      rw [hse, hst]
      intro state hs
      rcases mem_append.mp hs with hs | hs
      · exact h.seen state hs
      · exact .inl (by rw [mem_singleton.mp hs])
  | written state hst hn hse ht =>
    refine ⟨⟨life.seen, by rw [hse, hst]⟩, ?_, ?_⟩
    · intro node hmem
      rw [hst]
      exact .inl (hn node hmem)
    · rw [hse, hst]
      intro earlier he
      rcases mem_append.mp he with he | he
      · rcases ht with ht | ht
        · rw [ht]
          exact h.seen earlier he
        · exact .inr ht
      · exact .inl (by rw [mem_singleton.mp he])

/-- The vote that is stored stands for all votes seen in its term. -/
theorem forall_keepsVote_iff (h : LifeInv life) (hke : life.VotesKept) {state : HardState}
    (ht : state.term = life.store.hardState.term ∨ state.term = 1) :
    (∀ earlier ∈ life.seen, KeepsVote earlier state) ↔ (life.store.hardState.term = state.term →
        life.store.hardState.vote = "" ∨ life.store.hardState.vote = state.vote) := by
  obtain ⟨front, hf⟩ := h.last
  constructor
  · intro hall heq
    have hlast := hall life.store.hardState (by simp [hf])
    by_cases hv : life.store.hardState.vote = ""
    · exact .inl hv
    · exact .inr (hlast hv heq).symm
  · intro hstored earlier he hv heq
    -- in another term than the stored one, which is 1 then, no state has been seen
    have hs : life.store.hardState.term = state.term := by
      rcases ht with ht | ht
      · exact ht.symm
      · rcases h.seen earlier he with hse | hse
        · rw [← hse, heq]
        · rw [hse, ht]
    have hk : earlier.vote = life.store.hardState.vote := by
      rw [hf] at he
      rcases mem_append.mp he with he | he
      · have hp := hke
        rw [Life.VotesKept, hf] at hp
        have hr := (pairwise_append.mp hp).2.2 earlier he
          life.store.hardState (mem_singleton.mpr rfl)
        exact (hr hv (heq.trans hs.symm)).symm
      · rw [mem_singleton.mp he]
    rcases hstored hs with hnone | heu
    · exact absurd (hk.trans hnone) hv
    · rw [← heu, hk]

theorem votesKept_change_iff (h : LifeInv life) (hc : LifeChange life event life') :
    life'.VotesKept ↔ life.VotesKept ∧ WriteOk life event := by
  have ha : ∀ state : HardState, (life.seen ++ [state]).Pairwise KeepsVote ↔
      life.VotesKept ∧ ∀ earlier ∈ life.seen, KeepsVote earlier state := by
    intro state
    rw [pairwise_append]
    simp [Life.VotesKept]
  cases hc with
  | quiet hs hn hse hok =>
    rcases hse with hse | hse
    · rw [Life.VotesKept, hse]
      exact ⟨fun hk => ⟨hk, hok⟩, And.left⟩
    · rw [Life.VotesKept, hse, ha]
      refine and_congr_right fun hk => ?_
      rw [forall_keepsVote_iff h hk (.inl rfl)]
      exact iff_of_true (fun _ => .inr rfl) hok
  | written state hs hn hse ht hok =>
    rw [Life.VotesKept, hse, ha, hok]
    exact and_congr_right fun hk => forall_keepsVote_iff h hk ht

end Step

/-! ### Whole histories -/

/-- **Votes are kept.** Over any history of starts, bootstraps and shutdowns no vote is forgotten
exactly if every `Shutdown` that writes finds no vote stored in the term of its node, and
every `Bootstrap` that writes finds none stored in term 1 but one for the same node. -/
theorem vote_kept_iff (store : RaftStorage) (events : List LifeEvent) :
    (events.foldl lifeStep (Life.initial store)).VotesKept ↔
      AllSteps lifeStep WriteOk (Life.initial store) events := by
  have hi : (Life.initial store).VotesKept := pairwise_singleton _ _
  have hall : (events.foldl lifeStep (Life.initial store)).VotesKept ↔
      (Life.initial store).VotesKept ∧ AllSteps lifeStep WriteOk (Life.initial store) events :=
    good_iff_allSteps LifeInv Life.VotesKept (fun _ => True)
      (fun life event _ h => h.change (lifeChange h event))
      (fun life event _ h => votesKept_change_iff h (lifeChange h event)) (lifeInv_initial store)
      (fun _ _ => trivial)
  rw [hall]
  exact and_iff_right hi

/-- Over every history a node has the stored term or 1, and a stored term but 1 is the only one seen. -/
theorem life_invariant (store : RaftStorage) (events : List LifeEvent) :
    LifeInv (events.foldl lifeStep (Life.initial store)) :=
  foldlRecOn events lifeStep (lifeInv_initial store) fun _ h event _ => h.change (lifeChange h event)

/-- A node that has been bootstrapped and shut down has forgotten its vote. -/
theorem vote_forgotten :
    ¬ ([.start .ok .ok, .bootstrap .ok .ok "node-1" "10.0.0.1:4002", .shutdown .ok].foldl lifeStep
      (Life.initial { hardState := ⟨0, "", 0⟩, members := .empty })).VotesKept := by
  decide

end Bib.Cluster
