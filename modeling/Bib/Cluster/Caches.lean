import Bib.Cluster.SnapshotReplay
import Bib.Lib.Edit

/-!
# Bib.Cluster.Caches

**The caches of the state machine against its command list, its tables and each other's keys.**

* A command edits one cell of one cache, so replaying commands that were seen already leads to the same caches.
* `Agree` compares the caches with the tables. A delete that finds something, an upsert that would change
  `job_type` or `cel_expression`, and an update whose key is taken by another pair break it (`agree_step_iff`).
* `Untouched` is the frame of a catalog command: two pairs of ids can have one `topicID/datasetID` text.
-/

namespace Bib.Cluster

open Bib.Lib Bib.Domain List KeyMap Table

/-! ### Replaying commands twice -/

def assign (assignedNode : String) (job : ReplicatedJob) : ReplicatedJob :=
  { job with assignedNode := assignedNode, status := "assigned" }

def catalogEdit (key : String) : Command → Edit ReplicatedCatalogEntry Empty
  | .catalogUpdate entry => if key = entry.cacheKey then .write (some entry) else .keep
  | .catalogDelete topicID datasetID => if key = catalogKey topicID datasetID then .write none else .keep
  | _ => .keep

def jobEdit (id : String) : Command → Edit ReplicatedJob String
  | .jobCreate job | .jobUpdate job => if id = job.jobID then .write (some job) else .keep
  | .jobAssign jobID assignedNode => if id = jobID then .amend assignedNode else .keep
  | _ => .keep

/-- The edit of the configuration cell `key`. A nil value is refused by the table. -/
def configEdit (key : String) : Command → Edit Bytes Empty
  | .configSet key' (some value) => if key = key' then .write (some value) else .keep
  | .configDelete key' => if key = key' then .write none else .keep
  | _ => .keep

theorem fsm_step_joinTokenCreate (node : Node) (token : JoinToken) :
    (step node (.joinTokenCreate token)).fsm = node.fsm := by
  cases ht : node.storage.joinTokens.find? token.token with
  | some row => rw [step_joinTokenCreate_of_some ht]
  | none => rw [step_joinTokenCreate_of_none ht]

theorem fsm_step_jobAssign (node : Node) (id assignedNode : String) :
    (step node (.jobAssign id assignedNode)).fsm =
      match node.fsm.jobs.get? id with
      | none => node.fsm
      | some job => { node.fsm with jobs := node.fsm.jobs.set id (assign assignedNode job) } := by
  cases hj : node.fsm.jobs.get? id with
  | none => rw [step_jobAssign_of_none hj]
  | some job =>
    simp only [step, apply, applyJobAssign, hj]
    rfl

theorem catalog_step (node : Node) (command : Command) (key : String) :
    (step node command).fsm.catalog.get? key =
      Edit.run Empty.elim (node.fsm.catalog.get? key) (catalogEdit key command) := by
  cases command with
  | catalogUpdate entry =>
    refine (get?_set node.fsm.catalog entry.cacheKey key entry).trans ?_
    rw [catalogEdit, apply_ite (Edit.run _ _)]
    rfl
  | catalogDelete topicID datasetID =>
    refine (get?_delete node.fsm.catalog _ key).trans ?_
    rw [catalogEdit, apply_ite (Edit.run _ _)]
    rfl
  | jobAssign id assignedNode =>
    rw [fsm_step_jobAssign]
    cases node.fsm.jobs.get? id <;> rfl
  | configSet key' value => cases value <;> rfl
  | joinTokenCreate token => rw [fsm_step_joinTokenCreate]; rfl
  | _ => rfl

theorem jobs_step (node : Node) (command : Command) (id : String) :
    (step node command).fsm.jobs.get? id =
      Edit.run assign (node.fsm.jobs.get? id) (jobEdit id command) := by
  cases command with
  | jobCreate job | jobUpdate job =>
    refine (get?_set node.fsm.jobs job.jobID id job).trans ?_
    rw [jobEdit, apply_ite (Edit.run _ _)]
    rfl
  | jobAssign jobID assignedNode =>
    rw [fsm_step_jobAssign, jobEdit]
    cases hj : node.fsm.jobs.get? jobID with
    | none =>
      -- nothing is created by an assignment
      by_cases hid : id = jobID
      · rw [if_pos hid, hid, hj]
        rfl
      · rw [if_neg hid]
        rfl
    | some job =>
      refine (get?_set node.fsm.jobs jobID id _).trans ?_
      by_cases hid : id = jobID
      · rw [if_pos hid, if_pos hid, hid, hj]
        rfl
      · rw [if_neg hid, if_neg hid]
        rfl
  | configSet key' value => cases value <;> rfl
  | joinTokenCreate token => rw [fsm_step_joinTokenCreate]; rfl
  | _ => rfl

theorem config_step (node : Node) (command : Command) (key : String) :
    (step node command).fsm.config.get? key =
      Edit.run Empty.elim (node.fsm.config.get? key) (configEdit key command) := by
  cases command with
  | configSet key' value =>
    cases value with
    | none => rfl
    | some value =>
      refine (get?_set node.fsm.config key' key value).trans ?_
      rw [configEdit, apply_ite (Edit.run _ _)]
      rfl
  | configDelete key' =>
    refine (get?_delete node.fsm.config key' key).trans ?_
    rw [configEdit, apply_ite (Edit.run _ _)]
    rfl
  | jobAssign id assignedNode =>
    rw [fsm_step_jobAssign]
    cases node.fsm.jobs.get? id <;> rfl
  | joinTokenCreate token => rw [fsm_step_joinTokenCreate]; rfl
  | _ => rfl

section Overlap

variable {V A : Type} {f : A → V → V} {edit : Command → Edit V A}

theorem replay_cell (read : FSM → Option V)
    (hstep : ∀ node command, read (step node command).fsm = Edit.run f (read node.fsm) (edit command))
    (commands : List Command) (node : Node) :
    read (replay commands node).fsm = (commands.map edit).foldl (Edit.run f) (read node.fsm) := by
  induction commands generalizing node with
  | nil => rfl
  | cons command commands ih =>
    refine (ih (step node command)).trans ?_
    rw [hstep]
    rfl

/-- The commands that are applied twice come in two runs right after one another. -/
theorem overlap_cell (hf : ∀ a b v, f a (f b v) = f a v) (read : FSM → Option V)
    (hstep : ∀ node command, read (step node command).fsm = Edit.run f (read node.fsm) (edit command))
    (commands : List Command) (i extra : Nat) (start : Node) (storage : Storage) :
    read (replay (commands.drop i)
        { fsm := (replay (commands.take (i + extra)) start).fsm, storage := storage }).fsm =
      read (replay commands start).fsm := by
  obtain ⟨before, again, after, hall, ht, hd⟩ : ∃ before again after,
      commands = before ++ again ++ after ∧ commands.take (i + extra) = before ++ again ∧
        commands.drop i = again ++ after := by
    refine ⟨commands.take i, (commands.drop i).take extra, (commands.drop i).drop extra, ?_,
      take_add, (take_append_drop extra _).symm⟩
    rw [append_assoc, take_append_drop, take_append_drop]
  rw [ht, hd, hall, replay_cell read hstep, replay_cell read hstep, replay_cell read hstep]
  simp only [map_append, foldl_append]
  rw [Edit.foldl_run_twice hf]

theorem swap_cell (read : FSM → Option V)
    (hstep : ∀ node command, read (step node command).fsm = Edit.run f (read node.fsm) (edit command))
    {a b : Command} (h : edit a = .keep ∨ edit b = .keep) (before after : List Command) (node : Node) :
    read (replay (before ++ a :: b :: after) node).fsm = read (replay (before ++ b :: a :: after) node).fsm := by
  rw [replay_cell read hstep, replay_cell read hstep]
  simp only [map_append, map_cons, foldl_append, foldl_cons]
  rcases h with h | h <;> simp only [h, Edit.run]

end Overlap

/-- **Commands `i + 1` to the end, applied to the caches that commands `1` to `i + extra` have left, give the
caches of the whole list**, on whatever database they are replayed. -/
theorem overlapping_replay_same (commands : List Command) (i extra : Nat) (start : Node)
    (storage : Storage) : FSM.Same (replay (commands.drop i)
        { fsm := (replay (commands.take (i + extra)) start).fsm, storage := storage }).fsm
      (replay commands start).fsm where
  catalog key := overlap_cell (fun a => a.elim) (fun fsm => fsm.catalog.get? key)
    (fun node command => catalog_step node command key) commands i extra start storage
  jobs id := overlap_cell (f := assign) (fun _ _ _ => rfl) (fun fsm => fsm.jobs.get? id)
    (fun node command => jobs_step node command id) commands i extra start storage
  config key := overlap_cell (fun a => a.elim) (fun fsm => fsm.config.get? key)
    (fun node command => config_step node command key) commands i extra start storage

/-- **Commands on different cells commute**: swapping two neighbours changes only cells that both edit. -/
theorem swapped_commands_same (a b : Command) (before after : List Command) (node : Node) :
    let fsm := (replay (before ++ a :: b :: after) node).fsm
    let fsm' := (replay (before ++ b :: a :: after) node).fsm
    (∀ key, catalogEdit key a = .keep ∨ catalogEdit key b = .keep → fsm.catalog.get? key = fsm'.catalog.get? key) ∧
      (∀ id, jobEdit id a = .keep ∨ jobEdit id b = .keep → fsm.jobs.get? id = fsm'.jobs.get? id) ∧
      ∀ key, configEdit key a = .keep ∨ configEdit key b = .keep → fsm.config.get? key = fsm'.config.get? key :=
  ⟨fun key h => swap_cell (·.catalog.get? key) (catalog_step · · key) h before after node,
    fun id h => swap_cell (·.jobs.get? id) (jobs_step · · id) h before after node,
    fun key h => swap_cell (·.config.get? key) (config_step · · key) h before after node⟩

/-! ### Caches and tables -/

def ReplicatedCatalogEntry.undated (entry : ReplicatedCatalogEntry) : ReplicatedCatalogEntry :=
  { entry with updatedAt := 0 }

/-- The caches contain exactly the rows of the three tables. -/
structure Agree (node : Node) : Prop where
  catalog : ∀ entry, (∃ row ∈ node.storage.catalog.rows, row.undated = entry) ↔
    ∃ key cached, node.fsm.catalog.get? key = some cached ∧ cached.undated = entry
  jobs : ∀ job, job ∈ node.storage.jobs.rows ↔ ∃ id, node.fsm.jobs.get? id = some job
  config : ∀ key, node.storage.config.get? key = node.fsm.config.get? key

/-- What a command has to meet in the state it is applied to. -/
def AgreeOk (node : Node) : Command → Prop
  -- no other pair is cached under the same `topicID/datasetID` text
  | .catalogUpdate entry => ∀ old, node.fsm.catalog.get? entry.cacheKey = some old →
      old.pair = entry.pair
  -- deletes reach the cache only, so they must not find anything
  | .catalogDelete topicID datasetID => node.fsm.catalog.get? (catalogKey topicID datasetID) = none
  | .configDelete key => node.fsm.config.get? key = none
  -- the two columns an upsert leaves alone are what they were
  | .jobCreate job | .jobUpdate job => ∀ row, node.storage.jobs.find? job.jobID = some row →
      row.jobType = job.jobType ∧ row.celExpression = job.celExpression
  | .jobAssign _ _ | .configSet _ _ | .joinTokenCreate _ | .unknown _ | .malformed _ => True

section Agreement

variable {node : Node}

theorem agree_iff (hcn : Consistent node) : Agree node ↔ CatalogCached node ∧
      (∀ id, node.storage.jobs.find? id = node.fsm.jobs.get? id) ∧
      ∀ key, node.storage.config.get? key = node.fsm.config.get? key := by
  constructor
  · intro h
    refine ⟨fun pair entry hrow => ?_, fun id => ?_, h.config⟩
    · obtain ⟨key, cached, hg, hu⟩ :=
        (h.catalog entry.undated).mp ⟨entry, mem_of_find? hrow, rfl⟩
      -- the cached entry has the same primary key, and so it is the row
      have hp : cached.pair = entry.pair := show cached.undated.pair = _ from hu ▸ rfl
      have hc := hcn.catalogRow key cached hg
      rw [hp, mem_rows_iff.mp (mem_of_find? hrow)] at hc
      cases hc
      rw [hcn.catalogKey key entry hg]
      exact hg
    · ext job
      rw [find?_eq_some_iff, h.jobs]
      constructor
      · intro hj
        obtain ⟨⟨key, hg⟩, rfl⟩ := hj
        rw [hcn.jobKey key job hg]
        exact hg
      · intro hg
        exact ⟨⟨id, hg⟩, hcn.jobKey id job hg⟩
  · intro h
    obtain ⟨hca, hjo, hco⟩ := h
    refine ⟨fun entry => ⟨fun hrow => ?_, fun hc => ?_⟩, fun job => ?_, hco⟩
    · obtain ⟨row, hmem, hu⟩ := hrow
      exact ⟨row.cacheKey, row, hca _ row (mem_rows_iff.mp hmem), hu⟩
    · obtain ⟨key, cached, hg, hu⟩ := hc
      exact ⟨cached, mem_of_find? (hcn.catalogRow key cached hg), hu⟩
    · rw [mem_rows_iff, hjo]
      refine ⟨fun hg => ⟨_, hg⟩, fun hg => ?_⟩
      obtain ⟨id, hg⟩ := hg
      rw [hcn.jobKey id job hg]
      exact hg

variable (hcn : Consistent node) (h : Agree node)

include hcn h

/-- Storing and caching a job: its row is the job exactly when the kept columns are its own. -/
theorem agree_setJob_iff (job : ReplicatedJob) :
    Agree (step node (.jobUpdate job)) ↔ AgreeOk node (.jobUpdate job) := by
  obtain ⟨hc, hj, hco⟩ := (agree_iff hcn).mp h
  rw [agree_iff (hcn.setJob job), AgreeOk, ← upsertedJob_eq_iff]
  constructor
  · intro hnew
    have hrow : (node.storage.jobs.put _).find? job.jobID = (node.fsm.jobs.set _ job).get? job.jobID :=
      hnew.2.1 job.jobID
    rw [find?_put, upsertedJob_jobID, if_pos rfl, get?_set, if_pos rfl] at hrow
    exact Option.some_inj.mp hrow
  · intro hu
    refine ⟨hc, fun id => ?_, hco⟩
    show (node.storage.jobs.put _).find? id = (node.fsm.jobs.set _ job).get? id
    rw [find?_put, get?_set, hu, hj]

theorem agree_jobAssign (id assignedNode : String) : Agree (step node (.jobAssign id assignedNode)) := by
  cases hj : node.fsm.jobs.get? id with
  | none =>
    rw [step_jobAssign_of_none hj]
    exact h
  | some job =>
    rw [step_jobAssign hcn hj]
    refine (agree_setJob_iff hcn h _).mpr fun row hrow => ?_
    -- the row is the job that was cached
    have hold : node.storage.jobs.find? job.jobID = some row := hrow
    rw [((agree_iff hcn).mp h).2.1, hcn.jobKey id job hj, hj] at hold
    cases hold
    exact ⟨rfl, rfl⟩

theorem agree_step_iff (command : Command) : Agree (step node command) ↔ AgreeOk node command := by
  obtain ⟨hc, hj, hco⟩ := (agree_iff hcn).mp h
  have hn := agree_iff (consistent_step hcn command)
  cases command with
  | catalogUpdate entry =>
    rw [hn, catalogCached_update_iff hcn hc]
    exact ⟨fun hnew => hnew.1, fun hok => ⟨hok, hj, hco⟩⟩
  | catalogDelete topicID datasetID =>
    rw [hn, catalogCached_delete_iff hcn hc]
    exact ⟨fun hnew => hnew.1, fun hok => ⟨hok, hj, hco⟩⟩
  | jobCreate job | jobUpdate job => exact agree_setJob_iff hcn h job
  | jobAssign id assignedNode => exact iff_of_true (agree_jobAssign hcn h id assignedNode) trivial
  | configSet key value =>
    refine iff_of_true ?_ trivial
    cases value with
    | none => exact h
    | some value =>
      refine hn.mpr ⟨hc, hj, fun key' => ?_⟩
      show (node.storage.config.set key value).get? key' = (node.fsm.config.set key value).get? key'
      rw [get?_set, get?_set, hco]
  | configDelete key =>
    rw [hn]
    constructor
    · intro hnew
      have hrow : node.storage.config.get? key = (node.fsm.config.delete key).get? key := hnew.2.2 key
      rw [get?_delete, if_pos rfl, hco] at hrow
      exact hrow
    · intro hok
      refine ⟨hc, hj, fun key' => ?_⟩
      show node.storage.config.get? key' = (node.fsm.config.delete key).get? key'
      rw [get?_delete, hco]
      by_cases hk : key' = key
      · rw [if_pos hk, hk]
        exact hok
      · rw [if_neg hk]
  | joinTokenCreate token =>
    refine iff_of_true ?_ trivial
    cases ht : node.storage.joinTokens.find? token.token with
    | some row =>
      rw [step_joinTokenCreate_of_some ht]
      exact h
    | none =>
      rw [step_joinTokenCreate_of_none ht]
      exact ⟨h.catalog, h.jobs, h.config⟩
  | unknown type => exact iff_of_true h trivial
  | malformed error => exact iff_of_true h trivial

end Agreement

/-- **Caches and tables agree after every prefix of a command list exactly when each command meets `AgreeOk` in
the state it is applied to.** -/
theorem caches_agree_iff (commands : List Command) :
    (∀ done, done <+: commands → Agree (replay done .fresh)) ↔
      Run.AllSteps step AgreeOk .fresh commands :=
  Run.forall_prefix_iff_allSteps Consistent Agree (fun _ command hc => consistent_step hc command)
    (fun _ command hc h => agree_step_iff hc h command) consistent_fresh
    ((agree_iff consistent_fresh).mpr ⟨fun _ _ h => (Option.some_ne_none _ h.symm).elim, fun _ => rfl, fun _ => rfl⟩)

/-- A job that is updated to another type: the cache has the new type, the row the old one. -/
def retyped (jobType : String) : ReplicatedJob :=
  { jobID := "j", jobType := jobType, assignedNode := "", status := "pending", priority := 0
    celExpression := "", metadata := none }

/-- A deleted value keeps its row, and an updated job keeps the type of its row. -/
theorem caches_disagree_after_delete_and_retype :
    ¬ Agree (replay [.configSet "k" (some [1]), .configDelete "k"] .fresh) ∧
      ¬ Agree (replay [.jobCreate (retyped "a"), .jobUpdate (retyped "b")] .fresh) := by
  constructor
  · intro h
    have hrow := h.config "k"
    exact absurd hrow (by decide)
  · intro h
    have hc := consistent_replay consistent_fresh [.jobCreate (retyped "a"), .jobUpdate (retyped "b")]
    have hrow := ((agree_iff hc).mp h).2.1 "j"
    exact absurd hrow (by decide)

/-! ### Other entries of the catalog -/

/-- The state after calls of `Apply` whose storage calls end as given. -/
def Node.run (node : Node) (calls : List (Io × Command)) : Node :=
  calls.foldl (fun node call => (apply call.1 call.2 node).2) node

/-- The cached entries of other pairs are still there, unchanged. -/
def Untouched (pair : String × String) (before after : FSM) : Prop :=
  ∀ key entry, before.catalog.get? key = some entry → entry.pair ≠ pair →
    after.catalog.get? key = some entry

/-- Only a catalog command changes the catalog, and an update does so after its row is stored. -/
theorem catalog_apply (io : Io) (command : Command) (node : Node) :
    (apply io command node).2.fsm.catalog =
      match command, io with
      | .catalogUpdate entry, .ok => node.fsm.catalog.set entry.cacheKey entry
      | .catalogDelete topicID datasetID, _ => node.fsm.catalog.delete (catalogKey topicID datasetID)
      | _, _ => node.fsm.catalog := by
  cases command with
  | jobAssign id assignedNode =>
    simp only [apply, applyJobAssign]
    cases node.fsm.jobs.get? id <;> cases io <;> rfl
  | configSet key value => cases value <;> cases io <;> rfl
  | joinTokenCreate token =>
    simp only [apply, applyJoinTokenCreate, storeJoinToken]
    cases node.storage.joinTokens.find? token.token <;> cases io <;> rfl
  | _ => cases io <;> rfl

theorem cacheKey_run (calls : List (Io × Command)) :
    ∀ key entry, (Node.fresh.run calls).fsm.catalog.get? key = some entry → entry.cacheKey = key := by
  refine Run.invariant (fun node : Node => ∀ key entry, node.fsm.catalog.get? key = some entry →
    entry.cacheKey = key) (fun _ => True) (fun node call _ h key entry hg => ?_)
    (fun key entry hg => (Option.some_ne_none entry hg.symm).elim) (fun _ _ => trivial)
  rw [catalog_apply] at hg
  split at hg
  · obtain ⟨hk, rfl⟩ | ⟨-, hold⟩ := get?_set_eq_some_iff.mp hg
    · exact hk.symm
    · exact h key entry hold
  · exact h key entry (get?_delete_eq_some_iff.mp hg).2
  · exact h key entry hg

/-- The update of an entry that is stored takes away what another pair has under the same key. -/
theorem untouched_update_iff (io : Io) (entry : ReplicatedCatalogEntry) (node : Node) :
    Untouched entry.pair node.fsm (apply io (.catalogUpdate entry) node).2.fsm ↔
      (io = .ok → ∀ old, node.fsm.catalog.get? entry.cacheKey = some old → old.pair = entry.pair) := by
  unfold Untouched
  rw [catalog_apply]
  cases io with
  | fails message => exact iff_of_true (fun key old hold _ => hold) (fun h => by cases h)
  | ok =>
    constructor
    · intro h _ old hold
      by_contra hp
      have ha := h _ old hold hp
      rw [get?_set, if_pos rfl] at ha
      cases ha
      exact hp rfl
    · intro h key old hold hp
      refine get?_set_eq_some_iff.mpr (.inr ⟨fun hk => hp ?_, hold⟩)
      exact h rfl old (hk ▸ hold)

theorem untouched_delete_iff (io : Io) (topicID datasetID : String) (node : Node) :
    Untouched (topicID, datasetID) node.fsm (apply io (.catalogDelete topicID datasetID) node).2.fsm ↔
      ∀ old, node.fsm.catalog.get? (catalogKey topicID datasetID) = some old →
        old.pair = (topicID, datasetID) := by
  constructor
  · intro h old hold
    by_contra hp
    exact (get?_delete_eq_some_iff.mp (h _ old hold hp)).1 rfl
  · intro h key old hold hp
    refine get?_delete_eq_some_iff.mpr ⟨fun hk => hp ?_, hold⟩
    exact h old (hk ▸ hold)

/-- No cached entry of another pair has the same `topicID/datasetID` text. -/
def KeyFree (pair : String × String) (fsm : FSM) : Prop :=
  ∀ key old, fsm.catalog.get? key = some old → old.cacheKey = catalogKey pair.1 pair.2 → old.pair = pair

theorem keyFree_iff {calls : List (Io × Command)} {pair : String × String} :
    KeyFree pair (Node.fresh.run calls).fsm ↔
      ∀ old, (Node.fresh.run calls).fsm.catalog.get? (catalogKey pair.1 pair.2) = some old →
        old.pair = pair := by
  constructor
  · intro h old hold
    exact h _ old hold (cacheKey_run calls _ old hold)
  · intro h key old hold hk
    have hown := cacheKey_run calls key old hold
    rw [hown] at hk
    exact h old (hk ▸ hold)

/-- **In every state that calls of `Apply` can reach, a catalog update or delete leaves the cached entries of
other pairs alone exactly when none of them has its `topicID/datasetID` text.** An update whose row is not
stored leaves everything alone. -/
theorem catalog_commands_frame_iff (calls : List (Io × Command)) (io : Io) :
    (∀ entry, Untouched entry.pair (Node.fresh.run calls).fsm
          (apply io (.catalogUpdate entry) (Node.fresh.run calls)).2.fsm ↔
        (io = .ok → KeyFree entry.pair (Node.fresh.run calls).fsm)) ∧
      ∀ topicID datasetID, Untouched (topicID, datasetID) (Node.fresh.run calls).fsm
          (apply io (.catalogDelete topicID datasetID) (Node.fresh.run calls)).2.fsm ↔
        KeyFree (topicID, datasetID) (Node.fresh.run calls).fsm := by
  simp only [keyFree_iff]
  exact ⟨fun entry => untouched_update_iff io entry _,
    fun topicID datasetID => untouched_delete_iff io topicID datasetID _⟩

/-- The pairs `a/b`, `c` and `a`, `b/c` have one key. -/
def sampleEntry (topicID datasetID : String) : ReplicatedCatalogEntry :=
  { topicID := topicID, datasetID := datasetID, hash := "h", size := 1, chunkCount := 1
    ownerPeerID := "p", updatedAt := 0 }

/-- The entry of `a/b`, `c` is gone after an update of `a`, `b/c`, and after a delete of it. -/
theorem catalog_command_touches_other_pair :
    let node := Node.fresh.run [(.ok, .catalogUpdate (sampleEntry "a/b" "c"))]
    ¬ Untouched ("a", "b/c") node.fsm (apply .ok (.catalogUpdate (sampleEntry "a" "b/c")) node).2.fsm ∧
      ¬ Untouched ("a", "b/c") node.fsm (apply .ok (.catalogDelete "a" "b/c") node).2.fsm := by
  constructor
  · intro h
    exact absurd (h "a/b/c" (sampleEntry "a/b" "c") (by decide) (by decide)) (by decide)
  · intro h
    exact absurd (h "a/b/c" (sampleEntry "a/b" "c") (by decide) (by decide)) (by decide)

end Bib.Cluster
