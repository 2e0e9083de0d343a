import Bib.Cluster.SnapshotReplay

/-!
# Bib.Cluster.Restore

**Restoring a snapshot on a node that has a state of its own** (`FSM.Restore`). `Restore` assigns the caches,
but it only upserts rows, and a job that was there keeps its `job_type` and `cel_expression`. Join tokens are
not in a snapshot, and `Apply` refuses a token that is stored.

Two nodes behave alike if they do so for every list of further commands. That they are `Similar` is what every
command keeps (`Similar.apply`), and decides about it (`behavesAs_iff`).
-/

namespace Bib.Cluster

open Bib.Lib Bib.Domain List KeyMap Table

open ReplicatedJob (jobID)

/-! ### The property -/

/-- The caches and the rows are the content of the snapshot. -/
structure Replaced (snap : Snapshot) (node : Node) : Prop where
  catalogCache : ∀ key entry, node.fsm.catalog.get? key = some entry ↔ (key, entry) ∈ snap.catalog
  jobsCache : ∀ id job, node.fsm.jobs.get? id = some job ↔ (id, job) ∈ snap.jobs
  configCache : ∀ key value, node.fsm.config.get? key = some value ↔ (key, value) ∈ snap.config
  catalogRows : ∀ entry, entry ∈ node.storage.catalog.rows ↔ ∃ key, (key, entry) ∈ snap.catalog
  jobRows : ∀ job, job ∈ node.storage.jobs.rows ↔ ∃ id, (id, job) ∈ snap.jobs
  configRows : ∀ key value, node.storage.config.get? key = some value ↔ (key, value) ∈ snap.config

/-- The caches are the same, and so are the rows of what is cached. Rows that are in no cache are
those of deleted values: no command reads them. -/
structure Alike (a b : Node) : Prop extends a.fsm.Same b.fsm where
  catalogRow : ∀ key entry, a.fsm.catalog.get? key = some entry →
    a.storage.catalog.find? entry.pair = b.storage.catalog.find? entry.pair
  jobRow : ∀ id job, a.fsm.jobs.get? id = some job → a.storage.jobs.find? id = b.storage.jobs.find? id
  configRow : ∀ key value, a.fsm.config.get? key = some value →
    a.storage.config.get? key = b.storage.config.get? key

/-- Whatever is applied from now on, every `Apply` returns the same and leaves the same. -/
def BehavesAs (a b : Node) : Prop :=
  ∀ more command,
    (apply .ok command (replay more a)).1 = (apply .ok command (replay more b)).1 ∧
      Alike (step (replay more a) command) (step (replay more b) command)

/-- Restoring the snapshot taken after `commands` on a node that has applied `commands'` succeeds,
whatever order the maps are iterated in; it replaces the state, and from then on the node behaves
as the one that the snapshot was taken of. -/
def RestoreReplaces (commands commands' : List Command) : Prop :=
  ∀ snap : Snapshot, snap.Reordered (snapshot (replay commands .fresh).fsm) →
    ∃ node, restore (fun _ => .ok) snap (replay commands' .fresh) = (.ok (), node) ∧
      Replaced snap node ∧ BehavesAs (replay commands .fresh) node

/-- The condition: `a` is the node that the snapshot is taken of, and `b` the one it is restored
on. -/
structure RestoreOk (a b : Node) : Prop where
  /-- Every catalog row of `b` is overwritten. -/
  catalog : ∀ row ∈ b.storage.catalog.rows, ∃ p ∈ a.fsm.catalog.rows, p.2.pair = row.pair
  /-- Every job row of `b` is overwritten by a job with its type and expression. -/
  jobs : ∀ row ∈ b.storage.jobs.rows, ∃ p ∈ a.fsm.jobs.rows,
    p.1 = row.jobID ∧ p.2.jobType = row.jobType ∧ p.2.celExpression = row.celExpression
  /-- Every configuration row of `b` is overwritten. -/
  config : ∀ p ∈ b.storage.config.rows, ∃ q ∈ a.fsm.config.rows, q.1 = p.1
  /-- The metadata of every job is written to JSON as it is. -/
  metadata : ∀ p ∈ a.fsm.jobs.rows, p.2.metadata = some (marshalRaw p.2.metadata)
  /-- The row of every job of `a` is what is cached. -/
  jobRows : ∀ p ∈ a.fsm.jobs.rows, a.storage.jobs.find? p.1 = some p.2
  /-- The same join tokens are stored, used or not. -/
  tokens : ∀ token, (a.storage.joinTokens.find? token).isSome = (b.storage.joinTokens.find? token).isSome

/-! ### Nodes that behave alike -/

/-- What decides about all further commands. -/
structure Similar (a b : Node) : Prop extends Alike a b where
  tokens : ∀ token, (a.storage.joinTokens.find? token).isSome = (b.storage.joinTokens.find? token).isSome

section Behaviour

variable {a b : Node}

/-- Consistent nodes that are alike have the same job rows, as a job that is not cached has none. -/
theorem Alike.jobRows (h : Alike a b) (ha : Consistent a) (hb : Consistent b) (id : String) :
    a.storage.jobs.find? id = b.storage.jobs.find? id := by
  cases hc : a.fsm.jobs.get? id with
  | some job => exact h.jobRow id job hc
  | none =>
    have har := ha.jobRow id
    have hbr := hb.jobRow id
    rw [hc, Option.map_none, Option.map_eq_none_iff] at har
    rw [← h.jobs, hc, Option.map_none, Option.map_eq_none_iff] at hbr
    rw [har, hbr]

theorem Similar.setCatalog (h : Similar a b) (entry : ReplicatedCatalogEntry) :
    Similar (step a (.catalogUpdate entry)) (step b (.catalogUpdate entry)) := by
  refine { h with catalog := fun key => ?_, catalogRow := fun key e hg => ?_ }
  · show (a.fsm.catalog.set _ entry).get? key = (b.fsm.catalog.set _ entry).get? key
    rw [get?_set, get?_set, h.catalog key]
  · show (a.storage.catalog.put entry).find? e.pair = (b.storage.catalog.put entry).find? e.pair
    rw [find?_put, find?_put]
    rcases get?_set_eq_some_iff.mp hg with ⟨-, rfl⟩ | ⟨-, hold⟩
    · rw [if_pos rfl, if_pos rfl]
    · rw [h.catalogRow key e hold]

theorem Similar.setJob (h : Similar a b) (ha : Consistent a) (hb : Consistent b)
    (job : ReplicatedJob) : Similar (step a (.jobUpdate job)) (step b (.jobUpdate job)) := by
  refine { h with jobs := fun id => ?_, jobRow := fun id job' _ => ?_ }
  · show (a.fsm.jobs.set _ job).get? id = (b.fsm.jobs.set _ job).get? id
    rw [get?_set, get?_set, h.jobs id]
  · show (a.storage.jobs.put _).find? id = (b.storage.jobs.put _).find? id
    rw [find?_put, find?_put, upsertedJob_jobID, upsertedJob_jobID,
      h.jobRows ha hb job.jobID, h.jobRows ha hb id]

theorem Similar.setConfig (h : Similar a b) (key : String) (value : Bytes) :
    Similar (step a (.configSet key (some value))) (step b (.configSet key (some value))) := by
  refine { h with config := fun key' => ?_, configRow := fun key' v hg => ?_ }
  · show (a.fsm.config.set key value).get? key' = (b.fsm.config.set key value).get? key'
    rw [get?_set, get?_set, h.config key']
  · show (a.storage.config.set key value).get? key' = (b.storage.config.set key value).get? key'
    rw [get?_set, get?_set]
    rcases get?_set_eq_some_iff.mp hg with ⟨hk, -⟩ | ⟨-, hold⟩
    · rw [if_pos hk, if_pos hk]
    · rw [h.configRow key' v hold]

theorem Similar.putToken (h : Similar a b) (row : JoinTokenRow) : Similar
      { a with storage := { a.storage with joinTokens := a.storage.joinTokens.put row } }
      { b with storage := { b.storage with joinTokens := b.storage.joinTokens.put row } } where
  toAlike := { h.toAlike with }
  tokens token := by
    rw [find?_put, find?_put]
    split
    · rfl
    · exact h.tokens token

theorem apply_joinTokenCreate (node : Node) (token : JoinToken) :
    (apply .ok (.joinTokenCreate token) node).1 =
      if (node.storage.joinTokens.find? token.token).isSome
      then .error (.storage (.unique "join_tokens.token")) else .ok () := by
  simp only [apply, applyJoinTokenCreate, storeJoinToken]
  cases node.storage.joinTokens.find? token.token <;> rfl

theorem Similar.deleteCatalog (h : Similar a b) (topicID datasetID : String) :
    Similar (step a (.catalogDelete topicID datasetID))
      (step b (.catalogDelete topicID datasetID)) := by
  refine { h with catalog := fun key => ?_, catalogRow := fun key e hg => ?_ }
  · show (a.fsm.catalog.delete _).get? key = (b.fsm.catalog.delete _).get? key
    rw [get?_delete, get?_delete, h.catalog key]
  · exact h.catalogRow key e (get?_delete_eq_some_iff.mp hg).2

theorem Similar.deleteConfig (h : Similar a b) (key : String) :
    Similar (step a (.configDelete key)) (step b (.configDelete key)) := by
  refine { h with config := fun key' => ?_, configRow := fun key' v hg => ?_ }
  · show (a.fsm.config.delete key).get? key' = (b.fsm.config.delete key).get? key'
    rw [get?_delete, get?_delete, h.config key']
  · exact h.configRow key' v (get?_delete_eq_some_iff.mp hg).2

theorem Similar.jobAssign (h : Similar a b) (ha : Consistent a) (hb : Consistent b) (id assignedNode : String) :
    (apply .ok (.jobAssign id assignedNode) a).1 = (apply .ok (.jobAssign id assignedNode) b).1 ∧
      Similar (step a (.jobAssign id assignedNode)) (step b (.jobAssign id assignedNode)) := by
  cases hj : a.fsm.jobs.get? id with
  | none =>
    have hj' : b.fsm.jobs.get? id = none := (h.jobs id).symm.trans hj
    rw [step_jobAssign_of_none hj, step_jobAssign_of_none hj']
    refine ⟨?_, h⟩
    simp [Cluster.apply, applyJobAssign, hj, hj']
  | some job =>
    have hj' : b.fsm.jobs.get? id = some job := (h.jobs id).symm.trans hj
    rw [step_jobAssign ha hj, step_jobAssign hb hj']
    refine ⟨?_, h.setJob ha hb _⟩
    simp only [Cluster.apply, applyJobAssign, hj, hj']
    rfl

theorem Similar.joinTokenCreate (h : Similar a b) (token : JoinToken) :
    Similar (step a (.joinTokenCreate token)) (step b (.joinTokenCreate token)) := by
  have ht := h.tokens token.token
  cases hto : a.storage.joinTokens.find? token.token with
  | some row =>
    rw [hto] at ht
    obtain ⟨row', hto'⟩ := Option.isSome_iff_exists.mp ht.symm
    rw [step_joinTokenCreate_of_some hto, step_joinTokenCreate_of_some hto']
    exact h
  | none =>
    rw [hto] at ht
    have hto' : b.storage.joinTokens.find? token.token = none :=
      Option.isSome_eq_false_iff.mp ht.symm |> Option.isNone_iff_eq_none.mp
    rw [step_joinTokenCreate_of_none hto, step_joinTokenCreate_of_none hto']
    exact h.putToken _

theorem Similar.apply (h : Similar a b) (ha : Consistent a) (hb : Consistent b)
    (command : Command) : (apply .ok command a).1 = (apply .ok command b).1 ∧
      Similar (step a command) (step b command) := by
  cases command with
  | catalogUpdate entry => exact ⟨rfl, h.setCatalog entry⟩
  | catalogDelete topicID datasetID => exact ⟨rfl, h.deleteCatalog topicID datasetID⟩
  | jobCreate job => exact ⟨rfl, h.setJob ha hb job⟩
  | jobUpdate job => exact ⟨rfl, h.setJob ha hb job⟩
  | jobAssign id assignedNode => exact h.jobAssign ha hb id assignedNode
  | configSet key value =>
    cases value with
    | none => exact ⟨rfl, h⟩
    | some value => exact ⟨rfl, h.setConfig key value⟩
  | configDelete key => exact ⟨rfl, h.deleteConfig key⟩
  | joinTokenCreate token =>
    refine ⟨?_, h.joinTokenCreate token⟩
    rw [apply_joinTokenCreate, apply_joinTokenCreate, h.tokens token.token]
  | _ => exact ⟨rfl, h⟩

theorem Similar.replay (h : Similar a b) (ha : Consistent a) (hb : Consistent b)
    (more : List Command) : Similar (replay more a) (replay more b) := by
  induction more generalizing a b with
  | nil => exact h
  | cons command more ih =>
    exact ih (h.apply ha hb command).2 (consistent_step ha command) (consistent_step hb command)

/-- Consistent nodes behave alike exactly if they are similar. -/
theorem behavesAs_iff (ha : Consistent a) (hb : Consistent b) : BehavesAs a b ↔ Similar a b := by
  constructor
  · intro h
    -- an unknown command leaves both nodes as they are
    have hal : Alike a b := (h [] (.unknown 0)).2
    refine { hal with tokens := fun token => ?_ }
    have hr := (h [] (.joinTokenCreate
      { clusterName := "", leaderAddr := "", token, expiresAt := 0 })).1
    rw [apply_joinTokenCreate, apply_joinTokenCreate] at hr
    revert hr
    show (if (a.storage.joinTokens.find? token).isSome then _ else _) =
      (if (b.storage.joinTokens.find? token).isSome then _ else _) → _
    cases (a.storage.joinTokens.find? token).isSome <;>
      cases (b.storage.joinTokens.find? token).isSome <;> simp
  · intro h more command
    have hm := h.replay ha hb more
    have hstep := hm.apply (consistent_replay ha more) (consistent_replay hb more) command
    exact ⟨hstep.1, hstep.2.toAlike⟩

end Behaviour

/-! ### What is left of the state before -/

section Replaced

variable {a b : Node} {snap : Snapshot}

/-- Upserting jobs replaces the rows exactly if each row is overwritten by a job with its type and
expression. -/
theorem rows_upsert_iff {t : Table jobID} {jobs : List ReplicatedJob}
    (hnd : (jobs.map jobID).Nodup) :
    (∀ job, job ∈ (t.putAll (jobs.map fun job => upsertedJob (t.find? job.jobID) job)).rows ↔
        job ∈ jobs) ↔
      ∀ row ∈ t.rows, ∃ job ∈ jobs, job.jobID = row.jobID ∧ job.jobType = row.jobType ∧
        job.celExpression = row.celExpression := by
  have hkeys : (jobs.map fun job => upsertedJob (t.find? job.jobID) job).map jobID =
      jobs.map jobID := by
    rw [map_map]
    exact map_congr_left fun job _ => upsertedJob_jobID _ _
  have hw : ((jobs.map fun job => upsertedJob (t.find? job.jobID) job).map
      jobID).Nodup := hkeys ▸ hnd
  constructor
  · intro h row hrow
    have hk : row.jobID ∈ jobs.map jobID := by
      by_contra hnew
      have hs := (mem_putAll hw).mpr (.inr ⟨hrow, hkeys ▸ hnew⟩)
      exact hnew (mem_map_of_mem ((h row).mp hs))
    obtain ⟨job, hj, hid⟩ := mem_map.mp hk
    -- the row that is written for the job is one of the jobs, so it is the job
    have hmem : upsertedJob (t.find? job.jobID) job ∈ jobs :=
      (h _).mp ((mem_putAll hw).mpr (.inl (mem_map_of_mem hj)))
    have hsa : upsertedJob (t.find? job.jobID) job = job :=
      inj_on_of_nodup_map hnd hmem hj (upsertedJob_jobID _ _)
    obtain ⟨ht, he⟩ := upsertedJob_eq_iff.mp hsa row (hid ▸ mem_rows_iff.mp hrow)
    exact ⟨job, hj, hid, ht.symm, he.symm⟩
  · intro h
    have hsa : (jobs.map fun job => upsertedJob (t.find? job.jobID) job) = jobs := by
      refine (map_congr_left fun job hj => ?_).trans (map_id jobs)
      refine upsertedJob_eq_iff.mpr fun row hf => ?_
      obtain ⟨job', hj', hid, ht, he⟩ := h row (mem_of_find? hf)
      have heq : job' = job := inj_on_of_nodup_map hnd hj' hj
        (hid.trans (key_of_find? hf))
      subst heq
      exact ⟨ht.symm, he.symm⟩
    rw [hsa]
    refine (rows_putAll_iff hnd).mpr fun row hrow => ?_
    obtain ⟨job, hj, hid, -⟩ := h row hrow
    exact hid ▸ mem_map_of_mem hj

theorem Replaced.jobRow {node : Node} (h : Replaced snap node)
    (hk : ∀ id job, node.fsm.jobs.get? id = some job → job.jobID = id) (id : String) :
    node.storage.jobs.find? id = node.fsm.jobs.get? id := by
  ext job
  rw [find?_eq_some_iff, h.jobRows, h.jobsCache]
  constructor
  · rintro ⟨⟨id', hmem⟩, rfl⟩
    rw [hk id' job ((h.jobsCache id' job).mpr hmem)]
    exact hmem
  · intro hmem
    exact ⟨⟨id, hmem⟩, hk id job ((h.jobsCache id job).mpr hmem)⟩

variable (ha : Consistent a) (hb : Consistent b) (hs : snap.Reordered (snapshot a.fsm))

include hs

theorem mem_decode :
    (∀ p, p ∈ snap.decode.catalog.rows ↔ p ∈ snap.catalog) ∧
      (∀ p, p ∈ snap.decode.jobs.rows ↔ p ∈ snap.jobs) ∧
      ∀ p, p ∈ snap.decode.config.rows ↔ p ∈ snap.config := by
  have hc : (snap.catalog.map Prod.fst).Nodup :=
    (hs.catalog.map Prod.fst).nodup_iff.mpr a.fsm.catalog.nodup
  have hj : (snap.jobs.map Prod.fst).Nodup :=
    (hs.jobs.map Prod.fst).nodup_iff.mpr (marshalJobs a.fsm.jobs).nodup
  have hco : (snap.config.map Prod.fst).Nodup :=
    (hs.config.map Prod.fst).nodup_iff.mpr a.fsm.config.nodup
  exact ⟨fun _ => mem_unmarshalMap hc, fun _ => mem_unmarshalMap hj, fun _ => mem_unmarshalMap hco⟩

theorem configRows_over_iff :
    (∀ key value, (snap.over b).storage.config.get? key = some value ↔ (key, value) ∈ snap.config) ↔
      ∀ p ∈ b.storage.config.rows, ∃ q ∈ a.fsm.config.rows, q.1 = p.1 := by
  have hd := decodedFrom_decode hs
  have hc : ∀ p, p ∈ snap.decode.config.rows ↔ p ∈ a.fsm.config.rows := by
    intro p
    rw [← get?_eq_some_iff, ← get?_eq_some_iff, hd.config]
  have hr := rows_putAll_iff (t := b.storage.config) snap.decode.config.nodup
  simp only [get?_eq_some_iff, ← (mem_decode hs).2.2]
  refine Iff.trans ?_ (hr.trans ?_)
  · exact ⟨fun h p => h p.1 p.2, fun h key value => h (key, value)⟩
  · simp [hc]

include ha

theorem catalogRows_over_iff :
    (∀ entry, entry ∈ (snap.over b).storage.catalog.rows ↔ ∃ key, (key, entry) ∈ snap.catalog) ↔
      ∀ row ∈ b.storage.catalog.rows, ∃ p ∈ a.fsm.catalog.rows, p.2.pair = row.pair := by
  have hd := decodedFrom_decode hs
  have hmem : ∀ entry, (∃ key, (key, entry) ∈ snap.catalog) ↔
      entry ∈ snap.decode.catalog.rows.map Prod.snd := by
    intro entry
    simp [← (mem_decode hs).1]
  have hc : ∀ p, p ∈ snap.decode.catalog.rows ↔ p ∈ a.fsm.catalog.rows := by
    intro p
    rw [← get?_eq_some_iff, ← get?_eq_some_iff, hd.catalog]
  simp only [hmem]
  refine (rows_putAll_iff (ha.pairs_nodup hd.catalog)).trans ?_
  simp [hc]

theorem jobRows_over_iff :
    (∀ job, job ∈ (snap.over b).storage.jobs.rows ↔ ∃ id, (id, job) ∈ snap.jobs) ↔
      ∀ row ∈ b.storage.jobs.rows, ∃ p ∈ a.fsm.jobs.rows,
        p.1 = row.jobID ∧ p.2.jobType = row.jobType ∧ p.2.celExpression = row.celExpression := by
  have hd := decodedFrom_decode hs
  have hmem : ∀ job, (∃ id, (id, job) ∈ snap.jobs) ↔ job ∈ snap.decode.jobs.rows.map Prod.snd := by
    intro job
    simp [← (mem_decode hs).2.1]
  have ho : (snap.over b).storage.jobs = b.storage.jobs.putAll
      ((snap.decode.jobs.rows.map Prod.snd).map fun job =>
        upsertedJob (b.storage.jobs.find? job.jobID) job) := by
    rw [map_map]
    rfl
  simp only [hmem, ho]
  refine (rows_upsert_iff (ha.jobIDs_nodup hd)).trans ?_
  refine forall_congr' fun row => imp_congr_right fun _ => ?_
  -- a decoded job is a cached one with its metadata as JSON has it
  have hc : ∀ job, job ∈ snap.decode.jobs.rows.map Prod.snd ↔
      ∃ p ∈ a.fsm.jobs.rows, marshalJob p.2 = job := by
    intro job
    simp only [mem_map, Prod.exists, ← get?_eq_some_iff, hd.jobs, Option.map_eq_some_iff]
    constructor
    · rintro ⟨id, job', ⟨old, hold, rfl⟩, rfl⟩
      exact ⟨id, old, hold, rfl⟩
    · rintro ⟨id, old, hold, rfl⟩
      exact ⟨id, marshalJob old, ⟨old, hold, rfl⟩, rfl⟩
  constructor
  · rintro ⟨job, hj, hid, ht, he⟩
    obtain ⟨p, hp, rfl⟩ := (hc job).mp hj
    have hk := ha.jobKey p.1 p.2 (get?_eq_some_iff.mpr hp)
    exact ⟨p, hp, hk.symm.trans hid, ht, he⟩
  · rintro ⟨p, hp, hid, ht, he⟩
    have hk := ha.jobKey p.1 p.2 (get?_eq_some_iff.mpr hp)
    exact ⟨marshalJob p.2, (hc _).mpr ⟨p, hp, rfl⟩, hk.trans hid, ht, he⟩

/-- The caches are always replaced; whether the rows are is decided by what was there. -/
theorem replaced_over_iff : Replaced snap (snap.over b) ↔
      (∀ row ∈ b.storage.catalog.rows, ∃ p ∈ a.fsm.catalog.rows, p.2.pair = row.pair) ∧
      (∀ row ∈ b.storage.jobs.rows, ∃ p ∈ a.fsm.jobs.rows,
        p.1 = row.jobID ∧ p.2.jobType = row.jobType ∧ p.2.celExpression = row.celExpression) ∧
      ∀ p ∈ b.storage.config.rows, ∃ q ∈ a.fsm.config.rows, q.1 = p.1 := by
  rw [← catalogRows_over_iff ha hs, ← jobRows_over_iff ha hs, ← configRows_over_iff hs]
  obtain ⟨hca, hjo, hcn⟩ := mem_decode hs
  constructor
  · intro h
    exact ⟨h.catalogRows, h.jobRows, h.configRows⟩
  · rintro ⟨hc, hj, hco⟩
    exact
      { catalogCache := fun key entry => get?_eq_some_iff.trans (hca (key, entry))
        jobsCache := fun id job => get?_eq_some_iff.trans (hjo (id, job))
        configCache := fun key value => get?_eq_some_iff.trans (hcn (key, value))
        catalogRows := hc
        jobRows := hj
        configRows := hco }

include hb

theorem consistent_of_replaced (h : Replaced snap (snap.over b)) : Consistent (snap.over b) := by
  have hd := decodedFrom_decode hs
  have hk : ∀ id job, (snap.over b).fsm.jobs.get? id = some job → job.jobID = id := by
    intro id job hg
    obtain ⟨old, hold, rfl⟩ := Option.map_eq_some_iff.mp ((hd.jobs id).symm.trans hg)
    exact ha.jobKey id old hold
  exact
    { catalogKey := fun key entry hg =>
        ha.catalogKey key entry ((hd.catalog key).symm.trans hg)
      catalogRow := fun key entry hg => mem_rows_iff.mp
        ((h.catalogRows entry).mpr ⟨key, (h.catalogCache key entry).mp hg⟩)
      jobKey := hk
      jobRow := fun id => by rw [h.jobRow hk id]
      configRow := fun key value hg => (h.configRows key value).mpr ((h.configCache key value).mp hg)
      unused := hb.unused }

/-- A node whose state was replaced is similar to the one that the snapshot was taken of exactly if
JSON keeps the jobs, the job rows are what is cached, and the same tokens are stored. -/
theorem similar_over_iff (h : Replaced snap (snap.over b)) : Similar a (snap.over b) ↔
      (∀ p ∈ a.fsm.jobs.rows, p.2.metadata = some (marshalRaw p.2.metadata)) ∧
      (∀ p ∈ a.fsm.jobs.rows, a.storage.jobs.find? p.1 = some p.2) ∧
      ∀ token, (a.storage.joinTokens.find? token).isSome =
        (b.storage.joinTokens.find? token).isSome := by
  have hd := decodedFrom_decode hs
  have ho := consistent_of_replaced ha hb hs h
  have hrow := h.jobRow ho.jobKey
  have hc : (∀ id, a.fsm.jobs.get? id = (snap.over b).fsm.jobs.get? id) ↔
      ∀ p ∈ a.fsm.jobs.rows, p.2.metadata = some (marshalRaw p.2.metadata) := by
    refine (jobsCache_eq_iff hd.jobs).trans ?_
    simp [get?_eq_some_iff]
  constructor
  · intro hsi
    refine ⟨hc.mp hsi.jobs, fun p hp => ?_, hsi.tokens⟩
    have hg := get?_eq_some_iff.mpr hp
    rw [hsi.jobRow p.1 p.2 hg, hrow, ← hsi.jobs, hg]
  · rintro ⟨hm, hj, ht⟩
    have hjo := hc.mpr hm
    exact
      { catalog := fun key => (hd.catalog key).symm
        jobs := hjo
        config := fun key => (hd.config key).symm
        catalogRow := fun key entry hg => by
          rw [ha.catalogRow key entry hg, ho.catalogRow key entry ((hd.catalog key).trans hg)]
        jobRow := fun id job hg => by
          rw [hj (id, job) (get?_eq_some_iff.mp hg), hrow, ← hjo, hg]
        configRow := fun key value hg => by
          rw [ha.configRow key value hg, ho.configRow key value ((hd.config key).trans hg)]
        tokens := ht }

end Replaced

/-- **Restoring replaces the state exactly if** everything in the tables before is overwritten, and
the node that the snapshot was taken of has the rows and the tokens that the restored one gets. -/
theorem restore_replaces_iff (commands commands' : List Command) :
    RestoreReplaces commands commands' ↔
      RestoreOk (replay commands .fresh) (replay commands' .fresh) := by
  have ha : Consistent (replay commands .fresh) := consistent_replay consistent_fresh commands
  have hb : Consistent (replay commands' .fresh) := consistent_replay consistent_fresh commands'
  have hone : ∀ snap : Snapshot, snap.Reordered (snapshot (replay commands .fresh).fsm) →
      ((∃ node, restore (fun _ => .ok) snap (replay commands' .fresh) = (.ok (), node) ∧
        Replaced snap node ∧ BehavesAs (replay commands .fresh) node) ↔
        RestoreOk (replay commands .fresh) (replay commands' .fresh)) := by
    intro snap hsn
    have hnd := ha.jobIDs_nodup (decodedFrom_decode hsn)
    constructor
    · rintro ⟨node, hre, hr, hbe⟩
      rw [restore_eq hnd] at hre
      cases hre
      obtain ⟨hc, hjo, hco⟩ := (replaced_over_iff ha hsn).mp hr
      have ho := consistent_of_replaced ha hb hsn hr
      obtain ⟨hm, hj, ht⟩ := (similar_over_iff ha hb hsn hr).mp ((behavesAs_iff ha ho).mp hbe)
      exact ⟨hc, hjo, hco, hm, hj, ht⟩
    · intro hok
      have hr := (replaced_over_iff ha hsn).mpr ⟨hok.catalog, hok.jobs, hok.config⟩
      have ho := consistent_of_replaced ha hb hsn hr
      have hs := (similar_over_iff ha hb hsn hr).mpr ⟨hok.metadata, hok.jobRows, hok.tokens⟩
      exact ⟨_, restore_eq hnd _, hr, (behavesAs_iff ha ho).mpr hs⟩
  constructor
  · intro h
    have hse : (snapshot (replay commands .fresh).fsm).Reordered
        (snapshot (replay commands .fresh).fsm) :=
      ⟨.refl _, .refl _, .refl _⟩
    exact (hone _ hse).mp (h _ hse)
  · intro hok snap hsn
    exact (hone snap hsn).mpr hok

/-- A row that is not in the snapshot stays, and a token that the snapshot does not carry is
accepted a second time. -/
theorem restore_keeps_row_and_forgets_token : ¬RestoreReplaces []
        [.catalogUpdate { topicID := "t", datasetID := "d", hash := "", size := 0, chunkCount := 0
                          ownerPeerID := "", updatedAt := 0 }] ∧
      ¬RestoreReplaces
        [.joinTokenCreate { clusterName := "c", leaderAddr := "a", token := "t", expiresAt := 1 }]
        [] := by
  constructor
  · intro h
    obtain ⟨node, hrt, hr, -⟩ := h (snapshot _) ⟨.refl _, .refl _, .refl _⟩
    cases hrt
    obtain ⟨key, hmem⟩ := (hr.catalogRows _).mp mem_cons_self
    cases hmem
  · intro h
    obtain ⟨node, hrt, -, hb⟩ := h (snapshot _) ⟨.refl _, .refl _, .refl _⟩
    cases hrt
    have hre := (hb [] (.joinTokenCreate
      { clusterName := "c", leaderAddr := "a", token := "t", expiresAt := 1 })).1
    exact absurd hre (by decide)

end Bib.Cluster
