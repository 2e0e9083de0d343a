import Bib.Cluster.Fsm
import Bib.Lib.Run

/-!
# Bib.Cluster.SnapshotReplay

**Snapshot against replay.** A node that replays a command list and a fresh node that restores the snapshot
taken after it should be in the same state. `SameState` compares everything `Apply` can write.

The caches and tables of a replayed node are tied together by `Consistent`, which every command preserves.
Restoring reproduces such a node exactly when it is `Transferable` (`sameState_iff`), and a command keeps it so
exactly when it meets `StepOk` (`transferable_step_iff`).
-/

namespace Bib.Cluster

open Bib.Lib Bib.Domain List KeyMap Table

open ReplicatedJob (jobID unassigned)

/-! ### The property -/

/-- Results of a query, up to the order of the rows. -/
def SameRows {α : Type} : Except StorageError (List α) → Except StorageError (List α) → Prop
  | .ok rows, .ok rows' => rows.Perm rows'
  | .error _, .error _ => True
  | _, _ => False

/-- The caches answer every lookup in the same way. -/
structure FSM.Same (a b : FSM) : Prop where
  catalog : ∀ key, a.catalog.get? key = b.catalog.get? key
  jobs : ∀ id, a.jobs.get? id = b.jobs.get? id
  config : ∀ key, a.config.get? key = b.config.get? key

/-- The two nodes agree on everything `Apply` can write, at wall-clock time `now`. -/
structure SameState (now : Time) (a b : Node) : Prop extends a.fsm.Same b.fsm where
  catalogRows : (getCatalogEntries a.storage).Perm (getCatalogEntries b.storage)
  jobRows : SameRows (getUnassignedJobs a.storage) (getUnassignedJobs b.storage)
  configRows : ∀ key, getConfig key a.storage = getConfig key b.storage
  joinTokens : ∀ token, Accepts now a.storage token ↔ Accepts now b.storage token

/-- Restoring the snapshot taken after `commands` succeeds, whatever order the maps are
iterated in, and gives the state that replaying them gives. -/
def SnapshotEqualsReplay (now : Time) (commands : List Command) : Prop :=
  ∀ snap : Snapshot, snap.Reordered (snapshot (replay commands .fresh).fsm) →
    ∃ node, restore (fun _ => .ok) snap .fresh = (.ok (), node) ∧
      SameState now (replay commands .fresh) node

/-! ### What every command preserves -/

/-- A job without the two columns an upsert leaves alone. -/
def ReplicatedJob.core (job : ReplicatedJob) : ReplicatedJob :=
  { job with jobType := "", celExpression := "" }

/-- How the caches and the tables of a replayed node are related. -/
structure Consistent (node : Node) : Prop where
  catalogKey : ∀ key entry, node.fsm.catalog.get? key = some entry → entry.cacheKey = key
  catalogRow : ∀ key entry, node.fsm.catalog.get? key = some entry →
    node.storage.catalog.find? entry.pair = some entry
  jobKey : ∀ id job, node.fsm.jobs.get? id = some job → job.jobID = id
  jobRow : ∀ id, (node.storage.jobs.find? id).map ReplicatedJob.core =
    (node.fsm.jobs.get? id).map ReplicatedJob.core
  configRow : ∀ key value, node.fsm.config.get? key = some value →
    node.storage.config.get? key = some value
  unused : ∀ token row, node.storage.joinTokens.find? token = some row → row.used = false

theorem consistent_fresh : Consistent Node.fresh := by
  constructor <;> intros <;> simp_all [Node.fresh, Storage.fresh]

theorem cacheKey_eq_of_pair_eq {e e' : ReplicatedCatalogEntry} (h : e.pair = e'.pair) : e.cacheKey = e'.cacheKey := by
  obtain ⟨htopic, hdataset⟩ := Prod.mk.inj h
  unfold ReplicatedCatalogEntry.cacheKey
  rw [htopic, hdataset]

variable {now : Time} {node : Node} {fsm : FSM} {snap : Snapshot} {token : JoinToken} {job : ReplicatedJob}
  {rows : List ReplicatedJob}

theorem Consistent.setJob (h : Consistent node) (job : ReplicatedJob) : Consistent (step node (.jobUpdate job)) := by
  refine { h with jobKey := fun id job' hg => ?_, jobRow := fun id => ?_ }
  · rcases get?_set_eq_some_iff.mp hg with ⟨hid, rfl⟩ | ⟨-, hold⟩
    · exact hid.symm
    · exact h.jobKey id job' hold
  · show ((node.storage.jobs.put _).find? id).map _ = ((node.fsm.jobs.set _ job).get? id).map _
    rw [get?_set, find?_put, upsertedJob_jobID]
    by_cases hid : id = job.jobID
    · rw [if_pos hid, if_pos hid]
      cases node.storage.jobs.find? job.jobID <;> rfl
    · rw [if_neg hid, if_neg hid]
      exact h.jobRow id

theorem step_jobAssign (h : Consistent node) {id : String} {job : ReplicatedJob}
    (hj : node.fsm.jobs.get? id = some job) (assignedNode : String) :
    step node (.jobAssign id assignedNode) =
      step node (.jobUpdate { job with assignedNode := assignedNode, status := "assigned" }) := by
  have hid := h.jobKey id job hj
  subst hid
  simp only [step, apply, applyJobAssign, hj]
  rfl

theorem step_jobAssign_of_none {id : String} (hj : node.fsm.jobs.get? id = none)
    (assignedNode : String) : step node (.jobAssign id assignedNode) = node := by
  simp only [step, apply, applyJobAssign, hj]

theorem step_joinTokenCreate_of_some {row : JoinTokenRow}
    (h : node.storage.joinTokens.find? token.token = some row) :
    step node (.joinTokenCreate token) = node := by
  simp only [step, apply, applyJoinTokenCreate, storeJoinToken, h, Node.commit]

theorem step_joinTokenCreate_of_none (h : node.storage.joinTokens.find? token.token = none) :
    step node (.joinTokenCreate token) = { node with
      storage := { node.storage with joinTokens := node.storage.joinTokens.put ⟨token, false⟩ } } := by
  simp only [step, apply, applyJoinTokenCreate, storeJoinToken, h, Node.commit, Io.run, id]

/-- Storing and caching a catalog entry: entries under other cache keys have other rows. -/
theorem Consistent.setCatalog (h : Consistent node) (entry : ReplicatedCatalogEntry) :
    Consistent (step node (.catalogUpdate entry)) := by
  refine { h with catalogKey := fun key e hg => ?_, catalogRow := fun key e hg => ?_ }
  · rcases get?_set_eq_some_iff.mp hg with ⟨hk, rfl⟩ | ⟨-, hold⟩
    · exact hk.symm
    · exact h.catalogKey key e hold
  · refine find?_put_eq_some_iff.mpr ?_
    rcases get?_set_eq_some_iff.mp hg with ⟨-, rfl⟩ | ⟨hk, hold⟩
    · exact .inl ⟨rfl, rfl⟩
    · refine .inr ⟨fun hp => hk ?_, h.catalogRow key e hold⟩
      exact (h.catalogKey key e hold).symm.trans (cacheKey_eq_of_pair_eq hp)

theorem Consistent.setConfig (h : Consistent node) (key : String) (value : Bytes) :
    Consistent (step node (.configSet key (some value))) := by
  refine { h with configRow := fun key' v hg => ?_ }
  refine get?_set_eq_some_iff.mpr ?_
  rcases get?_set_eq_some_iff.mp hg with hnew | ⟨hk, hold⟩
  · exact .inl hnew
  · exact .inr ⟨hk, h.configRow key' v hold⟩

theorem consistent_step (h : Consistent node) (command : Command) : Consistent (step node command) := by
  cases command with
  | catalogUpdate entry => exact h.setCatalog entry
  | catalogDelete topicID datasetID =>
    exact
      { h with
        catalogKey := fun key e hg => h.catalogKey key e (get?_delete_eq_some_iff.mp hg).2
        catalogRow := fun key e hg => h.catalogRow key e (get?_delete_eq_some_iff.mp hg).2 }
  | jobCreate job => exact h.setJob job
  | jobUpdate job => exact h.setJob job
  | jobAssign id assignedNode =>
    cases hj : node.fsm.jobs.get? id with
    | none =>
      rw [step_jobAssign_of_none hj]
      exact h
    | some job =>
      rw [step_jobAssign h hj]
      exact h.setJob _
  | configSet key value =>
    cases value with
    | none => exact h
    | some value => exact h.setConfig key value
  | configDelete key =>
    exact
      { h with
        configRow := fun key' v hg => h.configRow key' v (get?_delete_eq_some_iff.mp hg).2 }
  | joinTokenCreate token =>
    cases ht : node.storage.joinTokens.find? token.token with
    | some row =>
      rw [step_joinTokenCreate_of_some ht]
      exact h
    | none =>
      rw [step_joinTokenCreate_of_none ht]
      refine { h with unused := fun t row hrow => ?_ }
      rcases find?_put_eq_some_iff.mp hrow with ⟨-, rfl⟩ | ⟨-, hold⟩
      · rfl
      · exact h.unused t row hold
  | _ => exact h

theorem consistent_replay (h : Consistent node) (commands : List Command) : Consistent (replay commands node) := by
  exact Run.invariant Consistent (fun _ => True) (fun _ command _ h => consistent_step h command) h
    (fun _ _ => trivial)

/-- **Every log leaves caches and tables that belong together.** -/
theorem replayed_consistent (commands : List Command) : Consistent (replay commands .fresh) :=
  consistent_replay consistent_fresh commands

/-! ### The restored node -/

/-- The caches after `Restore` are those of the node that the snapshot was taken of, with their jobs as
JSON has them. -/
structure DecodedFrom (fsm : FSM) (decoded : FSM) : Prop where
  catalog : ∀ key, decoded.catalog.get? key = fsm.catalog.get? key
  jobs : ∀ id, decoded.jobs.get? id = (fsm.jobs.get? id).map marshalJob
  config : ∀ key, decoded.config.get? key = fsm.config.get? key

/-- A node that holds exactly what a snapshot of `fsm` contains. -/
structure RestoredFrom (fsm : FSM) (node : Node) : Prop extends DecodedFrom fsm node.fsm where
  catalogRow : ∀ entry, entry ∈ node.storage.catalog.rows ↔ ∃ key, fsm.catalog.get? key = some entry
  jobRow : ∀ id, node.storage.jobs.find? id = (fsm.jobs.get? id).map marshalJob
  configRow : ∀ key, node.storage.config.get? key = fsm.config.get? key
  joinTokens : ∀ token, node.storage.joinTokens.find? token = none

theorem storeAll_catalog (members : List (String × ReplicatedCatalogEntry)) (s : Storage) :
    storeAll (fun _ entry => storeCatalogEntry .ok entry) members s =
      (.ok (), { s with catalog := s.catalog.putAll (members.map Prod.snd) }) := by
  induction members generalizing s with
  | nil => rfl
  | cons p members ih => exact ih { s with catalog := s.catalog.put p.2 }

theorem storeAll_jobs (members : List (String × ReplicatedJob)) (s : Storage)
    (hnd : ((members.map Prod.snd).map jobID).Nodup) :
    storeAll (fun _ job => storeJob .ok job) members s = (.ok (), { s with
        jobs := s.jobs.putAll (members.map fun p => upsertedJob (s.jobs.find? p.2.jobID) p.2) }) := by
  induction members generalizing s with
  | nil => rfl
  | cons p members ih =>
    rw [map_cons, map_cons, nodup_cons] at hnd
    have ho : (members.map fun q =>
        upsertedJob ((s.jobs.put (upsertedJob (s.jobs.find? p.2.jobID) p.2)).find? q.2.jobID) q.2) =
        members.map fun q => upsertedJob (s.jobs.find? q.2.jobID) q.2 := by
      refine map_congr_left fun q hq => ?_
      have hne : q.2.jobID ≠ p.2.jobID := fun heq => hnd.1 (heq ▸ mem_map_of_mem (mem_map_of_mem hq))
      rw [find?_put, upsertedJob_jobID, if_neg hne]
    refine (ih { s with jobs := s.jobs.put (upsertedJob (s.jobs.find? p.2.jobID) p.2) } hnd.2).trans ?_
    rw [ho]
    rfl

theorem storeAll_config (members : List (String × Bytes)) (s : Storage) :
    storeAll (fun key value => storeConfig .ok key (some value)) members s =
      (.ok (), { s with config := s.config.putAll members }) := by
  induction members generalizing s with
  | nil => rfl
  | cons p members ih => exact ih { s with config := s.config.set p.1 p.2 }

/-- Decoding members with different keys gives the map that has exactly these members. -/
theorem mem_unmarshalMap {V : Type} {members : List (String × V)}
    (hnd : (members.map Prod.fst).Nodup) {p : String × V} :
    p ∈ (unmarshalMap members).rows ↔ p ∈ members :=
  mem_putAll_empty hnd

theorem get?_unmarshalMap {V : Type} {members : List (String × V)} {m : KeyMap String V}
    (hp : members.Perm m.rows) (key : String) : (unmarshalMap members).get? key = m.get? key := by
  have hnd : (members.map Prod.fst).Nodup := (hp.map Prod.fst).nodup_iff.mpr m.nodup
  ext value
  rw [get?_eq_some_iff, get?_eq_some_iff, mem_unmarshalMap hnd]
  exact hp.mem_iff

def marshalJobs (jobs : KeyMap String ReplicatedJob) : KeyMap String ReplicatedJob :=
  { rows := jobs.rows.map fun p => (p.1, marshalJob p.2)
    nodup := by
      rw [List.map_map]
      exact jobs.nodup }

/-- Cached entries have different primary keys, since these determine the cache key. -/
theorem Consistent.pairs_nodup (h : Consistent node)
    {entries : KeyMap String ReplicatedCatalogEntry}
    (he : ∀ key, entries.get? key = node.fsm.catalog.get? key) :
    ((entries.rows.map Prod.snd).map ReplicatedCatalogEntry.pair).Nodup := by
  rw [map_map]
  refine entries.rows_nodup.map_on fun p hp q hq heq => ?_
  have hk : ∀ r ∈ entries.rows, r.2.cacheKey = r.1 := fun r hr =>
    h.catalogKey r.1 r.2 ((he r.1).symm.trans (get?_eq_some_iff.mpr hr))
  refine eq_of_key_eq hp hq ?_
  rw [← hk p hp, ← hk q hq]
  exact cacheKey_eq_of_pair_eq heq

theorem Consistent.jobID_of_marshalled (h : Consistent node)
    {jobs : KeyMap String ReplicatedJob}
    (hjo : ∀ id, jobs.get? id = (node.fsm.jobs.get? id).map marshalJob) :
    ∀ p ∈ jobs.rows, p.2.jobID = p.1 := by
  intro p hp
  have hg := (hjo p.1).symm.trans (get?_eq_some_iff.mpr hp)
  obtain ⟨job, hj, hm⟩ := Option.map_eq_some_iff.mp hg
  rw [← hm]
  exact h.jobKey p.1 job hj

def Snapshot.decode (snap : Snapshot) : FSM :=
  { catalog := unmarshalMap snap.catalog
    jobs := unmarshalMap snap.jobs
    config := unmarshalMap snap.config }

theorem decodedFrom_decode (hs : snap.Reordered (snapshot fsm)) : DecodedFrom fsm snap.decode where
  catalog := get?_unmarshalMap hs.catalog
  jobs id := by
    rw [← get?_mapVals]
    exact get?_unmarshalMap (m := marshalJobs fsm.jobs) hs.jobs id
  config := get?_unmarshalMap hs.config

theorem Consistent.jobIDs_nodup (h : Consistent node) {decoded : FSM}
    (hd : DecodedFrom node.fsm decoded) :
    ((decoded.jobs.rows.map Prod.snd).map jobID).Nodup := by
  have hkeys : decoded.jobs.rows.map (jobID ∘ Prod.snd) =
      decoded.jobs.rows.map Prod.fst :=
    map_congr_left (h.jobID_of_marshalled hd.jobs)
  rw [map_map, hkeys]
  exact decoded.jobs.nodup

/-- The caches and the rows of a snapshot, written over a node. -/
def Snapshot.over (snap : Snapshot) (node : Node) : Node :=
  { fsm := snap.decode
    storage := { node.storage with
      catalog := node.storage.catalog.putAll (snap.decode.catalog.rows.map Prod.snd)
      jobs := node.storage.jobs.putAll (snap.decode.jobs.rows.map fun p =>
        upsertedJob (node.storage.jobs.find? p.2.jobID) p.2)
      config := node.storage.config.putAll snap.decode.config.rows } }

theorem restore_eq (hnd : ((snap.decode.jobs.rows.map Prod.snd).map jobID).Nodup) (node : Node) :
    restore (fun _ => .ok) snap node = (.ok (), snap.over node) := by
  have hj : (((unmarshalMap snap.jobs).rows.map Prod.snd).map jobID).Nodup := hnd
  unfold restore
  dsimp only
  rw [storeAll_catalog]
  dsimp only
  rw [storeAll_jobs _ _ hj]
  dsimp only
  rw [storeAll_config]
  rfl

/-- Restoring a snapshot of a consistent node into a fresh one succeeds. -/
theorem restore_fresh (h : Consistent node) {snap : Snapshot}
    (hs : snap.Reordered (snapshot node.fsm)) :
    ∃ node', restore (fun _ => .ok) snap .fresh = (.ok (), node') ∧ RestoredFrom node.fsm node' := by
  have hd := decodedFrom_decode hs
  have hpa := h.pairs_nodup hd.catalog
  have hids := h.jobID_of_marshalled hd.jobs
  have hj := h.jobIDs_nodup hd
  refine ⟨_, restore_eq hj .fresh, hd, ?_, ?_, ?_, fun _ => rfl⟩
  · intro entry
    change entry ∈ (Table.empty.putAll _).rows ↔ _
    rw [mem_putAll_empty hpa, mem_map]
    constructor
    · rintro ⟨p, hp, rfl⟩
      exact ⟨p.1, (hd.catalog p.1).symm.trans (get?_eq_some_iff.mpr hp)⟩
    · rintro ⟨key, hg⟩
      exact ⟨(key, entry), get?_eq_some_iff.mp ((hd.catalog key).trans hg), rfl⟩
  · intro id
    rw [← hd.jobs id]
    ext job
    change (Table.empty.putAll (snap.decode.jobs.rows.map Prod.snd)).find? id = some job ↔ _
    rw [find?_eq_some_iff, mem_putAll_empty hj, mem_map, get?_eq_some_iff]
    constructor
    · rintro ⟨⟨p, hp, rfl⟩, rfl⟩
      rw [hids p hp]
      exact hp
    · intro hmem
      exact ⟨⟨(id, job), hmem, rfl⟩, hids (id, job) hmem⟩
  · intro key
    rw [← hd.config key]
    exact get?_unmarshalMap (m := snap.decode.config) (.refl _) key

/-! ### Which nodes a snapshot reproduces -/

def CatalogCached (node : Node) : Prop :=
  ∀ pair entry, node.storage.catalog.find? pair = some entry →
    node.fsm.catalog.get? entry.cacheKey = some entry

/-- The snapshot of the node misses nothing. -/
structure Transferable (now : Time) (node : Node) : Prop where
  catalog : CatalogCached node
  /-- The metadata of every job is written to JSON as it is. -/
  metadata : ∀ id job, node.fsm.jobs.get? id = some job → job.metadata = some (marshalRaw job.metadata)
  /-- The row of a job that `GetUnassignedJobs` returns is the cached job. -/
  jobs : ∀ id job, node.fsm.jobs.get? id = some job → job.unassigned = true →
    node.storage.jobs.find? id = some job
  config : ∀ key value, node.storage.config.get? key = some value →
    value = [] ∨ node.fsm.config.get? key = some value
  joinTokens : ∀ token row, node.storage.joinTokens.find? token = some row →
    row.toJoinToken.expiresAt < now

theorem marshalJob_eq_iff : job = marshalJob job ↔ job.metadata = some (marshalRaw job.metadata) := by
  constructor
  · exact congrArg ReplicatedJob.metadata
  · intro h
    unfold marshalJob
    rw [← h]

theorem unassigned_of_core_eq {job' : ReplicatedJob} (h : job.core = job'.core) :
    job.unassigned = job'.unassigned := by
  have hs : job.core.status = job'.core.status := by rw [h]
  have ha : job.core.assignedNode = job'.core.assignedNode := by rw [h]
  unfold unassigned
  rw [show job.status = job'.status from hs, show job.assignedNode = job'.assignedNode from ha]

/-- A scan returns the rows, unless one has `NULL` metadata. -/
theorem mapM_scanJob (rows : List ReplicatedJob) : rows.mapM scanJob =
    if ∀ row ∈ rows, row.metadata ≠ none then .ok rows else .error (.scan "metadata") := by
  induction rows with
  | nil => rfl
  | cons row rows ih =>
    rw [mapM_cons, ih]
    cases hm : row.metadata with
    | none =>
      simp only [scanJob, hm, forall_mem_cons, ne_eq, not_true_eq_false, false_and, if_false]
      rfl
    | some raw =>
      simp only [scanJob, hm, forall_mem_cons, ne_eq, reduceCtorEq, not_false_eq_true, true_and]
      split <;> rfl

/-- Rows of the restored node are never `NULL` in `metadata`. -/
theorem RestoredFrom.getUnassignedJobs (h : RestoredFrom fsm node) :
    getUnassignedJobs node.storage = .ok (node.storage.jobs.rows.filter unassigned) := by
  refine (mapM_scanJob _).trans (if_pos fun row hrow => ?_)
  have hf := mem_rows_iff.mp (mem_filter.mp hrow).1
  rw [h.jobRow] at hf
  obtain ⟨job, -, rfl⟩ := Option.map_eq_some_iff.mp hf
  exact Option.some_ne_none _

/-! ### Cache by cache, table by table -/

section Compare

variable {node node' : Node} (h : Consistent node) (hr : RestoredFrom node.fsm node')

include h hr in
theorem catalogRows_perm_iff :
    (getCatalogEntries node.storage).Perm (getCatalogEntries node'.storage) ↔ CatalogCached node := by
  refine (perm_ext_iff_of_nodup node.storage.catalog.rows_nodup
    node'.storage.catalog.rows_nodup).trans ⟨fun hro pair entry hrow => ?_, fun hc entry => ?_⟩
  · obtain ⟨key, hg⟩ := (hr.catalogRow entry).mp ((hro entry).mp (mem_of_find? hrow))
    rw [h.catalogKey key entry hg]
    exact hg
  · rw [hr.catalogRow]
    refine ⟨fun hmem => ⟨_, hc _ entry (mem_rows_iff.mp hmem)⟩, fun hg => ?_⟩
    obtain ⟨key, hg⟩ := hg
    exact mem_of_find? (h.catalogRow key entry hg)

theorem jobsCache_eq_iff (hj : ∀ id, node'.fsm.jobs.get? id = (node.fsm.jobs.get? id).map marshalJob) :
    (∀ id, node.fsm.jobs.get? id = node'.fsm.jobs.get? id) ↔
      ∀ id job, node.fsm.jobs.get? id = some job → job.metadata = some (marshalRaw job.metadata) := by
  refine forall_congr' fun id => ?_
  rw [hj]
  cases node.fsm.jobs.get? id with
  | none => simp
  | some job => simp [marshalJob_eq_iff]

include hr in
theorem mem_restored_jobs (hc : ∀ id, node.fsm.jobs.get? id = node'.fsm.jobs.get? id) {job : ReplicatedJob} :
    job ∈ node'.storage.jobs.rows ↔ node.fsm.jobs.get? job.jobID = some job := by
  rw [mem_rows_iff, hr.jobRow, ← hr.jobs, ← hc]

include h in
/-- A row that the query selects is the cached job, if cached unassigned jobs have their row. -/
theorem Consistent.cached_of_row (hjb : ∀ id job, node.fsm.jobs.get? id = some job → job.unassigned = true →
      node.storage.jobs.find? id = some job) {row : ReplicatedJob}
    (hmem : row ∈ node.storage.jobs.rows) (hu : row.unassigned = true) :
    node.fsm.jobs.get? row.jobID = some row := by
  have hf := mem_rows_iff.mp hmem
  have hc := h.jobRow row.jobID
  rw [hf] at hc
  obtain ⟨job, hj, heq⟩ := Option.map_eq_some_iff.mp hc.symm
  have hjo := hjb row.jobID job hj ((unassigned_of_core_eq heq).trans hu)
  rw [hf] at hjo
  rw [hj, hjo]

include h hr

theorem jobRows_iff (hc : ∀ id, node.fsm.jobs.get? id = node'.fsm.jobs.get? id) :
    SameRows (getUnassignedJobs node.storage) (getUnassignedJobs node'.storage) ↔
      ∀ id job, node.fsm.jobs.get? id = some job → job.unassigned = true →
        node.storage.jobs.find? id = some job := by
  rw [hr.getUnassignedJobs]
  constructor
  · intro hro id job hj hu
    have hid := h.jobKey id job hj
    subst hid
    cases hg : getUnassignedJobs node.storage with
    | error e => rw [hg] at hro; exact hro.elim
    | ok rows =>
      rw [hg] at hro
      have hmem : job ∈ rows := (List.Perm.mem_iff hro).mpr
        (mem_filter.mpr ⟨(mem_restored_jobs hr hc).mpr hj, hu⟩)
      rw [getUnassignedJobs, mapM_scanJob] at hg
      split at hg <;> cases hg
      exact mem_rows_iff.mp (mem_filter.mp hmem).1
  · intro hjo
    have hs : getUnassignedJobs node.storage =
        .ok (node.storage.jobs.rows.filter unassigned) := by
      refine (mapM_scanJob _).trans (if_pos fun row hmem => ?_)
      obtain ⟨hmem, hu⟩ := mem_filter.mp hmem
      rw [(jobsCache_eq_iff hr.jobs).mp hc _ row (h.cached_of_row hjo hmem hu)]
      exact Option.some_ne_none _
    rw [hs]
    refine (perm_ext_iff_of_nodup (node.storage.jobs.rows_nodup.filter _)
      (node'.storage.jobs.rows_nodup.filter _)).mpr fun row => ?_
    rw [mem_filter, mem_filter]
    refine and_congr_left fun hu => ?_
    rw [mem_restored_jobs hr hc]
    exact ⟨fun hmem => h.cached_of_row hjo hmem hu, fun hj => mem_of_find? (hjo _ row hj hu)⟩

/-- `GetConfig` cannot tell an empty value from a missing one. -/
theorem configRows_iff : (∀ key, getConfig key node.storage = getConfig key node'.storage) ↔
      ∀ key value, node.storage.config.get? key = some value →
        value = [] ∨ node.fsm.config.get? key = some value := by
  refine forall_congr' fun key => ?_
  unfold getConfig
  rw [hr.configRow]
  cases hc : node.fsm.config.get? key with
  | some value => simp [h.configRow key value hc]
  | none => cases node.storage.config.get? key <;> simp

/-- The restored node accepts no join token. -/
theorem joinTokens_iff : (∀ token, Accepts now node.storage token ↔ Accepts now node'.storage token) ↔
      ∀ token row, node.storage.joinTokens.find? token = some row →
        row.toJoinToken.expiresAt < now := by
  refine forall_congr' fun token => ?_
  have hnone : ¬ Accepts now node'.storage token := by
    intro ha
    obtain ⟨row, hf, -⟩ := accepts_iff.mp ha
    rw [hr.joinTokens] at hf
    cases hf
  rw [iff_false_right hnone, accepts_iff]
  refine ⟨fun hno row hrow => ?_, fun he ha => ?_⟩
  · by_contra hvalid
    exact hno ⟨row, hrow, h.unused token row hrow, Int.not_lt.mp hvalid⟩
  · obtain ⟨row, hf, -, hvalid⟩ := ha
    exact absurd (he row hf) (Int.not_lt.mpr hvalid)

/-- A restored node equals a replayed one exactly when the latter is transferable. -/
theorem sameState_iff : SameState now node node' ↔ Transferable now node := by
  refine ⟨fun hs => ?_, fun ht => ?_⟩
  · exact
      { catalog := (catalogRows_perm_iff h hr).mp hs.catalogRows
        metadata := (jobsCache_eq_iff hr.jobs).mp hs.jobs
        jobs := (jobRows_iff h hr hs.jobs).mp hs.jobRows
        config := (configRows_iff h hr).mp hs.configRows
        joinTokens := (joinTokens_iff h hr).mp hs.joinTokens }
  · have hc := (jobsCache_eq_iff hr.jobs).mpr ht.metadata
    exact
      { catalog := fun key => (hr.catalog key).symm
        jobs := hc
        config := fun key => (hr.config key).symm
        catalogRows := (catalogRows_perm_iff h hr).mpr ht.catalog
        jobRows := (jobRows_iff h hr hc).mpr ht.jobs
        configRows := (configRows_iff h hr).mpr ht.config
        joinTokens := (joinTokens_iff h hr).mpr ht.joinTokens }

end Compare

/-- The two reconstruction paths agree exactly on transferable nodes. -/
theorem snapshotEqualsReplay_iff_transferable (now : Time) (commands : List Command) :
    SnapshotEqualsReplay now commands ↔ Transferable now (replay commands .fresh) := by
  have hc : Consistent (replay commands .fresh) := consistent_replay consistent_fresh commands
  constructor
  · intro hsa
    obtain ⟨node, hr, hs⟩ := hsa (snapshot _) ⟨.refl _, .refl _, .refl _⟩
    obtain ⟨node', hr', hre⟩ := restore_fresh hc (show (snapshot _).Reordered (snapshot _) from
        ⟨.refl _, .refl _, .refl _⟩)
    rw [hr] at hr'
    cases hr'
    exact (sameState_iff hc hre).mp hs
  · intro ht snap hsn
    obtain ⟨node, hr, hre⟩ := restore_fresh hc hsn
    exact ⟨node, hr, (sameState_iff hc hre).mpr ht⟩

/-! ### Which commands keep a node transferable -/

/-- What a command has to meet in the state it is applied to. -/
def StepOk (now : Time) (node : Node) : Command → Prop
  -- no other entry is cached under the same `topicID/datasetID` string
  | .catalogUpdate entry => ∀ old, node.fsm.catalog.get? entry.cacheKey = some old →
      old.pair = entry.pair
  -- deletes reach the cache only, so they must not find anything
  | .catalogDelete topicID datasetID => node.fsm.catalog.get? (catalogKey topicID datasetID) = none
  -- metadata is present, compact and escaped; an unassigned job keeps its type and expression
  | .jobCreate job | .jobUpdate job => job.metadata = some (marshalRaw job.metadata) ∧
      (job.unassigned = true → ∀ row, node.storage.jobs.find? job.jobID = some row →
        row.jobType = job.jobType ∧ row.celExpression = job.celExpression)
  | .configDelete key => ∀ value, node.fsm.config.get? key = some value → value = []
  -- snapshots carry no join tokens
  | .joinTokenCreate token => (node.storage.joinTokens.find? token.token).isSome = true ∨
      token.expiresAt < now
  | .jobAssign _ _ | .configSet _ _ | .unknown _ | .malformed _ => True

theorem transferable_fresh (now : Time) : Transferable now Node.fresh := by
  constructor <;> intros <;> simp_all [CatalogCached, Node.fresh, Storage.fresh]

theorem upsertedJob_eq_iff {existing : Option ReplicatedJob} : upsertedJob existing job = job ↔
      ∀ row, existing = some row → row.jobType = job.jobType ∧ row.celExpression = job.celExpression := by
  cases existing with
  | none => simp [upsertedJob]
  | some old =>
    constructor
    · intro heq row hrow
      cases hrow
      rw [← heq]
      exact ⟨rfl, rfl⟩
    · intro hc
      obtain ⟨ht, he⟩ := hc old rfl
      unfold upsertedJob
      dsimp only
      rw [ht, he]

theorem transferable_setJob_iff (h : Transferable now node) (job : ReplicatedJob) :
    Transferable now (step node (.jobUpdate job)) ↔ StepOk now node (.jobUpdate job) := by
  constructor
  · intro hnew
    have hg : (node.fsm.jobs.set job.jobID job).get? job.jobID = some job := by
      rw [get?_set, if_pos rfl]
    refine ⟨hnew.metadata _ job hg, fun hu => ?_⟩
    have hrow : (node.storage.jobs.put _).find? job.jobID = some job := hnew.jobs _ job hg hu
    rw [find?_put, upsertedJob_jobID, if_pos rfl] at hrow
    exact upsertedJob_eq_iff.mp (Option.some_inj.mp hrow)
  · rintro ⟨hm, hc⟩
    refine ⟨h.catalog, ?_, ?_, h.config, h.joinTokens⟩
    · intro id job' hg
      rcases get?_set_eq_some_iff.mp hg with ⟨-, rfl⟩ | ⟨-, hold⟩
      · exact hm
      · exact h.metadata id job' hold
    · intro id job' hg hu
      show (node.storage.jobs.put _).find? id = some job'
      rw [find?_put, upsertedJob_jobID]
      rcases get?_set_eq_some_iff.mp hg with ⟨hid, rfl⟩ | ⟨hid, hold⟩
      · rw [if_pos hid, upsertedJob_eq_iff.mpr (hc hu)]
      · rw [if_neg hid]
        exact h.jobs id job' hold hu

theorem catalogCached_update_iff (hco : Consistent node) (h : CatalogCached node)
    (entry : ReplicatedCatalogEntry) : CatalogCached (step node (.catalogUpdate entry)) ↔
      ∀ old, node.fsm.catalog.get? entry.cacheKey = some old → old.pair = entry.pair := by
  constructor
  · intro hnew old hold
    by_contra hp
    -- the row of the evicted entry survives
    have hrow : (node.storage.catalog.put entry).find? old.pair = some old := by
      rw [find?_put, if_neg hp]
      exact hco.catalogRow _ old hold
    have hc : (node.fsm.catalog.set entry.cacheKey entry).get? old.cacheKey = some old :=
      hnew old.pair old hrow
    rw [get?_set, if_pos (hco.catalogKey _ old hold)] at hc
    cases hc
    exact hp rfl
  · intro hok pair e hrow
    refine get?_set_eq_some_iff.mpr ?_
    rcases find?_put_eq_some_iff.mp hrow with ⟨-, rfl⟩ | ⟨hp, hold⟩
    · exact .inl ⟨rfl, rfl⟩
    · have hc := h pair e hold
      refine .inr ⟨fun hk => hp ?_, hc⟩
      rw [hk] at hc
      exact (key_of_find? hold).symm.trans (hok e hc)

theorem catalogCached_delete_iff (hco : Consistent node) (h : CatalogCached node)
    (topicID datasetID : String) : CatalogCached (step node (.catalogDelete topicID datasetID)) ↔
      node.fsm.catalog.get? (catalogKey topicID datasetID) = none := by
  constructor
  · intro hnew
    cases hc : node.fsm.catalog.get? (catalogKey topicID datasetID) with
    | none => rfl
    | some entry =>
      -- the row of the deleted entry survives
      have ha := hnew entry.pair entry (hco.catalogRow _ entry hc)
      exact absurd (hco.catalogKey _ entry hc) (get?_delete_eq_some_iff.mp ha).1
  · intro hok pair entry hrow
    have hc := h pair entry hrow
    refine get?_delete_eq_some_iff.mpr ⟨fun hk => ?_, hc⟩
    rw [hk, hok] at hc
    cases hc

theorem transferable_configSet (h : Transferable now node) (key : String) (value : Option Bytes) :
    Transferable now (step node (.configSet key value)) := by
  cases value with
  | none => exact h
  | some value =>
    refine { h with config := ?_ }
    intro key' v hrow
    rcases get?_set_eq_some_iff.mp hrow with hnew | ⟨hk, hold⟩
    · exact .inr (get?_set_eq_some_iff.mpr (.inl hnew))
    · rcases h.config key' v hold with hn | hc
      · exact .inl hn
      · exact .inr (get?_set_eq_some_iff.mpr (.inr ⟨hk, hc⟩))

theorem transferable_configDelete_iff (hco : Consistent node) (h : Transferable now node) (key : String) :
    Transferable now (step node (.configDelete key)) ↔ StepOk now node (.configDelete key) := by
  constructor
  · intro hnew value hc
    rcases hnew.config key value (hco.configRow key value hc) with hn | ha
    · exact hn
    · exact absurd rfl (get?_delete_eq_some_iff.mp ha).1
  · intro hok
    refine { h with config := ?_ }
    intro key' value hrow
    rcases h.config key' value hrow with hn | hc
    · exact .inl hn
    · by_cases hk : key' = key
      · subst hk
        exact .inl (hok value hc)
      · exact .inr (get?_delete_eq_some_iff.mpr ⟨hk, hc⟩)

theorem transferable_joinTokenCreate_iff (h : Transferable now node) (token : JoinToken) :
    Transferable now (step node (.joinTokenCreate token)) ↔
      StepOk now node (.joinTokenCreate token) := by
  cases ht : node.storage.joinTokens.find? token.token with
  | some row =>
    rw [step_joinTokenCreate_of_some ht]
    exact ⟨fun _ => .inl (by rw [ht]; rfl), fun _ => h⟩
  | none =>
    rw [step_joinTokenCreate_of_none ht]
    constructor
    · intro hnew
      refine .inr (hnew.joinTokens token.token ⟨token, false⟩ ?_)
      exact (find?_put _ _ _).trans (if_pos rfl)
    · rintro (hsome | he)
      · rw [ht] at hsome
        cases hsome
      · refine { h with joinTokens := ?_ }
        intro t row hrow
        rcases find?_put_eq_some_iff.mp hrow with ⟨-, rfl⟩ | ⟨-, hold⟩
        · exact he
        · exact h.joinTokens t row hold

theorem transferable_step_iff (hc : Consistent node) (h : Transferable now node)
    (command : Command) : Transferable now (step node command) ↔ StepOk now node command := by
  cases command with
  | catalogUpdate entry =>
    have hi := catalogCached_update_iff hc h.catalog entry
    exact ⟨fun hnew => hi.mp hnew.catalog, fun hok => { h with catalog := hi.mpr hok }⟩
  | catalogDelete topicID datasetID =>
    have hi := catalogCached_delete_iff hc h.catalog topicID datasetID
    exact ⟨fun hnew => hi.mp hnew.catalog, fun hok => { h with catalog := hi.mpr hok }⟩
  | jobCreate job => exact transferable_setJob_iff h job
  | jobUpdate job => exact transferable_setJob_iff h job
  | jobAssign id assignedNode =>
    refine ⟨fun _ => trivial, fun _ => ?_⟩
    cases hj : node.fsm.jobs.get? id with
    | none =>
      rw [step_jobAssign_of_none hj]
      exact h
    | some job =>
      rw [step_jobAssign hc hj]
      -- an assigned job is not returned by `GetUnassignedJobs`
      refine (transferable_setJob_iff h _).mpr ⟨h.metadata id job hj, fun hu => ?_⟩
      simp [unassigned] at hu
  | configSet key value => exact ⟨fun _ => trivial, fun _ => transferable_configSet h key value⟩
  | configDelete key => exact transferable_configDelete_iff hc h key
  | joinTokenCreate token => exact transferable_joinTokenCreate_iff h token
  | _ => exact ⟨fun _ => trivial, fun _ => h⟩

def StepsOk (now : Time) (node : Node) (commands : List Command) : Prop :=
  Run.AllSteps step (StepOk now) node commands

/-! ### Snapshot against replay, run by run -/

/-- **Snapshot equals replay after every prefix of a command list exactly when each
command meets `StepOk` in the state it is applied to.** -/
theorem snapshot_equals_replay_iff (now : Time) (commands : List Command) :
    (∀ done, done <+: commands → SnapshotEqualsReplay now done) ↔ StepsOk now .fresh commands := by
  simp only [snapshotEqualsReplay_iff_transferable]
  exact Run.forall_prefix_iff_allSteps Consistent (Transferable now)
    (fun _ command hc => consistent_step hc command)
    (fun _ command hc h => transferable_step_iff hc h command) consistent_fresh
    (transferable_fresh now)

/-- A join token that was just created is lost, and a deleted configuration value comes
back: its row is still there on the node that replayed the delete. -/
theorem snapshot_loses_token_and_keeps_deleted_config : ¬ SnapshotEqualsReplay 0
        [.joinTokenCreate { clusterName := "c", leaderAddr := "a", token := "t", expiresAt := 1 }] ∧
      ¬ SnapshotEqualsReplay 0 [.configSet "k" (some [1]), .configDelete "k"] := by
  constructor
  · rw [snapshotEqualsReplay_iff_transferable]
    intro ht
    have he := ht.joinTokens "t" _ rfl
    exact absurd he (by decide)
  · rw [snapshotEqualsReplay_iff_transferable]
    intro ht
    rcases ht.config "k" [1] rfl with hn | hc
    · cases hn
    · exact absurd hc (by decide)

end Bib.Cluster
