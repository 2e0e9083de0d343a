import Bib.Cluster.Storage
import Bib.Lib.Calls
import Bib.Lib.Run
import Mathlib.Data.Finset.Max

/-!
# Bib.Cluster.Compaction

**Snapshots and the compaction of the log** (`TakeSnapshot` in `internal/cluster/raft.go`; `CreateSnapshot`,
`DeleteRange` and `cleanupSnapshots` in `storage.go`). The calls of `Storage` hold its mutex, so each is one
step; a `TakeSnapshot` is cut between them. Every step on a file or on the database may fail without effect.

What carries over is that the newest snapshots have their files, and reach every entry that has been deleted
(`Kept`). An `INSERT` that fails breaks it, as its error is lost (`compacted_without_snapshot`).
-/

namespace Bib.Cluster.Compaction

open Bib.Lib Bib.Domain List KeyMap Table
open UInt64 (le_refl le_trans)

/-- `LogEntry`; also a row of `raft_log`. -/
structure LogEntry where
  (index term : UInt64)
  entryType : Int
  data : Bytes
  deriving DecidableEq

structure SnapshotRow where
  id : String
  (logIndex term : UInt64)
  configuration : Bytes
  size : Nat
  deriving DecidableEq

structure Config where
  trailingLogs : UInt64
  retainCount : Int

/-- A node: the tables, the files of the snapshots and the indices in memory; `deleted` and `given` are
recorded only. -/
structure Node where
  log : Table LogEntry.index
  snapshots : Table SnapshotRow.id
  files : KeyMap String Bytes
  (appliedIndex term : UInt64)
  deleted : List LogEntry
  given : KeyMap String Bytes

/-- What the steps of a call meet outside of the node: whether the statement and the file operations go
through, the clock, the result of `fsm.Snapshot` with the configuration, and the order in which the
database returns rows. -/
structure Outcome where
  snapshot : Option (Bytes × Bytes)
  nanos : Int
  (statement write : Bool)
  (remove erase : String → Bool)
  order : List SnapshotRow
  scanned : String → Bool

/-- Integers that `database/sql` accepts; it refuses those with the highest bit. -/
def storable (n : UInt64) : Bool := n < 9223372036854775808

inductive SnapshotError
  /-- `failed to get FSM snapshot`, or `failed to marshal configuration`. -/
  | snapshot
  | write
  | remove

/-! ### The storage -/

/-- `StoreLogs`: all rows in one transaction. -/
def storeLogs (o : Outcome) (entries : List LogEntry) (n : Node) : Node :=
  if o.statement ∧ ∀ e ∈ entries, storable e.index ∧ storable e.term then
    { n with log := n.log.putAll entries }
  else n

def inRange (min max : UInt64) (e : LogEntry) : Bool := min ≤ e.index && e.index ≤ max

def deleteRange (o : Outcome) (min max : UInt64) (n : Node) : Node :=
  if o.statement ∧ storable min ∧ storable max then
    { n with
      log := n.log.filter fun e => !inRange min max e
      deleted := n.deleted ++ n.log.rows.filter (inRange min max) }
  else n

def snapshotID (term index : UInt64) (nanos : Int) : String := s!"{term}-{index}-{nanos}"

/-- The `INSERT` into `snapshots` goes through. -/
def insertable (o : Outcome) (index term : UInt64) (n : Node) : Bool :=
  o.statement && storable index && storable term &&
    (n.snapshots.find? (snapshotID term index o.nanos)).isNone

/-- `CreateSnapshot`, without the cleanup that it starts. The error of `INSERT` is shadowed by the one of
`os.Remove`. -/
def createSnapshot (o : Outcome) (index term : UInt64) (configuration data : Bytes) (n : Node) :
    Except SnapshotError (Option SnapshotRow) × Node :=
  let id := snapshotID term index o.nanos
  if !o.write then (.error .write, n)
  else
    let written := { n with files := n.files.set id data }
    let row : SnapshotRow := { id, logIndex := index, term, configuration, size := data.length }
    if insertable o index term n then
      (.ok (some row), { written with snapshots := n.snapshots.put row, given := n.given.set id data })
    else if o.remove id then (.ok none, { written with files := written.files.delete id })
    else (.error .remove, written)

/-- The loop of `cleanupSnapshots`; the error of `DELETE` is ignored. -/
def removeAll (o : Outcome) : List String → Node → Node
  | [], n => n
  | id :: ids, n =>
    if o.remove id ∧ (n.files.get? id).isSome then
      removeAll o ids
        { n with
          files := n.files.delete id
          snapshots := if o.erase id then n.snapshots.erase id else n.snapshots }
    else n

/-- The rows in an order that `ORDER BY log_index DESC` allows. -/
def IsOrder (order rows : List SnapshotRow) : Prop :=
  order.Perm rows ∧ order.Pairwise fun a b => b.logIndex ≤ a.logIndex

instance (order rows : List SnapshotRow) : Decidable (IsOrder order rows) :=
  inferInstanceAs (Decidable (_ ∧ _))

def Config.retained (cfg : Config) : Nat := if cfg.retainCount ≤ 0 then 3 else cfg.retainCount.toNat

def cleanupSnapshots (cfg : Config) (o : Outcome) (n : Node) : Node :=
  if o.statement ∧ IsOrder o.order n.snapshots.rows then
    removeAll o (((o.order.drop cfg.retained).map SnapshotRow.id).filter o.scanned) n
  else n

/-! ### Calls -/

inductive Request
  | storeLogs (entries : List LogEntry)
  | applied (index : UInt64)
  | newTerm (term : UInt64)
  | cleanup
  | takeSnapshot

inductive Call
  | storeLogs (entries : List LogEntry)
  | applied (index : UInt64)
  | newTerm (term : UInt64)
  | cleanup
  | takeSnapshot
  | snapshot (index term : UInt64)
  | create (index term : UInt64) (configuration data : Bytes)
  | compact (index : UInt64)
  | returned (result : Except SnapshotError Unit)

def Request.call : Request → Call
  | .storeLogs entries => .storeLogs entries
  | .applied index => .applied index
  | .newTerm term => .newTerm term
  | .cleanup => .cleanup
  | .takeSnapshot => .takeSnapshot

/-- One step of a call. The last four before the return are those of `TakeSnapshot`, and `applied` is what
`applyLoop` does for an entry that the state machine has taken. -/
def callStep (cfg : Config) (o : Outcome) (call : Call) (n : Node) : Call × Node :=
  match call with
  | .storeLogs entries => (.returned (.ok ()), storeLogs o entries n)
  | .applied index =>
    (.returned (.ok ()), if index > n.appliedIndex then { n with appliedIndex := index } else n)
  | .newTerm term => (.returned (.ok ()), { n with term })
  | .cleanup => (.returned (.ok ()), cleanupSnapshots cfg o n)
  | .takeSnapshot => (.snapshot n.appliedIndex n.term, n)
  | .snapshot index term =>
    match o.snapshot with
    | none => (.returned (.error .snapshot), n)
    | some (configuration, data) => (.create index term configuration data, n)
  | .create index term configuration data =>
    match createSnapshot o index term configuration data n with
    | (.error e, n') => (.returned (.error e), n')
    | (.ok _, n') => (.compact index, n')
  | .compact index => (.returned (.ok ()), deleteRange o 0 (index - cfg.trailingLogs) n)
  | .returned result => (.returned result, n)

def machine (cfg : Config) : Calls.Machine Node Request Call Outcome where
  init := Request.call
  step := callStep cfg

abbrev World := Calls.World Node Call
abbrev Event := Calls.Event Request Outcome

/-! ### What is meant -/

variable {cfg : Config} {o : Outcome} {n : Node} {call : Call} {row : SnapshotRow} {i : UInt64}

/-- The file of the snapshot holds the data that it was created from. -/
def Holds (n : Node) (row : SnapshotRow) : Prop :=
  ∃ data, n.files.get? row.id = some data ∧ n.given.get? row.id = some data

def Covered (n : Node) : Prop :=
  ∀ e ∈ n.deleted, ∃ row ∈ n.snapshots.rows, e.index ≤ row.logIndex ∧ Holds n row

def Newest (n : Node) (row : SnapshotRow) : Prop := ∀ other ∈ n.snapshots.rows, other.logIndex ≤ row.logIndex

/-- Some snapshot, good or not, reaches the index. -/
def Reaches (n : Node) (i : UInt64) : Prop := ∃ row ∈ n.snapshots.rows, i ≤ row.logIndex

/-- A step of a call that compaction survives: a snapshot whose file is written gets its row, or its file
cannot be removed and belongs to no other row; the trailing logs do not wrap around to an index that
the database takes; and the cleanup does not leave the row of a newest snapshot behind. -/
def StepOk (cfg : Config) (o : Outcome) (call : Call) (n : Node) : Prop :=
  match call with
  | .create index term _ _ =>
    o.write = true → insertable o index term n = true ∨
      (o.remove (snapshotID term index o.nanos) = false ∧
        n.snapshots.find? (snapshotID term index o.nanos) = none)
  | .compact index => cfg.trailingLogs ≤ index ∨ storable (index - cfg.trailingLogs) = false
  | .cleanup => ∀ row ∈ n.snapshots.rows, Newest n row → o.erase row.id = true
  | _ => True

instance (n : Node) (row : SnapshotRow) : Decidable (Newest n row) :=
  inferInstanceAs (Decidable (∀ other ∈ n.snapshots.rows, other.logIndex ≤ row.logIndex))

instance (cfg : Config) (o : Outcome) (call : Call) (n : Node) : Decidable (StepOk cfg o call n) :=
  match call with
  | .create .. => inferInstanceAs (Decidable (_ → _ ∨ _))
  | .compact _ => inferInstanceAs (Decidable (_ ∨ _))
  | .cleanup =>
    inferInstanceAs (Decidable (∀ row ∈ n.snapshots.rows, Newest n row → o.erase row.id = true))
  | .storeLogs _ | .applied _ | .newTerm _ | .takeSnapshot | .snapshot .. | .returned _ => isTrue trivial

def EventOk (cfg : Config) (w : World) : Event → Prop
  | .start _ => True
  | .run i o => ∀ call ∈ w.calls[i]?, StepOk cfg o call w.shared

instance (cfg : Config) (w : World) : (event : Event) → Decidable (EventOk cfg w event)
  | .start _ => isTrue trivial
  | .run i o => inferInstanceAs (Decidable (∀ call ∈ w.calls[i]?, StepOk cfg o call w.shared))

/-- The newest snapshots have their files, and reach what has been deleted. -/
structure Kept (n : Node) : Prop where
  newest : ∀ row ∈ n.snapshots.rows, Newest n row → Holds n row
  deleted : ∀ e ∈ n.deleted, Reaches n e.index

/-- A `TakeSnapshot` that is about to compact has a snapshot that reaches its index. -/
def CallKept (n : Node) : Call → Prop
  | .compact index => Reaches n index
  | _ => True

/-! ### The newest snapshots -/

theorem exists_newest (h : Reaches n i) : ∃ row ∈ n.snapshots.rows, i ≤ row.logIndex ∧ Newest n row := by
  obtain ⟨row, hrow, hi⟩ := h
  obtain ⟨top, ht, hm⟩ := n.snapshots.rows.toFinset.exists_max_image (fun r => r.logIndex.toNat)
    ⟨row, mem_toFinset.mpr hrow⟩
  have hn : Newest n top := by
    intro other hother
    exact UInt64.le_iff_toNat_le.mpr (hm other (mem_toFinset.mpr hother))
  exact ⟨top, mem_toFinset.mp ht, le_trans hi (hn row hrow), hn⟩

theorem Kept.covered (h : Kept n) : Covered n := by
  intro e he
  obtain ⟨row, hrow, hi, hn⟩ := exists_newest (h.deleted e he)
  exact ⟨row, hrow, hi, h.newest row hrow hn⟩

/-- What a step keeps: the invariant, and the indices that are reached. -/
structure Keeps (n n' : Node) : Prop where
  kept : Kept n'
  reaches : ∀ i, Reaches n i → Reaches n' i

theorem Kept.keeps (h : Kept n) : Keeps n n := ⟨h, fun _ hi => hi⟩

/-! ### One step -/

variable {n' : Node} {data : Bytes} {index : UInt64}

/-- A step that leaves the snapshots and their files alone, and deletes nothing. -/
theorem keeps_of_same (h : Kept n) (hs : n'.snapshots = n.snapshots)
    (hf : n'.files = n.files) (hg : n'.given = n.given) (hd : n'.deleted = n.deleted) :
    Keeps n n' := by
  have hr : ∀ i, Reaches n i → Reaches n' i := by
    intro i hi
    unfold Reaches at hi ⊢
    rwa [hs]
  refine ⟨⟨?_, ?_⟩, hr⟩
  · unfold Newest Holds
    rw [hs, hf, hg]
    exact h.newest
  · rw [hd]
    exact fun e he => hr e.index (h.deleted e he)

theorem keeps_storeLogs (h : Kept n) (entries : List LogEntry) : Keeps n (storeLogs o entries n) := by
  unfold storeLogs
  split
  · exact keeps_of_same h rfl rfl rfl rfl
  · exact h.keeps

theorem keeps_set_file {id : String} (h : Kept n) (hid : n.snapshots.find? id = none) :
    Keeps n { n with files := n.files.set id data } := by
  refine ⟨⟨?_, h.deleted⟩, fun _ hi => hi⟩
  intro row hrow hn
  obtain ⟨data', hf, hg⟩ := h.newest row hrow hn
  have hne : row.id ≠ id := by
    intro heq
    rw [← heq, mem_rows_iff.mp hrow] at hid
    cases hid
  refine ⟨data', ?_, hg⟩
  rw [get?_set, if_neg hne, hf]

theorem keeps_insert (h : Kept n) (hid : n.snapshots.find? row.id = none) : Keeps n { n with
      files := n.files.set row.id data
      snapshots := n.snapshots.put row
      given := n.given.set row.id data } := by
  set n' : Node := { n with
    files := n.files.set row.id data
    snapshots := n.snapshots.put row
    given := n.given.set row.id data }
  have hmem : ∀ r, r ∈ n'.snapshots.rows ↔ r = row ∨ r ∈ n.snapshots.rows := by
    intro r
    rw [mem_put]
    refine or_congr_right ⟨And.left, fun hr => ⟨hr, ?_⟩⟩
    intro heq
    rw [← heq, mem_rows_iff.mp hr] at hid
    cases hid
  have hre : ∀ i, Reaches n i → Reaches n' i := by
    intro i hi
    obtain ⟨r, hr, hle⟩ := hi
    exact ⟨r, (hmem r).mpr (.inr hr), hle⟩
  refine ⟨⟨?_, fun e he => hre e.index (h.deleted e he)⟩, hre⟩
  intro r hr hn
  by_cases heq : r.id = row.id
  · refine ⟨data, ?_, ?_⟩
    · show (n.files.set row.id data).get? r.id = _
      rw [get?_set, if_pos heq]
    · show (n.given.set row.id data).get? r.id = _
      rw [get?_set, if_pos heq]
  · have hr' : r ∈ n.snapshots.rows := ((hmem r).mp hr).resolve_left fun hrow => heq (by rw [hrow])
    obtain ⟨data', hf, hg⟩ :=
      h.newest r hr' fun other hother => hn other ((hmem other).mpr (.inr hother))
    refine ⟨data', ?_, ?_⟩
    · show (n.files.set row.id data).get? r.id = _
      rw [get?_set, if_neg heq, hf]
    · show (n.given.set row.id data).get? r.id = _
      rw [get?_set, if_neg heq, hg]

/-- `CreateSnapshot` under the condition: an error, or a row that reaches the index. -/
theorem keeps_createSnapshot {term : UInt64} {configuration : Bytes} (h : Kept n)
    (hok : StepOk cfg o (.create index term configuration data) n) :
    Keeps n (createSnapshot o index term configuration data n).2 ∧
      ∀ row, (createSnapshot o index term configuration data n).1 = .ok row →
        Reaches (createSnapshot o index term configuration data n).2 index := by
  unfold createSnapshot
  cases hwrite : o.write with
  | false =>
    refine ⟨h.keeps, ?_⟩
    intro row hrow
    cases hrow
  | true =>
    rw [Bool.not_true, if_neg Bool.false_ne_true]
    rcases hok hwrite with hi | ⟨hr, hid⟩
    · rw [if_pos hi]
      have hid : n.snapshots.find? (snapshotID term index o.nanos) = none := by
        simpa using (Bool.and_eq_true_iff.mp hi).2
      refine ⟨keeps_insert h hid, fun _ _ => ?_⟩
      exact ⟨_, mem_put.mpr (.inl rfl), le_refl index⟩
    · split
      · refine ⟨keeps_insert h hid, fun _ _ => ?_⟩
        exact ⟨_, mem_put.mpr (.inl rfl), le_refl index⟩
      · rw [if_neg (by simp [hr])]
        refine ⟨keeps_set_file h hid, ?_⟩
        intro row hrow
        cases hrow

theorem keeps_deleteRange {max : UInt64} (h : Kept n) (hm : storable max = true → Reaches n max) :
    Keeps n (deleteRange o 0 max n) := by
  unfold deleteRange
  split
  next hru =>
    obtain ⟨row, hrow, hle⟩ := hm hru.2.2
    refine ⟨⟨h.newest, ?_⟩, fun _ hi => hi⟩
    intro e he
    rcases mem_append.mp he with hold | hnew
    · exact h.deleted e hold
    · have hr := (mem_filter.mp hnew).2
      simp only [inRange, Bool.and_eq_true, decide_eq_true_eq] at hr
      exact ⟨row, hrow, le_trans hr.2 hle⟩
  · exact h.keeps

/-! ### The cleanup -/

section Cleanup

variable {ids : List String} {id : String}

/-- What the loop changes: files and rows with the given names, and of a name whose `DELETE` goes through
either both or nothing. -/
structure Removed (o : Outcome) (ids : List String) (n n' : Node) : Prop where
  deleted : n'.deleted = n.deleted
  given : n'.given = n.given
  rows : ∀ row ∈ n'.snapshots.rows, row ∈ n.snapshots.rows
  others : ∀ row ∈ n.snapshots.rows, row.id ∉ ids → row ∈ n'.snapshots.rows
  files : ∀ row ∈ n'.snapshots.rows, o.erase row.id = true → n'.files.get? row.id = n.files.get? row.id

theorem removed_removeAll (o : Outcome) (ids : List String) (n : Node) : Removed o ids n (removeAll o ids n) := by
  induction ids generalizing n with
  | nil => exact ⟨rfl, rfl, fun _ h => h, fun _ h _ => h, fun _ _ _ => rfl⟩
  | cons id ids ih =>
    rw [removeAll]
    split
    · have hrest := ih { n with
        files := n.files.delete id
        snapshots := if o.erase id then n.snapshots.erase id else n.snapshots }
      have hs : ∀ row ∈ (if o.erase id then n.snapshots.erase id else n.snapshots).rows,
          row ∈ n.snapshots.rows ∧ (o.erase id = true → row.id ≠ id) := by
        intro row hrow
        split at hrow
        · have hf := mem_filter.mp hrow
          exact ⟨hf.1, fun _ => by simpa using hf.2⟩
        next he => exact ⟨hrow, fun h => absurd h he⟩
      refine ⟨hrest.deleted, hrest.given, fun row hrow => (hs row (hrest.rows row hrow)).1, ?_, ?_⟩
      · intro row hrow hid
        rw [mem_cons, not_or] at hid
        refine hrest.others row ?_ hid.2
        split
        · exact mem_filter.mpr ⟨hrow, by simpa using hid.1⟩
        · exact hrow
      · intro row hrow he
        rw [hrest.files row hrow he]
        rw [get?_delete, if_neg]
        intro heq
        exact (hs row (hrest.rows row hrow)).2 (heq ▸ he) heq
    · exact ⟨rfl, rfl, fun _ h => h, fun _ h _ => h, fun _ _ _ => rfl⟩

theorem one_le_retained (cfg : Config) : 1 ≤ cfg.retained := by
  unfold Config.retained
  split <;> omega

theorem keeps_cleanupSnapshots (h : Kept n) (hok : StepOk cfg o .cleanup n) : Keeps n (cleanupSnapshots cfg o n) := by
  unfold cleanupSnapshots
  split
  next hs =>
    obtain ⟨-, hp, hso⟩ := hs
    set ids := ((o.order.drop cfg.retained).map SnapshotRow.id).filter o.scanned with hids
    have hrm := removed_removeAll o ids n
    set n' := removeAll o ids n
    -- of the rows that there were, the newest one is still there
    have hre : ∀ i, Reaches n i → Reaches n' i := by
      intro i hi
      obtain ⟨row, hrow, hle⟩ := hi
      cases horder : o.order with
      | nil =>
        rw [horder, nil_perm] at hp
        rw [hp] at hrow
        cases hrow
      | cons top rest =>
        rw [horder] at hp hso
        have ht : top ∈ n.snapshots.rows := hp.subset mem_cons_self
        have hno : ((top :: rest).map SnapshotRow.id).Nodup := (hp.map _).nodup_iff.mpr n.snapshots.nodup
        have hid : top.id ∉ ids := by
          intro hmem
          have hd : top.id ∈ ((top :: rest).drop cfg.retained).map SnapshotRow.id := by
            rw [hids, horder] at hmem
            exact (mem_filter.mp hmem).1
          obtain ⟨k, hk⟩ := Nat.exists_eq_add_of_le (one_le_retained cfg)
          rw [hk, Nat.add_comm] at hd
          obtain ⟨r, hr, heq⟩ := mem_map.mp hd
          rw [map_cons, nodup_cons] at hno
          exact hno.1 (mem_map.mpr ⟨r, mem_of_mem_drop hr, heq⟩)
        refine ⟨top, hrm.others top ht hid, le_trans hle ?_⟩
        rcases mem_cons.mp (hp.symm.subset hrow) with heq | hrest
        · rw [heq]
          exact le_refl _
        · exact (pairwise_cons.mp hso).1 row hrest
    refine ⟨⟨?_, ?_⟩, hre⟩
    · intro row hrow hn
      have hold : row ∈ n.snapshots.rows := hrm.rows row hrow
      have hn' : Newest n row := by
        intro other hother
        obtain ⟨r, hr, hle⟩ := hre other.logIndex ⟨other, hother, le_refl _⟩
        exact le_trans hle (hn r hr)
      obtain ⟨data, hf, hg⟩ := h.newest row hold hn'
      refine ⟨data, ?_, ?_⟩
      · rw [hrm.files row hrow (hok row hold hn'), hf]
      · rw [hrm.given, hg]
    · rw [hrm.deleted]
      exact fun e he => hre e.index (h.deleted e he)
  · exact h.keeps

end Cleanup

/-! ### Runs -/

theorem keeps_callStep (h : Kept n) (hcall : CallKept n call) (hok : StepOk cfg o call n) :
    Keeps n (callStep cfg o call n).2 ∧ CallKept (callStep cfg o call n).2 (callStep cfg o call n).1 := by
  cases call with
  | storeLogs entries => exact ⟨keeps_storeLogs h entries, trivial⟩
  | applied index =>
    refine ⟨?_, trivial⟩
    simp only [callStep]
    split
    · exact keeps_of_same h rfl rfl rfl rfl
    · exact h.keeps
  | newTerm term => exact ⟨keeps_of_same h rfl rfl rfl rfl, trivial⟩
  | cleanup => exact ⟨keeps_cleanupSnapshots h hok, trivial⟩
  | snapshot index term =>
    simp only [callStep]
    cases o.snapshot <;> exact ⟨h.keeps, trivial⟩
  | create index term configuration data =>
    obtain ⟨hk, hr⟩ := keeps_createSnapshot h hok
    simp only [callStep]
    cases hc : createSnapshot o index term configuration data n with
    | mk result n' =>
      rw [hc] at hk hr
      cases result with
      | error e => exact ⟨hk, trivial⟩
      | ok row => exact ⟨hk, hr row rfl⟩
  | compact index =>
    refine ⟨keeps_deleteRange h fun hs => ?_, trivial⟩
    rcases hok with ht | hre
    · obtain ⟨row, hrow, hle⟩ := hcall
      exact ⟨row, hrow, le_trans (UInt64.sub_le ht) hle⟩
    · rw [hre] at hs
      cases hs
  | _ => exact ⟨h.keeps, trivial⟩

structure WorldKept (w : World) : Prop where
  node : Kept w.shared
  calls : ∀ call ∈ w.calls, CallKept w.shared call

theorem callKept_of_reaches (h : ∀ i, Reaches n i → Reaches n' i) (hcall : CallKept n call) : CallKept n' call := by
  cases call with
  | compact index => exact h index hcall
  | _ => trivial

theorem worldKept_next {w : World} {event : Event} (h : WorldKept w) (hok : EventOk cfg w event) :
    WorldKept ((machine cfg).next w event) := by
  have hstep : ∀ i o call, event = .run i o → w.calls[i]? = some call →
      Keeps w.shared (callStep cfg o call w.shared).2 ∧
        CallKept (callStep cfg o call w.shared).2 (callStep cfg o call w.shared).1 := by
    intro i o call he hg
    subst he
    exact keeps_callStep h.node (h.calls call (mem_of_getElem? hg)) (hok call hg)
  constructor
  · refine Calls.Machine.next_rule (fun w => Kept w.shared) h.node (fun _ _ => h.node) ?_
    intro i o call he hg
    exact (hstep i o call he hg).1.kept
  · refine Calls.Machine.forall_calls_next (fun call n => CallKept n call) h.calls ?_ ?_
    · intro request
      cases request <;> trivial
    · intro i o call he hg _
      obtain ⟨hk, hs⟩ := hstep i o call he hg
      exact ⟨hs, fun other hother => callKept_of_reaches hk.reaches hother⟩

/-- A node whose snapshots are complete, and whose log has not been compacted since. -/
structure Started (n : Node) : Prop where
  holds : ∀ row ∈ n.snapshots.rows, Holds n row
  deleted : n.deleted = []

theorem Started.kept (h : Started n) : Kept n := by
  refine ⟨fun row hrow _ => h.holds row hrow, ?_⟩
  rw [h.deleted]
  exact nofun

/-- In a run whose steps all meet the condition, every entry that has been deleted is in a snapshot at all
times. -/
theorem deleted_entries_covered (cfg : Config) (n : Node) (hn : Started n) (events : List Event)
    (hok : Run.AllSteps (machine cfg).next (EventOk cfg) (.idle n) events) (k : Nat) :
    Covered ((events.take k).foldl (machine cfg).next (.idle n)).shared := by
  have hs : WorldKept (.idle n) := ⟨hn.kept, fun _ hcall => absurd hcall not_mem_nil⟩
  exact (Run.invariant_of_allSteps WorldKept (fun _ _ => worldKept_next) hs hok k).node.covered

def freshNode : Node :=
  { log := .empty, snapshots := .empty, files := .empty, appliedIndex := 0, term := 1, deleted := []
    given := .empty }

def smooth (nanos : Int) : Outcome :=
  { snapshot := some ([], [7]), nanos, statement := true, write := true, remove := fun _ => true
    erase := fun _ => true, order := [], scanned := fun _ => true }

def twoApplied : List Event :=
  [.start (.storeLogs [⟨1, 1, 0, [10]⟩, ⟨2, 1, 0, [20]⟩]), .run 0 (smooth 0),
    .start (.applied 2), .run 1 (smooth 0)]

/-- A whole `TakeSnapshot`, with the outcome of `CreateSnapshot`. -/
def wholeSnapshot (call : Nat) (create : Outcome) : List Event :=
  [.start .takeSnapshot, .run call (smooth 0), .run call (smooth 0), .run call create, .run call (smooth 0)]

theorem deleted_entries_covered_one :
    let w := (twoApplied ++ wholeSnapshot 2 (smooth 5)).foldl (machine ⟨1, 3⟩).next (.idle freshNode)
    w.shared.deleted = [⟨1, 1, 0, [10]⟩] ∧ Covered w.shared := by
  have hs : Started freshNode := ⟨fun _ hrow => absurd hrow not_mem_nil, rfl⟩
  have hc := deleted_entries_covered ⟨1, 3⟩ freshNode hs
    (twoApplied ++ wholeSnapshot 2 (smooth 5)) (by decide +kernel) 9
  exact ⟨by decide +kernel, hc⟩

/-- The `INSERT` fails, and the file is removed. -/
def afterFailedInsert : World :=
  (twoApplied ++ wholeSnapshot 2 { smooth 5 with statement := false }).foldl (machine ⟨1, 3⟩).next
    (.idle freshNode)

def firstRow : SnapshotRow := ⟨"1-2-5", 2, 1, [], 1⟩
def secondRow : SnapshotRow := ⟨"1-2-6", 2, 1, [], 1⟩

/-- The `DELETE` of the second row fails, and next time the database returns this row first. -/
def twoCleanups : List Event :=
  [.start .cleanup,
    .run 4 { smooth 0 with order := [firstRow, secondRow], erase := fun _ => false },
    .start .cleanup, .run 5 { smooth 0 with order := [secondRow, firstRow] }]

/-- Two snapshots of one index, of which one is to be kept. -/
def afterFailedDelete : World :=
  (twoApplied ++ wholeSnapshot 2 (smooth 5) ++ wholeSnapshot 3 (smooth 6) ++ twoCleanups).foldl
    (machine ⟨1, 1⟩).next (.idle freshNode)

/-- In the first run `TakeSnapshot` returns no error, the first entry is gone, and there is no snapshot; in the
second one the entry is gone, and the one snapshot has no file. -/
theorem compacted_without_snapshot :
    (afterFailedInsert.shared.deleted = [⟨1, 1, 0, [10]⟩] ∧ afterFailedInsert.shared.snapshots.rows = [] ∧
      ¬ Covered afterFailedInsert.shared) ∧ (afterFailedDelete.shared.deleted = [⟨1, 1, 0, [10]⟩] ∧
      afterFailedDelete.shared.snapshots.rows = [secondRow] ∧ afterFailedDelete.shared.files.rows = [] ∧
      ¬ Covered afterFailedDelete.shared) := by
  have hi : afterFailedInsert.shared.deleted = [⟨1, 1, 0, [10]⟩] ∧
      afterFailedInsert.shared.snapshots.rows = [] := by decide +kernel
  have hdelete : afterFailedDelete.shared.deleted = [⟨1, 1, 0, [10]⟩] ∧
      afterFailedDelete.shared.snapshots.rows = [secondRow] ∧
      afterFailedDelete.shared.files.rows = [] := by decide +kernel
  refine ⟨⟨hi.1, hi.2, ?_⟩, ⟨hdelete.1, hdelete.2.1, hdelete.2.2, ?_⟩⟩
  · intro hc
    obtain ⟨row, hrow, -⟩ := hc ⟨1, 1, 0, [10]⟩ (by rw [hi.1]; exact mem_singleton.mpr rfl)
    cases hrow
  · intro hc
    obtain ⟨row, -, -, data, hf, -⟩ :=
      hc ⟨1, 1, 0, [10]⟩ (by rw [hdelete.1]; exact mem_singleton.mpr rfl)
    cases hf

/-! ### The trailing log -/

/-- A `TakeSnapshot` that has read `index`, and what is left of it. -/
def HasRead (index : UInt64) : Call → Prop
  | .snapshot i _ | .create i _ _ _ | .compact i => i = index
  | .returned _ => True
  | _ => False

/-- The call after its first step, which finds `first`, and the later ones: other calls change the node in
between. -/
def snapshotCall (cfg : Config) (first : Outcome × Node) (later : List (Outcome × Node)) : Call :=
  later.foldl (fun call found => (callStep cfg found.1 call found.2).1)
    (callStep cfg first.1 .takeSnapshot first.2).1

theorem hasRead_step (h : HasRead index call) (o : Outcome) (n : Node) : HasRead index (callStep cfg o call n).1 := by
  cases call with
  | snapshot i term =>
    cases hs : o.snapshot <;> simp only [callStep, hs]
    · trivial
    · exact h
  | create i term configuration data =>
    simp only [callStep]
    split
    · trivial
    · exact h
  | compact i => trivial
  | returned result => trivial
  | _ => exact h.elim

theorem hasRead_snapshotCall (cfg : Config) (first : Outcome × Node) (later : List (Outcome × Node)) :
    HasRead first.2.appliedIndex (snapshotCall cfg first later) :=
  Run.invariant (HasRead first.2.appliedIndex) (fun _ => True) (fun _ found _ h => hasRead_step h found.1 found.2)
    rfl (fun _ _ => trivial)

/-- The subtraction is that of the integers, or its result is one that the driver refuses. -/
theorem toNat_sub_of_storable {trailing : UInt64} (hindex : index.toNat < 2 ^ 63)
    (ht : trailing.toNat < 2 ^ 63) (hs : storable (index - trailing) = true) :
    ((index - trailing).toNat : Int) = index.toNat - trailing.toNat := by
  have hb : (index - trailing).toNat < 2 ^ 63 := UInt64.lt_iff_toNat_lt.mp (of_decide_eq_true hs)
  rw [UInt64.toNat_sub] at hb ⊢
  omega

/-- Only the last step of a `TakeSnapshot` deletes entries. -/
theorem deleted_by_snapshot {e : LogEntry} (h : HasRead index call) (he : e ∈ n.log.rows)
    (hgo : e ∉ (callStep cfg o call n).2.log.rows) :
    storable (index - cfg.trailingLogs) = true ∧ e.index ≤ index - cfg.trailingLogs := by
  cases call with
  | snapshot i term =>
    refine absurd he fun _ => hgo ?_
    cases hs : o.snapshot <;> simp only [callStep, hs] <;> exact he
  | create i term configuration data =>
    refine absurd he fun _ => hgo ?_
    simp only [callStep, createSnapshot]
    split_ifs <;> exact he
  | compact i =>
    cases (show i = index from h)
    simp only [callStep, deleteRange] at hgo
    split_ifs at hgo with hg
    · refine ⟨hg.2.2, ?_⟩
      by_contra hb
      refine hgo (mem_filter.mpr ⟨he, ?_⟩)
      simp [inRange, hb]
    · exact absurd he hgo
  | returned result => exact absurd he hgo
  | _ => exact h.elim

/-- **No step of a `TakeSnapshot` deletes an entry beyond the difference of the applied index that the call has
read and `TrailingLogs`**, whatever the other calls do between its steps. -/
theorem trailing_log_kept (cfg : Config) (first : Outcome × Node) (later : List (Outcome × Node))
    (o : Outcome) (n : Node) (e : LogEntry) (htrailing : cfg.trailingLogs.toNat < 2 ^ 63)
    (happlied : first.2.appliedIndex.toNat < 2 ^ 63) (he : e ∈ n.log.rows)
    (hbeyond : (first.2.appliedIndex.toNat : Int) - cfg.trailingLogs.toNat < e.index.toNat) :
    e ∈ (callStep cfg o (snapshotCall cfg first later) n).2.log.rows := by
  by_contra hg
  obtain ⟨hs, hle⟩ := deleted_by_snapshot (hasRead_snapshotCall cfg first later) he hg
  have hsu := toNat_sub_of_storable happlied htrailing hs
  have hindex := UInt64.le_iff_toNat_le.mp hle
  omega

def appliedNode : Node := (twoApplied.foldl (machine ⟨3, 3⟩).next (.idle freshNode)).shared

/-- Three trailing logs of two: the difference is negative, and the step that compacts keeps both entries. -/
theorem trailing_log_kept_short :
    snapshotCall ⟨3, 3⟩ (smooth 0, appliedNode) [(smooth 0, appliedNode), (smooth 5, appliedNode)] = .compact 2 ∧
      ⟨1, 1, 0, [10]⟩ ∈ (callStep ⟨3, 3⟩ (smooth 0)
        (snapshotCall ⟨3, 3⟩ (smooth 0, appliedNode) [(smooth 0, appliedNode), (smooth 5, appliedNode)])
        appliedNode).2.log.rows :=
  ⟨rfl, trailing_log_kept ⟨3, 3⟩ (smooth 0, appliedNode) [(smooth 0, appliedNode), (smooth 5, appliedNode)]
    (smooth 0) appliedNode ⟨1, 1, 0, [10]⟩ (by decide) (by decide +kernel) (by decide +kernel) (by decide +kernel)⟩

end Bib.Cluster.Compaction
