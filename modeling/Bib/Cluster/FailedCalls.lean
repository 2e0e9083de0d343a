import Bib.Cluster.Caches

/-!
# Bib.Cluster.FailedCalls

**What `Apply` and `Restore` leave in the caches when they return an error.** After a `Restore` the maps and the
pointers in them can be nil; writing to a nil map and storing a nil pointer panics. `Caches` is the state
machine with these; without nil its calls are `apply` and `restore` (`apply_ofFsm`, `restore_ofFsm`).

`applyJobAssign` changes the cached job before `StoreJob`, and `Restore` replaces the maps before its first
storage call.
-/

namespace Bib.Cluster

open Bib.Lib Bib.Domain List
open KeyMap (mapVals_set set)

/-! ### Caches with nil maps and nil pointers -/

/-- A Go map with string keys; `none` is the nil map. -/
abbrev GoMap (V : Type) := Option (KeyMap String V)

def GoMap.get? {V : Type} (m : GoMap V) (key : String) : Option V := m.bind fun m => KeyMap.get? m key

def GoMap.members {V : Type} (m : GoMap V) : List (String × V) := m.elim [] Table.rows

structure Caches where
  catalog : GoMap (Option ReplicatedCatalogEntry)
  jobs : GoMap (Option ReplicatedJob)
  config : GoMap (Option Bytes)

/-- The caches answer every lookup in the same way. -/
structure Caches.Same (a b : Caches) : Prop where
  catalog : ∀ key, a.catalog.get? key = b.catalog.get? key
  jobs : ∀ id, a.jobs.get? id = b.jobs.get? id
  config : ∀ key, a.config.get? key = b.config.get? key

theorem Caches.Same.refl (c : Caches) : c.Same c := ⟨fun _ => rfl, fun _ => rfl, fun _ => rfl⟩

inductive Ending
  | ok
  | error (e : ApplyError)
  | panic
  deriving DecidableEq

def Ending.of : Except ApplyError Unit → Ending
  | .ok () => .ok
  | .error e => .error e

/-- Finish a command whose storage call returned `result`; `update` is `none` where the map is nil. -/
def Caches.commit (c : Caches) (s : Storage) (result : Except StorageError Storage) (update : Option Caches) :
    Ending × Caches × Storage :=
  match result, update with
  | .error e, _ => (.error (.storage e), c, s)
  | .ok s, none => (.panic, c, s)
  | .ok s, some c => (.ok, c, s)

def Caches.apply (io : Io) (command : Command) (c : Caches) (s : Storage) : Ending × Caches × Storage :=
  match command with
  | .catalogUpdate entry => c.commit s (storeCatalogEntry io entry s)
      (c.catalog.map fun m => { c with catalog := some (m.set entry.cacheKey (some entry)) })
  | .catalogDelete topicID datasetID =>
    (.ok, { c with catalog := c.catalog.map fun m => m.delete (catalogKey topicID datasetID) }, s)
  | .jobCreate job | .jobUpdate job => c.commit s (storeJob io job s)
      (c.jobs.map fun m => { c with jobs := some (m.set job.jobID (some job)) })
  | .jobAssign id assignedNode =>
    match c.jobs.get? id with
    | none => (.ok, c, s)
    | some none => (.panic, c, s)
    | some (some job) =>
      -- the cached job is changed through its pointer
      let c := { c with jobs := c.jobs.map (set · id (some (assign assignedNode job))) }
      c.commit s (storeJob io (assign assignedNode job) s) (some c)
  | .configSet key value => c.commit s (storeConfig io key value s)
      (c.config.map fun m => { c with config := some (m.set key value) })
  | .configDelete key => (.ok, { c with config := c.config.map fun m => m.delete key }, s)
  | .joinTokenCreate token => c.commit s (storeJoinToken io token s) (some c)
  | .unknown type => (.error (.unknownType type), c, s)
  | .malformed e => (.error (.decode e), c, s)

/-- A storage call of `Restore` with a value. -/
def storeValue (result : Except StorageError Storage) (s : Storage) : Ending × Storage :=
  match result with
  | .error e => (.error (.storage e), s)
  | .ok s => (.ok, s)

/-- A storage call of `Restore` with a pointer. -/
def storePointer {V : Type} (store : V → Storage → Except StorageError Storage) (p : Option V) (s : Storage) :
    Ending × Storage :=
  match p with
  | none => (.panic, s)
  | some v => storeValue (store v s) s

/-- The storage calls of the three loops of `Restore`, one after another. -/
def Caches.storeCalls (io : RestoreCall → Io) (c : Caches) : List (Storage → Ending × Storage) :=
  c.catalog.members.map (fun p => storePointer (storeCatalogEntry (io (.catalog p.1))) p.2) ++
    (c.jobs.members.map (fun p => storePointer (storeJob (io (.job p.1))) p.2) ++
      c.config.members.map fun p s => storeValue (storeConfig (io (.config p.1)) p.1 p.2 s) s)

def runCalls : List (Storage → Ending × Storage) → Storage → Ending × Storage
  | [], s => (.ok, s)
  | call :: calls, s =>
    match call s with
    | (.ok, s) => runCalls calls s
    | (ending, s) => (ending, s)

/-- `FSM.Restore` on bytes that `json.Unmarshal` reads as `decoded`. -/
def Caches.restore (io : RestoreCall → Io) (decoded : Except String Caches) (c : Caches) (s : Storage) :
    Ending × Caches × Storage :=
  match decoded with
  | .error e => (.error (.decode e), c, s)
  | .ok c => ((runCalls (c.storeCalls io) s).1, c, (runCalls (c.storeCalls io) s).2)

/-! ### Without nil -/

def Caches.ofFsm (fsm : FSM) : Caches :=
  { catalog := some (fsm.catalog.mapVals some)
    jobs := some (fsm.jobs.mapVals some)
    config := some (fsm.config.mapVals some) }

open Caches (ofFsm)

theorem commit_ofFsm (node : Node) {result : Except StorageError Storage} {update : FSM → FSM}
    {updated : Option Caches} (h : updated = some (.ofFsm (update node.fsm))) :
    (ofFsm node.fsm).commit node.storage result updated =
      (.of (node.commit result update).1, .ofFsm (node.commit result update).2.fsm,
        (node.commit result update).2.storage) := by
  subst h
  cases result <;> rfl

theorem apply_ofFsm (io : Io) (command : Command) (node : Node) :
    (ofFsm node.fsm).apply io command node.storage =
      (.of (apply io command node).1, .ofFsm (apply io command node).2.fsm,
        (apply io command node).2.storage) := by
  cases command with
  | catalogUpdate entry =>
    refine commit_ofFsm node ?_
    simp [ofFsm, mapVals_set]
  | jobCreate job | jobUpdate job =>
    refine commit_ofFsm node ?_
    simp [ofFsm, mapVals_set]
  | catalogDelete | configDelete =>
    simp [Caches.apply, ofFsm, apply, applyCatalogDelete, applyConfigDelete, Ending.of,
      KeyMap.mapVals_delete]
  | jobAssign id assignedNode =>
    have hg : (ofFsm node.fsm).jobs.get? id = (node.fsm.jobs.get? id).map some :=
      KeyMap.get?_mapVals some node.fsm.jobs id
    simp only [Caches.apply, apply, applyJobAssign, hg]
    cases node.fsm.jobs.get? id with
    | none => rfl
    | some job =>
      simp only [Option.map_some, ofFsm, ← mapVals_set]
      exact commit_ofFsm
        { node with fsm := { node.fsm with jobs := node.fsm.jobs.set id (assign assignedNode job) } } rfl
  | configSet key value =>
    cases value with
    | none => rfl
    | some value =>
      refine commit_ofFsm node ?_
      simp [ofFsm, mapVals_set]
  | joinTokenCreate token => exact commit_ofFsm node rfl
  | unknown type => rfl
  | malformed e => rfl

theorem runCalls_append (calls calls' : List (Storage → Ending × Storage)) (s : Storage) :
    runCalls (calls ++ calls') s =
      match runCalls calls s with
      | (.ok, s) => runCalls calls' s
      | (ending, s) => (ending, s) := by
  induction calls generalizing s with
  | nil => rfl
  | cons call calls ih =>
    simp only [cons_append, runCalls]
    obtain ⟨ending, s'⟩ := call s
    cases ending with
    | ok => exact ih s'
    | _ => rfl

theorem runCalls_storeAll {V : Type} (store : String → V → Storage → Except StorageError Storage)
    (members : List (String × V)) (s : Storage) :
    runCalls (members.map fun p s => storeValue (store p.1 p.2 s) s) s =
      (.of ((storeAll store members s).1.mapError .storage), (storeAll store members s).2) := by
  induction members generalizing s with
  | nil => rfl
  | cons p members ih =>
    simp only [map_cons, runCalls, storeAll]
    cases hs : store p.1 p.2 s with
    | error e => rfl
    | ok s' => exact ih s'

theorem storeCalls_ofFsm (io : RestoreCall → Io) (fsm : FSM) : (ofFsm fsm).storeCalls io =
      fsm.catalog.rows.map (fun p s => storeValue (storeCatalogEntry (io (.catalog p.1)) p.2 s) s) ++
        (fsm.jobs.rows.map (fun p s => storeValue (storeJob (io (.job p.1)) p.2 s) s) ++
          fsm.config.rows.map fun p s =>
            storeValue (storeConfig (io (.config p.1)) p.1 (some p.2) s) s) := by
  simp only [Caches.storeCalls, ofFsm, GoMap.members, Option.elim_some, KeyMap.mapVals, map_map]
  rfl

theorem restore_ofFsm (io : RestoreCall → Io) (snap : Snapshot) (c : Caches) (node : Node) :
    c.restore io (.ok (.ofFsm snap.decode)) node.storage =
      (.of ((restore io snap node).1.mapError .storage), .ofFsm (restore io snap node).2.fsm,
        (restore io snap node).2.storage) := by
  have hc := runCalls_storeAll fun key => storeCatalogEntry (io (.catalog key))
  have hj := runCalls_storeAll fun key => storeJob (io (.job key))
  have hco := runCalls_storeAll fun key value => storeConfig (io (.config key)) key (some value)
  simp only [Caches.restore, storeCalls_ofFsm, runCalls_append, hc, hj, hco, restore, Snapshot.decode]
  obtain ⟨result, s₁⟩ := storeAll (fun key => storeCatalogEntry (io (.catalog key)))
    (unmarshalMap snap.catalog).rows node.storage
  cases result with
  | error e => rfl
  | ok =>
    simp only [Except.mapError, Ending.of]
    obtain ⟨result, s₂⟩ := storeAll (fun key => storeJob (io (.job key))) (unmarshalMap snap.jobs).rows s₁
    cases result <;> rfl

/-! ### Which errors leave the caches as they were -/

/-- How a storage call of `Restore` with a pointer ends: the tables do not matter. -/
def pointerEnding {V : Type} (io : Io) : Option V → Ending
  | none => .panic
  | some _ => match io with
    | .ok => .ok
    | .fails message => .error (.storage (.io message))

def configEnding (io : Io) : Option Bytes → Ending
  | none => .error (.storage (.notNull "replicated_config.value"))
  | some value => pointerEnding io (some value)

/-- How the storage calls of `Restore` would end, in their order. -/
def Caches.endings (io : RestoreCall → Io) (c : Caches) : List Ending :=
  c.catalog.members.map (fun p => pointerEnding (io (.catalog p.1)) p.2) ++
    (c.jobs.members.map (fun p => pointerEnding (io (.job p.1)) p.2) ++
      c.config.members.map fun p => configEnding (io (.config p.1)) p.2)

def firstStop (endings : List Ending) : Ending := (endings.find? (· ≠ .ok)).getD .ok

theorem runCalls_fst {calls : List (Storage → Ending × Storage)} {endings : List Ending}
    (h : List.Forall₂ (fun call ending => ∀ s, (call s).1 = ending) calls endings) (s : Storage) :
    (runCalls calls s).1 = firstStop endings := by
  induction h generalizing s with
  | nil => rfl
  | @cons call ending calls endings hcall hrest ih =>
    rw [runCalls, ← Prod.eta (call s), hcall s]
    cases ending with
    | ok => exact ih (call s).2
    | _ => rfl

theorem forall₂_map {A : Type} {call : A → Storage → Ending × Storage} {ending : A → Ending}
    (h : ∀ a s, (call a s).1 = ending a) (l : List A) :
    List.Forall₂ (fun call ending => ∀ s, (call s).1 = ending) (l.map call) (l.map ending) := by
  rw [forall₂_map_left_iff, forall₂_map_right_iff]
  exact forall₂_same.mpr fun a _ => h a

theorem runCalls_storeCalls (io : RestoreCall → Io) (c : Caches) (s : Storage) :
    (runCalls (c.storeCalls io) s).1 = firstStop (c.endings io) := by
  refine runCalls_fst (rel_append (forall₂_map ?_ _)
    (rel_append (forall₂_map ?_ _) (forall₂_map ?_ _))) s
  · intro p s
    cases p.2 <;> cases io (.catalog p.1) <;> rfl
  · intro p s
    cases p.2 <;> cases io (.job p.1) <;> rfl
  · intro p s
    cases p.2 <;> cases io (.config p.1) <;> rfl

/-- The condition for `Apply`: an assignment whose row is not stored changes nothing. -/
def ApplyKeeps (io : Io) (c : Caches) : Command → Prop
  | .jobAssign id assignedNode => io = .ok ∨ ∀ job, c.jobs.get? id = some (some job) →
      job.assignedNode = assignedNode ∧ job.status = "assigned"
  | _ => True

/-- The condition for `Restore`: it does not come to a storage call that returns an error, or the document holds
what is cached already. -/
def RestoreKeeps (io : RestoreCall → Io) (decoded : Except String Caches) (c : Caches) : Prop :=
  ∀ new, decoded = .ok new → (∀ e, firstStop (new.endings io) ≠ .error e) ∨ new.Same c

variable {c : Caches} {job : ReplicatedJob}

theorem same_of_commit_error {s : Storage} {result : Except StorageError Storage}
    {update : Option Caches} {e : ApplyError} (h : (c.commit s result update).1 = .error e) :
    (c.commit s result update).2.1.Same c := by
  cases result with
  | error e => exact .refl c
  | ok s => cases update <;> cases h

theorem assign_eq_self_iff {assignedNode : String} :
    assign assignedNode job = job ↔ job.assignedNode = assignedNode ∧ job.status = "assigned" := by
  constructor
  · intro h
    rw [← h]
    exact ⟨rfl, rfl⟩
  · intro h
    rw [assign, ← h.1, ← h.2]

theorem same_setJob_iff {id : String} {job' : ReplicatedJob}
    (hg : c.jobs.get? id = some (some job)) :
    Caches.Same { c with jobs := c.jobs.map (set · id (some job')) } c ↔ job' = job := by
  obtain ⟨m, hm, hj⟩ := Option.bind_eq_some_iff.mp hg
  have hs : ∀ id', GoMap.get? (c.jobs.map (set · id (some job'))) id' =
      if id' = id then some (some job') else c.jobs.get? id' := by
    intro id'
    rw [hm]
    exact KeyMap.get?_set m id id' (some job')
  constructor
  · intro h
    have hid := (hs id).symm.trans (h.jobs id)
    rw [if_pos rfl, hg] at hid
    cases hid
    rfl
  · intro h
    refine ⟨fun _ => rfl, fun id' => (hs id').trans ?_, fun _ => rfl⟩
    by_cases hid : id' = id
    · rw [if_pos hid, hid, hg, h]
    · rw [if_neg hid]

theorem apply_keeps_iff (io : Io) (command : Command) (c : Caches) (s : Storage) :
    (∀ e, (c.apply io command s).1 = .error e → (c.apply io command s).2.1.Same c) ↔
      ApplyKeeps io c command := by
  cases command with
  | jobAssign id assignedNode =>
    simp only [Caches.apply, ApplyKeeps, ← assign_eq_self_iff]
    cases hg : c.jobs.get? id with
    | none => exact iff_of_true (fun e h => by cases h) (.inr fun job h => by cases h)
    | some pointer =>
      cases pointer with
      | none => exact iff_of_true (fun e h => by cases h) (.inr fun job h => by cases h)
      | some job =>
        simp only [Option.some.injEq, forall_eq', ← same_setJob_iff hg]
        cases io with
        | ok => exact iff_of_true (fun e h => by cases h) (.inl rfl)
        | fails message =>
          refine ⟨fun h => .inr (h _ rfl), fun h e _ => ?_⟩
          obtain hok | hs := h
          · cases hok
          · exact hs
  | catalogDelete | configDelete => exact iff_of_true (fun e h => by cases h) trivial
  | unknown | malformed => exact iff_of_true (fun _ _ => .refl c) trivial
  | _ => exact iff_of_true (fun _ h => same_of_commit_error h) trivial

theorem restore_keeps_iff (io : RestoreCall → Io) (decoded : Except String Caches) (c : Caches) (s : Storage) :
    (∀ e, (c.restore io decoded s).1 = .error e → (c.restore io decoded s).2.1.Same c) ↔
      RestoreKeeps io decoded c := by
  cases decoded with
  | error e => exact iff_of_true (fun _ _ => .refl c) (fun new h => by cases h)
  | ok new =>
    simp only [Caches.restore, RestoreKeeps, runCalls_storeCalls, Except.ok.injEq, forall_eq']
    constructor
    · intro h
      by_cases hs : ∃ e, firstStop (new.endings io) = .error e
      · obtain ⟨e, he⟩ := hs
        exact .inr (h e he)
      · exact .inl fun e he => hs ⟨e, he⟩
    · intro h e he
      exact h.resolve_left fun hno => hno e he

/-- **An `Apply` or a `Restore` that returns an error leaves the caches as they were exactly when it is not an
assignment that changes a cached job without storing it, nor a `Restore` that fails behind its decoding with a
document that holds something else.** -/
theorem failed_calls_keep_caches_iff (c : Caches) (s : Storage) :
    (∀ io command, (∀ e, (c.apply io command s).1 = .error e → (c.apply io command s).2.1.Same c) ↔
        ApplyKeeps io c command) ∧ ∀ io decoded, (∀ e, (c.restore io decoded s).1 = .error e →
          (c.restore io decoded s).2.1.Same c) ↔ RestoreKeeps io decoded c :=
  ⟨fun io command => apply_keeps_iff io command c s, fun io decoded => restore_keeps_iff io decoded c s⟩

/-- A command, or a document of `Snapshot` to restore. -/
inductive FsmCall
  | apply (io : Io) (command : Command)
  | restore (io : RestoreCall → Io) (snap : Snapshot)

def Caches.call (c : Caches) (s : Storage) : FsmCall → Ending × Caches × Storage
  | .apply io command => c.apply io command s
  | .restore io snap => c.restore io (.ok (ofFsm snap.decode)) s

theorem call_ofFsm (node : Node) (call : FsmCall) : ∃ result, ∃ node' : Node,
    (ofFsm node.fsm).call node.storage call = (.of result, ofFsm node'.fsm, node'.storage) := by
  cases call with
  | apply io command => exact ⟨_, _, apply_ofFsm io command node⟩
  | restore io snap => exact ⟨_, _, restore_ofFsm io snap (ofFsm node.fsm) node⟩

/-- **No call panics** in any run of commands and restores of `Snapshot` documents, whatever fails in it. -/
theorem calls_never_panic (node : Node) (calls : List FsmCall) (call : FsmCall) :
    let st := calls.foldl (fun st call => (Caches.call st.1 st.2 call).2) (ofFsm node.fsm, node.storage)
    (st.1.call st.2 call).1 ≠ .panic := by
  intro st
  obtain ⟨node', h⟩ : ∃ node' : Node, st = (ofFsm node'.fsm, node'.storage) := by
    refine foldlRecOn (motive := fun st => ∃ node' : Node, st = (ofFsm node'.fsm, node'.storage)) calls _
      ⟨node, rfl⟩ ?_
    rintro _ ⟨node, rfl⟩ call -
    obtain ⟨_, node', hc⟩ := call_ofFsm node call
    exact ⟨node', by rw [hc]⟩
  obtain ⟨result, _, hc⟩ := call_ofFsm node' call
  rw [h, hc]
  cases result <;> exact fun he => by cases he

def oneJob : Caches :=
  { catalog := some .empty, jobs := some (set .empty "j" (some (retyped "a"))), config := some .empty }

/-- The assignment is not stored, and the job is assigned in the cache; the document is not stored, and the job
is gone. -/
theorem failed_calls_change_caches :
    ((oneJob.apply (.fails "disk full") (.jobAssign "j" "n") .fresh).1 = .error (.storage (.io "disk full")) ∧
      (oneJob.apply (.fails "disk full") (.jobAssign "j" "n") .fresh).2.1.jobs.get? "j" =
        some (some (assign "n" (retyped "a")))) ∧
    (oneJob.restore (fun _ => .ok) (.ok { oneJob with jobs := none, config := some (set .empty "k" none) })
        .fresh).1 = .error (.storage (.notNull "replicated_config.value")) ∧
      (oneJob.restore (fun _ => .ok) (.ok { oneJob with jobs := none, config := some (set .empty "k" none) })
        .fresh).2.1.jobs.get? "j" = none := by
  decide +kernel

end Bib.Cluster
